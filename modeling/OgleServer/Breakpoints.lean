import OgleServer.Eval

/-!
# Breakpoints — `Breakpoint`, `setBreakpoints` and `liftBreakpoints`

`Server.Breakpoint` evaluates its address to a list of addresses and, for
each in turn, resolves it with `evalAddress`, refuses a pc already in the
table, reads the original bytes there with `ptracePeek`, and inserts the
entry at once: there is no staging, so an error at a later address
returns with the earlier entries in place.

`setBreakpoints` and `liftBreakpoints` are one loop, `pokeAll`, over the
map in the runtime's order, poking the breakpoint instruction or each
entry's saved bytes; the first failed poke ends it.

What the module proves about these steps:

* `breakpoint_adds`: whatever its outcome, `Breakpoint` keeps every
  entry it found and adds only entries keyed by their own pc that hold
  the bytes the debuggee had there (`Adds`);
* `breakpoint_ok_inserts`: a call that returns inserted one entry in
  front of the table for each address `eval` listed;
* `breakpoint_error_prefix`: the entries an erroring call leaves behind
  are those of a prefix of the addresses `eval` listed;
* `breakpoint_src_unset`: a `src:` expression never sets a breakpoint,
  since `evalAddress` refuses the `file:line` text `eval` answers with;
* `breakpoint_number_at_entry`: a number sets the breakpoint at the entry
  of the function containing it, not at the number;
* `pokeBreakpoints_keeps`: the poke loops keep every relation the pokes
  keep, however they end;
* `pokeAll_ok`: a loop that got through wrote every entry's bytes, in the
  order it was given; lifting after installing gives the code back
  (`writeAll_lift_install`), and installing arms every pc of a table whose
  pcs lie apart (`readMem_writeAll_trapBytes`).
-/

namespace OgleServer

/-- `bp.origInstr` after the peek: the bytes read, then the zero value of
the rest of the `[MaxBreakpointSize]byte` (`bp` is declared once, before
the loop, and only its first `BreakpointSize` bytes are ever written). -/
def origInstrOf (exe : Exe) (bytes : List UInt8) : List UInt8 :=
  bytes ++ List.replicate (exe.arch.maxBreakpointSize - exe.arch.breakpointSize) 0

/-- The saved bytes an entry pokes back are the bytes it read. -/
theorem take_origInstrOf (exe : Exe) {bytes : List UInt8} (h : bytes.length = exe.arch.breakpointSize) :
    (origInstrOf exe bytes).take exe.arch.breakpointSize = bytes :=
  List.take_left' h

/-- One address of `Server.Breakpoint`'s loop. -/
def breakpointAt (exe : Exe) (addr : String) : Eng Unit := do
  let pc ← check "" (evalAddress exe addr)
  let s ← getSrv
  if pc ∈ s.breakpoints then
    fail ("breakpoint already set at " ++ fmtHex pc.toNat ++ " (TODO)")
  let bytes ← check "ptracePeek: " (← ptracePeek s.stoppedPid pc exe.arch.breakpointSize)
  modifySrv fun s =>
    { s with breakpoints := s.breakpoints.insert pc ⟨pc, origInstrOf exe bytes⟩ }

/-- `Server.Breakpoint`. -/
def breakpoint (exe : Exe) (address : String) : Eng Unit := do
  let addrs ← check "" (eval exe address)
  addrs.forM (breakpointAt exe)

/-- The loop of `setBreakpoints` and `liftBreakpoints`: poke `bytes bp` at
each entry's pc in the order given, and stop at the first failure. -/
def pokeAll (pid : Int) (tag : String) (bytes : Breakpoint → List UInt8) :
    List (Sigma fun _ : BitVec 64 => Breakpoint) → Eng Unit
  | [] => pure ()
  | ⟨pc, bp⟩ :: rest => do
    check (tag ++ ": ") (← ptracePoke pid pc (bytes bp))
    pokeAll pid tag bytes rest

/-- The breakpoint instruction, `BreakpointInstr[:BreakpointSize]`. -/
def trapBytes (exe : Exe) : List UInt8 :=
  exe.arch.breakpointInstr.take exe.arch.breakpointSize

/-- The loop `setBreakpoints` and `liftBreakpoints` share: poke `bytes bp`
at every entry of the table, in the runtime's order for this `range`. -/
def pokeBreakpoints (tag : String) (bytes : Breakpoint → List UInt8) : Eng Unit := do
  let s ← getSrv
  let order ← rangeOrder s.breakpoints
  pokeAll s.stoppedPid tag bytes order

/-- `Server.setBreakpoints`. -/
def setBreakpoints (exe : Exe) : Eng Unit :=
  pokeBreakpoints "setBreakpoints" fun _ => trapBytes exe

/-- `Server.liftBreakpoints`. -/
def liftBreakpoints (exe : Exe) : Eng Unit :=
  pokeBreakpoints "liftBreakpoints" fun bp => bp.origInstr.take exe.arch.breakpointSize

/-! ## What `Breakpoint` does to the table -/

/-- `e'` is `e` with breakpoints added: nothing else of the server or the
debuggee changed, every old entry is still there, and every new entry is
keyed by its own pc and holds the code bytes the debuggee had there. -/
structure Adds (exe : Exe) (e e' : Engine) : Prop where
  srv : e'.srv = { e.srv with breakpoints := e'.srv.breakpoints }
  tracee : e'.world.tracee = e.world.tracee
  execs : e'.world.execs = e.world.execs
  keep : ∀ pc bp, e.srv.breakpoints.lookup pc = some bp → e'.srv.breakpoints.lookup pc = some bp
  new : ∀ pc bp, e'.srv.breakpoints.lookup pc = some bp → e.srv.breakpoints.lookup pc = none →
    bp.pc = pc ∧ ∃ t, e.world.tracee = some t ∧
      bp.origInstr = origInstrOf exe (readMem t.mem pc.toNat exe.arch.breakpointSize)

theorem Adds.refl (exe : Exe) : Reflexive (Adds exe) := fun e =>
  ⟨rfl, rfl, rfl, fun _ _ h => h, fun _ _ h h' => by rw [h] at h'; cases h'⟩

theorem Adds.trans (exe : Exe) : Transitive (Adds exe) := by
  intro e₁ e₂ e₃ h₁₂ h₂₃
  refine ⟨?_, h₂₃.tracee.trans h₁₂.tracee, h₂₃.execs.trans h₁₂.execs,
    fun pc bp h => h₂₃.keep pc bp (h₁₂.keep pc bp h), fun pc bp h₃ h₁ => ?_⟩
  · rw [h₂₃.srv, h₁₂.srv]
  · cases h₂ : e₂.srv.breakpoints.lookup pc with
    | none =>
      obtain ⟨hpc, t, ht, horig⟩ := h₂₃.new pc bp h₃ h₂
      exact ⟨hpc, t, h₁₂.tracee ▸ ht, horig⟩
    | some bp' =>
      have := h₂₃.keep pc bp' h₂
      rw [h₃] at this
      cases this
      exact h₁₂.new pc bp h₂ h₁

/-- A step that changed neither the server nor the debuggee. -/
theorem Adds.of_same {exe : Exe} {e e' : Engine} (hs : e'.srv = e.srv)
    (ht : e'.world.tracee = e.world.tracee) (hx : e'.world.execs = e.world.execs) :
    Adds exe e e' :=
  ⟨by rw [hs], ht, hx, fun _ _ h => hs ▸ h, fun _ _ h₁ h₂ => by rw [hs, h₂] at h₁; cases h₁⟩

/-- A trace call that only reads keeps `Adds`. -/
theorem Adds.of_read {α : Type} (exe : Exe) {act : Tracee → α × Tracee × List Exec}
    (hact : ∀ t, (act t).2 = (t, [])) : Keeps (Adds exe) (traceCall act) := by
  intro e
  obtain ⟨r, e', h⟩ := traceCall_answers act e
  rw [h, stateOf_ok]
  cases r with
  | error err =>
    obtain ⟨hs, ht, hx⟩ := traceCall_error h
    exact Adds.of_same hs ht hx
  | ok a =>
    obtain ⟨t, ht, -, hs, ht', hx⟩ := traceCall_ok h
    rw [hact] at ht' hx
    exact Adds.of_same hs (ht'.trans ht.symm) (by simpa using hx)

/-- **One address, succeeding**: its pc resolved, was not yet in the table,
and its entry, with the debuggee's bytes there, was inserted; nothing
else changed. -/
theorem breakpointAt_ok {exe : Exe} {addr : String} {e e' : Engine} {u : Unit}
    (h : breakpointAt exe addr e = .ok u e') :
    ∃ pc t, evalAddress exe addr = .ok pc ∧ pc ∉ e.srv.breakpoints ∧ e.world.tracee = some t ∧
      e'.srv = { e.srv with breakpoints := (e.srv.breakpoints.insert pc
        ⟨pc, origInstrOf exe (readMem t.mem pc.toNat exe.arch.breakpointSize)⟩) } ∧
      e'.world.tracee = e.world.tracee ∧ e'.world.execs = e.world.execs := by
  unfold breakpointAt at h
  cases hpc : evalAddress exe addr with
  | error err => rw [hpc] at h; cases h
  | ok pc =>
    simp only [hpc, check_ok, pure_bind, getSrv_bind] at h
    split at h
    · simp only [fail_bind] at h; cases h
    · rename_i hfresh
      obtain ⟨r, e₁, hp⟩ := traceCall_answers
        (fun t => (readMem t.mem pc.toNat exe.arch.breakpointSize, t, ([] : List Exec))) e
      rw [bind_ok (show ptracePeek e.srv.stoppedPid pc exe.arch.breakpointSize e = .ok r e₁ from hp)]
        at h
      cases r with
      | error err => simp only [check_error, fail_bind] at h; cases h
      | ok bytes =>
        obtain ⟨t, ht, rfl, hs, ht', hx⟩ := traceCall_ok hp
        simp only [check_ok, pure_bind, modifySrv_apply] at h
        cases h
        exact ⟨pc, t, rfl, hfresh, ht, by rw [hs], ht'.trans ht.symm, by simpa using hx⟩

/-- **One address, on a pc not yet set, with a kernel that answers the
peek**: the entry goes in, and the call used one of the kernel's answers. -/
theorem breakpointAt_fresh {exe : Exe} {addr : String} {pc : BitVec 64} {e : Engine} {t : Tracee}
    (hpc : evalAddress exe addr = .ok pc) (hfresh : pc ∉ e.srv.breakpoints)
    (ht : e.world.tracee = some t) (hacks : ∀ err rest, e.world.acks ≠ some err :: rest) :
    ∃ e', breakpointAt exe addr e = .ok () e' ∧
      e'.srv = { e.srv with breakpoints := (e.srv.breakpoints.insert pc
        ⟨pc, origInstrOf exe (readMem t.mem pc.toNat exe.arch.breakpointSize)⟩) } ∧
      e'.world.tracee = some t ∧ e'.world.acks = e.world.acks.tail ∧ e'.world.stops = e.world.stops := by
  simp only [breakpointAt, hpc, check_ok, pure_bind, getSrv_bind, if_neg hfresh]
  obtain ⟨srv, ⟨tracee, nextPid, acks, stops, shuffles, disk, execs, mapLimit⟩⟩ := e
  dsimp only at ht hacks ⊢
  subst ht
  rcases acks with _ | ⟨_ | err, rest⟩
  · exact ⟨_, rfl, rfl, rfl, rfl, rfl⟩
  · exact ⟨_, rfl, rfl, rfl, rfl, rfl⟩
  · exact absurd rfl (hacks err rest)

/-- **One address, erroring**: nothing of the server or the debuggee
changed. -/
theorem breakpointAt_error {exe : Exe} {addr : String} {e e' : Engine} {err : GoError}
    (h : breakpointAt exe addr e = .error err e') :
    e'.srv = e.srv ∧ e'.world.tracee = e.world.tracee ∧ e'.world.execs = e.world.execs := by
  unfold breakpointAt at h
  cases hpc : evalAddress exe addr with
  | error err => rw [hpc] at h; cases h; exact ⟨rfl, rfl, rfl⟩
  | ok pc =>
    simp only [hpc, check_ok, pure_bind, getSrv_bind] at h
    split at h
    · simp only [fail_bind] at h; cases h; exact ⟨rfl, rfl, rfl⟩
    · obtain ⟨r, e₁, hp⟩ := traceCall_answers
        (fun t => (readMem t.mem pc.toNat exe.arch.breakpointSize, t, ([] : List Exec))) e
      rw [bind_ok (show ptracePeek e.srv.stoppedPid pc exe.arch.breakpointSize e = .ok r e₁ from hp)]
        at h
      cases r with
      | error err => simp only [check_error, fail_bind] at h; cases h; exact traceCall_error hp
      | ok bytes => simp only [check_ok, pure_bind, modifySrv_apply] at h; cases h

/-- One address of the loop keeps `Adds`. -/
theorem breakpointAt_adds (exe : Exe) (addr : String) :
    Keeps (Adds exe) (breakpointAt exe addr) := by
  intro e
  cases h : breakpointAt exe addr e with
  | error err e' =>
    obtain ⟨hs, ht, hx⟩ := breakpointAt_error h
    exact Adds.of_same hs ht hx
  | ok u e' =>
    obtain ⟨pc, t, -, hfresh, ht, hs, ht', hx⟩ := breakpointAt_ok h
    show Adds exe e e'
    refine ⟨by rw [hs], ht', hx, fun pc' bp h' => ?_, fun pc' bp h₁ h₂ => ?_⟩
    · have hne : pc' ≠ pc := fun heq => hfresh (heq ▸ AList.lookup_isSome.mp (by simp [h']))
      rw [hs, AList.lookup_insert_ne hne]
      exact h'
    · rw [hs] at h₁
      by_cases heq : pc' = pc
      · subst heq
        rw [AList.lookup_insert] at h₁
        cases h₁
        exact ⟨rfl, t, ht, rfl⟩
      · rw [AList.lookup_insert_ne heq, h₂] at h₁
        cases h₁

theorem keeps_forM {R : Engine → Engine → Prop} (hR : Reflexive R) (hT : Transitive R)
    {β : Type} (f : β → Eng Unit) (hf : ∀ b, Keeps R (f b)) :
    ∀ l : List β, Keeps R (l.forM f)
  | [] => Keeps.pure hR _
  | b :: l => by
    rw [List.forM_cons']
    exact Keeps.bind hT (hf b) fun _ => keeps_forM hR hT f hf l

/-- **`Breakpoint` only adds**: whatever its outcome, every entry it found
is kept, and every entry it adds is keyed by its own pc and holds the
debuggee's bytes at that pc. -/
theorem breakpoint_adds (exe : Exe) (address : String) : Keeps (Adds exe) (breakpoint exe address) :=
  Keeps.bind (Adds.trans exe) (Keeps.check (Adds.refl exe) _ _) fun _ =>
    keeps_forM (Adds.refl exe) (Adds.trans exe) _ (breakpointAt_adds exe) _

/-- The loop that returns has inserted, in front of the table, one entry
for each address, at the pc the address resolved to. -/
theorem forM_breakpointAt_ok {exe : Exe} :
    ∀ (addrs : List String) {e e' : Engine} {u : Unit}, addrs.forM (breakpointAt exe) e = .ok u e' →
      ∃ pcs, List.Forall₂ (fun a pc => evalAddress exe a = .ok pc) addrs pcs ∧
        e'.srv.breakpoints.keys = pcs.reverse ++ e.srv.breakpoints.keys
  | [], _, _, _, h => by cases h; exact ⟨[], .nil, rfl⟩
  | a :: rest, e, e', u, h => by
    rw [List.forM_cons'] at h
    obtain ⟨_, e₁, ha, h⟩ := bind_eq_ok.mp h
    obtain ⟨pc, t, hpc, hfresh, -, hs, -⟩ := breakpointAt_ok ha
    obtain ⟨pcs, hall, hkeys⟩ := forM_breakpointAt_ok rest h
    refine ⟨pc :: pcs, .cons hpc hall, ?_⟩
    rw [hkeys, hs, List.reverse_cons, List.append_assoc, AList.keys_insert,
      List.erase_of_not_mem fun h => hfresh (AList.mem_keys.mpr h)]
    rfl

/-- **A `Breakpoint` that returns** resolved every address `eval` listed
and put one new entry in front of the table for each, in the order of the
list; it only added (`Adds`), so the new pcs are distinct, none was set
before, and each entry holds the debuggee's bytes at its pc. -/
theorem breakpoint_ok_inserts {exe : Exe} {address : String} {e e' : Engine} {u : Unit}
    (h : breakpoint exe address e = .ok u e') :
    ∃ addrs pcs, eval exe address = .ok addrs ∧
      List.Forall₂ (fun a pc => evalAddress exe a = .ok pc) addrs pcs ∧
      e'.srv.breakpoints.keys = pcs.reverse ++ e.srv.breakpoints.keys ∧ Adds exe e e' := by
  have hadds := breakpoint_adds exe address e
  rw [h] at hadds
  cases haddrs : eval exe address with
  | error err => simp only [breakpoint, haddrs, check_error, fail_bind] at h; cases h
  | ok addrs =>
    simp only [breakpoint, haddrs, check_ok, pure_bind] at h
    obtain ⟨pcs, hall, hkeys⟩ := forM_breakpointAt_ok addrs h
    exact ⟨addrs, pcs, rfl, hall, hkeys, hadds⟩

/-- `re:main.foo` names one symbol, at `0x1000`. -/
theorem breakpoint_ok_inserts_re :
    let e' := stateOf (breakpoint demoExe "re:main.foo" demoTraced)
    breakpoint demoExe "re:main.foo" demoTraced = .ok () e' ∧
    ∃ addrs pcs, eval demoExe "re:main.foo" = .ok addrs ∧
      List.Forall₂ (fun a pc => evalAddress demoExe a = .ok pc) addrs pcs ∧
      e'.srv.breakpoints.keys = pcs.reverse ++ demoTraced.srv.breakpoints.keys ∧ Adds demoExe demoTraced e' :=
  ⟨rfl, breakpoint_ok_inserts rfl⟩

/-! ## A pc already set -/

theorem Adds.mem {exe : Exe} {e e' : Engine} (h : Adds exe e e') {pc : BitVec 64}
    (hpc : pc ∈ e.srv.breakpoints) : pc ∈ e'.srv.breakpoints := by
  obtain ⟨bp, hbp⟩ := Option.isSome_iff_exists.mp (AList.lookup_isSome.mpr hpc)
  exact AList.lookup_isSome.mp (by rw [h.keep pc bp hbp]; rfl)

/-- An address that resolves to a pc already set is refused, and nothing
changes. -/
theorem breakpointAt_already_set {exe : Exe} {addr : String} {pc : BitVec 64} {e : Engine}
    (hpc : evalAddress exe addr = .ok pc) (hset : pc ∈ e.srv.breakpoints) :
    breakpointAt exe addr e =
      .error (.error ("breakpoint already set at " ++ fmtHex pc.toNat ++ " (TODO)")) e := by
  simp [breakpointAt, hpc, hset]

/-- A `Breakpoint` that returned found none of its addresses set. -/
theorem forM_breakpointAt_fresh {exe : Exe} :
    ∀ (addrs : List String) {e e' : Engine} {u : Unit}, addrs.forM (breakpointAt exe) e = .ok u e' →
      ∀ a ∈ addrs, ∀ pc, evalAddress exe a = .ok pc → pc ∉ e.srv.breakpoints
  | [], _, _, _, _, a, ha, _, _ => absurd ha (List.not_mem_nil a)
  | b :: rest, e, e', u, h, a, ha, pc, hpc => by
    rw [List.forM_cons'] at h
    obtain ⟨_, e₁, hb, h⟩ := bind_eq_ok.mp h
    rcases List.mem_cons.mp ha with rfl | ha
    · obtain ⟨pc', t, hpc', hfresh, -⟩ := breakpointAt_ok hb
      rw [hpc] at hpc'
      cases hpc'
      exact hfresh
    · have hadds : Adds exe e e₁ := by simpa [hb] using breakpointAt_adds exe b e
      exact fun hset => forM_breakpointAt_fresh rest h a ha pc hpc (hadds.mem hset)

/-! ## A failing `Breakpoint` keeps what it inserted before the failure -/

/-- The loop that errors failed at one address, after handling every
address before it; the table holds the pcs of those and nothing else new. -/
theorem forM_breakpointAt_error {exe : Exe} {err : GoError} :
    ∀ (addrs : List String) {e e' : Engine}, addrs.forM (breakpointAt exe) e = .error err e' →
      ∃ pre a post e₁, addrs = pre ++ a :: post ∧ pre.forM (breakpointAt exe) e = .ok () e₁ ∧
        breakpointAt exe a e₁ = .error err e' ∧
        (∀ b ∈ pre, ∃ pc, evalAddress exe b = .ok pc ∧ pc ∈ e'.srv.breakpoints) ∧
        ∀ pc, pc ∈ e'.srv.breakpoints ↔ pc ∈ e.srv.breakpoints ∨ ∃ b ∈ pre, evalAddress exe b = .ok pc
  | [], _, _, h => by cases h
  | a :: rest, e, e', h => by
    rw [List.forM_cons'] at h
    cases ha : breakpointAt exe a e with
    | error err₁ e₁ =>
      rw [bind_error ha] at h
      cases h
      refine ⟨[], a, rest, e, rfl, rfl, ha, nofun, fun pc => ?_⟩
      rw [(breakpointAt_error ha).1]
      simp
    | ok u e₁ =>
      rw [bind_ok ha] at h
      obtain ⟨pre, a', post, e₂, rfl, hpre, ha', hin, hkeys⟩ := forM_breakpointAt_error rest h
      obtain ⟨pc₀, t, hpc₀, -, -, hs, -⟩ := breakpointAt_ok ha
      have hkeys' : ∀ pc, pc ∈ e'.srv.breakpoints ↔
          pc ∈ e.srv.breakpoints ∨ ∃ b ∈ a :: pre, evalAddress exe b = .ok pc := fun pc => by
        rw [hkeys, hs]
        simp only [AList.mem_insert, List.mem_cons, exists_eq_or_imp, hpc₀, Except.ok.injEq]
        constructor
        · rintro ((rfl | h) | h) <;> simp_all
        · rintro (h | rfl | h) <;> simp_all
      refine ⟨a :: pre, a', post, e₂, rfl, by rw [List.forM_cons', bind_ok ha]; exact hpre, ha',
        fun b hb => ?_, hkeys'⟩
      obtain ⟨pc, hpc⟩ : ∃ pc, evalAddress exe b = .ok pc :=
        (List.mem_cons.mp hb).elim (fun h => ⟨pc₀, h ▸ hpc₀⟩) fun hb => (hin b hb).imp fun _ => And.left
      exact ⟨pc, hpc, (hkeys' pc).mpr (.inr ⟨b, hb, hpc⟩)⟩

/-- **A failing `Breakpoint` does not roll back.** It keeps every entry
the table had. If `eval` failed, nothing was added; otherwise it failed at
one address of `eval`'s list, with that address's error, after handling
every address before it, and the table holds exactly its old pcs and the
pcs of those addresses. -/
theorem breakpoint_error_prefix {exe : Exe} {address : String} {e e' : Engine} {msg : String}
    (h : breakpoint exe address e = .error (.error msg) e') :
    (∀ pc bp, e.srv.breakpoints.lookup pc = some bp → e'.srv.breakpoints.lookup pc = some bp) ∧
    (∀ err, eval exe address = .error err → e'.srv.breakpoints = e.srv.breakpoints) ∧
    ∀ addrs, eval exe address = .ok addrs → ∃ pre a post e₁,
      addrs = pre ++ a :: post ∧ pre.forM (breakpointAt exe) e = .ok () e₁ ∧
      breakpointAt exe a e₁ = .error (.error msg) e' ∧
      (∀ b ∈ pre, ∃ pc, evalAddress exe b = .ok pc ∧ pc ∈ e'.srv.breakpoints) ∧
      ∀ pc, pc ∈ e'.srv.breakpoints ↔ pc ∈ e.srv.breakpoints ∨ ∃ b ∈ pre, evalAddress exe b = .ok pc := by
  have hadds := breakpoint_adds exe address e
  rw [h] at hadds
  refine ⟨hadds.keep, fun err herr => ?_, fun addrs haddrs => ?_⟩
  · simp only [breakpoint, herr, check_error, fail_bind] at h
    cases h
    rfl
  · simp only [breakpoint, haddrs, check_ok, pure_bind] at h
    exact forM_breakpointAt_error addrs h

/-- A `re:` request whose two names resolve to one pc fails at the second
name, and keeps the entry the first one inserted. -/
theorem breakpoint_re_alias_keeps_entry :
    demoTraced.srv.breakpoints.keys = [] ∧
    breakpoint demoExe "re:main" demoTraced =
      .error (.error "breakpoint already set at 0x1000 (TODO)")
        (stateOf (breakpoint demoExe "re:main" demoTraced)) ∧
    (stateOf (breakpoint demoExe "re:main" demoTraced)).srv.breakpoints.keys = [0x1000] :=
  ⟨rfl, rfl, rfl⟩

theorem breakpoint_error_prefix_re_alias :
    let e' := stateOf (breakpoint demoExe "re:main" demoTraced)
    breakpoint demoExe "re:main" demoTraced =
      .error (.error "breakpoint already set at 0x1000 (TODO)") e' ∧
    (∀ pc bp, demoTraced.srv.breakpoints.lookup pc = some bp → e'.srv.breakpoints.lookup pc = some bp) ∧
    (∀ err, eval demoExe "re:main" = .error err → e'.srv.breakpoints = demoTraced.srv.breakpoints) ∧
    ∀ addrs, eval demoExe "re:main" = .ok addrs → ∃ pre a post e₁,
      addrs = pre ++ a :: post ∧ pre.forM (breakpointAt demoExe) demoTraced = .ok () e₁ ∧
      breakpointAt demoExe a e₁ = .error (.error "breakpoint already set at 0x1000 (TODO)") e' ∧
      (∀ b ∈ pre, ∃ pc, evalAddress demoExe b = .ok pc ∧ pc ∈ e'.srv.breakpoints) ∧
      ∀ pc, pc ∈ e'.srv.breakpoints ↔
        pc ∈ demoTraced.srv.breakpoints ∨ ∃ b ∈ pre, evalAddress demoExe b = .ok pc := by
  intro e'
  have h : breakpoint demoExe "re:main" demoTraced =
      .error (.error "breakpoint already set at 0x1000 (TODO)") e' := rfl
  exact ⟨h, breakpoint_error_prefix h⟩

/-! ## A `sym:` breakpoint -/

/-- A `sym:` expression is one address, looked up through the text `eval`
printed for it. -/
theorem breakpoint_sym_eq {exe : Exe} {n : String} {a : BitVec 64} (hsym : exe.lookupSym n = .ok a)
    (e : Engine) :
    breakpoint exe ("sym:" ++ n) e = (breakpointAt exe (fmtHex a.toNat) >>= fun _ => pure ()) e := by
  simp only [breakpoint, eval_sym, hsym, check_ok, pure_bind, List.forM_cons', List.forM_nil']

/-- **`Breakpoint("sym:" + n)`.** The address `eval` prints for the symbol
resolves back to itself unless a symbol is named by that text; then, on a
table without the address, a call that returns has inserted exactly one
entry, keyed and stamped with the address, and changed nothing else; and
the call returns whenever the kernel answers the peek. -/
theorem breakpoint_sym {exe : Exe} {n : String} {a : BitVec 64} {e : Engine}
    (hsym : exe.lookupSym n = .ok a) (hname : ∃ err, exe.lookupSym (fmtHex a.toNat) = .error err)
    (hfresh : a ∉ e.srv.breakpoints) :
    evalAddress exe (fmtHex a.toNat) = .ok a ∧
    (∀ u e', breakpoint exe ("sym:" ++ n) e = .ok u e' → ∃ t, e.world.tracee = some t ∧
      e'.srv = { e.srv with breakpoints := (e.srv.breakpoints.insert a
        ⟨a, origInstrOf exe (readMem t.mem a.toNat exe.arch.breakpointSize)⟩) } ∧
      e'.srv.breakpoints.entries =
        ⟨a, ⟨a, origInstrOf exe (readMem t.mem a.toNat exe.arch.breakpointSize)⟩⟩ ::
          e.srv.breakpoints.entries ∧
      e'.world.tracee = e.world.tracee) ∧
    (∀ t, e.world.tracee = some t → (∀ err rest, e.world.acks ≠ some err :: rest) →
      ∃ e', breakpoint exe ("sym:" ++ n) e = .ok () e') := by
  have haddr := evalAddress_fmtHex exe a hname
  refine ⟨haddr, fun u e' h => ?_, fun t ht hacks => ?_⟩
  · rw [breakpoint_sym_eq hsym] at h
    obtain ⟨_, e₁, h₁, h⟩ := bind_eq_ok.mp h
    cases h
    obtain ⟨pc, t, hpc, -, ht, hs, ht', -⟩ := breakpointAt_ok h₁
    rw [haddr] at hpc
    cases hpc
    exact ⟨t, ht, hs, by rw [hs]; exact AList.insert_entries_of_neg hfresh, ht'⟩
  · obtain ⟨e₁, h₁, -⟩ := breakpointAt_fresh haddr hfresh ht hacks
    exact ⟨e₁, by rw [breakpoint_sym_eq hsym, bind_ok h₁]; rfl⟩

theorem breakpoint_sym_main_foo :
    demoExe.lookupSym "main.foo" = .ok 0x1000 ∧
    (∃ err, demoExe.lookupSym (fmtHex (0x1000 : BitVec 64).toNat) = .error err) ∧
    (0x1000 : BitVec 64) ∉ demoTraced.srv.breakpoints ∧
    evalAddress demoExe (fmtHex (0x1000 : BitVec 64).toNat) = .ok 0x1000 ∧
    (∀ u e', breakpoint demoExe ("sym:" ++ "main.foo") demoTraced = .ok u e' →
      ∃ t, demoTraced.world.tracee = some t ∧
      e'.srv = { demoTraced.srv with breakpoints := (demoTraced.srv.breakpoints.insert 0x1000
        ⟨0x1000, origInstrOf demoExe (readMem t.mem (0x1000 : BitVec 64).toNat
          demoExe.arch.breakpointSize)⟩) } ∧
      e'.srv.breakpoints.entries =
        ⟨0x1000, ⟨0x1000, origInstrOf demoExe (readMem t.mem (0x1000 : BitVec 64).toNat
          demoExe.arch.breakpointSize)⟩⟩ :: demoTraced.srv.breakpoints.entries ∧
      e'.world.tracee = demoTraced.world.tracee) ∧
    (∀ t, demoTraced.world.tracee = some t → (∀ err rest, demoTraced.world.acks ≠ some err :: rest) →
      ∃ e', breakpoint demoExe ("sym:" ++ "main.foo") demoTraced = .ok () e') := by
  have hsym : demoExe.lookupSym "main.foo" = .ok 0x1000 := rfl
  have hname : ∃ err, demoExe.lookupSym (fmtHex (0x1000 : BitVec 64).toNat) = .error err := ⟨_, rfl⟩
  have hfresh : (0x1000 : BitVec 64) ∉ demoTraced.srv.breakpoints := by decide
  exact ⟨hsym, hname, hfresh, breakpoint_sym hsym hname hfresh⟩

/-! ## A `src:` breakpoint -/

/-- **A `src:` breakpoint is never set.** `eval` answers a `src:`
expression with the `file:line` text of the pc's line, and `evalAddress`
refuses that text unless a symbol is named by it. Whatever the
expression and the state, `Breakpoint` fails and leaves the engine as it
was; when `eval` found the line, in a file whose name has no rune above
`U+00FF` (where `quote` is `strconv.Quote`), the error is `evalAddress`'s. -/
theorem breakpoint_src_unset {exe : Exe}
    (hname : ∀ file (line : Int), ∃ err, exe.lookupSym (file ++ ":" ++ toString line) = .error err)
    (s : String) (e : Engine) :
    ∃ msg, breakpoint exe ("src:" ++ s) e = .error (.error msg) e ∧
      ∀ addr file line, parseUint s = .ok addr → lookupSource exe addr = (file, line, true) →
        (∀ c ∈ file.toList, c.toNat ≤ 0xFF) →
        msg = "eval: " ++ quote (file ++ ":" ++ toString line) ++ " is neither symbol nor number" := by
  simp only [breakpoint, eval_src]
  cases hp : parseUint s with
  | error err => exact ⟨_, rfl, fun _ _ _ h => by cases h⟩
  | ok addr =>
    rcases hl : lookupSource exe addr with ⟨file, line, _ | _⟩ <;> simp only [hl]
    · exact ⟨_, rfl, fun _ _ _ h h' => by cases h; rw [hl] at h'; cases h'⟩
    · refine ⟨_, ?_, fun _ _ _ h h' _ => by cases h; rw [hl] at h'; cases h'; rfl⟩
      simp only [check_ok, pure_bind, List.forM_cons', List.forM_nil', breakpointAt,
        evalAddress_file_line exe file line (hname file line), check_error, fail_bind]
      rfl

/-- `Breakpoint("src:0x1000")` when the line table puts every pc at
`main.go:125`. -/
theorem breakpoint_src_unset_main_go :
    let exe : Exe := { demoExe with table := some fun _ => ("main.go", 125, true) }
    (∀ file (line : Int), ∃ err, exe.lookupSym (file ++ ":" ++ toString line) = .error err) ∧
    ∃ msg, breakpoint exe ("src:" ++ "0x1000") demoTraced = .error (.error msg) demoTraced ∧
      ∀ addr file line, parseUint "0x1000" = .ok addr → lookupSource exe addr = (file, line, true) →
        (∀ c ∈ file.toList, c.toNat ≤ 0xFF) →
        msg = "eval: " ++ quote (file ++ ":" ++ toString line) ++ " is neither symbol nor number" := by
  intro exe
  have hcolon : ∀ file (line : Int) t, ':' ∉ String.toList t → file ++ ":" ++ toString line ≠ t :=
    fun file line t ht h => ht (h ▸ by simp)
  have hname : ∀ file (line : Int), ∃ err, exe.lookupSym (file ++ ":" ++ toString line) = .error err :=
    fun file line => ⟨_, if_neg (not_or.mpr ⟨hcolon _ _ _ (by decide), hcolon _ _ _ (by decide)⟩)⟩
  exact ⟨hname, breakpoint_src_unset hname _ _⟩

/-! ## A breakpoint on a number

`eval` answers a number with the name of the function containing it, and
`evalAddress` resolves that name as a symbol: the breakpoint goes to the
function's entry, not to the number. -/

theorem breakpoint_number_eq {exe : Exe} {expr f : String} {addr : BitVec 64}
    (hdigit : startsWithDigit expr = true) (hparse : parseUint expr = .ok addr)
    (hpc : exe.lookupPC addr = .ok f) (e : Engine) :
    breakpoint exe expr e = (breakpointAt exe f >>= fun _ => pure ()) e := by
  simp only [breakpoint, eval_number exe hdigit, hparse, hpc, check_ok, pure_bind, List.forM_cons',
    List.forM_nil']

/-- **`Breakpoint` on a number breaks at the entry of the function
containing it.** When the expression parses to `addr`, `addr` lies in the
function `f` whose symbol is at `a`, and `a` is not in the table, a call
on a traced process whose kernel answers the peek returns having
inserted the entry at `a` and no other: `addr` is in the new table only
if it is `a` or was there before. -/
theorem breakpoint_number_at_entry {exe : Exe} {expr f : String} {addr a : BitVec 64} {e : Engine}
    {t : Tracee} (hdigit : startsWithDigit expr = true) (hparse : parseUint expr = .ok addr)
    (hpc : exe.lookupPC addr = .ok f) (hsym : exe.lookupSym f = .ok a) (hfresh : a ∉ e.srv.breakpoints)
    (ht : e.world.tracee = some t) (hacks : ∀ err rest, e.world.acks ≠ some err :: rest) :
    ∃ e', breakpoint exe expr e = .ok () e' ∧
      e'.srv = { e.srv with breakpoints := (e.srv.breakpoints.insert a
        ⟨a, origInstrOf exe (readMem t.mem a.toNat exe.arch.breakpointSize)⟩) } ∧
      (addr ∈ e'.srv.breakpoints ↔ addr = a ∨ addr ∈ e.srv.breakpoints) := by
  have haddr : evalAddress exe f = .ok a := by simp [evalAddress, hsym]
  obtain ⟨e', h', hs, -⟩ := breakpointAt_fresh haddr hfresh ht hacks
  refine ⟨e', by rw [breakpoint_number_eq hdigit hparse hpc, bind_ok h']; rfl, hs, ?_⟩
  rw [hs]
  exact AList.mem_insert _

/-- `Breakpoint("0x1008")` on `demoExe`, where every pc lies in `main.foo`:
the breakpoint is set at `0x1000`, and none at `0x1008`. -/
theorem breakpoint_number_main_foo :
    startsWithDigit "0x1008" = true ∧ parseUint "0x1008" = .ok 0x1008 ∧
    demoExe.lookupPC 0x1008 = .ok "main.foo" ∧ demoExe.lookupSym "main.foo" = .ok 0x1000 ∧
    (0x1000 : BitVec 64) ∉ demoTraced.srv.breakpoints ∧
    demoTraced.world.tracee = some ⟨demoExe.image, fun _ => default, []⟩ ∧
    (∀ err rest, demoTraced.world.acks ≠ some err :: rest) ∧
    ∃ e', breakpoint demoExe "0x1008" demoTraced = .ok () e' ∧
      e'.srv = { demoTraced.srv with breakpoints := (demoTraced.srv.breakpoints.insert 0x1000
        ⟨0x1000, origInstrOf demoExe (readMem demoExe.image (0x1000 : BitVec 64).toNat
          demoExe.arch.breakpointSize)⟩) } ∧
      ((0x1008 : BitVec 64) ∈ e'.srv.breakpoints ↔
        (0x1008 : BitVec 64) = 0x1000 ∨ (0x1008 : BitVec 64) ∈ demoTraced.srv.breakpoints) :=
  have hfresh : (0x1000 : BitVec 64) ∉ demoTraced.srv.breakpoints := by decide
  have hacks : ∀ err rest, demoTraced.world.acks ≠ some err :: rest := fun _ _ h => by cases h
  ⟨rfl, rfl, rfl, rfl, hfresh, rfl, hacks,
    @breakpoint_number_at_entry demoExe "0x1008" "main.foo" 0x1008 0x1000 _ _ rfl rfl rfl rfl hfresh rfl hacks⟩

/-! ## Installing and lifting -/

/-- The code after poking `bytes bp` at each entry of `l`, in order. -/
def writeAll (mem : Nat → UInt8) (bytes : Breakpoint → List UInt8)
    (l : List (Sigma fun _ : BitVec 64 => Breakpoint)) : Nat → UInt8 :=
  l.foldl (fun m x => writeMem m x.1.toNat (bytes x.2)) mem

/-- **A loop of pokes that got through** wrote every entry's bytes, in the
order given, and did nothing else but record, for the tasks still running,
the code each poke left. -/
theorem pokeAll_ok {pid : Int} {tag : String} {bytes : Breakpoint → List UInt8} :
    ∀ (l : List (Sigma fun _ : BitVec 64 => Breakpoint)) {e e' : Engine} {u : Unit},
      pokeAll pid tag bytes l e = .ok u e' →
      e'.srv = e.srv ∧ (Idle e → e'.world.execs = e.world.execs) ∧ e'.world.stops = e.world.stops ∧
      e'.world.tracee = e.world.tracee.map fun t => { t with mem := writeAll t.mem bytes l }
  | [], e, e', u, h => by
    cases h
    refine ⟨rfl, fun _ => rfl, rfl, ?_⟩
    cases e.world.tracee <;> rfl
  | ⟨pc, bp⟩ :: rest, e, e', u, h => by
    simp only [pokeAll] at h
    obtain ⟨r, e₁, hp⟩ : ∃ r e₁, ptracePoke pid pc (bytes bp) e = .ok r e₁ := traceCall_answers _ e
    rw [bind_ok hp] at h
    cases r with
    | error err => simp only [check_error, fail_bind] at h; cases h
    | ok v =>
      simp only [check_ok, pure_bind] at h
      obtain ⟨hs, hx, hst, ht⟩ := pokeAll_ok rest h
      obtain ⟨t, ht₀, -, hs₁, ht₁, hx₁⟩ := traceCall_ok hp
      refine ⟨hs.trans hs₁, fun hidle => ?_, hst.trans (traceCall_stops hp), ?_⟩
      · have hrun : t.running = [] := hidle t ht₀
        rw [hx fun t' h' => by rw [ht₁, Option.mem_some_iff] at h'; exact h' ▸ hrun, hx₁]
        simp [hrun]
      · rw [ht, ht₁, ht₀]
        rfl

theorem writeAll_cons (mem : Nat → UInt8) (bytes : Breakpoint → List UInt8)
    (y : Sigma fun _ : BitVec 64 => Breakpoint) (l : List (Sigma fun _ : BitVec 64 => Breakpoint)) :
    writeAll mem bytes (y :: l) = writeAll (writeMem mem y.1.toNat (bytes y.2)) bytes l := rfl

/-- Address `x` lies in the `n` bytes from one of the entries' pcs. -/
def Covers (n : Nat) (l : List (Sigma fun _ : BitVec 64 => Breakpoint)) (x : Nat) : Prop :=
  ∃ y ∈ l, y.1.toNat ≤ x ∧ x < y.1.toNat + n

section WriteAll

variable {bytes : Breakpoint → List UInt8} {n : Nat}

/-- Pokes of `n` bytes leave an address no entry covers alone. -/
theorem writeAll_of_not_covers :
    ∀ {l : List (Sigma fun _ : BitVec 64 => Breakpoint)}, (∀ y ∈ l, (bytes y.2).length = n) →
      ∀ (mem : Nat → UInt8) {x : Nat}, ¬ Covers n l x → writeAll mem bytes l x = mem x
  | [], _, _, _, _ => rfl
  | y :: l, hlen, mem, x, hx => by
    rw [writeAll_cons, writeAll_of_not_covers (fun z hz => hlen z (.tail _ hz)) _
      fun ⟨z, hz, hzx⟩ => hx ⟨z, .tail _ hz, hzx⟩]
    exact writeMem_of_not_mem (by rw [hlen y (.head _)]; exact fun hy => hx ⟨y, .head _, hy⟩)

/-- Pokes that write back bytes read from `img` leave `img`'s bytes at
every address an entry covers, overlaps included: the last poke to cover
an address decides it. -/
theorem writeAll_of_covers {img : Nat → UInt8} :
    ∀ {l : List (Sigma fun _ : BitVec 64 => Breakpoint)},
      (∀ y ∈ l, bytes y.2 = readMem img y.1.toNat n) →
      ∀ (mem : Nat → UInt8) {x : Nat}, Covers n l x → writeAll mem bytes l x = img x
  | [], _, _, _, ⟨_, hy, _⟩ => absurd hy (List.not_mem_nil _)
  | y :: l, hl, mem, x, ⟨z, hz, hzx⟩ => by
    rw [writeAll_cons]
    by_cases hrest : Covers n l x
    · exact writeAll_of_covers (fun w hw => hl w (.tail _ hw)) _ hrest
    · rw [writeAll_of_not_covers (fun w hw => by rw [hl w (.tail _ hw), length_readMem]) _ hrest,
        hl y (.head _)]
      rcases List.mem_cons.mp hz with rfl | hz
      · exact writeMem_readMem hzx
      · exact absurd ⟨z, hz, hzx⟩ hrest

/-- Pokes of `n` bytes leave, at an address one entry alone covers, that
entry's byte. -/
theorem writeAll_of_cover_unique :
    ∀ {l : List (Sigma fun _ : BitVec 64 => Breakpoint)}, (∀ y ∈ l, (bytes y.2).length = n) →
      ∀ (mem : Nat → UInt8) {x : Nat} {y : Sigma fun _ : BitVec 64 => Breakpoint}, y ∈ l →
      y.1.toNat ≤ x ∧ x < y.1.toNat + n → (∀ z ∈ l, z.1.toNat ≤ x ∧ x < z.1.toNat + n → z = y) →
      writeAll mem bytes l x = (bytes y.2).getD (x - y.1.toNat) 0
  | [], _, _, _, _, hy, _, _ => absurd hy (List.not_mem_nil _)
  | z :: l, hlen, mem, x, y, hy, hyx, huniq => by
    rw [writeAll_cons]
    by_cases hrest : Covers n l x
    · obtain ⟨w, hw, hwx⟩ := hrest
      obtain rfl := huniq w (.tail _ hw) hwx
      exact writeAll_of_cover_unique (fun v hv => hlen v (.tail _ hv)) _ hw hyx
        fun v hv => huniq v (.tail _ hv)
    · rw [writeAll_of_not_covers (fun v hv => hlen v (.tail _ hv)) _ hrest]
      obtain rfl : z = y := (List.mem_cons.mp hy).elim Eq.symm fun hy' => absurd ⟨y, hy', hyx⟩ hrest
      exact writeMem_of_mem (by rw [hlen z (.head _)]; exact hyx)

end WriteAll

theorem length_trapBytes (exe : Exe) : (trapBytes exe).length = exe.arch.breakpointSize := by
  simp [trapBytes, exe.arch.breakpointInstr_length, exe.arch.breakpointSize_le]

/-- **Installing then lifting restores the code**, whatever orders the two
loops visit the table in and however its entries overlap, provided each
entry saved the bytes `img` has at its pc and the code agrees with `img`
wherever no entry's instruction lies. -/
theorem writeAll_lift_install_of_agree {exe : Exe} {img m : Nat → UInt8}
    {l₁ l₂ : List (Sigma fun _ : BitVec 64 => Breakpoint)} (hperm : l₁.Perm l₂)
    (hsaved : ∀ y ∈ l₂, y.2.origInstr.take exe.arch.breakpointSize =
      readMem img y.1.toNat exe.arch.breakpointSize)
    (hm : ∀ x, ¬ Covers exe.arch.breakpointSize l₂ x → m x = img x) :
    writeAll (writeAll m (fun _ => trapBytes exe) l₁)
      (fun bp => bp.origInstr.take exe.arch.breakpointSize) l₂ = img := by
  funext x
  by_cases hx : Covers exe.arch.breakpointSize l₂ x
  · exact writeAll_of_covers hsaved _ hx
  · rw [writeAll_of_not_covers (fun y hy => by rw [hsaved y hy, length_readMem]) _ hx,
      writeAll_of_not_covers (fun _ _ => length_trapBytes exe) _
        fun ⟨y, hy, hyx⟩ => hx ⟨y, hperm.subset hy, hyx⟩, hm x hx]

theorem writeAll_lift_install {exe : Exe} {img : Nat → UInt8}
    {l₁ l₂ : List (Sigma fun _ : BitVec 64 => Breakpoint)} (hperm : l₁.Perm l₂)
    (hsaved : ∀ y ∈ l₂, y.2.origInstr.take exe.arch.breakpointSize =
      readMem img y.1.toNat exe.arch.breakpointSize) :
    writeAll (writeAll img (fun _ => trapBytes exe) l₁)
      (fun bp => bp.origInstr.take exe.arch.breakpointSize) l₂ = img :=
  writeAll_lift_install_of_agree hperm hsaved fun _ _ => rfl

/-- The table's pcs lie at least `BreakpointSize` apart, so that no two
breakpoint instructions overlap. -/
def Separated (exe : Exe) (tbl : BreakpointTable) : Prop :=
  ∀ pc ∈ tbl, ∀ pc' ∈ tbl, pc ≠ pc' →
    exe.arch.breakpointSize ≤ pc.toNat - pc'.toNat ∨ exe.arch.breakpointSize ≤ pc'.toNat - pc.toNat

/-- With a one-byte breakpoint instruction, as on `amd64`, every table is
separated. -/
theorem separated_of_breakpointSize_le_one {exe : Exe} (h : exe.arch.breakpointSize ≤ 1)
    (tbl : BreakpointTable) : Separated exe tbl := fun pc _ pc' _ hne => by
  have : pc.toNat ≠ pc'.toNat := fun h' => hne (BitVec.eq_of_toNat_eq h')
  omega

/-- **The install loop arms every breakpoint** of a separated table: in
whatever order it pokes the entries, the code at each pc of the table is
then the breakpoint instruction. -/
theorem readMem_writeAll_trapBytes {exe : Exe} {tbl : BreakpointTable} (hsep : Separated exe tbl)
    {l : List (Sigma fun _ : BitVec 64 => Breakpoint)} (hperm : l.Perm tbl.entries)
    (mem : Nat → UInt8) {pc : BitVec 64} (hpc : pc ∈ tbl) :
    readMem (writeAll mem (fun _ => trapBytes exe) l) pc.toNat exe.arch.breakpointSize =
      trapBytes exe := by
  have hn := length_trapBytes exe
  have hnd : l.NodupKeys := (List.perm_nodupKeys hperm).mpr tbl.nodupKeys
  have hmem : ∀ y ∈ l, y.1 ∈ tbl := fun y hy =>
    AList.mem_keys.mpr (List.mem_keys_of_mem (hperm.subset hy))
  obtain ⟨bp, hbp⟩ := List.mem_keys.mp (AList.mem_keys.mp hpc)
  have hy : (⟨pc, bp⟩ : Sigma fun _ : BitVec 64 => Breakpoint) ∈ l := hperm.symm.subset hbp
  rw [← hn]
  refine readMem_eq_iff.mpr fun i hi => ?_
  rw [writeAll_of_cover_unique (fun _ _ => rfl) mem hy ⟨Nat.le_add_right _ _, Nat.add_lt_add_left hi _⟩
    fun z hz hzx => ?_]
  · simp
  · by_contra hne
    have hkey : z.1 ≠ pc := fun h => hne (hnd.eq_of_fst_eq hz hy h)
    rcases hsep z.1 (hmem z hz) pc hpc hkey with h | h <;> simp only at hzx <;> omega

/-- A loop of pokes keeps every relation each of its own pokes keeps,
however it ends. -/
theorem pokeAll_keeps_of_mem {R : Engine → Engine → Prop} (hR : Reflexive R) (hT : Transitive R)
    (pid : Int) (tag : String) (bytes : Breakpoint → List UInt8) :
    ∀ l : List (Sigma fun _ : BitVec 64 => Breakpoint),
      (∀ y ∈ l, Keeps R (ptracePoke pid y.1 (bytes y.2))) → Keeps R (pokeAll pid tag bytes l)
  | [], _ => Keeps.pure hR _
  | _ :: rest, hl =>
    Keeps.bind hT (hl _ (.head _)) fun r =>
      Keeps.bind hT (Keeps.check hR _ r) fun _ =>
        pokeAll_keeps_of_mem hR hT pid tag bytes rest fun y hy => hl y (.tail _ hy)

section Pokes

variable {R : Engine → Engine → Prop} (hR : Reflexive R) (hT : Transitive R)
  (hpoke : ∀ pid addr bs, Keeps R (ptracePoke pid addr bs))
include hR hT hpoke

/-- A loop of pokes keeps every relation its pokes keep, however it ends. -/
theorem pokeAll_keeps (pid : Int) (tag : String) (bytes : Breakpoint → List UInt8) :
    ∀ l, Keeps R (pokeAll pid tag bytes l) := fun l =>
  pokeAll_keeps_of_mem hR hT pid tag bytes l fun _ _ => hpoke _ _ _

theorem pokeBreakpoints_keeps (hrange : ∀ m, Keeps R (rangeOrder m)) (tag : String)
    (bytes : Breakpoint → List UInt8) : Keeps R (pokeBreakpoints tag bytes) :=
  Keeps.bind hT (Keeps.getSrv hR) fun _ =>
    Keeps.bind hT (hrange _) fun _ => pokeAll_keeps hR hT hpoke _ _ _ _

end Pokes

/-- The install and lift loops keep the tables, however they end. -/
theorem pokeBreakpoints_kept (tag : String) (bytes : Breakpoint → List UInt8) :
    Keeps Kept (pokeBreakpoints tag bytes) :=
  pokeBreakpoints_keeps Kept.refl Kept.trans (fun _ _ _ => traceCall_kept _)
    (fun _ => Keeps.mono (fun _ _ h => h.toKept) (rangeOrder_quiet _)) tag bytes

/-- A loop of pokes gets through when the kernel answers. -/
theorem pokeAll_answers (pid : Int) (tag : String) (bytes : Breakpoint → List UInt8) :
    ∀ (l : List (Sigma fun _ : BitVec 64 => Breakpoint)) {e : Engine}, Answers e →
      ∃ e', pokeAll pid tag bytes l e = .ok () e' ∧ Answers e' ∧ e'.world.stops = e.world.stops
  | [], e, ha => ⟨e, rfl, ha, rfl⟩
  | ⟨pc, bp⟩ :: rest, e, ha => by
    obtain ⟨_, e₁, h₁, ha₁, hs₁⟩ : ∃ a e₁, ptracePoke pid pc (bytes bp) e = .ok (.ok a) e₁ ∧ Answers e₁ ∧
        e₁.world.stops = e.world.stops := traceCall_of_answers _ ha
    obtain ⟨e', h', ha', hs'⟩ := pokeAll_answers pid tag bytes rest ha₁
    refine ⟨e', ?_, ha', hs'.trans hs₁⟩
    simp only [pokeAll]
    rw [bind_ok h₁]
    exact h'

/-- The install or lift loop gets through when the kernel answers. -/
theorem pokeBreakpoints_answers (tag : String) (bytes : Breakpoint → List UInt8) {e : Engine}
    (ha : Answers e) :
    ∃ e', pokeBreakpoints tag bytes e = .ok () e' ∧ Answers e' ∧ e'.world.stops = e.world.stops := by
  obtain ⟨l, e₁, hr⟩ : ∃ l e₁, rangeOrder e.srv.breakpoints e = .ok l e₁ := by
    unfold rangeOrder; split <;> exact ⟨_, _, rfl⟩
  obtain ⟨-, he₁⟩ := rangeOrder_ok hr
  obtain ⟨e', h', ha', hs'⟩ := pokeAll_answers e.srv.stoppedPid tag bytes l (he₁ ▸ ha : Answers e₁)
  exact ⟨e', by simp only [pokeBreakpoints, getSrv_bind]; rw [bind_ok hr]; exact h', ha',
    by rw [hs', he₁]⟩

/-- The install and lift loops let no task run, and from a state where none
runs, the debuggee runs nothing while they poke, however they end. -/
theorem pokeBreakpoints_calm (tag : String) (bytes : Breakpoint → List UInt8) :
    Keeps Calm (pokeBreakpoints tag bytes) :=
  pokeBreakpoints_keeps Calm.refl Calm.trans
    (fun _ _ _ => traceCall_calm _ fun _ h => ⟨h, by simp [h]⟩)
    (fun m e h => by unfold rangeOrder; split <;> exact ⟨h, rfl⟩) tag bytes

/-- **The install or lift loop, getting through**: it wrote every entry's
bytes, in some order of the table's entries, and changed nothing else of
the server or the debuggee. -/
theorem pokeBreakpoints_ok {tag : String} {bytes : Breakpoint → List UInt8} {e e' : Engine} {u : Unit}
    (h : pokeBreakpoints tag bytes e = .ok u e') :
    ∃ l, l.Perm e.srv.breakpoints.entries ∧ e'.srv = e.srv ∧ (Idle e → e'.world.execs = e.world.execs) ∧
      e'.world.stops = e.world.stops ∧
      e'.world.tracee = e.world.tracee.map fun t => { t with mem := writeAll t.mem bytes l } := by
  simp only [pokeBreakpoints, getSrv_bind] at h
  obtain ⟨l, e₁, ho, hp⟩ := bind_eq_ok.mp h
  obtain ⟨hperm, rfl⟩ := rangeOrder_ok ho
  have hpoke := pokeAll_ok l hp
  exact ⟨l, hperm, hpoke⟩

end OgleServer
