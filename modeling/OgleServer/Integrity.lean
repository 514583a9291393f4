import OgleServer.Invariants

/-!
# Integrity — what the server ever writes into the debuggee's code

`breakpoints_transparent` holds only while no `Resume` has failed: a
`Resume` that fails between its install and lift loops, or halfway
through either, leaves breakpoint instructions in the code. What holds
along every run, whatever the kernel answers, says what the server can
ever have written there: every byte of the debuggee's code is the
executable's, or lies under the instruction of a breakpoint of the table
and holds that instruction's byte (`code_patched_only`).

The invariant, `Patched`, has a second half, about the bytes each entry
saved: a `Breakpoint` set while another entry's instruction is still in
the code saves what it finds there, and the lift loop writes that back.
Every poke of the two loops keeps `Patched` on its own
(`patch_writeMem`), so a loop keeps it wherever it stops
(`pokeBreakpoints_resumeKept`); every other step keeps the code or starts
it again from the executable's. A task runs against the code of the
moment it was let run and, while it runs on, against the code each poke
leaves; only `Resume` lets a task run or pokes, so every version of the
code the debuggee ever ran is patched (`debuggee_runs_patched`).

With a one-byte breakpoint instruction, as on `amd64` and `386`, no
entry's bytes lie under another's, so every entry saves the executable's
bytes; then a `Resume` that returns gives the debuggee the executable's
code back, whatever earlier `Resume`s left behind (`resume_restores_code`).
-/

namespace OgleServer

variable {exe : Exe}

/-! ## The bytes the server may leave -/

/-- A byte the server may have left at address `x` of the code, with table
`tbl`: the executable's byte, or, under the instruction of an entry of the
table, that instruction's byte there. -/
def Patch (exe : Exe) (tbl : BreakpointTable) (x : Nat) (b : UInt8) : Prop :=
  b = exe.image x ∨ ∃ pc ∈ tbl, pc.toNat ≤ x ∧ x < pc.toNat + exe.arch.breakpointSize ∧
    b = (trapBytes exe).getD (x - pc.toNat) 0

/-- Every byte of a poke of `bs` at `pc` is a byte the server may leave
there. -/
def PokeOK (exe : Exe) (tbl : BreakpointTable) (pc : BitVec 64) (bs : List UInt8) : Prop :=
  ∀ i < bs.length, Patch exe tbl (pc.toNat + i) (bs.getD i 0)

/-- Every byte of the debuggee's code, and every byte an entry saved, is a
byte the server may leave there. -/
structure Patched (exe : Exe) (e : Engine) : Prop where
  saved : ∀ pc bp, e.srv.breakpoints.lookup pc = some bp →
    PokeOK exe e.srv.breakpoints pc (bp.origInstr.take exe.arch.breakpointSize)
  code : ∀ t, e.world.tracee = some t → ∀ x, Patch exe e.srv.breakpoints x (t.mem x)

theorem Patch.mono {tbl tbl' : BreakpointTable} (h : ∀ pc ∈ tbl, pc ∈ tbl') {x : Nat} {b : UInt8} :
    Patch exe tbl x b → Patch exe tbl' x b :=
  Or.imp_right fun ⟨pc, hpc, hx⟩ => ⟨pc, h pc hpc, hx⟩

/-- A poke leaves the code patched. -/
theorem patch_writeMem {tbl : BreakpointTable} {m : Nat → UInt8} {pc : BitVec 64} {bs : List UInt8}
    (hm : ∀ x, Patch exe tbl x (m x)) (hbs : PokeOK exe tbl pc bs) (x : Nat) :
    Patch exe tbl x (writeMem m pc.toNat bs x) := by
  by_cases hx : pc.toNat ≤ x ∧ x < pc.toNat + bs.length
  · rw [writeMem_of_mem hx]
    simpa only [Nat.add_sub_cancel' hx.1] using hbs (x - pc.toNat) (by omega)
  · rw [writeMem_of_not_mem hx]
    exact hm x

/-- So does a loop of pokes that got through. -/
theorem patch_writeAll {tbl : BreakpointTable} {bytes : Breakpoint → List UInt8} :
    ∀ {l : List (Sigma fun _ : BitVec 64 => Breakpoint)}, (∀ y ∈ l, PokeOK exe tbl y.1 (bytes y.2)) →
      ∀ {m : Nat → UInt8}, (∀ x, Patch exe tbl x (m x)) → ∀ x, Patch exe tbl x (writeAll m bytes l x)
  | [], _, _, hm => hm
  | y :: _, hl, _, hm => by
    rw [writeAll_cons]
    exact patch_writeAll (fun z hz => hl z (.tail _ hz)) (patch_writeMem hm (hl y (.head _)))

/-- The install loop pokes the breakpoint instruction at an entry's pc. -/
theorem pokeOK_trapBytes {tbl : BreakpointTable} {pc : BitVec 64} (hpc : pc ∈ tbl) :
    PokeOK exe tbl pc (trapBytes exe) := fun i hi =>
  .inr ⟨pc, hpc, Nat.le_add_right _ _, by rw [length_trapBytes] at hi; omega,
    by rw [Nat.add_sub_cancel_left]⟩

/-! ## The invariant -/

theorem Patched.initial {e : Engine} (h : Initial e) : Patched exe e :=
  ⟨fun pc bp hbp => by simp [h.1, Server.new] at hbp, fun t ht => by simp [h.2] at ht⟩

/-- The lift loop pokes back what an entry saved. -/
theorem Patched.pokeOK {e : Engine} (hp : Patched exe e) {pc : BitVec 64} {bp : Breakpoint}
    (hbp : e.srv.breakpoints.lookup pc = some bp) (bytes : Breakpoint → List UInt8)
    (hbytes : bytes = (fun _ => trapBytes exe) ∨ bytes = fun bp => bp.origInstr.take exe.arch.breakpointSize) :
    PokeOK exe e.srv.breakpoints pc (bytes bp) := by
  rcases hbytes with rfl | rfl
  · exact pokeOK_trapBytes (AList.lookup_isSome.mp (by rw [hbp]; rfl))
  · exact hp.saved pc bp hbp

/-- A step that keeps the table and leaves, in the code, bytes the server
may leave. -/
theorem Patched.of_code {e e' : Engine} (hp : Patched exe e)
    (htbl : e'.srv.breakpoints = e.srv.breakpoints)
    (hcode : ∀ t', e'.world.tracee = some t' → ∀ x, Patch exe e.srv.breakpoints x (t'.mem x)) :
    Patched exe e' := by
  refine ⟨fun pc bp hbp => ?_, ?_⟩ <;> rw [htbl] at *
  exacts [hp.saved pc bp hbp, hcode]

theorem Patched.quiet {e e' : Engine} (hp : Patched exe e) (hq : Quiet e e') : Patched exe e' :=
  hp.of_code hq.breakpoints fun t' ht' => by
    obtain ⟨t, ht, hmem⟩ := Option.map_eq_some'.mp (hq.code.symm.trans (by rw [ht']; rfl))
    exact hmem ▸ hp.code t ht

/-- A new entry saves the bytes the code has at its pc. -/
theorem Patched.pokeOK_readMem {e : Engine} (hp : Patched exe e) {t : Tracee}
    (ht : e.world.tracee = some t) (pc : BitVec 64) (n : Nat) :
    PokeOK exe e.srv.breakpoints pc (readMem t.mem pc.toNat n) := fun i hi => by
  rw [← (readMem_eq_iff.mp (congrArg (readMem t.mem pc.toNat) (length_readMem _ _ _))) i hi]
  exact hp.code t ht _

/-! ## `Resume`, however it ends -/

/-- As long as the table is `tbl`, it stays `tbl` and the code stays
patched. -/
def PatchKept (exe : Exe) (tbl : BreakpointTable) (e e' : Engine) : Prop :=
  e.srv.breakpoints = tbl → e'.srv.breakpoints = tbl ∧ (Patched exe e → Patched exe e')

theorem PatchKept.refl (tbl : BreakpointTable) : Reflexive (PatchKept exe tbl) :=
  fun _ h => ⟨h, id⟩

theorem PatchKept.trans (tbl : BreakpointTable) : Transitive (PatchKept exe tbl) :=
  fun _ _ _ h₁ h₂ h =>
    let ⟨h', hp₁⟩ := h₁ h
    let ⟨h'', hp₂⟩ := h₂ h'
    ⟨h'', hp₂ ∘ hp₁⟩

theorem PatchKept.of_quiet (tbl : BreakpointTable) {e e' : Engine} (hq : Quiet e e') :
    PatchKept exe tbl e e' :=
  fun h => ⟨hq.breakpoints.trans h, fun hp => hp.quiet hq⟩

/-- A poke of bytes the server may leave at `pc`, with the table `tbl`. -/
theorem ptracePoke_patchKept {tbl : BreakpointTable} (pid : Int) (pc : BitVec 64) (bs : List UInt8)
    (hbs : ∀ e, e.srv.breakpoints = tbl → Patched exe e → PokeOK exe tbl pc bs) :
    Keeps (PatchKept exe tbl) (ptracePoke pid pc bs) := by
  intro e he
  obtain ⟨r, e', h⟩ : ∃ r e', ptracePoke pid pc bs e = .ok r e' := traceCall_answers _ e
  rw [h, stateOf_ok]
  subst he
  cases r with
  | error err =>
    obtain ⟨hs, ht, -⟩ := traceCall_error h
    exact ⟨by rw [hs], fun hp => hp.of_code (by rw [hs]) fun t' ht' => hp.code t' (ht ▸ ht')⟩
  | ok u =>
    obtain ⟨t, ht, -, hs, ht', -⟩ := traceCall_ok h
    refine ⟨by rw [hs], fun hp => hp.of_code (by rw [hs]) fun t' ht'' => ?_⟩
    obtain rfl := Option.some.inj (ht'.symm.trans ht'')
    exact patch_writeMem (hp.code t ht) (hbs e rfl hp)

/-! ## What the debuggee runs -/

/-- Whatever the debuggee ran between `e` and `e'`, it ran against code of
bytes the server may leave, with the table `tbl`. -/
def RanPatched (exe : Exe) (tbl : BreakpointTable) (e e' : Engine) : Prop :=
  ∃ new, e'.world.execs = e.world.execs ++ new ∧ ∀ x ∈ new, ∀ a, Patch exe tbl a (x.mem a)

theorem RanPatched.of_still {tbl : BreakpointTable} {e e' : Engine} (h : Still e e') :
    RanPatched exe tbl e e' :=
  ⟨[], by rw [h, List.append_nil], fun _ h => absurd h (List.not_mem_nil _)⟩

theorem RanPatched.trans {tbl : BreakpointTable} {e₁ e₂ e₃ : Engine} (h₁ : RanPatched exe tbl e₁ e₂)
    (h₂ : RanPatched exe tbl e₂ e₃) : RanPatched exe tbl e₁ e₃ :=
  let ⟨new₁, hx₁, hn₁⟩ := h₁
  let ⟨new₂, hx₂, hn₂⟩ := h₂
  ⟨new₁ ++ new₂, by rw [hx₂, hx₁, List.append_assoc],
    fun x hx => (List.mem_append.mp hx).elim (hn₁ x) (hn₂ x)⟩

theorem RanPatched.mono {tbl tbl' : BreakpointTable} (h : ∀ pc ∈ tbl, pc ∈ tbl') {e e' : Engine} :
    RanPatched exe tbl e e' → RanPatched exe tbl' e e' :=
  fun ⟨new, hx, hn⟩ => ⟨new, hx, fun x hx' a => Patch.mono h (hn x hx' a)⟩

/-- `PatchKept`, and from patched code with the table `tbl`, the debuggee
ran only code of bytes the server may leave. -/
def ResumeKept (exe : Exe) (tbl : BreakpointTable) (e e' : Engine) : Prop :=
  PatchKept exe tbl e e' ∧ (e.srv.breakpoints = tbl → Patched exe e → RanPatched exe tbl e e')

theorem ResumeKept.refl (tbl : BreakpointTable) : Reflexive (ResumeKept exe tbl) :=
  fun e => ⟨PatchKept.refl tbl e, fun _ _ => RanPatched.of_still (Still.refl e)⟩

theorem ResumeKept.trans (tbl : BreakpointTable) : Transitive (ResumeKept exe tbl) :=
  fun _ _ _ h₁ h₂ =>
    ⟨PatchKept.trans tbl h₁.1 h₂.1, fun ht hp =>
      let ⟨ht', hp'⟩ := h₁.1 ht
      (h₁.2 ht hp).trans (h₂.2 ht' (hp' hp))⟩

/-- What the debuggee runs in a quiet step, it runs against the code it
started from. -/
theorem ResumeKept.of_quiet (tbl : BreakpointTable) {e e' : Engine} (hq : Quiet e e') :
    ResumeKept exe tbl e e' := by
  refine ⟨PatchKept.of_quiet tbl hq, fun ht hp => ?_⟩
  obtain ⟨new, hx, hn⟩ := hq.runs
  refine ⟨new, hx, fun x hx' a => ?_⟩
  obtain ⟨t, ht', hmem⟩ := Option.map_eq_some'.mp (hn x hx')
  rw [← ht, ← hmem]
  exact hp.code t ht' a

/-- A poke of bytes the server may leave at `pc`, with the table `tbl`,
keeps the code patched, and the tasks still running go on against that
patched code. -/
theorem ptracePoke_resumeKept {tbl : BreakpointTable} (pid : Int) (pc : BitVec 64) (bs : List UInt8)
    (hbs : ∀ e, e.srv.breakpoints = tbl → Patched exe e → PokeOK exe tbl pc bs) :
    Keeps (ResumeKept exe tbl) (ptracePoke pid pc bs) := by
  intro e
  refine ⟨ptracePoke_patchKept pid pc bs hbs e, fun he hp => ?_⟩
  subst he
  obtain ⟨r, e', h⟩ : ∃ r e', ptracePoke pid pc bs e = .ok r e' := traceCall_answers _ e
  rw [h, stateOf_ok]
  cases r with
  | error err => exact RanPatched.of_still (traceCall_error h).2.2
  | ok u =>
    obtain ⟨t, ht, -, -, -, hx⟩ := traceCall_ok h
    refine ⟨_, hx, fun x hx' a => ?_⟩
    obtain ⟨q, -, rfl⟩ := List.mem_map.mp hx'
    exact patch_writeMem (hp.code t ht) (hbs e rfl hp) a

/-- **The install and lift loops leave the code patched**, wherever they
stop, and whatever runs while they poke runs patched code: each poke writes
at an entry's pc the breakpoint instruction or the bytes the entry saved. -/
theorem pokeBreakpoints_resumeKept (tag : String) (bytes : Breakpoint → List UInt8)
    (hbytes : bytes = (fun _ => trapBytes exe) ∨ bytes = fun bp => bp.origInstr.take exe.arch.breakpointSize)
    (tbl : BreakpointTable) : Keeps (ResumeKept exe tbl) (pokeBreakpoints tag bytes) := by
  intro e
  by_cases he : e.srv.breakpoints = tbl
  swap
  · exact ⟨fun h => absurd h he, fun h => absurd h he⟩
  subst he
  simp only [pokeBreakpoints, getSrv_bind]
  obtain ⟨l, e₁, ho⟩ : ∃ l e₁, rangeOrder e.srv.breakpoints e = .ok l e₁ := by
    unfold rangeOrder; split <;> exact ⟨_, _, rfl⟩
  have hq := rangeOrder_quiet e.srv.breakpoints e
  rw [ho, stateOf_ok] at hq
  rw [bind_ok ho]
  refine ResumeKept.trans _ (ResumeKept.of_quiet _ hq)
    (pokeAll_keeps_of_mem (ResumeKept.refl _) (ResumeKept.trans _) _ _ _ l (fun y hy => ?_) e₁)
  refine ptracePoke_resumeKept _ _ _ fun e' he' hp => he' ▸ hp.pokeOK ?_ bytes hbytes
  exact he' ▸ AList.mem_lookup_iff.mpr ((rangeOrder_ok ho).1.subset hy)

/-- **`Resume`, however it ends**, keeps the table and the code patched,
and lets the debuggee run only patched code. -/
theorem resume_resumeKept (exe : Exe) (tbl : BreakpointTable) : Keeps (ResumeKept exe tbl) (resume exe) :=
  let q {α : Type} {x : Eng α} (h : Keeps Quiet x) : Keeps (ResumeKept exe tbl) x :=
    Keeps.mono (fun _ _ => ResumeKept.of_quiet tbl) h
  Keeps.bind (ResumeKept.trans tbl) (q resumeStart_quiet) fun _ =>
  Keeps.bind (ResumeKept.trans tbl) (pokeBreakpoints_resumeKept _ _ (.inl rfl) tbl) fun _ =>
  Keeps.bind (ResumeKept.trans tbl) (q runToTrap_quiet) fun _ =>
  Keeps.bind (ResumeKept.trans tbl) (pokeBreakpoints_resumeKept _ _ (.inr rfl) tbl) fun _ =>
  q (rewind_quiet exe)

/-! ## Every step and every run -/

theorem Grows.mem {e e' : Engine} (h : Grows exe e e') {pc : BitVec 64}
    (hpc : pc ∈ e.srv.breakpoints) : pc ∈ e'.srv.breakpoints := by
  obtain ⟨bp, hbp⟩ := Option.isSome_iff_exists.mp (AList.lookup_isSome.mpr hpc)
  exact AList.lookup_isSome.mp (by rw [h.keep pc bp hbp]; rfl)

/-- A step that grows the table as `Breakpoint` does and changes the code
as a step other than a failed `Resume` does keeps the code patched. -/
theorem Patched.step {e e' : Engine} (hp : Patched exe e) (hg : Grows exe e e')
    (hc : CodeStep exe e.srv.breakpoints (e.world.tracee.map Tracee.mem) (e'.world.tracee.map Tracee.mem)) :
    Patched exe e' := by
  have hmono : ∀ {x b}, Patch exe e.srv.breakpoints x b → Patch exe e'.srv.breakpoints x b :=
    Patch.mono fun _ => hg.mem
  refine ⟨fun pc bp hbp i hi => hmono ?_, fun t' ht' x => hmono ?_⟩
  · rcases hg.old_or_new hbp with hold | ⟨-, t, ht, horig⟩
    · exact hp.saved pc bp hold i hi
    · rw [horig, take_origInstrOf exe (length_readMem _ _ _)] at hi ⊢
      exact hp.pokeOK_readMem ht pc _ i hi
  · have hmem : t'.mem ∈ e'.world.tracee.map Tracee.mem := by rw [ht']; rfl
    have hcode : ∀ m ∈ e.world.tracee.map Tracee.mem, ∀ x, Patch exe e.srv.breakpoints x (m x) :=
      fun m hm => by
        obtain ⟨t, ht, rfl⟩ := Option.mem_map.mp hm
        exact hp.code t ht
    have hin : ∀ l : List (Sigma fun _ : BitVec 64 => Breakpoint), l.Perm e.srv.breakpoints.entries →
        ∀ y ∈ l, e.srv.breakpoints.lookup y.1 = some y.2 :=
      fun l hl y hy => AList.mem_lookup_iff.mpr (hl.subset hy)
    generalize e.world.tracee.map Tracee.mem = c at hc hcode
    generalize e'.world.tracee.map Tracee.mem = c' at hc hmem
    cases hc with
    | same => exact hcode _ hmem x
    | gone => cases hmem
    | fresh => exact .inl (by rw [Option.mem_some_iff.mp hmem])
    | resumed l₁ l₂ hp₁ hp₂ =>
      obtain ⟨m, hm, hwrite⟩ := Option.mem_map.mp hmem
      rw [← hwrite]
      exact patch_writeAll (fun y hy => hp.pokeOK (hin _ hp₂ y hy) _ (.inr rfl))
        (patch_writeAll (fun y hy => hp.pokeOK (hin _ hp₁ y hy) _ (.inl rfl)) (hcode m hm)) x

/-- **Every step keeps the code patched**, a failed `Resume` included. -/
theorem Patched.serve {e e' : Engine} {req : Request} {out : Except String Response}
    (hp : Patched exe e) (h : serve exe req e = some (out, e')) : Patched exe e' := by
  have hstep := serve_step h
  by_cases hres : ∀ msg, (req, out) ≠ (.resume, .error msg)
  · exact hp.step hstep.grows (hstep.code hres)
  · obtain ⟨msg, hmsg⟩ := not_forall_not.mp hres
    cases (Prod.mk.inj hmsg).1
    rw [← serve_handle h, handle, stateOf_bind_pure]
    exact ((resume_resumeKept exe e.srv.breakpoints e).1 rfl).2 hp

theorem Run.patched {e₀ e : Engine} {tr : List (Request × Except String Response)} (h₀ : Initial e₀)
    (hrun : Run exe e₀ tr e) : Patched exe e := by
  induction hrun with
  | nil => exact Patched.initial h₀
  | step _ hs ih => exact ih.serve hs

/-- Every request but `Resume` lets no task run and pokes nothing: the
record of what the debuggee ran is as it was. -/
theorem serve_still {e e' : Engine} {req : Request} {out : Except String Response}
    (hreq : req ≠ .resume) (h : serve exe req e = some (out, e')) : Still e e' := by
  have hstate := serve_handle h
  cases req with
  | open_ name mode =>
    obtain ⟨files, acks, -, h'⟩ := open__step name mode e
    rw [handle, stateOf_bind_pure, h'] at hstate
    rw [← hstate]
    rfl
  | readAt fd len offset =>
    obtain ⟨acks, h'⟩ := readAt_hostOnly fd len offset e
    rw [handle, stateOf_bind_pure, h'] at hstate
    rw [← hstate]
    rfl
  | close fd =>
    obtain ⟨files, acks, -, h'⟩ := close_step fd e
    rw [handle, stateOf_bind_pure, h'] at hstate
    rw [← hstate]
    rfl
  | run =>
    rw [handle, stateOf_bind_pure] at hstate
    exact hstate ▸ run_still exe e
  | resume => exact absurd rfl hreq
  | breakpoint address =>
    rw [handle, stateOf_bind_pure] at hstate
    exact hstate ▸ (breakpoint_adds exe address e).execs
  | eval expr =>
    rw [handle, stateOf_bind_pure, stateOf_check] at hstate
    rw [← hstate]
    rfl
  | frames count =>
    rw [handle, stateOf_bind_pure] at hstate
    exact hstate ▸ frames_still exe count e

/-- **Every step lets the debuggee run only patched code.** -/
theorem serve_ranPatched {e e' : Engine} {req : Request} {out : Except String Response}
    (hp : Patched exe e) (h : serve exe req e = some (out, e')) : RanPatched exe e.srv.breakpoints e e' := by
  by_cases hreq : req = .resume
  · subst hreq
    have hstate := serve_handle h
    rw [handle, stateOf_bind_pure] at hstate
    exact hstate ▸ (resume_resumeKept exe _ e).2 rfl hp
  · exact RanPatched.of_still (serve_still hreq h)

theorem Run.ranPatched {e₀ e : Engine} {tr : List (Request × Except String Response)} (h₀ : Initial e₀)
    (hrun : Run exe e₀ tr e) : RanPatched exe e.srv.breakpoints e₀ e := by
  induction hrun with
  | nil => exact RanPatched.of_still rfl
  | step hr hs ih =>
    have hg := (serve_step hs).grows
    exact (ih.mono fun _ => hg.mem).trans ((serve_ranPatched (Run.patched h₀ hr) hs).mono fun _ => hg.mem)

/-- **What the server ever writes into the debuggee's code.** Along every
run from the server `New` returns, whatever the kernel answers, failed
pokes and failed `Resume`s included, in whatever orders the install and
lift loops visit the table, across `Run` restarts and with overlapping
breakpoints: every byte of the debuggee's code is the executable's, or
lies under the instruction of an entry of the table and holds that
instruction's byte there. -/
theorem code_patched_only {e₀ e : Engine} {tr : List (Request × Except String Response)}
    (h₀ : Initial e₀) (hrun : Run exe e₀ tr e) :
    ∀ t, e.world.tracee = some t → ∀ x, t.mem x = exe.image x ∨
      ∃ pc ∈ e.srv.breakpoints, pc.toNat ≤ x ∧ x < pc.toNat + exe.arch.breakpointSize ∧
        t.mem x = (trapBytes exe).getD (x - pc.toNat) 0 :=
  (Run.patched h₀ hrun).code

/-- A kernel that reports the exec stop and then fails the `wait` of the
first `Resume`, with its breakpoints installed, then reports a trap at
`main.foo`'s breakpoint. -/
def demoFailStops : List (Except String Stop) :=
  [.ok ⟨1, .stopped 5 0, ⟨0x400, 0x7ff0⟩⟩, .error "ECHILD", .ok ⟨1, .stopped 5 0, ⟨0x1001, 0x7ff0⟩⟩]

/-- `Run`, a breakpoint at `main.foo`, and a `Resume` whose `wait` fails
with the breakpoint installed. -/
theorem code_patched_only_failed_resume :
    let e₀ : Engine := ⟨Server.new, World.start demoFailStops⟩
    let tr : List (Request × Except String Response) := [(.run, .ok .run),
      (.breakpoint "sym:main.foo", .ok .breakpoint), (.resume, .error "wait: ECHILD")]
    let e := stateOf (handle demoExe .resume (stateOf (handle demoExe (.breakpoint "sym:main.foo")
      (stateOf (handle demoExe .run e₀)))))
    Initial e₀ ∧ Run demoExe e₀ tr e ∧
    ∀ t, e.world.tracee = some t → ∀ x, t.mem x = demoExe.image x ∨
      ∃ pc ∈ e.srv.breakpoints, pc.toNat ≤ x ∧ x < pc.toNat + demoExe.arch.breakpointSize ∧
        t.mem x = (trapBytes demoExe).getD (x - pc.toNat) 0 :=
  (fun h₀ hrun => ⟨h₀, hrun, code_patched_only h₀ hrun⟩)
    ⟨rfl, rfl⟩ (.cons rfl (.cons rfl (.cons rfl .nil)))

/-- **What the debuggee runs.** Along every run from the server `New`
returns, whatever the kernel answers: every version of the code a task of
the debuggee ran against (when the server stepped it over a breakpoint or
continued it, and at every poke while it still ran) was made of the
executable's bytes and, under the instructions of entries of the table,
bytes of the breakpoint instruction. Only `Resume` lets a task run or pokes
the code: every other request leaves that record as it was. -/
theorem debuggee_runs_patched {e₀ e : Engine} {tr : List (Request × Except String Response)}
    (h₀ : Initial e₀) (hrun : Run exe e₀ tr e) :
    (∃ new, e.world.execs = e₀.world.execs ++ new ∧ ∀ x ∈ new, ∀ a, x.mem a = exe.image a ∨
      ∃ pc ∈ e.srv.breakpoints, pc.toNat ≤ a ∧ a < pc.toNat + exe.arch.breakpointSize ∧
        x.mem a = (trapBytes exe).getD (a - pc.toNat) 0) ∧
    ∀ req e₁ out e₂, req ≠ .resume → serve exe req e₁ = some (out, e₂) → e₂.world.execs = e₁.world.execs :=
  ⟨Run.ranPatched h₀ hrun, fun _ _ _ _ hreq h => serve_still hreq h⟩

/-- The run of `code_patched_only_failed_resume`, then a `Resume` that
pokes the breakpoint in while the task its failed `wait` left running
still runs, and continues the debuggee to `main.foo`'s breakpoint. -/
theorem debuggee_runs_patched_after_failure :
    let e₀ : Engine := ⟨Server.new, World.start demoFailStops⟩
    let tr : List (Request × Except String Response) := [(.run, .ok .run),
      (.breakpoint "sym:main.foo", .ok .breakpoint), (.resume, .error "wait: ECHILD"),
      (.resume, .ok (.resume ⟨0x1000, 0x7ff0⟩))]
    let e := stateOf (handle demoExe .resume (stateOf (handle demoExe .resume
      (stateOf (handle demoExe (.breakpoint "sym:main.foo") (stateOf (handle demoExe .run e₀)))))))
    Initial e₀ ∧ Run demoExe e₀ tr e ∧
    (∃ new, e.world.execs = e₀.world.execs ++ new ∧ ∀ x ∈ new, ∀ a, x.mem a = demoExe.image a ∨
      ∃ pc ∈ e.srv.breakpoints, pc.toNat ≤ a ∧ a < pc.toNat + demoExe.arch.breakpointSize ∧
        x.mem a = (trapBytes demoExe).getD (a - pc.toNat) 0) ∧
    ∀ req e₁ out e₂, req ≠ .resume → serve demoExe req e₁ = some (out, e₂) →
      e₂.world.execs = e₁.world.execs :=
  (fun h₀ hrun => ⟨h₀, hrun, debuggee_runs_patched h₀ hrun⟩)
    ⟨rfl, rfl⟩ (.cons rfl (.cons rfl (.cons rfl (.cons rfl .nil))))

/-! ## One-byte breakpoints -/

/-- Every entry saved the executable's bytes at its pc. -/
def SavedImage (exe : Exe) (e : Engine) : Prop :=
  ∀ pc bp, e.srv.breakpoints.lookup pc = some bp →
    bp.origInstr = origInstrOf exe (readMem exe.image pc.toNat exe.arch.breakpointSize)

section OneByte

variable (hsz : exe.arch.breakpointSize ≤ 1)
include hsz

/-- With a one-byte instruction, patched code holds the executable's bytes
at every pc the table does not hold. -/
theorem Patched.readMem_of_not_mem {e : Engine} (hp : Patched exe e) {t : Tracee}
    (ht : e.world.tracee = some t) {pc : BitVec 64} (hpc : pc ∉ e.srv.breakpoints) :
    readMem t.mem pc.toNat exe.arch.breakpointSize = readMem exe.image pc.toNat exe.arch.breakpointSize :=
  readMem_congr fun i hi => by
    rcases hp.code t ht (pc.toNat + i) with h | ⟨pc', hpc', h₁, h₂, -⟩
    · exact h
    · obtain rfl : pc' = pc := BitVec.eq_of_toNat_eq (by omega)
      exact absurd hpc' hpc

theorem SavedImage.serve {e e' : Engine} {req : Request} {out : Except String Response}
    (hs : SavedImage exe e) (hp : Patched exe e) (h : serve exe req e = some (out, e')) :
    SavedImage exe e' := fun pc bp hbp => by
  have hg := (serve_step h).grows
  cases hold : e.srv.breakpoints.lookup pc with
  | some bp' =>
    rw [hg.keep pc bp' hold, Option.some.injEq] at hbp
    exact hbp ▸ hs pc bp' hold
  | none =>
    obtain ⟨-, t, ht, horig⟩ := hg.new pc bp hbp hold
    rw [horig, hp.readMem_of_not_mem hsz ht (AList.lookup_eq_none.mp hold)]

theorem Run.savedImage {e₀ e : Engine} {tr : List (Request × Except String Response)}
    (h₀ : Initial e₀) (hrun : Run exe e₀ tr e) : SavedImage exe e := by
  induction hrun with
  | nil => intro pc bp hbp; simp [h₀.1, Server.new] at hbp
  | step hr hs ih => exact ih.serve hsz (Run.patched h₀ hr) hs

end OneByte

/-- From patched code whose entries saved the executable's bytes, a
`Resume` that returns leaves the executable's code. -/
theorem Patched.resume_image {e e' : Engine} {st : Status} (hp : Patched exe e)
    (hs : SavedImage exe e) (h : resume exe e = .ok st e') :
    ∀ t, e'.world.tracee = some t → t.mem = exe.image := by
  obtain ⟨l₁, l₂, hp₁, hp₂, hcode⟩ := resume_code h
  intro t' ht'
  rw [ht'] at hcode
  obtain ⟨m, hm, hwrite⟩ := Option.map_eq_some'.mp hcode.symm
  obtain ⟨t, ht, rfl⟩ := Option.map_eq_some'.mp hm
  rw [← hwrite]
  refine writeAll_lift_install_of_agree (hp₁.trans hp₂.symm) (fun y hy => ?_) fun x hx => ?_
  · rw [hs y.1 y.2 (AList.mem_lookup_iff.mpr (hp₂.subset hy)), take_origInstrOf exe (length_readMem _ _ _)]
  · rcases hp.code t ht x with h | ⟨pc, hpc, h₁, h₂, -⟩
    · exact h
    · obtain ⟨bp, hbp⟩ := List.mem_keys.mp (AList.mem_keys.mp hpc)
      exact absurd ⟨⟨pc, bp⟩, hp₂.symm.subset hbp, h₁, h₂⟩ hx

/-- **With a one-byte breakpoint instruction, a `Resume` that returns
restores the code.** On `amd64` and `386`, along every run from the
server `New` returns, failed `Resume`s included: every entry saved the
executable's bytes at its pc, and a `Resume` that returns leaves the
debuggee the executable's code, whatever breakpoint instructions earlier
failures left in it. -/
theorem resume_restores_code {e₀ e : Engine} {tr : List (Request × Except String Response)}
    (h₀ : Initial e₀) (hsz : exe.arch.breakpointSize ≤ 1) (hrun : Run exe e₀ tr e) :
    (∀ pc bp, e.srv.breakpoints.lookup pc = some bp →
      bp.origInstr.take exe.arch.breakpointSize = readMem exe.image pc.toNat exe.arch.breakpointSize) ∧
    ∀ st e', resume exe e = .ok st e' → ∀ t, e'.world.tracee = some t → t.mem = exe.image := by
  have hs := Run.savedImage hsz h₀ hrun
  refine ⟨fun pc bp hbp => ?_, fun st e' h => (Run.patched h₀ hrun).resume_image hs h⟩
  rw [hs pc bp hbp, take_origInstrOf exe (length_readMem _ _ _)]

/-- After the failed `Resume` of `code_patched_only_failed_resume`, which
left `main.foo`'s breakpoint in the code. -/
theorem resume_restores_code_after_failure :
    let e₀ : Engine := ⟨Server.new, World.start demoFailStops⟩
    let tr : List (Request × Except String Response) := [(.run, .ok .run),
      (.breakpoint "sym:main.foo", .ok .breakpoint), (.resume, .error "wait: ECHILD")]
    let e := stateOf (handle demoExe .resume (stateOf (handle demoExe (.breakpoint "sym:main.foo")
      (stateOf (handle demoExe .run e₀)))))
    Initial e₀ ∧ demoExe.arch.breakpointSize ≤ 1 ∧ Run demoExe e₀ tr e ∧
    (∀ pc bp, e.srv.breakpoints.lookup pc = some bp →
      bp.origInstr.take demoExe.arch.breakpointSize =
        readMem demoExe.image pc.toNat demoExe.arch.breakpointSize) ∧
    ∀ st e', resume demoExe e = .ok st e' → ∀ t, e'.world.tracee = some t → t.mem = demoExe.image :=
  (fun h₀ hsz hrun => ⟨h₀, hsz, hrun, resume_restores_code h₀ hsz hrun⟩)
    ⟨rfl, rfl⟩ (by decide) (.cons rfl (.cons rfl (.cons rfl .nil)))

end OgleServer
