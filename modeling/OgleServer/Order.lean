import OgleServer.Integrity

/-!
# Order — the runtime's map order

`setBreakpoints` and `liftBreakpoints` range over `s.breakpoints`, and Go
visits a map in an order it picks anew for every `range`; the model reads
that order from the kernel's `shuffles`, and nothing else of the server
looks at it. When the table's pcs lie at least `BreakpointSize` apart
(`Separated`, true of every table on `amd64` and `386`), the pokes of a
loop write disjoint windows and commute, so every order writes the same
code (`writeAll_perm`); and a loop that fails fails at the same poke with
the same error in every order, since the kernel answers calls in the order
they come (`pokeAll_recoded`).

The order could still show through the tasks that run while the loops
poke: which pc is armed or lifted first decides which trap such a task
hits. Of a one-task debuggee (`Solo`) no task runs while the loops poke,
and there the order is not observable: `resume_order_blind` says that on a
separated table, `Resume` answers the same whatever orders the runtime
picks, and when it returns it leaves the same server and debuggee, but for
the orders still to come. A refused poke does not change that, but it is
where the order shows in the code: the loop then stops after a prefix of
the order, and which entries it armed or lifted depends on the order.

`Tracks Q R x` says that from two states related by `R`, `x` gives the
same value from states related by `R`, or the same failure from states
related by `Q`. It is proved with one rule per construct and one lemma per
primitive, and once for the phases of `Resume`, from what they ask of a
relation (`Oblivious`).
-/

namespace OgleServer

/-! ## Related outcomes -/

/-- The outcomes of one step from two states: the same value from states
related by `R`, or the same failure from states related by `Q`. -/
def Lift {α : Type} (Q R : Engine → Engine → Prop) :
    EStateM.Result GoError Engine α → EStateM.Result GoError Engine α → Prop
  | .ok a e, .ok a' e' => a = a' ∧ R e e'
  | .error err e, .error err' e' => err = err' ∧ Q e e'
  | _, _ => False

/-- From states related by `R`, `x` gives outcomes related by `Lift Q R`. -/
def Tracks {α : Type} (Q R : Engine → Engine → Prop) (x : Eng α) : Prop :=
  ∀ e e', R e e' → Lift Q R (x e) (x e')

/-- Two outcomes a client cannot tell apart: the same value from states
related by `R`, or the same failure. -/
def Alike {α : Type} (R : Engine → Engine → Prop) :
    EStateM.Result GoError Engine α → EStateM.Result GoError Engine α → Prop
  | .ok a e, .ok a' e' => a = a' ∧ R e e'
  | .error err _, .error err' _ => err = err'
  | _, _ => False

section Tracks

variable {Q R : Engine → Engine → Prop} {α β : Type}

theorem Lift.alike {R' : Engine → Engine → Prop} (h : ∀ e e', R e e' → R' e e') :
    ∀ {x y : EStateM.Result GoError Engine α}, Lift Q R x y → Alike R' x y
  | .ok _ _, .ok _ _, ⟨ha, hr⟩ => ⟨ha, h _ _ hr⟩
  | .error _ _, .error _ _, ⟨he, _⟩ => he
  | .ok _ _, .error _ _, hf => hf
  | .error _ _, .ok _ _, hf => hf

theorem Tracks.pure (a : α) : Tracks Q R (pure a : Eng α) := fun _ _ h => ⟨rfl, h⟩

theorem Tracks.throw (hQ : ∀ e e', R e e' → Q e e') (err : GoError) : Tracks Q R (throw err : Eng α) :=
  fun _ _ h => ⟨rfl, hQ _ _ h⟩

theorem Tracks.bind {x : Eng α} {f : α → Eng β} (hx : Tracks Q R x) (hf : ∀ a, Tracks Q R (f a)) :
    Tracks Q R (x >>= f) := by
  intro e e' h
  have hxe := hx e e' h
  cases h₁ : x e <;> cases h₂ : x e' <;> rw [h₁, h₂] at hxe
  · obtain ⟨rfl, h'⟩ := hxe
    rw [bind_ok h₁, bind_ok h₂]
    exact hf _ _ _ h'
  · exact False.elim hxe
  · exact False.elim hxe
  · rw [bind_error h₁, bind_error h₂]
    exact hxe

theorem Tracks.check (hQ : ∀ e e', R e e' → Q e e') (pre : String) (r : Except String α) :
    Tracks Q R (OgleServer.check pre r) := by
  cases r
  · exact Tracks.throw hQ _
  · exact Tracks.pure _

/-- The tail of a phase: `if err != nil { return err }`, then `k`. -/
theorem Tracks.failIf (hQ : ∀ e e', R e e' → Q e e') (err : Option String) {k : Unit → Eng α}
    (hk : ∀ u, Tracks Q R (k u)) :
    Tracks Q R (match err with
      | some err => fail err >>= k
      | _ => Pure.pure PUnit.unit >>= k) := by
  cases err
  · exact Tracks.bind (Tracks.pure _) hk
  · exact Tracks.bind (Tracks.throw hQ _) hk

/-- What `x` tracks, it tracks from states that also satisfy an invariant
of the states `x` returns to. -/
theorem Tracks.inv {P : Engine → Prop} {x : Eng α} (hx : Tracks Q R x)
    (hP : ∀ e a e', P e → x e = .ok a e' → P e') : Tracks Q (fun e e' => R e e' ∧ P e) x := by
  rintro e e' ⟨h, hp⟩
  have hxe := hx e e' h
  cases h₁ : x e <;> cases h₂ : x e' <;> rw [h₁, h₂] at hxe
  · exact ⟨hxe.1, hxe.2, hP e _ _ hp h₁⟩
  all_goals exact hxe

theorem Tracks.forM {f : β → Eng PUnit} (hf : ∀ b, Tracks Q R (f b)) :
    ∀ l : List β, Tracks Q R (l.forM f)
  | [] => Tracks.pure _
  | b :: l => by
    rw [List.forM_cons']
    exact Tracks.bind (hf b) fun _ => Tracks.forM hf l

end Tracks

/-! ## States that differ in the map orders to come -/

/-- `e` with `s` for the map orders still to come. -/
def Engine.reorder (e : Engine) (s : List Nat) : Engine :=
  { e with world := { e.world with shuffles := s } }

/-- `e'` is `e` but for the map orders to come. -/
def Shuffled (e e' : Engine) : Prop :=
  ∃ s, e' = e.reorder s

/-- `e'` is `e` but for the map orders to come, and `e` has the table
`tbl`. -/
def Reordered (tbl : BreakpointTable) (e e' : Engine) : Prop :=
  e.srv.breakpoints = tbl ∧ Shuffled e e'

/-! ## The phases of `Resume` -/

/-- What the phases of `Resume` ask of a relation: `Q` relates the states
of failures from states `R` relates, related states have the same kernel
reports, and the primitives the phases use are tracked (`modifySrv` for the
updates that leave the table alone). -/
structure Oblivious (Q R : Engine → Engine → Prop) : Prop where
  err : ∀ e e', R e e' → Q e e'
  stops : ∀ e e', R e e' → e'.world.stops = e.world.stops
  getSrv_tracks : Tracks Q R getSrv
  modifySrv_tracks : ∀ f : Server → Server, (∀ s, (f s).breakpoints = s.breakpoints) →
    Tracks Q R (modifySrv f)
  traceCall_tracks : ∀ {α : Type} (act : Tracee → α × Tracee × List Exec), Tracks Q R (traceCall act)
  wait_tracks : ∀ pid, Tracks Q R (wait pid)

section Oblivious

variable {Q R : Engine → Engine → Prop}

theorem Oblivious.waitLoop_tracks (O : Oblivious Q R) (pid : Int) (fuel : Nat) :
    Tracks Q R (waitLoop pid fuel) := by
  induction fuel with
  | zero => exact Tracks.throw O.err _
  | succ fuel ih =>
    simp only [waitLoop]
    refine Tracks.bind (O.wait_tracks pid) fun r => ?_
    rcases r with err | st
    · exact Tracks.pure _
    · dsimp only
      split
      · exact Tracks.pure _
      · refine Tracks.bind (O.traceCall_tracks _) fun r => ?_
        rcases r with err | u
        · exact Tracks.pure _
        · exact ih

/-- `waitForTrap` loops once per report the kernel has left, and related
states have the same reports. -/
theorem Oblivious.waitForTrap_tracks (O : Oblivious Q R) (pid : Int) : Tracks Q R (waitForTrap pid) := by
  intro e e' h
  show Lift Q R (waitLoop pid e.world.stops.length e) (waitLoop pid e'.world.stops.length e')
  rw [O.stops e e' h]
  exact O.waitLoop_tracks pid _ e e' h

theorem Oblivious.awaitExec_tracks (O : Oblivious Q R) : Tracks Q R awaitExec := by
  unfold awaitExec
  refine Tracks.bind (O.modifySrv_tracks _ fun _ => rfl) fun _ => Tracks.bind O.getSrv_tracks fun s => ?_
  refine Tracks.bind (O.waitForTrap_tracks _) fun ⟨_, err⟩ => ?_
  exact Tracks.failIf O.err err fun _ => Tracks.bind (O.traceCall_tracks _) fun r => Tracks.check O.err _ r

theorem Oblivious.stepOver_tracks (O : Oblivious Q R) : Tracks Q R stepOver := by
  unfold stepOver
  refine Tracks.bind O.getSrv_tracks fun s => Tracks.bind (O.traceCall_tracks _) fun r => ?_
  refine Tracks.bind (Tracks.check O.err _ r) fun _ => Tracks.bind (O.waitForTrap_tracks _) fun ⟨_, err⟩ => ?_
  exact Tracks.failIf O.err err fun _ => Tracks.pure _

theorem Oblivious.resumeStart_tracks (O : Oblivious Q R) : Tracks Q R resumeStart := by
  unfold resumeStart
  refine Tracks.bind O.getSrv_tracks fun s => ?_
  have hrest : ∀ u : Unit, Tracks Q R (if (!s.procIsUp) = true then awaitExec
      else if s.stoppedRegs.rip ∈ s.breakpoints then stepOver else pure PUnit.unit) := by
    intro _
    split
    · exact O.awaitExec_tracks
    · split
      · exact O.stepOver_tracks
      · exact Tracks.pure _
  dsimp only
  split
  · exact Tracks.bind (Tracks.throw O.err _) hrest
  · exact Tracks.bind (Tracks.pure _) hrest

theorem Oblivious.runToTrap_tracks (O : Oblivious Q R) : Tracks Q R runToTrap := by
  unfold runToTrap
  refine Tracks.bind O.getSrv_tracks fun s => Tracks.bind (O.traceCall_tracks _) fun r => ?_
  refine Tracks.bind (Tracks.check O.err _ r) fun _ => Tracks.bind (O.waitForTrap_tracks _) fun ⟨w, err⟩ => ?_
  refine Tracks.bind (O.modifySrv_tracks _ fun _ => rfl) fun _ => ?_
  cases err
  · exact Tracks.pure _
  · exact Tracks.throw O.err _

theorem Oblivious.rewind_tracks (O : Oblivious Q R) (exe : Exe) : Tracks Q R (rewind exe) := by
  unfold rewind
  refine Tracks.bind O.getSrv_tracks fun s => Tracks.bind (O.traceCall_tracks _) fun r => ?_
  refine Tracks.bind (Tracks.check O.err _ r) fun regs => ?_
  refine Tracks.bind (O.modifySrv_tracks _ fun _ => rfl) fun _ => ?_
  refine Tracks.bind (O.modifySrv_tracks _ fun _ => rfl) fun _ => Tracks.bind O.getSrv_tracks fun s => ?_
  exact Tracks.bind (O.traceCall_tracks _) fun r => Tracks.bind (Tracks.check O.err _ r) fun _ => Tracks.pure _

end Oblivious

/-- From states that differ in the map orders to come, the primitives
answer alike, and those that leave the table alone keep it. -/
theorem reorderedOblivious (tbl : BreakpointTable) : Oblivious (fun _ _ => True) (Reordered tbl) where
  err _ _ _ := trivial
  stops := by
    rintro e _ ⟨-, s, rfl⟩
    rfl
  getSrv_tracks := by
    rintro e _ ⟨ht, s, rfl⟩
    exact ⟨rfl, ht, s, rfl⟩
  modifySrv_tracks f hf := by
    rintro e _ ⟨ht, s, rfl⟩
    exact ⟨rfl, (hf e.srv).trans ht, s, rfl⟩
  traceCall_tracks act := by
    rintro ⟨srv, ⟨_ | t, nextPid, acks, stops, shuffles, disk, execs, mapLimit⟩⟩ _ ⟨ht, s, rfl⟩
    · exact ⟨rfl, ht, s, rfl⟩
    · rcases acks with _ | ⟨_ | err, rest⟩ <;> exact ⟨rfl, ht, s, rfl⟩
  wait_tracks pid := by
    rintro ⟨srv, ⟨tracee, nextPid, acks, stops, shuffles, disk, execs, mapLimit⟩⟩ _ ⟨ht, s, rfl⟩
    rcases stops with _ | ⟨err | st, rest⟩
    · exact ⟨rfl, trivial⟩
    · exact ⟨rfl, ht, s, rfl⟩
    · exact ⟨rfl, ht, s, rfl⟩

/-! ## The two poke loops -/

/-- `e` with other code `m` in the debuggee, and `s` for the map orders to
come. -/
def Engine.recode (e : Engine) (m : Nat → UInt8) (s : List Nat) : Engine :=
  { e with world := { e.world with
      shuffles := s
      tracee := e.world.tracee.map fun t => { t with mem := m } } }

/-- `e'` is `e` but for the debuggee's code and the map orders to come. -/
def Recoded (e e' : Engine) : Prop :=
  ∃ m s, e' = e.recode m s

theorem Recoded.of_reorder (e : Engine) (s : List Nat) : Recoded e (e.reorder s) := by
  obtain ⟨srv, ⟨_ | t, nextPid, acks, stops, shuffles, disk, execs, mapLimit⟩⟩ := e
  exacts [⟨fun _ => 0, s, rfl⟩, ⟨t.mem, s, rfl⟩]

/-- Recoding with the code the debuggee already has only reorders. -/
theorem recode_eq_reorder {e : Engine} {m : Nat → UInt8} {s : List Nat}
    (h : (e.recode m s).world.tracee = e.world.tracee) : e.recode m s = e.reorder s := by
  obtain ⟨srv, ⟨_ | t, nextPid, acks, stops, shuffles, disk, execs, mapLimit⟩⟩ := e
  · rfl
  · simp only [Engine.recode, Engine.reorder, Option.map_some', Option.some.injEq] at h ⊢
    rw [h]

/-- **Two loops of pokes over lists of one length answer alike**, whatever
they poke where, when no task runs: the kernel answers the calls in the
order they come, and a poke answers nothing but whether it got through. -/
theorem pokeAll_recoded (pid : Int) (tag : String) (bytes : Breakpoint → List UInt8) :
    ∀ {l₁ l₂ : List (Sigma fun _ : BitVec 64 => Breakpoint)}, l₁.length = l₂.length →
      ∀ e e', Idle e → Recoded e e' → Alike Recoded (pokeAll pid tag bytes l₁ e) (pokeAll pid tag bytes l₂ e')
  | [], [], _, _, _, _, h => ⟨rfl, h⟩
  | ⟨pc, bp⟩ :: r₁, ⟨pc', bp'⟩ :: r₂, hlen, e, _, hidle, ⟨m, s, he'⟩ => by
    subst he'
    obtain ⟨srv, ⟨_ | ⟨mem, regs, running⟩, nextPid, acks, stops, shuffles, disk, execs, mapLimit⟩⟩ := e
    · rfl
    · obtain rfl : running = [] := hidle _ rfl
      have hidle₁ : ∀ m', Idle ⟨srv, ⟨some ⟨m', regs, []⟩, nextPid, acks.tail, stops, shuffles, disk,
          execs ++ [], mapLimit⟩⟩ := fun _ _ h => by cases h; rfl
      rcases acks with _ | ⟨_ | err, rest⟩
      · exact pokeAll_recoded pid tag bytes (Nat.succ.inj hlen) _ _ (hidle₁ _)
          ⟨writeMem m pc'.toNat (bytes bp'), s, rfl⟩
      · exact pokeAll_recoded pid tag bytes (Nat.succ.inj hlen) _ _ (hidle₁ _)
          ⟨writeMem m pc'.toNat (bytes bp'), s, rfl⟩
      · rfl

/-- Pokes of disjoint windows commute. -/
theorem writeMem_comm {m : Nat → UInt8} {a a' : Nat} {bs bs' : List UInt8}
    (h : a + bs.length ≤ a' ∨ a' + bs'.length ≤ a) :
    writeMem (writeMem m a bs) a' bs' = writeMem (writeMem m a' bs') a bs := by
  funext x
  simp only [writeMem]
  split_ifs <;> first | rfl | omega

section Loops

variable {tbl : BreakpointTable}

/-- **Every order writes the same code.** With the table's pcs at least
`BreakpointSize` apart, pokes of at most `BreakpointSize` bytes at its
entries write the same code in whatever order they come. -/
theorem writeAll_perm {exe : Exe} (hsep : Separated exe tbl) {bytes : Breakpoint → List UInt8}
    (hlen : ∀ bp, (bytes bp).length ≤ exe.arch.breakpointSize)
    {l₁ l₂ : List (Sigma fun _ : BitVec 64 => Breakpoint)} (hp₁ : l₁.Perm tbl.entries)
    (hp₂ : l₂.Perm tbl.entries) (m : Nat → UInt8) : writeAll m bytes l₁ = writeAll m bytes l₂ := by
  have hnd : l₁.NodupKeys := (List.perm_nodupKeys hp₁).mpr tbl.nodupKeys
  have hmem : ∀ w ∈ l₁, w.1 ∈ tbl := fun w hw =>
    AList.mem_keys.mpr (List.mem_keys_of_mem (hp₁.subset hw))
  refine (hp₁.trans hp₂.symm).foldl_eq' (fun x hx y hy z => ?_) m
  by_cases hxy : x = y
  · rw [hxy]
  · have hkey : x.1 ≠ y.1 := fun h => hxy (hnd.eq_of_fst_eq hx hy h)
    have hx' := hlen x.2
    have hy' := hlen y.2
    apply writeMem_comm
    rcases hsep x.1 (hmem x hx) y.1 (hmem y hy) hkey with h | h <;> omega

/-- Two loops over orders of a separated table that got through, from
states that differ in the map orders and the code, leave states that
differ in the map orders only, when the loops started from the same code. -/
theorem pokeAll_perm_reorder {exe : Exe} (hsep : Separated exe tbl) {pid : Int} {tag : String}
    {bytes : Breakpoint → List UInt8} (hlen : ∀ bp, (bytes bp).length ≤ exe.arch.breakpointSize)
    {l₁ l₂ : List (Sigma fun _ : BitVec 64 => Breakpoint)} (hp₁ : l₁.Perm tbl.entries)
    (hp₂ : l₂.Perm tbl.entries) {e e₁ : Engine} {s s' : List Nat} {m : Nat → UInt8}
    (hk₁ : pokeAll pid tag bytes l₁ e = .ok () e₁)
    (hk₂ : pokeAll pid tag bytes l₂ (e.reorder s) = .ok () (e₁.recode m s')) :
    e₁.recode m s' = e₁.reorder s' := by
  obtain ⟨-, -, -, ht₁⟩ := pokeAll_ok l₁ hk₁
  obtain ⟨-, -, -, ht₂⟩ := pokeAll_ok l₂ hk₂
  refine recode_eq_reorder (ht₂.trans (ht₁.trans ?_).symm)
  exact congrArg (Option.map · _) (funext fun t => by rw [writeAll_perm hsep hlen hp₁ hp₂])

/-- The install and lift loops run `pokeAll` over an order of the table,
from the state with one map order used up. -/
theorem pokeBreakpoints_eq (tag : String) (bytes : Breakpoint → List UInt8) (e : Engine) :
    ∃ l, l.Perm e.srv.breakpoints.entries ∧
      pokeBreakpoints tag bytes e = pokeAll e.srv.stoppedPid tag bytes l (e.reorder e.world.shuffles.tail) := by
  have ⟨l, e₁, h⟩ : ∃ l e₁, rangeOrder e.srv.breakpoints e = .ok l e₁ := by
    unfold rangeOrder
    split <;> exact ⟨_, _, rfl⟩
  obtain ⟨hp, rfl⟩ := rangeOrder_ok h
  refine ⟨l, hp, ?_⟩
  simp only [pokeBreakpoints, getSrv_bind]
  rw [bind_ok h]
  rfl

/-- **The install and lift loops do not depend on the map order** of a
separated table, from a one-task debuggee: they answer alike in every
order, and when they get through, leave the same state but for the orders
still to come. -/
theorem pokeBreakpoints_blind {exe : Exe} (hsep : Separated exe tbl) (tag : String)
    {bytes : Breakpoint → List UInt8} (hlen : ∀ bp, (bytes bp).length ≤ exe.arch.breakpointSize) :
    Tracks (fun _ _ => True) (fun e e' => Reordered tbl e e' ∧ Solo e) (pokeBreakpoints tag bytes) := by
  rintro e _ ⟨⟨rfl, s, rfl⟩, hsolo⟩
  obtain ⟨l₁, hp₁, h₁⟩ := pokeBreakpoints_eq tag bytes e
  obtain ⟨l₂, hp₂, h₂⟩ := pokeBreakpoints_eq tag bytes (e.reorder s)
  rw [h₁, h₂]
  have halike : Alike Recoded (pokeAll e.srv.stoppedPid tag bytes l₁ (e.reorder e.world.shuffles.tail))
      (pokeAll e.srv.stoppedPid tag bytes l₂ ((e.reorder e.world.shuffles.tail).reorder s.tail)) :=
    pokeAll_recoded e.srv.stoppedPid tag bytes (hp₁.length_eq.trans hp₂.length_eq.symm)
      _ _ hsolo.1 (Recoded.of_reorder _ s.tail)
  show Lift _ _ _ (pokeAll e.srv.stoppedPid tag bytes l₂ ((e.reorder e.world.shuffles.tail).reorder s.tail))
  cases hk₁ : pokeAll e.srv.stoppedPid tag bytes l₁ (e.reorder e.world.shuffles.tail) <;>
    cases hk₂ : pokeAll e.srv.stoppedPid tag bytes l₂ ((e.reorder e.world.shuffles.tail).reorder s.tail) <;>
    rw [hk₁, hk₂] at halike
  · obtain ⟨rfl, m, s', rfl⟩ := halike
    exact ⟨rfl, ⟨congrArg Server.breakpoints (pokeAll_ok l₁ hk₁).1, s',
      pokeAll_perm_reorder hsep hlen hp₁ hp₂ hk₁ hk₂⟩, pokeBreakpoints_solo hsolo (h₁ ▸ hk₁)⟩
  · exact False.elim halike
  · exact False.elim halike
  · exact ⟨halike, trivial⟩

theorem resume_blind {exe : Exe} (hsep : Separated exe tbl) :
    Tracks (fun _ _ => True) (fun e e' => Reordered tbl e e' ∧ Solo e) (resume exe) :=
  Tracks.bind ((reorderedOblivious tbl).resumeStart_tracks.inv fun _ _ _ => resumeStart_solo) fun _ =>
  Tracks.bind (pokeBreakpoints_blind hsep _ fun _ => (length_trapBytes exe).le) fun _ =>
  Tracks.bind ((reorderedOblivious tbl).runToTrap_tracks.inv fun _ _ _ h h' => (runToTrap_solo h h').1)
    fun _ =>
  Tracks.bind (pokeBreakpoints_blind hsep _ fun _ => List.length_take_le _ _) fun _ =>
  (reorderedOblivious tbl).rewind_tracks exe |>.inv fun e _ _ h h' => by
    simpa only [h', stateOf_ok] using rewind_solo exe e h

end Loops

/-- **`Resume` does not depend on the map order** of a one-task debuggee.
From a state whose table's pcs lie at least `BreakpointSize` apart (every
table, on `amd64` and `386`), with no task running and every stop the
kernel will report of the stopped task, whatever orders the runtime picks
for the `range` loops of `setBreakpoints` and `liftBreakpoints`: `Resume`
gives the same answer, and when it returns, the same server and debuggee,
but for the map orders still to come. -/
theorem resume_order_blind {exe : Exe} {e : Engine} (hsep : Separated exe e.srv.breakpoints)
    (hsolo : Solo e) (s : List Nat) :
    Alike (fun e₁ e₂ => ∃ s', e₂ = e₁.reorder s') (resume exe e) (resume exe (e.reorder s)) :=
  Lift.alike (fun _ _ h => h.1.2) (resume_blind hsep e _ ⟨⟨rfl, s, rfl⟩, hsolo⟩)

/-- The task of `steppedEngine`, stopped on its breakpoint, with the
runtime's own orders or the second order of the table. -/
theorem resume_order_blind_main_foo :
    Separated demoExe steppedEngine.srv.breakpoints ∧ Solo steppedEngine ∧
      Alike (fun e₁ e₂ => ∃ s', e₂ = e₁.reorder s') (resume demoExe steppedEngine)
        (resume demoExe (steppedEngine.reorder [1])) :=
  (fun hsep hsolo => ⟨hsep, hsolo, resume_order_blind hsep hsolo [1]⟩)
    (separated_of_breakpointSize_le_one (by decide) _) (by decide)

/-- Where the order shows: with two entries and a kernel that refuses the
second poke, the install loop arms only the entry it visits first, and
which one that is is the runtime's choice. -/
example :
    let e : Engine := ⟨{ Server.new with
        breakpoints := (Server.new.breakpoints.insert 0x1000 ⟨0x1000, [0x90]⟩).insert 0x2000 ⟨0x2000, [0x90]⟩ },
      { World.start [] with tracee := some ⟨demoExe.image, fun _ => default, []⟩, acks := [none, some "EIO"] }⟩
    (stateOf (setBreakpoints demoExe e)).world.tracee.map (·.mem 0x1000) ≠
      (stateOf (setBreakpoints demoExe (e.reorder [1]))).world.tracee.map (·.mem 0x1000) := by
  decide

end OgleServer
