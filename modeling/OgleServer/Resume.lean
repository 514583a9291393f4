import OgleServer.Breakpoints

/-!
# Resume — `waitForTrap`, `Run` and `Resume`

`Resume` is the engine's one long transition. In the order of the code:

1. `resumeStart`: refuse when no process was started; on the first call
   consume the exec stop and set `PTRACE_O_TRACECLONE` (`awaitExec`);
   later, when the stopped task sits on a breakpoint, single-step it over
   the original instruction (`stepOver`);
2. `setBreakpoints`;
3. `runToTrap`: `PTRACE_CONT`, then `waitForTrap(-1)`, whose task becomes
   `stoppedPid` (assigned before the error is checked);
4. `liftBreakpoints`;
5. `rewind`: read the registers, move `Rip` back by `BreakpointSize`,
   write them back and report `{PC, SP}`.

`waitForTrap` loops on `wait` until a `SIGTRAP` stop that is not a clone
event, continuing every other stop with signal `0`. Each turn consumes one
of the kernel's reports, so the loop is structural in the number of
reports left (`waitLoop`); with none left, `wait` blocks.

The module proves what the phases keep, once for every `TraceFrame`
(`TraceFrame.runToTrap_keeps`, ...), and so what a `Resume` keeps (the
tables, and the code outside its two poke loops); that `waitForTrap`
returns on the first real trap and continues every stop before it, a
clone event's among them (`waitForTrap_first_trap`); what a successful one
reports (`resume_pc_of_trap`); that from the install loop on the debuggee
only runs armed (`resume_from_start_armed`); what stepping over does when
the kernel reports the step's trap first
(`resume_steps_once_then_armed`); that `Resume` returns when the kernel
answers and reports its traps (`resume_returns`); and that the first
`Resume` after `Run` reports the trap that ends its run
(`resume_reports`).
-/

namespace OgleServer

/-- `ResumeResponse.Status`. -/
structure Status where
  pc : BitVec 64
  sp : BitVec 64
  deriving DecidableEq, Repr

/-- Whether `waitForTrap` returns on this status: a `SIGTRAP` stop whose
cause is not `PTRACE_EVENT_CLONE`. -/
def isTrap (st : WaitStatus) : Bool :=
  st.stopSignal = SIGTRAP && st.trapCause != PTRACE_EVENT_CLONE

/-- The body of `waitForTrap`, with `fuel` turns left. -/
def waitLoop (pid : Int) : Nat → Eng (Int × Option String)
  | 0 => throw .blocked
  | fuel + 1 => do
    match ← wait pid with
    | .error err => pure (0, some ("wait: " ++ err))
    | .ok st =>
      if isTrap st.status then pure (st.pid, none)
      else
        match ← ptraceCont st.pid with
        | .error err => pure (0, some ("ptraceCont: " ++ err))
        | .ok () => waitLoop pid fuel

/-- `Server.waitForTrap`: the task of the first real trap, or `0` and the
error. -/
def waitForTrap (pid : Int) : Eng (Int × Option String) := fun e =>
  waitLoop pid e.world.stops.length e

/-- `(*os.Process).Kill`: the debuggee is gone (the error is ignored). -/
def kill : Eng Unit := fun e =>
  .ok () { e with world := { e.world with tracee := none } }

/-- `Server.startProcess`: fork and exec the executable under `ptrace`. The
child stops at its exec with the executable's code mapped. -/
def startProcess (exe : Exe) : Eng (Except String Int) := fun e =>
  match e.world.acks with
  | some err :: rest =>
    .ok (.error ("fork/exec " ++ exe.executable ++ ": " ++ err))
      { e with world := { e.world with acks := rest } }
  | acks =>
    .ok (.ok e.world.nextPid)
      { e with world := { e.world with
          acks := acks.tail, nextPid := e.world.nextPid + 1,
          tracee := some ⟨exe.image, fun _ => default, []⟩ } }

/-- `Server.Run`. -/
def run (exe : Exe) : Eng Unit := do
  let s ← getSrv
  if s.proc.isSome then
    kill
    modifySrv fun s => { s with proc := none, procIsUp := false, stoppedPid := 0, stoppedRegs := default }
  let p ← check "" (← startProcess exe)
  modifySrv fun s => { s with proc := some p, stoppedPid := p }

/-- The first `Resume`: consume the stop at exec and ask for clone events. -/
def awaitExec : Eng Unit := do
  modifySrv fun s => { s with procIsUp := true }
  let s ← getSrv
  let (_, err) ← waitForTrap s.stoppedPid
  if let some err := err then fail err
  check "ptraceSetOptions: " (← ptraceSetOptions s.stoppedPid)

/-- Single-step the stopped task over the instruction under its
breakpoint. -/
def stepOver : Eng Unit := do
  let s ← getSrv
  check "ptraceSingleStep: " (← ptraceSingleStep s.stoppedPid)
  let (_, err) ← waitForTrap s.stoppedPid
  if let some err := err then fail err

/-- The start of `Server.Resume`, before the breakpoints go in. -/
def resumeStart : Eng Unit := do
  let s ← getSrv
  if s.proc.isNone then fail "Resume: Run did not successfully start a process"
  if !s.procIsUp then awaitExec
  else if s.stoppedRegs.rip ∈ s.breakpoints then stepOver

/-- Let the debuggee run to the next trap, whose task becomes the stopped
one. -/
def runToTrap : Eng Unit := do
  let s ← getSrv
  check "ptraceCont: " (← ptraceCont s.stoppedPid)
  let (wpid, err) ← waitForTrap (-1)
  modifySrv fun s => { s with stoppedPid := wpid }
  if let some err := err then fail err

/-- Read the trapped task's registers, move its pc back over the trap
instruction, write them back and report them. -/
def rewind (exe : Exe) : Eng Status := do
  let s ← getSrv
  let regs ← check "ptraceGetRegs: " (← ptraceGetRegs s.stoppedPid)
  modifySrv fun s => { s with stoppedRegs := regs }
  modifySrv fun s => { s with stoppedRegs := { s.stoppedRegs with
    rip := s.stoppedRegs.rip - BitVec.ofNat 64 exe.arch.breakpointSize } }
  let s ← getSrv
  check "ptraceSetRegs: " (← ptraceSetRegs s.stoppedPid s.stoppedRegs)
  pure ⟨s.stoppedRegs.rip, s.stoppedRegs.rsp⟩

/-- `Server.Resume`. -/
def resume (exe : Exe) : Eng Status := do
  resumeStart
  setBreakpoints exe
  runToTrap
  liftBreakpoints exe
  rewind exe

/-! ## What the process-control phases keep -/

section TraceFrame

variable {R : Engine → Engine → Prop}

theorem TraceFrame.waitLoop_keeps (F : TraceFrame R) (pid : Int) : ∀ fuel, Keeps R (waitLoop pid fuel)
  | 0 => Keeps.throw F.refl _
  | fuel + 1 => by
    simp only [waitLoop]
    refine Keeps.bind F.trans (F.wait_keeps pid) fun r => ?_
    rcases r with err | st
    · exact Keeps.pure F.refl _
    · dsimp only
      split
      · exact Keeps.pure F.refl _
      · refine Keeps.bind F.trans (F.cont_keeps _) fun r => ?_
        rcases r with err | u
        · exact Keeps.pure F.refl _
        · exact F.waitLoop_keeps pid fuel

theorem TraceFrame.waitForTrap_keeps (F : TraceFrame R) (pid : Int) : Keeps R (waitForTrap pid) :=
  fun e => F.waitLoop_keeps pid _ e

/-- The tail of a phase: `if err != nil { return err }`, then `k`. -/
theorem keeps_failIf (hR : Reflexive R) (hT : Transitive R)
    (err : Option String) {α : Type} {k : Unit → Eng α} (hk : ∀ u, Keeps R (k u)) :
    Keeps R (match err with
      | some err => fail err >>= k
      | _ => pure PUnit.unit >>= k) := by
  cases err
  · exact Keeps.bind hT (Keeps.pure hR _) hk
  · exact Keeps.bind hT (Keeps.throw hR _) hk

/-- `awaitExec` keeps every trace frame from the state its first
assignment, `s.procIsUp = true`, leaves. -/
theorem TraceFrame.awaitExec_keeps (F : TraceFrame R) (e : Engine) :
    R ⟨{ e.srv with procIsUp := true }, e.world⟩ (stateOf (awaitExec e)) := by
  unfold awaitExec
  rw [modifySrv_bind]
  refine Keeps.bind F.trans (Keeps.getSrv F.refl) (fun s => ?_) _
  refine Keeps.bind F.trans (F.waitForTrap_keeps _) fun ⟨_, err⟩ => ?_
  exact keeps_failIf F.refl F.trans err fun _ =>
    Keeps.bind F.trans (F.setOptions_keeps _) fun r => Keeps.check F.refl _ r

theorem TraceFrame.stepOver_keeps (F : TraceFrame R) : Keeps R stepOver := by
  unfold stepOver
  refine Keeps.bind F.trans (Keeps.getSrv F.refl) fun s => ?_
  refine Keeps.bind F.trans (F.singleStep_keeps _) fun r => ?_
  refine Keeps.bind F.trans (Keeps.check F.refl _ r) fun _ => ?_
  refine Keeps.bind F.trans (F.waitForTrap_keeps _) fun ⟨_, err⟩ => ?_
  exact keeps_failIf F.refl F.trans err fun _ => Keeps.pure F.refl _

theorem TraceFrame.runToTrap_keeps (F : TraceFrame R)
    (hpid : ∀ w, Keeps R (modifySrv fun s => { s with stoppedPid := w })) : Keeps R runToTrap := by
  unfold runToTrap
  refine Keeps.bind F.trans (Keeps.getSrv F.refl) fun s => ?_
  refine Keeps.bind F.trans (F.cont_keeps _) fun r => ?_
  refine Keeps.bind F.trans (Keeps.check F.refl _ r) fun _ => ?_
  refine Keeps.bind F.trans (F.waitForTrap_keeps _) fun ⟨w, err⟩ => ?_
  refine Keeps.bind F.trans (hpid w) fun _ => ?_
  cases err
  · exact Keeps.pure F.refl _
  · exact Keeps.throw F.refl _

/-- `rewind` keeps every relation that reading and writing the registers,
and the server's copy of them, keep. -/
theorem rewind_keeps_of (hR : Reflexive R) (hT : Transitive R)
    (hregs : ∀ f : Server → Regs, Keeps R (modifySrv fun s => { s with stoppedRegs := f s }))
    (hget : ∀ pid, Keeps R (ptraceGetRegs pid)) (hset : ∀ pid r, Keeps R (ptraceSetRegs pid r))
    (exe : Exe) : Keeps R (rewind exe) := by
  unfold rewind
  refine Keeps.bind hT (Keeps.getSrv hR) fun s => ?_
  refine Keeps.bind hT (hget _) fun r => ?_
  refine Keeps.bind hT (Keeps.check hR _ r) fun regs => ?_
  refine Keeps.bind hT (hregs fun _ => regs) fun _ => ?_
  refine Keeps.bind hT (hregs _) fun _ => ?_
  refine Keeps.bind hT (Keeps.getSrv hR) fun s => ?_
  refine Keeps.bind hT (hset _ _) fun r => ?_
  exact Keeps.bind hT (Keeps.check hR _ r) fun _ => Keeps.pure hR _

theorem TraceFrame.rewind_keeps (F : TraceFrame R)
    (hregs : ∀ f : Server → Regs, Keeps R (modifySrv fun s => { s with stoppedRegs := f s })) (exe : Exe) :
    Keeps R (rewind exe) :=
  rewind_keeps_of F.refl F.trans hregs F.getRegs_keeps F.setRegs_keeps exe

end TraceFrame

theorem waitLoop_quiet (pid : Int) : ∀ fuel, Keeps Quiet (waitLoop pid fuel) :=
  quietFrame.waitLoop_keeps pid

theorem waitForTrap_quiet (pid : Int) : Keeps Quiet (waitForTrap pid) :=
  quietFrame.waitForTrap_keeps pid

theorem awaitExec_quiet : Keeps Quiet awaitExec := fun e =>
  Quiet.trans (modifySrv_quiet (fun s => { s with procIsUp := true }) (fun _ => ⟨rfl, rfl⟩) e)
    (quietFrame.awaitExec_keeps e)

theorem stepOver_quiet : Keeps Quiet stepOver :=
  quietFrame.stepOver_keeps

theorem resumeStart_quiet : Keeps Quiet resumeStart := by
  unfold resumeStart
  refine Keeps.bind Quiet.trans (Keeps.getSrv Quiet.refl) fun s => ?_
  have hrest : ∀ u : Unit, Keeps Quiet (if (!s.procIsUp) = true then awaitExec
      else if s.stoppedRegs.rip ∈ s.breakpoints then stepOver else pure PUnit.unit) := by
    intro _
    split
    · exact awaitExec_quiet
    · split
      · exact stepOver_quiet
      · exact Keeps.pure Quiet.refl _
  dsimp only
  split
  · exact Keeps.bind Quiet.trans (Keeps.throw Quiet.refl _) hrest
  · exact Keeps.bind Quiet.trans (Keeps.pure Quiet.refl _) hrest

theorem runToTrap_quiet : Keeps Quiet runToTrap :=
  quietFrame.runToTrap_keeps fun _ => modifySrv_quiet _ fun _ => ⟨rfl, rfl⟩

theorem rewind_quiet (exe : Exe) : Keeps Quiet (rewind exe) :=
  quietFrame.rewind_keeps (fun _ => modifySrv_quiet _ fun _ => ⟨rfl, rfl⟩) exe

/-- Rewinding lets no task run, and from a state where none runs, the
debuggee runs nothing, however it ends. -/
theorem rewind_calm (exe : Exe) : Keeps Calm (rewind exe) :=
  rewind_keeps_of Calm.refl Calm.trans (fun _ _ h => ⟨h, rfl⟩)
    (fun _ => traceCall_calm _ fun _ h => ⟨h, rfl⟩) (fun _ _ => traceCall_calm _ fun _ h => ⟨h, rfl⟩) exe

/-- The phases of `Resume` after its start keep the tables. -/
theorem resume_from_start (exe : Exe) (e : Engine) :
    Kept (stateOf (resumeStart e)) (stateOf (resume exe e)) :=
  let q {α : Type} {x : Eng α} (h : Keeps Quiet x) : Keeps Kept x := Keeps.mono (fun _ _ h => h.toKept) h
  Keeps.stateOf_bind Kept.refl (fun _ =>
    Keeps.bind Kept.trans (pokeBreakpoints_kept _ _) fun _ =>
    Keeps.bind Kept.trans (q runToTrap_quiet) fun _ =>
    Keeps.bind Kept.trans (pokeBreakpoints_kept _ _) fun _ => q (rewind_quiet exe)) e

/-- `Resume` keeps the tables, however it ends. -/
theorem resume_kept (exe : Exe) : Keeps Kept (resume exe) := fun e =>
  Kept.trans (resumeStart_quiet e).toKept (resume_from_start exe e)

/-- A stop that is not a real trap is answered with `PTRACE_CONT`: the task
that reported it runs freely against the code as it is. -/
theorem waitLoop_cont {pid : Int} {fuel : Nat} {e : Engine} {t : Tracee} {stop : Stop}
    {rest : List (Except String Stop)} (ht : e.world.tracee = some t) (hacks : e.world.acks = [])
    (hstops : e.world.stops = .ok stop :: rest) (hstop : isTrap stop.status = false) :
    waitLoop pid (fuel + 1) e = waitLoop pid fuel ⟨e.srv, { e.world with
      acks := [], stops := rest,
      tracee := some { t.report stop with running := stop.pid :: (t.report stop).running },
      execs := e.world.execs ++ [⟨stop.pid, false, t.mem⟩] }⟩ := by
  obtain ⟨srv, ⟨tracee, nextPid, acks, stops, shuffles, disk, execs, mapLimit⟩⟩ := e
  dsimp only at ht hacks hstops
  subst ht hacks hstops
  simp only [waitLoop, wait, bind, EStateM.bind, hstop, Bool.false_eq_true, if_false, ptraceCont,
    traceCall, Option.map_some']
  rfl

/-- A real trap reported first ends the wait at once. -/
theorem waitLoop_trap_first {pid : Int} {fuel : Nat} {e : Engine} {stop : Stop}
    {rest : List (Except String Stop)} (hstops : e.world.stops = .ok stop :: rest)
    (htrap : isTrap stop.status = true) :
    waitLoop pid (fuel + 1) e = .ok (stop.pid, none) ⟨e.srv, { e.world with
      stops := rest, tracee := e.world.tracee.map (·.report stop) }⟩ := by
  simp only [waitLoop, wait, bind, EStateM.bind, hstops, htrap, if_true]
  rfl

/-- Stepping over, when the kernel answers and reports the step's trap
first: the stopped task ran exactly one instruction, against the code as
it is, and the server record is as it was. -/
theorem stepOver_trap {e : Engine} {t : Tracee} {stop : Stop} {rest : List (Except String Stop)}
    (ht : e.world.tracee = some t) (hacks : e.world.acks = [])
    (hstops : e.world.stops = .ok stop :: rest) (htrap : isTrap stop.status = true) :
    ∃ e₁, stepOver e = .ok () e₁ ∧ e₁.srv = e.srv ∧
      e₁.world.execs = e.world.execs ++ [⟨e.srv.stoppedPid, true, t.mem⟩] ∧
      e₁.world.tracee.map Tracee.mem = some t.mem := by
  obtain ⟨srv, ⟨tracee, nextPid, acks, stops, shuffles, disk, execs, mapLimit⟩⟩ := e
  dsimp only at ht hacks hstops
  subst ht hacks hstops
  refine ⟨⟨srv, ⟨some (Tracee.report { t with running := srv.stoppedPid :: t.running } stop), nextPid, [], rest,
    shuffles, disk, execs ++ [⟨srv.stoppedPid, true, t.mem⟩], mapLimit⟩⟩, ?_, rfl, rfl, rfl⟩
  simp only [stepOver, waitForTrap, waitLoop, wait, bind, EStateM.bind, htrap, if_true, ptraceSingleStep,
    traceCall, getSrv, check, pure, EStateM.pure, Option.map_some', List.length_cons, List.tail_nil]

/-! ## `Run` -/

/-- The debuggee is as it was, gone, or a fresh copy of the executable. -/
def Respawn (exe : Exe) (e e' : Engine) : Prop :=
  e'.world.tracee = e.world.tracee ∨ e'.world.tracee = none ∨
    ∃ regs, e'.world.tracee = some ⟨exe.image, regs, []⟩

theorem Respawn.refl (exe : Exe) : Reflexive (Respawn exe) := fun _ => .inl rfl

theorem Respawn.trans (exe : Exe) : Transitive (Respawn exe) := by
  rintro e₁ e₂ e₃ h₁₂ (h | h | h)
  · rwa [Respawn, h]
  · exact .inr (.inl h)
  · exact .inr (.inr h)

theorem kill_kept : Keeps Kept kill := fun _ => ⟨rfl, rfl, List.prefix_refl _, List.suffix_refl _⟩

theorem startProcess_kept (exe : Exe) : Keeps Kept (startProcess exe) := by
  intro e
  unfold startProcess
  split
  · exact ⟨rfl, rfl, List.prefix_refl _, List.suffix_refl _⟩
  · exact ⟨rfl, rfl, List.prefix_refl _, List.suffix_refl _⟩

/-- `Run` keeps the tables, however it ends. -/
theorem run_kept (exe : Exe) : Keeps Kept (run exe) := by
  have hmod : ∀ f : Server → Server, (∀ s, (f s).breakpoints = s.breakpoints ∧ (f s).files = s.files) →
      Keeps Kept (modifySrv f) := fun f hf => Keeps.mono (fun _ _ h => h.toKept) (modifySrv_quiet f hf)
  unfold run
  refine Keeps.bind Kept.trans (Keeps.getSrv Kept.refl) fun s => ?_
  dsimp only
  split
  all_goals
    first
    | refine Keeps.bind Kept.trans kill_kept fun _ =>
        Keeps.bind Kept.trans (hmod _ fun _ => ⟨rfl, rfl⟩) fun _ => ?_
    | refine Keeps.bind Kept.trans (Keeps.pure Kept.refl _) fun _ => ?_
    refine Keeps.bind Kept.trans (startProcess_kept exe) fun r => ?_
    exact Keeps.bind Kept.trans (Keeps.check Kept.refl _ r) fun _ => hmod _ fun _ => ⟨rfl, rfl⟩

/-- After `Run`, the debuggee is as it was, gone, or a fresh copy of the
executable. -/
theorem run_respawn (exe : Exe) : Keeps (Respawn exe) (run exe) := by
  have hR := Respawn.refl exe
  have hT := Respawn.trans exe
  have hstart : Keeps (Respawn exe) (startProcess exe) := by
    intro e
    unfold startProcess
    split
    · exact hR _
    · exact .inr (.inr ⟨_, rfl⟩)
  unfold run
  refine Keeps.bind hT (Keeps.getSrv hR) fun s => ?_
  dsimp only
  split
  all_goals
    first
    | refine Keeps.bind hT (fun _ => .inr (.inl rfl)) fun _ => Keeps.bind hT (fun _ => .inl rfl) fun _ => ?_
    | refine Keeps.bind hT (Keeps.pure hR _) fun _ => ?_
    refine Keeps.bind hT hstart fun r => ?_
    exact Keeps.bind hT (Keeps.check hR _ r) fun _ _ => .inl rfl

/-- `Run` lets the debuggee run nowhere, however it ends. -/
theorem run_still (exe : Exe) : Keeps Still (run exe) := by
  have hstart : Keeps Still (startProcess exe) := by
    intro e
    unfold startProcess
    split <;> rfl
  unfold run
  refine Keeps.bind Still.trans (Keeps.getSrv Still.refl) fun s => ?_
  dsimp only
  split
  all_goals
    first
    | refine Keeps.bind Still.trans (fun _ => rfl) fun _ => Keeps.bind Still.trans (fun _ => rfl) fun _ => ?_
    | refine Keeps.bind Still.trans (Keeps.pure Still.refl _) fun _ => ?_
    refine Keeps.bind Still.trans hstart fun r => ?_
    exact Keeps.bind Still.trans (Keeps.check Still.refl _ r) fun _ _ => rfl

/-- `Run` with no process yet, when the kernel starts one: the child is the
kernel's next pid, stopped at its exec with a fresh copy of the code. -/
theorem run_fresh {exe : Exe} {e : Engine} (hproc : e.srv.proc = none) (hacks : e.world.acks = []) :
    ∃ e', run exe e = .ok () e' ∧
      e'.srv = { e.srv with proc := some e.world.nextPid, stoppedPid := e.world.nextPid } ∧
      e'.world.tracee = some ⟨exe.image, fun _ => default, []⟩ ∧ e'.world.acks = [] ∧
      e'.world.stops = e.world.stops := by
  obtain ⟨srv, ⟨tracee, nextPid, acks, stops, shuffles, disk, execs, mapLimit⟩⟩ := e
  dsimp only at hproc hacks
  subst hacks
  simp only [run, getSrv_bind, hproc, Option.isSome_none, Bool.false_eq_true, ↓reduceIte, pure_bind]
  exact ⟨_, rfl, rfl, rfl, rfl, rfl⟩

/-! ## A `Resume` that returned -/

/-- A successful `Resume` got through each of its five phases. -/
theorem resume_phases {exe : Exe} {e e' : Engine} {st : Status} (h : resume exe e = .ok st e') :
    ∃ e₁ e₂ e₃ e₄, resumeStart e = .ok () e₁ ∧ setBreakpoints exe e₁ = .ok () e₂ ∧
      runToTrap e₂ = .ok () e₃ ∧ liftBreakpoints exe e₃ = .ok () e₄ ∧ rewind exe e₄ = .ok st e' := by
  obtain ⟨_, e₁, h₁, h⟩ := bind_eq_ok.mp h
  obtain ⟨_, e₂, h₂, h⟩ := bind_eq_ok.mp h
  obtain ⟨_, e₃, h₃, h⟩ := bind_eq_ok.mp h
  obtain ⟨_, e₄, h₄, h⟩ := bind_eq_ok.mp h
  exact ⟨e₁, e₂, e₃, e₄, h₁, h₂, h₃, h₄, h⟩

/-- **`waitForTrap`'s loop, returning without error**: it consumed reports
up to and including the first real trap, whose task it returns and whose
registers the debuggee now has; every report before it was a stop that is
no real trap, answered with `PTRACE_CONT` of its task against the same
code. -/
theorem waitLoop_trap {pid : Int} :
    ∀ {fuel : Nat} {e e' : Engine} {wpid : Int}, waitLoop pid fuel e = .ok (wpid, none) e' →
      ∃ (pre : List Stop) (stop : Stop), e.world.stops = pre.map .ok ++ .ok stop :: e'.world.stops ∧
        (∀ st ∈ pre, isTrap st.status = false) ∧ isTrap stop.status = true ∧ wpid = stop.pid ∧
        (∀ t, e'.world.tracee = some t → t.regs stop.pid = stop.regs) ∧
        ∀ t, e.world.tracee = some t →
          e'.world.execs = e.world.execs ++ pre.map fun st => ⟨st.pid, false, t.mem⟩
  | 0, _, _, _, h => by cases h
  | fuel + 1, e, e', wpid, h => by
    simp only [waitLoop] at h
    obtain ⟨r, e₁, hw, h⟩ := bind_eq_ok.mp h
    obtain ⟨hs, -, hx, ht⟩ := wait_ok hw
    rcases r with err | st
    · cases h
    · dsimp only at h ht
      split at h
      · cases h
        refine ⟨[], st, hs, nofun, ‹_›, rfl, fun t h' => ?_, fun _ _ => by simp [hx]⟩
        rw [ht] at h'
        obtain ⟨t₀, -, rfl⟩ := Option.map_eq_some'.mp h'
        simp
      · obtain ⟨r, e₂, hc, h⟩ := bind_eq_ok.mp h
        rcases r with err | u
        · cases h
        · obtain ⟨pre, stop, hs', hpre, htrap, hpid, hregs, hx'⟩ := waitLoop_trap h
          obtain ⟨t₁, ht₁, -, -, ht₂, hx₂⟩ := traceCall_ok hc
          refine ⟨st :: pre, stop, ?_, ?_, htrap, hpid, hregs, fun t ht₀ => ?_⟩
          · rw [hs, ← traceCall_stops hc, hs', List.map_cons, List.cons_append]
          · exact List.forall_mem_cons.mpr ⟨Bool.eq_false_iff.mpr ‹¬isTrap st.status = true›, hpre⟩
          · rw [ht, ht₀] at ht₁
            cases ht₁
            rw [hx' _ ht₂, hx₂, hx, List.map_cons, List.append_assoc, List.singleton_append]
            rfl

/-- **`waitForTrap` returns on the first real trap.** When it returns
without error, the reports it consumed are stops that are no real trap
(a `SIGTRAP` of a clone event among them), then the real trap whose task
it returns; it answered each earlier stop with `PTRACE_CONT` of its task,
in order and against the code it found, and no other call let the
debuggee run. -/
theorem waitForTrap_first_trap {pid wpid : Int} {e e' : Engine} {t : Tracee}
    (h : waitForTrap pid e = .ok (wpid, none) e') (ht : e.world.tracee = some t) :
    ∃ (pre : List Stop) (stop : Stop), e.world.stops = pre.map .ok ++ .ok stop :: e'.world.stops ∧
      (∀ st ∈ pre, isTrap st.status = false) ∧ isTrap stop.status = true ∧ wpid = stop.pid ∧
      e'.world.execs = e.world.execs ++ pre.map fun st => ⟨st.pid, false, t.mem⟩ := by
  obtain ⟨pre, stop, hs, hpre, htrap, hpid, -, hx⟩ := waitLoop_trap h
  exact ⟨pre, stop, hs, hpre, htrap, hpid, hx t ht⟩

/-- A clone event's `SIGTRAP` from task `1`, then a breakpoint trap of
task `2`: `waitForTrap(-1)` continues the first and returns the second. -/
theorem waitForTrap_skips_clone_event :
    let t : Tracee := ⟨demoExe.image, fun _ => default, []⟩
    let e : Engine := ⟨Server.new, { World.start [.ok ⟨1, .stopped 5 3, ⟨0x1000, 0x7ff0⟩⟩,
      .ok ⟨2, .stopped 5 0, ⟨0x2001, 0x7fe0⟩⟩] with tracee := some t }⟩
    let e' := stateOf (waitForTrap (-1) e)
    waitForTrap (-1) e = .ok (2, none) e' ∧ e.world.tracee = some t ∧
    ∃ (pre : List Stop) (stop : Stop), e.world.stops = pre.map .ok ++ .ok stop :: e'.world.stops ∧
      (∀ st ∈ pre, isTrap st.status = false) ∧ isTrap stop.status = true ∧ 2 = stop.pid ∧
      e'.world.execs = e.world.execs ++ pre.map fun st => ⟨st.pid, false, t.mem⟩ := by
  intro t e e'
  have h : waitForTrap (-1) e = .ok (2, none) e' := rfl
  exact ⟨h, rfl, waitForTrap_first_trap h rfl⟩

/-- **Running to the next trap**: the task of the real trap that ended the
wait is now the stopped task, and holds the registers of that stop. -/
theorem runToTrap_ok {e e' : Engine} {u : Unit} (h : runToTrap e = .ok u e') :
    ∃ pre stop, e.world.stops = pre ++ .ok stop :: e'.world.stops ∧ isTrap stop.status = true ∧
      e'.srv.stoppedPid = stop.pid ∧ ∀ t, e'.world.tracee = some t → t.regs stop.pid = stop.regs := by
  simp only [runToTrap, getSrv_bind] at h
  obtain ⟨r, e₁, hc, h⟩ := bind_eq_ok.mp h
  rcases r with err | v
  · cases h
  · simp only [check_ok, pure_bind] at h
    obtain ⟨⟨wpid, err⟩, e₂, hw, h⟩ := bind_eq_ok.mp h
    cases err with
    | some err => cases h
    | none =>
      cases h
      obtain ⟨pre, stop, hs, -, htrap, rfl, hregs, -⟩ := waitLoop_trap hw
      exact ⟨pre.map .ok, stop, by rw [← traceCall_stops hc, hs], htrap, rfl, hregs⟩

/-- **Rewinding**: the stopped task's registers were read, its pc moved
back by `BreakpointSize` (modulo `2^64`), written back and reported. -/
theorem rewind_ok {exe : Exe} {e e' : Engine} {st : Status} (h : rewind exe e = .ok st e') :
    ∃ t, e.world.tracee = some t ∧
      st = ⟨(t.regs e.srv.stoppedPid).rip - BitVec.ofNat 64 exe.arch.breakpointSize,
        (t.regs e.srv.stoppedPid).rsp⟩ ∧
      e'.srv = { e.srv with stoppedRegs := ⟨st.pc, st.sp⟩ } ∧ e'.world.stops = e.world.stops ∧
      ∃ t', e'.world.tracee = some t' ∧ t'.regs e.srv.stoppedPid = ⟨st.pc, st.sp⟩ := by
  simp only [rewind, getSrv_bind] at h
  obtain ⟨r, e₁, hg, h⟩ := bind_eq_ok.mp h
  rcases r with err | regs
  · cases h
  obtain ⟨t, ht, rfl, hs₁, ht₁, -⟩ := traceCall_ok hg
  simp only [check_ok, pure_bind, modifySrv_bind, getSrv_bind] at h
  obtain ⟨r, e₂, hp, h⟩ := bind_eq_ok.mp h
  rcases r with err | v
  · cases h
  obtain ⟨t₂, ht₂, -, hs₂, ht₂', -⟩ := traceCall_ok hp
  simp only [check_ok, pure_bind] at h
  cases h
  rw [ht₁] at ht₂
  cases ht₂
  refine ⟨t, ht, rfl, by rw [hs₂, hs₁], by rw [traceCall_stops hp, traceCall_stops hg], _, ht₂', ?_⟩
  rw [hs₁]
  exact Function.update_same _ _ _

/-- A successful `Resume` consumed the kernel's reports up to a real trap,
whose task is now the stopped one; it reports that trap's registers with
the pc moved back by `BreakpointSize`, and writes them back. -/
theorem resume_ok_trap {exe : Exe} {e e' : Engine} {st : Status} (h : resume exe e = .ok st e') :
    ∃ pre stop, e.world.stops = pre ++ .ok stop :: e'.world.stops ∧ isTrap stop.status = true ∧
      e'.srv.stoppedPid = stop.pid ∧
      st = ⟨stop.regs.rip - BitVec.ofNat 64 exe.arch.breakpointSize, stop.regs.rsp⟩ ∧
      e'.srv.stoppedRegs = ⟨st.pc, st.sp⟩ ∧
      (∃ t, e'.world.tracee = some t ∧ t.regs stop.pid = ⟨st.pc, st.sp⟩) := by
  obtain ⟨e₁, e₂, e₃, e₄, h₁, h₂, h₃, h₄, h₅⟩ := resume_phases h
  have hq₁ : Quiet e e₁ := by simpa [h₁] using resumeStart_quiet e
  obtain ⟨A, hA⟩ := hq₁.stops
  obtain ⟨-, -, -, -, hst₂, -⟩ := pokeBreakpoints_ok h₂
  obtain ⟨pre, stop, hst₃, htrap, hpid, hregs⟩ := runToTrap_ok h₃
  obtain ⟨_, -, hs₄, -, hst₄, ht₄⟩ := pokeBreakpoints_ok h₄
  obtain ⟨t, ht, rfl, hs₅, hst₅, t', ht', hregs'⟩ := rewind_ok h₅
  have hpid₄ : e₄.srv.stoppedPid = stop.pid := by rw [hs₄, hpid]
  have hregs₄ : t.regs stop.pid = stop.regs := by
    rw [ht₄] at ht
    obtain ⟨t₃, ht₃, rfl⟩ := Option.map_eq_some'.mp ht
    exact hregs t₃ ht₃
  rw [hpid₄, hregs₄] at hregs' hs₅ ⊢
  refine ⟨A ++ pre, stop, ?_, htrap, by rw [hs₅, hpid₄], rfl, congrArg Server.stoppedRegs hs₅,
    ⟨t', ht', hregs'⟩⟩
  rw [← hA, ← hst₂, hst₃, ← hst₄, ← hst₅, List.append_assoc]

/-- **What a successful `Resume` reports.** The pc it writes back and
returns is the `Rip` the trap that ended the run left its task with, less
`BreakpointSize` (modulo `2^64`), whatever raised that trap. Only when the
trap came from a breakpoint instruction at `pc`, which leaves `Rip` at
`pc + BreakpointSize`, is it `pc`. -/
theorem resume_pc_of_trap {exe : Exe} {e e' : Engine} {st : Status} (h : resume exe e = .ok st e') :
    ∃ pre stop, e.world.stops = pre ++ .ok stop :: e'.world.stops ∧ isTrap stop.status = true ∧
      e'.srv.stoppedPid = stop.pid ∧
      st = ⟨stop.regs.rip - BitVec.ofNat 64 exe.arch.breakpointSize, stop.regs.rsp⟩ ∧
      e'.srv.stoppedRegs = ⟨st.pc, st.sp⟩ ∧
      (∃ t, e'.world.tracee = some t ∧ t.regs stop.pid = ⟨st.pc, st.sp⟩) ∧
      ∀ pc, stop.regs.rip = pc + BitVec.ofNat 64 exe.arch.breakpointSize → st.pc = pc := by
  obtain ⟨pre, stop, hs, htrap, hpid, hst, hregs, ht⟩ := resume_ok_trap h
  exact ⟨pre, stop, hs, htrap, hpid, hst, hregs, ht, fun pc hpc => by rw [hst, hpc, BitVec.add_sub_cancel]⟩

theorem resume_pc_of_trap_at_breakpoint :
    let e := stateOf (breakpoint demoExe "sym:main.foo" (stateOf (run demoExe ⟨Server.new,
      World.start [.ok ⟨1, .stopped 5 0, ⟨0x400, 0x7ff0⟩⟩, .ok ⟨1, .stopped 5 0, ⟨0x1001, 0x7ff0⟩⟩]⟩)))
    let e' := stateOf (resume demoExe e)
    let st : Status := ⟨0x1000, 0x7ff0⟩
    resume demoExe e = .ok st e' ∧
    ∃ pre stop, e.world.stops = pre ++ .ok stop :: e'.world.stops ∧ isTrap stop.status = true ∧
      e'.srv.stoppedPid = stop.pid ∧
      st = ⟨stop.regs.rip - BitVec.ofNat 64 demoExe.arch.breakpointSize, stop.regs.rsp⟩ ∧
      e'.srv.stoppedRegs = ⟨st.pc, st.sp⟩ ∧
      (∃ t, e'.world.tracee = some t ∧ t.regs stop.pid = ⟨st.pc, st.sp⟩) ∧
      ∀ pc, stop.regs.rip = pc + BitVec.ofNat 64 demoExe.arch.breakpointSize → st.pc = pc :=
  ⟨rfl, resume_pc_of_trap rfl⟩

/-- A trap no breakpoint caused: after `Run`, the first `Resume` runs with
an empty table and the debuggee raises `SIGTRAP` itself with its pc at
`0x1000`; `Resume` still moves the pc back, to `0xfff`. -/
theorem resume_rewinds_unplanted_trap :
    let e := stateOf (run demoExe ⟨Server.new,
      World.start [.ok ⟨1, .stopped 5 0, ⟨0x400, 0x7ff0⟩⟩, .ok ⟨1, .stopped 5 0, ⟨0x1000, 0x7ff0⟩⟩]⟩)
    e.srv.breakpoints.keys = [] ∧ resume demoExe e = .ok ⟨0xfff, 0x7ff0⟩ (stateOf (resume demoExe e)) :=
  ⟨rfl, rfl⟩

/-- The code after a poke loop that got through, as a map on the code. -/
theorem code_of_pokes {e e' : Engine} (f : (Nat → UInt8) → Nat → UInt8)
    (h : e'.world.tracee = e.world.tracee.map fun t => { t with mem := f t.mem }) :
    e'.world.tracee.map Tracee.mem = (e.world.tracee.map Tracee.mem).map f := by
  rw [h]
  cases e.world.tracee <;> rfl

/-- **The code after a successful `Resume`**: the install loop's pokes, then
the lift loop's, each over the table's entries in some order; nothing else
wrote to it. -/
theorem resume_code {exe : Exe} {e e' : Engine} {st : Status} (h : resume exe e = .ok st e') :
    ∃ l₁ l₂, l₁.Perm e.srv.breakpoints.entries ∧ l₂.Perm e.srv.breakpoints.entries ∧
      e'.world.tracee.map Tracee.mem = (e.world.tracee.map Tracee.mem).map fun m =>
        writeAll (writeAll m (fun _ => trapBytes exe) l₁)
          (fun bp => bp.origInstr.take exe.arch.breakpointSize) l₂ := by
  obtain ⟨e₁, e₂, e₃, e₄, h₁, h₂, h₃, h₄, h₅⟩ := resume_phases h
  have hq₁ : Quiet e e₁ := by simpa [h₁] using resumeStart_quiet e
  have hq₃ : Quiet e₂ e₃ := by simpa [h₃] using runToTrap_quiet e₂
  have hq₅ : Quiet e₄ e' := by simpa [h₅] using rewind_quiet exe e₄
  obtain ⟨l₁, hp₁, hs₂, -, -, ht₂⟩ := pokeBreakpoints_ok h₂
  obtain ⟨l₂, hp₂, -, -, -, ht₄⟩ := pokeBreakpoints_ok h₄
  rw [hq₁.breakpoints] at hp₁
  rw [hq₃.breakpoints, hs₂, hq₁.breakpoints] at hp₂
  refine ⟨l₁, l₂, hp₁, hp₂, ?_⟩
  rw [hq₅.code, code_of_pokes (writeAll · _ l₂) ht₄, hq₃.code, code_of_pokes (writeAll · _ l₁) ht₂,
    hq₁.code, Option.map_map]
  rfl

/-! ## A one-task debuggee

A task the server lets run runs until the kernel reports it, and the
install and lift loops poke while every such task still runs. Of a
debuggee that is one task, the server lets run only the stopped task and
waits for its report before it pokes again: then no task runs while the
loops poke. -/

/-- Every stop among the kernel's reports `rs` is of task `p`. -/
def ReportsOf (p : Int) (rs : List (Except String Stop)) : Prop :=
  ∀ st ∈ rs.filterMap Except.toOption, st.pid = p

/-- The debuggee is one task, stopped: no task runs, and every stop the
kernel has yet to report is of the stopped task. -/
def Solo (e : Engine) : Prop :=
  Idle e ∧ ReportsOf e.srv.stoppedPid e.world.stops

instance (e : Engine) : Decidable (Solo e) :=
  inferInstanceAs (Decidable (Idle e ∧ ∀ st ∈ e.world.stops.filterMap Except.toOption,
    st.pid = e.srv.stoppedPid))

theorem ReportsOf.tail {p : Int} {r : Except String Stop} {rs : List (Except String Stop)}
    (h : ReportsOf p (r :: rs)) : ReportsOf p rs := fun st hst =>
  h st (by cases r <;> simp_all [List.filterMap_cons, Except.toOption])

theorem ReportsOf.head {p : Int} {st : Stop} {rs : List (Except String Stop)}
    (h : ReportsOf p (.ok st :: rs)) : st.pid = p :=
  h st (by simp [List.filterMap_cons, Except.toOption])

/-- Of a one-task debuggee whose stopped task may be running, a `wait` loop
continues only that task, and a loop that ends on a trap leaves it
stopped with no task running. -/
theorem waitLoop_solo {pid : Int} :
    ∀ {fuel : Nat} {e e' : Engine} {wpid : Int},
      (∀ t ∈ e.world.tracee, ∀ q ∈ t.running, q = e.srv.stoppedPid) →
      ReportsOf e.srv.stoppedPid e.world.stops →
      waitLoop pid fuel e = .ok (wpid, none) e' → Solo e' ∧ e'.srv = e.srv ∧ wpid = e.srv.stoppedPid
  | 0, _, _, _, _, _, h => by cases h
  | fuel + 1, e, e', wpid, hrun, hrep, h => by
    simp only [waitLoop] at h
    obtain ⟨r, e₁, hw, h⟩ := bind_eq_ok.mp h
    obtain ⟨hs, hsrv, -, ht⟩ := wait_ok hw
    rw [hs] at hrep
    rcases r with err | st
    · cases h
    · dsimp only at h ht
      have hst := hrep.head
      have hidle : Idle e₁ := fun t₁ h₁ => by
        rw [ht] at h₁
        obtain ⟨t, ht₀, rfl⟩ := Option.mem_map.mp h₁
        exact List.filter_eq_nil_iff.mpr fun q hq => by simp [hrun t ht₀ q hq, hst]
      have hrep₁ : ReportsOf e₁.srv.stoppedPid e₁.world.stops := hsrv ▸ hrep.tail
      split at h
      · cases h
        exact ⟨⟨hidle, hrep₁⟩, hsrv, hst⟩
      · obtain ⟨r, e₂, hc, h⟩ := bind_eq_ok.mp h
        rcases r with err | u
        · cases h
        · obtain ⟨t₁, ht₁, -, hs₂, ht₂, -⟩ := traceCall_ok hc
          have hrun₂ : ∀ t ∈ e₂.world.tracee, ∀ q ∈ t.running, q = e₂.srv.stoppedPid := fun t h' q hq => by
            rw [ht₂, Option.mem_some_iff] at h'
            subst h'
            simp only [hidle t₁ ht₁, List.mem_singleton] at hq
            rw [hq, hs₂, hsrv, hst]
          have hrep₂ : ReportsOf e₂.srv.stoppedPid e₂.world.stops := by
            rw [traceCall_stops hc, hs₂]
            exact hrep₁
          obtain ⟨hsolo, hsrv', rfl⟩ := waitLoop_solo hrun₂ hrep₂ h
          exact ⟨hsolo, by rw [hsrv', hs₂, hsrv], by rw [hs₂, hsrv]⟩

/-- Letting the stopped task of a one-task debuggee run and waiting for a
trap leaves it stopped again, with no task running. -/
theorem waitForTrap_solo_of_run {e e₁ e₂ : Engine} {xs : Tracee → List Exec} {pid wpid : Int} {a : Unit}
    (hsolo : Solo e)
    (hc : traceCall (fun t => ((), { t with running := e.srv.stoppedPid :: t.running }, xs t)) e = .ok (.ok a) e₁)
    (hw : waitForTrap pid e₁ = .ok (wpid, none) e₂) : Solo e₂ ∧ e₂.srv = e.srv ∧ wpid = e.srv.stoppedPid := by
  obtain ⟨t, ht, -, hs₁, ht₁, -⟩ := traceCall_ok hc
  have hrun : ∀ t ∈ e₁.world.tracee, ∀ q ∈ t.running, q = e₁.srv.stoppedPid := fun t' h' q hq => by
    rw [ht₁, Option.mem_some_iff] at h'
    subst h'
    simp only [hsolo.1 t ht, List.mem_singleton] at hq
    rw [hq, hs₁]
  have hrep : ReportsOf e₁.srv.stoppedPid e₁.world.stops := by
    rw [traceCall_stops hc, hs₁]
    exact hsolo.2
  rw [← hs₁]
  exact waitLoop_solo hrun hrep hw

/-- A trace call that lets no task run keeps a one-task debuggee so. -/
theorem traceCall_solo {α : Type} {act : Tracee → α × Tracee × List Exec}
    (hact : ∀ t, (act t).2.1.running = t.running) {e e' : Engine} {r : Except String α}
    (hsolo : Solo e) (h : traceCall act e = .ok r e') : Solo e' := by
  rw [Solo, traceCall_stops h]
  cases r with
  | error err =>
    obtain ⟨hs, ht, -⟩ := traceCall_error h
    exact ⟨fun t h' => hsolo.1 t (ht ▸ h'), hs ▸ hsolo.2⟩
  | ok a =>
    obtain ⟨t, ht, -, hs, ht', -⟩ := traceCall_ok h
    refine ⟨fun t' h' => ?_, hs ▸ hsolo.2⟩
    rw [ht', Option.mem_some_iff] at h'
    rw [← h', hact, hsolo.1 t ht]

theorem stepOver_solo {e e' : Engine} {u : Unit} (hsolo : Solo e) (h : stepOver e = .ok u e') : Solo e' := by
  simp only [stepOver, getSrv_bind] at h
  obtain ⟨r, e₁, hc, h⟩ := bind_eq_ok.mp h
  rcases r with err | v
  · cases h
  simp only [check_ok, pure_bind] at h
  obtain ⟨⟨w, err⟩, e₂, hw, h⟩ := bind_eq_ok.mp h
  cases err with
  | some err => cases h
  | none =>
    cases h
    exact (waitForTrap_solo_of_run hsolo hc hw).1

theorem awaitExec_solo {e e' : Engine} {u : Unit} (hsolo : Solo e) (h : awaitExec e = .ok u e') :
    Solo e' := by
  simp only [awaitExec, modifySrv_bind, getSrv_bind] at h
  obtain ⟨⟨w, err⟩, e₁, hw, h⟩ := bind_eq_ok.mp h
  cases err with
  | some err => cases h
  | none =>
    simp only [pure_bind] at h
    obtain ⟨r, e₂, hc, h⟩ := bind_eq_ok.mp h
    rcases r with err | v
    · cases h
    · cases h
      have hsolo₁ := (waitLoop_solo (e := ⟨{ e.srv with procIsUp := true }, e.world⟩)
        (fun t ht q hq => absurd (hsolo.1 t ht ▸ hq) (List.not_mem_nil q)) hsolo.2 hw).1
      exact traceCall_solo (fun _ => rfl) hsolo₁ hc

/-- From a one-task debuggee, the start of `Resume`, when it returns,
leaves it one task, stopped. -/
theorem resumeStart_solo {e e' : Engine} {u : Unit} (hsolo : Solo e) (h : resumeStart e = .ok u e') :
    Solo e' := by
  simp only [resumeStart, getSrv_bind] at h
  split at h
  · simp only [fail_bind] at h
    cases h
  · simp only [pure_bind] at h
    split at h
    · exact awaitExec_solo hsolo h
    · split at h
      · exact stepOver_solo hsolo h
      · cases h
        exact hsolo

/-- Running a one-task debuggee to its next trap, when it returns, leaves it
one task, stopped, with the server record as it was. -/
theorem runToTrap_solo {e e' : Engine} {u : Unit} (hsolo : Solo e) (h : runToTrap e = .ok u e') :
    Solo e' ∧ e'.srv = e.srv := by
  simp only [runToTrap, getSrv_bind] at h
  obtain ⟨r, e₁, hc, h⟩ := bind_eq_ok.mp h
  rcases r with err | v
  · cases h
  simp only [check_ok, pure_bind] at h
  obtain ⟨⟨w, err⟩, e₂, hw, h⟩ := bind_eq_ok.mp h
  cases err with
  | some err => cases h
  | none =>
    cases h
    obtain ⟨hsolo₂, hs₂, rfl⟩ := waitForTrap_solo_of_run hsolo hc hw
    obtain ⟨srv₂, world₂⟩ := e₂
    dsimp only at hs₂
    subst hs₂
    exact ⟨hsolo₂, rfl⟩

/-- The install and lift loops, when they get through, keep a one-task
debuggee so. -/
theorem pokeBreakpoints_solo {tag : String} {bytes : Breakpoint → List UInt8} {e e' : Engine} {u : Unit}
    (hsolo : Solo e) (h : pokeBreakpoints tag bytes e = .ok u e') : Solo e' := by
  obtain ⟨l, -, hs, -, hst, ht⟩ := pokeBreakpoints_ok h
  refine ⟨fun t' h' => ?_, by rw [hs, hst]; exact hsolo.2⟩
  rw [ht] at h'
  obtain ⟨t, ht₀, rfl⟩ := Option.mem_map.mp h'
  exact hsolo.1 t ht₀

/-- Rewinding lets no task run, so it keeps a one-task debuggee so,
however it ends. -/
theorem rewind_solo (exe : Exe) : Keeps (fun e e' => Solo e → Solo e') (rewind exe) :=
  have c : ∀ {α : Type} (act : Tracee → α × Tracee × List Exec), (∀ t, (act t).2.1.running = t.running) →
      Keeps (fun e e' => Solo e → Solo e') (traceCall act) := fun act hact e hsolo => by
    obtain ⟨r, e', h⟩ := traceCall_answers act e
    rw [h, stateOf_ok]
    exact traceCall_solo hact hsolo h
  rewind_keeps_of (R := fun e e' => Solo e → Solo e') (fun _ => id) (fun _ _ _ h₁ h₂ => h₂ ∘ h₁) (fun _ _ => id) (fun _ => c _ fun _ => rfl)
    (fun _ _ => c _ fun _ => rfl) exe

/-! ## Stepping over a breakpoint -/

/-- `Resume`, once its start returned. -/
theorem resume_eq_of_start {exe : Exe} {e e₁ : Engine} {u : Unit} (h : resumeStart e = .ok u e₁) :
    resume exe e = (setBreakpoints exe >>= fun _ => runToTrap >>= fun _ =>
      liftBreakpoints exe >>= fun _ => rewind exe) e₁ :=
  bind_ok h

/-- **From the install loop on, a one-task debuggee runs only armed.**
Whatever the rest of a `Resume` lets the debuggee run, however it ends,
runs against the code of its start with the breakpoint instruction poked
at every entry of the table, in the order the install loop took. -/
theorem resume_from_start_armed (exe : Exe) {e₁ : Engine} (hsolo : Solo e₁) :
    ∃ l conts, l.Perm e₁.srv.breakpoints.entries ∧
      (stateOf ((setBreakpoints exe >>= fun _ => runToTrap >>= fun _ =>
        liftBreakpoints exe >>= fun _ => rewind exe) e₁)).world.execs = e₁.world.execs ++ conts ∧
      ∀ x ∈ conts,
        (e₁.world.tracee.map Tracee.mem).map (writeAll · (fun _ => trapBytes exe) l) = some x.mem := by
  cases hset : setBreakpoints exe e₁ with
  | error err e₂ =>
    have hstill : Still e₁ (stateOf (setBreakpoints exe e₁)) := (pokeBreakpoints_calm _ _ e₁ hsolo.1).2
    rw [hset, stateOf_error] at hstill
    exact ⟨_, [], List.Perm.refl _, by rw [bind_error hset, stateOf_error, hstill, List.append_nil],
      fun _ h => absurd h (List.not_mem_nil _)⟩
  | ok u e₂ =>
    obtain ⟨l, hperm, -, hx₂, -, ht₂⟩ := pokeBreakpoints_ok hset
    have hsolo₂ : Solo e₂ := pokeBreakpoints_solo hsolo hset
    have hran : RanOn e₂ (stateOf ((runToTrap >>= fun _ =>
        liftBreakpoints exe >>= fun _ => rewind exe) e₂)) := by
      have hq := runToTrap_quiet e₂
      cases hrun : runToTrap e₂ with
      | error err e₃ => rw [bind_error hrun]; rw [hrun] at hq; exact hq.runs
      | ok v e₃ =>
        rw [bind_ok hrun]
        rw [hrun] at hq
        have hcalm : Calm e₃ (stateOf ((liftBreakpoints exe >>= fun _ => rewind exe) e₃)) :=
          Keeps.bind Calm.trans (pokeBreakpoints_calm _ _) (fun _ => rewind_calm exe) e₃
        exact hq.runs.still (hcalm (runToTrap_solo hsolo₂ hrun).1.1).2
    obtain ⟨conts, hxf, hn⟩ := hran
    refine ⟨l, conts, hperm, by rw [bind_ok hset, hxf, hx₂ hsolo.1], fun x hx => ?_⟩
    rw [← hn x hx, ht₂, Option.map_map, Option.map_map]
    rfl

/-- **Stepping over a breakpoint of a one-task debuggee, when the kernel
reports the step's trap first.** A `Resume` that finds the stopped task on
a breakpoint lets the debuggee run one instruction of that task against
the code as it is; everything it lets the debuggee run after that, however
the `Resume` ends, runs against that code with the breakpoint instruction
poked at every entry of the table, in the order the install loop took, so
that with a separated table every breakpoint is armed. -/
theorem resume_steps_once_then_armed {exe : Exe} {e : Engine} {p : Int} {t : Tracee} {stop : Stop}
    {rest : List (Except String Stop)} (hproc : e.srv.proc = some p) (hup : e.srv.procIsUp = true)
    (hat : e.srv.stoppedRegs.rip ∈ e.srv.breakpoints) (ht : e.world.tracee = some t) (hsolo : Solo e)
    (hacks : e.world.acks = []) (hstops : e.world.stops = .ok stop :: rest)
    (htrap : isTrap stop.status = true) :
    ∃ l conts, l.Perm e.srv.breakpoints.entries ∧
      (stateOf (resume exe e)).world.execs = e.world.execs ++ ⟨e.srv.stoppedPid, true, t.mem⟩ :: conts ∧
      (∀ x ∈ conts, x.mem = writeAll t.mem (fun _ => trapBytes exe) l) ∧
      (Separated exe e.srv.breakpoints → ∀ x ∈ conts, ∀ pc ∈ e.srv.breakpoints,
        readMem x.mem pc.toNat exe.arch.breakpointSize = trapBytes exe) := by
  obtain ⟨e₁, hstep, hsrv, hx₁, hc₁⟩ := stepOver_trap ht hacks hstops htrap
  have hstart : resumeStart e = .ok () e₁ := by simpa [resumeStart, hproc, hup, hat] using hstep
  obtain ⟨l, conts, hperm, hx, harmed⟩ := resume_from_start_armed exe (stepOver_solo hsolo hstep)
  rw [hsrv] at hperm
  have hmem : ∀ x ∈ conts, x.mem = writeAll t.mem (fun _ => trapBytes exe) l := fun x hx => by
    simpa [hc₁, eq_comm] using harmed x hx
  refine ⟨l, conts, hperm, ?_, hmem, fun hsep x hx pc hpc => ?_⟩
  · rw [resume_eq_of_start hstart, hx, hx₁, List.append_assoc]
    rfl
  · rw [hmem x hx]
    exact readMem_writeAll_trapBytes hsep hperm _ hpc

/-- A task stopped on the breakpoint at `0x1000`, whose kernel answers
every call and reports the single step's trap, then the next one. -/
def steppedEngine : Engine :=
  ⟨{ Server.new with
      proc := some 1, procIsUp := true, stoppedPid := 1, stoppedRegs := ⟨0x1000, 0x7ff0⟩,
      breakpoints := (∅ : BreakpointTable).insert 0x1000 ⟨0x1000, [0x90, 0, 0, 0]⟩ },
    { World.start [.ok ⟨1, .stopped 5 0, ⟨0x1001, 0x7ff0⟩⟩, .ok ⟨1, .stopped 5 0, ⟨0x2001, 0x7ff0⟩⟩] with
      tracee := some ⟨fun _ => 0x90, fun _ => ⟨0x1000, 0x7ff0⟩, []⟩ }⟩

theorem resume_steps_once_then_armed_main_foo :
    let e := steppedEngine
    let t : Tracee := ⟨fun _ => 0x90, fun _ => ⟨0x1000, 0x7ff0⟩, []⟩
    e.srv.proc = some 1 ∧ e.srv.procIsUp = true ∧ e.srv.stoppedRegs.rip ∈ e.srv.breakpoints ∧
    e.world.tracee = some t ∧ Solo e ∧ e.world.acks = [] ∧
    e.world.stops = [.ok ⟨1, .stopped 5 0, ⟨0x1001, 0x7ff0⟩⟩, .ok ⟨1, .stopped 5 0, ⟨0x2001, 0x7ff0⟩⟩] ∧
    isTrap (WaitStatus.stopped 5 0) = true ∧
    ∃ l conts, l.Perm e.srv.breakpoints.entries ∧
      (stateOf (resume demoExe e)).world.execs = e.world.execs ++ ⟨e.srv.stoppedPid, true, t.mem⟩ :: conts ∧
      (∀ x ∈ conts, x.mem = writeAll t.mem (fun _ => trapBytes demoExe) l) ∧
      (Separated demoExe e.srv.breakpoints → ∀ x ∈ conts, ∀ pc ∈ e.srv.breakpoints,
        readMem x.mem pc.toNat demoExe.arch.breakpointSize = trapBytes demoExe) :=
  ⟨rfl, rfl, by decide, rfl, by decide, rfl, rfl, rfl,
    resume_steps_once_then_armed rfl rfl (by decide) rfl (by decide) rfl rfl rfl⟩

/-! ## `Resume` returns

With a kernel that answers every trace call, `Resume` returns as soon as
the kernel reports the real traps it waits for, whatever other stops come
first: the one its start waits for (the exec, or the single step over a
breakpoint) and the one that ends the run. -/

/-- The kernel's next reports: stops that are not real traps, then a real
trap, then `rest`. -/
def TrapAfter (stops rest : List (Except String Stop)) : Prop :=
  ∃ (ns : List Stop) (stop : Stop), stops = ns.map .ok ++ .ok stop :: rest ∧
    (∀ s ∈ ns, isTrap s.status = false) ∧ isTrap stop.status = true

/-- The kernel's next reports: stops that are not real traps, then the
real trap `stop`, then `rest`. -/
def TrapAt (stops : List (Except String Stop)) (stop : Stop) (rest : List (Except String Stop)) : Prop :=
  ∃ ns : List Stop, stops = ns.map .ok ++ .ok stop :: rest ∧ (∀ s ∈ ns, isTrap s.status = false) ∧
    isTrap stop.status = true

theorem TrapAt.trapAfter {stops rest : List (Except String Stop)} {stop : Stop}
    (h : TrapAt stops stop rest) : TrapAfter stops rest :=
  let ⟨ns, hs, hns, htrap⟩ := h
  ⟨ns, stop, hs, hns, htrap⟩

theorem waitLoop_reaches {pid : Int} {stop : Stop} {rest : List (Except String Stop)}
    (htrap : isTrap stop.status = true) :
    ∀ (ns : List Stop) {fuel : Nat} {e : Engine}, (∀ s ∈ ns, isTrap s.status = false) →
      e.world.stops = ns.map .ok ++ .ok stop :: rest → Answers e → ns.length < fuel →
      ∃ e', waitLoop pid fuel e = .ok (stop.pid, none) e' ∧ Answers e' ∧ e'.world.stops = rest
  | _, 0, _, _, _, _, hlt => absurd hlt (Nat.not_lt_zero _)
  | [], _ + 1, _, _, hstops, ⟨ht, hacks⟩, _ =>
    ⟨_, waitLoop_trap_first hstops htrap, ⟨by simpa using ht, hacks⟩, rfl⟩
  | s :: ns, _ + 1, _, hns, hstops, ⟨ht, hacks⟩, hlt => by
    obtain ⟨t, ht⟩ := Option.isSome_iff_exists.mp ht
    rw [waitLoop_cont ht hacks hstops (hns s (.head _))]
    exact waitLoop_reaches htrap ns (fun s' hs' => hns s' (.tail _ hs')) rfl ⟨rfl, rfl⟩
      (Nat.lt_of_succ_lt_succ hlt)

theorem waitForTrap_reaches {pid : Int} {e : Engine} {rest : List (Except String Stop)}
    (h : TrapAfter e.world.stops rest) (ha : Answers e) :
    ∃ w e', waitForTrap pid e = .ok (w, none) e' ∧ Answers e' ∧ e'.world.stops = rest := by
  obtain ⟨ns, stop, hstops, hns, htrap⟩ := h
  have hlen : ns.length < e.world.stops.length := by rw [hstops]; simp
  exact ⟨_, waitLoop_reaches htrap ns hns hstops ha hlen⟩

theorem awaitExec_answers {e : Engine} {mid : List (Except String Stop)} (ha : Answers e)
    (h : TrapAfter e.world.stops mid) :
    ∃ e', awaitExec e = .ok () e' ∧ Answers e' ∧ e'.world.stops = mid := by
  obtain ⟨w, e₁, h₁, ha₁, hs₁⟩ :=
    @waitForTrap_reaches e.srv.stoppedPid ⟨{ e.srv with procIsUp := true }, e.world⟩ _ h ha
  obtain ⟨_, e₂, h₂, ha₂, hs₂⟩ : ∃ a e₂, ptraceSetOptions e.srv.stoppedPid e₁ = .ok (.ok a) e₂ ∧
      Answers e₂ ∧ e₂.world.stops = e₁.world.stops := traceCall_of_answers _ ha₁
  refine ⟨e₂, ?_, ha₂, hs₂.trans hs₁⟩
  simp only [awaitExec, modifySrv_bind, getSrv_bind]
  rw [bind_ok h₁]
  simp only [pure_bind]
  rw [bind_ok h₂]
  rfl

theorem stepOver_answers {e : Engine} {mid : List (Except String Stop)} (ha : Answers e)
    (h : TrapAfter e.world.stops mid) :
    ∃ e', stepOver e = .ok () e' ∧ Answers e' ∧ e'.world.stops = mid := by
  obtain ⟨_, e₁, h₁, ha₁, hs₁⟩ : ∃ a e₁, ptraceSingleStep e.srv.stoppedPid e = .ok (.ok a) e₁ ∧
      Answers e₁ ∧ e₁.world.stops = e.world.stops := traceCall_of_answers _ ha
  obtain ⟨w, e₂, h₂, ha₂, hs₂⟩ := @waitForTrap_reaches e.srv.stoppedPid e₁ _ (hs₁ ▸ h) ha₁
  refine ⟨e₂, ?_, ha₂, hs₂⟩
  simp only [stepOver, getSrv_bind]
  rw [bind_ok h₁]
  simp only [check_ok, pure_bind]
  rw [bind_ok h₂]
  rfl

/-- The start of `Resume` returns, having consumed the reports up to a real
trap when it waited for one. -/
theorem resumeStart_answers {e : Engine} {p : Int} {mid : List (Except String Stop)}
    (hproc : e.srv.proc = some p) (ha : Answers e) (h : TrapAfter e.world.stops mid) :
    ∃ e', resumeStart e = .ok () e' ∧ Answers e' ∧
      (e'.world.stops = mid ∨ e.srv.procIsUp = true ∧ e'.world.stops = e.world.stops) := by
  by_cases hup : e.srv.procIsUp = true
  · by_cases hat : e.srv.stoppedRegs.rip ∈ e.srv.breakpoints
    · obtain ⟨e', h', ha', hs'⟩ := stepOver_answers ha h
      exact ⟨e', by simpa [resumeStart, hproc, hup, hat] using h', ha', .inl hs'⟩
    · exact ⟨e, by simp [resumeStart, hproc, hup, hat], ha, .inr ⟨hup, rfl⟩⟩
  · obtain ⟨e', h', ha', hs'⟩ := awaitExec_answers ha h
    exact ⟨e', by simpa [resumeStart, hproc, hup] using h', ha', .inl hs'⟩

theorem runToTrap_answers {e : Engine} {rest : List (Except String Stop)} (ha : Answers e)
    (h : TrapAfter e.world.stops rest) :
    ∃ e', runToTrap e = .ok () e' ∧ Answers e' ∧ e'.world.stops = rest := by
  obtain ⟨_, e₁, h₁, ha₁, hs₁⟩ : ∃ a e₁, ptraceCont e.srv.stoppedPid e = .ok (.ok a) e₁ ∧
      Answers e₁ ∧ e₁.world.stops = e.world.stops := traceCall_of_answers _ ha
  obtain ⟨w, e₂, h₂, ha₂, hs₂⟩ := @waitForTrap_reaches (-1) e₁ _ (hs₁ ▸ h) ha₁
  refine ⟨{ e₂ with srv := { e₂.srv with stoppedPid := w } }, ?_, ha₂, hs₂⟩
  simp only [runToTrap, getSrv_bind]
  rw [bind_ok h₁]
  simp only [check_ok, pure_bind]
  rw [bind_ok h₂]
  rfl

theorem rewind_answers (exe : Exe) {e : Engine} (ha : Answers e) : ∃ st e', rewind exe e = .ok st e' := by
  obtain ⟨srv, ⟨tracee, nextPid, acks, stops, shuffles, disk, execs, mapLimit⟩⟩ := e
  obtain ⟨ht, hacks⟩ := ha
  obtain ⟨t, rfl⟩ := Option.isSome_iff_exists.mp ht
  dsimp only at hacks
  subst hacks
  exact ⟨_, _, rfl⟩

/-- `Resume` returns when the kernel answers and reports its two real
traps; when it had to wait for the exec, it has consumed the reports up to
the second. -/
theorem resume_answers {exe : Exe} {e : Engine} {p : Int} {mid rest : List (Except String Stop)}
    (hproc : e.srv.proc = some p) (ha : Answers e) (h₁ : TrapAfter e.world.stops mid)
    (h₂ : TrapAfter mid rest) :
    ∃ st e', resume exe e = .ok st e' ∧ (e.srv.procIsUp = false → e'.world.stops = rest) := by
  obtain ⟨e₁, hs₁, ha₁, hst₁⟩ := resumeStart_answers hproc ha h₁
  obtain ⟨r, hr, hrest⟩ : ∃ r, TrapAfter e₁.world.stops r ∧ (e.srv.procIsUp = false → r = rest) :=
    hst₁.elim (fun h => ⟨rest, h ▸ h₂, fun _ => rfl⟩)
      fun ⟨hup, h⟩ => ⟨mid, h ▸ h₁, fun h' => Bool.noConfusion (hup.symm.trans h')⟩
  obtain ⟨e₂, hs₂, ha₂, hst₂⟩ := pokeBreakpoints_answers "setBreakpoints" (fun _ => trapBytes exe) ha₁
  obtain ⟨e₃, hs₃, ha₃, hst₃⟩ := runToTrap_answers ha₂ (hst₂ ▸ hr)
  obtain ⟨e₄, hs₄, ha₄, hst₄⟩ :=
    pokeBreakpoints_answers "liftBreakpoints" (fun bp => bp.origInstr.take exe.arch.breakpointSize) ha₃
  obtain ⟨st, e₅, hs₅⟩ := rewind_answers exe ha₄
  obtain ⟨-, -, -, -, hst₅, -⟩ := rewind_ok hs₅
  refine ⟨st, e₅, ?_, fun hup => by rw [hst₅, hst₄, hst₃, hrest hup]⟩
  rw [resume_eq_of_start hs₁, bind_ok (show setBreakpoints exe e₁ = _ from hs₂), bind_ok hs₃,
    bind_ok (show liftBreakpoints exe e₃ = _ from hs₄), hs₅]

/-- **`Resume` returns** from every state with a started process when the
kernel answers every trace call and its next reports hold two real
traps, each after any number of other stops. -/
theorem resume_returns {exe : Exe} {e : Engine} {p : Int} {mid rest : List (Except String Stop)}
    (hproc : e.srv.proc = some p) (ha : Answers e) (h₁ : TrapAfter e.world.stops mid)
    (h₂ : TrapAfter mid rest) : ∃ st e', resume exe e = .ok st e' :=
  let ⟨st, e', h, _⟩ := @resume_answers exe e p mid rest hproc ha h₁ h₂
  ⟨st, e', h⟩

/-- After `Run`, a kernel that reports a `SIGURG` stop before the exec
trap and another before the trap that ends the run. -/
theorem resume_returns_after_run :
    let urg : Stop := ⟨1, .stopped 23 0, ⟨0x400, 0x7ff0⟩⟩
    let e := stateOf (run demoExe ⟨Server.new, World.start [.ok urg, .ok ⟨1, .stopped 5 0, ⟨0x400, 0x7ff0⟩⟩,
      .ok urg, .ok ⟨1, .stopped 5 0, ⟨0x1001, 0x7ff0⟩⟩]⟩)
    e.srv.proc = some 1 ∧ Answers e ∧
    TrapAfter e.world.stops [.ok urg, .ok ⟨1, .stopped 5 0, ⟨0x1001, 0x7ff0⟩⟩] ∧
    TrapAfter [.ok urg, .ok ⟨1, .stopped 5 0, ⟨0x1001, 0x7ff0⟩⟩] [] ∧
    ∃ st e', resume demoExe e = .ok st e' :=
  have h₁ : TrapAfter [.ok ⟨1, .stopped 23 0, ⟨0x400, 0x7ff0⟩⟩, .ok ⟨1, .stopped 5 0, ⟨0x400, 0x7ff0⟩⟩,
      .ok ⟨1, .stopped 23 0, ⟨0x400, 0x7ff0⟩⟩, .ok ⟨1, .stopped 5 0, ⟨0x1001, 0x7ff0⟩⟩]
      [.ok ⟨1, .stopped 23 0, ⟨0x400, 0x7ff0⟩⟩, .ok ⟨1, .stopped 5 0, ⟨0x1001, 0x7ff0⟩⟩] :=
    ⟨[⟨1, .stopped 23 0, ⟨0x400, 0x7ff0⟩⟩], _, rfl, by decide, rfl⟩
  have h₂ : TrapAfter [.ok ⟨1, .stopped 23 0, ⟨0x400, 0x7ff0⟩⟩, .ok ⟨1, .stopped 5 0, ⟨0x1001, 0x7ff0⟩⟩] [] :=
    ⟨[⟨1, .stopped 23 0, ⟨0x400, 0x7ff0⟩⟩], _, rfl, by decide, rfl⟩
  ⟨rfl, ⟨rfl, rfl⟩, h₁, h₂, resume_returns rfl ⟨rfl, rfl⟩ h₁ h₂⟩

/-- **The first `Resume` after `Run` reports the trap that ends its run**:
it waits for the exec, lets the debuggee run, and answers with the
registers of the next real trap, the pc moved back by `BreakpointSize`. -/
theorem resume_reports {exe : Exe} {e : Engine} {p : Int} {mid rest : List (Except String Stop)}
    {stop : Stop} (hproc : e.srv.proc = some p) (hup : e.srv.procIsUp = false) (ha : Answers e)
    (h₁ : TrapAfter e.world.stops mid) (h₂ : TrapAt mid stop rest) :
    ∃ e', resume exe e = .ok ⟨stop.regs.rip - BitVec.ofNat 64 exe.arch.breakpointSize, stop.regs.rsp⟩ e' := by
  obtain ⟨st, e', hres, hrest⟩ := @resume_answers exe e p mid rest hproc ha h₁ h₂.trapAfter
  obtain ⟨pre, stop', hstops, -, -, rfl, -⟩ := resume_ok_trap hres
  obtain ⟨ns₁, s₁, h₁, -, -⟩ := h₁
  obtain ⟨ns, rfl, -, -⟩ := h₂
  rw [hrest hup, h₁] at hstops
  -- the trap that ended the run is the last report before `rest`
  have hlast : pre ++ [.ok stop'] ++ rest = (ns₁.map .ok ++ .ok s₁ :: ns.map .ok) ++ [.ok stop] ++ rest := by
    simp only [List.append_assoc, List.singleton_append, List.cons_append]
    exact hstops.symm
  obtain rfl : stop' = stop := by simpa using (List.append_inj' (List.append_cancel_right hlast) rfl).2
  exact ⟨e', hres⟩

end OgleServer
