import OgleServer.Handlers

/-!
# Invariants — what holds along every run

Each run theorem is an induction over `Run` from `serve_step`, what one
step of the server can do:

* the breakpoint table only grows and every entry is keyed by its pc, so
  a `Breakpoint` at a pc already set is refused and never saves that pc's
  bytes again (`breakpoint_table_grows`), though an address before it in
  the request can fail first (`breakpoint_already_set_masked`);
* as long as no `Resume` has failed, every entry saved the executable's
  bytes and the debuggee's code is the executable's (`Clean`): at rest the
  breakpoints cannot be seen in the code (`breakpoints_transparent`);
* the file table stays indexed by descriptor, and its length is the most
  files ever open at once (`files_length_peak`).

The module ends with what `Resume` does when it steps over a breakpoint
and the kernel first reports some other stop (`stepOver_runs_unarmed`).
-/

namespace OgleServer

variable {exe : Exe}

/-! ## The breakpoint table -/

/-- An entry of the table after a step is one it had, or a new one keyed
by its pc that saved the debuggee's bytes. -/
theorem Grows.old_or_new {e e' : Engine} (h : Grows exe e e') {pc : BitVec 64} {bp : Breakpoint}
    (hbp : e'.srv.breakpoints.lookup pc = some bp) :
    e.srv.breakpoints.lookup pc = some bp ∨ bp.pc = pc ∧ ∃ t, e.world.tracee = some t ∧
      bp.origInstr = origInstrOf exe (readMem t.mem pc.toNat exe.arch.breakpointSize) := by
  cases hold : e.srv.breakpoints.lookup pc with
  | none => exact .inr (h.new pc bp hbp hold)
  | some bp' =>
    rw [h.keep pc bp' hold] at hbp
    exact .inl (congrArg some (Option.some.inj hbp))

/-- Every entry of the table is keyed by its own pc. -/
def Keyed (e : Engine) : Prop :=
  ∀ pc bp, e.srv.breakpoints.lookup pc = some bp → bp.pc = pc

theorem Keyed.initial {e : Engine} (h : Initial e) : Keyed e := by
  intro pc bp hbp
  simp [h.1, Server.new] at hbp

theorem Keyed.serve {e e' : Engine} {req : Request} {out : Except String Response} (hk : Keyed e)
    (h : serve exe req e = some (out, e')) : Keyed e' := fun pc bp hbp =>
  ((serve_step h).grows.old_or_new hbp).elim (hk pc bp) And.left

theorem Run.keyed {e₀ e : Engine} {tr : List (Request × Except String Response)} (h₀ : Initial e₀)
    (hrun : Run exe e₀ tr e) : Keyed e := by
  induction hrun with
  | nil => exact Keyed.initial h₀
  | step _ hs ih => exact ih.serve hs

theorem Run.keep {e e' : Engine} {tr : List (Request × Except String Response)}
    (hrun : Run exe e tr e') {pc : BitVec 64} {bp : Breakpoint}
    (hbp : e.srv.breakpoints.lookup pc = some bp) : e'.srv.breakpoints.lookup pc = some bp := by
  induction hrun with
  | nil => exact hbp
  | step _ hs ih => exact (serve_step hs).grows.keep pc bp ih

/-- **The breakpoint table only grows.** Along every run, whatever each
request answers and `Run` restarts included, every entry stays as it
is; every entry is keyed by its pc; and so a `Breakpoint` with an address
that resolves to a pc already set never returns normally, and is refused
with the "already set" error, changing nothing, when the addresses listed
before that one are handled without error. -/
theorem breakpoint_table_grows {e₀ e e' : Engine} {tr tr' : List (Request × Except String Response)}
    (h₀ : Initial e₀) (hrun : Run exe e₀ tr e) (hrun' : Run exe e tr' e') :
    (∀ pc bp, e.srv.breakpoints.lookup pc = some bp → e'.srv.breakpoints.lookup pc = some bp) ∧
    (∀ pc bp, e.srv.breakpoints.lookup pc = some bp → bp.pc = pc) ∧
    (∀ address pre a post pc e₁, eval exe address = .ok (pre ++ a :: post) →
      pre.forM (breakpointAt exe) e = .ok () e₁ → evalAddress exe a = .ok pc →
      pc ∈ e.srv.breakpoints → breakpoint exe address e =
        .error (.error ("breakpoint already set at " ++ fmtHex pc.toNat ++ " (TODO)")) e₁) ∧
    ∀ address addrs a pc, eval exe address = .ok addrs → a ∈ addrs → evalAddress exe a = .ok pc →
      pc ∈ e.srv.breakpoints → ∀ u e'', breakpoint exe address e ≠ .ok u e'' := by
  refine ⟨fun pc bp => hrun'.keep, Run.keyed h₀ hrun, fun address pre a post pc e₁ haddrs hpre hpc hset => ?_,
    fun address addrs a pc haddrs ha hpc hset u e'' h => ?_⟩
  · have hadds : Adds exe e e₁ := by
      simpa [hpre] using keeps_forM (Adds.refl exe) (Adds.trans exe) _ (breakpointAt_adds exe) pre e
    simp only [breakpoint, haddrs, check_ok, pure_bind, List.forM_append, List.forM_cons']
    rw [bind_ok hpre, bind_error (breakpointAt_already_set hpc (hadds.mem hset))]
  · simp only [breakpoint, haddrs, check_ok, pure_bind] at h
    exact forM_breakpointAt_fresh addrs h a ha pc hpc hset

/-- `Run` and a breakpoint at `main.foo`, then a `Resume`. -/
theorem breakpoint_table_grows_main_foo :
    let e₀ : Engine := ⟨Server.new, World.start demoStops⟩
    let tr : List (Request × Except String Response) :=
      [(.run, .ok .run), (.breakpoint "sym:main.foo", .ok .breakpoint)]
    let e := stateOf (handle demoExe (.breakpoint "sym:main.foo") (stateOf (handle demoExe .run e₀)))
    let tr' : List (Request × Except String Response) := [(.resume, .ok (.resume ⟨0x1000, 0x7ff0⟩))]
    let e' := stateOf (handle demoExe .resume e)
    Initial e₀ ∧ Run demoExe e₀ tr e ∧ Run demoExe e tr' e' ∧
    (∀ pc bp, e.srv.breakpoints.lookup pc = some bp → e'.srv.breakpoints.lookup pc = some bp) ∧
    (∀ pc bp, e.srv.breakpoints.lookup pc = some bp → bp.pc = pc) ∧
    (∀ address pre a post pc e₁, eval demoExe address = .ok (pre ++ a :: post) →
      pre.forM (breakpointAt demoExe) e = .ok () e₁ → evalAddress demoExe a = .ok pc →
      pc ∈ e.srv.breakpoints → breakpoint demoExe address e =
        .error (.error ("breakpoint already set at " ++ fmtHex pc.toNat ++ " (TODO)")) e₁) ∧
    ∀ address addrs a pc, eval demoExe address = .ok addrs → a ∈ addrs →
      evalAddress demoExe a = .ok pc → pc ∈ e.srv.breakpoints →
        ∀ u e'', breakpoint demoExe address e ≠ .ok u e'' :=
  (fun h₀ hrun hrun' => ⟨h₀, hrun, hrun', breakpoint_table_grows h₀ hrun hrun'⟩)
    ⟨rfl, rfl⟩ (.cons rfl (.cons rfl .nil)) (.cons rfl .nil)

/-- `demoExe` with a second function, `main.bar` at `0x2000`, which `re:main`
lists before `main.foo`. -/
def demoBarExe : Exe :=
  { demoExe with
    lookupSym := fun n =>
      if n = "main.foo" then .ok 0x1000 else if n = "main.bar" then .ok 0x2000
      else .error ("symbol not found: " ++ n)
    lookupRE := fun re => .ok (["main.bar", "main.foo"].filter fun n => hasPrefix n re) }

/-- An earlier address can fail first. After `Run`, a breakpoint at
`main.foo` and a `Run` whose fork fails, no process is traced; `re:main`
lists `main.bar`, then `main.foo`, whose pc is set, and the request fails
on `main.bar`'s peek, not with the "already set" error. -/
theorem breakpoint_already_set_masked :
    let e₀ : Engine := ⟨Server.new, { World.start [] with acks := [none, none, some "EAGAIN"] }⟩
    let tr : List (Request × Except String Response) := [(.run, .ok .run),
      (.breakpoint "sym:main.foo", .ok .breakpoint), (.run, .error "fork/exec demo: EAGAIN")]
    let e := stateOf (handle demoBarExe .run (stateOf (handle demoBarExe (.breakpoint "sym:main.foo")
      (stateOf (handle demoBarExe .run e₀)))))
    Initial e₀ ∧ Run demoBarExe e₀ tr e ∧ eval demoBarExe "re:main" = .ok ["main.bar", "main.foo"] ∧
      evalAddress demoBarExe "main.foo" = .ok 0x1000 ∧ (0x1000 : BitVec 64) ∈ e.srv.breakpoints ∧
      breakpoint demoBarExe "re:main" e = .error (.error "ptracePeek: no such process") e :=
  ⟨⟨rfl, rfl⟩, .cons rfl (.cons rfl (.cons rfl .nil)), rfl, rfl, by decide, rfl⟩

/-! ## The code at rest -/

/-- The debuggee's code is the executable's, and every entry saved the
executable's bytes at its pc. -/
structure Clean (exe : Exe) (e : Engine) : Prop where
  saved : ∀ pc bp, e.srv.breakpoints.lookup pc = some bp →
    bp.origInstr = origInstrOf exe (readMem exe.image pc.toNat exe.arch.breakpointSize)
  code : ∀ t, e.world.tracee = some t → t.mem = exe.image

theorem Clean.initial {e : Engine} (h : Initial e) : Clean exe e :=
  ⟨fun pc bp hbp => by simp [h.1, Server.new] at hbp, fun t ht => by simp [h.2] at ht⟩

/-- With clean entries, installing and lifting them gives back the
executable's code, in any orders. -/
theorem Clean.restores {e : Engine} (hc : Clean exe e)
    {l₁ l₂ : List (Sigma fun _ : BitVec 64 => Breakpoint)}
    (hp₁ : l₁.Perm e.srv.breakpoints.entries) (hp₂ : l₂.Perm e.srv.breakpoints.entries) :
    writeAll (writeAll exe.image (fun _ => trapBytes exe) l₁)
      (fun bp => bp.origInstr.take exe.arch.breakpointSize) l₂ = exe.image :=
  writeAll_lift_install (hp₁.trans hp₂.symm) fun y hy => by
    rw [hc.saved y.1 y.2 (AList.mem_lookup_iff.mpr (hp₂.subset hy)),
      take_origInstrOf exe (length_readMem _ _ _)]

/-- **Every step but a failed `Resume` keeps the code clean.** -/
theorem Clean.serve {e e' : Engine} {req : Request} {out : Except String Response} (hc : Clean exe e)
    (h : serve exe req e = some (out, e')) (hres : ∀ msg, (req, out) ≠ (.resume, .error msg)) :
    Clean exe e' := by
  refine ⟨fun pc bp hbp => ?_, fun t' ht' => ?_⟩
  · rcases (serve_step h).grows.old_or_new hbp with hold | ⟨-, t, ht, horig⟩
    · exact hc.saved pc bp hold
    · rw [horig, hc.code t ht]
  · have hstep := (serve_step h).code hres
    have himage : ∀ m ∈ e.world.tracee.map Tracee.mem, m = exe.image := fun m hm => by
      obtain ⟨t, ht, rfl⟩ := Option.mem_map.mp hm
      exact hc.code t ht
    have hmem : t'.mem ∈ e'.world.tracee.map Tracee.mem := by rw [ht']; rfl
    generalize e.world.tracee.map Tracee.mem = c at hstep himage
    generalize e'.world.tracee.map Tracee.mem = c' at hstep hmem
    cases hstep with
    | same => exact himage _ hmem
    | gone => cases hmem
    | fresh => exact (Option.mem_some_iff.mp hmem).symm
    | resumed l₁ l₂ hp₁ hp₂ =>
      obtain ⟨m, hm, hwrite⟩ := Option.mem_map.mp hmem
      rw [← hwrite, himage m hm]
      exact hc.restores hp₁ hp₂

theorem Run.clean {e₀ e : Engine} {tr : List (Request × Except String Response)} (h₀ : Initial e₀)
    (hrun : Run exe e₀ tr e) (hres : ∀ msg, (Request.resume, .error msg) ∉ tr) : Clean exe e := by
  induction hrun with
  | nil => exact Clean.initial h₀
  | step _ hs ih =>
    refine (ih fun msg hm => hres msg (List.mem_append_left _ hm)).serve hs fun msg heq => ?_
    exact hres msg (heq ▸ List.mem_append_right _ (List.mem_singleton_self _))

/-- **Breakpoints are invisible at rest.** Along every run from the server
`New` returns in which no `Resume` failed, whatever the kernel reported,
however the install and lift loops ordered the map, across `Run`
restarts and with overlapping breakpoints: every entry's saved bytes are
the executable's code at its pc, and the debuggee's code there holds
exactly those bytes. -/
theorem breakpoints_transparent {e₀ e : Engine} {tr : List (Request × Except String Response)}
    (h₀ : Initial e₀) (hrun : Run exe e₀ tr e) (hres : ∀ msg, (Request.resume, .error msg) ∉ tr) :
    ∀ pc bp, e.srv.breakpoints.lookup pc = some bp →
      bp.origInstr.take exe.arch.breakpointSize = readMem exe.image pc.toNat exe.arch.breakpointSize ∧
      ∀ t, e.world.tracee = some t →
        readMem t.mem pc.toNat exe.arch.breakpointSize =
          readMem exe.image pc.toNat exe.arch.breakpointSize := by
  have hc := Run.clean h₀ hrun hres
  intro pc bp hbp
  refine ⟨?_, fun t ht => by rw [hc.code t ht]⟩
  rw [hc.saved pc bp hbp, take_origInstrOf exe (length_readMem _ _ _)]

/-- `Run`, a breakpoint at `main.foo`, and a `Resume` that stops there. -/
theorem breakpoints_transparent_main_foo :
    let e₀ : Engine := ⟨Server.new, World.start demoStops⟩
    let tr : List (Request × Except String Response) := [(.run, .ok .run),
      (.breakpoint "sym:main.foo", .ok .breakpoint), (.resume, .ok (.resume ⟨0x1000, 0x7ff0⟩))]
    let e := stateOf (handle demoExe .resume (stateOf (handle demoExe (.breakpoint "sym:main.foo")
      (stateOf (handle demoExe .run e₀)))))
    Initial e₀ ∧ Run demoExe e₀ tr e ∧ (∀ msg, (Request.resume, .error msg) ∉ tr) ∧
    ∀ pc bp, e.srv.breakpoints.lookup pc = some bp →
      bp.origInstr.take demoExe.arch.breakpointSize =
        readMem demoExe.image pc.toNat demoExe.arch.breakpointSize ∧
      ∀ t, e.world.tracee = some t →
        readMem t.mem pc.toNat demoExe.arch.breakpointSize =
          readMem demoExe.image pc.toNat demoExe.arch.breakpointSize :=
  (fun h₀ hrun hres => ⟨h₀, hrun, hres, breakpoints_transparent h₀ hrun hres⟩)
    ⟨rfl, rfl⟩ (.cons rfl (.cons rfl (.cons rfl .nil))) (by simp)

/-! ## The file table -/

theorem Run.files_length_le {e e' : Engine} {tr : List (Request × Except String Response)}
    (hrun : Run exe e tr e') : e.srv.files.length ≤ e'.srv.files.length := by
  induction hrun with
  | nil => exact le_rfl
  | step _ hs ih => exact ih.trans (serve_step hs).files.length_le

/-- The table's length is the number of files open at some state of the
run. -/
theorem Run.files_peak {e₀ e : Engine} {tr : List (Request × Except String Response)}
    (h₀ : Initial e₀) (hrun : Run exe e₀ tr e) :
    ∃ tr₁ tr₂ e₁, tr₁ ++ tr₂ = tr ∧ Run exe e₀ tr₁ e₁ ∧ Run exe e₁ tr₂ e ∧
      openCount e₁.srv.files = e.srv.files.length := by
  induction hrun with
  | nil => exact ⟨[], [], e₀, rfl, .nil, .nil, by simp [h₀.1, Server.new, openCount]⟩
  | @step tr e e' req out hr hs ih =>
    have hfile := (serve_step hs).files
    rcases hfile.length_le.lt_or_eq with hlt | heq
    · exact ⟨tr ++ [(req, out)], [], e', List.append_nil _, .step hr hs, .nil, hfile.full_of_lt hlt⟩
    · obtain ⟨tr₁, tr₂, e₁, htr, hr₁, hr₂, hcount⟩ := ih
      exact ⟨tr₁, tr₂ ++ [(req, out)], e₁, by rw [← htr, List.append_assoc], hr₁, .step hr₂ hs,
        hcount.trans heq⟩

/-- **The file table.** Along every run from the server `New` returns,
whatever each request answers: every full slot holds a file whose index
is its slot; the table is at least as long as the files open at any
state before; it is exactly as long as the files open at some state of
the run; and a step grows it only when every slot was full. -/
theorem files_length_peak {e₀ e : Engine} {tr : List (Request × Except String Response)}
    (h₀ : Initial e₀) (hrun : Run exe e₀ tr e) :
    Indexed e.srv.files ∧
    (∀ e₁ tr₂, Run exe e₁ tr₂ e → openCount e₁.srv.files ≤ e.srv.files.length) ∧
    (∃ tr₁ tr₂ e₁, tr₁ ++ tr₂ = tr ∧ Run exe e₀ tr₁ e₁ ∧ Run exe e₁ tr₂ e ∧
      openCount e₁.srv.files = e.srv.files.length) ∧
    ∀ req e₁ out e₂, serve exe req e₁ = some (out, e₂) →
      e₁.srv.files.length < e₂.srv.files.length → openCount e₁.srv.files = e₁.srv.files.length := by
  refine ⟨?_, fun e₁ tr₂ hr => (openCount_le _).trans hr.files_length_le, Run.files_peak h₀ hrun,
    fun req e₁ out e₂ hs hlt => (serve_step hs).files.full_before_of_lt hlt⟩
  induction hrun with
  | nil => intro i f hf; simp [h₀.1, Server.new] at hf
  | step _ hs ih => exact (serve_step hs).files.indexed ih

/-- Two opens, a close and an open: the third file takes the freed slot. -/
theorem files_length_peak_reuse :
    let e₀ : Engine := ⟨Server.new, World.start []⟩
    let tr : List (Request × Except String Response) := [(.open_ "a" "r", .ok .open_),
      (.open_ "b" "r", .ok .open_), (.close 0, .ok .close), (.open_ "c" "r", .ok .open_)]
    let e := stateOf (handle demoExe (.open_ "c" "r") (stateOf (handle demoExe (.close 0)
      (stateOf (handle demoExe (.open_ "b" "r") (stateOf (handle demoExe (.open_ "a" "r") e₀)))))))
    Initial e₀ ∧ Run demoExe e₀ tr e ∧
    Indexed e.srv.files ∧
    (∀ e₁ tr₂, Run demoExe e₁ tr₂ e → openCount e₁.srv.files ≤ e.srv.files.length) ∧
    (∃ tr₁ tr₂ e₁, tr₁ ++ tr₂ = tr ∧ Run demoExe e₀ tr₁ e₁ ∧ Run demoExe e₁ tr₂ e ∧
      openCount e₁.srv.files = e.srv.files.length) ∧
    ∀ req e₁ out e₂, serve demoExe req e₁ = some (out, e₂) →
      e₁.srv.files.length < e₂.srv.files.length → openCount e₁.srv.files = e₁.srv.files.length :=
  (fun h₀ hrun => ⟨h₀, hrun, files_length_peak h₀ hrun⟩)
    ⟨rfl, rfl⟩ (.cons rfl (.cons rfl (.cons rfl (.cons rfl .nil))))

/-! ## Stepping over a breakpoint -/

/-- A clean server stopped on a breakpoint, whose kernel reports a stop that
is not a real trap first: `Resume` single-steps the task, then continues
the reporting task, both against the code as it was. -/
theorem resume_conts_in_stepOver {e : Engine} {p : Int} {t : Tracee} {stop : Stop}
    {rest : List (Except String Stop)} (hc : Clean exe e) (hproc : e.srv.proc = some p)
    (hup : e.srv.procIsUp = true) (hat : e.srv.stoppedRegs.rip ∈ e.srv.breakpoints)
    (ht : e.world.tracee = some t) (hacks : e.world.acks = [])
    (hstops : e.world.stops = .ok stop :: rest) (hstop : isTrap stop.status = false) :
    e.world.execs ++ [⟨e.srv.stoppedPid, true, t.mem⟩, ⟨stop.pid, false, t.mem⟩] <+:
        (stateOf (resume exe e)).world.execs ∧
      ∀ pc bp, e.srv.breakpoints.lookup pc = some bp →
        readMem t.mem pc.toNat exe.arch.breakpointSize = bp.origInstr.take exe.arch.breakpointSize := by
  refine ⟨?_, fun pc bp hbp => by
    rw [hc.code t ht, hc.saved pc bp hbp, take_origInstrOf exe (length_readMem _ _ _)]⟩
  let single : Exec := ⟨e.srv.stoppedPid, true, t.mem⟩
  let t₁ : Tracee := { t with running := e.srv.stoppedPid :: t.running }
  let e₁ : Engine :=
    ⟨e.srv, { e.world with acks := [], tracee := some t₁, execs := e.world.execs ++ [single] }⟩
  have hsingle : ptraceSingleStep e.srv.stoppedPid e = .ok (.ok ()) e₁ := by
    simp only [ptraceSingleStep, traceCall, ht, hacks]
    rfl
  let e₃ : Engine := ⟨e.srv, { e₁.world with
    acks := [], stops := rest, tracee := some { t₁.report stop with running := stop.pid :: (t₁.report stop).running },
    execs := e₁.world.execs ++ [⟨stop.pid, false, t₁.mem⟩] }⟩
  have hwait : stateOf (waitForTrap e.srv.stoppedPid e₁) =
      stateOf (waitLoop e.srv.stoppedPid rest.length e₃) := by
    show stateOf (waitLoop _ e₁.world.stops.length e₁) = _
    rw [show e₁.world.stops.length = rest.length + 1 by simp [e₁, hstops],
      waitLoop_cont (show e₁.world.tracee = some t₁ from rfl) rfl hstops hstop]
  have hover : Kept (stateOf (waitForTrap e.srv.stoppedPid e₁)) (stateOf (stepOver e)) := by
    simp only [stepOver, getSrv_bind]
    rw [bind_ok hsingle]
    simp only [check_ok, pure_bind]
    exact Keeps.stateOf_bind Kept.refl (fun ⟨_, err⟩ =>
      keeps_failIf Kept.refl Kept.trans err fun _ => Keeps.pure Kept.refl _) e₁
  have hstart : resumeStart e = stepOver e := by simp [resumeStart, hproc, hup, hat]
  have hall : Kept e₃ (stateOf (resume exe e)) :=
    Kept.trans (Kept.trans (waitLoop_quiet _ _ e₃).toKept (hwait ▸ hover))
      (hstart ▸ resume_from_start exe e)
  have hpre : e.world.execs ++ [⟨e.srv.stoppedPid, true, t.mem⟩, ⟨stop.pid, false, t.mem⟩] =
      e₃.world.execs := by
    simp [e₃, e₁]
  exact hpre ▸ hall.execs

/-- **Stepping over a breakpoint lets the debuggee run with its breakpoints
out.** In a state a run reaches, when `Resume` finds the stopped task on a
breakpoint it single-steps it while the table is lifted. If the kernel
then reports a stop that is not a real trap (a signal, a clone event),
`waitForTrap` answers it with `PTRACE_CONT`: the reporting task runs
freely, against code in which every breakpoint holds its saved original
bytes. -/
theorem stepOver_runs_unarmed {e₀ e : Engine} {tr : List (Request × Except String Response)}
    {p : Int} {stop : Stop} {rest : List (Except String Stop)} (h₀ : Initial e₀)
    (hrun : Run exe e₀ tr e) (hres : ∀ msg, (Request.resume, .error msg) ∉ tr)
    (hproc : e.srv.proc = some p) (hup : e.srv.procIsUp = true)
    (hat : e.srv.stoppedRegs.rip ∈ e.srv.breakpoints) (ht : e.world.tracee.isSome = true)
    (hacks : e.world.acks = []) (hstops : e.world.stops = .ok stop :: rest)
    (hstop : isTrap stop.status = false) :
    ∃ m, e.world.tracee.map Tracee.mem = some m ∧
      e.world.execs ++ [⟨e.srv.stoppedPid, true, m⟩, ⟨stop.pid, false, m⟩] <+:
        (stateOf (resume exe e)).world.execs ∧
      ∀ pc bp, e.srv.breakpoints.lookup pc = some bp →
        readMem m pc.toNat exe.arch.breakpointSize = bp.origInstr.take exe.arch.breakpointSize := by
  obtain ⟨t, ht⟩ := Option.isSome_iff_exists.mp ht
  refine ⟨t.mem, by rw [ht]; rfl, ?_⟩
  exact resume_conts_in_stepOver (Run.clean h₀ hrun hres) hproc hup hat ht hacks hstops hstop

/-- `Run`, a breakpoint at `main.foo`, a `Resume` that stops there; the next
`Resume` meets the `SIGURG` stop during its single step. -/
theorem stepOver_runs_unarmed_main_foo :
    let e₀ : Engine := ⟨Server.new, World.start demoStops⟩
    let tr : List (Request × Except String Response) := [(.run, .ok .run),
      (.breakpoint "sym:main.foo", .ok .breakpoint), (.resume, .ok (.resume ⟨0x1000, 0x7ff0⟩))]
    let e := stateOf (handle demoExe .resume (stateOf (handle demoExe (.breakpoint "sym:main.foo")
      (stateOf (handle demoExe .run e₀)))))
    Initial e₀ ∧ Run demoExe e₀ tr e ∧ (∀ msg, (Request.resume, .error msg) ∉ tr) ∧
    e.srv.proc = some 1 ∧ e.srv.procIsUp = true ∧ e.srv.stoppedRegs.rip ∈ e.srv.breakpoints ∧
    e.world.tracee.isSome = true ∧ e.world.acks = [] ∧
    e.world.stops = [.ok ⟨1, .stopped 23 0, ⟨0x1001, 0x7ff0⟩⟩, .ok ⟨1, .stopped 5 0, ⟨0x1001, 0x7ff0⟩⟩] ∧
    isTrap (WaitStatus.stopped 23 0) = false ∧
    ∃ m, e.world.tracee.map Tracee.mem = some m ∧
      e.world.execs ++ [⟨e.srv.stoppedPid, true, m⟩, ⟨1, false, m⟩] <+:
        (stateOf (resume demoExe e)).world.execs ∧
      ∀ pc bp, e.srv.breakpoints.lookup pc = some bp →
        readMem m pc.toNat demoExe.arch.breakpointSize =
          bp.origInstr.take demoExe.arch.breakpointSize :=
  (fun h₀ hrun hres hproc hup hat ht hacks hstops hstop =>
    ⟨h₀, hrun, hres, hproc, hup, hat, ht, hacks, hstops, hstop,
      stepOver_runs_unarmed h₀ hrun hres hproc hup hat ht hacks hstops hstop⟩)
    ⟨rfl, rfl⟩ (.cons rfl (.cons rfl (.cons rfl .nil))) (by simp) rfl rfl (by decide) rfl rfl rfl rfl

end OgleServer
