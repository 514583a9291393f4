import OgleServer.Handlers

/-!
# Controller — the process controller the server implements

The process controller of the design is a state machine: no child, a
child forked under trace whose exec stop is not yet consumed, the child
running, and the child halted at a trap. `Run` replaces the child by a
fresh one; `Resume` fails with no child and otherwise lets it run to its
next trap.

Every handler holds the mutex for its whole run, so between requests the
child is never seen running: a caller sees one of `Phase`'s three states,
and the server's record says which (`phaseOf`, from `proc` and
`procIsUp`). `Moves` is the machine's table, labelled with each request
and its answer, failures included, and `Phases` are its runs.

The server refines the machine: every step of the server is one of its
moves (`serve_moves`), so every run of the server from `New` is a run of
the machine (`controller_refinement`), and what the machine guarantees
holds of the server: until a `Run` succeeds, every `Resume` fails
(`resume_fails_until_run`).

One move is wider than the design's table: the first `Resume` sets
`procIsUp` before it waits for the exec stop, so one that fails there
still leaves the child marked up (`Moves.resume_error` from `started`),
and the next `Resume` does not wait for the exec again.
-/

namespace OgleServer

/-! ## The machine -/

/-- The controller's states between requests. -/
inductive Phase where
  | none
  | started
  | stopped
  deriving DecidableEq, Repr

/-- The controller's moves, labelled by the request and its answer. -/
inductive Moves : Request → Except String Response → Phase → Phase → Prop
  /-- `Run` starts a fresh child, replacing any prior one. -/
  | run_ok (p : Phase) : Moves .run (.ok .run) p .started
  /-- A `Run` that fails leaves no child: a prior one was killed first. -/
  | run_error (p : Phase) (msg : String) : Moves .run (.error msg) p .none
  /-- `Resume` with no child. -/
  | resume_none : Moves .resume (.error "Resume: Run did not successfully start a process") .none .none
  /-- `Resume` of a child lets it run to its next trap. -/
  | resume_ok (p : Phase) (st : Status) : p ≠ .none → Moves .resume (.ok (.resume st)) p .stopped
  /-- A `Resume` of a child that fails leaves it marked up. -/
  | resume_error (p : Phase) (msg : String) : p ≠ .none → Moves .resume (.error msg) p .stopped
  /-- Every other request leaves the controller where it was. -/
  | other (req : Request) (out : Except String Response) (p : Phase) :
      req ≠ .run → req ≠ .resume → Moves req out p p

/-- The machine's runs from `p₀`. -/
inductive Phases (p₀ : Phase) : List (Request × Except String Response) → Phase → Prop
  | nil : Phases p₀ [] p₀
  | snoc {tr : List (Request × Except String Response)} {p q : Phase} {req : Request}
      {out : Except String Response} : Phases p₀ tr p → Moves req out p q → Phases p₀ (tr ++ [(req, out)]) q

/-- **Until a `Run` succeeds, the machine has no child and every `Resume`
fails.** -/
theorem Phases.resume_before_run {tr : List (Request × Except String Response)} {p : Phase}
    (h : Phases .none tr p) (hrun : ((.run, .ok .run) : Request × Except String Response) ∉ tr) :
    p = .none ∧ ∀ out, (Request.resume, out) ∈ tr →
      out = .error "Resume: Run did not successfully start a process" := by
  induction h with
  | nil => exact ⟨rfl, fun _ h => absurd h (List.not_mem_nil _)⟩
  | snoc _ hm ih =>
    obtain ⟨rfl, hres⟩ := ih fun h => hrun (List.mem_append_left _ h)
    have hlast : ∀ {req out} (out' : Except String Response),
        (Request.resume, out') ∈ [(req, out)] → req = .resume ∧ out' = out := by
      intro _ _ _ h
      simp only [List.mem_singleton, Prod.mk.injEq] at h
      exact ⟨h.1.symm, h.2⟩
    cases hm with
    | run_ok => exact absurd (List.mem_append_right _ (List.mem_singleton_self _)) hrun
    | run_error _ msg =>
      exact ⟨rfl, fun out h => (List.mem_append.mp h).elim (hres out) fun h' =>
        absurd (hlast out h').1 (by decide)⟩
    | resume_none =>
      exact ⟨rfl, fun out h => (List.mem_append.mp h).elim (hres out) fun h' =>
        (hlast out h').2⟩
    | resume_ok _ _ hp => exact absurd rfl hp
    | resume_error _ _ hp => exact absurd rfl hp
    | other req _ _ _ hs =>
      exact ⟨rfl, fun out h => (List.mem_append.mp h).elim (hres out) fun h' =>
        absurd (hlast out h').1 hs⟩

/-! ## The server's phase -/

/-- The phase the server's record is in. -/
def phaseOf (s : Server) : Phase :=
  match s.proc with
  | none => .none
  | some _ => if s.procIsUp then .stopped else .started

/-- Without a process the server does not hold one up: `Run` clears
`procIsUp` whenever it drops a process, and only `Resume` sets it, with a
process. -/
def Phased (s : Server) : Prop :=
  s.proc = none → s.procIsUp = false

theorem phaseOf_of_none {s : Server} (h : s.proc = none) : phaseOf s = .none := by
  simp only [phaseOf, h]

theorem phaseOf_ne_none {s : Server} {p : Int} (h : s.proc = some p) : phaseOf s ≠ .none := by
  simp only [phaseOf, h]
  split <;> decide

theorem phaseOf_of_up {s : Server} {p : Int} (h : s.proc = some p) (hup : s.procIsUp = true) :
    phaseOf s = .stopped := by
  simp only [phaseOf, h, hup, if_true]

/-! ## The control fields -/

/-- The process and whether it is up are as they were. -/
def Ctl (e e' : Engine) : Prop :=
  e'.srv.proc = e.srv.proc ∧ e'.srv.procIsUp = e.srv.procIsUp

theorem Ctl.refl : Reflexive Ctl := fun _ => ⟨rfl, rfl⟩

theorem Ctl.trans : Transitive Ctl := fun _ _ _ h₁ h₂ => ⟨h₂.1.trans h₁.1, h₂.2.trans h₁.2⟩

theorem Ctl.of_srv {e e' : Engine} (h : e'.srv = e.srv) : Ctl e e' :=
  ⟨by rw [h], by rw [h]⟩

theorem Ctl.phaseOf {e e' : Engine} (h : Ctl e e') : phaseOf e'.srv = phaseOf e.srv := by
  simp only [OgleServer.phaseOf, h.1, h.2]

theorem Ctl.phased {e e' : Engine} (h : Ctl e e') (hp : Phased e.srv) : Phased e'.srv := fun hn =>
  h.2.trans (hp (h.1 ▸ hn))

theorem traceCall_ctl {α : Type} (act : Tracee → α × Tracee × List Exec) : Keeps Ctl (traceCall act) := by
  intro e
  obtain ⟨r, e', h⟩ := traceCall_answers act e
  rw [h, stateOf_ok]
  cases r with
  | error err => exact Ctl.of_srv (traceCall_error h).1
  | ok a =>
    obtain ⟨t, -, -, hs, -⟩ := traceCall_ok h
    exact Ctl.of_srv hs

theorem wait_ctl (pid : Int) : Keeps Ctl (wait pid) := by
  intro e
  cases h : wait pid e with
  | error err e' =>
    unfold wait at h
    split at h <;> cases h
    exact Ctl.refl e
  | ok r e' => exact Ctl.of_srv (wait_ok h).2.1

/-- Every trace call keeps the control fields. -/
theorem ctlFrame : TraceFrame Ctl :=
  ⟨Ctl.refl, Ctl.trans, wait_ctl, fun _ _ _ => traceCall_ctl _, fun _ => traceCall_ctl _,
    fun _ => traceCall_ctl _, fun _ => traceCall_ctl _, fun _ => traceCall_ctl _, fun _ _ => traceCall_ctl _⟩

theorem pokeBreakpoints_ctl (tag : String) (bytes : Breakpoint → List UInt8) :
    Keeps Ctl (pokeBreakpoints tag bytes) :=
  pokeBreakpoints_keeps Ctl.refl Ctl.trans (fun _ _ _ => traceCall_ctl _)
    (fun _ e => by unfold rangeOrder; split <;> exact Ctl.refl e) tag bytes

/-! ## What each request does to the phase -/

/-- `Run` leaves a fresh process not yet up when it returns, and none when
it fails. -/
theorem run_phase (exe : Exe) {e : Engine} (hp : Phased e.srv) :
    match run exe e with
    | .ok _ e' => phaseOf e'.srv = .started
    | .error _ e' => phaseOf e'.srv = .none ∧ Phased e'.srv := by
  obtain ⟨srv, ⟨tracee, nextPid, acks, stops, shuffles, disk, execs, mapLimit⟩⟩ := e
  cases hproc : srv.proc with
  | none =>
    have hup : srv.procIsUp = false := hp hproc
    rcases acks with _ | ⟨_ | err, rest⟩ <;>
      simp [run, startProcess, hproc, hup, phaseOf, Phased, bind, EStateM.bind]
  | some q =>
    rcases acks with _ | ⟨_ | err, rest⟩ <;>
      simp [run, startProcess, kill, hproc, phaseOf, Phased, bind, EStateM.bind]

/-- `Resume` with no process fails `NoProcess` and changes nothing. -/
theorem resume_no_process (exe : Exe) {e : Engine} (hproc : e.srv.proc = none) :
    resume exe e = .error (.error "Resume: Run did not successfully start a process") e := by
  have hstart : resumeStart e = .error (.error "Resume: Run did not successfully start a process") e := by
    simp only [resumeStart, getSrv_bind, hproc, Option.isNone_none, if_true, fail_bind]
  unfold resume
  rw [bind_error hstart]

/-- The phases of `Resume` after its start keep the control fields. -/
theorem resume_from_start_ctl (exe : Exe) (e : Engine) :
    Ctl (stateOf (resumeStart e)) (stateOf (resume exe e)) :=
  Keeps.stateOf_bind Ctl.refl (fun _ =>
    Keeps.bind Ctl.trans (pokeBreakpoints_ctl _ _) fun _ =>
    Keeps.bind Ctl.trans (ctlFrame.runToTrap_keeps fun _ _ => ⟨rfl, rfl⟩) fun _ =>
    Keeps.bind Ctl.trans (pokeBreakpoints_ctl _ _) fun _ =>
      ctlFrame.rewind_keeps (fun _ _ => ⟨rfl, rfl⟩) exe) e

/-- `Resume` of a process leaves it up, however it ends. -/
theorem resume_up (exe : Exe) {e : Engine} {p : Int} (hproc : e.srv.proc = some p) :
    phaseOf (stateOf (resume exe e)).srv = .stopped := by
  have hstart : (stateOf (resumeStart e)).srv.proc = some p ∧ (stateOf (resumeStart e)).srv.procIsUp = true := by
    cases hup : e.srv.procIsUp
    · have h : resumeStart e = awaitExec e := by
        simp [resumeStart, hproc, hup]
      have hc := ctlFrame.awaitExec_keeps e
      rw [h]
      exact ⟨hc.1.trans hproc, hc.2⟩
    · have hc : Ctl e (stateOf (resumeStart e)) := by
        simp only [resumeStart, getSrv_bind, hproc, hup, Option.isNone_some, Bool.false_eq_true, if_false,
          Bool.not_true, pure_bind]
        split
        · exact ctlFrame.stepOver_keeps e
        · exact Ctl.refl e
      exact ⟨hc.1.trans hproc, hc.2.trans hup⟩
  have h := resume_from_start_ctl exe e
  exact phaseOf_of_up (h.1.trans hstart.1) (h.2.trans hstart.2)

/-- Every request but `Run` and `Resume` keeps the control fields. -/
theorem handle_ctl (exe : Exe) {req : Request} (hrun : req ≠ .run) (hres : req ≠ .resume) (e : Engine) :
    Ctl e (stateOf (handle exe req e)) := by
  cases req with
  | open_ name mode =>
    obtain ⟨files, acks, -, h⟩ := open__step name mode e
    rw [handle, stateOf_bind_pure, h]
    exact ⟨rfl, rfl⟩
  | readAt fd len offset =>
    obtain ⟨acks, h⟩ := readAt_hostOnly fd len offset e
    rw [handle, stateOf_bind_pure, h]
    exact ⟨rfl, rfl⟩
  | close fd =>
    obtain ⟨files, acks, -, h⟩ := close_step fd e
    rw [handle, stateOf_bind_pure, h]
    exact ⟨rfl, rfl⟩
  | run => exact absurd rfl hrun
  | resume => exact absurd rfl hres
  | breakpoint address =>
    have hs := (breakpoint_adds exe address e).srv
    rw [handle, stateOf_bind_pure]
    exact ⟨by rw [hs], by rw [hs]⟩
  | eval expr =>
    rw [handle, stateOf_bind_pure, stateOf_check]
    exact Ctl.refl e
  | frames count =>
    rw [handle, stateOf_bind_pure]
    exact ctlFrame.frames_keeps exe count e

/-! ## The server refines the machine -/

/-- **Every step of the server is a move of the controller**, from every
state whose record is `Phased`, and keeps it `Phased`. -/
theorem serve_moves {exe : Exe} {req : Request} {e e' : Engine} {out : Except String Response}
    (hp : Phased e.srv) (h : serve exe req e = some (out, e')) :
    Moves req out (phaseOf e.srv) (phaseOf e'.srv) ∧ Phased e'.srv := by
  by_cases hrun : req = .run
  · subst hrun
    have hph := run_phase exe hp
    rcases serve_cases rfl h with ⟨_, hr, rfl⟩ | ⟨msg, hr, rfl⟩ <;> rw [hr] at hph
    · exact ⟨hph ▸ .run_ok _, fun hn => by simp only [phaseOf, hn] at hph; cases hph⟩
    · exact ⟨hph.1 ▸ .run_error _ msg, hph.2⟩
  by_cases hres : req = .resume
  · subst hres
    cases hproc : e.srv.proc with
    | none =>
      rcases serve_cases rfl h with ⟨_, hr, -⟩ | ⟨msg, hr, rfl⟩ <;>
        rw [resume_no_process exe hproc] at hr <;> cases hr
      rw [phaseOf_of_none hproc]
      exact ⟨.resume_none, hp⟩
    | some p =>
      have hup := resume_up exe hproc
      have hne := phaseOf_ne_none hproc
      have hphased : phaseOf e'.srv = .stopped → Phased e'.srv := fun h' hn => by
        simp only [phaseOf, hn] at h'
        cases h'
      rcases serve_cases rfl h with ⟨st, hr, rfl⟩ | ⟨msg, hr, rfl⟩
      · rw [hr, stateOf_ok] at hup
        exact ⟨hup ▸ .resume_ok _ st hne, hphased hup⟩
      · rw [hr, stateOf_error] at hup
        exact ⟨hup ▸ .resume_error _ msg hne, hphased hup⟩
  · have hc := handle_ctl exe hrun hres e
    rw [serve_handle h] at hc
    exact ⟨hc.phaseOf ▸ .other req out _ hrun hres, hc.phased hp⟩

/-- Every run of the server from a `Phased` state is a run of the
controller. -/
theorem Run.phases {exe : Exe} {e₀ e : Engine} {tr : List (Request × Except String Response)}
    (h₀ : Phased e₀.srv) (h : Run exe e₀ tr e) : Phases (phaseOf e₀.srv) tr (phaseOf e.srv) ∧ Phased e.srv := by
  induction h with
  | nil => exact ⟨.nil, h₀⟩
  | step _ hs ih =>
    obtain ⟨hm, hp⟩ := serve_moves ih.2 hs
    exact ⟨.snoc ih.1 hm, hp⟩

/-- **Until a `Run` succeeds, every `Resume` fails**, with the
`NoProcess` error, along every run of the server from `New`. -/
theorem resume_fails_until_run {exe : Exe} {e₀ e : Engine} {tr : List (Request × Except String Response)}
    (h₀ : Initial e₀) (h : Run exe e₀ tr e)
    (hrun : ((.run, .ok .run) : Request × Except String Response) ∉ tr) :
    ∀ out, (Request.resume, out) ∈ tr → out = .error "Resume: Run did not successfully start a process" := by
  have hnew : phaseOf e₀.srv = .none := phaseOf_of_none (by rw [h₀.1]; rfl)
  exact (Phases.resume_before_run (hnew ▸ (Run.phases (fun _ => by rw [h₀.1]; rfl) h).1) hrun).2

/-- On `demoExe`, with a kernel that refuses the fork: `Resume`, a failed
`Run`, `Resume`. -/
theorem resume_fails_until_run_demo :
    let e₀ : Engine := ⟨Server.new, { World.start demoStops with acks := [some "ENOENT"] }⟩
    let tr : List (Request × Except String Response) :=
      [(.resume, .error "Resume: Run did not successfully start a process"),
        (.run, .error "fork/exec demo: ENOENT"),
        (.resume, .error "Resume: Run did not successfully start a process")]
    let e := stateOf (handle demoExe .resume (stateOf (handle demoExe .run
      (stateOf (handle demoExe .resume e₀)))))
    Initial e₀ ∧ Run demoExe e₀ tr e ∧ ((.run, .ok .run) : Request × Except String Response) ∉ tr ∧
      ∀ out, (Request.resume, out) ∈ tr → out = .error "Resume: Run did not successfully start a process" :=
  (fun h₀ h hrun => ⟨h₀, h, hrun, resume_fails_until_run h₀ h hrun⟩) ⟨rfl, rfl⟩
    (.cons rfl (.cons rfl (.cons rfl .nil))) (by simp)

end OgleServer
