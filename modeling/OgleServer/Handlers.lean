import OgleServer.Resume
import OgleServer.Frames
import OgleServer.Files

/-!
# Handlers — the server as a state machine

Each exported method of `Server` takes `s.mu` for its whole run, so the
server is a state machine whose steps are whole handler calls: `handle`
runs one request. A call that panics takes the server down and one that
blocks never releases the mutex, so the steps are the calls that return,
with a result or an error (`serve`). A `Run` is a sequence of steps from
some state, labelled with the requests and their answers; since the
kernel's answers are part of the state, a statement about every run from
every state is one about every behaviour of the kernel.

What one step can do is said once, in `serve_step`, for each part of the
state (`Step`):

* the breakpoint table only gains entries, each keyed by its pc and
  holding the debuggee's bytes there (`Grows`);
* the file table takes a `FileStep`;
* the debuggee's code is kept, dropped, replaced by a fresh copy of the
  executable's, or — by a `Resume` that returned — patched and restored
  (`CodeStep`).

The run theorems of `Invariants` are inductions over `serve_step`.
-/

namespace OgleServer

/-- The `proxyrpc` requests, one per handler. -/
inductive Request where
  | open_ (name mode : String)
  | readAt (fd len offset : Int)
  | close (fd : Int)
  | run
  | resume
  | breakpoint (address : String)
  | eval (expr : String)
  | frames (count : Int)
  deriving DecidableEq, Repr

/-- The `proxyrpc` responses, with the fields the handlers fill. -/
inductive Response where
  | open_
  | readAt (data : List UInt8)
  | close
  | run
  | resume (status : Status)
  | breakpoint
  | eval (result : List String)
  | frames (frames : List Frame)
  deriving DecidableEq, Repr

/-- The handler of a request. -/
def handle (exe : Exe) : Request → Eng Response
  | .open_ name mode => do open_ name mode; pure .open_
  | .readAt fd len offset => do let data ← readAt fd len offset; pure (.readAt data)
  | .close fd => do close fd; pure .close
  | .run => do run exe; pure .run
  | .resume => do let status ← resume exe; pure (.resume status)
  | .breakpoint address => do breakpoint exe address; pure .breakpoint
  | .eval expr => do let result ← check "" (eval exe expr); pure (.eval result)
  | .frames count => do let frames ← frames exe count; pure (.frames frames)

/-- A handler call that returned: its answer and the state after it. -/
def serve (exe : Exe) (req : Request) (e : Engine) : Option (Except String Response × Engine) :=
  match handle exe req e with
  | .ok r e' => some (.ok r, e')
  | .error (.error msg) e' => some (.error msg, e')
  | .error _ _ => none

/-- The server `New` returns, before any process was started. -/
def Initial (e : Engine) : Prop :=
  e.srv = Server.new ∧ e.world.tracee = none

/-- The runs from `e₀`: the requests served, each with its answer, and the
state they lead to. -/
inductive Run (exe : Exe) (e₀ : Engine) : List (Request × Except String Response) → Engine → Prop
  | nil : Run exe e₀ [] e₀
  | step {tr : List (Request × Except String Response)} {e e' : Engine} {req : Request}
      {out : Except String Response} :
      Run exe e₀ tr e → serve exe req e = some (out, e') → Run exe e₀ (tr ++ [(req, out)]) e'

theorem serve_handle {exe : Exe} {req : Request} {e e' : Engine} {out : Except String Response}
    (h : serve exe req e = some (out, e')) : stateOf (handle exe req e) = e' := by
  unfold serve at h
  split at h
  · rename_i hh; cases h; rw [hh, stateOf_ok]
  · rename_i hh; cases h; rw [hh, stateOf_error]
  · cases h

/-- A run that ends with a step. -/
theorem Run.single {exe : Exe} {e e' : Engine} {req : Request} {out : Except String Response}
    (h : serve exe req e = some (out, e')) : Run exe e [(req, out)] e' :=
  .step .nil h

/-- Runs compose. -/
theorem Run.append {exe : Exe} {e₀ e₁ e : Engine} {tr₁ tr₂ : List (Request × Except String Response)}
    (h₁ : Run exe e₀ tr₁ e₁) (h₂ : Run exe e₁ tr₂ e) : Run exe e₀ (tr₁ ++ tr₂) e := by
  induction h₂ with
  | nil => rwa [List.append_nil]
  | step _ hs ih => rw [← List.append_assoc]; exact .step ih hs

/-- A run that starts with a step. -/
theorem Run.head {exe : Exe} {e e₁ e' : Engine} {req : Request} {out : Except String Response}
    {tr : List (Request × Except String Response)} (h : serve exe req e = some (out, e₁))
    (hrun : Run exe e₁ tr e') : Run exe e ((req, out) :: tr) e' :=
  Run.append (Run.single h) hrun

/-- A run that starts with a step, the state after it named by the
handler call, so that a concrete run is checked one request at a time. -/
theorem Run.cons {exe : Exe} {e e' : Engine} {req : Request} {out : Except String Response}
    {tr : List (Request × Except String Response)}
    (h : serve exe req e = some (out, stateOf (handle exe req e)))
    (hrun : Run exe (stateOf (handle exe req e)) tr e') : Run exe e ((req, out) :: tr) e' :=
  Run.head h hrun

section BindPure

/-! Every handler is `x >>= fun a => pure (f a)`: it is a step exactly
when `x` returns or fails with an error, and it answers accordingly. -/

variable {exe : Exe} {req : Request} {e e' : Engine} {α : Type} {x : Eng α} {f : α → Response}

theorem serve_bind_ok {a : α} (hx : x e = .ok a e') (hh : handle exe req = x >>= fun a => pure (f a)) :
    serve exe req e = some (.ok (f a), e') := by
  rw [serve, hh, bind_ok hx]
  rfl

theorem serve_bind_error {msg : String} (hx : x e = .error (.error msg) e')
    (hh : handle exe req = x >>= fun a => pure (f a)) : serve exe req e = some (.error msg, e') := by
  rw [serve, hh, bind_error hx]

theorem serve_cases {out : Except String Response} (hh : handle exe req = x >>= fun a => pure (f a))
    (h : serve exe req e = some (out, e')) :
    (∃ a, x e = .ok a e' ∧ out = .ok (f a)) ∨ (∃ msg, x e = .error (.error msg) e' ∧ out = .error msg) := by
  unfold serve at h
  rw [hh] at h
  cases hx : x e with
  | ok a e₁ =>
    rw [bind_ok hx] at h
    cases h
    exact .inl ⟨a, rfl, rfl⟩
  | error err e₁ =>
    rw [bind_error hx] at h
    cases err with
    | error msg => cases h; exact .inr ⟨msg, rfl, rfl⟩
    | panic _ => cases h
    | fatal _ => cases h
    | blocked => cases h

end BindPure

theorem stateOf_bind_pure {α β : Type} (x : Eng α) (f : α → β) (e : Engine) :
    stateOf ((x >>= fun a => pure (f a)) e) = stateOf (x e) := by
  cases h : x e with
  | ok a e' => rw [bind_ok h]; rfl
  | error err e' => rw [bind_error h]; rfl

theorem stateOf_check {α : Type} (pre : String) (r : Except String α) (e : Engine) :
    stateOf (check pre r e) = e := by
  cases r <;> rfl

/-! ## The breakpoint table -/

/-- The table of `e'` is that of `e` with entries added, each keyed by its
pc and holding the bytes the debuggee of `e` had there. -/
structure Grows (exe : Exe) (e e' : Engine) : Prop where
  keep : ∀ pc bp, e.srv.breakpoints.lookup pc = some bp → e'.srv.breakpoints.lookup pc = some bp
  new : ∀ pc bp, e'.srv.breakpoints.lookup pc = some bp → e.srv.breakpoints.lookup pc = none →
    bp.pc = pc ∧ ∃ t, e.world.tracee = some t ∧
      bp.origInstr = origInstrOf exe (readMem t.mem pc.toNat exe.arch.breakpointSize)

theorem Grows.of_eq {exe : Exe} {e e' : Engine} (h : e'.srv.breakpoints = e.srv.breakpoints) :
    Grows exe e e' :=
  ⟨fun _ _ h' => h ▸ h', fun _ _ h₁ h₂ => by rw [h, h₂] at h₁; cases h₁⟩

theorem Adds.grows {exe : Exe} {e e' : Engine} (h : Adds exe e e') : Grows exe e e' :=
  ⟨h.keep, h.new⟩

/-! ## The debuggee's code -/

/-- A step of the debuggee's code (`none` when there is no debuggee): kept,
dropped, a fresh copy of the executable's, or the breakpoints of `table`
patched in and taken out again, the two loops visiting the table in any
orders. -/
inductive CodeStep (exe : Exe) (table : BreakpointTable) :
    Option (Nat → UInt8) → Option (Nat → UInt8) → Prop
  | same (c : Option (Nat → UInt8)) : CodeStep exe table c c
  | gone (c : Option (Nat → UInt8)) : CodeStep exe table c none
  | fresh (c : Option (Nat → UInt8)) : CodeStep exe table c (some exe.image)
  | resumed (c : Option (Nat → UInt8)) (l₁ l₂ : List (Sigma fun _ : BitVec 64 => Breakpoint)) :
      l₁.Perm table.entries → l₂.Perm table.entries →
      CodeStep exe table c (c.map fun m => writeAll (writeAll m (fun _ => trapBytes exe) l₁)
        (fun bp => bp.origInstr.take exe.arch.breakpointSize) l₂)

theorem CodeStep.of_tracee {exe : Exe} {e e' : Engine} (h : e'.world.tracee = e.world.tracee) :
    CodeStep exe e.srv.breakpoints (e.world.tracee.map Tracee.mem) (e'.world.tracee.map Tracee.mem) :=
  h ▸ .same _

/-! ## One step -/

/-- What one step can do to each part of the state; `ok` says the step is
not a `Resume` that failed. -/
structure Step (exe : Exe) (e e' : Engine) (ok : Prop) : Prop where
  grows : Grows exe e e'
  files : FileStep e.srv.files e'.srv.files
  code : ok → CodeStep exe e.srv.breakpoints (e.world.tracee.map Tracee.mem) (e'.world.tracee.map Tracee.mem)

/-- A step that keeps the tables and the debuggee. -/
theorem Step.of_kept {exe : Exe} {e e' : Engine} {ok : Prop} (h : Kept e e')
    (ht : e'.world.tracee = e.world.tracee) : Step exe e e' ok :=
  ⟨Grows.of_eq h.breakpoints, h.files ▸ .same _, fun _ => CodeStep.of_tracee ht⟩

/-- A step that only changed the file table and the kernel's answers. -/
theorem Step.of_host {exe : Exe} {e : Engine} {ok : Prop} {files : List (Option File)}
    {acks : List (Option String)} (hfiles : FileStep e.srv.files files) :
    Step exe e ⟨{ e.srv with files := files }, { e.world with acks := acks }⟩ ok :=
  ⟨Grows.of_eq rfl, hfiles, fun _ => .same _⟩

/-- **What one step does**, whatever the request and however it ends. -/
theorem serve_step {exe : Exe} {req : Request} {e e' : Engine} {out : Except String Response}
    (h : serve exe req e = some (out, e')) : Step exe e e' (∀ msg, (req, out) ≠ (.resume, .error msg)) := by
  have hstate := serve_handle h
  cases req with
  | open_ name mode =>
    obtain ⟨files, acks, hfiles, h'⟩ := open__step name mode e
    rw [handle, stateOf_bind_pure, h'] at hstate
    exact hstate ▸ Step.of_host hfiles
  | readAt fd len offset =>
    obtain ⟨acks, h'⟩ := readAt_hostOnly fd len offset e
    rw [handle, stateOf_bind_pure, h'] at hstate
    exact hstate ▸ Step.of_host (.same _)
  | close fd =>
    obtain ⟨files, acks, hfiles, h'⟩ := close_step fd e
    rw [handle, stateOf_bind_pure, h'] at hstate
    exact hstate ▸ Step.of_host hfiles
  | run =>
    rw [handle, stateOf_bind_pure] at hstate
    subst hstate
    refine ⟨Grows.of_eq (run_kept exe e).breakpoints, (run_kept exe e).files ▸ .same _, fun _ => ?_⟩
    rcases run_respawn exe e with ht | ht | ⟨regs, ht⟩
    · exact CodeStep.of_tracee ht
    · rw [ht]; exact .gone _
    · rw [ht]; exact .fresh _
  | resume =>
    rw [handle, stateOf_bind_pure] at hstate
    refine ⟨Grows.of_eq (hstate ▸ (resume_kept exe e).breakpoints),
      hstate ▸ (resume_kept exe e).files ▸ .same _, fun hres => ?_⟩
    unfold serve at h
    split at h
    · rename_i r e₁ hh
      cases h
      obtain ⟨st, e₂, hr, hp⟩ := bind_eq_ok.mp hh
      cases hp
      obtain ⟨l₁, l₂, hp₁, hp₂, hcode⟩ := resume_code hr
      rw [hcode]
      exact .resumed _ l₁ l₂ hp₁ hp₂
    · cases h; exact absurd rfl (hres _)
    · cases h
  | breakpoint address =>
    rw [handle, stateOf_bind_pure] at hstate
    subst hstate
    have hadds := breakpoint_adds exe address e
    exact ⟨hadds.grows, by rw [hadds.srv]; exact .same _, fun _ => CodeStep.of_tracee hadds.tracee⟩
  | eval expr =>
    rw [handle, stateOf_bind_pure, stateOf_check] at hstate
    exact hstate ▸ Step.of_kept (Kept.refl e) rfl
  | frames count =>
    rw [handle, stateOf_bind_pure] at hstate
    subst hstate
    have hq := frames_quiet exe count e
    exact ⟨Grows.of_eq hq.breakpoints, hq.files ▸ .same _, fun _ => hq.code ▸ .same _⟩

end OgleServer
