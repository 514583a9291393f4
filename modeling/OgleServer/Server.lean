import OgleServer.Dwarf
import OgleServer.Fmt
import Mathlib.Data.List.AList
import Mathlib.Data.List.Permutation

/-!
# Server — the `Server` record, the engine monad and the trace channel

`Server` is the Go struct of `server.go`: the breakpoint map, the process
fields and the file table. What `New` loads once and never changes (the
architecture, the executable's code, its symbol and line tables and its
DWARF) is the `Exe`; the functions of the server that are not in
`server.go` (`lookupSym`, `lookupRE`, `lookupPC`, `entryForPC`,
`evalLocation`) are taken as fields of it.

A handler runs in `Eng`, a state-and-error monad over the server and the
`World`. Its ways of not returning normally are a `GoError`: the handler
returned an error, the Go runtime panicked or threw a fatal error, or the
handler waits forever on the kernel.

The `ptrace*` methods are the trace channel: each is one call to the
kernel, which answers with its next `acks` entry (`traceCall`), and
`wait` takes the next `stops` entry. `Keeps` says what a computation
leaves alone; the `Keeps` lemmas let the handlers' frame facts be
assembled from their parts. The relations it is used with: `Kept` (the
tables), `Quiet` (the tables and the code, the debuggee running only
against that code: `RanOn`), and `Still` (the debuggee did not run). A
`TraceFrame` is a relation that `wait` and every trace call keep: the
loops of `Frames` and the phases of `Resume` are proved to keep all of
them at once.
-/

namespace OgleServer

/-! ## The immutable part -/

/-- `arch.Architecture` (its package is not part of the model's sources;
its constants are whatever `loadExecutable` picked). The fields that
carry proofs are why the slices `BreakpointInstr[:BreakpointSize]` and
`buf[:IntSize]` never panic. -/
structure Architecture where
  breakpointSize : Nat
  /-- `BreakpointInstr`, a `[MaxBreakpointSize]byte`. -/
  breakpointInstr : List UInt8
  /-- `arch.MaxBreakpointSize`. -/
  maxBreakpointSize : Nat
  pointerSize : Nat
  intSize : Nat
  /-- `Architecture.Int`: decode an integer in the target's byte order. -/
  int : List UInt8 → Int
  breakpointSize_le : breakpointSize ≤ maxBreakpointSize
  breakpointInstr_length : breakpointInstr.length = maxBreakpointSize
  intSize_le : intSize ≤ 8

/-- A little-endian two's-complement integer of `bs.length` bytes. -/
def leInt (bs : List UInt8) : Int :=
  let u : Nat := bs.foldr (fun b acc => b.toNat + 256 * acc) 0
  if u < 2 ^ (8 * bs.length - 1) then u else (u : Int) - 2 ^ (8 * bs.length)

/-- An `Architecture` with the x86-64 values: the one-byte `INT 3`
(`0xCC`), 8-byte pointers and ints, little-endian. -/
def amd64 : Architecture where
  breakpointSize := 1
  breakpointInstr := [0xCC, 0, 0, 0]
  maxBreakpointSize := 4
  pointerSize := 8
  intSize := 8
  int := leInt
  breakpointSize_le := by decide
  breakpointInstr_length := rfl
  intSize_le := by decide

/-- The loaded executable: what `New` computes once. -/
structure Exe where
  arch : Architecture
  executable : String
  /-- The executable's code as exec maps it, before any patching. -/
  image : Nat → UInt8
  dwarfData : DwarfData
  /-- `gosym.Table.PCToLine`, absent (`nil`) for Mach-O. -/
  table : Option (BitVec 64 → String × Int × Bool)
  lookupSym : String → Except String (BitVec 64)
  /-- The error `regexp.Compile` gives for a pattern, if any. -/
  compileRE : String → Option String
  lookupRE : String → Except String (List String)
  lookupPC : BitVec 64 → Except String String
  entryForPC : BitVec 64 → Except String Entry
  /-- `dwarf.Data.Type`. -/
  typeOf : Nat → Except String DType
  evalLocation : List UInt8 → Int

/-! ## The server record -/

/-- `breakpoint`: the pc and the original instruction bytes, a
`[MaxBreakpointSize]byte` of which the first `BreakpointSize` are read
from the debuggee. -/
structure Breakpoint where
  pc : BitVec 64
  origInstr : List UInt8
  deriving DecidableEq, Repr

/-- `map[uint64]breakpoint`. -/
abbrev BreakpointTable := AList fun _ : BitVec 64 => Breakpoint

/-- The `os.File` behind a `program.File`: its name and open flag. -/
structure HostFile where
  name : String
  flag : Nat
  deriving DecidableEq, Repr

/-- `file`: one slot of the file table. -/
structure File where
  mode : String
  index : Int
  f : HostFile
  deriving DecidableEq, Repr

/-- `Server`, less what `Exe` holds and the mutex (every handler holds it
for its whole run, so handlers are steps of one state machine). -/
structure Server where
  proc : Option Int
  procIsUp : Bool
  stoppedPid : Int
  stoppedRegs : Regs
  breakpoints : BreakpointTable
  files : List (Option File)

/-- The server `New` returns. -/
def Server.new : Server :=
  ⟨none, false, 0, default, ∅, []⟩

/-- The server and the kernel together. -/
structure Engine where
  srv : Server
  world : World

/-! ## The engine monad -/

/-- How a handler can end other than by returning normally. -/
inductive GoError where
  /-- The handler returned this error. -/
  | error (msg : String)
  /-- The Go runtime panicked. -/
  | panic (msg : String)
  /-- The Go runtime threw `fatal error: msg`, which no `recover` stops. -/
  | fatal (msg : String)
  /-- The handler waits on the kernel forever. -/
  | blocked
  deriving DecidableEq, Repr

/-- A computation of the engine. -/
abbrev Eng := EStateM GoError Engine

/-- The state a computation leaves, however it ends. -/
def stateOf {α : Type} : EStateM.Result GoError Engine α → Engine
  | .ok _ e => e
  | .error _ e => e

@[simp] theorem stateOf_ok {α : Type} (a : α) (e : Engine) : stateOf (.ok a e) = e := rfl

@[simp] theorem stateOf_error {α : Type} (x : GoError) (e : Engine) :
    stateOf (.error x e : EStateM.Result GoError Engine α) = e := rfl

theorem bind_ok {α β : Type} {x : Eng α} {f : α → Eng β} {e e₁ : Engine} {a : α}
    (h : x e = .ok a e₁) : (x >>= f) e = f a e₁ := by
  show EStateM.bind x f e = _
  simp only [EStateM.bind, h]

theorem bind_error {α β : Type} {x : Eng α} {f : α → Eng β} {e e₁ : Engine} {err : GoError}
    (h : x e = .error err e₁) : (x >>= f) e = .error err e₁ := by
  show EStateM.bind x f e = _
  simp only [EStateM.bind, h]

@[simp] theorem pure_apply {α : Type} (a : α) (e : Engine) : (pure a : Eng α) e = .ok a e := rfl

@[simp] theorem throw_apply {α : Type} (x : GoError) (e : Engine) :
    (throw x : Eng α) e = .error x e := rfl

@[simp] theorem throw_bind {α β : Type} (x : GoError) (f : α → Eng β) (e : Engine) :
    (throw x >>= f) e = .error x e := rfl

/-- A computation returned `a`: it ran its first part to some value and
then the rest. -/
theorem bind_eq_ok {α β : Type} {x : Eng α} {f : α → Eng β} {e e' : Engine} {b : β} :
    (x >>= f) e = .ok b e' ↔ ∃ a e₁, x e = .ok a e₁ ∧ f a e₁ = .ok b e' := by
  constructor
  · intro h
    cases hx : x e with
    | ok a e₁ => exact ⟨a, e₁, rfl, by rwa [bind_ok hx] at h⟩
    | error err e₁ => rw [bind_error hx] at h; cases h
  · rintro ⟨a, e₁, hx, hf⟩
    rw [bind_ok hx, hf]

/-- The server record. -/
def getSrv : Eng Server := fun e => .ok e.srv e

/-- Update the server record. -/
def modifySrv (f : Server → Server) : Eng Unit := fun e => .ok () { e with srv := f e.srv }

/-- A Go `return err` / `return fmt.Errorf(...)`. -/
def fail {α : Type} (msg : String) : Eng α := throw (.error msg)

/-- `if err != nil { return fmt.Errorf(pre + "%v", err) }`. -/
def check {α : Type} (pre : String) : Except String α → Eng α
  | .ok a => pure a
  | .error err => fail (pre ++ err)

@[simp] theorem getSrv_apply (e : Engine) : getSrv e = .ok e.srv e := rfl

@[simp] theorem modifySrv_apply (f : Server → Server) (e : Engine) :
    modifySrv f e = .ok () { e with srv := f e.srv } := rfl

@[simp] theorem getSrv_bind {α : Type} (f : Server → Eng α) (e : Engine) :
    (getSrv >>= f) e = f e.srv e := rfl

@[simp] theorem modifySrv_bind {α : Type} (g : Server → Server) (f : Unit → Eng α) (e : Engine) :
    (modifySrv g >>= f) e = f () { e with srv := g e.srv } := rfl

@[simp] theorem fail_apply {α : Type} (msg : String) (e : Engine) :
    (fail msg : Eng α) e = .error (.error msg) e := rfl

@[simp] theorem fail_bind {α β : Type} (msg : String) (f : α → Eng β) (e : Engine) :
    (fail msg >>= f) e = .error (.error msg) e := rfl

@[simp] theorem check_ok {α : Type} (pre : String) (a : α) : check pre (.ok a) = pure a := rfl

@[simp] theorem check_error {α : Type} (pre err : String) :
    check pre (.error err : Except String α) = fail (pre ++ err) := rfl

/-! ## What a computation leaves alone -/

/-- Every run of `x`, however it ends, takes the engine along `R`. -/
def Keeps {α : Type} (R : Engine → Engine → Prop) (x : Eng α) : Prop :=
  ∀ e, R e (stateOf (x e))

section Keeps

variable {R : Engine → Engine → Prop} {α β : Type}

theorem Keeps.pure (hR : Reflexive R) (a : α) : Keeps R (pure a : Eng α) := fun e => hR e

theorem Keeps.throw (hR : Reflexive R) (x : GoError) : Keeps R (throw x : Eng α) :=
  fun e => hR e

theorem Keeps.bind (hR : Transitive R) {x : Eng α} {f : α → Eng β}
    (hx : Keeps R x) (hf : ∀ a, Keeps R (f a)) : Keeps R (x >>= f) := by
  intro e
  have h := hx e
  cases hxe : x e with
  | ok a e₁ => rw [hxe] at h; rw [bind_ok hxe]; exact hR h (hf a e₁)
  | error err e₁ => rw [hxe] at h; rw [bind_error hxe]; exact h

/-- `x` takes the engine along `R₁` and then `f` along `R₂`: the two
together take it along `R`. -/
theorem Keeps.seq {R₁ R₂ : Engine → Engine → Prop} {x : Eng α} {f : α → Eng β}
    (h₁ : ∀ e e', R₁ e e' → R e e') (h₁₂ : ∀ e₁ e₂ e₃, R₁ e₁ e₂ → R₂ e₂ e₃ → R e₁ e₃)
    (hx : Keeps R₁ x) (hf : ∀ a, Keeps R₂ (f a)) : Keeps R (x >>= f) := by
  intro e
  have h := hx e
  cases hxe : x e with
  | ok a e₁ => rw [hxe] at h; rw [bind_ok hxe]; exact h₁₂ _ _ _ h (hf a e₁)
  | error err e₁ => rw [hxe] at h; rw [bind_error hxe]; exact h₁ _ _ h

/-- Whatever the first part of `x >>= f` did, the rest takes the engine
along `R`. -/
theorem Keeps.stateOf_bind (hR : Reflexive R) {x : Eng α} {f : α → Eng β}
    (hf : ∀ a, Keeps R (f a)) (e : Engine) : R (stateOf (x e)) (stateOf ((x >>= f) e)) := by
  cases hx : x e with
  | ok a e₁ => rw [bind_ok hx]; exact hf a e₁
  | error err e₁ => rw [bind_error hx]; exact hR e₁

theorem Keeps.check (hR : Reflexive R) (pre : String) (r : Except String α) :
    Keeps R (OgleServer.check pre r) := by
  cases r
  · exact Keeps.throw hR _
  · exact Keeps.pure hR _

theorem Keeps.getSrv (hR : Reflexive R) : Keeps R getSrv := fun e => hR e

/-- `if c { ... }` followed by `k`. -/
theorem Keeps.guard (hR : Reflexive R) (hT : Transitive R) (c : Prop) [Decidable c] {x : Eng Unit}
    (hx : Keeps R x) {k : Unit → Eng β} (hk : ∀ u, Keeps R (k u)) :
    Keeps R (if c then x >>= k else Pure.pure PUnit.unit >>= k) := by
  split
  · exact Keeps.bind hT hx hk
  · exact Keeps.bind hT (Keeps.pure hR _) hk

end Keeps

/-! ## The trace channel -/

/-- One call through the trace channel. With no traced process the kernel
answers `ESRCH`; otherwise it takes its next answer, and on success `act`
runs on the debuggee, giving the call's result, the debuggee after it
and the runs of the debuggee the call allowed. -/
def traceCall {α : Type} (act : Tracee → α × Tracee × List Exec) : Eng (Except String α) :=
  fun e =>
  match e.world.tracee with
  | none => .ok (.error "no such process") e
  | some t =>
    match e.world.acks with
    | some err :: rest => .ok (.error err) { e with world := { e.world with acks := rest } }
    | acks =>
      .ok (.ok (act t).1)
        { e with world := { e.world with
            acks := acks.tail, tracee := some (act t).2.1, execs := e.world.execs ++ (act t).2.2 } }

section TraceCall

variable {α : Type} {act : Tracee → α × Tracee × List Exec} {e e' : Engine}

/-- A trace call always answers. -/
theorem traceCall_answers (act : Tracee → α × Tracee × List Exec) (e : Engine) :
    ∃ r e', traceCall act e = .ok r e' := by
  unfold traceCall
  split
  · exact ⟨_, _, rfl⟩
  · split
    · exact ⟨_, _, rfl⟩
    · exact ⟨_, _, rfl⟩

/-- A trace call the kernel answers. -/
theorem traceCall_answered (act : Tracee → α × Tracee × List Exec) {t : Tracee}
    (ht : e.world.tracee = some t) (hacks : e.world.acks = []) :
    traceCall act e = .ok (.ok (act t).1) { e with world := { e.world with
      acks := [], tracee := some (act t).2.1, execs := e.world.execs ++ (act t).2.2 } } := by
  simp only [traceCall, ht, hacks]
  rfl

/-- A trace call that succeeded ran `act` on the debuggee. -/
theorem traceCall_ok {a : α} (h : traceCall act e = .ok (.ok a) e') :
    ∃ t, e.world.tracee = some t ∧ a = (act t).1 ∧ e'.srv = e.srv ∧
      e'.world.tracee = some (act t).2.1 ∧ e'.world.execs = e.world.execs ++ (act t).2.2 := by
  unfold traceCall at h
  split at h
  · cases h
  · rename_i t _
    split at h
    · cases h
    · cases h; exact ⟨t, ‹_›, rfl, rfl, rfl, rfl⟩

/-- A trace call that failed changed neither the server nor the debuggee. -/
theorem traceCall_error {err : String} (h : traceCall act e = .ok (.error err) e') :
    e'.srv = e.srv ∧ e'.world.tracee = e.world.tracee ∧ e'.world.execs = e.world.execs := by
  unfold traceCall at h
  split at h
  · cases h; exact ⟨rfl, rfl, rfl⟩
  · split at h
    · cases h; exact ⟨rfl, rfl, rfl⟩
    · cases h

/-- The kernel answers every trace call: the debuggee is there and no call
is refused. -/
def Answers (e : Engine) : Prop :=
  e.world.tracee.isSome ∧ e.world.acks = []

/-- A kernel that answers, answers this call too, and keeps answering. -/
theorem traceCall_of_answers (act : Tracee → α × Tracee × List Exec) (ha : Answers e) :
    ∃ a e', traceCall act e = .ok (.ok a) e' ∧ Answers e' ∧ e'.world.stops = e.world.stops := by
  obtain ⟨t, ht⟩ := Option.isSome_iff_exists.mp ha.1
  exact ⟨_, _, traceCall_answered act ht ha.2, ⟨rfl, rfl⟩, rfl⟩

end TraceCall

/-- `PTRACE_PEEKDATA` through task `_pid`: `n` bytes at `addr`. The tasks
of the debuggee share its memory, so the answer does not depend on which
one is named. -/
def ptracePeek (_pid : Int) (addr : BitVec 64) (n : Nat) : Eng (Except String (List UInt8)) :=
  traceCall fun t => (readMem t.mem addr.toNat n, t, [])

/-- `PTRACE_POKEDATA` through task `_pid`: write `bs` at `addr`. The tasks
still running go on against the new code. -/
def ptracePoke (_pid : Int) (addr : BitVec 64) (bs : List UInt8) : Eng (Except String Unit) :=
  traceCall fun t =>
    let mem := writeMem t.mem addr.toNat bs
    ((), { t with mem := mem }, t.running.map fun pid => ⟨pid, false, mem⟩)

/-- `PTRACE_CONT`: task `pid` runs freely until a `wait` reports it. -/
def ptraceCont (pid : Int) : Eng (Except String Unit) :=
  traceCall fun t => ((), { t with running := pid :: t.running }, [⟨pid, false, t.mem⟩])

/-- `PTRACE_SINGLESTEP`: task `pid` runs one instruction, and is running
until a `wait` reports its trap. -/
def ptraceSingleStep (pid : Int) : Eng (Except String Unit) :=
  traceCall fun t => ((), { t with running := pid :: t.running }, [⟨pid, true, t.mem⟩])

/-- `PTRACE_SETOPTIONS` of task `_pid` (the server sets `TRACECLONE`). -/
def ptraceSetOptions (_pid : Int) : Eng (Except String Unit) :=
  traceCall fun t => ((), t, [])

/-- `PTRACE_GETREGS` of task `pid`. -/
def ptraceGetRegs (pid : Int) : Eng (Except String Regs) :=
  traceCall fun t => (t.regs pid, t, [])

/-- `PTRACE_SETREGS` of task `pid`. -/
def ptraceSetRegs (pid : Int) (r : Regs) : Eng (Except String Unit) :=
  traceCall fun t => ((), { t with regs := Function.update t.regs pid r }, [])

/-- What a report of task `st.pid` tells the server: its registers, and
that it no longer runs. -/
def Tracee.report (t : Tracee) (st : Stop) : Tracee :=
  { t with regs := Function.update t.regs st.pid st.regs, running := t.running.filter (· != st.pid) }

@[simp] theorem Tracee.mem_report (t : Tracee) (st : Stop) : (t.report st).mem = t.mem := rfl

@[simp] theorem Tracee.regs_report (t : Tracee) (st : Stop) :
    (t.report st).regs = Function.update t.regs st.pid st.regs := rfl

/-- `wait4` for task `_pid` (`-1`: any task): the kernel's next report. A
stop records the task's registers; with no report left the call never
returns. -/
def wait (_pid : Int) : Eng (Except String Stop) := fun e =>
  match e.world.stops with
  | [] => .error .blocked e
  | .error err :: rest => .ok (.error err) { e with world := { e.world with stops := rest } }
  | .ok st :: rest =>
    .ok (.ok st) { e with world := { e.world with
      stops := rest, tracee := e.world.tracee.map (·.report st) } }

/-- The runtime's order for one `range` over `m`: the next `shuffles`
answer picks one of the orderings of its entries. -/
def rangeOrder (m : BreakpointTable) : Eng (List (Sigma fun _ : BitVec 64 => Breakpoint)) :=
  fun e =>
  match e.world.shuffles with
  | [] => .ok m.entries e
  | k :: rest =>
    .ok (m.entries.permutations'.getD k m.entries) { e with world := { e.world with shuffles := rest } }

theorem perm_getD_permutations' {α : Type} (l : List α) (k : Nat) :
    (l.permutations'.getD k l).Perm l := by
  rw [List.getD_eq_getElem?_getD]
  cases h : l.permutations'[k]? with
  | none => exact List.Perm.refl l
  | some l' => exact List.mem_permutations'.mp (List.getElem?_mem h)

/-- Whatever the runtime picks, a `range` visits every entry once, and
only the runtime's choices were used up. -/
theorem rangeOrder_ok {m : BreakpointTable} {e e' : Engine} {l}
    (h : rangeOrder m e = .ok l e') :
    l.Perm m.entries ∧ e' = { e with world := { e.world with shuffles := e.world.shuffles.tail } } := by
  unfold rangeOrder at h
  cases hs : e.world.shuffles with
  | nil =>
    rw [hs] at h
    cases h
    refine ⟨List.Perm.refl _, ?_⟩
    rw [List.tail_nil, ← hs]
  | cons k rest => rw [hs] at h; cases h; exact ⟨perm_getD_permutations' _ k, rfl⟩

/-- A trace call, whatever its answer, consumes no kernel report. -/
theorem traceCall_stops {α : Type} {act : Tracee → α × Tracee × List Exec} {e e' : Engine}
    {r : Except String α} (h : traceCall act e = .ok r e') : e'.world.stops = e.world.stops := by
  unfold traceCall at h
  split at h
  · cases h; rfl
  · split at h <;> (cases h; rfl)

/-- What one `wait` did: it took the first report and, for a stop, recorded
the task's registers. -/
theorem wait_ok {pid : Int} {e e' : Engine} {r : Except String Stop} (h : wait pid e = .ok r e') :
    e.world.stops = r :: e'.world.stops ∧ e'.srv = e.srv ∧ e'.world.execs = e.world.execs ∧
      e'.world.tracee = match r with
        | .ok st => e.world.tracee.map (·.report st)
        | .error _ => e.world.tracee := by
  unfold wait at h
  split at h
  · cases h
  · cases h; rename_i hs; exact ⟨hs, rfl, rfl, rfl⟩
  · cases h; rename_i hs; exact ⟨hs, rfl, rfl, rfl⟩

/-! ## Steps that leave the tables alone -/

/-- Neither table of the server changed; the kernel's reports were only
consumed and the record of the debuggee's runs only added to. -/
structure Kept (e e' : Engine) : Prop where
  breakpoints : e'.srv.breakpoints = e.srv.breakpoints
  files : e'.srv.files = e.srv.files
  execs : e.world.execs <+: e'.world.execs
  stops : e'.world.stops <:+ e.world.stops

/-- The debuggee did not run. -/
def Still (e e' : Engine) : Prop :=
  e'.world.execs = e.world.execs

/-- Whatever the debuggee ran between `e` and `e'`, it ran against its code
of `e`. -/
def RanOn (e e' : Engine) : Prop :=
  ∃ new, e'.world.execs = e.world.execs ++ new ∧
    ∀ x ∈ new, e.world.tracee.map Tracee.mem = some x.mem

/-- `Kept`, and the debuggee's code is as it was too; whatever the
debuggee ran in between, it ran against that code. -/
structure Quiet (e e' : Engine) extends Kept e e' : Prop where
  code : e'.world.tracee.map Tracee.mem = e.world.tracee.map Tracee.mem
  runs : RanOn e e'

/-- No task of the debuggee runs: the kernel has reported every task the
server let run. -/
def Idle (e : Engine) : Prop :=
  ∀ t ∈ e.world.tracee, t.running = []

instance (e : Engine) : Decidable (Idle e) :=
  inferInstanceAs (Decidable (∀ t ∈ e.world.tracee, t.running = []))

/-- From a state where no task runs, none runs after, and the debuggee did
not run. -/
def Calm (e e' : Engine) : Prop :=
  Idle e → Idle e' ∧ Still e e'

theorem Kept.refl : Reflexive Kept := fun _ =>
  ⟨rfl, rfl, List.prefix_refl _, List.suffix_refl _⟩

theorem Kept.trans : Transitive Kept := fun _ _ _ h₁ h₂ =>
  ⟨h₂.breakpoints.trans h₁.breakpoints, h₂.files.trans h₁.files, h₁.execs.trans h₂.execs,
    h₂.stops.trans h₁.stops⟩

theorem Still.refl : Reflexive Still := fun _ => rfl

theorem Still.trans : Transitive Still := fun _ _ _ h₁ h₂ => Eq.trans h₂ h₁

theorem RanOn.of_still {e e' : Engine} (h : Still e e') : RanOn e e' :=
  ⟨[], by rw [h, List.append_nil], fun _ h => absurd h (List.not_mem_nil _)⟩

theorem RanOn.refl : Reflexive RanOn := fun e => RanOn.of_still (Still.refl e)

/-- Runs against the same code compose. -/
theorem RanOn.trans {e₁ e₂ e₃ : Engine} (h₁ : RanOn e₁ e₂)
    (hcode : e₂.world.tracee.map Tracee.mem = e₁.world.tracee.map Tracee.mem) (h₂ : RanOn e₂ e₃) :
    RanOn e₁ e₃ :=
  let ⟨new₁, hx₁, hn₁⟩ := h₁
  let ⟨new₂, hx₂, hn₂⟩ := h₂
  ⟨new₁ ++ new₂, by rw [hx₂, hx₁, List.append_assoc],
    fun x hx => (List.mem_append.mp hx).elim (hn₁ x) fun h => hcode.symm.trans (hn₂ x h)⟩

theorem RanOn.still {e₁ e₂ e₃ : Engine} (h₁ : RanOn e₁ e₂) (h₂ : Still e₂ e₃) : RanOn e₁ e₃ :=
  let ⟨new, hx, hn⟩ := h₁
  ⟨new, Eq.trans h₂ hx, hn⟩

theorem Calm.refl : Reflexive Calm := fun _ h => ⟨h, rfl⟩

theorem Calm.trans : Transitive Calm := fun _ _ _ h₁ h₂ h =>
  let ⟨h', hs₁⟩ := h₁ h
  let ⟨h'', hs₂⟩ := h₂ h'
  ⟨h'', Still.trans hs₁ hs₂⟩

theorem Quiet.refl : Reflexive Quiet := fun e => ⟨Kept.refl e, rfl, RanOn.refl e⟩

theorem Quiet.trans : Transitive Quiet := fun _ _ _ h₁ h₂ =>
  ⟨Kept.trans h₁.toKept h₂.toKept, h₂.code.trans h₁.code, h₁.runs.trans h₁.code h₂.runs⟩

theorem Keeps.mono {R R' : Engine → Engine → Prop} {α : Type} {x : Eng α}
    (hR : ∀ e e', R e e' → R' e e') (h : Keeps R x) : Keeps R' x :=
  fun e => hR _ _ (h e)

/-- A trace call that leaves the code alone, and lets the debuggee run
only against it, is quiet. -/
theorem traceCall_quiet {α : Type} (act : Tracee → α × Tracee × List Exec)
    (hact : ∀ t, (act t).2.1.mem = t.mem ∧ ∀ x ∈ (act t).2.2, x.mem = t.mem) :
    Keeps Quiet (traceCall act) := by
  intro e
  obtain ⟨r, e', h⟩ := traceCall_answers act e
  rw [h, stateOf_ok]
  have hstops : e'.world.stops <:+ e.world.stops := by rw [traceCall_stops h]
  cases r with
  | error err =>
    obtain ⟨hs, ht, hx⟩ := traceCall_error h
    exact ⟨⟨by rw [hs], by rw [hs], by rw [hx], hstops⟩, by rw [ht], RanOn.of_still hx⟩
  | ok a =>
    obtain ⟨t, ht, -, hs, ht', hx⟩ := traceCall_ok h
    exact ⟨⟨by rw [hs], by rw [hs], by rw [hx]; exact List.prefix_append _ _, hstops⟩,
      by rw [ht', ht]; simp [hact], _, hx, fun x hx => by simp [ht, (hact t).2 x hx]⟩

/-- A trace call that lets the debuggee run nowhere keeps it still. -/
theorem traceCall_still {α : Type} (act : Tracee → α × Tracee × List Exec)
    (hact : ∀ t, (act t).2.2 = []) : Keeps Still (traceCall act) := by
  intro e
  obtain ⟨r, e', h⟩ := traceCall_answers act e
  rw [h, stateOf_ok]
  cases r with
  | error err => exact (traceCall_error h).2.2
  | ok a =>
    obtain ⟨t, -, -, -, -, hx⟩ := traceCall_ok h
    rw [Still, hx, hact, List.append_nil]

/-- A trace call that lets no task run, from a state where none runs, is
calm. -/
theorem traceCall_calm {α : Type} (act : Tracee → α × Tracee × List Exec)
    (hact : ∀ t, t.running = [] → (act t).2.1.running = [] ∧ (act t).2.2 = []) :
    Keeps Calm (traceCall act) := by
  intro e hidle
  obtain ⟨r, e', h⟩ := traceCall_answers act e
  rw [h, stateOf_ok]
  cases r with
  | error err =>
    obtain ⟨-, ht, hx⟩ := traceCall_error h
    exact ⟨fun t h' => hidle t (ht ▸ h'), hx⟩
  | ok a =>
    obtain ⟨t, ht, -, -, ht', hx⟩ := traceCall_ok h
    have hact' := hact t (hidle t ht)
    refine ⟨fun t' h' => ?_, by rw [Still, hx, hact'.2, List.append_nil]⟩
    rw [ht', Option.mem_some_iff] at h'
    exact h' ▸ hact'.1

theorem ptracePeek_quiet (pid : Int) (addr : BitVec 64) (n : Nat) :
    Keeps Quiet (ptracePeek pid addr n) :=
  traceCall_quiet _ fun _ => ⟨rfl, by simp⟩

theorem ptraceCont_quiet (pid : Int) : Keeps Quiet (ptraceCont pid) :=
  traceCall_quiet _ fun _ => ⟨rfl, by simp⟩

theorem ptraceSingleStep_quiet (pid : Int) : Keeps Quiet (ptraceSingleStep pid) :=
  traceCall_quiet _ fun _ => ⟨rfl, by simp⟩

theorem ptraceSetOptions_quiet (pid : Int) : Keeps Quiet (ptraceSetOptions pid) :=
  traceCall_quiet _ fun _ => ⟨rfl, by simp⟩

theorem ptraceGetRegs_quiet (pid : Int) : Keeps Quiet (ptraceGetRegs pid) :=
  traceCall_quiet _ fun _ => ⟨rfl, by simp⟩

theorem ptraceSetRegs_quiet (pid : Int) (r : Regs) : Keeps Quiet (ptraceSetRegs pid r) :=
  traceCall_quiet _ fun _ => ⟨rfl, by simp⟩

/-- Every trace call keeps the tables. -/
theorem traceCall_kept {α : Type} (act : Tracee → α × Tracee × List Exec) :
    Keeps Kept (traceCall act) := by
  intro e
  obtain ⟨r, e', h⟩ := traceCall_answers act e
  rw [h, stateOf_ok]
  have hstops : e'.world.stops <:+ e.world.stops := by rw [traceCall_stops h]
  cases r with
  | error err =>
    obtain ⟨hs, -, hx⟩ := traceCall_error h
    exact ⟨by rw [hs], by rw [hs], by rw [hx], hstops⟩
  | ok a =>
    obtain ⟨t, -, -, hs, -, hx⟩ := traceCall_ok h
    exact ⟨by rw [hs], by rw [hs], by rw [hx]; exact List.prefix_append _ _, hstops⟩

theorem wait_quiet (pid : Int) : Keeps Quiet (wait pid) := by
  intro e
  cases h : wait pid e with
  | error err e' =>
    unfold wait at h
    split at h <;> cases h
    exact Quiet.refl e
  | ok r e' =>
    obtain ⟨hs, hsrv, hx, ht⟩ := wait_ok h
    refine ⟨⟨by rw [stateOf_ok, hsrv], by rw [stateOf_ok, hsrv], by rw [stateOf_ok, hx],
      by rw [stateOf_ok, hs]; exact List.suffix_cons _ _⟩, ?_, RanOn.of_still hx⟩
    rw [stateOf_ok, ht]
    cases r <;> simp [Option.map_map, Function.comp_def]

theorem rangeOrder_quiet (m : BreakpointTable) : Keeps Quiet (rangeOrder m) := by
  intro e
  unfold rangeOrder
  split
  · exact Quiet.refl e
  · exact ⟨⟨rfl, rfl, List.prefix_refl _, List.suffix_refl _⟩, rfl, RanOn.of_still rfl⟩

theorem rangeOrder_still (m : BreakpointTable) : Keeps Still (rangeOrder m) := by
  intro e
  unfold rangeOrder
  split <;> rfl

theorem modifySrv_quiet (f : Server → Server)
    (hf : ∀ s, (f s).breakpoints = s.breakpoints ∧ (f s).files = s.files) :
    Keeps Quiet (modifySrv f) := fun e =>
  ⟨⟨(hf e.srv).1, (hf e.srv).2, List.prefix_refl _, List.suffix_refl _⟩, rfl, RanOn.of_still rfl⟩

/-! ## Relations every trace call keeps -/

/-- A relation between engines that `wait` and every trace call keep. The
loops of `Frames` and the phases of `Resume` keep every such relation,
each proved once (`TraceFrame.frames_keeps`, `TraceFrame.runToTrap_keeps`,
...); `Quiet` is one of them. -/
structure TraceFrame (R : Engine → Engine → Prop) : Prop where
  refl : Reflexive R
  trans : Transitive R
  wait_keeps : ∀ pid, Keeps R (wait pid)
  peek_keeps : ∀ pid addr n, Keeps R (ptracePeek pid addr n)
  cont_keeps : ∀ pid, Keeps R (ptraceCont pid)
  singleStep_keeps : ∀ pid, Keeps R (ptraceSingleStep pid)
  setOptions_keeps : ∀ pid, Keeps R (ptraceSetOptions pid)
  getRegs_keeps : ∀ pid, Keeps R (ptraceGetRegs pid)
  setRegs_keeps : ∀ pid r, Keeps R (ptraceSetRegs pid r)

theorem quietFrame : TraceFrame Quiet :=
  ⟨Quiet.refl, Quiet.trans, wait_quiet, ptracePeek_quiet, ptraceCont_quiet, ptraceSingleStep_quiet,
    ptraceSetOptions_quiet, ptraceGetRegs_quiet, ptraceSetRegs_quiet⟩

end OgleServer
