import Mathlib.Data.List.Basic

/-!
# Kernel — the trace facility and the debuggee, seen from the server

The traced process and the kernel's answers to `ptrace` and `wait4`, with
the runtime's order for each `range` over a map, as lists the engine
consumes (`acks`, `stops`, `shuffles`): a statement over every list covers
every behaviour of the kernel. Memory changes only through
`PTRACE_POKEDATA`; a task let run runs until a `wait` reports it, and
`execs` records the code it runs against.
-/

namespace OgleServer

/-- The fields of `syscall.PtraceRegs` the server reads: `Rip` and `Rsp`. -/
structure Regs where
  rip : BitVec 64
  rsp : BitVec 64
  deriving DecidableEq, Repr, Inhabited

/-- A `syscall.WaitStatus`; `cause` is the ptrace event of a stop, or `0`. -/
inductive WaitStatus where
  | exited (code : Nat)
  | signaled (sig : Nat)
  | stopped (sig : Nat) (cause : Nat)
  deriving DecidableEq, Repr

def SIGTRAP : Int := 5

def PTRACE_EVENT_CLONE : Int := 3

/-- `WaitStatus.StopSignal`: the signal of a stop, `-1` otherwise. -/
def WaitStatus.stopSignal : WaitStatus → Int
  | .stopped sig _ => sig
  | _ => -1

/-- `WaitStatus.TrapCause`: the ptrace event of a `SIGTRAP` stop, else `-1`. -/
def WaitStatus.trapCause : WaitStatus → Int
  | .stopped sig cause => if (sig : Int) = SIGTRAP then cause else -1
  | _ => -1

/-- What one `wait` reports: the task, its status and its registers. -/
structure Stop where
  pid : Int
  status : WaitStatus
  regs : Regs
  deriving DecidableEq, Repr

/-- The traced process: its code, each task's registers, and the tasks let
run that no `wait` has reported since. -/
structure Tracee where
  mem : Nat → UInt8
  regs : Int → Regs
  running : List Int

/-- A task let run (`single`: for one instruction) against this code. -/
structure Exec where
  pid : Int
  single : Bool
  mem : Nat → UInt8

/-- The kernel and the host, with the answers they will give. -/
structure World where
  tracee : Option Tracee
  /-- The pid the next fork gets. -/
  nextPid : Int
  /-- Each call's answer in order, `some` errno text for a failure; then calls succeed. -/
  acks : List (Option String)
  /-- The answer to each `wait`, in order; then a `wait` blocks forever. -/
  stops : List (Except String Stop)
  /-- The runtime's choice of order for each `range` over a map. -/
  shuffles : List Nat
  disk : String → List UInt8
  /-- Every version of the code a task ran against, oldest first. -/
  execs : List Exec
  /-- The largest buffer the Go runtime can have the host map. -/
  mapLimit : Nat

/-- Before any process is started: every call succeeds, no file exists,
and buffers of up to `2^32` bytes can be mapped. -/
def World.start (stops : List (Except String Stop)) : World :=
  ⟨none, 1, [], stops, [], fun _ => [], [], 0x100000000⟩

/-! ## Code memory -/

/-- `n` bytes of `mem` from address `a` (what `PTRACE_PEEKDATA` reads). -/
def readMem (mem : Nat → UInt8) (a n : Nat) : List UInt8 :=
  (List.range n).map fun i => mem (a + i)

/-- `mem` with `bs` written from address `a` (what `PTRACE_POKEDATA` does). -/
def writeMem (mem : Nat → UInt8) (a : Nat) (bs : List UInt8) : Nat → UInt8 :=
  fun x => if a ≤ x ∧ x - a < bs.length then bs.getD (x - a) 0 else mem x

@[simp] theorem length_readMem (mem : Nat → UInt8) (a n : Nat) :
    (readMem mem a n).length = n := by
  simp [readMem]

theorem writeMem_of_not_mem {mem : Nat → UInt8} {a x : Nat} {bs : List UInt8}
    (h : ¬ (a ≤ x ∧ x < a + bs.length)) : writeMem mem a bs x = mem x := by
  simp only [writeMem]
  rw [if_neg (by omega)]

theorem writeMem_of_mem {mem : Nat → UInt8} {a x : Nat} {bs : List UInt8}
    (h : a ≤ x ∧ x < a + bs.length) : writeMem mem a bs x = bs.getD (x - a) 0 := by
  simp only [writeMem]
  rw [if_pos (by omega)]

theorem readMem_congr {m m' : Nat → UInt8} {a n : Nat}
    (h : ∀ i < n, m (a + i) = m' (a + i)) : readMem m a n = readMem m' a n := by
  simp only [readMem, List.map_inj_left, List.mem_range]
  exact h

theorem readMem_eq_iff {m : Nat → UInt8} {a : Nat} {bs : List UInt8} :
    readMem m a bs.length = bs ↔ ∀ i < bs.length, m (a + i) = bs.getD i 0 := by
  constructor
  · intro h i hi
    rw [← h]
    simp [readMem, hi]
  · intro h
    apply List.ext_getElem (by simp)
    intro i h1 h2
    simp only [readMem, List.getElem_map, List.getElem_range]
    simp [h i h2, h2]

theorem readMem_writeMem_self (m : Nat → UInt8) (a : Nat) (bs : List UInt8) :
    readMem (writeMem m a bs) a bs.length = bs :=
  readMem_eq_iff.mpr fun i hi => by
    rw [writeMem_of_mem (by omega), Nat.add_sub_cancel_left]

theorem writeMem_readMem {m img : Nat → UInt8} {a n x : Nat} (h : a ≤ x ∧ x < a + n) :
    writeMem m a (readMem img a n) x = img x := by
  rw [writeMem_of_mem (by simpa using h)]
  simp [readMem, List.getD_eq_getElem?_getD, (by omega : x - a < n), Nat.add_sub_cancel' h.1]

end OgleServer
