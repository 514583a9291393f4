import OgleServer.Server

/-!
# Files — `Open`, `ReadAt` and `Close`

The file table is `s.files`, a slice indexed by descriptor whose empty
slots are reused: `Open` takes the lowest empty slot, or appends when
there is none; `Close` empties its slot, even when the host close fails.

`file_table_slots` states this slot rule for every table, read off the
code with no invariant assumed, together with the paths that leave the
table alone: a refused `Open`, every `ReadAt`, a refused `Close`.

The module also proves what every file-table step does to the table
(`FileStep`), as the facts the run theorem of `Invariants` assembles:

* `Indexed` (every full slot `i` holds a file whose `index` is `i`) is
  kept by every step;
* `Open` grows the table only when every slot is full, so the table's
  length stays the most files ever open at once.

`ReadAt` allocates its buffer with `make([]byte, req.Len)`, which the Go
runtime refuses for a negative length by panicking, and ends the process
with a fatal error when the host cannot map it. The host may fail each
`pread`; when it answers, `ReadAt` of a file open for reading gives the
file's bytes only when the file holds all `len` of them, and otherwise
returns `EOF`, the error of the short `(*os.File).ReadAt`, in place of the
bytes it read (`readAt_of_slot`).
-/

namespace OgleServer

/-! ## The host side -/

/-- `O_RDONLY`, `O_WRONLY`, `O_RDWR`. -/
def O_RDONLY : Nat := 0

/-- `O_WRONLY`. -/
def O_WRONLY : Nat := 1

/-- `O_RDWR`. -/
def O_RDWR : Nat := 2

/-- A call to the host: its next `acks` answer (the errno of a failure). -/
def hostCall : Eng (Except String Unit) := fun e =>
  match e.world.acks with
  | some err :: rest => .ok (.error err) { e with world := { e.world with acks := rest } }
  | acks => .ok (.ok ()) { e with world := { e.world with acks := acks.tail } }

/-- `os.OpenFile(name, flag, 0)`. -/
def osOpenFile (name : String) (flag : Nat) : Eng (Except String HostFile) := do
  match ← hostCall with
  | .ok () => pure (.ok ⟨name, flag⟩)
  | .error err => pure (.error ("open " ++ name ++ ": " ++ err))

/-- `pread(2)` of up to `len` bytes at `off`: the host's answer (its errno
on failure), then the bytes the file has there. -/
def pread (f : HostFile) (len off : Nat) : Eng (Except String (List UInt8)) := do
  match ← hostCall with
  | .error err => pure (.error err)
  | .ok () => fun e => .ok (.ok (((e.world.disk f.name).drop off).take len)) e

/-- `(*os.File).ReadAt(buf, off)` for a `buf` of `len` bytes: the bytes
read and the error. It calls `pread` until the buffer is full, a call
fails, or a call reads nothing, which is `EOF`. The file does not change
while it is read, so a short read takes exactly one more call, which reads
nothing. -/
def osReadAt (f : HostFile) (len : Nat) (off : Int) : Eng (List UInt8 × Option String) :=
  if off < 0 then pure ([], some ("readat " ++ f.name ++ ": negative offset"))
  else if len = 0 then pure ([], none)
  else if f.flag = O_WRONLY then pure ([], some ("read " ++ f.name ++ ": bad file descriptor"))
  else do
    match ← pread f len off.toNat with
    | .error err => pure ([], some ("read " ++ f.name ++ ": " ++ err))
    | .ok got =>
      if got.length = len then pure (got, none)
      else if got = [] then pure ([], some "EOF")
      else
        match ← pread f (len - got.length) (off.toNat + got.length) with
        | .error err => pure (got, some ("read " ++ f.name ++ ": " ++ err))
        | .ok _ => pure (got, some "EOF")

/-- `(*os.File).Close()`. -/
def osClose (f : HostFile) : Eng (Option String) := do
  match ← hostCall with
  | .ok () => pure none
  | .error err => pure (some ("close " ++ f.name ++ ": " ++ err))

/-- The largest slice `make` allocates (`maxAlloc` on linux/amd64). -/
def maxAlloc : Int := 2 ^ 48

/-- `make([]byte, n)`: the runtime panics for a length out of range, and
throws its fatal out-of-memory error when the host cannot map the buffer. -/
def makeSlice (n : Int) : Eng Nat := fun e =>
  if n < 0 ∨ maxAlloc < n then .error (.panic "runtime error: makeslice: len out of range") e
  else if (e.world.mapLimit : Int) < n then .error (.fatal "out of memory") e
  else .ok n.toNat e

/-! ## The handlers -/

/-- The first empty slot, or the table's length when every slot is full:
`for ; index < len(s.files) && s.files[index] != nil; index++ {}`. -/
def freeSlot (files : List (Option File)) : Nat :=
  files.findIdx (·.isNone)

/-- Put `f` in slot `index`: append when `index == len(s.files)`. -/
def place (files : List (Option File)) (index : Nat) (f : File) : List (Option File) :=
  if index = files.length then files ++ [some f] else files.set index (some f)

/-- The `switch req.Mode` of `Open`: the flag of each mode it knows. -/
def openFlag : String → Option Nat
  | "r" => some O_RDONLY
  | "w" => some O_WRONLY
  | "rw" => some O_RDWR
  | _ => none

/-- `Server.Open`. -/
def open_ (name mode : String) : Eng Unit := do
  let some flag := openFlag mode | fail ("Open: bad open mode " ++ quote mode)
  let osFile ← check "" (← osOpenFile name flag)
  let s ← getSrv
  let index := freeSlot s.files
  modifySrv fun s => { s with files := place s.files index ⟨mode, index, osFile⟩ }

/-- The slot `fd` names, when `fd` is a valid descriptor. -/
def slot (files : List (Option File)) (fd : Int) : Option File :=
  if fd < 0 then none else (files[fd.toNat]?).join

/-- `Server.ReadAt`. -/
def readAt (fd len offset : Int) : Eng (List UInt8) := do
  let s ← getSrv
  match slot s.files fd with
  | none => fail ("ReadAt: bad file descriptor " ++ toString fd)
  | some f =>
    let n ← makeSlice len
    let (data, err) ← osReadAt f.f n offset
    match err with
    | some err => fail err
    | none => pure data

/-- `Server.Close`. -/
def close (fd : Int) : Eng Unit := do
  let s ← getSrv
  match slot s.files fd with
  | none => fail ("Close: bad file descriptor " ++ toString fd)
  | some f =>
    let err ← osClose f.f
    modifySrv fun s => { s with files := s.files.set fd.toNat none }
    match err with
    | some err => fail err
    | none => pure ()

/-! ## What each handler does to the state -/

/-- **`Open`, in full**: a bad mode is refused; otherwise the host's answer
decides between the host's error and the new file in the first empty
slot. The debuggee is not involved. -/
theorem open__eq (name mode : String) (e : Engine) :
    open_ name mode e = match openFlag mode with
      | none => .error (.error ("Open: bad open mode " ++ quote mode)) e
      | some flag =>
        match e.world.acks with
        | some err :: rest =>
          .error (.error ("" ++ ("open " ++ name ++ ": " ++ err)))
            { e with world := { e.world with acks := rest } }
        | acks =>
          .ok () { srv := { e.srv with files := (place e.srv.files (freeSlot e.srv.files)
                      ⟨mode, freeSlot e.srv.files, ⟨name, flag⟩⟩) },
                   world := { e.world with acks := acks.tail } } := by
  unfold open_
  cases openFlag mode with
  | none => rfl
  | some flag =>
    obtain ⟨srv, ⟨tracee, nextPid, acks, stops, shuffles, disk, execs, mapLimit⟩⟩ := e
    rcases acks with _ | ⟨_ | err, rest⟩ <;> rfl

section HostOnly

/-- The engine is as it was, but for the host's answers. -/
def HostOnly (e e' : Engine) : Prop :=
  ∃ acks, e' = ⟨e.srv, { e.world with acks := acks }⟩

theorem HostOnly.refl : Reflexive HostOnly := fun e => ⟨e.world.acks, rfl⟩

theorem HostOnly.trans : Transitive HostOnly := by
  rintro e _ _ ⟨a₁, rfl⟩ ⟨a₂, rfl⟩
  exact ⟨a₂, rfl⟩

theorem hostCall_hostOnly : Keeps HostOnly hostCall := by
  intro e
  unfold hostCall
  split <;> exact ⟨_, rfl⟩

theorem pread_hostOnly (f : HostFile) (len off : Nat) : Keeps HostOnly (pread f len off) :=
  Keeps.bind HostOnly.trans hostCall_hostOnly fun r => by
    cases r
    · exact Keeps.pure HostOnly.refl _
    · exact fun e => HostOnly.refl e

theorem osReadAt_hostOnly (f : HostFile) (len : Nat) (off : Int) :
    Keeps HostOnly (osReadAt f len off) := by
  unfold osReadAt
  split_ifs
  any_goals exact Keeps.pure HostOnly.refl _
  refine Keeps.bind HostOnly.trans (pread_hostOnly _ _ _) fun r => ?_
  rcases r with err | got
  · exact Keeps.pure HostOnly.refl _
  · dsimp only
    split_ifs
    any_goals exact Keeps.pure HostOnly.refl _
    refine Keeps.bind HostOnly.trans (pread_hostOnly _ _ _) fun r => ?_
    rcases r with err | _ <;> exact Keeps.pure HostOnly.refl _

/-- `ReadAt` changes nothing but the host's answers it used, whatever its
outcome. -/
theorem readAt_hostOnly (fd len offset : Int) : Keeps HostOnly (readAt fd len offset) := by
  unfold readAt
  refine Keeps.bind HostOnly.trans (Keeps.getSrv HostOnly.refl) fun s => ?_
  cases slot s.files fd with
  | none => exact Keeps.throw HostOnly.refl _
  | some f =>
    have hmake : Keeps HostOnly (makeSlice len) := fun e => by
      unfold makeSlice
      split_ifs <;> exact HostOnly.refl e
    refine Keeps.bind HostOnly.trans hmake fun n => ?_
    refine Keeps.bind HostOnly.trans (osReadAt_hostOnly _ _ _) fun ⟨data, err⟩ => ?_
    cases err
    · exact Keeps.pure HostOnly.refl _
    · exact Keeps.throw HostOnly.refl _

end HostOnly

/-- **A negative length panics.** `ReadAt` reaches `make([]byte, req.Len)`
for every valid descriptor, and the runtime refuses a negative length. -/
theorem readAt_negative_len_panics {e : Engine} {fd len offset : Int} {f : File}
    (hfd : slot e.srv.files fd = some f) (hlen : len < 0) :
    readAt fd len offset e = .error (.panic "runtime error: makeslice: len out of range") e := by
  have hmake : makeSlice len e = .error (.panic "runtime error: makeslice: len out of range") e := by
    simp [makeSlice, hlen]
  simp only [readAt, getSrv_bind, hfd]
  rw [bind_error hmake]

/-- `Open` then `ReadAt` of length `-1` from the server `New` returns. -/
theorem readAt_minus_one_panics :
    let e := stateOf (open_ "a" "r" ⟨Server.new, World.start []⟩)
    slot e.srv.files 0 = some ⟨"r", 0, ⟨"a", O_RDONLY⟩⟩ ∧ (-1 : Int) < 0 ∧
      readAt 0 (-1) 0 e = .error (.panic "runtime error: makeslice: len out of range") e :=
  ⟨rfl, by decide, readAt_negative_len_panics rfl (by decide)⟩

/-- **`Close`, in full**: a bad descriptor is refused; otherwise its slot is
emptied whatever the host's answer, which is then returned. -/
theorem close_eq (fd : Int) (e : Engine) :
    close fd e = match slot e.srv.files fd with
      | none => .error (.error ("Close: bad file descriptor " ++ toString fd)) e
      | some f =>
        match e.world.acks with
        | some err :: rest =>
          .error (.error ("close " ++ f.f.name ++ ": " ++ err))
            { srv := { e.srv with files := e.srv.files.set fd.toNat none },
              world := { e.world with acks := rest } }
        | acks =>
          .ok () { srv := { e.srv with files := e.srv.files.set fd.toNat none },
                   world := { e.world with acks := acks.tail } } := by
  simp only [close, getSrv_bind]
  cases slot e.srv.files fd with
  | none => rfl
  | some f =>
    obtain ⟨srv, ⟨tracee, nextPid, acks, stops, shuffles, disk, execs, mapLimit⟩⟩ := e
    rcases acks with _ | ⟨_ | err, rest⟩ <;> rfl

/-! ## The file table's invariant -/

/-- Every full slot `i` holds a file whose `index` is `i`. -/
def Indexed (files : List (Option File)) : Prop :=
  ∀ (i : Nat) (f : File), files[i]? = some (some f) → f.index = i

/-- The number of open files: the full slots. -/
def openCount (files : List (Option File)) : Nat :=
  files.countP (·.isSome)

theorem openCount_le (files : List (Option File)) : openCount files ≤ files.length :=
  List.countP_le_length _

theorem freeSlot_le (files : List (Option File)) : freeSlot files ≤ files.length :=
  List.findIdx_le_length _

/-- The scan stops at a slot that is empty, unless it ran off the end. -/
theorem getElem_freeSlot {files : List (Option File)} (h : freeSlot files < files.length) :
    files[freeSlot files]? = some none := by
  have := List.findIdx_getElem (w := h)
  rw [List.getElem?_eq_getElem h]
  simpa using this

/-- The scan runs off the end exactly when every slot is full. -/
theorem freeSlot_eq_length_iff {files : List (Option File)} :
    freeSlot files = files.length ↔ openCount files = files.length := by
  simp only [freeSlot, openCount, List.findIdx_eq_length, List.countP_eq_length]
  exact forall₂_congr fun x _ => by cases x <;> simp

/-- Slot `i` after `place`: the new file at `index`, the rest as before. -/
theorem getElem?_place {files : List (Option File)} {index : Nat} (hle : index ≤ files.length)
    (f : File) (i : Nat) :
    (place files index f)[i]? = if i = index then some (some f) else files[i]? := by
  unfold place
  split
  · subst_vars
    rcases lt_trichotomy i files.length with h | rfl | h
    · simp [List.getElem?_append_left h, h.ne]
    · simp
    · rw [if_neg h.ne', List.getElem?_eq_none (by simp; omega), List.getElem?_eq_none h.le]
  · rw [List.getElem?_set]
    by_cases h : index = i
    · subst h; simp; omega
    · simp [h, Ne.symm h]

theorem indexed_set_none {files : List (Option File)} (h : Indexed files) (i : Nat) :
    Indexed (files.set i none) := by
  intro j g hg
  rw [List.getElem?_set] at hg
  split at hg
  · simp at hg
  · exact h j g hg

/-! ## A file through its life

`Open` when the host opens the file, `ReadAt` on the descriptor it filled,
`Close`, and `ReadAt` once more; `Sessions` strings them together. -/

/-- The slot `Open` filled names its file. -/
theorem slot_place_freeSlot (files : List (Option File)) (f : File) :
    slot (place files (freeSlot files) f) (freeSlot files) = some f := by
  simp [slot, getElem?_place (freeSlot_le files)]

/-- A slot `Close` emptied names nothing. -/
theorem slot_set_none (files : List (Option File)) (fd : Int) : slot (files.set fd.toNat none) fd = none := by
  unfold slot
  split_ifs
  · rfl
  · rw [List.getElem?_set, if_pos rfl]
    split_ifs <;> rfl

/-- `Open` of a mode it knows, when the host opens the file. -/
theorem open__ok {name mode : String} {flag : Nat} {e : Engine} (hflag : openFlag mode = some flag)
    (hacks : e.world.acks = []) :
    ∃ e', open_ name mode e = .ok () e' ∧
      e'.srv.files = place e.srv.files (freeSlot e.srv.files) ⟨mode, freeSlot e.srv.files, ⟨name, flag⟩⟩ ∧
      e'.world = { e.world with acks := [] } := by
  rw [open__eq, hflag, hacks]
  exact ⟨_, rfl, rfl, rfl⟩

/-- `Close` of an open file, when the host closes it. -/
theorem close_ok {fd : Int} {f : File} {e : Engine} (hfd : slot e.srv.files fd = some f)
    (hacks : e.world.acks = []) :
    ∃ e', close fd e = .ok () e' ∧ e'.srv.files = e.srv.files.set fd.toNat none ∧
      e'.world = { e.world with acks := [] } := by
  rw [close_eq, hfd, hacks]
  exact ⟨_, rfl, rfl, rfl⟩

/-- A host that answers every call reads the file's bytes. -/
theorem pread_of_acks {f : HostFile} {len off : Nat} {e : Engine} (hacks : e.world.acks = []) :
    pread f len off e = .ok (.ok (((e.world.disk f.name).drop off).take len)) e := by
  obtain ⟨srv, ⟨tracee, nextPid, acks, stops, shuffles, disk, execs, mapLimit⟩⟩ := e
  dsimp only at hacks
  subst hacks
  rfl

/-- **`(*os.File).ReadAt` of a readable file**, from a host that answers
every call: the file's bytes from the offset, with `EOF` when it holds
fewer than `len` of them. -/
theorem osReadAt_of_acks {f : HostFile} {len : Nat} {off : Int} {e : Engine} (hacks : e.world.acks = [])
    (hoff : 0 ≤ off) (hlen : len ≠ 0) (hflag : f.flag ≠ O_WRONLY) :
    osReadAt f len off e = .ok (((e.world.disk f.name).drop off.toNat).take len,
      if (((e.world.disk f.name).drop off.toNat).take len).length = len then none else some "EOF") e := by
  simp only [osReadAt, if_neg (show ¬off < 0 by omega), if_neg hlen, if_neg hflag]
  rw [bind_ok (pread_of_acks hacks)]
  dsimp only
  split_ifs with hfull hnil
  · rfl
  · rw [hnil]
    rfl
  · rw [bind_ok (pread_of_acks hacks)]
    rfl

/-- **`ReadAt` of a file open for reading**, from a host that answers every
call and maps a buffer of `len` bytes, answers the host file's bytes from
the offset when the file holds all `len` of them, and Go's `EOF`, the
error `(*os.File).ReadAt` returns with a short read, when it does not. -/
theorem readAt_of_slot {e : Engine} {fd len off : Int} {f : File} (hfd : slot e.srv.files fd = some f)
    (hacks : e.world.acks = []) (hoff : 0 ≤ off) (hlen : 0 < len) (hmax : len ≤ maxAlloc)
    (hmap : len ≤ e.world.mapLimit) (hflag : f.f.flag ≠ O_WRONLY) :
    readAt fd len off e = if off.toNat + len.toNat ≤ (e.world.disk f.f.name).length
      then .ok (((e.world.disk f.f.name).drop off.toNat).take len.toNat) e
      else .error (.error "EOF") e := by
  have hmake : makeSlice len e = .ok len.toNat e := by
    simp only [makeSlice, if_neg (show ¬(len < 0 ∨ maxAlloc < len) by omega),
      if_neg (show ¬(e.world.mapLimit : Int) < len by omega)]
  simp only [readAt, getSrv_bind, hfd]
  rw [bind_ok hmake, bind_ok (osReadAt_of_acks hacks hoff (by omega) hflag)]
  by_cases hfit : off.toNat + len.toNat ≤ (e.world.disk f.f.name).length
  · rw [if_pos hfit, if_pos (by simp only [List.length_take, List.length_drop]; omega)]
    rfl
  · rw [if_neg hfit, if_neg (by simp only [List.length_take, List.length_drop]; omega)]
    rfl

/-- `ReadAt` on a descriptor naming no file. -/
theorem readAt_bad_fd {e : Engine} {fd len off : Int} (hfd : slot e.srv.files fd = none) :
    readAt fd len off e = .error (.error ("ReadAt: bad file descriptor " ++ toString fd)) e := by
  simp only [readAt, getSrv_bind, hfd]
  rfl

/-! ## What a step can do to the file table -/

/-- A step of the file table: nothing, a new file whose index is its slot
put in the first empty slot, or one slot emptied. -/
inductive FileStep : List (Option File) → List (Option File) → Prop
  | same (files : List (Option File)) : FileStep files files
  | open_ (files : List (Option File)) (f : File) (hf : f.index = freeSlot files) :
      FileStep files (place files (freeSlot files) f)
  | close (files : List (Option File)) (i : Nat) : FileStep files (files.set i none)

/-- **What `Open` does to the state**: a `FileStep` of the file table and
the host's answers, nothing else. -/
theorem open__step (name mode : String) (e : Engine) :
    ∃ files acks, FileStep e.srv.files files ∧
      stateOf (open_ name mode e) = ⟨{ e.srv with files := files }, { e.world with acks := acks }⟩ := by
  rw [open__eq]
  cases openFlag mode with
  | none => exact ⟨_, _, .same _, rfl⟩
  | some flag =>
    dsimp only
    split
    · exact ⟨_, _, .same _, rfl⟩
    · exact ⟨_, _, .open_ _ _ rfl, rfl⟩

/-- **What `Close` does to the state**: a `FileStep` of the file table and
the host's answers, nothing else. -/
theorem close_step (fd : Int) (e : Engine) :
    ∃ files acks, FileStep e.srv.files files ∧
      stateOf (close fd e) = ⟨{ e.srv with files := files }, { e.world with acks := acks }⟩ := by
  rw [close_eq]
  cases slot e.srv.files fd with
  | none => exact ⟨_, _, .same _, rfl⟩
  | some f =>
    dsimp only
    split <;> exact ⟨_, _, .close _ _, rfl⟩

namespace FileStep

variable {files files' : List (Option File)}

theorem indexed (h : FileStep files files') (hi : Indexed files) : Indexed files' := by
  cases h with
  | same => exact hi
  | open_ f hf =>
    intro i g hg
    rw [getElem?_place (freeSlot_le files)] at hg
    split at hg
    · cases hg
      rw [hf, ‹i = _›]
    · exact hi i g hg
  | close i => exact indexed_set_none hi i

theorem length_le (h : FileStep files files') : files.length ≤ files'.length := by
  cases h with
  | same => exact le_rfl
  | open_ f _ =>
    unfold place
    split <;> simp
  | close i => simp

/-- The table grows only by appending to a full table, which leaves it
full. -/
theorem full_of_lt (h : FileStep files files') (hlt : files.length < files'.length) :
    openCount files' = files'.length := by
  cases h with
  | same => exact absurd hlt (lt_irrefl _)
  | open_ f _ =>
    unfold place at hlt ⊢
    split at hlt
    · rename_i hend
      rw [if_pos hend]
      have hfull := freeSlot_eq_length_iff.mp hend
      simp [openCount, List.countP_append] at hfull ⊢
      exact hfull
    · simp at hlt
  | close i => simp at hlt

/-- And the table grows only when every slot was full. -/
theorem full_before_of_lt (h : FileStep files files') (hlt : files.length < files'.length) :
    openCount files = files.length := by
  cases h with
  | same => exact absurd hlt (lt_irrefl _)
  | open_ f _ =>
    unfold place at hlt
    split at hlt
    · exact freeSlot_eq_length_iff.mp ‹_›
    · simp at hlt
  | close i => simp at hlt

end FileStep

/-! ## The slot rule

What `Open` and `Close` do to the slots, read off the code for every table
(no invariant assumed): the scan's result is the lowest empty slot, or the
end when there is none; `Close` clears its slot before it looks at the
host's answer; the failing paths leave the table alone. -/

/-- Every slot below the first empty one is full. -/
theorem full_below_freeSlot {files : List (Option File)} {j : Nat} (hj : j < freeSlot files) :
    ∃ f, files[j]? = some (some f) := by
  have hlt : j < files.length := lt_of_lt_of_le hj (freeSlot_le files)
  have hfull : files[j].isNone = false := List.not_of_lt_findIdx hj
  obtain ⟨f, hf⟩ := Option.isSome_iff_exists.mp (by simpa using hfull)
  exact ⟨f, by rw [List.getElem?_eq_getElem hlt, hf]⟩

/-- The scan stops inside the table exactly when the table has an empty slot. -/
theorem freeSlot_lt_iff {files : List (Option File)} : freeSlot files < files.length ↔ none ∈ files := by
  simp [freeSlot, List.findIdx_lt_length]

theorem length_place {files : List (Option File)} {index : Nat} (f : File) :
    (place files index f).length = if index = files.length then files.length + 1 else files.length := by
  unfold place
  split_ifs <;> simp

/-- A successful `Open` knew the mode and put the file in the first empty
slot. -/
theorem open__ok_files {name mode : String} {e e' : Engine} (h : open_ name mode e = .ok () e') :
    ∃ flag, openFlag mode = some flag ∧
      e'.srv.files = place e.srv.files (freeSlot e.srv.files) ⟨mode, freeSlot e.srv.files, ⟨name, flag⟩⟩ := by
  rw [open__eq] at h
  split at h
  · cases h
  · rename_i flag hflag
    split at h
    · cases h
    · cases h
      exact ⟨flag, hflag, rfl⟩

/-- The modes `Open` refuses. -/
theorem openFlag_eq_none {mode : String} (h : mode ∉ ["r", "w", "rw"]) : openFlag mode = none := by
  simp only [List.mem_cons, List.not_mem_nil, or_false, not_or] at h
  unfold openFlag
  split <;> simp_all

/-- An `Open` refused for its mode, or by the host, keeps the table. -/
theorem open__fails_files {name mode : String} {e : Engine}
    (h : mode ∉ ["r", "w", "rw"] ∨ ∃ err rest, e.world.acks = some err :: rest) :
    (stateOf (open_ name mode e)).srv.files = e.srv.files := by
  rw [open__eq]
  rcases h with hmode | ⟨err, rest, hacks⟩
  · rw [openFlag_eq_none hmode]
    rfl
  · cases openFlag mode with
    | none => rfl
    | some flag => simp only [hacks]; rfl

/-- `Close` of a full slot clears it, whatever the host answers. -/
theorem close_files {fd : Int} {f : File} {e : Engine} (hfd : slot e.srv.files fd = some f) :
    (stateOf (close fd e)).srv.files = e.srv.files.set fd.toNat none := by
  rw [close_eq, hfd]
  dsimp only
  split <;> rfl

/-- A full slot, read at a descriptor. -/
theorem slot_of_getElem? {files : List (Option File)} {fd : Int} {f : File} (h0 : 0 ≤ fd)
    (h : files[fd.toNat]? = some (some f)) : slot files fd = some f := by
  simp [slot, not_lt.mpr h0, h]

/-- The descriptors `Close` refuses: out of range, or an empty slot. -/
theorem slot_of_invalid {files : List (Option File)} {fd : Int}
    (h : fd < 0 ∨ files.length ≤ fd ∨ files[fd.toNat]? = some none) : slot files fd = none := by
  unfold slot
  split_ifs with hneg
  · rfl
  rcases h with h | h | h
  · exact absurd h hneg
  · rw [List.getElem?_eq_none (by omega)]
    rfl
  · rw [h]
    rfl

/-- A successful `Open` fills the lowest empty slot, or appends to a full
table, and leaves every other slot alone. -/
theorem open__ok_slots {name mode : String} {e e' : Engine} (h : open_ name mode e = .ok () e') :
    ∃ i flag, openFlag mode = some flag ∧
      (∀ j < i, ∃ f, e.srv.files[j]? = some (some f)) ∧
      (e.srv.files[i]? = some none ∨ i = e.srv.files.length) ∧
      e'.srv.files[i]? = some (some ⟨mode, i, ⟨name, flag⟩⟩) ∧
      (∀ j, j ≠ i → e'.srv.files[j]? = e.srv.files[j]?) ∧
      (e'.srv.files.length = e.srv.files.length + 1 ∧ none ∉ e.srv.files ∨
        e'.srv.files.length = e.srv.files.length ∧ none ∈ e.srv.files) := by
  obtain ⟨flag, hflag, hfiles⟩ := open__ok_files h
  have hle := freeSlot_le e.srv.files
  refine ⟨_, flag, hflag, fun j hj => full_below_freeSlot hj,
    hle.lt_or_eq.imp getElem_freeSlot id, by simp [hfiles, getElem?_place hle],
    fun j hj => by simp [hfiles, getElem?_place hle, hj], ?_⟩
  rw [hfiles, length_place]
  by_cases hfree : freeSlot e.srv.files < e.srv.files.length
  · exact .inr ⟨if_neg hfree.ne, freeSlot_lt_iff.mp hfree⟩
  · exact .inl ⟨if_pos (by omega), mt freeSlot_lt_iff.mpr hfree⟩

/-- `Close` of a full slot empties exactly that slot, however it ends. -/
theorem close_full_slot {fd : Int} {f : File} {e : Engine} (h0 : 0 ≤ fd)
    (hf : e.srv.files[fd.toNat]? = some (some f)) :
    (stateOf (close fd e)).srv.files.length = e.srv.files.length ∧
      (stateOf (close fd e)).srv.files[fd.toNat]? = some none ∧
      ∀ j, j ≠ fd.toNat → (stateOf (close fd e)).srv.files[j]? = e.srv.files[j]? := by
  have hlt : fd.toNat < e.srv.files.length := (List.getElem?_eq_some_iff.mp hf).1
  rw [close_files (slot_of_getElem? h0 hf)]
  exact ⟨List.length_set .., List.getElem?_set_self hlt, fun j hj => List.getElem?_set_ne (Ne.symm hj)⟩

/-- **The file table's slot rule**, for every state. A successful `Open`
stores the new file (its mode, its slot as index, the host file) in the
lowest-numbered empty slot, or appends it when no slot is empty, and every
other slot reads as before. A `Close` of a full slot empties exactly that
slot, whatever the host answers. The table is as it was after an `Open`
with a bad mode or a failing host open, after any `ReadAt`, and after a
`Close` of a descriptor out of range or naming an empty slot. -/
theorem file_table_slots (e : Engine) :
    (∀ name mode e', open_ name mode e = .ok () e' → ∃ i flag, openFlag mode = some flag ∧
      (∀ j < i, ∃ f, e.srv.files[j]? = some (some f)) ∧
      (e.srv.files[i]? = some none ∨ i = e.srv.files.length) ∧
      e'.srv.files[i]? = some (some ⟨mode, i, ⟨name, flag⟩⟩) ∧
      (∀ j, j ≠ i → e'.srv.files[j]? = e.srv.files[j]?) ∧
      (e'.srv.files.length = e.srv.files.length + 1 ∧ none ∉ e.srv.files ∨
        e'.srv.files.length = e.srv.files.length ∧ none ∈ e.srv.files)) ∧
    (∀ (fd : Int) (f : File), 0 ≤ fd → e.srv.files[fd.toNat]? = some (some f) →
      (stateOf (close fd e)).srv.files.length = e.srv.files.length ∧
      (stateOf (close fd e)).srv.files[fd.toNat]? = some none ∧
      ∀ j, j ≠ fd.toNat → (stateOf (close fd e)).srv.files[j]? = e.srv.files[j]?) ∧
    (∀ name mode, (mode ∉ ["r", "w", "rw"] ∨ ∃ err rest, e.world.acks = some err :: rest) →
      (stateOf (open_ name mode e)).srv.files = e.srv.files) ∧
    (∀ fd len off, (stateOf (readAt fd len off e)).srv.files = e.srv.files) ∧
    (∀ fd : Int, fd < 0 ∨ e.srv.files.length ≤ fd ∨ e.srv.files[fd.toNat]? = some none →
      (stateOf (close fd e)).srv.files = e.srv.files) :=
  ⟨fun _ _ _ h => open__ok_slots h, fun _ _ h0 hf => close_full_slot h0 hf,
    fun _ _ h => open__fails_files h,
    fun fd len off => by obtain ⟨acks, h⟩ := readAt_hostOnly fd len off e; rw [h],
    fun fd h => by rw [close_eq, slot_of_invalid h]; rfl⟩

/-- The hole a `Close` left is the slot the next `Open` fills. -/
example :
    (stateOf (open_ "c" "w" ⟨{ Server.new with files :=
      [some ⟨"r", 0, ⟨"a", O_RDONLY⟩⟩, none, some ⟨"r", 2, ⟨"b", O_RDONLY⟩⟩] }, World.start []⟩)).srv.files =
      [some ⟨"r", 0, ⟨"a", O_RDONLY⟩⟩, some ⟨"w", 1, ⟨"c", O_WRONLY⟩⟩, some ⟨"r", 2, ⟨"b", O_RDONLY⟩⟩] :=
  rfl

end OgleServer
