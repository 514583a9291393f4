import OgleServer.Eval

/-!
# Load — `loadExecutable`

`New` hands the executable to `loadExecutable`, which tries the ELF reader
and then the Mach-O reader, picks the architecture the header names, and
reads the DWARF data and, for ELF only, the Go symbol table (`parseElf`).
The readers, `DWARF()` and `gosym` are code of other packages, whose
results the model takes as given. `parseElf` reads sections that an ELF
file may lack, and then panics (`loadExecutable_error`); a Mach-O
executable gets no line table, so on it no `src:` expression evaluates
(`eval_src_macho`).
-/

namespace OgleServer

/-- The architectures of package `arch` that `loadExecutable` returns. -/
inductive ArchName where
  | arm
  | x86
  | amd64
  deriving DecidableEq, Repr

/-! The header values of packages `elf` and `macho` that the loader switches on. -/

def EM_ARM : Nat := 40

def EM_386 : Nat := 3

def EM_X86_64 : Nat := 62

def ELFCLASS32 : Nat := 1

def ELFCLASS64 : Nat := 2

def Cpu386 : Nat := 7

def CpuAmd64 : Nat := 0x1000007

/-- The `PCToLine` of a `gosym.Table`. -/
abbrev Table := BitVec 64 → String × Int × Bool

/-- An ELF section as `parseElf` uses it: its `Addr`, and what `Data()` returns. -/
structure ElfSection where
  addr : BitVec 64
  data : Except String (List UInt8)

/-- The executable as `elf.NewFile`, else `macho.NewFile`, reads it, or
neither: the header, `DWARF()`, and for ELF what `f.Section` finds for a
name and what `gosym` builds from the sections `parseElf` reads. -/
inductive ObjFile where
  | elf (machine cls : Nat) (dwarf : Except String DwarfData) (sections : String → Option ElfSection)
      (newTable : List UInt8 → List UInt8 → BitVec 64 → Except String Table)
  | macho (cpu : Nat) (dwarf : Except String DwarfData)
  | other

/-- What `loadExecutable` returns. -/
structure Loaded where
  arch : ArchName
  dwarfData : DwarfData
  table : Option Table

/-- The panic of a field read through a `nil` pointer. -/
def nilDereference : GoError := .panic "runtime error: invalid memory address or nil pointer dereference"

/-- `s.Data()` on what `f.Section` returned. -/
def sectionData : Option ElfSection → Except GoError (List UInt8)
  | none => .error nilDereference
  | some s => s.data.mapError .error

/-- `s.Addr` on what `f.Section` returned. -/
def sectionAddr : Option ElfSection → Except GoError (BitVec 64)
  | none => .error nilDereference
  | some s => .ok s.addr

/-- `parseElf`. -/
def parseElf (sections : String → Option ElfSection)
    (newTable : List UInt8 → List UInt8 → BitVec 64 → Except String Table) : Except GoError Table := do
  let symdat ← sectionData (sections ".gosymtab")
  let pclndat ← sectionData (sections ".gopclntab")
  let text ← sectionAddr (sections ".text")
  (newTable symdat pclndat text).mapError .error

/-- The `switch obj.Machine` of the ELF case. -/
def elfArch (machine cls : Nat) : Option ArchName :=
  if machine = EM_ARM then some .arm
  else if machine = EM_386 then
    if cls = ELFCLASS32 then some .x86 else if cls = ELFCLASS64 then some .amd64 else none
  else if machine = EM_X86_64 then some .amd64
  else none

/-- The `switch obj.Cpu` of the Mach-O case. -/
def machoArch (cpu : Nat) : Option ArchName :=
  if cpu = Cpu386 then some .x86 else if cpu = CpuAmd64 then some .amd64 else none

/-- `loadExecutable`. -/
def loadExecutable : ObjFile → Except GoError Loaded
  | .elf machine cls dwarf sections newTable =>
    match dwarf with
    | .error err => .error (.error err)
    | .ok dwarfData =>
      match parseElf sections newTable with
      | .error (.error err) => .error (.error ("parsing go symbol table: " ++ err))
      | .error err => .error err
      | .ok table =>
        match elfArch machine cls with
        | some a => .ok ⟨a, dwarfData, some table⟩
        | none => .error (.error "unrecognized ELF architecture")
  | .macho cpu dwarf =>
    match dwarf with
    | .error err => .error (.error err)
    | .ok dwarfData =>
      match machoArch cpu with
      | some a => .ok ⟨a, dwarfData, none⟩
      | none => .error (.error "unrecognized Mach-O architecture")
  | .other => .error (.error "unrecognized binary format")

/-! ## How the loader fails -/

theorem sectionData_error {s : Option ElfSection} {err : GoError} (h : sectionData s = .error err) :
    (∃ msg, err = .error msg) ∨ err = nilDereference ∧ s = none := by
  rcases s with _ | ⟨_, _ | _⟩ <;> cases h
  · exact .inr ⟨rfl, rfl⟩
  · exact .inl ⟨_, rfl⟩

theorem parseElf_error {sections : String → Option ElfSection}
    {newTable : List UInt8 → List UInt8 → BitVec 64 → Except String Table} {err : GoError}
    (h : parseElf sections newTable = .error err) : (∃ msg, err = .error msg) ∨ err = nilDereference ∧
      (sections ".gosymtab" = none ∨ sections ".gopclntab" = none ∨ sections ".text" = none) := by
  simp only [parseElf, bind, Except.bind] at h
  split at h
  · cases h
    exact (sectionData_error ‹_›).imp_right fun ⟨hnil, hs⟩ => ⟨hnil, .inl hs⟩
  split at h
  · cases h
    exact (sectionData_error ‹_›).imp_right fun ⟨hnil, hs⟩ => ⟨hnil, .inr (.inl hs)⟩
  split at h
  · cases h
    rename_i haddr
    rcases hs : sections ".text" with _ | _ <;> rw [hs] at haddr <;> cases haddr
    exact .inr ⟨rfl, .inr (.inr rfl)⟩
  · rcases hnew : newTable _ _ _ with _ | _ <;> rw [hnew] at h <;> cases h
    exact .inl ⟨_, rfl⟩

/-- **Only a missing ELF section ends `New` without an answer.** Every
failure of `loadExecutable` is a returned error, but for the panic of
`parseElf` on an ELF file that lacks a section it reads: `Data()` or
`Addr` on the `nil` that `f.Section` returned. -/
theorem loadExecutable_error {obj : ObjFile} {err : GoError} (h : loadExecutable obj = .error err) :
    (∃ msg, err = .error msg) ∨ err = nilDereference ∧
      ∃ machine cls dwarfData sections newTable, obj = .elf machine cls (.ok dwarfData) sections newTable ∧
        (sections ".gosymtab" = none ∨ sections ".gopclntab" = none ∨ sections ".text" = none) := by
  rcases obj with ⟨machine, cls, _ | dwarfData, sections, newTable⟩ | ⟨cpu, _ | _⟩ | _ <;>
    simp only [loadExecutable] at h
  all_goals try (cases h; exact .inl ⟨_, rfl⟩)
  · split at h
    · cases h
      exact .inl ⟨_, rfl⟩
    · cases h
      rcases parseElf_error ‹_› with ⟨msg, rfl⟩ | ⟨rfl, hs⟩
      · exact (‹∀ err : String, GoError.error msg = .error err → False› msg rfl).elim
      · exact .inr ⟨rfl, machine, cls, dwarfData, sections, newTable, rfl, hs⟩
    · split at h <;> cases h
      exact .inl ⟨_, rfl⟩
  · split at h <;> cases h
    exact .inl ⟨_, rfl⟩

/-- An x86-64 ELF file with no sections at all. -/
example : loadExecutable (.elf EM_X86_64 ELFCLASS64 (.ok ⟨[], none⟩) (fun _ => none)
    (fun _ _ _ => .ok fun _ => ("", 0, false))) = .error nilDereference := rfl

/-! ## A Mach-O executable -/

/-- The Mach-O case builds no symbol table: `table` stays `nil`. -/
theorem loadExecutable_macho_table {cpu : Nat} {dwarf : Except String DwarfData} {l : Loaded}
    (h : loadExecutable (.macho cpu dwarf) = .ok l) : l.table = none := by
  rcases dwarf with err | d <;> simp only [loadExecutable, reduceCtorEq] at h
  split at h <;> cases h
  rfl

/-- **No `src:` expression evaluates on a Mach-O executable.** `New` keeps
the table `loadExecutable` returned, and a Mach-O file gets none, so
`lookupSource` finds no line for any pc: `eval` fails with the parser's
error, or with "no PC/line data". -/
theorem eval_src_macho {exe : Exe} {cpu : Nat} {dwarf : Except String DwarfData} {l : Loaded}
    (hload : loadExecutable (.macho cpu dwarf) = .ok l) (htable : exe.table = l.table) (s : String) :
    eval exe ("src:" ++ s) = match parseUint s with
      | .error err => .error err
      | .ok _ => .error ("no PC/line data for: " ++ quote ("src:" ++ s)) := by
  have hline : ∀ pc, lookupSource exe pc = ("", 0, false) := fun pc => by
    rw [lookupSource, htable, loadExecutable_macho_table hload]
  rw [eval_src]
  cases parseUint s <;> simp only [hline]

/-- `src:0x1000` on an amd64 Mach-O build of `demoExe`. -/
theorem eval_src_macho_amd64 :
    loadExecutable (.macho CpuAmd64 (.ok ⟨[], none⟩)) = .ok ⟨.amd64, ⟨[], none⟩, none⟩ ∧
    demoExe.table = (⟨.amd64, ⟨[], none⟩, none⟩ : Loaded).table ∧
    eval demoExe ("src:" ++ "0x1000") = match parseUint "0x1000" with
      | .error err => .error err
      | .ok _ => .error ("no PC/line data for: " ++ quote ("src:" ++ "0x1000")) :=
  have hload : loadExecutable (.macho CpuAmd64 (.ok ⟨[], none⟩)) = .ok ⟨.amd64, ⟨[], none⟩, none⟩ := rfl
  ⟨hload, rfl, eval_src_macho hload rfl _⟩

end OgleServer
