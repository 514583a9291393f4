import OgleServer.Server

/-!
# Frames — `Server.Frames`

`Frames` answers for the innermost frame only. It reads the stopped
task's registers, takes `fp = Rsp + PointerSize` (the code assumes the pc
is at a function's entry), finds the entry of the function containing the
pc, seeks the reader to it and reads entries until the first null entry,
rendering each `FormalParameter` into one string.

Two loops are modelled as they are written:

* `frameEntries`, over `Reader.Next`: a null entry ends it; an entry that
  is not a formal parameter is skipped; the end of the data gives a nil
  entry, whose `Tag` the code reads;
* `paramFields`, over a parameter's attributes in their order: a location
  sets `location`, a name is printed, and a type of `int` of `IntSize`
  bytes is read from `location` — unless `location` is still `0`.

The type assertions on `Field.Val` and the method call on the `Type` that
`Data.Type` leaves nil on error are Go runtime panics.

`Frames` only reads: it keeps every relation its trace calls keep
(`frames_keeps`). When every child of the function is a leaf
it renders exactly the function's own parameters
(`frames_renders_params`); for parameters described in the compiler's
order it prints each one's name, offset and type, and the value read from
its slot for an `int` of `IntSize` bytes only (`frames_prints_params`); on
a function without children, and on a parameter whose type comes before
its location, it does not.
-/

namespace OgleServer

/-- `program.Frame`; `Frames` fills only its text. -/
structure Frame where
  s : String
  deriving DecidableEq, Repr

/-- The Go type of an attribute value, as a failed type assertion names it. -/
def Val.goType : Val → String
  | .bytes _ => "[]uint8"
  | .str _ => "string"
  | .offset _ => "dwarf.Offset"
  | .int _ => "int64"
  | .flag _ => "bool"

/-- A failed type assertion `v.(want)`. -/
def assertPanic {α : Type} (v : Val) (want : String) : Eng α :=
  throw (.panic ("interface conversion: interface \x7b\x7d is " ++ v.goType ++ ", not " ++ want))

/-- The nil-pointer panic. -/
def nilPanic {α : Type} : Eng α :=
  throw (.panic "runtime error: invalid memory address or nil pointer dereference")

/-- The attribute loop of `Frames` for one formal parameter: `location` is
the address computed so far (`0` before a location attribute) and `acc`
the frame's text. -/
def paramFields (exe : Exe) (pid : Int) (fp : BitVec 64) :
    BitVec 64 → String → List Field → Eng String
  | _, acc, [] => pure acc
  | location, acc, f :: fs =>
    if f.attr = AttrLocation then
      match f.val with
      | .bytes b =>
        let offset := exe.evalLocation b
        paramFields exe pid fp (fp + BitVec.ofInt 64 offset)
          (acc ++ "(" ++ toString offset ++ "(FP))") fs
      | v => assertPanic v "[]uint8"
    else if f.attr = AttrName then
      match f.val with
      | .str name => paramFields exe pid fp location (acc ++ " " ++ name) fs
      | v => assertPanic v "string"
    else if f.attr = AttrType then
      match f.val with
      | .offset off =>
        match exe.typeOf off with
        | .error _ => nilPanic
        | .ok t =>
          let acc := acc ++ "[" ++ t.name ++ "]"
          if t.name ≠ "int" ∨ t.size ≠ exe.arch.intSize then paramFields exe pid fp location acc fs
          else if location = 0 then fail "no location for FormalParameter"
          else do
            let buf ← check "" (← ptracePeek pid location exe.arch.intSize)
            paramFields exe pid fp location (acc ++ "==" ++ fmtHexInt (exe.arch.int buf)) fs
      | v => assertPanic v "dwarf.Offset"
    else paramFields exe pid fp location acc fs

/-- The entry loop of `Frames` over what `Reader.Next` returns: the entries
after the seek, then `tail` (a decoding error, or the end of the data). -/
def frameEntries (exe : Exe) (pid : Int) (fp : BitVec 64) (tail : Option String) :
    String → List Entry → Eng String
  | _, [] =>
    match tail with
    | some err => fail err
    | none => nilPanic
  | acc, entry :: rest =>
    if entry.tag = 0 then pure acc
    else if entry.tag ≠ TagFormalParameter then frameEntries exe pid fp tail acc rest
    else if entry.children then fail "FormalParameter has children, expected none"
    else do
      let acc ← paramFields exe pid fp 0 acc entry.field
      frameEntries exe pid fp tail acc rest

/-- `Server.Frames`. -/
def frames (exe : Exe) (count : Int) : Eng (List Frame) := do
  if count ≠ 1 then fail "Frames.Count != 1 is not implemented"
  let s ← getSrv
  let regs ← check "" (← ptraceGetRegs s.stoppedPid)
  let fp := regs.rsp + BitVec.ofNat 64 exe.arch.pointerSize
  let entry ← check "" (exe.entryForPC regs.rip)
  let entries ← check "" (exe.dwarfData.seek entry.offset)
  let text ← frameEntries exe s.stoppedPid fp exe.dwarfData.tail "" entries
  pure [⟨text⟩]

/-! ## `Frames` only reads -/

section Reads

variable {R : Engine → Engine → Prop} (hR : Reflexive R) (hT : Transitive R)
  (hpeek : ∀ pid addr n, Keeps R (ptracePeek pid addr n))
include hR hT hpeek

theorem paramFields_keeps (exe : Exe) (pid : Int) (fp location : BitVec 64) (acc : String)
    (fields : List Field) : Keeps R (paramFields exe pid fp location acc fields) := by
  induction fields generalizing location acc with
  | nil => exact Keeps.pure hR _
  | cons f fs ih =>
    simp only [paramFields]
    repeat' split
    all_goals first
      | exact Keeps.throw hR _
      | exact ih _ _
      | exact Keeps.bind hT (hpeek _ _ _) fun r => Keeps.bind hT (Keeps.check hR _ r) fun _ => ih _ _

theorem frameEntries_keeps (exe : Exe) (pid : Int) (fp : BitVec 64) (tail : Option String) :
    ∀ acc entries, Keeps R (frameEntries exe pid fp tail acc entries)
  | _, [] => by
    cases tail
    · exact Keeps.throw hR _
    · exact Keeps.throw hR _
  | acc, entry :: rest => by
    simp only [frameEntries]
    split
    · exact Keeps.pure hR _
    · split
      · exact frameEntries_keeps exe pid fp tail acc rest
      · split
        · exact Keeps.throw hR _
        · exact Keeps.bind hT (paramFields_keeps hR hT hpeek exe pid fp _ _ _) fun acc =>
            frameEntries_keeps exe pid fp tail acc rest

/-- `Frames` keeps every relation its reads of the debuggee keep. -/
theorem frames_keeps (hget : ∀ pid, Keeps R (ptraceGetRegs pid)) (exe : Exe) (count : Int) :
    Keeps R (frames exe count) := by
  unfold frames
  dsimp only
  exact Keeps.guard hR hT _ (Keeps.throw hR _) fun _ =>
    Keeps.bind hT (Keeps.getSrv hR) fun _ =>
    Keeps.bind hT (hget _) fun r =>
    Keeps.bind hT (Keeps.check hR _ r) fun _ =>
    Keeps.bind hT (Keeps.check hR _ _) fun _ =>
    Keeps.bind hT (Keeps.check hR _ _) fun _ =>
    Keeps.bind hT (frameEntries_keeps hR hT hpeek exe _ _ _ _ _) fun _ => Keeps.pure hR _

end Reads

theorem TraceFrame.frames_keeps {R : Engine → Engine → Prop} (F : TraceFrame R) (exe : Exe)
    (count : Int) : Keeps R (frames exe count) :=
  OgleServer.frames_keeps F.refl F.trans F.peek_keeps F.getRegs_keeps exe count

theorem frames_quiet (exe : Exe) (count : Int) : Keeps Quiet (frames exe count) :=
  quietFrame.frames_keeps exe count

/-- `Frames` lets the debuggee run nowhere, however it ends. -/
theorem frames_still (exe : Exe) (count : Int) : Keeps Still (frames exe count) :=
  frames_keeps Still.refl Still.trans (fun _ _ _ => traceCall_still _ fun _ => rfl)
    (fun _ => traceCall_still _ fun _ => rfl) exe count

/-! ## The two loops on the shapes they get wrong -/

/-- An executable for worked cases whose DWARF is `entries` and whose
every pc lies in the function of the first entry; `int`, of 8 bytes, is
the type at offset `0x40`. -/
def dwarfExe (entries : List Entry) : Exe where
  arch := amd64
  executable := "demo"
  image := fun _ => 0x90
  dwarfData := ⟨entries, none⟩
  table := none
  lookupSym := fun _ => .error "no symbols"
  compileRE := fun _ => none
  lookupRE := fun _ => .ok []
  lookupPC := fun _ => .error "no symbols"
  entryForPC := fun _ => match entries with
    | entry :: _ => .ok entry
    | [] => .error "no entry for pc"
  typeOf := fun off => if off = 0x40 then .ok ⟨"int", 8⟩ else .error "no type"
  evalLocation := fun _ => 8

/-- A server stopped in task `1` at pc `0x1000`, with a kernel that answers
every call. -/
def stoppedEngine : Engine :=
  ⟨{ Server.new with proc := some 1, procIsUp := true, stoppedPid := 1 },
    { World.start [] with tracee := some ⟨fun _ => 0x90, fun _ => ⟨0x1000, 0x7ff0⟩, []⟩ }⟩

/-- **`Frames` reads past a subprogram without children.** The entry loop
ends only at a null entry and skips every entry that is not a formal
parameter, whatever its depth. For a subprogram `E` with no children,
followed by a subprogram whose one child is a formal parameter, the next
null entry is not `E`'s: the other subprogram's parameter is printed as
`E`'s, though `E` has none. -/
theorem frames_reads_past_childless {exe : Exe} {e : Engine} {t : Tracee} {close : Nat → Nat}
    {o o' op : Nat} {f f' : List Field} {name : String} {rest : List Entry}
    (ht : e.world.tracee = some t) (hacks : e.world.acks = [])
    (hentry : exe.entryForPC (t.regs e.srv.stoppedPid).rip = .ok (Die.node o TagSubprogram f none).entry)
    (hseek : exe.dwarfData.seek o = .ok (Die.flattenList close [.node o TagSubprogram f none,
      .node o' TagSubprogram f' (some [.node op TagFormalParameter [⟨AttrName, .str name⟩] none])] ++ rest)) :
    ∃ e', frames exe 1 e = .ok [⟨" " ++ name⟩] e' := by
  simp only [frames, ne_eq, not_true_eq_false, if_false, pure_bind, getSrv_bind, ptraceGetRegs]
  rw [bind_ok (traceCall_answered _ ht hacks)]
  simp [hentry, Die.entry, hseek, Die.flattenList, Die.flatten, nullEntry, frameEntries, TagSubprogram,
    TagFormalParameter, paramFields, AttrName, AttrType, AttrLocation]

/-- A childless `main.f` followed by `main.g(y)`. -/
theorem frames_reads_past_childless_main_f :
    let entries := Die.flattenList (· + 8) [.node 0x10 TagSubprogram [⟨AttrName, .str "main.f"⟩] none,
      .node 0x20 TagSubprogram [⟨AttrName, .str "main.g"⟩]
        (some [.node 0x30 TagFormalParameter [⟨AttrName, .str "y"⟩] none])]
    stoppedEngine.world.tracee = some ⟨fun _ => 0x90, fun _ => ⟨0x1000, 0x7ff0⟩, []⟩ ∧
    stoppedEngine.world.acks = [] ∧
    (dwarfExe entries).entryForPC (0x1000 : BitVec 64) =
      .ok (Die.node 0x10 TagSubprogram [⟨AttrName, .str "main.f"⟩] none).entry ∧
    (dwarfExe entries).dwarfData.seek 0x10 = .ok (entries ++ []) ∧
    ∃ e', frames (dwarfExe entries) 1 stoppedEngine = .ok [⟨" " ++ "y"⟩] e' :=
  ⟨rfl, rfl, rfl, rfl, @frames_reads_past_childless _ _ _ (· + 8) _ 0x20 0x30 _
    [⟨AttrName, .str "main.g"⟩] _ [] rfl rfl rfl rfl⟩

/-- **A parameter whose `int` type comes before its location is refused.**
The attribute loop reads the value when it meets the type; a location
given after the type has not been seen yet, and `location` is still
`0`. -/
theorem frames_type_before_location {exe : Exe} {e : Engine} {t : Tracee} {entry param : Entry}
    {rest : List Entry} {name : String} {off : Nat} {post : List Field}
    (ht : e.world.tracee = some t) (hacks : e.world.acks = [])
    (hentry : exe.entryForPC (t.regs e.srv.stoppedPid).rip = .ok entry)
    (hseek : exe.dwarfData.seek entry.offset = .ok (entry :: param :: rest))
    (hsub : entry.tag = TagSubprogram) (hparam : param.tag = TagFormalParameter)
    (hleaf : param.children = false)
    (hfields : param.field = ⟨AttrName, .str name⟩ :: ⟨AttrType, .offset off⟩ :: post)
    (hty : exe.typeOf off = .ok ⟨"int", exe.arch.intSize⟩) :
    ∃ e', frames exe 1 e = .error (.error "no location for FormalParameter") e' := by
  simp only [frames, ne_eq, not_true_eq_false, if_false, pure_bind, getSrv_bind, ptraceGetRegs]
  rw [bind_ok (traceCall_answered _ ht hacks)]
  simp [hentry, hseek, frameEntries, hsub, hparam, hleaf, TagSubprogram, TagFormalParameter, hfields,
    paramFields, AttrName, AttrType, AttrLocation, hty]

/-- `x`, an `int` whose location comes after its type. -/
theorem frames_type_before_location_x :
    let param : Entry := ⟨0x20, TagFormalParameter, false,
      [⟨AttrName, .str "x"⟩, ⟨AttrType, .offset 0x40⟩, ⟨AttrLocation, .bytes [0x91, 0x08]⟩]⟩
    let entry : Entry := ⟨0x10, TagSubprogram, true, [⟨AttrName, .str "main.f"⟩]⟩
    let exe := dwarfExe [entry, param, nullEntry 0x30]
    stoppedEngine.world.tracee = some ⟨fun _ => 0x90, fun _ => ⟨0x1000, 0x7ff0⟩, []⟩ ∧
    stoppedEngine.world.acks = [] ∧ exe.entryForPC (0x1000 : BitVec 64) = .ok entry ∧
    exe.dwarfData.seek entry.offset = .ok (entry :: param :: [nullEntry 0x30]) ∧
    entry.tag = TagSubprogram ∧ param.tag = TagFormalParameter ∧ param.children = false ∧
    param.field = ⟨AttrName, .str "x"⟩ :: ⟨AttrType, .offset 0x40⟩ ::
      [⟨AttrLocation, .bytes [0x91, 0x08]⟩] ∧
    exe.typeOf 0x40 = .ok ⟨"int", exe.arch.intSize⟩ ∧
    ∃ e', frames exe 1 stoppedEngine = .error (.error "no location for FormalParameter") e' :=
  ⟨rfl, rfl, rfl, rfl, rfl, rfl, rfl, rfl, rfl,
    frames_type_before_location rfl rfl rfl rfl rfl rfl rfl rfl rfl⟩

/-! ## What `Frames` is for

`Frames` is meant to render the formal parameters of the function that
contains the pc: the `FormalParameter` entries among its direct children,
in their order. When every child of the function is a leaf the code does
exactly that; the two theorems above show the shapes where it does not. -/

/-- A subtree with a real tag and no children of its own. -/
def Die.IsLeaf : Die → Prop
  | .node _ tag _ kids => tag ≠ 0 ∧ kids = none

/-- The attributes of a subtree that is a formal parameter. -/
def Die.asParam : Die → Option (List Field)
  | .node _ tag field _ => if tag = TagFormalParameter then some field else none

/-- The formal parameters among a subtree's direct children, in order. -/
def Die.params : Die → List (List Field)
  | .node _ _ _ none => []
  | .node _ _ _ (some kids) => kids.filterMap Die.asParam

/-- Over a run of leaves, the entry loop renders the formal parameters
among them and carries on after them. -/
theorem frameEntries_leaves (exe : Exe) (pid : Int) (fp : BitVec 64) (tail : Option String)
    (close : Nat → Nat) (rest : List Entry) :
    ∀ (kids : List Die), (∀ d ∈ kids, d.IsLeaf) → ∀ acc,
      frameEntries exe pid fp tail acc (Die.flattenList close kids ++ rest) =
        (kids.filterMap Die.asParam).foldlM (paramFields exe pid fp 0) acc >>=
          fun acc => frameEntries exe pid fp tail acc rest
  | [], _, acc => by simp [Die.flattenList]
  | .node o tag f kids :: ds, hk, acc => by
    obtain ⟨htag, rfl⟩ := hk _ (.head _)
    have ih := frameEntries_leaves exe pid fp tail close rest ds fun d hd => hk d (.tail _ hd)
    simp only [Die.flattenList, Die.flatten, List.singleton_append, List.cons_append, frameEntries, htag,
      if_false, List.filterMap_cons, Die.asParam]
    by_cases hp : tag = TagFormalParameter
    · simp [hp, ih]
    · simp [hp, ih]

/-- From a function's entry, the entry loop renders the function's own
parameters and stops at the null entry that ends its children. -/
theorem frameEntries_flatten {exe : Exe} {pid : Int} {fp : BitVec 64} {tail : Option String}
    {close : Nat → Nat} {o : Nat} {f : List Field} {kids : List Die} (rest : List Entry)
    (hkids : ∀ d ∈ kids, d.IsLeaf) (acc : String) :
    frameEntries exe pid fp tail acc (Die.flatten close (.node o TagSubprogram f (some kids)) ++ rest) =
      (Die.node o TagSubprogram f (some kids)).params.foldlM (paramFields exe pid fp 0) acc := by
  simp only [Die.flatten, List.cons_append, List.append_assoc, List.singleton_append, frameEntries,
    TagSubprogram, TagFormalParameter, Die.params]
  simp [frameEntries_leaves exe pid fp tail close _ kids hkids, frameEntries, nullEntry]

/-- **`Frames` renders exactly the function's own parameters** when every
child of the function is a leaf: it reads the registers, and its answer
is the attribute loop run over the formal parameters among the function's
direct children, in their order, from `fp = Rsp + PointerSize`. -/
theorem frames_renders_params {exe : Exe} {e : Engine} {t : Tracee} {close : Nat → Nat}
    {o : Nat} {f : List Field} {kids : List Die} {rest : List Entry}
    (ht : e.world.tracee = some t) (hacks : e.world.acks = [])
    (hentry : exe.entryForPC (t.regs e.srv.stoppedPid).rip =
      .ok (Die.node o TagSubprogram f (some kids)).entry)
    (hseek : exe.dwarfData.seek o = .ok (Die.flatten close (.node o TagSubprogram f (some kids)) ++ rest))
    (hkids : ∀ d ∈ kids, d.IsLeaf) :
    frames exe 1 e = (do
      let text ← (Die.node o TagSubprogram f (some kids)).params.foldlM (paramFields exe e.srv.stoppedPid
        ((t.regs e.srv.stoppedPid).rsp + BitVec.ofNat 64 exe.arch.pointerSize) 0) ""
      pure [Frame.mk text]) (stateOf (ptraceGetRegs e.srv.stoppedPid e)) := by
  have hregs : ptraceGetRegs e.srv.stoppedPid e = _ := traceCall_answered _ ht hacks
  simp only [frames, ne_eq, not_true_eq_false, if_false, pure_bind, getSrv_bind]
  rw [bind_ok hregs, hregs]
  simp only [check_ok, pure_bind, hentry, Die.entry, hseek, frameEntries_flatten rest hkids, stateOf_ok]

/-- `main.f(x int)` with a local `y`. -/
theorem frames_renders_params_main_f :
    let E : Die := .node 0x10 TagSubprogram [⟨AttrName, .str "main.f"⟩] (some
      [.node 0x20 TagFormalParameter
        [⟨AttrName, .str "x"⟩, ⟨AttrLocation, .bytes [0x91, 0x08]⟩, ⟨AttrType, .offset 0x40⟩] none,
       .node 0x28 TagVariable [⟨AttrName, .str "y"⟩] none])
    let exe := dwarfExe (Die.flatten (· + 8) E)
    let t : Tracee := ⟨fun _ => 0x90, fun _ => ⟨0x1000, 0x7ff0⟩, []⟩
    stoppedEngine.world.tracee = some t ∧ stoppedEngine.world.acks = [] ∧
    exe.entryForPC (t.regs stoppedEngine.srv.stoppedPid).rip = .ok E.entry ∧
    exe.dwarfData.seek 0x10 = .ok (Die.flatten (· + 8) E ++ []) ∧
    (∀ d ∈ [Die.node 0x20 TagFormalParameter
        [⟨AttrName, .str "x"⟩, ⟨AttrLocation, .bytes [0x91, 0x08]⟩, ⟨AttrType, .offset 0x40⟩] none,
       .node 0x28 TagVariable [⟨AttrName, .str "y"⟩] none], d.IsLeaf) ∧
    frames exe 1 stoppedEngine = (do
      let text ← E.params.foldlM (paramFields exe stoppedEngine.srv.stoppedPid
        ((t.regs stoppedEngine.srv.stoppedPid).rsp + BitVec.ofNat 64 exe.arch.pointerSize) 0) ""
      pure [Frame.mk text]) (stateOf (ptraceGetRegs stoppedEngine.srv.stoppedPid stoppedEngine)) :=
  have hkids : ∀ d ∈ [Die.node 0x20 TagFormalParameter
      [⟨AttrName, .str "x"⟩, ⟨AttrLocation, .bytes [0x91, 0x08]⟩, ⟨AttrType, .offset 0x40⟩] none,
      .node 0x28 TagVariable [⟨AttrName, .str "y"⟩] none], d.IsLeaf := by
    simp [Die.IsLeaf, TagFormalParameter, TagVariable]
  ⟨rfl, rfl, rfl, rfl, hkids, @frames_renders_params _ _ _ (· + 8) _ _ _ [] rfl rfl rfl rfl hkids⟩

/-! ## The values `Frames` prints

The Go compiler describes a parameter by its name, its location and its
type, in that order. For such parameters the attribute loop prints the
name, the location offset and the type's name, and reads a value only for
an `int` of `IntSize` bytes, at `fp` plus the offset. A parameter of any
other type, an `int16` among them, is printed without a value. -/

/-- A formal parameter as the compiler describes it. -/
structure Param where
  name : String
  loc : List UInt8
  type : Nat

/-- Its attributes, in the compiler's order. -/
def Param.fields (p : Param) : List Field :=
  [⟨AttrName, .str p.name⟩, ⟨AttrLocation, .bytes p.loc⟩, ⟨AttrType, .offset p.type⟩]

/-- The address of its value in a frame whose parameters start at `fp`. -/
def Param.addr (exe : Exe) (fp : BitVec 64) (p : Param) : BitVec 64 :=
  fp + BitVec.ofInt 64 (exe.evalLocation p.loc)

/-- What `Frames` prints for it when its type is `ty`: name, offset and
type, then the value read at its address if `ty` is an `int` of `IntSize`
bytes. -/
def Param.render (exe : Exe) (mem : Nat → UInt8) (fp : BitVec 64) (p : Param) (ty : DType) : String :=
  " " ++ p.name ++ "(" ++ toString (exe.evalLocation p.loc) ++ "(FP))" ++ "[" ++ ty.name ++ "]" ++
    if ty.name = "int" ∧ ty.size = exe.arch.intSize then
      "==" ++ fmtHexInt (exe.arch.int (readMem mem (p.addr exe fp).toNat exe.arch.intSize))
    else ""

/-- One parameter in the compiler's order: it is rendered, and the kernel
is left answering. -/
theorem paramFields_param (pid : Int) (acc : String) {exe : Exe} {e : Engine} {t : Tracee}
    {fp : BitVec 64} {p : Param} {ty : DType} (ht : e.world.tracee = some t) (hacks : e.world.acks = [])
    (hty : exe.typeOf p.type = .ok ty)
    (hloc : ty.name = "int" ∧ ty.size = exe.arch.intSize → p.addr exe fp ≠ 0) :
    ∃ e', paramFields exe pid fp 0 acc p.fields e = .ok (acc ++ p.render exe t.mem fp ty) e' ∧
      e'.world.tracee = some t ∧ e'.world.acks = [] := by
  simp only [Param.fields, paramFields, AttrName, AttrLocation, AttrType, hty, Nat.reduceEqDiff,
    ↓reduceIte, Param.render, String.append_assoc]
  by_cases hint : ty.name = "int" ∧ ty.size = exe.arch.intSize
  case neg =>
    rw [if_pos (not_and_or.mp hint), if_neg hint, String.append_empty]
    exact ⟨e, rfl, ht, hacks⟩
  case pos =>
    have hpeek : ptracePeek pid (p.addr exe fp) exe.arch.intSize e = _ := traceCall_answered _ ht hacks
    rw [if_neg (not_or.mpr ⟨not_not.mpr hint.1, not_not.mpr hint.2⟩), if_pos hint]
    simp only [Param.addr] at hpeek hloc
    rw [if_neg (hloc hint), bind_ok hpeek]
    exact ⟨_, rfl, rfl, rfl⟩

theorem foldlM_params (pid : Int) {exe : Exe} {t : Tracee} {fp : BitVec 64} {ty : Param → DType} :
    ∀ (ps : List Param) {e : Engine} (acc : String), e.world.tracee = some t → e.world.acks = [] →
      (∀ p ∈ ps, exe.typeOf p.type = .ok (ty p) ∧
        ((ty p).name = "int" ∧ (ty p).size = exe.arch.intSize → p.addr exe fp ≠ 0)) →
      ∃ e', (ps.map Param.fields).foldlM (paramFields exe pid fp 0) acc e =
        .ok (ps.foldl (fun acc p => acc ++ p.render exe t.mem fp (ty p)) acc) e'
  | [], e, acc, _, _, _ => ⟨e, rfl⟩
  | p :: ps, _, acc, ht, hacks, htype => by
    obtain ⟨e₁, h₁, ht₁, hacks₁⟩ :=
      paramFields_param pid acc ht hacks (htype p (.head _)).1 (htype p (.head _)).2
    obtain ⟨e', h'⟩ := foldlM_params pid ps (acc ++ p.render exe t.mem fp (ty p)) ht₁ hacks₁
      fun q hq => htype q (.tail _ hq)
    exact ⟨e', by rw [List.map_cons, List.foldlM_cons, bind_ok h₁, h']; rfl⟩

/-- **`Frames` prints each parameter, and the value of each `int` one from
its slot in the frame**, when every child of the function is a leaf and
its parameters are described in the compiler's order, each with a type
`ty p` (and an `int` one at a nonzero address): the answer is, parameter
after parameter, the name, the location offset, the type's name and, for
an `int` of `IntSize` bytes only, the value read at `fp` plus that offset,
`fp = Rsp + PointerSize`. -/
theorem frames_prints_params {exe : Exe} {e : Engine} {t : Tracee} {close : Nat → Nat}
    {o : Nat} {f : List Field} {kids : List Die} {rest : List Entry} {fp : BitVec 64}
    {ps : List Param} {ty : Param → DType} (ht : e.world.tracee = some t) (hacks : e.world.acks = [])
    (hkids : ∀ d ∈ kids, d.IsLeaf)
    (hentry : exe.entryForPC (t.regs e.srv.stoppedPid).rip =
      .ok (Die.node o TagSubprogram f (some kids)).entry)
    (hseek : exe.dwarfData.seek o = .ok (Die.flatten close (.node o TagSubprogram f (some kids)) ++ rest))
    (hparams : (Die.node o TagSubprogram f (some kids)).params = ps.map Param.fields)
    (hfp : fp = (t.regs e.srv.stoppedPid).rsp + BitVec.ofNat 64 exe.arch.pointerSize)
    (htype : ∀ p ∈ ps, exe.typeOf p.type = .ok (ty p) ∧
      ((ty p).name = "int" ∧ (ty p).size = exe.arch.intSize → p.addr exe fp ≠ 0)) :
    ∃ e', frames exe 1 e = .ok [⟨ps.foldl (fun acc p => acc ++ p.render exe t.mem fp (ty p)) ""⟩] e' := by
  have hregs : ptraceGetRegs e.srv.stoppedPid e = _ := traceCall_answered _ ht hacks
  simp only [frames, ne_eq, not_true_eq_false, if_false, pure_bind, getSrv_bind]
  rw [bind_ok hregs]
  simp only [check_ok, pure_bind, hentry, Die.entry, hseek, frameEntries_flatten rest hkids, hparams, ← hfp]
  obtain ⟨e', h'⟩ := foldlM_params e.srv.stoppedPid ps ""
    (show ({ e with world := { e.world with acks := [], tracee := some t, execs := e.world.execs ++ [] } } :
      Engine).world.tracee = some t from rfl) rfl htype
  exact ⟨e', by rw [bind_ok h']; rfl⟩

/-- `main.f(x int, y int16)`: `x` is read at `0x7ff0 + 8 + 8`, and `y` is
printed without a value. -/
theorem frames_prints_params_main_f :
    let x : Param := ⟨"x", [0x91, 0x08], 0x40⟩
    let y : Param := ⟨"y", [0x91, 0x10], 0x48⟩
    let E : Die := .node 0x10 TagSubprogram [⟨AttrName, .str "main.f"⟩] (some
      [.node 0x20 TagFormalParameter x.fields none, .node 0x28 TagFormalParameter y.fields none])
    let exe := { dwarfExe (Die.flatten (· + 8) E) with typeOf := (fun off =>
      if off = 0x40 then .ok ⟨"int", 8⟩ else if off = 0x48 then .ok ⟨"int16", 2⟩ else .error "no type") }
    let ty : Param → DType := fun p => if p.type = 0x40 then ⟨"int", 8⟩ else ⟨"int16", 2⟩
    let t : Tracee := ⟨fun _ => 0x90, fun _ => ⟨0x1000, 0x7ff0⟩, []⟩
    stoppedEngine.world.tracee = some t ∧ stoppedEngine.world.acks = [] ∧
    (∀ d ∈ [Die.node 0x20 TagFormalParameter x.fields none,
      .node 0x28 TagFormalParameter y.fields none], d.IsLeaf) ∧
    exe.entryForPC (t.regs stoppedEngine.srv.stoppedPid).rip = .ok E.entry ∧
    exe.dwarfData.seek 0x10 = .ok (Die.flatten (· + 8) E ++ []) ∧
    E.params = [x, y].map Param.fields ∧
    (0x7ff8 : BitVec 64) = (t.regs stoppedEngine.srv.stoppedPid).rsp + BitVec.ofNat 64 exe.arch.pointerSize ∧
    (∀ p ∈ [x, y], exe.typeOf p.type = .ok (ty p) ∧
      ((ty p).name = "int" ∧ (ty p).size = exe.arch.intSize → p.addr exe 0x7ff8 ≠ 0)) ∧
    ∃ e', frames exe 1 stoppedEngine =
      .ok [⟨[x, y].foldl (fun acc p => acc ++ p.render exe t.mem 0x7ff8 (ty p)) ""⟩] e' := by
  intro x y E exe ty t
  have hkids : ∀ d ∈ [Die.node 0x20 TagFormalParameter x.fields none,
      .node 0x28 TagFormalParameter y.fields none], d.IsLeaf := by
    simp [Die.IsLeaf, TagFormalParameter]
  have htype : ∀ p ∈ [x, y], exe.typeOf p.type = .ok (ty p) ∧
      ((ty p).name = "int" ∧ (ty p).size = exe.arch.intSize → p.addr exe 0x7ff8 ≠ 0) := by
    simp only [List.mem_cons, List.mem_singleton, List.not_mem_nil, or_false, forall_eq_or_imp, forall_eq]
    exact ⟨⟨rfl, fun _ => by decide⟩, rfl, by decide⟩
  exact ⟨rfl, rfl, hkids, rfl, rfl, rfl, rfl, htype,
    @frames_prints_params _ _ _ (· + 8) _ _ _ [] _ _ _ rfl rfl hkids rfl rfl rfl rfl htype⟩

end OgleServer
