import OgleServer.Kernel

/-!
# Dwarf — the debug-info entries `Frames` walks

What the `debug/dwarf` reader returns to `Frames`: the entry stream in file
order, with what `Next` answers past its end (`tail`: `none` for a clean
end, or a decoding error), and the tree a well-formed stream serialises.
-/

namespace OgleServer

/-- The dynamic type of a `dwarf.Field`'s `Val`. -/
inductive Val where
  | bytes (b : List UInt8)
  | str (s : String)
  | offset (o : Nat)
  | int (i : Int)
  | flag (b : Bool)
  deriving DecidableEq, Repr

structure Field where
  attr : Nat
  val : Val
  deriving DecidableEq, Repr

/-- A `dwarf.Entry`. -/
structure Entry where
  offset : Nat
  tag : Nat
  children : Bool
  field : List Field
  deriving DecidableEq, Repr

/-! The tags and attributes of package `dwarf` that `Frames` reads. -/

def TagFormalParameter : Nat := 0x05

def TagSubprogram : Nat := 0x2e

def TagLexDwarfBlock : Nat := 0x0b

def TagVariable : Nat := 0x34

def AttrLocation : Nat := 0x02

def AttrName : Nat := 0x03

def AttrType : Nat := 0x49

/-- A `dwarf.Type`, by what `Frames` asks of it: `String()` and `Size()`. -/
structure DType where
  name : String
  size : Int
  deriving DecidableEq, Repr

/-- The `.debug_info` entry stream and what the reader meets after it. -/
structure DwarfData where
  entries : List Entry
  tail : Option String
  deriving DecidableEq, Repr

/-- A `dwarf.Reader` after `Seek`: the entries still to come, or its error. -/
def DwarfData.seek (d : DwarfData) (off : Nat) : Except String (List Entry) :=
  match d.entries.findIdx? (·.offset = off) with
  | some i => .ok (d.entries.drop i)
  | none => .error "offset out of range"

/-! ## Well-formed streams -/

/-- An entry with its subtree: `kids = none` when it has no children. -/
inductive Die where
  | node (offset tag : Nat) (field : List Field) (kids : Option (List Die))

/-- The entry of a node, its children flag set from its subtree. -/
def Die.entry : Die → Entry
  | .node offset tag field kids => ⟨offset, tag, kids.isSome, field⟩

/-- The null entry that ends a list of children. -/
def nullEntry (offset : Nat) : Entry := ⟨offset, 0, false, []⟩

mutual
/-- The preorder serialisation; `close` gives each null entry's offset. -/
def Die.flatten (close : Nat → Nat) : Die → List Entry
  | .node o t f none => [⟨o, t, false, f⟩]
  | .node o t f (some kids) => ⟨o, t, true, f⟩ :: Die.flattenList close kids ++ [nullEntry (close o)]

/-- The serialisation of a list of sibling subtrees. -/
def Die.flattenList (close : Nat → Nat) : List Die → List Entry
  | [] => []
  | d :: ds => d.flatten close ++ Die.flattenList close ds
end

end OgleServer
