import OgleServer.Server

/-!
# Eval — `eval` and `evalAddress`

`eval` reads the narrow expression grammar (`re:`, `sym:`, `src:`, a
leading digit); `evalAddress` turns one of `eval`'s answers back into a
pc: a symbol name if it is one, else a number in `ParseUint`'s base-0
syntax. Neither touches the engine's state, so both are functions of the
loaded `Exe` alone.

Go strings are bytes and the model's are characters; the two agree here
because every prefix the code tests and slices off is ASCII.

The module ends with the address round trip as `evalAddress` sees it
(`evalAddress_fmtHex`): an address `eval` prints for a `sym:` lookup
comes back as itself unless a symbol is literally named by its text. The
`file:line` text of a `src:` lookup does not come back at all
(`evalAddress_file_line`).
-/

namespace OgleServer

/-- `strings.HasPrefix(s, pre)`. -/
def hasPrefix (s pre : String) : Bool :=
  pre.toList.isPrefixOf s.toList

/-- `s[n:]`, after an ASCII prefix of `n` bytes. -/
def dropPrefix (s : String) (n : Nat) : String :=
  ⟨s.toList.drop n⟩

/-- `Server.lookupSource`. -/
def lookupSource (exe : Exe) (pc : BitVec 64) : String × Int × Bool :=
  match exe.table with
  | none => ("", 0, false)
  | some pcToLine => pcToLine pc

/-- Whether the first byte of `s` is a decimal digit. -/
def startsWithDigit (s : String) : Bool :=
  match s.toList with
  | c :: _ => '0' ≤ c && c ≤ '9'
  | [] => false

/-- `Server.eval`. -/
def eval (exe : Exe) (expr : String) : Except String (List String) :=
  if hasPrefix expr "re:" then
    match exe.compileRE (dropPrefix expr 3) with
    | some err => .error err
    | none => exe.lookupRE (dropPrefix expr 3)
  else if hasPrefix expr "sym:" then
    match exe.lookupSym (dropPrefix expr 4) with
    | .error err => .error err
    | .ok addr => .ok [fmtHex addr.toNat]
  else if hasPrefix expr "src:" then
    match parseUint (dropPrefix expr 4) with
    | .error err => .error err
    | .ok addr =>
      match lookupSource exe addr with
      | (file, line, true) => .ok [file ++ ":" ++ toString line]
      | (_, _, false) => .error ("no PC/line data for: " ++ quote expr)
  else if startsWithDigit expr then
    match parseUint expr with
    | .error err => .error err
    | .ok addr =>
      match exe.lookupPC addr with
      | .error err => .error err
      | .ok funcName => .ok [funcName]
  else .error ("bad expression syntax: " ++ quote expr)

/-- `Server.evalAddress`. -/
def evalAddress (exe : Exe) (expr : String) : Except String (BitVec 64) :=
  match exe.lookupSym expr with
  | .ok addr => .ok addr
  | .error _ =>
    match parseUint expr with
    | .ok addr => .ok addr
    | .error _ => .error ("eval: " ++ quote expr ++ " is neither symbol nor number")

/-- A `sym:` expression is looked up under the name after the prefix. -/
theorem eval_sym (exe : Exe) (n : String) :
    eval exe ("sym:" ++ n) = match exe.lookupSym n with
      | .error err => .error err
      | .ok addr => .ok [fmtHex addr.toNat] := by
  have hdrop : dropPrefix ("sym:" ++ n) 4 = n := rfl
  simp [eval, hasPrefix, hdrop, List.isPrefixOf]

/-- **The round trip through `evalAddress`**: the text `eval` prints for
an address names that address again, unless a symbol is called by it. -/
theorem evalAddress_fmtHex (exe : Exe) (a : BitVec 64)
    (hsym : ∃ err, exe.lookupSym (fmtHex a.toNat) = .error err) :
    evalAddress exe (fmtHex a.toNat) = .ok a := by
  obtain ⟨err, h⟩ := hsym
  simp [evalAddress, h, parseUint_fmtHex]

/-- A `src:` expression is read as the pc after the prefix and answered
with the `file:line` of its line-table entry. -/
theorem eval_src (exe : Exe) (s : String) :
    eval exe ("src:" ++ s) = match parseUint s with
      | .error err => .error err
      | .ok addr =>
        match lookupSource exe addr with
        | (file, line, true) => .ok [file ++ ":" ++ toString line]
        | (_, _, false) => .error ("no PC/line data for: " ++ quote ("src:" ++ s)) := by
  have hdrop : dropPrefix ("src:" ++ s) 4 = s := rfl
  simp [eval, hasPrefix, hdrop, List.isPrefixOf]

/-- An expression that starts with a digit has none of the three prefixes:
it is read as a pc and answered with the name of the function containing
it. -/
theorem eval_number (exe : Exe) {expr : String} (h : startsWithDigit expr = true) :
    eval exe expr = match parseUint expr with
      | .error err => .error err
      | .ok addr =>
        match exe.lookupPC addr with
        | .error err => .error err
        | .ok funcName => .ok [funcName] := by
  obtain ⟨c, cs, hl, hc⟩ : ∃ c cs, expr.data = c :: cs ∧ c ≤ '9' := by
    unfold startsWithDigit at h
    split at h <;> simp_all
  have hr : 'r' ≠ c := by rintro rfl; exact absurd hc (by decide)
  have hs : 's' ≠ c := by rintro rfl; exact absurd hc (by decide)
  simp [eval, hasPrefix, hl, List.isPrefixOf, hr, hs, h]

/-- **A `file:line` text is no address**: `evalAddress` cannot parse it
(`:` is no digit), so unless a symbol is named by it, it is refused. -/
theorem evalAddress_file_line (exe : Exe) (file : String) (line : Int)
    (hname : ∃ err, exe.lookupSym (file ++ ":" ++ toString line) = .error err) :
    evalAddress exe (file ++ ":" ++ toString line) =
      .error ("eval: " ++ quote (file ++ ":" ++ toString line) ++ " is neither symbol nor number") := by
  obtain ⟨err, h⟩ := hname
  obtain ⟨err', h'⟩ := @parseUint_of_not_digit (file ++ ":" ++ toString line) ':' (by simp) (by decide)
  simp [evalAddress, h, h']

/-- A small amd64 executable for worked cases: its code is all `NOP`s
(`0x90`), `main.foo` is at `0x1000` and `main.alias` names the same
address, and a pattern matches the names it is a prefix of. -/
def demoExe : Exe where
  arch := amd64
  executable := "demo"
  image := fun _ => 0x90
  dwarfData := ⟨[], none⟩
  table := none
  lookupSym := fun n =>
    if n = "main.foo" ∨ n = "main.alias" then .ok 0x1000 else .error ("symbol not found: " ++ n)
  compileRE := fun _ => none
  lookupRE := fun re => .ok (["main.alias", "main.foo"].filter fun n => hasPrefix n re)
  lookupPC := fun _ => .ok "main.foo"
  entryForPC := fun _ => .error "no entry for pc"
  typeOf := fun _ => .error "no type"
  evalLocation := fun _ => 0

/-- What the kernel reports in the worked runs of `demoExe`: the stop at
exec, the trap of a breakpoint at `main.foo`, then a `SIGURG` stop
(signal `23`) and another trap. -/
def demoStops : List (Except String Stop) :=
  [.ok ⟨1, .stopped 5 0, ⟨0x400, 0x7ff0⟩⟩, .ok ⟨1, .stopped 5 0, ⟨0x1001, 0x7ff0⟩⟩,
    .ok ⟨1, .stopped 23 0, ⟨0x1001, 0x7ff0⟩⟩, .ok ⟨1, .stopped 5 0, ⟨0x1001, 0x7ff0⟩⟩]

/-- The server `New` returns for `demoExe`, with a fresh copy of its code
being traced and a kernel that answers every call. -/
def demoTraced : Engine :=
  ⟨Server.new, { World.start [] with tracee := some ⟨demoExe.image, fun _ => default, []⟩ }⟩

end OgleServer
