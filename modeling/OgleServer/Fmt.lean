import Mathlib.Tactic.IntervalCases
import Mathlib.Data.Nat.Digits

/-!
# Fmt — the verbs of `fmt` and `strconv` the server speaks

The server prints addresses with `fmt.Sprintf("%#x", addr)` and reads
them back with `strconv.ParseUint(s, 0, 0)`; its error texts use `%q`
and `%d`. This module models those library functions on the values the
server passes them:

* `fmtHex` — `%#x` of an unsigned value: `fmtInteger`'s digit loop is
  exactly `Nat.toDigits 16` (lowercase, most significant digit first,
  `"0"` for zero);
* `fmtHexInt` — `%#x` of an `int64`, with the sign before the prefix;
* `quote` — `%q`, i.e. `strconv.Quote`, exact on the runes up to
  `U+00FF`; above, where `strconv.IsPrint` reads Unicode tables, every
  rune is kept as printable;
* `parseUint` — `strconv.ParseUint(s, 0, 0)` on a 64-bit target, in the
  library version the server was written against (prefix `0x`/`0X`
  selects hex, a leading `0` octal, anything else decimal).

The headline is `parseUint_fmtHex`: the parser reads every address the
formatter prints back to the same address.
-/

namespace OgleServer

/-! ## Printing -/

/-- `fmt.Sprintf("%#x", n)` for an unsigned `n`. -/
def fmtHex (n : Nat) : String :=
  "0x" ++ String.mk (Nat.toDigits 16 n)

/-- `fmt.Sprintf("%#x", i)` for a signed `i`: Go prints `-0x5`. -/
def fmtHexInt (i : Int) : String :=
  if i < 0 then "-" ++ fmtHex i.natAbs else fmtHex i.natAbs

/-- `w` lowercase hex digits of `n`, most significant first, as the `\x`,
`\u` and `\U` escapes write them. -/
def hexPad (w n : Nat) : String :=
  String.mk ((List.range w).reverse.map fun i => Nat.digitChar (n / 16 ^ i % 16))

/-- `strconv.IsPrint` on the runes up to `U+00FF`, which it decides by
range: printable ASCII, and Latin-1 from `U+00A1` on but the soft hyphen
`U+00AD`. Above `U+00FF` it reads Unicode tables the model leaves out, and
takes every rune there as printable. -/
def isPrint (c : Char) : Bool :=
  if c.toNat ≤ 0xFF then (0x20 ≤ c.toNat && c.toNat ≤ 0x7E) || (0xA1 ≤ c.toNat && c.toNat != 0xAD)
  else true

/-- `strconv.Quote`'s escape of one rune (`appendEscapedRune`): quote and
backslash are escaped, printable runes kept, the seven named control
characters get their short escapes, the other control bytes `\xHH`, and
the other runes that do not print `\uHHHH` or `\UHHHHHHHH`. -/
def quoteChar (c : Char) : String :=
  if c = '"' ∨ c = '\\' then "\\" ++ c.toString
  else if isPrint c then c.toString
  else if c = '\x07' then "\\a"
  else if c = '\x08' then "\\b"
  else if c = '\x0c' then "\\f"
  else if c = '\n' then "\\n"
  else if c = '\r' then "\\r"
  else if c = '\t' then "\\t"
  else if c = '\x0b' then "\\v"
  else if c.toNat < 0x20 ∨ c.toNat = 0x7f then "\\x" ++ hexPad 2 c.toNat
  else if c.toNat < 0x10000 then "\\u" ++ hexPad 4 c.toNat
  else "\\U" ++ hexPad 8 c.toNat

/-- `fmt.Sprintf("%q", s)`. -/
def quote (s : String) : String :=
  "\"" ++ String.join (s.toList.map quoteChar) ++ "\""

example : quote "a\x07\x7f\u00a0é\"" = "\"a\\a\\x7f\\u00a0é\\\"\"" := by decide

/-! ## `strconv.ParseUint(s, 0, 0)` -/

/-- The value of one digit in bases up to 36, as `ParseUint`'s digit
switch reads it. -/
def digitValue (c : Char) : Option Nat :=
  if '0' ≤ c ∧ c ≤ '9' then some (c.toNat - '0'.toNat)
  else if 'a' ≤ c ∧ c ≤ 'z' then some (c.toNat - 'a'.toNat + 10)
  else if 'A' ≤ c ∧ c ≤ 'Z' then some (c.toNat - 'A'.toNat + 10)
  else none

/-- `strconv.NumError.Error()` for a `ParseUint` of `s0`. -/
def numError (s0 err : String) : String :=
  "strconv.ParseUint: parsing " ++ quote s0 ++ ": " ++ err

/-- `ParseUint`'s digit loop in base `base`, with the 64-bit cutoff and
wrap checks; `n` is the value read so far. -/
def parseDigits (base : Nat) (s0 : String) : Nat → List Char → Except String Nat
  | n, [] => .ok n
  | n, c :: cs =>
    match digitValue c with
    | none => .error (numError s0 "invalid syntax")
    | some v =>
      if base ≤ v then .error (numError s0 "invalid syntax")
      else if (2 ^ 64 - 1) / base + 1 ≤ n then .error (numError s0 "value out of range")
      else if (n * base + v) % 2 ^ 64 < n * base then
        .error (numError s0 "value out of range")
      else parseDigits base s0 ((n * base + v) % 2 ^ 64) cs

/-- `strconv.ParseUint(s, 0, 0)`: the base comes from the prefix. -/
def parseUint (s : String) : Except String (BitVec 64) :=
  BitVec.ofNat 64 <$>
    match s.toList with
    | [] => .error (numError s "invalid syntax")
    | '0' :: x :: rest =>
      if x = 'x' ∨ x = 'X' then
        if rest = [] then .error (numError s "invalid syntax")
        else parseDigits 16 s 0 rest
      else parseDigits 8 s 0 ('0' :: x :: rest)
    | cs => parseDigits (if cs = ['0'] then 8 else 10) s 0 cs

/-! ## The round trip -/

/-- The value a run of hex digits denotes, read from `n` on. -/
def hexValue (n : Nat) (cs : List Char) : Nat :=
  cs.foldl (fun acc c => acc * 16 + (digitValue c).getD 0) n

theorem digitValue_digitChar {d : Nat} (h : d < 16) :
    digitValue (Nat.digitChar d) = some d := by
  interval_cases d <;> rfl

theorem le_hexValue (n : Nat) (cs : List Char) : n ≤ hexValue n cs := by
  induction cs generalizing n with
  | nil => exact le_refl n
  | cons c cs ih => exact le_trans (by omega : n ≤ n * 16 + (digitValue c).getD 0) (ih _)

/-- On hex digits whose value fits in 64 bits the digit loop never
reports a range error. -/
theorem parseDigits_hex (s0 : String) (n : Nat) (cs : List Char)
    (hd : ∀ c ∈ cs, ∃ v < 16, digitValue c = some v) (hlt : hexValue n cs < 2 ^ 64) :
    parseDigits 16 s0 n cs = .ok (hexValue n cs) := by
  induction cs generalizing n with
  | nil => rfl
  | cons c cs ih =>
    obtain ⟨v, hv, hc⟩ := hd c (List.mem_cons_self c cs)
    have hnext : n * 16 + v ≤ hexValue n (c :: cs) := by
      simpa [hexValue, hc] using le_hexValue (n * 16 + v) cs
    have hfit : (n * 16 + v) % 2 ^ 64 = n * 16 + v := Nat.mod_eq_of_lt (by omega)
    have hrest : hexValue n (c :: cs) = hexValue (n * 16 + v) cs := by simp [hexValue, hc]
    simp only [parseDigits, hc, hfit]
    rw [if_neg (by omega), if_neg (by omega), if_neg (by omega), hrest]
    exact ih _ (fun c' h' => hd c' (List.mem_cons_of_mem c h')) (hrest ▸ hlt)

/-- `Nat.toDigitsCore` with enough fuel prints `n` in front of what it
was given, so reading its output back from zero resumes at `n`. -/
theorem hexValue_toDigitsCore (f n : Nat) (ds : List Char) (hf : n < f) :
    hexValue 0 (Nat.toDigitsCore 16 f n ds) = hexValue n ds := by
  induction f generalizing n ds with
  | zero => omega
  | succ f ih =>
    have hdig := digitValue_digitChar (Nat.mod_lt n (by decide : 16 > 0))
    by_cases h0 : n / 16 = 0
    · simp only [Nat.toDigitsCore, h0, if_true, hexValue, List.foldl_cons, hdig,
        Option.getD_some]
      congr 1
      omega
    · simp only [Nat.toDigitsCore, h0, if_false]
      rw [ih _ _ (by omega)]
      simp only [hexValue, List.foldl_cons, hdig, Option.getD_some]
      congr 1
      omega

theorem isHexDigit_toDigitsCore (f n : Nat) (ds : List Char)
    (hds : ∀ c ∈ ds, ∃ v < 16, digitValue c = some v) :
    ∀ c ∈ Nat.toDigitsCore 16 f n ds, ∃ v < 16, digitValue c = some v := by
  induction f generalizing n ds with
  | zero => exact hds
  | succ f ih =>
    have hnew : ∀ c ∈ Nat.digitChar (n % 16) :: ds, ∃ v < 16, digitValue c = some v := by
      intro c hc
      rcases List.mem_cons.mp hc with rfl | hc
      · exact ⟨_, Nat.mod_lt n (by decide), digitValue_digitChar (Nat.mod_lt n (by decide))⟩
      · exact hds c hc
    simp only [Nat.toDigitsCore]
    split
    · exact hnew
    · exact ih _ _ hnew

theorem toDigitsCore_ne_nil (f n : Nat) {ds : List Char} (h : ds ≠ []) :
    Nat.toDigitsCore 16 f n ds ≠ [] := by
  induction f generalizing n ds with
  | zero => exact h
  | succ f ih =>
    simp only [Nat.toDigitsCore]
    split
    · exact List.cons_ne_nil _ _
    · exact ih _ (List.cons_ne_nil _ _)

theorem toDigits_ne_nil (n : Nat) : Nat.toDigits 16 n ≠ [] := by
  simp only [Nat.toDigits, Nat.toDigitsCore]
  split
  · exact List.cons_ne_nil _ _
  · exact toDigitsCore_ne_nil _ _ (List.cons_ne_nil _ _)

/-- **The address round trip**: `ParseUint(fmt.Sprintf("%#x", a), 0, 0)`
is `a`, for every 64-bit `a`. -/
theorem parseUint_fmtHex (a : BitVec 64) : parseUint (fmtHex a.toNat) = .ok a := by
  have hval : hexValue 0 (Nat.toDigits 16 a.toNat) = a.toNat := by
    simpa [hexValue] using hexValue_toDigitsCore (a.toNat + 1) a.toNat [] (by omega)
  have hd : ∀ c ∈ Nat.toDigits 16 a.toNat, ∃ v < 16, digitValue c = some v :=
    isHexDigit_toDigitsCore _ _ [] (by simp)
  have hparse : parseDigits 16 (fmtHex a.toNat) 0 (Nat.toDigits 16 a.toNat) = .ok a.toNat := by
    rw [parseDigits_hex _ 0 _ hd (by rw [hval]; exact a.isLt), hval]
  have hlist : (fmtHex a.toNat).data = '0' :: 'x' :: Nat.toDigits 16 a.toNat := rfl
  simp [parseUint, hlist, toDigits_ne_nil, hparse, Functor.map, Except.map]

/-! ## What the parser refuses -/

/-- The digit loop refuses a run holding a character that is no digit. -/
theorem parseDigits_of_not_digit (base : Nat) (s0 : String) {c : Char} (hc : digitValue c = none) :
    ∀ (n : Nat) (cs : List Char), c ∈ cs → ∃ err, parseDigits base s0 n cs = .error err
  | _, [], h => absurd h (List.not_mem_nil c)
  | n, d :: cs, h => by
    cases hd : digitValue d with
    | none => simp only [parseDigits, hd]; exact ⟨_, rfl⟩
    | some v =>
      have hmem : c ∈ cs := (List.mem_cons.mp h).resolve_left fun h' => by rw [h', hd] at hc; cases hc
      simp only [parseDigits, hd]
      split_ifs
      · exact ⟨_, rfl⟩
      · exact ⟨_, rfl⟩
      · exact ⟨_, rfl⟩
      · exact parseDigits_of_not_digit base s0 hc _ cs hmem

/-- **`ParseUint` refuses a text holding a character that is no digit**,
whatever its prefix: a `file:line` text, for one. -/
theorem parseUint_of_not_digit {s : String} {c : Char} (hs : c ∈ s.toList) (hc : digitValue c = none) :
    ∃ err, parseUint s = .error err := by
  have hmap : ∀ {r : Except String Nat}, (∃ err, r = .error err) → ∃ err, BitVec.ofNat 64 <$> r = .error err :=
    fun ⟨err, h⟩ => ⟨err, by rw [h]; rfl⟩
  have hdigit : ∀ {d}, digitValue d ≠ none → c ≠ d := fun hd h => hd (h ▸ hc)
  unfold parseUint
  apply hmap
  split
  · next hl => rw [hl] at hs; exact absurd hs (List.not_mem_nil c)
  · next x rest hl =>
    rw [hl] at hs
    split_ifs with hx hrest
    · exact ⟨_, rfl⟩
    · have hcx : c ≠ x := hdigit (by rcases hx with rfl | rfl <;> decide)
      have hc0 : c ≠ '0' := hdigit (by decide)
      exact parseDigits_of_not_digit 16 s hc 0 rest (by simpa [hc0, hcx] using hs)
    · exact parseDigits_of_not_digit 8 s hc 0 _ hs
  · exact parseDigits_of_not_digit _ s hc 0 _ hs

end OgleServer
