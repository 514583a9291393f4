import Mathlib.Data.List.Basic

/-!
# Ogler — the test's pattern matcher

`matches` of `ogler_test.go` checks each value the server prints against
a pattern of `expectedVars`, in which an `X` greedily matches one or more
hex characters. Strings are lists of bytes, as Go indexes them. `matches`
accepts exactly the greedy reading of its comment (`matches_iff_greedy`);
what it accepts is in the pattern's regular language, and on a pattern in
which no `X` is followed by an `X` or a hex character it accepts all of
that language (`matches_exact`).
-/

namespace OgleServer

/-- `isHex`. -/
def isHex (r : UInt8) : Bool :=
  if '0'.toNat ≤ r.toNat ∧ r.toNat ≤ '9'.toNat then true
  else if 'a'.toNat ≤ r.toNat ∧ r.toNat ≤ 'f'.toNat then true
  else if 'A'.toNat ≤ r.toNat ∧ r.toNat ≤ 'F'.toNat then true
  else false

/-- The byte `'X'`, which stands for a run of hex characters. -/
def wildcard : UInt8 := 'X'.toNat.toUInt8

/-- The loop of `matches` on `p[i:]` and `s[j:]`; an `X` skips the run of
hex characters from `j`. -/
def matchFrom : List UInt8 → List UInt8 → Bool
  | [], s => s.isEmpty
  | _ :: _, [] => false
  | c :: p, b :: s =>
    if c = wildcard then
      if !isHex b then false else matchFrom p ((b :: s).dropWhile isHex)
    else if c ≠ b then false
    else matchFrom p s

/-- `matches`. -/
def «matches» (p s : List UInt8) : Bool :=
  matchFrom p s

/-- The bytes of a Go string literal of the test, all ASCII. -/
def asciiBytes (s : String) : List UInt8 :=
  s.toList.map fun ch => ch.toNat.toUInt8

/-! ## What a pattern stands for -/

/-- The pattern read as a regular expression: `X` stands for one or more
hex characters and every other byte for itself. -/
inductive InPattern : List UInt8 → List UInt8 → Prop
  | nil : InPattern [] []
  | lit {c : UInt8} {p s : List UInt8} : c ≠ wildcard → InPattern p s → InPattern (c :: p) (c :: s)
  | hex {p h s : List UInt8} : h ≠ [] → (∀ b ∈ h, isHex b) → InPattern p s →
      InPattern (wildcard :: p) (h ++ s)

/-- The pattern read as the comment of `matches` has it: as `InPattern`,
each `X` taking the longest run of hex characters there is. -/
inductive Greedy : List UInt8 → List UInt8 → Prop
  | nil : Greedy [] []
  | lit {c : UInt8} {p s : List UInt8} : c ≠ wildcard → Greedy p s → Greedy (c :: p) (c :: s)
  | hex {p h s : List UInt8} : h ≠ [] → (∀ b ∈ h, isHex b) → (∀ b ∈ s.head?, isHex b = false) →
      Greedy p s → Greedy (wildcard :: p) (h ++ s)

theorem Greedy.inPattern {p s : List UInt8} (h : Greedy p s) : InPattern p s := by
  induction h with
  | nil => exact .nil
  | lit hc _ ih => exact .lit hc ih
  | hex hh hhex _ _ ih => exact .hex hh hhex ih

/-- After each `X` the pattern ends, or goes on with a byte that is neither
`X` nor hex. -/
def greedyExact : List UInt8 → Bool
  | [] => true
  | c :: p => (c != wildcard || p.head?.all fun d => d != wildcard && !isHex d) && greedyExact p

/-! ## The greedy run -/

theorem dropWhile_isHex_append {s : List UInt8} (hs : ∀ b ∈ s.head?, isHex b = false) :
    ∀ {h : List UInt8}, (∀ b ∈ h, isHex b) → (h ++ s).dropWhile isHex = s
  | [], _ => by
    cases s with
    | nil => rfl
    | cons b s => simp [List.dropWhile_cons, hs b rfl]
  | b :: h, hh => by
    rw [List.cons_append, List.dropWhile_cons, if_pos (hh b (.head _))]
    exact dropWhile_isHex_append hs fun b' hb' => hh b' (.tail _ hb')

/-- A string that starts with a hex character is the longest run of them
and what follows it. -/
theorem takeWhile_isHex {b : UInt8} {s : List UInt8} (hb : isHex b = true) :
    (b :: s).takeWhile isHex ≠ [] ∧ (∀ c ∈ (b :: s).takeWhile isHex, isHex c) ∧
      ∀ c ∈ ((b :: s).dropWhile isHex).head?, isHex c = false := by
  refine ⟨by simp [List.takeWhile_cons, hb], fun c hc => List.mem_takeWhile_imp hc, fun c hc => ?_⟩
  have := List.head?_dropWhile_not isHex (b :: s)
  rw [Option.mem_def.mp hc] at this
  simpa using this

/-! ## What `matches` accepts -/

theorem greedy_of_matchFrom : ∀ {p s : List UInt8}, matchFrom p s = true → Greedy p s
  | [], s, h => by
    obtain rfl : s = [] := List.isEmpty_iff.mp h
    exact .nil
  | _ :: _, [], h => by simp [matchFrom] at h
  | c :: p, b :: s, h => by
    simp only [matchFrom] at h
    split at h
    · rename_i hc
      subst hc
      split at h
      · cases h
      · have hb : isHex b = true := by simpa using ‹¬(!isHex b) = true›
        obtain ⟨hne, hhex, hrest⟩ := takeWhile_isHex (s := s) hb
        rw [← List.takeWhile_append_dropWhile isHex (b :: s)]
        exact .hex hne hhex hrest (greedy_of_matchFrom h)
    · split at h
      · cases h
      · obtain rfl : c = b := not_not.mp ‹¬c ≠ b›
        exact .lit ‹_› (greedy_of_matchFrom h)

theorem matchFrom_of_greedy {p s : List UInt8} (h : Greedy p s) : matchFrom p s = true := by
  induction h with
  | nil => rfl
  | lit hc _ ih => simpa [matchFrom, hc] using ih
  | @hex p h s hh hhex hs _ ih =>
    obtain ⟨b, h, rfl⟩ := List.exists_cons_of_ne_nil hh
    have hb : isHex b = true := hhex b (.head _)
    have hdrop := dropWhile_isHex_append hs hhex
    simp only [List.cons_append, matchFrom, if_true, hb, Bool.not_true, Bool.false_eq_true, if_false,
      List.append_eq] at hdrop ⊢
    rw [hdrop]
    exact ih

/-- **`matches` is the greedy reading of its comment.** It accepts exactly
when the string splits along the pattern, each `X` taking a longest
nonempty run of hex characters and every other byte matching itself. -/
theorem matches_iff_greedy (p s : List UInt8) : «matches» p s = true ↔ Greedy p s :=
  ⟨greedy_of_matchFrom, matchFrom_of_greedy⟩

/-! ## The pattern's language -/

theorem greedyExact_cons {c : UInt8} {p : List UInt8} :
    greedyExact (c :: p) = true ↔
      (c = wildcard → ∀ d ∈ p.head?, d ≠ wildcard ∧ isHex d = false) ∧ greedyExact p = true := by
  cases p with
  | nil => simp [greedyExact]
  | cons d p =>
    by_cases hc : c = wildcard <;> simp [greedyExact, hc]

/-- A pattern that starts with a byte neither `X` nor hex has no string
that starts with a hex character. -/
theorem InPattern.head_not_isHex {p s : List UInt8} (h : InPattern p s)
    (hp : ∀ d ∈ p.head?, d ≠ wildcard ∧ isHex d = false) : ∀ b ∈ s.head?, isHex b = false := by
  cases h with
  | nil => intro b hb; cases hb
  | lit => intro b hb; cases hb; exact (hp _ rfl).2
  | hex => exact absurd rfl (hp _ rfl).1

theorem InPattern.greedy {p s : List UInt8} (h : InPattern p s) (hp : greedyExact p = true) :
    Greedy p s := by
  induction h with
  | nil => exact .nil
  | lit hc _ ih => exact .lit hc (ih (greedyExact_cons.mp hp).2)
  | hex hh hhex hs ih =>
    have hp' := greedyExact_cons.mp hp
    exact .hex hh hhex (hs.head_not_isHex (hp'.1 rfl)) (ih hp'.2)

/-- **`matches` against the pattern's language.** What `matches` accepts
is in the language of the pattern, `X` for `[0-9a-fA-F]+`; on a pattern
that `greedyExact` allows, it accepts that whole language. -/
theorem matches_exact (p s : List UInt8) :
    («matches» p s = true → InPattern p s) ∧
    (greedyExact p = true → InPattern p s → «matches» p s = true) :=
  ⟨fun h => (greedy_of_matchFrom h).inPattern, fun hp h => matchFrom_of_greedy (h.greedy hp)⟩

/-- The pattern of `main.Z_channel` in `expectedVars`, and a value printed for it. -/
theorem matches_exact_z_channel :
    greedyExact (asciiBytes "(chan int16 0xX)") = true ∧
    InPattern (asciiBytes "(chan int16 0xX)") (asciiBytes "(chan int16 0xc208048000)") ∧
    «matches» (asciiBytes "(chan int16 0xX)") (asciiBytes "(chan int16 0xc208048000)") = true :=
  have hp : greedyExact (asciiBytes "(chan int16 0xX)") = true := by decide
  have hin := (matches_exact _ _).1
    (by decide : «matches» (asciiBytes "(chan int16 0xX)") (asciiBytes "(chan int16 0xc208048000)") = true)
  ⟨hp, hin, (matches_exact _ _).2 hp hin⟩

/-- Greedy matching refuses a string of the language where an `X` is
followed by a hex character: `X0` and `10`. -/
example : «matches» [wildcard, 0x30] [0x31, 0x30] = false ∧ InPattern [wildcard, 0x30] [0x31, 0x30] :=
  ⟨rfl, .hex (h := [0x31]) (s := [0x30]) (by simp) (by decide) (.lit (by decide) .nil)⟩

/-- Every `X` of `expectedVars` is followed by `)`, a blank, or the end. -/
example : greedyExact (asciiBytes "(chan int16 0xX [6/10])") = true := by
  decide

end OgleServer
