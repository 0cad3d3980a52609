import KeyCombo.Proofs.Numerals

set_option autoImplicit false

/-! # Numerals below a bound

The reader of positions works through the digits with the value of those before. It never has to
look back: further digits only add to a value (`le_ofDigitChars`), so the first digit that takes it
to the bound decides, and a text is read exactly if it is a numeral with a value below the bound. -/

namespace KeyCombo.Numeral

/-! ## What a numeral is -/

/-- The characters of a text that have to be digits: those behind a plus sign, if there is one. -/
inductive Unsigned : List Char → List Char → Prop
  | plain {cs : List Char} (hne : cs ≠ []) (hsign : cs.head? ≠ some '+') : Unsigned cs cs
  | plus {cs : List Char} (hne : cs ≠ []) : Unsigned ('+' :: cs) cs

/-- Whether a text is a numeral with a value below the bound: at most one plus sign, then one or
    more digits. -/
def Spells (bound : Nat) (cs : List Char) (n : Nat) : Prop :=
  ∃ digits, Unsigned cs digits ∧ (∀ c ∈ digits, c.isDigit = true) ∧
    Nat.ofDigitChars 10 digits 0 = n ∧ n < bound

/-- Which character spoils a text as a numeral. The digits in front of it have a value below the
    bound. -/
inductive Spoils (bound : Nat) : List Char → Fault → Prop
  | empty : Spoils bound [] .empty
  | lonePlus : Spoils bound ['+'] .invalidDigit
  | invalidDigit {cs good rest : List Char} {c : Char} (hcs : Unsigned cs (good ++ c :: rest))
      (hgood : ∀ d ∈ good, d.isDigit = true) (hvalue : Nat.ofDigitChars 10 good 0 < bound)
      (hc : c.isDigit = false) : Spoils bound cs .invalidDigit
  | tooLarge {cs good rest : List Char} {c : Char} (hcs : Unsigned cs (good ++ c :: rest))
      (hgood : ∀ d ∈ good, d.isDigit = true) (hvalue : Nat.ofDigitChars 10 good 0 < bound)
      (hc : c.isDigit = true) (hlarge : bound ≤ Nat.ofDigitChars 10 (good ++ [c]) 0) :
      Spoils bound cs .tooLarge

variable {bound n : Nat} {cs good rest : List Char} {c : Char} {f : Fault}

/-- A numeral has no other characters than a plus sign and digits. -/
theorem Spells.plus_or_digit (h : Spells bound cs n) : ∀ c ∈ cs, c = '+' ∨ c.isDigit = true := by
  obtain ⟨digits, hcs, hdigits, -, -⟩ := h
  intro c hc
  cases hcs with
  | plain => exact Or.inr (hdigits c hc)
  | plus => exact (List.mem_cons.1 hc).imp_right (hdigits c)

theorem Spells.ne_nil (h : Spells bound cs n) : cs ≠ [] := by
  obtain ⟨digits, hcs, -, -, -⟩ := h
  cases hcs with
  | plain hne => exact hne
  | plus => exact List.cons_ne_nil _ _

/-- The decimal text of a number is a numeral for it. -/
theorem spells_toDigits (hn : n < bound) : Spells bound (Nat.toDigits 10 n) n := by
  have hdigits : ∀ c ∈ Nat.toDigits 10 n, c.isDigit = true :=
    List.all_eq_true.1 (toDigits_all_isDigit n)
  refine ⟨_, .plain Nat.toDigits_ne_nil fun hsign => ?_, hdigits, Nat.ofDigitChars_ten_toDigits, hn⟩
  exact absurd (hdigits '+' (List.mem_of_head? hsign)) (by decide)

/-! ## Reading digits -/

theorem le_ofDigitChars (cs : List Char) (n : Nat) : n ≤ Nat.ofDigitChars 10 cs n := by
  rw [Nat.ofDigitChars_eq_ofDigitChars_zero]
  have hmul : n ≤ 10 ^ cs.length * n := Nat.le_mul_of_pos_left n (Nat.pow_pos (by decide))
  omega

theorem ofDigitChars_cons (c : Char) (cs : List Char) (n : Nat) :
    Nat.ofDigitChars 10 (c :: cs) n = Nat.ofDigitChars 10 cs (Nat.ofDigitChars 10 [c] n) :=
  Nat.ofDigitChars_append (l := [c]) n

/-- Digits with a value below the bound are passed over. -/
theorem readDigits_append (hgood : ∀ d ∈ good, d.isDigit = true)
    (hvalue : Nat.ofDigitChars 10 good n < bound) (cs : List Char) :
    readDigits bound n (good ++ cs) = readDigits bound (Nat.ofDigitChars 10 good n) cs := by
  induction good generalizing n with
  | nil => rfl
  | cons d good ih =>
    rw [List.forall_mem_cons] at hgood
    rw [ofDigitChars_cons] at hvalue
    have hnext : Nat.ofDigitChars 10 [d] n < bound :=
      Nat.lt_of_le_of_lt (le_ofDigitChars good _) hvalue
    rw [List.cons_append, readDigits, if_pos hgood.1, if_pos hnext, ih hgood.2 hvalue,
      ofDigitChars_cons d good]

/-- A text is of digits with a value below the bound, or one of its characters spoils it. -/
theorem digits_or_spoilt (hn : n < bound) (cs : List Char) :
    (∀ c ∈ cs, c.isDigit = true) ∧ Nat.ofDigitChars 10 cs n < bound ∨
      ∃ good c rest, cs = good ++ c :: rest ∧ (∀ d ∈ good, d.isDigit = true) ∧
        Nat.ofDigitChars 10 good n < bound ∧
          (c.isDigit = true → bound ≤ Nat.ofDigitChars 10 (good ++ [c]) n) := by
  induction cs generalizing n with
  | nil => exact Or.inl ⟨by simp, hn⟩
  | cons c cs ih =>
    -- the digits behind see the value that this one leaves, so `n` is general
    by_cases hc : c.isDigit = true ∧ Nat.ofDigitChars 10 [c] n < bound
    · rw [List.forall_mem_cons, ofDigitChars_cons]
      rcases ih hc.2 with ⟨hcs, hvalue⟩ | ⟨good, d, rest, rfl, hgood, hvalue, hlarge⟩
      · exact Or.inl ⟨⟨hc.1, hcs⟩, hvalue⟩
      · refine Or.inr ⟨c :: good, d, rest, rfl, List.forall_mem_cons.2 ⟨hc.1, hgood⟩, ?_, ?_⟩
        · rwa [ofDigitChars_cons]
        · rwa [List.cons_append, ofDigitChars_cons]
    · refine Or.inr ⟨[], c, cs, rfl, by simp, hn, fun hdigit => ?_⟩
      exact Nat.not_lt.1 fun hlt => hc ⟨hdigit, hlt⟩

/-! ## Reading numerals -/

theorem Unsigned.readBelow_eq {digits : List Char} (h : Unsigned cs digits) :
    readBelow bound cs = readDigits bound 0 digits := by
  cases h with
  | plain hne hsign =>
    unfold readBelow
    split
    · exact absurd rfl hne
    · exact absurd rfl hsign
    · exact absurd rfl hsign
    · rfl
  | plus hne =>
    obtain ⟨c, cs, rfl⟩ := List.exists_cons_of_ne_nil hne
    rfl

theorem Spells.readBelow_eq (h : Spells bound cs n) : readBelow bound cs = .ok n := by
  obtain ⟨digits, hcs, hdigits, rfl, hn⟩ := h
  have hread := readDigits_append hdigits hn []
  rw [List.append_nil] at hread
  rw [hcs.readBelow_eq, hread, readDigits]

theorem Spoils.readBelow_eq (h : Spoils bound cs f) : readBelow bound cs = .error f := by
  cases h with
  | empty => rfl
  | lonePlus => rfl
  | invalidDigit hcs hgood hvalue hc =>
    rw [hcs.readBelow_eq, readDigits_append hgood hvalue, readDigits, if_neg (by simp [hc])]
  | tooLarge hcs hgood hvalue hc hlarge =>
    rw [Nat.ofDigitChars_append] at hlarge
    rw [hcs.readBelow_eq, readDigits_append hgood hvalue, readDigits, if_pos hc,
      if_neg (Nat.not_lt.2 hlarge)]

/-- Every text is a numeral with a value below the bound, or spoilt. -/
theorem spells_or_spoils (hbound : 0 < bound) (cs : List Char) :
    (∃ n, Spells bound cs n) ∨ ∃ f, Spoils bound cs f := by
  have hunsigned : cs = [] ∨ cs = ['+'] ∨ ∃ digits, Unsigned cs digits := by
    cases cs with
    | nil => exact Or.inl rfl
    | cons c cs =>
      by_cases hc : c = '+'
      · subst hc
        by_cases hcs : cs = []
        · exact Or.inr (Or.inl (by rw [hcs]))
        · exact Or.inr (Or.inr ⟨cs, .plus hcs⟩)
      · exact Or.inr (Or.inr ⟨c :: cs, .plain (List.cons_ne_nil c cs) (by simpa using hc)⟩)
  rcases hunsigned with rfl | rfl | ⟨digits, hcs⟩
  · exact Or.inr ⟨_, .empty⟩
  · exact Or.inr ⟨_, .lonePlus⟩
  rcases digits_or_spoilt hbound digits with
    ⟨hdigits, hvalue⟩ | ⟨good, c, rest, rfl, hgood, hvalue, hlarge⟩
  · exact Or.inl ⟨_, digits, hcs, hdigits, rfl, hvalue⟩
  · cases hc : c.isDigit with
    | false => exact Or.inr ⟨_, .invalidDigit hcs hgood hvalue hc⟩
    | true => exact Or.inr ⟨_, .tooLarge hcs hgood hvalue hc (hlarge hc)⟩

theorem readBelow_eq_ok_iff (hbound : 0 < bound) :
    readBelow bound cs = .ok n ↔ Spells bound cs n := by
  refine ⟨fun h => ?_, Spells.readBelow_eq⟩
  rcases spells_or_spoils hbound cs with ⟨m, hm⟩ | ⟨f, hf⟩
  · rw [hm.readBelow_eq] at h
    cases h
    exact hm
  · rw [hf.readBelow_eq] at h
    cases h

theorem readBelow_eq_error_iff (hbound : 0 < bound) :
    readBelow bound cs = .error f ↔ Spoils bound cs f := by
  refine ⟨fun h => ?_, Spoils.readBelow_eq⟩
  rcases spells_or_spoils hbound cs with ⟨m, hm⟩ | ⟨g, hg⟩
  · rw [hm.readBelow_eq] at h
    cases h
  · rw [hg.readBelow_eq] at h
    cases h
    exact hg

end KeyCombo.Numeral
