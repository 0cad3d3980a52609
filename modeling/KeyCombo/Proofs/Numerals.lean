import KeyCombo.Numeral

set_option autoImplicit false

/-! # Numerals written and read

The decimal text of a 64-bit integer reads back as that integer, and a text of digits alone never
reads as a negative one. Writing what such a text reads as gives the text again, but for zeros in
front of it. -/

namespace KeyCombo

/-! ## The 64-bit range -/

/-- Whether an integer is a 64-bit signed one. -/
def IsInt64 (v : Int) : Prop := Int64.minValue.toInt ≤ v ∧ v ≤ Int64.maxValue.toInt

instance (v : Int) : Decidable (IsInt64 v) := inferInstanceAs (Decidable (_ ∧ _))

theorem toInt_ofInt_of_isInt64 {v : Int} (h : IsInt64 v) : (Int64.ofInt v).toInt = v := by
  rw [← Int64.ofIntLE_eq_ofInt h.1 h.2, Int64.toInt_ofIntLE]

/-- A difference stays in the range if neither number is negative. -/
theorem isInt64_sub {v w : Int64} (hv : 0 ≤ v.toInt) (hw : 0 ≤ w.toInt) :
    IsInt64 (v.toInt - w.toInt) := by
  have hvmax : v.toInt ≤ Int64.maxValue.toInt := v.toInt_le
  have hwmax : w.toInt ≤ Int64.maxValue.toInt := w.toInt_le
  have hmin : Int64.minValue.toInt = -Int64.maxValue.toInt - 1 := by decide
  rw [IsInt64]
  omega

namespace Numeral

/-! ## Reading what is written -/

theorem toDigits_all_isDigit (n : Nat) : (Nat.toDigits 10 n).all Char.isDigit = true :=
  List.all_eq_true.2 fun _ hc => Nat.isDigit_of_mem_toDigits (by decide) (by decide) hc

theorem toList_ofInt_natCast (n : Nat) : (ofInt n).toList = Nat.toDigits 10 n := by
  change (toString n).toList = _
  rw [Nat.toString_eq_ofList_toDigits, String.toList_ofList]

theorem unsigned?_toDigits (n : Nat) : unsigned? (Nat.toDigits 10 n) = some n := by
  simp [unsigned?, toDigits_all_isDigit, Nat.toDigits_ne_nil, Nat.ofDigitChars_ten_toDigits]

/-- A digit is no sign. -/
theorem signed?_of_all_isDigit {cs : List Char} (h : cs.all Char.isDigit = true) :
    signed? cs = (unsigned? cs).map fun n : Nat => (n : Int) := by
  unfold signed?
  split
  · simp at h
  · simp at h
  · rfl

theorem signed?_ofInt (v : Int) : signed? (ofInt v).toList = some v := by
  cases v with
  | ofNat n =>
    rw [Int.ofNat_eq_natCast, toList_ofInt_natCast,
      signed?_of_all_isDigit (toDigits_all_isDigit n), unsigned?_toDigits]
    rfl
  | negSucc n =>
    have hlist : (ofInt (.negSucc n)).toList = '-' :: Nat.toDigits 10 (n + 1) := by
      simp [ofInt]
    rw [hlist, signed?, unsigned?_toDigits]
    rfl

theorem int64?_ofInt (v : Int64) : int64? (ofInt v.toInt) = some v := by
  rw [int64?, signed?_ofInt]
  simp only [v.minValue_le_toInt, v.toInt_le, and_self, dite_true, Int64.ofIntLE_toInt]

theorem unsigned?_eq_some {cs : List Char} {n : Nat} : unsigned? cs = some n ↔
    cs ≠ [] ∧ cs.all Char.isDigit = true ∧ Nat.ofDigitChars 10 cs 0 = n := by
  simp [unsigned?, and_assoc]

/-- A text of digits reads as their value. -/
theorem toInt_of_int64? {text : String} {v : Int64} (h : text.toList.all Char.isDigit = true)
    (hv : int64? text = some v) :
    text.toList ≠ [] ∧ v.toInt = Nat.ofDigitChars 10 text.toList 0 := by
  rw [int64?, signed?_of_all_isDigit h] at hv
  cases hn : unsigned? text.toList with
  | none => simp [hn] at hv
  | some n =>
    obtain ⟨hne, -, rfl⟩ := unsigned?_eq_some.1 hn
    simp only [hn, Option.map_some] at hv
    split at hv
    · cases hv
      exact ⟨hne, Int64.toInt_ofIntLE ..⟩
    · cases hv

theorem toInt_nonneg_of_all_isDigit {text : String} {v : Int64}
    (h : text.toList.all Char.isDigit = true) (hv : int64? text = some v) : 0 ≤ v.toInt := by
  obtain ⟨-, hvalue⟩ := toInt_of_int64? h hv
  rw [hvalue]
  exact Int.natCast_nonneg _

/-! ## Redundant zeros -/

/-- A numeral without the zeros in front that do not count. The last digit stays. -/
def dropZeros : List Char → List Char
  | '0' :: c :: cs => dropZeros (c :: cs)
  | cs => cs

theorem exists_digitChar {c : Char} (h : c.isDigit = true) : ∃ d < 10, Nat.digitChar d = c := by
  have hc : 48 ≤ c.toNat ∧ c.toNat ≤ 57 := Char.isDigit_iff_toNat.1 h
  refine ⟨c.toNat - 48, by omega, Char.toNat_inj.1 ?_⟩
  rw [Nat.toNat_digitChar_of_lt_ten (by omega)]
  omega

/-- Digits behind a positive number continue its decimal text. -/
theorem toDigits_append {n : Nat} (hn : 0 < n) {cs : List Char} (h : cs.all Char.isDigit = true) :
    Nat.toDigits 10 n ++ cs = Nat.toDigits 10 (Nat.ofDigitChars 10 cs n) := by
  induction cs generalizing n with
  | nil => simp
  | cons c cs ih =>
    rw [List.all_cons, Bool.and_eq_true] at h
    obtain ⟨d, hd, rfl⟩ := exists_digitChar h.1
    have hnext : Nat.toDigits 10 n ++ [d.digitChar] = Nat.toDigits 10 (10 * n + d) := by
      rw [← Nat.toDigits_append_toDigits (by decide) hn hd, Nat.toDigits_of_lt_base hd]
    rw [Nat.ofDigitChars_cons_digitChar_of_lt_ten hd, ← ih (by omega) h.2, ← hnext,
      List.append_assoc, List.singleton_append]

/-- The decimal text of the value of a numeral is that numeral without redundant zeros. -/
theorem toDigits_ofDigitChars {cs : List Char} (hne : cs ≠ []) (h : cs.all Char.isDigit = true) :
    Nat.toDigits 10 (Nat.ofDigitChars 10 cs 0) = dropZeros cs := by
  fun_induction dropZeros cs with
  | case1 c cs ih =>
    rw [List.all_cons, Bool.and_eq_true] at h
    have hzero : Nat.ofDigitChars 10 ('0' :: c :: cs) 0 = Nat.ofDigitChars 10 (c :: cs) 0 := by
      simp [Nat.ofDigitChars_cons]
    rw [hzero, ih (List.cons_ne_nil _ _) h.2]
  | case2 cs hcs =>
    obtain ⟨c, cs, rfl⟩ := List.exists_cons_of_ne_nil hne
    rw [List.all_cons, Bool.and_eq_true] at h
    obtain ⟨d, hd, rfl⟩ := exists_digitChar h.1
    rw [Nat.ofDigitChars_cons_digitChar_of_lt_ten hd, Nat.mul_zero, Nat.zero_add]
    cases cs with
    | nil => rw [Nat.ofDigitChars_nil, Nat.toDigits_of_lt_base hd]
    | cons e cs =>
      -- a zero in front of another digit has been dropped
      have hpos : 0 < d := by
        refine Nat.pos_of_ne_zero fun hzero => ?_
        rw [hzero] at hcs
        exact hcs e cs rfl
      rw [← toDigits_append hpos h.2, Nat.toDigits_of_lt_base hd, List.singleton_append]

/-- A text of digits that is read is written as that text without redundant zeros. -/
theorem ofInt_of_int64? {text : String} {v : Int64} (h : text.toList.all Char.isDigit = true)
    (hv : int64? text = some v) : ofInt v.toInt = .ofList (dropZeros text.toList) := by
  obtain ⟨hne, hvalue⟩ := toInt_of_int64? h hv
  apply String.toList_inj.1
  rw [hvalue, toList_ofInt_natCast, toDigits_ofDigitChars hne h, String.toList_ofList]

end Numeral

end KeyCombo
