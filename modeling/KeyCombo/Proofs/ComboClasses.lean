import KeyCombo.Combo.Set

set_option autoImplicit false

/-! # Classes of combos

Combos that are the same key press form a class. The key of a combo, which puts the participants
in order, tells exactly the classes apart, and would do so with any other order of key codes. So a
set that is filled from a list keeps the first combo of each class. -/

namespace KeyCombo

namespace Combo

/-! ## Classes -/

/-- Whether two combos have the same result and the same two participants in either order. -/
def SameClass (a b : Combo) : Prop :=
  a.result = b.result ∧
    (a.left = b.left ∧ a.right = b.right ∨ a.left = b.right ∧ a.right = b.left)

instance (a b : Combo) : Decidable (SameClass a b) :=
  inferInstanceAs (Decidable (_ ∧ _))

/-- The participants in the order that a test gives them, and the result. -/
def keyBy (le : String → String → Bool) (c : Combo) : String × String × String :=
  if le c.left c.right then (c.left, c.right, c.result) else (c.right, c.left, c.result)

theorem key_eq_keyBy (c : Combo) : c.key = c.keyBy fun a b => decide (a ≤ b) := by
  simp only [key, keyBy, decide_eq_true_eq]

theorem keyBy_eq_or (le : String → String → Bool) (c : Combo) :
    c.keyBy le = (c.left, c.right, c.result) ∨ c.keyBy le = (c.right, c.left, c.result) := by
  unfold keyBy
  split
  · exact Or.inl rfl
  · exact Or.inr rfl

section Order

variable {le : String → String → Bool} (htotal : ∀ a b, le a b = true ∨ le b a = true)
  (hantisymm : ∀ a b, le a b = true → le b a = true → a = b)

include htotal hantisymm

/-- The order of the participants does not show in the key. -/
theorem keyBy_swap (left right result : String) :
    keyBy le ⟨left, right, result⟩ = keyBy le ⟨right, left, result⟩ := by
  unfold keyBy
  by_cases hle : le left right = true
  · by_cases hge : le right left = true
    · have heq : left = right := hantisymm left right hle hge
      rw [heq]
    · rw [if_pos hle, if_neg hge]
  · have hge : le right left = true := (htotal left right).resolve_left hle
    rw [if_neg hle, if_pos hge]

/-- Keys tell exactly the classes apart, whatever order the participants are put in. -/
theorem sameClass_iff_keyBy_eq {a b : Combo} : SameClass a b ↔ a.keyBy le = b.keyBy le := by
  constructor
  · obtain ⟨left, right, result⟩ := a
    rintro ⟨rfl, ⟨rfl, rfl⟩ | ⟨rfl, rfl⟩⟩
    · rfl
    · exact keyBy_swap htotal hantisymm b.right b.left b.result
  · intro h
    rcases keyBy_eq_or le a with ha | ha <;> rcases keyBy_eq_or le b with hb | hb <;>
      rw [ha, hb, Prod.mk.injEq, Prod.mk.injEq] at h
    · exact ⟨h.2.2, Or.inl ⟨h.1, h.2.1⟩⟩
    · exact ⟨h.2.2, Or.inr ⟨h.1, h.2.1⟩⟩
    · exact ⟨h.2.2, Or.inr ⟨h.2.1, h.1⟩⟩
    · exact ⟨h.2.2, Or.inl ⟨h.2.1, h.1⟩⟩

end Order

theorem sameClass_iff_key_eq {a b : Combo} : SameClass a b ↔ a.key = b.key := by
  rw [key_eq_keyBy, key_eq_keyBy]
  refine sameClass_iff_keyBy_eq (fun a b => ?_) fun a b hab hba => ?_
  · simpa only [decide_eq_true_eq] using String.le_total a b
  · exact String.le_antisymm (of_decide_eq_true hab) (of_decide_eq_true hba)

@[refl] theorem SameClass.refl (c : Combo) : SameClass c c := sameClass_iff_key_eq.2 rfl

theorem SameClass.symm {a b : Combo} (h : SameClass a b) : SameClass b a :=
  sameClass_iff_key_eq.2 (sameClass_iff_key_eq.1 h).symm

theorem SameClass.trans {a b c : Combo} (hab : SameClass a b) (hbc : SameClass b c) :
    SameClass a c :=
  sameClass_iff_key_eq.2 ((sameClass_iff_key_eq.1 hab).trans (sameClass_iff_key_eq.1 hbc))

theorem same_eq_true_iff {a b : Combo} : a.same b = true ↔ SameClass a b := by
  rw [same, decide_eq_true_iff, sameClass_iff_key_eq]

/-! ## First members -/

/-- Those combos of a list whose class none of the combos before them has, neither in the list nor
    among `earlier`. -/
def firstsAfter (earlier : List Combo) : List Combo → List Combo
  | [] => []
  | c :: cs =>
    if ∃ d ∈ earlier, SameClass d c then firstsAfter (earlier ++ [c]) cs
    else c :: firstsAfter (earlier ++ [c]) cs

/-- The first combo of each class. -/
def firsts (cs : List Combo) : List Combo := firstsAfter [] cs

theorem mem_of_mem_firstsAfter {earlier cs : List Combo} {c : Combo}
    (h : c ∈ firstsAfter earlier cs) : c ∈ cs := by
  induction cs generalizing earlier with
  | nil => cases h
  | cons d cs ih =>
    rw [firstsAfter] at h
    split at h
    · exact List.mem_cons_of_mem d (ih h)
    · rcases List.mem_cons.1 h with rfl | h
      · exact List.mem_cons_self
      · exact List.mem_cons_of_mem d (ih h)

theorem exists_mem_firstsAfter (earlier : List Combo) {cs : List Combo} {c : Combo} (h : c ∈ cs) :
    (∃ d ∈ firstsAfter earlier cs, SameClass d c) ∨ ∃ d ∈ earlier, SameClass d c := by
  induction cs generalizing earlier with
  | nil => cases h
  | cons e cs ih =>
    rw [firstsAfter]
    by_cases he : ∃ d ∈ earlier, SameClass d e
    · rw [if_pos he]
      rcases List.mem_cons.1 h with rfl | h
      · exact Or.inr he
      · refine (ih (earlier ++ [e]) h).imp_right fun ⟨d, hd, hdc⟩ => ?_
        rcases List.mem_append.1 hd with hd | hd
        · exact ⟨d, hd, hdc⟩
        · obtain rfl := List.mem_singleton.1 hd
          obtain ⟨f, hf, hfd⟩ := he
          exact ⟨f, hf, hfd.trans hdc⟩
    · rw [if_neg he]
      rcases List.mem_cons.1 h with rfl | h
      · exact Or.inl ⟨c, List.mem_cons_self, .refl c⟩
      · rcases ih (earlier ++ [e]) h with ⟨d, hd, hdc⟩ | ⟨d, hd, hdc⟩
        · exact Or.inl ⟨d, List.mem_cons_of_mem e hd, hdc⟩
        · rcases List.mem_append.1 hd with hd | hd
          · exact Or.inr ⟨d, hd, hdc⟩
          · obtain rfl := List.mem_singleton.1 hd
            exact Or.inl ⟨d, List.mem_cons_self, hdc⟩

theorem mem_of_mem_firsts {cs : List Combo} {c : Combo} (h : c ∈ firsts cs) : c ∈ cs :=
  mem_of_mem_firstsAfter h

/-- Every combo of a list is in the class of a first member. -/
theorem exists_mem_firsts {cs : List Combo} {c : Combo} (h : c ∈ cs) :
    ∃ d ∈ firsts cs, SameClass d c :=
  (exists_mem_firstsAfter [] h).resolve_right fun ⟨_, hd, _⟩ => List.not_mem_nil hd

end Combo

namespace ComboSet

open Combo

theorem contains_iff {s : ComboSet} {c : Combo} :
    s.contains c = true ↔ ∃ d ∈ s.toList, SameClass d c := by
  simp only [contains, List.any_eq_true, same_eq_true_iff]

theorem contains_insert {s : ComboSet} {c e : Combo} :
    (s.insert c).contains e = true ↔ s.contains e = true ∨ SameClass c e := by
  simp only [contains_iff, toList_insert]
  split
  case isTrue hc =>
    obtain ⟨d, hd, hdc⟩ := hc
    exact ⟨Or.inl, fun h => h.elim id fun hce => ⟨d, hd, hdc.trans hce⟩⟩
  case isFalse hc =>
    simp only [List.mem_append, List.mem_singleton, or_and_right, exists_or, exists_eq_left]

/-- Inserting keeps track of the classes that came earlier, so what is added to the members are
    the first combos of other classes. -/
theorem toList_foldl_insert (cs : List Combo) {s : ComboSet} {earlier : List Combo}
    (h : ∀ c, s.contains c = true ↔ ∃ d ∈ earlier, SameClass d c) :
    (cs.foldl insert s).toList = s.toList ++ firstsAfter earlier cs := by
  induction cs generalizing s earlier with
  | nil => simp [firstsAfter]
  | cons c cs ih =>
    have hnext : ∀ e, (s.insert c).contains e = true ↔ ∃ d ∈ earlier ++ [c], SameClass d e := by
      intro e
      simp only [contains_insert, h e, List.mem_append, List.mem_singleton, or_and_right,
        exists_or, exists_eq_left]
    rw [List.foldl_cons, ih hnext, toList_insert, firstsAfter]
    by_cases hc : ∃ d ∈ earlier, SameClass d c
    · rw [if_pos ((h c).2 hc), if_pos hc]
    · rw [if_neg (mt (h c).1 hc), if_neg hc, List.append_assoc]
      rfl

theorem toList_ofList (cs : List Combo) : (ofList cs).toList = firsts cs := by
  have h : ∀ c, empty.contains c = true ↔ ∃ d ∈ [], SameClass d c := by
    intro c
    simp [contains]
  rw [ofList, toList_foldl_insert cs h]
  rfl

/-- No two first members are in one class. -/
theorem pairwise_firsts (cs : List Combo) : (firsts cs).Pairwise fun a b => ¬SameClass a b := by
  rw [← toList_ofList]
  refine (ofList cs).distinct.imp fun {a b} h => ?_
  rw [← same_eq_true_iff, h]
  exact Bool.false_ne_true

end ComboSet

end KeyCombo
