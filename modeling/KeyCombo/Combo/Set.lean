import KeyCombo.Combo.Basic

set_option autoImplicit false

/-! # Sets of combos

A set holds at most one of several combos that are the same key press with the same result: the
one that came first. Members are listed in the order in which they came. -/

namespace KeyCombo

/-- Combos no two of which are the same, in the order in which they came. -/
structure ComboSet where
  toList : List Combo
  distinct : toList.Pairwise fun a b => a.same b = false

namespace ComboSet

/-- The set without members. -/
def empty : ComboSet := ⟨[], .nil⟩

@[simp] theorem toList_empty : empty.toList = [] := rfl

/-- How many members there are. -/
def size (s : ComboSet) : Nat := s.toList.length

/-- The member that is the same as a combo. -/
def get? (s : ComboSet) (c : Combo) : Option Combo := s.toList.find? (·.same c)

/-- Whether there is a member that is the same as a combo. -/
def contains (s : ComboSet) (c : Combo) : Bool := s.toList.any (·.same c)

/-- The set with one more member at the end, unless one of its members is the same. -/
def insert (s : ComboSet) (c : Combo) : ComboSet :=
  if h : s.contains c then s
  else ⟨s.toList ++ [c], by
    simp only [contains, List.any_eq_true, not_exists, not_and, Bool.not_eq_true] at h
    simpa [List.pairwise_append, s.distinct] using h⟩

theorem toList_insert (s : ComboSet) (c : Combo) :
    (s.insert c).toList = if s.contains c then s.toList else s.toList ++ [c] := by
  unfold insert
  split <;> rfl

/-- The set without the member that is the same as a combo. -/
def erase (s : ComboSet) (c : Combo) : ComboSet :=
  ⟨s.toList.filter fun d => !d.same c, s.distinct.filter _⟩

@[simp] theorem toList_erase (s : ComboSet) (c : Combo) :
    (s.erase c).toList = s.toList.filter fun d => !d.same c := rfl

/-- The set of the combos in a list. -/
def ofList (cs : List Combo) : ComboSet := cs.foldl insert empty

end ComboSet

end KeyCombo
