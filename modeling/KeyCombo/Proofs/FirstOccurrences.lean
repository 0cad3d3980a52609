import Mathlib.Data.List.ProdSigma

set_option autoImplicit false

/-! # First occurrences

`List.eraseDups` keeps the first of several equal members of a list, and `List.eraseDupsBy` the
first of several members that a relation does not tell apart. Both keep the head of a list and go
on with what a filter leaves of its tail, so their laws are proved by an induction of that shape.

Looking up each member of a list once instead of as often as it occurs keeps the first occurrences
of what is found, and an error if there is one. -/

namespace KeyCombo

variable {α β ε : Type}

/-- Induction on a list by what filters leave of its tail. -/
theorem filter_induction {motive : List α → Prop} (nil : motive [])
    (cons : ∀ x xs, (∀ p : α → Bool, motive (xs.filter p)) → motive (x :: xs)) :
    ∀ xs, motive xs
  | [] => nil
  | x :: xs => cons x xs fun p => filter_induction nil cons (xs.filter p)
termination_by xs => xs.length
decreasing_by exact Nat.lt_succ_of_le (List.length_filter_le p xs)

/-! ## Members that a relation does not tell apart -/

/-- A filter that takes or leaves such members together may come first or last. -/
theorem filter_eraseDupsBy {r : α → α → Bool} {p : α → Bool}
    (hp : ∀ a b, r b a = true → p b = p a) (xs : List α) :
    (xs.eraseDupsBy r).filter p = (xs.filter p).eraseDupsBy r := by
  induction xs using filter_induction with
  | nil => simp
  | cons x xs ih =>
    rw [List.eraseDupsBy_cons]
    by_cases hx : p x = true
    · rw [List.filter_cons_of_pos hx, List.filter_cons_of_pos hx, List.eraseDupsBy_cons, ih,
        List.filter_filter, List.filter_filter]
      simp only [Bool.and_comm]
    · -- what is dropped because of `x` would not pass the filter either
      have hdrop : (xs.filter fun y => p y && decide (r y x = false)) = xs.filter p := by
        refine List.filter_congr fun y _ => ?_
        by_cases hy : p y = true
        · have hne : r y x ≠ true := fun h => hx ((hp x y h).symm.trans hy)
          simp [hy, hne]
        · simp [hy]
      rw [List.filter_cons_of_neg hx, List.filter_cons_of_neg hx, ih, List.filter_filter, hdrop]

theorem eraseDupsBy_map (r : β → β → Bool) (f : α → β) (xs : List α) :
    (xs.map f).eraseDupsBy r = (xs.eraseDupsBy fun a b => r (f a) (f b)).map f := by
  induction xs using filter_induction with
  | nil => simp
  | cons x xs ih =>
    rw [List.map_cons, List.eraseDupsBy_cons, List.filter_map, ih, List.eraseDupsBy_cons,
      List.map_cons]
    rfl

/-! ## Equal members -/

section Equal

variable [BEq α] [LawfulBEq α] [BEq β] [LawfulBEq β]

theorem filter_eraseDups (p : α → Bool) (xs : List α) :
    xs.eraseDups.filter p = (xs.filter p).eraseDups :=
  filter_eraseDupsBy (fun a b h => by rw [eq_of_beq h]) xs

theorem eraseDups_map {f : α → β} (hf : Function.Injective f) (xs : List α) :
    (xs.map f).eraseDups = xs.eraseDups.map f := by
  have hbeq : (fun a b => f a == f b) = fun a b : α => a == b := by
    funext a b
    rw [Bool.eq_iff_iff, beq_iff_eq, beq_iff_eq, hf.eq_iff]
  rw [List.eraseDups, eraseDupsBy_map, hbeq, List.eraseDups]

/-- Equal members may be dropped before those that a relation does not tell apart. -/
theorem eraseDupsBy_eraseDups {r : α → α → Bool} (hr : ∀ a, r a a = true) (xs : List α) :
    xs.eraseDups.eraseDupsBy r = xs.eraseDupsBy r := by
  induction xs using filter_induction with
  | nil => simp
  | cons x xs ih =>
    have hdrop : (xs.filter fun y => !y == x).filter (fun y => decide (r y x = false)) =
        xs.filter fun y => decide (r y x = false) := by
      rw [List.filter_filter]
      refine List.filter_congr fun y _ => ?_
      by_cases hy : y = x
      · simp [hy, hr]
      · simp [hy]
    rw [List.eraseDups_cons, List.eraseDupsBy_cons, List.eraseDupsBy_cons, filter_eraseDups, hdrop,
      ih]

end Equal

/-! ## Pairs -/

theorem filter_product (p : α → Bool) (xs : List α) (ys : List β) :
    (xs ×ˢ ys).filter (fun q => p q.1) = xs.filter p ×ˢ ys := by
  induction xs with
  | nil => rfl
  | cons x xs ih =>
    rw [List.product_cons, List.filter_append, ih]
    by_cases hx : p x = true
    · rw [List.filter_cons_of_pos hx, List.product_cons, List.filter_eq_self.2]
      simp [hx]
    · rw [List.filter_cons_of_neg hx, List.filter_eq_nil_iff.2, List.nil_append]
      simp [hx]

/-- The first occurrences of pairs are the pairs of first occurrences, in the same order. -/
theorem eraseDups_product [BEq α] [LawfulBEq α] [BEq β] [LawfulBEq β] (xs : List α)
    (ys : List β) : (xs ×ˢ ys).eraseDups = xs.eraseDups ×ˢ ys.eraseDups := by
  induction xs using filter_induction with
  | nil => rfl
  | cons x xs ih =>
    have hrow : (ys.map fun y => (x, y)).eraseDups = ys.eraseDups.map fun y => (x, y) :=
      eraseDups_map (fun _ _ h => (Prod.mk.inj h).2) ys
    -- of the other rows those of `x` are dropped as a whole
    have hrest : (xs ×ˢ ys).removeAll (ys.map fun y => (x, y)) =
        xs.filter (fun a => !a == x) ×ˢ ys := by
      rw [← filter_product, List.removeAll]
      refine List.filter_congr fun q hq => ?_
      obtain ⟨a, b⟩ := q
      have hb : b ∈ ys := (List.mem_product.1 hq).2
      by_cases ha : a = x
      · simp [ha, hb]
      · have hne : x ≠ a := fun h => ha h.symm
        simp [ha, hne]
    rw [List.product_cons, List.eraseDups_append, hrow, hrest, ih, List.eraseDups_cons,
      List.product_cons]

/-! ## Lookups -/

theorem mapM_cons_of_ok {f : α → Except ε β} {x : α} {y : β} (hx : f x = .ok y) (xs : List α) :
    (x :: xs).mapM f = (xs.mapM f).map (y :: ·) := by
  rw [List.mapM_cons, hx]
  cases xs.mapM f <;> rfl

theorem mapM_cons_of_error {f : α → Except ε β} {x : α} {e : ε} (hx : f x = .error e)
    (xs : List α) : (x :: xs).mapM f = .error e := by
  rw [List.mapM_cons, hx]
  rfl

variable [BEq α] [LawfulBEq α] [BEq β] [LawfulBEq β]

/-- Without one member the values are the same but for the value of that member. -/
theorem map_filter_mapM {f : α → Except ε β} {x : α} {y : β} (hx : f x = .ok y) (xs : List α) :
    ((xs.filter fun z => !z == x).mapM f).map (List.filter fun c => !c == y) =
      (xs.mapM f).map (List.filter fun c => !c == y) := by
  induction xs with
  | nil => rfl
  | cons z xs ih =>
    by_cases hz : z = x
    · subst hz
      rw [List.filter_cons_of_neg (by simp), ih, mapM_cons_of_ok hx]
      cases xs.mapM f <;> simp [Except.map]
    · rw [List.filter_cons_of_pos (by simp [hz])]
      cases hvalue : f z with
      | error e => rw [mapM_cons_of_error hvalue, mapM_cons_of_error hvalue]
      | ok c =>
        have hcons : ∀ r : Except ε (List β), (r.map (c :: ·)).map (List.filter fun c => !c == y) =
            (r.map (List.filter fun c => !c == y)).map ([c].filter (fun c => !c == y) ++ ·) := by
          intro r
          cases r with
          | error e => rfl
          | ok cs => exact congrArg Except.ok (List.filter_append [c] cs)
        rw [mapM_cons_of_ok hvalue, mapM_cons_of_ok hvalue, hcons, hcons, ih]

/-- Looking up first occurrences alone gives the first occurrences of the values, and the same error
    if there is one. -/
theorem map_eraseDups_mapM (f : α → Except ε β) (xs : List α) :
    (xs.eraseDups.mapM f).map List.eraseDups = (xs.mapM f).map List.eraseDups := by
  induction xs using filter_induction with
  | nil => rfl
  | cons x xs ih =>
    rw [List.eraseDups_cons]
    cases hx : f x with
    | error e => rw [mapM_cons_of_error hx, mapM_cons_of_error hx]
    | ok y =>
      have hlast : ∀ r : Except ε (List β), (r.map (y :: ·)).map List.eraseDups =
          (r.map List.eraseDups).map fun ys => y :: ys.filter fun c => !c == y := by
        intro r
        cases r <;> simp [Except.map, List.eraseDups_cons, filter_eraseDups]
      have hfirst : ∀ r : Except ε (List β), (r.map (y :: ·)).map List.eraseDups =
          (r.map (List.filter fun c => !c == y)).map fun ys => y :: ys.eraseDups := by
        intro r
        cases r <;> simp [Except.map, List.eraseDups_cons]
      rw [mapM_cons_of_ok hx, mapM_cons_of_ok hx, hlast, ih, ← hlast, hfirst, map_filter_mapM hx,
        ← hfirst]

end KeyCombo
