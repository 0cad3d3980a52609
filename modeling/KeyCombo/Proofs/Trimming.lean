import KeyCombo.Text.Blank
import Mathlib.Data.List.DropRight

set_option autoImplicit false

/-! # Cutting and trimming

A text is cut at the first place of a character by taking all characters in front of it. A text is
its trimmed text with blanks around it, and no other text without blanks at its ends is that. -/

namespace KeyCombo.Text

/-! ## The first place of a character -/

theorem dropWhile_ne_of_not_mem {x : Char} {cs : List Char} (h : x ∉ cs) :
    cs.dropWhile (· ≠ x) = [] :=
  List.dropWhile_eq_nil_iff.2 fun _ hc => decide_eq_true (ne_of_mem_of_not_mem hc h)

theorem dropWhile_ne_append {x : Char} {before : List Char} (h : x ∉ before) (after : List Char) :
    (before ++ x :: after).dropWhile (· ≠ x) = x :: after := by
  rw [List.dropWhile_append_of_pos fun _ hc => decide_eq_true (ne_of_mem_of_not_mem hc h),
    List.dropWhile_cons_of_neg (by simp)]

theorem takeWhile_ne_append {x : Char} {before : List Char} (h : x ∉ before) (after : List Char) :
    (before ++ x :: after).takeWhile (· ≠ x) = before := by
  rw [List.takeWhile_append_of_pos fun _ hc => decide_eq_true (ne_of_mem_of_not_mem hc h),
    List.takeWhile_cons_of_neg (by simp), List.append_nil]

/-! ## Blanks around a text -/

/-- Whether a text is another one with blanks around it. -/
def Padded (cs core : List Char) : Prop :=
  ∃ before after, cs = before ++ core ++ after ∧ (∀ c ∈ before, isBlank c = true) ∧
    ∀ c ∈ after, isBlank c = true

/-- Whether a text is another one with all the blanks around it. -/
structure Trims (cs core : List Char) : Prop where
  padded : Padded cs core
  first : ∀ c ∈ core.head?, isBlank c = false
  last : ∀ c ∈ core.getLast?, isBlank c = false

variable {cs core : List Char}

theorem Padded.refl (cs : List Char) : Padded cs cs :=
  ⟨[], [], by simp, by simp, by simp⟩

/-- What is not blank is not among the blanks around a text. -/
theorem Padded.not_mem (h : Padded cs core) {c : Char} (hc : isBlank c = false) (hcore : c ∉ core) :
    c ∉ cs := by
  obtain ⟨before, after, rfl, hbefore, hafter⟩ := h
  have hnot : ∀ blanks : List Char, (∀ d ∈ blanks, isBlank d = true) → c ∉ blanks :=
    fun blanks hblanks hmem => Bool.false_ne_true (hc.symm.trans (hblanks c hmem))
  simp [hcore, hnot before hbefore, hnot after hafter]

/-- Nothing is left of blanks. -/
theorem trims_nil (h : ∀ c ∈ cs, isBlank c = true) : Trims cs [] :=
  ⟨⟨cs, [], by simp, h, by simp⟩, by simp, by simp⟩

/-! ## The trimmed text -/

theorem trimStart_append_of_blank {before : List Char} (h : ∀ c ∈ before, isBlank c = true)
    (cs : List Char) : trimStart (before ++ cs) = trimStart cs :=
  List.dropWhile_append_of_pos h

theorem trimStart_of_blank (h : ∀ c ∈ cs, isBlank c = true) : trimStart cs = [] :=
  List.dropWhile_eq_nil_iff.2 h

theorem trimStart_append_of_head? (hne : cs ≠ []) (h : ∀ c ∈ cs.head?, isBlank c = false)
    (after : List Char) : trimStart (cs ++ after) = cs ++ after := by
  obtain ⟨c, cs, rfl⟩ := List.exists_cons_of_ne_nil hne
  have hc : isBlank c = false := h c rfl
  rw [trimStart, List.cons_append, List.dropWhile_cons_of_neg (by simp [hc])]

/-- What a text is without its blanks at the start. -/
theorem exists_trimStart (cs : List Char) : ∃ before, cs = before ++ trimStart cs ∧
    (∀ c ∈ before, isBlank c = true) ∧ ∀ c ∈ (trimStart cs).head?, isBlank c = false := by
  refine ⟨cs.takeWhile isBlank, List.takeWhile_append_dropWhile.symm,
    List.all_eq_true.1 List.all_takeWhile, ?_⟩
  intro c hc
  have hnot := List.head?_dropWhile_not isBlank cs
  rw [trimStart, Option.mem_def] at hc
  rwa [hc] at hnot

theorem Trims.trim_eq (h : Trims cs core) : trim cs = core := by
  obtain ⟨⟨before, after, rfl, hbefore, hafter⟩, hfirst, hlast⟩ := h
  have hreverse : ∀ c ∈ after.reverse, isBlank c = true := by simpa using hafter
  rw [trim, List.append_assoc, trimStart_append_of_blank hbefore]
  -- without a character that is not blank, all is trimmed at the start already
  by_cases hcore : core = []
  · subst hcore
    rw [List.nil_append, trimStart_of_blank hafter]
    rfl
  · have hlast' : ∀ c ∈ core.reverse.head?, isBlank c = false := by
      rwa [List.head?_reverse]
    rw [trimStart_append_of_head? hcore hfirst, List.reverse_append,
      trimStart_append_of_blank hreverse, ← List.append_nil core.reverse,
      trimStart_append_of_head? (by simpa using hcore) hlast', List.append_nil,
      List.reverse_reverse]

theorem trims_trim (cs : List Char) : Trims cs (trim cs) := by
  obtain ⟨before, hcs, hbefore, hfirst⟩ := exists_trimStart cs
  obtain ⟨after, hrest, hafter, hlast⟩ := exists_trimStart (trimStart cs).reverse
  have hcore : trimStart cs = trim cs ++ after.reverse := by
    rw [← List.reverse_reverse (trimStart cs), hrest, List.reverse_append]
    rfl
  refine ⟨⟨before, after.reverse, ?_, hbefore, by simpa using hafter⟩, ?_, ?_⟩
  · rw [List.append_assoc, ← hcore, ← hcs]
  · intro c hc
    refine hfirst c ?_
    rw [hcore, List.head?_append, Option.mem_def.1 hc]
    rfl
  · intro c hc
    rw [trim, List.getLast?_reverse] at hc
    exact hlast c hc

theorem trim_eq_iff : trim cs = core ↔ Trims cs core := by
  constructor
  · rintro rfl
    exact trims_trim cs
  · exact Trims.trim_eq

end KeyCombo.Text
