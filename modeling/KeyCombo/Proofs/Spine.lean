import KeyCombo.Layer

set_option autoImplicit false

/-! # Spines of entries

The key code of an entry hangs on one chain of terms, its spine: from a toggle it goes on to the
second argument, from any other call to the last one. Where the spine ends, the key code is found
or the fault that takes its place. -/

namespace KeyCombo.Config

/-! ## Following a spine -/

/-- The argument that the key code of a term is taken from. -/
def next? (config : Config) : Term → Option Term
  | .call callee args => if callee = config.toggleMarker then args[1]? else args.getLast?
  | _ => none

/-- The last term on the spine of a term. -/
inductive SpineEnd (config : Config) : Term → Term → Prop
  | here {t : Term} (h : config.next? t = none) : SpineEnd config t t
  | next {t u v : Term} (h : config.next? t = some u) (hu : SpineEnd config u v) :
      SpineEnd config t v

/-- Whether a term has a key code: its spine ends in a name. -/
def HasKey (config : Config) (t : Term) : Prop := ∃ key, config.SpineEnd t (.name key)

/-- What is wrong with a spine that ends in a term other than a name. -/
def spineFault? (config : Config) : Term → Option ShapeError
  | .name _ => none
  | .call callee args =>
    some (if callee = config.toggleMarker then .noTappedKey callee args.length
      else .noArguments callee)
  | t => some (.notEntry t.form)

variable {config : Config} {t u v : Term}

theorem mem_of_next?_call {callee : String} {args : List Term}
    (h : config.next? (.call callee args) = some u) : u ∈ args := by
  rw [next?] at h
  split at h
  · exact List.mem_of_getElem? h
  · exact List.mem_of_getLast? h

theorem sizeOf_lt_of_next? (h : config.next? t = some u) : sizeOf u < sizeOf t := by
  cases t with
  | call callee args =>
    have hmem := List.sizeOf_lt_of_mem (mem_of_next?_call h)
    simp only [Term.call.sizeOf_spec]
    omega
  | _ => cases h

/-- Every spine comes to an end. -/
theorem exists_spineEnd (config : Config) (t : Term) : ∃ u, config.SpineEnd t u := by
  cases h : config.next? t with
  | none => exact ⟨t, .here h⟩
  | some u =>
    have hlt : sizeOf u < sizeOf t := sizeOf_lt_of_next? h
    obtain ⟨v, hv⟩ := exists_spineEnd config u
    exact ⟨v, .next h hv⟩
termination_by sizeOf t

/-! ## Key codes along a spine -/

theorem keyCode_toggle {callee : String} (h : callee = config.toggleMarker) (args : List Term) :
    config.keyCode (.call callee args) =
      match args[1]? with
      | some tapped => config.keyCode tapped
      | none => .error (.noTappedKey callee args.length) := by
  rw [keyCode.eq_def]
  match args with
  | [] | [_] | _ :: _ :: _ => exact if_pos h

theorem keyCode_call {callee : String} (h : callee ≠ config.toggleMarker) (args : List Term) :
    config.keyCode (.call callee args) = config.lastKeyCode callee args := by
  rw [keyCode.eq_def]
  exact if_neg h

/-- A term has the key code of the next term on its spine. -/
theorem keyCode_of_next? (h : config.next? t = some u) : config.keyCode t = config.keyCode u := by
  cases t with
  | call callee args =>
    rw [next?] at h
    split at h
    case isTrue htoggle => rw [keyCode_toggle htoggle, h]
    case isFalse hother =>
      obtain ⟨before, rfl⟩ := List.getLast?_eq_some_iff.1 h
      rw [keyCode_call hother, lastKeyCode_concat]
  | _ => cases h

/-- At the end of a spine there is a key code if that is a name, and else a fault. -/
theorem keyCode_of_next?_eq_none (h : config.next? t = none) :
    (∃ key, t = .name key ∧ config.keyCode t = .ok key) ∨
      ∃ e, config.spineFault? t = some e ∧ config.keyCode t = .error e := by
  cases t with
  | name key => exact Or.inl ⟨key, rfl, rfl⟩
  | call callee args =>
    refine Or.inr ⟨_, rfl, ?_⟩
    rw [next?] at h
    split at h
    case isTrue htoggle => rw [keyCode_toggle htoggle, h, if_pos htoggle]
    case isFalse hother =>
      obtain rfl := List.getLast?_eq_none_iff.1 h
      rw [keyCode_call hother, if_neg hother, lastKeyCode]
  | _ => exact Or.inr ⟨_, rfl, rfl⟩

theorem SpineEnd.keyCode_eq (h : config.SpineEnd t u) : config.keyCode t = config.keyCode u := by
  induction h with
  | here => rfl
  | next h _ ih => rw [keyCode_of_next? h, ih]

theorem SpineEnd.next?_eq_none (h : config.SpineEnd t u) : config.next? u = none := by
  induction h with
  | here h => exact h
  | next _ _ ih => exact ih

/-- A term has a key code exactly if its spine ends in the name of that code. -/
theorem keyCode_eq_ok_iff {key : String} :
    config.keyCode t = .ok key ↔ config.SpineEnd t (.name key) := by
  constructor
  · intro h
    obtain ⟨u, hu⟩ := exists_spineEnd config t
    rw [hu.keyCode_eq] at h
    rcases keyCode_of_next?_eq_none hu.next?_eq_none with ⟨key', rfl, hkey⟩ | ⟨e, -, he⟩
    · rw [hkey] at h
      obtain rfl := Except.ok.inj h
      exact hu
    · rw [he] at h
      cases h
  · intro h
    rw [h.keyCode_eq, keyCode]

/-- A term has no key code exactly if its spine ends in a fault. -/
theorem keyCode_eq_error_iff {e : ShapeError} : config.keyCode t = .error e ↔
    ∃ u, config.SpineEnd t u ∧ config.spineFault? u = some e := by
  constructor
  · intro h
    obtain ⟨u, hu⟩ := exists_spineEnd config t
    rw [hu.keyCode_eq] at h
    rcases keyCode_of_next?_eq_none hu.next?_eq_none with ⟨key, -, hkey⟩ | ⟨e', he', hcode⟩
    · rw [hkey] at h
      cases h
    · rw [hcode] at h
      obtain rfl := Except.error.inj h
      exact ⟨u, hu, he'⟩
  · rintro ⟨u, hu, he⟩
    rw [hu.keyCode_eq]
    rcases keyCode_of_next?_eq_none hu.next?_eq_none with ⟨key, rfl, -⟩ | ⟨e', he', hcode⟩
    · cases he
    · rw [he'] at he
      obtain rfl := Option.some.inj he
      exact hcode

/-! ## What key codes hang on

Of a configuration, only the spelling of toggles tells how a spine goes on. -/

variable {a b : Config}

theorem SpineEnd.congr (h : a.toggleMarker = b.toggleMarker) (ht : a.SpineEnd t u) :
    b.SpineEnd t u := by
  have hnext : ∀ v, a.next? v = b.next? v := by
    intro v
    cases v <;> simp only [next?, h]
  induction ht with
  | here hnone => exact .here ((hnext _).symm.trans hnone)
  | next hsome _ ih => exact .next ((hnext _).symm.trans hsome) ih

theorem keyCode_congr (h : a.toggleMarker = b.toggleMarker) (t : Term) :
    a.keyCode t = b.keyCode t := by
  have hfault : ∀ v, a.spineFault? v = b.spineFault? v := by
    intro v
    cases v <;> simp only [spineFault?, h]
  cases hcode : a.keyCode t with
  | ok key => exact (keyCode_eq_ok_iff.2 ((keyCode_eq_ok_iff.1 hcode).congr h)).symm
  | error e =>
    obtain ⟨u, hu, he⟩ := keyCode_eq_error_iff.1 hcode
    exact (keyCode_eq_error_iff.2 ⟨u, hu.congr h, hfault u ▸ he⟩).symm

end KeyCombo.Config
