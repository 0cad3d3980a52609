import KeyCombo.Proofs.ExtractionFaults
import KeyCombo.Proofs.RoundTrip

set_option autoImplicit false

/-! # Terms that come from text

No reader makes a definition a part of another term, and no sign survives scanning, so a keymap that
is read from text has no definitions in it and no negative integers, at any depth
(`IsExpression.within`). Some faults that terms can have are then out of reach: none is about a
definition, and with an offset that is not negative no difference of layer numbers leaves the 64-bit
range. -/

namespace KeyCombo

/-! ## Parts of a term -/

/-- Whether a term stands anywhere in another one. -/
inductive Term.Within : Term → Term → Prop
  | self {t : Term} : Within t t
  | arg {u t : Term} {callee : String} {args : List Term} (ht : t ∈ args) (h : Within u t) :
      Within u (.call callee args)
  | body {u t : Term} {head : String} {params : List String} (h : Within u t) :
      Within u (.definition head params t)

open Term (Within)

variable {t u root : Term}

theorem IsExpression.within (h : IsExpression t) (hu : u.Within t) : IsExpression u := by
  induction hu with
  | self => exact h
  | arg hmem _ ih =>
    cases h with
    | call _ hargs => exact ih (hargs _ hmem)
  | body => cases h

theorem IsExpression.args {callee : String} {args : List Term}
    (h : IsExpression (.call callee args)) : ∀ arg ∈ args, IsExpression arg := by
  cases h with
  | call _ hargs => exact hargs

theorem IsExpression.form_ne_definition (h : IsExpression t) : t.form ≠ .definition := by
  cases h <;> simp [Term.form]

theorem IsExpression.nonneg {value : Int64} (h : IsExpression (.integer value)) :
    0 ≤ value.toInt := by
  cases h with
  | integer hvalue => exact hvalue

/-! ## Faults out of reach -/

/-- The form that is named by an error about a term of a wrong form. -/
def ShapeError.found? : ShapeError → Option Term.Form
  | .rootNotCall found | .layerNotCall _ found | .notEntry found => some found
  | _ => none

namespace Config

/-- Whether an error can come up with a keymap that is read from text. -/
def InReach (config : Config) : ShapeError → Prop
  | .rootNotCall found | .layerNotCall _ found | .notEntry found => found ≠ .definition
  | .offsetOverflow .. => config.layerOffset.toInt < 0
  | _ => True

/-- What can be wrong with a toggle that comes from text: it has no number, or one that is below
    the offset. -/
inductive ToggleFault (config : Config) : Term → ShapeError → Prop
  | noNumber {args : List Term} (h : ∀ number rest, args ≠ .integer number :: rest) :
      ToggleFault config (.call config.toggleMarker args) (.noLayerNumber config.toggleMarker)
  | belowOffset {number : Int64} {rest : List Term}
      (h : number.toInt < config.layerOffset.toInt) :
      ToggleFault config (.call config.toggleMarker (.integer number :: rest))
        (.negativeLayer config.toggleMarker number (number.toInt - config.layerOffset.toInt))

variable {config : Config} {e : ShapeError}

theorem InReach.found?_ne (h : config.InReach e) : e.found? ≠ some .definition := by
  cases e <;> simp_all [InReach, ShapeError.found?]

/-! ## Faults of single terms -/

theorem SpineEnd.within (h : config.SpineEnd t u) : u.Within t := by
  induction h with
  | here => exact .self
  | @next t u v hnext _ ih =>
    cases t with
    | call => exact .arg (mem_of_next?_call hnext) ih
    | _ => cases hnext

/-- The difference that is taken for a toggle from text is in the range. -/
theorem isInt64_layer (hoffset : 0 ≤ config.layerOffset.toInt) {callee : String} {number : Int64}
    {rest : List Term} (h : IsExpression (.call callee (.integer number :: rest))) :
    IsInt64 (number.toInt - config.layerOffset.toInt) :=
  isInt64_sub (h.within (.arg List.mem_cons_self .self)).nonneg hoffset

theorem inReach_of_layers (h : IsExpression t) (he : t.layers = .error e) : config.InReach e := by
  obtain ⟨-, rfl⟩ := layers_eq_error.1 he
  exact h.form_ne_definition

theorem LayerFault.inReach (h : IsExpression t) (he : config.LayerFault t e) :
    config.InReach e := by
  cases he with
  | notCall => exact h.form_ne_definition
  | notLayout => trivial

theorem inReach_of_spineFault? (h : IsExpression t) (he : config.spineFault? t = some e) :
    config.InReach e := by
  cases t with
  | integer | definition =>
    cases he
    exact h.form_ne_definition
  | name => cases he
  | call callee args =>
    obtain rfl := Option.some.inj he
    split <;> trivial

theorem inReach_of_keyCode (h : IsExpression t) (he : config.keyCode t = .error e) :
    config.InReach e := by
  obtain ⟨u, hu, he⟩ := keyCode_eq_error_iff.1 he
  exact inReach_of_spineFault? (h.within hu.within) he

theorem NumberFault.inReach (h : IsExpression t) (he : config.NumberFault t e) :
    config.InReach e := by
  cases he with
  | noNumber | negative => trivial
  | overflow hrange =>
    -- with neither of the two negative, the difference would be in the range
    refine Int.not_le.1 fun hoffset => ?_
    have hlayer := isInt64_layer hoffset h
    rcases hrange with hmin | hmax
    · exact absurd hlayer.1 (Int.not_le.2 hmin)
    · exact absurd hlayer.2 (Int.not_le.2 hmax)

/-- A toggle from text has no other faults than these if the offset is not negative. -/
theorem layerTarget_eq_error_iff_toggleFault (hoffset : 0 ≤ config.layerOffset.toInt)
    (h : IsExpression t) : config.layerTarget t = .error e ↔ config.ToggleFault t e := by
  rw [layerTarget_eq_error_iff]
  constructor
  · intro he
    have hreach := he.inReach h
    cases he with
    | noNumber hargs => exact .noNumber hargs
    | overflow => exact absurd hoffset (Int.not_le.2 hreach)
    | negative _ hneg => exact .belowOffset (Int.lt_of_sub_neg hneg)
  · intro he
    cases he with
    | noNumber hargs => exact .noNumber hargs
    | belowOffset hlt => exact .negative (isInt64_layer hoffset h).1 (Int.sub_neg_of_lt hlt)

/-! ## Faults of extraction -/

theorem KeyFault.inReach {keys : List Term} {layer position : Nat}
    (h : ∀ t ∈ keys, IsExpression t) (he : config.KeyFault keys layer position e) :
    config.InReach e := by
  cases he with
  | noEntry => trivial
  | noKey ht hlast he =>
    exact inReach_of_spineFault? ((h _ (List.mem_of_getElem? ht)).within hlast.within) he

theorem FaultAt.inReach {layers base : List Term} {i j : Nat}
    (hlayers : ∀ t ∈ layers, IsExpression t) (hbase : ∀ t ∈ base, IsExpression t)
    (he : config.FaultAt layers base i j e) : config.InReach e := by
  cases he with
  | first h => exact h.inReach hbase
  | second _ h => exact h.inReach hbase
  | number ht _ _ h => exact h.inReach (hbase _ (List.mem_of_getElem? ht))
  | noLayer => trivial
  | layer _ _ _ _ htarget h => exact h.inReach (hlayers _ (List.mem_of_getElem? htarget))
  | third _ _ _ _ htarget hkeys h =>
    obtain ⟨callee, rfl, -⟩ := hkeys
    exact h.inReach (hlayers _ (List.mem_of_getElem? htarget)).args

theorem FirstFault.inReach (h : IsExpression root) (he : config.FirstFault root e) :
    config.InReach e := by
  cases he with
  | notCall => exact h.form_ne_definition
  | noLayers => trivial
  | baseLayer he => exact he.inReach (h.args _ List.mem_cons_self)
  | pair hbase _ _ he =>
    obtain ⟨callee, rfl, -⟩ := hbase
    exact he.inReach h.args (h.args _ List.mem_cons_self).args

/-- Extraction from a keymap that is read from text reports only what can come up with one. -/
theorem inReach_of_extract {source : String} (h : Term.ofSource source = .ok root)
    (he : config.extract root = .error e) : config.InReach e :=
  (extract_eq_error_iff.1 he).inReach (isExpression_of_ofSource h)

/-- **Definitions and negative integers do not come from text, nor do the errors about them.** No
    term that stands anywhere in what a source is read as is a definition or a negative integer.
    With an offset that is not negative, the difference of layer numbers then never leaves the
    64-bit range, and a toggle fails only without a number or with one below the offset. With any
    configuration, no check of a keymap, of a layer or of an entry fails because of a definition. -/
theorem faults_of_ofSource {source : String} (h : Term.ofSource source = .ok root) :
    (∀ t : Term, t.Within root → t.form ≠ .definition ∧
      ∀ value : Int64, t = .integer value → 0 ≤ value.toInt) ∧
    (∀ config : Config, 0 ≤ config.layerOffset.toInt → ∀ t : Term, t.Within root →
      (∀ callee number rest, t = .call callee (.integer number :: rest) →
        IsInt64 (number.toInt - config.layerOffset.toInt)) ∧
      ∀ e, config.layerTarget t = .error e ↔ config.ToggleFault t e) ∧
    ∀ (config : Config) (t : Term), t.Within root → ∀ e,
      t.layers = .error e ∨ config.layerKeys t = .error e ∨ config.keyCode t = .error e →
        e.found? ≠ some .definition := by
  have hwithin : ∀ t, t.Within root → IsExpression t :=
    fun t ht => (isExpression_of_ofSource h).within ht
  refine ⟨fun t ht => ⟨(hwithin t ht).form_ne_definition, ?_⟩,
    fun config hoffset t ht => ⟨?_, fun e => ?_⟩, fun config t ht e he => ?_⟩
  · rintro value rfl
    exact (hwithin _ ht).nonneg
  · rintro callee number rest rfl
    exact isInt64_layer hoffset (hwithin _ ht)
  · exact layerTarget_eq_error_iff_toggleFault hoffset (hwithin t ht)
  · have hreach : config.InReach e := by
      rcases he with he | he | he
      · exact inReach_of_layers (hwithin t ht) he
      · exact (layerKeys_eq_error_iff.1 he).inReach (hwithin t ht)
      · exact inReach_of_keyCode (hwithin t ht) he
    exact hreach.found?_ne

theorem faults_of_ofSource_belowOffset :
    Term.ofSource "KEYMAP(LAYOUT(LT(3, KC_A)))" =
      .ok (.call "KEYMAP" [.call "LAYOUT" [.call "LT" [.integer 3, .name "KC_A"]]]) ∧
    Within (.call "LT" [.integer 3, .name "KC_A"])
      (.call "KEYMAP" [.call "LAYOUT" [.call "LT" [.integer 3, .name "KC_A"]]]) ∧
    0 ≤ Config.default.layerOffset.toInt ∧
    Config.default.ToggleFault (.call "LT" [.integer 3, .name "KC_A"])
      (.negativeLayer "LT" 3 (-4)) := by
  have hsource : Term.ofSource "KEYMAP(LAYOUT(LT(3, KC_A)))" =
      .ok (.call "KEYMAP" [.call "LAYOUT" [.call "LT" [.integer 3, .name "KC_A"]]]) := by
    decide +kernel
  have hwithin : Within (.call "LT" [.integer 3, .name "KC_A"])
      (.call "KEYMAP" [.call "LAYOUT" [.call "LT" [.integer 3, .name "KC_A"]]]) :=
    .arg List.mem_cons_self (.arg List.mem_cons_self .self)
  have hoffset : 0 ≤ Config.default.layerOffset.toInt := by decide
  exact ⟨hsource, hwithin, hoffset,
    (((faults_of_ofSource hsource).2.1 Config.default hoffset _ hwithin).2 _).1 (by rfl)⟩

end Config

end KeyCombo
