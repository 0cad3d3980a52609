import KeyCombo.Proofs.Except
import KeyCombo.Proofs.Lookup
import KeyCombo.Proofs.Spine
import Mathlib.Data.List.ProdSigma

set_option autoImplicit false

/-! # When extraction fails

Extraction checks the root, then every ordered pair of home-row positions, row by row, and stops
at the first check that fails. What has to be there is said by `Complete`, and which fault is
reported by `FirstFault`; neither mentions how the lookups are made. A pair that is no combo in the
end, or that was seen before, is checked like any other. -/

namespace KeyCombo

/-! ## What has to be there -/

namespace Config

/-- Whether a term is a layer with the given entries. -/
def IsLayer (config : Config) (t : Term) (keys : List Term) : Prop :=
  ∃ callee, t = .call callee keys ∧ config.layoutPrefix.toList <+: callee.toList

/-- Whether an entry with a key code stands at a position. -/
def KeyAt (config : Config) (keys : List Term) (position : Nat) : Prop :=
  ∃ t, keys[position]? = some t ∧ config.HasKey t

/-- Whether everything is there that the positions `i` and `j` of the base layer take. -/
def CompleteAt (config : Config) (layers base : List Term) (i j : Nat) : Prop :=
  ∃ first, base[i]? = some first ∧ config.HasKey first ∧ config.KeyAt base j ∧
    ∃ layer, config.SwitchesTo first layer ∧
      ∃ target, layers[layer]? = some target ∧
        ∃ keys, config.IsLayer target keys ∧ config.KeyAt keys j

/-- Whether everything is there that extraction looks up. -/
def Complete (config : Config) (root : Term) : Prop :=
  ∃ callee baseLayer layers base, root = .call callee (baseLayer :: layers) ∧
    config.IsLayer baseLayer base ∧
    ∀ i ∈ config.homeRow, ∀ j ∈ config.homeRow, config.CompleteAt (baseLayer :: layers) base i j

/-! ## What is missing -/

/-- What is wrong with a term in the place of a layer. -/
inductive LayerFault (config : Config) : Term → ShapeError → Prop
  | notCall {t : Term} (h : t.form ≠ .call) :
      LayerFault config t (.layerNotCall config.layoutPrefix t.form)
  | notLayout {callee : String} {args : List Term}
      (h : ¬config.layoutPrefix.toList <+: callee.toList) :
      LayerFault config (.call callee args) (.notLayout config.layoutPrefix callee)

/-- What is wrong at a position without a key code: there is no entry, or the entry has none. -/
inductive KeyFault (config : Config) (keys : List Term) (layer position : Nat) : ShapeError → Prop
  | noEntry (h : keys[position]? = none) :
      KeyFault config keys layer position (.noSuchKey layer keys.length position)
  | noKey {t last : Term} {e : ShapeError} (ht : keys[position]? = some t)
      (hlast : config.SpineEnd t last) (he : config.spineFault? last = some e) :
      KeyFault config keys layer position e

/-- What is wrong with a toggle that switches to no layer. -/
inductive NumberFault (config : Config) : Term → ShapeError → Prop
  | noNumber {args : List Term} (h : ∀ number rest, args ≠ .integer number :: rest) :
      NumberFault config (.call config.toggleMarker args) (.noLayerNumber config.toggleMarker)
  | overflow {number : Int64} {rest : List Term}
      (h : number.toInt - config.layerOffset.toInt < Int64.minValue.toInt ∨
        Int64.maxValue.toInt < number.toInt - config.layerOffset.toInt) :
      NumberFault config (.call config.toggleMarker (.integer number :: rest))
        (.offsetOverflow config.toggleMarker number)
  | negative {number : Int64} {rest : List Term}
      (hmin : Int64.minValue.toInt ≤ number.toInt - config.layerOffset.toInt)
      (h : number.toInt - config.layerOffset.toInt < 0) :
      NumberFault config (.call config.toggleMarker (.integer number :: rest))
        (.negativeLayer config.toggleMarker number (number.toInt - config.layerOffset.toInt))

/-- What is missing first at the positions `i` and `j` of the base layer. Each case says that what
    comes before it is there. -/
inductive FaultAt (config : Config) (layers base : List Term) (i j : Nat) : ShapeError → Prop
  | first {e : ShapeError} (h : config.KeyFault base 0 i e) : FaultAt config layers base i j e
  | second {e : ShapeError} (hfirst : config.KeyAt base i) (h : config.KeyFault base 0 j e) :
      FaultAt config layers base i j e
  | number {t : Term} {e : ShapeError} (ht : base[i]? = some t) (hfirst : config.HasKey t)
      (hsecond : config.KeyAt base j) (h : config.NumberFault t e) :
      FaultAt config layers base i j e
  | noLayer {t : Term} {layer : Nat} (ht : base[i]? = some t) (hfirst : config.HasKey t)
      (hsecond : config.KeyAt base j) (hlayer : config.SwitchesTo t layer)
      (h : layers[layer]? = none) :
      FaultAt config layers base i j (.noSuchLayer i layer layers.length)
  | layer {t target : Term} {layer : Nat} {e : ShapeError} (ht : base[i]? = some t)
      (hfirst : config.HasKey t) (hsecond : config.KeyAt base j)
      (hlayer : config.SwitchesTo t layer) (htarget : layers[layer]? = some target)
      (h : config.LayerFault target e) : FaultAt config layers base i j e
  | third {t target : Term} {layer : Nat} {keys : List Term} {e : ShapeError}
      (ht : base[i]? = some t) (hfirst : config.HasKey t) (hsecond : config.KeyAt base j)
      (hlayer : config.SwitchesTo t layer) (htarget : layers[layer]? = some target)
      (hkeys : config.IsLayer target keys) (h : config.KeyFault keys layer j e) :
      FaultAt config layers base i j e

/-- What is missing first in a keymap: the pairs of home-row positions come row by row. -/
inductive FirstFault (config : Config) : Term → ShapeError → Prop
  | notCall {root : Term} (h : root.form ≠ .call) : FirstFault config root (.rootNotCall root.form)
  | noLayers {callee : String} : FirstFault config (.call callee []) .noLayers
  | baseLayer {callee : String} {baseLayer : Term} {layers : List Term} {e : ShapeError}
      (h : config.LayerFault baseLayer e) : FirstFault config (.call callee (baseLayer :: layers)) e
  | pair {callee : String} {baseLayer : Term} {layers base : List Term}
      {before after : List (Nat × Nat)} {i j : Nat} {e : ShapeError}
      (hbase : config.IsLayer baseLayer base)
      (hpairs : config.homeRow ×ˢ config.homeRow = before ++ (i, j) :: after)
      (hbefore : ∀ p ∈ before, config.CompleteAt (baseLayer :: layers) base p.1 p.2)
      (h : config.FaultAt (baseLayer :: layers) base i j e) :
      FirstFault config (.call callee (baseLayer :: layers)) e

/-! ## Single lookups -/

variable {config : Config} {layers base keys : List Term} {i j : Nat} {e : ShapeError}

theorem entryAt_eq_error {position layer : Nat} : entryAt keys position layer = .error e ↔
    keys[position]? = none ∧ e = .noSuchKey layer keys.length position := by
  unfold entryAt
  cases keys[position]? <;> simp [eq_comm]

theorem isLayout_iff {callee : String} :
    config.isLayout callee = true ↔ config.layoutPrefix.toList <+: callee.toList :=
  List.isPrefixOf_iff_prefix

theorem layerKeys_eq_ok_iff {t : Term} : config.layerKeys t = .ok keys ↔ config.IsLayer t keys := by
  rw [layerKeys_eq_ok]
  simp only [isLayout_iff, IsLayer]

theorem layerKeys_eq_error_iff {t : Term} :
    config.layerKeys t = .error e ↔ config.LayerFault t e := by
  constructor
  · intro h
    cases t with
    | call callee args =>
      rw [layerKeys] at h
      split at h
      · cases h
      · rename_i hcallee
        rw [isLayout_iff] at hcallee
        cases h
        exact .notLayout hcallee
    | _ =>
      cases h
      exact .notCall (by simp [Term.form])
  · intro h
    cases h with
    | notLayout h =>
      rw [← isLayout_iff] at h
      exact if_neg h
    | notCall h =>
      cases t with
      | call => exact absurd rfl h
      | _ => rfl

theorem layerNumber_eq_error {callee : String} {number : Int64} :
    config.layerNumber callee number = .error e ↔
      ((number.toInt - config.layerOffset.toInt < Int64.minValue.toInt ∨
          Int64.maxValue.toInt < number.toInt - config.layerOffset.toInt) ∧
        e = .offsetOverflow callee number) ∨
      (Int64.minValue.toInt ≤ number.toInt - config.layerOffset.toInt ∧
        number.toInt - config.layerOffset.toInt < 0 ∧
        e = .negativeLayer callee number (number.toInt - config.layerOffset.toInt)) := by
  have hmax : 0 ≤ Int64.maxValue.toInt := by decide
  simp only [layerNumber]
  generalize number.toInt - config.layerOffset.toInt = layer
  constructor
  · intro h
    split at h
    case isTrue hrange => exact Or.inl ⟨hrange, (Except.error.inj h).symm⟩
    case isFalse hrange =>
      split at h
      · rename_i hneg
        exact Or.inr ⟨by omega, hneg, (Except.error.inj h).symm⟩
      · cases h
  · intro h
    rcases h with ⟨hrange, rfl⟩ | ⟨hmin, hneg, rfl⟩
    · rw [if_pos hrange]
    · rw [if_neg (by omega), if_pos hneg]

theorem layerTarget_toggle (config : Config) (number : Int64) (rest : List Term) :
    config.layerTarget (.call config.toggleMarker (.integer number :: rest)) =
      (config.layerNumber config.toggleMarker number).map some :=
  if_pos rfl

theorem layerTarget_eq_error_iff {t : Term} :
    config.layerTarget t = .error e ↔ config.NumberFault t e := by
  constructor
  · intro h
    unfold layerTarget at h
    split at h
    case h_1 callee args =>
      by_cases hcallee : callee = config.toggleMarker
      · subst hcallee
        rw [if_pos rfl] at h
        split at h
        case h_1 number rest =>
          rw [except_map_eq_error, layerNumber_eq_error] at h
          rcases h with ⟨hrange, rfl⟩ | ⟨hmin, hneg, rfl⟩
          · exact .overflow hrange
          · exact .negative hmin hneg
        case h_2 hargs =>
          cases h
          exact .noNumber hargs
      · rw [if_neg hcallee] at h
        cases h
    case h_2 => cases h
  · intro h
    cases h with
    | noNumber h => simp [layerTarget]
    | overflow h =>
      rw [layerTarget_toggle, except_map_eq_error, layerNumber_eq_error]
      exact Or.inl ⟨h, rfl⟩
    | negative hmin h =>
      rw [layerTarget_toggle, except_map_eq_error, layerNumber_eq_error]
      exact Or.inr ⟨hmin, h, rfl⟩

theorem keyAt_iff {position : Nat} : config.KeyAt keys position ↔
    ∃ t, keys[position]? = some t ∧ ∃ key, config.keyCode t = .ok key := by
  simp only [KeyAt, HasKey, keyCode_eq_ok_iff]

theorem keyFault_iff {layer position : Nat} : config.KeyFault keys layer position e ↔
    entryAt keys position layer = .error e ∨
      ∃ t, keys[position]? = some t ∧ config.keyCode t = .error e := by
  simp only [entryAt_eq_error, keyCode_eq_error_iff]
  constructor
  · intro h
    cases h with
    | noEntry h => exact Or.inl ⟨h, rfl⟩
    | noKey ht hlast he => exact Or.inr ⟨_, ht, _, hlast, he⟩
  · intro h
    rcases h with ⟨h, rfl⟩ | ⟨t, ht, last, hlast, he⟩
    · exact .noEntry h
    · exact .noKey ht hlast he

/-! ## Pairs of positions -/

/-- A pair is looked up exactly if everything is there that it takes. -/
theorem comboAt_isOk_iff :
    (∃ c, config.comboAt layers base i j = .ok c) ↔ config.CompleteAt layers base i j := by
  simp only [comboAt_eq_ok, CompleteAt, KeyAt, HasKey, ← keyCode_eq_ok_iff, ← layerKeys_eq_ok_iff]
  constructor
  · intro h
    obtain ⟨_, hfirst, hleft, hsecond, hright, hlayer, htarget, hkeys, hthird, hresult⟩ := h
    exact ⟨_, hfirst, ⟨_, hleft⟩, ⟨_, hsecond, _, hright⟩, _, hlayer, _, htarget, _, hkeys, _,
      hthird, _, hresult⟩
  · intro h
    obtain ⟨_, hfirst, ⟨_, hleft⟩, ⟨_, hsecond, _, hright⟩, _, hlayer, _, htarget, _, hkeys, _,
      hthird, _, hresult⟩ := h
    exact ⟨_, .intro hfirst hleft hsecond hright hlayer htarget hkeys hthird hresult⟩

/-- A failing lookup of a pair reports what is missing first. -/
theorem faultAt_of_comboAt (h : config.comboAt layers base i j = .error e) :
    config.FaultAt layers base i j e := by
  simp only [comboAt, except_bind_eq_error, entryAt_eq_ok] at h
  rcases h with h | ⟨first, hfirst, h | ⟨left, hleft, h |
    ⟨second, hsecond, h | ⟨right, hright, h⟩⟩⟩⟩
  · exact .first (keyFault_iff.2 (Or.inl h))
  · exact .first (keyFault_iff.2 (Or.inr ⟨first, hfirst, h⟩))
  · exact .second (keyAt_iff.2 ⟨first, hfirst, left, hleft⟩) (keyFault_iff.2 (Or.inl h))
  · exact .second (keyAt_iff.2 ⟨first, hfirst, left, hleft⟩)
      (keyFault_iff.2 (Or.inr ⟨second, hsecond, h⟩))
  have hkey : config.HasKey first := ⟨left, keyCode_eq_ok_iff.1 hleft⟩
  have hother : config.KeyAt base j := keyAt_iff.2 ⟨second, hsecond, right, hright⟩
  rcases h with h | ⟨switch, hswitch, h⟩
  · exact .number hfirst hkey hother (layerTarget_eq_error_iff.1 h)
  have hlayer : config.SwitchesTo first (switch.getD 0) :=
    layerTarget_eq_ok.1 ⟨switch, hswitch, rfl⟩
  cases htarget : layers[switch.getD 0]? with
  | none =>
    rw [htarget] at h
    cases h
    exact .noLayer hfirst hkey hother hlayer htarget
  | some target =>
    simp only [htarget, except_bind_eq_error, entryAt_eq_ok] at h
    rcases h with h | ⟨keys, hkeys, h⟩
    · exact .layer hfirst hkey hother hlayer htarget (layerKeys_eq_error_iff.1 h)
    rw [layerKeys_eq_ok_iff] at hkeys
    rcases h with h | ⟨third, hthird, h | ⟨result, -, h⟩⟩
    · exact .third hfirst hkey hother hlayer htarget hkeys (keyFault_iff.2 (Or.inl h))
    · exact .third hfirst hkey hother hlayer htarget hkeys
        (keyFault_iff.2 (Or.inr ⟨third, hthird, h⟩))
    · cases h

/-- Once both keys of a pair are found, its lookup goes on with the layer of the first one. -/
theorem comboAt_of_keys (layers : List Term) {first : Term} (hfirst : base[i]? = some first)
    (hkey : config.HasKey first) (hother : config.KeyAt base j) :
    ∃ left right, config.comboAt layers base i j = (do
      let layer := (← config.layerTarget first).getD 0
      let some target := layers[layer]? | throw (.noSuchLayer i layer layers.length)
      let result ← config.keyCode (← entryAt (← config.layerKeys target) j layer)
      return ⟨left, right, result⟩) := by
  obtain ⟨left, hleft⟩ := hkey
  obtain ⟨second, hsecond, right, hright⟩ := keyAt_iff.1 hother
  refine ⟨left, right, ?_⟩
  rw [comboAt, entryAt_eq_ok.2 hfirst, entryAt_eq_ok.2 hsecond]
  have hleft' := keyCode_eq_ok_iff.2 hleft
  cases hswitch : config.layerTarget first with
  | error e => simp only [bind, Except.bind, hleft', hright, hswitch]
  | ok switch =>
    cases htarget : layers[switch.getD 0]? <;>
      simp only [bind, Except.bind, hleft', hright, hswitch, htarget]

theorem FaultAt.comboAt_eq (h : config.FaultAt layers base i j e) :
    config.comboAt layers base i j = .error e := by
  cases h with
  | first h =>
    rcases keyFault_iff.1 h with h | ⟨first, hfirst, h⟩
    · rw [comboAt, h]
      rfl
    · rw [comboAt, entryAt_eq_ok.2 hfirst]
      simp only [bind, Except.bind, h]
  | second hfirst h =>
    obtain ⟨first, hfirst, left, hleft⟩ := keyAt_iff.1 hfirst
    rw [comboAt, entryAt_eq_ok.2 hfirst]
    rcases keyFault_iff.1 h with h | ⟨second, hsecond, h⟩
    · simp only [bind, Except.bind, hleft, h]
    · simp only [bind, Except.bind, hleft, entryAt_eq_ok.2 hsecond, h]
  | number hfirst hkey hother h =>
    obtain ⟨left, right, heq⟩ := comboAt_of_keys layers hfirst hkey hother
    rw [heq, layerTarget_eq_error_iff.2 h]
    rfl
  | noLayer hfirst hkey hother hlayer h =>
    obtain ⟨left, right, heq⟩ := comboAt_of_keys layers hfirst hkey hother
    obtain ⟨switch, hswitch, rfl⟩ := layerTarget_eq_ok.2 hlayer
    rw [heq, hswitch]
    simp only [bind, Except.bind, h]
    rfl
  | layer hfirst hkey hother hlayer htarget h =>
    obtain ⟨left, right, heq⟩ := comboAt_of_keys layers hfirst hkey hother
    obtain ⟨switch, hswitch, rfl⟩ := layerTarget_eq_ok.2 hlayer
    rw [heq, hswitch]
    simp only [bind, Except.bind, htarget, layerKeys_eq_error_iff.2 h]
  | third hfirst hkey hother hlayer htarget hkeys h =>
    obtain ⟨left, right, heq⟩ := comboAt_of_keys layers hfirst hkey hother
    obtain ⟨switch, hswitch, rfl⟩ := layerTarget_eq_ok.2 hlayer
    rw [heq, hswitch]
    rcases keyFault_iff.1 h with h | ⟨third, hthird, h⟩
    · simp only [bind, Except.bind, htarget, layerKeys_eq_ok_iff.2 hkeys, h]
    · simp only [bind, Except.bind, htarget, layerKeys_eq_ok_iff.2 hkeys, entryAt_eq_ok.2 hthird, h]

/-- The lookup of a pair fails exactly with what is missing first. -/
theorem comboAt_eq_error_iff :
    config.comboAt layers base i j = .error e ↔ config.FaultAt layers base i j e :=
  ⟨faultAt_of_comboAt, FaultAt.comboAt_eq⟩

/-! ## Extraction -/

theorem mem_pairs {p : Nat × Nat} :
    p ∈ config.pairs ↔ p.1 ∈ config.homeRow ∧ p.2 ∈ config.homeRow :=
  List.mem_product

theorem layers_eq_error {root : Term} :
    root.layers = .error e ↔ root.form ≠ .call ∧ e = .rootNotCall root.form := by
  cases root <;> simp [Term.layers, Term.form, eq_comm]

/-- Extraction from a keymap with a base layer is the lookup of all pairs. -/
theorem extract_eq {callee : String} {baseLayer : Term} (hbase : config.IsLayer baseLayer base) :
    config.extract (.call callee (baseLayer :: layers)) =
      (config.pairs.mapM fun p => config.comboAt (baseLayer :: layers) base p.1 p.2).map
        fun found => (ComboSet.ofList (found.filter config.keeps)).toList := by
  rw [← layerKeys_eq_ok_iff] at hbase
  simp only [extract, Term.layers, bind, Except.bind, hbase]
  cases config.pairs.mapM fun p => config.comboAt (baseLayer :: layers) base p.1 p.2 <;> rfl

theorem mapM_comboAt_isOk_iff :
    (∃ found, (config.pairs.mapM fun p => config.comboAt layers base p.1 p.2) = .ok found) ↔
      ∀ i ∈ config.homeRow, ∀ j ∈ config.homeRow, config.CompleteAt layers base i j := by
  simp only [mapM_isOk_iff, comboAt_isOk_iff]
  constructor
  · intro h i hi j hj
    exact h (i, j) (mem_pairs.2 ⟨hi, hj⟩)
  · intro h p hp
    exact h p.1 (mem_pairs.1 hp).1 p.2 (mem_pairs.1 hp).2

theorem extract_isOk_iff {root : Term} :
    (∃ cs, config.extract root = .ok cs) ↔ config.Complete root := by
  constructor
  · intro h
    obtain ⟨cs, h⟩ := h
    obtain ⟨callee, baseLayer, layers, base, found, rfl, hbase, hfound, -⟩ := extract_eq_ok.1 h
    simp only [← comboAt_eq_ok] at hfound
    have hpairs := mapM_comboAt_isOk_iff.1 ⟨found, mapM_eq_ok_iff.2 hfound⟩
    exact ⟨callee, baseLayer, layers, base, rfl, layerKeys_eq_ok_iff.1 hbase, hpairs⟩
  · intro h
    obtain ⟨callee, baseLayer, layers, base, rfl, hbase, hpairs⟩ := h
    obtain ⟨found, hfound⟩ := mapM_comboAt_isOk_iff.2 hpairs
    rw [extract_eq hbase, hfound]
    exact ⟨_, rfl⟩

theorem extract_eq_error_iff {root : Term} :
    config.extract root = .error e ↔ config.FirstFault root e := by
  constructor
  · intro h
    cases root with
    | call callee layers =>
      cases layers with
      | nil =>
        cases h
        exact .noLayers
      | cons baseLayer layers =>
        cases hbase : config.layerKeys baseLayer with
        | error e' =>
          simp only [extract, Term.layers, bind, Except.bind, hbase] at h
          obtain rfl := Except.error.inj h
          exact .baseLayer (layerKeys_eq_error_iff.1 hbase)
        | ok base =>
          rw [layerKeys_eq_ok_iff] at hbase
          rw [extract_eq hbase, except_map_eq_error, mapM_eq_error_iff] at h
          obtain ⟨before, p, after, hpairs, hbefore, h⟩ := h
          simp only [comboAt_isOk_iff] at hbefore
          exact .pair hbase hpairs hbefore (comboAt_eq_error_iff.1 h)
    | _ =>
      cases h
      exact .notCall (by simp [Term.form])
  · intro h
    cases h with
    | notCall h =>
      rw [extract, layers_eq_error.2 ⟨h, rfl⟩]
      rfl
    | noLayers => rfl
    | baseLayer h =>
      simp only [extract, Term.layers, bind, Except.bind, layerKeys_eq_error_iff.2 h]
    | @pair callee baseLayer layers base before after i j e hbase hpairs hbefore h =>
      rw [extract_eq hbase, except_map_eq_error, mapM_eq_error_iff]
      refine ⟨before, (i, j), after, hpairs, ?_, comboAt_eq_error_iff.2 h⟩
      simpa only [comboAt_isOk_iff] using hbefore

/-- **Extraction succeeds on complete keymaps alone, and else reports the first fault**: that of the
    first pair of positions, row by row, at which anything is missing. -/
theorem extract_reports_first_fault (config : Config) (root : Term) :
    ((∃ cs, config.extract root = .ok cs) ↔ config.Complete root) ∧
      ∀ e, config.extract root = .error e ↔ config.FirstFault root e :=
  ⟨extract_isOk_iff, fun _ => extract_eq_error_iff⟩

end Config

end KeyCombo
