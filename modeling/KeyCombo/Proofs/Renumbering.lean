import KeyCombo.Proofs.Except
import KeyCombo.Proofs.ExtractionFaults
import KeyCombo.Proofs.EntriesInUse
import KeyCombo.Proofs.Numerals
import KeyCombo.Proofs.Renaming

set_option autoImplicit false

/-! # Renumbering layers

A toggle names its layer by a number from which the layer offset is subtracted, so adding an integer
to the offset and to the numbers of all toggles in use changes nothing. This holds up to the ends of
the 64-bit range, because the difference is that of the integers: it is never wrapped around, and
what does not fit is an error.

Of an entry, renumbering changes the number alone. Its key code is the same
(`keyCode_renumberEntry`), and so is the layer that it switches to (`layerTarget_renumberEntry`). -/

namespace KeyCombo

/-! ## Renumbering -/

/-- A 64-bit integer plus any integer. -/
def addInt (number : Int64) (d : Int) : Int64 := .ofInt (number.toInt + d)

/-- A shape error with an integer added to the number that it names. -/
def ShapeError.renumber (d : Int) : ShapeError → ShapeError
  | .offsetOverflow callee number => .offsetOverflow callee (addInt number d)
  | .negativeLayer callee number layer => .negativeLayer callee (addInt number d) layer
  | e => e

namespace Config

/-- The configuration with an integer added to the layer offset. -/
def renumber (config : Config) (d : Int) : Config :=
  { config with layerOffset := addInt config.layerOffset d }

@[simp] theorem toggleMarker_renumber (config : Config) (d : Int) :
    (config.renumber d).toggleMarker = config.toggleMarker := rfl

/-- The entry with an integer added to its number, if it is a toggle with one. -/
def renumberEntry (config : Config) (d : Int) : Term → Term
  | .call callee (.integer number :: args) =>
    if callee = config.toggleMarker then .call callee (.integer (addInt number d) :: args)
    else .call callee (.integer number :: args)
  | t => t

/-- The entries with an integer added to the numbers of the toggles in the home row. -/
def renumberKeys (config : Config) (d : Int) (keys : List Term) : List Term :=
  keys.mapIdx fun p t => if p ∈ config.homeRow then config.renumberEntry d t else t

/-- The layer with an integer added to the numbers of the toggles in the home row. -/
def renumberLayer (config : Config) (d : Int) : Term → Term
  | .call callee keys => .call callee (config.renumberKeys d keys)
  | t => t

/-- The keymap with an integer added to the numbers of the toggles in the home row of its base
    layer. -/
def renumberBase (config : Config) (d : Int) : Term → Term
  | .call callee layers => .call callee (layers.modifyHead (config.renumberLayer d))
  | t => t

/-- Whether an integer can be added to the layer offset and to the numbers of the toggles in the
    home row of the base layer, so that all of them remain 64-bit integers. -/
structure CanRenumber (config : Config) (d : Int) (root : Term) : Prop where
  offset : IsInt64 (config.layerOffset.toInt + d)
  number : ∀ p ∈ config.homeRow, ∀ number args,
    config.HasEntry root 0 p (.call config.toggleMarker (.integer number :: args)) →
      IsInt64 (number.toInt + d)

variable {config : Config} {d : Int}

/-! ## Single entries -/

theorem renumberEntry_toggle (config : Config) (d : Int) (number : Int64) (args : List Term) :
    config.renumberEntry d (.call config.toggleMarker (.integer number :: args)) =
      .call config.toggleMarker (.integer (addInt number d) :: args) :=
  if_pos rfl

theorem renumberEntry_of_ne {t : Term}
    (h : ∀ number args, t ≠ .call config.toggleMarker (.integer number :: args)) :
    config.renumberEntry d t = t := by
  unfold renumberEntry
  split
  · rename_i callee number args
    refine if_neg fun hcallee => h number args ?_
    rw [hcallee]
  · rfl

theorem keyCode_renumberEntry (t : Term) :
    config.keyCode (config.renumberEntry d t) = config.keyCode t := by
  by_cases h : ∃ number args, t = .call config.toggleMarker (.integer number :: args)
  · obtain ⟨number, args, rfl⟩ := h
    rw [renumberEntry_toggle, keyCode_toggle rfl, keyCode_toggle rfl]
    rfl
  · rw [renumberEntry_of_ne fun number args ht => h ⟨number, args, ht⟩]

/-- The difference of a number and the offset is what it was, whether or not it is in range. -/
theorem layerNumber_renumber {callee : String} {number : Int64}
    (hoffset : IsInt64 (config.layerOffset.toInt + d)) (hnumber : IsInt64 (number.toInt + d)) :
    (config.renumber d).layerNumber callee (addInt number d) =
      (config.layerNumber callee number).mapError (ShapeError.renumber d) := by
  have hdiff : (addInt number d).toInt - (addInt config.layerOffset d).toInt =
      number.toInt - config.layerOffset.toInt := by
    rw [addInt, addInt, toInt_ofInt_of_isInt64 hnumber, toInt_ofInt_of_isInt64 hoffset]
    omega
  simp only [layerNumber, renumber, hdiff]
  split
  · rfl
  · split <;> rfl

theorem layerTarget_renumberEntry {t : Term} (hoffset : IsInt64 (config.layerOffset.toInt + d))
    (ht : ∀ number args, t = .call config.toggleMarker (.integer number :: args) →
      IsInt64 (number.toInt + d)) :
    (config.renumber d).layerTarget (config.renumberEntry d t) =
      (config.layerTarget t).mapError (ShapeError.renumber d) := by
  by_cases h : ∃ number args, t = .call config.toggleMarker (.integer number :: args)
  · obtain ⟨number, args, rfl⟩ := h
    rw [renumberEntry_toggle, layerTarget_toggle]
    simp only [layerTarget, toggleMarker_renumber, if_true,
      layerNumber_renumber hoffset (ht number args rfl)]
    cases config.layerNumber config.toggleMarker number <;> rfl
  · rw [renumberEntry_of_ne fun number args heq => h ⟨number, args, heq⟩]
    by_cases htoggle : ∃ args, t = .call config.toggleMarker args
    · obtain ⟨args, rfl⟩ := htoggle
      have hnumber : ∀ number rest, args ≠ .integer number :: rest := by
        rintro number rest rfl
        exact h ⟨number, rest, rfl⟩
      rw [layerTarget_eq_error_iff.2 (.noNumber hnumber)]
      exact layerTarget_eq_error_iff.2 (.noNumber hnumber)
    · rw [not_exists] at htoggle
      rw [layerTarget_of_not_toggle htoggle]
      exact layerTarget_of_not_toggle htoggle

/-! ## Errors that name no number -/

theorem entryAt_mapError (keys : List Term) (p layer : Nat) :
    (entryAt keys p layer).mapError (ShapeError.renumber d) = entryAt keys p layer := by
  unfold entryAt
  cases keys[p]? <;> rfl

theorem layerKeys_mapError (t : Term) :
    (config.layerKeys t).mapError (ShapeError.renumber d) = config.layerKeys t := by
  cases t with
  | call callee args =>
    rw [layerKeys]
    split <;> rfl
  | _ => rfl

theorem keyCode_mapError (t : Term) :
    (config.keyCode t).mapError (ShapeError.renumber d) = config.keyCode t := by
  cases hcode : config.keyCode t with
  | ok key => rfl
  | error e =>
    obtain ⟨u, -, he⟩ := keyCode_eq_error_iff.1 hcode
    cases u with
    | name => cases he
    | call callee args =>
      obtain rfl := Option.some.inj he
      split <;> rfl
    | _ =>
      obtain rfl := Option.some.inj he
      rfl

/-! ## Lookups -/

theorem entryAt_renumberKeys {p layer : Nat} (hp : p ∈ config.homeRow) (keys : List Term) :
    entryAt (config.renumberKeys d keys) p layer =
      (entryAt keys p layer).map (config.renumberEntry d) := by
  unfold entryAt renumberKeys
  rw [List.getElem?_mapIdx, List.length_mapIdx]
  cases keys[p]? with
  | none => rfl
  | some t => exact congrArg Except.ok (if_pos hp)

theorem layerKeys_renumber (t : Term) : (config.renumber d).layerKeys t = config.layerKeys t := by
  cases t <;> rfl

theorem layerKeys_renumberLayer (t : Term) : config.layerKeys (config.renumberLayer d t) =
    (config.layerKeys t).map (config.renumberKeys d) := by
  cases t with
  | call callee args =>
    simp only [renumberLayer, layerKeys]
    split <;> rfl
  | _ => rfl

/-- The key code at position `j` of the layer that position `i` switches to. -/
def keyOn (config : Config) (layers : List Term) (i j layer : Nat) : Except ShapeError String := do
  let some target := layers[layer]? | throw (.noSuchLayer i layer layers.length)
  config.keyCode (← entryAt (← config.layerKeys target) j layer)

/-- The lookup of a pair ends with a key code on the layer that its first position switches to. -/
theorem comboAt_eq_keyOn (config : Config) (layers base : List Term) (i j : Nat) :
    config.comboAt layers base i j = do
      let first ← entryAt base i 0
      let left ← config.keyCode first
      let right ← config.keyCode (← entryAt base j 0)
      let switch ← config.layerTarget first
      return ⟨left, right, ← config.keyOn layers i j (switch.getD 0)⟩ := by
  unfold comboAt keyOn
  refine bind_congr fun first => bind_congr fun left => bind_congr fun second =>
    bind_congr fun right => bind_congr fun switch => ?_
  dsimp only
  cases layers[switch.getD 0]? with
  | none => rfl
  | some target => simp only [bind_assoc]

theorem keyOn_renumber {i j : Nat} (hj : j ∈ config.homeRow) (layers : List Term) (layer : Nat) :
    (config.renumber d).keyOn (layers.modifyHead (config.renumberLayer d)) i j layer =
      (config.keyOn layers i j layer).mapError (ShapeError.renumber d) := by
  have hcode : ∀ t, (config.renumber d).keyCode t = config.keyCode t := keyCode_congr rfl
  unfold keyOn
  rw [List.getElem?_modifyHead, List.length_modifyHead]
  cases layers[layer]? with
  | none =>
    rw [Option.map_none, ite_self]
    rfl
  | some target =>
    -- the base layer is renumbered, but that shows in no key code
    by_cases hlayer : layer = 0
    · simp only [if_pos hlayer, Option.map_some, layerKeys_renumber, layerKeys_renumberLayer, hcode,
        except_map_bind, entryAt_renumberKeys hj, keyCode_renumberEntry, except_bind_mapError,
        layerKeys_mapError, entryAt_mapError, keyCode_mapError]
    · simp only [if_neg hlayer, layerKeys_renumber, hcode, except_bind_mapError,
        layerKeys_mapError, entryAt_mapError, keyCode_mapError]

/-- A pair of home-row positions yields what it did, or fails as it did. -/
theorem comboAt_renumber {layers base : List Term} {i j : Nat} (hi : i ∈ config.homeRow)
    (hj : j ∈ config.homeRow) (hoffset : IsInt64 (config.layerOffset.toInt + d))
    (hnumber : ∀ number args,
      base[i]? = some (.call config.toggleMarker (.integer number :: args)) →
        IsInt64 (number.toInt + d)) :
    (config.renumber d).comboAt (layers.modifyHead (config.renumberLayer d))
        (config.renumberKeys d base) i j =
      (config.comboAt layers base i j).mapError (ShapeError.renumber d) := by
  have hcode : ∀ t, (config.renumber d).keyCode t = config.keyCode t := keyCode_congr rfl
  simp only [comboAt_eq_keyOn, hcode, entryAt_renumberKeys hi, entryAt_renumberKeys hj,
    except_map_bind, keyCode_renumberEntry, except_bind_mapError, entryAt_mapError,
    keyCode_mapError, keyOn_renumber hj]
  cases hfirst : entryAt base i 0 with
  | error e => rfl
  | ok first =>
    have htarget : (config.renumber d).layerTarget (config.renumberEntry d first) =
        (config.layerTarget first).mapError (ShapeError.renumber d) := by
      refine layerTarget_renumberEntry hoffset ?_
      rintro number args rfl
      exact hnumber number args (entryAt_eq_ok.1 hfirst)
    change (config.keyCode first >>= _) = (config.keyCode first >>= _)
    rw [htarget]
    rfl

/-! ## Extraction -/

theorem layers_renumberBase (root : Term) : (config.renumberBase d root).layers =
    root.layers.map fun layers => layers.modifyHead (config.renumberLayer d) := by
  cases root <;> rfl

theorem layers_mapError (root : Term) :
    root.layers.mapError (ShapeError.renumber d) = root.layers := by
  cases root <;> rfl

theorem opened_renumber (root : Term) : (config.renumber d).opened (config.renumberBase d root) =
    ((config.opened root).map fun p =>
      (p.1.modifyHead (config.renumberLayer d), config.renumberKeys d p.2)).mapError
        (ShapeError.renumber d) := by
  simp only [opened, layers_renumberBase, except_map_bind, except_bind_map, except_bind_mapError,
    layers_mapError]
  refine bind_congr fun layers => ?_
  cases layers with
  | nil => rfl
  | cons baseLayer layers =>
    simp only [List.modifyHead_cons, layerKeys_renumber, layerKeys_renumberLayer, except_map_bind,
      except_bind_map, except_bind_mapError, layerKeys_mapError]
    rfl

theorem layerAt_of_opened {root : Term} {layers base : List Term}
    (h : config.opened root = .ok (layers, base)) : config.LayerAt root 0 base := by
  simp only [opened, except_bind_eq_ok, layers_eq_ok] at h
  obtain ⟨layers', ⟨callee, rfl⟩, h⟩ := h
  cases layers' with
  | nil => cases h
  | cons baseLayer layers' =>
    obtain ⟨base', hbase, h⟩ := except_bind_eq_ok.1 h
    cases h
    exact layerAt_zero.2 ⟨callee, baseLayer, layers', rfl, hbase⟩

theorem lookUps_renumber {root : Term} (h : config.CanRenumber d root) :
    (config.renumber d).lookUps (config.renumberBase d root) =
      (config.lookUps root).mapError (ShapeError.renumber d) := by
  rw [lookUps, lookUps, opened_renumber]
  cases hopened : config.opened root with
  | error e => rfl
  | ok p =>
    obtain ⟨layers, base⟩ := p
    refine mapM_mapError fun q hq => ?_
    obtain ⟨hi, hj⟩ := mem_pairs.1 hq
    exact comboAt_renumber hi hj h.offset fun number args hfirst =>
      h.number q.1 hi number args ⟨base, layerAt_of_opened hopened, hfirst⟩

theorem extract_renumber {root : Term} (h : config.CanRenumber d root) :
    (config.renumber d).extract (config.renumberBase d root) =
      (config.extract root).mapError (ShapeError.renumber d) := by
  rw [extract_eq_map_select, extract_eq_map_select, lookUps_renumber h]
  cases config.lookUps root <;> rfl

/-! ## Exact numbers -/

/-- A toggle switches to the difference of its number and the offset, as integers, if at all. -/
theorem layerTarget_eq_ok_some {t : Term} {layer : Nat} : config.layerTarget t = .ok (some layer) ↔
    ∃ number args, t = .call config.toggleMarker (.integer number :: args) ∧
      number.toInt - config.layerOffset.toInt = layer ∧ (layer : Int) ≤ Int64.maxValue.toInt := by
  constructor
  · intro h
    cases layerTarget_eq_ok.1 ⟨some layer, h, rfl⟩ with
    | toggle hnumber hlayer => exact ⟨_, _, rfl, hnumber, hlayer⟩
    | other ht =>
      rw [layerTarget_of_not_toggle ht] at h
      cases h
  · rintro ⟨number, args, rfl, hlayer⟩
    rw [layerTarget_toggle, layerNumber_eq_ok.2 hlayer]
    rfl

example : layerTarget { Config.default with layerOffset := 1 }
    (.call "LT" [.integer Int64.minValue, .name "KC_A"]) =
      .error (.offsetOverflow "LT" Int64.minValue) := by
  decide

/-- If extraction succeeds, each toggle in the home row has a number, and its difference to the
    offset is the number of a layer that exists. -/
theorem layerAt_of_extract {root : Term} {cs : List Combo} (h : config.extract root = .ok cs)
    {p : Nat} (hp : p ∈ config.homeRow) {args : List Term}
    (hentry : config.HasEntry root 0 p (.call config.toggleMarker args)) :
    ∃ number rest layer keys, args = .integer number :: rest ∧
      number.toInt - config.layerOffset.toInt = (layer : Nat) ∧ config.LayerAt root layer keys := by
  obtain ⟨callee, baseLayer, layers, base, rfl, hbase, hcomplete⟩ := extract_isOk_iff.1 ⟨cs, h⟩
  obtain ⟨base', hbase', hfirst'⟩ := hentry
  obtain ⟨first, hfirst, -, -, layer, hswitch, target, htarget, keys, hkeys, -⟩ :=
    hcomplete p hp p hp
  obtain rfl := hbase'.keys_eq ⟨callee, _, baseLayer, rfl, rfl, hbase⟩
  rw [hfirst] at hfirst'
  cases hfirst'
  cases hswitch with
  | toggle hnumber =>
    exact ⟨_, _, layer, keys, rfl, hnumber, callee, _, target, rfl, htarget, hkeys⟩
  | other ht => exact absurd rfl (ht args)

/-- **Layer numbers are exact and count from the offset.** If an integer is added to the layer
    offset and to the numbers of all toggles in the home row of the base layer, and all of them
    remain 64-bit integers, extraction returns the same combos, or fails with the same error about
    the new number. The layer of a toggle is the difference of its number and the offset as
    integers, and if extraction succeeds, each toggle has one that exists. -/
theorem extract_renumbered (config : Config) (root : Term) :
    (∀ d, config.CanRenumber d root →
      (config.renumber d).extract (config.renumberBase d root) =
          (config.extract root).mapError (ShapeError.renumber d) ∧
        ∀ cs, (config.renumber d).extract (config.renumberBase d root) = .ok cs ↔
          config.extract root = .ok cs) ∧
      (∀ t (layer : Nat), config.layerTarget t = .ok (some layer) ↔
        ∃ number args, t = .call config.toggleMarker (.integer number :: args) ∧
          number.toInt - config.layerOffset.toInt = layer ∧
          (layer : Int) ≤ Int64.maxValue.toInt) ∧
      ∀ cs, config.extract root = .ok cs → ∀ p ∈ config.homeRow, ∀ args,
        config.HasEntry root 0 p (.call config.toggleMarker args) →
          ∃ number rest layer keys, args = .integer number :: rest ∧
            number.toInt - config.layerOffset.toInt = (layer : Nat) ∧
            config.LayerAt root layer keys := by
  refine ⟨fun d h => ⟨extract_renumber h, fun cs => ?_⟩, fun t layer => layerTarget_eq_ok_some,
    fun cs h p hp args hentry => layerAt_of_extract h hp hentry⟩
  rw [extract_renumber h, except_mapError_eq_ok]

theorem extract_renumbered_end_to_end :
    extract { Config.default with homeRow := [0, 1], layerOffset := Int64.minValue } (.call "K"
      [.call "LAYOUT" [.call "LT" [.integer (Int64.minValue + 1), .name "KC_A"],
          .call "LT" [.integer Int64.minValue, .name "KC_B"]],
        .call "LAYOUT" [.name "KC_C", .name "KC_D"]]) =
      .ok [⟨"KC_A", "KC_B", "KC_D"⟩, ⟨"KC_B", "KC_A", "KC_A"⟩] ∧
    extract { Config.default with homeRow := [0, 1], layerOffset := Int64.maxValue - 1 } (.call "K"
      [.call "LAYOUT" [.call "LT" [.integer Int64.maxValue, .name "KC_A"],
          .call "LT" [.integer (Int64.maxValue - 1), .name "KC_B"]],
        .call "LAYOUT" [.name "KC_C", .name "KC_D"]]) =
      .ok [⟨"KC_A", "KC_B", "KC_D"⟩, ⟨"KC_B", "KC_A", "KC_A"⟩] := by
  let config : Config := { Config.default with homeRow := [0, 1], layerOffset := Int64.minValue }
  let root : Term := .call "K"
      [.call "LAYOUT" [.call "LT" [.integer (Int64.minValue + 1), .name "KC_A"],
          .call "LT" [.integer Int64.minValue, .name "KC_B"]],
        .call "LAYOUT" [.name "KC_C", .name "KC_D"]]
  have h : config.extract root = .ok [⟨"KC_A", "KC_B", "KC_D"⟩, ⟨"KC_B", "KC_A", "KC_A"⟩] := by
    decide
  have hd : config.CanRenumber (2 ^ 64 - 2) root := by
    refine ⟨by decide, ?_⟩
    rintro p hp number args ⟨keys, ⟨_, _, _, heq, hbase, _, rfl, -⟩, hentry⟩
    obtain ⟨rfl, rfl⟩ := Term.call.inj heq
    cases hbase
    rcases List.mem_pair.1 hp with rfl | rfl <;> cases hentry <;> decide
  obtain ⟨hrenumber, -, -⟩ := extract_renumbered config root
  exact ⟨h, ((hrenumber _ hd).2 _).2 h⟩

end Config

end KeyCombo
