import KeyCombo.Proofs.ExtractionFaults
import Mathlib.Logic.Relation

set_option autoImplicit false

/-! # What extraction reads

Of a keymap extraction reads the home-row positions of the base layer and of the layers that their
entries switch to, and of an entry its key code and the layer that it switches to. Everything else
may change without any effect on an extraction that succeeds: if each pair of positions yields what
it did, the combos are the same.

The base layer is in use even if no entry stays on it, since its entries are what is pressed. -/

namespace KeyCombo.Config

/-! ## Entries in use -/

/-- Whether a keymap has a layer with the given number and entries. -/
def LayerAt (config : Config) (root : Term) (layer : Nat) (keys : List Term) : Prop :=
  ∃ callee layers target, root = .call callee layers ∧ layers[layer]? = some target ∧
    config.IsLayer target keys

/-- Whether an entry stands at a position of a layer of a keymap. -/
def HasEntry (config : Config) (root : Term) (layer position : Nat) (entry : Term) : Prop :=
  ∃ keys, config.LayerAt root layer keys ∧ keys[position]? = some entry

/-- Whether a home-row entry of the base layer switches to a layer. An entry that is no toggle stays
    on the base layer. -/
def Selects (config : Config) (root : Term) (layer : Nat) : Prop :=
  ∃ p ∈ config.homeRow, ∃ entry, config.HasEntry root 0 p entry ∧ config.SwitchesTo entry layer

/-- Whether a keymap agrees with another one at all entries of that one that are in use. -/
structure SameInUse (config : Config) (s t : Term) : Prop where
  /-- It has a base layer. -/
  baseLayer : ∃ base, config.LayerAt t 0 base
  /-- Its base layer has the same key codes and the same toggles in the home row. -/
  base : ∀ p ∈ config.homeRow, ∀ a, config.HasEntry s 0 p a →
    ∃ b, config.HasEntry t 0 p b ∧ config.keyCode a = config.keyCode b ∧
      config.layerTarget a = config.layerTarget b
  /-- Its layers that are switched to have the same key codes in the home row. -/
  selected : ∀ layer, config.Selects s layer → ∀ p ∈ config.homeRow, ∀ a,
    config.HasEntry s layer p a →
      ∃ b, config.HasEntry t layer p b ∧ config.keyCode a = config.keyCode b

variable {config : Config} {s t : Term} {cs : List Combo}

theorem layerAt_zero {root : Term} {base : List Term} : config.LayerAt root 0 base ↔
    ∃ callee baseLayer layers, root = .call callee (baseLayer :: layers) ∧
      config.layerKeys baseLayer = .ok base := by
  constructor
  · rintro ⟨callee, layers, baseLayer, rfl, hzero, hbase⟩
    cases layers with
    | nil => cases hzero
    | cons first layers =>
      obtain rfl := Option.some.inj hzero
      exact ⟨callee, first, layers, rfl, layerKeys_eq_ok_iff.2 hbase⟩
  · rintro ⟨callee, baseLayer, layers, rfl, hbase⟩
    exact ⟨callee, baseLayer :: layers, baseLayer, rfl, rfl, layerKeys_eq_ok_iff.1 hbase⟩

/-- A layer has one list of entries. -/
theorem LayerAt.keys_eq {layer : Nat} {keys keys' : List Term} (h : config.LayerAt s layer keys)
    (h' : config.LayerAt s layer keys') : keys = keys' := by
  obtain ⟨_, _, target, rfl, htarget, _, rfl, -⟩ := h
  obtain ⟨_, _, target', heq, htarget', _, rfl, -⟩ := h'
  cases heq
  rw [htarget] at htarget'
  cases htarget'
  rfl

theorem SwitchesTo.of_layerTarget_eq {a b : Term} {layer : Nat}
    (h : config.layerTarget a = config.layerTarget b) (ha : config.SwitchesTo a layer) :
    config.SwitchesTo b layer := by
  rw [← layerTarget_eq_ok] at ha ⊢
  rwa [← h]

/-! ## Extraction from keymaps that agree -/

/-- A pair of home-row positions yields the same in a keymap that agrees. -/
theorem SameInUse.yields (h : config.SameInUse s t) {callee callee' : String}
    {layers layers' base base' : List Term} (hs : s = .call callee layers)
    (ht : t = .call callee' layers') (hbase : config.LayerAt s 0 base)
    (hbase' : config.LayerAt t 0 base') {i j : Nat} (hi : i ∈ config.homeRow)
    (hj : j ∈ config.homeRow) {c : Combo} (hc : config.Yields layers base i j c) :
    config.Yields layers' base' i j c := by
  have hentry : ∀ {p : Nat} {b : Term}, config.HasEntry t 0 p b → base'[p]? = some b := by
    rintro p b ⟨keys, hkeys, hb⟩
    rwa [hbase'.keys_eq hkeys]
  obtain ⟨hfirst, hleft, hsecond, hright, hlayer, htarget, hkeys, hthird, hresult⟩ := hc
  obtain ⟨first', hfirst', hleft', hswitch⟩ := h.base i hi _ ⟨base, hbase, hfirst⟩
  obtain ⟨second', hsecond', hright', -⟩ := h.base j hj _ ⟨base, hbase, hsecond⟩
  have hselects : config.Selects s _ := ⟨i, hi, _, ⟨base, hbase, hfirst⟩, hlayer⟩
  obtain ⟨third', ⟨keys', ⟨_, _, target', heq, htarget', hkeys'⟩, hthird'⟩, hresult'⟩ :=
    h.selected _ hselects j hj _
      ⟨_, ⟨callee, layers, _, hs, htarget, layerKeys_eq_ok_iff.1 hkeys⟩, hthird⟩
  rw [ht] at heq
  cases heq
  exact .intro (hentry hfirst') (hleft' ▸ hleft) (hentry hsecond') (hright' ▸ hright)
    (hlayer.of_layerTarget_eq hswitch) htarget' (layerKeys_eq_ok_iff.2 hkeys') hthird'
    (hresult' ▸ hresult)

theorem SameInUse.extract_eq (h : config.SameInUse s t) (hs : config.extract s = .ok cs) :
    config.extract t = .ok cs := by
  obtain ⟨callee, baseLayer, layers, base, found, rfl, hbase, hfound, rfl⟩ := extract_eq_ok.1 hs
  obtain ⟨base', hbase'⟩ := h.baseLayer
  obtain ⟨callee', baseLayer', layers', rfl, hkeys'⟩ := layerAt_zero.1 hbase'
  refine extract_eq_ok.2 ⟨callee', baseLayer', layers', base', found, rfl, hkeys', ?_, rfl⟩
  rw [List.forall₂_iff_zip] at hfound ⊢
  refine ⟨hfound.1, fun {p c} hpc => ?_⟩
  obtain ⟨hi, hj⟩ := mem_pairs.1 (List.of_mem_zip hpc).1
  exact h.yields rfl rfl (layerAt_zero.2 ⟨callee, baseLayer, layers, rfl, hbase⟩) hbase' hi hj
    (hfound.2 hpc)

/-! ## Changes outside of use -/

/-- A change of a keymap at one place that is not in use. -/
inductive Edit (config : Config) : Term → Term → Prop
  | callee {old new : String} {layers : List Term} :
      Edit config (.call old layers) (.call new layers)
  | addLayers {callee : String} {layers more : List Term} :
      Edit config (.call callee layers) (.call callee (layers ++ more))
  | addKeys {callee layout : String} {layers keys more : List Term} {n : Nat}
      (h : layers[n]? = some (.call layout keys)) :
      Edit config (.call callee layers) (.call callee (layers.set n (.call layout (keys ++ more))))
  | changeKey {callee layout : String} {layers keys : List Term} {n p : Nat} {key : Term}
      (h : layers[n]? = some (.call layout keys)) (hp : p ∉ config.homeRow) :
      Edit config (.call callee layers)
        (.call callee (layers.set n (.call layout (keys.set p key))))
  | changeLayer {callee : String} {layers : List Term} {n : Nat} {layer : Term} (hn : n ≠ 0)
      (h : ¬config.Selects (.call callee layers) n) :
      Edit config (.call callee layers) (.call callee (layers.set n layer))

/-- Whether all home-row entries of a layer are still there in another one. -/
def KeepsHomeRow (config : Config) (keys keys' : List Term) : Prop :=
  ∀ p ∈ config.homeRow, ∀ a, keys[p]? = some a → keys'[p]? = some a

/-- A layer stays as it is if another one is put in the place of a layer. -/
theorem LayerAt.set_of_ne {callee : String} {layers keys : List Term} {m n : Nat} {layer : Term}
    (hm : config.LayerAt (.call callee layers) m keys) (hne : m ≠ n) :
    config.LayerAt (.call callee (layers.set n layer)) m keys := by
  obtain ⟨_, _, target, heq, htarget, hkeys⟩ := hm
  cases heq
  refine ⟨callee, _, target, rfl, ?_, hkeys⟩
  rwa [List.getElem?_set_ne (Ne.symm hne)]

/-- Every layer keeps its home-row entries if one layer gets other entries that keep them. -/
theorem LayerAt.set_keys {callee layout : String} {layers keys old new : List Term} {m n : Nat}
    (hn : layers[n]? = some (.call layout old)) (hnew : config.KeepsHomeRow old new)
    (hm : config.LayerAt (.call callee layers) m keys) :
    ∃ keys', config.LayerAt (.call callee (layers.set n (.call layout new))) m keys' ∧
      config.KeepsHomeRow keys keys' := by
  by_cases hmn : m = n
  · subst hmn
    obtain ⟨_, _, target, heq, htarget, _, rfl, hlayout⟩ := hm
    cases heq
    rw [hn] at htarget
    cases htarget
    refine ⟨new, ⟨callee, _, _, rfl, ?_, layout, rfl, hlayout⟩, hnew⟩
    obtain ⟨hlt, -⟩ := List.getElem?_eq_some_iff.1 hn
    exact List.getElem?_set_self hlt
  · exact ⟨keys, hm.set_of_ne hmn, fun _ _ _ h => h⟩

/-- A change keeps the home-row entries of the layers in use. -/
theorem Edit.layerAt (h : config.Edit s t) {n : Nat} {keys : List Term}
    (hn : n = 0 ∨ config.Selects s n) (hkeys : config.LayerAt s n keys) :
    ∃ keys', config.LayerAt t n keys' ∧ config.KeepsHomeRow keys keys' := by
  cases h with
  | callee =>
    obtain ⟨_, _, target, heq, htarget, hlayer⟩ := hkeys
    cases heq
    exact ⟨keys, ⟨_, _, target, rfl, htarget, hlayer⟩, fun _ _ _ h => h⟩
  | addLayers =>
    obtain ⟨_, _, target, heq, htarget, hlayer⟩ := hkeys
    cases heq
    refine ⟨keys, ⟨_, _, target, rfl, ?_, hlayer⟩, fun _ _ _ h => h⟩
    obtain ⟨hlt, -⟩ := List.getElem?_eq_some_iff.1 htarget
    rwa [List.getElem?_append_left hlt]
  | addKeys hlayer =>
    refine hkeys.set_keys hlayer fun p _ a ha => ?_
    obtain ⟨hlt, -⟩ := List.getElem?_eq_some_iff.1 ha
    rwa [List.getElem?_append_left hlt]
  | @changeKey callee layout layers old m p key hlayer hp =>
    refine hkeys.set_keys hlayer fun q hq a ha => ?_
    have hne : p ≠ q := fun heq => hp (heq ▸ hq)
    rwa [List.getElem?_set_ne hne]
  | @changeLayer callee layers m layer hzero hselects =>
    have hne : n ≠ m := by
      rintro rfl
      exact hn.elim hzero hselects
    exact ⟨keys, hkeys.set_of_ne hne, fun _ _ _ h => h⟩

/-- A keymap with a base layer agrees with what a change makes of it. -/
theorem Edit.sameInUse (h : config.Edit s t) {base : List Term} (hbase : config.LayerAt s 0 base) :
    config.SameInUse s t := by
  have hentry : ∀ {n p : Nat} {a : Term}, n = 0 ∨ config.Selects s n → p ∈ config.homeRow →
      config.HasEntry s n p a → config.HasEntry t n p a := by
    rintro n p a hn hp ⟨keys, hkeys, ha⟩
    obtain ⟨keys', hkeys', hkeeps⟩ := h.layerAt hn hkeys
    exact ⟨keys', hkeys', hkeeps p hp a ha⟩
  obtain ⟨base', hbase', -⟩ := h.layerAt (Or.inl rfl) hbase
  refine ⟨⟨base', hbase'⟩, fun p hp a ha => ?_, fun n hn p hp a ha => ?_⟩
  · exact ⟨a, hentry (Or.inl rfl) hp ha, rfl, rfl⟩
  · exact ⟨a, hentry (Or.inr hn) hp ha, rfl⟩

theorem Edit.extract_eq (h : config.Edit s t) (hs : config.extract s = .ok cs) :
    config.extract t = .ok cs := by
  obtain ⟨callee, baseLayer, layers, base, -, rfl, hbase, -, -⟩ := extract_eq_ok.1 hs
  exact (h.sameInUse (layerAt_zero.2 ⟨callee, baseLayer, layers, rfl, hbase⟩)).extract_eq hs

/-- **Extraction reads nothing but the entries in use.** If it succeeds, it returns the very same
    combos for every keymap that agrees at the home-row positions of the base layer and of the
    layers that are switched to. So it does after any number of changes to the root callee, to
    positions outside of the home row and to layers behind the base layer that are not switched to,
    and of additions of layers and keys. -/
theorem extract_reads_entries_in_use (h : config.extract s = .ok cs) :
    (∀ t, config.SameInUse s t → config.extract t = .ok cs) ∧
      ∀ t, Relation.ReflTransGen config.Edit s t → config.extract t = .ok cs := by
  refine ⟨fun t ht => ht.extract_eq h, fun t ht => ?_⟩
  induction ht with
  | refl => exact h
  | tail _ hstep ih => exact hstep.extract_eq ih

theorem extract_reads_entries_in_use_changed :
    extract { Config.default with homeRow := [0, 1] } (.call "K"
      [.call "LAYOUT" [.call "LT" [.integer 8, .name "KC_A"], .name "KC_B"],
        .call "LAYOUT" [.name "KC_C", .name "KC_D"], .call "LAYOUT" []]) =
      .ok [⟨"KC_A", "KC_B", "KC_D"⟩, ⟨"KC_B", "KC_A", "KC_A"⟩] ∧
    extract { Config.default with homeRow := [0, 1] } (.call "K"
      [.call "LAYOUT" [.call "LT" [.integer 8, .call "S" [.name "KC_A"]], .name "KC_B"],
        .call "LAYOUT_2" [.name "KC_C", .call "MT" [.integer 1, .name "KC_D"]]]) =
      .ok [⟨"KC_A", "KC_B", "KC_D"⟩, ⟨"KC_B", "KC_A", "KC_A"⟩] ∧
    extract { Config.default with homeRow := [0, 1] } (.call "OTHER"
      [.call "LAYOUT" [.call "LT" [.integer 8, .name "KC_A"], .name "KC_B"],
        .call "LAYOUT" [.name "KC_C", .name "KC_D"], .integer 0]) =
      .ok [⟨"KC_A", "KC_B", "KC_D"⟩, ⟨"KC_B", "KC_A", "KC_A"⟩] := by
  have h : extract { Config.default with homeRow := [0, 1] } (.call "K"
      [.call "LAYOUT" [.call "LT" [.integer 8, .name "KC_A"], .name "KC_B"],
        .call "LAYOUT" [.name "KC_C", .name "KC_D"], .call "LAYOUT" []]) =
      .ok [⟨"KC_A", "KC_B", "KC_D"⟩, ⟨"KC_B", "KC_A", "KC_A"⟩] := by decide
  have hselects : ∀ n, Selects { Config.default with homeRow := [0, 1] } (.call "K"
      [.call "LAYOUT" [.call "LT" [.integer 8, .name "KC_A"], .name "KC_B"],
        .call "LAYOUT" [.name "KC_C", .name "KC_D"], .call "LAYOUT" []]) n → n = 0 ∨ n = 1 := by
    rintro n ⟨p, hp, a, ⟨keys, ⟨_, _, _, heq, hbase, _, rfl, -⟩, ha⟩, hswitch⟩
    cases heq
    cases hbase
    obtain ⟨target, htarget, rfl⟩ := layerTarget_eq_ok.2 hswitch
    rcases List.mem_pair.1 hp with rfl | rfl
    · cases ha
      cases htarget
      exact Or.inr rfl
    · cases ha
      cases htarget
      exact Or.inl rfl
  obtain ⟨hsame, hedits⟩ := extract_reads_entries_in_use h
  refine ⟨h, hsame _ ⟨⟨_, _, _, _, rfl, rfl, "LAYOUT", rfl, by decide⟩, ?_, ?_⟩, hedits _ ?_⟩
  · simp [HasEntry, LayerAt, IsLayer, keyCode, lastKeyCode, layerTarget, Config.default]
  · intro n hn
    rcases hselects n hn with rfl | rfl <;>
      simp [HasEntry, LayerAt, IsLayer, keyCode, lastKeyCode, Config.default]
  · have hunused : ¬Selects { Config.default with homeRow := [0, 1] } (.call "K"
        [.call "LAYOUT" [.call "LT" [.integer 8, .name "KC_A"], .name "KC_B"],
          .call "LAYOUT" [.name "KC_C", .name "KC_D"], .call "LAYOUT" []]) 2 := fun h2 =>
      absurd (hselects 2 h2) (by decide)
    exact .tail (.single (.changeLayer (by decide) hunused)) .callee

end KeyCombo.Config
