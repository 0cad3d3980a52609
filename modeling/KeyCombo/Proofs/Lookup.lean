import KeyCombo.Combo.Extract
import KeyCombo.Proofs.ComboClasses
import KeyCombo.Proofs.Except

set_option autoImplicit false

/-! # What extraction looks up

An extraction that succeeds has found a layer at the front of the keymap and a combo for each pair
of home-row positions. `Yields` says which one, without the order in which the lookups are made;
nothing else about them matters unless one of them fails. -/

namespace KeyCombo

/-! ## Single lookups -/

theorem entryAt_eq_ok {keys : List Term} {position layer : Nat} {t : Term} :
    entryAt keys position layer = .ok t ↔ keys[position]? = some t := by
  unfold entryAt
  cases keys[position]? <;> simp

theorem layers_eq_ok {root : Term} {layers : List Term} :
    root.layers = .ok layers ↔ ∃ callee, root = .call callee layers := by
  cases root <;> simp [Term.layers]

namespace Config

variable {config : Config}

theorem layerKeys_eq_ok {layer : Term} {keys : List Term} : config.layerKeys layer = .ok keys ↔
    ∃ callee, layer = .call callee keys ∧ config.isLayout callee = true := by
  cases layer with
  | call callee args =>
    simp only [layerKeys, Term.call.injEq]
    by_cases h : config.isLayout callee = true
    · simp [h]
    · simp [h]
  | _ => simp [layerKeys]

theorem layerNumber_eq_ok {callee : String} {number : Int64} {n : Nat} :
    config.layerNumber callee number = .ok n ↔
      number.toInt - config.layerOffset.toInt = n ∧ n ≤ Int64.maxValue.toInt := by
  have hmin := Int64.toInt_minValue_lt_zero
  simp only [layerNumber]
  split
  · simp only [reduceCtorEq, false_iff]
    omega
  · split
    · simp only [reduceCtorEq, false_iff]
      omega
    · simp only [Except.ok.injEq]
      omega

/-- Which layer counts for pairs that start with an entry: that of a toggle is the number in it less
    the offset, that of any other entry is the base layer. -/
inductive SwitchesTo (config : Config) : Term → Nat → Prop
  | toggle {number : Int64} {args : List Term} {n : Nat}
      (hnumber : number.toInt - config.layerOffset.toInt = n) (hn : n ≤ Int64.maxValue.toInt) :
      SwitchesTo config (.call config.toggleMarker (.integer number :: args)) n
  | other {t : Term} (ht : ∀ args, t ≠ .call config.toggleMarker args) : SwitchesTo config t 0

theorem layerTarget_of_not_toggle {t : Term} (ht : ∀ args, t ≠ .call config.toggleMarker args) :
    config.layerTarget t = .ok none := by
  cases t with
  | call callee args =>
    have hcallee : callee ≠ config.toggleMarker := fun heq => ht args (by rw [heq])
    exact if_neg hcallee
  | _ => rfl

theorem layerTarget_eq_ok {t : Term} {n : Nat} :
    (∃ target, config.layerTarget t = .ok target ∧ target.getD 0 = n) ↔ config.SwitchesTo t n := by
  constructor
  · rintro ⟨target, h, rfl⟩
    unfold layerTarget at h
    split at h
    case h_1 callee args =>
      by_cases hcallee : callee = config.toggleMarker
      · rw [if_pos hcallee] at h
        subst hcallee
        split at h
        case h_1 number rest =>
          cases hlayer : config.layerNumber config.toggleMarker number with
          | error e => simp [hlayer, Except.map] at h
          | ok n =>
            rw [hlayer] at h
            cases h
            obtain ⟨hnumber, hn⟩ := layerNumber_eq_ok.1 hlayer
            exact .toggle hnumber hn
        case h_2 => cases h
      · rw [if_neg hcallee] at h
        cases h
        refine .other fun _ heq => hcallee ?_
        cases heq
        rfl
    case h_2 hcall =>
      cases h
      exact .other fun args => hcall config.toggleMarker args
  · intro h
    cases h with
    | @toggle number args n hnumber hn =>
      refine ⟨some n, ?_, rfl⟩
      simp [layerTarget, layerNumber_eq_ok.2 ⟨hnumber, hn⟩, Except.map]
    | other ht => exact ⟨none, layerTarget_of_not_toggle ht, rfl⟩

/-- What two positions of the base layer yield. -/
inductive Yields (config : Config) (layers base : List Term) (i j : Nat) : Combo → Prop
  | intro {first second third target : Term} {keys : List Term} {left right result : String}
      {layer : Nat} (hfirst : base[i]? = some first) (hleft : config.keyCode first = .ok left)
      (hsecond : base[j]? = some second) (hright : config.keyCode second = .ok right)
      (hlayer : config.SwitchesTo first layer) (htarget : layers[layer]? = some target)
      (hkeys : config.layerKeys target = .ok keys) (hthird : keys[j]? = some third)
      (hresult : config.keyCode third = .ok result) :
      Yields config layers base i j ⟨left, right, result⟩

theorem comboAt_eq_ok {layers base : List Term} {i j : Nat} {c : Combo} :
    config.comboAt layers base i j = .ok c ↔ config.Yields layers base i j c := by
  simp only [comboAt, except_bind_eq_ok, entryAt_eq_ok]
  constructor
  · rintro ⟨first, hfirst, left, hleft, second, hsecond, right, hright, switch, hswitch, h⟩
    have hlayer := layerTarget_eq_ok.1 ⟨switch, hswitch, rfl⟩
    cases htarget : layers[switch.getD 0]? with
    | none =>
      rw [htarget] at h
      cases h
    | some target =>
      simp only [htarget, except_bind_eq_ok, entryAt_eq_ok] at h
      obtain ⟨keys, hkeys, third, hthird, result, hresult, h⟩ := h
      cases h
      exact .intro hfirst hleft hsecond hright hlayer htarget hkeys hthird hresult
  · rintro ⟨hfirst, hleft, hsecond, hright, hlayer, htarget, hkeys, hthird, hresult⟩
    obtain ⟨switch, hswitch, rfl⟩ := layerTarget_eq_ok.2 hlayer
    refine ⟨_, hfirst, _, hleft, _, hsecond, _, hright, switch, hswitch, ?_⟩
    simp only [htarget, except_bind_eq_ok, entryAt_eq_ok]
    exact ⟨_, hkeys, _, hthird, _, hresult, rfl⟩

theorem extract_eq_ok {root : Term} {cs : List Combo} : config.extract root = .ok cs ↔
    ∃ callee baseLayer layers base found, root = .call callee (baseLayer :: layers) ∧
      config.layerKeys baseLayer = .ok base ∧
      List.Forall₂ (fun p c => config.Yields (baseLayer :: layers) base p.1 p.2 c) config.pairs
        found ∧
      cs = Combo.firsts (found.filter config.keeps) := by
  unfold extract
  simp only [except_bind_eq_ok, layers_eq_ok, ComboSet.toList_ofList]
  constructor
  · rintro ⟨layers, ⟨callee, rfl⟩, h⟩
    cases layers with
    | nil => cases h
    | cons baseLayer layers =>
      simp only [except_bind_eq_ok, mapM_eq_ok_iff, comboAt_eq_ok] at h
      obtain ⟨base, hbase, found, hfound, h⟩ := h
      cases h
      exact ⟨callee, baseLayer, layers, base, found, rfl, hbase, hfound, rfl⟩
  · rintro ⟨callee, baseLayer, layers, base, found, rfl, hbase, hfound, rfl⟩
    refine ⟨_, ⟨callee, rfl⟩, ?_⟩
    simp only [except_bind_eq_ok, mapM_eq_ok_iff, comboAt_eq_ok]
    exact ⟨base, hbase, found, hfound, rfl⟩

end Config

end KeyCombo
