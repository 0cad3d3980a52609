import KeyCombo.Proofs.Except
import KeyCombo.Proofs.Selection
import Mathlib.Logic.Equiv.Basic

set_option autoImplicit false

/-! # Renaming key codes

Nothing hangs on how key codes are spelled: they are compared with one another and with the
transparent key code, and copied. Only the key of a combo puts the participants in lexicographic
order, and a renaming that does not keep that order gives combos other keys. But keys tell exactly
the classes apart, whatever the order is, and a class is a result with two participants. -/

namespace KeyCombo

/-! ## Renaming -/

namespace Term

mutual

/-- The term with a function applied to the text of each name. Callees are no names. -/
def rename (r : String → String) : Term → Term
  | .integer value => .integer value
  | .name text => .name (r text)
  | .call callee args => .call callee (renameAll r args)
  | .definition head params body => .definition head params (rename r body)

/-- Several terms with a function applied to the text of each name. -/
def renameAll (r : String → String) : List Term → List Term
  | [] => []
  | t :: ts => rename r t :: renameAll r ts

end

theorem renameAll_eq_map (r : String → String) (ts : List Term) :
    renameAll r ts = ts.map (rename r) := by
  induction ts with
  | nil => rfl
  | cons t ts ih => rw [renameAll, ih, List.map_cons]

theorem rename_call (r : String → String) (callee : String) (args : List Term) :
    rename r (.call callee args) = .call callee (args.map (rename r)) := by
  rw [rename, renameAll_eq_map]

theorem layers_rename (r : String → String) (t : Term) :
    (t.rename r).layers = t.layers.map (List.map (rename r)) := by
  cases t with
  | call callee args =>
    rw [rename_call]
    rfl
  | _ => rfl

end Term

/-- The combo with a function applied to its key codes. -/
def Combo.rename (r : String → String) (c : Combo) : Combo := ⟨r c.left, r c.right, r c.result⟩

/-- The configuration with a function applied to the transparent key code. -/
def Config.rename (r : String → String) (config : Config) : Config :=
  { config with transparent := r config.transparent }

/-! ## Lookups commute with renaming -/

theorem entryAt_map (f : Term → Term) (keys : List Term) (position layer : Nat) :
    entryAt (keys.map f) position layer = (entryAt keys position layer).map f := by
  unfold entryAt
  rw [List.getElem?_map, List.length_map]
  cases keys[position]? <;> rfl

variable {r : String → String}

theorem Combo.sameClass_rename (hr : Function.Injective r) (a b : Combo) :
    SameClass (a.rename r) (b.rename r) ↔ SameClass a b := by
  simp only [SameClass, rename, hr.eq_iff]

namespace Config

variable (config : Config)

theorem keeps_rename (hr : Function.Injective r) (c : Combo) :
    (config.rename r).keeps (c.rename r) = config.keeps c := by
  simp only [keeps, Combo.rename, rename, ne_eq, hr.eq_iff]

theorem next?_rename (t : Term) :
    config.next? (t.rename r) = (config.next? t).map (Term.rename r) := by
  cases t with
  | call callee args =>
    rw [Term.rename_call, next?, next?]
    split
    · exact List.getElem?_map
    · exact List.getLast?_map
  | _ => rfl

theorem SpineEnd.rename {t u : Term} (h : config.SpineEnd t u) :
    config.SpineEnd (t.rename r) (u.rename r) := by
  induction h with
  | here hnone => exact .here (by rw [next?_rename, hnone]; rfl)
  | next hsome _ ih => exact .next (by rw [next?_rename, hsome]; rfl) ih

theorem spineFault?_rename (t : Term) :
    config.spineFault? (t.rename r) = config.spineFault? t := by
  cases t with
  | call callee args => simp only [Term.rename_call, spineFault?, List.length_map]
  | _ => rfl

theorem keyCode_rename (t : Term) : config.keyCode (t.rename r) = (config.keyCode t).map r := by
  cases h : config.keyCode t with
  | ok key => exact keyCode_eq_ok_iff.2 (SpineEnd.rename config (keyCode_eq_ok_iff.1 h))
  | error e =>
    obtain ⟨u, hu, he⟩ := keyCode_eq_error_iff.1 h
    exact keyCode_eq_error_iff.2
      ⟨u.rename r, SpineEnd.rename config hu, (config.spineFault?_rename u).trans he⟩

theorem layerKeys_rename (t : Term) :
    config.layerKeys (t.rename r) = (config.layerKeys t).map (List.map (Term.rename r)) := by
  cases t with
  | call callee args =>
    rw [Term.rename_call, layerKeys, layerKeys]
    split <;> rfl
  | _ => rfl

theorem layerTarget_rename (t : Term) :
    config.layerTarget (t.rename r) = config.layerTarget t := by
  cases t with
  | call callee args =>
    rw [Term.rename_call]
    cases args with
    | nil => rfl
    | cons arg args =>
      cases arg with
      | call => rw [List.map_cons, Term.rename_call]; rfl
      | _ => rfl
  | _ => rfl

/-- What two positions yield in a renamed keymap is what they yield, renamed. -/
theorem comboAt_rename (layers base : List Term) (i j : Nat) :
    config.comboAt (layers.map (Term.rename r)) (base.map (Term.rename r)) i j =
      (config.comboAt layers base i j).map (Combo.rename r) := by
  simp only [comboAt, entryAt_map, keyCode_rename, layerTarget_rename, except_map_bind,
    except_bind_map, List.getElem?_map, List.length_map]
  -- up to the layer both sides look up the same; whether it exists does not depend on names
  refine bind_congr fun first => bind_congr fun left => bind_congr fun second =>
    bind_congr fun right => bind_congr fun switch => ?_
  cases layers[switch.getD 0]? with
  | none => rfl
  | some target =>
    simp only [Option.map_some, layerKeys_rename, entryAt_map, keyCode_rename, except_map_bind,
      except_bind_map]
    rfl

theorem opened_rename (root : Term) : config.opened (root.rename r) =
    (config.opened root).map fun p => (p.1.map (Term.rename r), p.2.map (Term.rename r)) := by
  simp only [opened, Term.layers_rename, except_map_bind, except_bind_map]
  refine bind_congr fun layers => ?_
  cases layers with
  | nil => rfl
  | cons baseLayer layers =>
    simp only [List.map_cons, layerKeys_rename, except_map_bind, except_bind_map]
    rfl

theorem lookUps_rename (root : Term) : (config.rename r).lookUps (root.rename r) =
    (config.lookUps root).map (List.map (Combo.rename r)) := by
  have halike : LooksAlike (config.rename r) config := ⟨rfl, rfl, rfl⟩
  rw [halike.lookUps_eq rfl]
  simp only [lookUps, opened_rename, comboAt_rename, except_map_bind, except_bind_map]
  exact bind_congr fun p => mapM_map_result (fun q => config.comboAt p.1 p.2 q.1 q.2) _ config.pairs

/-! ## Selection commutes with renaming -/

theorem select_rename (hr : Function.Injective r) (found : List Combo) :
    (config.rename r).select (found.map (Combo.rename r)) =
      (config.select found).map (Combo.rename r) := by
  rw [select, select, List.filter_map, Combo.firsts_map (Combo.sameClass_rename hr)]
  congr 2
  exact List.filter_congr fun c _ => config.keeps_rename hr c

theorem extract_rename (hr : Function.Injective r) (root : Term) :
    (config.rename r).extract (root.rename r) =
      (config.extract root).map (List.map (Combo.rename r)) := by
  rw [extract_eq_map_select, extract_eq_map_select, lookUps_rename]
  cases config.lookUps root with
  | error e => rfl
  | ok found => exact congrArg Except.ok (config.select_rename hr found)

/-! ## Other orders of key codes -/

/-- Extraction with combos told apart by keys that put the participants in another order. -/
def extractBy (le : String → String → Bool) (root : Term) : Except ShapeError (List Combo) :=
  (config.lookUps root).map fun found =>
    (found.filter config.keeps).eraseDupsBy fun a b => a.keyBy le == b.keyBy le

theorem extractBy_eq_extract {le : String → String → Bool}
    (htotal : ∀ a b, le a b = true ∨ le b a = true)
    (hantisymm : ∀ a b, le a b = true → le b a = true → a = b) (root : Term) :
    config.extractBy le root = config.extract root := by
  have hclass : ∀ a b : Combo, (a.keyBy le == b.keyBy le) = true ↔ a.SameClass b := fun a b =>
    beq_iff_eq.trans (Combo.sameClass_iff_keyBy_eq htotal hantisymm).symm
  rw [extractBy, extract_eq_map_select]
  congr 1
  funext found
  exact (Combo.firsts_eq_eraseDupsBy hclass _).symm

/-- **Extraction commutes with renaming key codes.** If an injective function is applied to every
    name of a keymap and to the transparent key code, extraction returns the same list with the
    function applied to its key codes, or fails with the same error. The order of key codes is never
    seen: any other total order to sort participants by gives the same list. -/
theorem extract_renamed (root : Term) :
    (∀ r : String → String, Function.Injective r →
      (config.rename r).extract (root.rename r) =
        (config.extract root).map (List.map (Combo.rename r))) ∧
    ∀ le : String → String → Bool, (∀ a b, le a b = true ∨ le b a = true) →
      (∀ a b, le a b = true → le b a = true → a = b) →
      config.extractBy le root = config.extract root :=
  ⟨fun _ hr => config.extract_rename hr root, fun _ htotal hantisymm =>
    config.extractBy_eq_extract htotal hantisymm root⟩

theorem extract_renamed_swap :
    extract { Config.default with homeRow := [0, 1] } (.call "K"
      [.call "LAYOUT" [.call "LT" [.integer 8, .name "KC_B"],
          .call "LT" [.integer 8, .name "KC_A"]],
        .call "LAYOUT" [.name "KC_C", .name "KC_C"]]) = .ok [⟨"KC_B", "KC_A", "KC_C"⟩] ∧
    extractBy { Config.default with homeRow := [0, 1] } (fun a b => decide (b ≤ a)) (.call "K"
      [.call "LAYOUT" [.call "LT" [.integer 8, .name "KC_A"],
          .call "LT" [.integer 8, .name "KC_B"]],
        .call "LAYOUT" [.name "KC_C", .name "KC_C"]]) = .ok [⟨"KC_A", "KC_B", "KC_C"⟩] := by
  obtain ⟨hrename, horder⟩ := extract_renamed { Config.default with homeRow := [0, 1] } (.call "K"
      [.call "LAYOUT" [.call "LT" [.integer 8, .name "KC_A"],
          .call "LT" [.integer 8, .name "KC_B"]],
        .call "LAYOUT" [.name "KC_C", .name "KC_C"]])
  have hswap := hrename (Equiv.swap "KC_A" "KC_B") (Equiv.injective _)
  have hdown := horder (fun a b => decide (b ≤ a))
    (fun a b => by simpa only [decide_eq_true_eq] using String.le_total b a)
    fun a b hab hba => String.le_antisymm (of_decide_eq_true hba) (of_decide_eq_true hab)
  exact ⟨hswap.trans (by decide), hdown.trans (by decide)⟩

end Config

end KeyCombo
