import KeyCombo.Proofs.Spine
import Mathlib.Logic.Relation

set_option autoImplicit false

/-! # Changes off the spine

The key code of an entry is decided where its spine ends, and nothing beside the spine has a say in
it. Parts of an entry are told apart by their addresses, since equal terms may stand on the spine
and beside it.

Both runs that are compared follow the same addresses: a call looks at one of its arguments, or at
none and then only at how many there are (`keyCode_call_eq`), so a change that keeps the key code of
that argument keeps the key code of the call (`OnSpine.keyCode_replaceAt`), and a change at any
other address is not looked at (`keyCode_replaceAt_of_not_onSpine`). -/

namespace KeyCombo

namespace Term

/-- A term with another one in place of its part at an address. An address leads down from the root,
    into a call by the place of an argument and into a definition by 0; if no part of the term
    stands there, nothing is replaced. -/
def replaceAt : Term → List Nat → Term → Term
  | _, [], new => new
  | .call callee args, i :: path, new => .call callee (args.modify i (·.replaceAt path new))
  | .definition head params body, 0 :: path, new =>
    .definition head params (body.replaceAt path new)
  | t, _ :: _, _ => t

/-- What messages call a term: a call goes by its callee, any other term by its form. -/
def title : Term → String
  | .call callee _ => callee
  | t => t.form.label

end Term

namespace Config

/-! ## Spines with addresses -/

/-- The place of the argument that the spine of a call goes on to, if the call has that many. -/
def nextPlace (config : Config) (callee : String) (count : Nat) : Nat :=
  if callee = config.toggleMarker then 1 else count - 1

/-- Which term stands at an address on the spine of another term. -/
inductive OnSpine (config : Config) : List Nat → Term → Term → Prop
  | here {t : Term} : OnSpine config [] t t
  | next {i : Nat} {path : List Nat} {callee : String} {args : List Term} {u v : Term}
      (hi : i = config.nextPlace callee args.length) (hu : args[i]? = some u)
      (hv : OnSpine config path u v) : OnSpine config (i :: path) (.call callee args) v

/-- Why there is no key code at the end of a spine. -/
inductive Keyless (config : Config) : Term → ShapeError → Prop
  | toggle {args : List Term} (h : args.length < 2) :
      Keyless config (.call config.toggleMarker args)
        (.noTappedKey config.toggleMarker args.length)
  | call {callee : String} (h : callee ≠ config.toggleMarker) :
      Keyless config (.call callee []) (.noArguments callee)
  | integer {value : Int64} : Keyless config (.integer value) (.notEntry .integer)
  | definition {head : String} {params : List String} {body : Term} :
      Keyless config (.definition head params body) (.notEntry .definition)

/-- A change of a term at one address that its spine does not pass through, or of the arguments that
    a call on its spine passes by: those behind the second one of a toggle, those in front of the
    last one of any other call. -/
inductive SpineEdit (config : Config) (t : Term) : Term → Prop
  | offSpine {path : List Nat} (new : Term) (h : ∀ u, ¬config.OnSpine path t u) :
      SpineEdit config t (t.replaceAt path new)
  | afterTapped {path : List Nat} {first tapped : Term} {more : List Term} (more' : List Term)
      (h : config.OnSpine path t (.call config.toggleMarker (first :: tapped :: more))) :
      SpineEdit config t
        (t.replaceAt path (.call config.toggleMarker (first :: tapped :: more')))
  | beforeLast {path : List Nat} {callee : String} {before : List Term} {last : Term}
      (before' : List Term) (hcallee : callee ≠ config.toggleMarker)
      (h : config.OnSpine path t (.call callee (before ++ [last]))) :
      SpineEdit config t (t.replaceAt path (.call callee (before' ++ [last])))

variable {config : Config} {t t' u v : Term} {path : List Nat} {e : ShapeError}

theorem next?_call (callee : String) (args : List Term) :
    config.next? (.call callee args) = args[config.nextPlace callee args.length]? := by
  rw [next?, nextPlace]
  split
  · rfl
  · exact List.getLast?_eq_getElem?

theorem SpineEnd.exists_onSpine (h : config.SpineEnd t u) : ∃ path, config.OnSpine path t u := by
  induction h with
  | here => exact ⟨[], .here⟩
  | @next t u v hnext _ ih =>
    obtain ⟨path, hpath⟩ := ih
    cases t with
    | call callee args => exact ⟨_, .next rfl ((next?_call callee args).symm.trans hnext) hpath⟩
    | _ => cases hnext

theorem OnSpine.keyCode_eq (h : config.OnSpine path t u) : config.keyCode t = config.keyCode u := by
  induction h with
  | here => rfl
  | next hi hu _ ih =>
    subst hi
    rw [keyCode_of_next? ((next?_call _ _).trans hu), ih]

/-! ## The end of a spine -/

theorem keyless_iff (h : config.next? u = none) :
    config.Keyless u e ↔ config.spineFault? u = some e := by
  constructor
  · intro he
    cases he with
    | toggle => exact congrArg some (if_pos rfl)
    | call hcallee => exact congrArg some (if_neg hcallee)
    | integer => rfl
    | definition => rfl
  · intro he
    cases u with
    | name => cases he
    | integer =>
      cases he
      exact .integer
    | definition =>
      cases he
      exact .definition
    | call callee args =>
      obtain rfl := Option.some.inj he
      rw [next?] at h
      split at h
      case isTrue htoggle =>
        rw [if_pos htoggle, htoggle]
        exact .toggle (Nat.lt_succ_of_le (List.getElem?_eq_none_iff.1 h))
      case isFalse hother =>
        obtain rfl := List.getLast?_eq_none_iff.1 h
        rw [if_neg hother]
        exact .call hother

/-- At the end of a spine a name alone has a key code. -/
theorem keyCode_end_eq_ok {key : String} (h : config.next? u = none) :
    config.keyCode u = .ok key ↔ u = .name key := by
  rcases keyCode_of_next?_eq_none h with ⟨key', rfl, hcode⟩ | ⟨e, he, hcode⟩
  · simp [hcode]
  · rw [hcode]
    refine iff_of_false nofun ?_
    rintro rfl
    cases he

theorem keyCode_end_eq_error (h : config.next? u = none) :
    config.keyCode u = .error e ↔ config.Keyless u e := by
  rw [keyless_iff h]
  rcases keyCode_of_next?_eq_none h with ⟨key, rfl, hcode⟩ | ⟨e', he', hcode⟩
  · simp [hcode, spineFault?]
  · simp [hcode, he']

/-- The message of an error about the end of a spine names the term there. -/
theorem Keyless.exists_message_eq (h : config.Keyless u e) :
    ∃ before after, e.message = before ++ u.title ++ after := by
  cases h with
  | @toggle args =>
    refine ⟨"Malformed keymap: ", " needs two arguments, got " ++ toString args.length, ?_⟩
    show "Malformed keymap: " ++ (config.toggleMarker ++ " needs two arguments, got " ++
      toString args.length) = _
    simp only [Term.title, String.append_assoc]
  | @call callee =>
    refine ⟨"Malformed keymap: ", "() has no key code argument", ?_⟩
    show "Malformed keymap: " ++ (callee ++ "() has no key code argument") = _
    simp only [Term.title, String.append_assoc]
  | integer => exact ⟨"Malformed keymap: expected a key entry, found ", "", rfl⟩
  | definition => exact ⟨"Malformed keymap: expected a key entry, found ", "", rfl⟩

/-! ## Changes -/

/-- The key code of a call is that of one argument. Without that argument, the number of arguments
    is all that is left to tell. -/
theorem keyCode_call_eq (callee : String) (args : List Term) :
    config.keyCode (.call callee args) =
      match args[config.nextPlace callee args.length]? with
      | some u => config.keyCode u
      | none => .error (if callee = config.toggleMarker then .noTappedKey callee args.length
          else .noArguments callee) := by
  rw [← next?_call]
  cases hnext : config.next? (.call callee args) with
  | some u => exact keyCode_of_next? hnext
  | none =>
    rcases keyCode_of_next?_eq_none hnext with ⟨_, hname, -⟩ | ⟨e, he, hcode⟩
    · cases hname
    · cases he
      exact hcode

/-- A change on the spine changes the key code only if it changes that of the term there. -/
theorem OnSpine.keyCode_replaceAt (h : config.OnSpine path t u)
    (hnew : config.keyCode v = config.keyCode u) :
    config.keyCode (t.replaceAt path v) = config.keyCode t := by
  induction h with
  | here => exact hnew
  | next hi hu _ ih =>
    subst hi
    rw [Term.replaceAt, keyCode_call_eq, keyCode_call_eq, List.length_modify,
      List.getElem?_modify_eq, hu]
    exact ih hnew

/-- A change beside the spine does not change the key code. -/
theorem keyCode_replaceAt_of_not_onSpine (new : Term) (h : ∀ u, ¬config.OnSpine path t u) :
    config.keyCode (t.replaceAt path new) = config.keyCode t := by
  induction path generalizing t with
  | nil => exact absurd .here (h t)
  | cons i path ih =>
    cases t with
    | integer | name => rfl
    | definition => cases i <;> rfl
    | call callee args =>
      rw [Term.replaceAt, keyCode_call_eq, keyCode_call_eq, List.length_modify]
      by_cases hi : i = config.nextPlace callee args.length
      · -- the change is in the argument that counts, but off the spine of that one
        subst hi
        rw [List.getElem?_modify_eq]
        cases hu : args[config.nextPlace callee args.length]? with
        | none => rfl
        | some u => exact ih fun v hv => h v (.next rfl hu hv)
      · rw [List.getElem?_modify_ne _ _ hi]

theorem SpineEdit.keyCode_eq (h : config.SpineEdit t t') :
    config.keyCode t' = config.keyCode t := by
  cases h with
  | offSpine new h => exact keyCode_replaceAt_of_not_onSpine new h
  | afterTapped more' h =>
    refine h.keyCode_replaceAt ?_
    rw [keyCode_toggle rfl, keyCode_toggle rfl]
    rfl
  | beforeLast before' hcallee h =>
    refine h.keyCode_replaceAt ?_
    rw [keyCode_call hcallee, keyCode_call hcallee, lastKeyCode_concat, lastKeyCode_concat]

/-- **A key code is where the spine ends, and hangs on nothing else.** The spine of an entry has an
    end. If that is a name, the name is the key code, and otherwise the error names the term there.
    No number of changes beside the spine, behind the second argument of its toggles and in front
    of the last argument of its other calls makes a difference. -/
theorem keyCode_follows_spine (config : Config) (t : Term) :
    (∃ path last, config.OnSpine path t last ∧ config.next? last = none) ∧
    (∀ path last, config.OnSpine path t last → config.next? last = none →
      (∀ key, config.keyCode t = .ok key ↔ last = .name key) ∧
      (∀ e, config.keyCode t = .error e ↔ config.Keyless last e) ∧
      ∀ e, config.keyCode t = .error e →
        ∃ before after, e.message = before ++ last.title ++ after) ∧
    ∀ t', Relation.ReflTransGen config.SpineEdit t t' → config.keyCode t' = config.keyCode t := by
  refine ⟨?_, fun path last hspine hlast => ?_, fun t' h => ?_⟩
  · obtain ⟨last, hend⟩ := exists_spineEnd config t
    obtain ⟨path, hspine⟩ := hend.exists_onSpine
    exact ⟨path, last, hspine, hend.next?_eq_none⟩
  · rw [hspine.keyCode_eq]
    refine ⟨fun key => keyCode_end_eq_ok hlast, fun e => keyCode_end_eq_error hlast, ?_⟩
    exact fun e he => ((keyCode_end_eq_error hlast).1 he).exists_message_eq
  · induction h with
    | refl => rfl
    | tail _ hstep ih => rw [hstep.keyCode_eq, ih]

theorem keyCode_follows_spine_mixed :
    Relation.ReflTransGen Config.default.SpineEdit
      (.call "LT" [.integer 8, .call "MT" [.name "MOD", .call "LT" [.integer 1, .name "KC_A"]]])
      (.call "LT" [.name "ANY", .call "MT" [.call "LT" [.integer 1, .name "KC_A", .integer 0]]]) ∧
    Config.default.keyCode
      (.call "LT" [.name "ANY", .call "MT" [.call "LT" [.integer 1, .name "KC_A", .integer 0]]]) =
    Config.default.keyCode
      (.call "LT" [.integer 8, .call "MT" [.name "MOD", .call "LT" [.integer 1, .name "KC_A"]]]) := by
  have hbeside : ∀ u, ¬Config.default.OnSpine [0] (.call "LT" [.integer 8,
      .call "MT" [.name "MOD", .call "LT" [.integer 1, .name "KC_A"]]]) u := by
    rintro u (_ | ⟨hi, -, -⟩)
    exact absurd hi (by decide)
  have htoggle : Config.default.OnSpine [1, 1] (.call "LT" [.name "ANY",
      .call "MT" [.name "MOD", .call "LT" [.integer 1, .name "KC_A"]]])
      (.call "LT" [.integer 1, .name "KC_A"]) := .next rfl rfl (.next rfl rfl .here)
  have hother : Config.default.OnSpine [1] (.call "LT" [.name "ANY",
      .call "MT" [.name "MOD", .call "LT" [.integer 1, .name "KC_A", .integer 0]]])
      (.call "MT" ([.name "MOD"] ++ [.call "LT" [.integer 1, .name "KC_A", .integer 0]])) :=
    .next rfl rfl .here
  have hedits : Relation.ReflTransGen Config.default.SpineEdit
      (.call "LT" [.integer 8, .call "MT" [.name "MOD", .call "LT" [.integer 1, .name "KC_A"]]])
      (.call "LT" [.name "ANY", .call "MT" [.call "LT" [.integer 1, .name "KC_A", .integer 0]]]) :=
    .tail (.tail (.single (.offSpine (.name "ANY") hbeside)) (.afterTapped [.integer 0] htoggle))
      (.beforeLast [] (by decide) hother)
  exact ⟨hedits, (keyCode_follows_spine _ _).2.2 _ hedits⟩

end Config

end KeyCombo
