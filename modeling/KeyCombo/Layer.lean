import KeyCombo.Config
import KeyCombo.Numeral
import KeyCombo.Term.Basic

set_option autoImplicit false

/-! # Layers and their entries

A keymap is a call whose arguments are the layers, and a layer is a call whose arguments are its
entries, one for each matrix position. An entry is a key code, or a call around one: a toggle
such as `LT(8, KC_S)` also names the layer that it switches to. Every way in which a term can
fail to have this shape is an error of its own. -/

namespace KeyCombo

/-! ## Errors -/

/-- Why a term is no keymap to extract combos from. -/
inductive ShapeError where
  | rootNotCall (found : Term.Form)
  | noLayers
  | layerNotCall (layoutPrefix : String) (found : Term.Form)
  | notLayout (layoutPrefix callee : String)
  | noTappedKey (callee : String) (count : Nat)
  | noArguments (callee : String)
  | notEntry (found : Term.Form)
  | noLayerNumber (callee : String)
  | offsetOverflow (callee : String) (number : Int64)
  | negativeLayer (callee : String) (number : Int64) (layer : Int)
  | noSuchLayer (position layer count : Nat)
  | noSuchKey (layer count position : Nat)
deriving DecidableEq, Repr

namespace ShapeError

/-- What is wrong with the shape. -/
def detail : ShapeError → String
  | .rootNotCall found => s!"expected the keymap to be a call, found {found.label}"
  | .noLayers => "keymap has no layers"
  | .layerNotCall layout found => s!"expected a {layout}* layer, found {found.label}"
  | .notLayout layout callee => s!"expected a {layout}* layer, found a call to {callee}"
  | .noTappedKey callee count => s!"{callee} needs two arguments, got {count}"
  | .noArguments callee => s!"{callee}() has no key code argument"
  | .notEntry found => s!"expected a key entry, found {found.label}"
  | .noLayerNumber callee => s!"{callee} needs an integer layer as first argument"
  | .offsetOverflow callee number =>
    s!"{callee}(" ++ Numeral.ofInt number.toInt ++ ", ..) layer offset overflows"
  | .negativeLayer callee number layer =>
    s!"{callee}(" ++ Numeral.ofInt number.toInt ++ ", ..) points to negative layer "
      ++ Numeral.ofInt layer
  | .noSuchLayer position layer count =>
    s!"position {position} switches to layer {layer}, but there are {count} layers"
  | .noSuchKey layer count position =>
    s!"layer {layer} has {count} keys, no key at position {position}"

/-- The wording of a shape error. -/
def message (e : ShapeError) : String := "Malformed keymap: " ++ e.detail

end ShapeError

/-! ## Layers -/

/-- The layers of a keymap. -/
def Term.layers : Term → Except ShapeError (List Term)
  | .call _ args => .ok args
  | t => .error (.rootNotCall t.form)

namespace Config

/-- Whether layers may be calls of `callee`. -/
def isLayout (config : Config) (callee : String) : Bool :=
  config.layoutPrefix.toList.isPrefixOf callee.toList

/-- The entries of a layer. -/
def layerKeys (config : Config) : Term → Except ShapeError (List Term)
  | .call callee args =>
    if config.isLayout callee then .ok args
    else .error (.notLayout config.layoutPrefix callee)
  | t => .error (.layerNotCall config.layoutPrefix t.form)

/-! ## Key codes -/

mutual

/-- The key code that an entry sends: that of a name is the name, that of a toggle is the key code
    of its second argument, that of any other call the key code of its last argument. -/
def keyCode (config : Config) : Term → Except ShapeError String
  | .name text => .ok text
  | .call callee args =>
    if callee = config.toggleMarker then
      match args with
      | _ :: tapped :: _ => keyCode config tapped
      | _ => .error (.noTappedKey callee args.length)
    else lastKeyCode config callee args
  | t => .error (.notEntry t.form)

/-- The key code of the last argument of a call of `callee`. -/
def lastKeyCode (config : Config) (callee : String) : List Term → Except ShapeError String
  | [] => .error (.noArguments callee)
  | [t] => keyCode config t
  | _ :: t :: ts => lastKeyCode config callee (t :: ts)

end

/-- The key code of a call that is no toggle hangs on its last argument alone. -/
theorem lastKeyCode_concat (config : Config) (callee : String) (ts : List Term) (t : Term) :
    config.lastKeyCode callee (ts ++ [t]) = config.keyCode t := by
  induction ts with
  | nil => simp [lastKeyCode]
  | cons u us ih =>
    cases us with
    | nil => simp [lastKeyCode]
    | cons v vs => simpa [lastKeyCode] using ih

/-! ## Layer numbers -/

/-- The number of the layer that a toggle with the given number switches to. The difference is
    taken over all integers, and has to be a 64-bit signed one that is not negative. -/
def layerNumber (config : Config) (callee : String) (number : Int64) : Except ShapeError Nat :=
  let layer := number.toInt - config.layerOffset.toInt
  if layer < Int64.minValue.toInt ∨ Int64.maxValue.toInt < layer then
    .error (.offsetOverflow callee number)
  else if layer < 0 then .error (.negativeLayer callee number layer)
  else .ok layer.toNat

/-- The layer that an entry switches to, if it is a toggle. -/
def layerTarget (config : Config) : Term → Except ShapeError (Option Nat)
  | .call callee args =>
    if callee = config.toggleMarker then
      match args with
      | .integer number :: _ => (config.layerNumber callee number).map some
      | _ => .error (.noLayerNumber callee)
    else .ok none
  | _ => .ok none

end Config

end KeyCombo
