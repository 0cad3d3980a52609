import KeyCombo.Config
import KeyCombo.HomeRow
import KeyCombo.Numeral

set_option autoImplicit false

/-! # The command line

A command line names a command and gives options, each at most once. An option is written with
its value in the next argument or in the same one, as in `--input FILE`, `--input=FILE`,
`-i FILE`, `-iFILE` and `-i=FILE`. A value in an argument of its own must not look like an option.
There are no other arguments. -/

namespace KeyCombo

/-! ## Commands and options -/

/-- What the program can be told to do. -/
inductive Command where
  /-- Print the listing of the combos of a keymap. -/
  | generate
  /-- Print the tokens of a keymap, one on a line. -/
  | tokens
  /-- Print the term of a keymap. -/
  | tree
deriving DecidableEq, Repr

/-- The word for a command. -/
def Command.word : Command → String
  | .generate => "generate"
  | .tokens => "tokens"
  | .tree => "tree"

/-- The command that a word stands for. -/
def Command.ofWord? (word : String) : Option Command :=
  [.generate, .tokens, .tree].find? fun c => c.word = word

/-- The options there are. -/
inductive Flag where
  | input
  | homeRow
  | toggle
  | layerOffset
  | transparent
  | layoutPrefix
  | comboPrefix
deriving DecidableEq, Repr

/-- The name of an option, without its dashes. -/
def Flag.word : Flag → String
  | .input => "input"
  | .homeRow => "home-row"
  | .toggle => "toggle"
  | .layerOffset => "layer-offset"
  | .transparent => "transparent"
  | .layoutPrefix => "layout-prefix"
  | .comboPrefix => "combo-prefix"

/-- The options of a command. -/
def Command.flags : Command → List Flag
  | .generate =>
    [.input, .homeRow, .toggle, .layerOffset, .transparent, .layoutPrefix, .comboPrefix]
  | .tokens | .tree => [.input]

/-! ## Errors -/

/-- Why a command line cannot be carried out. -/
inductive UsageError where
  | noCommand
  | unknownCommand (text : String)
  | unexpected (argument : String)
  | noValue (flag : Flag)
  | badValue (flag : Flag) (value reason : String)
  | repeated
deriving DecidableEq, Repr

/-- The wording of a usage error. -/
def UsageError.message : UsageError → String
  | .noCommand => "one of the commands generate, tokens and tree is needed"
  | .unknownCommand text => s!"there is no command `{text}`"
  | .unexpected argument => s!"unexpected argument `{argument}`"
  | .noValue flag => s!"--{flag.word} needs a value"
  | .badValue flag value reason => s!"bad value `{value}` for --{flag.word}: {reason}"
  | .repeated => "an option was given more than once"

/-! ## Reading options -/

/-- A long option without its dashes: its name, and the value behind the first equals sign. -/
def splitLong (cs : List Char) : String × Option String :=
  match cs.dropWhile (· ≠ '=') with
  | [] => (.ofList cs, none)
  | _ :: value => (.ofList (cs.takeWhile (· ≠ '=')), some (.ofList value))

/-- The option of a command that an argument names, and the value that comes with it. -/
def Command.option? (command : Command) (argument : String) : Option (Flag × Option String) :=
  match argument.toList with
  | '-' :: '-' :: cs =>
    let (name, value) := splitLong cs
    (command.flags.find? fun flag => flag.word = name).map (·, value)
  | ['-', 'i'] => some (.input, none)
  | '-' :: 'i' :: '=' :: cs => some (.input, some (.ofList cs))
  | '-' :: 'i' :: cs => some (.input, some (.ofList cs))
  | _ => none

/-- Whether an argument of its own may be the value of an option. It must not look like an option,
    save that a layer offset may be negative. -/
def Flag.takes (flag : Flag) (value : String) : Bool :=
  match value.toList with
  | '-' :: _ :: _ => flag = .layerOffset
  | _ => true

/-- The options of a command with their values, in the order given. Two dashes end the options. -/
def Command.options (command : Command) :
    List String → Except UsageError (List (Flag × String))
  | [] => .ok []
  | "--" :: rest =>
    match rest with
    | [] => .ok []
    | extra :: _ => .error (.unexpected extra)
  | argument :: rest =>
    match command.option? argument with
    | none => .error (.unexpected argument)
    | some (flag, some value) => (options command rest).map ((flag, value) :: ·)
    | some (flag, none) =>
      match rest with
      | [] => .error (.noValue flag)
      | value :: rest =>
        if flag.takes value then (options command rest).map ((flag, value) :: ·)
        else .error (.noValue flag)

/-! ## Invocations -/

/-- A command together with all that its options say. -/
structure Invocation where
  command : Command
  input : String
  config : Config
deriving DecidableEq, Repr

/-- The value of an option that may be any text, or its default. -/
def textOption (options : List (Flag × String)) (flag : Flag) (default : String) : String :=
  (options.lookup flag).getD default

/-- The value of an option as it is read, or its default. -/
def readOption {α : Type} (options : List (Flag × String)) (flag : Flag) (default : α)
    (read : String → Except UsageError α) : Except UsageError α :=
  match options.lookup flag with
  | none => .ok default
  | some value => read value

/-- The positions that a home-row option gives. -/
def readHomeRow (value : String) : Except UsageError (List Nat) :=
  (HomeRow.parse value).mapError fun e => .badValue .homeRow value e.message

/-- The number that a layer-offset option gives. -/
def readLayerOffset (value : String) : Except UsageError Int64 :=
  match Numeral.int64? value with
  | some offset => .ok offset
  | none => .error (.badValue .layerOffset value "not a 64-bit signed integer")

/-- The configuration that options ask for. -/
def Config.ofOptions (options : List (Flag × String)) : Except UsageError Config := do
  let homeRow ← readOption options .homeRow Config.default.homeRow readHomeRow
  let layerOffset ← readOption options .layerOffset Config.default.layerOffset readLayerOffset
  return {
    homeRow, layerOffset
    toggleMarker := textOption options .toggle Config.default.toggleMarker
    transparent := textOption options .transparent Config.default.transparent
    layoutPrefix := textOption options .layoutPrefix Config.default.layoutPrefix
    comboPrefix := textOption options .comboPrefix Config.default.comboPrefix }

/-- The invocation of a command with the given further arguments. -/
def Command.invocation (command : Command) (arguments : List String) :
    Except UsageError Invocation := do
  let options ← command.options arguments
  if ¬ (options.map Prod.fst).Nodup then throw .repeated
  let input := textOption options .input "keymap.c"
  if input.isEmpty then throw (.badValue .input input "a path is never empty")
  return ⟨command, input, ← Config.ofOptions options⟩

/-- What a command line asks for. -/
inductive Request where
  | version
  | run (invocation : Invocation)
deriving DecidableEq, Repr

/-- The request that a command line makes. The version is asked for in place of a command. -/
def Request.ofArguments : List String → Except UsageError Request
  | [] => .error .noCommand
  | first :: rest =>
    if first = "--version" || ['-', 'V'].isPrefixOf first.toList then .ok .version
    else
      match Command.ofWord? first with
      | some command => (command.invocation rest).map .run
      | none => .error (.unknownCommand first)

end KeyCombo
