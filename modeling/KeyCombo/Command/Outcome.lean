import KeyCombo.Command.Options
import KeyCombo.Keymap

set_option autoImplicit false

/-! # Outcomes

A run ends with an exit code, the text for standard output and the text for standard error. It
fails as a whole: only a run that succeeds writes to standard output. What the outcome is depends
on nothing but the command line and the text of the input file, or the error of loading it. -/

namespace KeyCombo

/-- How a run ends. -/
structure Outcome where
  code : Nat
  stdout : String
  stderr : String
deriving DecidableEq, Repr

/-! ## Reports -/

/-- A text with every line but the first indented. -/
def indentTail (indent text : String) : String :=
  ("\n" ++ indent).intercalate ((text.toList.splitOn '\n').map String.ofList)

/-- The lines for one of several causes: its number, and its wording beside that. -/
def numberedCause (n : Nat) (cause : String) : String :=
  String.ofList ((toString n).toList.leftpad 5 ' ') ++ ": " ++ indentTail "       " cause ++ "\n"

/-- The report of a failure: what failed, and the causes of that, outermost first. -/
def report (context : String) (causes : List String) : String :=
  s!"Error: {context}\n\nCaused by:\n" ++
    match causes with
    | [cause] => "    " ++ indentTail "    " cause ++ "\n"
    | causes => String.join (causes.mapIdx numberedCause)

namespace Outcome

/-- The outcome of a run that did what it was told. -/
def success (stdout : String) : Outcome := ⟨0, stdout, ""⟩

/-- The outcome of a run that failed with an error. -/
def failure (context : String) (e : Error) : Outcome := ⟨1, "", report context e.causes⟩

/-- The outcome of a run that was not told what to do. -/
def usage (e : UsageError) : Outcome := ⟨2, "", s!"error: {e.message}\n"⟩

/-- The outcome of asking for the version. -/
def version : Outcome := success "kcombo 0.1.0\n"

/-- The outcome of a stage: its text, or the report of its error. -/
def ofStage {α : Type} (context : String) (text : α → String) : Except Error α → Outcome
  | .ok a => success (text a)
  | .error e => failure context e

end Outcome

/-! ## Runs -/

/-- Tokens as a listing, one on a line. -/
def listTokens (ts : List Token) : String := String.join (ts.map (·.listed ++ "\n"))

/-- The outcome of an invocation whose input file has the given text. -/
def Invocation.outcomeOn (invocation : Invocation) (source : String) : Outcome :=
  match invocation.command with
  | .tokens => .ofStage "failed to tokenize" listTokens (tokensOfSource source)
  | .tree => .ofStage "failed to parse" (·.render ++ "\n") (Term.ofSource source)
  | .generate =>
    .ofStage "failed to generate combos" Listing.text (invocation.config.generate source)

/-- The outcome of an invocation, given what loading its input file came to. -/
def Invocation.outcome (invocation : Invocation) : Except Error String → Outcome
  | .ok source => invocation.outcomeOn source
  | .error e => .failure "failed to load keymap" e

/-- The outcome of a command line on a file system. -/
def FileSystem.run (files : FileSystem) (arguments : List String) : Outcome :=
  match Request.ofArguments arguments with
  | .ok .version => .version
  | .ok (.run invocation) => invocation.outcome (files.load invocation.input)
  | .error e => .usage e

end KeyCombo
