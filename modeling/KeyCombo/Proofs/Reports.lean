import KeyCombo.Command.Outcome

set_option autoImplicit false

/-! # Reports of failures

What is written about an error, told without the texts that the program puts together: what each
kind of error says, how the lines of that are indented, and what a report has before and between
the causes. Only a fault in reading a file has a cause of its own, so there are two causes or
one. -/

namespace KeyCombo

/-! ## The format of reports -/

/-- What an error says. -/
inductive Error.Says : Error → String → Prop
  | load (path : String) (fault : FileFault) :
      Says (.load ⟨path, fault⟩) ("Unable to read " ++ path ++ ": " ++ fault.message)
  | scan (text : String) (p : Position) : Says (.scan ⟨text, p⟩)
      ("Unrecognized token `" ++ text ++ "` at " ++ toString p.line ++ ":" ++ toString p.column)
  | unexpected (expected : Expected) (found : TokenKind) (p : Position) :
      Says (.read (.unexpected expected found p)) ("Expected token type " ++ expected.label ++
        ", but got " ++ found.label ++ " at " ++ toString p.line ++ ":" ++ toString p.column)
  | endOfInput (expected : Expected) : Says (.read (.endOfInput expected))
      ("Unexpected end of input, expected " ++ expected.label)
  | outOfRange (text : String) : Says (.read (.outOfRange text))
      ("Integer literal out of range: " ++ text)
  | shape (e : ShapeError) : Says (.shape e) ("Malformed keymap: " ++ e.detail)

/-- A text with an indent behind each of its line breaks. -/
def hanging (indent text : String) : String :=
  .ofList (text.toList.flatMap fun c => if c = '\n' then '\n' :: indent.toList else [c])

/-- The report of an error: what failed, and the cause. A fault in reading a file is a cause of its
    own behind that, and then both have numbers. -/
inductive Reports (context : String) : Error → String → Prop
  | alone {e : Error} {cause : String} (he : ∀ fault, e ≠ .load fault) (hcause : e.Says cause) :
      Reports context e
        ("Error: " ++ context ++ "\n\nCaused by:\n    " ++ hanging "    " cause ++ "\n")
  | load {e : LoadError} {cause : String} (hcause : (Error.load e).Says cause) :
      Reports context (.load e)
        ("Error: " ++ context ++ "\n\nCaused by:\n    0: " ++ hanging "       " cause ++
          "\n    1: " ++ hanging "       " e.fault.message ++ "\n")

/-! ## Reports as they are written -/

theorem Error.says_message (e : Error) : e.Says e.message := by
  cases e with
  | load e => exact .load e.path e.fault
  | scan e => exact .scan e.text e.position
  | read e =>
    cases e with
    | unexpected expected found p =>
      have hmessage : (ReadError.unexpected expected found p).message = "Expected token type " ++
          expected.label ++ ", but got " ++ found.label ++ " at " ++ toString p.line ++ ":" ++
          toString p.column := by
        unfold ReadError.message
        simp only [toString, String.append_assoc]
      rw [Error.message, hmessage]
      exact .unexpected expected found p
    | endOfInput expected => exact .endOfInput expected
    | outOfRange text => exact .outOfRange text
  | shape e => exact .shape e

/-- A text that is cut at a character and put together with another separator. -/
theorem intercalate_splitOn (x : Char) (sep cs : List Char) :
    sep.intercalate (cs.splitOn x) = cs.flatMap fun c => if c = x then sep else [c] := by
  induction cs with
  | nil => simp
  | cons c cs ih =>
    obtain ⟨first, rest, hsplit⟩ := List.exists_cons_of_ne_nil (List.splitOn_ne_nil x cs)
    rw [hsplit] at ih
    rw [List.splitOn_cons_eq_if_modifyHead, hsplit, List.flatMap_cons, ← ih]
    by_cases hc : c = x
    · subst hc
      simp [List.intercalate_cons_cons]
    · simp [hc]

theorem indentTail_eq_hanging (indent text : String) :
    indentTail indent text = hanging indent text := by
  have hmap : ∀ css : List (List Char), (css.map String.ofList).map String.toList = css := by simp
  have hsep : ("\n" ++ indent).toList = '\n' :: indent.toList := by simp
  refine String.toList_inj.1 ?_
  rw [indentTail, hanging, String.toList_intercalate, String.toList_ofList, hmap, hsep,
    intercalate_splitOn]

theorem report_alone (context cause : String) : report context [cause] =
    "Error: " ++ context ++ "\n\nCaused by:\n    " ++ hanging "    " cause ++ "\n" := by
  have hhead : "\n\nCaused by:\n    " = "\n\nCaused by:\n" ++ "    " := by decide
  rw [report, indentTail_eq_hanging, hhead]
  simp only [toString, String.append_assoc]

theorem numberedCause_eq (n : Nat) (cause : String) : numberedCause n cause =
    .ofList ((toString n).toList.leftpad 5 ' ') ++ ": " ++ hanging "       " cause ++ "\n" := by
  rw [numberedCause, indentTail_eq_hanging]

theorem report_pair (context outer inner : String) : report context [outer, inner] =
    "Error: " ++ context ++ "\n\nCaused by:\n    0: " ++ hanging "       " outer ++
      "\n    1: " ++ hanging "       " inner ++ "\n" := by
  have hzero : "\n\nCaused by:\n    0: " =
      "\n\nCaused by:\n" ++ (.ofList ((toString 0).toList.leftpad 5 ' ') ++ ": ") := by decide
  have hone : "\n    1: " = "\n" ++ (.ofList ((toString 1).toList.leftpad 5 ' ') ++ ": ") := by
    decide
  rw [hzero, hone]
  simp only [report, List.mapIdx_cons, List.mapIdx_nil, Nat.zero_add, numberedCause_eq,
    String.join_cons, String.join_nil, toString, String.append_assoc, String.append_empty]

/-- Only a fault in reading a file is a cause of its own. -/
theorem Error.load_or_alone (e : Error) :
    (∃ fault, e = .load fault) ∨ (∀ fault, e ≠ .load fault) ∧ e.causes = [e.message] := by
  cases e with
  | load e => exact Or.inl ⟨e, rfl⟩
  | scan | read | shape => exact Or.inr ⟨nofun, rfl⟩

/-- The report of an error tells the error. -/
theorem reports_report (context : String) (e : Error) :
    Reports context e (report context e.causes) := by
  rcases e.load_or_alone with ⟨e, rfl⟩ | ⟨he, hcauses⟩
  · rw [Error.causes, report_pair]
    exact .load (Error.says_message _)
  · rw [hcauses, report_alone]
    exact .alone he e.says_message

end KeyCombo
