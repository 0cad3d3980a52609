import KeyCombo.Command.Outcome
import KeyCombo.FileTree
import KeyCombo.Proofs.CommandLines
import KeyCombo.Proofs.Reports

set_option autoImplicit false

/-! # Stages of a run

A run loads its input, scans it, reads the term at its front and extracts the combos of that, and
its command says after which of these stages it stops. Each stage has its whole input before it and
nothing is printed until the last one is through, so a run either prints all that it was asked for
or fails at one stage. A stage takes no notice of the command, so commands that come to the same
stage fail there with the same error. -/

namespace KeyCombo

/-! ## Files -/

/-- Whether the file at a path holds a text. -/
def FileSystem.Holds (files : FileSystem) (path source : String) : Prop :=
  files.bytes path = .ok source.toUTF8

/-- Why there is no text at a path: there are no bytes to be had, or they do not encode any. -/
inductive FileSystem.Refuses (files : FileSystem) (path : String) : FileFault → Prop
  | unread {fault : FileFault} (h : files.bytes path = .error fault) : Refuses files path fault
  | notText {bytes : ByteArray} (h : files.bytes path = .ok bytes)
      (hbytes : ∀ source : String, source.toUTF8 ≠ bytes) : Refuses files path .notText

/-! ## What a run comes to -/

/-- What a run prints if all of its stages succeed. -/
inductive Prints (files : FileSystem) (inv : Invocation) : String → Prop
  | tokens {source : String} {ts : List Token} (hcommand : inv.command = .tokens)
      (hsource : files.Holds inv.input source) (hts : Token.scan source = .ok ts) :
      Prints files inv (String.join (ts.map fun t => t.kind.title ++ " " ++ t.text ++ "\n"))
  | tree {source : String} {t : Term} (hcommand : inv.command = .tree)
      (hsource : files.Holds inv.input source) (ht : Term.ofSource source = .ok t) :
      Prints files inv (t.render ++ "\n")
  | generate {source : String} {root : Term} {cs : List Combo} (hcommand : inv.command = .generate)
      (hsource : files.Holds inv.input source) (hroot : Term.ofSource source = .ok root)
      (hcs : inv.config.extract root = .ok cs)
      (hlisting : inv.config.generate source = .ok (inv.config.listing cs)) :
      Prints files inv ((inv.config.listing cs).declarations ++ "\n" ++
        (inv.config.listing cs).registrations ++ "\n")

/-- What a command is said to have failed to do, if its input was loaded. -/
def Command.failure : Command → String
  | .tokens => "failed to tokenize"
  | .tree => "failed to parse"
  | .generate => "failed to generate combos"

/-- The error of the stage at which a run fails, and what it is said to have failed to do. Each case
    says that the stages before it succeed, and which commands come to it. -/
inductive FailsAt (files : FileSystem) (inv : Invocation) : String → Error → Prop
  | load {fault : FileFault} (h : files.Refuses inv.input fault) :
      FailsAt files inv "failed to load keymap" (.load ⟨inv.input, fault⟩)
  | scan {source : String} {e : ScanError} (hsource : files.Holds inv.input source)
      (h : Token.scan source = .error e) : FailsAt files inv inv.command.failure (.scan e)
  | read {source : String} {ts : List Token} {e : ReadError} (hcommand : inv.command ≠ .tokens)
      (hsource : files.Holds inv.input source) (hts : Token.scan source = .ok ts)
      (h : Term.ofTokens ts = .error e) : FailsAt files inv inv.command.failure (.read e)
  | extract {source : String} {t : Term} {e : ShapeError} (hcommand : inv.command = .generate)
      (hsource : files.Holds inv.input source) (ht : Term.ofSource source = .ok t)
      (h : inv.config.extract t = .error e) : FailsAt files inv inv.command.failure (.shape e)

/-- Whether an invocation fails with an error, and comes to an outcome: the exit code is 1, nothing
    is printed, and the error is reported. -/
def Fails (files : FileSystem) (inv : Invocation) (e : Error) (outcome : Outcome) : Prop :=
  ∃ context text, FailsAt files inv context e ∧ Reports context e text ∧ outcome = ⟨1, "", text⟩

/-! ## Stages of the library -/

theorem tokensOfSource_of_scan_error {source : String} {e : ScanError}
    (h : Token.scan source = .error e) : tokensOfSource source = .error (.scan e) := by
  rw [tokensOfSource, h]
  rfl

theorem tokensOfSource_of_scan {source : String} {ts : List Token}
    (h : Token.scan source = .ok ts) : tokensOfSource source = .ok ts := by
  rw [tokensOfSource, h]
  rfl

theorem ofSource_of_scan_error {source : String} {e : ScanError}
    (h : Token.scan source = .error e) : Term.ofSource source = .error (.scan e) := by
  rw [Term.ofSource, tokensOfSource_of_scan_error h]
  rfl

theorem ofSource_of_scan {source : String} {ts : List Token} (h : Token.scan source = .ok ts) :
    Term.ofSource source = (Term.ofTokens ts).mapError .read := by
  rw [Term.ofSource, tokensOfSource_of_scan h]
  rfl

theorem generate_of_ofSource_error (config : Config) {source : String} {e : Error}
    (h : Term.ofSource source = .error e) : config.generate source = .error e := by
  rw [Config.generate, h]
  rfl

theorem generate_of_ofSource (config : Config) {source : String} {t : Term}
    (h : Term.ofSource source = .ok t) :
    config.generate source = ((config.extract t).mapError .shape).map config.listing := by
  rw [Config.generate, h]
  rfl

/-! ## Outcomes -/

variable {files : FileSystem} {inv : Invocation}

theorem textOfBytes_eq_ok_iff {bytes : ByteArray} {source : String} :
    textOfBytes bytes = .ok source ↔ source.toUTF8 = bytes := by
  by_cases hvalid : bytes.IsValidUTF8
  · have htext : String.fromUTF8? bytes = some (.fromUTF8 bytes hvalid) := dif_pos hvalid
    rw [textOfBytes, htext, Except.ok.injEq]
    constructor <;> rintro rfl <;> rfl
  · have htext : String.fromUTF8? bytes = none := dif_neg hvalid
    rw [textOfBytes, htext]
    refine iff_of_false nofun ?_
    rintro rfl
    exact hvalid source.isValidUTF8

theorem textOfBytes_of_ne {bytes : ByteArray} (h : ∀ source : String, source.toUTF8 ≠ bytes) :
    textOfBytes bytes = .error .notText := by
  cases htext : String.fromUTF8? bytes with
  | none => rw [textOfBytes, htext]
  | some source =>
    refine absurd (textOfBytes_eq_ok_iff.1 ?_) (h source)
    rw [textOfBytes, htext]

theorem load_of_holds {path source : String} (h : files.Holds path source) :
    files.load path = .ok source := by
  rw [FileSystem.load, FileSystem.text, h]
  exact congrArg (Except.mapError _) (textOfBytes_eq_ok_iff.2 rfl)

theorem load_of_refuses {path : String} {fault : FileFault} (h : files.Refuses path fault) :
    files.load path = .error (.load ⟨path, fault⟩) := by
  rw [FileSystem.load, FileSystem.text]
  cases h with
  | unread h =>
    rw [h]
    rfl
  | notText h hbytes =>
    rw [h]
    exact congrArg (Except.mapError _) (textOfBytes_of_ne hbytes)

theorem holds_or_refuses (files : FileSystem) (path : String) :
    (∃ source, files.Holds path source) ∨ ∃ fault, files.Refuses path fault := by
  cases hbytes : files.bytes path with
  | error fault => exact Or.inr ⟨fault, .unread hbytes⟩
  | ok bytes =>
    by_cases htext : ∃ source : String, source.toUTF8 = bytes
    · obtain ⟨source, rfl⟩ := htext
      exact Or.inl ⟨source, hbytes⟩
    · exact Or.inr ⟨_, .notText hbytes (not_exists.1 htext)⟩

theorem Prints.outcome_eq {text : String} (h : Prints files inv text) :
    inv.outcome (files.load inv.input) = ⟨0, text, ""⟩ := by
  cases h with
  | tokens hcommand hsource hts =>
    rw [load_of_holds hsource, Invocation.outcome, Invocation.outcomeOn, hcommand]
    simp only [tokensOfSource_of_scan hts]
    rfl
  | tree hcommand hsource ht =>
    rw [load_of_holds hsource, Invocation.outcome, Invocation.outcomeOn, hcommand]
    simp only [ht]
    rfl
  | generate hcommand hsource _ _ hlisting =>
    rw [load_of_holds hsource, Invocation.outcome, Invocation.outcomeOn, hcommand]
    simp only [hlisting]
    rfl

/-- A command fails with the error of its stage. -/
theorem outcomeOn_of_error {source : String} {e : Error}
    (htokens : inv.command = .tokens → tokensOfSource source = .error e)
    (htree : inv.command = .tree → Term.ofSource source = .error e)
    (hgenerate : inv.command = .generate → inv.config.generate source = .error e) :
    inv.outcomeOn source = .failure inv.command.failure e := by
  unfold Invocation.outcomeOn
  cases hcommand : inv.command with
  | tokens =>
    simp only [htokens hcommand]
    rfl
  | tree =>
    simp only [htree hcommand]
    rfl
  | generate =>
    simp only [hgenerate hcommand]
    rfl

theorem FailsAt.outcome_eq {context : String} {e : Error} (h : FailsAt files inv context e) :
    inv.outcome (files.load inv.input) = .failure context e := by
  cases h with
  | load h => rw [load_of_refuses h, Invocation.outcome]
  | scan hsource h =>
    rw [load_of_holds hsource, Invocation.outcome]
    have hread := ofSource_of_scan_error h
    exact outcomeOn_of_error (fun _ => tokensOfSource_of_scan_error h) (fun _ => hread)
      fun _ => generate_of_ofSource_error inv.config hread
  | @read source ts e hcommand hsource hts h =>
    rw [load_of_holds hsource, Invocation.outcome]
    have hread : Term.ofSource source = .error (.read e) := by
      rw [ofSource_of_scan hts, h]
      rfl
    exact outcomeOn_of_error (fun htokens => absurd htokens hcommand) (fun _ => hread)
      fun _ => generate_of_ofSource_error inv.config hread
  | @extract source t e hcommand hsource ht h =>
    rw [load_of_holds hsource, Invocation.outcome]
    have hextract : inv.config.generate source = .error (.shape e) := by
      rw [generate_of_ofSource inv.config ht, h]
      rfl
    exact outcomeOn_of_error (fun htokens => by simp [hcommand] at htokens)
      (fun htree => by simp [hcommand] at htree) fun _ => hextract

theorem FailsAt.fails {context : String} {e : Error} (h : FailsAt files inv context e) :
    Fails files inv e (inv.outcome (files.load inv.input)) :=
  ⟨context, _, h, reports_report context e, h.outcome_eq⟩

/-- A run prints its text or fails at a stage. -/
theorem prints_or_fails (files : FileSystem) (inv : Invocation) :
    (∃ text, Prints files inv text) ∨ ∃ context e, FailsAt files inv context e := by
  rcases holds_or_refuses files inv.input with ⟨source, hsource⟩ | ⟨fault, hfault⟩
  · cases hts : Token.scan source with
    | error e => exact Or.inr ⟨_, _, .scan hsource hts⟩
    | ok ts =>
      by_cases htokens : inv.command = .tokens
      · exact Or.inl ⟨_, .tokens htokens hsource hts⟩
      cases ht : Term.ofTokens ts with
      | error e => exact Or.inr ⟨_, _, .read htokens hsource hts ht⟩
      | ok t =>
        have hroot : Term.ofSource source = .ok t := by
          rw [ofSource_of_scan hts, ht]
          rfl
        cases hcommand : inv.command with
        | tokens => exact absurd hcommand htokens
        | tree => exact Or.inl ⟨_, .tree hcommand hsource hroot⟩
        | generate =>
          cases hcs : inv.config.extract t with
          | error e => exact Or.inr ⟨_, _, .extract hcommand hsource hroot hcs⟩
          | ok cs =>
            refine Or.inl ⟨_, .generate hcommand hsource hroot hcs ?_⟩
            rw [generate_of_ofSource inv.config hroot, hcs]
            rfl
  · exact Or.inr ⟨_, _, .load hfault⟩

/-- What fails a command fails every command that goes on from where it stops. -/
theorem FailsAt.later {inv' : Invocation} {context : String} {e : Error}
    (h : FailsAt files inv context e) (hinput : inv'.input = inv.input)
    (hcommand : inv.command = .tokens ∨ inv.command = .tree ∧ inv'.command = .generate) :
    ∃ context', FailsAt files inv' context' e := by
  cases h with
  | load h =>
    rw [← hinput] at h ⊢
    exact ⟨_, .load h⟩
  | scan hsource h =>
    rw [← hinput] at hsource
    exact ⟨_, .scan hsource h⟩
  | read htokens hsource hts h =>
    rw [← hinput] at hsource
    obtain ⟨-, hgenerate⟩ := hcommand.resolve_left htokens
    exact ⟨_, .read (by simp [hgenerate]) hsource hts h⟩
  | extract hgenerate => simp [hgenerate] at hcommand

theorem run_eq_outcome {arguments : List String}
    (h : Request.ofArguments arguments = .ok (.run inv)) :
    files.run arguments = inv.outcome (files.load inv.input) := by
  rw [FileSystem.run, h]

/-- **A run fails as a whole and in stage order.** A command line asks for a run exactly if it is
    written as one, and each field of the configuration is then what its option says, or the
    default. The run either exits with 0 and prints the complete text of what its command asks for,
    or it exits with 1, prints nothing and reports the error of the stage at which it fails, with
    its causes. If the input cannot be read, all commands have the same outcome. If the tokens
    cannot be printed, no other command gets further, and if the term cannot be printed, the listing
    cannot either, whatever the configuration; the error is the same. -/
theorem run_fails_in_stage_order (files : FileSystem) :
    (∀ arguments inv, Request.ofArguments arguments = .ok (.run inv) ↔ inv.WrittenAs arguments) ∧
    (∀ arguments inv, inv.WrittenAs arguments →
      (∃ text, Prints files inv text ∧ files.run arguments = ⟨0, text, ""⟩) ∨
      ∃ e, Fails files inv e (files.run arguments)) ∧
    ∀ arguments inv arguments' inv', inv.WrittenAs arguments → inv'.WrittenAs arguments' →
      inv'.input = inv.input →
      (∀ fault, files.Refuses inv.input fault → files.run arguments' = files.run arguments) ∧
      ((files.run arguments).code = 1 →
        inv.command = .tokens ∨ inv.command = .tree ∧ inv'.command = .generate →
        ∃ e, Fails files inv e (files.run arguments) ∧
          Fails files inv' e (files.run arguments')) := by
  have hrun : ∀ arguments inv, Invocation.WrittenAs inv arguments →
      files.run arguments = inv.outcome (files.load inv.input) :=
    fun arguments inv h => run_eq_outcome (Request.ofArguments_eq_run_iff.2 h)
  refine ⟨fun arguments inv => Request.ofArguments_eq_run_iff, fun arguments inv h => ?_,
    fun arguments inv arguments' inv' h h' hinput => ⟨fun fault hfault => ?_, ?_⟩⟩
  · rw [hrun _ _ h]
    rcases prints_or_fails files inv with ⟨text, htext⟩ | ⟨context, e, he⟩
    · exact Or.inl ⟨text, htext, htext.outcome_eq⟩
    · exact Or.inr ⟨e, he.fails⟩
  · rw [hrun _ _ h, hrun _ _ h', hinput, load_of_refuses hfault]
    rfl
  · intro hcode hcommand
    rw [hrun _ _ h] at hcode ⊢
    rw [hrun _ _ h']
    rcases prints_or_fails files inv with ⟨text, htext⟩ | ⟨context, e, he⟩
    · rw [htext.outcome_eq] at hcode
      cases hcode
    · obtain ⟨context', he'⟩ := he.later hinput hcommand
      exact ⟨e, he.fails, he'.fails⟩

/-- A folder with a keymap, with a token of each kind, and with a piece of text that is none. -/
def someTree : FileTree where
  files := [(["home", "k.c"], "K(L(MO(5,A),B),L(C,D))".toUTF8),
    (["home", "def.c"], "def f(,1) end".toUTF8), (["home", "bad.c"], "f(,$".toUTF8)]
  folders := []
  current := ["home"]

/-- A command line with every option there is. -/
def someArguments : List String :=
  ["generate", "-i", "/home/k.c", "--home-row", "0-1", "--toggle=MO", "--layer-offset", "4",
    "--transparent=A", "--layout-prefix=L", "--combo-prefix", "cmb"]

theorem run_fails_in_stage_order_flags :
    (Invocation.WrittenAs ⟨.generate, "/home/k.c", ⟨[0, 1], "MO", 4, "A", "L", "cmb"⟩⟩
        someArguments ∧
      Prints someTree.system ⟨.generate, "/home/k.c", ⟨[0, 1], "MO", 4, "A", "L", "cmb"⟩⟩
        "const uint16_t PROGMEM cmb0[] = \x7bA, B, COMBO_END\x7d;\nCOMBO(cmb0, D),\n" ∧
      someTree.system.run someArguments =
        ⟨0, "const uint16_t PROGMEM cmb0[] = \x7bA, B, COMBO_END\x7d;\nCOMBO(cmb0, D),\n", ""⟩) ∧
    someTree.system.run ["tokens", "--input", "def.c"] =
      ⟨0, "Def def\nIdentifier f\nLeftParen (\nComma ,\nInteger 1\nRightParen )\nEnd end\n", ""⟩ ∧
    (∃ e, Fails someTree.system ⟨.tokens, "bad.c", Config.default⟩ e
          (someTree.system.run ["tokens", "-ibad.c"]) ∧
        Fails someTree.system ⟨.generate, "bad.c", { Config.default with toggleMarker := "MO" }⟩ e
          (someTree.system.run ["generate", "--input=bad.c", "--toggle=MO"])) ∧
    someTree.system.run ["generate", "--input=bad.c", "--toggle=MO"] =
      ⟨1, "", "Error: failed to generate combos\n\nCaused by:\n" ++
        "    Unrecognized token `$` at 1:4\n"⟩ ∧
    someTree.system.run ["tree", "-ia\nb"] = someTree.system.run ["tokens", "-ia\nb"] ∧
    someTree.system.run ["tokens", "-ia\nb"] =
      ⟨1, "", "Error: failed to load keymap\n\nCaused by:\n" ++
        "    0: Unable to read a\n       b: No such file or directory (os error 2)\n" ++
        "    1: No such file or directory (os error 2)\n"⟩ := by
  obtain ⟨hread, hruns, hcompare⟩ := run_fails_in_stage_order someTree.system
  have hflags := (hread someArguments
    ⟨.generate, "/home/k.c", ⟨[0, 1], "MO", 4, "A", "L", "cmb"⟩⟩).1 (by decide +kernel)
  have hprinted : someTree.system.run someArguments = ⟨0, "const uint16_t PROGMEM cmb0[] = " ++
      "\x7bA, B, COMBO_END\x7d;\nCOMBO(cmb0, D),\n", ""⟩ := by decide +kernel
  have hbadTokens := (hread ["tokens", "-ibad.c"] ⟨.tokens, "bad.c", Config.default⟩).1
    (by decide +kernel)
  have hbadGenerate := (hread ["generate", "--input=bad.c", "--toggle=MO"]
    ⟨.generate, "bad.c", { Config.default with toggleMarker := "MO" }⟩).1 (by decide +kernel)
  have hnoTokens := (hread ["tokens", "-ia\nb"] ⟨.tokens, "a\nb", Config.default⟩).1
    (by decide +kernel)
  have hnoTree := (hread ["tree", "-ia\nb"] ⟨.tree, "a\nb", Config.default⟩).1 (by decide +kernel)
  have hmissing : someTree.system.Refuses "a\nb" .notFound := .unread (by decide +kernel)
  refine ⟨⟨hflags, ?_, hprinted⟩, by decide +kernel, ?_, by decide +kernel, ?_, by decide +kernel⟩
  · rcases hruns _ _ hflags with ⟨text, htext, hrun⟩ | ⟨e, _, _, _, _, hrun⟩
    · obtain rfl : text = _ := congrArg Outcome.stdout (hrun.symm.trans hprinted)
      exact htext
    · exact absurd (congrArg Outcome.code (hrun.symm.trans hprinted)) Nat.one_ne_zero
  · exact (hcompare _ _ _ _ hbadTokens hbadGenerate rfl).2 (by decide +kernel) (Or.inl rfl)
  · exact (hcompare _ _ _ _ hnoTokens hnoTree rfl).1 _ hmissing

end KeyCombo
