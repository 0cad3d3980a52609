import KeyCombo.Command.Options
import KeyCombo.Proofs.Except
import KeyCombo.Proofs.IntegerLiterals
import KeyCombo.Proofs.Trimming
import Mathlib.Data.List.Nodup

set_option autoImplicit false

/-! # The format of command lines

Which command lines ask for a run, and for which one, told without the reader: how an argument names
an option (`Names`), how arguments give options their values (`Writes`), and what the options of a
command line say about the run (`SetBy`, `WrittenAs`). The reader takes a command line exactly if it
is written like this, so what a command line asks for is never in doubt. -/

namespace KeyCombo

/-! ## Options -/

/-- Which option of a command an argument names, and the value if the argument holds that too. -/
inductive Command.Names (command : Command) : String → Flag → Option String → Prop
  | long {flag : Flag} (hflag : flag ∈ command.flags) : Names command ("--" ++ flag.word) flag none
  | longValue {flag : Flag} (hflag : flag ∈ command.flags) (value : String) :
      Names command ("--" ++ flag.word ++ "=" ++ value) flag (some value)
  | short : Names command "-i" .input none
  | shortValue {c : Char} (hc : c ≠ '=') (cs : List Char) :
      Names command ("-i" ++ .ofList (c :: cs)) .input (some (.ofList (c :: cs)))
  | shortEquals (value : String) : Names command ("-i=" ++ value) .input (some value)

/-- Whether a text would be taken for an option: it has a dash in front of something. -/
def LooksLikeOption (text : String) : Prop := ∃ c cs, text.toList = '-' :: c :: cs

/-- Which arguments give options of a command their values, in this order. -/
inductive Command.Writes (command : Command) : List (Flag × String) → List String → Prop
  | none : Writes command [] []
  | dashes : Writes command [] ["--"]
  | apart {argument value : String} {flag : Flag} {options : List (Flag × String)}
      {rest : List String} (hnames : command.Names argument flag none)
      (hvalue : flag = .layerOffset ∨ ¬LooksLikeOption value)
      (hrest : Writes command options rest) :
      Writes command ((flag, value) :: options) (argument :: value :: rest)
  | joined {argument value : String} {flag : Flag} {options : List (Flag × String)}
      {rest : List String} (hnames : command.Names argument flag (some value))
      (hrest : Writes command options rest) :
      Writes command ((flag, value) :: options) (argument :: rest)

variable {command : Command} {flag : Flag} {argument : String} {value? : Option String}
  {options : List (Flag × String)} {arguments : List String}

theorem Flag.word_injective : Function.Injective Flag.word := by
  intro a b h
  cases a <;> cases b <;> first | rfl | exact absurd h (by decide)

theorem Flag.equals_not_mem_word (flag : Flag) : '=' ∉ flag.word.toList := by
  cases flag <;> decide

theorem Flag.takes_iff {value : String} :
    flag.takes value = true ↔ flag = .layerOffset ∨ ¬LooksLikeOption value := by
  unfold Flag.takes LooksLikeOption
  split
  case h_1 c cs h => simp [h]
  case h_2 h => simpa using Or.inr h

theorem splitLong_of_not_mem {cs : List Char} (h : '=' ∉ cs) :
    splitLong cs = (.ofList cs, none) := by
  rw [splitLong, Text.dropWhile_ne_of_not_mem h]

theorem splitLong_append {cs : List Char} (h : '=' ∉ cs) (value : List Char) :
    splitLong (cs ++ '=' :: value) = (.ofList cs, some (.ofList value)) := by
  rw [splitLong, Text.dropWhile_ne_append h]
  simp only [Text.takeWhile_ne_append h]

/-- The options of a command have different names. -/
theorem Command.find?_word_eq_some_iff {name : String} :
    command.flags.find? (·.word = name) = some flag ↔ flag ∈ command.flags ∧ flag.word = name := by
  constructor
  · intro h
    exact ⟨List.mem_of_find?_eq_some h, by simpa using List.find?_some h⟩
  · rintro ⟨hflag, rfl⟩
    cases hfind : command.flags.find? (·.word = flag.word) with
    | none => exact absurd (List.find?_eq_none.1 hfind flag hflag) (by simp)
    | some found =>
      have hword : found.word = flag.word := by simpa using List.find?_some hfind
      rw [Flag.word_injective hword]

/-- What is behind two dashes names an option, with a value behind the first equals sign. -/
theorem Command.names_of_splitLong {cs : List Char} (hargument : argument.toList = '-' :: '-' :: cs)
    (h : (command.flags.find? (·.word = (splitLong cs).1)).map (·, (splitLong cs).2) =
      some (flag, value?)) : command.Names argument flag value? := by
  obtain ⟨found, hfind, heq⟩ := Option.map_eq_some_iff.1 h
  cases heq
  obtain ⟨hflag, hword⟩ := find?_word_eq_some_iff.1 hfind
  by_cases hequals : '=' ∈ cs
  · obtain ⟨name, value, rfl, hname⟩ := List.eq_append_cons_of_mem hequals
    rw [splitLong_append hname] at hword ⊢
    have hwritten : argument = "--" ++ flag.word ++ "=" ++ .ofList value :=
      String.toList_inj.1 (by simp [hargument, hword])
    rw [hwritten]
    exact .longValue hflag _
  · rw [splitLong_of_not_mem hequals] at hword ⊢
    have hwritten : argument = "--" ++ flag.word :=
      String.toList_inj.1 (by simp [hargument, hword])
    rw [hwritten]
    exact .long hflag

/-- An argument is read as what it names. -/
theorem Command.option?_eq_some_iff :
    command.option? argument = some (flag, value?) ↔ command.Names argument flag value? := by
  constructor
  · intro h
    unfold Command.option? at h
    split at h
    case h_1 cs hcs => exact names_of_splitLong hcs h
    case h_2 hcs =>
      cases h
      obtain rfl : argument = "-i" := String.toList_inj.1 hcs
      exact .short
    case h_3 cs hcs =>
      cases h
      have hargument : argument = "-i=" ++ .ofList cs := String.toList_inj.1 (by simp [hcs])
      rw [hargument]
      exact .shortEquals _
    case h_4 cs hne hequals hcs =>
      cases h
      have hargument : argument = "-i" ++ .ofList cs := String.toList_inj.1 (by simp [hcs])
      rw [hargument]
      cases cs with
      | nil => exact absurd rfl hne
      | cons c cs => exact .shortValue (fun hc => hequals cs (congrArg (· :: cs) hc)) cs
    case h_5 => cases h
  · intro h
    unfold option?
    cases h with
    | long hflag =>
      have hcs : ("--" ++ flag.word).toList = '-' :: '-' :: flag.word.toList := by simp
      simp only [hcs, splitLong_of_not_mem flag.equals_not_mem_word, String.ofList_toList,
        find?_word_eq_some_iff.2 ⟨hflag, rfl⟩, Option.map_some]
    | longValue hflag value =>
      have hcs : ("--" ++ flag.word ++ "=" ++ value).toList =
          '-' :: '-' :: (flag.word.toList ++ '=' :: value.toList) := by simp
      simp only [hcs, splitLong_append flag.equals_not_mem_word, String.ofList_toList,
        find?_word_eq_some_iff.2 ⟨hflag, rfl⟩, Option.map_some]
    | short => rfl
    | shortValue hc cs => simp [hc]
    | shortEquals value =>
      have hcs : ("-i=" ++ value).toList = '-' :: 'i' :: '=' :: value.toList := by simp
      simp only [hcs, String.ofList_toList]

theorem Command.Names.ne_dashes (h : command.Names argument flag value?) : argument ≠ "--" := by
  have hnone : command.option? "--" = none := by cases command <;> rfl
  rintro rfl
  exact absurd (hnone.symm.trans (option?_eq_some_iff.2 h)) (Option.some_ne_none _).symm

/-- The options of arguments are read exactly if they are written in them. -/
theorem Command.options_eq_ok_iff :
    command.options arguments = .ok options ↔ command.Writes options arguments := by
  constructor
  · intro h
    fun_induction Command.options command arguments generalizing options with
    | case1 =>
      cases h
      exact .none
    | case2 =>
      cases h
      exact .dashes
    | case5 argument rest _ flag value hoption ih =>
      obtain ⟨options, hrest, rfl⟩ := except_map_eq_ok.1 h
      exact .joined (option?_eq_some_iff.1 hoption) (ih hrest)
    | case7 argument _ flag hoption value rest htakes ih =>
      obtain ⟨options, hrest, rfl⟩ := except_map_eq_ok.1 h
      exact .apart (option?_eq_some_iff.1 hoption) (Flag.takes_iff.1 htakes) (ih hrest)
    | case3 | case4 | case6 | case8 => cases h
  · intro h
    induction h with
    | none => rfl
    | dashes => rfl
    | apart hnames hvalue hrest ih =>
      rw [Command.options, option?_eq_some_iff.2 hnames]
      · simp only [Flag.takes_iff.2 hvalue, if_true, ih]
        rfl
      · exact hnames.ne_dashes
    | joined hnames hrest ih =>
      rw [Command.options, option?_eq_some_iff.2 hnames]
      · simp only [ih]
        rfl
      · exact hnames.ne_dashes

/-! ## Settings -/

/-- Whether `a` is what the value of an option is read as, or the default if the option is not
    given. -/
def Chosen {α : Type} (options : List (Flag × String)) (flag : Flag) (default : α)
    (reads : String → α → Prop) (a : α) : Prop :=
  flag ∉ options.map Prod.fst ∧ a = default ∨ ∃ value, (flag, value) ∈ options ∧ reads value a

/-- Whether a configuration is what options say, field by field. -/
structure Config.SetBy (config : Config) (options : List (Flag × String)) : Prop where
  homeRow : Chosen options .homeRow [15, 16, 17, 18, 53, 54, 55, 56]
    (fun value row => HomeRow.parse value = .ok row) config.homeRow
  toggleMarker : Chosen options .toggle "LT" (· = ·) config.toggleMarker
  layerOffset : Chosen options .layerOffset 7
    (fun value offset => Numeral.Denotes value offset.toInt) config.layerOffset
  transparent : Chosen options .transparent "KC_TRANSPARENT" (· = ·) config.transparent
  layoutPrefix : Chosen options .layoutPrefix "LAYOUT" (· = ·) config.layoutPrefix
  comboPrefix : Chosen options .comboPrefix "_combo_" (· = ·) config.comboPrefix

/-- Which command lines ask for an invocation: the word for its command, and arguments that give
    options, none of them twice. -/
inductive Invocation.WrittenAs (inv : Invocation) : List String → Prop
  | intro {options : List (Flag × String)} {rest : List String}
      (hoptions : inv.command.Writes options rest) (hnodup : (options.map Prod.fst).Nodup)
      (hinput : Chosen options .input "keymap.c" (· = ·) inv.input) (hpath : inv.input ≠ "")
      (hconfig : inv.config.SetBy options) : WrittenAs inv (inv.command.word :: rest)

theorem mem_of_lookup {value : String} (h : options.lookup flag = some value) :
    (flag, value) ∈ options := by
  obtain ⟨before, after, rfl, -⟩ := List.lookup_eq_some_iff.1 h
  exact List.mem_append_right before List.mem_cons_self

theorem lookup_eq_none : options.lookup flag = none ↔ flag ∉ options.map Prod.fst := by
  simp only [List.lookup_eq_none_iff, bne_iff_ne, List.mem_map, not_exists, not_and, ne_eq,
    eq_comm (a := flag)]

/-- What is chosen by options, if none of them is given twice. -/
theorem chosen_iff {α : Type} (hnodup : (options.map Prod.fst).Nodup) {default a : α}
    {reads : String → α → Prop} : Chosen options flag default reads a ↔
      match options.lookup flag with
      | none => a = default
      | some value => reads value a := by
  rw [Chosen, ← lookup_eq_none]
  cases hlookup : options.lookup flag with
  | none =>
    have hmem : ∀ value, (flag, value) ∉ options := by
      intro value hvalue
      exact lookup_eq_none.1 hlookup (List.mem_map_of_mem hvalue)
    simp [hmem]
  | some value =>
    have hmem := mem_of_lookup hlookup
    constructor
    · rintro (⟨h, -⟩ | ⟨value', hvalue', h⟩)
      · cases h
      · cases List.inj_on_of_nodup_map hnodup hmem hvalue' rfl
        exact h
    · exact fun h => Or.inr ⟨value, hmem, h⟩

theorem textOption_eq_iff (hnodup : (options.map Prod.fst).Nodup) {default text : String} :
    textOption options flag default = text ↔ Chosen options flag default (· = ·) text := by
  rw [chosen_iff hnodup, textOption]
  cases options.lookup flag with
  | none => exact eq_comm
  | some value => exact Iff.rfl

theorem readOption_eq_ok_iff {α : Type} (hnodup : (options.map Prod.fst).Nodup) {default a : α}
    {read : String → Except UsageError α} {reads : String → α → Prop}
    (hread : ∀ value a, read value = .ok a ↔ reads value a) :
    readOption options flag default read = .ok a ↔ Chosen options flag default reads a := by
  rw [chosen_iff hnodup, readOption]
  cases options.lookup flag with
  | none => rw [Except.ok.injEq, eq_comm]
  | some value => exact hread value a

theorem readHomeRow_eq_ok_iff (value : String) (row : List Nat) :
    readHomeRow value = .ok row ↔ HomeRow.parse value = .ok row :=
  except_mapError_eq_ok

theorem readLayerOffset_eq_ok_iff (value : String) (offset : Int64) :
    readLayerOffset value = .ok offset ↔ Numeral.Denotes value offset.toInt := by
  rw [← Numeral.int64?_eq_some_iff, readLayerOffset]
  cases Numeral.int64? value <;> simp

/-- Options are read as the configuration that they set. -/
theorem Config.ofOptions_eq_ok_iff (hnodup : (options.map Prod.fst).Nodup) {config : Config} :
    Config.ofOptions options = .ok config ↔ config.SetBy options := by
  simp only [Config.ofOptions, except_bind_eq_ok, readOption_eq_ok_iff hnodup readHomeRow_eq_ok_iff,
    readOption_eq_ok_iff hnodup readLayerOffset_eq_ok_iff]
  constructor
  · rintro ⟨row, hrow, offset, hoffset, hconfig⟩
    cases hconfig
    exact ⟨hrow, (textOption_eq_iff hnodup).1 rfl, hoffset, (textOption_eq_iff hnodup).1 rfl,
      (textOption_eq_iff hnodup).1 rfl, (textOption_eq_iff hnodup).1 rfl⟩
  · intro h
    have htoggle : textOption options .toggle Config.default.toggleMarker = config.toggleMarker :=
      (textOption_eq_iff hnodup).2 h.toggleMarker
    have htransparent : textOption options .transparent Config.default.transparent =
        config.transparent := (textOption_eq_iff hnodup).2 h.transparent
    have hlayout : textOption options .layoutPrefix Config.default.layoutPrefix =
        config.layoutPrefix := (textOption_eq_iff hnodup).2 h.layoutPrefix
    have hcombo : textOption options .comboPrefix Config.default.comboPrefix =
        config.comboPrefix := (textOption_eq_iff hnodup).2 h.comboPrefix
    refine ⟨_, h.homeRow, _, h.layerOffset, congrArg Except.ok ?_⟩
    rw [htoggle, htransparent, hlayout, hcombo]

variable {inv : Invocation}

theorem Command.invocation_eq_ok_iff : command.invocation arguments = .ok inv ↔
    inv.command = command ∧ ∃ options, command.Writes options arguments ∧
      (options.map Prod.fst).Nodup ∧ Chosen options .input "keymap.c" (· = ·) inv.input ∧
      inv.input ≠ "" ∧ inv.config.SetBy options := by
  unfold Command.invocation
  rw [except_bind_eq_ok]
  simp only [options_eq_ok_iff]
  constructor
  · rintro ⟨options, hoptions, h⟩
    split at h
    · cases h
    split at h
    · cases h
    rename_i hnodup hpath
    obtain ⟨config, hconfig, h⟩ := except_bind_eq_ok.1 h
    cases h
    rw [not_not] at hnodup
    exact ⟨rfl, options, hoptions, hnodup, (textOption_eq_iff hnodup).1 rfl,
      by simpa using hpath, (Config.ofOptions_eq_ok_iff hnodup).1 hconfig⟩
  · rintro ⟨rfl, options, hoptions, hnodup, hinput, hpath, hconfig⟩
    refine ⟨options, hoptions, ?_⟩
    rw [if_neg (not_not.2 hnodup), (textOption_eq_iff hnodup).2 hinput]
    rw [if_neg (by simpa using hpath), (Config.ofOptions_eq_ok_iff hnodup).2 hconfig]
    rfl

/-- The word for a command stands for that command alone. -/
theorem Command.ofWord?_eq_some_iff {word : String} :
    Command.ofWord? word = some command ↔ command.word = word := by
  constructor
  · intro h
    simpa using List.find?_some h
  · rintro rfl
    cases command <;> rfl

/-- The word for a command does not ask for the version. -/
theorem Command.word_ne_version (command : Command) :
    (decide (command.word = "--version") || ['-', 'V'].isPrefixOf command.word.toList) = false := by
  cases command <;> decide

/-- A command line asks for a run exactly if it is written like this, and for this run. -/
theorem Request.ofArguments_eq_run_iff :
    Request.ofArguments arguments = .ok (.run inv) ↔ inv.WrittenAs arguments := by
  constructor
  · intro h
    unfold Request.ofArguments at h
    split at h
    case h_1 => cases h
    case h_2 first rest =>
      split at h
      · cases h
      split at h
      case h_1 command hword =>
        obtain ⟨inv, hinv, heq⟩ := except_map_eq_ok.1 h
        cases heq
        obtain ⟨hcommand, options, hoptions, hnodup, hinput, hpath, hconfig⟩ :=
          Command.invocation_eq_ok_iff.1 hinv
        subst hcommand
        rw [← Command.ofWord?_eq_some_iff.1 hword]
        exact .intro hoptions hnodup hinput hpath hconfig
      case h_2 => cases h
  · intro h
    cases h with
    | intro hoptions hnodup hinput hpath hconfig =>
      rw [ofArguments, inv.command.word_ne_version, if_neg Bool.false_ne_true,
        Command.ofWord?_eq_some_iff.2 rfl]
      simp only [Command.invocation_eq_ok_iff.2 ⟨rfl, _, hoptions, hnodup, hinput, hpath, hconfig⟩]
      rfl

end KeyCombo
