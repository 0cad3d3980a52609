import KeyCombo.Proofs.Selection
import KeyCombo.Proofs.StageOrder

set_option autoImplicit false

/-! # Positions that are given more than once

Home rows are typed as ranges, and ranges overlap. A position that is repeated only repeats pairs
that were looked up before: they find the same combos, which have been seen, and fail if those
failed. So a home row counts as much as the list of its first occurrences, in their order. -/

namespace KeyCombo

namespace Config

/-! ## Extraction -/

variable {config : Config} {row : List Nat}

theorem select_eraseDups (config : Config) (found : List Combo) :
    config.select found.eraseDups = config.select found := by
  rw [select, filter_eraseDups, Combo.firsts_eraseDups, select]

/-- The pairs of first occurrences are the first occurrences of pairs. -/
theorem pairs_eraseDups (config : Config) :
    pairs { config with homeRow := config.homeRow.eraseDups } = config.pairs.eraseDups :=
  (eraseDups_product config.homeRow config.homeRow).symm

theorem map_eraseDups_lookUps (config : Config) (root : Term) :
    (lookUps { config with homeRow := config.homeRow.eraseDups } root).map List.eraseDups =
      (config.lookUps root).map List.eraseDups := by
  have halike := (looksAlike_homeRow config config.homeRow.eraseDups).symm
  simp only [lookUps, halike.opened_eq, halike.comboAt_eq, pairs_eraseDups]
  cases config.opened root with
  | error e => rfl
  | ok p => exact map_eraseDups_mapM (fun q => config.comboAt p.1 p.2 q.1 q.2) config.pairs

/-- Extraction with a home row is extraction with its first occurrences. -/
theorem extract_eraseDups (config : Config) (root : Term) :
    extract { config with homeRow := config.homeRow.eraseDups } root = config.extract root := by
  have hselect : ∀ found : Except ShapeError (List Combo),
      (found.map List.eraseDups).map config.select = found.map config.select := by
    intro found
    cases found with
    | error e => rfl
    | ok cs => exact congrArg Except.ok (select_eraseDups config cs)
  calc extract { config with homeRow := config.homeRow.eraseDups } root
      = (lookUps { config with homeRow := config.homeRow.eraseDups } root).map config.select :=
        extract_eq_map_select _ root
    _ = (config.lookUps root).map config.select := by
        rw [← hselect, map_eraseDups_lookUps, hselect]
    _ = config.extract root := (extract_eq_map_select config root).symm

theorem extract_eq_of_eraseDups (h : row.eraseDups = config.homeRow.eraseDups) (root : Term) :
    extract { config with homeRow := row } root = config.extract root := by
  have hrow := extract_eraseDups { config with homeRow := row } root
  rw [← extract_eraseDups config root, ← h]
  exact hrow.symm

/-! ## Runs -/

theorem generate_eq_of_eraseDups (h : row.eraseDups = config.homeRow.eraseDups) (source : String) :
    generate { config with homeRow := row } source = config.generate source := by
  simp only [generate, extract_eq_of_eraseDups h]
  rfl

theorem outcomeOn_eq_of_eraseDups (h : row.eraseDups = config.homeRow.eraseDups)
    (command : Command) (input source : String) :
    Invocation.outcomeOn ⟨command, input, { config with homeRow := row }⟩ source =
      Invocation.outcomeOn ⟨command, input, config⟩ source := by
  cases command with
  | generate => simp only [Invocation.outcomeOn, generate_eq_of_eraseDups h]
  | tokens => rfl
  | tree => rfl

theorem eraseDups_eraseDups (xs : List Nat) : xs.eraseDups.eraseDups = xs.eraseDups :=
  eraseDupsBy_eraseDups (fun a => beq_self_eq_true a) xs

/-- **Repeated positions do no harm.** Extraction gives the same combos in the same order, or the
    same error, if all but the first occurrence of each position are taken out of the home row, and
    so does the listing of a source. Two command lines that differ in nothing but home rows with the
    same first occurrences have the same outcome. -/
theorem extract_repeated_positions (config : Config) :
    (∀ root, extract { config with homeRow := config.homeRow.eraseDups } root =
      config.extract root) ∧
    (∀ source, generate { config with homeRow := config.homeRow.eraseDups } source =
      config.generate source) ∧
    ∀ (files : FileSystem) (command : Command) (input : String) (row : List Nat)
      (arguments arguments' : List String),
      Request.ofArguments arguments = .ok (.run ⟨command, input, config⟩) →
      Request.ofArguments arguments' = .ok (.run ⟨command, input, { config with homeRow := row }⟩) →
      row.eraseDups = config.homeRow.eraseDups → files.run arguments' = files.run arguments := by
  refine ⟨extract_eraseDups config, generate_eq_of_eraseDups (eraseDups_eraseDups _), ?_⟩
  intro files command input row arguments arguments' h h' hrow
  rw [run_eq_outcome h, run_eq_outcome h']
  cases files.load input with
  | error e => rfl
  | ok source => exact outcomeOn_eq_of_eraseDups hrow command input source

theorem extract_repeated_positions_overlap :
    FileSystem.run ⟨fun _ => .ok "K(LAYOUT(LT(8,A),B),LAYOUT(C,D))".toUTF8⟩
        ["generate", "-ik.c", "--home-row=0-1,1-1,0-1"] =
      FileSystem.run ⟨fun _ => .ok "K(LAYOUT(LT(8,A),B),LAYOUT(C,D))".toUTF8⟩
        ["generate", "-ik.c", "--home-row=0-1"] := by
  obtain ⟨-, -, hrun⟩ := extract_repeated_positions { Config.default with homeRow := [0, 1] }
  exact hrun _ .generate "k.c" [0, 1, 1, 0, 1] _ _ rfl rfl rfl

end Config

end KeyCombo
