import KeyCombo.Proofs.RoundTrip
import Mathlib

set_option autoImplicit false

/-! # What reading loses

A source that is read and printed again has kept its tokens, from the first to the last one that
was taken. Lost are the layout, the zeros in front of integers that do not count, and the tokens
behind the term.

Each term has its own sequence of lexemes. The tokens that derive a term spell that sequence but
for zeros (`map_plainLexeme_of_derives`), and the tokens of the printed term spell it exactly
(`scan_render_lexemes`). -/

namespace KeyCombo

open Text Token Reader

/-! ## The lexemes of a term -/

namespace Term

/-- Items between parentheses, with a comma between neighbours. -/
def parenthesizedLexemes (items : List (List (TokenKind × String))) : List (TokenKind × String) :=
  (.leftParen, "(") :: ([(.comma, ",")].intercalate items ++ [(.rightParen, ")")])

mutual

/-- The lexemes of a term. -/
def lexemes : Term → List (TokenKind × String)
  | .integer value => [(.integer, Numeral.ofInt value.toInt)]
  | .name text => [(.identifier, text)]
  | .call callee args => (.identifier, callee) :: parenthesizedLexemes (lexemesAll args)
  | .definition head params body =>
    (.defWord, "def") :: (.identifier, head) ::
      (parenthesizedLexemes (params.map fun param => [(.identifier, param)]) ++ lexemes body ++
        [(.endWord, "end")])

/-- The lexemes of several terms. -/
def lexemesAll : List Term → List (List (TokenKind × String))
  | [] => []
  | t :: ts => lexemes t :: lexemesAll ts

end

theorem lexemesAll_eq_map (ts : List Term) : lexemesAll ts = ts.map lexemes := by
  induction ts with
  | nil => rfl
  | cons t ts ih => rw [lexemesAll, ih, List.map_cons]

end Term

/-- The lexeme of a token, without redundant zeros if that is an integer. -/
def Token.plainLexeme (t : Token) : TokenKind × String :=
  (t.kind, if t.kind = .integer then .ofList (Numeral.dropZeros t.text.toList) else t.text)

/-! ## Lexemes of one text -/

/-- The text of the tokens of a kind, if all of them have the same. -/
def TokenKind.text? : TokenKind → Option String
  | .defWord => some "def"
  | .endWord => some "end"
  | .leftParen => some "("
  | .comma => some ","
  | .rightParen => some ")"
  | .identifier | .integer => none

theorem text_of_isOfKind {t : Token} {kind : TokenKind} {text : String}
    (h : IsOfKind t.text.toList t.kind) (hkind : t.kind = kind) (htext : kind.text? = some text) :
    t.text = text := by
  subst hkind
  apply String.toList_inj.1
  cases hkind : t.kind <;> rw [hkind] at h htext <;> cases htext <;> exact h

theorem Faithful.lexeme_eq {ts : List Token} (h : Faithful ts) {t : Token} (ht : t ∈ ts)
    {kind : TokenKind} {text : String} (hkind : t.kind = kind) (htext : kind.text? = some text) :
    t.lexeme = (kind, text) := by
  rw [lexeme, text_of_isOfKind (h t ht) hkind htext, hkind]

theorem plainLexeme_of_ne_integer {t : Token} (h : t.kind ≠ .integer) :
    t.plainLexeme = t.lexeme := by
  rw [plainLexeme, if_neg h, lexeme]

theorem plainLexeme_of_identifier {t : Token} (h : t.kind = .identifier) :
    t.plainLexeme = (.identifier, t.text) := by
  rw [plainLexeme_of_ne_integer (by simp [h]), lexeme, h]

theorem Faithful.plainLexeme_eq {ts : List Token} (h : Faithful ts) {t : Token} (ht : t ∈ ts)
    {kind : TokenKind} {text : String} (hkind : t.kind = kind) (htext : kind.text? = some text) :
    t.plainLexeme = (kind, text) := by
  have hne : t.kind ≠ .integer := by
    intro heq
    rw [← hkind, heq] at htext
    cases htext
  rw [plainLexeme_of_ne_integer hne, h.lexeme_eq ht hkind htext]

/-! ## Tokens that derive a term -/

mutual

/-- The tokens that derive an expression spell it, but for zeros. -/
theorem map_plainLexeme_of_derives {ts : List Token} {t : Term} (h : Derives ts t)
    (hts : Faithful ts) : ts.map plainLexeme = t.lexemes := by
  cases h with
  | @integer t value ht hvalue =>
    have hof := hts t List.mem_cons_self
    rw [ht] at hof
    have htext := Numeral.ofInt_of_int64? (List.all_eq_true.2 hof.2) hvalue
    rw [List.map_singleton, plainLexeme, if_pos ht, ht, ← htext, Term.lexemes]
  | @name t ht => rw [List.map_singleton, plainLexeme_of_identifier ht, Term.lexemes]
  | @call f o c us args hf ho hargs hc =>
    have hus := map_plainLexeme_of_derivesArgs hargs fun t ht => hts t (by simp [ht])
    have ho' := hts.plainLexeme_eq (t := o) (by simp) ho rfl
    have hc' := hts.plainLexeme_eq (t := c) (by simp) hc rfl
    simp [Term.lexemes, Term.parenthesizedLexemes, Term.lexemesAll_eq_map, ho', hc', hus,
      plainLexeme_of_identifier hf]

theorem map_plainLexeme_of_derivesArgs {ts : List Token} {args : List Term}
    (h : DerivesArgs ts args) (hts : Faithful ts) :
    ts.map plainLexeme = [(.comma, ",")].intercalate (args.map Term.lexemes) := by
  cases h with
  | none => rfl
  | some ht hargs =>
    have hfirst := map_plainLexeme_of_derives ht fun t ht => hts t (by simp [ht])
    have hmore := map_plainLexeme_of_derivesMoreArgs hargs fun t ht => hts t (by simp [ht])
    rw [List.map_append, hfirst, hmore, List.map_cons, intercalate_cons_eq_append,
      List.flatMap_map]

theorem map_plainLexeme_of_derivesMoreArgs {ts : List Token} {args : List Term}
    (h : DerivesMoreArgs ts args) (hts : Faithful ts) :
    ts.map plainLexeme = args.flatMap fun arg => [(.comma, ",")] ++ arg.lexemes := by
  cases h with
  | done => rfl
  | @more c us vs t args hc ht hargs =>
    have hcomma := hts.plainLexeme_eq (t := c) List.mem_cons_self hc rfl
    have hfirst := map_plainLexeme_of_derives ht fun t ht => hts t (by simp [ht])
    have hmore := map_plainLexeme_of_derivesMoreArgs hargs fun t ht => hts t (by simp [ht])
    rw [List.map_cons, List.map_append, hcomma, hfirst, hmore, List.flatMap_cons]
    rfl

end

theorem map_plainLexeme_of_derivesMoreParams {ts : List Token} {params : List String}
    (h : DerivesMoreParams ts params) (hts : Faithful ts) :
    ts.map plainLexeme = params.flatMap fun param => [(.comma, ",")] ++ [(.identifier, param)] := by
  induction h with
  | done => rfl
  | @more c p us params hc hp _ ih =>
    have hcomma := hts.plainLexeme_eq (t := c) List.mem_cons_self hc rfl
    rw [List.map_cons, List.map_cons, hcomma, plainLexeme_of_identifier hp,
      ih fun t ht => hts t (by simp [ht]), List.flatMap_cons]
    rfl

theorem map_plainLexeme_of_derivesParams {ts : List Token} {params : List String}
    (h : DerivesParams ts params) (hts : Faithful ts) :
    ts.map plainLexeme =
      [(.comma, ",")].intercalate (params.map fun param => [(.identifier, param)]) := by
  cases h with
  | none => rfl
  | some hp hparams =>
    have hmore := map_plainLexeme_of_derivesMoreParams hparams fun t ht => hts t (by simp [ht])
    rw [List.map_cons, plainLexeme_of_identifier hp, hmore, List.map_cons,
      intercalate_cons_eq_append, List.flatMap_map]
    rfl

theorem map_plainLexeme_of_derivesDefinition {ts : List Token} {t : Term}
    (h : DerivesDefinition ts t) (hts : Faithful ts) : ts.map plainLexeme = t.lexemes := by
  obtain @⟨d, f, o, c, e, ps, bs, params, body, hd, hf, ho, hparams, hc, hbody, he⟩ := h
  have hps := map_plainLexeme_of_derivesParams hparams fun t ht => hts t (by simp [ht])
  have hbs := map_plainLexeme_of_derives hbody fun t ht => hts t (by simp [ht])
  have hd' := hts.plainLexeme_eq (t := d) (by simp) hd rfl
  have ho' := hts.plainLexeme_eq (t := o) (by simp) ho rfl
  have hc' := hts.plainLexeme_eq (t := c) (by simp) hc rfl
  have he' := hts.plainLexeme_eq (t := e) (by simp) he rfl
  simp [Term.lexemes, Term.parenthesizedLexemes, hd', ho', hc', he', hps, hbs,
    plainLexeme_of_identifier hf]

/-! ## Tokens of a printed term -/

theorem separated_lexemes {α : Type} {D : List Token → α → Prop}
    {lex : α → List (TokenKind × String)}
    (hD : ∀ {ts x}, D ts x → Faithful ts → ts.map lexeme = lex x) :
    Separated D
      (fun ts xs => Faithful ts → ts.map lexeme = xs.flatMap fun x => [(.comma, ",")] ++ lex x)
      (fun ts xs => Faithful ts → ts.map lexeme = [(.comma, ",")].intercalate (xs.map lex)) where
  done _ := rfl
  none _ := rfl
  more := by
    intro c ts us x xs hc hx hxs hts
    have hcomma := hts.lexeme_eq (t := c) List.mem_cons_self hc rfl
    rw [List.map_cons, List.map_append, hcomma, hD hx fun t ht => hts t (by simp [ht]),
      hxs fun t ht => hts t (by simp [ht]), List.flatMap_cons]
    rfl
  some := by
    intro ts us x xs hx hxs hts
    rw [List.map_append, hD hx fun t ht => hts t (by simp [ht]),
      hxs fun t ht => hts t (by simp [ht]), List.map_cons, intercalate_cons_eq_append,
      List.flatMap_map]

theorem phrases_lexemes : Phrases (fun ts t => Faithful ts → ts.map lexeme = t.lexemes)
    (fun ts args => Faithful ts →
      ts.map lexeme = args.flatMap fun t => [(.comma, ",")] ++ t.lexemes)
    (fun ts args => Faithful ts →
      ts.map lexeme = [(.comma, ",")].intercalate (args.map Term.lexemes)) where
  toSeparated := separated_lexemes fun h => h
  integer := by
    intro t value ht htext _
    rw [List.map_singleton, lexeme, ht, htext, Term.lexemes]
  name := by
    intro t ht _
    rw [List.map_singleton, lexeme, ht, Term.lexemes]
  call := by
    intro f o c us args hf ho hargs hc hts
    have ho' := hts.lexeme_eq (t := o) (by simp) ho rfl
    have hc' := hts.lexeme_eq (t := c) (by simp) hc rfl
    have hf' : f.lexeme = (.identifier, f.text) := by rw [lexeme, hf]
    simp [Term.lexemes, Term.parenthesizedLexemes, Term.lexemesAll_eq_map, hf', ho', hc',
      hargs fun t ht => hts t (by simp [ht])]

/-- The tokens of a printed term spell it. -/
theorem scan_render_lexemes {t : Term} (h : Expressible t) :
    ∃ us, scan t.render = .ok us ∧ us.map lexeme = t.lexemes := by
  cases h with
  | expression ht =>
    obtain ⟨us, hscan, hus⟩ := scansTo_expression phrases_lexemes ht .start
    exact ⟨us, hscan, hus (isOfKind_of_mem_scan hscan)⟩
  | @definition head params body hhead hparams hbody =>
    have hname : ∀ {ts : List Token} {s : String},
        (∃ t, ts = [t] ∧ t.kind = .identifier ∧ t.text = s) → Faithful ts →
          ts.map lexeme = [(.identifier, s)] := by
      rintro _ _ ⟨t, rfl, ht, rfl⟩ _
      rw [List.map_singleton, lexeme, ht]
    obtain ⟨us, hscan, d, f, o, ps, c, bs, e, rfl, hd, ⟨hf, rfl⟩, ho, hps, hc, hbs, he⟩ :=
      scansTo_definition phrases_lexemes (separated_lexemes hname) hhead hparams hbody .start
    have hts : Faithful (d :: f :: o :: (ps ++ c :: (bs ++ [e]))) := isOfKind_of_mem_scan hscan
    refine ⟨_, hscan, ?_⟩
    have hd' := hts.lexeme_eq (t := d) (by simp) hd rfl
    have ho' := hts.lexeme_eq (t := o) (by simp) ho rfl
    have hc' := hts.lexeme_eq (t := c) (by simp) hc rfl
    have he' := hts.lexeme_eq (t := e) (by simp) he rfl
    have hf' : f.lexeme = (.identifier, f.text) := by rw [lexeme, hf]
    simp [Term.lexemes, Term.parenthesizedLexemes, hd', ho', hc', he', hf',
      hps fun t ht => hts t (by simp [ht]), hbs fun t ht => hts t (by simp [ht])]

/-! ## Reading a source -/

/-- Whether the printed text of a term has the lexemes of given tokens, but for redundant zeros. -/
def Term.Keeps (n : Term) (ts : List Token) : Prop :=
  ∃ us, scan n.render = .ok us ∧ us.map lexeme = ts.map plainLexeme

theorem Term.Keeps.of_lexemes {n : Term} {ts : List Token} (h : Expressible n)
    (hts : ts.map plainLexeme = n.lexemes) : n.Keeps ts := by
  obtain ⟨us, hscan, hus⟩ := scan_render_lexemes h
  exact ⟨us, hscan, by rw [hus, hts]⟩

theorem generate_eq_of_ofSource_eq {source source' : String}
    (h : Term.ofSource source = Term.ofSource source') (config : Config) :
    config.generate source = config.generate source' := by
  rw [Config.generate, Config.generate, h]

/-- **Reading loses nothing but layout, redundant zeros and what stands behind the term.** -/
theorem read_keeps_lexemes (source : String) :
    (∀ n, Term.ofSource source = .ok n →
      (∃ ts k, scan source = .ok ts ∧ k ≤ ts.length ∧ Reader.term ts = .ok n (ts.drop k) ∧
        n.Keeps (ts.take k)) ∧
      Term.ofSource n.render = .ok n ∧
      (Term.ofSource n.render).map Term.render = .ok n.render ∧
      ∀ config : Config, config.generate n.render = config.generate source) ∧
    ∀ n, Term.definitionOfSource source = .ok n →
      (∃ ts, scan source = .ok ts ∧ n.Keeps ts) ∧ Term.definitionOfSource n.render = .ok n := by
  constructor
  · intro n h
    obtain ⟨p, rest, hscan, hp, hrest⟩ := ofSource_eq_ok_iff.1 h
    have hfaithful : Faithful p := by
      intro t ht
      exact isOfKind_of_mem_scan hscan t (List.mem_append_left rest ht)
    have hn : IsExpression n := isExpression_of_derives hp hfaithful
    have hback : Term.ofSource n.render = .ok n := ofSource_render hn
    have hterm : Reader.term (p ++ rest) = .ok n rest := term_eq_ok_iff.2 ⟨p, rfl, hp, hrest⟩
    refine ⟨⟨p ++ rest, p.length, hscan, by simp, by simpa using hterm, ?_⟩, hback, ?_, ?_⟩
    · rw [List.take_left]
      exact .of_lexemes (.expression hn) (map_plainLexeme_of_derives hp hfaithful)
    · rw [hback]
      rfl
    · exact generate_eq_of_ofSource_eq (by rw [hback, h])
  · intro n h
    obtain ⟨ts, hscan, hts⟩ := definitionOfSource_eq_ok_iff.1 h
    have hfaithful : Faithful ts := isOfKind_of_mem_scan hscan
    have hn : Expressible n := expressible_of_derivesDefinition hts hfaithful
    have hform : n.form = .definition := by
      cases hts
      rfl
    refine ⟨⟨ts, hscan, ?_⟩, definitionOfSource_render hn hform⟩
    exact .of_lexemes hn (map_plainLexeme_of_derivesDefinition hts hfaithful)

theorem read_keeps_lexemes_zeros :
    (Term.ofSource "f( 007,\n g (00 ) ,x) y(" =
        .ok (.call "f" [.integer 7, .call "g" [.integer 0], .name "x"]) ∧
      ∃ ts k, scan "f( 007,\n g (00 ) ,x) y(" = .ok ts ∧ k ≤ ts.length ∧
        Reader.term ts = .ok (.call "f" [.integer 7, .call "g" [.integer 0], .name "x"]) (ts.drop k) ∧
        (Term.call "f" [.integer 7, .call "g" [.integer 0], .name "x"]).Keeps (ts.take k)) ∧
    Term.definitionOfSource "def f(a,b)g(a, 010)\n end " =
        .ok (.definition "f" ["a", "b"] (.call "g" [.name "a", .integer 10])) ∧
      ∃ ts, scan "def f(a,b)g(a, 010)\n end " = .ok ts ∧
        (Term.definition "f" ["a", "b"] (.call "g" [.name "a", .integer 10])).Keeps ts := by
  have hterm : Term.ofSource "f( 007,\n g (00 ) ,x) y(" =
      .ok (.call "f" [.integer 7, .call "g" [.integer 0], .name "x"]) := by cbv
  have hdefinition : Term.definitionOfSource "def f(a,b)g(a, 010)\n end " =
      .ok (.definition "f" ["a", "b"] (.call "g" [.name "a", .integer 10])) := by cbv
  exact ⟨⟨hterm, ((read_keeps_lexemes _).1 _ hterm).1⟩, hdefinition,
    ((read_keeps_lexemes _).2 _ hdefinition).1⟩

end KeyCombo
