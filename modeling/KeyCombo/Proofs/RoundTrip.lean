import KeyCombo.Keymap
import KeyCombo.Proofs.Grammar
import KeyCombo.Proofs.Numerals
import KeyCombo.Proofs.ScanAppend
import KeyCombo.Proofs.Scanning

set_option autoImplicit false

/-! # Printing and reading back

A term that is printed and read back comes out unchanged exactly if it is expressible: its names
can stand in a source, its integers are not negative, and a definition stands at most at the
outermost level.

One half scans the printed text part by part and derives the term from the tokens. The other half
is about readers alone: whatever they make of the tokens of a source is expressible. -/

namespace KeyCombo

open Text Token Reader

/-! ## Expressible terms -/

/-- One or more ASCII letters and underscores that are no word of the language. -/
def IsName (s : String) : Prop :=
  s ≠ "" ∧ (∀ c ∈ s.toList, isNameChar c = true) ∧ s ≠ "def" ∧ s ≠ "end"

/-- Terms without definitions that have a source text. -/
inductive IsExpression : Term → Prop
  | integer {value : Int64} (hvalue : 0 ≤ value.toInt) : IsExpression (.integer value)
  | name {text : String} (htext : IsName text) : IsExpression (.name text)
  | call {callee : String} {args : List Term} (hcallee : IsName callee)
      (hargs : ∀ arg ∈ args, IsExpression arg) : IsExpression (.call callee args)

/-- Terms that have a source text. -/
inductive Expressible : Term → Prop
  | expression {t : Term} (ht : IsExpression t) : Expressible t
  | definition {head : String} {params : List String} {body : Term} (hhead : IsName head)
      (hparams : ∀ param ∈ params, IsName param) (hbody : IsExpression body) :
      Expressible (.definition head params body)

/-! ## Scanning names, numerals and lists -/

/-- The text of a token scans to that token alone. -/
theorem scansTo_token {s : String} {kind : TokenKind} (h : IsOfKind s.toList kind) :
    ScansTo s.toList fun ts => ∃ t, ts = [t] ∧ t.kind = kind ∧ t.text = s := by
  obtain ⟨hpiece, hjudge⟩ := judge_of_isOfKind h
  simpa using ScansTo.piece hpiece hjudge

theorem scansTo_name {s : String} (h : IsName s) :
    ScansTo s.toList fun ts => ∃ t, ts = [t] ∧ t.kind = .identifier ∧ t.text = s := by
  obtain ⟨hne, hchars, hdef, hend⟩ := h
  refine scansTo_token ⟨by simpa using hne, hchars, ?_, ?_⟩
  · exact fun heq => hdef (String.toList_inj.1 heq)
  · exact fun heq => hend (String.toList_inj.1 heq)

theorem scansTo_integer {value : Int64} (h : 0 ≤ value.toInt) :
    ScansTo (Numeral.ofInt value.toInt).toList fun ts =>
      ∃ t, ts = [t] ∧ t.kind = .integer ∧ t.text = Numeral.ofInt value.toInt := by
  obtain ⟨n, hn⟩ := Int.eq_ofNat_of_zero_le h
  rw [hn]
  have hlist := Numeral.toList_ofInt_natCast n
  have hdigits := Numeral.toDigits_all_isDigit n
  rw [← hlist] at hdigits
  exact scansTo_token ⟨by simp [hlist, Nat.toDigits_ne_nil], List.all_eq_true.1 hdigits⟩

/-- A relation between token lists and lists of items, built from one for single items: `More` for
    items that stand behind commas, `All` for items between parentheses. -/
structure Separated {α : Type} (D : List Token → α → Prop) (More All : List Token → List α → Prop) :
    Prop where
  done : More [] []
  more : ∀ {c ts us x xs}, c.kind = .comma → D ts x → More us xs → More (c :: (ts ++ us)) (x :: xs)
  none : All [] []
  some : ∀ {ts us x xs}, D ts x → More us xs → All (ts ++ us) (x :: xs)

theorem separated_args : Separated Derives DerivesMoreArgs DerivesArgs :=
  ⟨.done, .more, .none, .some⟩

theorem separated_params : Separated (fun ts s => ∃ t, ts = [t] ∧ t.kind = .identifier ∧ t.text = s)
    DerivesMoreParams DerivesParams := by
  refine ⟨.done, ?_, .none, ?_⟩
  · rintro c _ us _ xs hc ⟨p, rfl, hp, rfl⟩ hxs
    exact .more hc hp hxs
  · rintro _ us _ xs ⟨p, rfl, hp, rfl⟩ hxs
    exact .some hp hxs

section Lists

variable {α : Type} {D : List Token → α → Prop} {More All : List Token → List α → Prop}
  {chars : α → String}

theorem intercalate_cons_eq_append {β : Type} (sep xs : List β) (xss : List (List β)) :
    sep.intercalate (xs :: xss) = xs ++ xss.flatMap fun ys => sep ++ ys := by
  induction xss generalizing xs with
  | nil => simp
  | cons ys xss ih =>
    rw [List.intercalate_cons_cons, ih, List.flatMap_cons, List.append_assoc, List.append_assoc]

theorem toList_parenthesized_cons (s : String) (items : List String) :
    (Term.parenthesized (s :: items)).toList =
      '(' :: (s.toList ++ (items.flatMap (fun t => ',' :: ' ' :: t.toList) ++ [')'])) := by
  have hitems : ([',', ' '].intercalate ((s :: items).map String.toList)) =
      s.toList ++ items.flatMap fun t => ',' :: ' ' :: t.toList := by
    rw [List.map_cons, intercalate_cons_eq_append, List.flatMap_map]
    rfl
  have hsep : ", ".toList = [',', ' '] := rfl
  rw [Term.parenthesized, String.toList_append, String.toList_append, String.toList_intercalate,
    hsep, hitems]
  simp

theorem cutsNoWord_more (as : List Char) (xs : List α) :
    CutsNoWord as (xs.flatMap (fun x => ',' :: ' ' :: (chars x).toList) ++ [')']) := by
  cases xs with
  | nil => exact cutsNoWord_of_right (by decide) as _
  | cons x xs => exact cutsNoWord_of_right (by decide) as _

theorem scansTo_close : ScansTo [')'] fun ts => ∃ c, ts = [c] ∧ c.kind = .rightParen := by
  refine (ScansTo.piece (.singleton ')') rfl).imp ?_
  rintro _ ⟨c, rfl, hc, -⟩
  exact ⟨c, rfl, hc⟩

/-- The items behind commas, and the closing parenthesis. -/
theorem scansTo_more (hsep : Separated D More All) (xs : List α)
    (h : ∀ x ∈ xs, ScansTo (chars x).toList fun ts => D ts x) :
    ScansTo (xs.flatMap (fun x => ',' :: ' ' :: (chars x).toList) ++ [')']) fun ts =>
      ∃ us c, ts = us ++ [c] ∧ More us xs ∧ c.kind = .rightParen := by
  induction xs with
  | nil =>
    refine scansTo_close.imp ?_
    rintro _ ⟨c, rfl, hc⟩
    exact ⟨[], c, rfl, hsep.done, hc⟩
  | cons x xs ih =>
    rw [List.forall_mem_cons] at h
    have hx := h.1.append (ih h.2) (cutsNoWord_more _ xs)
    have hcomma := (hx.blank (c := ' ') (by decide)).mark (c := ',') (by decide) rfl
    rw [List.flatMap_cons, List.cons_append, List.cons_append, List.cons_append, List.cons_append,
      List.append_assoc]
    refine hcomma.imp ?_
    rintro _ ⟨t, _, rfl, ht, us, _, rfl, hus, vs, c, rfl, hvs, hc⟩
    exact ⟨t :: (us ++ vs), c, by simp, hsep.more ht hus hvs, hc⟩

theorem scansTo_parenthesized (chars : α → String) (hsep : Separated D More All) (xs : List α)
    (h : ∀ x ∈ xs, ScansTo (chars x).toList fun ts => D ts x) :
    ScansTo (Term.parenthesized (xs.map chars)).toList fun ts =>
      ∃ o us c, ts = o :: (us ++ [c]) ∧ o.kind = .leftParen ∧ All us xs ∧ c.kind = .rightParen := by
  cases xs with
  | nil =>
    have hnil : (Term.parenthesized []).toList = ['(', ')'] := by simp [Term.parenthesized]
    rw [List.map_nil, hnil]
    refine (scansTo_close.mark (c := '(') (by decide) rfl).imp ?_
    rintro _ ⟨o, _, rfl, ho, c, rfl, hc⟩
    exact ⟨o, [], c, rfl, ho, hsep.none, hc⟩
  | cons x xs =>
    rw [List.forall_mem_cons] at h
    have hx := h.1.append (scansTo_more hsep xs h.2) (cutsNoWord_more _ xs)
    rw [List.map_cons, toList_parenthesized_cons, List.flatMap_map]
    refine (hx.mark (c := '(') (by decide) rfl).imp ?_
    rintro _ ⟨o, _, rfl, ho, us, _, rfl, hus, vs, c, rfl, hvs, hc⟩
    exact ⟨o, us ++ vs, c, by simp, ho, hsep.some hus hvs, hc⟩

end Lists

/-! ## Scanning printed terms -/

theorem cutsNoWord_parenthesized (as : List Char) (items : List String) (bs : List Char) :
    CutsNoWord as ((Term.parenthesized items).toList ++ bs) := by
  rw [Term.parenthesized, String.toList_append, String.toList_append]
  exact cutsNoWord_of_right (by decide) as _

/-- A relation between token lists and terms that holds of the tokens of each printed
    expression, with its companions for arguments. -/
structure Phrases (D : List Token → Term → Prop) (More All : List Token → List Term → Prop) : Prop
    extends Separated D More All where
  integer : ∀ {t : Token} {value : Int64}, t.kind = .integer →
    t.text = Numeral.ofInt value.toInt → D [t] (.integer value)
  name : ∀ {t : Token}, t.kind = .identifier → D [t] (.name t.text)
  call : ∀ {f o c : Token} {us : List Token} {args : List Term}, f.kind = .identifier →
    o.kind = .leftParen → All us args → c.kind = .rightParen →
    D (f :: o :: (us ++ [c])) (.call f.text args)

theorem phrases_derives : Phrases Derives DerivesMoreArgs DerivesArgs where
  toSeparated := separated_args
  integer ht htext := .integer ht (by rw [htext, Numeral.int64?_ofInt])
  name := .name
  call := .call

section Printed

variable {D : List Token → Term → Prop} {More All : List Token → List Term → Prop}

theorem scansTo_expression (hD : Phrases D More All) {t : Term} (h : IsExpression t) :
    ScansTo t.render.toList fun ts => D ts t := by
  induction h with
  | integer hvalue =>
    refine (scansTo_integer hvalue).imp ?_
    rintro _ ⟨t, rfl, ht, htext⟩
    exact hD.integer ht htext
  | name htext =>
    refine (scansTo_name htext).imp ?_
    rintro _ ⟨t, rfl, ht, rfl⟩
    exact hD.name ht
  | @call callee args hcallee _ ih =>
    have hargs := scansTo_parenthesized Term.render hD.toSeparated args ih
    have hcut := cutsNoWord_parenthesized callee.toList (args.map Term.render) []
    rw [List.append_nil] at hcut
    rw [Term.render, Term.renderAll_eq_map, String.toList_append]
    refine ((scansTo_name hcallee).append hargs hcut).imp ?_
    rintro _ ⟨_, _, rfl, ⟨f, rfl, hf, rfl⟩, o, us, c, rfl, ho, hus, hc⟩
    exact hD.call hf ho hus hc

/-- The tokens of a printed definition: its words, and between them its parameters and its body. -/
theorem scansTo_definition (hD : Phrases D More All) {MoreParams AllParams : List Token →
      List String → Prop}
    (hparams : Separated (fun ts s => ∃ t, ts = [t] ∧ t.kind = .identifier ∧ t.text = s)
      MoreParams AllParams)
    {head : String} {params : List String} {body : Term} (hhead : IsName head)
    (hnames : ∀ param ∈ params, IsName param) (hbody : IsExpression body) :
    ScansTo (Term.definition head params body).render.toList fun ts =>
      ∃ d f o ps c bs e, ts = d :: f :: o :: (ps ++ c :: (bs ++ [e])) ∧ d.kind = .defWord ∧
        (f.kind = .identifier ∧ f.text = head) ∧ o.kind = .leftParen ∧ AllParams ps params ∧
        c.kind = .rightParen ∧ D bs body ∧ e.kind = .endWord := by
  have hword : ∀ q kind, IsWordRun q → judge q = .token kind →
      ScansTo q fun ts => ∃ t, ts = [t] ∧ t.kind = kind := by
    intro q kind hq hjudge
    refine (ScansTo.piece (Or.inl hq) hjudge).imp ?_
    rintro _ ⟨t, rfl, ht, -⟩
    exact ⟨t, rfl, ht⟩
  have hlist := scansTo_parenthesized id hparams params
    fun param hparam => scansTo_name (hnames param hparam)
  -- the parts of the text from its end to its start
  have hend := (hword ['e', 'n', 'd'] .endWord (isWordRun_of_all (by decide) rfl) rfl).blank
    (c := ' ') rfl
  have hbody' := ((scansTo_expression hD hbody).append hend (cutsNoWord_of_right rfl _ _)).blank
    (c := ' ') rfl
  have hlist' := hlist.append hbody' (cutsNoWord_of_right rfl _ _)
  have hhead' := ((scansTo_name hhead).append hlist' (cutsNoWord_parenthesized _ _ _)).blank
    (c := ' ') rfl
  have hdef := (hword ['d', 'e', 'f'] .defWord (isWordRun_of_all (by decide) rfl) rfl).append
    hhead' (cutsNoWord_of_right rfl _ _)
  have htext : (Term.definition head params body).render.toList = ['d', 'e', 'f'] ++ ' ' ::
      (head.toList ++ ((Term.parenthesized (params.map id)).toList ++ ' ' ::
        (body.render.toList ++ ' ' :: ['e', 'n', 'd']))) := by
    simp [Term.render]
  rw [htext]
  refine hdef.imp ?_
  rintro _ ⟨_, _, rfl, ⟨d, rfl, hd⟩, _, _, rfl, ⟨f, rfl, hf⟩, _, _, rfl,
    ⟨o, ps, c, rfl, ho, hps, hc⟩, bs, _, rfl, hbs, e, rfl, he⟩
  exact ⟨d, f, o, ps, c, bs, e, by simp, hd, hf, ho, hps, hc, hbs, he⟩

end Printed

/-- The tokens of a printed expression derive it. -/
theorem scansTo_render {t : Term} (h : IsExpression t) :
    ScansTo t.render.toList fun ts => Derives ts t :=
  scansTo_expression phrases_derives h

/-- The tokens of a printed definition derive it. -/
theorem scansTo_render_definition {head : String} {params : List String} {body : Term}
    (hhead : IsName head) (hparams : ∀ param ∈ params, IsName param) (hbody : IsExpression body) :
    ScansTo (Term.definition head params body).render.toList fun ts =>
      DerivesDefinition ts (.definition head params body) := by
  refine (scansTo_definition phrases_derives separated_params hhead hparams hbody).imp ?_
  rintro _ ⟨d, f, o, ps, c, bs, e, rfl, hd, ⟨hf, rfl⟩, ho, hps, hc, hbs, he⟩
  exact .intro hd hf ho hps hc hbs he

/-! ## What readers make of scanned tokens -/

theorem isName_of_isOfKind {s : String} (h : IsOfKind s.toList .identifier) : IsName s := by
  obtain ⟨hne, hchars, hdef, hend⟩ := h
  refine ⟨by simpa using hne, hchars, ?_, ?_⟩
  · rintro rfl
    exact hdef rfl
  · rintro rfl
    exact hend rfl

theorem isOfKind_of_mem_scan {source : String} {ts : List Token} (h : scan source = .ok ts) :
    ∀ t ∈ ts, IsOfKind t.text.toList t.kind := by
  obtain ⟨-, -, hkinds⟩ := scanPieces_eq_ok h
  intro t ht
  exact isOfKind_of_judge ((decomposition_pieces _).isPiece _ (hkinds t ht).1) (hkinds t ht).2

/-- Whether the text of each token is of the kind of that token. -/
def Faithful (ts : List Token) : Prop := ∀ t ∈ ts, IsOfKind t.text.toList t.kind

theorem Faithful.isName {ts : List Token} (h : Faithful ts) {t : Token} (ht : t ∈ ts)
    (hkind : t.kind = .identifier) : IsName t.text := by
  have hof := h t ht
  rw [hkind] at hof
  exact isName_of_isOfKind hof

mutual

theorem isExpression_of_derives {ts : List Token} {t : Term} (h : Derives ts t)
    (hts : Faithful ts) : IsExpression t := by
  cases h with
  | @integer t value ht hvalue =>
    have hof := hts t List.mem_cons_self
    rw [ht] at hof
    exact .integer (Numeral.toInt_nonneg_of_all_isDigit (List.all_eq_true.2 hof.2) hvalue)
  | @name t ht => exact .name (hts.isName List.mem_cons_self ht)
  | @call f o c us args hf ho hargs hc =>
    refine .call (hts.isName List.mem_cons_self hf) ?_
    exact isExpression_of_derivesArgs hargs fun t ht => hts t (by simp [ht])

theorem isExpression_of_derivesArgs {ts : List Token} {args : List Term} (h : DerivesArgs ts args)
    (hts : Faithful ts) : ∀ arg ∈ args, IsExpression arg := by
  cases h with
  | none => simp
  | some ht hargs =>
    exact List.forall_mem_cons.2
      ⟨isExpression_of_derives ht fun t ht => hts t (by simp [ht]),
        isExpression_of_derivesMoreArgs hargs fun t ht => hts t (by simp [ht])⟩

theorem isExpression_of_derivesMoreArgs {ts : List Token} {args : List Term}
    (h : DerivesMoreArgs ts args) (hts : Faithful ts) : ∀ arg ∈ args, IsExpression arg := by
  cases h with
  | done => simp
  | more hc ht hargs =>
    exact List.forall_mem_cons.2
      ⟨isExpression_of_derives ht fun t ht => hts t (by simp [ht]),
        isExpression_of_derivesMoreArgs hargs fun t ht => hts t (by simp [ht])⟩

end

theorem isName_of_derivesMoreParams {ts : List Token} {params : List String}
    (h : DerivesMoreParams ts params) (hts : Faithful ts) : ∀ param ∈ params, IsName param := by
  induction h with
  | done => simp
  | more hc hp _ ih =>
    refine List.forall_mem_cons.2 ⟨hts.isName (by simp) hp, ih fun t ht => hts t (by simp [ht])⟩

theorem isName_of_derivesParams {ts : List Token} {params : List String}
    (h : DerivesParams ts params) (hts : Faithful ts) : ∀ param ∈ params, IsName param := by
  cases h with
  | none => simp
  | some hp hparams =>
    refine List.forall_mem_cons.2 ⟨hts.isName List.mem_cons_self hp, ?_⟩
    exact isName_of_derivesMoreParams hparams fun t ht => hts t (by simp [ht])

theorem expressible_of_derivesDefinition {ts : List Token} {t : Term}
    (h : DerivesDefinition ts t) (hts : Faithful ts) : Expressible t := by
  obtain ⟨hd, hf, ho, hparams, hc, hbody, he⟩ := h
  refine .definition (hts.isName (by simp) hf) ?_ ?_
  · exact isName_of_derivesParams hparams fun t ht => hts t (by simp [ht])
  · exact isExpression_of_derives hbody fun t ht => hts t (by simp [ht])

/-! ## Reading back -/

/-- A source is read exactly if it is scanned and its tokens are read. -/
theorem bind_tokensOfSource_eq_ok {read : List Token → Except ReadError Term} {source : String}
    {n : Term} :
    (tokensOfSource source >>= fun ts => (read ts).mapError Error.read) = .ok n ↔
      ∃ ts, scan source = .ok ts ∧ read ts = .ok n := by
  unfold tokensOfSource
  cases scan source with
  | error e => simp [Except.mapError, bind, Except.bind]
  | ok ts =>
    change (read ts).mapError Error.read = .ok n ↔ _
    cases hn : read ts <;> simp [Except.mapError, hn]

theorem ofSource_eq_ok_iff {source : String} {n : Term} : Term.ofSource source = .ok n ↔
    ∃ p rest, scan source = .ok (p ++ rest) ∧ Derives p n ∧
      (n.form = .name → ¬StartsWith .leftParen rest) := by
  rw [Term.ofSource, bind_tokensOfSource_eq_ok]
  simp only [Term.ofTokens, outcome_eq_ok, term_eq_ok_iff]
  constructor
  · rintro ⟨_, hscan, rest, p, rfl, hn⟩
    exact ⟨p, rest, hscan, hn⟩
  · rintro ⟨p, rest, hscan, hn⟩
    exact ⟨_, hscan, rest, p, rfl, hn⟩

theorem definitionOfSource_eq_ok_iff {source : String} {n : Term} :
    Term.definitionOfSource source = .ok n ↔
      ∃ ts, scan source = .ok ts ∧ DerivesDefinition ts n := by
  rw [Term.definitionOfSource, bind_tokensOfSource_eq_ok]
  simp only [Term.definitionOfTokens, outcome_eq_ok, wholeDefinition_eq_ok_iff, exists_eq_left]

theorem isExpression_of_ofSource {source : String} {n : Term} (h : Term.ofSource source = .ok n) :
    IsExpression n := by
  obtain ⟨p, rest, hscan, hp, -⟩ := ofSource_eq_ok_iff.1 h
  have hfaithful : Faithful p := by
    intro t ht
    exact isOfKind_of_mem_scan hscan t (List.mem_append_left rest ht)
  exact isExpression_of_derives hp hfaithful

theorem expressible_of_ofSource {source : String} {n : Term} (h : Term.ofSource source = .ok n) :
    Expressible n :=
  .expression (isExpression_of_ofSource h)

theorem expressible_of_definitionOfSource {source : String} {n : Term}
    (h : Term.definitionOfSource source = .ok n) : Expressible n := by
  obtain ⟨ts, hscan, hts⟩ := definitionOfSource_eq_ok_iff.1 h
  exact expressible_of_derivesDefinition hts (isOfKind_of_mem_scan hscan)

theorem ofSource_render {t : Term} (h : IsExpression t) : Term.ofSource t.render = .ok t := by
  obtain ⟨ts, hscan, hts⟩ := scansTo_render h .start
  refine ofSource_eq_ok_iff.2 ⟨ts, [], ?_, hts, fun _ => not_startsWith_nil _⟩
  rw [List.append_nil]
  exact hscan

theorem definitionOfSource_render {t : Term} (h : Expressible t) (hform : t.form = .definition) :
    Term.definitionOfSource t.render = .ok t := by
  cases h with
  | expression ht => cases ht <;> cases hform
  | definition hhead hparams hbody =>
    obtain ⟨ts, hscan, hts⟩ := scansTo_render_definition hhead hparams hbody .start
    exact definitionOfSource_eq_ok_iff.2 ⟨ts, hscan, hts⟩

theorem readBack_of_isExpression {t : Term} (h : IsExpression t) :
    t.readBack = Term.ofSource t.render := by
  cases h <;> rfl

/-- **Exact round trip**: the printed text of a term reads as that very term if and only if the
    term is expressible. -/
theorem readBack_eq_ok_iff (t : Term) : t.readBack = .ok t ↔ Expressible t := by
  constructor
  · intro h
    unfold Term.readBack at h
    split at h
    · exact expressible_of_definitionOfSource h
    · exact expressible_of_ofSource h
  · intro h
    cases h with
    | expression ht =>
      rw [readBack_of_isExpression ht]
      exact ofSource_render ht
    | @definition head params body hhead hparams hbody =>
      obtain ⟨ts, hscan, hts⟩ := scansTo_render_definition hhead hparams hbody .start
      exact definitionOfSource_eq_ok_iff.2 ⟨ts, hscan, hts⟩

end KeyCombo
