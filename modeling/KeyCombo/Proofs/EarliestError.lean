import KeyCombo.Proofs.Grammar

set_option autoImplicit false

/-! # Errors at the earliest token

A reader that fails blames the first token that cannot stand where it stands: what precedes that
token can still be completed, and whatever follows it changes nothing. If no token is to blame, the
tokens have run out, and they can be completed as they are.

Two facts make this up. No reader looks beyond the token at which it stops (`Prompt`, which is
closed under binds), and tokens that run out can be completed (`Completable`): open calls are
closed one by one, and the missing parts of a definition are filled in. -/

namespace KeyCombo.Reader

variable {α β : Type} {ts rest : List Token} {e : ReadError} {expected : Expected}

/-! ## Stopping at a token -/

/-- What a reader makes of the tokens behind a token at which it stops: it leaves them all, with a
    value or an error in front of the token, or with an error right behind it. -/
inductive StopsAt (t : Token) : (List Token → EStateM.Result ReadError (List Token) α) → Prop
  | value (a : α) : StopsAt t fun rest => .ok a (t :: rest)
  | unexpected (expected : Expected) :
      StopsAt t fun rest => .error (.unexpected expected t.kind t.position) (t :: rest)
  | outOfRange (ht : t.kind = .integer) (hvalue : Numeral.int64? t.text = none) :
      StopsAt t fun rest => .error (.outOfRange t.text) rest

/-- Whether a result comes from running out of tokens. -/
def AtEnd (result : EStateM.Result ReadError (List Token) α) : Prop :=
  (∃ a, result = .ok a []) ∨ ∃ expected, result = .error (.endOfInput expected) []

/-- Whether a reader runs out of the given tokens, or stops at one of them whatever stands behind
    that one. -/
def PromptOn (reader : Reader α) (ts : List Token) : Prop :=
  AtEnd (reader ts) ∨ ∃ p t rest result, ts = p ++ t :: rest ∧ StopsAt t result ∧
    ∀ rest', reader (p ++ t :: rest') = result rest'

/-- Whether a reader never looks beyond the token at which it stops. -/
def Prompt (reader : Reader α) : Prop := ∀ ts, PromptOn reader ts

theorem bind_of_ok {reader : Reader α} {next : α → Reader β} {a : α}
    (h : reader ts = .ok a rest) : (reader >>= next) ts = next a rest := by
  change EStateM.bind reader next ts = _
  simp only [EStateM.bind, h]

theorem bind_of_error {reader : Reader α} {next : α → Reader β}
    (h : reader ts = .error e rest) : (reader >>= next) ts = .error e rest := by
  change EStateM.bind reader next ts = _
  simp only [EStateM.bind, h]

theorem promptOn_ok {reader : Reader α} (a : α)
    (h : ∀ us, us.head? = ts.head? → reader us = .ok a us) : PromptOn reader ts := by
  cases ts with
  | nil => exact Or.inl (Or.inl ⟨a, h [] rfl⟩)
  | cons t ts => exact Or.inr ⟨[], t, ts, _, rfl, .value a, fun rest' => h (t :: rest') rfl⟩

theorem promptOn_fail {reader : Reader α} (expected : Expected)
    (h : ∀ us, us.head? = ts.head? → reader us = fail expected us) : PromptOn reader ts := by
  cases ts with
  | nil => exact Or.inl (Or.inr ⟨expected, h [] rfl⟩)
  | cons t ts =>
    exact Or.inr ⟨[], t, ts, _, rfl, .unexpected expected, fun rest' => h (t :: rest') rfl⟩

/-- A reader that takes some tokens is as prompt as it is on those behind them. The next token may
    be looked at. -/
theorem PromptOn.append {reader next : Reader α} {q : List Token} (h : PromptOn next ts)
    (hnext : ∀ us, us.head? = ts.head? → reader (q ++ us) = next us) :
    PromptOn reader (q ++ ts) := by
  rcases h with hend | ⟨p, t, rest, result, rfl, hstop, hresult⟩
  · rw [← hnext ts rfl] at hend
    exact Or.inl hend
  · refine Or.inr ⟨q ++ p, t, rest, result, by simp, hstop, fun rest' => ?_⟩
    have hhead : (p ++ t :: rest').head? = (p ++ t :: rest).head? := by
      cases p <;> rfl
    rw [List.append_assoc, hnext _ hhead, hresult]

theorem PromptOn.bind {reader : Reader α} {next : α → Reader β} (h : PromptOn reader ts)
    (hnext : ∀ a, Prompt (next a)) : PromptOn (reader >>= next) ts := by
  rcases h with hend | ⟨p, t, rest, result, rfl, hstop, hresult⟩
  · rcases hend with ⟨a, ha⟩ | ⟨expected, he⟩
    · -- nothing is left for the second reader, so it stops at no token
      rcases hnext a [] with hend | ⟨p, t, rest, -, hnil, -⟩
      · have hbind : (reader >>= next) ts = next a [] := bind_of_ok ha
        rw [← hbind] at hend
        exact Or.inl hend
      · simp at hnil
    · exact Or.inl (Or.inr ⟨expected, bind_of_error he⟩)
  · cases hstop with
    | value a =>
      -- the second reader begins with the token at which the first one stopped
      have hbind : ∀ rest', (reader >>= next) (p ++ t :: rest') = next a (t :: rest') :=
        fun rest' => bind_of_ok (hresult rest')
      refine (hnext a (t :: rest)).append fun us hus => ?_
      obtain ⟨rest', rfl⟩ := List.head?_eq_some_iff.1 hus
      exact hbind rest'
    | unexpected expected =>
      exact Or.inr ⟨p, t, rest, _, rfl, .unexpected expected, fun rest' =>
        bind_of_error (hresult rest')⟩
    | outOfRange ht hvalue =>
      exact Or.inr ⟨p, t, rest, _, rfl, .outOfRange ht hvalue, fun rest' =>
        bind_of_error (hresult rest')⟩

theorem Prompt.bind {reader : Reader α} {next : α → Reader β} (h : Prompt reader)
    (hnext : ∀ a, Prompt (next a)) : Prompt (reader >>= next) := by
  intro ts
  exact (h ts).bind hnext

theorem Prompt.pure (a : α) : Prompt (pure a : Reader α) := by
  intro ts
  exact promptOn_ok a fun _ _ => rfl

/-! ## Single readers -/

theorem prompt_take (kind : TokenKind) : Prompt (take kind) := by
  intro ts
  cases ts with
  | nil => exact Or.inl (Or.inr ⟨.kind kind, rfl⟩)
  | cons t ts =>
    by_cases ht : t.kind = kind
    · have htake : ∀ us, take kind ([t] ++ us) = (pure t : Reader Token) us :=
        fun us => take_eq_ok.2 ⟨ht, rfl⟩
      exact (Prompt.pure t ts).append fun us _ => htake us
    · refine promptOn_fail (.kind kind) fun us hus => ?_
      obtain ⟨us, rfl⟩ := List.head?_eq_some_iff.1 hus
      exact if_neg ht

theorem prompt_check_zero (kind : TokenKind) : Prompt (check kind 0) := by
  intro ts
  refine promptOn_ok (ts.head?.any (·.kind = kind)) fun us hus => ?_
  rw [check, ← List.head?_eq_getElem?, hus]

theorem prompt_expectEnd : Prompt expectEnd := by
  intro ts
  cases ts with
  | nil => exact Or.inl (Or.inl ⟨(), rfl⟩)
  | cons t ts =>
    refine promptOn_fail .endOfInput fun us hus => ?_
    obtain ⟨us, rfl⟩ := List.head?_eq_some_iff.1 hus
    rfl

theorem moreParams_name_eq_bind {c p : Token} (hc : c.kind = .comma) (hp : p.kind = .identifier)
    (ts : List Token) :
    moreParams ([c, p] ++ ts) = (moreParams >>= fun ps => pure (p.text :: ps)) ts := by
  rw [List.cons_append, List.cons_append, List.nil_append, moreParams_name hc hp]
  cases hmore : moreParams ts with
  | ok ps rest =>
    rw [bind_of_ok hmore]
    rfl
  | error e rest => rw [bind_of_error hmore]

theorem prompt_moreParams : Prompt moreParams := by
  intro ts
  fun_induction moreParams ts with
  | case1 => exact Or.inl (Or.inl ⟨[], rfl⟩)
  | case2 c hc => exact Or.inl (Or.inr ⟨.kind .identifier, moreParams_end hc⟩)
  | case3 c hc p us hp ps mid hmid ih | case4 c hc p us hp e mid hmid ih =>
    exact (ih.bind fun ps => .pure _).append fun us _ => moreParams_name_eq_bind hc hp us
  | case5 c hc p us hp =>
    have hfail : PromptOn (fail (.kind .identifier) : Reader (List String)) (p :: us) :=
      promptOn_fail (.kind .identifier) fun _ _ => rfl
    refine hfail.append (q := [c]) fun vs hvs => ?_
    obtain ⟨vs, rfl⟩ := List.head?_eq_some_iff.1 hvs
    exact moreParams_other hc hp
  | case6 t us ht =>
    refine promptOn_ok [] fun vs hvs => ?_
    obtain ⟨vs, rfl⟩ := List.head?_eq_some_iff.1 hvs
    exact moreParams_done ht

theorem startsWith_congr {kind : TokenKind} {us : List Token} (h : us.head? = ts.head?) :
    StartsWith kind us ↔ StartsWith kind ts := by
  rw [StartsWith, StartsWith, h]

theorem prompt_reading : (∀ calls, Prompt (termWithin calls)) ∧
    ∀ calls t, Prompt (resume calls t) := by
  refine reading_induction ?nil ?integer ?outOfRange ?name ?callee ?callNone ?callSome ?other
    ?outermost ?unclosed ?comma ?close ?stray
  case nil =>
    intro calls
    exact Or.inl (Or.inr ⟨.expression, termWithin_nil⟩)
  case integer =>
    intro calls t ts value ht hvalue ih
    exact ih.append (q := [t]) fun us _ => termWithin_integer ht hvalue
  case outOfRange =>
    intro calls t ts ht hvalue
    exact Or.inr ⟨[], t, ts, _, rfl, .outOfRange ht hvalue,
      fun _ => termWithin_outOfRange ht hvalue⟩
  case name =>
    intro calls t ts ht hts ih
    refine ih.append (q := [t]) fun us hus => ?_
    rw [← startsWith_congr hus] at hts
    exact termWithin_name ht hts
  case callee =>
    intro calls f o hf ho
    exact Or.inl (Or.inr ⟨.kind .rightParen, termWithin_callee hf ho⟩)
  case callNone =>
    intro calls f o c ts hf ho hc ih
    exact ih.append (q := [f, o, c]) fun us _ => termWithin_call_none hf ho hc
  case callSome =>
    intro calls f o q ts hf ho hq ih
    refine ih.append (q := [f, o]) fun us hus => ?_
    obtain ⟨us, rfl⟩ := List.head?_eq_some_iff.1 hus
    exact termWithin_call_some hf ho hq
  case other =>
    intro calls t ts hinteger hidentifier
    refine promptOn_fail (.kind .identifier) fun us hus => ?_
    obtain ⟨us, rfl⟩ := List.head?_eq_some_iff.1 hus
    exact termWithin_other hinteger hidentifier
  case outermost =>
    intro t ts
    exact promptOn_ok t fun us _ => resume_outermost
  case unclosed =>
    intro c calls t
    exact Or.inl (Or.inr ⟨.kind .rightParen, resume_nil⟩)
  case comma =>
    intro c calls t q ts hq ih
    exact ih.append (q := [q]) fun us _ => resume_comma hq
  case close =>
    intro c calls t q ts hq ih
    exact ih.append (q := [q]) fun us _ => resume_close hq
  case stray =>
    intro c calls t q ts hcomma hclose
    refine promptOn_fail (.kind .rightParen) fun us hus => ?_
    obtain ⟨us, rfl⟩ := List.head?_eq_some_iff.1 hus
    exact resume_other hcomma hclose

theorem prompt_term : Prompt Reader.term := prompt_reading.1 []

theorem prompt_paramNames : Prompt paramNames := by
  refine (prompt_check_zero .identifier).bind fun found => ?_
  cases found with
  | true =>
    refine (prompt_take .identifier).bind fun first => ?_
    exact prompt_moreParams.bind fun others => .pure _
  | false => exact .pure []

theorem prompt_definition : Prompt definition := by
  refine (prompt_take .defWord).bind fun _ => ?_
  refine (prompt_take .identifier).bind fun name => ?_
  refine (prompt_take .leftParen).bind fun _ => ?_
  refine prompt_paramNames.bind fun params => ?_
  refine (prompt_take .rightParen).bind fun _ => ?_
  refine prompt_term.bind fun body => ?_
  exact (prompt_take .endWord).bind fun _ => .pure _

theorem prompt_wholeDefinition : Prompt wholeDefinition := by
  refine prompt_definition.bind fun t => ?_
  exact prompt_expectEnd.bind fun _ => .pure t

/-! ## Completing an expression -/

/-- Some token of a kind, to fill in where one is missing. -/
def filler (kind : TokenKind) : Token := ⟨kind, "x", .start⟩

/-- The tokens that close all open calls. -/
def closers (calls : List OpenCall) : List Token := calls.map fun _ => filler .rightParen

theorem exists_resume_closers (calls : List OpenCall) (t : Term) :
    ∃ n, resume calls t (closers calls) = .ok n [] := by
  induction calls generalizing t with
  | nil => exact ⟨t, resume_outermost⟩
  | cons c calls ih =>
    obtain ⟨n, hn⟩ := ih (c.push t).close
    exact ⟨n, (resume_close rfl).trans hn⟩

theorem exists_termWithin_closers (calls : List OpenCall) :
    ∃ n, termWithin calls (filler .identifier :: closers calls) = .ok n [] := by
  obtain ⟨n, hn⟩ := exists_resume_closers calls (.name (filler .identifier).text)
  refine ⟨n, (termWithin_name rfl ?_).trans hn⟩
  cases calls <;> simp [closers, filler]

/-- No opening parenthesis follows a complete term. -/
theorem not_startsWith_leftParen_of_resume {calls : List OpenCall} {t n : Term}
    (h : resume calls t ts = .ok n []) : ¬StartsWith .leftParen ts := by
  cases ts with
  | nil => exact not_startsWith_nil _
  | cons q ts =>
    rw [startsWith_cons]
    intro hq
    cases calls with
    | nil =>
      rw [resume_outermost] at h
      cases h
    | cons c calls =>
      rw [resume_other (by simp [hq]) (by simp [hq])] at h
      cases h

/-- An expression that runs out of tokens can be completed, together with all open calls. -/
theorem completable_reading :
    (∀ calls ts expected rest, termWithin calls ts = .error (.endOfInput expected) rest →
      ∃ more n, termWithin calls (ts ++ more) = .ok n []) ∧
    ∀ calls t ts expected rest, resume calls t ts = .error (.endOfInput expected) rest →
      ∃ more n, resume calls t (ts ++ more) = .ok n [] := by
  suffices h : (∀ calls ts, ∀ expected rest,
      termWithin calls ts = .error (.endOfInput expected) rest →
        ∃ more n, termWithin calls (ts ++ more) = .ok n []) ∧
      ∀ calls t ts, ∀ expected rest, resume calls t ts = .error (.endOfInput expected) rest →
        ∃ more n, resume calls t (ts ++ more) = .ok n [] from h
  refine reading_induction ?nil ?integer ?outOfRange ?name ?callee ?callNone ?callSome ?other
    ?outermost ?unclosed ?comma ?close ?stray
  case nil =>
    intro calls expected rest _
    exact ⟨_, exists_termWithin_closers calls⟩
  case integer =>
    intro calls t ts value ht hvalue ih expected rest h
    rw [termWithin_integer ht hvalue] at h
    obtain ⟨more, n, hn⟩ := ih expected rest h
    exact ⟨more, n, (termWithin_integer ht hvalue).trans hn⟩
  case outOfRange =>
    intro calls t ts ht hvalue expected rest h
    rw [termWithin_outOfRange ht hvalue] at h
    cases h
  case name =>
    intro calls t ts ht hts ih expected rest h
    rw [termWithin_name ht hts] at h
    obtain ⟨more, n, hn⟩ := ih expected rest h
    exact ⟨more, n, (termWithin_name ht (not_startsWith_leftParen_of_resume hn)).trans hn⟩
  case callee =>
    intro calls f o hf ho expected rest _
    obtain ⟨n, hn⟩ := exists_resume_closers calls (.call f.text [])
    exact ⟨filler .rightParen :: closers calls, n, (termWithin_call_none hf ho rfl).trans hn⟩
  case callNone =>
    intro calls f o c ts hf ho hc ih expected rest h
    rw [termWithin_call_none hf ho hc] at h
    obtain ⟨more, n, hn⟩ := ih expected rest h
    exact ⟨more, n, (termWithin_call_none hf ho hc).trans hn⟩
  case callSome =>
    intro calls f o q ts hf ho hq ih expected rest h
    rw [termWithin_call_some hf ho hq] at h
    obtain ⟨more, n, hn⟩ := ih expected rest h
    exact ⟨more, n, (termWithin_call_some hf ho hq).trans hn⟩
  case other =>
    intro calls t ts hinteger hidentifier expected rest h
    rw [termWithin_other hinteger hidentifier] at h
    cases h
  case outermost =>
    intro t ts expected rest h
    rw [resume_outermost] at h
    cases h
  case unclosed =>
    intro c calls t expected rest _
    exact ⟨_, exists_resume_closers (c :: calls) t⟩
  case comma =>
    intro c calls t q ts hq ih expected rest h
    rw [resume_comma hq] at h
    obtain ⟨more, n, hn⟩ := ih expected rest h
    exact ⟨more, n, (resume_comma hq).trans hn⟩
  case close =>
    intro c calls t q ts hq ih expected rest h
    rw [resume_close hq] at h
    obtain ⟨more, n, hn⟩ := ih expected rest h
    exact ⟨more, n, (resume_close hq).trans hn⟩
  case stray =>
    intro c calls t q ts hcomma hclose expected rest h
    rw [resume_other hcomma hclose] at h
    cases h

/-- Tokens that run out within an expression can be completed to one. -/
theorem exists_derives_append (h : Reader.term ts = .error (.endOfInput expected) rest) :
    ∃ more n, Derives (ts ++ more) n := by
  obtain ⟨more, n, hn⟩ := completable_reading.1 [] ts expected rest h
  obtain ⟨p, hp, hn, -⟩ := term_eq_ok_iff.1 hn
  rw [List.append_nil] at hp
  exact ⟨more, n, hp ▸ hn⟩

/-! ## Completing a definition -/

theorem eq_nil_of_take {kind : TokenKind}
    (h : take kind ts = .error (.endOfInput expected) rest) : ts = [] := by
  cases ts with
  | nil => rfl
  | cons t ts =>
    rw [take] at h
    split at h <;> cases h

theorem exists_derivesMoreParams_append
    (h : moreParams ts = .error (.endOfInput expected) rest) :
    ∃ more params, DerivesMoreParams (ts ++ more) params := by
  fun_induction moreParams ts with
  | case1 => cases h
  | case2 c hc => exact ⟨[filler .identifier], _, .more hc rfl .done⟩
  | case3 => cases h
  | case4 c hc p us hp e mid hmid ih =>
    cases h
    obtain ⟨more, params, hmore⟩ := ih hmid
    exact ⟨more, _, .more hc hp hmore⟩
  | case5 => cases h
  | case6 => cases h

theorem exists_derivesParams_append (h : paramNames ts = .error (.endOfInput expected) rest) :
    ∃ more params, DerivesParams (ts ++ more) params := by
  simp only [paramNames, bind_eq_error, check_zero_eq_ok] at h
  rcases h with h | ⟨found, _, ⟨hfound, rfl⟩, h⟩
  · cases h
  cases found with
  | false => cases h
  | true =>
    simp only [if_true, bind_eq_error, take_eq_ok] at h
    rcases h with h | ⟨p, us, ⟨hp, rfl⟩, h | ⟨_, _, _, h⟩⟩
    · rw [eq_nil_of_take h] at hfound
      simp at hfound
    · obtain ⟨more, params, hmore⟩ := exists_derivesMoreParams_append h
      exact ⟨more, _, .some hp hmore⟩
    · cases h

/-- Tokens that run out within a definition can be completed to one. There is a case for each part
    of a definition at which they may run out. -/
theorem exists_derivesDefinition_append
    (h : definition ts = .error (.endOfInput expected) rest) :
    ∃ more n, DerivesDefinition (ts ++ more) n := by
  have hkind : ∀ kind, (filler kind).kind = kind := fun _ => rfl
  have hx : Derives [filler .identifier] (.name "x") := .name rfl
  simp only [definition, bind_eq_error, take_eq_ok, paramNames_eq_ok, term_eq_ok_iff] at h
  rcases h with h | ⟨d, _, ⟨hd, rfl⟩, h | ⟨f, _, ⟨hf, rfl⟩, h | ⟨o, _, ⟨ho, rfl⟩,
    h | ⟨params, _, ⟨ps, rfl, hps, -⟩, h | ⟨c, _, ⟨hc, rfl⟩, h |
      ⟨body, _, ⟨bs, rfl, hbs, -⟩, h | ⟨_, _, _, h⟩⟩⟩⟩⟩⟩⟩
  · obtain rfl := eq_nil_of_take h
    exact ⟨_, _, .intro (hkind .defWord) (hkind .identifier) (hkind .leftParen) .none
      (hkind .rightParen) hx (hkind .endWord)⟩
  · obtain rfl := eq_nil_of_take h
    exact ⟨_, _, .intro hd (hkind .identifier) (hkind .leftParen) .none (hkind .rightParen) hx
      (hkind .endWord)⟩
  · obtain rfl := eq_nil_of_take h
    exact ⟨_, _, .intro hd hf (hkind .leftParen) .none (hkind .rightParen) hx (hkind .endWord)⟩
  · obtain ⟨more, params, hps⟩ := exists_derivesParams_append h
    have hwhole := DerivesDefinition.intro hd hf ho hps (hkind .rightParen) hx (hkind .endWord)
    exact ⟨more ++ [filler .rightParen, filler .identifier, filler .endWord], _,
      by simpa using hwhole⟩
  · obtain rfl := eq_nil_of_take h
    have hwhole := DerivesDefinition.intro hd hf ho hps (hkind .rightParen) hx (hkind .endWord)
    exact ⟨[filler .rightParen, filler .identifier, filler .endWord], _, by simpa using hwhole⟩
  · obtain ⟨more, body, hbs⟩ := exists_derives_append h
    have hwhole := DerivesDefinition.intro hd hf ho hps hc hbs (hkind .endWord)
    exact ⟨more ++ [filler .endWord], _, by simpa using hwhole⟩
  · obtain rfl := eq_nil_of_take h
    have hwhole := DerivesDefinition.intro hd hf ho hps hc hbs (hkind .endWord)
    exact ⟨[filler .endWord], _, by simpa using hwhole⟩
  · cases h

/-! ## Where errors are reported -/

/-- Whether a token list is read. -/
def Accepts (read : List Token → Except ReadError α) (ts : List Token) : Prop :=
  ∃ a, read ts = .ok a

/-- Whether an error blames the token at `k` of the tokens `ts`: reading stopped in front of it, or
    right behind it if it is an integer whose value is out of range. -/
def Blames (ts rest : List Token) (k : Nat) : ReadError → Prop
  | .unexpected _ found position =>
    rest = ts.drop k ∧ ∃ t, ts[k]? = some t ∧ t.kind = found ∧ t.position = position
  | .outOfRange text =>
    rest = ts.drop (k + 1) ∧ ∃ t, ts[k]? = some t ∧ t.kind = .integer ∧ t.text = text ∧
      Numeral.int64? text = none
  | .endOfInput _ => False

/-- Whether an error that leaves `rest` of the tokens `ts` is reported as early as can be. Either
    the tokens are the beginning of an accepted list, and then the error is that they run out; or
    the error blames a token: those in front of it are the beginning of an accepted list, but every
    list that begins with those up to it fails with the same error. -/
structure ReportsEarliest (read : List Token → Except ReadError α) (ts rest : List Token)
    (e : ReadError) : Prop where
  endOfInput_iff : (∃ expected, e = .endOfInput expected) ↔ ∃ more, Accepts read (ts ++ more)
  blames : (∀ expected, e ≠ .endOfInput expected) → ∃ k, Blames ts rest k e ∧
    (∃ more, Accepts read (ts.take k ++ more)) ∧
    ∀ us, ts.take (k + 1) <+: us → read us = .error e

/-- Whether tokens that a reader runs out of can be completed for it. -/
def Completable (reader : Reader α) : Prop :=
  ∀ ts expected rest, reader ts = .error (.endOfInput expected) rest →
    ∃ more, Accepts reader.outcome (ts ++ more)

theorem completable_term : Completable Reader.term := by
  intro ts expected rest h
  obtain ⟨more, n, hn⟩ := exists_derives_append h
  refine ⟨more, n, outcome_eq_ok.2 ⟨[], term_eq_ok_iff.2 ⟨_, by simp, hn, fun _ => ?_⟩⟩⟩
  exact not_startsWith_nil _

theorem completable_wholeDefinition : Completable wholeDefinition := by
  intro ts expected rest h
  simp only [wholeDefinition, bind_eq_error] at h
  rcases h with h | ⟨n, mid, -, h | ⟨_, _, _, h⟩⟩
  · obtain ⟨more, n, hn⟩ := exists_derivesDefinition_append h
    exact ⟨more, n, outcome_eq_ok.2 ⟨[], wholeDefinition_eq_ok_iff.2 ⟨rfl, hn⟩⟩⟩
  · cases mid <;> cases h
  · cases h

/-- An error at a token blames that token, and is the same whatever follows. -/
theorem StopsAt.blames {t : Token} {result : List Token → EStateM.Result ReadError (List Token) α}
    (hstop : StopsAt t result) (h : result ts = .error e rest) (p : List Token) :
    (∀ expected, e ≠ .endOfInput expected) ∧ Blames (p ++ t :: ts) rest p.length e ∧
      ∀ us, ∃ rest', result us = .error e rest' := by
  cases hstop with
  | value a => cases h
  | unexpected expected =>
    cases h
    exact ⟨nofun, ⟨by simp, t, by simp, rfl, rfl⟩, fun us => ⟨_, rfl⟩⟩
  | outOfRange ht hvalue =>
    cases h
    exact ⟨nofun, ⟨by simp, t, by simp, ht, rfl, hvalue⟩, fun us => ⟨_, rfl⟩⟩

/-- No error at a token is also one at a token in front of it. -/
theorem StopsAt.ne {t u : Token}
    {result result' : List Token → EStateM.Result ReadError (List Token) α}
    (hstop : StopsAt t result) (hstop' : StopsAt u result') (h : result ts = .error e rest)
    (p : List Token) : result' (p ++ t :: ts) ≠ result ts := by
  intro heq
  -- more tokens would be left than there are behind the later token
  have hlong : ∀ q us : List Token, q ++ (p ++ t :: us) ≠ us := by
    intro q us hus
    have hlength := congrArg List.length hus
    simp only [List.length_append, List.length_cons] at hlength
    omega
  cases hstop with
  | value a => cases h
  | unexpected expected =>
    cases hstop' with
    | value a => cases heq
    | unexpected expected' =>
      injection heq with _ hrest
      exact hlong [] ts (List.cons.inj hrest).2
    | outOfRange ht hvalue => cases heq
  | outOfRange ht hvalue =>
    cases hstop' with
    | value a => cases heq
    | unexpected expected' => cases heq
    | outOfRange ht' hvalue' =>
      injection heq with _ hrest
      exact hlong [] ts hrest

/-- What precedes the token to blame can be completed. -/
theorem exists_accepts_append {reader : Reader α} (hprompt : Prompt reader)
    (hcomplete : Completable reader) {t : Token} {p : List Token}
    {result : List Token → EStateM.Result ReadError (List Token) α} (hstop : StopsAt t result)
    (hresult : ∀ us, reader (p ++ t :: us) = result us) (h : result ts = .error e rest) :
    ∃ more, Accepts reader.outcome (p ++ more) := by
  rcases hprompt p with (⟨a, ha⟩ | ⟨expected, he⟩) | ⟨p', u, us, result', rfl, hstop', hresult'⟩
  · exact ⟨[], a, outcome_eq_ok.2 ⟨[], by rwa [List.append_nil]⟩⟩
  · exact hcomplete p expected [] he
  · -- reading would have stopped at the earlier token in any case
    have hearly := hresult' (us ++ t :: ts)
    have hlate := hresult ts
    rw [List.append_assoc, List.cons_append] at hlate
    exact absurd (hearly.symm.trans hlate) (hstop.ne hstop' h us)

theorem reportsEarliest {reader : Reader α} (hprompt : Prompt reader)
    (hcomplete : Completable reader) (h : reader ts = .error e rest) :
    ReportsEarliest reader.outcome ts rest e := by
  rcases hprompt ts with (⟨a, ha⟩ | ⟨expected, he⟩) | ⟨p, t, us, result, rfl, hstop, hresult⟩
  · rw [ha] at h
    cases h
  · rw [he] at h
    cases h
    exact ⟨iff_of_true ⟨expected, rfl⟩ (hcomplete ts expected [] he),
      fun hne => absurd rfl (hne expected)⟩
  · rw [hresult] at h
    obtain ⟨hne, hblames, hsame⟩ := hstop.blames h p
    have hall : ∀ vs, p ++ [t] <+: vs → reader.outcome vs = .error e := by
      rintro _ ⟨vs, rfl⟩
      obtain ⟨rest', hrest'⟩ := hsame vs
      rw [List.append_assoc, List.singleton_append, outcome, hresult, hrest']
    refine ⟨iff_of_false (fun ⟨expected, he⟩ => hne expected he) ?_,
      fun _ => ⟨p.length, hblames, ?_, ?_⟩⟩
    · rintro ⟨more, a, ha⟩
      rw [hall _ ⟨us ++ more, by simp⟩] at ha
      cases ha
    · rw [List.take_left]
      exact exists_accepts_append hprompt hcomplete hstop hresult h
    · have htake : (p ++ t :: us).take (p.length + 1) = p ++ [t] := by
        simp [List.take_append, List.take_of_length_le]
      rwa [htake]

/-- **Errors are reported at the earliest token**, of expressions as well as of definitions. -/
theorem errors_reportEarliest (ts : List Token) :
    (∀ e rest, Reader.term ts = .error e rest → ReportsEarliest Term.ofTokens ts rest e) ∧
      ∀ e rest, wholeDefinition ts = .error e rest →
        ReportsEarliest Term.definitionOfTokens ts rest e := by
  constructor
  · intro e rest h
    exact reportsEarliest prompt_term completable_term h
  · intro e rest h
    exact reportsEarliest prompt_wholeDefinition completable_wholeDefinition h

theorem errors_reportEarliest_nested :
    let ts : List Token := [⟨.defWord, "def", ⟨0, 1, 1⟩⟩, ⟨.identifier, "f", ⟨4, 1, 5⟩⟩,
      ⟨.leftParen, "(", ⟨5, 1, 6⟩⟩, ⟨.rightParen, ")", ⟨6, 1, 7⟩⟩, ⟨.identifier, "g", ⟨8, 1, 9⟩⟩,
      ⟨.leftParen, "(", ⟨9, 1, 10⟩⟩, ⟨.identifier, "h", ⟨10, 1, 11⟩⟩,
      ⟨.leftParen, "(", ⟨11, 1, 12⟩⟩, ⟨.integer, "9223372036854775808", ⟨12, 1, 13⟩⟩,
      ⟨.endWord, "end", ⟨32, 1, 33⟩⟩]
    (Reader.term (ts.drop 4 |>.take 4) = .error (.endOfInput (.kind .rightParen)) [] ∧
      ReportsEarliest Term.ofTokens (ts.drop 4 |>.take 4) [] (.endOfInput (.kind .rightParen))) ∧
    wholeDefinition ts = .error (.outOfRange "9223372036854775808") (ts.drop 9) ∧
      ReportsEarliest Term.definitionOfTokens ts (ts.drop 9)
        (.outOfRange "9223372036854775808") := by
  intro ts
  have hterm :
      Reader.term (ts.drop 4 |>.take 4) = .error (.endOfInput (.kind .rightParen)) [] := rfl
  have hdefinition :
      wholeDefinition ts = .error (.outOfRange "9223372036854775808") (ts.drop 9) := rfl
  exact ⟨⟨hterm, (errors_reportEarliest _).1 _ _ hterm⟩, hdefinition,
    (errors_reportEarliest ts).2 _ _ hdefinition⟩

end KeyCombo.Reader
