import KeyCombo.Proofs.Grammar

set_option autoImplicit false

/-! # Reading without places

No reader looks at the position of a token. Moving all tokens to the start of a text changes
nothing about what is read, and of an error only the place that it names. So token lists with the
same lexemes are read alike. -/

namespace KeyCombo

/-! ## Forgetting places -/

/-- A token as if it stood at the start of a text. -/
def Token.unplaced (t : Token) : Token := { t with position := .start }

@[simp] theorem Token.kind_unplaced (t : Token) : t.unplaced.kind = t.kind := rfl

@[simp] theorem Token.text_unplaced (t : Token) : t.unplaced.text = t.text := rfl

/-- A read error as if it occurred at the start of a text. -/
def ReadError.unplaced : ReadError → ReadError
  | .unexpected expected found _ => .unexpected expected found .start
  | e => e

/-- Tokens with the same lexemes differ in their places alone. -/
theorem map_unplaced_eq {ts us : List Token} (h : ts.map Token.lexeme = us.map Token.lexeme) :
    ts.map Token.unplaced = us.map Token.unplaced := by
  have hof : Token.unplaced =
      (fun l : TokenKind × String => ⟨l.1, l.2, .start⟩) ∘ Token.lexeme := rfl
  rw [hof, ← List.map_map, h, List.map_map]

namespace Reader

variable {α β : Type} {g : α → α} {k : β → β}

/-- A result without places. What becomes of the places in the value is given by `g`. -/
def unplace (g : α → α) :
    EStateM.Result ReadError (List Token) α → EStateM.Result ReadError (List Token) α
  | .ok a rest => .ok (g a) (rest.map Token.unplaced)
  | .error e rest => .error e.unplaced (rest.map Token.unplaced)

/-- Whether a reader looks at no place. -/
def Placeless (g : α → α) (reader : Reader α) : Prop :=
  ∀ ts, reader (ts.map Token.unplaced) = unplace g (reader ts)

/-! ## Combining readers -/

theorem Placeless.bind {reader : Reader α} {next : α → Reader β} (hreader : Placeless g reader)
    (hnext : ∀ a, Placeless k (next a)) (hg : ∀ a, next (g a) = next a) :
    Placeless k (reader >>= next) := by
  intro ts
  change EStateM.bind reader next _ = unplace k (EStateM.bind reader next ts)
  unfold EStateM.bind
  rw [hreader ts]
  cases reader ts with
  | ok a rest =>
    simp only [unplace, hg]
    exact hnext a rest
  | error e rest => rfl

theorem Placeless.pure {a : α} (ha : g a = a) : Placeless g (pure a : Reader α) := by
  intro ts
  change EStateM.Result.ok a _ = .ok (g a) _
  rw [ha]

theorem unplaced_missing (expected : Expected) (ts : List Token) :
    ReadError.missing expected (ts.map Token.unplaced) =
      (ReadError.missing expected ts).unplaced := by
  cases ts <;> rfl

theorem Placeless.fail (expected : Expected) : Placeless g (fail expected : Reader α) := by
  intro ts
  rw [Reader.fail, unplaced_missing]
  rfl

/-- The value of a reader that looks at no place hangs on the lexemes alone, and its error but for
    the place. -/
theorem Placeless.outcome_eq {reader : Reader α} (h : Placeless g reader) (hg : ∀ a, g a = a)
    {ts us : List Token} (hts : ts.map Token.lexeme = us.map Token.lexeme) :
    (reader.outcome ts).mapError ReadError.unplaced =
      (reader.outcome us).mapError ReadError.unplaced := by
  have houtcome : ∀ vs, (reader.outcome vs).mapError ReadError.unplaced =
      (reader.outcome (vs.map Token.unplaced)).mapError ReadError.unplaced := by
    intro vs
    unfold outcome
    rw [h vs]
    cases reader vs with
    | ok a rest =>
      simp only [unplace, hg]
    | error e rest => cases e <;> rfl
  rw [houtcome ts, houtcome us, map_unplaced_eq hts]

/-! ## Single readers -/

theorem placeless_take (kind : TokenKind) : Placeless Token.unplaced (take kind) := by
  intro ts
  cases ts with
  | nil => rfl
  | cons t ts =>
    rw [List.map_cons, take, take]
    by_cases ht : t.kind = kind
    · rw [if_pos ht, if_pos (by exact ht)]
      rfl
    · rw [if_neg ht, if_neg (by exact ht)]
      exact Placeless.fail _ (t :: ts)

theorem placeless_check (kind : TokenKind) (offset : Nat) : Placeless id (check kind offset) := by
  intro ts
  rw [check, check, List.getElem?_map]
  cases ts[offset]? <;> rfl

theorem placeless_expectEnd : Placeless id expectEnd := by
  intro ts
  cases ts with
  | nil => rfl
  | cons t ts => exact Placeless.fail _ (t :: ts)

theorem placeless_moreParams : Placeless id moreParams := by
  intro ts
  fun_induction moreParams ts with
  | case1 => rfl
  | case2 c hc =>
    rw [List.map_cons, List.map_nil, moreParams_end (c.kind_unplaced.trans hc)]
    rfl
  | case3 c hc p us hp ps mid hmid ih =>
    rw [List.map_cons, List.map_cons,
      moreParams_name (c.kind_unplaced.trans hc) (p.kind_unplaced.trans hp), ih, hmid]
    rfl
  | case4 c hc p us hp e mid hmid ih =>
    rw [List.map_cons, List.map_cons,
      moreParams_name (c.kind_unplaced.trans hc) (p.kind_unplaced.trans hp), ih, hmid]
    rfl
  | case5 c hc p us hp =>
    rw [List.map_cons, List.map_cons,
      moreParams_other (p := p.unplaced) (c.kind_unplaced.trans hc) hp]
    exact Placeless.fail _ (p :: us)
  | case6 t us ht =>
    rw [List.map_cons, moreParams_done (t := t.unplaced) ht]
    rfl

/-! ## Terms -/

@[simp] theorem startsWith_map_unplaced {kind : TokenKind} {ts : List Token} :
    StartsWith kind (ts.map Token.unplaced) ↔ StartsWith kind ts := by
  cases ts <;> simp

theorem reading_unplaced :
    (∀ calls ts, termWithin calls (ts.map Token.unplaced) = unplace id (termWithin calls ts)) ∧
      ∀ calls t ts, resume calls t (ts.map Token.unplaced) = unplace id (resume calls t ts) := by
  refine reading_induction ?nil ?integer ?outOfRange ?name ?callee ?callNone ?callSome ?other
    ?outermost ?unclosed ?comma ?close ?stray
  case nil =>
    intro calls
    rw [List.map_nil, termWithin_nil]
    rfl
  case integer =>
    intro calls t ts value ht hvalue ih
    rw [List.map_cons, termWithin_integer ht hvalue,
      termWithin_integer (t.kind_unplaced.trans ht) hvalue, ih]
  case outOfRange =>
    intro calls t ts ht hvalue
    rw [List.map_cons, termWithin_outOfRange ht hvalue,
      termWithin_outOfRange (t.kind_unplaced.trans ht) hvalue]
    rfl
  case name =>
    intro calls t ts ht hts ih
    rw [List.map_cons, termWithin_name ht hts,
      termWithin_name (t.kind_unplaced.trans ht) (by simpa using hts), t.text_unplaced, ih]
  case callee =>
    intro calls f o hf ho
    rw [List.map_cons, List.map_cons, List.map_nil, termWithin_callee hf ho,
      termWithin_callee (f.kind_unplaced.trans hf) (o.kind_unplaced.trans ho)]
    rfl
  case callNone =>
    intro calls f o c ts hf ho hc ih
    rw [List.map_cons, List.map_cons, List.map_cons, termWithin_call_none hf ho hc,
      termWithin_call_none (f.kind_unplaced.trans hf) (o.kind_unplaced.trans ho)
        (c.kind_unplaced.trans hc), f.text_unplaced, ih]
  case callSome =>
    intro calls f o q ts hf ho hq ih
    rw [List.map_cons, List.map_cons, List.map_cons, termWithin_call_some hf ho hq,
      termWithin_call_some (f.kind_unplaced.trans hf) (o.kind_unplaced.trans ho)
        (q.kind_unplaced ▸ hq), f.text_unplaced, ← ih, List.map_cons]
  case other =>
    intro calls t ts hinteger hidentifier
    rw [List.map_cons, termWithin_other hinteger hidentifier,
      termWithin_other (t := t.unplaced) hinteger hidentifier]
    rfl
  case outermost =>
    intro t ts
    rw [resume_outermost, resume_outermost]
    rfl
  case unclosed =>
    intro c calls t
    rw [List.map_nil, resume_nil]
    rfl
  case comma =>
    intro c calls t q ts hq ih
    rw [List.map_cons, resume_comma hq, resume_comma (q.kind_unplaced.trans hq), ih]
  case close =>
    intro c calls t q ts hq ih
    rw [List.map_cons, resume_close hq, resume_close (q.kind_unplaced.trans hq), ih]
  case stray =>
    intro c calls t q ts hcomma hclose
    rw [List.map_cons, resume_other hcomma hclose, resume_other (t := q.unplaced) hcomma hclose]
    rfl

theorem placeless_term : Placeless id term := reading_unplaced.1 []

/-! ## Definitions -/

theorem placeless_paramNames : Placeless id paramNames := by
  refine (placeless_check .identifier 0).bind (fun found => ?_) fun _ => rfl
  cases found with
  | true =>
    refine (placeless_take .identifier).bind (fun first => ?_) fun _ => rfl
    exact placeless_moreParams.bind (fun _ => .pure rfl) fun _ => rfl
  | false => exact .pure rfl

theorem placeless_definition : Placeless id definition := by
  refine (placeless_take .defWord).bind (fun _ => ?_) fun _ => rfl
  refine (placeless_take .identifier).bind (fun name => ?_) fun _ => rfl
  refine (placeless_take .leftParen).bind (fun _ => ?_) fun _ => rfl
  refine placeless_paramNames.bind (fun params => ?_) fun _ => rfl
  refine (placeless_take .rightParen).bind (fun _ => ?_) fun _ => rfl
  refine placeless_term.bind (fun body => ?_) fun _ => rfl
  exact (placeless_take .endWord).bind (fun _ => .pure rfl) fun _ => rfl

theorem placeless_wholeDefinition : Placeless id wholeDefinition := by
  refine placeless_definition.bind (fun t => ?_) fun _ => rfl
  exact placeless_expectEnd.bind (fun _ => .pure rfl) fun _ => rfl

end Reader

end KeyCombo
