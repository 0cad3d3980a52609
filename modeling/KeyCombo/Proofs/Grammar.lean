import KeyCombo.Reader.Definition

set_option autoImplicit false

/-! # The grammar of token lists

```
expr       = integer | identifier | identifier "(" [ expr { "," expr } ] ")"
definition = "def" identifier "(" [ identifier { "," identifier } ] ")" expr "end"
```

The readers accept exactly what this grammar derives. The grammar does not say where an expression
ends within a longer list: the reader takes a call rather than the name in front of its opening
parenthesis, and apart from that there is never a choice.

Completeness (`termWithin_append`) is an induction on derivations, for any open calls and any
tokens behind. Soundness (`termWithin_eq_ok`) is an induction on the number of tokens: what is
read first is split off, and what remains is again a run of `resume`. -/

namespace KeyCombo.Reader

/-! ## Derivations -/

mutual

/-- Tokens that make up an expression. An integer has to be in range. -/
inductive Derives : List Token → Term → Prop
  | integer {t : Token} {value : Int64} (ht : t.kind = .integer)
      (hvalue : Numeral.int64? t.text = some value) : Derives [t] (.integer value)
  | name {t : Token} (ht : t.kind = .identifier) : Derives [t] (.name t.text)
  | call {f o c : Token} {ts : List Token} {args : List Term} (hf : f.kind = .identifier)
      (ho : o.kind = .leftParen) (hargs : DerivesArgs ts args) (hc : c.kind = .rightParen) :
      Derives (f :: o :: (ts ++ [c])) (.call f.text args)

/-- Tokens that make up the arguments of a call, if there are any. -/
inductive DerivesArgs : List Token → List Term → Prop
  | none : DerivesArgs [] []
  | some {ts us : List Token} {t : Term} {args : List Term} (ht : Derives ts t)
      (hargs : DerivesMoreArgs us args) : DerivesArgs (ts ++ us) (t :: args)

/-- Tokens that make up further arguments, each behind a comma. -/
inductive DerivesMoreArgs : List Token → List Term → Prop
  | done : DerivesMoreArgs [] []
  | more {c : Token} {ts us : List Token} {t : Term} {args : List Term} (hc : c.kind = .comma)
      (ht : Derives ts t) (hargs : DerivesMoreArgs us args) :
      DerivesMoreArgs (c :: (ts ++ us)) (t :: args)

end

/-- Tokens that make up further parameters, each behind a comma. -/
inductive DerivesMoreParams : List Token → List String → Prop
  | done : DerivesMoreParams [] []
  | more {c p : Token} {ts : List Token} {params : List String} (hc : c.kind = .comma)
      (hp : p.kind = .identifier) (hparams : DerivesMoreParams ts params) :
      DerivesMoreParams (c :: p :: ts) (p.text :: params)

/-- Tokens that make up the parameters of a definition, if there are any. -/
inductive DerivesParams : List Token → List String → Prop
  | none : DerivesParams [] []
  | some {p : Token} {ts : List Token} {params : List String} (hp : p.kind = .identifier)
      (hparams : DerivesMoreParams ts params) : DerivesParams (p :: ts) (p.text :: params)

/-- Tokens that make up a definition. -/
inductive DerivesDefinition : List Token → Term → Prop
  | intro {d f o c e : Token} {ps bs : List Token} {params : List String} {body : Term}
      (hd : d.kind = .defWord) (hf : f.kind = .identifier) (ho : o.kind = .leftParen)
      (hparams : DerivesParams ps params) (hc : c.kind = .rightParen) (hbody : Derives bs body)
      (he : e.kind = .endWord) :
      DerivesDefinition (d :: f :: o :: (ps ++ c :: (bs ++ [e])))
        (.definition f.text params body)

/-- Whether the first token is there and of a kind. -/
def StartsWith (kind : TokenKind) (ts : List Token) : Prop := ∃ t ∈ ts.head?, t.kind = kind

@[simp] theorem not_startsWith_nil (kind : TokenKind) : ¬StartsWith kind [] := by
  simp [StartsWith]

@[simp] theorem startsWith_cons {kind : TokenKind} {t : Token} {ts : List Token} :
    StartsWith kind (t :: ts) ↔ t.kind = kind := by
  simp [StartsWith]

/-! ## Single steps of reading an expression -/

variable {calls : List OpenCall} {term : Term} {ts rest : List Token}

theorem termWithin_integer {t : Token} {value : Int64} (ht : t.kind = .integer)
    (hvalue : Numeral.int64? t.text = some value) :
    termWithin calls (t :: ts) = resume calls (.integer value) ts := by
  rw [termWithin.eq_def]
  simp only [ht, hvalue]

theorem termWithin_name {t : Token} (ht : t.kind = .identifier)
    (hts : ¬StartsWith .leftParen ts) :
    termWithin calls (t :: ts) = resume calls (.name t.text) ts := by
  rw [termWithin.eq_def]
  cases ts with
  | nil => simp only [ht]
  | cons p ts =>
    rw [startsWith_cons] at hts
    simp only [ht, if_neg hts]

theorem termWithin_call_none {f o c : Token} (hf : f.kind = .identifier)
    (ho : o.kind = .leftParen) (hc : c.kind = .rightParen) :
    termWithin calls (f :: o :: c :: ts) = resume calls (.call f.text []) ts := by
  rw [termWithin.eq_def]
  simp only [hf, ho, hc, if_true]

theorem termWithin_call_some {f o q : Token} (hf : f.kind = .identifier)
    (ho : o.kind = .leftParen) (hq : q.kind ≠ .rightParen) :
    termWithin calls (f :: o :: q :: ts) = termWithin (⟨f.text, []⟩ :: calls) (q :: ts) := by
  rw [termWithin.eq_def]
  simp only [hf, ho, if_neg hq, if_true]

theorem resume_outermost : resume [] term ts = .ok term ts := by
  cases ts <;> rw [resume.eq_def]

theorem resume_comma {c : OpenCall} {t : Token} (ht : t.kind = .comma) :
    resume (c :: calls) term (t :: ts) = termWithin (c.push term :: calls) ts := by
  rw [resume.eq_def]
  simp only [ht, if_true]

theorem resume_close {c : OpenCall} {t : Token} (ht : t.kind = .rightParen) :
    resume (c :: calls) term (t :: ts) = resume calls (c.push term).close ts := by
  rw [resume.eq_def]
  simp [ht]

theorem termWithin_outOfRange {t : Token} (ht : t.kind = .integer)
    (hvalue : Numeral.int64? t.text = none) :
    termWithin calls (t :: ts) = .error (.outOfRange t.text) ts := by
  rw [termWithin.eq_def]
  simp only [ht, hvalue]

theorem termWithin_callee {f o : Token} (hf : f.kind = .identifier) (ho : o.kind = .leftParen) :
    termWithin calls [f, o] = .error (.endOfInput (.kind .rightParen)) [] := by
  rw [termWithin.eq_def]
  simp only [hf, ho, if_true]
  rfl

theorem termWithin_other {t : Token} (hinteger : t.kind ≠ .integer)
    (hidentifier : t.kind ≠ .identifier) : termWithin calls (t :: ts) =
      .error (.unexpected (.kind .identifier) t.kind t.position) (t :: ts) := by
  rw [termWithin.eq_def]
  cases ht : t.kind <;> simp_all [fail, ReadError.missing]

theorem resume_other {c : OpenCall} {t : Token} (hcomma : t.kind ≠ .comma)
    (hclose : t.kind ≠ .rightParen) : resume (c :: calls) term (t :: ts) =
      .error (.unexpected (.kind .rightParen) t.kind t.position) (t :: ts) := by
  rw [resume.eq_def]
  simp only [if_neg hcomma, if_neg hclose]
  rfl

/-- Induction along a run of the reader of expressions, with a case for each of its steps. What is
    to be shown may differ between reading an expression (`P`) and reading on behind one (`Q`). -/
theorem reading_induction {P : List OpenCall → List Token → Prop}
    {Q : List OpenCall → Term → List Token → Prop}
    (nil : ∀ calls, P calls [])
    (integer : ∀ calls (t : Token) ts value, t.kind = .integer →
      Numeral.int64? t.text = some value → Q calls (.integer value) ts → P calls (t :: ts))
    (outOfRange : ∀ calls (t : Token) ts, t.kind = .integer → Numeral.int64? t.text = none →
      P calls (t :: ts))
    (name : ∀ calls (t : Token) ts, t.kind = .identifier → ¬StartsWith .leftParen ts →
      Q calls (.name t.text) ts → P calls (t :: ts))
    (callee : ∀ calls (f o : Token), f.kind = .identifier → o.kind = .leftParen → P calls [f, o])
    (callNone : ∀ calls (f o c : Token) ts, f.kind = .identifier → o.kind = .leftParen →
      c.kind = .rightParen → Q calls (.call f.text []) ts → P calls (f :: o :: c :: ts))
    (callSome : ∀ calls (f o q : Token) ts, f.kind = .identifier → o.kind = .leftParen →
      q.kind ≠ .rightParen → P (⟨f.text, []⟩ :: calls) (q :: ts) → P calls (f :: o :: q :: ts))
    (other : ∀ calls (t : Token) ts, t.kind ≠ .integer → t.kind ≠ .identifier → P calls (t :: ts))
    (outermost : ∀ term ts, Q [] term ts)
    (unclosed : ∀ c calls term, Q (c :: calls) term [])
    (comma : ∀ (c : OpenCall) calls term (t : Token) ts, t.kind = .comma →
      P (c.push term :: calls) ts → Q (c :: calls) term (t :: ts))
    (close : ∀ (c : OpenCall) calls term (t : Token) ts, t.kind = .rightParen →
      Q calls (c.push term).close ts → Q (c :: calls) term (t :: ts))
    (stray : ∀ c calls term (t : Token) ts, t.kind ≠ .comma → t.kind ≠ .rightParen →
      Q (c :: calls) term (t :: ts)) :
    (∀ calls ts, P calls ts) ∧ ∀ calls term ts, Q calls term ts := by
  refine termWithin.mutual_induct P Q nil ?_ outOfRange ?_ ?_ ?_ ?_ ?_ other ?_ ?_ ?_ ?_ ?_ ?_
  · exact fun calls t ts ht value hvalue h => integer calls t ts value ht hvalue h
  · exact fun calls t ht h => name calls t [] ht (by simp) h
  · exact fun calls f hf o ho => callee calls f o hf ho
  · exact fun calls f hf o ho c ts hc h => callNone calls f o c ts hf ho hc h
  · exact fun calls f hf o ho q ts hq h => callSome calls f o q ts hf ho hq h
  · exact fun calls t ht p ts hp h => name calls t (p :: ts) ht (by simpa using hp) h
  · exact fun term => outermost term []
  · exact fun term c calls => unclosed c calls term
  · exact fun term t ts => outermost term (t :: ts)
  · exact fun term t ts c calls ht h => comma c calls term t ts ht h
  · exact fun term t ts c calls _ ht h => close c calls term t ts ht h
  · exact fun term t ts c calls hcomma hclose => stray c calls term t ts hcomma hclose

/-! ## Completeness for expressions -/

/-- Behind an argument stands a comma or the closing parenthesis. -/
theorem DerivesMoreArgs.not_startsWith_leftParen {us : List Token} {args : List Term} {q : Token}
    (h : DerivesMoreArgs us args) (hq : q.kind = .rightParen) (rest : List Token) :
    ¬StartsWith .leftParen (us ++ q :: rest) := by
  cases h with
  | done => simp [hq]
  | more hc => simp [hc]

/-- An expression starts neither with a comma nor with a parenthesis. -/
theorem Derives.exists_cons (h : Derives ts term) :
    ∃ t us, ts = t :: us ∧ (t.kind = .integer ∨ t.kind = .identifier) := by
  cases h with
  | integer ht => exact ⟨_, _, rfl, Or.inl ht⟩
  | name ht => exact ⟨_, _, rfl, Or.inr ht⟩
  | call hf => exact ⟨_, _, rfl, Or.inr hf⟩

mutual

/-- What derives an expression is read as one, unless an opening parenthesis behind a name makes
    that a callee. -/
theorem termWithin_append {ts rest : List Token} {t : Term} (calls : List OpenCall)
    (h : Derives ts t) (hrest : t.form = .name → ¬StartsWith .leftParen rest) :
    termWithin calls (ts ++ rest) = resume calls t rest := by
  cases h with
  | integer ht hvalue => exact termWithin_integer ht hvalue
  | name ht => exact termWithin_name ht (hrest rfl)
  | @call f o c us args hf ho hargs hc =>
    simp only [List.cons_append, List.append_assoc, List.nil_append]
    exact termWithin_args_append calls hargs hf ho hc

theorem termWithin_args_append {f o q : Token} {us rest : List Token} {args : List Term}
    (calls : List OpenCall) (h : DerivesArgs us args) (hf : f.kind = .identifier)
    (ho : o.kind = .leftParen) (hq : q.kind = .rightParen) :
    termWithin calls (f :: o :: (us ++ q :: rest)) = resume calls (.call f.text args) rest := by
  cases h with
  | none => exact termWithin_call_none hf ho hq
  | @some ts vs t args ht hargs =>
    obtain ⟨x, xs, rfl, hx⟩ := ht.exists_cons
    have hx' : x.kind ≠ .rightParen := by
      rcases hx with hx | hx <;> simp [hx]
    have hfirst := termWithin_append (⟨f.text, []⟩ :: calls) ht
      fun _ => hargs.not_startsWith_leftParen hq rest
    simp only [List.cons_append, List.append_assoc] at hfirst ⊢
    rw [termWithin_call_some hf ho hx', hfirst, resume_args_append calls hargs hq]
    rfl

theorem resume_args_append {c : OpenCall} {q : Token} {us rest : List Token} {args : List Term}
    {t : Term} (calls : List OpenCall) (h : DerivesMoreArgs us args)
    (hq : q.kind = .rightParen) :
    resume (c :: calls) t (us ++ q :: rest) =
      resume calls (.call c.callee (c.args.reverse ++ t :: args)) rest := by
  cases h with
  | done =>
    rw [List.nil_append, resume_close hq, OpenCall.close, OpenCall.push, List.reverse_cons]
  | @more comma ts vs t' args hcomma ht hargs =>
    have hnext := termWithin_append (c.push t :: calls) ht
      fun _ => hargs.not_startsWith_leftParen hq rest
    simp only [List.cons_append, List.append_assoc]
    rw [resume_comma hcomma, hnext, resume_args_append calls hargs hq]
    simp [OpenCall.push]

end

/-! ## Soundness for expressions -/

theorem termWithin_eq_ok {n : Term} (h : termWithin calls ts = .ok n rest) :
    (∃ t us value, ts = t :: us ∧ t.kind = .integer ∧ Numeral.int64? t.text = some value ∧
      resume calls (.integer value) us = .ok n rest) ∨
    (∃ t us, ts = t :: us ∧ t.kind = .identifier ∧ ¬StartsWith .leftParen us ∧
      resume calls (.name t.text) us = .ok n rest) ∨
    (∃ f o c us, ts = f :: o :: c :: us ∧ f.kind = .identifier ∧ o.kind = .leftParen ∧
      c.kind = .rightParen ∧ resume calls (.call f.text []) us = .ok n rest) ∨
    ∃ f o us, ts = f :: o :: us ∧ f.kind = .identifier ∧ o.kind = .leftParen ∧
      termWithin (⟨f.text, []⟩ :: calls) us = .ok n rest := by
  cases ts with
  | nil => simp [termWithin, fail] at h
  | cons t us =>
    rw [termWithin.eq_def] at h
    dsimp only at h
    split at h
    · rename_i ht
      split at h
      · rename_i value hvalue
        exact Or.inl ⟨t, us, value, rfl, ht, hvalue, h⟩
      · cases h
    · rename_i ht
      split at h
      · exact Or.inr (Or.inl ⟨t, [], rfl, ht, by simp, h⟩)
      · rename_i o us
        split at h
        · rename_i ho
          split at h
          · cases h
          · rename_i q us
            split at h
            · rename_i hq
              exact Or.inr (Or.inr (Or.inl ⟨t, o, q, us, rfl, ht, ho, hq, h⟩))
            · exact Or.inr (Or.inr (Or.inr ⟨t, o, q :: us, rfl, ht, ho, h⟩))
        · rename_i ho
          exact Or.inr (Or.inl ⟨t, o :: us, rfl, ht, by simpa using ho, h⟩)
    · cases h

theorem resume_eq_ok {c : OpenCall} {t n : Term} (h : resume (c :: calls) t ts = .ok n rest) :
    ∃ q us, ts = q :: us ∧
      ((q.kind = .comma ∧ termWithin (c.push t :: calls) us = .ok n rest) ∨
        (q.kind = .rightParen ∧ resume calls (c.push t).close us = .ok n rest)) := by
  cases ts with
  | nil => simp [resume, fail] at h
  | cons q us =>
    rw [resume.eq_def] at h
    dsimp only at h
    split at h
    · exact ⟨q, us, rfl, Or.inl ⟨‹_›, h⟩⟩
    split at h
    · exact ⟨q, us, rfl, Or.inr ⟨‹_›, h⟩⟩
    · cases h

/-- What reading an expression within open calls comes to: an expression is split off, and
    reading is resumed behind it. -/
def SplitsTerm (calls : List OpenCall) (ts : List Token) (n : Term) (rest : List Token) : Prop :=
  ∃ p t mid, ts = p ++ mid ∧ Derives p t ∧ (t.form = .name → ¬StartsWith .leftParen mid) ∧
    resume calls t mid = .ok n rest

/-- What resuming behind an argument of a call comes to: the other arguments are split off, and
    reading is resumed behind the call. -/
def SplitsArgs (c : OpenCall) (calls : List OpenCall) (t : Term) (ts : List Token) (n : Term)
    (rest : List Token) : Prop :=
  ∃ us q mid args, ts = us ++ q :: mid ∧ DerivesMoreArgs us args ∧ q.kind = .rightParen ∧
    resume calls (.call c.callee (c.args.reverse ++ t :: args)) mid = .ok n rest

/-- Both ways to read on split their tokens, for all lists of fewer than `k` tokens. -/
theorem splits (k : Nat) :
    (∀ calls ts n rest, ts.length < k → termWithin calls ts = .ok n rest →
      SplitsTerm calls ts n rest) ∧
    ∀ c calls t ts n rest, ts.length < k → resume (c :: calls) t ts = .ok n rest →
      SplitsArgs c calls t ts n rest := by
  induction k with
  | zero => exact ⟨fun _ _ _ _ h => absurd h (by simp), fun _ _ _ _ _ _ h => absurd h (by simp)⟩
  | succ k ih =>
    obtain ⟨ihterm, ihargs⟩ := ih
    -- within a call, the next argument is split off, then the others
    have hnext : ∀ c calls ts n rest, ts.length < k → termWithin (c :: calls) ts = .ok n rest →
        ∃ p t us, Derives p t ∧ ∃ q mid args, ts = p ++ us ++ q :: mid ∧ DerivesMoreArgs us args ∧
          q.kind = .rightParen ∧
          resume calls (.call c.callee (c.args.reverse ++ t :: args)) mid = .ok n rest := by
      intro c calls ts n rest hlen h
      obtain ⟨p, t, mid, rfl, hp, -, h⟩ := ihterm _ _ _ _ hlen h
      rw [List.length_append] at hlen
      obtain ⟨us, q, mid, args, rfl, hus, hq, h⟩ := ihargs _ _ _ _ _ _ (by omega) h
      exact ⟨p, t, us, hp, q, mid, args, by simp, hus, hq, h⟩
    constructor
    · intro calls ts n rest hlen h
      rcases termWithin_eq_ok h with ⟨t, us, value, rfl, ht, hvalue, h⟩ | ⟨t, us, rfl, ht, hus, h⟩ |
        ⟨f, o, c, us, rfl, hf, ho, hc, h⟩ | ⟨f, o, us, rfl, hf, ho, h⟩
      · exact ⟨[t], _, us, rfl, .integer ht hvalue, nofun, h⟩
      · exact ⟨[t], _, us, rfl, .name ht, fun _ => hus, h⟩
      · exact ⟨[f, o, c], _, us, rfl, .call hf ho .none hc, nofun, h⟩
      · simp only [List.length_cons] at hlen
        obtain ⟨p, t, us, hp, q, mid, args, rfl, hus, hq, h⟩ := hnext _ _ _ _ _ (by omega) h
        refine ⟨f :: o :: (p ++ us ++ [q]), .call f.text (t :: args), mid, by simp, ?_, nofun, h⟩
        exact .call hf ho (.some hp hus) hq
    · intro c calls t ts n rest hlen h
      obtain ⟨q, us, rfl, ⟨hq, h⟩ | ⟨hq, h⟩⟩ := resume_eq_ok h
      · simp only [List.length_cons] at hlen
        obtain ⟨p, t', us, hp, q', mid, args, rfl, hus, hq', h⟩ := hnext _ _ _ _ _ (by omega) h
        refine ⟨q :: (p ++ us), q', mid, t' :: args, by simp, .more hq hp hus, hq', ?_⟩
        simpa [OpenCall.push] using h
      · refine ⟨[], q, us, [], rfl, .done, hq, ?_⟩
        simpa [OpenCall.push, OpenCall.close] using h

/-- **The reader of expressions accepts what the grammar derives.** -/
theorem term_eq_ok_iff {n : Term} : Reader.term ts = .ok n rest ↔
    ∃ p, ts = p ++ rest ∧ Derives p n ∧ (n.form = .name → ¬StartsWith .leftParen rest) := by
  constructor
  · intro h
    obtain ⟨p, t, mid, rfl, hp, hmid, h⟩ := (splits (ts.length + 1)).1 [] ts n rest (by omega) h
    rw [resume_outermost] at h
    cases h
    exact ⟨p, rfl, hp, hmid⟩
  · rintro ⟨p, rfl, hp, hrest⟩
    rw [Reader.term, termWithin_append [] hp hrest, resume_outermost]

/-! ## Definitions -/

theorem bind_eq_ok {α β : Type} {x : Reader α} {f : α → Reader β} {b : β} :
    (x >>= f) ts = .ok b rest ↔ ∃ a mid, x ts = .ok a mid ∧ f a mid = .ok b rest := by
  change EStateM.bind x f ts = _ ↔ _
  unfold EStateM.bind
  cases x ts with
  | ok a mid => simp [and_assoc]
  | error e mid => simp

theorem bind_eq_error {α β : Type} {x : Reader α} {f : α → Reader β} {e : ReadError} :
    (x >>= f) ts = .error e rest ↔
      x ts = .error e rest ∨ ∃ a mid, x ts = .ok a mid ∧ f a mid = .error e rest := by
  change EStateM.bind x f ts = _ ↔ _
  unfold EStateM.bind
  cases x ts with
  | ok a mid => simp [and_assoc]
  | error e' mid => simp

theorem pure_eq_ok {α : Type} {a b : α} :
    (pure a : Reader α) ts = .ok b rest ↔ b = a ∧ ts = rest := by
  change EStateM.Result.ok a ts = .ok b rest ↔ _
  simp [eq_comm]

theorem take_eq_ok {kind : TokenKind} {t : Token} :
    take kind ts = .ok t rest ↔ t.kind = kind ∧ ts = t :: rest := by
  cases ts with
  | nil => simp [take, fail]
  | cons u us =>
    rw [take]
    split
    · constructor
      · intro h
        cases h
        exact ⟨‹_›, rfl⟩
      · rintro ⟨-, h⟩
        cases h
        rfl
    · rename_i hu
      constructor
      · intro h
        cases h
      · rintro ⟨ht, h⟩
        cases h
        exact absurd ht hu

theorem expectEnd_eq_ok {u : Unit} : expectEnd ts = .ok u rest ↔ ts = [] ∧ rest = [] := by
  cases ts <;> simp [expectEnd, fail, eq_comm]

theorem check_zero_eq_ok {kind : TokenKind} {b : Bool} :
    check kind 0 ts = .ok b rest ↔ (b = true ↔ StartsWith kind ts) ∧ ts = rest := by
  cases ts with
  | nil => cases b <;> simp [check]
  | cons t ts => cases b <;> simp [check]

theorem moreParams_end {c : Token} (hc : c.kind = .comma) :
    moreParams [c] = fail (.kind .identifier) [] := by
  rw [moreParams.eq_def]
  simp only [hc, if_true]

theorem moreParams_name {c p : Token} (hc : c.kind = .comma) (hp : p.kind = .identifier) :
    moreParams (c :: p :: ts) =
      match moreParams ts with
      | .ok ps rest => .ok (p.text :: ps) rest
      | .error e rest => .error e rest := by
  rw [moreParams.eq_def]
  cases hts : moreParams ts <;> simp only [hc, hp, hts, if_true]

theorem moreParams_other {c p : Token} (hc : c.kind = .comma) (hp : p.kind ≠ .identifier) :
    moreParams (c :: p :: ts) = fail (.kind .identifier) (p :: ts) := by
  rw [moreParams.eq_def]
  simp only [hc, if_neg hp, if_true]

theorem moreParams_done {t : Token} (ht : t.kind ≠ .comma) :
    moreParams (t :: ts) = .ok [] (t :: ts) := by
  rw [moreParams.eq_def]
  simp only [if_neg ht]

theorem moreParams_eq_ok {params : List String} : moreParams ts = .ok params rest ↔
    ∃ p, ts = p ++ rest ∧ DerivesMoreParams p params ∧ ¬StartsWith .comma rest := by
  constructor
  · intro h
    fun_induction moreParams ts generalizing params with
    | case1 =>
      cases h
      exact ⟨[], rfl, .done, by simp⟩
    | case2 => cases h
    | case3 c hc p us hp ps mid hmid ih =>
      cases h
      obtain ⟨vs, rfl, hvs, hrest⟩ := ih hmid
      exact ⟨c :: p :: vs, rfl, .more hc hp hvs, hrest⟩
    | case4 => cases h
    | case5 => cases h
    | case6 t us ht =>
      cases h
      exact ⟨[], rfl, .done, by simpa using ht⟩
  · rintro ⟨p, rfl, hp, hrest⟩
    induction hp with
    | done =>
      cases rest with
      | nil => rfl
      | cons t us =>
        rw [startsWith_cons] at hrest
        rw [List.nil_append, moreParams.eq_def]
        simp only [if_neg hrest]
    | more hc hp _ ih =>
      rw [List.cons_append, List.cons_append, moreParams.eq_def]
      simp only [hc, hp, ih, if_true]

/-- The reader of parameters stops at the first token that cannot continue them. -/
theorem paramNames_eq_ok {params : List String} : paramNames ts = .ok params rest ↔
    ∃ p, ts = p ++ rest ∧ DerivesParams p params ∧
      if params = [] then ¬StartsWith .identifier rest else ¬StartsWith .comma rest := by
  simp only [paramNames, bind_eq_ok, check_zero_eq_ok]
  constructor
  · rintro ⟨b, _, ⟨hb, rfl⟩, h⟩
    cases b with
    | true =>
      simp only [if_true, bind_eq_ok, take_eq_ok, moreParams_eq_ok, pure_eq_ok] at h
      obtain ⟨p, _, ⟨hp, rfl⟩, others, _, ⟨us, rfl, hus, hrest⟩, rfl, rfl⟩ := h
      exact ⟨p :: us, rfl, .some hp hus, by simpa using hrest⟩
    | false =>
      obtain ⟨rfl, rfl⟩ := pure_eq_ok.1 h
      exact ⟨[], rfl, .none, by simpa using hb⟩
  · rintro ⟨_, rfl, hp, hrest⟩
    cases hp with
    | none => exact ⟨false, rest, ⟨by simpa using hrest, rfl⟩, pure_eq_ok.2 ⟨rfl, rfl⟩⟩
    | @some p us params hp hus =>
      refine ⟨true, _, ⟨by simpa using hp, rfl⟩, ?_⟩
      simp only [if_true, bind_eq_ok, take_eq_ok, moreParams_eq_ok, pure_eq_ok]
      exact ⟨p, _, ⟨hp, rfl⟩, params, rest, ⟨us, rfl, hus, by simpa using hrest⟩, rfl, rfl⟩

/-- **The reader of definitions accepts what the grammar derives.** -/
theorem definition_eq_ok_iff {n : Term} : definition ts = .ok n rest ↔
    ∃ p, ts = p ++ rest ∧ DerivesDefinition p n := by
  simp only [definition, bind_eq_ok, take_eq_ok, paramNames_eq_ok, term_eq_ok_iff, pure_eq_ok]
  constructor
  · rintro ⟨d, _, ⟨hd, rfl⟩, f, _, ⟨hf, rfl⟩, o, _, ⟨ho, rfl⟩, params, _, ⟨ps, rfl, hps, -⟩, c, _,
      ⟨hc, rfl⟩, body, _, ⟨bs, rfl, hbs, -⟩, e, _, ⟨he, rfl⟩, rfl, rfl⟩
    exact ⟨_, by simp, .intro hd hf ho hps hc hbs he⟩
  · rintro ⟨_, rfl, hp⟩
    cases hp with
    | @intro d f o c e ps bs params body hd hf ho hps hc hbs he =>
      refine ⟨d, _, ⟨hd, rfl⟩, f, _, ⟨hf, rfl⟩, o, _, ⟨ho, rfl⟩, params,
        c :: (bs ++ e :: rest), ⟨ps, by simp, hps, ?_⟩, c, _, ⟨hc, rfl⟩, body, e :: rest,
        ⟨bs, rfl, hbs, by simp [he]⟩, e, _, ⟨he, rfl⟩, rfl, rfl⟩
      split <;> simp [hc]

theorem wholeDefinition_eq_ok_iff {n : Term} : wholeDefinition ts = .ok n rest ↔
    rest = [] ∧ DerivesDefinition ts n := by
  simp only [wholeDefinition, bind_eq_ok, definition_eq_ok_iff, expectEnd_eq_ok, pure_eq_ok]
  constructor
  · rintro ⟨_, _, ⟨p, rfl, hp⟩, _, _, ⟨rfl, rfl⟩, rfl, rfl⟩
    exact ⟨rfl, by simpa using hp⟩
  · rintro ⟨rfl, hts⟩
    exact ⟨n, [], ⟨ts, by simp, hts⟩, (), [], ⟨rfl, rfl⟩, rfl, rfl⟩

/-! ## What is accepted -/

theorem outcome_eq_ok {α : Type} {reader : Reader α} {a : α} :
    reader.outcome ts = .ok a ↔ ∃ rest, reader ts = .ok a rest := by
  unfold outcome
  cases reader ts <;> simp

/-- **Reading accepts exactly the grammar**: a definition has to be derived by all tokens, an
    expression by those at the front. -/
theorem accepts_iff_derives (ts : List Token) (n : Term) :
    (Term.definitionOfTokens ts = .ok n ↔ DerivesDefinition ts n) ∧
      (Term.ofTokens ts = .ok n ↔ ∃ p rest, ts = p ++ rest ∧ Derives p n ∧
        (n.form = .name → ¬StartsWith .leftParen rest)) := by
  constructor
  · rw [Term.definitionOfTokens, outcome_eq_ok]
    simp only [wholeDefinition_eq_ok_iff, exists_eq_left]
  · rw [Term.ofTokens, outcome_eq_ok]
    simp only [term_eq_ok_iff]
    exact exists_comm

end KeyCombo.Reader
