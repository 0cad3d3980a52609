import KeyCombo.Proofs.Grammar
import KeyCombo.Reader.Step

set_option autoImplicit false

/-! # The cursor of a run

The tokens that are left are those from a cursor on. Over a whole run of steps, also behind steps
that failed, the cursor moves forward alone and stays within the tokens. A term that is read takes
it over as many tokens as the term has, and an error says where it stands.

How readers move the cursor is said once for all of them by `Forward`, which is closed under binds.
How far a successful one moves it follows from the grammar. -/

namespace KeyCombo

/-! ## Token counts -/

namespace Term

mutual

/-- How many tokens a term has. -/
def tokenCount : Term → Nat
  | .integer _ => 1
  | .name _ => 1
  | .call _ args => if args.isEmpty then 3 else 2 + args.length + tokenCountAll args
  | .definition _ params body =>
    5 + tokenCount body + if params.isEmpty then 0 else 2 * params.length - 1

/-- How many tokens several terms have, not counting what stands between them. -/
def tokenCountAll : List Term → Nat
  | [] => 0
  | t :: ts => tokenCount t + tokenCountAll ts

end

end Term

namespace Reader

mutual

theorem Derives.length_eq {ts : List Token} {t : Term} (h : Derives ts t) :
    ts.length = t.tokenCount := by
  cases h with
  | integer => rfl
  | name => rfl
  | @call f o c us args hf ho hargs hc =>
    have hus := hargs.length_eq f.text
    simp only [List.length_cons, List.length_append, List.length_nil]
    omega

theorem DerivesArgs.length_eq {ts : List Token} {args : List Term} (h : DerivesArgs ts args)
    (callee : String) : ts.length + 3 = (Term.call callee args).tokenCount := by
  cases h with
  | none => rfl
  | @some us vs t args ht hargs =>
    have hus := ht.length_eq
    have hvs := hargs.length_eq
    simp only [Term.tokenCount, Term.tokenCountAll, List.isEmpty_cons, List.length_append,
      List.length_cons, Bool.false_eq_true, if_false]
    omega

theorem DerivesMoreArgs.length_eq {ts : List Token} {args : List Term}
    (h : DerivesMoreArgs ts args) : ts.length = args.length + Term.tokenCountAll args := by
  cases h with
  | done => rfl
  | more hc ht hargs =>
    -- each further argument brings the comma in front of it
    have hfirst := ht.length_eq
    have hmore := hargs.length_eq
    simp only [Term.tokenCountAll, List.length_cons, List.length_append]
    omega

end

theorem DerivesMoreParams.length_eq {ts : List Token} {params : List String}
    (h : DerivesMoreParams ts params) : ts.length = 2 * params.length := by
  induction h with
  | done => rfl
  | more _ _ _ ih =>
    simp only [List.length_cons, ih]
    omega

theorem DerivesParams.length_eq {ts : List Token} {params : List String}
    (h : DerivesParams ts params) :
    ts.length = if params.isEmpty then 0 else 2 * params.length - 1 := by
  cases h with
  | none => rfl
  | some _ hparams =>
    have hmore := hparams.length_eq
    simp only [List.isEmpty_cons, List.length_cons, hmore, Bool.false_eq_true, if_false]
    omega

theorem DerivesDefinition.length_eq {ts : List Token} {t : Term} (h : DerivesDefinition ts t) :
    ts.length = t.tokenCount := by
  cases h with
  | intro hd hf ho hparams hc hbody he =>
    have hps := hparams.length_eq
    have hbs := hbody.length_eq
    simp only [Term.tokenCount, List.length_cons, List.length_append, List.length_nil, ← hps]
    omega

/-! ## Where an error says that reading stopped -/

/-- What an error says about the cursor: it is at the unexpected token, at the end, or right behind
    the integer that is out of range. -/
def Locates (tokens : List Token) (cursor : Nat) : ReadError → Prop
  | .unexpected expected found position =>
    expected ≠ .kind found ∧
      ∃ t, tokens[cursor]? = some t ∧ t.kind = found ∧ t.position = position
  | .endOfInput _ => cursor = tokens.length
  | .outOfRange text =>
    ∃ t, 0 < cursor ∧ tokens[cursor - 1]? = some t ∧ t.kind = .integer ∧ t.text = text ∧
      Numeral.int64? text = none

variable {α β : Type} {tokens ts : List Token} {cursor cursor' : Nat}

/-- The tokens that a result leaves. -/
def left : EStateM.Result ReadError (List Token) α → List Token
  | .ok _ rest => rest
  | .error _ rest => rest

/-- Whether a result leaves the tokens from `cursor'` on, which is not in front of `cursor`, and its
    error says so. -/
structure Stops (tokens : List Token) (cursor : Nat)
    (result : EStateM.Result ReadError (List Token) α) (cursor' : Nat) : Prop where
  forward : cursor ≤ cursor'
  bounded : cursor' ≤ tokens.length
  left_eq : left result = tokens.drop cursor'
  located : ∀ e rest, result = .error e rest → Locates tokens cursor' e

namespace Stops

variable {result : EStateM.Result ReadError (List Token) α}

theorem later {start : Nat} (h : Stops tokens cursor result cursor') (hstart : start ≤ cursor) :
    Stops tokens start result cursor' where
  forward := Nat.le_trans hstart h.forward
  bounded := h.bounded
  left_eq := h.left_eq
  located := h.located

/-- The cursor hangs on the tokens that are left and on the error alone. -/
theorem congr {result' : EStateM.Result ReadError (List Token) β}
    (h : Stops tokens cursor result cursor') (hleft : left result' = left result)
    (herror : ∀ e rest, result' = .error e rest → result = .error e rest) :
    Stops tokens cursor result' cursor' where
  forward := h.forward
  bounded := h.bounded
  left_eq := hleft.trans h.left_eq
  located e rest he := h.located e rest (herror e rest he)

/-- The cursor has moved over the tokens that were taken. -/
theorem eq_add {p : List Token} (h : Stops tokens cursor result cursor')
    (hp : tokens.drop cursor = p ++ left result) : cursor' = cursor + p.length := by
  have hlength := congrArg List.length hp
  rw [h.left_eq, List.length_append, List.length_drop, List.length_drop] at hlength
  -- within the tokens, what is left determines the cursor
  have hforward := h.forward
  have hbounded := h.bounded
  omega

end Stops

theorem drop_succ_of_drop_eq_cons {t : Token} (h : tokens.drop cursor = t :: ts) :
    cursor < tokens.length ∧ tokens[cursor]? = some t ∧ tokens.drop (cursor + 1) = ts := by
  have hlt : cursor < tokens.length := by
    have hlength := congrArg List.length h
    rw [List.length_drop, List.length_cons] at hlength
    omega
  rw [List.drop_eq_getElem_cons hlt] at h
  obtain ⟨rfl, rfl⟩ := List.cons.inj h
  exact ⟨hlt, List.getElem?_eq_getElem hlt, rfl⟩

/-! ## Readers that move forward -/

/-- Whether a result stops somewhere, wherever in the tokens it comes from. -/
def Halts (tokens ts : List Token) (result : EStateM.Result ReadError (List Token) α) : Prop :=
  ∀ cursor ≤ tokens.length, tokens.drop cursor = ts → ∃ cursor', Stops tokens cursor result cursor'

theorem Halts.cons {t : Token} {result : EStateM.Result ReadError (List Token) α}
    (h : Halts tokens ts result) : Halts tokens (t :: ts) result := by
  intro cursor _ hts
  obtain ⟨hlt, -, hdrop⟩ := drop_succ_of_drop_eq_cons hts
  obtain ⟨cursor', hstop⟩ := h (cursor + 1) hlt hdrop
  exact ⟨cursor', hstop.later (Nat.le_succ cursor)⟩

theorem Halts.congr {result : EStateM.Result ReadError (List Token) α}
    {result' : EStateM.Result ReadError (List Token) β} (h : Halts tokens ts result)
    (hleft : left result' = left result)
    (herror : ∀ e rest, result' = .error e rest → result = .error e rest) :
    Halts tokens ts result' := by
  intro cursor hcursor hts
  obtain ⟨cursor', hstop⟩ := h cursor hcursor hts
  exact ⟨cursor', hstop.congr hleft herror⟩

theorem halts_ok (tokens ts : List Token) (a : α) : Halts tokens ts (.ok a ts) := by
  intro cursor hcursor hts
  exact ⟨cursor, Nat.le_refl cursor, hcursor, hts.symm, nofun⟩

theorem halts_fail (tokens : List Token) {expected : Expected}
    (hts : ∀ kind, expected = .kind kind → ¬StartsWith kind ts) :
    Halts tokens ts (fail expected ts : EStateM.Result ReadError (List Token) α) := by
  intro cursor hcursor hdrop
  refine ⟨cursor, Nat.le_refl cursor, hcursor, hdrop.symm, ?_⟩
  intro e rest he
  cases he
  cases ts with
  | nil =>
    have hle : tokens.length ≤ cursor := List.drop_eq_nil_iff.1 hdrop
    exact Nat.le_antisymm hcursor hle
  | cons t ts =>
    obtain ⟨-, ht, -⟩ := drop_succ_of_drop_eq_cons hdrop
    exact ⟨fun heq => hts t.kind heq (by simp), t, ht, rfl, rfl⟩

theorem halts_fail_kind (tokens : List Token) {kind : TokenKind} (hts : ¬StartsWith kind ts) :
    Halts tokens ts (fail (.kind kind) ts : EStateM.Result ReadError (List Token) α) := by
  refine halts_fail tokens ?_
  intro kind' hkind
  rwa [← Expected.kind.inj hkind]

/-- Whether a reader moves the cursor forward alone, and its errors locate the cursor. -/
def Forward (reader : Reader α) : Prop := ∀ tokens ts, Halts tokens ts (reader ts)

theorem Forward.bind {reader : Reader α} {next : α → Reader β} (hreader : Forward reader)
    (hnext : ∀ a, Forward (next a)) : Forward (reader >>= next) := by
  intro tokens ts cursor hcursor hts
  obtain ⟨mid, hstop⟩ := hreader tokens ts cursor hcursor hts
  change ∃ cursor', Stops tokens cursor (EStateM.bind reader next ts) cursor'
  unfold EStateM.bind
  cases hresult : reader ts with
  | ok a rest =>
    rw [hresult] at hstop
    obtain ⟨cursor', hstop'⟩ := hnext a tokens rest mid hstop.bounded hstop.left_eq.symm
    exact ⟨cursor', hstop'.later hstop.forward⟩
  | error e rest =>
    rw [hresult] at hstop
    refine ⟨mid, hstop.congr rfl ?_⟩
    intro e' rest' he
    cases he
    rfl

theorem Forward.pure (a : α) : Forward (pure a : Reader α) := by
  intro tokens ts
  exact halts_ok tokens ts a

theorem forward_take (kind : TokenKind) : Forward (take kind) := by
  intro tokens ts
  cases ts with
  | nil => exact halts_fail_kind tokens (not_startsWith_nil _)
  | cons t ts =>
    rw [take]
    by_cases ht : t.kind = kind
    · rw [if_pos ht]
      exact (halts_ok tokens ts t).cons
    · rw [if_neg ht]
      exact halts_fail_kind tokens (by simpa using ht)

theorem forward_check (kind : TokenKind) (offset : Nat) : Forward (check kind offset) := by
  intro tokens ts
  exact halts_ok tokens ts _

theorem forward_expectEnd : Forward expectEnd := by
  intro tokens ts
  cases ts with
  | nil => exact halts_ok tokens [] ()
  | cons t ts => exact halts_fail tokens nofun

/-- What a reader of terms does at each of its steps carries over to its whole run. -/
theorem halts_reading (tokens : List Token) :
    (∀ calls ts, Halts tokens ts (termWithin calls ts)) ∧
      ∀ calls t ts, Halts tokens ts (resume calls t ts) := by
  refine reading_induction ?nil ?integer ?outOfRange ?name ?callee ?callNone ?callSome ?other
    ?outermost ?unclosed ?comma ?close ?stray
  case nil =>
    intro calls
    rw [termWithin_nil]
    exact halts_fail tokens nofun
  case integer =>
    intro calls t ts value ht hvalue ih
    rw [termWithin_integer ht hvalue]
    exact ih.cons
  case outOfRange =>
    intro calls t ts ht hvalue cursor hcursor hts
    obtain ⟨hlt, hget, hdrop⟩ := drop_succ_of_drop_eq_cons hts
    -- the integer has been taken when its value is found to be out of range
    rw [termWithin_outOfRange ht hvalue]
    refine ⟨cursor + 1, Nat.le_succ cursor, hlt, hdrop.symm, ?_⟩
    intro e rest he
    cases he
    exact ⟨t, Nat.succ_pos cursor, hget, ht, rfl, hvalue⟩
  case name =>
    intro calls t ts ht hts ih
    rw [termWithin_name ht hts]
    exact ih.cons
  case callee =>
    intro calls f o hf ho
    rw [termWithin_callee hf ho]
    exact (halts_fail_kind tokens (not_startsWith_nil .rightParen)).cons.cons
  case callNone =>
    intro calls f o c ts hf ho hc ih
    rw [termWithin_call_none hf ho hc]
    exact ih.cons.cons.cons
  case callSome =>
    intro calls f o q ts hf ho hq ih
    rw [termWithin_call_some hf ho hq]
    exact ih.cons.cons
  case other =>
    intro calls t ts hinteger hidentifier
    rw [termWithin_other hinteger hidentifier]
    exact halts_fail_kind tokens (by simpa using hidentifier)
  case outermost =>
    intro t ts
    rw [resume_outermost]
    exact halts_ok tokens ts t
  case unclosed =>
    intro c calls t
    rw [resume_nil]
    exact halts_fail_kind tokens (not_startsWith_nil _)
  case comma =>
    intro c calls t q ts hq ih
    rw [resume_comma hq]
    exact ih.cons
  case close =>
    intro c calls t q ts hq ih
    rw [resume_close hq]
    exact ih.cons
  case stray =>
    intro c calls t q ts hcomma hclose
    rw [resume_other hcomma hclose]
    exact halts_fail_kind tokens (by simpa using hclose)

theorem forward_term : Forward Reader.term := by
  intro tokens ts
  exact (halts_reading tokens).1 [] ts

theorem forward_moreParams : Forward moreParams := by
  intro tokens ts
  fun_induction moreParams ts with
  | case1 => exact halts_ok tokens [] []
  | case2 c hc => exact (halts_fail_kind tokens (not_startsWith_nil _)).cons
  | case3 c hc p us hp ps mid hmid ih =>
    rw [hmid] at ih
    have hmore : Halts tokens us (.ok (p.text :: ps) mid) := by
      refine ih.congr rfl ?_
      intro e rest he
      cases he
    exact hmore.cons.cons
  | case4 c hc p us hp e mid hmid ih =>
    rw [hmid] at ih
    refine (ih.congr rfl ?_).cons.cons
    intro e' rest he
    cases he
    rfl
  | case5 c hc p us hp => exact (halts_fail_kind tokens (by simpa using hp)).cons
  | case6 t us ht => exact halts_ok tokens (t :: us) []

theorem forward_paramNames : Forward paramNames := by
  refine (forward_check .identifier 0).bind fun found => ?_
  cases found with
  | true =>
    refine (forward_take .identifier).bind fun first => ?_
    exact forward_moreParams.bind fun _ => .pure _
  | false => exact .pure _

theorem forward_definition : Forward definition := by
  refine (forward_take .defWord).bind fun _ => ?_
  refine (forward_take .identifier).bind fun name => ?_
  refine (forward_take .leftParen).bind fun _ => ?_
  refine forward_paramNames.bind fun params => ?_
  refine (forward_take .rightParen).bind fun _ => ?_
  refine forward_term.bind fun body => ?_
  exact (forward_take .endWord).bind fun _ => .pure _

/-! ## Single steps -/

/-- Where a step leaves the cursor, given what comes of it. -/
def Step.Ends (tokens : List Token) (cursor cursor' : Nat) :
    Step → EStateM.Result ReadError (List Token) Yield → Prop
  | .peek .., _ | .check .., _ | .expectEnd, .ok .. => cursor' = cursor
  | .take _, .ok .. => cursor' = cursor + 1
  | .term, .ok y _ | .definition, .ok y _ => ∃ t, y = .term t ∧ cursor' = cursor + t.tokenCount
  | .take _, .error e _ | .expectEnd, .error e _ => cursor' = cursor ∧ Locates tokens cursor' e
  | .term, .error e _ | .definition, .error e _ => Locates tokens cursor' e

/-- How one step moves the cursor. -/
structure Move (tokens : List Token) (cursor : Nat) (step : Step)
    (result : EStateM.Result ReadError (List Token) Yield) (cursor' : Nat) : Prop where
  forward : cursor ≤ cursor'
  bounded : cursor' ≤ tokens.length
  left_eq : left result = tokens.drop cursor'
  ends : step.Ends tokens cursor cursor' result

/-- Looking ahead takes nothing, whether or not it fails. -/
theorem left_peek (kind : TokenKind) (offset : Nat) (ts : List Token) :
    left (perform (.peek kind offset) ts) = ts := by
  change left (EStateM.bind (peek kind offset) _ ts) = ts
  unfold EStateM.bind peek
  cases ts[offset]? <;> rfl

/-- A step fails as its reader does. -/
theorem bind_pure_eq_error {reader : Reader α} {f : α → β} {e : ReadError} {rest : List Token} :
    (reader >>= fun a => pure (f a)) ts = .error e rest ↔ reader ts = .error e rest := by
  rw [bind_eq_error]
  refine or_iff_left ?_
  rintro ⟨a, mid, -, h⟩
  cases h

theorem take_eq_error {kind : TokenKind} {e : ReadError} {rest : List Token}
    (h : take kind ts = .error e rest) : ts = rest := by
  cases ts with
  | nil =>
    cases h
    rfl
  | cons t ts =>
    rw [take] at h
    split at h
    · cases h
    · cases h
      rfl

theorem expectEnd_eq_error {e : ReadError} {rest : List Token}
    (h : expectEnd ts = .error e rest) : ts = rest := by
  cases ts with
  | nil => cases h
  | cons t ts =>
    cases h
    rfl

/-- A step stops where its reader does. A successful one has moved over the tokens it took, and a
    failing one stands where its error says. -/
theorem exists_move_of_forward {step : Step} (hcursor : cursor ≤ tokens.length)
    (hforward : Forward (perform step))
    (hok : ∀ y rest, perform step (tokens.drop cursor) = .ok y rest → ∃ p,
      tokens.drop cursor = p ++ rest ∧ step.Ends tokens cursor (cursor + p.length) (.ok y rest))
    (herror : ∀ e rest cursor', perform step (tokens.drop cursor) = .error e rest →
      Locates tokens cursor' e → (tokens.drop cursor = rest → cursor' = cursor) →
        step.Ends tokens cursor cursor' (.error e rest)) :
    ∃ cursor', Move tokens cursor step (perform step (tokens.drop cursor)) cursor' := by
  obtain ⟨cursor', hstop⟩ := hforward tokens _ cursor hcursor rfl
  refine ⟨cursor', hstop.forward, hstop.bounded, hstop.left_eq, ?_⟩
  cases hresult : perform step (tokens.drop cursor) with
  | ok y rest =>
    rw [hresult] at hstop
    obtain ⟨p, hp, hends⟩ := hok y rest hresult
    rw [hstop.eq_add hp]
    exact hends
  | error e rest =>
    rw [hresult] at hstop
    exact herror e rest cursor' hresult (hstop.located e rest rfl) fun h => hstop.eq_add (p := []) h

/-- **One step**: wherever the cursor is, a step moves it as it should. -/
theorem exists_move (step : Step) (hcursor : cursor ≤ tokens.length) :
    ∃ cursor', Move tokens cursor step (perform step (tokens.drop cursor)) cursor' := by
  cases step with
  -- looking ahead may fail far in front of the end, so its error says nothing about the cursor
  | peek kind offset => exact ⟨cursor, Nat.le_refl cursor, hcursor, left_peek kind offset _, rfl⟩
  | check kind offset => exact ⟨cursor, Nat.le_refl cursor, hcursor, rfl, rfl⟩
  | take kind =>
    refine exists_move_of_forward hcursor ((forward_take kind).bind fun _ => .pure _) ?_ ?_
    · intro y rest h
      simp only [perform, bind_eq_ok, take_eq_ok, pure_eq_ok] at h
      obtain ⟨t, _, ⟨-, ht⟩, -, rfl⟩ := h
      exact ⟨[t], ht, rfl⟩
    · intro e rest cursor' h hlocates hstay
      exact ⟨hstay (take_eq_error (bind_pure_eq_error.1 h)), hlocates⟩
  | term =>
    refine exists_move_of_forward hcursor (forward_term.bind fun _ => .pure _) ?_ ?_
    · intro y rest h
      simp only [perform, bind_eq_ok, term_eq_ok_iff, pure_eq_ok] at h
      obtain ⟨t, _, ⟨p, hp, hderives, -⟩, rfl, rfl⟩ := h
      exact ⟨p, hp, t, rfl, by rw [hderives.length_eq]⟩
    · intro e rest cursor' _ hlocates _
      exact hlocates
  | definition =>
    refine exists_move_of_forward hcursor (forward_definition.bind fun _ => .pure _) ?_ ?_
    · intro y rest h
      simp only [perform, bind_eq_ok, definition_eq_ok_iff, pure_eq_ok] at h
      obtain ⟨t, _, ⟨p, hp, hderives⟩, rfl, rfl⟩ := h
      exact ⟨p, hp, t, rfl, by rw [hderives.length_eq]⟩
    · intro e rest cursor' _ hlocates _
      exact hlocates
  | expectEnd =>
    refine exists_move_of_forward hcursor (forward_expectEnd.bind fun _ => .pure _) ?_ ?_
    · intro y rest h
      simp only [perform, bind_eq_ok, expectEnd_eq_ok, pure_eq_ok] at h
      obtain ⟨_, _, ⟨hend, rfl⟩, -, rfl⟩ := h
      exact ⟨[], hend, rfl⟩
    · intro e rest cursor' h hlocates hstay
      exact ⟨hstay (expectEnd_eq_error (bind_pure_eq_error.1 h)), hlocates⟩

/-! ## Whole runs -/

/-- How a run of steps moves the cursor: each step goes on where the one before it ended. -/
inductive Moves (tokens : List Token) :
    Nat → List Step → List (EStateM.Result ReadError (List Token) Yield) → Prop
  | done {cursor : Nat} : Moves tokens cursor [] []
  | step {cursor cursor' : Nat} {step : Step} {steps : List Step}
      {result : EStateM.Result ReadError (List Token) Yield}
      {results : List (EStateM.Result ReadError (List Token) Yield)}
      (hmove : Move tokens cursor step result cursor')
      (hrest : Moves tokens cursor' steps results) :
      Moves tokens cursor (step :: steps) (result :: results)

theorem performAll_cons (step : Step) (steps : List Step) (ts : List Token) :
    performAll (step :: steps) ts =
      perform step ts :: performAll steps (left (perform step ts)) := by
  rw [performAll]
  cases perform step ts <;> rfl

theorem moves_performAll_drop (steps : List Step) (hcursor : cursor ≤ tokens.length) :
    Moves tokens cursor steps (performAll steps (tokens.drop cursor)) := by
  induction steps generalizing cursor with
  | nil => exact .done
  | cons step steps ih =>
    obtain ⟨cursor', hmove⟩ := exists_move step hcursor
    rw [performAll_cons, hmove.left_eq]
    exact .step hmove (ih hmove.bounded)

/-- **The cursor invariant.** Over every run of steps, failing ones included, the cursor moves as
    each single step says. -/
theorem moves_performAll (tokens : List Token) (steps : List Step) :
    Moves tokens 0 steps (performAll steps tokens) :=
  moves_performAll_drop steps (Nat.zero_le tokens.length)

end Reader

end KeyCombo
