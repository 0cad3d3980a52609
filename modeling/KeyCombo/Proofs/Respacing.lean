import KeyCombo.Proofs.Placeless
import KeyCombo.Proofs.RoundTrip
import Mathlib

set_option autoImplicit false

/-! # Respacing a source

What stands between the tokens of a source is layout. The gaps can be chosen anew, of any blank
characters and any length, as long as no two words are glued together. The new source has the old
lexemes (`scansTo_respaced`), and since no reader looks at places, it is read as the old one is. -/

namespace KeyCombo

open Text Token Reader

/-! ## Gaps -/

/-- Whether the tokens of a kind are words. -/
def TokenKind.isWord : TokenKind → Bool
  | .defWord | .endWord | .identifier | .integer => true
  | .leftParen | .comma | .rightParen => false

/-- The text that has `gap i` in front of the token at `i`, and one more gap at its end. -/
def respaced (gap : Nat → String) : List Token → String
  | [] => gap 0
  | t :: ts => gap 0 ++ t.text ++ respaced (fun i => gap (i + 1)) ts

/-- Gaps that keep tokens apart: they are blank, and not empty between two words. -/
structure Separates (gap : Nat → String) (ts : List Token) : Prop where
  blank : ∀ i ≤ ts.length, ∀ c ∈ (gap i).toList, isSkip c = true
  apart : ∀ (i : Nat) (t u : Token), ts[i]? = some t → ts[i + 1]? = some u →
    t.kind.isWord = true → u.kind.isWord = true → gap (i + 1) ≠ ""

theorem Separates.tail {gap : Nat → String} {t : Token} {ts : List Token}
    (h : Separates gap (t :: ts)) : Separates (fun i => gap (i + 1)) ts where
  blank i hi := h.blank (i + 1) (by simpa using hi)
  apart i v u hv hu := h.apart (i + 1) v u (by simpa using hv) (by simpa using hu)

/-! ## Scanning respaced text -/

/-- No character of a token that is no word stands in a word. -/
theorem not_isWordChar_of_isOfKind {p : List Char} {kind : TokenKind} (h : IsOfKind p kind)
    (hkind : kind.isWord = false) : ∀ c ∈ p, isWordChar c = false := by
  have hmark : ∀ d : Char, isWordChar d = false → p = [d] → ∀ c ∈ p, isWordChar c = false := by
    intro d hd hp c hc
    obtain rfl : c = d := by simpa [hp] using hc
    exact hd
  cases kind with
  | leftParen => exact hmark '(' (by decide) h
  | comma => exact hmark ',' (by decide) h
  | rightParen => exact hmark ')' (by decide) h
  | _ => cases hkind

/-- Respaced text starts with a blank character, or right with its first token. -/
theorem mem_head?_respaced {gap : Nat → String} {ts : List Token} {d : Char} (hts : Faithful ts)
    (hgap : Separates gap ts) (hd : d ∈ (respaced gap ts).toList.head?) :
    isSkip d = true ∨ gap 0 = "" ∧ ∃ u us, ts = u :: us ∧ d ∈ u.text.toList := by
  by_cases hempty : gap 0 = ""
  · cases ts with
    | nil => simp [respaced, hempty] at hd
    | cons u us =>
      have hne : u.text.toList ≠ [] := (judge_of_isOfKind (hts u List.mem_cons_self)).1.ne_nil
      rw [respaced, hempty, String.empty_append, String.toList_append,
        List.head?_append_of_ne_nil _ hne] at hd
      exact Or.inr ⟨hempty, u, us, rfl, List.mem_of_mem_head? hd⟩
  · have hne : (gap 0).toList ≠ [] := by simpa using hempty
    have hd' : d ∈ (gap 0).toList.head? := by
      cases ts <;> simpa [respaced, List.head?_append_of_ne_nil _ hne] using hd
    exact Or.inl (hgap.blank 0 (Nat.zero_le _) d (List.mem_of_mem_head? hd'))

/-- No word goes on from a token into the text behind it. -/
theorem cutsNoWord_respaced {gap : Nat → String} {t : Token} {ts : List Token}
    (hts : Faithful (t :: ts)) (hgap : Separates gap (t :: ts)) :
    CutsNoWord t.text.toList (respaced (fun i => gap (i + 1)) ts).toList := by
  have hrest : Faithful ts := fun u hu => hts u (List.mem_cons_of_mem t hu)
  intro c hc d hd hw
  obtain ⟨hcw, hdw⟩ := hw
  rcases mem_head?_respaced hrest hgap.tail hd with hskip | ⟨hempty, u, us, rfl, hdu⟩
  · rw [not_isWordChar_of_isSkip hskip] at hdw
    cases hdw
  · -- nothing stands between the two tokens, and both of them are words
    have hword : ∀ (v : Token) (e : Char), v ∈ t :: u :: us → e ∈ v.text.toList →
        isWordChar e = true → v.kind.isWord = true := by
      intro v e hv he hew
      by_contra hkind
      rw [not_isWordChar_of_isOfKind (hts v hv) (by simpa using hkind) e he] at hew
      cases hew
    have ht := hword t c (by simp) (List.mem_of_mem_getLast? hc) hcw
    have hu := hword u d (by simp) hdu hdw
    exact hgap.apart 0 t u rfl rfl ht hu hempty

theorem scansTo_respaced {ts : List Token} (hts : Faithful ts) (gap : Nat → String)
    (hgap : Separates gap ts) :
    ScansTo (respaced gap ts).toList fun us => us.map lexeme = ts.map lexeme := by
  induction ts generalizing gap with
  | nil =>
    -- the gap behind the last token is text as well, but none of its pieces is a token
    intro p
    refine ⟨[], ?_, rfl⟩
    rw [respaced, ← List.append_nil (gap 0).toList,
      scanPieces_blank_append (hgap.blank 0 (by simp))]
    rfl
  | cons t ts ih =>
    have hrest := ih (fun u hu => hts u (List.mem_cons_of_mem t hu)) _ hgap.tail
    have htoken := (scansTo_token (hts t List.mem_cons_self)).append hrest
      (cutsNoWord_respaced hts hgap)
    rw [respaced, String.append_assoc, String.toList_append, String.toList_append]
    refine (htoken.blanks (hgap.blank 0 (by simp))).imp ?_
    rintro _ ⟨_, us, rfl, ⟨u, rfl, hkind, htext⟩, hus⟩
    rw [List.map_append, hus, List.map_singleton, lexeme, hkind, htext]
    rfl

/-! ## Reading sources with the same lexemes -/

/-- An error as if it occurred at the start of a text. -/
def Error.unplaced : Error → Error
  | .scan e => .scan { e with position := .start }
  | .read e => .read e.unplaced
  | e => e

/-- Two sources that are read alike. What comes of them differs at most in the place that an error
    names. -/
structure ReadAlike (source source' : String) : Prop where
  term : (Term.ofSource source).mapError Error.unplaced =
    (Term.ofSource source').mapError Error.unplaced
  definition : (Term.definitionOfSource source).mapError Error.unplaced =
    (Term.definitionOfSource source').mapError Error.unplaced
  listing : ∀ config : Config, (config.generate source).mapError Error.unplaced =
    (config.generate source').mapError Error.unplaced

/-- Outcomes that agree up to places still do so after whatever is done with their values. -/
theorem mapError_bind_congr {α β : Type} {x y : Except Error α}
    (h : x.mapError Error.unplaced = y.mapError Error.unplaced) (next : α → Except Error β) :
    (x >>= next).mapError Error.unplaced = (y >>= next).mapError Error.unplaced := by
  cases x with
  | ok a =>
    cases y with
    | ok b => rw [Except.ok.inj h]
    | error e' => cases h
  | error e =>
    cases y with
    | ok b => cases h
    | error e' => exact congrArg Except.error (Except.error.inj h)

theorem readAlike_of_lexemes {source source' : String} {ts us : List Token}
    (hscan : scan source = .ok ts) (hscan' : scan source' = .ok us)
    (h : us.map lexeme = ts.map lexeme) : ReadAlike source' source := by
  -- a reader that looks at no place makes the same of both token lists
  have hreader : ∀ {reader : Reader Term}, Placeless id reader →
      ((reader.outcome us).mapError Error.read).mapError Error.unplaced =
        ((reader.outcome ts).mapError Error.read).mapError Error.unplaced := by
    intro reader hreader
    have hlift : ∀ r : Except ReadError Term, (r.mapError Error.read).mapError Error.unplaced =
        (r.mapError ReadError.unplaced).mapError Error.read := by
      intro r
      cases r <;> rfl
    rw [hlift, hlift, hreader.outcome_eq (fun _ => rfl) h]
  have hterm : (Term.ofSource source').mapError Error.unplaced =
      (Term.ofSource source).mapError Error.unplaced := by
    rw [Term.ofSource, Term.ofSource, tokensOfSource, tokensOfSource, hscan, hscan']
    exact hreader placeless_term
  refine ⟨hterm, ?_, fun config => ?_⟩
  · rw [Term.definitionOfSource, Term.definitionOfSource, tokensOfSource, tokensOfSource, hscan,
      hscan']
    exact hreader placeless_wholeDefinition
  · rw [Config.generate, Config.generate]
    exact mapError_bind_congr hterm _

/-- **Layout does not matter.** With other gaps between its tokens a source has the same lexemes and
    is read alike. -/
theorem respaced_readAlike {source : String} {ts : List Token} {gap : Nat → String}
    (hscan : scan source = .ok ts) (hgap : Separates gap ts) :
    (∃ us, scan (respaced gap ts) = .ok us ∧ us.map lexeme = ts.map lexeme) ∧
      ReadAlike (respaced gap ts) source := by
  obtain ⟨us, hus, hlexemes⟩ := scansTo_respaced (isOfKind_of_mem_scan hscan) gap hgap .start
  exact ⟨⟨us, hus, hlexemes⟩, readAlike_of_lexemes hscan hus hlexemes⟩

theorem respaced_readAlike_definition :
    ∃ ts gap, scan "def f()x end" = .ok ts ∧ Separates gap ts ∧
      respaced gap ts = "\ndef\t f( )x\nend" ∧
      (∃ us, scan (respaced gap ts) = .ok us ∧ us.map lexeme = ts.map lexeme) ∧
      ReadAlike (respaced gap ts) "def f()x end" := by
  have hscan : scan "def f()x end" = .ok [⟨.defWord, "def", ⟨0, 1, 1⟩⟩,
      ⟨.identifier, "f", ⟨4, 1, 5⟩⟩, ⟨.leftParen, "(", ⟨5, 1, 6⟩⟩, ⟨.rightParen, ")", ⟨6, 1, 7⟩⟩,
      ⟨.identifier, "x", ⟨7, 1, 8⟩⟩, ⟨.endWord, "end", ⟨9, 1, 10⟩⟩] := by cbv
  have hgap : Separates (fun i => ["\n", "\t ", "", " ", "", "\n", ""].getD i "")
      [⟨.defWord, "def", ⟨0, 1, 1⟩⟩, ⟨.identifier, "f", ⟨4, 1, 5⟩⟩, ⟨.leftParen, "(", ⟨5, 1, 6⟩⟩,
        ⟨.rightParen, ")", ⟨6, 1, 7⟩⟩, ⟨.identifier, "x", ⟨7, 1, 8⟩⟩,
        ⟨.endWord, "end", ⟨9, 1, 10⟩⟩] := by
    constructor
    case blank =>
      have hall : ((List.range 7).all fun i =>
          (["\n", "\t ", "", " ", "", "\n", ""].getD i "").toList.all isSkip) = true := by cbv
      intro i hi
      exact List.all_eq_true.1 (List.all_eq_true.1 hall i (List.mem_range.2 (Nat.lt_succ_of_le hi)))
    case apart =>
      intro i t u ht hu htw huw
      obtain _ | _ | _ | _ | _ | _ := i
      · simp
      · cases hu
        cases huw
      · cases ht
        cases htw
      · cases ht
        cases htw
      · simp
      · cases hu
  exact ⟨_, _, hscan, hgap, by cbv, respaced_readAlike hscan hgap⟩

end KeyCombo
