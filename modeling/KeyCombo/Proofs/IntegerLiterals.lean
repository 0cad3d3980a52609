import KeyCombo.Proofs.Cursor
import KeyCombo.Proofs.Except
import KeyCombo.Proofs.RoundTrip
import Mathlib.Data.List.Forall2
import Mathlib.Data.Nat.Digits.Defs

set_option autoImplicit false

/-! # Integer literals

An integer token is read as the mathematical value of its text if that is a 64-bit signed integer,
and is refused otherwise; no digit is lost and nothing wraps around. The value is the sum of the
digits, each times the power of ten of its place, so it is defined for texts of every length.

What holds of a single token (`int64?_eq_some_iff`) carries over to all the integers of a term by
induction on its derivation (`Derives.carry`), and to sources since a scanner makes a token of a run
of digits only as a whole (`Decomposition.isDigitRun`). -/

namespace KeyCombo

/-! ## Literals and their values -/

namespace Numeral

/-- One or more ASCII digits. -/
def IsDigits (cs : List Char) : Prop := cs ≠ [] ∧ ∀ c ∈ cs, c.isDigit = true

/-- The value of digits, the last of which counts the units. -/
def value (digits : List Char) : Nat :=
  Nat.ofDigits 10 (digits.map fun c => c.toNat - '0'.toNat).reverse

/-- Whether a text is a literal with a value: at most one sign, then digits. -/
inductive Literal : List Char → Int → Prop
  | plain {digits : List Char} (h : IsDigits digits) : Literal digits (value digits)
  | plus {digits : List Char} (h : IsDigits digits) : Literal ('+' :: digits) (value digits)
  | minus {digits : List Char} (h : IsDigits digits) : Literal ('-' :: digits) (-value digits)

/-- Whether a text is a literal of a 64-bit signed integer. -/
def Denotes (text : String) (v : Int) : Prop :=
  Literal text.toList v ∧ -2 ^ 63 ≤ v ∧ v ≤ 2 ^ 63 - 1

variable {cs : List Char} {text : String} {v : Int}

theorem ofDigitChars_eq_value (cs : List Char) : Nat.ofDigitChars 10 cs 0 = value cs := by
  induction cs with
  | nil => rfl
  | cons c cs ih =>
    have hvalue : value (c :: cs) = value cs + 10 ^ cs.length * (c.toNat - '0'.toNat) := by
      rw [value, List.map_cons, Nat.ofDigits_reverse_cons, List.length_map, value]
    rw [Nat.ofDigitChars_cons, Nat.ofDigitChars_eq_ofDigitChars_zero, ih, hvalue, Nat.mul_zero,
      Nat.zero_add, Nat.add_comm]

theorem unsigned?_eq_some_iff {n : Nat} : unsigned? cs = some n ↔ IsDigits cs ∧ value cs = n := by
  rw [unsigned?_eq_some, ofDigitChars_eq_value, List.all_eq_true, IsDigits, and_assoc]

theorem signed?_eq_some_iff : signed? cs = some v ↔ Literal cs v := by
  constructor
  · intro h
    unfold signed? at h
    split at h
    · obtain ⟨n, hn, rfl⟩ := Option.map_eq_some_iff.1 h
      obtain ⟨hdigits, rfl⟩ := unsigned?_eq_some_iff.1 hn
      exact .minus hdigits
    · obtain ⟨n, hn, rfl⟩ := Option.map_eq_some_iff.1 h
      obtain ⟨hdigits, rfl⟩ := unsigned?_eq_some_iff.1 hn
      exact .plus hdigits
    · obtain ⟨n, hn, rfl⟩ := Option.map_eq_some_iff.1 h
      obtain ⟨hdigits, rfl⟩ := unsigned?_eq_some_iff.1 hn
      exact .plain hdigits
  · intro h
    cases h with
    | plain h =>
      rw [signed?_of_all_isDigit (List.all_eq_true.2 h.2), unsigned?_eq_some_iff.2 ⟨h, rfl⟩]
      rfl
    | plus h =>
      rw [signed?, unsigned?_eq_some_iff.2 ⟨h, rfl⟩]
      rfl
    | minus h =>
      rw [signed?, unsigned?_eq_some_iff.2 ⟨h, rfl⟩]
      rfl

theorem isInt64_iff : IsInt64 v ↔ -2 ^ 63 ≤ v ∧ v ≤ 2 ^ 63 - 1 := by
  have hmin : Int64.minValue.toInt = -2 ^ 63 := by decide
  have hmax : Int64.maxValue.toInt = 2 ^ 63 - 1 := by decide
  rw [IsInt64, hmin, hmax]

/-- Reading a literal gives the number that it denotes. -/
theorem int64?_eq_some_iff {w : Int64} : int64? text = some w ↔ Denotes text w.toInt := by
  have hrange : IsInt64 w.toInt := ⟨w.minValue_le_toInt, w.toInt_le⟩
  rw [Denotes, ← isInt64_iff, ← signed?_eq_some_iff, int64?]
  cases signed? text.toList with
  | none => simp
  | some v =>
    constructor
    · intro h
      dsimp only at h
      split at h
      · obtain rfl := Option.some.inj h
        exact ⟨by rw [Int64.toInt_ofIntLE], hrange⟩
      · cases h
    · rintro ⟨h, -⟩
      obtain rfl := Option.some.inj h
      exact (dif_pos hrange).trans (by rw [Int64.ofIntLE_toInt])

theorem exists_int64?_eq_some_iff :
    (∃ w : Int64, w.toInt = v ∧ int64? text = some w) ↔ Denotes text v := by
  constructor
  · rintro ⟨w, rfl, hw⟩
    exact int64?_eq_some_iff.1 hw
  · intro h
    have hv : (Int64.ofInt v).toInt = v := toInt_ofInt_of_isInt64 (isInt64_iff.2 h.2)
    exact ⟨.ofInt v, hv, int64?_eq_some_iff.2 (by rwa [hv])⟩

theorem int64?_eq_none_iff : int64? text = none ↔ ∀ v, ¬Denotes text v := by
  constructor
  · intro h v hv
    obtain ⟨w, -, hw⟩ := exists_int64?_eq_some_iff.2 hv
    rw [h] at hw
    cases hw
  · intro h
    refine Option.eq_none_iff_forall_ne_some.2 fun w hw => ?_
    exact h _ (int64?_eq_some_iff.1 hw)

/-- Digits without a sign denote their value or nothing. -/
theorem denotes_iff_of_isDigits (h : IsDigits text.toList) :
    Denotes text v ↔ v = value text.toList ∧ v ≤ 2 ^ 63 - 1 := by
  rw [Denotes, ← signed?_eq_some_iff, signed?_of_all_isDigit (List.all_eq_true.2 h.2),
    unsigned?_eq_some_iff.2 ⟨h, rfl⟩, Option.map_some, Option.some.injEq]
  constructor
  · rintro ⟨rfl, -, hmax⟩
    exact ⟨rfl, hmax⟩
  · rintro ⟨rfl, hmax⟩
    exact ⟨rfl, by omega, hmax⟩

end Numeral

open Numeral (IsDigits value Denotes)

/-! ## Single integer tokens -/

namespace Reader

variable {rest : List Token} {t : Token}

theorem term_integer_eq_ok {w : Int64} (ht : t.kind = .integer) :
    Reader.term (t :: rest) = .ok (.integer w) rest ↔ Numeral.int64? t.text = some w := by
  rw [Reader.term]
  cases hvalue : Numeral.int64? t.text with
  | none => simp [termWithin_outOfRange ht hvalue]
  | some v =>
    rw [termWithin_integer ht hvalue, resume_outermost]
    simp

theorem term_integer_eq_error (ht : t.kind = .integer) :
    Reader.term (t :: rest) = .error (.outOfRange t.text) rest ↔
      Numeral.int64? t.text = none := by
  rw [Reader.term]
  cases hvalue : Numeral.int64? t.text with
  | none => simp [termWithin_outOfRange ht hvalue]
  | some v =>
    rw [termWithin_integer ht hvalue, resume_outermost]
    simp

end Reader

/-! ## The integers of a term -/

namespace Term

mutual

/-- The integers of a term, in the order in which they are written. -/
def integers : Term → List Int64
  | .integer value => [value]
  | .name _ => []
  | .call _ args => integersAll args
  | .definition _ _ body => integers body

/-- The integers of several terms. -/
def integersAll : List Term → List Int64
  | [] => []
  | t :: ts => integers t ++ integersAll ts

end

end Term

namespace Reader

/-- The integers among tokens. -/
def integerTokens (ts : List Token) : List Token := ts.filter (·.kind = .integer)

/-- Whether the integers among tokens denote the given numbers, one by one. -/
def Carry (ts : List Token) (ws : List Int64) : Prop :=
  List.Forall₂ (fun t w => Denotes t.text w.toInt) (integerTokens ts) ws

variable {ts us rest : List Token} {t : Token} {n : Term} {ws vs : List Int64} {text : String}

theorem carry_nil : Carry [] [] := .nil

theorem Carry.append (h : Carry ts ws) (h' : Carry us vs) : Carry (ts ++ us) (ws ++ vs) := by
  rw [Carry, integerTokens, List.filter_append]
  exact List.rel_append h h'

theorem Carry.cons (h : Carry ts ws) {kind : TokenKind} (ht : t.kind = kind)
    (hkind : kind ≠ .integer) : Carry (t :: ts) ws := by
  have hskip : integerTokens (t :: ts) = integerTokens ts :=
    List.filter_cons_of_neg (by simpa [ht] using hkind)
  rwa [Carry, hskip]

/-- A token that is no integer may stand behind others. -/
theorem Carry.concat (h : Carry ts ws) {kind : TokenKind} (ht : t.kind = kind)
    (hkind : kind ≠ .integer) : Carry (ts ++ [t]) ws := by
  simpa using h.append (carry_nil.cons ht hkind)

theorem carry_integer {w : Int64} (ht : t.kind = .integer)
    (hw : Numeral.int64? t.text = some w) : Carry [t] [w] := by
  have hkeep : integerTokens [t] = [t] := List.filter_cons_of_pos (by simpa using ht)
  rw [Carry, hkeep]
  exact .cons (Numeral.int64?_eq_some_iff.1 hw) .nil

mutual

/-- The integers among the tokens of an expression are those of the expression. -/
theorem Derives.carry {ts : List Token} {n : Term} (h : Derives ts n) : Carry ts n.integers := by
  cases h with
  | integer ht hvalue => exact carry_integer ht hvalue
  | name ht => exact carry_nil.cons ht nofun
  | call hf ho hargs hc => exact ((hargs.carry.concat hc nofun).cons ho nofun).cons hf nofun

theorem DerivesArgs.carry {ts : List Token} {args : List Term} (h : DerivesArgs ts args) :
    Carry ts (Term.integersAll args) := by
  cases h with
  | none => exact carry_nil
  | some ht hargs => exact ht.carry.append hargs.carry

theorem DerivesMoreArgs.carry {ts : List Token} {args : List Term} (h : DerivesMoreArgs ts args) :
    Carry ts (Term.integersAll args) := by
  cases h with
  | done => exact carry_nil
  | more hc ht hargs => exact (ht.carry.append hargs.carry).cons hc nofun

end

theorem DerivesMoreParams.carry {params : List String} (h : DerivesMoreParams ts params) :
    Carry ts [] := by
  induction h with
  | done => exact carry_nil
  | more hc hp _ ih => exact (ih.cons hp nofun).cons hc nofun

theorem DerivesParams.carry {params : List String} (h : DerivesParams ts params) :
    Carry ts [] := by
  cases h with
  | none => exact carry_nil
  | some hp hparams => exact hparams.carry.cons hp nofun

/-- The integers among the tokens of a definition are those of its body. -/
theorem DerivesDefinition.carry (h : DerivesDefinition ts n) : Carry ts n.integers := by
  obtain ⟨hd, hf, ho, hparams, hc, hbody, he⟩ := h
  have hrest := hparams.carry.append ((hbody.carry.concat he nofun).cons hc nofun)
  exact ((hrest.cons ho nofun).cons hf nofun).cons hd nofun

/-! ## Whole runs -/

/-- Whether the integers of what a reader gives are the numbers that the tokens denote, and it
    refuses only an integer token that denotes none. -/
structure KeepsIntegers (reader : Reader Term) : Prop where
  values : ∀ ts n rest, reader ts = .ok n rest → ∃ p, ts = p ++ rest ∧ Carry p n.integers
  outOfRange : ∀ ts text rest, reader ts = .error (.outOfRange text) rest →
    ∃ p t, ts = p ++ t :: rest ∧ t.kind = .integer ∧ t.text = text ∧ ∀ v, ¬Denotes text v

/-- The integer that is refused is the last token that was taken. -/
theorem Forward.exists_outOfRange {α : Type} {reader : Reader α} (h : Forward reader)
    (he : reader ts = .error (.outOfRange text) rest) :
    ∃ p t, ts = p ++ t :: rest ∧ t.kind = .integer ∧ t.text = text ∧ ∀ v, ¬Denotes text v := by
  -- the cursor has moved past the refused token, so that one stands in front of it
  obtain ⟨cursor, hstop⟩ := h ts ts 0 (Nat.zero_le _) rfl
  obtain ⟨t, hpos, hget, hkind, htext, hvalue⟩ := hstop.located _ _ he
  obtain ⟨hlt, rfl⟩ := List.getElem?_eq_some_iff.1 hget
  have hleft : rest = ts.drop cursor := by
    rw [← hstop.left_eq, he]
    rfl
  refine ⟨ts.take (cursor - 1), _, ?_, hkind, htext, Numeral.int64?_eq_none_iff.1 hvalue⟩
  calc ts = ts.take (cursor - 1) ++ ts.drop (cursor - 1) := (List.take_append_drop _ _).symm
    _ = ts.take (cursor - 1) ++ ts[cursor - 1] :: rest := by
      rw [List.drop_eq_getElem_cons hlt, Nat.sub_add_cancel hpos, hleft]

theorem keepsIntegers_term : KeepsIntegers Reader.term where
  values := by
    intro ts n rest h
    obtain ⟨p, rfl, hp, -⟩ := term_eq_ok_iff.1 h
    exact ⟨p, rfl, hp.carry⟩
  outOfRange _ _ _ h := forward_term.exists_outOfRange h

theorem keepsIntegers_wholeDefinition : KeepsIntegers wholeDefinition where
  values := by
    intro ts n rest h
    obtain ⟨rfl, hts⟩ := wholeDefinition_eq_ok_iff.1 h
    exact ⟨ts, (List.append_nil ts).symm, hts.carry⟩
  outOfRange _ _ _ h := by
    have hforward : Forward wholeDefinition :=
      forward_definition.bind fun n => forward_expectEnd.bind fun _ => .pure n
    exact hforward.exists_outOfRange h

end Reader

/-! ## Integers in a source -/

namespace Text

/-- Whether digits make up a word of a text, with no further word character at either end. -/
def IsDigitRun (cs run : List Char) : Prop :=
  IsDigits run ∧ ∃ before after, cs = before ++ run ++ after ∧
    (∀ c ∈ before.getLast?, isWordChar c = false) ∧ ∀ c ∈ after.head?, isWordChar c = false

theorem exists_mem_getLast?_of_flatten {ps : List (List Char)} (hps : ∀ p ∈ ps, p ≠ []) {c : Char}
    (hc : c ∈ ps.flatten.getLast?) : ∃ p ∈ ps.getLast?, c ∈ p := by
  rcases List.eq_nil_or_concat ps with rfl | ⟨ps, p, rfl⟩
  · cases hc
  · have hp : p ≠ [] := hps p (by simp)
    rw [List.concat_eq_append, List.flatten_append, List.flatten_singleton,
      List.getLast?_append_of_ne_nil _ hp] at hc
    exact ⟨p, by simp, List.mem_of_mem_getLast? hc⟩

theorem exists_mem_head?_of_flatten {ps : List (List Char)} (hps : ∀ p ∈ ps, p ≠ []) {c : Char}
    (hc : c ∈ ps.flatten.head?) : ∃ p ∈ ps.head?, c ∈ p := by
  cases ps with
  | nil => cases hc
  | cons p ps =>
    rw [List.flatten_cons, List.head?_append_of_ne_nil _ (hps p List.mem_cons_self)] at hc
    exact ⟨p, rfl, List.mem_of_mem_head? hc⟩

/-- A piece of digits ends where the digits end: its neighbours are no words. -/
theorem Decomposition.isDigitRun {cs p : List Char} {ps : List (List Char)}
    (h : Decomposition cs ps) (hp : p ∈ ps) (hdigits : IsDigits p) : IsDigitRun cs p := by
  obtain ⟨before, after, rfl⟩ := List.append_of_mem hp
  have hword : IsWordRun p := ⟨hdigits.1, fun c hc => isWordChar_of_isDigit (hdigits.2 c hc)⟩
  -- a neighbour with a word character is a word, and two words never stand side by side
  obtain ⟨-, hafter, hbefore⟩ := List.isChain_append.1 h.maximal
  refine ⟨hdigits, before.flatten, after.flatten, ?_, fun c hc => ?_, fun c hc => ?_⟩
  · rw [← h.flatten_eq]
    simp
  · obtain ⟨q, hq, hcq⟩ := exists_mem_getLast?_of_flatten
      (fun q hq => (h.isPiece q (by simp [hq])).ne_nil) hc
    have hpiece : IsPiece q := h.isPiece q (by simp [List.mem_of_mem_getLast? hq])
    refine Bool.eq_false_iff.2 fun hc => ?_
    exact (hbefore q hq p rfl).1 ⟨hpiece.isWordRun hcq hc, hword⟩
  · obtain ⟨q, hq, hcq⟩ := exists_mem_head?_of_flatten
      (fun q hq => (h.isPiece q (by simp [hq])).ne_nil) hc
    have hpiece : IsPiece q := h.isPiece q (by simp [List.mem_of_mem_head? hq])
    refine Bool.eq_false_iff.2 fun hc => ?_
    exact ((List.isChain_cons.1 hafter).1 q hq).1 ⟨hword, hpiece.isWordRun hcq hc⟩

end Text

open Reader (integerTokens KeepsIntegers)

theorem Token.isDigitRun_of_mem_scan {source : String} {ts : List Token}
    (h : Token.scan source = .ok ts) {t : Token} (ht : t ∈ ts) (hkind : t.kind = .integer) :
    Text.IsDigitRun source.toList t.text.toList := by
  obtain ⟨-, -, hkinds⟩ := scanPieces_eq_ok h
  have hdigits : IsOfKind t.text.toList .integer := hkind ▸ isOfKind_of_mem_scan h t ht
  exact (Text.decomposition_pieces _).isDigitRun (hkinds t ht).1 hdigits

/-- Whether the integers of what is read from a source are the values of its runs of digits, up to
    where the reader stops, and a run is refused only if its value is too large. -/
structure Reader.ReadsDigitRuns (reader : Reader Term) (read : String → Except Error Term) :
    Prop where
  values : ∀ source n, read source = .ok n → ∃ p rest, Token.scan source = .ok (p ++ rest) ∧
    reader (p ++ rest) = .ok n rest ∧
    List.Forall₂ (fun t w => Text.IsDigitRun source.toList t.text.toList ∧
      w.toInt = (value t.text.toList : Int)) (integerTokens p) n.integers
  outOfRange : ∀ source text, read source = .error (.read (.outOfRange text)) →
    Text.IsDigitRun source.toList text.toList ∧ 2 ^ 63 ≤ value text.toList

theorem Reader.outcome_eq_error {α : Type} {reader : Reader α} {ts : List Token} {e : ReadError} :
    reader.outcome ts = .error e ↔ ∃ rest, reader ts = .error e rest := by
  unfold outcome
  cases reader ts <;> simp

/-- What a reader makes of the integers among any tokens it makes of those in a source. -/
theorem Reader.KeepsIntegers.readsDigitRuns {reader : Reader Term} (h : KeepsIntegers reader)
    {read : String → Except Error Term} (hread : ∀ source, read source =
      tokensOfSource source >>= fun ts => (reader.outcome ts).mapError .read) :
    ReadsDigitRuns reader read where
  values := by
    intro source n hn
    rw [hread, bind_tokensOfSource_eq_ok] at hn
    obtain ⟨ts, hscan, hn⟩ := hn
    obtain ⟨rest, hrun⟩ := outcome_eq_ok.1 hn
    obtain ⟨p, rfl, hp⟩ := h.values _ _ _ hrun
    have hruns : ∀ t ∈ integerTokens p, Text.IsDigitRun source.toList t.text.toList := by
      intro t ht
      obtain ⟨hmem, hkind⟩ := List.mem_filter.1 ht
      exact Token.isDigitRun_of_mem_scan hscan (List.mem_append_left rest hmem) (by simpa using hkind)
    refine ⟨p, rest, hscan, hrun, ?_⟩
    refine ((List.forall₂_and_left _ _).2 ⟨hruns, hp⟩).imp fun t w hw => ⟨hw.1, ?_⟩
    exact ((Numeral.denotes_iff_of_isDigits hw.1.1).1 hw.2).1
  outOfRange := by
    intro source text he
    rw [hread, except_bind_eq_error] at he
    rcases he with he | ⟨ts, hscan, he⟩
    · obtain ⟨_, -, he⟩ := except_mapError_eq_error.1 he
      cases he
    obtain ⟨_, he, heq⟩ := except_mapError_eq_error.1 he
    cases heq
    obtain ⟨rest, hrun⟩ := outcome_eq_error.1 he
    obtain ⟨p, t, rfl, hkind, rfl, hvalue⟩ := h.outOfRange _ _ _ hrun
    have hdigits := Token.isDigitRun_of_mem_scan (except_mapError_eq_ok.1 hscan)
      (List.mem_append_right p List.mem_cons_self) hkind
    refine ⟨hdigits, Nat.le_of_not_lt fun hlt => ?_⟩
    refine hvalue _ ((Numeral.denotes_iff_of_isDigits hdigits.1).2 ⟨rfl, ?_⟩)
    omega

/-- **Integer literals are read exactly.** An integer token is read as the value of its text if that
    is a literal of a 64-bit signed integer, and refused with its text otherwise. So are all integers
    of a term, wherever they stand in it. In a source they are whole runs of digits, of any length,
    and only a run with a value of `2 ^ 63` or more is refused. Every 64-bit signed integer is read
    back from its decimal text. -/
theorem integer_literals_exact :
    (∀ (text : String) (position : Position) (rest : List Token),
      (∀ v : Int, (∃ w : Int64, w.toInt = v ∧
          Reader.term (⟨.integer, text, position⟩ :: rest) = .ok (.integer w) rest) ↔
        Numeral.Literal text.toList v ∧ -2 ^ 63 ≤ v ∧ v ≤ 2 ^ 63 - 1) ∧
      (Reader.term (⟨.integer, text, position⟩ :: rest) = .error (.outOfRange text) rest ↔
        ¬∃ v : Int, Numeral.Literal text.toList v ∧ -2 ^ 63 ≤ v ∧ v ≤ 2 ^ 63 - 1)) ∧
    (KeepsIntegers Reader.term ∧ KeepsIntegers Reader.wholeDefinition) ∧
    (Reader.ReadsDigitRuns Reader.term Term.ofSource ∧
      Reader.ReadsDigitRuns Reader.wholeDefinition Term.definitionOfSource) ∧
    ∀ (w : Int64) (position : Position) (rest : List Token),
      Reader.term (⟨.integer, Numeral.ofInt w.toInt, position⟩ :: rest) =
        .ok (.integer w) rest := by
  refine ⟨fun text position rest => ⟨fun v => ?_, ?_⟩,
    ⟨Reader.keepsIntegers_term, Reader.keepsIntegers_wholeDefinition⟩, ⟨?_, ?_⟩, ?_⟩
  · simp only [Reader.term_integer_eq_ok]
    exact Numeral.exists_int64?_eq_some_iff
  · rw [not_exists, Reader.term_integer_eq_error rfl]
    exact Numeral.int64?_eq_none_iff
  · exact Reader.keepsIntegers_term.readsDigitRuns fun _ => rfl
  · exact Reader.keepsIntegers_wholeDefinition.readsDigitRuns fun _ => rfl
  · intro w position rest
    exact (Reader.term_integer_eq_ok rfl).2 (Numeral.int64?_ofInt w)

theorem integer_literals_exact_limits :
    (Term.ofSource "f(0009223372036854775807)" =
        .ok (.call "f" [.integer 9223372036854775807]) ∧
      ∃ p rest, Token.scan "f(0009223372036854775807)" = .ok (p ++ rest) ∧
        Reader.term (p ++ rest) = .ok (.call "f" [.integer 9223372036854775807]) rest ∧
        List.Forall₂ (fun t w => Text.IsDigitRun "f(0009223372036854775807)".toList t.text.toList ∧
          w.toInt = (value t.text.toList : Int)) (integerTokens p)
          ([9223372036854775807] : List Int64)) ∧
    (Term.ofSource "f(9223372036854775808)" =
        .error (.read (.outOfRange "9223372036854775808")) ∧
      2 ^ 63 ≤ value "9223372036854775808".toList) ∧
    ∃ w : Int64, w.toInt = -2 ^ 63 ∧
      Reader.term [⟨.integer, "-09223372036854775808", .start⟩] = .ok (.integer w) [] := by
  obtain ⟨hliteral, -, ⟨hsource, -⟩, -⟩ := integer_literals_exact
  have hmax : Term.ofSource "f(0009223372036854775807)" =
      .ok (.call "f" [.integer 9223372036854775807]) := by decide +kernel
  have hlarge : Term.ofSource "f(9223372036854775808)" =
      .error (.read (.outOfRange "9223372036854775808")) := by decide +kernel
  have hmin : Numeral.Literal "-09223372036854775808".toList (-2 ^ 63) :=
    Numeral.signed?_eq_some_iff.1 (by decide +kernel)
  refine ⟨⟨hmax, hsource.values _ _ hmax⟩, ⟨hlarge, (hsource.outOfRange _ _ hlarge).2⟩, ?_⟩
  exact ((hliteral _ _ _).1 _).2 ⟨hmin, by decide, by decide⟩

end KeyCombo
