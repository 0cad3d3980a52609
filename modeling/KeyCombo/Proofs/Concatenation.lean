import KeyCombo.Proofs.Positions
import KeyCombo.Proofs.ScanAppend
import Mathlib

set_option autoImplicit false

/-! # Scanning a concatenation

If the cut between two texts goes through no word, the scan of both is made of the scans of each.
What the second one finds is moved behind the first text: further on by its bytes, down by its line
feeds, and what stands on the first line also to the right. Moving commutes with passing over a
character (`shift_after`), and so with a scan (`scanPieces_shift`). -/

namespace KeyCombo

open Text

/-! ## Moving places behind a text -/

/-- Where a place of a text is if that text stands behind another one. Only what is on its first
    line is on one line with the other text. -/
def Position.shift (before : List Char) (p : Position) : Position where
  offset := Token.byteLength before + p.offset
  line := before.count '\n' + p.line
  column := if p.line = 1 then (before.rtakeWhile (· ≠ '\n')).length + p.column else p.column

/-- A token of a text that stands behind another one. -/
def Token.shift (before : List Char) (t : Token) : Token :=
  { t with position := t.position.shift before }

/-- A scan error in a text that stands behind another one. -/
def ScanError.shift (before : List Char) (e : ScanError) : ScanError :=
  { e with position := e.position.shift before }

namespace Position

theorem shift_start (before : List Char) : start.shift before = behind before := by
  simp [shift, start, behind, Nat.add_comm]

/-- Lines count from one, so the place behind a line feed is not on the first line. -/
theorem shift_after (before : List Char) {p : Position} (hp : p.line ≠ 0) (c : Char) :
    (p.after c).shift before = (p.shift before).after c := by
  unfold after
  split
  · simp [shift, hp, Nat.add_assoc]
  · by_cases hline : p.line = 1
    · simp [shift, hline, Nat.add_assoc]
    · simp [shift, hline, Nat.add_assoc]

theorem line_after_ne_zero {p : Position} (hp : p.line ≠ 0) (c : Char) : (p.after c).line ≠ 0 := by
  unfold after
  split
  · exact Nat.succ_ne_zero p.line
  · exact hp

theorem line_afterAll_ne_zero {p : Position} (hp : p.line ≠ 0) (cs : List Char) :
    (p.afterAll cs).line ≠ 0 := by
  induction cs generalizing p with
  | nil => exact hp
  | cons c cs ih => exact ih (line_after_ne_zero hp c)

theorem shift_afterAll (before : List Char) {p : Position} (hp : p.line ≠ 0) (cs : List Char) :
    (p.afterAll cs).shift before = (p.shift before).afterAll cs := by
  induction cs generalizing p with
  | nil => rfl
  | cons c cs ih =>
    rw [afterAll_cons, afterAll_cons, ih (line_after_ne_zero hp c), shift_after before hp]

end Position

/-! ## Moving scans -/

namespace Token

/-- A scan that starts elsewhere finds the same at other places. -/
theorem scanPieces_shift (before : List Char) {p : Position} (hp : p.line ≠ 0)
    (ps : List (List Char)) : scanPieces (p.shift before) ps =
      ((scanPieces p ps).mapError (ScanError.shift before)).map (List.map (shift before)) := by
  induction ps generalizing p with
  | nil => rfl
  | cons q ps ih =>
    have hrest := ih (Position.line_afterAll_ne_zero hp q)
    rw [Position.shift_afterAll before hp] at hrest
    rw [scanPieces, scanPieces, hrest]
    cases judge q with
    | blank => rfl
    | token kind => cases scanPieces (p.afterAll q) ps <;> rfl
    | bad => rfl

theorem scanPieces_behind (before : List Char) (ps : List (List Char)) :
    scanPieces (.behind before) ps =
      ((scanPieces .start ps).mapError (ScanError.shift before)).map (List.map (shift before)) := by
  rw [← Position.shift_start]
  exact scanPieces_shift before Nat.one_ne_zero ps

/-- **Scanning is compositional.** If the cut between two texts goes through no word, the first
    error in them is that of the scan of both, and without errors the tokens of the first text come
    before those of the second one. The places in the second text are moved behind the first. -/
theorem scan_append {a b : String} (hcut : CutsNoWord a.toList b.toList) :
    scan (a ++ b) = do
      let ts ← scan a
      let us ← (scan b).mapError (ScanError.shift a.toList)
      return ts ++ us.map (shift a.toList) := by
  rw [scan, String.toList_append, scanPieces_append hcut, Position.afterAll_start,
    scanPieces_behind]
  change (scan a).bind (fun ts => (((scan b).mapError _).map _).map _) = _
  cases scan a with
  | error e => rfl
  | ok ts => cases scan b <;> rfl

theorem scan_append_seams :
    (CutsNoWord "end\n f ".toList " (\tx\n, y".toList ∧
      scan ("end\n f " ++ " (\tx\n, y") = .ok [⟨.endWord, "end", ⟨0, 1, 1⟩⟩,
        ⟨.identifier, "f", ⟨5, 2, 2⟩⟩, ⟨.leftParen, "(", ⟨8, 2, 5⟩⟩, ⟨.identifier, "x", ⟨10, 2, 7⟩⟩,
        ⟨.comma, ",", ⟨12, 3, 1⟩⟩, ⟨.identifier, "y", ⟨14, 3, 3⟩⟩]) ∧
    CutsNoWord "x\n12".toList "é".toList ∧ scan ("x\n12" ++ "é") = .error ⟨"é", ⟨4, 2, 3⟩⟩ := by
  have hblank : CutsNoWord "end\n f ".toList " (\tx\n, y".toList :=
    cutsNoWord_of_right (by decide) _ _
  have hlone : CutsNoWord "x\n12".toList "é".toList := cutsNoWord_of_right (by decide) _ _
  exact ⟨⟨hblank, (scan_append hblank).trans (by cbv)⟩, hlone, (scan_append hlone).trans (by cbv)⟩

end Token

end KeyCombo
