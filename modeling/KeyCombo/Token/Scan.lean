import KeyCombo.Text.Piece
import KeyCombo.Token.Basic

set_option autoImplicit false

/-! # Scanning

The scanner judges the pieces of a text from left to right. Blank pieces are passed over, every
other piece is one whole token or none. The first piece that is no token ends the scan, and
nothing is returned but that piece and its place. -/

namespace KeyCombo

/-- A piece of text that is no token, and where it starts. -/
structure ScanError where
  text : String
  position : Position
deriving DecidableEq, Repr

/-- The wording of a scan error. -/
def ScanError.message (e : ScanError) : String :=
  s!"Unrecognized token `{e.text}` at {e.position.line}:{e.position.column}"

namespace Token

/-! ## Judging a piece -/

/-- What a piece is to the scanner. -/
inductive Verdict where
  | blank
  | token (kind : TokenKind)
  | bad
deriving DecidableEq, Repr

/-- The kind of a run of name characters. -/
def kindOfName (run : List Char) : TokenKind :=
  if run = ['d', 'e', 'f'] then .defWord
  else if run = ['e', 'n', 'd'] then .endWord
  else .identifier

/-- A word is a token only if it holds name characters alone or digits alone. -/
def judge (piece : List Char) : Verdict :=
  if piece = ['('] then .token .leftParen
  else if piece = [','] then .token .comma
  else if piece = [')'] then .token .rightParen
  else if piece.all Text.isSkip then .blank
  else if piece.all Text.isNameChar then .token (kindOfName piece)
  else if piece.all Char.isDigit then .token .integer
  else .bad

/-! ## Scanning a text -/

/-- Scans pieces, the first of which starts at `p`. -/
def scanPieces : Position → List (List Char) → Except ScanError (List Token)
  | _, [] => .ok []
  | p, piece :: rest =>
    match judge piece with
    | .blank => scanPieces (p.afterAll piece) rest
    | .token kind =>
      (scanPieces (p.afterAll piece) rest).map (⟨kind, String.ofList piece, p⟩ :: ·)
    | .bad => .error ⟨String.ofList piece, p⟩

/-- The tokens of a text, or its leftmost piece that is no token. -/
def scan (source : String) : Except ScanError (List Token) :=
  scanPieces .start (Text.pieces source.toList)

end Token

end KeyCombo
