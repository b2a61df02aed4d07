import GameText.Text.Basic

/-!
# Scanning a text for tokens

A recogniser decides at one place of a text whether a token begins there. Scanning from left to
right cuts the text into pieces: the tokens, which do not overlap, and the single characters
between them. Finding, counting and replacing tokens are all functions of the pieces, and the
pieces put together are the text.
-/

namespace GameText

/-- Looks at the character before a place and at the text from there on. The answer is what was
recognised and the text after it. -/
abbrev Recognizer (α : Type) := Option Char → Text → Option (α × Text)

/-- A token with its characters, or a character outside all tokens. -/
inductive Piece (α : Type) where
  | token (value : α) (raw : Text)
  | gap (c : Char)
deriving Repr, DecidableEq

namespace Piece

variable {α : Type}

/-- The characters of a piece. -/
def raw : Piece α → Text
  | .token _ raw => raw
  | .gap c => [c]

/-- What was recognised, if the piece is a token. -/
def value? : Piece α → Option α
  | .token value _ => some value
  | .gap _ => none

end Piece

variable {α : Type}

/-- The characters of `s` that stand before its tail `rest`. -/
def consumed (s rest : Text) : Text := s.take (s.length - rest.length)

/-- Cuts a text into pieces. A token has at least one character. -/
def piecesFrom (recognize : Recognizer α) (before : Option Char) : Text → List (Piece α)
  | [] => []
  | c :: cs =>
    match recognize before (c :: cs) with
    | some (value, rest) =>
      if rest.length ≤ cs.length then
        .token value (consumed (c :: cs) rest) ::
          piecesFrom recognize (consumed (c :: cs) rest).getLast? rest
      else .gap c :: piecesFrom recognize (some c) cs
    | none => .gap c :: piecesFrom recognize (some c) cs
termination_by s => s.length
decreasing_by all_goals (simp only [List.length_cons]; omega)

/-- The pieces of a whole text. -/
def pieces (recognize : Recognizer α) (s : Text) : List (Piece α) := piecesFrom recognize none s

/-- Puts pieces together again, with each token written by `write`. -/
def Piece.renderWith (write : α → Text → Text) (ps : List (Piece α)) : Text :=
  ps.flatMap fun
    | .token value raw => write value raw
    | .gap c => [c]

namespace Text

/-- The tokens of a text, in order. -/
def tokens (recognize : Recognizer α) (s : Text) : List α :=
  (pieces recognize s).filterMap Piece.value?

/-- The text with every token written anew. -/
def mapTokens (recognize : Recognizer α) (write : α → Text → Text) (s : Text) : Text :=
  Piece.renderWith write (pieces recognize s)

/-- The text without its tokens. -/
def without (recognize : Recognizer α) (s : Text) : Text := mapTokens recognize (fun _ _ => []) s

/-- What a recogniser finds at the first place where it finds anything: the text before it, what
was recognised, and the text after it. -/
def findFrom? (recognize : Recognizer α) (before : Option Char) : Text → Option (Text × α × Text)
  | [] => (recognize before []).map fun (value, rest) => ([], value, rest)
  | c :: cs =>
    match recognize before (c :: cs) with
    | some (value, rest) => some ([], value, rest)
    | none =>
      (findFrom? recognize (some c) cs).map fun (lead, value, rest) => (c :: lead, value, rest)

/-- The first find in a whole text. -/
def find? (recognize : Recognizer α) (s : Text) : Option (Text × α × Text) :=
  findFrom? recognize none s

/-- The recogniser finds something somewhere in the text. -/
def finds (recognize : Recognizer α) (s : Text) : Bool := (find? recognize s).isSome

end Text

/-- Writes the token anew with the ordinal `nth` among the pieces, counted from zero. -/
def Piece.mapNth (nth : Nat) (write : α → Text → Text) : List (Piece α) → Text
  | [] => []
  | .gap c :: ps => c :: mapNth nth write ps
  | .token value raw :: ps =>
    match nth with
    | 0 => write value raw ++ ps.flatMap Piece.raw
    | n + 1 => raw ++ mapNth n write ps

/-- The tokens of a row of pieces, each with the offset where it begins and where it ends. -/
def Piece.spansFrom (offset : Nat) : List (Piece α) → List (Nat × Nat × α)
  | [] => []
  | .gap _ :: ps => spansFrom (offset + 1) ps
  | .token value raw :: ps =>
    (offset, offset + raw.length, value) :: spansFrom (offset + raw.length) ps

namespace Text

/-- Writes anew only the token with the ordinal `nth`; no token has a negative ordinal. -/
def mapNthToken (recognize : Recognizer α) (nth : Int) (write : α → Text → Text) (s : Text) :
    Text :=
  if nth < 0 then s else Piece.mapNth nth.toNat write (pieces recognize s)

/-- The tokens of a text with the offsets where each begins and ends. -/
def spans (recognize : Recognizer α) (s : Text) : List (Nat × Nat × α) :=
  Piece.spansFrom 0 (pieces recognize s)

end Text

end GameText
