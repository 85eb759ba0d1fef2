import Dataflow.Json.Basic

/-!
# Writing JSON

A value is written as its tokens. The compact form puts them side by side; the
pretty form lays the same tokens out with line breaks, indentation and a blank
after each colon, and an empty container stays on its line. Both are lists of
marks over one list of tokens, so they say the same to a reader that skips
blanks.
-/

namespace Dataflow

namespace Json

mutual

/-- The tokens of a value, in order. -/
def tokens : Json → List Token
  | .null => [.null]
  | .bool b => [.bool b]
  | .int n => [.int n]
  | .real w => [.real w]
  | .str l => [.str l]
  | .arr xs => .openArray :: ((itemTokens xs).drop 1 ++ [.closeArray])
  | .obj ms => .openObject :: ((memberTokens ms).drop 1 ++ [.closeObject])

/-- The tokens of items, a comma before each. -/
def itemTokens : List Json → List Token
  | [] => []
  | x :: xs => .comma :: (tokens x ++ itemTokens xs)

/-- The tokens of members, a comma before each. -/
def memberTokens : List (Literal × Json) → List Token
  | [] => []
  | (k, v) :: ms => .comma :: .str k :: .colon :: (tokens v ++ memberTokens ms)

end

/-- The written form without blanks. -/
def compactChars (j : Json) : List Char := j.tokens.flatMap Token.chars

/-- The written form without blanks. -/
def compact (j : Json) : String := String.ofList j.compactChars

/-- What a laid-out text consists of. -/
inductive Mark where
  | token (t : Token)
  /-- A line break, then the indentation of a depth. -/
  | line (depth : Nat)
  | blank

/-- Each depth is indented by two blanks. -/
def Mark.chars : Mark → List Char
  | .token t => t.chars
  | .line depth => '\n' :: List.replicate (2 * depth) ' '
  | .blank => [' ']

/-- A container laid out at a depth: its parts, which come with a comma before
each, on lines of their own. -/
def enclose (opening closing : Token) (depth : Nat) (parts : List Mark) :
    List Mark :=
  if parts.isEmpty then [.token opening, .token closing]
  else .token opening :: (parts.drop 1 ++ [.line depth, .token closing])

mutual

/-- The layout of a value that stands at a depth. -/
def marks (depth : Nat) : Json → List Mark
  | .null => [.token .null]
  | .bool b => [.token (.bool b)]
  | .int n => [.token (.int n)]
  | .real w => [.token (.real w)]
  | .str l => [.token (.str l)]
  | .arr xs => enclose .openArray .closeArray depth (itemMarks (depth + 1) xs)
  | .obj ms =>
    enclose .openObject .closeObject depth (memberMarks (depth + 1) ms)

/-- The layout of items, a comma before each. -/
def itemMarks (depth : Nat) : List Json → List Mark
  | [] => []
  | x :: xs =>
    .token .comma :: .line depth :: (marks depth x ++ itemMarks depth xs)

/-- The layout of members, a comma before each. -/
def memberMarks (depth : Nat) : List (Literal × Json) → List Mark
  | [] => []
  | (k, v) :: ms =>
    .token .comma :: .line depth :: .token (.str k) :: .token .colon ::
      .blank :: (marks depth v ++ memberMarks depth ms)

end

/-- The written form on indented lines. -/
def pretty (j : Json) : String := String.ofList ((j.marks 0).flatMap Mark.chars)

end Json

end Dataflow
