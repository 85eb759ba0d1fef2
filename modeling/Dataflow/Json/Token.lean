import Dataflow.Json.Literal
import Dataflow.Text.Decimal

/-!
# Tokens

A JSON text is a run of tokens with blanks between them: punctuation, string
literals, and bare words. A bare word reaches as far as neither blank,
punctuation nor quote stands, and it is either one of three names or a number.
No rule of the grammar puts two words side by side, so reading words as long as
possible accepts nothing that strict reading would refuse.
-/

namespace Dataflow

namespace Json

/-- The smallest meaningful parts of a JSON text. -/
inductive Token where
  | openObject
  | closeObject
  | openArray
  | closeArray
  | comma
  | colon
  | null
  | bool (b : Bool)
  /-- A number written as an integer, negative zero excluded. -/
  | int (n : Int)
  /-- Any other number, as written. -/
  | real (written : List Char)
  | str (l : Literal)
deriving DecidableEq, Repr

namespace Token

/-- Blanks between tokens. -/
def isBlank (c : Char) : Bool := c = ' ' || c = '\n' || c = '\t' || c = '\r'

/-- The punctuation marks. -/
def punctuation? (c : Char) : Option Token :=
  if c = '\x7b' then some .openObject
  else if c = '\x7d' then some .closeObject
  else if c = '[' then some .openArray
  else if c = ']' then some .closeArray
  else if c = ',' then some .comma
  else if c = ':' then some .colon
  else none

/-- Characters of a bare word. -/
def isBare (c : Char) : Bool :=
  !isBlank c && (punctuation? c).isNone && c != '\x22'

/-- Reads an integer: no plus sign, no leading zero, and zero has no sign. -/
def integer? : List Char → Option Int
  | '-' :: ds => do
    let n ← Text.Decimal.read? ds
    if n = 0 then none else return -(n : Int)
  | ds => Int.ofNat <$> Text.Decimal.read? ds

/-- Splits off the digits in front. -/
def digitsThen (cs : List Char) : List Char × List Char :=
  (cs.takeWhile Char.isDigit, cs.dropWhile Char.isDigit)

/-- The end of a number: nothing, or an exponent. -/
def isExponent : List Char → Bool
  | [] => true
  | e :: cs =>
    (e = 'e' || e = 'E') &&
      let ds := match cs with
        | '+' :: ds => ds
        | '-' :: ds => ds
        | ds => ds
      !ds.isEmpty && ds.all Char.isDigit

/-- What may follow the integer part of a number: a fraction, an exponent, both
or neither. -/
def isFraction : List Char → Bool
  | '.' :: cs =>
    let (ds, rest) := digitsThen cs
    !ds.isEmpty && isExponent rest
  | cs => isExponent cs

/-- Whether a word is a number. -/
def isNumber (word : List Char) : Bool :=
  let unsigned := match word with
    | '-' :: cs => cs
    | cs => cs
  let (ds, rest) := digitsThen unsigned
  Text.Decimal.isPlain ds && isFraction rest

/-- The token that a bare word is. -/
def ofWord? (word : List Char) : Option Token :=
  if word = ['n', 'u', 'l', 'l'] then some .null
  else if word = ['t', 'r', 'u', 'e'] then some (.bool true)
  else if word = ['f', 'a', 'l', 's', 'e'] then some (.bool false)
  else
    match integer? word with
    | some n => some (.int n)
    | none => if isNumber word then some (.real word) else none

/-- The tokens of a text, or none when some part of it is no token. -/
def scan (cs : List Char) : Option (List Token) :=
  match cs with
  | [] => some []
  | c :: rest =>
    if isBlank c then scan rest
    else
      match punctuation? c with
      | some t => (t :: ·) <$> scan rest
      | none =>
        if c = '\x22' then
          match h : Literal.scan rest with
          | some (l, rest') =>
            have := Literal.length_lt_of_scan h
            (.str l :: ·) <$> scan rest'
          | none => none
        else
          match ofWord? (c :: rest.takeWhile isBare) with
          | some t =>
            have : (rest.dropWhile isBare).length ≤ rest.length :=
              (List.dropWhile_suffix isBare).length_le
            (t :: ·) <$> scan (rest.dropWhile isBare)
          | none => none
termination_by cs.length
decreasing_by all_goals simp only [List.length_cons]; omega

/-- A token as written. -/
def chars : Token → List Char
  | .openObject => ['\x7b']
  | .closeObject => ['\x7d']
  | .openArray => ['[']
  | .closeArray => [']']
  | .comma => [',']
  | .colon => [':']
  | .null => ['n', 'u', 'l', 'l']
  | .bool true => ['t', 'r', 'u', 'e']
  | .bool false => ['f', 'a', 'l', 's', 'e']
  | .int n => Text.Decimal.signed n
  | .real w => w
  | .str l => l.quoted

end Token

end Json

end Dataflow
