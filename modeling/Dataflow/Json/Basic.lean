import Dataflow.Json.Token

/-!
# JSON values

Reading goes over the tokens once, with the open containers on a stack: at each
moment either a value, a key or a colon is due, or a value has just been
completed and a comma or a closing mark decides what becomes of it. Members keep
their order and may repeat a key; what a repetition means is for the reader of
the value to say.
-/

namespace Dataflow

/-- A JSON value. -/
inductive Json where
  | null
  | bool (b : Bool)
  | int (n : Int)
  /-- A number not written as an integer, as written. -/
  | real (written : List Char)
  | str (l : Json.Literal)
  | arr (items : List Json)
  | obj (members : List (Json.Literal × Json))

namespace Json

/-- An open container and what it holds so far, the latest first. -/
inductive Frame where
  | items (got : List Json)
  /-- The value of `key` is being read. -/
  | member (got : List (Literal × Json)) (key : Literal)

/-- Where a reader stands. -/
inductive Reading where
  /-- A value is due. -/
  | value (stack : List Frame)
  /-- An array has just been opened: a value or its end is due. -/
  | firstItem (stack : List Frame)
  /-- An object has just been opened: a key or its end is due. -/
  | firstKey (stack : List Frame)
  /-- A key is due. -/
  | key (stack : List Frame) (got : List (Literal × Json))
  /-- A colon is due. -/
  | colon (stack : List Frame) (got : List (Literal × Json)) (key : Literal)
  /-- A value is complete. -/
  | done (stack : List Frame) (v : Json)

namespace Reading

/-- A token where a value is due. -/
def begin (stack : List Frame) : Token → Option Reading
  | .null => some (.done stack .null)
  | .bool b => some (.done stack (.bool b))
  | .int n => some (.done stack (.int n))
  | .real w => some (.done stack (.real w))
  | .str l => some (.done stack (.str l))
  | .openArray => some (.firstItem stack)
  | .openObject => some (.firstKey stack)
  | _ => none

/-- A token after a complete value. -/
def close (v : Json) : List Frame → Token → Option Reading
  | .items got :: stack, .comma => some (.value (.items (v :: got) :: stack))
  | .items got :: stack, .closeArray =>
    some (.done stack (.arr (v :: got).reverse))
  | .member got k :: stack, .comma => some (.key stack ((k, v) :: got))
  | .member got k :: stack, .closeObject =>
    some (.done stack (.obj ((k, v) :: got).reverse))
  | _, _ => none

/-- Reads one token. -/
def step : Reading → Token → Option Reading
  | .value stack, t => begin stack t
  | .firstItem stack, .closeArray => some (.done stack (.arr []))
  | .firstItem stack, t => begin (.items [] :: stack) t
  | .firstKey stack, .closeObject => some (.done stack (.obj []))
  | .firstKey stack, .str k => some (.colon stack [] k)
  | .key stack got, .str k => some (.colon stack got k)
  | .colon stack got k, .colon => some (.value (.member got k :: stack))
  | .done stack v, t => close v stack t
  | _, _ => none

/-- The value read, when nothing is left open. -/
def result? : Reading → Option Json
  | .done [] v => some v
  | _ => none

end Reading

/-- The value that a list of tokens writes. -/
def ofTokens? (ts : List Token) : Option Json :=
  ts.foldlM Reading.step (.value []) >>= Reading.result?

/-- Reads a text that holds one value and nothing else but blanks. -/
def read? (text : String) : Option Json := Token.scan text.toList >>= ofTokens?

end Json

end Dataflow
