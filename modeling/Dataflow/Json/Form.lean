import Dataflow.Json.Layout
import Dataflow.KeyedList

/-!
# JSON forms of data

How the library's types are written as JSON and read back. A record is written
as an object with its fields in order, and read from an object in any order or
from an array of exactly its fields. Members with other names are passed over; a
field given twice is refused. An alternative without content is its name; one
with content is an object with that name as its only key.
-/

namespace Dataflow

/-- Types with a JSON form. -/
class JsonForm (α : Type) where
  encode : α → Json
  decode? : Json → Option α

namespace JsonForm

variable {α : Type} [JsonForm α]

/-- Reads a value from its JSON text. -/
def read? (text : String) : Option α := Json.read? text >>= decode?

/-- The compact JSON text of a value. -/
def write (a : α) : String := (encode a).compact

end JsonForm

namespace Json

/-- A string. -/
def text (s : String) : Json := .str (Literal.ofString s)

/-- An object with given member names. -/
def record (members : List (String × Json)) : Json :=
  .obj (members.map fun m => (Literal.ofString m.1, m.2))

/-- An alternative with content. -/
def tagged (name : String) (content : Json) : Json := record [(name, content)]

/-! ## Records -/

/-- The value of one field among members: there once, or not at all. -/
def field? (members : List (String × Json)) (name : String) :
    Option (Option Json) :=
  match members.filter fun m => m.1 = name with
  | [] => some none
  | [m] => some (some m.2)
  | _ => none

/-- Members with the texts of their names. -/
def namedMembers? (members : List (Literal × Json)) :
    Option (List (String × Json)) :=
  members.mapM fun m => m.1.text?.map fun name => (name, m.2)

/-- The fields of a record, in the order of `names`; `none` for one that is not
given. -/
def fields? (names : List String) : Json → Option (List (Option Json))
  | .obj members => do
    let members ← namedMembers? members
    names.mapM (field? members)
  | .arr items =>
    if items.length = names.length then some (items.map some) else none
  | _ => none

/-- The fields of a record whose fields all have defaults: an array may also be
shorter. -/
def fieldsOrFewer? (names : List String) : Json → Option (List (Option Json))
  | .arr items =>
    if items.length ≤ names.length then
      some (items.map some ++ List.replicate (names.length - items.length) none)
    else none
  | j => fields? names j

/-- A field that must be given. -/
def required {α : Type} [JsonForm α] (field : Option Json) : Option α :=
  field.bind JsonForm.decode?

/-- A field that has a default. -/
def orDefault {α : Type} [JsonForm α] (default : α) : Option Json → Option α
  | none => some default
  | some j => JsonForm.decode? j

/-- A field that may be missing or null. -/
def orNone {α : Type} [JsonForm α] : Option Json → Option (Option α)
  | none => some none
  | some .null => some none
  | some j => some <$> JsonForm.decode? j

/-! ## Alternatives -/

/-- The name of an alternative and its content. -/
def alternative? : Json → Option (String × Option Json)
  | .str l => l.text?.map fun name => (name, none)
  | .obj [(k, v)] => k.text?.map fun name => (name, some v)
  | _ => none

/-- An alternative without content may be written with a null one. -/
def isBare : Option Json → Bool
  | none => true
  | some .null => true
  | some _ => false

end Json

/-- Types that are a short list of named values. -/
class Named (α : Type) where
  all : List α
  name : α → String

namespace Named

variable {α : Type} [Named α]

/-- The value with a given name. -/
def ofName? (n : String) : Option α := (all : List α).find? fun a => name a = n

end Named

instance (priority := low) (α : Type) [Named α] : JsonForm α where
  encode a := .text (Named.name a)
  decode? j := do
    let (n, content) ← j.alternative?
    if Json.isBare content then Named.ofName? n else none

/-! ## Plain values -/

instance : JsonForm Bool where
  encode := .bool
  decode?
    | .bool b => some b
    | _ => none

instance : JsonForm String where
  encode := .text
  decode?
    | .str l => l.text?
    | _ => none

instance : JsonForm UInt32 where
  encode n := .int n.toNat
  decode?
    | .int n =>
      if 0 ≤ n ∧ n.toNat < UInt32.size then some (UInt32.ofNat n.toNat)
      else none
    | _ => none

instance : JsonForm Int64 where
  encode n := .int n.toInt
  decode?
    | .int n =>
      if Int64.minValue.toInt ≤ n ∧ n ≤ Int64.maxValue.toInt then
        some (Int64.ofInt n)
      else none
    | _ => none

/-- Counts are read up to the largest 64-bit word. -/
instance : JsonForm Nat where
  encode n := .int n
  decode?
    | .int n => if 0 ≤ n ∧ n.toNat < UInt64.size then some n.toNat else none
    | _ => none

instance (α : Type) [JsonForm α] : JsonForm (List α) where
  encode xs := .arr (xs.map JsonForm.encode)
  decode?
    | .arr items => items.mapM JsonForm.decode?
    | _ => none

instance (α : Type) [JsonForm α] : JsonForm (Option α) where
  encode
    | none => .null
    | some a => JsonForm.encode a
  decode? j := Json.orNone (some j)

end Dataflow
