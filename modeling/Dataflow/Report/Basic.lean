import Dataflow.Fact.Map
import Dataflow.Quad.Form

/-!
# Reports

What an analysis has to say about a method. A fact report lists the facts of
every quad by ascending number, between those of the method's two ends; a check
report lists the null checks that are not needed.
-/

namespace Dataflow

/-- The facts of one quad, as the texts of their elements. -/
structure ReportRow where
  id : QuadId
  before : List String
  after : List String
deriving DecidableEq

/-- The facts of one method. -/
structure FactReport where
  method : String
  entry : List String
  rows : List ReportRow
  exit : List String
deriving DecidableEq

/-- The null checks of one method that are not needed. -/
structure CheckReport where
  method : String
  redundant : List QuadId
deriving DecidableEq

namespace FactReport

variable {α : Type} [Element α]

/-- The report that shows a table. -/
def ofTable (method : String) (t : FactMap (OrdSet α)) : FactReport where
  method := method
  entry := (t.entry.map OrdSet.texts).getD []
  rows := t.slots.map fun s => ⟨s.1, s.2.before.texts, s.2.after.texts⟩
  exit := (t.exit.map OrdSet.texts).getD []

def row? (r : FactReport) (q : QuadId) : Option ReportRow :=
  r.rows.find? (·.id = q)

/-- A list in brackets. -/
def bracketed (texts : List String) : String :=
  "[" ++ ", ".intercalate texts ++ "]"

/-- The lines of a report. -/
def lines (r : FactReport) : List String :=
  ("entry: " ++ bracketed r.entry) ::
    r.rows.flatMap (fun row =>
      [row.id.text ++ " in:  " ++ bracketed row.before,
        row.id.text ++ " out: " ++ bracketed row.after]) ++
    ["exit: " ++ bracketed r.exit]

/-- The printed form of a report, without a line end at its end. -/
def text (r : FactReport) : String := "\n".intercalate r.lines

end FactReport

namespace CheckReport

/-- The printed form of a report: the method's name and the numbers of its
checks. -/
def text (r : CheckReport) : String :=
  r.method ++ String.join (r.redundant.map fun q => " " ++ q.text)

end CheckReport

/-! ## JSON forms -/

instance : JsonForm ReportRow where
  encode r :=
    .record [("id", JsonForm.encode r.id), ("in", JsonForm.encode r.before),
      ("out", JsonForm.encode r.after)]
  decode? j := do
    match ← j.fields? ["id", "in", "out"] with
    | [id, before, after] =>
      return ⟨← Json.required id, ← Json.required before, ← Json.required after⟩
    | _ => none

instance : JsonForm FactReport where
  encode r :=
    .record [("method", JsonForm.encode r.method),
      ("entry", JsonForm.encode r.entry), ("rows", JsonForm.encode r.rows),
      ("exit", JsonForm.encode r.exit)]
  decode? j := do
    match ← j.fields? ["method", "entry", "rows", "exit"] with
    | [method, entry, rows, exit] =>
      return ⟨← Json.required method, ← Json.required entry,
        ← Json.required rows, ← Json.required exit⟩
    | _ => none

instance : JsonForm CheckReport where
  encode r :=
    .record [("method", JsonForm.encode r.method),
      ("redundant", JsonForm.encode r.redundant)]
  decode? j := do
    match ← j.fields? ["method", "redundant"] with
    | [method, redundant] =>
      return ⟨← Json.required method, ← Json.required redundant⟩
    | _ => none

end Dataflow
