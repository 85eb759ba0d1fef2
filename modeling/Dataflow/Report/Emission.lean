import Dataflow.Report.Basic
import Dataflow.Report.Header

/-!
# Emission

Reports are written as text or as JSON. As text, each report is its printed form
line by line, under a header with the method's name if that is asked for. As
JSON, a report is its JSON form, and several reports are one array.
-/

namespace Dataflow

inductive Format where
  | text
  | json
deriving DecidableEq

instance : Named Format where
  all := [.text, .json]
  name
    | .text => "Text"
    | .json => "Json"

/-- What can be emitted: the report of one method. -/
class Report (ρ : Type) extends JsonForm ρ where
  method : ρ → String
  text : ρ → String

instance : Report FactReport where
  method := FactReport.method
  text := FactReport.text

instance : Report CheckReport where
  method := CheckReport.method
  text := CheckReport.text

/-- How reports are written. -/
structure Emission where
  colors : Bool := false
  headers : Bool := false
  format : Format := .text
  /-- Whether JSON is laid out on lines. -/
  pretty : Bool := true
deriving DecidableEq

/-- All settings have defaults. -/
instance : JsonForm Emission where
  encode e :=
    .record [("use_colors", JsonForm.encode e.colors),
      ("method_headers", JsonForm.encode e.headers),
      ("format", JsonForm.encode e.format),
      ("pretty_json", JsonForm.encode e.pretty)]
  decode? j := do
    match ← j.fieldsOrFewer?
      ["use_colors", "method_headers", "format", "pretty_json"] with
    | [colors, headers, format, pretty] =>
      let d : Emission := {}
      return ⟨← Json.orDefault d.colors colors,
        ← Json.orDefault d.headers headers, ← Json.orDefault d.format format,
        ← Json.orDefault d.pretty pretty⟩
    | _ => none

namespace Emission

/-- Emission as JSON. -/
def asJson : Emission := { format := .json }

/-- The context that the settings ask for, on a given terminal. -/
def context (e : Emission) (terminal : Bool) : Context := ⟨e.colors, terminal⟩

/-- A JSON value and a line end. -/
def jsonText (e : Emission) (j : Json) : String :=
  (if e.pretty then j.pretty else j.compact) ++ "\n"

variable {ρ : Type} [Report ρ]

/-- A report as text. -/
def reportText (e : Emission) (ctx : Context) (r : ρ) : String :=
  (if e.headers then Header.line ctx ("Method: " ++ Report.method r) else "") ++
    Text.relined (Report.text r)

/-- Writes one report for a given context. -/
def renderIn (e : Emission) (ctx : Context) (r : ρ) : String :=
  match e.format with
  | .text => e.reportText ctx r
  | .json => e.jsonText (JsonForm.encode r)

/-- Writes one report. -/
def render (e : Emission) (terminal : Bool) (r : ρ) : String :=
  e.renderIn (e.context terminal) r

/-- Writes the reports of several methods. -/
def renderAll (e : Emission) (terminal : Bool) (rs : List ρ) : String :=
  match e.format with
  | .text => String.join (rs.map (e.reportText (e.context terminal)))
  | .json => e.jsonText (JsonForm.encode rs)

end Emission

end Dataflow
