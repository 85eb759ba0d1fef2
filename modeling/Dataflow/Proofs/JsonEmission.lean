import Dataflow.Proofs.JsonForms

/-!
# Emitted JSON reads back

Reports are emitted as JSON in one of two layouts, and a line feed ends either
of them. Both layouts are lists of marks that show the tokens of one value: the
compact one has no other marks, and the pretty one has line breaks, indentation
and blanks in between, and none inside of an empty container. Since a value is
read from every layout of its tokens (`Json.read?_marks`), what is left to show
of the pretty layout is that leaving out its blanks leaves the tokens
(`Json.filterMap_marks`). This goes by induction on the value, items and members
along with it; the depth plays no part.

No setting matters beyond the layout. Headers and colours are for text only.
-/

namespace Dataflow

namespace Json

/-! ## The tokens of a layout -/

/-- A container drops the first of its parts' marks, which has to be a token:
the comma before the first of them. -/
theorem filterMap_enclose (opening closing : Token) (depth : Nat)
    {parts : List Mark} (h : ∀ m ∈ parts.head?, m = .token .comma) :
    (enclose opening closing depth parts).filterMap Mark.token? =
      opening :: ((parts.filterMap Mark.token?).drop 1 ++ [closing]) := by
  cases parts with
  | nil => rfl
  | cons m rest =>
      obtain rfl : m = .token .comma := h m rfl
      simp [enclose, Mark.token?, List.filterMap_cons]

mutual

/-- Without its blanks, the layout of a value is the list of its tokens. -/
theorem filterMap_marks : ∀ (depth : Nat) (j : Json),
    (marks depth j).filterMap Mark.token? = j.tokens
  | _, .null | _, .bool _ | _, .int _ | _, .real _ | _, .str _ => by
      rw [marks, tokens]
      rfl
  | depth, .arr xs => by
      have hcomma : ∀ m ∈ (itemMarks (depth + 1) xs).head?,
          m = .token .comma := by
        cases xs <;> simp [itemMarks]
      rw [marks, tokens, filterMap_enclose _ _ _ hcomma, filterMap_itemMarks]
  | depth, .obj ms => by
      have hcomma : ∀ m ∈ (memberMarks (depth + 1) ms).head?,
          m = .token .comma := by
        cases ms <;> simp [memberMarks]
      rw [marks, tokens, filterMap_enclose _ _ _ hcomma, filterMap_memberMarks]

theorem filterMap_itemMarks : ∀ (depth : Nat) (xs : List Json),
    (itemMarks depth xs).filterMap Mark.token? = itemTokens xs
  | _, [] => by
      rw [itemMarks, itemTokens]
      rfl
  | depth, x :: xs => by
      simp only [itemMarks, itemTokens, List.filterMap_cons,
        List.filterMap_append, Mark.token?, filterMap_marks depth x,
        filterMap_itemMarks depth xs]

theorem filterMap_memberMarks : ∀ (depth : Nat) (ms : List (Literal × Json)),
    (memberMarks depth ms).filterMap Mark.token? = memberTokens ms
  | _, [] => by
      rw [memberMarks, memberTokens]
      rfl
  | depth, (k, v) :: ms => by
      simp only [memberMarks, memberTokens, List.filterMap_cons,
        List.filterMap_append, Mark.token?, filterMap_marks depth v,
        filterMap_memberMarks depth ms]

end

end Json

namespace Emission

/-! ## Emission -/

/-- The marks of a value that is emitted, its line end included. -/
def layout (e : Emission) (j : Json) : List Json.Mark :=
  (if e.pretty then j.marks 0 else j.tokens.map .token) ++ [.line 0]

theorem jsonText_eq (e : Emission) (j : Json) :
    e.jsonText j = String.ofList ((e.layout j).flatMap Json.Mark.chars) := by
  rw [jsonText, layout, List.flatMap_append, String.ofList_append]
  split
  · rfl
  · rw [← Json.compactChars_eq]
    rfl

theorem filterMap_layout (e : Emission) (j : Json) :
    (e.layout j).filterMap Json.Mark.token? = j.tokens := by
  have hline : [Json.Mark.line 0].filterMap Json.Mark.token? = [] := rfl
  rw [layout, List.filterMap_append, hline, List.append_nil]
  split
  · exact Json.filterMap_marks 0 j
  · exact Json.filterMap_map_token j.tokens

theorem read?_jsonText (e : Emission) {j : Json} (h : j.Clean) :
    Json.read? (e.jsonText j) = some j := by
  rw [jsonText_eq]
  exact Json.read?_marks h (e.filterMap_layout j)

theorem getLast?_jsonText (e : Emission) (j : Json) :
    (e.jsonText j).toList.getLast? = some '\n' := by
  rw [jsonText, String.toList_append]
  exact List.getLast?_concat

variable {ρ : Type} [Report ρ]

theorem render_eq_jsonText {e : Emission} (h : e.format = .json)
    (terminal : Bool) (r : ρ) :
    e.render terminal r = e.jsonText (JsonForm.encode r) := by
  rw [render, renderIn, h]

theorem renderAll_eq_jsonText {e : Emission} (h : e.format = .json)
    (terminal : Bool) (rs : List ρ) :
    e.renderAll terminal rs = e.jsonText (JsonForm.encode rs) := by
  rw [renderAll, h]

/-- What the settings emit for reports of one type is read back, and says the
same to a reader as what any other settings for JSON emit. -/
structure ReadsBack (e : Emission) (terminal : Bool) (ρ : Type) [Report ρ] :
    Prop where
  all_ended : ∀ rs : List ρ, (e.renderAll terminal rs).toList.getLast? =
    some '\n'
  all_read : ∀ rs : List ρ, JsonForm.read? (e.renderAll terminal rs) = some rs
  one_read : ∀ r : ρ, JsonForm.read? (e.render terminal r) = some r
  all_same : ∀ (e' : Emission) (terminal' : Bool), e'.format = .json →
    ∀ rs : List ρ,
    Json.read? (e'.renderAll terminal' rs) =
      Json.read? (e.renderAll terminal rs)
  one_same : ∀ (e' : Emission) (terminal' : Bool), e'.format = .json → ∀ r : ρ,
    Json.read? (e'.render terminal' r) = Json.read? (e.render terminal r)

theorem ReadsBack.of_lawful [LawfulForm ρ] {e : Emission} (h : e.format = .json)
    (terminal : Bool) : e.ReadsBack terminal ρ where
  all_ended rs := by
    rw [renderAll_eq_jsonText h]
    exact e.getLast?_jsonText _
  all_read rs := by
    rw [JsonForm.read?, renderAll_eq_jsonText h,
      read?_jsonText e (LawfulForm.clean rs)]
    exact LawfulForm.decode_encode rs
  one_read r := by
    rw [JsonForm.read?, render_eq_jsonText h,
      read?_jsonText e (LawfulForm.clean r)]
    exact LawfulForm.decode_encode r
  all_same e' terminal' h' rs := by
    rw [renderAll_eq_jsonText h, renderAll_eq_jsonText h',
      read?_jsonText e (LawfulForm.clean rs),
      read?_jsonText e' (LawfulForm.clean rs)]
  one_same e' terminal' h' r := by
    rw [render_eq_jsonText h, render_eq_jsonText h',
      read?_jsonText e (LawfulForm.clean r),
      read?_jsonText e' (LawfulForm.clean r)]

/-- As JSON, reports of both types are emitted so that they can be read back,
one by one and as one array, whatever else the settings are. -/
theorem json_emission_reads_back {e : Emission} (hformat : e.format = .json)
    (terminal : Bool) :
    e.ReadsBack terminal FactReport ∧ e.ReadsBack terminal CheckReport :=
  ⟨.of_lawful hformat terminal, .of_lawful hformat terminal⟩

/-- Both layouts of a report whose name has to be escaped, and an array with
control characters and empty lists in it. -/
theorem json_emission_reads_back_layouts :
    let pretty : Emission := .asJson
    let compact : Emission :=
      { colors := true, headers := true, format := .json, pretty := false }
    let checks : CheckReport := ⟨"a\"b", [⟨3⟩]⟩
    let facts : FactReport :=
      ⟨"é\\", [], [⟨⟨7⟩, ["\x01", "a\r\n"], []⟩], ["R1"]⟩
    pretty.format = .json ∧ compact.format = .json ∧
      pretty.render false checks =
        "\x7b\n  \"method\": \"a\\\"b\",\n  \"redundant\": [\n    3\n  ]\n\x7d\n" ∧
      compact.render true checks =
        "\x7b\"method\":\"a\\\"b\",\"redundant\":[3]\x7d\n" ∧
      JsonForm.read? (pretty.render false checks) = some checks ∧
      JsonForm.read? (compact.render true checks) = some checks ∧
      JsonForm.read? (pretty.renderAll false [facts, facts]) =
        some [facts, facts] ∧
      Json.read? (compact.renderAll true [facts]) =
        Json.read? (pretty.renderAll false [facts]) := by
  intro pretty compact checks facts
  obtain ⟨hfacts, hchecks⟩ := json_emission_reads_back (e := pretty) rfl false
  obtain ⟨-, hcompact⟩ := json_emission_reads_back (e := compact) rfl true
  refine ⟨rfl, rfl, by decide +kernel, by decide +kernel,
    hchecks.one_read checks, hcompact.one_read checks,
    hfacts.all_read [facts, facts], ?_⟩
  exact hfacts.all_same compact true rfl [facts]

end Emission

end Dataflow
