import Dataflow.Proofs.JsonText
import Dataflow.Report.Emission

/-!
# When written text is the printed form

A report is written as text by taking its printed form apart into lines and
ending each of them anew. Mostly that gives back the printed form and a line
feed. It cannot when a line was ended with two characters, since one of them is
lost; when the text ends with a line end, since there is no further line to end;
and when there is no text at all. `LineClean` rules out these three, and
`flatMap_ended_eq_iff` says that nothing else goes wrong. It follows the
recursion that splits the text: a character is kept wherever it stands, except
for a carriage return in front of a line feed.

For a report of facts only the elements can offend. A pair of characters in its
printed form lies within one piece or across the joint of two, and every joint
has a bracket, a comma or a blank on the side that matters.
-/

namespace Dataflow

namespace Text

/-- A carriage return and a line feed behind it: two characters and one line
end. -/
def crlf : List Char := ['\r', '\n']

/-- A text that is not empty, does not end with a line end, and ends none of its
lines with two characters. -/
def LineClean (text : List Char) : Prop :=
  text ≠ [] ∧ text.getLast? ≠ some '\n' ∧ ¬ crlf <:+: text

instance (text : List Char) : Decidable (LineClean text) :=
  inferInstanceAs (Decidable (_ ∧ _))

/-! ## Pairs in joined texts -/

@[simp] theorem crlf_ne_nil : crlf ≠ [] := nofun

theorem crlf_infix_cons {c : Char} {rest : List Char} :
    crlf <:+: c :: rest ↔ (c = '\r' ∧ rest.head? = some '\n') ∨
      crlf <:+: rest := by
  rw [List.infix_cons_iff, crlf, List.cons_prefix_cons]
  refine or_congr_left (and_congr eq_comm ?_)
  cases rest with
  | nil => simp
  | cons d rest => simp [List.cons_prefix_cons, eq_comm]

theorem not_crlf_infix_of_notMem {text : List Char} (h : '\r' ∉ text) :
    ¬ crlf <:+: text := fun hpair => h (hpair.subset List.mem_cons_self)

/-- Two texts make no new pair, unless the first ends with a carriage return and
the second begins with a line feed. -/
theorem crlf_infix_append {front back : List Char}
    (h : front.getLast? ≠ some '\r' ∨ back.head? ≠ some '\n') :
    crlf <:+: front ++ back ↔ crlf <:+: front ∨ crlf <:+: back := by
  induction front with
  | nil => simp
  | cons c front ih =>
      rw [List.cons_append, crlf_infix_cons, crlf_infix_cons]
      cases front with
      | nil =>
          have hjoint : ¬ (c = '\r' ∧ back.head? = some '\n') := by
            simpa [imp_iff_not_or] using h
          simp [hjoint]
      | cons d front =>
          rw [List.getLast?_cons_cons] at h
          rw [ih h, List.cons_append, List.head?_cons, List.head?_cons,
            or_assoc]

theorem crlf_infix_intercalate {sep : List Char} {parts : List (List Char)}
    (hsep : sep ≠ []) (hlast : sep.getLast? ≠ some '\r')
    (hpair : ¬ crlf <:+: sep)
    (hparts : ∀ part ∈ parts, part.getLast? ≠ some '\r' ∨
      sep.head? ≠ some '\n') :
    crlf <:+: sep.intercalate parts ↔ ∃ part ∈ parts, crlf <:+: part := by
  induction parts with
  | nil => simp
  | cons part rest ih =>
      have ih := ih fun x hx => hparts x (List.mem_cons_of_mem _ hx)
      cases rest with
      | nil => simp
      | cons next rest =>
          have hfront : (part ++ sep).getLast? ≠ some '\r' := by
            rwa [List.getLast?_append_of_ne_nil _ hsep]
          rw [List.intercalate_cons_cons, crlf_infix_append (Or.inl hfront),
            crlf_infix_append (hparts part List.mem_cons_self), ih,
            List.exists_mem_cons_iff (l := next :: rest), or_iff_left hpair]

theorem getLast?_intercalate {sep last : List Char} (hlast : last ≠ [])
    (front : List (List Char)) :
    (sep.intercalate (front ++ [last])).getLast? = last.getLast? := by
  induction front with
  | nil => simp
  | cons part rest ih =>
      have hne : sep.intercalate (rest ++ [last]) ≠ [] := by
        intro hnil
        rw [hnil] at ih
        exact hlast (List.getLast?_eq_none_iff.1 ih.symm)
      obtain ⟨next, others, heq⟩ := List.exists_cons_of_ne_nil
        (List.append_ne_nil_of_right_ne_nil rest (List.cons_ne_nil last []))
      rw [heq] at hne ih
      rw [List.cons_append, heq, List.intercalate_cons_cons,
        List.getLast?_append_of_ne_nil _ hne, ih]

/-! ## Lines ended anew -/

theorem lineClean_singleton {c : Char} : LineClean [c] ↔ c ≠ '\n' := by
  simp [LineClean, crlf_infix_cons]

theorem lineClean_cons {c : Char} {rest : List Char} (h : rest ≠ []) :
    LineClean (c :: rest) ↔
      ¬ (c = '\r' ∧ rest.head? = some '\n') ∧ LineClean rest := by
  have hlast : (c :: rest).getLast? = rest.getLast? := by
    obtain ⟨d, rest, rfl⟩ := List.exists_cons_of_ne_nil h
    exact List.getLast?_cons_cons
  simp only [LineClean, hlast, crlf_infix_cons, not_or]
  tauto

theorem lines_eq_nil_iff {text : List Char} : lines text = [] ↔ text = [] := by
  fun_cases lines text <;> simp_all

/-- Ending all lines of a text alike puts a line feed behind it and changes
nothing else, exactly when the text is clean. -/
theorem flatMap_ended_eq_iff (text : List Char) :
    (lines text).flatMap ended = text ++ ['\n'] ↔ LineClean text := by
  fun_induction lines text with
  | case1 => simp [LineClean]
  | case2 rest ih =>
      by_cases hrest : rest = []
      · subst hrest
        simp [lineClean_singleton, lines, ended]
      · rw [lineClean_cons hrest, ← ih]
        simp [ended]
  | case3 rest ih => simp [lineClean_cons, ended]
  | case4 c rest hfeed hpair hnone ih =>
      obtain rfl := lines_eq_nil_iff.1 hnone
      simpa [lineClean_singleton, ended] using hfeed
  | case5 c rest hfeed hpair l ls hlines ih =>
      have hrest : rest ≠ [] := fun h => by simp [h, lines] at hlines
      have hopen : ¬ (c = '\r' ∧ rest.head? = some '\n') := by
        rintro ⟨hc, hhead⟩
        obtain ⟨tail, htail⟩ := List.head?_eq_some_iff.1 hhead
        exact hpair tail hc htail
      rw [lineClean_cons hrest, and_iff_right hopen, ← ih, hlines]
      simp [ended]

theorem relined_eq_iff (text : String) :
    relined text = text ++ "\n" ↔ LineClean text.toList := by
  rw [← flatMap_ended_eq_iff, ← String.toList_inj, relined,
    String.toList_ofList, String.toList_append]
  rfl

end Text

/-! ## Reports of facts -/

namespace FactReport

open Text

/-- What a report shows: the elements of all its facts. -/
def elements (r : FactReport) : List String :=
  r.entry ++ r.rows.flatMap (fun row => row.before ++ row.after) ++ r.exit

/-- The facts of a report, each with the label of its line. -/
def labelled (r : FactReport) : List (String × List String) :=
  ("entry: ", r.entry) ::
    r.rows.flatMap (fun row =>
      [(row.id.text ++ " in:  ", row.before),
        (row.id.text ++ " out: ", row.after)]) ++
    [("exit: ", r.exit)]

theorem lines_eq (r : FactReport) :
    r.lines = r.labelled.map fun part => part.1 ++ bracketed part.2 := by
  simp [lines, labelled, List.map_flatMap]

theorem mem_elements {r : FactReport} {t : String} :
    t ∈ r.elements ↔ ∃ part ∈ r.labelled, t ∈ part.2 := by
  have hlists : r.elements = r.labelled.flatMap Prod.snd := by
    simp [elements, labelled, List.flatMap_assoc]
  rw [hlists, List.mem_flatMap]

theorem notMem_label {r : FactReport} {part : String × List String}
    (h : part ∈ r.labelled) : '\r' ∉ part.1.toList := by
  have hdigits : ∀ i : QuadId, '\r' ∉ i.text.toList := by
    intro i hmem
    rw [QuadId.text, Text.Decimal.text, String.toList_ofList] at hmem
    exact absurd (Text.Decimal.isDigit_of_mem_digits hmem) (by decide)
  have hcases : part.1 = "entry: " ∨ part.1 = "exit: " ∨
      ∃ i : QuadId, part.1 = i.text ++ " in:  " ∨
        part.1 = i.text ++ " out: " := by
    simp only [labelled, List.mem_append, List.mem_cons, List.mem_flatMap] at h
    grind
  rcases hcases with hlabel | hlabel | ⟨i, hlabel | hlabel⟩
  · simp [hlabel]
  · simp [hlabel]
  · simp [hlabel, hdigits i]
  · simp [hlabel, hdigits i]

theorem toList_bracketed (texts : List String) : (bracketed texts).toList =
    '[' :: ([',', ' '].intercalate (texts.map String.toList) ++ [']']) := by
  simp [bracketed, String.toList_intercalate]

theorem getLast?_line (label : String) (texts : List String) :
    (label ++ bracketed texts).toList.getLast? = some ']' := by
  rw [String.toList_append, toList_bracketed, ← List.cons_append,
    ← List.append_assoc, List.getLast?_concat]

theorem crlf_infix_line {label : String} (hlabel : '\r' ∉ label.toList)
    (texts : List String) :
    crlf <:+: (label ++ bracketed texts).toList ↔
      ∃ t ∈ texts, crlf <:+: t.toList := by
  have hlast : label.toList.getLast? ≠ some '\r' :=
    fun h => hlabel (List.mem_of_getLast? h)
  have hinner : crlf <:+: [',', ' '].intercalate (texts.map String.toList) ↔
      ∃ t ∈ texts, crlf <:+: t.toList := by
    rw [crlf_infix_intercalate (by simp) (by simp) (by decide)
      (fun _ _ => Or.inr (by simp))]
    simp
  rw [String.toList_append, crlf_infix_append (Or.inl hlast),
    or_iff_right (not_crlf_infix_of_notMem hlabel), toList_bracketed,
    crlf_infix_cons, crlf_infix_append (Or.inr (by simp)), hinner]
  simp [crlf_infix_cons]

theorem toList_text (r : FactReport) : r.text.toList = ['\n'].intercalate
    (r.labelled.map fun part => (part.1 ++ bracketed part.2).toList) := by
  rw [text, String.toList_intercalate, lines_eq, List.map_map]
  rfl

theorem getLast?_text (r : FactReport) : r.text.toList.getLast? = some ']' := by
  have hlast := getLast?_line "exit: " r.exit
  have hne : ("exit: " ++ bracketed r.exit).toList ≠ [] := by
    intro hnil
    rw [hnil] at hlast
    cases hlast
  rw [toList_text, labelled, List.map_append, List.map_singleton,
    getLast?_intercalate hne, hlast]

/-- The printed form of a report has a pair where an element has one. -/
theorem crlf_infix_text (r : FactReport) :
    crlf <:+: r.text.toList ↔ ∃ t ∈ r.elements, crlf <:+: t.toList := by
  have hends :
      ∀ line ∈ r.labelled.map fun part => (part.1 ++ bracketed part.2).toList,
      line.getLast? ≠ some '\r' ∨ ['\n'].head? ≠ some '\n' := by
    intro line hline
    obtain ⟨part, -, rfl⟩ := List.mem_map.1 hline
    rw [getLast?_line]
    exact Or.inl (by decide)
  rw [toList_text, crlf_infix_intercalate (by simp) (by simp) (by decide) hends]
  constructor
  · rintro ⟨line, hline, hpair⟩
    obtain ⟨part, hpart, rfl⟩ := List.mem_map.1 hline
    obtain ⟨t, ht, hpair⟩ := (crlf_infix_line (notMem_label hpart) _).1 hpair
    exact ⟨t, mem_elements.2 ⟨part, hpart, ht⟩, hpair⟩
  · rintro ⟨t, ht, hpair⟩
    obtain ⟨part, hpart, ht⟩ := mem_elements.1 ht
    exact ⟨_, List.mem_map_of_mem hpart,
      (crlf_infix_line (notMem_label hpart) _).2 ⟨t, ht, hpair⟩⟩

theorem lineClean_text_iff (r : FactReport) :
    LineClean r.text.toList ↔ ∀ t ∈ r.elements, ¬ crlf <:+: t.toList := by
  have hlast := r.getLast?_text
  have hne : r.text.toList ≠ [] := by
    intro hnil
    rw [hnil] at hlast
    cases hlast
  rw [LineClean, hlast, crlf_infix_text]
  simp [hne]

end FactReport

/-! ## Emission -/

namespace Emission

variable {e : Emission} {ρ : Type} [Report ρ]

theorem render_eq_reportText (h : e.format = .text) (terminal : Bool) (r : ρ) :
    e.render terminal r = e.reportText (e.context terminal) r := by
  rw [render, renderIn, h]

theorem reportText_plain (h : e.headers = false) (ctx : Context) (r : ρ) :
    e.reportText ctx r = Text.relined (Report.text r) := by
  rw [reportText, h]
  exact String.empty_append

/-- Without colours a header is written as it is. -/
theorem header_line {ctx : Context} (h : ctx.colors = false) (text : String) :
    Header.line ctx text = text ++ "\n" := by
  rw [Header.line, Header.styled, h, ← String.toList_inj, String.toList_ofList,
    String.toList_append]
  rfl

/-- As text and without colours, several reports are written as each of them one
after the other. A header is a line of its own in front of what is written
without it. What is written without headers is the printed form and a line feed,
exactly when the printed form is not empty, does not end with a line end and has
no line that is ended with two characters; for a report of facts, when no
element has such a line end. -/
theorem text_emission_exact {e : Emission} (hformat : e.format = .text)
    (hcolors : e.colors = false) (terminal : Bool) :
    (∀ (ρ : Type) [Report ρ] (rs : List ρ),
      e.renderAll terminal rs = String.join (rs.map (e.render terminal))) ∧
    (e.headers = true → ∀ (ρ : Type) [Report ρ] (r : ρ),
      e.render terminal r = "Method: " ++ Report.method r ++ "\n" ++
        ({ e with headers := false } : Emission).render terminal r) ∧
    (e.headers = false → ∀ (ρ : Type) [Report ρ] (r : ρ),
      e.render terminal r = Report.text r ++ "\n" ↔
        Text.LineClean (Report.text r).toList) ∧
    (e.headers = false → ∀ r : FactReport,
      e.render terminal r = r.text ++ "\n" ↔
        ∀ t ∈ r.elements, ¬ Text.crlf <:+: t.toList) := by
  have hplain : e.headers = false → ∀ (ρ : Type) [Report ρ] (r : ρ),
      e.render terminal r = Report.text r ++ "\n" ↔
        Text.LineClean (Report.text r).toList := by
    intro hheaders ρ _ r
    rw [render_eq_reportText hformat, reportText_plain hheaders]
    exact Text.relined_eq_iff _
  refine ⟨fun ρ _ rs => ?_, fun hheaders ρ _ r => ?_, hplain,
    fun hheaders r => ?_⟩
  · have heach : rs.map (e.render terminal) =
        rs.map (e.reportText (e.context terminal)) :=
      List.map_congr_left fun r _ => render_eq_reportText hformat terminal r
    rw [heach, renderAll, hformat]
  · have hbare : ({ e with headers := false } : Emission).format = .text :=
      hformat
    rw [render_eq_reportText hformat, render_eq_reportText hbare,
      reportText_plain (e := { e with headers := false }) rfl, reportText,
      if_pos hheaders, header_line hcolors]
  · exact (hplain hheaders FactReport r).trans r.lineClean_text_iff

/-- A line feed inside an element is kept and a pair is not, a report without a
name and without checks is written as nothing, and headers stand between
reports. -/
theorem text_emission_exact_pairs :
    let plain : Emission := {}
    let headed : Emission := { headers := true }
    let kept : FactReport := ⟨"m", ["a\nb"], [⟨⟨7⟩, [], ["\r"]⟩], []⟩
    let lost : FactReport := ⟨"m", ["a"], [⟨⟨7⟩, ["b\r\n"], []⟩], []⟩
    let nameless : CheckReport := ⟨"", []⟩
    let checks : CheckReport := ⟨"foo", [⟨3⟩, ⟨11⟩]⟩
    plain.format = .text ∧ headed.format = .text ∧
      plain.colors = false ∧ headed.colors = false ∧
      plain.render false kept = kept.text ++ "\n" ∧
      plain.render false lost ≠ lost.text ++ "\n" ∧
      plain.render false nameless ≠ nameless.text ++ "\n" ∧
      plain.render false checks = checks.text ++ "\n" ∧
      headed.renderAll false [checks, nameless] =
        "Method: foo\nfoo 3 11\nMethod: \n" := by
  intro plain headed kept lost nameless checks
  obtain ⟨-, -, hclean, hfacts⟩ :=
    text_emission_exact (e := plain) rfl rfl false
  obtain ⟨hall, hheader, -⟩ := text_emission_exact (e := headed) rfl rfl false
  have hchecks : plain.render false checks = checks.text ++ "\n" :=
    (hclean rfl CheckReport checks).2 (by decide +kernel)
  refine ⟨rfl, rfl, rfl, rfl, (hfacts rfl kept).2 (by decide +kernel),
    fun h => ?_, fun h => ?_, hchecks, ?_⟩
  · exact absurd ((hfacts rfl lost).1 h) (by decide +kernel)
  · exact absurd ((hclean rfl CheckReport nameless).1 h) (by decide +kernel)
  · rw [hall, List.map_cons, List.map_cons, hheader rfl, hheader rfl, hchecks]
    decide +kernel

end Emission

end Dataflow
