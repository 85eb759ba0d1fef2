import Dataflow.Graph.CheckInsertion
import Dataflow.Graph.Form
import Dataflow.Proofs.JsonText
import Dataflow.Report.Emission

/-!
# Reading undoes writing

Every type with a JSON form is read back from the text that is written for it.
The text of a value and the value of a text are inverse as long as tokens are
clean, so what is left to show of a type is that its form is clean and that
decoding undoes encoding. `LawfulForm` collects these two, and instances follow
the types: a record of lawful fields is lawful, and so is a list, an alternative
with lawful content, or a type of names.

Three places could go wrong. An option writes nothing as null, so the form of
its content must not be null (`Solid`). A record is read by names, so these must
be distinct. The blocks of a graph are written under decimal keys and come back
in the order in which they are written, so keys must read back and must not
repeat, which a keyed list guarantees.

Counts have no bound in themselves and are read up to the largest word, so they
come back only if they fit into one. No other form sets a bound.
-/

namespace Dataflow

/-! ## Values in clean form -/

namespace Json

theorem mem_itemTokens {t : Token} {xs : List Json} (h : t ∈ itemTokens xs) :
    t = .comma ∨ ∃ x ∈ xs, t ∈ x.tokens := by
  induction xs with
  | nil => cases h
  | cons x xs ih =>
      rw [itemTokens, List.mem_cons, List.mem_append] at h
      rcases h with rfl | h | h
      · exact Or.inl rfl
      · exact Or.inr ⟨x, List.mem_cons_self, h⟩
      · rcases ih h with rfl | ⟨y, hy, ht⟩
        · exact Or.inl rfl
        · exact Or.inr ⟨y, List.mem_cons_of_mem x hy, ht⟩

theorem mem_memberTokens {t : Token} {ms : List (Literal × Json)}
    (h : t ∈ memberTokens ms) :
    t = .comma ∨ t = .colon ∨ ∃ m ∈ ms, t = .str m.1 ∨ t ∈ m.2.tokens := by
  induction ms with
  | nil => cases h
  | cons m ms ih =>
      obtain ⟨k, v⟩ := m
      simp only [memberTokens, List.mem_cons, List.mem_append] at h
      rcases h with rfl | rfl | rfl | h | h
      · exact Or.inl rfl
      · exact Or.inr (Or.inr ⟨(k, v), List.mem_cons_self, Or.inl rfl⟩)
      · exact Or.inr (Or.inl rfl)
      · exact Or.inr (Or.inr ⟨(k, v), List.mem_cons_self, Or.inr h⟩)
      · rcases ih h with rfl | rfl | ⟨m, hm, ht⟩
        · exact Or.inl rfl
        · exact Or.inr (Or.inl rfl)
        · exact Or.inr (Or.inr ⟨m, List.mem_cons_of_mem _ hm, ht⟩)

theorem clean_arr {xs : List Json} (h : ∀ x ∈ xs, x.Clean) :
    (Json.arr xs).Clean := by
  intro t ht
  simp only [tokens, List.mem_cons, List.mem_append, List.not_mem_nil,
    or_false] at ht
  rcases ht with rfl | ht | rfl
  · trivial
  · rcases mem_itemTokens (List.mem_of_mem_drop ht) with rfl | ⟨x, hx, ht⟩
    · trivial
    · exact h x hx t ht
  · trivial

theorem clean_obj {ms : List (Literal × Json)}
    (h : ∀ m ∈ ms, m.1.Clean ∧ m.2.Clean) : (Json.obj ms).Clean := by
  intro t ht
  simp only [tokens, List.mem_cons, List.mem_append, List.not_mem_nil,
    or_false] at ht
  rcases ht with rfl | ht | rfl
  · trivial
  · rcases mem_memberTokens (List.mem_of_mem_drop ht) with
      rfl | rfl | ⟨m, hm, rfl | ht⟩
    · trivial
    · trivial
    · exact (h m hm).1
    · exact (h m hm).2 t ht
  · trivial

theorem clean_null : Json.null.Clean := by simp [Clean, tokens, Token.Clean]

theorem clean_bool (b : Bool) : (Json.bool b).Clean := by
  simp [Clean, tokens, Token.Clean]

theorem clean_int (n : Int) : (Json.int n).Clean := by
  simp [Clean, tokens, Token.Clean]

theorem clean_text (s : String) : (text s).Clean := by
  intro t ht
  rw [text, tokens, List.mem_singleton] at ht
  rw [ht]
  exact Literal.clean_ofString s

theorem clean_record {members : List (String × Json)}
    (h : ∀ m ∈ members, m.2.Clean) : (record members).Clean := by
  refine clean_obj fun m hm => ?_
  obtain ⟨member, hmember, rfl⟩ := List.mem_map.1 hm
  exact ⟨Literal.clean_ofString _, h member hmember⟩

theorem clean_tagged {name : String} {content : Json} (h : content.Clean) :
    (tagged name content).Clean :=
  clean_record fun m hm => by rw [List.mem_singleton.1 hm]; exact h

/-! ## Records and alternatives -/

theorem mapM_map_eq_some {α β γ : Type} {f : β → Option γ} {g : α → β}
    {k : α → γ} {xs : List α} (h : ∀ x ∈ xs, f (g x) = some (k x)) :
    (xs.map g).mapM f = some (xs.map k) := by
  induction xs with
  | nil => rfl
  | cons x xs ih =>
      rw [List.forall_mem_cons] at h
      rw [List.map_cons, List.mapM_cons, h.1, ih h.2]
      rfl

theorem namedMembers?_map (members : List (String × Json)) :
    namedMembers? (members.map fun m => (Literal.ofString m.1, m.2)) =
      some members := by
  have h : namedMembers? (members.map fun m => (Literal.ofString m.1, m.2)) =
      some (members.map id) :=
    mapM_map_eq_some fun m _ => by
      rw [Literal.text?_ofString]
      rfl
  rwa [List.map_id] at h

theorem field?_of_mem {members : List (String × Json)}
    (hnames : (members.map Prod.fst).Nodup) {m : String × Json}
    (hm : m ∈ members) :
    field? members m.1 = some (some m.2) := by
  have hfilter : members.filter (fun m' => m'.1 = m.1) = [m] := by
    induction members with
    | nil => cases hm
    | cons first rest ih =>
        rw [List.map_cons, List.nodup_cons] at hnames
        rcases List.mem_cons.1 hm with rfl | hm
        · rw [List.filter_cons_of_pos (by simp), List.filter_eq_nil_iff.2]
          intro m' hm' heq
          exact hnames.1 (List.mem_map.2 ⟨m', hm', by simpa using heq⟩)
        · have hne : first.1 ≠ m.1 :=
            fun heq => hnames.1 (heq ▸ List.mem_map.2 ⟨m, hm, rfl⟩)
          rw [List.filter_cons_of_neg (by simpa using hne)]
          exact ih hnames.2 hm
  rw [field?, hfilter]

/-- A record with distinct names is read back field by field. -/
theorem fields?_record (members : List (String × Json))
    (hnames : (members.map Prod.fst).Nodup) :
    fields? (members.map Prod.fst) (record members) =
      some (members.map fun m => some m.2) := by
  rw [record, fields?, namedMembers?_map]
  exact mapM_map_eq_some fun m hm => field?_of_mem hnames hm

/-- What is made of the fields of a record that has been written. -/
theorem bind_fields?_record {α : Type} (members : List (String × Json))
    (hnames : (members.map Prod.fst).Nodup)
    (k : List (Option Json) → Option α) :
    (fields? (members.map Prod.fst) (record members) >>= k) =
      k (members.map fun m => some m.2) := by
  rw [fields?_record members hnames]
  rfl

@[simp] theorem alternative?_tagged (name : String) (content : Json) :
    (tagged name content).alternative? = some (name, some content) := by
  show (Literal.ofString name).text?.map (fun n => (n, some content)) = _
  rw [Literal.text?_ofString]
  rfl

@[simp] theorem alternative?_text (name : String) :
    (text name).alternative? = some (name, none) := by
  show (Literal.ofString name).text?.map (fun n => (n, none)) = _
  rw [Literal.text?_ofString]
  rfl

end Json

/-! ## Lawful forms -/

/-- A type whose form is clean and read back. -/
class LawfulForm (α : Type) [JsonForm α] : Prop where
  clean : ∀ a : α, (JsonForm.encode a).Clean
  decode_encode : ∀ a : α, JsonForm.decode? (JsonForm.encode a) = some a

/-- A type whose form is never null. -/
class Solid (α : Type) [JsonForm α] : Prop where
  ne_null : ∀ a : α, JsonForm.encode a ≠ .null

/-- A type of which each value is found by its name. -/
class LawfulNames (α : Type) [Named α] : Prop where
  ofName?_name : ∀ a : α, Named.ofName? (Named.name a) = some a

attribute [simp] LawfulForm.decode_encode LawfulNames.ofName?_name

namespace Json

variable {α : Type} [JsonForm α] [LawfulForm α]

@[simp] theorem required_encode (a : α) :
    required (some (JsonForm.encode a)) = some a :=
  LawfulForm.decode_encode a

@[simp] theorem orDefault_encode (default a : α) :
    orDefault default (some (JsonForm.encode a)) = some a :=
  LawfulForm.decode_encode a

omit [LawfulForm α] in
theorem orNone_some {j : Json} (h : j ≠ .null) :
    (orNone (some j) : Option (Option α)) = some <$> JsonForm.decode? j := by
  cases j with
  | null => exact absurd rfl h
  | _ => rfl

@[simp] theorem orNone_encode [Solid α] (o : Option α) :
    orNone (some (JsonForm.encode o)) = some o := by
  cases o with
  | none => rfl
  | some a =>
      show orNone (some (JsonForm.encode a)) = some (some a)
      rw [orNone_some (Solid.ne_null a), LawfulForm.decode_encode]
      rfl

end Json

section Plain

instance (priority := low) (α : Type) [Named α]
    [LawfulNames α] : LawfulForm α where
  clean a := Json.clean_text _
  decode_encode a := by
    simp [JsonForm.decode?, JsonForm.encode, Json.isBare]

instance : LawfulForm Bool := ⟨Json.clean_bool, fun _ => rfl⟩

instance : LawfulForm String := ⟨Json.clean_text, Json.Literal.text?_ofString⟩

instance : Solid String := ⟨fun _ => nofun⟩

instance : LawfulForm UInt32 where
  clean n := Json.clean_int _
  decode_encode n := by
    have hlt : n.toNat < UInt32.size := n.toNat_lt
    simp [JsonForm.decode?, JsonForm.encode, hlt]

instance : LawfulForm Int64 where
  clean n := Json.clean_int _
  decode_encode n := by
    have hrange : Int64.minValue.toInt ≤ n.toInt ∧
        n.toInt ≤ Int64.maxValue.toInt :=
      ⟨n.minValue_le_toInt, n.toInt_le⟩
    show (if _ then some (Int64.ofInt n.toInt) else none) = some n
    rw [if_pos hrange, Int64.ofInt_toInt]

instance (α : Type) [JsonForm α] [LawfulForm α] : LawfulForm (List α) where
  clean xs := Json.clean_arr fun j hj => by
    obtain ⟨x, -, rfl⟩ := List.mem_map.1 hj
    exact LawfulForm.clean x
  decode_encode xs := by
    have h : JsonForm.decode? (JsonForm.encode xs) = some (xs.map id) :=
      Json.mapM_map_eq_some fun x _ => LawfulForm.decode_encode x
    rwa [List.map_id] at h

instance (α : Type) [JsonForm α] [LawfulForm α] [Solid α] :
    LawfulForm (Option α) where
  clean
    | none => Json.clean_null
    | some a => LawfulForm.clean a
  decode_encode o := Json.orNone_encode o

end Plain

/-! ## Quads -/

section Quads

instance : LawfulForm QuadId where
  clean q := LawfulForm.clean q.val
  decode_encode q :=
    congrArg (Option.map QuadId.mk) (LawfulForm.decode_encode q.val)

instance : LawfulForm BlockId where
  clean b := LawfulForm.clean b.val
  decode_encode b :=
    congrArg (Option.map BlockId.mk) (LawfulForm.decode_encode b.val)

instance : LawfulForm Register where
  clean r := LawfulForm.clean r.name
  decode_encode r :=
    congrArg (Option.map Register.mk) (LawfulForm.decode_encode r.name)

instance : Solid Register := ⟨fun r => Solid.ne_null r.name⟩

instance : LawfulNames BinaryOp := ⟨fun op => by cases op <;> rfl⟩

instance : LawfulNames UnaryOp := ⟨fun op => by cases op <;> rfl⟩

instance : LawfulNames Condition := ⟨fun c => by cases c <;> rfl⟩

instance : LawfulNames Opcode := ⟨fun op => by cases op <;> rfl⟩

instance : LawfulForm Constant where
  clean
    | .int n => Json.clean_tagged (LawfulForm.clean n)
    | .null => Json.clean_text _
    | .str s => Json.clean_tagged (Json.clean_text s)
  decode_encode
    | .int n => by
        show (Json.alternative? (.tagged _ _) >>= _) = _
        rw [Json.alternative?_tagged]
        exact congrArg (Option.map Constant.int) (LawfulForm.decode_encode n)
    | .null => by
        show (Json.alternative? (.text _) >>= _) = _
        rw [Json.alternative?_text]
        rfl
    | .str s => by
        show (Json.alternative? (.tagged _ _) >>= _) = _
        rw [Json.alternative?_tagged]
        exact congrArg (Option.map Constant.str) (LawfulForm.decode_encode s)

instance : LawfulForm Operand where
  clean
    | .reg r => Json.clean_tagged (LawfulForm.clean r)
    | .const c => Json.clean_tagged (LawfulForm.clean c)
  decode_encode
    | .reg r => by
        show (Json.alternative? (.tagged _ _) >>= _) = _
        rw [Json.alternative?_tagged]
        exact congrArg (Option.map Operand.reg) (LawfulForm.decode_encode r)
    | .const c => by
        show (Json.alternative? (.tagged _ _) >>= _) = _
        rw [Json.alternative?_tagged]
        exact congrArg (Option.map Operand.const) (LawfulForm.decode_encode c)

instance : Solid Operand := ⟨fun o => by cases o <;> nofun⟩

namespace Instr

theorem fieldNames_nodup (op : Opcode) : (fieldNames op).Nodup := by
  cases op <;> decide

theorem length_fields (i : Instr) :
    i.fields.length = (fieldNames i.opcode).length := by
  cases i <;> rfl

theorem clean_fields (i : Instr) : ∀ j ∈ i.fields, j.Clean := by
  cases i <;> simp [fields, LawfulForm.clean]

/-- The fields of an instruction make it up again. -/
theorem ofFields?_fields {i : Instr} (h : i ≠ .nop) :
    ofFields? i.opcode (i.fields.map some) = some i := by
  cases i with
  | nop => exact absurd rfl h
  | _ => simp [ofFields?, fields, opcode]

theorem encode_eq {i : Instr} (h : i ≠ .nop) : JsonForm.encode i =
    .tagged (Named.name i.opcode)
      (.record ((fieldNames i.opcode).zip i.fields)) := by
  cases i with
  | nop => exact absurd rfl h
  | _ => rfl

theorem decode_tagged {op : Opcode} (h : op ≠ .nop) (content : Json) :
    JsonForm.decode? (Json.tagged (Named.name op) content) =
      (Json.fields? (fieldNames op) content >>= ofFields? op) := by
  show (Json.alternative? _ >>= _) = _
  rw [Json.alternative?_tagged]
  show (Named.ofName? (Named.name op) >>= _) = _
  rw [LawfulNames.ofName?_name]
  cases op with
  | nop => exact absurd rfl h
  | _ => rfl

end Instr

instance : LawfulForm Instr where
  clean i := by
    by_cases h : i = .nop
    · rw [h]
      exact Json.clean_text _
    · rw [Instr.encode_eq h]
      refine Json.clean_tagged (Json.clean_record fun m hm => ?_)
      exact Instr.clean_fields i m.2 (List.of_mem_zip hm).2
  decode_encode i := by
    by_cases h : i = .nop
    · rw [h]
      show (Json.alternative? (.text _) >>= _) = _
      rw [Json.alternative?_text]
      rfl
    · have hop : i.opcode ≠ .nop := by
        cases i with
        | nop => exact absurd rfl h
        | _ => nofun
      have hnames : ((Instr.fieldNames i.opcode).zip i.fields).map Prod.fst =
          Instr.fieldNames i.opcode :=
        List.map_fst_zip (Nat.le_of_eq i.length_fields.symm)
      have hfields :
          ((Instr.fieldNames i.opcode).zip i.fields).map (fun m => some m.2) =
          i.fields.map some :=
        List.map_map.symm.trans
          (congrArg (List.map some)
            (List.map_snd_zip (Nat.le_of_eq i.length_fields)))
      have hread :=
        Json.fields?_record ((Instr.fieldNames i.opcode).zip i.fields)
          (by rw [hnames]; exact Instr.fieldNames_nodup i.opcode)
      rw [hnames, hfields] at hread
      rw [Instr.encode_eq h, Instr.decode_tagged hop, hread]
      exact Instr.ofFields?_fields h

instance : LawfulForm Quad where
  clean q := Json.clean_record (by simp [LawfulForm.clean])
  decode_encode q :=
    (Json.bind_fields?_record [("id", _), ("kind", _)] (by simp) _).trans
      (by simp)

end Quads

/-! ## Graphs -/

section Graphs

instance : LawfulForm Block where
  clean b := Json.clean_record (by simp [LawfulForm.clean])
  decode_encode b :=
    (Json.bind_fields?_record
      [("id", _), ("quads", _), ("predecessors", _), ("successors", _)]
      (by simp) _).trans (by simp)

instance : LawfulForm Method where
  clean m := Json.clean_record (by simp [LawfulForm.clean])
  decode_encode m :=
    (Json.bind_fields?_record [("name", _), ("params", _)] (by simp) _).trans
      (by simp)

theorem Json.Literal.piece_of_isDigit {c : Char} (h : c.isDigit) :
    piece c = .raw c := by
  have hlow : 48 ≤ c.toNat := by
    simp only [Char.isDigit, Bool.and_eq_true, decide_eq_true_eq] at h
    exact h.1
  have hspecial : ¬(c = '\x22' ∨ c = '\\') := by
    rintro (rfl | rfl) <;> cases h
  rw [piece, if_neg hspecial, if_neg (by omega)]

theorem Json.Literal.plain?_map_piece {cs : List Char}
    (h : ∀ c ∈ cs, c.isDigit) : plain? (cs.map piece) = some cs := by
  induction cs with
  | nil => rfl
  | cons c cs ih =>
      rw [List.forall_mem_cons] at h
      rw [List.map_cons, piece_of_isDigit h.1]
      show (c :: ·) <$> plain? (cs.map piece) = some (c :: cs)
      rw [ih h.2]
      rfl

/-- A block number reads back from its key. -/
theorem BlockId.ofKey?_key (b : BlockId) : ofKey? b.key = some b := by
  have hplain : b.key.plain? = some (Text.Decimal.digits b.val.toNat) := by
    rw [key, Json.Literal.ofString, Text.Decimal.text, String.toList_ofList]
    exact Json.Literal.plain?_map_piece fun c hc =>
      Text.Decimal.isDigit_of_mem_digits hc
  have hlt : b.val.toNat < UInt32.size := b.val.toNat_lt
  simp [ofKey?, hplain, Text.Decimal.read?_digits, hlt]

namespace KeyedList

variable {κ β : Type} [DecidableEq κ]

theorem entries_insert_of_notMem {m : KeyedList κ β} {k : κ} (h : k ∉ m.keys)
    (v : β) : (m.insert k v).entries = m.entries ++ [(k, v)] := by
  rw [insert, dif_neg h]

theorem entries_foldl_insert {l : List (κ × β)} {m : KeyedList κ β}
    (h : (m.keys ++ l.map Prod.fst).Nodup) :
    (l.foldl (fun m e => m.insert e.1 e.2) m).entries = m.entries ++ l := by
  induction l generalizing m with
  | nil => simp
  | cons e l ih =>
      have hnew : e.1 ∉ m.keys := fun hmem =>
        (List.nodup_append.1 h).2.2 e.1 hmem e.1 (by simp) rfl
      rw [List.foldl_cons, ih, entries_insert_of_notMem hnew]
      · simp
      · rw [keys_insert, if_neg hnew]
        simpa using h

/-- Storing the entries of a keyed list in their order makes it up again. -/
theorem ofList_entries (m : KeyedList κ β) : ofList m.entries = m :=
  eq_of_entries (entries_foldl_insert (m := empty) m.nodup)

end KeyedList

instance : LawfulForm (KeyedList BlockId Block) where
  clean m := Json.clean_obj fun member hmember => by
    obtain ⟨e, -, rfl⟩ := List.mem_map.1 hmember
    exact ⟨Json.Literal.clean_ofString _, LawfulForm.clean e.2⟩
  decode_encode m := by
    have hentries : (m.entries.map fun e => (e.1.key, JsonForm.encode e.2)).mapM
        (fun member => do
          return (← BlockId.ofKey? member.1, ← JsonForm.decode? member.2)) =
        some (m.entries.map id) :=
      Json.mapM_map_eq_some fun e _ => by simp [BlockId.ofKey?_key]
    rw [List.map_id] at hentries
    show (List.mapM _ _ >>= _) = _
    rw [hentries]
    exact congrArg some m.ofList_entries

instance : LawfulForm Graph where
  clean g := Json.clean_record (by simp [LawfulForm.clean])
  decode_encode g :=
    (Json.bind_fields?_record
      [("method", _), ("blocks", _), ("next_quad_id", _), ("next_block_id", _)]
      (by simp) _).trans (by simp)

end Graphs

/-! ## Reports and settings -/

section Reports

instance : LawfulForm ReportRow where
  clean r := Json.clean_record (by simp [LawfulForm.clean])
  decode_encode r :=
    (Json.bind_fields?_record [("id", _), ("in", _), ("out", _)]
      (by simp) _).trans (by simp)

instance : LawfulForm FactReport where
  clean r := Json.clean_record (by simp [LawfulForm.clean])
  decode_encode r :=
    (Json.bind_fields?_record
      [("method", _), ("entry", _), ("rows", _), ("exit", _)]
      (by simp) _).trans (by simp)

instance : LawfulForm CheckReport where
  clean r := Json.clean_record (by simp [LawfulForm.clean])
  decode_encode r :=
    (Json.bind_fields?_record [("method", _), ("redundant", _)]
      (by simp) _).trans (by simp)

instance : LawfulNames Format := ⟨fun f => by cases f <;> rfl⟩

instance : LawfulForm Emission where
  clean e := Json.clean_record (by simp [LawfulForm.clean])
  decode_encode e :=
    (Json.bind_fields?_record
      [("use_colors", _), ("method_headers", _), ("format", _),
        ("pretty_json", _)]
      (by simp) _).trans (by simp)

end Reports

/-! ## Counts -/

/-- Whether each count fits into the largest word. -/
def CheckStats.Fits (s : CheckStats) : Prop :=
  s.sites < UInt64.size ∧ s.inserted < UInt64.size ∧ s.skipped < UInt64.size

instance (s : CheckStats) : Decidable s.Fits :=
  inferInstanceAs (Decidable (_ ∧ _ ∧ _))

namespace Json

theorem required_encode_nat {n : Nat} (h : n < UInt64.size) :
    required (some (JsonForm.encode n)) = some n := by
  show (if 0 ≤ (n : Int) ∧ (n : Int).toNat < UInt64.size
    then some (n : Int).toNat else none) = some n
  rw [if_pos ⟨Int.natCast_nonneg n, h⟩, Int.toNat_natCast]

theorem lt_of_required {field : Option Json} {n : Nat}
    (h : required field = some n) : n < UInt64.size := by
  obtain ⟨j, -, hj⟩ := Option.bind_eq_some_iff.1 h
  cases j with
  | int k =>
      obtain ⟨⟨-, hlt⟩, hn⟩ := Option.ite_none_right_eq_some.1 hj
      cases hn
      exact hlt
  | _ => cases hj

end Json

namespace CheckStats

theorem decode_encode {s : CheckStats} (h : s.Fits) :
    JsonForm.decode? (JsonForm.encode s) = some s :=
  (Json.bind_fields?_record [("sites", _), ("inserted", _), ("skipped", _)]
    (by simp) _).trans (by simp [Json.required_encode_nat, h.1, h.2.1, h.2.2])

theorem fits_of_decode {j : Json} {s : CheckStats}
    (h : JsonForm.decode? j = some s) :
    s.Fits := by
  obtain ⟨fields, -, h⟩ := Option.bind_eq_some_iff.1 h
  split at h
  · obtain ⟨sites, hsites, h⟩ := Option.bind_eq_some_iff.1 h
    obtain ⟨inserted, hinserted, h⟩ := Option.bind_eq_some_iff.1 h
    obtain ⟨skipped, hskipped, h⟩ := Option.bind_eq_some_iff.1 h
    cases h
    exact ⟨Json.lt_of_required hsites, Json.lt_of_required hinserted,
      Json.lt_of_required hskipped⟩
  · cases h

end CheckStats

/-! ## Round trips -/

namespace JsonForm

/-- The text written for the value that a text reads as. -/
def rewrite? (α : Type) [JsonForm α] (text : String) : Option String :=
  (read? text : Option α).map write

/-- Reading undoes writing on the values that fit: these are read back from
their texts, no other value is ever read, and what is written for an accepted
text stays as it is when it is read and written again. -/
structure RoundTripsOn (α : Type) [JsonForm α] (Fits : α → Prop) : Prop where
  read_write : ∀ a : α, Fits a → read? (write a) = some a
  fits_of_read : ∀ (text : String) (a : α), read? text = some a → Fits a
  rewrite_fixed : ∀ text canonical : String,
    rewrite? α text = some canonical → rewrite? α canonical = some canonical

/-- Reading undoes writing on all values. -/
def RoundTrips (α : Type) [JsonForm α] : Prop := RoundTripsOn α fun _ => True

theorem RoundTripsOn.of_decode {α : Type} [JsonForm α] {Fits : α → Prop}
    (hclean : ∀ a : α, (encode a).Clean)
    (hencode : ∀ a : α, Fits a → decode? (encode a) = some a)
    (hdecode : ∀ (j : Json) (a : α), decode? j = some a → Fits a) :
    RoundTripsOn α Fits := by
  have hread : ∀ a : α, Fits a → read? (write a) = some a := by
    intro a ha
    rw [read?, write, Json.read?_compact (hclean a)]
    exact hencode a ha
  have hfits : ∀ (text : String) (a : α), read? text = some a → Fits a := by
    intro text a h
    obtain ⟨j, -, hj⟩ := Option.bind_eq_some_iff.1 h
    exact hdecode j a hj
  refine ⟨hread, hfits, fun text canonical h => ?_⟩
  obtain ⟨a, ha, rfl⟩ := Option.map_eq_some_iff.1 h
  rw [rewrite?, hread a (hfits text a ha)]
  rfl

theorem RoundTrips.of_lawful {α : Type} [JsonForm α] [LawfulForm α] :
    RoundTrips α :=
  RoundTripsOn.of_decode LawfulForm.clean
    (fun a _ => LawfulForm.decode_encode a)
    fun _ _ _ => trivial

/-- Every form is read back from the text written for it: instructions and their
parts, blocks, graphs with their blocks in order, reports and settings without
any bound, and statistics as far as counts are words. -/
theorem reading_undoes_writing :
    RoundTrips Constant ∧ RoundTrips Operand ∧ RoundTrips Instr ∧
      RoundTrips Quad ∧ RoundTrips Block ∧ RoundTrips Method ∧
      RoundTrips Graph ∧ RoundTrips FactReport ∧ RoundTrips CheckReport ∧
      RoundTripsOn CheckStats CheckStats.Fits ∧
      RoundTrips Emission := by
  have hstats : RoundTripsOn CheckStats CheckStats.Fits :=
    .of_decode (fun s => Json.clean_record (by simp [encode, Json.clean_int]))
      (fun _ h => CheckStats.decode_encode h) fun _ _ h =>
        CheckStats.fits_of_decode h
  exact ⟨.of_lawful, .of_lawful, .of_lawful, .of_lawful, .of_lawful, .of_lawful,
    .of_lawful, .of_lawful, .of_lawful, hstats, .of_lawful⟩

end JsonForm

end Dataflow
