import Mathlib.Data.List.Chain
import Dataflow.Json.Layout

/-!
# A written JSON value reads back

Writing goes from a value to its tokens and from these to characters; reading
takes the same two steps back. Each step is inverted on its own.

From characters to tokens the difficulty is where a token ends. Punctuation and
literals say so themselves, but a bare word reaches as far as it can, so two
words side by side would be read as one. A written value has no two words side
by side (`apart_tokens`), and blanks in between do no harm, so what is shown of
the scanner is about any list of marks in which words stand apart
(`scan_marks`). It follows that a value is read back from every layout of its
tokens (`read?_marks`).

From tokens to values the reader keeps its open containers on a stack. After the
tokens of a value it stands with that value complete, whatever the stack is
(`foldlM_tokens`), and the stack is what the induction has to leave open.

Not every value comes back: a literal or a number can be held in a form that its
own written form does not have. `Token.Clean` says which tokens do.
-/

namespace Dataflow

/-! ## Numbers -/

namespace Text.Decimal

theorem value_digits (n : Nat) : value (digits n) = n := by
  have h := Nat.ofDigitChars_ten_toDigits (n := n)
  rwa [Nat.ofDigitChars_eq_foldl] at h

theorem isDigit_of_mem_digits {n : Nat} {c : Char} (h : c ∈ digits n) :
    c.isDigit :=
  Nat.isDigit_of_mem_toDigits (by omega) (by omega) h

theorem head_digits_ne_zero {n : Nat} (h : 0 < n) :
    (digits n).head? ≠ some '0' := by
  induction n using Nat.strongRecOn with
  | ind n ih =>
      rw [digits]
      by_cases hlt : n < 10
      · rw [Nat.toDigits_of_lt_base hlt]
        simpa [Nat.digitChar_eq_zero] using Nat.ne_of_gt h
      · rw [Nat.toDigits_of_base_le (by omega) (by omega),
          List.head?_append_of_ne_nil _ Nat.toDigits_ne_nil]
        exact ih (n / 10) (by omega) (by omega)

theorem isPlain_digits (n : Nat) : isPlain (digits n) := by
  rcases Nat.eq_zero_or_pos n with rfl | hpos
  · rfl
  · have hhead := head_digits_ne_zero hpos
    have hall : (digits n).all Char.isDigit :=
      List.all_eq_true.2 fun c hc => isDigit_of_mem_digits hc
    cases hds : digits n with
    | nil => exact absurd hds Nat.toDigits_ne_nil
    | cons c cs =>
        rw [hds] at hhead hall
        have hc : c ≠ '0' := by simpa using hhead
        unfold isPlain
        split
        · next heq => cases heq
        · rfl
        · next heq =>
            cases heq
            rw [hall]
            simpa using hc

theorem read?_digits (n : Nat) : read? (digits n) = some n := by
  rw [read?, if_pos (isPlain_digits n), value_digits]

end Text.Decimal

namespace Json

namespace Token

open Text.Decimal

theorem integer?_signed (n : Int) : integer? (signed n) = some n := by
  unfold signed
  split
  · next hneg =>
      have hne : n.natAbs ≠ 0 := by omega
      simp only [integer?, read?_digits]
      show (if n.natAbs = 0 then none else some (-(n.natAbs : Int))) = some n
      rw [if_neg hne, show -(n.natAbs : Int) = n by omega]
  · next hpos =>
      have hread : integer? (digits n.natAbs) =
          Int.ofNat <$> Text.Decimal.read? (digits n.natAbs) := by
        unfold integer?
        split
        · next ds heq =>
            have hminus : '-' ∈ digits n.natAbs := by simp [heq]
            exact absurd (isDigit_of_mem_digits hminus) (by decide)
        · rfl
      rw [hread, read?_digits]
      show some (n.natAbs : Int) = some n
      rw [show (n.natAbs : Int) = n by omega]

theorem signed_chars {n : Int} {c : Char} (h : c ∈ signed n) :
    c = '-' ∨ c.isDigit := by
  unfold signed at h
  split at h
  · rcases List.mem_cons.1 h with rfl | h
    · exact Or.inl rfl
    · exact Or.inr (isDigit_of_mem_digits h)
  · exact Or.inr (isDigit_of_mem_digits h)

end Token

/-! ## Literals -/

/-- A piece that stands in the form that reading gives it. -/
def Piece.Clean : Piece → Prop
  | .raw c => c ≠ '\x22' ∧ c ≠ '\\' ∧ 0x20 ≤ c.toNat
  | .short c => (Literal.letter? c).isSome
  | .unit n => n < 0x10000

namespace Literal

/-- A literal of which every piece reads back. -/
def Clean (l : Literal) : Prop := ∀ p ∈ l, p.Clean

theorem hexValue?_hexDigit {n : Nat} (h : n < 16) :
    hexValue? (hexDigit n) = some n := by
  decide +revert

theorem unit?_hexDigits {n : Nat} (h : n < 0x10000) :
    unit? (hexDigit (n / 4096 % 16)) (hexDigit (n / 256 % 16))
      (hexDigit (n / 16 % 16)) (hexDigit (n % 16)) = some n := by
  simp only [unit?, hexValue?_hexDigit (Nat.mod_lt _ (by omega : 16 > 0))]
  show some (4096 * (n / 4096 % 16) + 256 * (n / 256 % 16) +
    16 * (n / 16 % 16) + n % 16) = some n
  congr 1
  omega

/-- A character with a letter is meant by that letter, which is not the one that
announces a number. -/
theorem meaning?_letter {c e : Char} (h : letter? c = some e) :
    meaning? e = some c ∧ e ≠ 'u' := by
  obtain ⟨pair, hfind, rfl⟩ := Option.map_eq_some_iff.1 h
  have hc : pair.2 = c := by simpa using List.find?_some hfind
  have hmem := List.mem_of_find?_eq_some hfind
  have hall : ∀ p ∈ shortEscapes, meaning? p.1 = some p.2 ∧ p.1 ≠ 'u' := by
    decide
  rw [← hc]
  exact hall pair hmem

theorem scan_piece {p : Piece} (hp : p.Clean) {cs rest : List Char}
    {l : Literal} (h : scan cs = some (l, rest)) :
    scan (p.chars ++ cs) = some (p :: l, rest) := by
  cases p with
  | raw c =>
      obtain ⟨hquote, hslash, hprints⟩ := hp
      have hraw : ¬ (c.toNat < 0x20 ∨ c = '\\') := by
        rintro (hlt | rfl)
        · omega
        · exact hslash rfl
      show scan (c :: cs) = some (.raw c :: l, rest)
      rw [scan, if_neg hraw, h]
      · exact hquote
      · exact fun _ _ _ _ _ hc => absurd hc hslash
      · exact fun _ _ hc => absurd hc hslash
  | short c =>
      obtain ⟨e, he⟩ := Option.isSome_iff_exists.1 hp
      obtain ⟨hmeaning, hu⟩ := meaning?_letter he
      simp only [Piece.chars, he, Option.getD_some]
      show scan ('\\' :: e :: cs) = some (.short c :: l, rest)
      rw [scan, hmeaning, h]
      exact fun _ _ _ _ _ he => absurd he hu
  | unit n =>
      show scan ('\\' :: 'u' :: hexDigit (n / 4096 % 16) ::
        hexDigit (n / 256 % 16) :: hexDigit (n / 16 % 16) ::
        hexDigit (n % 16) :: cs) = some (.unit n :: l, rest)
      rw [scan, unit?_hexDigits hp, h]

/-- A clean literal is read up to its closing quote. -/
theorem scan_quoted {l : Literal} (h : l.Clean) (rest : List Char) :
    scan (l.flatMap Piece.chars ++ '\x22' :: rest) = some (l, rest) := by
  induction l with
  | nil => rw [List.flatMap_nil, List.nil_append, scan]
  | cons p l ih =>
      rw [List.flatMap_cons, List.append_assoc]
      exact scan_piece (h p List.mem_cons_self)
        (ih fun q hq => h q (List.mem_cons_of_mem p hq))

theorem clean_piece (c : Char) : (piece c).Clean := by
  unfold piece
  split
  · next hspecial => rcases hspecial with rfl | rfl <;> rfl
  · next hplain =>
      split
      · next hcontrol =>
          split
          · next e he => exact Option.isSome_iff_exists.2 ⟨e, he⟩
          · show c.toNat < 0x10000
            omega
      · next hprints =>
          exact ⟨fun hc => hplain (Or.inl hc), fun hc => hplain (Or.inr hc),
            by omega⟩

theorem clean_ofString (s : String) : (ofString s).Clean := by
  intro p hp
  obtain ⟨c, -, rfl⟩ := List.mem_map.1 hp
  exact clean_piece c

/-- A control character is no half of a surrogate pair, so it counts alone. -/
theorem chars?_unit {n : Nat} (h : n < 0x20) (l : Literal) :
    chars? (.unit n :: l) = (Char.ofNat n :: ·) <$> chars? l := by
  have hhigh : isHigh n = false := by simp [isHigh]; omega
  have hlow : isLow n = false := by simp [isLow]; omega
  cases l with
  | nil => simp [chars?, hhigh, hlow]
  | cons p l => cases p <;> simp [chars?, hhigh, hlow]

theorem chars?_piece (c : Char) (l : Literal) :
    chars? (piece c :: l) = (c :: ·) <$> chars? l := by
  unfold piece
  split
  · rfl
  · split
    · next hcontrol =>
        split
        · rfl
        · rw [chars?_unit hcontrol, Char.ofNat_toNat]
    · rfl

theorem chars?_map_piece (cs : List Char) :
    chars? (cs.map piece) = some cs := by
  induction cs with
  | nil => rfl
  | cons c cs ih =>
      rw [List.map_cons, chars?_piece, ih]
      rfl

/-- The literal that writes a text stands for that text. -/
theorem text?_ofString (s : String) : (ofString s).text? = some s := by
  rw [text?, ofString, chars?_map_piece]
  show some (String.ofList s.toList) = some s
  rw [String.ofList_toList]

end Literal

/-! ## From characters to tokens -/

namespace Token

/-- A token that is a bare word, and the word is read as it. -/
structure Word (t : Token) : Prop where
  bare : ∀ c ∈ t.chars, isBare c
  reads : ofWord? t.chars = some t

/-- A token that stands in the form that reading gives it. -/
def Clean : Token → Prop
  | .str l => l.Clean
  | .real w => (Token.real w).Word
  | _ => True

/-- Whether a token is a bare word. -/
def isWord : Token → Bool
  | .null => true
  | .bool _ => true
  | .int _ => true
  | .real _ => true
  | _ => false

theorem isBare_of_isDigit {c : Char} (h : c.isDigit) : isBare c := by
  have hne : ∀ d : Char, d.isDigit = false → c ≠ d := by
    rintro d hd rfl
    rw [h] at hd
    cases hd
  simp [isBare, isBlank, punctuation?, hne ' ' (by decide),
    hne '\n' (by decide), hne '\t' (by decide), hne '\r' (by decide),
    hne '\x7b' (by decide), hne '\x7d' (by decide), hne '[' (by decide),
    hne ']' (by decide), hne ',' (by decide), hne ':' (by decide),
    hne '\x22' (by decide)]

theorem word_int (n : Int) : (Token.int n).Word := by
  have hchars : ∀ c ∈ (Token.int n).chars, c = '-' ∨ c.isDigit :=
    fun c => signed_chars
  refine ⟨fun c hc => ?_, ?_⟩
  · rcases hchars c hc with rfl | hdigit
    · rfl
    · exact isBare_of_isDigit hdigit
  · have hname : ∀ d : Char, d ≠ '-' → d.isDigit = false → ∀ rest,
        (Token.int n).chars ≠ d :: rest := by
      intro d hminus hd rest heq
      rcases hchars d (by simp [heq]) with rfl | hdigit
      · exact hminus rfl
      · rw [hd] at hdigit
        cases hdigit
    rw [ofWord?, if_neg (hname 'n' (by decide) (by decide) _),
      if_neg (hname 't' (by decide) (by decide) _),
      if_neg (hname 'f' (by decide) (by decide) _)]
    have hread : integer? (Token.int n).chars = some n := integer?_signed n
    rw [hread]

theorem Clean.word {t : Token} (h : t.Clean) (hword : t.isWord) : t.Word := by
  cases t with
  | null => exact ⟨List.all_eq_true.1 rfl, rfl⟩
  | bool b => cases b <;> exact ⟨List.all_eq_true.1 rfl, rfl⟩
  | int n => exact word_int n
  | real w => exact h
  | _ => cases hword

/-- A text that no word can run on into. -/
def Ends (cs : List Char) : Prop := ∀ c ∈ cs.head?, isBare c = false

theorem Ends.span {rest : List Char} (h : Ends rest) :
    rest.takeWhile isBare = [] ∧ rest.dropWhile isBare = rest := by
  cases rest with
  | nil => exact ⟨rfl, rfl⟩
  | cons c rest =>
      have hc : isBare c = false := h c rfl
      simp [hc]

theorem Word.scan {t : Token} (h : t.Word) {rest : List Char}
    (hrest : Ends rest) : scan (t.chars ++ rest) = (t :: ·) <$> scan rest := by
  cases hchars : t.chars with
  | nil =>
      have hnone := h.reads
      rw [hchars] at hnone
      cases hnone
  | cons c w =>
      have hbare := h.bare
      rw [hchars, List.forall_mem_cons] at hbare
      obtain ⟨hc, hw⟩ := hbare
      simp only [isBare, Bool.and_eq_true, Bool.not_eq_true',
        Option.isNone_iff_eq_none, bne_iff_ne] at hc
      obtain ⟨⟨hblank, hpunct⟩, hquote⟩ := hc
      have htake : (w ++ rest).takeWhile isBare = w := by
        rw [List.takeWhile_append_of_pos hw, hrest.span.1, List.append_nil]
      have hdrop : (w ++ rest).dropWhile isBare = rest := by
        rw [List.dropWhile_append_of_pos hw, hrest.span.2]
      rw [List.cons_append, Token.scan, if_neg (by simp [hblank]), hpunct]
      simp only [if_neg hquote, htake, hdrop, ← hchars, h.reads]

theorem scan_str {l : Literal} (h : l.Clean) (rest : List Char) :
    scan ((Token.str l).chars ++ rest) = (.str l :: ·) <$> scan rest := by
  have hquoted : Literal.scan (l.flatMap Piece.chars ++ ['\x22'] ++ rest) =
      some (l, rest) := by
    rw [List.append_assoc]
    exact Literal.scan_quoted h rest
  show scan ('\x22' :: (l.flatMap Piece.chars ++ ['\x22'] ++ rest)) = _
  rw [scan, if_neg (by decide)]
  split
  · next t ht => cases ht
  · rw [if_pos rfl]
    split
    · next l' rest' heq =>
        rw [hquoted] at heq
        cases heq
        rfl
    · next heq =>
        rw [hquoted] at heq
        cases heq

theorem scan_punctuation {c : Char} {t : Token} (hblank : isBlank c = false)
    (h : punctuation? c = some t) (rest : List Char) :
    scan (c :: rest) = (t :: ·) <$> scan rest := by
  rw [scan, if_neg (by simp [hblank]), h]

/-- A clean token is read from the front of a text, if it is no word or the text
behind it does not go on with one. -/
theorem scan_token {t : Token} (h : t.Clean) {rest : List Char}
    (hrest : t.isWord → Ends rest) :
    scan (t.chars ++ rest) = (t :: ·) <$> scan rest := by
  cases t with
  | openObject => exact scan_punctuation rfl rfl rest
  | closeObject => exact scan_punctuation rfl rfl rest
  | openArray => exact scan_punctuation rfl rfl rest
  | closeArray => exact scan_punctuation rfl rfl rest
  | comma => exact scan_punctuation rfl rfl rest
  | colon => exact scan_punctuation rfl rfl rest
  | str l => exact scan_str h rest
  | null => exact (h.word rfl).scan (hrest rfl)
  | bool b => exact (h.word rfl).scan (hrest rfl)
  | int n => exact (h.word rfl).scan (hrest rfl)
  | real w => exact (h.word rfl).scan (hrest rfl)

theorem scan_blanks {blanks : List Char} (h : ∀ c ∈ blanks, isBlank c)
    (rest : List Char) : scan (blanks ++ rest) = scan rest := by
  induction blanks with
  | nil => rfl
  | cons c blanks ih =>
      rw [List.forall_mem_cons] at h
      rw [List.cons_append, scan, if_pos h.1, ih h.2]

/-- Only a word begins with a character of words. -/
theorem ends_chars {t : Token} (h : t.isWord = false) (rest : List Char) :
    Ends (t.chars ++ rest) := by
  intro c hc
  cases t with
  | null | bool | int | real => cases h
  | openObject | closeObject | openArray | closeArray | comma | colon =>
      cases hc
      decide
  | str l =>
      cases hc
      decide

end Token

/-! ## Layouts -/

namespace Mark

/-- The token that a mark shows. -/
def token? : Mark → Option Token
  | .token t => some t
  | _ => none

/-- Whether a mark is a bare word. -/
def isWord (m : Mark) : Bool := (m.token?.map Token.isWord).getD false

theorem isBlank_of_mem_chars {m : Mark} (h : m.token? = none) :
    ∀ c ∈ m.chars, Token.isBlank c := by
  intro c hc
  cases m with
  | token t => cases h
  | line depth =>
      rcases List.mem_cons.1 hc with rfl | hc
      · rfl
      · rw [List.eq_of_mem_replicate hc]
        rfl
  | blank =>
      rw [List.mem_singleton.1 hc]
      rfl

theorem ends_chars {m : Mark} (h : m.isWord = false) (rest : List Char) :
    Token.Ends (m.chars ++ rest) := by
  cases m with
  | token t => exact Token.ends_chars h rest
  | line depth | blank =>
      intro c hc
      cases hc
      rfl

end Mark

/-- No two words stand side by side. -/
def Spaced (marks : List Mark) : Prop :=
  marks.IsChain fun a b => a.isWord → ¬ b.isWord

/-- A text laid out from clean tokens, words apart, is read as these tokens. -/
theorem scan_marks {marks : List Mark} (hspaced : Spaced marks)
    (hclean : ∀ m ∈ marks, ∀ t, m.token? = some t → t.Clean) :
    Token.scan (marks.flatMap Mark.chars) =
      some (marks.filterMap Mark.token?) := by
  induction marks with
  | nil => rw [List.flatMap_nil, Token.scan]; rfl
  | cons m marks ih =>
      rw [List.forall_mem_cons] at hclean
      have hrest := ih hspaced.tail hclean.2
      rw [List.flatMap_cons]
      cases hm : m.token? with
      | none =>
          rw [Token.scan_blanks (Mark.isBlank_of_mem_chars hm), hrest,
            List.filterMap_cons_none hm]
      | some t =>
          obtain rfl : m = .token t := by
            cases m <;> simp_all [Mark.token?]
          have hends : t.isWord → Token.Ends (marks.flatMap Mark.chars) := by
            intro hword
            cases marks with
            | nil => exact fun c hc => absurd hc (by simp)
            | cons next marks =>
                have hnext : ¬ next.isWord :=
                  (List.isChain_cons_cons.1 hspaced).1 hword
                exact Mark.ends_chars (by simpa using hnext) _
          rw [List.filterMap_cons_some hm]
          show Token.scan (t.chars ++ _) = _
          rw [Token.scan_token (hclean.1 t rfl) hends, hrest]
          rfl

/-! ## Values as tokens -/

/-- Tokens in which no two words stand side by side. -/
def Apart (ts : List Token) : Prop :=
  ts.IsChain fun a b => a.isWord → ¬ b.isWord

theorem Apart.append {ts ts' : List Token} (h : Apart ts) (h' : Apart ts')
    (hhead : ∀ t ∈ ts'.head?, t.isWord = false) : Apart (ts ++ ts') := by
  refine List.isChain_append.2 ⟨h, h', fun a _ b hb _ => ?_⟩
  simp [hhead b hb]

theorem Apart.cons {t : Token} {ts : List Token} (ht : t.isWord = false)
    (h : Apart ts) : Apart (t :: ts) :=
  List.isChain_cons.2 ⟨fun b _ hword => absurd hword (by simp [ht]), h⟩

/-- Blanks between tokens only keep words further apart. -/
theorem spaced_of_apart {marks : List Mark}
    (h : Apart (marks.filterMap Mark.token?)) :
    Spaced marks := by
  induction marks with
  | nil => exact List.isChain_nil
  | cons m marks ih =>
      cases hm : m.token? with
      | none =>
          rw [List.filterMap_cons_none hm] at h
          refine List.isChain_cons.2 ⟨fun _ _ hword => ?_, ih h⟩
          simp [Mark.isWord, hm] at hword
      | some t =>
          rw [List.filterMap_cons_some hm] at h
          refine List.isChain_cons.2
            ⟨fun next hnext hword hword' => ?_, ih h.tail⟩
          -- a word behind a word would be the next token as well as the next
          -- mark
          obtain ⟨rest, rfl⟩ := List.head?_eq_some_iff.1 hnext
          cases hn : next.token? with
          | none => simp [Mark.isWord, hn] at hword'
          | some u =>
              rw [List.filterMap_cons_some hn] at h
              simp only [Mark.isWord, hm, hn, Option.map_some,
                Option.getD_some] at hword hword'
              exact (List.isChain_cons_cons.1 h).1 hword hword'

theorem head_itemTokens (xs : List Json) :
    ∀ t ∈ (itemTokens xs ++ [Token.closeArray]).head?, t.isWord = false := by
  cases xs <;> simp [itemTokens, Token.isWord]

theorem head_memberTokens (ms : List (Literal × Json)) :
    ∀ t ∈ (memberTokens ms ++ [Token.closeObject]).head?, t.isWord = false := by
  cases ms <;> simp [memberTokens, Token.isWord]

mutual

/-- What is written behind an item or a member is never a word. -/
theorem apart_tokens : ∀ j : Json, Apart j.tokens
  | .null | .bool _ | .int _ | .real _ | .str _ => by
      rw [tokens]
      exact List.isChain_singleton _
  | .arr [] => by
      rw [tokens]
      exact .cons rfl (List.isChain_singleton _)
  | .arr (x :: xs) => by
      rw [tokens]
      exact .cons rfl (apart_itemTokens (x :: xs)).tail
  | .obj [] => by
      rw [tokens]
      exact .cons rfl (List.isChain_singleton _)
  | .obj ((k, v) :: ms) => by
      rw [tokens]
      exact .cons rfl (apart_memberTokens ((k, v) :: ms)).tail

theorem apart_itemTokens :
    ∀ xs : List Json, Apart (itemTokens xs ++ [.closeArray])
  | [] => List.isChain_singleton _
  | x :: xs => by
      rw [itemTokens, List.cons_append, List.append_assoc]
      exact .cons rfl
        ((apart_tokens x).append (apart_itemTokens xs) (head_itemTokens xs))

theorem apart_memberTokens :
    ∀ ms : List (Literal × Json), Apart (memberTokens ms ++ [.closeObject])
  | [] => List.isChain_singleton _
  | (k, v) :: ms => by
      rw [memberTokens]
      simp only [List.cons_append, List.append_assoc]
      exact .cons rfl (.cons rfl (.cons rfl
        ((apart_tokens v).append (apart_memberTokens ms)
          (head_memberTokens ms))))

end

namespace Reading

/-- An array that has just been opened takes its first item as any other. -/
theorem foldlM_firstItem (stack : List Frame) (x : Json) (rest : List Token) :
    (x.tokens ++ rest).foldlM step (.firstItem stack) =
      (x.tokens ++ rest).foldlM step (.value (.items [] :: stack)) := by
  cases x <;> rw [tokens] <;> rfl

mutual

/-- After the tokens of a value the reader has it complete. -/
theorem foldlM_tokens : ∀ (j : Json) (stack : List Frame) (rest : List Token),
    (j.tokens ++ rest).foldlM step (.value stack) =
      rest.foldlM step (.done stack j)
  | .null, _, _ | .bool _, _, _ | .int _, _, _ | .real _, _, _
  | .str _, _, _ => by
      rw [tokens]
      rfl
  | .arr [], stack, rest => by
      rw [tokens]
      rfl
  | .arr (x :: xs), stack, rest => by
      have hitem := foldlM_tokens x (.items [] :: stack)
        (itemTokens xs ++ .closeArray :: rest)
      have hitems := foldlM_itemTokens xs [] x stack rest
      rw [tokens, itemTokens]
      simp only [List.drop_succ_cons, List.drop_zero, List.cons_append,
        List.append_assoc, List.nil_append]
      show (x.tokens ++ _).foldlM step (.firstItem stack) = _
      rw [foldlM_firstItem, hitem, hitems]
      rfl
  | .obj [], stack, rest => by
      rw [tokens]
      rfl
  | .obj ((k, v) :: ms), stack, rest => by
      have hmember := foldlM_tokens v (.member [] k :: stack)
        (memberTokens ms ++ .closeObject :: rest)
      have hmembers := foldlM_memberTokens ms [] k v stack rest
      rw [tokens, memberTokens]
      simp only [List.drop_succ_cons, List.drop_zero, List.cons_append,
        List.append_assoc, List.nil_append]
      show (v.tokens ++ _).foldlM step (.value (.member [] k :: stack)) = _
      rw [hmember, hmembers]
      rfl

theorem foldlM_itemTokens :
    ∀ (xs got : List Json) (x : Json) (stack : List Frame) (rest : List Token),
    (itemTokens xs ++ .closeArray :: rest).foldlM step
      (.done (.items got :: stack) x) =
      rest.foldlM step (.done stack (.arr ((x :: got).reverse ++ xs)))
  | [], got, x, stack, rest => by
      rw [itemTokens, List.append_nil]
      rfl
  | x' :: xs, got, x, stack, rest => by
      have hitem := foldlM_tokens x' (.items (x :: got) :: stack)
        (itemTokens xs ++ .closeArray :: rest)
      have hitems := foldlM_itemTokens xs (x :: got) x' stack rest
      rw [itemTokens]
      simp only [List.cons_append, List.append_assoc]
      show (x'.tokens ++ _).foldlM step
        (.value (.items (x :: got) :: stack)) = _
      rw [hitem, hitems]
      simp

theorem foldlM_memberTokens :
    ∀ (ms got : List (Literal × Json)) (k : Literal) (v : Json)
      (stack : List Frame) (rest : List Token),
    (memberTokens ms ++ .closeObject :: rest).foldlM step
      (.done (.member got k :: stack) v) =
      rest.foldlM step (.done stack (.obj (((k, v) :: got).reverse ++ ms)))
  | [], got, k, v, stack, rest => by
      rw [memberTokens, List.append_nil]
      rfl
  | (k', v') :: ms, got, k, v, stack, rest => by
      have hmember := foldlM_tokens v' (.member ((k, v) :: got) k' :: stack)
        (memberTokens ms ++ .closeObject :: rest)
      have hmembers := foldlM_memberTokens ms ((k, v) :: got) k' v' stack rest
      rw [memberTokens]
      simp only [List.cons_append, List.append_assoc]
      show (v'.tokens ++ _).foldlM step
        (.value (.member ((k, v) :: got) k' :: stack)) = _
      rw [hmember, hmembers]
      simp

end

end Reading

theorem ofTokens?_tokens (j : Json) : ofTokens? j.tokens = some j := by
  have h := Reading.foldlM_tokens j [] []
  rw [List.append_nil] at h
  rw [ofTokens?, h]
  rfl

/-! ## Clean values -/

/-- A value of which every token reads back. -/
def Clean (j : Json) : Prop := ∀ t ∈ j.tokens, t.Clean

/-- A text that lays out the tokens of a clean value reads as that value. -/
theorem read?_marks {j : Json} (h : j.Clean) {marks : List Mark}
    (htokens : marks.filterMap Mark.token? = j.tokens) :
    read? (String.ofList (marks.flatMap Mark.chars)) = some j := by
  have hclean : ∀ m ∈ marks, ∀ t, m.token? = some t → t.Clean := by
    intro m hm t ht
    refine h t ?_
    rw [← htokens]
    exact List.mem_filterMap.2 ⟨m, hm, ht⟩
  have hspaced : Spaced marks := by
    refine spaced_of_apart ?_
    rw [htokens]
    exact apart_tokens j
  rw [read?, String.toList_ofList, scan_marks hspaced hclean, htokens]
  exact ofTokens?_tokens j

/-- The layout without any blanks. -/
theorem compactChars_eq (j : Json) :
    j.compactChars = (j.tokens.map Mark.token).flatMap Mark.chars := by
  rw [compactChars, List.flatMap_map]
  rfl

theorem filterMap_map_token (ts : List Token) :
    (ts.map Mark.token).filterMap Mark.token? = ts := by
  rw [List.filterMap_map]
  exact List.filterMap_some

theorem read?_compact {j : Json} (h : j.Clean) : read? j.compact = some j := by
  rw [compact, compactChars_eq]
  exact read?_marks h (filterMap_map_token j.tokens)

end Json

end Dataflow
