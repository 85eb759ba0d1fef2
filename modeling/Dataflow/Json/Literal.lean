/-!
# String literals

A literal is kept as it was written, piece by piece: characters that stand for
themselves, two-character escapes, and code units given by number. What text it
stands for is a second question, because a unit that is half of a surrogate pair
stands for a character only together with the other half. A reader that skips a
value never asks it.
-/

namespace Dataflow

namespace Json

/-- One piece of a literal. -/
inductive Piece where
  /-- A character that stands for itself. -/
  | raw (c : Char)
  /-- The character meant by a backslash and one letter. -/
  | short (c : Char)
  /-- A code unit written as four hexadecimal digits. -/
  | unit (n : Nat)
deriving DecidableEq, Repr

/-- A string literal, as written between its quotes. -/
abbrev Literal := List Piece

namespace Literal

/-- The letters that may follow a backslash, with the characters they mean. -/
def shortEscapes : List (Char × Char) :=
  [('\x22', '\x22'), ('\\', '\\'), ('/', '/'), ('b', '\x08'), ('f', '\x0c'),
    ('n', '\n'), ('r', '\r'), ('t', '\t')]

/-- The character meant by a letter after a backslash. -/
def meaning? (letter : Char) : Option Char :=
  (shortEscapes.find? (·.1 = letter)).map Prod.snd

/-- The letter that stands for a character after a backslash. -/
def letter? (c : Char) : Option Char :=
  (shortEscapes.find? (·.2 = c)).map Prod.fst

/-- The value of a hexadecimal digit, in either case. -/
def hexValue? (c : Char) : Option Nat :=
  if c.isDigit then some (c.toNat - '0'.toNat)
  else if 'a' ≤ c ∧ c ≤ 'f' then some (c.toNat - 'a'.toNat + 10)
  else if 'A' ≤ c ∧ c ≤ 'F' then some (c.toNat - 'A'.toNat + 10)
  else none

/-- The hexadecimal digit of a value below sixteen, in lower case. -/
def hexDigit (n : Nat) : Char :=
  if n < 10 then Char.ofNat ('0'.toNat + n)
  else Char.ofNat ('a'.toNat + (n - 10))

/-- The code unit written by four hexadecimal digits. -/
def unit? (a b c d : Char) : Option Nat := do
  return 4096 * (← hexValue? a) + 256 * (← hexValue? b) + 16 * (← hexValue? c) +
    (← hexValue? d)

/-- Reads a literal from behind its opening quote up to its closing one. Control
characters must be escaped. -/
def scan : List Char → Option (Literal × List Char)
  | [] => none
  | '\x22' :: rest => some ([], rest)
  | '\\' :: 'u' :: a :: b :: c :: d :: rest =>
    match unit? a b c d, scan rest with
    | some n, some (l, r) => some (.unit n :: l, r)
    | _, _ => none
  | '\\' :: e :: rest =>
    match meaning? e, scan rest with
    | some c, some (l, r) => some (.short c :: l, r)
    | _, _ => none
  | c :: rest =>
    if c.toNat < 0x20 ∨ c = '\\' then none
    else
      match scan rest with
      | some (l, r) => some (.raw c :: l, r)
      | none => none

/-- A literal takes at least its closing quote. -/
theorem length_lt_of_scan {cs rest : List Char} {l : Literal}
    (h : scan cs = some (l, rest)) : rest.length < cs.length := by
  fun_induction scan cs generalizing l rest with
  | case1 => simp at h
  | case2 => simp_all
  | case3 a b c d tail n l' r' hs _ ih =>
    simp only [Option.some.injEq, Prod.mk.injEq] at h
    have := ih hs
    simp_all only [List.length_cons]
    omega
  | case4 => simp at h
  | case5 e tail _ c l' r' hs _ ih =>
    simp only [Option.some.injEq, Prod.mk.injEq] at h
    have := ih hs
    simp_all only [List.length_cons]
    omega
  | case6 => simp at h
  | case7 => simp at h
  | case8 c tail _ _ _ _ l' r' hs ih =>
    simp only [Option.some.injEq, Prod.mk.injEq] at h
    have := ih hs
    simp_all only [List.length_cons]
    omega
  | case9 => simp at h

/-- Whether a code unit opens a surrogate pair. -/
def isHigh (n : Nat) : Bool := 0xd800 ≤ n && n ≤ 0xdbff

/-- Whether a code unit closes a surrogate pair. -/
def isLow (n : Nat) : Bool := 0xdc00 ≤ n && n ≤ 0xdfff

/-- The characters that a literal stands for; none when half of a pair stands
alone. -/
def chars? : Literal → Option (List Char)
  | [] => some []
  | .raw c :: rest => (c :: ·) <$> chars? rest
  | .short c :: rest => (c :: ·) <$> chars? rest
  | .unit n :: .unit m :: rest =>
    if isHigh n then
      if isLow m then
        (Char.ofNat (0x10000 + (n - 0xd800) * 0x400 + (m - 0xdc00)) :: ·) <$>
          chars? rest
      else none
    else if isLow n then none
    else (Char.ofNat n :: ·) <$> chars? (.unit m :: rest)
  | .unit n :: rest =>
    if isHigh n || isLow n then none else (Char.ofNat n :: ·) <$> chars? rest

/-- The text that a literal stands for. -/
def text? (l : Literal) : Option String := String.ofList <$> chars? l

/-- The characters of a literal written without any escape. -/
def plain? : Literal → Option (List Char)
  | [] => some []
  | .raw c :: rest => (c :: ·) <$> plain? rest
  | _ :: _ => none

/-- The piece that writes a character: an escape only where one is needed, the
short one if there is one. -/
def piece (c : Char) : Piece :=
  if c = '\x22' ∨ c = '\\' then .short c
  else if c.toNat < 0x20 then
    match letter? c with
    | some _ => .short c
    | none => .unit c.toNat
  else .raw c

/-- The literal that writes a text. -/
def ofString (s : String) : Literal := s.toList.map piece

end Literal

/-- A piece as written. -/
def Piece.chars : Piece → List Char
  | .raw c => [c]
  | .short c => ['\\', (Literal.letter? c).getD c]
  | .unit n =>
    ['\\', 'u', Literal.hexDigit (n / 4096 % 16),
      Literal.hexDigit (n / 256 % 16), Literal.hexDigit (n / 16 % 16),
      Literal.hexDigit (n % 16)]

/-- A literal as written, quotes included. -/
def Literal.quoted (l : Literal) : List Char :=
  '\x22' :: (l.flatMap Piece.chars ++ ['\x22'])

end Json

end Dataflow
