/-!
# JSON strings as written

A string literal is a list of pieces: characters that stand for themselves, a letter after a
backslash, or a UTF-16 unit in four hexadecimal digits. Every literal has one list of pieces;
whether the units make up characters is a second question, which `decode?` answers.
-/

namespace DerivedSeries.Json

inductive Piece where
  | plain (c : Char)
  | escape (c : Char)
  | unit (n : UInt16)
  deriving DecidableEq, Repr

/-- A string literal between its quotes. -/
abbrev Literal := List Piece

namespace Literal

/-- The character that a letter after a backslash stands for. -/
def escaped? : Char → Option Char
  | '"' => some '"'
  | '\\' => some '\\'
  | '/' => some '/'
  | 'b' => some '\x08'
  | 'f' => some '\x0c'
  | 'n' => some '\n'
  | 'r' => some '\r'
  | 't' => some '\t'
  | _ => none

/-- Controls have to be escaped. -/
def isControl (c : Char) : Bool :=
  c.toNat < 0x20

/-! ## Reading and writing -/

def hexValue? (c : Char) : Option Nat :=
  if '0' ≤ c && c ≤ '9' then some (c.toNat - '0'.toNat)
  else if 'a' ≤ c && c ≤ 'f' then some (c.toNat - 'a'.toNat + 10)
  else if 'A' ≤ c && c ≤ 'F' then some (c.toNat - 'A'.toNat + 10)
  else none

def readUnit (a b c d : Char) : Option UInt16 := do
  let n := (((← hexValue? a) * 16 + (← hexValue? b)) * 16 + (← hexValue? c)) * 16 + (← hexValue? d)
  return UInt16.ofNat n

/-- Reads a literal up to and with its closing quote. -/
def read : List Char → Option (Literal × List Char)
  | [] => none
  | '"' :: cs => some ([], cs)
  | '\\' :: 'u' :: a :: b :: c :: d :: cs => do
    let n ← readUnit a b c d
    let (ps, rest) ← read cs
    return (.unit n :: ps, rest)
  | '\\' :: c :: cs =>
    if (escaped? c).isSome then (read cs).map fun r => (.escape c :: r.1, r.2) else none
  | c :: cs =>
    if isControl c || c == '\\' then none else (read cs).map fun r => (.plain c :: r.1, r.2)

/-- Reading takes up at least the closing quote. -/
theorem length_lt_of_read {cs rest : List Char} {l : Literal} (h : read cs = some (l, rest)) :
    rest.length < cs.length := by
  fun_induction read cs generalizing l with
  | case1 => simp at h
  | case2 cs => simp_all
  | case3 a b c d cs ih =>
    simp only [Option.bind_eq_bind, Option.bind_eq_some_iff, Option.pure_def, Option.some.injEq,
      Prod.mk.injEq] at h
    obtain ⟨n, -, ⟨l', r⟩, hr, -, rfl⟩ := h
    have : r.length < cs.length := ih hr
    simp only [List.length_cons]
    omega
  | case4 c cs _ _ ih =>
    obtain ⟨⟨l', r⟩, hr, e⟩ := Option.map_eq_some_iff.1 h
    cases e
    have : r.length < cs.length := ih hr
    simp only [List.length_cons]
    omega
  | case5 => simp at h
  | case6 => simp at h
  | case7 c cs _ _ _ _ ih =>
    obtain ⟨⟨l', r⟩, hr, e⟩ := Option.map_eq_some_iff.1 h
    cases e
    have : r.length < cs.length := ih hr
    simp only [List.length_cons]
    omega

def hexDigits (n : UInt16) : List Char :=
  let digit (k : Nat) : Char := Nat.digitChar (n.toNat / k % 16)
  [digit 4096, digit 256, digit 16, digit 1]

def writePiece : Piece → List Char
  | .plain c => [c]
  | .escape c => ['\\', c]
  | .unit n => '\\' :: 'u' :: hexDigits n

/-- The literal with its quotes. -/
def write (l : Literal) : List Char :=
  '"' :: l.flatMap writePiece ++ ['"']

/-! ## Meaning -/

/-- A first half of a surrogate pair. -/
def isHigh (n : UInt16) : Bool :=
  0xd800 ≤ n && n ≤ 0xdbff

/-- A second half of a surrogate pair. -/
def isLow (n : UInt16) : Bool :=
  0xdc00 ≤ n && n ≤ 0xdfff

def joinHalves (high low : UInt16) : Char :=
  Char.ofNat (0x10000 + (high.toNat - 0xd800) * 0x400 + (low.toNat - 0xdc00))

/-- The characters of a literal. A half of a surrogate pair on its own is no character. -/
def chars? : Literal → Option (List Char)
  | [] => some []
  | .plain c :: ps => (chars? ps).map (c :: ·)
  | .escape e :: ps => do return (← escaped? e) :: (← chars? ps)
  | .unit high :: .unit low :: ps =>
    if isHigh high then
      if isLow low then (chars? ps).map (joinHalves high low :: ·) else none
    else if isLow high then none
    else (chars? (.unit low :: ps)).map (Char.ofNat high.toNat :: ·)
  | .unit n :: ps =>
    if isHigh n || isLow n then none else (chars? ps).map (Char.ofNat n.toNat :: ·)

def decode? (l : Literal) : Option String :=
  (chars? l).map String.ofList

/-- The characters that stand for themselves, if all pieces are such. -/
def plain? (l : Literal) : Option (List Char) :=
  l.mapM fun | .plain c => some c | _ => none

def encodeChar (c : Char) : Piece :=
  match c with
  | '"' => .escape '"'
  | '\\' => .escape '\\'
  | '\x08' => .escape 'b'
  | '\x0c' => .escape 'f'
  | '\n' => .escape 'n'
  | '\r' => .escape 'r'
  | '\t' => .escape 't'
  | c => if isControl c then .unit (UInt16.ofNat c.toNat) else .plain c

/-- The literal with the fewest escapes: quotes, backslashes and controls. -/
def encode (s : String) : Literal :=
  s.toList.map encodeChar

end Literal
end DerivedSeries.Json
