/-!
# TOML strings and keys

Strings stand between double quotes, with escapes, or between single quotes, without; tripled
quotes let them run over several lines. Keys are bare words or strings of one line, with points
between the parts of a dotted key.
-/

namespace DerivedSeries.Toml

/-- A reader takes a part off the front of a text. -/
abbrev Reader (α : Type) := List Char → Option (α × List Char)

namespace Text

def isGap (c : Char) : Bool :=
  c == ' ' || c == '\t'

def skipGap (cs : List Char) : List Char :=
  cs.dropWhile isGap

/-- What may stand in a comment or a string as it is: no controls but the tab. -/
def isPlain (c : Char) : Bool :=
  c == '\t' || (0x20 ≤ c.toNat && c.toNat ≠ 0x7f)

/-! ## Strings -/

def hexValue? (c : Char) : Option Nat :=
  if '0' ≤ c && c ≤ '9' then some (c.toNat - '0'.toNat)
  else if 'a' ≤ c && c ≤ 'f' then some (c.toNat - 'a'.toNat + 10)
  else if 'A' ≤ c && c ≤ 'F' then some (c.toNat - 'A'.toNat + 10)
  else none

/-- The character of a code point in hexadecimal digits; surrogates are none. -/
def codePoint? (ds : List Char) : Option Char := do
  let n ← ds.foldlM (fun n c => return n * 16 + (← hexValue? c)) 0
  if n.isValidChar then some (Char.ofNat n) else none

/-- The character of a letter after a backslash. -/
def escaped? : Char → Option Char
  | 'b' => some '\x08'
  | 't' => some '\t'
  | 'n' => some '\n'
  | 'f' => some '\x0c'
  | 'r' => some '\r'
  | '"' => some '"'
  | '\\' => some '\\'
  | _ => none

def prepend (c : Char) (r : Option (List Char × List Char)) : Option (List Char × List Char) :=
  r.map fun r => (c :: r.1, r.2)

/-- The rest of a string between double quotes. -/
def quoted : Reader (List Char)
  | [] => none
  | '"' :: cs => some ([], cs)
  | '\\' :: 'u' :: a :: b :: c :: d :: cs => do prepend (← codePoint? [a, b, c, d]) (quoted cs)
  | '\\' :: 'U' :: a :: b :: c :: d :: e :: f :: g :: h :: cs => do
    prepend (← codePoint? [a, b, c, d, e, f, g, h]) (quoted cs)
  | '\\' :: c :: cs => do prepend (← escaped? c) (quoted cs)
  | c :: cs => if isPlain c && c != '\\' then prepend c (quoted cs) else none

/-- The rest of a string between single quotes. -/
def literal (cs : List Char) : Option (List Char × List Char) :=
  let inside := cs.takeWhile fun c => isPlain c && c != '\''
  match cs.dropWhile fun c => isPlain c && c != '\'' with
  | '\'' :: rest => some (inside, rest)
  | _ => none

/-- A text that starts with the end of a line. -/
def startsLine : List Char → Bool
  | '\n' :: _ => true
  | '\r' :: '\n' :: _ => true
  | _ => false

/-- The rest of a string between tripled double quotes; `skip` leaves out the blanks and line ends
that follow a backslash at the end of a line. Up to two quotes may stand before the closing ones. -/
def longQuoted (skip : Bool) : Reader (List Char)
  | [] => none
  | '"' :: '"' :: '"' :: '"' :: '"' :: cs => some (['"', '"'], cs)
  | '"' :: '"' :: '"' :: '"' :: cs => some (['"'], cs)
  | '"' :: '"' :: '"' :: cs => some ([], cs)
  | '\r' :: '\n' :: cs => if skip then longQuoted true cs else prepend '\n' (longQuoted false cs)
  | '\n' :: cs => if skip then longQuoted true cs else prepend '\n' (longQuoted false cs)
  | '\\' :: 'u' :: a :: b :: c :: d :: cs => do
    prepend (← codePoint? [a, b, c, d]) (longQuoted false cs)
  | '\\' :: 'U' :: a :: b :: c :: d :: e :: f :: g :: h :: cs => do
    prepend (← codePoint? [a, b, c, d, e, f, g, h]) (longQuoted false cs)
  | '\\' :: c :: cs =>
    if startsLine (skipGap (c :: cs)) then longQuoted true (c :: cs)
    else do prepend (← escaped? c) (longQuoted false cs)
  | c :: cs =>
    if skip && isGap c then longQuoted true cs
    else if isPlain c && c != '\\' then prepend c (longQuoted false cs)
    else none

/-- The rest of a string between tripled single quotes. -/
def longLiteral : Reader (List Char)
  | [] => none
  | '\'' :: '\'' :: '\'' :: '\'' :: '\'' :: cs => some (['\'', '\''], cs)
  | '\'' :: '\'' :: '\'' :: '\'' :: cs => some (['\''], cs)
  | '\'' :: '\'' :: '\'' :: cs => some ([], cs)
  | '\r' :: '\n' :: cs => prepend '\n' (longLiteral cs)
  | '\n' :: cs => prepend '\n' (longLiteral cs)
  | c :: cs => if isPlain c then prepend c (longLiteral cs) else none

/-- A line end right after tripled quotes does not count. -/
def skipFirstLineEnd : List Char → List Char
  | '\n' :: cs => cs
  | '\r' :: '\n' :: cs => cs
  | cs => cs

/-- A string of one line. -/
def shortString : Reader (List Char)
  | '"' :: cs => quoted cs
  | '\'' :: cs => literal cs
  | _ => none

def string : Reader (List Char)
  | '"' :: '"' :: '"' :: cs => longQuoted false (skipFirstLineEnd cs)
  | '\'' :: '\'' :: '\'' :: cs => longLiteral (skipFirstLineEnd cs)
  | cs => shortString cs

/-! ## Keys -/

def isBareKeyChar (c : Char) : Bool :=
  c.isAlphanum || c == '_' || c == '-'

/-- A key without points. -/
def simpleKey (cs : List Char) : Option (String × List Char) :=
  match shortString cs with
  | some (key, rest) => some (String.ofList key, rest)
  | none =>
    let key := cs.takeWhile isBareKeyChar
    if key.isEmpty then none else some (String.ofList key, cs.dropWhile isBareKeyChar)

/-- The parts of a key, with blanks around each, of which there are at most `limit`. -/
def keyParts : Nat → Reader (List String)
  | 0, _ => none
  | limit + 1, cs => do
    let (part, rest) ← simpleKey (skipGap cs)
    match skipGap rest with
    | '.' :: rest =>
      let (parts, rest) ← keyParts limit rest
      return (part :: parts, rest)
    | rest => return ([part], rest)

/-- The greatest number of parts of a key. -/
def keyLimit : Nat := 79

def key : Reader (List String) :=
  keyParts keyLimit

end Text
end DerivedSeries.Toml
