import DerivedSeries.Toml.Scalar
import DerivedSeries.Toml.Text

/-!
# TOML documents

A document is lines: a header opens the table that the following lines add to, and every other
line sets a key. Only arrays and strings in tripled quotes run over several lines. Anything else
than a document of this form is refused as a whole.
-/

namespace DerivedSeries.Toml

/-! ## Lines -/

/-- The text after a line end, if it starts with one; the end of the text is a line end. -/
def endOfLine : List Char → Option (List Char)
  | [] => some []
  | '\n' :: cs => some cs
  | '\r' :: '\n' :: cs => some cs
  | _ => none

/-- Leaves out a comment. -/
def skipComment : List Char → List Char
  | '#' :: cs => cs.dropWhile Text.isPlain
  | cs => cs

/-- The text after the rest of a line, which may hold blanks and a comment and nothing else. -/
def restOfLine (cs : List Char) : Option (List Char) :=
  endOfLine (skipComment (Text.skipGap cs))

/-- Leaves out blanks, comments and line ends, up to `fuel` lines of them. -/
def skipLines : Nat → List Char → List Char
  | 0, cs => cs
  | fuel + 1, cs =>
    let cs := Text.skipGap cs
    match cs with
    | '\n' :: r | '\r' :: '\n' :: r => skipLines fuel r
    | '#' :: r =>
      match r.dropWhile Text.isPlain with
      | '\n' :: r | '\r' :: '\n' :: r => skipLines fuel r
      | _ => cs
    | _ => cs

def skipBetween (cs : List Char) : List Char :=
  skipLines cs.length cs

/-! ## Values -/

/-- The items of an array after its bracket, up to `fuel` of them. -/
def items (value : Reader Value) : Nat → Reader (List Value)
  | 0, _ => none
  | fuel + 1, cs =>
    match skipBetween cs with
    | ']' :: rest => some ([], rest)
    | cs => do
      let (v, rest) ← value cs
      match skipBetween rest with
      | ',' :: rest =>
        let (vs, rest) ← items value fuel rest
        return (v :: vs, rest)
      | ']' :: rest => return ([v], rest)
      | _ => none

/-- A key, an equals sign and a value: the parts of the key before the last, the last, and the
value. -/
def binding (value : Reader Value) : Reader (List String × String × Value) := fun cs => do
  let (key, rest) ← Text.key cs
  match rest with
  | '=' :: rest =>
    let (v, rest) ← value (Text.skipGap rest)
    return ((key.dropLast, ← key.getLast?, v), rest)
  | _ => none

/-- The bindings of an inline table after its brace, at least one and up to `fuel` of them. -/
def bindings (value : Reader Value) : Nat → Entries → Reader Entries
  | 0, _, _ => none
  | fuel + 1, es, cs => do
    let ((path, key, v), rest) ← binding value cs
    let es ← es.setDotted path key v .inline
    match Text.skipGap rest with
    | ',' :: rest => bindings value fuel es rest
    | '\x7d' :: rest => return (es, rest)
    | _ => none

/-- A value with at most `depth` arrays and inline tables around one another. -/
def value : Nat → Reader Value
  | 0, cs => scalar cs
  | depth + 1, cs =>
    match cs with
    | '[' :: rest => do
      let (vs, rest) ← items (value depth) (rest.length + 1) rest
      return (.array vs, rest)
    | '\x7b' :: rest =>
      match Text.skipGap rest with
      | '\x7d' :: rest => some (.table .inline [], rest)
      | cs => do
        let (es, rest) ← bindings (value depth) (cs.length + 1) [] cs
        return (.table .inline es, rest)
    | cs => scalar cs
where
  /-- A value that is no container. -/
  scalar (cs : List Char) : Option (Value × List Char) :=
    match cs with
    | '"' :: _ | '\'' :: _ => (Text.string cs).map fun r => (.string (String.ofList r.1), r.2)
    | cs => Scalar.read cs

/-- The greatest number of arrays and inline tables around one another. -/
def depthLimit : Nat := 79

/-! ## Documents -/

/-- What has been read of a document: its entries, and the path of the table that lines add to. -/
structure Progress where
  entries : Entries := []
  path : List String := []

/-- Adds a binding to the table that is open. -/
def Progress.set (p : Progress) (path : List String) (key : String) (v : Value) :
    Option Progress := do
  let entries ← p.entries.modifyAt false (Entries.setDotted path key v) p.path .header
  return { p with entries }

/-- Opens the table of a header, or one more of a list of tables. -/
def Progress.header (p : Progress) (isElement : Bool) (path : List String) :
    Option Progress := do
  let key ← path.getLast?
  let change := if isElement then Entries.openElement key else Entries.openTable key
  return { entries := ← p.entries.modifyAt false change path.dropLast .header, path }

/-- Reads a line that is neither blank nor a comment. -/
def line (p : Progress) (cs : List Char) : Option (Progress × List Char) :=
  match cs with
  | '[' :: '[' :: rest => do
    match ← Text.key rest with
    | (path, ']' :: ']' :: rest) => return (← p.header true path, rest)
    | _ => none
  | '[' :: rest => do
    match ← Text.key rest with
    | (path, ']' :: rest) => return (← p.header false path, rest)
    | _ => none
  | cs => do
    let ((path, key, v), rest) ← binding (value depthLimit) cs
    return (← p.set path key v, rest)

/-- Reads the lines of a document, of which there are fewer than `fuel`. -/
def lines : Nat → Progress → List Char → Option Entries
  | 0, _, _ => none
  | fuel + 1, p, cs =>
    let cs := Text.skipGap cs
    match cs with
    | [] => some p.entries
    | '#' :: _ | '\n' :: _ | '\r' :: _ => do lines fuel p (← restOfLine cs)
    | cs => do
      let (p, rest) ← line p cs
      lines fuel p (← restOfLine rest)

/-- A byte order mark at the start of a text does not count. -/
def skipMark : List Char → List Char
  | '\ufeff' :: cs => cs
  | cs => cs

/-- The entries of a document. -/
def parse (s : String) : Option Entries :=
  let cs := skipMark s.toList
  lines (cs.length + 1) {} cs

end DerivedSeries.Toml
