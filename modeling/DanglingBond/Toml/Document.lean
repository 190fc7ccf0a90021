import DanglingBond.Toml.Quoted

/-!
# Documents

A document is read line by line: a header opens a table, a key with its value adds an entry to the
table that is open.
-/

namespace DanglingBond.Toml

/-- What follows a comment at the beginning of a text; without a comment, the text itself. -/
def skipComment : List Char → List Char
  | '#' :: rest => rest.dropWhile fun c => !isControl c
  | rest => rest

/-- What follows the end of a line, where blanks and a comment may stand before it. -/
def endLine? (rest : List Char) : Option (List Char) :=
  match skipComment (skipBlanks rest) with
  | [] => some []
  | rest => afterBreak? rest

/-- What follows blanks and at most so many lines that are blank or end in a comment. -/
def skipLines : Nat → List Char → List Char
  | 0, rest => rest
  | lines + 1, rest =>
    let rest := skipBlanks rest
    match afterBreak? (skipComment rest) with
    | some rest => skipLines lines rest
    | none => rest

/-- What follows blanks, comments and line breaks, as they may stand anywhere between the parts of
an array or of a table in braces. -/
def skipFiller (rest : List Char) : List Char := skipLines rest.length rest

def isBareCharacter (c : Char) : Bool := c.isAlphanum || c = '_' || c = '-'

/-- One part of a key: a bare word or a text in one line. -/
def takeName? (rest : List Char) : Option (String × List Char) :=
  let (word, after) := rest.span isBareCharacter
  if word.isEmpty then takeLine? rest else some (String.ofList word, after)

/-- A dotted key of at most so many parts: the parts before the last one, the last one, and what
follows. -/
def takeParts? : Nat → List Char → Option (List String × String × List Char)
  | 0, _ => none
  | parts + 1, rest => do
    let (name, rest) ← takeName? rest
    match skipBlanks rest with
    | '.' :: rest =>
      let (path, last, rest) ← takeParts? parts (skipBlanks rest)
      return (name :: path, last, rest)
    | rest => return ([], name, rest)

/-- How many parts a key may have, and how deep arrays and tables in braces may lie within each
other. -/
def maxDepth : Nat := 80

/-- A dotted key: the parts before the last one, the last one, and what follows. -/
def takeKey? (rest : List Char) : Option (List String × String × List Char) :=
  takeParts? maxDepth rest

abbrev ValueReader := List Char → Option (Value × List Char)

/-- The items of an array up to its closing bracket, and what follows it. -/
def takeItems? (takeValue? : ValueReader) : Nat → List Char → Option (List Value × List Char)
  | 0, _ => none
  | fuel + 1, rest =>
    match skipFiller rest with
    | ']' :: rest => some ([], rest)
    | rest => do
      let (item, rest) ← takeValue? rest
      match skipFiller rest with
      | ',' :: rest =>
        let (items, rest) ← takeItems? takeValue? fuel rest
        return (item :: items, rest)
      | ']' :: rest => return ([item], rest)
      | _ => none

/-- The entries of a table in braces up to its closing brace, added to those before them, and what
follows it. -/
def takeInline? (takeValue? : ValueReader) : Nat → Entries → List Char →
    Option (Entries × List Char)
  | 0, _, _ => none
  | fuel + 1, entries, rest =>
    match skipFiller rest with
    | '\x7d' :: rest => some (entries, rest)
    | rest => do
      let (path, name, rest) ← takeKey? rest
      let '=' :: rest := skipFiller rest | none
      let (value, rest) ← takeValue? (skipFiller rest)
      let entries ← entries.insert path name value .inline
      match skipFiller rest with
      | ',' :: rest => takeInline? takeValue? fuel entries rest
      | '\x7d' :: rest => return (entries, rest)
      | _ => none

/-- Reads a value in which arrays and tables in braces lie at most so deep within each other. -/
def takeValue? : Nat → ValueReader
  | 0, rest => takeScalar rest
  | depth + 1, rest =>
    match rest with
    | '[' :: rest => do
      let (items, rest) ← takeItems? (takeValue? depth) (rest.length + 1) rest
      return (.array items, rest)
    | '\x7b' :: rest => do
      let (entries, rest) ← takeInline? (takeValue? depth) rest.length [] rest
      return (.table .inline entries, rest)
    | rest => takeScalar rest
where
  takeScalar (rest : List Char) : Option (Value × List Char) :=
    match rest with
    | '"' :: _ | '\'' :: _ => (takeText? rest).map fun (content, rest) => (.text content, rest)
    | _ => takeLiteral? rest

/-- A document as far as it has been read: its entries, and the path of the table that is open. -/
structure Reading where
  entries : Entries := []
  current : List String := []

/-- The closing brackets of a header and the end of its line. -/
def endHeader? (double : Bool) (rest : List Char) : Option (List Char) :=
  match double, skipBlanks rest with
  | false, ']' :: rest => endLine? rest
  | true, ']' :: ']' :: rest => endLine? rest
  | _, _ => none

/-- Reads a line that is neither blank nor a comment. -/
def takeLineOf? (reading : Reading) (rest : List Char) : Option (Reading × List Char) := do
  let header (double : Bool) (rest : List Char) : Option (Reading × List Char) := do
    let (path, name, rest) ← takeKey? (skipBlanks rest)
    let rest ← endHeader? double rest
    let entries ← if double then reading.entries.append path name
      else reading.entries.define path name
    return (⟨entries, path ++ [name]⟩, rest)
  match rest with
  | '[' :: '[' :: rest => header true rest
  | '[' :: rest => header false rest
  | rest =>
    let (path, name, rest) ← takeKey? rest
    let '=' :: rest := skipBlanks rest | none
    let (value, rest) ← takeValue? maxDepth (skipBlanks rest)
    let rest ← endLine? rest
    let entries ← reading.entries.edit false (fun origin entries =>
      entries.insert path name value origin) reading.current .header
    return ({ reading with entries }, rest)

/-- Reads all lines; the first argument bounds their number. -/
def takeLines? : Nat → Reading → List Char → Option Entries
  | 0, _, _ => none
  | fuel + 1, reading, rest =>
    let rest := skipBlanks rest
    if rest.isEmpty then some reading.entries
    else
      match endLine? rest with
      | some rest => takeLines? fuel reading rest
      | none => do
        let (reading, rest) ← takeLineOf? reading rest
        takeLines? fuel reading rest

/-- Reads a document, which may begin with a byte order mark. -/
def parse? (text : String) : Option Entries :=
  let rest := match text.toList with
    | '\ufeff' :: rest => rest
    | rest => rest
  takeLines? (rest.length + 1) {} rest

end DanglingBond.Toml
