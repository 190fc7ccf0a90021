import DanglingBond.Decimal.Reading
import DanglingBond.Toml.Literal

/-!
# Quoted text

Text stands in double quotes, where a backslash begins an escape, or in single quotes, where nothing
does. Three quotes on each side let it run over several lines.
-/

namespace DanglingBond.Toml

/-- Whether a character may not be written as it is; a line break is judged separately. -/
def isControl (c : Char) : Bool := (c < ' ' && c ≠ '\t') || c = '\x7f'

structure Quotes where
  /-- Double quotes, with escapes. -/
  double : Bool
  /-- Three quotes on each side. -/
  tripled : Bool

def Quotes.character (quotes : Quotes) : Char := if quotes.double then '"' else '\''

/-- The text between an opening quote that has been read and its closing quote here, and what
follows: there can be up to two quotes of content right before three closing ones. -/
def closing? (quotes : Quotes) (rest : List Char) : Option (List Char × List Char) :=
  let run := (rest.takeWhile (· = quotes.character)).length
  if quotes.tripled then
    if run < 3 then none
    else
      let content := min (run - 3) 2
      some (List.replicate content quotes.character, rest.drop (content + 3))
  else if run = 0 then none
  else some ([], rest.drop 1)

/-- A character by its hexadecimal code, and what follows it. -/
def codePoint? (width : Nat) (rest : List Char) : Option (Char × List Char) := do
  let digits := rest.take width
  if digits.length < width then none
  let values ← digits.mapM (digitValue? 16)
  let code := Decimal.natOfDigits 16 values
  if code.isValidChar then some (Char.ofNat code, rest.drop width) else none

/-- The character that an escape behind a backslash stands for, and what follows it. -/
def escape? : List Char → Option (Char × List Char)
  | 'b' :: rest => some ('\x08', rest)
  | 't' :: rest => some ('\t', rest)
  | 'n' :: rest => some ('\n', rest)
  | 'f' :: rest => some ('\x0c', rest)
  | 'r' :: rest => some ('\r', rest)
  | 'e' :: rest => some ('\x1b', rest)
  | '"' :: rest => some ('"', rest)
  | '\\' :: rest => some ('\\', rest)
  | 'x' :: rest => codePoint? 2 rest
  | 'u' :: rest => codePoint? 4 rest
  | 'U' :: rest => codePoint? 8 rest
  | _ => none

/-- What follows a line break at the beginning of a text. -/
def afterBreak? : List Char → Option (List Char)
  | '\n' :: rest => some rest
  | '\r' :: '\n' :: rest => some rest
  | _ => none

def skipBlanks (rest : List Char) : List Char := rest.dropWhile fun c => c = ' ' || c = '\t'

def skipSpace : Nat → List Char → List Char
  | 0, rest => rest
  | fuel + 1, rest =>
    let rest := skipBlanks rest
    match afterBreak? rest with
    | some rest => skipSpace fuel rest
    | none => rest

/-- What follows a backslash that ends its line, together with all space up to the next text. -/
def continuedLine? (rest : List Char) : Option (List Char) :=
  (afterBreak? (skipBlanks rest)).map fun rest => skipSpace rest.length rest

/-- The content up to the closing quotes, and what follows them. The first argument bounds the
number of steps. -/
def quotedContent? (quotes : Quotes) : Nat → List Char → Option (List Char × List Char)
  | 0, _ => none
  | fuel + 1, rest =>
    match closing? quotes rest with
    | some done => some done
    | none => do
      let continued := if quotes.tripled then continuedLine? (rest.drop 1) else none
      let broken := if quotes.tripled then afterBreak? rest else none
      match rest, broken, continued with
      | [], _, _ => none
      | _, some rest, _ =>
        let (content, rest) ← quotedContent? quotes fuel rest
        some ('\n' :: content, rest)
      | '\\' :: escape, none, continued =>
        if quotes.double then
          match continued with
          | some rest => quotedContent? quotes fuel rest
          | none =>
            let (c, rest) ← escape? escape
            let (content, rest) ← quotedContent? quotes fuel rest
            some (c :: content, rest)
        else
          let (content, rest) ← quotedContent? quotes fuel escape
          some ('\\' :: content, rest)
      | c :: rest, none, _ =>
        if isControl c then none
        else
          let (content, rest) ← quotedContent? quotes fuel rest
          some (c :: content, rest)

/-- A text behind its opening quotes, and what follows its closing ones. -/
def quotedText? (quotes : Quotes) (rest : List Char) : Option (String × List Char) :=
  (quotedContent? quotes (rest.length + 1) rest).map fun (content, rest) =>
    (String.ofList content, rest)

/-- A text in one line at the beginning of some characters. -/
def takeLine? : List Char → Option (String × List Char)
  | '"' :: rest => quotedText? ⟨true, false⟩ rest
  | '\'' :: rest => quotedText? ⟨false, false⟩ rest
  | _ => none

/-- A text of any form at the beginning of some characters. A line break right behind three opening
quotes does not belong to the text. -/
def takeText? : List Char → Option (String × List Char)
  | '"' :: '"' :: '"' :: rest => quotedText? ⟨true, true⟩ ((afterBreak? rest).getD rest)
  | '\'' :: '\'' :: '\'' :: rest => quotedText? ⟨false, true⟩ ((afterBreak? rest).getD rest)
  | rest => takeLine? rest

end DanglingBond.Toml
