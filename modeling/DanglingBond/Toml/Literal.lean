import DanglingBond.Decimal.Reading
import DanglingBond.Toml.Value

/-!
# Literals

Numbers, truth values, dates and times. Digits may be grouped by single underscores, and a decimal
number does not begin with a spare zero. A time of day may leave out its seconds.

All words in a row belong to one literal, with the blanks between them. A literal can pass for an
integer without being one: no digit follows the mark of its base, or it goes on with something else
behind an underscore. Its value is then unreadable.
-/

namespace DanglingBond.Toml

/-- The value of a digit in a base up to sixteen. -/
def digitValue? (base : Nat) (c : Char) : Option Nat :=
  let value :=
    if '0' ≤ c ∧ c ≤ '9' then c.toNat - '0'.toNat
    else if 'a' ≤ c ∧ c ≤ 'f' then c.toNat - 'a'.toNat + 10
    else if 'A' ≤ c ∧ c ≤ 'F' then c.toNat - 'A'.toNat + 10
    else base
  if value < base then some value else none

/-- The digits of a word, which may be grouped by underscores. -/
def digits? (base : Nat) : List Char → Option (List Nat)
  | [] => none
  | [c] => (digitValue? base c).map ([·])
  | c :: '_' :: rest => do return (← digitValue? base c) :: (← digits? base rest)
  | c :: rest => do return (← digitValue? base c) :: (← digits? base rest)

/-- Decimal digits without a spare zero in front. -/
def wholeDigits? (word : List Char) : Option (List Nat) :=
  match digits? 10 word with
  | some (0 :: _ :: _) => none
  | other => other

/-- The sign of a word, `true` for a minus, with what follows it. -/
def splitSign : List Char → Bool × List Char
  | '-' :: rest => (true, rest)
  | '+' :: rest => (false, rest)
  | word => (false, word)

def signed (negative : Bool) (magnitude : Nat) : Int := if negative then -magnitude else magnitude

/-- Whether every underscore of a word stands between two digits of a base up to sixteen. -/
def isGrouped : List Char → Bool
  | [] => true
  | '_' :: _ => false
  | c :: '_' :: d :: rest =>
    (digitValue? 16 c).isSome && (digitValue? 16 d).isSome && isGrouped (d :: rest)
  | _ :: rest => isGrouped rest

/-- Whether a word without its sign passes for a decimal integer: digits, an underscore, and then
anything in which underscores are well placed and nothing tells of a float or of a time. -/
def passesForInteger (word : List Char) : Bool :=
  let (whole, rest) := word.span Char.isDigit
  !whole.isEmpty && whole.head? ≠ some '0' && rest.head? = some '_' && isGrouped word &&
    rest.all fun c => c ∉ ['.', 'e', 'E', ' ']

/-- An integer behind the mark of its base. -/
def basedInteger? (base : Nat) (word : List Char) : Option Value :=
  if word.isEmpty then some .unreadable
  else (digits? base word).map fun values => .ofInt (Decimal.natOfDigits base values)

/-- An integer: decimal with an optional sign, or in base sixteen, eight or two without one. -/
def integer? : List Char → Option Value
  | '0' :: 'x' :: word => basedInteger? 16 word
  | '0' :: 'o' :: word => basedInteger? 8 word
  | '0' :: 'b' :: word => basedInteger? 2 word
  | word =>
    let (negative, magnitude) := splitSign word
    match wholeDigits? magnitude with
    | some values => some (.ofInt (signed negative (Decimal.natOfDigits 10 values)))
    | none => if passesForInteger magnitude then some .unreadable else none

/-- The exponent of a float, which may be missing. -/
def exponent? : List Char → Option Int
  | [] => some 0
  | e :: word =>
    if e = 'e' ∨ e = 'E' then
      let (negative, magnitude) := splitSign word
      (digits? 10 magnitude).map fun values => signed negative (Decimal.natOfDigits 10 values)
    else none

/-- The digits behind the point of a float, which may be missing, and what follows them. -/
def fraction? : List Char → Option (List Nat × List Char)
  | '.' :: word =>
    let (digits, rest) := word.span fun c => c.isDigit || c = '_'
    (digits? 10 digits).map fun values => (values, rest)
  | word => some ([], word)

/-- The magnitude of a float in digits; infinite if it lies beyond all floats. -/
def magnitude? (word : List Char) : Option Float := do
  let (whole, rest) := word.span fun c => c.isDigit || c = '_'
  let whole ← wholeDigits? whole
  let (fraction, rest) ← fraction? rest
  let exponent ← exponent? rest
  let mantissa := Decimal.natOfDigits 10 (whole ++ fraction)
  return Decimal.toFloat mantissa (exponent - fraction.length)

/-- A float with an optional sign: a word for infinity or for no number, or digits. -/
def float? (word : List Char) : Option Value :=
  let (negative, magnitude) := splitSign word
  let signed (x : Float) : Float := if negative then -x else x
  if magnitude = ['i', 'n', 'f'] then some (.float (signed (1.0 / 0.0)))
  else if magnitude = ['n', 'a', 'n'] then some (.float (signed (0.0 / 0.0)))
  else (magnitude? magnitude).map fun x => .ofFinite (signed x)

/-- A number of exactly so many digits, and what follows it. -/
def fixedNumber? (width : Nat) (word : List Char) : Option (Nat × List Char) :=
  let digits := word.take width
  if digits.length = width ∧ digits.all Char.isDigit then
    some (Decimal.natOfDigits 10 (digits.map fun c => c.toNat - '0'.toNat), word.drop width)
  else none

def daysInMonth (year month : Nat) : Nat :=
  if month = 2 then
    if year % 4 = 0 ∧ (year % 100 ≠ 0 ∨ year % 400 = 0) then 29 else 28
  else if month = 4 ∨ month = 6 ∨ month = 9 ∨ month = 11 then 30
  else 31

/-- What follows a date at the beginning of a word. -/
def afterDate? (word : List Char) : Option (List Char) := do
  let (year, rest) ← fixedNumber? 4 word
  let '-' :: rest := rest | none
  let (month, rest) ← fixedNumber? 2 rest
  let '-' :: rest := rest | none
  let (day, rest) ← fixedNumber? 2 rest
  if 1 ≤ month ∧ month ≤ 12 ∧ 1 ≤ day ∧ day ≤ daysInMonth year month then some rest else none

/-- What follows hours and minutes at the beginning of a word. -/
def afterMinutes? (word : List Char) : Option (List Char) := do
  let (hour, rest) ← fixedNumber? 2 word
  let ':' :: rest := rest | none
  let (minute, rest) ← fixedNumber? 2 rest
  if hour ≤ 23 ∧ minute ≤ 59 then some rest else none

/-- What follows a time of day at the beginning of a word. Only seconds can have a fraction. -/
def afterTime? (word : List Char) : Option (List Char) := do
  let rest ← afterMinutes? word
  let ':' :: rest := rest | some rest
  let (second, rest) ← fixedNumber? 2 rest
  if 60 < second then none
  match rest with
  | '.' :: rest =>
    let (digits, rest) := rest.span Char.isDigit
    if digits.isEmpty then none else some rest
  | _ => some rest

/-- Whether a word is an offset from universal time; it may be missing. -/
def isOffset : List Char → Bool
  | [] | ['Z'] | ['z'] => true
  | sign :: word => (sign = '+' || sign = '-') && afterMinutes? word = some []

/-- Whether a word is a date, a time, or both. -/
def isTime (word : List Char) : Bool :=
  match afterDate? word with
  | some [] => true
  | some (separator :: word) =>
    (separator = 'T' || separator = 't' || separator = ' ') &&
      ((afterTime? word).map isOffset).getD false
  | none => afterTime? word = some []

/-- The value that a word stands for. -/
def literal? (word : List Char) : Option Value :=
  if word = ['t', 'r', 'u', 'e'] then some (.boolean true)
  else if word = ['f', 'a', 'l', 's', 'e'] then some (.boolean false)
  else
    (integer? word).or ((float? word).or (if isTime word then some .time else none))

/-- Whether a character belongs to a word. Blanks, line breaks, comments and the signs that give a
document its structure end it, and nothing else does. -/
def isWordCharacter (c : Char) : Bool :=
  c ∉ [' ', '\t', '\r', '\n', '#', '=', ',', '[', ']', '\x7b', '\x7d']

/-- Whether a character can begin a further word of a literal. A quote begins a text instead. -/
def opensWord (c : Char) : Bool := isWordCharacter c && c ∉ ['"', '\'']

/-- At most so many words in a row with the blanks between them, and what follows them. -/
def takeWords : Nat → List Char → List Char × List Char
  | 0, rest => ([], rest)
  | words + 1, rest =>
    let (word, rest) := rest.span isWordCharacter
    let (blanks, further) := rest.span fun c => c = ' ' || c = '\t'
    if !blanks.isEmpty && further.head?.any opensWord then
      let (others, rest) := takeWords words further
      (word ++ blanks ++ others, rest)
    else (word, rest)

/-- The value at the beginning of a text, and what follows it. -/
def takeLiteral? (rest : List Char) : Option (Value × List Char) :=
  let (words, rest) := takeWords rest.length rest
  (literal? words).map fun value => (value, rest)

end DanglingBond.Toml
