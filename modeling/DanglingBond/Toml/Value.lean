import DanglingBond.Prelude

/-!
# Values and tables

A TOML document is a table of values under names. A table remembers how it came about, which decides
what may still be added to it: a table is defined in one place only, but tables that merely lie on
the way to others may be defined later. A number that cannot be read is a fault only for those who
read it.
-/

namespace DanglingBond.Toml

/-- How a table came about. -/
inductive Origin where
  /-- Written in braces; such a table is complete. -/
  | inline
  /-- Defined by a header of its own, or the whole document. -/
  | header
  /-- Only passed through by the headers of other tables. -/
  | implied
  /-- Created by the dotted keys of its entries. -/
  | dotted
deriving DecidableEq, Repr

/-- A value of a document. Dates and times are checked but not kept. -/
inductive Value where
  | text (content : String)
  | integer (number : Int)
  | float (number : Float)
  /-- What is set down like a number but cannot be read as one: it is too large, or a character of
  it is no digit. -/
  | unreadable
  | boolean (truth : Bool)
  | time
  | array (items : List Value)
  | table (origin : Origin) (entries : List (String × Value))
  /-- Tables that share one name, each defined by a header in double brackets. -/
  | tables (items : List (List (String × Value)))
deriving Repr

/-- The entries of a table in the order in which they were written. -/
abbrev Entries := List (String × Value)

/-- Integers are read into 128 bits, with a sign or without one. -/
def Value.ofInt (number : Int) : Value :=
  if -2 ^ 127 ≤ number ∧ number < 2 ^ 128 then .integer number else .unreadable

/-- Floats are read into 64 bits; one that is written in digits is finite. -/
def Value.ofFinite (number : Float) : Value :=
  if number.isInf then .unreadable else .float number

mutual

/-- Whether all numbers in a value can be read. -/
def Value.isReadable : Value → Bool
  | .text _ | .integer _ | .float _ | .boolean _ | .time => true
  | .unreadable => false
  | .array items => Value.areReadable items
  | .table _ entries => Entries.areReadable entries
  | .tables items => Entries.areAllReadable items

def Value.areReadable : List Value → Bool
  | [] => true
  | value :: rest => value.isReadable && Value.areReadable rest

def Entries.areReadable : Entries → Bool
  | [] => true
  | (_, value) :: rest => value.isReadable && Entries.areReadable rest

def Entries.areAllReadable : List Entries → Bool
  | [] => true
  | entries :: rest => Entries.areReadable entries && Entries.areAllReadable rest

end

namespace Entries

def get? (entries : Entries) (name : String) : Option Value := entries.lookup name

/-- Replaces the value of a name, or puts it behind all others. -/
def put (entries : Entries) (name : String) (value : Value) : Entries :=
  match entries with
  | [] => [(name, value)]
  | (other, old) :: rest =>
    if other = name then (name, value) :: rest else (other, old) :: put rest name value

/-- Edits the table at the end of a path. Tables on the way that are missing are created; tables
that are defined already can be passed by headers, but not by dotted keys. -/
def edit (dotted : Bool) (change : Origin → Entries → Option Entries) :
    List String → Origin → Entries → Option Entries
  | [], origin, entries => change origin entries
  | name :: path, _, entries =>
    match entries.get? name with
    | none => do
      let origin := if dotted then .dotted else .implied
      return entries.put name (.table origin (← edit dotted change path origin []))
    | some (.table origin inner) =>
      if origin = .inline ∨ dotted ∧ origin = .header then none
      else do return entries.put name (.table origin (← edit dotted change path origin inner))
    | some (.tables items) => do
      let last ← items.getLast?
      let edited ← edit dotted change path .header last
      return entries.put name (.tables (items.dropLast ++ [edited]))
    | some _ => none

/-- Adds a value under a dotted key to a table that may still be added to. A name is given a value
only once, and only dotted keys add to a table that dotted keys have created. -/
def insert (path : List String) (name : String) (value : Value) :
    Origin → Entries → Option Entries :=
  edit true (fun origin entries =>
    if (origin == .dotted) = path.isEmpty ∨ (entries.get? name).isSome then none
    else some (entries.put name value)) path

def define (path : List String) (name : String) (entries : Entries) : Option Entries :=
  edit false (fun _ entries =>
    match entries.get? name with
    | none => some (entries.put name (.table .header []))
    | some (.table .implied inner) => some (entries.put name (.table .header inner))
    | some _ => none) path .header entries

/-- Adds a table to those that share a name, by a header in double brackets. -/
def append (path : List String) (name : String) (entries : Entries) : Option Entries :=
  edit false (fun _ entries =>
    match entries.get? name with
    | none => some (entries.put name (.tables [[]]))
    | some (.tables items) => some (entries.put name (.tables (items ++ [[]])))
    | some _ => none) path .header entries

end Entries

end DanglingBond.Toml
