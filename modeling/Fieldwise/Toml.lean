/-!
# Configuration values

The values of a configuration file, and how its tables grow. A table remembers how it came to be, since that
decides who may add to it: a header may define a table that so far only had a part defined, a dotted key may
add to a table that dotted keys made, and a table written in braces is finished. A key is set once.
-/

namespace Fieldwise

/-- How a table came to be. -/
inductive TableOrigin where
  /-- Written in braces. -/
  | braced
  /-- Named by a header. -/
  | header
  /-- Led through by a header that names a table inside it. -/
  | implied
  /-- Led through by a dotted key. -/
  | dotted
  deriving DecidableEq, Inhabited

/-- A value of a configuration file. Fractions and moments are kept as they are written. -/
inductive Toml where
  | text (value : String)
  | integer (value : Int)
  | fraction (written : String)
  | boolean (value : Bool)
  | moment (written : String)
  | array (items : List Toml)
  | table (origin : TableOrigin) (entries : List (String × Toml))
  /-- The tables that headers with doubled brackets add one by one. -/
  | tables (items : List (List (String × Toml)))
  deriving Inhabited

namespace Toml

/-- Keys with their values. -/
abbrev Entries := List (String × Toml)

namespace Entries

/-- The value of a key. -/
def get? (entries : Entries) (key : String) : Option Toml :=
  match entries with
  | [] => none
  | (name, value) :: rest => if name == key then some value else get? rest key

/-- Set a key, in its place if it is there and at the end otherwise. -/
def put (entries : Entries) (key : String) (value : Toml) : Entries :=
  match entries with
  | [] => [(key, value)]
  | (name, old) :: rest =>
    if name == key then (key, value) :: rest else (name, old) :: put rest key value

/-- Set a key that is not set yet. -/
def define (entries : Entries) (key : String) (value : Toml) : Option Entries :=
  match entries.get? key with
  | some _ => none
  | none => some (entries.put key value)

/-- Change the last of some tables. -/
def changeLast (change : Entries → Option Entries) : List Entries → Option (List Entries)
  | [] => none
  | [last] => (change last).map fun changed => [changed]
  | first :: rest => (changeLast change rest).map fun changed => first :: changed

/-- Set a dotted key: the tables on the way are made if they are missing. The table that gets the value has to
be one that dotted keys made. -/
def defineDotted (entries : Entries) : List String → String → Toml → Option Entries
  | [], key, value => entries.define key value
  | [owner], key, value =>
    match entries.get? owner with
    | none => some (entries.put owner (.table .dotted [(key, value)]))
    | some (.table .dotted inside) =>
      (define inside key value).map fun changed => entries.put owner (.table .dotted changed)
    | some _ => none
  | owner :: next :: rest, key, value =>
    match entries.get? owner with
    | none =>
      (defineDotted [] (next :: rest) key value).map fun made =>
        entries.put owner (.table .dotted made)
    | some (.table .dotted inside) =>
      (defineDotted inside (next :: rest) key value).map fun changed =>
        entries.put owner (.table .dotted changed)
    | some (.table .implied inside) =>
      (defineDotted inside (next :: rest) key value).map fun changed =>
        entries.put owner (.table .implied changed)
    | some (.tables items) =>
      (changeLast (fun inside => defineDotted inside (next :: rest) key value) items).map
        fun changed => entries.put owner (.tables changed)
    | some _ => none

/-- Change the table that a header path leads to. Tables on the way are made if they are missing. -/
def changeAt (change : Entries → Option Entries) (entries : Entries) : List String → Option Entries
  | [] => change entries
  | owner :: rest =>
    match entries.get? owner with
    | none => (changeAt change [] rest).map fun made => entries.put owner (.table .implied made)
    | some (.table .braced _) => none
    | some (.table origin inside) =>
      (changeAt change inside rest).map fun changed => entries.put owner (.table origin changed)
    | some (.tables items) =>
      (changeLast (fun inside => changeAt change inside rest) items).map fun changed =>
        entries.put owner (.tables changed)
    | some _ => none

end Entries

/-- A key with its value: the tables it leads through, its last part, and the value. -/
structure Pair where
  /-- The parts of the key before the last. -/
  owners : List String
  /-- The last part. -/
  key : String
  /-- The value. -/
  value : Toml
  deriving Inhabited

/-- Set keys one after the other. -/
def Entries.defineAll (entries : Entries) : List Pair → Option Entries
  | [] => some entries
  | pair :: rest =>
    match entries.defineDotted pair.owners pair.key pair.value with
    | some changed => defineAll changed rest
    | none => none

/-- A header, with the parts of its name before the last and the last. -/
inductive Header where
  | table (owners : List String) (key : String)
  | element (owners : List String) (key : String)
  deriving Inhabited

/-- A part of a document: a header and the keys under it. -/
structure Part where
  /-- The header. -/
  header : Header
  /-- The keys under it. -/
  pairs : List Pair
  deriving Inhabited

/-- Add a part to the document. -/
def Part.addTo (part : Part) (document : Entries) : Option Entries :=
  match part.header with
  | .table owners key =>
    document.changeAt
      (fun inside => do
        let before ← match inside.get? key with
          | none => some []
          | some (.table .implied found) => some found
          | some _ => none
        let entries ← Entries.defineAll before part.pairs
        return inside.put key (.table .header entries))
      owners
  | .element owners key =>
    document.changeAt
      (fun inside => do
        let before ← match inside.get? key with
          | none => some []
          | some (.tables found) => some found
          | some _ => none
        let entries ← Entries.defineAll [] part.pairs
        return inside.put key (.tables (before ++ [entries])))
      owners

/-- Add parts to the document one after the other. -/
def addParts (document : Entries) : List Part → Option Entries
  | [] => some document
  | part :: rest =>
    match part.addTo document with
    | some changed => addParts changed rest
    | none => none

/-- The text of a value that is one. -/
def text? : Toml → Option String
  | text value => some value
  | _ => none

/-- The items of an array, however it is written. -/
def items? : Toml → Option (List Toml)
  | array items => some items
  | tables items => some (items.map (table .header))
  | _ => none

end Toml

end Fieldwise
