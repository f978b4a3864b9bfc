import Fieldwise.Journal
import Fieldwise.Text.Character

/-!
# Filters for journal entries

A filter is a list of rules with commas between them. A rule is a level for everything, the name of a part of the
program with all that is below it, or such a name with a level. Of all rules for an entry the one with the
longest name counts, and of two with the same name the later one. Without any rule only errors are told.
-/

namespace Fieldwise.Journal

/-- A rule: the names it is for, and the rank up to which entries are told. -/
structure Rule where
  /-- What the name has to begin with. -/
  target : String
  /-- The rank up to which entries are told. -/
  rank : Nat
  deriving DecidableEq, Inhabited

/-- A filter for entries. -/
structure Filter where
  /-- Its rules in order. -/
  rules : List Rule
  deriving DecidableEq, Inhabited

namespace Filter

/-- The rank of a level that is given by name or by number. -/
def rank? (text : String) : Option Nat :=
  match text.map Char.toLower with
  | "off" | "0" => some 0
  | "error" | "1" => some 1
  | "warn" | "2" => some 2
  | "info" | "3" => some 3
  | "debug" | "4" => some 4
  | "trace" | "5" => some 5
  | _ => none

/-- A character of a name. -/
def isNameChar (c : Char) : Bool := Text.isAlphanumeric c || c == '_' || c == ':' || c == '-'

/-- A name with the rank behind an equals sign; a name alone tells everything. -/
def nameRule? (text : List Char) : Option Rule :=
  let name := text.takeWhile (· != '=')
  if name.isEmpty || !name.all isNameChar then none
  else
    match text.dropWhile (· != '=') with
    | [] | ['='] => some ⟨String.ofList name, Level.trace.rank⟩
    | _ :: rest => (rank? (String.ofList rest)).map fun rank => ⟨String.ofList name, rank⟩

/-- A rule. -/
def rule? (text : String) : Option Rule :=
  match rank? text with
  | some rank => some ⟨"", rank⟩
  | none => nameRule? text.toList

/-- The rules of a filter as they are written. -/
def written (text : String) : List String :=
  ((cut text.toList).map String.ofList).filter fun rule => !rule.isEmpty
where
  /-- Cut characters at each comma. -/
  cut : List Char → List (List Char)
    | [] => [[]]
    | ',' :: rest => [] :: cut rest
    | c :: rest =>
      match cut rest with
      | [] => [[c]]
      | first :: others => (c :: first) :: others

/-- The filter that a text asks for. Rules that make no sense are left out. -/
def parse (text : String) : Filter :=
  match (written text).filterMap rule? with
  | [] => ⟨[⟨"", Level.error.rank⟩]⟩
  | rules => ⟨rules⟩

/-- The rules in a text that make no sense. -/
def ignored (text : String) : List String :=
  (written text).filter fun rule => (rule? rule).isNone

/-- Whether a rule is for a part of the program. -/
def Rule.covers (target : String) (rule : Rule) : Bool :=
  rule.target.toList.isPrefixOf target.toList

/-- The rule that counts for a part of the program. -/
def ruleFor? (filter : Filter) (target : String) : Option Rule :=
  (filter.rules.filter (Rule.covers target)).foldl
    (fun best rule =>
      match best with
      | some found => if rule.target.length < found.target.length then best else some rule
      | none => some rule)
    none

/-- Whether entries of a level are told for a part of the program. -/
def tells (filter : Filter) (target : String) (level : Level) : Bool :=
  match filter.ruleFor? target with
  | some rule => level.rank ≤ rule.rank
  | none => false

/-- The entry as it is told, if it is told. What is going on is said only if that is told as well. -/
def apply (filter : Filter) (entry : Entry) : Option Entry :=
  if filter.tells entry.target entry.level then
    some { entry with span := entry.span.filter fun span => filter.tells span.target span.level }
  else none

end Filter

end Fieldwise.Journal
