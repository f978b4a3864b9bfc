import Fieldwise.Grammar.Tree

/-!
# Access levels

How far a declaration can be seen, in three steps. A visibility that names the enclosing module itself is
no wider than none at all; every other restriction counts as visible inside the package.
-/

namespace Fieldwise

/-- Access levels, most restrictive first. -/
inductive Access where
  /-- Visible in its own module only. -/
  | confined
  /-- Visible further than that, but not everywhere. -/
  | internal
  /-- Visible everywhere. -/
  | exported
  deriving DecidableEq, Inhabited

namespace Access

/-- The place of a level in the order. -/
def rank : Access → Nat
  | confined => 0
  | internal => 1
  | exported => 2

/-- The access level of a visibility. -/
def ofVisibility : Grammar.Visibility → Access
  | .inherited => confined
  | .everywhere _ => exported
  | .inside _ _ path => if path.isWord "self" then confined else internal

/-- The keyword written before an item with this access level. -/
def keyword : Access → String
  | confined => ""
  | internal => "pub(crate)"
  | exported => "pub"

/-- The name of a level in messages. -/
def name : Access → String
  | confined => "private"
  | internal => "internal"
  | exported => "public"

/-- Levels are ordered by how far they reach. -/
instance : LE Access := ⟨fun a b => a.rank ≤ b.rank⟩

instance : LT Access := ⟨fun a b => a.rank < b.rank⟩

instance (a b : Access) : Decidable (a ≤ b) := inferInstanceAs (Decidable (a.rank ≤ b.rank))

instance (a b : Access) : Decidable (a < b) := inferInstanceAs (Decidable (a.rank < b.rank))

instance : Ord Access := ⟨fun a b => compare a.rank b.rank⟩

theorem le_refl (a : Access) : a ≤ a := Nat.le_refl a.rank

theorem le_trans {a b c : Access} : a ≤ b → b ≤ c → a ≤ c := Nat.le_trans

theorem not_le {a b : Access} : ¬a ≤ b ↔ b < a := Nat.not_le

theorem confined_le (a : Access) : confined ≤ a := Nat.zero_le a.rank

theorem le_exported (a : Access) : a ≤ exported := by
  cases a <;> decide

theorem rank_injective {a b : Access} (h : a.rank = b.rank) : a = b := by
  cases a <;> cases b <;> simp_all [rank]

end Access

end Fieldwise
