import Mathlib.Tactic.SplitIfs
import Fieldwise.Proofs.Walks

/-!
# The order of paths

Paths are compared component by component, and names byte by byte. Texts are compared character by character
elsewhere; that is the same, since a character with a greater number has greater bytes.
-/

namespace Fieldwise

/-! ## Bytes of texts -/

/-- The bytes of a text. -/
def textBytes (text : String) : List UInt8 := text.toUTF8.data.toList

theorem textBytes_eq (text : String) : textBytes text = text.toList.flatMap String.utf8EncodeChar := by
  rw [textBytes, String.toUTF8, ← String.utf8Encode_toList, List.utf8Encode, List.toList_data_toByteArray]

/-- A smaller character has smaller bytes, whatever comes behind. -/
theorem utf8EncodeChar_lt {c d : Char} (h : c < d) (xs ys : List UInt8) :
    String.utf8EncodeChar c ++ xs < String.utf8EncodeChar d ++ ys := by
  have hlt : c.val.toNat < d.val.toNat := h
  have hmax : d.val.toNat < 1114112 := by
    have hvalid : d.val.toNat.isValidChar := d.valid
    unfold Nat.isValidChar at hvalid
    omega
  have hthird : ∀ n : Nat, n / 4096 = n / 64 / 64 := fun n => by rw [Nat.div_div_eq_div_mul]
  have hfourth : ∀ n : Nat, n / 262144 = n / 64 / 64 / 64 := fun n => by
    rw [Nat.div_div_eq_div_mul, Nat.div_div_eq_div_mul]
  unfold String.utf8EncodeChar
  simp only [hthird, hfourth]
  -- The first byte tells how many there are; among as many, the first that differs decides.
  split_ifs <;>
    simp only [List.cons_append, List.nil_append, List.cons_lt_cons_iff, UInt8.lt_iff_toNat_lt, UInt8.toNat_ofNat',
      ← UInt8.toNat_inj] <;>
    omega

theorem flatMap_utf8EncodeChar_lt {cs ds : List Char} (h : cs < ds) :
    cs.flatMap String.utf8EncodeChar < ds.flatMap String.utf8EncodeChar := by
  induction h with
  | @nil d ds =>
    obtain ⟨first, rest, hfirst⟩ := List.exists_cons_of_ne_nil (String.utf8EncodeChar_ne_nil (c := d))
    rw [List.flatMap_nil, List.flatMap_cons, hfirst]
    exact List.nil_lt_cons _ _
  | cons _ ih =>
    rw [List.flatMap_cons, List.flatMap_cons]
    exact List.append_left_lt ih
  | rel h =>
    rw [List.flatMap_cons, List.flatMap_cons]
    exact utf8EncodeChar_lt h _ _

theorem textBytes_lt {a b : String} (h : a < b) : textBytes a < textBytes b := by
  rw [textBytes_eq, textBytes_eq]
  exact flatMap_utf8EncodeChar_lt h

/-! ## Components of paths -/

namespace Path

/-- A component of a path. -/
inductive Component where
  | root
  | here
  | up
  | name (text : String)
  deriving DecidableEq

namespace Component

/-- The component that a part of a path is. -/
def ofPart (part : String) : Component := if part == ".." then up else name part

/-- The bytes by which a component is compared: first what it is, then its name. -/
def bytes : Component → List UInt8
  | root => [0]
  | here => [1]
  | up => [2]
  | name text => 3 :: textBytes text

end Component

/-- The components of a path. Parts that lead nowhere are none. -/
def components (path : Path) : List Component :=
  let first : List Component :=
    match path.start with
    | .plain => []
    | .dot => [.here]
    | .root => [.root]
  first ++ (path.parts.filter fun part => !isIdle part).map Component.ofPart

/-- Whether a path comes before another one, component by component and byte by byte. -/
def Before (left right : Path) : Prop :=
  left.components.map Component.bytes < right.components.map Component.bytes

theorem Before.asymm {left right : Path} (h : left.Before right) : ¬right.Before left := List.lt_asymm h

theorem Before.ne {left right : Path} (h : left.Before right) : left ≠ right := by
  rintro rfl
  exact h.asymm h

theorem components_entryPath (folder : Path) {name : String} (hname : isName name = true) :
    (Walk.entryPath folder name).components = folder.components ++ [.name name] := by
  obtain ⟨hidle, hup⟩ : isIdle name = false ∧ name ≠ ".." := by simpa [isName] using hname
  have hlast : ∀ parts : List String, (if parts.getLast? = some "" then parts.dropLast else parts).filter
      (fun part => !isIdle part) = parts.filter fun part => !isIdle part := by
    intro parts
    split
    · rename_i hslash
      obtain ⟨front, rfl⟩ := List.getLast?_eq_some_iff.mp hslash
      have hidle : isIdle "" = true := rfl
      simp [hidle]
    · rfl
  unfold Walk.entryPath Path.join
  rw [if_neg (by simp [isAbsolute])]
  split
  · rename_i hempty
    subst hempty
    simp [components, Path.empty, hidle, Component.ofPart, hup]
  · simp [components, writtenParts, hlast, hidle, Component.ofPart, hup]

theorem components_entryPaths (folder : Path) {names : List String} (hnames : ∀ name ∈ names, isName name = true) :
    (names.foldl Walk.entryPath folder).components = folder.components ++ names.map .name := by
  induction names generalizing folder with
  | nil => simp
  | cons name rest ih =>
    obtain ⟨hname, hrest⟩ := List.forall_mem_cons.mp hnames
    rw [List.foldl_cons, ih _ hrest, components_entryPath folder hname]
    simp

/-- What is in one entry comes before what is in another one with a greater name. -/
theorem before_of_lt (folder : Path) {name other : String} (h : name < other) {names others : List String}
    (hnames : ∀ part ∈ name :: names, isName part = true) (hothers : ∀ part ∈ other :: others, isName part = true) :
    ((name :: names).foldl Walk.entryPath folder).Before ((other :: others).foldl Walk.entryPath folder) := by
  rw [Before, components_entryPaths folder hnames, components_entryPaths folder hothers, List.map_append,
    List.map_append]
  refine List.append_left_lt (List.Lex.rel ?_)
  exact List.Lex.cons (textBytes_lt h)

end Path

end Fieldwise
