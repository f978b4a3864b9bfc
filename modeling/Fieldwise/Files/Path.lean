/-!
# Paths

A path keeps its text: doubled slashes, a slash at the end and dots stay as they are written. Looking at a path
as a sequence of components ignores parts that lead nowhere, which are empty parts and single dots; only a dot
at the very front is a component of its own.
-/

namespace Fieldwise

/-- Where a path starts. -/
inductive Path.Start where
  /-- At its first part. -/
  | plain
  /-- At a single dot. -/
  | dot
  /-- At a slash. -/
  | root
  deriving DecidableEq, Inhabited

/-- A path: where it starts, and the parts between its slashes. -/
structure Path where
  /-- Where it starts. -/
  start : Path.Start
  /-- Its parts. -/
  parts : List String
  deriving DecidableEq, Inhabited

namespace Path

/-- Cut characters at each slash. -/
def cut : List Char → List (List Char)
  | [] => [[]]
  | '/' :: rest => [] :: cut rest
  | c :: rest =>
    match cut rest with
    | [] => [[c]]
    | first :: others => (c :: first) :: others

theorem cut_ne_nil (cs : List Char) : cut cs ≠ [] := by
  induction cs with
  | nil => simp [cut]
  | cons c rest ih =>
    unfold cut
    split <;> simp_all
    split <;> simp

/-- Cutting loses nothing but the slashes. -/
theorem intercalate_cut (cs : List Char) : ['/'].intercalate (cut cs) = cs := by
  induction cs with
  | nil => rfl
  | cons c rest ih =>
    obtain ⟨first, others, h⟩ := List.exists_cons_of_ne_nil (cut_ne_nil rest)
    rw [h] at ih
    by_cases hc : c = '/'
    · subst hc
      simp [cut, h, List.intercalate_cons_cons, ih]
    · cases others with
      | nil => simp_all [cut, List.intercalate]
      | cons second others => simp_all [cut, List.intercalate_cons_cons]

theorem intercalate_map_cut (text : String) :
    "/".intercalate ((cut text.toList).map String.ofList) = text := by
  apply String.toList_injective
  have h : ((cut text.toList).map String.ofList).map String.toList = cut text.toList := by
    simp [Function.comp_def]
  rw [String.toList_intercalate, h]
  exact intercalate_cut text.toList

theorem intercalate_empty_cons {parts : List String} (h : parts ≠ []) :
    "/".intercalate ("" :: parts) = "/" ++ "/".intercalate parts := by
  apply String.toList_injective
  obtain ⟨part, rest, rfl⟩ := List.exists_cons_of_ne_nil h
  simp [String.toList_intercalate]

/-- The path with a text. -/
def ofText (text : String) : Path :=
  match (cut text.toList).map String.ofList with
  | [""] => ⟨.plain, []⟩
  | ["", ""] => ⟨.root, []⟩
  | "" :: parts => ⟨.root, parts⟩
  | "." :: parts => ⟨.dot, parts⟩
  | parts => ⟨.plain, parts⟩

/-- The text of a path. -/
def text (path : Path) : String :=
  match path.start with
  | .plain => String.intercalate "/" path.parts
  | .dot => String.intercalate "/" ("." :: path.parts)
  | .root => "/" ++ String.intercalate "/" path.parts

/-- A path has the text that it was made from. -/
theorem text_ofText (text : String) : (ofText text).text = text := by
  have h := intercalate_map_cut text
  unfold ofText
  split
  next e => rw [e] at h; simpa [Path.text] using h
  next e => rw [e] at h; rw [← h]; rfl
  next parts _ _ e =>
    rw [e] at h
    rw [← h]
    have : parts ≠ [] := by rintro rfl; simp_all
    simp [Path.text, intercalate_empty_cons this]
  next parts _ e => rw [e] at h; simpa [Path.text] using h
  next => simpa [Path.text] using h

/-- The path with an empty text. -/
def empty : Path := ⟨.plain, []⟩

/-- Whether the path does not depend on a working directory. -/
def isAbsolute (path : Path) : Bool := path.start == .root

/-- Whether the text ends with a slash. -/
def endsInSlash (path : Path) : Bool :=
  match path.parts.getLast? with
  | some last => last == ""
  | none => path.start == .root

/-- The parts of the text of a path that does not start at a slash. -/
def writtenParts (path : Path) : List String :=
  match path.start with
  | .dot => "." :: path.parts
  | _ => path.parts

/-- The path with another one behind it. A path that starts at a slash stands alone. -/
def join (base path : Path) : Path :=
  if path.isAbsolute then path
  else if base = empty then path
  else
    let front := if base.parts.getLast? = some "" then base.parts.dropLast else base.parts
    match path.writtenParts with
    | [] => if base.endsInSlash then base else ⟨base.start, base.parts ++ [""]⟩
    | added => ⟨base.start, front ++ added⟩

/-- A part that leads nowhere. -/
def isIdle (part : String) : Bool := part == "" || part == "."

/-- The parts up to the last that leads somewhere. -/
def trimmed (parts : List String) : List String := (parts.reverse.dropWhile isIdle).reverse

/-- The path without its last component. The root and the empty path have none. -/
def parent? (path : Path) : Option Path :=
  match trimmed path.parts with
  | [] => if path.start = .dot then some empty else none
  | parts => some ⟨path.start, trimmed parts.dropLast⟩

/-- The last component, if it is a name. -/
def fileName? (path : Path) : Option String :=
  match (trimmed path.parts).getLast? with
  | some name => if name == ".." then none else some name
  | none => none

/-- The part of a name behind its last dot, unless the name begins with it. -/
def extensionOf? (name : List Char) : Option (List Char) :=
  let behind := name.reverse.takeWhile (· != '.')
  match name.reverse.dropWhile (· != '.') with
  | [] => none
  | [_] => none
  | _ => some behind.reverse

/-- The extension of the last component. -/
def extension? (path : Path) : Option String :=
  path.fileName?.bind fun name => (extensionOf? name.toList).map String.ofList

theorem trimmed_length_le (parts : List String) : (trimmed parts).length ≤ parts.length := by
  have h : List.Sublist (parts.reverse.dropWhile isIdle) parts.reverse :=
    List.dropWhile_sublist isIdle
  simpa [trimmed] using h.length_le

/-- A measure that a parent has less of. -/
def weight (path : Path) : Nat := path.parts.length + if path.start = .dot then 1 else 0

theorem weight_parent? {path parent : Path} (h : path.parent? = some parent) :
    parent.weight < path.weight := by
  unfold parent? at h
  split at h
  · split at h
    · cases h
      simp_all [weight, empty]
    · cases h
  · rename_i hne
    cases h
    have h1 := trimmed_length_le (trimmed path.parts).dropLast
    have h2 := trimmed_length_le path.parts
    have h3 : 0 < (trimmed path.parts).length := List.length_pos_iff.2 hne
    simp only [weight, List.length_dropLast] at *
    omega

/-- The path, its parent, and so on. -/
def ancestors (path : Path) : List Path :=
  path :: match h : path.parent? with
    | some parent =>
      have := weight_parent? h
      ancestors parent
    | none => []
termination_by path.weight

end Path

end Fieldwise
