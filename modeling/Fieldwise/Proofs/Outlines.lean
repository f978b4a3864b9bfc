import Fieldwise.Proofs.Outcome
import Fieldwise.Proofs.Shapes
import Fieldwise.Proofs.Splicing

/-!
# What a value sees of its type

A value is written in view of the containers of its type and of the names that are the owned text, and of
nothing else. That much is the outline of a descriptor. A descriptor that was inferred, part by part, and one
that was read from the text of the whole have the same outline, so values are written alike for both.
-/

namespace Fieldwise

open Grammar Token

variable {type : Descriptor} {tree found : Ty}

namespace Descriptor

/-- A descriptor with only its containers and the names that are the owned text. -/
def outline : Descriptor → Descriptor
  | named name => if name = "String" then string else named ""
  | array element => array element.outline
  | map key value => map key.outline value.outline
  | optional inner => optional inner.outline
  | callable _ _ _ => named ""

theorem layers_outline (type : Descriptor) : type.outline.layers = type.layers := by
  induction type with
  | named name =>
    unfold outline
    split <;> rfl
  | optional inner ih => simp [outline, layers, ih]
  | _ => rfl

theorem core_outline (type : Descriptor) : type.outline.core = type.core.outline := by
  induction type with
  | named name =>
    unfold outline core
    by_cases h : name = "String" <;> simp [h, string]
  | optional inner ih => simp [outline, core, ih]
  | _ => rfl

theorem outline_eq_string : type.outline = string ↔ type = string := by
  cases type with
  | named name =>
    by_cases h : name = "String" <;> simp [outline, string, h]
  | _ => simp [outline, string]

end Descriptor

namespace Value

open Descriptor

variable (target : Option Descriptor)

theorem layersOf_outline : layersOf (target.map outline) = layersOf target := by
  cases target with
  | none => rfl
  | some type => simp [layersOf, layers_outline]

theorem coreOf_outline : coreOf (target.map outline) = (coreOf target).map outline := by
  cases target with
  | none => rfl
  | some type => simp [coreOf, core_outline]

theorem outline_eq_some_string :
    target.map outline = some string ↔ target = some string := by
  cases target with
  | none => simp
  | some type => simp [outline_eq_string]

/-- The outline of a part of a container is the part of its outline. -/
theorem parts_outline :
    elementOf? (target.map outline) = (elementOf? target).map outline ∧
      keyOf? (target.map outline) = (keyOf? target).map outline ∧
      valueOf? (target.map outline) = (valueOf? target).map outline := by
  rcases target with - | (name | element | ⟨key, value⟩ | inner | ⟨shown, bounds, escapes⟩)
  case some.named =>
    by_cases h : name = "String" <;> simp [outline, h, elementOf?, keyOf?, valueOf?, string]
  all_goals exact ⟨rfl, rfl, rfl⟩

mutual

/-- A value is written in view of the outline of its type. -/
theorem fit_outline (target : Option Descriptor) (value : Value) :
    fit (target.map outline) value = fit target value := by
  cases value with
  | absent => rfl
  | cast value type conditional =>
    cases conditional with
    | true => rfl
    | false => rw [fit, fit, layersOf_outline]
  | text literal pos =>
    simp only [fit, layersOf_outline, coreOf_outline, outline_eq_some_string]
  | array elements =>
    rw [fit, fit, layersOf_outline, coreOf_outline, (parts_outline _).1]
    cases elementOf? (coreOf target) with
    | none => rfl
    | some element => exact congrArg _ (by simp [← fitAll_outline (some element) elements])
  | map entries =>
    obtain ⟨-, hkey, hvalue⟩ := parts_outline (coreOf target)
    rw [fit, fit, layersOf_outline, coreOf_outline, hkey, hvalue, fitEntries_outline]
  | bool value => rw [fit, fit, layersOf_outline]
  | char literal => rw [fit, fit, layersOf_outline]
  | whole negative literal => rw [fit, fit, layersOf_outline]
  | fraction negative literal => rw [fit, fit, layersOf_outline]
  | other tokens => rw [fit, fit, layersOf_outline]

theorem fitAll_outline (target : Option Descriptor) (values : List Value) :
    fitAll (target.map outline) values = fitAll target values := by
  cases values with
  | nil => rfl
  | cons value rest => rw [fitAll, fitAll, fit_outline, fitAll_outline]

theorem fitEntries_outline (key value : Option Descriptor) (entries : List (Value × Value)) :
    fitEntries (key.map outline) (value.map outline) entries = fitEntries key value entries := by
  cases entries with
  | nil => rfl
  | cons entry rest =>
    obtain ⟨k, v⟩ := entry
    rw [fitEntries, fitEntries, fit_outline, fit_outline, fitEntries_outline]

end

/-- Types of one outline have their values written alike. -/
theorem lower_eq_of_outline {other : Descriptor} (h : type.resolve.outline = other.resolve.outline) (value : Value) :
    value.lower (some type) = value.lower (some other) := by
  have houtline : (some type.resolve).map outline = (some other.resolve).map outline :=
    congrArg some h
  calc fit (some type.resolve) value
      = fit ((some type.resolve).map outline) value := (fit_outline _ value).symm
    _ = fit ((some other.resolve).map outline) value := by rw [houtline]
    _ = fit (some other.resolve) value := fit_outline _ value

end Value

/-! ## Types -/

namespace Grammar.Ty

open Descriptor

/-- The outline of the container structure of a type. -/
def outline? (type : Ty) : Option Descriptor := (shapeOf? type).map outline

/-- The outline of a type; one without structure is a name. -/
def outline (type : Ty) : Descriptor :=
  type.outline?.getD (named (Tokens.text type.tokens)).outline

/-- Types with the same tokens, up to their places, and the same structure. -/
def Alike (type other : Ty) : Prop :=
  plainAll type.tokens = plainAll other.tokens ∧ type.outline? = other.outline?

instance (type other : Ty) : Decidable (Alike type other) := inferInstanceAs (Decidable (_ ∧ _))

/-- Whether a type is read back from its text. -/
def readsBack (type : Ty) : Bool :=
  match parseText parseType (Tokens.text type.tokens) with
  | .ok again => decide (again.Alike type)
  | .error _ => false

/-- A type that is read back is read back as one like it. -/
theorem readsBack_iff {type : Ty} :
    type.readsBack = true ↔
      ∃ again, parseText parseType (Tokens.text type.tokens) = .ok again ∧ again.Alike type := by
  unfold readsBack
  cases h : parseText parseType (Tokens.text type.tokens) with
  | error e => simp
  | ok again => simp

/-- A path of words with arguments after the last of them. -/
def applied (rooted : Bool) (modules : List String) (name : String) (args : List Ty) : Ty :=
  .path rooted (modules.map (fun word => .mk ⟨word, .callSite⟩ .none) ++
    [.mk ⟨name, .callSite⟩ (.angle false (args.map GenericArg.type) false)])

theorem itemShapes_types (args : List Ty) :
    itemShapes leaf (args.map GenericArg.type) =
      args.map fun type => (shapeOf? type).getD (leaf type) := by
  induction args with
  | nil => rfl
  | cons type rest ih => simp [itemShapes, itemShape, ih, shapeOf?]

theorem shapeOf?_applied (rooted : Bool) (modules : List String) (name : String)
    (args : List Ty) :
    shapeOf? (applied rooted modules name args) =
      container? name (args.map fun type => (shapeOf? type).getD (leaf type)) := by
  rw [applied, shapeOf?_path]
  induction modules with
  | nil => simp [lastShape?, segmentShape?, argShapes?, itemShapes_types]
  | cons word rest ih =>
    cases rest with
    | nil => simpa [lastShape?] using ih
    | cons next rest => simpa [lastShape?] using ih

/-- The outline of a type is that of its structure, or of its text as a name. -/
theorem outline_eq (type : Ty) :
    type.outline = ((shapeOf? type).getD (named (Tokens.text type.tokens))).outline := by
  unfold outline outline?
  cases shapeOf? type <;> rfl

theorem tokens_applied (name : String) (type : Ty) :
    (applied false [] name [type]).tokens =
      term name ++ sign "<" ++ type.tokens ++ sign ">" := by
  simp [applied, tokens, Segment.tokensAll, Segment.tokens, Args.tokens, GenericArg.piecesAll,
    GenericArg.tokens, GenericArg.isLifetime, lifetimesFirst, marked, appendPiece, joined, term,
    Ident.token]

end Grammar.Ty

namespace Descriptor

/-! ## Descriptors as types -/

/-- The type that a descriptor stands for, put together from the types of its names. Callables are not part
of types that values determine, and stand for none. -/
def tree? : Descriptor → Option Ty
  | named name => (parseText parseType name).toOption
  | array element => element.tree?.map fun type => .applied false [] "Vec" [type]
  | map key value =>
    key.tree?.bind fun keyType => value.tree?.map fun valueType =>
      .applied true ["std", "collections"] "HashMap" [keyType, valueType]
  | optional inner => inner.tree?.map fun type => .applied false [] "Option" [type]
  | callable _ _ _ => none

/-- Whether the text of a descriptor is parsed as the type that it stands for. -/
def textParses (type : Descriptor) : Bool :=
  match parseText parseType type.text, type.tree? with
  | .ok found, some tree => decide (found.Alike tree)
  | .error _, none => true
  | _, _ => false

/-- Whether the texts of a descriptor and of its parts are parsed as the types that they stand for. -/
def composes : Descriptor → Bool
  | named name => textParses (named name)
  | array element => element.composes && textParses (array element)
  | map key value => key.composes && value.composes && textParses (map key value)
  | optional inner => inner.composes && textParses (optional inner)
  | callable shown bounds escapes => textParses (callable shown bounds escapes)

/-- A text that is parsed is parsed as a type like the one that its descriptor stands for. -/
theorem textParses_ok (h : type.textParses = true) (hparse : parseText parseType type.text = .ok found) :
    ∃ tree, type.tree? = some tree ∧ found.Alike tree := by
  unfold textParses at h
  rw [hparse] at h
  cases htree : type.tree? with
  | none => simp [htree] at h
  | some tree => exact ⟨tree, rfl, by simpa [htree] using h⟩

/-- The text of a descriptor that stands for a type is parsed as a type like it. -/
theorem textParses_some (h : type.textParses = true) (htree : type.tree? = some tree) :
    ∃ found, parseText parseType type.text = .ok found ∧ found.Alike tree := by
  unfold textParses at h
  rw [htree] at h
  cases hparse : parseText parseType type.text with
  | error e => simp [hparse] at h
  | ok found => exact ⟨found, rfl, by simpa [hparse] using h⟩

/-- The text of the whole is among the texts that are parsed. -/
theorem textParses_of_composes (h : type.composes = true) : type.textParses = true := by
  cases type <;> simp_all [composes]

/-- Whether the type that a text is parsed as is read back from its own text. -/
def textReadsBack (text : String) : Bool := (parseText parseType text).toOption.all Ty.readsBack

/-- Whether the types of a descriptor and of its parts are read back from their own texts. -/
def readsBack : Descriptor → Bool
  | named name => textReadsBack name
  | array element => element.readsBack && textReadsBack (array element).text
  | map key value =>
    key.readsBack && value.readsBack && textReadsBack (map key value).text
  | optional inner => inner.readsBack && textReadsBack (optional inner).text
  | callable shown _ _ => textReadsBack shown

/-- The type that the whole is parsed as is among those that are read back. -/
theorem readsBack_of_parse (h : type.readsBack = true) (hparse : parseText parseType type.text = .ok found) :
    found.readsBack = true := by
  have hwhole : textReadsBack type.text = true := by
    clear hparse
    cases type with
    | named name => exact h
    | callable shown bounds escapes => exact h
    | _ =>
      simp only [readsBack, Bool.and_eq_true] at h
      exact h.2
  simpa [textReadsBack, hparse, Except.toOption] using hwhole

/-- The word for the owned text is parsed as a type with its structure. -/
theorem parse_string :
    ∃ type, parseText parseType "String" = .ok type ∧ shapeOf? type = some string := by
  have h : ((parseText parseType "String").toOption.any fun type =>
      shapeOf? type == some string) = true := by decide +kernel
  obtain ⟨type, hparse, hshape⟩ := exists_ok_of_any h
  exact ⟨type, hparse, by simpa using hshape⟩

/-- A type without structure that is read back is not written as the owned text. -/
theorem text_ne_string {type : Ty} (hreads : type.readsBack = true) (h : shapeOf? type = none) :
    Tokens.text type.tokens ≠ "String" := by
  intro htext
  obtain ⟨again, hagain, -, houtline⟩ := Ty.readsBack_iff.mp hreads
  obtain ⟨other, hother, hshape⟩ := parse_string
  rw [htext, hother] at hagain
  cases hagain
  simp [Ty.outline?, h, hshape] at houtline

/-- How many arguments there are decides whether a name stands for a container. -/
theorem container?_isSome {name : String} {args others : List Descriptor}
    (h : args.length = others.length) (hargs : (container? name args).isSome = true) :
    (container? name others).isSome = true := by
  unfold container? at hargs
  split at hargs
  case h_6 => simp at hargs
  all_goals
    rcases others with - | ⟨first, - | ⟨second, rest⟩⟩
    all_goals first | rfl | simp at h

section Leaf

variable (first second : Ty → Descriptor)

/-- Arguments have as many structures, however types without one are described. -/
theorem length_itemShapes (items : List GenericArg) :
    (itemShapes first items).length = (itemShapes second items).length := by
  induction items with
  | nil => rfl
  | cons item rest ih =>
    rw [itemShapes, itemShapes, List.length_append, List.length_append, ih]
    cases item <;> rfl

theorem lastShape?_isSome (segments : List Segment) (h : (lastShape? first segments).isSome = true) :
    (lastShape? second segments).isSome = true := by
  induction segments with
  | nil => simp [lastShape?] at h
  | cons segment rest ih =>
    cases rest with
    | cons next rest => exact ih h
    | nil =>
      obtain ⟨name, args⟩ := segment
      cases args with
      | none => exact h
      | call inputs trailing output => simp [lastShape?, segmentShape?, argShapes?] at h
      | angle turbofish items trailing =>
        exact container?_isSome (length_itemShapes first second items) h

/-- Whether a type has a structure does not depend on how types without one are described. -/
theorem shapeWith?_isSome {type : Ty} (h : (shapeWith? first type).isSome = true) :
    (shapeWith? second type).isSome = true := by
  cases type with
  | path rooted segments =>
    rw [shapeWith?] at h ⊢
    exact lastShape?_isSome first second segments h
  | _ => simp [shapeWith?] at h

end Leaf

/-- A type without structure that is read back is described by its text. -/
theorem leaf_eq_named {type : Ty} (hreads : type.readsBack = true) (h : shapeOf? type = none) :
    leaf type = named (Tokens.text type.tokens) := by
  obtain ⟨again, hagain, -, houtline⟩ := Ty.readsBack_iff.mp hreads
  have hnone : shapeOf? again = none := by
    simpa [Ty.outline?, h] using houtline
  rw [leaf]
  cases Token.sizeAll type.tokens with
  | zero => rfl
  | succ depth =>
    have hdeep : shapeWith? (leafTo depth) again = none := by
      by_contra hsome
      have hleaf := shapeWith?_isSome (leafTo depth) leaf (Option.isSome_iff_ne_none.mpr hsome)
      rw [shapeOf?] at hnone
      simp [hnone] at hleaf
    simp only [leafTo, readWith, hagain, hdeep, Option.getD_none]

/-- A name without structure that is parsed is not the owned text. -/
theorem name_ne_string {name : String} {type : Ty} (hparse : parseText parseType name = .ok type)
    (h : shapeOf? type = none) : name ≠ "String" := by
  rintro rfl
  obtain ⟨other, hother, hshape⟩ := parse_string
  rw [hother] at hparse
  cases hparse
  rw [hshape] at h
  contradiction

/-- A container has structure, so a type without one is parsed from a name. -/
theorem parse_of_tree? (h : type.tree? = some tree) (hshape : shapeOf? tree = none) :
    parseText parseType type.text = .ok tree := by
  cases type with
  | named name =>
    cases hname : parseText parseType name with
    | error e => simp [tree?, hname, Except.toOption] at h
    | ok found =>
      have hfound : found = tree := by simpa [tree?, hname, Except.toOption] using h
      subst hfound
      exact hname
  | array element =>
    obtain ⟨elementTree, -, rfl⟩ := Option.map_eq_some_iff.mp h
    simp [Ty.shapeOf?_applied, container?] at hshape
  | map key value =>
    obtain ⟨keyTree, -, hrest⟩ := Option.bind_eq_some_iff.mp h
    obtain ⟨valueTree, -, rfl⟩ := Option.map_eq_some_iff.mp hrest
    simp [Ty.shapeOf?_applied, container?] at hshape
  | optional inner =>
    obtain ⟨innerTree, -, rfl⟩ := Option.map_eq_some_iff.mp h
    simp [Ty.shapeOf?_applied, container?] at hshape
  | callable shown bounds escapes => contradiction

/-- Among arguments, the type that a descriptor stands for has its own outline. -/
theorem part_outline (hreads : type.readsBack = true) (htree : type.tree? = some tree) :
    ((shapeOf? tree).getD (leaf tree)).outline = tree.outline := by
  rw [Ty.outline_eq]
  cases hshape : shapeOf? tree with
  | some found => rfl
  | none =>
    have hback : tree.readsBack = true := readsBack_of_parse hreads (parse_of_tree? htree hshape)
    rw [Option.getD_none, Option.getD_none, leaf_eq_named hback hshape]

/-- A descriptor and the type that it stands for have one outline. -/
theorem resolve_outline (hreads : type.readsBack = true) (htree : type.tree? = some tree) :
    type.resolve.outline = tree.outline := by
  induction type generalizing tree with
  | named name =>
    have hparse : parseText parseType name = .ok tree := by
      cases hname : parseText parseType name with
      | error e => simp [tree?, hname, Except.toOption] at htree
      | ok found => simpa [tree?, hname, Except.toOption] using htree
    have hback : tree.readsBack = true := by
      simpa [readsBack, textReadsBack, hparse, Except.toOption] using hreads
    have hresolve : (named name).resolve = (shapeOf? tree).getD (named name) := by
      rw [resolve, shape_named, hparse]
    rw [Ty.outline_eq, hresolve]
    cases hshape : shapeOf? tree with
    | some found => rfl
    | none =>
      -- Both are names, which differ in their outline only if one of them is the owned text.
      have hname := name_ne_string hparse hshape
      have htext := text_ne_string hback hshape
      simp [outline, hname, htext]
  | array element ih =>
    obtain ⟨elementTree, helement, rfl⟩ := Option.map_eq_some_iff.mp htree
    rw [readsBack, Bool.and_eq_true] at hreads
    rw [Ty.outline_eq, Ty.shapeOf?_applied, resolve, outline, ih hreads.1 helement,
      ← part_outline hreads.1 helement]
    rfl
  | map key value ihkey ihvalue =>
    obtain ⟨keyTree, hkey, hrest⟩ := Option.bind_eq_some_iff.mp htree
    obtain ⟨valueTree, hvalue, rfl⟩ := Option.map_eq_some_iff.mp hrest
    rw [readsBack, Bool.and_eq_true, Bool.and_eq_true] at hreads
    rw [Ty.outline_eq, Ty.shapeOf?_applied, resolve, outline, ihkey hreads.1.1 hkey,
      ihvalue hreads.1.2 hvalue, ← part_outline hreads.1.1 hkey, ← part_outline hreads.1.2 hvalue]
    rfl
  | optional inner ih =>
    obtain ⟨innerTree, hinner, rfl⟩ := Option.map_eq_some_iff.mp htree
    rw [readsBack, Bool.and_eq_true] at hreads
    rw [Ty.outline_eq, Ty.shapeOf?_applied, resolve, outline, ih hreads.1 hinner,
      ← part_outline hreads.1 hinner]
    rfl
  | callable shown bounds escapes => contradiction

/-! ## Types that are written out -/

theorem finish_finish (draft : Printer.Draft) :
    Printer.Draft.finish draft.finish.reverse = draft.finish := by
  have hkept : ∀ cs : List Char, (∀ c, cs.head? = some c → c ≠ ' ') →
      cs.dropWhile (· == ' ') = cs := by
    intro cs hcs
    cases cs with
    | nil => rfl
    | cons c rest => simp [hcs c rfl]
  have hhead : ∀ (cs : List Char) (c : Char),
      (cs.dropWhile (· == ' ')).head? = some c → c ≠ ' ' := by
    intro cs c hc
    have hnot := List.head?_dropWhile_not (· == ' ') cs
    rw [hc] at hnot
    simpa using hnot
  have hend : draft.finish.reverse.dropWhile (· == ' ') = draft.finish.reverse := by
    refine hkept _ fun c hc => ?_
    obtain ⟨before, hbefore⟩ := List.dropWhile_suffix (· == ' ') (l := draft.trimEnd.reverse)
    have hlast : draft.finish.getLast? = some c := by rwa [List.head?_reverse] at hc
    have hsame : draft.trimEnd.head? = some c := by
      rw [← List.getLast?_reverse, ← hbefore, List.getLast?_append]
      exact Option.or_eq_some_iff.mpr (.inl hlast)
    exact hhead draft c hsame
  have htrim : Printer.Draft.trimEnd draft.finish.reverse = draft.finish.reverse := hend
  rw [Printer.Draft.finish, htrim, List.reverse_reverse]
  exact hkept _ (hhead _)

/-- A group without delimiters is written as what is in it. -/
theorem text_group (tokens : Tokens) :
    Tokens.text (wrap .invisible tokens) = Tokens.text tokens := by
  have hgroup : ∀ inside : List Char,
      (Printer.writeGroup [] .invisible inside) = inside.reverse := by
    intro inside
    cases inside <;> simp [Printer.writeGroup, Printer.marks, Printer.groupGap, Printer.Draft.append]
  unfold Tokens.text wrap
  simp only [Printer.writeTokens, Printer.writeToken, Printer.Sheet.settle, Printer.writeOp,
    Printer.Sheet.empty, hgroup]
  exact congrArg String.ofList (finish_finish _)

end Descriptor

/-- Whether a type is a box of a callable. -/
def Grammar.Ty.isBoxedCallable : Ty → Bool
  | .path _ segments => (Descriptor.boxedBounds? segments).isSome
  | .group inner => inner.isBoxedCallable
  | _ => false

namespace Descriptor

/-- A type that is written out is described by its text, as a name or as a callable. A callable that outlives the
call is a box; any other callable has no structure. -/
theorem ofType?_cases {type : Ty} {found : Descriptor} (h : ofType? type = some found) :
    found = named (Tokens.text type.tokens) ∨
      ∃ bounds, found = callable (Tokens.text type.tokens) bounds type.isBoxedCallable ∧
        (type.isBoxedCallable = false → shapeOf? type = none) := by
  unfold ofType? at h
  split at h
  case h_1 => contradiction
  case h_2 inner =>
    have htext : Tokens.text (Ty.tokens (.group inner)) = Tokens.text inner.tokens :=
      text_group inner.tokens
    rw [htext, Ty.isBoxedCallable]
    obtain hnamed | ⟨bounds, hcallable, -⟩ := ofType?_cases h
    · exact .inl hnamed
    · exact .inr ⟨bounds, hcallable, fun _ => rfl⟩
  case h_3 => exact .inr ⟨_, (Option.some.inj h).symm, fun _ => rfl⟩
  case h_4 =>
    split at h
    · split at h
      · exact .inr ⟨_, (Option.some.inj h).symm, fun _ => rfl⟩
      · exact .inl (Option.some.inj h).symm
    · exact .inl (Option.some.inj h).symm
  case h_5 rooted segments =>
    split at h
    · rename_i bounds hbounds
      have hboxed : Ty.isBoxedCallable (.path rooted segments) = true := by
        simp [Ty.isBoxedCallable, hbounds]
      refine .inr ⟨bounds, ?_, fun hnot => absurd (hboxed.symm.trans hnot) (by decide)⟩
      rw [hboxed]
      exact (Option.some.inj h).symm
    · exact .inl (Option.some.inj h).symm
  case h_6 => exact .inl (Option.some.inj h).symm

/-- The descriptor of a type that is read back has the outline of the type, unless it is a box of a callable. -/
theorem ofType?_outline {type : Ty} {found : Descriptor} (h : ofType? type = some found)
    (hboxed : type.isBoxedCallable = false) (hreads : type.readsBack = true) :
    found.resolve.outline = type.outline := by
  obtain rfl | ⟨bounds, rfl, hshape⟩ := ofType?_cases h
  · -- The structure of the name is that of the type as it is read back.
    obtain ⟨again, hagain, -, houtline⟩ := Ty.readsBack_iff.mp hreads
    have hresolve : (named (Tokens.text type.tokens)).resolve =
        (shapeOf? again).getD (named (Tokens.text type.tokens)) := by
      rw [resolve, shape_named, hagain]
    rw [hresolve, Ty.outline, ← houtline, Ty.outline?]
    cases shapeOf? again <;> rfl
  · have htext := text_ne_string hreads (hshape hboxed)
    rw [Ty.outline_eq, hshape hboxed]
    simp [resolve, outline, htext]

/-- A descriptor has the outline of the type that its text is parsed as. -/
theorem resolve_outline_of_parse (hcomposes : type.composes = true) (hreads : type.readsBack = true)
    (hparse : parseText parseType type.text = .ok found) : type.resolve.outline = found.outline := by
  obtain ⟨tree, htree, -, houtline⟩ := textParses_ok (textParses_of_composes hcomposes) hparse
  rw [resolve_outline hreads htree]
  cases hshape : shapeOf? tree with
  | none =>
    have hsame := parse_of_tree? htree hshape
    rw [hparse] at hsame
    cases hsame
    rfl
  | some inner =>
    have hfound : found.outline? = some inner.outline := by
      rw [houtline, Ty.outline?, hshape]
      rfl
    rw [Ty.outline, Ty.outline, hfound, Ty.outline?, hshape]
    rfl

/-! ## Descriptors that can stand for each other -/

/-- Where one text is parsed as a type, the other is parsed as one with the same tokens. -/
def ReadAlike (text other : String) : Prop :=
  ∀ type, parseText parseType text = .ok type →
    ∃ found, parseText parseType other = .ok found ∧ plainAll found.tokens = plainAll type.tokens

theorem ReadAlike.refl (text : String) : ReadAlike text text := fun type h => ⟨type, h, rfl⟩

/-- A descriptor can take the place of another: values are written alike for both, and each text in which one
of them stands is parsed as the same type. -/
structure Interchangeable (type other : Descriptor) : Prop where
  /-- Values see the same. -/
  outline : type.resolve.outline = other.resolve.outline
  /-- Both outlive the call, or none. -/
  escapes : other.escapes = type.escapes
  /-- The type of a field. -/
  text : ReadAlike type.text other.text
  /-- The type of a parameter. -/
  parameterText : ReadAlike type.parameterText other.parameterText
  /-- The type of a parameter with a default. -/
  optionText : ReadAlike ("Option<" ++ type.text ++ ">") ("Option<" ++ other.text ++ ">")

theorem Interchangeable.refl (type : Descriptor) : Interchangeable type type :=
  ⟨rfl, rfl, .refl _, .refl _, .refl _⟩

/-- The optional types of types that are alike have the same tokens. -/
theorem optional_tokens {type other : Ty} (h : type.Alike other) :
    plainAll (Ty.applied false [] "Option" [type]).tokens =
      plainAll (Ty.applied false [] "Option" [other]).tokens := by
  rw [Ty.tokens_applied, Ty.tokens_applied]
  simp only [plainAll_append, h.1]

/-- The type that the text of a descriptor is parsed as can be written out in its place, if it is no box of
a callable. -/
theorem Interchangeable.of_parse {found : Descriptor} {parsed : Ty} (hcomposes : (optional type).composes = true)
    (hagain : (optional (named (Tokens.text parsed.tokens))).composes = true) (hreads : type.readsBack = true)
    (hparse : parseText parseType type.text = .ok parsed) (hboxed : parsed.isBoxedCallable = false)
    (hfound : ofType? parsed = some found) : Interchangeable type found := by
  have hwhole : type.composes = true := by
    rw [composes, Bool.and_eq_true] at hcomposes
    exact hcomposes.1
  have hback : parsed.readsBack = true := readsBack_of_parse hreads hparse
  obtain ⟨again, hread, halike⟩ := Ty.readsBack_iff.mp hback
  obtain ⟨tree, htree, htreeAlike⟩ := textParses_ok (textParses_of_composes hwhole) hparse
  have hplainText : type.parameterText = type.text ∧ type.escapes = false := by
    cases type with
    | callable shown bounds escapes => contradiction
    | _ => exact ⟨rfl, rfl⟩
  have hfoundText : found.text = Tokens.text parsed.tokens ∧ found.parameterText = found.text ∧
      found.escapes = false := by
    obtain rfl | ⟨bounds, rfl, -⟩ := ofType?_cases hfound
    · exact ⟨rfl, rfl, rfl⟩
    · rw [hboxed]
      exact ⟨rfl, rfl, rfl⟩
  have htext : ReadAlike type.text found.text := by
    intro parsed' hparsed'
    rw [hparse] at hparsed'
    cases hparsed'
    rw [hfoundText.1]
    exact ⟨again, hread, halike.1⟩
  refine ⟨?_, by rw [hfoundText.2.2, hplainText.2], htext, ?_, ?_⟩
  · rw [resolve_outline_of_parse hwhole hreads hparse, ofType?_outline hfound hboxed hback]
  · rw [hplainText.1, hfoundText.2.1]
    exact htext
  · -- Both optional types are parsed as containers of types that are alike.
    intro wrapped hwrapped
    obtain ⟨wrappedTree, hwrappedTree, hwrappedAlike⟩ :=
      textParses_ok (textParses_of_composes hcomposes) hwrapped
    have hfirst : wrappedTree = Ty.applied false [] "Option" [tree] := by
      simpa [tree?, htree] using hwrappedTree.symm
    have hsecond : (optional (named (Tokens.text parsed.tokens))).tree? =
        some (Ty.applied false [] "Option" [again]) := by
      simp [tree?, hread, Except.toOption]
    obtain ⟨other, hother, hotherAlike⟩ :=
      textParses_some (textParses_of_composes hagain) hsecond
    refine ⟨other, by rw [hfoundText.1]; exact hother, ?_⟩
    calc plainAll other.tokens
        = plainAll (Ty.applied false [] "Option" [again]).tokens := hotherAlike.1
      _ = plainAll (Ty.applied false [] "Option" [parsed]).tokens := optional_tokens halike
      _ = plainAll (Ty.applied false [] "Option" [tree]).tokens := optional_tokens htreeAlike
      _ = plainAll wrapped.tokens := by rw [hwrappedAlike.1, hfirst]

end Descriptor

end Fieldwise
