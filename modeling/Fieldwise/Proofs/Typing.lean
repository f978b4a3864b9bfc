import Fieldwise.Proofs.Shapes

/-!
# Values become expressions of their type

What a value can be used for is stated on descriptors whose names are resolved: a literal fits the type of
its kind, an absent value fits every optional type, and containers fit element by element. An expression is a
small syntax of its own with evident typing rules. A value that fits a type is written as an expression that
has this type and stands for the value; and the type that a uniform value determines on its own is one that
it fits.
-/

namespace Fieldwise

open Fieldwise.Text

/-! ## Fitting -/

namespace Value

/-- The types of whole numbers. -/
def wholeTypes : List String :=
  ["i8", "i16", "i32", "i64", "i128", "isize", "u8", "u16", "u32", "u64", "u128", "usize"]

/-- The types of fractions. -/
def fractionTypes : List String := ["f32", "f64"]

/-- The types that a number may have: its suffix, or any of its kind without one. -/
def numberTypes (literal : String) (kind : List String) : List String :=
  if suffix literal = "" then kind else [suffix literal]

/-- A value of literals, lists and maps can be used where a type is expected whose names are resolved. -/
inductive Fits : Value → Descriptor → Prop
  | bool (value : Bool) : Fits (.bool value) .bool
  | char (literal : String) : Fits (.char literal) .char
  | text (literal : String) (pos : Pos) : Fits (.text literal pos) .string
  | whole {literal name : String} (negative : Bool) (h : name ∈ numberTypes literal wholeTypes) :
    Fits (.whole negative literal) (.named name)
  | fraction {literal name : String} (negative : Bool)
    (h : name ∈ numberTypes literal fractionTypes) :
    Fits (.fraction negative literal) (.named name)
  | absent (inner : Descriptor) : Fits .absent (.optional inner)
  | present {value : Value} {inner : Descriptor} (hpresent : value.isAbsent = false)
    (h : Fits value inner) : Fits value (.optional inner)
  | array {elements : List Value} {element : Descriptor}
    (h : ∀ value ∈ elements, Fits value element) : Fits (.array elements) (.array element)
  | map {entries : List (Value × Value)} {key value : Descriptor}
    (hkeys : ∀ entry ∈ entries, Fits entry.1 key)
    (hvalues : ∀ entry ∈ entries, Fits entry.2 value) : Fits (.map entries) (.map key value)

/-- In all lists and maps of a value without casts, the elements that are present determine one type, and so
do the keys, of which none is absent, and the values that are present. -/
inductive Uniform : Value → Prop
  | bool (value : Bool) : Uniform (.bool value)
  | char (literal : String) : Uniform (.char literal)
  | text (literal : String) (pos : Pos) : Uniform (.text literal pos)
  | whole (negative : Bool) (literal : String) : Uniform (.whole negative literal)
  | fraction (negative : Bool) (literal : String) : Uniform (.fraction negative literal)
  | absent : Uniform .absent
  | array {elements : List Value} (type : Descriptor)
    (htype : ∀ value ∈ elements, value.isAbsent = false → value.infer = some type)
    (h : ∀ value ∈ elements, Uniform value) : Uniform (.array elements)
  | map {entries : List (Value × Value)} (key value : Descriptor)
    (hkey : ∀ entry ∈ entries, entry.1.isAbsent = false ∧ entry.1.infer = some key)
    (hvalue : ∀ entry ∈ entries, entry.2.isAbsent = false → entry.2.infer = some value)
    (hkeys : ∀ entry ∈ entries, Uniform entry.1)
    (hvalues : ∀ entry ∈ entries, Uniform entry.2) : Uniform (.map entries)

end Value

/-! ## Expressions -/

/-- The expressions that values are written as. -/
inductive Code where
  /-- The absent value. -/
  | none
  /-- A present value of an optional type. -/
  | some (inner : Code)
  /-- A literal as it was written. -/
  | literal (value : Value)
  /-- A text literal converted to an owned text. -/
  | owned (value : Value)
  /-- A vector of elements. -/
  | vec (elements : List Code)
  /-- A map collected from pairs. -/
  | collect (entries : List (Code × Code))

namespace Code

mutual

/-- An expression as source text. -/
def text : Code → String
  | none => "None"
  | some inner => "Some(" ++ inner.text ++ ")"
  | literal value => value.source
  | owned value => "::std::string::String::from(" ++ value.source ++ ")"
  | vec elements => "vec![" ++ String.intercalate ", " (textAll elements) ++ "]"
  | collect entries =>
    "::std::iter::FromIterator::from_iter([" ++ String.intercalate ", " (textEntries entries) ++ "])"

/-- Each of several expressions as source text. -/
def textAll : List Code → List String
  | [] => []
  | code :: rest => code.text :: textAll rest

/-- Each of several pairs as source text. -/
def textEntries : List (Code × Code) → List String
  | [] => []
  | (key, value) :: rest => ("(" ++ key.text ++ ", " ++ value.text ++ ")") :: textEntries rest

end

mutual

/-- The value that an expression stands for, without the wrapping that its type needs. -/
def value : Code → Value
  | none => .absent
  | some inner => inner.value
  | literal value => value
  | owned value => value
  | vec elements => .array (valueAll elements)
  | collect entries => .map (valueEntries entries)

/-- The values that several expressions stand for. -/
def valueAll : List Code → List Value
  | [] => []
  | code :: rest => code.value :: valueAll rest

/-- The entries that several pairs stand for. -/
def valueEntries : List (Code × Code) → List (Value × Value)
  | [] => []
  | (key, value) :: rest => (key.value, value.value) :: valueEntries rest

end

/-- The type of an expression. -/
inductive HasType : Code → Descriptor → Prop
  | none (inner : Descriptor) : HasType .none (.optional inner)
  | some {code : Code} {inner : Descriptor} (h : HasType code inner) :
    HasType (.some code) (.optional inner)
  | bool (value : Bool) : HasType (.literal (.bool value)) .bool
  | char (shown : String) : HasType (.literal (.char shown)) .char
  | owned (shown : String) (pos : Pos) : HasType (.owned (.text shown pos)) .string
  | whole {shown name : String} (negative : Bool)
    (h : name ∈ Value.numberTypes shown Value.wholeTypes) :
    HasType (.literal (.whole negative shown)) (.named name)
  | fraction {shown name : String} (negative : Bool)
    (h : name ∈ Value.numberTypes shown Value.fractionTypes) :
    HasType (.literal (.fraction negative shown)) (.named name)
  | vec {elements : List Code} {element : Descriptor}
    (h : ∀ code ∈ elements, HasType code element) : HasType (.vec elements) (.array element)
  | collect {entries : List (Code × Code)} {key value : Descriptor}
    (hkeys : ∀ entry ∈ entries, HasType entry.1 key)
    (hvalues : ∀ entry ∈ entries, HasType entry.2 value) :
    HasType (.collect entries) (.map key value)

end Code

/-- The text is an expression of the type that stands for the value. -/
def Expresses (shown : String) (value : Value) (type : Descriptor) : Prop :=
  ∃ code : Code, code.text = shown ∧ code.value = value ∧ code.HasType type

namespace Value

/-! ## Writing values that fit -/

/-- A cast fits no type: its own type is beyond what is stated here. -/
theorem not_fits_cast {value : Value} {type : Grammar.Ty} {conditional : Bool}
    {target : Descriptor} : ¬Fits (.cast value type conditional) target := by
  intro h
  generalize hcast : Value.cast value type conditional = whole at h
  induction h with
  | present hpresent h ih => exact ih hcast
  | _ => contradiction

/-- A present value of an optional type is written as one of the inner type and wrapped. -/
theorem fit_optional {value : Value} {inner : Descriptor} (hfits : value.Fits inner)
    (h : value.isAbsent = false) :
    fit (some (.optional inner)) value = "Some(" ++ fit (some inner) value ++ ")" := by
  cases value with
  | absent => contradiction
  | cast value type conditional => exact absurd hfits not_fits_cast
  | _ => rfl

theorem fit_string (literal : String) (pos : Pos) :
    fit (some .string) (.text literal pos) =
      "::std::string::String::from(" ++ (Value.text literal pos).source ++ ")" := by
  have hcore : coreOf (some Descriptor.string) = some .string := rfl
  have hlayers : layersOf (some Descriptor.string) = 0 := rfl
  rw [fit, hlayers, if_pos hcore, present]

/-- Expressions for the elements of a list make up a list of expressions. -/
theorem exists_codes {target element : Descriptor} {values : List Value}
    (h : ∀ value ∈ values, Expresses (fit (some target) value) value element) :
    ∃ codes : List Code, Code.textAll codes = fitAll (some target) values ∧
      Code.valueAll codes = values ∧ ∀ code ∈ codes, code.HasType element := by
  induction values with
  | nil => exact ⟨[], rfl, rfl, by simp⟩
  | cons value rest ih =>
    obtain ⟨hvalue, hrest⟩ := List.forall_mem_cons.mp h
    obtain ⟨code, htext, hstands, htype⟩ := hvalue
    obtain ⟨codes, htexts, hstand, htypes⟩ := ih hrest
    refine ⟨code :: codes, ?_, ?_, List.forall_mem_cons.mpr ⟨htype, htypes⟩⟩
    · rw [Code.textAll, fitAll, htext, htexts]
    · rw [Code.valueAll, hstands, hstand]

/-- Expressions for the entries of a map make up a list of pairs. -/
theorem exists_pairs {key value : Descriptor} {entries : List (Value × Value)}
    (hkeys : ∀ entry ∈ entries, Expresses (fit (some key) entry.1) entry.1 key)
    (hvalues : ∀ entry ∈ entries, Expresses (fit (some value) entry.2) entry.2 value) :
    ∃ pairs : List (Code × Code),
      Code.textEntries pairs = fitEntries (some key) (some value) entries ∧
      Code.valueEntries pairs = entries ∧
      (∀ pair ∈ pairs, pair.1.HasType key) ∧ ∀ pair ∈ pairs, pair.2.HasType value := by
  induction entries with
  | nil => exact ⟨[], rfl, rfl, by simp, by simp⟩
  | cons entry rest ih =>
    obtain ⟨hkey, hkeys⟩ := List.forall_mem_cons.mp hkeys
    obtain ⟨hvalue, hvalues⟩ := List.forall_mem_cons.mp hvalues
    obtain ⟨k, hktext, hkstands, hktype⟩ := hkey
    obtain ⟨v, hvtext, hvstands, hvtype⟩ := hvalue
    obtain ⟨pairs, htexts, hstand, hktypes, hvtypes⟩ := ih hkeys hvalues
    refine ⟨(k, v) :: pairs, ?_, ?_, List.forall_mem_cons.mpr ⟨hktype, hktypes⟩,
      List.forall_mem_cons.mpr ⟨hvtype, hvtypes⟩⟩
    · rw [Code.textEntries, fitEntries, hktext, hvtext, htexts]
    · rw [Code.valueEntries, hkstands, hvstands, hstand]

/-- A value that fits a resolved type is written as an expression of this type. -/
theorem Fits.expresses {value : Value} {type : Descriptor} (h : value.Fits type) :
    Expresses (fit (some type) value) value type := by
  induction h with
  | bool value => exact ⟨.literal (.bool value), rfl, rfl, .bool value⟩
  | char literal => exact ⟨.literal (.char literal), rfl, rfl, .char literal⟩
  | text literal pos =>
    exact ⟨.owned (.text literal pos), (fit_string literal pos).symm, rfl, .owned literal pos⟩
  | whole negative h => exact ⟨.literal (.whole negative _), rfl, rfl, .whole negative h⟩
  | fraction negative h => exact ⟨.literal (.fraction negative _), rfl, rfl, .fraction negative h⟩
  | absent inner => exact ⟨.none, rfl, rfl, .none inner⟩
  | present hpresent h ih =>
    obtain ⟨code, htext, hstands, htype⟩ := ih
    refine ⟨.some code, ?_, hstands, .some htype⟩
    have hwrap : (Code.some code).text = "Some(" ++ code.text ++ ")" := rfl
    rw [hwrap, htext, fit_optional h hpresent]
  | array h ih =>
    obtain ⟨codes, htexts, hstand, htypes⟩ := exists_codes ih
    refine ⟨.vec codes, ?_, ?_, .vec htypes⟩
    · have hvec : (Code.vec codes).text =
          "vec![" ++ String.intercalate ", " (Code.textAll codes) ++ "]" := rfl
      rw [hvec, htexts]
      rfl
    · rw [Code.value, hstand]
  | map hkeys hvalues ihkeys ihvalues =>
    obtain ⟨pairs, htexts, hstand, hktypes, hvtypes⟩ := exists_pairs ihkeys ihvalues
    refine ⟨.collect pairs, ?_, ?_, .collect hktypes hvtypes⟩
    · have hcollect : (Code.collect pairs).text = collected (Code.textEntries pairs) := rfl
      rw [hcollect, htexts]
      rfl
    · rw [Code.value, hstand]

/-! ## Types that values determine -/

/-- Whether a suffix is nothing or a word. The low lines before it are passed over like digits. -/
def IsSuffix (word : List Char) : Prop := word = [] ∨ isIdentifier word = true ∧ word.head? ≠ some '_'

theorem asSuffix_word {c : Char} {cs word : List Char} (hc : c ≠ '_')
    (h : Literal.asSuffix (c :: cs) = some word) : IsSuffix word := by
  unfold Literal.asSuffix at h
  split at h
  · rename_i hcs
    cases h
    exact .inr ⟨by simpa using hcs, by simpa using hc⟩
  · contradiction

/-- The suffix of a whole number is a word or nothing. -/
theorem wholeSuffix_word {radix : Nat} {seen : Bool} {cs word : List Char}
    (h : Literal.wholeSuffix radix seen cs = some word) : IsSuffix word := by
  induction cs generalizing seen with
  | nil =>
    rw [Literal.wholeSuffix] at h
    split at h
    · cases h
      exact .inl rfl
    · contradiction
  | cons c rest ih =>
    rw [Literal.wholeSuffix] at h
    split at h
    · split at h
      · contradiction
      · exact ih h
    · split at h
      · exact ih h
      · split at h
        · exact ih h
        · rename_i hlow
          split at h
          · contradiction
          · split at h
            · contradiction
            · split at h
              · exact asSuffix_word (by simpa using hlow) h
              · contradiction

theorem fractionSuffix_word {state : Literal.FractionState} {cs word : List Char}
    (h : Literal.fractionSuffix state cs = some word) : IsSuffix word := by
  have hclose : ∀ {state : Literal.FractionState} {c : Char} {rest : List Char}, ¬(c == '_') = true →
      state.close (c :: rest) = some word → IsSuffix word := by
    intro state c rest hlow hrest
    unfold Literal.FractionState.close at hrest
    split at hrest
    · contradiction
    · exact asSuffix_word (by simpa using hlow) hrest
  induction cs generalizing state with
  | nil =>
    rw [Literal.fractionSuffix, Literal.FractionState.close] at h
    split at h
    · contradiction
    · cases h
      exact .inl rfl
  | cons c rest ih =>
    rw [Literal.fractionSuffix] at h
    split at h
    · exact ih h
    · rename_i hlow
      split at h
      · exact ih h
      · split at h
        · split at h
          · contradiction
          · exact ih h
        · split at h
          · split at h
            · exact hclose hlow h
            · split at h
              · split at h
                · exact hclose hlow h
                · contradiction
              · exact ih h
          · split at h
            · split at h
              · contradiction
              · exact ih h
            · exact hclose hlow h

theorem suffix_word (literal : String) : IsSuffix (suffix literal).toList := by
  have hlist : ∀ word : List Char, IsSuffix word → IsSuffix (String.ofList word).toList := by
    intro word hword
    rwa [String.toList_ofList]
  unfold suffix Literal.numberKind
  cases hwhole : Literal.whole? literal.toList with
  | some word =>
    refine hlist word ?_
    unfold Literal.whole? at hwhole
    dsimp only at hwhole
    split at hwhole
    · contradiction
    · split at hwhole
      · exact wholeSuffix_word hwhole
      · contradiction
  | none =>
    cases hfraction : Literal.fraction? literal.toList with
    | some word =>
      refine hlist word ?_
      unfold Literal.fraction? at hfraction
      dsimp only at hfraction
      split at hfraction
      · contradiction
      · split at hfraction
        · exact fractionSuffix_word hfraction
        · contradiction
    | none => exact .inl rfl

theorem resolve_word {name : String} (h : isIdentifier name.toList = true) :
    (Descriptor.named name).resolve = .named name := Descriptor.shape_word h

/-- The type of a number is among those that it may have, and it resolves to itself. -/
theorem numberType_resolve (literal : String) {plain : String} {kind : List String}
    (hplain : plain ∈ kind) (hword : isIdentifier plain.toList = true) :
    ∃ name ∈ numberTypes literal kind,
      (numberType literal (.named plain)).resolve = .named name := by
  unfold numberTypes numberType
  by_cases hsuffix : suffix literal = ""
  · refine ⟨plain, by simpa [hsuffix] using hplain, ?_⟩
    simpa [hsuffix] using resolve_word hword
  · refine ⟨suffix literal, by simp [hsuffix], ?_⟩
    have hword := (suffix_word literal).resolve_left (by simpa using hsuffix)
    simpa [hsuffix] using resolve_word hword.1

/-- The type that a uniform value determines is not optional, so it becomes optional by one layer. -/
theorem Uniform.optionally_infer {value : Value} {type : Descriptor} (h : value.Uniform)
    (htype : value.infer = some type) : type.optionally = .optional type := by
  have hnumber : ∀ literal plain, (numberType literal (.named plain)).optionally =
      .optional (numberType literal (.named plain)) := by
    intro literal plain
    unfold numberType
    split <;> rfl
  cases h with
  | bool value =>
    cases htype
    rfl
  | char literal =>
    cases htype
    rfl
  | text literal pos =>
    cases htype
    rfl
  | whole negative literal =>
    cases htype
    exact hnumber literal "i32"
  | fraction negative literal =>
    cases htype
    exact hnumber literal "f64"
  | absent => contradiction
  | array element helements h =>
    rw [infer] at htype
    obtain ⟨first, -, rfl⟩ := Option.map_eq_some_iff.mp htype
    rfl
  | map key value hkey hvalue hkeys hvalues =>
    rw [infer] at htype
    obtain ⟨first, -, rfl⟩ := Option.map_eq_some_iff.mp htype
    rfl

/-- The first entry whose value is present gives the types of a map. -/
theorem inferPresent_eq_some {entries : List (Value × Value)} {key value : Descriptor}
    (h : inferPresent entries = some (key, value)) :
    ∃ entry ∈ entries, entry.2.isAbsent = false ∧ entry.1.infer = some key ∧
      entry.2.infer = some value := by
  induction entries with
  | nil => simp [inferPresent] at h
  | cons entry rest ih =>
    obtain ⟨k, v⟩ := entry
    rw [inferPresent] at h
    split at h
    · obtain ⟨found, hmem, hfound⟩ := ih h
      exact ⟨found, List.mem_cons_of_mem _ hmem, hfound⟩
    · rename_i hpresent
      split at h
      · rename_i keyType valueType hkey hvalue
        cases h
        exact ⟨(k, v), List.mem_cons_self, by simpa using hpresent, hkey, hvalue⟩
      · contradiction

theorem isAbsent_of_infer {value : Value} {type : Descriptor} (h : value.infer = some type) :
    value.isAbsent = false := by
  cases value with
  | absent => contradiction
  | _ => rfl

/-- A value fits a type that was made optional because some value next to it is absent. -/
theorem fits_optionalIf {value : Value} {type : Descriptor} {asked : Bool}
    (hasked : value.isAbsent = true → asked = true) (hlayer : type.optionally = .optional type)
    (h : value.isAbsent = false → value.Fits type.resolve) :
    value.Fits (optionalIf asked type).resolve := by
  have hresolve : (Descriptor.optional type).resolve = .optional type.resolve := rfl
  cases habsent : value.isAbsent with
  | true =>
    have hvalue : value = .absent := by
      cases value with
      | absent => rfl
      | _ => contradiction
    rw [hasked habsent, hvalue, optionalIf, if_pos rfl, hlayer, hresolve]
    exact .absent _
  | false =>
    cases asked with
    | true =>
      rw [optionalIf, if_pos rfl, hlayer, hresolve]
      exact .present habsent (h habsent)
    | false => exact h habsent

theorem Uniform.fits {value : Value} (h : value.Uniform) {type : Descriptor}
    (htype : value.infer = some type) : value.Fits type.resolve := by
  induction h generalizing type with
  | bool value =>
    cases htype
    rw [Descriptor.bool, resolve_word (by decide)]
    exact .bool value
  | char literal =>
    cases htype
    rw [Descriptor.char, resolve_word (by decide)]
    exact .char literal
  | text literal pos =>
    cases htype
    rw [Descriptor.string, resolve_word (by decide)]
    exact .text literal pos
  | whole negative literal =>
    cases htype
    obtain ⟨name, hmem, hresolve⟩ :=
      numberType_resolve literal (show "i32" ∈ wholeTypes by decide) (by decide)
    rw [Descriptor.int, hresolve]
    exact .whole negative hmem
  | fraction negative literal =>
    cases htype
    obtain ⟨name, hmem, hresolve⟩ :=
      numberType_resolve literal (show "f64" ∈ fractionTypes by decide) (by decide)
    rw [Descriptor.double, hresolve]
    exact .fraction negative hmem
  | absent => contradiction
  | @array elements element helements h ih =>
    rw [infer] at htype
    obtain ⟨found, hfound, rfl⟩ := Option.map_eq_some_iff.mp htype
    -- The first element is present, so it has the common type.
    obtain ⟨first, hmem, hfirst⟩ : ∃ first ∈ elements, first.infer = some found := by
      cases elements with
      | nil => simp [inferFirst] at hfound
      | cons first rest => exact ⟨first, List.mem_cons_self, hfound⟩
    have hsame := helements first hmem (isAbsent_of_infer hfirst)
    rw [hfirst] at hsame
    cases hsame
    refine .array fun value hvalue => ?_
    refine fits_optionalIf (fun habsent => ?_) ((h first hmem).optionally_infer hfirst)
      fun hpresent => ih value hvalue (helements value hvalue hpresent)
    exact List.any_eq_true.mpr ⟨value, hvalue, habsent⟩
  | @map entries key value hkey hvalue hkeys hvalues ihkeys ihvalues =>
    rw [infer] at htype
    obtain ⟨⟨foundKey, foundValue⟩, hfound, rfl⟩ := Option.map_eq_some_iff.mp htype
    obtain ⟨first, hmem, hpresent, hfirstKey, hfirstValue⟩ := inferPresent_eq_some hfound
    have hsameKey := (hkey first hmem).2
    rw [hfirstKey] at hsameKey
    cases hsameKey
    have hsameValue := hvalue first hmem hpresent
    rw [hfirstValue] at hsameValue
    cases hsameValue
    refine .map (fun entry hentry => ihkeys entry hentry (hkey entry hentry).2)
      fun entry hentry => ?_
    refine fits_optionalIf (fun habsent => ?_)
      ((hvalues first hmem).optionally_infer hfirstValue)
      fun hpresent => ihvalues entry hentry (hvalue entry hentry hpresent)
    exact List.any_eq_true.mpr ⟨entry, hentry, habsent⟩

/-- Values are written as expressions of the type they are written for: a value that fits a type becomes an
expression of this type that stands for the value, and so does a uniform value for the type it determines on
its own, because it fits this type. -/
theorem lower_expresses (value : Value) :
    (∀ type : Descriptor, value.Fits type.resolve →
        Expresses (value.lower (some type)) value type.resolve) ∧
      ∀ type : Descriptor, value.Uniform → value.infer = some type →
        value.Fits type.resolve ∧ Expresses (value.lower (some type)) value type.resolve :=
  ⟨fun _ hfits => hfits.expresses,
    fun _ huniform htype => ⟨huniform.fits htype, (huniform.fits htype).expresses⟩⟩

/-- A list with an absent element. -/
def partlyAbsent : Value := .array [.whole false "1", .absent]

/-- The list is written for a type given by its name, and for the type that it determines. -/
theorem partlyAbsent_expressed :
    Expresses "vec![Some(1), None]" partlyAbsent (Descriptor.named "Vec<Option<u8>>").resolve ∧
      partlyAbsent.infer = some (.array (.optional .int)) ∧
      Expresses "vec![Some(1), None]" partlyAbsent
        (Descriptor.array (.optional .int)).resolve := by
  have hresolve : (Descriptor.named "Vec<Option<u8>>").resolve =
      .array (.optional (.named "u8")) := by
    decide +kernel
  have hfits : partlyAbsent.Fits (Descriptor.named "Vec<Option<u8>>").resolve := by
    rw [hresolve]
    refine .array fun value hvalue => ?_
    rcases List.mem_pair.mp hvalue with rfl | rfl
    · exact .present rfl (.whole false (by decide))
    · exact .absent _
  have huniform : partlyAbsent.Uniform := by
    refine .array .int (fun value hvalue hpresent => ?_) fun value hvalue => ?_
    · rcases List.mem_pair.mp hvalue with rfl | rfl
      · decide
      · contradiction
    · rcases List.mem_pair.mp hvalue with rfl | rfl
      · exact .whole false "1"
      · exact .absent
  have hinfer : partlyAbsent.infer = some (.array (.optional .int)) := by decide
  have hwritten : partlyAbsent.lower (some (.named "Vec<Option<u8>>")) = "vec![Some(1), None]" := by
    decide +kernel
  have hown : partlyAbsent.lower (some (.array (.optional .int))) = "vec![Some(1), None]" := by
    decide +kernel
  refine ⟨?_, hinfer, ?_⟩
  · rw [← hwritten]
    exact (lower_expresses partlyAbsent).1 _ hfits
  · rw [← hown]
    exact ((lower_expresses partlyAbsent).2 _ huniform hinfer).2

end Value

end Fieldwise
