import Fieldwise.Proofs.KeptDeclaration
import Fieldwise.Proofs.TypeArguments
import Fieldwise.Proofs.Typing

/-!
# What becomes of placeholders

A field may leave its type open. The analysis takes a type for the placeholder if it is one in any number of invisible
groups, and gives the member the type that its initial value determines. The field that is written out gets this type
only if its placeholder stands by itself. What it gets is read from the text of the type, which begins with a word or a
colon, so it is no placeholder again; the exception is a cast, whose type is tested for a placeholder that stands by
itself too.
-/

namespace Fieldwise

open Grammar Grammar.Parser Token Descriptor

/-- Whether a type is the placeholder, in parentheses or invisible groups or by itself. -/
def Grammar.Ty.isBlank : Ty → Bool
  | .infer => true
  | .paren inner => inner.isBlank
  | .group inner => inner.isBlank
  | _ => false

/-- The analysis looks for the placeholder in invisible groups. -/
theorem Descriptor.isBlank_of_ofType? {type : Ty} (h : ofType? type = none) : type.isBlank = true := by
  fun_induction ofType? type with
  | case1 => rfl
  | case2 inner ih => exact ih h
  | _ => contradiction

namespace Grammar

/-- A parser whose types are never the placeholder. -/
abbrev Visible (p : Parser Ty) : Prop := Yields p fun type => type.isBlank = false

section Visible

variable (rules : Rules)

theorem pathType_visible (quantified : Option Binder) (allowPlus : Bool) :
    Visible (pathType rules quantified allowPlus) := by
  have hpath : ∀ found : QPath, found.type.isBlank = false := by
    rintro ⟨_ | _, _, _⟩ <;> rfl
  refine .bind fun found => .ite (.pure (hpath found)) (.bind fun called => ?_)
  split
  · exact .bind fun _ => .bind fun _ => .pure rfl
  · exact .bind fun plus => .ite (.ite (.bind fun _ => .bind fun _ => .pure rfl) (.bind fun _ => .pure rfl))
      (.pure (hpath found))

theorem functionType_visible (quantified : Option Binder) : Visible (functionType rules quantified) :=
  .bind fun _ => .bind fun _ => .bind fun _ => .bind fun _ => .bind fun _ => .bind fun _ => .pure rfl

theorem dynType_visible (allowPlus : Bool) : Visible (dynType rules allowPlus) :=
  .bind fun _ => .bind fun _ => .bind fun _ => .bind fun _ => .bind fun _ =>
    .ite (.bind fun _ => .pure rfl) (.pure rfl)

theorem bracketType_visible : Visible (bracketType rules) := by
  have hinside : Visible (do
      let element ← rules.type true
      if ← look (Look.op ";") then
        let _ ← op ";"
        return .array element (← rules.expr true)
      else return .slice element) :=
    .bind fun _ => .bind fun _ => .ite (.bind fun _ => .bind fun _ => .pure rfl) (.pure rfl)
  exact .bind_of (.within hinside) fun found hfound => .pure hfound

theorem implType_visible (allowPlus : Bool) : Visible (implType rules allowPlus) :=
  .bind fun _ => .bind fun _ => .bind fun _ => .ite (.pure rfl) fun _ _ _ h => by contradiction

/-- Whether tokens begin with neither a parenthesis nor the placeholder. -/
def startsVisible (tokens : Tokens) : Bool := !Look.group .paren tokens && !Look.word "_" tokens

theorem startsVisible_of_quantified {tokens : Tokens} (h : typeAfter.startsQuantified tokens = true) :
    startsVisible tokens = true := by
  simp only [startsVisible, Look.group, Look.word]
  simp only [typeAfter.startsQuantified, Look.any, Look.words, List.any_cons, Look.ident, Look.word] at h
  split at h
  case h_1 name pos rest hbare =>
    have hname : name ≠ "_" := by
      rintro rfl
      simp [isKeyword, keywords] at h
    simpa [hbare] using hname
  case h_2 => simp at h

/-- A type is not the placeholder if it begins with neither a parenthesis nor the placeholder. Quantified lifetimes
may be left out of the account: a path or a function comes after them. -/
theorem typeAfter_visible {allowPlus : Bool} {quantified : Option Binder} {s t : Stream} {found : Ty}
    (hstarts : quantified = none → startsVisible s.tokens = true)
    (h : typeAfter rules allowPlus quantified s = .ok (found, t)) : found.isBlank = false := by
  rw [typeAfter, bind_run, look_run, ok_bind, ite_run] at h
  split at h
  case isTrue => contradiction
  case isFalse hquantified =>
    obtain ⟨hparen, hword⟩ : Look.group .paren s.tokens = false ∧ Look.word "_" s.tokens = false := by
      have hvisible : startsVisible s.tokens = true := by
        cases quantified with
        | none => exact hstarts rfl
        | some binder => exact startsVisible_of_quantified (by simpa using hquantified)
      simpa [startsVisible] using hvisible
    obtain ⟨⟨name, test, parser⟩, hmem, htest, hfound⟩ := choose_eq_ok h
    simp only [List.mem_cons, List.not_mem_nil, or_false, Prod.mk.injEq] at hmem
    dsimp only at htest hfound
    obtain ⟨-, rfl, rfl⟩ | ⟨-, rfl, rfl⟩ | ⟨-, -, rfl⟩ | ⟨-, -, rfl⟩ | ⟨-, -, rfl⟩ | ⟨-, -, rfl⟩ | ⟨-, -, rfl⟩ |
      ⟨-, -, rfl⟩ | ⟨-, -, rfl⟩ | ⟨-, -, rfl⟩ | ⟨-, -, rfl⟩ | ⟨-, -, rfl⟩ | ⟨-, -, rfl⟩ | ⟨-, -, rfl⟩ |
      ⟨-, rfl, rfl⟩ | ⟨-, -, rfl⟩ := hmem
    · contradiction
    · rw [hparen] at htest
      contradiction
    · exact functionType_visible rules quantified _ _ _ hfound
    · exact functionType_visible rules quantified _ _ _ hfound
    · exact functionType_visible rules quantified _ _ _ hfound
    · exact pathType_visible rules quantified allowPlus _ _ _ hfound
    · exact pathType_visible rules quantified allowPlus _ _ _ hfound
    · exact pathType_visible rules quantified allowPlus _ _ _ hfound
    · exact dynType_visible rules allowPlus _ _ _ hfound
    · exact bracketType_visible rules _ _ _ hfound
    · exact (.bind fun _ => .bind fun _ => .bind fun _ => .pure rfl : Visible (pointerType rules)) _ _ _ hfound
    · exact (.bind fun _ => .bind fun _ => .bind fun _ => .bind fun _ => .pure rfl :
        Visible (referenceType rules)) _ _ _ hfound
    · exact (.bind fun _ => .pure rfl : Visible (op "!" >>= fun _ => pure .never)) _ _ _ hfound
    · exact implType_visible rules allowPlus _ _ _ hfound
    · rw [hword] at htest
      contradiction
    · exact (.bind fun _ => .bind fun _ => .bind fun _ => .pure rfl : Visible (traitObject rules)) _ _ _ hfound

end Visible

theorem parseType_visible {tokens : Tokens} {found : Ty} (hovert : overtAll tokens = true)
    (hstarts : startsVisible tokens = true) (h : parseType tokens = .ok found) : found.isBlank = false := by
  obtain ⟨after, hfound, -⟩ := parseAll_run h
  have htype : (Rules.forTokens tokens).type true = Grammar.type (.level (4 * sizeAll tokens + 7)) true := rfl
  rw [htype, Grammar.type, bind_run, look_run, ok_bind, look_invisible_of_overt hovert, if_neg Bool.false_ne_true] at hfound
  obtain ⟨quantified, m, hbinder, hafter⟩ := bind_eq_ok.mp hfound
  refine typeAfter_visible _ ?_ hafter
  rintro rfl
  obtain ⟨isFor, m', hlook, hbinder⟩ := bind_eq_ok.mp hbinder
  obtain ⟨-, rfl⟩ := look_eq_ok.mp hlook
  cases isFor with
  | true =>
    have hsome : Yields (some <$> binder (.level (4 * sizeAll tokens + 7))) fun found => found ≠ none :=
      Yields.bind (f := fun found => pure (some found)) fun found => .pure (Option.some_ne_none found)
    exact absurd rfl (hsome _ _ _ hbinder)
  | false =>
    obtain ⟨-, rfl⟩ := pure_eq_ok.mp hbinder
    exact hstarts

end Grammar

/-! ## Texts of inferred types -/

/-- A text that begins with a mark that stands clear is read as tokens that begin with it. -/
theorem Tokens.read_opens {source : String} {tokens : Tokens} {mark : Mark} {rest : List Char}
    (hsource : source.toList = mark.text ++ rest) (hlegible : mark.Legible) (hclear : mark.clear rest = true)
    (hread : Tokens.read source = .ok tokens) : ∃ more, marksAll tokens = mark :: more := by
  obtain ⟨⟨c, more, htext, -, hmark⟩, -⟩ := hlegible.solid
  rw [Lexer.read_of_head_ne (by simpa [hsource, htext] using hmark), hsource] at hread
  obtain ⟨x, hpiece, hshows⟩ := (Lexer.taken_iff_clear hlegible .callSite rest).mpr hclear
  rw [(Lexer.tokensFrom_marks hread).2, Lexer.lexemes_of_piece (by simp [htext]) hpiece, Lexer.marksOf_append,
    hshows.marks_eq]
  exact ⟨_, rfl⟩

/-- Whether a text begins with a word that is not the placeholder, or with a colon. -/
def OpensVisible (source : String) : Prop :=
  ∃ (mark : Mark) (rest : List Char), source.toList = mark.text ++ rest ∧ mark.Legible ∧ mark.clear rest = true ∧
    ((∃ name, mark = .ident name ∧ name ≠ "_") ∨ mark = .punct ':')

theorem OpensVisible.word {name : String} (h : Text.isIdentifier name.toList = true) (hname : name ≠ "_") :
    OpensVisible name :=
  ⟨.ident name, [], by simp [Mark.text], .inl h, by simp [Mark.clear, Mark.opensQuote], .inl ⟨name, rfl, hname⟩⟩

/-- What a text begins with does not change when more is added to it. -/
theorem OpensVisible.append {front : String} {mark : Mark} {c : Char} {more : List Char}
    (hfront : front.toList = mark.text ++ c :: more) (hlegible : mark.Legible)
    (hclear : ∀ rest, mark.clear (c :: rest) = true)
    (hmark : (∃ name, mark = .ident name ∧ name ≠ "_") ∨ mark = .punct ':') (rest : String) :
    OpensVisible (front ++ rest) := by
  refine ⟨mark, c :: (more ++ rest.toList), ?_, hlegible, hclear _, hmark⟩
  rw [String.toList_append, hfront, List.append_assoc, List.cons_append]

/-- A container is written with its name first. -/
theorem OpensVisible.applied (name : String) {front : String} (h : Text.isIdentifier name.toList = true) (hname : name ≠ "_")
    (hfront : front.toList = name.toList ++ ['<']) (rest : String) : OpensVisible (front ++ rest) := by
  have hangle : Text.isIdentContinue '<' = false := by decide +kernel
  have hlegible : (Mark.ident name).Legible := .inl h
  refine .append hfront hlegible (fun rest => ?_) (.inl ⟨name, rfl, hname⟩) rest
  simp [Mark.clear, Mark.opensQuote, hangle]

theorem OpensVisible.array (element : Descriptor) : OpensVisible (Descriptor.array element).text := by
  have htext : (Descriptor.array element).text = "Vec<" ++ element.text ++ ">" := rfl
  rw [htext, String.append_assoc]
  exact .applied "Vec" (by decide +kernel) (by decide) rfl _

theorem OpensVisible.optional (inner : Descriptor) : OpensVisible (Descriptor.optional inner).text := by
  have htext : (Descriptor.optional inner).text = "Option<" ++ inner.text ++ ">" := rfl
  rw [htext, String.append_assoc]
  exact .applied "Option" (by decide +kernel) (by decide) rfl _

theorem OpensVisible.map (key value : Descriptor) : OpensVisible (Descriptor.map key value).text := by
  have hfront : "::std::collections::HashMap<".toList =
      (Mark.punct ':').text ++ ':' :: "std::collections::HashMap<".toList := rfl
  have hlegible : (Mark.punct ':').Legible := show ':' ∈ Lexer.punctuation by decide
  have htext : (Descriptor.map key value).text =
      "::std::collections::HashMap<" ++ key.text ++ ", " ++ value.text ++ ">" := rfl
  rw [htext, String.append_assoc, String.append_assoc, String.append_assoc]
  exact .append hfront hlegible (fun rest => rfl) (.inr rfl) _

/-- What is read from such a text is not the placeholder. -/
theorem OpensVisible.isBlank_eq_false {source : String} {found : Ty} (h : OpensVisible source)
    (hparse : parseText parseType source = .ok found) : found.isBlank = false := by
  obtain ⟨mark, rest, hsource, hlegible, hclear, hmark⟩ := h
  unfold parseText at hparse
  split at hparse
  case h_2 => contradiction
  case h_1 tokens hread =>
    have hovert := Tokens.read_overt hread
    refine parseType_visible hovert ?_ hparse
    obtain ⟨more, hmarks⟩ := Tokens.read_opens hsource hlegible hclear hread
    simp only [startsVisible, Look.group, Look.word, bare_overt hovert]
    obtain ⟨name, rfl, hname⟩ | rfl := hmark <;>
      rcases tokens with _ | ⟨_ | _ | _ | ⟨_ | _ | _ | _, _, _, _⟩, tokens⟩ <;>
      simp_all [marksAll, marks, overtAll, overt]

/-- The text of an inferred type begins with a word or a colon, unless the value is cast to the type. -/
theorem Value.infer_opensVisible {value : Value} {type : Descriptor} (h : value.infer = some type) :
    OpensVisible type.text ∨
      ∃ operand target, value = .cast operand target false ∧ type = .named (Tokens.text target.tokens) := by
  have hnumber (literal : String) {plain : String} (hplain : Text.isIdentifier plain.toList = true)
      (hne : plain ≠ "_") : OpensVisible (numberType literal (.named plain)).text := by
    unfold numberType
    split
    · exact .word hplain hne
    case isFalse hsuffix =>
      obtain ⟨hword, hlow⟩ := (suffix_word literal).resolve_left (by simpa using hsuffix)
      refine .word hword fun hblank : suffix literal = "_" => hlow ?_
      rw [hblank]
      rfl
  cases value with
  | bool value =>
    cases h
    exact .inl (.word (by decide +kernel) (by decide))
  | text literal pos =>
    cases h
    exact .inl (.word (by decide +kernel) (by decide))
  | char literal =>
    cases h
    exact .inl (.word (by decide +kernel) (by decide))
  | whole negative literal =>
    cases h
    exact .inl (hnumber literal (by decide +kernel) (by decide))
  | fraction negative literal =>
    cases h
    exact .inl (hnumber literal (by decide +kernel) (by decide))
  | absent => contradiction
  | array elements =>
    obtain ⟨element, -, rfl⟩ := Option.map_eq_some_iff.mp h
    exact .inl (.array _)
  | map entries =>
    obtain ⟨entry, -, rfl⟩ := Option.map_eq_some_iff.mp h
    exact .inl (.map _ _)
  | cast operand target conditional =>
    have hcast : some (if conditional then .optionally (.named (Tokens.text target.tokens))
        else .named (Tokens.text target.tokens)) = some type := by
      simp only [infer, castType?] at h
      split at h
      · contradiction
      · exact h
    cases conditional with
    | false =>
      cases hcast
      exact .inr ⟨operand, target, rfl, rfl⟩
    | true =>
      cases hcast
      exact .inl (.optional _)
  | other tokens => contradiction

/-! ## What is left of a placeholder -/

/-- Whether a text is read as the placeholder, in parentheses or by itself. -/
def ReadsBlank (source : String) : Prop := ∃ type, parseText parseType source = .ok type ∧ type.isBlank = true

/-- What becomes of a stored field whose type was taken for the placeholder. -/
structure Grammar.Field.GivesWay (field : Field) (entry : Classified) (left : Field) : Prop where
  /-- The type of the member is the one that its initial value determines. -/
  inferred : entry.member.options.initial.bind Value.infer = some entry.role.type
  /-- A placeholder that stands by itself gives way to the type of the member. -/
  placed : field.type = .infer → parseText parseType entry.role.type.text = .ok left.type
  /-- One in an invisible group stays. -/
  kept : field.type ≠ .infer → left.type = field.type
  /-- What is left is a placeholder if it was one in a group, or if the initial value is cast to a type whose text is
  read as one, and in no other case. -/
  blank : left.type.isBlank = true ↔ field.type ≠ .infer ∨ ∃ operand type,
    entry.member.options.initial = some (.cast operand type false) ∧ ReadsBlank (Tokens.text type.tokens)

theorem Made.givesWay {directives : Directives} {index : Nat} {name : Ident} {field left : Field} {entry : Classified}
    {placement : Placement} (h : Made directives index name field entry placement)
    (hleaves : field.Leaves entry.role left) (hplaceholder : ofType? field.type = none) :
    field.GivesWay entry left := by
  obtain ⟨options, -, hmember⟩ := Member.ofField_eq_ok h.declared
  have hexplicit : entry.member.explicit = none := by rw [hmember, hplaceholder]
  obtain ⟨make, inferred, hinferred, hrole, htype, -⟩ := Member.role_of_placeholder hexplicit h.given
  have hsame : entry.role.type = inferred := by rw [hrole, htype]
  suffices hblank : left.type.isBlank = true ↔ field.type ≠ .infer ∨ ∃ operand type,
      entry.member.options.initial = some (.cast operand type false) ∧ ReadsBlank (Tokens.text type.tokens) from
    ⟨hsame ▸ hinferred, hleaves.placed, hleaves.written, hblank⟩
  by_cases hinfer : field.type = .infer
  case neg => simp [hleaves.written hinfer, hinfer, isBlank_of_ofType? hplaceholder]
  case pos =>
    have hplaced := hleaves.placed hinfer
    obtain ⟨value, hvalue, hvalueType⟩ := Option.bind_eq_some_iff.mp hinferred
    simp only [hinfer, ne_eq, not_true_eq_false, false_or]
    rw [hsame] at hplaced
    constructor
    · intro hblank
      obtain hopens | ⟨operand, type, rfl, rfl⟩ := Value.infer_opensVisible hvalueType
      · have := hopens.isBlank_eq_false hplaced
        simp_all
      · exact ⟨operand, type, hvalue, _, hplaced, hblank⟩
    · rintro ⟨operand, type, hcast, found, hfound, hblank⟩
      obtain rfl : value = .cast operand type false := Option.some.inj (hvalue.symm.trans hcast)
      obtain rfl : inferred = .named (Tokens.text type.tokens) := by
        simp only [Value.infer, Value.castType?] at hvalueType
        split at hvalueType
        · contradiction
        · exact (Option.some.inj hvalueType).symm
      obtain rfl : found = left.type := Except.ok.inj (hfound.symm.trans hplaced)
      exact hblank

theorem MadeAll.made_of_mem {directives : Directives} {index : Nat} {fields : List Field} {entries : List Classified}
    {placements : List Placement} (h : MadeAll directives index fields entries placements)
    {pair : Field × Classified} (hpair : pair ∈ fields.zip entries) :
    ∃ index name placement, Made directives index name pair.1 pair.2 placement := by
  induction h with
  | nil index => simp at hpair
  | cons hname hfirst hrest ih =>
    rw [List.zip_cons_cons, List.mem_cons] at hpair
    obtain rfl | hpair := hpair
    · exact ⟨_, _, _, hfirst⟩
    · exact ih hpair

/-- Every stored field whose type was taken for the placeholder belongs to a member with the type that its initial value
determines. The field gets this type if its placeholder stands by itself, and this is a placeholder again only after a
cast to one. -/
theorem placeholder_gives_way {decl : Struct} {directives : Directives} {host : Host} {members : List Classified}
    {expansion : Expansion} (hnamed : ∀ field ∈ decl.namedFields, ∃ name, field.ident = some name)
    (hhost : Host.ofStruct decl = .ok host) (hroles : classify directives host.members = .ok members)
    (hbuilt : Expansion.ofAnalysis ⟨directives, host, members⟩ = .ok expansion) :
    List.Forall₂ (fun pair left => ofType? pair.1.type = none → pair.1.GivesWay pair.2 left)
      ((decl.namedFields.zip members).filter fun pair => pair.2.role.isStored) expansion.decl.namedFields := by
  obtain ⟨placements, hplacements, hbuilt⟩ := bind_eq_ok.mp hbuilt
  obtain ⟨constructor, hconstructor, hbuilt⟩ := bind_eq_ok.mp hbuilt
  obtain ⟨parts, hparts, hdone⟩ := bind_eq_ok.mp hconstructor
  cases hdone
  cases hbuilt
  obtain ⟨hmembers, hstripped, hwith⟩ := Host.ofStruct_eq_ok hhost
  dsimp only at hplacements ⊢
  rw [hstripped] at hplacements
  have hmade := MadeAll.of_ok hnamed hmembers hroles hplacements
  have hleaves := hmade.leaves (Constructor.exists_part_of_mem hparts)
  have hfields : (decl.withFields (placements.filterMap Placement.stored?)).namedFields =
      placements.filterMap Placement.stored? := by
    refine withFields_namedFields fun hempty => ?_
    rw [hempty] at hmade
    cases hmade
    rfl
  rw [hwith, hfields]
  have hall : ∀ pair ∈ (decl.namedFields.zip members).filter fun pair => pair.2.role.isStored,
      ∃ index name placement, Made directives index name pair.1 pair.2 placement :=
    fun pair hpair => hmade.made_of_mem (List.mem_filter.mp hpair).1
  refine List.Forall₂.imp ?_ ((List.forall₂_and_left _ _).mpr ⟨hall, hleaves⟩)
  rintro pair left ⟨⟨index, name, placement, hmade⟩, hleft⟩ hplaceholder
  exact hmade.givesWay hleft hplaceholder

/-- A field with an initial value. -/
def valuedField (name : String) (type : Ty) (value : Tokens) : Field :=
  ⟨[memberAttribute (term "init" ++ sign "=" ++ value)], .inherited, some ⟨name, .callSite⟩, type⟩

/-- Three placeholders: by itself, in an invisible group, and by itself before a cast to one in parentheses. -/
def blankFields : List Field :=
  [valuedField "open" .infer (term "true"), valuedField "made" (.group .infer) (term "true"),
    valuedField "cast" .infer (term "f" ++ term "as" ++ wrap .paren (term "_"))]

/-- The first placeholder gives way, and the two others are left. -/
theorem blankFields_left :
    ∃ host members expansion, Host.ofStruct (tallyDecl blankFields) = .ok host ∧
      classify .initial host.members = .ok members ∧
      Expansion.ofAnalysis ⟨.initial, host, members⟩ = .ok expansion ∧
      expansion.decl.namedFields.map (fun field => field.type.isBlank) = [false, true, true] ∧
      List.Forall₂ (fun pair left => ofType? pair.1.type = none → pair.1.GivesWay pair.2 left)
        ((blankFields.zip members).filter fun pair => pair.2.role.isStored) expansion.decl.namedFields := by
  have hbuilt : (do
      let host ← Host.ofStruct (tallyDecl blankFields)
      let members ← classify .initial host.members
      Expansion.ofAnalysis ⟨.initial, host, members⟩).toOption.any (fun expansion : Expansion =>
        expansion.decl.namedFields.map (fun field : Field => field.type.isBlank) = [false, true, true]) = true := by
    decide +kernel
  obtain ⟨expansion, hexpansion, hblank⟩ := exists_ok_of_any hbuilt
  obtain ⟨host, hhost, hexpansion⟩ := bind_eq_ok.mp hexpansion
  obtain ⟨members, hmembers, hexpansion⟩ := bind_eq_ok.mp hexpansion
  have hnamed : ∀ field ∈ (tallyDecl blankFields).namedFields, ∃ name, field.ident = some name := by
    simp [tallyDecl, Struct.namedFields, blankFields, valuedField]
  exact ⟨host, members, expansion, hhost, hmembers, hexpansion, of_decide_eq_true hblank,
    placeholder_gives_way hnamed hhost hmembers hexpansion⟩

end Fieldwise
