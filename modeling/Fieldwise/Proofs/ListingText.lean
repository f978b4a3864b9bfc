import Fieldwise.Proofs.ConstructorText
import Fieldwise.Scan

/-!
# The listing of a struct

The listing puts the header of the implementation before the text of the constructor and moves each line of that
text in. It is read as the implementation that is compiled, less the members that are lifted into functions, as
long as no line ends inside a token: the spaces of the next line would become part of that token.
-/

namespace Fieldwise

open Grammar Token Lexer

variable {found : Annotated} {decl : Struct}

/-! ## Lines -/

namespace Text

theorem splitLines_row {row : List Char} (hrow : '\n' ∉ row) (line rest : List Char) :
    splitLines line (row ++ '\n' :: rest) = withoutReturn (line ++ row) :: splitLines [] rest := by
  induction row generalizing line with
  | nil => simp [splitLines]
  | cons c row ih =>
    rw [List.mem_cons, not_or] at hrow
    have hc : c ≠ '\n' := fun h => hrow.1 h.symm
    rw [List.cons_append, splitLines, ih hrow.2, List.append_assoc, List.singleton_append]
    exact hc

/-- A row is one line: it holds no line feed and does not end in a carriage return, and it is not empty. -/
def IsRow (row : String) : Prop :=
  '\n' ∉ row.toList ∧ row.toList.getLast? ≠ some '\r' ∧ row ≠ ""

theorem lines_of_rows {rows : List String} (h : ∀ row ∈ rows, IsRow row) {text : String}
    (htext : text.toList = (rows.map String.toList).flatMap (· ++ ['\n'])) : lines text = rows := by
  unfold lines
  rw [htext]
  clear htext
  induction rows with
  | nil => rfl
  | cons row rows ih =>
    obtain ⟨⟨hfeed, hreturn, -⟩, hrest⟩ := List.forall_mem_cons.mp h
    have hsame : withoutReturn ([] ++ row.toList) = row.toList := by
      rw [List.nil_append, withoutReturn, if_neg hreturn]
    have hfirst := splitLines_row hfeed [] ((rows.map String.toList).flatMap (· ++ ['\n']))
    simp only [List.map_cons, List.flatMap_cons, List.append_assoc, List.singleton_append]
    rw [hfirst, hsame, List.map_cons, ih hrest, String.ofList_toList]

/-- Texts without line feeds have none when they are joined. -/
theorem not_mem_intercalate {c : Char} {separator : List Char} (hseparator : c ∉ separator)
    {texts : List (List Char)} (h : ∀ text ∈ texts, c ∉ text) : c ∉ separator.intercalate texts := by
  induction texts with
  | nil => simp
  | cons text rest ih =>
    obtain ⟨htext, hrest⟩ := List.forall_mem_cons.mp h
    cases rest with
    | nil => simpa using htext
    | cons next rest =>
      rw [List.intercalate_cons_cons]
      simp [htext, hseparator, ih hrest]

end Text

open Text

/-! ## The rows of a constructor -/

theorem word_oneLine {name : String} (hname : (Mark.ident name).Legible) : '\n' ∉ name.toList := by
  have hcontinue : isIdentContinue '\n' = false ∧ isIdentStart '\n' = false := by decide
  have hword : ∀ {word : List Char}, isIdentifier word = true → '\n' ∉ word := by
    intro word hword hmem
    cases word with
    | nil => simp at hmem
    | cons c more =>
      rw [isIdentifier, Bool.and_eq_true, List.all_eq_true] at hword
      rcases List.mem_cons.mp hmem with rfl | hmore
      · rw [hcontinue.2] at hword
        exact absurd hword.1 Bool.false_ne_true
      · have hfeed := hword.2 _ hmore
        rw [hcontinue.1] at hfeed
        exact absurd hfeed Bool.false_ne_true
  rcases hname with hname | ⟨word, hname, hidentifier, -⟩
  · exact hword hname
  · rw [hname]
    simp [hword hidentifier]

namespace FieldInit

/-- Whether no text of a field holds a line feed. -/
def oneLine (field : FieldInit) : Bool :=
  field.typeText?.all (fun text => !text.toList.contains '\n') &&
    field.valueText?.all fun text => !text.toList.contains '\n'

variable {field : FieldInit}

theorem assignment_oneLine (hname : (Mark.ident field.ident.name).Legible)
    (h : field.oneLine = true) : '\n' ∉ field.assignment.toList := by
  have hword := word_oneLine hname
  rw [oneLine, Bool.and_eq_true, Option.all_eq_true, Option.all_eq_true] at h
  unfold assignment
  split
  · rename_i shown hshown
    have htext : '\n' ∉ shown.toList := by simpa using h.2 shown hshown
    simp [hword, htext]
  · exact hword

theorem parameter_oneLine {p : Parameter} (hp : field.parameter? = some p)
    (hname : (Mark.ident field.ident.name).Legible) (h : field.oneLine = true) :
    '\n' ∉ p.text.toList := by
  have hident : field.ident = p.ident := by
    cases field with
    | parameter q =>
      cases hp
      rfl
    | value ident shown => simp [parameter?] at hp
  have hword := word_oneLine hname
  rw [hident] at hword
  rw [oneLine, Bool.and_eq_true, Option.all_eq_true, Option.all_eq_true] at h
  have htext : '\n' ∉ p.typeText.toList := by simpa using h.1 p.typeText (by simp [typeText?, hp])
  simp [Parameter.text, hword, htext]

end FieldInit

theorem ownRow_isRow {indent text : String} (hindent : '\n' ∉ indent.toList)
    (htext : '\n' ∉ text.toList) : IsRow (ownRow indent text) := by
  refine ⟨by simp [ownRow, hindent, htext], by simp [ownRow], ?_⟩
  intro hempty
  have hlist := congrArg String.toList hempty
  simp [ownRow] at hlist

namespace Plan

variable {plan : Plan}

/-- The rows up to the opening brace are lines, if the parameters are. -/
theorem headerRows_isRow
    (h : ∀ text ∈ plan.parameters.map Parameter.text, '\n' ∉ text.toList) :
    ∀ row ∈ plan.headerRows, IsRow row := by
  have hkeyword : '\n' ∉ plan.access.keyword.toList := by
    cases plan.access <;> simp [Access.keyword]
  unfold headerRows
  dsimp only
  split
  · rw [List.forall_mem_singleton]
    have hparams : '\n' ∉ (String.intercalate ", " (plan.parameters.map Parameter.text)).toList := by
      rw [String.toList_intercalate]
      exact not_mem_intercalate (by simp) (by simpa using h)
    have hlast : ∀ lead : String, (lead ++ ") -> Self \x7b").toList.getLast? ≠ some '\r' := by
      intro lead
      rw [String.toList_append, List.getLast?_append]
      simp
    refine ⟨by simpa [hkeyword] using hparams, hlast _, fun hempty => ?_⟩
    have hlist := congrArg String.toList hempty
    simp at hlist
  · rw [List.forall_mem_append, List.forall_mem_cons, List.forall_mem_singleton]
    refine ⟨⟨⟨by simp [hkeyword], by simp, fun hempty => ?_⟩, ?_⟩, by simp [IsRow]⟩
    · have hlist := congrArg String.toList hempty
      simp at hlist
    · intro row hrow
      obtain ⟨text, htext, rfl⟩ := List.mem_map.mp hrow
      exact ownRow_isRow (by simp) (h text htext)

/-- The rows with the struct value are lines, if the assignments are. -/
theorem bodyRows_isRow (h : ∀ field ∈ plan.fields, '\n' ∉ field.assignment.toList) :
    ∀ row ∈ plan.bodyRows, IsRow row := by
  unfold bodyRows
  split
  · simp [IsRow]
  · rw [List.forall_mem_append, List.forall_mem_cons, List.forall_mem_singleton]
    refine ⟨⟨by simp [IsRow], ?_⟩, by simp [IsRow]⟩
    intro row hrow
    obtain ⟨field, hfield, rfl⟩ := List.mem_map.mp hrow
    exact ownRow_isRow (by simp) (h field hfield)

theorem rows_isRow (hname : ∀ field ∈ plan.fields, (Mark.ident field.ident.name).Legible)
    (hline : ∀ field ∈ plan.fields, field.oneLine = true) : ∀ row ∈ plan.rows, IsRow row := by
  have hparams : ∀ text ∈ plan.parameters.map Parameter.text, '\n' ∉ text.toList := by
    intro text htext
    obtain ⟨p, hp, rfl⟩ := List.mem_map.mp htext
    obtain ⟨field, hfield, hsome⟩ := List.mem_filterMap.mp hp
    exact FieldInit.parameter_oneLine hsome (hname field hfield) (hline field hfield)
  have hfields : ∀ field ∈ plan.fields, '\n' ∉ field.assignment.toList := fun field hfield =>
    FieldInit.assignment_oneLine (hname field hfield) (hline field hfield)
  unfold rows
  rw [List.forall_mem_append, List.forall_mem_append, List.forall_mem_singleton]
  exact ⟨⟨headerRows_isRow hparams, bodyRows_isRow hfields⟩, by simp [IsRow]⟩

end Plan

/-! ## The header -/

/-- The tokens of an implementation up to its brace. -/
def Grammar.Struct.implTokens (decl : Struct) : Tokens :=
  term "impl" ++ decl.generics.tokens .implemented ++ [decl.ident.token] ++
    decl.generics.tokens .applied ++ decl.generics.whereTokens

namespace Annotated

/-- Whether the header is read as it was written. -/
def headerReads (found : Annotated) : Bool :=
  match Tokens.read (header found.decl) with
  | .ok again => decide (plainAll again = plainAll found.decl.implTokens)
  | .error _ => false

/-- Whether printing the struct and parsing it again keeps the header and the names of the fields. -/
def reparses (found : Annotated) : Bool :=
  match parseItem found.decl.tokens with
  | .ok (.struct again) =>
    decide (plainAll again.implTokens = plainAll found.decl.implTokens) &&
      again.fieldNames == found.decl.fieldNames
  | _ => true

/-- A header that is read as it was written stands for its tokens. -/
theorem header_stands (h : found.headerReads = true) :
    Visible found.decl.implTokens ∧
      Stands (header found.decl).toList (marksAll found.decl.implTokens) := by
  unfold headerReads at h
  split at h
  case h_1 again hread =>
    have hplain := of_decide_eq_true h
    exact ⟨Visible.of_plainAll_eq (Tokens.read_opened hread) hplain.symm,
      Tokens.text_stands hread hplain⟩
  case h_2 => exact absurd h Bool.false_ne_true

theorem ofStruct?_fieldNames (h : ofStruct? decl = some found) : found.decl.fieldNames = decl.fieldNames := by
  obtain ⟨⟨attr, rest⟩, -, rfl⟩ := Option.map_eq_some_iff.mp h
  rfl

mutual

/-- The fields of an annotated struct are fields of the item that it was found in. -/
theorem ofItem_fieldNames {item : Item} {found : Annotated} (h : found ∈ ofItem item) :
    ∀ name ∈ found.decl.fieldNames, name ∈ item.fieldNames := by
  intro name hname
  cases item with
  | struct decl =>
    rw [ofItem, Option.mem_toList] at h
    rw [ofStruct?_fieldNames h] at hname
    exact hname
  | module items tokens =>
    rw [ofItem] at h
    rw [Item.fieldNames]
    exact ofItems_fieldNames h name hname
  | other tokens => simp [ofItem] at h

/-- The fields of an annotated struct are fields of the items that it was found in. -/
theorem ofItems_fieldNames {items : List Item} {found : Annotated} (h : found ∈ ofItems items) :
    ∀ name ∈ found.decl.fieldNames, name ∈ Item.fieldNamesAll items := by
  intro name hname
  cases items with
  | nil => simp [ofItems] at h
  | cons item rest =>
    rw [ofItems, List.mem_append] at h
    rw [Item.fieldNamesAll, List.mem_append]
    rcases h with h | h
    · exact .inl (ofItem_fieldNames h name hname)
    · exact .inr (ofItems_fieldNames h name hname)

end

/-- The fields of the annotated structs of a source text have names that can be written. -/
theorem fieldNames_legible {source : String} {structs : List Annotated} (h : annotatedIn source = .ok structs)
    (hfound : found ∈ structs) : ∀ name ∈ found.decl.fieldNames, (Mark.ident name).Legible := by
  obtain ⟨items, hparse, rfl⟩ := map_eq_ok.mp h
  intro name hname
  unfold parseFile parseText at hparse
  split at hparse
  case h_1 tokens hread =>
    have hmark := parseItems_fieldNames hparse name (ofItems_fieldNames hfound name hname)
    exact Tokens.read_legible hread _ hmark
  case h_2 => contradiction

/-! ## The listing -/

/-- The rows of a listing. -/
def rows (decl : Struct) (plan : Plan) : List String :=
  (header decl ++ " \x7b") :: plan.rows.map ("    " ++ ·) ++ ["\x7d"]

/-- A listing is written row by row, if each row of its constructor is a line. -/
theorem listing_eq_rows {plan : Plan} (h : ∀ row ∈ plan.rows, IsRow row) :
    (listing decl plan).toList = ((rows decl plan).map String.toList).flatMap (· ++ ['\n']) := by
  have hindented : plan.rows.map (indented "    ") = plan.rows.map ("    " ++ · ++ "\n") := by
    refine List.map_congr_left fun row hrow => ?_
    have hempty : row.isEmpty = false := by simpa using (h row hrow).2.2
    rw [indented, hempty]
    rfl
  unfold listing rows
  rw [lines_of_rows h plan.render_eq_rows, hindented]
  simp [List.flatMap_map, Function.comp_def]

/-- The rows of a listing stand for the implementation with the constructor. -/
theorem rows_stand {plan : Plan} {body : Tokens}
    (hheader : Stands (header found.decl).toList (marksAll found.decl.implTokens)) {marks : List (List Mark)}
    (hrows : List.Forall₂ (fun row ms => Stands (String.toList row) ms) plan.rows marks)
    (hmarks : marks.flatten = marksAll body) :
    ∃ all, List.Forall₂ (fun row ms => Stands (String.toList row) ms) (rows found.decl plan) all ∧
      all.flatten = marksAll (found.decl.implTokens ++ wrap .brace body) := by
  have hopen : Stands [' ', '{'] [.opening .brace] := fun rest after _ hrest =>
    Scans.blank rfl (Scans.openBrace hrest)
  have hclose : Stands "\x7d".toList [.closing .brace] := fun rest after _ hrest =>
    Scans.closeBrace hrest
  have hfirst : Stands (header found.decl ++ " \x7b").toList
      (marksAll found.decl.implTokens ++ [.opening .brace]) := by
    rw [String.toList_append]
    exact hheader.append hopen fun rest _ => .cons (by decide) _
  have hinner : List.Forall₂ (fun row ms => Stands (String.toList row) ms)
      (plan.rows.map ("    " ++ ·)) marks := by
    rw [List.forall₂_map_left_iff]
    refine hrows.imp fun row ms hrow => ?_
    rw [String.toList_append]
    exact hrow.indent 4
  refine ⟨_ :: (marks ++ [_]), .cons hfirst (List.rel_append hinner (.cons hclose .nil)), ?_⟩
  rw [List.flatten_cons, List.flatten_append, hmarks]
  simp [marksAll_append, marksAll_wrap]

/-- The struct of an analysis has the header of the declaration that was parsed. -/
theorem implTokens_ofStruct {host : Host} (h : Host.ofStruct decl = .ok host) :
    host.decl.implTokens = decl.implTokens := by
  unfold Host.ofStruct at h
  split at h
  · split at h
    · cases h
      rfl
    · contradiction
  · cases h
    rfl

theorem implTokens_withFields (decl : Struct) (fields : List Field) :
    (decl.withFields fields).implTokens = decl.implTokens := by
  unfold Struct.withFields
  split <;> rfl

end Annotated

/-- The code for a declaration is the struct and an implementation that begins with the constructor. -/
theorem Expansion.tokens_eq (expansion : Expansion) :
    expansion.tokens = expansion.decl.tokens ++ expansion.decl.implTokens ++
      wrap .brace (expansion.constructor.layout false false ++
        expansion.statics.flatMap (Accessor.tokens []) ++
        expansion.getters.flatMap (Accessor.tokens (sign "&" ++ term "self"))) := by
  simp [tokens, Struct.implTokens, Constructor.tokens_eq_layout, List.append_assoc]

/-- The listing of an annotated struct is read as the implementation that is compiled for it, less the functions
of its static and computed members, with a comma after the last field, and after the last parameter if each has
a line of its own. The texts that are put in hold no line end, for the lines after it would be moved in within
a token; and none of them, nor the header, makes a comment with what follows. Parsing and printing the struct
and the texts is taken to keep their tokens. -/
theorem Annotated.listing_read_as_implementation {source : String} {structs : List Annotated}
    {found : Annotated} {listed : Listed} {plan : Plan}
    (hsource : annotatedIn source = .ok structs) (hfound : found ∈ structs)
    (hlisted : found.report.outcome = .ok listed)
    (hplan : Fieldwise.plan found.args found.decl.tokens = .ok plan)
    (hreparsed : found.reparses = true) (hheader : found.headerReads = true)
    (hprinted : ∀ field ∈ plan.fields, field.printsBack = true)
    (hclosed : ∀ field ∈ plan.fields, field.closed = true)
    (hline : ∀ field ∈ plan.fields, field.oneLine = true) :
    ∃ expansion again, expand found.args found.decl.tokens = .ok expansion ∧
      expansion.tokens = expansion.decl.tokens ++ expansion.decl.implTokens ++
        wrap .brace (expansion.constructor.layout false false ++
          expansion.statics.flatMap (Accessor.tokens []) ++
          expansion.getters.flatMap (Accessor.tokens (sign "&" ++ term "self"))) ∧
      Tokens.read listed.listing = .ok again ∧
      plainAll again = plainAll (expansion.decl.implTokens ++ wrap .brace
        (expansion.constructor.layout
          (Plan.lineLimit < expansion.constructor.params.length) true)) := by
  obtain ⟨analysis, hanalysis, h⟩ := bind_eq_ok.mp hlisted
  obtain ⟨expansion, hexpansion, h⟩ := bind_eq_ok.mp h
  cases h
  obtain ⟨same, hsame, rfl⟩ := map_eq_ok.mp hplan
  rw [hanalysis] at hsame
  cases hsame
  have hexpand : expand found.args found.decl.tokens = .ok expansion :=
    bind_eq_ok.mpr ⟨analysis, hanalysis, hexpansion⟩
  obtain ⟨decl, hparse, hhost, -⟩ := analyze_ok hanalysis
  obtain ⟨placements, -, h⟩ := bind_eq_ok.mp hexpansion
  obtain ⟨constructor, hconstructor, h⟩ := bind_eq_ok.mp h
  cases h
  -- The struct is printed and parsed again before it is compiled, the header is not.
  rw [reparses, hparse] at hreparsed
  simp only [Bool.and_eq_true, decide_eq_true_eq, beq_iff_eq] at hreparsed
  obtain ⟨himpl, hfields⟩ := hreparsed
  have hname : ∀ field ∈ analysis.plan.fields, (Mark.ident field.ident.name).Legible := by
    obtain ⟨other, hother, hnames⟩ := plan_names hanalysis
    rw [hparse] at hother
    cases hother
    intro field hfield
    have hmem := hnames field hfield
    rw [hfields] at hmem
    exact fieldNames_legible hsource hfound _ hmem
  obtain ⟨hvisible, marks, hrows, hmarks⟩ := Plan.rows_stand hconstructor hname hprinted hclosed
  obtain ⟨hheaderVisible, hheaderStands⟩ := header_stands hheader
  obtain ⟨all, hall, hallMarks⟩ := rows_stand hheaderStands hrows hmarks
  have hscan := Scans.rows (List.forall₂_map_left_iff.mpr hall)
  rw [← listing_eq_rows (Plan.rows_isRow hname hline), hallMarks] at hscan
  obtain ⟨again, hread, hplain⟩ := hscan.read
  refine ⟨_, again, hexpand, Expansion.tokens_eq _, hread, ?_⟩
  have hwrapped : Visible (wrap .brace _) := hvisible.wrap Delim.noConfusion
  have hboth := hplain.trans (hheaderVisible.append hwrapped)
  rw [implTokens_withFields, implTokens_ofStruct hhost]
  rw [plainAll_append] at hboth ⊢
  rw [himpl]
  exact hboth

/-- A source with an annotated struct in a module: it has parameters of each kind, a bound, a value that is kept
and a computed member. -/
def cartSource : String :=
  "mod m \x7b #[memberwise_init] pub struct Cart<'a, T: 'a, const N: usize> where T: Ord \x7b " ++
    "items: [&'a T; N], #[member(init = \"a b\", constant)] label: _, " ++
    "#[member(computed = 1)] size: u8 \x7d \x7d"

/-- The listing of a cart is read as the implementation that is compiled for it. -/
theorem cart_listing_read :
    ∃ structs found listed plan expansion again,
      annotatedIn cartSource = .ok structs ∧ found ∈ structs ∧
        found.report.outcome = .ok listed ∧
        Fieldwise.plan found.args found.decl.tokens = .ok plan ∧ found.reparses = true ∧
        found.headerReads = true ∧ (∀ field ∈ plan.fields, field.printsBack = true) ∧
        (∀ field ∈ plan.fields, field.closed = true) ∧
        (∀ field ∈ plan.fields, field.oneLine = true) ∧
        expand found.args found.decl.tokens = .ok expansion ∧ expansion.getters.length = 1 ∧
        Tokens.read listed.listing = .ok again ∧
        plainAll again = plainAll (expansion.decl.implTokens ++ wrap .brace
          (expansion.constructor.layout
            (Plan.lineLimit < expansion.constructor.params.length) true)) := by
  have h : ((annotatedIn cartSource).toOption.any fun structs => structs.any fun found =>
      (analyze found.args found.decl.tokens).toOption.any fun analysis =>
        (Expansion.ofAnalysis analysis).toOption.any (·.getters.length == 1) &&
          ((found.reparses && found.headerReads) &&
            ((analysis.plan.fields.all FieldInit.printsBack &&
              analysis.plan.fields.all FieldInit.closed) &&
              analysis.plan.fields.all FieldInit.oneLine))) = true := by
    decide +kernel
  obtain ⟨structs, hstructs, h⟩ := exists_ok_of_any h
  obtain ⟨found, hfound, h⟩ := List.any_eq_true.mp h
  obtain ⟨analysis, hanalysis, h⟩ := exists_ok_of_any h
  simp only [Bool.and_eq_true, List.all_eq_true] at h
  obtain ⟨hbuilt, ⟨hreparsed, hheader⟩, ⟨hprinted, hclosed⟩, hline⟩ := h
  obtain ⟨built, hof, hone⟩ := exists_ok_of_any hbuilt
  have hlisted : found.report.outcome =
      .ok ⟨analysis.plan.describe, Annotated.listing found.decl analysis.plan⟩ :=
    bind_eq_ok.mpr ⟨analysis, hanalysis, bind_eq_ok.mpr ⟨built, hof, rfl⟩⟩
  have hplan : Fieldwise.plan found.args found.decl.tokens = .ok analysis.plan :=
    map_eq_ok.mpr ⟨analysis, hanalysis, rfl⟩
  have hbuiltFrom : expand found.args found.decl.tokens = .ok built :=
    bind_eq_ok.mpr ⟨analysis, hanalysis, hof⟩
  obtain ⟨expansion, again, hexpand, -, hread, hplain⟩ :=
    Annotated.listing_read_as_implementation hstructs hfound hlisted hplan hreparsed hheader
      hprinted hclosed hline
  rw [hbuiltFrom] at hexpand
  cases hexpand
  exact ⟨structs, found, _, _, built, again, hstructs, hfound, hlisted, hplan, hreparsed, hheader,
    hprinted, hclosed, hline, hbuiltFrom, by simpa using hone, hread, hplain⟩

end Fieldwise
