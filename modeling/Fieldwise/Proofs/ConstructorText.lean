import Fieldwise.Proofs.FieldNames
import Fieldwise.Proofs.Placement
import Fieldwise.Proofs.Splicing

/-!
# The constructor as text and as tokens

A plan is written out as source text for people, and its texts are parsed one by one to build the constructor
that is compiled. The two agree as long as no text that is put in ends in an open comment: such a comment takes
the comma after it away in the source text, while the parsed text has nothing after it.
-/

namespace Fieldwise

open Grammar Token Lexer

/-! ## Texts and what they are parsed to -/

/-- A text that is read as these tokens wherever a text follows that breaks. -/
structure Written (text : String) (tokens : Tokens) : Prop where
  /-- The text stands for the marks of the tokens. -/
  stands : Stands text.toList (marksAll tokens)
  /-- The tokens have no invisible groups. -/
  visible : Visible tokens

theorem Written.visible_of_mem {texts : List String} {pieces : List Tokens}
    (h : List.Forall₂ Written texts pieces) : ∀ piece ∈ pieces, Visible piece := by
  induction h with
  | nil => simp
  | cons hfirst hrest ih => exact List.forall_mem_cons.mpr ⟨hfirst.visible, ih⟩

/-- Whether printing what a text is parsed to keeps the tokens of the text. -/
def printsBack {α : Type} (parser : Tokens → Except SyntaxError α) (print : α → Tokens)
    (text : String) : Bool :=
  match Tokens.read text with
  | .error _ => true
  | .ok tokens =>
    match parser tokens with
    | .error _ => true
    | .ok value => decide (plainAll (print value) = plainAll tokens)

/-- A closed text is written for the tokens of what it is parsed to. -/
theorem Written.of_parsed {α : Type} {parser : Tokens → Except SyntaxError α} {print : α → Tokens}
    {text : String} {value : α} (h : parseGenerated parser text = .ok value)
    (hprinted : printsBack parser print text = true) (hclosed : closed text.toList = true) :
    Written text (print value) := by
  have hparsed : ∃ tokens, Tokens.read text = .ok tokens ∧ parser tokens = .ok value := by
    grind [parseGenerated, parseText]
  obtain ⟨tokens, hread, hparse⟩ := hparsed
  have hplain : plainAll (print value) = plainAll tokens := by
    simpa [printsBack, hread, hparse] using hprinted
  have hmarks : marksAll (print value) = marksAll tokens := by
    rw [← marksAll_plainAll, hplain, marksAll_plainAll]
  refine ⟨?_, Visible.of_plainAll_eq (Tokens.read_opened hread) hplain⟩
  rw [hmarks]
  exact Tokens.read_stands hread hclosed

/-! ## Parameters and assignments -/

/-- The tokens of a parameter. -/
def Constructor.paramTokens (param : Ident × Ty) : Tokens :=
  param.1.token :: sign ":" ++ param.2.tokens

theorem Written.named {ident : Ident} {text : String} {tokens : Tokens}
    (hname : (Mark.ident ident.name).Legible) (h : Written text tokens) :
    Written (ident.name ++ ": " ++ text) (ident.token :: sign ":" ++ tokens) := by
  refine ⟨?_, ?_⟩
  · intro rest after hbreak hrest
    have htext := h.stands.blank rest after hbreak hrest
    have hcolon : Scans (':' :: _) (.punct ':' :: _) :=
      Scans.sign (by decide) (by decide) (by decide) htext
    have hall := Scans.word hname (by decide) hcolon
    simpa [marksAll, marks, Ident.token, sign, operator, marksAll_append] using hall
  · have hlead : Visible ([ident.token] ++ sign ":") := rfl
    exact hlead.append h.visible

theorem Written.name {ident : Ident} (hname : (Mark.ident ident.name).Legible) :
    Written ident.name [ident.token] :=
  ⟨fun _ _ hbreak hrest => Scans.wordBreaks hname hbreak hrest, rfl⟩

namespace FieldInit

/-- The type of the parameter that supplies the field. -/
def typeText? (field : FieldInit) : Option String := field.parameter?.map Parameter.typeText

/-- Whether printing what the texts of a field are parsed to keeps their tokens. -/
def printsBack (field : FieldInit) : Bool :=
  field.typeText?.all (Fieldwise.printsBack parseType Ty.tokens) &&
    field.valueText?.all (Fieldwise.printsBack parseExpr Expr.tokens)

/-- Whether no text of a field ends in an open comment. -/
def closed (field : FieldInit) : Bool :=
  field.typeText?.all (fun text => Lexer.closed text.toList) &&
    field.valueText?.all fun text => Lexer.closed text.toList

/-- The texts of a field are written for the tokens of its part of the constructor. -/
theorem part_written {field : FieldInit} {part : Constructor.Part}
    (h : Constructor.part field = .ok part) (hname : (Mark.ident field.ident.name).Legible)
    (hprinted : field.printsBack = true) (hclosed : field.closed = true) :
    List.Forall₂ Written (field.parameter?.toList.map Parameter.text)
        (part.param.toList.map Constructor.paramTokens) ∧
      Written field.assignment (Constructor.assignmentTokens part.field) := by
  rw [closed, Bool.and_eq_true, Option.all_eq_true, Option.all_eq_true] at hclosed
  rw [printsBack, Bool.and_eq_true, Option.all_eq_true, Option.all_eq_true] at hprinted
  have hvalue : ∀ shown value, field.valueText? = some shown →
      parseGenerated parseExpr shown = .ok value → Written shown value.tokens :=
    fun shown value hshown hparse =>
      .of_parsed hparse (hprinted.2 shown hshown) (hclosed.2 shown hshown)
  cases field with
  | parameter p =>
    obtain ⟨type, htype, hrest⟩ := bind_eq_ok.mp h
    have htyped : Written p.text (Constructor.paramTokens (p.ident, type)) :=
      .named hname (.of_parsed htype (hprinted.1 _ rfl) (hclosed.1 _ rfl))
    split at hrest
    · rename_i shown hshown
      obtain ⟨value, hparse, hpart⟩ := bind_eq_ok.mp hrest
      cases hpart
      have hassigned := Written.named hname (hvalue shown value hshown hparse)
      rw [assignment, show (FieldInit.parameter p).valueText? = some shown from hshown]
      exact ⟨.cons htyped .nil, hassigned⟩
    · rename_i hshown
      cases hrest
      rw [assignment, show (FieldInit.parameter p).valueText? = none from hshown]
      exact ⟨.cons htyped .nil, .name hname⟩
  | value ident shown =>
    obtain ⟨value, hparse, hpart⟩ := bind_eq_ok.mp h
    cases hpart
    exact ⟨.nil, .named hname (hvalue shown value rfl hparse)⟩

end FieldInit

/-- The texts of all fields are written for the tokens of the constructor. -/
theorem Constructor.parts_written {fields : List FieldInit} {found : List Part}
    (h : parts fields = .ok found)
    (hname : ∀ field ∈ fields, (Mark.ident field.ident.name).Legible)
    (hprinted : ∀ field ∈ fields, field.printsBack = true)
    (hclosed : ∀ field ∈ fields, field.closed = true) :
    List.Forall₂ Written ((fields.filterMap FieldInit.parameter?).map Parameter.text)
        ((found.filterMap Part.param).map paramTokens) ∧
      List.Forall₂ Written (fields.map FieldInit.assignment)
        ((found.map Part.field).map assignmentTokens) := by
  induction fields generalizing found with
  | nil =>
    cases h
    exact ⟨.nil, .nil⟩
  | cons field fields ih =>
    obtain ⟨first, hfirst, hmore⟩ := bind_eq_ok.mp h
    obtain ⟨others, hothers, hall⟩ := bind_eq_ok.mp hmore
    cases hall
    rw [List.forall_mem_cons] at hname hprinted hclosed
    obtain ⟨hparam, hfield⟩ := FieldInit.part_written hfirst hname.1 hprinted.1 hclosed.1
    obtain ⟨hparams, hfields⟩ := ih hothers hname.2 hprinted.2 hclosed.2
    refine ⟨?_, .cons hfield hfields⟩
    have happend := List.rel_append hparam hparams
    cases hp : field.parameter? <;> cases hq : first.param <;>
      simpa [List.filterMap_cons, hp, hq] using happend

/-! ## Rows -/

/-- A text with spaces before it and a comma after it, as it stands in a row of its own. -/
def ownRow (indent text : String) : String := indent ++ text ++ ","

namespace Plan

/-- The rows up to the opening brace. -/
def headerRows (plan : Plan) : List String :=
  let params := plan.parameters.map Parameter.text
  if params.length ≤ lineLimit then
    [plan.access.keyword ++ " fn new(" ++ String.intercalate ", " params ++ ") -> Self \x7b"]
  else
    (plan.access.keyword ++ " fn new(") :: params.map (ownRow "    ") ++ [") -> Self \x7b"]

/-- The rows with the struct value. -/
def bodyRows (plan : Plan) : List String :=
  if plan.fields.isEmpty then ["    Self \x7b\x7d"]
  else
    "    Self \x7b" :: plan.fields.map (fun field => ownRow "        " field.assignment) ++
      ["    \x7d"]

/-- The rows of the constructor. -/
def rows (plan : Plan) : List String := plan.headerRows ++ plan.bodyRows ++ ["\x7d"]

theorem render_eq_rows (plan : Plan) :
    plan.render.toList = (plan.rows.map String.toList).flatMap (· ++ ['\n']) := by
  have hheader : plan.header.toList =
      (plan.headerRows.map String.toList).flatMap (· ++ ['\n']) := by
    unfold header headerRows
    dsimp only
    split <;> simp [ownRow, List.flatMap_map]
  have hbody : plan.body.toList = (plan.bodyRows.map String.toList).flatMap (· ++ ['\n']) := by
    unfold body bodyRows
    split <;> simp [ownRow, List.flatMap_map]
  simp [render, rows, hheader, hbody]

end Plan

namespace Constructor

/-- The tokens of a constructor, with a comma after the last parameter and after the last field if asked. -/
def layout (constructor : Constructor) (afterParams afterFields : Bool) : Tokens :=
  accessTokens constructor.access ++ term "fn" ++ term "new" ++
    wrap .paren (joined (sign ",") (constructor.params.map paramTokens) afterParams) ++
    sign "->" ++ term "Self" ++
    wrap .brace (term "Self" ++
      wrap .brace (joined (sign ",") (constructor.fields.map assignmentTokens) afterFields))

/-- A constructor is compiled without commas at the end. -/
theorem tokens_eq_layout (constructor : Constructor) :
    constructor.tokens = constructor.layout false false := rfl

theorem layout_visible {constructor : Constructor}
    (hparams : ∀ piece ∈ constructor.params.map paramTokens, Visible piece)
    (hfields : ∀ piece ∈ constructor.fields.map assignmentTokens, Visible piece)
    (afterParams afterFields : Bool) : Visible (constructor.layout afterParams afterFields) := by
  have hlead : Visible (accessTokens constructor.access ++ term "fn" ++ term "new") := by
    cases constructor.access <;> rfl
  have hresult : Visible (sign "->" ++ term "Self") := rfl
  have hself : Visible (term "Self") := rfl
  have hlist : Visible (wrap .paren _) := (Visible.joined hparams afterParams).wrap Delim.noConfusion
  have hvalue : Visible (wrap .brace _) :=
    (Visible.joined hfields afterFields).wrap Delim.noConfusion
  have hbody : Visible (wrap .brace _) := (hself.append hvalue).wrap Delim.noConfusion
  have hall := ((hlead.append hlist).append hresult).append hbody
  rw [← List.append_assoc] at hall
  exact hall

end Constructor

/-! ## Rows as marks -/

/-- Rows of their own stand for the texts in them and their commas. -/
theorem ownRows_stand (n : Nat) (indent : String) (hindent : indent.toList = List.replicate n ' ')
    {texts : List String} {pieces : List Tokens} (h : List.Forall₂ Written texts pieces) :
    ∃ marks, List.Forall₂ (fun row ms => Stands (String.toList row) ms)
        (texts.map (ownRow indent)) marks ∧
      marks.flatten = marksAll (joined (sign ",") pieces true) := by
  induction h with
  | nil => exact ⟨[], .nil, rfl⟩
  | @cons text piece texts pieces hfirst hrest ih =>
    obtain ⟨marks, hrows, hmarks⟩ := ih
    have hrow : Stands (ownRow indent text).toList (marksAll piece ++ [.punct ',']) := by
      simpa [ownRow, hindent] using hfirst.stands.append_comma.indent n
    refine ⟨_ :: marks, .cons hrow hrows, ?_⟩
    rw [List.flatten_cons, hmarks]
    simp [joined_trailing, marksAll_append, marksAll_comma]

/-- The beginning of a constructor up to its first parameter. -/
theorem scans_lead (access : Access) {cs : List Char} {ms : List Mark}
    (hhead : cs.head? ≠ some '/') (h : Scans cs ms) :
    Scans ((access.keyword ++ " fn new(").toList ++ cs)
      (marksAll (Constructor.accessTokens access ++ term "fn" ++ term "new") ++
        .opening .paren :: ms) := by
  have hnew : Scans ("new".toList ++ '(' :: cs) (.ident "new" :: .opening .paren :: ms) :=
    Scans.word (.inl (by decide)) (by decide) (Scans.openParen hhead h)
  have hfn : Scans ("fn".toList ++ ' ' :: ("new".toList ++ '(' :: cs))
      (.ident "fn" :: .ident "new" :: .opening .paren :: ms) :=
    Scans.word (.inl (by decide)) (by decide) (Scans.blank rfl hnew)
  have hblank := Scans.blank (c := ' ') rfl hfn
  cases access with
  | confined =>
    simpa [Access.keyword, Constructor.accessTokens, marksAll_append, marksAll_term] using hblank
  | internal =>
    have hcrate : Scans ("crate".toList ++ ')' :: _) (.ident "crate" :: _) :=
      Scans.word (.inl (by decide)) (by decide) (Scans.closeParen hblank)
    have hpub : Scans ("pub".toList ++ '(' :: _) (.ident "pub" :: _) :=
      Scans.word (.inl (by decide)) (by decide) (Scans.openParen (by simp) hcrate)
    simpa [Access.keyword, Constructor.accessTokens, marksAll_append, marksAll_term,
      marksAll_wrap] using hpub
  | exported =>
    have hpub : Scans ("pub".toList ++ ' ' :: _) (.ident "pub" :: _) :=
      Scans.word (.inl (by decide)) (by decide) hblank
    simpa [Access.keyword, Constructor.accessTokens, marksAll_append, marksAll_term] using hpub

theorem scans_self {cs : List Char} {ms : List Mark} (h : Scans cs ms) :
    Scans ("Self \x7b".toList ++ cs) (.ident "Self" :: .opening .brace :: ms) := by
  have hword : Scans ("Self".toList ++ ' ' :: '{' :: cs) (.ident "Self" :: .opening .brace :: ms) :=
    Scans.word (.inl (by decide)) (by decide) (Scans.blank rfl (Scans.openBrace h))
  simpa using hword

theorem stands_result :
    Stands ") -> Self \x7b".toList
      (.closing .paren :: (marksAll (sign "->" ++ term "Self") ++ [.opening .brace])) := by
  intro rest after hbreak hrest
  have harrow : Scans ('-' :: '>' :: ' ' :: _) (.punct '-' :: .punct '>' :: _) :=
    Scans.sign (by decide) (by decide) (by decide)
      (Scans.sign (by decide) (by decide) (by decide) (Scans.blank rfl (scans_self hrest)))
  have hall := Scans.closeParen (Scans.blank (c := ' ') rfl harrow)
  have harrowMarks : marksAll (sign "->") = [.punct '-', .punct '>'] := rfl
  simpa [marksAll_append, marksAll_term, harrowMarks] using hall

namespace Plan

variable {plan : Plan} {pieces : List Tokens}

theorem params_head {params : List Parameter}
    (hname : ∀ p ∈ params, (Mark.ident p.ident.name).Legible) {cs : List Char}
    (hcs : cs.head? ≠ some '/') :
    ((String.intercalate ", " (params.map Parameter.text)).toList ++ cs).head? ≠ some '/' := by
  cases params with
  | nil => simpa using hcs
  | cons p rest =>
    have hp := hname p List.mem_cons_self
    cases rest <;>
      simp only [List.map_cons, List.map_nil, String.intercalate_singleton,
        String.intercalate_cons_cons, Parameter.text, String.toList_append, List.append_assoc] <;>
      exact word_head hp _

/-- The rows up to the opening brace stand for the tokens there. -/
theorem headerRows_stand (hname : ∀ p ∈ plan.parameters, (Mark.ident p.ident.name).Legible)
    (h : List.Forall₂ Written (plan.parameters.map Parameter.text) pieces) :
    ∃ marks, List.Forall₂ (fun row ms => Stands (String.toList row) ms) plan.headerRows marks ∧
      marks.flatten =
        marksAll (Constructor.accessTokens plan.access ++ term "fn" ++ term "new" ++
          wrap .paren (joined (sign ",") pieces (lineLimit < pieces.length)) ++ sign "->" ++
          term "Self") ++ [.opening .brace] := by
  rw [← h.length_eq]
  unfold headerRows
  dsimp only
  split
  · rename_i hshort
    rw [decide_eq_false (Nat.not_lt.mpr hshort)]
    have hparams := Stands.joined
      (List.forall₂_map_left_iff.mpr (h.imp fun _ _ hw => hw.stands) :
        List.Forall₂ (fun cs piece => Stands cs (marksAll piece))
          ((plan.parameters.map Parameter.text).map String.toList) pieces)
    refine ⟨[_], .cons (fun rest after hbreak hrest => ?_) .nil, List.flatten_singleton⟩
    have hresult := stands_result rest after hbreak hrest
    have hcloses : Breaks (") -> Self \x7b".toList ++ rest) := by
      simpa using Breaks.cons (c := ')') (by decide) _
    have hlist := hparams _ _ hcloses hresult
    have hcommas : ([',', ' '] : List Char) = ", ".toList := by simp
    rw [hcommas, ← String.toList_intercalate] at hlist
    have hall := scans_lead plan.access (params_head hname (by simp)) hlist
    simpa [marksAll_append, marksAll_wrap] using hall
  · rename_i hlong
    rw [decide_eq_true (Nat.lt_of_not_le hlong)]
    obtain ⟨marks, hrows, hmarks⟩ := ownRows_stand 4 "    " rfl h
    have hlead : Stands (plan.access.keyword ++ " fn new(").toList
        (marksAll (Constructor.accessTokens plan.access ++ term "fn" ++ term "new") ++
          [.opening .paren]) := by
      intro rest after hbreak hrest
      have hhead : rest.head? ≠ some '/' := fun hslash => absurd (hbreak _ hslash) (by decide)
      simpa using scans_lead plan.access hhead hrest
    refine ⟨_ :: (marks ++ [_]), .cons hlead (List.rel_append hrows (.cons stands_result .nil)), ?_⟩
    rw [List.flatten_cons, List.flatten_append, hmarks]
    simp [marksAll_append, marksAll_wrap]

/-- The rows with the struct value stand for its tokens. -/
theorem bodyRows_stand
    (h : List.Forall₂ Written (plan.fields.map FieldInit.assignment) pieces) :
    ∃ marks, List.Forall₂ (fun row ms => Stands (String.toList row) ms) plan.bodyRows marks ∧
      marks.flatten = marksAll (term "Self" ++ wrap .brace (joined (sign ",") pieces true)) := by
  have hself : Stands "Self \x7b".toList [.ident "Self", .opening .brace] :=
    fun rest after hbreak hrest => scans_self hrest
  have hclose : Stands ['}'] [.closing .brace] := fun rest after hbreak hrest =>
    Scans.closeBrace hrest
  unfold bodyRows
  split
  · rename_i hempty
    rw [List.isEmpty_iff.mp hempty] at h
    cases h
    have hrow : Stands "    Self \x7b\x7d".toList
        [.ident "Self", .opening .brace, .closing .brace] := by
      have hvalue : Stands ("Self \x7b".toList ++ ['}'])
          [.ident "Self", .opening .brace, .closing .brace] := by
        intro rest after hbreak hrest
        simpa using scans_self (Scans.closeBrace hrest)
      simpa using hvalue.indent 4
    exact ⟨[_], .cons hrow .nil, rfl⟩
  · obtain ⟨marks, hrows, hmarks⟩ := ownRows_stand 8 "        " rfl h
    have hfirst : Stands "    Self \x7b".toList [.ident "Self", .opening .brace] := by
      simpa using hself.indent 4
    have hlast : Stands "    \x7d".toList [.closing .brace] := by
      simpa using hclose.indent 4
    rw [List.map_map] at hrows
    refine ⟨_ :: (marks ++ [_]), .cons hfirst (List.rel_append hrows (.cons hlast .nil)), ?_⟩
    rw [List.flatten_cons, List.flatten_append, hmarks]
    simp [marksAll_append, marksAll_wrap, marksAll_term]

/-- The rows of a plan stand for the tokens of its constructor, with commas at the end. -/
theorem rows_stand {constructor : Constructor} (h : Constructor.ofPlan plan = .ok constructor)
    (hname : ∀ field ∈ plan.fields, (Mark.ident field.ident.name).Legible)
    (hprinted : ∀ field ∈ plan.fields, field.printsBack = true)
    (hclosed : ∀ field ∈ plan.fields, field.closed = true) :
    Visible (constructor.layout (lineLimit < constructor.params.length) true) ∧
      ∃ marks, List.Forall₂ (fun row ms => Stands (String.toList row) ms) plan.rows marks ∧
        marks.flatten =
          marksAll (constructor.layout (lineLimit < constructor.params.length) true) := by
  obtain ⟨found, hparts, hbuilt⟩ := bind_eq_ok.mp h
  cases hbuilt
  obtain ⟨hparams, hfields⟩ := Constructor.parts_written hparts hname hprinted hclosed
  have hparamName : ∀ p ∈ plan.parameters, (Mark.ident p.ident.name).Legible := by
    intro p hp
    obtain ⟨field, hfield, hsome⟩ := List.mem_filterMap.mp hp
    cases field with
    | parameter q =>
      cases hsome
      exact hname _ hfield
    | value ident shown => simp [FieldInit.parameter?] at hsome
  obtain ⟨headMarks, hheadRows, hheadMarks⟩ := headerRows_stand hparamName hparams
  obtain ⟨bodyMarks, hbodyRows, hbodyMarks⟩ := bodyRows_stand hfields
  have hlast : Stands "\x7d".toList [.closing .brace] := fun rest after hbreak hrest =>
    Scans.closeBrace hrest
  refine ⟨?_, headMarks ++ bodyMarks ++ [_],
    List.rel_append (List.rel_append hheadRows hbodyRows) (.cons hlast .nil), ?_⟩
  · exact Constructor.layout_visible (Written.visible_of_mem hparams)
      (Written.visible_of_mem hfields) _ _
  · rw [List.length_map] at hheadMarks
    rw [List.flatten_append, List.flatten_append, hheadMarks, hbodyMarks]
    simp [Constructor.layout, marksAll_append, marksAll_wrap, marksAll_term]

end Plan

/-- The fields of a plan are named after fields of the declaration. -/
theorem plan_names {args item : Tokens} {analysis : Analysis}
    (h : analyze args item = .ok analysis) :
    ∃ decl, parseItem item = .ok (.struct decl) ∧
      ∀ field ∈ analysis.plan.fields, field.ident.name ∈ decl.fieldNames := by
  obtain ⟨decl, hparse, hhost, hclassify⟩ := analyze_ok h
  have hnames := ofStruct_names (parseItem_fieldsNamed hparse) hhost
  refine ⟨decl, hparse, fun field hfield => ?_⟩
  obtain ⟨entry, hentry, hinit⟩ := List.mem_filterMap.mp hfield
  have hident := Classified.fieldInit?_ident hinit
  have hmember : entry.member ∈ analysis.host.members := by
    rw [← (classify_ok hclassify).1]
    exact List.mem_map_of_mem hentry
  rw [hident, ← hnames]
  exact List.mem_map_of_mem (f := Member.name) hmember

/-- The text of a planned constructor is read as the tokens of the constructor that is compiled, with a comma
after the last field, and after the last parameter if each has a line of its own. No text that is put in may end
in an open comment; and parsing and printing each of them is taken to keep its tokens. -/
theorem Plan.render_read_as_constructor {args item : Tokens} {plan : Plan}
    {constructor : Constructor} (hitem : ∀ mark ∈ marksAll item, mark.Legible)
    (hplan : Fieldwise.plan args item = .ok plan)
    (hconstructor : Constructor.ofPlan plan = .ok constructor)
    (hprinted : ∀ field ∈ plan.fields, field.printsBack = true)
    (hclosed : ∀ field ∈ plan.fields, field.closed = true) :
    constructor.tokens = constructor.layout false false ∧
      ∃ again, Tokens.read plan.render = .ok again ∧
        plainAll again =
          plainAll (constructor.layout (lineLimit < constructor.params.length) true) := by
  obtain ⟨analysis, hanalysis, rfl⟩ := map_eq_ok.mp hplan
  obtain ⟨decl, hparse, hnames⟩ := plan_names hanalysis
  have hname : ∀ field ∈ analysis.plan.fields, (Mark.ident field.ident.name).Legible :=
    fun field hfield => hitem _ (parseItem_fieldNames hparse _ (hnames field hfield))
  obtain ⟨hvisible, marks, hrows, hmarks⟩ := rows_stand hconstructor hname hprinted hclosed
  refine ⟨constructor.tokens_eq_layout, ?_⟩
  have hscan := Scans.rows (List.forall₂_map_left_iff.mpr hrows)
  rw [← render_eq_rows, hmarks] at hscan
  obtain ⟨again, hread, hplain⟩ := hscan.read
  exact ⟨again, hread, hplain.trans hvisible⟩

/-- The arguments of an annotation with an access level and a default. -/
def jobArguments : String := "access = internal, defaults = \x7b \"retries\": 3 \x7d"

/-- A declaration with a plain parameter, one with a default, a callable that is boxed, and a member that keeps
its value. -/
def jobDeclaration : String :=
  "pub struct Job \x7b name: String, retries: u8, done: Box<dyn Fn(u8) -> bool>, " ++
    "#[member(constant, init = [1, 2])] marks: _ \x7d"

/-- The constructor of a job is read from its text as it is compiled. -/
theorem job_render_read :
    ∃ args item plan constructor again,
      Tokens.read jobArguments = .ok args ∧ Tokens.read jobDeclaration = .ok item ∧
        Fieldwise.plan args item = .ok plan ∧ Constructor.ofPlan plan = .ok constructor ∧
        (∀ field ∈ plan.fields, field.printsBack = true) ∧
        (∀ field ∈ plan.fields, field.closed = true) ∧ constructor.params.length = 3 ∧
        Tokens.read plan.render = .ok again ∧
        plainAll again = plainAll (constructor.layout true true) := by
  have h : ((Tokens.read jobArguments).toOption.any fun args =>
      (Tokens.read jobDeclaration).toOption.any fun item =>
        (Fieldwise.plan args item).toOption.any fun plan =>
          (Constructor.ofPlan plan).toOption.any (·.params.length == 3) &&
            (plan.fields.all FieldInit.printsBack && plan.fields.all FieldInit.closed)) = true := by
    decide +kernel
  obtain ⟨args, hargs, h⟩ := exists_ok_of_any h
  obtain ⟨item, hitem, h⟩ := exists_ok_of_any h
  obtain ⟨plan, hplan, h⟩ := exists_ok_of_any h
  simp only [Bool.and_eq_true, List.all_eq_true] at h
  obtain ⟨hbuilt, hprinted, hclosed⟩ := h
  obtain ⟨constructor, hconstructor, hthree⟩ := exists_ok_of_any hbuilt
  have hlength : constructor.params.length = 3 := by simpa using hthree
  obtain ⟨-, again, hread, hplain⟩ := Plan.render_read_as_constructor (Tokens.read_legible hitem)
    hplan hconstructor hprinted hclosed
  rw [hlength] at hplain
  exact ⟨args, item, plan, constructor, again, hargs, hitem, hplan, hconstructor, hprinted,
    hclosed, hlength, hread, hplain⟩

end Fieldwise
