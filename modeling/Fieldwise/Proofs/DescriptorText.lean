import Fieldwise.Proofs.SplicedTokens
import Fieldwise.Proofs.TypeArguments

/-!
# Descriptors and their texts

The text of a descriptor is put together from the texts of its names. Read as a type, it has the container structure of
the descriptor if every name in it is a closed text of a type: then each name is read as its own type wherever it
stands, and the containers around it are read as paths with arguments. So a value is fitted to a descriptor as it is to
the text of the descriptor.
-/

namespace Fieldwise

open Fieldwise.Grammar Fieldwise.Grammar.Parser Fieldwise.Token Fieldwise.Lexer

variable {type : Descriptor} {tokens rest : Tokens} {other : Ty} {q : Sequel} {depth : Nat}

/-! ## Texts of tokens -/

section Text

variable (w : Shift)

mutual

theorem writeToken_retouch (sheet : Printer.Sheet) (token : Token) :
    Printer.writeToken sheet (retouch w.toRetouch token) = Printer.writeToken sheet token := by
  cases token with
  | ident name pos => rfl
  | literal text pos => rfl
  | punct c spacing pos => rw [retouch_punct, w.spacing, Printer.writeToken, Printer.writeToken]
  | group delim body opening closing =>
    rw [retouch_group, Printer.writeToken, Printer.writeToken, writeTokens_retouch .empty body]

theorem writeTokens_retouch (sheet : Printer.Sheet) (tokens : List Token) :
    Printer.writeTokens sheet (retouch w.toRetouch tokens) = Printer.writeTokens sheet tokens := by
  cases tokens with
  | nil => rfl
  | cons token rest =>
    rw [retouch_cons, Printer.writeTokens, Printer.writeTokens, writeToken_retouch sheet token,
      writeTokens_retouch _ rest]

end

theorem Tokens.text_retouch (tokens : Tokens) : Tokens.text (retouch w.toRetouch tokens) = Tokens.text tokens := by
  rw [Tokens.text, writeTokens_retouch, ← Tokens.text]

end Text

theorem writeTokens_append (sheet : Printer.Sheet) (before after : Tokens) :
    Printer.writeTokens sheet (before ++ after) = Printer.writeTokens (Printer.writeTokens sheet before) after := by
  induction before generalizing sheet with
  | nil => rfl
  | cons token before ih => rw [List.cons_append, Printer.writeTokens, Printer.writeTokens, ih]

theorem Tokens.text_sameToLast {others : Tokens} (h : SameToLast tokens others) :
    Tokens.text tokens = Tokens.text others := by
  obtain rfl | ⟨front, c, spacing, spacing', pos, rfl, rfl⟩ := h
  · rfl
  · rw [Tokens.text, Tokens.text, writeTokens_append, writeTokens_append]
    cases spacing <;> cases spacing' <;> rfl

theorem sizeAll_sameToLast {others : Tokens} (h : SameToLast tokens others) : sizeAll tokens = sizeAll others := by
  obtain rfl | ⟨front, c, spacing, spacing', pos, rfl, rfl⟩ := h
  · rfl
  · rw [sizeAll_append, sizeAll_append]
    rfl

/-! ## Shapes -/

namespace Descriptor

/-- Types that are written the same, and with as many tokens, are described the same. -/
theorem leaf_congr {type : Ty} (htext : Tokens.text type.tokens = Tokens.text other.tokens)
    (hsize : sizeAll type.tokens = sizeAll other.tokens) : leaf type = leaf other := by
  have hleaf (depth : Nat) : leafTo depth type = leafTo depth other := by
    cases depth <;> rw [leafTo, leafTo, htext]
  rw [leaf, leaf, hsize, hleaf]

section Shift

variable (w : Shift)

theorem leaf_retouch (type : Ty) : leaf (retouch w.toRetouch type) = leaf type := by
  refine leaf_congr ?_ ?_
  · rw [Ty.tokens_retouch, Tokens.text_retouch]
  · rw [Ty.tokens_retouch, sizeAll_retouch]

mutual

theorem shapeOf?_retouch (type : Ty) : shapeOf? (retouch w.toRetouch type) = shapeOf? type := by
  match type with
  | .path rooted segments => rw [retouch_path, shapeOf?_path, shapeOf?_path, lastShape?_retouch segments]
  | .array _ _ | .function _ _ _ _ _ _ _ | .group _ | .implTrait _ _ | .infer | .call _ _ _ | .never | .paren _
  | .projection _ _ _ _ | .pointer _ _ | .reference _ _ _ | .slice _ | .traitObject _ _ _ | .tuple _ _ | .verbatim _ =>
    rfl

theorem lastShape?_retouch (segments : List Segment) :
    lastShape? leaf (retouch w.toRetouch segments) = lastShape? leaf segments := by
  match segments with
  | [] => rfl
  | [last] => exact segmentShape?_retouch last
  | _ :: next :: rest => exact lastShape?_retouch (next :: rest)

theorem segmentShape?_retouch (segment : Segment) :
    segmentShape? leaf (retouch w.toRetouch segment) = segmentShape? leaf segment := by
  match segment with
  | .mk name .none => rfl
  | .mk name (.call _ _ _) => rfl
  | .mk name (.angle turbofish items trailing) =>
    rw [retouch_segment, retouch_angle, segmentShape?, segmentShape?, argShapes?, argShapes?, itemShapes_retouch items]
    rfl

theorem itemShapes_retouch (items : List GenericArg) :
    itemShapes leaf (retouch w.toRetouch items) = itemShapes leaf items := by
  match items with
  | [] => rfl
  | item :: rest => rw [retouch_cons, itemShapes, itemShapes, itemShape_retouch item, itemShapes_retouch rest]

theorem itemShape_retouch (item : GenericArg) :
    itemShape leaf (retouch w.toRetouch item) = itemShape leaf item := by
  match item with
  | .type type =>
    have hshape := shapeOf?_retouch type
    rw [shapeOf?] at hshape
    rw [retouch_typeArg, itemShape, itemShape, hshape, leaf_retouch]
  | .lifetime _ | .const _ | .assocType _ _ _ | .assocConst _ _ _ | .constraint _ _ _ _ => rfl

end

end Shift

/-- Types that differ in the spacing at their end have the same structure. -/
theorem shapeOf?_kin {type : Ty} (h : KinType q type other) : shapeOf? other = shapeOf? type := by
  have hplain := h.plain
  cases type with
  | path rooted segments => rw [← h.path rooted segments rfl]
  | _ =>
    cases other with
    | path rooted segments => simp at hplain
    | _ => rfl

theorem leaf_kin {type : Ty} (h : KinType q type other) : leaf other = leaf type :=
  leaf_congr (Tokens.text_sameToLast h.written).symm (sizeAll_sameToLast h.written).symm

/-! ## Names -/

/-- Whether a type without structure has none either when it is read from its own text. A text can begin a comment
between signs that stood apart, and hide an argument in it. -/
def steady (type : Ty) : Bool :=
  (shapeOf? type).isSome ||
    (parseText parseType (Tokens.text type.tokens)).toOption.all fun again => (shapeOf? again).isNone

/-- Such a type is described by its text, which is not the owned text. -/
theorem leaf_of_steady {type : Ty} (h : steady type = true) (hshape : shapeOf? type = none) :
    leaf type = named (Tokens.text type.tokens) ∧ Tokens.text type.tokens ≠ "String" := by
  rw [steady, hshape, Option.isSome_none, Bool.false_or] at h
  constructor
  · rw [leaf]
    cases sizeAll type.tokens with
    | zero => rfl
    | succ depth =>
      rw [leafTo, readWith]
      cases hparse : parseText parseType (Tokens.text type.tokens) with
      | error error => rfl
      | ok again =>
        have hnone : shapeWith? leaf again = none := by
          rw [hparse] at h
          exact Option.isNone_iff_eq_none.mp h
        have hdeep : shapeWith? (leafTo depth) again = none := by
          by_contra hsome
          have hleaf := shapeWith?_isSome (leafTo depth) leaf (Option.isSome_iff_ne_none.mpr hsome)
          simp [hnone] at hleaf
        simp only [hdeep, Option.getD_none]
  · intro htext
    obtain ⟨other, hother, hstring⟩ := parse_string
    rw [htext, hother] at h
    have hnone : (shapeOf? other).isNone = true := h
    rw [hstring] at hnone
    contradiction

/-- Whether every name in a descriptor is a closed text of a type that is steady. -/
def wellNamed : Descriptor → Bool
  | named name => closed name.toList && (parseText parseType name).toOption.any steady
  | array element => element.wellNamed
  | map key value => key.wellNamed && value.wellNamed
  | optional inner => inner.wellNamed
  | callable _ _ _ => false

/-- What a type is among arguments has the outline of the descriptor; only a name has no structure. -/
structure Reflects (type : Descriptor) (found : Ty) : Prop where
  /-- The outlines are the same. -/
  outline : ((shapeOf? found).getD (leaf found)).outline = type.resolve.outline
  /-- Containers have a structure. -/
  structured : shapeOf? found = none → ∃ name, type = named name

theorem reflects_named {name : String} {type : Ty} (hparse : parseText parseType name = .ok type)
    (hsteady : steady type = true) : Reflects (named name) type where
  outline := by
    have hresolve : (named name).resolve = (shapeOf? type).getD (named name) := by rw [resolve, shape_named, hparse]
    rw [hresolve]
    cases hshape : shapeOf? type with
    | some found => rfl
    | none =>
      -- Both are names, and neither is the owned text.
      have hname := name_ne_string hparse hshape
      obtain ⟨hleaf, htext⟩ := leaf_of_steady hsteady hshape
      simp [hleaf, Descriptor.outline, hname, htext]
  structured _ := ⟨name, rfl⟩

theorem Reflects.of_kin {found : Ty} (h : Reflects type found) (hkin : KinType q found other) :
    Reflects type other where
  outline := by rw [shapeOf?_kin hkin, leaf_kin hkin, h.outline]
  structured hnone := h.structured (by rw [← shapeOf?_kin hkin, hnone])

theorem reflects_retouch {found : Ty} (w : Shift) :
    Reflects type (retouch w.toRetouch found) ↔ Reflects type found := by
  constructor
  · rintro ⟨houtline, hstructured⟩
    rw [shapeOf?_retouch, leaf_retouch] at houtline
    rw [shapeOf?_retouch] at hstructured
    exact ⟨houtline, hstructured⟩
  · rintro ⟨houtline, hstructured⟩
    refine ⟨?_, ?_⟩
    · rw [shapeOf?_retouch, leaf_retouch, houtline]
    · rw [shapeOf?_retouch]
      exact hstructured

/-- Tokens that are read as a type which reflects a descriptor, wherever an argument ends after them. -/
structure Conveys (type : Descriptor) (tokens : Tokens) : Prop where
  /-- The tokens are visible. -/
  overt : overtAll tokens = true
  /-- All rules that are deep enough read them. -/
  read : ∀ (rest : Tokens) (stop : Pos) (delim : Delim) (depth : Nat), overtAll rest = true → endsArg rest = true →
    depthFor tokens ≤ depth → ∃ found, Reflects type found ∧
      (Rules.level depth).type true ⟨tokens ++ rest, stop, delim, none⟩ = .ok (found, ⟨rest, stop, delim, none⟩)

/-- The text of a descriptor is spelled, before any text that breaks, with tokens that convey the descriptor. -/
def Spelled (type : Descriptor) : Prop :=
  ∀ rest after, Breaks rest → Spells rest after →
    ∃ tokens, Spells (type.text.toList ++ rest) (piecesAll tokens ++ after) ∧ Conveys type tokens

theorem overtAll_retouch (r : Retouch) (tokens : Tokens) : overtAll (retouch r tokens) = overtAll tokens := by
  induction tokens with
  | nil => rfl
  | cons token rest ih =>
    have htoken : (retouch r token).overt = token.overt := by
      cases token with
      | group delim body opening closing => rw [retouch_group]; cases delim <;> rfl
      | _ => rfl
    rw [retouch_cons, overtAll, overtAll, htoken, ih]

theorem linked_congr {other : Sequel} (h : q.joins = other.joins) (tokens : Tokens) :
    q.linked tokens = other.linked tokens := by
  induction tokens with
  | nil => rfl
  | cons token rest ih =>
    cases rest with
    | nil => cases token <;> simp [Sequel.linked, Sequel.link, h]
    | cons next rest => rw [Sequel.linked, Sequel.linked, ih]

/-- Nothing at all after some tokens, of which the last may be joined nevertheless. -/
def nothing (joins : Bool) : Sequel :=
  ⟨joins, [], .callSite, .invisible, Sequel.alone.overt, Sequel.alone.inert⟩

/-- What ends an argument follows a type, and no word comes first in it. -/
theorem follows_of_endsArg (h : endsArg rest = true) : inert rest = true ∧ Look.anyWord rest = false := by
  unfold endsArg at h
  split at h
  · exact ⟨rfl, rfl⟩
  · refine ⟨by rw [inert, h, Bool.true_or], ?_⟩
    rw [Look.anyWord, bare_cons rfl]
  · contradiction

/-- A name before a text that breaks. Its last token may become joined to what follows, which does not change the
structure of its type. -/
theorem spelled_named {name : String} {type : Ty} (hclosed : closed name.toList = true)
    (hparse : parseText parseType name = .ok type) (hsteady : steady type = true) : Spelled (named name) := by
  intro rest after hbreak hrest
  have hreflects := reflects_named hparse hsteady
  unfold parseText at hparse
  split at hparse
  · rename_i tokens hread
    obtain ⟨joins, hspells⟩ := Tokens.read_spliced hread hclosed hbreak hrest
    have hovert : overtAll (retouch Shift.flat.toRetouch tokens) = true := by
      rw [overtAll_retouch, (Tokens.read_lexed hread).overt]
    refine ⟨_, hspells (nothing joins) rfl, by rwa [overtAll_linked], ?_⟩
    intro rest stop delim depth hovertRest hend hdepth
    have hflat : parseType (retouch Shift.flat.toRetouch tokens) = .ok (retouch Shift.flat.toRetouch type) := by
      have hretouch : parseType (retouch Shift.flat.toRetouch tokens) =
          retouch Shift.flat.toRetouch (parseType tokens) :=
        parseWith_retouch Shift.flat (fun _ _ => inferInstance) tokens
      rw [hretouch, hparse, retouch_ok]
    have hne : retouch Shift.flat.toRetouch tokens ≠ [] := by
      intro hnil
      rw [hnil] at hflat
      cases hflat
    obtain ⟨hinert, hword⟩ := follows_of_endsArg hend
    have hsize := sizeAll_sameToLast (sameToLast_linked (nothing joins) (retouch Shift.flat.toRetouch tokens))
    obtain ⟨again, hkin, hagain⟩ := @type_closed ⟨joins, rest, stop, delim, hovertRest, hinert⟩ _ _ depth hne
      ⟨hovert, fun _ => hword⟩ hflat (by rwa [depthFor, hsize])
    refine ⟨again, ((reflects_retouch Shift.flat).mpr hreflects).of_kin hkin, ?_⟩
    rwa [@linked_congr (nothing joins) ⟨joins, rest, stop, delim, hovertRest, hinert⟩ rfl]
  · contradiction

/-! ## Containers -/

theorem close_of_startsType (hovert : overtAll tokens = true) (h : startsType tokens = true) :
    Look.op ">" tokens = false := by
  have htext : ">".toList = ['>'] := rfl
  rw [Look.op, htext, dropOp, bare_overt hovert]
  unfold startsType at h
  split at h <;> grind

theorem look_close (spacing : Spacing) (rest : Tokens) : Look.op ">" (.punct '>' spacing .callSite :: rest) = true := by
  have htext : ">".toList = ['>'] := rfl
  rw [Look.op, htext, dropOp, bare_cons rfl]
  rfl

/-- Tokens that convey a descriptor are read as an argument. -/
theorem Conveys.arg (h : Conveys type tokens) (hovert : overtAll rest = true) (hend : endsArg rest = true)
    (stop : Pos) (delim : Delim) (hdepth : depthFor tokens ≤ depth) :
    startsType (tokens ++ rest) = true ∧ ∃ found, Reflects type found ∧
      genericArg (.level depth) ⟨tokens ++ rest, stop, delim, none⟩ = .ok (.type found, ⟨rest, stop, delim, none⟩) := by
  obtain ⟨found, hreflects, hfound⟩ := h.read rest stop delim depth hovert hend hdepth
  have hall : overtAll (tokens ++ rest) = true := by rw [overtAll_append, h.overt, hovert]; rfl
  exact ⟨startsType_of_ok hall hfound, found, hreflects, genericArg_of_type hall hend hfound⟩

/-- Arguments, each with the spacing of the character after it: a comma, and an angle bracket after the last. -/
def listed : List (Tokens × Spacing) → Tokens
  | [] => []
  | [(tokens, spacing)] => tokens ++ [.punct '>' spacing .callSite]
  | (tokens, spacing) :: next :: more => tokens ++ .punct ',' spacing .callSite :: listed (next :: more)

section Listed

variable {types : List Descriptor} {pieces : List (Tokens × Spacing)}

theorem overtAll_listed (h : List.Forall₂ (fun type piece => Conveys type piece.1) types pieces) :
    overtAll (listed pieces) = true := by
  induction h with
  | nil => rfl
  | @cons type piece types pieces hfirst hrest ih =>
    obtain ⟨tokens, spacing⟩ := piece
    cases pieces with
    | nil =>
      rw [listed, overtAll_append, hfirst.overt]
      rfl
    | cons next more =>
      rw [listed, overtAll_append, hfirst.overt, overtAll, ih]
      rfl

theorem length_le_sizeAll_listed (pieces : List (Tokens × Spacing)) : pieces.length ≤ sizeAll (listed pieces) := by
  induction pieces with
  | nil => exact Nat.zero_le _
  | cons piece pieces ih =>
    obtain ⟨tokens, spacing⟩ := piece
    have hone (c : Char) : (Token.punct c spacing .callSite).size = 1 := rfl
    cases pieces with
    | nil =>
      rw [listed, sizeAll_append, sizeAll, hone, List.length_singleton]
      omega
    | cons next more =>
      rw [listed, sizeAll_append, sizeAll, hone, List.length_cons]
      omega

/-- Arguments that convey descriptors are read one by one as types that reflect them. -/
theorem argsRead_listed (h : List.Forall₂ (fun type piece => Conveys type piece.1) types pieces) (hne : pieces ≠ [])
    (hovert : overtAll rest = true) (stop : Pos) (delim : Delim) (hdepth : depthFor (listed pieces) ≤ depth) :
    startsType (listed pieces ++ rest) = true ∧ ∃ founds closes, List.Forall₂ Reflects types founds ∧
      ArgsRead (.level depth) ⟨listed pieces ++ rest, stop, delim, none⟩ founds
        ⟨.punct '>' closes .callSite :: rest, stop, delim, none⟩ := by
  induction h with
  | nil => contradiction
  | @cons type piece types pieces hfirst hrest ih =>
    obtain ⟨tokens, spacing⟩ := piece
    cases pieces with
    | nil =>
      cases hrest
      have hclose : overtAll (.punct '>' spacing .callSite :: rest) = true := by rw [overtAll, hovert]; rfl
      have htokens : depthFor tokens ≤ depth := by
        rw [listed, depthFor, sizeAll_append] at hdepth
        rw [depthFor]
        omega
      obtain ⟨hstarts, found, hreflects, harg⟩ := hfirst.arg hclose rfl stop delim htokens
      have hstart := close_of_startsType (by rw [overtAll_append, hfirst.overt, hclose]; rfl) hstarts
      rw [listed, List.append_assoc, List.singleton_append]
      exact ⟨hstarts, [found], spacing, .cons hreflects .nil, .last hstart harg (look_close spacing rest)⟩
    | cons next more =>
      have hlater : overtAll (listed (next :: more) ++ rest) = true := by
        rw [overtAll_append, overtAll_listed hrest, hovert]
        rfl
      have hcomma : overtAll (.punct ',' spacing .callSite :: (listed (next :: more) ++ rest)) = true := by
        rw [overtAll, hlater]
        rfl
      have hdepths : depthFor tokens ≤ depth ∧ depthFor (listed (next :: more)) ≤ depth := by
        rw [listed, depthFor, sizeAll_append, sizeAll] at hdepth
        rw [depthFor, depthFor]
        omega
      obtain ⟨hstarts, found, hreflects, harg⟩ := hfirst.arg hcomma rfl stop delim hdepths.1
      obtain ⟨-, founds, closes, hfounds, hread⟩ := ih (by simp) hdepths.2
      have hstart := close_of_startsType (by rw [overtAll_append, hfirst.overt, hcomma]; rfl) hstarts
      have hnext : Look.op ">" (.punct ',' spacing .callSite :: (listed (next :: more) ++ rest)) = false := by
        have htext : ">".toList = ['>'] := rfl
        rw [Look.op, htext, dropOp, bare_cons rfl]
        rfl
      rw [listed, List.append_assoc, List.cons_append]
      refine ⟨hstarts, found :: founds, closes, .cons hreflects hfounds, ?_⟩
      obtain ⟨second, later, rfl⟩ : ∃ second later, founds = second :: later := by
        cases hread <;> exact ⟨_, _, rfl⟩
      exact .more hstart harg hnext (op_punct rfl (by decide) _ _) hread

end Listed

section Container

variable {rooted : Bool} {modules : List String} {name : String}

variable {types : List Descriptor} {pieces : List (Tokens × Spacing)} {opens : Spacing}

/-- The tokens of a path with arguments. -/
def container (rooted : Bool) (modules : List String) (name : String) (opens : Spacing)
    (pieces : List (Tokens × Spacing)) : Tokens :=
  pathBefore rooted modules name (.punct '<' opens .callSite :: listed pieces)

/-- A container is read as a path with types that reflect its elements. -/
theorem type_container (h : List.Forall₂ (fun type piece => Conveys type piece.1) types pieces) (hne : pieces ≠ [])
    (hmodules : ∀ word ∈ modules, isKeyword word = false) (hname : isKeyword name = false)
    (hovert : overtAll rest = true) (hend : endsArg rest = true) (stop : Pos) (delim : Delim)
    (hdepth : depthFor (container rooted modules name opens pieces) ≤ depth) :
    ∃ founds, List.Forall₂ Reflects types founds ∧
      (Rules.level depth).type true ⟨container rooted modules name opens pieces ++ rest, stop, delim, none⟩ =
        .ok (.applied rooted modules name founds, ⟨rest, stop, delim, none⟩) := by
  have hsize := lt_sizeAll_pathBefore rooted modules name (.punct '<' opens .callSite :: listed pieces)
  rw [sizeAll] at hsize
  rw [depthFor, container] at hdepth
  obtain ⟨depth, rfl⟩ : ∃ k, depth = k + 1 := ⟨depth - 1, by omega⟩
  have hinside : depthFor (listed pieces) ≤ depth := by
    rw [depthFor]
    omega
  obtain ⟨hstarts, founds, closes, hfounds, hread⟩ := argsRead_listed h hne hovert stop delim hinside
  have hall : overtAll (listed pieces ++ rest) = true := by
    rw [overtAll_append, overtAll_listed h, hovert]
    rfl
  have hcount : founds.length ≤ sizeAll (listed pieces ++ rest) + 1 := by
    have hlength := length_le_sizeAll_listed pieces
    rw [← hfounds.length_eq, h.length_eq, sizeAll_append]
    omega
  refine ⟨founds, hfounds, ?_⟩
  rw [container, pathBefore_append, List.cons_append]
  exact type_applied rooted hmodules hname hall hstarts hcount hread hend

/-- A container conveys what a path with such arguments reflects. -/
theorem conveys_container (h : List.Forall₂ (fun type piece => Conveys type piece.1) types pieces) (hne : pieces ≠ [])
    (hmodules : ∀ word ∈ modules, isKeyword word = false) (hname : isKeyword name = false)
    (hreflects : ∀ founds, List.Forall₂ Reflects types founds → Reflects type (.applied rooted modules name founds)) :
    Conveys type (container rooted modules name opens pieces) where
  overt := by
    rw [container, overtAll_pathBefore, overtAll, overtAll_listed h]
    rfl
  read rest stop delim depth hovert hend hdepth := by
    obtain ⟨founds, hfounds, hread⟩ := type_container h hne hmodules hname hovert hend stop delim hdepth
    exact ⟨_, hreflects founds hfounds, hread⟩

end Container

/-- A name stands clear of the angle bracket before its arguments. -/
theorem clear_angle (name : String) (cs : List Char) : (Mark.ident name).clear ('<' :: cs) = true := by
  have hopens : Mark.opensQuote name ('<' :: cs) = false := by
    unfold Mark.opensQuote
    split <;> simp_all
  have hcontinue : Text.isIdentContinue '<' = false := by decide
  simp [Mark.clear, hcontinue, hopens]

/-- A sign of an argument list before a text that is spelled. -/
theorem spells_sign {cs : List Char} {found : List Lexeme} (h : Spells cs found) (c : Char)
    (hc : c = '<' ∨ c = ',' ∨ c = '>') : ∃ spacing, Spells (c :: cs) (.leaf (.punct c spacing .callSite) :: found) := by
  obtain rfl | rfl | rfl := hc
  all_goals exact ⟨_, h.sign (by decide) (by decide) (by decide)⟩

/-- A container with one element, written as a name with one argument. -/
theorem spelled_one {wrap : Descriptor → Descriptor} {name : String} (hlegible : (Mark.ident name).Legible)
    (hname : isKeyword name = false) (htext : ∀ inner, (wrap inner).text = name ++ "<" ++ inner.text ++ ">")
    (hshape : ∀ inner, container? name [inner] = some (wrap inner))
    (hresolve : ∀ inner, (wrap inner).resolve = wrap inner.resolve)
    (houtline : ∀ inner, (wrap inner).outline = wrap inner.outline) {inner : Descriptor} (h : Spelled inner) :
    Spelled (wrap inner) := by
  intro rest after hbreak hrest
  obtain ⟨closes, hclose⟩ := spells_sign hrest '>' (by simp)
  obtain ⟨tokens, hspells, hconveys⟩ := h _ _ (.cons (by decide) rest) hclose
  obtain ⟨opens, hopen⟩ := spells_sign hspells '<' (by simp)
  have hword := hopen.word hlegible (clear_angle name _)
  refine ⟨container false [] name opens [(tokens, closes)], ?_,
    conveys_container (.cons hconveys .nil) (by simp) (by simp) hname ?_⟩
  · have hangles : "<".toList = ['<'] ∧ ">".toList = ['>'] := ⟨rfl, rfl⟩
    simpa [htext, hangles, container, pathBefore, modulesBefore, listed, piecesAll, pieces, piecesAll_append]
      using hword
  · intro founds hfounds
    obtain ⟨found, more, hfound, hmore, rfl⟩ := List.forall₂_cons_left_iff.mp hfounds
    cases hmore
    have hfoundShape : shapeOf? (.applied false [] name [found]) =
        some (wrap ((shapeOf? found).getD (leaf found))) := by
      rw [Ty.shapeOf?_applied, List.map_singleton, hshape]
    refine ⟨?_, ?_⟩
    · rw [hfoundShape, Option.getD_some, houtline, hfound.outline, hresolve, houtline]
    · rw [hfoundShape]
      simp

theorem spells_separator {cs : List Char} {found : List Lexeme} (hstarts : startsPunct cs = false)
    (h : Spells cs found) :
    Spells (':' :: ':' :: cs)
      (.leaf (.punct ':' .joint .callSite) :: .leaf (.punct ':' .alone .callSite) :: found) := by
  have hsecond := h.sign (c := ':') (by decide) (by decide) (by decide)
  have hfirst := hsecond.sign (c := ':') (by decide) (by decide) (by decide)
  have halone : spacingBefore ':' cs = .alone := by simp [spacingBefore, hstarts]
  have hjoint : spacingBefore ':' (':' :: cs) = .joint := rfl
  rwa [halone, hjoint] at hfirst

/-- A map, written as a rooted path with two arguments. -/
theorem spelled_map {key value : Descriptor} (hkey : Spelled key) (hvalue : Spelled value) :
    Spelled (map key value) := by
  intro rest after hbreak hrest
  obtain ⟨closes, hclose⟩ := spells_sign hrest '>' (by simp)
  obtain ⟨valueTokens, hvalueSpells, hvalueConveys⟩ := hvalue _ _ (.cons (by decide) rest) hclose
  obtain ⟨parts, hcomma⟩ := spells_sign (hvalueSpells.blank (c := ' ') rfl) ',' (by simp)
  obtain ⟨keyTokens, hkeySpells, hkeyConveys⟩ := hkey _ _ (.cons (by decide) _) hcomma
  obtain ⟨opens, hopen⟩ := spells_sign hkeySpells '<' (by simp)
  have hname := @Spells.word _ _ "HashMap" (.inl (by decide)) (clear_angle _ _) hopen
  have hinner := @Spells.word _ _ "collections" (.inl (by decide)) (clear_word _ (by decide) _)
    (spells_separator rfl hname)
  have houter := @Spells.word _ _ "std" (.inl (by decide)) (clear_word _ (by decide) _) (spells_separator rfl hinner)
  have hroot := spells_separator rfl houter
  refine ⟨container true ["std", "collections"] "HashMap" opens [(keyTokens, parts), (valueTokens, closes)], ?_, ?_⟩
  rotate_right
  · refine conveys_container (.cons hkeyConveys (.cons hvalueConveys .nil)) (by simp) (by decide) (by decide) ?_
    intro founds hfounds
    obtain ⟨foundKey, more, hfoundKey, hmore, rfl⟩ := List.forall₂_cons_left_iff.mp hfounds
    obtain ⟨foundValue, more, hfoundValue, hmore, rfl⟩ := List.forall₂_cons_left_iff.mp hmore
    cases hmore
    refine ⟨?_, ?_⟩
    · rw [Ty.shapeOf?_applied, resolve, outline, ← hfoundKey.outline, ← hfoundValue.outline]
      rfl
    · rw [Ty.shapeOf?_applied]
      simp [container?]
  · have htext : (map key value).text = "::std::collections::HashMap<" ++ key.text ++ ", " ++ value.text ++ ">" := rfl
    have hfront : "::std::collections::HashMap<".toList = ':' :: ':' :: ("std".toList ++ ':' :: ':' ::
      ("collections".toList ++ ':' :: ':' :: ("HashMap".toList ++ ['<']))) := rfl
    have hsigns : ", ".toList = [',', ' '] ∧ ">".toList = ['>'] := ⟨rfl, rfl⟩
    have hsign : sign "::" = [.punct ':' .joint .callSite, .punct ':' .alone .callSite] := rfl
    rw [htext]
    simp only [String.toList_append, hfront, hsigns, List.append_assoc, List.cons_append, List.nil_append, container,
      pathBefore, if_true, hsign, modulesBefore, listed, piecesAll, pieces, piecesAll_append]
    exact hroot

/-- The text of a descriptor whose names are closed texts of types is spelled with tokens that convey it. -/
theorem spelled_of_wellNamed (h : type.wellNamed = true) : Spelled type := by
  induction type with
  | named name =>
    rw [wellNamed, Bool.and_eq_true] at h
    cases hparse : parseText parseType name with
    | error error => simp [hparse, Except.toOption] at h
    | ok type => exact spelled_named h.1 hparse (by simpa [hparse, Except.toOption] using h.2)
  | array element ih =>
    exact @spelled_one array "Vec" (.inl (by decide)) (by decide) (fun _ => rfl) (fun _ => rfl) (fun _ => rfl)
      (fun _ => rfl) _ (ih h)
  | map key value ihkey ihvalue =>
    rw [wellNamed, Bool.and_eq_true] at h
    exact spelled_map (ihkey h.1) (ihvalue h.2)
  | optional inner ih =>
    exact @spelled_one optional "Option" (.inl (by decide)) (by decide) (fun _ => rfl) (fun _ => rfl) (fun _ => rfl)
      (fun _ => rfl) _ (ih h)
  | callable shown bounds escapes => contradiction

/-! ## Texts as descriptors -/

/-- The tokens that convey a descriptor are a type that reflects it. -/
theorem Conveys.parse (h : Conveys type tokens) : ∃ found, Reflects type found ∧ parseType tokens = .ok found := by
  obtain ⟨found, hreflects, hfound⟩ := h.read [] .callSite .invisible (depthFor tokens) rfl rfl (Nat.le_refl _)
  rw [List.append_nil] at hfound
  refine ⟨found, hreflects, ?_⟩
  rw [parseType, parseWith, parseAll, Rules.forTokens, hfound]
  rfl

/-- The text of a descriptor is parsed as a type that reflects it. -/
theorem parse_text (h : type.wellNamed = true) :
    ∃ found, parseText parseType type.text = .ok found ∧ Reflects type found := by
  obtain ⟨tokens, hspells, hconveys⟩ := spelled_of_wellNamed h [] [] .nil .nil
  rw [List.append_nil, List.append_nil] at hspells
  obtain ⟨placed, hread, rfl⟩ := hspells.read
  obtain ⟨flat, hreflects, hflat⟩ := hconveys.parse
  have hretouch : parseType (retouch Shift.flat.toRetouch placed) = retouch Shift.flat.toRetouch (parseType placed) :=
    parseWith_retouch Shift.flat (fun _ _ => inferInstance) placed
  rw [hretouch] at hflat
  cases hparse : parseType placed with
  | error error =>
    rw [hparse] at hflat
    cases hflat
  | ok found =>
    rw [hparse] at hflat
    cases hflat
    exact ⟨found, by rw [parseText, hread]; exact hparse, (reflects_retouch Shift.flat).mp hreflects⟩

/-- The text of a descriptor has the outline of the descriptor. -/
theorem outline_text (h : type.wellNamed = true) : (named type.text).resolve.outline = type.resolve.outline := by
  obtain ⟨found, hparse, hreflects⟩ := parse_text h
  cases hshape : shapeOf? found with
  | some shape =>
    have hresolve : (named type.text).resolve = (shapeOf? found).getD (named type.text) := by
      rw [resolve, shape_named, hparse]
    have houtline := hreflects.outline
    rw [hshape, Option.getD_some] at houtline
    rw [hresolve, hshape, Option.getD_some, houtline]
  | none =>
    obtain ⟨name, rfl⟩ := hreflects.structured hshape
    rfl

end Descriptor

namespace Value

/-- A value is fitted to a descriptor as it is to the text of the descriptor, if every name in the descriptor is a
closed text of a steady type: containers that are given and containers that are written out are followed alike, at
every depth. -/
theorem lower_named_text {type : Descriptor} (h : type.wellNamed = true) (value : Value) :
    value.lower (some type) = value.lower (some (.named type.text)) :=
  lower_eq_of_outline (Descriptor.outline_text h).symm value

/-- Nested optional lists in a map, of which the innermost are part of a name. -/
theorem nestedMap_lower_named_text :
    (Descriptor.map .string (.optional (.optional (.array (.named "Vec<Option<u8>>"))))).wellNamed = true ∧
      (Value.map [(.text "\"a\"" .callSite, .array [.array [.whole false "1", .absent]])]).lower
          (some (.map .string (.optional (.optional (.array (.named "Vec<Option<u8>>")))))) =
        (Value.map [(.text "\"a\"" .callSite, .array [.array [.whole false "1", .absent]])]).lower
          (some (.named
            (Descriptor.map .string (.optional (.optional (.array (.named "Vec<Option<u8>>"))))).text)) := by
  refine (fun hnames => ⟨hnames, lower_named_text hnames _⟩) ?_
  decide +kernel

end Value

end Fieldwise
