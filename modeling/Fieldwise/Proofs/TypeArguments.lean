import Fieldwise.Proofs.Outlines
import Fieldwise.Proofs.ValueTokens

/-!
# Types before other tokens

Tokens that are a type are that type before whatever can follow a type, and what a type begins with is told from its
first token. So types that stand as arguments between angle brackets are read one by one, and a path with such
arguments is read as the type that it is put together from.
-/

namespace Fieldwise.Grammar

open Fieldwise.Grammar.Parser Fieldwise.Token

/-! ## What types begin with -/

theorem choose_error {α : Type} {named : List (String × (Tokens → Bool) × Parser α)} {s : Stream}
    (h : ∀ entry ∈ named, entry.2.1 s.tokens = false) : ∃ error, choose named s = .error error := by
  unfold choose
  generalize named.map Prod.fst = names
  induction named with
  | nil => exact ⟨_, rfl⟩
  | cons entry rest ih =>
    obtain ⟨name, test, parser⟩ := entry
    have htest : test s.tokens = false := h _ List.mem_cons_self
    rw [choose.go, bind_run, look_run, ok_bind, htest]
    exact ih fun entry hmem => h entry (List.mem_cons_of_mem _ hmem)

/-- The words that types begin with beside names. -/
def typeWords : List String := ["for", "fn", "unsafe", "extern", "dyn", "impl", "_"] ++ pathWords

/-- Whether visible tokens begin like a type. -/
def startsType : Tokens → Bool
  | .ident name _ :: _ => !isKeyword name || typeWords.contains name
  | .punct c _ _ :: _ => [':', '<', '*', '&', '!', '\''].contains c
  | .group delim _ _ _ :: _ => delim == .paren || delim == .bracket
  | _ => false

section Starts

variable {tokens : Tokens} (hovert : overtAll tokens = true)
include hovert

theorem startsType_of_word {name : String} (hname : name ∈ typeWords) (h : Look.word name tokens = true) :
    startsType tokens = true := by
  rw [Look.word, bare_overt hovert] at h
  split at h
  · rw [beq_iff_eq] at h
    subst h
    simp [startsType, hname]
  · contradiction

theorem startsType_of_ident (h : Look.ident tokens = true) : startsType tokens = true := by
  rw [Look.ident, bare_overt hovert] at h
  split at h
  · rw [startsType, h, Bool.true_or]
  · contradiction

theorem startsType_of_op {text : String} {c : Char} {more : List Char} (htext : text.toList = c :: more)
    (hc : [':', '<', '*', '&', '!', '\''].contains c = true) (h : Look.op text tokens = true) :
    startsType tokens = true := by
  rw [Look.op, htext, dropOp, bare_overt hovert] at h
  split at h
  · rename_i d spacing pos rest
    split at h
    · rename_i hsame
      rw [startsType, ← hsame.1, hc]
    · contradiction
  · contradiction

theorem startsType_of_group {delim : Delim} (hdelim : delim = .paren ∨ delim = .bracket)
    (h : Look.group delim tokens = true) : startsType tokens = true := by
  have hbare := bare_overt hovert
  obtain rfl | rfl := hdelim
  all_goals
    simp only [Look.group, hbare] at h
    split at h
    · simp_all [startsType]
    · contradiction

theorem startsType_of_lifetime (h : Look.lifetime tokens = true) : startsType tokens = true := by
  rw [Look.lifetime, bare_overt hovert] at h
  split at h
  · rfl
  · contradiction

theorem look_invisible_of_overt : Look.group .invisible tokens = false := by
  rcases tokens with _ | ⟨_ | _ | _ | ⟨_ | _ | _ | _, _, _, _⟩, _⟩
  all_goals first | rfl | simp [overtAll, overt] at hovert

end Starts

theorem startsType_of_ok {depth : Nat} {allowPlus : Bool} {s t : Stream} {found : Ty}
    (hovert : overtAll s.tokens = true) (h : (Rules.level depth).type allowPlus s = .ok (found, t)) :
    startsType s.tokens = true := by
  cases depth with
  | zero => contradiction
  | succ depth =>
    by_contra hstarts
    have hword : ∀ name ∈ typeWords, Look.word name s.tokens = false := fun name hname =>
      Bool.eq_false_iff.mpr fun hlook => hstarts (startsType_of_word hovert hname hlook)
    have hident : Look.ident s.tokens = false :=
      Bool.eq_false_iff.mpr fun hlook => hstarts (startsType_of_ident hovert hlook)
    have hop {text : String} {c : Char} {more : List Char} (htext : text.toList = c :: more)
        (hc : [':', '<', '*', '&', '!', '\''].contains c = true) : Look.op text s.tokens = false :=
      Bool.eq_false_iff.mpr fun hlook => hstarts (startsType_of_op hovert htext hc hlook)
    have hgroup {delim : Delim} (hdelim : delim = .paren ∨ delim = .bracket) : Look.group delim s.tokens = false :=
      Bool.eq_false_iff.mpr fun hlook => hstarts (startsType_of_group hovert hdelim hlook)
    have hlifetime : Look.lifetime s.tokens = false :=
      Bool.eq_false_iff.mpr fun hlook => hstarts (startsType_of_lifetime hovert hlook)
    have hafter : ∃ error, typeAfter (.level depth) allowPlus none s = .error error := by
      rw [typeAfter, bind_run, look_run, ok_bind, if_neg (by simp)]
      refine choose_error ?_
      have hpath : Look.words pathWords s.tokens = false := by
        rw [Look.words, List.any_eq_false]
        exact fun name hname => by rw [hword name (List.mem_append_right _ hname)]; exact Bool.false_ne_true
      simp [hlifetime, hident, hpath, hgroup, Look.any, @hop "::" _ _ rfl rfl, @hop "<" _ _ rfl rfl,
        @hop "*" _ _ rfl rfl, @hop "&" _ _ rfl rfl, @hop "!" _ _ rfl rfl, hword "fn" (by decide),
        hword "unsafe" (by decide), hword "extern" (by decide), hword "dyn" (by decide), hword "impl" (by decide),
        hword "_" (by decide)]
    obtain ⟨error, herror⟩ := hafter
    have htype : (Rules.level (depth + 1)).type allowPlus = Grammar.type (.level depth) allowPlus := rfl
    rw [htype, Grammar.type, bind_run, look_run, ok_bind, look_invisible_of_overt hovert, if_neg Bool.false_ne_true,
      bind_run, binder?, bind_run, look_run, ok_bind, hword "for" (by decide), if_neg Bool.false_ne_true,
      pure_run, ok_bind, herror] at h
    contradiction

theorem type_question {depth : Nat} {allowPlus : Bool} {s t : Stream} {found : Ty} (hovert : overtAll s.tokens = true)
    (h : (Rules.level depth).type allowPlus s = .ok (found, t)) : Look.op "?" s.tokens = false := by
  have hstarts := startsType_of_ok hovert h
  have htext : "?".toList = ['?'] := rfl
  rw [Look.op, htext, dropOp, bare_overt hovert]
  generalize s.tokens = tokens at hstarts
  unfold startsType at hstarts
  split at hstarts <;> grind

section Lifetime

variable (pos place : Pos) (name : String) (rest : Tokens)

/-- A lifetime before other tokens. -/
def lifetimeBefore : Tokens := .punct '\'' .joint pos :: .ident name place :: rest

theorem bare_lifetimeBefore : bare (lifetimeBefore pos place name rest) = lifetimeBefore pos place name rest :=
  bare_cons rfl _

theorem look_lifetimeBefore : Look.lifetime (lifetimeBefore pos place name rest) = true := by
  rw [Look.lifetime, bare_lifetimeBefore]
  rfl

theorem op_lifetimeBefore {text : String} {c : Char} {more : List Char} (htext : text.toList = c :: more) :
    Look.op text (lifetimeBefore pos place name rest) = false := by
  rw [Look.op, htext, dropOp, bare_lifetimeBefore, lifetimeBefore]
  grind

/-- A lifetime without a plus sign after it is a bound alone. -/
theorem bounds_of_lifetime {rules : Rules} {allowPlus allowCapture allowConst : Bool} {stop : Pos} {delim : Delim}
    {leftover : Option (Pos × Delim)} (h : Look.op "+" rest = false) :
    bounds rules allowPlus allowCapture allowConst ⟨lifetimeBefore pos place name rest, stop, delim, leftover⟩ =
      .ok (⟨[.lifetime ⟨pos, ⟨name, place⟩⟩], false⟩, ⟨rest, stop, delim, leftover⟩) := by
  have hlifetime : lifetime ⟨lifetimeBefore pos place name rest, stop, delim, leftover⟩ =
      .ok (⟨pos, ⟨name, place⟩⟩, ⟨rest, stop, delim, leftover⟩) := by
    rw [lifetime, bare_lifetimeBefore]
    rfl
  have hbound : Grammar.bound rules allowCapture allowConst
      ⟨lifetimeBefore pos place name rest, stop, delim, leftover⟩ =
        .ok (.lifetime ⟨pos, ⟨name, place⟩⟩, ⟨rest, stop, delim, leftover⟩) := by
    rw [Grammar.bound, bind_run, look_run, ok_bind, look_lifetimeBefore, if_pos rfl, bind_run, hlifetime, ok_bind,
      pure_run]
  have hrounds (s : Stream) : rounds s = .ok (sizeAll s.tokens + 1, s) := rfl
  rw [bounds, bind_run, hrounds, ok_bind, bounds.go, bind_run, hbound, ok_bind]
  cases allowPlus with
  | false => rfl
  | true => rw [bind_run, look_run, ok_bind, h]; rfl

/-- A lifetime without a plus sign after it is no type. -/
theorem type_lifetimeBefore {depth : Nat} {allowPlus : Bool} {stop : Pos} {delim : Delim}
    {leftover : Option (Pos × Delim)} (h : Look.op "+" rest = false) :
    ∃ error, (Rules.level depth).type allowPlus ⟨lifetimeBefore pos place name rest, stop, delim, leftover⟩ =
      .error error := by
  cases depth with
  | zero => exact ⟨_, rfl⟩
  | succ depth =>
    have hbare := bare_lifetimeBefore pos place name rest
    have hword (text : String) : Look.word text (lifetimeBefore pos place name rest) = false := by
      rw [Look.word, hbare]
      rfl
    have hgroup (found : Delim) : Look.group found (lifetimeBefore pos place name rest) = false := by
      cases found <;> simp only [Look.group, hbare] <;> rfl
    have hident : Look.ident (lifetimeBefore pos place name rest) = false := by
      rw [Look.ident, hbare]
      rfl
    have hop {text : String} {c : Char} {more : List Char} (htext : text.toList = c :: more) :=
      op_lifetimeBefore pos place name rest htext
    have htype : (Rules.level (depth + 1)).type allowPlus = Grammar.type (.level depth) allowPlus := rfl
    have hhere (s : Stream) : here s = .ok (s.here, s) := rfl
    refine ⟨⟨pos, .violated "at least one trait is required for an object type"⟩, ?_⟩
    simp only [htype, Grammar.type, binder?, bind_run, look_run, ite_run, hgroup, ok_bind, Bool.false_eq_true, if_false,
      hword, pure_run, typeAfter, choose, choose.go, Option.isSome_none, Bool.false_and, Look.any, Look.words,
      List.any_cons, List.any_nil, hident, Bool.or_false, pathWords, @hop "::" _ _ rfl, @hop "<" _ _ rfl,
      @hop "*" _ _ rfl, @hop "&" _ _ rfl, @hop "!" _ _ rfl, look_lifetimeBefore, if_true, traitObject, objectBounds, word?,
      hhere, bounds_of_lifetime pos place name rest h]
    rfl

end Lifetime

/-- A type that begins with a lifetime has a plus sign after it. -/
theorem second_plus_of_lifetime {depth : Nat} {allowPlus : Bool} {s t : Stream} {found : Ty}
    (hovert : overtAll s.tokens = true) (h : (Rules.level depth).type allowPlus s = .ok (found, t))
    (hlifetime : Look.lifetime s.tokens = true) : Look.second (Look.op "+") s.tokens = true := by
  obtain ⟨tokens, stop, delim, leftover⟩ := s
  have hbare : bare tokens = tokens := bare_overt hovert
  rw [Look.lifetime, hbare] at hlifetime
  split at hlifetime
  · rename_i pos name place rest
    rw [Look.second, dropTree, hbare]
    change Look.op "+" rest = true
    by_contra hplus
    obtain ⟨error, herror⟩ := @type_lifetimeBefore pos place name rest depth allowPlus stop delim leftover
      (Bool.eq_false_iff.mpr hplus)
    exact absurd (h.symm.trans herror) (by simp)
  · contradiction

/-! ## What follows types -/

theorem tokens_eq_nil_of_remainder {s : Stream} (hovert : overtAll s.tokens = true) (h : s.remainder = none) :
    s.tokens = [] := by
  obtain ⟨tokens, stop, delim, leftover⟩ := s
  rcases tokens with _ | ⟨token, rest⟩
  · rfl
  rw [overtAll, Bool.and_eq_true] at hovert
  rcases token with _ | _ | _ | ⟨_ | _ | _ | _, _, _, _⟩ <;>
    simp_all [Stream.remainder, visibleAmong, visibleIn, overt]

/-- Tokens that are a type are a type like it before other tokens, by all rules that are deep enough. -/
theorem type_closed {q : Sequel} {tokens : Tokens} {found : Ty} {depth : Nat} (hne : tokens ≠ [])
    (hended : Ended tokens q.rest) (hparse : parseType tokens = .ok found) (hdepth : depthFor tokens ≤ depth) :
    ∃ again, KinType q found again ∧ (Rules.level depth).type true ⟨q.linked tokens ++ q.rest, q.stop, q.delim, none⟩ =
      .ok (again, ⟨q.rest, q.stop, q.delim, none⟩) := by
  obtain ⟨⟨hcloses, -⟩, -⟩ := Closes.level q depth
  obtain ⟨hextends, -⟩ := Extends.level q (depthFor tokens)
  obtain ⟨after, hrun, hleftover, hremainder⟩ := parseAll_run hparse
  have hsuffix := (hextends true).suffix _ _ _ hended.overt hrun
  have hnil := tokens_eq_nil_of_remainder (overtAll_of_suffix hsuffix hended.overt) hremainder
  have hdeep := ok_of_deeper (p := fun rules => rules.type true) (fun _ _ _ _ => inferInstance) hdepth hrun
  have hfits : q.fits tokens = true := by
    have hplus := hended.plus
    unfold Sequel.fits
    unfold endsPlus at hplus
    split <;> grind
  obtain ⟨-, again, hkin, hgrown⟩ := ((hcloses true).below (tokens.length + 1)).closed _ _ _ (Nat.lt_succ_self _)
    hended.overt hne hfits hdeep hnil
  refine ⟨again, hkin, ?_⟩
  simpa only [Sequel.grow, hnil, hleftover, Sequel.linked, List.nil_append] using hgrown

theorem type_before {q : Sequel} {tokens : Tokens} {found : Ty} {depth : Nat} (hapart : q.joins = false)
    (hne : tokens ≠ []) (hended : Ended tokens q.rest) (hparse : parseType tokens = .ok found)
    (hdepth : depthFor tokens ≤ depth) :
    (Rules.level depth).type true ⟨tokens ++ q.rest, q.stop, q.delim, none⟩ =
      .ok (found, ⟨q.rest, q.stop, q.delim, none⟩) := by
  obtain ⟨again, hkin, hagain⟩ := type_closed hne hended hparse hdepth
  obtain rfl := hkin.same hapart
  rwa [linked_apart hapart] at hagain

/-- Whether tokens end an argument between angle brackets. -/
def endsArg : Tokens → Bool
  | [] => true
  | .punct c _ _ :: _ => c == ',' || c == '>'
  | _ => false

theorem op_of_endsArg {tokens : Tokens} {text : String} {c : Char} {more : List Char} (hend : endsArg tokens = true)
    (htext : text.toList = c :: more) (hc : (c == ',' || c == '>') = false) : Look.op text tokens = false := by
  rw [Look.op, htext]
  unfold endsArg at hend
  split at hend
  · rfl
  · rename_i d spacing pos rest
    have hne : c ≠ d := by
      rintro rfl
      rw [hc] at hend
      contradiction
    rw [dropOp, bare_cons rfl]
    simp [hne]
  · contradiction

/-! ## Arguments -/

theorem startsConst_of_startsType {tokens : Tokens} (hovert : overtAll tokens = true) (h : startsType tokens = true) :
    startsConst tokens = false := by
  have hbare := bare_overt hovert
  unfold startsType at h
  split at h
  · rename_i name pos rest
    have hword : name ≠ "true" ∧ name ≠ "false" := by
      constructor <;> (rintro rfl; revert h; decide)
    simp [startsConst, Look.any, lookLit, lit?, Look.group, hbare, hword]
  · rename_i c spacing pos rest
    have hminus : c ≠ '-' := by
      rintro rfl
      contradiction
    have hlit : lit? (.punct c spacing pos :: rest) = none := by
      unfold lit?
      rw [hbare]
      split <;> simp_all
    simp [startsConst, Look.any, lookLit, hlit, Look.group, hbare]
  · rename_i delim body opening closing rest
    have hbrace : delim ≠ .brace := by
      rintro rfl
      contradiction
    simp [startsConst, Look.any, lookLit, lit?, Look.group, hbare, hbrace]
  · contradiction

/-- A type before the end of an argument is an argument. -/
theorem genericArg_of_type {depth : Nat} {s t : Stream} {found : Ty} (hovert : overtAll s.tokens = true)
    (hend : endsArg t.tokens = true) (h : (Rules.level depth).type true s = .ok (found, t)) :
    genericArg (.level depth) s = .ok (.type found, t) := by
  have hlifetime : (Look.lifetime s.tokens && !Look.second (Look.op "+") s.tokens) = false := by
    cases hlook : Look.lifetime s.tokens with
    | false => rfl
    | true => rw [second_plus_of_lifetime hovert h hlook]; rfl
  have hconst := startsConst_of_startsType hovert (startsType_of_ok hovert h)
  rw [genericArg, bind_run, look_run, ok_bind, hlifetime, if_neg Bool.false_ne_true, bind_run, look_run, ok_bind,
    hconst, if_neg Bool.false_ne_true, bind_run, h, ok_bind]
  cases genericArg.soleSegment? found with
  | none => rfl
  | some pair =>
    have hequals : Look.op "=" t.tokens = false := op_of_endsArg hend rfl rfl
    have hcolon : Look.op ":" t.tokens = false := op_of_endsArg hend rfl rfl
    simp only [bind_run, look_run, ok_bind, hequals, hcolon, Bool.false_eq_true, if_false]
    rfl

/-- Types with commas between them, before a closing angle bracket. -/
inductive ArgsRead (rules : Rules) : Stream → List Ty → Stream → Prop
  | last {s t : Stream} {a : Ty} (hstart : Look.op ">" s.tokens = false) (harg : genericArg rules s = .ok (.type a, t))
      (hend : Look.op ">" t.tokens = true) : ArgsRead rules s [a] t
  | more {s t u v : Stream} {a b : Ty} {rest : List Ty} {comma : Tokens} (hstart : Look.op ">" s.tokens = false)
      (harg : genericArg rules s = .ok (.type a, t)) (hnext : Look.op ">" t.tokens = false)
      (hcomma : op "," t = .ok (comma, u)) (hrest : ArgsRead rules u (b :: rest) v) :
      ArgsRead rules s (a :: b :: rest) v

/-- Such arguments are read within a bound that exceeds their number. -/
theorem go_of_argsRead {rules : Rules} {s t : Stream} {args : List Ty} (h : ArgsRead rules s args t) {n : Nat}
    (hn : args.length ≤ n) :
    separatedUntil.go (Look.op ">") "," (genericArg rules) n s = .ok (⟨args.map .type, false⟩, t) := by
  induction h generalizing n with
  | last hstart harg hend =>
    obtain ⟨n, rfl⟩ : ∃ k, n = k + 1 := ⟨n - 1, by simp at hn; omega⟩
    simp only [separatedUntil.go, bind_run, look_run, ok_bind, ite_run, hstart, harg, hend, pure_run,
      Bool.false_eq_true, if_false, if_true, List.map_cons, List.map_nil]
  | more hstart harg hnext hcomma hrest ih =>
    obtain ⟨n, rfl⟩ : ∃ k, n = k + 1 := ⟨n - 1, by simp at hn; omega⟩
    have hlater := @ih n (by simpa using hn)
    simp only [separatedUntil.go, bind_run, look_run, ok_bind, ite_run, hstart, harg, hnext, hcomma, hlater, pure_run,
      Bool.false_eq_true, if_false]
    rfl

section Applied

variable {rules : Rules} {stop : Pos} {delim : Delim} {args : List Ty} {inside rest : Tokens} {spacing : Spacing}

theorem op_punct {text : String} {c : Char} (htext : text.toList = [c]) (hc : c ≠ '\'') (pos : Pos)
    (leftover : Option (Pos × Delim)) :
    op text ⟨.punct c spacing pos :: rest, stop, delim, leftover⟩ =
      .ok (Token.operator pos [c], ⟨rest, stop, delim, leftover⟩) := by
  have hdrop : dropOp text.toList (.punct c spacing pos :: rest) = some rest := by
    rw [htext, dropOp, bare_cons rfl]
    simp [hc]
  rw [op, hdrop, htext]
  rfl

theorem angleArgs_of_argsRead {opening closing : Pos} {closes : Spacing}
    (hcount : args.length ≤ sizeAll inside + 1)
    (h : ArgsRead rules ⟨inside, stop, delim, none⟩ args ⟨.punct '>' closes closing :: rest, stop, delim, none⟩) :
    angleArgs rules ⟨.punct '<' spacing opening :: inside, stop, delim, none⟩ =
      .ok (.angle false (args.map .type) false, ⟨rest, stop, delim, none⟩) := by
  have hcolon : Look.op "::" (.punct '<' spacing opening :: inside) = false := by
    have htext : "::".toList = [':', ':'] := rfl
    rw [Look.op, htext, dropOp, bare_cons rfl]
    rfl
  have hitems : separatedUntil (Look.op ">") "," (genericArg rules) ⟨inside, stop, delim, none⟩ =
      .ok (⟨args.map .type, false⟩, ⟨.punct '>' closes closing :: rest, stop, delim, none⟩) := go_of_argsRead h hcount
  rw [angleArgs, bind_run, op?, bind_run, look_run, ok_bind, hcolon, if_neg Bool.false_ne_true, pure_run, ok_bind,
    bind_run, op_punct rfl (by decide), ok_bind, bind_run, hitems, ok_bind, bind_run, op_punct rfl (by decide), ok_bind]
  rfl

theorem segment_of_name {name : String} (h : isKeyword name = false) (exprStyle : Bool) (pos : Pos)
    (leftover : Option (Pos × Delim)) :
    Grammar.segment rules exprStyle ⟨.ident name pos :: rest, stop, delim, leftover⟩ =
      if startsArgs exprStyle rest then
        (angleArgs rules ⟨rest, stop, delim, leftover⟩).bind fun r => .ok (.mk ⟨name, pos⟩ r.1, r.2)
      else .ok (.mk ⟨name, pos⟩ .none, ⟨rest, stop, delim, leftover⟩) := by
  have hword : ∀ keyword ∈ keywords, Look.word keyword (.ident name pos :: rest) = false := by
    intro keyword hmem
    have hne : name ≠ keyword := by
      rintro rfl
      simp [isKeyword, hmem] at h
    simp [Look.word, bare_ident, hne]
  simp only [Grammar.segment, bind_run, look_run, ok_bind, ite_run, Look.words, List.any_cons, List.any_nil,
    Bool.or_false, hword "super" (by decide), hword "self" (by decide), hword "crate" (by decide),
    hword "try" (by decide), hword "Self" (by decide), Bool.false_eq_true, if_false, Parser.ident, bare_ident, h]
  rfl

/-- The words of modules, with a path separator after each. -/
def modulesBefore : List String → Tokens → Tokens
  | [], rest => rest
  | word :: modules, rest => .ident word .callSite :: (sign "::" ++ modulesBefore modules rest)

theorem modulesBefore_head (modules : List String) (name : String) (rest : Tokens) :
    ∃ word more, modulesBefore modules (.ident name .callSite :: rest) = .ident word .callSite :: more := by
  cases modules with
  | nil => exact ⟨_, _, rfl⟩
  | cons word modules => exact ⟨_, _, rfl⟩

theorem dropOp_separator (rest : Tokens) : dropOp "::".toList (sign "::" ++ rest) = some rest := by
  have htext : "::".toList = [':', ':'] := rfl
  have hsign : sign "::" ++ rest = .punct ':' .joint .callSite :: .punct ':' .alone .callSite :: rest := rfl
  rw [htext, hsign, dropOp, bare_cons rfl]
  simp [dropOp, bare_cons (show (Token.punct ':' .alone .callSite).overt = true from rfl)]

theorem look_separator (rest : Tokens) : Look.op "::" (sign "::" ++ rest) = true := by
  rw [Look.op, dropOp_separator]
  rfl

theorem op_separator (leftover : Option (Pos × Delim)) :
    op "::" ⟨sign "::" ++ rest, stop, delim, leftover⟩ = .ok (sign "::", ⟨rest, stop, delim, leftover⟩) := by
  rw [op, dropOp_separator]
  rfl

/-- A word is what comes third after a path separator. -/
theorem third_separator (test : Tokens → Bool) (rest : Tokens) :
    Look.third test (sign "::" ++ rest) = test rest := by
  have hsign : sign "::" ++ rest = .punct ':' .joint .callSite :: .punct ':' .alone .callSite :: rest := rfl
  have hfirst : dropTree (sign "::" ++ rest) = some (.punct ':' .alone .callSite :: rest) := by
    rw [hsign, dropTree, bare_cons rfl]
    rfl
  have hsecond : dropTree (.punct ':' .alone .callSite :: rest) = some rest := by
    rw [dropTree, bare_cons rfl]
    rfl
  rw [Look.third, hfirst, Option.bind_some, hsecond]
  rfl

theorem startsArgs_separator (word : String) (pos : Pos) (rest : Tokens) :
    startsArgs false (sign "::" ++ .ident word pos :: rest) = false := by
  have hangle : Look.op "<" (sign "::" ++ .ident word pos :: rest) = false := by
    have htext : "<".toList = ['<'] := rfl
    have hsign : sign "::" = [.punct ':' .joint .callSite, .punct ':' .alone .callSite] := rfl
    rw [Look.op, htext, hsign, List.cons_append, dropOp, bare_cons rfl]
    rfl
  have hword : Look.op "<" (.ident word pos :: rest) = false := by
    have htext : "<".toList = ['<'] := rfl
    rw [Look.op, htext, dropOp, bare_ident]
    rfl
  rw [startsArgs, hangle, third_separator, hword]
  simp

theorem pathGoesOn_separator (word : String) (pos : Pos) (rest : Tokens) :
    pathGoesOn (sign "::" ++ .ident word pos :: rest) = true := by
  have hgroup : Look.group .paren (.ident word pos :: rest) = false := by simp only [Look.group, bare_ident]
  rw [pathGoesOn, look_separator, third_separator, hgroup]
  rfl

/-- Arguments follow a name before a type between angle brackets. -/
theorem startsArgs_angle (hovert : overtAll inside = true) (hstarts : startsType inside = true) (pos : Pos) :
    startsArgs false (.punct '<' spacing pos :: inside) = true := by
  have hangle : Look.op "<" (.punct '<' spacing pos :: inside) = true := by
    have htext : "<".toList = ['<'] := rfl
    rw [Look.op, htext, dropOp, bare_cons rfl]
    rfl
  have hless : Look.op "<=" (.punct '<' spacing pos :: inside) = false := by
    have htext : "<=".toList = ['<', '='] := rfl
    have hequals : dropOp ['='] inside = none := by
      rw [dropOp, bare_overt hovert]
      unfold startsType at hstarts
      split at hstarts <;> grind
    rw [Look.op, htext, dropOp, bare_cons rfl]
    simp [hequals]
  rw [startsArgs, hangle, hless]
  rfl

/-! ## Paths -/

variable {name : String} {modules : List String} {last : Segment} {tail : Tokens}

/-- The words of modules as segments. -/
def moduleSegments (modules : List String) : List Segment := modules.map fun word => .mk ⟨word, .callSite⟩ .none

theorem length_le_sizeAll (modules : List String) (rest : Tokens) :
    modules.length ≤ sizeAll (modulesBefore modules rest) := by
  induction modules with
  | nil => exact Nat.zero_le _
  | cons word modules ih =>
    have hone : (Token.ident word .callSite).size = 1 := rfl
    rw [modulesBefore, List.length_cons, sizeAll, sizeAll_append, hone]
    omega

theorem pathGoesOn_of_endsArg (h : endsArg rest = true) : pathGoesOn rest = false := by
  rw [pathGoesOn, op_of_endsArg h rfl rfl]
  rfl

theorem segments_go (hmodules : ∀ word ∈ modules, isKeyword word = false)
    (hlast : Grammar.segment rules false ⟨.ident name .callSite :: tail, stop, delim, none⟩ =
      .ok (last, ⟨rest, stop, delim, none⟩))
    (hend : endsArg rest = true) {n : Nat} (hn : modules.length + 1 < n) :
    repeatWhile.go pathGoesOn (do let _ ← op "::"; Grammar.segment rules false) n
        ⟨sign "::" ++ modulesBefore modules (.ident name .callSite :: tail), stop, delim, none⟩ =
      .ok (moduleSegments modules ++ [last], ⟨rest, stop, delim, none⟩) := by
  induction modules generalizing n with
  | nil =>
    obtain ⟨n, rfl⟩ : ∃ k, n = k + 2 := ⟨n - 2, by simp at hn; omega⟩
    simp only [modulesBefore, repeatWhile.go, bind_run, look_run, ok_bind, ite_run, pathGoesOn_separator, if_true,
      op_separator, hlast, pathGoesOn_of_endsArg hend, Bool.false_eq_true, if_false, pure_run]
    rfl
  | cons word modules ih =>
    obtain ⟨n, rfl⟩ : ∃ k, n = k + 1 := ⟨n - 1, by omega⟩
    obtain ⟨hword, hmodules⟩ := List.forall_mem_cons.mp hmodules
    obtain ⟨next, more, hnext⟩ := modulesBefore_head modules name tail
    have hlater := @ih hmodules n (by simpa using hn)
    have hargs : startsArgs false (sign "::" ++ modulesBefore modules (.ident name .callSite :: tail)) = false := by
      rw [hnext, startsArgs_separator]
    simp only [modulesBefore, repeatWhile.go, bind_run, look_run, ok_bind, ite_run, pathGoesOn_separator, if_true,
      op_separator, segment_of_name hword, hargs, Bool.false_eq_true, if_false, hlater, pure_run]
    rfl

/-- The tokens of a path up to its last name. -/
def pathBefore (rooted : Bool) (modules : List String) (name : String) (tail : Tokens) : Tokens :=
  (if rooted then sign "::" else []) ++ modulesBefore modules (.ident name .callSite :: tail)

theorem pathBefore_append (rooted : Bool) (modules : List String) (name : String) (tail rest : Tokens) :
    pathBefore rooted modules name tail ++ rest = pathBefore rooted modules name (tail ++ rest) := by
  have hmodules : modulesBefore modules (.ident name .callSite :: tail) ++ rest =
      modulesBefore modules (.ident name .callSite :: (tail ++ rest)) := by
    induction modules with
    | nil => rfl
    | cons word modules ih => rw [modulesBefore, modulesBefore, List.cons_append, List.append_assoc, ih]
  rw [pathBefore, List.append_assoc, hmodules, ← pathBefore]

theorem overtAll_pathBefore (rooted : Bool) (modules : List String) (name : String) (tail : Tokens) :
    overtAll (pathBefore rooted modules name tail) = overtAll tail := by
  have hmodules : overtAll (modulesBefore modules (.ident name .callSite :: tail)) = overtAll tail := by
    induction modules with
    | nil => rw [modulesBefore, overtAll]; rfl
    | cons word modules ih => rw [modulesBefore, overtAll, overtAll_append, ih]; rfl
  rw [pathBefore, overtAll_append, hmodules]
  cases rooted <;> rfl

theorem lt_sizeAll_pathBefore (rooted : Bool) (modules : List String) (name : String) (tail : Tokens) :
    sizeAll tail < sizeAll (pathBefore rooted modules name tail) := by
  have hmodules : sizeAll tail < sizeAll (modulesBefore modules (.ident name .callSite :: tail)) := by
    induction modules with
    | nil =>
      have hone : (Token.ident name .callSite).size = 1 := rfl
      rw [modulesBefore, sizeAll, hone]
      omega
    | cons word modules ih =>
      rw [modulesBefore, sizeAll, sizeAll_append]
      omega
  rw [pathBefore, sizeAll_append]
  omega

theorem path_of_last (rooted : Bool) (hmodules : ∀ word ∈ modules, isKeyword word = false)
    (hlast : Grammar.segment rules false ⟨.ident name .callSite :: tail, stop, delim, none⟩ =
      .ok (last, ⟨rest, stop, delim, none⟩))
    (hend : endsArg rest = true) :
    path rules false ⟨pathBefore rooted modules name tail, stop, delim, none⟩ =
      .ok ((rooted, moduleSegments modules ++ [last]), ⟨rest, stop, delim, none⟩) := by
  have hroot : op? "::" ⟨pathBefore rooted modules name tail, stop, delim, none⟩ =
      .ok (if rooted then some (sign "::") else none,
        ⟨modulesBefore modules (.ident name .callSite :: tail), stop, delim, none⟩) := by
    cases rooted with
    | true =>
      rw [op?, bind_run, look_run, ok_bind, pathBefore, if_pos rfl, look_separator, if_pos rfl, map_run, op_separator]
      rfl
    | false =>
      obtain ⟨word, more, hword⟩ := modulesBefore_head modules name tail
      have hnone : Look.op "::" (.ident word .callSite :: more) = false := by
        have htext : "::".toList = [':', ':'] := rfl
        rw [Look.op, htext, dropOp, bare_ident]
        rfl
      rw [op?, bind_run, look_run, ok_bind, pathBefore, if_neg Bool.false_ne_true, List.nil_append, hword, hnone]
      rfl
  have hrounds (s : Stream) : rounds s = .ok (sizeAll s.tokens + 1, s) := rfl
  rw [path, bind_run, hroot, ok_bind]
  cases modules with
  | nil =>
    simp only [modulesBefore, bind_run, hlast, ok_bind, moreSegments, repeatWhile, hrounds, repeatWhile.go, look_run,
      pathGoesOn_of_endsArg hend, Bool.false_eq_true, if_false, pure_run]
    cases rooted <;> rfl
  | cons word modules =>
    obtain ⟨hword, hmodules⟩ := List.forall_mem_cons.mp hmodules
    obtain ⟨next, more, hnext⟩ := modulesBefore_head modules name tail
    have hargs : startsArgs false (sign "::" ++ modulesBefore modules (.ident name .callSite :: tail)) = false := by
      rw [hnext, startsArgs_separator]
    have hsize := length_le_sizeAll modules (.ident name .callSite :: tail)
    have hlater := segments_go hmodules hlast hend
      (n := sizeAll (sign "::" ++ modulesBefore modules (.ident name .callSite :: tail)) + 1) (by
        rw [sizeAll_append]
        have htwo : sizeAll (sign "::") = 2 := rfl
        omega)
    simp only [modulesBefore, bind_run, segment_of_name hword, hargs, Bool.false_eq_true, if_false, ok_bind,
      moreSegments, repeatWhile, hrounds, hlater, pure_run]
    cases rooted <;> rfl

/-- A name at the front is no angle bracket, nor is the root of a path. -/
theorem angle_pathBefore (rooted : Bool) : Look.op "<" (pathBefore rooted modules name tail) = false := by
  have htext : "<".toList = ['<'] := rfl
  cases rooted with
  | true =>
    have hsign : sign "::" = [.punct ':' .joint .callSite, .punct ':' .alone .callSite] := rfl
    rw [pathBefore, if_pos rfl, hsign, List.cons_append, Look.op, htext, dropOp, bare_cons rfl]
    rfl
  | false =>
    obtain ⟨word, more, hword⟩ := modulesBefore_head modules name tail
    rw [pathBefore, if_neg Bool.false_ne_true, List.nil_append, hword, Look.op, htext, dropOp, bare_ident]
    rfl

/-- A type that begins with a name or with the root of a path is what the path is. -/
theorem type_pathBefore {depth : Nat} (rooted : Bool) (hmodules : ∀ word ∈ modules, isKeyword word = false)
    (hname : isKeyword name = false) :
    (Rules.level (depth + 1)).type true ⟨pathBefore rooted modules name tail, stop, delim, none⟩ =
      pathType (.level depth) none true ⟨pathBefore rooted modules name tail, stop, delim, none⟩ := by
  have htype : (Rules.level (depth + 1)).type true = Grammar.type (.level depth) true := rfl
  cases rooted with
  | true =>
    have hfront : pathBefore true modules name tail = .punct ':' .joint .callSite :: .punct ':' .alone .callSite ::
        modulesBefore modules (.ident name .callSite :: tail) := rfl
    have hlook : Look.op "::" (pathBefore true modules name tail) = true := look_separator _
    have hword (text : String) : Look.word text (pathBefore true modules name tail) = false := by
      rw [hfront, Look.word, bare_cons rfl]
    have hident : Look.ident (pathBefore true modules name tail) = false := by
      rw [hfront, Look.ident, bare_cons rfl]
    have hgroup (found : Delim) : Look.group found (pathBefore true modules name tail) = false := by
      have hbare := bare_cons (show (Token.punct ':' .joint .callSite).overt = true from rfl)
      cases found <;> simp only [hfront, Look.group, hbare]
    simp only [htype, Grammar.type, binder?, bind_run, look_run, ite_run, hgroup, ok_bind, Bool.false_eq_true, if_false,
      hword, pure_run, typeAfter, choose, choose.go, Option.isSome_none, Bool.false_and, Look.any, Look.words,
      List.any_cons, List.any_nil, hident, Bool.or_false, pathWords, hlook, if_true]
  | false =>
    obtain ⟨word, more, hfront, hfree⟩ : ∃ word more,
        pathBefore false modules name tail = .ident word .callSite :: more ∧ isKeyword word = false := by
      cases modules with
      | nil => exact ⟨name, tail, rfl, hname⟩
      | cons word modules => exact ⟨word, _, rfl, hmodules word List.mem_cons_self⟩
    have hident : Look.ident (pathBefore false modules name tail) = true := by
      rw [hfront, Look.ident, bare_ident]
      simp [hfree]
    have hword : ∀ keyword ∈ keywords, Look.word keyword (pathBefore false modules name tail) = false := by
      intro keyword hmem
      have hne : word ≠ keyword := by
        rintro rfl
        simp [isKeyword, hmem] at hfree
      simp [hfront, Look.word, bare_ident, hne]
    have hgroup (found : Delim) : Look.group found (pathBefore false modules name tail) = false := by
      cases found <;> simp only [hfront, Look.group, bare_ident]
    simp only [htype, Grammar.type, binder?, bind_run, look_run, ite_run, hgroup, ok_bind, Bool.false_eq_true, if_false,
      hword "for" (by decide), hword "fn" (by decide), hword "unsafe" (by decide), hword "extern" (by decide),
      pure_run, typeAfter, choose, choose.go, Option.isSome_none, Bool.false_and, Look.any, List.any_cons, hident,
      Bool.true_or, if_true]

/-- A path with its last segment is a type where an argument ends. -/
theorem type_of_last {depth : Nat} (rooted : Bool) (hmodules : ∀ word ∈ modules, isKeyword word = false)
    (hname : isKeyword name = false)
    (hlast : Grammar.segment (.level depth) false ⟨.ident name .callSite :: tail, stop, delim, none⟩ =
      .ok (last, ⟨rest, stop, delim, none⟩))
    (hend : endsArg rest = true) :
    (Rules.level (depth + 1)).type true ⟨pathBefore rooted modules name tail, stop, delim, none⟩ =
      .ok (.path rooted (moduleSegments modules ++ [last]), ⟨rest, stop, delim, none⟩) := by
  have hcall : (Look.op "!" rest && !Look.op "!=" rest) = false := by rw [op_of_endsArg hend rfl rfl]; rfl
  have hplus : Look.op "+" rest = false := op_of_endsArg hend rfl rfl
  have hqpath : qpath (.level depth) false ⟨pathBefore rooted modules name tail, stop, delim, none⟩ =
      .ok (⟨none, rooted, moduleSegments modules ++ [last]⟩, ⟨rest, stop, delim, none⟩) := by
    rw [qpath, bind_run, look_run, ok_bind, angle_pathBefore, if_neg Bool.false_ne_true, bind_run,
      path_of_last rooted hmodules hlast hend]
    rfl
  rw [type_pathBefore rooted hmodules hname, pathType, bind_run, hqpath, ok_bind]
  simp only [Option.isSome_none, Bool.false_eq_true, if_false, bind_run, look_run, ok_bind, hcall]
  cases QPath.words? ⟨none, rooted, moduleSegments modules ++ [last]⟩
  all_goals
    dsimp only
    rw [bind_run, look_run, ok_bind, hplus]
    rfl

/-- A path with types as arguments is the type that is put together from them. -/
theorem type_applied {depth : Nat} (rooted : Bool) (hmodules : ∀ word ∈ modules, isKeyword word = false)
    (hname : isKeyword name = false) (hovert : overtAll inside = true) (hstarts : startsType inside = true)
    {closes : Spacing} (hcount : args.length ≤ sizeAll inside + 1)
    (hargs : ArgsRead (.level depth) ⟨inside, stop, delim, none⟩ args
      ⟨.punct '>' closes .callSite :: rest, stop, delim, none⟩)
    (hend : endsArg rest = true) :
    (Rules.level (depth + 1)).type true
        ⟨pathBefore rooted modules name (.punct '<' spacing .callSite :: inside), stop, delim, none⟩ =
      .ok (.applied rooted modules name args, ⟨rest, stop, delim, none⟩) := by
  refine type_of_last rooted hmodules hname ?_ hend
  rw [segment_of_name hname, startsArgs_angle hovert hstarts, if_pos rfl, angleArgs_of_argsRead hcount hargs]
  rfl

end Applied

end Fieldwise.Grammar
