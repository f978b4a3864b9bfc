import Fieldwise.Proofs.TypeTokens
import Fieldwise.Proofs.ValueSequels

/-!
# The tokens of values that are no lists

Literals, the word for the absent value and runs of tokens are written with the tokens that they are read from, up to
places. So the tokens that such a value is written with begin with that value again, whatever ends it. This needs
that no literal has a minus sign of its own, which holds for all literals in a text.
-/

namespace Fieldwise

open Fieldwise.Grammar Fieldwise.Grammar.Parser Fieldwise.Token

variable {lit : Lit} {text : String} {token : Token}

/-! ## Tokens of a text -/

/-- Tokens as a text has them: all of them visible, and of the form of the tokens of a text. -/
structure Token.Lexed (tokens : Tokens) : Prop where
  /-- No group is invisible. -/
  solid : solidAll tokens = true
  /-- Words, characters and literals are of a form that can be read. -/
  legible : ∀ mark ∈ marksAll tokens, mark.Legible

theorem Tokens.read_lexed {source : String} {tokens : Tokens} (h : Tokens.read source = .ok tokens) :
    Lexed tokens := ⟨Tokens.read_solid h, Tokens.read_legible h⟩

namespace Token.Lexed

variable {tokens rest : Tokens}

theorem overt (h : Lexed tokens) : overtAll tokens = true := overtAll_of_solidAll h.solid

theorem of_suffix (h : Lexed tokens) (hsuffix : rest <:+ tokens) : Lexed rest := by
  refine ⟨solidAll_of_suffix hsuffix h.solid, fun mark hmark => h.legible mark ?_⟩
  obtain ⟨front, rfl⟩ := hsuffix
  rw [marksAll_append]
  exact List.mem_append_right _ hmark

theorem body {delim : Delim} {inside : Tokens} {opening closing : Pos}
    (h : Lexed (.group delim inside opening closing :: rest)) : Lexed inside := by
  have hsolid := h.solid
  rw [solidAll, Bool.and_eq_true] at hsolid
  have hdelim : delim ≠ .invisible := by
    rintro rfl
    exact Bool.false_ne_true hsolid.1
  refine ⟨?_, fun mark hmark => h.legible mark ?_⟩
  · cases delim <;> first | exact hsolid.1 | contradiction
  · rw [marksAll, marks_group hdelim]
    simp [hmark]

theorem literal {pos : Pos} (h : Lexed (.literal text pos :: rest)) : text.toList.head? ≠ some '-' := by
  have hlegible : (Mark.literal text).Legible := h.legible _ (by simp [marksAll, marks])
  intro hminus
  rcases hlegible with ⟨n, hquoted, -⟩ | rfl | ⟨hdigit, -⟩
  · obtain ⟨after, hafter⟩ := List.head?_eq_some_iff.mp hminus
    rw [hafter] at hquoted
    simp [Quoted.length] at hquoted
  · exact absurd hminus (by decide)
  · rw [hminus] at hdigit
    exact absurd hdigit (by decide)

end Token.Lexed

/-! ## Numbers -/

namespace Literal

/-- Whether a literal is a number. -/
def Kind.isNumber : Kind → Bool
  | .whole _ => true
  | .fraction _ => true
  | _ => false

/-- A minus sign changes nothing about the kind of a number. -/
theorem numberKind_minus {cs : List Char} (h : cs.head? ≠ some '-') : numberKind ('-' :: cs) = numberKind cs := by
  simp [numberKind, whole?, fraction?, h]

theorem digit_of_numberKind {cs : List Char} (hminus : cs.head? ≠ some '-') (h : numberKind cs ≠ .unknown) :
    cs.head?.any Text.isDigit = true := by
  by_contra hdigit
  rw [Bool.not_eq_true] at hdigit
  refine h ?_
  rcases cs with _ | ⟨c, rest⟩
  · rfl
  · have hc : Text.isDigit c = false := hdigit
    have hsign : c ≠ '-' := by simpa using hminus
    simp [numberKind, whole?, fraction?, hsign, hc]

/-- A literal that begins with a digit has the kind of a number. -/
theorem kind_of_digit (h : text.toList.head?.any Text.isDigit = true) : kind text = numberKind text.toList := by
  unfold kind
  split
  all_goals first | rfl | skip
  all_goals
    rename_i htext
    rw [htext] at h
    exact absurd h Bool.false_ne_true

theorem numberKind_cases (cs : List Char) : numberKind cs = .unknown ∨ (numberKind cs).isNumber = true := by
  unfold numberKind
  split
  · exact .inr rfl
  · split
    · exact .inr rfl
    · exact .inl rfl

/-- What is a number with a minus sign is one without it. -/
theorem kind_of_negative? {found : Kind} (hminus : text.toList.head? ≠ some '-') (h : negative? text = some found) :
    kind text = found ∧ found.isNumber = true := by
  unfold negative? at h
  rw [numberKind_minus hminus] at h
  split at h
  · contradiction
  · rename_i hknown
    cases h
    have hne : numberKind text.toList ≠ .unknown := hknown
    exact ⟨kind_of_digit (digit_of_numberKind hminus hne), (numberKind_cases _).resolve_left hne⟩

end Literal

namespace Value

/-! ## Literals -/

section Leading

variable {tokens rest : Tokens} {found : Value}

theorem lit?_literal (text : String) (pos : Pos) (rest : Tokens) :
    lit? (.literal text pos :: rest) =
      some (⟨text, some (Literal.kind text), pos, [.literal text pos]⟩, rest) := by
  rw [lit?, bare_cons rfl]

theorem lit?_minus (text : String) (spacing : Spacing) (pos at_ : Pos) (rest : Tokens) :
    lit? (.punct '-' spacing pos :: .literal text at_ :: rest) =
      (negative? text).map fun kind =>
        (⟨"-" ++ text, some kind, pos, [.punct '-' .alone pos, .literal text at_]⟩, rest) := by
  simp only [lit?, bare_cons (show (Token.punct '-' spacing pos).overt = true from rfl),
    bare_cons (show (Token.literal text at_).overt = true from rfl)]

theorem startsNumber_of_lit? (h : lit? tokens = some (lit, rest)) :
    startsNumber tokens = lit.kind.any Literal.Kind.isNumber := by
  rw [startsNumber, lookLitKind, h, Option.any_some]
  cases lit.kind with
  | none => rfl
  | some kind => cases kind <;> rfl

/-- A literal is a truth value, a token of its own, or a number with a minus sign. -/
theorem lit?_cases (hlexed : Lexed tokens) (h : lit? tokens = some (lit, rest)) :
    (∃ pos, lit.kind = none ∧ (lit.text = "true" ∨ lit.text = "false") ∧ tokens = .ident lit.text pos :: rest) ∨
    (lit = ⟨lit.text, some (Literal.kind lit.text), lit.pos, [.literal lit.text lit.pos]⟩ ∧
      lit.text.toList.head? ≠ some '-' ∧ tokens = .literal lit.text lit.pos :: rest) ∨
    (∃ text kind spacing at_, negative? text = some kind ∧ text.toList.head? ≠ some '-' ∧ lit.kind = some kind ∧
      lit.text = "-" ++ text ∧ tokens = .punct '-' spacing lit.pos :: .literal text at_ :: rest) := by
  rw [lit?, bare_overt hlexed.overt] at h
  split at h
  case h_1 text pos after =>
    cases h
    exact .inr (.inl ⟨rfl, hlexed.literal, rfl⟩)
  case h_2 name pos after =>
    split at h
    · rename_i hname
      cases h
      exact .inl ⟨pos, rfl, by simpa using hname, rfl⟩
    · contradiction
  case h_3 spacing pos after =>
    have hafter : Lexed after := hlexed.of_suffix (List.suffix_cons _ _)
    rw [bare_overt hafter.overt] at h
    split at h
    · rename_i text at_ after
      obtain ⟨kind, hkind, hfound⟩ := Option.map_eq_some_iff.mp h
      cases hfound
      exact .inr (.inr ⟨text, kind, spacing, at_, hkind, hafter.literal, rfl, rfl, rfl⟩)
    · contradiction
  case h_4 => contradiction

theorem literalTokens_of_unsigned (h : text.toList.head? ≠ some '-') :
    literalTokens text = [.literal text Pos.callSite] := by
  unfold literalTokens
  split
  · rename_i htext
    rw [htext] at h
    contradiction
  · rfl

theorem sign_minus : sign "-" = [.punct '-' .alone Pos.callSite] := rfl

theorem literalTokens_minus (text : String) :
    literalTokens ("-" ++ text) = sign "-" ++ [.literal text Pos.callSite] := by
  have htext : ("-" ++ text).toList = '-' :: text.toList := by simp
  rw [literalTokens, htext]
  simp

theorem leading?_ofLit (text : String) (pos : Pos) (hminus : text.toList.head? ≠ some '-') :
    leading? (ofLit false ⟨text, some (Literal.kind text), pos, [.literal text pos]⟩).tokens =
      some (ofLit false ⟨text, some (Literal.kind text), pos, [.literal text pos]⟩, []) := by
  have hliteral := literalTokens_of_unsigned hminus
  have hleading (at_ : Pos) : leading? [.literal text at_] =
      some (ofLit false ⟨text, some (Literal.kind text), at_, [.literal text at_]⟩, []) := by
    simp only [leading?, negated?, lit?_literal]
    rfl
  cases hkind : Literal.kind text <;> rw [hkind] at hleading <;>
    simp only [ofLit, tokens, hliteral, signTokens, Bool.false_eq_true, if_false, List.nil_append, hleading]

/-- So are those of a number, also of one that has a minus sign in its text. -/
theorem lit?_literalTokens (hlexed : Lexed tokens) (h : lit? tokens = some (lit, rest))
    (hnumber : lit.kind.any Literal.Kind.isNumber = true) :
    ∃ again : Lit,
      lit? (literalTokens lit.text) = some (again, []) ∧ again.text = lit.text ∧ again.kind = lit.kind := by
  rcases lit?_cases hlexed h with
    ⟨pos, hkind, -⟩ | ⟨hlit, hminus, -⟩ | ⟨text, kind, spacing, at_, hneg, hminus, hkind, htext, -⟩
  · rw [hkind] at hnumber
    contradiction
  · rw [hlit, literalTokens_of_unsigned hminus, lit?_literal]
    exact ⟨_, rfl, rfl, rfl⟩
  · rw [htext, literalTokens_minus, sign_minus, List.singleton_append, lit?_minus, hneg, hkind]
    exact ⟨_, rfl, rfl, rfl⟩

theorem leading?_number (hlexed : Lexed tokens) (h : lit? tokens = some (lit, rest))
    (hnumber : lit.kind.any Literal.Kind.isNumber = true) :
    leading? (ofLit true lit).tokens = some (ofLit true lit, []) := by
  obtain ⟨again, hagain, htext, hkind⟩ := lit?_literalTokens hlexed h hnumber
  have hsame : ofLit true again = ofLit true lit := by
    unfold ofLit
    rw [htext, hkind]
    split <;> simp_all [Literal.Kind.isNumber]
  have htokens : (ofLit true lit).tokens = .punct '-' .alone Pos.callSite :: literalTokens lit.text := by
    unfold ofLit
    split <;> first | rfl | simp_all [Literal.Kind.isNumber]
  have hstarts := startsNumber_of_lit? hagain
  rw [hkind, hnumber] at hstarts
  rw [htokens, leading?, negated?, if_pos hstarts, hagain, Option.map_some, hsame]
  rfl

/-- What is read as a literal is written as that literal. -/
theorem leading?_tokens (hlexed : Lexed tokens) (h : leading? tokens = some (found, rest)) :
    leading? found.tokens = some (found, []) := by
  unfold leading? at h
  rcases Option.or_eq_some_iff.mp h with h | ⟨-, habsent⟩
  · rcases Option.or_eq_some_iff.mp h with hneg | ⟨hneg, hmapped⟩
    · unfold negated? at hneg
      split at hneg
      case h_1 spacing pos after _ =>
        have hafter : Lexed after := hlexed.of_suffix (List.suffix_cons _ _)
        split at hneg
        · rename_i hstarts
          obtain ⟨⟨lit, left⟩, hlit, hfound⟩ := Option.map_eq_some_iff.mp hneg
          cases hfound
          rw [startsNumber_of_lit? hlit] at hstarts
          exact leading?_number hafter hlit hstarts
        · contradiction
      case h_2 => contradiction
    · obtain ⟨⟨lit, left⟩, hlit, hfound⟩ := Option.map_eq_some_iff.mp hmapped
      cases hfound
      rcases lit?_cases hlexed hlit with ⟨pos, hkind, hname, -⟩ | ⟨hlit, hminus, -⟩ |
        ⟨text, kind, spacing, at_, hnegative, hminus, -, -, htokens⟩
      · obtain ⟨text, _, pos, kept⟩ := lit
        obtain rfl : _ = none := hkind
        rcases hname with rfl | rfl <;> rfl
      · rw [hlit]
        exact leading?_ofLit _ _ hminus
      · -- A number after a minus sign has been found before.
        obtain ⟨hkind, hnumber⟩ := Literal.kind_of_negative? hminus hnegative
        have hstarts : startsNumber (.literal text at_ :: left) = true := by
          rw [startsNumber_of_lit? (lit?_literal text at_ left), hkind]
          exact hnumber
        rw [htokens, negated?, if_pos hstarts, lit?_literal] at hneg
        contradiction
  · unfold absent? at habsent
    split at habsent
    · split at habsent
      · cases habsent
        rfl
      · contradiction
    · contradiction

/-- A literal at the front, or the word for the absent value. -/
theorem ofLit_of_leading? (h : leading? tokens = some (found, rest)) :
    found = absent ∨ ∃ negative lit ts left, lit? ts = some (lit, left) ∧ found = ofLit negative lit := by
  unfold leading? at h
  rcases Option.or_eq_some_iff.mp h with h | ⟨-, habsent⟩
  · rcases Option.or_eq_some_iff.mp h with hneg | ⟨-, hmapped⟩
    · unfold negated? at hneg
      split at hneg
      · split at hneg
        · obtain ⟨⟨lit, left⟩, hlit, hfound⟩ := Option.map_eq_some_iff.mp hneg
          cases hfound
          exact .inr ⟨true, lit, _, left, hlit, rfl⟩
        · contradiction
      · contradiction
    · obtain ⟨⟨lit, left⟩, hlit, hfound⟩ := Option.map_eq_some_iff.mp hmapped
      cases hfound
      exact .inr ⟨false, lit, _, left, hlit, rfl⟩
  · unfold absent? at habsent
    split at habsent
    · split at habsent
      · cases habsent
        exact .inl rfl
      · contradiction
    · contradiction

theorem overtAll_literalTokens (text : String) : overtAll (literalTokens text) = true := by
  unfold literalTokens
  split <;> rfl

theorem overtAll_of_leading? (h : leading? tokens = some (found, rest)) : overtAll found.tokens = true := by
  rcases ofLit_of_leading? h with rfl | ⟨negative, lit, ts, left, hlit, rfl⟩
  · rfl
  have hsign : overtAll (signTokens negative) = true := by cases negative <;> rfl
  unfold ofLit
  split
  · rfl
  · rfl
  · rfl
  · rw [Value.tokens, overtAll_append, hsign, overtAll_literalTokens]
    rfl
  · rw [Value.tokens, overtAll_append, hsign, overtAll_literalTokens]
    rfl
  · exact overtAll_lit? hlit

end Leading

/-! ## Runs of tokens -/

section Runs

variable {tokens rest : Tokens} {found : Value}

/-- Whether a run ends is seen from a token that is no colon. -/
theorem stops_cons (h : ∀ spacing pos, token ≠ .punct ':' spacing pos) (rest more : Tokens) :
    stops (token :: rest) = stops (token :: more) := by
  rcases token with _ | ⟨c, spacing, pos⟩ | _ | _ <;> try rfl
  have hc : c ≠ ':' := by
    rintro rfl
    exact h _ _ rfl
  have hcolon : (c == ':') = false := by simpa using hc
  simp only [stops, hcolon, Bool.false_and]

/-- A colon does not go on a run, unless it begins a path separator. -/
theorem ne_colon_of_run (hstop : ¬stops (token :: rest) = true)
    (hpath : ∀ pos spacing at_ more, token = .punct ':' .joint pos → rest = .punct ':' spacing at_ :: more → False) :
    ∀ spacing pos, token ≠ .punct ':' spacing pos := by
  rintro spacing pos rfl
  refine hstop ?_
  have hseparates : separates (.punct ':' spacing pos :: rest) = false := by
    unfold separates
    grind
  simp [stops, hseparates]

theorem run_run (tokens : Tokens) : run (run tokens).1 = ((run tokens).1, []) := by
  fun_induction run tokens with
  | case1 => rfl
  | case2 pos spacing at_ rest ih =>
    have hoperator : operator pos [':', ':'] = [.punct ':' .joint pos, .punct ':' .alone pos] := rfl
    simp only [hoperator, List.cons_append, List.nil_append, run, ih]
  | case3 token rest hpath hstop => rfl
  | case4 token rest hpath hstop ih =>
    have hcolon := ne_colon_of_run hstop hpath
    rw [run, if_neg (by rwa [stops_cons hcolon _ rest]), ih]
    intro pos _ _ _ htoken
    exact absurd htoken (hcolon _ pos)

theorem overtAll_run (hovert : overtAll tokens = true) : overtAll (run tokens).1 = true := by
  fun_induction run tokens with
  | case1 => rfl
  | case2 pos spacing at_ rest ih =>
    rw [overtAll_append, overtAll_operator, ih (by simpa [overtAll, overt] using hovert)]
    rfl
  | case3 token rest hpath hstop => rfl
  | case4 token rest hpath hstop ih =>
    rw [overtAll, Bool.and_eq_true] at hovert
    rw [overtAll, hovert.1, ih hovert.2]
    rfl

/-- The first token of a run is the first one of all, unless it is a colon. -/
theorem run_cons {left : Tokens} (h : (run tokens).1 = token :: left)
    (hcolon : ∀ spacing pos, token ≠ .punct ':' spacing pos) :
    ∃ rest, tokens = token :: rest ∧ left = (run rest).1 := by
  revert h
  fun_cases run tokens with
  | case1 => simp
  | case2 pos spacing at_ rest =>
    intro h
    exact absurd (List.cons.inj h).1.symm (hcolon _ _)
  | case3 first rest hpath hstop => simp
  | case4 first rest hpath hstop =>
    rintro ⟨⟩
    exact ⟨rest, rfl, rfl⟩

/-- A literal at the front of a run is one at the front of all. -/
theorem lit?_of_run (hovert : overtAll tokens = true) (h : lit? (run tokens).1 = some (lit, rest)) :
    ∃ left, lit? tokens = some (lit, left) := by
  have hrun := overtAll_run hovert
  rw [lit?, bare_overt hrun] at h
  split at h
  case h_1 text pos after hfirst =>
    cases h
    obtain ⟨left, rfl, -⟩ := run_cons hfirst (by simp)
    exact ⟨left, lit?_literal text pos left⟩
  case h_2 name pos after hfirst =>
    obtain ⟨left, rfl, -⟩ := run_cons hfirst (by simp)
    rw [lit?, bare_cons rfl]
    split at h
    · rename_i hname
      cases h
      exact ⟨left, by simp only [hname, if_true]⟩
    · contradiction
  case h_3 spacing pos after hfirst =>
    obtain ⟨left, rfl, rfl⟩ := run_cons hfirst (by simp)
    have hleft : overtAll left = true := by simpa [overtAll, overt] using hovert
    rw [bare_overt (overtAll_run hleft)] at h
    split at h
    · rename_i text at_ after hsecond
      obtain ⟨left', rfl, -⟩ := run_cons hsecond (by simp)
      obtain ⟨kind, hkind, hfound⟩ := Option.map_eq_some_iff.mp h
      cases hfound
      exact ⟨left', by rw [lit?_minus, hkind]; rfl⟩
    · contradiction
  case h_4 => contradiction

theorem negated?_run (hovert : overtAll tokens = true) (h : negated? tokens = none) :
    negated? (run tokens).1 = none := by
  unfold negated?
  split
  · rename_i spacing pos left hfirst
    obtain ⟨after, rfl, rfl⟩ := run_cons hfirst (by simp)
    have hafter : overtAll after = true := by simpa [overtAll, overt] using hovert
    cases hlit : lit? (run after).1 with
    | none => simp
    | some found =>
      obtain ⟨lit, rest⟩ := found
      obtain ⟨left, hleft⟩ := lit?_of_run hafter hlit
      rw [negated?, startsNumber_of_lit? hleft, hleft] at h
      rw [startsNumber_of_lit? hlit]
      split
      · rename_i hnumber
        rw [if_pos hnumber] at h
        contradiction
      · rfl
  · rfl

theorem separates_run (h : separates tokens = true) : separates (run tokens).1 = true := by
  unfold separates at h
  split at h
  · rfl
  · contradiction

theorem paren_run (hovert : overtAll tokens = true) (h : Look.group .paren tokens = true) :
    Look.group .paren (run tokens).1 = true := by
  simp only [Look.group, bare_overt hovert] at h
  split at h
  · rename_i delim body opening closing rest
    have hrun : (run (.group delim body opening closing :: rest)).1 =
        .group delim body opening closing :: (run rest).1 := by simp [run, stops]
    have hovert' := overtAll_run hovert
    rw [hrun] at hovert' ⊢
    simpa only [Look.group, bare_overt hovert'] using h
  · contradiction

theorem absent?_run (hovert : overtAll tokens = true) (h : absent? tokens = none) : absent? (run tokens).1 = none := by
  unfold absent?
  split
  · rename_i name pos left hfirst
    obtain ⟨after, rfl, rfl⟩ := run_cons hfirst (by simp)
    have hafter : overtAll after = true := by simpa [overtAll, overt] using hovert
    have hpath : Look.op "::" after = true → Look.op "::" (run after).1 = true := by
      rw [look_separator hafter, look_separator (overtAll_run hafter)]
      exact separates_run
    have hparen := paren_run hafter
    rw [absent?] at h
    split
    · rename_i htest
      grind
    · rfl
  · rfl

theorem leading?_run (hovert : overtAll tokens = true) (h : leading? tokens = none) :
    leading? (run tokens).1 = none := by
  unfold leading? at h ⊢
  obtain ⟨hfirst, habsent⟩ := Option.or_eq_none_iff.mp h
  obtain ⟨hneg, hlit⟩ := Option.or_eq_none_iff.mp hfirst
  have hlit' : lit? (run tokens).1 = none := by
    cases hfound : lit? (run tokens).1 with
    | none => rfl
    | some found =>
      obtain ⟨left, hleft⟩ := lit?_of_run hovert hfound
      rw [hleft] at hlit
      contradiction
  rw [negated?_run hovert hneg, hlit', absent?_run hovert habsent]
  rfl

/-- A group that is no list and no map is none as the first token of a run of its own. -/
theorem Refused.run {n m : Nat} (h : Refused (innerTo n) tokens) (hn : sizeAll tokens ≤ n)
    (hm : sizeAll (run tokens).1 ≤ m) : Refused (innerTo m) (run tokens).1 := by
  intro delim body opening closing rest hrun hdelim
  obtain ⟨left, rfl, rfl⟩ := run_cons hrun (by simp)
  obtain ⟨error, herror, hcause⟩ := h delim body opening closing left rfl hdelim
  rw [hrun] at hm
  simp only [sizeAll, size] at hn hm
  refine ⟨error, ?_, hcause⟩
  rw [← herror]
  exact insideOf_congr (by dsimp only; omega) (by dsimp only; omega)

end Runs

/-! ## Before other tokens -/

section Again

variable {tokens rest : Tokens} {found : Value} {q : Sequel}

theorem Begins.leading_again (hlexed : Lexed tokens) (h : leading? tokens = some (found, rest))
    (hapart : q.joins = false) (hstop : stops q.rest = true) (inner : Parser Value) :
    Begins inner (found.tokens ++ q.rest) found q.rest none :=
  (Begins.leading (leading?_tokens hlexed h)).append hapart hstop (overtAll_of_leading? h) (.inl rfl)

theorem Begins.run_again {n m : Nat} (hlexed : Lexed tokens) (hrefused : Refused (innerTo n) tokens)
    (hleading : leading? tokens = none) (hne : (Value.run tokens).1 ≠ []) (hn : sizeAll tokens ≤ n)
    (hm : sizeAll (Value.run tokens).1 ≤ m) (hapart : q.joins = false) (hstop : stops q.rest = true) :
    Begins (innerTo m) ((Value.run tokens).1 ++ q.rest) (other (Value.run tokens).1) q.rest none := by
  have hovert := overtAll_run hlexed.overt
  have halone := Begins.run (hrefused.run hn hm) (leading?_run hlexed.overt hleading) (by rwa [run_run])
  rw [run_run] at halone
  exact halone.append hapart hstop hovert (.inl rfl)

end Again

end Value

end Fieldwise
