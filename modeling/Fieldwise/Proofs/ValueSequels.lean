import Fieldwise.Proofs.ClosingTypes
import Fieldwise.Proofs.OpaqueValues
import Fieldwise.Proofs.SimulationValues

/-!
# Values before other tokens

What a value begins with does not depend on what follows it, as long as that ends a run of tokens: a comma, a colon
or a cast. So a value is read before a comma as it is read on its own, whether it leaves some of its tokens or none,
and rules for deeper nesting read it in the same way.
-/

namespace Fieldwise

open Fieldwise.Grammar Fieldwise.Grammar.Parser Fieldwise.Token

/-! ## Depth -/

/-- The change that leaves every place. -/
def Shift.still : Shift := ⟨⟨id, id⟩, rfl, fun _ => rfl⟩

mutual

theorem Token.retouched_still (token : Token) : token.retouched Shift.still.toRetouch = token := by
  match token with
  | .group delim body opening closing =>
    rw [retouched, Token.retouchedAll_still body]
    rfl
  | .ident _ _ | .punct _ _ _ | .literal _ _ => rfl

theorem Token.retouchedAll_still (tokens : Tokens) :
    retouchedAll Shift.still.toRetouch tokens = tokens := by
  match tokens with
  | [] => rfl
  | token :: rest => rw [retouchedAll, Token.retouched_still token, Token.retouchedAll_still rest]

end

namespace Grammar

theorem stream_still (s : Stream) : retouch Shift.still.toRetouch s = s := by
  obtain ⟨tokens, stop, delim, leftover⟩ := s
  have htokens : retouch Shift.still.toRetouch tokens = tokens := by
    rw [← retouchedAll_eq, Token.retouchedAll_still]
  have hleftover : retouch Shift.still.toRetouch leftover = leftover := by
    rcases leftover with _ | ⟨pos, delim⟩ <;> rfl
  have hstream : retouch Shift.still.toRetouch (Stream.mk tokens stop delim leftover) =
    ⟨retouch Shift.still.toRetouch tokens, stop, delim, retouch Shift.still.toRetouch leftover⟩ := rfl
  rw [hstream, htokens, hleftover]

/-- What the rules of a level read is read alike by those of a deeper level. -/
theorem ok_of_deeper {α : Type} [HasPlaces α] {p : Rules → Parser α}
    (h : ∀ (loose : Prop) (rules other : Rules), Rules.Follow Shift.still loose rules other →
      Follows Shift.still loose (p rules) (p other))
    {depth deeper : Nat} (hdepth : depth ≤ deeper) {s : Stream} {r : α × Stream}
    (hrun : p (.level depth) s = .ok r) : p (.level deeper) s = .ok r := by
  have hself := ((h False _ _ (level_follow_self Shift.still depth)).run s).resolve_right fun hno => hno.1
  rw [stream_still] at hself
  rcases (h True _ _ (level_follow_deeper Shift.still hdepth)).run s with hdeeper | ⟨-, pos, hdeep⟩
  · rw [stream_still, ← hself, hrun] at hdeeper
    exact hdeeper
  · rw [hrun] at hdeep
    contradiction

end Grammar

/-! ## What a value begins with -/

namespace Value

/-- A group at the front is no list and no map. -/
def Refused (inner : Parser Value) (tokens : Tokens) : Prop :=
  ∀ delim body opening closing rest, tokens = .group delim body opening closing :: rest →
    isListing delim = true →
      ∃ error, insideOf delim inner ⟨body, closing, delim, none⟩ = .error error ∧ error.cause ≠ .tooDeep

/-- What comes first in some tokens, what follows it, and the place of a token that is left over in it. -/
inductive Begins (inner : Parser Value) : Tokens → Value → Tokens → Option (Pos × Delim) → Prop
  /-- A list or a map. -/
  | listing {delim body opening closing rest found after} (hdelim : isListing delim = true)
      (hinside : insideOf delim inner ⟨body, closing, delim, none⟩ = .ok (found, after)) :
      Begins inner (.group delim body opening closing :: rest) found rest
        (after.leftover.or after.remainder)
  /-- A literal, or the word for the absent value. -/
  | leading {tokens found rest} (hleading : leading? tokens = some (found, rest)) :
      Begins inner tokens found rest none
  /-- A run of tokens. -/
  | run {tokens} (hrefused : Refused inner tokens) (hleading : leading? tokens = none)
      (hne : (run tokens).1 ≠ []) : Begins inner tokens (other (run tokens).1) (run tokens).2 none

/-- A run of tokens is read where there is one, and nothing else is. -/
theorem otherValue_eq_ok {s t : Stream} {value : Value} (hovert : overtAll s.tokens = true) :
    otherValue s = .ok (value, t) ↔
      (run s.tokens).1 ≠ [] ∧ value = other (run s.tokens).1 ∧ t = { s with tokens := (run s.tokens).2 } := by
  by_cases hne : (run s.tokens).1 = []
  · obtain ⟨tokens, stop, delim, leftover⟩ := s
    have hlength : tokens.length < sizeAll tokens + 1 := Nat.lt_succ_of_le (length_le_sizeAll tokens)
    have hgo := opaqueTokens_go hovert hlength stop delim leftover
    have hrounds : opaqueTokens ⟨tokens, stop, delim, leftover⟩ =
        opaqueTokens.go (sizeAll tokens + 1) ⟨tokens, stop, delim, leftover⟩ := rfl
    have hempty : (run tokens).1.isEmpty = true := by simpa using hne
    simp only [otherValue, bind_run, hrounds, hgo, ok_bind, hempty, if_true]
    simp [violated, Parser.fail, hne]
  · rw [otherValue_run hovert hne]
    simp only [Except.ok.injEq, Prod.mk.injEq, ne_eq, hne, not_false_eq_true, true_and]
    grind

/-- Where no group that could be a list or a map comes first, none is refused. -/
theorem refused_of_head {inner : Parser Value} {tokens : Tokens} (h : tokens.head?.any listing = false) :
    Refused inner tokens := by
  rintro delim body opening closing rest rfl hdelim
  simp [listing, hdelim] at h

theorem operand_eq_ok {inner : Parser Value} {tokens : Tokens} {stop : Pos} {around : Delim}
    {leftover : Option (Pos × Delim)} {value : Value} {t : Stream} (hovert : overtAll tokens = true) :
    operand inner ⟨tokens, stop, around, leftover⟩ = .ok (value, t) ↔
      ∃ rest left, Begins inner tokens value rest left ∧ t = ⟨rest, stop, around, leftover.or left⟩ := by
  have hother (hrefused : Refused inner tokens) (hleading : leading? tokens = none) :
      otherValue ⟨tokens, stop, around, leftover⟩ = .ok (value, t) ↔
        ∃ rest left, Begins inner tokens value rest left ∧ t = ⟨rest, stop, around, leftover.or left⟩ := by
    rw [otherValue_eq_ok hovert]
    constructor
    · rintro ⟨hne, rfl, rfl⟩
      exact ⟨_, none, .run hrefused hleading hne, by rw [Option.or_none]⟩
    · rintro ⟨rest, left, hbegins, rfl⟩
      cases hbegins with
      | listing hdelim hinside =>
        obtain ⟨error, herror, -⟩ := hrefused _ _ _ _ _ rfl hdelim
        rw [herror] at hinside
        contradiction
      | leading hfound =>
        rw [hfound] at hleading
        contradiction
      | run _ _ hne => exact ⟨hne, rfl, by rw [Option.or_none]⟩
  by_cases hlisting : tokens.head?.any listing = true
  · rcases tokens with _ | ⟨_ | _ | _ | ⟨delim, body, opening, closing⟩, rest⟩
    case cons.group =>
      have hdelim : isListing delim = true := by simpa [listing] using hlisting
      have hleading : leading? (.group delim body opening closing :: rest) = none := by
        cases hfound : leading? (.group delim body opening closing :: rest) with
        | none => rfl
        | some found =>
          rw [listing_of_leading? hovert hfound] at hlisting
          contradiction
      rw [operand_group hdelim]
      cases hinside : insideOf delim inner ⟨body, closing, delim, none⟩ with
      | ok found =>
        obtain ⟨found, after⟩ := found
        simp only [Except.ok.injEq, Prod.mk.injEq]
        constructor
        · rintro ⟨rfl, rfl⟩
          exact ⟨rest, _, .listing hdelim hinside, rfl⟩
        · rintro ⟨rest', left, hbegins, rfl⟩
          cases hbegins with
          | listing _ hinside' =>
            rw [hinside] at hinside'
            cases hinside'
            exact ⟨rfl, rfl⟩
          | leading hfound =>
            rw [hfound] at hleading
            contradiction
          | run hrefused _ _ =>
            obtain ⟨error, herror, -⟩ := hrefused _ _ _ _ _ rfl hdelim
            rw [hinside] at herror
            contradiction
      | error error =>
        by_cases hdeep : error.cause = .tooDeep
        · simp only [hdeep, if_true, reduceCtorEq, false_iff]
          rintro ⟨rest', left, hbegins, -⟩
          cases hbegins with
          | listing _ hinside' =>
            rw [hinside] at hinside'
            contradiction
          | leading hfound =>
            rw [hfound] at hleading
            contradiction
          | run hrefused _ _ =>
            obtain ⟨error', herror, hcause⟩ := hrefused _ _ _ _ _ rfl hdelim
            rw [hinside] at herror
            cases herror
            contradiction
        · simp only [hdeep, if_false]
          refine hother ?_ hleading
          rintro _ _ _ _ _ ⟨⟩ -
          exact ⟨error, hinside, hdeep⟩
    all_goals simp [listing] at hlisting
  · have hhead : tokens.head?.any listing = false := by simpa using hlisting
    rw [operand_overt hovert hhead]
    cases hleading : leading? tokens with
    | none => exact hother (refused_of_head hhead) hleading
    | some found =>
      obtain ⟨found, rest⟩ := found
      simp only [Except.ok.injEq, Prod.mk.injEq]
      constructor
      · rintro ⟨rfl, rfl⟩
        exact ⟨rest, none, .leading hleading, by rw [Option.or_none]⟩
      · rintro ⟨rest', left, hbegins, rfl⟩
        cases hbegins with
        | listing hdelim _ => simp [listing, hdelim] at hhead
        | leading hfound =>
          rw [hleading] at hfound
          cases hfound
          exact ⟨rfl, by rw [Option.or_none]⟩
        | run _ hnone _ =>
          rw [hleading] at hnone
          contradiction

/-! ## Before other tokens -/

/-- Where a run of tokens ends, no path separator comes next. -/
theorem separates_of_stops {tokens : Tokens} (h : stops tokens = true) : separates tokens = false := by
  rcases tokens with _ | ⟨_ | ⟨c, spacing, pos⟩ | _ | _, rest⟩ <;> try rfl
  simp only [stops, Bool.or_eq_true, beq_iff_eq, Bool.and_eq_true, Bool.not_eq_true'] at h
  rcases h with rfl | h
  · rfl
  · exact h.2

theorem run_of_stops {tokens : Tokens} (h : stops tokens = true) : run tokens = ([], tokens) := by
  have hpath := separates_of_stops h
  fun_cases run tokens with
  | case1 => rfl
  | case2 => simp [separates] at hpath
  | case3 => rfl
  | case4 token rest _ hstop => exact absurd h hstop

theorem separates_pair (token next : Token) (rest : Tokens) :
    separates (token :: next :: rest) = separates [token, next] := by
  rcases token with _ | ⟨c, spacing, pos⟩ | _ | _ <;> rcases next with _ | ⟨d, spacing', pos'⟩ | _ | _ <;>
    try simp [separates]
  by_cases hc : c = ':' <;> by_cases hd : d = ':' <;> cases spacing <;> simp_all

theorem separates_append {token : Token} {rest more : Tokens} (h : opensComma more = true) :
    separates (token :: rest ++ more) = separates (token :: rest) := by
  obtain ⟨spacing, pos, after, rfl⟩ := exists_of_opensComma h
  rcases rest with _ | ⟨next, rest⟩ <;> simp only [List.cons_append, List.nil_append] <;>
    unfold separates <;> grind

theorem run_append {tokens more : Tokens} (hmore : stops more = true)
    (hrest : (run tokens).2 = [] ∨ opensComma more = true) :
    run (tokens ++ more) = ((run tokens).1, (run tokens).2 ++ more) := by
  fun_induction run tokens with
  | case1 => exact run_of_stops hmore
  | case2 pos spacing at_ rest ih =>
    simp only [List.cons_append, run, ih hrest]
  | case3 token rest hpath hstop =>
    have hcomma : opensComma more = true := hrest.resolve_left (by simp)
    have hstop' : stops (token :: rest ++ more) = true := by
      have hsame := @separates_append token rest more hcomma
      rcases token with _ | _ | _ | _ <;> simp_all [stops]
    exact run_of_stops hstop'
  | case4 token rest hpath hstop ih =>
    -- A colon at the front begins a path separator or ends the run, so the front is no colon.
    have hcolon : ∀ spacing pos, token ≠ .punct ':' spacing pos := by
      rintro spacing pos rfl
      refine hstop ?_
      have hpath' : separates (.punct ':' spacing pos :: rest) = false := by
        unfold separates
        grind
      simp [stops, hpath']
    have hstop' : ¬stops (token :: (rest ++ more)) = true := by
      rcases token with _ | _ | _ | _ <;> simp_all [stops]
    rw [List.cons_append, run, if_neg hstop', ih hrest]
    intro pos _ _ _ htoken
    exact absurd htoken (hcolon _ pos)

section Sequel

variable {q : Sequel} {tokens rest : Tokens} {found : Value}

theorem overtAll_before (q : Sequel) (hovert : overtAll tokens = true) : overtAll (tokens ++ q.rest) = true := by
  rw [overtAll_append, hovert, q.overt]
  rfl

theorem lit?_rest (q : Sequel) : lit? q.rest = none := by
  obtain ⟨joins, rest, stop, delim, hovert, hinert⟩ := q
  simp only [lit?, bare_overt hovert]
  rcases rest with _ | ⟨⟨name, pos⟩ | ⟨c, spacing, pos⟩ | _ | _, rest⟩
  · rfl
  · obtain rfl : name = "as" := by simpa [Grammar.inert] using hinert
    rfl
  · simp only [Grammar.inert] at hinert
    grind
  · contradiction
  · contradiction

theorem lit?_append (hapart : q.joins = false) (hovert : overtAll tokens = true) (hne : tokens ≠ []) :
    lit? (tokens ++ q.rest) = (lit? tokens).map fun r => (r.1, r.2 ++ q.rest) := by
  simpa only [linked_apart hapart] using lit?_grown q hovert hne

/-- The literal at the front, also where only others come. -/
theorem lit?_before (hapart : q.joins = false) (hovert : overtAll tokens = true) :
    lit? (tokens ++ q.rest) = (lit? tokens).map fun r => (r.1, r.2 ++ q.rest) := by
  by_cases hne : tokens = []
  · subst hne
    exact lit?_rest q
  · exact lit?_append hapart hovert hne

theorem negated?_append (hapart : q.joins = false) (hovert : overtAll tokens = true) (hne : tokens ≠ []) :
    negated? (tokens ++ q.rest) = (negated? tokens).map fun r => (r.1, r.2 ++ q.rest) := by
  rcases tokens with _ | ⟨token, rest⟩
  · contradiction
  by_cases hminus : ∃ spacing pos, token = .punct '-' spacing pos
  · obtain ⟨spacing, pos, rfl⟩ := hminus
    have hrest : overtAll rest = true := by simpa [overtAll, overt] using hovert
    have hlit := lit?_before hapart hrest
    have hstarts : startsNumber (rest ++ q.rest) = startsNumber rest := by
      simp only [startsNumber, lookLitKind, hlit]
      cases lit? rest <;> rfl
    simp only [List.cons_append, negated?, hstarts, hlit]
    split
    · cases lit? rest <;> rfl
    · rfl
  · rw [List.cons_append, negated?, negated?]
    · rfl
    · grind
    · grind

/-- So is the word for the absent value, where what follows it begins no path. -/
theorem absent?_append (hovert : overtAll tokens = true) (hne : tokens ≠ [])
    (hrest : ∀ found rest, absent? tokens = some (found, rest) → rest = [] ∨ opensComma q.rest = true) :
    absent? (tokens ++ q.rest) = (absent? tokens).map fun r => (r.1, r.2 ++ q.rest) := by
  rcases tokens with _ | ⟨⟨name, pos⟩ | _ | _ | _, rest⟩
  · contradiction
  case cons.ident =>
    have hovert' : overtAll rest = true := by simpa [overtAll, overt] using hovert
    by_cases hname : name = "None"
    · subst hname
      have hparen : Look.group .paren (rest ++ q.rest) = Look.group .paren rest := by
        by_cases hend : rest = []
        · subst hend
          exact (Quiet.group_paren q).same
        · obtain ⟨token, after, rfl⟩ := List.exists_cons_of_ne_nil hend
          simp only [Look.group, bare_overt (overtAll_before q hovert'), bare_overt hovert']
          cases token <;> rfl
      have hpath : Look.op "::" (rest ++ q.rest) = Look.op "::" rest := by
        rw [look_separator (overtAll_before q hovert'), look_separator hovert']
        rcases rest with _ | ⟨token, _ | ⟨next, after⟩⟩
        · rw [List.nil_append, ← look_separator q.overt, (Quiet.op_path q).same]
          rfl
        · -- A single character after the word is left over, and then a comma follows.
          rcases token with _ | ⟨c, spacing, at_⟩ | _ | _ <;> try rfl
          have hfound : absent? [.ident "None" pos, .punct c spacing at_] = some (absent, [.punct c spacing at_]) := by
            simp [absent?, look_separator hovert', separates, Look.group, bare_overt hovert']
          exact separates_append ((hrest _ _ hfound).resolve_left (by simp))
        · exact (separates_pair token next _).trans (separates_pair token next _).symm
      simp only [List.cons_append, absent?, hparen, hpath]
      split <;> rfl
    · simp [absent?, hname]
  all_goals rfl

/-- So is what a value begins with if it is no run of tokens. -/
theorem leading?_append (hapart : q.joins = false) (hovert : overtAll tokens = true) (hne : tokens ≠ [])
    (hrest : ∀ found rest, leading? tokens = some (found, rest) → rest = [] ∨ opensComma q.rest = true) :
    leading? (tokens ++ q.rest) = (leading? tokens).map fun r => (r.1, r.2 ++ q.rest) := by
  have hneg := negated?_append hapart hovert hne
  have hlit := lit?_append hapart hovert hne
  unfold leading? at hrest ⊢
  rw [hneg, hlit]
  cases hnegated : negated? tokens with
  | some r => rfl
  | none =>
    cases hfound : lit? tokens with
    | some r => rfl
    | none =>
      simp only [hnegated, hfound, Option.map_none, Option.none_or] at hrest ⊢
      exact absent?_append hovert hne hrest

/-- What a group at the front is does not depend on what follows. -/
theorem Refused.append {inner : Parser Value} (h : Refused inner tokens) (hne : tokens ≠ []) (more : Tokens) :
    Refused inner (tokens ++ more) := by
  obtain ⟨token, rest, rfl⟩ := List.exists_cons_of_ne_nil hne
  rintro delim body opening closing after ⟨⟩ hdelim
  exact h _ _ _ _ _ rfl hdelim

/-- What a value begins with is the same before others, whether something is left or not. -/
theorem Begins.append {inner : Parser Value} {left : Option (Pos × Delim)} (hapart : q.joins = false)
    (hstop : stops q.rest = true) (hovert : overtAll tokens = true) (h : Begins inner tokens found rest left)
    (hrest : rest = [] ∨ opensComma q.rest = true) :
    Begins inner (tokens ++ q.rest) found (rest ++ q.rest) left := by
  cases h with
  | listing hdelim hinside => exact .listing hdelim hinside
  | leading hleading =>
    have hne : tokens ≠ [] := by
      rintro rfl
      contradiction
    refine .leading ?_
    rw [leading?_append hapart hovert hne, hleading]
    · rfl
    · intro found' rest' hfound
      rw [hleading] at hfound
      cases hfound
      exact hrest
  | run hrefused hleading hne =>
    have htokens : tokens ≠ [] := by
      rintro rfl
      exact hne rfl
    have hrun := run_append hstop hrest
    have hnone : leading? (tokens ++ q.rest) = none := by
      rw [leading?_append hapart hovert htokens, hleading]
      · rfl
      · intro found' rest' hfound
        rw [hleading] at hfound
        contradiction
    have hbegins := Begins.run (hrefused.append htokens q.rest) hnone (by rw [hrun]; exact hne)
    rw [hrun] at hbegins
    exact hbegins

theorem run_suffix (tokens : Tokens) : (run tokens).2 <:+ tokens := by
  fun_induction run tokens with
  | case1 => exact List.suffix_refl _
  | case2 pos spacing at_ rest ih => exact ih.trans ((List.suffix_cons _ _).trans (List.suffix_cons _ _))
  | case3 token rest hpath hstop => exact List.suffix_refl _
  | case4 token rest hpath hstop ih => exact ih.trans (List.suffix_cons _ _)

theorem leading?_suffix (hovert : overtAll tokens = true) (h : leading? tokens = some (found, rest)) :
    rest <:+ tokens := by
  unfold leading? at h
  rcases Option.or_eq_some_iff.mp h with h | ⟨-, habsent⟩
  · rcases Option.or_eq_some_iff.mp h with hneg | ⟨-, hmapped⟩
    · unfold negated? at hneg
      split at hneg
      case h_1 spacing pos after _ =>
        have hafter : overtAll after = true := by simpa [overtAll, overt] using hovert
        split at hneg
        · obtain ⟨number, hlit, hfound⟩ := Option.map_eq_some_iff.mp hneg
          cases hfound
          exact (lit?_suffix hafter hlit).trans (List.suffix_cons _ _)
        · contradiction
      case h_2 => contradiction
    · obtain ⟨number, hlit, hfound⟩ := Option.map_eq_some_iff.mp hmapped
      cases hfound
      exact lit?_suffix hovert hlit
  · unfold absent? at habsent
    split at habsent
    case h_1 =>
      split at habsent
      · cases habsent
        exact List.suffix_cons _ _
      · contradiction
    case h_2 => contradiction

theorem Begins.suffix {inner : Parser Value} {left : Option (Pos × Delim)} (hovert : overtAll tokens = true)
    (h : Begins inner tokens found rest left) : rest <:+ tokens := by
  cases h with
  | listing hdelim hinside => exact List.suffix_cons _ _
  | leading hleading => exact leading?_suffix hovert hleading
  | run hrefused hleading hne => exact run_suffix tokens

theorem Begins.ne_nil {inner : Parser Value} {left : Option (Pos × Delim)} (h : Begins inner tokens found rest left) :
    tokens ≠ [] := by
  rintro rfl
  cases h with
  | leading hleading => contradiction
  | run _ _ hne => exact hne rfl

/-- A value is what the tokens begin with, and the casts after it. -/
theorem parserTo_eq_ok {n : Nat} {rules : Rules} {stop : Pos} {around : Delim} {leftover : Option (Pos × Delim)}
    {t : Stream} (hovert : overtAll tokens = true) :
    parserTo (n + 1) rules ⟨tokens, stop, around, leftover⟩ = .ok (found, t) ↔
      ∃ first rest left, Begins (innerTo n) tokens first rest left ∧
        casts rules first ⟨rest, stop, around, leftover.or left⟩ = .ok (found, t) := by
  rw [parserTo_succ]
  constructor
  · intro h
    obtain ⟨first, m, hfirst, hcasts⟩ := Grammar.bind_eq_ok.mp h
    obtain ⟨rest, left, hbegins, rfl⟩ := (operand_eq_ok hovert).mp hfirst
    exact ⟨first, rest, left, hbegins, hcasts⟩
  · rintro ⟨first, rest, left, hbegins, hcasts⟩
    exact Grammar.bind_eq_ok.mpr ⟨first, _, (operand_eq_ok hovert).mpr ⟨rest, left, hbegins, rfl⟩, hcasts⟩

/-- Any bound that exceeds the number of tokens serves. -/
theorem parser_eq_parserTo {n : Nat} {rules : Rules} {s : Stream} (h : sizeAll s.tokens < n) :
    parser rules s = parserTo n rules s :=
  parserTo_congr (Nat.lt_succ_self _) h

end Sequel

end Value

/-! ## Casts -/

namespace Grammar

section Casts

variable (q : Sequel) (rules : Rules) [∀ b, Extends q (rules.type b)]

instance Extends.casts (value : Value) : Extends q (Value.casts rules value) := by
  refine ExtendsTo.carriedLoop q (fun k n m ih value => ?_) value
  simp only [Value.casts.go]
  infer_instance

variable [∀ b, Closes q (KinType q) (rules.type b)] [∀ b, Needs (rules.type b)]

/-- Casts to the end are the same before others, if no further one follows and nothing is joined. -/
theorem Closes.casts (hapart : q.joins = false) (hrest : Look.word "as" q.rest = false) (value : Value) :
    Closes q Eq (Value.casts rules value) := by
  have hstop : ∀ value n s, Look.word "as" s.tokens = false → Value.casts.go rules value n s = .ok (value, s) := by
    intro value n s hword
    cases n with
    | zero => rfl
    | succ n =>
      rw [Value.casts.go, bind_run, look_run, ok_bind, hword]
      rfl
  have hquestion : Closes q Eq (Parser.op "?") := op q (by decide)
  have hoptional : Closes q Eq (op? "?") := inferInstanceAs (Closes q Eq (_ >>= _))
  refine ClosesTo.carriedLoop q (fun k n m ih value => ?_) value
  simp only [Value.casts.go]
  refine ClosesTo.look q fun b => ClosesTo.orElse q ?_ inferInstance
  -- Something has to follow the word and the question mark; the last token belongs to the type.
  refine ClosesTo.taking q inferInstance inferInstance (R := Eq) inferInstance (fun _ => ?_) ?_
  · refine ClosesTo.next q inferInstance hoptional (fun conditional => ?_) ?_
    · refine ClosesTo.next q inferInstance (R := KinType q) inferInstance (fun type => ih _) ?_
      rintro type type' s found t hkin hs hfound
      obtain rfl := hkin.same hapart
      dsimp only at hfound
      rw [hstop _ n s (by rw [hs]; rfl)] at hfound
      cases hfound
      refine ⟨hs, _, rfl, hstop _ m _ ?_⟩
      rw [Sequel.grow, hs]
      exact hrest
    · rintro conditional _ s found t rfl hs hfound
      exact absurd hfound ((inferInstance : Needs (rules.type true >>= _)).fails s found t hs)
  · rintro _ _ s found t rfl hs hfound
    exact absurd hfound ((inferInstance : Needs (op? "?" >>= _)).fails s found t hs)

end Casts

theorem good_of_opensComma {q : Sequel} {tokens : Tokens} (hcomma : opensComma q.rest = true)
    (hne : tokens ≠ []) : q.Good tokens where
  ne := hne
  firm := by rw [hcomma, Bool.true_or]
  fits := by
    obtain ⟨spacing, pos, rest, hrest⟩ := exists_of_opensComma hcomma
    have hanyWord : Look.anyWord q.rest = false := by rw [hrest, Look.anyWord, bare_cons rfl]
    unfold Sequel.fits
    rw [hanyWord]
    split <;> simp

/-- Casts are the same before a comma, whether something is left or not. -/
theorem casts_beforeComma {q : Sequel} (hapart : q.joins = false) (hcomma : opensComma q.rest = true)
    (depth : Nat) {value found : Value} {s t : Stream} (hovert : overtAll s.tokens = true)
    (h : Value.casts (.level depth) value s = .ok (found, t)) :
    Value.casts (.level depth) value (q.grow s) = .ok (found, q.grow t) := by
  obtain ⟨⟨hcloses, -⟩, hneeds, -⟩ := Closes.level q depth
  obtain ⟨hextends, -⟩ := Extends.level q depth
  have hword : Look.word "as" q.rest = false := by
    obtain ⟨spacing, pos, rest, hrest⟩ := exists_of_opensComma hcomma
    rw [hrest, Look.word, bare_cons rfl]
  by_cases hs : s.tokens = []
  · rw [Value.casts_none (by rw [hs]; rfl)] at h
    cases h
    refine Value.casts_none ?_
    rw [Sequel.grow, hs]
    exact hword
  · by_cases ht : t.tokens = []
    · obtain ⟨-, found', rfl, hgrown⟩ := ((Closes.casts q (.level depth) hapart hword value).below
        (s.tokens.length + 1)).closed s found t (Nat.lt_succ_self _) hovert hs (good_of_opensComma hcomma hs).fits h ht
      exact hgrown
    · exact (Extends.casts q (.level depth) value).grown s found t hovert h (good_of_opensComma hcomma ht)

theorem parserTo_suffix {n : Nat} (depth : Nat) {found : Value} {s t : Stream} (hovert : overtAll s.tokens = true)
    (h : Value.parserTo n (.level depth) s = .ok (found, t)) : t.tokens <:+ s.tokens := by
  cases n with
  | zero => contradiction
  | succ n =>
    -- What follows does not matter here, so it is nothing.
    let q : Sequel := ⟨false, [], .callSite, .invisible, rfl, rfl⟩
    obtain ⟨hextends, -⟩ := Extends.level q depth
    obtain ⟨tokens, stop, delim, leftover⟩ := s
    obtain ⟨first, rest, left, hbegins, hcasts⟩ := (Value.parserTo_eq_ok hovert).mp h
    have hrest := hbegins.suffix hovert
    exact ((Extends.casts q (.level depth) first).suffix _ _ _ (overtAll_of_suffix hrest hovert) hcasts).trans hrest

theorem value_suffix (depth : Nat) {found : Value} {s t : Stream} (hovert : overtAll s.tokens = true)
    (h : Value.parser (.level depth) s = .ok (found, t)) : t.tokens <:+ s.tokens :=
  parserTo_suffix depth hovert ((Value.parser_eq_parserTo (Nat.lt_succ_self _)).symm.trans h)

/-- A value is the same before a comma, whether something is left or not. -/
theorem value_beforeComma {q : Sequel} (hapart : q.joins = false) (hcomma : opensComma q.rest = true)
    (depth : Nat) {found : Value} {s t : Stream} (hovert : overtAll s.tokens = true)
    (h : Value.parser (.level depth) s = .ok (found, t)) :
    Value.parser (.level depth) (q.grow s) = .ok (found, q.grow t) := by
  obtain ⟨tokens, stop, delim, leftover⟩ := s
  have hgrow : ∀ rest left, q.grow ⟨rest, stop, delim, left⟩ = ⟨rest ++ q.rest, q.stop, q.delim, left⟩ := by
    intro rest left
    rw [Sequel.grow, linked_apart hapart]
  have hstop : Value.stops q.rest = true := by
    obtain ⟨spacing, pos, rest, hrest⟩ := exists_of_opensComma hcomma
    rw [hrest]
    rfl
  -- One bound on the nesting serves for the tokens with and without the others.
  have hsize : sizeAll tokens < sizeAll (tokens ++ q.rest) + 1 := by
    rw [sizeAll_append]
    omega
  rw [Value.parser_eq_parserTo hsize] at h
  rw [hgrow, Value.parser_eq_parserTo (Nat.lt_succ_self (sizeAll (tokens ++ q.rest)))]
  obtain ⟨first, rest, left, hbegins, hcasts⟩ := (Value.parserTo_eq_ok hovert).mp h
  refine (Value.parserTo_eq_ok (Value.overtAll_before q hovert)).mpr
    ⟨first, rest ++ q.rest, left, hbegins.append hapart hstop hovert (.inr hcomma), ?_⟩
  rw [← hgrow]
  exact casts_beforeComma hapart hcomma depth (overtAll_of_suffix (hbegins.suffix hovert) hovert) hcasts

theorem Needs.value (rules : Rules) : Needs (Value.parser rules) where
  fails s found t hs h := by
    obtain ⟨tokens, stop, delim, leftover⟩ := s
    obtain rfl : tokens = [] := hs
    obtain ⟨first, rest, left, hbegins, -⟩ :=
      (Value.parserTo_eq_ok rfl).mp ((Value.parser_eq_parserTo (Nat.lt_succ_self _)).symm.trans h)
    exact hbegins.ne_nil rfl

end Grammar

end Fieldwise
