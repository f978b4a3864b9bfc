import Fieldwise.Proofs.Values

/-!
# Expressions that are kept as their tokens

What an expression without commas, single colons and casts is read as is decided by its front. A literal, the word
for the absent value, a list or a map at the front is the whole value, and whatever follows it is left over; an
expression with any other front is kept as its tokens. So an operator or a call after a literal is refused, and not
kept.
-/

namespace Fieldwise.Value

open Fieldwise.Grammar Fieldwise.Grammar.Parser Fieldwise.Token

variable {tokens rest : Tokens} {found : Value}

/-- Whether no comma, no colon but those of path separators, and no cast stands among tokens. -/
def unbroken : Tokens → Bool
  | [] => true
  | .punct ':' .joint _ :: .punct ':' _ _ :: rest => unbroken rest
  | token :: rest => !stops (token :: rest) && unbroken rest

/-- The number at the front that a minus sign stands before, and what follows it. -/
def negated? : Tokens → Option (Value × Tokens)
  | .punct '-' _ _ :: rest =>
    if startsNumber rest then (lit? rest).map fun found => (ofLit true found.1, found.2) else none
  | _ => none

/-- The word for the absent value at the front, and what follows it; a path or a call is none. -/
def absent? : Tokens → Option (Value × Tokens)
  | .ident name _ :: rest =>
    if name == "None" && !Look.op "::" rest && !Look.group .paren rest then some (absent, rest)
    else none
  | _ => none

/-- The literal at the front, and what follows it. -/
def leading? (tokens : Tokens) : Option (Value × Tokens) :=
  ((negated? tokens).or ((lit? tokens).map fun found => (ofLit false found.1, found.2))).or
    (absent? tokens)

/-- The place of a token that is left over after an expression. -/
def leftAt : Tokens → Option (Pos × Delim)
  | [] => none
  | next :: _ => some (next.pos, .invisible)

/-- A value, unless a token is left over at a place. -/
def finished (value : Value) : Option (Pos × Delim) → Except SyntaxError Value
  | none => .ok value
  | some (pos, delim) => .error ⟨pos, .leftover delim⟩

/-- Whether a token is a group that could be a list or a map. -/
def listing : Token → Bool
  | .group delim _ _ _ => isListing delim
  | _ => false

theorem run_of_unbroken (h : unbroken tokens = true) :
    (run tokens).2 = [] ∧ plainAll (run tokens).1 = plainAll tokens := by
  fun_induction run tokens with
  | case1 => exact ⟨rfl, rfl⟩
  | case2 pos spacing at_ rest ih =>
    obtain ⟨hleft, hplain⟩ := ih h
    refine ⟨hleft, ?_⟩
    rw [plainAll_append, hplain]
    rfl
  | case3 token rest hpath hstop =>
    rw [unbroken, hstop] at h
    · simp at h
    · exact hpath
  | case4 token rest hpath hstop ih =>
    rw [unbroken, Bool.and_eq_true] at h
    · obtain ⟨hleft, hplain⟩ := ih h.2
      exact ⟨hleft, congrArg (token.plain :: ·) hplain⟩
    · exact hpath

theorem word_as_of_unbroken (hsolid : solidAll tokens = true) (h : unbroken tokens = true) :
    Look.word "as" tokens = false := by
  rcases tokens with _ | ⟨token, rest⟩
  · rfl
  simp only [solidAll, Bool.and_eq_true] at hsolid
  have hbare := bare_cons (overt_of_solid hsolid.1) rest
  rcases token with ⟨name, pos⟩ | _ | _ | _ <;> simp only [Look.word, hbare]
  rw [unbroken, stops] at h
  · simp_all
  · simp

/-! ## What comes first -/

/-- A number after a minus sign is found by its first two tokens. -/
theorem look_negated (hovert : overtAll tokens = true) :
    (Look.op "-" tokens && Look.second startsNumber tokens) = (negated? tokens).isSome := by
  rcases tokens with _ | ⟨token, rest⟩
  · rfl
  simp only [overtAll, Bool.and_eq_true] at hovert
  have hbare := bare_cons hovert.1 rest
  rcases token with _ | ⟨c, spacing, pos⟩ | _ | _
  case punct =>
    by_cases hc : c = '-'
    · subst hc
      have hnumber : startsNumber rest = true → (lit? rest).isSome = true := by
        unfold startsNumber lookLitKind
        cases lit? rest <;> simp
      cases hstarts : startsNumber rest <;>
        simp_all [Look.op, dropOp, Look.second, dropTree, negated?]
    · have hop : Look.op "-" (.punct c spacing pos :: rest) = false := by
        simp [Look.op, dropOp, hbare, Ne.symm hc]
      rw [hop, Bool.false_and, negated?]
      · rfl
      · simp [hc]
  all_goals simp [Look.op, dropOp, hbare, negated?]

theorem read_negated (hovert : overtAll tokens = true) (h : negated? tokens = some (found, rest)) (stop : Pos)
    (around : Delim) (leftover : Option (Pos × Delim)) :
    (do let _ ← op "-"; return ofLit true (← lit) : Parser Value) ⟨tokens, stop, around, leftover⟩ =
      .ok (found, ⟨rest, stop, around, leftover⟩) := by
  unfold negated? at h
  split at h
  case h_2 => contradiction
  case h_1 spacing pos after =>
    have hbare : bare (.punct '-' spacing pos :: after) = _ := bare_cons rfl after
    split at h
    case isFalse => contradiction
    case isTrue hnumber =>
      obtain ⟨number, hlit, hfound⟩ := Option.map_eq_some_iff.mp h
      cases hfound
      have hop : op "-" ⟨.punct '-' spacing pos :: after, stop, around, leftover⟩ =
          .ok ([.punct '-' .alone pos], ⟨after, stop, around, leftover⟩) := by
        simp [op, dropOp, hbare, Stream.here, Token.pos, Token.operator]
      simp only [bind_run, hop, ok_bind, lit, hlit, pure_run]

/-- The word for the absent value is found where no path and no call begins with it. -/
theorem look_absent (hovert : overtAll tokens = true) : operand.isNone tokens = (absent? tokens).isSome := by
  rcases tokens with _ | ⟨token, rest⟩
  · rfl
  simp only [overtAll, Bool.and_eq_true] at hovert
  have hbare := bare_cons hovert.1 rest
  rcases token with ⟨name, pos⟩ | _ | _ | _ <;>
    simp only [operand.isNone, absent?, Look.word, Look.second, dropTree, hbare]
  case ident =>
    simp only [Option.any_some]
    split <;> simp_all
  all_goals rfl

theorem read_absent (h : absent? tokens = some (found, rest)) (stop : Pos) (around : Delim)
    (leftover : Option (Pos × Delim)) :
    (do let _ ← anyIdent; return absent : Parser Value) ⟨tokens, stop, around, leftover⟩ =
      .ok (found, ⟨rest, stop, around, leftover⟩) := by
  unfold absent? at h
  split at h
  case h_2 => contradiction
  case h_1 name pos after =>
    split at h
    case isFalse => contradiction
    case isTrue =>
      cases h
      have hbare : bare (.ident name pos :: rest) = _ := bare_cons rfl rest
      simp only [bind_run, anyIdent, hbare, ok_bind, pure_run]

/-- A group that could be a list or a map is only seen where one stands. -/
theorem look_listing (hovert : overtAll tokens = true) (hlisting : tokens.head?.any listing = false) (delim : Delim)
    (h : isListing delim = true) : Look.group delim tokens = false := by
  have hvisible : delim ≠ .invisible := by
    rintro rfl
    contradiction
  rcases tokens with _ | ⟨token, rest⟩
  · cases delim <;> first | contradiction | rfl
  simp only [overtAll, Bool.and_eq_true] at hovert
  have hbare := bare_cons hovert.1 rest
  rcases token with _ | _ | _ | ⟨found, body, opening, closing⟩
  case group =>
    have hfound : isListing found = false := by simpa [listing] using hlisting
    have hne : found ≠ delim := by
      rintro rfl
      simp_all
    simpa [Look.group, hbare, hvisible] using hne
  all_goals simp [Look.group, hbare]

/-- A literal at the front is read, and what follows it is left. Any other front that is no group begins a run of
tokens. -/
theorem operand_overt (hovert : overtAll tokens = true) (hlisting : tokens.head?.any listing = false)
    (value : Parser Value) (stop : Pos) (around : Delim) (leftover : Option (Pos × Delim)) :
    operand value ⟨tokens, stop, around, leftover⟩ =
      match leading? tokens with
      | some (found, rest) => .ok (found, ⟨rest, stop, around, leftover⟩)
      | none => otherValue ⟨tokens, stop, around, leftover⟩ := by
  rw [operand, bind_run, look_run, ok_bind, look_listing hovert hlisting .bracket rfl, if_neg (by simp),
    bind_run, look_run, ok_bind, look_listing hovert hlisting .brace rfl, if_neg (by simp),
    bind_run, look_run, ok_bind, look_negated hovert]
  unfold leading?
  cases hneg : negated? tokens with
  | some found => exact read_negated hovert hneg stop around leftover
  | none =>
    rw [Option.isSome_none, if_neg (by simp), bind_run, look_run, ok_bind, lookLit]
    cases hlit : lit? tokens with
    | some found => simp only [Option.isSome_some, if_true, bind_run, lit, hlit]; rfl
    | none =>
      rw [Option.isSome_none, if_neg (by simp), bind_run, look_run, ok_bind, look_absent hovert]
      cases habsent : absent? tokens with
      | some found => exact read_absent habsent stop around leftover
      | none => rfl

theorem operand_front (hsolid : solidAll tokens = true) (hlisting : tokens.head?.any listing = false)
    (value : Parser Value) (stop : Pos) (around : Delim) :
    operand value ⟨tokens, stop, around, none⟩ =
      match leading? tokens with
      | some (found, rest) => .ok (found, ⟨rest, stop, around, none⟩)
      | none => otherValue ⟨tokens, stop, around, none⟩ :=
  operand_overt (overtAll_of_solidAll hsolid) hlisting value stop around none

/-! ## The whole expression -/

/-- A token that begins no path separator is followed by what is without a break too. -/
theorem unbroken_tail {token : Token} (hsolid : solidAll (token :: rest) = true)
    (hunbroken : unbroken (token :: rest) = true) (h : ∀ pos, token ≠ .punct ':' .joint pos) :
    solidAll rest = true ∧ unbroken rest = true := by
  rw [unbroken] at hunbroken
  · simp_all [solidAll]
  · intro pos _ _ _ htoken
    exact (h pos htoken).elim

/-- Tokens without invisible groups are seen as they stand. -/
theorem bare_of_solidAll (hsolid : solidAll tokens = true) : bare tokens = tokens := by
  cases tokens with
  | nil => rfl
  | cons token rest =>
    simp only [solidAll, Bool.and_eq_true] at hsolid
    exact bare_cons (overt_of_solid hsolid.1) rest

/-- What follows a literal at the front is without a break. -/
theorem unbroken_of_lit? {found : Lit} (hsolid : solidAll tokens = true) (hunbroken : unbroken tokens = true)
    (h : lit? tokens = some (found, rest)) : solidAll rest = true ∧ unbroken rest = true := by
  rw [lit?, bare_of_solidAll hsolid] at h
  split at h
  case h_1 =>
    cases h
    exact unbroken_tail hsolid hunbroken (by simp)
  case h_2 =>
    split at h
    · cases h
      exact unbroken_tail hsolid hunbroken (by simp)
    · contradiction
  case h_3 after =>
    have hafter := unbroken_tail hsolid hunbroken (by simp)
    rw [bare_of_solidAll hafter.1] at h
    split at h
    · obtain ⟨kind, -, hfound⟩ := Option.map_eq_some_iff.mp h
      cases hfound
      exact unbroken_tail hafter.1 hafter.2 (by simp)
    · contradiction
  case h_4 => contradiction

/-- What follows a literal or the word for the absent value is without a break. -/
theorem unbroken_of_leading? (hsolid : solidAll tokens = true) (hunbroken : unbroken tokens = true)
    (h : leading? tokens = some (found, rest)) : solidAll rest = true ∧ unbroken rest = true := by
  unfold leading? at h
  rcases Option.or_eq_some_iff.mp h with h | ⟨-, habsent⟩
  · rcases Option.or_eq_some_iff.mp h with hneg | ⟨-, hmapped⟩
    · unfold negated? at hneg
      split at hneg
      case h_1 after =>
        have hafter := unbroken_tail hsolid hunbroken (by simp)
        split at hneg
        · obtain ⟨number, hlit, hfound⟩ := Option.map_eq_some_iff.mp hneg
          cases hfound
          exact unbroken_of_lit? hafter.1 hafter.2 hlit
        · contradiction
      case h_2 => contradiction
    · obtain ⟨number, hlit, hfound⟩ := Option.map_eq_some_iff.mp hmapped
      cases hfound
      exact unbroken_of_lit? hsolid hunbroken hlit
  · unfold absent? at habsent
    split at habsent
    case h_1 =>
      split at habsent
      · cases habsent
        exact unbroken_tail hsolid hunbroken (by simp)
      · contradiction
    case h_2 => contradiction

theorem remainder_eq (hsolid : solidAll tokens = true) (stop : Pos) :
    (⟨tokens, stop, .invisible, none⟩ : Grammar.Stream).remainder = leftAt tokens := by
  rcases tokens with _ | ⟨token, rest⟩
  · rfl
  simp only [solidAll, Bool.and_eq_true] at hsolid
  rcases token with _ | _ | _ | ⟨delim, _, _, _⟩
  case group => cases delim <;> first | rfl | simp [solid] at hsolid
  all_goals rfl

/-- What comes first, when no cast follows it, is the whole value. -/
theorem parse_of_operand {leftover : Option (Pos × Delim)}
    (h : operand (innerTo (sizeAll tokens)) ⟨tokens, Pos.callSite, .invisible, none⟩ =
      .ok (found, ⟨rest, Pos.callSite, .invisible, leftover⟩))
    (hsolid : solidAll rest = true) (hunbroken : unbroken rest = true) :
    parse tokens = finished found (leftover.or (leftAt rest)) := by
  have hparser : parser (.forTokens tokens) ⟨tokens, Pos.callSite, .invisible, none⟩ =
      .ok (found, ⟨rest, Pos.callSite, .invisible, leftover⟩) := by
    have hrounds : parser (.forTokens tokens) ⟨tokens, Pos.callSite, .invisible, none⟩ =
        parserTo (sizeAll tokens + 1) (.forTokens tokens) ⟨tokens, Pos.callSite, .invisible, none⟩ := rfl
    rw [hrounds, parserTo_succ, bind_run, h, ok_bind]
    exact casts_none (word_as_of_unbroken hsolid hunbroken)
  have hremainder : (⟨rest, Pos.callSite, .invisible, leftover⟩ : Grammar.Stream).remainder = leftAt rest :=
    remainder_eq hsolid Pos.callSite
  rw [parse, parseWith, parseAll, hparser]
  simp only [hremainder]
  cases leftover.or (leftAt rest) <;> rfl

theorem listing_of_leading? (hovert : overtAll tokens = true) (h : leading? tokens = some (found, rest)) :
    tokens.head?.any listing = false := by
  rcases tokens with _ | ⟨_ | _ | _ | ⟨delim, body, opening, closing⟩, after⟩
  case cons.group =>
    have hbare : bare (.group delim body opening closing :: after) = _ :=
      bare_cons (Bool.and_eq_true_iff.mp hovert).1 after
    have hnone : leading? (.group delim body opening closing :: after) = none := by
      simp [leading?, negated?, lit?, hbare, absent?]
    rw [hnone] at h
    contradiction
  all_goals rfl

theorem head_of_leading? (hsolid : solidAll tokens = true) (h : leading? tokens = some (found, rest)) :
    tokens.head?.any listing = false :=
  listing_of_leading? (overtAll_of_solidAll hsolid) h

theorem parse_of_refused {error : SyntaxError}
    (h : operand (innerTo (sizeAll tokens)) ⟨tokens, Pos.callSite, .invisible, none⟩ = .error error) :
    parse tokens = .error error := by
  have hrounds : parser (.forTokens tokens) ⟨tokens, Pos.callSite, .invisible, none⟩ =
      parserTo (sizeAll tokens + 1) (.forTokens tokens) ⟨tokens, Pos.callSite, .invisible, none⟩ := rfl
  rw [parse, parseWith, parseAll, hrounds, parserTo_succ, bind_run, h]
  rfl

/-- A run of tokens without a break is the whole value. -/
theorem parse_of_otherValue (hne : tokens ≠ []) (hsolid : solidAll tokens = true) (hunbroken : unbroken tokens = true)
    (h : operand (innerTo (sizeAll tokens)) ⟨tokens, Pos.callSite, .invisible, none⟩ =
      otherValue ⟨tokens, Pos.callSite, .invisible, none⟩) :
    parse tokens = .ok (.other (run tokens).1) := by
  obtain ⟨hleft, hplain⟩ := run_of_unbroken hunbroken
  have hrun : (run tokens).1 ≠ [] := by
    intro hnil
    rw [hnil] at hplain
    cases tokens with
    | nil => contradiction
    | cons => simp [plainAll] at hplain
  rw [otherValue_run (overtAll_of_solidAll hsolid) hrun] at h
  simp only [hleft] at h
  exact parse_of_operand h rfl rfl

/-- What stands in a group is read alike whatever follows the group. -/
theorem insideOf_congr {delim : Delim} {n m : Nat} {s : Grammar.Stream} (hn : sizeAll s.tokens < n)
    (hm : sizeAll s.tokens < m) : insideOf delim (innerTo n) s = insideOf delim (innerTo m) s := by
  have hinner : ∀ t : Grammar.Stream, sizeAll t.tokens ≤ sizeAll s.tokens → innerTo n t = innerTo m t :=
    fun t ht => parserTo_congr (by omega) (by omega)
  unfold insideOf
  split
  · simp only [map_run, entries_congr hinner]
  · simp only [map_run, terminated_congr hinner]

theorem insideOf_ne_other {delim : Delim} {value : Parser Value} {s after : Grammar.Stream}
    (h : insideOf delim value s = .ok (found, after)) (kept : Tokens) : found ≠ .other kept := by
  unfold insideOf at h
  split at h
  · rw [map_run] at h
    cases hentries : entries value s with
    | error error =>
      rw [hentries] at h
      contradiction
    | ok inner =>
      rw [hentries] at h
      cases h
      simp
  · rw [map_run] at h
    cases hitems : terminated value s with
    | error error =>
      rw [hitems] at h
      contradiction
    | ok inner =>
      rw [hitems] at h
      cases h
      simp

/-- What a group at the front makes of an expression is what the group is on its own. -/
theorem parse_group {token : Token} (hsolid : solidAll (token :: rest) = true)
    (hunbroken : unbroken (token :: rest) = true) (hlisting : listing token = true) :
    match parse [token] with
    | .ok (.other kept) => kept = [token] ∧ parse (token :: rest) = .ok (.other (run (token :: rest)).1)
    | .ok value => parse (token :: rest) = finished value (leftAt rest)
    | .error error => parse (token :: rest) = .error error := by
  rcases token with _ | _ | _ | ⟨delim, body, opening, closing⟩
  case group =>
    have hdelim : isListing delim = true := hlisting
    have hrest := unbroken_tail hsolid hunbroken (by simp)
    have halone : solidAll [.group delim body opening closing] = true := by simp_all [solidAll]
    have hwhole := operand_group hdelim (innerTo (sizeAll (.group delim body opening closing :: rest)))
      body rest opening closing Pos.callSite .invisible none
    have hgroup := operand_group hdelim (innerTo (sizeAll [.group delim body opening closing]))
      body [] opening closing Pos.callSite .invisible none
    have hinside : insideOf delim (innerTo (sizeAll (.group delim body opening closing :: rest)))
        ⟨body, closing, delim, none⟩ =
          insideOf delim (innerTo (sizeAll [.group delim body opening closing]))
            ⟨body, closing, delim, none⟩ :=
      insideOf_congr (by simp only [sizeAll, size]; omega) (by simp only [sizeAll, size]; omega)
    rw [hinside] at hwhole
    cases hfound : insideOf delim (innerTo (sizeAll [.group delim body opening closing]))
        ⟨body, closing, delim, none⟩ with
    | ok found =>
      obtain ⟨value, inner⟩ := found
      rw [hfound] at hwhole hgroup
      rw [parse_of_operand hgroup rfl rfl, parse_of_operand hwhole hrest.1 hrest.2]
      cases hleft : inner.leftover.or inner.remainder with
      | some left => rfl
      | none =>
        have hother := insideOf_ne_other hfound
        cases value <;> first | rfl | exact (hother _ rfl).elim
    | error error =>
      rw [hfound] at hwhole hgroup
      by_cases hdeep : error.cause = .tooDeep
      · simp only [hdeep, if_true] at hwhole hgroup
        rw [parse_of_refused hgroup, parse_of_refused hwhole]
      · simp only [hdeep, if_false] at hwhole hgroup
        have hself : unbroken [.group delim body opening closing] = true := rfl
        rw [parse_of_otherValue (by simp) halone hself hgroup,
          parse_of_otherValue (by simp) hsolid hunbroken hwhole]
        exact ⟨rfl, rfl⟩
  all_goals contradiction

/-- What an expression without commas, single colons and casts is read as. After a literal or the word for the absent
value nothing may follow. A list or a map is read where the group is one on its own, and nothing may follow it either.
Only an expression with any other front is kept as its tokens, and then all of them are kept. -/
theorem parse_unbroken {tokens : Tokens} (hne : tokens ≠ []) (hsolid : solidAll tokens = true)
    (hunbroken : unbroken tokens = true) :
    plainAll (run tokens).1 = plainAll tokens ∧
    (∀ value rest, leading? tokens = some (value, rest) → parse tokens = finished value (leftAt rest)) ∧
    (∀ token rest, tokens = token :: rest → listing token = true →
      match parse [token] with
      | .ok (.other kept) => kept = [token] ∧ parse tokens = .ok (.other (run tokens).1)
      | .ok value => parse tokens = finished value (leftAt rest)
      | .error error => parse tokens = .error error) ∧
    (leading? tokens = none → tokens.head?.any listing = false →
      parse tokens = .ok (.other (run tokens).1)) := by
  refine ⟨(run_of_unbroken hunbroken).2, ?_, ?_, ?_⟩
  · intro value rest hleading
    have hrest := unbroken_of_leading? hsolid hunbroken hleading
    have hlisting := head_of_leading? hsolid hleading
    have hfront := operand_front hsolid hlisting (innerTo (sizeAll tokens)) Pos.callSite .invisible
    rw [hleading] at hfront
    exact parse_of_operand hfront hrest.1 hrest.2
  · rintro token rest rfl hlisting
    exact parse_group hsolid hunbroken hlisting
  · intro hleading hlisting
    have hfront := operand_front hsolid hlisting (innerTo (sizeAll tokens)) Pos.callSite .invisible
    rw [hleading] at hfront
    exact parse_of_otherValue hne hsolid hunbroken hfront

/-- A sum that begins with a literal is refused at its operator. -/
theorem parse_sum :
    let sum : Tokens := [.punct '+' .alone ⟨1, 2⟩, .literal "2" ⟨1, 4⟩]
    let tokens : Tokens := .literal "1" ⟨1, 0⟩ :: sum
    tokens ≠ [] ∧ solidAll tokens = true ∧ unbroken tokens = true ∧
      leading? tokens = some (.whole false "1", sum) ∧
      parse tokens = .error ⟨⟨1, 2⟩, .leftover .invisible⟩ := by
  intro sum tokens
  have hne : tokens ≠ [] := by simp [tokens]
  have hsolid : solidAll tokens = true := rfl
  have hunbroken : unbroken tokens = true := rfl
  have hleading : leading? tokens = some (.whole false "1", sum) := rfl
  exact ⟨hne, hsolid, hunbroken, hleading,
    (parse_unbroken hne hsolid hunbroken).2.1 _ _ hleading⟩

end Fieldwise.Value
