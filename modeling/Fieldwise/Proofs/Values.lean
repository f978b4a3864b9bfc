import Fieldwise.Proofs.Shrinking
import Fieldwise.Proofs.Splicing

/-!
# How values are read

The steps in which a value is read, each for tokens without invisible groups: a run of tokens up to a comma, a
colon or a cast is taken as it is, a group is looked into on its own, and the depth to which groups may be nested
does not matter as long as it is not reached.
-/

namespace Fieldwise

open Fieldwise.Grammar Fieldwise.Grammar.Parser Fieldwise.Token

variable {s : Stream} {tokens : Tokens} {delim : Delim}

/-! ## Tokens without invisible groups -/

namespace Token

mutual

/-- Whether a token is no group without delimiters, and has none in it. -/
def solid : Token → Bool
  | .group .invisible _ _ _ => false
  | .group _ body _ _ => solidAll body
  | _ => true

/-- Whether there is no group without delimiters among tokens or in them. -/
def solidAll : List Token → Bool
  | [] => true
  | token :: rest => token.solid && solidAll rest

end

mutual

theorem size_plain (token : Token) : size token.plain = size token := by
  match token with
  | .group _ body _ _ => simp [plain, size, sizeAll_plainAll body]
  | .ident _ _ | .punct _ _ _ | .literal _ _ => rfl

theorem sizeAll_plainAll (tokens : List Token) : sizeAll (plainAll tokens) = sizeAll tokens := by
  match tokens with
  | [] => rfl
  | token :: rest => simp [plainAll, sizeAll, size_plain token, sizeAll_plainAll rest]

end

mutual

/-- Opening a group without delimiters takes away a token, and nothing else does. -/
theorem solid_of_size (token : Token) :
    sizeAll token.opened ≤ size token ∧ (sizeAll token.opened = size token → token.solid = true) := by
  match token with
  | .group .invisible body _ _ =>
    have hbody := solidAll_of_size body
    simp only [opened, size]
    omega
  | .group .paren body _ _ | .group .bracket body _ _ | .group .brace body _ _ =>
    have hbody := solidAll_of_size body
    simp only [opened, size, sizeAll, solid]
    exact ⟨by omega, fun h => hbody.2 (by omega)⟩
  | .ident _ _ | .punct _ _ _ | .literal _ _ => simp [opened, size, sizeAll, solid]

theorem solidAll_of_size (tokens : List Token) :
    sizeAll (openedAll tokens) ≤ sizeAll tokens ∧
      (sizeAll (openedAll tokens) = sizeAll tokens → solidAll tokens = true) := by
  match tokens with
  | [] => exact ⟨Nat.le_refl _, fun _ => rfl⟩
  | token :: rest =>
    have htoken := solid_of_size token
    have hrest := solidAll_of_size rest
    simp only [openedAll, sizeAll, sizeAll_append, solidAll, Bool.and_eq_true]
    exact ⟨by omega, fun h => ⟨htoken.2 (by omega), hrest.2 (by omega)⟩⟩

end

end Token

theorem length_le_sizeAll (tokens : Tokens) : tokens.length ≤ sizeAll tokens := by
  induction tokens with
  | nil => exact Nat.le_refl _
  | cons token rest ih =>
    have htoken : 0 < size token := by cases token <;> simp [size]
    simp only [List.length_cons, sizeAll]
    omega

theorem Tokens.read_solid {source : String} (h : Tokens.read source = .ok tokens) : solidAll tokens = true := by
  refine (solidAll_of_size tokens).2 ?_
  rw [← sizeAll_plainAll, Tokens.read_opened h, sizeAll_plainAll]

/-- Whether a token is no group without delimiters, whatever stands in it. -/
def Token.overt : Token → Bool
  | .group .invisible _ _ _ => false
  | _ => true

/-- Whether there is no group without delimiters among tokens. -/
def Token.overtAll : List Token → Bool
  | [] => true
  | token :: rest => token.overt && overtAll rest

theorem Token.overt_of_solid {token : Token} (h : token.solid = true) : token.overt = true := by
  rcases token with _ | _ | _ | ⟨_ | _ | _ | _, _, _, _⟩ <;> first | rfl | simp [solid] at h

theorem Token.overtAll_of_solidAll (h : solidAll tokens = true) : overtAll tokens = true := by
  induction tokens with
  | nil => rfl
  | cons token rest ih =>
    simp only [solidAll, Bool.and_eq_true] at h
    rw [overtAll, overt_of_solid h.1, ih h.2]
    rfl

theorem Tokens.read_overt {source : String} (h : Tokens.read source = .ok tokens) : overtAll tokens = true :=
  overtAll_of_solidAll (Tokens.read_solid h)

theorem bare_cons {token : Token} (h : token.overt = true) (rest : Tokens) :
    bare (token :: rest) = token :: rest := by
  have hopen : openToken token (rest ++ []) = some (token :: rest) := by
    rcases token with _ | _ | _ | ⟨_ | _ | _ | _, _, _, _⟩ <;> simp_all [overt, openToken]
  simp only [bare, openTokens, hopen, Option.getD_some]

/-- So is a group with delimiters, whatever stands in it. -/
theorem bare_group (h : delim ≠ .invisible) (body rest : Tokens) (opening closing : Pos) :
    bare (.group delim body opening closing :: rest) = .group delim body opening closing :: rest := by
  have hopen : openToken (.group delim body opening closing) (rest ++ []) =
      some (.group delim body opening closing :: rest) := by
    cases delim <;> simp_all [openToken]
  simp only [bare, openTokens, hopen, Option.getD_some]

/-! ## Runs of tokens -/

namespace Value

/-- Whether a path separator comes next. -/
def separates : Tokens → Bool
  | .punct ':' .joint _ :: .punct ':' _ _ :: _ => true
  | _ => false

/-- Whether a run of tokens ends here: at the end, a comma, a colon that is no path separator, or a cast. -/
def stops (tokens : Tokens) : Bool :=
  match tokens with
  | [] => true
  | .ident name _ :: _ => name == "as"
  | .punct c _ _ :: _ => c == ',' || c == ':' && !separates tokens
  | _ => false

/-- The run of tokens at the front, with each path separator set as one, and what follows it. -/
def run : Tokens → Tokens × Tokens
  | [] => ([], [])
  | .punct ':' .joint pos :: .punct ':' _ _ :: rest =>
    (Token.operator pos [':', ':'] ++ (run rest).1, (run rest).2)
  | token :: rest =>
    if stops (token :: rest) then ([], token :: rest) else (token :: (run rest).1, (run rest).2)

theorem dropOp_separator (h : overtAll tokens = true) :
    dropOp [':', ':'] tokens = if separates tokens then some (tokens.drop 2) else none := by
  rcases tokens with _ | ⟨token, rest⟩
  · rfl
  simp only [overtAll, Bool.and_eq_true] at h
  have hbare := bare_cons h.1 rest
  rcases token with _ | ⟨c, spacing, pos⟩ | _ | _
  case punct =>
    rcases rest with _ | ⟨next, rest⟩
    · have hnil : bare [] = [] := rfl
      cases spacing <;> simp [dropOp, hbare, hnil, separates]
    · simp only [overtAll, Bool.and_eq_true] at h
      have hnext := bare_cons h.2.1 rest
      simp only [dropOp, hbare, hnext]
      unfold separates
      split <;> rcases next with _ | ⟨d, _, _⟩ | _ | _ <;> simp_all <;> grind
  all_goals simp [dropOp, hbare, separates]

/-- The end of a run is found by its first token, unless a path separator comes next. -/
theorem look_stops (h : overtAll tokens = true) (hpath : separates tokens = false) :
    stops tokens =
      (Look.any [List.isEmpty, Look.op ",", Look.word "as"] tokens || Look.op ":" tokens) := by
  rcases tokens with _ | ⟨token, rest⟩
  · rfl
  simp only [overtAll, Bool.and_eq_true] at h
  have hbare := bare_cons h.1 rest
  rcases token with _ | ⟨c, spacing, pos⟩ | _ | _ <;>
    simp [stops, Look.any, Look.op, Look.word, dropOp, hbare, hpath]
  grind

/-- Neither a path separator nor what comes after it ends a run. -/
theorem look_separator (h : overtAll tokens = true) : Look.op "::" tokens = separates tokens := by
  have hdrop : dropOp "::".toList tokens = _ := dropOp_separator h
  rw [Look.op, hdrop]
  cases separates tokens <;> rfl

theorem opaqueTokens_go {n : Nat} (hovert : overtAll tokens = true) (hn : tokens.length < n) (stop : Pos)
    (delim : Delim) (leftover : Option (Pos × Delim)) :
    opaqueTokens.go n ⟨tokens, stop, delim, leftover⟩ =
      .ok ((run tokens).1, ⟨(run tokens).2, stop, delim, leftover⟩) := by
  induction n generalizing tokens with
  | zero => omega
  | succ n ih =>
    have hseparator := look_separator hovert
    unfold opaqueTokens.go
    simp only [bind_run, look_run, ok_bind, ite_run, hseparator]
    fun_cases run tokens with
    | case1 => rfl
    | case2 pos spacing at_ rest =>
      have hrest : overtAll rest = true := by simpa [overtAll, overt] using hovert
      have hrun : op "::" ⟨.punct ':' .joint pos :: .punct ':' spacing at_ :: rest, stop, delim,
          leftover⟩ = .ok (Token.operator pos [':', ':'], ⟨rest, stop, delim, leftover⟩) := by
        have hdrop : dropOp "::".toList _ = _ := dropOp_separator hovert
        rw [op, hdrop]
        rfl
      have htest : Look.any [List.isEmpty, Look.op ",", Look.word "as"]
          (.punct ':' .joint pos :: .punct ':' spacing at_ :: rest) = false := by
        have hbare := bare_cons (show (Token.punct ':' .joint pos).overt = true from rfl)
          (.punct ':' spacing at_ :: rest)
        simp [Look.any, Look.op, Look.word, dropOp, hbare]
      simp only [List.length_cons] at hn
      simp only [htest, separates, hrun, ok_bind, ih hrest (by omega), pure_run]
      rfl
    | case3 token rest hpath hstop =>
      have hother : separates (token :: rest) = false := by
        unfold separates
        split
        · rename_i pos spacing at_ more heq
          exact (hpath pos spacing at_ more (List.cons.inj heq).1 (List.cons.inj heq).2).elim
        · rfl
      have htest := (look_stops hovert hother).symm.trans hstop
      simp only [hother, Bool.false_eq_true, if_false, pure_run]
      cases hfirst : Look.any [List.isEmpty, Look.op ",", Look.word "as"] (token :: rest) with
      | true => rfl
      | false =>
        rw [hfirst, Bool.false_or] at htest
        rw [htest]
        rfl
    | case4 token rest hpath hstop =>
      have hother : separates (token :: rest) = false := by
        unfold separates
        split
        · rename_i pos spacing at_ more heq
          exact (hpath pos spacing at_ more (List.cons.inj heq).1 (List.cons.inj heq).2).elim
        · rfl
      have hrest : overtAll rest = true := by
        simp only [overtAll, Bool.and_eq_true] at hovert
        exact hovert.2
      rw [look_stops hovert hother, Bool.or_eq_true, not_or] at hstop
      simp only [Bool.not_eq_true] at hstop
      simp only [List.length_cons] at hn
      simp only [hother, hstop.1, hstop.2, Bool.false_eq_true, if_false, tree, ok_bind,
        ih hrest (by omega), pure_run]

theorem otherValue_run (hovert : overtAll s.tokens = true) (hne : (run s.tokens).1 ≠ []) :
    otherValue s = .ok (other (run s.tokens).1, { s with tokens := (run s.tokens).2 }) := by
  obtain ⟨tokens, stop, delim, leftover⟩ := s
  have hlength : tokens.length < sizeAll tokens + 1 := Nat.lt_succ_of_le (length_le_sizeAll tokens)
  have hgo := opaqueTokens_go hovert hlength stop delim leftover
  have hrounds : opaqueTokens ⟨tokens, stop, delim, leftover⟩ =
      opaqueTokens.go (sizeAll tokens + 1) ⟨tokens, stop, delim, leftover⟩ := rfl
  have hempty : (run tokens).1.isEmpty = false := by simpa using hne
  simp only [otherValue, bind_run, hrounds, hgo, ok_bind, hempty, Bool.false_eq_true, if_false, pure_run]

theorem casts_none {rules : Rules} {value : Value} (h : Look.word "as" s.tokens = false) :
    casts rules value s = .ok (value, s) := by
  have hrounds : casts rules value s = casts.go rules value (sizeAll s.tokens + 1) s := rfl
  simp only [hrounds, casts.go, bind_run, look_run, ok_bind, ite_run, h, Bool.false_eq_true, if_false,
    pure_run]

end Value

/-! ## Depth -/

namespace Grammar

variable {α : Type} {p q : Parser α}

theorem map_run {β : Type} (f : α → β) (p : Parser α) (s : Stream) :
    (f <$> p) s = (p s).bind fun r => .ok (f r.1, r.2) := rfl

/-- A group is read alike by parsers that agree on what is in it. -/
theorem within_congr
    (h : ∀ body closing, sizeAll body < sizeAll s.tokens →
      p ⟨body, closing, delim, none⟩ = q ⟨body, closing, delim, none⟩) :
    within delim p s = within delim q s := by
  unfold within
  rcases hbare : bare s.tokens with _ | ⟨_ | _ | _ | ⟨found, body, opening, closing⟩, rest⟩ <;>
    simp only
  have hsize := sizeAll_bare s.tokens
  rw [hbare, sizeAll, size] at hsize
  rw [h body closing (by omega)]

/-- What comes next is tried alike by parsers that agree on it. -/
theorem ahead_congr (h : p { s with leftover := none } = q { s with leftover := none }) : ahead p s = ahead q s := by
  simp only [ahead, h]

/-- A list is read alike by parsers that agree on all that is left of it. -/
theorem terminated_congr [hshrinks : Shrinks p] (h : ∀ t, sizeAll t.tokens ≤ sizeAll s.tokens → p t = q t) :
    terminated p s = terminated q s := by
  have hgo : ∀ n t, sizeAll t.tokens ≤ sizeAll s.tokens →
      separatedUntil.go List.isEmpty "," p n t = separatedUntil.go List.isEmpty "," q n t := by
    intro n
    induction n with
    | zero => exact fun _ _ => rfl
    | succ n ih =>
      intro t ht
      simp only [separatedUntil.go, bind_run, look_run, ok_bind, ite_run, ← h t ht]
      split
      · rfl
      cases hfirst : p t with
      | error error => rfl
      | ok found =>
        have hfound := hshrinks.le _ _ _ hfirst
        simp only [ok_bind]
        split
        · rfl
        cases hcomma : op "," found.2 with
        | error error => rfl
        | ok comma =>
          have hrest := (Shrinks.op ",").le _ _ _ hcomma
          simp only [ok_bind, ih comma.2 (by omega)]
  exact hgo _ s (Nat.le_refl _)

end Grammar

namespace Value

theorem entries_congr {p q : Parser Value} [hshrinks : Shrinks p]
    (h : ∀ t, sizeAll t.tokens ≤ sizeAll s.tokens → p t = q t) : entries p s = entries q s := by
  have hentry : ∀ t, sizeAll t.tokens ≤ sizeAll s.tokens →
      (do let key ← p; let _ ← op ":"; return (key, ← p) : Parser (Value × Value)) t =
        (do let key ← q; let _ ← op ":"; return (key, ← q) : Parser (Value × Value)) t := by
    intro t ht
    simp only [bind_run, ← h t ht]
    cases hkey : p t with
    | error error => rfl
    | ok found =>
      have hfound := hshrinks.le _ _ _ hkey
      simp only [ok_bind]
      cases hcolon : op ":" found.2 with
      | error error => rfl
      | ok colon =>
        have hrest := (Shrinks.op ":").le _ _ _ hcolon
        simp only [ok_bind, h colon.2 (by omega)]
  have hlist := terminated_congr hentry
  simp only [entries, bind_run, hlist]

/-- What comes first is read alike by parsers that agree on all that stands in a group. -/
theorem operand_congr {p q : Parser Value} [Shrinks p] (h : ∀ t, sizeAll t.tokens < sizeAll s.tokens → p t = q t) :
    operand p s = operand q s := by
  have hlist : ahead (within .bracket (terminated p)) s = ahead (within .bracket (terminated q)) s :=
    ahead_congr <| within_congr fun body closing hbody =>
      terminated_congr fun t ht => h t (Nat.lt_of_le_of_lt ht hbody)
  have hmap : ahead (within .brace (entries p)) s = ahead (within .brace (entries q)) s :=
    ahead_congr <| within_congr fun body closing hbody =>
      entries_congr fun t ht => h t (Nat.lt_of_le_of_lt ht hbody)
  simp only [operand, bind_run, look_run, ok_bind, ite_run, hlist, hmap]

/-- A value inside a list or a map, which may be nested so deep. -/
def innerTo (depth : Nat) : Parser Value := fun s => parserTo depth (.forTokens s.tokens) s

instance innerTo_shrinks (depth : Nat) : Shrinks (innerTo depth) :=
  ⟨fun s => (Shrinks.valueTo depth (.forTokens s.tokens)).remains s⟩

theorem parserTo_succ (depth : Nat) (rules : Rules) :
    parserTo (depth + 1) rules = (do casts rules (← operand (innerTo depth))) := rfl

/-- The depth does not matter beyond the number of tokens. -/
theorem parserTo_congr {n m : Nat} {rules : Rules} (hn : sizeAll s.tokens < n) (hm : sizeAll s.tokens < m) :
    parserTo n rules s = parserTo m rules s := by
  induction n generalizing m rules s with
  | zero => omega
  | succ n ih =>
    obtain ⟨m, rfl⟩ : ∃ k, m = k + 1 := ⟨m - 1, by omega⟩
    have hinner : ∀ t, sizeAll t.tokens < sizeAll s.tokens → innerTo n t = innerTo m t :=
      fun t ht => ih (by omega) (by omega)
    rw [parserTo_succ, parserTo_succ, bind_run, bind_run, operand_congr hinner]

/-! ## Groups -/

/-- The delimiters of lists and maps. -/
def isListing (delim : Delim) : Bool := delim = .bracket || delim = .brace

/-- The list or the map that stands between delimiters. -/
def insideOf (delim : Delim) (value : Parser Value) : Parser Value :=
  if delim = .brace then map <$> entries value
  else (fun found => array found.items) <$> terminated value

/-- A group is tried, and where it is not what was looked for the other way is taken. -/
theorem tried_group {α : Type} (h : delim ≠ .invisible) {p : Parser α} {f : α → Value}
    {next : Option ((α × Pos × Pos) × Stream) → Parser Value}
    (hnext : ∀ found after, next (some (found, after)) = (do resume after; return f found.1)) (body rest : Tokens)
    (opening closing stop : Pos) (around : Delim) (leftover : Option (Pos × Delim)) :
    (ahead (within delim p) >>= next) ⟨.group delim body opening closing :: rest, stop, around, leftover⟩ =
      match p ⟨body, closing, delim, none⟩ with
      | .ok (found, inner) =>
        .ok (f found, ⟨rest, stop, around, leftover.or (inner.leftover.or inner.remainder)⟩)
      | .error error =>
        if error.cause = .tooDeep then .error error
        else next none ⟨.group delim body opening closing :: rest, stop, around, leftover⟩ := by
  simp only [bind_run, ahead, within, bare_group h, if_true]
  cases p ⟨body, closing, delim, none⟩ with
  | ok found =>
    simp only [ok_bind, hnext]
    rfl
  | error error => by_cases hdeep : error.cause = .tooDeep <;> simp only [hdeep, if_true, if_false] <;> rfl

/-- A group that holds values is a list or a map, and any other one begins a run of tokens. -/
theorem operand_group (h : isListing delim = true) (value : Parser Value) (body rest : Tokens)
    (opening closing stop : Pos) (around : Delim) (leftover : Option (Pos × Delim)) :
    operand value ⟨.group delim body opening closing :: rest, stop, around, leftover⟩ =
      match insideOf delim value ⟨body, closing, delim, none⟩ with
      | .ok (found, inner) =>
        .ok (found, ⟨rest, stop, around, leftover.or (inner.leftover.or inner.remainder)⟩)
      | .error error =>
        if error.cause = .tooDeep then .error error
        else otherValue ⟨.group delim body opening closing :: rest, stop, around, leftover⟩ := by
  have hvisible : delim ≠ .invisible := by
    rintro rfl
    contradiction
  have hbare := bare_group hvisible body rest opening closing
  have hlook : ∀ found, Look.group found (.group delim body opening closing :: rest) = (delim == found) := by
    intro found
    cases found <;> simp [Look.group, hbare, hvisible]
  cases delim with
  | paren | invisible => contradiction
  | bracket =>
    rw [operand, bind_run, look_run, ok_bind, if_pos (by simp [hlook]),
      tried_group (f := fun found => array found.items) hvisible fun _ _ => rfl]
    simp only [insideOf, reduceCtorEq, if_false, map_run]
    cases terminated value ⟨body, closing, .bracket, none⟩ <;> rfl
  | brace =>
    rw [operand, bind_run, look_run, ok_bind, if_neg (by simp [hlook]), bind_run, look_run, ok_bind,
      if_pos (by simp [hlook]), tried_group (f := map) hvisible fun _ _ => rfl]
    simp only [insideOf, if_true, map_run]
    cases entries value ⟨body, closing, .brace, none⟩ <;> rfl

end Value

end Fieldwise
