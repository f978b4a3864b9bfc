import Fieldwise.Proofs.Arguments
import Fieldwise.Proofs.SimulationTypes
import Fieldwise.Proofs.Values

/-!
# Tokens before others

What may follow a type are a comma, a closing angle bracket, a colon or a cast. A character at the end of the
type may be joined to what follows. This module has the tokens with what follows them, and which tests give the
same answer with and without it: as long as tokens are left (`Steady`), and where none are (`Quiet`).
-/

namespace Fieldwise.Grammar

open Fieldwise.Grammar.Parser Fieldwise.Token

/-! ## Tokens before others -/

/-- Whether tokens can stand after a type without being taken for a part of it. -/
def inert : Tokens → Bool
  | [] => true
  | .punct c spacing _ :: _ => c == ',' || c == '>' || c == ':' && spacing == .alone
  | .ident name _ :: _ => name == "as"
  | _ => false

/-- What follows some tokens, and what encloses all of them. -/
structure Sequel where
  /-- Whether a character before it is joined to it. -/
  joins : Bool
  /-- The tokens. -/
  rest : Tokens
  /-- Where the end of the input is reported. -/
  stop : Pos
  /-- What encloses the tokens. -/
  delim : Delim
  /-- They are visible. -/
  overt : overtAll rest = true
  /-- They are no part of what comes before. -/
  inert : inert rest = true

/-- A token before others, to which it may be joined. -/
def Sequel.link (q : Sequel) : Token → Token
  | .punct c spacing pos => .punct c (if q.joins then .joint else spacing) pos
  | token => token

/-- Tokens before others, of which the last may be joined to them. -/
def Sequel.linked (q : Sequel) : Tokens → Tokens
  | [] => []
  | [token] => [q.link token]
  | token :: next :: rest => token :: q.linked (next :: rest)

/-- A stream with all that follows it. -/
def Sequel.grow (q : Sequel) (s : Stream) : Stream :=
  ⟨q.linked s.tokens ++ q.rest, q.stop, q.delim, s.leftover⟩

/-- Whether the last token is no character that an operator or a lifetime could go on after. -/
def firm (tokens : Tokens) : Bool :=
  match tokens.getLast? with
  | some (.punct c _ _) => c != '-' && c != ':' && c != '\''
  | _ => true

/-- Whether a comma comes first, with which no operator goes on. -/
def opensComma : Tokens → Bool
  | .punct ',' _ _ :: _ => true
  | _ => false

theorem exists_of_opensComma {tokens : Tokens} (h : opensComma tokens = true) :
    ∃ spacing pos rest, tokens = .punct ',' spacing pos :: rest := by
  unfold opensComma at h
  split at h
  · exact ⟨_, _, _, rfl⟩
  · contradiction

/-- Whether no bound could go on after a plus sign at the end. -/
def Sequel.fits (q : Sequel) (tokens : Tokens) : Bool :=
  match tokens.getLast? with
  | some (.punct c _ _) => c != '+' || !Look.anyWord q.rest
  | _ => true

/-- Tokens that are left, and whose end goes together with what follows. -/
structure Sequel.Good (q : Sequel) (tokens : Tokens) : Prop where
  /-- Some are left. -/
  ne : tokens ≠ []
  /-- No operator goes on. -/
  firm : (opensComma q.rest || firm tokens) = true
  /-- No bound goes on. -/
  fits : q.fits tokens = true

section Tokens

variable (q : Sequel) {tokens left : Tokens}

theorem linked_cons (token : Token) (h : left ≠ []) : q.linked (token :: left) = token :: q.linked left := by
  cases left with
  | nil => contradiction
  | cons next rest => rfl

theorem linked_append (front : Tokens) (h : left ≠ []) :
    q.linked (front ++ left) = front ++ q.linked left := by
  induction front with
  | nil => rfl
  | cons token front ih =>
    rw [List.cons_append, linked_cons q token (by simp [h]), ih, List.cons_append]

theorem length_linked (tokens : Tokens) : (q.linked tokens).length = tokens.length := by
  induction tokens with
  | nil => rfl
  | cons token rest ih =>
    cases rest with
    | nil => rfl
    | cons next rest => simpa [Sequel.linked] using ih

/-- Where nothing is joined the tokens stay as they are. -/
theorem linked_apart {q : Sequel} (h : q.joins = false) (tokens : Tokens) : q.linked tokens = tokens := by
  induction tokens with
  | nil => rfl
  | cons token rest ih =>
    cases rest with
    | nil => cases token <;> simp [Sequel.linked, Sequel.link, h]
    | cons next rest => rw [Sequel.linked, ih]

theorem overt_link (token : Token) : (q.link token).overt = token.overt := by
  cases token <;> rfl

theorem overtAll_linked (tokens : Tokens) : overtAll (q.linked tokens) = overtAll tokens := by
  induction tokens with
  | nil => rfl
  | cons token rest ih =>
    cases rest with
    | nil => simp [Sequel.linked, overtAll, overt_link]
    | cons next rest => simp_all [Sequel.linked, overtAll]

theorem overtAll_append (left right : Tokens) :
    overtAll (left ++ right) = (overtAll left && overtAll right) := by
  induction left with
  | nil => rfl
  | cons token rest ih => simp [overtAll, ih, Bool.and_assoc]

theorem overtAll_of_suffix (h : left <:+ tokens) (hovert : overtAll tokens = true) :
    overtAll left = true := by
  obtain ⟨front, rfl⟩ := h
  rw [overtAll_append, Bool.and_eq_true] at hovert
  exact hovert.2

theorem bare_overt (h : overtAll tokens = true) : bare tokens = tokens := by
  cases tokens with
  | nil => rfl
  | cons token rest =>
    rw [overtAll, Bool.and_eq_true] at h
    exact bare_cons h.1 rest

theorem overtAll_grown (h : overtAll tokens = true) : overtAll (q.linked tokens ++ q.rest) = true := by
  rw [overtAll_append, overtAll_linked, h, q.overt]
  rfl

theorem bare_grown (h : overtAll tokens = true) :
    bare (q.linked tokens ++ q.rest) = q.linked tokens ++ q.rest :=
  bare_overt (overtAll_grown q h)

theorem getLast?_of_suffix (h : left <:+ tokens) (hne : left ≠ []) :
    tokens.getLast? = left.getLast? := by
  obtain ⟨front, rfl⟩ := h
  rw [List.getLast?_append_of_ne_nil front hne]

theorem Sequel.Good.of_suffix {q : Sequel} (hgood : q.Good left) (h : left <:+ tokens) :
    q.Good tokens where
  ne := by
    rintro rfl
    exact hgood.ne (List.suffix_nil.mp h)
  firm := by simpa only [Grammar.firm, getLast?_of_suffix h hgood.ne] using hgood.firm
  fits := by simpa only [Sequel.fits, getLast?_of_suffix h hgood.ne] using hgood.fits

/-- The last token of what is left is the last of all. -/
theorem firm_of_suffix (h : left <:+ tokens) (hne : left ≠ []) (hfirm : firm left = true) :
    firm tokens = true := by
  simpa only [firm, getLast?_of_suffix h hne] using hfirm

/-- A part at the end that is not empty has the same end. -/
theorem Sequel.Good.to_suffix {q : Sequel} (hgood : q.Good tokens) (h : left <:+ tokens)
    (hne : left ≠ []) : q.Good left where
  ne := hne
  firm := by simpa only [Grammar.firm, getLast?_of_suffix h hne] using hgood.firm
  fits := by simpa only [Sequel.fits, getLast?_of_suffix h hne] using hgood.fits

theorem fits_of_suffix (h : left <:+ tokens) (hfits : q.fits tokens = true) : q.fits left = true := by
  by_cases hne : left = []
  · subst hne
    rfl
  · simpa only [Sequel.fits, getLast?_of_suffix h hne] using hfits

theorem here_grow {s : Stream} (h : s.tokens ≠ []) : (q.grow s).here = s.here := by
  obtain ⟨_ | ⟨token, _ | ⟨next, rest⟩⟩, stop, delim, leftover⟩ := s
  · contradiction
  · cases token <;> rfl
  · rfl

end Tokens

/-! ## Operators -/

/-- Whether no operator with these characters goes on from one stream into the next. -/
def separable : List Char → Bool
  | c :: d :: more =>
    d != ',' && (['-', ':', '\''].contains c || !(['>', ':'].contains d)) && separable (d :: more)
  | _ => true

section Operators

variable (q : Sequel) {cs : List Char} {tokens left : Tokens}

theorem dropOp_suffix (hovert : overtAll tokens = true) (h : dropOp cs tokens = some left) :
    left <:+ tokens := by
  induction cs generalizing tokens with
  | nil =>
    cases h
    exact List.suffix_refl _
  | cons c more ih =>
    rw [dropOp, bare_overt hovert] at h
    split at h
    · rename_i d spacing pos rest
      have hrest : overtAll rest = true := by simpa [overtAll, overt] using hovert
      repeat' split at h
      · cases h
        exact List.suffix_cons _ _
      · exact (ih hrest h).trans (List.suffix_cons _ _)
      all_goals contradiction
    · contradiction

/-- An operator that some tokens follow is found before others too. -/
theorem dropOp_grown (hovert : overtAll tokens = true) (h : dropOp cs tokens = some left)
    (hne : left ≠ []) : dropOp cs (q.linked tokens ++ q.rest) = some (q.linked left ++ q.rest) := by
  induction cs generalizing tokens with
  | nil =>
    cases h
    rfl
  | cons c more ih =>
    rw [dropOp, bare_overt hovert] at h
    split at h
    · rename_i d spacing pos rest
      have hrest : overtAll rest = true := by simpa [overtAll, overt] using hovert
      have hrest_ne : rest ≠ [] := by
        rintro rfl
        rcases more with _ | ⟨next, more⟩ <;> simp_all [dropOp, bare, openTokens]
      have hlinked := linked_cons q (.punct d spacing pos) hrest_ne
      have hbare := bare_grown q hovert
      rw [hlinked] at hbare ⊢
      rw [dropOp, hbare]
      grind
    · contradiction

theorem dropOp_grown_last (hovert : overtAll tokens = true) (hne : tokens ≠ [])
    (h : dropOp cs tokens = some []) :
    dropOp cs (q.linked tokens ++ q.rest) = some q.rest ∧
      ∃ c spacing pos, cs.getLast? = some c ∧ tokens.getLast? = some (.punct c spacing pos) := by
  induction cs generalizing tokens with
  | nil =>
    cases h
    contradiction
  | cons c more ih =>
    rw [dropOp, bare_overt hovert] at h
    split at h
    · rename_i d spacing pos rest
      have hrest : overtAll rest = true := by simpa [overtAll, overt] using hovert
      have hbare := bare_grown q hovert
      rw [dropOp, hbare]
      by_cases hrest_ne : rest = []
      · subst hrest_ne
        rcases more with _ | ⟨next, more⟩
        · simp_all [Sequel.linked, Sequel.link]
        · simp_all [dropOp, bare, openTokens]
      · rcases more with _ | ⟨next, more⟩
        · simp_all
        · rw [linked_cons q _ hrest_ne]
          split at h
          · obtain ⟨rfl, hquote⟩ := ‹c = d ∧ c ≠ '\''›
            simp only [List.isEmpty_cons, Bool.false_eq_true, if_false] at h
            split at h
            · rename_i hjoint
              obtain ⟨hdrop, last, spacing', pos', hlast, htokens⟩ := ih hrest hrest_ne h
              refine ⟨by simp [hquote, hjoint, hdrop], last, spacing', pos', by simp [hlast], ?_⟩
              rw [List.getLast?_cons, htokens]
              rfl
            · contradiction
          · contradiction
    · contradiction

/-- What follows begins with a comma, an angle bracket or a colon if it begins with a character. -/
theorem dropOp_rest_none {c : Char} (h : [',', '>', ':'].contains c = false) (more : List Char) :
    dropOp (c :: more) q.rest = none := by
  obtain ⟨joins, rest, stop, delim, hovert, hinert⟩ := q
  simp only [dropOp, bare_overt hovert]
  rcases rest with _ | ⟨_ | ⟨d, spacing, pos⟩ | _ | _, rest⟩ <;> try rfl
  simp only [inert] at hinert
  grind

theorem dropOp_comma_none (h : opensComma q.rest = true) {c : Char} (hc : c ≠ ',') (more : List Char) :
    dropOp (c :: more) q.rest = none := by
  obtain ⟨spacing, pos, rest, hrest⟩ := exists_of_opensComma h
  rw [hrest, dropOp, bare_cons rfl]
  simp [hc]

theorem dropOp_grown_none (hovert : overtAll tokens = true) (hgood : q.Good tokens)
    (hcs : separable cs = true) (h : dropOp cs tokens = none) :
    dropOp cs (q.linked tokens ++ q.rest) = none := by
  induction cs generalizing tokens with
  | nil => contradiction
  | cons c more ih =>
    have hbare := bare_grown q hovert
    rw [dropOp, hbare]
    rw [dropOp, bare_overt hovert] at h
    rcases tokens with _ | ⟨token, rest⟩
    · exact absurd rfl hgood.ne
    have hrest : overtAll rest = true := by
      rw [overtAll, Bool.and_eq_true] at hovert
      exact hovert.2
    by_cases hrest_ne : rest = []
    · subst hrest_ne
      have hfirm := hgood.firm
      rcases token with _ | ⟨d, spacing, pos⟩ | _ | _ <;> simp only [Sequel.linked, Sequel.link] <;> try rfl
      rcases more with _ | ⟨next, more⟩
      · simp_all
      · have hdrop : c = d → dropOp (next :: more) q.rest = none := by
          rintro rfl
          simp only [separable, Bool.and_eq_true, Bool.or_eq_true] at hcs
          rcases Bool.or_eq_true_iff.mp hfirm with hcomma | hfirm
          · exact dropOp_comma_none q hcomma (by simpa using hcs.1.1) more
          · simp only [firm, List.getLast?_singleton] at hfirm
            exact dropOp_rest_none q (by grind) more
        simp only [List.cons_append, List.nil_append]
        grind
    · have hgood' : q.Good rest := hgood.to_suffix (List.suffix_cons token rest) hrest_ne
      have hseparable : separable more = true := by
        rcases more with _ | ⟨next, more⟩
        · rfl
        · simp only [separable, Bool.and_eq_true] at hcs
          exact hcs.2
      have hmore := ih hrest hgood' hseparable
      rw [linked_cons q token hrest_ne]
      rcases token with _ | ⟨d, spacing, pos⟩ | _ | _ <;> simp only [List.cons_append] <;> try rfl
      grind

end Operators

/-! ## Tests -/

theorem exists_of_separator {tokens : Tokens} (hovert : overtAll tokens = true)
    (h : Look.op "::" tokens = true) : ∃ first spacing second rest,
      tokens = .punct ':' .joint first :: .punct ':' spacing second :: rest := by
  rw [Value.look_separator hovert] at h
  unfold Value.separates at h
  split at h
  · exact ⟨_, _, _, _, rfl⟩
  · contradiction

/-- A test that does not look beyond the tokens that are left. -/
class Steady (q : Sequel) (test : Tokens → Bool) : Prop where
  /-- It gives the same answer before others. -/
  same : ∀ tokens, overtAll tokens = true → q.Good tokens →
    test (q.linked tokens ++ q.rest) = test tokens

/-- A test that does not tell what follows from the end of the tokens. -/
class Quiet (q : Sequel) (test : Tokens → Bool) : Prop where
  /-- It gives the same answer at the end and before others. -/
  same : test q.rest = test []

namespace Steady

variable (q : Sequel)

instance const (b : Bool) : Steady q fun _ => b := ⟨fun _ _ _ => rfl⟩

instance not (test : Tokens → Bool) [h : Steady q test] : Steady q fun ts => !test ts :=
  ⟨fun tokens hovert hgood => by rw [h.same tokens hovert hgood]⟩

instance and (test other : Tokens → Bool) [h : Steady q test] [h' : Steady q other] :
    Steady q fun ts => test ts && other ts :=
  ⟨fun tokens hovert hgood => by rw [h.same tokens hovert hgood, h'.same tokens hovert hgood]⟩

instance or (test other : Tokens → Bool) [h : Steady q test] [h' : Steady q other] :
    Steady q fun ts => test ts || other ts :=
  ⟨fun tokens hovert hgood => by rw [h.same tokens hovert hgood, h'.same tokens hovert hgood]⟩

instance any_nil : Steady q (Look.any []) := ⟨fun _ _ _ => rfl⟩

instance any_cons (test : Tokens → Bool) (tests : List (Tokens → Bool)) [h : Steady q test]
    [h' : Steady q (Look.any tests)] : Steady q (Look.any (test :: tests)) where
  same tokens hovert hgood := by
    have hrest := h'.same tokens hovert hgood
    simp only [Look.any, List.any_cons] at hrest ⊢
    rw [h.same tokens hovert hgood, hrest]

instance isEmpty : Steady q List.isEmpty where
  same tokens _ hgood := by
    have hlength := length_linked q tokens
    rcases tokens with _ | ⟨token, rest⟩
    · exact absurd rfl hgood.ne
    · rcases hlinked : q.linked (token :: rest) with _ | ⟨first, more⟩
      · simp [hlinked] at hlength
      · rfl

theorem op {text : String} (h : separable text.toList = true) : Steady q (Look.op text) where
  same tokens hovert hgood := by
    unfold Look.op
    cases hdrop : dropOp text.toList tokens with
    | none => rw [dropOp_grown_none q hovert hgood h hdrop]
    | some left =>
      by_cases hleft : left = []
      · subst hleft
        rw [(dropOp_grown_last q hovert hgood.ne hdrop).1]
        rfl
      · rw [dropOp_grown q hovert hdrop hleft]
        rfl

instance op_path : Steady q (Look.op "::") := op q rfl

instance op_arrow : Steady q (Look.op "->") := op q rfl

instance op_less : Steady q (Look.op "<") := op q rfl

instance op_less_equal : Steady q (Look.op "<=") := op q rfl

instance op_greater : Steady q (Look.op ">") := op q rfl

instance op_comma : Steady q (Look.op ",") := op q rfl

instance op_colon : Steady q (Look.op ":") := op q rfl

instance op_equal : Steady q (Look.op "=") := op q rfl

instance op_plus : Steady q (Look.op "+") := op q rfl

instance op_bang : Steady q (Look.op "!") := op q rfl

instance op_bang_equal : Steady q (Look.op "!=") := op q rfl

instance op_question : Steady q (Look.op "?") := op q rfl

instance op_star : Steady q (Look.op "*") := op q rfl

instance op_ampersand : Steady q (Look.op "&") := op q rfl

instance op_hash : Steady q (Look.op "#") := op q rfl

/-- A test that asks for the first token, and not how it is joined to the next. -/
theorem of_first {test : Tokens → Bool} (view : Token → Bool)
    (hview : ∀ token, view (q.link token) = view token)
    (h : ∀ token rest, overtAll (token :: rest) = true → test (token :: rest) = view token) :
    Steady q test where
  same tokens hovert hgood := by
    have hgrown := overtAll_grown q hovert
    rcases tokens with _ | ⟨token, _ | ⟨next, rest⟩⟩
    · exact absurd rfl hgood.ne
    · simp only [Sequel.linked, List.cons_append] at hgrown ⊢
      rw [h _ _ hgrown, h _ _ hovert, hview]
    · simp only [Sequel.linked, List.cons_append] at hgrown ⊢
      rw [h _ _ hgrown, h _ _ hovert]

instance word (name : String) : Steady q (Look.word name) :=
  of_first q (fun | .ident found _ => found == name | _ => false) (fun token => by cases token <;> rfl)
    fun token rest hovert => by cases token <;> simp [Look.word, bare_overt hovert]

instance words (names : List String) : Steady q (Look.words names) where
  same tokens hovert hgood := by simp only [Look.words, (word q _).same tokens hovert hgood]

instance anyWord : Steady q Look.anyWord :=
  of_first q (fun | .ident _ _ => true | _ => false) (fun token => by cases token <;> rfl)
    fun token rest hovert => by cases token <;> simp [Look.anyWord, bare_overt hovert]

instance ident : Steady q Look.ident :=
  of_first q (fun | .ident found _ => !isKeyword found | _ => false)
    (fun token => by cases token <;> rfl)
    fun token rest hovert => by cases token <;> simp [Look.ident, bare_overt hovert]

instance group (delim : Delim) : Steady q (Look.group delim) := by
  refine of_first q (fun | .group found _ _ _ => found == delim && delim != .invisible | _ => false)
    (fun token => by cases token <;> rfl) fun token rest hovert => ?_
  cases delim with
  | invisible => rcases token with _ | _ | _ | ⟨_ | _ | _ | _, _, _, _⟩ <;> simp_all [Look.group, overtAll, overt]
  | _ => cases token <;> simp [Look.group, bare_overt hovert]

instance lifetime : Steady q Look.lifetime where
  same tokens hovert hgood := by
    have hbare := bare_grown q hovert
    have hfirm := hgood.firm
    simp only [Look.lifetime, bare_overt hovert, hbare]
    rcases tokens with _ | ⟨token, _ | ⟨next, _ | ⟨other, rest⟩⟩⟩
    · exact absurd rfl hgood.ne
    · rcases Bool.or_eq_true_iff.mp hfirm with hcomma | hfirm
      · obtain ⟨spacing, pos, rest, hrest⟩ := exists_of_opensComma hcomma
        rcases token with _ | _ | _ | _ <;> simp_all [Sequel.linked, Sequel.link]
      · rcases token with _ | _ | _ | _ <;> simp_all [Sequel.linked, Sequel.link, firm]
    · rcases token with _ | ⟨c, spacing, pos⟩ | _ | _ <;> cases next <;>
        simp [Sequel.linked, Sequel.link] <;> grind
    · rcases token with _ | ⟨c, spacing, pos⟩ | _ | _ <;> cases next <;>
        simp [Sequel.linked] <;> grind

end Steady

/-- A token tree is one token, or the two of a lifetime. -/
theorem dropTree_overt {token : Token} {rest : Tokens} (h : overtAll (token :: rest) = true) :
    dropTree (token :: rest) = some (if Look.lifetime (token :: rest) then rest.tail else rest) := by
  simp only [dropTree, Look.lifetime, bare_overt h]
  rcases token with _ | ⟨c, spacing, pos⟩ | _ | _ <;> rcases rest with _ | ⟨_ | _ | _ | _, rest⟩ <;> grind

theorem dropTree_punct {c : Char} (h : c ≠ '\'') (spacing : Spacing) (pos : Pos) (rest : Tokens) :
    dropTree (.punct c spacing pos :: rest) = some rest := by
  rw [dropTree, bare_cons rfl]
  simp [h]

theorem linked_tail (q : Sequel) (token : Token) (rest : Tokens) :
    (q.linked (token :: rest)).tail = q.linked rest := by
  cases rest <;> rfl

/-- A token tree is taken from the tokens that are left. -/
theorem dropTree_grown (q : Sequel) {tokens : Tokens} (hovert : overtAll tokens = true)
    (hgood : q.Good tokens) : ∃ left, dropTree tokens = some left ∧ left <:+ tokens ∧
      dropTree (q.linked tokens ++ q.rest) = some (q.linked left ++ q.rest) := by
  have hlife := (Steady.lifetime q).same tokens hovert hgood
  have hgrown := overtAll_grown q hovert
  rcases tokens with _ | ⟨token, _ | ⟨next, rest⟩⟩
  · exact absurd rfl hgood.ne
  · have hnone : Look.lifetime [token] = false := by
      rw [Look.lifetime, bare_overt hovert]
      grind
    simp only [Sequel.linked, List.cons_append] at hgrown hlife ⊢
    rw [dropTree_overt hovert, dropTree_overt hgrown, hlife, hnone]
    exact ⟨[], rfl, List.nil_suffix, rfl⟩
  · simp only [Sequel.linked, List.cons_append] at hgrown hlife ⊢
    rw [dropTree_overt hovert, dropTree_overt hgrown, hlife]
    refine ⟨_, rfl, ?_, ?_⟩
    · split
      · exact (List.suffix_cons next rest).trans (List.suffix_cons token _)
      · exact List.suffix_cons token _
    · have htail := linked_tail q next rest
      split
      · rcases hlinked : q.linked (next :: rest) with _ | ⟨first, more⟩
        · have hlength := length_linked q (next :: rest)
          simp [hlinked] at hlength
        · rw [hlinked] at htail
          simpa using htail
      · rfl

theorem lit?_grown (q : Sequel) {tokens : Tokens} (hovert : overtAll tokens = true) (hne : tokens ≠ []) :
    lit? (q.linked tokens ++ q.rest) = (lit? tokens).map fun r => (r.1, q.linked r.2 ++ q.rest) := by
  have hgrown := overtAll_grown q hovert
  simp only [lit?, bare_overt hovert, bare_overt hgrown]
  rcases tokens with _ | ⟨token, _ | ⟨next, rest⟩⟩
  · exact absurd rfl hne
  · rcases token with _ | ⟨c, spacing, pos⟩ | _ | _
    all_goals simp only [Sequel.linked, Sequel.link, List.cons_append, List.nil_append]
    · split <;> rfl
    · -- No number follows a minus sign at the end.
      have hrest : ∀ shown at_ more, bare q.rest ≠ .literal shown at_ :: more := by
        intro shown at_ more hrest
        have hinert := q.inert
        rw [bare_overt q.overt] at hrest
        rw [hrest] at hinert
        contradiction
      by_cases hc : c = '-'
      · subst hc
        have hnil : bare ([] : Tokens) = [] := rfl
        simp only [hnil, Option.map_none]
      · simp [hc]
    · rfl
    · rfl
  · have hmore : overtAll (next :: rest) = true := by
      rw [overtAll, Bool.and_eq_true] at hovert
      exact hovert.2
    simp only [Sequel.linked, List.cons_append]
    rcases token with _ | ⟨c, spacing, pos⟩ | _ | _
    · simp only
      split <;> rfl
    · by_cases hc : c = '-'
      · subst hc
        simp only [bare_overt hmore, bare_grown q hmore]
        -- A number is the last token or stands before others, and is the same token either way.
        rcases next with _ | _ | ⟨shown, at_⟩ | _ <;> rcases rest with _ | ⟨other, rest⟩ <;>
          simp only [Sequel.linked, Sequel.link, List.cons_append, List.nil_append] <;>
          first | rfl | (cases negative? shown <;> rfl)
      · simp [hc]
    · rfl
    · rfl

namespace Steady

variable (q : Sequel)

instance second (test : Tokens → Bool) [h : Steady q test] [h' : Quiet q test] :
    Steady q (Look.second test) where
  same tokens hovert hgood := by
    obtain ⟨left, hdrop, hsuffix, hgrown⟩ := dropTree_grown q hovert hgood
    simp only [Look.second, hdrop, hgrown, Option.any_some]
    by_cases hne : left = []
    · subst hne
      exact h'.same
    · exact h.same left (overtAll_of_suffix hsuffix hovert) (hgood.to_suffix hsuffix hne)

instance lookLit : Steady q lookLit where
  same tokens hovert hgood := by
    rw [Parser.lookLit, Parser.lookLit, lit?_grown q hovert hgood.ne]
    cases lit? tokens <;> rfl

instance lookText : Steady q lookText where
  same tokens hovert hgood := by
    rw [Parser.lookText, lookLitKind, lookLitKind, lit?_grown q hovert hgood.ne]
    cases lit? tokens <;> rfl

/-- After a path separator some token is left, or a comma follows. -/
theorem third (test : Tokens → Bool) [h : Steady q test]
    (hcomma : ∀ spacing pos rest, test (.punct ',' spacing pos :: rest) = test []) (judge : Bool → Bool) :
    Steady q fun ts => Look.op "::" ts && judge (Look.third test ts) where
  same tokens hovert hgood := by
    rw [(op_path q).same tokens hovert hgood]
    cases hop : Look.op "::" tokens with
    | false => rfl
    | true =>
      obtain ⟨first, spacing, second, rest, rfl⟩ := exists_of_separator hovert hop
      by_cases hne : rest = []
      · subst hne
        have hfirm := hgood.firm
        simp only [firm, List.getLast?_cons_cons, List.getLast?_singleton] at hfirm
        obtain ⟨comma, pos, rest, hrest⟩ := exists_of_opensComma (by simpa using hfirm)
        simp only [Sequel.linked, Sequel.link, List.cons_append, List.nil_append]
        simp only [Look.third, dropTree_punct (show ':' ≠ '\'' by decide), Option.bind_some, Option.any_some, hrest,
          hcomma]
      · have hrest : overtAll rest = true := by simpa [overtAll, overt] using hovert
        have hleft := hgood.to_suffix ((List.suffix_cons _ rest).trans (List.suffix_cons _ _)) hne
        have hsame := h.same rest hrest hleft
        simp only [linked_cons q _ hne, Sequel.linked, List.cons_append]
        simp only [Look.third, dropTree_punct (show ':' ≠ '\'' by decide), Option.bind_some, Option.any_some,
          hsame]

end Steady

namespace Quiet

variable (q : Sequel)

instance const (b : Bool) : Quiet q fun _ => b := ⟨rfl⟩

instance not (test : Tokens → Bool) [h : Quiet q test] : Quiet q fun ts => !test ts :=
  ⟨by rw [h.same]⟩

instance and (test other : Tokens → Bool) [h : Quiet q test] [h' : Quiet q other] :
    Quiet q fun ts => test ts && other ts := ⟨by rw [h.same, h'.same]⟩

instance or (test other : Tokens → Bool) [h : Quiet q test] [h' : Quiet q other] :
    Quiet q fun ts => test ts || other ts := ⟨by rw [h.same, h'.same]⟩

instance any_nil : Quiet q (Look.any []) := ⟨rfl⟩

instance any_cons (test : Tokens → Bool) (tests : List (Tokens → Bool)) [h : Quiet q test]
    [h' : Quiet q (Look.any tests)] : Quiet q (Look.any (test :: tests)) where
  same := by
    have hrest := h'.same
    simp only [Look.any, List.any_cons] at hrest ⊢
    rw [h.same, hrest]

/-- An operator that does not begin like what follows. -/
theorem op {text : String} {c : Char} {more : List Char} (htext : text.toList = c :: more)
    (h : [',', '>', ':'].contains c = false) : Quiet q (Look.op text) where
  same := by
    rw [Look.op, Look.op, htext, dropOp_rest_none q h more]
    rfl

instance op_path : Quiet q (Look.op "::") where
  same := by
    obtain ⟨joins, rest, stop, delim, hovert, hinert⟩ := q
    rw [Value.look_separator hovert, Value.look_separator rfl]
    rcases rest with _ | ⟨_ | ⟨c, spacing, pos⟩ | _ | _, rest⟩ <;> try rfl
    simp only [inert, Value.separates] at hinert ⊢
    grind

instance op_arrow : Quiet q (Look.op "->") := op q rfl rfl

instance op_less : Quiet q (Look.op "<") := op q rfl rfl

instance op_less_equal : Quiet q (Look.op "<=") := op q rfl rfl

instance op_plus : Quiet q (Look.op "+") := op q rfl rfl

instance op_bang : Quiet q (Look.op "!") := op q rfl rfl

instance op_bang_equal : Quiet q (Look.op "!=") := op q rfl rfl

instance op_question : Quiet q (Look.op "?") := op q rfl rfl

/-- A test that asks for a first token that cannot follow. -/
theorem of_first {test : Tokens → Bool} (hnil : test [] = false)
    (hpunct : ∀ c spacing pos rest, c = ',' ∨ c = '>' ∨ c = ':' →
      test (.punct c spacing pos :: rest) = false)
    (has : ∀ pos rest, test (.ident "as" pos :: rest) = false) : Quiet q test where
  same := by
    obtain ⟨joins, rest, stop, delim, hovert, hinert⟩ := q
    rcases rest with _ | ⟨⟨name, pos⟩ | ⟨c, spacing, pos⟩ | _ | _, rest⟩
    · rfl
    · obtain rfl : name = "as" := by simpa [inert] using hinert
      rw [has, hnil]
    · rw [hpunct c spacing pos rest (by simp only [inert] at hinert; grind), hnil]
    · contradiction
    · contradiction

instance group_paren : Quiet q (Look.group .paren) :=
  of_first q rfl (fun _ _ _ _ _ => rfl) fun _ _ => rfl

instance lifetime : Quiet q Look.lifetime :=
  of_first q rfl (fun c spacing pos rest hc => by rcases hc with rfl | rfl | rfl <;> rfl) fun _ _ => rfl

theorem third (test : Tokens → Bool) (judge : Bool → Bool) :
    Quiet q fun ts => Look.op "::" ts && judge (Look.third test ts) where
  same := by rw [(op_path q).same]; rfl

end Quiet

end Fieldwise.Grammar
