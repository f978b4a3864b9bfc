import Fieldwise.Proofs.Outcome
import Fieldwise.Proofs.TypeArguments
import Mathlib.Data.List.Forall2

/-!
# Values are read again from their tokens

A value that is read from a text is written with tokens that are read as the same value, up to places and spacing, if
the types in its casts are: the same literals, runs of tokens and nesting, and the same casts in the same order. What
follows a value when it is written differs from what followed it when it was read, since commas at the end of lists
are not kept; so everything is shown for whatever can follow.
-/

namespace Fieldwise

open Fieldwise.Grammar Fieldwise.Grammar.Parser Fieldwise.Token

/-! ## Types -/

namespace Grammar

/-- A type is read from the tokens that it is written with as the same type, up to places. -/
def Ty.Rereads (type : Ty) : Prop :=
  ∃ found, parseType type.tokens = .ok found ∧ retouch Retouch.plain found = retouch Retouch.plain type

end Grammar

theorem word_of_anyWord {tokens : Tokens} (h : Look.anyWord tokens = false) (name : String) :
    Look.word name tokens = false := by
  unfold Look.anyWord at h
  unfold Look.word
  split at h
  · contradiction
  · rfl

namespace Value

/-! ## Casts -/

mutual

/-- The types of the casts in a value. -/
def castTypes : Value → List Ty
  | cast value type _ => type :: value.castTypes
  | array elements => castTypesAll elements
  | map entries => castTypesEntries entries
  | _ => []

/-- The types of the casts in values. -/
def castTypesAll : List Value → List Ty
  | [] => []
  | value :: rest => value.castTypes ++ castTypesAll rest

/-- The types of the casts in the entries of a map. -/
def castTypesEntries : List (Value × Value) → List Ty
  | [] => []
  | (key, value) :: rest => key.castTypes ++ value.castTypes ++ castTypesEntries rest

end

theorem castTypes_of_mem {elements : List Value} {value : Value} (h : value ∈ elements) :
    value.castTypes ⊆ (array elements).castTypes := by
  rw [castTypes]
  induction elements with
  | nil => contradiction
  | cons first rest ih =>
    rw [castTypesAll]
    rcases List.mem_cons.mp h with rfl | h
    · exact List.subset_append_left _ _
    · exact fun type hmem => List.mem_append_right _ (ih h hmem)

theorem castTypes_of_entry {entries : List (Value × Value)} {key value : Value} (h : (key, value) ∈ entries) :
    key.castTypes ++ value.castTypes ⊆ (map entries).castTypes := by
  rw [castTypes]
  induction entries with
  | nil => contradiction
  | cons first rest ih =>
    rcases List.mem_cons.mp h with rfl | h
    · exact List.subset_append_left _ _
    · exact fun type hmem => List.mem_append_right _ (ih h hmem)

/-- A value, the same value with casts applied to it, and the tokens of these casts. A type that ends with a plus
sign is the last one. -/
inductive Casted : Value → Value → Tokens → Prop
  | done (value) : Casted value value []
  | cast {value last type conditional suffix} (hne : type.tokens ≠ []) (hovert : overtAll type.tokens = true)
      (hplus : endsPlus type.tokens = true → suffix = [])
      (hrest : Casted (cast value type conditional) last suffix) :
      Casted value last (term "as" ++ (if conditional then sign "?" else []) ++ type.tokens ++ suffix)

namespace Casted

variable {value last : Value} {suffix : Tokens}

theorem tokens_eq (h : Casted value last suffix) : last.tokens = value.tokens ++ suffix := by
  induction h with
  | done value => rw [List.append_nil]
  | cast hne hovert hplus hrest ih => simp [ih, Value.tokens]

theorem castTypes_subset (h : Casted value last suffix) : value.castTypes ⊆ last.castTypes := by
  induction h with
  | done value => exact List.Subset.refl _
  | cast hne hovert hplus hrest ih =>
    rw [castTypes] at ih
    exact (List.cons_subset.mp ih).2

theorem overt (h : Casted value last suffix) : overtAll suffix = true := by
  induction h with
  | done value => rfl
  | @cast value last type conditional suffix hne hovert hplus hrest ih =>
    have hquestion : overtAll (if conditional then sign "?" else []) = true := by cases conditional <;> rfl
    simp [overtAll_append, hquestion, hovert, ih, term, overtAll, Token.overt]

theorem starts (h : Casted value last suffix) : suffix = [] ∨ ∃ rest, suffix = .ident "as" Pos.callSite :: rest := by
  cases h with
  | done => exact .inl rfl
  | cast => exact .inr ⟨_, rfl⟩

end Casted

/-- What is cast is followed by the tokens of the casts. -/
def Casted.sequel {value last : Value} {suffix : Tokens} (h : Casted value last suffix) (q : Sequel) : Sequel where
  joins := false
  rest := suffix ++ q.rest
  stop := q.stop
  delim := q.delim
  overt := by rw [overtAll_append, h.overt, q.overt]; rfl
  inert := by
    rcases h.starts with rfl | ⟨rest, rfl⟩
    · exact q.inert
    · rfl

/-- Casts that are read are applied one after the other. -/
theorem casted_of_go {depth n : Nat} {value found : Value} {s t : Stream} (hsolid : solidAll s.tokens = true)
    (h : casts.go (.level depth) value n s = .ok (found, t)) :
    ∃ suffix, Casted value found suffix ∧ (Look.word "as" s.tokens = false → suffix = []) := by
  induction n generalizing value s with
  | zero =>
    obtain ⟨rfl, rfl⟩ := pure_eq_ok.mp h
    exact ⟨[], .done _, fun _ => rfl⟩
  | succ n ih =>
    obtain ⟨isCast, m, hlook, h⟩ := Grammar.bind_eq_ok.mp h
    obtain ⟨rfl, rfl⟩ := look_eq_ok.mp hlook
    split at h
    · rename_i hword
      obtain ⟨_, m, has, h⟩ := Grammar.bind_eq_ok.mp h
      obtain ⟨conditional, m', hquestion, h⟩ := Grammar.bind_eq_ok.mp h
      obtain ⟨type, u, htype, h⟩ := Grammar.bind_eq_ok.mp h
      have hm := solidAll_of_suffix
        ((Extends.picks .alone (word "as")).suffix _ _ _ (overtAll_of_solidAll hsolid) has) hsolid
      have hm' := solidAll_of_suffix
        ((inferInstance : Extends .alone (op? "?")).suffix _ _ _ (overtAll_of_solidAll hm) hquestion) hm
      obtain ⟨hu, hne, hended⟩ := (Rules.Printing.level depth).type true _ _ _ hm' trivial htype
      obtain ⟨suffix, hcasted, hlast⟩ := ih (solidAll_of_suffix hu hm') h
      refine ⟨_, .cast hne hended.overt (fun hplus => hlast ?_) hcasted, fun hno => absurd hword (by simp [hno])⟩
      exact word_of_anyWord (hended.plus hplus) "as"
    · obtain ⟨rfl, rfl⟩ := pure_eq_ok.mp h
      exact ⟨[], .done _, fun _ => rfl⟩

theorem depthFor_mono {tokens more : Tokens} (h : sizeAll tokens ≤ sizeAll more) : depthFor tokens ≤ depthFor more := by
  unfold depthFor
  omega

/-- A character that begins no lifetime is taken before other tokens. -/
theorem op_sign {text : String} {c : Char} (htext : text.toList = [c]) (hc : c ≠ '\'') (tokens : Tokens) (stop : Pos)
    (delim : Delim) :
    Look.op text (sign text ++ tokens) = true ∧
      ∃ taken, op text ⟨sign text ++ tokens, stop, delim, none⟩ = .ok (taken, ⟨tokens, stop, delim, none⟩) := by
  have hsign : sign text = [.punct c .alone Pos.callSite] := by rw [sign, htext]; rfl
  have hdrop : dropOp text.toList (sign text ++ tokens) = some tokens := by
    rw [htext, hsign, List.singleton_append, dropOp, bare_cons rfl]
    simp [hc]
  exact ⟨by rw [Look.op, hdrop]; rfl, _, by rw [op, hdrop]⟩

/-- The question mark of a conditional cast is taken, and no other one is there. -/
theorem question_before {conditional : Bool} {tokens : Tokens} (hno : Look.op "?" tokens = false) (stop : Pos)
    (delim : Delim) :
    ∃ found, op? "?" ⟨(if conditional then sign "?" else []) ++ tokens, stop, delim, none⟩ =
      .ok (found, ⟨tokens, stop, delim, none⟩) ∧ found.isSome = conditional := by
  cases conditional with
  | false =>
    refine ⟨none, ?_, rfl⟩
    rw [if_neg Bool.false_ne_true, List.nil_append, op?, bind_run, look_run, ok_bind, hno]
    rfl
  | true =>
    obtain ⟨hlook, taken, hop⟩ := @op_sign "?" '?' rfl (by decide) tokens stop delim
    refine ⟨some taken, ?_, rfl⟩
    rw [if_pos rfl, op?, bind_run, look_run, ok_bind, hlook, if_pos rfl, map_run, hop]
    rfl

theorem word_term (name : String) (tokens : Tokens) (stop : Pos) (delim : Delim) :
    word name ⟨term name ++ tokens, stop, delim, none⟩ = .ok (term name, ⟨tokens, stop, delim, none⟩) := by
  simp [word, term, bare_cons (show (Token.ident name Pos.callSite).overt = true from rfl)]

/-- Casts whose types are read again are read again before whatever follows them but another cast. -/
theorem Casted.again {value last : Value} {suffix : Tokens} (h : Casted value last suffix)
    (htypes : ∀ type ∈ last.castTypes, type.Rereads) {front : Value}
    (halike : retouch Retouch.plain front = retouch Retouch.plain value) :
    ∃ again, retouch Retouch.plain again = retouch Retouch.plain last ∧
      ∀ (q : Sequel) (n depth : Nat), q.joins = false → Look.anyWord q.rest = false → suffix.length < n →
        depthFor suffix ≤ depth →
          casts.go (.level depth) front n ⟨suffix ++ q.rest, q.stop, q.delim, none⟩ =
            .ok (again, ⟨q.rest, q.stop, q.delim, none⟩) := by
  induction h generalizing front with
  | done value =>
    refine ⟨front, halike, fun q n depth _ hword hn _ => ?_⟩
    obtain ⟨n, rfl⟩ : ∃ k, n = k + 1 := ⟨n - 1, by omega⟩
    rw [List.nil_append, casts.go, bind_run, look_run, ok_bind, word_of_anyWord hword]
    rfl
  | @cast value last type conditional suffix hne hovert hplus hrest ih =>
    have hmem : type ∈ last.castTypes := hrest.castTypes_subset (by rw [castTypes]; exact List.mem_cons_self)
    obtain ⟨found, hfound, hsame⟩ := htypes type hmem
    obtain ⟨again, hagain, hread⟩ := @ih htypes (.cast front found conditional) (by
      rw [retouch_castValue, retouch_castValue, halike, hsame])
    refine ⟨again, hagain, fun q n depth hapart hword hn hdepth => ?_⟩
    obtain ⟨n, rfl⟩ : ∃ k, n = k + 1 := ⟨n - 1, by omega⟩
    have hended : Ended type.tokens (hrest.sequel q).rest := by
      refine ⟨hovert, fun hends => ?_⟩
      obtain rfl := hplus hends
      exact hword
    have hsizes : sizeAll type.tokens ≤
          sizeAll (term "as" ++ (if conditional then sign "?" else []) ++ type.tokens ++ suffix) ∧
        sizeAll suffix ≤
          sizeAll (term "as" ++ (if conditional then sign "?" else []) ++ type.tokens ++ suffix) := by
      simp only [sizeAll_append]
      omega
    have htype := type_before rfl hne hended hfound (Nat.le_trans (depthFor_mono hsizes.1) hdepth)
    have hovert' := overtAll_before (hrest.sequel q) hovert
    obtain ⟨question, hquestion, hconditional⟩ :=
      @question_before conditional _ (type_question hovert' htype) q.stop q.delim
    have htokens : term "as" ++ (if conditional then sign "?" else []) ++ type.tokens ++ suffix ++ q.rest =
      term "as" ++ ((if conditional then sign "?" else []) ++ (type.tokens ++ (hrest.sequel q).rest)) := by
        simp [Casted.sequel]
    have hlook : Look.word "as" (term "as" ++ ((if conditional then sign "?" else []) ++
      (type.tokens ++ (hrest.sequel q).rest))) = true := by
        simp [Look.word, term, bare_cons (show (Token.ident "as" Pos.callSite).overt = true from rfl)]
    rw [htokens, casts.go, bind_run, look_run, ok_bind, hlook, if_pos rfl, bind_run, word_term, ok_bind, bind_run,
      hquestion, ok_bind, bind_run]
    have htype' : (Rules.level depth).type true
      ⟨type.tokens ++ (hrest.sequel q).rest, q.stop, q.delim, none⟩ = _ := htype
    rw [htype', ok_bind, hconditional]
    refine hread q n depth hapart hword ?_ (Nat.le_trans (depthFor_mono hsizes.2) hdepth)
    simp only [List.length_append] at hn
    have has : (term "as").length = 1 := rfl
    omega

/-! ## Lists and maps -/

/-- Where a list ends or goes on with a comma, a run of tokens ends and no word comes. -/
theorem stops_of_comma {tokens : Tokens} (h : tokens = [] ∨ opensComma tokens = true) :
    stops tokens = true ∧ Look.anyWord tokens = false := by
  rcases h with rfl | h
  · exact ⟨rfl, rfl⟩
  · obtain ⟨spacing, pos, rest, rfl⟩ := exists_of_opensComma h
    exact ⟨rfl, by rw [Look.anyWord, bare_cons rfl]⟩

/-- Tokens that are read as an item, whatever comes after them in a list. -/
structure Listable {α : Type} (item : Parser α) (bound : Nat) (piece : Tokens) (a : α) : Prop where
  ne : piece ≠ []
  overt : overtAll piece = true
  read : ∀ q : Sequel, q.joins = false → (q.rest = [] ∨ opensComma q.rest = true) →
    sizeAll (piece ++ q.rest) < bound →
      item ⟨piece ++ q.rest, q.stop, q.delim, none⟩ = .ok (a, ⟨q.rest, q.stop, q.delim, none⟩)

/-- The sequel of an item in a list that goes on. -/
def listSequel (rest : Tokens) (hovert : overtAll rest = true) (stop : Pos) (delim : Delim) : Sequel where
  joins := false
  rest := sign "," ++ rest
  stop := stop
  delim := delim
  overt := by rw [overtAll_append, hovert]; rfl
  inert := rfl

theorem overtAll_listed {α : Type} {item : Parser α} {bound : Nat} {pieces : List Tokens} {found : List α}
    (h : List.Forall₂ (Listable item bound) pieces found) : overtAll (joined (sign ",") pieces false) = true := by
  refine overtAll_joined (overtAll_sign _) ?_ false
  induction h with
  | nil => simp
  | cons hpiece hrest ih => exact List.forall_mem_cons.mpr ⟨hpiece.overt, ih⟩

/-- Items with commas between them are read as a list. -/
theorem terminated_again {α : Type} {item : Parser α} {bound : Nat} {pieces : List Tokens} {found : List α}
    (h : List.Forall₂ (Listable item bound) pieces found)
    (hbound : sizeAll (joined (sign ",") pieces false) < bound) (stop : Pos) (delim : Delim) :
    terminated item ⟨joined (sign ",") pieces false, stop, delim, none⟩ =
      .ok (⟨found, false⟩, ⟨[], stop, delim, none⟩) := by
  suffices hgo : ∀ n, (joined (sign ",") pieces false).length < n →
      separatedUntil.go List.isEmpty "," item n ⟨joined (sign ",") pieces false, stop, delim, none⟩ =
        .ok (⟨found, false⟩, ⟨[], stop, delim, none⟩) from
    hgo _ (Nat.lt_succ_of_le (length_le_sizeAll _))
  induction h with
  | nil =>
    intro n hn
    obtain ⟨n, rfl⟩ : ∃ k, n = k + 1 := ⟨n - 1, by omega⟩
    rfl
  | @cons piece a pieces found hpiece hrest ih =>
    intro n hn
    obtain ⟨n, rfl⟩ : ∃ k, n = k + 1 := ⟨n - 1, by omega⟩
    have hstart : ∀ rest, (piece ++ rest).isEmpty = false := by simp [hpiece.ne]
    have hovert := overtAll_listed hrest
    cases hrest with
    | nil =>
      have hread := hpiece.read ⟨false, [], stop, delim, rfl, rfl⟩ rfl (.inl rfl) (by simpa [joined] using hbound)
      simp only [joined, Bool.false_eq_true, if_false, separatedUntil.go, bind_run, look_run, ok_bind, ite_run, hstart,
        hread, pure_run, List.isEmpty_nil, if_true]
    | @cons next b pieces found hnext hrest =>
      obtain ⟨-, comma, hcomma⟩ :=
        @op_sign "," ',' rfl (by decide) (joined (sign ",") (next :: pieces) false) stop delim
      have hjoined : joined (sign ",") (piece :: next :: pieces) false =
          piece ++ (sign "," ++ joined (sign ",") (next :: pieces) false) := by
        rw [joined, List.append_assoc]
        simp
      have hgoes : (sign "," ++ joined (sign ",") (next :: pieces) false).isEmpty = false := rfl
      have hlength : (sign ",").length = 1 := rfl
      rw [hjoined] at hbound hn
      have hread : item ⟨piece ++ (sign "," ++ joined (sign ",") (next :: pieces) false), stop, delim, none⟩ =
          .ok (a, ⟨sign "," ++ joined (sign ",") (next :: pieces) false, stop, delim, none⟩) :=
        hpiece.read (listSequel _ hovert stop delim) rfl (.inr rfl) hbound
      simp only [sizeAll_append, List.length_append] at hbound hn
      have hlist := ih (by omega) n (by omega)
      simp only [hjoined, separatedUntil.go, bind_run, look_run, ok_bind, ite_run, hstart, hread, hgoes, hcomma, hlist,
        Bool.false_eq_true, if_false, pure_run]
      rfl

/-! ## Values -/

/-- A value is read from the tokens that it is written with as another one that differs by places only, whatever
follows. -/
structure Restored (value again : Value) : Prop where
  ne : value.tokens ≠ []
  overt : overtAll value.tokens = true
  alike : retouch Retouch.plain again = retouch Retouch.plain value
  read : ∀ (q : Sequel) (n depth : Nat), q.joins = false → stops q.rest = true → Look.anyWord q.rest = false →
    sizeAll (value.tokens ++ q.rest) < n → depthFor value.tokens ≤ depth →
      parserTo n (.level depth) ⟨value.tokens ++ q.rest, q.stop, q.delim, none⟩ =
        .ok (again, ⟨q.rest, q.stop, q.delim, none⟩)

/-- The same for what comes before casts. -/
structure Fronted (value again : Value) : Prop where
  ne : value.tokens ≠ []
  overt : overtAll value.tokens = true
  alike : retouch Retouch.plain again = retouch Retouch.plain value
  begins : ∀ (q : Sequel) (n : Nat), q.joins = false → stops q.rest = true → sizeAll (value.tokens ++ q.rest) ≤ n →
    Begins (innerTo n) (value.tokens ++ q.rest) again q.rest none

/-- What is read again before casts is read again with them. -/
theorem Fronted.restored {value last front : Value} {suffix : Tokens} (h : Fronted value front)
    (hcasted : Casted value last suffix) (htypes : ∀ type ∈ last.castTypes, type.Rereads) :
    ∃ again, Restored last again := by
  obtain ⟨again, hagain, hread⟩ := hcasted.again htypes h.alike
  refine ⟨again, ?_, ?_, hagain, fun q n depth hapart hstop hword hn hdepth => ?_⟩
  · rw [hcasted.tokens_eq]
    exact fun hnil => h.ne (List.append_eq_nil_iff.mp hnil).1
  · rw [hcasted.tokens_eq, overtAll_append, h.overt, hcasted.overt]
    rfl
  · obtain ⟨n, rfl⟩ : ∃ k, n = k + 1 := ⟨n - 1, by omega⟩
    rw [hcasted.tokens_eq, List.append_assoc] at hn ⊢
    have hstop' : stops (suffix ++ q.rest) = true := by
      rcases hcasted.starts with rfl | ⟨rest, rfl⟩
      · exact hstop
      · rfl
    have hbegins := h.begins (hcasted.sequel q) n rfl hstop' (Nat.le_of_lt_succ hn)
    refine (parserTo_eq_ok (overtAll_before (hcasted.sequel q) h.overt)).mpr ⟨front, _, none, hbegins, ?_⟩
    have hsize := length_le_sizeAll suffix
    have hdepth' : depthFor suffix ≤ depth := by
      refine Nat.le_trans (depthFor_mono ?_) hdepth
      rw [hcasted.tokens_eq, sizeAll_append]
      omega
    refine hread q (sizeAll (suffix ++ q.rest) + 1) depth hapart hword ?_ hdepth'
    rw [sizeAll_append]
    omega

theorem Restored.listable {value again : Value} (h : Restored value again) (n : Nat) :
    Listable (innerTo n) n value.tokens again where
  ne := h.ne
  overt := h.overt
  read q hapart hrest hsize := by
    obtain ⟨hstop, hword⟩ := stops_of_comma hrest
    refine h.read q n _ hapart hstop hword hsize (depthFor_mono ?_)
    rw [sizeAll_append]
    omega

/-- Lists of which the items differ by places only do so as well. -/
theorem alike_of_forall₂ {α : Type} [HasPlaces α] {R : α → α → Prop}
    (hR : ∀ a b, R a b → retouch Retouch.plain b = retouch Retouch.plain a) {items again : List α}
    (h : List.Forall₂ R items again) : retouch Retouch.plain again = retouch Retouch.plain items := by
  induction h with
  | nil => rfl
  | @cons a b items again hfirst hrest ih =>
    have hcons : ∀ (c : α) (rest : List α),
      retouch Retouch.plain (c :: rest) = retouch Retouch.plain c :: retouch Retouch.plain rest := fun _ _ => rfl
    rw [hcons, hcons, hR a b hfirst, ih]

theorem wrap_size {delim : Delim} {body rest : Tokens} {n : Nat} (h : sizeAll (wrap delim body ++ rest) ≤ n) :
    sizeAll body < n := by
  simp only [sizeAll_append, wrap, sizeAll, size] at h
  omega

theorem Fronted.array {elements again : List Value} (h : List.Forall₂ Restored elements again) :
    Fronted (array elements) (array again) where
  ne := by simp [Value.tokens, wrap]
  overt := by rw [Value.tokens]; rfl
  alike := by
    rw [retouch_arrayValue, retouch_arrayValue, alike_of_forall₂ (fun _ _ hvalue => hvalue.alike) h]
  begins q n hapart hstop hsize := by
    rw [Value.tokens] at hsize ⊢
    have hpieces : List.Forall₂ (Listable (innerTo n) n) (tokensAll elements) again := by
      clear hsize
      induction h with
      | nil => exact .nil
      | cons hvalue hrest ih => exact .cons (hvalue.listable n) ih
    have hinside : insideOf .bracket (innerTo n)
        ⟨joined (sign ",") (tokensAll elements) false, Pos.callSite, .bracket, none⟩ =
          .ok (.array again, ⟨[], Pos.callSite, .bracket, none⟩) := by
      rw [insideOf, if_neg (by decide), map_run, terminated_again hpieces (wrap_size hsize)]
      rfl
    exact Begins.listing rfl hinside

/-- What follows a key. -/
def keySequel {value again : Value} (h : Restored value again) (q : Sequel) : Sequel where
  joins := false
  rest := sign ":" ++ (value.tokens ++ q.rest)
  stop := q.stop
  delim := q.delim
  overt := by rw [overtAll_append, overtAll_before q h.overt]; rfl
  inert := rfl

/-- A key and a value with a colon between them are an item of a map. -/
theorem Restored.entry {key value key' value' : Value} (hkey : Restored key key') (hvalue : Restored value value')
    (n : Nat) :
    Listable (do let key ← innerTo n; let _ ← op ":"; return (key, ← innerTo n) : Parser (Value × Value)) n
      (key.tokens ++ sign ":" ++ value.tokens) (key', value') where
  ne := by simp [hkey.ne]
  overt := by rw [overtAll_append, overtAll_append, hkey.overt, hvalue.overt]; rfl
  read q hapart hrest hsize := by
    obtain ⟨-, colon, hcolon⟩ := @op_sign ":" ':' rfl (by decide) (value.tokens ++ q.rest) q.stop q.delim
    have htokens : key.tokens ++ sign ":" ++ value.tokens ++ q.rest = key.tokens ++ (keySequel hvalue q).rest := by
      simp [keySequel]
    rw [htokens] at hsize ⊢
    have hword : Look.anyWord (keySequel hvalue q).rest = false := by
      rw [Look.anyWord, bare_overt (keySequel hvalue q).overt]
      rfl
    have hfirst : innerTo n ⟨key.tokens ++ (keySequel hvalue q).rest, q.stop, q.delim, none⟩ =
        .ok (key', ⟨sign ":" ++ (value.tokens ++ q.rest), q.stop, q.delim, none⟩) :=
      hkey.read (keySequel hvalue q) n _ rfl rfl hword hsize (depthFor_mono (by rw [sizeAll_append]; omega))
    have hsize' : sizeAll (value.tokens ++ q.rest) < n := by
      rw [keySequel, sizeAll_append, sizeAll_append] at hsize
      omega
    have hsecond := (hvalue.listable n).read q hapart hrest hsize'
    rw [bind_run, hfirst, ok_bind, bind_run, hcolon, ok_bind, bind_run, hsecond]
    rfl

theorem Fronted.map {entries again : List (Value × Value)}
    (h : List.Forall₂ (fun entry entry' => Restored entry.1 entry'.1 ∧ Restored entry.2 entry'.2) entries again) :
    Fronted (map entries) (map again) where
  ne := by simp [Value.tokens, wrap]
  overt := by rw [Value.tokens]; rfl
  alike := by
    rw [retouch_mapValue, retouch_mapValue,
      alike_of_forall₂ (fun _ _ hentry => Prod.ext hentry.1.alike hentry.2.alike) h]
  begins q n hapart hstop hsize := by
    rw [Value.tokens] at hsize ⊢
    have hpieces : List.Forall₂ (Listable (do let key ← innerTo n; let _ ← op ":"; return (key, ← innerTo n)) n)
        (entryTokens entries) again := by
      clear hsize
      induction h with
      | nil => exact .nil
      | cons hentry hrest ih => exact .cons (hentry.1.entry hentry.2 n) ih
    have hinside : insideOf .brace (innerTo n)
        ⟨joined (sign ",") (entryTokens entries) false, Pos.callSite, .brace, none⟩ =
          .ok (.map again, ⟨[], Pos.callSite, .brace, none⟩) := by
      rw [insideOf, if_pos rfl, map_run, Value.entries, bind_run, terminated_again hpieces (wrap_size hsize)]
      rfl
    exact Begins.listing rfl hinside

/-! ## What is read is read again -/

/-- Every item of a list is read from an end of its tokens. -/
theorem mem_terminated {α : Type} {item : Parser α} {s t : Stream} {list : Separated α}
    (hsuffix : ∀ s a t, overtAll s.tokens = true → item s = .ok (a, t) → t.tokens <:+ s.tokens)
    (hovert : overtAll s.tokens = true) (h : terminated item s = .ok (list, t)) :
    ∀ a ∈ list.items, ∃ from_ left, from_.tokens <:+ s.tokens ∧ item from_ = .ok (a, left) := by
  have hgo : ∀ n s list t, overtAll s.tokens = true → separatedUntil.go List.isEmpty "," item n s = .ok (list, t) →
      ∀ a ∈ list.items, ∃ from_ left, from_.tokens <:+ s.tokens ∧ item from_ = .ok (a, left) := by
    intro n
    induction n with
    | zero =>
      rintro s list t - h
      obtain ⟨rfl, rfl⟩ := pure_eq_ok.mp h
      simp
    | succ n ih =>
      intro s list t hovert h
      obtain ⟨ends, m, hlook, h⟩ := Grammar.bind_eq_ok.mp h
      obtain ⟨rfl, rfl⟩ := look_eq_ok.mp hlook
      split at h
      · obtain ⟨rfl, rfl⟩ := pure_eq_ok.mp h
        simp
      obtain ⟨first, m, hfirst, h⟩ := Grammar.bind_eq_ok.mp h
      have hm := hsuffix _ _ _ hovert hfirst
      obtain ⟨ends, m', hlook, h⟩ := Grammar.bind_eq_ok.mp h
      obtain ⟨rfl, rfl⟩ := look_eq_ok.mp hlook
      split at h
      · obtain ⟨rfl, rfl⟩ := pure_eq_ok.mp h
        simpa using ⟨s, List.suffix_refl _, m, hfirst⟩
      obtain ⟨comma, u, hcomma, h⟩ := Grammar.bind_eq_ok.mp h
      obtain ⟨rest, v, hrest, h⟩ := Grammar.bind_eq_ok.mp h
      obtain ⟨rfl, rfl⟩ := pure_eq_ok.mp h
      have hu := ((Extends.op .alone ",").suffix _ _ _ (overtAll_of_suffix hm hovert) hcomma).trans hm
      refine List.forall_mem_cons.mpr ⟨⟨s, m, List.suffix_refl _, hfirst⟩, fun a hmem => ?_⟩
      obtain ⟨from_, left, hfrom, hitem⟩ := ih u rest v (overtAll_of_suffix hu hovert) hrest a hmem
      exact ⟨from_, left, hfrom.trans hu, hitem⟩
  exact hgo _ s list t hovert h

theorem exists_forall₂ {α β : Type} {R : α → β → Prop} {items : List α} (h : ∀ a ∈ items, ∃ b, R a b) :
    ∃ found, List.Forall₂ R items found := by
  induction items with
  | nil => exact ⟨[], .nil⟩
  | cons a rest ih =>
    obtain ⟨b, hb⟩ := h a List.mem_cons_self
    obtain ⟨found, hfound⟩ := ih fun a hmem => h a (List.mem_cons_of_mem _ hmem)
    exact ⟨b :: found, .cons hb hfound⟩

theorem innerTo_suffix {n : Nat} {s t : Stream} {value : Value} (hovert : overtAll s.tokens = true)
    (h : innerTo n s = .ok (value, t)) : t.tokens <:+ s.tokens := parserTo_suffix _ hovert h

theorem mapped_eq_ok {α β : Type} {f : α → β} {p : Parser α} {s t : Stream} {b : β} :
    (f <$> p) s = .ok (b, t) ↔ ∃ a, p s = .ok (a, t) ∧ b = f a := by
  rw [map_run]
  cases p s with
  | error error => simp [Except.bind]
  | ok found =>
    simp only [ok_bind, Except.ok.injEq, Prod.mk.injEq]
    grind

theorem array_of_insideOf {n : Nat} {s t : Stream} {found : Value} (hovert : overtAll s.tokens = true)
    (h : insideOf .bracket (innerTo n) s = .ok (found, t)) :
    ∃ elements, found = array elements ∧ ∀ value ∈ elements, ∃ from_ left, from_.tokens <:+ s.tokens ∧
      innerTo n from_ = .ok (value, left) := by
  rw [insideOf, if_neg (by decide)] at h
  obtain ⟨list, hlist, rfl⟩ := mapped_eq_ok.mp h
  exact ⟨list.items, rfl, mem_terminated (fun _ _ _ => innerTo_suffix) hovert hlist⟩

theorem map_of_insideOf {n : Nat} {s t : Stream} {found : Value} (hovert : overtAll s.tokens = true)
    (h : insideOf .brace (innerTo n) s = .ok (found, t)) :
    ∃ entries, found = map entries ∧ ∀ entry ∈ entries, ∃ from_ left from' left', from_.tokens <:+ s.tokens ∧
      innerTo n from_ = .ok (entry.1, left) ∧ from'.tokens <:+ s.tokens ∧ innerTo n from' = .ok (entry.2, left') := by
  rw [insideOf, if_pos rfl] at h
  obtain ⟨entries, hentries, rfl⟩ := mapped_eq_ok.mp h
  obtain ⟨list, m, hlist, h⟩ := Grammar.bind_eq_ok.mp hentries
  obtain ⟨rfl, rfl⟩ := pure_eq_ok.mp h
  have hentry : ∀ s entry t, overtAll s.tokens = true →
      (do let key ← innerTo n; let _ ← op ":"; return (key, ← innerTo n) : Parser (Value × Value)) s =
        .ok (entry, t) →
      ∃ m u, innerTo n s = .ok (entry.1, m) ∧ u.tokens <:+ s.tokens ∧ innerTo n u = .ok (entry.2, t) := by
    intro s entry t hovert h
    obtain ⟨key, m, hkey, h⟩ := Grammar.bind_eq_ok.mp h
    obtain ⟨colon, u, hcolon, h⟩ := Grammar.bind_eq_ok.mp h
    obtain ⟨value, v, hvalue, h⟩ := Grammar.bind_eq_ok.mp h
    obtain ⟨rfl, rfl⟩ := pure_eq_ok.mp h
    have hm := innerTo_suffix hovert hkey
    exact ⟨m, u, hkey, ((Extends.op .alone ":").suffix _ _ _ (overtAll_of_suffix hm hovert) hcolon).trans hm, hvalue⟩
  refine ⟨list.items, rfl, fun entry hmem => ?_⟩
  obtain ⟨from_, left, hfrom, hitem⟩ := mem_terminated (fun s entry t hovert h => by
    obtain ⟨m, u, -, hu, hvalue⟩ := hentry s entry t hovert h
    exact (innerTo_suffix (overtAll_of_suffix hu hovert) hvalue).trans hu) hovert hlist entry hmem
  obtain ⟨m, u, hkey, hu, hvalue⟩ := hentry from_ entry left (overtAll_of_suffix hfrom hovert) hitem
  exact ⟨from_, m, u, left, hfrom, hkey, hu.trans hfrom, hvalue⟩

/-- Every value that is read from a text is read again, if the types of its casts are. -/
theorem restored_of_parserTo {n depth : Nat} {s t : Stream} {value : Value} (hlexed : Lexed s.tokens)
    (hsize : sizeAll s.tokens < n) (h : parserTo n (.level depth) s = .ok (value, t))
    (htypes : ∀ type ∈ value.castTypes, type.Rereads) : ∃ again, Restored value again := by
  induction n generalizing depth s t value with
  | zero => omega
  | succ n ih =>
    obtain ⟨tokens, stop, delim, leftover⟩ := s
    obtain ⟨first, rest, left, hbegins, hcasts⟩ := (parserTo_eq_ok hlexed.overt).mp h
    have hrest := solidAll_of_suffix (hbegins.suffix hlexed.overt) hlexed.solid
    obtain ⟨suffix, hcasted, -⟩ := casted_of_go hrest hcasts
    have hfirst : ∀ type ∈ first.castTypes, type.Rereads :=
      fun type hmem => htypes type (hcasted.castTypes_subset hmem)
    suffices hfront : ∃ front, Fronted first front by
      obtain ⟨front, hfront⟩ := hfront
      exact hfront.restored hcasted htypes
    cases hbegins with
    | @listing delim body opening closing _ _ after hdelim hinside =>
      -- What stands in the group has fewer tokens, and so has every item of it.
      have hbody := hlexed.body
      have hless : sizeAll body < n := by
        simp only [sizeAll, size] at hsize
        omega
      have hinner : ∀ {from_ left value}, from_.tokens <:+ body → innerTo n from_ = .ok (value, left) →
          (∀ type ∈ value.castTypes, type.Rereads) → ∃ again, Restored value again := by
        intro from_ left value hfrom hvalue
        refine ih (hbody.of_suffix hfrom) ?_ hvalue
        obtain ⟨before, hbefore⟩ := hfrom
        rw [← hbefore, sizeAll_append] at hless
        omega
      cases delim with
      | paren | invisible => contradiction
      | bracket =>
        obtain ⟨elements, rfl, helements⟩ := array_of_insideOf hbody.overt hinside
        obtain ⟨again, hagain⟩ := exists_forall₂ (R := Restored) fun value hmem => by
          obtain ⟨from_, left, hfrom, hvalue⟩ := helements value hmem
          exact hinner hfrom hvalue fun type htype => hfirst type (castTypes_of_mem hmem htype)
        exact ⟨_, .array hagain⟩
      | brace =>
        obtain ⟨entries, rfl, hentries⟩ := map_of_insideOf hbody.overt hinside
        obtain ⟨again, hagain⟩ := exists_forall₂
            (R := fun entry entry' : Value × Value => Restored entry.1 entry'.1 ∧ Restored entry.2 entry'.2)
            fun entry hmem => by
          obtain ⟨from_, left, from', left', hfrom, hkey, hfrom', hvalue⟩ := hentries entry hmem
          have hsubset := castTypes_of_entry hmem
          obtain ⟨key, hkey⟩ := hinner hfrom hkey fun type htype => hfirst type (hsubset (List.mem_append_left _ htype))
          obtain ⟨value, hvalue⟩ := hinner hfrom' hvalue fun type htype =>
            hfirst type (hsubset (List.mem_append_right _ htype))
          exact ⟨(key, value), hkey, hvalue⟩
        exact ⟨_, .map hagain⟩
    | leading hleading =>
      have hne : first.tokens ≠ [] := by
        intro hnil
        have hagain := leading?_tokens hlexed hleading
        rw [hnil] at hagain
        contradiction
      exact ⟨first, hne, overtAll_of_leading? hleading, rfl,
        fun q n hapart hstop _ => .leading_again hlexed hleading hapart hstop _⟩
    | run hrefused hleading hne =>
      refine ⟨_, hne, overtAll_run hlexed.overt, rfl, fun q m hapart hstop hm => ?_⟩
      refine .run_again hlexed hrefused hleading hne (Nat.le_of_lt_succ hsize) ?_ hapart hstop
      rw [sizeAll_append] at hm
      exact Nat.le_trans (Nat.le_add_right _ _) hm

/-- A value that is read from a text is read from the tokens that it is written with as the same value, up to places
and spacing: the same literals with the same signs, the same runs of tokens, the same elements and entries in the
same order, and the same casts applied in the same order. All tokens that it is written with are taken. The types of
its casts have to be read from their tokens as the same types. -/
theorem parse_tokens {source : String} {tokens : Tokens} {value : Value} (hread : Tokens.read source = .ok tokens)
    (hparse : parse tokens = .ok value)
    (htypes : ∀ type ∈ value.castTypes, ∃ found, parseType type.tokens = .ok found ∧
      retouch Retouch.plain found = retouch Retouch.plain type) :
    ∃ again, parse value.tokens = .ok again ∧ retouch Retouch.plain again = retouch Retouch.plain value := by
  unfold parse parseWith Grammar.parseAll at hparse
  split at hparse
  · contradiction
  rename_i found after hrun
  split at hparse
  · contradiction
  cases hparse
  rw [parser_eq_parserTo (Nat.lt_succ_self _)] at hrun
  obtain ⟨again, hagain⟩ := restored_of_parserTo (Tokens.read_lexed hread) (Nat.lt_succ_self _) hrun htypes
  have hwhole := hagain.read .alone (sizeAll value.tokens + 1) (depthFor value.tokens) rfl rfl rfl
    (by rw [sizeAll_append]; exact Nat.lt_succ_self _) (Nat.le_refl _)
  simp only [Sequel.alone, List.append_nil] at hwhole
  refine ⟨again, ?_, hagain.alike⟩
  rw [parse, parseWith, Grammar.parseAll, parser_eq_parserTo (Nat.lt_succ_self _), Rules.forTokens, hwhole]
  rfl

/-- Whether two types are the same word. -/
def sameWord : Ty → Ty → Bool
  | .path false [.mk first .none], .path false [.mk second .none] => first.name == second.name
  | _, _ => false

theorem alike_of_sameWord {first second : Ty} (h : sameWord first second = true) :
    retouch Retouch.plain second = retouch Retouch.plain first := by
  unfold sameWord at h
  split at h
  · rename_i first second
    obtain ⟨name, pos⟩ := first
    obtain ⟨name', pos'⟩ := second
    obtain rfl : name = name' := by simpa using h
    rfl
  · contradiction

/-- A cast list with a comma at its end, in which there are a map, signs, a path and casts. -/
def castList : String := "[\x7b\"k\": - -5,\x7d, None, a::b(x), 1u8 as ?u16 as u8,] as u32"

/-- Whether a value is the one that `castList` reads. -/
def isCastList : Value → Bool
  | .cast (.array [.map [(.text "\"k\"" _, .whole true "-5")], .absent, .other _,
      .cast (.cast (.whole false "1u8") _ true) _ false]) _ false => true
  | _ => false

/-- The comma at the end of the list is not written, and the value is read again. -/
theorem castList_parse_tokens :
    ∃ tokens value again, Tokens.read castList = .ok tokens ∧ parse tokens = .ok value ∧ isCastList value = true ∧
      value.castTypes.length = 3 ∧ parse value.tokens = .ok again ∧
      retouch Retouch.plain again = retouch Retouch.plain value := by
  have h : ((Tokens.read castList).toOption.any fun tokens => (parse tokens).toOption.any fun value =>
      isCastList value && (value.castTypes.length == 3 &&
        value.castTypes.all fun type => (parseType type.tokens).toOption.any (sameWord type))) = true := by
    decide +kernel
  obtain ⟨tokens, htokens, h⟩ := exists_ok_of_any h
  obtain ⟨value, hvalue, h⟩ := exists_ok_of_any h
  simp only [Bool.and_eq_true, beq_iff_eq, List.all_eq_true] at h
  obtain ⟨hform, hlength, htypes⟩ := h
  obtain ⟨again, hagain, halike⟩ := parse_tokens htokens hvalue fun type hmem => by
    obtain ⟨found, hfound, hsame⟩ := exists_ok_of_any (htypes type hmem)
    exact ⟨found, hfound, alike_of_sameWord hsame⟩
  exact ⟨tokens, value, again, htokens, hvalue, hform, hlength, hagain, halike⟩

end Value

end Fieldwise
