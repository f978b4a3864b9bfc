import Fieldwise.Directive
import Fieldwise.Proofs.Shrinking

/-!
# The arguments of an annotation

Arguments are assignments of a value to a word, with commas between them and perhaps one after the last.
`ArgumentList` states this form without a bound on the number of assignments; the parser accepts exactly
what has it, because every assignment takes at least its word.
-/

namespace Fieldwise.Grammar

open Fieldwise.Grammar.Parser Fieldwise.Token

variable {α : Type} {Item : Stream → α → Stream → Prop} {item : Parser α}

/-- Items up to the end of the stream, with a comma after each of them but perhaps the last. -/
inductive Listed (Item : Stream → α → Stream → Prop) : Stream → List α → Stream → Prop
  | none {s} (hend : s.tokens = []) : Listed Item s [] s
  | last {s t a} (hitem : Item s a t) (hend : t.tokens = []) : Listed Item s [a] t
  | more {s t u v a rest comma} (hitem : Item s a t) (hcomma : op "," t = .ok (comma, u))
      (hrest : Listed Item u rest v) : Listed Item s (a :: rest) v

theorem Listed.tokens_eq_nil {s t : Stream} {found : List α} (h : Listed Item s found t) : t.tokens = [] := by
  induction h with
  | none hend => exact hend
  | last hitem hend => exact hend
  | more hitem hcomma hrest ih => exact ih

theorem op_lt {s t : Stream} {comma : Tokens} (h : op "," s = .ok (comma, t)) :
    sizeAll t.tokens < sizeAll s.tokens := by
  have hbare : ∃ token, bare s.tokens = token :: t.tokens := by
    have htext : ",".toList = [','] := rfl
    grind [op, dropOp]
  obtain ⟨token, hbare⟩ := hbare
  exact sizeAll_of_bare hbare

/-- A list that was read within the bound is a list of items. -/
theorem listed_of_go (hItem : ∀ s a t, item s = .ok (a, t) → Item s a t)
    (htakes : ∀ s a t, item s = .ok (a, t) → sizeAll t.tokens < sizeAll s.tokens)
    {n : Nat} {s t : Stream} {list : Separated α} (hn : sizeAll s.tokens < n)
    (h : separatedUntil.go List.isEmpty "," item n s = .ok (list, t)) :
    Listed Item s list.items t := by
  induction n generalizing s t list with
  | zero => omega
  | succ n ih =>
    unfold separatedUntil.go at h
    obtain ⟨atEnd, m, hlook, h⟩ := bind_eq_ok.mp h
    obtain ⟨rfl, rfl⟩ := look_eq_ok.mp hlook
    split at h
    · rename_i hend
      obtain ⟨rfl, rfl⟩ := pure_eq_ok.mp h
      exact .none (List.isEmpty_iff.mp hend)
    · obtain ⟨a, m, ha, h⟩ := bind_eq_ok.mp h
      obtain ⟨atEnd, m', hlook, h⟩ := bind_eq_ok.mp h
      obtain ⟨rfl, rfl⟩ := look_eq_ok.mp hlook
      split at h
      · rename_i hend
        obtain ⟨rfl, rfl⟩ := pure_eq_ok.mp h
        exact .last (hItem _ _ _ ha) (List.isEmpty_iff.mp hend)
      · obtain ⟨comma, u, hcomma, h⟩ := bind_eq_ok.mp h
        obtain ⟨rest, v, hrest, h⟩ := bind_eq_ok.mp h
        obtain ⟨rfl, rfl⟩ := pure_eq_ok.mp h
        -- The item and the comma both take tokens, so the bound still exceeds what is left.
        have hless := htakes _ _ _ ha
        have hcommaLess := op_lt hcomma
        exact .more (hItem _ _ _ ha) hcomma (ih (by omega) hrest)

/-- A stream from which an item was taken had not ended. -/
theorem isEmpty_of_lt {s t : Stream} (h : sizeAll t.tokens < sizeAll s.tokens) :
    s.tokens.isEmpty = false := by
  cases hs : s.tokens with
  | nil => simp [hs, sizeAll] at h
  | cons token rest => rfl

/-- A list of items is read within every bound that exceeds the number of tokens. -/
theorem go_of_listed (hItem : ∀ s a t, Item s a t → item s = .ok (a, t))
    (htakes : ∀ s a t, item s = .ok (a, t) → sizeAll t.tokens < sizeAll s.tokens)
    {s t : Stream} {as : List α} (h : Listed Item s as t) {n : Nat} (hn : sizeAll s.tokens < n) :
    ∃ list : Separated α, list.items = as ∧
      separatedUntil.go List.isEmpty "," item n s = .ok (list, t) := by
  induction h generalizing n with
  | none hend =>
    obtain ⟨n, rfl⟩ : ∃ k, n = k + 1 := ⟨n - 1, by omega⟩
    refine ⟨⟨[], false⟩, rfl, ?_⟩
    simp [separatedUntil.go, bind_run, look_run, ok_bind, hend, pure_run]
  | @last s t a hitem hend =>
    obtain ⟨n, rfl⟩ : ∃ k, n = k + 1 := ⟨n - 1, by omega⟩
    have hrun := hItem _ _ _ hitem
    have hstart := isEmpty_of_lt (htakes _ _ _ hrun)
    refine ⟨⟨[a], false⟩, rfl, ?_⟩
    simp [separatedUntil.go, bind_run, look_run, ok_bind, ite_run, hstart, hrun, hend, pure_run]
  | @more s t u v a rest comma hitem hcomma hrest ih =>
    obtain ⟨n, rfl⟩ : ∃ k, n = k + 1 := ⟨n - 1, by omega⟩
    have hrun := hItem _ _ _ hitem
    have hless := htakes _ _ _ hrun
    have hcommaLess := op_lt hcomma
    obtain ⟨list, rfl, hlist⟩ := ih (n := n) (by omega)
    refine ⟨.cons a list, rfl, ?_⟩
    simp only [separatedUntil.go, bind_run, look_run, ok_bind, ite_run, isEmpty_of_lt hless, hrun,
      isEmpty_of_lt hcommaLess, hcomma, hlist, pure_run, Bool.false_eq_true, if_false]

/-- Reading a list to its end finds exactly the items that stand there. -/
theorem terminated_eq_ok (hItem : ∀ s a t, item s = .ok (a, t) ↔ Item s a t)
    (htakes : ∀ s a t, item s = .ok (a, t) → sizeAll t.tokens < sizeAll s.tokens)
    {s t : Stream} {as : List α} :
    (Separated.items <$> terminated item) s = .ok (as, t) ↔ Listed Item s as t := by
  have hrun : (Separated.items <$> terminated item) s =
      (separatedUntil.go List.isEmpty "," item (sizeAll s.tokens + 1) s).bind
        fun r => .ok (r.1.items, r.2) := rfl
  rw [hrun]
  constructor
  · intro h
    cases hgo : separatedUntil.go List.isEmpty "," item (sizeAll s.tokens + 1) s with
    | error e => simp [hgo, Except.bind] at h
    | ok r =>
      simp only [hgo, ok_bind, Except.ok.injEq, Prod.mk.injEq] at h
      obtain ⟨rfl, rfl⟩ := h
      exact listed_of_go (fun s a t => (hItem s a t).mp) htakes (Nat.lt_succ_self _) hgo
  · intro h
    obtain ⟨list, rfl, hgo⟩ :=
      go_of_listed (fun s a t => (hItem s a t).mpr) htakes h (Nat.lt_succ_self _)
    simp only [hgo, ok_bind]

end Fieldwise.Grammar

namespace Fieldwise

open Fieldwise.Grammar Fieldwise.Grammar.Parser Fieldwise.Token

/-- A word, an equals sign and a value stand between two points. -/
inductive Assigned (rules : Rules) : Stream → Directive → Stream → Prop
  | mk {s t u v name sign value} (hname : anyIdent s = .ok (name, t))
      (hsign : op "=" t = .ok (sign, u)) (hvalue : Value.parser rules u = .ok (value, v)) :
      Assigned rules s ⟨name, value⟩ v

/-- The arguments are assignments with commas between them, and no group in them has tokens that are not
part of a value. -/
def ArgumentList (args : Tokens) (found : List Directive) : Prop :=
  ∃ rest, Listed (Assigned (.forTokens args)) ⟨args, Pos.callSite, .invisible, none⟩ found rest ∧
    rest.leftover = none

/-- A directive is read exactly where a word is assigned a value. -/
theorem Directive.parser_eq_ok {rules : Rules} {s t : Stream} {directive : Directive} :
    Directive.parser rules s = .ok (directive, t) ↔ Assigned rules s directive t := by
  constructor
  · intro h
    obtain ⟨name, u, hname, h⟩ := Grammar.bind_eq_ok.mp h
    obtain ⟨sign, v, hsign, h⟩ := Grammar.bind_eq_ok.mp h
    obtain ⟨value, w, hvalue, h⟩ := Grammar.bind_eq_ok.mp h
    obtain ⟨rfl, rfl⟩ := pure_eq_ok.mp h
    exact .mk hname hsign hvalue
  · rintro ⟨hname, hsign, hvalue⟩
    refine Grammar.bind_eq_ok.mpr ⟨_, _, hname, Grammar.bind_eq_ok.mpr ⟨_, _, hsign, ?_⟩⟩
    exact Grammar.bind_eq_ok.mpr ⟨_, _, hvalue, rfl⟩

theorem Directive.parser_lt {tokens : Tokens} {s t : Stream} {directive : Directive}
    (h : Directive.parser (.forTokens tokens) s = .ok (directive, t)) :
    sizeAll t.tokens < sizeAll s.tokens := by
  obtain ⟨hname, hsign, hvalue⟩ := Directive.parser_eq_ok.mp h
  obtain ⟨token, hbare⟩ := anyIdent_bare hname
  have hword := sizeAll_of_bare hbare
  have hequals := (Shrinks.op "=").le _ _ _ hsign
  have hrest := (Shrinks.value (.forTokens tokens)).le _ _ _ hvalue
  omega

/-- Arguments are accepted exactly when they are a list of assignments. -/
theorem Directive.parseAll_eq_ok {args : Tokens} {found : List Directive} :
    Directive.parseAll args = .ok found ↔ ArgumentList args found := by
  have hlist : ∀ rest,
      (Separated.items <$> terminated (Directive.parser (.forTokens args)))
          ⟨args, Pos.callSite, .invisible, none⟩ = .ok (found, rest) ↔
        Listed (Assigned (.forTokens args)) ⟨args, Pos.callSite, .invisible, none⟩ found rest :=
    fun rest => terminated_eq_ok (fun _ _ _ => Directive.parser_eq_ok)
      fun _ _ _ => Directive.parser_lt
  unfold Directive.parseAll parseWith Grammar.parseAll ArgumentList
  simp only [← hlist]
  constructor
  · intro h
    split at h
    · simp at h
    · rename_i value after hrun
      split at h
      · simp at h
      · rename_i hleft
        cases h
        refine ⟨after, hrun, ?_⟩
        simpa using (Option.or_eq_none_iff.mp hleft).1
  · rintro ⟨rest, hrun, hleft⟩
    have hend : rest.tokens = [] := ((hlist rest).mp hrun).tokens_eq_nil
    simp [hrun, hleft, Stream.remainder, hend, visibleAmong]

/-- Arguments are refused exactly when they are no list of assignments. -/
theorem Directive.parseAll_eq_error {args : Tokens} :
    (∃ error, Directive.parseAll args = .error error) ↔ ¬∃ found, ArgumentList args found := by
  simp only [← Directive.parseAll_eq_ok]
  cases Directive.parseAll args with
  | error error => simp
  | ok found => simp

end Fieldwise
