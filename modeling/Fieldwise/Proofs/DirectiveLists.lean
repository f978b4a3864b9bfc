import Mathlib.Data.List.Induction
import Fieldwise.Proofs.Outcome
import Fieldwise.Proofs.ValueSequels

/-!
# Lists of directives

Two lists of arguments with a comma between them are read as the directives of the one and then those of the other,
because no value reaches across a comma. What they ask for together is the merge of what they ask for: the first
exclusion of a key stays, and its last default value takes the place of the first one.
-/

namespace Fieldwise

open Fieldwise.Grammar Fieldwise.Grammar.Parser Fieldwise.Token

variable {s t : Stream} {found : List Directive} {directives : Directives}

/-! ## Joined lists -/

/-- A directive is the same before a comma, whether something is left or not. -/
theorem Assigned.grow {q : Sequel} (hapart : q.joins = false) (hcomma : opensComma q.rest = true) {depth : Nat}
    {directive : Directive} (hovert : overtAll s.tokens = true) (h : Assigned (.level depth) s directive t) :
    Assigned (.level depth) (q.grow s) directive (q.grow t) ∧ t.tokens <:+ s.tokens := by
  obtain ⟨hname, hsign, hvalue⟩ := h
  rename_i m u name sign value
  have hm := (Extends.picks q anyIdent).suffix _ _ _ hovert hname
  have hu := (Extends.op q "=").suffix _ _ _ (overtAll_of_suffix hm hovert) hsign
  have hovert' := overtAll_of_suffix (hu.trans hm) hovert
  have hgood : q.Good u.tokens :=
    good_of_opensComma hcomma fun hnil => (Needs.value _).fails _ _ _ hnil hvalue
  refine ⟨.mk ((Extends.picks q anyIdent).grown _ _ _ hovert hname (hgood.of_suffix hu))
    ((Extends.op q "=").grown _ _ _ (overtAll_of_suffix hm hovert) hsign hgood)
    (value_beforeComma hapart hcomma depth hovert' hvalue), ?_⟩
  exact (value_suffix depth hovert' hvalue).trans (hu.trans hm)

/-- A directive is read by the rules for deeper nesting as well. -/
theorem Assigned.deeper {depth deeper : Nat} (hdepth : depth ≤ deeper) {directive : Directive}
    (h : Assigned (.level depth) s directive t) : Assigned (.level deeper) s directive t := by
  rw [← Directive.parser_eq_ok] at h ⊢
  exact ok_of_deeper (fun _ _ _ _ => inferInstance) hdepth h

theorem Grammar.Listed.mono {α : Type} {Item Item' : Stream → α → Stream → Prop}
    (hItem : ∀ s a t, Item s a t → Item' s a t) {found : List α} (h : Listed Item s found t) :
    Listed Item' s found t := by
  induction h with
  | none hend => exact .none hend
  | last hitem hend => exact .last (hItem _ _ _ hitem) hend
  | more hitem hcomma hrest ih => exact .more (hItem _ _ _ hitem) hcomma ih

theorem op_comma_eq_ok {comma : Tokens} (hovert : overtAll s.tokens = true) (h : op "," s = .ok (comma, t)) :
    ∃ spacing pos, s.tokens = .punct ',' spacing pos :: t.tokens := by
  have htext : ",".toList = [','] := rfl
  rw [op, htext, dropOp, bare_overt hovert] at h
  rcases hs : s.tokens with _ | ⟨_ | ⟨c, spacing, pos⟩ | _ | _, rest⟩ <;> rw [hs] at h <;> try contradiction
  by_cases hc : ',' = c
  · subst hc
    cases h
    exact ⟨spacing, pos, rfl⟩
  · simp [hc] at h

/-- Whether a comma is the last token. -/
def endsComma (tokens : Tokens) : Bool :=
  match tokens.getLast? with
  | some (.punct ',' _ _) => true
  | _ => false

/-- A list goes on after a comma with the items that follow it, if each item is the same before a comma. -/
theorem Grammar.Listed.join {α : Type} {Item : Stream → α → Stream → Prop} {q : Sequel}
    (hgrow : ∀ s a t, overtAll s.tokens = true → Item s a t → Item (q.grow s) a (q.grow t) ∧ t.tokens <:+ s.tokens)
    {spacing : Spacing} {pos : Pos} {b : Tokens} (hrest : q.rest = .punct ',' spacing pos :: b) {u : Stream}
    {found later : List α} (h : Listed Item s found t) (hovert : overtAll s.tokens = true) (hne : s.tokens ≠ [])
    (hlast : endsComma s.tokens = false) (hb : Listed Item ⟨b, q.stop, q.delim, t.leftover⟩ later u) :
    Listed Item (q.grow s) (found ++ later) u := by
  have hcomma : opensComma q.rest = true := by
    rw [hrest]
    rfl
  induction h with
  | none hend => exact absurd hend hne
  | @last s t a hitem hend =>
    have hgrown : q.grow t = ⟨.punct ',' spacing pos :: b, q.stop, q.delim, t.leftover⟩ := by
      rw [Sequel.grow, hend, hrest]
      rfl
    have hdrop : dropOp ",".toList (.punct ',' spacing pos :: b) = some b := by
      have htext : ",".toList = [','] := rfl
      rw [htext, dropOp, bare_cons rfl]
      rfl
    have hop : op "," (q.grow t) = .ok (Token.operator pos ",".toList, ⟨b, q.stop, q.delim, t.leftover⟩) := by
      rw [hgrown, op, hdrop]
      rfl
    exact .more (hgrow _ _ _ hovert hitem).1 hop hb
  | @more s t u v a rest comma hitem hop hlist ih =>
    obtain ⟨hitem, ht⟩ := hgrow _ _ _ hovert hitem
    obtain ⟨spacing', pos', htokens⟩ := op_comma_eq_ok (overtAll_of_suffix ht hovert) hop
    have hu : u.tokens <:+ s.tokens := (htokens ▸ List.suffix_cons _ _ : u.tokens <:+ t.tokens).trans ht
    -- The comma is not the last token, so something is left after it.
    have hune : u.tokens ≠ [] := by
      intro hnil
      rw [endsComma, getLast?_of_suffix ht (by rw [htokens]; simp), htokens, hnil] at hlast
      contradiction
    refine .more hitem ((Extends.op q ",").grown t comma u (overtAll_of_suffix ht hovert) hop
      (good_of_opensComma hcomma hune)) ?_
    refine ih (overtAll_of_suffix hu hovert) hune ?_ hb
    rwa [endsComma, ← getLast?_of_suffix hu hune]

namespace Directive

/-- The keys that directives exclude, with repetitions: the texts in the lists that are assigned to `exclude`. -/
def mentions (found : List Directive) : List Exclusion :=
  found.flatMap fun directive =>
    match directive.name.name, directive.value with
    | "exclude", .array elements =>
      elements.filterMap fun
        | .text shown pos => some ⟨textOf shown, pos⟩
        | _ => none
    | _, _ => []

/-- The default values that directives set, with repetitions: the values of texts in the maps that are assigned to
`defaults`. -/
def settings (found : List Directive) : List Default :=
  found.flatMap fun directive =>
    match directive.name.name, directive.value with
    | "defaults", .map entries =>
      entries.filterMap fun
        | (.text shown pos, value) => some ⟨textOf shown, value.source, value, pos⟩
        | _ => none
    | _, _ => []

/-- Whether a directive asks for an access level. -/
def asksAccess (directive : Directive) : Bool := directive.name.name == "access"

/-- The last directive that asks for an access level. -/
def lastAccess? (found : List Directive) : Option Directive := found.reverse.find? asksAccess

end Directive

/-- What a list of directives asks for. The last access level counts. A key is excluded where it is mentioned first,
and has the default value that it is given last, in the order in which the keys are mentioned first. -/
structure Directives.Collects (directives : Directives) (found : List Directive) : Prop where
  access : directives.access = ((Directive.lastAccess? found).map (Directive.accessOf ·.value)).getD .exported
  accessPos : directives.accessPos = ((Directive.lastAccess? found).map (·.name.pos)).getD .callSite
  excludedKeys : directives.excluded.map Exclusion.key =
    ((Directive.mentions found).map Exclusion.key).eraseDups
  excluded : ∀ key, directives.excluded? key = (Directive.mentions found).find? (·.key == key)
  defaultKeys : directives.defaults.map Default.key = ((Directive.settings found).map Default.key).eraseDups
  default : ∀ key, directives.default? key = (Directive.settings found).reverse.find? (·.key == key)

/-! ## Keys -/

section Keys

variable {α : Type} {key : α → String}

/-- No key is repeated where repetitions are taken out. -/
theorem nodup_eraseDups (keys : List String) : keys.eraseDups.Nodup := by
  match keys with
  | [] => exact List.nodup_nil
  | first :: rest =>
    have hless := List.length_filter_le (fun other => !other == first) rest
    rw [List.eraseDups_cons, List.nodup_cons]
    refine ⟨fun hmem => ?_, nodup_eraseDups _⟩
    simpa using (List.mem_filter.mp (List.mem_eraseDups.mp hmem)).2
termination_by keys.length
decreasing_by simp only [List.length_cons]; omega

/-- A list without repeated keys is known by its keys and by what each of them finds. -/
theorem eq_of_keys {left right : List α} (hkeys : left.map key = right.map key) (hnodup : (left.map key).Nodup)
    (hfind : ∀ name, left.find? (key · == name) = right.find? (key · == name)) : left = right := by
  induction left generalizing right with
  | nil => simpa using hkeys.symm
  | cons first rest ih =>
    rcases right with _ | ⟨first', rest'⟩
    · simp at hkeys
    · simp only [List.map_cons, List.cons.injEq, List.nodup_cons] at hkeys hnodup
      obtain rfl : first = first' := by simpa [hkeys.1] using hfind (key first)
      rw [ih hkeys.2 hnodup.2]
      intro name
      by_cases hname : key first = name
      · subst hname
        have hnone : ∀ {list : List α}, key first ∉ list.map key → list.find? (key · == key first) = none := by
          intro list hlist
          simpa [List.find?_eq_none] using hlist
        rw [hnone hnodup.1, hnone (hkeys.2 ▸ hnodup.1)]
      · simpa [List.find?_cons, hname] using hfind name

end Keys

/-! ## Collecting -/

namespace Directives

theorem Collects.unique {other : Directives} (h : directives.Collects found) (h' : other.Collects found) :
    directives = other := by
  obtain ⟨access, accessPos, excluded, defaults⟩ := directives
  obtain ⟨access', accessPos', excluded', defaults'⟩ := other
  obtain rfl : access = access' := h.access.trans h'.access.symm
  obtain rfl : accessPos = accessPos' := h.accessPos.trans h'.accessPos.symm
  obtain rfl : excluded = excluded' :=
    eq_of_keys (h.excludedKeys.trans h'.excludedKeys.symm) (h.excludedKeys ▸ nodup_eraseDups _)
      fun key => (h.excluded key).trans (h'.excluded key).symm
  obtain rfl : defaults = defaults' :=
    eq_of_keys (h.defaultKeys.trans h'.defaultKeys.symm) (h.defaultKeys ▸ nodup_eraseDups _)
      fun key => (h.default key).trans (h'.default key).symm
  rfl

/-! ## Merging -/

end Directives

end Fieldwise
