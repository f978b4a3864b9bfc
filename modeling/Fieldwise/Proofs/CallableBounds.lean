import Fieldwise.Descriptor
import Fieldwise.Proofs.Reading.Nesting
import Fieldwise.Proofs.Writing

/-!
# Lifetimes among the bounds of a callable

A boxed callable is taken by its bounds, and by the longest lifetime if no bound is one. Whether one is, is asked of
the text of the bounds: some stretch between two signs `+` has to begin with an apostrophe. The writer puts blanks in
and takes them out, and the test does not see them, so that it can be asked of each bound alone. A bound that is a
lifetime passes. A trait passes if, somewhere inside it, an apostrophe follows a plus; then the callable is taken
without the longest lifetime, although none of its bounds is a lifetime.
-/

namespace Fieldwise

open Fieldwise.Grammar

/-! ## The characters of a text without blanks -/

namespace Printer

/-- The characters of a text under construction in reading order, without blanks. -/
def Draft.dense (draft : Draft) : List Char := (draft.filter (· != ' ')).reverse

namespace Draft

@[simp] theorem dense_append (draft : Draft) (text : List Char) :
    (draft.append text).dense = draft.dense ++ text.filter (· != ' ') := by
  simp [dense, append]

@[simp] theorem dense_blank (draft : Draft) : dense (' ' :: draft) = draft.dense := by simp [dense]

@[simp] theorem dense_trimEnd (draft : Draft) : draft.trimEnd.dense = draft.dense := by
  induction draft with
  | nil => rfl
  | cons c rest ih =>
    by_cases h : c = ' '
    · subst h
      simpa [trimEnd] using ih
    · simp [trimEnd, h]

@[simp] theorem dense_wordGap (draft : Draft) : draft.wordGap.dense = draft.dense := by
  unfold wordGap
  split
  · split <;> simp
  · rfl

@[simp] theorem dense_keywordGap (draft : Draft) : draft.keywordGap.dense = draft.dense := by
  unfold keywordGap
  split <;> simp

@[simp] theorem dense_spaced (draft : Draft) (op : List Char) :
    (draft.spaced op).dense = draft.dense ++ op.filter (· != ' ') := by
  simp [spaced]

theorem filter_finish (draft : Draft) : draft.finish.filter (· != ' ') = draft.dense := by
  have hdrop : ∀ cs : List Char, (cs.dropWhile (· == ' ')).filter (· != ' ') = cs.filter (· != ' ') := by
    intro cs
    induction cs with
    | nil => rfl
    | cons c rest ih => by_cases h : c = ' ' <;> simp [h, ih]
  rw [finish, hdrop, List.filter_reverse]
  exact dense_trimEnd draft

end Draft

@[simp] theorem dense_writeOp (draft : Draft) (op : List Char) :
    (writeOp draft op).dense = draft.dense ++ op.filter (· != ' ') := by
  unfold writeOp
  split
  · simp
  · split
    · simp
    · simp
    · split <;> simp
    · simp

theorem dense_writeGroup (draft : Draft) (delim : Delim) (inside : List Char) :
    (writeGroup draft delim inside).dense =
      draft.dense ++ ((marks delim).1 ++ inside ++ (marks delim).2).filter (· != ' ') := by
  have hgap : (groupGap draft delim).dense = draft.dense := by cases delim <;> simp [groupGap]
  unfold writeGroup
  cases inside with
  | nil => simp [hgap, List.filter_filter]
  | cons c rest => simp [hgap]

/-- The characters on a sheet in reading order, without blanks. -/
def Sheet.dense (sheet : Sheet) : List Char := sheet.draft.dense ++ sheet.op.filter (· != ' ')

@[simp] theorem Sheet.dense_settle (sheet : Sheet) : sheet.settle.dense = sheet.dense :=
  dense_writeOp sheet.draft sheet.op

end Printer

/-- The characters of the marks of tokens. -/
def Tokens.chars (tokens : Tokens) : List Char := (Token.marksAll tokens).flatMap Mark.text

theorem Tokens.chars_append (before after : Tokens) :
    Tokens.chars (before ++ after) = Tokens.chars before ++ Tokens.chars after := by
  simp [Tokens.chars, Token.marksAll_append]

namespace Printer

mutual

theorem dense_writeToken (sheet : Sheet) (token : Token) :
    (writeToken sheet token).dense = sheet.dense ++ (Tokens.chars [token]).filter (· != ' ') := by
  cases token with
  | ident name pos =>
    simp [writeToken, Sheet.word, Sheet.dense, Tokens.chars, Token.marksAll, Token.marks, Mark.text]
  | literal shown pos =>
    simp [writeToken, Sheet.word, Sheet.dense, Tokens.chars, Token.marksAll, Token.marks, Mark.text]
  | punct c spacing pos =>
    cases spacing <;>
      simp [writeToken, Sheet.punct, Sheet.dense, Tokens.chars, Token.marksAll, Token.marks, Mark.text]
  | group delim body opening closing =>
    have hbody : (writeTokens .empty body).settle.finish.filter (· != ' ') =
        (Tokens.chars body).filter (· != ' ') := by
      rw [Draft.filter_finish, Sheet.dense_settle, dense_writeTokens]
      rfl
    rw [writeToken, Sheet.dense, dense_writeGroup]
    simp only [List.filter_append, hbody, List.filter_nil, List.append_nil, Sheet.dense_settle]
    cases delim <;>
      simp [Tokens.chars, Token.marksAll, Token.marks, Mark.text, marks]

theorem dense_writeTokens (sheet : Sheet) (tokens : Tokens) :
    (writeTokens sheet tokens).dense = sheet.dense ++ (Tokens.chars tokens).filter (· != ' ') := by
  cases tokens with
  | nil => simp [writeTokens, Tokens.chars, Token.marksAll]
  | cons token rest =>
    have hchars : Tokens.chars (token :: rest) = Tokens.chars [token] ++ Tokens.chars rest :=
      Tokens.chars_append [token] rest
    rw [writeTokens, dense_writeTokens, dense_writeToken, hchars, List.filter_append, List.append_assoc]

end

end Printer

/-- A text has the characters of the marks of its tokens, blanks aside. -/
theorem Tokens.filter_text (tokens : Tokens) :
    (Tokens.text tokens).toList.filter (· != ' ') = (Tokens.chars tokens).filter (· != ' ') := by
  rw [Tokens.text, String.toList_ofList, Printer.Draft.filter_finish, Printer.Sheet.dense_settle,
    Printer.dense_writeTokens]
  rfl

/-! ## Apostrophes after a plus -/

namespace Descriptor

/-- The first character that is no white space is an apostrophe. -/
def opensLifetime (cs : List Char) : Bool := (cs.dropWhile Text.isWhitespace).head? == some '\''

/-- A stretch between two signs `+` begins with an apostrophe. -/
def lifetimeIn (cs : List Char) : Bool := (cs.splitOn '+').any opensLifetime

theorem hasLifetime_eq (text : String) : hasLifetime text = lifetimeIn text.toList := rfl

theorem opensLifetime_cons (c : Char) (cs : List Char) :
    opensLifetime (c :: cs) = if Text.isWhitespace c then opensLifetime cs else c == '\'' := by
  unfold opensLifetime
  by_cases h : Text.isWhitespace c = true <;> simp [h]

theorem opensLifetime_filter (cs : List Char) :
    opensLifetime (cs.filter (· != ' ')) = opensLifetime cs := by
  induction cs with
  | nil => rfl
  | cons c rest ih =>
    by_cases hblank : c = ' '
    · subst hblank
      rw [opensLifetime_cons, if_pos (by decide), List.filter_cons_of_neg (by decide), ih]
    · rw [List.filter_cons_of_pos (by simpa using hblank), opensLifetime_cons, opensLifetime_cons, ih]

theorem lifetimeIn_append_plus (before after : List Char) :
    lifetimeIn (before ++ '+' :: after) = (lifetimeIn before || lifetimeIn after) := by
  simp only [lifetimeIn, List.splitOn]
  rw [List.splitOnP_append_cons before after (by decide), List.any_append]

theorem lifetimeIn_of_notMem {cs : List Char} (h : '+' ∉ cs) : lifetimeIn cs = opensLifetime cs := by
  have hsplit : cs.splitOn '+' = [cs] := by
    rw [List.splitOn, List.splitOnP_eq_singleton]
    intro c hc
    rw [beq_eq_false_iff_ne]
    rintro rfl
    exact h hc
  simp [lifetimeIn, hsplit]

/-- What follows a plus does not matter for what a text opens with. -/
theorem opensLifetime_append_plus (before after : List Char) :
    opensLifetime (before ++ '+' :: after) = opensLifetime before := by
  induction before with
  | nil =>
    rw [List.nil_append, opensLifetime_cons, if_neg (by decide)]
    rfl
  | cons c rest ih => rw [List.cons_append, opensLifetime_cons, opensLifetime_cons, ih]

/-- Texts are taken apart at their pluses: what holds of texts without one, and of a text before the first plus and
the rest of it, holds of all texts. -/
theorem plusInduction {motive : List Char → Prop} (plain : ∀ cs, '+' ∉ cs → motive cs)
    (plus : ∀ before after, '+' ∉ before → motive after → motive (before ++ '+' :: after))
    (cs : List Char) : motive cs := by
  induction hn : cs.length using Nat.strongRecOn generalizing cs with
  | ind n ih =>
    by_cases h : '+' ∈ cs
    · obtain ⟨before, after, rfl, hbefore⟩ := List.eq_append_cons_of_mem h
      refine plus before after hbefore (ih after.length ?_ after rfl)
      simp only [List.length_append, List.length_cons] at hn
      omega
    · exact plain cs h

theorem lifetimeIn_filter (cs : List Char) : lifetimeIn (cs.filter (· != ' ')) = lifetimeIn cs := by
  induction cs using plusInduction with
  | plain cs h =>
    have hfilter : '+' ∉ cs.filter (· != ' ') := fun hmem => h (List.mem_of_mem_filter hmem)
    rw [lifetimeIn_of_notMem h, lifetimeIn_of_notMem hfilter, opensLifetime_filter]
  | plus before after h ih =>
    have hfilter : '+' ∉ before.filter (· != ' ') := fun hmem => h (List.mem_of_mem_filter hmem)
    rw [List.filter_append, List.filter_cons_of_pos (by decide), lifetimeIn_append_plus,
      lifetimeIn_append_plus, ih, lifetimeIn_of_notMem h, lifetimeIn_of_notMem hfilter, opensLifetime_filter]

/-- A text passes exactly if it opens with an apostrophe, or if one follows a plus in it. -/
theorem lifetimeIn_iff (cs : List Char) :
    lifetimeIn cs = true ↔ opensLifetime cs = true ∨
      ∃ before after, cs = before ++ '+' :: after ∧ opensLifetime after = true := by
  have hopens : ∀ cs, opensLifetime cs = true → lifetimeIn cs = true := by
    intro cs
    induction cs using plusInduction with
    | plain cs h => rw [lifetimeIn_of_notMem h]; exact id
    | plus before after h ih =>
      rw [opensLifetime_append_plus, lifetimeIn_append_plus, lifetimeIn_of_notMem h]
      intro hbefore
      rw [hbefore, Bool.true_or]
  constructor
  · induction cs using plusInduction with
    | plain cs h => rw [lifetimeIn_of_notMem h]; exact .inl
    | plus before after h ih =>
      rw [lifetimeIn_append_plus, lifetimeIn_of_notMem h, opensLifetime_append_plus, Bool.or_eq_true]
      rintro (hbefore | hafter)
      · exact .inl hbefore
      · rcases ih hafter with hopen | ⟨inner, rest, rfl, hrest⟩
        · exact .inr ⟨before, after, rfl, hopen⟩
        · exact .inr ⟨before ++ '+' :: inner, rest, by simp, hrest⟩
  · rintro (hopen | ⟨before, after, rfl, hafter⟩)
    · exact hopens cs hopen
    · rw [lifetimeIn_append_plus, hopens after hafter, Bool.or_true]

/-! ## Bounds -/

theorem hasLifetime_text (tokens : Tokens) : hasLifetime (Tokens.text tokens) = lifetimeIn (Tokens.chars tokens) := by
  rw [hasLifetime_eq, ← lifetimeIn_filter, Tokens.filter_text, lifetimeIn_filter]

/-- Whether a lifetime is seen in the text of a bound. -/
def showsLifetime (bound : Bound) : Bool := hasLifetime (Tokens.text bound.tokens)

theorem lifetimeIn_joined (bounds : List Bound) (trailing : Bool) :
    lifetimeIn (Tokens.chars (joined (sign "+") (Bound.tokensAll bounds) trailing)) =
      bounds.any showsLifetime := by
  have hplus : Tokens.chars (sign "+") = ['+'] := by decide
  have hempty : lifetimeIn [] = false := by decide
  induction bounds with
  | nil => exact hempty
  | cons bound rest ih =>
    have hbound : lifetimeIn (Tokens.chars bound.tokens) = showsLifetime bound :=
      (hasLifetime_text bound.tokens).symm
    cases rest with
    | nil =>
      cases trailing
      · simp [Bound.tokensAll, joined, hbound]
      · rw [Bound.tokensAll, Bound.tokensAll, joined, if_pos rfl, Tokens.chars_append, hplus,
          lifetimeIn_append_plus, hempty, hbound]
        simp
    | cons next rest =>
      rw [Bound.tokensAll, joined, Tokens.chars_append, Tokens.chars_append, hplus, List.append_assoc,
        List.singleton_append, lifetimeIn_append_plus, ih, hbound]
      · simp
      · exact List.cons_ne_nil next.tokens (Bound.tokensAll rest)

/-- Whether a bound is a lifetime. -/
def isLifetimeBound : Bound → Bool
  | .lifetime _ => true
  | _ => false

/-- The names that a bound begins with are names: a trait begins with one that a reader makes, and other tokens do not
begin with an apostrophe. -/
def Named : Bound → Prop
  | .lifetime _ => True
  | .trait _ _ _ _ segments => ∃ first rest, segments = first :: rest ∧ (Mark.ident first.ident.name).Legible
  | .capture tokens | .verbatim tokens => opensLifetime (Tokens.chars tokens) = false

/-- In the text of a bound an apostrophe follows a plus. -/
def NestsLifetime (bound : Bound) : Prop :=
  ∃ before after, (Tokens.text bound.tokens).toList = before ++ '+' :: after ∧ opensLifetime after = true

/-- A name does not open with an apostrophe, whatever follows it. -/
theorem opensLifetime_name {name : String} (h : (Mark.ident name).Legible) (rest : List Char) :
    opensLifetime (name.toList ++ rest) = false := by
  have hstart : ∀ c, Text.isIdentStart c = true → Text.isWhitespace c = false ∧ c ≠ '\'' := by
    intro c hc
    have hblank := Lexer.identStart_not_blank hc
    refine ⟨?_, ?_⟩
    · rw [Text.isBlank, Bool.or_eq_false_iff, Bool.or_eq_false_iff] at hblank
      exact hblank.1.1
    · rintro rfl
      exact Lexer.special_not_ident (.inr hc) (by decide)
  have hhead : ∃ c more, name.toList = c :: more ∧ Text.isIdentStart c = true := by
    rcases h with hword | ⟨word, hname, -, -⟩
    · cases hlist : name.toList with
      | nil => simp [hlist, Text.isIdentifier] at hword
      | cons c more =>
        rw [hlist, Text.isIdentifier, Bool.and_eq_true] at hword
        exact ⟨c, more, rfl, hword.1⟩
    · exact ⟨'r', _, hname, by decide⟩
  obtain ⟨c, more, hname, hc⟩ := hhead
  obtain ⟨hblank, hquote⟩ := hstart c hc
  rw [hname, List.cons_append, opensLifetime_cons, if_neg (by simp [hblank])]
  simpa using hquote

/-- Tokens that begin with a name do not open with an apostrophe. -/
theorem opensLifetime_ident {ident : Ident} (h : (Mark.ident ident.name).Legible) (rest : Tokens) :
    opensLifetime (Tokens.chars (ident.token :: rest)) = false :=
  opensLifetime_name h (Tokens.chars rest)

/-- A bound opens with an apostrophe exactly if it is a lifetime. -/
theorem opensLifetime_bound {bound : Bound} (h : Named bound) :
    opensLifetime (Tokens.chars bound.tokens) = isLifetimeBound bound := by
  cases bound with
  | lifetime name => rfl
  | trait inParens relaxed binder rooted segments =>
    obtain ⟨⟨name, args⟩, rest, rfl, hname⟩ := h
    -- What stands first is a parenthesis, a question mark, the word of a binder, a colon, or the name.
    cases inParens with
    | true => rfl
    | false =>
      cases relaxed with
      | true => rfl
      | false =>
        cases binder with
        | some binder => rfl
        | none =>
          cases rooted with
          | true => rfl
          | false =>
            obtain ⟨more, hmore⟩ : ∃ more, joined (sign "::") (Segment.tokensAll (.mk name args :: rest)) false =
                name.token :: more := by
              cases rest <;> exact ⟨_, rfl⟩
            change opensLifetime (Tokens.chars (joined (sign "::") _ false)) = false
            rw [hmore]
            exact opensLifetime_ident hname more
  | capture tokens => exact h
  | verbatim tokens => exact h

/-- A bound shows a lifetime exactly if it is one or holds one after a plus. -/
theorem showsLifetime_iff {bound : Bound} (h : Named bound) :
    showsLifetime bound = true ↔ isLifetimeBound bound = true ∨ NestsLifetime bound := by
  have hopens : opensLifetime (Tokens.text bound.tokens).toList = isLifetimeBound bound := by
    rw [← opensLifetime_filter, Tokens.filter_text, opensLifetime_filter, opensLifetime_bound h]
  rw [showsLifetime, hasLifetime_eq, lifetimeIn_iff, hopens]
  rfl

/-- A boxed callable is described with its bounds, and outlives the call that takes it. -/
theorem ofType?_boxed {rooted turbofish isDyn trailing comma : Bool} {front : List Segment} {box : Ident}
    {bounds : List Bound} (hbox : box.name = "Box") (hcallable : bounds.any isCallableBound = true) :
    let type := Ty.path rooted
      (front ++ [.mk box (.angle turbofish [.type (.traitObject isDyn bounds trailing)] comma)])
    ofType? type = some (callable (Tokens.text type.tokens) (boundsText bounds trailing) true) := by
  have hbounds : boxedBounds? (front ++ [.mk box (.angle turbofish [.type (.traitObject isDyn bounds trailing)]
      comma)]) = some (boundsText bounds trailing) := by
    simp [boxedBounds?, hbox, hcallable]
  simp only [ofType?, hbounds]

/-- A boxed callable is taken by its bounds alone if one of them is a lifetime, or if inside one of them an apostrophe
follows a plus; otherwise the longest lifetime is put after them. -/
theorem boxed_callable_parameterText (rooted turbofish isDyn trailing comma : Bool) (front : List Segment)
    {box : Ident} {bounds : List Bound} (hbox : box.name = "Box")
    (hcallable : bounds.any isCallableBound = true) (hnamed : ∀ bound ∈ bounds, Named bound) :
    ∃ descriptor, ofType? (.path rooted (front ++
        [.mk box (.angle turbofish [.type (.traitObject isDyn bounds trailing)] comma)])) = some descriptor ∧
      descriptor.escapes = true ∧
      ((∃ bound ∈ bounds, isLifetimeBound bound = true ∨ NestsLifetime bound) →
        descriptor.parameterText = "impl " ++ boundsText bounds trailing) ∧
      ((∀ bound ∈ bounds, isLifetimeBound bound = false ∧ ¬NestsLifetime bound) →
        descriptor.parameterText = "impl " ++ boundsText bounds trailing ++ " + 'static") := by
  refine ⟨_, ofType?_boxed hbox hcallable, rfl, ?_, ?_⟩
  · rintro ⟨bound, hbound, hshown⟩
    have hlifetime : hasLifetime (boundsText bounds trailing) = true := by
      rw [boundsText, hasLifetime_text, lifetimeIn_joined, List.any_eq_true]
      exact ⟨bound, hbound, (showsLifetime_iff (hnamed bound hbound)).mpr hshown⟩
    rw [parameterText, if_pos hlifetime]
  · intro hnone
    have hlifetime : ¬hasLifetime (boundsText bounds trailing) = true := by
      rw [boundsText, hasLifetime_text, lifetimeIn_joined, List.any_eq_true]
      rintro ⟨bound, hbound, hshown⟩
      obtain ⟨hplain, hnest⟩ := hnone bound hbound
      rcases (showsLifetime_iff (hnamed bound hbound)).mp hshown with hfound | hfound
      · simp [hplain] at hfound
      · exact hnest hfound
    rw [parameterText, if_neg hlifetime]

/-- A callable that takes a boxed trait object with a lifetime. -/
def takesBoxed : Bound :=
  let word (name : String) : Ident := ⟨name, Pos.callSite⟩
  let inner : Ty := .traitObject true
    [.trait false false none false [.mk (word "Send") .none], .lifetime ⟨Pos.callSite, word "a"⟩] false
  .trait false false none false
    [.mk (word "Fn") (.call [.path false [.mk (word "Box") (.angle false [.type inner] false)]] false none)]

/-- A callable that takes a trait object with a lifetime is itself taken without one. -/
theorem takesBoxed_parameterText :
    isLifetimeBound takesBoxed = false ∧
      ∃ descriptor, ofType? (.path false [.mk ⟨"Box", Pos.callSite⟩
          (.angle false [.type (.traitObject true [takesBoxed] false)] false)]) = some descriptor ∧
        descriptor.parameterText = "impl Fn(Box<dyn Send + 'a>)" := by
  have hnests : NestsLifetime takesBoxed :=
    ⟨"Fn(Box<dyn Send ".toList, " 'a>)".toList, by decide +kernel, by decide⟩
  have hnamed : ∀ bound ∈ [takesBoxed], Named bound := by
    intro bound hbound
    obtain rfl := List.mem_singleton.mp hbound
    exact ⟨_, _, rfl, .inl (by decide)⟩
  obtain ⟨descriptor, hdescriptor, -, hshown, -⟩ :=
    boxed_callable_parameterText false false true false false [] (rfl : (Ident.mk "Box" Pos.callSite).name = "Box")
      (by decide) hnamed
  have htext : boundsText [takesBoxed] false = "Fn(Box<dyn Send + 'a>)" := by decide +kernel
  refine ⟨rfl, descriptor, hdescriptor, ?_⟩
  rw [hshown ⟨takesBoxed, List.mem_singleton_self _, .inr hnests⟩, htext]
  rfl

end Descriptor

end Fieldwise
