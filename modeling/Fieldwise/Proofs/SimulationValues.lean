import Fieldwise.Proofs.SimulationItems
import Fieldwise.Proofs.Values

/-!
# Values see no places

The rules for values, and for the arguments of annotations and of member attributes, do at other places what they
do here. So parsing tokens at other places gives the same tree or the same error at those places.
-/

namespace Fieldwise

open Fieldwise.Grammar Fieldwise.Grammar.Parser Fieldwise.Token

set_option synthInstance.maxSize 8192
set_option synthInstance.maxHeartbeats 100000

/-! ## Values at other places -/

namespace Value

mutual

/-- The same value at other places. -/
def retouched (r : Retouch) : Value → Value
  | bool value => bool value
  | text shown pos => text shown (r.place pos)
  | char shown => char shown
  | whole negative shown => whole negative shown
  | fraction negative shown => fraction negative shown
  | absent => absent
  | array elements => array (retouchedAll r elements)
  | map entries => map (retouchedEntries r entries)
  | cast value type conditional => cast (value.retouched r) (retouch r type) conditional
  | other tokens => other (retouch r tokens)

/-- The same values at other places. -/
def retouchedAll (r : Retouch) : List Value → List Value
  | [] => []
  | value :: rest => value.retouched r :: retouchedAll r rest

/-- The same entries of a map at other places. -/
def retouchedEntries (r : Retouch) : List (Value × Value) → List (Value × Value)
  | [] => []
  | (key, value) :: rest => (key.retouched r, value.retouched r) :: retouchedEntries r rest

end

end Value

instance : HasPlaces Value := ⟨Value.retouched⟩
instance : HasPlaces Directive := ⟨fun r found => ⟨retouch r found.name, retouch r found.value⟩⟩

instance : HasPlaces MemberOption where
  retouch r
    | .initial value => .initial (retouch r value)
    | .constant => .constant
    | .static => .static
    | .computed value => .computed (retouch r value)

section Retouch

variable (r : Retouch)

theorem Value.retouchedAll_eq (values : List Value) : retouchedAll r values = retouch r values := by
  induction values with
  | nil => rfl
  | cons value rest ih => rw [Value.retouchedAll, ih]; rfl

theorem Value.retouchedEntries_eq (entries : List (Value × Value)) :
    retouchedEntries r entries = retouch r entries := by
  induction entries with
  | nil => rfl
  | cons entry rest ih => rw [Value.retouchedEntries, ih]; rfl

@[simp] theorem retouch_arrayValue (elements : List Value) :
    retouch r (Value.array elements) = .array (retouch r elements) := by
  rw [← Value.retouchedAll_eq]
  rfl

@[simp] theorem retouch_mapValue (entries : List (Value × Value)) :
    retouch r (Value.map entries) = .map (retouch r entries) := by
  rw [← Value.retouchedEntries_eq]
  rfl

@[simp] theorem retouch_castValue (value : Value) (type : Ty) (conditional : Bool) :
    retouch r (Value.cast value type conditional) = .cast (retouch r value) (retouch r type) conditional :=
  rfl

end Retouch

namespace Grammar

variable (w : Shift)

namespace Moved

instance ofLit (negative : Bool) (lit lit' : Lit) [h : Moved w lit lit'] :
    Moved w (Value.ofLit negative lit) (Value.ofLit negative lit') := by
  refine ⟨?_⟩
  rw [h.eq]
  unfold Value.ofLit
  rw [lit_kind_retouch]
  rcases lit.kind with _ | ⟨_ | _ | _ | _ | _⟩ <;> rfl

instance absentValue : Moved w Value.absent .absent := ⟨rfl⟩

instance arrayValue (elements elements' : List Value) [h : Moved w elements elements'] :
    Moved w (Value.array elements) (.array elements') := ⟨by rw [h.eq, retouch_arrayValue]⟩

instance mapValue (entries entries' : List (Value × Value)) [h : Moved w entries entries'] :
    Moved w (Value.map entries) (.map entries') := ⟨by rw [h.eq, retouch_mapValue]⟩

instance castValue (value value' : Value) (type type' : Ty) (conditional conditional' : Bool)
    [h : Moved w value value'] [ht : Moved w type type'] [hc : Moved w conditional conditional'] :
    Moved w (Value.cast value type conditional) (.cast value' type' conditional') :=
  ⟨by rw [h.eq, ht.eq, hc.eq]; rfl⟩

instance otherValue (tokens tokens' : Tokens) [h : Moved w tokens tokens'] :
    Moved w (Value.other tokens) (.other tokens') := ⟨by rw [h.eq]; rfl⟩

instance directive (name name' : Ident) (value value' : Value) [h : Moved w name name']
    [hv : Moved w value value'] : Moved w (Directive.mk name value) ⟨name', value'⟩ :=
  ⟨by rw [h.eq, hv.eq]; rfl⟩

instance initialOption (value value' : Value) [h : Moved w value value'] :
    Moved w (MemberOption.initial value) (.initial value') := ⟨by rw [h.eq]; rfl⟩

instance computedOption (value value' : Expr) [h : Moved w value value'] :
    Moved w (MemberOption.computed value) (.computed value') := ⟨by rw [h.eq]; rfl⟩

instance constantOption : Moved w MemberOption.constant .constant := ⟨rfl⟩

instance staticOption : Moved w MemberOption.static .static := ⟨rfl⟩

end Moved

instance Blind.startsNumber : Blind w Value.startsNumber := by
  unfold Value.startsNumber
  infer_instance

instance Blind.isNone : Blind w Value.operand.isNone := by
  unfold Value.operand.isNone
  infer_instance

/-! ## The rules for values -/

namespace Follows

variable {loose : Prop} (rules other : Rules) [Rules.Follow w loose rules other]

instance opaqueTokens : Follows w loose Value.opaqueTokens Value.opaqueTokens := by
  have go : ∀ n, Follows w loose (Value.opaqueTokens.go n) (Value.opaqueTokens.go n) := by
    intro n
    induction n with
    | zero => exact pure w _ _
    | succ n ih =>
      unfold Value.opaqueTokens.go
      infer_instance
  unfold Value.opaqueTokens
  infer_instance

instance otherValue : Follows w loose Value.otherValue Value.otherValue := by
  unfold Value.otherValue
  infer_instance

instance entries (p q : Parser Value) [Follows w loose p q] :
    Follows w loose (Value.entries p) (Value.entries q) := by
  unfold Value.entries
  infer_instance

instance operand (p q : Parser Value) [Follows w loose p q] :
    Follows w loose (Value.operand p) (Value.operand q) := by
  unfold Value.operand
  refine whether w inferInstance ?_ (whether w inferInstance ?_ inferInstance)
  · refine andThen w inferInstance fun found => ?_
    rcases found with _ | ⟨⟨found, opening, closing⟩, after⟩ <;>
      simp only [retouch_none, retouch_some, retouch_pair] <;> infer_instance
  · refine andThen w inferInstance fun found => ?_
    rcases found with _ | ⟨⟨found, opening, closing⟩, after⟩ <;>
      simp only [retouch_none, retouch_some, retouch_pair] <;> infer_instance

instance casts (value value' : Value) [Moved w value value'] :
    Follows w loose (Value.casts rules value) (Value.casts other value') := by
  have go : ∀ n (value value' : Value) [Moved w value value'],
      Follows w loose (Value.casts.go rules value n) (Value.casts.go other value' n) := by
    intro n
    induction n with
    | zero => exact fun _ _ _ => pure w _ _
    | succ n ih =>
      intro value value' _
      unfold Value.casts.go
      infer_instance
  unfold Value.casts
  infer_instance

/-- What follows without running out of depth follows. -/
theorem of_strict {α : Type} [HasPlaces α] {p q : Parser α} (h : Follows w False p q) :
    Follows w loose p q := ⟨fun s => .inl ((h.run s).resolve_right fun hno => hno.1)⟩

instance valueTo (depth : Nat) :
    Follows w loose (Value.parserTo depth rules) (Value.parserTo depth other) := by
  induction depth generalizing loose rules other with
  | zero => exact failHere w _
  | succ depth ih =>
    have hinner : Follows w False (Value.innerTo depth) (Value.innerTo depth) := by
      refine ⟨fun s => ?_⟩
      have hlevel := level_follow_self w (depthFor s.tokens)
      have hrules : Rules.forTokens (retouch w.toRetouch s).tokens = .level (depthFor s.tokens) := by
        rw [Rules.forTokens, depthFor, stream_tokens_retouch, sizeAll_retouch, depthFor]
      rw [Value.innerTo, hrules]
      exact (@ih False (.level (depthFor s.tokens)) (.level (depthFor s.tokens)) hlevel).run s
    have hinner : Follows w loose (Value.innerTo depth) (Value.innerTo depth) := of_strict w hinner
    rw [Value.parserTo_succ, Value.parserTo_succ]
    infer_instance

instance value : Follows w loose (Value.parser rules) (Value.parser other) := by
  unfold Value.parser
  infer_instance

instance directive : Follows w loose (Directive.parser rules) (Directive.parser other) := by
  unfold Directive.parser
  infer_instance

instance memberOption :
    Follows w loose (MemberOptions.optionParser rules) (MemberOptions.optionParser other) := by
  unfold MemberOptions.optionParser
  refine andThen w inferInstance fun name => ?_
  have hname : (retouch w.toRetouch name).name = name.name := rfl
  have hpos : (retouch w.toRetouch name).pos = retouch w.toRetouch name.pos := rfl
  rw [hname, hpos]
  split <;> infer_instance

end Follows

/-! ## Parsing at other places -/

variable {α : Type} [HasPlaces α]

/-- A parser that is followed is followed to the end of the tokens. -/
theorem parseAll_retouch {p q : Parser α} (h : Follows w False p q) (tokens : Tokens) (stop : Pos) :
    parseAll q (retouch w.toRetouch tokens) (w.place stop) =
      retouch w.toRetouch (parseAll p tokens stop) := by
  have hrun : q ⟨retouch w.toRetouch tokens, w.place stop, .invisible, none⟩ =
      retouch w.toRetouch (p ⟨tokens, stop, .invisible, none⟩) :=
    (h.run ⟨tokens, stop, .invisible, none⟩).resolve_right fun hno => hno.1
  rw [parseAll, parseAll, hrun]
  cases p ⟨tokens, stop, .invisible, none⟩ with
  | error error => rfl
  | ok found =>
    obtain ⟨value, after⟩ := found
    simp only [retouch_ok, retouch_pair, leftover_retouch, remainder_retouch, ← retouch_or]
    cases after.leftover.or after.remainder <;> rfl

/-- Parsing tokens at other places gives the same at those places. -/
theorem parseWith_retouch {p : Rules → Parser α}
    (h : ∀ rules, Rules.Follow w False rules rules → Follows w False (p rules) (p rules))
    (tokens : Tokens) :
    parseWith p (retouch w.toRetouch tokens) = retouch w.toRetouch (parseWith p tokens) := by
  have hrules : Rules.forTokens (retouch w.toRetouch tokens) = .forTokens tokens := by
    rw [Rules.forTokens, depthFor, sizeAll_retouch]
    rfl
  have hparse := parseAll_retouch w (h _ (level_follow_self w (depthFor tokens))) tokens Pos.callSite
  rw [w.callSite] at hparse
  rw [parseWith, hrules]
  exact hparse

theorem parseItem_retouch (tokens : Tokens) :
    parseItem (retouch w.toRetouch tokens) = retouch w.toRetouch (parseItem tokens) :=
  parseWith_retouch w (fun _ _ => inferInstance) tokens

theorem parseItems_retouch (tokens : Tokens) :
    parseItems (retouch w.toRetouch tokens) = retouch w.toRetouch (parseItems tokens) :=
  parseWith_retouch w (fun _ _ => inferInstance) tokens

theorem parseDirectives_retouch (tokens : Tokens) :
    Directive.parseAll (retouch w.toRetouch tokens) = retouch w.toRetouch (Directive.parseAll tokens) :=
  parseWith_retouch w (fun _ _ => inferInstance) tokens

theorem parseAttribute_retouch (attr : Attribute) :
    MemberOptions.parseAttribute (retouch w.toRetouch attr) =
      retouch w.toRetouch (MemberOptions.parseAttribute attr) := by
  obtain ⟨inner, pos, closing, ⟨rooted, names⟩, value⟩ := attr
  cases value with
  | word => cases names <;> rfl
  | value equals shown => rfl
  | list delim body opening closing =>
    have hrules : Rules.forTokens (retouch w.toRetouch body) = .forTokens body := by
      rw [Rules.forTokens, depthFor, sizeAll_retouch]
      rfl
    have hlevel : Rules.Follow w False (.forTokens body) (.forTokens body) :=
      level_follow_self w (depthFor body)
    have hfollows : Follows w False
        (Separated.items <$> terminated (MemberOptions.optionParser (.forTokens body)))
        (Separated.items <$> terminated (MemberOptions.optionParser
          (.forTokens (retouch w.toRetouch body)))) := by
      rw [hrules]
      infer_instance
    exact parseAll_retouch w hfollows body closing

end Grammar

end Fieldwise
