import Fieldwise.Proofs.TypePieces

/-!
# The tokens of types

A type that is read from visible tokens is written with visible tokens, and where it is written with a plus sign at
its end, no word came after it when it was read. The rules of the grammar are gone through one step at a time.
-/

namespace Fieldwise.Grammar

open Fieldwise.Grammar.Parser Fieldwise.Token

set_option synthInstance.maxSize 4096

variable {α β : Type}

/-! ## Arguments and paths -/

/-- Rules whose types and bounds are written as they have to be. -/
class Rules.Printing (rules : Rules) : Prop where
  typeExtends : ∀ b, Extends .alone (rules.type b)
  boundExtends : ∀ b c, Extends .alone (rules.bound b c)
  typeCalms : ∀ b, Calms (rules.type b)
  boundCalms : ∀ b c, Calms (rules.bound b c)
  boundTakes : ∀ b c, Takes (rules.bound b c)
  type : ∀ b, Prints (rules.type b) Ty.tokens
  bound : ∀ b c, Prints (rules.bound b c) Bound.tokens

attribute [instance] Rules.Printing.typeExtends Rules.Printing.boundExtends Rules.Printing.typeCalms
  Rules.Printing.boundCalms Rules.Printing.boundTakes

namespace Reads

variable {pre : Tokens → Prop}

theorem lit : Reads pre Parser.lit fun found _ => overtAll found.tokens = true := by
  intro s found t hsolid _ h
  have hovert := overtAll_of_solidAll hsolid
  exact ⟨(Extends.lit .alone).suffix s found t hovert h, overtAll_lit? (lit_eq_ok.mp h).1⟩

theorem op (text : String) : Reads pre (Parser.op text) fun tokens _ => ∃ pos, tokens = operator pos text.toList := by
  intro s tokens t hsolid _ h
  refine ⟨(Extends.op .alone text).suffix s tokens t (overtAll_of_solidAll hsolid) h, ?_⟩
  unfold Parser.op at h
  split at h
  · cases h
    exact ⟨_, rfl⟩
  · contradiction

theorem plus_lt {n : Nat} : Reads (fun ts => ts.length < n + 1) (Parser.op "+") fun _ rest => rest.length < n := by
  intro s tokens t hsolid hlt h
  have hovert := overtAll_of_solidAll hsolid
  have htaken := (inferInstance : Takes (Parser.op "+")).lt s tokens t hovert h
  exact ⟨(Extends.op .alone "+").suffix s tokens t hovert h, by omega⟩

theorem word (name : String) :
    Reads pre (Parser.word name) fun tokens _ => ∃ found pos, tokens = [.ident found pos] := by
  intro s tokens t hsolid _ h
  refine ⟨(Extends.picks .alone (Parser.word name)).suffix s tokens t (overtAll_of_solidAll hsolid) h, ?_⟩
  unfold Parser.word at h
  split at h
  · split at h
    · cases h
      exact ⟨_, _, rfl⟩
    · exact absurd h (by simp [Parser.fail])
  · exact absurd h (by simp [Parser.fail])

theorem enclosed {delim : Delim} (h : delim ≠ .invisible) (p : Parser Tokens) :
    Reads pre (Parser.enclosed delim p) fun tokens _ => overtAll tokens = true := by
  refine skip _ fun found => ?_
  obtain ⟨body, opening, closing⟩ := found
  refine pure fun _ _ => ?_
  cases delim with
  | invisible => contradiction
  | _ => rfl

theorem constArgument (rules : Rules) :
    Reads pre (constArgument rules) fun value _ => overtAll value.tokens = true := by
  refine look fun _ => ite (fun _ => ?_) fun _ => look fun _ => ite (fun _ => ?_) fun _ =>
    look fun _ => ite (fun _ => ?_) fun _ => ?_
  · exact bindOf lit fun found hfound => pure fun _ _ => hfound
  · exact skip _ fun found => pure fun _ _ => rfl
  · exact bindOf (enclosed (by decide) _) fun tokens htokens => pure fun _ _ => htokens
  · exact fails fun _ => ⟨_, rfl⟩

theorem weaken {p : Parser α} {tokens : α → Tokens} (h : Prints p tokens) :
    Reads (fun _ => True) p fun a _ => overtAll (tokens a) = true :=
  h.mono (fun _ _ => id) fun _ _ hended => hended.2.overt

theorem overtAll_of_soleSegment? {type : Ty} {name : Ident} {args : Args} (hovert : overtAll type.tokens = true)
    (h : genericArg.soleSegment? type = some (name, args)) : overtAll args.tokens = true := by
  unfold genericArg.soleSegment? at h
  split at h
  · split at h
    · contradiction
    · cases h
      simpa [Ty.tokens, Segment.tokensAll, joined, Segment.tokens, overtAll, overt, Ident.token] using hovert
  · contradiction

theorem overtAll_boundTokens {bounds : List Bound} (h : ∀ bound ∈ bounds, overtAll bound.tokens = true) :
    ∀ piece ∈ Bound.tokensAll bounds, overtAll piece = true := by
  induction bounds with
  | nil => exact fun _ hmem => by contradiction
  | cons bound rest ih =>
    rw [Bound.tokensAll, List.forall_mem_cons]
    exact ⟨h bound (by simp), ih fun bound hmem => h bound (List.mem_cons_of_mem _ hmem)⟩

theorem overtAll_pieces {args : List GenericArg} (h : ∀ arg ∈ args, overtAll arg.tokens = true) :
    ∀ piece ∈ GenericArg.piecesAll args, overtAll piece.2 = true := by
  induction args with
  | nil => exact fun _ hmem => by contradiction
  | cons arg rest ih =>
    rw [GenericArg.piecesAll, List.forall_mem_cons]
    exact ⟨h arg (by simp), ih fun arg hmem => h arg (List.mem_cons_of_mem _ hmem)⟩

theorem traitBound_inParens (rules : Rules) (inParens allowConst : Bool) :
    Yields (Grammar.traitBound rules inParens allowConst) fun found => ∀ bound, found = some bound →
      ∃ relaxed binder rooted segments, bound = .trait inParens relaxed binder rooted segments := by
  have hlast : ∀ pos relaxed quantified rooted segments (isConst : Bool), Yields (
      if Option.isSome quantified && relaxed then
        Parser.failAt pos (.violated "`for<...>` binder not allowed with `?` trait polarity modifier")
      else if isConst then Pure.pure none
      else Pure.pure (some (Bound.trait inParens relaxed quantified rooted segments)))
      fun found => ∀ bound, found = some bound →
        ∃ relaxed binder rooted segments, bound = .trait inParens relaxed binder rooted segments := by
    intro pos relaxed quantified rooted segments isConst
    refine .ite (fun _ _ _ h => by contradiction) (.ite (.pure fun _ h => by contradiction) (.pure fun bound h => ?_))
    cases h
    exact ⟨_, _, _, _, rfl⟩
  refine .bind fun early => .bind fun isConst => .bind fun pos => .bind fun relaxed => .ite ?_ ?_ <;>
    exact .bind fun quantified => .bind fun found => .bind fun call =>
      .ite (.bind fun _ => .bind fun args => .bind fun segments => hlast _ _ _ _ _ _)
        (.bind fun segments => hlast _ _ _ _ _ _)

/-- Bounds before other tokens. -/
structure BoundsEnded (found : Separated Bound) (rest : Tokens) : Prop where
  /-- There are some. -/
  ne : found.items ≠ []
  /-- Each of them is written with visible tokens. -/
  pieces : ∀ bound ∈ found.items, bound.tokens ≠ [] ∧ overtAll bound.tokens = true
  /-- The last one may stand before what is left, unless a plus sign follows it. -/
  last : found.trailing = false → ∀ bound, found.items.getLast? = some bound → Ended bound.tokens rest
  /-- If a plus sign follows it no word is left. -/
  plus : found.trailing = true → Look.anyWord rest = false

namespace BoundsEnded

theorem single {bound : Bound} {rest : Tokens} (h : bound.tokens ≠ [] ∧ Ended bound.tokens rest) :
    BoundsEnded ⟨[bound], false⟩ rest where
  ne := List.cons_ne_nil _ _
  pieces := by simpa using ⟨h.1, h.2.overt⟩
  last := by simpa using h.2
  plus htrue := by contradiction

theorem closed {bound : Bound} {rest : Tokens} (h : bound.tokens ≠ [] ∧ overtAll bound.tokens = true)
    (hword : Look.anyWord rest = false) : BoundsEnded ⟨[bound], true⟩ rest where
  ne := List.cons_ne_nil _ _
  pieces := by simpa using h
  last hfalse := by contradiction
  plus _ := hword

theorem cons {bound : Bound} {found : Separated Bound} {rest : Tokens}
    (h : bound.tokens ≠ [] ∧ overtAll bound.tokens = true) (hrest : BoundsEnded found rest) :
    BoundsEnded ⟨bound :: found.items, found.trailing⟩ rest where
  ne := List.cons_ne_nil _ _
  pieces := List.forall_mem_cons.mpr ⟨h, hrest.pieces⟩
  last hfalse last hlast := by
    obtain ⟨next, items, hitems⟩ := List.exists_cons_of_ne_nil hrest.ne
    dsimp only at hlast
    rw [hitems, List.getLast?_cons_cons, ← hitems] at hlast
    exact hrest.last hfalse last hlast
  plus := hrest.plus

/-- Bounds end with the last one, or with a plus sign. -/
theorem joined {found : Separated Bound} {rest : Tokens} (h : BoundsEnded found rest) :
    joined (sign "+") (Bound.tokensAll found.items) found.trailing ≠ [] ∧
      Ended (joined (sign "+") (Bound.tokensAll found.items) found.trailing) rest := by
  have hmap : Bound.tokensAll found.items = found.items.map Bound.tokens := by
    generalize found.items = items
    induction items with
    | nil => rfl
    | cons bound rest ih => rw [Bound.tokensAll, ih, List.map_cons]
  rw [hmap]
  refine ⟨joined_ne_nil (by simpa using h.ne) (by simpa using fun bound hmem => (h.pieces bound hmem).1) _, ?_⟩
  refine ended_joined (overtAll_sign _) ?_ (fun hfalse last hlast => ?_) h.plus
  · simpa using h.pieces
  · rw [List.getLast?_map, Option.map_eq_some_iff] at hlast
    obtain ⟨bound, hbound, rfl⟩ := hlast
    exact h.last hfalse bound hbound

end BoundsEnded

/-- A type that is written as it has to be before other tokens. -/
abbrev TypeEnded (type : Ty) (rest : Tokens) : Prop := type.tokens ≠ [] ∧ Ended type.tokens rest

theorem shut_group {delim : Delim} (h : delim ≠ .invisible) (body : Tokens) : Shut (wrap delim body) := by
  cases delim with
  | invisible => contradiction
  | _ => exact Shut.of_end rfl rfl

theorem bracketType (rules : Rules) : Reads pre (bracketType rules) TypeEnded := by
  have hinside : Yields (do
      let element ← rules.type true
      if ← Parser.look (Look.op ";") then
        let _ ← Parser.op ";"
        return Ty.array element (← rules.expr true)
      else return Ty.slice element) fun type => ∃ body, type.tokens = wrap .bracket body := by
    refine .bind fun element => .bind fun _ => .ite (.bind fun _ => .bind fun length => .pure ?_) (.pure ?_)
    · exact ⟨_, by rw [Ty.tokens]⟩
    · exact ⟨_, by rw [Ty.tokens]⟩
  refine bindOf (of_yields hinside.within) fun found hfound => ?_
  obtain ⟨type, opening, closing⟩ := found
  obtain ⟨body, hbody⟩ := hfound
  refine pure fun rest _ => ?_
  rw [TypeEnded, hbody]
  exact ⟨by simp [wrap], shut_group (by decide) body rest⟩

section Rules

variable (rules : Rules) [hrules : rules.Printing]

theorem genericArg : Reads pre (genericArg rules) fun arg _ => overtAll arg.tokens = true := by
  refine look fun _ => ite (fun _ => skip _ fun name => pure fun _ _ => rfl) fun _ => ?_
  refine look fun _ => ite (fun _ => ?_) fun _ => ?_
  · exact bindOf (constArgument rules) fun value hvalue => pure fun _ _ => hvalue
  · refine bindOf (weaken (hrules.type true)) fun type hovert => ?_
    split
    · exact pure fun _ _ => hovert
    · rename_i name args hsole
      have hargs := overtAll_of_soleSegment? hovert hsole
      refine look fun _ => ite (fun _ => skip _ fun _ => look fun _ => ite (fun _ => ?_) fun _ => ?_) fun _ =>
        look fun _ => ite (fun _ => skip _ fun _ => ?_) fun _ => pure fun _ _ => hovert
      · refine bindOf (constArgument rules) fun value hvalue => pure fun _ _ => ?_
        simp [GenericArg.tokens, overtAll, overtAll_append, overtAll_sign, overt, Ident.token, hargs, hvalue]
      · refine bindOf (weaken (hrules.type true)) fun value hvalue => pure fun _ _ => ?_
        simp [GenericArg.tokens, overtAll, overtAll_append, overtAll_sign, overt, Ident.token, hargs, hvalue]
      · refine bindOf (separatedWhile (weaken (hrules.bound false true))) fun bounds hbounds => pure fun _ _ => ?_
        have hjoined := overtAll_joined (overtAll_sign "+") (overtAll_boundTokens hbounds) bounds.trailing
        simp [GenericArg.tokens, overtAll, overtAll_append, overtAll_sign, overt, Ident.token, hargs, hjoined]

theorem angleArgs : Reads pre (angleArgs rules) fun args _ => Shut args.tokens := by
  refine skip _ fun turbofish => skip _ fun _ => ?_
  refine bindOf (separatedUntil (genericArg rules)) fun items hitems => skip _ fun _ => pure fun _ _ => ?_
  have hpieces : overtAll (lifetimesFirst (GenericArg.piecesAll items.items) items.trailing) = true :=
    overtAll_lifetimesFirst (overtAll_pieces hitems) _
  refine Shut.of_end ?_ ?_
  · cases turbofish <;> simp [Args.tokens, overtAll_append, overtAll_sign, hpieces]
  · rw [Args.tokens, endsPlus_append (by decide)]
    rfl

theorem segment (exprStyle : Bool) : Reads pre (segment rules exprStyle) fun segment _ => Shut segment.tokens := by
  have hplain : ∀ name : Ident, Shut (Segment.tokens (.mk name .none)) := fun name => Shut.of_end rfl rfl
  have hargs : ∀ name : Ident, Reads (fun _ => True) (Parser.look (startsArgs exprStyle) >>= fun b =>
      if b then Grammar.angleArgs rules >>= fun args => Pure.pure (Segment.mk name args)
      else Pure.pure (Segment.mk name .none)) fun segment _ => Shut segment.tokens := by
    refine fun name => look fun _ => ite (fun _ => ?_) fun _ => pure fun _ _ => hplain name
    exact bindOf (angleArgs rules) fun args hshut => pure fun _ _ => hshut.after [name.token] rfl rfl
  refine look fun _ => ite (fun _ => skip _ fun name => pure fun _ _ => hplain name) fun _ => ?_
  exact look fun _ => ite (fun _ => skip _ fun name => hargs name) fun _ => skip _ fun name => hargs name

theorem moreSegments (exprStyle : Bool) (goesOn : Tokens → Bool) :
    Reads pre (moreSegments rules exprStyle goesOn) fun segments _ => ∀ segment ∈ segments, Shut segment.tokens :=
  repeatWhile (skip _ fun _ => segment rules exprStyle)

theorem path (exprStyle : Bool) : Reads pre (path rules exprStyle) fun found _ =>
    found.2 ≠ [] ∧ ∀ segment ∈ found.2, Shut segment.tokens := by
  refine skip _ fun root => bindOf (segment rules exprStyle) fun first hfirst => ?_
  refine bindOf (moreSegments rules exprStyle _) fun rest hrest => pure fun _ _ => ?_
  exact ⟨by simp, List.forall_mem_cons.mpr ⟨hfirst, hrest⟩⟩

theorem qpath (exprStyle : Bool) : Reads pre (qpath rules exprStyle) fun found _ =>
    found.segments ≠ [] ∧ (∀ segment ∈ found.segments, Shut segment.tokens) ∧ found.type.tokens ≠ [] ∧
      Shut found.type.tokens := by
  refine look fun _ => ite (fun _ => skip _ fun _ => ?_) fun _ => ?_
  · refine bindOf (weaken (hrules.type true)) fun self hself => ?_
    have hpath : Reads (fun _ => True) (some <$> Grammar.path rules false) fun asTrait _ =>
        ∀ found, asTrait = some found → ∀ segment ∈ found.2, Shut segment.tokens := by
      refine map ((path rules false).mono (fun _ _ => id) fun found _ h found' hfound => ?_)
      cases hfound
      exact h.2
    have habsent : ∀ pre : Tokens → Prop, Reads pre (Pure.pure none) fun (asTrait : Option (Bool × List Segment)) _ =>
        ∀ found, asTrait = some found → ∀ segment ∈ found.2, Shut segment.tokens :=
      fun _ => pure fun _ _ found hfound => by contradiction
    refine look fun _ => ite (fun _ => skip _ fun _ => bindOf hpath ?_) fun _ => bindOf (habsent _) ?_
    -- With a trait or without one, the rest of the path is read alike.
    all_goals
      intro asTrait hasTrait
      refine skip _ fun _ => skip _ fun _ => bindOf (segment rules exprStyle) fun first hfirst => ?_
      refine bindOf (moreSegments rules exprStyle _) fun rest hrest => ?_
      have hlater : ∀ segment ∈ first :: rest, Shut segment.tokens := List.forall_mem_cons.mpr ⟨hfirst, hrest⟩
      cases asTrait with
      | none => exact pure fun _ _ => ⟨by simp, hlater, projection_ne_nil, shut_projection hself hlater 0 true⟩
      | some found =>
        refine pure fun _ _ => ⟨by simp, ?_⟩
        have hall : ∀ segment ∈ found.2 ++ first :: rest, Shut segment.tokens :=
          List.forall_mem_append.mpr ⟨hasTrait found rfl, hlater⟩
        exact ⟨hall, projection_ne_nil, shut_projection hself hall _ _⟩
  · refine bindOf (path rules exprStyle) fun found hfound => pure fun _ _ => ?_
    exact ⟨hfound.1, hfound.2, by simp [QPath.type, Ty.tokens, path_ne_nil hfound.1], shut_path hfound.2 _⟩

theorem outputIf (allowPlus : Bool) :
    Reads pre (output? rules allowPlus) fun output rest => Ended (Ty.outputTokens output) rest := by
  refine look fun _ => ite (fun _ => skip _ fun _ => ?_) fun _ => pure fun rest _ => .nil rest
  exact map ((hrules.type allowPlus).mono (fun _ _ => id) fun type _ h => h.2.after (sign "->") rfl rfl)

theorem callArgs : Reads pre (callArgs rules) fun args rest => Ended args.tokens rest := by
  refine skip _ fun found => ?_
  obtain ⟨inputs, opening, closing⟩ := found
  exact bind (outputIf rules false) fun output => pure fun _ h => h.after (wrap .paren _) rfl rfl

/-! ## Bounds -/

theorem ended_trait {segments : List Segment} {rest : Tokens} (hne : segments ≠ [])
    (h : Ended (joined (sign "::") (Segment.tokensAll segments) false) rest) (relaxed : Bool) (binder : Option Binder)
    (rooted : Bool) : (Bound.trait false relaxed binder rooted segments).tokens ≠ [] ∧
      Ended (Bound.trait false relaxed binder rooted segments).tokens rest := by
  have hpath := path_ne_nil hne
  simp only [Bound.tokens, Bool.false_eq_true, if_false]
  refine ⟨by simp [hpath], h.before hpath _ ?_⟩
  cases relaxed <;> cases rooted <;> simp [overtAll_append, overtAll_sign, overtAll_binderTokens]

/-- A path ends with the arguments of its last segment. -/
theorem ended_withCallArgs {segments : List Segment} {args : Args} {rest : Tokens} (hne : segments ≠ [])
    (h : ∀ segment ∈ segments, Shut segment.tokens) (hargs : Ended args.tokens rest) :
    withCallArgs segments args ≠ [] ∧
      Ended (joined (sign "::") (Segment.tokensAll (withCallArgs segments args)) false) rest := by
  rcases List.eq_nil_or_concat segments with rfl | ⟨front, ⟨name, old⟩, rfl⟩
  · contradiction
  rw [List.concat_eq_append] at h ⊢
  rw [withCallArgs_append, segment_tokensAll_append]
  have hlast : Ended (Segment.mk name args).tokens rest := hargs.after [name.token] rfl rfl
  refine ⟨by simp, ended_joined (overtAll_sign _) ?_ (fun _ last hlast' => ?_) fun htrue => by contradiction⟩
  · rw [List.forall_mem_append]
    refine ⟨fun piece hmem => ?_, ?_⟩
    · obtain ⟨segment, hsegment, rfl⟩ := mem_tokensAll hmem
      exact ⟨segment.tokens_ne_nil, (h segment (List.mem_append_left _ hsegment)).overt⟩
    · simpa using ⟨Segment.tokens_ne_nil _, hlast.overt⟩
  · obtain rfl : (Segment.mk name args).tokens = last := by simpa using hlast'
    exact hlast

theorem traitBound (allowConst : Bool) : Reads pre (traitBound rules false allowConst) fun found rest =>
    ∀ bound, found = some bound → bound.tokens ≠ [] ∧ Ended bound.tokens rest := by
  have mark : ∀ allow, Extends .alone (traitBound.constMark allow) := by
    intro allow
    unfold traitBound.constMark
    infer_instance
  have hlast : ∀ pos relaxed quantified rooted segments (isConst : Bool), Reads
      (fun ts => segments ≠ [] ∧ Ended (joined (sign "::") (Segment.tokensAll segments) false) ts) (
      if Option.isSome quantified && relaxed then
        Parser.failAt pos (.violated "`for<...>` binder not allowed with `?` trait polarity modifier")
      else if isConst then Pure.pure none
      else Pure.pure (some (Bound.trait false relaxed quantified rooted segments)))
      fun found rest => ∀ bound, found = some bound → bound.tokens ≠ [] ∧ Ended bound.tokens rest := by
    intro pos relaxed quantified rooted segments isConst
    refine ite (fun _ => fails fun _ => ⟨_, rfl⟩) fun _ => ?_
    refine ite (fun _ => pure fun _ _ _ h => by contradiction) fun _ => ?_
    refine pure fun rest hrest bound h => ?_
    cases h
    exact ended_trait hrest.1 hrest.2 relaxed quantified rooted
  refine skip _ fun early => skip _ fun isConst => skip _ fun pos => skip _ fun relaxed => ?_
  refine ite (fun _ => skip _ fun quantified => ?_) fun _ => skip _ fun quantified => ?_ <;>
  · refine bindOf (path rules false) fun found hfound => ?_
    refine look fun _ => ite (fun _ => skip _ fun _ => bind (callArgs rules) fun args => ?_) fun _ => ?_
    · exact bind (pure fun rest hargs => ended_withCallArgs hfound.1 hfound.2 hargs) fun segments => hlast _ _ _ _ _ _
    · exact bind (pure fun rest _ => ⟨hfound.1, shut_joined (overtAll_sign _) (shut_of_mem_tokensAll hfound.2) rest⟩)
        fun segments => hlast _ _ _ _ _ _

theorem capturedParams : Reads pre capturedParams fun found _ => ∀ piece ∈ found.items, overtAll piece = true := by
  suffices hgo : ∀ n (pre : Tokens → Prop),
      Reads pre (captured.go n) fun found _ => ∀ piece ∈ found.items, overtAll piece = true from
    fun s => hgo (sizeAll s.tokens + 1) pre s
  intro n
  induction n with
  | zero => exact fun _ => pure (by simp)
  | succ n ih =>
    have hparam : Reads (fun _ => True) (Parser.choose
        [("lifetime", Look.lifetime, Lifetime.tokens <$> Parser.lifetime),
          ("identifier", Look.any [Look.ident, Look.word "Self"], do return [(← Parser.anyIdent).token]),
          ("`>`", Look.op ">", Pure.pure [])]) fun piece _ => overtAll piece = true := by
      refine choose ?_
      simp only [List.mem_cons, List.not_mem_nil, or_false, forall_eq_or_imp, forall_eq]
      exact ⟨map ((any _).mono (fun _ _ => id) fun _ _ _ => rfl), skip _ fun _ => pure fun _ _ => rfl,
        pure fun _ _ => rfl⟩
    refine fun _ => look fun _ => ite (fun _ => pure (by simp)) fun _ => bindOf hparam fun param hovert => ?_
    refine look fun _ => ite (fun _ => skip _ fun _ => bindOf (ih _) fun rest hrest => pure fun _ _ => ?_) fun _ =>
      look fun _ => ite (fun _ => pure fun _ _ => by simpa using hovert) fun _ => fails fun _ => ⟨_, rfl⟩
    simpa [Separated.cons] using ⟨hovert, hrest⟩

theorem captured : Reads pre captured fun tokens _ => tokens ≠ [] ∧ Shut tokens := by
  rw [captured_eq]
  refine bindOf (word "use") fun keyword hkeyword => bindOf (op "<") fun left hleft => ?_
  refine bindOf capturedParams fun params hparams => bindOf (op ">") fun right hright => pure fun _ _ => ?_
  obtain ⟨found, pos, rfl⟩ := hkeyword
  obtain ⟨at_, rfl⟩ := hleft
  obtain ⟨closing, rfl⟩ := hright
  have hjoined : overtAll (separatedTokens "," params) = true := overtAll_joined (overtAll_sign _) hparams _
  refine ⟨by simp, Shut.of_end ?_ ?_⟩
  · simp [overtAll_append, overtAll_operator, hjoined, overtAll, overt]
  · rw [endsPlus_append (by simp [operator])]
    rfl

theorem boundFront (allowConst : Bool) : Reads pre (boundFront rules allowConst) fun found rest =>
    ∀ bound, found = some bound → bound.tokens ≠ [] ∧ Ended bound.tokens rest := by
  refine look fun _ => ite (fun _ => map ?_) fun _ => traitBound rules allowConst
  intro s found t hsolid _ h
  refine ⟨(Extends.picks .alone _).suffix s found t (overtAll_of_solidAll hsolid) h, fun bound hbound => ?_⟩
  obtain ⟨relaxed, binder, rooted, segments, rfl⟩ :=
    (traitBound_inParens rules true allowConst).within s found t h bound hbound
  exact ⟨by simp [Bound.tokens, wrap], Ended.of_end rfl rfl _⟩

theorem bound (allowCapture allowConst : Bool) :
    Reads pre (bound rules allowCapture allowConst) fun bound rest => bound.tokens ≠ [] ∧ Ended bound.tokens rest := by
  rw [bound_eq]
  refine look fun _ => ite (fun _ => skip _ fun name => pure fun rest _ => ?_) fun _ =>
    look fun _ => ite (fun _ => ?_) fun _ => ?_
  · exact ⟨by simp [Bound.tokens, Lifetime.tokens], Ended.of_end rfl rfl rest⟩
  · refine skip _ fun pos => bindOf captured fun tokens htokens => ite (fun _ => ?_) fun _ => fails fun _ => ⟨_, rfl⟩
    exact pure fun rest _ => ⟨htokens.1, htokens.2 rest⟩
  · exact keeping (boundFront rules allowConst) fun front rest hne hended => ⟨hne, hended⟩

theorem bounds (allowPlus allowCapture allowConst : Bool) :
    Reads pre (bounds rules allowPlus allowCapture allowConst) BoundsEnded := by
  suffices hgo : ∀ n,
      Reads (fun ts => ts.length < n) (bounds.go rules allowPlus allowCapture allowConst n) BoundsEnded from
    fun s a t hsolid _ => hgo (sizeAll s.tokens + 1) s a t hsolid (Nat.lt_succ_of_le (length_le_sizeAll _))
  intro n
  induction n with
  | zero => exact fun s a t _ hlt => absurd hlt (Nat.not_lt_zero _)
  | succ n ih =>
    -- There are more rounds than tokens left, before and after a bound.
    refine bind (notLonger (bound rules _ _)) fun first =>
      assume (P := first.tokens ≠ [] ∧ overtAll first.tokens = true)
      (fun _ h => ⟨h.2.1, h.2.2.overt⟩) fun hfirst => ?_
    refine look fun plus => ite (fun _ => ?_) fun _ => pure fun rest h => .single h.1.2
    refine bind (plus_lt.mono (fun _ _ h => h.1.1) fun _ _ => id) fun _ => look fun starts =>
      ite (fun _ => ?_) fun hstarts => ?_
    · refine bind (ih.mono (fun _ _ h => h.1) fun _ _ => id) fun found => pure fun rest h => ?_
      have hempty : found.items.isEmpty = false := by simpa using h.ne
      rw [Separated.cons, hempty, Bool.false_or]
      exact .cons hfirst h
    · exact pure fun rest h => .closed hfirst (anyWord_of_startsBound (h.2.trans (by simpa using hstarts)))

theorem objectBounds (pos : Pos) (allowPlus : Bool) : Reads pre (objectBounds rules pos allowPlus) BoundsEnded :=
  bind (bounds rules allowPlus false false) fun _ => ite (fun _ => pure fun _ => id) fun _ => fails fun _ => ⟨_, rfl⟩

/-! ## Types -/

theorem ended_traitObject {found : Separated Bound} {rest : Tokens} (h : BoundsEnded found rest) (isDyn : Bool) :
    TypeEnded (.traitObject isDyn found.items found.trailing) rest := by
  rw [TypeEnded, Ty.tokens]
  refine ⟨by simp [h.joined.1], h.joined.2.after _ ?_ ?_⟩ <;> cases isDyn <;> rfl

theorem traitObject : Reads pre (traitObject rules) TypeEnded := by
  refine skip _ fun pos => skip _ fun keyword => bind (objectBounds rules pos true) fun found => pure fun _ h => ?_
  exact ended_traitObject h _

theorem furtherBounds (first : Bound) :
    Reads (fun ts => first.tokens ≠ [] ∧ Ended first.tokens ts) (furtherBounds rules first) TypeEnded := by
  suffices hgo : ∀ n first, Reads (fun ts => first.tokens ≠ [] ∧ Ended first.tokens ts)
      (repeatWhile.go (Look.op "+") (Parser.op "+" >>= fun _ => rules.bound false false) n)
      fun rest left => BoundsEnded ⟨first :: rest, false⟩ left from
    bind (fun s => hgo (sizeAll s.tokens + 1) first s) fun rest => pure fun _ h => ended_traitObject h false
  intro n
  induction n with
  | zero => exact fun first => pure fun _ h => .single h
  | succ n ih =>
    intro first
    refine assume (P := first.tokens ≠ [] ∧ overtAll first.tokens = true) (fun _ h => ⟨h.1, h.2.overt⟩) fun hfirst => ?_
    refine look fun _ => ite (fun _ => ?_) fun _ => pure fun _ h => .single h.1
    have hnext : Prints (Parser.op "+" >>= fun _ => rules.bound false false) Bound.tokens :=
      skip _ fun _ => hrules.bound false false
    refine bind (hnext.mono (fun _ _ _ => trivial) fun _ _ => id) fun next => bind (ih next) fun rest =>
      pure fun _ h => ?_
    exact .cons hfirst h

/-- What parentheses hold is written in them, unless a plus sign after them makes a bound of it. -/
def ContentEnded : ParenContent → Prop
  | .type found => found.tokens ≠ [] ∧ Shut found.tokens
  | .bound found => found.tokens ≠ [] ∧ Shut found.tokens
  | .inner inner => inner.tokens ≠ [] ∧ overtAll inner.tokens = true

theorem parenContent : Reads pre (parenContent rules) fun content _ => ContentEnded content := by
  have htuple : ∀ elements trailing, ContentEnded (.type (.tuple elements trailing)) := by
    refine fun elements trailing => ⟨by simp [Ty.tokens, wrap], ?_⟩
    rw [Ty.tokens]
    exact shut_group (by decide) _
  have hend : Parser.atEnd = Parser.look List.isEmpty := rfl
  rw [Grammar.parenContent, hend]
  refine look fun _ => ite (fun _ => pure fun _ _ => htuple _ _) fun _ => look fun _ => ite (fun _ => ?_) fun _ =>
    look fun _ => ite (fun _ => ?_) fun _ => ?_
  · refine skip _ fun found => pure fun _ _ => ⟨by simp [Ty.tokens, wrap], ?_⟩
    rw [Ty.tokens]
    exact shut_group (by decide) _
  · refine bindOf (of_yields (traitBound_inParens rules true false)) fun found hfound => ?_
    cases found with
    | none => exact pure fun _ _ => htuple _ _
    | some bound =>
      obtain ⟨relaxed, binder, rooted, segments, rfl⟩ := hfound bound rfl
      exact pure fun _ _ => ⟨by simp [Bound.tokens, wrap], Shut.of_end rfl rfl⟩
  · refine bindOf (P := fun inner => ContentEnded (.inner inner))
      ((hrules.type true).mono (fun _ _ => id) fun _ _ h => ⟨h.1, h.2.overt⟩) fun first hfirst => ?_
    refine look fun _ => ite (fun _ => skip _ fun _ => ?_) fun _ => pure fun _ _ => hfirst
    exact skip (Parser.separatedUntil List.isEmpty "," (rules.type true)) fun rest => pure fun _ _ => htuple _ _

/-- A type in parentheses before a plus sign is a bound. -/
theorem ended_parenBound? {inner : Ty} {first : Bound} {rest : Tokens} (h : parenBound? inner = some first)
    (hinner : inner.tokens ≠ [] ∧ overtAll inner.tokens = true) (hword : Look.anyWord rest = false) :
    first.tokens ≠ [] ∧ Ended first.tokens rest := by
  have hparen : ∀ relaxed binder rooted segments, (Bound.trait true relaxed binder rooted segments).tokens ≠ [] ∧
      Ended (Bound.trait true relaxed binder rooted segments).tokens rest :=
    fun _ _ _ _ => ⟨by simp [Bound.tokens, wrap], Ended.of_end rfl rfl rest⟩
  unfold parenBound? at h
  split at h
  · cases h
    exact hparen _ _ _ _
  · cases h
    exact hparen _ _ _ _
  · rename_i other _
    cases h
    have htokens : (Ty.traitObject false [first] false).tokens = first.tokens := by
      simp [Ty.tokens, Bound.tokensAll, joined]
    rw [htokens] at hinner
    exact ⟨hinner.1, hinner.2, fun _ => hword⟩
  · contradiction

theorem parenType (allowPlus : Bool) : Reads pre (parenType rules allowPlus) TypeEnded := by
  refine bindOf (within (parenContent rules)) fun found hfound => ?_
  obtain ⟨content, opening, closing⟩ := found
  have hparen : ∀ inner rest, TypeEnded (.paren inner) rest := by
    refine fun inner rest => ⟨by simp [Ty.tokens, wrap], ?_⟩
    rw [Ty.tokens]
    exact shut_group (by decide) _ rest
  cases content with
  | type found => exact pure fun rest _ => ⟨hfound.1, hfound.2 rest⟩
  | bound found => exact (furtherBounds rules found).mono (fun rest _ _ => ⟨hfound.1, hfound.2 rest⟩) fun _ _ => id
  | inner inner =>
    refine look fun plus => ite (fun hplus => ?_) fun _ => pure fun rest _ => hparen inner rest
    split
    · rename_i first hfirst
      refine (furtherBounds rules first).mono (fun rest hovert h => ended_parenBound? hfirst hfound ?_) fun _ _ => id
      exact anyWord_of_plus hovert (h.2.trans (by simp_all))
    · exact pure fun rest _ => hparen inner rest

theorem abiIf : Reads pre abi? fun abi _ => ∀ token, abi = some (some token) → token.overt = true := by
  refine look fun _ => ite (fun _ => skip _ fun _ => look fun _ => ite (fun _ => ?_) fun _ => ?_) fun _ => ?_
  · refine bindOf lit fun found hfound => pure fun _ _ token htoken => ?_
    rcases hhead : found.tokens with _ | ⟨first, rest⟩
    · simp [hhead] at htoken
    · obtain rfl : first = token := by simpa [hhead] using htoken
      rw [hhead, overtAll, Bool.and_eq_true] at hfound
      exact hfound.1
  · exact pure fun _ _ _ h => by simp at h
  · exact pure fun _ _ _ h => by contradiction

/-- A function pointer ends with its parameters or with its result. -/
theorem ended_function {abi : Option (Option Token)} {output rest : Tokens}
    (habi : ∀ token, abi = some (some token) → token.overt = true) (h : Ended output rest) (binder : Option Binder)
    (isUnsafe : Bool) (inputs : Tokens) (variadic : Option Tokens) :
    functionTokens binder isUnsafe abi inputs variadic output ≠ [] ∧
      Ended (functionTokens binder isUnsafe abi inputs variadic output) rest := by
  unfold functionTokens
  refine ⟨by simp [wrap], h.after _ ?_ ?_⟩
  · rcases abi with _ | _ | token <;> cases isUnsafe <;>
      simp_all [overtAll_append, overtAll_binderTokens, term, wrap, overtAll, overt]
  · rw [endsPlus_append (by simp [wrap])]
    rfl

theorem functionType (quantified : Option Binder) : Reads pre (functionType rules quantified) TypeEnded := by
  refine skip _ fun own => skip _ fun isUnsafe => bindOf abiIf fun abi habi => skip _ fun _ => skip _ fun found => ?_
  obtain ⟨inputs, opening, closing⟩ := found
  refine bind (outputIf rules false) fun output => pure fun rest h => ?_
  rw [TypeEnded, Ty.tokens]
  exact ended_function habi h _ _ _ _

/-- Bounds after plus signs, of which there is a first. -/
theorem pathType_more (first : Bound) : Reads (fun ts => first.tokens ≠ [] ∧ Ended first.tokens ts)
    (rounds >>= pathType.more rules) fun found rest => BoundsEnded ⟨first :: found.items, found.trailing⟩ rest := by
  suffices hgo : ∀ n first, Reads (fun ts => ts.length < n ∧ first.tokens ≠ [] ∧ Ended first.tokens ts)
      (pathType.more rules n) fun found rest => BoundsEnded ⟨first :: found.items, found.trailing⟩ rest from
    fun s a t hsolid hfirst => hgo (sizeAll s.tokens + 1) first s a t hsolid
      ⟨Nat.lt_succ_of_le (length_le_sizeAll _), hfirst⟩
  intro n
  induction n with
  | zero => exact fun first s a t _ hlt => absurd hlt.1 (Nat.not_lt_zero _)
  | succ n ih =>
    intro first
    refine assume (P := first.tokens ≠ [] ∧ overtAll first.tokens = true) (fun _ h => ⟨h.2.1, h.2.2.overt⟩)
      fun hfirst => ?_
    refine look fun _ => ite (fun _ => ?_) fun _ => pure fun rest h => .single h.1.2
    refine bind (plus_lt.mono (fun _ _ h => h.1.1) fun _ _ => id) fun _ => look fun starts =>
      ite (fun _ => ?_) fun hstarts => ?_
    · refine bind ((notLonger (hrules.bound false false)).mono (fun _ _ h => h.1) fun _ _ => id) fun next => ?_
      exact bind (ih next) fun rest => pure fun _ h => .cons hfirst h
    · exact pure fun rest h => .closed hfirst (anyWord_of_startsBound (h.2.trans (by simpa using hstarts)))

theorem callBody : Reads pre Parser.callBody fun found _ => found.1 ≠ .invisible := by
  intro s found t hsolid _ h
  refine ⟨(Extends.picks .alone Parser.callBody).suffix s found t (overtAll_of_solidAll hsolid) h, ?_⟩
  unfold Parser.callBody at h
  split at h
  · exact absurd h (by simp [Parser.fail])
  · rename_i delim body opening closing rest hvisible htokens
    cases h
    exact hvisible
  · exact absurd h (by simp [Parser.fail])

theorem pathType (quantified : Option Binder) (allowPlus : Bool) :
    Reads pre (pathType rules quantified allowPlus) TypeEnded := by
  refine bindOf (qpath rules false) fun found hfound => ?_
  obtain ⟨hne, hsegments, htype, hshut⟩ := hfound
  refine ite (fun _ => pure fun rest _ => ⟨htype, hshut rest⟩) fun _ => look fun called => ?_
  split
  · rename_i words hwords
    refine skip _ fun _ => bindOf callBody fun body hbody => ?_
    obtain ⟨delim, body, opening, closing⟩ := body
    refine pure fun rest _ => ?_
    rw [TypeEnded, Ty.tokens]
    refine ⟨by simp [wrap], (shut_group hbody body).after _ ?_ ?_ rest⟩
    · rw [overtAll_append, overtAll_modPath, overtAll_sign]
      rfl
    · rw [endsPlus_append (by decide)]
      rfl
  · refine look fun plus => ite (fun _ => ?_) fun _ => pure fun rest _ => ⟨htype, hshut rest⟩
    have hfirst : ∀ ts, (Bound.trait false false quantified found.rooted found.segments).tokens ≠ [] ∧
        Ended (Bound.trait false false quantified found.rooted found.segments).tokens ts := fun ts =>
      ended_trait hne (shut_joined (overtAll_sign _) (shut_of_mem_tokensAll hsegments) ts) false quantified found.rooted
    refine ite (fun _ => ?_) fun _ => pure fun rest _ => ended_traitObject (.single (hfirst rest)) false
    have hmore : Reads (fun _ => True) (rounds >>= pathType.more rules) fun more rest => BoundsEnded
        ⟨Bound.trait false false quantified found.rooted found.segments :: more.items, more.trailing⟩ rest :=
      (pathType_more rules _).mono (fun ts _ _ => hfirst ts) fun _ _ => id
    exact bind_assoc rounds (pathType.more rules) _ ▸
      bind (hmore.mono (fun _ _ _ => trivial) fun _ _ => id) fun more => pure fun rest h => ended_traitObject h false

theorem dynType (allowPlus : Bool) : Reads pre (dynType rules allowPlus) TypeEnded := by
  have hcalms : Calms (dynFront rules allowPlus) := by
    unfold dynFront
    infer_instance
  have htakes : Takes (dynFront rules allowPlus) := by
    unfold dynFront
    exact .after .alone inferInstance fun pos => inferInstance
  rw [dynType_eq]
  refine keeping ?_ fun front rest hne hended => ⟨hne, hended⟩
  refine skip _ fun pos => skip _ fun _ => skip _ fun star => bind (objectBounds rules pos allowPlus) fun found => ?_
  refine pure fun rest h type htype => ?_
  cases star with
  | none =>
    cases htype
    exact ended_traitObject h true
  | some tokens => contradiction

theorem pointerType : Reads pre (pointerType rules) TypeEnded := by
  refine skip _ fun _ => skip _ fun isMut => bind (hrules.type false) fun target => pure fun rest h => ?_
  rw [TypeEnded, Ty.tokens]
  exact ⟨by simp [h.1], h.2.after _ rfl rfl⟩

theorem referenceType : Reads pre (referenceType rules) TypeEnded := by
  refine skip _ fun _ => skip _ fun name => skip _ fun isMut => bind (hrules.type false) fun target =>
    pure fun rest h => ?_
  cases name <;> rw [TypeEnded, Ty.tokens] <;> refine ⟨by simp [h.1], h.2.after _ ?_ ?_⟩ <;> cases isMut <;> rfl

theorem implType (allowPlus : Bool) : Reads pre (implType rules allowPlus) TypeEnded := by
  refine skip _ fun pos => skip _ fun _ => bind (bounds rules allowPlus true true) fun found => ?_
  refine ite (fun _ => pure fun rest h => ?_) fun _ => fails fun _ => ⟨_, rfl⟩
  rw [TypeEnded, Ty.tokens]
  exact ⟨by simp [h.joined.1], h.joined.2.after _ rfl rfl⟩

theorem typeAfter (allowPlus : Bool) (quantified : Option Binder) :
    Reads pre (typeAfter rules allowPlus quantified) TypeEnded := by
  have hword : ∀ rest, TypeEnded .infer rest := fun rest => ⟨by simp [Ty.tokens, term], Ended.of_end rfl rfl rest⟩
  refine look fun _ => ite (fun _ => fails fun _ => ⟨_, rfl⟩) fun _ => choose ?_
  simp only [List.mem_cons, List.not_mem_nil, or_false, forall_eq_or_imp, forall_eq]
  refine ⟨pure fun rest _ => hword rest, parenType rules allowPlus, functionType rules quantified,
    functionType rules quantified, functionType rules quantified, pathType rules quantified allowPlus,
    pathType rules quantified allowPlus, pathType rules quantified allowPlus, dynType rules allowPlus,
    bracketType rules, pointerType rules, referenceType rules, ?_, implType rules allowPlus, ?_, traitObject rules⟩
  · exact skip _ fun _ => pure fun rest _ => ⟨by simp [Ty.tokens, sign, operator], Ended.of_end rfl rfl rest⟩
  · exact skip _ fun _ => pure fun rest _ => hword rest

theorem type (allowPlus : Bool) : Reads pre (type rules allowPlus) TypeEnded := by
  intro s type t hsolid hs h
  rw [type_overt rules allowPlus (overtAll_of_solidAll hsolid)] at h
  have hafter : Reads pre (binder? rules >>= Grammar.typeAfter rules allowPlus) TypeEnded :=
    skip _ fun quantified => typeAfter rules allowPlus quantified
  exact hafter s type t hsolid hs h

end Rules

end Reads

/-- Types and bounds are written as they have to be at every level of nesting. -/
instance Rules.Printing.level (depth : Nat) : (Rules.level depth).Printing := by
  induction depth with
  | zero =>
    exact ⟨fun _ => Extends.failHere _ _, fun _ _ => Extends.failHere _ _, fun _ => .of_error fun _ => ⟨_, rfl⟩,
      fun _ _ => .of_error fun _ => ⟨_, rfl⟩, fun _ _ => ⟨fun _ _ _ _ h => by contradiction⟩,
      fun _ => .fails fun _ => ⟨_, rfl⟩, fun _ _ => .fails fun _ => ⟨_, rfl⟩⟩
  | succ depth ih =>
    obtain ⟨htype, hbound⟩ := Extends.level .alone (depth + 1)
    exact ⟨htype, hbound, Calms.type (.level depth), Calms.bound (.level depth), Takes.bound (.level depth),
      Reads.type (.level depth), Reads.bound (.level depth)⟩

end Fieldwise.Grammar
