import Fieldwise.Proofs.Reading.Mark

/-!
# Taking a mark from a text

The reader decides by the front of a text which token comes next. It takes a mark from there exactly when the
mark stands clear of what follows; there is one lemma for each kind of mark.
-/

namespace Fieldwise.Lexer

open Fieldwise.Text

variable {c : Char}

/-- Which piece a mark is read as. -/
inductive Shows : Lexeme → Mark → Prop
  | opening (delim : Delim) (pos : Pos) : Shows (.opening delim pos) (.opening delim)
  | closing (delim : Delim) (pos : Pos) : Shows (.closing delim pos) (.closing delim)
  | ident (name : String) (pos : Pos) : Shows (.leaf (.ident name pos)) (.ident name)
  | punct (c : Char) (spacing : Spacing) (pos : Pos) :
    Shows (.leaf (.punct c spacing pos)) (.punct c)
  | literal (shown : String) (pos : Pos) : Shows (.leaf (.literal shown pos)) (.literal shown)

/-- A text that begins with no slash begins with no plain comment. -/
theorem plainLength_of_ne (h : c ≠ '/') (rest : List Char) : Comment.plainLength (c :: rest) = none := by
  unfold Comment.plainLength
  split <;> simp_all

/-- A text that begins with no slash begins with no documenting comment. -/
theorem doc_of_ne (h : c ≠ '/') (rest : List Char) : Comment.doc? (c :: rest) = none := by
  unfold Comment.doc?
  split <;> simp_all

/-- A character that begins no comment, no blank and no group begins a token. -/
theorem piece_eq_leaf (hblank : isBlank c = false) (hslash : c ≠ '/') (hdelim : c ∉ ['(', ')', '[', ']', '{', '}'])
    (pos : Pos) (rest : List Char) :
    piece? pos (c :: rest) =
      (leaf? pos (c :: rest)).map fun (n, token) => (n, [.leaf token]) := by
  simp only [List.mem_cons, List.not_mem_nil, or_false, not_or] at hdelim
  obtain ⟨hparen, hparen', hbracket, hbracket', hbrace, hbrace'⟩ := hdelim
  have hopening : opening? (c :: rest) = none := by
    unfold opening?
    split
    · rfl
    · simp only [List.head?_cons, Option.bind_some]
      unfold opens?
      split <;> simp_all
  have hcloses : closes? c = none := by
    unfold closes?
    split <;> simp_all
  simp only [piece?, hblank, plainLength_of_ne hslash, doc_of_ne hslash, hopening, hcloses,
    Bool.false_eq_true, if_false]

/-- The reader takes the mark from the front of a text. -/
def Taken (pos : Pos) (mark : Mark) (rest : List Char) : Prop :=
  ∃ x, piece? pos (mark.text ++ rest) = some (mark.text.length, [x]) ∧ Shows x mark

theorem startsPunct_of_notMem (h : c ∉ punctuation) (rest : List Char) : startsPunct (c :: rest) = false := by
  unfold startsPunct
  split
  · rfl
  · rfl
  · rename_i hcs
    obtain ⟨rfl, -⟩ := List.cons.inj hcs
    simpa using h
  · rfl

/-- A punctuation token is the first character of its text. -/
theorem punct_eq_some {pos : Pos} {cs : List Char} {token : Token} (h : punct? pos cs = some token) :
    ∃ c spacing rest, cs = c :: rest ∧ token = .punct c spacing pos ∧ c ∈ punctuation := by
  cases cs with
  | nil => simp [punct?] at h
  | cons c rest =>
    rw [punct?] at h
    split at h
    · contradiction
    · rename_i hstarts
      have hmem : c ∈ punctuation := by
        cases hc : decide (c ∈ punctuation) with
        | true => exact of_decide_eq_true hc
        | false =>
          rw [startsPunct_of_notMem (of_decide_eq_false hc)] at hstarts
          contradiction
      split at h
      · split at h
        · cases h
          exact ⟨c, .joint, rest, rfl, rfl, hmem⟩
        · contradiction
      · cases h
        exact ⟨c, _, rest, rfl, rfl, hmem⟩

theorem placeholder_of_ne (h : c ≠ '(') (rest : List Char) :
    placeholder.toList.isPrefixOf (c :: rest) = false := by
  have hlist : placeholder.toList = '(' :: (placeholder.toList.drop 1) := by decide
  rw [hlist, List.isPrefixOf]
  simp [h.symm]

/-- A text that begins with a letter begins with a literal, or else with a name if it does not begin like
a quoted literal. -/
theorem piece_of_identStart {c : Char} (hstart : isIdentStart c = true) (pos : Pos)
    (rest : List Char) :
    piece? pos (c :: rest) =
      match literalLength (c :: rest) with
      | some n => some (n, [.leaf (.literal (String.ofList ((c :: rest).take n)) pos)])
      | none =>
        if startsQuoted (c :: rest) then none
        else (identLength (c :: rest)).map fun n =>
          (n, [.leaf (.ident (String.ofList ((c :: rest).take n)) pos)]) := by
  have hspecial := special_not_ident (.inr hstart)
  have hpunct : c ∉ punctuation := fun h => hspecial (List.mem_append_right _ h)
  have hslash : c ≠ '/' := by
    rintro rfl
    exact hpunct (by decide)
  have hdelim : c ∉ ['(', ')', '[', ']', '{', '}'] := fun h => hspecial (delim_special h)
  have hparen : c ≠ '(' := by
    rintro rfl
    exact hdelim (by decide)
  rw [piece_eq_leaf (identStart_not_blank hstart) hslash hdelim, leaf?, punct?,
    startsPunct_of_notMem hpunct, placeholder_of_ne hparen]
  cases literalLength (c :: rest) with
  | some n => rfl
  | none =>
    cases startsQuoted (c :: rest) with
    | true => rfl
    | false => simp [Option.map_map, Function.comp_def]

/-- A text that begins with a letter gives a name exactly when it does not begin like a quoted literal and
the name has the length of its marks. -/
theorem taken_ident_iff_identLength {c : Char} {name : String} {more rest : List Char}
    (hname : name.toList = c :: more) (hstart : isIdentStart c = true) (pos : Pos) :
    Taken pos (.ident name) rest ↔ startsQuoted (name.toList ++ rest) = false ∧
      identLength (name.toList ++ rest) = some name.toList.length := by
  have hpiece := piece_of_identStart hstart pos (more ++ rest)
  rw [← List.cons_append, ← hname] at hpiece
  simp only [Taken, Mark.text, hpiece]
  constructor
  · rintro ⟨x, hx, hshows⟩
    split at hx
    · cases hx
      cases hshows
    · split at hx
      · contradiction
      · rename_i hquoted
        obtain ⟨n, hn, hpair⟩ := Option.map_eq_some_iff.mp hx
        cases hpair
        exact ⟨by simpa using hquoted, hn⟩
  · rintro ⟨hquoted, hlength⟩
    have hnone : literalLength (name.toList ++ rest) = none := by
      rw [hname, List.cons_append] at hquoted ⊢
      exact literalLength_of_identStart hstart hquoted
    refine ⟨.leaf (.ident name pos), ?_, .ident name pos⟩
    rw [hnone, hquoted, hlength]
    simp

theorem taken_ident_iff {name : String} (h : (Mark.ident name).Legible) (pos : Pos)
    (rest : List Char) : Taken pos (.ident name) rest ↔ (Mark.ident name).clear rest = true := by
  simp only [Mark.clear, Bool.and_eq_true, Bool.not_eq_true']
  rcases h with hword | ⟨word, hname, hword, hraw⟩
  · obtain ⟨c, more, hname⟩ : ∃ c more, name.toList = c :: more := by
      cases hlist : name.toList with
      | nil => simp [hlist, isIdentifier] at hword
      | cons c more => exact ⟨c, more, rfl⟩
    have hstart : isIdentStart c = true := by
      rw [hname, isIdentifier, Bool.and_eq_true] at hword
      exact hword.1
    rw [taken_ident_iff_identLength hname hstart, identLength_word hword]
    constructor
    · rintro ⟨hquoted, hrest, hhash⟩
      refine ⟨hrest, ?_⟩
      cases hopens : Mark.opensQuote name rest with
      | false => rfl
      | true =>
        rw [← String.ofList_toList (s := name)] at hopens
        rcases startsQuoted_of_opensQuote hopens with hstarts | hr
        · rw [hquoted] at hstarts
          contradiction
        · exact absurd hr hhash
    · rintro ⟨hrest, hopens⟩
      refine ⟨?_, hrest, ?_⟩
      · cases hquoted : startsQuoted (name.toList ++ rest) with
        | false => rfl
        | true =>
          have := opensQuote_of_startsQuoted hword hrest hquoted
          rw [String.ofList_toList, hopens] at this
          contradiction
      · rintro ⟨hr, hhash⟩
        have hr' : name = "r" := by rw [← String.ofList_toList (s := name), hr]
        simp [Mark.opensQuote, hhash, hr'] at hopens
  · rw [taken_ident_iff_identLength hname (by decide), hname, identLength_raw hword hraw]
    simp only [startsQuoted_raw hword, opensQuote_raw hname, true_and, and_true]

/-- A text that begins with no quote, letter or digit is no literal. -/
theorem literalLength_of_head {c : Char} (hquote : c ∉ ['"', '\'', 'r', 'b', 'c'])
    (hdigit : isDigit c = false) (rest : List Char) : literalLength (c :: rest) = none := by
  unfold literalLength
  cases hlen : Quoted.length (c :: rest) with
  | some n =>
    obtain ⟨d, hmem, hd⟩ := Quoted.length_head hlen
    cases hd
    contradiction
  | none =>
    cases hnumber : Number.length (c :: rest) with
    | none => rfl
    | some n =>
      have hhead := (Number.length_head hnumber).2
      simp [hdigit] at hhead

/-- The placeholder is read whole, whatever follows it. -/
theorem piece_placeholder (pos : Pos) (rest : List Char) :
    piece? pos (placeholder.toList ++ rest) =
      some (placeholder.length, [.leaf (.literal placeholder pos)]) := by
  have hcs : placeholder.toList ++ rest = '(' :: (placeholder.toList.drop 1 ++ rest) := rfl
  have hpre : placeholder.toList.isPrefixOf (placeholder.toList ++ rest) = true := by simp
  have hnone : literalLength (placeholder.toList ++ rest) = none := by
    rw [hcs]
    exact literalLength_of_head (by decide) (by decide) _
  have hpunct : punct? pos (placeholder.toList ++ rest) = none := rfl
  have hleaf : leaf? pos (placeholder.toList ++ rest) =
      some (placeholder.length, .literal placeholder pos) := by
    rw [leaf?, hnone, hpunct, hpre]
    rfl
  have hopening : opening? (placeholder.toList ++ rest) = none := by
    rw [opening?, hpre]
    rfl
  rw [hcs] at hleaf hopening ⊢
  rw [piece?, hleaf, hopening]
  rfl

/-- A delimiter is taken exactly when it stands clear: only a parenthesis may be taken for the
placeholder. -/
theorem taken_opening_iff {delim : Delim} (h : (Mark.opening delim).Legible) (pos : Pos)
    (rest : List Char) :
    Taken pos (.opening delim) rest ↔ (Mark.opening delim).clear rest = true := by
  cases delim with
  | paren =>
    have hplaceholder : placeholder.toList.isPrefixOf ('(' :: rest) =
        (placeholder.toList.drop 1).isPrefixOf rest := rfl
    cases hpre : (placeholder.toList.drop 1).isPrefixOf rest with
    | false =>
      have hpiece : piece? pos ('(' :: rest) = some (1, [.opening .paren pos]) := by
        simp only [piece?, opening?, hplaceholder, hpre]
        rfl
      refine iff_of_true ⟨_, hpiece, .opening _ _⟩ ?_
      rw [Mark.clear, hpre]
      rfl
    | true =>
      refine iff_of_false ?_ ?_
      · rintro ⟨x, hx, hshows⟩
        cases hshows
        obtain ⟨more, rfl⟩ := List.isPrefixOf_iff_prefix.mp hpre
        have hpiece := piece_placeholder pos more
        rw [show placeholder.toList ++ more = '(' :: (placeholder.toList.drop 1 ++ more) from rfl,
          show piece? pos ('(' :: (placeholder.toList.drop 1 ++ more)) = _ from hx] at hpiece
        simp at hpiece
      · rw [Mark.clear, hpre]
        simp
  | bracket => exact iff_of_true ⟨_, rfl, .opening _ _⟩ rfl
  | brace => exact iff_of_true ⟨_, rfl, .opening _ _⟩ rfl
  | invisible => exact absurd rfl h

theorem taken_closing {delim : Delim} (h : (Mark.closing delim).Legible) (pos : Pos)
    (rest : List Char) : Taken pos (.closing delim) rest := by
  cases delim with
  | paren => exact ⟨_, rfl, .closing _ _⟩
  | bracket => exact ⟨_, rfl, .closing _ _⟩
  | brace => exact ⟨_, rfl, .closing _ _⟩
  | invisible => exact absurd rfl h

/-- A punctuation character other than the slash and the apostrophe is always taken. -/
theorem piece_of_punct {c : Char} (hmem : c ∈ punctuation) (hslash : c ≠ '/') (hchar : c ≠ '\'')
    (pos : Pos) (rest : List Char) :
    ∃ spacing, piece? pos (c :: rest) = some (1, [.leaf (.punct c spacing pos)]) := by
  obtain ⟨hblank, hapart⟩ := punctuation_apart hmem
  have hdelim : c ∉ ['(', ')', '[', ']', '{', '}'] := by
    intro h
    exact hapart (by simp at h ⊢; grind)
  have htable : ∀ d ∈ punctuation, d ≠ '\'' → d ∉ ['"', '\'', 'r', 'b', 'c'] ∧ isDigit d = false :=
    forall_mem_of_all (by decide)
  obtain ⟨hquote, hdigit⟩ := htable c hmem hchar
  have hstarts : startsPunct (c :: rest) = true := by
    unfold startsPunct
    split <;> simp_all
  rw [piece_eq_leaf hblank hslash hdelim, leaf?, literalLength_of_head hquote hdigit, punct?, hstarts]
  simp [hchar]

/-- The apostrophe is taken exactly when it begins no character and begins a lifetime. -/
theorem taken_apostrophe_iff (pos : Pos) (rest : List Char) :
    Taken pos (.punct '\'') rest ↔
      Quoted.charLength .text rest = none ∧ startsLifetime rest = true := by
  have hnumber : Number.length ('\'' :: rest) = none := by
    cases h : Number.length ('\'' :: rest) with
    | none => rfl
    | some n =>
      have hhead := (Number.length_head h).2
      simp [show isDigit '\'' = false by decide] at hhead
  have hliteral : literalLength ('\'' :: rest) =
      match Quoted.charLength .text rest with
      | some n => some (n + 1 + Number.wordLength (rest.drop n))
      | none => none := by
    rw [literalLength, hnumber, Quoted.length]
    cases Quoted.charLength .text rest <;> rfl
  have hpunct : punct? pos ('\'' :: rest) =
      if startsLifetime rest then some (.punct '\'' .joint pos) else none := rfl
  have hident : identLength ('\'' :: rest) = none := rfl
  have hpiece := piece_eq_leaf (c := '\'') (by decide) (by decide) (by decide) pos rest
  rw [leaf?, hliteral, hpunct, hident, placeholder_of_ne (by decide)] at hpiece
  rw [Taken, show (Mark.punct '\'').text ++ rest = '\'' :: rest from rfl, hpiece]
  cases hc : Quoted.charLength .text rest with
  | some n =>
    refine iff_of_false ?_ (by simp)
    rintro ⟨x, hx, hshows⟩
    simp only [Option.map_some, Option.some.injEq, Prod.mk.injEq, List.cons.injEq, and_true] at hx
    rw [← hx.2] at hshows
    cases hshows
  | none =>
    cases hlife : startsLifetime rest with
    | true => exact iff_of_true ⟨_, rfl, .punct _ _ _⟩ ⟨rfl, rfl⟩
    | false =>
      refine iff_of_false ?_ (by simp)
      rintro ⟨x, hx, -⟩
      simp at hx

/-- The slash is taken exactly when neither a slash nor a star follows it. -/
theorem taken_slash_iff (pos : Pos) (rest : List Char) :
    Taken pos (.punct '/') rest ↔ rest.head?.any (['/', '*'].contains ·) = false := by
  have hliteral : literalLength ('/' :: rest) = none :=
    literalLength_of_head (by decide) (by decide) rest
  have hopening : opening? ('/' :: rest) = none := by
    rw [opening?, placeholder_of_ne (by decide)]
    rfl
  have hleaf : leaf? pos ('/' :: rest) = (punct? pos ('/' :: rest)).map fun token => (1, token) := by
    rw [leaf?, hliteral, placeholder_of_ne (by decide)]
    cases punct? pos ('/' :: rest) <;> rfl
  rw [Taken, show (Mark.punct '/').text ++ rest = '/' :: rest from rfl]
  cases hhead : rest.head?.any (['/', '*'].contains ·) with
  | true =>
    refine iff_of_false ?_ (by simp)
    rintro ⟨x, hx, hshows⟩
    have hpunct : punct? pos ('/' :: rest) = none := by
      cases rest with
      | nil => simp at hhead
      | cons d rest =>
        have hd : d = '/' ∨ d = '*' := by simpa using hhead
        rcases hd with rfl | rfl <;> rfl
    rw [piece?, hopening, hleaf, hpunct, if_neg (by decide)] at hx
    split at hx
    · simp at hx
    · split at hx
      · rename_i doc hdoc
        have hfound := congrArg (fun found => found.map fun p => p.2.length) hx
        simp only [Option.map_some, List.length_map, List.length_singleton, Option.some.injEq,
          docTokens] at hfound
        split at hfound <;> simp at hfound
      · simp [closes?] at hx
  | false =>
    refine iff_of_true ?_ rfl
    have hne : ∀ d more, rest = d :: more → d ≠ '/' ∧ d ≠ '*' := by
      rintro d more rfl
      simpa using hhead
    have hplain : Comment.plainLength ('/' :: rest) = none := by
      unfold Comment.plainLength
      split <;> grind
    have hdoc : Comment.doc? ('/' :: rest) = none := by
      unfold Comment.doc?
      split <;> grind
    have hmem : '/' ∈ punctuation := by decide
    have hstarts : startsPunct ('/' :: rest) = true := by
      unfold startsPunct
      split <;> grind
    rw [piece?, hplain, hdoc, hopening, hleaf, punct?, hstarts]
    exact ⟨_, rfl, .punct _ _ _⟩

/-- A punctuation character is taken exactly when it stands clear. -/
theorem taken_punct_iff {c : Char} (h : (Mark.punct c).Legible) (pos : Pos) (rest : List Char) :
    Taken pos (.punct c) rest ↔ (Mark.punct c).clear rest = true := by
  simp only [Mark.clear]
  by_cases hslash : c = '/'
  · subst hslash
    rw [taken_slash_iff, if_pos rfl, Bool.not_eq_true']
  · rw [if_neg hslash]
    by_cases hchar : c = '\''
    · subst hchar
      rw [taken_apostrophe_iff, if_pos rfl, Bool.and_eq_true, Option.isNone_iff_eq_none]
    · rw [if_neg hchar]
      obtain ⟨spacing, hpiece⟩ := piece_of_punct h hslash hchar pos rest
      exact iff_of_true ⟨_, hpiece, .punct _ _ _⟩ rfl

/-- A text that begins with the first character of a literal is taken as a literal exactly when the literal
has the length of the mark. -/
theorem taken_literal_iff_length {shown : String} {c : Char} {more : List Char}
    (hshown : shown.toList = c :: more) (hblank : isBlank c = false) (hslash : c ≠ '/')
    (hdelim : c ∉ ['(', ')', '[', ']', '{', '}']) (pos : Pos) (rest : List Char) :
    Taken pos (.literal shown) rest ↔
      literalLength (shown.toList ++ rest) = some shown.toList.length := by
  have hparen : c ≠ '(' := by
    rintro rfl
    exact hdelim (by decide)
  have hpiece := piece_eq_leaf hblank hslash hdelim pos (more ++ rest)
  have hpre := placeholder_of_ne hparen (more ++ rest)
  rw [← List.cons_append, ← hshown] at hpiece hpre
  rw [leaf?] at hpiece
  rw [Taken, show (Mark.literal shown).text = shown.toList from rfl, hpiece]
  cases hlen : literalLength (shown.toList ++ rest) with
  | some n =>
    constructor
    · rintro ⟨x, hx, -⟩
      simp only [Option.map_some, Option.some.injEq, Prod.mk.injEq] at hx
      rw [hx.1]
    · rintro hn
      cases hn
      exact ⟨_, rfl, by simpa using Shows.literal shown pos⟩
  | none =>
    refine iff_of_false ?_ (by simp)
    rintro ⟨x, hx, hshows⟩
    rw [hpre] at hx
    cases hpunct : punct? pos (shown.toList ++ rest) with
    | some token =>
      obtain ⟨d, spacing, tail, -, rfl, -⟩ := punct_eq_some hpunct
      rw [hpunct] at hx
      simp only [Option.map_some, Option.some.injEq, Prod.mk.injEq, List.cons.injEq, and_true] at hx
      rw [← hx.2] at hshows
      cases hshows
    | none =>
      rw [hpunct] at hx
      cases hquoted : startsQuoted (shown.toList ++ rest) with
      | true => simp [hquoted] at hx
      | false =>
        simp only [hquoted, Bool.false_eq_true, if_false, Option.map_map, Option.map_eq_some_iff] at hx
        obtain ⟨n, -, hpair⟩ := hx
        cases hpair
        cases hshows

/-- A quoted literal is taken exactly when no suffix goes on or begins after it. -/
theorem literalLength_quoted_iff {shown rest : List Char} {n : Nat}
    (hlen : Quoted.length shown = some n)
    (hsuffix : n = shown.length ∨ isIdentifier (shown.drop n) = true) :
    literalLength (shown ++ rest) = some shown.length ↔
      (if n = shown.length then rest.head?.any isIdentStart
        else rest.head?.any isIdentContinue) = false := by
  obtain ⟨-, hle, hagain⟩ := Quoted.length_steady shown n hlen
  have hwhole : Quoted.length (shown ++ rest) = some n := by
    have hsplit : shown ++ rest = shown.take n ++ (shown.drop n ++ rest) := by
      rw [← List.append_assoc, List.take_append_drop]
    rw [hsplit]
    exact hagain _
  have hdrop : (shown ++ rest).drop n = shown.drop n ++ rest := List.drop_append_of_le_length hle
  rw [literalLength, hwhole]
  simp only [hdrop, Option.some.injEq]
  split
  · rename_i hn
    have hnil : shown.drop n = [] := by rw [hn, List.drop_length]
    rw [hnil, List.nil_append, ← wordLength_eq_zero]
    omega
  · rename_i hn
    have hword : isIdentifier (shown.drop n) = true := hsuffix.resolve_left hn
    rw [← wordLength_word hword, List.length_drop]
    omega

theorem taken_literal_iff {shown : String} (h : (Mark.literal shown).Legible) (pos : Pos)
    (rest : List Char) :
    Taken pos (.literal shown) rest ↔ (Mark.literal shown).clear rest = true := by
  rcases h with ⟨n, hlen, hsuffix⟩ | rfl | ⟨hdigit, -⟩
  · obtain ⟨c, hmem, hhead⟩ := Quoted.length_head hlen
    have htable : ∀ d ∈ ['"', '\'', 'r', 'b', 'c'],
        isBlank d = false ∧ d ≠ '/' ∧ d ∉ ['(', ')', '[', ']', '{', '}'] :=
      forall_mem_of_all (by decide)
    obtain ⟨hblank, hslash, hdelim⟩ := htable c hmem
    obtain ⟨more, hshown⟩ := List.head?_eq_some_iff.mp hhead
    rw [taken_literal_iff_length hshown hblank hslash hdelim, literalLength_quoted_iff hlen hsuffix,
      Mark.clear, hlen]
    dsimp only
    split <;> simp
  · have hclear : (Mark.literal placeholder).clear rest = true := rfl
    exact iff_of_true ⟨_, piece_placeholder pos rest, .literal _ _⟩ hclear
  · obtain ⟨c, more, hshown⟩ : ∃ c more, shown.toList = c :: more := by
      cases hlist : shown.toList with
      | nil => simp [hlist] at hdigit
      | cons c more => exact ⟨c, more, rfl⟩
    have hc : isDigit c = true := by simpa [hshown] using hdigit
    obtain ⟨hblank, -, hspecial⟩ := digit_apart hc
    have hslash : c ≠ '/' := by
      rintro rfl
      exact hspecial (by decide)
    have hdelim : c ∉ ['(', ')', '[', ']', '{', '}'] := fun hmem => hspecial (delim_special hmem)
    have hquoted : ∀ tail, Quoted.length (c :: tail) = none := by
      intro tail
      cases hlen : Quoted.length (c :: tail) with
      | none => rfl
      | some n =>
        obtain ⟨d, hmem, hd⟩ := Quoted.length_head hlen
        cases hd
        have htable : ∀ e ∈ ['"', '\'', 'r', 'b', 'c'], isDigit e = false :=
          forall_mem_of_all (by decide)
        rw [htable c hmem] at hc
        contradiction
    rw [taken_literal_iff_length hshown hblank hslash hdelim, Mark.clear, literalLength, hshown,
      List.cons_append, hquoted, hquoted]
    have hother : shown ≠ placeholder := by
      rintro rfl
      rw [show placeholder.toList = '(' :: placeholder.toList.drop 1 from rfl] at hshown
      cases hshown
      exact hdelim (by decide)
    simp [hother]

/-- The reader takes a mark from the front of a text exactly when the mark stands clear of the rest. -/
theorem taken_iff_clear {mark : Mark} (h : mark.Legible) (pos : Pos) (rest : List Char) :
    Taken pos mark rest ↔ mark.clear rest = true := by
  cases mark with
  | opening delim => exact taken_opening_iff h pos rest
  | closing delim => exact iff_of_true (taken_closing h pos rest) rfl
  | ident name => exact taken_ident_iff h pos rest
  | punct c => exact taken_punct_iff h pos rest
  | literal shown => exact taken_literal_iff h pos rest

end Fieldwise.Lexer
