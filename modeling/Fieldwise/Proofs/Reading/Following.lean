import Fieldwise.Proofs.Reading.Pieces

/-!
# What follows a token

A blank, a comma, a closing parenthesis and a closing angle bracket end every token before them. So numbers,
names and lifetimes at the end of a text keep their lengths when such a character follows, and a mark that
stands clear still does. A comment ends where it ends, unless it is one that only the end of its line closes and
the line has no end.
-/

namespace Fieldwise

open Fieldwise.Text

variable {c : Char} {n : Nat}

namespace Lexer

/-- The characters that end whatever token stands before them. -/
def breakers : List Char := [' ', '\n', ',', ')', '>']

/-- A text that ends whatever token stands before it. -/
def Breaks (rest : List Char) : Prop := ∀ c, rest.head? = some c → c ∈ breakers

theorem Breaks.nil : Breaks [] := by simp [Breaks]

theorem Breaks.cons (h : c ∈ breakers) (rest : List Char) : Breaks (c :: rest) := by
  simpa [Breaks] using h

/-- No character of a class begins a text that breaks, if no breaker is in the class. -/
theorem Breaks.any {rest : List Char} (h : Breaks rest) {p : Char → Bool}
    (hp : (breakers.all fun c => decide (p c = false)) = true) : rest.head?.any p = false := by
  cases rest with
  | nil => rfl
  | cons c rest => simpa using forall_mem_of_all hp c (h c rfl)

/-- A text that breaks does not begin with another character. -/
theorem Breaks.ne {rest : List Char} (h : Breaks (c :: rest)) {d : Char}
    (hd : (breakers.all fun b => decide (b ≠ d)) = true) : c ≠ d :=
  forall_mem_of_all hd c (h c rfl)

/-- What follows a text that is not empty does not change its head. -/
theorem head_append_any {cs rest : List Char} {test : Char → Bool} (hrest : rest.head?.any test = false) :
    (cs ++ rest).head?.any test = cs.head?.any test := by
  cases cs with
  | nil => simpa using hrest
  | cons c cs => rfl

/-- A run of characters does not go on into a text that does not begin with one of them. -/
theorem takeWhile_append_break {cs rest : List Char} {test : Char → Bool}
    (hrest : rest.head?.any test = false) :
    (cs ++ rest).takeWhile test = cs.takeWhile test := by
  have hnil : rest.takeWhile test = [] := by
    cases rest with
    | nil => rfl
    | cons c rest => simp at hrest; simp [hrest]
  rw [List.takeWhile_append, hnil]
  split
  · rename_i hall
    rw [List.append_nil, (List.takeWhile_prefix test).eq_of_length hall]
  · rfl

end Lexer

/-! ## Numbers -/

namespace Number

open Lexer

variable {cs rest : List Char}

theorem wordLength_append (h : Breaks rest) : wordLength (cs ++ rest) = wordLength cs := by
  cases cs with
  | nil =>
    rw [List.nil_append]
    exact wordLength_eq_zero.mpr (h.any (by decide))
  | cons c cs =>
    rw [List.cons_append, wordLength, wordLength, takeWhile_append_break (h.any (by decide))]

theorem exponentLength_append (h : Breaks rest) :
    exponentLength (cs ++ rest) = exponentLength cs := by
  have hfirst : (cs ++ rest).takeWhile isDigitOrBlank = cs.takeWhile isDigitOrBlank :=
    takeWhile_append_break (h.any (by decide))
  have hdrop : (cs ++ rest).drop (cs.takeWhile isDigitOrBlank).length =
      cs.drop (cs.takeWhile isDigitOrBlank).length ++ rest :=
    List.drop_append_of_le_length (List.takeWhile_prefix _).length_le
  unfold exponentLength
  simp only [hfirst, hdrop]
  cases cs.drop (cs.takeWhile isDigitOrBlank).length with
  | nil =>
    cases rest with
    | nil => rfl
    | cons c rest =>
      have hplus := h.ne (d := '+') (by decide)
      have hminus := h.ne (d := '-') (by decide)
      simp [hplus, hminus]
  | cons sign more =>
    simp only [List.cons_append]
    rw [takeWhile_append_break (h.any (by decide))]

theorem pointLength_append (h : Breaks rest) : pointLength (cs ++ rest) = pointLength cs := by
  cases cs with
  | nil =>
    cases rest with
    | nil => rfl
    | cons c rest =>
      have hpoint := h.ne (d := '.') (by decide)
      unfold pointLength
      split <;> simp_all
  | cons c cs =>
    by_cases hc : c = '.'
    · subst hc
      simp only [List.cons_append, pointLength]
      rw [head_append_any (h.any (by decide)), takeWhile_append_break (h.any (by decide))]
    · unfold pointLength
      split <;> split <;> simp_all

theorem fractionLength_append (h : Breaks rest) :
    fractionLength (cs ++ rest) = fractionLength cs := by
  cases cs with
  | nil =>
    cases rest with
    | nil => rfl
    | cons c rest =>
      have hdigit : isDigit c = false := by simpa using h.any (p := isDigit) (by decide)
      simp [fractionLength, hdigit]
  | cons c more =>
    rw [List.cons_append, fractionLength, fractionLength,
      takeWhile_append_break (h.any (by decide))]
    split
    · rfl
    · have hwhole : (more.takeWhile isDigitOrBlank).length + 1 ≤ (c :: more).length := by
        simpa using (List.takeWhile_prefix _).length_le
      dsimp only
      rw [← List.cons_append, List.drop_append_of_le_length hwhole, pointLength_append h]
      cases hpoint : pointLength ((c :: more).drop ((more.takeWhile isDigitOrBlank).length + 1)) with
      | none => rfl
      | some point =>
        have hlength := (pointLength_spans hpoint).le_length
        rw [List.length_drop] at hlength
        dsimp only
        rw [List.drop_append_of_le_length (by omega)]
        cases (c :: more).drop ((more.takeWhile isDigitOrBlank).length + 1 + point) with
        | nil =>
          cases rest with
          | nil => rfl
          | cons d rest =>
            have hlower := h.ne (d := 'e') (by decide)
            have hupper := h.ne (d := 'E') (by decide)
            simp [hlower, hupper]
        | cons letter digits => simp only [List.cons_append, exponentLength_append h]

theorem base_append (h : Breaks rest) : base (cs ++ rest) = base cs := by
  rcases cs with _ | ⟨c, _ | ⟨d, more⟩⟩
  · cases rest with
    | nil => rfl
    | cons c rest =>
      have hzero := h.ne (d := '0') (by decide)
      unfold base
      split <;> simp_all
  · cases rest with
    | nil => rfl
    | cons d rest =>
      have hx := h.ne (d := 'x') (by decide)
      have ho := h.ne (d := 'o') (by decide)
      have hb := h.ne (d := 'b') (by decide)
      unfold base
      split <;> simp_all
  · simp only [List.cons_append]
    unfold base
    split <;> split <;> simp_all

theorem inDigits_break (h : Breaks rest) (radix : Nat) :
    rest.head?.any (inDigits radix) = false := by
  have hdigit := h.any (p := isDigitOrBlank) (by decide)
  have hhex := h.any (p := isHexDigit) (by decide)
  cases rest with
  | nil => rfl
  | cons c rest =>
    simp only [List.head?_cons, Option.any_some] at hdigit hhex
    simp [inDigits, hdigit, hhex]

theorem wholeLength_append (h : Breaks rest) : wholeLength (cs ++ rest) = wholeLength cs := by
  unfold wholeLength
  dsimp only
  rw [base_append h, List.drop_append_of_le_length (base_spans cs).le_length,
    takeWhile_append_break (inDigits_break h _)]

theorem withSuffix_append (h : Breaks rest) (hn : n ≤ cs.length) : withSuffix (cs ++ rest) n = withSuffix cs n := by
  have hword := (wordLength_spans (cs.drop n)).le_length
  rw [List.length_drop] at hword
  unfold withSuffix
  dsimp only
  rw [List.drop_append_of_le_length hn, wordLength_append h,
    List.drop_append_of_le_length (by omega), head_append_any (h.any (by decide))]

theorem length_append (h : Breaks rest) : length (cs ++ rest) = length cs := by
  have hsuffix : ∀ found : Option Nat, (∀ n, found = some n → n ≤ cs.length) →
      found.bind (withSuffix (cs ++ rest)) = found.bind (withSuffix cs) := by
    intro found hle
    cases found with
    | none => rfl
    | some n => exact withSuffix_append h (hle n rfl)
  unfold length
  rw [fractionLength_append h, wholeLength_append h,
    hsuffix _ fun n hn => (fractionLength_spans hn).le_length,
    hsuffix _ fun n hn => (wholeLength_spans hn).le_length]

end Number

/-! ## Marks -/

namespace Lexer

variable {cs rest : List Char}

/-- Without a raw marker a name is the word at the head of its text. -/
theorem identLength_of_not_raw (h : ∀ tail, cs ≠ 'r' :: '#' :: tail) :
    identLength cs = if Number.wordLength cs = 0 then none else some (Number.wordLength cs) := by
  unfold identLength
  split
  · exact absurd rfl (h _)
  · cases Number.wordLength cs <;> simp

theorem identLength_append (h : Breaks rest) : identLength (cs ++ rest) = identLength cs := by
  by_cases hraw : ∃ tail, cs = 'r' :: '#' :: tail
  · obtain ⟨more, rfl⟩ := hraw
    have htake : (more ++ rest).take (Number.wordLength more) = more.take (Number.wordLength more) :=
      List.take_append_of_le_length (Number.wordLength_spans more).le_length
    simp only [List.cons_append, identLength, Number.wordLength_append h]
    cases hn : Number.wordLength more with
    | zero => rfl
    | succ n =>
      rw [hn] at htake
      simp only [htake]
  · rw [not_exists] at hraw
    have hraw' : ∀ tail, cs ++ rest ≠ 'r' :: '#' :: tail := by
      intro tail heq
      rcases cs with _ | ⟨c, _ | ⟨d, more⟩⟩
      · exact absurd (h 'r' (by simpa using congrArg List.head? heq)) (by decide)
      · simp only [List.cons_append, List.nil_append, List.cons.injEq] at heq
        exact absurd (h '#' (by simp [heq.2])) (by decide)
      · simp only [List.cons_append, List.cons.injEq] at heq
        exact hraw more (by rw [heq.1, heq.2.1])
    rw [identLength_of_not_raw hraw', identLength_of_not_raw hraw, Number.wordLength_append h]

/-- A name that is there has characters, and they are all there. -/
theorem identLength_bounds (h : identLength cs = some n) : 0 < n ∧ n ≤ cs.length := by
  refine ⟨?_, (ident_legible h).2⟩
  unfold identLength at h
  split at h
  · split at h
    · contradiction
    · split at h
      · contradiction
      · cases h
        omega
  · split at h
    · contradiction
    · rename_i hzero
      cases h
      exact Nat.pos_of_ne_zero hzero

theorem startsLifetime_append (h : Breaks rest) :
    startsLifetime (cs ++ rest) = startsLifetime cs := by
  unfold startsLifetime
  rw [identLength_append h]
  cases hn : identLength cs with
  | none => rfl
  | some n =>
    obtain ⟨hpos, hle⟩ := identLength_bounds hn
    dsimp only
    rw [List.drop_append_of_le_length hle]
    cases hdrop : cs.drop n with
    | nil =>
      cases rest with
      | nil => rfl
      | cons c rest =>
        have hquote := h.ne (d := '\'') (by decide)
        have hhash := h.ne (d := '#') (by decide)
        rw [List.nil_append]
        split <;> simp_all
    | cons c more =>
      have hlength : n < cs.length := by
        have := congrArg List.length hdrop
        rw [List.length_drop, List.length_cons] at this
        omega
      rw [List.cons_append, List.take_append_of_le_length (by omega)]
      split <;> split <;> simp_all

theorem startsLifetime_head (h : startsLifetime (c :: cs) = true) : c ≠ '\\' := by
  rintro rfl
  have hword : Number.wordLength ('\\' :: cs) = 0 := 
    wordLength_eq_zero.mpr (show isIdentStart '\\' = false by decide)
  rw [startsLifetime, identLength_of_not_raw (by simp), if_pos hword] at h
  contradiction

/-- A character without an escape is closed by the apostrophe right after it. -/
theorem charLength_of_ne (hc : c ≠ '\\') : Quoted.charLength .text (c :: cs) = none ↔ cs.head? ≠ some '\'' := by
  simp [Quoted.charLength, hc]

/-- An apostrophe before a name is no character, whatever ends the name. -/
theorem charLength_append (h : Breaks rest) (hlife : startsLifetime cs = true)
    (hchar : Quoted.charLength .text cs = none) :
    Quoted.charLength .text (cs ++ rest) = none := by
  cases cs with
  | nil => simp [startsLifetime, identLength, Number.wordLength] at hlife
  | cons c more =>
    have hslash := startsLifetime_head hlife
    rw [charLength_of_ne hslash] at hchar
    rw [List.cons_append, charLength_of_ne hslash]
    cases more with
    | nil => exact fun hquote => absurd (h _ hquote) (by decide)
    | cons d more => exact hchar

end Lexer

namespace Mark

open Lexer

variable {rest after : List Char}

theorem opensQuote_append (h : Breaks after) (name : String) :
    opensQuote name (rest ++ after) = opensQuote name rest := by
  cases rest with
  | nil =>
    cases after with
    | nil => rfl
    | cons c after =>
      have hquote := h.ne (d := '"') (by decide)
      have hhash := h.ne (d := '#') (by decide)
      have hchar := h.ne (d := '\'') (by decide)
      unfold opensQuote
      simp only [List.nil_append, List.head?_cons, List.head?_nil]
      split <;> simp_all
  | cons c rest => rfl

/-- The characters between the parentheses of the placeholder. -/
def placeholderInside : List Char := "/*ERROR*/".toList

/-- An opening parenthesis does not become the placeholder by a text that breaks, unless the inside of the
placeholder stands between them. -/
theorem clear_paren_append (h : Breaks after) (hinside : rest ≠ placeholderInside)
    (hclear : (opening .paren).clear rest = true) :
    (opening .paren).clear (rest ++ after) = true := by
  have htable : ∀ c ∈ breakers, ∀ k < 10, (placeholder.toList.drop 1)[k]? = some c →
      (placeholder.toList.drop 1).take k = placeholderInside := forall_mem_of_all (by decide)
  simp only [clear, Bool.not_eq_true', ← Bool.not_eq_true, List.isPrefixOf_iff_prefix] at hclear ⊢
  intro hprefix
  rcases List.prefix_or_prefix_of_prefix hprefix (List.prefix_append rest after) with hrest | hrest
  · exact hclear hrest
  · obtain ⟨tail, htail⟩ := hrest
    rw [← htail, List.prefix_append_right_inj] at hprefix
    cases tail with
    | nil =>
      rw [List.append_nil] at htail
      exact hclear (htail ▸ List.prefix_refl _)
    | cons c tail =>
      obtain ⟨more, rfl⟩ := hprefix
      have hlength : rest.length < 10 := by
        have := congrArg List.length htail
        simp only [List.length_append, List.length_cons, show
          (placeholder.toList.drop 1).length = 10 from rfl] at this
        omega
      have htake := htable c (h c rfl) rest.length hlength (by rw [← htail]; simp)
      rw [← htail, List.take_left] at htake
      exact hinside htake

/-- A mark that stands clear of a text still does so when more text follows that breaks. Only an opening
parenthesis must not be left with the inside of the placeholder. -/
theorem clear_append {mark : Mark} (h : Breaks after)
    (hinside : mark = .opening .paren → rest ≠ placeholderInside)
    (hclear : mark.clear rest = true) : mark.clear (rest ++ after) = true := by
  cases mark with
  | opening delim =>
    cases delim with
    | paren => exact clear_paren_append h (hinside rfl) hclear
    | _ => rfl
  | closing delim => rfl
  | ident name =>
    rw [clear, head_append_any (h.any (by decide)), opensQuote_append h]
    exact hclear
  | punct c =>
    simp only [clear] at hclear ⊢
    split
    · rename_i hslash
      rw [if_pos hslash] at hclear
      rw [head_append_any (h.any (by decide))]
      exact hclear
    · rename_i hslash
      rw [if_neg hslash] at hclear
      split
      · rename_i hchar
        rw [if_pos hchar, Bool.and_eq_true, Option.isNone_iff_eq_none] at hclear
        rw [charLength_append h hclear.2 hclear.1, startsLifetime_append h, hclear.2]
        rfl
      · rfl
  | literal shown =>
    simp only [clear] at hclear ⊢
    rw [head_append_any (h.any (by decide)), head_append_any (h.any (by decide)),
      ← List.append_assoc, Number.length_append h]
    exact hclear

end Mark

/-! ## Comments -/

namespace Comment

variable {cs rest : List Char}

/-- A block comment that is closed ends where it ends. -/
theorem blockLength_append {depth : Nat} (h : blockLength depth cs = some n) (rest : List Char) :
    n ≤ cs.length ∧ blockLength depth (cs ++ rest) = some n := by
  fun_induction blockLength depth cs generalizing n with
  | case1 => contradiction
  | case2 depth more ih =>
    obtain ⟨m, hm, rfl⟩ := Option.map_eq_some_iff.mp h
    obtain ⟨hle, hagain⟩ := ih hm
    simp only [List.cons_append, List.length_cons, blockLength, hagain]
    exact ⟨by omega, rfl⟩
  | case3 depth more hdepth =>
    cases h
    simp [blockLength, hdepth]
  | case4 depth more hdepth ih =>
    obtain ⟨m, hm, rfl⟩ := Option.map_eq_some_iff.mp h
    obtain ⟨hle, hagain⟩ := ih hm
    simp only [List.cons_append, List.length_cons, blockLength, hdepth, if_false, hagain]
    exact ⟨by omega, rfl⟩
  | case5 depth c more hopens hcloses ih =>
    obtain ⟨m, hm, rfl⟩ := Option.map_eq_some_iff.mp h
    obtain ⟨hle, hagain⟩ := ih hm
    refine ⟨by simpa using hle, ?_⟩
    cases more with
    | nil => simp [blockLength] at hm
    | cons d more =>
      rw [List.cons_append, blockLength, hagain]
      · rfl
      · rintro tail rfl htail
        simp only [List.cons_append, List.cons.injEq] at htail
        exact hopens more rfl (by rw [htail.1])
      · rintro tail rfl htail
        simp only [List.cons_append, List.cons.injEq] at htail
        exact hcloses more rfl (by rw [htail.1])

theorem line_append (h : '\n' ∈ cs) (rest : List Char) : line (cs ++ rest) = line cs := by
  induction cs with
  | nil => simp at h
  | cons c more ih =>
    rw [List.cons_append, line, line]
    by_cases hc : c = '\n'
    · simp [hc]
    · have hmore : '\n' ∈ more := by simpa [Ne.symm hc] using h
      have hhead : (more ++ rest).head? = more.head? := by
        cases more with
        | nil => simp at hmore
        | cons d more => rfl
      rw [hhead, ih hmore]

/-- Whether a text is a line comment from its front to its end. -/
def isOpen (cs : List Char) : Bool := ['/', '/'].isPrefixOf cs && !cs.contains '\n'

/-- A line comment that is not left open has the end of its line. -/
theorem newline_mem (h : isOpen ('/' :: '/' :: cs) = false) : '\n' ∈ cs := by
  simpa [isOpen] using h

/-- Two slashes begin a plain comment if neither a slash nor an exclamation mark follows. -/
theorem plainLength_line (hslash : c ≠ '/') (hbang : c ≠ '!') (more : List Char) :
    plainLength ('/' :: '/' :: c :: more) = some (line ('/' :: '/' :: c :: more)).length := by
  unfold plainLength
  split <;> simp_all

/-- A slash and a star begin a plain comment if neither a star nor an exclamation mark follows. -/
theorem plainLength_block (hstar : c ≠ '*') (hbang : c ≠ '!') (more : List Char) :
    plainLength ('/' :: '*' :: c :: more) = blockLength 0 ('/' :: '*' :: c :: more) := by
  unfold plainLength
  split <;> simp_all

/-- A plain comment that is not left open ends where it ends. -/
theorem plainLength_append (h : plainLength cs = some n) (hopen : isOpen cs = false) (rest : List Char) :
    n ≤ cs.length ∧ plainLength (cs ++ rest) = some n := by
  have hline : ∀ more, isOpen ('/' :: '/' :: more) = false →
      line ('/' :: '/' :: more ++ rest) = line ('/' :: '/' :: more) := fun more hmore =>
    line_append (by simp [newline_mem hmore]) rest
  have hbound : ∀ ds : List Char, (line ds).length ≤ ds.length := fun ds =>
    (Lexer.line_front ds).length_le
  unfold plainLength at h
  split at h
  · cases h
    refine ⟨hbound _, ?_⟩
    rw [← hline _ hopen]
    rfl
  · contradiction
  · contradiction
  · rename_i more _ hslash hbang
    cases h
    refine ⟨hbound _, ?_⟩
    rw [← hline _ hopen]
    cases more with
    | nil => exact absurd (newline_mem hopen) (by simp)
    | cons c more =>
      exact plainLength_line (fun hc => hslash more (by rw [hc]))
        (fun hc => hbang more (by rw [hc])) (more ++ rest)
  · cases h
    exact ⟨by simp, rfl⟩
  · obtain ⟨hle, hagain⟩ := blockLength_append h rest
    exact ⟨hle, hagain⟩
  · contradiction
  · contradiction
  · rename_i more _ _ hstar hbang
    obtain ⟨hle, hagain⟩ := blockLength_append h rest
    refine ⟨hle, ?_⟩
    cases more with
    | nil => simp [blockLength] at h
    | cons c more =>
      rw [← hagain]
      exact plainLength_block (fun hc => hstar more (by rw [hc]))
        (fun hc => hbang more (by rw [hc])) (more ++ rest)
  · contradiction

/-- The documenting comment in a line that is not left open stays as it is. -/
theorem lineDoc_append {a : Char} (ha : a ≠ '\n') (hopen : isOpen ('/' :: '/' :: a :: cs) = false)
    (rest : List Char) (inner : Bool) :
    (lineDoc ('/' :: '/' :: a :: cs) inner).length ≤ ('/' :: '/' :: a :: cs).length ∧
      lineDoc ('/' :: '/' :: a :: cs ++ rest) inner = lineDoc ('/' :: '/' :: a :: cs) inner := by
  have hmem : '\n' ∈ cs := by simpa [Ne.symm ha] using newline_mem hopen
  have hle := (Lexer.line_front cs).length_le
  refine ⟨by simpa [lineDoc] using hle, ?_⟩
  simp only [lineDoc, List.cons_append, List.drop_succ_cons, List.drop_zero, line_append hmem]

/-- The documenting comment in a block stays as it is. -/
theorem blockDoc_append {doc : Doc} {inner : Bool} (h : blockDoc cs inner = some doc)
    (rest : List Char) : doc.length ≤ cs.length ∧ blockDoc (cs ++ rest) inner = some doc := by
  obtain ⟨n, hn, rfl⟩ := Option.map_eq_some_iff.mp h
  obtain ⟨hle, hagain⟩ := blockLength_append hn rest
  refine ⟨hle, ?_⟩
  rw [blockDoc, hagain, Option.map_some, List.take_append_of_le_length (by omega)]

/-- The comment itself, unless a bare carriage return spoils it. -/
def unspoilt (doc : Doc) : Option Doc := if hasBareReturn doc.text then none else some doc

/-- Three slashes begin a documenting comment if no fourth one follows. -/
theorem doc_line (hc : c ≠ '/') (more : List Char) :
    plainLength ('/' :: '/' :: '/' :: c :: more) = none ∧
      doc? ('/' :: '/' :: '/' :: c :: more) =
        unspoilt (lineDoc ('/' :: '/' :: '/' :: c :: more) false) := by
  constructor
  · unfold plainLength
    split <;> grind
  · unfold doc? unspoilt
    split <;> grind

/-- A slash and two stars begin a documenting comment if neither a star nor a slash follows. -/
theorem doc_block (hstar : c ≠ '*') (hslash : c ≠ '/') (more : List Char) :
    plainLength ('/' :: '*' :: '*' :: c :: more) = none ∧
      doc? ('/' :: '*' :: '*' :: c :: more) =
        (blockDoc ('/' :: '*' :: '*' :: c :: more) false).bind unspoilt := by
  constructor
  · unfold plainLength
    split <;> grind
  · unfold doc? unspoilt
    split <;> grind

/-- A documenting comment that is not left open ends where it ends. -/
theorem doc_append {doc : Doc} (hplain : plainLength cs = none) (h : doc? cs = some doc)
    (hopen : isOpen cs = false) (rest : List Char) :
    doc.length ≤ cs.length ∧ plainLength (cs ++ rest) = none ∧ doc? (cs ++ rest) = some doc := by
  have hdoc : ∀ found : Option Doc, found.bind unspoilt = some doc →
      found = some doc ∧ unspoilt doc = some doc := by
    intro found hfound
    obtain ⟨d, rfl, hd⟩ := Option.bind_eq_some_iff.mp hfound
    have hsame : d = doc := by
      unfold unspoilt at hd
      split at hd
      · contradiction
      · exact Option.some.inj hd
    rw [← hsame] at hd ⊢
    exact ⟨rfl, hd⟩
  unfold doc? at h
  split at h
  · rename_i more
    obtain ⟨hfound, hunspoilt⟩ := hdoc _ h
    cases hfound
    obtain ⟨hle, hagain⟩ := lineDoc_append (by decide) hopen rest true
    refine ⟨hle, rfl, ?_⟩
    change unspoilt (lineDoc ('/' :: '/' :: '!' :: more ++ rest) true) = _
    rw [hagain, hunspoilt]
  · rename_i more
    obtain ⟨hfound, hunspoilt⟩ := hdoc _ h
    obtain ⟨hle, hagain⟩ := blockDoc_append hfound rest
    refine ⟨hle, rfl, ?_⟩
    change (blockDoc ('/' :: '*' :: '!' :: more ++ rest) true).bind unspoilt = _
    rw [hagain, Option.bind_some, hunspoilt]
  · contradiction
  · rename_i more hslash
    obtain ⟨hfound, hunspoilt⟩ := hdoc _ h
    cases hfound
    obtain ⟨hle, hagain⟩ := lineDoc_append (by decide) hopen rest false
    cases more with
    | nil => exact absurd (newline_mem hopen) (by simp)
    | cons c more =>
      have hc : c ≠ '/' := fun hc => hslash more (by rw [hc])
      obtain ⟨hnone, hread⟩ := doc_line hc (more ++ rest)
      exact ⟨hle, hnone, hread.trans (by rw [← hunspoilt, ← hagain]; rfl)⟩
  · contradiction
  · rename_i more hstar
    obtain ⟨hfound, hunspoilt⟩ := hdoc _ h
    obtain ⟨hle, hagain⟩ := blockDoc_append hfound rest
    cases more with
    | nil => simp [blockDoc, blockLength] at hfound
    | cons c more =>
      have hslash : c ≠ '/' := by
        rintro rfl
        simp [plainLength] at hplain
      have hc : c ≠ '*' := fun hc => hstar more (by rw [hc])
      obtain ⟨hnone, hread⟩ := doc_block hc hslash (more ++ rest)
      rw [List.cons_append, List.cons_append, List.cons_append, List.cons_append] at hagain ⊢
      exact ⟨hle, hnone, by rw [hread, hagain, Option.bind_some, hunspoilt]⟩
  · contradiction

end Comment

end Fieldwise
