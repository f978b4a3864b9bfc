import Fieldwise.Proofs.Reading.Character
import Fieldwise.Proofs.Reading.Number
import Fieldwise.Proofs.Reading.Quoted

/-!
# Tokens as they stand in a text

A text of tokens is a sequence of marks: the two sides of groups, words, punctuation characters and
literals. A mark stands clear of the text after it if the two cannot be taken for something else: a word
does not run on into a longer word or into a quoted literal, a slash does not begin a comment, an apostrophe
begins a lifetime, and a literal neither goes on nor takes a suffix.
-/

namespace Fieldwise

open Fieldwise.Text

variable {word rest : List Char}

/-- What is visible of tokens in a text: one side of a group, or a token that is no group. -/
inductive Mark where
  | opening (delim : Delim)
  | closing (delim : Delim)
  | ident (name : String)
  | punct (char : Char)
  | literal (text : String)
  deriving DecidableEq

namespace Mark

/-- The characters of a mark. -/
def text : Mark → List Char
  | opening .paren => ['(']
  | opening .bracket => ['[']
  | opening .brace => ['{']
  | closing .paren => [')']
  | closing .bracket => [']']
  | closing .brace => ['}']
  | opening .invisible | closing .invisible => []
  | ident name => name.toList
  | punct c => [c]
  | literal shown => shown.toList

/-- Whether a word begins a quoted literal together with the text after it. -/
def opensQuote (name : String) (rest : List Char) : Bool :=
  match rest.head? with
  | some '"' => ["r", "b", "c", "br", "cr"].contains name
  | some '#' => ["r", "br", "cr"].contains name
  | some '\'' => name == "b"
  | _ => false

/-- Whether a mark stands clear of the text after it. -/
def clear (rest : List Char) : Mark → Bool
  | opening .paren => !(Lexer.placeholder.toList.drop 1).isPrefixOf rest
  | opening _ | closing _ => true
  | ident name => !rest.head?.any isIdentContinue && !opensQuote name rest
  | punct c =>
    if c = '/' then !rest.head?.any (['/', '*'].contains ·)
    else if c = '\'' then (Quoted.charLength .text rest).isNone && Lexer.startsLifetime rest
    else true
  | literal shown =>
    match Quoted.length shown.toList with
    | some n =>
      if n = shown.toList.length then !rest.head?.any isIdentStart
      else !rest.head?.any isIdentContinue
    | none =>
      shown == Lexer.placeholder ||
        Number.length (shown.toList ++ rest) == some shown.toList.length

/-- The form of the marks that a reader produces: visible delimiters, names, punctuation, and literals of
the three kinds. -/
def Legible : Mark → Prop
  | opening delim | closing delim => delim ≠ .invisible
  | ident name => isIdentifier name.toList = true ∨
      ∃ word, name.toList = 'r' :: '#' :: word ∧ isIdentifier word = true ∧
        Lexer.unrawable.contains (String.ofList word) = false
  | punct c => c ∈ Lexer.punctuation
  | literal shown =>
    (∃ n, Quoted.length shown.toList = some n ∧
      (n = shown.toList.length ∨ isIdentifier (shown.toList.drop n) = true)) ∨
    shown = Lexer.placeholder ∨ (shown.toList.head?.any isDigit = true ∧ ' ' ∉ shown.toList)

end Mark

mutual

/-- The marks of a token; an invisible group has none of its own. -/
def Token.marks : Token → List Mark
  | .ident name _ => [.ident name]
  | .punct c _ _ => [.punct c]
  | .literal shown _ => [.literal shown]
  | .group .invisible body _ _ => marksAll body
  | .group delim body _ _ => .opening delim :: (marksAll body ++ [.closing delim])

/-- The marks of tokens one after the other. -/
def Token.marksAll : List Token → List Mark
  | [] => []
  | token :: rest => token.marks ++ marksAll rest

end

/-- The marks of a group between delimiters that are visible. -/
theorem Token.marks_group {delim : Delim} (h : delim ≠ .invisible) (body : List Token)
    (opening closing : Pos) :
    (Token.group delim body opening closing).marks =
      .opening delim :: (Token.marksAll body ++ [.closing delim]) := by
  cases delim <;> first | rfl | exact absurd rfl h

namespace Lexer

/-- The marks of a piece that was read. -/
def Lexeme.marks : Lexeme → List Mark
  | opening delim _ => [.opening delim]
  | closing delim _ => [.closing delim]
  | leaf token => token.marks

/-- The marks of pieces one after the other. -/
def marksOf (pieces : List Lexeme) : List Mark := pieces.flatMap Lexeme.marks

/-! ## Words -/

/-- A run of characters of a class ends where the class ends. -/
theorem takeWhile_word {test : Char → Bool} (hword : word.all test = true) (hrest : rest.head?.any test = false) :
    (word ++ rest).takeWhile test = word := by
  rw [List.takeWhile_append_of_pos (List.all_eq_true.mp hword)]
  cases rest with
  | nil => simp
  | cons c rest =>
    have hc : test c = false := by simpa using hrest
    simp [hc]

/-- A word is read whole exactly when nothing after it continues it. -/
theorem wordLength_word (hword : isIdentifier word = true) :
    Number.wordLength (word ++ rest) = word.length ↔
      rest.head?.any isIdentContinue = false := by
  cases word with
  | nil => simp [isIdentifier] at hword
  | cons c more =>
    simp only [isIdentifier, Bool.and_eq_true] at hword
    obtain ⟨hstart, hmore⟩ := hword
    simp only [List.cons_append, Number.wordLength, hstart, if_true, List.length_cons]
    constructor
    · intro h
      cases rest with
      | nil => rfl
      | cons d rest =>
        cases hd : isIdentContinue d with
        | false => simp [hd]
        | true =>
          rw [List.takeWhile_append_of_pos (List.all_eq_true.mp hmore)] at h
          simp [hd] at h
    · intro h
      rw [takeWhile_word hmore h]

theorem wordLength_eq_zero : Number.wordLength rest = 0 ↔ rest.head?.any isIdentStart = false := by
  cases rest with
  | nil => simp [Number.wordLength]
  | cons c rest =>
    cases hc : isIdentStart c <;> simp [Number.wordLength, hc]

theorem word_split {ds : List Char} {d : Char} (hword : isIdentifier word = true)
    (hrest : rest.head?.any isIdentContinue = false) (h : word ++ rest = d :: ds) :
    word = d :: ds.takeWhile isIdentContinue ∧ rest = ds.dropWhile isIdentContinue := by
  cases word with
  | nil => simp [isIdentifier] at hword
  | cons c more =>
    simp only [isIdentifier, Bool.and_eq_true] at hword
    rw [List.cons_append] at h
    obtain ⟨rfl, rfl⟩ := List.cons.inj h
    have htake := takeWhile_word hword.2 hrest
    refine ⟨by rw [htake], ?_⟩
    have hsplit : (more ++ rest).takeWhile isIdentContinue ++
        (more ++ rest).dropWhile isIdentContinue = more ++ rest :=
      List.takeWhile_append_dropWhile
    rw [htake] at hsplit
    exact (List.append_cancel_left hsplit).symm

/-- A word that begins like a quoted literal together with what follows it is one of the five letters of
quoted literals. -/
theorem opensQuote_of_startsQuoted (hword : isIdentifier word = true) (hrest : rest.head?.any isIdentContinue = false)
    (h : startsQuoted (word ++ rest) = true) : Mark.opensQuote (String.ofList word) rest = true := by
  unfold startsQuoted at h
  split at h
  all_goals first
    | contradiction
    | rename_i hcs
      obtain ⟨hw, hr⟩ := word_split hword hrest hcs
      rw [hw, hr]
      rfl

/-- The five letters begin a quoted literal, except that a hash sign after the first one may also mark a
raw name. -/
theorem startsQuoted_of_opensQuote (h : Mark.opensQuote (String.ofList word) rest = true) :
    startsQuoted (word ++ rest) = true ∨ word = ['r'] ∧ rest.head? = some '#' := by
  have hlist : ∀ s : String, String.ofList word = s → word = s.toList := by
    intro s hs
    rw [← hs, String.toList_ofList]
  unfold Mark.opensQuote at h
  cases rest with
  | nil => simp at h
  | cons d rest =>
    simp only [List.head?_cons] at h
    split at h
    · rename_i hd
      cases hd
      simp only [List.contains_eq_mem, List.mem_cons, List.not_mem_nil, or_false,
        decide_eq_true_eq] at h
      rcases h with h | h | h | h | h <;> rw [hlist _ h] <;> exact .inl rfl
    · rename_i hd
      cases hd
      simp only [List.contains_eq_mem, List.mem_cons, List.not_mem_nil, or_false,
        decide_eq_true_eq] at h
      rcases h with h | h | h <;> rw [hlist _ h]
      · exact .inr ⟨rfl, rfl⟩
      · exact .inl rfl
      · exact .inl rfl
    · rename_i hd
      cases hd
      rw [beq_iff_eq] at h
      rw [hlist _ h]
      exact .inl rfl
    · contradiction

/-- A text without escapes begins with a quote, or with a hash sign and a quote or another hash sign. -/
theorem rawFollow_head {flavour : Quoted.Flavour} {cs : List Char} {n : Nat}
    (h : Quoted.rawFollow flavour cs = some n) :
    ∃ rest, cs = '"' :: rest ∨ cs = '#' :: '"' :: rest ∨ cs = '#' :: '#' :: rest := by
  unfold Quoted.rawFollow at h
  rcases cs with _ | ⟨a, more⟩
  · simp at h
  · by_cases ha : a = '#'
    · rcases more with _ | ⟨b, more⟩
      · simp [ha] at h
      · by_cases hb : b = '#'
        · exact ⟨more, .inr (.inr (by rw [ha, hb]))⟩
        · have hquote : b = '"' := by
            simp [ha, hb] at h
            grind
          exact ⟨more, .inr (.inl (by rw [ha, hquote]))⟩
    · have hquote : a = '"' := by
        simp [ha] at h
        grind
      exact ⟨more, .inl (by rw [hquote])⟩

/-- A quoted literal that begins with a letter begins like one. -/
theorem startsQuoted_of_length {cs : List Char} {n : Nat} (h : Quoted.length cs = some n)
    (hquote : cs.head? ≠ some '"') (hchar : cs.head? ≠ some '\'') : startsQuoted cs = true := by
  unfold Quoted.length at h
  split at h
  · simp at hquote
  · obtain ⟨m, hm, -⟩ := Option.map_eq_some_iff.mp h
    obtain ⟨rest, rfl | rfl | rfl⟩ := rawFollow_head hm <;> rfl
  · rfl
  · obtain ⟨m, hm, -⟩ := Option.map_eq_some_iff.mp h
    obtain ⟨rest, rfl | rfl | rfl⟩ := rawFollow_head hm <;> rfl
  · rfl
  · rfl
  · obtain ⟨m, hm, -⟩ := Option.map_eq_some_iff.mp h
    obtain ⟨rest, rfl | rfl | rfl⟩ := rawFollow_head hm <;> rfl
  · simp at hchar
  · simp at h

/-- A text that begins with a letter but not like a quoted literal is no literal. -/
theorem literalLength_of_identStart {c : Char} (hstart : isIdentStart c = true)
    (hquoted : startsQuoted (c :: rest) = false) : literalLength (c :: rest) = none := by
  have hspecial := special_not_ident (.inr hstart)
  have hquote : (c :: rest).head? ≠ some '"' := by
    rintro h
    cases h
    exact hspecial (by decide)
  have hchar : (c :: rest).head? ≠ some '\'' := by
    rintro h
    cases h
    exact hspecial (by decide)
  unfold literalLength
  cases hlen : Quoted.length (c :: rest) with
  | some n =>
    have hstarts := startsQuoted_of_length hlen hquote hchar
    rw [hquoted] at hstarts
    contradiction
  | none =>
    cases hnumber : Number.length (c :: rest) with
    | none => rfl
    | some n =>
      have hdigit : isDigit c = true := by simpa using (Number.length_head hnumber).2
      have hapart := (digit_apart hdigit).2.1
      rw [hstart] at hapart
      contradiction

/-- The name at the head of a text is a word exactly when nothing continues the word and no hash sign
after the letter `r` makes it a raw marker. -/
theorem identLength_word (hword : isIdentifier word = true) :
    identLength (word ++ rest) = some word.length ↔
      rest.head?.any isIdentContinue = false ∧ ¬(word = ['r'] ∧ rest.head? = some '#') := by
  cases word with
  | nil => simp [isIdentifier] at hword
  | cons c more =>
    unfold identLength
    split
    · rename_i tail hcs
      rw [List.cons_append] at hcs
      obtain ⟨rfl, hmore⟩ := List.cons.inj hcs
      have hnil : more = [] := by
        cases more with
        | nil => rfl
        | cons d more =>
          rw [List.cons_append] at hmore
          obtain ⟨rfl, -⟩ := List.cons.inj hmore
          simp [isIdentifier, show isIdentContinue '#' = false by decide] at hword
      subst hnil
      rw [List.nil_append] at hmore
      subst hmore
      constructor
      · intro h
        split at h
        · contradiction
        · split at h
          · contradiction
          · simp at h
      · intro h
        simp at h
    · rename_i hraw
      rw [← wordLength_word hword]
      constructor
      · intro h
        refine ⟨?_, ?_⟩
        · split at h
          · contradiction
          · exact Option.some.inj h
        · rintro ⟨hr, hhash⟩
          cases rest with
          | nil => simp at hhash
          | cons d rest =>
            cases hhash
            exact hraw rest (by rw [hr]; rfl)
      · intro h
        rw [h.1]
        rfl

/-- A raw name is read whole exactly when nothing after it continues its word. -/
theorem identLength_raw (hword : isIdentifier word = true) (hraw : unrawable.contains (String.ofList word) = false) :
    identLength ('r' :: '#' :: word ++ rest) = some ('r' :: '#' :: word).length ↔
      rest.head?.any isIdentContinue = false := by
  rw [← wordLength_word hword]
  simp only [List.cons_append, identLength, List.length_cons]
  constructor
  · intro h
    split at h
    · contradiction
    · split at h
      · contradiction
      · simpa using h
  · intro h
    rw [h]
    split
    · rename_i hzero
      rw [List.length_eq_zero_iff] at hzero
      subst hzero
      simp [isIdentifier] at hword
    · simpa using hraw

theorem startsQuoted_raw (hword : isIdentifier word = true) (rest : List Char) :
    startsQuoted ('r' :: '#' :: word ++ rest) = false := by
  cases word with
  | nil => simp [isIdentifier] at hword
  | cons c more =>
    rw [isIdentifier, Bool.and_eq_true] at hword
    have hother : ∀ d ∈ special, c ≠ d := by
      rintro d hd rfl
      exact special_not_ident (.inr hword.1) hd
    have hquote : c ≠ '"' := hother _ (by decide)
    have hhash : c ≠ '#' := hother _ (by decide)
    simp only [List.cons_append]
    unfold startsQuoted
    split
    all_goals first
      | rfl
      | rename_i hcs
        simp only [List.cons.injEq, hquote, hhash, false_and, and_false, Char.reduceEq]
          at hcs

theorem opensQuote_raw {name : String} (hname : name.toList = 'r' :: '#' :: word) (rest : List Char) :
    Mark.opensQuote name rest = false := by
  have hmarker : ∀ s ∈ ["r", "b", "c", "br", "cr"], s.toList.tail.head? ≠ some '#' := by decide
  have hother : ∀ s ∈ ["r", "b", "c", "br", "cr"], name ≠ s := by
    intro s hs hn
    have hsecond := hmarker s hs
    rw [← hn, hname] at hsecond
    exact hsecond rfl
  simp only [List.forall_mem_cons, List.not_mem_nil, false_implies, implies_true, and_true]
    at hother
  unfold Mark.opensQuote
  split <;> simp [hother]

end Lexer

end Fieldwise
