import Fieldwise.Lowering
import Fieldwise.Proofs.Parsing
import Fieldwise.Proofs.Rereading

/-!
# Words as types

A type that is a single word has no container structure: containers have arguments, and the one container
without arguments is the owned text, which is described by its own name. So a word names itself, whether
it is reserved or not.
-/

namespace Fieldwise

open Fieldwise.Grammar Fieldwise.Grammar.Parser Fieldwise.Text

theorem Tokens.read_word {name : String} (h : isIdentifier name.toList = true) :
    ∃ pos, Tokens.read name = .ok [.ident name pos] := by
  have hlegible : ∀ m ∈ [Mark.ident name], m.Legible := by
    intro m hm
    rw [List.mem_singleton] at hm
    subst hm
    exact .inl h
  have hwoven : Woven [.ident name] name.toList := Woven.single (.ident name)
  have hclear : Mark.allClear [.ident name] name.toList = true := by
    have hone := Mark.allClear_mark (hlegible (.ident name) (by simp)).solid [] []
    rw [List.append_nil] at hone
    exact hone
  obtain ⟨found, hfound, hshows⟩ := Lexer.lexemes_of_clear hwoven hlegible hclear .callSite
  obtain ⟨x, more, hx, hmore, rfl⟩ := List.forall₂_cons_right_iff.mp hshows
  cases List.forall₂_nil_right_iff.mp hmore
  cases hx with
  | ident _ pos =>
    refine ⟨pos, ?_⟩
    rw [Tokens.read_woven hwoven hlegible, Lexer.tokensFrom, hfound]
    rfl

theorem bare_ident (name : String) (pos : Pos) (rest : Tokens) :
    bare (.ident name pos :: rest) = .ident name pos :: rest := by
  simp [bare, openTokens, openToken]

section Name

variable {name : String} (pos : Pos)

theorem look_word_of_name (h : isKeyword name = false) {keyword : String}
    (hmem : keyword ∈ keywords) : Look.word keyword [.ident name pos] = false := by
  have hne : name ≠ keyword := by
    rintro rfl
    simp [isKeyword, hmem] at h
  simp [Look.word, bare_ident, hne]

theorem look_group_of_word (delim : Delim) : Look.group delim [.ident name pos] = false := by
  cases delim <;> simp [Look.group, bare_ident]

theorem look_op_of_word {op : String} (h : op.toList ≠ []) :
    Look.op op [.ident name pos] = false := by
  cases hlist : op.toList with
  | nil => exact absurd hlist h
  | cons c rest => simp [Look.op, hlist, dropOp, bare_ident]

/-- A name alone is a path of one segment without arguments. -/
theorem path_of_name (h : isKeyword name = false) (rules : Rules) (stop : Pos) :
    path rules false ⟨[.ident name pos], stop, .invisible, none⟩ =
      .ok ((false, [.mk ⟨name, pos⟩ .none]), ⟨[], stop, .invisible, none⟩) := by
  have hword : ∀ keyword ∈ keywords, Look.word keyword [.ident name pos] = false :=
    fun keyword hmem => look_word_of_name pos h hmem
  have hroot : Look.op "::" [.ident name pos] = false := look_op_of_word pos (by decide)
  simp only [path, op?, bind_run, look_run, ite_run, pure_run, ok_bind, hroot, Bool.false_eq_true,
    if_false, Grammar.segment, Look.words, List.any_cons, List.any_nil, Bool.or_false,
    hword "super" (by decide), hword "self" (by decide), hword "crate" (by decide),
    hword "try" (by decide), hword "Self" (by decide), Parser.ident, bare_ident, h]
  rfl

theorem type_of_name (h : isKeyword name = false) (rules : Rules) (stop : Pos) :
    Grammar.type rules true ⟨[.ident name pos], stop, .invisible, none⟩ =
      .ok (.path false [.mk ⟨name, pos⟩ .none], ⟨[], stop, .invisible, none⟩) := by
  have hword : ∀ keyword ∈ keywords, Look.word keyword [.ident name pos] = false :=
    fun keyword hmem => look_word_of_name pos h hmem
  have hangle : Look.op "<" [.ident name pos] = false := look_op_of_word pos (by decide)
  have hident : Look.ident [.ident name pos] = true := by simp [Look.ident, bare_ident, h]
  simp only [Grammar.type, binder?, bind_run, look_run, look_group_of_word, ite_run, pure_run,
    ok_bind, Bool.false_eq_true, if_false, typeAfter, choose, choose.go, Option.isSome_none,
    Bool.false_and, hword "for" (by decide), hword "fn" (by decide), hword "unsafe" (by decide),
    hword "extern" (by decide), Look.any, List.any_cons, hident, Bool.true_or, if_true, pathType,
    qpath, hangle, path_of_name pos h]
  rfl

/-- Parsing a name alone as a type gives the path that it makes. -/
theorem parseType_of_name (h : isKeyword name = false) :
    parseType [.ident name pos] = .ok (.path false [.mk ⟨name, pos⟩ .none]) := by
  have hrules : ∃ rules : Rules, (Rules.forTokens [.ident name pos]).type = Grammar.type rules :=
    ⟨.level 11, rfl⟩
  obtain ⟨rules, hrules⟩ := hrules
  simp only [parseType, parseWith, hrules, parseAll, type_of_name pos h]
  rfl

end Name

namespace Descriptor

theorem shape_keyword : ∀ keyword ∈ keywords, shape (named keyword) = named keyword := by
  decide +kernel

theorem shape_word {name : String} (h : isIdentifier name.toList = true) :
    shape (named name) = named name := by
  cases hkeyword : isKeyword name with
  | true => exact shape_keyword name (by simpa [isKeyword] using hkeyword)
  | false =>
    obtain ⟨pos, hread⟩ := Tokens.read_word h
    simp only [shape_named, parseText, hread, parseType_of_name pos hkeyword]
    -- Without arguments only the owned text has a structure, and it is its own name.
    simp only [shapeOf?_path, lastShape?, segmentShape?, argShapes?, container?]
    split <;> simp_all [string]

end Descriptor

end Fieldwise
