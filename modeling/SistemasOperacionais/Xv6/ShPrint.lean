/-
**xv6 `sh.c`: the commands that have a text.**

* `Cmd.WellFormed` — fewer than `MAXARGS` arguments in every `execcmd`, words that `gettoken` cuts
  as they are, and only the two redirections that `parseredirs` makes.
* `tokens_written` — tokens, written with a blank after each, are cut again as they were.
* `Cmd.spelling` — a command as tokens, every inner command in parentheses.
* `parsecmd_text_iff` — **the parser returns exactly the well-formed commands**: the text of a
  well-formed command is parsed as this command, and what any text is parsed as is well formed.
-/

import SistemasOperacionais.Xv6.ShGrammar

namespace Xv6

namespace Sh

/-- A text that `gettoken` cuts as one word. -/
def IsText (text : List Char) : Prop := text ≠ [] ∧ ∀ c ∈ text, isWord c = true

/-- `'<'` opens descriptor 0 for reading, the others open descriptor 1 for writing. -/
def Redir.WellFormed (how : Redir) : Prop :=
  IsText how.file ∧ (how.mode = oRdonly ∧ how.fd = 0 ∨ how.mode = oWronlyCreate ∧ how.fd = 1)

def Cmd.WellFormed : Cmd → Prop
  | .exec argv => argv.length < maxArgs ∧ ∀ text ∈ argv, IsText text
  | .redir cmd how => cmd.WellFormed ∧ how.WellFormed
  | .pipe left right => left.WellFormed ∧ right.WellFormed
  | .list left right => left.WellFormed ∧ right.WellFormed
  | .back cmd => cmd.WellFormed

/-! ### Writing tokens -/

def Token.text : Token → List Char
  | .symbol c => [c]
  | .append => ['>', '>']
  | .word text => text

def Token.WellFormed : Token → Prop
  | .symbol c => c ∈ symbols
  | .append => True
  | .word text => IsText text

/-- The tokens with a blank after each. -/
def written (ts : List Token) : List Char := ts.flatMap (·.text ++ [' '])

theorem skip_of_solid {c : Char} {s : List Char} (solid : c ∉ whitespace) :
    skip (c :: s) = c :: s :=
  List.dropWhile_cons_of_neg (by simpa using solid)

theorem gettoken_written {tok : Token} (ok : tok.WellFormed) (s : List Char) :
    gettoken (tok.text ++ ' ' :: s) = (some tok, skip s) := by
  have blank : skip (' ' :: s) = skip s := List.dropWhile_cons_of_pos (by decide)
  cases tok with
  | symbol c =>
    have solid : c ∉ whitespace := by
      have all := List.all_eq_true.mp (show symbols.all (· ∉ whitespace) = true by decide) c ok
      simpa using all
    rw [Token.text, List.singleton_append, gettoken, skip_of_solid solid]
    split
    · rename_i none
      cases none
    · rename_i same
      cases same
    · rename_i same
      cases same
      rw [if_pos (show c ∈ symbols from ok), blank]
  | append =>
    rw [← blank]
    rfl
  | word text =>
    obtain ⟨some, all⟩ := ok
    obtain ⟨c, text, rfl⟩ := List.exists_cons_of_ne_nil some
    have word := all c List.mem_cons_self
    have solid : c ∉ whitespace ∧ c ∉ symbols := by simpa [isWord] using word
    rw [Token.text, List.cons_append, gettoken, skip_of_solid solid.1]
    have taken : (c :: text ++ ' ' :: s).takeWhile isWord = c :: text := by
      rw [List.takeWhile_append_of_pos all]
      simp [isWord, whitespace]
    have dropped : (c :: text ++ ' ' :: s).dropWhile isWord = ' ' :: s := by
      rw [List.dropWhile_append_of_pos all]
      simp [isWord, whitespace]
    split
    · rename_i none
      cases none
    · rename_i same
      rw [(List.cons.inj same).1] at solid
      exact absurd (by decide) solid.2
    · rename_i same
      cases same
      rw [if_neg solid.2, ← List.cons_append, taken, dropped, blank]

/-- **Written tokens are cut as they were.** -/
theorem tokens_written {ts : List Token} (ok : ∀ tok ∈ ts, tok.WellFormed) :
    tokens (written ts) = ts := by
  induction ts with
  | nil => exact tokens_of_none rfl
  | cons tok ts ih =>
    have first := gettoken_written (ok tok List.mem_cons_self) (written ts)
    have spelt : written (tok :: ts) = tok.text ++ ' ' :: written ts := by simp [written]
    rw [spelt, tokens_of_some first, tokens_skip, ih fun other there => ok other (.tail _ there)]

theorem wellFormed_of_gettoken {s rest : List Char} {tok : Token}
    (got : gettoken s = (some tok, rest)) : tok.WellFormed := by
  unfold gettoken at got
  split at got
  · cases got
  · cases got
    trivial
  · rename_i c text _ here
    split at got
    · rename_i symbol
      cases got
      exact symbol
    · rename_i plain
      cases got
      have word : isWord c = true := by simp [isWord, not_blank_of_skip here, plain]
      refine ⟨by simp [word], fun d there => List.mem_takeWhile_imp there⟩

/-- **What is cut is well formed.** -/
theorem wellFormed_of_tokens {s : List Char} {ts : List Token} (cut : tokens s = ts) :
    ∀ tok ∈ ts, tok.WellFormed := by
  induction ts generalizing s with
  | nil => simp
  | cons tok ts ih =>
    obtain ⟨rest, got, left⟩ := gettoken_of_cons cut
    exact List.forall_mem_cons.mpr ⟨wellFormed_of_gettoken got, ih left⟩

/-! ### Writing commands -/

/-- The token of a redirection. -/
def Redir.token (how : Redir) : Token := if how.fd = 0 then .symbol '<' else .symbol '>'

def block (ts : List Token) : List Token := .symbol '(' :: ts ++ [.symbol ')']

/-- A command as tokens. -/
def Cmd.spelling : Cmd → List Token
  | .exec argv => argv.map .word
  | .redir cmd how => block cmd.spelling ++ [how.token, .word how.file]
  | .pipe left right => block left.spelling ++ .symbol '|' :: block right.spelling
  | .list left right => block left.spelling ++ .symbol ';' :: block right.spelling
  | .back cmd => block cmd.spelling ++ [.symbol '&']

def Cmd.text (cmd : Cmd) : List Char := written cmd.spelling

theorem exec_block {ts : List Token} {cmd : Cmd} (line : Line ts cmd) : Exec (block ts) cmd :=
  .block line .nil

theorem pipe_block {ts : List Token} {cmd : Cmd} (line : Line ts cmd) : Pipe (block ts) cmd :=
  .exec (exec_block line)

theorem line_of_pipe {ts : List Token} {cmd : Cmd} (pipe : Pipe ts cmd) : Line ts cmd := by
  have line := Line.back 0 pipe
  rwa [List.replicate_zero, List.append_nil] at line

theorem simple_words (argv : List (List Char)) : Simple (argv.map .word) argv [] := by
  induction argv with
  | nil => exact .nil
  | cons text argv ih => exact .word ih

theorem redirOf_token {how : Redir} (ok : how.WellFormed) :
    redirOf (some how.token) how.file = how := by
  obtain ⟨file, mode, fd⟩ := how
  obtain ⟨-, ⟨rfl, rfl⟩ | ⟨rfl, rfl⟩⟩ := ok <;> rfl

/-- **The spelling of a command stands for it.** -/
theorem line_spelling {cmd : Cmd} (ok : cmd.WellFormed) : Line cmd.spelling cmd := by
  induction cmd with
  | exec argv => exact line_of_pipe (.exec (.simple (simple_words argv) ok.1))
  | redir cmd how ih =>
    have isRedir : how.token.isRedir = true := by
      unfold Redir.token
      split <;> rfl
    have redirected : Simple [how.token, .word how.file] [] [redirOf (some how.token) how.file] :=
      .redir isRedir .nil
    rw [redirOf_token ok.2] at redirected
    have exec := Exec.block (ih ok.1) redirected
    rw [List.append_cons] at exec
    exact line_of_pipe (.exec exec)
  | pipe left right left_ih right_ih =>
    exact line_of_pipe (.pipe (exec_block (left_ih ok.1)) (pipe_block (right_ih ok.2)))
  | list left right left_ih right_ih =>
    have line := Line.list 0 (pipe_block (left_ih ok.1)) (line_of_pipe (pipe_block (right_ih ok.2)))
    rwa [List.replicate_zero, List.append_nil] at line
  | back cmd ih => exact .back 1 (pipe_block (ih ok))

theorem wellFormed_block {ts : List Token} (inner : ∀ tok ∈ ts, tok.WellFormed) :
    ∀ tok ∈ block ts, tok.WellFormed := by
  have paren : ∀ c ∈ ['(', ')'], (Token.symbol c).WellFormed := by
    simp [Token.WellFormed, symbols]
  refine List.forall_mem_append.mpr ⟨List.forall_mem_cons.mpr ⟨paren _ (by simp), inner⟩, ?_⟩
  exact List.forall_mem_singleton.mpr (paren _ (by simp))

theorem wellFormed_spelling {cmd : Cmd} (ok : cmd.WellFormed) :
    ∀ tok ∈ cmd.spelling, tok.WellFormed := by
  have symbol : ∀ c ∈ ['<', '>', '|', ';', '&'], (Token.symbol c).WellFormed := by
    simp [Token.WellFormed, symbols]
  induction cmd with
  | exec argv =>
    intro tok there
    obtain ⟨text, member, rfl⟩ := List.mem_map.mp there
    exact ok.2 text member
  | redir cmd how ih =>
    have redir : how.token.WellFormed := by
      unfold Redir.token
      split <;> exact symbol _ (by simp)
    have word : (Token.word how.file).WellFormed := ok.2.1
    refine List.forall_mem_append.mpr ⟨wellFormed_block (ih ok.1), ?_⟩
    exact List.forall_mem_cons.mpr ⟨redir, List.forall_mem_singleton.mpr word⟩
  | pipe left right left_ih right_ih =>
    refine List.forall_mem_append.mpr ⟨wellFormed_block (left_ih ok.1), ?_⟩
    exact List.forall_mem_cons.mpr ⟨symbol _ (by simp), wellFormed_block (right_ih ok.2)⟩
  | list left right left_ih right_ih =>
    refine List.forall_mem_append.mpr ⟨wellFormed_block (left_ih ok.1), ?_⟩
    exact List.forall_mem_cons.mpr ⟨symbol _ (by simp), wellFormed_block (right_ih ok.2)⟩
  | back cmd ih =>
    refine List.forall_mem_append.mpr ⟨wellFormed_block (ih ok), ?_⟩
    exact List.forall_mem_singleton.mpr (symbol _ (by simp))

/-! ### What the grammar derives -/

theorem Simple.wellFormed {ts : List Token} {argv : List (List Char)} {redirs : List Redir}
    (simple : Simple ts argv redirs) (ok : ∀ tok ∈ ts, tok.WellFormed) :
    (∀ text ∈ argv, IsText text) ∧ ∀ how ∈ redirs, how.WellFormed := by
  induction simple with
  | nil => simp
  | word _ ih =>
    obtain ⟨word, rest⟩ := List.forall_mem_cons.mp ok
    exact ⟨List.forall_mem_cons.mpr ⟨word, (ih rest).1⟩, (ih rest).2⟩
  | @redir tok file _ _ _ _ _ ih =>
    obtain ⟨-, rest⟩ := List.forall_mem_cons.mp ok
    obtain ⟨word, rest⟩ := List.forall_mem_cons.mp rest
    have how : (redirOf (some tok) file).WellFormed := by
      unfold redirOf
      split
      · exact ⟨word, .inl ⟨rfl, rfl⟩⟩
      · exact ⟨word, .inr ⟨rfl, rfl⟩⟩
    exact ⟨(ih rest).1, List.forall_mem_cons.mpr ⟨how, (ih rest).2⟩⟩

theorem wellFormed_around {cmd : Cmd} {redirs : List Redir} (inner : cmd.WellFormed)
    (outer : ∀ how ∈ redirs, how.WellFormed) : (around cmd redirs).WellFormed := by
  induction redirs generalizing cmd with
  | nil => exact inner
  | cons how redirs ih =>
    obtain ⟨first, rest⟩ := List.forall_mem_cons.mp outer
    have both : (cmd.redir how).WellFormed := ⟨inner, first⟩
    exact ih both rest

theorem wellFormed_back {cmd : Cmd} (inner : cmd.WellFormed) (times : ℕ) :
    (Cmd.back^[times] cmd).WellFormed := by
  induction times generalizing cmd with
  | zero => exact inner
  | succ times ih =>
    have once : cmd.back.WellFormed := inner
    exact ih once

mutual

theorem Line.wellFormed {ts : List Token} {cmd : Cmd} (line : Line ts cmd)
    (ok : ∀ tok ∈ ts, tok.WellFormed) : cmd.WellFormed := by
  cases line with
  | back times pipe =>
    exact wellFormed_back (pipe.wellFormed (List.forall_mem_append.mp ok).1) times
  | list times pipe line =>
    obtain ⟨front, back⟩ := List.forall_mem_append.mp ok
    refine ⟨wellFormed_back (pipe.wellFormed (List.forall_mem_append.mp front).1) times, ?_⟩
    exact line.wellFormed (List.forall_mem_cons.mp back).2
termination_by 3 * ts.length + 2
decreasing_by all_goals grind

theorem Pipe.wellFormed {ts : List Token} {cmd : Cmd} (pipe : Pipe ts cmd)
    (ok : ∀ tok ∈ ts, tok.WellFormed) : cmd.WellFormed := by
  cases pipe with
  | exec exec => exact exec.wellFormed ok
  | pipe exec pipe =>
    obtain ⟨front, back⟩ := List.forall_mem_append.mp ok
    exact ⟨exec.wellFormed front, pipe.wellFormed (List.forall_mem_cons.mp back).2⟩
termination_by 3 * ts.length + 1
decreasing_by all_goals grind

theorem Exec.wellFormed {ts : List Token} {cmd : Cmd} (exec : Exec ts cmd)
    (ok : ∀ tok ∈ ts, tok.WellFormed) : cmd.WellFormed := by
  cases exec with
  | simple simple few =>
    obtain ⟨words, redirs⟩ := simple.wellFormed ok
    exact wellFormed_around ⟨few, words⟩ redirs
  | block line simple =>
    obtain ⟨front, back⟩ := List.forall_mem_append.mp ok
    obtain ⟨-, redirs⟩ := simple.wellFormed (List.forall_mem_cons.mp back).2
    exact wellFormed_around (line.wellFormed (List.forall_mem_cons.mp front).2) redirs
termination_by 3 * ts.length
decreasing_by all_goals grind

end

/-- **The parser returns exactly the well-formed commands**, each of them for its text. -/
theorem parsecmd_text_iff (cmd : Cmd) : (parsecmd cmd.text = .ok cmd ↔ cmd.WellFormed) ∧
    ∀ s, parsecmd s = .ok cmd → cmd.WellFormed := by
  have only : ∀ s, parsecmd s = .ok cmd → cmd.WellFormed := by
    intro s parsed
    exact (line_of_parsecmd parsed).wellFormed (wellFormed_of_tokens rfl)
  refine ⟨⟨only cmd.text, fun ok => ?_⟩, only⟩
  refine parsecmd_of_line ?_
  rw [Cmd.text, tokens_written (wellFormed_spelling ok)]
  exact line_spelling ok

end Sh

end Xv6
