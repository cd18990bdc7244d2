/-
**xv6 `sh.c`: the parser accepts a grammar, and nothing else.**

`tokens s` is the text as `gettoken` cuts it. The grammar is over tokens and says which command a
list of them stands for:

```
line  ::=  pipe '&'* [';' line]
pipe  ::=  exec ['|' pipe]
exec  ::=  (word | redir)*  |  '(' line ')' redir*
redir ::=  ('<' | '>' | '>>') word
```

* `peek_eq`, `gettoken_eq` — what the parser sees of the text is its tokens.
* `Line`, `Pipe`, `Exec` — the derivations; a simple command has fewer than `MAXARGS` words.
* `sound` — what a parsing function accepts is derived, from the tokens up to the rest.
* `complete` — what is derived is accepted, given fuel and a rest that cannot go on.
* `parsecmd_iff` — **`parsecmd` returns a command exactly if the text stands for it.**
* `parsecmd_total` — the parser always comes to an end.
-/

import Mathlib.Logic.Function.Iterate
import SistemasOperacionais.Xv6.Sh
import Mathlib.Data.List.DropRight
import Mathlib.Data.List.TakeWhile

namespace Xv6

namespace Sh

/-! ### The tokens of a text -/

theorem length_skip_le (s : List Char) : (skip s).length ≤ s.length :=
  (List.dropWhile_suffix _).length_le

/-- Nothing is left to skip. -/
@[simp]
theorem skip_skip (s : List Char) : skip (skip s) = skip s :=
  List.dropWhile_idempotent _ s

theorem not_blank_of_skip {s rest : List Char} {c : Char} (skipped : skip s = c :: rest) :
    c ∉ whitespace := by
  induction s with
  | nil => cases skipped
  | cons d s ih =>
    unfold skip at skipped ih
    rw [List.dropWhile_cons] at skipped
    split at skipped
    · exact ih skipped
    · rename_i solid
      cases skipped
      simpa using solid

/-- A token takes something from the text. -/
theorem length_gettoken_lt {s rest : List Char} {tok : Token}
    (got : gettoken s = (some tok, rest)) : rest.length < s.length := by
  have before := length_skip_le s
  unfold gettoken at got
  split at got
  · cases got
  · rename_i text here
    cases got
    have after := length_skip_le text
    rw [here, List.length_cons, List.length_cons] at before
    omega
  · rename_i c text _ here
    rw [here, List.length_cons] at before
    split at got
    · cases got
      have after := length_skip_le text
      omega
    · rename_i plain
      cases got
      have word : isWord c = true := by simp [isWord, not_blank_of_skip here, plain]
      rw [List.dropWhile_cons_of_pos word]
      have after := length_skip_le (text.dropWhile isWord)
      have inside := (List.dropWhile_suffix (l := text) isWord).length_le
      omega

/-- **The text as `gettoken` cuts it.** -/
def tokens (s : List Char) : List Token :=
  match _got : gettoken s with
  | (none, _) => []
  | (some tok, rest) => tok :: tokens rest
termination_by s.length
decreasing_by exact length_gettoken_lt _got

theorem tokens_of_none {s rest : List Char} (got : gettoken s = (none, rest)) : tokens s = [] := by
  rw [tokens]
  split
  · rfl
  · rename_i here
    rw [got] at here
    cases here

theorem tokens_of_some {s rest : List Char} {tok : Token} (got : gettoken s = (some tok, rest)) :
    tokens s = tok :: tokens rest := by
  rw [tokens]
  split
  · rename_i here
    rw [got] at here
    cases here
  · rename_i here
    rw [got] at here
    cases here
    rfl

theorem length_tokens_le (s : List Char) : (tokens s).length ≤ s.length := by
  cases got : gettoken s with
  | mk tok rest =>
    cases tok with
    | none => simp [tokens_of_none got]
    | some tok =>
      have shorter := length_gettoken_lt got
      have inside := length_tokens_le rest
      rw [tokens_of_some got, List.length_cons]
      omega
termination_by s.length

theorem tokens_skip (s : List Char) : tokens (skip s) = tokens s := by
  have same : gettoken (skip s) = gettoken s := by rw [gettoken, gettoken, skip_skip]
  cases got : gettoken s with
  | mk tok rest =>
    cases tok with
    | none => rw [tokens_of_none got, tokens_of_none (same.trans got)]
    | some tok => rw [tokens_of_some got, tokens_of_some (same.trans got)]

/-- **What `gettoken` sees.** -/
theorem gettoken_of_cons {s : List Char} {tok : Token} {ts : List Token}
    (there : tokens s = tok :: ts) : ∃ rest, gettoken s = (some tok, rest) ∧ tokens rest = ts := by
  cases got : gettoken s with
  | mk found rest =>
    cases found with
    | none =>
      rw [tokens_of_none got] at there
      cases there
    | some found =>
      rw [tokens_of_some got] at there
      cases there
      exact ⟨rest, rfl, rfl⟩

theorem gettoken_of_nil {s : List Char} (there : tokens s = []) : gettoken s = (none, []) := by
  cases got : gettoken s with
  | mk found rest =>
    cases found with
    | none =>
      unfold gettoken at got
      split at got
      · exact got.symm
      · cases got
      · split at got <;> cases got
    | some found =>
      rw [tokens_of_some got] at there
      cases there

theorem tokens_eq_nil_iff {s : List Char} : tokens s = [] ↔ skip s = [] := by
  constructor
  · intro there
    have got := gettoken_of_nil there
    unfold gettoken at got
    split at got
    · assumption
    · cases got
    · split at got <;> cases got
  · intro nothing
    rw [← tokens_skip, nothing]
    exact tokens_of_none rfl

/-- The character that a token starts with, if it is not a word. -/
def Token.first : Token → Option Char
  | .symbol c => some c
  | .append => some '>'
  | .word _ => none

/-- The tokens start with one of the characters. -/
def starts (toks : List Char) : List Token → Bool
  | [] => false
  | tok :: _ => tok.first.any (· ∈ toks)

/-- **What `peek` sees.** -/
theorem peek_eq (s toks : List Char) (known : toks.all (· ∈ symbols) = true) :
    peek s toks = (starts toks (tokens s), skip s) := by
  rw [← tokens_skip s, peek]
  split
  · rename_i none
    have ended : gettoken [] = (Option.none, []) := rfl
    rw [none, tokens_of_none ended]
    rfl
  · rename_i c text here
    have solid : skip (c :: text) = c :: text := by rw [← here, skip_skip]
    rw [here]
    refine Prod.ext ?_ rfl
    show decide (c ∈ toks) = starts toks (tokens (c :: text))
    by_cases twice : ∃ rest, c = '>' ∧ text = '>' :: rest
    · obtain ⟨rest, rfl, rfl⟩ := twice
      have got : gettoken ('>' :: '>' :: rest) = (some .append, skip rest) := by
        simp only [gettoken, solid]
      rw [tokens_of_some got]
      rfl
    · have got : gettoken (c :: text) = if c ∈ symbols then (some (.symbol c), skip text)
          else (some (.word ((c :: text).takeWhile isWord)),
            skip ((c :: text).dropWhile isWord)) := by
        rw [gettoken, solid]
        split
        · simp_all
        · rename_i rest same
          cases same
          exact absurd ⟨rest, rfl, rfl⟩ twice
        · rename_i same
          cases same
          rfl
      by_cases symbol : c ∈ symbols
      · rw [if_pos symbol] at got
        rw [tokens_of_some got]
        rfl
      · rw [if_neg symbol] at got
        rw [tokens_of_some got]
        have foreign : c ∉ toks := fun member =>
          symbol (by simpa using List.all_eq_true.mp known c member)
        simpa [starts, Token.first] using foreign

/-! ### The grammar -/

/-- `'<'`, `'>'` or `'>>'` -/
def Token.isRedir (tok : Token) : Bool := tok.first.any (· ∈ ['<', '>'])

/-- **The words and redirections of a simple command**, in their order. -/
inductive Simple : List Token → List (List Char) → List Redir → Prop
  | nil : Simple [] [] []
  | word {text : List Char} {ts : List Token} {argv : List (List Char)} {redirs : List Redir} :
      Simple ts argv redirs → Simple (.word text :: ts) (text :: argv) redirs
  | redir {tok : Token} {file : List Char} {ts : List Token} {argv : List (List Char)}
      {redirs : List Redir} : tok.isRedir = true → Simple ts argv redirs →
      Simple (tok :: .word file :: ts) argv (redirOf (some tok) file :: redirs)

/-- The redirections around a command, the first one innermost. -/
def around (cmd : Cmd) (redirs : List Redir) : Cmd := redirs.foldl .redir cmd

mutual

/-- `line ::= pipe '&'* [';' line]` -/
inductive Line : List Token → Cmd → Prop
  | back {ts : List Token} {cmd : Cmd} (times : ℕ) : Pipe ts cmd →
      Line (ts ++ List.replicate times (.symbol '&')) (Cmd.back^[times] cmd)
  | list {ts rest : List Token} {cmd tail : Cmd} (times : ℕ) : Pipe ts cmd → Line rest tail →
      Line (ts ++ List.replicate times (.symbol '&') ++ .symbol ';' :: rest)
        (.list (Cmd.back^[times] cmd) tail)

/-- `pipe ::= exec ['|' pipe]` -/
inductive Pipe : List Token → Cmd → Prop
  | exec {ts : List Token} {cmd : Cmd} : Exec ts cmd → Pipe ts cmd
  | pipe {ts rest : List Token} {cmd tail : Cmd} : Exec ts cmd → Pipe rest tail →
      Pipe (ts ++ .symbol '|' :: rest) (.pipe cmd tail)

/-- `exec ::= (word | redir)* | '(' line ')' redir*` -/
inductive Exec : List Token → Cmd → Prop
  | simple {ts : List Token} {argv : List (List Char)} {redirs : List Redir} :
      Simple ts argv redirs → argv.length < maxArgs → Exec ts (around (.exec argv) redirs)
  | block {ts rest : List Token} {cmd : Cmd} {redirs : List Redir} : Line ts cmd →
      Simple rest [] redirs →
      Exec (.symbol '(' :: ts ++ .symbol ')' :: rest) (around cmd redirs)

end

theorem around_append (cmd : Cmd) (first second : List Redir) :
    around cmd (first ++ second) = around (around cmd first) second :=
  List.foldl_append ..

/-- An argument goes to the bottom. -/
theorem addArg_around (argv : List (List Char)) (redirs : List Redir) (text : List Char) :
    (around (.exec argv) redirs).addArg text = around (.exec (argv ++ [text])) redirs := by
  induction redirs using List.reverseRecOn with
  | nil => rfl
  | append_singleton redirs last ih =>
    rw [around_append, around_append, ← ih]
    rfl

theorem Simple.append {first second : List Token} {argv argv' : List (List Char)}
    {redirs redirs' : List Redir} (left : Simple first argv redirs)
    (right : Simple second argv' redirs') :
    Simple (first ++ second) (argv ++ argv') (redirs ++ redirs') := by
  induction left with
  | nil => exact right
  | word _ ih => exact .word ih
  | redir isRedir _ ih => exact .redir isRedir ih

/-! ### Soundness -/

/-- What `peek` has seen is the next token. -/
theorem exists_of_starts {toks : List Char} {ts : List Token} (seen : starts toks ts = true) :
    ∃ tok rest, ts = tok :: rest ∧ tok.first.any (· ∈ toks) = true := by
  cases ts with
  | nil => cases seen
  | cons tok rest => exact ⟨tok, rest, rfl, seen⟩

/-- After `peek` has seen a token, `gettoken` takes it. -/
theorem tokens_after {s : List Char} {tok : Token} {ts : List Token} (there : tokens s = tok :: ts) :
    tokens (gettoken (skip s)).2 = ts := by
  obtain ⟨rest, got, left⟩ := gettoken_of_cons ((tokens_skip s).trans there)
  rwa [got]

theorem tokens_of_starts {s : List Char} {c : Char} (single : c ≠ '>')
    (seen : starts [c] (tokens s) = true) :
    tokens s = .symbol c :: tokens (gettoken (skip s)).2 := by
  obtain ⟨tok, ts, there, first⟩ := exists_of_starts seen
  rw [tokens_after there, there]
  cases tok with
  | symbol d =>
    have same : d = c := by simpa [Token.first] using first
    rw [same]
  | append => exact absurd (by simpa [Token.first] using first) single.symm
  | word text => simp [Token.first] at first

theorem ok_of_bind {α β : Type} {x : Except Panic α} {f : α → Except Panic β} {result : β}
    (ran : (x >>= f) = .ok result) : ∃ a, x = .ok a ∧ f a = .ok result := by
  cases x with
  | error panic => cases ran
  | ok a => exact ⟨a, rfl, ran⟩

theorem parseredirs_sound (fuel : ℕ) {cmd result : Cmd} {s rest : List Char}
    (ran : parseredirs fuel cmd s = .ok (result, rest)) :
    ∃ used redirs, tokens s = used ++ tokens rest ∧ Simple used [] redirs ∧
      result = around cmd redirs := by
  induction fuel generalizing cmd s with
  | zero => cases ran
  | succ fuel ih =>
    rw [parseredirs, peek_eq s _ rfl] at ran
    cases seen : starts ['<', '>'] (tokens s) with
    | false =>
      rw [seen] at ran
      cases ran
      exact ⟨[], [], (tokens_skip s).symm, .nil, rfl⟩
    | true =>
      rw [seen] at ran
      obtain ⟨tok, ts, there, isRedir⟩ := exists_of_starts seen
      obtain ⟨middle, got, left⟩ := gettoken_of_cons ((tokens_skip s).trans there)
      simp only [got] at ran
      split at ran
      · rename_i file last word
        obtain ⟨used, redirs, tail, simple, rfl⟩ := ih ran
        refine ⟨tok :: .word file :: used, _ :: redirs, ?_, .redir isRedir simple, rfl⟩
        rw [there, ← left, tokens_of_some word, tail]
        rfl
      · cases ran

theorem parseargs_sound (fuel : ℕ) (argv : List (List Char)) {redirs : List Redir} {result : Cmd}
    {s rest : List Char} (few : argv.length < maxArgs)
    (ran : parseargs fuel (around (.exec argv) redirs) argv.length s = .ok (result, rest)) :
    ∃ used more outer, tokens s = used ++ tokens rest ∧ Simple used more outer ∧
      (argv ++ more).length < maxArgs ∧
      result = around (.exec (argv ++ more)) (redirs ++ outer) := by
  induction fuel generalizing argv redirs s with
  | zero => cases ran
  | succ fuel ih =>
    have done : ∃ used more outer, tokens s = used ++ tokens s ∧ Simple used more outer ∧
        (argv ++ more).length < maxArgs ∧
        around (.exec argv) redirs = around (.exec (argv ++ more)) (redirs ++ outer) :=
      ⟨[], [], [], rfl, .nil, by simpa using few, by simp⟩
    rw [parseargs, peek_eq s _ rfl] at ran
    cases seen : starts ['|', ')', '&', ';'] (tokens s) with
    | true =>
      rw [seen] at ran
      cases ran
      rwa [tokens_skip]
    | false =>
      rw [seen] at ran
      simp only at ran
      split at ran
      · rename_i ended
        cases ran
        have none := (tokens_skip s).symm.trans (tokens_of_none ended)
        have nothing : tokens rest = [] := by
          rw [gettoken_of_nil ((tokens_skip s).trans none)] at ended
          cases ended
          exact tokens_of_none rfl
        rwa [nothing, ← none]
      · rename_i text middle word
        split at ran
        · cases ran
        · obtain ⟨⟨cmd, after⟩, redirected, ran⟩ := ok_of_bind ran
          obtain ⟨used, inner, tail, simple, rfl⟩ := parseredirs_sound fuel redirected
          rw [addArg_around, ← around_append] at ran
          have more : (argv ++ [text]).length < maxArgs := by
            rw [List.length_append, List.length_singleton]
            omega
          obtain ⟨used', argv', outer, tail', simple', few', rfl⟩ :=
            ih _ more (by rw [List.length_append]; exact ran)
          refine ⟨.word text :: used ++ used', text :: argv', inner ++ outer, ?_,
            .word (simple.append simple'), by simpa using few', by simp⟩
          rw [← tokens_skip s, tokens_of_some word, tail, tail']
          simp only [List.append_assoc, List.cons_append]
      · cases ran

theorem parseback_sound (fuel : ℕ) {cmd result : Cmd} {s rest : List Char}
    (ran : parseback fuel cmd s = .ok (result, rest)) :
    ∃ times, tokens s = List.replicate times (.symbol '&') ++ tokens rest ∧
      result = Cmd.back^[times] cmd := by
  induction fuel generalizing cmd s with
  | zero => cases ran
  | succ fuel ih =>
    rw [parseback, peek_eq s _ rfl] at ran
    cases seen : starts ['&'] (tokens s) with
    | false =>
      rw [seen] at ran
      cases ran
      exact ⟨0, (tokens_skip s).symm, rfl⟩
    | true =>
      rw [seen] at ran
      obtain ⟨times, tail, rfl⟩ := ih ran
      refine ⟨times + 1, ?_, rfl⟩
      rw [tokens_of_starts (by decide) seen, tail]
      rfl

/-- What the four functions of the descent accept with this fuel. -/
structure Sound (fuel : ℕ) : Prop where
  line {s rest : List Char} {cmd : Cmd} : parseline fuel s = .ok (cmd, rest) →
    ∃ used, tokens s = used ++ tokens rest ∧ Line used cmd
  pipe {s rest : List Char} {cmd : Cmd} : parsepipe fuel s = .ok (cmd, rest) →
    ∃ used, tokens s = used ++ tokens rest ∧ Pipe used cmd
  exec {s rest : List Char} {cmd : Cmd} : parseexec fuel s = .ok (cmd, rest) →
    ∃ used, tokens s = used ++ tokens rest ∧ Exec used cmd
  block {s rest : List Char} {cmd : Cmd} : parseblock fuel s = .ok (cmd, rest) →
    ∃ used, tokens s = used ++ tokens rest ∧ Exec used cmd

theorem Sound.step_line {fuel : ℕ} (sound : Sound fuel) {s rest : List Char} {cmd : Cmd}
    (ran : parseline (fuel + 1) s = .ok (cmd, rest)) :
    ∃ used, tokens s = used ++ tokens rest ∧ Line used cmd := by
  rw [parseline] at ran
  obtain ⟨⟨first, middle⟩, piped, ran⟩ := ok_of_bind ran
  obtain ⟨⟨second, after⟩, backed, ran⟩ := ok_of_bind ran
  obtain ⟨used, front, pipe⟩ := sound.pipe piped
  obtain ⟨times, back, rfl⟩ := parseback_sound fuel backed
  simp only [peek_eq after [';'] rfl] at ran
  cases seen : starts [';'] (tokens after) with
  | false =>
    rw [seen] at ran
    cases ran
    refine ⟨_, ?_, .back times pipe⟩
    rw [front, back, tokens_skip, List.append_assoc]
  | true =>
    rw [seen] at ran
    obtain ⟨⟨tail, last⟩, lined, ran⟩ := ok_of_bind ran
    cases ran
    obtain ⟨used', end', line⟩ := sound.line lined
    refine ⟨_, ?_, .list times pipe line⟩
    rw [front, back, tokens_of_starts (by decide) seen, end']
    simp only [List.append_assoc, List.cons_append]

theorem Sound.step_pipe {fuel : ℕ} (sound : Sound fuel) {s rest : List Char} {cmd : Cmd}
    (ran : parsepipe (fuel + 1) s = .ok (cmd, rest)) :
    ∃ used, tokens s = used ++ tokens rest ∧ Pipe used cmd := by
  rw [parsepipe] at ran
  obtain ⟨⟨first, middle⟩, executed, ran⟩ := ok_of_bind ran
  obtain ⟨used, front, exec⟩ := sound.exec executed
  simp only [peek_eq middle ['|'] rfl] at ran
  cases seen : starts ['|'] (tokens middle) with
  | false =>
    rw [seen] at ran
    cases ran
    exact ⟨used, by rw [front, tokens_skip], .exec exec⟩
  | true =>
    rw [seen] at ran
    obtain ⟨⟨tail, last⟩, piped, ran⟩ := ok_of_bind ran
    cases ran
    obtain ⟨used', end', pipe⟩ := sound.pipe piped
    refine ⟨_, ?_, .pipe exec pipe⟩
    rw [front, tokens_of_starts (by decide) seen, end', List.append_assoc, List.cons_append]

theorem Sound.step_exec {fuel : ℕ} (sound : Sound fuel) {s rest : List Char} {cmd : Cmd}
    (ran : parseexec (fuel + 1) s = .ok (cmd, rest)) :
    ∃ used, tokens s = used ++ tokens rest ∧ Exec used cmd := by
  rw [parseexec, peek_eq s _ rfl] at ran
  cases seen : starts ['('] (tokens s) with
  | true =>
    rw [seen] at ran
    obtain ⟨used, all, exec⟩ := sound.block ran
    exact ⟨used, (tokens_skip s).symm.trans all, exec⟩
  | false =>
    rw [seen] at ran
    obtain ⟨⟨first, middle⟩, redirected, ran⟩ := ok_of_bind ran
    obtain ⟨used, redirs, front, simple, rfl⟩ := parseredirs_sound fuel redirected
    obtain ⟨used', argv, outer, back, simple', few, rfl⟩ :=
      parseargs_sound fuel [] (by decide) ran
    refine ⟨used ++ used', ?_, .simple (simple.append simple') few⟩
    rw [← tokens_skip s, front, back, List.append_assoc]

theorem Sound.step_block {fuel : ℕ} (sound : Sound fuel) {s rest : List Char} {cmd : Cmd}
    (ran : parseblock (fuel + 1) s = .ok (cmd, rest)) :
    ∃ used, tokens s = used ++ tokens rest ∧ Exec used cmd := by
  rw [parseblock, peek_eq s _ rfl] at ran
  cases opened : starts ['('] (tokens s) with
  | false =>
    rw [opened] at ran
    cases ran
  | true =>
    rw [opened] at ran
    obtain ⟨⟨inner, middle⟩, lined, ran⟩ := ok_of_bind ran
    obtain ⟨used, front, line⟩ := sound.line lined
    simp only [peek_eq middle [')'] rfl] at ran
    cases closed : starts [')'] (tokens middle) with
    | false =>
      rw [closed] at ran
      cases ran
    | true =>
      rw [closed] at ran
      obtain ⟨used', redirs, back, simple, rfl⟩ := parseredirs_sound fuel ran
      refine ⟨_, ?_, .block line simple⟩
      rw [tokens_of_starts (by decide) opened, front, tokens_of_starts (by decide) closed, back]
      simp only [List.append_assoc, List.cons_append]

/-- **What the parser accepts is derived.** -/
theorem sound (fuel : ℕ) : Sound fuel := by
  induction fuel with
  | zero => constructor <;> intro s rest cmd ran <;> cases ran
  | succ fuel ih => exact ⟨ih.step_line, ih.step_pipe, ih.step_exec, ih.step_block⟩

/-! ### Completeness -/

/-- The tokens are at an end, or start with one of the characters. -/
def Ends (toks : List Char) (ts : List Token) : Prop := ts = [] ∨ starts toks ts = true

theorem Ends.mono {toks more : List Char} {ts : List Token} (ends : Ends toks ts)
    (sub : toks.all (· ∈ more) = true) : Ends more ts := by
  refine ends.imp id fun seen => ?_
  obtain ⟨tok, rest, rfl, first⟩ := exists_of_starts seen
  obtain ⟨c, is, member⟩ := Option.any_eq_true _ _ |>.mp first
  exact (Option.any_eq_true _ _).mpr ⟨c, is, List.all_eq_true.mp sub c (by simpa using member)⟩

/-- What starts with one of the characters starts with none of the others. -/
theorem Ends.not_starts {toks : List Char} {ts : List Token} (ends : Ends toks ts)
    (other : List Char) (apart : toks.all (· ∉ other) = true) : starts other ts = false := by
  obtain rfl | seen := ends
  · rfl
  · obtain ⟨tok, rest, rfl, first⟩ := exists_of_starts seen
    obtain ⟨c, is, member⟩ := Option.any_eq_true _ _ |>.mp first
    have foreign := List.all_eq_true.mp apart c (by simpa using member)
    simpa [starts, is] using foreign

/-- The redirections that a simple command starts with, and the rest, which starts with a word. -/
theorem Simple.split {ts : List Token} {argv : List (List Char)} {redirs : List Redir}
    (simple : Simple ts argv redirs) : ∃ lead tail inner outer, ts = lead ++ tail ∧
      redirs = inner ++ outer ∧ Simple lead [] inner ∧ Simple tail argv outer ∧
      tail.head?.all (·.first = none) := by
  induction simple with
  | nil => exact ⟨[], [], [], [], rfl, rfl, .nil, .nil, rfl⟩
  | word rest _ => exact ⟨[], _, [], _, rfl, rfl, .nil, .word rest, rfl⟩
  | redir isRedir _ ih =>
    obtain ⟨lead, tail, inner, outer, rfl, rfl, front, back, solid⟩ := ih
    exact ⟨_, tail, _, outer, rfl, rfl, .redir isRedir front, back, solid⟩

theorem starts_append_of_solid {toks : List Char} {tail after : List Token}
    (solid : tail.head?.all (·.first = none)) (stop : starts toks after = false) :
    starts toks (tail ++ after) = false := by
  cases tail with
  | nil => exact stop
  | cons tok tail =>
    have word : tok.first = none := by simpa using solid
    simp [starts, word]

theorem parseredirs_complete (fuel : ℕ) (cmd : Cmd) {lead after : List Token} {redirs : List Redir}
    {s : List Char} (simple : Simple lead [] redirs) (enough : lead.length < fuel)
    (all : tokens s = lead ++ after) (stop : starts ['<', '>'] after = false) :
    ∃ rest, parseredirs fuel cmd s = .ok (around cmd redirs, rest) ∧ tokens rest = after := by
  induction fuel generalizing lead redirs cmd s with
  | zero => cases enough
  | succ fuel ih =>
    rw [parseredirs, peek_eq s _ rfl, all]
    cases simple with
    | nil =>
      rw [List.nil_append, stop]
      exact ⟨skip s, rfl, (tokens_skip s).trans all⟩
    | @redir tok file ts _ redirs isRedir simple =>
      have seen : starts ['<', '>'] (tok :: .word file :: ts ++ after) = true := isRedir
      obtain ⟨middle, got, left⟩ := gettoken_of_cons ((tokens_skip s).trans all)
      obtain ⟨last, word, left⟩ := gettoken_of_cons left
      have less : ts.length < fuel := by
        simp only [List.length_cons] at enough
        omega
      simp only [seen, got, word]
      exact ih _ simple less left

theorem parseargs_complete (fuel : ℕ) (argv : List (List Char)) (redirs : List Redir)
    {more : List (List Char)} {outer : List Redir} {tail after : List Token} {s : List Char} (simple : Simple tail more outer)
    (solid : tail.head?.all (·.first = none)) (few : (argv ++ more).length < maxArgs)
    (enough : tail.length < fuel) (all : tokens s = tail ++ after)
    (ends : Ends ['|', ')', '&', ';'] after) :
    ∃ rest, parseargs fuel (around (.exec argv) redirs) argv.length s =
        .ok (around (.exec (argv ++ more)) (redirs ++ outer), rest) ∧ tokens rest = after := by
  induction fuel generalizing argv more redirs outer tail s with
  | zero => cases enough
  | succ fuel ih =>
    rw [parseargs, peek_eq s _ rfl, all]
    cases simple with
    | nil =>
      rw [List.append_nil, List.append_nil, List.nil_append]
      obtain rfl | seen := ends
      · have ended := gettoken_of_nil ((tokens_skip s).trans all)
        simp only [starts, ended]
        exact ⟨[], rfl, tokens_of_none rfl⟩
      · rw [seen]
        exact ⟨skip s, rfl, (tokens_skip s).trans all⟩
    | @word text ts more outer simple =>
      have unseen : starts ['|', ')', '&', ';'] (.word text :: ts ++ after) = false := rfl
      obtain ⟨middle, word, left⟩ := gettoken_of_cons ((tokens_skip s).trans all)
      obtain ⟨lead, tail, inner, outer, rfl, rfl, front, back, solid⟩ := simple.split
      have room : ¬ argv.length + 1 ≥ maxArgs := by
        simp only [List.length_append, List.length_cons] at few
        omega
      simp only [List.length_cons, List.length_append] at enough
      have stop := starts_append_of_solid solid (ends.not_starts ['<', '>'] rfl)
      obtain ⟨last, redirected, left⟩ := parseredirs_complete fuel
        (around (.exec (argv ++ [text])) redirs) front (by omega)
        (left.trans (List.append_assoc ..)) stop
      obtain ⟨rest, parsed, left⟩ := ih (argv ++ [text]) (redirs ++ inner) back
        solid (by simpa using few) (by omega) left
      refine ⟨rest, ?_, left⟩
      rw [List.length_append, List.append_assoc, List.append_assoc, around_append] at parsed
      simp only [unseen, word, if_neg room, addArg_around, redirected]
      exact parsed
    | redir isRedir simple =>
      have word := solid
      simp only [List.head?_cons, Option.all_some, decide_eq_true_eq] at word
      simp [Token.isRedir, word] at isRedir

theorem parseback_complete (fuel : ℕ) (cmd : Cmd) {times : ℕ} {after : List Token} {s : List Char}
    (enough : times < fuel) (all : tokens s = List.replicate times (.symbol '&') ++ after)
    (stop : starts ['&'] after = false) :
    ∃ rest, parseback fuel cmd s = .ok (Cmd.back^[times] cmd, rest) ∧ tokens rest = after := by
  induction fuel generalizing times cmd s with
  | zero => cases enough
  | succ fuel ih =>
    rw [parseback, peek_eq s _ rfl, all]
    cases times with
    | zero =>
      rw [List.replicate_zero, List.nil_append, stop]
      exact ⟨skip s, rfl, (tokens_skip s).trans all⟩
    | succ times =>
      exact ih _ (Nat.lt_of_succ_lt_succ enough) (tokens_after all)

/-- What the four functions of the descent return with this fuel. -/
structure Complete (fuel : ℕ) : Prop where
  line {used after : List Token} {cmd : Cmd} {s : List Char} : Line used cmd →
    4 * used.length + 4 ≤ fuel → tokens s = used ++ after → Ends [')'] after →
    ∃ rest, parseline fuel s = .ok (cmd, rest) ∧ tokens rest = after
  pipe {used after : List Token} {cmd : Cmd} {s : List Char} : Pipe used cmd →
    4 * used.length + 3 ≤ fuel → tokens s = used ++ after → Ends [')', '&', ';'] after →
    ∃ rest, parsepipe fuel s = .ok (cmd, rest) ∧ tokens rest = after
  exec {used after : List Token} {cmd : Cmd} {s : List Char} : Exec used cmd →
    4 * used.length + 2 ≤ fuel → tokens s = used ++ after → Ends ['|', ')', '&', ';'] after →
    ∃ rest, parseexec fuel s = .ok (cmd, rest) ∧ tokens rest = after
  block {used rest after : List Token} {redirs : List Redir} {cmd : Cmd} {s : List Char} :
    Line used cmd → Simple rest [] redirs → 4 * (used.length + rest.length) + 9 ≤ fuel →
    tokens s = .symbol '(' :: used ++ .symbol ')' :: rest ++ after →
    Ends ['|', ')', '&', ';'] after →
    ∃ rest, parseblock fuel s = .ok (around cmd redirs, rest) ∧ tokens rest = after

theorem ends_replicate {after : List Token} (times : ℕ) (ends : Ends [')', '&', ';'] after) :
    Ends [')', '&', ';'] (List.replicate times (.symbol '&') ++ after) := by
  cases times with
  | zero => exact ends
  | succ times => exact .inr rfl

theorem Complete.step_line {fuel : ℕ} (complete : Complete fuel) {used after : List Token}
    {cmd : Cmd} {s : List Char} (line : Line used cmd) (enough : 4 * used.length + 4 ≤ fuel + 1)
    (all : tokens s = used ++ after) (ends : Ends [')'] after) :
    ∃ rest, parseline (fuel + 1) s = .ok (cmd, rest) ∧ tokens rest = after := by
  cases line with
  | @back ts cmd times pipe =>
    rw [List.length_append, List.length_replicate] at enough
    obtain ⟨middle, piped, left⟩ := complete.pipe pipe (by omega)
      (all.trans (List.append_assoc ..)) (ends_replicate times (ends.mono rfl))
    obtain ⟨last, backed, left⟩ := parseback_complete fuel cmd (by omega) left
      (ends.not_starts _ rfl)
    refine ⟨skip last, ?_, (tokens_skip last).trans left⟩
    have stop := ends.not_starts [';'] rfl
    simp only [parseline, piped, backed, bind, Except.bind, peek_eq last [';'] rfl, left,
      stop]
  | @list ts rest cmd tail times pipe line =>
    simp only [List.length_append, List.length_replicate, List.length_cons] at enough
    obtain ⟨middle, piped, left⟩ := complete.pipe pipe (by omega)
      (by simpa only [List.append_assoc] using all) (ends_replicate times (.inr rfl))
    obtain ⟨last, backed, left⟩ := parseback_complete fuel cmd (by omega) left rfl
    obtain ⟨final, lined, left'⟩ := complete.line line (by omega) (tokens_after left) ends
    refine ⟨final, ?_, left'⟩
    have seen : starts [';'] (tokens last) = true := by rw [left]; rfl
    simp only [parseline, piped, backed, bind, Except.bind, peek_eq last [';'] rfl, seen,
      lined]

theorem Complete.step_pipe {fuel : ℕ} (complete : Complete fuel) {used after : List Token}
    {cmd : Cmd} {s : List Char} (pipe : Pipe used cmd) (enough : 4 * used.length + 3 ≤ fuel + 1)
    (all : tokens s = used ++ after) (ends : Ends [')', '&', ';'] after) :
    ∃ rest, parsepipe (fuel + 1) s = .ok (cmd, rest) ∧ tokens rest = after := by
  cases pipe with
  | exec exec =>
    obtain ⟨last, executed, left⟩ := complete.exec exec (by omega) all (ends.mono rfl)
    refine ⟨skip last, ?_, (tokens_skip last).trans left⟩
    have stop := ends.not_starts ['|'] rfl
    simp only [parsepipe, executed, bind, Except.bind, peek_eq last ['|'] rfl, left, stop]
  | @pipe ts rest cmd tail exec pipe =>
    simp only [List.length_append, List.length_cons] at enough
    obtain ⟨last, executed, left⟩ := complete.exec exec (by omega)
      (by simpa only [List.append_assoc] using all) (.inr rfl)
    obtain ⟨final, piped, left'⟩ := complete.pipe pipe (by omega) (tokens_after left) ends
    refine ⟨final, ?_, left'⟩
    have seen : starts ['|'] (tokens last) = true := by rw [left]; rfl
    simp only [parsepipe, executed, bind, Except.bind, peek_eq last ['|'] rfl, seen, piped]

theorem Complete.step_exec {fuel : ℕ} (complete : Complete fuel) {used after : List Token}
    {cmd : Cmd} {s : List Char} (exec : Exec used cmd) (enough : 4 * used.length + 2 ≤ fuel + 1)
    (all : tokens s = used ++ after) (ends : Ends ['|', ')', '&', ';'] after) :
    ∃ rest, parseexec (fuel + 1) s = .ok (cmd, rest) ∧ tokens rest = after := by
  rw [parseexec, peek_eq s _ rfl]
  cases exec with
  | simple simple few =>
    obtain ⟨lead, tail, inner, outer, rfl, rfl, front, back, solid⟩ := simple.split
    rw [List.length_append] at enough
    rw [List.append_assoc] at all
    have stop := starts_append_of_solid solid (ends.not_starts ['<', '>'] rfl)
    obtain ⟨middle, redirected, left⟩ := parseredirs_complete fuel (.exec []) front (by omega)
      ((tokens_skip s).trans all) stop
    obtain ⟨rest, parsed, left⟩ := parseargs_complete fuel [] inner back solid
      few (by omega) left ends
    refine ⟨rest, ?_, left⟩
    have unseen : starts ['('] (tokens s) = false := by
      rw [all]
      cases front with
      | nil =>
        rw [List.nil_append]
        exact starts_append_of_solid solid (ends.not_starts _ rfl)
      | @redir tok file ts _ _ isRedir _ =>
        have redir : Ends ['<', '>'] (tok :: .word file :: ts ++ (tail ++ after)) := .inr isRedir
        exact redir.not_starts _ rfl
    simp only [unseen, redirected, bind, Except.bind]
    exact parsed
  | @block ts rest cmd redirs line simple =>
    simp only [List.length_append, List.length_cons] at enough
    have seen : starts ['('] (tokens s) = true := by rw [all]; rfl
    rw [seen]
    exact complete.block line simple (by omega) ((tokens_skip s).trans all) ends

theorem Complete.step_block {fuel : ℕ} (complete : Complete fuel) {used rest after : List Token}
    {redirs : List Redir} {cmd : Cmd} {s : List Char} (line : Line used cmd)
    (simple : Simple rest [] redirs) (enough : 4 * (used.length + rest.length) + 9 ≤ fuel + 1)
    (all : tokens s = .symbol '(' :: used ++ .symbol ')' :: rest ++ after)
    (ends : Ends ['|', ')', '&', ';'] after) :
    ∃ rest, parseblock (fuel + 1) s = .ok (around cmd redirs, rest) ∧ tokens rest = after := by
  simp only [List.append_assoc, List.cons_append] at all
  obtain ⟨middle, lined, left⟩ := complete.line line (by omega) (tokens_after all) (.inr rfl)
  obtain ⟨final, redirected, left'⟩ := parseredirs_complete fuel cmd simple (by omega)
    (tokens_after left) (ends.not_starts _ rfl)
  refine ⟨final, ?_, left'⟩
  have opened : starts ['('] (tokens s) = true := by rw [all]; rfl
  have closed : starts [')'] (tokens middle) = true := by rw [left]; rfl
  simp only [parseblock, peek_eq s ['('] rfl, opened, lined, bind, Except.bind,
    peek_eq middle [')'] rfl, closed, redirected]

/-- **What is derived is accepted.** -/
theorem complete (fuel : ℕ) : Complete fuel := by
  induction fuel with
  | zero => constructor <;> intros <;> omega
  | succ fuel ih => exact ⟨ih.step_line, ih.step_pipe, ih.step_exec, ih.step_block⟩

theorem fuelFor_le (s : List Char) : 4 * (tokens s).length + 4 ≤ fuelFor s.length := by
  have := length_tokens_le s
  unfold fuelFor
  omega

theorem line_of_parsecmd {s : List Char} {cmd : Cmd} (ran : parsecmd s = .ok cmd) :
    Line (tokens s) cmd := by
  obtain ⟨⟨result, rest⟩, lined, ran⟩ := ok_of_bind ran
  obtain ⟨used, all, line⟩ := (sound _).line lined
  simp only [peek_eq rest [] rfl] at ran
  split at ran
  · rename_i ended
    cases ran
    have nothing := tokens_eq_nil_iff.mpr (Prod.mk.inj ended).2
    rwa [all, nothing, List.append_nil]
  · cases ran

theorem parsecmd_of_line {s : List Char} {cmd : Cmd} (line : Line (tokens s) cmd) :
    parsecmd s = .ok cmd := by
  obtain ⟨rest, lined, left⟩ :=
    (complete _).line line (fuelFor_le s) (List.append_nil _).symm (.inl rfl)
  have ended := tokens_eq_nil_iff.mp left
  simp only [parsecmd, lined, bind, Except.bind, peek_eq rest [] rfl, ended]

/-- **`parsecmd` returns a command exactly if the text stands for it.** -/
theorem parsecmd_iff (s : List Char) (cmd : Cmd) : parsecmd s = .ok cmd ↔ Line (tokens s) cmd :=
  ⟨line_of_parsecmd, parsecmd_of_line⟩

/-! ### Fuel -/

theorem error_of_bind {α β : Type} {x : Except Panic α} {f : α → Except Panic β} {panic : Panic}
    (ran : (x >>= f) = .error panic) : x = .error panic ∨ ∃ a, x = .ok a ∧ f a = .error panic := by
  cases x with
  | error _ =>
    cases ran
    exact .inl rfl
  | ok a => exact .inr ⟨a, rfl, ran⟩

/-- With as many steps as there are tokens, and one more, the loops come to an end. -/
theorem parseredirs_fuel (fuel : ℕ) {cmd : Cmd} {s : List Char}
    (enough : (tokens s).length < fuel) : parseredirs fuel cmd s ≠ .error .fuel := by
  induction fuel generalizing cmd s with
  | zero => cases enough
  | succ fuel ih =>
    rw [parseredirs, peek_eq s _ rfl]
    cases seen : starts ['<', '>'] (tokens s) with
    | false => simp
    | true =>
      obtain ⟨tok, ts, there, -⟩ := exists_of_starts seen
      have left := tokens_after there
      simp only
      split
      · rename_i file last word
        rw [tokens_of_some word] at left
        rw [there, ← left] at enough
        simp only [List.length_cons] at enough
        exact ih (by omega)
      · simp

theorem parseargs_fuel (fuel : ℕ) {cmd : Cmd} {argc : ℕ} {s : List Char}
    (enough : (tokens s).length < fuel) : parseargs fuel cmd argc s ≠ .error .fuel := by
  induction fuel generalizing cmd argc s with
  | zero => cases enough
  | succ fuel ih =>
    rw [parseargs, peek_eq s _ rfl]
    cases seen : starts ['|', ')', '&', ';'] (tokens s) with
    | true => simp
    | false =>
      simp only
      split
      · simp
      · rename_i text middle word
        rw [← tokens_skip, tokens_of_some word, List.length_cons] at enough
        split
        · simp
        · intro ran
          obtain stuck | ⟨⟨ret, rest⟩, redirected, stuck⟩ := error_of_bind ran
          · exact parseredirs_fuel fuel (by omega) stuck
          · obtain ⟨used, -, all, -⟩ := parseredirs_sound fuel redirected
            rw [all, List.length_append] at enough
            have less : (tokens rest).length < fuel := by omega
            exact ih less stuck
      · simp

theorem parseback_fuel (fuel : ℕ) {cmd : Cmd} {s : List Char}
    (enough : (tokens s).length < fuel) : parseback fuel cmd s ≠ .error .fuel := by
  induction fuel generalizing cmd s with
  | zero => cases enough
  | succ fuel ih =>
    rw [parseback, peek_eq s _ rfl]
    cases seen : starts ['&'] (tokens s) with
    | false => simp
    | true =>
      rw [tokens_of_starts (by decide) seen] at enough
      exact ih (Nat.lt_of_succ_lt_succ enough)

/-- The functions of the descent do not run out of this fuel. -/
structure Enough (fuel : ℕ) : Prop where
  line {s : List Char} : 4 * (tokens s).length + 4 ≤ fuel → parseline fuel s ≠ .error .fuel
  pipe {s : List Char} : 4 * (tokens s).length + 3 ≤ fuel → parsepipe fuel s ≠ .error .fuel
  exec {s : List Char} : 4 * (tokens s).length + 2 ≤ fuel → parseexec fuel s ≠ .error .fuel
  block {s : List Char} : 4 * (tokens s).length + 1 ≤ fuel → parseblock fuel s ≠ .error .fuel

theorem Enough.step_line {fuel : ℕ} (ends : Enough fuel) {s : List Char}
    (enough : 4 * (tokens s).length + 4 ≤ fuel + 1) : parseline (fuel + 1) s ≠ .error .fuel := by
  rw [parseline]
  intro ran
  obtain stuck | ⟨⟨first, middle⟩, piped, ran⟩ := error_of_bind ran
  · exact ends.pipe (by omega) stuck
  obtain ⟨used, front, -⟩ := (sound fuel).pipe piped
  rw [front, List.length_append] at enough
  obtain stuck | ⟨⟨second, after⟩, backed, ran⟩ := error_of_bind ran
  · exact parseback_fuel fuel (by omega) stuck
  obtain ⟨times, back, -⟩ := parseback_sound fuel backed
  rw [back, List.length_append] at enough
  simp only [peek_eq after [';'] rfl] at ran
  cases seen : starts [';'] (tokens after) with
  | false =>
    rw [seen] at ran
    cases ran
  | true =>
    rw [seen] at ran
    rw [tokens_of_starts (by decide) seen, List.length_cons] at enough
    obtain stuck | ⟨tail, -, ran⟩ := error_of_bind ran
    · exact ends.line (by omega) stuck
    · cases ran

theorem Enough.step_pipe {fuel : ℕ} (ends : Enough fuel) {s : List Char}
    (enough : 4 * (tokens s).length + 3 ≤ fuel + 1) : parsepipe (fuel + 1) s ≠ .error .fuel := by
  rw [parsepipe]
  intro ran
  obtain stuck | ⟨⟨first, middle⟩, executed, ran⟩ := error_of_bind ran
  · exact ends.exec (by omega) stuck
  obtain ⟨used, front, -⟩ := (sound fuel).exec executed
  rw [front, List.length_append] at enough
  simp only [peek_eq middle ['|'] rfl] at ran
  cases seen : starts ['|'] (tokens middle) with
  | false =>
    rw [seen] at ran
    cases ran
  | true =>
    rw [seen] at ran
    rw [tokens_of_starts (by decide) seen, List.length_cons] at enough
    obtain stuck | ⟨tail, -, ran⟩ := error_of_bind ran
    · exact ends.pipe (by omega) stuck
    · cases ran

theorem Enough.step_exec {fuel : ℕ} (ends : Enough fuel) {s : List Char}
    (enough : 4 * (tokens s).length + 2 ≤ fuel + 1) : parseexec (fuel + 1) s ≠ .error .fuel := by
  rw [parseexec, peek_eq s _ rfl]
  rw [← tokens_skip] at enough
  cases starts ['('] (tokens s) with
  | true => exact ends.block (by omega)
  | false =>
    intro ran
    obtain stuck | ⟨⟨ret, middle⟩, redirected, stuck⟩ := error_of_bind ran
    · exact parseredirs_fuel fuel (by omega) stuck
    · obtain ⟨used, -, front, -⟩ := parseredirs_sound fuel redirected
      rw [front, List.length_append] at enough
      exact parseargs_fuel fuel (by omega) stuck

theorem Enough.step_block {fuel : ℕ} (ends : Enough fuel) {s : List Char}
    (enough : 4 * (tokens s).length + 1 ≤ fuel + 1) : parseblock (fuel + 1) s ≠ .error .fuel := by
  rw [parseblock, peek_eq s _ rfl]
  cases opened : starts ['('] (tokens s) with
  | false => simp
  | true =>
    rw [tokens_of_starts (by decide) opened, List.length_cons] at enough
    intro ran
    obtain stuck | ⟨⟨inner, middle⟩, lined, ran⟩ := error_of_bind ran
    · exact ends.line (by omega) stuck
    obtain ⟨used, front, -⟩ := (sound fuel).line lined
    rw [front, List.length_append] at enough
    simp only [peek_eq middle [')'] rfl] at ran
    cases closed : starts [')'] (tokens middle) with
    | false =>
      rw [closed] at ran
      cases ran
    | true =>
      rw [closed] at ran
      rw [tokens_of_starts (by decide) closed, List.length_cons] at enough
      exact parseredirs_fuel fuel (by omega) ran

theorem enough (fuel : ℕ) : Enough fuel := by
  induction fuel with
  | zero => constructor <;> intros <;> omega
  | succ fuel ih => exact ⟨ih.step_line, ih.step_pipe, ih.step_exec, ih.step_block⟩

/-- **The parser comes to an end on every text**: with a command, or with one of the panics of the
source. -/
theorem parsecmd_total (s : List Char) : parsecmd s ≠ .error .fuel := by
  intro ran
  obtain stuck | ⟨⟨cmd, rest⟩, -, ran⟩ := error_of_bind ran
  · exact (enough _).line (fuelFor_le s) stuck
  · simp only at ran
    split at ran <;> cases ran

end Sh

end Xv6
