/-
**`shellsimples.c`: how a line becomes a command.**

The loop of `main` reads a line into `lc`, cuts it at the blanks with `strtok`, keeps the pointers in
`argv`, and lets a child call `execvp` with them. The loop that fills `argv` stops at the first `NULL`
that `strtok` returns, which it stores, or at the end of the array.

* `volta` — one pass of the loop; `shell` — a run of it on the lines typed. Where `strcmp` gets `NULL`
  the pass is `nulo`.
* `acao`, `sessao` — what the shell is for: the words of every line are executed, up to `exit`.
* `preenche_spec`, `volta_palavra` — what the loop stores, and what a pass does, in terms of the words
  of the line.
* `command_splitting` — **a line is split as it should if and only if it has a word, and is `exit` or
  has at most 19 words.** `blanks_and_many_words`: it is not if it is blank, or has 20 words.
* `shell_refines` — **on such lines a run does what they ask for.**

The banner, the prompt and the end of the input are left out.
-/

import SistemasOperacionais.Data.CString
import Mathlib.Data.List.Forall2

namespace ShellSimples

open CString

/-! ### The code -/

/-- A line that fits `lc[81]`. -/
structure Linha where
  texto : List Char
  cabe : texto.length ≤ 80
  limpa : nul ∉ texto

/-- `lc`, the pointer `strtok` keeps, and `argv`. -/
structure Estado where
  lc : List Char
  saved : ℕ
  argv : List (Option ℕ)
  lc81 : lc.length = 81
  argv20 : argv.length = 20

/-- `strtok(start, " ")` -/
def palavra (start : Option ℕ) (st : State) : Option ℕ × State := strtok (· = ' ') start st

/-- What `gets` leaves. -/
def gets (linha : Linha) (s : Estado) : State :=
  ⟨linha.texto ++ nul :: s.lc.drop (linha.texto.length + 1), s.saved⟩

/-- `while( i < 20 && (argv[ i ] = strtok( NULL, " " )) ) ++i;`, on the elements of `argv` from `i`
on. -/
def preenche : List (Option ℕ) → State → List (Option ℕ) × State
  | [], st => ([], st)
  | _ :: resto, st =>
      match palavra none st with
      | (none, st) => (none :: resto, st)
      | (some p, st) =>
          let (argumentos, st) := preenche resto st
          (some p :: argumentos, st)

theorem length_gets (linha : Linha) (s : Estado) : (gets linha s).buffer.length = 81 := by
  have short := linha.cabe
  have size := s.lc81
  rw [gets, List.length_append, List.length_cons, List.length_drop]
  omega

theorem length_preenche (vago : List (Option ℕ)) (st : State) :
    (preenche vago st).1.length = vago.length ∧
      (preenche vago st).2.buffer.length = st.buffer.length := by
  induction vago generalizing st with
  | nil => exact ⟨rfl, rfl⟩
  | cons antes resto ih =>
    have size := length_strtok (· = ' ') none st
    unfold preenche
    split
    · rename_i st' ran
      rw [← palavra, ran] at size
      exact ⟨rfl, size⟩
    · rename_i p st' ran
      rw [← palavra, ran] at size
      exact ⟨congrArg (· + 1) (ih st').1, (ih st').2.trans size⟩

/-- `argv[0]` -/
def comando (linha : Linha) (s : Estado) : Option ℕ × State := palavra (some 0) (gets linha s)

/-- `lc` and `argv` at `fork`, with the command at `p`. -/
def separa (linha : Linha) (s : Estado) (p : ℕ) : Estado where
  lc := (preenche s.argv.tail (comando linha s).2).2.buffer
  saved := (preenche s.argv.tail (comando linha s).2).2.saved
  argv := some p :: (preenche s.argv.tail (comando linha s).2).1
  lc81 := by
    rw [(length_preenche _ _).2, comando, palavra, length_strtok, length_gets]
  argv20 := by
    rw [List.length_cons, (length_preenche _ _).1, List.length_tail, s.argv20]

/-- How a pass of the loop ends. -/
inductive Passo
  /-- `continue` -/
  | continua (s : Estado)
  /-- a child calls `execvp` with this `argv`, and the loop goes on -/
  | executa (s : Estado)
  /-- `exit(0)` -/
  | sai
  /-- `Erro no fork`, and `exit(1)` -/
  | erroFork
  /-- `strcmp` gets `NULL` -/
  | nulo

/-- **One pass of the loop**; `nasce` is whether `fork` succeeds. -/
def volta (nasce : Bool) (linha : Linha) (s : Estado) : Passo :=
  if cstr (gets linha s).buffer 0 = [] then
    .continua ⟨(gets linha s).buffer, s.saved, s.argv, length_gets linha s, s.argv20⟩
  else
    match (comando linha s).1 with
    | none => .nulo
    | some p =>
      if cstr (comando linha s).2.buffer p = "exit".toList then .sai
      else if nasce then .executa (separa linha s p)
      else .erroFork

/-- **A run**: the passes for the lines typed, until one ends the program. -/
def shell (s : Estado) : List (Bool × Linha) → List Passo
  | [] => []
  | (nasce, linha) :: resto =>
      match volta nasce linha s with
      | .continua s => .continua s :: shell s resto
      | .executa s => .executa s :: shell s resto
      | fim => [fim]

/-! ### What the shell is for -/

/-- The words of a line. -/
def palavras (linha : Linha) : List (List Char) := tokens (· = ' ') linha.texto

inductive Acao
  | nada
  | executa (palavras : List (List Char))
  | sai
  | erroFork
  deriving DecidableEq, Repr

/-- **What a line asks for.** -/
def acao (nasce : Bool) (linha : Linha) : Acao :=
  if linha.texto = [] then .nada
  else if (palavras linha).head? = some "exit".toList then .sai
  else if nasce then .executa (palavras linha)
  else .erroFork

def sessao : List (Bool × Linha) → List Acao
  | [] => []
  | (nasce, linha) :: resto =>
      match acao nasce linha with
      | .nada => .nada :: sessao resto
      | .executa palavras => .executa palavras :: sessao resto
      | fim => [fim]

/-- `argv` is a list of pointers with a `NULL` behind them, and they point to these words. -/
def Termina (s : Estado) (palavras : List (List Char)) : Prop :=
  ∃ (ponteiros : List ℕ) (resto : List (Option ℕ)),
    s.argv = ponteiros.map some ++ none :: resto ∧ ponteiros.map (cstr s.lc) = palavras

/-- A pass does what the line asks for. -/
inductive Faz : Passo → Acao → Prop
  | nada (s : Estado) : Faz (.continua s) .nada
  | executa {s : Estado} {palavras : List (List Char)} : Termina s palavras →
      Faz (.executa s) (.executa palavras)
  | sai : Faz .sai .sai
  | erroFork : Faz .erroFork .erroFork

/-- **A line is split as it should**: `strcmp` does not get `NULL`, and `execvp` gets the words of the
line with a `NULL` behind them, inside `argv`. -/
structure Separa (s : Estado) (linha : Linha) : Prop where
  comando : ∀ nasce, volta nasce linha s ≠ .nulo
  vetor : ∀ nasce after, volta nasce linha s = .executa after → Termina after (palavras linha)

/-! ### One pass -/

theorem holds_gets (linha : Linha) (s : Estado) : Holds (gets linha s).buffer 0 linha.texto := by
  refine ⟨linha.limpa, s.lc.drop (linha.texto.length + 1), ?_⟩
  rw [List.append_assoc]
  rfl

/-- **What the loop stores**: the tokens that are left, with a `NULL` behind them if there is room. -/
theorem preenche_spec {st : State} {words : List (ℕ × List Char)} {rest : List Char}
    (vago : List (Option ℕ)) (found : Found st words rest) :
    ∃ (more : List (ℕ × List Char)) (left : List Char),
      Found (preenche vago st).2 (words ++ more) left ∧
      more.map Prod.snd = (tokens (· = ' ') rest).take vago.length ∧
      ((tokens (· = ' ') rest).length < vago.length → ∃ resto,
        (preenche vago st).1 = (more.map Prod.fst).map some ++ none :: resto) ∧
      (vago.length ≤ (tokens (· = ' ') rest).length →
        (preenche vago st).1 = (more.map Prod.fst).map some) := by
  induction vago generalizing st words rest with
  | nil =>
    refine ⟨[], rest, ?_, rfl, nofun, fun _ => rfl⟩
    rw [List.append_nil]
    exact found
  | cons antes vago ih =>
    cases more : next (· = ' ') rest with
    | none =>
      obtain ⟨after, ran, stopped⟩ := found.stop more
      have step : preenche (antes :: vago) st = (none :: vago, after) := by
        rw [preenche, palavra, ran]
      rw [step, tokens_of_none more]
      refine ⟨[], [], ?_, rfl, fun _ => ⟨vago, rfl⟩, nofun⟩
      rw [List.append_nil]
      exact stopped
    | some pair =>
      obtain ⟨token, behind⟩ := pair
      obtain ⟨first, after, ran, longer⟩ := found.call more
      have step : preenche (antes :: vago) st =
          (some first :: (preenche vago after).1, (preenche vago after).2) := by
        rw [preenche, palavra, ran]
      obtain ⟨others, left, found, words, room, full⟩ := ih longer
      rw [step, tokens_of_some more]
      refine ⟨(first, token) :: others, left, ?_, ?_, fun less => ?_, fun most => ?_⟩
      · rwa [List.append_assoc] at found
      · rw [List.map_cons, words, List.length_cons, List.take_succ_cons]
      · obtain ⟨resto, stored⟩ := room (by simpa using less)
        exact ⟨resto, congrArg (some first :: ·) stored⟩
      · exact congrArg (some first :: ·) (full (by simpa using most))

section Volta

variable {nasce : Bool} {linha : Linha} {s : Estado} {w : List Char} {ws : List (List Char)}

/-- `strcmp( lc, "" )` is zero for the empty line only. -/
theorem cstr_gets (linha : Linha) (s : Estado) : cstr (gets linha s).buffer 0 = linha.texto :=
  (holds_gets linha s).cstr_eq

/-- **The command** is the first word. -/
theorem comando_some (line : palavras linha = w :: ws) : ∃ p st rest,
    comando linha s = (some p, st) ∧ Found st [(p, w)] rest ∧ tokens (· = ' ') rest = ws := by
  unfold palavras at line
  cases found : next (· = ' ') linha.texto with
  | none =>
    rw [tokens_of_none found] at line
    cases line
  | some pair =>
    obtain ⟨token, rest⟩ := pair
    rw [tokens_of_some found] at line
    cases line
    obtain ⟨p, st, ran, start⟩ := found_start (holds_gets linha s) found
    exact ⟨p, st, rest, ran, start, rfl⟩

/-- A line of blanks has none. -/
theorem comando_none (blank : palavras linha = []) : (comando linha s).1 = none := by
  unfold palavras at blank
  cases found : next (· = ' ') linha.texto with
  | none =>
    obtain ⟨saved, ran, _⟩ : ∃ saved, strtok (· = ' ') (some 0) (gets linha s) =
        (none, { gets linha s with saved := saved }) ∧ _ := strtok_none (holds_gets linha s) found
    rw [comando, palavra, ran]
  | some pair =>
    rw [tokens_of_some found] at blank
    cases blank

theorem volta_vazia (empty : linha.texto = []) : ∃ after, volta nasce linha s = .continua after := by
  rw [volta, cstr_gets, if_pos empty]
  exact ⟨_, rfl⟩

theorem volta_branca (nonempty : linha.texto ≠ []) (blank : palavras linha = []) :
    volta nasce linha s = .nulo := by
  rw [volta, cstr_gets, if_neg nonempty, comando_none blank]

/-- The empty line has no words. -/
theorem texto_ne_nil (line : palavras linha = w :: ws) : linha.texto ≠ [] := by
  intro empty
  rw [palavras, empty] at line
  cases line

theorem length_tail (s : Estado) : s.argv.tail.length = 19 := by
  rw [List.length_tail, s.argv20]

/-- **What `execvp` gets**: the words with a `NULL` behind them if there are at most 19, and no `NULL`
otherwise. -/
theorem separa_spec {p : ℕ} {st : State} {rest : List Char} (ran : comando linha s = (some p, st))
    (found : Found st [(p, w)] rest) :
    ((tokens (· = ' ') rest).length < 19 →
      Termina (separa linha s p) (w :: tokens (· = ' ') rest)) ∧
    (19 ≤ (tokens (· = ' ') rest).length → none ∉ (separa linha s p).argv) := by
  obtain ⟨more, left, all, words, room, full⟩ := preenche_spec s.argv.tail found
  rw [length_tail] at words room full
  have argv : (separa linha s p).argv = some p :: (preenche s.argv.tail st).1 := by
    show some p :: (preenche s.argv.tail (comando linha s).2).1 = _
    rw [ran]
  have lc : (separa linha s p).lc = (preenche s.argv.tail st).2.buffer := by
    show (preenche s.argv.tail (comando linha s).2).2.buffer = _
    rw [ran]
  refine ⟨fun few => ?_, fun many member => ?_⟩
  · obtain ⟨resto, stored⟩ := room few
    rw [List.take_of_length_le few.le] at words
    refine ⟨p :: more.map Prod.fst, resto, ?_, ?_⟩
    · rw [argv, stored]
      rfl
    · have read : (p :: more.map Prod.fst).map (cstr (preenche s.argv.tail st).2.buffer) =
          w :: more.map Prod.snd := all.read
      rw [lc, read, words]
  · rw [argv, full many] at member
    rcases List.mem_cons.mp member with same | inside
    · cases same
    · obtain ⟨q, _, same⟩ := List.mem_map.mp inside
      cases same

/-- **A line with a word** is `exit`, or `fork` is called. -/
theorem volta_palavra (line : palavras linha = w :: ws) : ∃ p,
    (∀ nasce, volta nasce linha s = if w = "exit".toList then .sai
      else if nasce then .executa (separa linha s p) else .erroFork) ∧
    (ws.length < 19 → Termina (separa linha s p) (palavras linha)) ∧
    (19 ≤ ws.length → none ∉ (separa linha s p).argv) := by
  obtain ⟨p, st, rest, ran, found, rfl⟩ := comando_some (s := s) line
  have named : cstr st.buffer p = w := (found.points (p, w) List.mem_cons_self).cstr_eq
  refine ⟨p, fun nasce => ?_, ?_⟩
  · rw [volta, cstr_gets, if_neg (texto_ne_nil line), ran]
    dsimp only
    rw [named]
  · rw [line]
    exact separa_spec ran found

end Volta

/-! ### Lines that are split as they should -/

/-- A line with a word that is `exit`, or has at most 19 words. -/
def Curta (linha : Linha) : Prop :=
  palavras linha ≠ [] ∧
    ((palavras linha).head? = some "exit".toList ∨ (palavras linha).length ≤ 19)

/-- **On such a line, and on an empty one, a pass does what the line asks for.** -/
theorem volta_faz (nasce : Bool) {linha : Linha} (s : Estado)
    (good : linha.texto = [] ∨ Curta linha) : Faz (volta nasce linha s) (acao nasce linha) := by
  unfold acao
  rcases good with empty | ⟨some_word, short⟩
  · obtain ⟨after, ran⟩ : ∃ after, volta nasce linha s = .continua after := volta_vazia empty
    rw [ran, if_pos empty]
    exact .nada after
  · obtain ⟨w, ws, line⟩ := List.exists_cons_of_ne_nil some_word
    obtain ⟨p, does, ended, _⟩ := volta_palavra (s := s) line
    rw [does, if_neg (texto_ne_nil line)]
    rw [line, List.head?_cons] at short ⊢
    by_cases exits : w = "exit".toList
    · rw [if_pos exits, if_pos (congrArg some exits)]
      exact .sai
    · have other : some w ≠ some "exit".toList := fun same => exits (Option.some.inj same)
      have few : ws.length < 19 := Nat.lt_of_succ_le (short.resolve_left other)
      rw [if_neg exits, if_neg other]
      cases nasce with
      | true => exact .executa (line ▸ ended few)
      | false => exact .erroFork

/-- What is executed is the words of the line. -/
theorem acao_executa {nasce : Bool} {linha : Linha} {words : List (List Char)}
    (asked : acao nasce linha = .executa words) : words = palavras linha := by
  unfold acao at asked
  split at asked
  · cases asked
  split at asked
  · cases asked
  split at asked
  · exact (Acao.executa.inj asked).symm
  · cases asked

theorem separa_of_curta {linha : Linha} (s : Estado) (curta : Curta linha) : Separa s linha := by
  refine ⟨fun nasce null => ?_, fun nasce after ran => ?_⟩
  · have faz := volta_faz nasce s (.inr curta)
    rw [null] at faz
    cases faz
  · have faz := volta_faz nasce s (.inr curta)
    rw [ran] at faz
    generalize asked : acao nasce linha = does at faz
    cases faz with
    | executa ended => exact acao_executa asked ▸ ended

theorem curta_of_separa {linha : Linha} {s : Estado} (nonempty : linha.texto ≠ [])
    (split : Separa s linha) : Curta linha := by
  have some_word : palavras linha ≠ [] := fun blank =>
    split.comando true (volta_branca nonempty blank)
  refine ⟨some_word, ?_⟩
  obtain ⟨w, ws, line⟩ := List.exists_cons_of_ne_nil some_word
  obtain ⟨p, does, _, unended⟩ := volta_palavra (s := s) line
  rw [line]
  by_cases exits : w = "exit".toList
  · exact .inl (congrArg some exits)
  · right
    by_contra many
    have ran : volta true linha s = .executa (separa linha s p) := by
      rw [does, if_neg exits, if_pos rfl]
    obtain ⟨ponteiros, resto, argv, _⟩ := split.vetor true _ ran
    refine unended ?_ ?_
    · rw [List.length_cons] at many
      omega
    · rw [argv]
      exact List.mem_append_right _ List.mem_cons_self

/-- **Command splitting**: for every line that is not empty, from every state of the loop, `strcmp`
gets a command and `execvp` the words of the line with a `NULL` behind them inside `argv`, if and only
if the line has a word, and is `exit` or has at most 19 words. -/
theorem command_splitting (s : Estado) (linha : Linha) (nonempty : linha.texto ≠ []) :
    Separa s linha ↔ palavras linha ≠ [] ∧
      ((palavras linha).head? = some "exit".toList ∨ (palavras linha).length ≤ 19) :=
  ⟨curta_of_separa nonempty, separa_of_curta s⟩

/-- **A run on such lines and empty ones does what they ask for**, line by line, up to `exit`. -/
theorem shell_refines (s : Estado) (entradas : List (Bool × Linha))
    (good : ∀ entrada ∈ entradas, entrada.2.texto = [] ∨ Curta entrada.2) :
    List.Forall₂ Faz (shell s entradas) (sessao entradas) := by
  induction entradas generalizing s with
  | nil => exact .nil
  | cons entrada resto ih =>
    obtain ⟨nasce, linha⟩ := entrada
    obtain ⟨here, later⟩ := List.forall_mem_cons.mp good
    have faz := volta_faz nasce s here
    unfold shell sessao
    generalize volta nasce linha s = passo at faz ⊢
    generalize acao nasce linha = asked at faz ⊢
    cases faz with
    | nada after => exact .cons (.nada after) (ih after later)
    | executa ended => exact .cons (.executa ended) (ih _ later)
    | sai => exact .cons .sai .nil
    | erroFork => exact .cons .erroFork .nil

/-- The loop is entered. -/
def inicio : Estado where
  lc := List.replicate 81 nul
  saved := 0
  argv := List.replicate 20 none
  lc81 := List.length_replicate
  argv20 := List.length_replicate

def ls : Linha := ⟨"ls  -l ".toList, by decide, by decide⟩

/-- `ls -l`, with some blanks more. -/
theorem command_splitting_ls :
    palavras ls = ["ls".toList, "-l".toList] ∧ Separa inicio ls := by
  have words : palavras ls = ["ls".toList, "-l".toList] := by decide +kernel
  have short : (palavras ls).length ≤ 19 := by
    rw [words]
    decide
  refine ⟨words, (command_splitting inicio ls (by decide)).mpr ⟨?_, .inr short⟩⟩
  rw [words]
  exact List.cons_ne_nil _ _

def branco : Linha := ⟨" ".toList, by decide, by decide⟩

def vinte : Linha := ⟨"a b c d e f g h i j k l m n o p q r s t".toList, by decide, by decide⟩

/-- **A blank line and a line of 20 words are not split as they should**: the first makes `strcmp`
read through `NULL`, and the second fills `argv` without a `NULL`. -/
theorem blanks_and_many_words :
    (branco.texto ≠ [] ∧ volta true branco inicio = .nulo ∧ ¬ Separa inicio branco) ∧
      (∃ after, volta true vinte inicio = .executa after ∧
        after.argv = (List.range 20).map fun i => some (2 * i)) ∧ ¬ Separa inicio vinte := by
  have null : volta true branco inicio = .nulo := rfl
  have full : (separa vinte inicio 0).argv = (List.range 20).map fun i => some (2 * i) := by
    decide +kernel
  refine ⟨⟨by decide, null, fun split => split.comando true null⟩, ⟨_, rfl, full⟩, fun split => ?_⟩
  obtain ⟨ponteiros, resto, argv, _⟩ := split.vetor true (separa vinte inicio 0) rfl
  have ended : none ∈ (separa vinte inicio 0).argv := by
    rw [argv]
    exact List.mem_append_right _ List.mem_cons_self
  rw [full] at ended
  obtain ⟨i, _, same⟩ := List.mem_map.mp ended
  cases same

end ShellSimples
