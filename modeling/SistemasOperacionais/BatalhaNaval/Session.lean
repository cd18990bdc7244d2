/-
**`main.c`: a session of Batalha Naval.**

One process starts the game: it makes the table and two semaphores, `{ 1, 0 }`. Any number of
challengers may join; the first that finds `player[1].pid` at 0 plays, the others leave. `LOCK` and
`UNLOCK` work on the first semaphore, `WAIT2` of the starter and `NOTIFY2` of its opponent on the
second, once before the battle and once after it. When the starter returns, the table is destroyed.

* `program` — the starter (`none`) and the challengers (`some c`), one statement at a time. What a
  process reads and draws, a line of input or the numbers of `rand`, comes with its step.
* `Movimento` — the inversion of a step.
* `Sessao` — what every run keeps: the lock, who may be where, `player[1].pid` against the challenger
  admitted, and the second semaphore against the places of the two players.
* `session_protocol` — **at most one process is between `LOCK` and `UNLOCK`; at most one challenger
  is admitted, and every other leaves; and the starter returns only when the one admitted has
  returned.**

`admitidos` records the challengers that have written `player[1].pid`. The semaphore number that
`table->semid` hands on, the prompts and the calls that create and destroy the table are left out.
-/

import SistemasOperacionais.BatalhaNaval.Scoring
import SistemasOperacionais.Runs.Threads

set_option linter.unusedSectionVars false

namespace BatalhaNaval

open Transition Threads

/-! ### The program -/

/-- A stretch of `main` between `LOCK` and `UNLOCK`. -/
inductive Trecho (nX nY : ℕ)
  /-- the starter makes the table -/
  | inicio
  /-- a challenger looks for its place -/
  | entrada
  /-- the challenger admitted looks at the battle -/
  | primeira
  /-- a pass of the battle: the cell bombed, or none -/
  | jogada (alvo : Option (Fin nX × Fin nY))
  /-- after the battle -/
  | final
  deriving DecidableEq

/-- Where a process is. -/
inductive Lugar (nX nY : ℕ)
  /-- a challenger not started yet -/
  | fora
  /-- `LOCK` -/
  | lock (trecho : Trecho nX nY)
  /-- `table->player[0].pid = getpid()` -/
  | pid0
  /-- `table->player[1].pid = 0` -/
  | pid1
  /-- `genBattle()` -/
  | gera
  /-- `p1 = table->player[0].pid` -/
  | leP1
  /-- `p2 = table->player[1].pid` -/
  | leP2
  /-- `if ( p2 == 0 ) p2 = table->player[1].pid = getpid()` -/
  | toma
  /-- `bomb(x,y)` -/
  | bomba (alvo : Fin nX × Fin nY)
  /-- `showBattle()` -/
  | mostra (trecho : Trecho nX nY)
  /-- `UNLOCK` -/
  | unlock (trecho : Trecho nX nY)
  /-- `if ( p2 != getpid() )` -/
  | compara
  /-- `WAIT2` of the starter, `NOTIFY2` of a challenger; the last one, or the first -/
  | sinal2 (ultimo : Bool)
  /-- `while ( !flg_game_over )` and `getInput` -/
  | laco
  /-- `return 1` -/
  | saiu
  /-- `return 0` -/
  | fim
  deriving DecidableEq

structure Processo (nX nY : ℕ) where
  lugar : Lugar nX nY
  p1 : ℕ
  p2 : ℕ
  gameOver : Bool

structure Memoria (ι : Type) where
  sem0 : ℕ
  sem1 : ℕ
  tabela : Tabela
  /-- the starter has made its first `UNLOCK` -/
  aberta : Bool
  /-- the challengers that have written `player[1].pid` -/
  admitidos : List ι

/-- What a process reads in a step: a line of input, and the numbers of `rand`. -/
structure Entrada where
  linha : List Char
  sorteios : List Sorteio

/-- `table->player[p].pid = pid` -/
def Tabela.setPid (t : Tabela) (p : Fin 2) (pid : ℕ) : Tabela :=
  { t with player := Function.update t.player p { t.player p with pid := pid } }

section Program

variable {ι : Type} {nX nY : ℕ}

/-- The first statement of a stretch. -/
def Trecho.entra : Trecho nX nY → Lugar nX nY
  | .inicio => .pid0
  | .entrada => .leP1
  | .jogada (some alvo) => .bomba alvo
  | .primeira => .mostra .primeira
  | .jogada none => .mostra (.jogada none)
  | .final => .mostra .final

/-- Where `main` goes on after a stretch. -/
def Trecho.sai : Trecho nX nY → Lugar nX nY
  | .inicio => .sinal2 false
  | .entrada => .compara
  | .primeira => .sinal2 false
  | .jogada _ => .laco
  | .final => .sinal2 true

/-- **`main`**, of the starter and of a challenger. -/
def program (nX nY nZ nShips : ℕ) (pid : Option ι → ℕ) (e : Entrada) :
    Program (Option ι) (Memoria ι) (Processo nX nY) := fun proc s p =>
  match p.lugar with
  | .fora => if s.aberta then some (s, { p with lugar := .lock .entrada }) else none
  | .lock trecho =>
      if 0 < s.sem0 then some ({ s with sem0 := s.sem0 - 1 }, { p with lugar := trecho.entra })
      else none
  | .pid0 => some ({ s with tabela := s.tabela.setPid 0 (pid proc) }, { p with lugar := .pid1 })
  | .pid1 => some ({ s with tabela := s.tabela.setPid 1 0 }, { p with lugar := .gera })
  | .gera => (genBattle nX nY nZ nShips s.tabela e.sorteios).map fun tabela =>
      ({ s with tabela := tabela }, { p with lugar := .mostra .inicio })
  | .leP1 => some (s, { p with lugar := .leP2, p1 := (s.tabela.player 0).pid })
  | .leP2 => some (s, { p with lugar := .toma, p2 := (s.tabela.player 1).pid })
  | .toma =>
      if p.p2 = 0 then
        some ({ s with
          tabela := s.tabela.setPid 1 (pid proc)
          admitidos := s.admitidos ++ proc.toList },
          { p with lugar := .unlock .entrada, p2 := pid proc })
      else some (s, { p with lugar := .unlock .entrada })
  | .bomba alvo =>
      some ({ s with tabela := bomb s.tabela alvo.1 alvo.2 },
        { p with lugar := .mostra (.jogada (some alvo)) })
  | .mostra trecho =>
      let (tabela, gameOver) := showBattle nX nY s.tabela p.gameOver
      some ({ s with tabela := tabela }, { p with lugar := .unlock trecho, gameOver := gameOver })
  | .unlock trecho =>
      some ({ s with sem0 := s.sem0 + 1, aberta := s.aberta || decide (trecho = .inicio) },
        { p with lugar := trecho.sai })
  | .compara => some (s, { p with lugar := if p.p2 = pid proc then .lock .primeira else .saiu })
  | .sinal2 ultimo =>
      let lugar := if ultimo then .fim else .laco
      match proc with
      | none =>
          if 0 < s.sem1 then some ({ s with sem1 := s.sem1 - 1 }, { p with lugar := lugar })
          else none
      | some _ => some ({ s with sem1 := s.sem1 + 1 }, { p with lugar := lugar })
  | .laco =>
      let trecho := if p.gameOver then .final else .jogada (getInput nX nY e.linha)
      some (s, { p with lugar := .lock trecho })
  | .saiu | .fim => none

/-- A step of a process, with what it reads. -/
def next [DecidableEq ι] (nX nY nZ nShips : ℕ) (pid : Option ι → ℕ)
    (config : Config (Option ι) (Memoria ι) (Processo nX nY)) (label : Option ι × Entrada) :
    Option (Config (Option ι) (Memoria ι) (Processo nX nY)) :=
  step (program nX nY nZ nShips pid label.2) config label.1

/-- The starter before its first `LOCK`, on a table with any contents. -/
def start (ι : Type) (nX nY : ℕ) (tabela : Tabela) :
    Config (Option ι) (Memoria ι) (Processo nX nY) where
  shared := ⟨1, 0, tabela, false, []⟩
  locals
    | none => ⟨.lock .inicio, 0, 0, false⟩
    | some _ => ⟨.fora, 0, 0, false⟩

end Program

/-! ### What a step does -/

section Steps

variable {ι : Type} {nX nY nZ nShips : ℕ} {pid : Option ι → ℕ} {e : Entrada}

/-- The moves of a process. -/
inductive Movimento (nZ nShips : ℕ) (pid : Option ι → ℕ) (e : Entrada) (proc : Option ι)
    (s : Memoria ι) (p : Processo nX nY) : Memoria ι → Processo nX nY → Prop
  | chega : p.lugar = .fora → s.aberta = true →
      Movimento nZ nShips pid e proc s p s { p with lugar := .lock .entrada }
  | lock (trecho : Trecho nX nY) : p.lugar = .lock trecho → 0 < s.sem0 →
      Movimento nZ nShips pid e proc s p { s with sem0 := s.sem0 - 1 }
        { p with lugar := trecho.entra }
  | pid0 : p.lugar = .pid0 →
      Movimento nZ nShips pid e proc s p { s with tabela := s.tabela.setPid 0 (pid proc) }
        { p with lugar := .pid1 }
  | pid1 : p.lugar = .pid1 →
      Movimento nZ nShips pid e proc s p { s with tabela := s.tabela.setPid 1 0 }
        { p with lugar := .gera }
  | gera (tabela : Tabela) : p.lugar = .gera →
      genBattle nX nY nZ nShips s.tabela e.sorteios = some tabela →
      Movimento nZ nShips pid e proc s p { s with tabela := tabela }
        { p with lugar := .mostra .inicio }
  | leP1 : p.lugar = .leP1 →
      Movimento nZ nShips pid e proc s p s
        { p with lugar := .leP2, p1 := (s.tabela.player 0).pid }
  | leP2 : p.lugar = .leP2 →
      Movimento nZ nShips pid e proc s p s
        { p with lugar := .toma, p2 := (s.tabela.player 1).pid }
  | toma : p.lugar = .toma → p.p2 = 0 →
      Movimento nZ nShips pid e proc s p
        { s with
          tabela := s.tabela.setPid 1 (pid proc)
          admitidos := s.admitidos ++ proc.toList }
        { p with lugar := .unlock .entrada, p2 := pid proc }
  | tomado : p.lugar = .toma → p.p2 ≠ 0 →
      Movimento nZ nShips pid e proc s p s { p with lugar := .unlock .entrada }
  | bomba (alvo : Fin nX × Fin nY) : p.lugar = .bomba alvo →
      Movimento nZ nShips pid e proc s p { s with tabela := bomb s.tabela alvo.1 alvo.2 }
        { p with lugar := .mostra (.jogada (some alvo)) }
  | mostra (trecho : Trecho nX nY) : p.lugar = .mostra trecho →
      Movimento nZ nShips pid e proc s p
        { s with tabela := (showBattle nX nY s.tabela p.gameOver).1 }
        { p with
          lugar := .unlock trecho
          gameOver := (showBattle nX nY s.tabela p.gameOver).2 }
  | unlock (trecho : Trecho nX nY) : p.lugar = .unlock trecho →
      Movimento nZ nShips pid e proc s p
        { s with sem0 := s.sem0 + 1, aberta := s.aberta || decide (trecho = .inicio) }
        { p with lugar := trecho.sai }
  | aceito : p.lugar = .compara → p.p2 = pid proc →
      Movimento nZ nShips pid e proc s p s { p with lugar := .lock .primeira }
  | recusado : p.lugar = .compara → p.p2 ≠ pid proc →
      Movimento nZ nShips pid e proc s p s { p with lugar := .saiu }
  | wait2 (ultimo : Bool) : p.lugar = .sinal2 ultimo → proc = none → 0 < s.sem1 →
      Movimento nZ nShips pid e proc s p { s with sem1 := s.sem1 - 1 }
        { p with lugar := if ultimo then .fim else .laco }
  | notify2 (ultimo : Bool) (c : ι) : p.lugar = .sinal2 ultimo → proc = some c →
      Movimento nZ nShips pid e proc s p { s with sem1 := s.sem1 + 1 }
        { p with lugar := if ultimo then .fim else .laco }
  | jogada (alvo : Option (Fin nX × Fin nY)) : p.lugar = .laco →
      Movimento nZ nShips pid e proc s p s { p with lugar := .lock (.jogada alvo) }
  | final : p.lugar = .laco →
      Movimento nZ nShips pid e proc s p s { p with lugar := .lock .final }

/-- **The inversion of a step.** -/
theorem movimento_of_program {proc : Option ι} {s after : Memoria ι} {p place : Processo nX nY}
    (moved : program nX nY nZ nShips pid e proc s p = some (after, place)) :
    Movimento nZ nShips pid e proc s p after place := by
  unfold program at moved
  split at moved
  · rename_i here
    split at moved <;> cases moved
    exact .chega here ‹_›
  · rename_i here
    split at moved <;> cases moved
    exact .lock _ here ‹_›
  · cases moved
    exact .pid0 ‹_›
  · cases moved
    exact .pid1 ‹_›
  · rename_i here
    obtain ⟨tabela, made, same⟩ := Option.map_eq_some_iff.mp moved
    cases same
    exact .gera tabela here made
  · cases moved
    exact .leP1 ‹_›
  · cases moved
    exact .leP2 ‹_›
  · rename_i here
    split at moved <;> cases moved
    · exact .toma here ‹_›
    · exact .tomado here ‹_›
  · cases moved
    exact .bomba _ ‹_›
  · cases moved
    exact .mostra _ ‹_›
  · cases moved
    exact .unlock _ ‹_›
  · rename_i here
    cases moved
    split
    · exact .aceito here ‹_›
    · exact .recusado here ‹_›
  · rename_i here
    dsimp only at moved
    split at moved
    · split at moved <;> cases moved
      exact .wait2 _ here rfl ‹_›
    · cases moved
      exact .notify2 _ _ here rfl
  · rename_i here
    cases moved
    split
    · exact .final here
    · exact .jogada _ here
  · cases moved
  · cases moved

/-! ### The places -/

/-- Between `LOCK` and `UNLOCK`. -/
def Lugar.dentro : Lugar nX nY → Bool
  | .pid0 | .pid1 | .gera | .leP1 | .leP2 | .toma | .bomba _ | .mostra _ | .unlock _ => true
  | .fora | .lock _ | .compara | .sinal2 _ | .laco | .saiu | .fim => false

/-- How far a process is: the starter makes the table, a challenger looks for its place, it plays,
or it has left. -/
inductive Etapa
  | inicio
  | candidato
  | jogo
  | saiu
  deriving DecidableEq

def Trecho.etapa : Trecho nX nY → Etapa
  | .inicio => .inicio
  | .entrada => .candidato
  | .primeira | .jogada _ | .final => .jogo

def Lugar.etapa : Lugar nX nY → Etapa
  | .pid0 | .pid1 | .gera => .inicio
  | .fora | .leP1 | .leP2 | .toma | .compara => .candidato
  | .lock trecho | .mostra trecho | .unlock trecho => trecho.etapa
  | .bomba _ | .sinal2 _ | .laco | .fim => .jogo
  | .saiu => .saiu

def Trecho.fase : Trecho nX nY → ℕ
  | .inicio | .entrada | .primeira => 0
  | .jogada _ | .final => 1

/-- How many of its `WAIT2` or `NOTIFY2` a process has passed. -/
def Lugar.fase : Lugar nX nY → ℕ
  | .lock trecho | .mostra trecho | .unlock trecho => trecho.fase
  | .bomba _ | .laco => 1
  | .sinal2 ultimo => ultimo.toNat
  | .fim => 2
  | .fora | .pid0 | .pid1 | .gera | .leP1 | .leP2 | .toma | .compara | .saiu => 0

/-- The starter has yet to write `player[1].pid`. -/
def Lugar.antes : Lugar nX nY → Bool
  | .lock .inicio | .pid0 | .pid1 => true
  | _ => false

theorem etapa_of_fase {lugar : Lugar nX nY} (passed : lugar.fase ≠ 0) : lugar.etapa = .jogo := by
  have stretch : ∀ {trecho : Trecho nX nY}, trecho.fase ≠ 0 → trecho.etapa = .jogo := by
    intro trecho passed
    cases trecho <;> first | rfl | exact absurd rfl passed
  cases lugar with
  | lock trecho | mostra trecho | unlock trecho => exact stretch passed
  | bomba | laco | sinal2 | fim => rfl
  | _ => exact absurd rfl passed

/-- Both signals passed: the process has returned. -/
theorem fim_of_fase {lugar : Lugar nX nY} (passed : 2 ≤ lugar.fase) : lugar = .fim := by
  have stretch : ∀ trecho : Trecho nX nY, trecho.fase ≤ 1 := by
    intro trecho
    cases trecho <;> simp only [Trecho.fase, Nat.zero_le, Nat.le_refl]
  cases lugar with
  | fim => rfl
  | lock trecho | mostra trecho | unlock trecho =>
    exact absurd (Nat.le_trans passed (stretch trecho)) (by decide)
  | sinal2 ultimo => exact absurd (Nat.le_trans passed (Bool.toNat_le ultimo)) (by decide)
  | _ =>
    simp only [Lugar.fase] at passed
    omega

/-! ### The balance of each step -/

variable {proc : Option ι} {s after : Memoria ι} {p place : Processo nX nY}

/-- `player[1].pid` -/
def Memoria.vaga (s : Memoria ι) : ℕ := (s.tabela.player 1).pid

/-- **The first semaphore** pays for what is entered. -/
theorem Movimento.trava (moved : Movimento nZ nShips pid e proc s p after place) :
    after.sem0 + place.lugar.dentro.toNat = s.sem0 + p.lugar.dentro.toNat := by
  cases moved with
  | lock trecho here free =>
    have entered : trecho.entra.dentro = true := by
      rcases trecho with _ | _ | _ | (_ | _) | _ <;> rfl
    rw [here, entered]
    exact Nat.sub_add_cancel free
  | unlock trecho here =>
    have left : trecho.sai.dentro = false := by cases trecho <;> rfl
    rw [here, left]
    rfl
  | wait2 ultimo here | notify2 ultimo c here =>
    rw [here]
    cases ultimo <;> rfl
  | _ => simp only [‹p.lugar = _›, Lugar.dentro]

theorem Trecho.fase_entra (trecho : Trecho nX nY) : trecho.entra.fase = trecho.fase := by
  rcases trecho with _ | _ | _ | (_ | _) | _ <;> rfl

theorem Trecho.fase_sai (trecho : Trecho nX nY) : trecho.sai.fase = trecho.fase := by
  cases trecho <;> rfl

theorem fase_sinal2 (ultimo : Bool) :
    (if ultimo then Lugar.fim else .laco : Lugar nX nY).fase = ultimo.toNat + 1 := by
  cases ultimo <;> rfl

/-- Every step but a signal keeps the number of signals passed. -/
theorem Movimento.fase (moved : Movimento nZ nShips pid e proc s p after place) :
    (after.sem1 = s.sem1 ∧ place.lugar.fase = p.lugar.fase) ∨
      (proc = none ∧ after.sem1 + 1 = s.sem1 ∧ place.lugar.fase = p.lugar.fase + 1) ∨
      (proc ≠ none ∧ after.sem1 = s.sem1 + 1 ∧ place.lugar.fase = p.lugar.fase + 1) := by
  cases moved with
  | lock trecho here =>
    refine .inl ⟨rfl, ?_⟩
    rw [here]
    exact trecho.fase_entra
  | unlock trecho here =>
    refine .inl ⟨rfl, ?_⟩
    rw [here]
    exact trecho.fase_sai
  | wait2 ultimo here starter notified =>
    refine .inr (.inl ⟨starter, Nat.sub_add_cancel notified, ?_⟩)
    rw [here]
    exact fase_sinal2 ultimo
  | notify2 ultimo c here challenger =>
    refine .inr (.inr ⟨challenger ▸ Option.some_ne_none c, rfl, ?_⟩)
    rw [here]
    exact fase_sinal2 ultimo
  | _ =>
    refine .inl ⟨rfl, ?_⟩
    rw [‹p.lugar = _›]
    rfl

/-- **How a process gets on**: the starter opens the table, a challenger is let in or leaves. -/
theorem Movimento.etapa (moved : Movimento nZ nShips pid e proc s p after place) :
    (place.lugar.etapa = p.lugar.etapa ∧ after.aberta = s.aberta) ∨
      (p.lugar = .unlock .inicio ∧ place.lugar.etapa = .jogo ∧ after.aberta = true) ∨
      (p.lugar = .compara ∧ place.lugar.etapa ≠ .inicio ∧ after = s) := by
  cases moved with
  | lock trecho here =>
    refine .inl ⟨?_, rfl⟩
    rw [here]
    rcases trecho with _ | _ | _ | (_ | _) | _ <;> rfl
  | unlock trecho here =>
    cases trecho with
    | inicio => exact .inr (.inl ⟨here, rfl, Bool.or_true _⟩)
    | _ =>
      refine .inl ⟨?_, Bool.or_false _⟩
      rw [here]
      rfl
  | wait2 ultimo here | notify2 ultimo c here =>
    refine .inl ⟨?_, rfl⟩
    rw [here]
    cases ultimo <;> rfl
  | aceito here | recusado here => exact .inr (.inr ⟨here, nofun, rfl⟩)
  | _ =>
    refine .inl ⟨?_, rfl⟩
    rw [‹p.lugar = _›]
    rfl

/-- The first statement of a challenger waits for the table. -/
theorem Movimento.aberta_of_fora (moved : Movimento nZ nShips pid e proc s p after place) :
    p.lugar = .fora → s.aberta = true := by
  cases moved with
  | chega _ opened => exact fun _ => opened
  | _ =>
    rw [‹p.lugar = _›]
    exact nofun

/-! ### Who writes `player[1].pid` -/

theorem setPid_zero (t : Tabela) (value : ℕ) : (t.setPid 0 value).player 1 = t.player 1 := by
  unfold Tabela.setPid
  dsimp only
  rw [Function.update_of_ne Fin.zero_ne_one.symm]

theorem setPid_one (t : Tabela) (value : ℕ) : ((t.setPid 1 value).player 1).pid = value := by
  unfold Tabela.setPid
  dsimp only
  rw [Function.update_self]

theorem foldl_marca_player (eixo : Eixo) (pos : ℕ → ℕ) (b : ℕ) (ch : Char) (who : Bool)
    (js : List ℕ) (t : Tabela) :
    (js.foldl (fun t j => marca eixo t (pos j) b ch who) t).player = t.player := by
  induction js generalizing t with
  | nil => rfl
  | cons j js ih => exact ih (marca eixo t (pos j) b ch who)

theorem draw_player (eixo : Eixo) (a b z : ℕ) (who : Bool) (t : Tabela) :
    (draw eixo a b z who t).2.player = t.player := by
  have ship : ∀ pos ponta, (desenha eixo pos b z who ponta t).2.player = t.player := by
    intro pos ponta
    unfold desenha
    split
    · exact foldl_marca_player eixo pos b (eixo.corpo who) who (List.range (z - 1)) t
    · rfl
  unfold draw
  split
  · split
    · rfl
    · exact ship _ _
  · exact ship _ _

theorem ou_player {first second : Tabela → Bool × Tabela}
    (one : ∀ t, (first t).2.player = t.player) (two : ∀ t, (second t).2.player = t.player)
    (t : Tabela) : (ou first second t).2.player = t.player := by
  have left := one t
  unfold ou
  split
  · rename_i after made
    rwa [made] at left
  · rename_i after failed
    rw [failed] at left
    exact (two after).trans left

theorem iteracao_player (s : Tabela × ℕ) (sorteio : Sorteio) :
    (iteracao nX nY nZ s sorteio).1.player = s.1.player := by
  have calls : (tenta nX nY nZ s.2 sorteio s.1).2.player = s.1.player := by
    unfold tenta
    split <;> exact ou_player (draw_player _ _ _ _ _) (draw_player _ _ _ _ _) s.1
  unfold iteracao
  split
  all_goals
    rename_i after made
    rwa [made] at calls

theorem genBattleLoop_player (sorteios : List Sorteio) : ∀ {s made : Tabela × ℕ},
    genBattleLoop nX nY nZ nShips s sorteios = some made → made.1.player = s.1.player := by
  induction sorteios with
  | nil => exact fun run => nomatch run
  | cons sorteio rest ih =>
    intro s made run
    rw [genBattleLoop] at run
    split at run
    · exact (ih run).trans (iteracao_player s sorteio)
    · cases run
      exact iteracao_player s sorteio

theorem genBattle_player {t made : Tabela} {sorteios : List Sorteio}
    (run : genBattle nX nY nZ nShips t sorteios = some made) : made.player = t.player := by
  obtain ⟨s, loop, rfl⟩ := Option.map_eq_some_iff.mp run
  exact genBattleLoop_player sorteios loop

/-- **Who writes `player[1].pid`**: the starter once, and a challenger that has found it at 0. -/
theorem Movimento.vaga (moved : Movimento nZ nShips pid e proc s p after place) :
    (p.lugar ≠ .pid1 ∧ after.vaga = s.vaga ∧ after.admitidos = s.admitidos) ∨
      (p.lugar = .pid1 ∧ after.vaga = 0 ∧ after.admitidos = s.admitidos) ∨
      (p.lugar = .toma ∧ p.p2 = 0 ∧ after.vaga = pid proc ∧
        after.admitidos = s.admitidos ++ proc.toList) := by
  unfold Memoria.vaga
  cases moved with
  | pid0 here =>
    dsimp only
    rw [setPid_zero, here]
    exact .inl ⟨nofun, rfl, rfl⟩
  | pid1 here => exact .inr (.inl ⟨here, setPid_one _ _, rfl⟩)
  | gera tabela here made =>
    dsimp only
    rw [genBattle_player made, here]
    exact .inl ⟨nofun, rfl, rfl⟩
  | toma here none => exact .inr (.inr ⟨here, none, setPid_one _ _, rfl⟩)
  | bomba alvo here =>
    dsimp only
    rw [bomb_eq, here]
    exact .inl ⟨nofun, rfl, rfl⟩
  | mostra trecho here =>
    dsimp only
    unfold showBattle
    rw [recount_eq, here]
    exact .inl ⟨nofun, rfl, rfl⟩
  | _ =>
    rw [‹p.lugar = _›]
    exact .inl ⟨nofun, rfl, rfl⟩

/-- Once the starter has written `player[1].pid`, it does not go back. -/
theorem Movimento.antes (moved : Movimento nZ nShips pid e proc s p after place) :
    place.lugar.antes = false → p.lugar.antes = false ∨ p.lugar = .pid1 := by
  cases moved with
  | lock trecho here =>
    rw [here]
    cases trecho with
    | inicio => exact nofun
    | _ => exact fun _ => .inl rfl
  | pid0 => exact nofun
  | pid1 here => exact fun _ => .inr here
  | _ =>
    rw [‹p.lugar = _›]
    exact fun _ => .inl rfl

end Steps

/-! ### The places of the session -/

section Invariant

variable {ι : Type} [DecidableEq ι] {nX nY nZ nShips : ℕ} {pid : Option ι → ℕ} {e : Entrada}
  {config : Config (Option ι) (Memoria ι) (Processo nX nY)} {proc : Option ι}
  {shared : Memoria ι} {place : Processo nX nY}

/-- The lock, and who may be where. -/
structure Ordem (config : Config (Option ι) (Memoria ι) (Processo nX nY)) : Prop where
  trava : Locked (fun _ p => p.lugar.dentro) config.shared.sem0 config.locals
  iniciador : (config.locals none).lugar.etapa =
    if config.shared.aberta then .jogo else .inicio
  desafiante : ∀ c, (config.locals (some c)).lugar.etapa ≠ .inicio
  fechada : config.shared.aberta = false → ∀ c, (config.locals (some c)).lugar = .fora

theorem ordem_start (ι : Type) (nX nY : ℕ) (tabela : Tabela) :
    Ordem (start ι nX nY tabela) := by
  refine ⟨.inl ⟨rfl, fun thread => ?_⟩, rfl, fun c => nofun, fun _ c => rfl⟩
  cases thread <;> rfl

/-- A challenger moves only when the table is open. -/
theorem Ordem.aberta {c : ι} (ordem : Ordem config)
    (moved : Movimento nZ nShips pid e (some c) config.shared (config.locals (some c)) shared
      place) : config.shared.aberta = true := by
  by_contra closed
  rw [Bool.not_eq_true] at closed
  have opened := moved.aberta_of_fora (ordem.fechada closed c)
  rw [closed] at opened
  cases opened

/-- The starter is past its own write of `player[1].pid` then. -/
theorem Ordem.written (ordem : Ordem config) (opened : config.shared.aberta = true) :
    (config.locals none).lugar.antes = false := by
  have stage := ordem.iniciador
  rw [opened] at stage
  unfold Lugar.antes
  split
  · rw [‹Processo.lugar _ = _›] at stage
    cases stage
  · rw [‹Processo.lugar _ = _›] at stage
    cases stage
  · rw [‹Processo.lugar _ = _›] at stage
    cases stage
  · rfl

/-- Only the starter writes 0, and before the table is open. -/
theorem Ordem.of_pid1 (ordem : Ordem config) (here : (config.locals proc).lugar = .pid1) :
    proc = none ∧ config.shared.aberta = false := by
  cases proc with
  | none =>
    have stage := ordem.iniciador
    rw [here] at stage
    cases opened : config.shared.aberta with
    | false => exact ⟨rfl, rfl⟩
    | true =>
      rw [opened] at stage
      cases stage
  | some c => exact absurd (by rw [here]; rfl) (ordem.desafiante c)

/-- Only a challenger takes the place. -/
theorem Ordem.of_toma (ordem : Ordem config) (here : (config.locals proc).lugar = .toma) :
    ∃ c, proc = some c := by
  cases proc with
  | none =>
    have stage := ordem.iniciador
    rw [here] at stage
    split at stage <;> cases stage
  | some c => exact ⟨c, rfl⟩

theorem ordem_step (ordem : Ordem config)
    (moved : Movimento nZ nShips pid e proc config.shared (config.locals proc) shared place) :
    Ordem ⟨shared, Function.update config.locals proc place⟩ := by
  have trava := ordem.trava.update moved.trava
  cases proc with
  | none =>
    have others : ∀ c, Function.update config.locals none place (some c) =
        config.locals (some c) := update_none_some _ _
    have self : Function.update config.locals none place none = place := Function.update_self ..
    refine ⟨trava, ?_, fun c => ?_, fun closed c => ?_⟩
    · dsimp only
      rw [self]
      rcases moved.etapa with ⟨stage, same⟩ | ⟨_, stage, opened⟩ | ⟨here, _, _⟩
      · rw [stage, same]
        exact ordem.iniciador
      · rw [stage, opened]
        rfl
      · have stage := ordem.iniciador
        rw [here] at stage
        split at stage <;> cases stage
    · dsimp only
      rw [others c]
      exact ordem.desafiante c
    · dsimp only
      rw [others c]
      refine ordem.fechada ?_ c
      rcases moved.etapa with ⟨_, same⟩ | ⟨_, _, opened⟩ | ⟨_, _, rfl⟩
      · exact same.symm.trans closed
      · exact absurd (opened.symm.trans closed) nofun
      · exact closed
  | some c =>
    have opened := ordem.aberta moved
    have starter : Function.update config.locals (some c) place none = config.locals none :=
      update_some_none ..
    have open' : shared.aberta = true := by
      rcases moved.etapa with ⟨_, same⟩ | ⟨_, _, opened⟩ | ⟨_, _, rfl⟩
      · exact same.trans opened
      · exact opened
      · exact opened
    refine ⟨trava, ?_, fun d => ?_, fun closed => ?_⟩
    · dsimp only
      rw [starter, open', ordem.iniciador, opened]
    · dsimp only
      by_cases same : d = c
      · subst same
        rw [Function.update_self]
        rcases moved.etapa with ⟨stage, _⟩ | ⟨_, stage, _⟩ | ⟨_, stage, _⟩
        · rw [stage]
          exact ordem.desafiante d
        · rw [stage]
          exact nofun
        · exact stage
      · rw [update_some_of_ne _ _ same]
        exact ordem.desafiante d
    · exact absurd (open'.symm.trans closed) nofun

/-! ### The challenger admitted -/

/-- `player[1].pid` against the challenger admitted. -/
def Vaga (pid : Option ι → ℕ) (s : Memoria ι) (starter : Lugar nX nY) : Prop :=
  (s.admitidos = [] ∧ (starter.antes = false → s.vaga = 0)) ∨
    ∃ c, s.aberta = true ∧ s.admitidos = [c] ∧ s.vaga = pid (some c)

/-- What a challenger knows at its place. -/
def Situacao (s : Memoria ι) (c : ι) (p : Processo nX nY) : Prop :=
  match p.lugar with
  | .toma => p.p2 = s.vaga
  | .unlock .entrada | .compara => p.p2 = s.vaga ∧ s.vaga ≠ 0
  | .mostra .entrada => False
  | .saiu => c ∉ s.admitidos
  | lugar => lugar.etapa = .jogo → s.admitidos = [c]

/-- The admission. -/
structure Admissao (pid : Option ι → ℕ) (config : Config (Option ι) (Memoria ι) (Processo nX nY)) :
    Prop where
  vaga : Vaga pid config.shared (config.locals none).lugar
  situacao : ∀ c, Situacao config.shared c (config.locals (some c))

theorem admissao_start (pid : Option ι → ℕ) (nX nY : ℕ) (tabela : Tabela) :
    Admissao pid (start ι nX nY tabela) :=
  ⟨.inl ⟨rfl, nofun⟩, fun _ => nofun⟩

/-- Who plays is the one admitted. -/
theorem Situacao.jogo {s : Memoria ι} {c : ι} {p : Processo nX nY} (situacao : Situacao s c p)
    (playing : p.lugar.etapa = .jogo) : s.admitidos = [c] := by
  unfold Situacao at situacao
  split at situacao
  · rw [‹p.lugar = _›] at playing
    cases playing
  · rw [‹p.lugar = _›] at playing
    cases playing
  · rw [‹p.lugar = _›] at playing
    cases playing
  · exact situacao.elim
  · rw [‹p.lugar = _›] at playing
    cases playing
  · exact situacao playing

theorem situacao_of_jogo {s : Memoria ι} {c : ι} {p : Processo nX nY}
    (playing : p.lugar.etapa = .jogo) (admitted : s.admitidos = [c]) : Situacao s c p := by
  unfold Situacao
  split
  · rw [‹p.lugar = _›] at playing
    cases playing
  · rw [‹p.lugar = _›] at playing
    cases playing
  · rw [‹p.lugar = _›] at playing
    cases playing
  · rw [‹p.lugar = _›] at playing
    cases playing
  · rw [‹p.lugar = _›] at playing
    cases playing
  · exact fun _ => admitted

/-- The facts of a challenger depend only on `player[1].pid` and on who was admitted. -/
theorem Situacao.congr {s after : Memoria ι} {c : ι} {p : Processo nX nY}
    (situacao : Situacao s c p) (vaga : after.vaga = s.vaga)
    (admitidos : after.admitidos = s.admitidos) : Situacao after c p := by
  unfold Situacao
  rw [vaga, admitidos]
  exact situacao

/-- **A challenger's own step.** -/
theorem situacao_self (distinct : Function.Injective pid) (nonzero : ∀ p, pid p ≠ 0)
    {s after : Memoria ι} {c : ι} {p : Processo nX nY} {starter : Lugar nX nY}
    (vaga : Vaga pid s starter) (written : starter.antes = false)
    (outside : p.lugar.etapa ≠ .inicio) (situacao : Situacao s c p)
    (moved : Movimento nZ nShips pid e (some c) s p after place) : Situacao after c place := by
  -- what the challenger found in `player[1].pid`, if it was not 0
  have holder : s.vaga ≠ 0 → ∃ d, s.admitidos = [d] ∧ s.vaga = pid (some d) := by
    intro taken
    rcases vaga with ⟨_, free⟩ | ⟨d, _, admitted, value⟩
    · exact absurd (free written) taken
    · exact ⟨d, admitted, value⟩
  have plays : p.lugar.etapa = .jogo → place.lugar.etapa = .jogo →
      after.admitidos = s.admitidos → Situacao after c place := fun before now same =>
    situacao_of_jogo now (same.trans (situacao.jogo before))
  cases moved with
  | chega => exact nofun
  | lock trecho here =>
    rcases trecho with _ | _ | _ | (_ | _) | _
    · exact nofun
    · exact nofun
    all_goals exact plays (by rw [here]; rfl) rfl rfl
  | pid0 | pid1 | gera | leP1 => exact nofun
  | leP2 => exact rfl
  | toma here =>
    exact ⟨(setPid_one _ _).symm, fun zero => nonzero (some c) ((setPid_one _ _).symm.trans zero)⟩
  | tomado here taken =>
    unfold Situacao at situacao
    rw [here] at situacao
    exact ⟨situacao, fun zero => taken (situacao.trans zero)⟩
  | bomba alvo here => exact plays (by rw [here]; rfl) rfl rfl
  | mostra trecho here =>
    cases trecho with
    | inicio => exact absurd (by rw [here]; rfl) outside
    | entrada =>
      unfold Situacao at situacao
      rw [here] at situacao
      exact situacao.elim
    | _ => exact plays (by rw [here]; rfl) rfl rfl
  | unlock trecho here =>
    cases trecho with
    | inicio => exact absurd (by rw [here]; rfl) outside
    | entrada =>
      unfold Situacao at situacao
      rw [here] at situacao
      exact situacao
    | _ => exact plays (by rw [here]; rfl) rfl rfl
  | aceito here own =>
    unfold Situacao at situacao
    rw [here] at situacao
    obtain ⟨d, admitted, value⟩ := holder situacao.2
    have same : some d = some c := distinct (value.symm.trans (situacao.1.symm.trans own))
    rw [Option.some.inj same] at admitted
    exact situacao_of_jogo rfl admitted
  | recusado here other =>
    unfold Situacao at situacao
    rw [here] at situacao
    obtain ⟨d, admitted, value⟩ := holder situacao.2
    show c ∉ s.admitidos
    rw [admitted, List.mem_singleton]
    rintro rfl
    exact other (situacao.1.trans value)
  | wait2 ultimo here starter => cases starter
  | notify2 ultimo d here => exact plays (by rw [here]; rfl) (by cases ultimo <;> rfl) rfl
  | jogada alvo here => exact plays (by rw [here]; rfl) rfl rfl
  | final here => exact plays (by rw [here]; rfl) rfl rfl

/-- A challenger that finds the place free is the first. -/
theorem Admissao.livre (nonzero : ∀ p, pid p ≠ 0) {c : ι} (admissao : Admissao pid config)
    (here : (config.locals (some c)).lugar = .toma) (zero : (config.locals (some c)).p2 = 0) :
    config.shared.vaga = 0 ∧ config.shared.admitidos = [] := by
  have free : config.shared.vaga = 0 := by
    have found := admissao.situacao c
    unfold Situacao at found
    rw [here] at found
    exact found.symm.trans zero
  refine ⟨free, ?_⟩
  rcases admissao.vaga with ⟨none, _⟩ | ⟨d, _, _, value⟩
  · exact none
  · exact absurd (value.symm.trans free) (nonzero (some d))

/-- **The challengers that do not move.** -/
theorem situacao_other (nonzero : ∀ p, pid p ≠ 0) {d : ι} (different : some d ≠ proc)
    (ordem : Ordem config) (admissao : Admissao pid config)
    (moved : Movimento nZ nShips pid e proc config.shared (config.locals proc) shared place) :
    Situacao shared d (config.locals (some d)) := by
  have situacao := admissao.situacao d
  rcases moved.vaga with ⟨_, same, admitted⟩ | ⟨here, _, _⟩ | ⟨here, zero, _, admitted⟩
  · exact situacao.congr same admitted
  · -- the starter writes before any challenger has started
    unfold Situacao
    rw [ordem.fechada (ordem.of_pid1 here).2 d]
    exact nofun
  · -- a challenger takes the place: nobody had found it taken
    obtain ⟨c, rfl⟩ := ordem.of_toma here
    obtain ⟨free, none⟩ := admissao.livre nonzero here zero
    unfold Situacao
    split <;> rename_i there
    · refine absurd (ordem.trava.exclusive ?_ ?_) different
      · rw [there]
        rfl
      · rw [here]
        rfl
    · unfold Situacao at situacao
      rw [there] at situacao
      exact absurd free situacao.2
    · unfold Situacao at situacao
      rw [there] at situacao
      exact absurd free situacao.2
    · unfold Situacao at situacao
      rw [there] at situacao
      exact situacao
    · rw [admitted, none]
      exact fun member => different (congrArg some (List.mem_singleton.mp member))
    · intro playing
      exact absurd (none.symm.trans (situacao.jogo playing)) nofun

/-- The place of the opponent. -/
theorem vaga_step (nonzero : ∀ p, pid p ≠ 0) (ordem : Ordem config)
    (admissao : Admissao pid config)
    (moved : Movimento nZ nShips pid e proc config.shared (config.locals proc) shared place) :
    Vaga pid shared (Function.update config.locals proc place none).lugar := by
  have opens : config.shared.aberta = true → shared.aberta = true := by
    intro opened
    rcases moved.etapa with ⟨_, same⟩ | ⟨_, _, now⟩ | ⟨_, _, rfl⟩
    · exact same.trans opened
    · exact now
    · exact opened
  rcases moved.vaga with ⟨here, same, admitted⟩ | ⟨here, value, admitted⟩ |
    ⟨here, zero, value, admitted⟩
  · rcases admissao.vaga with ⟨none, free⟩ | ⟨d, opened, holds, value⟩
    · refine .inl ⟨admitted.trans none, fun written => same.trans (free ?_)⟩
      cases proc with
      | none =>
        rw [Function.update_self] at written
        exact (moved.antes written).resolve_right here
      | some c =>
        rw [update_some_none] at written
        exact written
    · exact .inr ⟨d, opens opened, admitted.trans holds, same.trans value⟩
  · refine .inl ⟨admitted.trans ?_, fun _ => value⟩
    rcases admissao.vaga with ⟨none, _⟩ | ⟨d, opened, _, _⟩
    · exact none
    · exact absurd (opened.symm.trans (ordem.of_pid1 here).2) nofun
  · obtain ⟨c, rfl⟩ := ordem.of_toma here
    obtain ⟨_, none⟩ := admissao.livre nonzero here zero
    exact .inr ⟨c, opens (ordem.aberta moved), by rw [admitted, none]; rfl, value⟩

theorem admissao_step (distinct : Function.Injective pid) (nonzero : ∀ p, pid p ≠ 0)
    (ordem : Ordem config) (admissao : Admissao pid config)
    (moved : Movimento nZ nShips pid e proc config.shared (config.locals proc) shared place) :
    Admissao pid ⟨shared, Function.update config.locals proc place⟩ := by
  refine ⟨vaga_step nonzero ordem admissao moved, fun d => ?_⟩
  show Situacao shared d (Function.update config.locals proc place (some d))
  by_cases same : some d = proc
  · subst same
    rw [Function.update_self]
    exact situacao_self distinct nonzero admissao.vaga (ordem.written (ordem.aberta moved))
      (ordem.desafiante d) (admissao.situacao d) moved
  · rw [Function.update_of_ne same]
    exact situacao_other nonzero same ordem admissao moved

/-! ### The two signals -/

/-- **The second semaphore**: what the challenger admitted has given and the starter has not taken
yet. -/
def Avisos (config : Config (Option ι) (Memoria ι) (Processo nX nY)) : Prop :=
  (config.shared.admitidos = [] ∧ config.shared.sem1 + (config.locals none).lugar.fase = 0) ∨
    ∃ c, config.shared.admitidos = [c] ∧
      config.shared.sem1 + (config.locals none).lugar.fase = (config.locals (some c)).lugar.fase

/-- Who is not admitted has given no signal. -/
theorem Situacao.fase {s : Memoria ι} {c : ι} {p : Processo nX nY} (situacao : Situacao s c p)
    (other : s.admitidos ≠ [c]) : p.lugar.fase = 0 := by
  by_contra passed
  exact other (situacao.jogo (etapa_of_fase passed))

theorem avisos_step (nonzero : ∀ p, pid p ≠ 0) (ordem : Ordem config)
    (admissao : Admissao pid config) (avisos : Avisos config)
    (moved : Movimento nZ nShips pid e proc config.shared (config.locals proc) shared place)
    (kept : Admissao pid ⟨shared, Function.update config.locals proc place⟩) :
    Avisos ⟨shared, Function.update config.locals proc place⟩ := by
  cases proc with
  | none =>
    have admitted : shared.admitidos = config.shared.admitidos := by
      rcases moved.vaga with ⟨_, _, same⟩ | ⟨_, _, same⟩ | ⟨here, _⟩
      · exact same
      · exact same
      · exact absurd (ordem.of_toma here) (by rintro ⟨c, none⟩; cases none)
    have balance : shared.sem1 + place.lugar.fase =
        config.shared.sem1 + (config.locals none).lugar.fase := by
      rcases moved.fase with ⟨sem, fase⟩ | ⟨_, sem, fase⟩ | ⟨challenger, _⟩
      · rw [sem, fase]
      · omega
      · exact absurd rfl challenger
    have self : Function.update config.locals none place none = place := Function.update_self ..
    unfold Avisos
    dsimp only
    rw [self, admitted, balance]
    simp only [update_none_some]
    exact avisos
  | some c =>
    have starter : Function.update config.locals (some c) place none = config.locals none :=
      update_some_none ..
    have self : Function.update config.locals (some c) place (some c) = place :=
      Function.update_self ..
    have balance : shared.sem1 + (config.locals (some c)).lugar.fase =
        config.shared.sem1 + place.lugar.fase := by
      rcases moved.fase with ⟨sem, fase⟩ | ⟨none, _⟩ | ⟨_, sem, fase⟩
      · rw [sem, fase]
      · cases none
      · omega
    -- who is not admitted has passed no signal, before the step and after it
    have before := (admissao.situacao c).fase
    have now : shared.admitidos ≠ [c] → place.lugar.fase = 0 := fun other =>
      self ▸ (kept.situacao c).fase other
    unfold Avisos
    dsimp only
    rw [starter]
    rcases moved.vaga with ⟨_, _, admitted⟩ | ⟨here, _⟩ | ⟨here, zero, _, admitted⟩
    · rcases avisos with ⟨none, empty⟩ | ⟨d, holds, given⟩
      · have first := before (by rw [none]; exact nofun)
        have second := now (by rw [admitted, none]; exact nofun)
        exact .inl ⟨admitted.trans none, by omega⟩
      · refine .inr ⟨d, admitted.trans holds, ?_⟩
        by_cases same : d = c
        · subst same
          rw [self]
          omega
        · have different : [d] ≠ [c] := fun equal => same (List.head_eq_of_cons_eq equal)
          have first := before (holds ▸ different)
          have second := now (admitted.trans holds ▸ different)
          rw [update_some_of_ne _ _ same]
          omega
    · cases (ordem.of_pid1 here).1
    · obtain ⟨_, none⟩ := admissao.livre nonzero here zero
      have first := before (by rw [none]; exact nofun)
      rcases avisos with ⟨_, empty⟩ | ⟨d, holds, _⟩
      · refine .inr ⟨c, by rw [admitted, none]; rfl, ?_⟩
        rw [self]
        omega
      · cases none.symm.trans holds

/-! ### The run -/

/-- **What every run keeps.** -/
structure Sessao (pid : Option ι → ℕ) (config : Config (Option ι) (Memoria ι) (Processo nX nY)) :
    Prop where
  ordem : Ordem config
  admissao : Admissao pid config
  avisos : Avisos config

theorem sessao_of_reachable (distinct : Function.Injective pid) (nonzero : ∀ p, pid p ≠ 0)
    {tabela : Tabela}
    (reach : Reachable (next nX nY nZ nShips pid) (start ι nX nY tabela) config) :
    Sessao pid config := by
  refine reach.invariant (Sessao pid)
    ⟨ordem_start ι nX nY tabela, admissao_start pid nX nY tabela, .inl ⟨rfl, rfl⟩⟩ ?_
  intro before label after kept _ moved
  obtain ⟨shared, place, run, rfl⟩ := step_eq_some moved
  have act := movimento_of_program run
  have admissao := admissao_step distinct nonzero kept.ordem kept.admissao act
  exact ⟨ordem_step kept.ordem act, admissao,
    avisos_step nonzero kept.ordem kept.admissao kept.avisos act admissao⟩

theorem Admissao.length_le (admissao : Admissao pid config) :
    config.shared.admitidos.length ≤ 1 := by
  rcases admissao.vaga with ⟨none, _⟩ | ⟨c, _, holds, _⟩
  · rw [none]
    exact Nat.zero_le 1
  · rw [holds]
    exact Nat.le_refl 1

/-- A challenger that was not admitted leaves when it compares. -/
theorem leaves_of_compara (distinct : Function.Injective pid) (nonzero : ∀ p, pid p ≠ 0)
    {tabela : Tabela}
    (reach : Reachable (next nX nY nZ nShips pid) (start ι nX nY tabela) config) {c : ι}
    (other : c ∉ config.shared.admitidos) (here : (config.locals (some c)).lugar = .compara)
    (e : Entrada) :
    ∃ after, next nX nY nZ nShips pid config (some c, e) = some after ∧
      (after.locals (some c)).lugar = .saiu := by
  have moved : next nX nY nZ nShips pid config (some c, e) = some ⟨config.shared,
      Function.update config.locals (some c) { config.locals (some c) with
        lugar := if (config.locals (some c)).p2 = pid (some c) then .lock .primeira
          else .saiu }⟩ := by
    simp only [next, step, program, here, Option.map_some]
  refine ⟨_, moved, ?_⟩
  by_cases own : (config.locals (some c)).p2 = pid (some c)
  · have sessao := sessao_of_reachable distinct nonzero (reach.step trivial moved)
    have playing := (sessao.admissao.situacao c).jogo
    rw [if_pos own] at playing
    simp only [Function.update_self] at playing
    rw [playing rfl] at other
    exact absurd (List.mem_singleton_self c) other
  · rw [if_neg own]
    simp only [Function.update_self]

/-- **The session protocol**, with any number of challengers and in every interleaving:

* at most one process is between `LOCK` and `UNLOCK`;
* once the table is open, a step changes `player[1].pid` only from 0, and then it is the first
  admission; at most one challenger is admitted in all;
* a challenger that is not admitted never plays, it leaves when it has compared `p2` with its pid,
  and one that has left was not admitted;
* when the starter has returned, so has the challenger admitted, after its last signal. -/
theorem session_protocol (distinct : Function.Injective pid) (nonzero : ∀ p, pid p ≠ 0)
    {tabela : Tabela}
    (reach : Reachable (next nX nY nZ nShips pid) (start ι nX nY tabela) config) :
    (∀ first second, (config.locals first).lugar.dentro = true →
      (config.locals second).lugar.dentro = true → first = second) ∧
    (∀ label after, next nX nY nZ nShips pid config label = some after →
      config.shared.aberta = true → after.shared.vaga ≠ config.shared.vaga →
      config.shared.vaga = 0 ∧ config.shared.admitidos = [] ∧
        ∃ c, label.1 = some c ∧ after.shared.admitidos = [c]) ∧
    config.shared.admitidos.length ≤ 1 ∧
    (∀ c, c ∉ config.shared.admitidos → (config.locals (some c)).lugar.etapa ≠ .jogo) ∧
    (∀ c e, c ∉ config.shared.admitidos → (config.locals (some c)).lugar = .compara →
      ∃ after, next nX nY nZ nShips pid config (some c, e) = some after ∧
        (after.locals (some c)).lugar = .saiu) ∧
    (∀ c, (config.locals (some c)).lugar = .saiu → c ∉ config.shared.admitidos) ∧
    ((config.locals none).lugar = .fim →
      ∃ c, config.shared.admitidos = [c] ∧ (config.locals (some c)).lugar = .fim) := by
  obtain ⟨ordem, admissao, avisos⟩ := sessao_of_reachable distinct nonzero reach
  refine ⟨fun first second here there => ordem.trava.exclusive here there, ?_,
    admissao.length_le, ?_,
    fun c e other here => leaves_of_compara distinct nonzero reach other here e, ?_, ?_⟩
  · intro label after moved opened changed
    obtain ⟨shared, place, run, rfl⟩ := step_eq_some moved
    rcases (movimento_of_program run).vaga with ⟨_, same, _⟩ | ⟨here, _⟩ | ⟨here, zero, _, admitted⟩
    · exact absurd same changed
    · exact absurd (opened.symm.trans (ordem.of_pid1 here).2) nofun
    · obtain ⟨c, own⟩ := ordem.of_toma here
      rw [own] at here zero admitted
      obtain ⟨free, none⟩ := admissao.livre nonzero here zero
      exact ⟨free, none, c, own, by rw [admitted, none]; rfl⟩
  · intro c other playing
    rw [(admissao.situacao c).jogo playing] at other
    exact other (List.mem_singleton_self c)
  · intro c left
    have situacao := admissao.situacao c
    unfold Situacao at situacao
    rw [left] at situacao
    exact situacao
  · intro returned
    have two : (config.locals none).lugar.fase = 2 := by rw [returned]; rfl
    rcases avisos with ⟨_, empty⟩ | ⟨c, holds, given⟩
    · omega
    · exact ⟨c, holds, fim_of_fase (by omega)⟩

/-- A session on a board of two ships, to the return of the starter: one challenger plays, the
other leaves. -/
theorem session_two_challengers :
    let pid : Option (Fin 2) → ℕ := fun proc => proc.elim 1 fun c => c.val + 2
    ∃ config, Reachable (next 2 3 1 2 pid)
        (start (Fin 2) 2 3 ⟨fun _ => ⟨0, 0⟩, fun _ _ => '.', fun _ _ => 0⟩) config ∧
      (config.locals (some 1)).lugar = .saiu ∧
      ∃ c, config.shared.admitidos = [c] ∧ (config.locals (some c)).lugar = .fim := by
  intro pid
  have evaluated : ∃ config : Config (Option (Fin 2)) (Memoria (Fin 2)) (Processo 2 3),
      Reachable (next 2 3 1 2 pid)
          (start (Fin 2) 2 3 ⟨fun _ => ⟨0, 0⟩, fun _ _ => '.', fun _ _ => 0⟩) config ∧
        (config.locals (some 1)).lugar = .saiu ∧ (config.locals none).lugar = .fim := by
    let ships : Entrada := ⟨[], [⟨0, 1, 0, 0⟩, ⟨0, 1, 0, 2⟩]⟩
    let nothing : Entrada := ⟨[], []⟩
    refine exists_reach_of_execute
      (List.replicate 6 (none, ships) ++ List.replicate 11 (some 0, nothing) ++
        List.replicate 7 (some 1, nothing) ++ [(none, nothing)] ++
        List.replicate 5 (none, ⟨['a', 'a'], []⟩) ++ List.replicate 5 (none, ⟨['a', 'b'], []⟩) ++
        List.replicate 9 (some 0, nothing) ++ List.replicate 5 (none, nothing)) _ ?_
    decide +kernel
  obtain ⟨config, reach, left, returned⟩ := evaluated
  have distinct : Function.Injective pid := by decide
  have nonzero : ∀ p, pid p ≠ 0 := by decide
  exact ⟨config, reach, left, (session_protocol distinct nonzero reach).2.2.2.2.2.2 returned⟩

end Invariant

end BatalhaNaval
