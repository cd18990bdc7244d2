/-
**`simulador.c`: the ticks of the start-up.**

`init_proc` arms the timer before the first call of `cria_processo`, so that a tick may come between
any two assignments of `cria_processo`, and before the first of them.

* `atribui` — the assignments of `cria_processo`, one at a time; done in a row they are
  `criaProcesso` (`criaProcesso_eq_foldl`).
* `step` — `main` by one statement, or a tick.
* `unset_called` — a tick before the first process is set calls an empty row; so does a tick that
  wraps around to `processo_id` after it was incremented and before `processo` is assigned.
* `Sereno` — the condition: a tick comes only when there is a process, and not between
  `++processo_id` and the assignment of `processo`.
* `chama_of_sereno` — **in every run of steps that meet the condition, every tick that meets it
  calls a process that was set**, however many processes `main` creates.
-/

import SistemasOperacionais.Simulador.Model

namespace Simulador.StartUp

open Transition Simulador

/-- The assignments of `cria_processo`, in order. -/
inductive Atribuicao
  /-- `tabela_Processos[ ++processo_id ].id = processo_id` -/
  | id
  | ci
  | bd
  | r0
  | r1
  | r2
  | r3
  | r4
  | processo
  | proximo
  deriving DecidableEq, Repr

/-- The assignment after this one. -/
def Atribuicao.seguinte : Atribuicao → Option Atribuicao
  | .id => some .ci
  | .ci => some .bd
  | .bd => some .r0
  | .r0 => some .r1
  | .r1 => some .r2
  | .r2 => some .r3
  | .r3 => some .r4
  | .r4 => some .processo
  | .processo => some .proximo
  | .proximo => none

/-- `tabela_Processos[ processo_id ] = …` -/
def grava (s : Estado) (linha : Linha) : Estado :=
  { s with tabela := Function.update s.tabela s.processoId linha }

/-- One assignment of `cria_processo( proc )`. -/
def atribui (proc : Corpo) (s : Estado) (atribuicao : Atribuicao) : Estado :=
  let linha := s.tabela s.processoId
  match atribuicao with
  | .id => { s with processoId := s.processoId + 1 }
  | .ci => grava s { linha with ci := 0 }
  | .bd => grava s { linha with bd := 0 }
  | .r0 => grava s { linha with r0 := 0 }
  | .r1 => grava s { linha with r1 := 0 }
  | .r2 => grava s { linha with r2 := 0 }
  | .r3 => grava s { linha with r3 := 0 }
  | .r4 => grava s { linha with r4 := 0 }
  | .processo =>
      { grava s { linha with processo := some proc } with criados := s.criados ++ [proc] }
  | .proximo =>
      grava s { linha with proximo := if 0 < s.processoId then s.processoId - 1 else -1 }

/-- Where `main` is; `procs` are the processes it has yet to create. -/
inductive Lugar
  /-- `init_proc()` -/
  | init (procs : List Corpo)
  /-- the next call, with the test of `cria_processo` -/
  | chama (procs : List Corpo)
  | atribui (atribuicao : Atribuicao) (proc : Corpo) (procs : List Corpo)
  /-- `while(1)` -/
  | laco
  /-- after `kernel_panic( "muitos processos" )` -/
  | panico

/-- The timer is armed. -/
def Lugar.armado : Lugar → Bool
  | .init _ | .panico => false
  | .chama _ | .atribui .. | .laco => true

structure Arranque where
  sim : Estado
  main : Lugar

/-- `main` before `init_proc`, to create `procs`. -/
def start (procs : List Corpo) : Arranque := ⟨inicio, .init procs⟩

/-- One statement of `main`. -/
def passoMain (numProcessos : ℕ) (s : Arranque) : Option Arranque :=
  match s.main with
  | .init procs => some { s with main := .chama procs }
  | .chama [] => some { s with main := .laco }
  | .chama (proc :: procs) =>
      if s.sim.processoId < (numProcessos : ℤ) - 1 then
        some { s with main := .atribui .id proc procs }
      else some { s with main := .panico }
  | .atribui atribuicao proc procs =>
      some {
        sim := atribui proc s.sim atribuicao
        main := match atribuicao.seguinte with
          | some seguinte => .atribui seguinte proc procs
          | none => .chama procs }
  | .laco => some s
  | .panico => none

inductive Evento
  | main
  | tick
  deriving DecidableEq, Repr

/-- **One step of the start-up.** -/
def step (numProcessos numTicks : ℕ) (s : Arranque) : Evento → Option Arranque
  | .main => passoMain numProcessos s
  | .tick =>
      if s.main.armado then (escalonador numTicks s.sim).map fun sim => { s with sim := sim }
      else none

/-! ### The assignments are `cria_processo` -/

/-- The assignments in a row. -/
def atribuicoes : List Atribuicao :=
  [.id, .ci, .bd, .r0, .r1, .r2, .r3, .r4, .processo, .proximo]

/-- **`cria_processo` is its assignments in a row.** -/
theorem criaProcesso_eq_foldl (numProcessos : ℕ) (s : Estado) (proc : Corpo) :
    criaProcesso numProcessos s proc =
      if s.processoId < (numProcessos : ℤ) - 1 then some (atribuicoes.foldl (atribui proc) s)
      else none := by
  unfold criaProcesso
  refine if_congr Iff.rfl ?_ rfl
  simp only [atribuicoes, List.foldl_cons, List.foldl_nil, atribui, grava, Function.update_self,
    Function.update_idem]
  rfl

theorem atribui_processo (proc : Corpo) (s : Estado) (atribuicao : Atribuicao) (i : ℤ) :
    ((atribui proc s atribuicao).tabela i).processo =
      if atribuicao = .processo ∧ i = s.processoId then some proc else (s.tabela i).processo := by
  by_cases same : i = s.processoId
  · subst same
    cases atribuicao <;> simp [atribui, grava]
  · cases atribuicao <;> simp [atribui, grava, same]

theorem atribui_proximo (proc : Corpo) (s : Estado) (atribuicao : Atribuicao) (i : ℤ) :
    ((atribui proc s atribuicao).tabela i).proximo =
      if atribuicao = .proximo ∧ i = s.processoId then
        (if 0 < s.processoId then s.processoId - 1 else -1)
      else (s.tabela i).proximo := by
  by_cases same : i = s.processoId
  · subst same
    cases atribuicao <;> simp [atribui, grava]
  · cases atribuicao <;> simp [atribui, grava, same]

/-- What an assignment does to the other variables. -/
theorem atribui_frame (proc : Corpo) (s : Estado) (atribuicao : Atribuicao) :
    (atribui proc s atribuicao).reentrada = s.reentrada ∧
      (atribui proc s atribuicao).pid = s.pid ∧
      (atribui proc s atribuicao).processoId =
        if atribuicao = .id then s.processoId + 1 else s.processoId := by
  cases atribuicao <;> exact ⟨rfl, rfl, rfl⟩

/-! ### What a tick may call -/

/-- The next tick calls a process that was set. -/
def Chama (numTicks : ℕ) (s : Arranque) : Prop :=
  s.main.armado = true → ∃ corpo after,
    (s.sim.tabela (escolhido numTicks s.sim)).processo = some corpo ∧
      escalonador numTicks s.sim = some after

/-- **Ticks that call an empty row**: before the first process, and after it on a wrap-around to the
row that `main` is filling. -/
theorem unset_called :
    (∃ s, Reachable (step 20 2) (start [fun cpu => cpu]) s ∧ s.sim.processoId = -1 ∧
      ¬ Chama 2 s) ∧
    ∃ s, Reachable (step 20 2) (start [fun cpu => cpu, fun cpu => cpu]) s ∧
      s.sim.criados.length = 1 ∧ ¬ Chama 2 s := by
  have empty : ∀ {s : Arranque}, s.main.armado = true →
      (s.sim.tabela (escolhido 2 s.sim)).processo.isNone = true → ¬ Chama 2 s := by
    intro s armed none calls
    obtain ⟨corpo, _, set, _⟩ := calls armed
    rw [set] at none
    cases none
  constructor
  · have evaluated : ∃ s : Arranque, Reachable (step 20 2) (start [fun cpu => cpu]) s ∧
        s.sim.processoId = -1 ∧ s.main.armado = true ∧
          (s.sim.tabela (escolhido 2 s.sim)).processo.isNone = true :=
      exists_reach_of_execute [.main] _ (by decide +kernel)
    obtain ⟨s, reach, before, armed, none⟩ := evaluated
    exact ⟨s, reach, before, empty armed none⟩
  · have evaluated : ∃ s : Arranque, Reachable (step 20 2)
        (start [fun cpu => cpu, fun cpu => cpu]) s ∧ s.sim.criados.length = 1 ∧
          s.main.armado = true ∧ (s.sim.tabela (escolhido 2 s.sim)).processo.isNone = true :=
      exists_reach_of_execute (List.replicate 14 .main ++ [.tick, .tick]) _ (by decide +kernel)
    obtain ⟨s, reach, one, armed, none⟩ := evaluated
    exact ⟨s, reach, one, empty armed none⟩

/-! ### Ticks outside the filling of a row -/

/-- `main` is after `++processo_id` and before the assignment of `processo`. -/
def Lugar.preenche : Lugar → Bool
  | .atribui .id .. | .atribui .proximo .. => false
  | .atribui .. => true
  | .init _ | .chama _ | .laco | .panico => false

/-- **The condition**: a tick comes only when there is a process and no row is half filled. -/
def Sereno (s : Arranque) : Evento → Prop
  | .main => True
  | .tick => 0 ≤ s.sim.processoId ∧ s.main.preenche = false

instance (s : Arranque) (evento : Evento) : Decidable (Sereno s evento) := by
  cases evento <;> unfold Sereno <;> infer_instance

/-- The number of rows whose `processo` is set. -/
def Arranque.prontos (s : Arranque) : ℤ :=
  if s.main.preenche then s.sim.processoId else s.sim.processoId + 1

/-- What the start-up keeps. -/
structure Preparado (s : Arranque) : Prop where
  livre : s.sim.reentrada = false
  feitos : ∀ i : ℤ, 0 ≤ i → i < s.prontos → (s.sim.tabela i).processo ≠ none
  proximos : ∀ i : ℤ, 0 ≤ i → (s.sim.tabela i).proximo ≤ i
  pid : 0 ≤ s.sim.pid ∧ (s.sim.pid < s.prontos ∨ s.sim.pid = 0)

theorem preparado_start (procs : List Corpo) : Preparado (start procs) := by
  refine ⟨rfl, ?_, fun i low => low, Int.le_refl _, .inr rfl⟩
  intro i low high
  have none : (start procs).prontos = 0 := rfl
  omega

/-- The rows set only grow by `main`, and the assignment of `processo` sets the next one. -/
theorem preparado_atribui {s : Arranque} {atribuicao : Atribuicao} {proc : Corpo} {main : Lugar}
    (before : Preparado s)
    (rows : (Arranque.mk (atribui proc s.sim atribuicao) main).prontos =
      if atribuicao = .processo then s.prontos + 1 else s.prontos)
    (last : atribuicao = .processo → s.prontos = s.sim.processoId) :
    Preparado ⟨atribui proc s.sim atribuicao, main⟩ := by
  obtain ⟨reentrada, pid, _⟩ := atribui_frame proc s.sim atribuicao
  refine ⟨reentrada.trans before.livre, ?_, ?_, ?_⟩
  · intro i low high
    rw [atribui_processo]
    split
    · exact Option.some_ne_none proc
    · rename_i other
      refine before.feitos i low ?_
      rw [rows] at high
      split at high
      · rename_i assigned
        have := last assigned
        have : i ≠ s.sim.processoId := fun same => other ⟨assigned, same⟩
        omega
      · exact high
  · intro i low
    rw [atribui_proximo]
    have := before.proximos i low
    split <;> omega
  · rw [pid, rows]
    have := before.pid
    split <;> omega

/-- One statement of `main`. -/
theorem preparado_main {numProcessos : ℕ} {s after : Arranque} (before : Preparado s)
    (moved : passoMain numProcessos s = some after) : Preparado after := by
  -- a move that leaves the table alone and fills no row
  have stays : ∀ {main : Lugar}, s.main.preenche = false → main.preenche = false →
      Preparado { s with main := main } := by
    intro main outside after
    have same : ({ s with main := main } : Arranque).prontos = s.prontos := by
      unfold Arranque.prontos
      rw [outside, after]
    exact ⟨before.livre, by rw [same]; exact before.feitos, before.proximos,
      by rw [same]; exact before.pid⟩
  obtain ⟨sim, main⟩ := s
  unfold passoMain at moved
  match main with
  | .init procs =>
    cases moved
    exact stays rfl rfl
  | .chama [] =>
    cases moved
    exact stays rfl rfl
  | .chama (proc :: procs) =>
    dsimp only at moved
    split at moved <;> cases moved
    · exact stays rfl rfl
    · exact stays rfl rfl
  | .atribui atribuicao proc procs =>
    cases moved
    refine preparado_atribui before ?_ ?_
    · unfold Arranque.prontos
      rw [(atribui_frame proc sim atribuicao).2.2]
      cases atribuicao <;> rfl
    · rintro rfl
      rfl
  | .laco =>
    cases moved
    exact before
  | .panico => cases moved

/-- **The row chosen by a tick that meets the condition is set.** -/
theorem escolhido_set (numTicks : ℕ) {s : Arranque} (before : Preparado s)
    (calm : Sereno s .tick) :
    (0 ≤ escolhido numTicks s.sim ∧ escolhido numTicks s.sim < s.prontos) ∧
      (s.sim.tabela (escolhido numTicks s.sim)).processo ≠ none := by
  obtain ⟨some, outside⟩ := calm
  have rows : s.prontos = s.sim.processoId + 1 := by
    unfold Arranque.prontos
    rw [outside]
    rfl
  have range : 0 ≤ escolhido numTicks s.sim ∧ escolhido numTicks s.sim < s.prontos := by
    have link := before.proximos s.sim.pid before.pid.1
    have pid := before.pid
    unfold escolhido escolheProcesso
    dsimp only
    split
    · split <;> omega
    · omega
  exact ⟨range, before.feitos _ range.1 range.2⟩

theorem preparado_tick {numTicks : ℕ} {s : Arranque} {sim : Estado} (before : Preparado s)
    (calm : Sereno s .tick) (ran : escalonador numTicks s.sim = some sim) :
    Preparado { s with sim := sim } := by
  obtain ⟨range, _⟩ := escolhido_set numTicks before calm
  rw [escalonador_eq before.livre] at ran
  obtain ⟨corpo, _, rfl⟩ := Option.map_eq_some_iff.mp ran
  refine ⟨before.livre, ?_, ?_, range.1, .inl range.2⟩
  · intro i low high
    dsimp only
    rw [salvaContexto_tabela]
    exact before.feitos i low high
  · intro i low
    dsimp only
    rw [salvaContexto_tabela]
    exact before.proximos i low

/-- **The start-up is kept** by the steps that meet the condition. -/
theorem preparado_of_sereno {numProcessos numTicks : ℕ} {procs : List Corpo} {s : Arranque}
    (reach : Reach (step numProcessos numTicks) Sereno (start procs) s) : Preparado s := by
  refine reach.invariant Preparado (preparado_start procs) ?_
  intro before label after kept calm moved
  cases label with
  | main => exact preparado_main kept moved
  | tick =>
    dsimp only [step] at moved
    split at moved
    · obtain ⟨sim, ran, rfl⟩ := Option.map_eq_some_iff.mp moved
      exact preparado_tick kept calm ran
    · cases moved

/-- **Every tick that meets the condition calls a process that was set**, in every run whose ticks
all meet it. -/
theorem chama_of_sereno {numProcessos numTicks : ℕ} {procs : List Corpo} {s : Arranque}
    (reach : Reach (step numProcessos numTicks) Sereno (start procs) s)
    (calm : Sereno s .tick) : Chama numTicks s := by
  intro _
  have kept := preparado_of_sereno reach
  obtain ⟨corpo, set⟩ := Option.ne_none_iff_exists'.mp (escolhido_set numTicks kept calm).2
  exact ⟨corpo, _, set, by rw [escalonador_eq kept.livre, set]; rfl⟩

/-- The run of `unset_called` with its ticks outside the filling of a row. -/
theorem chama_two_processes :
    ∃ s, Reach (step 20 2) Sereno (start [fun cpu => cpu, fun cpu => cpu]) s ∧
      s.sim.ativacoes.length = 3 ∧ Chama 2 s := by
  have evaluated : ∃ s : Arranque, Reach (step 20 2) Sereno
      (start [fun cpu => cpu, fun cpu => cpu]) s ∧ s.sim.ativacoes.length = 3 ∧ Sereno s .tick :=
    exists_reach_of_execute
      (List.replicate 12 .main ++ [.tick, .tick] ++ List.replicate 12 .main ++ [.tick]) _
      (by decide +kernel)
  obtain ⟨s, reach, three, calm⟩ := evaluated
  exact ⟨s, reach, three, chama_of_sereno reach calm⟩

end Simulador.StartUp
