/-
**`simulador.c`: every process sees its own registers only.**

* `Coerente` — the table agrees with the processes created: row `i` holds the `i`-th body, and its
  link is `i - 1`. A tick then runs a process as soon as there is one (`escalonador_runs`).
* `Separado` — **the registers of process `i` are what `i` made of zeros in its own activations so
  far**, wherever they are: in `_cpu` for the running process, in the table for the others.
* `isolated` — **each activation of process `i` starts with the registers that `i` alone would
  have**, after as many activations, whatever the other processes do and whenever `escalonador`
  switches.
-/

import SistemasOperacionais.Simulador.Model

namespace Simulador

open Transition

variable {numProcessos numTicks : ℕ} {s after : Estado}

/-- The body of process `i`. -/
def corpoDe (criados : List Corpo) (i : ℤ) : Option Corpo :=
  if 0 ≤ i then criados[i.toNat]? else none

/-- How often process `i` was activated. -/
def vezes (ativacoes : List (ℤ × Registradores)) (i : ℤ) : ℕ := (ativacoes.map Prod.fst).count i

/-- The registers of a process that ran `k` times, alone. -/
def sozinho (corpo : Corpo) (k : ℕ) : Registradores := corpo^[k] zeros

theorem sozinho_succ (corpo : Corpo) (k : ℕ) : corpo (sozinho corpo k) = sozinho corpo (k + 1) :=
  (Function.iterate_succ_apply' corpo k zeros).symm

theorem vezes_concat (ativacoes : List (ℤ × Registradores)) (i j : ℤ) (regs : Registradores) :
    vezes (ativacoes ++ [(j, regs)]) i = vezes ativacoes i + if j = i then 1 else 0 := by
  unfold vezes
  rw [List.map_append, List.count_append, List.map_singleton, List.count_singleton]
  simp

/-- A place in a list with one entry more: an earlier place, or the last one. -/
theorem concat_eq_append_cons {α : Type} {xs antes depois : List α} {x y : α}
    (same : xs ++ [x] = antes ++ y :: depois) :
    (xs = antes ∧ x = y) ∨ ∃ init, xs = antes ++ y :: init := by
  rcases List.eq_nil_or_concat' depois with rfl | ⟨init, last, rfl⟩
  · obtain ⟨front, back⟩ := List.append_inj' same rfl
    cases back
    exact .inl ⟨front, rfl⟩
  · rw [← List.cons_append, ← List.append_assoc] at same
    exact .inr ⟨init, (List.append_inj' same rfl).1⟩

/-! ### The bodies -/

theorem corpoDe_some {criados : List Corpo} {i : ℤ} {corpo : Corpo}
    (known : corpoDe criados i = some corpo) : 0 ≤ i ∧ i < criados.length := by
  unfold corpoDe at known
  split at known
  · rename_i positive
    have less := (List.getElem?_eq_some_iff.mp known).1
    exact ⟨positive, by omega⟩
  · cases known

/-- A number below the number of processes has a body. -/
theorem exists_corpoDe {criados : List Corpo} {i : ℤ} (positive : 0 ≤ i)
    (less : i < criados.length) : ∃ corpo, corpoDe criados i = some corpo := by
  have inside : i.toNat < criados.length := by omega
  refine ⟨criados[i.toNat], ?_⟩
  rw [corpoDe, if_pos positive, List.getElem?_eq_getElem inside]

/-- The new process is the last one. -/
theorem corpoDe_concat (criados : List Corpo) (proc : Corpo) (i : ℤ) :
    corpoDe (criados ++ [proc]) i =
      if i = criados.length then some proc else corpoDe criados i := by
  by_cases last : i = criados.length
  · rw [if_pos last, corpoDe, if_pos (by omega), last, Int.toNat_natCast,
      List.getElem?_concat_length]
  · rw [if_neg last]
    unfold corpoDe
    split
    · rename_i positive
      by_cases inside : i.toNat < criados.length
      · rw [List.getElem?_append_left inside]
      · have beyond : criados.length < i.toNat := by omega
        rw [List.getElem?_eq_none (Nat.le_of_lt beyond), List.getElem?_eq_none]
        rw [List.length_append, List.length_singleton]
        exact beyond
    · rfl

/-! ### The table -/

/-- The table agrees with the processes created. -/
structure Coerente (s : Estado) : Prop where
  livre : s.reentrada = false
  tamanho : s.processoId = s.criados.length - 1
  corpos : ∀ i, (s.tabela i).processo = corpoDe s.criados i
  proximos : ∀ i : ℤ, 0 ≤ i → i < s.criados.length → (s.tabela i).proximo = i - 1
  /-- the running process is one of them, once there is one -/
  atual : s.pid = 0 ∨ 0 ≤ s.pid ∧ s.pid < s.criados.length

theorem coerente_inicio : Coerente inicio := by
  refine ⟨rfl, rfl, fun i => ?_, fun i positive less => ?_, .inl rfl⟩
  · show none = corpoDe [] i
    unfold corpoDe
    split <;> rfl
  · simp only [inicio, List.length_nil] at less
    omega

/-- `cria_processo` that does not panic. -/
theorem criaProcesso_eq_some {proc : Corpo} (coerente : Coerente s)
    (run : criaProcesso numProcessos s proc = some after) :
    s.criados.length < numProcessos ∧
    after = { s with
      processoId := s.criados.length
      tabela := Function.update s.tabela s.criados.length
        { zeros with processo := some proc, proximo := s.criados.length - 1 }
      criados := s.criados ++ [proc] } := by
  have number : s.processoId + 1 = s.criados.length := by
    rw [coerente.tamanho]
    omega
  have link : (if (0 : ℤ) < s.criados.length then (s.criados.length : ℤ) - 1 else -1) =
      s.criados.length - 1 := by
    split <;> omega
  unfold criaProcesso at run
  dsimp only at run
  rw [number, link] at run
  split at run
  · cases run
    exact ⟨by omega, rfl⟩
  · cases run

/-- A tick that runs a process. -/
theorem escalonador_eq_some (coerente : Coerente s) (run : escalonador numTicks s = some after) :
    ∃ corpo, corpoDe s.criados (escolhido numTicks s) = some corpo ∧
    after = { s with
      tabela := (salvaContexto s).tabela
      pid := escolhido numTicks s
      contador := contagem numTicks s
      cpu := corpo (contexto s (escolhido numTicks s))
      ativacoes := s.ativacoes ++
        [(escolhido numTicks s, contexto s (escolhido numTicks s))] } := by
  rw [escalonador_eq coerente.livre, coerente.corpos] at run
  obtain ⟨corpo, known, rfl⟩ := Option.map_eq_some_iff.mp run
  exact ⟨corpo, known, rfl⟩

/-- With a process created, the process chosen is one of them. -/
theorem escolhido_mem (numTicks : ℕ) (coerente : Coerente s) (some : s.criados ≠ []) :
    0 ≤ escolhido numTicks s ∧ escolhido numTicks s < s.criados.length := by
  have positive : 0 < s.criados.length := List.length_pos_of_ne_nil some
  have atual := coerente.atual
  have inside : 0 ≤ s.pid ∧ s.pid < s.criados.length := by omega
  unfold escolhido escolheProcesso
  rw [coerente.proximos s.pid inside.1 inside.2, coerente.tamanho]
  dsimp only
  split
  · split <;> omega
  · exact inside

/-- **A tick runs a process**, once there is one. -/
theorem escalonador_runs (numTicks : ℕ) (coerente : Coerente s) (some : s.criados ≠ []) :
    ∃ after, escalonador numTicks s = .some after := by
  obtain ⟨positive, less⟩ := escolhido_mem numTicks coerente some
  obtain ⟨corpo, body⟩ := exists_corpoDe positive less
  rw [escalonador_eq coerente.livre, coerente.corpos, body]
  exact ⟨_, rfl⟩

theorem coerente_cria {proc : Corpo} (coerente : Coerente s)
    (run : criaProcesso numProcessos s proc = some after) : Coerente after := by
  obtain ⟨_, rfl⟩ := criaProcesso_eq_some coerente run
  refine ⟨coerente.livre, ?_, fun i => ?_, fun i positive less => ?_, ?_⟩
  · simp
  · show (Function.update s.tabela _ _ i).processo = corpoDe (s.criados ++ [proc]) i
    rw [corpoDe_concat, Function.update_apply]
    split
    · rfl
    · exact coerente.corpos i
  · show (Function.update s.tabela _ _ i).proximo = i - 1
    rw [Function.update_apply]
    simp only [List.length_append, List.length_singleton] at less
    split
    · rename_i last
      rw [last]
    · exact coerente.proximos i positive (by omega)
  · have atual := coerente.atual
    simp only [List.length_append, List.length_singleton]
    omega

theorem coerente_tick (coerente : Coerente s) (run : escalonador numTicks s = some after) :
    Coerente after := by
  obtain ⟨corpo, known, rfl⟩ := escalonador_eq_some coerente run
  refine ⟨coerente.livre, coerente.tamanho, fun i => ?_, fun i positive less => ?_,
    .inr (corpoDe_some known)⟩
  · show ((salvaContexto s).tabela i).processo = _
    rw [salvaContexto_tabela]
    exact coerente.corpos i
  · show ((salvaContexto s).tabela i).proximo = _
    rw [salvaContexto_tabela]
    exact coerente.proximos i positive less

/-! ### The registers -/

/-- **The registers of each process are its own.** -/
structure Separado (s : Estado) : Prop where
  contextos : ∀ i corpo, corpoDe s.criados i = some corpo →
    contexto s i = sozinho corpo (vezes s.ativacoes i)
  /-- a number not given to a process yet: not activated, and with `_cpu` zero if it is `pid` -/
  futuros : ∀ i : ℤ, s.criados.length ≤ i → vezes s.ativacoes i = 0 ∧ (i = s.pid → s.cpu = zeros)
  historia : ∀ antes i regs depois, s.ativacoes = antes ++ (i, regs) :: depois →
    ∃ corpo, corpoDe s.criados i = some corpo ∧ regs = sozinho corpo (vezes antes i)

theorem separado_inicio : Separado inicio := by
  refine ⟨fun i corpo known => ?_, fun _ _ => ⟨rfl, fun _ => rfl⟩,
    fun antes i regs depois same => ?_⟩
  · obtain ⟨positive, less⟩ := corpoDe_some known
    simp only [inicio, List.length_nil] at less
    omega
  · exact absurd same.symm (List.append_ne_nil_of_right_ne_nil _ (List.cons_ne_nil _ _))

/-- A new process starts from zeros; the others keep their registers. -/
theorem separado_cria {proc : Corpo} (coerente : Coerente s) (separado : Separado s)
    (run : criaProcesso numProcessos s proc = some after) : Separado after := by
  obtain ⟨_, rfl⟩ := criaProcesso_eq_some coerente run
  refine ⟨fun i corpo known => ?_, fun i beyond => ?_, fun antes i regs depois same => ?_⟩
  · show (if i = s.pid then s.cpu else (Function.update s.tabela _ _ i).toRegistradores) = _
    change corpoDe (s.criados ++ [proc]) i = some corpo at known
    rw [corpoDe_concat] at known
    split at known
    · rename_i last
      obtain ⟨never, clean⟩ := separado.futuros i (Int.le_of_eq last.symm)
      have first : sozinho corpo (vezes s.ativacoes i) = zeros := by rw [never]; rfl
      rw [first]
      split
      · exact clean ‹_›
      · rw [last, Function.update_self]
    · rename_i older
      rw [Function.update_of_ne older]
      exact separado.contextos i corpo known
  · change ((s.criados ++ [proc]).length : ℤ) ≤ i at beyond
    simp only [List.length_append, List.length_singleton] at beyond
    exact separado.futuros i (by omega)
  · obtain ⟨corpo, known, start⟩ := separado.historia antes i regs depois same
    refine ⟨corpo, ?_, start⟩
    show corpoDe (s.criados ++ [proc]) i = some corpo
    rw [corpoDe_concat, if_neg (by have := corpoDe_some known; omega)]
    exact known

/-- **A tick runs the chosen process one step further**, and no other one. -/
theorem separado_tick (coerente : Coerente s) (separado : Separado s)
    (run : escalonador numTicks s = some after) : Separado after := by
  obtain ⟨corpo, chosen, rfl⟩ := escalonador_eq_some coerente run
  have start := separado.contextos _ corpo chosen
  refine ⟨fun i other known => ?_, fun i beyond => ?_, fun antes i regs depois same => ?_⟩
  · show (if i = escolhido numTicks s then corpo (contexto s (escolhido numTicks s))
      else ((salvaContexto s).tabela i).toRegistradores) = _
    rw [vezes_concat]
    split
    · rename_i running
      subst running
      rw [chosen] at known
      cases known
      rw [if_pos rfl, start, sozinho_succ corpo]
    · rename_i idle
      rw [if_neg (Ne.symm idle), salvaContexto_tabela]
      exact separado.contextos i other known
  · have less := (corpoDe_some chosen).2
    have idle : escolhido numTicks s ≠ i := by
      have : (s.criados.length : ℤ) ≤ i := beyond
      omega
    refine ⟨?_, fun running => absurd running.symm idle⟩
    rw [vezes_concat, if_neg idle]
    exact (separado.futuros i beyond).1
  · -- the activation is an earlier one, or the one of this tick
    rcases concat_eq_append_cons same with ⟨rfl, pair⟩ | ⟨init, earlier⟩
    · cases pair
      exact ⟨corpo, chosen, start⟩
    · exact separado.historia antes i regs init earlier

/-- **The activations of a run**: each one of process `i` starts with the registers that the body of
`i` makes of zeros in as many steps as `i` was activated before, and the next tick has one. -/
structure Isolado (numTicks : ℕ) (s : Estado) : Prop where
  contextos : ∀ antes i regs depois, s.ativacoes = antes ++ (i, regs) :: depois →
    ∃ corpo, corpoDe s.criados i = some corpo ∧ regs = sozinho corpo (vezes antes i)
  anda : s.criados ≠ [] → ∃ after, escalonador numTicks s = some after

/-- **Context isolation**, in every run of ticks and of calls of `cria_processo` between them. -/
theorem isolated (reach : Reachable (passo numProcessos numTicks) inicio s) :
    Isolado numTicks s := by
  have kept : Coerente s ∧ Separado s := by
    apply reach.invariant fun s => Coerente s ∧ Separado s
    · exact ⟨coerente_inicio, separado_inicio⟩
    · intro before label after ⟨coerente, separado⟩ _ run
      cases label with
      | cria proc => exact ⟨coerente_cria coerente run, separado_cria coerente separado run⟩
      | tick => exact ⟨coerente_tick coerente run, separado_tick coerente separado run⟩
  exact ⟨kept.2.historia, escalonador_runs numTicks kept.1⟩

/-- A body that counts its activations in `ci`. -/
def contaCi : Corpo := fun regs => { regs with ci := regs.ci + 1 }

/-- A body that writes every other register. -/
def sujaTudo : Corpo := fun regs => ⟨regs.ci, 9, 9, 9, 9, 9, 9⟩

/-- A process runs twice, a second one is created and gets the processor at the third tick. -/
theorem isolated_two : ∃ s, Reachable (passo 20 2) inicio s ∧
    s.ativacoes.map Prod.fst = [0, 0, 1, 1] ∧ Isolado 2 s := by
  have reach : Reachable (passo 20 2) inicio _ :=
    reach_of_execute [.cria contaCi, .tick, .tick, .cria sujaTudo, .tick, .tick] .start rfl
  exact ⟨_, reach, rfl, isolated reach⟩

end Simulador
