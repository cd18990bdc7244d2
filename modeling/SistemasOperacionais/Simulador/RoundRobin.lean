/-
**`simulador.c`: the round robin.**

* `agenda` — which of `n` processes the `t`-th tick runs, in closed form: the number of full slices
  of `NUM_TICKS + 1` ticks counts down from process 0 around the ring.
* `Rodada` — the state after `t` ticks: `pid` and `contador` are given by `t` alone. A tick leads
  from one to the next (`rodada_tick`): the links go down by one, and from process 0 to the last.
* `round_robin` — **the `t`-th tick runs process `agenda t`, and every window of one round runs
  every process `NUM_TICKS + 1` times.**
-/

import SistemasOperacionais.Simulador.Isolation
import Mathlib.Data.Nat.Periodic

namespace Simulador

open Transition

variable {numProcessos numTicks n : ℕ} {s after : Estado}

/-- The process of the `t`-th tick. -/
def agenda (numTicks n t : ℕ) : ℕ := (n - t / (numTicks + 1) % n) % n

/-! ### The closed form -/

theorem agenda_lt (numTicks : ℕ) (positive : 0 < n) (t : ℕ) : agenda numTicks n t < n :=
  Nat.mod_lt _ positive

/-- Within a slice nothing changes. -/
theorem agenda_same {t : ℕ} (inside : t % (numTicks + 1) ≠ numTicks) :
    agenda numTicks n (t + 1) = agenda numTicks n t ∧
      (t + 1) % (numTicks + 1) = t % (numTicks + 1) + 1 := by
  have slice : 0 < numTicks + 1 := Nat.succ_pos numTicks
  have less : t % (numTicks + 1) < numTicks + 1 := Nat.mod_lt _ slice
  have whole := Nat.mod_add_div t (numTicks + 1)
  have parts : (t + 1) / (numTicks + 1) = t / (numTicks + 1) ∧
      (t + 1) % (numTicks + 1) = t % (numTicks + 1) + 1 :=
    (Nat.div_mod_unique slice).mpr ⟨by omega, by omega⟩
  exact ⟨by rw [agenda, agenda, parts.1], parts.2⟩

/-- At the end of a slice the number goes down by one, and from 0 to the last. -/
theorem agenda_turn (positive : 0 < n) {t : ℕ} (last : t % (numTicks + 1) = numTicks) :
    agenda numTicks n (t + 1) =
        (if agenda numTicks n t = 0 then n - 1 else agenda numTicks n t - 1) ∧
      (t + 1) % (numTicks + 1) = 0 := by
  have slice : 0 < numTicks + 1 := Nat.succ_pos numTicks
  have whole := Nat.mod_add_div t (numTicks + 1)
  have parts : (t + 1) / (numTicks + 1) = t / (numTicks + 1) + 1 ∧
      (t + 1) % (numTicks + 1) = 0 := by
    refine (Nat.div_mod_unique slice).mpr ⟨?_, slice⟩
    rw [Nat.mul_add, Nat.mul_one]
    omega
  refine ⟨?_, parts.2⟩
  unfold agenda
  rw [parts.1]
  generalize t / (numTicks + 1) = slice
  have small : slice % n < n := Nat.mod_lt _ positive
  -- the slice is the first of a round, the last of a round, or in between
  by_cases first : slice % n = 0
  · rw [first, Nat.sub_zero, Nat.mod_self, if_pos rfl, Nat.add_mod, first, Nat.zero_add,
      Nat.mod_mod]
    by_cases one : n = 1
    · subst one
      rfl
    · rw [Nat.mod_eq_of_lt (show 1 < n by omega), Nat.mod_eq_of_lt (by omega)]
  · rw [Nat.mod_eq_of_lt (show n - slice % n < n by omega), if_neg (by omega)]
    by_cases wrap : slice % n + 1 = n
    · rw [show (slice + 1) % n = 0 by rw [← Nat.mod_add_mod, wrap, Nat.mod_self], Nat.sub_zero,
        Nat.mod_self]
      omega
    · rw [show (slice + 1) % n = slice % n + 1 by
        rw [← Nat.mod_add_mod]; exact Nat.mod_eq_of_lt (by omega), Nat.mod_eq_of_lt (by omega)]
      omega

/-- One round is `n` slices. -/
theorem agenda_periodic (numTicks n : ℕ) :
    Function.Periodic (agenda numTicks n) (n * (numTicks + 1)) := by
  intro t
  unfold agenda
  rw [Nat.add_mul_div_right _ _ (Nat.succ_pos numTicks), Nat.add_mod_right]

/-- In the first round process `i` has the slice number `(n - i) % n`. -/
theorem agenda_eq_iff {i t : ℕ} (known : i < n) (first : t < n * (numTicks + 1)) :
    agenda numTicks n t = i ↔ t / (numTicks + 1) = (n - i) % n := by
  have small : t / (numTicks + 1) < n := by
    rw [Nat.div_lt_iff_lt_mul (Nat.succ_pos numTicks)]
    exact first
  unfold agenda
  rw [Nat.mod_eq_of_lt small]
  generalize t / (numTicks + 1) = slice at small ⊢
  have cyclic : ∀ k < n, (n - k) % n = if k = 0 then 0 else n - k := by
    intro k less
    split
    · rename_i zero
      rw [zero, Nat.sub_zero, Nat.mod_self]
    · exact Nat.mod_eq_of_lt (by omega)
  rw [cyclic slice small, cyclic i known]
  split <;> split <;> omega

/-- **One round gives every process one slice.** -/
theorem count_agenda {i : ℕ} (known : i < n) :
    Nat.count (fun t => agenda numTicks n t = i) (n * (numTicks + 1)) = numTicks + 1 := by
  have slice : (n - i) % n < n := Nat.mod_lt _ (Nat.zero_lt_of_lt known)
  rw [Nat.count_eq_card_filter_range]
  have interval : (Finset.range (n * (numTicks + 1))).filter (fun t => agenda numTicks n t = i) =
      Finset.Ico ((n - i) % n * (numTicks + 1)) (((n - i) % n + 1) * (numTicks + 1)) := by
    ext t
    have fits : ((n - i) % n + 1) * (numTicks + 1) ≤ n * (numTicks + 1) :=
      Nat.mul_le_mul_right _ slice
    rw [Finset.mem_filter, Finset.mem_range, Finset.mem_Ico]
    constructor
    · rintro ⟨first, runs⟩
      rw [agenda_eq_iff known first] at runs
      rw [← runs]
      refine ⟨Nat.div_mul_le_self t _, ?_⟩
      rw [← Nat.div_lt_iff_lt_mul (Nat.succ_pos numTicks)]
      exact Nat.lt_succ_self _
    · rintro ⟨low, high⟩
      have first : t < n * (numTicks + 1) := by omega
      refine ⟨first, (agenda_eq_iff known first).mpr ?_⟩
      exact Nat.div_eq_of_lt_le low high
  rw [interval, Nat.card_Ico, Nat.add_mul, Nat.one_mul, Nat.add_sub_cancel_left]

/-! ### The run -/

/-- **The state after `t` ticks**, with `n` processes. -/
structure Rodada (numTicks n t : ℕ) (s : Estado) : Prop where
  coerente : Coerente s
  tamanho : s.criados.length = n
  pid : s.pid = agenda numTicks n t
  contador : s.contador = t % (numTicks + 1)
  ordem : s.ativacoes.map Prod.fst = (List.range' 1 t).map fun k => (agenda numTicks n k : ℤ)

/-- The calls of `cria_processo` before the first tick. -/
theorem execute_cria (numTicks : ℕ) (corpos : List Corpo) : ∀ {s : Estado}, Coerente s →
    s.criados.length + corpos.length ≤ numProcessos →
    ∃ after, execute (passo numProcessos numTicks) s (corpos.map .cria) = some after ∧
      Coerente after ∧ after.criados = s.criados ++ corpos ∧ after.pid = s.pid ∧
        after.contador = s.contador ∧ after.ativacoes = s.ativacoes := by
  induction corpos with
  | nil =>
    intro s coerente _
    exact ⟨s, rfl, coerente, (List.append_nil _).symm, rfl, rfl, rfl⟩
  | cons proc corpos ih =>
    intro s coerente room
    rw [List.length_cons] at room
    have free : s.processoId < (numProcessos : ℤ) - 1 := by
      rw [coerente.tamanho]
      omega
    obtain ⟨middle, made⟩ : ∃ middle, criaProcesso numProcessos s proc = some middle :=
      ⟨_, if_pos free⟩
    have kept := coerente_cria coerente made
    obtain ⟨_, rfl⟩ := criaProcesso_eq_some coerente made
    obtain ⟨after, run, final, bodies, pid, contador, ativacoes⟩ := ih kept (by
      rw [List.length_append, List.length_singleton]
      omega)
    refine ⟨after, ?_, final, ?_, pid, contador, ativacoes⟩
    · rw [List.map_cons, execute, passo, made]
      exact run
    · rw [bodies, List.append_assoc, List.singleton_append]

/-- The process that the next tick runs. -/
theorem escolhido_eq {t : ℕ} (positive : 0 < n) (rodada : Rodada numTicks n t s) :
    escolhido numTicks s = agenda numTicks n (t + 1) ∧
      contagem numTicks s = (t + 1) % (numTicks + 1) := by
  have small : t % (numTicks + 1) < numTicks + 1 := Nat.mod_lt _ (Nat.succ_pos numTicks)
  have known := agenda_lt numTicks positive t
  unfold escolhido contagem
  rw [rodada.contador]
  by_cases last : t % (numTicks + 1) = numTicks
  · obtain ⟨turn, zero⟩ := agenda_turn (n := n) positive last
    have link : (s.tabela s.pid).proximo = agenda numTicks n t - 1 := by
      rw [rodada.coerente.proximos s.pid (by rw [rodada.pid]; omega)
        (by rw [rodada.pid, rodada.tamanho]; omega), rodada.pid]
    rw [if_pos (by omega), if_pos (by omega), zero, turn]
    refine ⟨?_, rfl⟩
    unfold escolheProcesso
    rw [link, rodada.coerente.tamanho, rodada.tamanho]
    dsimp only
    split <;> split <;> omega
  · obtain ⟨same, next⟩ := agenda_same (n := n) last
    rw [if_neg (by omega), if_neg (by omega), same, next, rodada.pid]
    exact ⟨rfl, rfl⟩

/-- **A tick leads from each state of the round to the next.** -/
theorem rodada_tick {t : ℕ} (positive : 0 < n) (rodada : Rodada numTicks n t s) :
    ∃ after, escalonador numTicks s = some after ∧ Rodada numTicks n (t + 1) after := by
  obtain ⟨chosen, counted⟩ := escolhido_eq positive rodada
  have some : s.criados ≠ [] := by
    rw [← List.length_pos_iff_ne_nil, rodada.tamanho]
    exact positive
  obtain ⟨after, run⟩ := escalonador_runs numTicks rodada.coerente some
  have kept := coerente_tick rodada.coerente run
  obtain ⟨_, _, rfl⟩ := escalonador_eq_some rodada.coerente run
  refine ⟨_, run, kept, rodada.tamanho, chosen, counted, ?_⟩
  show (s.ativacoes ++ [(escolhido numTicks s, _)]).map Prod.fst = _
  rw [List.map_append, rodada.ordem, List.range'_concat, List.map_append, chosen, Nat.one_mul,
    Nat.add_comm 1 t]
  rfl

/-- `m` ticks. -/
theorem execute_ticks (numProcessos : ℕ) (positive : 0 < n) (m : ℕ) :
    ∀ {t : ℕ} {s : Estado}, Rodada numTicks n t s →
    ∃ after, execute (passo numProcessos numTicks) s (List.replicate m .tick) = some after ∧
      Rodada numTicks n (t + m) after := by
  induction m with
  | zero => exact fun {_ s} rodada => ⟨s, rfl, rodada⟩
  | succ m ih =>
    intro t s rodada
    obtain ⟨middle, moved, round⟩ := rodada_tick positive rodada
    obtain ⟨after, run, final⟩ := ih round
    refine ⟨after, ?_, ?_⟩
    · rw [List.replicate_succ, execute, passo, moved]
      exact run
    · rwa [Nat.add_assoc, Nat.add_comm 1 m] at final

/-! ### The windows -/

/-- Counting along a stretch of ticks. -/
theorem countP_range' (p : ℕ → Prop) [DecidablePred p] (a k : ℕ) :
    (List.range' a k).countP (fun t => decide (p t)) =
      ((Finset.Ico a (a + k)).filter p).card := by
  have list : (Finset.Ico a (a + k)).val = (List.range' a k : Multiset ℕ) := by
    show (List.range' a (a + k - a) : Multiset ℕ) = _
    rw [Nat.add_sub_cancel_left]
  rw [Finset.card_def, Finset.filter_val, list, Multiset.filter_coe, Multiset.coe_card,
    List.countP_eq_length_filter]

theorem range'_window {m a k : ℕ} (fits : a + k ≤ m) :
    ((List.range' 1 m).drop a).take k = List.range' (1 + a) k := by
  obtain ⟨rest, rfl⟩ := Nat.exists_eq_add_of_le fits
  rw [Nat.add_assoc, ← List.range'_append_1, List.drop_left' List.length_range',
    ← List.range'_append_1, List.take_left' List.length_range']

/-- **Every window of one round gives every process `NUM_TICKS + 1` ticks.** -/
theorem Rodada.window {m a i : ℕ} (rodada : Rodada numTicks n m s) (known : i < n)
    (fits : a + n * (numTicks + 1) ≤ m) :
    vezes ((s.ativacoes.drop a).take (n * (numTicks + 1))) i = numTicks + 1 := by
  have order : (((s.ativacoes.drop a).take (n * (numTicks + 1))).map Prod.fst) =
      (List.range' (1 + a) (n * (numTicks + 1))).map fun t => (agenda numTicks n t : ℤ) := by
    rw [List.map_take, List.map_drop, rodada.ordem, ← List.map_drop, ← List.map_take,
      range'_window fits]
  have test : ((fun j : ℤ => j == (i : ℤ)) ∘ fun t => (agenda numTicks n t : ℤ)) =
      fun t => decide (agenda numTicks n t = i) := by
    funext t
    simp [beq_eq_decide]
  have periodic : Function.Periodic (fun t => agenda numTicks n t = i) (n * (numTicks + 1)) :=
    (agenda_periodic numTicks n).comp (· = i)
  rw [vezes, order, List.count, List.countP_map, test, countP_range',
    Nat.filter_Ico_card_eq_of_periodic _ _ _ periodic, count_agenda known]

/-- **Fair round robin**: with `n` processes created before the first tick, the `t`-th tick runs
process `agenda t`, and in each window of `n * (NUM_TICKS + 1)` ticks each process runs
`NUM_TICKS + 1` times. -/
theorem round_robin (numProcessos numTicks : ℕ) (corpos : List Corpo) (nonempty : corpos ≠ [])
    (fit : corpos.length ≤ numProcessos) (m : ℕ) :
    ∃ s, execute (passo numProcessos numTicks) inicio
        (corpos.map .cria ++ List.replicate m .tick) = some s ∧
      s.ativacoes.map Prod.fst =
        (List.range' 1 m).map (fun t => (agenda numTicks corpos.length t : ℤ)) ∧
      ∀ a i, i < corpos.length → a + corpos.length * (numTicks + 1) ≤ m →
        vezes ((s.ativacoes.drop a).take (corpos.length * (numTicks + 1))) i = numTicks + 1 := by
  have positive : 0 < corpos.length := List.length_pos_of_ne_nil nonempty
  obtain ⟨made, created, coerente, bodies, pid, contador, ativacoes⟩ :=
    execute_cria numTicks corpos coerente_inicio (by simpa [inicio] using fit)
  have first : Rodada numTicks corpos.length 0 made := by
    refine ⟨coerente, ?_, ?_, ?_, ?_⟩
    · rw [bodies]
      rfl
    · rw [pid, agenda, Nat.zero_div, Nat.zero_mod, Nat.sub_zero, Nat.mod_self]
      rfl
    · rw [contador, Nat.zero_mod]
      rfl
    · rw [ativacoes]
      rfl
  obtain ⟨s, run, rodada⟩ := execute_ticks numProcessos positive m first
  rw [Nat.zero_add] at rodada
  refine ⟨s, ?_, rodada.ordem, fun a i known fits => rodada.window known fits⟩
  rw [execute_append _ created]
  exact run

/-- The four processes of `main`, with `NUM_TICKS` 2: the first slice is one tick shorter. -/
example : (List.range' 1 14).map (agenda 2 4) = [0, 0, 3, 3, 3, 2, 2, 2, 1, 1, 1, 0, 0, 0] := by
  decide

theorem round_robin_four : ∃ s, execute (passo 20 2) inicio
    ([contaCi, sujaTudo, contaCi, sujaTudo].map .cria ++ List.replicate 24 .tick) = some s ∧
      vezes ((s.ativacoes.drop 5).take 12) 3 = 3 := by
  obtain ⟨s, run, _, windows⟩ :=
    round_robin 20 2 [contaCi, sujaTudo, contaCi, sujaTudo] (List.cons_ne_nil _ _) (by decide) 24
  exact ⟨s, run, windows 5 3 (by decide) (by decide)⟩

end Simulador
