/-
**`funcoes_ex.cpp`: no free block is lost.**

`meu_aloca` unlinks a perfect fit with `anterior->prox=atual->prox; atual->prox=NULL;` and only then,
if the block was the first, sets `listaLivres=atual->prox`. For the first block the link is NULL by
then, and every other free block is lost.

* `Run`, `next` — a client's run.
* `Conserved` — the free blocks on the list and the live allocated blocks, each with its header, add
  up to the memory at the start. `Leaves` — an allocation takes the chosen block off the list, puts
  the remainder in its place, and leaves the others.
* `free_blocks_lost` — the run: two allocations, the first one freed, and a request that fits it.
* `keeps` — the condition on a request: it does not fit the first free block perfectly while there
  is another one.
* `conserved_of_keeps` — **in every run of calls that meet the condition everything is conserved and
  every allocation leaves the other free blocks**.
* `not_conserved_of_not_keeps` — and the first call that does not meet it loses free blocks.
-/

import SistemasOperacionais.FuncoesEx.Calls
import SistemasOperacionais.Runs.Reach
import Mathlib.Algebra.Ring.Int.Defs

namespace FuncoesEx

open Headers Transition

/-! ### Runs of a client -/

/-- The allocator and the pointers returned and not yet freed. -/
structure Run where
  state : State
  live : List ℤ

/-- A call, with a bound on the passes of its loop. -/
inductive Call
  | aloca (tam : ℤ) (fuel : ℕ)
  | libera (ponteiro : ℤ) (fuel : ℕ)
  deriving DecidableEq, Repr

section

variable (size : ℤ)

/-- After `inicializa_mem()`. -/
def inicio (base : ℤ) : Run := ⟨inicializaMem size base, []⟩

/-- One call: `meu_aloca` of a positive size, or `meu_libera` of a live pointer. -/
def next (run : Run) : Call → Option Run
  | .aloca tam fuel =>
      if 0 < tam then do
        let (result, state) ← meuAloca size run.state fuel tam
        match result with
        | none => some ⟨state, run.live⟩
        | some p => some ⟨state, run.live ++ [p]⟩
      else none
  | .libera ponteiro fuel =>
      if ponteiro ∈ run.live then do
        let state ← meuLibera size run.state fuel ponteiro
        some ⟨state, run.live.erase ponteiro⟩
      else none

/-- **Free and allocated memory add up to the memory at the start.** -/
def Conserved (run : Run) : Prop :=
  ∃ free used : List Block, Lists run.state free ∧
    run.live = used.map (fun block => block.1 + size) ∧
    (∀ block ∈ used, ∃ prox, run.state.memory block.1 = some ⟨block.2, prox⟩) ∧
    total size free + total size used = tamMemoria

/-- **An allocation leaves the other free blocks**, with the remainder in the place of the chosen
one. -/
def Leaves (s s' : State) (p tam : ℤ) : Prop :=
  ∃ l t r, Lists s (l ++ (p - size, t) :: r) ∧
    Lists s' (l ++ ((resto size (p - size) t tam).toList ++ r))

/-- **The condition on a call**: a request does not fit the first free block perfectly while another
free block is behind it. -/
def keeps (run : Run) : Call → Bool
  | .aloca tam _ =>
      match run.state.listaLivres.bind run.state.memory with
      | some header => decide (header.tam = size + tam → header.prox = none)
      | none => true
  | .libera _ _ => true

/-- The calls that meet the condition. -/
abbrev Careful (run : Run) (call : Call) : Prop := keeps size run call = true

end

/-! ### Runs -/

variable {size : ℤ}

/-- **The invariant of a run.** -/
def Kept (size : ℤ) (run : Run) : Prop :=
  ∃ free used : List Block, Heap size run.state free used ∧
    run.live = used.map (fun block => block.1 + size) ∧
    total size free + total size used = tamMemoria

theorem Kept.conserved {run : Run} (kept : Kept size run) : Conserved size run := by
  obtain ⟨free, used, heap, live, sum⟩ := kept
  exact ⟨free, used, heap.lists, live, fun block member => ⟨none, heap.headers block member⟩, sum⟩

theorem kept_inicio (small : size ≤ tamMemoria) (base : ℤ) : Kept size (inicio size base) := by
  have header : (inicializaMem size base).memory base = some ⟨tamMemoria - size, none⟩ := by
    simp [inicializaMem]
  refine ⟨[(base, tamMemoria - size)], [], ⟨⟨rfl, header, trivial⟩, by simp, ⟨?_, ?_⟩⟩, rfl, ?_⟩
  · simp [small]
  · simp
  · simp

/-- A perfect fit at the first free block that meets the condition is the only free block. -/
theorem alone_of_keeps {run : Run} {r used : List Block} {a tam : ℤ} {fuel : ℕ}
    (heap : Heap size run.state ((a, size + tam) :: r) used)
    (condition : Careful size run (.aloca tam fuel)) : r = [] := by
  have here : run.state.memory a = some ⟨size + tam, first r none⟩ := heap.lists.2.1
  have head : run.state.listaLivres = some a := heap.lists.1
  simp only [Careful, keeps, head, Option.bind_some, here, decide_eq_true_eq] at condition
  cases r with
  | nil => rfl
  | cons block rest => cases condition trivial

/-- One call of `meu_aloca`. -/
theorem kept_aloca {run : Run} {s' : State} {fuel : ℕ} {tam p : ℤ} (kept : Kept size run)
    (positive : 0 < size) (asked : 0 < tam) (condition : Careful size run (.aloca tam fuel))
    (call : meuAloca size run.state fuel tam = some (some p, s')) :
    Kept size ⟨s', run.live ++ [p]⟩ ∧ Leaves size run.state s' p tam := by
  obtain ⟨free, used, heap, live, sum⟩ := kept
  obtain ⟨l, a, t, r, rfl, rfl, after⟩ := meuAloca_kept heap positive asked
    (fun _ _ shape => alone_of_keeps (shape ▸ heap) condition) call
  refine ⟨⟨_, _, after, by simp [live], ?_⟩, l, t, r, ?_⟩
  · have cut := total_cut size a t tam
    simp only [total_append, total_cons, total_nil] at sum ⊢
    omega
  · rw [Int.add_sub_cancel]
    exact ⟨heap.lists, after.lists⟩

/-- A live pointer is that of one used block. -/
theorem used_split {run : Run} {free used : List Block} (heap : Heap size run.state free used)
    (positive : 0 < size) (live : run.live = used.map fun block => block.1 + size) {p : ℤ}
    (member : p ∈ run.live) :
    ∃ l e t r, used = l ++ (e, t) :: r ∧ p = e + size ∧
      run.live.erase p = (l ++ r).map fun block => block.1 + size := by
  rw [live] at member ⊢
  obtain ⟨⟨e, t⟩, inUsed, rfl⟩ := List.mem_map.mp member
  obtain ⟨l, r, rfl⟩ := List.append_of_mem inUsed
  have fresh : e + size ∉ l.map fun block => block.1 + size := by
    intro again
    obtain ⟨other, inLeft, same⟩ := List.mem_map.mp again
    have pool : Pool size (l ++ (e, t) :: r) := heap.pool.sublist (List.sublist_append_right _ _)
    have apart := pool.across positive other inLeft (e, t) List.mem_cons_self
    unfold Apart at apart
    omega
  refine ⟨l, e, t, r, rfl, rfl, ?_⟩
  rw [List.map_append, List.erase_append_right _ fresh, List.map_cons, List.erase_cons_head,
    List.map_append]

/-- One call of `meu_libera`. -/
theorem kept_libera {run : Run} {s' : State} {fuel : ℕ} {p : ℤ} (kept : Kept size run)
    (positive : 0 < size) (member : p ∈ run.live)
    (call : meuLibera size run.state fuel p = some s') :
    Kept size ⟨s', run.live.erase p⟩ := by
  obtain ⟨free, used, heap, live, sum⟩ := kept
  obtain ⟨l, e, t, r, rfl, rfl, erased⟩ := used_split heap positive live member
  obtain ⟨after, heap', sum'⟩ := meuLibera_kept heap positive call
  refine ⟨after, l ++ r, heap', erased, ?_⟩
  simp only [total_append, total_cons] at sum ⊢
  omega

theorem kept_next {run after : Run} {call : Call} (kept : Kept size run) (positive : 0 < size)
    (condition : Careful size run call) (step : next size run call = some after) :
    Kept size after := by
  cases call with
  | aloca tam fuel =>
    simp only [next] at step
    by_cases asked : 0 < tam
    · rw [if_pos asked] at step
      obtain ⟨⟨result, s'⟩, call, rest⟩ := Option.bind_eq_some_iff.mp step
      cases result with
      | none =>
        cases rest
        rw [meuAloca_refused call]
        exact kept
      | some p =>
        cases rest
        exact (kept_aloca kept positive asked condition call).1
    · simp [asked] at step
  | libera p fuel =>
    simp only [next] at step
    by_cases member : p ∈ run.live
    · rw [if_pos member] at step
      obtain ⟨s', call, rest⟩ := Option.bind_eq_some_iff.mp step
      cases rest
      exact kept_libera kept positive member call
    · simp [member] at step

theorem kept_of_reach (positive : 0 < size) (small : size ≤ tamMemoria) {base : ℤ} {run : Run}
    (reach : Reach (next size) (Careful size) (inicio size base) run) : Kept size run :=
  reach.invariant (Kept size) (kept_inicio small base) fun _ _ _ kept condition step =>
    kept_next kept positive condition step

/-- **No free block is lost in a run of calls that meet the condition.** -/
theorem conserved_of_keeps (positive : 0 < size) (small : size ≤ tamMemoria) {base : ℤ} {run : Run}
    (reach : Reach (next size) (Careful size) (inicio size base) run) :
    Conserved size run ∧ ∀ tam fuel p s', 0 < tam → Careful size run (.aloca tam fuel) →
      meuAloca size run.state fuel tam = some (some p, s') → Leaves size run.state s' p tam := by
  have kept := kept_of_reach positive small reach
  refine ⟨kept.conserved, fun tam fuel p s' asked condition call => ?_⟩
  exact (kept_aloca kept positive asked condition call).2

/-- Two allocations, the first one freed, and a request of 20 bytes, which splits the freed block. -/
theorem conserved_of_keeps_split : ∃ run, Reach (next 16) (Careful 16) (inicio 16 0) run ∧
    Conserved 16 run ∧ ∃ p s', meuAloca 16 run.state 3 20 = some (some p, s') ∧
      Leaves 16 run.state s' p 20 := by
  have reach : Reach (next 16) (Careful 16) (inicio 16 0) _ :=
    reach_of_execute [.aloca 100 3, .aloca 5 3, .libera 16 3] .start rfl
  obtain ⟨conserved, leaves⟩ := conserved_of_keeps (by decide) (by decide) reach
  exact ⟨_, reach, conserved, _, _, rfl, leaves 20 3 _ _ (by decide) rfl rfl⟩

/-! ### What a call that does not meet the condition loses -/

/-- The blocks in use are determined by the pointers and the headers. -/
theorem used_unique (size : ℤ) {memory : Memory Header} {used used' : List Block}
    (same : used.map (fun block => block.1 + size) = used'.map fun block => block.1 + size)
    (headers : ∀ block ∈ used, ∃ prox, memory block.1 = some ⟨block.2, prox⟩)
    (headers' : ∀ block ∈ used', ∃ prox, memory block.1 = some ⟨block.2, prox⟩) :
    used = used' := by
  induction used generalizing used' with
  | nil => exact (List.map_eq_nil_iff.mp same.symm).symm
  | cons block rest ih =>
    cases used' with
    | nil => cases same
    | cons block' rest' =>
      obtain ⟨here, behind⟩ := List.cons.inj same
      have address : block.1 = block'.1 := add_right_cancel here
      obtain ⟨prox, load⟩ := headers block List.mem_cons_self
      obtain ⟨prox', load'⟩ := headers' block' List.mem_cons_self
      rw [address, load'] at load
      have sameTam : block'.2 = block.2 := congrArg Header.tam (Option.some.inj load)
      rw [ih behind (fun other member => headers other (List.mem_cons_of_mem _ member))
        fun other member => headers' other (List.mem_cons_of_mem _ member)]
      exact congrArg (· :: rest') (Prod.ext address sameTam.symm)

/-- A call that does not meet the condition is a perfect fit at the first of several free blocks. -/
theorem fits_of_not_keeps {run : Run} {free used : List Block} {call : Call}
    (heap : Heap size run.state free used) (fails : ¬ Careful size run call) :
    ∃ a r tam fuel, call = .aloca tam fuel ∧ free = (a, size + tam) :: r ∧ r ≠ [] := by
  cases call with
  | libera p fuel => exact absurd rfl fails
  | aloca tam fuel =>
    cases free with
    | nil =>
      have head : run.state.listaLivres = none := heap.lists.1
      simp [keeps, head] at fails
    | cons block r =>
      obtain ⟨a, t⟩ := block
      have head : run.state.listaLivres = some a := heap.lists.1
      have here : run.state.memory a = some ⟨t, first r none⟩ := heap.lists.2.1
      simp only [Careful, keeps, head, Option.bind_some, here, decide_eq_true_eq,
        Classical.not_imp] at fails
      obtain ⟨rfl, more⟩ := fails
      refine ⟨a, r, tam, fuel, rfl, rfl, ?_⟩
      rintro rfl
      exact more rfl

/-- **A perfect fit at the first free block leaves no free block on the list.** -/
theorem meuAloca_loses {s : State} {r used : List Block} {a tam : ℤ} (fuel : ℕ)
    (heap : Heap size s ((a, size + tam) :: r) used) (positive : 0 < size) (asked : 0 < tam) :
    meuAloca size s (fuel + 1) tam =
      some (some (a + size), ⟨store size s.memory a ⟨size + tam, none⟩, none⟩) := by
  have head : s.listaLivres = some a := heap.lists.1
  have here : s.memory a = some ⟨size + tam, first r none⟩ := heap.lists.2.1
  have large : ¬ size + tam < tam + size := by omega
  have taken := retira_first heap positive asked (by omega)
  simp only [resto, tomado, if_true, Option.toList_none, place, first, store_store] at taken
  simp only [meuAloca, head, procura, here, large, if_false, taken, Option.bind_eq_bind,
    Option.bind_some]

theorem total_nonneg (positive : 0 < size) {blocks : List Block}
    (nonneg : ∀ block ∈ blocks, 0 ≤ block.2) : 0 ≤ total size blocks := by
  induction blocks with
  | nil => rfl
  | cons block rest ih =>
    have here := nonneg block List.mem_cons_self
    have behind := ih fun other member => nonneg other (List.mem_cons_of_mem _ member)
    rw [total_cons]
    omega

/-- **The first call that does not meet the condition loses free blocks.** -/
theorem not_conserved_of_not_keeps (positive : 0 < size) (small : size ≤ tamMemoria) {base : ℤ}
    {run after : Run} {call : Call}
    (reach : Reach (next size) (Careful size) (inicio size base) run)
    (fails : ¬ Careful size run call) (step : next size run call = some after) :
    ¬ Conserved size after := by
  obtain ⟨free, used, heap, live, sum⟩ := kept_of_reach positive small reach
  obtain ⟨a, r, tam, fuel, rfl, rfl, more⟩ := fits_of_not_keeps heap fails
  obtain ⟨block, rest, rfl⟩ := List.exists_cons_of_ne_nil more
  by_cases asked : 0 < tam
  case neg => simp [next, asked] at step
  cases fuel with
  | zero => simp [next, meuAloca, procura, heap.lists.1, first] at step
  | succ fuel =>
    simp only [next, asked, if_true, meuAloca_loses fuel heap positive asked, Option.bind_eq_bind,
      Option.bind_some] at step
    cases step
    rintro ⟨free', used', ⟨head, -⟩, live', headers, sum'⟩
    have empty : free' = [] := by
      cases free' with
      | nil => rfl
      | cons block rest => cases head
    have away := heap.pool.apart positive
    have same : used' = used ++ [(a, size + tam)] := by
      refine used_unique size ?_ headers fun block member => ⟨none, ?_⟩
      · rw [← live']
        simp [live]
      · rcases List.mem_append.mp member with member | here
        · exact (store_apart positive (away block (by simp [member]))).trans
            (heap.headers block member)
        · obtain rfl := List.mem_singleton.mp here
          exact store_self
    -- the block behind the first one is in neither sum any more
    have lost : 0 ≤ block.2 ∧ 0 ≤ total size rest :=
      ⟨heap.pool.nonneg block (by simp),
        total_nonneg positive fun other member => heap.pool.nonneg other (by simp [member])⟩
    rw [empty, same] at sum'
    simp only [total_append, total_cons, total_nil] at sum sum'
    omega

/-- `p = meu_aloca(100)`, `meu_aloca(5)`, `meu_libera(p)`, `meu_aloca(84)`: the last request fits
the freed block perfectly, and the other free block is lost. -/
theorem free_blocks_lost : ∃ run, Reachable (next 16) (inicio 16 0) run ∧
    run.state.listaLivres = none ∧ ¬ Conserved 16 run := by
  have before : Reach (next 16) (Careful 16) (inicio 16 0) _ :=
    reach_of_execute [.aloca 100 3, .aloca 5 3, .libera 16 3] .start rfl
  have lost := not_conserved_of_not_keeps (by decide) (by decide) before
    (show ¬ Careful 16 _ (.aloca 84 3) from Bool.false_ne_true) rfl
  refine ⟨_, ?_, ?_, lost⟩
  · exact reach_of_execute [.aloca 100 3, .aloca 5 3, .libera 16 3, .aloca 84 3] .start rfl
  · rfl

end FuncoesEx
