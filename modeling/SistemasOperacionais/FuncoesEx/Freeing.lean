/-
**`funcoes_ex.cpp`: freeing in address order.**

`meu_libera` looks for the place of a freed block with `while(atual < endHeader)` and without a test
for NULL: when `listaLivres` is NULL, or when every free block lies below the freed one, the loop
follows a NULL link. When some free block lies above, the loop stops before it.

* `null_followed` — the two runs: everything allocated, and a freed block above every free one.
* `Acima` — the condition on a call of `meu_libera`: some free block lies above the freed one.
* `Ordem` — what the runs keep: the free blocks in address order with space between any two, and all
  addresses a multiple of the header size away from the first, as the code's pointer arithmetic has
  it. `meu_aloca` may lose free blocks and still keep it.
* `merge_next`, `meuLibera_ordem` — what `merge` and `meu_libera` do to it.
* `libera_ordered` — **in every run of calls that meet the condition `meu_libera` returns, and the list
  it leaves is strictly increasing, holds the freed block, and has no two contiguous blocks.**
-/

import SistemasOperacionais.FuncoesEx.Conservation

namespace FuncoesEx

open Headers Transition

/-! ### Following a NULL link -/

/-- **`meu_libera` follows a NULL link**: after one allocation of everything, and after the last free
block was taken while a lower one is free. -/
theorem null_followed :
    (∃ run, Reachable (next 16) (inicio 16 0) run ∧ 16 ∈ run.live ∧
      run.state.listaLivres = none ∧ ∀ fuel, meuLibera 16 run.state fuel 16 = none) ∧
    ∃ run, Reachable (next 16) (inicio 16 0) run ∧ 2208 ∈ run.live ∧
      run.state.listaLivres = some 0 ∧ ∀ fuel, meuLibera 16 run.state fuel 2208 = none := by
  constructor
  · have evaluated : ∃ run : Run, Reachable (next 16) (inicio 16 0) run ∧ 16 ∈ run.live ∧
        run.state.listaLivres = none :=
      exists_reach_of_execute [.aloca 10208 3] _ (by decide +kernel)
    obtain ⟨run, reach, live, head⟩ := evaluated
    refine ⟨run, reach, live, head, fun fuel => ?_⟩
    rw [meuLibera, head]
    rfl
  · have evaluated : ∃ run : Run, Reachable (next 16) (inicio 16 0) run ∧ 2208 ∈ run.live ∧
        run.state.listaLivres = some 0 ∧ run.state.memory 0 = some ⟨100, none⟩ :=
      exists_reach_of_execute [.aloca 100 3, .aloca 5 3, .libera 16 3, .aloca 10071 3] _
        (by decide +kernel)
    obtain ⟨run, reach, live, head, only⟩ := evaluated
    refine ⟨run, reach, live, head, fun fuel => ?_⟩
    -- one pass at the only free block, and the next one at NULL
    have lost : posicao run.state.memory 2192 fuel 0 (some 0) = none := by
      cases fuel with
      | zero => rfl
      | succ fuel =>
        rw [posicao, if_pos (by decide), only]
        cases fuel <;> rfl
    show (run.state.listaLivres.bind fun primeiro => _) = none
    rw [head, Option.bind_some, if_neg (by decide)]
    show (posicao run.state.memory 2192 fuel 0 (some 0)).bind _ = none
    rw [lost]
    rfl

/-! ### The order of the free blocks -/

variable {size base : ℤ} {s : State} {l r free used : List Block}

/-- **The free blocks are in address order, with space between any two**, and all blocks start a
multiple of the header size behind `base`. -/
structure Ordem (size base : ℤ) (free used : List Block) : Prop where
  antes : free.Pairwise fun x y => fim size x < y.1
  grade : ∀ block ∈ free ++ used, size ∣ block.1 - base

/-- On such addresses `merge` measures whether the second block starts where the first one ends. -/
theorem contiguos_iff (positive : 0 < size) {x y : Block} (first : size ∣ x.1 - base)
    (second : size ∣ y.1 - base) : Contiguos size x y ↔ fim size x = y.1 := by
  obtain ⟨i, first⟩ := first
  obtain ⟨j, second⟩ := second
  have distance : y.1 - x.1 = size * (j - i) := by
    rw [Int.mul_sub]
    omega
  unfold Contiguos fim
  rw [distance, Int.mul_ediv_cancel_left _ positive.ne']
  constructor
  · intro near
    have same : x.2 + size = j - i := by omega
    rw [same, Int.mul_comm]
    omega
  · intro same
    have factors : size * (x.2 + size) = size * (j - i) := by
      rw [Int.mul_comm size (x.2 + size)]
      omega
    have := Int.eq_of_mul_eq_mul_left positive.ne' factors
    omega

/-- A block ends before the higher ones of a pool start. -/
theorem Pool.fim_le (pool : Pool size (free ++ used)) (positive : 0 < size) {x y : Block}
    (inFree : x ∈ free) (inUsed : y ∈ used) :
    (x.1 < y.1 → fim size x ≤ y.1) ∧ (y.1 < x.1 → fim size y ≤ x.1) := by
  have disjoint := (List.pairwise_append.mp pool.disjoint).2.2 x inFree y inUsed
  have headerX := header_le_fim positive (pool.nonneg x (List.mem_append_left _ inFree))
  have headerY := header_le_fim positive (pool.nonneg y (List.mem_append_right _ inUsed))
  omega

/-- A block put between two parts of the list. -/
theorem antes_insert {x : Block} (order : (l ++ r).Pairwise fun x y => fim size x < y.1)
    (before : ∀ block ∈ l, fim size block < x.1) (behind : ∀ block ∈ r, fim size x < block.1) :
    (l ++ x :: r).Pairwise fun x y => fim size x < y.1 := by
  obtain ⟨left, right, across⟩ := List.pairwise_append.mp order
  refine List.pairwise_append.mpr ⟨left, List.pairwise_cons.mpr ⟨behind, right⟩, ?_⟩
  intro block inLeft other inRight
  rcases List.mem_cons.mp inRight with rfl | inRight
  · exact before block inLeft
  · exact across block inLeft other inRight

/-- Blocks in this order have increasing addresses, and no two are contiguous. -/
theorem Ordem.separate (ordem : Ordem size base free used) (positive : 0 < size)
    (pool : Pool size (free ++ used)) :
    free.Pairwise (fun x y => x.1 < y.1) ∧
      ∀ x ∈ free, ∀ y ∈ free, ¬ Contiguos size x y := by
  have header : ∀ block ∈ free, block.1 < fim size block := by
    intro block member
    have := header_le_fim positive (pool.nonneg block (List.mem_append_left _ member))
    omega
  refine ⟨ordem.antes.imp_of_mem fun inside _ less => (header _ inside).trans less, ?_⟩
  -- neither of two blocks starts where the other one ends
  have apart : free.Pairwise fun x y => fim size x ≠ y.1 ∧ fim size y ≠ x.1 := by
    refine ordem.antes.imp_of_mem fun {x y} inX inY less => ?_
    have first := header x inX
    have second := header y inY
    omega
  have symmetric : Std.Symm fun x y : Block => fim size x ≠ y.1 ∧ fim size y ≠ x.1 :=
    ⟨fun _ _ both => both.symm⟩
  have all := List.Pairwise.forall_of_forall
    (fun x inside => ⟨(header x inside).ne', (header x inside).ne'⟩) apart
  intro x inX y inY near
  exact (all inX inY).1 ((contiguos_iff positive (ordem.grade x (List.mem_append_left _ inX))
    (ordem.grade y (List.mem_append_left _ inY))).mp near)

/-! ### Allocation -/

theorem fim_resto (size a t tam : ℤ) :
    fim size (novoBloco size a tam, t - size - tam) = fim size (a, t) := by
  simp only [fim, novoBloco]
  ring

/-- A block taken, with the remainder in its place. -/
theorem Ordem.aloca {a t tam : ℤ} (ordem : Ordem size base (l ++ (a, t) :: r) used)
    (positive : 0 < size) (asked : 0 < tam) :
    Ordem size base (l ++ ((resto size a t tam).toList ++ r)) (used ++ [(a, tomado size t tam)]) := by
  have here : size ∣ a - base := ordem.grade (a, t) (by simp)
  have others : (l ++ r).Pairwise fun x y => fim size x < y.1 :=
    ordem.antes.sublist (List.Sublist.append_left (List.sublist_cons_self _ _) _)
  obtain ⟨_, behind, before⟩ := List.pairwise_append.mp ordem.antes
  have known : ∀ block, block ∈ l ++ r ++ used → size ∣ block.1 - base := by
    intro block member
    refine ordem.grade block ?_
    simp only [List.mem_append, List.mem_cons] at member ⊢
    tauto
  unfold resto
  by_cases fits : t = size + tam
  · rw [if_pos fits]
    refine ⟨others, fun block member => ?_⟩
    simp only [Option.toList_none, List.nil_append, List.mem_append, List.mem_singleton] at member
    rcases member with member | member | rfl
    · exact known block (by simp only [List.mem_append]; tauto)
    · exact known block (by simp only [List.mem_append]; tauto)
    · exact here
  · rw [if_neg fits]
    have higher : a < novoBloco size a tam := by
      have header : a + size ≤ fim size (a, tam) := header_le_fim positive asked.le
      have same : fim size (a, tam) = novoBloco size a tam := rfl
      omega
    refine ⟨antes_insert others (fun block member => ?_) (fun block member => ?_),
      fun block member => ?_⟩
    · exact (before block member (a, t) List.mem_cons_self).trans higher
    · rw [fim_resto]
      exact (List.pairwise_cons.mp behind).1 block member
    · simp only [Option.toList_some, List.mem_append, List.mem_cons, List.not_mem_nil,
        or_false] at member
      rcases member with (member | rfl | member) | member | rfl
      · exact known block (by simp only [List.mem_append]; tauto)
      · have moved : novoBloco size a tam - base = a - base + (tam + size) * size := by
          unfold novoBloco
          omega
        dsimp only
        rw [moved]
        exact Int.dvd_add here (Int.dvd_mul_left _ _)
      · exact known block (by simp only [List.mem_append]; tauto)
      · exact known block (by simp only [List.mem_append]; tauto)
      · exact here

/-- **`meu_aloca` keeps the order**, also where it loses the free blocks behind the first. -/
theorem meuAloca_ordem {s' : State} {fuel : ℕ} {tam p : ℤ} (heap : Heap size s free used)
    (ordem : Ordem size base free used) (positive : 0 < size) (asked : 0 < tam)
    (call : meuAloca size s fuel tam = some (some p, s')) :
    ∃ free' a t', p = a + size ∧ Heap size s' free' (used ++ [(a, t')]) ∧
      Ordem size base free' (used ++ [(a, t')]) := by
  by_cases perfect : ∃ a r, free = (a, size + tam) :: r
  · obtain ⟨a, r, rfl⟩ := perfect
    cases fuel with
    | zero => simp [meuAloca, procura, heap.lists.1, first] at call
    | succ fuel =>
      rw [meuAloca_loses fuel heap positive asked] at call
      cases call
      have away := heap.pool.apart positive
      refine ⟨[], a, size + tam, rfl, ⟨⟨rfl, trivial⟩, ?_, ?_⟩, List.Pairwise.nil, ?_⟩
      · intro block member
        rcases List.mem_append.mp member with member | here
        · exact (store_apart positive (away block (by simp [member]))).trans
            (heap.headers block member)
        · obtain rfl := List.mem_singleton.mp here
          exact store_self
      · have kept : Pool size ((a, size + tam) :: used) :=
          heap.pool.sublist (List.Sublist.cons_cons _ (List.sublist_append_right _ _))
        refine kept.of_count fun block => ?_
        simp only [List.nil_append, List.count_append, List.count_cons, List.count_nil]
        omega
      · intro block member
        refine ordem.grade block ?_
        simp only [List.nil_append, List.mem_append, List.mem_cons, List.not_mem_nil,
          or_false] at member ⊢
        tauto
  · obtain ⟨l, a, t, r, rfl, rfl, after⟩ := meuAloca_kept heap positive asked
      (fun a r shape => absurd ⟨a, r, shape⟩ perfect) call
    exact ⟨_, a, _, rfl, after, ordem.aloca positive asked⟩

/-! ### Freeing -/

section Libera

variable {x tx c w b u e t : ℤ} {l' r' : List Block} {fuel : ℕ}

/-- The free blocks below a freed one, and the first one above it. -/
theorem split_above (apart : ∀ block ∈ free, block.1 ≠ e) (above : ∃ block ∈ free, e < block.1) :
    ∃ l c w r, free = l ++ (c, w) :: r ∧ (∀ block ∈ l, block.1 < e) ∧ e < c := by
  induction free with
  | nil =>
    obtain ⟨block, member, _⟩ := above
    cases member
  | cons block rest ih =>
    by_cases below : block.1 < e
    · obtain ⟨l, c, w, r, rfl, lower, higher⟩ := ih
        (fun other member => apart other (List.mem_cons_of_mem _ member)) <| by
          obtain ⟨other, member, higher⟩ := above
          rcases List.mem_cons.mp member with rfl | member
          · omega
          · exact ⟨other, member, higher⟩
      refine ⟨block :: l, c, w, r, rfl, fun other member => ?_, higher⟩
      rcases List.mem_cons.mp member with rfl | member
      · exact below
      · exact lower other member
    · have different := apart block List.mem_cons_self
      exact ⟨[], block.1, block.2, rest, rfl, fun _ member => absurd member List.not_mem_nil,
        by omega⟩

/-- **The loop of `meu_libera`** stops at the first free block above the freed one. -/
theorem posicao_stops {memory : Memory Header}
    (chain : Chain Header.linked memory none (l ++ (b, u) :: (c, w) :: r) none)
    (lower : ∀ block ∈ l ++ [(b, u)], block.1 < e) (higher : e < c) (anterior : ℤ)
    (enough : l.length + 1 < fuel) :
    posicao memory e fuel anterior (first (l ++ (b, u) :: (c, w) :: r) none) = some (b, c) := by
  induction l generalizing fuel anterior with
  | nil =>
    obtain ⟨more, rfl⟩ : ∃ more, fuel = more + 2 := ⟨fuel - 2, by simp at enough; omega⟩
    have here : memory b = some ⟨u, some c⟩ := chain.1
    have below : b < e := lower (b, u) List.mem_cons_self
    show posicao memory e (more + 2) anterior (some b) = some (b, c)
    rw [posicao, if_pos below, here, Option.bind_eq_bind, Option.bind_some, posicao,
      if_neg (by omega)]
  | cons block rest ih =>
    obtain ⟨more, rfl⟩ : ∃ more, fuel = more + 1 := ⟨fuel - 1, by omega⟩
    have short : rest.length + 1 < more := by simpa using enough
    have here : memory block.1 =
        some ⟨block.2, first (rest ++ (b, u) :: (c, w) :: r) none⟩ := chain.1
    have below : block.1 < e := lower block List.mem_cons_self
    show posicao memory e (more + 1) anterior (some block.1) = some (b, c)
    rw [posicao, if_pos below, here, Option.bind_eq_bind, Option.bind_some]
    exact ih (chain_prev chain.2) (fun other member => lower other (List.mem_cons_of_mem _ member))
      block.1 short

/-- More passes change nothing once the loop has stopped. -/
theorem posicao_mono {memory : Memory Header} {more : ℕ} {anterior : ℤ} {atual : Option ℤ}
    {place : ℤ × ℤ} (le : fuel ≤ more) (found : posicao memory e fuel anterior atual = some place) :
    posicao memory e more anterior atual = some place := by
  induction fuel generalizing more anterior atual with
  | zero => cases found
  | succ fuel ih =>
    obtain ⟨more, rfl⟩ : ∃ rest, more = rest + 1 := ⟨more - 1, by omega⟩
    cases atual with
    | none => cases found
    | some a =>
      rw [posicao] at found ⊢
      by_cases below : a < e
      · rw [if_pos below] at found ⊢
        obtain ⟨header, here, found⟩ := Option.bind_eq_some_iff.mp found
        exact Option.bind_eq_some_iff.mpr ⟨header, here, ih (Nat.le_of_succ_le_succ le) found⟩
      · rw [if_neg below] at found ⊢
        exact found

theorem meuLibera_mono {s' : State} {more : ℕ} {p : ℤ} (le : fuel ≤ more)
    (call : meuLibera size s fuel p = some s') : meuLibera size s more p = some s' := by
  obtain ⟨primeiro, head, call⟩ := Option.bind_eq_some_iff.mp call
  refine Option.bind_eq_some_iff.mpr ⟨primeiro, head, ?_⟩
  by_cases below : p - size < primeiro
  · rw [if_pos below] at call ⊢
    exact call
  · rw [if_neg below] at call ⊢
    obtain ⟨place, found, rest⟩ := Option.bind_eq_some_iff.mp call
    exact Option.bind_eq_some_iff.mpr ⟨place, posicao_mono le found, rest⟩

/-- **`merge` with the next free block**: behind it the order holds up to the end of the list. -/
theorem merge_next (heap : Heap size s (l ++ (x, tx) :: (c, w) :: r) used) (positive : 0 < size)
    (grade : ∀ block ∈ l ++ (x, tx) :: (c, w) :: r ++ used, size ∣ block.1 - base)
    (order : (l ++ (c, w) :: r).Pairwise fun x y => fim size x < y.1)
    (before : ∀ block ∈ l, fim size block < x) (behind : fim size (x, tx) ≤ c) :
    ∃ joined memory' free', merge size s.memory x c = some (joined, memory') ∧
      Heap size ⟨memory', s.listaLivres⟩ free' used ∧ Ordem size base free' used ∧
      ∃ block ∈ free', block.1 = x ∧ fim size (x, tx) ≤ fim size block := by
  have same := contiguos_iff positive (grade (x, tx) (by simp)) (grade (c, w) (by simp))
  obtain ⟨_, right, _⟩ := List.pairwise_append.mp order
  have last := (List.pairwise_cons.mp right).1
  have header : c + size ≤ fim size (c, w) :=
    header_le_fim positive (heap.pool.nonneg (c, w) (by simp))
  by_cases near : Contiguos size (x, tx) (c, w)
  · obtain ⟨memory', merged, after⟩ := merge_near heap positive near
    have joined : fim size (x, size + tx + w) = fim size (c, w) := by
      have meet : fim size (x, tx) = c := same.mp near
      rw [← meet]
      simp only [fim]
      ring
    refine ⟨true, memory', _, merged, after, ⟨?_, fun block member => ?_⟩,
      (x, size + tx + w), by simp, rfl, ?_⟩
    · refine antes_insert (order.sublist ?_) before fun block member => ?_
      · exact List.Sublist.append_left (List.sublist_cons_self _ _) _
      · rw [joined]
        exact last block member
    · rcases List.mem_append.mp member with inFree | inUsed
      · rcases List.mem_append.mp inFree with inLeft | inRight
        · exact grade block (by simp [inLeft])
        · rcases List.mem_cons.mp inRight with rfl | inRight
          · exact grade (x, tx) (by simp)
          · exact grade block (by simp [inRight])
      · exact grade block (List.mem_append_right _ inUsed)
    · rw [joined]
      exact behind.trans (by omega)
  · have apart : fim size (x, tx) < c := lt_of_le_of_ne behind fun meet => near (same.mpr meet)
    refine ⟨false, s.memory, _, merge_far heap near, heap, ⟨?_, grade⟩, (x, tx), by simp, rfl,
      le_refl _⟩
    refine antes_insert order before fun block member => ?_
    rcases List.mem_cons.mp member with rfl | member
    · exact apart
    · have := last block member
      omega

/-- `meu_libera` of a block below every free one. -/
theorem meuLibera_first (heap : Heap size s ((c, w) :: r) (l' ++ (e, t) :: r')) (below : e < c)
    (fuel : ℕ) :
    meuLibera size s fuel (e + size) =
      (merge size (store size s.memory e ⟨t, some c⟩) e c).bind fun result =>
        some ⟨result.2, some e⟩ := by
  have own : s.memory e = some ⟨t, none⟩ := heap.headers (e, t) (by simp)
  have head : s.listaLivres = some c := heap.lists.1
  simp only [meuLibera, head, Int.add_sub_cancel, Option.bind_eq_bind, Option.bind_some,
    modify_eq own, if_pos below]

/-- `meu_libera` of a block between two free ones. -/
theorem meuLibera_between (heap : Heap size s (l ++ (b, u) :: (c, w) :: r) (l' ++ (e, t) :: r'))
    (positive : 0 < size) (lower : ∀ block ∈ l ++ [(b, u)], block.1 < e) (higher : e < c)
    (enough : l.length + 1 < fuel) :
    meuLibera size s fuel (e + size) =
      (merge size (store size (store size s.memory e ⟨t, some c⟩) b ⟨u, some e⟩) b e).bind
        fun result =>
          if result.1 then (merge size result.2 b c).bind fun result =>
            some ⟨result.2, s.listaLivres⟩
          else (merge size result.2 e c).bind fun result => some ⟨result.2, s.listaLivres⟩ := by
  have own : s.memory e = some ⟨t, none⟩ := heap.headers (e, t) (by simp)
  have load : s.memory b = some ⟨u, some c⟩ := heap.parts.2.1
  have apart : Apart size e b := (heap.pool.across positive (b, u) (by simp) (e, t)
    (by simp)).symm
  have linked : store size s.memory e ⟨t, some c⟩ b = some ⟨u, some c⟩ :=
    (store_apart positive apart).trans load
  obtain ⟨f, head, lowest⟩ : ∃ f, s.listaLivres = some f ∧ f < e := by
    cases l with
    | nil => exact ⟨b, heap.lists.1, lower (b, u) List.mem_cons_self⟩
    | cons block rest => exact ⟨block.1, heap.lists.1, lower block List.mem_cons_self⟩
  have found := posicao_stops heap.lists.2 lower higher f enough
  rw [← heap.lists.1, head] at found
  simp only [meuLibera, head, Int.add_sub_cancel, Option.bind_eq_bind, Option.bind_some,
    modify_eq own, if_neg (show ¬ e < f by omega), found, load, modify_eq linked]

/-- What a call that frees the block `(e, t)` leaves: the order, and a block on the list that holds
it. -/
def Libera (size base : ℤ) (s' : State) (used : List Block) (e t : ℤ) : Prop :=
  ∃ free', Heap size s' free' used ∧ Ordem size base free' used ∧
    ∃ block ∈ free', block.1 ≤ e ∧ fim size (e, t) ≤ fim size block

/-- The addresses of the blocks with the freed one on the list. -/
theorem Ordem.grade_give (ordem : Ordem size base (l ++ r) (l' ++ (e, t) :: r')) :
    ∀ block ∈ l ++ (e, t) :: r ++ (l' ++ r'), size ∣ block.1 - base := by
  intro block member
  refine ordem.grade block ?_
  simp only [List.mem_append, List.mem_cons] at member ⊢
  tauto

/-- Below every free block. -/
theorem libera_first (heap : Heap size s ((c, w) :: r) (l' ++ (e, t) :: r'))
    (ordem : Ordem size base ((c, w) :: r) (l' ++ (e, t) :: r')) (positive : 0 < size)
    (higher : e < c) :
    ∃ s', (∀ fuel, meuLibera size s fuel (e + size) = some s') ∧
      Libera size base s' (l' ++ r') e t := by
  have behind : fim size (e, t) ≤ c :=
    (heap.pool.fim_le positive List.mem_cons_self (by simp)).2 higher
  obtain ⟨joined, memory', free', merged, after, kept, block, member, start, holds⟩ :=
    merge_next (l := []) (heap.giveFirst positive) positive (ordem.grade_give (l := []))
      ordem.antes (fun _ member => absurd member List.not_mem_nil) behind
  refine ⟨⟨memory', some e⟩, fun fuel => ?_, free', after, kept, block, member, by omega, holds⟩
  rw [meuLibera_first heap higher]
  exact Option.bind_eq_some_iff.mpr ⟨_, merged, rfl⟩

/-- Between two free blocks: joined with the one before it, or not, and then with the next one. -/
theorem libera_between (heap : Heap size s (l ++ (b, u) :: (c, w) :: r) (l' ++ (e, t) :: r'))
    (ordem : Ordem size base (l ++ (b, u) :: (c, w) :: r) (l' ++ (e, t) :: r'))
    (positive : 0 < size) (lower : ∀ block ∈ l ++ [(b, u)], block.1 < e) (higher : e < c) :
    ∃ s', (∀ fuel, l.length + 1 < fuel → meuLibera size s fuel (e + size) = some s') ∧
      Libera size base s' (l' ++ r') e t := by
  have below : b < e := lower (b, u) (by simp)
  have inUsed : (e, t) ∈ l' ++ (e, t) :: r' := by simp
  have behind : fim size (e, t) ≤ c :=
    (heap.pool.fim_le positive (show (c, w) ∈ l ++ (b, u) :: (c, w) :: r by simp) inUsed).2 higher
  have ahead : fim size (b, u) ≤ e :=
    (heap.pool.fim_le positive (show (b, u) ∈ l ++ (b, u) :: (c, w) :: r by simp) inUsed).1 below
  have grouped : Ordem size base ((l ++ [(b, u)]) ++ (c, w) :: r) (l' ++ (e, t) :: r') := by
    simpa using ordem
  have grade := grouped.grade_give
  have before : ∀ block ∈ l, fim size block < b := fun block member =>
    (List.pairwise_append.mp ordem.antes).2.2 block member (b, u) List.mem_cons_self
  have given := heap.giveLater positive
  have same := contiguos_iff positive (grade (b, u) (by simp)) (grade (e, t) (by simp))
  by_cases near : Contiguos size (b, u) (e, t)
  · obtain ⟨memory, first, heap'⟩ := merge_near given positive near
    have joined : fim size (b, size + u + t) = fim size (e, t) := by
      have meet : fim size (b, u) = e := same.mp near
      rw [← meet]
      simp only [fim]
      ring
    have gradeJoined : ∀ block ∈ l ++ (b, size + u + t) :: (c, w) :: r ++ (l' ++ r'),
        size ∣ block.1 - base := by
      intro block member
      by_cases here : block = (b, size + u + t)
      · rw [here]
        exact grade (b, u) (by simp)
      · refine grade block ?_
        simp only [List.append_assoc, List.cons_append, List.nil_append, List.mem_append,
          List.mem_cons] at member ⊢
        tauto
    obtain ⟨again, memory', free', second, after, kept, block, member, start, holds⟩ :=
      merge_next heap' positive gradeJoined
        (ordem.antes.sublist (List.Sublist.append_left (List.sublist_cons_self _ _) _)) before
        (joined.trans_le behind)
    refine ⟨⟨memory', s.listaLivres⟩, fun fuel enough => ?_, free', after, kept, block, member,
      by omega, joined.symm.trans_le holds⟩
    rw [meuLibera_between heap positive lower higher enough]
    refine Option.bind_eq_some_iff.mpr ⟨_, first, ?_⟩
    exact Option.bind_eq_some_iff.mpr ⟨_, second, rfl⟩
  · have apart : fim size (b, u) < e := lt_of_le_of_ne ahead fun meet => near (same.mpr meet)
    have regrouped := given
    rw [List.append_cons l (b, u)] at regrouped
    have beforeFreed : ∀ block ∈ l ++ [(b, u)], fim size block < e := by
      intro block member
      rcases List.mem_append.mp member with inLeft | last
      · exact (before block inLeft).trans below
      · rw [List.mem_singleton.mp last]
        exact apart
    obtain ⟨again, memory', free', second, after, kept, block, member, start, holds⟩ :=
      merge_next regrouped positive grade grouped.antes beforeFreed behind
    refine ⟨⟨memory', s.listaLivres⟩, fun fuel enough => ?_, free', after, kept, block, member,
      by omega, holds⟩
    rw [meuLibera_between heap positive lower higher enough]
    refine Option.bind_eq_some_iff.mpr ⟨_, merge_far given near, ?_⟩
    exact Option.bind_eq_some_iff.mpr ⟨_, second, rfl⟩

/-- **`meu_libera` below a free block** returns, keeps the order, and leaves the freed block as a part
of a block on the list. -/
theorem meuLibera_ordem (heap : Heap size s free (l' ++ (e, t) :: r'))
    (ordem : Ordem size base free (l' ++ (e, t) :: r')) (positive : 0 < size)
    (above : ∃ block ∈ free, e < block.1) :
    ∃ s', (∀ fuel, free.length ≤ fuel → meuLibera size s fuel (e + size) = some s') ∧
      Libera size base s' (l' ++ r') e t := by
  have apart : ∀ block ∈ free, block.1 ≠ e := by
    intro block member same
    have away := heap.pool.across positive block member (e, t) (by simp)
    unfold Apart at away
    omega
  obtain ⟨l, c, w, r, rfl, lower, higher⟩ := split_above apart above
  rcases List.eq_nil_or_concat' l with rfl | ⟨l, ⟨b, u⟩, rfl⟩
  · obtain ⟨s', run, left⟩ := libera_first heap ordem positive higher
    exact ⟨s', fun fuel _ => run fuel, left⟩
  · rw [List.append_assoc] at heap ordem
    obtain ⟨s', run, left⟩ := libera_between heap ordem positive lower higher
    refine ⟨s', fun fuel enough => run fuel ?_, left⟩
    simp only [List.length_append, List.length_cons, List.length_nil] at enough
    omega

end Libera

/-! ### Whole runs -/

/-- Some free block lies above the one that `p` points to. -/
def TemAcima (size : ℤ) (s : State) (p : ℤ) : Prop :=
  ∃ x, OnList Header.prox s.memory s.listaLivres x ∧ p - size < x

/-- **The condition on a call**: `meu_libera` has a free block above the freed one. -/
def Acima (size : ℤ) (run : Run) : Call → Prop
  | .aloca _ _ => True
  | .libera p _ => TemAcima size run.state p

/-- **What the runs keep.** -/
def Ordenado (size base : ℤ) (run : Run) : Prop :=
  ∃ free used : List Block, Heap size run.state free used ∧
    run.live = used.map (fun block => block.1 + size) ∧ Ordem size base free used

theorem ordenado_inicio (small : size ≤ tamMemoria) (base : ℤ) :
    Ordenado size base (inicio size base) := by
  have header : (inicializaMem size base).memory base = some ⟨tamMemoria - size, none⟩ := by
    simp [inicializaMem]
  refine ⟨[(base, tamMemoria - size)], [], ⟨⟨rfl, header, trivial⟩, by simp, ⟨?_, ?_⟩⟩, rfl, ?_, ?_⟩
  · simp [small]
  · simp
  · simp
  · simp

/-- A call of `meu_libera` that meets the condition. -/
theorem Ordenado.libera {run : Run} {p : ℤ} (ordenado : Ordenado size base run)
    (positive : 0 < size) (live : p ∈ run.live) (above : TemAcima size run.state p) :
    ∃ s' passes l e t r, (∀ fuel, passes ≤ fuel → meuLibera size run.state fuel p = some s') ∧
      run.live.erase p = (l ++ r).map (fun block => block.1 + size) ∧ p = e + size ∧
      run.state.memory e = some ⟨t, none⟩ ∧ Libera size base s' (l ++ r) e t := by
  obtain ⟨free, used, heap, pointers, ordem⟩ := ordenado
  obtain ⟨l, e, t, r, rfl, rfl, erased⟩ := used_split heap positive pointers live
  obtain ⟨x, onList, higher⟩ := above
  rw [heap.lists.1] at onList
  obtain ⟨v, member⟩ := mem_of_onList (fun _ _ _ => rfl) heap.lists.2 onList
  obtain ⟨s', run, left⟩ := meuLibera_ordem heap ordem positive
    ⟨(x, v), member, by dsimp only; omega⟩
  exact ⟨s', free.length, l, e, t, r, run, erased, rfl, heap.headers (e, t) (by simp), left⟩

/-- **A call that meets the condition keeps the order.** -/
theorem Ordenado.next {run after : Run} {call : Call} (ordenado : Ordenado size base run)
    (positive : 0 < size) (condition : Acima size run call)
    (step : next size run call = some after) : Ordenado size base after := by
  cases call with
  | aloca tam fuel =>
    dsimp only [FuncoesEx.next] at step
    split at step
    · rename_i asked
      obtain ⟨⟨result, s'⟩, call, rest⟩ := Option.bind_eq_some_iff.mp step
      cases result with
      | none =>
        cases rest
        rw [meuAloca_refused call]
        exact ordenado
      | some p =>
        cases rest
        obtain ⟨free, used, heap, live, ordem⟩ := ordenado
        obtain ⟨free', a, t', rfl, heap', ordem'⟩ := meuAloca_ordem heap ordem positive asked call
        exact ⟨free', _, heap', by simp [live], ordem'⟩
    · cases step
  | libera p fuel =>
    dsimp only [FuncoesEx.next] at step
    split at step
    · rename_i live
      obtain ⟨s', call, rest⟩ := Option.bind_eq_some_iff.mp step
      cases rest
      obtain ⟨s'', passes, l, e, t, r, runs, erased, rfl, _, free', heap', ordem', _⟩ :=
        ordenado.libera positive live condition
      -- the passes given were enough, so that more of them give the same
      have same := meuLibera_mono (Nat.le_add_left fuel passes) call
      rw [runs _ (Nat.le_add_right passes fuel)] at same
      cases same
      exact ⟨free', l ++ r, heap', erased, ordem'⟩
    · cases step

/-- **Freeing is safe and ordered**: in every run of calls that meet the condition, a call of
`meu_libera` that meets it returns. The list it leaves is strictly increasing in address, one of its
blocks holds the freed block, and no two of them are contiguous. -/
theorem libera_ordered (positive : 0 < size) (small : size ≤ tamMemoria) {run : Run}
    (reach : Reach (next size) (Acima size) (inicio size base) run) {p : ℤ} (live : p ∈ run.live)
    (above : TemAcima size run.state p) :
    ∃ after, (∃ passes, ∀ fuel, passes ≤ fuel → meuLibera size run.state fuel p = some after) ∧
      ∃ blocks, Lists after blocks ∧ blocks.Pairwise (fun x y => x.1 < y.1) ∧
        (∃ header, run.state.memory (p - size) = some header ∧
          ∃ block ∈ blocks, block.1 ≤ p - size ∧
            fim size (p - size, header.tam) ≤ fim size block) ∧
        ∀ x ∈ blocks, ∀ y ∈ blocks, ¬ Contiguos size x y := by
  have ordenado := reach.invariant (Ordenado size base) (ordenado_inicio small base)
    fun _ _ _ ordenado condition step => ordenado.next positive condition step
  obtain ⟨after, passes, l, e, t, r, runs, _, rfl, own, blocks, heap, ordem, holds⟩ :=
    ordenado.libera positive live above
  obtain ⟨increasing, separate⟩ := ordem.separate positive heap.pool
  rw [Int.add_sub_cancel]
  exact ⟨after, ⟨passes, runs⟩, blocks, heap.lists, increasing, ⟨_, own, holds⟩, separate⟩

/-- Three allocations, the second one freed, and then the first one. -/
theorem libera_ordered_joined : ∃ run, Reach (next 16) (Acima 16) (inicio 16 0) run ∧
    ∃ after, (∃ passes, ∀ fuel, passes ≤ fuel → meuLibera 16 run.state fuel 16 = some after) ∧
      ∃ blocks, Lists after blocks ∧ blocks.Pairwise (fun x y => x.1 < y.1) ∧
        (∃ header, run.state.memory (16 - 16) = some header ∧
          ∃ block ∈ blocks, block.1 ≤ 16 - 16 ∧ fim 16 (16 - 16, header.tam) ≤ fim 16 block) ∧
        ∀ x ∈ blocks, ∀ y ∈ blocks, ¬ Contiguos 16 x y := by
  have none : Reach (next 16) (Acima 16) (inicio 16 0) (inicio 16 0) := .start
  have one := none.step (show Acima 16 _ (.aloca 100 3) from trivial) rfl
  have two := one.step (show Acima 16 _ (.aloca 5 3) from trivial) rfl
  have three := two.step (show Acima 16 _ (.aloca 7 3) from trivial) rfl
  have freed := three.step (show Acima 16 _ (.libera 1872 3) from ⟨2560, .here rfl, by decide⟩) rfl
  exact ⟨_, freed, libera_ordered (by decide) (by decide) freed (by decide)
    ⟨1856, .here rfl, by decide⟩⟩

end FuncoesEx
