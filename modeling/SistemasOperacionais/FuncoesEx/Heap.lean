/-
**`funcoes_ex.cpp`: the blocks in memory.**

Every block, free or allocated, starts with its header. Where a block ends is counted as the code
counts it, `tam + sizeof(struct header)` headers behind its start.

* `Lists` — the blocks that `listaLivres` leads to. `total` — the sum of their bytes with headers.
* `Pool` — blocks that do not overlap; `Pool.split` and `Pool.join` are what `meu_aloca` and `merge`
  do to them.
* `Heap` — the invariant of the memory: the free blocks are linked, the used ones have their headers,
  and no two overlap.
-/

import SistemasOperacionais.FuncoesEx.Model
import Mathlib.Algebra.BigOperators.Group.List.Basic
import Mathlib.Algebra.Order.Ring.Int
import Mathlib.Algebra.Ring.Int.Defs
import Mathlib.Data.List.Perm.Basic
import Mathlib.Tactic.Ring

namespace FuncoesEx

open Headers

/-- A block: the address of its header and its `tam`. -/
abbrev Block := ℤ × ℤ

/-- `listaLivres` is the list of these blocks. -/
def Lists (s : State) (blocks : List Block) : Prop :=
  s.listaLivres = first blocks none ∧ Chain Header.linked s.memory none blocks none

/-- The sum of `tam + sizeof(struct header)`. -/
def total (size : ℤ) (blocks : List Block) : ℤ := (blocks.map fun block => block.2 + size).sum

/-! ### The blocks in memory -/

variable {size : ℤ}

/-- Where a block ends, counted as `novoBloco` and `merge` count. -/
def fim (size : ℤ) (block : Block) : ℤ := block.1 + (block.2 + size) * size

/-- **The blocks do not overlap.** -/
structure Pool (size : ℤ) (blocks : List Block) : Prop where
  nonneg : ∀ block ∈ blocks, 0 ≤ block.2
  disjoint : blocks.Pairwise fun x y => fim size x ≤ y.1 ∨ fim size y ≤ x.1

/-- The order of the blocks does not matter. -/
theorem Pool.of_count {blocks blocks' : List Block} (pool : Pool size blocks)
    (same : ∀ block, blocks.count block = blocks'.count block) : Pool size blocks' := by
  have perm : blocks.Perm blocks' := List.perm_iff_count.mpr same
  refine ⟨fun block member => pool.nonneg block (perm.mem_iff.mpr member), ?_⟩
  exact (perm.pairwise_iff fun disjoint => Or.symm disjoint).mp pool.disjoint

/-- A block holds its own header. -/
theorem header_le_fim (positive : 0 < size) {block : Block} (nonneg : 0 ≤ block.2) :
    block.1 + size ≤ fim size block := by
  have once : 1 * size ≤ (block.2 + size) * size :=
    Int.mul_le_mul_of_nonneg_right (by omega) positive.le
  unfold fim
  omega

theorem Pool.sublist {blocks blocks' : List Block} (pool : Pool size blocks)
    (sub : blocks'.Sublist blocks) : Pool size blocks' :=
  ⟨fun block member => pool.nonneg block (sub.subset member), pool.disjoint.sublist sub⟩

theorem Pool.tail {block : Block} {rest : List Block} (pool : Pool size (block :: rest)) :
    Pool size rest :=
  pool.sublist (List.sublist_cons_self block rest)

/-- The headers of two blocks do not overlap. -/
theorem Pool.across (positive : 0 < size) {l r : List Block} (pool : Pool size (l ++ r)) :
    ∀ block ∈ l, ∀ other ∈ r, Apart size block.1 other.1 := by
  intro block inLeft other inRight
  have here := header_le_fim positive (pool.nonneg block (List.mem_append_left _ inLeft))
  have there := header_le_fim positive (pool.nonneg other (List.mem_append_right _ inRight))
  have disjoint := (List.pairwise_append.mp pool.disjoint).2.2 block inLeft other inRight
  unfold Apart
  omega

theorem Pool.apart (positive : 0 < size) {block : Block} {rest : List Block}
    (pool : Pool size (block :: rest)) : ∀ other ∈ rest, Apart size block.1 other.1 :=
  Pool.across (l := [block]) positive pool block List.mem_cons_self

/-- A block split in two. -/
theorem Pool.split {a t tam : ℤ} {rest : List Block} (pool : Pool size ((a, t) :: rest))
    (positive : 0 < size) (asked : 0 < tam) (large : size + tam ≤ t) :
    Pool size ((a, tam) :: (novoBloco size a tam, t - size - tam) :: rest) := by
  have middle : fim size (a, tam) = novoBloco size a tam := rfl
  have last : fim size (novoBloco size a tam, t - size - tam) = fim size (a, t) := by
    simp only [fim, novoBloco]
    ring
  have below : a ≤ novoBloco size a tam := by
    have header : a + size ≤ fim size (a, tam) := header_le_fim positive asked.le
    omega
  obtain ⟨apart, disjoint⟩ := List.pairwise_cons.mp pool.disjoint
  refine ⟨?_, ?_⟩
  · intro block member
    rcases List.mem_cons.mp member with rfl | member
    · exact asked.le
    · rcases List.mem_cons.mp member with rfl | member
      · dsimp only
        omega
      · exact pool.tail.nonneg block member
  · refine List.pairwise_cons.mpr ⟨?_, List.pairwise_cons.mpr ⟨?_, disjoint⟩⟩
    · intro other member
      rcases List.mem_cons.mp member with rfl | member
      · exact Or.inl middle.le
      · have upper : fim size (a, tam) ≤ fim size (a, t) := by
          rw [← last, middle]
          have header : novoBloco size a tam + size ≤
              fim size (novoBloco size a tam, t - size - tam) :=
            header_le_fim positive (by dsimp only; omega)
          omega
        exact (apart other member).imp (upper.trans ·) id
    · intro other member
      rw [last]
      exact (apart other member).imp id (·.trans below)

/-- Two neighbours joined: no block fits between them. -/
theorem Pool.join {x tx y ty : ℤ} {rest : List Block}
    (pool : Pool size ((x, tx) :: (y, ty) :: rest)) (positive : 0 < size)
    (next : fim size (x, tx) ≤ y) (close : y < fim size (x, tx) + size) :
    Pool size ((x, size + tx + ty) :: rest) := by
  have nonnegX := pool.nonneg (x, tx) List.mem_cons_self
  have nonnegY := pool.tail.nonneg (y, ty) List.mem_cons_self
  have last : fim size (x, size + tx + ty) ≤ fim size (y, ty) := by
    have sum : fim size (x, size + tx + ty) = fim size (x, tx) + (ty + size) * size := by
      simp only [fim]
      ring
    rw [sum]
    simp only [fim] at next ⊢
    omega
  obtain ⟨apartX, pairs⟩ := List.pairwise_cons.mp pool.disjoint
  obtain ⟨apartY, disjoint⟩ := List.pairwise_cons.mp pairs
  refine ⟨?_, List.pairwise_cons.mpr ⟨fun other member => ?_, disjoint⟩⟩
  · intro block member
    rcases List.mem_cons.mp member with rfl | member
    · simp only at nonnegX nonnegY ⊢
      omega
    · exact pool.tail.tail.nonneg block member
  · have left := apartX other (List.mem_cons_of_mem _ member)
    have right := apartY other member
    have headerX := header_le_fim positive nonnegX
    have headerOther := header_le_fim positive (pool.tail.tail.nonneg other member)
    simp only at left right headerX ⊢
    omega

/-! ### Sums -/

@[simp]
theorem total_cons (block : Block) (blocks : List Block) :
    total size (block :: blocks) = block.2 + size + total size blocks := by
  simp [total]

@[simp]
theorem total_append (l r : List Block) :
    total size (l ++ r) = total size l + total size r := by
  simp [total]

@[simp]
theorem total_nil : total size [] = 0 := rfl

/-! ### The heap -/

/-- **The invariant of the memory**: the free blocks are linked from `listaLivres`, the used ones
have their headers with a cleared link, and no two blocks overlap. -/
structure Heap (size : ℤ) (s : State) (free used : List Block) : Prop where
  lists : Lists s free
  headers : ∀ block ∈ used, s.memory block.1 = some ⟨block.2, none⟩
  pool : Pool size (free ++ used)

/-- There is no link back: what precedes a chain does not matter. -/
theorem chain_prev {memory : Memory Header} {prev prev' next : Option ℤ} {blocks : List Block}
    (chain : Chain Header.linked memory prev blocks next) :
    Chain Header.linked memory prev' blocks next :=
  chain.anyPrev fun _ _ _ _ => rfl

/-- The three parts of a list of free blocks around a block. -/
theorem Heap.parts {s : State} {l r used : List Block} {a t : ℤ}
    (heap : Heap size s (l ++ (a, t) :: r) used) :
    Chain Header.linked s.memory none l (some a) ∧ s.memory a = some ⟨t, first r none⟩ ∧
      Chain Header.linked s.memory none r none := by
  obtain ⟨left, here, right⟩ := chain_append.mp heap.lists.2
  exact ⟨left, here, chain_prev right⟩

theorem parts_chain {memory : Memory Header} {l r : List Block} {a t : ℤ}
    (left : Chain Header.linked memory none l (some a))
    (here : memory a = some ⟨t, first r none⟩) (right : Chain Header.linked memory none r none) :
    Chain Header.linked memory none (l ++ (a, t) :: r) none :=
  chain_append.mpr ⟨left, here, chain_prev right⟩

/-- Storing the header of a block leaves the headers of the others. -/
theorem store_headers {memory : Memory Header} {used : List Block} {x : ℤ} {header : Header}
    (headers : ∀ block ∈ used, memory block.1 = some ⟨block.2, none⟩) (positive : 0 < size)
    (away : ∀ block ∈ used, Apart size x block.1) :
    ∀ block ∈ used, store size memory x header block.1 = some ⟨block.2, none⟩ :=
  fun block member => (store_apart positive (away block member)).trans (headers block member)

end FuncoesEx
