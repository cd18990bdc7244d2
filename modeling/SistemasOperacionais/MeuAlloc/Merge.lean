/-
**`meu_alloc.c`: what `merge` does to a doubly linked list.**

`merge` walks the list. At a free block it takes out the free headers behind, one by one and without
moving, and it moves on where there is nothing to take out. Each pass shortens what is left of the
list, so that it ends.

* `Dupla` — the list from `listaMemoria` on, with `ant` and `prox` inverse to each other.
* `Vira` — a run of blocks and the block it becomes, at the address of the first.
* `merge_dupla` — **every run of free blocks becomes one block**, as long as an `int` can hold what the
  blocks account for: no two neighbours are free, the used blocks are as they were, what the blocks
  account for is kept, `ant` and `prox` are inverse again, and a second call changes nothing.
* `merge_overflows` — beyond that the sum of two free blocks can be negative, which marks them used.
* `meuLibera_dupla` — so `meu_libera` keeps the list doubly linked.
-/

import SistemasOperacionais.MeuAlloc.Lista
import SistemasOperacionais.Data.Wrap
import Mathlib.Algebra.Order.Group.Unbundled.Int

namespace MeuAlloc

open Headers Coalesce

variable {h : ℤ} {memory : Memory Hole} {s : State} {blocks l r : List Block} {a t : ℤ}

/-! ### Doubly linked lists -/

/-- **The blocks from `listaMemoria` on, linked both ways.** -/
structure Dupla (h : ℤ) (s : State) (blocks : List Block) : Prop where
  head : s.listaMemoria = first blocks none
  linked : Linked h Hole.linked s.memory blocks

/-- All fields of a header describe the list. -/
theorem campos_todos : Campos id Hole.linked where
  fields same := by
    cases same
    exact ⟨rfl, rfl⟩
  change same _ _ := by
    cases same
    rfl
  back same _ := by
    cases same
    rfl

theorem Dupla.view (dupla : Dupla h s blocks) : Linked h Hole.linked (view id s.memory) blocks := by
  rw [view_id]
  exact dupla.linked

/-! ### Runs -/

/-- **A run of blocks and the block it becomes**, at the address of its first one: of several blocks
all are free, and the headers between them are added. -/
structure Vira (h : ℤ) (run : List Block) (block : Block) : Prop where
  header : run.head?.map Prod.fst = some block.1
  tam : block.2 + h = (run.map fun part => part.2 + h).sum
  livres : run = [block] ∨ ∀ part ∈ run, 0 ≤ part.2

theorem vira_of_yields {run : List Block} {block : Block} (made : Yields livre (joined h) run block) :
    Vira h run block := by
  induction made with
  | single x => exact ⟨rfl, by simp, .inl rfl⟩
  | @more x y run left right made ih =>
    refine ⟨rfl, ?_, .inr fun part member => ?_⟩
    · rw [List.map_cons, List.sum_cons, ← ih.tam]
      unfold joined
      dsimp only
      omega
    · rcases List.mem_cons.mp member with rfl | member
      · exact livre_iff.mp left
      · rcases ih.livres with rfl | all
        · rw [List.mem_singleton.mp member]
          exact livre_iff.mp right
        · exact all part member

/-- The used blocks are as they were. -/
theorem usados_coalesce (positive : 0 < h) (blocks : List Block) :
    (coalesce livre (joined h) blocks).filter (fun block => block.2 < 0) =
      blocks.filter fun block => block.2 < 0 := by
  have used : (fun block : Block => decide (block.2 < 0)) = fun block => !livre block := by
    funext block
    rw [livre, ← decide_not]
    exact decide_eq_decide.mpr not_le.symm
  rw [used]
  exact filter_coalesce (joins positive) blocks

/-! ### `merge` -/

/-- Neither of the two sums leaves the range. -/
theorem exata_int (positive : 0 < h) : Exata Wrap.int h (2 ^ 31 - 1) := by
  intro x y left right fits
  have first : Wrap.int (x + h) = x + h := Wrap.int_eq (by omega) (by omega)
  rw [first, Wrap.int_eq (by omega) fits]

/-- **`merge` joins the runs of free blocks of a doubly linked list**, if an `int` can hold what the
blocks account for. It ends after at most one pass more than there are blocks; no two neighbours are
free any more; the used blocks are as they were, in order; each run has become one block at the
address of its first; what the blocks account for is kept; the list is doubly linked; and a second
call changes nothing. -/
theorem merge_dupla (positive : 0 < h) (dupla : Dupla h s blocks)
    (fits : total h blocks ≤ 2 ^ 31 - 1) :
    ∃ memory juntos,
      (∀ fuel, blocks.length < fuel →
        Com.merge h Wrap.int s.memory fuel s.listaMemoria = some memory) ∧
      Dupla h { s with memory := memory } juntos ∧
      (juntos.IsChain fun x y => ¬ (0 ≤ x.2 ∧ 0 ≤ y.2)) ∧
      juntos.filter (fun block => block.2 < 0) = blocks.filter (fun block => block.2 < 0) ∧
      (∃ runs, runs.flatten = blocks ∧ List.Forall₂ (Vira h) runs juntos) ∧
      total h juntos = total h blocks ∧
      ∀ fuel, juntos.length < fuel →
        Com.merge h Wrap.int memory fuel s.listaMemoria = some memory := by
  obtain ⟨memory, run, linked, _⟩ := Com.merge_linked campos_todos positive (exata_int positive)
    dupla.view fits
  have start : s.listaMemoria = first (coalesce livre (joined h) blocks) none :=
    dupla.head.trans (first_coalesce blocks).symm
  have settled : Settled livre (coalesce livre (joined h) blocks) := settled_coalesce blocks
  have kept := total_livres positive blocks
  refine ⟨memory, coalesce livre (joined h) blocks, fun fuel enough => ?_, ⟨start, ?_⟩, ?_,
    usados_coalesce positive blocks, ?_, kept, fun fuel enough => ?_⟩
  · rw [dupla.head]
    exact run fuel enough
  · rwa [view_id] at linked
  · unfold Settled at settled
    simpa only [livre_iff] using settled
  · obtain ⟨runs, whole, made⟩ : ∃ runs, runs.flatten = blocks ∧
        List.Forall₂ (Yields livre (joined h)) runs (coalesce livre (joined h) blocks) :=
      exists_runs blocks
    exact ⟨runs, whole, made.imp fun _ _ => vira_of_yields⟩
  · -- nothing is left to join, so nothing is written
    obtain ⟨again, rerun, _, same⟩ := Com.merge_linked campos_todos positive (exata_int positive)
      linked (kept.trans_le fits)
    rw [start, rerun fuel enough, same settled]

/-- Two free blocks and a used one. -/
def tresBlocos : State where
  memory a :=
    if a = 0 then some ⟨100, none, some 124⟩
    else if a = 124 then some ⟨50, some 0, some 198⟩
    else if a = 198 then some ⟨-20, some 124, none⟩
    else none
  listaMemoria := some 0
  ptrNextFit := some 0

theorem dupla_tresBlocos : Dupla 24 tresBlocos [(0, 100), (124, 50), (198, -20)] := by
  refine ⟨rfl, ⟨rfl, rfl, rfl, trivial⟩, ?_⟩
  unfold Spread Apart
  decide

/-- The two free blocks become one of 174 bytes. -/
theorem merge_dupla_tres : ∃ memory juntos,
    Com.merge 24 Wrap.int tresBlocos.memory 4 tresBlocos.listaMemoria = some memory ∧
      (memory 0).map Hole.tam = some 174 ∧ Dupla 24 { tresBlocos with memory := memory } juntos ∧
      total 24 juntos = 242 := by
  obtain ⟨memory, juntos, run, dupla, _, _, _, kept, _⟩ := merge_dupla (by decide) dupla_tresBlocos
    (by decide)
  have ran := run 4 (by decide)
  have size : ((Com.merge 24 Wrap.int tresBlocos.memory 4 tresBlocos.listaMemoria).bind fun memory =>
      (memory 0).map Hole.tam) = some 174 := by decide +kernel
  rw [ran] at size
  exact ⟨memory, juntos, ran, size, dupla, kept.trans (by decide)⟩

/-- Two free blocks, the first as large as an `int` can say, and a used one. -/
def blocoEnorme : State where
  memory a :=
    if a = 0 then some ⟨2147483647, none, some 2147483671⟩
    else if a = 2147483671 then some ⟨20, some 0, some 2147483715⟩
    else if a = 2147483715 then some ⟨-5, some 2147483671, none⟩
    else none
  listaMemoria := some 0
  ptrNextFit := some 0

/-- **Without the bound the joined block is marked used**: the sum of the two free blocks is negative,
there is one used block more, and the blocks account for less. -/
theorem merge_overflows :
    Dupla 24 blocoEnorme [(0, 2147483647), (2147483671, 20), (2147483715, -5)] ∧
    ∃ memory, Com.merge 24 Wrap.int blocoEnorme.memory 4 blocoEnorme.listaMemoria = some memory ∧
      Dupla 24 { blocoEnorme with memory := memory } [(0, -2147483605), (2147483715, -5)] ∧
      total 24 [(0, -2147483605), (2147483715, -5)] ≠
        total 24 [(0, 2147483647), (2147483671, 20), (2147483715, -5)] := by
  refine ⟨⟨rfl, ⟨rfl, rfl, rfl, trivial⟩, ?_⟩, _, rfl, ⟨rfl, ⟨?_, ?_, trivial⟩, ?_⟩, by decide⟩
  · unfold Spread Apart
    decide
  · decide +kernel
  · decide +kernel
  · unfold Spread Apart
    decide

/-- **`meu_libera` keeps the list doubly linked**: the block is marked free, and the runs are
joined. -/
theorem meuLibera_dupla (positive : 0 < h) {b u : ℤ} (dupla : Dupla h s (l ++ (b, u) :: r)) :
    ∃ memory, (∀ fuel, (l ++ (b, u) :: r).length < fuel →
        meuLibera h s fuel (some (b + h)) = some { s with memory := memory }) ∧
      Dupla h { s with memory := memory }
        (coalesce livre (joined h) (l ++ (b, mod u) :: r)) := by
  obtain ⟨memory, run, linked⟩ := meuLibera_linked campos_todos positive dupla.view dupla.head
  rw [view_id] at linked
  exact ⟨memory, run, dupla.head.trans (first_libera h l r b u), linked⟩

end MeuAlloc
