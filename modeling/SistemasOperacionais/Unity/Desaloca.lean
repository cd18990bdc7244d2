/-
**`memory_management_unity.c`: freeing in any order.**

`meu_desaloca` joins the freed block with the free neighbours it has. On a well-formed list this is
the coalescing of the list with that block marked free, so that freeing a set of blocks, in any
order, ends in the coalescing of the list with the whole set marked free.

* `absorb_linked` — joining two neighbours takes the second one out of the list.
* `meuDesaloca_linked` — **`meu_desaloca` is a coalescing**: the header surgery of the code on the
  list in memory is `coalesce` on the list of blocks.
* `desaloca_any_order` — **any order of freeing gives the same list**, which is well formed, keeps
  the other allocated blocks in order and the sum of sizes, and is a single free block when
  everything has been freed.
-/

import SistemasOperacionais.Unity.Model
import SistemasOperacionais.Data.Coalesce
import SistemasOperacionais.Runs.Reach
import Mathlib.Data.Finset.Basic
import Mathlib.Data.Finset.Lattice.Lemmas
import Mathlib.Algebra.Ring.Int.Defs
import Mathlib.Algebra.Order.Group.Unbundled.Int

namespace Unity

open Headers Coalesce Transition Wrap

/-- A block: the address of its header and its `tam`. -/
abbrev Block := ℤ × ℤ

def isFree (block : Block) : Bool := decide (0 < block.2)

/-- **A well-formed list**: `prev` and `next` are inverse and the headers do not overlap, every
`tam` is non-zero, and no two neighbours are free. -/
structure WellFormed (holeSize : ℤ) (memory : Memory Hole) (holeList : Option ℤ)
    (blocks : List Block) : Prop where
  head : holeList = first blocks none
  linked : Linked holeSize Hole.mk memory blocks
  nonzero : ∀ block ∈ blocks, block.2 ≠ 0
  settled : Settled isFree blocks

variable {holeSize : ℤ} {memory : Memory Hole}

theorem isFree_iff {block : Block} : isFree block = true ↔ 0 < block.2 := decide_eq_true_iff

theorem joins (positive : 0 < holeSize) : Joins isFree (joined holeSize) :=
  joins_joined fun x y left right => by
    rw [isFree_iff] at left right ⊢
    show 0 < x.2 + holeSize + y.2
    omega

/-- Joining free blocks keeps what the list accounts for. -/
theorem total_joined (positive : 0 < holeSize) (blocks : List Block) :
    total holeSize (coalesce isFree (joined holeSize) blocks) = total holeSize blocks :=
  total_coalesce positive (fun _ free => (isFree_iff.mp free).le) blocks

/-! ### Sums of `int` -/

section Somas

variable {x y : ℤ} (positive : 0 < holeSize) (left : 0 < x) (right : 0 < y)
  (fits : x + holeSize + y ≤ 2 ^ 31 - 1)

include positive left right fits

theorem somaNext_eq : somaNext holeSize x y = x + holeSize + y := by
  have first : int (x + holeSize) = x + holeSize := int_eq (by omega) (by omega)
  rw [somaNext, first, int_eq (by omega) fits]

theorem somaPrev_eq : somaPrev holeSize x y = x + holeSize + y := by
  have first : int (x + y) = x + y := int_eq (by omega) (by omega)
  rw [somaPrev, first, int_eq (by omega) (by omega)]
  omega

end Somas

/-! ### One call -/

/-- Joining two neighbours takes the second one out of the list. -/
theorem absorb_linked (positive : 0 < holeSize) (soma : ℤ → ℤ → ℤ) {l r : List Block} {a b v w : ℤ}
    (linked : Linked holeSize Hole.mk memory (l ++ (a, v) :: (b, w) :: r)) :
    ∃ memory', absorb holeSize memory a b soma = some memory' ∧
      Linked holeSize Hole.mk memory' (l ++ (a, soma v w) :: r) := by
  have here : memory a = some ⟨v, some b, last none l⟩ := linked.load
  have gone : memory b = some ⟨w, first r none, some a⟩ := linked.loadNext
  refine ⟨_, ?_, linked.unlink positive (soma v w)⟩
  simp only [absorb, gone, modify_eq here, modify_eq store_self, store_store,
    Option.bind_eq_bind, Option.bind_some]
  cases r with
  | nil => rfl
  | cons block rest =>
    have apart : Apart holeSize a block.1 :=
      (spread_split linked.spread).2 block (by simp)
    have behind : memory block.1 = some ⟨block.2, first rest none, some b⟩ :=
      (chain_append.mp linked.chain).2.2.2.1
    simp only [first, modify_eq ((store_apart positive apart).trans behind), adopt]

/-- Two free neighbours of a list that an `int` can account for. -/
theorem joined_fits (positive : 0 < holeSize) {a t b w : ℤ} {r : List Block} (left : 0 < t)
    (right : 0 < w) (fits : total holeSize ((a, t) :: (b, w) :: r) ≤ 2 ^ 31 - 1) :
    t + holeSize + w ≤ 2 ^ 31 - 1 := by
  have rest := total_nonneg positive r
  rw [total_cons, total_cons, abs_of_pos left, abs_of_pos right] at fits
  omega

/-- The joining with the block behind is a push. -/
theorem joinNext_linked (positive : 0 < holeSize) {l r : List Block} {a t : ℤ} (freed : 0 < t)
    (fits : total holeSize ((a, t) :: r) ≤ 2 ^ 31 - 1)
    (linked : Linked holeSize Hole.mk memory (l ++ (a, t) :: r)) :
    ∃ memory', joinNext holeSize memory a (first r none) = some memory' ∧
      Linked holeSize Hole.mk memory' (l ++ push isFree (joined holeSize) (a, t) r) := by
  cases r with
  | nil => exact ⟨memory, rfl, linked⟩
  | cons block rest =>
    have behind : memory block.1 = some ⟨block.2, first rest none, some a⟩ := linked.loadNext
    simp only [joinNext, first, behind, Option.bind_eq_bind, Option.bind_some]
    by_cases free : 0 < block.2
    · rw [if_pos free, push_of_free (isFree_iff.mpr freed) (isFree_iff.mpr free), joined,
        ← somaNext_eq positive freed free (joined_fits positive freed free fits)]
      exact absorb_linked positive _ linked
    · rw [if_neg free, push_of_not (by simpa [isFree] using fun _ => free)]
      exact ⟨memory, rfl, linked⟩

/-- The joining with the block before is a push of that block. -/
theorem joinPrev_linked (positive : 0 < holeSize) {l r : List Block} {p v a t : ℤ} (freed : 0 < t)
    (fits : total holeSize ((p, v) :: (a, t) :: r) ≤ 2 ^ 31 - 1)
    (linked : Linked holeSize Hole.mk memory (l ++ (p, v) :: (a, t) :: r)) :
    ∃ memory', joinPrev holeSize memory a (some p) = some memory' ∧
      Linked holeSize Hole.mk memory'
        (l ++ push isFree (joined holeSize) (p, v) ((a, t) :: r)) := by
  have before : memory p = some ⟨v, some a, last none l⟩ := linked.load
  simp only [joinPrev, before, Option.bind_eq_bind, Option.bind_some]
  by_cases free : 0 < v
  · rw [if_pos free, push_of_free (isFree_iff.mpr free) (isFree_iff.mpr freed), joined,
      ← somaPrev_eq positive free freed (joined_fits positive free freed fits)]
    exact absorb_linked positive _ linked
  · rw [if_neg free, push_of_not (by simp [isFree, free])]
    exact ⟨memory, rfl, linked⟩

/-- A push of a free block leaves a free block with its address in front. -/
theorem push_free (positive : 0 < holeSize) (a : ℤ) {t : ℤ} (freed : 0 < t) (r : List Block) :
    ∃ t' r', push isFree (joined holeSize) (a, t) r = (a, t') :: r' ∧ 0 < t' := by
  cases r with
  | nil => exact ⟨t, [], rfl, freed⟩
  | cons block rest =>
    by_cases free : 0 < block.2
    · rw [push_of_free (isFree_iff.mpr freed) (isFree_iff.mpr free)]
      exact ⟨t + holeSize + block.2, rest, rfl, by omega⟩
    · rw [push_of_not (by simpa [isFree] using fun _ => free)]
      exact ⟨t, block :: rest, rfl, freed⟩

/-- A block marked free accounts for what it did. -/
theorem total_neg (l r : List Block) (a t : ℤ) :
    total holeSize (l ++ (a, -t) :: r) = total holeSize (l ++ (a, t) :: r) := by
  rw [total_append, total_append, total_cons, total_cons, abs_neg]

/-- **`meu_desaloca` is a coalescing.** -/
theorem meuDesaloca_linked (positive : 0 < holeSize) {l r : List Block} {a t : ℤ} (taken : t < 0)
    (linked : Linked holeSize Hole.mk memory (l ++ (a, t) :: r))
    (settled : Settled isFree (l ++ (a, t) :: r))
    (fits : total holeSize (l ++ (a, t) :: r) ≤ 2 ^ 31 - 1) :
    ∃ memory', meuDesaloca holeSize memory (a + holeSize) = some memory' ∧
      Linked holeSize Hole.mk memory'
        (coalesce isFree (joined holeSize) (l ++ (a, -t) :: r)) := by
  obtain ⟨settledLeft, settledRight, -⟩ := List.isChain_append.mp settled
  have freed : 0 < -t := by omega
  have here : memory a = some ⟨t, first r none, last none l⟩ := linked.load
  rw [← total_neg, total_append] at fits
  have before := total_nonneg positive l
  have fitsBehind : total holeSize ((a, -t) :: r) ≤ 2 ^ 31 - 1 := by omega
  obtain ⟨memory₁, next, linked₁⟩ := joinNext_linked positive freed fitsBehind
    (linked.set positive (-t))
  obtain ⟨t', r', front, free'⟩ := push_free positive a freed r
  have behind : coalesce isFree (joined holeSize) ((a, -t) :: r) = (a, t') :: r' := by
    have rest : Settled isFree r := settledRight.tail
    rw [coalesce, coalesce_of_settled rest, front]
  have negated : int ((-1) * t) = -t := by
    have behind := total_nonneg positive r
    rw [total_cons, abs_of_pos freed] at fitsBehind
    rw [int_eq (by omega) (by omega)]
    omega
  rw [front] at linked₁
  simp only [meuDesaloca, Int.add_sub_cancel, here, modify_eq here, negated, next,
    Option.bind_eq_bind, Option.bind_some]
  rcases List.eq_nil_or_concat l with rfl | ⟨l', ⟨p, v⟩, rfl⟩
  · rw [List.nil_append, behind]
    exact ⟨memory₁, rfl, linked₁⟩
  · rw [List.concat_eq_append] at settledLeft linked₁ ⊢
    rw [List.append_assoc, List.singleton_append] at linked₁ ⊢
    rw [coalesce_concat_append (joins positive) settledLeft, behind, last_append]
    refine joinPrev_linked positive free' ?_ linked₁
    -- joining with the block behind has kept what the rest of the list accounts for
    have kept := total_joined positive ((a, -t) :: r)
    have start := total_nonneg positive l'
    rw [behind] at kept
    rw [List.concat_eq_append, total_append, total_cons] at fits
    have empty : total holeSize ([] : List Block) = 0 := rfl
    rw [total_cons, kept]
    dsimp only at fits ⊢
    omega

/-! ### A run of calls -/

/-- The blocks with those at the addresses in `S` marked free. -/
def liberados (S : Finset ℤ) (blocks : List Block) : List Block :=
  blocks.map fun block => if block.1 ∈ S then (block.1, -block.2) else block

/-- What the blocks are coalesced into once those in `S` are free. -/
def resultado (holeSize : ℤ) (S : Finset ℤ) (blocks : List Block) : List Block :=
  coalesce isFree (joined holeSize) (liberados S blocks)

theorem liberados_append (S : Finset ℤ) (l r : List Block) :
    liberados S (l ++ r) = liberados S l ++ liberados S r :=
  List.map_append

theorem total_liberados (S : Finset ℤ) (blocks : List Block) :
    total holeSize (liberados S blocks) = total holeSize blocks := by
  rw [total, liberados, List.map_map]
  refine congrArg List.sum (List.map_congr_left fun block _ => ?_)
  simp only [Function.comp_apply]
  split <;> simp

theorem total_resultado (positive : 0 < holeSize) (S : Finset ℤ) (blocks : List Block) :
    total holeSize (resultado holeSize S blocks) = total holeSize blocks := by
  rw [resultado, total_joined positive, total_liberados]

/-- Marking one more block. -/
theorem liberados_insert {S : Finset ℤ} {l r : List Block} {a t : ℤ}
    (others : ∀ other ∈ l ++ r, other.1 ≠ a) :
    liberados (insert a S) (l ++ (a, t) :: r) = liberados S l ++ (a, -t) :: liberados S r := by
  have same : ∀ part : List Block, (∀ other ∈ part, other.1 ≠ a) →
      liberados (insert a S) part = liberados S part := by
    intro part different
    refine List.map_congr_left fun other member => ?_
    simp [different other member]
  rw [liberados_append, same l fun other member => others other (by simp [member]),
    ← same r fun other member => others other (by simp [member])]
  simp [liberados]

/-- **A run of `meu_desaloca`**, from a list in which those in `S` are already free. -/
theorem desaloca_run (positive : 0 < holeSize) {blocks : List Block}
    (spread : Spread holeSize blocks) (fits : total holeSize blocks ≤ 2 ^ 31 - 1) (order : List ℤ)
    {S : Finset ℤ} {memory : Memory Hole}
    (linked : Linked holeSize Hole.mk memory (resultado holeSize S blocks))
    (distinct : order.Nodup)
    (taken : ∀ a ∈ order, a ∉ S ∧ ∃ t, t < 0 ∧ (a, t) ∈ blocks) :
    ∃ memory', execute (meuDesaloca holeSize) memory (order.map (· + holeSize)) = some memory' ∧
      Linked holeSize Hole.mk memory' (resultado holeSize (S ∪ order.toFinset) blocks) := by
  induction order generalizing S memory with
  | nil =>
    refine ⟨memory, rfl, ?_⟩
    rwa [List.toFinset_nil, Finset.union_empty]
  | cons a order ih =>
    obtain ⟨fresh, distinct⟩ := List.nodup_cons.mp distinct
    obtain ⟨new, t, negative, member⟩ := taken a List.mem_cons_self
    obtain ⟨l, r, rfl⟩ := List.append_of_mem member
    have others : ∀ other ∈ l ++ r, other.1 ≠ a := address_ne positive spread
    have here : resultado holeSize S (l ++ (a, t) :: r) =
        coalesce isFree (joined holeSize) (liberados S l) ++
          (a, t) :: coalesce isFree (joined holeSize) (liberados S r) := by
      have notFree : isFree (a, t) = false := by simp [isFree, negative.le]
      have still : liberados S ((a, t) :: r) = (a, t) :: liberados S r := by simp [liberados, new]
      rw [resultado, liberados_append, still, coalesce_barrier notFree]
    have settled : Settled isFree (resultado holeSize S (l ++ (a, t) :: r)) := settled_coalesce _
    have room : total holeSize (resultado holeSize S (l ++ (a, t) :: r)) ≤ 2 ^ 31 - 1 := by
      rw [total_resultado positive]
      exact fits
    rw [here] at linked settled room
    obtain ⟨middle, call, linked⟩ := meuDesaloca_linked positive negative linked settled room
    have regroup : ∀ x y : List Block, x ++ (a, -t) :: y = (x ++ [(a, -t)]) ++ y := by simp
    rw [coalesce_coalesce_append (joins positive), regroup, coalesce_append_coalesce,
      ← regroup, ← liberados_insert others] at linked
    have later : ∀ b ∈ order, b ∉ insert a S ∧ ∃ t', t' < 0 ∧ (b, t') ∈ l ++ (a, t) :: r := by
      intro b there
      obtain ⟨notYet, found⟩ := taken b (List.mem_cons_of_mem a there)
      refine ⟨fun already => ?_, found⟩
      rcases Finset.mem_insert.mp already with rfl | already
      · exact fresh there
      · exact notYet already
    obtain ⟨memory', rest, linked⟩ := ih linked distinct later
    refine ⟨memory', ?_, ?_⟩
    · rw [List.map_cons, execute, call, Option.bind_some, rest]
    · rwa [List.toFinset_cons, Finset.union_insert, ← Finset.insert_union]

/-! ### The list after a run -/

theorem first_liberados (S : Finset ℤ) (blocks : List Block) :
    first (liberados S blocks) none = first blocks none := by
  cases blocks with
  | nil => rfl
  | cons block rest =>
    simp only [liberados, List.map_cons, first]
    split <;> rfl

theorem liberados_nonzero {S : Finset ℤ} {blocks : List Block}
    (nonzero : ∀ block ∈ blocks, block.2 ≠ 0) : ∀ block ∈ liberados S blocks, block.2 ≠ 0 := by
  intro block member
  obtain ⟨old, there, rfl⟩ := List.mem_map.mp member
  have := nonzero old there
  split
  · show -old.2 ≠ 0
    omega
  · exact this

/-- The blocks still allocated are those outside the set freed. -/
theorem filter_liberados {S : Finset ℤ} {blocks : List Block}
    (nonzero : ∀ block ∈ blocks, block.2 ≠ 0)
    (taken : ∀ block ∈ blocks, block.1 ∈ S → block.2 < 0) :
    (liberados S blocks).filter (fun block => !isFree block) =
      blocks.filter fun block => block.2 < 0 ∧ block.1 ∉ S := by
  induction blocks with
  | nil => rfl
  | cons block rest ih =>
    obtain ⟨nonzeroHere, nonzero⟩ := List.forall_mem_cons.mp nonzero
    obtain ⟨takenHere, taken⟩ := List.forall_mem_cons.mp taken
    have behind := ih nonzero taken
    unfold liberados at behind ⊢
    rw [List.map_cons, List.filter_cons, List.filter_cons, behind]
    by_cases inside : block.1 ∈ S
    · simp [inside, isFree, takenHere inside]
    · have sign : (!isFree block) = decide (block.2 < 0) := by
        simp only [isFree, ← decide_not, decide_eq_decide]
        omega
      simp [inside, sign]

/-- **Any order of freeing gives the same list**, if an `int` can hold what the blocks account for: a
well-formed one, in which the other allocated blocks are unchanged and in order, the sum of
`|tam| + hole_size` is kept, and everything freed is a single free block. -/
theorem desaloca_any_order (positive : 0 < holeSize) {holeList : Option ℤ} {blocks : List Block}
    (wellFormed : WellFormed holeSize memory holeList blocks)
    (fits : total holeSize blocks ≤ 2 ^ 31 - 1) (S : Finset ℤ)
    (taken : ∀ a ∈ S, ∃ t, t < 0 ∧ (a, t) ∈ blocks) :
    ∃ result : List Block,
      (∀ order : List ℤ, order.Nodup → order.toFinset = S →
        ∃ memory', execute (meuDesaloca holeSize) memory (order.map (· + holeSize)) =
            some memory' ∧
          WellFormed holeSize memory' holeList result ∧
          ∀ fuel, result.length < fuel →
            imprime memory' holeList fuel = some (nodes Hole.mk none result)) ∧
      (result.filter fun block => block.2 < 0) =
        (blocks.filter fun block => block.2 < 0 ∧ block.1 ∉ S) ∧
      total holeSize result = total holeSize blocks ∧
      ((∀ block ∈ blocks, block.2 < 0 → block.1 ∈ S) → blocks ≠ [] →
        ∃ block, result = [block] ∧ 0 < block.2) := by
  obtain ⟨head, linked, nonzero, settled⟩ := wellFormed
  have takenBlock : ∀ block ∈ blocks, block.1 ∈ S → block.2 < 0 := by
    intro block member inside
    obtain ⟨t, negative, there⟩ := taken block.1 inside
    rw [block_unique positive linked.spread there member rfl]
    exact negative
  have headAfter : holeList = first (resultado holeSize S blocks) none := by
    rw [resultado, first_coalesce, first_liberados]
    exact head
  have nonzeroAfter : ∀ block ∈ resultado holeSize S blocks, block.2 ≠ 0 := by
    refine forall_coalesce (fun x y left right _ _ => ?_) (liberados_nonzero nonzero)
    rw [isFree_iff] at left right
    show x.2 + holeSize + y.2 ≠ 0
    omega
  have start : resultado holeSize ∅ blocks = blocks := by
    have same : liberados ∅ blocks = blocks := by simp [liberados]
    rw [resultado, same, coalesce_of_settled settled]
  refine ⟨resultado holeSize S blocks, fun order distinct covers => ?_, ?_,
    total_resultado positive S blocks, fun all some => ?_⟩
  · have takenOrder : ∀ a ∈ order, a ∉ (∅ : Finset ℤ) ∧ ∃ t, t < 0 ∧ (a, t) ∈ blocks :=
      fun a member => ⟨Finset.notMem_empty a, taken a (by simpa [← covers] using member)⟩
    rw [← start] at linked
    obtain ⟨memory', run, linkedAfter⟩ := desaloca_run positive
      (by rw [← start]; exact linked.spread) fits order linked distinct takenOrder
    rw [Finset.empty_union, covers] at linkedAfter
    refine ⟨memory', run, ⟨headAfter, linkedAfter, nonzeroAfter, settled_coalesce _⟩,
      fun fuel enough => ?_⟩
    rw [headAfter]
    exact walk_of_chain (fun _ _ _ => rfl) linkedAfter.chain enough
  · rw [← filter_liberados nonzero takenBlock, ← filter_coalesce (joins positive)]
    refine List.filter_congr fun block member => ?_
    have := nonzeroAfter block member
    simp only [isFree, ← decide_not, decide_eq_decide]
    omega
  · have nonempty : liberados S blocks ≠ [] := by simpa [liberados] using some
    have allFree : ∀ block ∈ liberados S blocks, isFree block = true := by
      intro block member
      obtain ⟨old, there, rfl⟩ := List.mem_map.mp member
      by_cases inside : old.1 ∈ S
      · simp [inside, isFree, takenBlock old there inside]
      · have : ¬ old.2 < 0 := fun negative => inside (all old there negative)
        have := nonzero old there
        simp only [inside, if_false, isFree, decide_eq_true_eq]
        omega
    obtain ⟨block, same, free⟩ := coalesce_all_free (joins positive) nonempty allFree
    exact ⟨block, same, isFree_iff.mp free⟩

/-- Three allocated blocks around a free one. -/
def fourBlocks : List Block := [(0, -12), (36, -5), (65, 30), (119, -8)]

theorem fourBlocks_wellFormed :
    WellFormed 24 (fun y => (nodes Hole.mk none fourBlocks).lookup y) (some 0) fourBlocks where
  head := rfl
  linked := ⟨⟨rfl, rfl, rfl, rfl, trivial⟩, by simp [Spread, Apart, fourBlocks]⟩
  nonzero := by simp [fourBlocks]
  settled := by simp [Settled, isFree, fourBlocks]

/-- The three freed in any order leave one free block. -/
theorem desaloca_any_order_four : ∃ block : Block, 0 < block.2 ∧ ∀ order : List ℤ,
    order.Nodup → order.toFinset = {0, 36, 119} → ∃ memory',
      execute (meuDesaloca 24) (fun y => (nodes Hole.mk none fourBlocks).lookup y)
        (order.map (· + 24)) = some memory' ∧ WellFormed 24 memory' (some 0) [block] := by
  obtain ⟨result, runs, -, -, single⟩ := desaloca_any_order (by decide) fourBlocks_wellFormed
    (by decide) {0, 36, 119} (by simp [fourBlocks])
  obtain ⟨block, rfl, free⟩ := single (by simp [fourBlocks]) (by simp [fourBlocks])
  refine ⟨block, free, fun order distinct covers => ?_⟩
  obtain ⟨memory', run, wellFormed, -⟩ := runs order distinct covers
  exact ⟨memory', run, wellFormed⟩

/-- Three allocated blocks, the first as large as an `int` can say. -/
def largeBlocks : List Block := [(0, -2147483647), (2147483671, -10), (2147483705, -7)]

/-- **Without the bound the order matters**: freed from the first to the last, the sum of the first
two is negative and the third stays by itself; freed from the last to the first, one block is left,
and it is marked used. -/
theorem order_matters :
    WellFormed 24 (fun y => (nodes Hole.mk none largeBlocks).lookup y) (some 0) largeBlocks ∧
    (∃ memory', execute (meuDesaloca 24) (fun y => (nodes Hole.mk none largeBlocks).lookup y)
        [24, 2147483695, 2147483729] = some memory' ∧
      imprime memory' (some 0) 4 =
        some [(0, ⟨-2147483615, some 2147483705, none⟩), (2147483705, ⟨7, none, some 0⟩)]) ∧
    ∃ memory', execute (meuDesaloca 24) (fun y => (nodes Hole.mk none largeBlocks).lookup y)
        [2147483729, 2147483695, 24] = some memory' ∧
      imprime memory' (some 0) 4 = some [(0, ⟨-2147483584, none, none⟩)] := by
  refine ⟨⟨rfl, ⟨⟨rfl, rfl, rfl, trivial⟩, by simp [Spread, Apart, largeBlocks]⟩,
    by simp [largeBlocks], by simp [Settled, isFree, largeBlocks]⟩, ⟨_, rfl, ?_⟩, ⟨_, rfl, ?_⟩⟩ <;>
    decide +kernel

end Unity
