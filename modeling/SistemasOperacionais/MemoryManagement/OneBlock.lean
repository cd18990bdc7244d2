/-
**`memory_management.cpp`: one request, one block.**

* `OneBlock` — a call that returns NULL and leaves the list, or turns one free block into a used one
  with at most one free remainder behind it, and keeps the sum of `|size|` and a header over the blocks.
  A request that no block can hold is refused.
* `not_one_block` — `first_fit` takes every block that is large enough, and a small one for a request
  whose `_size` is negative; `next_fit` follows a NULL pointer when a block before `_next` is large
  enough; `best_fit` and `worst_fit` read the block chosen when there is none, and count no header for
  the block they split off.
* `FirstOk`, `NextOk`, `BestOk`, `WorstOk` — the condition for each function, on the list, `_next` and
  the request.
* `firstFit_iff`, `nextFit_iff` — **`first_fit` and `next_fit` take one block exactly under their
  condition**, if the size of the request and a header add up to an `int`.
-/

import SistemasOperacionais.MemoryManagement.Frames
import SistemasOperacionais.Data.Coalesce

namespace MemoryManagement

open Headers Coalesce Select Wrap

/-- **One request, one block.** The sum of `|size| + sizeof(struct memory)` is `total`. -/
structure OneBlock (h size : ℤ) (s : State) (blocks : List Block)
    (call : Option (Option ℤ × State)) : Prop where
  served : call = some (none, s) ∨
    ∃ l a t r used rest address after, blocks = l ++ (a, t) :: r ∧ 0 < t ∧ size ≤ t ∧
      call = some (some address, after) ∧ used ≤ -size ∧ (∀ block ∈ rest, (0 : ℤ) < block.2) ∧
      Blocks h after (l ++ (a, used) :: (Option.toList rest ++ r)) ∧
      total h (l ++ (a, used) :: (Option.toList rest ++ r)) = total h blocks
  refused : (∀ block ∈ blocks, block.2 < size) → call = some (none, s)

variable {h size : ℤ} {place : ℤ → ℤ → ℤ} {s : State} {nodes : Memory Node}
  {blocks l r : List Block} {a t : ℤ} {fuel : ℕ} {address : Option ℤ} {after : State}

/-- Of two blocks one is left. -/
theorem OneBlock.leaves (list : Blocks h s blocks)
    (one : OneBlock h size s blocks (some (address, after))) {x y : Block} (inX : x ∈ blocks)
    (inY : y ∈ blocks) (different : x ≠ y) :
    (∃ next, after.nodes x.1 = some ⟨next, x.2⟩) ∨ ∃ next, after.nodes y.1 = some ⟨next, y.2⟩ := by
  rcases one.served with refused | ⟨l, a, t, r, used, rest, _, _, rfl, _, _, call, _, _, now, _⟩
  · cases refused
    obtain ⟨next, load, _⟩ := load_of_linked list.linked inX
    exact .inl ⟨next, load⟩
  · cases call
    have stays : ∀ block ∈ l ++ (a, t) :: r, block ≠ (a, t) →
        ∃ next, after.nodes block.1 = some ⟨next, block.2⟩ := by
      intro block member other
      have kept : block ∈ l ++ (a, used) :: (rest.toList ++ r) := by
        simp only [List.mem_append, List.mem_cons] at member ⊢
        tauto
      obtain ⟨next, load, _⟩ := load_of_linked now.linked kept
      exact ⟨next, load⟩
    by_cases here : x = (a, t)
    · exact .inr (stays y inY fun same => different (here.trans same.symm))
    · exact .inl (stays x inX here)

/-- The block is used. -/
def Used (nodes : Memory Node) (b : Block) : Prop := ∃ node, nodes b.1 = some node ∧ node.size < 0

/-- A call that leaves two free blocks used takes more than one. -/
theorem not_oneBlock_of_two (list : Blocks h s blocks) {x y : Block} (inX : x ∈ blocks)
    (inY : y ∈ blocks) (different : x ≠ y) (freeX : 0 < x.2) (freeY : 0 < y.2)
    (usedX : Used after.nodes x) (usedY : Used after.nodes y) :
    ¬ OneBlock h size s blocks (some (address, after)) := by
  intro one
  obtain ⟨nodeX, loadX, usedX⟩ := usedX
  obtain ⟨nodeY, loadY, usedY⟩ := usedY
  rcases one.leaves list inX inY different with ⟨next, load⟩ | ⟨next, load⟩
  · rw [loadX] at load
    cases load
    exact absurd usedX (not_lt.mpr freeX.le)
  · rw [loadY] at load
    cases load
    exact absurd usedY (not_lt.mpr freeY.le)

/-! ### Requests that touch more than one block, or none -/

/-- Two blocks of the sizes given. -/
def twoBlocks (first second : ℤ) (next : Option ℤ) : State where
  nodes a := if a = 0 then some ⟨some 2000, first⟩ else if a = 2000 then some ⟨none, second⟩ else none
  memory := some 0
  next := next

theorem blocks_twoBlocks (first second : ℤ) (next : Option ℤ) :
    Blocks 16 (twoBlocks first second next) [(0, first), (2000, second)] := by
  refine ⟨rfl, ⟨rfl, rfl, trivial⟩, ?_⟩
  refine List.pairwise_cons.mpr ⟨fun block member => ?_, List.pairwise_singleton _ _⟩
  rw [List.mem_singleton.mp member]
  exact .inl (show (0 : ℤ) + 16 ≤ 2000 by decide)

/-- **More than one block is taken, or a NULL pointer followed**: a request of 10 bytes with two
blocks of 100 bytes in `first_fit`, and with one of them before `_next` in `next_fit`; in `best_fit` and
`worst_fit` with blocks of 8 and 5 bytes, and with blocks of 100 bytes, where the sum grows. A request
of `2 ^ 31 - 1` bytes is not refused by `first_fit`. -/
theorem not_one_block :
    (∀ first second next,
      Blocks 16 (twoBlocks first second next) [(0, first), (2000, second)]) ∧
    ¬ OneBlock 16 10 (twoBlocks 100 100 none) [(0, 100), (2000, 100)]
      (firstFit 16 (placeBytes 16) (twoBlocks 100 100 none) 3 10) ∧
    ¬ OneBlock 16 2147483647 (twoBlocks 8 5 none) [(0, 8), (2000, 5)]
      (firstFit 16 (placeBytes 16) (twoBlocks 8 5 none) 3 2147483647) ∧
    (∀ fuel, nextFit 16 (placeBytes 16) (twoBlocks 100 8 (some 2000)) fuel 10 = none) ∧
    (∀ fuel, bestFit 16 (placeBytes 16) (twoBlocks 8 5 none) fuel 10 = none ∧
      worstFit 16 (placeBytes 16) (twoBlocks 8 5 none) fuel 10 = none) ∧
    ∃ after, bestFit 16 (placeBytes 16) (twoBlocks 100 100 none) 3 10 = some (some 256, after) ∧
      worstFit 16 (placeBytes 16) (twoBlocks 100 100 none) 3 10 = some (some 256, after) ∧
      Blocks 16 after [(0, -10), (416, 90), (2000, 100)] ∧
      total 16 [(0, -10), (416, 90), (2000, 100)] ≠ total 16 [(0, 100), (2000, 100)] := by
  refine ⟨blocks_twoBlocks, fun one => ?_, fun one => ?_, fun fuel => ?_, fun fuel => ?_, _, rfl,
    rfl, ?_, by decide⟩
  · obtain ⟨after, call, first, second⟩ : ∃ after,
        firstFit 16 (placeBytes 16) (twoBlocks 100 100 none) 3 10 = some (some 2256, after) ∧
          after.nodes 0 = some ⟨some 416, -10⟩ ∧ after.nodes 2000 = some ⟨some 2416, -10⟩ :=
      ⟨_, rfl, by decide +kernel, by decide +kernel⟩
    rw [call] at one
    have inFirst : ((0 : ℤ), (100 : ℤ)) ∈ [((0 : ℤ), (100 : ℤ)), (2000, 100)] := by decide
    have inSecond : ((2000 : ℤ), (100 : ℤ)) ∈ [((0 : ℤ), (100 : ℤ)), (2000, 100)] := by decide
    exact not_oneBlock_of_two (blocks_twoBlocks 100 100 none) inFirst inSecond (by decide) (by decide)
      (by decide) ⟨_, first, by decide⟩ ⟨_, second, by decide⟩ one
  · obtain ⟨address, after, call⟩ : ∃ address after,
        firstFit 16 (placeBytes 16) (twoBlocks 8 5 none) 3 2147483647 = some (some address, after) :=
      ⟨_, _, rfl⟩
    have refused := one.refused (by decide)
    rw [call] at refused
    cases refused
  · rcases fuel with _ | _ | _ | _ | fuel <;> rfl
  · rcases fuel with _ | _ | _ | fuel <;> exact ⟨rfl, rfl⟩
  · refine ⟨rfl, ⟨?_, ?_, ?_, trivial⟩, ?_⟩
    · decide +kernel
    · decide +kernel
    · decide +kernel
    · unfold Spread Apart
      decide

/-! ### The conditions -/

/-- The number of blocks larger than the request. -/
def larger (size : ℤ) (blocks : List Block) : ℕ := blocks.countP fun block => decide (size < block.2)

/-- The blocks before `_next`. -/
def before (next : Option ℤ) (blocks : List Block) : List Block :=
  if next = none then [] else blocks.takeWhile fun block => decide (some block.1 ≠ next)

/-- **`first_fit`**: at most one block is larger than the request, and none has just room for it and a
header; or the sum of the two is no `int`, and no block reaches `_size`. -/
def FirstOk (h size : ℤ) (blocks : List Block) : Prop :=
  size + h ≤ 2 ^ 31 - 1 ∧ larger size blocks ≤ 1 ∧ (∀ block ∈ blocks, block.2 ≠ size + h) ∨
    2 ^ 31 - 1 < size + h ∧ ∀ block ∈ blocks, block.2 < int (size + h)

/-- **`next_fit`**: besides, the block larger than the request is not before `_next`. -/
def NextOk (h size : ℤ) (next : Option ℤ) (blocks : List Block) : Prop :=
  size + h ≤ 2 ^ 31 - 1 ∧ (larger size blocks ≤ 1 ∧ ∀ block ∈ blocks, block.2 ≠ size + h) ∧
      (∀ block ∈ before next blocks, block.2 ≤ size) ∨
    2 ^ 31 - 1 < size + h ∧ ∀ block ∈ blocks, block.2 < int (size + h)

/-- **`best_fit`**: some block has just the size of the request. -/
def BestOk (size : ℤ) (blocks : List Block) : Prop := ∃ block ∈ blocks, block.2 = size

/-- **`worst_fit`**: besides, no block is larger. -/
def WorstOk (size : ℤ) (blocks : List Block) : Prop :=
  BestOk size blocks ∧ ∀ block ∈ blocks, block.2 ≤ size

/-- The first block that is wanted. -/
theorem first_wanted (h size : ℤ) (blocks : List Block) :
    (∀ block ∈ blocks, ¬ Wanted h size block.2) ∨ ∃ l a t r, blocks = l ++ (a, t) :: r ∧
      Wanted h size t ∧ ∀ block ∈ l, ¬ Wanted h size block.2 := by
  cases found : blocks.find? fun block => decide (Wanted h size block.2) with
  | none =>
    refine .inl fun block member wanted => ?_
    exact List.find?_eq_none.mp found block member (decide_eq_true wanted)
  | some block =>
    obtain ⟨wanted, l, r, rfl, small⟩ := List.find?_eq_some_iff_append.mp found
    refine .inr ⟨l, block.1, block.2, r, rfl, of_decide_eq_true wanted, fun other member => ?_⟩
    simpa using small other member

/-- A refusal. -/
theorem oneBlock_refused {call : Option (Option ℤ × State)} (refused : call = some (none, s)) :
    OneBlock h size s blocks call :=
  ⟨.inl refused, fun _ => refused⟩

theorem OneBlock.returns {call : Option (Option ℤ × State)} (one : OneBlock h size s blocks call) :
    ∃ address after, call = some (address, after) := by
  rcases one.served with refused | ⟨_, _, _, _, _, _, address, after, _, _, _, answered, _⟩
  · exact ⟨none, s, refused⟩
  · exact ⟨some address, after, answered⟩

/-- The calls of `next_fit` that return. -/
theorem nextFit_inv (run : nextFit h place s fuel size = some (address, after)) :
    ∃ p q, pass h place size (fun _ => none) fuel
        ⟨s.nodes, if s.next = none then s.memory else s.next, s.next, none⟩ = some p ∧
      pass h place size id fuel ⟨p.nodes, s.memory, p.next, p.address⟩ = some q ∧
      after.nodes = q.nodes := by
  obtain ⟨p, first, run⟩ := Option.bind_eq_some_iff.mp run
  obtain ⟨q, second, run⟩ := Option.bind_eq_some_iff.mp run
  cases run
  exact ⟨p, q, first, second, rfl⟩

/-- The blocks before `_next`, and those from there on. -/
theorem next_split (positive : 0 < h) (list : Blocks h s blocks)
    (position : s.next = none ∨ ∃ block ∈ blocks, s.next = some block.1) :
    ∃ m n, blocks = m ++ n ∧ before s.next blocks = m ∧
      (if s.next = none then s.memory else s.next) = first n none ∧
      (m = [] ∧ s.next = none ∨ s.next = first n none ∧ n ≠ []) := by
  rcases position with none_ | ⟨⟨q, u⟩, member, here⟩
  · refine ⟨[], blocks, rfl, if_pos none_, ?_, .inl ⟨rfl, none_⟩⟩
    rw [if_pos none_]
    exact list.head
  · obtain ⟨m, n, rfl⟩ := List.append_of_mem member
    have notNull : s.next ≠ none := by
      rw [here]
      exact Option.some_ne_none q
    refine ⟨m, (q, u) :: n, rfl, ?_, ?_, .inr ⟨here, List.cons_ne_nil _ _⟩⟩
    · rw [before, if_neg notNull, here, List.takeWhile_append_of_pos, List.takeWhile_cons_of_neg,
        List.append_nil]
      · simp
      · intro block inside
        refine decide_eq_true fun same => ?_
        exact address_ne positive list.linked.spread block (List.mem_append_left _ inside)
          (Option.some.inj same)
    · rw [if_neg notNull, here]
      rfl

/-- No block before `_next` is at it. -/
theorem next_ne (positive : 0 < h) {m n : List Block} (spread : Spread h (m ++ n)) {next : Option ℤ}
    (there : next = first n none) (some_ : n ≠ []) : ∀ block ∈ m, next ≠ some block.1 := by
  intro block member same
  obtain ⟨q, rest, rfl⟩ := List.exists_cons_of_ne_nil some_
  rw [there] at same
  exact address_ne positive spread block (List.mem_append_left _ member) (Option.some.inj same).symm

/-- A call of `next_fit` that takes no block. -/
theorem nextFit_refused (positive : 0 < h) (list : Blocks h s blocks) (enough : blocks.length < fuel)
    (position : s.next = none ∨ ∃ block ∈ blocks, s.next = some block.1)
    (small : ∀ block ∈ blocks, ¬ Wanted h size block.2) :
    nextFit h place s fuel size = some (none, s) := by
  obtain ⟨m, n, rfl, _, start, next⟩ := next_split positive list position
  rw [List.length_append] at enough
  obtain ⟨_, tail⟩ := chain_append.mp list.linked.chain
  have one := pass_none place (fun _ => none) s.next none tail
    (fun block member => small block (List.mem_append_right _ member)) (fun _ _ => nofun)
    (show n.length < fuel by omega)
  have two : pass h place size id fuel ⟨s.nodes, s.memory, s.next, none⟩ =
      some ⟨s.nodes, s.next, s.next, none⟩ := by
    rw [list.head]
    rcases next with ⟨rfl, none_⟩ | ⟨there, _⟩
    · have all := pass_until place none positive n [] (by rw [List.append_nil]; exact list.linked)
        (fun block member => small block (List.mem_append_right _ member)) none_
        (show n.length < fuel by omega)
      rw [List.append_nil] at all
      exact all
    · exact pass_until place none positive m n list.linked
        (fun block member => small block (List.mem_append_left _ member)) there (by omega)
  rw [← start] at one
  simp only [nextFit, one, two, Option.bind_eq_bind, Option.bind_some]

variable (h place a t r) in
/-- The second pass of `next_fit` stops at the block taken, or at the rest split off. -/
theorem served_parts (asked : 0 < size) (range : size + h ≤ 2 ^ 31 - 1) (positive : 0 < h)
    (small : ∀ block ∈ l, ¬ Wanted h size block.2) :
    ∃ pre post, served h place size l a t r = pre ++ post ∧
      first post none = some (stand h place size a t) ∧ (∀ block ∈ pre, ¬ Wanted h size block.2) ∧
      pre.length ≤ l.length + 1 := by
  unfold served taken rest stand
  split
  · refine ⟨l ++ [(a, 0 - size)], (place a size, int (t - size - h)) :: r, by simp, rfl,
      fun block member => ?_, by simp⟩
    rcases List.mem_append.mp member with inLeft | last
    · exact small block inLeft
    · rw [List.mem_singleton.mp last]
      unfold Wanted
      rw [int_eq (by omega) range]
      dsimp only
      omega
  · exact ⟨l, _, rfl, rfl, small, Nat.le_succ _⟩

/-! ### A sum that is an `int` -/

section Exact

variable (positive : 0 < h) (asked : 0 < size) (range : size + h ≤ 2 ^ 31 - 1)

include positive asked range

theorem wanted_iff : Wanted h size t ↔ size < t := by
  unfold Wanted
  rw [int_eq (by omega) range]
  omega

theorem taken_le (wanted : Wanted h size t) : taken h size t ≤ -size := by
  rw [wanted_iff positive asked range] at wanted
  unfold taken
  split <;> omega

/-- A block taken keeps the sum: the header of the rest comes out of its bytes. -/
theorem total_served (wanted : Wanted h size t) (whole : t ≤ 2 ^ 31 - 1) :
    total h (served h place size l a t r) = total h (l ++ (a, t) :: r) := by
  rw [wanted_iff positive asked range] at wanted
  have free : |t| = t := abs_of_pos (by omega)
  unfold served taken rest
  rw [int_eq (by omega) range]
  split
  · rw [int_eq (by omega) (by omega), Option.toList_some, total_append, total_append, total_cons,
      List.cons_append, List.nil_append, total_cons, total_cons]
    dsimp only
    rw [free, Int.zero_sub, abs_neg, abs_of_pos asked, abs_of_nonneg (by omega)]
    omega
  · rw [Option.toList_none, List.nil_append, total_append, total_append, total_cons, total_cons]
    dsimp only
    rw [Int.mul_neg_one, abs_neg]

/-- **One block taken**: as it should be, unless the remainder has 0 bytes. -/
theorem oneBlock_served_iff {call : Option (Option ℤ × State)}
    (fresh : ∀ block ∈ l ++ (a, t) :: r, Apart h (place a size) block.1) (wanted : Wanted h size t)
    (whole : t ≤ 2 ^ 31 - 1) (answered : call = some (some (returned h a), after))
    (list : Blocks h after (served h place size l a t r)) :
    OneBlock h size s (l ++ (a, t) :: r) call ↔ t ≠ size + h := by
  have large := (wanted_iff positive asked range).mp wanted
  have restOf : rest h place size a t =
      if size + h ≤ t then some (place a size, t - size - h) else none := by
    unfold rest
    rw [int_eq (by omega) range, int_eq (by omega) (by omega)]
  constructor
  · rintro one rfl
    rcases one.served with refused | ⟨l', a', t', r', used, rest', _, _, parts, _, _, call, _, free,
      now, _⟩
    · rw [answered] at refused
      cases refused
    · rw [answered] at call
      cases call
      have same := blocks_unique list now
      -- the remainder is not one of the blocks that were there
      have new : ∀ v, (place a size, v) ∉ l ++ (a, size + h) :: r := by
        intro v member
        have apart := fresh _ member
        unfold Apart at apart
        dsimp only at apart
        omega
      have member : (place a size, (0 : ℤ)) ∈ served h place size l a (size + h) r := by
        unfold served
        rw [restOf, if_pos (Int.le_refl _), Int.sub_sub, Int.sub_self]
        simp
      rw [same] at member
      simp only [List.mem_append, List.mem_cons, Option.mem_toList] at member
      rcases member with inLeft | self | inRest | inRight
      · exact new 0 (parts ▸ List.mem_append_left _ inLeft)
      · refine new t' (parts ▸ List.mem_append_right _ ?_)
        rw [show place a size = a' from congrArg Prod.fst self]
        exact List.mem_cons_self
      · exact absurd (free _ inRest) (Int.lt_irrefl 0)
      · exact new 0 (parts ▸ List.mem_append_right _ (List.mem_cons_of_mem _ inRight))
  · intro notJust
    refine ⟨.inr ⟨l, a, t, r, taken h size t, rest h place size a t, _, after, rfl, by omega, large.le,
      answered, taken_le positive asked range wanted, fun block member => ?_, list,
      total_served positive asked range wanted whole⟩, fun small => ?_⟩
    · rw [restOf] at member
      split at member
      · rw [← Option.mem_some.mp member]
        dsimp only
        omega
      · cases member
    · have less := small (a, t) (by simp)
      dsimp only at less
      omega

/-- The number of larger blocks, at a block that is wanted. -/
theorem larger_split (wanted : Wanted h size t) :
    larger size (l ++ (a, t) :: r) = larger size l + larger size r + 1 := by
  rw [wanted_iff positive asked range] at wanted
  unfold larger
  rw [List.countP_append, List.countP_cons, if_pos (decide_eq_true wanted), Nat.add_assoc]

theorem larger_eq_zero (small : ∀ block ∈ blocks, ¬ Wanted h size block.2) :
    larger size blocks = 0 := by
  refine List.countP_eq_zero.mpr fun block member => ?_
  rw [decide_eq_true_eq, ← wanted_iff positive asked range]
  exact small block member

/-- A block with just room for the request and a header is wanted. -/
theorem ne_of_small (small : ∀ block ∈ blocks, ¬ Wanted h size block.2) :
    ∀ block ∈ blocks, block.2 ≠ size + h := by
  intro block member same
  refine small block member ?_
  rw [wanted_iff positive asked range]
  omega

/-- The condition when one block is wanted. -/
theorem ok_iff_of_one (wanted : Wanted h size t) (left : ∀ block ∈ l, ¬ Wanted h size block.2)
    (right : ∀ block ∈ r, ¬ Wanted h size block.2) :
    (larger size (l ++ (a, t) :: r) ≤ 1 ∧ ∀ block ∈ l ++ (a, t) :: r, block.2 ≠ size + h) ↔
      t ≠ size + h := by
  have one : larger size (l ++ (a, t) :: r) ≤ 1 := by
    rw [larger_split positive asked range wanted, larger_eq_zero positive asked range left,
      larger_eq_zero positive asked range right]
  rw [and_iff_right one]
  refine ⟨fun all => all (a, t) (by simp), fun here block member => ?_⟩
  rcases List.mem_append.mp member with inLeft | inRight
  · exact ne_of_small positive asked range left block inLeft
  · rcases List.mem_cons.mp inRight with rfl | inRight
    · exact here
    · exact ne_of_small positive asked range right block inRight

theorem taken_neg (wanted : Wanted h size t) : taken h size t < 0 := by
  have used := taken_le positive asked range wanted
  omega

section Used

variable {limit : Option ℤ → Option ℤ} {next : Option ℤ} {known : ℤ → Prop} {b : Block} {p : Pass}
  (spread : Spread h blocks) (novel : Novel h place size blocks) (member : b ∈ blocks)
  (closed : Closed place size blocks known nodes)

include spread novel member closed

/-- **A used block stays used**: it is not wanted. -/
theorem used_keeps {iterator : Option ℤ} (at_ : ∀ x ∈ iterator, known x) (used : Used nodes b)
    (run : pass h place size limit fuel ⟨nodes, iterator, next, address⟩ = some p) :
    Used p.nodes b := by
  refine (pass_keeps positive spread novel (fun node used wanted => ?_) member closed at_ used run).2
  rw [wanted_iff positive asked range] at wanted
  omega

/-- **A block that a pass comes to and wants is used from then on.** -/
theorem used_visits {prev behind : Option ℤ} (chain : Chain Node.linked nodes prev (l ++ b :: r) behind)
    (before : ∀ block ∈ l, ¬ Wanted h size block.2) (wanted : Wanted h size b.2)
    (inside : ∀ block ∈ l ++ [b], limit next ≠ some block.1) (enough : l.length < fuel)
    (run : pass h place size limit fuel ⟨nodes, first (l ++ b :: r) behind, next, address⟩ = some p) :
    Used p.nodes b := by
  refine (pass_visits (P := fun node => node.size < 0) positive spread novel
    (fun node used wanted => ?_) member closed chain before wanted inside enough
    (taken_neg positive asked range wanted) run).2
  rw [wanted_iff positive asked range] at wanted
  omega

end Used

/-- **A pass to the end of the list that finds two blocks** leaves both of them used. -/
theorem pass_two {m l' : List Block} {x y : Block} {next : Option ℤ} {p : Pass}
    (parts : blocks = m ++ (l ++ x :: (l' ++ y :: r))) (linked : Linked h Node.linked nodes blocks)
    (novel : Novel h place size blocks) (small : ∀ block ∈ l, ¬ Wanted h size block.2)
    (wantedX : Wanted h size x.2) (small' : ∀ block ∈ l', ¬ Wanted h size block.2)
    (wantedY : Wanted h size y.2) (enough : blocks.length < fuel)
    (run : pass h place size (fun _ => none) fuel
      ⟨nodes, first (l ++ x :: (l' ++ y :: r)) none, next, address⟩ = some p) :
    (∃ known, Closed place size blocks known p.nodes) ∧ Used p.nodes x ∧ Used p.nodes y := by
  have spread := linked.spread
  have inX : x ∈ blocks := by simp [parts]
  have inY : y ∈ blocks := by simp [parts]
  have fresh := (novel x.1 (made_of_mem inX)).1
  have lengths : l.length + l'.length + 2 ≤ blocks.length := by
    simp only [parts, List.length_append, List.length_cons]
    omega
  obtain ⟨took, now⟩ := pass_takes next address positive (parts ▸ linked) (parts ▸ fresh) wantedX
    small (show l.length < fuel by omega)
  rw [took] at run
  obtain ⟨_, _, tail⟩ := chain_append.mp now.chain
  obtain ⟨_, tail⟩ := chain_append.mp tail
  have closed := closed_served now
  rw [List.append_assoc, ← parts] at closed
  have part : ∀ block ∈ l' ++ y :: r, block ∈ blocks := by
    intro block member
    rw [parts]
    exact List.mem_append_right _ (List.mem_append_right _ (List.mem_cons_of_mem _ member))
  have used : Used (tried h place size nodes x.1 ⟨first (l' ++ y :: r) none, x.2⟩) x :=
    ⟨_, tried_self, taken_neg positive asked range wantedX⟩
  have at_ := closed.first part
  refine ⟨(pass_keeps (P := fun _ => True) positive spread novel (fun _ _ _ => trivial) inX closed at_
    ⟨_, tried_self, trivial⟩ run).1, used_keeps positive asked range spread novel inX closed at_ used
    run, used_visits positive asked range spread novel inY closed tail small' wantedY
    (fun _ _ => (Option.some_ne_none _).symm) (by omega) run⟩

/-- Two blocks that were wanted and are used. -/
theorem not_oneBlock_of_wanted {x y : Block} (list : Blocks h s (l ++ x :: r)) (other : y ∈ l ++ r)
    (wantedX : Wanted h size x.2) (wantedY : Wanted h size y.2)
    (usedX : Used after.nodes x) (usedY : Used after.nodes y) :
    ¬ OneBlock h size s (l ++ x :: r) (some (address, after)) := by
  rw [wanted_iff positive asked range] at wantedX wantedY
  have different : x ≠ y := fun same =>
    address_ne positive list.linked.spread y other (congrArg Prod.fst same).symm
  have inY : y ∈ l ++ x :: r := by
    simp only [List.mem_append, List.mem_cons] at other ⊢
    tauto
  exact not_oneBlock_of_two list (by simp) inY different (by omega) (by omega) usedX usedY

variable (list : Blocks h s blocks) (ints : ∀ block ∈ blocks, block.2 ≤ 2 ^ 31 - 1)
  (novel : Novel h place size blocks) (enough : blocks.length < fuel)

include list ints novel enough

/-- **`first_fit`**, if the sum is an `int`. -/
theorem firstFit_iff : OneBlock h size s blocks (firstFit h place s fuel size) ↔
    larger size blocks ≤ 1 ∧ ∀ block ∈ blocks, block.2 ≠ size + h := by
  rcases first_wanted h size blocks with small | ⟨l, a, t, r, rfl, wanted, before⟩
  · -- nothing is taken
    refine iff_of_true (oneBlock_refused ?_)
      ⟨(larger_eq_zero positive asked range small).trans_le (Nat.zero_le 1),
        ne_of_small positive asked range small⟩
    have whole := pass_none place (fun _ => none) none none list.linked.chain small
      (fun _ _ => nofun) enough
    rw [← list.head] at whole
    rw [firstFit, whole]
    rfl
  have member : (a, t) ∈ l ++ (a, t) :: r := by simp
  have fresh := (novel a (made_of_mem member)).1
  rcases first_wanted h size r with behind | ⟨l', a', t', r', rfl, wanted', between⟩
  · -- one block is taken
    obtain ⟨nodes', run, linked⟩ := pass_one none none (m := []) positive list.linked fresh wanted
      before behind enough
    rw [← list.head] at run
    have now : Blocks h { s with nodes := nodes' } (served h place size l a t r) :=
      ⟨list.head.trans (first_replace ..), linked⟩
    have call : firstFit h place s fuel size =
        some (some (returned h a), { s with nodes := nodes' }) := by
      rw [firstFit, run]
      rfl
    rw [ok_iff_of_one positive asked range wanted before behind]
    exact oneBlock_served_iff positive asked range fresh wanted (ints _ member) call now
  · -- two blocks are taken
    refine iff_of_false (fun one => ?_) fun ok => ?_
    · obtain ⟨address, after, call⟩ := one.returns
      obtain ⟨p, run, done⟩ := Option.bind_eq_some_iff.mp call
      cases done
      rw [list.head] at run
      obtain ⟨_, usedX, usedY⟩ := pass_two (m := []) (x := (a, t)) (y := (a', t')) positive asked range
        rfl list.linked novel before wanted between wanted' enough run
      rw [call] at one
      exact not_oneBlock_of_wanted positive asked range list (by simp) wanted wanted' usedX usedY one
    · have two := ok.1
      rw [larger_split positive asked range wanted, larger_split positive asked range wanted'] at two
      omega

omit ints asked range in
/-- A block before `_next` is taken by the second pass only. -/
theorem nextFit_overtakes {m n : List Block} (parts : blocks = m ++ n)
    (start : (if s.next = none then s.memory else s.next) = first n none)
    (there : s.next = first n none) (some_ : n ≠ []) (smallN : ∀ block ∈ n, ¬ Wanted h size block.2)
    (split : m = l ++ (a, t) :: r) (wanted : Wanted h size t)
    (small : ∀ block ∈ l, ¬ Wanted h size block.2) :
    nextFit h place s fuel size = none := by
  subst parts split
  simp only [List.length_append, List.length_cons] at enough
  have fresh : ∀ block ∈ l ++ (a, t) :: (r ++ n), ∀ other ∈ l ++ (a, t) :: (r ++ n),
      Apart h (place block.1 size) other.1 := by
    intro block member
    have same : (l ++ (a, t) :: r) ++ n = l ++ (a, t) :: (r ++ n) := by simp
    rw [same] at novel
    exact (novel block.1 (made_of_mem member)).1
  have linked : Linked h Node.linked s.nodes (l ++ (a, t) :: (r ++ n)) := by
    have whole := list.linked
    rwa [List.append_assoc] at whole
  have inside : ∀ block ∈ l ++ [(a, t)], s.next ≠ some block.1 := by
    intro block member
    refine next_ne positive list.linked.spread there some_ block ?_
    simp only [List.mem_append, List.mem_cons] at member ⊢
    tauto
  obtain ⟨_, tail⟩ := chain_append.mp list.linked.chain
  have one := pass_none place (fun _ => none) s.next none tail smallN (fun _ _ => nofun)
    (show n.length < fuel by omega)
  have two : pass h place size id fuel ⟨s.nodes, _, s.next, none⟩ = none :=
    pass_overtakes positive linked fresh wanted small inside (by omega)
  have head : s.memory = first (l ++ (a, t) :: (r ++ n)) none := by
    rw [list.head, List.append_assoc]
    rfl
  rw [← start] at one
  rw [← head] at two
  simp only [nextFit, one, two, Option.bind_eq_bind, Option.bind_some, Option.bind_none]

omit ints in
/-- Two blocks from `_next` on are taken by the first pass. -/
theorem nextFit_two {m l' : List Block} {a' t' : ℤ}
    (parts : blocks = m ++ (l ++ (a, t) :: (l' ++ (a', t') :: r)))
    (start : (if s.next = none then s.memory else s.next) =
      first (l ++ (a, t) :: (l' ++ (a', t') :: r)) none)
    (small : ∀ block ∈ l, ¬ Wanted h size block.2) (wanted : Wanted h size t)
    (small' : ∀ block ∈ l', ¬ Wanted h size block.2) (wanted' : Wanted h size t') :
    ¬ OneBlock h size s blocks (nextFit h place s fuel size) := by
  intro one
  obtain ⟨address, after, call⟩ := one.returns
  rw [call] at one
  obtain ⟨p, q, first_, second, same⟩ := nextFit_inv call
  rw [start] at first_
  obtain ⟨⟨known, closed⟩, usedX, usedY⟩ := pass_two (x := (a, t)) (y := (a', t')) positive asked range
    parts list.linked novel small wanted small' wanted' enough first_
  rw [list.head] at second
  have memberX : (a, t) ∈ blocks := by simp [parts]
  have memberY : (a', t') ∈ blocks := by simp [parts]
  have keptX := used_keeps positive asked range list.linked.spread novel memberX closed
    (closed.first fun _ => id) usedX second
  have keptY := used_keeps positive asked range list.linked.spread novel memberY closed
    (closed.first fun _ => id) usedY second
  subst parts
  rw [← List.append_assoc] at one list
  rw [← same] at keptX keptY
  exact not_oneBlock_of_wanted positive asked range list (by simp) wanted wanted' keptX keptY one

omit ints in
/-- One from `_next` on is taken by the first pass, and one before it by the second. -/
theorem nextFit_both {m l' r' : List Block} {a' t' : ℤ} (parts : blocks = m ++ (l ++ (a, t) :: r))
    (start : (if s.next = none then s.memory else s.next) = first (l ++ (a, t) :: r) none)
    (small : ∀ block ∈ l, ¬ Wanted h size block.2) (wanted : Wanted h size t)
    (behind : ∀ block ∈ r, ¬ Wanted h size block.2) (split : m = l' ++ (a', t') :: r')
    (small' : ∀ block ∈ l', ¬ Wanted h size block.2) (wanted' : Wanted h size t') :
    ¬ OneBlock h size s blocks (nextFit h place s fuel size) := by
  intro one
  obtain ⟨address, after, call⟩ := one.returns
  rw [call] at one
  obtain ⟨p, q, first_, second, same⟩ := nextFit_inv call
  have memberX : (a, t) ∈ blocks := by simp [parts]
  have memberY : (a', t') ∈ blocks := by simp [parts, split]
  have fresh := (novel a (made_of_mem memberX)).1
  have lengths : l'.length < fuel ∧ (l ++ (a, t) :: r).length < fuel := by
    simp only [parts, split, List.length_append, List.length_cons] at enough ⊢
    omega
  obtain ⟨nodes', run, now⟩ := pass_one s.next none positive (parts ▸ list.linked) (parts ▸ fresh)
    wanted small behind lengths.2
  rw [start, run] at first_
  cases first_
  have closed := closed_served now
  rw [List.append_assoc, ← parts] at closed
  have spread := list.linked.spread
  have used : Used nodes' (a, t) := by
    have inside : (a, taken h size t) ∈ served h place size (m ++ l) a t r := by simp [served]
    obtain ⟨_, load, _⟩ := load_of_linked now inside
    exact ⟨_, load, taken_neg positive asked range wanted⟩
  obtain ⟨tail, shape⟩ : ∃ tail, served h place size (m ++ l) a t r = l' ++ (a', t') :: tail :=
    ⟨r' ++ l ++ (a, taken h size t) :: ((rest h place size a t).toList ++ r), by simp [served, split]⟩
  have head : s.memory = first (l' ++ (a', t') :: tail) none := by
    rw [list.head, parts, split, List.append_assoc]
    exact first_replace ..
  have inside : ∀ block ∈ l' ++ [(a', t')], id (some (stand h place size a t)) ≠ some block.1 := by
    intro block member same
    rw [parts, ← List.append_assoc] at spread fresh
    refine stand_ne positive spread fresh block ?_ (Option.some.inj same)
    simp only [split, List.mem_append, List.mem_cons] at member ⊢
    tauto
  have chain := now.chain
  rw [shape] at chain
  rw [head] at second
  have keptX := used_keeps positive asked range list.linked.spread novel memberX closed
    (fun x start => closed.first (l := blocks) (fun _ => id) x (by rwa [← list.head, head])) used second
  have keptY := used_visits positive asked range list.linked.spread novel memberY closed chain small'
    wanted' inside lengths.1 second
  subst parts
  rw [← List.append_assoc] at one list
  rw [← same] at keptX keptY
  exact not_oneBlock_of_wanted positive asked range list (by simp [split]) wanted wanted' keptX keptY one

omit ints novel in
/-- One from `_next` on, and none before it: the second pass stops where the first one took it. -/
theorem nextFit_one {m : List Block} (parts : blocks = m ++ (l ++ (a, t) :: r))
    (fresh : ∀ block ∈ blocks, Apart h (place a size) block.1)
    (start : (if s.next = none then s.memory else s.next) = first (l ++ (a, t) :: r) none)
    (small : ∀ block ∈ m ++ l, ¬ Wanted h size block.2) (wanted : Wanted h size t)
    (behind : ∀ block ∈ r, ¬ Wanted h size block.2) :
    ∃ after, nextFit h place s fuel size = some (some (returned h a), after) ∧
      Blocks h after (served h place size (m ++ l) a t r) := by
  subst parts
  simp only [List.length_append, List.length_cons] at enough
  obtain ⟨nodes', one, linked⟩ := pass_one s.next none positive list.linked fresh wanted
    (fun block member => small block (List.mem_append_right _ member)) behind
    (show (l ++ (a, t) :: r).length < fuel by simp only [List.length_append, List.length_cons]; omega)
  obtain ⟨pre, post, shape, stop, smallPre, short⟩ :=
    served_parts h place r a t asked range positive small
  have head : s.memory = first (served h place size (m ++ l) a t r) none := by
    rw [list.head, ← List.append_assoc]
    exact first_replace ..
  have passes : pre.length < fuel := by
    rw [List.length_append] at short
    omega
  have two := pass_until place (some (returned h a)) positive pre post (shape ▸ linked) smallPre
    stop.symm passes
  rw [← shape, ← head] at two
  rw [← start] at one
  refine ⟨{ s with nodes := nodes', next := some (stand h place size a t) }, ?_, head, linked⟩
  simp only [nextFit, one, two, Option.bind_eq_bind, Option.bind_some]

/-- **`next_fit`**, if the sum is an `int`. -/
theorem nextFit_iff (position : s.next = none ∨ ∃ block ∈ blocks, s.next = some block.1) :
    OneBlock h size s blocks (nextFit h place s fuel size) ↔
      (larger size blocks ≤ 1 ∧ ∀ block ∈ blocks, block.2 ≠ size + h) ∧
        ∀ block ∈ before s.next blocks, block.2 ≤ size := by
  have wanted_of : ∀ {t}, size < t → Wanted h size t := fun large =>
    (wanted_iff positive asked range).mpr large
  have large_of : ∀ {t}, Wanted h size t → ¬ t ≤ size := fun wanted =>
    not_le.mpr ((wanted_iff positive asked range).mp wanted)
  have refused : _ → nextFit h place s fuel size = _ :=
    nextFit_refused positive list enough position
  obtain ⟨m, n, rfl, early, start, next⟩ := next_split positive list position
  rw [early]
  rcases first_wanted h size n with smallN | ⟨l, a, t, r, rfl, wanted, smallL⟩
  · rcases first_wanted h size m with smallM | ⟨l', a', t', r', rfl, wanted', smallL'⟩
    · -- nothing is taken
      have small : ∀ block ∈ m ++ n, ¬ Wanted h size block.2 := fun block member =>
        (List.mem_append.mp member).elim (smallM block) (smallN block)
      refine iff_of_true (oneBlock_refused (refused small)) ⟨⟨?_, ne_of_small positive asked range small⟩,
        fun block member => not_lt.mp fun large => smallM block member (wanted_of large)⟩
      exact (larger_eq_zero positive asked range small).trans_le (Nat.zero_le 1)
    · -- only the second pass finds a block
      refine iff_of_false (fun one => ?_) fun ok => large_of wanted' (ok.2 (a', t') (by simp))
      rcases next with ⟨empty, _⟩ | ⟨there, some_⟩
      · simp at empty
      · obtain ⟨_, _, call⟩ := one.returns
        rw [nextFit_overtakes positive list novel enough rfl start there some_ smallN rfl wanted'
          smallL'] at call
        cases call
  · rcases first_wanted h size r with behind | ⟨l', a', t', r', rfl, wanted', between⟩
    · rcases first_wanted h size m with smallM | ⟨l', a', t', r', rfl, wanted', smallL'⟩
      · -- one block is taken, by the first pass
        have member : (a, t) ∈ m ++ (l ++ (a, t) :: r) := by simp
        have fresh := (novel a (made_of_mem member)).1
        have smallLeft : ∀ block ∈ m ++ l, ¬ Wanted h size block.2 := fun block inside =>
          (List.mem_append.mp inside).elim (smallM block) (smallL block)
        have smallBefore : ∀ block ∈ m, block.2 ≤ size := fun block inside =>
          not_lt.mp fun large => smallM block inside (wanted_of large)
        obtain ⟨after, call, now⟩ := nextFit_one positive asked range list enough rfl fresh start
          smallLeft wanted behind
        rw [and_iff_left smallBefore]
        rw [← List.append_assoc] at fresh ⊢
        rw [ok_iff_of_one positive asked range wanted smallLeft behind]
        exact oneBlock_served_iff positive asked range fresh wanted (ints _ member) call now
      · -- one by each pass
        refine iff_of_false (nextFit_both positive asked range list novel enough rfl start smallL wanted
          behind rfl smallL' wanted') fun ok => large_of wanted' (ok.2 (a', t') (by simp))
    · -- two by the first pass
      refine iff_of_false (nextFit_two positive asked range list novel enough rfl start smallL wanted
        between wanted') fun ok => ?_
      have two := ok.1.1
      rw [← List.append_assoc, larger_split positive asked range wanted,
        larger_split positive asked range wanted'] at two
      omega

end Exact

end MemoryManagement
