/-
**`memory_management.cpp`: the four calls.**

* `firstFit_above_iff`, `nextFit_above_iff` — `_size` is negative if the size of the request and a header
  add up to no `int`; then a block that is taken is split, and its remainder cannot be free.
* `chooseFit_iff` — the block that `best_fit` and `worst_fit` choose has to have just the size of the
  request.
* `one_block` — **each call takes one block exactly under its condition.**
-/

import SistemasOperacionais.MemoryManagement.OneBlock

namespace MemoryManagement

open Headers Coalesce Select Wrap

variable {h size : ℤ} {place : ℤ → ℤ → ℤ} {s : State} {nodes : Memory Node}
  {blocks l r : List Block} {a t : ℤ} {fuel : ℕ} {address : Option ℤ} {after : State}

/-! ### A sum that is no `int` -/

section Above

/-- A block that was split is linked to a header of the call. -/
def Split (place : ℤ → ℤ → ℤ) (size : ℤ) (nodes : Memory Node) (b : Block) : Prop :=
  ∃ node, nodes b.1 = some node ∧ node.next = some (place b.1 size)

variable (positive : 0 < h) (header : h ≤ 2 ^ 31 - 1) (asked : 0 < size) (top : size ≤ 2 ^ 31 - 1)
  (above : 2 ^ 31 - 1 < size + h) (list : Blocks h s blocks)
  (ints : ∀ block ∈ blocks, block.2 ≤ 2 ^ 31 - 1) (novel : Novel h place size blocks)

/-- A split stays. -/
theorem split_stable (b : ℤ) (node : Node) (split : node.next = some (place b size)) :
    link h place size b node.size node.next = some (place b size) := by
  unfold link
  split
  · rfl
  · exact split

include positive header asked top above in
/-- The sum is negative, and the second test adds nothing. -/
theorem wanted_iff_above : Wanted h size t ↔ int (size + h) ≤ t := by
  have negative := int_above (size + h) (by omega) (by omega)
  unfold Wanted
  omega

include positive header asked top above in
theorem small_iff_above : (∀ block ∈ blocks, ¬ Wanted h size block.2) ↔
    ∀ block ∈ blocks, block.2 < int (size + h) := by
  refine forall₂_congr fun block _ => ?_
  rw [wanted_iff_above positive header asked top above, not_le]

include positive asked above list ints novel in
/-- **A block split for such a request**: its remainder cannot be free. -/
theorem not_oneBlock_of_split {b : Block} (member : b ∈ blocks) (split : Split place size after.nodes b) :
    ¬ OneBlock h size s blocks (some (address, after)) := by
  intro one
  obtain ⟨node, load, link⟩ := split
  have fresh := (novel b.1 (made_of_mem member)).1
  have notOwn : ∀ other ∈ blocks, place b.1 size ≠ other.1 := by
    intro other inside same
    have apart := fresh other inside
    unfold Apart at apart
    omega
  rcases one.served with refused | ⟨l, a, t, r, used, rest, _, _, rfl, positiveT, _, call, large, free,
    now, sums⟩
  · cases refused
    obtain ⟨next, found, inside⟩ := load_of_linked list.linked member
    rw [load] at found
    cases found
    obtain ⟨other, there, same⟩ := inside _ link
    exact notOwn other there same
  · cases call
    have whole := ints (a, t) (by simp)
    dsimp only at whole
    cases rest with
    | some block =>
      -- the sum leaves no room for a remainder
      have some_ := free block rfl
      rw [Option.toList_some, total_append, total_append, total_cons, List.cons_append,
        List.nil_append, total_cons, total_cons] at sums
      dsimp only at sums
      rw [abs_of_pos positiveT, abs_of_pos some_, abs_of_neg (by omega)] at sums
      omega
    | none =>
      have inside : ∃ v, (b.1, v) ∈ l ++ (a, used) :: r := by
        simp only [List.mem_append, List.mem_cons] at member ⊢
        rcases member with inLeft | rfl | inRight
        · exact ⟨b.2, .inl inLeft⟩
        · exact ⟨used, .inr (.inl rfl)⟩
        · exact ⟨b.2, .inr (.inr inRight)⟩
      obtain ⟨v, inside⟩ := inside
      obtain ⟨next, found, links⟩ := load_of_linked now.linked inside
      rw [load] at found
      cases found
      obtain ⟨other, there, same⟩ := links _ link
      have old : ∃ w, (other.1, w) ∈ l ++ (a, t) :: r := by
        simp only [Option.toList_none, List.nil_append, List.mem_append, List.mem_cons] at there ⊢
        rcases there with inLeft | rfl | inRight
        · exact ⟨other.2, .inl inLeft⟩
        · exact ⟨t, .inr (.inl rfl)⟩
        · exact ⟨other.2, .inr (.inr inRight)⟩
      obtain ⟨w, old⟩ := old
      exact notOwn _ old same

variable (enough : blocks.length < fuel)

include positive header asked top above list ints novel enough

/-- **`first_fit`**, if the sum is no `int`. -/
theorem firstFit_above_iff : OneBlock h size s blocks (firstFit h place s fuel size) ↔
    ∀ block ∈ blocks, block.2 < int (size + h) := by
  rw [← small_iff_above positive header asked top above]
  rcases first_wanted h size blocks with small | ⟨l, a, t, r, rfl, wanted, before⟩
  · refine iff_of_true (oneBlock_refused ?_) small
    have whole := pass_none place (fun _ => none) none none list.linked.chain small
      (fun _ _ => nofun) enough
    rw [← list.head] at whole
    rw [firstFit, whole]
    rfl
  · have member : (a, t) ∈ l ++ (a, t) :: r := by simp
    refine iff_of_false (fun one => ?_) fun small => small (a, t) member wanted
    obtain ⟨address, after, call⟩ := one.returns
    obtain ⟨p, run, done⟩ := Option.bind_eq_some_iff.mp call
    cases done
    rw [list.head] at run
    rw [List.length_append] at enough
    have becomes : link h place size a t (first r none) = some (place a size) :=
      if_pos ((wanted_iff_above positive header asked top above).mp wanted)
    have split : Split place size p.nodes (a, t) :=
      (pass_visits (P := fun node => node.next = some (place a size)) positive list.linked.spread novel
        (fun node split _ => split_stable a node split) member (closed_blocks list.linked)
        list.linked.chain before wanted (fun _ _ => (Option.some_ne_none _).symm) (by omega) becomes
        run).2
    rw [call] at one
    refine not_oneBlock_of_split positive asked above list ints novel member ?_ one
    exact split

/-- **`next_fit`**, if the sum is no `int`. -/
theorem nextFit_above_iff (position : s.next = none ∨ ∃ block ∈ blocks, s.next = some block.1) :
    OneBlock h size s blocks (nextFit h place s fuel size) ↔
      ∀ block ∈ blocks, block.2 < int (size + h) := by
  rw [← small_iff_above positive header asked top above]
  by_cases small : ∀ block ∈ blocks, ¬ Wanted h size block.2
  · exact iff_of_true (oneBlock_refused (nextFit_refused positive list enough position small)) small
  refine iff_of_false (fun one => ?_) small
  obtain ⟨address, after, call⟩ := one.returns
  rw [call] at one
  obtain ⟨p, q, first_, second, same⟩ := nextFit_inv call
  suffices found : ∃ b ∈ blocks, Split place size q.nodes b by
    obtain ⟨b, member, split⟩ := found
    rw [← same] at split
    exact not_oneBlock_of_split positive asked above list ints novel member split one
  obtain ⟨m, n, rfl, _, start, next⟩ := next_split positive list position
  rw [List.length_append] at enough
  rw [start] at first_
  obtain ⟨ahead, tail⟩ := chain_append.mp list.linked.chain
  have becomes : ∀ {a t next}, Wanted h size t → link h place size a t next = some (place a size) :=
    fun wanted => if_pos ((wanted_iff_above positive header asked top above).mp wanted)
  rcases first_wanted h size n with smallN | ⟨l, a, t, r, rfl, wanted, before⟩
  · rcases first_wanted h size m with smallM | ⟨l, a, t, r, rfl, wanted, before⟩
    · exact absurd (fun block member => (List.mem_append.mp member).elim (smallM block) (smallN block))
        small
    · -- the second pass splits one
      rcases next with ⟨empty, _⟩ | ⟨there, some_⟩
      · simp at empty
      have member : (a, t) ∈ (l ++ (a, t) :: r) ++ n := by simp
      have inside : ∀ block ∈ l ++ [(a, t)], id s.next ≠ some block.1 := by
        intro block within
        refine next_ne positive list.linked.spread there some_ block ?_
        simp only [List.mem_append, List.mem_cons] at within ⊢
        tauto
      rw [pass_none place (fun _ => none) s.next none tail smallN (fun _ _ => nofun) (by omega)]
        at first_
      cases first_
      rw [list.head, first_append] at second
      rw [List.length_append] at enough
      exact ⟨(a, t), member, (pass_visits (P := fun node => node.next = some (place a size)) positive
        list.linked.spread novel (fun node split _ => split_stable a node split) member
        (closed_blocks list.linked) ahead before wanted inside (by omega) (becomes wanted) second).2⟩
  · -- the first pass splits one, and the second leaves it
    have member : (a, t) ∈ m ++ (l ++ (a, t) :: r) := by simp
    rw [List.length_append] at enough
    obtain ⟨⟨known, closed⟩, split⟩ := pass_visits (P := fun node => node.next = some (place a size))
      positive list.linked.spread novel (fun node split _ => split_stable a node split) member
      (closed_blocks list.linked) tail before wanted (fun _ _ => (Option.some_ne_none _).symm)
      (by omega) (becomes wanted) first_
    rw [list.head] at second
    exact ⟨(a, t), member, (pass_keeps positive list.linked.spread novel
      (fun node split _ => split_stable a node split) member closed (closed.first fun _ => id) split
      second).2⟩

end Above

/-! ### `best_fit` and `worst_fit` -/

section Choice

variable {better : ℤ → ℤ → Bool} (positive : 0 < h) (asked : 0 < size) (list : Blocks h s blocks)
  (fresh : ∀ block ∈ blocks, ∀ other ∈ blocks, Apart h (place block.1 size) other.1)
  (enough : blocks.length < fuel)

include positive asked list fresh enough

/-- **The block chosen has to have just the size of the request**: otherwise the remainder is a header
too large. -/
theorem chooseFit_iff {above : Block → Block → Prop}
    (ranks : Ranks (fun x y : Block => better x.2 y.2 = true) above) :
    OneBlock h size s blocks (chooseFit h place better s fuel size) ↔
      ∃ block, choice better size blocks = some block ∧ block.2 = size := by
  rw [chooseFit_eq list enough]
  cases chosen : choice better size blocks with
  | none =>
    refine iff_of_false (fun one => ?_) nofun
    obtain ⟨_, _, call⟩ := one.returns
    cases call
  | some block =>
    obtain ⟨a, t⟩ := block
    obtain ⟨member, fits, _⟩ := select_eq_some ranks chosen
    have large : size ≤ t := fits
    have freshHere := fresh (a, t) member
    obtain ⟨l, r, rfl⟩ := List.append_of_mem member
    have same : (∃ block, some (a, t) = some block ∧ block.2 = size) ↔ t = size :=
      ⟨fun ⟨_, same, just⟩ => by cases same; exact just, fun just => ⟨_, rfl, just⟩⟩
    rw [same, Option.bind_some]
    by_cases just : t = size
    · subst just
      have here : s.nodes a = some ⟨first r none, t⟩ := list.linked.load
      have after : Blocks h { s with nodes := store h s.nodes a ⟨first r none, t * (-1)⟩ }
          (l ++ (a, t * (-1)) :: r) :=
        ⟨list.head.trans (first_replace ..), list.linked.set positive (t * (-1))⟩
      refine iff_of_true ⟨.inr ⟨l, a, t, r, t * (-1), none, returned h a, _, rfl, asked, le_refl t, ?_,
        by omega, nofun, after, ?_⟩, fun small => absurd (small (a, t) member) (lt_irrefl t)⟩ rfl
      · rw [take_exact asked here]
        rfl
      · rw [Option.toList_none, List.nil_append, total_append, total_append, total_cons, total_cons]
        dsimp only
        rw [Int.mul_neg_one, abs_neg]
    · refine iff_of_false (fun one => ?_) just
      obtain ⟨nodes', taken, linked⟩ :=
        take_larger positive list.linked freshHere (lt_of_le_of_ne large (Ne.symm just))
      rw [taken, Option.map_some] at one
      rcases one.served with refused | ⟨_, _, _, _, _, _, _, _, _, _, _, call, _, _, now, sums⟩
      · cases refused
      · cases call
        have after : Blocks h { s with nodes := nodes' }
            (l ++ (a, 0 - size) :: (place a size, t - size) :: r) :=
          ⟨list.head.trans (first_replace ..), linked⟩
        rw [← blocks_unique after now, total_append, total_append, total_cons, total_cons,
          total_cons] at sums
        dsimp only at sums
        rw [Int.zero_sub, abs_neg, abs_of_pos asked, abs_of_pos (show 0 < t by omega),
          abs_of_nonneg (show 0 ≤ t - size by omega)] at sums
        omega

theorem bestFit_iff : OneBlock h size s blocks (bestFit h place s fuel size) ↔ BestOk size blocks := by
  refine (chooseFit_iff positive asked list fresh enough ranks_best).trans ⟨?_, ?_⟩
  · rintro ⟨block, chosen, just⟩
    exact ⟨block, (select_eq_some ranks_best chosen).1, just⟩
  · rintro ⟨block, member, just⟩
    obtain ⟨best, chosen, _, large, least⟩ :=
      choice_some (fun size best => decide (size < best)) ranks_best member just.ge
    exact ⟨best, chosen, le_antisymm (least.trans just.le) large⟩

theorem worstFit_iff :
    OneBlock h size s blocks (worstFit h place s fuel size) ↔ WorstOk size blocks := by
  refine (chooseFit_iff positive asked list fresh enough ranks_worst).trans ⟨?_, ?_⟩
  · rintro ⟨block, chosen, just⟩
    obtain ⟨member, _, most⟩ := select_eq_some ranks_worst chosen
    refine ⟨⟨block, member, just⟩, fun other inside => ?_⟩
    by_contra large
    exact large ((most other inside (not_le.mp large).le).trans just.le)
  · rintro ⟨⟨block, member, just⟩, largest⟩
    obtain ⟨worst, chosen, inside, large, _⟩ :=
      choice_some (fun size worst => decide (worst < size)) ranks_worst member just.ge
    exact ⟨worst, chosen, le_antisymm (largest worst inside) large⟩

end Choice

/-! ### The four calls -/

/-- **One request, one block exactly under the conditions**, for every list of blocks, every position
of `_next` on it or NULL, and every request. -/
theorem one_block (positive : 0 < h) (header : h ≤ 2 ^ 31 - 1) (asked : 0 < size)
    (top : size ≤ 2 ^ 31 - 1) (list : Blocks h s blocks)
    (ints : ∀ block ∈ blocks, block.2 ≤ 2 ^ 31 - 1)
    (position : s.next = none ∨ ∃ block ∈ blocks, s.next = some block.1)
    (novel : Novel h place size blocks) (enough : blocks.length < fuel) :
    (OneBlock h size s blocks (firstFit h place s fuel size) ↔ FirstOk h size blocks) ∧
    (OneBlock h size s blocks (nextFit h place s fuel size) ↔ NextOk h size s.next blocks) ∧
    (OneBlock h size s blocks (bestFit h place s fuel size) ↔ BestOk size blocks) ∧
    (OneBlock h size s blocks (worstFit h place s fuel size) ↔ WorstOk size blocks) := by
  have fresh : ∀ block ∈ blocks, ∀ other ∈ blocks, Apart h (place block.1 size) other.1 :=
    fun block member => (novel block.1 (made_of_mem member)).1
  refine ⟨?_, ?_, bestFit_iff positive asked list fresh enough,
    worstFit_iff positive asked list fresh enough⟩
  · rcases lt_or_ge (2 ^ 31 - 1) (size + h) with above | range
    · rw [firstFit_above_iff positive header asked top above list ints novel enough, FirstOk,
        or_iff_right fun both => not_le.mpr above both.1, and_iff_right above]
    · rw [firstFit_iff positive asked range list ints novel enough, FirstOk,
        or_iff_left fun both => not_lt.mpr range both.1, and_iff_right range]
  · rcases lt_or_ge (2 ^ 31 - 1) (size + h) with above | range
    · rw [nextFit_above_iff positive header asked top above list ints novel enough position, NextOk,
        or_iff_right fun both => not_le.mpr above both.1, and_iff_right above]
    · rw [nextFit_iff positive asked range list ints novel enough position, NextOk,
        or_iff_left fun both => not_lt.mpr range both.1, and_iff_right range]

/-- Where the headers made in a call go. -/
theorem placeBytes_iterate (h size a : ℤ) (k : ℕ) :
    (fun x => placeBytes h x size)^[k] a = a + k * ((h + size) * h) := by
  induction k with
  | zero => simp
  | succ k ih =>
    rw [Function.iterate_succ_apply', ih, placeBytes, Nat.cast_succ, Int.add_mul (k : ℤ), Int.one_mul,
      Int.add_assoc]

/-- After `begin_memory` the headers made in a call are away from the only one of the list. -/
theorem novel_single (positive : 0 < h) (asked : 0 < size) (base v : ℤ) :
    Novel h (placeBytes h) size [(base, v)] := by
  have wide : h ≤ (h + size) * h := le_mul_of_one_le_left positive.le (by omega)
  rintro x ⟨block, member, k, rfl⟩
  rw [List.mem_singleton.mp member, placeBytes_iterate, placeBytes]
  have before : 0 ≤ (k : ℤ) * ((h + size) * h) := Int.mul_nonneg (Int.natCast_nonneg k) (by omega)
  refine ⟨fun other inside => ?_, .inr ?_⟩
  · rw [List.mem_singleton.mp inside]
    refine .inr ?_
    dsimp only
    omega
  · omega

/-- Requests after `begin_memory`: 10 bytes and all of them; `first_fit` of 224 bytes leaves a remainder
of 0, and `best_fit` of 10 a remainder too large. -/
theorem one_block_beginMemory :
    OneBlock 16 10 (beginMemory 16 0) [(0, 240)]
      (firstFit 16 (placeBytes 16) (beginMemory 16 0) 2 10) ∧
    OneBlock 16 10 (beginMemory 16 0) [(0, 240)]
      (nextFit 16 (placeBytes 16) (beginMemory 16 0) 2 10) ∧
    OneBlock 16 240 (beginMemory 16 0) [(0, 240)]
      (bestFit 16 (placeBytes 16) (beginMemory 16 0) 2 240) ∧
    OneBlock 16 240 (beginMemory 16 0) [(0, 240)]
      (worstFit 16 (placeBytes 16) (beginMemory 16 0) 2 240) ∧
    ¬ OneBlock 16 224 (beginMemory 16 0) [(0, 240)]
      (firstFit 16 (placeBytes 16) (beginMemory 16 0) 2 224) ∧
    ¬ OneBlock 16 10 (beginMemory 16 0) [(0, 240)]
      (bestFit 16 (placeBytes 16) (beginMemory 16 0) 2 10) := by
  have list : Blocks 16 (beginMemory 16 0) [(0, 240)] := blocks_beginMemory 16 0
  have calls := fun size (asked : 0 < size) (top : size ≤ 2 ^ 31 - 1) =>
    one_block (by decide) (by decide) asked top list (by decide) (.inl rfl)
      (novel_single (by decide) asked 0 240) (show [((0 : ℤ), (240 : ℤ))].length < 2 by decide)
  obtain ⟨first, next, best, _⟩ := calls 10 (by decide) (by decide)
  obtain ⟨_, _, bestAll, worstAll⟩ := calls 240 (by decide) (by decide)
  obtain ⟨firstJust, _, _, _⟩ := calls 224 (by decide) (by decide)
  rw [first, next, bestAll, worstAll, firstJust, best]
  unfold FirstOk NextOk BestOk WorstOk BestOk
  decide

end MemoryManagement
