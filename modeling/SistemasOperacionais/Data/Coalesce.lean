/-
**Coalescing neighbours.**

A list in which some elements are `free` and two free neighbours can be joined into one. `coalesce`
joins every run of free elements; `Settled` says that no two neighbours are free.

* `coalesce_of_settled`, `settled_coalesce` — a settled list is a fixed point, and the result is
  settled.
* `coalesce_coalesce_append`, `coalesce_append_coalesce` — coalescing a part first changes nothing.
  With `coalesce_barrier` (an element that is not free splits the list) this is why the order in
  which elements are freed does not matter.
* `coalesce_concat_append` — freeing one element of a settled list joins it with at most the two
  neighbours.
* `coalesce_append_of_apart` — an element that cannot be joined with the one before it begins a part
  of the result.
* `exists_runs` — the list is cut into runs, and each run becomes one element.
* `forall_coalesce`, `filter_coalesce`, `sum_coalesce`, `coalesce_all_free` — what joining keeps
  holds of the result, what is not free is kept in order, a measure additive under `join` is kept,
  and if everything is free one element is left.
* `joined`, `total` — the case of blocks of memory with a header in front of each: an address and a
  size, negative while the block is used. Joining adds the header between two blocks, which keeps the
  address of the first (`first_coalesce`) and what the blocks account for (`total_coalesce`).
-/

import SistemasOperacionais.Data.Headers
import Mathlib.Data.List.Chain
import Mathlib.Algebra.BigOperators.Group.List.Basic
import Mathlib.Algebra.Order.Group.Unbundled.Int
import Mathlib.Algebra.Order.Ring.Int

namespace Coalesce

variable {α : Type} (free : α → Bool) (join : α → α → α)

/-- Put an element in front, joined with the first one if both are free. -/
def push (x : α) : List α → List α
  | [] => [x]
  | y :: rest => if free x && free y then join x y :: rest else x :: y :: rest

/-- **Join every run of free elements.** -/
def coalesce : List α → List α
  | [] => []
  | x :: rest => push free join x (coalesce rest)

/-- No two neighbours are free. -/
def Settled (l : List α) : Prop := l.IsChain fun x y => ¬ (free x = true ∧ free y = true)

/-- What joining has to satisfy. -/
structure Joins : Prop where
  closed : ∀ x y, free x = true → free y = true → free (join x y) = true
  assoc : ∀ x y z, free x = true → free y = true → free z = true →
    join x (join y z) = join (join x y) z

variable {free join}

theorem push_of_not {x : α} {l : List α}
    (apart : ∀ y ∈ l.head?, ¬ (free x = true ∧ free y = true)) : push free join x l = x :: l := by
  cases l with
  | nil => rfl
  | cons y rest =>
    have different := apart y rfl
    simp only [push, Bool.and_eq_true, if_neg different]

theorem push_of_free {x y : α} {rest : List α} (left : free x = true) (right : free y = true) :
    push free join x (y :: rest) = join x y :: rest := by
  simp only [push, left, right, Bool.and_self, if_true]

/-- A push looks at the first element only. -/
theorem push_append (x y : α) (l r : List α) :
    push free join x (y :: l ++ r) = push free join x (y :: l) ++ r := by
  rw [List.cons_append, push, push]
  split <;> rfl

/-- The first element after a push is free exactly when the one pushed is. -/
theorem head_push (joins : Joins free join) (x : α) (l : List α) :
    ∃ y rest, push free join x l = y :: rest ∧ free y = free x := by
  cases l with
  | nil => exact ⟨x, [], rfl, rfl⟩
  | cons y rest =>
    by_cases both : free x = true ∧ free y = true
    · exact ⟨join x y, rest, push_of_free both.1 both.2, by
        rw [joins.closed x y both.1 both.2, both.1]⟩
    · exact ⟨x, y :: rest, push_of_not (by simpa using both), rfl⟩

/-- A settled list is a fixed point. -/
theorem coalesce_of_settled {l : List α} (settled : Settled free l) :
    coalesce free join l = l := by
  induction l with
  | nil => rfl
  | cons x rest ih =>
    rw [coalesce, ih settled.tail]
    refine push_of_not fun y first => ?_
    obtain ⟨tail, rfl⟩ := List.head?_eq_some_iff.mp first
    exact (List.isChain_cons_cons.mp settled).1

theorem settled_push {x : α} {l : List α} (settled : Settled free l) :
    Settled free (push free join x l) := by
  cases l with
  | nil => exact List.isChain_singleton x
  | cons y rest =>
    by_cases both : free x = true ∧ free y = true
    · rw [push_of_free both.1 both.2]
      cases rest with
      | nil => exact List.isChain_singleton _
      | cons z tail =>
        obtain ⟨apart, settled⟩ := List.isChain_cons_cons.mp settled
        exact List.isChain_cons_cons.mpr ⟨fun next => apart ⟨both.2, next.2⟩, settled⟩
    · rw [push_of_not (by simpa using both)]
      exact List.isChain_cons_cons.mpr ⟨both, settled⟩

theorem settled_coalesce (l : List α) : Settled free (coalesce free join l) := by
  induction l with
  | nil => exact List.isChain_nil
  | cons x rest ih => exact settled_push ih

/-- An element replaced by one that is not free, or by one and something not free behind it, leaves
a settled list settled. -/
theorem Settled.replace {l r : List α} {x y : α} (settled : Settled free (l ++ x :: r))
    (taken : free y = false) : Settled free (l ++ y :: r) := by
  obtain ⟨left, right, -⟩ := List.isChain_append.mp settled
  refine List.isChain_append.mpr ⟨left, ?_, by simp [taken]⟩
  exact List.isChain_cons.mpr ⟨by simp [taken], (List.isChain_cons.mp right).2⟩

theorem Settled.insert {l r : List α} {x x' y : α} (settled : Settled free (l ++ x :: r))
    (same : free x' = free x) (taken : free y = false) : Settled free (l ++ x' :: y :: r) := by
  obtain ⟨left, right, across⟩ := List.isChain_append.mp settled
  refine List.isChain_append.mpr ⟨left, ?_, ?_⟩
  · refine List.isChain_cons.mpr ⟨by simp [taken], List.isChain_cons.mpr ⟨by simp [taken], ?_⟩⟩
    exact (List.isChain_cons.mp right).2
  · simpa [same] using across

theorem Settled.insert_before {l r : List α} {x x' y : α} (settled : Settled free (l ++ x :: r))
    (same : free x' = free x) (taken : free y = false) : Settled free (l ++ y :: x' :: r) := by
  obtain ⟨left, right, -⟩ := List.isChain_append.mp settled
  refine List.isChain_append.mpr ⟨left, ?_, by simp [taken]⟩
  refine List.isChain_cons.mpr ⟨by simp [taken], List.isChain_cons.mpr ⟨?_, right.tail⟩⟩
  rw [same]
  exact (List.isChain_cons.mp right).1

/-- Two pushes of free elements are a push of the joined one. -/
theorem push_push (joins : Joins free join) {x y : α} (left : free x = true)
    (right : free y = true) (l : List α) :
    push free join x (push free join y l) = push free join (join x y) l := by
  have both := joins.closed x y left right
  cases l with
  | nil => exact push_of_free left right
  | cons z rest =>
    by_cases last : free z = true
    · rw [push_of_free right last, push_of_free left (joins.closed y z right last),
        push_of_free both last, joins.assoc x y z left right last]
    · have stays : ∀ w, push free join w (z :: rest) = w :: z :: rest :=
        fun w => push_of_not (by simpa using fun _ => last)
      rw [stays, push_of_free left right, stays]

theorem coalesce_push_append (joins : Joins free join) (x : α) (l r : List α) :
    coalesce free join (push free join x l ++ r) =
      push free join x (coalesce free join (l ++ r)) := by
  cases l with
  | nil => rfl
  | cons y rest =>
    by_cases both : free x = true ∧ free y = true
    · rw [push_of_free both.1 both.2, List.cons_append, List.cons_append, coalesce, coalesce,
        push_push joins both.1 both.2]
    · rw [push_of_not (by simpa using both)]
      rfl

/-- **Coalescing the first part first changes nothing.** -/
theorem coalesce_coalesce_append (joins : Joins free join) (l r : List α) :
    coalesce free join (coalesce free join l ++ r) = coalesce free join (l ++ r) := by
  induction l with
  | nil => rfl
  | cons x rest ih => rw [coalesce, coalesce_push_append joins, ih, List.cons_append, coalesce]

/-- **Coalescing the last part first changes nothing.** -/
theorem coalesce_append_coalesce (l r : List α) :
    coalesce free join (l ++ coalesce free join r) = coalesce free join (l ++ r) := by
  induction l with
  | nil => exact coalesce_of_settled (settled_coalesce r)
  | cons x rest ih => rw [List.cons_append, coalesce, ih, List.cons_append, coalesce]

/-- **An element that is not free splits the list.** -/
theorem coalesce_barrier {x : α} (taken : free x = false) (l r : List α) :
    coalesce free join (l ++ x :: r) =
      coalesce free join l ++ x :: coalesce free join r := by
  induction l with
  | nil => exact push_of_not (by simp [taken])
  | cons y rest ih =>
    rw [List.cons_append, coalesce, ih, coalesce]
    cases coalesce free join rest with
    | nil => exact push_of_not (by simp [taken])
    | cons z tail => exact push_append y z tail _

/-- **An element that cannot be joined with the one before it** stays the first of its part. -/
theorem coalesce_append_of_apart (joins : Joins free join) {l r : List α} {x : α}
    (apart : ∀ y ∈ l.getLast?, ¬ (free y = true ∧ free x = true)) :
    coalesce free join (l ++ x :: r) =
      coalesce free join l ++ push free join x (coalesce free join r) := by
  induction l with
  | nil => rfl
  | cons z rest ih =>
    rw [List.cons_append, coalesce, coalesce]
    cases rest with
    | nil =>
      refine push_of_not fun y first => ?_
      obtain ⟨y', tail, same, kind⟩ := head_push joins x (coalesce free join r)
      rw [List.nil_append, coalesce, same] at first
      cases first
      rw [kind]
      exact apart z rfl
    | cons w tail =>
      rw [ih (by simpa using apart)]
      obtain ⟨w', tail', same, -⟩ := head_push joins w (coalesce free join tail)
      rw [coalesce, same, push_append]

/-- Joining makes the list no longer. -/
theorem length_coalesce_le (l : List α) : (coalesce free join l).length ≤ l.length := by
  induction l with
  | nil => exact Nat.le_refl 0
  | cons x rest ih =>
    rw [coalesce, List.length_cons]
    cases same : coalesce free join rest with
    | nil => exact Nat.succ_le_succ (Nat.zero_le _)
    | cons y tail =>
      rw [same, List.length_cons] at ih
      unfold push
      dsimp only
      split
      · rw [List.length_cons]
        omega
      · rw [List.length_cons, List.length_cons]
        omega

/-- **Behind a settled list only the last element can be joined.** -/
theorem coalesce_concat_append (joins : Joins free join) {l r : List α} {x : α}
    (settled : Settled free (l ++ [x])) :
    coalesce free join (l ++ x :: r) = l ++ push free join x (coalesce free join r) := by
  induction l with
  | nil => rfl
  | cons z rest ih =>
    rw [List.cons_append, coalesce, ih settled.tail]
    refine push_of_not fun y first => ?_
    cases rest with
    | nil =>
      obtain ⟨y', tail, same, kind⟩ := head_push joins x (coalesce free join r)
      rw [List.nil_append, same] at first
      cases first
      rw [kind]
      exact (List.isChain_cons_cons.mp settled).1
    | cons w tail =>
      cases first
      exact (List.isChain_cons_cons.mp settled).1

/-- What holds of every element and of what is joined holds of every element of the result. -/
theorem forall_coalesce {P : α → Prop} (closed : ∀ x y, free x = true → free y = true → P x →
    P y → P (join x y)) {l : List α} (all : ∀ x ∈ l, P x) : ∀ x ∈ coalesce free join l, P x := by
  have pushed : ∀ x l, P x → (∀ y ∈ l, P y) → ∀ y ∈ push free join x l, P y := by
    intro x l here all
    cases l with
    | nil => simpa [push] using here
    | cons y rest =>
      have next : P y := all y List.mem_cons_self
      by_cases both : free x = true ∧ free y = true
      · rw [push_of_free both.1 both.2]
        refine List.forall_mem_cons.mpr ⟨closed x y both.1 both.2 here next, fun z member => ?_⟩
        exact all z (List.mem_cons_of_mem y member)
      · rw [push_of_not (by simpa using both)]
        exact List.forall_mem_cons.mpr ⟨here, all⟩
  induction l with
  | nil => exact all
  | cons x rest ih =>
    obtain ⟨here, all⟩ := List.forall_mem_cons.mp all
    exact pushed x _ here (ih all)

/-- What is not free is kept, in order. -/
theorem filter_coalesce (joins : Joins free join) (l : List α) :
    (coalesce free join l).filter (fun x => !free x) = l.filter fun x => !free x := by
  have pushed : ∀ x l, (push free join x l).filter (fun x => !free x) =
      (x :: l).filter fun x => !free x := by
    intro x l
    cases l with
    | nil => rfl
    | cons y rest =>
      by_cases both : free x = true ∧ free y = true
      · rw [push_of_free both.1 both.2]
        simp [joins.closed x y both.1 both.2, both.1, both.2]
      · rw [push_of_not (by simpa using both)]
  induction l with
  | nil => rfl
  | cons x rest ih => rw [coalesce, pushed, List.filter_cons, List.filter_cons, ih]

/-- A measure that joining adds up is kept. -/
theorem sum_coalesce {M : Type} [AddMonoid M] (measure : α → M)
    (additive : ∀ x y, free x = true → free y = true →
      measure (join x y) = measure x + measure y) (l : List α) :
    ((coalesce free join l).map measure).sum = (l.map measure).sum := by
  have pushed : ∀ x l, ((push free join x l).map measure).sum =
      measure x + (l.map measure).sum := by
    intro x l
    cases l with
    | nil => simp [push]
    | cons y rest =>
      by_cases both : free x = true ∧ free y = true
      · rw [push_of_free both.1 both.2]
        simp [additive x y both.1 both.2, add_assoc]
      · rw [push_of_not (by simpa using both)]
        simp
  induction l with
  | nil => rfl
  | cons x rest ih => rw [coalesce, pushed, ih, List.map_cons, List.sum_cons]

/-- A run and what it becomes: an element by itself, or free elements joined. -/
inductive Yields (free : α → Bool) (join : α → α → α) : List α → α → Prop
  | single (x : α) : Yields free join [x] x
  | more {x y : α} {run : List α} : free x = true → free y = true → Yields free join run y →
      Yields free join (x :: run) (join x y)

/-- **The list is cut into runs, and each run becomes one element.** -/
theorem exists_runs (l : List α) : ∃ runs : List (List α), runs.flatten = l ∧
    List.Forall₂ (Yields free join) runs (coalesce free join l) := by
  induction l with
  | nil => exact ⟨[], rfl, .nil⟩
  | cons x rest ih =>
    obtain ⟨runs, whole, made⟩ := ih
    have alone : List.Forall₂ (Yields free join) ([x] :: runs) (x :: coalesce free join rest) :=
      .cons (.single x) made
    rw [coalesce]
    cases same : coalesce free join rest with
    | nil =>
      rw [same] at alone
      exact ⟨[x] :: runs, congrArg (x :: ·) whole, alone⟩
    | cons y tail =>
      by_cases both : free x = true ∧ free y = true
      · -- the first run is longer by one
        rw [same] at made
        obtain ⟨run, others, here, behind, rfl⟩ := List.forall₂_cons_right_iff.mp made
        rw [push_of_free both.1 both.2]
        exact ⟨(x :: run) :: others, congrArg (x :: ·) whole, .cons (.more both.1 both.2 here) behind⟩
      · rw [push_of_not (by simpa using both), ← same]
        exact ⟨[x] :: runs, congrArg (x :: ·) whole, alone⟩

/-- **If everything is free, one element is left.** -/
theorem coalesce_all_free (joins : Joins free join) {l : List α} (some : l ≠ [])
    (all : ∀ x ∈ l, free x = true) :
    ∃ x, coalesce free join l = [x] ∧ free x = true := by
  induction l with
  | nil => exact absurd rfl some
  | cons x rest ih =>
    have first : free x = true := all x List.mem_cons_self
    cases rest with
    | nil => exact ⟨x, rfl, first⟩
    | cons y tail =>
      obtain ⟨z, same, last⟩ := ih (List.cons_ne_nil y tail)
        fun other member => all other (List.mem_cons_of_mem x member)
      rw [coalesce, same, push_of_free first last]
      exact ⟨join x z, rfl, joins.closed x z first last⟩

/-! ### Blocks with headers between them -/

section Blocks

open Headers

/-- The first of two neighbours takes over the bytes of the second one and of its header. -/
def joined (h : ℤ) (x y : ℤ × ℤ) : ℤ × ℤ := (x.1, x.2 + h + y.2)

/-- What the blocks account for, their headers included. -/
def total (h : ℤ) (blocks : List (ℤ × ℤ)) : ℤ := (blocks.map fun block => |block.2| + h).sum

variable {h : ℤ} {free : ℤ × ℤ → Bool}

theorem joins_joined (closed : ∀ x y, free x = true → free y = true → free (joined h x y) = true) :
    Joins free (joined h) where
  closed := closed
  assoc x y z _ _ _ := by
    refine Prod.ext rfl ?_
    show x.2 + h + (y.2 + h + z.2) = x.2 + h + y.2 + h + z.2
    omega

/-- Coalescing keeps where the list starts. -/
theorem first_coalesce (blocks : List (ℤ × ℤ)) :
    first (coalesce free (joined h) blocks) none = first blocks none := by
  cases blocks with
  | nil => rfl
  | cons block rest =>
    rw [coalesce]
    cases coalesce free (joined h) rest with
    | nil => rfl
    | cons next tail =>
      rw [push]
      split <;> rfl

theorem total_cons (block : ℤ × ℤ) (rest : List (ℤ × ℤ)) :
    total h (block :: rest) = |block.2| + h + total h rest := List.sum_cons

theorem total_append (l r : List (ℤ × ℤ)) : total h (l ++ r) = total h l + total h r := by
  rw [total, List.map_append, List.sum_append]
  rfl

theorem total_nonneg (positive : 0 < h) (blocks : List (ℤ × ℤ)) : 0 ≤ total h blocks := by
  induction blocks with
  | nil => exact le_refl 0
  | cons block rest ih =>
    have size := abs_nonneg block.2
    rw [total_cons]
    omega

/-- **Coalescing keeps what the blocks account for**, if a free block has no negative size. -/
theorem total_coalesce (positive : 0 < h) (sized : ∀ x, free x = true → 0 ≤ x.2)
    (blocks : List (ℤ × ℤ)) : total h (coalesce free (joined h) blocks) = total h blocks := by
  refine sum_coalesce _ (fun x y left right => ?_) blocks
  have here := sized x left
  have behind := sized y right
  show |x.2 + h + y.2| + h = _
  rw [abs_of_nonneg here, abs_of_nonneg behind, abs_of_nonneg (by omega)]
  omega

end Blocks

end Coalesce
