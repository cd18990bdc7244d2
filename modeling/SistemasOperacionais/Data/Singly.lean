/-
**Singly linked lists with a head.**

The nodes are the head, `none`, and `some x` for an element `x`; `link` is the link field of all
nodes. The node before a position is the head or an element, so that taking out and putting in are
one assignment to its link wherever the position is.

* `Path link a l` — from node `a` the links lead over `l` to the end; `Seg` leaves the end open.
* `Listed link l` — the list of the head, no element twice.
* `Listed.unlink`, `Listed.insert` — the two surgeries. `Listed.congr` — what else is assigned does
  not matter.
-/

import Mathlib.Data.List.Basic
import Mathlib.Data.List.Nodup
import Mathlib.Logic.Function.Basic

namespace SinglyLinked

variable {β : Type} {link link' : Option β → Option β} {a c : Option β} {l r : List β} {x : β}

/-- The last node on the way over `l`. -/
def stop : Option β → List β → Option β
  | a, [] => a
  | _, x :: l => stop (some x) l

/-- The links lead from `a` over `l`. -/
def Seg (link : Option β → Option β) : Option β → List β → Prop
  | _, [] => True
  | a, x :: l => link a = some x ∧ Seg link (some x) l

/-- **The links lead from `a` over `l` to the end.** -/
def Path (link : Option β → Option β) : Option β → List β → Prop
  | a, [] => link a = none
  | a, x :: l => link a = some x ∧ Path link (some x) l

/-- **The list of the head.** -/
structure Listed (link : Option β → Option β) (l : List β) : Prop where
  path : Path link none l
  nodup : l.Nodup

theorem stop_append : stop a (l ++ r) = stop (stop a l) r := by
  induction l generalizing a with
  | nil => rfl
  | cons y l ih => exact ih

theorem stop_mem (a : Option β) (l : List β) : stop a l = a ∨ ∃ y ∈ l, stop a l = some y := by
  induction l generalizing a with
  | nil => exact .inl rfl
  | cons y l ih =>
    right
    rcases ih (some y) with same | ⟨z, member, same⟩
    · exact ⟨y, List.mem_cons_self, same⟩
    · exact ⟨z, List.mem_cons_of_mem y member, same⟩

theorem path_append : Path link a (l ++ r) ↔ Seg link a l ∧ Path link (stop a l) r := by
  induction l generalizing a with
  | nil => exact ⟨fun path => ⟨trivial, path⟩, And.right⟩
  | cons y l ih => simp only [List.cons_append, Path, Seg, stop, ih, and_assoc]

/-- A path depends only on the links along it, and not on which node its first link is of. -/
theorem Path.congr (path : Path link a l) (first : link' c = link a)
    (same : ∀ y ∈ l, link' (some y) = link (some y)) : Path link' c l := by
  induction l generalizing a c with
  | nil => exact first.trans path
  | cons y l ih =>
    exact ⟨first.trans path.1, ih path.2 (same y List.mem_cons_self)
      fun z member => same z (List.mem_cons_of_mem y member)⟩

/-- A segment does not depend on the link of its last node. -/
theorem Seg.congr (seg : Seg link a l) (nodup : l.Nodup) (apart : ∀ y ∈ l, a ≠ some y)
    (same : ∀ node, node = a ∨ (∃ y ∈ l, node = some y) → node ≠ stop a l →
      link' node = link node) : Seg link' a l := by
  induction l generalizing a with
  | nil => trivial
  | cons y l ih =>
    obtain ⟨fresh, nodup⟩ := List.nodup_cons.mp nodup
    refine ⟨(same a (.inl rfl) ?_).trans seg.1, ih seg.2 nodup ?_ ?_⟩
    · rcases stop_mem (some y) l with last | ⟨z, member, last⟩
      · rw [stop, last]
        exact apart y List.mem_cons_self
      · rw [stop, last]
        exact apart z (List.mem_cons_of_mem y member)
    · rintro z member ⟨⟩
      exact fresh member
    · rintro node (rfl | ⟨z, member, rfl⟩) before
      · exact same _ (.inr ⟨y, List.mem_cons_self, rfl⟩) before
      · exact same _ (.inr ⟨z, List.mem_cons_of_mem y member, rfl⟩) before

/-- **Only the links of the head and of the elements matter.** -/
theorem Listed.congr (listed : Listed link l) (first : link' none = link none)
    (same : ∀ y ∈ l, link' (some y) = link (some y)) : Listed link' l :=
  ⟨listed.path.congr first same, listed.nodup⟩

theorem Listed.head (listed : Listed link l) : link none = l.head? := by
  cases l with
  | nil => exact listed.path
  | cons x l => exact listed.path.1

/-- The link of the node before a position. -/
theorem Listed.link_stop (listed : Listed link (l ++ r)) : link (stop none l) = r.head? := by
  obtain ⟨-, path⟩ := path_append.mp listed.path
  cases r with
  | nil => exact path
  | cons x r => exact path.1

/-- The link of an element. -/
theorem Listed.link_of_mem (listed : Listed link (l ++ x :: r)) : link (some x) = r.head? := by
  have split : Listed link (l ++ [x] ++ r) := by simpa using listed
  have link := split.link_stop
  rwa [stop_append] at link

/-- What is behind a position is not the node before it. -/
theorem Listed.ne_stop (listed : Listed link (l ++ r)) {y : β} (member : y ∈ r) :
    some y ≠ stop none l := by
  rcases stop_mem none l with last | ⟨z, before, last⟩
  · rw [last]
    simp
  · rw [last]
    rintro ⟨⟩
    exact (List.nodup_append.mp listed.nodup).2.2 y before y member rfl

section Surgery

variable [DecidableEq β]

/-- Changing the link of the node before a position keeps the way to it. -/
theorem Listed.seg_update (listed : Listed link (l ++ r)) (c : Option β) :
    Seg (Function.update link (stop none l) c) none l := by
  obtain ⟨seg, -⟩ := path_append.mp listed.path
  refine seg.congr (List.nodup_append.mp listed.nodup).1 (by simp) fun node _ before => ?_
  exact Function.update_of_ne before ..

/-- **An element taken out.** -/
theorem Listed.unlink (listed : Listed link (l ++ x :: r)) :
    Listed (Function.update link (stop none l) (link (some x))) (l ++ r) := by
  obtain ⟨-, -, behind⟩ := path_append.mp listed.path
  have nodup : (l ++ r).Nodup := listed.nodup.sublist (by simp)
  refine ⟨path_append.mpr ⟨listed.seg_update _, ?_⟩, nodup⟩
  have apart : ∀ y ∈ r, some y ≠ stop none l :=
    fun y member => listed.ne_stop (List.mem_cons_of_mem x member)
  cases r with
  | nil => exact (Function.update_self ..).trans behind
  | cons y r =>
    refine ⟨(Function.update_self ..).trans behind.1, behind.2.congr ?_ fun z member => ?_⟩
    · exact Function.update_of_ne (apart y List.mem_cons_self) ..
    · exact Function.update_of_ne (apart z (List.mem_cons_of_mem y member)) ..

/-- **An element put in.** -/
theorem Listed.insert (listed : Listed link (l ++ r)) (fresh : x ∉ l ++ r)
    (next : link (some x) = link (stop none l)) :
    Listed (Function.update link (stop none l) (some x)) (l ++ x :: r) := by
  obtain ⟨-, behind⟩ := path_append.mp listed.path
  have nodup : (l ++ x :: r).Nodup := List.nodup_middle.mpr (List.nodup_cons.mpr ⟨fresh, listed.nodup⟩)
  refine ⟨path_append.mpr ⟨listed.seg_update _, Function.update_self .., ?_⟩, nodup⟩
  have other : some x ≠ stop none l := by
    rcases stop_mem none l with last | ⟨z, before, last⟩
    · simp [last]
    · rw [last]
      rintro ⟨⟩
      exact fresh (List.mem_append_left r before)
  have apart : ∀ y ∈ r, some y ≠ stop none l := fun y member => listed.ne_stop member
  cases r with
  | nil => exact (Function.update_of_ne other ..).trans (next.trans behind)
  | cons y r =>
    refine ⟨(Function.update_of_ne other ..).trans (next.trans behind.1), behind.2.congr ?_ ?_⟩
    · exact Function.update_of_ne (apart y List.mem_cons_self) ..
    · exact fun z member => Function.update_of_ne (apart z (List.mem_cons_of_mem y member)) ..

end Surgery

end SinglyLinked
