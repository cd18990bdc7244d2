/-
**Circular doubly linked lists with a head.**

The nodes are the head, `none`, and `some x` for an element `x`; `next` and `prev` are the link
fields of all nodes.

* `Seg links a l b` — from node `a` the links lead over the elements `l` to node `b`, and back.
* `Ring links l` — the list of the head: from it over `l` and back to it, no element twice.
* `Ring.unlink`, `Ring.pushFront` — the two surgeries, as the usual assignments.
* `seek` — the loop that follows a link field from a node until an element passes a test or the
  head is met; `Ring.seek_next`, `Ring.seek_prev` — it is `find?` on the list, or on its reverse.
-/

import Mathlib.Data.List.Basic
import Mathlib.Data.List.Nodup
import Mathlib.Logic.Function.Basic

set_option linter.unusedSectionVars false

namespace DoublyLinked

variable {β : Type} [DecidableEq β]

/-- The link fields of the nodes. -/
structure Links (β : Type) where
  next : Option β → Option β
  prev : Option β → Option β

/-- **The links lead from `a` over `l` to `b`, and back.** -/
def Seg (links : Links β) : Option β → List β → Option β → Prop
  | a, [], b => links.next a = b ∧ links.prev b = a
  | a, x :: l, b => (links.next a = some x ∧ links.prev (some x) = a) ∧ Seg links (some x) l b

/-- **The list of the head.** -/
structure Ring (links : Links β) (l : List β) : Prop where
  seg : Seg links none l none
  nodup : l.Nodup

section Segments

variable {links links' : Links β} {a b c : Option β} {l r : List β} {x : β}

theorem seg_append : Seg links a (l ++ x :: r) b ↔
    Seg links a l (some x) ∧ Seg links (some x) r b := by
  induction l generalizing a with
  | nil => exact Iff.rfl
  | cons y l ih => simp only [List.cons_append, Seg, ih, and_assoc]

/-- A segment depends only on the links along it. -/
theorem Seg.congr (seg : Seg links a l b) (first : links'.next a = links.next a)
    (nexts : ∀ y ∈ l, links'.next (some y) = links.next (some y))
    (prevs : ∀ y ∈ l, links'.prev (some y) = links.prev (some y))
    (last : links'.prev b = links.prev b) : Seg links' a l b := by
  induction l generalizing a with
  | nil => exact ⟨first.trans seg.1, last.trans seg.2⟩
  | cons y l ih =>
    obtain ⟨⟨step, back⟩, rest⟩ := seg
    refine ⟨⟨first.trans step, (prevs y List.mem_cons_self).trans back⟩, ih rest ?_ ?_ ?_⟩
    · exact nexts y List.mem_cons_self
    · exact fun z member => nexts z (List.mem_cons_of_mem y member)
    · exact fun z member => prevs z (List.mem_cons_of_mem y member)

/-- The node before the end is the first node, or an element. -/
theorem Seg.prev_mem (seg : Seg links a l b) : links.prev b = a ∨ ∃ y ∈ l, links.prev b = some y := by
  induction l generalizing a with
  | nil => exact .inl seg.2
  | cons y l ih =>
    rcases ih seg.2 with same | ⟨z, member, same⟩
    · exact .inr ⟨y, List.mem_cons_self, same⟩
    · exact .inr ⟨z, List.mem_cons_of_mem y member, same⟩

/-- **The end of a segment replaced**: the node before it is linked to another one. -/
theorem Seg.reroute (seg : Seg links a l (some x)) (nodup : l.Nodup) (start : ∀ y ∈ l, a ≠ some y)
    (stop : ∀ y ∈ l, c ≠ some y)
    (nexts : links'.next = Function.update links.next (links.prev (some x)) c)
    (prevs : links'.prev = Function.update links.prev c (links.prev (some x))) :
    Seg links' a l c := by
  induction l generalizing a with
  | nil =>
    obtain ⟨-, back⟩ := seg
    rw [back] at nexts prevs
    exact ⟨by rw [nexts, Function.update_self], by rw [prevs, Function.update_self]⟩
  | cons y l ih =>
    obtain ⟨⟨step, back⟩, rest⟩ := seg
    obtain ⟨absent, nodup⟩ := List.nodup_cons.mp nodup
    have later : links.prev (some x) ≠ a := by
      rcases rest.prev_mem with same | ⟨z, member, same⟩
      · rw [same]
        exact (start y List.mem_cons_self).symm
      · rw [same]
        exact (start z (List.mem_cons_of_mem y member)).symm
    refine ⟨⟨?_, ?_⟩, ih rest nodup ?_ ?_⟩
    · rw [nexts, Function.update_of_ne later.symm, step]
    · rw [prevs, Function.update_of_ne (stop y List.mem_cons_self).symm, back]
    · exact fun z member same => absent (Option.some.inj same ▸ member)
    · exact fun z member => stop z (List.mem_cons_of_mem y member)

end Segments

/-! ### Surgery -/

/-- Take an element out: `x->next->prev = x->prev; x->prev->next = x->next`. -/
def unlink (links : Links β) (x : β) : Links β :=
  let prev := Function.update links.prev (links.next (some x)) (links.prev (some x))
  { prev := prev, next := Function.update links.next (prev (some x)) (links.next (some x)) }

/-- Put an element in behind the head: `x->next = head.next; x->prev = &head;
head.next->prev = x; head.next = x`. -/
def pushFront (links : Links β) (x : β) : Links β :=
  let next := Function.update links.next (some x) (links.next none)
  let prev := Function.update links.prev (some x) none
  { prev := Function.update prev (next none) (some x)
    next := Function.update next none (some x) }

/-- The element behind one that is on the list. -/
theorem Seg.next_ne {links : Links β} {r : List β} {x : β} {b : Option β}
    (seg : Seg links (some x) r b) (absent : x ∉ r) (other : b ≠ some x) :
    links.next (some x) ≠ some x := by
  cases r with
  | nil =>
    rw [seg.1]
    exact other
  | cons y r =>
    rw [seg.1.1]
    exact fun same => absent (Option.some.inj same ▸ List.mem_cons_self)

/-- **An element taken out.** -/
theorem Ring.unlink {links : Links β} {l r : List β} {x : β} (ring : Ring links (l ++ x :: r)) :
    Ring (unlink links x) (l ++ r) := by
  obtain ⟨left, right⟩ := seg_append.mp ring.seg
  obtain ⟨nodupLeft, nodupRight, apart⟩ := List.nodup_append.mp ring.nodup
  obtain ⟨absent, nodupRest⟩ := List.nodup_cons.mp nodupRight
  have nodup : (l ++ r).Nodup := List.nodup_append.mpr ⟨nodupLeft, nodupRest,
    fun y member z there => apart y member z (List.mem_cons_of_mem x there)⟩
  have other := right.next_ne absent (by simp)
  have own : (DoublyLinked.unlink links x).next =
      Function.update links.next (links.prev (some x)) (links.next (some x)) := by
    simp [DoublyLinked.unlink, Function.update_of_ne other.symm]
  have back : (DoublyLinked.unlink links x).prev =
      Function.update links.prev (links.next (some x)) (links.prev (some x)) := rfl
  have before := left.prev_mem
  refine ⟨?_, nodup⟩
  cases r with
  | nil =>
    rw [List.append_nil]
    exact left.reroute nodupLeft (by simp) (by simp) (right.1 ▸ own) (right.1 ▸ back)
  | cons y r =>
    obtain ⟨⟨step, -⟩, rest⟩ := right
    obtain ⟨absentRest, -⟩ := List.nodup_cons.mp nodupRest
    -- behind the new link nothing has changed
    have kept : ∀ z, z = y ∨ z ∈ r → links.prev (some x) ≠ some z := by
      intro z member same
      rcases before with first | ⟨w, there, first⟩
      · simp [first] at same
      · obtain rfl : w = z := Option.some.inj (first.symm.trans same)
        exact apart w there w (by simp [member]) rfl
    refine seg_append.mpr ⟨left.reroute nodupLeft (by simp) ?_ (step ▸ own) (step ▸ back),
      rest.congr ?_ ?_ ?_ ?_⟩
    · intro z member same
      exact apart z member y (by simp) (Option.some.inj same).symm
    · rw [own, Function.update_of_ne (kept y (.inl rfl)).symm]
    · intro z member
      rw [own, Function.update_of_ne (kept z (.inr member)).symm]
    · intro z member
      rw [back, step, Function.update_of_ne]
      exact fun same => absentRest (Option.some.inj same ▸ member)
    · rw [back, step, Function.update_of_ne (by simp)]

/-- **An element put in at the front.** -/
theorem Ring.pushFront {links : Links β} {l : List β} {x : β} (ring : Ring links l)
    (absent : x ∉ l) : Ring (pushFront links x) (x :: l) := by
  refine ⟨⟨⟨?_, ?_⟩, ?_⟩, List.nodup_cons.mpr ⟨absent, ring.nodup⟩⟩
  · simp [DoublyLinked.pushFront]
  · cases l with
    | nil => simp [DoublyLinked.pushFront, ring.seg.1]
    | cons y l =>
      have different : x ≠ y := fun same => absent (same ▸ List.mem_cons_self)
      simp [DoublyLinked.pushFront, ring.seg.1.1, different]
  · cases l with
    | nil => simp [Seg, DoublyLinked.pushFront, ring.seg.1]
    | cons y l =>
      obtain ⟨⟨step, -⟩, rest⟩ := ring.seg
      have different : x ≠ y := fun same => absent (same ▸ List.mem_cons_self)
      obtain ⟨absentRest, -⟩ := List.nodup_cons.mp ring.nodup
      refine ⟨⟨?_, ?_⟩, rest.congr ?_ ?_ ?_ ?_⟩
      · simp [DoublyLinked.pushFront, step]
      · simp [DoublyLinked.pushFront, step]
      · simp [DoublyLinked.pushFront, different.symm]
      · intro z member
        have apart : z ≠ x := fun same => absent (same ▸ List.mem_cons_of_mem y member)
        simp [DoublyLinked.pushFront, apart]
      · intro z member
        have apart : z ≠ x := fun same => absent (same ▸ List.mem_cons_of_mem y member)
        have later : z ≠ y := fun same => absentRest (same ▸ member)
        simp [DoublyLinked.pushFront, step, apart, later]
      · simp [DoublyLinked.pushFront, step]

/-- The empty list. -/
theorem ring_nil {links : Links β} (next : links.next none = none) (prev : links.prev none = none) :
    Ring links [] :=
  ⟨⟨next, prev⟩, List.nodup_nil⟩

/-! ### Searching -/

/-- Follow a link field until an element passes the test; `none` when the head is met. -/
def seek (step : Option β → Option β) (test : β → Bool) : ℕ → Option β → Option β
  | 0, _ => none
  | _ + 1, none => none
  | fuel + 1, some x => if test x then some x else seek step test fuel (step (some x))

theorem Seg.seek {links : Links β} {a : Option β} {l : List β} (seg : Seg links a l none)
    (test : β → Bool) {fuel : ℕ} (enough : l.length < fuel) :
    seek links.next test fuel (links.next a) = l.find? test := by
  induction l generalizing a fuel with
  | nil =>
    obtain ⟨fuel, rfl⟩ := Nat.exists_eq_add_of_lt enough
    rw [seg.1]
    rfl
  | cons x l ih =>
    obtain ⟨⟨step, -⟩, rest⟩ := seg
    obtain ⟨fuel, rfl⟩ : ∃ more, fuel = more + 1 := ⟨fuel - 1, by omega⟩
    have short : l.length < fuel := by simpa using enough
    rw [step, DoublyLinked.seek, List.find?_cons]
    cases test x with
    | true => rfl
    | false => exact ih rest short

/-- The links read backwards. -/
def Links.flip (links : Links β) : Links β := ⟨links.prev, links.next⟩

theorem Seg.flip {links : Links β} {a b : Option β} {l : List β} (seg : Seg links a l b) :
    Seg links.flip b l.reverse a := by
  induction l generalizing a with
  | nil => exact ⟨seg.2, seg.1⟩
  | cons x l ih =>
    rw [List.reverse_cons]
    exact seg_append.mpr ⟨ih seg.2, seg.1.2, seg.1.1⟩

/-- **Following `next` from the head searches the list.** -/
theorem Ring.seek_next {links : Links β} {l : List β} (ring : Ring links l) (test : β → Bool)
    {fuel : ℕ} (enough : l.length < fuel) :
    seek links.next test fuel (links.next none) = l.find? test :=
  ring.seg.seek test enough

/-- **Following `prev` from the head searches it from its end.** -/
theorem Ring.seek_prev {links : Links β} {l : List β} (ring : Ring links l) (test : β → Bool)
    {fuel : ℕ} (enough : l.length < fuel) :
    seek links.prev test fuel (links.prev none) = l.reverse.find? test :=
  ring.seg.flip.seek test (by simpa using enough)

end DoublyLinked
