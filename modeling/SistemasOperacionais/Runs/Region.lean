/-
**A region of addresses from which blocks are taken.**

The state is the set of free addresses. A block is taken at the lowest address at which it fits, or
refused if there is none; what is given back was not free.

* `fits` — the addresses at which a block of a size fits.
* `next` — the moves. `next_subset` — they stay below a limit, if what is given back does.
-/

import Mathlib.Order.Bounds.Basic
import Mathlib.Data.Set.BooleanAlgebra
import Mathlib.Order.CompletePartialOrder
import Mathlib.Order.Interval.Set.Basic

namespace Region

/-- The addresses of a block. -/
def span (base size : ℕ) : Set ℕ := Set.Ico base (base + size)

theorem mem_span {base size address : ℕ} :
    address ∈ span base size ↔ base ≤ address ∧ address < base + size := Iff.rfl

/-- The addresses at which a block fits. -/
def fits (free : Set ℕ) (size : ℕ) : Set ℕ := {base | base ∈ free ∧ span base size ⊆ free}

inductive Event
  | takes (size base : ℕ)
  | refused (size : ℕ)
  | gives (base size : ℕ)

open Classical in
/-- **The moves of the region.** -/
noncomputable def next (free : Set ℕ) : Event → Option (Set ℕ)
  | .takes size base =>
      if IsLeast (fits free size) base then some (free \ span base size) else none
  | .refused size => if fits free size = ∅ then some free else none
  | .gives base size =>
      if Disjoint free (span base size) then some (free ∪ span base size) else none

/-- What is given back ends at `limit` at most. -/
def Event.Below (limit : ℕ) : Event → Prop
  | .gives base size => base + size ≤ limit
  | _ => True

/-- **No address at or above a limit becomes free**, if none is given back. -/
theorem next_subset {free after : Set ℕ} {event : Event} {limit : ℕ} (below : event.Below limit)
    (inside : free ⊆ Set.Iio limit) (moved : next free event = some after) :
    after ⊆ Set.Iio limit := by
  cases event with
  | takes size base =>
    obtain ⟨-, ⟨⟩⟩ := Option.ite_none_right_eq_some.mp moved
    exact Set.sdiff_subset.trans inside
  | refused size =>
    obtain ⟨-, ⟨⟩⟩ := Option.ite_none_right_eq_some.mp moved
    exact inside
  | gives base size =>
    obtain ⟨-, ⟨⟩⟩ := Option.ite_none_right_eq_some.mp moved
    exact Set.union_subset inside fun address member =>
      Nat.lt_of_lt_of_le (mem_span.mp member).2 below

end Region
