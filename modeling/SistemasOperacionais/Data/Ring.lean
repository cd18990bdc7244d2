/-
**A circular buffer.**

The `k`-th value ever pushed goes to slot `k % capacity`. `Holds capacity slots first last value`
says that the values pushed and not yet popped, those from position `first` up to `last`, are in
their slots.

* `Holds.push` — a push keeps the unread values, as long as there is room.
* `Holds.front`, `Holds.pop` — the next value popped is the oldest one.
-/

import Mathlib.Data.Nat.ModEq
import Mathlib.Logic.Function.Basic

namespace Ring

variable {α : Type} {capacity first last : ℕ} {slots : ℕ → α} {value : ℕ → α}

/-- **The values from position `first` up to `last` are in their slots.** -/
def Holds (capacity : ℕ) (slots : ℕ → α) (first last : ℕ) (value : ℕ → α) : Prop :=
  ∀ k, first ≤ k → k < last → slots (k % capacity) = value k

/-- Positions less than one revolution apart have different slots. -/
theorem slot_injective {j k : ℕ} (near : k < j + capacity) (order : j ≤ k)
    (same : j % capacity = k % capacity) : j = k := by
  obtain ⟨gap, rfl⟩ := Nat.exists_eq_add_of_le order
  have multiple : (j + 0) ≡ j + gap [MOD capacity] := same
  have zero : 0 = gap :=
    (Nat.ModEq.add_left_cancel' j multiple).eq_of_lt_of_lt (by omega) (by omega)
  omega

/-- **A push keeps the unread values.** -/
theorem Holds.push (holds : Holds capacity slots first last value)
    (room : last < first + capacity) :
    Holds capacity (Function.update slots (last % capacity) (value last)) first (last + 1)
      value := by
  intro k lower upper
  by_cases same : k % capacity = last % capacity
  · have newest : k = last := slot_injective (by omega) (by omega) same
    rw [newest, Function.update_self]
  · have older : k < last := by
      refine lt_of_le_of_ne (Nat.lt_succ_iff.mp upper) fun equal => ?_
      exact same (by rw [equal])
    rw [Function.update_of_ne same]
    exact holds k lower older

/-- The oldest value is in the slot of position `first`. -/
theorem Holds.front (holds : Holds capacity slots first last value) (stock : first < last) :
    slots (first % capacity) = value first :=
  holds first le_rfl stock

/-- **A pop keeps the other unread values.** -/
theorem Holds.pop (holds : Holds capacity slots first last value) :
    Holds capacity slots (first + 1) last value :=
  fun k lower upper => holds k (by omega) upper

end Ring
