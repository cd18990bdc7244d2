/-
**Searching around a ring.**

The indices `0, …, n-1` in a circle, and the loop that goes up from one of them, around the end,
until a test succeeds.

* `next`, `search` — one place on, and the loop, with a bound on its passes.
* `search_first` — **if the test succeeds anywhere, the loop that starts behind `i` ends within one
  round**, at the first place where it succeeds; `i` itself comes last.
* `search_sound` — where it ends, the test succeeds.
-/

import Mathlib.Data.Nat.Find
import Mathlib.Data.Nat.ModEq

namespace Cyclic

variable {p : ℕ → Bool} {n : ℕ}

/-- The place behind `i`. -/
def next (n i : ℕ) : ℕ := if i + 1 = n then 0 else i + 1

/-- The loop: the first place from `i` on where the test succeeds. -/
def search (p : ℕ → Bool) (n : ℕ) : ℕ → ℕ → Option ℕ
  | 0, _ => none
  | fuel + 1, i => if p i then some i else search p n fuel (next n i)

theorem next_eq_mod {i : ℕ} (inside : i < n) : next n i = (i + 1) % n := by
  unfold next
  split
  · rename_i last
    rw [last, Nat.mod_self]
  · exact (Nat.mod_eq_of_lt (by omega)).symm

theorem next_lt {i : ℕ} (inside : i < n) : next n i < n := by
  rw [next_eq_mod inside]
  exact Nat.mod_lt _ (Nat.zero_lt_of_lt inside)

theorem next_mod (positive : 0 < n) (i : ℕ) : next n (i % n) = (i + 1) % n := by
  rw [next_eq_mod (Nat.mod_lt i positive), Nat.mod_add_mod]

/-- Where the loop ends the test succeeds. -/
theorem search_sound {fuel i j : ℕ} (found : search p n fuel i = some j) : p j = true := by
  induction fuel generalizing i with
  | zero => cases found
  | succ fuel ih =>
    rw [search] at found
    split at found
    · cases found
      assumption
    · exact ih found

/-- The loop stays on the ring. -/
theorem search_lt {fuel i j : ℕ} (inside : i < n) (found : search p n fuel i = some j) : j < n := by
  induction fuel generalizing i with
  | zero => cases found
  | succ fuel ih =>
    rw [search] at found
    split at found
    · cases found
      exact inside
    · exact ih (next_lt inside) found

/-- The loop passes over the places where the test fails. -/
theorem search_skip (positive : 0 < n) {d : ℕ} : ∀ {i fuel : ℕ},
    (∀ k < d, p ((i + k) % n) = false) → p ((i + d) % n) = true → d < fuel →
      search p n fuel (i % n) = some ((i + d) % n) := by
  induction d with
  | zero =>
    intro i fuel _ hit enough
    obtain ⟨fuel, rfl⟩ : ∃ more, fuel = more + 1 := ⟨fuel - 1, by omega⟩
    rw [Nat.add_zero] at hit
    rw [search, if_pos hit, Nat.add_zero]
  | succ d ih =>
    intro i fuel miss hit enough
    obtain ⟨fuel, rfl⟩ : ∃ more, fuel = more + 1 := ⟨fuel - 1, by omega⟩
    have here : p (i % n) = false := miss 0 (Nat.succ_pos d)
    have shift : ∀ k, i + 1 + k = i + (k + 1) := fun k => by omega
    rw [search, here, if_neg Bool.false_ne_true, next_mod positive, ih ?_ ?_ (by omega), shift]
    · intro k less
      rw [shift]
      exact miss (k + 1) (by omega)
    · rw [shift]
      exact hit

/-- Every place is within one round of any other. -/
theorem exists_round {i j : ℕ} (inside : i < n) (there : j < n) :
    ∃ k, 1 ≤ k ∧ k ≤ n ∧ (i + k) % n = j := by
  by_cases behind : i < j
  · refine ⟨j - i, by omega, by omega, ?_⟩
    rw [Nat.add_sub_cancel' behind.le, Nat.mod_eq_of_lt there]
  · refine ⟨j + n - i, by omega, by omega, ?_⟩
    rw [Nat.add_sub_cancel' (by omega), Nat.add_mod_right, Nat.mod_eq_of_lt there]

/-- **The loop ends at the first place where the test succeeds.** -/
theorem search_first {i j : ℕ} (inside : i < n) (there : j < n) (succeeds : p j = true) :
    ∃ k, 1 ≤ k ∧ k ≤ n ∧ p ((i + k) % n) = true ∧
      (∀ m, 1 ≤ m → m < k → p ((i + m) % n) = false) ∧
        search p n n (next n i) = some ((i + k) % n) := by
  have positive : 0 < n := Nat.zero_lt_of_lt inside
  have somewhere : ∃ k, p ((i + 1 + k) % n) = true ∧ k < n := by
    obtain ⟨k, low, high, same⟩ := exists_round inside there
    refine ⟨k - 1, ?_, by omega⟩
    rw [show i + 1 + (k - 1) = i + k by omega, same]
    exact succeeds
  obtain ⟨hit, less⟩ := Nat.find_spec somewhere
  have miss : ∀ k < Nat.find somewhere, p ((i + 1 + k) % n) = false := by
    intro k earlier
    by_contra other
    exact Nat.find_min somewhere earlier ⟨Bool.eq_true_of_not_eq_false other, by omega⟩
  refine ⟨Nat.find somewhere + 1, by omega, by omega, ?_, ?_, ?_⟩
  · rw [← Nat.add_assoc, Nat.add_right_comm]
    exact hit
  · intro m low earlier
    have here := miss (m - 1) (by omega)
    rwa [show i + 1 + (m - 1) = i + m by omega] at here
  · rw [next_eq_mod inside, search_skip positive miss hit less]
    congr 2
    omega

end Cyclic
