/-
**A scan that keeps the best element so far.**

The loop goes down a list with a candidate: an element that `fits` becomes the candidate if there is
none yet or if it `takes` the place of the one kept.

* `select` — the scan; the candidate at its end.
* `select_eq_none_iff` — there is none exactly if nothing fits.
* `select_eq_some` — **it fits, and nothing that fits ranks above it**, for any order that `takes`
  decides (`Ranks`). `select_first`: of equals it is the first one.
-/

import Mathlib.Data.List.Basic
import Mathlib.Data.List.Induction

namespace Select

variable {α : Type} (fits : α → Prop) [DecidablePred fits] (takes : α → α → Prop)
  [∀ x y, Decidable (takes x y)]

/-- One element of the scan. -/
def keep (kept : Option α) (x : α) : Option α :=
  if fits x ∧ ∀ y ∈ kept, takes x y then some x else kept

/-- **The scan.** -/
def select (l : List α) : Option α := l.foldl (keep fits takes) none

/-- `takes` decides the order `above`. -/
structure Ranks (above : α → α → Prop) : Prop where
  refl : ∀ x, above x x
  trans : ∀ x y z, above x y → above y z → above x z
  taken : ∀ x y, takes x y → above x y
  kept : ∀ x y, ¬ takes x y → above y x

variable {fits takes}

theorem select_concat (l : List α) (x : α) :
    select fits takes (l ++ [x]) = keep fits takes (select fits takes l) x := by
  unfold select
  rw [List.foldl_append]
  rfl

theorem select_eq_none_iff {l : List α} :
    select fits takes l = none ↔ ∀ x ∈ l, ¬ fits x := by
  induction l using List.reverseRecOn with
  | nil => exact ⟨fun _ x member => absurd member List.not_mem_nil, fun _ => rfl⟩
  | append_singleton l x ih =>
    rw [select_concat, keep]
    simp only [List.mem_append, List.mem_singleton, or_imp, forall_and, forall_eq, ← ih]
    split
    · rename_i fit
      exact ⟨nofun, fun none => absurd fit.1 none.2⟩
    · rename_i refused
      refine ⟨fun none => ⟨none, fun fit => refused ⟨fit, ?_⟩⟩, And.left⟩
      rw [none]
      exact nofun

/-- Only what fits matters. -/
theorem select_congr {fits' : α → Prop} [DecidablePred fits'] (same : ∀ x, fits x ↔ fits' x)
    {l : List α} : select fits takes l = select fits' takes l := by
  unfold select
  congr 1
  funext kept x
  unfold keep
  simp only [same x]

/-- **The candidate fits, and nothing that fits ranks above it.** -/
theorem select_eq_some {above : α → α → Prop} (ranks : Ranks takes above) {l : List α} {best : α}
    (selected : select fits takes l = some best) :
    best ∈ l ∧ fits best ∧ ∀ x ∈ l, fits x → above best x := by
  induction l using List.reverseRecOn generalizing best with
  | nil => cases selected
  | append_singleton l x ih =>
    rw [select_concat, keep] at selected
    split at selected
    · rename_i fit
      cases selected
      refine ⟨List.mem_append_right _ (List.mem_singleton_self _), fit.1, fun y member holds => ?_⟩
      rcases List.mem_append.mp member with earlier | last
      · -- the earlier one is below the candidate kept before
        cases before : select fits takes l with
        | none => exact absurd holds (select_eq_none_iff.mp before y earlier)
        | some z =>
          exact ranks.trans _ z _ (ranks.taken _ z (fit.2 z before)) ((ih before).2.2 y earlier holds)
      · rw [List.mem_singleton.mp last]
        exact ranks.refl _
    · rename_i refused
      obtain ⟨member, fit, above⟩ := ih selected
      refine ⟨List.mem_append_left _ member, fit, fun y member holds => ?_⟩
      rcases List.mem_append.mp member with earlier | last
      · exact above y earlier holds
      · rw [List.mem_singleton.mp last] at holds ⊢
        refine ranks.kept _ _ fun better => refused ⟨holds, fun z kept => ?_⟩
        rw [selected] at kept
        cases kept
        exact better

/-- If only what ranks strictly above is taken, **everything that fits before the candidate ranks
strictly below it**: of equals it is the first. -/
theorem select_first {above : α → α → Prop} (ranks : Ranks takes above)
    (strict : ∀ x y z, takes x y → above y z → takes x z) {l : List α} {best : α}
    (selected : select fits takes l = some best) :
    ∃ before behind, l = before ++ best :: behind ∧ ∀ x ∈ before, fits x → takes best x := by
  induction l using List.reverseRecOn generalizing best with
  | nil => cases selected
  | append_singleton l x ih =>
    rw [select_concat, keep] at selected
    split at selected
    · rename_i fit
      cases selected
      refine ⟨l, [], rfl, fun y member holds => ?_⟩
      cases kept : select fits takes l with
      | none => exact absurd holds (select_eq_none_iff.mp kept y member)
      | some z => exact strict x z y (fit.2 z kept) ((select_eq_some ranks kept).2.2 y member holds)
    · obtain ⟨before, behind, split, first⟩ := ih selected
      exact ⟨before, behind ++ [x], by rw [split, List.append_assoc]; rfl, first⟩

end Select
