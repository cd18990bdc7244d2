/-
**Threads over a shared state.**

A `Program` says what a thread does from the shared state and its own local state, one atomic step
at a time; `none` says that it is blocked. A `Config` is the shared state with every thread's local
state, and `step` lets one thread move. The interleavings are the runs of `step`.

* `step_eq_some` — the inversion of a step: the thread's own move, everything else unchanged.
* `owned_step` — facts that each thread states of the shared state and of its own place: a step has
  to re-establish the moving thread's and leave the others'.
* `update_none_some`, `update_some_none`, `update_some_of_ne` — the same for the threads of a system
  with one thread apart.
* `Locked` — the state of a binary semaphore and the threads behind it: `Locked.exclusive` is mutual
  exclusion, `Locked.update` says which steps keep it.
* `count P` — the number of threads at a place. Its only update rule is `count_update`: a step
  moves one thread, so the count changes by what that thread leaves and enters. Invariants that are
  equations between counts and shared variables are then linear arithmetic, one case per place.
* `one_le_count`, `exists_of_count_pos`, `eq_of_count_le_one`, `count_le_one` — from counts to threads
  and back.
-/

import SistemasOperacionais.Runs.Reach
import Mathlib.Data.Fintype.Card
import Mathlib.Data.Finset.Card

set_option linter.unusedSectionVars false

namespace Threads

variable {ι Shared Local : Type}

/-- What a thread does next; `none` when it is blocked. -/
abbrev Program (ι Shared Local : Type) := ι → Shared → Local → Option (Shared × Local)

/-- The shared state and every thread's local state. -/
@[ext]
structure Config (ι Shared Local : Type) where
  shared : Shared
  locals : ι → Local

variable [DecidableEq ι]

/-- **One step of one thread.** -/
def step (program : Program ι Shared Local) (config : Config ι Shared Local) (thread : ι) :
    Option (Config ι Shared Local) :=
  (program thread config.shared (config.locals thread)).map fun moved =>
    ⟨moved.1, Function.update config.locals thread moved.2⟩

/-- **The inversion of a step.** -/
theorem step_eq_some {program : Program ι Shared Local} {config after : Config ι Shared Local}
    {thread : ι} (moved : step program config thread = some after) :
    ∃ shared place, program thread config.shared (config.locals thread) = some (shared, place) ∧
      after = ⟨shared, Function.update config.locals thread place⟩ := by
  obtain ⟨⟨shared, place⟩, run, same⟩ := Option.map_eq_some_iff.mp moved
  exact ⟨shared, place, run, same.symm⟩

/-- **The rule of owned facts.** What every thread says of the shared state and of its own place is
kept by a step, if the moving thread re-establishes its own and disturbs nobody else's. -/
theorem owned_step {program : Program ι Shared Local} {config after : Config ι Shared Local}
    {thread : ι} (Own : ι → Shared → Local → Prop)
    (moved : step program config thread = some after)
    (self : ∀ shared place, program thread config.shared (config.locals thread) =
      some (shared, place) → Own thread shared place)
    (frame : ∀ shared place other, program thread config.shared (config.locals thread) =
      some (shared, place) → other ≠ thread → Own other shared (config.locals other)) :
    ∀ other, Own other after.shared (after.locals other) := by
  obtain ⟨shared, place, run, rfl⟩ := step_eq_some moved
  intro other
  show Own other shared (Function.update config.locals thread place other)
  by_cases same : other = thread
  · subst same
    rw [Function.update_self]
    exact self shared place run
  · rw [Function.update_of_ne same]
    exact frame shared place other run same

/-! ### One thread apart

The threads `some thread` beside one of another kind, `none`: whose place a move leaves alone. -/

theorem update_none_some (locals : Option ι → Local) (place : Local) (thread : ι) :
    Function.update locals none place (some thread) = locals (some thread) :=
  Function.update_of_ne (Option.some_ne_none thread) ..

theorem update_some_none (locals : Option ι → Local) (place : Local) (thread : ι) :
    Function.update locals (some thread) place none = locals none :=
  Function.update_of_ne (Option.some_ne_none thread).symm ..

theorem update_some_of_ne (locals : Option ι → Local) (place : Local) {thread other : ι}
    (different : other ≠ thread) :
    Function.update locals (some thread) place (some other) = locals (some other) :=
  Function.update_of_ne (fun same => different (Option.some.inj same)) ..

/-! ### A lock

The threads behind one binary semaphore, of any number. -/

/-- The semaphore is 1 and no thread is inside, or it is 0 and exactly one is. -/
def Locked (inside : ι → Local → Bool) (semaphore : ℕ) (locals : ι → Local) : Prop :=
  (semaphore = 1 ∧ ∀ thread, inside thread (locals thread) = false) ∨
    (semaphore = 0 ∧ ∃ holder, inside holder (locals holder) = true ∧
      ∀ thread, inside thread (locals thread) = true → thread = holder)

/-- **Mutual exclusion.** -/
theorem Locked.exclusive {inside : ι → Local → Bool} {semaphore : ℕ} {locals : ι → Local}
    (locked : Locked inside semaphore locals) {first second : ι}
    (here : inside first (locals first) = true) (there : inside second (locals second) = true) :
    first = second := by
  rcases locked with ⟨_, nobody⟩ | ⟨_, holder, _, only⟩
  · rw [nobody first] at here
    cases here
  · exact (only first here).trans (only second there).symm

/-- **A step keeps a lock** if what it takes from the semaphore is what it enters. -/
theorem Locked.update {inside : ι → Local → Bool} {semaphore after : ℕ} {locals : ι → Local}
    {thread : ι} {place : Local} (locked : Locked inside semaphore locals)
    (balance : after + (inside thread place).toNat =
      semaphore + (inside thread (locals thread)).toNat) :
    Locked inside after (Function.update locals thread place) := by
  have other : ∀ {t : ι}, t ≠ thread → Function.update locals thread place t = locals t :=
    fun different => Function.update_of_ne different ..
  have moved : Function.update locals thread place thread = place := Function.update_self ..
  have outside : (∀ t, t ≠ thread → inside t (locals t) = false) →
      after = 1 ∧ inside thread place = false ∨ after = 0 ∧ inside thread place = true →
      Locked inside after (Function.update locals thread place) := by
    rintro others (⟨free, left⟩ | ⟨taken, entered⟩)
    · refine .inl ⟨free, fun t => ?_⟩
      by_cases same : t = thread
      · rw [same, moved, left]
      · rw [other same, others t same]
    · refine .inr ⟨taken, thread, moved.symm ▸ entered, fun t here => ?_⟩
      by_contra different
      rw [other different, others t different] at here
      cases here
  rcases locked with ⟨free, nobody⟩ | ⟨taken, holder, held, only⟩
  · refine outside (fun t _ => nobody t) ?_
    rw [nobody thread, free] at balance
    cases entered : inside thread place <;> rw [entered] at balance
    · exact .inl ⟨balance, rfl⟩
    · exact .inr ⟨Nat.succ.inj balance, rfl⟩
  · have others : ∀ t, t ≠ holder → inside t (locals t) = false := fun t different =>
      Bool.eq_false_iff.mpr fun here => different (only t here)
    by_cases same : thread = holder
    · subst same
      refine outside others ?_
      rw [held, taken] at balance
      cases entered : inside thread place <;> rw [entered] at balance
      · exact .inl ⟨balance, rfl⟩
      · exact .inr ⟨Nat.succ.inj balance, rfl⟩
    · rw [others thread same, taken] at balance
      have stays : inside thread place = false := by
        cases entered : inside thread place
        · rfl
        · rw [entered] at balance
          exact absurd balance (Nat.succ_ne_zero _)
      rw [stays] at balance
      refine .inr ⟨balance, holder, ?_, fun t here => ?_⟩
      · rw [other (Ne.symm same)]
        exact held
      · by_contra different
        by_cases itself : t = thread
        · rw [itself, moved, stays] at here
          cases here
        · rw [other itself, others t different] at here
          cases here

/-! ### Blocked threads -/

/-- The thread cannot move. -/
def Blocked (program : Program ι Shared Local) (config : Config ι Shared Local) (thread : ι) :
    Prop :=
  program thread config.shared (config.locals thread) = none

instance (program : Program ι Shared Local) (config : Config ι Shared Local) (thread : ι) :
    Decidable (Blocked program config thread) :=
  decidable_of_iff ((program thread config.shared (config.locals thread)).isNone = true)
    Option.isNone_iff_eq_none

/-! ### Counting the threads at a place -/

section Count

variable [Fintype ι]

/-- The number of threads whose place satisfies `P`. -/
def count (P : ι → Local → Bool) (locals : ι → Local) : ℕ :=
  (Finset.univ.filter fun thread => P thread (locals thread) = true).card

/-- **A step changes a count by what the moving thread leaves and enters.** -/
theorem count_update (P : ι → Local → Bool) (locals : ι → Local) (thread : ι) (place : Local) :
    count P (Function.update locals thread place) + (P thread (locals thread)).toNat =
      count P locals + (P thread place).toNat := by
  have rest : ∀ moved : Local,
      count P (Function.update locals thread moved) =
        ((Finset.univ.erase thread).filter fun other => P other (locals other) = true).card +
          (P thread moved).toNat := by
    intro moved
    have split : (Finset.univ : Finset ι) = insert thread (Finset.univ.erase thread) :=
      (Finset.insert_erase (Finset.mem_univ thread)).symm
    have same : ((Finset.univ.erase thread).filter fun other =>
        P other (Function.update locals thread moved other) = true) =
          (Finset.univ.erase thread).filter fun other => P other (locals other) = true := by
      refine Finset.filter_congr fun other member => ?_
      rw [Function.update_of_ne (Finset.ne_of_mem_erase member)]
    unfold count
    conv_lhs => rw [split, Finset.filter_insert, Function.update_self, same]
    cases P thread moved with
    | false => simp
    | true =>
      rw [if_pos rfl, Finset.card_insert_of_notMem (by simp)]
      rfl
  have before := rest (locals thread)
  rw [Function.update_eq_self] at before
  rw [rest place, before]
  omega

theorem one_le_count {P : ι → Local → Bool} {locals : ι → Local} {thread : ι}
    (here : P thread (locals thread) = true) : 1 ≤ count P locals :=
  Finset.card_pos.mpr ⟨thread, Finset.mem_filter.mpr ⟨Finset.mem_univ _, here⟩⟩

theorem exists_of_count_pos {P : ι → Local → Bool} {locals : ι → Local} (some_ : 0 < count P locals) :
    ∃ thread, P thread (locals thread) = true := by
  obtain ⟨thread, member⟩ := Finset.card_pos.mp some_
  exact ⟨thread, (Finset.mem_filter.mp member).2⟩

/-- At most one thread is at a place that counts at most one. -/
theorem eq_of_count_le_one {P : ι → Local → Bool} {locals : ι → Local} {first second : ι}
    (single : count P locals ≤ 1) (here : P first (locals first) = true)
    (there : P second (locals second) = true) : first = second :=
  Finset.card_le_one.mp single first (Finset.mem_filter.mpr ⟨Finset.mem_univ _, here⟩) second
    (Finset.mem_filter.mpr ⟨Finset.mem_univ _, there⟩)

/-- The count of a place that at most one thread is at. -/
theorem count_le_one {P : ι → Local → Bool} {locals : ι → Local}
    (single : ∀ first second, P first (locals first) = true → P second (locals second) = true →
      first = second) : count P locals ≤ 1 :=
  Finset.card_le_one.mpr fun first here second there =>
    single first second (Finset.mem_filter.mp here).2 (Finset.mem_filter.mp there).2

/-- The count of a place nobody is at. -/
theorem count_eq_zero {P : ι → Local → Bool} {locals : ι → Local}
    (nobody : ∀ thread, P thread (locals thread) = false) : count P locals = 0 := by
  refine Finset.card_eq_zero.mpr (Finset.filter_eq_empty_iff.mpr fun thread _ => ?_)
  rw [nobody thread]
  exact Bool.false_ne_true

end Count

end Threads
