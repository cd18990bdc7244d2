/-
**`LeitorRedator.c`: readers and writers do not always exclude one another.**

The reader that takes `no_of_readers` to zero must unlock `no_acc`, but it finds out by a test made
after `counter` is unlocked. Two readers that both decrement before either tests both see zero and
both unlock `no_acc`; the second unlock takes the mutex from whoever locked it in between.

* `exclusive_fails` — the run: two readers leave together, a writer enters after the first unlock,
  and a second writer after the other one.
* `LastAlone` — the condition: the decrement from one to zero is made only while no other reader is
  between its own decrement and its test.
* `Excluded` — the account of `no_acc` under that condition: it is taken while a writer writes,
  while a reader is inside, and until the one reader that saw zero has unlocked it.
* `exclusive_of_lastAlone` — **every state of every run of steps that meet the condition is
  exclusive**, for any number of readers and writers.
-/

import SistemasOperacionais.LeitorRedator.Tallies

set_option linter.unusedSectionVars false

namespace LeitorRedator

open Threads Transition

variable {ι : Type} [Fintype ι] [DecidableEq ι]

/-- **The condition on a step**: a reader that takes `no_of_readers` from one to zero does so while
no reader is between its own decrement and its test. -/
def LastAlone (config : Config ι Shared Place) (thread : ι) : Prop :=
  config.locals thread = .reader .decrement → config.shared.noOfReaders = 1 →
    ∀ other, (config.locals other).leaving = false

instance (config : Config ι Shared Place) (thread : ι) : Decidable (LastAlone config thread) :=
  inferInstanceAs (Decidable (_ → _ → ∀ _, _))

/-- **The account of `no_acc`.** -/
structure Excluded (a : Tallies) : Prop where
  writers : a.writing ≤ a.shared.noAcc.toNat
  inside : 0 < a.passing + a.reading → 1 ≤ a.shared.noAcc.toNat ∧ a.writing = 0
  last : a.shared.noOfReaders = 0 → 0 < a.leaving →
    1 ≤ a.shared.noAcc.toNat ∧ a.writing = 0 ∧ a.leaving = 1 ∧ a.closing = 0
  closing : 0 < a.closing →
    1 ≤ a.shared.noAcc.toNat ∧ a.writing = 0 ∧ a.closing = 1 ∧ a.leaving = 0 ∧
      a.passing + a.reading = 0

/-- The condition in the tallies: a move that takes `no_of_readers` from one to zero finds nobody
between decrement and test. -/
def Careful (a b : Tallies) : Prop :=
  a.shared.noOfReaders = 1 → b.shared.noOfReaders = 0 → a.leaving = 0

theorem Excluded.move {a b : Tallies} (accounts : Accounts a) (excluded : Excluded a)
    (careful : Careful a b) (move : Move a b) : Excluded b := by
  obtain ⟨wait, -, readers⟩ := accounts
  obtain ⟨writers, inside, last, closing⟩ := excluded
  have waitBit := Bool.toNat_le a.shared.noWait
  have accBit := Bool.toNat_le a.shared.noAcc
  cases move with
  | silent | readerWait _ | lockCounter _ | unlockCounter _ | writerWait _ | writerPass _ =>
    exact ⟨writers, inside, last, closing⟩
  | increment some => exact ⟨writers, inside, by simp; omega, closing⟩
  | testedOne some one => exact ⟨writers, inside, last, closing⟩
  | testedMore some more =>
    -- another reader is counted, and it is not the one arriving: it is already inside
    have other : 0 < a.passing + a.reading := by omega
    exact ⟨writers, by simp; omega, last, by simp; omega⟩
  | readerAcc some free =>
    have unlocked : a.shared.noAcc.toNat = 0 := by rw [free]; rfl
    exact ⟨by simp; omega, by simp; omega, by simp; omega, by simp; omega⟩
  | readerPass some => exact ⟨writers, by simp; omega, last, by simp; omega⟩
  | decrement some =>
    -- the leaving reader was inside, so nobody else is closing
    unfold Careful at careful
    simp only at careful
    exact ⟨writers, by simp; omega, by simp; omega, by simp; omega⟩
  | testedZero some zero => exact ⟨writers, inside, by simp; omega, by simp; omega⟩
  | testedSome some more => exact ⟨writers, inside, by simp; omega, by simp; omega⟩
  | readerClose some => exact ⟨by simp; omega, by simp; omega, by simp; omega, by simp; omega⟩
  | writerAcc some free =>
    have unlocked : a.shared.noAcc.toNat = 0 := by rw [free]; rfl
    exact ⟨by simp; omega, by simp; omega, by simp; omega, by simp; omega⟩
  | writerClose some => exact ⟨by simp; omega, by simp; omega, by simp; omega, by simp; omega⟩

/-- The condition on a step is the condition in the tallies. -/
theorem careful_of_lastAlone {config after : Config ι Shared Place} {thread : ι}
    (alone : LastAlone config thread) (moved : step program config thread = some after) :
    Careful (tallies config) (tallies after) := by
  intro one zero
  obtain ⟨shared, place, run, rfl⟩ := step_eq_some moved
  have lowered : shared.noOfReaders < config.shared.noOfReaders := by
    change config.shared.noOfReaders = 1 at one
    change shared.noOfReaders = 0 at zero
    omega
  exact count_eq_zero fun other => alone (decrement_of_lowered run lowered) one other

/-- In the initial state nobody is anywhere that matters. -/
theorem tallies_start (role : ι → Role) :
    tallies (start role) = ⟨(start role).shared, 0, 0, 0, 0, 0, 0, 0, 0, 0, 0⟩ := by
  have nobody : ∀ P : Place → Bool, P (.reader .sleep) = false → P (.writer .sleep) = false →
      count (fun _ => P) (start role).locals = 0 := by
    intro P readers writers
    refine count_eq_zero fun thread => ?_
    simp only [start]
    cases role thread
    · exact readers
    · exact writers
  ext : 1 <;> first | rfl | exact nobody _ rfl rfl

/-- **Exclusion under the condition.** Every state reached by steps that meet `LastAlone` is
exclusive. -/
theorem exclusive_of_lastAlone (role : ι → Role) {config : Config ι Shared Place}
    (reach : Reach (step program) LastAlone (start role) config) : Exclusive config := by
  have kept : Accounts (tallies config) ∧ Excluded (tallies config) := by
    refine reach.invariant (fun config => Accounts (tallies config) ∧
      Excluded (tallies config)) ?_ ?_
    · rw [tallies_start]
      exact ⟨⟨rfl, rfl, rfl⟩, ⟨le_rfl, by simp, by simp, by simp⟩⟩
    · rintro before thread after ⟨accounts, excluded⟩ alone moved
      exact ⟨accounts.move (step_move moved),
        excluded.move accounts (careful_of_lastAlone alone moved) (step_move moved)⟩
  obtain ⟨-, writers, inside, -, -⟩ := kept
  refine ⟨fun first second here there => ?_, fun writer reader here => ?_⟩
  · exact eq_of_count_le_one (writers.trans (Bool.toNat_le _)) here there
  · by_contra there
    have reads : 0 < (tallies config).reading :=
      one_le_count (P := fun _ => Place.reading) (Bool.eq_true_of_not_eq_false there)
    have writes : 0 < (tallies config).writing :=
      one_le_count (P := fun _ => Place.writing) here
    have := inside (by omega)
    omega

/-- Two readers and two writers. -/
def twoAndTwo (thread : Fin 4) : Role := if thread.val < 2 then .reader else .writer

/-- One reader reads alone and leaves, then a writer enters. -/
theorem exclusive_of_lastAlone_write : ∃ config,
    Reach (step program) LastAlone (start twoAndTwo) config ∧
      (config.locals 2).writing = true ∧ Exclusive config := by
  have reach : Reach (step program) LastAlone (start twoAndTwo) _ :=
    reach_of_execute (List.replicate 14 0 ++ List.replicate 4 2) .start rfl
  exact ⟨_, reach, rfl, exclusive_of_lastAlone twoAndTwo reach⟩

/-- Both readers read, both decrement before either tests; the first unlocks `no_acc`, a writer
enters, the second reader unlocks `no_acc` again, the other writer enters. -/
def doubleUnlock : List (Fin 4) :=
  [0, 0, 0, 0, 0, 0, 0, 0] ++ [1, 1, 1, 1, 1, 1, 1] ++ [0, 0, 0, 0] ++ [1, 1, 1, 1] ++ [0, 0] ++
    [2, 2, 2, 2] ++ [1, 1] ++ [3, 3, 3]

/-- **Exclusion fails**: two writers write at once. -/
theorem exclusive_fails : ∃ config, Reachable (step program) (start twoAndTwo) config ∧
    ¬ Exclusive config := by
  refine ⟨_, reach_of_execute doubleUnlock .start rfl, fun exclusive => ?_⟩
  have same : (2 : Fin 4) = 3 := exclusive.1 2 3 rfl rfl
  exact absurd same (by decide)

end LeitorRedator
