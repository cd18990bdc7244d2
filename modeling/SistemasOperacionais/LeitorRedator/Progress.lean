/-
**`LeitorRedator.c`: the readers and writers can lock one another out.**

A reader tests `no_of_readers` after it has unlocked `counter`, so it may test a value another
reader has changed. Two changes are fatal. A reader that arrives second and tests one, because the
first has left in between, waits for `no_acc`, which the first reader has left locked. A reader that
leaves last and tests one, because another has arrived in between, does not unlock `no_acc`, and the
arriving one waits for it. In both cases the waiting reader holds `no_wait`, so nobody else enters.

* `deadlock_reachable` — the first run, with two readers and a writer.
* `Orderly` — the condition: no decrement from two to one while a reader is between its increment
  and its test, and no increment from zero to one while a reader is between its decrement and its
  test.
* `Released` — under it, whenever `no_acc` is taken somebody who can move will unlock it.
* `no_deadlock_of_orderly` — **no run of steps that meet the condition reaches a deadlock**, for any
  number of readers and writers.
-/

import SistemasOperacionais.LeitorRedator.Exclusion

set_option linter.unusedSectionVars false

namespace LeitorRedator

open Threads Transition

variable {ι : Type} [Fintype ι] [DecidableEq ι]

/-! ### Where a thread can wait -/

/-- The thread waits for the mutex its next statement locks. -/
def Place.waits (s : Shared) : Place → Bool
  | .reader .lockWait | .writer .lockWait => s.noWait
  | .reader .lockCounterIn | .reader .lockCounterOut => s.counter
  | .reader .lockAcc | .writer .lockAcc => s.noAcc
  | _ => false

/-- **A thread is blocked exactly when it waits for a taken mutex.** -/
theorem blocked_iff_waits (config : Config ι Shared Place) (thread : ι) :
    Blocked program config thread ↔ (config.locals thread).waits config.shared = true := by
  unfold Blocked
  cases config.locals thread with
  | reader statement =>
    cases statement <;> simp only [program, readerStep, Place.waits, Option.map_eq_none_iff] <;>
      (try split) <;> simp_all
  | writer statement =>
    cases statement <;> simp only [program, writerStep, Place.waits, Option.map_eq_none_iff] <;>
      (try split) <;> simp_all

/-! ### The condition -/

/-- **The condition on a step**: a reader that takes `no_of_readers` from two to one does so while
no reader is between its increment and its test, and a reader that takes it from zero to one does so
while no reader is between its decrement and its test. -/
def Orderly (config : Config ι Shared Place) (thread : ι) : Prop :=
  (config.locals thread = .reader .decrement → config.shared.noOfReaders = 2 →
    ∀ other, (config.locals other).arriving = false) ∧
  (config.locals thread = .reader .increment → config.shared.noOfReaders = 0 →
    ∀ other, (config.locals other).leaving = false)

instance (config : Config ι Shared Place) (thread : ι) : Decidable (Orderly config thread) :=
  inferInstanceAs (Decidable ((_ → _ → ∀ _, _) ∧ (_ → _ → ∀ _, _)))

/-- The condition in the tallies. -/
def Tidy (a b : Tallies) : Prop :=
  (b.shared.noOfReaders < a.shared.noOfReaders → a.shared.noOfReaders = 2 → a.arriving = 0) ∧
  (a.shared.noOfReaders < b.shared.noOfReaders → a.shared.noOfReaders = 0 → a.leaving = 0)

theorem tidy_of_orderly {config after : Config ι Shared Place} {thread : ι}
    (orderly : Orderly config thread) (moved : step program config thread = some after) :
    Tidy (tallies config) (tallies after) := by
  obtain ⟨shared, place, run, rfl⟩ := step_eq_some moved
  refine ⟨fun lowered two => ?_, fun raised zero => ?_⟩
  · exact count_eq_zero fun other => orderly.1 (decrement_of_lowered run lowered) two other
  · exact count_eq_zero fun other => orderly.2 (increment_of_raised run raised) zero other

/-- **Somebody will unlock `no_acc`**: while it is taken a writer writes, or a reader is inside, or
the last reader has yet to test, or it has tested zero. A reader that waits for `no_acc` has nobody
inside before it. -/
structure Released (a : Tallies) : Prop where
  taken : 1 ≤ a.shared.noAcc.toNat → 0 < a.writing + a.passing + a.reading + a.closing ∨
    a.shared.noOfReaders = 0 ∧ 0 < a.leaving
  first : 0 < a.atAcc → a.passing + a.reading = 0

theorem Released.move {a b : Tallies} (accounts : Accounts a) (released : Released a)
    (tidy : Tidy a b) (move : Move a b) : Released b := by
  obtain ⟨wait, -, readers⟩ := accounts
  obtain ⟨taken, first⟩ := released
  have waitBit := Bool.toNat_le a.shared.noWait
  unfold Tidy at tidy
  cases move with
  | silent | readerWait _ | lockCounter _ | unlockCounter _ | writerWait _ | writerPass _ =>
    exact ⟨taken, first⟩
  | increment some =>
    simp only at tidy
    exact ⟨by dsimp only; omega, first⟩
  | testedOne some one => exact ⟨taken, by dsimp only; omega⟩
  | testedMore some more => exact ⟨by dsimp only; omega, by dsimp only; omega⟩
  | readerAcc some free => exact ⟨by dsimp only; omega, by dsimp only; omega⟩
  | readerPass some => exact ⟨by dsimp only; omega, by dsimp only; omega⟩
  | decrement some =>
    -- if nobody else is inside, the one reader still counted is arriving, and the condition says
    -- that it has tested; it then waits for `no_acc` behind the reader that leaves
    simp only at tidy
    exact ⟨by dsimp only; omega, by dsimp only; omega⟩
  | testedZero some zero => exact ⟨by dsimp only; omega, first⟩
  | testedSome some more => exact ⟨by dsimp only; omega, first⟩
  | readerClose some | writerClose some => exact ⟨by simp, first⟩
  | writerAcc some free => exact ⟨by dsimp only; omega, first⟩

/-! ### No deadlock -/

/-- In a state where everybody waits, nobody is at a place where no thread waits. -/
theorem nobody_of_all_wait {config : Config ι Shared Place}
    (stuck : ∀ thread, (config.locals thread).waits config.shared = true) {P : Place → Bool}
    (never : ∀ place, P place = true → place.waits config.shared = false) :
    count (fun _ => P) config.locals = 0 := by
  refine count_eq_zero fun thread => ?_
  by_contra here
  have free := never _ (Bool.eq_true_of_not_eq_false here)
  rw [stuck thread] at free
  cases free

/-- A thread that has `no_acc` to release, or to hand on. -/
def Place.releases (place : Place) : Bool :=
  place.writing || place.passing || place.reading || place.closing || place.leaving

theorem not_waits_of_releases {s : Shared} (free : s.counter = false) {place : Place}
    (releases : place.releases = true) : place.waits s = false := by
  cases place <;> rename_i statement <;> cases statement <;>
    first | rfl | exact free | cases releases

/-- **With the accounts kept and `no_acc` always to be released, not everybody waits.** -/
theorem not_deadlock {config : Config ι Shared Place} (accounts : Accounts (tallies config))
    (released : Released (tallies config)) : ¬ Deadlock config := by
  rintro ⟨⟨someone⟩, blocked⟩
  have stuck := fun thread => (blocked_iff_waits config thread).mp (blocked thread)
  obtain ⟨wait, counter, -⟩ := accounts
  have counterFree : config.shared.counter = false := by
    have nobody : (tallies config).counting = 0 := nobody_of_all_wait stuck fun place here => by
      cases place <;> rename_i statement <;> cases statement <;> first | rfl | cases here
    rw [nobody] at counter
    cases value : config.shared.counter with
    | false => rfl
    | true =>
      change 0 = config.shared.counter.toNat at counter
      rw [value] at counter
      cases counter
  have atDoor : config.shared.noAcc = true := by
    by_contra accFree
    have accFree := Bool.eq_false_of_not_eq_true accFree
    -- with `counter` and `no_acc` free everybody waits for `no_wait`, and nobody holds it
    have door : ∀ thread, config.locals thread = .reader .lockWait ∨
        config.locals thread = .writer .lockWait := by
      intro thread
      have waits := stuck thread
      cases place : config.locals thread <;> rename_i statement <;> cases statement <;>
        rw [place] at waits <;> simp_all [Place.waits]
    have nobody : ∀ P : Place → Bool, P (.reader .lockWait) = false →
        P (.writer .lockWait) = false → count (fun _ => P) config.locals = 0 := by
      intro P readers writers
      refine count_eq_zero fun thread => ?_
      rcases door thread with here | here <;> rw [here] <;> assumption
    have held : config.shared.noWait.toNat = 0 := by
      change _ = config.shared.noWait.toNat at wait
      rw [← wait]
      simp only [tallies, nobody Place.early rfl rfl, nobody Place.arriving rfl rfl,
        nobody Place.atAcc rfl rfl, nobody Place.passing rfl rfl, nobody Place.queued rfl rfl]
    have waits := stuck someone
    have taken : config.shared.noWait = true := by
      rcases door someone with here | here <;> rw [here] at waits <;> exact waits
    rw [taken] at held
    cases held
  have nobody : ∀ P : Place → Bool, (∀ place, P place = true → place.releases = true) →
      count (fun _ => P) config.locals = 0 := fun P releases =>
    nobody_of_all_wait stuck fun place here =>
      not_waits_of_releases counterFree (releases place here)
  have writing : (tallies config).writing = 0 := nobody _ fun _ here => by simp [Place.releases, here]
  have passing : (tallies config).passing = 0 := nobody _ fun _ here => by simp [Place.releases, here]
  have reading : (tallies config).reading = 0 := nobody _ fun _ here => by simp [Place.releases, here]
  have closing : (tallies config).closing = 0 := nobody _ fun _ here => by simp [Place.releases, here]
  have leaving : (tallies config).leaving = 0 := nobody _ fun _ here => by simp [Place.releases, here]
  have taken : 1 ≤ (tallies config).shared.noAcc.toNat := by
    change 1 ≤ config.shared.noAcc.toNat
    rw [atDoor]
    exact le_rfl
  have := released.taken taken
  omega

/-- **Progress under the condition.** No run of steps that meet `Orderly` reaches a deadlock. -/
theorem no_deadlock_of_orderly (role : ι → Role) {config : Config ι Shared Place}
    (reach : Reach (step program) Orderly (start role) config) : ¬ Deadlock config := by
  have kept : Accounts (tallies config) ∧ Released (tallies config) := by
    refine reach.invariant (fun config => Accounts (tallies config) ∧
      Released (tallies config)) ?_ ?_
    · rw [tallies_start]
      exact ⟨⟨rfl, rfl, rfl⟩, ⟨by simp [start], by simp⟩⟩
    · rintro before thread after ⟨accounts, released⟩ orderly moved
      exact ⟨accounts.move (step_move moved),
        released.move accounts (tidy_of_orderly orderly moved) (step_move moved)⟩
  exact not_deadlock kept.1 kept.2

/-- Two readers and a writer. -/
def twoAndOne (thread : Fin 3) : Role := if thread.val < 2 then .reader else .writer

/-- One reader reads while the other reader and the writer are at the door. -/
theorem no_deadlock_of_orderly_read : ∃ config,
    Reach (step program) Orderly (start twoAndOne) config ∧
      (config.locals 0).reading = true ∧ ¬ Deadlock config := by
  have reach : Reach (step program) Orderly (start twoAndOne) _ :=
    reach_of_execute (List.replicate 8 0 ++ [1, 1, 2, 2]) .start rfl
  exact ⟨_, reach, rfl, no_deadlock_of_orderly twoAndOne reach⟩

/-- The first reader reads, the second counts itself; the first leaves, then the second tests one
and waits for `no_acc`; the first comes back and waits for `no_wait`, as does the writer. -/
def leaveBeforeTest : List (Fin 3) :=
  [0, 0, 0, 0, 0, 0, 0, 0] ++ [1, 1, 1, 1, 1] ++ [0, 0, 0, 0, 0] ++ [1] ++ [0, 0] ++ [2, 2]

/-- **A deadlock is reachable.** -/
theorem deadlock_reachable : ∃ config, Reachable (step program) (start twoAndOne) config ∧
    Deadlock config := by
  refine ⟨_, reach_of_execute leaveBeforeTest .start rfl, ⟨0⟩, ?_⟩
  decide

end LeitorRedator
