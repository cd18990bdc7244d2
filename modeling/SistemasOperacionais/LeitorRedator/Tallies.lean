/-
**`LeitorRedator.c`: the counting abstraction.**

Who holds what in `LeitorRedator.c` is a matter of how many threads are at which statement. The
abstraction keeps the shared variables and ten such numbers (`Tallies`), and says once what a step
can do to them (`Move`, one case per kind of statement).

* `step_move` — **the threads refine the abstraction**: every step of every thread is a `Move` of
  the tallies, for any number of readers and writers.
* `Accounts` — what every run keeps: `no_wait` and `counter` are taken exactly while one thread is
  between their lock and unlock, and `no_of_readers` is the number of readers between their
  increment and their decrement. `no_acc` has no such law: its account is what the races spoil.
-/

import SistemasOperacionais.LeitorRedator.Model

set_option linter.unusedSectionVars false

namespace LeitorRedator

open Threads Transition

/-! ### The places that matter -/

/-- A reader that holds `no_wait` and has not yet counted itself. -/
def Place.early : Place → Bool
  | .reader .lockCounterIn | .reader .increment => true
  | _ => false

/-- A reader about to lock `no_acc`. -/
def Place.atAcc : Place → Bool
  | .reader .lockAcc => true
  | _ => false

/-- A reader about to unlock `no_wait`. -/
def Place.passing : Place → Bool
  | .reader .unlockWait => true
  | _ => false

/-- A reader about to unlock `no_acc`. -/
def Place.closing : Place → Bool
  | .reader .unlockAcc => true
  | _ => false

/-- A writer that holds `no_wait`. -/
def Place.queued : Place → Bool
  | .writer .lockAcc | .writer .unlockWait => true
  | _ => false

/-- A reader that holds `counter`. -/
def Place.counting : Place → Bool
  | .reader .increment | .reader .unlockCounterIn | .reader .decrement
  | .reader .unlockCounterOut => true
  | _ => false

/-- **The counting abstraction**: the shared state and how many threads are at each place. -/
@[ext]
structure Tallies where
  shared : Shared
  early : ℕ
  arriving : ℕ
  atAcc : ℕ
  passing : ℕ
  reading : ℕ
  leaving : ℕ
  closing : ℕ
  queued : ℕ
  writing : ℕ
  counting : ℕ

variable {ι : Type} [Fintype ι] [DecidableEq ι]

/-- The tallies of a configuration. -/
def tallies (config : Config ι Shared Place) : Tallies where
  shared := config.shared
  early := count (fun _ => Place.early) config.locals
  arriving := count (fun _ => Place.arriving) config.locals
  atAcc := count (fun _ => Place.atAcc) config.locals
  passing := count (fun _ => Place.passing) config.locals
  reading := count (fun _ => Place.reading) config.locals
  leaving := count (fun _ => Place.leaving) config.locals
  closing := count (fun _ => Place.closing) config.locals
  queued := count (fun _ => Place.queued) config.locals
  writing := count (fun _ => Place.writing) config.locals
  counting := count (fun _ => Place.counting) config.locals

/-- **What one step of any thread does to the tallies.** -/
inductive Move (a : Tallies) : Tallies → Prop
  | silent : Move a a
  | readerWait : a.shared.noWait = false →
      Move a { a with shared.noWait := true, early := a.early + 1 }
  | lockCounter : a.shared.counter = false →
      Move a { a with shared.counter := true, counting := a.counting + 1 }
  | increment : 0 < a.early → Move a { a with
      shared.noOfReaders := a.shared.noOfReaders + 1, early := a.early - 1,
      arriving := a.arriving + 1 }
  | unlockCounter : 0 < a.counting →
      Move a { a with shared.counter := false, counting := a.counting - 1 }
  | testedOne : 0 < a.arriving → a.shared.noOfReaders = 1 →
      Move a { a with arriving := a.arriving - 1, atAcc := a.atAcc + 1 }
  | testedMore : 0 < a.arriving → a.shared.noOfReaders ≠ 1 →
      Move a { a with arriving := a.arriving - 1, passing := a.passing + 1 }
  | readerAcc : 0 < a.atAcc → a.shared.noAcc = false → Move a { a with
      shared.noAcc := true, atAcc := a.atAcc - 1, passing := a.passing + 1 }
  | readerPass : 0 < a.passing → Move a { a with
      shared.noWait := false, passing := a.passing - 1, reading := a.reading + 1 }
  | decrement : 0 < a.reading → Move a { a with
      shared.noOfReaders := a.shared.noOfReaders - 1, reading := a.reading - 1,
      leaving := a.leaving + 1 }
  | testedZero : 0 < a.leaving → a.shared.noOfReaders = 0 →
      Move a { a with leaving := a.leaving - 1, closing := a.closing + 1 }
  | testedSome : 0 < a.leaving → a.shared.noOfReaders ≠ 0 →
      Move a { a with leaving := a.leaving - 1 }
  | readerClose : 0 < a.closing →
      Move a { a with shared.noAcc := false, closing := a.closing - 1 }
  | writerWait : a.shared.noWait = false →
      Move a { a with shared.noWait := true, queued := a.queued + 1 }
  | writerAcc : 0 < a.queued → a.shared.noAcc = false →
      Move a { a with shared.noAcc := true, writing := a.writing + 1 }
  | writerPass : 0 < a.queued →
      Move a { a with shared.noWait := false, queued := a.queued - 1 }
  | writerClose : 0 < a.writing →
      Move a { a with shared.noAcc := false, writing := a.writing - 1 }

/-- The tallies after one thread goes from `old` to `new`. -/
def Tallies.shift (a : Tallies) (shared : Shared) (old new : Place) : Tallies where
  shared := shared
  early := a.early + new.early.toNat - old.early.toNat
  arriving := a.arriving + new.arriving.toNat - old.arriving.toNat
  atAcc := a.atAcc + new.atAcc.toNat - old.atAcc.toNat
  passing := a.passing + new.passing.toNat - old.passing.toNat
  reading := a.reading + new.reading.toNat - old.reading.toNat
  leaving := a.leaving + new.leaving.toNat - old.leaving.toNat
  closing := a.closing + new.closing.toNat - old.closing.toNat
  queued := a.queued + new.queued.toNat - old.queued.toNat
  writing := a.writing + new.writing.toNat - old.writing.toNat
  counting := a.counting + new.counting.toNat - old.counting.toNat

theorem tallies_update (config : Config ι Shared Place) (thread : ι) (shared : Shared)
    (place : Place) :
    tallies ⟨shared, Function.update config.locals thread place⟩ =
      (tallies config).shift shared (config.locals thread) place := by
  have each : ∀ P : Place → Bool,
      count (fun _ => P) (Function.update config.locals thread place) =
        count (fun _ => P) config.locals + (P place).toNat - (P (config.locals thread)).toNat :=
    fun P => Nat.eq_sub_of_add_eq (count_update (fun _ => P) config.locals thread place)
  ext : 1 <;> first | rfl | exact each _

/-- Somebody is at the place of a thread. -/
theorem tally_pos {config : Config ι Shared Place} {thread : ι} {place : Place}
    (here : config.locals thread = place) (P : Place → Bool) (holds : P place = true) :
    0 < count (fun _ => P) config.locals :=
  one_le_count (P := fun _ => P) (show P (config.locals thread) = true by rw [here]; exact holds)

/-- **The threads refine the counting abstraction.** -/
theorem step_move {config after : Config ι Shared Place} {thread : ι}
    (moved : step program config thread = some after) : Move (tallies config) (tallies after) := by
  obtain ⟨shared, place, run, rfl⟩ := step_eq_some moved
  rw [tallies_update]
  cases here : config.locals thread with
  | reader statement =>
    rw [here] at run
    obtain ⟨⟨shared', place'⟩, stepped, same⟩ := Option.map_eq_some_iff.mp run
    cases same
    cases statement with
    | sleep =>
      cases stepped
      exact .silent
    | tryWait =>
      simp only [readerStep] at stepped
      split at stepped <;> cases stepped
      · exact .silent
      · exact .readerWait (Bool.eq_false_of_not_eq_true ‹_›)
    | lockWait =>
      simp only [readerStep] at stepped
      split at stepped <;> cases stepped
      exact .readerWait (Bool.eq_false_of_not_eq_true ‹_›)
    | lockCounterIn =>
      simp only [readerStep] at stepped
      split at stepped <;> cases stepped
      exact .lockCounter (Bool.eq_false_of_not_eq_true ‹_›)
    | increment =>
      cases stepped
      exact .increment (tally_pos here _ rfl)
    | unlockCounterIn =>
      cases stepped
      exact .unlockCounter (tally_pos here _ rfl)
    | testOne =>
      simp only [readerStep] at stepped
      split at stepped <;> cases stepped
      · exact .testedOne (tally_pos here _ rfl) ‹_›
      · exact .testedMore (tally_pos here _ rfl) ‹_›
    | lockAcc =>
      simp only [readerStep] at stepped
      split at stepped <;> cases stepped
      exact .readerAcc (tally_pos here _ rfl) (Bool.eq_false_of_not_eq_true ‹_›)
    | unlockWait =>
      cases stepped
      exact .readerPass (tally_pos here _ rfl)
    | reading =>
      cases stepped
      exact .silent
    | lockCounterOut =>
      simp only [readerStep] at stepped
      split at stepped <;> cases stepped
      exact .lockCounter (Bool.eq_false_of_not_eq_true ‹_›)
    | decrement =>
      cases stepped
      exact .decrement (tally_pos here _ rfl)
    | unlockCounterOut =>
      cases stepped
      exact .unlockCounter (tally_pos here _ rfl)
    | testZero =>
      simp only [readerStep] at stepped
      split at stepped <;> cases stepped
      · exact .testedZero (tally_pos here _ rfl) ‹_›
      · exact .testedSome (tally_pos here _ rfl) ‹_›
    | unlockAcc =>
      cases stepped
      exact .readerClose (tally_pos here _ rfl)
  | writer statement =>
    rw [here] at run
    obtain ⟨⟨shared', place'⟩, stepped, same⟩ := Option.map_eq_some_iff.mp run
    cases same
    cases statement with
    | sleep =>
      cases stepped
      exact .silent
    | tryWait =>
      simp only [writerStep] at stepped
      split at stepped <;> cases stepped
      · exact .silent
      · exact .writerWait (Bool.eq_false_of_not_eq_true ‹_›)
    | lockWait =>
      simp only [writerStep] at stepped
      split at stepped <;> cases stepped
      exact .writerWait (Bool.eq_false_of_not_eq_true ‹_›)
    | lockAcc =>
      simp only [writerStep] at stepped
      split at stepped <;> cases stepped
      exact .writerAcc (tally_pos here _ rfl) (Bool.eq_false_of_not_eq_true ‹_›)
    | unlockWait =>
      cases stepped
      exact .writerPass (tally_pos here _ rfl)
    | writing =>
      cases stepped
      exact .silent
    | unlockAcc =>
      cases stepped
      exact .writerClose (tally_pos here _ rfl)

/-! ### What every run keeps -/

/-- **The mutexes `no_wait` and `counter` and the variable `no_of_readers` count their holders.** -/
structure Accounts (a : Tallies) : Prop where
  wait : a.early + a.arriving + a.atAcc + a.passing + a.queued = a.shared.noWait.toNat
  counter : a.counting = a.shared.counter.toNat
  readers : (a.arriving + a.atAcc + a.passing + a.reading : ℤ) = a.shared.noOfReaders

theorem Accounts.move {a b : Tallies} (accounts : Accounts a) (move : Move a b) : Accounts b := by
  obtain ⟨wait, counter, readers⟩ := accounts
  have waitBit := Bool.toNat_le a.shared.noWait
  have counterBit := Bool.toNat_le a.shared.counter
  cases move with
  | silent => exact ⟨wait, counter, readers⟩
  | readerWait free | writerWait free =>
    rw [free] at wait
    exact ⟨by simp at *; omega, counter, readers⟩
  | lockCounter free =>
    rw [free] at counter
    exact ⟨wait, by simp at *; omega, readers⟩
  | unlockCounter some =>
    exact ⟨wait, by simp; omega, readers⟩
  | readerPass some => exact ⟨by simp; omega, counter, by simp; omega⟩
  | writerPass some => exact ⟨by simp; omega, counter, readers⟩
  | increment some | testedOne some _ | testedMore some _ | readerAcc some _ =>
    exact ⟨by simp; omega, counter, by simp; omega⟩
  | decrement some => exact ⟨wait, counter, by simp; omega⟩
  | testedZero | testedSome | readerClose | writerAcc | writerClose => exact ⟨wait, counter, readers⟩

end LeitorRedator
