/-
**`LeitorRedator.c`: the readers and writers as threads.**

The shared state is the three mutexes `no_wait`, `no_acc`, `counter` (taken or free) and
`no_of_readers`. A mutex is the zero-initialised default one: `lock` waits while it is taken,
`trylock` never waits, `unlock` frees it whoever took it.

* `readerStep` — `reader`, with `check_and_wait` and `read` in line. The tests of `no_of_readers`
  come after `counter` is unlocked and are steps of their own (`testOne`, `testZero`).
* `writerStep` — `writer`, with `check_and_wait_if_busy` and `write` in line.
* `program`, `start` — any number of threads, each a reader or a writer for its whole life.
* `Reading`, `Writing` — the sections that exclude one another.
-/

import SistemasOperacionais.Runs.Threads

namespace LeitorRedator

open Threads

/-- The global variables: a mutex is `true` while it is taken. -/
structure Shared where
  noWait : Bool
  noAcc : Bool
  counter : Bool
  noOfReaders : ℤ
  deriving DecidableEq, Repr

/-- Where a reader is: the statement it executes next. -/
inductive ReaderAt
  | sleep
  /-- `check_and_wait`: `pthread_mutex_trylock(&no_wait)` -/
  | tryWait
  /-- `check_and_wait`: `pthread_mutex_lock(&no_wait)` -/
  | lockWait
  /-- `read`: `pthread_mutex_lock(&counter)` on the way in -/
  | lockCounterIn
  | increment
  | unlockCounterIn
  /-- `if(no_of_readers==1)`, after `counter` is unlocked -/
  | testOne
  | lockAcc
  | unlockWait
  | reading
  /-- `read`: `pthread_mutex_lock(&counter)` on the way out -/
  | lockCounterOut
  | decrement
  | unlockCounterOut
  /-- `if(no_of_readers==0)`, after `counter` is unlocked -/
  | testZero
  | unlockAcc
  deriving DecidableEq, Repr

/-- Where a writer is: the statement it executes next. -/
inductive WriterAt
  | sleep
  /-- `check_and_wait_if_busy`: `pthread_mutex_trylock(&no_wait)` -/
  | tryWait
  /-- `check_and_wait_if_busy`: `pthread_mutex_lock(&no_wait)` -/
  | lockWait
  | lockAcc
  | unlockWait
  | writing
  | unlockAcc
  deriving DecidableEq, Repr

inductive Place
  | reader (place : ReaderAt)
  | writer (place : WriterAt)
  deriving DecidableEq, Repr

/-- One step of `reader`. -/
def readerStep (s : Shared) : ReaderAt → Option (Shared × ReaderAt)
  | .sleep => some (s, .tryWait)
  | .tryWait =>
      if s.noWait then some (s, .lockWait) else some ({ s with noWait := true }, .lockCounterIn)
  | .lockWait => if s.noWait then none else some ({ s with noWait := true }, .lockCounterIn)
  | .lockCounterIn => if s.counter then none else some ({ s with counter := true }, .increment)
  | .increment => some ({ s with noOfReaders := s.noOfReaders + 1 }, .unlockCounterIn)
  | .unlockCounterIn => some ({ s with counter := false }, .testOne)
  | .testOne => if s.noOfReaders = 1 then some (s, .lockAcc) else some (s, .unlockWait)
  | .lockAcc => if s.noAcc then none else some ({ s with noAcc := true }, .unlockWait)
  | .unlockWait => some ({ s with noWait := false }, .reading)
  | .reading => some (s, .lockCounterOut)
  | .lockCounterOut => if s.counter then none else some ({ s with counter := true }, .decrement)
  | .decrement => some ({ s with noOfReaders := s.noOfReaders - 1 }, .unlockCounterOut)
  | .unlockCounterOut => some ({ s with counter := false }, .testZero)
  | .testZero => if s.noOfReaders = 0 then some (s, .unlockAcc) else some (s, .sleep)
  | .unlockAcc => some ({ s with noAcc := false }, .sleep)

/-- One step of `writer`. -/
def writerStep (s : Shared) : WriterAt → Option (Shared × WriterAt)
  | .sleep => some (s, .tryWait)
  | .tryWait =>
      if s.noWait then some (s, .lockWait) else some ({ s with noWait := true }, .lockAcc)
  | .lockWait => if s.noWait then none else some ({ s with noWait := true }, .lockAcc)
  | .lockAcc => if s.noAcc then none else some ({ s with noAcc := true }, .unlockWait)
  | .unlockWait => some ({ s with noWait := false }, .writing)
  | .writing => some (s, .unlockAcc)
  | .unlockAcc => some ({ s with noAcc := false }, .sleep)

/-- One step of a thread. -/
def program {ι : Type} : Program ι Shared Place
  | _, s, .reader place => (readerStep s place).map fun moved => (moved.1, .reader moved.2)
  | _, s, .writer place => (writerStep s place).map fun moved => (moved.1, .writer moved.2)

/-- What `main` starts a thread as. -/
inductive Role
  | reader
  | writer
  deriving DecidableEq, Repr

/-- All mutexes free, no reader counted, every thread before its first `sleep`. -/
def start {ι : Type} (role : ι → Role) : Config ι Shared Place where
  shared := ⟨false, false, false, 0⟩
  locals thread := match role thread with
    | .reader => .reader .sleep
    | .writer => .writer .sleep

/-- What a step does to `no_of_readers`: the increment and the decrement change it by one, every
other statement leaves it. -/
theorem noOfReaders_of_program {ι : Type} {thread : ι} {s shared : Shared} {old place : Place}
    (run : program thread s old = some (shared, place)) :
    shared.noOfReaders = s.noOfReaders + (if old = .reader .increment then 1 else 0) -
      (if old = .reader .decrement then 1 else 0) := by
  cases old with
  | reader statement =>
    obtain ⟨⟨shared', place'⟩, stepped, same⟩ := Option.map_eq_some_iff.mp run
    cases same
    cases statement <;> simp only [readerStep] at stepped <;> (try split at stepped) <;>
      cases stepped <;> simp
  | writer statement =>
    obtain ⟨⟨shared', place'⟩, stepped, same⟩ := Option.map_eq_some_iff.mp run
    cases same
    cases statement <;> simp only [writerStep] at stepped <;> (try split at stepped) <;>
      cases stepped <;> simp

/-- Only the decrement lowers `no_of_readers`. -/
theorem decrement_of_lowered {ι : Type} {thread : ι} {s shared : Shared} {old place : Place}
    (run : program thread s old = some (shared, place))
    (lowered : shared.noOfReaders < s.noOfReaders) : old = .reader .decrement := by
  by_contra other
  have change := noOfReaders_of_program run
  rw [if_neg other] at change
  split at change <;> omega

/-- Only the increment raises `no_of_readers`. -/
theorem increment_of_raised {ι : Type} {thread : ι} {s shared : Shared} {old place : Place}
    (run : program thread s old = some (shared, place))
    (raised : s.noOfReaders < shared.noOfReaders) : old = .reader .increment := by
  by_contra other
  have change := noOfReaders_of_program run
  rw [if_neg other] at change
  split at change <;> omega

/-! ### The sections -/

/-- `read` after its unlock of `no_wait` and before its decrement of `no_of_readers`. -/
def Place.reading : Place → Bool
  | .reader .reading | .reader .lockCounterOut | .reader .decrement => true
  | _ => false

/-- `write` between `lock(&no_acc)` and `unlock(&no_acc)`. -/
def Place.writing : Place → Bool
  | .writer .unlockWait | .writer .writing | .writer .unlockAcc => true
  | _ => false

/-- A reader between its increment of `no_of_readers` and its test of it. -/
def Place.arriving : Place → Bool
  | .reader .unlockCounterIn | .reader .testOne => true
  | _ => false

/-- A reader between its decrement of `no_of_readers` and its test of it. -/
def Place.leaving : Place → Bool
  | .reader .unlockCounterOut | .reader .testZero => true
  | _ => false

/-- **Exclusion**: no two writers write at once, and no writer writes while a reader reads. -/
def Exclusive {ι : Type} (config : Config ι Shared Place) : Prop :=
  (∀ first second, (config.locals first).writing = true → (config.locals second).writing = true →
    first = second) ∧
  ∀ writer reader, (config.locals writer).writing = true →
    (config.locals reader).reading = false

/-- **Deadlock**: there is a thread, and every thread waits for a mutex. -/
def Deadlock {ι : Type} (config : Config ι Shared Place) : Prop :=
  Nonempty ι ∧ ∀ thread, Blocked program config thread

end LeitorRedator
