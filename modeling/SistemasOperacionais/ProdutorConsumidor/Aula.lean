/-
**`ProdutorConsumidorAula.c`: one producer, one consumer, a circular buffer.**

The producer and the consumer that `main` starts share `count`, `head`, `tail` and the buffer under
the semaphore `mutex`. A thread that finds the buffer full (empty) sets a one-shot flag, drops the
mutex and waits on its own semaphore; the other one signals only when `count` crosses exactly
`MAX_BUF-1` (`1`) with the flag set.

* `step` — one statement of either thread; `sem_change` with a negative amount is `none` while the
  semaphore is zero. The items written and printed are kept as a history.
* `Counts` — the account of the mutex, of `count`, and of the signals: a thread that waits is
  accounted for by its flag, by the other thread being about to signal, or by its semaphore.
* `Content` — the unread items are in their slots of the circular buffer.
* `buffer_sound` — **in every state of every interleaving `count` is right when the mutex is free,
  the items printed are `1, 2, 3, …` in the order written, every unread item is in its slot, and the
  two threads are not both blocked**.
-/

import SistemasOperacionais.Runs.Reach
import SistemasOperacionais.Data.Ring
import Mathlib.Data.List.Range

namespace ProdutorConsumidorAula

open Transition

/-! ### The program -/

/-- `MAX_BUF` -/
def maxBuf : ℕ := 10

/-- Where the producer is: the statement it executes next. -/
inductive ProducerAt
  /-- `sem_change(sem_ID, 0, -1)` at the top of the loop -/
  | lock
  /-- `if(count==MAX_BUF)` -/
  | test
  /-- `fflag=1` -/
  | raise
  /-- the `sem_change(sem_ID, 0, 1)` before it waits -/
  | release
  /-- `sem_change(sem_ID, 2, -1)` -/
  | wait
  /-- the `sem_change(sem_ID, 0, -1)` after it has waited -/
  | relock
  /-- `count++` -/
  | increment
  /-- `buffer[head]=item_id++` -/
  | write
  /-- `if(count==1 && eflag==1)` -/
  | check
  /-- `eflag=0` -/
  | clear
  /-- `sem_change(sem_ID, 1, 1)` -/
  | signal
  /-- `head=(head+1)%MAX_BUF`, after the `printf` -/
  | advance
  | unlock
  | sleep
  deriving DecidableEq, Repr

/-- Where the consumer is: the statement it executes next. -/
inductive ConsumerAt
  /-- `sem_change(sem_ID, 0, -1)` at the top of the loop -/
  | lock
  /-- `if(count==0)` -/
  | test
  /-- `eflag=1` -/
  | raise
  /-- the `sem_change(sem_ID, 0, 1)` before it waits -/
  | release
  /-- `sem_change(sem_ID, 1, -1)` -/
  | wait
  /-- the `sem_change(sem_ID, 0, -1)` after it has waited -/
  | relock
  /-- `count--` -/
  | decrement
  /-- `printf("consumed item:%d \n", buffer[tail])` -/
  | print
  /-- `tail=(tail+1)%MAX_BUF` -/
  | advance
  /-- `if(count==MAX_BUF-1 && fflag==1)` -/
  | check
  /-- `fflag=0` -/
  | clear
  /-- `sem_change(sem_ID, 2, 1)` -/
  | signal
  | unlock
  | sleep
  deriving DecidableEq, Repr

/-- The three semaphores, the global variables, the two threads and the history. -/
structure State where
  mutex : ℕ
  empty : ℕ
  full : ℕ
  buffer : ℕ → ℕ
  head : ℕ
  tail : ℕ
  itemId : ℕ
  count : ℤ
  fflag : ℕ
  eflag : ℕ
  producer : ProducerAt
  consumer : ConsumerAt
  /-- the items written to the buffer -/
  written : List ℕ
  /-- the items printed by the consumer -/
  printed : List ℕ

/-- What `main` starts: the semaphores are 1, 0, 0. -/
def start : State where
  mutex := 1
  empty := 0
  full := 0
  buffer := fun _ => 0
  head := 0
  tail := 0
  itemId := 1
  count := 0
  fflag := 0
  eflag := 0
  producer := .lock
  consumer := .lock
  written := []
  printed := []

/-- One step of `producer`. -/
def producer (s : State) : Option State :=
  match s.producer with
  | .lock => if s.mutex = 0 then none else some { s with mutex := s.mutex - 1, producer := .test }
  | .test => some { s with producer := if s.count = maxBuf then .raise else .increment }
  | .raise => some { s with fflag := 1, producer := .release }
  | .release => some { s with mutex := s.mutex + 1, producer := .wait }
  | .wait => if s.full = 0 then none else some { s with full := s.full - 1, producer := .relock }
  | .relock =>
      if s.mutex = 0 then none else some { s with mutex := s.mutex - 1, producer := .increment }
  | .increment => some { s with count := s.count + 1, producer := .write }
  | .write =>
      some { s with
        buffer := Function.update s.buffer s.head s.itemId
        itemId := s.itemId + 1
        written := s.written ++ [s.itemId]
        producer := .check }
  | .check =>
      some { s with producer := if s.count = 1 ∧ s.eflag = 1 then .clear else .advance }
  | .clear => some { s with eflag := 0, producer := .signal }
  | .signal => some { s with empty := s.empty + 1, producer := .advance }
  | .advance => some { s with head := (s.head + 1) % maxBuf, producer := .unlock }
  | .unlock => some { s with mutex := s.mutex + 1, producer := .sleep }
  | .sleep => some { s with producer := .lock }

/-- One step of `consumer`. -/
def consumer (s : State) : Option State :=
  match s.consumer with
  | .lock => if s.mutex = 0 then none else some { s with mutex := s.mutex - 1, consumer := .test }
  | .test => some { s with consumer := if s.count = 0 then .raise else .decrement }
  | .raise => some { s with eflag := 1, consumer := .release }
  | .release => some { s with mutex := s.mutex + 1, consumer := .wait }
  | .wait => if s.empty = 0 then none else some { s with empty := s.empty - 1, consumer := .relock }
  | .relock =>
      if s.mutex = 0 then none else some { s with mutex := s.mutex - 1, consumer := .decrement }
  | .decrement => some { s with count := s.count - 1, consumer := .print }
  | .print => some { s with printed := s.printed ++ [s.buffer s.tail], consumer := .advance }
  | .advance => some { s with tail := (s.tail + 1) % maxBuf, consumer := .check }
  | .check =>
      some { s with
        consumer := if s.count = (maxBuf : ℤ) - 1 ∧ s.fflag = 1 then .clear else .unlock }
  | .clear => some { s with fflag := 0, consumer := .signal }
  | .signal => some { s with full := s.full + 1, consumer := .unlock }
  | .unlock => some { s with mutex := s.mutex + 1, consumer := .sleep }
  | .sleep => some { s with consumer := .lock }

inductive Thread
  | producer
  | consumer
  deriving DecidableEq, Repr

/-- One step of a thread. -/
def step (s : State) : Thread → Option State
  | .producer => producer s
  | .consumer => consumer s

/-! ### What the buffer is for -/

/-- The first `n` items. -/
def items (n : ℕ) : List ℕ := (List.range n).map (· + 1)

/-- **The purpose of the buffer.** -/
structure Sound (s : State) : Prop where
  count : s.mutex ≠ 0 →
    0 ≤ s.count ∧ s.count ≤ maxBuf ∧ s.count = (s.written.length : ℤ) - s.printed.length
  written : s.written = items s.written.length
  printed : s.printed = items s.printed.length
  /-- nothing is printed before it is written -/
  order : s.printed <+: s.written
  /-- an item written and not yet printed is in its slot -/
  unread : ∀ k, s.printed.length ≤ k → k < s.written.length → s.buffer (k % maxBuf) = k + 1
  progress : ¬ (step s .producer = none ∧ step s .consumer = none)

/-! ### The places in numbers -/

/-- The producer holds the mutex. -/
def ProducerAt.inside : ProducerAt → ℕ
  | .lock | .wait | .relock | .sleep => 0
  | _ => 1

/-- The producer has counted an item that it has yet to write. -/
def ProducerAt.ahead : ProducerAt → ℕ
  | .write => 1
  | _ => 0

/-- The producer has written an item and has yet to move `head`. -/
def ProducerAt.behind : ProducerAt → ℕ
  | .check | .clear | .signal | .advance => 1
  | _ => 0

/-- The producer has set `fflag` and has yet to be woken. -/
def ProducerAt.waits : ProducerAt → ℕ
  | .release | .wait => 1
  | _ => 0

def ProducerAt.signals : ProducerAt → ℕ
  | .signal => 1
  | _ => 0

/-- The producer has written an item and has yet to look at `eflag`. -/
def ProducerAt.raised : ProducerAt → ℕ
  | .check | .clear => 1
  | _ => 0

/-- What the producer knows of the number of unread items and of `eflag` at its place. -/
def ProducerAt.Knows (unread eflag : ℕ) : ProducerAt → Prop
  | .raise => unread = maxBuf
  | .relock | .increment | .write => unread < maxBuf
  | .clear => eflag = 1
  | _ => True

/-- The consumer holds the mutex. -/
def ConsumerAt.inside : ConsumerAt → ℕ
  | .lock | .wait | .relock | .sleep => 0
  | _ => 1

/-- The consumer has discounted an item that it has yet to print. -/
def ConsumerAt.ahead : ConsumerAt → ℕ
  | .print => 1
  | _ => 0

/-- The consumer has printed an item and has yet to move `tail`. -/
def ConsumerAt.behind : ConsumerAt → ℕ
  | .advance => 1
  | _ => 0

/-- The consumer has set `eflag` and has yet to be woken. -/
def ConsumerAt.waits : ConsumerAt → ℕ
  | .release | .wait => 1
  | _ => 0

def ConsumerAt.signals : ConsumerAt → ℕ
  | .signal => 1
  | _ => 0

/-- The consumer has printed an item and has yet to look at `fflag`. -/
def ConsumerAt.lowered : ConsumerAt → ℕ
  | .advance | .check | .clear => 1
  | _ => 0

/-- What the consumer knows of the number of unread items and of `fflag` at its place. -/
def ConsumerAt.Knows (unread fflag : ℕ) : ConsumerAt → Prop
  | .raise => unread = 0
  | .relock | .decrement | .print => 0 < unread
  | .clear => fflag = 1
  | _ => True

/-! ### The account -/

/-- **The account of the mutex, of `count` and of the signals.** -/
structure Counts (s : State) : Prop where
  mutex : s.mutex + s.producer.inside + s.consumer.inside = 1
  least : s.printed.length ≤ s.written.length
  most : s.written.length ≤ s.printed.length + maxBuf
  count : s.count + s.printed.length + s.consumer.ahead = s.written.length + s.producer.ahead
  full : s.fflag + s.consumer.signals + s.full = s.producer.waits
  empty : s.eflag + s.producer.signals + s.empty = s.consumer.waits
  fflag : s.fflag = 1 → s.written.length + s.consumer.lowered = s.printed.length + maxBuf
  eflag : s.eflag = 1 → s.printed.length + s.producer.raised = s.written.length
  room : s.producer.waits = 1 → s.fflag = 0 → s.written.length < s.printed.length + maxBuf
  stock : s.consumer.waits = 1 → s.eflag = 0 → s.printed.length < s.written.length
  producer : s.producer.Knows (s.written.length - s.printed.length) s.eflag
  consumer : s.consumer.Knows (s.written.length - s.printed.length) s.fflag

/-- Outside the mutex a thread is in none of the windows. -/
theorem ProducerAt.outside (place : ProducerAt) : place.inside ≤ 1 ∧ place.ahead ≤ place.inside ∧
    place.signals ≤ place.inside ∧ place.raised ≤ place.inside := by
  cases place <;> decide

theorem ConsumerAt.outside (place : ConsumerAt) : place.inside ≤ 1 ∧ place.ahead ≤ place.inside ∧
    place.signals ≤ place.inside ∧ place.lowered ≤ place.inside := by
  cases place <;> decide

/-- What a consumer without the mutex knows survives a write. -/
theorem ConsumerAt.Knows.frame {place : ConsumerAt} {unread more fflag fflag' : ℕ}
    (knows : place.Knows unread fflag) (out : place.inside = 0) (grows : unread ≤ more) :
    place.Knows more fflag' := by
  cases place with
  | relock => exact lt_of_lt_of_le knows grows
  | lock | wait | sleep => trivial
  | _ => cases out

/-- What a producer without the mutex knows survives a read. -/
theorem ProducerAt.Knows.frame {place : ProducerAt} {unread fewer eflag eflag' : ℕ}
    (knows : place.Knows unread eflag) (out : place.inside = 0) (shrinks : fewer ≤ unread) :
    place.Knows fewer eflag' := by
  cases place with
  | relock => exact lt_of_le_of_lt shrinks knows
  | lock | wait | sleep => trivial
  | _ => cases out

theorem counts_start : Counts start := by
  constructor <;> simp [start, ProducerAt.inside, ConsumerAt.inside, ProducerAt.ahead,
    ConsumerAt.ahead, ProducerAt.waits, ConsumerAt.waits, ProducerAt.signals, ConsumerAt.signals,
    ProducerAt.Knows, ConsumerAt.Knows]

/-- A step of the producer that only takes or gives back the mutex or moves `head`. -/
theorem Counts.producer_move {s : State} (counts : Counts s) {mutex head : ℕ} {place : ProducerAt}
    (balance : mutex + place.inside = s.mutex + s.producer.inside)
    (same : place.ahead = s.producer.ahead ∧ place.waits = s.producer.waits ∧
      place.signals = s.producer.signals ∧ place.raised = s.producer.raised)
    (knows : place.Knows (s.written.length - s.printed.length) s.eflag) :
    Counts { s with mutex := mutex, head := head, producer := place } := by
  obtain ⟨ahead, waits, signals, raised⟩ := same
  refine ⟨?_, counts.least, counts.most, ahead ▸ counts.count, waits ▸ counts.full,
    signals ▸ counts.empty, counts.fflag, raised ▸ counts.eflag, waits ▸ counts.room, counts.stock,
    knows, counts.consumer⟩
  have one := counts.mutex
  show mutex + place.inside + s.consumer.inside = 1
  omega

/-- A step of the consumer that only takes or gives back the mutex or moves `tail`. -/
theorem Counts.consumer_move {s : State} (counts : Counts s) {mutex tail : ℕ} {place : ConsumerAt}
    (balance : mutex + place.inside = s.mutex + s.consumer.inside)
    (same : place.ahead = s.consumer.ahead ∧ place.waits = s.consumer.waits ∧
      place.signals = s.consumer.signals ∧ place.lowered = s.consumer.lowered)
    (knows : place.Knows (s.written.length - s.printed.length) s.fflag) :
    Counts { s with mutex := mutex, tail := tail, consumer := place } := by
  obtain ⟨ahead, waits, signals, lowered⟩ := same
  refine ⟨?_, counts.least, counts.most, ahead ▸ counts.count, signals ▸ counts.full,
    waits ▸ counts.empty, lowered ▸ counts.fflag, counts.eflag, counts.room, waits ▸ counts.stock,
    counts.producer, knows⟩
  have one := counts.mutex
  show mutex + s.producer.inside + place.inside = 1
  omega

/-- **The producer keeps the account.** -/
theorem Counts.producer_step {s after : State} (counts : Counts s)
    (moved : ProdutorConsumidorAula.producer s = some after) : Counts after := by
  obtain ⟨mutex, empty, full, buffer, head, tail, itemId, count, fflag, eflag, place, consumer,
    written, printed⟩ := s
  have account := counts
  obtain ⟨mutexOne, least, most, counted, fulls, empties, fflags, eflags, room, stock, knows,
    others⟩ := counts
  have outside := consumer.outside
  simp only at mutexOne least most counted fulls empties fflags eflags room stock knows others
  have alone : place.inside = 1 → consumer.inside = 0 := by omega
  cases place with
  | lock =>
    simp only [ProdutorConsumidorAula.producer] at moved
    split at moved <;> cases moved
    exact account.producer_move (Nat.sub_add_cancel (Nat.pos_of_ne_zero ‹_›))
      ⟨rfl, rfl, rfl, rfl⟩ trivial
  | test =>
    have held := alone rfl
    simp only [ProducerAt.ahead] at counted
    cases moved
    simp only
    split
    · exact account.producer_move rfl ⟨rfl, rfl, rfl, rfl⟩ (by simp only [ProducerAt.Knows]; omega)
    · exact account.producer_move rfl ⟨rfl, rfl, rfl, rfl⟩ (by simp only [ProducerAt.Knows]; omega)
  | raise =>
    have held := alone rfl
    simp only [ProducerAt.waits] at fulls
    simp only [ProducerAt.Knows] at knows
    cases moved
    refine ⟨mutexOne, least, most, counted, ?_, empties, fun _ => ?_, eflags, nofun, stock, trivial,
      others.frame held le_rfl⟩
    · simp only [ProducerAt.waits]
      omega
    · simp only
      omega
  | release =>
    cases moved
    exact account.producer_move rfl ⟨rfl, rfl, rfl, rfl⟩ trivial
  | wait =>
    simp only [ProdutorConsumidorAula.producer] at moved
    split at moved <;> cases moved
    simp only [ProducerAt.waits, true_implies] at fulls room
    refine ⟨mutexOne, least, most, counted, ?_, empties, fflags, eflags, nofun, stock, ?_, others⟩
    · simp only [ProducerAt.waits]
      omega
    · simp only [ProducerAt.Knows]
      omega
  | relock =>
    simp only [ProdutorConsumidorAula.producer] at moved
    split at moved <;> cases moved
    exact account.producer_move (Nat.sub_add_cancel (Nat.pos_of_ne_zero ‹_›))
      ⟨rfl, rfl, rfl, rfl⟩ knows
  | increment =>
    cases moved
    refine ⟨mutexOne, least, most, ?_, fulls, empties, fflags, eflags, room, stock, knows, others⟩
    simp only [ProducerAt.ahead] at counted ⊢
    omega
  | write =>
    have held := alone rfl
    have length : (written ++ [itemId]).length = written.length + 1 := by simp
    simp only [ProducerAt.Knows] at knows
    simp only [ProducerAt.ahead] at counted
    simp only [ProducerAt.waits] at fulls
    simp only [ProducerAt.raised] at eflags
    cases moved
    refine ⟨mutexOne, ?_, ?_, ?_, fulls, empties, ?_, ?_, nofun, ?_, trivial,
      others.frame held ?_⟩ <;> simp only [length, ProducerAt.ahead, ProducerAt.raised] <;> omega
  | check =>
    have held := alone rfl
    simp only [ProducerAt.ahead] at counted
    simp only [ProducerAt.raised] at eflags
    cases moved
    simp only
    split
    · exact ⟨mutexOne, least, most, counted, fulls, empties, fflags, eflags, room, stock,
        ‹_ ∧ _›.2, others⟩
    · refine ⟨mutexOne, least, most, counted, fulls, empties, fflags, ?_, room, stock, trivial,
        others⟩
      simp only [ProducerAt.raised]
      omega
  | clear =>
    simp only [ProducerAt.Knows] at knows
    simp only [ProducerAt.signals] at empties
    simp only [ProducerAt.raised] at eflags
    cases moved
    refine ⟨mutexOne, least, most, counted, fulls, ?_, fflags, nofun, room, ?_, trivial, others⟩
    · simp only [ProducerAt.signals]
      omega
    · simp only
      omega
  | signal =>
    cases moved
    refine ⟨mutexOne, least, most, counted, fulls, ?_, fflags, eflags, room, stock, trivial,
      others⟩
    simp only [ProducerAt.signals] at empties ⊢
    omega
  | advance | unlock | sleep =>
    cases moved
    exact account.producer_move rfl ⟨rfl, rfl, rfl, rfl⟩ trivial

/-- **The consumer keeps the account.** -/
theorem Counts.consumer_step {s after : State} (counts : Counts s)
    (moved : ProdutorConsumidorAula.consumer s = some after) : Counts after := by
  obtain ⟨mutex, empty, full, buffer, head, tail, itemId, count, fflag, eflag, producer, place,
    written, printed⟩ := s
  have account := counts
  obtain ⟨mutexOne, least, most, counted, fulls, empties, fflags, eflags, room, stock, others,
    knows⟩ := counts
  have outside := producer.outside
  simp only at mutexOne least most counted fulls empties fflags eflags room stock knows others
  have alone : place.inside = 1 → producer.inside = 0 := by omega
  cases place with
  | lock =>
    simp only [ProdutorConsumidorAula.consumer] at moved
    split at moved <;> cases moved
    exact account.consumer_move (Nat.sub_add_cancel (Nat.pos_of_ne_zero ‹_›))
      ⟨rfl, rfl, rfl, rfl⟩ trivial
  | test =>
    have held := alone rfl
    simp only [ConsumerAt.ahead] at counted
    cases moved
    simp only
    split
    · exact account.consumer_move rfl ⟨rfl, rfl, rfl, rfl⟩ (by simp only [ConsumerAt.Knows]; omega)
    · exact account.consumer_move rfl ⟨rfl, rfl, rfl, rfl⟩ (by simp only [ConsumerAt.Knows]; omega)
  | raise =>
    have held := alone rfl
    simp only [ConsumerAt.waits] at empties
    simp only [ConsumerAt.Knows] at knows
    cases moved
    refine ⟨mutexOne, least, most, counted, fulls, ?_, fflags, fun _ => ?_, room, nofun,
      others.frame held le_rfl, trivial⟩
    · simp only [ConsumerAt.waits]
      omega
    · simp only
      omega
  | release =>
    cases moved
    exact account.consumer_move rfl ⟨rfl, rfl, rfl, rfl⟩ trivial
  | wait =>
    simp only [ProdutorConsumidorAula.consumer] at moved
    split at moved <;> cases moved
    simp only [ConsumerAt.waits, true_implies] at empties stock
    refine ⟨mutexOne, least, most, counted, fulls, ?_, fflags, eflags, room, nofun, others, ?_⟩
    · simp only [ConsumerAt.waits]
      omega
    · simp only [ConsumerAt.Knows]
      omega
  | relock =>
    simp only [ProdutorConsumidorAula.consumer] at moved
    split at moved <;> cases moved
    exact account.consumer_move (Nat.sub_add_cancel (Nat.pos_of_ne_zero ‹_›))
      ⟨rfl, rfl, rfl, rfl⟩ knows
  | decrement =>
    cases moved
    refine ⟨mutexOne, least, most, ?_, fulls, empties, fflags, eflags, room, stock, others, knows⟩
    simp only [ConsumerAt.ahead] at counted ⊢
    omega
  | print =>
    have held := alone rfl
    have length : (printed ++ [buffer tail]).length = printed.length + 1 := by simp
    simp only [ConsumerAt.Knows] at knows
    simp only [ConsumerAt.ahead] at counted
    simp only [ConsumerAt.waits] at empties
    simp only [ConsumerAt.lowered] at fflags
    cases moved
    refine ⟨mutexOne, ?_, ?_, ?_, fulls, empties, ?_, ?_, ?_, nofun, others.frame held ?_,
      trivial⟩ <;> simp only [length, ConsumerAt.ahead, ConsumerAt.lowered] <;> omega
  | check =>
    have held := alone rfl
    simp only [ConsumerAt.ahead] at counted
    simp only [ConsumerAt.lowered] at fflags
    cases moved
    simp only
    split
    · exact ⟨mutexOne, least, most, counted, fulls, empties, fflags, eflags, room, stock, others,
        ‹_ ∧ _›.2⟩
    · refine ⟨mutexOne, least, most, counted, fulls, empties, ?_, eflags, room, stock, others,
        trivial⟩
      simp only [ConsumerAt.lowered]
      omega
  | clear =>
    simp only [ConsumerAt.Knows] at knows
    simp only [ConsumerAt.signals] at fulls
    simp only [ConsumerAt.lowered] at fflags
    cases moved
    refine ⟨mutexOne, least, most, counted, ?_, empties, nofun, eflags, ?_, stock, others, trivial⟩
    · simp only [ConsumerAt.signals]
      omega
    · simp only
      omega
  | signal =>
    cases moved
    refine ⟨mutexOne, least, most, counted, ?_, empties, fflags, eflags, room, stock, others,
      trivial⟩
    simp only [ConsumerAt.signals] at fulls ⊢
    omega
  | advance | unlock | sleep =>
    cases moved
    exact account.consumer_move rfl ⟨rfl, rfl, rfl, rfl⟩ trivial

/-! ### The content of the buffer -/

/-- **The content of the buffer**: the items go in as `1, 2, 3, …`, the unread ones are in their
slots, and `head` and `tail` are the next positions up to the pending moves. -/
structure Content (s : State) : Prop where
  itemId : s.itemId = s.written.length + 1
  written : s.written = items s.written.length
  printed : s.printed = items s.printed.length
  head : s.head < maxBuf ∧ (s.head + s.producer.behind) % maxBuf = s.written.length % maxBuf
  tail : s.tail < maxBuf ∧ (s.tail + s.consumer.behind) % maxBuf = s.printed.length % maxBuf
  holds : Ring.Holds maxBuf s.buffer s.printed.length s.written.length (· + 1)

theorem maxBuf_pos : 0 < maxBuf := by decide

theorem items_succ (n : ℕ) : items (n + 1) = items n ++ [n + 1] := by
  simp [items, List.range_succ]

theorem items_prefix {m n : ℕ} (less : m ≤ n) : items m <+: items n := by
  obtain ⟨k, rfl⟩ := Nat.exists_eq_add_of_le less
  unfold items
  rw [List.range_add, List.map_append]
  exact List.prefix_append _ _

theorem content_start : Content start :=
  ⟨rfl, rfl, rfl, ⟨maxBuf_pos, rfl⟩, ⟨maxBuf_pos, rfl⟩, fun _ _ upper => nomatch upper⟩

/-- The producer writes the next item to its slot. -/
theorem Content.producer_step {s after : State} (counts : Counts s) (content : Content s)
    (moved : ProdutorConsumidorAula.producer s = some after) : Content after := by
  obtain ⟨mutex, empty, full, buffer, head, tail, itemId, count, fflag, eflag, place, consumer,
    written, printed⟩ := s
  obtain ⟨nextId, writes, prints, ⟨headSmall, headAt⟩, tails, holds⟩ := content
  cases place with
  | write =>
    have room : written.length - printed.length < maxBuf := counts.producer
    have slot : head = written.length % maxBuf := (Nat.mod_eq_of_lt headSmall).symm.trans headAt
    have length : (written ++ [itemId]).length = written.length + 1 := by simp
    simp only at nextId writes holds
    cases moved
    refine ⟨?_, ?_, prints, ⟨headSmall, ?_⟩, tails, ?_⟩
    · rw [length, nextId]
    · rw [length, items_succ, ← writes, nextId]
    · rw [length, slot]
      exact Nat.mod_add_mod _ _ _
    · rw [length, slot, nextId]
      exact holds.push (by omega)
  | advance =>
    cases moved
    exact ⟨nextId, writes, prints, ⟨Nat.mod_lt _ maxBuf_pos, (Nat.mod_mod _ _).trans headAt⟩,
      tails, holds⟩
  | test | check =>
    cases moved
    simp only
    split <;> exact ⟨nextId, writes, prints, ⟨headSmall, headAt⟩, tails, holds⟩
  | lock | wait | relock =>
    simp only [ProdutorConsumidorAula.producer] at moved
    split at moved <;> cases moved
    exact ⟨nextId, writes, prints, ⟨headSmall, headAt⟩, tails, holds⟩
  | raise | release | increment | clear | signal | unlock | sleep =>
    cases moved
    exact ⟨nextId, writes, prints, ⟨headSmall, headAt⟩, tails, holds⟩

/-- The consumer prints the oldest unread item. -/
theorem Content.consumer_step {s after : State} (counts : Counts s) (content : Content s)
    (moved : ProdutorConsumidorAula.consumer s = some after) : Content after := by
  obtain ⟨mutex, empty, full, buffer, head, tail, itemId, count, fflag, eflag, producer, place,
    written, printed⟩ := s
  obtain ⟨nextId, writes, prints, heads, ⟨tailSmall, tailAt⟩, holds⟩ := content
  cases place with
  | print =>
    have stock : 0 < written.length - printed.length := counts.consumer
    have slot : tail = printed.length % maxBuf := (Nat.mod_eq_of_lt tailSmall).symm.trans tailAt
    have length : (printed ++ [buffer tail]).length = printed.length + 1 := by simp
    have oldest : buffer tail = printed.length + 1 := by
      rw [slot]
      exact holds.front (by simp only; omega)
    simp only at prints
    cases moved
    refine ⟨nextId, writes, ?_, heads, ⟨tailSmall, ?_⟩, ?_⟩
    · show printed ++ [buffer tail] = items (printed ++ [buffer tail]).length
      rw [length, items_succ, ← prints, oldest]
    · rw [length, slot]
      exact Nat.mod_add_mod _ _ _
    · rw [length]
      exact holds.pop
  | advance =>
    cases moved
    exact ⟨nextId, writes, prints, heads,
      ⟨Nat.mod_lt _ maxBuf_pos, (Nat.mod_mod _ _).trans tailAt⟩, holds⟩
  | test | check =>
    cases moved
    simp only
    split <;> exact ⟨nextId, writes, prints, heads, ⟨tailSmall, tailAt⟩, holds⟩
  | lock | wait | relock =>
    simp only [ProdutorConsumidorAula.consumer] at moved
    split at moved <;> cases moved
    exact ⟨nextId, writes, prints, heads, ⟨tailSmall, tailAt⟩, holds⟩
  | raise | release | decrement | clear | signal | unlock | sleep =>
    cases moved
    exact ⟨nextId, writes, prints, heads, ⟨tailSmall, tailAt⟩, holds⟩

/-! ### The buffer is sound -/

/-- A blocked producer waits for the mutex or for its signal. -/
theorem producer_blocked {s : State} (blocked : ProdutorConsumidorAula.producer s = none) :
    s.producer.inside = 0 ∧ (s.mutex = 0 ∨ s.producer.waits = 1 ∧ s.full = 0) := by
  unfold ProdutorConsumidorAula.producer at blocked
  cases place : s.producer with
  | lock | relock =>
    simp only [place, ite_eq_left_iff, reduceCtorEq, imp_false, not_not] at blocked
    exact ⟨rfl, Or.inl blocked⟩
  | wait =>
    simp only [place, ite_eq_left_iff, reduceCtorEq, imp_false, not_not] at blocked
    exact ⟨rfl, Or.inr ⟨rfl, blocked⟩⟩
  | _ =>
    simp only [place] at blocked
    cases blocked

/-- A blocked consumer waits for the mutex or for its signal. -/
theorem consumer_blocked {s : State} (blocked : ProdutorConsumidorAula.consumer s = none) :
    s.consumer.inside = 0 ∧ (s.mutex = 0 ∨ s.consumer.waits = 1 ∧ s.empty = 0) := by
  unfold ProdutorConsumidorAula.consumer at blocked
  cases place : s.consumer with
  | lock | relock =>
    simp only [place, ite_eq_left_iff, reduceCtorEq, imp_false, not_not] at blocked
    exact ⟨rfl, Or.inl blocked⟩
  | wait =>
    simp only [place, ite_eq_left_iff, reduceCtorEq, imp_false, not_not] at blocked
    exact ⟨rfl, Or.inr ⟨rfl, blocked⟩⟩
  | _ =>
    simp only [place] at blocked
    cases blocked

/-- **The threads are not both blocked**: with the mutex free and both waiting, both flags would be
set, and the buffer would be full and empty. -/
theorem Counts.progress {s : State} (counts : Counts s) :
    ¬ (step s .producer = none ∧ step s .consumer = none) := by
  rintro ⟨producerBlocked, consumerBlocked⟩
  obtain ⟨producerOut, producerWaits⟩ := producer_blocked producerBlocked
  obtain ⟨consumerOut, consumerWaits⟩ := consumer_blocked consumerBlocked
  obtain ⟨mutex, least, most, count, full, empty, fflag, eflag, room, stock, -, -⟩ := counts
  have producerOutside := s.producer.outside
  have consumerOutside := s.consumer.outside
  have positive := maxBuf_pos
  have free : s.mutex ≠ 0 := by omega
  obtain ⟨producerAsked, noFull⟩ := producerWaits.resolve_left free
  obtain ⟨consumerAsked, noEmpty⟩ := consumerWaits.resolve_left free
  have fullFlag : s.fflag = 1 := by omega
  have emptyFlag : s.eflag = 1 := by omega
  have isFull := fflag fullFlag
  have isEmpty := eflag emptyFlag
  omega

/-- **The bounded buffer is sound** in every state of every interleaving. -/
theorem buffer_sound {s : State} (reach : Reachable step start s) : Sound s := by
  obtain ⟨counts, content⟩ : Counts s ∧ Content s := by
    refine reach.invariant (fun s => Counts s ∧ Content s) ⟨counts_start, content_start⟩ ?_
    rintro before (- | -) after ⟨counts, content⟩ - moved
    · exact ⟨counts.producer_step moved, content.producer_step counts moved⟩
    · exact ⟨counts.consumer_step moved, content.consumer_step counts moved⟩
  refine ⟨fun free => ?_, content.written, content.printed, ?_, content.holds, counts.progress⟩
  · have producerOutside := s.producer.outside
    have consumerOutside := s.consumer.outside
    obtain ⟨mutex, least, most, count, -, -, -, -, -, -, -, -⟩ := counts
    omega
  · rw [content.printed, content.written]
    exact items_prefix counts.least

/-- The consumer finds the buffer empty and waits; the producer writes an item and signals; the
consumer prints it. -/
theorem buffer_sound_wait : ∃ s, Reachable step start s ∧ s.printed = [1] ∧ Sound s := by
  have reach : Reachable step start _ :=
    reach_of_execute (List.replicate 4 .consumer ++ List.replicate 9 .producer ++
      List.replicate 4 .consumer) .start rfl
  exact ⟨_, reach, rfl, buffer_sound reach⟩

end ProdutorConsumidorAula
