/-
**xv6 `pipe.c`: a bounded queue between processes, with sleep and wakeup.**

`p->lock` is held from `acquire` to `release` or `sleep`, so a call is one step, or one step up to
each `sleep` and one after each wakeup. `nread` and `nwrite` are 32-bit counters that wrap around;
`PIPESIZE` divides `2 ^ 32`.

* `pipewriteLoop`, `pipereadLoop` — the loops over the bytes; `pipewrite`, `piperead`,
  `pipeclose` — the calls, with the processes that they wake up.
* `next` — a call, the continuation of a call whose process is awake, or a `kill`. The lists `sent`
  and `received` are not variables of the code: they are all bytes put in and taken out so far.
* `Holds` — the bytes between the two counters are the last ones sent, in their slots.
* `pipe_fifo` — **the bytes read are the bytes written, in their order**, and at most `PIPESIZE`
  are on the way, in every run of any number of readers and writers.
* `Awake` — whoever sleeps has reason to: `wakeups_not_lost` — **in runs in which no process is
  killed a sleeping reader means an empty pipe and a sleeping writer a full one**, so that not all
  sleep.
* `killed_writer_strands` — the reason for the condition: a writer that is killed and fills the pipe
  returns without a wakeup.
-/

import SistemasOperacionais.Runs.Reach
import SistemasOperacionais.Data.Ring
import Mathlib.Data.List.Basic
import Mathlib.Data.List.TakeDrop
import Mathlib.Data.List.GetD
import Mathlib.Data.Fintype.Basic

set_option linter.unusedSectionVars false

namespace Xv6

/-- `struct pipe`. -/
structure Pipe where
  data : ℕ → UInt8
  nread : ℕ
  nwrite : ℕ
  readopen : Bool
  writeopen : Bool

namespace Pipe

open Transition

/-- `PIPESIZE` -/
def pipeSize : ℕ := 512

/-- The number of values of a `uint`. -/
def uintSize : ℕ := 2 ^ 32

/-- `p->nwrite == p->nread + PIPESIZE` -/
def full (p : Pipe) : Bool := p.nwrite = (p.nread + pipeSize) % uintSize

/-- `p->nread == p->nwrite` -/
def empty (p : Pipe) : Bool := p.nread = p.nwrite

/-- `p->data[p->nwrite++ % PIPESIZE] = byte` -/
def put (p : Pipe) (byte : UInt8) : Pipe :=
  { p with
    data := Function.update p.data (p.nwrite % pipeSize) byte
    nwrite := (p.nwrite + 1) % uintSize }

/-- `p->data[p->nread % PIPESIZE]` -/
def front (p : Pipe) : UInt8 := p.data (p.nread % pipeSize)

/-- `p->nread++` -/
def take (p : Pipe) : Pipe := { p with nread := (p.nread + 1) % uintSize }

/-- How the loop of `pipewrite` is left. -/
inductive Wrote
  | all
  | sleeps (left : List UInt8)
  | fails
  deriving DecidableEq

/-- The loop of `pipewrite`, up to a `sleep` or the end, with the bytes that it puts in. -/
def pipewriteLoop (killed : Bool) : List UInt8 → Pipe → Pipe × List UInt8 × Wrote
  | [], p => (p, [], .all)
  | byte :: rest, p =>
      if p.full then
        (p, [], if !p.readopen || killed then .fails else .sleeps (byte :: rest))
      else
        let (after, done, wrote) := pipewriteLoop killed rest (p.put byte)
        (after, byte :: done, wrote)

/-- The second loop of `piperead`, with the bytes that it takes out. -/
def pipereadLoop : ℕ → Pipe → Pipe × List UInt8
  | 0, p => (p, [])
  | n + 1, p =>
      if p.empty then (p, [])
      else
        let (after, rest) := pipereadLoop n p.take
        (after, p.front :: rest)

/-- What a call returns. -/
inductive Result
  | wrote (n : ℕ)
  /-- the bytes in `addr`; the value is their number -/
  | read (bytes : List UInt8)
  /-- `-1` -/
  | error
  deriving DecidableEq

/-- Where a process is. -/
inductive Place
  /-- not in a call, with the result of the last one -/
  | user (result : Option Result)
  /-- in `pipewrite`, with the bytes that are left; asleep on `&p->nwrite` or awake again -/
  | writing (n : ℕ) (left : List UInt8) (asleep : Bool)
  /-- in `piperead`; asleep on `&p->nread` or awake again -/
  | reading (n : ℕ) (asleep : Bool)
  deriving DecidableEq

variable {ι : Type} [DecidableEq ι]

/-- The pipe and the processes. -/
structure State (ι : Type) where
  pipe : Pipe
  place : ι → Place
  killed : ι → Bool
  sent : List UInt8
  received : List UInt8

/-- `wakeup(&p->nread)` -/
def Place.wakeReader : Place → Place
  | .reading n _ => .reading n false
  | place => place

/-- `wakeup(&p->nwrite)` -/
def Place.wakeWriter : Place → Place
  | .writing n left _ => .writing n left false
  | place => place

def State.wakeReaders (s : State ι) : State ι := { s with place := fun q => (s.place q).wakeReader }

def State.wakeWriters (s : State ι) : State ι := { s with place := fun q => (s.place q).wakeWriter }

def State.goto (s : State ι) (p : ι) (place : Place) : State ι :=
  { s with place := Function.update s.place p place }

/-- `pipewrite` of `n` bytes from its loop on, with `rest` of them to write. -/
def pipewrite (s : State ι) (p : ι) (n : ℕ) (rest : List UInt8) : State ι :=
  let (pipe, done, wrote) := pipewriteLoop (s.killed p) rest s.pipe
  let s := { s with pipe := pipe, sent := s.sent ++ done }
  match wrote with
  | .all => s.wakeReaders.goto p (.user (some (.wrote n)))
  | .sleeps left => s.wakeReaders.goto p (.writing n left true)
  | .fails => s.goto p (.user (some .error))

/-- `piperead` of `n` bytes from its first loop on. -/
def piperead (s : State ι) (p : ι) (n : ℕ) : State ι :=
  if s.pipe.empty && s.pipe.writeopen then
    if s.killed p then s.goto p (.user (some .error)) else s.goto p (.reading n true)
  else
    let (pipe, got) := pipereadLoop n s.pipe
    let s := { s with pipe := pipe, received := s.received ++ got }
    s.wakeWriters.goto p (.user (some (.read got)))

/-- `pipeclose` -/
def pipeclose (s : State ι) (writable : Bool) : State ι :=
  if writable then { s with pipe := { s.pipe with writeopen := false } }.wakeReaders
  else { s with pipe := { s.pipe with readopen := false } }.wakeWriters

/-- `kill`: the process is awake, and will find `proc->killed` set. -/
def kill (s : State ι) (p : ι) : State ι :=
  { s with killed := Function.update s.killed p true }.goto p
    (s.place p).wakeReader.wakeWriter

inductive Label (ι : Type)
  | write (p : ι) (bytes : List UInt8)
  | read (p : ι) (n : ℕ)
  /-- back from `sleep` -/
  | resume (p : ι)
  | close (writable : Bool)
  | kill (p : ι)

/-- **One step of a process.** Only ends that are open are used. -/
def next (s : State ι) : Label ι → Option (State ι)
  | .write p bytes =>
      match s.place p with
      | .user _ => if s.pipe.writeopen then some (pipewrite s p bytes.length bytes) else none
      | _ => none
  | .read p n =>
      match s.place p with
      | .user _ => if s.pipe.readopen then some (piperead s p n) else none
      | _ => none
  | .resume p =>
      match s.place p with
      | .writing n left false => some (pipewrite s p n left)
      | .reading n false => some (piperead s p n)
      | _ => none
  | .close writable => some (pipeclose s writable)
  | .kill p => some (kill s p)

/-- `pipealloc`; the page has any contents. -/
def start (data : ℕ → UInt8) : State ι where
  pipe := ⟨data, 0, 0, true, true⟩
  place := fun _ => .user none
  killed := fun _ => false
  sent := []
  received := []

/-! ### The bytes on the way -/

/-- **The bytes sent and not yet received are in their slots**, and the counters are those of the
bytes, modulo `2 ^ 32`. -/
structure Holds (p : Pipe) (sent received : List UInt8) : Prop where
  nread : p.nread = received.length % uintSize
  nwrite : p.nwrite = sent.length % uintSize
  prefixed : received <+: sent
  room : sent.length ≤ received.length + pipeSize
  slots : Ring.Holds pipeSize p.data received.length sent.length fun k => sent.getD k 0

section Bytes

variable {p : Pipe} {sent received : List UInt8}

theorem Holds.full_iff (holds : Holds p sent received) :
    p.full = true ↔ sent.length = received.length + pipeSize := by
  have ordered := holds.prefixed.length_le
  have room := holds.room
  rw [Pipe.full, holds.nread, holds.nwrite, decide_eq_true_iff]
  unfold uintSize pipeSize at *
  omega

theorem Holds.empty_iff (holds : Holds p sent received) : p.empty = true ↔ received = sent := by
  have ordered := holds.prefixed.length_le
  have room := holds.room
  rw [Pipe.empty, holds.nread, holds.nwrite, decide_eq_true_iff]
  constructor
  · intro same
    refine holds.prefixed.eq_of_length ?_
    unfold uintSize pipeSize at *
    omega
  · rintro rfl
    rfl

/-- A slot of the code is the slot of the position. -/
theorem slot_mod (k : ℕ) : k % uintSize % pipeSize = k % pipeSize :=
  Nat.mod_mod_of_dvd k (by decide)

/-- **A byte put in.** -/
theorem Holds.put (holds : Holds p sent received) (room : p.full = false) (byte : UInt8) :
    Holds (p.put byte) (sent ++ [byte]) received := by
  have space : sent.length < received.length + pipeSize := by
    refine lt_of_le_of_ne holds.room fun full => ?_
    rw [holds.full_iff.mpr full] at room
    cases room
  have earlier : Ring.Holds pipeSize p.data received.length sent.length
      fun k => (sent ++ [byte]).getD k 0 := by
    intro k lower upper
    exact (holds.slots k lower upper).trans (List.getD_append _ _ _ _ upper).symm
  refine ⟨holds.nread, ?_, holds.prefixed.trans (List.prefix_append ..), ?_, ?_⟩
  · show (p.nwrite + 1) % uintSize = (sent ++ [byte]).length % uintSize
    rw [holds.nwrite, List.length_append, List.length_singleton, Nat.mod_add_mod]
  · rw [List.length_append, List.length_singleton]
    omega
  · have pushed := earlier.push space
    rw [List.length_append, List.length_singleton]
    have last : (sent ++ [byte]).getD sent.length 0 = byte := by simp
    rw [last] at pushed
    show Ring.Holds _ (Function.update p.data (p.nwrite % pipeSize) byte) _ _ _
    rw [holds.nwrite, slot_mod]
    exact pushed

/-- **A byte taken out** is the oldest one. -/
theorem Holds.take (holds : Holds p sent received) (stock : p.empty = false) :
    Holds p.take sent (received ++ [p.front]) := by
  have shorter : received.length < sent.length := by
    refine lt_of_le_of_ne holds.prefixed.length_le fun same => ?_
    rw [holds.empty_iff.mpr (holds.prefixed.eq_of_length same)] at stock
    cases stock
  have oldest : p.front = sent[received.length] := by
    have front := holds.slots.front shorter
    rw [Pipe.front, holds.nread, slot_mod, front, List.getD_eq_getElem _ _ shorter]
  refine ⟨?_, holds.nwrite, ?_, ?_, ?_⟩
  · show (p.nread + 1) % uintSize = (received ++ [p.front]).length % uintSize
    rw [holds.nread, List.length_append, List.length_singleton, Nat.mod_add_mod]
  · have taken : received = sent.take received.length :=
      List.prefix_iff_eq_take.mp holds.prefixed
    rw [oldest]
    refine List.prefix_iff_eq_take.mpr ?_
    rw [List.length_append, List.length_singleton, List.take_succ_eq_append_getElem shorter,
      ← taken]
  · have room := holds.room
    rw [List.length_append, List.length_singleton]
    omega
  · rw [List.length_append, List.length_singleton]
    exact holds.slots.pop

end Bytes

/-- **The loop of `pipewrite`**: what it puts in, and why it is left. -/
theorem pipewriteLoop_spec (killed : Bool) {rest : List UInt8} {p : Pipe} {sent received : List UInt8}
    (holds : Holds p sent received) {after : Pipe} {done : List UInt8} {wrote : Wrote}
    (ran : pipewriteLoop killed rest p = (after, done, wrote)) :
    Holds after (sent ++ done) received ∧ after.readopen = p.readopen ∧
      after.writeopen = p.writeopen ∧
      (wrote = .all ∧ done = rest ∨
        ∃ left, rest = done ++ left ∧ after.full = true ∧
          (wrote = .sleeps left ∧ p.readopen = true ∧ killed = false ∨
            wrote = .fails ∧ (p.readopen = false ∨ killed = true))) := by
  induction rest generalizing p sent done with
  | nil =>
    cases ran
    rw [List.append_nil]
    exact ⟨holds, rfl, rfl, .inl ⟨rfl, rfl⟩⟩
  | cons byte rest ih =>
    rw [pipewriteLoop] at ran
    split at ran
    · rename_i full
      obtain ⟨rfl, rfl, rfl⟩ := by simpa only [Prod.mk.injEq] using ran
      rw [List.append_nil]
      refine ⟨holds, rfl, rfl, .inr ⟨byte :: rest, rfl, full, ?_⟩⟩
      by_cases fails : (!p.readopen || killed) = true
      · rw [if_pos fails]
        exact .inr ⟨rfl, by simpa using fails⟩
      · rw [if_neg fails]
        exact .inl ⟨rfl, by simpa using fails⟩
    · rename_i room
      cases tail : pipewriteLoop killed rest (p.put byte) with
      | mk after' more =>
        obtain ⟨done', wrote'⟩ := more
        rw [tail] at ran
        cases ran
        obtain ⟨holds', reads, writes, left⟩ :=
          ih (holds.put (Bool.eq_false_iff.mpr room) byte) tail
        rw [List.append_assoc] at holds'
        refine ⟨holds', reads, writes, ?_⟩
        rcases left with ⟨all, same⟩ | ⟨rest', split, stops⟩
        · exact .inl ⟨all, by rw [same]⟩
        · exact .inr ⟨rest', by rw [split, List.cons_append], stops⟩

/-- **The loop of `piperead`.** -/
theorem pipereadLoop_spec {n : ℕ} {p : Pipe} {sent received : List UInt8}
    (holds : Holds p sent received) {after : Pipe} {got : List UInt8}
    (ran : pipereadLoop n p = (after, got)) :
    Holds after sent (received ++ got) ∧ after.readopen = p.readopen ∧
      after.writeopen = p.writeopen ∧ got.length ≤ n ∧ (got.length < n → after.empty = true) := by
  induction n generalizing p received got with
  | zero =>
    cases ran
    rw [List.append_nil]
    exact ⟨holds, rfl, rfl, le_rfl, fun less => absurd less (Nat.lt_irrefl 0)⟩
  | succ n ih =>
    rw [pipereadLoop] at ran
    split at ran
    · rename_i empty
      cases ran
      rw [List.append_nil]
      exact ⟨holds, rfl, rfl, Nat.zero_le _, fun _ => empty⟩
    · rename_i stock
      cases tail : pipereadLoop n p.take with
      | mk after' got' =>
        rw [tail] at ran
        cases ran
        obtain ⟨holds', reads, writes, few, short⟩ :=
          ih (holds.take (Bool.eq_false_iff.mpr stock)) tail
        rw [List.append_assoc] at holds'
        refine ⟨holds', reads, writes, Nat.succ_le_succ few, fun less => short ?_⟩
        simpa using less

/-! ### Runs -/

section Runs

variable {s : State ι}

theorem holds_pipewrite (holds : Holds s.pipe s.sent s.received) (p : ι) (n : ℕ)
    (rest : List UInt8) :
    Holds (pipewrite s p n rest).pipe (pipewrite s p n rest).sent (pipewrite s p n rest).received := by
  cases ran : pipewriteLoop (s.killed p) rest s.pipe with
  | mk after more =>
    obtain ⟨done, wrote⟩ := more
    have kept := (pipewriteLoop_spec _ holds ran).1
    cases wrote <;> simp only [pipewrite, ran] <;> exact kept

theorem holds_piperead (holds : Holds s.pipe s.sent s.received) (p : ι) (n : ℕ) :
    Holds (piperead s p n).pipe (piperead s p n).sent (piperead s p n).received := by
  unfold piperead
  split
  · split <;> exact holds
  · cases ran : pipereadLoop n s.pipe with
    | mk after got => exact (pipereadLoop_spec holds ran).1

theorem holds_next (holds : Holds s.pipe s.sent s.received) {label : Label ι} {after : State ι}
    (moved : next s label = some after) : Holds after.pipe after.sent after.received := by
  cases label with
  | write p bytes =>
    simp only [next] at moved
    split at moved
    · obtain ⟨-, rfl⟩ : s.pipe.writeopen = true ∧ pipewrite s p bytes.length bytes = after := by
        simpa using moved
      exact holds_pipewrite holds p _ bytes
    · cases moved
  | read p n =>
    simp only [next] at moved
    split at moved
    · obtain ⟨-, rfl⟩ : s.pipe.readopen = true ∧ piperead s p n = after := by simpa using moved
      exact holds_piperead holds p n
    · cases moved
  | resume p =>
    simp only [next] at moved
    split at moved
    · cases moved
      exact holds_pipewrite holds p _ _
    · cases moved
      exact holds_piperead holds p _
    · cases moved
  | close writable =>
    cases moved
    unfold pipeclose
    split <;> exact ⟨holds.nread, holds.nwrite, holds.prefixed, holds.room, holds.slots⟩
  | kill p =>
    cases moved
    exact holds

theorem holds_start (data : ℕ → UInt8) :
    Holds (start data : State ι).pipe (start data : State ι).sent (start data : State ι).received :=
  ⟨rfl, rfl, List.prefix_rfl, Nat.zero_le _, fun k _ upper => absurd upper (Nat.not_lt_zero k)⟩

theorem holds_of_reach {data : ℕ → UInt8} (reach : Reachable next (start data) s) :
    Holds s.pipe s.sent s.received :=
  reach.invariant (fun s => Holds s.pipe s.sent s.received) (holds_start data)
    fun _ _ _ holds _ moved => holds_next holds moved

/-- **The bytes read are the bytes written, in their order**; those on the way are in the pipe, no
more than `PIPESIZE`. -/
theorem pipe_fifo {data : ℕ → UInt8} (reach : Reachable next (start data) s) :
    ∃ inPipe, s.sent = s.received ++ inPipe ∧ inPipe.length ≤ pipeSize ∧
      ∀ k (inside : k < inPipe.length),
        s.pipe.data ((s.pipe.nread + k) % uintSize % pipeSize) = inPipe[k] := by
  have holds := holds_of_reach reach
  obtain ⟨inPipe, split⟩ := holds.prefixed
  have room := holds.room
  have slots := holds.slots
  rw [← split, List.length_append] at room slots
  refine ⟨inPipe, split.symm, by omega, fun k inside => ?_⟩
  have here := slots (s.received.length + k) (by omega) (by omega)
  rw [holds.nread, Nat.mod_add_mod, slot_mod, here]
  simp [inside]

/-- Three bytes sent, two received. -/
theorem pipe_fifo_three : ∃ s : State (Fin 2), Reachable next (start fun _ => 1) s ∧
    (s.sent = [10, 20, 30] ∧ s.received = [10, 20]) ∧
    ∃ inPipe, s.sent = s.received ++ inPipe ∧ inPipe.length ≤ pipeSize ∧
      ∀ k (inside : k < inPipe.length),
        s.pipe.data ((s.pipe.nread + k) % uintSize % pipeSize) = inPipe[k] := by
  have run : ∃ s : State (Fin 2), Reachable next (start fun _ => 1) s ∧
      (s.sent = [10, 20, 30] ∧ s.received = [10, 20]) :=
    exists_reach_of_execute [.read 1 2, .write 0 [10, 20, 30], .resume 1] _ (by decide +kernel)
  obtain ⟨s, reach, test⟩ := run
  exact ⟨s, reach, test, pipe_fifo reach⟩

end Runs

/-! ### Sleepers -/

/-- In `piperead`. -/
def Place.isReading : Place → Bool
  | .reading _ _ => true
  | _ => false

/-- **Runs in which no process is killed**; the read end is not closed under a process that is in
`piperead`, which has it open. -/
def Orderly (s : State ι) : Label ι → Prop
  | .kill _ => False
  | .close false => ∀ q, (s.place q).isReading = false
  | _ => True

instance [Fintype ι] (s : State ι) : DecidablePred (Orderly s)
  | .kill _ => inferInstanceAs (Decidable False)
  | .close false => inferInstanceAs (Decidable (∀ q, (s.place q).isReading = false))
  | .close true | .write _ _ | .read _ _ | .resume _ => inferInstanceAs (Decidable True)

/-- **Whoever sleeps has reason to.** -/
structure Awake (s : State ι) : Prop where
  holds : Holds s.pipe s.sent s.received
  killed : ∀ q, s.killed q = false
  readers : ∀ q n, s.place q = .reading n true → s.pipe.empty = true ∧ s.pipe.writeopen = true
  writers : ∀ q n left, s.place q = .writing n left true →
    s.pipe.full = true ∧ s.pipe.readopen = true
  opened : ∀ q, (s.place q).isReading = true → s.pipe.readopen = true

theorem wakeReader_eq_writing {place : Place} {n : ℕ} {left : List UInt8} {asleep : Bool} :
    place.wakeReader = .writing n left asleep ↔ place = .writing n left asleep := by
  cases place <;> simp [Place.wakeReader]

theorem wakeReader_asleep {place : Place} {n : ℕ} : place.wakeReader ≠ .reading n true := by
  cases place <;> simp [Place.wakeReader]

@[simp]
theorem isReading_wakeReader (place : Place) : place.wakeReader.isReading = place.isReading := by
  cases place <;> rfl

@[simp]
theorem isReading_wakeWriter (place : Place) : place.wakeWriter.isReading = place.isReading := by
  cases place <;> rfl

theorem wakeWriter_eq_reading {place : Place} {n : ℕ} {asleep : Bool} :
    place.wakeWriter = .reading n asleep ↔ place = .reading n asleep := by
  cases place <;> simp [Place.wakeWriter]

theorem wakeWriter_asleep {place : Place} {n : ℕ} {left : List UInt8} :
    place.wakeWriter ≠ .writing n left true := by
  cases place <;> simp [Place.wakeWriter]

/-- After `wakeup(&p->nread)` no reader sleeps. -/
theorem Awake.wakeReaders {s after : State ι} (awake : Awake s) {p : ι} {place : Place}
    (holds : Holds after.pipe after.sent after.received)
    (places : after.place = Function.update (fun q => (s.place q).wakeReader) p place)
    (killed : after.killed = s.killed) (reads : after.pipe.readopen = s.pipe.readopen)
    (left : place.isReading = false)
    (writing : ∀ n bytes, place = .writing n bytes true →
      after.pipe.full = true ∧ s.pipe.readopen = true)
    (full : s.pipe.full = true → after.pipe.full = true) : Awake after := by
  refine ⟨holds, fun q => killed ▸ awake.killed q, ?_, ?_, ?_⟩
  · intro q n here
    rw [places] at here
    by_cases same : q = p
    · rw [same, Function.update_self] at here
      simp [here, Place.isReading] at left
    · rw [Function.update_of_ne same] at here
      exact absurd here wakeReader_asleep
  · intro q n bytes here
    rw [places] at here
    rw [reads]
    by_cases same : q = p
    · rw [same, Function.update_self] at here
      exact writing n bytes here
    · rw [Function.update_of_ne same] at here
      obtain ⟨wasFull, wasOpen⟩ := awake.writers q n bytes (wakeReader_eq_writing.mp here)
      exact ⟨full wasFull, wasOpen⟩
  · intro q here
    rw [places] at here
    rw [reads]
    by_cases same : q = p
    · rw [same, Function.update_self, left] at here
      cases here
    · rw [Function.update_of_ne same, isReading_wakeReader] at here
      exact awake.opened q here

/-- `pipewrite`, up to a sleep or the end. -/
theorem Awake.pipewrite {s : State ι} (awake : Awake s) (p : ι) (n : ℕ) (rest : List UInt8) :
    Awake (pipewrite s p n rest) := by
  cases ran : pipewriteLoop (s.killed p) rest s.pipe with
  | mk after more =>
    obtain ⟨done, wrote⟩ := more
    obtain ⟨holds, reads, writes, outcome⟩ := pipewriteLoop_spec _ awake.holds ran
    -- a full pipe stays full: nothing could be put in
    have full : s.pipe.full = true → after.full = true := by
      intro wasFull
      have count := awake.holds.full_iff.mp wasFull
      have room := holds.room
      rw [List.length_append] at room
      refine holds.full_iff.mpr ?_
      rw [List.length_append]
      omega
    rcases outcome with ⟨rfl, -⟩ | ⟨left, -, isFull, ⟨rfl, wasOpen, -⟩ | ⟨rfl, fails⟩⟩
    · simp only [Pipe.pipewrite, ran]
      exact awake.wakeReaders (p := p) holds rfl rfl reads rfl (by simp) full
    · simp only [Pipe.pipewrite, ran]
      exact awake.wakeReaders (p := p) holds rfl rfl reads rfl (fun _ _ _ => ⟨isFull, wasOpen⟩) full
    · -- the read end is closed: no reader is left, and no writer sleeps
      have closed : s.pipe.readopen = false := by simpa [awake.killed p] using fails
      simp only [Pipe.pipewrite, ran]
      refine ⟨holds, awake.killed, ?_, ?_, ?_⟩
      · intro q m here
        by_cases same : q = p
        · simp [State.goto, same] at here
        · simp only [State.goto, Function.update_of_ne same] at here
          simp [awake.opened q (by rw [here]; rfl)] at closed
      · intro q m left here
        by_cases same : q = p
        · simp [State.goto, same] at here
        · simp only [State.goto, Function.update_of_ne same] at here
          simp [(awake.writers q m left here).2] at closed
      · intro q here
        by_cases same : q = p
        · simp [State.goto, same, Place.isReading] at here
        · simp only [State.goto, Function.update_of_ne same] at here
          simp [awake.opened q here] at closed

/-- `piperead`, up to a sleep or the end. -/
theorem Awake.piperead {s : State ι} (awake : Awake s) (p : ι) (n : ℕ)
    (isOpen : s.pipe.readopen = true) : Awake (piperead s p n) := by
  unfold Pipe.piperead
  by_cases waits : (s.pipe.empty && s.pipe.writeopen) = true
  · rw [if_pos waits, if_neg (by simp [awake.killed p])]
    refine ⟨awake.holds, awake.killed, ?_, ?_, fun _ _ => isOpen⟩
    · intro q m here
      by_cases same : q = p
      · show s.pipe.empty = true ∧ s.pipe.writeopen = true
        simpa using waits
      · simp only [State.goto, Function.update_of_ne same] at here
        exact awake.readers q m here
    · intro q m left here
      by_cases same : q = p
      · simp [State.goto, same] at here
      · simp only [State.goto, Function.update_of_ne same] at here
        exact awake.writers q m left here
  · rw [if_neg waits]
    cases ran : pipereadLoop n s.pipe with
    | mk after got =>
      obtain ⟨holds, reads, -, -⟩ := pipereadLoop_spec awake.holds ran
      refine ⟨holds, awake.killed, ?_, ?_, fun _ _ => reads.trans isOpen⟩
      · intro q m here
        by_cases same : q = p
        · simp [State.goto, same] at here
        · simp only [State.goto, State.wakeWriters, Function.update_of_ne same] at here
          have asleep := awake.readers q m (wakeWriter_eq_reading.mp here)
          simp [asleep] at waits
      · intro q m left here
        by_cases same : q = p
        · simp [State.goto, same] at here
        · simp only [State.goto, State.wakeWriters, Function.update_of_ne same] at here
          exact absurd here wakeWriter_asleep

/-- **A step of an orderly run leaves nobody asleep without reason.** -/
theorem Awake.next {s after : State ι} (awake : Awake s) {label : Label ι}
    (orderly : Orderly s label) (moved : next s label = some after) : Awake after := by
  cases label with
  | write p bytes =>
    simp only [Pipe.next] at moved
    split at moved
    · obtain ⟨-, rfl⟩ : s.pipe.writeopen = true ∧ Pipe.pipewrite s p bytes.length bytes = after := by
        simpa using moved
      exact awake.pipewrite p _ bytes
    · cases moved
  | read p n =>
    simp only [Pipe.next] at moved
    split at moved
    · obtain ⟨isOpen, rfl⟩ : s.pipe.readopen = true ∧ Pipe.piperead s p n = after := by
        simpa using moved
      exact awake.piperead p n isOpen
    · cases moved
  | resume p =>
    simp only [Pipe.next] at moved
    split at moved
    · cases moved
      exact awake.pipewrite p _ _
    · rename_i place
      cases moved
      exact awake.piperead p _ (awake.opened p (by rw [place]; rfl))
    · cases moved
  | close writable =>
    cases moved
    have holds : ∀ reads writes, Holds { s.pipe with readopen := reads, writeopen := writes } s.sent
        s.received := fun _ _ => ⟨awake.holds.nread, awake.holds.nwrite, awake.holds.prefixed,
      awake.holds.room, awake.holds.slots⟩
    cases writable with
    | true =>
      refine ⟨holds _ _, awake.killed, fun q n here => absurd here wakeReader_asleep, ?_, ?_⟩
      · exact fun q n left here => awake.writers q n left (wakeReader_eq_writing.mp here)
      · exact fun q here => awake.opened q ((isReading_wakeReader _).symm.trans here)
    | false =>
      have nobody : ∀ q, (s.place q).wakeWriter.isReading = false := fun q =>
        (isReading_wakeWriter _).trans (orderly q)
      refine ⟨holds _ _, awake.killed, fun q n here => ?_,
        fun q n left here => absurd here wakeWriter_asleep, fun q here => ?_⟩
      · have reading : (s.place q).wakeWriter.isReading = true := by
          rw [show (s.place q).wakeWriter = _ from here]
          rfl
        simp [nobody q] at reading
      · exact absurd ((nobody q).symm.trans here) (by simp)
  | kill p => exact orderly.elim

/-- **Nobody sleeps for nothing.** While no process is killed, a sleeping reader means that the pipe
is empty and a sleeping writer that it is full; never do both kinds sleep. -/
theorem wakeups_not_lost {data : ℕ → UInt8} {s : State ι}
    (reach : Reach next Orderly (start data) s) :
    (∀ q n, s.place q = .reading n true → s.pipe.empty = true ∧ s.pipe.writeopen = true) ∧
      (∀ q n left, s.place q = .writing n left true →
        s.pipe.full = true ∧ s.pipe.readopen = true) ∧
      ∀ q n r m left, s.place q = .reading n true → s.place r ≠ .writing m left true := by
  have awake : Awake s := by
    refine reach.invariant Awake ?_ fun before label after awake orderly moved =>
      awake.next orderly moved
    exact ⟨holds_start data, fun _ => rfl, by simp [start], by simp [start],
      by simp [start, Place.isReading]⟩
  refine ⟨awake.readers, awake.writers, fun q n r m left reader writer => ?_⟩
  have empty := awake.holds.empty_iff.mp (awake.readers q n reader).1
  have full := awake.holds.full_iff.mp (awake.writers r m left writer).1
  rw [empty] at full
  simp [pipeSize] at full

/-- A reader that waits. -/
theorem wakeups_not_lost_reader : ∃ s : State (Fin 2), Reach next Orderly (start fun _ => 1) s ∧
    s.place 1 = .reading 2 true ∧
    (∀ q n, s.place q = .reading n true → s.pipe.empty = true ∧ s.pipe.writeopen = true) ∧
      (∀ q n left, s.place q = .writing n left true →
        s.pipe.full = true ∧ s.pipe.readopen = true) ∧
      ∀ q n r m left, s.place q = .reading n true → s.place r ≠ .writing m left true := by
  have run : ∃ s : State (Fin 2), Reach next Orderly (start fun _ => 1) s ∧
      s.place 1 = .reading 2 true :=
    exists_reach_of_execute [.write 0 [10], .read 1 2, .read 1 2] _ (by decide +kernel)
  obtain ⟨s, reach, test⟩ := run
  exact ⟨s, reach, test, wakeups_not_lost reach⟩

/-- **A killed writer strands the readers.** It puts in what fits and returns; the pipe is full, and
a reader that was asleep still is. -/
theorem killed_writer_strands {data : ℕ → UInt8} {s : State ι}
    (reach : Reachable next (start data) s) {p q : ι} (killed : s.killed p = true)
    {result : Option Result} (ready : s.place p = .user result)
    (isOpen : s.pipe.writeopen = true) {n : ℕ} (asleep : s.place q = .reading n true)
    {bytes : List UInt8} (many : pipeSize < bytes.length) :
    ∃ after, next s (.write p bytes) = some after ∧ after.place p = .user (some .error) ∧
      after.pipe.full = true ∧ after.place q = .reading n true := by
  have holds := holds_of_reach reach
  have other : q ≠ p := by
    rintro rfl
    simp [ready] at asleep
  cases ran : pipewriteLoop (s.killed p) bytes s.pipe with
  | mk pipe more =>
    obtain ⟨done, wrote⟩ := more
    obtain ⟨holds', -, -, outcome⟩ := pipewriteLoop_spec _ holds ran
    rcases outcome with ⟨-, all⟩ | ⟨left, -, isFull, ⟨-, -, alive⟩ | ⟨rfl, -⟩⟩
    · have room := holds'.room
      have ordered := holds.prefixed.length_le
      rw [all, List.length_append] at room
      omega
    · simp [killed] at alive
    · refine ⟨pipewrite s p bytes.length bytes, ?_, ?_, ?_, ?_⟩
      · simp [next, ready, isOpen]
      · simp [pipewrite, ran, State.goto]
      · simpa [pipewrite, ran, State.goto] using isFull
      · simpa [pipewrite, ran, State.goto, other] using asleep

/-- A writer of 600 bytes. -/
theorem killed_writer_strands_reader : ∃ s : State (Fin 2), Reachable next (start fun _ => 1) s ∧
    (s.killed 0 = true ∧ s.place 0 = .user none ∧ s.pipe.writeopen = true ∧
      s.place 1 = .reading 2 true) ∧
    ∃ after, next s (.write 0 (List.replicate 600 7)) = some after ∧
      after.place 0 = .user (some .error) ∧ after.pipe.full = true ∧
      after.place 1 = .reading 2 true := by
  have run : ∃ s : State (Fin 2), Reachable next (start fun _ => 1) s ∧
      (s.killed 0 = true ∧ s.place 0 = .user none ∧ s.pipe.writeopen = true ∧
        s.place 1 = .reading 2 true) :=
    exists_reach_of_execute [.read 1 2, .kill 0] _ (by decide +kernel)
  obtain ⟨s, reach, killed, ready, isOpen, asleep⟩ := run
  refine ⟨s, reach, ⟨killed, ready, isOpen, asleep⟩, ?_⟩
  exact killed_writer_strands reach killed ready isOpen asleep (by rw [List.length_replicate]; decide)

end Pipe

end Xv6
