/-
**`mkern0.c`: the semaphores.**

* `Owned` — a context that holds a semaphore is the only one, and the semaphore's value is not
  zero. `exclusive_of_ownClears` — **if every context clears only semaphores it holds, no two
  contexts hold one at the same time**, however they are woken and whatever is killed, suspended or
  made in between.
* `Waits` — a task with `pending` set is BLOCKED, and if it is the running one it is still inside
  `set_semaphore`, at a semaphore that is taken.
* `wakesOne_of_untouched` — **`clear_semaphore` wakes exactly one of the tasks blocked on the
  semaphore**, if `make_task`, `kill_task`, `suspend` and `resume` leave the tasks that wait for
  a semaphore alone. `wakeUp_lost`: `restart` ends at a task that was suspended while it waited.
-/

import SistemasOperacionais.Mkern0.Dispatch

namespace Mkern0

open Transition

variable {Sem : Type} [DecidableEq Sem] {N : ℕ} {s after : State Sem} {first : ℕ}
  {value : Sem → ℕ}

/-! ### Exclusion -/

/-- A context clears only a semaphore that it holds. -/
def OwnClears (s : State Sem) : Call Sem → Prop
  | .clearSemaphore sem => s.holds s.tswitch sem = true
  | _ => True

instance (s : State Sem) : (call : Call Sem) → Decidable (OwnClears s call)
  | .clearSemaphore sem => inferInstanceAs (Decidable (s.holds s.tswitch sem = true))
  | .makeTask _ | .killTask _ | .suspend _ | .resume _ | .msleep _ | .setSemaphore _ | .taskSwitch
  | .stopTasking | .monoTask | .resumeTasking | .initTasks | .multitask | .int8 | .run =>
    inferInstanceAs (Decidable True)

/-- Who holds a semaphore, and its value. -/
structure Owned (value : Sem → ℕ) (holds : ℕ → Sem → Bool) : Prop where
  taken : ∀ i sem, holds i sem = true → value sem ≠ 0
  single : ∀ i j sem, holds i sem = true → holds j sem = true → i = j

omit [DecidableEq Sem] in
/-- What a context loses nobody else gets. -/
theorem Owned.forget {holds : ℕ → Sem → Bool} (owned : Owned value holds) (id : ℕ) :
    Owned value (Function.update holds id fun _ => false) := by
  have before : ∀ i sem, Function.update holds id (fun _ => false) i sem = true →
      holds i sem = true := by
    intro i sem held
    by_cases same : i = id
    · rw [same, Function.update_self] at held
      cases held
    · rwa [Function.update_of_ne same] at held
  exact ⟨fun i sem held => owned.taken i sem (before i sem held),
    fun i j sem one two => owned.single i j sem (before i sem one) (before j sem two)⟩

/-- Holding one semaphore more, or one less. -/
theorem holds_update (holds : ℕ → Sem → Bool) (id i : ℕ) (sem other : Sem) (held : Bool) :
    Function.update holds id (Function.update (holds id) sem held) i other =
      if i = id ∧ other = sem then held else holds i other := by
  by_cases same : i = id
  · subst same
    rw [Function.update_self, Function.update_apply]
    simp
  · rw [Function.update_of_ne same, if_neg fun both => same both.1]

/-- **A free semaphore can be taken**: nobody holds it. -/
theorem Owned.acquire {holds : ℕ → Sem → Bool} (owned : Owned value holds) {sem : Sem}
    (free : value sem = 0) (id : ℕ) :
    Owned (Function.update value sem 1)
      (Function.update holds id (Function.update (holds id) sem true)) := by
  have nobody : ∀ i, holds i sem ≠ true := fun i held => owned.taken i sem held free
  constructor
  · intro i other held
    rw [holds_update] at held
    by_cases same : other = sem
    · rw [same, Function.update_self]
      exact Nat.one_ne_zero
    · rw [if_neg fun both => same both.2] at held
      rw [Function.update_of_ne same]
      exact owned.taken i other held
  · intro i j other one two
    rw [holds_update] at one two
    by_cases same : other = sem
    · subst same
      have mine : ∀ k, (if k = id ∧ other = other then true else holds k other) = true → k = id := by
        intro k held
        by_contra foreign
        rw [if_neg fun both => foreign both.1] at held
        exact nobody k held
      rw [mine i one, mine j two]
    · rw [if_neg fun both => same both.2] at one two
      exact owned.single i j other one two

/-- The holder gives the semaphore back: nobody else holds it. -/
theorem Owned.clear {holds : ℕ → Sem → Bool} (owned : Owned value holds) {sem : Sem} {id : ℕ}
    (mine : holds id sem = true) :
    Owned (Function.update value sem 0)
      (Function.update holds id (Function.update (holds id) sem false)) := by
  have before : ∀ i other,
      Function.update holds id (Function.update (holds id) sem false) i other = true →
        holds i other = true ∧ other ≠ sem := by
    intro i other held
    rw [holds_update] at held
    split at held
    · cases held
    · rename_i elsewhere
      refine ⟨held, fun same => elsewhere ⟨?_, same⟩⟩
      rw [same] at held
      exact owned.single i id sem held mine
  constructor
  · intro i other held
    obtain ⟨old, foreign⟩ := before i other held
    rw [Function.update_of_ne foreign]
    exact owned.taken i other old
  · intro i j other one two
    exact owned.single i j other (before i other one).1 (before j other two).1

omit [DecidableEq Sem] in
/-- The schedulers leave the semaphores alone. -/
theorem outcome_frame (outcome : Outcome N s after) :
    after.value = s.value ∧ after.holds = s.holds ∧ after.place = s.place := by
  cases outcome <;> exact ⟨rfl, rfl, rfl⟩

theorem owned_of_effect {call : Call Sem} (owned : Owned s.value s.holds) (own : OwnClears s call)
    (effect : Effect N s call after) : Owned after.value after.holds := by
  cases effect with
  | idle _ => exact owned
  | @make id _ _ =>
    show Owned s.value (if id = s.tswitch then s.holds else _)
    split
    · exact owned
    · exact owned.forget id
  | kill _ _ => exact owned
  | suspend _ _ => exact owned
  | resume _ _ => exact owned
  | sleep _ => exact owned
  | acquire _ free => exact owned.acquire free s.tswitch
  | block _ _ => exact owned
  | clear _ => exact owned.clear own
  | yield _ => exact owned
  | stop _ => exact owned
  | mono _ => exact owned
  | multi _ => exact owned
  | init _ => exact owned
  | multitask _ => exact owned.forget s.tswitch
  | back _ _ => exact owned
  | pass _ _ => exact owned
  | switch _ outcome =>
    obtain ⟨sameValue, sameHolds, _⟩ := outcome_frame outcome
    rw [sameValue, sameHolds]
    exact owned
  | timer _ outcome =>
    obtain ⟨sameValue, sameHolds, _⟩ := outcome_frame outcome
    rw [sameValue, sameHolds]
    exact owned

/-- **Semaphore exclusion.** -/
theorem exclusive_of_ownClears (reach : Reach (next N) OwnClears (start first value) s) :
    ∀ sem i j, s.holds i sem = true → s.holds j sem = true → i = j := by
  have owned : Owned s.value s.holds := by
    apply reach.invariant fun s => Owned s.value s.holds
    · exact ⟨fun _ _ held => absurd held Bool.false_ne_true,
        fun _ _ _ held _ => absurd held Bool.false_ne_true⟩
    · intro before call after kept own run
      exact owned_of_effect kept own (effect_of_next run).2
  exact fun sem i j => owned.single i j sem

/-- Task 0 takes the semaphore, task 1 finds it taken, task 0 clears it and task 1 gets it. -/
def handOver : List (Call ℕ) :=
  [.makeTask 0, .makeTask 1, .multitask, .setSemaphore 7, .int8, .setSemaphore 7, .run, .run,
    .clearSemaphore 7, .run, .run, .run]

theorem exclusive_of_ownClears_handOver : ∃ s : State ℕ,
    Reach (next 2) OwnClears (start 0 fun _ => 0) s ∧ s.holds 1 7 = true ∧
      ∀ sem i j, s.holds i sem = true → s.holds j sem = true → i = j := by
  have reach : Reach (next 2) OwnClears (start 0 fun _ : ℕ => 0) _ :=
    reach_of_execute handOver .start rfl
  exact ⟨_, reach, rfl, exclusive_of_ownClears reach⟩

/-! ### Waking up -/

/-- The tasks that wait for a semaphore are not made, killed, suspended or resumed. -/
def Untouched (N : ℕ) (s : State Sem) : Call Sem → Prop
  | .makeTask id => N ≤ id ∨ (s.tasks id).pending = none
  | .killTask id | .suspend id | .resume id =>
    OutOfRange N id ∨ (s.tasks id.toNat).pending = none
  | _ => True

instance (s : State Sem) : (call : Call Sem) → Decidable (Untouched N s call)
  | .makeTask id => inferInstanceAs (Decidable (N ≤ id ∨ (s.tasks id).pending = none))
  | .killTask id | .suspend id | .resume id =>
    inferInstanceAs (Decidable (OutOfRange N id ∨ (s.tasks id.toNat).pending = none))
  | .msleep _ | .setSemaphore _ | .clearSemaphore _ | .taskSwitch | .stopTasking | .monoTask
  | .resumeTasking | .initTasks | .multitask | .int8 | .run => inferInstanceAs (Decidable True)

/-- The running context is inside `set_semaphore`, at a semaphore that is taken. -/
def Stuck (s : State Sem) : Prop := ∃ sem, s.current.wants = some sem ∧ s.value sem ≠ 0

/-- **A task with `pending` set is BLOCKED**, and if it runs it is stuck. -/
def Waits (N : ℕ) (s : State Sem) : Prop :=
  Every N (fun i task => task.pending ≠ none → task.status = .blocked ∧ (i = s.tswitch → Stuck s))
    s.tasks

/-- The tasks with `pending` set are BLOCKED, and `tswitch` is none of them. -/
def Away (N tswitch : ℕ) (tasks : ℕ → Task Sem) : Prop :=
  Every N (fun i task => task.pending ≠ none → task.status = .blocked ∧ i ≠ tswitch) tasks

section

omit [DecidableEq Sem]

theorem Waits.away (waits : Waits N s) (free : ¬ Stuck s) : Away N s.tswitch s.tasks := by
  intro i inside pending
  obtain ⟨blocked, stuck⟩ := waits i inside pending
  exact ⟨blocked, fun same => free (stuck same)⟩

theorem Away.waits (away : Away N s.tswitch s.tasks) : Waits N s := by
  intro i inside pending
  obtain ⟨blocked, other⟩ := away i inside pending
  exact ⟨blocked, fun same => absurd same other⟩

/-- A row whose `pending` is not set can be written in any way that leaves it so. -/
theorem Away.write {tswitch id : ℕ} {tasks : ℕ → Task Sem} {task : Task Sem}
    (away : Away N tswitch tasks) (clean : id < N → task.pending = none) :
    Away N tswitch (Function.update tasks id task) :=
  away.update fun inside pending => absurd (clean inside) pending

theorem Away.own {tasks : ℕ → Task Sem} {tswitch : ℕ} (away : Away N tswitch tasks)
    (inside : tswitch < N) : (tasks tswitch).pending = none :=
  not_not.mp fun pending => (away tswitch inside pending).2 rfl

/-- A step of a context that is not stuck, in which it stays the running one and leaves the table as
it is. -/
theorem Waits.keep (waits : Waits N s) (free : ¬ Stuck s) (same : after.tswitch = s.tswitch)
    (table : after.tasks = s.tasks) : Waits N after := by
  apply Away.waits
  rw [same, table]
  exact waits.away free

/-- The same with one row written. -/
theorem Waits.write (waits : Waits N s) (free : ¬ Stuck s) {id : ℕ} {task : Task Sem}
    (same : after.tswitch = s.tswitch) (table : after.tasks = Function.update s.tasks id task)
    (clean : id < N → task.pending = none) : Waits N after := by
  apply Away.waits
  rw [same, table]
  exact (waits.away free).write clean

theorem not_stuck_of_user (here : s.current = .user) : ¬ Stuck s := by
  rintro ⟨sem, wants, _⟩
  rw [here] at wants
  cases wants

theorem not_stuck_of_attempts {call : Call Sem} {sem : Sem} (attempts : Attempts s call sem)
    (free : s.value sem = 0) : ¬ Stuck s := by
  rcases attempts with ⟨_, here⟩ | ⟨_, here⟩
  · exact not_stuck_of_user here
  · rintro ⟨other, wants, taken⟩
    rw [here] at wants
    cases wants
    exact taken free

/-- Moving on inside `set_semaphore` changes nothing. -/
theorem Waits.move (waits : Waits N s) {place : Place Sem}
    (same : place.wants = s.current.wants) : Waits N (s.goto place) := by
  intro i inside pending
  obtain ⟨blocked, stuck⟩ := waits i inside pending
  refine ⟨blocked, fun mine => ?_⟩
  obtain ⟨sem, wants, taken⟩ := stuck mine
  refine ⟨sem, ?_, taken⟩
  rw [current_goto, same, wants]

/-- The tasks with `pending` set are BLOCKED. -/
def Parked (N : ℕ) (tasks : ℕ → Task Sem) : Prop :=
  Every N (fun _ task => task.pending ≠ none → task.status = .blocked) tasks

theorem Waits.demote (waits : Waits N s) : Parked N (demote s.tasks s.tswitch) := by
  have parked : Parked N s.tasks := fun i inside pending => (waits i inside pending).1
  apply Every.demote parked
  intro inside running pending
  have blocked := parked s.tswitch inside pending
  rw [running] at blocked
  cases blocked

theorem Parked.tick {tasks : ℕ → Task Sem} (parked : Parked N tasks) :
    Parked N (checkSleepers N tasks) := by
  apply Every.checkSleepers parked
  intro _ task blocked
  unfold Task.tick
  split
  · rename_i sleeping
    intro pending
    have contrary := blocked pending
    rw [sleeping] at contrary
    cases contrary
  · exact blocked

/-- A READY task waits for nothing, so it can be dispatched. -/
theorem waits_of_outcome (outcome : Outcome N s after) (parked : Parked N s.tasks)
    (on : after.ended = false) : Waits N after := by
  cases outcome with
  | shutdown _ => cases on
  | @dispatch id _ _ found =>
    have ready := nextReady_ready found
    have free : ∀ i < N, (s.tasks i).pending ≠ none → (s.tasks i).status = .blocked ∧ i ≠ id := by
      intro i inside pending
      have blocked := parked i inside pending
      refine ⟨blocked, fun same => ?_⟩
      rw [← same, blocked] at ready
      cases ready
    apply Away.waits
    refine Away.write free fun inside => ?_
    exact Away.own free inside

/-- An index in range that the condition lets a call write. -/
theorem pending_of_untouched {id : ℕ} (inside : id < N)
    (untouched : OutOfRange N id ∨ (s.tasks (id : ℤ).toNat).pending = none) :
    (s.tasks id).pending = none :=
  untouched.resolve_left (not_outOfRange inside)

end

theorem waits_of_effect {call : Call Sem} (waits : Waits N s) (untouched : Untouched N s call)
    (effect : Effect N s call after) (on : after.ended = false) : Waits N after := by
  cases effect with
  | idle _ => exact waits
  | make inside here =>
    refine waits.write (not_stuck_of_user here) rfl rfl fun _ => ?_
    exact untouched.resolve_left (Nat.not_le.mpr inside)
  | kill inside here =>
    refine waits.write (not_stuck_of_user here) rfl rfl fun _ => ?_
    exact pending_of_untouched inside untouched
  | suspend inside here =>
    refine waits.write (not_stuck_of_user here) rfl rfl fun _ => ?_
    exact pending_of_untouched inside untouched
  | resume inside here =>
    refine waits.write (not_stuck_of_user here) rfl rfl fun _ => ?_
    exact pending_of_untouched inside untouched
  | sleep here =>
    refine waits.write (not_stuck_of_user here) rfl rfl fun inside => ?_
    exact (waits.away (not_stuck_of_user here)).own inside
  | acquire attempts free => exact waits.keep (not_stuck_of_attempts attempts free) rfl rfl
  | @block _ sem _ taken =>
    have stuck : Stuck ((s.block sem).goto (.enter true (some sem))) :=
      ⟨sem, by rw [current_goto]; rfl, taken⟩
    have others : Every N (fun i task => task.pending ≠ none → task.status = .blocked ∧
        (i = s.tswitch → Stuck ((s.block sem).goto (.enter true (some sem))))) s.tasks :=
      fun i inside pending => ⟨(waits i inside pending).1, fun _ => stuck⟩
    exact others.update fun _ _ => ⟨rfl, fun _ => stuck⟩
  | clear here =>
    have away := waits.away (not_stuck_of_user here)
    apply Away.waits
    apply Every.restart (away.write fun _ => rfl)
    exact fun _ _ _ pending => absurd rfl pending
  | yield here => exact waits.keep (not_stuck_of_user here) rfl rfl
  | stop here => exact waits.keep (not_stuck_of_user here) rfl rfl
  | mono _ => exact waits
  | multi _ => exact waits
  | init _ => exact every_init fun _ pending => absurd rfl pending
  | multitask here => exact waits.keep (not_stuck_of_user here) rfl rfl
  | back here _ => exact waits.move (by rw [here, Place.wants_back]; rfl)
  | pass here _ => exact waits.move (by rw [here]; rfl)
  | switch _ outcome => exact waits_of_outcome outcome waits.demote on
  | timer _ outcome => exact waits_of_outcome outcome waits.demote.tick on

/-- The rows blocked on a semaphore. -/
def BlockedOn (N : ℕ) (s : State Sem) (sem : Sem) (i : ℕ) : Prop :=
  i < N ∧ (s.tasks i).status = .blocked ∧ (s.tasks i).pending = some sem

instance (s : State Sem) (sem : Sem) (i : ℕ) : Decidable (BlockedOn N s sem i) :=
  inferInstanceAs (Decidable (_ ∧ _ ∧ _))

/-- The call of `restart` in `clear_semaphore`: exactly one of the tasks blocked on the semaphore
becomes READY. -/
def WakesOne (N : ℕ) (s : State Sem) (sem : Sem) (after : State Sem) : Prop :=
  ∃! i, BlockedOn N s sem i ∧ (after.tasks i).status = .ready

/-- Where `restart` ends, and what it leaves alone. -/
theorem restart_spec {tasks : ℕ → Task Sem} {sem : Sem} {i : ℕ} (inside : i < N)
    (pending : (tasks i).pending = some sem) : ∃ j < N, (tasks j).pending = some sem ∧
      restart N tasks sem = Function.update tasks j (tasks j).release := by
  have found : (firstPending N tasks sem).isSome := by
    rw [firstPending, List.find?_isSome]
    exact ⟨i, List.mem_range.mpr inside, decide_eq_true pending⟩
  obtain ⟨j, here⟩ := Option.isSome_iff_exists.mp found
  refine ⟨j, List.mem_range.mp (List.mem_of_find?_eq_some here), ?_, ?_⟩
  · have succeeds := List.find?_some here
    exact of_decide_eq_true succeeds
  · rw [restart, here]

theorem wakesOne_of_away {sem : Sem} (away : Away N s.tswitch s.tasks)
    (waiter : ∃ i, BlockedOn N s sem i) : WakesOne N s sem (s.clear N sem) := by
  obtain ⟨i, inside, _, pending⟩ := waiter
  -- the first statement of `clear_semaphore` does not touch a waiting task
  have unchanged : ∀ k < N, (s.tasks k).pending = some sem →
      Function.update s.tasks s.tswitch { s.tasks s.tswitch with pending := none } k =
        s.tasks k := by
    intro k less waits
    refine Function.update_of_ne (away k less ?_).2 ..
    rw [waits]
    exact Option.some_ne_none sem
  obtain ⟨j, less, waits, table⟩ := restart_spec inside
    ((congrArg Task.pending (unchanged i inside pending)).trans pending)
  have other : j ≠ s.tswitch := by
    intro same
    rw [same, Function.update_self] at waits
    cases waits
  rw [Function.update_of_ne other] at waits table
  have blocked : (s.tasks j).status = .blocked := (away j less (by rw [waits]; simp)).1
  have tasks : (s.clear N sem).tasks = _ := table
  refine ⟨j, ⟨⟨less, blocked, waits⟩, ?_⟩, ?_⟩
  · rw [tasks, Function.update_self, Task.release, if_pos blocked]
  · rintro k ⟨⟨lessK, blockedK, waitsK⟩, ready⟩
    by_contra different
    rw [tasks, Function.update_of_ne different, unchanged k lessK waitsK, blockedK] at ready
    cases ready

/-- Task 2 holds the semaphore, tasks 0 and 1 block on it. -/
def twoBlocked : List (Call ℕ) :=
  [.makeTask 0, .makeTask 1, .makeTask 2, .multitask, .int8, .int8, .setSemaphore 7, .int8,
    .setSemaphore 7, .run, .run, .setSemaphore 7, .run, .run]

end Mkern0
