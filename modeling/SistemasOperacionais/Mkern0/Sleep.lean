/-
**`mkern0.c`: how long a task sleeps.**

`msleep` sets `sleep` and the status of the caller, `check_sleepers` counts down before it tests for
zero, and of the two schedulers only `int8_task_switch` calls it, not in single-task mode.

* `counted` — a step of the kernel, with the timer interrupts handled so far.
* `Asleep` — the caller is SLEEPING with `left` interrupts to go, up to `2 ^ 16` of them, and is not
  inside `set_semaphore`. One step keeps it (`asleep_of_next`), and a handled interrupt takes one
  off (`asleep_of_handled`), whatever the other tasks do.
* `sleep_duration` — **a task that sleeps `ticks` interrupts, at least one, is READY at exactly the
  `ticks`-th**, if nobody changes its status meanwhile.
* `zero_sleeps_on` — `msleep(0)` wraps: the task sleeps on for `2 ^ 16` interrupts.
  `sleeper_blocked` — a task that calls `msleep` in single-task mode goes on running, and a
  semaphore it waits for then takes the place of its sleep.
-/

import SistemasOperacionais.Mkern0.Dispatch

namespace Mkern0

open Transition

variable {Sem : Type} {N id left : ℕ} {s after : State Sem}

/-! ### Counting interrupts -/

/-- A timer interrupt that `int8_task_switch` does not return from at once. -/
def Handles (s : State Sem) (call : Call Sem) : Prop :=
  call = .int8 ∧ s.singleTask = false

instance (s : State Sem) (call : Call Sem) [DecidableEq Sem] : Decidable (Handles s call) :=
  inferInstanceAs (Decidable (_ ∧ _))

/-- A step of the kernel, with the number of interrupts handled. -/
def counted [DecidableEq Sem] (N : ℕ) (c : State Sem × ℕ) (call : Call Sem) :
    Option (State Sem × ℕ) :=
  (next N c.1 call).map fun after => (after, if Handles c.1 call then c.2 + 1 else c.2)

/-- Nobody resumes, suspends, kills or makes task `id`, nor all tasks anew; and if it still has the
processor, it neither sleeps again nor waits for a semaphore. -/
def Undisturbed (id : ℕ) (s : State Sem) : Call Sem → Prop
  | .makeTask i => i ≠ id
  | .killTask i | .suspend i | .resume i => i ≠ id
  | .initTasks => False
  | .msleep _ | .setSemaphore _ => s.tswitch ≠ id
  | _ => True

instance (id : ℕ) (s : State Sem) : (call : Call Sem) → Decidable (Undisturbed id s call)
  | .makeTask i => inferInstanceAs (Decidable (i ≠ id))
  | .killTask i | .suspend i | .resume i => inferInstanceAs (Decidable (i ≠ (id : ℤ)))
  | .initTasks => inferInstanceAs (Decidable False)
  | .msleep _ | .setSemaphore _ => inferInstanceAs (Decidable (s.tswitch ≠ id))
  | .clearSemaphore _ | .taskSwitch | .stopTasking | .monoTask | .resumeTasking | .multitask
  | .int8 | .run => inferInstanceAs (Decidable True)

/-! ### The row of a sleeping task -/

/-- SLEEPING, with `left` interrupts to go. -/
structure Task.Sleeps (left : ℕ) (task : Task Sem) : Prop where
  status : task.status = .sleeping
  sleep : task.sleep = Wrap.int16 left
  low : 1 ≤ left
  high : left ≤ 65536

/-- What `check_sleepers` leaves in `sleep`. -/
theorem Task.Sleeps.count {task : Task Sem} (sleeps : task.Sleeps left) :
    Wrap.int16 (task.sleep - 1) = Wrap.int16 (left - 1 : ℕ) := by
  rw [sleeps.sleep, Wrap.int16_sub, Nat.cast_sub sleeps.low]
  rfl

/-- The last interrupt wakes the task. -/
theorem Task.Sleeps.wakes {task : Task Sem} (sleeps : task.Sleeps 1) :
    task.tick.status = .ready := by
  have zero : Wrap.int16 (task.sleep - 1) = 0 := sleeps.count
  rw [Task.tick, if_pos sleeps.status]
  exact if_pos zero

/-- Every other interrupt takes one off. -/
theorem Task.Sleeps.tick {task : Task Sem} (sleeps : task.Sleeps left) (more : left ≠ 1) :
    task.tick.Sleeps (left - 1) := by
  obtain ⟨low, high⟩ := And.intro sleeps.low sleeps.high
  have nonzero : Wrap.int16 (task.sleep - 1) ≠ 0 := by
    rw [sleeps.count, ne_eq, Wrap.int16_eq_zero_iff]
    omega
  rw [Task.tick, if_pos sleeps.status]
  exact ⟨if_neg nonzero, sleeps.count, by omega, by omega⟩

theorem Task.Sleeps.release {task : Task Sem} (sleeps : task.Sleeps left) :
    task.release.Sleeps left := by
  refine ⟨?_, sleeps.sleep, sleeps.low, sleeps.high⟩
  show (if task.status = .blocked then Status.ready else task.status) = .sleeping
  rw [sleeps.status]
  rfl

/-! ### The table -/

variable {tasks : ℕ → Task Sem}

/-- Another row is written. -/
theorem sleeps_update (sleeps : (tasks id).Sleeps left) {row : ℕ} (other : row ≠ id)
    {task : Task Sem} : (Function.update tasks row task id).Sleeps left := by
  rwa [Function.update_of_ne other.symm]

/-- A sleeping task is not RUNNING, so the schedulers do not make it READY. -/
theorem demote_of_sleeps (sleeps : (tasks id).Sleeps left) (tswitch : ℕ) :
    demote tasks tswitch id = tasks id := by
  unfold demote
  split
  · rename_i running
    have other : id ≠ tswitch := by
      rintro rfl
      rw [sleeps.status] at running
      cases running
    exact Function.update_of_ne other ..
  · rfl

theorem tickTable_of_sleeps (sleeps : (s.tasks id).Sleeps left) (inside : id < N) :
    tickTable N s id = (s.tasks id).tick := by
  unfold tickTable checkSleepers
  rw [if_pos inside, demote_of_sleeps sleeps]

theorem sleeps_restart [DecidableEq Sem] (sleeps : (tasks id).Sleeps left) (sem : Sem) :
    (restart N tasks sem id).Sleeps left := by
  unfold restart
  cases firstPending N tasks sem with
  | none => exact sleeps
  | some row =>
    by_cases same : row = id
    · show (Function.update tasks row (tasks row).release id).Sleeps left
      rw [same, Function.update_self]
      exact sleeps.release
    · exact sleeps_update sleeps same

/-- The caller of `clear_semaphore` may itself be the sleeper, in single-task mode: it loses what it
waits for, and sleeps on. -/
theorem sleeps_clear [DecidableEq Sem] (sleeps : (s.tasks id).Sleeps left) (sem : Sem) :
    ((s.clear N sem).tasks id).Sleeps left := by
  refine sleeps_restart ?_ sem
  by_cases same : s.tswitch = id
  · subst same
    rw [Function.update_self]
    exact ⟨sleeps.status, sleeps.sleep, sleeps.low, sleeps.high⟩
  · exact sleeps_update sleeps same

theorem freeAll_fields (N : ℕ) (tasks : ℕ → Task Sem) (id : ℕ) :
    (freeAll N tasks id).status = (tasks id).status ∧
      (freeAll N tasks id).sleep = (tasks id).sleep := by
  unfold freeAll
  split <;> exact ⟨rfl, rfl⟩

/-- The schedulers select READY tasks only. -/
theorem sleeps_of_outcome (outcome : Outcome N s after) (sleeps : (s.tasks id).Sleeps left) :
    (after.tasks id).Sleeps left := by
  cases outcome with
  | shutdown _ =>
    obtain ⟨status, sleep⟩ := freeAll_fields N s.tasks id
    exact ⟨status.trans sleeps.status, sleep.trans sleeps.sleep, sleeps.low, sleeps.high⟩
  | @dispatch row _ _ found =>
    have other : row ≠ id := by
      rintro rfl
      have ready := nextReady_ready found
      rw [sleeps.status] at ready
      cases ready
    exact sleeps_update sleeps other

/-- A READY task is READY or RUNNING when a scheduler is done. -/
theorem ready_of_outcome (outcome : Outcome N s after) (ready : (s.tasks id).status = .ready) :
    (after.tasks id).status = .ready ∨ (after.tasks id).status = .running := by
  cases outcome with
  | shutdown _ => exact .inl ((freeAll_fields N s.tasks id).1.trans ready)
  | @dispatch row _ _ _ =>
    by_cases same : row = id
    · right
      show (setStatus s.tasks row .running id).status = .running
      rw [same, setStatus, Function.update_self]
    · left
      show (setStatus s.tasks row .running id).status = .ready
      rwa [setStatus, Function.update_of_ne (Ne.symm same)]

theorem place_of_outcome (outcome : Outcome N s after) : after.place = s.place := by
  cases outcome <;> rfl

/-! ### One step -/

/-- **Task `id` sleeps for `left` interrupts more**, and is not inside `set_semaphore`. -/
structure Asleep (id left : ℕ) (s : State Sem) : Prop where
  sleeps : (s.tasks id).Sleeps left
  outside : (s.place id).wants = none

/-- The running context goes on somewhere outside `set_semaphore`, or is another one. -/
theorem Asleep.goto (asleep : Asleep id left s) {place : Place Sem}
    (free : s.tswitch = id → place.wants = none) : Asleep id left (s.goto place) := by
  have outside := asleep.outside
  refine ⟨asleep.sleeps, ?_⟩
  show (Function.update s.place s.tswitch place id).wants = none
  by_cases same : s.tswitch = id
  · rw [same, Function.update_self]
    exact free same
  · rwa [Function.update_of_ne (Ne.symm same)]

/-- The running context stays where it is in `set_semaphore`. -/
theorem Asleep.move (asleep : Asleep id left s) {place : Place Sem}
    (same : place.wants = s.current.wants) : Asleep id left (s.goto place) := by
  refine asleep.goto ?_
  rintro rfl
  exact same.trans asleep.outside

/-- A sleeping task that is left alone does not come to wait for a semaphore. -/
theorem Asleep.tswitch_ne {call : Call Sem} {sem : Sem} (asleep : Asleep id left s)
    (undisturbed : Undisturbed id s call) (attempts : Attempts s call sem) : s.tswitch ≠ id := by
  rcases attempts with ⟨rfl, _⟩ | ⟨_, here⟩
  · exact undisturbed
  · rintro rfl
    have outside : s.current.wants = none := asleep.outside
    rw [here] at outside
    cases outside

/-- **A step that is not the timer's keeps the sleeper asleep.** -/
theorem asleep_of_effect [DecidableEq Sem] {call : Call Sem} (asleep : Asleep id left s)
    (undisturbed : Undisturbed id s call) (untimed : call ≠ .int8)
    (effect : Effect N s call after) : Asleep id left after := by
  have sleeps := asleep.sleeps
  have outside := asleep.outside
  cases effect with
  | idle _ => exact asleep
  | @make row _ _ =>
    refine ⟨sleeps_update sleeps undisturbed, ?_⟩
    show ((if row = s.tswitch then s.place else Function.update s.place row .user) id).wants = none
    split
    · exact outside
    · rwa [Function.update_of_ne (Ne.symm undisturbed)]
  | kill _ _ =>
    have other := fun same => undisturbed (congrArg Int.ofNat same)
    refine Asleep.goto ?_ fun _ => rfl
    exact ⟨sleeps_update sleeps other, outside⟩
  | suspend _ _ =>
    have other := fun same => undisturbed (congrArg Int.ofNat same)
    refine Asleep.goto ?_ fun _ => rfl
    exact ⟨sleeps_update sleeps other, outside⟩
  | resume _ _ =>
    have other := fun same => undisturbed (congrArg Int.ofNat same)
    exact ⟨sleeps_update sleeps other, outside⟩
  | sleep _ =>
    refine Asleep.goto ?_ fun _ => rfl
    exact ⟨sleeps_update sleeps undisturbed, outside⟩
  | acquire _ _ =>
    refine Asleep.goto ?_ fun _ => rfl
    exact ⟨sleeps, outside⟩
  | block attempts _ =>
    have other := asleep.tswitch_ne undisturbed attempts
    refine Asleep.goto ?_ fun same => absurd same other
    exact ⟨sleeps_update sleeps other, outside⟩
  | @clear sem _ =>
    refine Asleep.goto ?_ fun _ => rfl
    exact ⟨sleeps_clear sleeps sem, outside⟩
  | yield _ => exact asleep.goto fun _ => rfl
  | stop _ =>
    refine Asleep.goto ?_ fun _ => rfl
    exact ⟨sleeps, outside⟩
  | mono _ => exact ⟨sleeps, outside⟩
  | multi _ => exact ⟨sleeps, outside⟩
  | init _ => exact undisturbed.elim
  | multitask _ =>
    have gone : Asleep id left (s.goto .user) := asleep.goto fun _ => rfl
    exact ⟨gone.sleeps, gone.outside⟩
  | back here _ => exact asleep.move (by rw [here, Place.wants_back]; rfl)
  | pass here _ => exact asleep.move (by rw [here]; rfl)
  | @switch _ wait _ here outcome =>
    have moved : Asleep id left (s.goto (.back wait)) :=
      asleep.move (by rw [here, Place.wants_back]; rfl)
    have same : switchTable s id = s.tasks id := demote_of_sleeps sleeps s.tswitch
    refine ⟨sleeps_of_outcome outcome ?_, ?_⟩
    · show (switchTable s id).Sleeps left
      rwa [same]
    · rw [place_of_outcome outcome]
      exact moved.outside
  | timer _ _ => exact absurd rfl untimed

section

variable [DecidableEq Sem]

/-- The timer in single-task mode changes nothing. -/
theorem next_int8_single (single : s.singleTask = true) (run : next N s .int8 = some after) :
    after = s := by
  unfold next int8TaskSwitch at run
  rw [single] at run
  split at run
  · cases run
  · dsimp only at run
    split at run
    · cases run
      rfl
    · cases run

/-- Otherwise `check_sleepers` runs, and the scheduler selects a task. -/
theorem next_int8_handled (handled : s.singleTask = false) (run : next N s .int8 = some after) :
    Outcome N { s with tasks := tickTable N s } after := by
  obtain ⟨_, effect⟩ := effect_of_next run
  cases effect with
  | idle single =>
    have both := handled.symm.trans single
    cases both
  | timer _ outcome => exact outcome
  | acquire attempts _ => exact absurd attempts.mayAttempt Bool.false_ne_true
  | block attempts _ => exact absurd attempts.mayAttempt Bool.false_ne_true

/-- **A handled interrupt takes one off.** -/
theorem asleep_of_handled (asleep : Asleep id left s) (inside : id < N) (more : left ≠ 1)
    (handled : s.singleTask = false) (run : next N s .int8 = some after) :
    Asleep id (left - 1) after := by
  have outcome := next_int8_handled handled run
  refine ⟨sleeps_of_outcome outcome ?_, ?_⟩
  · show (tickTable N s id).Sleeps (left - 1)
    rw [tickTable_of_sleeps asleep.sleeps inside]
    exact asleep.sleeps.tick more
  · rw [place_of_outcome outcome]
    exact asleep.outside

/-- **The last one wakes the task.** -/
theorem awake_of_handled (asleep : Asleep id 1 s) (inside : id < N)
    (handled : s.singleTask = false) (run : next N s .int8 = some after) :
    (tickTable N s id).status = .ready ∧
      ((after.tasks id).status = .ready ∨ (after.tasks id).status = .running) := by
  have ready : (tickTable N s id).status = .ready := by
    rw [tickTable_of_sleeps asleep.sleeps inside]
    exact asleep.sleeps.wakes
  exact ⟨ready, ready_of_outcome (next_int8_handled handled run) ready⟩

/-- **Every other step keeps the sleeper asleep.** -/
theorem asleep_of_next {call : Call Sem} (asleep : Asleep id left s)
    (undisturbed : Undisturbed id s call) (unhandled : ¬ Handles s call)
    (run : next N s call = some after) : Asleep id left after := by
  by_cases timed : call = .int8
  · subst timed
    have single : s.singleTask = true :=
      Bool.eq_true_of_not_eq_false fun multi => unhandled ⟨rfl, multi⟩
    rwa [next_int8_single single run]
  · exact asleep_of_effect asleep undisturbed timed (effect_of_next run).2

/-! ### Whole runs -/

/-- `msleep` puts the caller to sleep; `0` is as good as `2 ^ 16`. -/
theorem asleep_of_msleep {ticks : ℤ} (run : next N s (.msleep ticks) = some after)
    (same : Wrap.int16 ticks = Wrap.int16 left) (low : 1 ≤ left) (high : left ≤ 65536) :
    Asleep s.tswitch left after := by
  obtain ⟨_, effect⟩ := effect_of_next run
  cases effect with
  | idle refused => exact refused.elim
  | sleep here =>
    refine ⟨?_, ?_⟩
    · show (Function.update s.tasks s.tswitch _ s.tswitch).Sleeps left
      rw [Function.update_self]
      exact ⟨rfl, same, low, high⟩
    · show (Function.update s.place s.tswitch _ s.tswitch).wants = none
      rw [Function.update_self]
      rfl
  | acquire attempts _ => exact absurd attempts.mayAttempt Bool.false_ne_true
  | block attempts _ => exact absurd attempts.mayAttempt Bool.false_ne_true

/-- **After `k` handled interrupts of `n` the task still has `n - k` to go.** -/
theorem asleep_of_reach {first : State Sem} {c : State Sem × ℕ} {n : ℕ} (inside : id < N)
    (asleep : Asleep id n first)
    (reach : Reach (counted N) (fun c => Undisturbed id c.1) (first, 0) c) (early : c.2 < n) :
    Asleep id (n - c.2) c.1 := by
  refine reach.invariant (fun c : State Sem × ℕ => c.2 < n → Asleep id (n - c.2) c.1) ?_ ?_ early
  · exact fun _ => asleep
  · rintro ⟨before, k⟩ call ⟨_, _⟩ kept undisturbed run early
    obtain ⟨after, moved, made⟩ := Option.map_eq_some_iff.mp run
    cases made
    by_cases handles : Handles before call
    · have ⟨timed, handled⟩ := handles
      subst timed
      simp only [if_pos handles] at early ⊢
      rw [Nat.sub_add_eq]
      exact asleep_of_handled (kept (by omega)) inside (by omega) handled moved
    · simp only [if_neg handles] at early ⊢
      exact asleep_of_next (kept early) undisturbed handles moved

/-- **How long a task sleeps**: from its call of `msleep(ticks)` it is SLEEPING until
`int8_task_switch` has handled `ticks` interrupts, and at the last of them it is READY, and may be
selected at once. -/
theorem sleep_duration {first : State Sem} {ticks : ℤ} {c : State Sem × ℕ}
    (inside : s.tswitch < N) (positive : 1 ≤ ticks) (fits : ticks ≤ 32767)
    (called : next N s (.msleep ticks) = some first)
    (reach : Reach (counted N) (fun c => Undisturbed s.tswitch c.1) (first, 0) c) :
    (c.2 < max ticks 1 → (c.1.tasks s.tswitch).status = .sleeping) ∧
      (c.2 + 1 = max ticks 1 → ∀ after, next N c.1 .int8 = some after →
        c.1.singleTask = false → (tickTable N c.1 s.tswitch).status = .ready ∧
          ((after.tasks s.tswitch).status = .ready ∨
            (after.tasks s.tswitch).status = .running)) := by
  obtain ⟨n, rfl⟩ : ∃ n : ℕ, ticks = n := ⟨ticks.toNat, by omega⟩
  rw [max_eq_left positive]
  have asleep : Asleep s.tswitch n first := asleep_of_msleep called rfl (by omega) (by omega)
  refine ⟨fun early => ?_, fun last after moved handled => ?_⟩
  · exact (asleep_of_reach inside asleep reach (by omega)).sleeps.status
  · have one : n - c.2 = 1 := by omega
    have final := asleep_of_reach inside asleep reach (by omega)
    rw [one] at final
    exact awake_of_handled final inside handled moved

end

/-- Two tasks, the first one running. -/
def twoTasks (value : Unit → ℕ) : State Unit :=
  ((((start 0 value).make 0).make 1).multitask)

theorem reachable_twoTasks (value : Unit → ℕ) :
    Reachable (next 2) (start 0 value) (twoTasks value) := by
  have first : next 2 (start 0 value) (.makeTask 0) = some ((start 0 value).make 0) := rfl
  have second : next 2 ((start 0 value).make 0) (.makeTask 1) =
      some (((start 0 value).make 0).make 1) := rfl
  have third : next 2 (((start 0 value).make 0).make 1) .multitask = some (twoTasks value) := rfl
  exact .step (.step (.step .start trivial first) trivial second) trivial third

/-- A task that sleeps two interrupts: it sleeps through the first, with a timer interrupt between
`enable()` and its own `task_switch`. -/
theorem sleep_duration_two : ∃ c : State Unit × ℕ, c.2 = 1 ∧ c.1.singleTask = false ∧
    (c.1.tasks 0).status = .sleeping ∧
      ∀ after, next 2 c.1 .int8 = some after → (tickTable 2 c.1 0).status = .ready ∧
        ((after.tasks 0).status = .ready ∨ (after.tasks 0).status = .running) := by
  have called : next 2 (twoTasks fun _ => 0) (.msleep 2) =
      some (((twoTasks fun _ => 0).sleep 2).goto (.enter false none)) := rfl
  obtain ⟨c, reach, one, multi⟩ : ∃ c : State Unit × ℕ,
      Reach (counted 2) (fun c => Undisturbed 0 c.1)
        (((twoTasks fun _ => 0).sleep 2).goto (.enter false none), 0) c ∧
      c.2 = 1 ∧ c.1.singleTask = false := exists_reach_of_execute [.int8] _ (by decide +kernel)
  have law := sleep_duration (by decide) (by decide) (by decide) called reach
  rw [one] at law
  exact ⟨c, one, multi, law.1 (by decide), fun after moved => law.2 (by decide) after moved multi⟩

/-- **`msleep(0)` is not one interrupt**: the first leaves the task SLEEPING, and so does every one
before the `2 ^ 16`-th. -/
theorem zero_sleeps_on : ∃ s first : State Unit, Reachable (next 2) (start 0 fun _ => 0) s ∧
    s.tswitch = 0 ∧ next 2 s (.msleep 0) = some first ∧
    (∃ c, Reach (counted 2) (fun c => Undisturbed 0 c.1) (first, 0) c ∧ c.2 = 1 ∧
      (c.1.tasks 0).status = .sleeping) ∧
    ∀ c, Reach (counted 2) (fun c => Undisturbed 0 c.1) (first, 0) c → c.2 < 65536 →
      (c.1.tasks 0).status = .sleeping := by
  have called : next 2 (twoTasks fun _ => 0) (.msleep 0) =
      some (((twoTasks fun _ => 0).sleep 0).goto (.enter false none)) := rfl
  refine ⟨_, _, reachable_twoTasks _, rfl, called, ?_, fun c reach early => ?_⟩
  · exact exists_reach_of_execute [.int8] _ (by decide +kernel)
  · have asleep : Asleep 0 65536 _ := asleep_of_msleep called (by decide) (by decide) (by decide)
    exact (asleep_of_reach (by decide) asleep reach early).sleeps.status

/-- A task that calls `msleep(1)` in single-task mode goes on, and waits for a semaphore in multi-task
mode before the interrupt comes: that finds it BLOCKED. -/
theorem sleeper_blocked : ∃ s first : State Unit, Reachable (next 2) (start 0 fun _ => 1) s ∧
    s.tswitch = 0 ∧ next 2 s (.msleep 1) = some first ∧
    ∃ c, Reach (counted 2) (fun c call => call = .setSemaphore () ∨ Undisturbed 0 c.1 call)
      (first, 0) c ∧ c.2 = 1 ∧ (c.1.tasks 0).status = .blocked := by
  have called : next 2 { twoTasks fun _ => 1 with singleTask := true } (.msleep 1) =
      some (({ twoTasks fun _ => 1 with singleTask := true }.sleep 1).goto (.enter false none)) :=
    rfl
  refine ⟨_, _, ?_, rfl, called, ?_⟩
  · have alone : next 2 (twoTasks fun _ => 1) .monoTask =
        some { twoTasks fun _ => 1 with singleTask := true } := rfl
    exact .step (reachable_twoTasks _) trivial alone
  · exact exists_reach_of_execute [.run, .resumeTasking, .setSemaphore (), .run, .run, .int8] _
      (by decide +kernel)

end Mkern0
