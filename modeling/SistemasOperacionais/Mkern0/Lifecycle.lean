/-
**`mkern0.c`: which tasks have a stack, and when the kernel shuts down.**

* `Backed` — a task that is neither DEAD nor SUSPENDED has a stack. `deadStayDead_of_supported`
  — **the schedulers select only tasks with a stack**, if `resume` is called only for tasks that
  have one and a context without a stack neither sleeps nor waits. `killed_selected`: `resume` does
  not look at the old status, so a killed task is selected again.
* `Staffed` — some task is READY or RUNNING, or all are DEAD. `shutdown_of_attended` — **the
  schedulers set `tasking` to 0 only when every task is DEAD**, if a call that takes a task off
  the processor leaves another one READY. `sleeper_abandoned`: `all_dead` asks whether a task is
  READY, so the kernel shuts down on its only task while that sleeps.
-/

import SistemasOperacionais.Mkern0.Dispatch

namespace Mkern0

open Transition

variable {Sem : Type} {N : ℕ} {s after : State Sem} {first : ℕ} {value : Sem → ℕ}

/-! ### Stacks -/

/-- `resume` is called for tasks with a stack, and only a context with a stack sleeps or waits for a
semaphore. -/
def Supported (N : ℕ) (s : State Sem) : Call Sem → Prop
  | .resume id => OutOfRange N id ∨ (s.tasks id.toNat).stck = true
  | .msleep _ => (s.tasks s.tswitch).stck = true
  | .setSemaphore sem => s.value sem = 0 ∨ (s.tasks s.tswitch).stck = true
  | _ => True

instance (s : State Sem) : (call : Call Sem) → Decidable (Supported N s call)
  | .resume id => inferInstanceAs (Decidable (OutOfRange N id ∨ (s.tasks id.toNat).stck = true))
  | .msleep _ => inferInstanceAs (Decidable ((s.tasks s.tswitch).stck = true))
  | .setSemaphore sem =>
    inferInstanceAs (Decidable (s.value sem = 0 ∨ (s.tasks s.tswitch).stck = true))
  | .makeTask _ | .killTask _ | .suspend _ | .clearSemaphore _ | .taskSwitch | .stopTasking
  | .monoTask | .resumeTasking | .initTasks | .multitask | .int8 | .run =>
    inferInstanceAs (Decidable True)

/-- A task that may come to run has a stack. -/
def Task.Alive (task : Task Sem) : Prop :=
  task.status ≠ .dead → task.status ≠ .suspended → task.stck = true

/-- **The tasks that may come to run have a stack**, and so has a running context inside
`set_semaphore`. -/
structure Backed (N : ℕ) (s : State Sem) : Prop where
  alive : Every N (fun _ task => task.Alive) s.tasks
  waiting : s.tswitch < N → s.current.wants ≠ none → (s.tasks s.tswitch).stck = true

theorem Task.Alive.ready {task : Task Sem} (alive : task.Alive) (ready : task.status = .ready) :
    task.stck = true := by
  apply alive <;> rw [ready] <;> exact Status.noConfusion

/-- A change of status that asks for no stack, or has one. -/
theorem Task.Alive.tick {task : Task Sem} (alive : task.Alive) : task.tick.Alive := by
  unfold Task.tick
  split
  · rename_i sleeping
    intro _ _
    apply alive <;> rw [sleeping] <;> exact Status.noConfusion
  · exact alive

theorem Task.Alive.release {task : Task Sem} (alive : task.Alive) : task.release.Alive := by
  unfold Task.release Task.Alive
  dsimp only
  split
  · rename_i blocked
    intro _ _
    apply alive <;> rw [blocked] <;> exact Status.noConfusion
  · exact alive

theorem alive_demote {tswitch : ℕ} {tasks : ℕ → Task Sem}
    (alive : Every N (fun _ task => task.Alive) tasks) :
    Every N (fun _ task => task.Alive) (demote tasks tswitch) := by
  apply alive.demote
  intro inside running _ _
  apply alive tswitch inside <;> rw [running] <;> exact Status.noConfusion

/-- The tables both schedulers search. -/
theorem alive_tick {tasks : ℕ → Task Sem} (alive : Every N (fun _ task => task.Alive) tasks) :
    Every N (fun _ task => task.Alive) (checkSleepers N tasks) :=
  alive.checkSleepers fun _ _ kept => kept.tick

/-- A scheduler selects a READY task, and that has a stack. -/
theorem backed_of_outcome (outcome : Outcome N s after)
    (alive : Every N (fun _ task => task.Alive) s.tasks) (on : after.tasking = true) :
    Backed N after := by
  cases outcome with
  | shutdown _ => cases on
  | @dispatch id _ _ found =>
    have ready := nextReady_ready found
    refine ⟨alive.setStatus fun inside _ _ => (alive id inside).ready ready, fun inside _ => ?_⟩
    show (setStatus s.tasks id .running id).stck = true
    rw [setStatus, Function.update_self]
    exact (alive id inside).ready ready

/-- A step after which the running context is not inside `set_semaphore`. -/
theorem Backed.outside (alive : Every N (fun _ task => task.Alive) s.tasks)
    (free : s.current.wants = none) : Backed N s :=
  ⟨alive, fun _ wants => absurd free wants⟩

/-- A kernel call that goes on outside `set_semaphore`. -/
theorem Backed.leave (alive : Every N (fun _ task => task.Alive) s.tasks) {place : Place Sem}
    (free : place.wants = none) : Backed N (s.goto place) := by
  refine Backed.outside (s := s.goto place) alive ?_
  rw [current_goto, free]

/-- Moving on inside `set_semaphore` changes nothing. -/
theorem Backed.move (backed : Backed N s) {place : Place Sem}
    (same : place.wants = s.current.wants) : Backed N (s.goto place) := by
  refine ⟨backed.alive, fun inside wants => backed.waiting inside ?_⟩
  rwa [current_goto, same] at wants

/-- No step sets `tasking` again. -/
theorem tasking_of_effect [DecidableEq Sem] {call : Call Sem} (effect : Effect N s call after)
    (on : after.tasking = true) : s.tasking = true := by
  have outcome_on {middle : State Sem} (outcome : Outcome N middle after)
      (same : middle.tasking = s.tasking) : s.tasking = true := by
    cases outcome with
    | shutdown _ => cases on
    | dispatch _ running _ => exact same ▸ running
  cases effect with
  | stop _ => cases on
  | switch _ outcome => exact outcome_on outcome rfl
  | timer _ outcome => exact outcome_on outcome rfl
  | _ => exact on

/-- A task that blocks has a stack: it called `set_semaphore` with one, or came back to it. -/
theorem stck_of_attempts {call : Call Sem} {sem : Sem} (backed : Backed N s)
    (supported : Supported N s call) (attempts : Attempts s call sem) (taken : s.value sem ≠ 0)
    (inside : s.tswitch < N) : (s.tasks s.tswitch).stck = true := by
  rcases attempts with ⟨rfl, _⟩ | ⟨_, here⟩
  · exact supported.resolve_left taken
  · apply backed.waiting inside
    rw [here]
    exact Option.some_ne_none sem

theorem backed_of_effect [DecidableEq Sem] {call : Call Sem} (backed : Backed N s)
    (supported : Supported N s call) (effect : Effect N s call after)
    (on : after.tasking = true) : Backed N after := by
  cases effect with
  | idle _ => exact backed
  | make _ here =>
    refine Backed.outside (backed.alive.update fun _ _ _ => rfl) ?_
    rw [current_make, here]
    rfl
  | kill _ _ => exact Backed.leave (backed.alive.update fun _ alive => absurd rfl alive) rfl
  | suspend _ _ =>
    exact Backed.leave (backed.alive.setStatus fun _ _ alive => absurd rfl alive) rfl
  | resume inside here =>
    have stack := supported.resolve_left (not_outOfRange inside)
    exact Backed.outside (backed.alive.setStatus fun _ _ _ => stack) (congrArg Place.wants here)
  | sleep _ =>
    refine Backed.leave ?_ rfl
    exact backed.alive.update fun _ _ _ => supported
  | acquire _ _ =>
    refine Backed.leave ?_ rfl
    exact backed.alive
  | @block _ sem attempts taken =>
    have stack := stck_of_attempts backed supported attempts taken
    refine ⟨backed.alive.update fun inside _ _ => stack inside, fun inside _ => ?_⟩
    show (semblock s.tasks s.tswitch sem s.tswitch).stck = true
    rw [semblock, Function.update_self]
    exact stack inside
  | clear _ =>
    have alive : Every N (fun _ task => task.Alive)
        (Function.update s.tasks s.tswitch { s.tasks s.tswitch with pending := none }) :=
      backed.alive.update (backed.alive s.tswitch)
    exact Backed.leave (alive.restart fun _ _ kept => kept.release) rfl
  | yield _ => exact Backed.leave backed.alive rfl
  | stop _ =>
    refine Backed.leave ?_ rfl
    exact backed.alive
  | mono _ => exact ⟨backed.alive, backed.waiting⟩
  | multi _ => exact ⟨backed.alive, backed.waiting⟩
  | init here =>
    exact Backed.outside (every_init fun _ dead => absurd rfl dead) (congrArg Place.wants here)
  | multitask _ =>
    refine Backed.outside backed.alive ?_
    show (s.goto .user).current.wants = none
    rw [current_goto]
    rfl
  | back here _ => exact backed.move (by rw [here, Place.wants_back]; rfl)
  | pass here _ => exact backed.move (by rw [here]; rfl)
  | switch _ outcome => exact backed_of_outcome outcome (alive_demote backed.alive) on
  | timer _ outcome => exact backed_of_outcome outcome (alive_tick (alive_demote backed.alive)) on

/-- The task one of the schedulers selects in state `s`, if it comes to its search loop. -/
def Selected (N : ℕ) (s : State Sem) (id : ℕ) : Prop :=
  nextReady N (switchTable s) s.tswitch = some id ∨ nextReady N (tickTable N s) s.tswitch = some id

/-! ### Where a stack comes from -/

/-- The rows with a stack in `new` have one in `old`. -/
def NoNewStack (old new : ℕ → Task Sem) : Prop :=
  ∀ i, (new i).stck = true → (old i).stck = true

theorem NoNewStack.refl (tasks : ℕ → Task Sem) : NoNewStack tasks tasks := fun _ stack => stack

theorem NoNewStack.trans {first second third : ℕ → Task Sem} (one : NoNewStack first second)
    (two : NoNewStack second third) : NoNewStack first third :=
  fun i stack => one i (two i stack)

theorem noNewStack_update {tasks : ℕ → Task Sem} {id : ℕ} {task : Task Sem}
    (old : task.stck = true → (tasks id).stck = true) :
    NoNewStack tasks (Function.update tasks id task) := by
  intro i stack
  by_cases same : i = id
  · subst same
    rw [Function.update_self] at stack
    exact old stack
  · rwa [Function.update_of_ne same] at stack

theorem noNewStack_map {tasks : ℕ → Task Sem} {change : Task Sem → Task Sem}
    (old : ∀ task, (change task).stck = true → task.stck = true) :
    NoNewStack tasks fun i => if i < N then change (tasks i) else tasks i := by
  intro i stack
  dsimp only at stack
  split at stack
  · exact old _ stack
  · exact stack

theorem noNewStack_demote (tasks : ℕ → Task Sem) (tswitch : ℕ) :
    NoNewStack tasks (demote tasks tswitch) := by
  unfold demote
  split
  · exact noNewStack_update fun stack => stack
  · exact .refl tasks

theorem noNewStack_tick (N : ℕ) (tasks : ℕ → Task Sem) :
    NoNewStack tasks (checkSleepers N tasks) := by
  apply noNewStack_map
  intro task stack
  unfold Task.tick at stack
  split at stack <;> exact stack

theorem noNewStack_restart [DecidableEq Sem] (tasks : ℕ → Task Sem) (sem : Sem) :
    NoNewStack tasks (restart N tasks sem) := by
  unfold restart
  split
  · exact .refl tasks
  · exact noNewStack_update fun stack => stack

theorem noNewStack_of_outcome (outcome : Outcome N s after) : NoNewStack s.tasks after.tasks := by
  cases outcome with
  | shutdown _ =>
    have freed (task : Task Sem) :
        ({ task with stck := false } : Task Sem).stck = true → task.stck = true :=
      fun stack => absurd stack Bool.false_ne_true
    exact noNewStack_map freed
  | dispatch _ _ _ => exact noNewStack_update fun stack => stack

/-- **Only `make_task` gives a task a stack.** -/
theorem noNewStack_of_effect [DecidableEq Sem] {call : Call Sem} (effect : Effect N s call after)
    (other : ∀ id, call ≠ .makeTask id) : NoNewStack s.tasks after.tasks := by
  cases effect with
  | @make id _ _ => exact absurd rfl (other id)
  | kill _ _ => exact noNewStack_update fun stack => absurd stack Bool.false_ne_true
  | suspend _ _ => exact noNewStack_update fun stack => stack
  | resume _ _ => exact noNewStack_update fun stack => stack
  | sleep _ => exact noNewStack_update fun stack => stack
  | block _ _ => exact noNewStack_update fun stack => stack
  | clear _ =>
    refine NoNewStack.trans (noNewStack_update ?_) (noNewStack_restart _ _)
    exact fun stack => stack
  | init _ =>
    intro i stack
    change (if i < N then Task.blank else s.tasks i).stck = true at stack
    split at stack
    · cases stack
    · exact stack
  | switch _ outcome =>
    exact (noNewStack_demote s.tasks s.tswitch).trans (noNewStack_of_outcome outcome)
  | timer _ outcome =>
    exact ((noNewStack_demote s.tasks s.tswitch).trans (noNewStack_tick N _)).trans
      (noNewStack_of_outcome outcome)
  | _ => exact .refl s.tasks

/-- **Dead tasks stay dead**: the schedulers select tasks with a stack, `kill_task` takes the stack
away, and only `make_task` for its number gives a task one. -/
structure DeadStayDead [DecidableEq Sem] (N : ℕ) (s : State Sem) : Prop where
  selected : ∀ id, Selected N s id → (s.tasks id).stck = true
  killed : ∀ id after, next N s (.killTask id) = some after → (after.tasks id.toNat).stck = false
  revived : ∀ call after i, next N s call = some after → (s.tasks i).stck = false →
    (after.tasks i).stck = true → call = .makeTask i

/-- What a scheduler selects has a stack. -/
theorem Backed.selected (backed : Backed N s) (inside : s.tswitch < N) {id : ℕ}
    (selected : Selected N s id) : (s.tasks id).stck = true := by
  have alive : Every N _ (demote s.tasks s.tswitch) := alive_demote backed.alive
  have old := noNewStack_demote s.tasks s.tswitch
  rcases selected with found | found
  · exact old id ((alive id (nextReady_lt inside found)).ready (nextReady_ready found))
  · refine old id (noNewStack_tick N _ id ?_)
    exact (alive_tick alive id (nextReady_lt inside found)).ready (nextReady_ready found)

section

variable [DecidableEq Sem]

theorem stck_of_kill {id : ℤ} (run : next N s (.killTask id) = some after) :
    (after.tasks id.toNat).stck = false := by
  obtain ⟨_, effect⟩ := effect_of_next run
  cases effect with
  | idle refused => exact refused.elim
  | @kill row _ _ =>
    show (Function.update s.tasks row _ row).stck = false
    rw [Function.update_self]
  | acquire attempts _ => exact absurd attempts.mayAttempt Bool.false_ne_true
  | block attempts _ => exact absurd attempts.mayAttempt Bool.false_ne_true

theorem make_of_stck {call : Call Sem} {i : ℕ} (run : next N s call = some after)
    (bare : (s.tasks i).stck = false) (stack : (after.tasks i).stck = true) :
    call = .makeTask i := by
  obtain ⟨_, effect⟩ := effect_of_next run
  by_contra different
  have kept : (s.tasks i).stck = true := by
    by_cases made : ∃ id, call = .makeTask id
    · obtain ⟨id, rfl⟩ := made
      have other : i ≠ id := fun same => different (congrArg Call.makeTask same.symm)
      cases effect with
      | idle _ => exact stack
      | make _ _ =>
        change (Function.update s.tasks id _ i).stck = true at stack
        rwa [Function.update_of_ne other] at stack
      | acquire attempts _ => exact absurd attempts.mayAttempt Bool.false_ne_true
      | block attempts _ => exact absurd attempts.mayAttempt Bool.false_ne_true
    · exact noNewStack_of_effect effect (fun id same => made ⟨id, same⟩) i stack
  rw [bare] at kept
  cases kept

/-- **A task without a stack is not dispatched**, in every run in which only tasks with a stack are
resumed and only contexts with a stack sleep or wait. -/
theorem deadStayDead_of_supported (inside : first < N)
    (reach : Reach (next N) (Supported N) (start first value) s) (on : s.tasking = true) :
    DeadStayDead N s := by
  have backed : s.tasking = true → Backed N s := by
    apply reach.invariant fun s => s.tasking = true → Backed N s
    · exact fun _ => Backed.outside (fun _ _ dead => absurd rfl dead) rfl
    · intro before call after kept supported run on
      obtain ⟨_, effect⟩ := effect_of_next run
      exact backed_of_effect (kept (tasking_of_effect effect on)) supported effect on
  have solo : Solo N s := solo_of_reach inside reach
  exact ⟨fun _ => (backed on).selected solo.inside, fun _ _ => stck_of_kill,
    fun _ _ _ => make_of_stck⟩

end

/-- Task 0 kills task 1, makes it again, suspends and resumes it. -/
theorem deadStayDead_of_supported_made : ∃ s : State ℕ,
    Reach (next 2) (Supported 2) (start 0 fun _ => 0) s ∧ s.tasking = true ∧ Selected 2 s 1 ∧
      DeadStayDead 2 s := by
  have evaluated : ∃ s : State ℕ, Reach (next 2) (Supported 2) (start 0 fun _ => 0) s ∧
      s.tasking = true ∧ nextReady 2 (switchTable s) s.tswitch = some 1 :=
    exists_reach_of_execute [.makeTask 0, .makeTask 1, .multitask, .killTask 1, .run, .run,
      .makeTask 1, .suspend 1, .run, .run, .resume 1] _ (by decide +kernel)
  obtain ⟨s, reach, on, found⟩ := evaluated
  exact ⟨s, reach, on, .inl found, deadStayDead_of_supported (by decide) reach on⟩

/-- **A killed task is dispatched**: task 0 kills task 1 and resumes it. -/
theorem killed_selected : ∃ s : State ℕ, Reachable (next 2) (start 0 fun _ => 0) s ∧
    s.tasking = true ∧ Selected 2 s 1 ∧ ¬ DeadStayDead 2 s := by
  have evaluated : ∃ s : State ℕ, Reachable (next 2) (start 0 fun _ => 0) s ∧
      s.tasking = true ∧ nextReady 2 (switchTable s) s.tswitch = some 1 ∧
        (s.tasks 1).stck = false :=
    exists_reach_of_execute [.makeTask 0, .makeTask 1, .multitask, .killTask 1, .run, .run,
      .resume 1] _ (by decide +kernel)
  obtain ⟨s, reach, on, found, bare⟩ := evaluated
  refine ⟨s, reach, on, .inl found, fun sound => ?_⟩
  have stack := sound.selected 1 (.inl found)
  rw [bare] at stack
  cases stack

/-! ### Shutting down -/

/-- READY or RUNNING. -/
def Task.Runnable (task : Task Sem) : Prop := task.status = .ready ∨ task.status = .running

instance (task : Task Sem) : Decidable task.Runnable :=
  inferInstanceAs (Decidable (_ ∨ _))

/-- A task other than `id` is READY or RUNNING. -/
def Another (N : ℕ) (tasks : ℕ → Task Sem) (id : ℕ) : Prop :=
  ∃ i < N, i ≠ id ∧ (tasks i).Runnable

/-- Every task other than `id` is DEAD. -/
def Last (N : ℕ) (tasks : ℕ → Task Sem) (id : ℕ) : Prop :=
  ∀ i < N, i ≠ id → (tasks i).status = .dead

instance (tasks : ℕ → Task Sem) (id : ℕ) : Decidable (Another N tasks id) :=
  inferInstanceAs (Decidable (∃ i < N, i ≠ id ∧ (tasks i).Runnable))

instance (tasks : ℕ → Task Sem) (id : ℕ) : Decidable (Last N tasks id) :=
  inferInstanceAs (Decidable (∀ i < N, i ≠ id → (tasks i).status = .dead))

/-- The semaphore that `set_semaphore` tests again. -/
def Place.retries : Place Sem → Option Sem
  | .waiting sem => some sem
  | _ => none

/-- A pass of the loop of `set_semaphore` that ends it, or blocks while another task is READY. -/
def Free (N : ℕ) (s : State Sem) (sem : Sem) : Prop :=
  s.value sem = 0 ∨ Another N s.tasks s.tswitch

instance (s : State Sem) (sem : Sem) : Decidable (Free N s sem) :=
  inferInstanceAs (Decidable (_ ∨ _))

/-- **A task leaves the processor only while another one is READY**: it sleeps, is suspended or
finds a semaphore taken only then, and is killed only then or as the last one that is not DEAD.
`stop_tasking` is not called. -/
def Attended (N : ℕ) (s : State Sem) : Call Sem → Prop
  | .msleep _ => Another N s.tasks s.tswitch
  | .suspend id => OutOfRange N id ∨ Another N s.tasks id.toNat
  | .killTask id => Another N s.tasks id.toNat ∨ Last N s.tasks id.toNat
  | .setSemaphore sem => Free N s sem
  | .run => ∀ sem ∈ s.current.retries, Free N s sem
  | .stopTasking => False
  | _ => True

instance (s : State Sem) : (call : Call Sem) → Decidable (Attended N s call)
  | .msleep _ => inferInstanceAs (Decidable (Another N s.tasks s.tswitch))
  | .suspend id => inferInstanceAs (Decidable (OutOfRange N id ∨ Another N s.tasks id.toNat))
  | .killTask id =>
    inferInstanceAs (Decidable (Another N s.tasks id.toNat ∨ Last N s.tasks id.toNat))
  | .setSemaphore sem => inferInstanceAs (Decidable (Free N s sem))
  | .run => inferInstanceAs (Decidable (∀ sem ∈ s.current.retries, Free N s sem))
  | .stopTasking => inferInstanceAs (Decidable False)
  | .makeTask _ | .resume _ | .clearSemaphore _ | .taskSwitch | .monoTask | .resumeTasking
  | .initTasks | .multitask | .int8 => inferInstanceAs (Decidable True)

/-- **Some task is READY or RUNNING, or all are DEAD.** -/
def Staffed (N : ℕ) (tasks : ℕ → Task Sem) : Prop :=
  (∃ i < N, (tasks i).Runnable) ∨ ∀ i < N, (tasks i).status = .dead

/-- The row `id` may be written in any way while another task is READY. -/
theorem Another.staffed {tasks : ℕ → Task Sem} {id : ℕ} (another : Another N tasks id)
    (task : Task Sem) : Staffed N (Function.update tasks id task) := by
  obtain ⟨i, inside, other, runnable⟩ := another
  refine .inl ⟨i, inside, ?_⟩
  rwa [Function.update_of_ne other]

theorem staffed_of_ready {tasks : ℕ → Task Sem} {id : ℕ} {task : Task Sem} (inside : id < N)
    (runnable : task.Runnable) : Staffed N (Function.update tasks id task) := by
  refine .inl ⟨id, inside, ?_⟩
  rwa [Function.update_self]

/-- The last task is killed. -/
theorem Last.staffed {tasks : ℕ → Task Sem} {id : ℕ} {task : Task Sem} (last : Last N tasks id)
    (dead : task.status = .dead) : Staffed N (Function.update tasks id task) := by
  right
  intro i inside
  by_cases same : i = id
  · rw [same, Function.update_self]
    exact dead
  · rw [Function.update_of_ne same]
    exact last i inside same

/-- A change that leaves the READY, the RUNNING and the DEAD tasks so. -/
theorem Staffed.keep {tasks changed : ℕ → Task Sem} (staffed : Staffed N tasks)
    (runnable : ∀ i, (tasks i).Runnable → (changed i).Runnable)
    (dead : ∀ i, (tasks i).status = .dead → (changed i).status = .dead) : Staffed N changed := by
  rcases staffed with ⟨i, inside, here⟩ | all
  · exact .inl ⟨i, inside, runnable i here⟩
  · exact .inr fun i inside => dead i (all i inside)

theorem runnable_demote {tasks : ℕ → Task Sem} (tswitch i : ℕ) (runnable : (tasks i).Runnable) :
    (demote tasks tswitch i).Runnable := by
  unfold demote
  split
  · rw [setStatus, Function.update_apply]
    split
    · exact .inl rfl
    · exact runnable
  · exact runnable

theorem runnable_tick {tasks : ℕ → Task Sem} (i : ℕ) (runnable : (tasks i).Runnable) :
    (checkSleepers N tasks i).Runnable := by
  have awake : (tasks i).status ≠ .sleeping := by
    rcases runnable with ready | running
    · rw [ready]
      exact Status.noConfusion
    · rw [running]
      exact Status.noConfusion
  have same : (tasks i).tick = tasks i := if_neg awake
  unfold checkSleepers
  rw [same, ite_self]
  exact runnable

/-- A RUNNING task has been made READY by then, so `all_dead` sees it. -/
theorem not_allDead {tasks : ℕ → Task Sem} (quiet : Quiet N tasks) {i : ℕ} (inside : i < N)
    (runnable : (tasks i).Runnable) : allDead N tasks = false :=
  allDead_eq_false.mpr ⟨i, inside, runnable.resolve_right (quiet i inside)⟩

section

variable [DecidableEq Sem]

theorem status_restart (tasks : ℕ → Task Sem) (sem : Sem) (i : ℕ) :
    (restart N tasks sem i).status = (tasks i).status ∨
      (tasks i).status = .blocked ∧ (restart N tasks sem i).status = .ready := by
  unfold restart
  cases firstPending N tasks sem with
  | none => exact .inl rfl
  | some id =>
    dsimp only
    by_cases same : i = id
    · subst same
      rw [Function.update_self, Task.release]
      by_cases blocked : (tasks i).status = .blocked
      · exact .inr ⟨blocked, if_pos blocked⟩
      · exact .inl (if_neg blocked)
    · rw [Function.update_of_ne same]
      exact .inl rfl

/-- `clear_semaphore` changes the status of BLOCKED tasks only. -/
theorem status_clear (s : State Sem) (sem : Sem) (i : ℕ) :
    ((s.clear N sem).tasks i).status = (s.tasks i).status ∨
      (s.tasks i).status = .blocked ∧ ((s.clear N sem).tasks i).status = .ready := by
  have unpend : (Function.update s.tasks s.tswitch
      { s.tasks s.tswitch with pending := none } i).status = (s.tasks i).status := by
    rw [Function.update_apply]
    split
    · rename_i same
      rw [same]
    · rfl
  have restarted := status_restart (N := N)
    (Function.update s.tasks s.tswitch { s.tasks s.tswitch with pending := none }) sem i
  rwa [unpend] at restarted

theorem staffed_clear (staffed : Staffed N s.tasks) (sem : Sem) :
    Staffed N (s.clear N sem).tasks := by
  apply staffed.keep
  · intro i runnable
    unfold Task.Runnable
    rcases status_clear s sem i with same | ⟨_, ready⟩
    · rwa [same]
    · exact .inl ready
  · intro i dead
    rcases status_clear s sem i with same | ⟨blocked, _⟩
    · rwa [same]
    · rw [dead] at blocked
      cases blocked

omit [DecidableEq Sem] in
theorem staffed_of_outcome (outcome : Outcome N s after) (inside : s.tswitch < N)
    (on : after.tasking = true) : Staffed N after.tasks := by
  cases outcome with
  | shutdown _ => cases on
  | dispatch _ _ found => exact staffed_of_ready (nextReady_lt inside found) (.inr rfl)

omit [DecidableEq Sem] in
theorem another_of_attempts {call : Call Sem} {sem : Sem} (attended : Attended N s call)
    (attempts : Attempts s call sem) (taken : s.value sem ≠ 0) : Another N s.tasks s.tswitch := by
  rcases attempts with ⟨rfl, _⟩ | ⟨rfl, here⟩
  · exact attended.resolve_left taken
  · refine (attended sem ?_).resolve_left taken
    rw [here]
    rfl

theorem staffed_of_effect {call : Call Sem} (staffed : Staffed N s.tasks) (inside : s.tswitch < N)
    (attended : Attended N s call) (effect : Effect N s call after) (on : after.tasking = true) :
    Staffed N after.tasks := by
  cases effect with
  | make less _ => exact staffed_of_ready less (.inl rfl)
  | kill _ _ =>
    rcases attended with another | last
    · exact another.staffed _
    · exact last.staffed rfl
  | suspend less _ =>
    have another := attended.resolve_left (not_outOfRange less)
    exact another.staffed _
  | resume less _ => exact staffed_of_ready less (.inl rfl)
  | sleep _ => exact attended.staffed _
  | block attempts taken => exact (another_of_attempts attended attempts taken).staffed _
  | @clear sem _ => exact staffed_clear staffed sem
  | stop _ => exact attended.elim
  | init _ =>
    have blank : Every N (fun _ task => task.status = .dead) (s.init N).tasks :=
      every_init fun _ => rfl
    exact .inr blank
  | switch _ outcome => exact staffed_of_outcome outcome inside on
  | timer _ outcome => exact staffed_of_outcome outcome inside on
  | _ => exact staffed

omit [DecidableEq Sem] in
/-- `all_dead` finds no READY task: then all are DEAD, in both schedulers. -/
theorem dead_of_outcome {tasks : ℕ → Task Sem} (staffed : Staffed N tasks)
    (outcome : Outcome N s after) (quiet : Quiet N s.tasks)
    (runnable : ∀ i, (tasks i).Runnable → (s.tasks i).Runnable) (on : s.tasking = true)
    (off : after.tasking = false) : ∀ i < N, (tasks i).status = .dead := by
  cases outcome with
  | dispatch _ _ _ =>
    change s.tasking = false at off
    rw [on] at off
    cases off
  | shutdown why =>
    rcases staffed with ⟨i, inside, here⟩ | all
    · have seen := not_allDead quiet inside (runnable i here)
      rw [seen, on] at why
      rcases why with none | off <;> contradiction
    · exact all

/-- **The kernel shuts itself down only when every task is DEAD**, in every run in which a task
leaves the processor only while another one is READY. -/
theorem shutdown_of_attended (inside : first < N)
    (reach : Reach (next N) (Attended N) (start first value) s) {call : Call Sem}
    (run : next N s call = some after) (other : call ≠ .stopTasking) (on : s.tasking = true)
    (off : after.tasking = false) : ∀ i < N, (s.tasks i).status = .dead := by
  have invariant : Solo N s ∧ (s.tasking = true → Staffed N s.tasks) := by
    apply reach.invariant fun s => Solo N s ∧ (s.tasking = true → Staffed N s.tasks)
    · exact ⟨solo_start inside, fun _ => .inr fun _ _ => rfl⟩
    · intro before call after ⟨solo, kept⟩ attended run
      obtain ⟨_, effect⟩ := effect_of_next run
      refine ⟨solo_of_effect solo effect, fun on => ?_⟩
      exact staffed_of_effect (kept (tasking_of_effect effect on)) solo.inside attended effect on
  obtain ⟨solo, staffed⟩ := invariant
  obtain ⟨_, effect⟩ := effect_of_next run
  cases effect with
  | stop _ => exact absurd rfl other
  | switch _ outcome =>
    exact dead_of_outcome (staffed on) outcome (demote_quiet solo)
      (fun i => runnable_demote s.tswitch i) on off
  | timer _ outcome =>
    exact dead_of_outcome (staffed on) outcome (tick_quiet (demote_quiet solo))
      (fun i here => runnable_tick i (runnable_demote s.tswitch i here)) on off
  | _ =>
    change s.tasking = false at off
    rw [on] at off
    cases off

end

/-- Two tasks: task 0 sleeps while task 1 is READY, both end by `kill_task`, the last one as the
only task left. -/
def bothEnd : List (Call ℕ) :=
  [.makeTask 0, .makeTask 1, .multitask, .msleep 1, .run, .run, .int8, .killTask 0, .run, .run,
    .killTask 1, .run]

theorem shutdown_of_attended_both : ∃ s after : State ℕ,
    Reach (next 2) (Attended 2) (start 0 fun _ => 0) s ∧ next 2 s .run = some after ∧
      s.tasking = true ∧ after.tasking = false ∧ ∀ i < 2, (s.tasks i).status = .dead := by
  have evaluated : ∃ s : State ℕ, Reach (next 2) (Attended 2) (start 0 fun _ => 0) s ∧
      s.tasking = true ∧ ∃ after ∈ next 2 s .run, after.tasking = false :=
    exists_reach_of_execute bothEnd _ (by decide +kernel)
  obtain ⟨s, reach, on, after, run, off⟩ := evaluated
  exact ⟨s, after, reach, run, on, off,
    shutdown_of_attended (by decide) reach run (by decide) on off⟩

/-- **A sleeping task is abandoned**: the only task calls `msleep(5)`, and its own `task_switch`
shuts the kernel down. -/
theorem sleeper_abandoned : ∃ s after : State ℕ,
    Reach (next 1) (fun _ call => call ≠ .stopTasking) (start 0 fun _ => 0) s ∧
      next 1 s .run = some after ∧ s.tasking = true ∧ after.tasking = false ∧
        (s.tasks 0).status = .sleeping := by
  have evaluated : ∃ s : State ℕ,
      Reach (next 1) (fun _ call => call ≠ .stopTasking) (start 0 fun _ => 0) s ∧
        s.tasking = true ∧ (s.tasks 0).status = .sleeping ∧
          ∃ after ∈ next 1 s .run, after.tasking = false :=
    exists_reach_of_execute [.makeTask 0, .multitask, .msleep 5, .run] _ (by decide +kernel)
  obtain ⟨s, reach, on, asleep, after, run, off⟩ := evaluated
  exact ⟨s, after, reach, run, on, off, asleep⟩

end Mkern0
