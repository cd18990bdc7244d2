/-
**`mkern0.c`: who runs.**

* `Solo` — `tswitch` is a row of the table, and no other row is RUNNING. Each step keeps it
  (`solo_of_effect`): every call but a dispatch leaves the RUNNING tasks or makes them fewer, and a
  scheduler dispatches only after the running task was made READY (`demote_quiet`).
* `dispatching_of_reach` — **at most one task is RUNNING, task `tswitch`, and both schedulers find the
  next task**: when `all_dead` fails the search loop ends within one round of the table, at the
  first READY task behind `tswitch`, which is then `tswitch` and RUNNING.
-/

import SistemasOperacionais.Mkern0.Model

namespace Mkern0

open Transition

variable {Sem : Type} {N : ℕ} {s after : State Sem}

/-- No row but `tswitch` is RUNNING. -/
structure Solo (N : ℕ) (s : State Sem) : Prop where
  inside : s.tswitch < N
  running : Every N (fun i task => task.status = .running → i = s.tswitch) s.tasks

/-- No row is RUNNING. -/
def Quiet (N : ℕ) (tasks : ℕ → Task Sem) : Prop :=
  Every N (fun _ task => task.status ≠ .running) tasks

/-- Row `id` is the first READY one behind `tswitch`, around the table; `tswitch` comes last. -/
def FirstReady (N : ℕ) (tasks : ℕ → Task Sem) (tswitch id : ℕ) : Prop :=
  ∃ k, 1 ≤ k ∧ k ≤ N ∧ id = (tswitch + k) % N ∧ (tasks id).status = .ready ∧
    ∀ m, 1 ≤ m → m < k → (tasks ((tswitch + m) % N)).status ≠ .ready

/-! ### The search -/

/-- **The search loop ends**, at the first READY task. -/
theorem nextReady_first {tasks : ℕ → Task Sem} {tswitch : ℕ} (inside : tswitch < N)
    (alive : allDead N tasks = false) :
    ∃ id, nextReady N tasks tswitch = some id ∧ FirstReady N tasks tswitch id := by
  obtain ⟨j, there, ready⟩ := allDead_eq_false.mp alive
  have succeeds : ((tasks j).status == Status.ready) = true := beq_iff_eq.mpr ready
  obtain ⟨k, low, high, hit, miss, found⟩ :=
    Cyclic.search_first (p := fun i => (tasks i).status == .ready) inside there succeeds
  refine ⟨_, found, k, low, high, rfl, beq_iff_eq.mp hit, ?_⟩
  intro m positive less
  exact ne_of_beq_false (miss m positive less)

theorem schedule_first {s : State Sem} (inside : s.tswitch < N) (on : s.tasking = true)
    (alive : allDead N s.tasks = false) :
    ∃ id after, FirstReady N s.tasks s.tswitch id ∧ schedule N s = some after ∧
      after = s.dispatch id ∧ after.tswitch = id ∧ (after.tasks id).status = .running := by
  obtain ⟨id, found, first⟩ := nextReady_first inside alive
  have running : ((s.dispatch id).tasks id).status = .running := by
    show (Function.update s.tasks id _ id).status = .running
    rw [Function.update_self]
  refine ⟨id, s.dispatch id, first, ?_, rfl, rfl, running⟩
  unfold schedule
  rw [alive, on, found]
  rfl

theorem nextReady_ready {tasks : ℕ → Task Sem} {tswitch id : ℕ}
    (found : nextReady N tasks tswitch = some id) : (tasks id).status = .ready :=
  beq_iff_eq.mp (Cyclic.search_sound found)

theorem nextReady_lt {tasks : ℕ → Task Sem} {tswitch id : ℕ} (inside : tswitch < N)
    (found : nextReady N tasks tswitch = some id) : id < N :=
  Cyclic.search_lt (Cyclic.next_lt inside) found

/-! ### The invariant -/

/-- **Before they search, both schedulers have no RUNNING task.** -/
theorem demote_quiet (solo : Solo N s) : Quiet N (demote s.tasks s.tswitch) := by
  intro i inside
  unfold demote
  split
  · by_cases same : i = s.tswitch
    · rw [same, setStatus, Function.update_self]
      exact Status.noConfusion
    · rw [setStatus, Function.update_of_ne same]
      exact fun running => same (solo.running i inside running)
  · rename_i other
    intro running
    have same := solo.running i inside running
    subst same
    exact other running

theorem tick_quiet {tasks : ℕ → Task Sem} (quiet : Quiet N tasks) :
    Quiet N (checkSleepers N tasks) := by
  apply Every.checkSleepers quiet
  intro i task other
  unfold Task.tick
  split
  · show (if Wrap.int16 (task.sleep - 1) = 0 then Status.ready else Status.sleeping) ≠ .running
    split <;> exact Status.noConfusion
  · exact other

theorem solo_of_outcome (outcome : Outcome N s after) (inside : s.tswitch < N)
    (quiet : Quiet N s.tasks) : Solo N after := by
  have calm (tswitch : ℕ) : Every N (fun i task => task.status = .running → i = tswitch) s.tasks :=
    fun i here running => absurd running (quiet i here)
  cases outcome with
  | shutdown _ => exact ⟨inside, (calm s.tswitch).freeAll fun _ _ kept => kept⟩
  | @dispatch id _ _ found => exact ⟨nextReady_lt inside found, (calm id).setStatus fun _ _ => rfl⟩

/-- A row that gets another status does not become RUNNING. -/
theorem Solo.write (solo : Solo N s) {id : ℕ} {task : Task Sem} (other : task.status ≠ .running) :
    Every N (fun i task => task.status = .running → i = s.tswitch)
      (Function.update s.tasks id task) :=
  solo.running.update fun _ running => absurd running other

theorem solo_of_effect [DecidableEq Sem] {call : Call Sem} (solo : Solo N s)
    (effect : Effect N s call after) : Solo N after := by
  cases effect with
  | idle _ => exact solo
  | make _ _ => exact ⟨solo.inside, solo.write Status.noConfusion⟩
  | kill _ _ => exact ⟨solo.inside, solo.write Status.noConfusion⟩
  | suspend _ _ => exact ⟨solo.inside, solo.write Status.noConfusion⟩
  | resume _ _ => exact ⟨solo.inside, solo.write Status.noConfusion⟩
  | sleep _ => exact ⟨solo.inside, solo.write Status.noConfusion⟩
  | acquire _ _ => exact ⟨solo.inside, solo.running⟩
  | block _ _ => exact ⟨solo.inside, solo.write Status.noConfusion⟩
  | clear _ =>
    refine ⟨solo.inside, Every.restart (solo.running.update fun _ _ => rfl) ?_⟩
    intro i task kept
    show (if task.status = .blocked then Status.ready else task.status) = .running → _
    split
    · exact Status.noConfusion
    · exact kept
  | yield _ => exact ⟨solo.inside, solo.running⟩
  | stop _ => exact ⟨solo.inside, solo.running⟩
  | mono _ => exact ⟨solo.inside, solo.running⟩
  | multi _ => exact ⟨solo.inside, solo.running⟩
  | init _ => exact ⟨solo.inside, every_init fun _ => Status.noConfusion⟩
  | multitask _ => exact ⟨solo.inside, solo.running⟩
  | back _ _ => exact ⟨solo.inside, solo.running⟩
  | pass _ _ => exact ⟨solo.inside, solo.running⟩
  | switch _ outcome => exact solo_of_outcome outcome solo.inside (demote_quiet solo)
  | timer _ outcome => exact solo_of_outcome outcome solo.inside (tick_quiet (demote_quiet solo))

theorem solo_start {first : ℕ} {value : Sem → ℕ} (inside : first < N) :
    Solo N (start first value) :=
  ⟨inside, fun _ _ => Status.noConfusion⟩

/-- Every state of every run, whatever its steps are held to. -/
theorem solo_of_reach [DecidableEq Sem] {guard : State Sem → Call Sem → Prop} {first : ℕ}
    {value : Sem → ℕ} (inside : first < N) (reach : Reach (next N) guard (start first value) s) :
    Solo N s :=
  reach.invariant (Solo N) (solo_start inside) fun _ _ _ solo _ run =>
    solo_of_effect solo (effect_of_next run).2

/-- **The dispatch invariant, and the choice of both schedulers.** -/
structure Dispatching (N : ℕ) (s : State Sem) : Prop where
  inside : s.tswitch < N
  current : ∀ i < N, (s.tasks i).status = .running → i = s.tswitch
  single : ∀ i < N, ∀ j < N, (s.tasks i).status = .running → (s.tasks j).status = .running → i = j
  /-- `task_switch` that reaches its search loop -/
  switches : s.tasking = true → allDead N (switchTable s) = false → ∀ wait,
    ∃ id after, FirstReady N (switchTable s) s.tswitch id ∧ taskSwitch N s wait = some after ∧
      after = { s.goto (.back wait) with tasks := switchTable s }.dispatch id ∧
      after.tswitch = id ∧ (after.tasks id).status = .running
  /-- `int8_task_switch` that reaches its search loop -/
  ticks : s.singleTask = false → s.tasking = true → allDead N (tickTable N s) = false →
    ∃ id after, FirstReady N (tickTable N s) s.tswitch id ∧ int8TaskSwitch N s = some after ∧
      after = { s with tasks := tickTable N s }.dispatch id ∧
      after.tswitch = id ∧ (after.tasks id).status = .running

/-- **In every state of every run the dispatch invariant holds**, and a scheduler that reaches its
search loop leaves it. -/
theorem dispatching_of_reach [DecidableEq Sem] {first : ℕ} {value : Sem → ℕ} (inside : first < N)
    (reach : Reachable (next N) (start first value) s) : Dispatching N s := by
  have solo : Solo N s := solo_of_reach inside reach
  refine ⟨solo.inside, solo.running, ?_, ?_, ?_⟩
  · intro i here j there first second
    rw [solo.running i here first, solo.running j there second]
  · intro on alive wait
    exact schedule_first (s := { s.goto (.back wait) with tasks := switchTable s })
      solo.inside on alive
  · intro multi on alive
    unfold int8TaskSwitch
    rw [if_neg (Bool.eq_false_iff.mp multi)]
    exact schedule_first (s := { s with tasks := tickTable N s }) solo.inside on alive

/-- Three rows, of which 0 and 2 are made: the timer switches to row 2, and both schedulers would
reach their loop again. -/
theorem dispatching_of_reach_two : ∃ s : State ℕ,
    Reachable (next 3) (start 0 fun _ => 0) s ∧ s.tswitch = 2 ∧ (s.tasks 2).status = .running ∧
      Dispatching 3 s ∧ (∃ after, taskSwitch 3 s none = some after ∧
        (after.tasks after.tswitch).status = .running) ∧
      ∃ after, int8TaskSwitch 3 s = some after ∧
        (after.tasks after.tswitch).status = .running := by
  have reach : Reachable (next 3) (start 0 fun _ : ℕ => 0) _ :=
    reach_of_execute [.makeTask 0, .makeTask 2, .multitask, .int8] .start rfl
  have dispatching := dispatching_of_reach (by decide) reach
  refine ⟨_, reach, rfl, rfl, dispatching, ?_, ?_⟩
  · obtain ⟨id, after, _, ran, _, rfl, running⟩ := dispatching.switches rfl rfl none
    exact ⟨after, ran, running⟩
  · obtain ⟨id, after, _, ran, _, rfl, running⟩ := dispatching.ticks rfl rfl rfl
    exact ⟨after, ran, running⟩

end Mkern0
