/-
**`mkern0.c`: the multitasking kernel.**

The table `tasks`, the variables `tswitch`, `tasking` and `single_task`, and the kernel calls. One
task runs at a time; it gives up the processor in `task_switch`, or the timer takes it in
`int8_task_switch`.

* `makeTask`, `killTask`, `suspend`, … — the calls, up to their call of `task_switch` where they
  have one. What a context does next inside the kernel is its `Place`.
* `schedule` — what the two schedulers share once the table has been brought up to date: the test
  `all_dead`, the way out, and the search for the next task.
* `next` — one step of the system. A step is a kernel call of the running context, the timer, or
  `run`, by which the running context goes on inside the kernel.
* `Effect` — **what a step can do**, call by call (`effect_of_next`); every invariant of the kernel
  is proved over its cases.

Between `disable()` and `enable()` no timer strikes. `task_switch` is called with interrupts on by
`kill_task`, `msleep`, `suspend` and `stop_tasking`, so there the timer may strike before its test of
`single_task` and between the test and its `disable()`; inside `set_semaphore` and
`clear_semaphore` it may not. Before `multitask` the program itself runs in the place of task
`tswitch`. An `int` has 16 bits, so `sleep` wraps. Stack registers and the contents of the stacks are
left out; `stck` is kept as whether it is `NULL`.
-/

import SistemasOperacionais.Data.Cyclic
import SistemasOperacionais.Data.Wrap
import SistemasOperacionais.Runs.Reach
import Mathlib.Logic.Function.Basic

namespace Mkern0

/-- `enum task_state`. -/
inductive Status
  | ready
  | running
  | blocked
  | suspended
  | sleeping
  | dead
  deriving DecidableEq, Repr

variable {Sem : Type}

/-- `struct task_struct`. -/
structure Task (Sem : Type) where
  status : Status
  pending : Option Sem
  sleep : ℤ
  /-- whether `stck` is not `NULL` -/
  stck : Bool
  deriving DecidableEq

/-- A record as `init_tasks` leaves it. -/
def Task.blank : Task Sem where
  status := .dead
  pending := none
  sleep := 0
  stck := false

/-- What a context executes when it next runs. -/
inductive Place (Sem : Type)
  /-- code outside the kernel -/
  | user
  /-- `task_switch`: the test of `single_task`; `wait` is the semaphore of the `set_semaphore` it
  was called from, if it was -/
  | enter (masked : Bool) (wait : Option Sem)
  /-- `task_switch`: past the test -/
  | body (masked : Bool) (wait : Option Sem)
  /-- `set_semaphore`: back from `task_switch`, about to test `*sem` again -/
  | waiting (sem : Sem)
  deriving DecidableEq

/-- Whether interrupts are disabled. -/
def Place.masked : Place Sem → Bool
  | .enter masked _ => masked
  | .body masked _ => masked
  | _ => false

/-- The semaphore of the `set_semaphore` the context is inside of. -/
def Place.wants : Place Sem → Option Sem
  | .user => none
  | .enter _ wait => wait
  | .body _ wait => wait
  | .waiting sem => some sem

/-- Where `task_switch` returns to. -/
def Place.back : Option Sem → Place Sem
  | none => .user
  | some sem => .waiting sem

@[simp]
theorem Place.wants_back (wait : Option Sem) : (Place.back wait).wants = wait := by
  cases wait <;> rfl

structure State (Sem : Type) where
  tasks : ℕ → Task Sem
  tswitch : ℕ
  tasking : Bool
  singleTask : Bool
  /-- whether `int8_task_switch` is the timer's handler -/
  installed : Bool
  /-- `*sem` -/
  value : Sem → ℕ
  place : ℕ → Place Sem
  /-- the semaphores a context has got from `set_semaphore` and not yet given to
  `clear_semaphore` -/
  holds : ℕ → Sem → Bool
  /-- the kernel has returned to the caller of `multitask` -/
  ended : Bool

/-- After `init_tasks`. -/
def start (first : ℕ) (value : Sem → ℕ) : State Sem where
  tasks := fun _ => .blank
  tswitch := first
  tasking := true
  singleTask := false
  installed := false
  value := value
  place := fun _ => .user
  holds := fun _ _ => false
  ended := false

/-- Where the running context is. -/
def State.current (s : State Sem) : Place Sem := s.place s.tswitch

/-- The running context goes on at `place`. -/
def State.goto (s : State Sem) (place : Place Sem) : State Sem :=
  { s with place := Function.update s.place s.tswitch place }

@[simp]
theorem current_goto (s : State Sem) (place : Place Sem) : (s.goto place).current = place :=
  Function.update_self ..

/-! ### The table -/

/-- `tasks[id].status = status` -/
def setStatus (tasks : ℕ → Task Sem) (id : ℕ) (status : Status) : ℕ → Task Sem :=
  Function.update tasks id { tasks id with status := status }

/-- `all_dead`: no task is READY. -/
def allDead (N : ℕ) (tasks : ℕ → Task Sem) : Bool :=
  (List.range N).all fun i => (tasks i).status != .ready

/-- One pass of the loop of `check_sleepers`. -/
def Task.tick (task : Task Sem) : Task Sem :=
  if task.status = .sleeping then
    let sleep := Wrap.int16 (task.sleep - 1)
    { task with
      sleep := sleep
      status := if sleep = 0 then .ready else .sleeping }
  else task

def checkSleepers (N : ℕ) (tasks : ℕ → Task Sem) : ℕ → Task Sem :=
  fun i => if i < N then (tasks i).tick else tasks i

def freeAll (N : ℕ) (tasks : ℕ → Task Sem) : ℕ → Task Sem :=
  fun i => if i < N then { tasks i with stck := false } else tasks i

def semblock (tasks : ℕ → Task Sem) (id : ℕ) (sem : Sem) : ℕ → Task Sem :=
  Function.update tasks id { tasks id with status := .blocked, pending := some sem }

/-- The task `restart` wakes is no longer waiting. -/
def Task.release (task : Task Sem) : Task Sem :=
  { task with
    pending := none
    status := if task.status = .blocked then .ready else task.status }

section

variable [DecidableEq Sem]

/-- The first task whose `pending` is `sem`. -/
def firstPending (N : ℕ) (tasks : ℕ → Task Sem) (sem : Sem) : Option ℕ :=
  (List.range N).find? fun i => (tasks i).pending = some sem

/-- `restart`: the first task whose `pending` is `sem`, and only that one. -/
def restart (N : ℕ) (tasks : ℕ → Task Sem) (sem : Sem) : ℕ → Task Sem :=
  match firstPending N tasks sem with
  | none => tasks
  | some i => Function.update tasks i (tasks i).release

end

/-! ### The schedulers -/

/-- A running task is READY again: the first `if` of both schedulers. -/
def demote (tasks : ℕ → Task Sem) (tswitch : ℕ) : ℕ → Task Sem :=
  if (tasks tswitch).status = .running then setStatus tasks tswitch .ready else tasks

/-- The way out: back to the caller of `multitask`. -/
def State.shutdown (N : ℕ) (s : State Sem) : State Sem :=
  { s with tasking := false, installed := false, tasks := freeAll N s.tasks, ended := true }

/-- Task `id` gets the processor. -/
def State.dispatch (s : State Sem) (id : ℕ) : State Sem :=
  { s with tswitch := id, tasks := setStatus s.tasks id .running }

/-- The search loop, `N` passes of it at most. -/
def nextReady (N : ℕ) (tasks : ℕ → Task Sem) (tswitch : ℕ) : Option ℕ :=
  Cyclic.search (fun i => (tasks i).status == .ready) N N (Cyclic.next N tswitch)

/-- From the test `all_dead` to the end of both schedulers. -/
def schedule (N : ℕ) (s : State Sem) : Option (State Sem) :=
  let tasking := if allDead N s.tasks then false else s.tasking
  if tasking then (nextReady N s.tasks s.tswitch).map s.dispatch else some (s.shutdown N)

/-- The table `task_switch` searches. -/
def switchTable (s : State Sem) : ℕ → Task Sem := demote s.tasks s.tswitch

/-- The table `int8_task_switch` searches. -/
def tickTable (N : ℕ) (s : State Sem) : ℕ → Task Sem := checkSleepers N (demote s.tasks s.tswitch)

/-- `task_switch` past its test; it will return to `wait`. -/
def taskSwitch (N : ℕ) (s : State Sem) (wait : Option Sem) : Option (State Sem) :=
  schedule N { s.goto (.back wait) with tasks := switchTable s }

def int8TaskSwitch (N : ℕ) (s : State Sem) : Option (State Sem) :=
  if s.singleTask then some s else schedule N { s with tasks := tickTable N s }

/-! ### The calls -/

inductive Call (Sem : Type)
  | makeTask (id : ℕ)
  | killTask (id : ℤ)
  | suspend (id : ℤ)
  | resume (id : ℤ)
  | msleep (ticks : ℤ)
  | setSemaphore (sem : Sem)
  | clearSemaphore (sem : Sem)
  | taskSwitch
  | stopTasking
  | monoTask
  | resumeTasking
  | initTasks
  | multitask
  /-- the timer -/
  | int8
  /-- the running context goes on inside the kernel -/
  | run
  deriving DecidableEq

/-- `id<0 || id>=NUM_TASKS` -/
def OutOfRange (N : ℕ) (id : ℤ) : Prop := id < 0 ∨ (N : ℤ) ≤ id

instance (N : ℕ) (id : ℤ) : Decidable (OutOfRange N id) :=
  inferInstanceAs (Decidable (id < 0 ∨ (N : ℤ) ≤ id))

/-- `make_task`, for an `id` in range. `pending` and `sleep` stay as they were. -/
def State.make (s : State Sem) (id : ℕ) : State Sem :=
  let task := { s.tasks id with stck := true, status := .ready }
  { s with
    tasks := Function.update s.tasks id task
    -- the running context keeps its own stack until it is next switched to
    place := if id = s.tswitch then s.place else Function.update s.place id .user
    holds := if id = s.tswitch then s.holds else Function.update s.holds id fun _ => false }

@[simp]
theorem current_make (s : State Sem) (id : ℕ) : (s.make id).current = s.current := by
  show (if id = s.tswitch then s.place else Function.update s.place id .user) s.tswitch = _
  split
  · rfl
  · rename_i other
    exact Function.update_of_ne (Ne.symm other) ..

/-- `kill_task`, for an `id` in range. -/
def State.kill (s : State Sem) (id : ℕ) : State Sem :=
  let task := { s.tasks id with status := .dead, stck := false }
  { s with tasks := Function.update s.tasks id task }

/-- `suspend` and `resume`, for an `id` in range. -/
def State.mark (s : State Sem) (id : ℕ) (status : Status) : State Sem :=
  { s with tasks := setStatus s.tasks id status }

/-- `msleep` -/
def State.sleep (s : State Sem) (ticks : ℤ) : State Sem :=
  let task := { s.tasks s.tswitch with status := .sleeping, sleep := Wrap.int16 ticks }
  { s with tasks := Function.update s.tasks s.tswitch task }

section

variable [DecidableEq Sem]

/-- `set_semaphore` finds `*sem` zero. -/
def State.acquire (s : State Sem) (sem : Sem) : State Sem :=
  { s with
    value := Function.update s.value sem 1
    holds := Function.update s.holds s.tswitch (Function.update (s.holds s.tswitch) sem true) }

/-- `set_semaphore` finds `*sem` nonzero. -/
def State.block (s : State Sem) (sem : Sem) : State Sem :=
  { s with tasks := semblock s.tasks s.tswitch sem }

/-- The loop of `set_semaphore`, from its test to the call of `task_switch` or the return. -/
def attempt (s : State Sem) (sem : Sem) : State Sem :=
  if s.value sem ≠ 0 then (s.block sem).goto (.enter true (some sem))
  else (s.acquire sem).goto .user

/-- `clear_semaphore`, up to the call of `task_switch`. -/
def State.clear (N : ℕ) (s : State Sem) (sem : Sem) : State Sem :=
  let task := { s.tasks s.tswitch with pending := none }
  { s with
    tasks := restart N (Function.update s.tasks s.tswitch task) sem
    value := Function.update s.value sem 0
    holds := Function.update s.holds s.tswitch (Function.update (s.holds s.tswitch) sem false) }

/-- `init_tasks` -/
def State.init (N : ℕ) (s : State Sem) : State Sem :=
  { s with tasks := fun i => if i < N then .blank else s.tasks i }

/-- `multitask`: the first task starts on its own stack. -/
def State.multitask (s : State Sem) : State Sem :=
  { s.goto .user with
    installed := true
    holds := Function.update s.holds s.tswitch fun _ => false }

/-- A kernel call of the running context. An index outside the table stops `kill_task`, which does
not check it. -/
def serve (N : ℕ) (s : State Sem) : Call Sem → Option (State Sem)
  | .makeTask id => some (if N ≤ id then s else s.make id)
  | .killTask id =>
    if OutOfRange N id then none else some ((s.kill id.toNat).goto (.enter false none))
  | .suspend id =>
    some (if OutOfRange N id then s else (s.mark id.toNat .suspended).goto (.enter false none))
  | .resume id => some (if OutOfRange N id then s else s.mark id.toNat .ready)
  | .msleep ticks => some ((s.sleep ticks).goto (.enter false none))
  | .setSemaphore sem => some (attempt s sem)
  | .clearSemaphore sem => some ((s.clear N sem).goto (.enter true none))
  | .taskSwitch => some (s.goto (.enter false none))
  | .stopTasking => some ({ s with tasking := false }.goto (.enter false none))
  | .monoTask => some { s with singleTask := true }
  | .resumeTasking => some { s with singleTask := false }
  | .initTasks => some (s.init N)
  | .multitask => if s.installed then none else some s.multitask
  | .int8 => none
  | .run => none

/-- The running context goes on inside the kernel. -/
def goOn (N : ℕ) (s : State Sem) : Option (State Sem) :=
  match s.current with
  | .user => none
  | .enter masked wait => some (s.goto (if s.singleTask then .back wait else .body masked wait))
  | .body _ wait => taskSwitch N s wait
  | .waiting sem => some (attempt s sem)

/-- **One step.** -/
def next (N : ℕ) (s : State Sem) (call : Call Sem) : Option (State Sem) :=
  if s.ended then none
  else match call with
    | .int8 => if s.installed && !s.current.masked then int8TaskSwitch N s else none
    | .run => goOn N s
    | call => if s.current = .user then serve N s call else none

/-! ### What a step can do -/

/-- How a scheduler ends. -/
inductive Outcome (N : ℕ) (s : State Sem) : State Sem → Prop
  | shutdown : (allDead N s.tasks = true ∨ s.tasking = false) → Outcome N s (s.shutdown N)
  | dispatch {id : ℕ} : allDead N s.tasks = false → s.tasking = true →
      nextReady N s.tasks s.tswitch = some id → Outcome N s (s.dispatch id)

/-- A pass of the loop of `set_semaphore`: its first, or another one after `task_switch`. -/
def Attempts (s : State Sem) (call : Call Sem) (sem : Sem) : Prop :=
  call = .setSemaphore sem ∧ s.current = .user ∨ call = .run ∧ s.current = .waiting sem

/-- The calls that can be such a pass. -/
def Call.mayAttempt : Call Sem → Bool
  | .setSemaphore _ | .run => true
  | _ => false

omit [DecidableEq Sem] in
theorem Attempts.mayAttempt {s : State Sem} {call : Call Sem} {sem : Sem}
    (attempts : Attempts s call sem) : call.mayAttempt = true := by
  rcases attempts with ⟨rfl, _⟩ | ⟨rfl, _⟩
  · rfl
  · rfl

/-- The calls that return at once: an index out of range, or the timer with a single task. -/
def Idle (N : ℕ) (s : State Sem) : Call Sem → Prop
  | .makeTask id => N ≤ id
  | .suspend id | .resume id => OutOfRange N id
  | .int8 => s.singleTask = true
  | _ => False

/-- **What a step does.** -/
inductive Effect (N : ℕ) (s : State Sem) : Call Sem → State Sem → Prop
  | idle {call : Call Sem} : Idle N s call → Effect N s call s
  | make {id : ℕ} : id < N → s.current = .user → Effect N s (.makeTask id) (s.make id)
  | kill {id : ℕ} : id < N → s.current = .user →
      Effect N s (.killTask id) ((s.kill id).goto (.enter false none))
  | suspend {id : ℕ} : id < N → s.current = .user →
      Effect N s (.suspend id) ((s.mark id .suspended).goto (.enter false none))
  | resume {id : ℕ} : id < N → s.current = .user →
      Effect N s (.resume id) (s.mark id .ready)
  | sleep {ticks : ℤ} : s.current = .user →
      Effect N s (.msleep ticks) ((s.sleep ticks).goto (.enter false none))
  | acquire {call : Call Sem} {sem : Sem} : Attempts s call sem → s.value sem = 0 →
      Effect N s call ((s.acquire sem).goto .user)
  | block {call : Call Sem} {sem : Sem} : Attempts s call sem → s.value sem ≠ 0 →
      Effect N s call ((s.block sem).goto (.enter true (some sem)))
  | clear {sem : Sem} : s.current = .user →
      Effect N s (.clearSemaphore sem) ((s.clear N sem).goto (.enter true none))
  | yield : s.current = .user → Effect N s .taskSwitch (s.goto (.enter false none))
  | stop : s.current = .user →
      Effect N s .stopTasking ({ s with tasking := false }.goto (.enter false none))
  | mono : s.current = .user → Effect N s .monoTask { s with singleTask := true }
  | multi : s.current = .user → Effect N s .resumeTasking { s with singleTask := false }
  | init : s.current = .user → Effect N s .initTasks (s.init N)
  | multitask : s.current = .user → Effect N s .multitask s.multitask
  | back {masked : Bool} {wait : Option Sem} : s.current = .enter masked wait →
      s.singleTask = true → Effect N s .run (s.goto (.back wait))
  | pass {masked : Bool} {wait : Option Sem} : s.current = .enter masked wait →
      s.singleTask = false → Effect N s .run (s.goto (.body masked wait))
  | switch {masked : Bool} {wait : Option Sem} {after : State Sem} :
      s.current = .body masked wait →
      Outcome N { s.goto (.back wait) with tasks := switchTable s } after → Effect N s .run after
  | timer {after : State Sem} : s.current.masked = false →
      Outcome N { s with tasks := tickTable N s } after → Effect N s .int8 after

variable {N : ℕ} {s after : State Sem}

omit [DecidableEq Sem] in
theorem outcome_of_schedule (run : schedule N s = some after) : Outcome N s after := by
  unfold schedule at run
  cases none_ready : allDead N s.tasks with
  | true =>
    rw [none_ready] at run
    cases run
    exact .shutdown (.inl none_ready)
  | false =>
    cases on : s.tasking with
    | false =>
      rw [none_ready, on] at run
      cases run
      exact .shutdown (.inr on)
    | true =>
      rw [none_ready, on] at run
      obtain ⟨id, found, rfl⟩ := Option.map_eq_some_iff.mp run
      exact .dispatch none_ready on found

theorem effect_of_attempt {call : Call Sem} {sem : Sem} (attempts : Attempts s call sem) :
    Effect N s call (attempt s sem) := by
  unfold attempt
  split
  · exact .block attempts ‹_›
  · exact .acquire attempts (not_not.mp ‹_›)

omit [DecidableEq Sem] in
theorem not_outOfRange {id : ℕ} (inside : id < N) : ¬ OutOfRange N id := by
  unfold OutOfRange
  omega

omit [DecidableEq Sem] in
/-- An index in range is a row of the table. -/
theorem exists_row {id : ℤ} (inside : ¬ OutOfRange N id) : ∃ row : ℕ, row < N ∧ id = row := by
  unfold OutOfRange at inside
  exact ⟨id.toNat, by omega, by omega⟩

theorem effect_of_serve {call : Call Sem} (here : s.current = .user)
    (run : serve N s call = some after) : Effect N s call after := by
  cases call with
  | makeTask id =>
    cases run
    split
    · exact .idle ‹_›
    · exact .make (by omega) here
  | killTask id =>
    rw [serve] at run
    split at run
    · cases run
    · rename_i inside
      obtain ⟨row, less, rfl⟩ := exists_row inside
      cases run
      exact .kill less here
  | suspend id =>
    cases run
    split
    · exact .idle ‹_›
    · rename_i inside
      obtain ⟨row, less, rfl⟩ := exists_row inside
      exact .suspend less here
  | resume id =>
    cases run
    split
    · exact .idle ‹_›
    · rename_i inside
      obtain ⟨row, less, rfl⟩ := exists_row inside
      exact .resume less here
  | msleep ticks =>
    cases run
    exact .sleep here
  | setSemaphore sem =>
    cases run
    exact effect_of_attempt (.inl ⟨rfl, here⟩)
  | clearSemaphore sem =>
    cases run
    exact .clear here
  | taskSwitch =>
    cases run
    exact .yield here
  | stopTasking =>
    cases run
    exact .stop here
  | monoTask =>
    cases run
    exact .mono here
  | resumeTasking =>
    cases run
    exact .multi here
  | initTasks =>
    cases run
    exact .init here
  | multitask =>
    rw [serve] at run
    split at run
    · cases run
    · cases run
      exact .multitask here
  | int8 => cases run
  | run => cases run

theorem effect_of_goOn (run : goOn N s = some after) : Effect N s .run after := by
  unfold goOn at run
  split at run
  · cases run
  · cases run
    split
    · exact .back ‹_› ‹_›
    · exact .pass ‹_› (Bool.eq_false_of_not_eq_true ‹_›)
  · exact .switch ‹_› (outcome_of_schedule run)
  · cases run
    exact effect_of_attempt (.inr ⟨rfl, ‹_›⟩)

/-- **Every step is one of the effects.** -/
theorem effect_of_next {call : Call Sem} (run : next N s call = some after) :
    s.ended = false ∧ Effect N s call after := by
  unfold next at run
  split at run
  · cases run
  refine ⟨Bool.eq_false_of_not_eq_true ‹_›, ?_⟩
  split at run
  · split at run
    · rename_i strikes
      rw [Bool.and_eq_true, Bool.not_eq_true'] at strikes
      unfold int8TaskSwitch at run
      split at run
      · cases run
        exact .idle ‹_›
      · exact .timer strikes.2 (outcome_of_schedule run)
    · cases run
  · exact effect_of_goOn run
  · split at run
    · exact effect_of_serve ‹_› run
    · cases run

end

/-! ### What holds of every task -/

section

variable {N : ℕ} {P : ℕ → Task Sem → Prop} {tasks : ℕ → Task Sem}

/-- The property `P` of every row of the table. -/
def Every (N : ℕ) (P : ℕ → Task Sem → Prop) (tasks : ℕ → Task Sem) : Prop :=
  ∀ i < N, P i (tasks i)

theorem Every.update (every : Every N P tasks) {id : ℕ} {task : Task Sem}
    (holds : id < N → P id task) : Every N P (Function.update tasks id task) := by
  intro i inside
  by_cases same : i = id
  · subst same
    rw [Function.update_self]
    exact holds inside
  · rw [Function.update_of_ne same]
    exact every i inside

theorem Every.setStatus (every : Every N P tasks) {id : ℕ} {status : Status}
    (holds : id < N → P id { tasks id with status := status }) :
    Every N P (setStatus tasks id status) :=
  every.update holds

theorem Every.demote (every : Every N P tasks) {tswitch : ℕ}
    (holds : tswitch < N → (tasks tswitch).status = .running →
      P tswitch { tasks tswitch with status := .ready }) :
    Every N P (demote tasks tswitch) := by
  unfold Mkern0.demote
  split
  · exact every.setStatus fun inside => holds inside ‹_›
  · exact every

theorem Every.map (every : Every N P tasks) {change : Task Sem → Task Sem}
    (keeps : ∀ i task, P i task → P i (change task)) :
    Every N P (fun i => if i < N then change (tasks i) else tasks i) := by
  intro i inside
  show P i (if i < N then change (tasks i) else tasks i)
  rw [if_pos inside]
  exact keeps i _ (every i inside)

theorem Every.checkSleepers (every : Every N P tasks)
    (keeps : ∀ i task, P i task → P i task.tick) : Every N P (checkSleepers N tasks) :=
  every.map keeps

theorem Every.freeAll (every : Every N P tasks)
    (keeps : ∀ i task, P i task → P i { task with stck := false }) : Every N P (freeAll N tasks) :=
  every.map keeps

theorem Every.restart [DecidableEq Sem] (every : Every N P tasks) {sem : Sem}
    (keeps : ∀ i task, P i task → P i task.release) : Every N P (restart N tasks sem) := by
  unfold Mkern0.restart
  split
  · exact every
  · rename_i id found
    have inside : id < N := List.mem_range.mp (List.mem_of_find?_eq_some found)
    exact every.update fun _ => keeps id _ (every id inside)

/-- The rows in range are blank after `init_tasks`. -/
theorem every_init {s : State Sem} (blank : ∀ i, P i .blank) : Every N P (s.init N).tasks := by
  intro i inside
  show P i (if i < N then .blank else s.tasks i)
  rw [if_pos inside]
  exact blank i

theorem allDead_eq_false : allDead N tasks = false ↔ ∃ i < N, (tasks i).status = .ready := by
  simp [allDead]

end

end Mkern0
