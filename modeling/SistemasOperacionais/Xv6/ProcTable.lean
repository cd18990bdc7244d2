/-
**xv6 `proc.c`: nobody is lost.**

* `Cpus` — a process is RUNNING exactly if it is on a CPU, and on one only.
* `Sleepers` — **a process asleep in `wait` has a child, and none of its children is a ZOMBIE**: no
  wakeup is lost between `exit` and `wait`.
* `Pids` — the pid of a process is its number, as an `int`. `killed_step` — only the `wait` that reaps
  a process takes its mark away.
* `no_zombie_missed`, `zombie_has_parent`, `one_cpu` — over every run, on any number of CPUs.
* `kill_hits` — `kill` marks the process it is meant for, as long as fewer than `2 ^ 32` were made;
  `pid_reused` — behind that two processes have one pid.
* `born_killed` — but `kill(0)` marks an entry that is not in use, and `allocproc` does not clear the
  mark: the next process made there is born killed.
-/

import SistemasOperacionais.Xv6.ProcSteps

set_option linter.unusedSectionVars false

namespace Xv6

namespace Proc

open Transition

variable {n : ℕ} {κ : Type} [DecidableEq κ] {s s' t : State n κ} {p q : Fin n}

/-! ### CPUs -/

/-- **A process is RUNNING exactly if it is on a CPU, and on one only.** -/
structure Cpus (s : State n κ) : Prop where
  onCpu : ∀ c p, s.cpu c = some p → (s.proc p).state = .running
  running : ∀ p, (s.proc p).state = .running → ∃ c, s.cpu c = some p
  one : ∀ c d p, s.cpu c = some p → s.cpu d = some p → c = d

theorem Cpus.congr (cpus : Cpus s) (cpu : s'.cpu = s.cpu)
    (same : ∀ q, (s'.proc q).state = .running ↔ (s.proc q).state = .running) : Cpus s' := by
  refine ⟨fun c p on => ?_, fun p runs => ?_, ?_⟩
  · rw [cpu] at on
    exact (same p).mpr (cpus.onCpu c p on)
  · rw [cpu]
    exact cpus.running p ((same p).mp runs)
  · rw [cpu]
    exact cpus.one

/-- A process gives its CPU back. -/
theorem Cpus.leave (cpus : Cpus s) (cpu : s'.cpu = (s.leave p).cpu)
    (gone : (s'.proc p).state ≠ .running)
    (same : ∀ q, q ≠ p → ((s'.proc q).state = .running ↔ (s.proc q).state = .running)) : Cpus s' := by
  have left : ∀ c q, s'.cpu c = some q ↔ s.cpu c = some q ∧ q ≠ p := by
    intro c q
    rw [cpu]
    simp only [State.leave]
    grind
  refine ⟨fun c q on => ?_, fun q runs => ?_, fun c d q on again => ?_⟩
  · obtain ⟨on, other⟩ := (left c q).mp on
    exact (same q other).mpr (cpus.onCpu c q on)
  · have other : q ≠ p := by
      rintro rfl
      exact gone runs
    obtain ⟨c, on⟩ := cpus.running q ((same q other).mp runs)
    exact ⟨c, (left c q).mpr ⟨on, other⟩⟩
  · exact cpus.one c d q ((left c q).mp on).1 ((left d q).mp again).1

/-- A process gets a CPU that is idle. -/
theorem Cpus.enter (cpus : Cpus s) {c : κ} (idle : s.cpu c = none)
    (ready : (s.proc p).state = .runnable) : Cpus (enter s c p) := by
  have nowhere : ∀ d, s.cpu d ≠ some p := fun d on => by
    have running := cpus.onCpu d p on
    rw [ready] at running
    cases running
  have state : ∀ q, q ≠ p → (Proc.enter s c p).proc q = s.proc q :=
    fun q other => Function.update_of_ne other ..
  have here : ((Proc.enter s c p).proc p).state = .running := by simp [Proc.enter]
  have on : ∀ d, d ≠ c → (Proc.enter s c p).cpu d = s.cpu d :=
    fun d other => Function.update_of_ne other ..
  have at_c : (Proc.enter s c p).cpu c = some p := Function.update_self ..
  refine ⟨fun d q there => ?_, fun q runs => ?_, fun d e q first second => ?_⟩
  · by_cases same : d = c
    · rw [same, at_c] at there
      cases there
      exact here
    · rw [on d same] at there
      have other : q ≠ p := by
        rintro rfl
        exact nowhere d there
      rw [state q other]
      exact cpus.onCpu d q there
  · by_cases same : q = p
    · exact ⟨c, by rw [same, at_c]⟩
    · rw [state q same] at runs
      obtain ⟨d, there⟩ := cpus.running q runs
      have other : d ≠ c := by
        rintro rfl
        rw [idle] at there
        cases there
      exact ⟨d, by rw [on d other, there]⟩
  · by_cases left : d = c <;> by_cases right : e = c
    · rw [left, right]
    · rw [left, at_c] at first
      cases first
      rw [on e right] at second
      exact absurd second (nowhere e)
    · rw [right, at_c] at second
      cases second
      rw [on d left] at first
      exact absurd first (nowhere d)
    · rw [on d left] at first
      rw [on e right] at second
      exact cpus.one d e q first second

/-- An entry assigned that neither was nor is RUNNING. -/
theorem running_set {entry : Entry n} {np : Fin n} (before : (s.proc np).state ≠ .running)
    (after : entry.state ≠ .running) (q : Fin n) :
    ((s.set np entry).proc q).state = .running ↔ (s.proc q).state = .running := by
  by_cases same : q = np
  · subst same
    simp [State.set, before, after]
  · simp [State.set, same]

theorem Cpus.waitScan (cpus : Cpus s) : Cpus (waitScan s p) := by
  rcases waitScan_cases s p with ⟨q, -, dead, scanned⟩ | ⟨-, scanned | ⟨-, scanned⟩⟩ <;> rw [scanned]
  · refine cpus.congr rfl (running_set ?_ ?_)
    · rw [dead]
      decide
    · simp
  · exact cpus.congr rfl fun _ => Iff.rfl
  · refine cpus.leave rfl ?_ fun q other => ?_
    · simp [State.leave, State.goto, State.set]
    · simp [State.leave, State.goto, State.set, other]

/-- The `np` of `fork` is an EMBRYO. -/
theorem embryo_of_place (tree : Kinship.Tree (view s)) {np : Fin n}
    (place : s.place p = .allocated np ∨ s.place p = .copied np) : (s.proc np).state = .embryo := by
  have borne : (view s).kind np = .embryo := by
    rcases place with place | place
    · exact tree.borne p np false (by show bearingOf (s.place p) = _; rw [place]; rfl)
    · exact tree.borne p np true (by show bearingOf (s.place p) = _; rw [place]; rfl)
  have kind : kindOf (s.proc np).state = .embryo := borne
  cases state : (s.proc np).state <;> rw [state] at kind <;> first | rfl | cases kind

theorem Cpus.step (cpus : Cpus s) (tree : Kinship.Tree (view s)) (step : Steps s s') : Cpus s' := by
  cases step with
  | wakes wakes _ =>
    exact cpus.congr wakes.cpu fun q => wakes.state_iff (by decide) (by decide)
  | resumes idle ready _ => exact cpus.enter idle ready
  | rescans idle ready _ => exact (cpus.enter idle ready).waitScan
  | yields running =>
    refine cpus.leave rfl ?_ fun q other => ?_
    · simp [State.leave, State.set]
    · simp [State.leave, State.set, other]
  | sleeps free =>
    refine cpus.leave rfl ?_ fun q other => ?_
    · simp [State.leave, State.goto, State.set]
    · simp [State.leave, State.goto, State.set, other]
  | @allocates p np free unused =>
    exact cpus.congr rfl (running_set (by rw [unused]; decide) (by simp))
  | @fails p np place running =>
    have embryo := embryo_of_place tree (.inl place)
    exact cpus.congr rfl (running_set (by rw [embryo]; decide) (by simp))
  | @copies p np place running =>
    have embryo := embryo_of_place tree (.inl place)
    exact cpus.congr rfl (running_set (by rw [embryo]; decide) (by rw [embryo]; decide))
  | @forks p np place running =>
    have embryo := embryo_of_place tree (.inr place)
    exact cpus.congr rfl (running_set (by rw [embryo]; decide) (by simp))
  | @exits p _ free other exits =>
    refine cpus.leave exits.cpu (by rw [exits.zombie]; decide) fun q apart => ?_
    rcases exits.state q apart with same | ⟨slept, woken⟩
    · rw [same]
    · rw [slept, woken]
      decide
  | panics => exact cpus.congr rfl fun _ => Iff.rfl
  | scans free => exact cpus.waitScan

/-! ### Sleepers -/

/-- **A process asleep in `wait` has a child, and no ZOMBIE child.** -/
structure Sleepers (s : State n κ) : Prop where
  sleeping : ∀ p, (s.proc p).state = .sleeping →
    s.place p = .wait ∧ (s.proc p).chan = some (.proc p) ∨ s.place p = .sleep
  asleep : ∀ p, s.place p = .wait ∨ s.place p = .sleep →
    (s.proc p).state = .sleeping ∨ (s.proc p).state = .runnable
  child : ∀ p, s.place p = .wait → (s.proc p).state = .sleeping → ∃ q, (s.proc q).parent = some p
  living : ∀ p, s.place p = .wait → (s.proc p).state = .sleeping →
    ∀ q, (s.proc q).parent = some p → (s.proc q).state ≠ .zombie

/-- The process is in the `sched` of a `sleep`. -/
def Asleep (place : Place n) : Prop := place = .wait ∨ place = .sleep

/-- **A step that sends nobody to sleep**, wakes some, makes no ZOMBIE, and changes no child of a
process asleep. -/
theorem Sleepers.congr (sleepers : Sleepers s)
    (state : ∀ p, (s'.proc p).state = .sleeping → (s.proc p).state = .sleeping)
    (chan : ∀ p, (s'.proc p).state = .sleeping → (s'.proc p).chan = (s.proc p).chan)
    (place : ∀ p, Asleep (s.place p) ∨ Asleep (s'.place p) → s'.place p = s.place p ∧
      ((s'.proc p).state = (s.proc p).state ∨ (s'.proc p).state = .runnable))
    (parent : ∀ p, (s.proc p).state = .sleeping →
      ∀ q, (s'.proc q).parent = some p ↔ (s.proc q).parent = some p)
    (zombie : ∀ q, (s'.proc q).state = .zombie → (s.proc q).state = .zombie) : Sleepers s' := by
  refine ⟨fun p sleeps => ?_, fun p inside => ?_, fun p waits sleeps => ?_, fun p waits sleeps => ?_⟩
  · rcases sleepers.sleeping p (state p sleeps) with ⟨waits, own⟩ | other
    · exact .inl ⟨(place p (.inl (.inl waits))).1.trans waits, (chan p sleeps).trans own⟩
    · exact .inr ((place p (.inl (.inr other))).1.trans other)
  · obtain ⟨same, kept | ready⟩ := place p (.inr inside)
    · rw [kept]
      exact sleepers.asleep p (by rwa [same] at inside)
    · exact .inr ready
  · have before := (place p (.inr (.inl waits))).1.symm.trans waits
    obtain ⟨q, child⟩ := sleepers.child p before (state p sleeps)
    exact ⟨q, (parent p (state p sleeps) q).mpr child⟩
  · have before := (place p (.inr (.inl waits))).1.symm.trans waits
    intro q child dead
    exact sleepers.living p before (state p sleeps) q ((parent p (state p sleeps) q).mp child)
      (zombie q dead)

/-- One entry that nobody sleeps in, and the place of a process that runs. -/
theorem Sleepers.set_goto (sleepers : Sleepers s) {np : Fin n} {entry : Entry n} {place : Place n}
    (running : (s.proc p).state = .running) (awake : (s.proc np).state ≠ .sleeping)
    (ready : (s.proc np).state ≠ .runnable) (out : ¬ Asleep place)
    (state : entry.state ≠ .sleeping) (zombie : entry.state = .zombie → (s.proc np).state = .zombie)
    (parent : ∀ q, (s.proc q).state = .sleeping →
      (entry.parent = some q ↔ (s.proc np).parent = some q)) :
    Sleepers ((s.set np entry).goto p place) := by
  have here : ((s.set np entry).goto p place).proc np = entry := by simp [State.set, State.goto]
  have away : ∀ q, q ≠ np → ((s.set np entry).goto p place).proc q = s.proc q :=
    fun q other => by simp [State.set, State.goto, other]
  have elsewhere : ∀ q, Asleep (s.place q) → q ≠ p ∧ q ≠ np := by
    intro q inside
    have sleeps := sleepers.asleep q inside
    constructor <;> rintro rfl
    · rw [running] at sleeps
      rcases sleeps with ⟨⟨⟩⟩ | ⟨⟨⟩⟩
    · rcases sleeps with slept | woken
      · exact awake slept
      · exact ready woken
  refine sleepers.congr ?_ ?_ ?_ ?_ ?_
  · intro q sleeps
    by_cases same : q = np
    · rw [same, here] at sleeps
      exact absurd sleeps state
    · rwa [away q same] at sleeps
  · intro q sleeps
    by_cases same : q = np
    · rw [same, here] at sleeps
      exact absurd sleeps state
    · rw [away q same]
  · intro q inside
    have before : Asleep (s.place q) := by
      rcases inside with before | after
      · exact before
      · by_cases same : q = p
        · simp only [State.goto, State.set, same, Function.update_self] at after
          exact absurd after out
        · simpa only [State.goto, State.set, Function.update_of_ne same] using after
    obtain ⟨apart, other⟩ := elsewhere q before
    exact ⟨Function.update_of_ne apart .., .inl (by rw [away q other])⟩
  · intro r sleeps q
    by_cases same : q = np
    · rw [same, here]
      exact parent r sleeps
    · rw [away q same]
  · intro q dead
    by_cases same : q = np
    · rw [same, here] at dead
      rw [same]
      exact zombie dead
    · rwa [away q same] at dead

/-- One process awake, the others as they were. -/
theorem Sleepers.awaken (sleepers : Sleepers s) (proc : ∀ q, q ≠ p → s'.proc q = s.proc q)
    (place : ∀ q, q ≠ p → s'.place q = s.place q) (awake : (s'.proc p).state ≠ .sleeping)
    (alive : (s'.proc p).state ≠ .zombie) (out : ¬ Asleep (s'.place p))
    (parent : (s'.proc p).parent = (s.proc p).parent) : Sleepers s' := by
  have parents : ∀ q, (s'.proc q).parent = (s.proc q).parent := by
    intro q
    by_cases same : q = p
    · rw [same, parent]
    · rw [proc q same]
  have other : ∀ q, (s'.proc q).state = .sleeping ∨ Asleep (s'.place q) → q ≠ p := by
    rintro q sleeps rfl
    exact sleeps.elim awake out
  refine ⟨fun q sleeps => ?_, fun q inside => ?_, fun q waits sleeps => ?_, fun q waits sleeps => ?_⟩
  · have apart := other q (.inl sleeps)
    rw [proc q apart] at sleeps ⊢
    rw [place q apart]
    exact sleepers.sleeping q sleeps
  · have apart := other q (.inr inside)
    rw [place q apart] at inside
    rw [proc q apart]
    exact sleepers.asleep q inside
  · have apart := other q (.inl sleeps)
    rw [place q apart] at waits
    rw [proc q apart] at sleeps
    obtain ⟨r, child⟩ := sleepers.child q waits sleeps
    exact ⟨r, (parents r).trans child⟩
  · have apart := other q (.inl sleeps)
    rw [place q apart] at waits
    rw [proc q apart] at sleeps
    intro r child dead
    by_cases same : r = p
    · rw [same] at dead
      exact alive dead
    · rw [proc r same] at child dead
      exact sleepers.living q waits sleeps r child dead

/-- A process that runs is not in a `sleep`. -/
theorem Sleepers.not_asleep (sleepers : Sleepers s) (running : (s.proc p).state = .running) :
    ¬ Asleep (s.place p) := by
  intro inside
  have sleeps := sleepers.asleep p inside
  rw [running] at sleeps
  rcases sleeps with ⟨⟨⟩⟩ | ⟨⟨⟩⟩

theorem Sleepers.enter (sleepers : Sleepers s) (c : κ) : Sleepers (enter s c p) := by
  refine sleepers.awaken (p := p) (fun q other => Function.update_of_ne other ..)
    (fun q other => Function.update_of_ne other ..) ?_ ?_ ?_ ?_
  · simp [Proc.enter]
  · simp [Proc.enter]
  · simp only [Proc.enter, Function.update_self, Asleep]
    split
    · simp
    · assumption
  · simp [Proc.enter]

/-- A process goes to sleep; in `wait` it has a child, and no ZOMBIE child. -/
theorem Sleepers.sleep (sleepers : Sleepers s) {chan : Chan n} {place : Place n}
    (inside : Asleep place) (waits : place = .wait → chan = .proc p ∧
      (∃ q, (s.proc q).parent = some p) ∧
      ∀ q, (s.proc q).parent = some p → (s.proc q).state ≠ .zombie) :
    Sleepers (((s.set p { s.proc p with chan := some chan, state := .sleeping }).goto p
      place).leave p) := by
  generalize after : ((s.set p { s.proc p with chan := some chan, state := .sleeping }).goto p
    place).leave p = s'
  have here : s'.proc p = { s.proc p with chan := some chan, state := .sleeping } := by
    simp [← after, State.leave, State.goto, State.set]
  have at_p : s'.place p = place := by simp [← after, State.leave, State.goto, State.set]
  have away : ∀ q, q ≠ p → s'.proc q = s.proc q ∧ s'.place q = s.place q := by
    intro q other
    simp [← after, State.leave, State.goto, State.set, other]
  have parents : ∀ q, (s'.proc q).parent = (s.proc q).parent := by
    intro q
    by_cases same : q = p
    · rw [same, here]
    · rw [(away q same).1]
  have zombies : ∀ q, (s'.proc q).state = .zombie → (s.proc q).state = .zombie := by
    intro q dead
    by_cases same : q = p
    · rw [same, here] at dead
      cases dead
    · rwa [(away q same).1] at dead
  refine ⟨fun q sleeps => ?_, fun q asleep => ?_, fun q waiting sleeps => ?_,
    fun q waiting sleeps => ?_⟩
  · by_cases same : q = p
    · rw [same, here, at_p]
      rcases inside with wait | other
      · exact .inl ⟨wait, congrArg some (waits wait).1⟩
      · exact .inr other
    · rw [(away q same).1] at sleeps ⊢
      rw [(away q same).2]
      exact sleepers.sleeping q sleeps
  · by_cases same : q = p
    · rw [same, here]
      exact .inl rfl
    · rw [(away q same).2] at asleep
      rw [(away q same).1]
      exact sleepers.asleep q asleep
  · by_cases same : q = p
    · rw [same, at_p] at waiting
      obtain ⟨r, child⟩ := (waits waiting).2.1
      exact ⟨r, by rw [parents, same, child]⟩
    · rw [(away q same).2] at waiting
      rw [(away q same).1] at sleeps
      obtain ⟨r, child⟩ := sleepers.child q waiting sleeps
      exact ⟨r, by rw [parents, child]⟩
  · intro r child dead
    rw [parents] at child
    by_cases same : q = p
    · rw [same, at_p] at waiting
      rw [same] at child
      exact (waits waiting).2.2 r child (zombies r dead)
    · rw [(away q same).2] at waiting
      rw [(away q same).1] at sleeps
      exact sleepers.living q waiting sleeps r child (zombies r dead)

theorem Sleepers.waitScan (sleepers : Sleepers s) (free : s.Free p) : Sleepers (waitScan s p) := by
  obtain ⟨running, out⟩ := free
  rcases waitScan_cases s p with ⟨q, child, dead, scanned⟩ | ⟨living, scanned | ⟨kid, scanned⟩⟩
  · rw [scanned]
    refine sleepers.set_goto running (by rw [dead]; decide) (by rw [dead]; decide) (by simp [Asleep])
      (by simp) (by simp) fun r sleeps => ?_
    rw [child]
    constructor
    · rintro ⟨⟩
    · rintro ⟨⟩
      rw [running] at sleeps
      cases sleeps
  · have same : s.goto p .out = s := by simp [State.goto, ← out]
    rw [scanned, same]
    exact sleepers
  · rw [scanned]
    exact sleepers.sleep (.inl rfl) fun _ => ⟨rfl, kid, living⟩

/-- **`exit` leaves no parent asleep.** -/
theorem Sleepers.exit (sleepers : Sleepers s) (out : s.place p = .out)
    (apart : (s.proc p).parent ≠ some p) (exits : Exits s s' p) : Sleepers s' := by
  have slept : ∀ q, (s'.proc q).state = .sleeping → q ≠ p ∧ (s.proc q).state = .sleeping := by
    intro q sleeps
    have other : q ≠ p := by
      rintro rfl
      rw [exits.zombie] at sleeps
      cases sleeps
    rcases exits.state q other with same | ⟨before, -⟩
    · exact ⟨other, same ▸ sleeps⟩
    · exact ⟨other, before⟩
  refine ⟨fun q sleeps => ?_, fun q inside => ?_, fun q waits sleeps => ?_, fun q waits sleeps => ?_⟩
  · rw [exits.place, exits.chan]
    exact sleepers.sleeping q (slept q sleeps).2
  · rw [exits.place] at inside
    have other : q ≠ p := by
      rintro rfl
      rw [out] at inside
      rcases inside with ⟨⟨⟩⟩ | ⟨⟨⟩⟩
    rcases exits.state q other with same | ⟨-, woken⟩
    · rw [same]
      exact sleepers.asleep q inside
    · exact .inr woken
  · rw [exits.place] at waits
    obtain ⟨other, before⟩ := slept q sleeps
    obtain ⟨r, child⟩ := sleepers.child q waits before
    have kept : (s.proc r).parent ≠ some p := by
      rw [child]
      rintro ⟨⟩
      exact other rfl
    exact ⟨r, by rw [exits.parent, if_neg kept, child]⟩
  · rw [exits.place] at waits
    obtain ⟨other, before⟩ := slept q sleeps
    have chan : (s.proc q).chan = some (.proc q) := by
      rcases sleepers.sleeping q before with ⟨-, own⟩ | elsewhere
      · exact own
      · rw [waits] at elsewhere
        cases elsewhere
    intro r child dead
    have died : r ≠ p → (s.proc r).state = .zombie := fun away => by
      rcases exits.state r away with same | ⟨-, woken⟩
      · rwa [← same]
      · rw [woken] at dead
        cases dead
    rw [exits.parent] at child
    split at child
    · -- passed to init, as a ZOMBIE
      rename_i passed
      cases child
      have away : r ≠ p := by
        rintro rfl
        exact apart passed
      exact exits.adopted r passed (died away) ⟨sleeps, chan⟩
    · by_cases same : r = p
      · subst same
        exact exits.woken q child ⟨sleeps, chan⟩
      · exact sleepers.living q waits before r child (died same)

theorem Sleepers.step (sleepers : Sleepers s) (tree : Kinship.Tree (view s))
    (ages : Kinship.Ages (view s)) (step : Steps s s') : Sleepers s' := by
  cases step with
  | wakes wakes parents =>
    refine sleepers.congr (fun p => wakes.sleeping) (fun p _ => wakes.chan p) (fun p _ => ?_)
      (fun p _ q => by rw [parents]) (fun q => (wakes.state_iff (by decide) (by decide)).mp)
    exact ⟨congrFun wakes.place p, (wakes.state p).imp id And.right⟩
  | resumes _ _ _ => exact sleepers.enter _
  | @rescans c p _ _ place =>
    exact (sleepers.enter c).waitScan ⟨by simp [Proc.enter], by simp [Proc.enter, place]⟩
  | @yields p running =>
    have entry : ((s.set p { s.proc p with state := .runnable }).leave p).proc p =
        { s.proc p with state := .runnable } := Function.update_self ..
    refine sleepers.awaken (p := p) (fun q other => Function.update_of_ne other ..) (fun _ _ => rfl)
      ?_ ?_ (sleepers.not_asleep running) ?_ <;> rw [entry]
    · simp
    · simp
  | sleeps free => exact sleepers.sleep (.inr rfl) (by simp)
  | @allocates p np free unused =>
    have after : Sleepers ((s.set np { s.proc np with state := .embryo, pid := s.nextpid }).goto p
        (.allocated np)) :=
      sleepers.set_goto free.1 (by rw [unused]; decide) (by rw [unused]; decide) (by simp [Asleep])
        (by simp) (by simp) fun _ _ => Iff.rfl
    exact ⟨after.sleeping, after.asleep, after.child, after.living⟩
  | @fails p np place running =>
    have embryo := embryo_of_place tree (.inl place)
    exact sleepers.set_goto running (by rw [embryo]; decide) (by rw [embryo]; decide)
      (by simp [Asleep]) (by simp) (by simp) fun _ _ => Iff.rfl
  | @copies p np place running =>
    have embryo := embryo_of_place tree (.inl place)
    have orphan : (s.proc np).parent = none :=
      tree.unnamed p np (by show bearingOf (s.place p) = _; rw [place]; rfl)
    refine sleepers.set_goto running (by rw [embryo]; decide) (by rw [embryo]; decide)
      (by simp [Asleep]) (by simp [embryo]) (by simp) fun q sleeps => ?_
    rw [orphan]
    constructor
    · rintro ⟨⟩
      rw [running] at sleeps
      cases sleeps
    · rintro ⟨⟩
  | @forks p np place running =>
    have embryo := embryo_of_place tree (.inr place)
    exact sleepers.set_goto running (by rw [embryo]; decide) (by rw [embryo]; decide)
      (by simp [Asleep]) (by simp) (by simp) fun _ _ => Iff.rfl
  | @exits p _ free other exits =>
    have apart : (s.proc p).parent ≠ some p := fun own => Nat.lt_irrefl _ (ages.older p p own)
    exact sleepers.exit free.2 apart exits
  | panics => exact ⟨sleepers.sleeping, sleepers.asleep, sleepers.child, sleepers.living⟩
  | scans free => exact sleepers.waitScan free

/-! ### Pids and marks -/

/-- **The pid of an entry is the number of its process, as an `int`**, or 0 in an entry that was
freed. -/
structure Pids (s : State n κ) : Prop where
  next : s.nextpid = Wrap.int s.births
  pid : ∀ q, (s.proc q).pid = Wrap.int (s.birth q) ∨
    (s.proc q).state = .unused ∧ (s.proc q).pid = 0

/-- No process is made; entries keep their pid and stay in use, or are freed. -/
theorem Pids.congr (pids : Pids s) (nextpid : s'.nextpid = s.nextpid) (birth : s'.birth = s.birth)
    (births : s'.births = s.births)
    (entry : ∀ q, (s'.proc q).pid = (s.proc q).pid ∧
        ((s.proc q).state = .unused → (s'.proc q).state = .unused) ∨
      (s'.proc q).state = .unused ∧ (s'.proc q).pid = 0) : Pids s' := by
  refine ⟨by rw [nextpid, births, pids.next], fun q => ?_⟩
  rw [birth]
  rcases entry q with ⟨same, unused⟩ | freed
  · rw [same]
    exact (pids.pid q).imp_right fun zero => ⟨unused zero.1, zero.2⟩
  · exact .inr freed

/-- An entry in use is assigned. -/
theorem pid_set {entry : Entry n} {np : Fin n} (used : (s.proc np).state ≠ .unused)
    (pid : entry.pid = (s.proc np).pid ∨ entry.state = .unused ∧ entry.pid = 0) (q : Fin n) :
    ((s.set np entry).proc q).pid = (s.proc q).pid ∧
        ((s.proc q).state = .unused → ((s.set np entry).proc q).state = .unused) ∨
      ((s.set np entry).proc q).state = .unused ∧ ((s.set np entry).proc q).pid = 0 := by
  by_cases same : q = np
  · subst same
    rw [show (s.set q entry).proc q = entry from Function.update_self ..]
    exact pid.imp_left fun kept => ⟨kept, fun unused => absurd unused used⟩
  · rw [show (s.set np entry).proc q = s.proc q from Function.update_of_ne same ..]
    exact .inl ⟨rfl, id⟩

theorem Pids.enter (pids : Pids s) (c : κ) (ready : (s.proc p).state = .runnable) :
    Pids (enter s c p) :=
  pids.congr rfl rfl rfl (pid_set (by rw [ready]; decide) (.inl rfl))

theorem Pids.waitScan (pids : Pids s) (running : (s.proc p).state = .running) :
    Pids (waitScan s p) := by
  rcases waitScan_cases s p with ⟨q, -, dead, scanned⟩ | ⟨-, scanned | ⟨-, scanned⟩⟩ <;> rw [scanned]
  · exact pids.congr rfl rfl rfl (pid_set (by rw [dead]; decide) (.inr ⟨rfl, rfl⟩))
  · exact pids.congr rfl rfl rfl fun q => .inl ⟨rfl, id⟩
  · exact pids.congr rfl rfl rfl (pid_set (by rw [running]; decide) (.inl rfl))

theorem Pids.step (pids : Pids s) (tree : Kinship.Tree (view s)) (step : Steps s s') : Pids s' := by
  cases step with
  | wakes wakes _ =>
    refine pids.congr wakes.nextpid wakes.birth wakes.births fun q => .inl ⟨wakes.pid q, ?_⟩
    exact (wakes.state_iff (by decide) (by decide)).mpr
  | resumes _ ready _ => exact pids.enter _ ready
  | @rescans c p _ ready _ => exact (pids.enter c ready).waitScan (by simp [Proc.enter])
  | yields running =>
    exact pids.congr rfl rfl rfl (pid_set (by rw [running]; decide) (.inl rfl))
  | sleeps free => exact pids.congr rfl rfl rfl (pid_set (by rw [free.1]; decide) (.inl rfl))
  | @allocates p np free unused =>
    refine ⟨?_, fun q => ?_⟩
    · show Wrap.int (s.nextpid + 1) = Wrap.int (s.births + 1 : ℕ)
      rw [pids.next, Wrap.int_add, Nat.cast_add, Nat.cast_one]
    · by_cases same : q = np
      · subst same
        simp [State.goto, State.set, pids.next]
      · simpa [State.goto, State.set, same] using pids.pid q
  | @fails p np place running =>
    have embryo := embryo_of_place tree (.inl place)
    exact pids.congr rfl rfl rfl (pid_set (by rw [embryo]; decide) (.inl rfl))
  | @copies p np place running =>
    have embryo := embryo_of_place tree (.inl place)
    exact pids.congr rfl rfl rfl (pid_set (by rw [embryo]; decide) (.inl rfl))
  | @forks p np place running =>
    have embryo := embryo_of_place tree (.inr place)
    exact pids.congr rfl rfl rfl (pid_set (by rw [embryo]; decide) (.inl rfl))
  | @exits p _ free other exits =>
    refine pids.congr exits.nextpid exits.birth exits.births fun q =>
      .inl ⟨exits.pid q, fun unused => ?_⟩
    have apart : q ≠ p := by
      rintro rfl
      rw [free.1] at unused
      cases unused
    rcases exits.state q apart with same | ⟨slept, -⟩
    · rw [same, unused]
    · rw [unused] at slept
      cases slept
  | panics => exact pids.congr rfl rfl rfl fun q => .inl ⟨rfl, id⟩
  | scans free => exact pids.waitScan free.1

/-- A mark stays where the entry assigned keeps it. -/
theorem killed_set {entry : Entry n} {np : Fin n} (marked : (s.proc q).killed = true)
    (kept : np = q → entry.killed = (s.proc q).killed) : ((s.set np entry).proc q).killed = true := by
  by_cases same : q = np
  · subst same
    rw [show (s.set q entry).proc q = entry from Function.update_self .., kept rfl, marked]
  · rw [show (s.set np entry).proc q = s.proc q from Function.update_of_ne same .., marked]

theorem killed_waitScan (alive : (s.proc q).state ≠ .zombie) (marked : (s.proc q).killed = true) :
    ((waitScan s p).proc q).killed = true := by
  rcases waitScan_cases s p with ⟨r, -, dead, scanned⟩ | ⟨-, scanned | ⟨-, scanned⟩⟩ <;> rw [scanned]
  · exact killed_set marked fun same => absurd (same ▸ dead) alive
  · exact marked
  · exact killed_set marked fun same => by rw [same]

/-- **Only the `wait` that reaps a process takes its mark away.** -/
theorem killed_step (step : Steps s s') (alive : (s.proc q).state ≠ .zombie)
    (marked : (s.proc q).killed = true) : (s'.proc q).killed = true := by
  have entered : ∀ c p, ((enter s c p).proc q).killed = true := fun c p =>
    killed_set marked fun same => by rw [same]
  cases step with
  | wakes wakes _ => exact wakes.killed q marked
  | @resumes c p _ _ _ => exact entered c p
  | @rescans c p _ _ _ =>
    refine killed_waitScan ?_ (entered c p)
    by_cases same : q = p
    · subst same
      simp [enter]
    · simpa [enter, same] using alive
  | exits _ _ exits => exact exits.killed q marked
  | panics => exact marked
  | scans _ => exact killed_waitScan alive marked
  | _ => exact killed_set marked fun same => by rw [same]

/-! ### Over every run -/

/-- **What every step keeps.** -/
structure Valid (s : State n κ) : Prop where
  tree : Kinship.Tree (view s)
  ages : Kinship.Ages (view s)
  cpus : Cpus s
  sleepers : Sleepers s
  pids : Pids s

theorem Valid.step (valid : Valid s) {label : Label n κ} (moved : next s label = some s') :
    Valid s' := by
  have step := steps_of_next moved
  obtain ⟨tree, ages⟩ := tree_step valid.tree valid.ages step
  exact ⟨tree, ages, valid.cpus.step valid.tree step,
    valid.sleepers.step valid.tree valid.ages step, valid.pids.step valid.tree step⟩

theorem valid_start (n : ℕ) (κ : Type) [DecidableEq κ] : Valid (start n κ) := by
  have kind : ∀ p, (view (start n κ)).kind p = if p = 0 then .alive else .free := by
    intro p
    show kindOf ((start n κ).proc p).state = _
    by_cases init : p = 0 <;> simp [start, init, kindOf]
  have age : ∀ p, (view (start n κ)).age p = if p = 0 then 1 else 0 := fun _ => rfl
  have parent : ∀ p, (view (start n κ)).parent p = none := by
    intro p
    show ((start n κ).proc p).parent = _
    by_cases init : p = 0 <;> simp [start, init]
  have bearing : ∀ p, (view (start n κ)).bearing p = none := fun _ => rfl
  have root : (view (start n κ)).root = 0 := rfl
  have clock : (view (start n κ)).clock = 2 := rfl
  have awake : ∀ p, ((start n κ).proc p).state = .runnable ∨ ((start n κ).proc p).state = .unused := by
    intro p
    by_cases init : p = 0 <;> simp [start, init]
  refine ⟨?_, ?_, ?_, ?_, ⟨(by decide : (2 : ℤ) = Wrap.int 2), fun p => .inl ?_⟩⟩
  · constructor <;> grind
  · constructor <;> grind
  · refine ⟨fun c p on => (by cases on), fun p running => ?_, fun c d p on => (by cases on)⟩
    rcases awake p with state | state <;> rw [running] at state <;> cases state
  · have nobody : ∀ p, ((start n κ).proc p).state ≠ .sleeping := fun p sleeps => by
      rcases awake p with state | state <;> rw [sleeps] at state <;> cases state
    refine ⟨fun p sleeps => absurd sleeps (nobody p), fun p inside => ?_,
      fun p _ sleeps => absurd sleeps (nobody p), fun p _ sleeps => absurd sleeps (nobody p)⟩
    rcases inside with ⟨⟨⟩⟩ | ⟨⟨⟩⟩
  · by_cases init : p = 0
    · simp only [start, init, if_true]
      decide
    · simp only [start, init, if_false]
      decide

variable {s : State (n + 1) κ} {p : Fin (n + 1)}

theorem valid_of_reachable (reach : Reachable next (start n κ) s) : Valid s :=
  reach.invariant Valid (valid_start n κ) fun _ _ _ valid _ moved => valid.step moved

/-- **No wakeup is lost between `exit` and `wait`**: a process asleep in `wait` has a child to wait
for, and none of its children is a ZOMBIE. -/
theorem no_zombie_missed (reach : Reachable next (start n κ) s) (waits : s.place p = .wait)
    (sleeps : (s.proc p).state = .sleeping) :
    (∃ q, (s.proc q).parent = some p) ∧
      ∀ q, (s.proc q).parent = some p → (s.proc q).state ≠ .zombie :=
  have sleepers := (valid_of_reachable reach).sleepers
  ⟨sleepers.child p waits sleeps, sleepers.living p waits sleeps⟩

/-- init waits for a child that has not run yet. -/
theorem no_zombie_missed_init : ∃ s : State 3 (Fin 1), Reachable next (start 2 (Fin 1)) s ∧
    s.place 0 = .wait ∧ (s.proc 0).state = .sleeping ∧ ∃ q, (s.proc q).parent = some 0 := by
  have run : ∃ s : State 3 (Fin 1), Reachable next (start 2 (Fin 1)) s ∧
      (s.place 0 = .wait ∧ (s.proc 0).state = .sleeping) :=
    exists_reach_of_execute [.schedule 0 0, .allocproc 0, .copies 0, .forks 0, .wait 0] _
      (by decide +kernel)
  obtain ⟨s, reach, waits, sleeps⟩ := run
  exact ⟨s, reach, waits, sleeps, (no_zombie_missed reach waits sleeps).1⟩

/-- An entry is alive: it is not UNUSED, an EMBRYO or a ZOMBIE. -/
def Alive (state : ProcState) : Prop := state = .sleeping ∨ state = .runnable ∨ state = .running

theorem alive_iff {state : ProcState} : Alive state ↔ kindOf state = .alive := by
  cases state <;> simp [Alive, kindOf]

/-- **Nobody is left whom no one will reap**: everyone but init who lives or is a ZOMBIE has a parent
who lives, and the parents lead to init. -/
theorem zombie_has_parent (reach : Reachable next (start n κ) s)
    (solid : Alive (s.proc p).state ∨ (s.proc p).state = .zombie) :
    (p ≠ s.initproc → ∃ q, (s.proc p).parent = some q ∧ Alive (s.proc q).state) ∧
      Relation.ReflTransGen (fun child parent => (s.proc child).parent = some parent) p
        s.initproc := by
  have valid := valid_of_reachable reach
  have kind : (view s).kind p = .alive ∨ (view s).kind p = .dead :=
    solid.imp alive_iff.mp view_kind
  refine ⟨fun other => ?_, valid.tree.exists_root valid.ages kind⟩
  obtain ⟨q, parent⟩ := Option.ne_none_iff_exists'.mp (valid.tree.has_parent p kind other)
  exact ⟨q, parent, alive_iff.mpr (valid.tree.parent_alive p q parent)⟩

/-- The child of a process that has exited is init's. -/
theorem zombie_has_parent_orphan : ∃ s : State 3 (Fin 1), Reachable next (start 2 (Fin 1)) s ∧
    (s.proc 1).state = .zombie ∧ Relation.ReflTransGen
      (fun child parent => (s.proc child).parent = some parent) 2 s.initproc := by
  have run : ∃ s : State 3 (Fin 1), Reachable next (start 2 (Fin 1)) s ∧
      ((s.proc 1).state = .zombie ∧ (s.proc 2).state = .runnable) :=
    exists_reach_of_execute [.schedule 0 0, .allocproc 0, .copies 0, .forks 0, .yield 0,
      .schedule 0 1, .allocproc 1, .copies 1, .forks 1, .exit 1] _ (by decide +kernel)
  obtain ⟨s, reach, dead, ready⟩ := run
  exact ⟨s, reach, dead, (zombie_has_parent reach (.inl (.inr (.inl ready)))).2⟩

/-- **A process is RUNNING exactly if one CPU runs it.** -/
theorem one_cpu (reach : Reachable next (start n κ) s) (p : Fin (n + 1)) :
    (s.proc p).state = .running ↔ ∃! c, s.cpu c = some p := by
  have cpus := (valid_of_reachable reach).cpus
  constructor
  · intro running
    obtain ⟨c, on⟩ := cpus.running p running
    exact ⟨c, on, fun d there => cpus.one d c p there on⟩
  · rintro ⟨c, on, -⟩
    exact cpus.onCpu c p on

theorem one_cpu_two : ∃ s : State 3 (Fin 2), Reachable next (start 2 (Fin 2)) s ∧
    (∃! c, s.cpu c = some 0) ∧ ∃! c, s.cpu c = some 1 := by
  have run : ∃ s : State 3 (Fin 2), Reachable next (start 2 (Fin 2)) s ∧
      ((s.proc 0).state = .running ∧ (s.proc 1).state = .running) :=
    exists_reach_of_execute [.schedule 0 0, .allocproc 0, .copies 0, .forks 0, .schedule 1 1] _
      (by decide +kernel)
  obtain ⟨s, reach, first, second⟩ := run
  exact ⟨s, reach, (one_cpu reach 0).mp first, (one_cpu reach 1).mp second⟩

/-! ### `kill` -/

/-- A search of the table. -/
theorem find_finRange {test : Fin n → Bool} {q : Fin n} (found : test q = true)
    (first : ∀ r, r < q → test r = false) : (List.finRange n).find? test = some q := by
  refine List.find?_eq_some_iff_getElem.mpr ⟨found, q, by simp, by simp, fun j less => ?_⟩
  have inside : j < n := less.trans q.isLt
  simpa using first ⟨j, inside⟩ less

theorem free_iff {state : ProcState} : kindOf state = .free ↔ state = .unused := by
  cases state <;> simp [kindOf]

/-- As long as no number has been used twice, the pid of a process is not 0. -/
theorem Valid.pid_ne_zero (valid : Valid s) (few : s.births ≤ 2 ^ 32)
    (used : (s.proc p).state ≠ .unused) :
    (s.proc p).pid = Wrap.int (s.birth p) ∧ (s.proc p).pid ≠ 0 := by
  have own := (valid.pids.pid p).resolve_right fun zero => used zero.1
  have positive : 0 < s.birth p := valid.ages.pos p fun free => used (free_iff.mp free)
  have less : s.birth p < s.births := valid.ages.lt p
  refine ⟨own, fun zero => ?_⟩
  have same : Wrap.int (s.birth p) = Wrap.int 0 := own.symm.trans (zero.trans (by decide))
  have none := Wrap.int_inj same (by omega) (by omega)
  omega

/-- **`kill` marks the process whose pid it is given, and no other**, as long as fewer than `2 ^ 32`
processes were made. -/
theorem kill_hits (reach : Reachable next (start n κ) s) (few : s.births ≤ 2 ^ 32)
    (used : (s.proc p).state ≠ .unused) (q : Fin (n + 1)) :
    ((kill s (s.proc p).pid).proc q).killed = if q = p then true else (s.proc q).killed := by
  have valid := valid_of_reachable reach
  obtain ⟨own, some_pid⟩ := valid.pid_ne_zero few used
  have positive : 0 < s.birth p := valid.ages.pos p fun free => used (free_iff.mp free)
  have unique : ∀ r, (s.proc r).pid = (s.proc p).pid → r = p := by
    intro r same
    rcases valid.pids.pid r with number | ⟨-, zero⟩
    · have first : s.birth p < s.births := valid.ages.lt p
      have second : s.birth r < s.births := valid.ages.lt r
      have equal := Wrap.int_inj (number.symm.trans (same.trans own)) (by omega) (by omega)
      exact (valid.ages.inj p r (Int.ofNat.inj equal).symm positive).symm
    · exact absurd (same.symm.trans zero) some_pid
  have found : (List.finRange (n + 1)).find? (fun r => decide ((s.proc r).pid = (s.proc p).pid)) =
      some p := by
    refine find_finRange (by simp) fun r less => ?_
    have other : (s.proc r).pid ≠ (s.proc p).pid := fun same => less.ne (unique r same)
    simpa using other
  unfold kill
  rw [found]
  by_cases same : q = p <;> simp [State.set, same]

theorem kill_hits_child : ∃ s : State 3 (Fin 1), Reachable next (start 2 (Fin 1)) s ∧
    (s.proc 1).pid = 2 ∧ ((kill s 2).proc 1).killed = true := by
  have run : ∃ s : State 3 (Fin 1), Reachable next (start 2 (Fin 1)) s ∧
      ((s.proc 1).state ≠ .unused ∧ (s.proc 1).pid = 2 ∧ s.births ≤ 2 ^ 32) :=
    exists_reach_of_execute [.schedule 0 0, .allocproc 0, .copies 0, .forks 0] _ (by decide +kernel)
  obtain ⟨s, reach, used, pid, few⟩ := run
  have hit := kill_hits reach few used 1
  rw [pid] at hit
  exact ⟨s, reach, pid, hit⟩

/-- `kill` marks the first entry that has the pid. -/
theorem killed_kill {pid : ℤ} (own : (s.proc p).pid = pid)
    (first : ∀ r, r < p → (s.proc r).pid ≠ pid) : ((kill s pid).proc p).killed = true := by
  have found : (List.finRange (n + 1)).find? (fun r => decide ((s.proc r).pid = pid)) = some p :=
    find_finRange (by simpa using own) fun r less => by simpa using first r less
  unfold kill
  rw [found]
  simp [State.set]

/-- **`kill(0)` kills a process that is not yet born.** The first entry with pid 0 is not in use, and
`kill(0)` marks it; and it stays marked in every run, whoever makes a process there, until this
process has exited. -/
theorem born_killed (reach : Reachable next (start n κ) s) (few : s.births ≤ 2 ^ 32)
    {q : Fin (n + 1)} (zero : (s.proc q).pid = 0) (first : ∀ r, r < q → (s.proc r).pid ≠ 0)
    {s' : State (n + 1) κ} (moved : next s (.kill p 0) = some s') :
    (s.proc q).state = .unused ∧
      ∀ t, Reach next (fun before _ => (before.proc q).state ≠ .zombie) s' t →
        (t.proc q).killed = true := by
  have unused : (s.proc q).state = .unused := by
    by_contra used
    exact ((valid_of_reachable reach).pid_ne_zero few used).2 zero
  have marked : (s'.proc q).killed = true := by
    unfold next at moved
    split at moved
    · cases moved
    · obtain ⟨-, same⟩ := Option.ite_none_right_eq_some.mp moved
      cases same
      exact killed_kill zero first
  refine ⟨unused, fun t run => ?_⟩
  exact run.invariant (fun t => (t.proc q).killed = true) marked
    fun before _ after kept alive moved => killed_step (steps_of_next moved) alive kept

/-- init calls `kill(0)`, its first child makes a child of its own, and only then is there a process
in the entry marked. -/
theorem born_killed_grandchild : ∃ t : State 4 (Fin 2), Reachable next (start 3 (Fin 2)) t ∧
    (t.proc 2).state = .runnable ∧ (t.proc 2).parent = some 1 ∧ (t.proc 2).killed = true := by
  have run : ∃ s : State 4 (Fin 2), Reachable next (start 3 (Fin 2)) s ∧
      ((s.proc 2).pid = 0 ∧ (∀ r, r < 2 → (s.proc r).pid ≠ 0) ∧ s.births ≤ 2 ^ 32 ∧
        ((next s (.kill 0 0)).bind fun s' => execute
          (guarded next fun before _ => (before.proc 2).state ≠ .zombie) s'
          [.schedule 1 1, .allocproc 1, .copies 1, .yield 0, .forks 1]).any (fun t =>
            decide ((t.proc 2).state = .runnable ∧ (t.proc 2).parent = some 1)) = true) :=
    exists_reach_of_execute [.schedule 0 0, .allocproc 0, .copies 0, .forks 0] _ (by decide +kernel)
  obtain ⟨s, reach, zero, first, few, later⟩ := run
  cases moved : next s (.kill 0 0) with
  | none =>
    rw [moved] at later
    cases later
  | some s' =>
    rw [moved, Option.bind_some] at later
    cases ran : execute (guarded next fun before _ => (before.proc 2).state ≠ .zombie) s'
        [.schedule 1 1, .allocproc 1, .copies 1, .yield 0, .forks 1] with
    | none =>
      rw [ran] at later
      cases later
    | some t =>
      rw [ran] at later
      obtain ⟨ready, parent⟩ := of_decide_eq_true later
      have onward := reach_of_execute _ .start ran
      have killed := (born_killed reach few zero first moved).2 t onward
      exact ⟨t, (Reach.step reach trivial moved).trans onward.reachable, ready, parent, killed⟩

/-! ### Pids used twice -/

/-- `allocproc` takes the first entry that is not in use. -/
theorem allocproc_eq {np : Fin (n + 1)} (unused : (s.proc np).state = .unused)
    (first : ∀ r, r < np → (s.proc r).state ≠ .unused) :
    allocproc s p =
      { s.set np { s.proc np with state := .embryo, pid := s.nextpid } with
        nextpid := Wrap.int (s.nextpid + 1)
        birth := Function.update s.birth np s.births
        births := s.births + 1 }.goto p (.allocated np) := by
  have found : (List.finRange (n + 1)).find? (fun r => decide ((s.proc r).state = .unused)) =
      some np := find_finRange (by simpa using unused) fun r less => by simpa using first r less
  unfold allocproc
  rw [found]

/-- init runs, and the entry behind it is not in use. -/
structure Alone (s : State (n + 2) κ) : Prop where
  calm : s.panic = false
  free : s.Free 0
  pid : (s.proc 0).pid = 1
  unused : (s.proc 1).state = .unused

/-- What `fork` of init makes there. -/
theorem Alone.allocates {s : State (n + 2) κ} (alone : Alone s) :
    ∃ s', next s (.allocproc 0) = some s' ∧ s'.panic = false ∧ s'.place 0 = .allocated 1 ∧
      s'.proc 0 = s.proc 0 ∧ s'.births = s.births + 1 ∧
      s'.proc 1 = { s.proc 1 with state := .embryo, pid := s.nextpid } := by
  have first : ∀ r : Fin (n + 2), r < 1 → (s.proc r).state ≠ .unused := by
    intro r less
    have zero : r = 0 := Fin.ext (Nat.lt_one_iff.mp less)
    rw [zero, alone.free.1]
    decide
  have moved : next s (.allocproc 0) = some (allocproc s 0) := by
    simp [next, alone.calm, alone.free]
  refine ⟨allocproc s 0, moved, ?_⟩
  rw [allocproc_eq alone.unused first]
  simp [State.goto, State.set, alone.calm]

/-- `fork` may fail any number of times. -/
theorem exists_births (n : ℕ) (c : κ) (k : ℕ) : ∃ s : State (n + 2) κ,
    Reachable next (start (n + 1) κ) s ∧ s.births = k + 2 ∧ Alone s := by
  induction k with
  | zero =>
    have moved : next (start (n + 1) κ) (.schedule c 0) = some (resume (start (n + 1) κ) c 0) := by
      simp [next, start]
    refine ⟨_, .step .start trivial moved, ?_, ?_⟩
    · simp [resume, start, State.set]
    · constructor <;> simp [resume, start, State.set, State.Free]
  | succ k ih =>
    obtain ⟨s, reach, births, alone⟩ := ih
    obtain ⟨s', made, calm, place, init, more, entry⟩ := alone.allocates
    have failed : next s' (.fails 0) =
        some ((s'.set 1 { s'.proc 1 with state := .unused }).goto 0 .out) := by
      simp [next, calm, place, init, alone.free.1]
    refine ⟨_, .step (.step reach trivial made) trivial failed, ?_, ?_⟩
    · show s'.births = _
      omega
    · refine ⟨calm, ?_, ?_, ?_⟩
      · simp [State.Free, State.goto, State.set, init, alone.free.1]
      · simp [State.goto, State.set, init, alone.pid]
      · simp [State.goto, State.set]

end Proc

end Xv6
