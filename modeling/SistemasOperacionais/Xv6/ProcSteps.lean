/-
**xv6 `proc.c`: what a step of the process table does.**

* `Wakes` — what `wakeup1`, `kill` and the loop of `exit` may change besides parents: processes that
  sleep become RUNNABLE, and more may be marked. `exit_spec` — what `exit` leaves.
* `waitScan_cases` — one scan of `wait`; `resume_eq` — `scheduler` with that scan on its own.
* `Steps` — **one step, by what it does.**
* `view` — the table as a family of processes (`Runs.Kinship`); `view_step` — every step is a move of
  the family or none.
-/

import SistemasOperacionais.Xv6.Proc
import SistemasOperacionais.Runs.Kinship
import Mathlib.Data.Fintype.Basic

set_option linter.unusedSectionVars false

namespace Xv6

namespace Proc

open Transition

variable {n : ℕ} {κ : Type} [DecidableEq κ] {s s' t : State n κ} {p q : Fin n}

/-! ### Waking up -/

/-- **Nothing but sleeping processes made RUNNABLE**, parents and new marks aside. -/
structure Wakes (s s' : State n κ) : Prop where
  state : ∀ q, (s'.proc q).state = (s.proc q).state ∨
    (s.proc q).state = .sleeping ∧ (s'.proc q).state = .runnable
  pid : ∀ q, (s'.proc q).pid = (s.proc q).pid
  chan : ∀ q, (s'.proc q).chan = (s.proc q).chan
  killed : ∀ q, (s.proc q).killed = true → (s'.proc q).killed = true
  nextpid : s'.nextpid = s.nextpid
  initproc : s'.initproc = s.initproc
  cpu : s'.cpu = s.cpu
  place : s'.place = s.place
  birth : s'.birth = s.birth
  births : s'.births = s.births

theorem Wakes.refl (s : State n κ) : Wakes s s :=
  ⟨fun _ => .inl rfl, fun _ => rfl, fun _ => rfl, fun _ => id, rfl, rfl, rfl, rfl, rfl, rfl⟩

theorem Wakes.trans (first : Wakes s s') (second : Wakes s' t) : Wakes s t := by
  refine ⟨fun q => ?_, fun q => (second.pid q).trans (first.pid q),
    fun q => (second.chan q).trans (first.chan q), fun q => second.killed q ∘ first.killed q,
    second.nextpid.trans first.nextpid, second.initproc.trans first.initproc,
    second.cpu.trans first.cpu, second.place.trans first.place, second.birth.trans first.birth,
    second.births.trans first.births⟩
  rcases second.state q with same | ⟨slept, woken⟩
  · rw [same]
    exact first.state q
  · rcases first.state q with before | ⟨-, awake⟩
    · exact .inr ⟨before ▸ slept, woken⟩
    · rw [awake] at slept
      cases slept

/-- A state other than SLEEPING and RUNNABLE is not touched. -/
theorem Wakes.state_iff (wakes : Wakes s s') {state : ProcState} (awake : state ≠ .sleeping)
    (other : state ≠ .runnable) : (s'.proc q).state = state ↔ (s.proc q).state = state := by
  rcases wakes.state q with same | ⟨slept, woken⟩
  · rw [same]
  · rw [slept, woken]
    exact ⟨fun same => absurd same.symm other, fun same => absurd same.symm awake⟩

/-- Who sleeps slept before. -/
theorem Wakes.sleeping (wakes : Wakes s s') (sleeps : (s'.proc q).state = .sleeping) :
    (s.proc q).state = .sleeping := by
  rcases wakes.state q with same | ⟨slept, -⟩
  · rwa [← same]
  · exact slept

theorem wakes_wakeup1 (s : State n κ) (chan : Option (Chan n)) : Wakes s (wakeup1 s chan) := by
  refine ⟨fun q => ?_, fun q => ?_, fun q => ?_, fun q => ?_, rfl, rfl, rfl, rfl, rfl, rfl⟩ <;>
    simp only [wakeup1] <;> split
  · rename_i slept
    exact .inr ⟨slept.1, rfl⟩
  · exact .inl rfl
  all_goals first | rfl | exact id

theorem parent_wakeup1 (s : State n κ) (chan : Option (Chan n)) (q : Fin n) :
    ((wakeup1 s chan).proc q).parent = (s.proc q).parent := by
  simp only [wakeup1]
  split <;> rfl

/-- Nobody sleeps on the channel any more. -/
theorem awake_wakeup1 (s : State n κ) (chan : Option (Chan n)) (q : Fin n) :
    ¬ (((wakeup1 s chan).proc q).state = .sleeping ∧ ((wakeup1 s chan).proc q).chan = chan) := by
  simp only [wakeup1]
  split
  · rintro ⟨⟨⟩, -⟩
  · assumption

/-! ### `exit` -/

theorem wakes_set_parent (s : State n κ) (q : Fin n) (parent : Option (Fin n)) :
    Wakes s (s.set q { s.proc q with parent := parent }) := by
  refine ⟨fun r => .inl ?_, fun r => ?_, fun r => ?_, fun r => ?_, rfl, rfl, rfl, rfl, rfl, rfl⟩ <;>
    by_cases same : r = q <;> simp [State.set, same]

theorem wakes_reparent (p : Fin n) (s : State n κ) (q : Fin n) : Wakes s (reparent p s q) := by
  unfold reparent
  split
  · simp only
    split
    · exact (wakes_set_parent s q _).trans (wakes_wakeup1 _ _)
    · exact wakes_set_parent s q _
  · exact .refl s

theorem parent_reparent (p : Fin n) (s : State n κ) (q r : Fin n) :
    ((reparent p s q).proc r).parent =
      if r = q ∧ (s.proc r).parent = some p then some s.initproc else (s.proc r).parent := by
  have set : ((s.set q { s.proc q with parent := some s.initproc }).proc r).parent =
      if r = q then some s.initproc else (s.proc r).parent := by
    by_cases same : r = q <;> simp [State.set, same]
  unfold reparent
  by_cases child : (s.proc q).parent = some p
  · rw [if_pos child]
    have choose : (if r = q ∧ (s.proc r).parent = some p then some s.initproc
        else (s.proc r).parent) = if r = q then some s.initproc else (s.proc r).parent := by
      by_cases same : r = q
      · simp [same, child]
      · simp [same]
    rw [choose, ← set]
    simp only
    split
    · exact parent_wakeup1 ..
    · rfl
  · rw [if_neg child, if_neg]
    rintro ⟨rfl, there⟩
    exact child there

theorem wakes_foldl (p : Fin n) (l : List (Fin n)) (s : State n κ) :
    Wakes s (l.foldl (reparent p) s) := by
  induction l generalizing s with
  | nil => exact .refl s
  | cons q l ih => exact (wakes_reparent p s q).trans (ih _)

theorem parent_foldl (l : List (Fin n)) (s : State n κ) (other : p ≠ s.initproc) (r : Fin n) :
    ((l.foldl (reparent p) s).proc r).parent =
      if r ∈ l ∧ (s.proc r).parent = some p then some s.initproc else (s.proc r).parent := by
  induction l generalizing s with
  | nil => simp
  | cons q l ih =>
    have root := (wakes_reparent p s q).initproc
    rw [List.foldl_cons, ih (reparent p s q) (root ▸ other), root, parent_reparent]
    by_cases child : (s.proc r).parent = some p
    · by_cases same : r = q
      · subst same
        simp [child]
      · simp [same, child]
    · simp [child]

/-- A ZOMBIE among the children passed on wakes init. -/
theorem adopted_foldl (l : List (Fin n)) (s : State n κ) (member : q ∈ l)
    (child : (s.proc q).parent = some p) (dead : (s.proc q).state = .zombie) :
    ¬ (((l.foldl (reparent p) s).proc s.initproc).state = .sleeping ∧
      (s.proc s.initproc).chan = some (.proc s.initproc)) := by
  induction l generalizing s with
  | nil => cases member
  | cons r l ih =>
    rintro ⟨sleeps, chan⟩
    rw [List.foldl_cons] at sleeps
    have wakes := wakes_reparent p s r
    have later := wakes_foldl p l (reparent p s r)
    by_cases here : q = r
    · subst here
      have woken : reparent p s q =
          wakeup1 (s.set q { s.proc q with parent := some s.initproc }) (some (.proc s.initproc)) := by
        simp [reparent, child, State.set, dead]
      have before := later.sleeping sleeps
      rw [← wakes.chan] at chan
      rw [woken] at before chan
      exact awake_wakeup1 _ _ _ ⟨before, chan⟩
    · have inside : q ∈ l := (List.mem_cons.mp member).resolve_left here
      refine ih (reparent p s r) inside ?_ ?_ ?_
      · rw [parent_reparent, if_neg fun both => here both.1]
        exact child
      · exact (wakes.state_iff (by decide) (by decide)).mpr dead
      · rw [wakes.initproc, wakes.chan]
        exact ⟨sleeps, chan⟩

/-- **What `exit` leaves.** -/
structure Exits (s s' : State n κ) (p : Fin n) : Prop where
  state : ∀ q, q ≠ p → (s'.proc q).state = (s.proc q).state ∨
    (s.proc q).state = .sleeping ∧ (s'.proc q).state = .runnable
  zombie : (s'.proc p).state = .zombie
  parent : ∀ q, (s'.proc q).parent =
    if (s.proc q).parent = some p then some s.initproc else (s.proc q).parent
  pid : ∀ q, (s'.proc q).pid = (s.proc q).pid
  chan : ∀ q, (s'.proc q).chan = (s.proc q).chan
  killed : ∀ q, (s.proc q).killed = true → (s'.proc q).killed = true
  nextpid : s'.nextpid = s.nextpid
  initproc : s'.initproc = s.initproc
  cpu : s'.cpu = (s.leave p).cpu
  place : s'.place = s.place
  birth : s'.birth = s.birth
  births : s'.births = s.births
  /-- the parent does not sleep in `wait` -/
  woken : ∀ r, (s.proc p).parent = some r →
    ¬ ((s'.proc r).state = .sleeping ∧ (s.proc r).chan = some (.proc r))
  /-- nor does init, if it is passed a ZOMBIE -/
  adopted : ∀ q, (s.proc q).parent = some p → (s.proc q).state = .zombie →
    ¬ ((s'.proc s.initproc).state = .sleeping ∧
      (s.proc s.initproc).chan = some (.proc s.initproc))

theorem exit_spec (s : State n κ) (other : p ≠ s.initproc) : Exits s (exit s p) p := by
  have first := wakes_wakeup1 s ((s.proc p).parent.map .proc)
  have parents := parent_wakeup1 s ((s.proc p).parent.map .proc)
  have awake := awake_wakeup1 s ((s.proc p).parent.map .proc)
  unfold exit
  rw [if_neg other]
  generalize wakeup1 s ((s.proc p).parent.map .proc) = s₁ at first parents awake ⊢
  have second := wakes_foldl p (List.finRange n) s₁
  have passed := parent_foldl (List.finRange n) s₁ (first.initproc ▸ other)
  have adopted := fun q => adopted_foldl (q := q) (List.finRange n) s₁ (p := p) (List.mem_finRange q)
  simp only
  generalize (List.finRange n).foldl (reparent p) s₁ = s₂ at second passed adopted ⊢
  have both := first.trans second
  have here : ((s₂.set p { s₂.proc p with state := .zombie }).leave p).proc p =
      { s₂.proc p with state := .zombie } := by simp [State.leave, State.set]
  have away : ∀ q, q ≠ p →
      ((s₂.set p { s₂.proc p with state := .zombie }).leave p).proc q = s₂.proc q :=
    fun q apart => by simp [State.leave, State.set, apart]
  generalize same : ((s₂.set p { s₂.proc p with state := .zombie }).leave p) = s₃ at here away
  have kept : ∀ q, (s₃.proc q).parent = (s₂.proc q).parent ∧ (s₃.proc q).pid = (s₂.proc q).pid ∧
      (s₃.proc q).chan = (s₂.proc q).chan ∧ (s₃.proc q).killed = (s₂.proc q).killed := by
    intro q
    by_cases apart : q = p
    · rw [apart, here]
      exact ⟨rfl, rfl, rfl, rfl⟩
    · rw [away q apart]
      exact ⟨rfl, rfl, rfl, rfl⟩
  constructor
  · intro q apart
    rw [away q apart]
    exact both.state q
  · rw [here]
  · intro q
    rw [(kept q).1, passed q, parents q, first.initproc]
    simp only [List.mem_finRange, true_and]
  · exact fun q => (kept q).2.1.trans (both.pid q)
  · exact fun q => (kept q).2.2.1.trans (both.chan q)
  · exact fun q marked => (kept q).2.2.2.trans (both.killed q marked)
  · exact same ▸ both.nextpid
  · exact same ▸ both.initproc
  · rw [← same]
    show (s₂.leave p).cpu = _
    simp only [State.leave, both.cpu]
  · exact same ▸ both.place
  · exact same ▸ both.birth
  · exact same ▸ both.births
  · rintro r parent ⟨sleeps, chan⟩
    have apart : r ≠ p := by
      rintro rfl
      rw [here] at sleeps
      cases sleeps
    rw [away r apart] at sleeps
    exact awake r ⟨second.sleeping sleeps, by rw [first.chan, chan, parent]; rfl⟩
  · rintro q child dead ⟨sleeps, chan⟩
    rw [away _ other.symm] at sleeps
    have stuck := adopted q ((parents q).trans child)
      ((first.state_iff (by decide) (by decide)).mpr dead)
    rw [first.initproc, first.chan] at stuck
    exact stuck ⟨sleeps, chan⟩

/-! ### `wait` and `scheduler` -/

/-- **One scan of `wait`.** -/
theorem waitScan_cases (s : State n κ) (p : Fin n) :
    (∃ q, (s.proc q).parent = some p ∧ (s.proc q).state = .zombie ∧ waitScan s p =
        (s.set q { s.proc q with state := .unused, pid := 0, parent := none, killed := false }).goto p
          .out) ∨
      (∀ q, (s.proc q).parent = some p → (s.proc q).state ≠ .zombie) ∧
        (waitScan s p = s.goto p .out ∨ (∃ q, (s.proc q).parent = some p) ∧ waitScan s p =
          ((s.set p { s.proc p with chan := some (.proc p), state := .sleeping }).goto p
            .wait).leave p) := by
  unfold waitScan
  cases found : (List.finRange n).find? fun q =>
      decide ((s.proc q).parent = some p ∧ (s.proc q).state = .zombie) with
  | some q =>
    have both := List.find?_some found
    obtain ⟨child, dead⟩ := of_decide_eq_true both
    exact .inl ⟨q, child, dead, rfl⟩
  | none =>
    have living : ∀ q, (s.proc q).parent = some p → (s.proc q).state ≠ .zombie := by
      intro q child dead
      have := List.find?_eq_none.mp found q (List.mem_finRange q)
      simp [child, dead] at this
    refine .inr ⟨living, ?_⟩
    simp only
    split
    · exact .inl rfl
    · rename_i more
      obtain ⟨kids, -⟩ := not_or.mp more
      simp only [List.all_eq_true, List.mem_finRange, true_imp_iff, decide_eq_true_eq, not_forall,
        not_not] at kids
      exact .inr ⟨kids, rfl⟩

theorem goto_goto (s : State n κ) (p : Fin n) (first second : Place n) :
    (s.goto p first).goto p second = s.goto p second := by
  simp [State.goto]

/-- The scan does not look at where the process is. -/
theorem waitScan_goto (s : State n κ) (p : Fin n) (place : Place n) :
    waitScan (s.goto p place) p = waitScan s p := by
  have same : (s.goto p place).proc = s.proc := rfl
  unfold waitScan
  simp only [same]
  cases (List.finRange n).find? fun q =>
      decide ((s.proc q).parent = some p ∧ (s.proc q).state = .zombie) with
  | some q => exact goto_goto (s.set q _) p place .out
  | none =>
    simp only
    split
    · exact goto_goto ..
    · exact congrArg (State.leave · p) (goto_goto (s.set p _) p place .wait)

/-- A process goes on, out of the sleep it is in. -/
def enter (s : State n κ) (c : κ) (p : Fin n) : State n κ :=
  let asleep := s.place p = .wait ∨ s.place p = .sleep
  { s with
    proc := Function.update s.proc p { s.proc p with
      state := .running
      chan := if asleep then none else (s.proc p).chan }
    cpu := Function.update s.cpu c (some p)
    place := Function.update s.place p (if asleep then .out else s.place p) }

/-- `scheduler`, with the scan of `wait` on its own. -/
theorem resume_eq (s : State n κ) (c : κ) (p : Fin n) :
    resume s c p = if s.place p = .wait then waitScan (enter s c p) p else enter s c p := by
  unfold resume
  cases place : s.place p with
  | wait =>
    have entered : enter s c p =
        (({ s.set p { s.proc p with state := .running } with
          cpu := Function.update s.cpu c (some p) } : State n κ).set p
            { s.proc p with state := .running, chan := none }).goto p .out := by
      simp [enter, place, State.set, State.goto]
    rw [if_pos rfl, entered, waitScan_goto]
    simp [State.set, place]
  | sleep => simp [enter, place, State.set, State.goto]
  | allocated np => simp [enter, place, State.set]
  | copied np => simp [enter, place, State.set]
  | out => simp [enter, place, State.set]

/-! ### The table as a family -/

def kindOf : ProcState → Kinship.Kind
  | .unused => .free
  | .embryo => .embryo
  | .zombie => .dead
  | _ => .alive

/-- The `np` of a process in `fork`. -/
def bearingOf : Place n → Option (Fin n × Bool)
  | .allocated np => some (np, false)
  | .copied np => some (np, true)
  | _ => none

/-- **The table as a family**, with the numbers of the processes as ages. -/
def view (s : State n κ) : Kinship.Family (Fin n) where
  kind := fun p => kindOf (s.proc p).state
  parent := fun p => (s.proc p).parent
  bearing := fun p => bearingOf (s.place p)
  age := s.birth
  clock := s.births
  root := s.initproc

theorem view_kind {state : ProcState} (here : (s.proc p).state = state) :
    (view s).kind p = kindOf state := congrArg kindOf here

theorem view_bearing {place : Place n} (here : s.place p = place) :
    (view s).bearing p = bearingOf place := congrArg bearingOf here

/-- One entry and one place assigned. -/
theorem view_set_goto (s : State n κ) (q : Fin n) (entry : Entry n) (p : Fin n) (place : Place n) :
    view ((s.set q entry).goto p place) =
      { view s with
        kind := Function.update (view s).kind q (kindOf entry.state)
        parent := Function.update (view s).parent q entry.parent
        bearing := Function.update (view s).bearing p (bearingOf place) } := by
  refine Kinship.Family.ext (funext fun r => ?_) (funext fun r => ?_) (funext fun r => ?_) rfl rfl
    rfl
  · by_cases same : r = q <;> simp [view, State.set, State.goto, same]
  · by_cases same : r = q <;> simp [view, State.set, State.goto, same]
  · by_cases same : r = p <;> simp [view, State.set, State.goto, same]

/-- Assignments that the family does not see. -/
theorem view_set_goto_same (s : State n κ) {q p : Fin n} {entry : Entry n} {place : Place n}
    (kind : kindOf entry.state = kindOf (s.proc q).state) (parent : entry.parent = (s.proc q).parent)
    (bearing : bearingOf place = bearingOf (s.place p)) :
    view ((s.set q entry).goto p place) = view s := by
  rw [view_set_goto, kind, parent, bearing]
  refine Kinship.Family.ext ?_ ?_ ?_ rfl rfl rfl
  · exact Function.update_eq_self q (view s).kind
  · exact Function.update_eq_self q (view s).parent
  · exact Function.update_eq_self p (view s).bearing

theorem view_of_wakes (wakes : Wakes s s') (parents : ∀ q, (s'.proc q).parent = (s.proc q).parent) :
    view s' = view s := by
  refine Kinship.Family.ext (funext fun q => ?_) (funext parents) ?_ wakes.birth wakes.births
    wakes.initproc
  · show kindOf (s'.proc q).state = kindOf (s.proc q).state
    rcases wakes.state q with same | ⟨slept, woken⟩
    · rw [same]
    · rw [slept, woken]
      rfl
  · show (fun q => bearingOf (s'.place q)) = _
    rw [wakes.place]
    rfl

theorem wakes_kill (s : State n κ) (pid : ℤ) : Wakes s (kill s pid) ∧
    ∀ q, ((kill s pid).proc q).parent = (s.proc q).parent := by
  unfold kill
  split
  · exact ⟨.refl s, fun _ => rfl⟩
  · rename_i q _
    refine ⟨⟨fun r => ?_, fun r => ?_, fun r => ?_, fun r => ?_, rfl, rfl, rfl, rfl, rfl, rfl⟩,
      fun r => ?_⟩ <;> by_cases same : r = q <;> simp [State.set, same]
    by_cases slept : (s.proc q).state = .sleeping <;> simp [slept]

theorem view_enter (s : State n κ) (c : κ) (ready : (s.proc p).state = .runnable) :
    view (enter s c p) = view s := by
  have bearing : bearingOf (if s.place p = .wait ∨ s.place p = .sleep then .out else s.place p) =
      bearingOf (s.place p) := by
    cases s.place p <;> rfl
  exact view_set_goto_same s (by rw [ready]; rfl) rfl bearing

/-- A scan of `wait` buries a child, or is not seen. -/
theorem view_waitScan (running : (s.proc p).state = .running) (out : s.place p = .out) :
    view (waitScan s p) = view s ∨ Kinship.Step (view s) (view (waitScan s p)) := by
  have idle : bearingOf .out = bearingOf (s.place p) := by rw [out]
  rcases waitScan_cases s p with ⟨q, child, dead, scanned⟩ | ⟨-, scanned | ⟨-, scanned⟩⟩
  · right
    have buried : Kinship.Step (view s) _ := .buries (p := p) (c := q)
      (view_kind running) child (view_kind dead)
    rw [scanned, view_set_goto, idle]
    rwa [← Function.update_eq_self p (view s).bearing] at buried
  · left
    have whole : s.set p (s.proc p) = s := by simp [State.set]
    have seen : view ((s.set p (s.proc p)).goto p .out) = view s :=
      view_set_goto_same s rfl rfl idle
    rwa [whole, ← scanned] at seen
  · left
    rw [scanned]
    exact view_set_goto_same s (by rw [running]; rfl) rfl idle

/-! ### What a step does -/

/-- **One step, by what it does.** -/
inductive Steps (s : State n κ) : State n κ → Prop
  /-- `wakeup`, `kill`, and `allocproc` on a full table -/
  | wakes {s' : State n κ} : Wakes s s' → (∀ q, (s'.proc q).parent = (s.proc q).parent) → Steps s s'
  | resumes {c : κ} {p : Fin n} : s.cpu c = none → (s.proc p).state = .runnable →
      s.place p ≠ .wait → Steps s (enter s c p)
  | rescans {c : κ} {p : Fin n} : s.cpu c = none → (s.proc p).state = .runnable →
      s.place p = .wait → Steps s (waitScan (enter s c p) p)
  | yields {p : Fin n} : (s.proc p).state = .running →
      Steps s ((s.set p { s.proc p with state := .runnable }).leave p)
  | sleeps {p : Fin n} {address : ℕ} : s.Free p →
      Steps s (((s.set p
        { s.proc p with chan := some (.other address), state := .sleeping }).goto p .sleep).leave p)
  | allocates {p np : Fin n} : s.Free p → (s.proc np).state = .unused →
      Steps s ({ s.set np { s.proc np with state := .embryo, pid := s.nextpid } with
        nextpid := Wrap.int (s.nextpid + 1)
        birth := Function.update s.birth np s.births
        births := s.births + 1 }.goto p (.allocated np))
  | fails {p np : Fin n} : s.place p = .allocated np → (s.proc p).state = .running →
      Steps s ((s.set np { s.proc np with state := .unused }).goto p .out)
  | copies {p np : Fin n} : s.place p = .allocated np → (s.proc p).state = .running →
      Steps s ((s.set np { s.proc np with parent := some p }).goto p (.copied np))
  | forks {p np : Fin n} : s.place p = .copied np → (s.proc p).state = .running →
      Steps s ((s.set np { s.proc np with state := .runnable }).goto p .out)
  | exits {p : Fin n} {s' : State n κ} : s.Free p → p ≠ s.initproc → Exits s s' p → Steps s s'
  | panics : Steps s { s with panic := true }
  | scans {p : Fin n} : s.Free p → Steps s (waitScan s p)

theorem steps_of_next {label : Label n κ} (moved : next s label = some s') : Steps s s' := by
  unfold next at moved
  split at moved
  · cases moved
  cases label with
  | schedule c p =>
    obtain ⟨⟨idle, ready⟩, same⟩ := Option.ite_none_right_eq_some.mp moved
    cases same
    rw [resume_eq]
    split
    · exact .rescans idle ready ‹_›
    · exact .resumes idle ready ‹_›
  | yield p =>
    obtain ⟨running, same⟩ := Option.ite_none_right_eq_some.mp moved
    cases same
    exact .yields running
  | sleep p address =>
    obtain ⟨free, same⟩ := Option.ite_none_right_eq_some.mp moved
    cases same
    exact .sleeps free
  | wakeup address =>
    cases moved
    exact .wakes (wakes_wakeup1 ..) (parent_wakeup1 s _)
  | kill p pid =>
    obtain ⟨-, same⟩ := Option.ite_none_right_eq_some.mp moved
    cases same
    exact .wakes (wakes_kill s pid).1 (wakes_kill s pid).2
  | allocproc p =>
    obtain ⟨free, same⟩ := Option.ite_none_right_eq_some.mp moved
    cases same
    unfold allocproc
    split
    · exact .wakes (.refl s) fun _ => rfl
    · rename_i np found
      have unused := List.find?_some found
      exact .allocates free (of_decide_eq_true unused)
  | fails p =>
    simp only at moved
    split at moved
    · obtain ⟨running, same⟩ := Option.ite_none_right_eq_some.mp moved
      cases same
      exact .fails ‹_› running
    · cases moved
  | copies p =>
    simp only at moved
    split at moved
    · obtain ⟨running, same⟩ := Option.ite_none_right_eq_some.mp moved
      cases same
      exact .copies ‹_› running
    · cases moved
  | forks p =>
    simp only at moved
    split at moved
    · obtain ⟨running, same⟩ := Option.ite_none_right_eq_some.mp moved
      cases same
      exact .forks ‹_› running
    · cases moved
  | exit p =>
    obtain ⟨free, same⟩ := Option.ite_none_right_eq_some.mp moved
    cases same
    by_cases init : p = s.initproc
    · rw [exit, if_pos init]
      exact .panics
    · exact .exits free init (exit_spec s init)
  | wait p =>
    obtain ⟨free, same⟩ := Option.ite_none_right_eq_some.mp moved
    cases same
    exact .scans free

/-- Who exits is dead, and its children are adopted. -/
theorem view_exits (exits : Exits s s' p) :
    view s' = { view s with
      kind := Function.update (view s).kind p .dead
      parent := fun c => if (view s).parent c = some p then some (view s).root
        else (view s).parent c } := by
  refine Kinship.Family.ext (funext fun q => ?_) (funext exits.parent) ?_ exits.birth
    exits.births exits.initproc
  · show kindOf (s'.proc q).state = Function.update (view s).kind p .dead q
    by_cases same : q = p
    · rw [same, exits.zombie, Function.update_self]
      rfl
    · rw [Function.update_of_ne same]
      show _ = kindOf (s.proc q).state
      rcases exits.state q same with kept | ⟨slept, woken⟩
      · rw [kept]
      · rw [slept, woken]
        rfl
  · show (fun q => bearingOf (s'.place q)) = fun q => bearingOf (s.place q)
    rw [exits.place]

/-- **Every step is a move of the family, or none.** -/
theorem view_step (step : Steps s s') : view s' = view s ∨ Kinship.Step (view s) (view s') := by
  cases step with
  | wakes wakes parents => exact .inl (view_of_wakes wakes parents)
  | resumes _ ready _ => exact .inl (view_enter s _ ready)
  | @rescans c p _ ready place =>
    rw [← view_enter s c ready]
    exact view_waitScan (by simp [enter]) (by simp [enter, place])
  | @yields p running =>
    left
    have whole : (s.set p { s.proc p with state := .runnable }).goto p (s.place p) =
        s.set p { s.proc p with state := .runnable } := by simp [State.goto, State.set]
    have seen : view ((s.set p { s.proc p with state := .runnable }).goto p (s.place p)) = view s :=
      view_set_goto_same s (by rw [running]; rfl) rfl rfl
    rwa [whole] at seen
  | sleeps free =>
    exact .inl (view_set_goto_same s (by rw [free.1]; rfl) rfl (by rw [free.2]; rfl))
  | @allocates p np free unused =>
    have moved : view ({ s.set np { s.proc np with state := .embryo, pid := s.nextpid } with
        nextpid := Wrap.int (s.nextpid + 1)
        birth := Function.update s.birth np s.births
        births := s.births + 1 }.goto p (.allocated np)) =
        { view s with
          kind := Function.update (view s).kind np .embryo
          bearing := Function.update (view s).bearing p (some (np, false))
          age := Function.update (view s).age np (view s).clock
          clock := (view s).clock + 1 } := by
      have seen := view_set_goto s np { s.proc np with state := .embryo, pid := s.nextpid } p
        (.allocated np)
      have parents := Function.update_eq_self np (view s).parent
      exact Kinship.Family.ext (congrArg (·.kind) seen)
        ((congrArg (·.parent) seen).trans parents) (congrArg (·.bearing) seen) rfl rfl rfl
    rw [moved]
    exact .inr (.conceives (view_kind free.1) (view_bearing free.2) (view_kind unused))
  | @fails p np place running =>
    have moved : view ((s.set np { s.proc np with state := .unused }).goto p .out) =
        { view s with
          kind := Function.update (view s).kind np .free
          bearing := Function.update (view s).bearing p none } := by
      rw [view_set_goto]
      exact Kinship.Family.ext rfl (Function.update_eq_self np (view s).parent) rfl rfl rfl rfl
    rw [moved]
    exact .inr (.loses (view_bearing place))
  | @copies p np place running =>
    have moved : view ((s.set np { s.proc np with parent := some p }).goto p (.copied np)) =
        { view s with
          parent := Function.update (view s).parent np (some p)
          bearing := Function.update (view s).bearing p (some (np, true)) } := by
      rw [view_set_goto]
      exact Kinship.Family.ext (Function.update_eq_self np (view s).kind) rfl rfl rfl rfl rfl
    rw [moved]
    exact .inr (.names (view_bearing place))
  | @forks p np place running =>
    have moved : view ((s.set np { s.proc np with state := .runnable }).goto p .out) =
        { view s with
          kind := Function.update (view s).kind np .alive
          bearing := Function.update (view s).bearing p none } := by
      rw [view_set_goto]
      exact Kinship.Family.ext rfl (Function.update_eq_self np (view s).parent) rfl rfl rfl rfl
    rw [moved]
    exact .inr (.bears (view_bearing place))
  | exits free other exits =>
    rw [view_exits exits]
    exact .inr (.dies (view_kind free.1) (view_bearing free.2) other)
  | panics => exact .inl rfl
  | scans free => exact view_waitScan free.1 free.2

/-- The family stays a tree. -/
theorem tree_step (tree : Kinship.Tree (view s)) (ages : Kinship.Ages (view s)) (step : Steps s s') :
    Kinship.Tree (view s') ∧ Kinship.Ages (view s') := by
  rcases view_step step with same | moved
  · rw [same]
    exact ⟨tree, ages⟩
  · exact ⟨tree.step moved, ages.step tree moved⟩

end Proc

end Xv6
