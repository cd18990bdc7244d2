/-
**Runs of a labelled transition function, and what every run keeps.**

A system is a partial function `next : S → L → Option S`: the label says who moves (a thread, a
caller's request), `none` says that this label cannot move now.

* `Reach next guard start` — the states reached from `start` by steps that all meet `guard` in the
  state before the step; `Reachable next start` is the case of no condition.
* `Reach.invariant` — what holds at the start and is kept by every guarded step holds in every
  state reached. Every safety result about a run is this rule and a step lemma.
* `Reach.head`, `Reach.trans`, `Reach.reachable` — a step more at the start, runs one behind the
  other, and a condition less.
* `execute` — a run given by its list of labels. `reach_of_execute` turns an evaluated run, with
  its condition checked at every step, into reachability, and `exists_reach_of_execute` checks a
  property of its last state as well.
-/

import Mathlib.Data.List.Basic
import Mathlib.Data.Option.Basic

namespace Transition

variable {S L : Type} {next : S → L → Option S} {guard : S → L → Prop} {start : S}

/-- **The states reached by guarded steps.** -/
inductive Reach (next : S → L → Option S) (guard : S → L → Prop) (start : S) : S → Prop
  | start : Reach next guard start start
  | step {before after : S} {label : L} : Reach next guard start before → guard before label →
      next before label = some after → Reach next guard start after

/-- The states reached by any steps. -/
abbrev Reachable (next : S → L → Option S) (start : S) : S → Prop :=
  Reach next (fun _ _ => True) start

/-- **The invariant rule.** -/
theorem Reach.invariant (Inv : S → Prop) (first : Inv start)
    (kept : ∀ before label after, Inv before → guard before label →
      next before label = some after → Inv after)
    {state : S} (reach : Reach next guard start state) : Inv state := by
  induction reach with
  | start => exact first
  | step _ meets moved ih => exact kept _ _ _ ih meets moved

/-- A run with one step more at its start. -/
theorem Reach.head {middle state : S} {label : L} (meets : guard start label)
    (moved : next start label = some middle) (reach : Reach next guard middle state) :
    Reach next guard start state := by
  induction reach with
  | start => exact .step .start meets moved
  | step _ meets moved ih => exact .step ih meets moved

/-- Two runs, one behind the other. -/
theorem Reach.trans {middle state : S} (first : Reach next guard start middle)
    (second : Reach next guard middle state) : Reach next guard start state := by
  induction second with
  | start => exact first
  | step _ meets moved ih => exact .step ih meets moved

/-- A run of guarded steps is one of steps. -/
theorem Reach.reachable {state : S} (reach : Reach next guard start state) :
    Reachable next start state := by
  induction reach with
  | start => exact .start
  | step _ _ moved ih => exact .step ih trivial moved

/-- The run of a list of labels. -/
def execute (next : S → L → Option S) : S → List L → Option S
  | state, [] => some state
  | state, label :: labels => (next state label).bind fun after => execute next after labels

/-- A run in two parts. -/
theorem execute_append {before middle : S} {labels : List L} (more : List L)
    (run : execute next before labels = some middle) :
    execute next before (labels ++ more) = execute next middle more := by
  induction labels generalizing before with
  | nil =>
    cases run
    rfl
  | cons label labels ih =>
    obtain ⟨after, moved, rest⟩ := Option.bind_eq_some_iff.mp run
    rw [List.cons_append, execute, moved]
    exact ih rest

/-- The steps that meet a decidable condition. -/
def guarded (next : S → L → Option S) (guard : S → L → Prop)
    [∀ state label, Decidable (guard state label)] (state : S) (label : L) : Option S :=
  if guard state label then next state label else none

/-- Evaluating a run, with its condition checked at every step, shows its last state reached. -/
theorem reach_of_execute [∀ state label, Decidable (guard state label)] (labels : List L)
    {before after : S} (reach : Reach next guard start before)
    (run : execute (guarded next guard) before labels = some after) :
    Reach next guard start after := by
  induction labels generalizing before with
  | nil =>
    cases run
    exact reach
  | cons label labels ih =>
    obtain ⟨middle, moved, rest⟩ := Option.bind_eq_some_iff.mp run
    unfold guarded at moved
    split at moved
    · exact ih (.step reach ‹_› moved) rest
    · cases moved

/-- The same with a test of the last state. -/
theorem exists_reach_of_execute [∀ state label, Decidable (guard state label)] (labels : List L)
    (test : S → Prop) [DecidablePred test]
    (run : (execute (guarded next guard) start labels).any (fun state => decide (test state)) =
      true) :
    ∃ state, Reach next guard start state ∧ test state := by
  cases evaluated : execute (guarded next guard) start labels with
  | none =>
    rw [evaluated] at run
    cases run
  | some state =>
    rw [evaluated] at run
    exact ⟨state, reach_of_execute labels .start evaluated, of_decide_eq_true run⟩

end Transition
