/-
**Trace refinement of transition functions.**

The steps of a system show events; a step may be silent. The concrete system refines the abstract
one if every run of it is matched by a run of the abstract one that shows the same events.

* `Trace next guard seen start events state` — a guarded run from `start` to `state` that shows
  `events`.
* `exists_trace_of_execute` — an evaluated run, with its guard checked at every step, is a trace.
* `Simulates` — a relation between the states such that every guarded step is matched by finitely
  many abstract steps with the same events.
* `Simulates.trace` — **the rule**: runs are matched by runs. `Simulates.reach` is the relation
  alone.
-/

import SistemasOperacionais.Runs.Reach

namespace Transition

variable {S L A M E : Type} {next : S → L → Option S} {guard : S → L → Prop}
  {seen : S → L → Option E} {start : S} {move : A → M → Option A} {shown : M → Option E} {first : A}

/-- **A guarded run with its events.** -/
inductive Trace (next : S → L → Option S) (guard : S → L → Prop) (seen : S → L → Option E)
    (start : S) : List E → S → Prop
  | start : Trace next guard seen start [] start
  | step {events : List E} {before after : S} {label : L} :
      Trace next guard seen start events before → guard before label →
      next before label = some after →
      Trace next guard seen start (events ++ (seen before label).toList) after

/-- Evaluating a guarded run continues a trace. -/
theorem Trace.continue [∀ state label, Decidable (guard state label)] (labels : List L)
    {events : List E} {before after : S} (trace : Trace next guard seen start events before)
    (run : execute (guarded next guard) before labels = some after) :
    ∃ more, Trace next guard seen start (events ++ more) after := by
  induction labels generalizing events before with
  | nil =>
    cases run
    exact ⟨[], by rwa [List.append_nil]⟩
  | cons label labels ih =>
    obtain ⟨middle, moved, rest⟩ := Option.bind_eq_some_iff.mp run
    unfold guarded at moved
    split at moved
    · obtain ⟨more, trace⟩ := ih (.step trace ‹_› moved) rest
      exact ⟨_, by rwa [List.append_assoc] at trace⟩
    · cases moved

/-- **An evaluated run**, with a test of its last state. -/
theorem exists_trace_of_execute [∀ state label, Decidable (guard state label)] (labels : List L)
    (test : S → Prop) [DecidablePred test]
    (run : (execute (guarded next guard) start labels).any (fun state => decide (test state)) =
      true) :
    ∃ events state, Trace next guard seen start events state ∧ test state := by
  cases evaluated : execute (guarded next guard) start labels with
  | none =>
    rw [evaluated] at run
    cases run
  | some state =>
    rw [evaluated] at run
    have empty : Trace next guard seen start [] start := .start
    obtain ⟨events, trace⟩ := empty.continue labels evaluated
    exact ⟨_, state, trace, of_decide_eq_true run⟩

/-- **A simulation.** -/
def Simulates (next : S → L → Option S) (guard : S → L → Prop) (seen : S → L → Option E)
    (move : A → M → Option A) (shown : M → Option E) (Match : S → A → Prop) : Prop :=
  ∀ before label after abstract, Match before abstract → guard before label →
    next before label = some after →
    ∃ moves abstract', execute move abstract moves = some abstract' ∧ Match after abstract' ∧
      moves.filterMap shown = (seen before label).toList

/-- **Every run is matched by an abstract run with the same events.** -/
theorem Simulates.trace {Match : S → A → Prop}
    (simulates : Simulates next guard seen move shown Match) (initial : Match start first)
    {events : List E} {state : S} (trace : Trace next guard seen start events state) :
    ∃ moves abstract, execute move first moves = some abstract ∧ Match state abstract ∧
      moves.filterMap shown = events := by
  induction trace with
  | start => exact ⟨[], first, rfl, initial, rfl⟩
  | step _ meets moved ih =>
    obtain ⟨moves, middle, ran, related, shows⟩ := ih
    obtain ⟨more, abstract, runs, matched, showsMore⟩ := simulates _ _ _ _ related meets moved
    refine ⟨moves ++ more, abstract, (execute_append more ran).trans runs, matched, ?_⟩
    rw [List.filterMap_append, shows, showsMore]

/-- Every state reached is matched. -/
theorem Simulates.reach {Match : S → A → Prop}
    (simulates : Simulates next guard seen move shown Match) (initial : Match start first)
    {state : S} (reach : Reach next guard start state) : ∃ abstract, Match state abstract := by
  refine reach.invariant (fun s => ∃ abstract, Match s abstract) ⟨first, initial⟩ ?_
  rintro before label after ⟨abstract, related⟩ meets moved
  obtain ⟨-, abstract', -, matched, -⟩ := simulates _ _ _ _ related meets moved
  exact ⟨abstract', matched⟩

end Transition
