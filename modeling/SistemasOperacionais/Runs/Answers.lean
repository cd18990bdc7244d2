/-
**Calls and what they answer.**

A system answers a call or stops: `call : S → L → Except P (R × S)`.

* `answers call s labels` — what the calls answer one after the other, up to the first stop.
* `Same Match` — two outcomes with the same answer and matching states, or with the same stop.
* `Implements` — matching states have the same outcomes of every legal call.
* `Implements.answers` — **the rule**: on a legal sequence of calls nobody can tell the system from
  the model. `Implements.reach` is what is left of the states.
-/

import SistemasOperacionais.Runs.Reach

namespace Calls

open Transition

variable {S A L P R : Type} {call : S → L → Except P (R × S)} {model : A → L → Except P (R × A)}
  {Match : S → A → Prop} {legal : L → Prop} {s : S} {a : A}

/-- **The answers**, up to the first stop. -/
def answers (call : S → L → Except P (R × S)) : S → List L → List (Except P R)
  | _, [] => []
  | s, label :: labels =>
      match call s label with
      | .error stop => [.error stop]
      | .ok (answer, after) => .ok answer :: answers call after labels

/-- The state after a call that is answered. -/
def next (call : S → L → Except P (R × S)) (s : S) (label : L) : Option S :=
  (call s label).toOption.map Prod.snd

/-- **The same answer and matching states, or the same stop.** -/
inductive Same (Match : S → A → Prop) : Except P (R × S) → Except P (R × A) → Prop
  | ok {answer : R} {s : S} {a : A} : Match s a → Same Match (.ok (answer, s)) (.ok (answer, a))
  | error (stop : P) : Same Match (.error stop) (.error stop)

/-- What the system does where the model answers. -/
theorem Same.eq_ok {outcome : Except P (R × S)} {answer : R}
    (same : Same Match outcome (.ok (answer, a))) : ∃ s, outcome = .ok (answer, s) ∧ Match s a := by
  cases same with
  | ok related => exact ⟨_, rfl, related⟩

theorem Same.eq_error {outcome : Except P (R × S)} {stop : P}
    (same : Same Match outcome (.error stop)) : outcome = .error stop := by
  cases same
  rfl

/-- **The system implements the model.** -/
def Implements (call : S → L → Except P (R × S)) (legal : L → Prop)
    (model : A → L → Except P (R × A)) (Match : S → A → Prop) : Prop :=
  ∀ s a label, Match s a → legal label → Same Match (call s label) (model a label)

/-- **Legal calls are answered alike.** -/
theorem Implements.answers (implements : Implements call legal model Match) (related : Match s a)
    (labels : List L) (all : ∀ label ∈ labels, legal label) :
    answers call s labels = answers model a labels := by
  induction labels generalizing s a with
  | nil => rfl
  | cons label labels ih =>
    have same := implements s a label related (all label List.mem_cons_self)
    rw [Calls.answers, Calls.answers]
    generalize call s label = outcome at same
    generalize model a label = outcome' at same
    cases same with
    | ok related' =>
      exact congrArg _ (ih related' fun label member => all label (List.mem_cons_of_mem _ member))
    | error => rfl

/-- Every state reached by legal calls matches one of the model. -/
theorem Implements.reach (implements : Implements call legal model Match) (related : Match s a)
    {state : S} (reach : Reach (next call) (fun _ label => legal label) s state) :
    ∃ a, Match state a := by
  refine reach.invariant (fun state => ∃ a, Match state a) ⟨a, related⟩ ?_
  rintro before label after ⟨a, related⟩ meets moved
  have same := implements before a label related meets
  rw [next] at moved
  generalize call before label = outcome at same moved
  generalize model a label = outcome' at same
  cases same with
  | ok related' =>
    cases moved
    exact ⟨_, related'⟩
  | error => cases moved

end Calls
