/-
**`barbeiro.c`: more than one customer in the chair.**

The barber posts `sem_barbeiros` and cuts; nothing tells it that the customer it called has passed
its wait, or has left the chair. A customer that is slow to come is still to be served when the
barber calls the next one, and a quick one is served before the barber has released `mutex`.

* `chair_shared` — the run: the barber finishes a round before the first customer passes its wait
  and calls the second one; both are past the wait, and the first is served while the barber is
  still in its critical region.
* `Courteous` — the condition: the barber ends `cortarCabelo` only when the call has been answered
  and the chair is empty, and no customer passes its wait between the post of `sem_barbeiros` and the
  call of `cortarCabelo`.
* `Attended` — the account of the chair under that condition: an open call or a customer in the
  chair, never both, and only in the barber's `cortarCabelo`; the call alone before it.
* `Tended.disturbed` — a step that does not meet the condition leads on, by steps of
  customers, to a state with a customer in `cortandoCabelo` and the barber elsewhere.
* `oneInChair_of_courteous` — **every state of every run of steps that meet the condition has one
  customer in the chair at most, and it is served in the barber's haircut of the same number; and no
  other step can be allowed.**
-/

import SistemasOperacionais.Barbeiro.Accounts

set_option linter.unusedSectionVars false

namespace Barbeiro

open Threads Transition

/-- The haircut of a customer past its wait and not yet past `cortandoCabelo`. -/
def ClienteAt.haircut : ClienteAt → Option ℕ
  | .seated haircut | .cortandoCabelo haircut => some haircut
  | _ => none

/-- Past the wait for `sem_barbeiros` and not yet past `cortandoCabelo`. -/
def Local.inChair : Local → Bool
  | .cliente place => place.haircut.isSome
  | .barbeiro _ => false

/-- The barber from its post of `sem_barbeiros` to its call of `cortarCabelo`. -/
def Local.called : Local → Bool
  | .barbeiro .postMutex | .barbeiro .ready => true
  | _ => false

variable {ι : Type} [Fintype ι] [DecidableEq ι] {CADEIRAS : ℕ} {s s' : Shared} {l' : Local}

/-- At most one customer is in the chair. -/
def Alone (config : Config (Option ι) Shared Local) : Prop :=
  ∀ first second, (config.locals first).inChair = true → (config.locals second).inChair = true →
    first = second

/-- A customer in `cortandoCabelo` is there while the barber is in `cortarCabelo`, in the haircut
of the same number. -/
def SameHaircut (config : Config (Option ι) Shared Local) : Prop :=
  ∀ customer haircut, config.locals customer = .cliente (.cortandoCabelo haircut) →
    config.locals none = .barbeiro .cortarCabelo ∧ config.shared.cortes = haircut

/-- **One customer in the chair.** -/
structure OneInChair (config : Config (Option ι) Shared Local) : Prop where
  alone : Alone config
  haircut : SameHaircut config

/-! ### The condition -/

/-- **The condition on a step**: the barber ends `cortarCabelo` only when nobody has still to answer
its call and nobody is in the chair; a customer passes its wait only when the barber is not between
its post of `sem_barbeiros` and its call of `cortarCabelo`. -/
structure Courteous (config : Config (Option ι) Shared Local) (thread : Option ι) : Prop where
  ends : config.locals thread = .barbeiro .cortarCabelo →
    config.shared.semBarbeiros = 0 ∧ ∀ customer, (config.locals customer).inChair = false
  passes : config.locals thread = .cliente .waitBarbeiros → (config.locals none).called = false

instance (config : Config (Option ι) Shared Local) (thread : Option ι) :
    Decidable (Courteous config thread) :=
  decidable_of_iff
    ((config.locals thread = .barbeiro .cortarCabelo →
        config.shared.semBarbeiros = 0 ∧ ∀ customer, (config.locals customer).inChair = false) ∧
      (config.locals thread = .cliente .waitBarbeiros → (config.locals none).called = false))
    ⟨fun both => ⟨both.1, both.2⟩, fun courteous => ⟨courteous.ends, courteous.passes⟩⟩

/-! ### The account of the chair -/

/-- **The account**, from the barber's place and the number of customers in the chair. -/
structure Attended (s : Shared) (barber : BarbeiroAt) (chair : ℕ) : Prop where
  posts : s.passed + s.semBarbeiros = s.posted
  cortes : s.cortes + (Local.barbeiro barber).called.toNat = s.posted
  single : s.semBarbeiros + chair ≤ 1
  idle : (Local.barbeiro barber).called = false → barber ≠ .cortarCabelo → s.semBarbeiros + chair = 0
  ready : (Local.barbeiro barber).called = true → chair = 0

/-- The variables of the account are not touched. -/
structure Apart (s s' : Shared) : Prop where
  semBarbeiros : s'.semBarbeiros = s.semBarbeiros
  posted : s'.posted = s.posted
  passed : s'.passed = s.passed
  cortes : s'.cortes = s.cortes

variable {barber : BarbeiroAt} {place place' : ClienteAt} {chair chair' : ℕ}

theorem Attended.apart (attended : Attended s barber chair) (apart : Apart s s') :
    Attended s' barber chair := by
  obtain ⟨posts, cortes, single, idle, ready⟩ := attended
  obtain ⟨semBarbeiros, posted, passed, same⟩ := apart
  refine ⟨?_, ?_, ?_, ?_, ready⟩
  · rw [passed, semBarbeiros, posted]
    exact posts
  · rw [same, posted]
    exact cortes
  · rw [semBarbeiros]
    exact single
  · rw [semBarbeiros]
    exact idle

/-- **Each statement of the barber keeps the account**; it calls when the chair is empty. -/
theorem Attended.barbeiro (attended : Attended s barber chair)
    (act : Act CADEIRAS s (.barbeiro barber) s' l')
    (ends : barber = .cortarCabelo → s.semBarbeiros = 0 ∧ chair = 0) :
    ∃ next, l' = .barbeiro next ∧ Attended s' next chair ∧ (s'.posted = s.posted ∨ chair = 0) := by
  obtain ⟨posts, cortes, single, idle, ready⟩ := attended
  cases act with
  | wake _ =>
    exact ⟨_, rfl, ⟨posts, cortes, single, fun _ _ => idle rfl nofun, nofun⟩, .inl rfl⟩
  | lock _ =>
    exact ⟨_, rfl, ⟨posts, cortes, single, fun _ _ => idle rfl nofun, nofun⟩, .inl rfl⟩
  | decrement =>
    exact ⟨_, rfl, ⟨posts, cortes, single, fun _ _ => idle rfl nofun, nofun⟩, .inl rfl⟩
  | post =>
    have nobody : s.semBarbeiros + chair = 0 := idle rfl nofun
    have called : s.cortes = s.posted := cortes
    refine ⟨_, rfl, ⟨?_, ?_, ?_, nofun, fun _ => ?_⟩, .inr ?_⟩
    · show s.passed + (s.semBarbeiros + 1) = s.posted + 1
      omega
    · show s.cortes + 1 = s.posted + 1
      omega
    · show s.semBarbeiros + 1 + chair ≤ 1
      omega
    · omega
    · omega
  | starts =>
    exact ⟨_, rfl, ⟨posts, cortes, single, nofun, fun _ => ready rfl⟩, .inl rfl⟩
  | cut =>
    exact ⟨_, rfl, ⟨posts, cortes, single, fun _ not => absurd rfl not, nofun⟩, .inl rfl⟩
  | finish =>
    have empty : s.semBarbeiros = 0 ∧ chair = 0 := ends rfl
    exact ⟨_, rfl, ⟨posts, cortes, single, fun _ _ => by omega, nofun⟩, .inl rfl⟩

/-- What a customer's statement does to the chair. -/
inductive Visit (s : Shared) (place : ClienteAt) (s' : Shared) (place' : ClienteAt) : Prop
  | apart : Apart s s' → place'.haircut = place.haircut → Visit s place s' place'
  | pass : place = .waitBarbeiros → 0 < s.semBarbeiros →
      s' = { s with semBarbeiros := s.semBarbeiros - 1, passed := s.passed + 1 } →
      place' = .seated (s.passed + 1) → Visit s place s' place'
  | rise : s' = s → place.haircut.isSome = true → place'.haircut = none → Visit s place s' place'

/-- **Every statement of a customer is one of the three.** -/
theorem visit_of_act (act : Act CADEIRAS s (.cliente place) s' l') :
    ∃ next, l' = .cliente next ∧ Visit s place s' next := by
  cases act with
  | pass some => exact ⟨_, rfl, .pass rfl some rfl rfl⟩
  | rise => exact ⟨_, rfl, .rise rfl rfl rfl⟩
  | enter _ | room _ | full _ | chegou | increment | announce | release | sit | refused | leave =>
    exact ⟨_, rfl, .apart ⟨rfl, rfl, rfl, rfl⟩ rfl⟩

/-- **Each statement of a customer keeps the account**; the haircut it gets is the last one
called. -/
theorem Attended.cliente (attended : Attended s barber chair) (visit : Visit s place s' place')
    (shift : chair' + place.haircut.isSome.toNat = chair + place'.haircut.isSome.toNat)
    (passes : place = .waitBarbeiros → (Local.barbeiro barber).called = false) :
    Attended s' barber chair' ∧ s'.posted = s.posted ∧
      ∀ k, place'.haircut = some k → place.haircut = some k ∨ k = s.posted := by
  cases visit with
  | apart apart same =>
    have kept : chair' = chair := by
      rw [same] at shift
      omega
    rw [kept, same]
    exact ⟨attended.apart apart, apart.posted, fun k here => .inl here⟩
  | pass here some moved seated =>
    subst here moved seated
    obtain ⟨posts, cortes, single, idle, ready⟩ := attended
    have entered : chair' = chair + 1 := shift
    refine ⟨⟨?_, cortes, ?_, ?_, fun at_ => absurd (passes rfl) (by rw [at_]; decide)⟩, rfl, ?_⟩
    · show s.passed + 1 + (s.semBarbeiros - 1) = s.posted
      omega
    · show s.semBarbeiros - 1 + chair' ≤ 1
      omega
    · intro first second
      have := idle first second
      omega
    · intro k ticket
      cases ticket
      right
      omega
  | rise same was empty =>
    subst same
    obtain ⟨posts, cortes, single, idle, ready⟩ := attended
    have left : chair' + 1 = chair := by
      rw [was, empty] at shift
      exact shift
    refine ⟨⟨posts, cortes, by omega, fun first second => ?_, fun at_ => ?_⟩, rfl, ?_⟩
    · have := idle first second
      omega
    · have := ready at_
      omega
    · intro k ticket
      rw [empty] at ticket
      cases ticket

/-! ### The runs that meet the condition -/

/-- **What a courteous run keeps.** -/
structure Tended (config : Config (Option ι) Shared Local) : Prop where
  barber : ∃ place, config.locals none = .barbeiro place ∧
    Attended config.shared place (count (fun _ => Local.inChair) config.locals)
  customers : ∀ customer, ∃ place, config.locals (some customer) = .cliente place ∧
    ∀ k, place.haircut = some k → k = config.shared.posted

theorem tended_inicio : Tended (inicio ι) := by
  have empty : count (fun _ => Local.inChair) (inicio ι).locals = 0 := by
    apply count_eq_zero
    intro thread
    cases thread with
    | none => rfl
    | some _ => rfl
  refine ⟨⟨.waitClientes, rfl, ?_⟩, fun customer => ⟨.waitMutex, rfl, nofun⟩⟩
  rw [empty]
  exact ⟨rfl, rfl, Nat.zero_le _, fun _ _ => rfl, nofun⟩

variable {config after : Config (Option ι) Shared Local}

theorem Tended.step {thread : Option ι} (tended : Tended config)
    (courteous : Courteous config thread)
    (moved : Threads.step (program CADEIRAS) config thread = some after) : Tended after := by
  obtain ⟨⟨barber, here, attended⟩, customers⟩ := tended
  obtain ⟨shared, l', run, rfl⟩ := step_eq_some moved
  have act := act_of_program run
  have shift := count_update (fun _ => Local.inChair) config.locals thread l'
  cases thread with
  | none =>
    rw [here] at act shift
    have ends : barber = .cortarCabelo → config.shared.semBarbeiros = 0 ∧
        count (fun _ => Local.inChair) config.locals = 0 := by
      rintro rfl
      obtain ⟨answered, empty⟩ := courteous.ends here
      exact ⟨answered, count_eq_zero empty⟩
    obtain ⟨next, rfl, attended', posted⟩ := attended.barbeiro act ends
    have same : count (fun _ => Local.inChair)
        (Function.update config.locals none (.barbeiro next)) =
          count (fun _ => Local.inChair) config.locals := shift
    refine ⟨⟨next, ?_, ?_⟩, fun customer => ?_⟩
    · show Function.update config.locals none (.barbeiro next) none = _
      rw [Function.update_self]
    · show Attended shared next _
      rw [same]
      exact attended'
    · obtain ⟨place, there, tickets⟩ := customers customer
      refine ⟨place, ?_, fun k ticket => ?_⟩
      · show Function.update config.locals none (.barbeiro next) (some customer) = _
        rw [update_none_some]
        exact there
      · -- with somebody in the chair the barber has not called
        have seated : (config.locals (some customer)).inChair = true := by
          rw [there]
          simp [Local.inChair, ticket]
        have counted := one_le_count (P := fun _ => Local.inChair) seated
        have last := tickets k ticket
        show k = shared.posted
        omega
  | some moving =>
    obtain ⟨place, there, tickets⟩ := customers moving
    rw [there] at act shift
    have passes : place = .waitBarbeiros → (Local.barbeiro barber).called = false := by
      rintro rfl
      rw [← here]
      exact courteous.passes there
    obtain ⟨next, rfl, visit⟩ := visit_of_act act
    obtain ⟨attended', posted, ticket'⟩ := attended.cliente visit shift passes
    refine ⟨⟨barber, ?_, attended'⟩, fun customer => ?_⟩
    · show Function.update config.locals (some moving) (.cliente next) none = _
      rw [update_some_none]
      exact here
    · show ∃ place, Function.update config.locals (some moving) (.cliente next) (some customer) =
        .cliente place ∧ ∀ k, place.haircut = some k → k = shared.posted
      rw [posted]
      by_cases self : customer = moving
      · subst self
        refine ⟨next, Function.update_self .., fun k ticket => ?_⟩
        obtain kept | last := ticket' k ticket
        · exact tickets k kept
        · exact last
      · rw [update_some_of_ne _ _ self]
        exact customers customer

theorem tended_of_reach
    (reach : Reach (Threads.step (program CADEIRAS)) Courteous (inicio ι) config) : Tended config :=
  reach.invariant Tended tended_inicio fun _ _ _ kept courteous moved => kept.step courteous moved

/-- **One customer in the chair in a courteous run**, in the barber's haircut. -/
theorem Tended.oneInChair (tended : Tended config) : OneInChair config := by
  obtain ⟨⟨barber, here, attended⟩, customers⟩ := tended
  obtain ⟨posts, cortes, single, idle, ready⟩ := attended
  have atMostOne : count (fun _ => Local.inChair) config.locals ≤ 1 := by omega
  refine ⟨fun first second => eq_of_count_le_one (P := fun _ => Local.inChair) atMostOne,
    fun thread haircut cut => ?_⟩
  cases thread with
  | none =>
    rw [here] at cut
    cases cut
  | some customer =>
    obtain ⟨place, there, tickets⟩ := customers customer
    have counted : 1 ≤ count (fun _ => Local.inChair) config.locals :=
      one_le_count (P := fun _ => Local.inChair)
        (show (config.locals (some customer)).inChair = true by rw [cut]; rfl)
    rw [there] at cut
    cases cut
    have last : haircut = config.shared.posted := tickets haircut rfl
    have locked : (Local.barbeiro barber).called = false := by
      by_contra at_
      have := ready (Bool.eq_true_of_not_eq_false at_)
      omega
    have cutting : barber = .cortarCabelo := by
      by_contra other
      have := idle locked other
      omega
    subst cutting
    exact ⟨here, cortes.trans last.symm⟩

/-! ### The steps that do not meet the condition -/

/-- The run can go on to a state without the property. -/
def Disturbed (CADEIRAS : ℕ) (config : Config (Option ι) Shared Local) : Prop :=
  ∃ bad, Reachable (Threads.step (program CADEIRAS)) config bad ∧ ¬ OneInChair bad

section Disturbed

variable {customer : ι} (away : config.locals none ≠ .barbeiro .cortarCabelo)

/-- A customer's statement is a step, and the barber stays where it is. -/
theorem disturbed_of_cliente (here : config.locals (some customer) = .cliente place)
    (run : cliente CADEIRAS config.shared place = some (s', place'))
    (bad : Disturbed CADEIRAS
      ⟨s', Function.update config.locals (some customer) (.cliente place')⟩) :
    Disturbed CADEIRAS config := by
  obtain ⟨state, reach, fails⟩ := bad
  have moved : Threads.step (program CADEIRAS) config (some customer) =
      some ⟨s', Function.update config.locals (some customer) (.cliente place')⟩ := by
    rw [Threads.step, here, program, run]
    rfl
  exact ⟨state, .head trivial moved reach, fails⟩

include away

theorem disturbed_of_served {haircut : ℕ}
    (here : config.locals (some customer) = .cliente (.cortandoCabelo haircut)) :
    Disturbed CADEIRAS config :=
  ⟨config, .start, fun one => away (one.haircut _ _ here).1⟩

theorem disturbed_of_seated {haircut : ℕ}
    (here : config.locals (some customer) = .cliente (.seated haircut)) :
    Disturbed CADEIRAS config := by
  have elsewhere := (update_some_none config.locals (.cliente (.cortandoCabelo haircut))
    customer).trans_ne away
  exact disturbed_of_cliente here rfl (disturbed_of_served elsewhere (Function.update_self ..))

theorem disturbed_of_passing (call : 0 < config.shared.semBarbeiros)
    (here : config.locals (some customer) = .cliente .waitBarbeiros) :
    Disturbed CADEIRAS config := by
  have elsewhere := (update_some_none config.locals (.cliente (.seated (config.shared.passed + 1)))
    customer).trans_ne away
  exact disturbed_of_cliente here (if_pos call)
    (disturbed_of_seated elsewhere (Function.update_self ..))

/-- A customer that waits with an open call passes and is served. -/
theorem disturbed_of_waiting (call : 0 < config.shared.semBarbeiros)
    (here : config.locals (some customer) = .cliente place)
    (waits : (Local.cliente place).waiting = true) : Disturbed CADEIRAS config := by
  cases place with
  | postMutex =>
    have elsewhere := (update_some_none config.locals (.cliente .waitBarbeiros) customer).trans_ne
      away
    exact disturbed_of_cliente here rfl
      (disturbed_of_passing elsewhere call (Function.update_self ..))
  | waitBarbeiros => exact disturbed_of_passing away call here
  | _ => cases waits

end Disturbed

/-- **The barber ends `cortarCabelo` too early.** -/
theorem Tended.disturbed_of_early (tended : Tended config)
    (accounts : Accounts CADEIRAS (tallies config))
    (here : config.locals none = .barbeiro .cortarCabelo)
    (early : ¬ (config.shared.semBarbeiros = 0 ∧
      ∀ customer, (config.locals customer).inChair = false)) :
    Disturbed CADEIRAS
      ⟨config.shared, Function.update config.locals none (.barbeiro .waitClientes)⟩ := by
  have away : Function.update config.locals none (Local.barbeiro .waitClientes) none ≠
      .barbeiro .cortarCabelo := by
    rw [Function.update_self]
    nofun
  by_cases answered : config.shared.semBarbeiros = 0
  · -- somebody is in the chair
    obtain ⟨thread, seated⟩ : ∃ thread, (config.locals thread).inChair = true := by
      by_contra nobody
      refine early ⟨answered, fun thread => ?_⟩
      exact Bool.eq_false_of_not_eq_true fun seated => nobody ⟨thread, seated⟩
    cases thread with
    | none =>
      rw [here] at seated
      cases seated
    | some customer =>
      obtain ⟨place, there, _⟩ := tended.customers customer
      have same := (update_none_some config.locals (.barbeiro .waitClientes) customer).trans there
      rw [there] at seated
      cases place with
      | seated haircut => exact disturbed_of_seated away same
      | cortandoCabelo haircut => exact disturbed_of_served away same
      | _ => cases seated
  · -- its call is open
    have waits : 0 < count (fun _ => Local.waiting) config.locals := by
      obtain ⟨-, -, -, clients, balance, admitted, passed, posts, -, -, -⟩ := accounts
      simp only [tallies] at clients balance admitted passed posts
      omega
    obtain ⟨thread, waits⟩ := exists_of_count_pos waits
    cases thread with
    | none =>
      rw [here] at waits
      cases waits
    | some customer =>
      obtain ⟨place, there, _⟩ := tended.customers customer
      have same := (update_none_some config.locals (.barbeiro .waitClientes) customer).trans there
      rw [there] at waits
      exact disturbed_of_waiting away (Nat.pos_of_ne_zero answered) same waits

/-- **A step that does not meet the condition** lets a customer be served while the barber is not in
`cortarCabelo`. -/
theorem Tended.disturbed {thread : Option ι} (tended : Tended config)
    (accounts : Accounts CADEIRAS (tallies config)) (rude : ¬ Courteous config thread)
    (moved : Threads.step (program CADEIRAS) config thread = some after) :
    Disturbed CADEIRAS after := by
  obtain ⟨barber, here, attended⟩ := tended.barber
  obtain ⟨shared, l', run, rfl⟩ := step_eq_some moved
  have act := act_of_program run
  cases thread with
  | none =>
    -- the barber ends `cortarCabelo` too early
    have ends : barber = .cortarCabelo ∧ ¬ (config.shared.semBarbeiros = 0 ∧
        ∀ customer, (config.locals customer).inChair = false) := by
      by_contra fine
      refine rude ⟨fun at_ => ?_, fun at_ => ?_⟩
      · by_contra early
        rw [here] at at_
        cases at_
        exact fine ⟨rfl, early⟩
      · rw [here] at at_
        cases at_
    obtain ⟨rfl, early⟩ := ends
    rw [here] at act
    cases act
    exact tended.disturbed_of_early accounts here early
  | some moving =>
    -- a customer passes its wait too early
    obtain ⟨place, there, _⟩ := tended.customers moving
    have passes : place = .waitBarbeiros ∧ (Local.barbeiro barber).called = true := by
      by_contra fine
      refine rude ⟨fun at_ => ?_, fun at_ => ?_⟩
      · rw [there] at at_
        cases at_
      · rw [there] at at_
        cases at_
        rw [here]
        exact Bool.eq_false_of_not_eq_true fun called => fine ⟨rfl, called⟩
    obtain ⟨rfl, called⟩ := passes
    rw [there] at act
    cases act
    have elsewhere : config.locals none ≠ .barbeiro .cortarCabelo := by
      rw [here]
      rintro ⟨⟩
      cases called
    exact disturbed_of_seated ((update_some_none config.locals
      (.cliente (.seated (config.shared.passed + 1))) moving).trans_ne elsewhere)
      (Function.update_self ..)

/-- **One customer in the chair exactly under the condition.** Every state reached by steps that meet
`Courteous` has one customer in the chair at most, in the barber's haircut; and from such a state any
other step can be followed by steps to one that has not. -/
theorem oneInChair_of_courteous
    (reach : Reach (Threads.step (program CADEIRAS)) Courteous (inicio ι) config) :
    OneInChair config ∧ ∀ thread after,
      Threads.step (program CADEIRAS) config thread = some after → ¬ Courteous config thread →
        ∃ bad, Reachable (Threads.step (program CADEIRAS)) after bad ∧ ¬ OneInChair bad := by
  have tended := tended_of_reach reach
  refine ⟨tended.oneInChair, fun thread after moved rude => ?_⟩
  exact tended.disturbed (accounts_of_reachable reach.reachable) rude moved

/-- One customer is called, passes and is served while the barber cuts; the barber may not end yet. -/
theorem oneInChair_of_courteous_one : ∃ config : Config (Option (Fin 1)) Shared Local,
    Reach (Threads.step (program 5)) Courteous (inicio (Fin 1)) config ∧
      config.locals (some 0) = .cliente (.cortandoCabelo 1) ∧ OneInChair config ∧
      ∃ after, Threads.step (program 5) config none = some after ∧
        ∃ bad, Reachable (Threads.step (program 5)) after bad ∧ ¬ OneInChair bad := by
  have evaluated : ∃ config : Config (Option (Fin 1)) Shared Local,
      Reach (Threads.step (program 5)) Courteous (inicio (Fin 1)) config ∧
        (config.locals (some 0) = .cliente (.cortandoCabelo 1) ∧
          config.locals none = .barbeiro .cortarCabelo) :=
    exists_reach_of_execute
      (List.replicate 6 (some 0) ++ List.replicate 6 none ++ List.replicate 2 (some 0)) _
      (by decide +kernel)
  obtain ⟨config, reach, served, cutting⟩ := evaluated
  obtain ⟨one, exact_⟩ := oneInChair_of_courteous reach
  obtain ⟨after, moved⟩ : ∃ after, Threads.step (program 5) config none = some after := by
    unfold Threads.step
    rw [cutting]
    exact ⟨_, rfl⟩
  refine ⟨config, reach, served, one, after, moved, exact_ none after moved fun courteous => ?_⟩
  have empty := (courteous.ends cutting).2 (some 0)
  rw [served] at empty
  cases empty

/-- Two customers wait; the barber has been through one round when the first passes its wait, and
has called the second when that one passes too and the first goes on. -/
def slowCustomer : List (Option (Fin 2)) :=
  List.replicate 6 (some 0) ++ List.replicate 6 (some 1) ++ List.replicate 7 none ++ [some 0] ++
    List.replicate 4 none ++ [some 1, some 0]

/-- **Two customers in the chair**, one of them served while the barber still holds `mutex`. -/
theorem chair_shared : ∃ config : Config (Option (Fin 2)) Shared Local,
    Reachable (Threads.step (program 5)) (inicio (Fin 2)) config ∧
      ¬ Alone config ∧ ¬ SameHaircut config := by
  have evaluated : ∃ config : Config (Option (Fin 2)) Shared Local,
      Reachable (Threads.step (program 5)) (inicio (Fin 2)) config ∧
        (config.locals (some 0) = .cliente (.cortandoCabelo 1) ∧
          config.locals (some 1) = .cliente (.seated 2) ∧
            config.locals none = .barbeiro .postMutex) :=
    exists_reach_of_execute slowCustomer _ (by decide +kernel)
  obtain ⟨config, reach, first, second, barber⟩ := evaluated
  refine ⟨config, reach, fun alone => ?_, fun same => ?_⟩
  · have equal : (some 0 : Option (Fin 2)) = some 1 :=
      alone (some 0) (some 1) (by rw [first]; rfl) (by rw [second]; rfl)
    exact absurd equal (by decide)
  · have cutting := (same (some 0) 1 first).1
    rw [barber] at cutting
    cases cutting

end Barbeiro
