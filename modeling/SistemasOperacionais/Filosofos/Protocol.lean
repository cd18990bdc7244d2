/-
**`filosofos.c`: the protocol keeps neighbours apart and leaves nobody unwoken.**

The invariant relates the array `state`, the private semaphores and the places of all philosophers.

* `Lock` — `mutex` and the philosophers inside it add up to one.
* `Own` — what a philosopher's own place says about its `state`. A philosopher that waits on its
  semaphore may be `HUNGRY` or already `EATING`: a neighbour promotes it from outside.
* `Tokens` — the value of `sem_fil[i]` and the posts to it still to be made are one exactly while
  `i` is `EATING` and has not yet passed its `sem_wait`.
* `Apart`, `Found` — neighbours do not eat together; a `test` that is about to promote has seen so,
  and nobody else writes `state` meanwhile.
* `Served` — a `HUNGRY` philosopher has an `EATING` neighbour, or somebody inside `mutex` still owes
  it a `test` (`Place.owes`).

`protocol_safe` — **all of this holds in every reachable state, for every ring of two philosophers
or more**, and gives the three guarantees of `Safe`.
-/

import SistemasOperacionais.Filosofos.Model

set_option linter.unusedSectionVars false

namespace Filosofos

open Threads Transition

variable {N : ℕ} {config after : Config (Fin N) (Shared N) Place} {thread : Fin N}

/-! ### The places that matter -/

/-- Between `sem_wait(&mutex)` and `sem_post(&mutex)`. -/
def Place.critical : Place → Bool
  | .pegarHungry | .testIf _ | .testEat _ | .testPost _ | .pegarPost | .porThinking
  | .porPost => true
  | _ => false

/-- Promoted or about to be, and not yet past `sem_wait(&sem_fil[i])`. -/
def Place.waiting : Place → Bool
  | .testPost .own | .pegarPost | .pegarFil => true
  | _ => false

/-- Philosopher `i`, at this place, is about to post to the semaphore of `j`. -/
def posting (j : Fin N) (i : Fin N) : Place → Bool
  | .testPost call => decide (call.target i = j)
  | _ => false

/-- Philosopher `i`, at this place, still has to test `j`. -/
def owes (j : Fin N) (i : Fin N) : Place → Prop
  | .testIf .own | .testEat .own => j = i
  | .testIf .left | .testEat .left => j = left i ∨ j = right i
  | .testPost .left | .testIf .right | .testEat .right => j = right i
  | _ => False

theorem critical_of_owes {i j : Fin N} {place : Place} (debt : owes j i place) :
    place.critical = true := by
  cases place <;> first | rfl | exact debt.elim

/-- What a place says about the philosopher's own `state`. -/
def OwnState (state : Estado) : Place → Prop
  | .pensar | .pegarWait | .pegarHungry | .porPost => state = .thinking
  | .testIf .own | .testEat .own => state = .hungry
  | .testPost .own | .comer | .porWait | .porThinking => state = .eating
  | .pegarPost | .pegarFil => state ≠ .thinking
  | .testIf _ | .testEat _ | .testPost _ => state = .thinking

/-! ### The invariant -/

/-- `mutex` and the philosophers inside it. -/
def Lock (config : Config (Fin N) (Shared N) Place) : Prop :=
  config.shared.mutex + count (fun _ => Place.critical) config.locals = 1

def Own (config : Config (Fin N) (Shared N) Place) : Prop :=
  ∀ i, OwnState (config.shared.state i) (config.locals i)

/-- `i` is `EATING` and not yet past its `sem_wait`. -/
def Promoted (config : Config (Fin N) (Shared N) Place) (i : Fin N) : Prop :=
  config.shared.state i = .eating ∧ (config.locals i).waiting = true

instance (config : Config (Fin N) (Shared N) Place) (i : Fin N) :
    Decidable (Promoted config i) :=
  inferInstanceAs (Decidable (_ ∧ _))

/-- The permits of `sem_fil[i]`, given and still to be given. -/
def Tokens (config : Config (Fin N) (Shared N) Place) : Prop :=
  ∀ i, config.shared.semFil i + count (posting i) config.locals =
    if Promoted config i then 1 else 0

def Apart (config : Config (Fin N) (Shared N) Place) : Prop :=
  ∀ i, config.shared.state i = .eating → config.shared.state (right i) ≠ .eating

def Found (config : Config (Fin N) (Shared N) Place) : Prop :=
  ∀ i call, config.locals i = .testEat call → CanEat config.shared.state (call.target i)

/-- A neighbour of `i` eats, or `i` is still to be tested. -/
def Looked (state : Fin N → Estado) (debt : Prop) (i : Fin N) : Prop :=
  state (left i) = .eating ∨ state (right i) = .eating ∨ debt

def Served (config : Config (Fin N) (Shared N) Place) : Prop :=
  ∀ i, config.shared.state i = .hungry →
    Looked config.shared.state (∃ j, owes i j (config.locals j)) i

/-- Only one philosopher is inside `mutex`. -/
theorem Lock.unique (lock : Lock config) {i j : Fin N}
    (here : (config.locals i).critical = true) (there : (config.locals j).critical = true) :
    i = j := by
  unfold Lock at lock
  exact eq_of_count_le_one (P := fun _ => Place.critical) (by omega) here there

/-! ### What a step does to the shared state -/

/-- **`state` is written at three statements**, all inside `mutex`. -/
theorem state_of_program {i : Fin N} {s shared : Shared N} {old place : Place}
    (run : program i s old = some (shared, place)) :
    shared.state = s.state ∨
      old = .pegarHungry ∧ shared.state = Function.update s.state i .hungry ∨
      (∃ call, old = .testEat call ∧
        shared.state = Function.update s.state (call.target i) .eating) ∨
      old = .porThinking ∧ shared.state = Function.update s.state i .thinking := by
  cases old with
  | pegarHungry =>
    cases run
    exact Or.inr (Or.inl ⟨rfl, rfl⟩)
  | testEat call =>
    cases run
    exact Or.inr (Or.inr (Or.inl ⟨call, rfl, rfl⟩))
  | porThinking =>
    cases run
    exact Or.inr (Or.inr (Or.inr ⟨rfl, rfl⟩))
  | pensar | testPost _ | pegarPost | comer | porPost =>
    cases run
    exact Or.inl rfl
  | pegarWait | testIf _ | pegarFil | porWait =>
    simp only [program] at run
    split at run <;> cases run <;> exact Or.inl rfl

theorem back_critical (call : Call) : call.back.critical = true := by
  cases call <;> rfl

theorem back_ne_testEat (call other : Call) : call.back ≠ .testEat other := by
  cases call <;> exact nofun

theorem Lock.step (lock : Lock config) (moved : Threads.step program config thread = some after) :
    Lock after := by
  obtain ⟨shared, place, run, rfl⟩ := step_eq_some moved
  have tally := count_update (fun _ => Place.critical) config.locals thread place
  unfold Lock at lock ⊢
  cases here : config.locals thread <;> rw [here] at run tally <;>
    simp only [program] at run <;> (try split at run) <;> cases run <;>
    (try rw [back_critical] at tally) <;>
    simp only [Place.critical, Bool.toNat_true, Bool.toNat_false] at tally ⊢ <;> omega

/-- **A step that writes `state` finds nobody else inside `mutex`.** -/
theorem Lock.alone (lock : Lock config) {i : Fin N} (other : i ≠ thread)
    (inside : (config.locals thread).critical = true) : (config.locals i).critical = false := by
  by_contra there
  exact other (lock.unique (Bool.eq_true_of_not_eq_false there) inside)

/-- A philosopher outside `mutex` that is `HUNGRY` waits on its semaphore. -/
theorem pegarFil_of_hungry {place : Place} (own : OwnState .hungry place)
    (outside : place.critical = false) : place = .pegarFil := by
  cases place <;> first | rfl | cases own | cases outside

theorem target_ne (two : 2 ≤ N) (i : Fin N) {call : Call} (other : call ≠ .own) :
    call.target i ≠ i := by
  cases call with
  | own => exact absurd rfl other
  | left => exact left_ne two i
  | right => exact right_ne two i

/-! ### The step lemmas -/

/-- The philosopher about to be promoted waits on its semaphore, unless it tests itself. -/
theorem target_waits (two : 2 ≤ N) (lock : Lock config) (own : Own config) (found : Found config)
    {call : Call} (here : config.locals thread = .testEat call) (other : call ≠ .own) :
    config.locals (call.target thread) = .pegarFil := by
  have ownTarget := own (call.target thread)
  rw [(found thread call here).1] at ownTarget
  exact pegarFil_of_hungry ownTarget (lock.alone (target_ne two thread other) (by rw [here]; rfl))

/-- A philosopher that passes `sem_wait(&sem_fil[i])` is `EATING`. -/
theorem Tokens.eating (tokens : Tokens config) {i : Fin N}
    (permit : config.shared.semFil i ≠ 0) : config.shared.state i = .eating := by
  have account := tokens i
  split at account
  · rename_i both
    exact both.1
  · omega

theorem Own.step (two : 2 ≤ N) (lock : Lock config) (own : Own config) (tokens : Tokens config)
    (found : Found config) (moved : Threads.step program config thread = some after) :
    Own after := by
  obtain ⟨shared, place, run, rfl⟩ := step_eq_some moved
  intro i
  have before := own i
  by_cases same : i = thread
  · subst same
    simp only [Function.update_self]
    cases here : config.locals i with
    | pensar | pegarPost | comer | porPost =>
      rw [here] at run before
      cases run
      exact before
    | pegarWait | porWait =>
      rw [here] at run before
      simp only [program] at run
      split at run <;> cases run
      exact before
    | pegarHungry | porThinking =>
      rw [here] at run
      cases run
      exact Function.update_self ..
    | testIf call =>
      rw [here] at run before
      simp only [program] at run
      split at run <;> cases run
      · cases call <;> exact before
      · cases call with
        | own =>
          show config.shared.state i ≠ .thinking
          rw [show config.shared.state i = .hungry from before]
          exact nofun
        | left | right => exact before
    | testEat call =>
      rw [here] at run before
      cases run
      cases call with
      | own => exact Function.update_self ..
      | left => exact (Function.update_of_ne (left_ne two i).symm ..).trans before
      | right => exact (Function.update_of_ne (right_ne two i).symm ..).trans before
    | testPost call =>
      rw [here] at run before
      cases run
      cases call with
      | own =>
        show config.shared.state i ≠ .thinking
        rw [show config.shared.state i = .eating from before]
        exact nofun
      | left | right => exact before
    | pegarFil =>
      rw [here] at run
      simp only [program] at run
      split at run <;> cases run
      exact tokens.eating ‹_›
  · simp only [Function.update_of_ne same]
    rcases state_of_program run with
      silent | ⟨-, written⟩ | ⟨call, here, written⟩ | ⟨-, written⟩
    · rw [silent]
      exact before
    · rw [written, Function.update_of_ne same]
      exact before
    · -- the only `state` a step writes that is not its own is the one it promotes
      by_cases promoted : i = call.target thread
      · subst promoted
        have notOwn : call ≠ .own := fun isOwn => same (by rw [isOwn]; rfl)
        rw [target_waits two lock own found here notOwn, written, Function.update_self]
        exact nofun
      · rw [written, Function.update_of_ne promoted]
        exact before
    · rw [written, Function.update_of_ne same]
      exact before

theorem Found.step (lock : Lock config) (found : Found config)
    (moved : Threads.step program config thread = some after) : Found after := by
  obtain ⟨shared, place, run, rfl⟩ := step_eq_some moved
  intro i call there
  by_cases same : i = thread
  · subst same
    simp only [Function.update_self] at there
    subst there
    cases here : config.locals i with
    | testIf tested =>
      rw [here] at run
      simp only [program] at run
      split at run
      · cases run
        assumption
      · exact absurd (Prod.mk.inj (Option.some.inj run)).2 (back_ne_testEat tested call)
    | testPost tested =>
      rw [here] at run
      exact absurd (Prod.mk.inj (Option.some.inj run)).2 (back_ne_testEat tested call)
    | pensar | pegarHungry | testEat _ | pegarPost | comer | porThinking | porPost =>
      rw [here] at run
      cases run
    | pegarWait | pegarFil | porWait =>
      rw [here] at run
      simp only [program] at run
      split at run <;> cases run
  · simp only [Function.update_of_ne same] at there
    have inside : (config.locals i).critical = true := by rw [there]; rfl
    -- somebody else is inside `mutex`, so this step writes no `state`
    have outside : (config.locals thread).critical = false := lock.alone (Ne.symm same) inside
    show CanEat shared.state _
    rcases state_of_program run with
      silent | ⟨here, -⟩ | ⟨tested, here, -⟩ | ⟨here, -⟩
    · rw [silent]
      exact found i call there
    all_goals
      rw [here] at outside
      cases outside

/-- Nobody next to the philosopher about to be promoted eats, and nobody else starts to. -/
theorem Apart.step (two : 2 ≤ N) (apart : Apart config) (found : Found config)
    (moved : Threads.step program config thread = some after) : Apart after := by
  obtain ⟨shared, place, run, rfl⟩ := step_eq_some moved
  intro i
  show shared.state i = .eating → shared.state (right i) ≠ .eating
  -- a step that writes anything but `EATING` separates further
  have lowered : ∀ (j : Fin N) (value : Estado), value ≠ .eating →
      Function.update config.shared.state j value i = .eating →
        Function.update config.shared.state j value (right i) ≠ .eating := by
    intro j value different eats
    have notMe : i ≠ j := by
      rintro rfl
      rw [Function.update_self] at eats
      exact different eats
    rw [Function.update_of_ne notMe] at eats
    by_cases next : right i = j
    · rw [next, Function.update_self]
      exact different
    · rw [Function.update_of_ne next]
      exact apart i eats
  rcases state_of_program run with
    silent | ⟨-, written⟩ | ⟨call, here, written⟩ | ⟨-, written⟩
  · rw [silent]
    exact apart i
  · rw [written]
    exact lowered thread .hungry nofun
  · obtain ⟨-, leftFree, rightFree⟩ := found thread call here
    rw [written]
    intro eats
    by_cases mine : i = call.target thread
    · subst mine
      rw [Function.update_of_ne (right_ne two _)]
      exact rightFree
    · rw [Function.update_of_ne mine] at eats
      by_cases next : right i = call.target thread
      · rw [← next, left_right] at leftFree
        exact absurd eats leftFree
      · rw [Function.update_of_ne next]
        exact apart i eats
  · rw [written]
    exact lowered thread .thinking nofun

/-- A `HUNGRY` philosopher that cannot eat has a neighbour that does. -/
theorem eating_neighbour_of_not_canEat {state : Fin N → Estado} {i : Fin N}
    (hungry : state i = .hungry) (cannot : ¬ CanEat state i) :
    state (left i) = .eating ∨ state (right i) = .eating := by
  by_contra neither
  rw [not_or] at neither
  exact cannot ⟨hungry, neither⟩

theorem Looked.imp {state state' : Fin N → Estado} {debt debt' : Prop} {i : Fin N}
    (looked : Looked state debt i) (eaters : ∀ j, state j = .eating → state' j = .eating)
    (owed : debt → Looked state' debt' i) : Looked state' debt' i := by
  rcases looked with eats | eats | debt
  · exact Or.inl (eaters _ eats)
  · exact Or.inr (Or.inl (eaters _ eats))
  · exact owed debt

/-- **A debt is paid or passed on** by a step that does not write `state`: a `test` that fails has
seen an eating neighbour. -/
theorem debt_of_program {i j : Fin N} {s shared : Shared N} {old place : Place}
    (run : program j s old = some (shared, place)) (silent : shared.state = s.state)
    (hungry : s.state i = .hungry) (debt : owes i j old) : Looked s.state (owes i j place) i := by
  cases old with
  | testIf call =>
    simp only [program] at run
    split at run <;> cases run
    · cases call <;> exact Or.inr (Or.inr debt)
    · rename_i cannot
      have failed : call.target j = i → Looked s.state (owes i j call.back) i := by
        rintro rfl
        rcases eating_neighbour_of_not_canEat hungry cannot with eats | eats
        · exact Or.inl eats
        · exact Or.inr (Or.inl eats)
      cases call with
      | own => exact failed debt.symm
      | left =>
        rcases debt with mine | next
        · exact failed mine.symm
        · exact Or.inr (Or.inr next)
      | right => exact failed debt.symm
  | testPost call =>
    cases run
    cases call with
    | left => exact Or.inr (Or.inr debt)
    | own | right => exact debt.elim
  | testEat call =>
    cases run
    cases call with
    | own =>
      subst debt
      rw [← silent] at hungry
      simp [Call.target] at hungry
    | left =>
      rcases debt with mine | next
      · subst mine
        rw [← silent] at hungry
        simp [Call.target] at hungry
      · exact Or.inr (Or.inr next)
    | right =>
      subst debt
      rw [← silent] at hungry
      simp [Call.target] at hungry
  | pensar | pegarWait | pegarHungry | pegarPost | pegarFil | comer | porWait | porThinking
  | porPost => exact debt.elim

/-- A debt of somebody who does not move stays. -/
theorem owes_update {i : Fin N} {place : Place}
    (mine : ¬ owes i thread (config.locals thread)) (debt : ∃ j, owes i j (config.locals j)) :
    ∃ j, owes i j (Function.update config.locals thread place j) := by
  obtain ⟨j, debt⟩ := debt
  have other : j ≠ thread := fun same => mine (same ▸ debt)
  exact ⟨j, by rw [Function.update_of_ne other]; exact debt⟩

theorem Served.step (own : Own config) (served : Served config)
    (moved : Threads.step program config thread = some after) : Served after := by
  obtain ⟨shared, place, run, rfl⟩ := step_eq_some moved
  intro i
  show shared.state i = .hungry →
    Looked shared.state (∃ j, owes i j (Function.update config.locals thread place j)) i
  rcases state_of_program run with
    silent | ⟨here, written⟩ | ⟨call, here, written⟩ | ⟨here, written⟩
  · rw [silent]
    intro hungry
    refine (served i hungry).imp (fun _ eats => eats) fun debt => ?_
    by_cases mine : owes i thread (config.locals thread)
    · refine (debt_of_program run silent hungry mine).imp (fun _ eats => eats) fun debt => ?_
      exact Or.inr (Or.inr ⟨thread, by rw [Function.update_self]; exact debt⟩)
    · exact Or.inr (Or.inr (owes_update mine debt))
  · -- the newly hungry philosopher is about to test itself; it was thinking, so nobody loses an
    -- eating neighbour
    have thinks := own thread
    rw [here] at run thinks
    cases run
    rw [written]
    intro hungry
    by_cases same : i = thread
    · exact Or.inr (Or.inr ⟨thread, by rw [Function.update_self]; exact same⟩)
    · rw [Function.update_of_ne same] at hungry
      refine (served i hungry).imp (fun j eats => ?_) fun debt => ?_
      · have other : j ≠ thread := by
          rintro rfl
          exact absurd (eats.symm.trans thinks) nofun
        rw [Function.update_of_ne other]
        exact eats
      · exact Or.inr (Or.inr (owes_update (by rw [here]; exact id) debt))
  · rw [here] at run
    cases run
    rw [written]
    intro hungry
    have other : i ≠ call.target thread := by
      rintro rfl
      simp at hungry
    rw [Function.update_of_ne other] at hungry
    refine (served i hungry).imp (fun j eats => ?_) fun debt => ?_
    · by_cases promoted : j = call.target thread
      · rw [promoted, Function.update_self]
      · rw [Function.update_of_ne promoted]
        exact eats
    by_cases mine : owes i thread (config.locals thread)
    · refine Or.inr (Or.inr ⟨thread, ?_⟩)
      rw [here] at mine
      rw [Function.update_self]
      cases call with
      | own => exact absurd mine other
      | left => exact mine.resolve_left other
      | right => exact absurd mine other
    · exact Or.inr (Or.inr (owes_update mine debt))
  · -- whoever loses this eating neighbour is on one side of it, and is about to be tested
    rw [here] at run
    cases run
    rw [written]
    intro hungry
    have other : i ≠ thread := by
      rintro rfl
      simp at hungry
    rw [Function.update_of_ne other] at hungry
    have beside : i = left thread ∨ i = right thread →
        Looked (Function.update config.shared.state thread .thinking)
          (∃ j, owes i j (Function.update config.locals thread (.testIf .left) j)) i :=
      fun side => Or.inr (Or.inr ⟨thread, by rw [Function.update_self]; exact side⟩)
    rcases served i hungry with eats | eats | debt
    · by_cases mine : left i = thread
      · exact beside (Or.inr (by rw [← mine, right_left]))
      · exact Or.inl (by rw [Function.update_of_ne mine]; exact eats)
    · by_cases mine : right i = thread
      · exact beside (Or.inl (by rw [← mine, left_right]))
      · exact Or.inr (Or.inl (by rw [Function.update_of_ne mine]; exact eats))
    · exact Or.inr (Or.inr (owes_update (by rw [here]; exact id) debt))

/-! ### The permits -/

theorem back_not_posting (j i : Fin N) (call : Call) : posting j i call.back = false := by
  cases call <;> rfl

/-- A step that posts nothing, takes nothing and promotes nobody keeps the permits. -/
theorem Tokens.quiet (tokens : Tokens config) {shared : Shared N} {place : Place}
    (permits : shared.semFil = config.shared.semFil)
    (posts : ∀ i, posting i thread (config.locals thread) = posting i thread place)
    (same : ∀ i, Promoted ⟨shared, Function.update config.locals thread place⟩ i ↔
      Promoted config i) :
    Tokens ⟨shared, Function.update config.locals thread place⟩ := by
  intro i
  have tally := count_update (posting i) config.locals thread place
  have account := tokens i
  rw [← posts i] at tally
  show shared.semFil i + _ = _
  rw [permits]
  simp only [same i]
  omega

/-- Away from the moving philosopher and from the one whose `state` it writes, nothing changes. -/
theorem promoted_other {shared : Shared N} {place : Place} {i : Fin N} (other : i ≠ thread)
    (same : shared.state i = config.shared.state i) :
    Promoted ⟨shared, Function.update config.locals thread place⟩ i ↔ Promoted config i := by
  unfold Promoted
  simp only [Function.update_of_ne other, same]

/-- A philosopher that is not waiting, before or after its step, is not promoted. -/
theorem promoted_self {shared : Shared N} {place : Place}
    (before : (config.locals thread).waiting = false) (after : place.waiting = false) :
    Promoted ⟨shared, Function.update config.locals thread place⟩ thread ↔
      Promoted config thread := by
  unfold Promoted
  simp [before, after]

/-- A step of a philosopher that is not waiting, and that writes no other `state`, promotes
nobody. -/
theorem promoted_idle {shared : Shared N} {place : Place}
    (before : (config.locals thread).waiting = false) (after : place.waiting = false)
    (others : ∀ i, i ≠ thread → shared.state i = config.shared.state i) (i : Fin N) :
    Promoted ⟨shared, Function.update config.locals thread place⟩ i ↔ Promoted config i := by
  by_cases same : i = thread
  · subst same
    exact promoted_self before after
  · exact promoted_other same (others i same)

/-- **A philosopher is promoted**: it is waiting, and a permit is about to be posted for it. -/
theorem Tokens.testEat (two : 2 ≤ N) (lock : Lock config) (own : Own config)
    (tokens : Tokens config) (found : Found config) {call : Call} {shared : Shared N}
    {place : Place} (here : config.locals thread = .testEat call)
    (run : program thread config.shared (config.locals thread) = some (shared, place)) :
    Tokens ⟨shared, Function.update config.locals thread place⟩ := by
  rw [here] at run
  obtain ⟨rfl, permits, eats, others⟩ : place = .testPost call ∧
      shared.semFil = config.shared.semFil ∧ shared.state (call.target thread) = .eating ∧
      ∀ i, i ≠ call.target thread → shared.state i = config.shared.state i := by
    cases run
    exact ⟨rfl, rfl, Function.update_self .., fun i other => Function.update_of_ne other ..⟩
  intro i
  have tally := count_update (posting i) config.locals thread (.testPost call)
  have account := tokens i
  rw [here] at tally
  show shared.semFil i + count (posting i) (Function.update config.locals thread _) = _
  rw [permits]
  by_cases promoted : i = call.target thread
  · have hungry := (found thread call here).1
    rw [← promoted] at hungry eats
    have waits : (Function.update config.locals thread (.testPost call) i).waiting = true := by
      cases call with
      | own =>
        rw [show i = thread from promoted, Function.update_self]
        rfl
      | left | right =>
        have fil := target_waits two lock own found here nofun
        rw [← promoted] at fil
        have other : i ≠ thread := promoted ▸ target_ne two thread nofun
        rw [Function.update_of_ne other, fil]
        rfl
    have posts : posting i thread (.testPost call) = true := decide_eq_true promoted.symm
    have idle : ¬ Promoted config i := fun both => nomatch hungry.symm.trans both.1
    rw [posts, show posting i thread (.testEat call) = false from rfl] at tally
    rw [if_neg idle] at account
    rw [if_pos ⟨eats, waits⟩]
    simp only [Bool.toNat_true, Bool.toNat_false] at tally
    omega
  · have same : Promoted ⟨shared, Function.update config.locals thread (.testPost call)⟩ i ↔
        Promoted config i := by
      by_cases self : i = thread
      · subst self
        cases call with
        | own => exact absurd rfl promoted
        | left | right => exact promoted_self (by rw [here]; rfl) rfl
      · exact promoted_other self (others i promoted)
    have posts : posting i thread (.testPost call) = false := decide_eq_false (Ne.symm promoted)
    rw [posts, show posting i thread (.testEat call) = false from rfl] at tally
    simp only [same]
    omega

/-- **The permit is posted.** -/
theorem Tokens.testPost (tokens : Tokens config) {call : Call} {shared : Shared N} {place : Place}
    (here : config.locals thread = .testPost call)
    (run : program thread config.shared (config.locals thread) = some (shared, place)) :
    Tokens ⟨shared, Function.update config.locals thread place⟩ := by
  rw [here] at run
  obtain ⟨rfl, state, posted, others⟩ : place = call.back ∧ shared.state = config.shared.state ∧
      shared.semFil (call.target thread) = config.shared.semFil (call.target thread) + 1 ∧
      ∀ i, i ≠ call.target thread → shared.semFil i = config.shared.semFil i := by
    cases run
    exact ⟨rfl, rfl, Function.update_self .., fun i other => Function.update_of_ne other ..⟩
  intro i
  have tally := count_update (posting i) config.locals thread call.back
  have account := tokens i
  rw [here, back_not_posting] at tally
  have same : Promoted ⟨shared, Function.update config.locals thread call.back⟩ i ↔
      Promoted config i := by
    by_cases self : i = thread
    · subst self
      cases call with
      | own =>
        unfold Promoted
        simp only [Function.update_self, here, state, Call.back, Place.waiting]
      | left | right => exact promoted_self (by rw [here]; rfl) rfl
    · exact promoted_other self (by rw [state])
  show shared.semFil i + _ = _
  simp only [same]
  by_cases mine : i = call.target thread
  · rw [show posting i thread (.testPost call) = true from decide_eq_true mine.symm] at tally
    rw [mine] at tally account ⊢
    rw [posted]
    simp only [Bool.toNat_true, Bool.toNat_false] at tally
    omega
  · rw [show posting i thread (.testPost call) = false from
      decide_eq_false (Ne.symm mine)] at tally
    rw [others i mine]
    omega

/-- **The permit is taken**, by the philosopher it was posted for. -/
theorem Tokens.pegarFil (tokens : Tokens config) {shared : Shared N} {place : Place}
    (here : config.locals thread = .pegarFil)
    (run : program thread config.shared (config.locals thread) = some (shared, place)) :
    Tokens ⟨shared, Function.update config.locals thread place⟩ := by
  rw [here] at run
  simp only [program] at run
  split at run
  · cases run
  rename_i permit
  obtain ⟨rfl, state, taken, others⟩ : place = .comer ∧ shared.state = config.shared.state ∧
      shared.semFil thread = config.shared.semFil thread - 1 ∧
      ∀ i, i ≠ thread → shared.semFil i = config.shared.semFil i := by
    cases run
    exact ⟨rfl, rfl, Function.update_self .., fun i other => Function.update_of_ne other ..⟩
  intro i
  have tally := count_update (posting i) config.locals thread .comer
  have account := tokens i
  rw [here] at tally
  have posts : count (posting i) (Function.update config.locals thread .comer) =
      count (posting i) config.locals := tally
  show shared.semFil i + _ = _
  rw [posts]
  by_cases self : i = thread
  · subst self
    rw [if_pos ⟨tokens.eating permit, by rw [here]; rfl⟩] at account
    rw [taken, if_neg (fun both => absurd both.2 (by simp [Place.waiting]))]
    omega
  · have same : Promoted ⟨shared, Function.update config.locals thread .comer⟩ i ↔
        Promoted config i := promoted_other self (by rw [state])
    simp only [same]
    rw [others i self]
    exact account

theorem Tokens.step (two : 2 ≤ N) (lock : Lock config) (own : Own config) (tokens : Tokens config)
    (found : Found config) (moved : Threads.step program config thread = some after) :
    Tokens after := by
  obtain ⟨shared, place, run, rfl⟩ := step_eq_some moved
  cases here : config.locals thread with
  | pensar | comer | porPost | pegarHungry | porThinking =>
    rw [here] at run
    cases run
    refine tokens.quiet rfl (fun i => by rw [here]; rfl)
      (promoted_idle (by rw [here]; rfl) rfl fun i other => ?_)
    simp [Function.update_of_ne other]
  | pegarWait | porWait =>
    rw [here] at run
    simp only [program] at run
    split at run <;> cases run
    exact tokens.quiet rfl (fun i => by rw [here]; rfl)
      (promoted_idle (by rw [here]; rfl) rfl fun _ _ => rfl)
  | testIf call =>
    have mine := own thread
    rw [here] at run mine
    simp only [program] at run
    split at run <;> cases run
    · exact tokens.quiet rfl (fun i => by rw [here]; rfl)
        (promoted_idle (by rw [here]; rfl) rfl fun _ _ => rfl)
    · refine tokens.quiet rfl (fun i => by rw [here, back_not_posting]; rfl) ?_
      -- a failed test of oneself returns `HUNGRY`, any other one is made while `THINKING`
      cases call with
      | own =>
        have hungry : config.shared.state thread = .hungry := mine
        intro i
        by_cases same : i = thread
        · subst same
          unfold Promoted
          simp only [hungry]
          exact ⟨fun both => absurd both.1 nofun, fun both => absurd both.1 nofun⟩
        · exact promoted_other same rfl
      | left | right => exact promoted_idle (by rw [here]; rfl) rfl fun _ _ => rfl
  | pegarPost =>
    rw [here] at run
    cases run
    refine tokens.quiet rfl (fun i => by rw [here]; rfl) fun i => ?_
    by_cases same : i = thread
    · subst same
      unfold Promoted
      simp only [Function.update_self, here, Place.waiting]
    · exact promoted_other same rfl
  | testEat call => exact tokens.testEat two lock own found here run
  | testPost call => exact tokens.testPost here run
  | pegarFil => exact tokens.pegarFil here run

/-! ### Every reachable state -/

/-- **The invariant.** -/
structure Inv (config : Config (Fin N) (Shared N) Place) : Prop where
  lock : Lock config
  own : Own config
  tokens : Tokens config
  apart : Apart config
  found : Found config
  served : Served config

theorem inv_start : Inv (start N) where
  lock := by
    unfold Lock
    rw [count_eq_zero fun _ => rfl]
    rfl
  own _ := rfl
  tokens i := by
    rw [count_eq_zero fun _ => rfl]
    rfl
  apart _ eats := nomatch eats
  found _ _ here := nomatch here
  served _ hungry := nomatch hungry

theorem Inv.step (two : 2 ≤ N) (inv : Inv config)
    (moved : Threads.step program config thread = some after) : Inv after where
  lock := inv.lock.step moved
  own := inv.own.step two inv.lock inv.tokens inv.found moved
  tokens := inv.tokens.step two inv.lock inv.own inv.found moved
  apart := inv.apart.step two inv.found moved
  found := inv.found.step inv.lock moved
  served := inv.served.step inv.own moved

/-- **The guarantees of the protocol.** -/
structure Safe (config : Config (Fin N) (Shared N) Place) : Prop where
  /-- neighbours are not both past `pegar_garfo` and before `state[i]=THINKING` -/
  places : ∀ i j, Neighbours i j →
    ¬ ((config.locals i).eats = true ∧ (config.locals j).eats = true)
  /-- neighbours are not both marked `EATING` -/
  states : ∀ i j, Neighbours i j →
    ¬ (config.shared.state i = .eating ∧ config.shared.state j = .eating)
  comer : ∀ i, config.locals i = .comer → config.shared.state i = .eating
  permits : ∀ i, config.shared.semFil i = 0 ∨ config.shared.semFil i = 1
  /-- while `mutex` is free, a `HUNGRY` philosopher has an `EATING` neighbour -/
  woken : config.shared.mutex ≠ 0 → ∀ i, config.shared.state i = .hungry →
    ∃ j, Neighbours i j ∧ config.shared.state j = .eating

theorem Inv.eating_of_eats (inv : Inv config) {i : Fin N} (eats : (config.locals i).eats = true) :
    config.shared.state i = .eating := by
  have own := inv.own i
  cases here : config.locals i <;> rw [here] at eats own <;> first | exact own | cases eats

theorem Inv.safe (inv : Inv config) : Safe config := by
  have states : ∀ i j, Neighbours i j →
      ¬ (config.shared.state i = .eating ∧ config.shared.state j = .eating) := by
    rintro i j (rfl | rfl) ⟨here, there⟩
    · have apart := inv.apart (left i) there
      rw [right_left] at apart
      exact apart here
    · exact inv.apart i here there
  refine ⟨fun i j beside both => ?_, states, fun i here => ?_, fun i => ?_, fun free i hungry => ?_⟩
  · exact states i j beside ⟨inv.eating_of_eats both.1, inv.eating_of_eats both.2⟩
  · exact inv.eating_of_eats (by rw [here]; rfl)
  · have account := inv.tokens i
    split at account <;> omega
  · rcases inv.served i hungry with eats | eats | ⟨j, debt⟩
    · exact ⟨left i, Or.inl rfl, eats⟩
    · exact ⟨right i, Or.inr rfl, eats⟩
    · have inside : 1 ≤ count (fun _ => Place.critical) config.locals :=
        one_le_count (P := fun _ => Place.critical) (critical_of_owes debt)
      have lock := inv.lock
      unfold Lock at lock
      omega

/-- **The protocol is safe**: on every ring of two philosophers or more, in every state of every
interleaving. -/
theorem protocol_safe (two : 2 ≤ N) (reach : Reachable (Threads.step program) (start N) config) :
    Safe config :=
  (reach.invariant Inv inv_start fun _ _ _ inv _ moved => inv.step two moved).safe

/-- Five philosophers: the first eats, its right neighbour has asked and waits. -/
theorem protocol_safe_five : ∃ config : Config (Fin 5) (Shared 5) Place,
    Reachable (Threads.step program) (start 5) config ∧ config.locals 0 = .comer ∧
      config.locals 1 = .pegarFil ∧ config.shared.state 1 = .hungry ∧ Safe config := by
  have reach : Reachable (Threads.step program) (start 5) _ :=
    reach_of_execute (List.replicate 8 0 ++ List.replicate 5 1) .start rfl
  exact ⟨_, reach, rfl, rfl, rfl, protocol_safe (by decide) reach⟩

end Filosofos
