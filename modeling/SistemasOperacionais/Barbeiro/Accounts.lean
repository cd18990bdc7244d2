/-
**`barbeiro.c`: the accounts of the shop.**

* `Tallies` — the shared state and how many threads are at which statement; a step changes each
  number by what the moving thread leaves and enters (`tallies_update`).
* `Accounts` — **what every step keeps** (`Accounts.act`): one thread at most is between
  `sem_wait(&mutex)` and `sem_post(&mutex)`; `esperando` is the number of customers announced and
  not yet called, and the customers admitted are those still waiting and those that passed.
* `shop_accounts` — **whenever `mutex` is free `esperando` is within the chairs and is the customers
  admitted less the haircuts begun; the customers that passed the wait for `sem_barbeiros`, with its
  value, are the barber's posts.** From its waking to its call a customer waits that the barber has
  not called yet, and each haircut begins with its customer called.
-/

import SistemasOperacionais.Barbeiro.Model

set_option linter.unusedSectionVars false

namespace Barbeiro

open Threads Transition

/-! ### The places that matter -/

/-- A customer that holds `mutex` without counting as below. -/
def Local.holding : Local → Bool
  | .cliente .test | .cliente .postMutex | .cliente .fullPost => true
  | _ => false

/-- A customer that found a chair. -/
def Local.allowed : Local → Bool
  | .cliente .chegou | .cliente .increment => true
  | _ => false

/-- A customer that is admitted and not yet announced. -/
def Local.calling : Local → Bool
  | .cliente .postClientes => true
  | _ => false

/-- A customer that is announced and not yet served. -/
def Local.waiting : Local → Bool
  | .cliente .postMutex | .cliente .waitBarbeiros => true
  | _ => false

/-- A customer past its wait for `sem_barbeiros`. -/
def Local.past : Local → Bool
  | .cliente (.seated _) | .cliente (.cortandoCabelo _) | .cliente .served => true
  | _ => false

/-- The barber, awake and in front of `sem_wait(&mutex)`. -/
def Local.waking : Local → Bool
  | .barbeiro .waitMutex => true
  | _ => false

def Local.decrementing : Local → Bool
  | .barbeiro .decrement => true
  | _ => false

def Local.posting : Local → Bool
  | .barbeiro .postBarbeiros => true
  | _ => false

/-- The barber between its two posts. -/
def Local.unlocking : Local → Bool
  | .barbeiro .postMutex => true
  | _ => false

/-- The barber in front of `cortarCabelo`. -/
def Local.ready : Local → Bool
  | .barbeiro .ready => true
  | _ => false

/-- The barber asleep or in `cortarCabelo`. -/
def Local.resting : Local → Bool
  | .barbeiro .waitClientes | .barbeiro .cortarCabelo => true
  | _ => false

/-- **The counting abstraction.** -/
structure Tallies where
  shared : Shared
  holding : ℕ
  allowed : ℕ
  calling : ℕ
  waiting : ℕ
  past : ℕ
  waking : ℕ
  decrementing : ℕ
  posting : ℕ
  unlocking : ℕ
  ready : ℕ
  resting : ℕ

variable {ι : Type} [Fintype ι] [DecidableEq ι] {CADEIRAS : ℕ} {s s' : Shared} {l l' : Local}

/-- The tallies of a configuration. -/
def tallies (config : Config (Option ι) Shared Local) : Tallies where
  shared := config.shared
  holding := count (fun _ => Local.holding) config.locals
  allowed := count (fun _ => Local.allowed) config.locals
  calling := count (fun _ => Local.calling) config.locals
  waiting := count (fun _ => Local.waiting) config.locals
  past := count (fun _ => Local.past) config.locals
  waking := count (fun _ => Local.waking) config.locals
  decrementing := count (fun _ => Local.decrementing) config.locals
  posting := count (fun _ => Local.posting) config.locals
  unlocking := count (fun _ => Local.unlocking) config.locals
  ready := count (fun _ => Local.ready) config.locals
  resting := count (fun _ => Local.resting) config.locals

/-- **How the tallies change when one thread goes from `old` to `new`.** -/
structure Shift (a b : Tallies) (old new : Local) : Prop where
  holding : b.holding + old.holding.toNat = a.holding + new.holding.toNat
  allowed : b.allowed + old.allowed.toNat = a.allowed + new.allowed.toNat
  calling : b.calling + old.calling.toNat = a.calling + new.calling.toNat
  waiting : b.waiting + old.waiting.toNat = a.waiting + new.waiting.toNat
  past : b.past + old.past.toNat = a.past + new.past.toNat
  waking : b.waking + old.waking.toNat = a.waking + new.waking.toNat
  decrementing : b.decrementing + old.decrementing.toNat = a.decrementing + new.decrementing.toNat
  posting : b.posting + old.posting.toNat = a.posting + new.posting.toNat
  unlocking : b.unlocking + old.unlocking.toNat = a.unlocking + new.unlocking.toNat
  ready : b.ready + old.ready.toNat = a.ready + new.ready.toNat
  resting : b.resting + old.resting.toNat = a.resting + new.resting.toNat

theorem tallies_update (config : Config (Option ι) Shared Local) (thread : Option ι)
    (shared : Shared) (place : Local) :
    Shift (tallies config) (tallies ⟨shared, Function.update config.locals thread place⟩)
      (config.locals thread) place := by
  have each (P : Local → Bool) := count_update (fun _ => P) config.locals thread place
  exact ⟨each _, each _, each _, each _, each _, each _, each _, each _, each _, each _, each _⟩

/-! ### What every step keeps -/

/-- **The accounts.** -/
structure Accounts (CADEIRAS : ℕ) (a : Tallies) : Prop where
  exclusive : a.shared.mutex + a.holding + a.allowed + a.calling + a.decrementing + a.posting +
    a.unlocking = 1
  chairs : a.shared.esperando ≤ CADEIRAS
  /-- a customer that found a chair still has it when it sits down -/
  room : 0 < a.allowed → a.shared.esperando < CADEIRAS
  clients : a.shared.esperando = a.calling + a.shared.semClientes + a.waking + a.decrementing
  balance : a.shared.esperando + a.shared.posted + a.posting = a.shared.admitted
  admitted : a.shared.admitted = a.calling + a.waiting + a.past
  passed : a.shared.passed = a.past
  posts : a.shared.passed + a.shared.semBarbeiros = a.shared.posted
  begun : a.shared.begun + a.unlocking = a.shared.posted
  cortes : a.shared.cortes + a.ready = a.shared.begun
  barber : a.waking + a.decrementing + a.posting + a.unlocking + a.ready + a.resting = 1

theorem accounts_inicio : Accounts CADEIRAS (tallies (inicio ι)) := by
  have none_at (P : Local → Bool) (barber : P (.barbeiro .waitClientes) = false)
      (customer : P (.cliente .waitMutex) = false) :
      count (fun _ => P) (inicio ι).locals = 0 := by
    apply count_eq_zero
    intro thread
    cases thread with
    | none => exact barber
    | some _ => exact customer
  have holding := none_at Local.holding rfl rfl
  have allowed := none_at Local.allowed rfl rfl
  have calling := none_at Local.calling rfl rfl
  have waiting := none_at Local.waiting rfl rfl
  have past := none_at Local.past rfl rfl
  have waking := none_at Local.waking rfl rfl
  have decrementing := none_at Local.decrementing rfl rfl
  have posting := none_at Local.posting rfl rfl
  have unlocking := none_at Local.unlocking rfl rfl
  have ready := none_at Local.ready rfl rfl
  have resting : count (fun _ => Local.resting) (inicio ι).locals = 1 := by
    have only : ∀ thread, ((inicio ι).locals thread).resting = true → thread = none := by
      intro thread here
      cases thread with
      | none => rfl
      | some _ => cases here
    have barber : ((inicio ι).locals none).resting = true := rfl
    exact le_antisymm (count_le_one fun first second here there => (only first here).trans
      (only second there).symm) (one_le_count (P := fun _ => Local.resting) barber)
  constructor <;> simp only [tallies, holding, allowed, calling, waiting, past, waking,
    decrementing, posting, unlocking, ready, resting] <;> simp [inicio]

/-- **Each statement keeps the accounts.** -/
theorem Accounts.act {a b : Tallies} (accounts : Accounts CADEIRAS a)
    (act : Act CADEIRAS a.shared l b.shared l') (shift : Shift a b l l') :
    Accounts CADEIRAS b := by
  obtain ⟨exclusive, chairs, room, clients, balance, admitted, passed, posts, begun, cortes,
    barber⟩ := accounts
  obtain ⟨holding, allowed, calling, waiting, past, waking, decrementing, posting, unlocking, ready,
    resting⟩ := shift
  obtain ⟨before, _, _, _, _, _, _, _, _, _, _, _⟩ := a
  obtain ⟨shared, _, _, _, _, _, _, _, _, _, _, _⟩ := b
  -- every statement moves one thread: the tallies it does not touch are equal and go away, and
  -- what is left of each law is linear in the others
  cases act <;>
    (simp only [Local.holding, Local.allowed, Local.calling, Local.waiting, Local.past,
      Local.waking, Local.decrementing, Local.posting, Local.unlocking, Local.ready,
      Local.resting, Bool.toNat_true, Bool.toNat_false, Nat.add_zero] at *
     subst_vars
     constructor <;> dsimp only <;> first | assumption | omega)

theorem Accounts.step {config after : Config (Option ι) Shared Local} {thread : Option ι}
    (accounts : Accounts CADEIRAS (tallies config))
    (moved : step (program CADEIRAS) config thread = some after) :
    Accounts CADEIRAS (tallies after) := by
  obtain ⟨shared, place, run, rfl⟩ := step_eq_some moved
  exact accounts.act (act_of_program run) (tallies_update config thread shared place)

/-! ### The accounts of a run -/

theorem accounts_of_reachable {config : Config (Option ι) Shared Local}
    (reach : Reachable (step (program CADEIRAS)) (inicio ι) config) :
    Accounts CADEIRAS (tallies config) :=
  reach.invariant (fun config => Accounts CADEIRAS (tallies config)) accounts_inicio
    fun _ _ _ kept _ moved => kept.step moved

/-- **The accounts of the shop**, in the numbers of the threads at their places. -/
structure ShopAccounts (CADEIRAS : ℕ) (config : Config (Option ι) Shared Local) : Prop where
  chairs : 0 < config.shared.mutex →
    0 ≤ config.shared.esperando ∧ config.shared.esperando ≤ CADEIRAS
  esperando : 0 < config.shared.mutex →
    config.shared.esperando = config.shared.admitted - config.shared.begun
  posts : config.shared.passed + config.shared.semBarbeiros = config.shared.posted
  /-- no admitted customer is lost: it waits or it passed -/
  kept : 0 < config.shared.mutex → config.shared.admitted =
    count (fun _ => Local.waiting) config.locals + count (fun _ => Local.past) config.locals
  /-- no customer is served twice: the passes are by as many customers -/
  once : config.shared.passed = count (fun _ => Local.past) config.locals
  /-- the barber awake, up to its call: a customer waits that has not been called -/
  calls : (config.locals none).waking = true ∨ (config.locals none).decrementing = true ∨
      (config.locals none).posting = true →
    config.shared.semBarbeiros < count (fun _ => Local.waiting) config.locals
  /-- the barber about to begin: the customer called has passed, or it waits with its call -/
  begins : (config.locals none).unlocking = true →
    config.shared.passed = config.shared.begun + 1 ∨
      0 < config.shared.semBarbeiros ∧
        config.shared.semBarbeiros ≤ count (fun _ => Local.waiting) config.locals
  /-- the same in front of `cortarCabelo` -/
  cuts : (config.locals none).ready = true →
    config.shared.passed = config.shared.begun ∨
      0 < config.shared.semBarbeiros ∧
        config.shared.semBarbeiros ≤ count (fun _ => Local.waiting) config.locals
  /-- the haircuts begun: the calls of `cortarCabelo`, and one that the barber is in front of -/
  cortes : config.shared.begun =
    config.shared.cortes + count (fun _ => Local.ready) config.locals

/-- **The shop keeps its accounts**, for any number of customers and chairs, in every
interleaving. -/
theorem shop_accounts {config : Config (Option ι) Shared Local}
    (reach : Reachable (step (program CADEIRAS)) (inicio ι) config) :
    ShopAccounts CADEIRAS config := by
  obtain ⟨exclusive, chairs, -, clients, balance, admitted, passed, posts, begun, cortes, barber⟩ :=
    accounts_of_reachable reach
  simp only [tallies] at exclusive chairs clients balance admitted passed posts begun cortes barber
  refine ⟨fun free => ?_, fun free => ?_, posts, fun free => ?_, passed, fun awake => ?_,
    fun unlocking => ?_, fun ready => ?_, cortes.symm⟩
  · omega
  · omega
  · omega
  · have counted : 1 ≤ count (fun _ => Local.waking) config.locals +
        count (fun _ => Local.decrementing) config.locals +
          count (fun _ => Local.posting) config.locals := by
      obtain here | here | here := awake
      · have := one_le_count (P := fun _ => Local.waking) here
        omega
      · have := one_le_count (P := fun _ => Local.decrementing) here
        omega
      · have := one_le_count (P := fun _ => Local.posting) here
        omega
    omega
  · have counted := one_le_count (P := fun _ => Local.unlocking) unlocking
    omega
  · have counted := one_le_count (P := fun _ => Local.ready) ready
    omega

/-- One customer comes, waits and is called. -/
theorem shop_accounts_one : ∃ config : Config (Option (Fin 1)) Shared Local,
    Reachable (step (program 1)) (inicio (Fin 1)) config ∧
      (config.shared.begun = 1 ∧ config.shared.mutex = 1) ∧ ShopAccounts 1 config := by
  have evaluated : ∃ config : Config (Option (Fin 1)) Shared Local,
      Reachable (step (program 1)) (inicio (Fin 1)) config ∧
        (config.shared.begun = 1 ∧ config.shared.mutex = 1) :=
    exists_reach_of_execute (List.replicate 6 (some 0) ++ List.replicate 5 none) _
      (by decide +kernel)
  obtain ⟨config, reach, free⟩ := evaluated
  exact ⟨config, reach, free, shop_accounts reach⟩

end Barbeiro
