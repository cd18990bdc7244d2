/-
**`ProdutorConsumidor.c`: producers and consumers over one slot.**

Any number of threads run `produtor` or `consumidor` over one `buffer` and its `estado`, under a
mutex taken in a busy-wait loop: `do lock; aguardar = (estado is wrong); if aguardar unlock; while
aguardar`. One exit of the loop leaves the mutex held, the other released.

* `program` — one statement of a thread. The history is kept beside the source's variables: an item
  is stored by `estado = BUFFERCHEIO` and taken by `estado = BUFFERVAZIO`.
* `Own` — what a thread knows at its place: whether it holds the mutex, what `estado` is while it
  does, which item it carries, which items it has stored so far.
* `Level` — the account of the slot: what is stored and not yet taken is the content of a full
  `buffer`, and nothing when it is empty.
* `slot_sound` — **in every state of every interleaving the items taken are a prefix of the items
  stored, all but the one in a full buffer; nothing is consumed twice or overwritten unread, every
  producer's items go through in order, and only the owner unlocks the mutex**.
-/

import SistemasOperacionais.Runs.Threads
import Mathlib.Data.List.Nodup
import Mathlib.Data.List.Range

set_option linter.unusedSectionVars false

namespace ProdutorConsumidor

open Transition Threads

/-! ### The program -/

/-- `BUFFERVAZIO` and `BUFFERCHEIO`. -/
inductive Estado
  | vazio
  | cheio
  deriving DecidableEq, Repr

/-- The global variables, with the history of the slot. -/
structure Shared (ι : Type) where
  /-- the thread that holds `mutex` -/
  mutex : Option ι
  buffer : ℤ
  estado : Estado
  /-- what the producers have stored, and who -/
  stored : List (ι × ℤ)
  /-- what the consumers have taken -/
  taken : List ℤ

/-- Where a producer is: the statement it executes next. -/
inductive ProdutorAt
  /-- `while (i < 10)` -/
  | test
  /-- `item = i + (id*1000)` -/
  | produce
  | lock
  /-- `aguardar = FALSE` -/
  | clear
  /-- `if (estado == BUFFERCHEIO)` -/
  | look
  /-- `aguardar = TRUE` -/
  | wait
  /-- the unlock inside the loop -/
  | release
  /-- `while (aguardar == TRUE)` -/
  | again
  /-- `buffer = item` -/
  | insert
  /-- `estado = BUFFERCHEIO` -/
  | fill
  | unlock
  /-- `i++` -/
  | next
  | sleep
  | done
  deriving DecidableEq, Repr

/-- Where a consumer is: the statement it executes next. -/
inductive ConsumidorAt
  | lock
  /-- `aguardar = FALSE` -/
  | clear
  /-- `if (estado == BUFFERVAZIO)` -/
  | look
  /-- `aguardar = TRUE` -/
  | wait
  /-- the unlock inside the loop -/
  | release
  /-- `while (aguardar == TRUE)` -/
  | again
  /-- `item = buffer` -/
  | take
  /-- `estado = BUFFERVAZIO` -/
  | empty
  | unlock
  | sleep
  deriving DecidableEq, Repr

/-- The local variables of `produtor`. -/
structure Produtor where
  id : ℤ
  i : ℕ
  item : ℤ
  aguardar : Bool
  place : ProdutorAt
  deriving DecidableEq, Repr

/-- The local variables of `consumidor`. -/
structure Consumidor where
  item : ℤ
  aguardar : Bool
  place : ConsumidorAt
  deriving DecidableEq, Repr

inductive Local
  | produtor (p : Produtor)
  | consumidor (c : Consumidor)
  deriving DecidableEq, Repr

variable {ι : Type}

/-- One step of `produtor`. -/
def produtor (thread : ι) (s : Shared ι) (p : Produtor) : Option (Shared ι × Produtor) :=
  match p.place with
  | .test => some (s, { p with place := if p.i < 10 then .produce else .done })
  | .produce => some (s, { p with item := p.i + p.id * 1000, place := .lock })
  | .lock =>
      if s.mutex.isSome then none
      else some ({ s with mutex := some thread }, { p with place := .clear })
  | .clear => some (s, { p with aguardar := false, place := .look })
  | .look => some (s, { p with place := if s.estado = .cheio then .wait else .again })
  | .wait => some (s, { p with aguardar := true, place := .release })
  | .release => some ({ s with mutex := none }, { p with place := .again })
  | .again => some (s, { p with place := if p.aguardar then .lock else .insert })
  | .insert => some ({ s with buffer := p.item }, { p with place := .fill })
  | .fill =>
      some ({ s with estado := .cheio, stored := s.stored ++ [(thread, p.item)] },
        { p with place := .unlock })
  | .unlock => some ({ s with mutex := none }, { p with place := .next })
  | .next => some (s, { p with i := p.i + 1, place := .sleep })
  | .sleep => some (s, { p with place := .test })
  | .done => none

/-- One step of `consumidor`. -/
def consumidor (thread : ι) (s : Shared ι) (c : Consumidor) : Option (Shared ι × Consumidor) :=
  match c.place with
  | .lock =>
      if s.mutex.isSome then none
      else some ({ s with mutex := some thread }, { c with place := .clear })
  | .clear => some (s, { c with aguardar := false, place := .look })
  | .look => some (s, { c with place := if s.estado = .vazio then .wait else .again })
  | .wait => some (s, { c with aguardar := true, place := .release })
  | .release => some ({ s with mutex := none }, { c with place := .again })
  | .again => some (s, { c with place := if c.aguardar then .lock else .take })
  | .take => some (s, { c with item := s.buffer, place := .empty })
  | .empty =>
      some ({ s with estado := .vazio, taken := s.taken ++ [c.item] }, { c with place := .unlock })
  | .unlock => some ({ s with mutex := none }, { c with place := .sleep })
  | .sleep => some (s, { c with place := .lock })

/-- One step of a thread. -/
def program : Program ι (Shared ι) Local
  | thread, s, .produtor p => (produtor thread s p).map fun moved => (moved.1, .produtor moved.2)
  | thread, s, .consumidor c =>
      (consumidor thread s c).map fun moved => (moved.1, .consumidor moved.2)

/-- What `main` starts a thread as. -/
inductive Role
  | produtor (id : ℤ)
  | consumidor
  deriving DecidableEq, Repr

/-- The local variables at the start; `item` and `aguardar` are written before they are read. -/
def Role.fresh : Role → Local
  | .produtor id => .produtor ⟨id, 0, 0, false, .test⟩
  | .consumidor => .consumidor ⟨0, false, .lock⟩

def start (role : ι → Role) : Config ι (Shared ι) Local where
  shared := ⟨none, 0, .vazio, [], []⟩
  locals thread := (role thread).fresh

/-! ### What the slot is for -/

/-- The next statement unlocks `mutex`. -/
def Local.unlocks : Local → Bool
  | .produtor p => p.place = .release ∨ p.place = .unlock
  | .consumidor c => c.place = .release ∨ c.place = .unlock

/-- The next statement overwrites `buffer`. -/
def Local.inserts : Local → Bool
  | .produtor p => p.place = .insert
  | .consumidor _ => false

variable [DecidableEq ι]

/-- The items of a history that one thread has stored. -/
def itemsOf (thread : ι) (history : List (ι × ℤ)) : List ℤ :=
  (history.filter fun entry => entry.1 = thread).map Prod.snd

/-- The first `n` items that producer `id` produces. -/
def produced (id : ℤ) (n : ℕ) : List ℤ := (List.range n).map fun i : ℕ => (i : ℤ) + id * 1000

/-- The stored items that have been taken: as many as were taken, from the first on. -/
def Shared.consumed (s : Shared ι) : List (ι × ℤ) := s.stored.take s.taken.length

/-- **The purpose of the slot.** -/
structure Sound (role : ι → Role) (config : Config ι (Shared ι) Local) : Prop where
  /-- the items taken are the first ones stored -/
  taken : config.shared.taken = config.shared.consumed.map Prod.snd
  cheio : config.shared.estado = .cheio →
    config.shared.stored.map Prod.snd = config.shared.taken ++ [config.shared.buffer]
  vazio : config.shared.estado = .vazio →
    config.shared.stored.map Prod.snd = config.shared.taken
  /-- no item is consumed twice -/
  once : config.shared.consumed.Nodup
  /-- an item is overwritten only when everything stored has been taken -/
  unread : ∀ thread, (config.locals thread).inserts = true →
    config.shared.consumed = config.shared.stored
  order : ∀ thread id, role thread = .produtor id →
    itemsOf thread config.shared.consumed <+: itemsOf thread config.shared.stored ∧
      ∃ n ≤ 10, itemsOf thread config.shared.stored = produced id n
  owner : ∀ thread, (config.locals thread).unlocks = true → config.shared.mutex = some thread

/-! ### What a thread knows -/

/-- The thread holds `mutex` at its place. The two exits of the busy-wait loop differ by
`aguardar`. -/
def Local.holds : Local → Bool
  | .produtor p => match p.place with
    | .clear | .look | .wait | .release | .insert | .fill | .unlock => true
    | .again => !p.aguardar
    | .test | .produce | .lock | .next | .sleep | .done => false
  | .consumidor c => match c.place with
    | .clear | .look | .wait | .release | .take | .empty | .unlock => true
    | .again => !c.aguardar
    | .lock | .sleep => false

/-- What a thread that holds `mutex` has found in the slot. -/
def Local.Sees (s : Shared ι) : Local → Prop
  | .produtor p => match p.place with
    | .again | .insert => s.estado = .vazio
    | .fill => s.estado = .vazio ∧ s.buffer = p.item
    | _ => True
  | .consumidor c => match c.place with
    | .again | .take => s.estado = .cheio
    | .empty => s.estado = .cheio ∧ s.buffer = c.item
    | _ => True

/-- The items a producer has stored, of which it has counted `i`, and the one it carries. -/
def Produtor.Kept (items : List ℤ) (p : Produtor) : Prop :=
  match p.place with
  | .test | .sleep | .done => p.i ≤ 10 ∧ items = produced p.id p.i
  | .produce => p.i < 10 ∧ items = produced p.id p.i
  | .unlock | .next => p.i < 10 ∧ items = produced p.id (p.i + 1)
  | .release => p.aguardar = true ∧ p.item = p.i + p.id * 1000 ∧ p.i < 10 ∧
      items = produced p.id p.i
  | _ => p.item = p.i + p.id * 1000 ∧ p.i < 10 ∧ items = produced p.id p.i

/-- What a thread knows of its own past. -/
def Local.Kept (role : Role) (items : List ℤ) : Local → Prop
  | .produtor p => role = .produtor p.id ∧ p.Kept items
  | .consumidor c => role = .consumidor ∧ (c.place = .release → c.aguardar = true) ∧ items = []

/-- **What a thread knows at its place.** -/
structure Own (role : ι → Role) (thread : ι) (s : Shared ι) (l : Local) : Prop where
  holding : l.holds = true → s.mutex = some thread ∧ l.Sees s
  kept : l.Kept (role thread) (itemsOf thread s.stored)

theorem itemsOf_append_self (thread : ι) (history : List (ι × ℤ)) (item : ℤ) :
    itemsOf thread (history ++ [(thread, item)]) = itemsOf thread history ++ [item] := by
  simp [itemsOf]

theorem itemsOf_append_other {thread other : ι} (different : other ≠ thread)
    (history : List (ι × ℤ)) (item : ℤ) :
    itemsOf other (history ++ [(thread, item)]) = itemsOf other history := by
  simp [itemsOf, Ne.symm different]

theorem produced_succ (id : ℤ) (n : ℕ) :
    produced id (n + 1) = produced id n ++ [(n : ℤ) + id * 1000] := by
  simp [produced, List.range_succ]

variable {role : ι → Role} {thread : ι} {s s' : Shared ι}

/-- A step of `produtor` re-establishes what the producer knows. -/
theorem Own.produtor {p p' : Produtor} (own : Own role thread s (.produtor p))
    (run : produtor thread s p = some (s', p')) : Own role thread s' (.produtor p') := by
  obtain ⟨id, i, item, aguardar, place⟩ := p
  obtain ⟨holding, isRole, kept⟩ := own
  cases place with
  | test =>
    cases run
    refine ⟨fun held => ?_, isRole, ?_⟩
    · simp only at held
      split at held <;> cases held
    · simp only
      split
      · exact ⟨‹_›, kept.2⟩
      · exact kept
  | produce =>
    cases run
    exact ⟨nofun, isRole, rfl, kept⟩
  | lock =>
    simp only [ProdutorConsumidor.produtor] at run
    split at run <;> cases run
    exact ⟨fun _ => ⟨rfl, trivial⟩, isRole, kept⟩
  | clear =>
    cases run
    exact ⟨fun _ => ⟨(holding rfl).1, trivial⟩, isRole, kept⟩
  | look =>
    cases run
    refine ⟨fun _ => ⟨(holding rfl).1, ?_⟩, isRole, ?_⟩
    · cases full : s.estado <;> simp [Local.Sees, full]
    · simp only
      split <;> exact kept
  | wait =>
    cases run
    exact ⟨fun _ => ⟨(holding rfl).1, trivial⟩, isRole, rfl, kept⟩
  | release =>
    cases run
    obtain ⟨waits, kept⟩ := kept
    refine ⟨fun held => ?_, isRole, kept⟩
    simp only at waits
    subst waits
    cases held
  | again =>
    cases run
    cases aguardar with
    | false => exact ⟨fun _ => holding rfl, isRole, kept⟩
    | true => exact ⟨nofun, isRole, kept⟩
  | insert =>
    cases run
    exact ⟨fun _ => ⟨(holding rfl).1, (holding rfl).2, rfl⟩, isRole, kept⟩
  | fill =>
    cases run
    obtain ⟨carried, small, items⟩ := kept
    refine ⟨fun _ => ⟨(holding rfl).1, trivial⟩, isRole, small, ?_⟩
    simp only at carried items ⊢
    rw [itemsOf_append_self, produced_succ, items, carried]
  | unlock =>
    cases run
    exact ⟨nofun, isRole, kept⟩
  | next =>
    cases run
    exact ⟨nofun, isRole, kept⟩
  | sleep =>
    cases run
    exact ⟨nofun, isRole, kept⟩
  | done => cases run

/-- A step of `consumidor` re-establishes what the consumer knows. -/
theorem Own.consumidor {c c' : Consumidor} (own : Own role thread s (.consumidor c))
    (run : consumidor thread s c = some (s', c')) : Own role thread s' (.consumidor c') := by
  obtain ⟨item, aguardar, place⟩ := c
  obtain ⟨holding, isRole, waits, items⟩ := own
  cases place with
  | lock =>
    simp only [ProdutorConsumidor.consumidor] at run
    split at run <;> cases run
    exact ⟨fun _ => ⟨rfl, trivial⟩, isRole, nofun, items⟩
  | clear =>
    cases run
    exact ⟨fun _ => ⟨(holding rfl).1, trivial⟩, isRole, nofun, items⟩
  | look =>
    cases run
    refine ⟨fun _ => ⟨(holding rfl).1, ?_⟩, isRole, ?_, items⟩
    · cases full : s.estado <;> simp [Local.Sees, full]
    · simp only
      split <;> nofun
  | wait =>
    cases run
    exact ⟨fun _ => ⟨(holding rfl).1, trivial⟩, isRole, fun _ => rfl, items⟩
  | release =>
    cases run
    refine ⟨fun held => ?_, isRole, nofun, items⟩
    have waiting : aguardar = true := waits rfl
    subst waiting
    cases held
  | again =>
    cases run
    cases aguardar with
    | false => exact ⟨fun _ => holding rfl, isRole, nofun, items⟩
    | true => exact ⟨nofun, isRole, nofun, items⟩
  | take =>
    cases run
    exact ⟨fun _ => ⟨(holding rfl).1, (holding rfl).2, rfl⟩, isRole, nofun, items⟩
  | empty =>
    cases run
    exact ⟨fun _ => ⟨(holding rfl).1, trivial⟩, isRole, nofun, items⟩
  | unlock =>
    cases run
    exact ⟨nofun, isRole, nofun, items⟩
  | sleep =>
    cases run
    exact ⟨nofun, isRole, nofun, items⟩

/-! ### What a step does to the shared state -/

/-- What a thread can do to the shared state, by its place. -/
inductive Effect (thread : ι) (s : Shared ι) : Local → Shared ι → Prop
  | silent (l : Local) : Effect thread s l s
  | lock (l : Local) : s.mutex = none → Effect thread s l { s with mutex := some thread }
  | unlock (l : Local) : l.holds = true → Effect thread s l { s with mutex := none }
  | insert (p : Produtor) : p.place = .insert →
      Effect thread s (.produtor p) { s with buffer := p.item }
  | fill (p : Produtor) : p.place = .fill →
      Effect thread s (.produtor p)
        { s with estado := .cheio, stored := s.stored ++ [(thread, p.item)] }
  | empty (c : Consumidor) : c.place = .empty →
      Effect thread s (.consumidor c) { s with estado := .vazio, taken := s.taken ++ [c.item] }

theorem effect_of_program {l l' : Local} (run : program thread s l = some (s', l')) :
    Effect thread s l s' := by
  cases l with
  | produtor p =>
    obtain ⟨⟨shared, p'⟩, stepped, same⟩ := Option.map_eq_some_iff.mp run
    cases same
    obtain ⟨id, i, item, aguardar, place⟩ := p
    cases place with
    | lock =>
      simp only [ProdutorConsumidor.produtor] at stepped
      split at stepped <;> cases stepped
      exact .lock _ (by simpa using ‹¬ s.mutex.isSome = true›)
    | release | unlock =>
      cases stepped
      exact .unlock _ rfl
    | insert =>
      cases stepped
      exact .insert _ rfl
    | fill =>
      cases stepped
      exact .fill _ rfl
    | done => cases stepped
    | test | produce | clear | look | wait | again | next | sleep =>
      cases stepped
      exact .silent _
  | consumidor c =>
    obtain ⟨⟨shared, c'⟩, stepped, same⟩ := Option.map_eq_some_iff.mp run
    cases same
    obtain ⟨item, aguardar, place⟩ := c
    cases place with
    | lock =>
      simp only [ProdutorConsumidor.consumidor] at stepped
      split at stepped <;> cases stepped
      exact .lock _ (by simpa using ‹¬ s.mutex.isSome = true›)
    | release | unlock =>
      cases stepped
      exact .unlock _ rfl
    | empty =>
      cases stepped
      exact .empty _ rfl
    | clear | look | wait | again | take | sleep =>
      cases stepped
      exact .silent _

/-- A thread that does not hold `mutex` is not disturbed by what others do. -/
theorem Own.undisturbed {l : Local} (own : Own role thread s l) (idle : l.holds = false)
    (items : itemsOf thread s'.stored = itemsOf thread s.stored) : Own role thread s' l := by
  refine ⟨fun held => ?_, ?_⟩
  · rw [idle] at held
    cases held
  · rw [items]
    exact own.kept

/-- **The mutex keeps the others out**: a step of one thread leaves what another one knows. -/
theorem Own.frame {other : ι} {l mine : Local} (own : Own role other s l)
    (moving : Own role thread s mine) (different : other ≠ thread)
    (effect : Effect thread s mine s') : Own role other s' l := by
  have idle : s.mutex = none ∨ mine.holds = true → l.holds = false := by
    intro excluded
    by_contra held
    have owner := (own.holding (by simpa using held)).1
    rcases excluded with free | holds
    · rw [free] at owner
      cases owner
    · rw [(moving.holding holds).1] at owner
      cases owner
      exact different rfl
  cases effect with
  | silent => exact own
  | lock _ free => exact own.undisturbed (idle (Or.inl free)) rfl
  | unlock _ holds => exact own.undisturbed (idle (Or.inr holds)) rfl
  | insert p here => exact own.undisturbed (idle (Or.inr (by simp [Local.holds, here]))) rfl
  | fill p here =>
    exact own.undisturbed (idle (Or.inr (by simp [Local.holds, here])))
      (itemsOf_append_other different _ _)
  | empty c here => exact own.undisturbed (idle (Or.inr (by simp [Local.holds, here]))) rfl

/-! ### The account of the slot -/

/-- **The account of the slot**: the items stored and not yet taken. -/
def Level (s : Shared ι) : Prop :=
  s.stored.map Prod.snd = s.taken ++ match s.estado with
    | .vazio => []
    | .cheio => [s.buffer]

theorem Level.effect {l : Local} (level : Level s) (own : Own role thread s l)
    (effect : Effect thread s l s') : Level s' := by
  cases effect with
  | silent | lock _ free | unlock _ holds => exact level
  | insert p here =>
    have free : s.estado = .vazio := by
      simpa [Local.Sees, here] using (own.holding (by simp [Local.holds, here])).2
    unfold Level at level ⊢
    rw [free] at level ⊢
    exact level
  | fill p here =>
    obtain ⟨free, same⟩ : s.estado = .vazio ∧ s.buffer = p.item := by
      simpa [Local.Sees, here] using (own.holding (by simp [Local.holds, here])).2
    unfold Level at level ⊢
    rw [free, List.append_nil] at level
    rw [List.map_append, level, same]
    rfl
  | empty c here =>
    obtain ⟨full, same⟩ : s.estado = .cheio ∧ s.buffer = c.item := by
      simpa [Local.Sees, here] using (own.holding (by simp [Local.holds, here])).2
    unfold Level at level ⊢
    rw [full] at level
    rw [level, same, List.append_nil]

/-- The invariant of a run. -/
structure Inv (role : ι → Role) (config : Config ι (Shared ι) Local) : Prop where
  own : ∀ thread, Own role thread config.shared (config.locals thread)
  level : Level config.shared

theorem inv_start (role : ι → Role) : Inv role (start role) := by
  refine ⟨fun thread => ?_, rfl⟩
  show Own role thread _ (role thread).fresh
  cases found : role thread with
  | produtor id => exact ⟨nofun, found, Nat.zero_le _, rfl⟩
  | consumidor => exact ⟨nofun, found, nofun, rfl⟩

theorem Inv.step {config after : Config ι (Shared ι) Local} (inv : Inv role config)
    (moved : step program config thread = some after) : Inv role after := by
  refine ⟨owned_step (Own role) moved (fun shared place run => ?_)
    (fun shared place other run different => ?_), ?_⟩
  · have own := inv.own thread
    cases here : config.locals thread with
    | produtor p =>
      rw [here] at run own
      obtain ⟨⟨shared', p'⟩, stepped, same⟩ := Option.map_eq_some_iff.mp run
      cases same
      exact own.produtor stepped
    | consumidor c =>
      rw [here] at run own
      obtain ⟨⟨shared', c'⟩, stepped, same⟩ := Option.map_eq_some_iff.mp run
      cases same
      exact own.consumidor stepped
  · exact (inv.own other).frame (inv.own thread) different (effect_of_program run)
  · obtain ⟨shared, place, run, rfl⟩ := step_eq_some moved
    exact inv.level.effect (inv.own thread) (effect_of_program run)

/-! ### The slot is sound -/

theorem holds_of_unlocks {l : Local} (unlocks : l.unlocks = true) : l.holds = true := by
  cases l <;> simp only [Local.unlocks, decide_eq_true_eq] at unlocks <;>
    rcases unlocks with here | here <;> simp [Local.holds, here]

/-- A history in which every thread's items are distinct has no entry twice. -/
theorem nodup_of_itemsOf {history : List (ι × ℤ)}
    (distinct : ∀ thread, (itemsOf thread history).Nodup) : history.Nodup := by
  induction history with
  | nil => exact List.nodup_nil
  | cons entry history ih =>
    refine List.nodup_cons.mpr ⟨fun again => ?_, ih fun thread => ?_⟩
    · have own := distinct entry.1
      have present : entry.2 ∈ itemsOf entry.1 history :=
        List.mem_map.mpr ⟨entry, List.mem_filter.mpr ⟨again, by simp⟩, rfl⟩
      have split : itemsOf entry.1 (entry :: history) = entry.2 :: itemsOf entry.1 history := by
        simp [itemsOf]
      rw [split] at own
      exact (List.nodup_cons.mp own).1 present
    · refine (distinct thread).sublist ?_
      exact ((List.sublist_cons_self entry history).filter _).map _

theorem nodup_produced (id : ℤ) (n : ℕ) : (produced id n).Nodup := by
  refine List.nodup_range.map fun i j same => ?_
  omega

/-- Every thread has stored the first few of its items. -/
theorem Local.Kept.items {l : Local} {role : Role} {items : List ℤ} (kept : l.Kept role items) :
    (∃ id n, role = .produtor id ∧ n ≤ 10 ∧ items = produced id n) ∨
      role = .consumidor ∧ items = [] := by
  cases l with
  | consumidor c => exact Or.inr ⟨kept.1, kept.2.2⟩
  | produtor p =>
    obtain ⟨id, i, item, aguardar, place⟩ := p
    obtain ⟨isRole, kept⟩ := kept
    refine Or.inl ⟨id, ?_⟩
    cases place with
    | test | sleep | done => exact ⟨i, isRole, kept⟩
    | produce => exact ⟨i, isRole, kept.1.le, kept.2⟩
    | unlock | next => exact ⟨i + 1, isRole, kept⟩
    | release => exact ⟨i, isRole, kept.2.2.1.le, kept.2.2.2⟩
    | lock | clear | look | wait | again | insert | fill =>
      exact ⟨i, isRole, kept.2.1.le, kept.2.2⟩

/-- What has been taken is what was stored first. -/
theorem Level.taken_eq (level : Level s) : s.taken = s.consumed.map Prod.snd := by
  unfold Shared.consumed
  rw [List.map_take, level, List.take_left]

theorem Level.consumed_eq (level : Level s) (free : s.estado = .vazio) :
    s.consumed = s.stored := by
  unfold Level at level
  rw [free, List.append_nil] at level
  unfold Shared.consumed
  rw [← level, List.length_map, List.take_length]

/-- **The single slot is sound** in every state of every interleaving. -/
theorem slot_sound (role : ι → Role) {config : Config ι (Shared ι) Local}
    (reach : Reachable (step program) (start role) config) : Sound role config := by
  obtain ⟨own, level⟩ : Inv role config :=
    reach.invariant (Inv role) (inv_start role) fun _ _ _ inv _ moved => inv.step moved
  refine ⟨level.taken_eq, fun full => ?_, fun free => ?_, ?_, fun thread inserts => ?_,
    fun thread id isRole => ⟨?_, ?_⟩, fun thread unlocks => ?_⟩
  · unfold Level at level
    rw [level, full]
  · unfold Level at level
    rw [level, free, List.append_nil]
  · refine (nodup_of_itemsOf fun thread => ?_).sublist (List.take_sublist _ _)
    rcases (own thread).kept.items with ⟨id, n, -, -, items⟩ | ⟨-, items⟩
    · rw [items]
      exact nodup_produced id n
    · rw [items]
      exact List.nodup_nil
  · refine level.consumed_eq ?_
    have owned := own thread
    cases here : config.locals thread with
    | produtor p =>
      rw [here] at inserts owned
      have place : p.place = .insert := by simpa [Local.inserts] using inserts
      simpa [Local.Sees, place] using (owned.holding (by simp [Local.holds, place])).2
    | consumidor c =>
      rw [here] at inserts
      cases inserts
  · exact ((List.take_prefix _ _).filter _).map _
  · rcases (own thread).kept.items with ⟨id', n, same, small, items⟩ | ⟨same, -⟩
    · rw [isRole] at same
      cases same
      exact ⟨n, small, items⟩
    · rw [isRole] at same
      cases same
  · exact ((own thread).holding (holds_of_unlocks unlocks)).1

/-- The threads of `main`: three producers and two consumers. -/
def fiveThreads (thread : Fin 5) : Role :=
  if thread.val < 3 then .produtor (thread.val + 1) else .consumidor

/-- Producer 1 stores its first item, producer 2 finds the slot full and waits, a consumer takes
the item, producer 2 stores its own. -/
theorem slot_sound_five : ∃ config, Reachable (step program) (start fiveThreads) config ∧
    config.shared.taken = [1000] ∧ config.shared.buffer = 2000 ∧ Sound fiveThreads config := by
  have reach : Reachable (step program) (start fiveThreads) _ :=
    reach_of_execute (List.replicate 9 0 ++ List.replicate 8 1 ++ List.replicate 7 3 ++
      List.replicate 6 1) .start rfl
  exact ⟨_, reach, rfl, rfl, slot_sound fiveThreads reach⟩

end ProdutorConsumidor
