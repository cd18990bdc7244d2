/-
**Linked headers in byte-addressed memory.**

An allocator keeps headers of `size` bytes in the memory it manages. `Memory` is a partial map from
byte addresses to headers; storing a header destroys every other header it overlaps, so that a load
of a destroyed header is undefined. Null pointers are `none`.

* `Chain mk memory prev blocks next` — the blocks, each an address with its data, are linked in
  memory in this order: the header at each address is `mk data next prev` with the addresses of its
  neighbours. `mk` is the header's constructor; a singly linked list ignores `prev`.
* `Linked` — a whole list whose headers do not overlap.
* `Linked.load`, `Linked.loadNext`, `Linked.set`, `Linked.unlink`, `Linked.insert` — what such a
  list holds, and the three surgeries: new data at a block, a block taken out behind another, a block
  put in.
* `Linked.insertSingle` — the last of them on a list without links back.
* `view` — the memory with only some fields of each header; stores and links are those of the view
  (`view_store`), so that code that reads only these fields is proved correct on it.
* `chain_unique` — one list at most starts at an address.
* `walk_of_chain`, `length_lt_of_walk`, `mem_of_onList` — following the links visits the blocks, and
  nothing else.
-/

import Mathlib.Data.List.Basic
import Mathlib.Data.List.Pairwise
import Mathlib.Data.Int.Basic

namespace Headers

variable {N α : Type}

/-! ### Memory -/

/-- The headers in memory. -/
abbrev Memory (N : Type) := ℤ → Option N

/-- **Store a header.** Every other header that shares a byte with it is destroyed. -/
def store (size : ℤ) (memory : Memory N) (x : ℤ) (node : N) : Memory N := fun y =>
  if y = x then some node else if y < x + size ∧ x < y + size then none else memory y

/-- Change the fields of the header at an address; undefined if there is none. -/
def modify (size : ℤ) (memory : Memory N) (x : ℤ) (change : N → N) : Option (Memory N) :=
  (memory x).map fun node => store size memory x (change node)

/-- Headers at the two addresses do not overlap. -/
def Apart (size x y : ℤ) : Prop := x + size ≤ y ∨ y + size ≤ x

theorem Apart.symm {size x y : ℤ} (apart : Apart size x y) : Apart size y x := Or.symm apart

section Memory

variable {size : ℤ} {memory : Memory N} {x y : ℤ} {node : N}

@[simp]
theorem store_self : store size memory x node x = some node := if_pos rfl

theorem store_apart (positive : 0 < size) (apart : Apart size x y) :
    store size memory x node y = memory y := by
  unfold Apart at apart
  rw [store, if_neg (by omega), if_neg (by omega)]

@[simp]
theorem store_store (other : N) :
    store size (store size memory x node) x other = store size memory x other := by
  funext y
  unfold store
  split
  · rfl
  · split <;> rfl

theorem modify_eq {change : N → N} (found : memory x = some node) :
    modify size memory x change = some (store size memory x (change node)) := by
  rw [modify, found]
  rfl

end Memory

/-! ### Chains -/

/-- The address of the first block, or what follows an empty list. -/
def first : List (ℤ × α) → Option ℤ → Option ℤ
  | [], next => next
  | block :: _, _ => some block.1

/-- The address of the last block, or what precedes an empty list. -/
def last (prev : Option ℤ) : List (ℤ × α) → Option ℤ
  | [] => prev
  | block :: rest => last (some block.1) rest

/-- **The blocks are linked in memory in this order.** -/
def Chain (mk : α → Option ℤ → Option ℤ → N) (memory : Memory N) :
    Option ℤ → List (ℤ × α) → Option ℤ → Prop
  | _, [], _ => True
  | prev, block :: rest, next =>
      memory block.1 = some (mk block.2 (first rest next) prev) ∧
        Chain mk memory (some block.1) rest next

variable {mk : α → Option ℤ → Option ℤ → N} {memory memory' : Memory N}

theorem first_append (l r : List (ℤ × α)) (next : Option ℤ) :
    first (l ++ r) next = first l (first r next) := by
  cases l <;> rfl

/-- A list starts where it did, whatever is changed behind the address of one of its blocks. -/
theorem first_replace (l r r' : List (ℤ × α)) (a : ℤ) (v v' : α) (next next' : Option ℤ) :
    first (l ++ (a, v) :: r) next = first (l ++ (a, v') :: r') next' := by
  cases l <;> rfl

theorem last_append (prev : Option ℤ) (l r : List (ℤ × α)) :
    last prev (l ++ r) = last (last prev l) r := by
  induction l generalizing prev with
  | nil => rfl
  | cons block rest ih => exact ih (some block.1)

theorem chain_append {prev next : Option ℤ} {l r : List (ℤ × α)} :
    Chain mk memory prev (l ++ r) next ↔
      Chain mk memory prev l (first r next) ∧ Chain mk memory (last prev l) r next := by
  induction l generalizing prev with
  | nil => exact ⟨fun chain => ⟨trivial, chain⟩, And.right⟩
  | cons block rest ih =>
    simp only [List.cons_append, Chain, ih, first_append, last, and_assoc]

/-- A chain depends only on the headers at its own addresses. -/
theorem Chain.congr {prev next : Option ℤ} {l : List (ℤ × α)}
    (chain : Chain mk memory prev l next) (same : ∀ block ∈ l, memory' block.1 = memory block.1) :
    Chain mk memory' prev l next := by
  induction l generalizing prev with
  | nil => trivial
  | cons block rest ih =>
    obtain ⟨here, chain⟩ := chain
    refine ⟨?_, ih chain fun other member => same other (List.mem_cons_of_mem _ member)⟩
    rw [same block List.mem_cons_self]
    exact here

/-- A header stored away from a chain leaves it. -/
theorem Chain.store {size x : ℤ} {node : N} {prev next : Option ℤ} {l : List (ℤ × α)}
    (chain : Chain mk memory prev l next) (positive : 0 < size)
    (away : ∀ block ∈ l, Apart size x block.1) :
    Chain mk (store size memory x node) prev l next :=
  chain.congr fun block member => store_apart positive (away block member)

/-! ### Lists of headers -/

/-- The headers of the blocks do not overlap. -/
def Spread (size : ℤ) (blocks : List (ℤ × α)) : Prop :=
  blocks.Pairwise fun x y => Apart size x.1 y.1

/-- **A list of headers in memory**: linked both ways, without overlaps. -/
structure Linked (size : ℤ) (mk : α → Option ℤ → Option ℤ → N) (memory : Memory N)
    (blocks : List (ℤ × α)) : Prop where
  chain : Chain mk memory none blocks none
  spread : Spread size blocks

theorem spread_split {size : ℤ} {l r : List (ℤ × α)} {block : ℤ × α}
    (spread : Spread size (l ++ block :: r)) :
    (∀ other ∈ l, Apart size block.1 other.1) ∧ (∀ other ∈ r, Apart size block.1 other.1) := by
  obtain ⟨-, right, across⟩ := List.pairwise_append.mp spread
  exact ⟨fun other member => (across other member block List.mem_cons_self).symm,
    (List.pairwise_cons.mp right).1⟩

/-- An address occurs once. -/
theorem address_ne {size : ℤ} (positive : 0 < size) {l r : List (ℤ × α)} {block : ℤ × α}
    (spread : Spread size (l ++ block :: r)) : ∀ other ∈ l ++ r, other.1 ≠ block.1 := by
  obtain ⟨before, after⟩ := spread_split spread
  intro other member same
  have apart : Apart size block.1 other.1 := by
    rcases List.mem_append.mp member with there | there
    · exact before other there
    · exact after other there
  rw [same] at apart
  unfold Apart at apart
  omega

/-- Blocks at one address are one block. -/
theorem block_unique {size : ℤ} (positive : 0 < size) {blocks : List (ℤ × α)}
    (spread : Spread size blocks) {x y : ℤ × α} (here : x ∈ blocks) (there : y ∈ blocks)
    (same : y.1 = x.1) : y = x := by
  obtain ⟨l, r, rfl⟩ := List.append_of_mem here
  by_contra different
  refine address_ne positive spread y ?_ same
  simpa [different] using there

/-- Only the addresses matter for overlaps. -/
theorem spread_congr {size : ℤ} {l r : List (ℤ × α)} (same : l.map Prod.fst = r.map Prod.fst) :
    Spread size l ↔ Spread size r := by
  have byAddress : ∀ blocks : List (ℤ × α),
      Spread size blocks ↔ (blocks.map Prod.fst).Pairwise (Apart size) :=
    fun blocks => List.pairwise_map.symm
  rw [byAddress, byAddress, same]

/-- Point the first block back to `a`. -/
def adopt (size : ℤ) (mk : α → Option ℤ → Option ℤ → N) (memory : Memory N) (a : ℤ) :
    List (ℤ × α) → Memory N
  | [] => memory
  | block :: rest => store size memory block.1 (mk block.2 (first rest none) (some a))

section Surgery

variable {size a : ℤ} {v : α} {l r : List (ℤ × α)}

/-- What the header of a block holds. -/
theorem Linked.load (linked : Linked size mk memory (l ++ (a, v) :: r)) :
    memory a = some (mk v (first r none) (last none l)) :=
  (chain_append.mp linked.chain).2.1

/-- What the header of the block behind holds. -/
theorem Linked.loadNext {b : ℤ} {w : α}
    (linked : Linked size mk memory (l ++ (a, v) :: (b, w) :: r)) :
    memory b = some (mk w (first r none) (some a)) :=
  (chain_append.mp linked.chain).2.2.1

/-- **New data at a block.** -/
theorem Linked.set (linked : Linked size mk memory (l ++ (a, v) :: r)) (positive : 0 < size)
    (v' : α) : Linked size mk (store size memory a (mk v' (first r none) (last none l)))
      (l ++ (a, v') :: r) := by
  obtain ⟨before, after⟩ := spread_split linked.spread
  obtain ⟨left, -, right⟩ := chain_append.mp linked.chain
  refine ⟨chain_append.mpr ⟨left.store positive before, store_self, right.store positive after⟩,
    (spread_congr ?_).mp linked.spread⟩
  simp

/-- Pointing the first block back keeps what is behind it. -/
theorem chain_adopt {b : ℤ} (chain : Chain mk memory (some b) r none) (positive : 0 < size)
    (spread : Spread size r) : Chain mk (adopt size mk memory a r) (some a) r none := by
  cases r with
  | nil => trivial
  | cons block rest =>
    exact ⟨store_self, chain.2.store positive (List.pairwise_cons.mp spread).1⟩

theorem adopt_apart {y : ℤ} (positive : 0 < size) (away : ∀ block ∈ r, Apart size block.1 y) :
    adopt size mk memory a r y = memory y := by
  cases r with
  | nil => rfl
  | cons block rest => exact store_apart positive (away block List.mem_cons_self)

theorem Chain.adopt {prev next : Option ℤ} (chain : Chain mk memory prev l next)
    (positive : 0 < size) (away : ∀ block ∈ l, ∀ other ∈ r, Apart size other.1 block.1) :
    Chain mk (adopt size mk memory a r) prev l next :=
  chain.congr fun block member => adopt_apart positive (away block member)

/-- **A block taken out**: the one before it gets its link, the one behind it is pointed back. -/
theorem Linked.unlink {b : ℤ} {w : α} (linked : Linked size mk memory (l ++ (a, v) :: (b, w) :: r))
    (positive : 0 < size) (v' : α) :
    Linked size mk (adopt size mk (store size memory a (mk v' (first r none) (last none l))) a r)
      (l ++ (a, v') :: r) := by
  obtain ⟨before, after⟩ := spread_split linked.spread
  obtain ⟨left, -, -, right⟩ := chain_append.mp linked.chain
  obtain ⟨spreadLeft, spreadRight, across⟩ := List.pairwise_append.mp linked.spread
  have behind : ∀ block ∈ r, Apart size a block.1 :=
    fun block member => after block (List.mem_cons_of_mem _ member)
  have rest : Spread size r := (List.pairwise_cons.mp (List.pairwise_cons.mp spreadRight).2).2
  have acrossRest : ∀ block ∈ l, ∀ other ∈ r, Apart size other.1 block.1 := fun block member other
    there => (across block member other (by simp [there])).symm
  refine ⟨chain_append.mpr ⟨?_, ?_, ?_⟩, ?_⟩
  · exact (left.store positive before).adopt positive acrossRest
  · rw [adopt_apart positive fun block member => (behind block member).symm]
    exact store_self
  · exact chain_adopt (right.store positive behind) positive rest
  · refine List.pairwise_append.mpr ⟨spreadLeft, List.pairwise_cons.mpr ⟨behind, rest⟩, ?_⟩
    intro block member other there
    rcases List.mem_cons.mp there with rfl | there
    · exact (before block member).symm
    · exact (acrossRest block member other there).symm

/-- **A block put in** behind another: its own header, the link to it, the one behind it pointed
back. -/
theorem Linked.insert {b : ℤ} (linked : Linked size mk memory (l ++ (a, v) :: r))
    (positive : 0 < size) (fresh : ∀ block ∈ l ++ (a, v) :: r, Apart size b block.1) (v' w : α) :
    Linked size mk (adopt size mk (store size (store size memory b (mk w (first r none) (some a))) a
      (mk v' (some b) (last none l))) b r) (l ++ (a, v') :: (b, w) :: r) := by
  obtain ⟨before, after⟩ := spread_split linked.spread
  obtain ⟨left, -, right⟩ := chain_append.mp linked.chain
  obtain ⟨spreadLeft, spreadRight, across⟩ := List.pairwise_append.mp linked.spread
  have rest : Spread size r := (List.pairwise_cons.mp spreadRight).2
  have freshLeft : ∀ block ∈ l, Apart size b block.1 := fun block member =>
    fresh block (by simp [member])
  have freshHere : Apart size b a := fresh (a, v) (by simp)
  have freshRight : ∀ block ∈ r, Apart size b block.1 := fun block member =>
    fresh block (by simp [member])
  have acrossRest : ∀ block ∈ l, ∀ other ∈ r, Apart size other.1 block.1 := fun block member other
    there => (across block member other (by simp [there])).symm
  refine ⟨chain_append.mpr ⟨?_, ?_, ?_, ?_⟩, ?_⟩
  · exact ((left.store positive freshLeft).store positive before).adopt positive acrossRest
  · rw [adopt_apart positive fun block member => (after block member).symm]
    exact store_self
  · rw [adopt_apart positive fun block member => (freshRight block member).symm,
      store_apart positive freshHere.symm]
    exact store_self
  · exact chain_adopt ((right.store positive freshRight).store positive after) positive rest
  · refine List.pairwise_append.mpr ⟨spreadLeft, List.pairwise_cons.mpr ⟨?_,
      List.pairwise_cons.mpr ⟨freshRight, rest⟩⟩, ?_⟩
    · intro block member
      rcases List.mem_cons.mp member with rfl | member
      · exact freshHere.symm
      · exact after block member
    · intro block member other there
      rcases List.mem_cons.mp there with rfl | there
      · exact (before block member).symm
      rcases List.mem_cons.mp there with rfl | there
      · exact (freshLeft block member).symm
      · exact (acrossRest block member other there).symm

end Surgery

/-! ### Lists without links back -/

section Single

variable {size a : ℤ} {v : α} {l r : List (ℤ × α)}
  (single : ∀ (data : α) (next prev prev' : Option ℤ), mk data next prev = mk data next prev')

include single

/-- What precedes a chain does not matter. -/
theorem Chain.anyPrev {prev prev' next : Option ℤ} (chain : Chain mk memory prev l next) :
    Chain mk memory prev' l next := by
  cases l with
  | nil => trivial
  | cons block rest => exact ⟨chain.1.trans (congrArg some (single ..)), chain.2⟩

/-- **A block put in** behind another: its own header and the link to it. -/
theorem Linked.insertSingle {b : ℤ} (linked : Linked size mk memory (l ++ (a, v) :: r))
    (positive : 0 < size) (fresh : ∀ block ∈ l ++ (a, v) :: r, Apart size b block.1) (v' w : α) :
    Linked size mk (store size (store size memory b (mk w (first r none) none)) a
      (mk v' (some b) none)) (l ++ (a, v') :: (b, w) :: r) := by
  obtain ⟨before, after⟩ := spread_split linked.spread
  obtain ⟨left, -, right⟩ := chain_append.mp linked.chain
  have freshLeft : ∀ block ∈ l, Apart size b block.1 := fun block member =>
    fresh block (by simp [member])
  have freshHere : Apart size b a := fresh (a, v) (by simp)
  have freshRight : ∀ block ∈ r, Apart size b block.1 := fun block member =>
    fresh block (by simp [member])
  refine ⟨chain_append.mpr ⟨?_, ?_, ?_, ?_⟩, (linked.insert positive fresh v' w).spread⟩
  · exact (left.store positive freshLeft).store positive before
  · exact store_self.trans (congrArg some (single ..))
  · exact ((store_apart positive freshHere.symm).trans store_self).trans
      (congrArg some (single ..))
  · exact ((right.store positive freshRight).store positive after).anyPrev single

end Single

/-! ### Some fields of the headers -/

section View

variable {M : Type} {size x : ℤ} {node : N}

/-- **The memory with only the fields that `read` gives.** -/
def view (read : N → M) (memory : Memory N) : Memory M := fun a => (memory a).map read

theorem view_store (read : N → M) (size : ℤ) (memory : Memory N) (x : ℤ) (node : N) :
    view read (store size memory x node) = store size (view read memory) x (read node) := by
  funext y
  unfold view store
  split
  · rfl
  · split <;> rfl

/-- All fields. -/
theorem view_id (memory : Memory N) : view id memory = memory := by
  funext a
  exact Option.map_id_apply

theorem view_eq_some {read : N → M} {fields : M} :
    view read memory x = some fields ↔ ∃ node, memory x = some node ∧ read node = fields :=
  Option.map_eq_some_iff

end View

/-! ### Walking a list -/

/-- Follow the links and collect the headers; undefined at a missing header or when the fuel runs
out. -/
def walk (next : N → Option ℤ) (memory : Memory N) : ℕ → Option ℤ → Option (List (ℤ × N))
  | 0, _ => none
  | _ + 1, none => some []
  | fuel + 1, some a => do
      let node ← memory a
      let rest ← walk next memory fuel (next node)
      some ((a, node) :: rest)

/-- The headers of a chain. -/
def nodes (mk : α → Option ℤ → Option ℤ → N) : Option ℤ → List (ℤ × α) → List (ℤ × N)
  | _, [] => []
  | prev, block :: rest =>
      (block.1, mk block.2 (first rest none) prev) :: nodes mk (some block.1) rest

/-- **A memory has one chain from an address on**, if the header shows the data and the link. -/
theorem chain_unique (link : N → Option ℤ) (follows : ∀ v after before, link (mk v after before) =
    after) (shows : ∀ v w after before before', mk v after before = mk w after before' → v = w)
    {prev prev' : Option ℤ} {l r : List (ℤ × α)} (one : Chain mk memory prev l none)
    (other : Chain mk memory prev' r none) (same : first l none = first r none) : l = r := by
  induction l generalizing r prev prev' with
  | nil =>
    cases r with
    | nil => rfl
    | cons block rest => cases same
  | cons block rest ih =>
    cases r with
    | nil => cases same
    | cons block' rest' =>
      obtain ⟨a, v⟩ := block
      obtain ⟨a', v'⟩ := block'
      obtain rfl : a = a' := Option.some.inj same
      have header := Option.some.inj (one.1.symm.trans other.1)
      have behind : first rest none = first rest' none := by
        simpa only [follows] using congrArg link header
      obtain rfl : v = v' := shows _ _ _ _ _ (behind ▸ header)
      rw [ih one.2 other.2 behind]

/-- **Following the links of a chain visits its blocks.** -/
theorem walk_of_chain {next : N → Option ℤ} (follows : ∀ v after before, next (mk v after before) =
    after) {prev : Option ℤ} {l : List (ℤ × α)} (chain : Chain mk memory prev l none) {fuel : ℕ}
    (enough : l.length < fuel) :
    walk next memory fuel (first l none) = some (nodes mk prev l) := by
  induction l generalizing prev fuel with
  | nil =>
    obtain ⟨fuel, rfl⟩ := Nat.exists_eq_add_of_lt enough
    rfl
  | cons block rest ih =>
    obtain ⟨here, chain⟩ := chain
    obtain ⟨fuel, rfl⟩ : ∃ more, fuel = more + 1 := ⟨fuel - 1, by omega⟩
    have short : rest.length < fuel := by simpa using enough
    have behind := ih chain short
    show walk next memory (fuel + 1) (some block.1) = _
    simp only [walk, here, Option.bind_eq_bind, Option.bind_some, follows, behind, nodes]

/-- A walk that ends has fuel for every block. -/
theorem length_lt_of_walk {next : N → Option ℤ} (follows : ∀ v after before, next (mk v after before)
    = after) {prev : Option ℤ} {l : List (ℤ × α)} (chain : Chain mk memory prev l none) {fuel : ℕ}
    {visited : List (ℤ × N)} (walked : walk next memory fuel (first l none) = some visited) :
    l.length < fuel := by
  induction l generalizing prev fuel visited with
  | nil =>
    cases fuel with
    | zero => cases walked
    | succ fuel => exact Nat.succ_pos fuel
  | cons block rest ih =>
    obtain ⟨here, chain⟩ := chain
    cases fuel with
    | zero => cases walked
    | succ fuel =>
      simp only [first, walk, here, Option.bind_eq_bind, Option.bind_some, follows] at walked
      obtain ⟨behind, rest', -⟩ := Option.bind_eq_some_iff.mp walked
      exact Nat.succ_lt_succ (ih chain rest')

/-- **The addresses that the links lead to.** -/
inductive OnList (next : N → Option ℤ) (memory : Memory N) : Option ℤ → ℤ → Prop
  | here {a : ℤ} {node : N} : memory a = some node → OnList next memory (some a) a
  | later {a x : ℤ} {node : N} : memory a = some node → OnList next memory (next node) x →
      OnList next memory (some a) x

theorem mem_of_onList {next : N → Option ℤ} (follows : ∀ v after before, next (mk v after before) =
    after) {prev : Option ℤ} {l : List (ℤ × α)} (chain : Chain mk memory prev l none) {x : ℤ}
    (reached : OnList next memory (first l none) x) : ∃ v, (x, v) ∈ l := by
  induction l generalizing prev with
  | nil => cases reached
  | cons block rest ih =>
    obtain ⟨here, chain⟩ := chain
    cases reached with
    | here => exact ⟨block.2, List.mem_cons_self⟩
    | later found reached =>
      rw [here] at found
      cases found
      rw [follows] at reached
      obtain ⟨v, member⟩ := ih chain reached
      exact ⟨v, List.mem_cons_of_mem block member⟩

end Headers
