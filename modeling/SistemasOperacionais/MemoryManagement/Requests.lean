/-
**`memory_management.cpp`: what the loops do with a list of blocks.**

* `Blocks` — the blocks of a state, from `_memory` on. A state has one list (`blocks_unique`).
* `Wanted` — a block that the loops of `first_fit` and `next_fit` take: the tests compare with `_size`,
  which is not `size + sizeof(struct memory)` if that sum is no `int`.
* `tryBlock_passes`, `tryBlock_wanted` — one body of these loops; `served` — the list after it.
* `pass_passes`, `pass_takes`, `pass_one` — a pass over blocks that are not taken, up to the first one
  that is, and a pass that takes one.
* `pass_overtakes` — the second loop of `next_fit` moves `_next` behind its iterator when it takes a
  block, and then follows a NULL pointer (`pass_lost`).
* `chooseLoop_eq` — the loop of `best_fit` and `worst_fit` is a selection; `chooseFit_eq`.
-/

import SistemasOperacionais.MemoryManagement.Model
import SistemasOperacionais.Data.Select

namespace MemoryManagement

open Headers Select Wrap

/-- A block: the address of its header and its `size`. -/
abbrev Block := ℤ × ℤ

/-- **The blocks from `_memory` on.** -/
structure Blocks (h : ℤ) (s : State) (blocks : List Block) : Prop where
  head : s.memory = first blocks none
  linked : Linked h Node.linked s.nodes blocks

variable {h size : ℤ} {place : ℤ → ℤ → ℤ} {s : State} {nodes : Memory Node}
  {blocks l r : List Block} {a t : ℤ} {fuel : ℕ}

/-- The header of a block: its link leads to a block. -/
theorem load_of_linked (linked : Linked h Node.linked nodes blocks) {block : Block}
    (member : block ∈ blocks) :
    ∃ next, nodes block.1 = some ⟨next, block.2⟩ ∧ ∀ y ∈ next, ∃ other ∈ blocks, y = other.1 := by
  obtain ⟨l, r, rfl⟩ := List.append_of_mem member
  refine ⟨first r none, linked.load, fun y link => ?_⟩
  cases r with
  | nil => cases link
  | cons other rest => exact ⟨other, by simp, (Option.mem_some.mp link).symm⟩

/-- A state has one list of blocks. -/
theorem blocks_unique {blocks' : List Block} (one : Blocks h s blocks) (other : Blocks h s blocks') :
    blocks = blocks' :=
  chain_unique Node.next (fun _ _ _ => rfl) (fun _ _ _ _ _ => congrArg Node.size) one.linked.chain
    other.linked.chain (one.head.symm.trans other.head)

/-- `show_memory` prints the blocks. -/
theorem showMemory_eq (blocks_ : Blocks h s blocks) (enough : blocks.length < fuel) :
    showMemory s fuel = some (blocks.map fun block => Line.ofSize block.2) := by
  have lines : ∀ (blocks : List Block) (prev : Option ℤ),
      (Headers.nodes Node.linked prev blocks).map (fun node => Line.ofSize node.2.size) =
        blocks.map fun block => Line.ofSize block.2 := by
    intro blocks
    induction blocks with
    | nil => exact fun _ => rfl
    | cons block rest ih => exact fun prev => congrArg (Line.ofSize block.2 :: ·) (ih _)
  rw [showMemory, blocks_.head, walk_of_chain (fun _ _ _ => rfl) blocks_.linked.chain enough]
  exact congrArg some (lines blocks none)

theorem blocks_beginMemory (h base : ℤ) :
    Blocks h (beginMemory h base) [(base, memorySize - h)] := by
  refine ⟨rfl, ⟨?_, trivial⟩, List.pairwise_singleton _ _⟩
  show store h (fun _ => none) base (Node.mk none (memorySize - h)) base = _
  exact store_self

/-! ### One body of a loop -/

/-- **A block that the loops of `first_fit` and `next_fit` take.** -/
def Wanted (h size t : ℤ) : Prop := int (size + h) ≤ t ∨ size < t

instance (h size t : ℤ) : Decidable (Wanted h size t) := inferInstanceAs (Decidable (_ ∨ _))

/-- The `size` of a block that was taken. -/
def taken (h size t : ℤ) : ℤ := if int (size + h) ≤ t then 0 - size else t * (-1)

/-- The block split off from a block that was taken. -/
def rest (h : ℤ) (place : ℤ → ℤ → ℤ) (size a t : ℤ) : Option Block :=
  if int (size + h) ≤ t then some (place a size, int (t - size - h)) else none

/-- Where the iterator stands after a block was taken. -/
def stand (h : ℤ) (place : ℤ → ℤ → ℤ) (size a t : ℤ) : ℤ :=
  if int (size + h) ≤ t then place a size else a

/-- The blocks after one was taken. -/
def served (h : ℤ) (place : ℤ → ℤ → ℤ) (size : ℤ) (l : List Block) (a t : ℤ) (r : List Block) :
    List Block :=
  l ++ (a, taken h size t) :: ((rest h place size a t).toList ++ r)

/-- The link of a block that was taken. -/
def link (h : ℤ) (place : ℤ → ℤ → ℤ) (size a t : ℤ) (next : Option ℤ) : Option ℤ :=
  if int (size + h) ≤ t then some (place a size) else next

/-- The headers after the block at `a` was taken. -/
def tried (h : ℤ) (place : ℤ → ℤ → ℤ) (size : ℤ) (nodes : Memory Node) (a : ℤ) (node : Node) :
    Memory Node :=
  store h
    (if int (size + h) ≤ node.size then
      store h nodes (place a size) ⟨node.next, int (node.size - size - h)⟩ else nodes)
    a ⟨link h place size a node.size node.next, taken h size node.size⟩

theorem single_linked (size : ℤ) (next prev prev' : Option ℤ) :
    Node.linked size next prev = Node.linked size next prev' := rfl

/-- **A block that is not wanted is passed.** -/
theorem tryBlock_passes {node : Node} (here : nodes a = some node) (small : ¬ Wanted h size node.size) :
    tryBlock h place nodes a size = some (none, a, nodes) := by
  rw [tryBlock, here, Option.bind_eq_bind, Option.bind_some,
    if_neg fun fits => small (.inl fits), if_neg fun larger => small (.inr larger)]

/-- **A block that is wanted is taken.** -/
theorem tryBlock_wanted (positive : 0 < h) {node : Node} (here : nodes a = some node)
    (apart : Apart h (place a size) a) (wanted : Wanted h size node.size) :
    tryBlock h place nodes a size = some (some (returned h a), stand h place size a node.size,
      tried h place size nodes a node) := by
  unfold tryBlock tried stand link taken
  rw [here, Option.bind_eq_bind, Option.bind_some]
  by_cases fits : int (size + h) ≤ node.size
  · simp only [if_pos fits, split, here, Option.bind_eq_bind, Option.bind_some,
      modify_eq ((store_apart positive apart).trans here), modify_eq store_self, store_store]
  · simp only [if_neg fits, if_pos (wanted.resolve_left fits), modify_eq here, Option.bind_eq_bind,
      Option.bind_some]

/-- What is away from the block and from the new header is left. -/
theorem tried_apart (positive : 0 < h) {node : Node} {x : ℤ} (away : Apart h a x)
    (apart : Apart h (place a size) x) : tried h place size nodes a node x = nodes x := by
  unfold tried
  rw [store_apart positive away]
  split
  · exact store_apart positive apart
  · rfl

theorem tried_self {node : Node} : tried h place size nodes a node a =
    some ⟨link h place size a node.size node.next, taken h size node.size⟩ := store_self

/-- The iterator goes on to the block behind. -/
theorem tried_stand (positive : 0 < h) {node : Node} (apart : Apart h (place a size) a) :
    ∃ v, tried h place size nodes a node (stand h place size a node.size) =
      some ⟨node.next, v⟩ := by
  unfold tried stand link
  split
  · rw [store_apart positive apart.symm]
    exact ⟨_, store_self⟩
  · exact ⟨_, store_self⟩

/-- **The list after a block was taken.** -/
theorem linked_tried (positive : 0 < h) (linked : Linked h Node.linked nodes (l ++ (a, t) :: r))
    (fresh : ∀ block ∈ l ++ (a, t) :: r, Apart h (place a size) block.1) :
    Linked h Node.linked (tried h place size nodes a ⟨first r none, t⟩)
      (served h place size l a t r) := by
  unfold tried served link taken rest
  split
  · exact linked.insertSingle single_linked positive fresh (0 - size) (int (t - size - h))
  · exact linked.set positive (t * (-1))

/-- The iterator stands at no other block. -/
theorem stand_ne (positive : 0 < h) (spread : Spread h (l ++ (a, t) :: r))
    (fresh : ∀ block ∈ l ++ (a, t) :: r, Apart h (place a size) block.1) :
    ∀ block ∈ l ++ r, stand h place size a t ≠ block.1 := by
  intro block member
  unfold stand
  split
  · have apart := fresh block (by
      simp only [List.mem_append, List.mem_cons] at member ⊢
      tauto)
    unfold Apart at apart
    omega
  · exact (address_ne positive spread block member).symm

/-! ### Passes -/

section Passes

variable {limit : Option ℤ → Option ℤ} {next address : Option ℤ}

/-- One turn of a loop. -/
theorem pass_succ {took : Option ℤ} {iterator : ℤ} {nodes' : Memory Node} {node : Node}
    (notLimit : limit next ≠ some a)
    (tried : tryBlock h place nodes a size = some (took, iterator, nodes'))
    (load : nodes' iterator = some node) :
    pass h place size limit (fuel + 1) ⟨nodes, some a, next, address⟩ =
      pass h place size limit fuel ⟨nodes', node.next,
        if took = none then next else some iterator, took.or address⟩ := by
  simp only [pass, if_neg notLimit.symm, tried, load, Option.bind_eq_bind, Option.bind_some]

/-- **A pass over blocks that are not wanted**, none of them at the limit. -/
theorem pass_passes {prev after : Option ℤ} (chain : Chain Node.linked nodes prev l after)
    (small : ∀ block ∈ l, ¬ Wanted h size block.2)
    (inside : ∀ block ∈ l, limit next ≠ some block.1) (enough : l.length ≤ fuel) :
    pass h place size limit fuel ⟨nodes, first l after, next, address⟩ =
      pass h place size limit (fuel - l.length) ⟨nodes, after, next, address⟩ := by
  induction l generalizing prev fuel with
  | nil => rfl
  | cons block behind ih =>
    obtain ⟨here, chain⟩ := chain
    obtain ⟨more, rfl⟩ : ∃ more, fuel = more + 1 := ⟨fuel - 1, by simp at enough; omega⟩
    have short : behind.length ≤ more := by simpa using enough
    have load : nodes block.1 = some ⟨first behind after, block.2⟩ := here
    show pass h place size limit (more + 1) ⟨nodes, some block.1, next, address⟩ = _
    rw [pass_succ (inside block List.mem_cons_self)
      (tryBlock_passes load (small block List.mem_cons_self)) load, if_pos rfl,
      Option.none_or, List.length_cons, Nat.add_sub_add_right]
    exact ih chain (fun other member => small other (List.mem_cons_of_mem _ member))
      (fun other member => inside other (List.mem_cons_of_mem _ member)) short

/-- The end of a pass. -/
theorem pass_ends (enough : 0 < fuel) :
    pass h place size limit fuel ⟨nodes, limit next, next, address⟩ =
      some ⟨nodes, limit next, next, address⟩ := by
  obtain ⟨more, rfl⟩ : ∃ more, fuel = more + 1 := ⟨fuel - 1, by omega⟩
  rw [pass, if_pos rfl]

variable (place limit next address) in
/-- A pass that takes no block. -/
theorem pass_none {prev : Option ℤ} (chain : Chain Node.linked nodes prev l (limit next))
    (small : ∀ block ∈ l, ¬ Wanted h size block.2)
    (inside : ∀ block ∈ l, limit next ≠ some block.1) (enough : l.length < fuel) :
    pass h place size limit fuel ⟨nodes, first l (limit next), next, address⟩ =
      some ⟨nodes, limit next, next, address⟩ := by
  rw [pass_passes chain small inside enough.le, pass_ends (by omega)]

variable (next address) in
/-- **A pass up to the first block that is wanted.** -/
theorem pass_takes (positive : 0 < h) {m : List Block}
    (linked : Linked h Node.linked nodes (m ++ (l ++ (a, t) :: r)))
    (fresh : ∀ block ∈ m ++ (l ++ (a, t) :: r), Apart h (place a size) block.1)
    (wanted : Wanted h size t) (before : ∀ block ∈ l, ¬ Wanted h size block.2)
    (enough : l.length < fuel) :
    pass h place size (fun _ => none) fuel ⟨nodes, first (l ++ (a, t) :: r) none, next, address⟩ =
        pass h place size (fun _ => none) (fuel - l.length - 1)
          ⟨tried h place size nodes a ⟨first r none, t⟩, first r none,
            some (stand h place size a t), some (returned h a)⟩ ∧
      Linked h Node.linked (tried h place size nodes a ⟨first r none, t⟩)
        (served h place size (m ++ l) a t r) := by
  rw [← List.append_assoc] at linked fresh
  refine ⟨?_, linked_tried positive linked fresh⟩
  have here : nodes a = some ⟨first r none, t⟩ := linked.load
  have apart : Apart h (place a size) a := fresh (a, t) (by simp)
  obtain ⟨ahead, _⟩ := chain_append.mp linked.chain
  obtain ⟨_, ahead⟩ := chain_append.mp ahead
  rw [first_append, pass_passes ahead before (fun _ _ => (Option.some_ne_none _).symm) enough.le]
  obtain ⟨more, sum⟩ : ∃ more, fuel - l.length = more + 1 := ⟨fuel - l.length - 1, by omega⟩
  obtain ⟨v, load⟩ := tried_stand positive apart
  rw [sum]
  show pass h place size (fun _ => none) (more + 1) ⟨nodes, some a, next, address⟩ = _
  rw [pass_succ (Option.some_ne_none a).symm (tryBlock_wanted positive here apart wanted) load,
    if_neg (Option.some_ne_none _), Option.some_or]
  rfl

variable (next address) in
/-- **A pass to the end of the list that takes one block.** -/
theorem pass_one (positive : 0 < h) {m : List Block}
    (linked : Linked h Node.linked nodes (m ++ (l ++ (a, t) :: r)))
    (fresh : ∀ block ∈ m ++ (l ++ (a, t) :: r), Apart h (place a size) block.1)
    (wanted : Wanted h size t) (before : ∀ block ∈ l, ¬ Wanted h size block.2)
    (behind : ∀ block ∈ r, ¬ Wanted h size block.2) (enough : (l ++ (a, t) :: r).length < fuel) :
    ∃ nodes', pass h place size (fun _ => none) fuel
        ⟨nodes, first (l ++ (a, t) :: r) none, next, address⟩ =
          some ⟨nodes', none, some (stand h place size a t), some (returned h a)⟩ ∧
      Linked h Node.linked nodes' (served h place size (m ++ l) a t r) := by
  rw [List.length_append, List.length_cons] at enough
  obtain ⟨run, linked'⟩ := pass_takes next address positive linked fresh wanted before
    (show l.length < fuel by omega)
  refine ⟨_, run.trans ?_, linked'⟩
  obtain ⟨_, _, tail⟩ := chain_append.mp linked'.chain
  obtain ⟨_, tail⟩ := chain_append.mp tail
  exact pass_none _ (fun _ => none) _ _ tail behind (fun _ _ => (Option.some_ne_none _).symm)
    (by omega)

variable (place address) in
/-- A pass from the start of the list to a block on it, or to its end. -/
theorem pass_until (positive : 0 < h) (pre post : List Block)
    (linked : Linked h Node.linked nodes (pre ++ post))
    (small : ∀ block ∈ pre, ¬ Wanted h size block.2) (there : next = first post none)
    (enough : pre.length < fuel) :
    pass h place size id fuel ⟨nodes, first (pre ++ post) none, next, address⟩ =
      some ⟨nodes, next, next, address⟩ := by
  subst there
  obtain ⟨chain, _⟩ := chain_append.mp linked.chain
  have inside : ∀ block ∈ pre, first post none ≠ some block.1 := by
    intro block member same
    cases post with
    | nil => cases same
    | cons other rest =>
      have equal : other.1 = block.1 := Option.some.inj same
      exact address_ne positive linked.spread block (List.mem_append_left _ member) equal.symm
  rw [first_append]
  exact pass_none place id (first post none) address chain small inside enough

/-- **A pass that has left `_next` behind follows a NULL pointer.** -/
theorem pass_lost (positive : 0 < h) {q : ℤ} {prev : Option ℤ}
    (chain : Chain Node.linked nodes prev l none) (spread : Spread h l)
    (fresh : ∀ block ∈ l, ∀ other ∈ l, Apart h (place block.1 size) other.1)
    (behind : ∀ block ∈ l, block.1 ≠ q) :
    pass h place size id fuel ⟨nodes, first l none, some q, address⟩ = none := by
  induction l generalizing prev fuel nodes q address with
  | nil =>
    cases fuel with
    | zero => rfl
    | succ fuel => rfl
  | cons block after ih =>
    cases fuel with
    | zero => rfl
    | succ fuel =>
      obtain ⟨here, chain⟩ := chain
      obtain ⟨away, spread⟩ := List.pairwise_cons.mp spread
      have load : nodes block.1 = some ⟨first after none, block.2⟩ := here
      have apart : Apart h (place block.1 size) block.1 :=
        fresh block List.mem_cons_self block List.mem_cons_self
      have notLimit : id (some q) ≠ some block.1 := fun same =>
        behind block List.mem_cons_self (Option.some.inj same).symm
      have freshAfter : ∀ x ∈ after, ∀ y ∈ after, Apart h (place x.1 size) y.1 := fun x inX y inY =>
        fresh x (List.mem_cons_of_mem _ inX) y (List.mem_cons_of_mem _ inY)
      have freshHere : ∀ y ∈ after, Apart h (place block.1 size) y.1 := fun y inside =>
        fresh block List.mem_cons_self y (List.mem_cons_of_mem _ inside)
      show pass h place size id (fuel + 1) ⟨nodes, some block.1, some q, address⟩ = none
      by_cases wanted : Wanted h size block.2
      · obtain ⟨v, next⟩ := tried_stand positive apart
        rw [pass_succ notLimit (tryBlock_wanted positive load apart wanted) next]
        refine ih (chain.congr fun y inside =>
          tried_apart positive (away y inside) (freshHere y inside)) spread freshAfter ?_
        intro y inside same
        have apartY : Apart h (stand h place size block.1 block.2) y.1 := by
          unfold stand
          split
          · exact freshHere y inside
          · exact away y inside
        unfold Apart at apartY
        dsimp only at same
        omega
      · rw [pass_succ notLimit (tryBlock_passes load wanted) load]
        exact ih chain spread freshAfter fun y inside => behind y (List.mem_cons_of_mem _ inside)

/-- **The second loop of `next_fit` that takes a block**: it moves `_next` behind its iterator. -/
theorem pass_overtakes (positive : 0 < h) (linked : Linked h Node.linked nodes (l ++ (a, t) :: r))
    (fresh : ∀ block ∈ l ++ (a, t) :: r, ∀ other ∈ l ++ (a, t) :: r,
      Apart h (place block.1 size) other.1)
    (wanted : Wanted h size t) (before : ∀ block ∈ l, ¬ Wanted h size block.2)
    (inside : ∀ block ∈ l ++ [(a, t)], next ≠ some block.1) (enough : l.length < fuel) :
    pass h place size id fuel ⟨nodes, first (l ++ (a, t) :: r) none, next, address⟩ = none := by
  have here : nodes a = some ⟨first r none, t⟩ := linked.load
  have freshHere := fresh (a, t) (by simp)
  have apart : Apart h (place a size) a := freshHere (a, t) (by simp)
  obtain ⟨_, behind⟩ := spread_split linked.spread
  obtain ⟨_, spread, _⟩ := List.pairwise_append.mp linked.spread
  obtain ⟨ahead, _, tail⟩ := chain_append.mp linked.chain
  obtain ⟨v, load⟩ := tried_stand positive apart
  obtain ⟨more, sum⟩ : ∃ more, fuel - l.length = more + 1 := ⟨fuel - l.length - 1, by omega⟩
  rw [first_append, pass_passes ahead before (fun block member => inside block (by simp [member]))
    enough.le, sum]
  show pass h place size id (more + 1) ⟨nodes, some a, next, address⟩ = none
  rw [pass_succ (inside (a, t) (by simp)) (tryBlock_wanted positive here apart wanted) load]
  refine pass_lost positive (tail.congr fun y member => tried_apart positive (behind y member)
    (freshHere y (by simp [member]))) (List.pairwise_cons.mp spread).2
    (fun x inX y inY => fresh x (by simp [inX]) y (by simp [inY])) fun block member => ?_
  exact (stand_ne positive linked.spread freshHere block (List.mem_append_right _ member)).symm

end Passes

/-! ### `best_fit` and `worst_fit` -/

section Choice

variable {better : ℤ → ℤ → Bool}

/-- What the loop does with a block. -/
abbrev prefer (better : ℤ → ℤ → Bool) (size : ℤ) : Option Block → Block → Option Block :=
  keep (fun block : Block => size ≤ block.2) fun x y : Block => better x.2 y.2 = true

/-- The selection that the loop makes. -/
def choice (better : ℤ → ℤ → Bool) (size : ℤ) (blocks : List Block) : Option Block :=
  select (fun block : Block => size ≤ block.2) (fun x y : Block => better x.2 y.2 = true) blocks

/-- **The loop of `best_fit` and `worst_fit` is a selection.** -/
theorem chooseLoop_eq {prev : Option ℤ} {kept : Option Block}
    (chain : Chain Node.linked nodes prev blocks none)
    (known : ∀ block ∈ kept, ∃ next, nodes block.1 = some ⟨next, block.2⟩)
    (enough : blocks.length < fuel) :
    chooseLoop better nodes size fuel (first blocks none) (kept.map Prod.fst) =
      some ((blocks.foldl (prefer better size) kept).map Prod.fst) := by
  induction blocks generalizing prev fuel kept with
  | nil =>
    obtain ⟨more, rfl⟩ := Nat.exists_eq_add_of_lt enough
    rfl
  | cons block behind ih =>
    obtain ⟨here, chain⟩ := chain
    obtain ⟨more, rfl⟩ : ∃ more, fuel = more + 1 := ⟨fuel - 1, by omega⟩
    have short : behind.length < more := by simpa using enough
    have load : nodes block.1 = some ⟨first behind none, block.2⟩ := here
    have knownHere : ∀ other ∈ some block, ∃ next, nodes other.1 = some ⟨next, other.2⟩ := by
      intro other same
      rw [← Option.mem_some.mp same]
      exact ⟨_, load⟩
    rw [List.foldl_cons]
    show chooseLoop better nodes size (more + 1) (some block.1) (kept.map Prod.fst) = _
    rw [chooseLoop, load, Option.bind_eq_bind, Option.bind_some]
    dsimp only
    by_cases fits : size ≤ block.2
    · rw [if_pos fits]
      cases kept with
      | none =>
        -- the first block that is large enough is compared with itself
        have kept_ : prefer better size none block = some block := if_pos ⟨fits, nofun⟩
        simp only [Option.map_none, Option.getD_none, load, Option.bind_some, ite_self, kept_]
        exact ih chain knownHere short
      | some best =>
        obtain ⟨next, loadBest⟩ := known best rfl
        simp only [Option.map_some, Option.getD_some, loadBest, Option.bind_some]
        by_cases takes : better block.2 best.2 = true
        · have kept_ : prefer better size (some best) block = some block :=
            if_pos ⟨fits, fun y same => Option.mem_some.mp same ▸ takes⟩
          rw [if_pos takes, kept_]
          exact ih chain knownHere short
        · have kept_ : prefer better size (some best) block = some best :=
            if_neg fun both => takes (both.2 best rfl)
          rw [if_neg takes, kept_]
          exact ih chain known short
    · have kept_ : prefer better size kept block = kept := if_neg fun both => fits both.1
      rw [if_neg fits, kept_]
      exact ih chain known short

/-- What `best_fit` and `worst_fit` do: they follow a NULL pointer, or take the block chosen. -/
theorem chooseFit_eq (list : Blocks h s blocks) (enough : blocks.length < fuel) :
    chooseFit h place better s fuel size = (choice better size blocks).bind fun block =>
      (take h place s.nodes block.1 size).map fun taken => (taken.1, { s with nodes := taken.2 }) := by
  have loop : chooseLoop better s.nodes size fuel s.memory ((none : Option Block).map Prod.fst) =
      some ((choice better size blocks).map Prod.fst) := by
    rw [list.head]
    exact chooseLoop_eq list.linked.chain nofun enough
  rw [Option.map_none] at loop
  rw [chooseFit, loop, Option.bind_eq_bind, Option.bind_some]
  cases choice better size blocks with
  | none => rfl
  | some block =>
    simp only [Option.map_some, Option.bind_eq_bind, Option.bind_some]
    cases take h place s.nodes block.1 size <;> rfl

/-- A block of just the size of the request is marked used, and the second test then fails. -/
theorem take_exact (asked : 0 < size) {next : Option ℤ} (here : nodes a = some ⟨next, size⟩) :
    take h place nodes a size =
      some (some (returned h a), store h nodes a ⟨next, size * (-1)⟩) := by
  have notLarger : ¬ size < size * (-1) := by omega
  simp only [take, here, Option.bind_eq_bind, Option.bind_some, if_true, modify_eq here,
    Option.map_some, store_self, if_neg notLarger]

/-- A larger block is split. -/
theorem take_larger (positive : 0 < h) (linked : Linked h Node.linked nodes (l ++ (a, t) :: r))
    (fresh : ∀ block ∈ l ++ (a, t) :: r, Apart h (place a size) block.1) (larger : size < t) :
    ∃ nodes', take h place nodes a size = some (some (returned h a), nodes') ∧
      Linked h Node.linked nodes' (l ++ (a, 0 - size) :: (place a size, t - size) :: r) := by
  have here : nodes a = some ⟨first r none, t⟩ := linked.load
  have apart : Apart h (place a size) a := fresh (a, t) (by simp)
  refine ⟨_, ?_, linked.insertSingle single_linked positive fresh (0 - size) (t - size)⟩
  simp only [take, here, Option.bind_eq_bind, Option.bind_some, if_neg larger.ne', if_pos larger,
    split, modify_eq ((store_apart positive apart).trans here), modify_eq store_self, store_store]
  rfl

variable (better) in
/-- A choice there is, if some block is large enough, and it is one of the blocks. -/
theorem choice_some {above : Block → Block → Prop}
    (ranks : Ranks (fun x y : Block => better x.2 y.2 = true) above) {block : Block}
    (member : block ∈ blocks) (fits : size ≤ block.2) :
    ∃ best, choice better size blocks = some best ∧ best ∈ blocks ∧ size ≤ best.2 ∧
      above best block := by
  obtain ⟨best, chosen⟩ : ∃ best, choice better size blocks = some best := by
    refine Option.ne_none_iff_exists'.mp fun none_ => ?_
    exact select_eq_none_iff.mp none_ block member fits
  obtain ⟨inside, large, most⟩ := select_eq_some ranks chosen
  exact ⟨best, chosen, inside, large, most block member fits⟩

theorem ranks_best : Ranks (fun x y : Block => decide (x.2 < y.2) = true)
    fun x y : Block => x.2 ≤ y.2 where
  refl x := le_refl x.2
  trans _ _ _ first second := first.trans second
  taken _ _ taken := (of_decide_eq_true taken).le
  kept _ _ kept := not_lt.mp fun less => kept (decide_eq_true less)

theorem ranks_worst : Ranks (fun x y : Block => decide (y.2 < x.2) = true)
    fun x y : Block => y.2 ≤ x.2 where
  refl x := le_refl x.2
  trans _ _ _ first second := second.trans first
  taken _ _ taken := (of_decide_eq_true taken).le
  kept _ _ kept := not_lt.mp fun less => kept (decide_eq_true less)

end Choice

end MemoryManagement
