/-
**`memory_management.cpp`: the headers that a call visits.**

A pass goes on from the block that it split off, and a second one comes back to it. What it has done to
the header of a block is followed here, without a list of all the headers made in the call.

* `Novel` — headers are objects: those that the call makes overlap none of the list.
* `Closed` — the links lead to headers of the list and to those made in the call; `Closed.tried`: a
  block taken keeps this.
* `pass_keeps` — **what the header of a block has become stays**; `pass_visits` — so does what a pass
  makes of a block that it comes to and wants.
-/

import SistemasOperacionais.MemoryManagement.Requests

namespace MemoryManagement

open Headers Wrap

variable {h size : ℤ} {place : ℤ → ℤ → ℤ} {nodes : Memory Node} {blocks l r : List Block} {a t : ℤ}
  {fuel : ℕ} {address : Option ℤ}

/-! ### Headers of the list and headers made in the call -/

/-- The header at `x` is one of the list, or made in the call behind one that is. -/
def Made (place : ℤ → ℤ → ℤ) (size : ℤ) (blocks : List Block) (x : ℤ) : Prop :=
  ∃ block ∈ blocks, ∃ k : ℕ, x = (fun y => place y size)^[k] block.1

/-- **Headers are objects**: one that the call makes, also behind one it has made, overlaps none of
the list and not the one it is split from. -/
def Novel (h : ℤ) (place : ℤ → ℤ → ℤ) (size : ℤ) (blocks : List Block) : Prop :=
  ∀ x, Made place size blocks x →
    (∀ other ∈ blocks, Apart h (place x size) other.1) ∧ Apart h (place x size) x

theorem made_of_mem {block : Block} (member : block ∈ blocks) : Made place size blocks block.1 :=
  ⟨block, member, 0, rfl⟩

theorem Made.next {x : ℤ} (made : Made place size blocks x) :
    Made place size blocks (place x size) := by
  obtain ⟨block, member, k, rfl⟩ := made
  exact ⟨block, member, k + 1, (Function.iterate_succ_apply' (fun y => place y size) k block.1).symm⟩

/-- The header of a block and another one do not overlap. -/
theorem Novel.apart (novel : Novel h place size blocks) (spread : Spread h blocks) {x : ℤ}
    (made : Made place size blocks x) {other : Block} (member : other ∈ blocks)
    (different : x ≠ other.1) : Apart h x other.1 := by
  obtain ⟨block, inside, k, rfl⟩ := made
  cases k with
  | zero =>
    obtain ⟨l, r, rfl⟩ := List.append_of_mem member
    obtain ⟨before, behind⟩ := spread_split spread
    rcases List.mem_append.mp inside with inLeft | inRight
    · exact (before block inLeft).symm
    · rcases List.mem_cons.mp inRight with rfl | inRight
      · exact absurd rfl different
      · exact (behind block inRight).symm
  | succ k =>
    rw [Function.iterate_succ_apply']
    exact (novel _ ⟨block, inside, k, rfl⟩).1 other member

/-- **The headers that a pass can visit**: `known` has the list, and links do not lead out of it. -/
structure Closed (place : ℤ → ℤ → ℤ) (size : ℤ) (blocks : List Block) (known : ℤ → Prop)
    (nodes : Memory Node) : Prop where
  list : ∀ block ∈ blocks, known block.1
  made : ∀ x, known x → Made place size blocks x
  links : ∀ x node, known x → nodes x = some node → ∀ y ∈ node.next, known y

/-- Those of a list. -/
theorem closed_of_linked {now : List Block} (linked : Linked h Node.linked nodes now)
    (list : ∀ block ∈ blocks, ∃ other ∈ now, block.1 = other.1)
    (made : ∀ block ∈ now, Made place size blocks block.1) :
    Closed place size blocks (fun x => ∃ block ∈ now, x = block.1) nodes where
  list := list
  made := by
    rintro x ⟨block, member, rfl⟩
    exact made block member
  links := by
    rintro x node ⟨block, member, rfl⟩ found
    obtain ⟨next, load, inside⟩ := load_of_linked linked member
    rw [load] at found
    cases found
    exact inside

theorem closed_blocks (linked : Linked h Node.linked nodes blocks) :
    Closed place size blocks (fun x => ∃ block ∈ blocks, x = block.1) nodes :=
  closed_of_linked linked (fun block member => ⟨block, member, rfl⟩) fun _ => made_of_mem

theorem closed_served (linked : Linked h Node.linked nodes (served h place size l a t r)) :
    Closed place size (l ++ (a, t) :: r)
      (fun x => ∃ block ∈ served h place size l a t r, x = block.1) nodes := by
  have self : (a, t) ∈ l ++ (a, t) :: r := List.mem_append_right _ List.mem_cons_self
  have here : Made place size (l ++ (a, t) :: r) a := made_of_mem self
  refine closed_of_linked linked (fun block member => ?_) fun block member => ?_
  · unfold served
    simp only [List.mem_append, List.mem_cons] at member ⊢
    rcases member with inLeft | rfl | inRight
    · exact ⟨block, .inl inLeft, rfl⟩
    · exact ⟨_, .inr (.inl rfl), rfl⟩
    · exact ⟨block, .inr (.inr (.inr inRight)), rfl⟩
  · unfold served rest at member
    simp only [List.mem_append, List.mem_cons, Option.mem_toList] at member
    rcases member with inLeft | rfl | inRest | inRight
    · exact made_of_mem (List.mem_append_left _ inLeft)
    · exact here
    · split at inRest
      · rw [← Option.mem_some.mp inRest]
        exact here.next
      · cases inRest
    · exact made_of_mem (List.mem_append_right _ (List.mem_cons_of_mem _ inRight))

/-- The start of a part of the list is known. -/
theorem Closed.first {known : ℤ → Prop} (closed : Closed place size blocks known nodes)
    (part : ∀ block ∈ l, block ∈ blocks) : ∀ x ∈ first l none, known x := by
  intro x start
  cases l with
  | nil => cases start
  | cons block rest =>
    rw [← Option.mem_some.mp start]
    exact closed.list block (part block List.mem_cons_self)

/-- **A block taken keeps the links inside.** -/
theorem Closed.tried {known : ℤ → Prop} (closed : Closed place size blocks known nodes) {x : ℤ}
    {node : Node} (at_ : known x) (here : nodes x = some node) :
    ∃ known', Closed place size blocks known' (tried h place size nodes x node) ∧
      (∀ y, known y → known' y) ∧ ∀ y ∈ node.next, known' y := by
  refine ⟨fun y => known y ∨ int (size + h) ≤ node.size ∧ y = place x size, ⟨?_, ?_, ?_⟩,
    fun y inside => .inl inside, fun y link => .inl (closed.links x node at_ here y link)⟩
  · exact fun block member => .inl (closed.list block member)
  · rintro y (inside | ⟨-, rfl⟩)
    · exact closed.made y inside
    · exact (closed.made x at_).next
  · intro y now inside load z follows
    unfold MemoryManagement.tried link store at load
    split at load
    · -- the block itself
      cases load
      dsimp only at follows
      split at follows
      · exact .inr ⟨‹_›, (Option.mem_some.mp follows).symm⟩
      · exact .inl (closed.links x node at_ here z follows)
    · split at load
      · cases load
      · split at load
        · dsimp only at load
          split at load
          · -- the block split off
            cases load
            exact .inl (closed.links x node at_ here z follows)
          · split at load
            · cases load
            · rename_i other _
              exact .inl (closed.links y now (inside.resolve_right fun both => other both.2) load z
                follows)
        · rename_i whole
          exact .inl (closed.links y now (inside.resolve_right fun both => whole both.1) load z follows)

/-! ### What a pass leaves -/

section Keeps

variable {limit : Option ℤ → Option ℤ} {next : Option ℤ} {known : ℤ → Prop} {b : Block} {p : Pass}
  {P : Node → Prop} (positive : 0 < h) (spread : Spread h blocks) (novel : Novel h place size blocks)
  (stable : ∀ node, P node → Wanted h size node.size →
    P ⟨link h place size b.1 node.size node.next, taken h size node.size⟩)

include positive spread novel stable

/-- **What the header of a block has become stays**, if a block taken keeps it. -/
theorem pass_keeps (member : b ∈ blocks) {iterator : Option ℤ}
    (closed : Closed place size blocks known nodes) (at_ : ∀ x ∈ iterator, known x)
    (here : ∃ node, nodes b.1 = some node ∧ P node)
    (run : pass h place size limit fuel ⟨nodes, iterator, next, address⟩ = some p) :
    (∃ known', Closed place size blocks known' p.nodes) ∧
      ∃ node, p.nodes b.1 = some node ∧ P node := by
  induction fuel generalizing known nodes iterator next address with
  | zero => cases run
  | succ fuel ih =>
    by_cases ends : iterator = limit next
    · rw [pass, if_pos ends] at run
      cases run
      exact ⟨⟨known, closed⟩, here⟩
    · obtain ⟨x, rfl⟩ : ∃ x, iterator = some x := by
        refine Option.ne_none_iff_exists'.mp fun none => ?_
        rw [pass, if_neg ends, none] at run
        cases run
      have made := closed.made x (at_ x rfl)
      obtain ⟨away, apart⟩ := novel x made
      cases load : nodes x with
      | none =>
        simp only [pass, if_neg ends, tryBlock, load, Option.bind_eq_bind, Option.bind_some,
          Option.bind_none] at run
        cases run
      | some node =>
        by_cases wanted : Wanted h size node.size
        · obtain ⟨v, next_⟩ := tried_stand positive apart
          rw [pass_succ (Ne.symm ends) (tryBlock_wanted positive load apart wanted) next_] at run
          obtain ⟨known', closed', more, follows⟩ := closed.tried (at_ x rfl) load
          refine ih closed' follows ?_ run
          obtain ⟨own, found, holds⟩ := here
          by_cases same : x = b.1
          · subst same
            rw [load] at found
            cases found
            exact ⟨_, tried_self, stable node holds wanted⟩
          · rw [tried_apart positive (novel.apart spread made member same) (away b member)]
            exact ⟨own, found, holds⟩
        · rw [pass_succ (Ne.symm ends) (tryBlock_passes load wanted) load] at run
          exact ih closed (closed.links x node (at_ x rfl) load) here run

/-- **A block that a pass comes to and wants is taken**, and what it has become stays. -/
theorem pass_visits (member : b ∈ blocks) (closed : Closed place size blocks known nodes)
    {prev behind : Option ℤ} (chain : Chain Node.linked nodes prev (l ++ b :: r) behind)
    (before : ∀ block ∈ l, ¬ Wanted h size block.2) (wanted : Wanted h size b.2)
    (inside : ∀ block ∈ l ++ [b], limit next ≠ some block.1) (enough : l.length < fuel)
    (becomes : P ⟨link h place size b.1 b.2 (first r behind), taken h size b.2⟩)
    (run : pass h place size limit fuel ⟨nodes, first (l ++ b :: r) behind, next, address⟩ = some p) :
    (∃ known', Closed place size blocks known' p.nodes) ∧
      ∃ node, p.nodes b.1 = some node ∧ P node := by
  obtain ⟨ahead, load, _⟩ := chain_append.mp chain
  obtain ⟨_, apart⟩ := novel b.1 (made_of_mem member)
  obtain ⟨v, next_⟩ := tried_stand positive apart
  rw [first_append, pass_passes ahead before (fun block member => inside block (by simp [member]))
    enough.le] at run
  obtain ⟨more, sum⟩ : ∃ more, fuel - l.length = more + 1 := ⟨fuel - l.length - 1, by omega⟩
  rw [sum] at run
  change pass h place size limit (more + 1) ⟨nodes, some b.1, next, address⟩ = some p at run
  rw [pass_succ (inside b (by simp)) (tryBlock_wanted positive load apart wanted) next_] at run
  obtain ⟨known', closed', _, follows⟩ := closed.tried (closed.list b member) load
  exact pass_keeps positive spread novel stable member closed' follows ⟨_, tried_self, becomes⟩ run

end Keeps

end MemoryManagement
