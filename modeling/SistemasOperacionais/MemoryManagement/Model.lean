/-
**`memory_management.cpp`: the functions.**

Four strategies over one singly linked list of `struct memory` headers; `size` is positive while a
block is free and negative while it is used. `first_fit` and `next_fit` do not leave their loops when
they have taken a block: the iterator moves to the block split off, or stays at the one taken, and the
pass goes on from there. `best_fit` and `worst_fit` choose a block first; they read the block chosen
also when there is none. `_size` and the size of the block that `first_fit` and `next_fit` split off are
computed with `sizeof` and converted to `int`; `_size` of a large request is negative.

* `tryBlock` — the body of the three loops of `first_fit` and `next_fit`, and `pass` such a loop.
* `chooseLoop` — the loop of `best_fit` and `worst_fit`, and `take` what they do with their choice.
* `beginMemory`, `showMemory`, `firstFit`, `nextFit`, `bestFit`, `worstFit` — the functions of the
  source. The loops take a bound on their passes; `none` is undefined or out of passes.
* `place` — where `iterator + sizeof(struct memory) + size` points. It is a parameter of the
  strategies; `placeBytes` is the address the code computes.
-/

import SistemasOperacionais.Data.Headers
import SistemasOperacionais.Data.Wrap

namespace MemoryManagement

open Headers Wrap

/-- `struct memory` -/
structure Node where
  next : Option ℤ
  size : ℤ
  deriving DecidableEq, Repr

/-- The constructor in the order data, next, previous; there is no link back. -/
def Node.linked (size : ℤ) (next _ : Option ℤ) : Node := ⟨next, size⟩

/-- `memory_size` -/
def memorySize : ℤ := 256

/-- The headers in memory, and the global pointers `_memory` and `_next`. -/
structure State where
  nodes : Memory Node
  memory : Option ℤ
  next : Option ℤ

/-- A line of `show_memory`. -/
inductive Line
  | available (size : ℤ)
  | used (size : ℤ)
  deriving DecidableEq, Repr

/-- What `show_memory` prints for a block. -/
def Line.ofSize (size : ℤ) : Line := if 0 < size then .available size else .used (0 - size)

/-- `show_memory` -/
def showMemory (s : State) (fuel : ℕ) : Option (List Line) :=
  (walk Node.next s.nodes fuel s.memory).map (·.map fun node => Line.ofSize node.2.size)

section

variable (h : ℤ)

/-- `begin_memory`, where `malloc` returns `base`. -/
def beginMemory (base : ℤ) : State where
  nodes := store h (fun _ => none) base ⟨none, memorySize - h⟩
  memory := some base
  next := none

/-- Where `iterator + sizeof(struct memory) + size` points, counted in headers. -/
def placeBytes (iterator size : ℤ) : ℤ := iterator + (h + size) * h

/-- Where `previous + sizeof(struct memory)` points: the address that is returned. -/
def returned (previous : ℤ) : ℤ := previous + h * h

variable (place : ℤ → ℤ → ℤ)

/-- The split of the block at `previous`: the new header takes its link and the bytes left, and the
block itself is marked used. `rest` is what the source computes for the new header. -/
def split (nodes : Memory Node) (previous size : ℤ) (rest : ℤ → ℤ) : Option (Memory Node) := do
  let node ← nodes previous
  let iterator := place previous size
  let nodes := store h nodes iterator ⟨node.next, rest node.size⟩
  let nodes ← modify h nodes previous fun node => { node with next := some iterator }
  modify h nodes previous fun node => { node with size := 0 - size }

/-- The body of the loops of `first_fit` and `next_fit`: the address to return if the block is taken,
the place of the iterator after it, and the headers. -/
def tryBlock (nodes : Memory Node) (iterator size : ℤ) :
    Option (Option ℤ × ℤ × Memory Node) := do
  let node ← nodes iterator
  if int (size + h) ≤ node.size then
    let nodes ← split h place nodes iterator size fun previous => int (previous - size - h)
    some (some (returned h iterator), place iterator size, nodes)
  else if size < node.size then
    let nodes ← modify h nodes iterator fun node => { node with size := node.size * (-1) }
    some (some (returned h iterator), iterator, nodes)
  else some (none, iterator, nodes)

/-- The variables of a pass; `next` is the iterator at the last block taken. -/
structure Pass where
  nodes : Memory Node
  iterator : Option ℤ
  next : Option ℤ
  address : Option ℤ

/-- A loop of `first_fit` or `next_fit`: until the iterator is at the `limit`, which may depend on
`_next`. A NULL iterator that is not at the limit is followed. -/
def pass (size : ℤ) (limit : Option ℤ → Option ℤ) : ℕ → Pass → Option Pass
  | 0, _ => none
  | fuel + 1, p =>
      if p.iterator = limit p.next then some p
      else do
        let iterator ← p.iterator
        let (taken, iterator, nodes) ← tryBlock h place p.nodes iterator size
        let node ← nodes iterator
        let next := if taken = none then p.next else some iterator
        pass size limit fuel ⟨nodes, node.next, next, taken.or p.address⟩

/-- `first_fit` -/
def firstFit (s : State) (fuel : ℕ) (size : ℤ) : Option (Option ℤ × State) := do
  let p ← pass h place size (fun _ => none) fuel ⟨s.nodes, s.memory, none, none⟩
  some (p.address, { s with nodes := p.nodes })

/-- `next_fit`: a pass from `_next` to the end, and one from the start to `_next`. -/
def nextFit (s : State) (fuel : ℕ) (size : ℤ) : Option (Option ℤ × State) := do
  let start := if s.next = none then s.memory else s.next
  let p ← pass h place size (fun _ => none) fuel ⟨s.nodes, start, s.next, none⟩
  let p ← pass h place size id fuel { p with iterator := s.memory }
  some (p.address, { s with nodes := p.nodes, next := p.next })

/-- The loop of `best_fit` and `worst_fit`, with the block chosen so far; `better` compares the size
of a block with that of the one chosen. -/
def chooseLoop (better : ℤ → ℤ → Bool) (nodes : Memory Node) (size : ℤ) :
    ℕ → Option ℤ → Option ℤ → Option (Option ℤ)
  | 0, _, _ => none
  | _ + 1, none, chosen => some chosen
  | fuel + 1, some iterator, chosen => do
      let node ← nodes iterator
      if size ≤ node.size then
        let first := chosen.getD iterator
        let chosenNode ← nodes first
        let chosen := if better node.size chosenNode.size then iterator else first
        chooseLoop better nodes size fuel node.next (some chosen)
      else chooseLoop better nodes size fuel node.next chosen

/-- `if (best->size == size)` and then `if (best->size > size)`. The header of the rest is not
subtracted from its size. -/
def take (nodes : Memory Node) (chosen size : ℤ) : Option (Option ℤ × Memory Node) := do
  let node ← nodes chosen
  let (address, nodes) ← if node.size = size then
      (modify h nodes chosen fun node => { node with size := node.size * (-1) }).map
        fun nodes => (some (returned h chosen), nodes)
    else some (none, nodes)
  let node ← nodes chosen
  if size < node.size then
    let nodes ← split h place nodes chosen size fun next => next - size
    some (some (returned h chosen), nodes)
  else some (address, nodes)

/-- What `best_fit` and `worst_fit` have in common: the block chosen is read, also if it is NULL. -/
def chooseFit (better : ℤ → ℤ → Bool) (s : State) (fuel : ℕ) (size : ℤ) :
    Option (Option ℤ × State) := do
  let chosen ← chooseLoop better s.nodes size fuel s.memory none
  let chosen ← chosen
  let (address, nodes) ← take h place s.nodes chosen size
  some (address, { s with nodes := nodes })

/-- `best_fit` -/
def bestFit : State → ℕ → ℤ → Option (Option ℤ × State) :=
  chooseFit h place fun size best => decide (size < best)

/-- `worst_fit` -/
def worstFit : State → ℕ → ℤ → Option (Option ℤ × State) :=
  chooseFit h place fun size worst => decide (worst < size)

end

end MemoryManagement
