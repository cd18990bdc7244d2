/-
**`memory_management_unity.c`: the functions.**

A first-fit allocator over one doubly linked list of `struct hole` headers inside the memory it
hands out. `tam` is the number of payload bytes, negative while the block is allocated. `tam` and
`hole_size` are `int`: their sums and differences are taken modulo `2 ^ 32` (`Wrap.int`). Pointer
arithmetic is on `void *`, in bytes; the size of a header is a parameter.

* `inicializaMemoria`, `meuAloca`, `meuDesaloca`, `imprime` — the functions of the source, over the
  headers in memory. `none` is undefined: a header that is not there is read, or a loop does not
  end. `hole_list` is assigned once, by `inicializaMemoria`.
* `scan` — the loop of `meu_aloca` up to the block at which one of its two tests succeeds; `serve` —
  what it does with that block.
-/

import SistemasOperacionais.Data.Headers
import SistemasOperacionais.Data.Wrap

namespace Unity

open Headers Wrap

/-- `struct hole` -/
structure Hole where
  tam : ℤ
  next : Option ℤ
  prev : Option ℤ
  deriving DecidableEq, Repr

section

variable (holeSize : ℤ)

/-- `inicializa_memoria`, where `malloc` returns `base`; `hole_list` is `base` from here on. -/
def inicializaMemoria (base size : ℤ) : Memory Hole :=
  let size := if size < holeSize then int (holeSize + size) else size
  store holeSize (fun _ => none) base ⟨int (size - holeSize), none, none⟩

/-- The joining of two neighbours in `meu_desaloca`: `keep` gets the sum of the two `tam` and the
link of `gone`, and the block behind is pointed back to it. -/
def absorb (memory : Memory Hole) (keep gone : ℤ) (soma : ℤ → ℤ → ℤ) : Option (Memory Hole) := do
  let taken ← memory gone
  let memory ← modify holeSize memory keep fun hole => { hole with tam := soma hole.tam taken.tam }
  let memory ← modify holeSize memory keep fun hole => { hole with next := taken.next }
  match taken.next with
  | none => some memory
  | some after => modify holeSize memory after fun hole => { hole with prev := some keep }

/-- `current_hole->tam + hole_size + next_hole->tam` -/
def somaNext (current next : ℤ) : ℤ := int (int (current + holeSize) + next)

/-- `prev_hole->tam + current_hole->tam + hole_size` -/
def somaPrev (prev current : ℤ) : ℤ := int (int (prev + current) + holeSize)

/-- `if(next_hole != NULL) if(next_hole->tam > 0)` -/
def joinNext (memory : Memory Hole) (current : ℤ) : Option ℤ → Option (Memory Hole)
  | none => some memory
  | some next => do
      let nextHole ← memory next
      if 0 < nextHole.tam then absorb holeSize memory current next (somaNext holeSize)
      else some memory

/-- `if(prev_hole != NULL) if(prev_hole->tam > 0)` -/
def joinPrev (memory : Memory Hole) (current : ℤ) : Option ℤ → Option (Memory Hole)
  | none => some memory
  | some prev => do
      let prevHole ← memory prev
      if 0 < prevHole.tam then absorb holeSize memory prev current (somaPrev holeSize)
      else some memory

/-- `meu_desaloca` -/
def meuDesaloca (memory : Memory Hole) (p : ℤ) : Option (Memory Hole) := do
  let current := p - holeSize
  let hole ← memory current
  let memory ← modify holeSize memory current fun hole => { hole with tam := int ((-1) * hole.tam) }
  let memory ← joinNext holeSize memory current hole.next
  joinPrev holeSize memory current hole.prev

/-- The loop of `meu_aloca`: the first block that fits exactly or can be split. -/
def scan (memory : Memory Hole) (size : ℤ) : ℕ → Option ℤ → Option (Option ℤ)
  | 0, _ => none
  | _ + 1, none => some none
  | fuel + 1, some current => do
      let hole ← memory current
      if hole.tam = size ∨ int (size + holeSize) < hole.tam then some (some current)
      else scan memory size fuel hole.next

/-- The split in `meu_aloca`: the new header goes to the place computed from the hole's address,
its `tam` and the size asked for. -/
def split (memory : Memory Hole) (prevHole : ℤ) (hole : Hole) (size : ℤ) :
    Option (ℤ × Memory Hole) := do
  let aux := prevHole + hole.tam - size - holeSize
  let memory := store holeSize memory aux ⟨int (-size), hole.next, some prevHole⟩
  let memory ← modify holeSize memory prevHole fun prev => { prev with next := some aux }
  let memory ← modify holeSize memory prevHole fun prev =>
    { prev with tam := int (int (prev.tam - size) - holeSize) }
  let memory ← match hole.next with
    | none => some memory
    | some next => modify holeSize memory next fun nextHole => { nextHole with prev := some aux }
  some (aux + holeSize, memory)

/-- What `meu_aloca` does with the block at which its loop stops: a block of the size asked for is
marked used, another one is split. -/
def serve (memory : Memory Hole) (size current : ℤ) : Option (Option ℤ × Memory Hole) := do
  let hole ← memory current
  if hole.tam = size then
    let memory ← modify holeSize memory current fun hole =>
      { hole with tam := int ((-1) * hole.tam) }
    some (some (current + holeSize), memory)
  else
    let (p, memory) ← split holeSize memory current hole size
    some (some p, memory)

/-- `meu_aloca` -/
def meuAloca (memory : Memory Hole) (holeList : Option ℤ) (fuel : ℕ) (size : ℤ) :
    Option (Option ℤ × Memory Hole) := do
  match ← scan holeSize memory size fuel holeList with
  | none => some (none, memory)
  | some current => serve holeSize memory size current

end

/-- `imprime`: the address and the fields of every block, in list order. -/
def imprime (memory : Memory Hole) (holeList : Option ℤ) (fuel : ℕ) : Option (List (ℤ × Hole)) :=
  walk Hole.next memory fuel holeList

end Unity
