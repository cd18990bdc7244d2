/-
**`minix.c`: the table of holes.**

The memory that is not in use is a list of holes in order of their address. Its entries are slots of
a table of `NR_HOLES`; the unused slots are a second list through the same link field. `n` is the
size of the table. `phys_clicks` is unsigned; clicks are natural numbers here, because the sums of
the code, `h_base + clicks`, `h_base + h_len` and `h_len + h_len`, are at most the end of the memory
(`holes_below` of `Minix.Clicks`).

* `delSlot`, `allocMem`, `merge`, `freeMem`, `maxHole`, `memInit` — the functions of the source over
  the table. The loops take a bound on their rounds, one more than there are slots.
* `Stop` — what ends the memory manager: its two panics, and what is not defined (a `prev_ptr` never
  assigned, a list without an end), which does not happen.
* `Label`, `next` — the calls. `Allocated` — a caller frees only memory in which there is no hole.
-/

import SistemasOperacionais.Runs.Reach
import Mathlib.Data.Fin.Basic
import Mathlib.Logic.Function.Basic

namespace Minix

/-- `struct hole` -/
structure Hole (n : ℕ) where
  hBase : ℕ
  hLen : ℕ
  hNext : Option (Fin n)

/-- The table, `hole_head` and `free_slots`. -/
structure Memory (n : ℕ) where
  hole : Fin n → Hole n
  holeHead : Option (Fin n)
  freeSlots : Option (Fin n)

inductive Stop
  /-- `panic("Hole table full", NO_NUM)` -/
  | holeTableFull
  /-- `panic("bad SYS_MEM?", NO_NUM)` -/
  | badSysMem
  | undefined
  deriving DecidableEq

variable {n : ℕ}

def Memory.set (m : Memory n) (i : Fin n) (hole : Hole n) : Memory n :=
  { m with hole := Function.update m.hole i hole }

/-- `del_slot`; `prevPtr` is looked at only if `hp` is not the first hole. -/
def delSlot (m : Memory n) (prevPtr : Option (Fin n)) (hp : Fin n) : Except Stop (Memory n) := do
  let m ←
    if m.holeHead = some hp then pure { m with holeHead := (m.hole hp).hNext }
    else match prevPtr with
      | some prev => pure (m.set prev { m.hole prev with hNext := (m.hole hp).hNext })
      | none => throw .undefined
  pure { m.set hp { m.hole hp with hNext := m.freeSlots } with freeSlots := some hp }

/-- The loop of `alloc_mem`. -/
def allocLoop (clicks : ℕ) :
    ℕ → Memory n → Option (Fin n) → Option (Fin n) → Except Stop (Option ℕ × Memory n)
  | 0, _, _, _ => .error .undefined
  | _ + 1, m, _, none => .ok (none, m)
  | fuel + 1, m, prevPtr, some hp =>
      let h := m.hole hp
      if clicks ≤ h.hLen then
        let m := m.set hp { h with hBase := h.hBase + clicks, hLen := h.hLen - clicks }
        if h.hLen - clicks ≠ 0 then .ok (some h.hBase, m)
        else do
          let m ← delSlot m prevPtr hp
          .ok (some h.hBase, m)
      else allocLoop clicks fuel m (some hp) h.hNext

/-- `alloc_mem`; `none` is `NO_MEM`. -/
def allocMem (m : Memory n) (clicks : ℕ) : Except Stop (Option ℕ × Memory n) :=
  allocLoop clicks (n + 1) m none m.holeHead

/-- `hp->h_base + hp->h_len == next_ptr->h_base` -/
def Touch (m : Memory n) (hp nextPtr : Fin n) : Prop :=
  (m.hole hp).hBase + (m.hole hp).hLen = (m.hole nextPtr).hBase

instance (m : Memory n) (hp nextPtr : Fin n) : Decidable (Touch m hp nextPtr) :=
  inferInstanceAs (Decidable (_ = _))

/-- `hp->h_len += next_ptr->h_len; del_slot(hp, next_ptr);` -/
def absorb (m : Memory n) (hp nextPtr : Fin n) : Except Stop (Memory n) :=
  let m := m.set hp
    { m.hole hp with hLen := (m.hole hp).hLen + (m.hole nextPtr).hLen }
  delSlot m (some hp) nextPtr

/-- `merge` -/
def merge (m : Memory n) (hp : Fin n) : Except Stop (Memory n) :=
  match (m.hole hp).hNext with
  | none => .ok m
  | some nextPtr => do
      let (m, hp) ←
        if Touch m hp nextPtr then do
          let m ← absorb m hp nextPtr
          pure (m, hp)
        else pure (m, nextPtr)
      match (m.hole hp).hNext with
      | none => .ok m
      | some nextPtr => if Touch m hp nextPtr then absorb m hp nextPtr else .ok m

/-- The loop of `free_mem`, which returns `prev_ptr`. -/
def freeLoop (m : Memory n) (base : ℕ) :
    ℕ → Option (Fin n) → Option (Fin n) → Except Stop (Option (Fin n))
  | 0, _, _ => .error .undefined
  | _ + 1, prevPtr, none => .ok prevPtr
  | fuel + 1, prevPtr, some hp =>
      if base > (m.hole hp).hBase then freeLoop m base fuel (some hp) (m.hole hp).hNext
      else .ok prevPtr

/-- `hp == NIL_HOLE || base <= hp->h_base` -/
def goesFirst (m : Memory n) (base : ℕ) : Bool :=
  m.holeHead.all fun hp => base ≤ (m.hole hp).hBase

/-- `free_mem` -/
def freeMem (m : Memory n) (base clicks : ℕ) : Except Stop (Memory n) :=
  if clicks = 0 then .ok m
  else match m.freeSlots with
    | none => .error .holeTableFull
    | some newPtr => do
        let m :=
          { m.set newPtr { m.hole newPtr with hBase := base, hLen := clicks } with
            freeSlots := (m.hole newPtr).hNext }
        if goesFirst m base then
          let m :=
            { m.set newPtr { m.hole newPtr with hNext := m.holeHead } with holeHead := some newPtr }
          merge m newPtr
        else
          match ← freeLoop m base (n + 1) none m.holeHead with
          | none => .error .undefined
          | some prev =>
              let m := m.set newPtr { m.hole newPtr with hNext := (m.hole prev).hNext }
              let m := m.set prev { m.hole prev with hNext := some newPtr }
              merge m prev

/-- The loop of `max_hole`. -/
def maxLoop (m : Memory n) : ℕ → Option (Fin n) → ℕ → Except Stop ℕ
  | 0, _, _ => .error .undefined
  | _ + 1, none, max => .ok max
  | fuel + 1, some hp, max =>
      maxLoop m fuel (m.hole hp).hNext (if (m.hole hp).hLen > max then (m.hole hp).hLen else max)

/-- `max_hole` -/
def maxHole (m : Memory n) : Except Stop ℕ := maxLoop m (n + 1) m.holeHead 0

/-- All slots in the list of unused ones; the table is static and starts as zeros. -/
def clear (n : ℕ) : Memory n where
  hole := fun i => ⟨0, 0, if inside : i + 1 < n then some ⟨i + 1, inside⟩ else none⟩
  holeHead := none
  freeSlots := if inside : 0 < n then some ⟨0, inside⟩ else none

/-- The answer of the kernel to `SYS_MEM`: `m1_i1`, `m1_i2` and `m1_i3`. -/
structure Reply where
  base : ℕ
  size : ℕ
  total : ℕ

/-- The loop of `mem_init`, with `*total`, which is not assigned at first, and `*free`. When there
is no further answer, `sendrec` fails. -/
def initLoop : List Reply → Memory n → Option ℕ → ℕ → Except Stop (Memory n × Option ℕ × ℕ)
  | [], _, _, _ => .error .badSysMem
  | reply :: replies, m, total, free =>
      if reply.size = 0 then .ok (m, total, free)
      else do
        let m ← freeMem m reply.base reply.size
        initLoop replies m (some reply.total) (free + reply.size)

/-- `mem_init` -/
def memInit (n : ℕ) (replies : List Reply) : Except Stop (Memory n × Option ℕ × ℕ) :=
  initLoop replies (clear n) none 0

/-! ### Runs -/

/-- The holes from a slot on, as far as `fuel` goes. -/
def walk (m : Memory n) : ℕ → Option (Fin n) → List (ℕ × ℕ)
  | 0, _ => []
  | _ + 1, none => []
  | fuel + 1, some hp => ((m.hole hp).hBase, (m.hole hp).hLen) :: walk m fuel (m.hole hp).hNext

/-- The holes. -/
def holes (m : Memory n) : List (ℕ × ℕ) := walk m n m.holeHead

/-- A call. -/
inductive Label
  | allocMem (clicks : ℕ)
  | freeMem (base clicks : ℕ)

/-- What a call leaves; none if it stops the memory manager. -/
def next (m : Memory n) : Label → Option (Memory n)
  | .allocMem clicks => (allocMem m clicks).toOption.map Prod.snd
  | .freeMem base clicks => (freeMem m base clicks).toOption

/-- **A caller frees only memory in which there is no hole.** -/
def Allocated (m : Memory n) : Label → Prop
  | .allocMem _ => True
  | .freeMem base clicks => clicks = 0 ∨ ∀ h ∈ holes m, base + clicks ≤ h.1 ∨ h.1 + h.2 ≤ base

instance (m : Memory n) : DecidablePred (Allocated m)
  | .allocMem _ => inferInstanceAs (Decidable True)
  | .freeMem base clicks =>
      inferInstanceAs
        (Decidable (clicks = 0 ∨ ∀ h ∈ holes m, base + clicks ≤ h.1 ∨ h.1 + h.2 ≤ base))

end Minix
