/-
**xv6 `bio.c`: the buffer cache as a store of blocks.**

The buffers are in a circular list in the order of their last `brelse`. `bget` looks for the block
from the front and, if it is not there, recycles from the end the first buffer that is neither busy
nor dirty. `iderw` is the disk driver of `memide.c`: one disk, device 1, of `disksize` blocks.

* `bget`, `iderw`, `brelse` — the functions; `Label`, `next` — the calls of the processes. A
  process uses only buffers that `bget` has returned to it and that it has not released: `owner`,
  which is not a variable of the code, is that process.
* `Match` — the list has every buffer, no block is in two of them, and a buffer that is not dirty is
  what the disk holds. A buffer that was read is for a block of the disk, so that `iderw` panics
  for no block that is written.
* `bcache_refines` — **the cache is a store of blocks with one user at a time for each**: whatever
  is recycled, a process that has a block finds there what was last written to it.
* `one_buffer_per_block` — **no block is in two buffers**, so that no two processes have it.
* `pinned_panics` — with `NBUF` blocks pinned by `log_write` any other block panics. `LOGSIZE` is
  `NBUF`: a transaction that fills the log cannot be copied to the log.
-/

import SistemasOperacionais.Runs.Refine
import SistemasOperacionais.Runs.Lease
import SistemasOperacionais.Data.Links
import SistemasOperacionais.Xv6.Log
import Mathlib.Data.List.FinRange
import Mathlib.Data.Fintype.Card

set_option linter.unusedSectionVars false

namespace Xv6

namespace Bio

open Transition DoublyLinked

/-- `struct buf`; the flags are its bits. -/
structure Buf where
  busy : Bool
  valid : Bool
  dirty : Bool
  dev : ℕ
  blockno : ℕ
  data : Block

/-- The device of a buffer that was never used, `-1`. -/
def noDev : ℕ := 0xffffffff

/-- The block that a buffer is for. -/
def Buf.key (buf : Buf) : ℕ × ℕ := (buf.dev, buf.blockno)

/-- `bcache`, with `n` buffers, and the disk. -/
structure State (ι : Type) (n : ℕ) where
  buf : Fin n → Buf
  links : Links (Fin n)
  disk : ℕ × ℕ → Block
  disksize : ℕ
  panic : Bool
  owner : Fin n → Option ι

variable {ι : Type} [DecidableEq ι] {n : ℕ}

def State.setBuf (s : State ι n) (b : Fin n) (buf : Buf) : State ι n :=
  { s with buf := Function.update s.buf b buf }

/-- `binit`: every buffer is put in at the front. -/
def binit (n : ℕ) : Links (Fin n) :=
  (List.finRange n).foldl pushFront ⟨fun _ => none, fun _ => none⟩

/-- A machine that is switched on. -/
def start (disk : ℕ × ℕ → Block) (disksize : ℕ) : State ι n where
  buf := fun _ => ⟨false, false, false, noDev, 0, fun _ => 0⟩
  links := binit n
  disk := disk
  disksize := disksize
  panic := false
  owner := fun _ => none

/-- Is the block already cached? -/
def cached (s : State ι n) (key : ℕ × ℕ) : Option (Fin n) :=
  seek s.links.next (fun b => (s.buf b).key = key) (n + 1) (s.links.next none)

/-- Some non-busy and clean buffer, from the end of the list. -/
def victim (s : State ι n) : Option (Fin n) :=
  seek s.links.prev (fun b => !(s.buf b).busy && !(s.buf b).dirty) (n + 1) (s.links.prev none)

/-- `bget`; it sleeps while another process has the buffer. -/
def bget (s : State ι n) (p : ι) (key : ℕ × ℕ) : Option (State ι n) :=
  match cached s key with
  | some b =>
      if (s.buf b).busy then none
      else some { s.setBuf b { s.buf b with busy := true } with
        owner := Function.update s.owner b (some p) }
  | none =>
      match victim s with
      | some b => some { s.setBuf b ⟨true, false, false, key.1, key.2, (s.buf b).data⟩ with
          owner := Function.update s.owner b (some p) }
      -- `panic("bget: no buffers")`
      | none => some { s with panic := true }

/-- `iderw`: a dirty buffer is written, another one is read. -/
def iderw (s : State ι n) (b : Fin n) : State ι n :=
  let buf := s.buf b
  if !buf.busy || (buf.valid && !buf.dirty) then { s with panic := true }
  -- `panic("iderw: request not for disk 1")`, `panic("iderw: block out of range")`
  else if buf.dev ≠ 1 ∨ s.disksize ≤ buf.blockno then { s with panic := true }
  else if buf.dirty then
    { s.setBuf b { buf with dirty := false, valid := true } with
      disk := Function.update s.disk buf.key buf.data }
  else s.setBuf b { buf with data := s.disk buf.key, valid := true }

/-- `bwrite`. -/
def bwrite (s : State ι n) (b : Fin n) : State ι n :=
  if !(s.buf b).busy then { s with panic := true }
  else iderw (s.setBuf b { s.buf b with dirty := true }) b

/-- `brelse`: to the front of the list. -/
def brelse (s : State ι n) (b : Fin n) : State ι n :=
  if !(s.buf b).busy then { s with panic := true }
  else { s.setBuf b { s.buf b with busy := false } with
    links := pushFront (unlink s.links b) b
    owner := Function.update s.owner b none }

inductive Label (ι : Type) (n : ℕ)
  /-- `bread`, up to the return of `bget` -/
  | bget (p : ι) (key : ℕ × ℕ)
  /-- `bread`: `if(!(b->flags & B_VALID)) iderw(b)` -/
  | fill (p : ι) (b : Fin n)
  /-- a change of the data, and `log_write` -/
  | logWrite (p : ι) (b : Fin n) (data : Block)
  /-- a change of the data, and `bwrite` -/
  | bwrite (p : ι) (b : Fin n) (data : Block)
  | brelse (p : ι) (b : Fin n)

/-- **One call of a process.** -/
def next (s : State ι n) : Label ι n → Option (State ι n)
  | .bget p key => if s.panic then none else bget s p key
  | .fill p b =>
      if s.panic = false ∧ s.owner b = some p ∧ (s.buf b).valid = false then some (iderw s b)
      else none
  | .logWrite p b data =>
      if s.panic = false ∧ s.owner b = some p ∧ (s.buf b).valid = true then
        some (s.setBuf b { s.buf b with data := data, dirty := true })
      else none
  | .bwrite p b data =>
      if s.panic = false ∧ s.owner b = some p ∧ (s.buf b).valid = true then
        some (Bio.bwrite (s.setBuf b { s.buf b with data := data }) b)
      else none
  | .brelse p b =>
      if s.panic = false ∧ s.owner b = some p ∧ (s.buf b).valid = true then some (Bio.brelse s b)
      else none

/-- The blocks asked for are on a device. -/
def OnDevice (_ : State ι n) : Label ι n → Prop
  | .bget _ key => key.1 ≠ noDev
  | _ => True

instance (s : State ι n) : DecidablePred (OnDevice s)
  | .bget _ key => inferInstanceAs (Decidable (key.1 ≠ noDev))
  | .fill _ _ | .logWrite _ _ _ | .bwrite _ _ _ | .brelse _ _ => inferInstanceAs (Decidable True)

/-- The events of the calls; a `bget` that panics is none. -/
def seen (s : State ι n) : Label ι n → Option (Lease.Event ι (ℕ × ℕ) Block)
  | .bget p key => if cached s key = none ∧ victim s = none then none else some (.takes p key)
  | .fill _ _ => none
  | .logWrite p b data => some (.writes p (s.buf b).key data)
  | .bwrite p b data => some (.writes p (s.buf b).key data)
  | .brelse p b => some (.gives p (s.buf b).key)

/-! ### The relation to the store -/

/-- A block of the disk. -/
def OnDisk (disksize : ℕ) (key : ℕ × ℕ) : Prop := key.1 = 1 ∧ key.2 < disksize

/-- **The cache and the store of blocks.** -/
structure Match (s : State ι n) (store : Lease.Store ι (ℕ × ℕ) Block) : Prop where
  ring : ∃ l, Ring s.links l ∧ ∀ b, b ∈ l
  unique : ∀ b c, (s.buf b).dev ≠ noDev → (s.buf b).key = (s.buf c).key → b = c
  busy : ∀ b, (s.buf b).busy = true ↔ s.owner b ≠ none
  named : ∀ b, (s.buf b).busy = true ∨ (s.buf b).valid = true → (s.buf b).dev ≠ noDev
  onDisk : ∀ b, (s.buf b).valid = true → OnDisk s.disksize (s.buf b).key
  dirty : ∀ b, (s.buf b).dirty = true → (s.buf b).valid = true
  clean : ∀ b, (s.buf b).valid = true → (s.buf b).dirty = false →
    s.disk (s.buf b).key = (s.buf b).data
  held : ∀ b, (s.buf b).valid = true → store.contents (s.buf b).key = (s.buf b).data
  absent : ∀ key, (∀ b, (s.buf b).valid = true → (s.buf b).key ≠ key) →
    store.contents key = s.disk key
  owner : ∀ key p, store.owner key = some p ↔ ∃ b, s.owner b = some p ∧ (s.buf b).key = key

section Steps

variable {s : State ι n} {store : Lease.Store ι (ℕ × ℕ) Block} {p : ι} {b : Fin n} {key : ℕ × ℕ}

/-- A list of all buffers has no more than `n`. -/
theorem length_lt {l : List (Fin n)} (nodup : l.Nodup) : l.length < n + 1 := by
  have few := nodup.length_le_card
  rw [Fintype.card_fin] at few
  omega

/-- **The first loop of `bget`**: the buffer of the block, if there is one. -/
theorem Match.cached_eq_some (related : Match s store) (found : cached s key = some b) :
    (s.buf b).key = key := by
  obtain ⟨l, ring, -⟩ := related.ring
  rw [cached, ring.seek_next _ (length_lt ring.nodup)] at found
  simpa using List.find?_some found

theorem Match.cached_eq_none (related : Match s store) (missed : cached s key = none) (c : Fin n) :
    (s.buf c).key ≠ key := by
  obtain ⟨l, ring, all⟩ := related.ring
  rw [cached, ring.seek_next _ (length_lt ring.nodup), List.find?_eq_none] at missed
  simpa using missed c (all c)

/-- **The second loop of `bget`**: a buffer that is neither busy nor dirty, if there is one. -/
theorem Match.victim_eq_some (related : Match s store) (found : victim s = some b) :
    (s.buf b).busy = false ∧ (s.buf b).dirty = false := by
  obtain ⟨l, ring, -⟩ := related.ring
  rw [victim, ring.seek_prev _ (length_lt ring.nodup)] at found
  simpa using List.find?_some found

theorem Match.victim_eq_none (related : Match s store) :
    victim s = none ↔ ∀ c, (s.buf c).busy = true ∨ (s.buf c).dirty = true := by
  obtain ⟨l, ring, all⟩ := related.ring
  rw [victim, ring.seek_prev _ (length_lt ring.nodup), List.find?_eq_none]
  constructor
  · intro none c
    have taken := none c (List.mem_reverse.mpr (all c))
    cases busy : (s.buf c).busy <;> simp_all
  · intro taken c _
    rcases taken c with busy | dirty
    · simp [busy]
    · simp [dirty]

/-- Nobody has a block whose buffer is not busy. -/
theorem Match.unowned (related : Match s store)
    (free : ∀ c, (s.buf c).key = key → s.owner c = none) : store.owner key = none := by
  cases found : store.owner key with
  | none => rfl
  | some q =>
    obtain ⟨c, owned, same⟩ := (related.owner key q).mp found
    rw [free c same] at owned
    cases owned

/-- The buffers that a process has are its own. -/
theorem Match.owned (related : Match s store) (owned : s.owner b = some p) :
    store.owner (s.buf b).key = some p ∧ (s.buf b).busy = true ∧ (s.buf b).dev ≠ noDev := by
  have busy : (s.buf b).busy = true := (related.busy b).mpr (by simp [owned])
  exact ⟨(related.owner _ p).mpr ⟨b, owned, rfl⟩, busy, related.named b (.inl busy)⟩

/-- **A step on one buffer**: what it has to keep. If the buffer becomes that of another block, it
was clean and nobody's. -/
theorem Match.set (related : Match s store) {buf : Buf} {links : Links (Fin n)}
    {disk : ℕ × ℕ → Block} {panic : Bool} {owner : Option ι} {contents : ℕ × ℕ → Block}
    (named : buf.dev ≠ noDev) (apart : ∀ c, c ≠ b → (s.buf c).key ≠ buf.key)
    (left : (s.buf b).key ≠ buf.key → s.owner b = none ∧
      ((s.buf b).valid = true → contents (s.buf b).key = disk (s.buf b).key))
    (ring : ∃ l, Ring links l ∧ ∀ c, c ∈ l) (busy : buf.busy = true ↔ owner ≠ none)
    (onDisk : buf.valid = true → OnDisk s.disksize buf.key)
    (dirty : buf.dirty = true → buf.valid = true)
    (clean : buf.valid = true → buf.dirty = false → disk buf.key = buf.data)
    (held : buf.valid = true → contents buf.key = buf.data)
    (unread : buf.valid = false → contents buf.key = disk buf.key)
    (others : ∀ other, other ≠ buf.key →
      disk other = s.disk other ∧ contents other = store.contents other) :
    Match ⟨Function.update s.buf b buf, links, disk, s.disksize, panic,
        Function.update s.owner b owner⟩
      ⟨contents, Function.update store.owner buf.key owner⟩ := by
  refine ⟨ring, ?_, ?_, ?_, ?_, ?_, ?_, ?_, ?_, ?_⟩
  · intro c d device same
    by_cases first : c = b <;> by_cases second : d = b
    · rw [first, second]
    · simp only [first, Function.update_self, Function.update_of_ne second] at same
      exact absurd same.symm (apart d second)
    · simp only [second, Function.update_self, Function.update_of_ne first] at same
      exact absurd same (apart c first)
    · simp only [Function.update_of_ne first, Function.update_of_ne second] at same device
      exact related.unique c d device same
  · intro c
    by_cases equal : c = b
    · simpa [equal] using busy
    · simpa [equal] using related.busy c
  · intro c
    by_cases equal : c = b
    · simp [equal, named]
    · simpa [equal] using related.named c
  · intro c
    by_cases equal : c = b
    · simpa [equal] using onDisk
    · simpa [equal] using related.onDisk c
  · intro c
    by_cases equal : c = b
    · simpa [equal] using dirty
    · simpa [equal] using related.dirty c
  · intro c
    by_cases equal : c = b
    · simpa [equal] using clean
    · simpa [equal, (others _ (apart c equal)).1] using related.clean c
  · intro c
    by_cases equal : c = b
    · simpa [equal] using held
    · simpa [equal, (others _ (apart c equal)).2] using related.held c
  · intro other missing
    show contents other = disk other
    by_cases here : other = buf.key
    · subst here
      refine unread (Bool.eq_false_iff.mpr fun valid => ?_)
      exact missing b (by simpa using valid) (by simp)
    by_cases old : (s.buf b).valid = true ∧ (s.buf b).key = other
    · obtain ⟨valid, rfl⟩ := old
      exact (left here).2 valid
    · rw [(others other here).1, (others other here).2]
      refine related.absent other fun c valid same => ?_
      by_cases equal : c = b
      · exact old ⟨equal ▸ valid, equal ▸ same⟩
      · exact missing c (by simpa [equal] using valid) (by simpa [equal] using same)
  · intro other q
    show Function.update store.owner buf.key owner other = some q ↔ _
    by_cases here : other = buf.key
    · subst here
      constructor
      · intro found
        exact ⟨b, by simpa using found, by simp⟩
      · rintro ⟨c, owned, same⟩
        by_cases equal : c = b
        · simpa [equal] using owned
        · exact absurd (by simpa [equal] using same) (apart c equal)
    · rw [Function.update_of_ne here, related.owner other q]
      constructor
      · rintro ⟨c, owned, same⟩
        have equal : c ≠ b := by
          rintro rfl
          rw [(left fun stays => here (same.symm.trans stays)).1] at owned
          cases owned
        exact ⟨c, by simpa [equal] using owned, by simpa [equal] using same⟩
      · rintro ⟨c, owned, same⟩
        have equal : c ≠ b := fun equal => here (by simpa [equal] using same.symm)
        exact ⟨c, by simpa [equal] using owned, by simpa [equal] using same⟩

/-- The other buffers are for other blocks. -/
theorem Match.apart (related : Match s store) (named : (s.buf b).dev ≠ noDev) (c : Fin n)
    (different : c ≠ b) : (s.buf c).key ≠ (s.buf b).key :=
  fun same => different (related.unique b c named same.symm).symm

/-- A block whose buffer is not read yet is on the disk. -/
theorem Match.unread (related : Match s store) (named : (s.buf b).dev ≠ noDev)
    (unread : (s.buf b).valid = false) : store.contents (s.buf b).key = s.disk (s.buf b).key := by
  refine related.absent _ fun c valid there => ?_
  obtain rfl := related.unique b c named there.symm
  simp [valid] at unread

/-- A block that no buffer is dirty for is on the disk. -/
theorem Match.written (related : Match s store) (key : ℕ × ℕ)
    (undirtied : ∀ b, (s.buf b).dirty = true → (s.buf b).key ≠ key) :
    s.disk key = store.contents key := by
  by_cases cached : ∃ b, (s.buf b).valid = true ∧ (s.buf b).key = key
  · obtain ⟨b, valid, rfl⟩ := cached
    have clean := Bool.eq_false_iff.mpr fun dirty => undirtied b dirty rfl
    exact (related.clean b valid clean).trans (related.held b valid).symm
  · exact (related.absent key fun b valid same => cached ⟨b, valid, same⟩).symm

/-- `bget` of a block that is cached. -/
theorem Match.take (related : Match s store) (same : (s.buf b).key = key) (device : key.1 ≠ noDev)
    (free : (s.buf b).busy = false) :
    store.owner key = none ∧ Match { s.setBuf b { s.buf b with busy := true } with
        owner := Function.update s.owner b (some p) }
      { store with owner := Function.update store.owner key (some p) } := by
  subst same
  have nobody : s.owner b = none := by
    by_contra owned
    simp [(related.busy b).mpr owned] at free
  refine ⟨related.unowned fun c there => ?_, ?_⟩
  · rwa [← related.unique b c device there.symm]
  · exact related.set device (related.apart device) (absurd rfl) related.ring (by simp)
      (related.onDisk b) (related.dirty b) (related.clean b) (related.held b)
      (related.unread device) fun _ _ => ⟨rfl, rfl⟩

/-- **`bget` of a block that is not cached.** The buffer recycled is clean: nothing is lost. -/
theorem Match.recycle (related : Match s store) (device : key.1 ≠ noDev)
    (missed : ∀ c, (s.buf c).key ≠ key) (free : (s.buf b).busy = false)
    (clean : (s.buf b).dirty = false) :
    store.owner key = none ∧
      Match { s.setBuf b ⟨true, false, false, key.1, key.2, (s.buf b).data⟩ with
        owner := Function.update s.owner b (some p) }
      { store with owner := Function.update store.owner key (some p) } := by
  have nobody : s.owner b = none := by
    by_contra owned
    simp [(related.busy b).mpr owned] at free
  refine ⟨related.unowned fun c there => absurd there (missed c), ?_⟩
  refine related.set device (fun c _ => missed c) (fun _ => ⟨nobody, fun valid => ?_⟩) related.ring
    (by simp) (by simp) (by simp) (by simp) (by simp) (fun _ => ?_) fun _ _ => ⟨rfl, rfl⟩
  · exact (related.held b valid).trans (related.clean b valid clean).symm
  · exact related.absent key fun c _ => missed c

/-- A step of the process that has the buffer: the store keeps the owner. -/
theorem Match.own (related : Match s store) (owned : s.owner b = some p) {buf : Buf}
    {disk : ℕ × ℕ → Block} {contents : ℕ × ℕ → Block} (key : buf.key = (s.buf b).key)
    (busy : buf.busy = (s.buf b).busy) (valid : buf.valid = true)
    (onDisk : OnDisk s.disksize (s.buf b).key)
    (clean : buf.dirty = false → disk buf.key = buf.data) (held : contents buf.key = buf.data)
    (others : ∀ other, other ≠ buf.key →
      disk other = s.disk other ∧ contents other = store.contents other) :
    Match { s.setBuf b buf with disk := disk } { store with contents := contents } := by
  obtain ⟨owner, taken, named⟩ := related.owned owned
  have device : buf.dev ≠ noDev := by
    rw [show buf.dev = (s.buf b).dev from congrArg Prod.fst key]
    exact named
  have set : Match ⟨Function.update s.buf b buf, s.links, disk, s.disksize, s.panic,
      Function.update s.owner b (some p)⟩
      ⟨contents, Function.update store.owner buf.key (some p)⟩ :=
    related.set device (key ▸ related.apart named) (absurd key.symm) related.ring
      (by simp [busy, taken]) (fun _ => key ▸ onDisk) (fun _ => valid) (fun _ => clean)
      (fun _ => held) (by simp [valid]) others
  rw [← owned, Function.update_eq_self, key, owned, ← owner, Function.update_eq_self] at set
  exact set

/-- Whether a panic has come is not part of the relation. -/
theorem Match.panics (related : Match s store) : Match { s with panic := true } store :=
  ⟨related.ring, related.unique, related.busy, related.named, related.onDisk, related.dirty,
    related.clean, related.held, related.absent, related.owner⟩

/-- The second check of `iderw`. -/
theorem OnDisk.passes {disksize : ℕ} {buf : Buf} (onDisk : OnDisk disksize buf.key) :
    ¬ (buf.dev ≠ 1 ∨ disksize ≤ buf.blockno) := by
  have device : buf.dev = 1 := onDisk.1
  have range : buf.blockno < disksize := onDisk.2
  omega

/-- `iderw` of a buffer that `bget` has recycled: the block is read, if it is one of the disk. -/
theorem Match.fill (related : Match s store) (owned : s.owner b = some p)
    (unread : (s.buf b).valid = false) : Match (iderw s b) store := by
  obtain ⟨-, busy, named⟩ := related.owned owned
  have clean : (s.buf b).dirty = false :=
    Bool.eq_false_iff.mpr fun dirty => by simp [related.dirty b dirty] at unread
  by_cases outside : (s.buf b).dev ≠ 1 ∨ s.disksize ≤ (s.buf b).blockno
  · have panics : iderw s b = { s with panic := true } := by
      simp [iderw, busy, unread, outside]
    rw [panics]
    exact related.panics
  · have reads : iderw s b =
        s.setBuf b { s.buf b with data := s.disk (s.buf b).key, valid := true } := by
      simp [iderw, busy, unread, clean, outside]
    have onDisk : OnDisk s.disksize (s.buf b).key := by
      simpa [OnDisk, Buf.key] using outside
    rw [reads]
    exact related.own owned rfl rfl rfl onDisk (fun _ => rfl) (related.unread named unread)
      fun _ _ => ⟨rfl, rfl⟩

/-- A change of the data, and `log_write`. -/
theorem Match.logWrite (related : Match s store) (owned : s.owner b = some p)
    (valid : (s.buf b).valid = true) (data : Block) :
    Match (s.setBuf b { s.buf b with data := data, dirty := true })
      { store with contents := Function.update store.contents (s.buf b).key data } :=
  related.own owned rfl rfl valid (related.onDisk b valid) (by simp) (Function.update_self ..)
    fun _ different => ⟨rfl, Function.update_of_ne different ..⟩

/-- A change of the data, and `bwrite`. -/
theorem Match.bwrite (related : Match s store) (owned : s.owner b = some p)
    (valid : (s.buf b).valid = true) (data : Block) :
    Match (Bio.bwrite (s.setBuf b { s.buf b with data := data }) b)
      { store with contents := Function.update store.contents (s.buf b).key data } := by
  obtain ⟨-, busy, -⟩ := related.owned owned
  have onDisk := related.onDisk b valid
  have written : Bio.bwrite (s.setBuf b { s.buf b with data := data }) b =
      { s.setBuf b { s.buf b with data := data, dirty := false, valid := true } with
        disk := Function.update s.disk (s.buf b).key data } := by
    simp [Bio.bwrite, iderw, State.setBuf, busy, Buf.key, onDisk.passes]
  rw [written]
  exact related.own owned rfl rfl rfl onDisk (fun _ => Function.update_self ..)
    (Function.update_self ..)
    fun _ different => ⟨Function.update_of_ne different .., Function.update_of_ne different ..⟩

/-- `brelse`: the buffer goes to the front of the list. -/
theorem Match.brelse (related : Match s store) (owned : s.owner b = some p) :
    Match (Bio.brelse s b)
      { store with owner := Function.update store.owner (s.buf b).key none } := by
  obtain ⟨-, busy, named⟩ := related.owned owned
  obtain ⟨l, ring, all⟩ := related.ring
  obtain ⟨left, right, rfl⟩ := List.append_of_mem (all b)
  have absent : b ∉ left ++ right := (List.nodup_middle.mp ring.nodup).notMem
  have front := ring.unlink.pushFront absent
  have released : Bio.brelse s b = { s.setBuf b { s.buf b with busy := false } with
      links := pushFront (unlink s.links b) b
      owner := Function.update s.owner b none } := by
    simp [Bio.brelse, busy]
  rw [released]
  refine related.set named (related.apart named) (absurd rfl) ⟨_, front, fun c => ?_⟩ (by simp)
    (related.onDisk b) (related.dirty b) (related.clean b) (related.held b) (related.unread named)
    fun _ _ => ⟨rfl, rfl⟩
  have there := all c
  simp only [List.mem_append, List.mem_cons] at there ⊢
  tauto

/-! ### Runs -/

/-- **Every call is a move of the store, or none.** -/
theorem simulates : Simulates next OnDevice seen Lease.next some
    (fun (s : State ι n) store => Match s store) := by
  intro s label after store related device moved
  cases label with
  | bget p key =>
    obtain ⟨-, got⟩ := Option.ite_none_left_eq_some.mp moved
    unfold bget at got
    cases found : cached s key with
    | some b =>
      simp only [found] at got
      obtain ⟨free, got⟩ := Option.ite_none_left_eq_some.mp got
      cases got
      obtain ⟨unowned, related'⟩ := related.take (p := p) (related.cached_eq_some found) device
        (Bool.eq_false_iff.mpr free)
      exact ⟨[.takes p key], _, by simp [execute, Lease.next, unowned], related',
        by simp [seen, found]⟩
    | none =>
      simp only [found] at got
      cases recycled : victim s with
      | some b =>
        simp only [recycled] at got
        cases got
        obtain ⟨free, clean⟩ := related.victim_eq_some recycled
        obtain ⟨unowned, related'⟩ :=
          related.recycle (p := p) device (related.cached_eq_none found) free clean
        exact ⟨[.takes p key], _, by simp [execute, Lease.next, unowned], related',
          by simp [seen, recycled]⟩
      | none =>
        simp only [recycled] at got
        cases got
        exact ⟨[], store, rfl, related.panics, by simp [seen, found, recycled]⟩
  | fill p b =>
    obtain ⟨⟨-, owned, unread⟩, filled⟩ := Option.ite_none_right_eq_some.mp moved
    cases filled
    exact ⟨[], store, rfl, related.fill owned unread, rfl⟩
  | logWrite p b data =>
    obtain ⟨⟨-, owned, valid⟩, written⟩ := Option.ite_none_right_eq_some.mp moved
    cases written
    obtain ⟨owner, -, -⟩ := related.owned owned
    exact ⟨[.writes p (s.buf b).key data], _, by simp [execute, Lease.next, owner],
      related.logWrite owned valid data, rfl⟩
  | bwrite p b data =>
    obtain ⟨⟨-, owned, valid⟩, written⟩ := Option.ite_none_right_eq_some.mp moved
    cases written
    obtain ⟨owner, -, -⟩ := related.owned owned
    exact ⟨[.writes p (s.buf b).key data], _, by simp [execute, Lease.next, owner],
      related.bwrite owned valid data, rfl⟩
  | brelse p b =>
    obtain ⟨⟨-, owned, -⟩, released⟩ := Option.ite_none_right_eq_some.mp moved
    cases released
    obtain ⟨owner, -, -⟩ := related.owned owned
    exact ⟨[.gives p (s.buf b).key], _, by simp [execute, Lease.next, owner],
      related.brelse owned, rfl⟩

/-- `binit` makes a list of all buffers. -/
theorem ring_binit (n : ℕ) : Ring (binit n) (List.finRange n).reverse := by
  have pushes : ∀ (more done : List (Fin n)) (links : Links (Fin n)), Ring links done →
      (done ++ more).Nodup → Ring (more.foldl pushFront links) (more.reverse ++ done) := by
    intro more
    induction more with
    | nil => exact fun done links ring _ => ring
    | cons b more ih =>
      intro done links ring nodup
      have moved : (b :: done ++ more).Nodup := List.nodup_middle.mp nodup
      have absent : b ∉ done := fun member =>
        (List.nodup_cons.mp moved).1 (List.mem_append_left more member)
      have rest := ih (b :: done) (pushFront links b) (ring.pushFront absent) moved
      simpa using rest
  have empty : Ring ⟨fun _ => none, fun _ => none⟩ ([] : List (Fin n)) := ring_nil rfl rfl
  have all := pushes (List.finRange n) [] _ empty (List.nodup_finRange n)
  rwa [List.append_nil] at all

theorem match_start (disk : ℕ × ℕ → Block) (disksize : ℕ) :
    Match (start disk disksize : State ι n) ⟨disk, fun _ => none⟩ := by
  refine ⟨⟨_, ring_binit n, by simp⟩, ?_, ?_, ?_, ?_, ?_, ?_, ?_, fun _ _ => rfl, ?_⟩ <;>
    simp [start]

end Steps

section Results

variable {disk : ℕ × ℕ → Block} {disksize : ℕ} {s : State ι n}

/-- **The buffer cache is a store of blocks with one user at a time for each.** A block whose buffer
is not dirty is on the disk as well. -/
theorem bcache_refines {events : List (Lease.Event ι (ℕ × ℕ) Block)}
    (trace : Trace next OnDevice seen (start disk disksize) events s) :
    ∃ store, execute Lease.next ⟨disk, fun _ => none⟩ events = some store ∧
      (∀ p key, store.owner key = some p ↔ ∃ b, s.owner b = some p ∧ (s.buf b).key = key) ∧
      (∀ b, (s.buf b).valid = true → (s.buf b).data = store.contents (s.buf b).key) ∧
      ∀ key, (∀ b, (s.buf b).dirty = true → (s.buf b).key ≠ key) →
        s.disk key = store.contents key := by
  obtain ⟨moves, store, ran, related, same⟩ := simulates.trace (match_start disk disksize) trace
  obtain rfl : moves = events := by simpa using same
  exact ⟨store, ran, fun p key => related.owner key p, fun b valid => (related.held b valid).symm,
    related.written⟩

/-- Two buffers for three blocks: the first block is written, its buffer is recycled for the third
one, and it is read again. -/
theorem bcache_refines_two_buffers : ∃ (events : List (Lease.Event (Fin 2) (ℕ × ℕ) Block))
    (s : State (Fin 2) 2), Trace next OnDevice seen (start (fun _ _ => 0) 9) events s ∧
      ((s.buf 0).valid = true ∧ (s.buf 0).key = (1, 7) ∧ s.owner 0 = some 1 ∧
        (s.buf 1).valid = true ∧ (s.buf 1).key = (1, 5) ∧ (s.buf 1).data 0 = 7) ∧
      ∃ store, execute Lease.next ⟨fun _ _ => 0, fun _ => none⟩ events = some store ∧
        (∀ p key, store.owner key = some p ↔ ∃ b, s.owner b = some p ∧ (s.buf b).key = key) ∧
        (∀ b, (s.buf b).valid = true → (s.buf b).data = store.contents (s.buf b).key) ∧
        ∀ key, (∀ b, (s.buf b).dirty = true → (s.buf b).key ≠ key) →
          s.disk key = store.contents key := by
  have run : ∃ (events : List (Lease.Event (Fin 2) (ℕ × ℕ) Block)) (s : State (Fin 2) 2),
      Trace next OnDevice seen (start (fun _ _ => 0) 9) events s ∧
        ((s.buf 0).valid = true ∧ (s.buf 0).key = (1, 7) ∧ s.owner 0 = some 1 ∧
          (s.buf 1).valid = true ∧ (s.buf 1).key = (1, 5) ∧ (s.buf 1).data 0 = 7) :=
    exists_trace_of_execute [.bget 0 (1, 5), .fill 0 0, .bwrite 0 0 fun _ => 7, .brelse 0 0,
      .bget 0 (1, 6), .fill 0 1, .brelse 0 1, .bget 1 (1, 7), .fill 1 0, .bget 0 (1, 5),
      .fill 0 1] _ (by decide +kernel)
  obtain ⟨events, s, trace, test⟩ := run
  exact ⟨events, s, trace, test, bcache_refines trace⟩

/-- **No block is in two buffers.** -/
theorem one_buffer_per_block (reach : Reach next OnDevice (start disk disksize) s) (b c : Fin n)
    (device : (s.buf b).dev ≠ noDev) (same : (s.buf b).key = (s.buf c).key) : b = c := by
  obtain ⟨store, related⟩ := simulates.reach (match_start disk disksize) reach
  exact related.unique b c device same

/-- Two processes, two blocks. -/
theorem one_buffer_per_block_two : ∃ s : State (Fin 2) 2,
    Reach next OnDevice (start (fun _ _ => 0) 9) s ∧
      ((s.buf 0).key = (1, 6) ∧ (s.buf 1).key = (1, 5)) ∧
      ∀ b c, (s.buf b).dev ≠ noDev → (s.buf b).key = (s.buf c).key → b = c := by
  have run : ∃ s : State (Fin 2) 2, Reach next OnDevice (start (fun _ _ => 0) 9) s ∧
      ((s.buf 0).key = (1, 6) ∧ (s.buf 1).key = (1, 5)) :=
    exists_reach_of_execute [.bget 0 (1, 6), .bget 1 (1, 5)] _ (by decide +kernel)
  obtain ⟨s, reach, test⟩ := run
  exact ⟨s, reach, test, one_buffer_per_block reach⟩

/-- As many pinned blocks as buffers: every buffer is pinned, and it has one of them. -/
theorem pinned_all {blocks : Finset (ℕ × ℕ)} (all : blocks.card = n)
    (pinned : ∀ key ∈ blocks, ∃ b, (s.buf b).dirty = true ∧ (s.buf b).key = key) (c : Fin n) :
    (s.buf c).dirty = true ∧ (s.buf c).key ∈ blocks := by
  let dirty := Finset.univ.filter fun b => (s.buf b).dirty = true
  have covered : blocks ⊆ dirty.image fun b => (s.buf b).key := by
    intro key member
    obtain ⟨b, isDirty, same⟩ := pinned key member
    exact Finset.mem_image.mpr ⟨b, by simp [dirty, isDirty], same⟩
  have few : (dirty.image fun b => (s.buf b).key).card ≤ dirty.card := Finset.card_image_le
  have most : dirty.card ≤ n := by simpa using Finset.card_le_univ dirty
  have many := Finset.card_le_card covered
  have every : dirty = Finset.univ :=
    Finset.eq_univ_of_card dirty (by rw [Fintype.card_fin]; omega)
  have same : blocks = dirty.image fun b => (s.buf b).key :=
    Finset.eq_of_subset_of_card_le covered (by omega)
  have member : c ∈ dirty := every ▸ Finset.mem_univ c
  exact ⟨by simpa [dirty] using member, same ▸ Finset.mem_image_of_mem _ member⟩

/-- **With all buffers pinned any other block panics.** -/
theorem pinned_panics (reach : Reach next OnDevice (start disk disksize) s)
    (running : s.panic = false) (blocks : Finset (ℕ × ℕ)) (all : blocks.card = n)
    (pinned : ∀ key ∈ blocks, ∃ b, (s.buf b).dirty = true ∧ (s.buf b).key = key) {key : ℕ × ℕ}
    (other : key ∉ blocks) (p : ι) :
    next s (.bget p key) = some { s with panic := true } := by
  obtain ⟨store, related⟩ := simulates.reach (match_start disk disksize) reach
  have none : victim s = none :=
    related.victim_eq_none.mpr fun c => .inr (pinned_all all pinned c).1
  have missed : cached s key = Option.none := by
    cases found : cached s key with
    | none => rfl
    | some b =>
      have there := (pinned_all all pinned b).2
      rw [related.cached_eq_some found] at there
      exact absurd there other
  simp [next, running, bget, missed, none]

/-- Three buffers, and three blocks that two processes have logged. -/
theorem pinned_panics_three : ∃ s : State (Fin 2) 3,
    Reach next OnDevice (start (fun _ _ => 0) 9) s ∧
    (s.panic = false ∧ (∀ b, (s.buf b).dirty = true ∧ (s.buf b).busy = false) ∧
      (s.buf 0).key = (1, 5) ∧ (s.buf 1).key = (1, 6) ∧ (s.buf 2).key = (1, 7)) ∧
    ∀ p, next s (.bget p (1, 8)) = some { s with panic := true } := by
  have run : ∃ s : State (Fin 2) 3, Reach next OnDevice (start (fun _ _ => 0) 9) s ∧
      (s.panic = false ∧ (∀ b, (s.buf b).dirty = true ∧ (s.buf b).busy = false) ∧
        (s.buf 0).key = (1, 5) ∧ (s.buf 1).key = (1, 6) ∧ (s.buf 2).key = (1, 7)) :=
    exists_reach_of_execute [.bget 0 (1, 5), .fill 0 0, .bget 1 (1, 6), .fill 1 1,
      .logWrite 0 0 fun _ => 7, .brelse 0 0, .logWrite 1 1 fun _ => 8, .brelse 1 1,
      .bget 0 (1, 7), .fill 0 2, .logWrite 0 2 fun _ => 9, .brelse 0 2] _ (by decide +kernel)
  obtain ⟨s, reach, running, dirty, first, second, third⟩ := run
  refine ⟨s, reach, ⟨running, dirty, first, second, third⟩, ?_⟩
  refine pinned_panics reach running {(1, 5), (1, 6), (1, 7)} rfl ?_ (by decide)
  intro key member
  simp only [Finset.mem_insert, Finset.mem_singleton] at member
  rcases member with rfl | rfl | rfl
  · exact ⟨0, (dirty 0).1, first⟩
  · exact ⟨1, (dirty 1).1, second⟩
  · exact ⟨2, (dirty 2).1, third⟩

end Results

end Bio

end Xv6
