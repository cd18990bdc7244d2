/-
**xv6 `fs.c`: who owns a block.**

The free map has a bit for every block. The code trusts it: `bfree` panics for a block that is not
marked, and nothing but the map says that two files do not share one.

* `Logs s t touch` — from `s` to `t` only blocks in `touch` are given to `log_write`, so that the
  others are as they were (`Logs.block_eq`).
* `Superblock.Valid` — the areas of the disk do not overlap; `marked`, `freeBlocks` — the free map.
* `Accounts s own` — **the data blocks marked in the free map are those that an inode owns, and each
  has one owner.** `Accounts.balloc` gives a block to an inode and `Accounts.bfree` takes it back.
* `inode` — what `ilock` reads; it is what `iupdate` has written.
* `Maps block ip l` — the list `l` of the blocks of a file, through the inode and its indirect block.
* `Maps.bmap_grow` — **`bmap` of the next block of a file adds one block to the list, and takes two
  where the list leaves the inode**; it panics exactly if there are not so many.
* `Maps.itrunc` — **`itrunc` frees them all, and no `bfree` in it panics.**
-/

import SistemasOperacionais.Xv6.Fs
import Mathlib.Data.Set.Basic
import Mathlib.Data.Finset.Card

namespace Xv6

namespace Fs

open Bytes

variable {s s' t : State} {b c inum : ℕ} {ip ip' : Dinode} {touch touch' : Set ℕ}

/-! ### What is written -/

/-- The blocks after some calls of `log_write`, the last one first. -/
def replay (block : ℕ → Buffer) (writes : List (ℕ × Buffer)) : ℕ → Buffer :=
  writes.foldr (fun write block => Function.update block write.1 write.2) block

/-- **`t` is `s` after calls of `log_write` for blocks in `touch`.** -/
structure Logs (s t : State) (touch : Set ℕ) : Prop where
  sb : t.sb = s.sb
  calls : ∃ more, t.writes = more ++ s.writes ∧ t.block = replay s.block more ∧
    ∀ write ∈ more, write.1 ∈ touch

theorem Logs.refl (s : State) (touch : Set ℕ) : Logs s s touch := ⟨rfl, [], rfl, rfl, by simp⟩

theorem Logs.trans {r : State} (first : Logs r s touch) (second : Logs s t touch) :
    Logs r t touch := by
  obtain ⟨before, writes, blocks, inside⟩ := first.calls
  obtain ⟨more, writes', blocks', inside'⟩ := second.calls
  refine ⟨second.sb.trans first.sb, more ++ before, ?_, ?_, ?_⟩
  · rw [writes', writes, List.append_assoc]
  · rw [blocks', blocks, replay, replay, replay, List.foldr_append]
  · intro write member
    exact (List.mem_append.mp member).elim (inside' write) (inside write)

theorem Logs.mono (logs : Logs s t touch) (subset : touch ⊆ touch') : Logs s t touch' := by
  obtain ⟨more, writes, blocks, inside⟩ := logs.calls
  exact ⟨logs.sb, more, writes, blocks, fun write member => subset (inside write member)⟩

theorem logs_logWrite (s : State) {bno : ℕ} (data : Buffer) (inside : bno ∈ touch) :
    Logs s (s.logWrite bno data) touch :=
  ⟨rfl, [(bno, data)], rfl, rfl, by simpa using inside⟩

/-- **Only the blocks in `touch` change.** -/
theorem Logs.block_eq (logs : Logs s t touch) (outside : b ∉ touch) : t.block b = s.block b := by
  obtain ⟨more, -, blocks, inside⟩ := logs.calls
  rw [blocks]
  clear blocks
  induction more with
  | nil => rfl
  | cons write more ih =>
    have other : b ≠ write.1 := fun same => outside (same ▸ inside write List.mem_cons_self)
    rw [replay, List.foldr_cons, Function.update_of_ne other]
    exact ih fun write member => inside write (List.mem_cons_of_mem _ member)

/-! ### The areas of the disk -/

/-- The first block behind the free map. -/
def Superblock.dataStart (sb : Superblock) : ℕ := sb.size - sb.nblocks

/-- **Where things are**: the log behind the superblock, the inodes, the free map, the data. The loops
of `balloc` and `ialloc` count blocks and inodes with an `int`. -/
structure Superblock.Valid (sb : Superblock) : Prop where
  log : 2 ≤ sb.logstart
  inodes : sb.logstart + sb.nlog ≤ sb.inodestart
  map : sb.inodestart + sb.ninodes / ipb + 1 ≤ sb.bmapstart
  data : sb.bmapstart + sb.size / bpb + 1 ≤ sb.dataStart
  size : sb.dataStart ≤ sb.size
  blocks : sb.size + bpb ≤ 2 ^ 31
  numbers : sb.ninodes < 2 ^ 31

theorem Superblock.Valid.small {sb : Superblock} (valid : sb.Valid) : sb.size < uintSize := by
  have := valid.blocks
  rw [uintSize]
  omega

/-- The blocks of the free map. -/
def Superblock.map (sb : Superblock) : Set ℕ := Set.Ico sb.bmapstart sb.dataStart

theorem bblock_mem {sb : Superblock} (valid : sb.Valid) (inside : b < sb.size) :
    bblock b sb ∈ sb.map := by
  have quotient : b / bpb ≤ sb.size / bpb := Nat.div_le_div_right inside.le
  have := valid.data
  exact ⟨Nat.le_add_left _ _, by rw [bblock]; omega⟩

theorem iblock_lt {sb : Superblock} (valid : sb.Valid) (inside : inum < sb.ninodes) :
    1 < iblock inum sb ∧ iblock inum sb < sb.bmapstart := by
  have quotient : inum / ipb ≤ sb.ninodes / ipb := Nat.div_le_div_right inside.le
  have := valid.map
  have := valid.log
  have := valid.inodes
  rw [iblock]
  generalize inum / ipb = quotient at *
  omega

/-! ### The free map -/

/-- The bit of a block. -/
def marked (s : State) (b : ℕ) : Bool := bit (s.block (bblock b s.sb)) (b % bpb)

theorem bpb_pos : 0 < bpb := by decide

theorem div_mod_bpb (k : ℕ) {bi : ℕ} (small : bi < bpb) :
    (k * bpb + bi) / bpb = k ∧ (k * bpb + bi) % bpb = bi := by
  rw [show bpb = 4096 from rfl] at *
  omega

/-- A block by the place of its bit. -/
theorem marked_mul_add (s : State) (k : ℕ) {bi : ℕ} (small : bi < bpb) :
    marked s (k * bpb + bi) = bit (s.block (bblock (k * bpb) s.sb)) bi := by
  obtain ⟨quotient, rest⟩ := div_mod_bpb k small
  rw [marked, bblock, bblock, quotient, rest, Nat.mul_div_cancel _ bpb_pos]

/-- **What `balloc` does**: it takes a block that is not marked, if there is one. -/
theorem balloc_cases (s : State) :
    (∀ b < s.sb.size, marked s b = true) ∧ balloc s = .error .outOfBlocks ∨
      ∃ b < s.sb.size, marked s b = false ∧
        balloc s = .ok (b, bzero (s.logWrite (bblock b s.sb)
          (setBit (s.block (bblock b s.sb)) (b % bpb))) b) := by
  rw [balloc]
  split
  · rename_i none
    refine .inl ⟨fun b inside => ?_, rfl⟩
    have split := Nat.div_add_mod' b bpb
    have small := Nat.mod_lt b bpb_pos
    have member : b / bpb * bpb ∈ (List.range ((s.sb.size + bpb - 1) / bpb)).map (· * bpb) := by
      refine List.mem_map_of_mem (List.mem_range.mpr ?_)
      rw [Nat.lt_div_iff_mul_lt bpb_pos]
      omega
    have nothing := List.findSome?_eq_none_iff.mp none _ member
    rw [Option.map_eq_none_iff, freeBit, List.find?_range_eq_none] at nothing
    rw [← split, marked_mul_add s _ small]
    simpa using nothing (b % bpb) (by omega)
  · rename_i base bi found
    obtain ⟨a, member, here⟩ := List.exists_of_findSome?_eq_some found
    obtain ⟨k, -, rfl⟩ := List.mem_map.mp member
    obtain ⟨bi', bit, same⟩ := Option.map_eq_some_iff.mp here
    cases same
    rw [freeBit, List.find?_range_eq_some] at bit
    obtain ⟨free, inside, -⟩ := bit
    have inside := List.mem_range.mp inside
    have small : bi < bpb := by omega
    obtain ⟨quotient, rest⟩ := div_mod_bpb k small
    have same : bblock (k * bpb + bi) s.sb = bblock (k * bpb) s.sb := by
      rw [bblock, bblock, quotient, Nat.mul_div_cancel _ bpb_pos]
    refine .inr ⟨k * bpb + bi, by omega, ?_, ?_⟩
    · rw [marked_mul_add s k small]
      simpa using free
    · rw [same, rest]

theorem marked_congr (sb : t.sb = s.sb) (same : t.block (bblock b s.sb) = s.block (bblock b s.sb)) :
    marked t b = marked s b := by
  rw [marked, marked, sb, same]

/-- Two blocks have the same bit only if they are the same. -/
theorem eq_of_bit {sb : Superblock} (block : bblock b sb = bblock c sb) (rest : b % bpb = c % bpb) :
    b = c := by
  rw [bblock, bblock, show bpb = 4096 from rfl] at *
  omega

theorem marked_setBit (s : State) (b c : ℕ) :
    marked (s.logWrite (bblock b s.sb) (setBit (s.block (bblock b s.sb)) (b % bpb))) c =
      (marked s c || decide (b = c)) := by
  rw [marked, marked, State.logWrite]
  dsimp only
  by_cases same : bblock c s.sb = bblock b s.sb
  · rw [same, Function.update_self, bit_setBit]
    congr 1
    rw [decide_eq_decide]
    exact ⟨eq_of_bit same.symm, fun equal => equal ▸ rfl⟩
  · rw [Function.update_of_ne same, decide_eq_false (by rintro rfl; exact same rfl), Bool.or_false]

theorem marked_clearBit (s : State) (b c : ℕ) :
    marked (s.logWrite (bblock b s.sb) (clearBit (s.block (bblock b s.sb)) (b % bpb))) c =
      (marked s c && decide (b ≠ c)) := by
  rw [marked, marked, State.logWrite]
  dsimp only
  by_cases same : bblock c s.sb = bblock b s.sb
  · rw [same, Function.update_self, bit_clearBit]
    congr 1
    rw [decide_eq_decide]
    exact not_congr ⟨eq_of_bit same.symm, fun equal => equal ▸ rfl⟩
  · rw [Function.update_of_ne same, decide_eq_true (by rintro rfl; exact same rfl), Bool.and_true]

/-- The blocks that are not marked. -/
def freeBlocks (s : State) : Finset ℕ := (Finset.range s.sb.size).filter fun b => marked s b = false

theorem mem_freeBlocks : b ∈ freeBlocks s ↔ b < s.sb.size ∧ marked s b = false := by
  rw [freeBlocks, Finset.mem_filter, Finset.mem_range]

/-! ### Owners -/

/-- **The free map agrees with the owners**: `own inum` are the blocks of the inode `inum`. What is
before the data is marked and has no owner. -/
structure Accounts (s : State) (own : ℕ → Finset ℕ) : Prop where
  valid : s.sb.Valid
  sb : readsb s.block = s.sb
  range : ∀ inum, ∀ b ∈ own inum, s.sb.dataStart ≤ b ∧ b < s.sb.size
  apart : ∀ i j b, b ∈ own i → b ∈ own j → i = j
  marks : ∀ b < s.sb.size, marked s b = true ↔ b < s.sb.dataStart ∨ ∃ inum, b ∈ own inum

section Accounts

variable {own : ℕ → Finset ℕ}

theorem readsb_congr {block block' : ℕ → Buffer} (same : block' 1 = block 1) :
    readsb block' = readsb block := by
  rw [readsb, readsb, same]

theorem not_mem_map {sb : Superblock} (data : sb.dataStart ≤ b) : b ∉ sb.map :=
  fun inside => absurd inside.2 (Nat.not_lt.mpr data)

theorem Superblock.Valid.one_not_mem_map {sb : Superblock} (valid : sb.Valid) : 1 ∉ sb.map := by
  rintro ⟨lower, -⟩
  have := valid.log
  have := valid.inodes
  have := valid.map
  generalize sb.ninodes / ipb = quotient at *
  omega

theorem Superblock.Valid.one_lt {sb : Superblock} (valid : sb.Valid) : 1 < sb.dataStart := by
  have := valid.log
  have := valid.inodes
  have := valid.map
  have := valid.data
  generalize sb.ninodes / ipb = quotient at *
  generalize sb.size / bpb = quotient' at *
  omega

theorem Logs.marked_eq (logs : Logs s t touch) (valid : s.sb.Valid)
    (map : ∀ b ∈ touch, b ∉ s.sb.map) (inside : b < s.sb.size) : marked t b = marked s b :=
  marked_congr logs.sb (logs.block_eq fun touched => map _ touched (bblock_mem valid inside))

theorem Logs.freeBlocks_eq (logs : Logs s t touch) (valid : s.sb.Valid)
    (map : ∀ b ∈ touch, b ∉ s.sb.map) : freeBlocks t = freeBlocks s := by
  ext b
  rw [mem_freeBlocks, mem_freeBlocks, logs.sb]
  exact and_congr_right fun inside => by rw [logs.marked_eq valid map inside]

theorem Accounts.ne_zero (accounts : Accounts s own) (member : b ∈ own inum) : b ≠ 0 := by
  have positive := accounts.valid.one_lt
  have := (accounts.range inum b member).1
  omega

/-- Writes elsewhere leave the accounts alone. -/
theorem Accounts.logs (accounts : Accounts s own) (logs : Logs s t touch) (super : 1 ∉ touch)
    (map : ∀ b ∈ touch, b ∉ s.sb.map) : Accounts t own := by
  refine ⟨logs.sb ▸ accounts.valid, ?_, ?_, accounts.apart, ?_⟩
  · rw [readsb_congr (logs.block_eq super), accounts.sb, logs.sb]
  · rw [logs.sb]
    exact accounts.range
  · rw [logs.sb]
    intro b inside
    rw [logs.marked_eq accounts.valid map inside]
    exact accounts.marks b inside

theorem mem_give {i : ℕ} : c ∈ Function.update own inum (insert b (own inum)) i ↔
    c ∈ own i ∨ i = inum ∧ c = b := by
  by_cases same : i = inum
  · subst same
    rw [Function.update_self, Finset.mem_insert]
    tauto
  · rw [Function.update_of_ne same]
    tauto

theorem mem_drop {i : ℕ} : c ∈ Function.update own inum ((own inum).erase b) i ↔
    c ∈ own i ∧ ¬ (i = inum ∧ c = b) := by
  by_cases same : i = inum
  · subst same
    rw [Function.update_self, Finset.mem_erase]
    tauto
  · rw [Function.update_of_ne same]
    tauto

/-- What `balloc` leaves: `b` is a block of `inum`. -/
structure Takes (s t : State) (own : ℕ → Finset ℕ) (inum b : ℕ) : Prop where
  data : s.sb.dataStart ≤ b
  fresh : ∀ i, b ∉ own i
  accounts : Accounts t (Function.update own inum (insert b (own inum)))
  logs : Logs s t (insert b s.sb.map)
  zero : t.block b = fun _ => 0
  member : b ∈ freeBlocks s
  free : freeBlocks t = (freeBlocks s).erase b

/-- **`balloc` panics exactly if there is no free block.** -/
theorem Accounts.balloc (accounts : Accounts s own) (inum : ℕ) :
    freeBlocks s = ∅ ∧ balloc s = .error .outOfBlocks ∨
      ∃ b t, balloc s = .ok (b, t) ∧ Takes s t own inum b := by
  rcases balloc_cases s with ⟨all, ran⟩ | ⟨b, inside, free, ran⟩
  · refine .inl ⟨Finset.eq_empty_of_forall_notMem fun b member => ?_, ran⟩
    obtain ⟨inside, free⟩ := mem_freeBlocks.mp member
    simp [all b inside] at free
  · have unowned : ¬ (b < s.sb.dataStart ∨ ∃ inum, b ∈ own inum) := by
      rw [← accounts.marks b inside, free]
      simp
    rw [not_or, not_exists, Nat.not_lt] at unowned
    obtain ⟨data, fresh⟩ := unowned
    have outside := not_mem_map data
    have logs : Logs s (bzero (s.logWrite (bblock b s.sb)
        (setBit (s.block (bblock b s.sb)) (b % bpb))) b) (insert b s.sb.map) :=
      (logs_logWrite s _ (.inr (bblock_mem accounts.valid inside))).trans
        (logs_logWrite _ _ (.inl rfl))
    have marks : ∀ c < s.sb.size, marked (bzero (s.logWrite (bblock b s.sb)
        (setBit (s.block (bblock b s.sb)) (b % bpb))) b) c = (marked s c || decide (b = c)) := by
      intro c small
      rw [← marked_setBit]
      refine marked_congr rfl (Function.update_of_ne ?_ _ _)
      rintro same
      exact outside (same ▸ bblock_mem accounts.valid small)
    refine .inr ⟨b, _, ran, data, fresh, ⟨accounts.valid, ?_, ?_, ?_, ?_⟩, logs, ?_, ?_, ?_⟩
    · have super : (1 : ℕ) ∉ insert b s.sb.map := by
        rintro (rfl | inside)
        · exact absurd data (Nat.not_le.mpr accounts.valid.one_lt)
        · exact accounts.valid.one_not_mem_map inside
      rw [readsb_congr (logs.block_eq super), accounts.sb]
      rfl
    · intro i c member
      rcases mem_give.mp member with before | ⟨-, rfl⟩
      · exact accounts.range i c before
      · exact ⟨data, inside⟩
    · intro i j c first second
      rcases mem_give.mp first with before | ⟨rfl, rfl⟩
      · rcases mem_give.mp second with before' | ⟨rfl, rfl⟩
        · exact accounts.apart i j c before before'
        · exact absurd before (fresh i)
      · rcases mem_give.mp second with before' | ⟨rfl, -⟩
        · exact absurd before' (fresh j)
        · rfl
    · intro c small
      rw [marks c small, Bool.or_eq_true, accounts.marks c small, decide_eq_true_iff, or_assoc]
      refine or_congr_right ⟨?_, ?_⟩
      · rintro (⟨i, member⟩ | rfl)
        · exact ⟨i, mem_give.mpr (.inl member)⟩
        · exact ⟨inum, mem_give.mpr (.inr ⟨rfl, rfl⟩)⟩
      · rintro ⟨i, member⟩
        exact (mem_give.mp member).imp (fun before => ⟨i, before⟩) fun new => new.2.symm
    · exact Function.update_self _ _ _
    · exact mem_freeBlocks.mpr ⟨inside, free⟩
    · ext c
      rw [Finset.mem_erase, mem_freeBlocks, mem_freeBlocks, and_left_comm]
      refine and_congr_right fun small => ?_
      rw [marks c small, Bool.or_eq_false_iff, decide_eq_false_iff_not, and_comm, ne_comm]

/-- **`bfree` of a block that has an owner does not panic**, and the owner loses it. -/
theorem Accounts.bfree (accounts : Accounts s own) (member : b ∈ own inum) :
    ∃ t, bfree s b = .ok t ∧ Logs s t s.sb.map ∧
      Accounts t (Function.update own inum ((own inum).erase b)) := by
  obtain ⟨data, inside⟩ := accounts.range inum b member
  have there : marked s b = true := (accounts.marks b inside).mpr (.inr ⟨inum, member⟩)
  have ran : Fs.bfree s b = .ok (s.logWrite (bblock b s.sb)
      (clearBit (s.block (bblock b s.sb)) (b % bpb))) := by
    rw [marked] at there
    simp only [Fs.bfree, accounts.sb, there, if_true]
  have logs : Logs s (s.logWrite (bblock b s.sb)
      (clearBit (s.block (bblock b s.sb)) (b % bpb))) s.sb.map :=
    logs_logWrite s _ (bblock_mem accounts.valid inside)
  refine ⟨_, ran, logs, accounts.valid, ?_, ?_, ?_, ?_⟩
  · rw [readsb_congr (logs.block_eq accounts.valid.one_not_mem_map), accounts.sb]
    rfl
  · intro i c kept
    exact accounts.range i c (mem_drop.mp kept).1
  · intro i j c first second
    exact accounts.apart i j c (mem_drop.mp first).1 (mem_drop.mp second).1
  · intro c small
    rw [marked_clearBit, Bool.and_eq_true, accounts.marks c small, decide_eq_true_iff]
    constructor
    · rintro ⟨low | ⟨i, member'⟩, other⟩
      · exact .inl low
      · exact .inr ⟨i, mem_drop.mpr ⟨member', fun same => other same.2.symm⟩⟩
    · rintro (low | ⟨i, kept⟩)
      · have low : c < s.sb.dataStart := low
        exact ⟨.inl low, by omega⟩
      · obtain ⟨member', other⟩ := mem_drop.mp kept
        refine ⟨.inr ⟨i, member'⟩, ?_⟩
        rintro rfl
        exact other ⟨accounts.apart i inum b member' member, rfl⟩

end Accounts

/-! ### Inodes on the disk -/

/-- The numbers of an inode are `uint`. -/
def Dinode.Fits (ip : Dinode) : Prop := ip.size < uintSize ∧ ∀ i, ip.addrs i < uintSize

theorem short_toNat (x : Int16) : short x.toUInt16.toNat = x := by simp [short]

theorem length_dinode_bytes (ip : Dinode) : ip.bytes.length = dinodeSize := by
  simp only [Dinode.bytes, List.length_append, length_bytes, length_row, List.length_ofFn]
  rfl

/-- **What `iupdate` writes is what `ilock` reads.** -/
theorem read_bytes (data : Buffer) (off : ℕ) (fits : ip.Fits) :
    Dinode.read (patch data off ip.bytes) off = ip := by
  have half : ∀ x : Int16, x.toUInt16.toNat < 256 ^ 2 := fun x => x.toUInt16.toNat_lt
  have whole : uintSize = 256 ^ 4 := rfl
  obtain ⟨size, addrs⟩ := fits
  rw [whole] at size addrs
  have row : ∀ v ∈ List.ofFn ip.addrs, v < 256 ^ 4 := by
    intro v member
    obtain ⟨i, rfl⟩ := List.mem_ofFn.mp member
    exact addrs i
  rw [Dinode.read, Dinode.bytes]
  ext i
  · dsimp only
    rw [field_patch_bytes_append _ _ (half _), short_toNat]
  · dsimp only
    rw [patch_append, length_bytes, field_patch_bytes_append _ _ (half _), short_toNat]
  · dsimp only
    rw [patch_append, patch_append, length_bytes, length_bytes, Nat.add_assoc,
      field_patch_bytes_append _ _ (half _), short_toNat]
  · dsimp only
    rw [patch_append, patch_append, patch_append, length_bytes, length_bytes, length_bytes,
      Nat.add_assoc, Nat.add_assoc, field_patch_bytes_append _ _ (half _), short_toNat]
  · dsimp only
    rw [patch_append, patch_append, patch_append, patch_append, length_bytes, length_bytes,
      length_bytes, length_bytes, Nat.add_assoc, Nat.add_assoc, Nat.add_assoc,
      field_patch_bytes_append _ _ size]
  · dsimp only
    rw [patch_append, patch_append, patch_append, patch_append, patch_append, length_bytes,
      length_bytes, length_bytes, length_bytes, length_bytes]
    exact (field_row _ _ 4 _ row i (by rw [List.length_ofFn]; exact i.isLt)).trans
      (List.getElem_ofFn _)

theorem read_patch_of_apart {data : Buffer} {o off : ℕ} {l : List UInt8}
    (apart : o + dinodeSize ≤ off ∨ off + l.length ≤ o) :
    Dinode.read (patch data off l) o = Dinode.read data o := by
  have size : dinodeSize = 64 := rfl
  rw [Dinode.read, Dinode.read]
  ext i
  · exact congrArg short (field_patch_of_apart (by omega))
  · exact congrArg short (field_patch_of_apart (by omega))
  · exact congrArg short (field_patch_of_apart (by omega))
  · exact congrArg short (field_patch_of_apart (by omega))
  · exact field_patch_of_apart (by omega)
  · have small : i.val < 13 := i.isLt
    exact field_patch_of_apart (by omega)

/-- **The inodes**; those beyond the last one are not used. -/
def inode (s : State) (inum : ℕ) : Dinode :=
  if inum < s.sb.ninodes then dinode s inum else Dinode.zero

@[simp] theorem iupdate_sb (s : State) (inum : ℕ) (ip : Dinode) : (iupdate s inum ip).sb = s.sb := rfl

theorem iupdate_block (s : State) (inum : ℕ) (ip : Dinode) : (iupdate s inum ip).block =
    Function.update s.block (iblock inum s.sb)
      (patch (s.block (iblock inum s.sb)) (inum % ipb * dinodeSize) ip.bytes) := rfl

theorem dinode_iupdate (s : State) (inum : ℕ) (fits : ip.Fits) :
    dinode (iupdate s inum ip) inum = ip := by
  rw [dinode, iupdate_sb, iupdate_block, Function.update_self, read_bytes _ _ fits]

theorem dinode_iupdate_of_ne (s : State) (ip : Dinode) {i : ℕ} (other : i ≠ inum) :
    dinode (iupdate s inum ip) i = dinode s i := by
  rw [dinode, dinode, iupdate_sb, iupdate_block]
  by_cases same : iblock i s.sb = iblock inum s.sb
  · have apart : i % ipb * dinodeSize + dinodeSize ≤ inum % ipb * dinodeSize ∨
        inum % ipb * dinodeSize + ip.bytes.length ≤ i % ipb * dinodeSize := by
      rw [length_dinode_bytes]
      rw [iblock, iblock] at same
      rw [show ipb = 8 from rfl, show dinodeSize = 64 from rfl] at *
      omega
    rw [same, Function.update_self, read_patch_of_apart apart]
  · rw [Function.update_of_ne same]

theorem inode_iupdate (inside : inum < s.sb.ninodes) (fits : ip.Fits) :
    inode (iupdate s inum ip) = Function.update (inode s) inum ip := by
  funext i
  by_cases same : i = inum
  · subst same
    rw [Function.update_self, inode, iupdate_sb, if_pos inside, dinode_iupdate s i fits]
  · rw [Function.update_of_ne same, inode, inode, iupdate_sb, dinode_iupdate_of_ne s ip same]

/-- Writes behind the inodes leave them alone. -/
theorem Logs.inode_eq (logs : Logs s t touch) (valid : s.sb.Valid)
    (behind : ∀ b ∈ touch, s.sb.bmapstart ≤ b) : inode t = inode s := by
  funext inum
  rw [inode, inode, logs.sb]
  by_cases inside : inum < s.sb.ninodes
  · have before := (iblock_lt valid inside).2
    rw [if_pos inside, if_pos inside, dinode, dinode, logs.sb,
      logs.block_eq fun touched => absurd (behind _ touched) (Nat.not_le.mpr before)]
  · rw [if_neg inside, if_neg inside]

/-! ### The blocks of a file -/

/-- **`l` is the list of the blocks of a file**: the first addresses are in the inode, the others in
the indirect block. -/
structure Maps (block : ℕ → Buffer) (ip : Dinode) (l : List ℕ) : Prop where
  short : l.length ≤ maxFile
  direct : ∀ i : Fin ndirect, ip.addrs i.castSucc = l.getD i 0
  indirect : ip.indirect = 0 ↔ l.length ≤ ndirect
  entries : ip.indirect ≠ 0 → ∀ j < nindirect,
    entry (block ip.indirect) j = l.getD (ndirect + j) 0
  nonzero : 0 ∉ l
  nodup : l.Nodup
  apart : ip.indirect ∉ l

/-- All the blocks of a file. -/
def owned (ip : Dinode) (l : List ℕ) : Finset ℕ :=
  if ip.indirect = 0 then l.toFinset else insert ip.indirect l.toFinset

section Maps

variable {block block' : ℕ → Buffer} {l : List ℕ} {own : ℕ → Finset ℕ}

theorem mem_owned (member : b ∈ l) : b ∈ owned ip l := by
  unfold owned
  split <;> simp [member]

theorem indirect_mem_owned (there : ip.indirect ≠ 0) : ip.indirect ∈ owned ip l := by
  rw [owned, if_neg there]
  exact Finset.mem_insert_self _ _

theorem Maps.congr (maps : Maps block ip l)
    (same : ip.indirect ≠ 0 → block' ip.indirect = block ip.indirect) : Maps block' ip l :=
  { maps with
    entries := fun there j small => by rw [same there, maps.entries there j small] }

theorem setAddr_eq_self (ip : Dinode) (i : Fin (ndirect + 1)) : ip.setAddr i (ip.addrs i) = ip := by
  rw [Dinode.setAddr, Function.update_eq_self]

theorem addrs_setAddr (ip : Dinode) (i j : Fin (ndirect + 1)) (addr : ℕ) :
    (ip.setAddr i addr).addrs j = if j = i then addr else ip.addrs j := Function.update_apply _ _ _ _

/-- **A block that the file has.** -/
theorem Maps.bmap_of_lt (maps : Maps s.block ip l) {bn : ℕ} (inside : bn < l.length) :
    bmap s ip bn = .ok (l[bn], ip, s) := by
  have there : l[bn] ≠ 0 := fun zero => maps.nonzero (zero ▸ List.getElem_mem inside)
  by_cases direct : bn < ndirect
  · have addr : ip.addrs ⟨bn, Nat.lt_succ_of_lt direct⟩ = l[bn] :=
      (maps.direct ⟨bn, direct⟩).trans (List.getD_eq_getElem _ _ inside)
    rw [bmap, dif_pos direct]
    simp only [orBalloc, addr, if_neg there, bind, Except.bind, pure, Except.pure]
    rw [← addr, setAddr_eq_self]
  · have small : bn - ndirect < nindirect := by
      have := maps.short
      rw [maxFile] at this
      omega
    have index : ip.indirect ≠ 0 := fun zero => by
      have := maps.indirect.mp zero
      omega
    have addr : entry (s.block ip.indirect) (bn - ndirect) = l[bn] := by
      rw [maps.entries index _ small, Nat.add_sub_cancel' (Nat.le_of_not_lt direct),
        List.getD_eq_getElem _ _ inside]
    rw [bmap, dif_neg direct, if_pos small]
    simp only [orBalloc, if_neg index, addr, if_neg there, bind, Except.bind, pure, Except.pure]
    rw [Dinode.indirect, setAddr_eq_self]

theorem entry_setField (data : Buffer) {j v : ℕ} (small : v < uintSize) (i : ℕ) :
    entry (setField data (4 * j) 4 v) i = if i = j then v else entry data i := by
  split
  · subst i
    exact field_setField small
  · exact field_setField_of_apart (by omega)

theorem entry_zero (j : ℕ) : entry (fun _ => 0) j = 0 := rfl

theorem getD_concat (l : List ℕ) (b i : ℕ) :
    (l ++ [b]).getD i 0 = if i = l.length then b else l.getD i 0 := by
  rcases Nat.lt_trichotomy i l.length with before | here | behind
  · rw [List.getD_append _ _ _ _ before, if_neg before.ne]
  · rw [if_pos here, List.getD_append_right _ _ _ _ here.ge, here, Nat.sub_self, List.getD_cons_zero]
  · rw [if_neg behind.ne', List.getD_eq_default _ _ (by simp; omega),
      List.getD_eq_default _ _ behind.le]

/-- A file with an indirect block, in use or about to be. -/
structure Indexed (block : ℕ → Buffer) (ip : Dinode) (l : List ℕ) : Prop where
  short : l.length ≤ maxFile
  long : ndirect ≤ l.length
  there : ip.indirect ≠ 0
  direct : ∀ i : Fin ndirect, ip.addrs i.castSucc = l.getD i 0
  entries : ∀ j < nindirect, entry (block ip.indirect) j = l.getD (ndirect + j) 0
  nonzero : 0 ∉ l
  nodup : l.Nodup
  apart : ip.indirect ∉ l

theorem Maps.indexed (maps : Maps block ip l) (long : ndirect < l.length) : Indexed block ip l := by
  have there : ip.indirect ≠ 0 := fun zero => absurd (maps.indirect.mp zero) (Nat.not_le.mpr long)
  exact ⟨maps.short, long.le, there, maps.direct, maps.entries there, maps.nonzero, maps.nodup,
    maps.apart⟩

theorem Takes.ne_zero (takes : Takes s t own inum b) : b ≠ 0 := by
  have positive := takes.accounts.valid.one_lt
  rw [takes.logs.sb] at positive
  have := takes.data
  omega

/-- What may be written when a file changes: the free map, some of its blocks and its indirect
block. -/
def touches (sb : Superblock) (ip : Dinode) (data : Set ℕ) : Set ℕ :=
  {b | b ∈ sb.map ∨ b ∈ data ∨ b = ip.indirect ∧ b ≠ 0}

/-- What `bmap` leaves: the blocks `more` were added to the file, and `need` blocks allocated. -/
structure Grows (s t : State) (own : ℕ → Finset ℕ) (inum : ℕ) (ip ip' : Dinode) (l more : List ℕ)
    (need : ℕ) : Prop where
  maps : Maps t.block ip' (l ++ more)
  accounts : Accounts t (Function.update own inum (owned ip' (l ++ more)))
  info : ip' = { ip with addrs := ip'.addrs }
  index : ip.indirect ≠ 0 → ip'.indirect = ip.indirect
  logs : Logs s t (touches s.sb ip' {b | b ∈ more})
  free : (freeBlocks t).card + need = (freeBlocks s).card
  kept : ∀ b ∈ l, t.block b = s.block b

theorem owned_concat (same : ip'.indirect = ip.indirect) :
    owned ip' (l ++ [b]) = insert b (owned ip l) := by
  have list : (l ++ [b]).toFinset = insert b l.toFinset := by
    ext c
    simp
  rw [owned, owned, same, list]
  split
  · rfl
  · exact Finset.insert_comm _ _ _

theorem not_mem_map_of_mem (accounts : Accounts s own) (member : b ∈ own inum) : b ∉ s.sb.map :=
  not_mem_map (accounts.range inum b member).1

/-- The block that `balloc` returns is new to the file. -/
theorem Takes.not_mem (takes : Takes s t own inum b) (mine : own inum = owned ip l) : b ∉ l :=
  fun member => takes.fresh inum (mine ▸ mem_owned member)

/-- The other blocks of the file stay as they are. -/
theorem Takes.kept (takes : Takes s t own inum b) (accounts : Accounts s own)
    (mine : c ∈ own inum) : t.block c = s.block c := by
  refine takes.logs.block_eq ?_
  rintro (rfl | map)
  · exact takes.fresh inum mine
  · exact not_mem_map_of_mem accounts mine map

theorem Takes.card (takes : Takes s t own inum b) :
    (freeBlocks t).card + 1 = (freeBlocks s).card := by
  rw [takes.free, Finset.card_erase_add_one takes.member]

theorem zero_not_mem_concat (nonzero : 0 ∉ l) (there : b ≠ 0) : 0 ∉ l ++ [b] := by
  simpa using ⟨nonzero, there.symm⟩

theorem nodup_concat (nodup : l.Nodup) (absent : b ∉ l) : (l ++ [b]).Nodup := by
  rw [← List.concat_eq_append]
  exact nodup.concat absent

/-- **A block in the inode.** -/
theorem Maps.bmap_direct (maps : Maps s.block ip l) (accounts : Accounts s own)
    (mine : own inum = owned ip l) (direct : l.length < ndirect) :
    freeBlocks s = ∅ ∧ bmap s ip l.length = .error .outOfBlocks ∨
      ∃ b ip' t, bmap s ip l.length = .ok (b, ip', t) ∧ Grows s t own inum ip ip' l [b] 1 := by
  have none : ip.indirect = 0 := maps.indirect.mpr direct.le
  have empty : ip.addrs ⟨l.length, Nat.lt_succ_of_lt direct⟩ = 0 :=
    (maps.direct ⟨l.length, direct⟩).trans (List.getD_eq_default _ _ le_rfl)
  rcases accounts.balloc inum with ⟨full, ran⟩ | ⟨b, t, ran, takes⟩
  · refine .inl ⟨full, ?_⟩
    rw [bmap, dif_pos direct]
    simp only [orBalloc, empty, if_true, ran, bind, Except.bind]
  · have absent := takes.not_mem mine
    have indirect : (ip.setAddr ⟨l.length, Nat.lt_succ_of_lt direct⟩ b).indirect = 0 := by
      rw [Dinode.indirect, addrs_setAddr, if_neg, ← Dinode.indirect, none]
      exact fun last => direct.ne' (congrArg Fin.val last)
    refine .inr ⟨b, ip.setAddr ⟨l.length, Nat.lt_succ_of_lt direct⟩ b, t, ?_, ?_⟩
    · rw [bmap, dif_pos direct]
      simp only [orBalloc, empty, if_true, ran, bind, Except.bind]
      rfl
    · refine ⟨⟨?_, fun i => ?_, ?_, fun there => absurd indirect there,
        zero_not_mem_concat maps.nonzero takes.ne_zero, nodup_concat maps.nodup absent, ?_⟩, ?_,
        rfl, fun there => absurd none there, ?_, takes.card,
        fun c member => takes.kept accounts (mine ▸ mem_owned member)⟩
      · rw [List.length_append, List.length_singleton, maxFile]
        omega
      · rw [addrs_setAddr, getD_concat, maps.direct]
        simp only [Fin.ext_iff, Fin.val_castSucc]
      · rw [indirect, List.length_append, List.length_singleton]
        exact iff_of_true rfl direct
      · rw [indirect]
        exact zero_not_mem_concat maps.nonzero takes.ne_zero
      · rw [owned_concat (indirect.trans none.symm), ← mine]
        exact takes.accounts
      · refine takes.logs.mono ?_
        rintro c (rfl | map)
        · exact .inr (.inl (List.mem_singleton_self c))
        · exact .inl map

/-- **An entry of the indirect block.** -/
theorem Indexed.add (indexed : Indexed s.block ip l) (accounts : Accounts s own)
    (mine : own inum = owned ip l) (room : l.length < maxFile) (takes : Takes s t own inum b) :
    Grows s (t.logWrite ip.indirect (setField (t.block ip.indirect) (4 * (l.length - ndirect)) 4 b))
      own inum ip ip l [b] 1 := by
  have absent := takes.not_mem mine
  have index : ip.indirect ∈ own inum := mine ▸ indirect_mem_owned indexed.there
  have other : b ≠ ip.indirect := fun same => takes.fresh inum (same ▸ index)
  have outside : ip.indirect ∉ s.sb.map := not_mem_map_of_mem accounts index
  have long := indexed.long
  have small : b < uintSize := by
    have inside := (mem_freeBlocks.mp takes.member).1
    exact inside.trans accounts.valid.small
  have fresh : Accounts t (Function.update own inum (owned ip (l ++ [b]))) := by
    rw [owned_concat rfl, ← mine]
    exact takes.accounts
  have written := logs_logWrite t (setField (t.block ip.indirect) (4 * (l.length - ndirect)) 4 b)
    (Set.mem_singleton ip.indirect)
  refine ⟨⟨?_, fun i => ?_, ?_, fun _ j small' => ?_,
    zero_not_mem_concat indexed.nonzero takes.ne_zero, nodup_concat indexed.nodup absent, ?_⟩, ?_,
    rfl, fun _ => rfl, ?_, ?_, fun c member => ?_⟩
  · rw [List.length_append, List.length_singleton]
    omega
  · have before : i.val ≠ l.length := by
      have := i.isLt
      omega
    rw [getD_concat, if_neg before, indexed.direct]
  · rw [List.length_append, List.length_singleton]
    exact ⟨fun zero => absurd zero indexed.there, fun short => absurd short (by omega)⟩
  · show entry (Function.update t.block _ _ _) j = _
    rw [Function.update_self, entry_setField _ small, getD_concat, takes.kept accounts index,
      indexed.entries j small']
    exact if_congr (by omega) rfl rfl
  · rw [List.mem_append, List.mem_singleton, not_or]
    exact ⟨indexed.apart, other.symm⟩
  · refine fresh.logs written ?_ ?_
    · rw [Set.mem_singleton_iff]
      have positive := accounts.valid.one_lt
      have := (accounts.range inum _ index).1
      omega
    · rintro c rfl
      rwa [takes.logs.sb]
  · refine (takes.logs.mono ?_).trans (written.mono ?_)
    · rintro c (rfl | map)
      · exact .inr (.inl (List.mem_singleton_self c))
      · exact .inl map
    · rintro c rfl
      exact .inr (.inr ⟨rfl, indexed.there⟩)
  · rw [written.freeBlocks_eq takes.accounts.valid, takes.card]
    rintro c rfl
    rwa [takes.logs.sb]
  · have mine' : c ∈ own inum := mine ▸ mem_owned member
    have apart : c ≠ ip.indirect := fun same => indexed.apart (same ▸ member)
    rw [written.block_eq apart, takes.kept accounts mine']

/-- The blocks that `bmap` allocates for block number `k` of a file. -/
def need (k : ℕ) : ℕ := if k = ndirect then 2 else 1

theorem Takes.indexed (takes : Takes s t own inum b) (maps : Maps s.block ip l)
    (mine : own inum = owned ip l) (full : l.length = ndirect) :
    Indexed t.block (ip.setAddr (Fin.last ndirect) b) l ∧
      owned (ip.setAddr (Fin.last ndirect) b) l = insert b (own inum) := by
  have none : ip.indirect = 0 := maps.indirect.mpr full.le
  have index : (ip.setAddr (Fin.last ndirect) b).indirect = b := by
    rw [Dinode.indirect, addrs_setAddr, if_pos rfl]
  refine ⟨⟨maps.short, full.ge, index ▸ takes.ne_zero, fun i => ?_, fun j _ => ?_, maps.nonzero,
    maps.nodup, index ▸ takes.not_mem mine⟩, ?_⟩
  · rw [addrs_setAddr, if_neg (Fin.castSucc_ne_last i), maps.direct]
  · rw [index, takes.zero, entry_zero, List.getD_eq_default _ _ (by omega)]
  · rw [owned, index, if_neg takes.ne_zero, mine, owned, if_pos none]

/-- **The next block of a file.** `bmap` panics exactly if there are too few free blocks. -/
theorem Maps.bmap_grow (maps : Maps s.block ip l) (accounts : Accounts s own)
    (mine : own inum = owned ip l) (room : l.length < maxFile) :
    (freeBlocks s).card < need l.length ∧ bmap s ip l.length = .error .outOfBlocks ∨
      ∃ b ip' t, bmap s ip l.length = .ok (b, ip', t) ∧
        Grows s t own inum ip ip' l [b] (need l.length) := by
  have small : l.length - ndirect < nindirect := by
    rw [maxFile] at room
    have positive : 0 < nindirect := by decide
    omega
  rcases Nat.lt_trichotomy l.length ndirect with direct | full | indirect
  · rw [need, if_neg direct.ne]
    exact (maps.bmap_direct accounts mine direct).imp_left fun ⟨full, ran⟩ => ⟨by simp [full], ran⟩
  · have none : ip.indirect = 0 := maps.indirect.mpr full.le
    rw [need, if_pos full, bmap, dif_neg full.not_lt, if_pos small]
    rcases accounts.balloc inum with ⟨none', ran⟩ | ⟨index, s₁, ran, takes⟩
    · refine .inl ⟨by simp [none'], ?_⟩
      simp only [orBalloc, none, if_true, ran, bind, Except.bind]
    · obtain ⟨indexed, mine₁⟩ := takes.indexed maps mine full
      have first : entry (s₁.block index) (l.length - ndirect) = 0 := by rw [takes.zero, entry_zero]
      have card := takes.card
      rcases takes.accounts.balloc inum with ⟨none', ran'⟩ | ⟨b, t, ran', takes'⟩
      · refine .inl ⟨by rw [none', Finset.card_empty] at card; omega, ?_⟩
        simp only [orBalloc, none, if_true, ran, bind, Except.bind, first, ran']
      · have grows := indexed.add takes.accounts
          ((Function.update_self _ _ _).trans mine₁.symm) room takes'
        have index' : (ip.setAddr (Fin.last ndirect) index).indirect = index := by
          rw [Dinode.indirect, addrs_setAddr, if_pos rfl]
        refine .inr ⟨b, ip.setAddr (Fin.last ndirect) index, _, ?_, grows.maps, ?_, rfl,
          fun there => absurd none there, ?_, ?_, fun c member => ?_⟩
        · rw [index']
          simp only [orBalloc, none, if_true, ran, bind, Except.bind, first, ran']
          rfl
        · have accounts' := grows.accounts
          rwa [Function.update_idem] at accounts'
        · refine (takes.logs.mono ?_).trans (takes.logs.sb ▸ grows.logs)
          rintro c (rfl | map)
          · exact .inr (.inr ⟨index'.symm, takes.ne_zero⟩)
          · exact .inl map
        · have := grows.free
          omega
        · rw [grows.kept c member, takes.kept accounts (mine ▸ mem_owned member)]
  · have indexed := maps.indexed indirect
    have none : entry (s.block ip.indirect) (l.length - ndirect) = 0 := by
      rw [indexed.entries _ small, List.getD_eq_default _ _ (by omega)]
    rw [need, if_neg indirect.ne', bmap, dif_neg indirect.not_gt, if_pos small]
    rcases accounts.balloc inum with ⟨none', ran⟩ | ⟨b, t, ran, takes⟩
    · refine .inl ⟨by simp [none'], ?_⟩
      simp only [orBalloc, if_neg indexed.there, bind, Except.bind, none, if_true, ran]
    · refine .inr ⟨b, ip, _, ?_, indexed.add accounts mine room takes⟩
      simp only [orBalloc, if_neg indexed.there, bind, Except.bind, none, if_true, ran]
      rw [Dinode.indirect, setAddr_eq_self]
      rfl

theorem lt_length_of_getD {i : ℕ} (there : l.getD i 0 ≠ 0) : i < l.length := by
  by_contra outside
  exact there (List.getD_eq_default _ _ (Nat.le_of_not_lt outside))

theorem getD_mem {i : ℕ} (there : l.getD i 0 ≠ 0) : l.getD i 0 ∈ l := by
  rw [List.getD_eq_getElem _ _ (lt_length_of_getD there)]
  exact List.getElem_mem _

theorem eq_of_getD_eq (nodup : l.Nodup) {i j : ℕ} (there : l.getD i 0 ≠ 0)
    (same : l.getD i 0 = l.getD j 0) : i = j := by
  have first := lt_length_of_getD there
  have second := lt_length_of_getD (same ▸ there)
  rw [List.getD_eq_getElem _ _ first, List.getD_eq_getElem _ _ second] at same
  exact nodup.getElem_inj_iff.mp same

/-- **A loop that frees the blocks of an inode.** What it reads is not in the free map. -/
theorem Accounts.freeAll {ι : Type} (accounts : Accounts s own) (inum : ℕ) (is : List ι)
    (addr : State → ι → ℕ)
    (stable : ∀ t, Logs s t s.sb.map → ∀ i, addr t i = addr s i)
    (members : ∀ i ∈ is, addr s i ≠ 0 → addr s i ∈ own inum)
    (distinct : is.Pairwise fun i j => addr s i ≠ 0 → addr s i ≠ addr s j) :
    ∃ t, is.foldlM (fun s i => freeSlot s (addr s i)) s = .ok t ∧ Logs s t s.sb.map ∧
      Accounts t (Function.update own inum (own inum \ (is.map (addr s)).toFinset)) := by
  induction is generalizing s own with
  | nil => exact ⟨s, rfl, .refl s _, by simpa using accounts⟩
  | cons i is ih =>
    obtain ⟨first, rest⟩ := List.pairwise_cons.mp distinct
    by_cases zero : addr s i = 0
    · obtain ⟨t, ran, logs, accounts'⟩ := ih accounts stable
        (fun j member => members j (List.mem_cons_of_mem _ member)) rest
      refine ⟨t, ?_, logs, ?_⟩
      · rw [List.foldlM_cons, freeSlot, if_pos zero]
        exact ran
      · have outside : 0 ∉ own inum := fun member => accounts.ne_zero member rfl
        rw [List.map_cons, List.toFinset_cons, zero, Finset.sdiff_insert_of_notMem outside]
        exact accounts'
    · have member := members i List.mem_cons_self zero
      obtain ⟨s₁, freed, logs₁, accounts₁⟩ := accounts.bfree member
      have same : ∀ j, addr s₁ j = addr s j := stable s₁ logs₁
      obtain ⟨t, ran, logs, accounts'⟩ := ih accounts₁
        (fun t logs j => (stable t (logs₁.trans (logs₁.sb ▸ logs)) j).trans (same j).symm)
        (fun j listed there => by
          rw [same] at there ⊢
          rw [Function.update_self, Finset.mem_erase]
          exact ⟨(first j listed zero).symm, members j (List.mem_cons_of_mem _ listed) there⟩)
        (rest.imp fun apart => by simpa only [same] using apart)
      refine ⟨t, ?_, logs₁.trans (logs₁.sb ▸ logs), ?_⟩
      · rw [List.foldlM_cons, freeSlot, if_neg zero, freed]
        exact ran
      · rw [Function.update_idem, Function.update_self, funext same] at accounts'
        rw [List.map_cons, List.toFinset_cons, Finset.sdiff_insert, ← Finset.erase_sdiff_comm]
        exact accounts'

/-- **The loop, if it reads the blocks of a list and zeros.** -/
theorem Accounts.freeList {ι : Type} (accounts : Accounts s own) (is : List ι)
    (addr : State → ι → ℕ)
    (stable : ∀ t, Logs s t s.sb.map → ∀ i, addr t i = addr s i)
    (distinct : is.Pairwise fun i j => addr s i ≠ 0 → addr s i ≠ addr s j) {blocks : List ℕ}
    (mine : ∀ b ∈ blocks, b ∈ own inum)
    (read : ∀ b, b ≠ 0 → ((∃ i ∈ is, addr s i = b) ↔ b ∈ blocks)) :
    ∃ t, is.foldlM (fun s i => freeSlot s (addr s i)) s = .ok t ∧ Logs s t s.sb.map ∧
      Accounts t (Function.update own inum (own inum \ blocks.toFinset)) := by
  obtain ⟨t, ran, logs, accounts'⟩ := accounts.freeAll inum is addr stable
    (fun i member there => mine _ ((read _ there).mp ⟨i, member, rfl⟩)) distinct
  have same : own inum \ blocks.toFinset = own inum \ (is.map (addr s)).toFinset := by
    ext b
    rw [Finset.mem_sdiff, Finset.mem_sdiff, List.mem_toFinset, List.mem_toFinset, List.mem_map]
    exact and_congr_right fun member => not_congr (read b (accounts.ne_zero member)).symm
  exact ⟨t, ran, logs, same ▸ accounts'⟩

/-- The addresses that a loop reads, zeros left out. -/
theorem mem_map_getD {k n : ℕ} (there : b ≠ 0) :
    (∃ j < n, l.getD (k + j) 0 = b) ↔ b ∈ (l.drop k).take n := by
  rw [List.mem_take_iff_getElem]
  constructor
  · rintro ⟨j, small, rfl⟩
    have inside := lt_length_of_getD there
    refine ⟨j, by rw [List.length_drop]; omega, ?_⟩
    rw [List.getElem_drop, List.getD_eq_getElem _ _ inside]
  · rintro ⟨j, small, rfl⟩
    rw [List.length_drop] at small
    refine ⟨j, by omega, ?_⟩
    rw [List.getElem_drop, List.getD_eq_getElem _ _ (by omega)]

/-- The loop over the addresses in the inode. -/
theorem Maps.freeDirect (maps : Maps s.block ip l) (accounts : Accounts s own)
    (mine : own inum = owned ip l) :
    ∃ t, (List.finRange ndirect).foldlM (fun s i => freeSlot s (ip.addrs i.castSucc)) s = .ok t ∧
      Logs s t s.sb.map ∧
      Accounts t (Function.update own inum (own inum \ (l.take ndirect).toFinset)) := by
  refine accounts.freeList (List.finRange ndirect) (fun _ i => ip.addrs i.castSucc)
    (fun _ _ _ => rfl) ((List.nodup_finRange ndirect).imp fun other there same => ?_)
    (fun b member => mine ▸ mem_owned (List.mem_of_mem_take member)) fun b there => ?_
  · rw [maps.direct] at there
    rw [maps.direct, maps.direct] at same
    exact other (Fin.ext (eq_of_getD_eq maps.nodup there same))
  · rw [← List.drop_zero (l := l), ← mem_map_getD there]
    constructor
    · rintro ⟨i, -, rfl⟩
      exact ⟨i, i.isLt, by rw [maps.direct, Nat.zero_add]⟩
    · rintro ⟨i, small, rfl⟩
      exact ⟨⟨i, small⟩, List.mem_finRange _, by rw [maps.direct, Nat.zero_add]⟩

/-- The loop over the indirect block. -/
theorem Maps.freeIndirect (maps : Maps s.block ip l) (there : ip.indirect ≠ 0)
    (accounts : Accounts s own) (index : ip.indirect ∈ own inum)
    (mine : ∀ b ∈ l.drop ndirect, b ∈ own inum) :
    ∃ t, (List.range nindirect).foldlM (fun s j => freeSlot s (entry (s.block ip.indirect) j)) s =
        .ok t ∧ Logs s t s.sb.map ∧
      Accounts t (Function.update own inum (own inum \ (l.drop ndirect).toFinset)) := by
  have outside := not_mem_map_of_mem accounts index
  have entries := maps.entries there
  have all : (l.drop ndirect).take nindirect = l.drop ndirect := by
    refine List.take_of_length_le ?_
    have short := maps.short
    rw [maxFile] at short
    rw [List.length_drop]
    omega
  refine accounts.freeList (List.range nindirect) (fun s j => entry (s.block ip.indirect) j)
    (fun t logs j => by rw [logs.block_eq outside]) ?_ mine fun b there => ?_
  · refine List.pairwise_iff_getElem.mpr fun i j first second before there same => ?_
    rw [List.getElem_range] at there
    rw [List.getElem_range, List.getElem_range] at same
    rw [List.length_range] at first second
    rw [entries i first] at there
    rw [entries i first, entries j second] at same
    have := eq_of_getD_eq maps.nodup there same
    omega
  · rw [← all, ← mem_map_getD there]
    constructor
    · rintro ⟨j, listed, rfl⟩
      exact ⟨j, List.mem_range.mp listed, (entries j (List.mem_range.mp listed)).symm⟩
    · rintro ⟨j, small, rfl⟩
      exact ⟨j, List.mem_range.mpr small, entries j small⟩

/-- **`itrunc` frees every block of the file.** -/
theorem Maps.itrunc (maps : Maps s.block ip l) (accounts : Accounts s own)
    (mine : own inum = owned ip l) :
    ∃ t, itrunc s inum ip = .ok ({ ip with addrs := fun _ => 0, size := 0 },
        iupdate t inum { ip with addrs := fun _ => 0, size := 0 }) ∧
      Logs s t s.sb.map ∧ Accounts t (Function.update own inum ∅) := by
  obtain ⟨s₁, ran₁, logs₁, accounts₁⟩ := maps.freeDirect accounts mine
  have whole := List.take_append_drop ndirect l
  by_cases none : ip.indirect = 0
  · refine ⟨s₁, ?_, logs₁, ?_⟩
    · simp only [Fs.itrunc, ran₁, none, if_true, bind, Except.bind, pure, Except.pure]
    · rwa [mine, owned, if_pos none, List.take_of_length_le (maps.indirect.mp none),
        Finset.sdiff_self] at accounts₁
  · have index : ip.indirect ∈ own inum := mine ▸ indirect_mem_owned none
    have maps₁ : Maps s₁.block ip l :=
      maps.congr fun _ => logs₁.block_eq (not_mem_map_of_mem accounts index)
    have index₁ : ip.indirect ∈
        Function.update own inum (own inum \ (l.take ndirect).toFinset) inum := by
      rw [Function.update_self, Finset.mem_sdiff, List.mem_toFinset]
      exact ⟨index, fun member => maps.apart (List.mem_of_mem_take member)⟩
    obtain ⟨s₂, ran₂, logs₂, accounts₂⟩ := maps₁.freeIndirect none accounts₁ index₁ (by
      intro b member
      rw [Function.update_self, Finset.mem_sdiff, List.mem_toFinset]
      refine ⟨mine ▸ mem_owned (List.mem_of_mem_drop member), fun first => ?_⟩
      have nodup := maps.nodup
      rw [← whole] at nodup
      exact (List.disjoint_of_nodup_append nodup) first member)
    rw [Function.update_idem] at accounts₂
    have index₂ : ip.indirect ∈ Function.update own inum (Function.update own inum
        (own inum \ (l.take ndirect).toFinset) inum \ (l.drop ndirect).toFinset) inum := by
      rw [Function.update_self, Finset.mem_sdiff, List.mem_toFinset]
      exact ⟨index₁, fun member => maps.apart (List.mem_of_mem_drop member)⟩
    obtain ⟨t, ran₃, logs₃, accounts₃⟩ := accounts₂.bfree index₂
    refine ⟨t, ?_, (logs₁.trans (logs₁.sb ▸ logs₂)).trans ?_, ?_⟩
    · simp only [Fs.itrunc, ran₁, none, if_false, ran₂, ran₃, bind, Except.bind, pure, Except.pure]
    · rwa [logs₂.sb, logs₁.sb] at logs₃
    · rw [Function.update_idem, Function.update_self, Function.update_self] at accounts₃
      convert accounts₃ using 2
      ext b
      rw [mine, owned, if_neg none]
      have split : b ∈ l ↔ b ∈ l.take ndirect ∨ b ∈ l.drop ndirect := by
        rw [← List.mem_append, whole]
      simp only [Finset.notMem_empty, Finset.mem_erase, Finset.mem_sdiff, Finset.mem_insert,
        List.mem_toFinset, split]
      tauto

end Maps

end Fs

end Xv6
