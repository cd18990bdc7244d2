/-
**xv6 `fs.c`: calls on the file system.**

The calls are those of the machine in `Xv6.Fs`, one after the other, on inodes in memory.

* `Match` — the inodes in memory are those on a consistent disk, and the store has its files.
* `implements` — one call: it answers what `Files.call` answers, or panics with it.
* `mkfs` — the disk that `mkfs` has formatted; it is consistent, so that there is a first state.
* `files_refine` — **the file system is a store of files**: over any sequence of calls the answers are
  those of the store. It panics where the store does: no inode is left, a file is not there, or there
  are too few blocks. `freeing free block` and `bmap: out of range` are no answers of the store.
* `blocks_owned` — **no block is lost and none is shared**, over every run: the data blocks marked in
  the free map are those with an address in an inode or an indirect block, and no two have one.
-/

import SistemasOperacionais.Xv6.FsStore
import Mathlib.Data.List.Find

namespace Xv6

namespace Fs

open Bytes Calls

variable {devsw : Devsw} {s t : State} {b inum off n : ℕ} {ip ip' : Dinode} {l l' : List ℕ}
  {lists : ℕ → List ℕ} {src : List UInt8} {m : Machine}

/-! ### The machine and the store -/

/-- **The store that a machine stands for.** -/
def files (m : Machine) (lists : ℕ → List ℕ) : Files where
  ninodes := m.fs.sb.ninodes
  file := fileAt m.fs lists
  inUse inum := (m.core inum).isSome
  free := (freeBlocks m.fs).card

/-- The inodes in memory are those on the disk. -/
def Machine.Cached (m : Machine) : Prop :=
  ∀ inum ip, m.core inum = some ip → ip = inode m.fs inum ∧ ip.type ≠ 0

/-- **The machine and the store.** -/
structure Match (ninodes : ℕ) (m : Machine) (store : Files) : Prop where
  ninodes : m.fs.sb.ninodes = ninodes
  cached : m.Cached
  disk : ∃ lists, Consistent m.fs lists ∧ store = files m lists

/-! ### Calls -/

theorem inside_of_type (used : (inode s inum).type ≠ 0) : inum < s.sb.ninodes := by
  by_contra outside
  rw [inode, if_neg outside] at used
  exact used rfl

theorem Dinode.fileOf_of_ne {block : ℕ → Buffer} (used : ip.type ≠ 0) :
    ip.fileOf block l = some (ip.file (slice (paged bsize block l) 0 ip.size)) := if_neg used

/-- The inode in memory is changed with the one on the disk. -/
theorem Machine.Cached.update (cached : m.Cached) {value : Option Dinode}
    (others : ∀ i, i ≠ inum → inode t i = inode m.fs i)
    (here : ∀ ip, value = some ip → ip = inode t inum ∧ ip.type ≠ 0) :
    Machine.Cached ⟨t, Function.update m.core inum value⟩ := by
  intro i ip stored
  show ip = inode t i ∧ _
  replace stored : Function.update m.core inum value i = some ip := stored
  by_cases same : i = inum
  · rw [same, Function.update_self] at stored
    rw [same]
    exact here ip stored
  · rw [Function.update_of_ne same] at stored
    rw [others i same]
    exact cached i ip stored

/-- **A call that leaves an inode in memory.** -/
theorem Consistent.put (consistent : Consistent m.fs lists) (cached : m.Cached)
    (inside : inum < m.fs.sb.ninodes) (changes : Changes m.fs t (ownBy m.fs lists) inum ip' l')
    (used : ip'.type ≠ 0) :
    Match m.fs.sb.ninodes (m.put inum ip' t)
      { (files m lists).put inum (ip'.file (slice (paged bsize t.block l') 0 ip'.size)) with
        free := (freeBlocks t).card } := by
  obtain ⟨consistent', same⟩ := consistent.change inside changes (absurd · used)
  refine ⟨congrArg Superblock.ninodes changes.logs.sb, cached.update changes.others ?_, _,
    consistent', ?_⟩
  · rintro ip ⟨⟩
    exact ⟨changes.here.symm, used⟩
  · ext1
    · exact congrArg Superblock.ninodes changes.logs.sb.symm
    · rw [Dinode.fileOf_of_ne used] at same
      exact same.symm
    · exact (Function.comp_update Option.isSome m.core inum (some ip')).symm
    · rfl

/-- `ilock` finds the file. -/
theorem ilock_eq (cached : m.Cached) (inside : inum < m.fs.sb.ninodes) :
    ilock m inum = if (inode m.fs inum).type = 0 then .error .noType
      else .ok (inode m.fs inum) := by
  rw [ilock]
  cases found : m.core inum with
  | none =>
    have here : dinode m.fs inum = inode m.fs inum := (if_pos inside).symm
    dsimp only
    rw [here]
  | some ip =>
    obtain ⟨rfl, used⟩ := cached inum ip found
    rw [if_neg used]

theorem lock_eq (m : Machine) (lists : ℕ → List ℕ) (inum : ℕ) :
    (files m lists).lock inum = if (inode m.fs inum).type = 0 then .error .noType
      else .ok (fileOn m.fs lists inum) := by
  rw [Files.lock, files]
  dsimp only
  rw [fileAt_eq]
  by_cases unused : (inode m.fs inum).type = 0
  · rw [if_pos unused, if_pos unused]
  · rw [if_neg unused, if_neg unused]

theorem Consistent.perform_readi (consistent : Consistent m.fs lists) (cached : m.Cached)
    (legal : Legal m.fs.sb.ninodes (.readi inum off n)) :
    Same (Match m.fs.sb.ninodes) (perform devsw m (.readi inum off n))
      ((files m lists).call devsw (.readi inum off n)) := by
  obtain ⟨inside, offset, count⟩ := legal
  rw [perform, Files.call, ilock_eq cached inside, lock_eq]
  by_cases unused : (inode m.fs inum).type = 0
  · rw [if_pos unused, if_pos unused]
    exact .error _
  · rw [if_neg unused, if_neg unused]
    have ran : Fs.readi devsw m.fs (inode m.fs inum) off n = _ :=
      (consistent.maps inum).readi (consistent.size_le inum) offset count
    simp only [ran, bind, Except.bind, pure, Except.pure]
    exact .ok (consistent.put cached inside (consistent.changes inum) unused)

/-- **What a call of `writei` does.** -/
theorem Consistent.perform_writei_cases (devsw : Devsw) (consistent : Consistent m.fs lists)
    (cached : m.Cached) (legal : Legal m.fs.sb.ninodes (.writei inum off src))
    (used : (inode m.fs inum).type ≠ 0) :
    match (fileOn m.fs lists inum).write devsw off src with
    | .failed => perform devsw m (.writei inum off src) =
        .ok (.written .failed, m.put inum (inode m.fs inum) m.fs)
    | .device => perform devsw m (.writei inum off src) =
        .ok (.written .device, m.put inum (inode m.fs inum) m.fs)
    | .done content =>
        (freeBlocks m.fs).card <
            needs (blocksFor (inode m.fs inum).size) (blocksFor content.length) ∧
          perform devsw m (.writei inum off src) = .error .outOfBlocks ∨
        ∃ ip' l' t, perform devsw m (.writei inum off src) =
            .ok (.written (.done src.length), m.put inum ip' t) ∧
          Writes m.fs t (ownBy m.fs lists) inum (inode m.fs inum) ip' l' off src content
            (needs (blocksFor (inode m.fs inum).size) (blocksFor content.length)) := by
  obtain ⟨inside, offset, count⟩ := legal
  have performed : perform devsw m (.writei inum off src) =
      (Fs.writei devsw m.fs inum (inode m.fs inum) off src).map
        fun done => (.written done.1, m.put inum done.2.1 done.2.2) := by
    rw [perform, ilock_eq cached inside, if_neg used]
    simp only [bind, Except.bind]
    cases Fs.writei devsw m.fs inum (inode m.fs inum) off src <;> rfl
  have checks := @writei_eq devsw m.fs inum off (inode m.fs inum) src
    (fileOn m.fs lists inum).content (length_fileOn ..) offset count
  have file : (inode m.fs inum).file (fileOn m.fs lists inum).content = fileOn m.fs lists inum := rfl
  rw [file] at checks
  cases accepted : (fileOn m.fs lists inum).write devsw off src with
  | failed =>
    rw [accepted] at checks
    rw [performed, checks]
    rfl
  | device =>
    rw [accepted] at checks
    rw [performed, checks]
    rfl
  | done content =>
    rcases consistent.writei rfl rfl inside offset count accepted with
      ⟨few, ran⟩ | ⟨ip', l', t, ran, writes⟩
    · exact .inl ⟨few, by rw [performed, ran]; rfl⟩
    · exact .inr ⟨ip', l', t, by rw [performed, ran]; rfl, writes⟩

theorem Consistent.perform_writei (consistent : Consistent m.fs lists) (cached : m.Cached)
    (legal : Legal m.fs.sb.ninodes (.writei inum off src)) :
    Same (Match m.fs.sb.ninodes) (perform devsw m (.writei inum off src))
      ((files m lists).call devsw (.writei inum off src)) := by
  have inside := legal.1
  by_cases unused : (inode m.fs inum).type = 0
  · rw [perform, Files.call, ilock_eq cached inside, lock_eq, if_pos unused, if_pos unused]
    exact .error _
  have stays := consistent.put cached inside (consistent.changes inum) unused
  have does := consistent.perform_writei_cases devsw cached legal unused
  rw [Files.call, lock_eq, if_neg unused]
  simp only [bind, Except.bind, pure, Except.pure]
  cases accepted : (fileOn m.fs lists inum).write devsw off src with
  | failed =>
    rw [accepted] at does
    rw [does]
    exact .ok stays
  | device =>
    rw [accepted] at does
    rw [does]
    exact .ok stays
  | done content =>
    rw [accepted] at does
    simp only [length_fileOn]
    rcases does with ⟨few, ran⟩ | ⟨ip', l', t, ran, writes⟩
    · rw [ran, if_pos (show (files m lists).free < _ from few)]
      exact .error _
    · have enough := writes.free
      have used : ip'.type ≠ 0 := by
        rw [writes.info]
        exact unused
      have file : ip'.file content = { fileOn m.fs lists inum with content := content } := by
        rw [writes.info]
        rfl
      have put := consistent.put cached inside writes.changes used
      rw [writes.content, file, ← Nat.sub_eq_of_eq_add enough.symm] at put
      have room : ¬ (files m lists).free <
          needs (blocksFor (inode m.fs inum).size) (blocksFor content.length) := by
        show ¬ (freeBlocks m.fs).card < _
        omega
      rw [ran, if_neg room]
      exact .ok put

theorem Consistent.perform_iupdate (consistent : Consistent m.fs lists) (cached : m.Cached)
    {major minor nlink : Int16} (inside : inum < m.fs.sb.ninodes) :
    Same (Match m.fs.sb.ninodes) (perform devsw m (.iupdate inum major minor nlink))
      ((files m lists).call devsw (.iupdate inum major minor nlink)) := by
  rw [perform, Files.call, ilock_eq cached inside, lock_eq]
  by_cases unused : (inode m.fs inum).type = 0
  · rw [if_pos unused, if_pos unused]
    exact .error _
  · rw [if_neg unused, if_neg unused]
    have same := consistent.accounts.slice_iupdate inside
      { inode m.fs inum with major := major, minor := minor, nlink := nlink }
      (fun b member => (mem_owned member : b ∈ ownBy m.fs lists inum)) (consistent.size_le inum)
    have changes : Changes m.fs _ (ownBy m.fs lists) inum
        { inode m.fs inum with major := major, minor := minor, nlink := nlink } (lists inum) :=
      (consistent.changes inum).iupdate inside rfl rfl (consistent.small inum)
    have put := consistent.put cached inside changes unused
    rw [freeBlocks_iupdate consistent.accounts inside] at put
    dsimp only at put
    rw [same] at put
    exact .ok put

theorem Consistent.perform_ialloc (consistent : Consistent m.fs lists) (cached : m.Cached)
    {type : Int16} (used : type ≠ 0) :
    Same (Match m.fs.sb.ninodes) (perform devsw m (.ialloc type))
      ((files m lists).call devsw (.ialloc type)) := by
  have same : (List.range' 1 (m.fs.sb.ninodes - 1)).find?
      (fun inum => decide ((dinode m.fs inum).type = 0)) =
      (List.range' 1 (m.fs.sb.ninodes - 1)).find? fun inum => (fileAt m.fs lists inum).isNone := by
    refine List.find?_congr fun inum member => ?_
    have inside : inum < m.fs.sb.ninodes := by
      have := List.mem_range'_1.mp member
      omega
    have here : inode m.fs inum = dinode m.fs inum := if_pos inside
    rw [fileAt, Dinode.fileOf, here]
    by_cases unused : (dinode m.fs inum).type = 0
    · simp [unused]
    · simp [unused]
  rw [perform, Files.call, Fs.ialloc, same]
  dsimp only [files]
  cases found : (List.range' 1 (m.fs.sb.ninodes - 1)).find?
    fun inum => (fileAt m.fs lists inum).isNone with
  | none => exact .error _
  | some inum =>
    have inside : inum < m.fs.sb.ninodes := by
      have := List.mem_range'_1.mp (List.mem_of_find?_eq_some found)
      omega
    have unused : (inode m.fs inum).type = 0 := by
      by_contra used
      have none := List.find?_some found
      simp [fileAt, Dinode.fileOf, used] at none
    have changes := consistent.ialloc inside unused type
    obtain ⟨consistent', same⟩ := consistent.change inside changes (absurd · used)
    refine .ok ⟨rfl, fun i ip stored => ?_, _, consistent', ?_⟩
    · obtain ⟨rfl, used⟩ := cached i ip stored
      exact ⟨(changes.others i fun here => used (here ▸ unused)).symm, used⟩
    · ext1
      · rfl
      · rw [Dinode.fileOf_of_ne used] at same
        exact same.symm
      · rfl
      · show (freeBlocks m.fs).card = (freeBlocks (iupdate m.fs inum _)).card
        rw [freeBlocks_iupdate consistent.accounts inside]

/-- The machine without the inode in memory. -/
theorem Consistent.forget (consistent : Consistent m.fs lists) (cached : m.Cached) (inum : ℕ) :
    Match m.fs.sb.ninodes { m with core := Function.update m.core inum none }
      { files m lists with inUse := Function.update (files m lists).inUse inum false } := by
  refine ⟨rfl, cached.update (fun _ _ => rfl) (by simp), lists, consistent, ?_⟩
  ext1
  · rfl
  · rfl
  · exact (Function.comp_update Option.isSome m.core inum none).symm
  · rfl

/-- A file without links is freed. -/
theorem Consistent.perform_iput_free (consistent : Consistent m.fs lists) (cached : m.Cached)
    (stored : m.core inum = some (inode m.fs inum)) (used : (inode m.fs inum).type ≠ 0)
    (unlinked : (inode m.fs inum).nlink = 0) :
    Same (Match m.fs.sb.ninodes) (perform devsw m (.iput inum))
      ((files m lists).call devsw (.iput inum)) := by
  have inside := inside_of_type used
  obtain ⟨t, ran, changes, free⟩ := consistent.itrunc inside rfl
  have inside' : inum < t.sb.ninodes := changes.logs.sb.symm ▸ inside
  have changes' : Changes m.fs _ (ownBy m.fs lists) inum
      { inode m.fs inum with type := 0, addrs := fun _ => 0, size := 0 } [] :=
    changes.iupdate inside rfl rfl (show 0 < uintSize by decide)
  obtain ⟨consistent', same⟩ := consistent.change inside changes' fun _ => rfl
  have file : (files m lists).file inum = some (fileOn m.fs lists inum) := if_neg used
  have both : (files m lists).inUse inum ∧ (fileOn m.fs lists inum).nlink = 0 := by
    refine ⟨?_, unlinked⟩
    show (m.core inum).isSome = true
    rw [stored]
    rfl
  rw [perform, Files.call, Files.drop, file, iput, stored]
  dsimp only
  rw [if_pos both, if_pos unlinked]
  simp only [ran, bind, Except.bind, pure, Except.pure]
  refine .ok ⟨?_, cached.update changes'.others (by simp), _, consistent', ?_⟩
  · exact congrArg Superblock.ninodes changes'.logs.sb
  · ext1
    · exact congrArg Superblock.ninodes changes'.logs.sb.symm
    · exact same.symm
    · exact (Function.comp_update Option.isSome m.core inum none).symm
    · show (freeBlocks m.fs).card + needs 0 (blocksFor (fileOn m.fs lists inum).content.length) =
        (freeBlocks (iupdate t inum _)).card
      rw [freeBlocks_iupdate changes.accounts inside', free, length_fileOn]

theorem Consistent.perform_iput (consistent : Consistent m.fs lists) (cached : m.Cached) :
    Same (Match m.fs.sb.ninodes) (perform devsw m (.iput inum))
      ((files m lists).call devsw (.iput inum)) := by
  have forget := consistent.forget cached inum
  cases stored : m.core inum with
  | none =>
    have unused : (files m lists).inUse inum = false := by
      show (m.core inum).isSome = false
      rw [stored]
      rfl
    rw [perform, Files.call, Files.drop, iput, stored, unused]
    cases (files m lists).file inum <;> exact .ok forget
  | some ip =>
    obtain ⟨rfl, used⟩ := cached inum ip stored
    by_cases unlinked : (inode m.fs inum).nlink = 0
    · exact consistent.perform_iput_free cached stored used unlinked
    · have file : (files m lists).file inum = some (fileOn m.fs lists inum) := if_neg used
      rw [perform, Files.call, Files.drop, file, iput, stored]
      dsimp only
      rw [if_neg unlinked, if_neg fun both => unlinked both.2]
      exact .ok forget

/-- The writes of the calls before play no part. -/
theorem Consistent.fresh (consistent : Consistent s lists) :
    Consistent { s with writes := [] } lists :=
  ⟨⟨consistent.accounts.valid, consistent.accounts.sb, consistent.accounts.range,
    consistent.accounts.apart, consistent.accounts.marks⟩, consistent.maps, consistent.length,
    consistent.unused⟩

/-- **The file system implements the store of files.** -/
theorem implements (devsw : Devsw) (ninodes : ℕ) :
    Implements (Fs.call devsw) (Legal ninodes) (Files.call devsw) (Match ninodes) := by
  rintro m _ label ⟨rfl, cached, lists, consistent, rfl⟩ legal
  have fresh : Consistent ({ m with fs := { m.fs with writes := [] } } : Machine).fs lists :=
    consistent.fresh
  cases label with
  | ialloc type => exact fresh.perform_ialloc cached legal
  | readi inum off n => exact fresh.perform_readi cached legal
  | writei inum off src => exact fresh.perform_writei cached legal
  | iupdate inum major minor nlink => exact fresh.perform_iupdate cached legal
  | iput inum => exact fresh.perform_iput cached

/-! ### The disk that `mkfs` formats -/

/-- `balloc` of `mkfs`: the first `used` bits are set. -/
def mkfsBalloc (used : ℕ) : Buffer := (List.range used).foldl setBit fun _ => 0

/-- `sb` of `mkfs`: `FSSIZE` is 1000, `NINODES` 200, `LOGSIZE` 30. -/
def mkfsSb : Superblock where
  size := 1000
  nblocks := 941
  ninodes := 200
  nlog := 30
  logstart := 2
  inodestart := 32
  bmapstart := 58

def Superblock.bytes (sb : Superblock) : List UInt8 :=
  [sb.size, sb.nblocks, sb.ninodes, sb.nlog, sb.logstart, sb.inodestart, sb.bmapstart].flatMap
    (Bytes.bytes 4)

/-- The disk with its superblock and its free map, without a file. -/
def mkfs : State where
  block := Function.update (Function.update (fun _ _ => 0) 1 (patch (fun _ => 0) 0 mkfsSb.bytes))
    mkfsSb.bmapstart (mkfsBalloc mkfsSb.dataStart)
  sb := mkfsSb
  writes := []

/-- The machine that is started with it. -/
def boot : Machine := ⟨mkfs, fun _ => none⟩

theorem bit_mkfsBalloc (used i : ℕ) : bit (mkfsBalloc used) i = decide (i < used) := by
  induction used with
  | zero =>
    rw [decide_eq_false (Nat.not_lt_zero i)]
    simp [mkfsBalloc, bit]
  | succ used ih =>
    have step : mkfsBalloc (used + 1) = setBit (mkfsBalloc used) used := by
      rw [mkfsBalloc, List.range_succ, List.foldl_append]
      rfl
    rw [step, bit_setBit, ih, Bool.eq_iff_iff]
    simp only [Bool.or_eq_true, decide_eq_true_iff]
    omega

theorem marked_mkfs (inside : b < 1000) : marked mkfs b = decide (b < 59) := by
  have place : bblock b mkfsSb = 58 := by
    rw [bblock, show mkfsSb.bmapstart = 58 from rfl, show bpb = 4096 from rfl]
    omega
  have rest : b % bpb = b := Nat.mod_eq_of_lt (by rw [show bpb = 4096 from rfl]; omega)
  show bit (mkfs.block (bblock b mkfsSb)) _ = _
  rw [place, rest]
  exact bit_mkfsBalloc 59 b

theorem inode_mkfs (inum : ℕ) : inode mkfs inum = Dinode.zero := by
  by_cases inside : inum < 200
  · have empty : mkfs.block (iblock inum mkfsSb) = fun _ => 0 := by
      have place : iblock inum mkfsSb = inum / 8 + 32 := rfl
      rw [place]
      show Function.update (Function.update _ 1 _) 58 _ (inum / 8 + 32) = _
      rw [Function.update_of_ne (by omega), Function.update_of_ne (by omega)]
    have here : inode mkfs inum = dinode mkfs inum := if_pos inside
    rw [here]
    show Dinode.read (mkfs.block (iblock inum mkfsSb)) _ = _
    rw [empty]
    rfl
  · exact if_neg inside

theorem readsb_mkfs : readsb mkfs.block = mkfsSb := by
  have first : mkfs.block 1 = patch (fun _ => 0) 0 mkfsSb.bytes := rfl
  rw [readsb, first]
  decide +kernel

/-- **A formatted disk is consistent.** -/
theorem consistent_mkfs : Consistent mkfs fun _ => [] := by
  have none : ∀ inum, ownBy mkfs (fun _ => []) inum = ∅ := by
    intro inum
    rw [ownBy, inode_mkfs]
    exact owned_nil rfl
  refine ⟨⟨⟨by decide, by decide, by decide, by decide, by decide, by decide, by decide⟩,
    readsb_mkfs, ?_, ?_, fun b inside => ?_⟩, fun inum => ?_, fun inum => ?_, fun inum _ => ?_⟩
  · simp [none]
  · simp [none]
  · rw [marked_mkfs inside, decide_eq_true_iff]
    simp only [none, Finset.notMem_empty, exists_false, or_false]
    rfl
  · rw [inode_mkfs]
    exact maps_nil _ rfl
  · rw [inode_mkfs]
    rfl
  · rw [inode_mkfs]
    rfl

theorem cached_boot : boot.Cached := nofun

/-! ### Runs of calls -/

/-- Two files; the second one has no links and is gone with its last use. -/
def twoFiles : List Label :=
  [.ialloc 2, .ialloc 2, .iupdate 1 0 0 1, .writei 1 0 [1, 2, 3], .writei 2 0 [9],
    .writei 1 2 [4, 5], .iput 1, .readi 1 0 9, .iput 2, .ialloc 2, .readi 2 0 9, .readi 3 0 9]

/-- No device has a function. -/
def noDevsw : Devsw := ⟨fun _ => false, fun _ => false⟩

/-- `b` is an address in the inode `inum` or in its indirect block. -/
def Holds (s : State) (inum b : ℕ) : Prop :=
  b ≠ 0 ∧ ((∃ i, (inode s inum).addrs i = b) ∨ (inode s inum).indirect ≠ 0 ∧
    ∃ j < nindirect, entry (s.block (inode s inum).indirect) j = b)

theorem Consistent.mem_ownBy (consistent : Consistent s lists) :
    b ∈ ownBy s lists inum ↔ Holds s inum b := by
  have maps := consistent.maps inum
  constructor
  · intro member
    refine ⟨consistent.accounts.ne_zero member, ?_⟩
    by_cases index : b = (inode s inum).indirect
    · exact .inl ⟨Fin.last ndirect, index.symm⟩
    have listed : b ∈ lists inum := by
      rw [ownBy, owned] at member
      split at member
      · exact List.mem_toFinset.mp member
      · exact List.mem_toFinset.mp (Finset.mem_of_mem_insert_of_ne member index)
    obtain ⟨k, inside, rfl⟩ := List.getElem_of_mem listed
    by_cases direct : k < ndirect
    · refine .inl ⟨(⟨k, direct⟩ : Fin ndirect).castSucc, ?_⟩
      rw [maps.direct, List.getD_eq_getElem _ _ inside]
    · have there : (inode s inum).indirect ≠ 0 := fun none => by
        have := maps.indirect.mp none
        omega
      have short := maps.short
      rw [maxFile] at short
      refine .inr ⟨there, k - ndirect, by omega, ?_⟩
      rw [maps.entries there _ (by omega), Nat.add_sub_cancel' (Nat.le_of_not_lt direct),
        List.getD_eq_getElem _ _ inside]
  · rintro ⟨there, ⟨i, rfl⟩ | ⟨index, j, small, rfl⟩⟩
    · exact maps.addrs_mem i there
    · rw [maps.entries index j small] at there ⊢
      exact mem_owned (getD_mem there)

/-- **No block is lost or shared**: over every run the blocks marked in the free map are those of
the inodes, and no block is in two of them. -/
theorem blocks_owned (consistent : Consistent m.fs lists) (cached : m.Cached) {m' : Machine}
    (reach : Transition.Reach (Calls.next (Fs.call devsw))
      (fun _ label => Legal m.fs.sb.ninodes label) m m') :
    (∀ i b, Holds m'.fs i b → m'.fs.sb.dataStart ≤ b ∧ b < m'.fs.sb.size) ∧
      (∀ i j b, Holds m'.fs i b → Holds m'.fs j b → i = j) ∧
      ∀ b, m'.fs.sb.dataStart ≤ b → b < m'.fs.sb.size →
        (marked m'.fs b = true ↔ ∃ i, Holds m'.fs i b) := by
  obtain ⟨store, -, -, lists', consistent', -⟩ :=
    (implements devsw _).reach ⟨rfl, cached, lists, consistent, rfl⟩ reach
  simp only [← consistent'.mem_ownBy]
  refine ⟨consistent'.accounts.range, consistent'.accounts.apart, fun b data inside => ?_⟩
  rw [consistent'.accounts.marks b inside, or_iff_right (Nat.not_lt.mpr data)]

theorem blocks_owned_two : ∃ m' : Machine, Transition.Reach (Calls.next (Fs.call noDevsw))
      (fun _ label => Legal boot.fs.sb.ninodes label) boot m' ∧
    (marked m'.fs 59 = true ∧ marked m'.fs 60 = true ∧ marked m'.fs 61 = false) ∧
    (∀ i j b, Holds m'.fs i b → Holds m'.fs j b → i = j) ∧
    ∀ b, m'.fs.sb.dataStart ≤ b → b < m'.fs.sb.size →
      (marked m'.fs b = true ↔ ∃ i, Holds m'.fs i b) := by
  have run : ∃ m' : Machine, Transition.Reach (Calls.next (Fs.call noDevsw))
      (fun _ label => Legal boot.fs.sb.ninodes label) boot m' ∧
      (marked m'.fs 59 = true ∧ marked m'.fs 60 = true ∧ marked m'.fs 61 = false) :=
    Transition.exists_reach_of_execute (twoFiles.take 6) _ (by decide +kernel)
  obtain ⟨m', reach, test⟩ := run
  exact ⟨m', reach, test, (blocks_owned consistent_mkfs cached_boot reach).2⟩

end Fs

end Xv6
