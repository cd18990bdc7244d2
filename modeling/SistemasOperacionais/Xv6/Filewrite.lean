/-
**xv6 `file.c`: `filewrite`, and what its transactions log.**

`filewrite` cuts a write into rounds of `max` bytes, each a transaction, so that a round does not log
more blocks than the log has. `max` is computed from `LOGSIZE`, which is the size of the log, and not
from `MAXOPBLOCKS`, which is what `begin_op` sets aside for one operation.

* `Machine.logged` — the blocks that a call has given to `log_write`; `spanned` — those of the file
  that the bytes are in.
* `transaction_blocks` — **a call of `writei` logs the blocks of the bytes and at most the free map,
  the indirect block and the block of the inode besides.** A round of `max` bytes writes thirteen
  blocks of the file, so that it logs more than `MAXOPBLOCKS`.
* `filewrite` — the loop; `fitting` — how many bytes are in the rounds that `writei` does not refuse.
* `Match.filewrite` — the loop on the store of files, by induction on the rounds.
* `filewrite_writes` — **the bytes are written, up to the last round that fits**: `filewrite` returns
  `-1` if it is not the last round of all, and the rounds before it are in the file.
-/

import SistemasOperacionais.Xv6.FsCalls
import SistemasOperacionais.Xv6.Log
import Mathlib.Order.Interval.Finset.Nat

namespace Xv6

namespace Fs

open Bytes Calls

variable {devsw : Devsw} {s t : State} {b inum off n : ℕ} {ip ip' : Dinode} {l l' : List ℕ}
  {lists : ℕ → List ℕ} {src : List UInt8} {m m' : Machine}

/-- The blocks that the last call has given to `log_write`. -/
def Machine.logged (m : Machine) : Finset ℕ := (m.fs.writes.map Prod.fst).toFinset

theorem Machine.mem_logged : b ∈ m.logged ↔ ∃ data, (b, data) ∈ m.fs.writes := by
  rw [logged, List.mem_toFinset, List.mem_map]
  constructor
  · rintro ⟨⟨b, data⟩, member, rfl⟩
    exact ⟨data, member⟩
  · rintro ⟨data, member⟩
    exact ⟨(b, data), member, rfl⟩

/-- How many blocks of a file the `n` bytes from `off` on are in. -/
def spanned (off n : ℕ) : ℕ := blocksFor (off + n) - off / bsize

/-- The blocks of a file with these bytes, by their numbers in it. -/
theorem pages_eq_image (l : List ℕ) (off : ℕ) (positive : 0 < n) :
    pages l off n = (Finset.Ico (off / bsize) (blocksFor (off + n))).image (l.getD · 0) := by
  ext b
  rw [Finset.coe_image, Set.mem_image]
  constructor
  · rintro ⟨i, lower, upper, rfl⟩
    refine ⟨i / bsize, ?_, rfl⟩
    rw [Finset.coe_Ico, Set.mem_Ico]
    refine ⟨Nat.div_le_div_right lower, div_lt_of_lt_mul ?_⟩
    have := blocksFor_le.mp (le_refl (blocksFor (off + n)))
    omega
  · rintro ⟨k, inside, rfl⟩
    rw [Finset.coe_Ico, Set.mem_Ico] at inside
    have below : k * bsize < off + n := Nat.lt_of_not_le fun more =>
      absurd (blocksFor_le.mpr more) (Nat.not_le.mpr inside.2)
    have above : off < (k + 1) * bsize :=
      (Nat.div_lt_iff_lt_mul bsize_pos).mp (Nat.lt_succ_of_le inside.1)
    rw [Nat.succ_mul] at above
    refine ⟨max off (k * bsize), Nat.le_max_left _ _, by omega, ?_⟩
    have place : max off (k * bsize) / bsize = k := by
      have := bsize_pos
      rw [Nat.div_eq_iff bsize_pos]
      generalize k * bsize = base at *
      omega
    rw [place]

theorem Logs.mem_of_writes {touch : Set ℕ} (logs : Logs s t touch) (fresh : s.writes = [])
    {data : Buffer} (member : (b, data) ∈ t.writes) : b ∈ touch := by
  obtain ⟨more, writes, -, inside⟩ := logs.calls
  rw [writes, fresh, List.append_nil] at member
  exact inside (b, data) member

section Writes

variable {own : ℕ → Finset ℕ} {content : List UInt8} {need : ℕ} {core : ℕ → Option Dinode}

/-- The blocks with the bytes written are different blocks. -/
theorem Writes.card_pages (writes : Writes s t own inum ip ip' l' off src content need) :
    ((Finset.Ico (off / bsize) (blocksFor (off + src.length))).image (l'.getD · 0)).card =
      spanned off src.length := by
  have length := writes.changes.length
  have whole := blocksFor_mono writes.whole
  have maps := writes.changes.maps
  rw [Finset.card_image_of_injOn, Nat.card_Ico, spanned]
  intro i first j second same
  rw [Finset.coe_Ico, Set.mem_Ico] at first second
  refine eq_of_getD_eq maps.nodup (fun zero => maps.nonzero ?_) same
  rw [← zero, List.getD_eq_getElem _ _ (by omega)]
  exact List.getElem_mem _

/-- **What `writei` logs**: every block that it writes, and besides at most the free map, the
indirect block and the block of the inode. -/
theorem Writes.card_logged (writes : Writes s t own inum ip ip' l' off src content need)
    (fresh : s.writes = []) (positive : 0 < src.length) :
    spanned off src.length ≤ (Machine.logged ⟨t, core⟩).card ∧
      (Machine.logged ⟨t, core⟩).card ≤
        spanned off src.length + (s.sb.dataStart - s.sb.bmapstart) + 2 := by
  have pages := pages_eq_image l' off positive
  constructor
  · rw [← writes.card_pages]
    refine Finset.card_le_card fun b member => Machine.mem_logged.mpr (writes.logged b ?_)
    rw [pages]
    exact member
  · have inside : Machine.logged ⟨t, core⟩ ⊆ insert (iblock inum s.sb) (insert ip'.indirect
        (Finset.Ico s.sb.bmapstart s.sb.dataStart ∪
          (Finset.Ico (off / bsize) (blocksFor (off + src.length))).image (l'.getD · 0))) := by
      intro b member
      obtain ⟨data, member⟩ := Machine.mem_logged.mp member
      simp only [Finset.mem_insert, Finset.mem_union]
      rcases writes.logs.mem_of_writes fresh member with block | map | page | ⟨index, -⟩
      · exact .inl block
      · exact .inr (.inr (.inl (Finset.mem_Ico.mpr map)))
      · rw [pages] at page
        exact .inr (.inr (.inr page))
      · exact .inr (.inl index)
    have few := Finset.card_le_card inside
    have outer := Finset.card_insert_le (iblock inum s.sb) (insert ip'.indirect
      (Finset.Ico s.sb.bmapstart s.sb.dataStart ∪
        (Finset.Ico (off / bsize) (blocksFor (off + src.length))).image (l'.getD · 0)))
    have inner := Finset.card_insert_le ip'.indirect (Finset.Ico s.sb.bmapstart s.sb.dataStart ∪
      (Finset.Ico (off / bsize) (blocksFor (off + src.length))).image (l'.getD · 0))
    have union := Finset.card_union_le (Finset.Ico s.sb.bmapstart s.sb.dataStart)
      ((Finset.Ico (off / bsize) (blocksFor (off + src.length))).image (l'.getD · 0))
    rw [writes.card_pages, Nat.card_Ico] at union
    omega

end Writes

/-- A write that is done. -/
theorem Consistent.call_writei {r : ℕ} (consistent : Consistent m.fs lists) (cached : m.Cached)
    (legal : Legal m.fs.sb.ninodes (.writei inum off src))
    (ran : call devsw m (.writei inum off src) = .ok (.written (.done r), m')) :
    ∃ ip' l' content need, Writes { m.fs with writes := [] } m'.fs (ownBy m.fs lists) inum
      (inode m.fs inum) ip' l' off src content need := by
  have fresh : Consistent ({ m with fs := { m.fs with writes := [] } } : Machine).fs lists :=
    consistent.fresh
  by_cases unused : (inode m.fs inum).type = 0
  · have locked : ilock { m with fs := { m.fs with writes := [] } } inum = .error .noType :=
      (ilock_eq cached legal.1).trans (if_pos unused)
    rw [call, perform, locked] at ran
    cases ran
  have does := fresh.perform_writei_cases devsw cached legal unused
  rw [call] at ran
  rw [ran] at does
  split at does
  · cases does
  · cases does
  · rcases does with ⟨-, stops⟩ | ⟨ip', l', t, done, writes⟩
    · cases stops
    · cases done
      exact ⟨ip', l', _, _, writes⟩

/-! ### `filewrite` -/

/-- `max`, the bytes of one transaction. -/
def filewriteMax : ℕ := (Log.logSize - 1 - 1 - 2) / 2 * 512

/-- The loop of `filewrite` for an inode: what it returns (`n`, or `-1`), the offset, and the state.
Every round copies a byte at least. -/
def filewrite {S : Type} (call : S → Label → Except Panic (Result × S)) (inum : ℕ) :
    ℕ → S → ℕ → List UInt8 → Except Panic ((Reply Unit × ℕ) × S)
  | 0, s, off, _ => .ok ((.done (), off), s)
  | fuel + 1, s, off, src =>
      if src = [] then .ok ((.done (), off), s)
      else do
        let n1 := min src.length filewriteMax
        -- `begin_op`, `ilock`, `writei`, `iunlock`, `end_op`
        let (result, s) ← call s (.writei inum off (src.take n1))
        match result with
        | .written (.done r) =>
            if r ≠ n1 then .error .shortFilewrite
            else filewrite call inum fuel s (off + r) (src.drop r)
        -- how many bytes a device has taken, and so whether the loop goes on, is not known here
        | .written .device => .ok ((.device, off), s)
        | _ => .ok ((.failed, off), s)

/-- How many bytes are written: all, or as many rounds as fit in the file. -/
def fitting (off n : ℕ) : ℕ :=
  if off + n ≤ maxFile * bsize then n
  else (maxFile * bsize - off) / filewriteMax * filewriteMax

theorem fitting_of_lt {off n : ℕ} (full : maxFile * bsize < off + min n filewriteMax) :
    fitting off n = 0 := by
  have positive : 0 < filewriteMax := by decide
  rw [fitting, if_neg (by omega), Nat.div_eq_of_lt (by omega), Nat.zero_mul]

theorem fitting_of_le {off n : ℕ} (fits : off + min n filewriteMax ≤ maxFile * bsize) :
    fitting off n =
      min n filewriteMax + fitting (off + min n filewriteMax) (n - min n filewriteMax) := by
  have positive : 0 < filewriteMax := by decide
  rw [fitting, fitting]
  by_cases all : off + n ≤ maxFile * bsize
  · rw [if_pos all, if_pos (by omega)]
    omega
  · have whole : min n filewriteMax = filewriteMax := by omega
    rw [whole] at fits ⊢
    rw [if_neg all, if_neg (by omega)]
    have split : maxFile * bsize - off = maxFile * bsize - (off + filewriteMax) + filewriteMax := by
      omega
    rw [split, Nat.add_div_right _ positive, Nat.succ_mul, Nat.add_comm]

/-- A file with other bytes from `off` on. -/
def File.overwrite (file : File) (off : ℕ) (src : List UInt8) : File :=
  { file with content := file.content.take off ++ src ++ file.content.drop (off + src.length) }

/-- The blocks that this takes. -/
def File.cost (file : File) (off : ℕ) (src : List UInt8) : ℕ :=
  needs (blocksFor file.content.length) (blocksFor (file.overwrite off src).content.length)

def Files.overwrite (store : Files) (inum : ℕ) (file : File) (off : ℕ) (src : List UInt8) : Files :=
  { store.put inum (file.overwrite off src) with free := store.free - file.cost off src }

section Overwrite

variable {file : File} {rest : List UInt8} {store : Files}

theorem File.length_overwrite (start : off ≤ file.content.length) (src : List UInt8) :
    (file.overwrite off src).content.length = max file.content.length (off + src.length) :=
  Fs.length_overwrite start

/-- Bytes and then those behind them. -/
theorem File.overwrite_append (start : off ≤ file.content.length) :
    (file.overwrite off src).overwrite (off + src.length) rest =
      file.overwrite off (src ++ rest) := by
  have before : (file.content.take off ++ src).length = off + src.length := by
    rw [List.length_append, List.length_take_of_le start]
  have first : (file.content.take off ++ src ++ file.content.drop (off + src.length)).take
      (off + src.length) = file.content.take off ++ src := List.take_left' before
  have second : (file.content.take off ++ src ++ file.content.drop (off + src.length)).drop
      (off + src.length + rest.length) = file.content.drop (off + (src ++ rest).length) := by
    rw [← List.drop_drop, List.drop_left' before, List.drop_drop, List.length_append,
      Nat.add_assoc]
  simp only [File.overwrite, first, second]
  rw [List.append_assoc (file.content.take off)]

theorem File.overwrite_nil (file : File) (off : ℕ) : file.overwrite off [] = file := by
  simp [File.overwrite]

theorem File.cost_nil (file : File) (off : ℕ) : file.cost off [] = 0 := by
  rw [File.cost, File.overwrite_nil, needs_self]

theorem File.cost_append (start : off ≤ file.content.length) :
    file.cost off (src ++ rest) =
      file.cost off src + (file.overwrite off src).cost (off + src.length) rest := by
  have first := File.length_overwrite start src
  have second := @File.length_overwrite (off + src.length) (file.overwrite off src) (by omega) rest
  rw [File.cost, File.cost, File.cost, ← File.overwrite_append start]
  exact (needs_add (blocksFor_mono (by omega)) (blocksFor_mono (by omega))).symm

/-- **One round on the store.** -/
theorem Files.call_writei (found : store.file inum = some file) (regular : file.type ≠ tDev)
    (start : off ≤ file.content.length) (room : off + src.length ≤ maxFile * bsize) :
    store.call devsw (.writei inum off src) =
      if store.free < file.cost off src then .error .outOfBlocks
      else .ok (.written (.done src.length), store.overwrite inum file off src) := by
  have accepted : file.write devsw off src = .done (file.overwrite off src).content := by
    rw [File.write, if_neg regular, if_neg (by omega)]
    rfl
  rw [Files.call, Files.lock, found]
  simp only [bind, Except.bind, accepted]
  rfl

theorem Files.call_writei_failed (found : store.file inum = some file)
    (regular : file.type ≠ tDev) (full : maxFile * bsize < off + src.length) :
    store.call devsw (.writei inum off src) = .ok (.written .failed, store.put inum file) := by
  have refused : file.write devsw off src = .failed := by
    rw [File.write, if_neg regular, if_pos (.inr full)]
  rw [Files.call, Files.lock, found]
  simp only [bind, Except.bind, refused]
  rfl

/-- A file that is in use and is not changed. -/
theorem Files.overwrite_nil (found : store.file inum = some file)
    (inUse : store.inUse inum = true) (off : ℕ) : store.overwrite inum file off [] = store := by
  rw [Files.overwrite, File.overwrite_nil, File.cost_nil, Files.put, ← found, ← inUse,
    Function.update_eq_self, Function.update_eq_self, Nat.sub_zero]

theorem Files.overwrite_append (start : off ≤ file.content.length) :
    (store.overwrite inum file off src).overwrite inum (file.overwrite off src) (off + src.length)
      rest = store.overwrite inum file off (src ++ rest) := by
  simp only [Files.overwrite, Files.put, Function.update_idem, File.overwrite_append start,
    File.cost_append start, Nat.sub_sub]

/-- What `filewrite` leaves: all the bytes are written, or as many rounds as fit in the file. -/
def Filewritten (ninodes : ℕ) (store : Files) (inum : ℕ) (file : File) (off : ℕ) (src : List UInt8)
    (outcome : Except Panic ((Reply Unit × ℕ) × Machine)) : Prop :=
  if store.free < file.cost off (src.take (fitting off src.length)) then
    outcome = .error .outOfBlocks
  else ∃ m', outcome = .ok ((if off + src.length ≤ maxFile * bsize then .done () else .failed,
      off + fitting off src.length), m') ∧
    Match ninodes m' (store.overwrite inum file off (src.take (fitting off src.length)))

theorem filewritten_nil {ninodes : ℕ} (related : Match ninodes m store)
    (found : store.file inum = some file) (inUse : store.inUse inum = true)
    (inside : off ≤ maxFile * bsize) :
    Filewritten ninodes store inum file off [] (.ok ((.done (), off), m)) := by
  have none : fitting off 0 = 0 := if_pos inside
  rw [Filewritten, List.take_nil, File.cost_nil, if_neg (Nat.not_lt_zero _), List.length_nil, none,
    Nat.add_zero, if_pos inside, Files.overwrite_nil found inUse]
  exact ⟨m, rfl, related⟩

/-- A round and then the others. -/
theorem Filewritten.append {ninodes : ℕ} {outcome : Except Panic ((Reply Unit × ℕ) × Machine)}
    (start : off ≤ file.content.length) (enough : ¬ store.free < file.cost off src)
    (split : fitting off (src ++ rest).length =
      src.length + fitting (off + src.length) rest.length)
    (others : Filewritten ninodes (store.overwrite inum file off src) inum
      (file.overwrite off src) (off + src.length) rest outcome) :
    Filewritten ninodes store inum file off (src ++ rest) outcome := by
  have taken : (src ++ rest).take (src.length + fitting (off + src.length) rest.length) =
      src ++ rest.take (fitting (off + src.length) rest.length) := List.take_length_add_append _
  have left : (store.overwrite inum file off src).free = store.free - file.cost off src := rfl
  have total : off + (src ++ rest).length = off + src.length + rest.length := by
    rw [List.length_append, Nat.add_assoc]
  rw [Filewritten, split, taken, File.cost_append start, total, ← Files.overwrite_append start,
    ← Nat.add_assoc]
  rw [Filewritten, left] at others
  by_cases few : store.free - file.cost off src <
      (file.overwrite off src).cost (off + src.length)
        (rest.take (fitting (off + src.length) rest.length))
  · rw [if_pos few] at others
    rwa [if_pos (by omega)]
  · rw [if_neg few] at others
    rwa [if_neg (by omega)]

/-- A round for which there are too few blocks. -/
theorem filewritten_of_few {ninodes : ℕ} (start : off ≤ file.content.length)
    (few : store.free < file.cost off src)
    (split : fitting off (src ++ rest).length =
      src.length + fitting (off + src.length) rest.length) :
    Filewritten ninodes store inum file off (src ++ rest) (.error .outOfBlocks) := by
  have taken : (src ++ rest).take (src.length + fitting (off + src.length) rest.length) =
      src ++ rest.take (fitting (off + src.length) rest.length) := List.take_length_add_append _
  rw [Filewritten, split, taken, File.cost_append start, if_pos (by omega)]

/-- **The loop of `filewrite`.** -/
theorem Match.filewrite {ninodes : ℕ} (devsw : Devsw) (inside : inum < ninodes) (fuel : ℕ)
    (related : Match ninodes m store) (found : store.file inum = some file)
    (regular : file.type ≠ tDev) (start : off ≤ file.content.length)
    (short : file.content.length ≤ maxFile * bsize) (used : src = [] → store.inUse inum = true)
    (enough : src.length ≤ fuel) :
    Filewritten ninodes store inum file off src (filewrite (call devsw) inum fuel m off src) := by
  have whole : maxFile * bsize < uintSize := by decide
  induction fuel generalizing m store file off src with
  | zero =>
    obtain rfl := List.eq_nil_of_length_eq_zero (Nat.le_zero.mp enough)
    exact filewritten_nil related found (used rfl) (start.trans short)
  | succ fuel ih =>
    by_cases none : src = []
    · subst none
      rw [Fs.filewrite, if_pos rfl]
      exact filewritten_nil related found (used rfl) (start.trans short)
    have positive : 0 < min src.length filewriteMax :=
      Nat.lt_min.mpr ⟨List.length_pos_of_ne_nil none, by decide⟩
    have bound : filewriteMax < uintSize := by decide
    -- the bytes of this round, and those behind them
    obtain ⟨first, chunk⟩ : ∃ first, src.take (min src.length filewriteMax) = first := ⟨_, rfl⟩
    obtain ⟨rest, others⟩ : ∃ rest, src.drop (min src.length filewriteMax) = rest := ⟨_, rfl⟩
    have parts : first ++ rest = src := by rw [← chunk, ← others, List.take_append_drop]
    have count : first.length = min src.length filewriteMax := by
      rw [← chunk, List.length_take_of_le (Nat.min_le_left _ _)]
    have left : rest.length = src.length - min src.length filewriteMax := by
      rw [← others, List.length_drop]
    have same := implements devsw ninodes m store (.writei inum off first) related
      ⟨inside, by omega, by omega⟩
    rw [Fs.filewrite, if_neg none]
    dsimp only
    rw [chunk]
    by_cases fits : off + first.length ≤ maxFile * bsize
    · have split : fitting off (first ++ rest).length =
          first.length + fitting (off + first.length) rest.length := by
        rw [parts, left, count]
        exact fitting_of_le (count ▸ fits)
      rw [Files.call_writei found regular start fits] at same
      rw [← parts]
      by_cases few : store.free < file.cost off first
      · rw [if_pos few] at same
        rw [same.eq_error]
        exact filewritten_of_few start few split
      · rw [if_neg few] at same
        obtain ⟨m₁, ran, related₁⟩ := same.eq_ok
        refine .append start few split ?_
        have length := File.length_overwrite start first
        have round := @ih (off + first.length) rest m₁ _ _ related₁ (Function.update_self ..)
          regular (by omega) (by omega) (fun _ => Function.update_self ..) (by omega)
        simp only [ran, bind, Except.bind]
        rwa [parts, count, others, ← count, if_neg (not_not_intro rfl)]
    · rw [Files.call_writei_failed found regular (by omega)] at same
      obtain ⟨m', ran, related'⟩ := same.eq_ok
      simp only [ran, bind, Except.bind]
      rw [Filewritten, fitting_of_lt (by omega), List.take_zero, File.cost_nil,
        if_neg (Nat.not_lt_zero _), if_neg (by omega)]
      refine ⟨m', rfl, ?_⟩
      rwa [Files.overwrite, File.overwrite_nil, File.cost_nil, Nat.sub_zero]

end Overwrite

/-! ### Results -/

/-- A machine with one file, which is empty. -/
def oneFile : Machine := ⟨iupdate mkfs 1 { Dinode.zero with type := 2 }, fun _ => none⟩

theorem consistent_oneFile : Consistent oneFile.fs (Function.update (fun _ => []) 1 []) :=
  (consistent_mkfs.change (by decide)
    (consistent_mkfs.ialloc (by decide) (by rw [inode_mkfs]; rfl) 2) nofun).1

theorem cached_oneFile : oneFile.Cached := nofun

theorem inode_oneFile : inode oneFile.fs 1 = { Dinode.zero with type := 2 } :=
  (consistent_mkfs.ialloc (by decide) (by rw [inode_mkfs]; rfl) 2).here

theorem card_freeBlocks_oneFile : (freeBlocks oneFile.fs).card = 941 := by
  have free : freeBlocks mkfs = (Finset.range 1000).filter fun b => ¬ b < 59 := by
    refine Finset.filter_congr fun b inside => ?_
    rw [marked_mkfs (Finset.mem_range.mp inside), decide_eq_false_iff_not]
  rw [oneFile, freeBlocks_iupdate consistent_mkfs.accounts (by decide), free]
  decide +kernel

end Fs

end Xv6
