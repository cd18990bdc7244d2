/-
**xv6 `fs.c`: the file system as a store of files.**

* `Files`, `Files.call` — what the file system is for: files with contents under their numbers, and a
  number of free blocks. A file that has no links is gone with its last use.
* `Consistent s lists` — the disk: the free map agrees with the lists of blocks of all the inodes, a
  list is as long as the size of the file asks for, and an inode that is not used has none.
* `fileAt` — the files on such a disk.
* `Changes`, `Consistent.change` — **the frame rule**: a call that writes only blocks of one inode,
  free blocks, the free map and the inode itself leaves a consistent disk and all other files.
* `Maps.readi`, `Consistent.writei`, `Consistent.ialloc`, `Consistent.itrunc` — what the functions do
  to the file, from this rule.
-/

import SistemasOperacionais.Xv6.FsFiles

namespace Xv6

namespace Fs

open Bytes Calls

variable {devsw : Devsw} {s t : State} {b inum off n : ℕ} {ip ip' : Dinode} {own : ℕ → Finset ℕ}
  {l l' : List ℕ} {lists : ℕ → List ℕ} {src : List UInt8}

/-! ### The store of files -/

/-- A file as its users see it. -/
structure File where
  type : Int16
  major : Int16
  minor : Int16
  nlink : Int16
  content : List UInt8
  deriving DecidableEq

/-- **The files, those in use, and how many blocks are free.** -/
@[ext] structure Files where
  ninodes : ℕ
  file : ℕ → Option File
  inUse : ℕ → Bool
  free : ℕ

def File.read (devsw : Devsw) (file : File) (off n : ℕ) : Reply (List UInt8) :=
  if file.type = tDev then deviceReply devsw.read file.major
  else if file.content.length < off ∨ uintSize ≤ off + n then .failed
  else .done ((file.content.drop off).take n)

/-- The new contents; a file has no holes and at most `MAXFILE` blocks. -/
def File.write (devsw : Devsw) (file : File) (off : ℕ) (src : List UInt8) : Reply (List UInt8) :=
  if file.type = tDev then deviceReply devsw.write file.major
  else if file.content.length < off ∨ maxFile * bsize < off + src.length then .failed
  else .done (file.content.take off ++ src ++ file.content.drop (off + src.length))

theorem length_overwrite {content : List UInt8} (start : off ≤ content.length) :
    (content.take off ++ src ++ content.drop (off + src.length)).length =
      max content.length (off + src.length) := by
  simp only [List.length_append, List.length_take, List.length_drop]
  omega

def Files.lock (store : Files) (inum : ℕ) : Except Panic File :=
  match store.file inum with
  | none => .error .noType
  | some file => .ok file

/-- A file with new values. -/
def Files.put (store : Files) (inum : ℕ) (file : File) : Files where
  ninodes := store.ninodes
  file := Function.update store.file inum (some file)
  inUse := Function.update store.inUse inum true
  free := store.free

/-- The last use of a file ends. -/
def Files.drop (store : Files) (inum : ℕ) : Files :=
  let dropped := { store with inUse := Function.update store.inUse inum false }
  match store.file inum with
  | some file =>
      if store.inUse inum ∧ file.nlink = 0 then
        { dropped with
          file := Function.update store.file inum none
          free := store.free + needs 0 (blocksFor file.content.length) }
      else dropped
  | none => dropped

/-- **The calls on the store.** -/
def Files.call (devsw : Devsw) (store : Files) : Label → Except Panic (Result × Files)
  | .ialloc type =>
      match (List.range' 1 (store.ninodes - 1)).find? fun inum => (store.file inum).isNone with
      | none => .error .noInodes
      | some inum => .ok (.inum inum,
          { store with file := Function.update store.file inum (some ⟨type, 0, 0, 0, []⟩) })
  | .readi inum off n => do
      let file ← store.lock inum
      return (.read (file.read devsw off n), store.put inum file)
  | .writei inum off src => do
      let file ← store.lock inum
      match file.write devsw off src with
      | .failed => return (.written .failed, store.put inum file)
      | .device => return (.written .device, store.put inum file)
      | .done content =>
          let need := needs (blocksFor file.content.length) (blocksFor content.length)
          if store.free < need then .error .outOfBlocks
          else return (.written (.done src.length),
            { store.put inum { file with content := content } with free := store.free - need })
  | .iupdate inum major minor nlink => do
      let file ← store.lock inum
      return (.nothing,
        store.put inum { file with major := major, minor := minor, nlink := nlink })
  | .iput inum => return (.nothing, store.drop inum)

/-- The arguments are of their C types, and inode numbers are those of inodes. -/
def Legal (ninodes : ℕ) : Label → Prop
  | .ialloc type => type ≠ 0
  | .readi inum off n => inum < ninodes ∧ off < uintSize ∧ n < uintSize
  | .writei inum off src => inum < ninodes ∧ off < uintSize ∧ src.length < uintSize
  | .iupdate inum _ _ _ => inum < ninodes
  | .iput _ => True

instance (ninodes : ℕ) : DecidablePred (Legal ninodes)
  | .ialloc type => inferInstanceAs (Decidable (type ≠ 0))
  | .readi _ _ _ => inferInstanceAs (Decidable (_ ∧ _ ∧ _))
  | .writei _ _ _ => inferInstanceAs (Decidable (_ ∧ _ ∧ _))
  | .iupdate inum _ _ _ => inferInstanceAs (Decidable (inum < ninodes))
  | .iput _ => inferInstanceAs (Decidable True)

/-! ### Inodes and blocks apart -/

/-- Only the addresses of an inode say which blocks it has. -/
theorem Maps.of_addrs {block : ℕ → Buffer} (maps : Maps block ip l) (same : ip'.addrs = ip.addrs) :
    Maps block ip' l := by
  have index : ip'.indirect = ip.indirect := congrFun same _
  refine ⟨maps.short, fun i => ?_, ?_, fun there j small => ?_, maps.nonzero, maps.nodup, ?_⟩
  · rw [same, maps.direct]
  · rw [index, maps.indirect]
  · rw [index] at there ⊢
    exact maps.entries there j small
  · rw [index]
    exact maps.apart

theorem owned_of_addrs (same : ip'.addrs = ip.addrs) (l : List ℕ) : owned ip' l = owned ip l := by
  have index : ip'.indirect = ip.indirect := congrFun same _
  rw [owned, owned, index]

/-- `iupdate` writes one block. It is before the free map and the data. -/
theorem logs_iupdate (s : State) (inum : ℕ) (ip : Dinode) :
    Logs s (iupdate s inum ip) {iblock inum s.sb} :=
  logs_logWrite s _ (Set.mem_singleton _)

theorem iblock_not_mem_map {sb : Superblock} (valid : sb.Valid) (inside : inum < sb.ninodes) :
    iblock inum sb ∉ sb.map :=
  fun map => absurd map.1 (Nat.not_le.mpr (iblock_lt valid inside).2)

theorem ne_iblock {sb : Superblock} (valid : sb.Valid) (inside : inum < sb.ninodes)
    (data : sb.dataStart ≤ b) : b ≠ iblock inum sb := by
  have before := (iblock_lt valid inside).2
  have := valid.data
  generalize sb.size / bpb = quotient at *
  omega

theorem Accounts.iupdate (accounts : Accounts s own) (inside : inum < s.sb.ninodes) (ip : Dinode) :
    Accounts (Fs.iupdate s inum ip) own := by
  have place := iblock_lt accounts.valid inside
  refine accounts.logs (logs_iupdate s inum ip) ?_ ?_
  · rw [Set.mem_singleton_iff]
    omega
  · rintro b rfl
    exact iblock_not_mem_map accounts.valid inside

theorem freeBlocks_iupdate (accounts : Accounts s own) (inside : inum < s.sb.ninodes)
    (ip : Dinode) : freeBlocks (iupdate s inum ip) = freeBlocks s := by
  refine (logs_iupdate s inum ip).freeBlocks_eq accounts.valid ?_
  rintro b rfl
  exact iblock_not_mem_map accounts.valid inside

/-- The blocks of files are not those of inodes. -/
theorem Accounts.block_iupdate (accounts : Accounts s own) (inside : inum < s.sb.ninodes)
    (ip : Dinode) {i : ℕ} (member : b ∈ own i) : (Fs.iupdate s inum ip).block b = s.block b :=
  (logs_iupdate s inum ip).block_eq
    (ne_iblock accounts.valid inside (accounts.range i b member).1)

/-- Nor are the bytes of files. -/
theorem Accounts.slice_iupdate (accounts : Accounts s own) (inside : inum < s.sb.ninodes)
    (ip : Dinode) {i : ℕ} (mine : ∀ b ∈ l, b ∈ own i) (whole : n ≤ l.length * bsize) :
    slice (paged bsize (Fs.iupdate s inum ip).block l) 0 n = slice (paged bsize s.block l) 0 n := by
  refine slice_congr fun k _ upper => paged_congr (fun b member => ?_) (div_lt_of_lt_mul (by omega))
  exact accounts.block_iupdate inside ip (mine b member)

/-- The addresses in an inode are blocks of the file. -/
theorem Maps.addrs_mem {block : ℕ → Buffer} (maps : Maps block ip l) (i : Fin (ndirect + 1))
    (there : ip.addrs i ≠ 0) : ip.addrs i ∈ owned ip l := by
  refine Fin.lastCases (fun there => ?_) (fun i there => ?_) i there
  · exact indirect_mem_owned there
  · rw [maps.direct] at there ⊢
    exact mem_owned (getD_mem there)

/-- The addresses of a file are numbers of blocks. -/
theorem Accounts.fits (accounts : Accounts s own) (mine : own inum = owned ip l)
    (maps : Maps s.block ip l) (small : ip.size < uintSize) : ip.Fits := by
  refine ⟨small, fun i => ?_⟩
  by_cases none : ip.addrs i = 0
  · rw [none]
    decide
  · have member : ip.addrs i ∈ own inum := mine ▸ maps.addrs_mem i none
    exact (accounts.range inum _ member).2.trans accounts.valid.small

/-! ### Consistent disks -/

/-- The blocks of every inode. -/
def ownBy (s : State) (lists : ℕ → List ℕ) (inum : ℕ) : Finset ℕ := owned (inode s inum) (lists inum)

/-- **A consistent disk**: the free map, the inodes and their lists of blocks agree, and an inode
that is not in use has no bytes. -/
structure Consistent (s : State) (lists : ℕ → List ℕ) : Prop where
  accounts : Accounts s (ownBy s lists)
  maps : ∀ inum, Maps s.block (inode s inum) (lists inum)
  length : ∀ inum, (lists inum).length = blocksFor (inode s inum).size
  unused : ∀ inum, (inode s inum).type = 0 → (inode s inum).size = 0

/-- An inode and its bytes. -/
def Dinode.file (ip : Dinode) (content : List UInt8) : File where
  type := ip.type
  major := ip.major
  minor := ip.minor
  nlink := ip.nlink
  content := content

/-- The file that an inode and its blocks make. -/
def Dinode.fileOf (ip : Dinode) (block : ℕ → Buffer) (l : List ℕ) : Option File :=
  if ip.type = 0 then none else some (ip.file (slice (paged bsize block l) 0 ip.size))

/-- The file of an inode that is in use. -/
def fileOn (s : State) (lists : ℕ → List ℕ) (inum : ℕ) : File :=
  (inode s inum).file (slice (paged bsize s.block (lists inum)) 0 (inode s inum).size)

/-- **The files on a disk.** -/
def fileAt (s : State) (lists : ℕ → List ℕ) (inum : ℕ) : Option File :=
  (inode s inum).fileOf s.block (lists inum)

theorem fileAt_eq (s : State) (lists : ℕ → List ℕ) (inum : ℕ) :
    fileAt s lists inum = if (inode s inum).type = 0 then none else some (fileOn s lists inum) := rfl

@[simp] theorem length_fileOn (s : State) (lists : ℕ → List ℕ) (inum : ℕ) :
    (fileOn s lists inum).content.length = (inode s inum).size := length_slice _ _ _

/-- The bytes of an inode are in its blocks. -/
theorem Consistent.size_le (consistent : Consistent s lists) (inum : ℕ) :
    (inode s inum).size ≤ (lists inum).length * bsize :=
  blocksFor_le.mp (consistent.length inum).ge

theorem Consistent.small (consistent : Consistent s lists) (inum : ℕ) :
    (inode s inum).size < uintSize := by
  have short := Nat.mul_le_mul_right bsize (consistent.maps inum).short
  have bound : maxFile * bsize < uintSize := by decide
  have := consistent.size_le inum
  omega

theorem ownBy_change (inodes : inode t = Function.update (inode s) inum ip') :
    ownBy t (Function.update lists inum l') =
      Function.update (ownBy s lists) inum (owned ip' l') := by
  funext i
  by_cases same : i = inum
  · subst same
    rw [ownBy, inodes, Function.update_self, Function.update_self, Function.update_self]
  · rw [ownBy, inodes, Function.update_of_ne same, Function.update_of_ne same,
      Function.update_of_ne same, ownBy]

/-- **What a call leaves that changes one file.** -/
structure Changes (s t : State) (own : ℕ → Finset ℕ) (inum : ℕ) (ip' : Dinode) (l' : List ℕ) :
    Prop where
  logs : Logs s t {b | b = iblock inum s.sb ∨ b ∈ s.sb.map ∨ b ∈ owned ip' l'}
  inodes : inode t = Function.update (inode s) inum ip'
  accounts : Accounts t (Function.update own inum (owned ip' l'))
  maps : Maps t.block ip' l'
  length : l'.length = blocksFor ip'.size

theorem Changes.here (changes : Changes s t own inum ip' l') : inode t inum = ip' := by
  rw [changes.inodes, Function.update_self]

theorem Changes.others (changes : Changes s t own inum ip' l') (i : ℕ) (other : i ≠ inum) :
    inode t i = inode s i := by
  rw [changes.inodes, Function.update_of_ne other]

/-- **The other files stay as they are.** -/
theorem Consistent.change (consistent : Consistent s lists) (inside : inum < s.sb.ninodes)
    (changes : Changes s t (ownBy s lists) inum ip' l') (unused : ip'.type = 0 → ip'.size = 0) :
    Consistent t (Function.update lists inum l') ∧ fileAt t (Function.update lists inum l') =
      Function.update (fileAt s lists) inum (ip'.fileOf t.block l') := by
  obtain ⟨logs, inodes, accounts, maps, length⟩ := changes
  -- the blocks of the other files stay as they are
  have kept : ∀ i, i ≠ inum → ∀ b ∈ ownBy s lists i, t.block b = s.block b := by
    intro i other b member
    refine logs.block_eq fun touch => ?_
    have data := (consistent.accounts.range i b member).1
    rcases touch with inode | map | mine
    · exact ne_iblock consistent.accounts.valid inside data inode
    · exact not_mem_map data map
    · refine other (accounts.apart i inum b ?_ ?_)
      · rwa [Function.update_of_ne other]
      · rwa [Function.update_self]
  refine ⟨⟨?_, fun i => ?_, fun i => ?_, fun i => ?_⟩, funext fun i => ?_⟩
  · rwa [ownBy_change inodes]
  · by_cases same : i = inum
    · subst same
      rwa [inodes, Function.update_self, Function.update_self]
    · rw [inodes, Function.update_of_ne same, Function.update_of_ne same]
      exact (consistent.maps i).congr fun there => kept i same _ (indirect_mem_owned there)
  · by_cases same : i = inum
    · subst same
      rwa [inodes, Function.update_self, Function.update_self]
    · rw [inodes, Function.update_of_ne same, Function.update_of_ne same]
      exact consistent.length i
  · by_cases same : i = inum
    · subst same
      rwa [inodes, Function.update_self]
    · rw [inodes, Function.update_of_ne same]
      exact consistent.unused i
  · by_cases same : i = inum
    · subst same
      rw [fileAt, inodes, Function.update_self, Function.update_self, Function.update_self]
    · have bytes : slice (paged bsize t.block (lists i)) 0 (inode s i).size =
          slice (paged bsize s.block (lists i)) 0 (inode s i).size := by
        refine slice_congr fun k _ upper => paged_congr (fun b member => ?_) (div_lt_of_lt_mul ?_)
        · exact kept i same b (mem_owned member)
        · have := consistent.size_le i
          omega
      rw [fileAt, inodes, Function.update_of_ne same, Function.update_of_ne same,
        Function.update_of_ne same, fileAt, Dinode.fileOf, Dinode.fileOf, bytes]

/-! ### Reading -/

/-- **`readi` reads the file.** -/
theorem Maps.readi (maps : Maps s.block ip l) (size : ip.size ≤ l.length * bsize)
    (offset : off < uintSize) (count : n < uintSize) :
    Fs.readi devsw s ip off n =
      .ok ((ip.file (slice (paged bsize s.block l) 0 ip.size)).read devsw off n, ip, s) := by
  have refused : off > ip.size ∨ (off + n) % uintSize < off ↔ ip.size < off ∨ uintSize ≤ off + n := by
    rw [show uintSize = 4294967296 from rfl] at *
    omega
  simp only [Fs.readi, File.read, Dinode.file, length_slice]
  by_cases device : ip.type = tDev
  · rw [if_pos device, if_pos device]
  by_cases outside : ip.size < off ∨ uintSize ≤ off + n
  · rw [if_neg device, if_pos (refused.mpr outside), if_neg device, if_pos outside]
  · rw [if_neg device, if_neg (mt refused.mp outside), if_neg device, if_neg outside]
    rw [not_or, Nat.not_lt, Nat.not_le] at outside
    have length : (if (off + n) % uintSize > ip.size then ip.size - off else n) =
        min n (ip.size - off) := by
      rw [Nat.mod_eq_of_lt outside.2]
      split <;> omega
    rw [length, maps.readLoop _ le_rfl (by omega)]
    simp only [bind, Except.bind, pure, Except.pure]
    rw [drop_slice, take_slice, Nat.zero_add]

/-! ### Writing -/

/-- The blocks of the free map and of files are behind the inodes. -/
theorem Accounts.behind (accounts : Accounts s own) (touched : b ∈ s.sb.map ∨ b ∈ own inum) :
    s.sb.bmapstart ≤ b := by
  rcases touched with map | member
  · exact map.1
  · have data := (accounts.range inum b member).1
    have := accounts.valid.data
    generalize s.sb.size / bpb = quotient at *
    omega

/-- **`iupdate` at the end of a change.** -/
theorem Changes.of_iupdate {touch : Set ℕ} (inside : inum < s.sb.ninodes) (logs : Logs s t touch)
    (touched : ∀ b ∈ touch, b = iblock inum s.sb ∨ b ∈ s.sb.map ∨ b ∈ owned ip' l')
    (before : ∀ i, i ≠ inum → inode t i = inode s i)
    (accounts : Accounts t (Function.update own inum (owned ip' l'))) (maps : Maps t.block ip' l')
    (length : l'.length = blocksFor ip'.size) (small : ip'.size < uintSize) :
    Changes s (iupdate t inum ip') own inum ip' l' := by
  have inside' : inum < t.sb.ninodes := logs.sb.symm ▸ inside
  have mine : Function.update own inum (owned ip' l') inum = owned ip' l' :=
    Function.update_self _ _ _
  refine ⟨?_, ?_, accounts.iupdate inside' ip', maps.congr fun there => ?_, length⟩
  · refine (logs.mono touched).trans ((logs_iupdate t inum ip').mono ?_)
    rintro b rfl
    exact .inl (by rw [logs.sb])
  · rw [inode_iupdate inside' (accounts.fits mine maps small)]
    funext i
    by_cases same : i = inum
    · rw [same, Function.update_self, Function.update_self]
    · rw [Function.update_of_ne same, Function.update_of_ne same, before i same]
  · exact accounts.block_iupdate inside' ip' (mine.symm ▸ indirect_mem_owned there)

/-- A second `iupdate`, of other fields. -/
theorem Changes.iupdate {ip'' : Dinode} (changes : Changes s t own inum ip' l')
    (inside : inum < s.sb.ninodes) (addrs : ip''.addrs = ip'.addrs) (size : ip''.size = ip'.size)
    (small : ip'.size < uintSize) : Changes s (Fs.iupdate t inum ip'') own inum ip'' l' := by
  refine .of_iupdate inside changes.logs ?_ changes.others ?_ (changes.maps.of_addrs addrs)
    (size.symm ▸ changes.length) (size.symm ▸ small)
  · rw [owned_of_addrs addrs]
    exact fun b touched => touched
  · rw [owned_of_addrs addrs]
    exact changes.accounts

/-- Nothing is changed. -/
theorem Consistent.changes (consistent : Consistent s lists) (inum : ℕ) :
    Changes s s (ownBy s lists) inum (inode s inum) (lists inum) := by
  refine ⟨.refl s _, (Function.update_eq_self _ _).symm, ?_, consistent.maps inum,
    consistent.length inum⟩
  have same : Function.update (ownBy s lists) inum (owned (inode s inum) (lists inum)) =
      ownBy s lists := Function.update_eq_self _ _
  rw [same]
  exact consistent.accounts

section Written

variable {more : List ℕ}

/-- What the loop of `writei` touches is in the free map or in the file. -/
theorem Written.touched (written : Written s t own inum ip ip' l more off src) :
    ∀ b ∈ touches s.sb ip' (pages (l ++ more) off src.length),
      b ∈ s.sb.map ∨ b ∈ owned ip' (l ++ more) := by
  rintro b (map | ⟨i, -, upper, rfl⟩ | ⟨rfl, there⟩)
  · exact .inl map
  · have bound : off + src.length ≤ (l ++ more).length * bsize :=
      blocksFor_le.mp (by rw [written.length]; omega)
    rw [List.getD_eq_getElem _ _ (div_lt_of_lt_mul (by omega))]
    exact .inr (mem_owned (List.getElem_mem _))
  · exact .inr (indirect_mem_owned there)

theorem Written.inode_eq (written : Written s t own inum ip ip' l more off src)
    (valid : s.sb.Valid) : inode t = inode s := by
  refine written.logs.inode_eq valid fun b member => ?_
  have touched := written.touched b member
  rw [← written.logs.sb, ← Function.update_self inum (owned ip' (l ++ more)) own] at touched
  have behind := written.accounts.behind touched
  rwa [written.logs.sb] at behind

/-- **The bytes that are written.** -/
theorem Written.content (written : Written s t own inum ip ip' l more off src)
    (size : ip.size ≤ l.length * bsize) (start : off ≤ ip.size) :
    slice (paged bsize t.block (l ++ more)) 0 (max ip.size (off + src.length)) =
      (slice (paged bsize s.block l) 0 ip.size).take off ++ src ++
        (slice (paged bsize s.block l) 0 ip.size).drop (off + src.length) := by
  rw [← slice_patch_zero _ _ start]
  exact slice_congr fun i _ upper => written.bytes i (by omega)

theorem blocksFor_mono {n k : ℕ} (order : n ≤ k) : blocksFor n ≤ blocksFor k :=
  Nat.div_le_div_right (by omega)

/-- A file that does not grow keeps its inode. -/
theorem Written.same (written : Written s t own inum ip ip' l more off src)
    (maps : Maps s.block ip l) (length : l.length = blocksFor ip.size)
    (inside : off + src.length ≤ ip.size) : more = [] ∧ ip' = ip := by
  have none : more = [] := by
    have grown := written.length
    have order := blocksFor_mono inside
    rw [List.length_append] at grown
    exact List.eq_nil_of_length_eq_zero (by omega)
  subst none
  refine ⟨rfl, ?_⟩
  have addrs : ip'.addrs = ip.addrs := by
    have maps' := written.maps
    rw [List.append_nil] at maps'
    funext i
    refine Fin.lastCases ?_ (fun i => ?_) i
    · by_cases none : ip.indirect = 0
      · exact (maps'.indirect.mpr (maps.indirect.mp none)).trans none.symm
      · exact written.index none
    · rw [maps'.direct, maps.direct]
  rw [written.info, addrs]

/-- What `writei` leaves. -/
structure Writes (s t : State) (own : ℕ → Finset ℕ) (inum : ℕ) (ip ip' : Dinode) (l' : List ℕ)
    (off : ℕ) (src content : List UInt8) (need : ℕ) : Prop where
  changes : Changes s t own inum ip' l'
  info : ip' = { ip with addrs := ip'.addrs, size := ip'.size }
  whole : off + src.length ≤ ip'.size
  content : slice (paged bsize t.block l') 0 ip'.size = content
  free : (freeBlocks t).card + need = (freeBlocks s).card
  logs : Logs s t (insert (iblock inum s.sb) (touches s.sb ip' (pages l' off src.length)))
  logged : ∀ b ∈ pages l' off src.length, ∃ data, (b, data) ∈ t.writes

/-- The file has grown: the inode is written. -/
theorem Written.grows (written : Written s t own inum ip ip' l more off src)
    (valid : s.sb.Valid) (inside : inum < s.sb.ninodes) (length : l.length = blocksFor ip.size)
    (size : ip.size ≤ l.length * bsize) (start : off ≤ ip.size)
    (grown : ip.size < off + src.length) (room : off + src.length ≤ maxFile * bsize) :
    Writes s (iupdate t inum { ip' with size := off + src.length }) own inum ip
      { ip' with size := off + src.length } (l ++ more) off src
      ((slice (paged bsize s.block l) 0 ip.size).take off ++ src ++
        (slice (paged bsize s.block l) 0 ip.size).drop (off + src.length))
      (needs l.length (l ++ more).length) := by
  have whole : maxFile * bsize < uintSize := by decide
  have inside' : inum < t.sb.ninodes := written.logs.sb.symm ▸ inside
  have order := blocksFor_mono grown.le
  have last : (l ++ more).length = blocksFor (off + src.length) := by
    rw [written.length]
    omega
  have addrs : ({ ip' with size := off + src.length } : Dinode).addrs = ip'.addrs := rfl
  have accounts := written.accounts
  refine ⟨.of_iupdate inside written.logs ?_ (fun i _ => ?_) ?_ (written.maps.of_addrs addrs) last
    (room.trans_lt whole), ?_, le_rfl, ?_, ?_, ?_, fun b page => ?_⟩
  · rw [owned_of_addrs addrs]
    exact fun b touched => .inr (written.touched b touched)
  · rw [written.inode_eq valid]
  · rwa [owned_of_addrs addrs]
  · rw [written.info]
  · have total : max ip.size (off + src.length) = off + src.length := by omega
    rw [← written.content size start, total]
    refine accounts.slice_iupdate inside' _ (i := inum) (fun b member => ?_)
      (blocksFor_le.mp last.ge)
    rw [Function.update_self]
    exact mem_owned member
  · rw [freeBlocks_iupdate accounts inside', written.free]
  · refine (written.logs.mono (Set.subset_insert _ _)).trans ((logs_iupdate t inum _).mono ?_)
    rintro b rfl
    exact .inl (by rw [written.logs.sb])
  · obtain ⟨data, member⟩ := written.logged b page
    exact ⟨data, List.mem_cons_of_mem _ member⟩

/-- The file has not grown. -/
theorem Written.stays (written : Written s t own inum ip ip' l more off src)
    (valid : s.sb.Valid) (maps : Maps s.block ip l) (here : inode s inum = ip)
    (length : l.length = blocksFor ip.size)
    (size : ip.size ≤ l.length * bsize) (start : off ≤ ip.size)
    (inside : off + src.length ≤ ip.size) :
    Writes s t own inum ip ip' (l ++ more) off src
      ((slice (paged bsize s.block l) 0 ip.size).take off ++ src ++
        (slice (paged bsize s.block l) 0 ip.size).drop (off + src.length))
      (needs l.length (l ++ more).length) := by
  obtain ⟨rfl, rfl⟩ := written.same maps length inside
  have bytes := written.content size start
  rw [Nat.max_eq_left inside] at bytes
  refine ⟨⟨written.logs.mono fun b member => .inr (written.touched b member), ?_, written.accounts,
    written.maps, ?_⟩, rfl, inside, bytes, written.free, written.logs.mono (Set.subset_insert _ _),
    written.logged⟩
  · rw [← here, Function.update_eq_self]
    exact written.inode_eq valid
  · rw [List.append_nil, length]

end Written

/-- The checks of `writei`, and then its loop. -/
theorem writei_eq {content : List UInt8} (length : content.length = ip.size)
    (offset : off < uintSize) (count : src.length < uintSize) :
    writei devsw s inum ip off src =
      match (ip.file content).write devsw off src with
      | .failed => .ok (.failed, ip, s)
      | .device => .ok (.device, ip, s)
      | .done _ => do
          let (ip, s) ← writeLoop src.length s ip off src
          if src.length > 0 ∧ off + src.length > ip.size then
            let ip := { ip with size := off + src.length }
            return (.done src.length, ip, iupdate s inum ip)
          else return (.done src.length, ip, s) := by
  have whole : maxFile * bsize < uintSize := by decide
  simp only [writei, File.write, Dinode.file, length]
  by_cases device : ip.type = tDev
  · rw [if_pos device, if_pos device, deviceReply, deviceReply]
    split <;> rfl
  rw [if_neg device, if_neg device]
  by_cases before : ip.size < off ∨ maxFile * bsize < off + src.length
  · rw [if_pos before]
    by_cases first : off > ip.size ∨ (off + src.length) % uintSize < off
    · rw [if_pos first]
    · rw [if_neg first, if_pos]
      rw [show uintSize = 4294967296 from rfl] at *
      omega
  · rw [if_neg before, if_neg, if_neg]
    · rw [show uintSize = 4294967296 from rfl] at *
      omega
    · rw [show uintSize = 4294967296 from rfl] at *
      omega

theorem File.write_eq_done {file : File} {content : List UInt8}
    (accepted : file.write devsw off src = .done content) :
    off ≤ file.content.length ∧ off + src.length ≤ maxFile * bsize ∧
      content = file.content.take off ++ src ++ file.content.drop (off + src.length) := by
  unfold File.write at accepted
  split at accepted
  · unfold deviceReply at accepted
    split at accepted <;> cases accepted
  · split at accepted
    · cases accepted
    · rename_i inside
      rw [not_or, Nat.not_lt, Nat.not_lt] at inside
      cases accepted
      exact ⟨inside.1, inside.2, rfl⟩

/-- **`writei` writes the file**; it panics exactly if there are too few free blocks. -/
theorem Consistent.writei {old content : List UInt8} (consistent : Consistent s lists)
    (here : inode s inum = ip) (bytes : slice (paged bsize s.block (lists inum)) 0 ip.size = old)
    (inside : inum < s.sb.ninodes) (offset : off < uintSize) (count : src.length < uintSize)
    (accepted : (ip.file old).write devsw off src = .done content) :
    (freeBlocks s).card < needs (blocksFor ip.size) (blocksFor content.length) ∧
        Fs.writei devsw s inum ip off src = .error .outOfBlocks ∨
      ∃ ip' l' t, Fs.writei devsw s inum ip off src = .ok (.done src.length, ip', t) ∧
        Writes s t (ownBy s lists) inum ip ip' l' off src content
          (needs (blocksFor ip.size) (blocksFor content.length)) := by
  have accounts := consistent.accounts
  have maps := here ▸ consistent.maps inum
  have length := here ▸ consistent.length inum
  have size := here ▸ consistent.size_le inum
  have mine : ownBy s lists inum = owned ip (lists inum) := by rw [ownBy, here]
  have whole : old.length = ip.size := by rw [← bytes, length_slice]
  obtain ⟨start, room, rfl⟩ := File.write_eq_done accepted
  rw [writei_eq whole offset count, accepted, length_overwrite start]
  simp only [Dinode.file, whole] at start ⊢
  have blocks : max (lists inum).length (blocksFor (off + src.length)) =
      blocksFor (max ip.size (off + src.length)) := by
    rw [length]
    exact ((show Monotone blocksFor from fun _ _ => blocksFor_mono).map_max).symm
  rw [← length, ← blocks]
  rcases maps.writeLoop accounts mine src.length le_rfl (start.trans size) room with
    ⟨few, ran⟩ | ⟨more, ip', t, ran, written⟩
  · exact .inl ⟨few, by rw [ran]; rfl⟩
  · refine .inr ?_
    have same : ip'.size = ip.size := by rw [written.info]
    simp only [ran, bind, Except.bind, pure, Except.pure, same]
    rw [← written.length]
    by_cases grown : src.length > 0 ∧ off + src.length > ip.size
    · rw [if_pos grown]
      have writes := written.grows accounts.valid inside length size start grown.2 room
      rw [bytes] at writes
      exact ⟨_, _, _, rfl, writes⟩
    · rw [if_neg grown]
      have writes := written.stays accounts.valid maps here length size start (by omega)
      rw [bytes] at writes
      exact ⟨_, _, _, rfl, writes⟩

/-! ### Making and freeing files -/

/-- An inode without blocks. -/
theorem maps_nil (block : ℕ → Buffer) (none : ip.addrs = fun _ => 0) : Maps block ip [] := by
  have index : ip.indirect = 0 := congrFun none _
  refine ⟨Nat.zero_le _, fun i => ?_, ?_, fun there => absurd index there, List.not_mem_nil,
    List.nodup_nil, List.not_mem_nil⟩
  · rw [none]
    rfl
  · exact iff_of_true index (Nat.zero_le _)

theorem owned_nil (none : ip.addrs = fun _ => 0) : owned ip [] = ∅ := by
  rw [owned, if_pos (show ip.indirect = 0 from congrFun none _)]
  rfl

/-- An inode that is not in use has no blocks. -/
theorem Consistent.ownBy_unused (consistent : Consistent s lists)
    (unused : (inode s inum).type = 0) : ownBy s lists inum = ∅ := by
  have length := consistent.length inum
  rw [consistent.unused inum unused] at length
  have empty : lists inum = [] := List.eq_nil_of_length_eq_zero length
  have index : (inode s inum).indirect = 0 :=
    (consistent.maps inum).indirect.mpr (by rw [empty]; exact Nat.zero_le _)
  rw [ownBy, owned, if_pos index, empty]
  rfl

/-- **`ialloc` makes an empty file.** -/
theorem Consistent.ialloc (consistent : Consistent s lists) (inside : inum < s.sb.ninodes)
    (unused : (inode s inum).type = 0) (type : Int16) :
    Changes s (iupdate s inum { Dinode.zero with type := type }) (ownBy s lists) inum
      { Dinode.zero with type := type } [] := by
  have none : ({ Dinode.zero with type := type } : Dinode).addrs = fun _ => 0 := rfl
  refine .of_iupdate inside (.refl s ∅) (fun _ member => member.elim) (fun _ _ => rfl) ?_
    (maps_nil _ none) (show 0 = blocksFor 0 by decide) (show 0 < uintSize by decide)
  rw [owned_nil none, ← consistent.ownBy_unused unused, Function.update_eq_self]
  exact consistent.accounts

/-- How many blocks a file has. -/
theorem Maps.card_owned {block : ℕ → Buffer} (maps : Maps block ip l) :
    (owned ip l).card = needs 0 l.length := by
  have card : l.toFinset.card = l.length := List.toFinset_card_of_nodup maps.nodup
  rw [owned, needs]
  by_cases none : ip.indirect = 0
  · have short := maps.indirect.mp none
    rw [if_pos none, card, if_neg (by omega)]
    omega
  · have long := mt maps.indirect.mpr none
    have apart : ip.indirect ∉ l.toFinset := by simpa using maps.apart
    rw [if_neg none, Finset.card_insert_of_notMem apart, card, if_pos (by omega)]
    omega

/-- The blocks that are free have no owner. -/
theorem Accounts.mem_freeBlocks (accounts : Accounts s own) :
    b ∈ freeBlocks s ↔ b < s.sb.size ∧ s.sb.dataStart ≤ b ∧ ∀ i, b ∉ own i := by
  rw [Fs.mem_freeBlocks]
  refine and_congr_right fun inside => ?_
  rw [← Bool.not_eq_true, accounts.marks b inside, not_or, Nat.not_lt, not_exists]

/-- The blocks of a file that is gone are free. -/
theorem Accounts.card_freeBlocks (accounts : Accounts s own)
    (accounts' : Accounts t (Function.update own inum ∅)) (sb : t.sb = s.sb) :
    (freeBlocks t).card = (freeBlocks s).card + (own inum).card := by
  have others : ∀ b, (∀ i, b ∉ Function.update own inum ∅ i) ↔ ∀ i, i ≠ inum → b ∉ own i := by
    intro b
    refine forall_congr' fun i => ?_
    by_cases same : i = inum
    · simp [same]
    · simp [same]
  have all : freeBlocks t = freeBlocks s ∪ own inum := by
    ext b
    rw [Finset.mem_union, accounts'.mem_freeBlocks, accounts.mem_freeBlocks, others, sb]
    constructor
    · rintro ⟨inside, data, unowned⟩
      by_cases member : b ∈ own inum
      · exact .inr member
      · refine .inl ⟨inside, data, fun i owned => ?_⟩
        by_cases same : i = inum
        · exact member (same ▸ owned)
        · exact unowned i same owned
    · rintro (⟨inside, data, unowned⟩ | member)
      · exact ⟨inside, data, fun i _ => unowned i⟩
      · obtain ⟨data, inside⟩ := accounts.range inum b member
        exact ⟨inside, data, fun i other owned => other (accounts.apart i inum b owned member)⟩
  have apart : Disjoint (freeBlocks s) (own inum) := by
    rw [Finset.disjoint_left]
    exact fun b free member => (accounts.mem_freeBlocks.mp free).2.2 inum member
  rw [all, Finset.card_union_of_disjoint apart]

/-- **The last `iput` frees the file.** -/
theorem Consistent.itrunc (consistent : Consistent s lists) (inside : inum < s.sb.ninodes)
    (here : inode s inum = ip) :
    ∃ t, itrunc s inum ip = .ok ({ ip with addrs := fun _ => 0, size := 0 }, t) ∧
      Changes s t (ownBy s lists) inum { ip with addrs := fun _ => 0, size := 0 } [] ∧
      (freeBlocks t).card = (freeBlocks s).card + needs 0 (blocksFor ip.size) := by
  have accounts := consistent.accounts
  have maps := here ▸ consistent.maps inum
  have length := here ▸ consistent.length inum
  have mine : ownBy s lists inum = owned ip (lists inum) := by rw [ownBy, here]
  have none : ({ ip with addrs := fun _ => 0, size := 0 } : Dinode).addrs = fun _ => 0 := rfl
  obtain ⟨t, ran, logs, accounts'⟩ := maps.itrunc accounts mine
  have inside' : inum < t.sb.ninodes := logs.sb.symm ▸ inside
  refine ⟨_, ran, ?_, ?_⟩
  · refine .of_iupdate inside logs (fun b map => .inr (.inl map)) (fun i _ => ?_) ?_
      (maps_nil _ none) (show 0 = blocksFor 0 by decide) (show 0 < uintSize by decide)
    · rw [logs.inode_eq accounts.valid fun b map => map.1]
    · rwa [owned_nil none]
  · rw [freeBlocks_iupdate accounts' inside', accounts.card_freeBlocks accounts' logs.sb, mine,
      maps.card_owned, length]

end Fs

end Xv6
