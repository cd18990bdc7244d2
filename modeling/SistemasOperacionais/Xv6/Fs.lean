/-
**xv6 `fs.c`: blocks, inodes and the contents of files.**

The state is what `bread` returns for each block (the log and the buffer cache are below, in
`Xv6.Log` and `Xv6.Bio`), the superblock in memory, and the blocks that the calls have given to
`log_write`. Blocks are bytes: the bits of the free map, the numbers of an inode and of an indirect
block are read from them and written to them where the code does it.

* `balloc`, `bfree` — the free map.
* `Dinode.read`, `Dinode.bytes` — an inode on the disk; `iupdate`, `ialloc`.
* `bmap`, `itrunc` — the blocks of a file.
* `readi`, `writei` — its bytes; the loops get as many steps as there are bytes to copy, and every
  step copies one at least.
* `Machine`, `call` — the calls one after the other, on the inodes in memory: `ilock` reads an inode
  unless it is there, the last `iput` forgets it, and frees the file if it has no links.

There is one device. What a device of type `T_DEV` reads and writes is not in the model.
-/

import SistemasOperacionais.Runs.Answers
import SistemasOperacionais.Data.Bytes
import Mathlib.Data.Fintype.Basic

namespace Xv6

namespace Fs

open Bytes

/-- `BSIZE` -/
def bsize : ℕ := 512

/-- `NDIRECT` -/
def ndirect : ℕ := 12

/-- `NINDIRECT` -/
def nindirect : ℕ := bsize / 4

/-- `MAXFILE` -/
def maxFile : ℕ := ndirect + nindirect

/-- `sizeof(struct dinode)` -/
def dinodeSize : ℕ := 64

/-- `IPB` -/
def ipb : ℕ := bsize / dinodeSize

/-- `BPB` -/
def bpb : ℕ := bsize * 8

/-- `NDEV` -/
def ndev : ℕ := 10

/-- `T_DEV` -/
def tDev : Int16 := 3

/-- `struct superblock` -/
structure Superblock where
  size : ℕ
  nblocks : ℕ
  ninodes : ℕ
  nlog : ℕ
  logstart : ℕ
  inodestart : ℕ
  bmapstart : ℕ
  deriving DecidableEq

/-- `struct dinode`, and the same fields of `struct inode`. -/
@[ext] structure Dinode where
  type : Int16
  major : Int16
  minor : Int16
  nlink : Int16
  size : ℕ
  addrs : Fin (ndirect + 1) → ℕ
  deriving DecidableEq

inductive Panic
  /-- `"balloc: out of blocks"` -/
  | outOfBlocks
  /-- `"freeing free block"` -/
  | freeingFree
  /-- `"ialloc: no inodes"` -/
  | noInodes
  /-- `"bmap: out of range"` -/
  | outOfRange
  /-- `"ilock: no type"` -/
  | noType
  /-- `"short filewrite"` -/
  | shortFilewrite
  deriving DecidableEq

/-- The blocks as `bread` returns them, the variable `sb`, and the calls of `log_write`, the last
one first. -/
structure State where
  block : ℕ → Buffer
  sb : Superblock
  writes : List (ℕ × Buffer)

/-- `log_write` of a block with new contents. -/
def State.logWrite (s : State) (bno : ℕ) (data : Buffer) : State :=
  { s with block := Function.update s.block bno data, writes := (bno, data) :: s.writes }

/-! ### Blocks -/

def readsb (block : ℕ → Buffer) : Superblock where
  size := field (block 1) 0 4
  nblocks := field (block 1) 4 4
  ninodes := field (block 1) 8 4
  nlog := field (block 1) 12 4
  logstart := field (block 1) 16 4
  inodestart := field (block 1) 20 4
  bmapstart := field (block 1) 24 4

def bzero (s : State) (bno : ℕ) : State := s.logWrite bno fun _ => 0

/-- `BBLOCK` -/
def bblock (b : ℕ) (sb : Superblock) : ℕ := b / bpb + sb.bmapstart

/-- The inner loop of `balloc`: the first free block among those whose bits are in one block. -/
def freeBit (s : State) (b : ℕ) : Option ℕ :=
  (List.range (min bpb (s.sb.size - b))).find? fun bi => !bit (s.block (bblock b s.sb)) bi

def balloc (s : State) : Except Panic (ℕ × State) :=
  let blocks := (List.range ((s.sb.size + bpb - 1) / bpb)).map (· * bpb)
  match blocks.findSome? fun b => (freeBit s b).map fun bi => (b, bi) with
  | none => .error .outOfBlocks
  | some (b, bi) =>
      let data := s.block (bblock b s.sb)
      .ok (b + bi, bzero (s.logWrite (bblock b s.sb) (setBit data bi)) (b + bi))

/-- It reads the superblock again. -/
def bfree (s : State) (b : ℕ) : Except Panic State :=
  let sb := readsb s.block
  let data := s.block (bblock b sb)
  if bit data (b % bpb) then
    .ok ({ s with sb := sb }.logWrite (bblock b sb) (clearBit data (b % bpb)))
  else .error .freeingFree

/-! ### Inodes -/

/-- `IBLOCK` -/
def iblock (i : ℕ) (sb : Superblock) : ℕ := i / ipb + sb.inodestart

/-- A `short` from its two bytes. -/
def short (bits : ℕ) : Int16 := (UInt16.ofNat bits).toInt16

def Dinode.read (data : Buffer) (off : ℕ) : Dinode where
  type := short (field data off 2)
  major := short (field data (off + 2) 2)
  minor := short (field data (off + 4) 2)
  nlink := short (field data (off + 6) 2)
  size := field data (off + 8) 4
  addrs i := field data (off + 12 + 4 * i) 4

def Dinode.bytes (ip : Dinode) : List UInt8 :=
  Bytes.bytes 2 ip.type.toUInt16.toNat ++ (Bytes.bytes 2 ip.major.toUInt16.toNat ++
    (Bytes.bytes 2 ip.minor.toUInt16.toNat ++ (Bytes.bytes 2 ip.nlink.toUInt16.toNat ++
      (Bytes.bytes 4 ip.size ++ (List.ofFn ip.addrs).flatMap (Bytes.bytes 4)))))

/-- The inode with number `inum` on the disk. -/
def dinode (s : State) (inum : ℕ) : Dinode :=
  Dinode.read (s.block (iblock inum s.sb)) (inum % ipb * dinodeSize)

def iupdate (s : State) (inum : ℕ) (ip : Dinode) : State :=
  let bno := iblock inum s.sb
  s.logWrite bno (patch (s.block bno) (inum % ipb * dinodeSize) ip.bytes)

/-- After `memset(dip, 0, sizeof(*dip))` -/
def Dinode.zero : Dinode := ⟨0, 0, 0, 0, 0, fun _ => 0⟩

def ialloc (s : State) (type : Int16) : Except Panic (ℕ × State) :=
  match (List.range' 1 (s.sb.ninodes - 1)).find? fun inum => decide ((dinode s inum).type = 0) with
  | none => .error .noInodes
  | some inum => .ok (inum, iupdate s inum { Dinode.zero with type := type })

/-! ### The blocks of a file -/

/-- `ip->addrs[NDIRECT]` -/
def Dinode.indirect (ip : Dinode) : ℕ := ip.addrs (Fin.last ndirect)

/-- `ip->addrs[i] = addr` -/
def Dinode.setAddr (ip : Dinode) (i : Fin (ndirect + 1)) (addr : ℕ) : Dinode :=
  { ip with addrs := Function.update ip.addrs i addr }

/-- `a[j]` of an indirect block -/
def entry (data : Buffer) (j : ℕ) : ℕ := field data (4 * j) 4

/-- `if((addr = x) == 0) x = addr = balloc(ip->dev)` -/
def orBalloc (s : State) (addr : ℕ) : Except Panic (ℕ × State) :=
  if addr = 0 then balloc s else .ok (addr, s)

/-- The address, the inode in memory and the state after the call. -/
def bmap (s : State) (ip : Dinode) (bn : ℕ) : Except Panic (ℕ × Dinode × State) :=
  if direct : bn < ndirect then do
    let i : Fin (ndirect + 1) := ⟨bn, Nat.lt_succ_of_lt direct⟩
    let (addr, s) ← orBalloc s (ip.addrs i)
    return (addr, ip.setAddr i addr, s)
  else if bn - ndirect < nindirect then do
    let (index, s) ← orBalloc s ip.indirect
    let ip := ip.setAddr (Fin.last ndirect) index
    let addr := entry (s.block index) (bn - ndirect)
    if addr = 0 then
      let (addr, s) ← balloc s
      return (addr, ip, s.logWrite index (setField (s.block index) (4 * (bn - ndirect)) 4 addr))
    else return (addr, ip, s)
  else .error .outOfRange

/-- `if(addr) bfree(ip->dev, addr)` -/
def freeSlot (s : State) (addr : ℕ) : Except Panic State :=
  if addr = 0 then .ok s else bfree s addr

def itrunc (s : State) (inum : ℕ) (ip : Dinode) : Except Panic (Dinode × State) := do
  let s ← (List.finRange ndirect).foldlM (fun s i => freeSlot s (ip.addrs i.castSucc)) s
  let s ← if ip.indirect = 0 then pure s else do
    let s ← (List.range nindirect).foldlM
      (fun s j => freeSlot s (entry (s.block ip.indirect) j)) s
    bfree s ip.indirect
  let ip := { ip with addrs := fun _ => 0, size := 0 }
  return (ip, iupdate s inum ip)

/-! ### The bytes of a file -/

/-- What `readi` and `writei` return: `-1`, what the function of a device returns, or a result. -/
inductive Reply (α : Type)
  | failed
  | device
  | done (result : α)
  deriving DecidableEq

/-- Which entries of `devsw` have a function. -/
structure Devsw where
  read : Int16 → Bool
  write : Int16 → Bool

/-- The branch for `T_DEV`. -/
def deviceReply {α : Type} (has : Int16 → Bool) (major : Int16) : Reply α :=
  if major.toInt < 0 ∨ major.toInt ≥ ndev ∨ !has major then .failed else .device

/-- The range of a `uint`. -/
def uintSize : ℕ := 0x100000000

/-- How many bytes are copied in one round. -/
def chunk (off left : ℕ) : ℕ := min left (bsize - off % bsize)

/-- The loop of `readi`. -/
def readLoop : ℕ → State → Dinode → ℕ → ℕ → Except Panic (List UInt8 × Dinode × State)
  | 0, s, ip, _, _ => .ok ([], ip, s)
  | fuel + 1, s, ip, off, left =>
      if left = 0 then .ok ([], ip, s)
      else do
        let (addr, ip, s) ← bmap s ip (off / bsize)
        let m := chunk off left
        let copied := slice (s.block addr) (off % bsize) m
        let (rest, ip, s) ← readLoop fuel s ip (off + m) (left - m)
        return (copied ++ rest, ip, s)

def readi (devsw : Devsw) (s : State) (ip : Dinode) (off n : ℕ) :
    Except Panic (Reply (List UInt8) × Dinode × State) :=
  if ip.type = tDev then .ok (deviceReply devsw.read ip.major, ip, s)
  else if off > ip.size ∨ (off + n) % uintSize < off then .ok (.failed, ip, s)
  else do
    let n := if (off + n) % uintSize > ip.size then ip.size - off else n
    let (data, ip, s) ← readLoop n s ip off n
    return (.done data, ip, s)

/-- `memmove(bp->data + off%BSIZE, src, m)` and `log_write(bp)` -/
def copyIn (s : State) (addr off : ℕ) (src : List UInt8) : State :=
  s.logWrite addr (patch (s.block addr) (off % bsize) src)

/-- The loop of `writei`. -/
def writeLoop : ℕ → State → Dinode → ℕ → List UInt8 → Except Panic (Dinode × State)
  | 0, s, ip, _, _ => .ok (ip, s)
  | fuel + 1, s, ip, off, src =>
      if src = [] then .ok (ip, s)
      else do
        let (addr, ip, s) ← bmap s ip (off / bsize)
        let m := chunk off src.length
        writeLoop fuel (copyIn s addr off (src.take m)) ip (off + m) (src.drop m)

/-- The number of bytes written, the inode in memory and the state after the call. -/
def writei (devsw : Devsw) (s : State) (inum : ℕ) (ip : Dinode) (off : ℕ) (src : List UInt8) :
    Except Panic (Reply ℕ × Dinode × State) :=
  let n := src.length
  if ip.type = tDev then .ok (deviceReply devsw.write ip.major, ip, s)
  else if off > ip.size ∨ (off + n) % uintSize < off then .ok (.failed, ip, s)
  else if (off + n) % uintSize > maxFile * bsize then .ok (.failed, ip, s)
  else do
    let (ip, s) ← writeLoop n s ip off src
    if n > 0 ∧ off + n > ip.size then
      let ip := { ip with size := off + n }
      return (.done n, ip, iupdate s inum ip)
    else return (.done n, ip, s)

/-! ### Calls one after the other -/

/-- The disk and the inodes in memory that are valid. -/
structure Machine where
  fs : State
  core : ℕ → Option Dinode

/-- `ilock`, without the wait: it reads the inode unless that is done. -/
def ilock (m : Machine) (inum : ℕ) : Except Panic Dinode :=
  match m.core inum with
  | some ip => .ok ip
  | none =>
      let ip := dinode m.fs inum
      if ip.type = 0 then .error .noType else .ok ip

/-- The inode as a call leaves it in memory. -/
def Machine.put (m : Machine) (inum : ℕ) (ip : Dinode) (s : State) : Machine where
  fs := s
  core := Function.update m.core inum (some ip)

/-- The last `iput` of an inode: the file is freed if it is known to have no links. -/
def iput (m : Machine) (inum : ℕ) : Except Panic Machine := do
  let s ← match m.core inum with
    | some ip =>
        if ip.nlink = 0 then do
          let (ip, s) ← itrunc m.fs inum ip
          pure (iupdate s inum { ip with type := 0 })
        else pure m.fs
    | none => pure m.fs
  return { fs := s, core := Function.update m.core inum none }

/-- The calls. -/
inductive Label
  | ialloc (type : Int16)
  | readi (inum off n : ℕ)
  | writei (inum off : ℕ) (src : List UInt8)
  /-- `ilock`, new values of the fields, `iupdate`, as in `create`, `sys_link` and `sys_unlink` -/
  | iupdate (inum : ℕ) (major minor nlink : Int16)
  | iput (inum : ℕ)

/-- What a call returns. -/
inductive Result
  | inum (inum : ℕ)
  | read (reply : Reply (List UInt8))
  | written (reply : Reply ℕ)
  | nothing
  deriving DecidableEq

def perform (devsw : Devsw) (m : Machine) : Label → Except Panic (Result × Machine)
  | .ialloc type => do
      let (inum, s) ← ialloc m.fs type
      return (.inum inum, { m with fs := s })
  | .readi inum off n => do
      let ip ← ilock m inum
      let (reply, ip, s) ← readi devsw m.fs ip off n
      return (.read reply, m.put inum ip s)
  | .writei inum off src => do
      let ip ← ilock m inum
      let (reply, ip, s) ← writei devsw m.fs inum ip off src
      return (.written reply, m.put inum ip s)
  | .iupdate inum major minor nlink => do
      let ip ← ilock m inum
      let ip := { ip with major := major, minor := minor, nlink := nlink }
      return (.nothing, m.put inum ip (iupdate m.fs inum ip))
  | .iput inum => do
      let m ← iput m inum
      return (.nothing, m)

/-- **A call**; the writes before it are those of other calls. -/
def call (devsw : Devsw) (m : Machine) (label : Label) : Except Panic (Result × Machine) :=
  perform devsw { m with fs := { m.fs with writes := [] } } label

end Fs

end Xv6
