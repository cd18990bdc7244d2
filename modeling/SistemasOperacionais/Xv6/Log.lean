/-
**xv6 `log.c`: the write-ahead log as steps on the disk.**

The state is the disk, what `bread` returns for each block (`cache`: the buffer if there is one, the
disk otherwise), and the variables of `log.c`. Every step makes at most one disk write, so a crash
can come between any two writes; it leaves the disk and nothing else, and the machine boots.

* `beginOp`, `modify`, `endOp` — what a process does: `begin_op`; a change of a buffer followed by
  the tests of `log_write`, which are made without the lock; `end_op`. The locked part of
  `log_write` is a step of its own (`Place.logging`).
* `commitStep` — the process that closes the last operation runs `commit`: `write_log`,
  `write_head`, `install_trans`, and `write_head` with an empty header.
* `bootStep` — `recover_from_log`, called by `initlog`: the same `install_trans` after `read_head`.
* `next` — one step of anybody, or a crash.

`log.lh` is the list of its `n` block numbers: the entries of the array behind them are never read.
A block is its 4-byte words; `write_head` leaves the words behind the header as they are.
-/

import SistemasOperacionais.Runs.Reach
import Mathlib.Data.Finset.Basic
import Mathlib.Data.Fintype.Basic

namespace Xv6

/-- A disk block, by its words. -/
abbrev Block := ℕ → ℕ

namespace Log

/-- `MAXOPBLOCKS` -/
def maxOpBlocks : ℕ := 10

/-- `LOGSIZE` -/
def logSize : ℕ := maxOpBlocks * 3

/-- The fields of `struct superblock` that `initlog` reads. -/
structure Superblock where
  nlog : ℕ
  logstart : ℕ

/-- The superblock that `mkfs` writes: `nlog = LOGSIZE`, behind the boot block and the superblock. -/
def mkfsSuperblock : Superblock := ⟨logSize, 2⟩

/-- Where the process that runs `commit` is. -/
inductive Stage
  | writeLog (tail : ℕ)
  | writeHead
  | installTrans (tail : ℕ)
  /-- the second `write_head`, after `log.lh.n = 0` -/
  | eraseHead
  /-- back in `end_op`: `log.committing = 0` -/
  | finish
  deriving DecidableEq

/-- Where a process is. -/
inductive Place
  | outside
  | inside
  /-- in `log_write`, before `acquire(&log.lock)` -/
  | logging (blockno : ℕ)
  | commit (stage : Stage)
  deriving DecidableEq

/-- Where `recover_from_log` is. -/
inductive Boot
  | readHead
  | installTrans (tail : ℕ)
  | eraseHead
  deriving DecidableEq

inductive Panic
  /-- `"too big a transaction"` -/
  | tooBig
  /-- `"log_write outside of trans"` -/
  | outsideTrans
  /-- `"log.committing"` -/
  | committing
  deriving DecidableEq

variable {ι : Type} [DecidableEq ι]

/-- The machine. `mine` is not a variable of the code: it is the set of blocks that the open
operation of a process has logged. -/
structure State (ι : Type) where
  disk : ℕ → Block
  cache : ℕ → Block
  lh : List ℕ
  outstanding : ℕ
  committing : Bool
  boot : Option Boot
  panic : Option Panic
  place : ι → Place
  mine : ι → Finset ℕ

/-- `bwrite`: the buffer goes to the disk. -/
def State.bwrite (s : State ι) (blockno : ℕ) (data : Block) : State ι :=
  { s with
    disk := Function.update s.disk blockno data
    cache := Function.update s.cache blockno data }

def State.goto (s : State ι) (p : ι) (place : Place) : State ι :=
  { s with place := Function.update s.place p place }

/-! ### The header block -/

/-- The words of the header block after `write_head`. -/
def headBlock (lh : List ℕ) (old : Block) : Block
  | 0 => lh.length
  | i + 1 => lh.getD i (old (i + 1))

/-- The block numbers that `read_head` takes from the header block. -/
def readHead (block : Block) : List ℕ :=
  (List.range (block 0)).map fun i => block (i + 1)

/-! ### The loops -/

/-- One round of `write_log`. -/
def writeLogRound (sb : Superblock) (s : State ι) (tail blockno : ℕ) : State ι :=
  s.bwrite (sb.logstart + tail + 1) (s.cache blockno)

/-- One round of `install_trans`. -/
def installRound (sb : Superblock) (s : State ι) (tail blockno : ℕ) : State ι :=
  s.bwrite blockno (s.cache (sb.logstart + tail + 1))

def writeHead (sb : Superblock) (s : State ι) : State ι :=
  s.bwrite sb.logstart (headBlock s.lh (s.cache sb.logstart))

/-! ### The operations -/

/-- `begin_op`; it sleeps while a commit runs or the log may be exhausted. -/
def beginOp (s : State ι) (p : ι) : Option (State ι) :=
  if s.committing then none
  else if s.lh.length + (s.outstanding + 1) * maxOpBlocks > logSize then none
  else some ({ s with
    outstanding := s.outstanding + 1
    mine := Function.update s.mine p ∅ }.goto p .inside)

/-- A change of a buffer, and `log_write` up to the lock. The change waits while another process has
the buffer. -/
def modify [Fintype ι] (sb : Superblock) (s : State ι) (p : ι) (blockno : ℕ) (data : Block) :
    Option (State ι) :=
  if ∃ other, s.place other = .logging blockno then none
  else
    let changed := { s with cache := Function.update s.cache blockno data }
    if s.lh.length ≥ logSize ∨ s.lh.length ≥ sb.nlog - 1 then
      some { changed with panic := some .tooBig }
    else if s.outstanding < 1 then some { changed with panic := some .outsideTrans }
    else some (changed.goto p (.logging blockno))

/-- `log_write` with the lock held: an entry for the block, unless there is one. -/
def logWrite (s : State ι) (p : ι) (blockno : ℕ) : State ι :=
  { s with
    lh := if blockno ∈ s.lh then s.lh else s.lh ++ [blockno]
    mine := Function.update s.mine p (insert blockno (s.mine p)) }.goto p .inside

/-- `end_op`, up to the call of `commit`. -/
def endOp (s : State ι) (p : ι) : State ι :=
  if s.committing then
    { s with outstanding := s.outstanding - 1, panic := some .committing }
  else if s.outstanding - 1 = 0 then
    { s with outstanding := s.outstanding - 1, committing := true }.goto p
      (.commit (if s.lh.length > 0 then .writeLog 0 else .finish))
  else { s with outstanding := s.outstanding - 1 }.goto p .outside

/-- One step of `commit`, and the end of `end_op`. -/
def commitStep (sb : Superblock) (s : State ι) (p : ι) : Stage → State ι
  | .writeLog tail =>
      match s.lh[tail]? with
      | some blockno => (writeLogRound sb s tail blockno).goto p (.commit (.writeLog (tail + 1)))
      | none => s.goto p (.commit .writeHead)
  | .writeHead => (writeHead sb s).goto p (.commit (.installTrans 0))
  | .installTrans tail =>
      match s.lh[tail]? with
      | some blockno =>
          (installRound sb s tail blockno).goto p (.commit (.installTrans (tail + 1)))
      | none => { s with lh := [] }.goto p (.commit .eraseHead)
  | .eraseHead => (writeHead sb s).goto p (.commit .finish)
  | .finish => { s with committing := false }.goto p .outside

/-- One step of `recover_from_log`. -/
def bootStep (sb : Superblock) (s : State ι) : Boot → State ι
  | .readHead =>
      { s with lh := readHead (s.cache sb.logstart), boot := some (.installTrans 0) }
  | .installTrans tail =>
      match s.lh[tail]? with
      | some blockno =>
          { installRound sb s tail blockno with boot := some (.installTrans (tail + 1)) }
      | none => { s with lh := [], boot := some .eraseHead }
  | .eraseHead => { writeHead sb s with boot := none }

/-- A machine that is switched on. -/
def start (disk : ℕ → Block) : State ι where
  disk := disk
  cache := disk
  lh := []
  outstanding := 0
  committing := false
  boot := some .readHead
  panic := none
  place := fun _ => .outside
  mine := fun _ => ∅

/-- A crash: only the disk is left. -/
def crash (s : State ι) : State ι := start s.disk

inductive Label (ι : Type)
  | beginOp (p : ι)
  | modify (p : ι) (blockno : ℕ) (data : Block)
  | endOp (p : ι)
  /-- the next step of a process that is inside `log_write` or `commit` -/
  | go (p : ι)
  | boot
  | crash

/-- The next step of a process inside `log_write` or `commit`. -/
def go (sb : Superblock) (s : State ι) (p : ι) : Place → Option (State ι)
  | .logging blockno => some (logWrite s p blockno)
  | .commit stage => some (commitStep sb s p stage)
  | _ => none

/-- **One step of the machine.** After a panic only a crash is left, and nobody runs before the boot
is over. -/
def next [Fintype ι] (sb : Superblock) (s : State ι) : Label ι → Option (State ι)
  | .crash => some (crash s)
  | .boot => if s.panic = none then s.boot.map (bootStep sb s) else none
  | .beginOp p =>
      if s.panic = none ∧ s.boot = none ∧ s.place p = .outside then beginOp s p else none
  | .modify p blockno data =>
      if s.panic = none ∧ s.boot = none ∧ s.place p = .inside then modify sb s p blockno data
      else none
  | .endOp p =>
      if s.panic = none ∧ s.boot = none ∧ s.place p = .inside then some (endOp s p) else none
  | .go p => if s.panic = none ∧ s.boot = none then go sb s p (s.place p) else none

end Log

end Xv6
