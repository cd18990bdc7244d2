/-
**xv6 `log.c`: operations are atomic and durable, whenever the machine crashes.**

`recovered sb disk` is what the blocks of the file system hold once `recover_from_log` has run on
`disk`: the copy in the log for a block that the header lists, the block itself otherwise.

* `AtStage` — what holds between two disk writes of `commit`; `AtBoot` — the same for recovery. The
  first `write_head` is the only write that changes `recovered`.
* `Match` — the relation to the atomic store `Durable.Store`: what survives a crash there is
  `recovered` here, and what the clients see is the cache.
* `simulates` — every step of the machine is a step of the store, or none, with the same event.
* `log_refines` — **every run, with crashes anywhere and in recovery too, is a run of the atomic
  store.** No operation survives in part.
* `nothing_lost` — **after the last `end_op` has returned, a crash loses nothing.**
* `boot_recovers` — recovery comes to its end and leaves `recovered`.

The hypotheses are about the sizes: every operation logs fewer than `MAXOPBLOCKS` blocks, and the
log has `LOGSIZE` blocks at least, as `mkfs` makes it. `Reservation` shows the first to be needed.
-/

import SistemasOperacionais.Runs.Refine
import SistemasOperacionais.Runs.Durable
import SistemasOperacionais.Xv6.Log
import Mathlib.Algebra.BigOperators.Group.Finset.Basic
import Mathlib.Algebra.Order.BigOperators.Group.Finset
import Mathlib.Data.List.Nodup

namespace Xv6

namespace Log

open Transition

set_option linter.unusedSectionVars false

variable {ι : Type} [DecidableEq ι]

/-! ### The header block -/

theorem readHead_headBlock (lh : List ℕ) (old : Block) : readHead (headBlock lh old) = lh := by
  refine List.ext_getElem (by simp [readHead, headBlock]) fun i _ inside => ?_
  simp [readHead, headBlock, inside]

theorem readHead_zero {block : Block} (zero : block 0 = 0) : readHead block = [] := by
  simp [readHead, zero]

/-! ### What recovery leaves -/

/-- The block is not in the log. -/
def Home (sb : Superblock) (blockno : ℕ) : Prop :=
  blockno < sb.logstart ∨ sb.logstart + sb.nlog ≤ blockno

/-- **What a block holds after `recover_from_log`.** -/
def recovered (sb : Superblock) (disk : ℕ → Block) (blockno : ℕ) : Block :=
  let lh := readHead (disk sb.logstart)
  if blockno ∈ lh then disk (sb.logstart + lh.idxOf blockno + 1) else disk blockno

/-- Entries that the log can hold. -/
structure Entries (sb : Superblock) (lh : List ℕ) : Prop where
  nodup : lh.Nodup
  home : ∀ blockno ∈ lh, Home sb blockno
  fits : lh.length < sb.nlog

theorem entries_nil {sb : Superblock} (large : logSize ≤ sb.nlog) : Entries sb [] :=
  ⟨List.nodup_nil, by simp, lt_of_lt_of_le (by decide) large⟩

section Disk

variable {sb : Superblock} {disk : ℕ → Block} {lh : List ℕ} {blockno tail : ℕ} {data : Block}

theorem recovered_of_empty (empty : readHead (disk sb.logstart) = []) :
    recovered sb disk = disk := by
  funext blockno
  simp [recovered, empty]

theorem recovered_of_entry (head : readHead (disk sb.logstart) = lh) (nodup : lh.Nodup)
    (entry : lh[tail]? = some blockno) : recovered sb disk blockno = disk (sb.logstart + tail + 1) := by
  obtain ⟨inside, rfl⟩ := List.getElem?_eq_some_iff.mp entry
  rw [recovered, head, if_pos (List.getElem_mem inside), nodup.idxOf_getElem]

theorem recovered_of_not_mem (head : readHead (disk sb.logstart) = lh) (absent : blockno ∉ lh) :
    recovered sb disk blockno = disk blockno := by
  rw [recovered, head, if_neg absent]

theorem Home.ne (home : Home sb blockno) {other : ℕ} (lower : sb.logstart ≤ other)
    (upper : other < sb.logstart + sb.nlog) : blockno ≠ other := by
  unfold Home at home
  omega

/-- A write into the log, behind the header, is not seen as long as the header is empty. -/
theorem recovered_writeLog (empty : readHead (disk sb.logstart) = []) (fits : tail + 1 < sb.nlog)
    (home : Home sb blockno) :
    readHead (Function.update disk (sb.logstart + tail + 1) data sb.logstart) = [] ∧
      recovered sb (Function.update disk (sb.logstart + tail + 1) data) blockno =
        recovered sb disk blockno := by
  have head : readHead (Function.update disk (sb.logstart + tail + 1) data sb.logstart) = [] := by
    rwa [Function.update_of_ne (by omega)]
  refine ⟨head, ?_⟩
  rw [recovered_of_empty head, recovered_of_empty empty,
    Function.update_of_ne (home.ne (by omega) (by omega))]

/-- **Installing an entry changes nothing of what recovery leaves**: it may stop anywhere, and run
again. -/
theorem recovered_install (head : readHead (disk sb.logstart) = lh) (entries : Entries sb lh)
    (entry : lh[tail]? = some blockno) {disk' : ℕ → Block}
    (installed : disk' = Function.update disk blockno (disk (sb.logstart + tail + 1))) :
    readHead (disk' sb.logstart) = lh ∧ recovered sb disk' = recovered sb disk := by
  subst installed
  have home := entries.home blockno (List.mem_of_getElem? entry)
  have kept : ∀ j < sb.nlog, Function.update disk blockno (disk (sb.logstart + tail + 1))
      (sb.logstart + j) = disk (sb.logstart + j) :=
    fun j inside => Function.update_of_ne (home.ne (by omega) (by omega)).symm ..
  have first : readHead (Function.update disk blockno (disk (sb.logstart + tail + 1))
      sb.logstart) = lh := by
    rw [← head]
    exact congrArg readHead (kept 0 (by have := entries.fits; omega))
  refine ⟨first, ?_⟩
  funext other
  by_cases member : other ∈ lh
  · obtain ⟨j, inside, rfl⟩ := List.getElem_of_mem member
    have there : lh[j]? = some lh[j] := List.getElem?_eq_getElem inside
    rw [recovered_of_entry first entries.nodup there, recovered_of_entry head entries.nodup there]
    exact kept (j + 1) (by have := entries.fits; omega)
  · rw [recovered_of_not_mem first member, recovered_of_not_mem head member]
    refine Function.update_of_ne (fun same => member ?_) ..
    exact same ▸ List.mem_of_getElem? entry

/-- **Writing the header makes all entries take effect.** -/
theorem recovered_head (entries : Entries sb lh) {cache : ℕ → Block} {old : Block}
    (copied : ∀ (j blockno : ℕ), lh[j]? = some blockno →
      disk (sb.logstart + j + 1) = cache blockno)
    (others : ∀ blockno ∉ lh, cache blockno = disk blockno) (home : Home sb blockno) :
    recovered sb (Function.update disk sb.logstart (headBlock lh old)) blockno = cache blockno := by
  have head : readHead (Function.update disk sb.logstart (headBlock lh old) sb.logstart) = lh := by
    rw [Function.update_self, readHead_headBlock]
  have positive : 0 < sb.nlog := lt_of_le_of_lt (Nat.zero_le _) entries.fits
  by_cases member : blockno ∈ lh
  · obtain ⟨j, inside, rfl⟩ := List.getElem_of_mem member
    have there : lh[j]? = some lh[j] := List.getElem?_eq_getElem inside
    rw [recovered_of_entry head entries.nodup there, Function.update_of_ne (by omega)]
    exact copied j _ there
  · rw [recovered_of_not_mem head member, Function.update_of_ne (home.ne le_rfl (by omega)),
      others blockno member]

end Disk

/-! ### The relation to the atomic store -/

/-- The blocks that the operations write. -/
abbrev Store (ι : Type) := Durable.Store ι ℕ Block

/-- A process has an operation open. -/
def Place.opened : Place → Bool
  | .inside | .logging _ => true
  | _ => false

/-- **The clients of the store are the processes with an open operation**; no process is in
`commit`. -/
structure Clients (place : ι → Place) (active : Finset ι) : Prop where
  outside : ∀ p, (place p).opened = false → place p = .outside
  active : ∀ p, p ∈ active ↔ (place p).opened = true

/-- A process that stays in its operation. -/
theorem Clients.stay {place : ι → Place} {active : Finset ι} (clients : Clients place active) {p : ι}
    (member : p ∈ active) {stays : Place} (opened : stays.opened = true) :
    Clients (Function.update place p stays) active := by
  constructor
  · intro q closed
    by_cases same : q = p
    · subst same
      simp [opened] at closed
    · rw [Function.update_of_ne same] at closed ⊢
      exact clients.outside q closed
  · intro q
    by_cases same : q = p
    · subst same
      simp [opened, member]
    · rw [Function.update_of_ne same]
      exact clients.active q

/-- A process that opens an operation. -/
theorem Clients.enter {place : ι → Place} {active : Finset ι} (clients : Clients place active)
    (p : ι) : Clients (Function.update place p .inside) (insert p active) := by
  constructor
  · intro q closed
    by_cases same : q = p
    · subst same
      simp [Place.opened] at closed
    · rw [Function.update_of_ne same] at closed ⊢
      exact clients.outside q closed
  · intro q
    by_cases same : q = p
    · subst same
      simp [Place.opened]
    · simp [same, clients.active q]

/-- A process that closes its operation. -/
theorem Clients.leave {place : ι → Place} {active : Finset ι} (clients : Clients place active)
    (p : ι) : Clients (Function.update place p .outside) (active.erase p) := by
  constructor
  · intro q closed
    by_cases same : q = p
    · subst same
      simp
    · rw [Function.update_of_ne same] at closed ⊢
      exact clients.outside q closed
  · intro q
    by_cases same : q = p
    · subst same
      simp [Place.opened]
    · simp [same, clients.active q]

/-- The entries that a group of operations can make. -/
def limit (quota : ℕ) : ℕ := max quota (logSize - 2 * (maxOpBlocks - quota))

/-- **What holds while no commit and no recovery runs.** -/
structure Running (sb : Superblock) (quota : ℕ) (s : State ι) (store : Store ι) : Prop where
  boot : s.boot = none
  committing : s.committing = false
  clients : Clients s.place store.active
  outstanding : s.outstanding = store.active.card
  current : ∀ blockno, Home sb blockno → store.current blockno = s.cache blockno
  empty : readHead (s.disk sb.logstart) = []
  /-- a buffer differs from the disk only if it is logged, or about to be -/
  clean : ∀ blockno, blockno ∈ s.lh ∨ (∃ p, s.place p = .logging blockno) ∨
    s.cache blockno = s.disk blockno
  nodup : s.lh.Nodup
  home : ∀ blockno ∈ s.lh, Home sb blockno
  logging : ∀ p blockno, s.place p = .logging blockno →
    Home sb blockno ∧ (insert blockno (s.mine p)).card ≤ quota
  mine : ∀ p ∈ store.active, ∀ blockno ∈ s.mine p, blockno ∈ s.lh
  room : s.lh.length + ∑ p ∈ store.active, (quota - (s.mine p).card) ≤ limit quota
  idle : store.active = ∅ → s.lh = []

/-- What holds between two steps of `commit`. -/
def AtStage (sb : Superblock) (s : State ι) : Stage → Prop
  | .writeLog tail => readHead (s.disk sb.logstart) = [] ∧ Entries sb s.lh ∧
      (∀ blockno ∉ s.lh, s.cache blockno = s.disk blockno) ∧
      ∀ (j blockno : ℕ), j < tail → s.lh[j]? = some blockno →
        s.disk (sb.logstart + j + 1) = s.cache blockno
  | .writeHead => readHead (s.disk sb.logstart) = [] ∧ Entries sb s.lh ∧
      (∀ blockno ∉ s.lh, s.cache blockno = s.disk blockno) ∧
      ∀ (j blockno : ℕ), s.lh[j]? = some blockno →
        s.disk (sb.logstart + j + 1) = s.cache blockno
  | .installTrans tail => readHead (s.disk sb.logstart) = s.lh ∧ Entries sb s.lh ∧
      (∀ blockno ∉ s.lh, s.cache blockno = s.disk blockno) ∧
      (∀ (j blockno : ℕ), s.lh[j]? = some blockno →
        s.disk (sb.logstart + j + 1) = s.cache blockno) ∧
      ∀ (j blockno : ℕ), j < tail → s.lh[j]? = some blockno → s.disk blockno = s.cache blockno
  | .eraseHead => s.lh = [] ∧ s.cache = s.disk ∧
      ∀ blockno, Home sb blockno → recovered sb s.disk blockno = s.disk blockno
  | .finish => s.lh = [] ∧ s.cache = s.disk ∧ readHead (s.disk sb.logstart) = []

/-- **What holds while a process runs `commit`**: it is alone. -/
structure Committing (sb : Superblock) (s : State ι) (store : Store ι) (p : ι) (stage : Stage) :
    Prop where
  boot : s.boot = none
  committing : s.committing = true
  place : s.place = Function.update (fun _ => .outside) p (.commit stage)
  active : store.active = ∅
  outstanding : s.outstanding = 0
  current : ∀ blockno, Home sb blockno → store.current blockno = s.cache blockno
  stage : AtStage sb s stage

/-- What holds between two steps of `recover_from_log`. -/
def AtBoot (sb : Superblock) (s : State ι) : Boot → Prop
  | .readHead => True
  | .installTrans tail => s.lh = readHead (s.disk sb.logstart) ∧
      ∀ (j blockno : ℕ), j < tail → s.lh[j]? = some blockno →
        s.disk blockno = s.disk (sb.logstart + j + 1)
  | .eraseHead => s.lh = [] ∧
      ∀ blockno, Home sb blockno → recovered sb s.disk blockno = s.disk blockno

/-- **What holds while the machine boots.** -/
structure Booting (sb : Superblock) (s : State ι) (store : Store ι) (point : Boot) : Prop where
  boot : s.boot = some point
  committing : s.committing = false
  place : s.place = fun _ => .outside
  active : store.active = ∅
  outstanding : s.outstanding = 0
  current : store.current = store.durable
  cache : s.cache = s.disk
  stage : AtBoot sb s point

/-- **The machine and the atomic store.** -/
structure Match (sb : Superblock) (quota : ℕ) (s : State ι) (store : Store ι) : Prop where
  panic : s.panic = none
  entries : Entries sb (readHead (s.disk sb.logstart))
  durable : ∀ blockno, Home sb blockno → store.durable blockno = recovered sb s.disk blockno
  mode : Running sb quota s store ∨ (∃ p stage, Committing sb s store p stage) ∨
    ∃ point, Booting sb s store point

/-- The events of the machine's steps. -/
def seen (_ : State ι) : Label ι → Option (Durable.Event ι ℕ Block)
  | .beginOp p => some (.opens p)
  | .modify p blockno data => some (.writes p blockno data)
  | .endOp p => some (.closes p)
  | .crash => some .crash
  | .go _ | .boot => none

/-- **The contract of `log_write`**: an operation changes blocks of the file system, at most `quota`
of them. -/
def Within (sb : Superblock) (quota : ℕ) (s : State ι) : Label ι → Prop
  | .modify p blockno _ => Home sb blockno ∧ (insert blockno (s.mine p)).card ≤ quota
  | _ => True

instance (sb : Superblock) (blockno : ℕ) : Decidable (Home sb blockno) :=
  inferInstanceAs (Decidable (_ ∨ _))

instance (sb : Superblock) (quota : ℕ) (s : State ι) : DecidablePred (Within sb quota s)
  | .modify p blockno _ =>
      inferInstanceAs (Decidable (Home sb blockno ∧ (insert blockno (s.mine p)).card ≤ quota))
  | .beginOp _ | .endOp _ | .go _ | .boot | .crash => inferInstanceAs (Decidable True)

section Steps

variable {sb : Superblock} {quota : ℕ} {s : State ι} {store : Store ι}

/-! ### A crash -/

theorem Match.crash (related : Match sb quota s store) :
    Match sb quota (crash s) { store with current := store.durable, active := ∅ } where
  panic := rfl
  entries := related.entries
  durable := related.durable
  mode := .inr (.inr ⟨.readHead, rfl, rfl, rfl, rfl, rfl, rfl, rfl, trivial⟩)

/-! ### Operations -/

theorem Running.not_mem (running : Running sb quota s store) {p : ι} (out : s.place p = .outside) :
    p ∉ store.active := by
  rw [running.clients.active p, out]
  decide

theorem Running.mem (running : Running sb quota s store) {p : ι} (inside : s.place p = .inside) :
    p ∈ store.active := by
  rw [running.clients.active p, inside]
  rfl

/-- The rooms that the open operations have left. -/
theorem sum_room_le (quota : ℕ) (active : Finset ι) (used : ι → ℕ) :
    ∑ p ∈ active, (quota - used p) ≤ active.card * quota := by
  rw [← Nat.nsmul_eq_mul]
  exact Finset.sum_le_card_nsmul active _ quota fun p _ => Nat.sub_le ..

/-- What one operation logs comes out of its own room. -/
theorem sum_room_update (quota : ℕ) {active : Finset ι} {p : ι} (member : p ∈ active) (mine : ι → Finset ℕ)
    (more : Finset ℕ) :
    ∑ q ∈ active, (quota - (Function.update mine p more q).card) + (quota - (mine p).card) =
      ∑ q ∈ active, (quota - (mine q).card) + (quota - more.card) := by
  have others : ∑ q ∈ active.erase p, (quota - (Function.update mine p more q).card) =
      ∑ q ∈ active.erase p, (quota - (mine q).card) :=
    Finset.sum_congr rfl fun q there => by
      rw [Function.update_of_ne (Finset.ne_of_mem_erase there)]
  rw [← Finset.add_sum_erase _ _ member, ← Finset.add_sum_erase _ (fun q => quota - (mine q).card)
    member, others, Function.update_self]
  omega

theorem Running.beginOp (running : Running sb quota s store) (small : quota < maxOpBlocks) {p : ι}
    (out : s.place p = .outside) {after : State ι} (begun : Log.beginOp s p = some after) :
    after.disk = s.disk ∧ after.panic = s.panic ∧
      Running sb quota after { store with active := insert p store.active } := by
  have absent := running.not_mem out
  unfold Log.beginOp at begun
  rw [if_neg (by simp [running.committing])] at begun
  split at begun
  · cases begun
  rename_i fits
  cases begun
  have others : ∀ q ∈ store.active, q ≠ p := fun q member same => absent (same ▸ member)
  refine ⟨rfl, rfl, running.boot, running.committing, running.clients.enter p, ?_,
    running.current, running.empty, ?_, running.nodup, running.home, ?_, ?_, ?_, ?_⟩
  · show s.outstanding + 1 = (insert p store.active).card
    rw [Finset.card_insert_of_notMem absent, running.outstanding]
  · intro blockno
    rcases running.clean blockno with logged | ⟨q, logging⟩ | clean
    · exact .inl logged
    · refine .inr (.inl ⟨q, ?_⟩)
      have different : q ≠ p := fun same => by simp [same, out] at logging
      simpa [State.goto, different] using logging
    · exact .inr (.inr clean)
  · intro q blockno logging
    have different : q ≠ p := fun same => by simp [State.goto, same] at logging
    simp only [State.goto, Function.update_of_ne different] at logging ⊢
    exact running.logging q blockno logging
  · intro q member blockno mine
    rcases Finset.mem_insert.mp member with rfl | member
    · simp [State.goto] at mine
    · simp only [State.goto, Function.update_of_ne (others q member)] at mine
      exact running.mine q member blockno mine
  · show s.lh.length + ∑ q ∈ insert p store.active,
      (quota - (Function.update s.mine p ∅ q).card) ≤ limit quota
    have rest := sum_room_le quota store.active fun q =>
      (Function.update s.mine p ∅ q).card
    have few := running.outstanding
    rw [Finset.sum_insert absent, Function.update_self, Finset.card_empty]
    unfold limit
    unfold logSize maxOpBlocks at *
    rcases Finset.eq_empty_or_nonempty store.active with none | some
    · rw [running.idle none, none, Finset.sum_empty, List.length_nil]
      omega
    · have positive := some.card_pos
      have cases : store.active.card = 1 ∨ store.active.card = 2 := by omega
      rcases cases with one | two
      · rw [one] at rest few
        omega
      · rw [two] at rest few
        omega
  · intro none
    simp at none

/-- **The log has room for an operation that keeps its contract**: the tests of `log_write` pass. -/
theorem Running.fits (running : Running sb quota s store) (small : quota < maxOpBlocks)
    (large : logSize ≤ sb.nlog) : s.lh.length < logSize ∧ s.lh.length < sb.nlog - 1 := by
  have room := running.room
  unfold limit at room
  unfold logSize maxOpBlocks at *
  omega

theorem Running.modify [Fintype ι] (running : Running sb quota s store)
    (small : quota < maxOpBlocks) (large : logSize ≤ sb.nlog) {p : ι} (inside : s.place p = .inside)
    {blockno : ℕ} {data : Block} (home : Home sb blockno)
    (quotaLeft : (insert blockno (s.mine p)).card ≤ quota) {after : State ι}
    (modified : modify sb s p blockno data = some after) :
    after.disk = s.disk ∧ after.panic = s.panic ∧
      Running sb quota after
        { store with current := Function.update store.current blockno data } := by
  obtain ⟨short, shorter⟩ := running.fits small large
  have member := running.mem inside
  have positive : 1 ≤ s.outstanding := by
    rw [running.outstanding]
    exact Finset.card_pos.mpr ⟨p, member⟩
  unfold Log.modify at modified
  split at modified
  · cases modified
  rw [if_neg (by omega), if_neg (by omega)] at modified
  cases modified
  refine ⟨rfl, rfl, running.boot, running.committing, running.clients.stay member rfl,
    running.outstanding, ?_, running.empty, ?_, running.nodup, running.home, ?_, running.mine,
    running.room, running.idle⟩
  · intro other there
    by_cases same : other = blockno
    · simp [State.goto, same]
    · simp [State.goto, same, running.current other there]
  · intro other
    by_cases same : other = blockno
    · exact .inr (.inl ⟨p, by simp [State.goto, same]⟩)
    rcases running.clean other with logged | ⟨q, logging⟩ | clean
    · exact .inl logged
    · refine .inr (.inl ⟨q, ?_⟩)
      have different : q ≠ p := fun equal => by simp [equal, inside] at logging
      simpa [State.goto, different] using logging
    · exact .inr (.inr (by simpa [State.goto, same] using clean))
  · intro q other logging
    by_cases same : q = p
    · subst same
      obtain rfl : blockno = other := by simpa [State.goto] using logging
      exact ⟨home, quotaLeft⟩
    · simp only [State.goto, Function.update_of_ne same] at logging
      exact running.logging q other logging

/-- The locked part of `log_write`. -/
theorem Running.logWrite (running : Running sb quota s store) {p : ι} {blockno : ℕ}
    (logging : s.place p = .logging blockno) : Running sb quota (logWrite s p blockno) store := by
  obtain ⟨home, quotaLeft⟩ := running.logging p blockno logging
  have member : p ∈ store.active := by
    rw [running.clients.active p, logging]
    rfl
  have kept : ∀ other ∈ s.lh, other ∈ (Log.logWrite s p blockno).lh := by
    intro other there
    show other ∈ if blockno ∈ s.lh then s.lh else s.lh ++ [blockno]
    split <;> simp [there]
  have logged : blockno ∈ (Log.logWrite s p blockno).lh := by
    show blockno ∈ if blockno ∈ s.lh then s.lh else s.lh ++ [blockno]
    split
    · assumption
    · simp
  have only : ∀ other ∈ (Log.logWrite s p blockno).lh, other ∈ s.lh ∨ other = blockno := by
    intro other there
    change other ∈ (if blockno ∈ s.lh then s.lh else s.lh ++ [blockno]) at there
    split at there
    · exact .inl there
    · simpa using there
  refine ⟨running.boot, running.committing, running.clients.stay member rfl, running.outstanding,
    running.current, running.empty, ?_, ?_, ?_, ?_, ?_, ?_, ?_⟩
  · intro other
    rcases running.clean other with there | ⟨q, loggingOther⟩ | clean
    · exact .inl (kept other there)
    · by_cases same : q = p
      · subst same
        obtain rfl : blockno = other := by simpa [logging] using loggingOther
        exact .inl logged
      · refine .inr (.inl ⟨q, ?_⟩)
        simpa [Log.logWrite, State.goto, same] using loggingOther
    · exact .inr (.inr clean)
  · show (if blockno ∈ s.lh then s.lh else s.lh ++ [blockno]).Nodup
    split
    · exact running.nodup
    · rename_i fresh
      exact List.nodup_append.mpr ⟨running.nodup, List.nodup_singleton _, by grind⟩
  · intro other there
    rcases only other there with there | rfl
    · exact running.home other there
    · exact home
  · intro q other loggingOther
    have different : q ≠ p := fun same => by
      simp [Log.logWrite, State.goto, same] at loggingOther
    simp only [Log.logWrite, State.goto, Function.update_of_ne different] at loggingOther ⊢
    exact running.logging q other loggingOther
  · intro q active other mine
    by_cases same : q = p
    · subst same
      simp only [Log.logWrite, State.goto, Function.update_self, Finset.mem_insert] at mine
      rcases mine with rfl | mine
      · exact logged
      · exact kept other (running.mine q active other mine)
    · simp only [Log.logWrite, State.goto, Function.update_of_ne same] at mine
      exact kept other (running.mine q active other mine)
  · show (if blockno ∈ s.lh then s.lh else s.lh ++ [blockno]).length + ∑ q ∈ store.active,
      (quota - (Function.update s.mine p (insert blockno (s.mine p)) q).card) ≤ limit quota
    have room := running.room
    have balance := sum_room_update quota member s.mine (insert blockno (s.mine p))
    split
    · have grows := Finset.card_le_card (Finset.subset_insert blockno (s.mine p))
      omega
    · rename_i fresh
      have notMine : blockno ∉ s.mine p := fun mine => fresh (running.mine p member blockno mine)
      rw [Finset.card_insert_of_notMem notMine] at balance quotaLeft
      rw [List.length_append, List.length_singleton]
      omega
  · intro none
    rw [none] at member
    cases member

theorem Running.endOp_kept (running : Running sb quota s store) (p : ι) :
    (Log.endOp s p).disk = s.disk ∧ (Log.endOp s p).panic = s.panic := by
  rw [Log.endOp, if_neg (by simp [running.committing])]
  split <;> exact ⟨rfl, rfl⟩

/-- `end_op` of an operation that is not the last one. -/
theorem Running.endOp (running : Running sb quota s store) {p : ι} (inside : s.place p = .inside)
    (others : store.active.erase p ≠ ∅) : Running sb quota (Log.endOp s p)
      { store with active := store.active.erase p } := by
  have member := running.mem inside
  have fewer := Finset.card_erase_of_mem member
  have left := Finset.card_pos.mpr (Finset.nonempty_iff_ne_empty.mpr others)
  have count : s.outstanding - 1 ≠ 0 := by
    rw [running.outstanding]
    omega
  have ended : Log.endOp s p = { s with outstanding := s.outstanding - 1 }.goto p .outside := by
    rw [Log.endOp, if_neg (by simp [running.committing]), if_neg count]
  rw [ended]
  refine ⟨running.boot, running.committing, running.clients.leave p, ?_, running.current,
    running.empty, ?_, running.nodup, running.home, ?_, ?_, ?_, fun none => absurd none others⟩
  · show s.outstanding - 1 = (store.active.erase p).card
    rw [fewer, running.outstanding]
  · intro blockno
    rcases running.clean blockno with logged | ⟨q, logging⟩ | clean
    · exact .inl logged
    · refine .inr (.inl ⟨q, ?_⟩)
      have different : q ≠ p := fun same => by simp [same, inside] at logging
      simpa [State.goto, different] using logging
    · exact .inr (.inr clean)
  · intro q blockno logging
    have different : q ≠ p := fun same => by simp [State.goto, same] at logging
    simp only [State.goto, Function.update_of_ne different] at logging
    exact running.logging q blockno logging
  · intro q there
    exact running.mine q (Finset.mem_of_mem_erase there)
  · have room := running.room
    rw [← Finset.add_sum_erase _ _ member] at room
    show s.lh.length + ∑ q ∈ store.active.erase p, (quota - (s.mine q).card) ≤ limit quota
    omega

/-- **The last `end_op`** starts the commit, alone. -/
theorem Running.lastEndOp (running : Running sb quota s store) (small : quota < maxOpBlocks)
    (large : logSize ≤ sb.nlog) {p : ι} (inside : s.place p = .inside)
    (last : store.active.erase p = ∅) : ∃ stage, Committing sb (Log.endOp s p)
      { store with active := store.active.erase p } p stage := by
  have member := running.mem inside
  have fewer := Finset.card_erase_of_mem member
  obtain ⟨-, short⟩ := running.fits small large
  have count : s.outstanding - 1 = 0 := by
    rw [running.outstanding, ← fewer, last, Finset.card_empty]
  have alone : ∀ q, q ≠ p → s.place q = .outside := by
    intro q different
    refine running.clients.outside q (Bool.eq_false_iff.mpr fun opened => ?_)
    have there := Finset.mem_erase.mpr ⟨different, (running.clients.active q).mpr opened⟩
    rw [last] at there
    cases there
  have same : ∀ blockno ∉ s.lh, s.cache blockno = s.disk blockno := by
    intro blockno absent
    rcases running.clean blockno with logged | ⟨q, logging⟩ | clean
    · exact absurd logged absent
    · by_cases equal : q = p
      · simp [equal, inside] at logging
      · simp [alone q equal] at logging
    · exact clean
  have places : ∀ place, Function.update s.place p place =
      Function.update (fun _ => Place.outside) p place := by
    intro place
    funext q
    by_cases equal : q = p
    · simp [equal]
    · simp [equal, alone q equal]
  have ended : Log.endOp s p = { s with outstanding := s.outstanding - 1, committing := true }.goto p
      (.commit (if s.lh.length > 0 then .writeLog 0 else .finish)) := by
    rw [Log.endOp, if_neg (by simp [running.committing]), if_pos count]
  rw [ended]
  refine ⟨_, running.boot, rfl, places _, last, count, running.current, ?_⟩
  split
  · exact ⟨running.empty, ⟨running.nodup, running.home, show s.lh.length < _ by omega⟩, same,
      fun j blockno early => absurd early (Nat.not_lt_zero j)⟩
  · rename_i nothing
    have none : s.lh = [] := List.length_eq_zero_iff.mp (by omega)
    refine ⟨none, funext fun blockno => same blockno ?_, running.empty⟩
    rw [none]
    exact List.not_mem_nil

/-! ### The commit -/

/-- What the other fields of the relation need of a step of `commit`. -/
structure Kept (sb : Superblock) (s after : State ι) (p : ι) (stage : Stage) : Prop where
  boot : after.boot = s.boot
  committing : after.committing = s.committing
  outstanding : after.outstanding = s.outstanding
  panic : after.panic = s.panic
  place : after.place = Function.update s.place p (.commit stage)
  cache : ∀ blockno, Home sb blockno → after.cache blockno = s.cache blockno
  stage : AtStage sb after stage
  entries : Entries sb (readHead (after.disk sb.logstart))

theorem Committing.step {p : ι} {stage stage' : Stage} (committing : Committing sb s store p stage)
    {after : State ι} (kept : Kept sb s after p stage') {durable : ℕ → Block} :
    Committing sb after { store with durable := durable } p stage' where
  boot := kept.boot.trans committing.boot
  committing := kept.committing.trans committing.committing
  place := by rw [kept.place, committing.place, Function.update_idem]
  active := committing.active
  outstanding := kept.outstanding.trans committing.outstanding
  current := fun blockno home => (committing.current blockno home).trans
    (kept.cache blockno home).symm
  stage := kept.stage

/-- One round of `write_log`. -/
theorem writeLog_kept {p : ι} {tail blockno : ℕ} (at_stage : AtStage sb s (.writeLog tail))
    (entry : s.lh[tail]? = some blockno) :
    Kept sb s ((writeLogRound sb s tail blockno).goto p (.commit (.writeLog (tail + 1)))) p
        (.writeLog (tail + 1)) ∧
      ∀ other, Home sb other →
        recovered sb (writeLogRound sb s tail blockno).disk other = recovered sb s.disk other := by
  obtain ⟨empty, entries, same, copied⟩ := at_stage
  have inside : tail < s.lh.length := (List.getElem?_eq_some_iff.mp entry).1
  have fits : tail + 1 < sb.nlog := lt_of_le_of_lt inside entries.fits
  have positive : 0 < sb.nlog := by omega
  -- the block written is in the log, behind the header
  have home : ∀ other, Home sb other → other ≠ sb.logstart + tail + 1 :=
    fun other there => there.ne (by omega) (by omega)
  have cache : ∀ other, Home sb other →
      (writeLogRound sb s tail blockno).cache other = s.cache other :=
    fun other there => Function.update_of_ne (home other there) ..
  have head : readHead ((writeLogRound sb s tail blockno).disk sb.logstart) = [] := by
    show readHead (Function.update s.disk _ _ sb.logstart) = []
    rwa [Function.update_of_ne (by omega)]
  refine ⟨⟨rfl, rfl, rfl, rfl, rfl, cache, ⟨head, entries, ?_, ?_⟩, ?_⟩, ?_⟩
  · intro other absent
    show Function.update s.cache _ _ other = Function.update s.disk _ _ other
    by_cases equal : other = sb.logstart + tail + 1
    · rw [equal, Function.update_self, Function.update_self]
    · rw [Function.update_of_ne equal, Function.update_of_ne equal]
      exact same other absent
  · intro j other early there
    have member := entries.home other (List.mem_of_getElem? there)
    show Function.update s.disk (sb.logstart + tail + 1) (s.cache blockno) (sb.logstart + j + 1) =
      (writeLogRound sb s tail blockno).cache other
    rw [cache other member]
    by_cases equal : j = tail
    · subst equal
      rw [Function.update_self, Option.some.inj (entry.symm.trans there)]
    · rw [Function.update_of_ne (by omega)]
      exact copied j other (by omega) there
  · show Entries sb (readHead ((writeLogRound sb s tail blockno).disk sb.logstart))
    rw [head]
    exact ⟨List.nodup_nil, by simp, positive⟩
  · intro other there
    exact (recovered_writeLog empty fits there).2

/-- The end of `write_log`. -/
theorem writeLog_end {p : ι} {tail : ℕ} (at_stage : AtStage sb s (.writeLog tail))
    (past : s.lh[tail]? = none) : Kept sb s (s.goto p (.commit .writeHead)) p .writeHead := by
  obtain ⟨empty, entries, same, copied⟩ := at_stage
  refine ⟨rfl, rfl, rfl, rfl, rfl, fun _ _ => rfl, ⟨empty, entries, same, ?_⟩, ?_⟩
  · intro j other there
    have inside : j < s.lh.length := (List.getElem?_eq_some_iff.mp there).1
    have beyond := List.getElem?_eq_none_iff.mp past
    exact copied j other (by omega) there
  · show Entries sb (readHead (s.disk sb.logstart))
    rw [empty]
    exact ⟨List.nodup_nil, by simp, lt_of_le_of_lt (Nat.zero_le _) entries.fits⟩

/-- The header block is in the log. -/
theorem writeHead_home (positive : 0 < sb.nlog) {other : ℕ} (there : Home sb other) :
    (writeHead sb s).disk other = s.disk other ∧ (writeHead sb s).cache other = s.cache other :=
  ⟨Function.update_of_ne (there.ne le_rfl (by omega)) ..,
    Function.update_of_ne (there.ne le_rfl (by omega)) ..⟩

theorem readHead_writeHead : readHead ((writeHead sb s).disk sb.logstart) = s.lh := by
  show readHead (Function.update s.disk sb.logstart _ sb.logstart) = s.lh
  rw [Function.update_self, readHead_headBlock]

/-- **The first `write_head`: the transaction commits.** -/
theorem writeHead_kept {p : ι} (at_stage : AtStage sb s .writeHead) :
    Kept sb s ((writeHead sb s).goto p (.commit (.installTrans 0))) p (.installTrans 0) ∧
      ∀ other, Home sb other → recovered sb (writeHead sb s).disk other = s.cache other := by
  obtain ⟨empty, entries, same, copied⟩ := at_stage
  have positive : 0 < sb.nlog := lt_of_le_of_lt (Nat.zero_le _) entries.fits
  refine ⟨⟨rfl, rfl, rfl, rfl, rfl, fun other there => (writeHead_home positive there).2,
    ⟨readHead_writeHead, entries, ?_, ?_, fun j other early => absurd early (Nat.not_lt_zero j)⟩,
    ?_⟩, ?_⟩
  · intro other absent
    show Function.update s.cache _ _ other = Function.update s.disk _ _ other
    by_cases equal : other = sb.logstart
    · rw [equal, Function.update_self, Function.update_self]
    · rw [Function.update_of_ne equal, Function.update_of_ne equal]
      exact same other absent
  · intro j other there
    have member := entries.home other (List.mem_of_getElem? there)
    show Function.update s.disk sb.logstart _ (sb.logstart + j + 1) = (writeHead sb s).cache other
    rw [Function.update_of_ne (by omega), (writeHead_home positive member).2]
    exact copied j other there
  · show Entries sb (readHead ((writeHead sb s).disk sb.logstart))
    rw [readHead_writeHead]
    exact entries
  · intro other there
    exact recovered_head entries copied same there

/-- One round of `install_trans` in `commit`. -/
theorem install_kept {p : ι} {tail blockno : ℕ} (at_stage : AtStage sb s (.installTrans tail))
    (entry : s.lh[tail]? = some blockno) :
    Kept sb s ((installRound sb s tail blockno).goto p (.commit (.installTrans (tail + 1)))) p
        (.installTrans (tail + 1)) ∧
      recovered sb (installRound sb s tail blockno).disk = recovered sb s.disk := by
  obtain ⟨head, entries, same, copied, installed⟩ := at_stage
  have inside : tail < s.lh.length := (List.getElem?_eq_some_iff.mp entry).1
  have fits : s.lh.length < sb.nlog := entries.fits
  have member := List.mem_of_getElem? entry
  have home := entries.home blockno member
  -- the log is clean, so the buffer of the log block is the log block
  have source : s.cache (sb.logstart + tail + 1) = s.disk (sb.logstart + tail + 1) := by
    refine same _ fun logged => ?_
    exact (entries.home _ logged).ne (by omega) (by omega) rfl
  have data : s.cache (sb.logstart + tail + 1) = s.cache blockno :=
    source.trans (copied tail blockno entry)
  have disk : (installRound sb s tail blockno).disk =
      Function.update s.disk blockno (s.disk (sb.logstart + tail + 1)) := by
    show Function.update s.disk blockno (s.cache _) = _
    rw [source]
  have cache : (installRound sb s tail blockno).cache = s.cache := by
    show Function.update s.cache blockno (s.cache (sb.logstart + tail + 1)) = s.cache
    rw [data, Function.update_eq_self]
  obtain ⟨head', recovers⟩ := recovered_install head entries entry disk
  refine ⟨⟨rfl, rfl, rfl, rfl, rfl, fun other _ => congrFun cache other, ⟨head', entries, ?_, ?_, ?_⟩,
    ?_⟩, recovers⟩
  · intro other absent
    show (installRound sb s tail blockno).cache other = Function.update s.disk blockno _ other
    have different : other ≠ blockno := fun equal => absent (equal ▸ member)
    rw [cache, Function.update_of_ne different]
    exact same other absent
  · intro j other there
    show Function.update s.disk blockno _ (sb.logstart + j + 1) =
      (installRound sb s tail blockno).cache other
    have early : j < s.lh.length := (List.getElem?_eq_some_iff.mp there).1
    rw [cache, Function.update_of_ne (home.ne (by omega) (by omega)).symm]
    exact copied j other there
  · intro j other early there
    show Function.update s.disk blockno (s.cache (sb.logstart + tail + 1)) other =
      (installRound sb s tail blockno).cache other
    rw [cache]
    by_cases equal : other = blockno
    · rw [equal, Function.update_self, data]
    · rw [Function.update_of_ne equal]
      refine installed j other ?_ there
      have different : j ≠ tail := fun same => equal (by
        subst same
        exact Option.some.inj (there.symm.trans entry))
      omega
  · show Entries sb (readHead ((installRound sb s tail blockno).disk sb.logstart))
    rw [head']
    exact entries

/-- The end of `install_trans` in `commit`. -/
theorem install_end {p : ι} {tail : ℕ} (at_stage : AtStage sb s (.installTrans tail))
    (past : s.lh[tail]? = none) :
    Kept sb s ({ s with lh := [] }.goto p (.commit .eraseHead)) p .eraseHead := by
  obtain ⟨head, entries, same, copied, installed⟩ := at_stage
  have clean : s.cache = s.disk := by
    funext other
    by_cases member : other ∈ s.lh
    · obtain ⟨j, inside, rfl⟩ := List.getElem_of_mem member
      have beyond := List.getElem?_eq_none_iff.mp past
      exact (installed j _ (by omega) (List.getElem?_eq_getElem inside)).symm
    · exact same other member
  refine ⟨rfl, rfl, rfl, rfl, rfl, fun _ _ => rfl, ⟨rfl, clean, ?_⟩, ?_⟩
  · intro other there
    show recovered sb s.disk other = s.disk other
    by_cases member : other ∈ s.lh
    · obtain ⟨j, inside, rfl⟩ := List.getElem_of_mem member
      have entry := List.getElem?_eq_getElem inside
      rw [recovered_of_entry head entries.nodup entry, copied j _ entry, clean]
    · exact recovered_of_not_mem head member
  · show Entries sb (readHead (s.disk sb.logstart))
    rw [head]
    exact entries

/-- The second `write_head`. -/
theorem eraseHead_kept {p : ι} (at_stage : AtStage sb s .eraseHead) (positive : 0 < sb.nlog) :
    Kept sb s ((writeHead sb s).goto p (.commit .finish)) p .finish ∧
      ∀ other, Home sb other →
        recovered sb (writeHead sb s).disk other = recovered sb s.disk other := by
  obtain ⟨none, clean, recovers⟩ := at_stage
  have head : readHead ((writeHead sb s).disk sb.logstart) = [] := readHead_writeHead.trans none
  refine ⟨⟨rfl, rfl, rfl, rfl, rfl, fun other there => (writeHead_home positive there).2,
    ⟨none, ?_, head⟩, ?_⟩, ?_⟩
  · show Function.update s.cache _ _ = Function.update s.disk _ _
    rw [clean]
  · show Entries sb (readHead ((writeHead sb s).disk sb.logstart))
    rw [head]
    exact ⟨List.nodup_nil, by simp, positive⟩
  · intro other there
    rw [recovered_of_empty head, recovers other there, (writeHead_home positive there).1]

/-- The relation after a step of `commit`; `durable` is what the store keeps. -/
theorem Match.commit (related : Match sb quota s store) {p : ι} {stage stage' : Stage}
    (committing : Committing sb s store p stage) {after : State ι}
    (kept : Kept sb s after p stage') {durable : ℕ → Block}
    (survives : ∀ other, Home sb other → durable other = recovered sb after.disk other) :
    Match sb quota after { store with durable := durable } where
  panic := kept.panic.trans related.panic
  entries := kept.entries
  durable := survives
  mode := .inr (.inl ⟨p, stage', committing.step kept⟩)

/-- The end of `end_op`. -/
theorem Match.finish (related : Match sb quota s store) {p : ι}
    (committing : Committing sb s store p .finish) :
    Match sb quota ({ s with committing := false }.goto p .outside) store := by
  obtain ⟨none, clean, empty⟩ := committing.stage
  have places : Function.update s.place p .outside = fun _ => Place.outside := by
    rw [committing.place, Function.update_idem]
    exact Function.update_eq_self p _
  refine ⟨related.panic, related.entries, related.durable, .inl ⟨committing.boot, rfl, ?_, ?_,
    committing.current, empty, fun blockno => .inr (.inr (congrFun clean blockno)), ?_, ?_, ?_, ?_,
    ?_, fun _ => none⟩⟩
  · rw [committing.active]
    constructor
    · intro q _
      exact congrFun places q
    · intro q
      show q ∈ (∅ : Finset ι) ↔ (Function.update s.place p .outside q).opened = true
      rw [places]
      simp [Place.opened]
  · rw [committing.active]
    exact committing.outstanding
  · show s.lh.Nodup
    rw [none]
    exact List.nodup_nil
  · show ∀ blockno ∈ s.lh, _
    rw [none]
    simp
  · intro q blockno logging
    have out := (congrFun places q).symm.trans logging
    cases out
  · rw [committing.active]
    simp
  · show s.lh.length + _ ≤ _
    rw [none, committing.active]
    exact Nat.zero_le _

/-- **A step of `commit`.** The store commits at the first `write_head`, and stays as it is at every
other step. -/
theorem Match.commitStep (related : Match sb quota s store) (positive : 0 < sb.nlog) {p : ι}
    {stage : Stage} (committing : Committing sb s store p stage) :
    ∃ moves store', execute Durable.next store moves = some store' ∧
      Match sb quota (commitStep sb s p stage) store' ∧ moves.filterMap Durable.shown = [] := by
  have held := committing.stage
  cases stage with
  | writeLog tail =>
    refine ⟨[], store, rfl, ?_, rfl⟩
    cases entry : s.lh[tail]? with
    | some blockno =>
      obtain ⟨kept, recovers⟩ := writeLog_kept (p := p) held entry
      simp only [Log.commitStep, entry]
      exact related.commit committing kept fun other there =>
        (related.durable other there).trans (recovers other there).symm
    | none =>
      simp only [Log.commitStep, entry]
      exact related.commit committing (writeLog_end held entry) related.durable
  | writeHead =>
    obtain ⟨kept, recovers⟩ := writeHead_kept (p := p) held
    refine ⟨[.commit], { store with durable := store.current }, ?_, ?_, rfl⟩
    · simp [execute, Durable.next, committing.active]
    · exact related.commit committing kept fun other there =>
        (committing.current other there).trans (recovers other there).symm
  | installTrans tail =>
    refine ⟨[], store, rfl, ?_, rfl⟩
    cases entry : s.lh[tail]? with
    | some blockno =>
      obtain ⟨kept, recovers⟩ := install_kept (p := p) held entry
      simp only [Log.commitStep, entry]
      exact related.commit committing kept fun other there =>
        (related.durable other there).trans (congrFun recovers other).symm
    | none =>
      simp only [Log.commitStep, entry]
      exact related.commit committing (install_end held entry) related.durable
  | eraseHead =>
    obtain ⟨kept, recovers⟩ := eraseHead_kept (p := p) held positive
    exact ⟨[], store, rfl, related.commit committing kept fun other there =>
      (related.durable other there).trans (recovers other there).symm, rfl⟩
  | finish => exact ⟨[], store, rfl, related.finish committing, rfl⟩

/-! ### Recovery -/

/-- **A step of `recover_from_log`**: the store stays as it is. -/
theorem Match.bootStep (related : Match sb quota s store) (positive : 0 < sb.nlog) {point : Boot}
    (booting : Booting sb s store point) : Match sb quota (bootStep sb s point) store := by
  have held := booting.stage
  cases point with
  | readHead =>
    refine ⟨related.panic, related.entries, related.durable, .inr (.inr ⟨.installTrans 0, rfl,
      booting.committing, booting.place, booting.active, booting.outstanding, booting.current,
      booting.cache, ?_, fun j other early => absurd early (Nat.not_lt_zero j)⟩)⟩
    show readHead (s.cache sb.logstart) = readHead (s.disk sb.logstart)
    rw [booting.cache]
  | installTrans tail =>
    obtain ⟨lh, installed⟩ := held
    have entries : Entries sb s.lh := lh ▸ related.entries
    cases entry : s.lh[tail]? with
    | some blockno =>
      have source : (installRound sb s tail blockno).disk =
          Function.update s.disk blockno (s.disk (sb.logstart + tail + 1)) := by
        show Function.update s.disk blockno (s.cache _) = _
        rw [booting.cache]
      have home := entries.home blockno (List.mem_of_getElem? entry)
      obtain ⟨head, recovers⟩ := recovered_install lh.symm entries entry source
      simp only [Log.bootStep, entry]
      refine ⟨related.panic, ?_, ?_, .inr (.inr ⟨.installTrans (tail + 1), rfl, booting.committing,
        booting.place, booting.active, booting.outstanding, booting.current, ?_, head.symm, ?_⟩)⟩
      · show Entries sb (readHead ((installRound sb s tail blockno).disk sb.logstart))
        rw [head]
        exact entries
      · intro other there
        exact (related.durable other there).trans (congrFun recovers other).symm
      · show Function.update s.cache _ _ = Function.update s.disk _ _
        rw [booting.cache]
      · intro j other early there
        show (installRound sb s tail blockno).disk other =
          (installRound sb s tail blockno).disk (sb.logstart + j + 1)
        have inside : j < s.lh.length := (List.getElem?_eq_some_iff.mp there).1
        have fits := entries.fits
        have logged : (installRound sb s tail blockno).disk (sb.logstart + j + 1) =
            s.disk (sb.logstart + j + 1) := by
          rw [source, Function.update_of_ne (home.ne (by omega) (by omega)).symm]
        rw [logged, source]
        by_cases equal : other = blockno
        · have same : j = tail :=
            (List.getElem?_inj inside entries.nodup).mp (there.trans (equal ▸ entry.symm))
          rw [equal, Function.update_self, same]
        · have different : j ≠ tail := by
            rintro rfl
            exact equal (Option.some.inj (there.symm.trans entry))
          rw [Function.update_of_ne equal]
          exact installed j other (by omega) there
    | none =>
      simp only [Log.bootStep, entry]
      refine ⟨related.panic, related.entries, related.durable, .inr (.inr ⟨.eraseHead, rfl,
        booting.committing, booting.place, booting.active, booting.outstanding, booting.current,
        booting.cache, rfl, ?_⟩)⟩
      intro other _
      show recovered sb s.disk other = s.disk other
      by_cases member : other ∈ s.lh
      · obtain ⟨j, inside, rfl⟩ := List.getElem_of_mem member
        have beyond := List.getElem?_eq_none_iff.mp entry
        have there := List.getElem?_eq_getElem inside
        rw [recovered_of_entry lh.symm entries.nodup there, installed j _ (by omega) there]
      · exact recovered_of_not_mem lh.symm member
  | eraseHead =>
    obtain ⟨none, recovers⟩ := held
    have head : readHead ((writeHead sb s).disk sb.logstart) = [] := readHead_writeHead.trans none
    have survives : ∀ other, Home sb other →
        store.durable other = recovered sb (writeHead sb s).disk other := by
      intro other there
      rw [recovered_of_empty head, (writeHead_home positive there).1, ← recovers other there]
      exact related.durable other there
    refine ⟨related.panic, ?_, survives, .inl ⟨rfl, booting.committing, ?_, ?_, ?_, head, ?_, ?_, ?_,
      ?_, ?_, ?_, fun _ => none⟩⟩
    · show Entries sb (readHead ((writeHead sb s).disk sb.logstart))
      rw [head]
      exact ⟨List.nodup_nil, by simp, positive⟩
    · rw [booting.active]
      show Clients s.place ∅
      rw [booting.place]
      exact ⟨fun _ _ => rfl, fun _ => by simp [Place.opened]⟩
    · rw [booting.active]
      exact booting.outstanding
    · intro other there
      rw [booting.current, survives other there, recovered_of_empty head]
      show Function.update s.disk _ _ other = Function.update s.cache _ _ other
      rw [booting.cache]
    · refine fun other => .inr (.inr ?_)
      show Function.update s.cache _ _ other = Function.update s.disk _ _ other
      rw [booting.cache]
    · show s.lh.Nodup
      rw [none]
      exact List.nodup_nil
    · show ∀ other ∈ s.lh, _
      rw [none]
      simp
    · intro q other logging
      have out := (congrFun booting.place q).symm.trans logging
      cases out
    · rw [booting.active]
      simp
    · show s.lh.length + _ ≤ _
      rw [none, booting.active]
      exact Nat.zero_le _

/-! ### Runs -/

/-- A process with an open operation: no commit and no recovery runs. -/
theorem Match.running (related : Match sb quota s store) (booted : s.boot = none) {p : ι}
    (opened : (s.place p).opened = true) : Running sb quota s store := by
  rcases related.mode with running | ⟨q, stage, committing⟩ | ⟨point, booting⟩
  · exact running
  · rw [committing.place] at opened
    by_cases same : p = q
    · simp [same, Place.opened] at opened
    · simp [same, Place.opened] at opened
  · simp [booting.boot] at booted

/-- A process in `commit`. -/
theorem Match.committing (related : Match sb quota s store) (booted : s.boot = none) {p : ι}
    {stage : Stage} (place : s.place p = .commit stage) : Committing sb s store p stage := by
  rcases related.mode with running | ⟨q, stage', committing⟩ | ⟨point, booting⟩
  · have out := running.clients.outside p (by rw [place]; rfl)
    simp [place] at out
  · by_cases same : p = q
    · subst same
      obtain rfl : stage' = stage := by simpa [committing.place] using place
      exact committing
    · simp [committing.place, same] at place
  · simp [booting.boot] at booted

/-- A machine that boots. -/
theorem Match.booting (related : Match sb quota s store) {point : Boot}
    (boots : s.boot = some point) : Booting sb s store point := by
  rcases related.mode with running | ⟨q, stage, committing⟩ | ⟨point', booting⟩
  · simp [running.boot] at boots
  · simp [committing.boot] at boots
  · obtain rfl : point' = point := Option.some.inj (booting.boot.symm.trans boots)
    exact booting

/-- **Nothing runs**: the disk is what the clients see, and recovery would leave it alone. -/
theorem Match.quiet (related : Match sb quota s store) (booted : s.boot = none)
    (committed : s.committing = false) (closed : s.outstanding = 0) :
    s.cache = s.disk ∧ recovered sb s.disk = s.disk := by
  rcases related.mode with running | ⟨q, stage, committing⟩ | ⟨point, booting⟩
  · have none : store.active = ∅ := by
      rw [← Finset.card_eq_zero, ← running.outstanding, closed]
    refine ⟨funext fun blockno => ?_, recovered_of_empty running.empty⟩
    rcases running.clean blockno with logged | ⟨p, logging⟩ | clean
    · rw [running.idle none] at logged
      cases logged
    · have opened := (running.clients.active p).mpr (by rw [logging]; rfl)
      rw [none] at opened
      cases opened
    · exact clean
  · simp [committing.committing] at committed
  · simp [booting.boot] at booted

variable [Fintype ι]

/-- **Every step of the machine is a step of the atomic store, or none.** -/
theorem simulates (small : quota < maxOpBlocks) (large : logSize ≤ sb.nlog) :
    Simulates (next sb) (Within sb quota) seen Durable.next Durable.shown
      (fun (s : State ι) store => Match sb quota s store) := by
  have positive : 0 < sb.nlog := lt_of_lt_of_le (by decide) large
  intro s label after store related within moved
  cases label with
  | crash =>
    cases moved
    exact ⟨[.event .crash], _, rfl, related.crash, rfl⟩
  | boot =>
    simp only [next, related.panic, if_true] at moved
    obtain ⟨point, booting, rfl⟩ := Option.map_eq_some_iff.mp moved
    exact ⟨[], store, rfl, related.bootStep positive (related.booting booting), rfl⟩
  | beginOp p =>
    obtain ⟨⟨-, booted, out⟩, begun⟩ := Option.ite_none_right_eq_some.mp moved
    rcases related.mode with running | ⟨q, stage, committing⟩ | ⟨point, booting⟩
    · obtain ⟨disk, panic, running'⟩ := running.beginOp small out begun
      refine ⟨[.event (.opens p)], _, ?_, ⟨panic.trans related.panic, disk ▸ related.entries,
        disk ▸ related.durable, .inl running'⟩, rfl⟩
      simp [execute, Durable.next, running.not_mem out]
    · simp [beginOp, committing.committing] at begun
    · simp [booting.boot] at booted
  | modify p blockno data =>
    obtain ⟨⟨-, booted, inside⟩, modified⟩ := Option.ite_none_right_eq_some.mp moved
    have running := related.running booted (p := p) (by rw [inside]; rfl)
    obtain ⟨disk, panic, running'⟩ :=
      running.modify small large inside within.1 within.2 modified
    refine ⟨[.event (.writes p blockno data)], _, ?_, ⟨panic.trans related.panic, disk ▸ related.entries,
      disk ▸ related.durable, .inl running'⟩, rfl⟩
    simp [execute, Durable.next, running.mem inside]
  | endOp p =>
    obtain ⟨⟨-, booted, inside⟩, ended⟩ := Option.ite_none_right_eq_some.mp moved
    cases ended
    have running := related.running booted (p := p) (by rw [inside]; rfl)
    refine ⟨[.event (.closes p)], { store with active := store.active.erase p }, ?_, ?_, rfl⟩
    · simp [execute, Durable.next, running.mem inside]
    · obtain ⟨disk, panic⟩ := running.endOp_kept p
      refine ⟨panic.trans related.panic, disk ▸ related.entries, disk ▸ related.durable, ?_⟩
      by_cases last : store.active.erase p = ∅
      · exact .inr (.inl ⟨p, running.lastEndOp small large inside last⟩)
      · exact .inl (running.endOp inside last)
  | go p =>
    obtain ⟨⟨-, booted⟩, went⟩ := Option.ite_none_right_eq_some.mp moved
    cases place : s.place p with
    | outside => simp [place, go] at went
    | inside => simp [place, go] at went
    | logging blockno =>
      rw [place] at went
      cases went
      have running := related.running booted (p := p) (by rw [place]; rfl)
      exact ⟨[], store, rfl, ⟨related.panic, related.entries, related.durable,
        .inl (running.logWrite place)⟩, rfl⟩
    | commit stage =>
      rw [place] at went
      cases went
      exact related.commitStep positive (related.committing booted place)

/-- The machine that is switched on, with an empty log. -/
theorem match_start (large : logSize ≤ sb.nlog) {disk : ℕ → Block}
    (formatted : disk sb.logstart 0 = 0) :
    Match sb quota (start disk : State ι) ⟨disk, disk, ∅⟩ := by
  have empty := readHead_zero formatted
  refine ⟨rfl, ?_, fun other _ => (congrFun (recovered_of_empty empty) other).symm,
    .inr (.inr ⟨.readHead, rfl, rfl, rfl, rfl, rfl, rfl, rfl, trivial⟩)⟩
  show Entries sb (readHead (disk sb.logstart))
  rw [empty]
  exact entries_nil large

/-- The relation along a run. -/
theorem exists_match (small : quota < maxOpBlocks) (large : logSize ≤ sb.nlog)
    {disk : ℕ → Block} (formatted : disk sb.logstart 0 = 0) {state : State ι}
    (reach : Reach (next sb) (Within sb quota) (start disk) state) :
    ∃ store, Match sb quota state store :=
  (simulates small large).reach (match_start large formatted) reach

/-- A step of recovery. -/
theorem Match.boots (related : Match sb quota s store) (positive : 0 < sb.nlog) {point : Boot}
    (boots : s.boot = some point) : next sb s .boot = some (Log.bootStep sb s point) ∧
      Match sb quota (Log.bootStep sb s point) store :=
  ⟨by simp [next, related.panic, boots], related.bootStep positive (related.booting boots)⟩

/-- **Recovery ends**: from its `install_trans` on, after the rounds that are left and two more
steps. -/
theorem boots_from (positive : 0 < sb.nlog) {s : State ι} {tail : ℕ}
    (related : Match sb quota s store) (boots : s.boot = some (.installTrans tail)) :
    ∃ steps after, execute (next sb) s (List.replicate steps .boot) = some after ∧
      after.boot = none ∧ after.outstanding = 0 ∧ after.committing = false ∧
      Match sb quota after store := by
  have booting := related.booting boots
  obtain ⟨moved, related'⟩ := related.boots positive boots
  cases entry : s.lh[tail]? with
  | none =>
    have erases : (bootStep sb s (.installTrans tail)).boot = some .eraseHead := by
      simp [bootStep, entry]
    obtain ⟨erased, related''⟩ := related'.boots positive erases
    have booting' := related'.booting erases
    exact ⟨2, bootStep sb (bootStep sb s (.installTrans tail)) .eraseHead,
      by simp [execute, moved, erased], rfl, booting'.outstanding, booting'.committing, related''⟩
  | some blockno =>
    have boots' : (bootStep sb s (.installTrans tail)).boot = some (.installTrans (tail + 1)) := by
      simp [bootStep, entry]
    have same : (bootStep sb s (.installTrans tail)).lh = s.lh := by
      simp only [bootStep, entry]
      rfl
    have inside := (List.getElem?_eq_some_iff.mp entry).1
    obtain ⟨steps, after, ran, beyond⟩ := boots_from positive related' boots'
    refine ⟨steps + 1, after, ?_, beyond⟩
    simp [List.replicate_succ, execute, moved, ran]
termination_by s.lh.length - tail
decreasing_by
  rw [same]
  omega

/-- **A crash and the boot after it.** -/
theorem boots_after_crash (positive : 0 < sb.nlog) (related : Match sb quota s store) :
    ∃ steps after, execute (next sb) s (.crash :: List.replicate steps .boot) = some after ∧
      after.boot = none ∧ ∀ blockno, Home sb blockno →
        after.disk blockno = recovered sb s.disk blockno ∧
          after.cache blockno = recovered sb s.disk blockno := by
  have crashed := related.crash
  have reads : (crash s).boot = some .readHead := rfl
  obtain ⟨read, related'⟩ := crashed.boots positive reads
  have installs : (bootStep sb (crash s) .readHead).boot = some (.installTrans 0) := rfl
  obtain ⟨steps, after, ran, booted, closed, committed, related''⟩ :=
    boots_from positive related' installs
  refine ⟨steps + 1, after, ?_, booted, fun blockno home => ?_⟩
  · show execute (next sb) (crash s) (List.replicate (steps + 1) .boot) = some after
    simp [List.replicate_succ, execute, read, ran]
  · obtain ⟨clean, same⟩ := related''.quiet booted committed closed
    have survives := (related.durable blockno home).symm.trans (related''.durable blockno home)
    rw [same] at survives
    exact ⟨survives.symm, (congrFun clean blockno).trans survives.symm⟩

end Steps

section Results

variable [Fintype ι] {sb : Superblock} {quota : ℕ} {disk : ℕ → Block}

/-- **The log makes the operations of the file system atomic and durable.** A run of the machine,
with crashes at any of its steps, shows the events of a run of the atomic store; what survives there
is what recovery leaves here, and what the clients see is what `bread` returns. -/
theorem log_refines (small : quota < maxOpBlocks) (large : logSize ≤ sb.nlog)
    (formatted : disk sb.logstart 0 = 0) {events : List (Durable.Event ι ℕ Block)}
    {state : State ι} (trace : Trace (next sb) (Within sb quota) seen (start disk) events state) :
    ∃ moves store, execute Durable.next ⟨disk, disk, ∅⟩ moves = some store ∧
      moves.filterMap Durable.shown = events ∧
      (∀ blockno, Home sb blockno → store.durable blockno = recovered sb state.disk blockno) ∧
      (state.boot = none → ∀ blockno, Home sb blockno →
        store.current blockno = state.cache blockno) := by
  obtain ⟨moves, store, ran, related, events⟩ :=
    (simulates small large).trace (match_start large formatted) trace
  refine ⟨moves, store, ran, events, related.durable, fun booted => ?_⟩
  rcases related.mode with running | ⟨p, stage, committing⟩ | ⟨point, booting⟩
  · exact running.current
  · exact committing.current
  · simp [booting.boot] at booted

/-- A crash right after the first `write_head`: block 40 keeps the value that was written, though it
is not installed. -/
theorem log_refines_after_write_head : ∃ (events : List (Durable.Event (Fin 2) ℕ Block))
    (state : State (Fin 2)),
    Trace (next mkfsSuperblock) (Within mkfsSuperblock 9) seen (start fun _ _ => 0) events state ∧
      (state.disk 40 0 = 0 ∧ recovered mkfsSuperblock state.disk 40 0 = 7) ∧
      ∃ moves store, execute Durable.next ⟨fun _ _ => 0, fun _ _ => 0, ∅⟩ moves = some store ∧
        moves.filterMap Durable.shown = events ∧
        (∀ blockno, Home mkfsSuperblock blockno →
          store.durable blockno = recovered mkfsSuperblock state.disk blockno) ∧
        (state.boot = none → ∀ blockno, Home mkfsSuperblock blockno →
          store.current blockno = state.cache blockno) := by
  have run : ∃ (events : List (Durable.Event (Fin 2) ℕ Block)) (state : State (Fin 2)),
      Trace (next mkfsSuperblock) (Within mkfsSuperblock 9) seen (start fun _ _ => 0) events state ∧
      (state.disk 40 0 = 0 ∧ recovered mkfsSuperblock state.disk 40 0 = 7) :=
    exists_trace_of_execute [.boot, .boot, .boot, .beginOp 0, .modify 0 40 fun _ => 7, .go 0,
      .endOp 0, .go 0, .go 0, .go 0, .crash] _ (by decide +kernel)
  obtain ⟨events, state, trace, test⟩ := run
  exact ⟨events, state, trace, test, log_refines (by decide) (by decide) rfl trace⟩

/-- **Recovery comes to its end.** After a crash at any moment of a run the machine boots, and what
it then finds on the disk is `recovered`. -/
theorem boot_recovers (small : quota < maxOpBlocks) (large : logSize ≤ sb.nlog)
    (formatted : disk sb.logstart 0 = 0) {state : State ι}
    (reach : Reach (next sb) (Within sb quota) (start disk) state) :
    ∃ steps after, execute (next sb) state (.crash :: List.replicate steps .boot) = some after ∧
      after.boot = none ∧ ∀ blockno, Home sb blockno →
        after.disk blockno = recovered sb state.disk blockno ∧
          after.cache blockno = recovered sb state.disk blockno := by
  obtain ⟨store, related⟩ := exists_match small large formatted reach
  exact boots_after_crash (lt_of_lt_of_le (by decide) large) related

/-- The same moment: the boot installs the block. -/
theorem boot_recovers_after_write_head : ∃ state : State (Fin 2),
    Reach (next mkfsSuperblock) (Within mkfsSuperblock 9) (start fun _ _ => 0) state ∧
      (state.disk 40 0 = 0 ∧ recovered mkfsSuperblock state.disk 40 0 = 7) ∧
      ∃ steps after,
        execute (next mkfsSuperblock) state (.crash :: List.replicate steps .boot) = some after ∧
        after.boot = none ∧ ∀ blockno, Home mkfsSuperblock blockno →
          after.disk blockno = recovered mkfsSuperblock state.disk blockno ∧
            after.cache blockno = recovered mkfsSuperblock state.disk blockno := by
  have run : ∃ state : State (Fin 2), Reach (next mkfsSuperblock) (Within mkfsSuperblock 9)
      (start fun _ _ => 0) state ∧
      (state.disk 40 0 = 0 ∧ recovered mkfsSuperblock state.disk 40 0 = 7) :=
    exists_reach_of_execute [.boot, .boot, .boot, .beginOp 0, .modify 0 40 fun _ => 7, .go 0,
      .endOp 0, .go 0, .go 0, .go 0] _ (by decide +kernel)
  obtain ⟨state, reach, test⟩ := run
  exact ⟨state, reach, test, boot_recovers (by decide) (by decide) rfl reach⟩

/-- **What is committed is not lost.** Once the last `end_op` has returned, a crash and the boot
after it leave every block as the clients saw it. -/
theorem nothing_lost (small : quota < maxOpBlocks) (large : logSize ≤ sb.nlog)
    (formatted : disk sb.logstart 0 = 0) {state : State ι}
    (reach : Reach (next sb) (Within sb quota) (start disk) state) (booted : state.boot = none)
    (closed : state.outstanding = 0) (committed : state.committing = false) :
    ∃ steps after, execute (next sb) state (.crash :: List.replicate steps .boot) = some after ∧
      after.boot = none ∧ ∀ blockno, Home sb blockno →
        after.cache blockno = state.cache blockno := by
  obtain ⟨store, related⟩ := exists_match small large formatted reach
  obtain ⟨steps, after, ran, boots, same⟩ :=
    boots_after_crash (lt_of_lt_of_le (by decide) large) related
  obtain ⟨clean, stays⟩ := related.quiet booted committed closed
  refine ⟨steps, after, ran, boots, fun blockno home => ?_⟩
  rw [(same blockno home).2, stays, clean]

/-- Two operations of two processes, one inside the other, and the commit of both. -/
theorem nothing_lost_two_operations : ∃ state : State (Fin 2),
    Reach (next mkfsSuperblock) (Within mkfsSuperblock 9) (start fun _ _ => 0) state ∧
      (state.boot = none ∧ state.outstanding = 0 ∧ state.committing = false ∧
        state.cache 40 0 = 7 ∧ state.cache 50 0 = 8) ∧
      ∃ steps after,
        execute (next mkfsSuperblock) state (.crash :: List.replicate steps .boot) = some after ∧
        after.boot = none ∧ ∀ blockno, Home mkfsSuperblock blockno →
          after.cache blockno = state.cache blockno := by
  have run : ∃ state : State (Fin 2), Reach (next mkfsSuperblock) (Within mkfsSuperblock 9)
      (start fun _ _ => 0) state ∧ (state.boot = none ∧ state.outstanding = 0 ∧
        state.committing = false ∧ state.cache 40 0 = 7 ∧ state.cache 50 0 = 8) :=
    exists_reach_of_execute [.boot, .boot, .boot, .beginOp 0, .modify 0 40 fun _ => 7, .beginOp 1,
      .modify 1 50 fun _ => 8, .go 1, .endOp 1, .go 0, .endOp 0, .go 0, .go 0, .go 0, .go 0, .go 0,
      .go 0, .go 0, .go 0, .go 0] _ (by decide +kernel)
  obtain ⟨state, reach, test⟩ := run
  exact ⟨state, reach, test, nothing_lost (by decide) (by decide) rfl reach test.1 test.2.1
    test.2.2.1⟩

end Results

end Log

end Xv6
