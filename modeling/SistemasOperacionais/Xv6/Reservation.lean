/-
**xv6 `log.c`: what the reservation of `begin_op` is worth.**

`begin_op` lets an operation in if the log would hold `MAXOPBLOCKS` more blocks for each open one, and
`log_write` panics if the log is full. `param.h` calls `MAXOPBLOCKS` the number of blocks that an
operation writes at most.

* `Filled` — three operations are open and the log holds the blocks that they have logged so far, ten
  by each; `Filled.step` logs one more.
* `never_panics_iff` — **no run panics exactly if the operations log fewer than `MAXOPBLOCKS` blocks
  each.** With `MAXOPBLOCKS` of them three operations fill the log: `log_write` makes its test before
  it looks for an entry of the block, so that it then panics even for a block that is in the log.
-/

import SistemasOperacionais.Xv6.Crash
import Mathlib.Data.Fintype.EquivFin

namespace Xv6

namespace Log

open Transition

variable {ι : Type} [DecidableEq ι] [Fintype ι] {sb : Superblock} {quota : ℕ} {disk : ℕ → Block}
  {process : Fin 3 ↪ ι} {s : State ι}

/-- The machine runs and no process is inside `log_write` or `commit`. -/
structure Open (s : State ι) (outstanding : ℕ) : Prop where
  boot : s.boot = none
  panic : s.panic = none
  committing : s.committing = false
  outstanding : s.outstanding = outstanding
  logging : ∀ q blockno, s.place q ≠ .logging blockno

/-- The first blocks behind the log. -/
def spare (sb : Superblock) (k : ℕ) : ℕ := sb.logstart + sb.nlog + k

theorem home_spare (sb : Superblock) (k : ℕ) : Home sb (spare sb k) :=
  .inr (Nat.le_add_right _ k)

/-- **Three operations have logged `k` blocks**, ten by the first before the second starts. -/
structure Filled (sb : Superblock) (process : Fin 3 ↪ ι) (s : State ι) (k : ℕ) : Prop extends
    Open s 3 where
  inside : ∀ i, s.place (process i) = .inside
  lh : s.lh = (List.range k).map (spare sb)
  mine : ∀ i : Fin 3, (s.mine (process i)).card ≤ min (k - maxOpBlocks * i) maxOpBlocks
  first : 0 < k → spare sb 0 ∈ s.mine (process 0)

/-! ### The run -/

theorem reach_boot {point : Boot} (reach : Reach (next sb) (Within sb quota) (start disk) s)
    (running : s.panic = none) (boots : s.boot = some point) :
    Reach (next sb) (Within sb quota) (start disk) (bootStep sb s point) := by
  have within : Within sb quota s .boot := trivial
  refine reach.step within ?_
  simp [next, running, boots]

/-- The boot with an empty log. -/
theorem reach_booted (quota : ℕ) (formatted : disk sb.logstart 0 = 0) :
    ∃ s : State ι, Reach (next sb) (Within sb quota) (start disk) s ∧ Open s 0 ∧ s.lh = [] ∧
      s.place = (fun _ => .outside) := by
  have empty := readHead_zero formatted
  have read : Reach (next sb) (Within sb quota) (start disk)
      (bootStep sb (start disk : State ι) .readHead) := reach_boot .start rfl rfl
  have installed := reach_boot read rfl rfl
  have beyond : bootStep sb (bootStep sb (start disk : State ι) .readHead) (.installTrans 0) =
      { bootStep sb (start disk : State ι) .readHead with lh := [], boot := some .eraseHead } := by
    simp [bootStep, start, empty]
  rw [beyond] at installed
  exact ⟨_, reach_boot installed rfl rfl, ⟨rfl, rfl, rfl, rfl, fun q blockno place => by cases place⟩,
    rfl, rfl⟩

/-- `begin_op` of `n` processes. -/
theorem reach_opened (quota : ℕ) (formatted : disk sb.logstart 0 = 0) (process : Fin 3 ↪ ι)
    {n : ℕ} (few : n ≤ 3) :
    ∃ s : State ι, Reach (next sb) (Within sb quota) (start disk) s ∧ Open s n ∧ s.lh = [] ∧
      ∀ i : Fin 3, (i < n → s.place (process i) = .inside ∧ s.mine (process i) = ∅) ∧
        (n ≤ i → s.place (process i) = .outside) := by
  induction n with
  | zero =>
    obtain ⟨s, reach, opened, none, places⟩ := reach_booted (ι := ι) quota formatted
    exact ⟨s, reach, opened, none, fun i => ⟨fun early => absurd early (Nat.not_lt_zero _),
      fun _ => congrFun places _⟩⟩
  | succ n ih =>
    obtain ⟨s, reach, opened, none, places⟩ := ih (by omega)
    have out := (places ⟨n, few⟩).2 le_rfl
    have begun : next sb s (.beginOp (process ⟨n, few⟩)) = some ({ s with
        outstanding := s.outstanding + 1
        mine := Function.update s.mine (process ⟨n, few⟩) ∅ }.goto (process ⟨n, few⟩) .inside) := by
      have fits : ¬ (s.lh.length + (s.outstanding + 1) * maxOpBlocks > logSize) := by
        rw [none, opened.outstanding]
        simp only [List.length_nil, logSize, maxOpBlocks]
        omega
      simp only [next, opened.panic, opened.boot, out, and_self, if_true, beginOp,
        opened.committing, fits, if_false, Bool.false_eq_true]
    have within : Within sb quota s (.beginOp (process ⟨n, few⟩)) := trivial
    refine ⟨_, reach.step within begun, ⟨opened.boot, opened.panic, opened.committing,
      congrArg (· + 1) opened.outstanding, ?_⟩, none, ?_⟩
    · intro q blockno
      by_cases same : q = process ⟨n, few⟩
      · simp [State.goto, same]
      · simpa [State.goto, same] using opened.logging q blockno
    · intro i
      by_cases same : i = ⟨n, few⟩
      · subst same
        simp [State.goto]
      · have different : process i ≠ process ⟨n, few⟩ := fun equal => same (process.injective equal)
        have other : (i : ℕ) ≠ n := fun equal => same (Fin.ext equal)
        simp only [State.goto, Function.update_of_ne different]
        exact ⟨fun early => (places i).1 (by omega), fun late => (places i).2 (by omega)⟩

/-- The locked part of `log_write`. -/
theorem reach_log {p : ι} {blockno : ℕ} (reach : Reach (next sb) (Within sb quota) (start disk) s)
    (running : s.panic = none) (booted : s.boot = none) (place : s.place p = .logging blockno) :
    Reach (next sb) (Within sb quota) (start disk) (logWrite s p blockno) := by
  have within : Within sb quota s (.go p) := trivial
  refine reach.step within ?_
  simp [next, running, booted, place, go]

/-- The call of `log_write`, up to the lock. -/
theorem Filled.modify {k : ℕ} (filled : Filled sb process s k) (i : Fin 3) (blockno : ℕ) :
    next sb s (.modify (process i) blockno (fun _ => 0)) =
      let changed := { s with cache := Function.update s.cache blockno fun _ => 0 }
      if k ≥ logSize ∨ k ≥ sb.nlog - 1 then some { changed with panic := some .tooBig }
      else some (changed.goto (process i) (.logging blockno)) := by
  have nobody : ¬ ∃ other, s.place other = .logging blockno :=
    fun ⟨other, place⟩ => filled.logging other blockno place
  have count : s.lh.length = k := by simp [filled.lh]
  have positive : ¬ s.outstanding < 1 := by simp [filled.outstanding]
  simp only [next, filled.panic, filled.boot, filled.inside i, and_self, if_true, Log.modify,
    if_neg nobody, count, if_neg positive]

/-- **One more block**, or a panic. -/
theorem Filled.step {k : ℕ} (filled : Filled sb process s k) (all : maxOpBlocks ≤ quota)
    (few : k < logSize) (reach : Reach (next sb) (Within sb quota) (start disk) s) :
    (∃ s' : State ι, Reach (next sb) (Within sb quota) (start disk) s' ∧ s'.panic ≠ none) ∨
      ∃ s' : State ι, Reach (next sb) (Within sb quota) (start disk) s' ∧
        Filled sb process s' (k + 1) := by
  unfold logSize maxOpBlocks at few
  -- whose turn it is
  obtain ⟨i, turn⟩ : ∃ i : Fin 3, (i : ℕ) = k / 10 := ⟨⟨k / 10, by omega⟩, rfl⟩
  have share := filled.mine i
  have one := Finset.card_insert_le (spare sb k) (s.mine (process i))
  have within : Within sb quota s (.modify (process i) (spare sb k) (fun _ => 0)) := by
    refine ⟨home_spare sb k, le_trans one (le_trans ?_ all)⟩
    unfold maxOpBlocks at share ⊢
    omega
  have modified := filled.modify i (spare sb k)
  by_cases full : k ≥ logSize ∨ k ≥ sb.nlog - 1
  · simp only [if_pos full] at modified
    exact .inl ⟨_, reach.step within modified, by simp⟩
  simp only [if_neg full] at modified
  have called := reach.step within modified
  have fresh : spare sb k ∉ s.lh := by
    simp [filled.lh, spare]
  have done := reach_log (p := process i) called filled.panic filled.boot
    (Function.update_self (process i) _ s.place)
  refine .inr ⟨_, done, ⟨filled.boot, filled.panic, filled.committing, filled.outstanding, ?_⟩, ?_, ?_,
    ?_, ?_⟩
  · intro q blockno
    by_cases same : q = process i
    · simp [logWrite, State.goto, same]
    · simpa [logWrite, State.goto, same] using filled.logging q blockno
  · intro j
    by_cases same : process j = process i
    · simp [logWrite, State.goto, same]
    · simpa [logWrite, State.goto, same] using filled.inside j
  · show (if spare sb k ∈ s.lh then s.lh else s.lh ++ [spare sb k]) = _
    rw [if_neg fresh, filled.lh, List.range_succ, List.map_append]
    rfl
  · intro j
    have before := filled.mine j
    by_cases same : j = i
    · subst same
      simp only [logWrite, State.goto, Function.update_self]
      unfold maxOpBlocks at share ⊢
      omega
    · have different : process j ≠ process i := fun equal => same (process.injective equal)
      simp only [logWrite, State.goto, Function.update_of_ne different]
      omega
  · intro _
    by_cases same : process 0 = process i
    · simp only [logWrite, State.goto, ← same, Function.update_self, Finset.mem_insert]
      by_cases zero : k = 0
      · exact .inl (by rw [zero])
      · exact .inr (filled.first (by omega))
    · simp only [logWrite, State.goto, Function.update_of_ne same]
      refine filled.first (Nat.pos_of_ne_zero fun zero => same ?_)
      have : i = 0 := Fin.ext (by simp [turn, zero])
      rw [this]

/-- **Three operations of `MAXOPBLOCKS` blocks fill the log.** -/
theorem exists_panic (process : Fin 3 ↪ ι) (all : maxOpBlocks ≤ quota)
    (formatted : disk sb.logstart 0 = 0) :
    ∃ s : State ι, Reach (next sb) (Within sb quota) (start disk) s ∧ s.panic ≠ none := by
  by_contra never
  have fills : ∀ k ≤ logSize, ∃ s : State ι, Reach (next sb) (Within sb quota) (start disk) s ∧
      Filled sb process s k := by
    intro k
    induction k with
    | zero =>
      intro _
      obtain ⟨s, reach, opened, none, places⟩ := reach_opened quota formatted process le_rfl
      refine ⟨s, reach, opened, fun i => ((places i).1 i.isLt).1, none, fun i => ?_,
        fun positive => absurd positive (Nat.lt_irrefl 0)⟩
      rw [((places i).1 i.isLt).2]
      exact Nat.zero_le _
    | succ k ih =>
      intro few
      obtain ⟨s, reach, filled⟩ := ih (by omega)
      rcases filled.step all few reach with panics | more
      · exact absurd panics never
      · exact more
  obtain ⟨s, reach, filled⟩ := fills logSize le_rfl
  -- the log is full: a block that it holds is logged once more
  have share := filled.mine 0
  have within : Within sb quota s (.modify (process 0) (spare sb 0) 0) := by
    refine ⟨home_spare sb 0, ?_⟩
    rw [Finset.insert_eq_of_mem (filled.first (by decide))]
    omega
  have modified := filled.modify 0 (spare sb 0)
  simp only [ge_iff_le, le_refl, true_or, if_true] at modified
  exact never ⟨_, reach.step within modified, by simp⟩

/-- **No run panics exactly if every operation logs fewer than `MAXOPBLOCKS` blocks.** -/
theorem never_panics_iff (three : 3 ≤ Fintype.card ι) (large : logSize ≤ sb.nlog)
    (formatted : disk sb.logstart 0 = 0) :
    (∀ s : State ι, Reach (next sb) (Within sb quota) (start disk) s → s.panic = none) ↔
      quota < maxOpBlocks := by
  constructor
  · intro never
    by_contra all
    have enough : Fintype.card (Fin 3) ≤ Fintype.card ι := by simpa using three
    obtain ⟨process⟩ := Function.Embedding.nonempty_of_card_le enough
    obtain ⟨s, reach, panics⟩ := exists_panic process (Nat.le_of_not_lt all) formatted
    exact panics (never s reach)
  · intro small s reach
    obtain ⟨store, related⟩ := exists_match small large formatted reach
    exact related.panic

/-- With `MAXOPBLOCKS` blocks an operation, a run in the file system of `mkfs` panics. -/
theorem panics_with_maxOpBlocks :
    ¬ ∀ s : State (Fin 3), Reach (next mkfsSuperblock) (Within mkfsSuperblock maxOpBlocks)
      (start fun _ _ => 0) s → s.panic = none :=
  fun never => Nat.lt_irrefl _ ((never_panics_iff (by simp) le_rfl rfl).mp never)

end Log

end Xv6
