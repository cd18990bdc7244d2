/-
**`minix.c`: what the calls do to the list of holes.**

* `Holds m holes slots` — the slots of the holes in their order, and the unused ones; every slot is
  in one of the two lists.
* `Holds.delSlot`, `Holds.link` — the two surgeries, on both lists at once.
* `Holds.allocMem` — `alloc_mem` is `Intervals.take`.
* `Holds.merge` — `merge` joins a hole with the next one, and this with the one behind.
* `Holds.freeMem` — **`free_mem` is `Intervals.insert`**, or the table is full.
-/

import SistemasOperacionais.Minix.Model
import SistemasOperacionais.Data.Singly
import SistemasOperacionais.Data.Intervals

namespace Minix

open SinglyLinked Intervals

variable {n : ℕ} {m m' : Memory n} {l r used slots : List (Fin n)} {x y : Fin n}

/-- The links of the list of holes; the link of the head is `hole_head`. -/
def holeLink (m : Memory n) : Option (Fin n) → Option (Fin n)
  | none => m.holeHead
  | some i => (m.hole i).hNext

/-- The links of the list of unused slots. -/
def slotLink (m : Memory n) : Option (Fin n) → Option (Fin n)
  | none => m.freeSlots
  | some i => (m.hole i).hNext

/-- The base and the length in a slot. -/
def data (m : Memory n) (i : Fin n) : ℕ × ℕ := ((m.hole i).hBase, (m.hole i).hLen)

/-- **The slots of the holes and the unused slots.** -/
structure Holds (m : Memory n) (used slots : List (Fin n)) : Prop where
  inUse : Listed (holeLink m) used
  unused : Listed (slotLink m) slots
  apart : ∀ i ∈ used, i ∉ slots
  all : used.length + slots.length = n

theorem data_set (m : Memory n) (i : Fin n) (hole : Hole n) :
    data (m.set i hole) = Function.update (data m) i (hole.hBase, hole.hLen) := by
  funext j
  by_cases same : j = i
  · subst same
    simp [data, Memory.set]
  · simp [data, Memory.set, same]

theorem holeLink_set (m : Memory n) (i : Fin n) (hole : Hole n) :
    holeLink (m.set i hole) = Function.update (holeLink m) (some i) hole.hNext := by
  funext node
  cases node with
  | none => rfl
  | some j =>
    by_cases same : j = i
    · subst same
      simp [holeLink, Memory.set]
    · simp [holeLink, Memory.set, same]

theorem slotLink_set (m : Memory n) (i : Fin n) (hole : Hole n) :
    slotLink (m.set i hole) = Function.update (slotLink m) (some i) hole.hNext := by
  funext node
  cases node with
  | none => rfl
  | some j =>
    by_cases same : j = i
    · subst same
      simp [slotLink, Memory.set]
    · simp [slotLink, Memory.set, same]

/-- New data in a slot. -/
theorem Holds.set (holds : Holds m used slots) (i : Fin n) (base len : ℕ) :
    Holds (m.set i { m.hole i with hBase := base, hLen := len }) used slots := by
  have holeLinks : holeLink (m.set i { m.hole i with hBase := base, hLen := len }) = holeLink m := by
    rw [holeLink_set]
    exact Function.update_eq_self (some i) (holeLink m)
  have slotLinks : slotLink (m.set i { m.hole i with hBase := base, hLen := len }) = slotLink m := by
    rw [slotLink_set]
    exact Function.update_eq_self (some i) (slotLink m)
  exact ⟨by rw [holeLinks]; exact holds.inUse, by rw [slotLinks]; exact holds.unused, holds.apart,
    holds.all⟩

theorem Holds.head (holds : Holds m used slots) : m.holeHead = used.head? := holds.inUse.head

theorem Holds.next (holds : Holds m (l ++ x :: r) slots) : (m.hole x).hNext = r.head? :=
  holds.inUse.link_of_mem

/-! ### Links assigned -/

/-- A link of the list of holes assigned. -/
def relink (m : Memory n) (node target : Option (Fin n)) : Memory n :=
  match node with
  | none => { m with holeHead := target }
  | some prev => m.set prev { m.hole prev with hNext := target }

/-- A slot put in front of the unused ones. -/
def recycle (m : Memory n) (x : Fin n) : Memory n :=
  { m.set x { m.hole x with hNext := m.freeSlots } with freeSlots := some x }

theorem data_relink (m : Memory n) (node target : Option (Fin n)) : data (relink m node target) = data m := by
  cases node with
  | none => rfl
  | some prev =>
    rw [relink, data_set]
    exact Function.update_eq_self prev (data m)

theorem holeLink_relink (m : Memory n) (node target : Option (Fin n)) :
    holeLink (relink m node target) = Function.update (holeLink m) node target := by
  cases node with
  | none =>
    funext node
    cases node <;> rfl
  | some prev => exact holeLink_set ..

theorem slotLink_relink (m : Memory n) {node target other : Option (Fin n)}
    (away : ∀ i, node = some i → other ≠ some i) :
    slotLink (relink m node target) other = slotLink m other := by
  cases node with
  | none => cases other <;> rfl
  | some prev =>
    rw [relink, slotLink_set]
    exact Function.update_of_ne (away prev rfl) ..

/-- Assigning the link of a node before a hole leaves the unused slots. -/
theorem listed_relink (unused : Listed (slotLink m) slots) (apart : ∀ i ∈ l, i ∉ slots)
    (target : Option (Fin n)) : Listed (slotLink (relink m (stop none l) target)) slots := by
  refine unused.congr (slotLink_relink m fun i _ => by simp) fun i member => ?_
  refine slotLink_relink m fun j last => ?_
  rintro ⟨⟩
  rcases stop_mem none l with none | ⟨k, before, some⟩
  · rw [none] at last
    cases last
  · rw [some] at last
    cases last
    exact apart _ before member

theorem data_recycle (m : Memory n) (x : Fin n) : data (recycle m x) = data m := by
  have same : data (recycle m x) = data (m.set x { m.hole x with hNext := m.freeSlots }) := rfl
  rw [same, data_set]
  exact Function.update_eq_self x (data m)

theorem hole_recycle (m : Memory n) {i : Fin n} (other : i ≠ x) :
    (recycle m x).hole i = m.hole i :=
  Function.update_of_ne other ..

theorem listed_recycle (unused : Listed (slotLink m) slots) (fresh : x ∉ slots) :
    Listed (slotLink (recycle m x)) (x :: slots) := by
  refine ⟨⟨rfl, unused.path.congr ?_ fun i member => ?_⟩, List.nodup_cons.mpr ⟨fresh, unused.nodup⟩⟩
  · show ((recycle m x).hole x).hNext = m.freeSlots
    simp [recycle, Memory.set]
  · have other : i ≠ x := fun same => fresh (same ▸ member)
    show ((recycle m x).hole i).hNext = (m.hole i).hNext
    rw [hole_recycle m other]

theorem delSlot_eq (holds : Holds m (l ++ x :: r) slots) : delSlot m (stop none l) x =
    .ok (recycle (relink m (stop none l) (m.hole x).hNext) x) := by
  have head := holds.head
  unfold delSlot
  cases l with
  | nil =>
    have first : m.holeHead = some x := head
    rw [if_pos first]
    rfl
  | cons y l =>
    have differ : m.holeHead ≠ some x := by
      rw [head]
      rintro ⟨⟩
      exact (List.nodup_cons.mp holds.inUse.nodup).1 (by simp)
    obtain ⟨prev, before⟩ : ∃ prev, stop none (y :: l) = some prev := by
      rcases stop_mem (some y) l with same | ⟨z, -, same⟩ <;> exact ⟨_, same⟩
    rw [if_neg differ, before]
    rfl

/-- **A hole less, an unused slot more.** -/
theorem Holds.delSlot (holds : Holds m (l ++ x :: r) slots) :
    ∃ m', delSlot m (stop none l) x = .ok m' ∧ Holds m' (l ++ r) (x :: slots) ∧
      data m' = data m := by
  obtain ⟨gone, -⟩ := List.nodup_cons.mp (List.nodup_middle.mp holds.inUse.nodup)
  have fresh : x ∉ slots := holds.apart x (by simp)
  have unused := listed_relink holds.unused
    (fun i before => holds.apart i (List.mem_append_left _ before)) (m.hole x).hNext
  refine ⟨_, delSlot_eq holds, ⟨?_, listed_recycle unused fresh, ?_, ?_⟩,
    (data_recycle ..).trans (data_relink ..)⟩
  · have unlinked := holds.inUse.unlink
    have links : Function.update (holeLink m) (stop none l) (holeLink m (some x)) =
        holeLink (relink m (stop none l) (m.hole x).hNext) := (holeLink_relink ..).symm
    rw [links] at unlinked
    refine unlinked.congr rfl fun i member => ?_
    have other : i ≠ x := fun same => gone (same ▸ member)
    exact congrArg Hole.hNext (hole_recycle _ other)
  · intro i member
    have inside : i ∈ l ++ x :: r := by
      rcases List.mem_append.mp member with before | after
      · exact List.mem_append_left _ before
      · exact List.mem_append_right _ (List.mem_cons_of_mem x after)
    exact List.not_mem_cons_of_ne_of_not_mem (fun same => gone (same ▸ member))
      (holds.apart i inside)
  · have all := holds.all
    simp only [List.length_append, List.length_cons] at all ⊢
    omega

/-! ### `alloc_mem` -/

/-- The holes of some slots. -/
def blocks (m : Memory n) (used : List (Fin n)) : List (ℕ × ℕ) := used.map (data m)

theorem blocks_append (m : Memory n) (l r : List (Fin n)) :
    blocks m (l ++ r) = blocks m l ++ blocks m r := List.map_append

theorem blocks_congr (same : ∀ i ∈ used, data m' i = data m i) : blocks m' used = blocks m used :=
  List.map_congr_left same

/-- New data in one of the slots. -/
theorem blocks_set (nodup : (l ++ x :: r).Nodup) (hole : Hole n) :
    blocks (m.set x hole) l = blocks m l ∧ blocks (m.set x hole) r = blocks m r ∧
      data (m.set x hole) x = (hole.hBase, hole.hLen) := by
  obtain ⟨gone, -⟩ := List.nodup_cons.mp (List.nodup_middle.mp nodup)
  have other : ∀ i ∈ l ++ r, data (m.set x hole) i = data m i := fun i member => by
    have differ : i ≠ x := fun same => gone (same ▸ member)
    rw [data_set, Function.update_of_ne differ]
  obtain ⟨before, after⟩ := List.forall_mem_append.mp other
  exact ⟨blocks_congr before, blocks_congr after, by rw [data_set, Function.update_self]⟩

/-- **The loop of `alloc_mem`** finds the first hole that is long enough. -/
theorem Holds.allocLoop (clicks fuel : ℕ) (holds : Holds m (l ++ r) slots)
    (enough : r.length < fuel) (short : ∀ h ∈ blocks m l, h.2 < clicks) :
    ∃ m' used' slots', allocLoop clicks fuel m (stop none l) r.head? =
        .ok ((take clicks (blocks m (l ++ r))).map Prod.fst, m') ∧ Holds m' used' slots' ∧
      blocks m' used' = (take clicks (blocks m (l ++ r))).elim (blocks m (l ++ r)) Prod.snd := by
  induction fuel generalizing l r with
  | zero => cases enough
  | succ fuel ih =>
    cases r with
    | nil =>
      have nothing : take clicks (blocks m (l ++ [])) = none := by
        rw [List.append_nil]
        exact take_eq_none.mpr short
      exact ⟨m, _, slots, by rw [nothing]; rfl, holds, by rw [nothing]; rfl⟩
    | cons x r =>
      rw [List.head?_cons, Minix.allocLoop]
      by_cases long : clicks ≤ (m.hole x).hLen
      · have took : take clicks (blocks m (l ++ x :: r)) =
            some ((m.hole x).hBase, blocks m l ++ remains clicks (data m x) ++ blocks m r) := by
          rw [blocks_append]
          exact take_append short long
        obtain ⟨before, after, here⟩ := blocks_set holds.inUse.nodup
          { m.hole x with hBase := (m.hole x).hBase + clicks, hLen := (m.hole x).hLen - clicks }
        have changed := holds.set x ((m.hole x).hBase + clicks) ((m.hole x).hLen - clicks)
        simp only [if_pos long, took, Option.map_some, Option.elim_some]
        by_cases whole : (m.hole x).hLen - clicks = 0
        · obtain ⟨m', deleted, holds', same⟩ := changed.delSlot
          rw [if_neg (not_not.mpr whole), deleted]
          refine ⟨m', _, _, rfl, holds', ?_⟩
          have empty : remains clicks (data m x) = [] := if_pos whole
          rw [empty, List.append_nil, blocks, same, ← before, ← after]
          exact List.map_append
        · rw [if_pos whole]
          refine ⟨_, _, _, rfl, changed, ?_⟩
          have rest : remains clicks (data m x) =
              [((m.hole x).hBase + clicks, (m.hole x).hLen - clicks)] := if_neg whole
          rw [rest, List.append_assoc, List.singleton_append, blocks_append, before]
          simp only [blocks, List.map_cons] at after ⊢
          rw [here, after]
      · have more : ∀ h ∈ blocks m (l ++ [x]), h.2 < clicks := by
          rw [blocks_append]
          refine List.forall_mem_append.mpr ⟨short, List.forall_mem_singleton.mpr ?_⟩
          exact Nat.lt_of_not_le long
        have rest : Holds m (l ++ [x] ++ r) slots := by rwa [List.append_assoc]
        have found := ih rest (Nat.lt_of_succ_lt_succ enough) more
        rw [stop_append, List.append_assoc] at found
        simp only [if_neg long, holds.next]
        exact found

/-- **`alloc_mem` is first fit.** -/
theorem Holds.allocMem (holds : Holds m used slots) (clicks : ℕ) :
    ∃ m' used' slots', allocMem m clicks =
        .ok ((take clicks (blocks m used)).map Prod.fst, m') ∧ Holds m' used' slots' ∧
      blocks m' used' = (take clicks (blocks m used)).elim (blocks m used) Prod.snd := by
  have whole : Holds m ([] ++ used) slots := holds
  have found := whole.allocLoop clicks (n + 1) (by have := holds.all; omega) (by simp [blocks])
  rw [← holds.head] at found
  exact found

/-! ### `merge` -/

/-- **The next hole absorbed.** -/
theorem Holds.absorb (holds : Holds m (l ++ x :: y :: r) slots) :
    ∃ m', absorb m x y = .ok m' ∧ Holds m' (l ++ x :: r) (y :: slots) ∧
      blocks m' (l ++ x :: r) =
        blocks m l ++ ((m.hole x).hBase, (m.hole x).hLen + (m.hole y).hLen) :: blocks m r := by
  obtain ⟨before, after, here⟩ := blocks_set holds.inUse.nodup
    { m.hole x with hLen := (m.hole x).hLen + (m.hole y).hLen }
  have changed := holds.set x (m.hole x).hBase ((m.hole x).hLen + (m.hole y).hLen)
  rw [List.append_cons] at changed
  obtain ⟨m', deleted, holds', same⟩ := changed.delSlot
  rw [stop_append] at deleted
  rw [List.append_assoc] at holds'
  refine ⟨m', deleted, holds', ?_⟩
  simp only [blocks, List.map_append, List.map_cons] at before after ⊢
  rw [same, before, here, (List.cons.inj after).2]

/-- A list whose first interval is joined with the second if they touch. -/
def tidy : List (ℕ × ℕ) → List (ℕ × ℕ)
  | [] => []
  | b :: l => push b l

/-- The second half of `merge`. -/
theorem Holds.settle (holds : Holds m (l ++ x :: r) slots) :
    ∃ m' used' slots', (match (m.hole x).hNext with
        | none => .ok m
        | some nextPtr => if Touch m x nextPtr then Minix.absorb m x nextPtr else .ok m) =
        Except.ok m' ∧ Holds m' used' slots' ∧
      blocks m' used' = blocks m l ++ push (data m x) (blocks m r) := by
  rw [holds.next]
  cases r with
  | nil => exact ⟨m, _, _, rfl, holds, blocks_append ..⟩
  | cons y r =>
    have front : blocks m (y :: r) = data m y :: blocks m r := rfl
    by_cases touch : Touch m x y
    · have joined : push (data m x) (data m y :: blocks m r) =
          ((m.hole x).hBase, (m.hole x).hLen + (m.hole y).hLen) :: blocks m r := if_pos touch
      obtain ⟨m', absorbed, holds', same⟩ := holds.absorb
      exact ⟨m', _, _, (if_pos touch).trans absorbed, holds', by rw [same, front, joined]⟩
    · have kept : push (data m x) (data m y :: blocks m r) = data m x :: data m y :: blocks m r :=
        if_neg touch
      exact ⟨m, _, _, if_neg touch, holds, by rw [front, kept]; exact blocks_append ..⟩

/-- **`merge`** joins a hole with what is behind it. -/
theorem Holds.merge (holds : Holds m (l ++ x :: r) slots) :
    ∃ m' used' slots', merge m x = .ok m' ∧ Holds m' used' slots' ∧
      blocks m' used' = blocks m l ++ push (data m x) (tidy (blocks m r)) := by
  unfold Minix.merge
  rw [holds.next]
  cases r with
  | nil => exact ⟨m, _, _, rfl, holds, blocks_append ..⟩
  | cons y r =>
    have front : tidy (blocks m (y :: r)) = push (data m y) (blocks m r) := rfl
    by_cases touch : Touch m x y
    · -- the hole is now `x` with `y`, and `r` is behind it
      obtain ⟨m₁, absorbed, holds₁, joined⟩ := holds.absorb
      obtain ⟨m', used', slots', settled, holds', same⟩ := holds₁.settle
      refine ⟨m', used', slots', ?_, holds', ?_⟩
      · simp only [List.head?_cons, if_pos touch, absorbed]
        exact settled
      · rw [blocks_append] at joined
        obtain ⟨before, after⟩ := List.append_inj joined (by simp [blocks])
        obtain ⟨here, behind⟩ := List.cons.inj after
        have rest : blocks m₁ r = blocks m r := behind
        have touching : (data m x).1 + (data m x).2 = (data m y).1 := touch
        rw [same, before, here, rest, front, push_push_of_touch touching]
        rfl
    · have split : Holds m (l ++ [x] ++ y :: r) slots := by rwa [List.append_assoc]
      obtain ⟨m', used', slots', settled, holds', same⟩ := split.settle
      refine ⟨m', used', slots', ?_, holds', ?_⟩
      · simp only [List.head?_cons, if_neg touch]
        exact settled
      · have apart : (data m x).1 + (data m x).2 ≠ (data m y).1 := touch
        rw [same, front, push_push_of_apart apart, blocks_append, List.append_assoc]
        rfl

/-! ### `free_mem` -/

/-- **The loop of `free_mem`** stops at the last hole that begins before. -/
theorem freeLoop_spec (base fuel : ℕ) (listed : Listed (holeLink m) (l ++ r))
    (enough : r.length < fuel) :
    ∃ front back, r = front ++ back ∧
      freeLoop m base fuel (stop none l) r.head? = .ok (stop none (l ++ front)) ∧
      (∀ h ∈ blocks m front, h.1 < base) ∧ ∀ h ∈ (blocks m back).head?, base ≤ h.1 := by
  induction fuel generalizing l r with
  | zero => cases enough
  | succ fuel ih =>
    cases r with
    | nil => exact ⟨[], [], rfl, by rw [List.append_nil]; rfl, by simp [blocks], by simp [blocks]⟩
    | cons x r =>
      rw [List.head?_cons, Minix.freeLoop]
      by_cases after : base > (m.hole x).hBase
      · have rest : Listed (holeLink m) (l ++ [x] ++ r) := by rwa [List.append_assoc]
        have next : (m.hole x).hNext = r.head? := listed.link_of_mem
        obtain ⟨front, back, rfl, found, before, behind⟩ :=
          ih rest (Nat.lt_of_succ_lt_succ enough)
        rw [stop_append, List.append_assoc] at found
        refine ⟨x :: front, back, rfl, ?_, List.forall_mem_cons.mpr ⟨after, before⟩, behind⟩
        rw [if_pos after, next]
        exact found
      · refine ⟨[], x :: r, rfl, by rw [if_neg after, List.append_nil], by simp [blocks], ?_⟩
        rintro h ⟨⟩
        exact Nat.le_of_not_lt after

/-- A slot put behind a node of the list of holes. -/
def enter (m : Memory n) (node : Option (Fin n)) (x : Fin n) : Memory n :=
  relink (m.set x { m.hole x with hNext := holeLink m node }) node (some x)

/-- The first unused slot, with the data of a hole. -/
def claim (m : Memory n) (x : Fin n) (base len : ℕ) : Memory n :=
  { m.set x { m.hole x with hBase := base, hLen := len } with freeSlots := (m.hole x).hNext }

theorem data_claim (m : Memory n) (x : Fin n) (base len : ℕ) :
    data (claim m x base len) = Function.update (data m) x (base, len) := data_set ..

theorem data_enter (m : Memory n) (node : Option (Fin n)) (x : Fin n) :
    data (Minix.enter m node x) = data m := by
  rw [enter, data_relink, data_set]
  exact Function.update_eq_self x (data m)

theorem holeLink_claim (m : Memory n) (x : Fin n) (base len : ℕ) :
    holeLink (claim m x base len) = holeLink m := by
  have set : holeLink (claim m x base len) =
      holeLink (m.set x { m.hole x with hBase := base, hLen := len }) := by
    funext node
    cases node <;> rfl
  rw [set, holeLink_set]
  exact Function.update_eq_self (some x) (holeLink m)

theorem Holds.unused_claim (holds : Holds m used (x :: slots)) (base len : ℕ) :
    Listed (slotLink (claim m x base len)) slots := by
  obtain ⟨-, nodup⟩ := List.nodup_cons.mp holds.unused.nodup
  refine ⟨(holds.set x base len).unused.path.2.congr ?_ fun _ _ => rfl, nodup⟩
  show (m.hole x).hNext = ((m.set x _).hole x).hNext
  simp [Memory.set]

/-- **An unused slot less, a hole more.** -/
theorem Holds.enter (holds : Holds m (l ++ r) (x :: slots)) (base len : ℕ) :
    Holds (enter (claim m x base len) (stop none l) x) (l ++ x :: r) slots := by
  have fresh : x ∉ l ++ r := fun member => holds.apart x member List.mem_cons_self
  obtain ⟨once, -⟩ := List.nodup_cons.mp holds.unused.nodup
  have inUse : Listed (holeLink (claim m x base len)) (l ++ r) := by
    rw [holeLink_claim]
    exact holds.inUse
  have unused := holds.unused_claim base len
  have apart : ∀ i ∈ l, i ∉ slots := fun i before member =>
    holds.apart i (List.mem_append_left r before) (List.mem_cons_of_mem x member)
  generalize claim m x base len = m₁ at inUse unused ⊢
  have away : stop none l ≠ some x := by
    rcases stop_mem none l with last | ⟨y, before, last⟩
    · simp [last]
    · rw [last]
      rintro ⟨⟩
      exact fresh (List.mem_append_left r before)
  unfold Minix.enter
  -- first the link of `x`, through which neither list goes
  have links := holeLink_set m₁ x { m₁.hole x with hNext := holeLink m₁ (stop none l) }
  have unused₂ : Listed (slotLink (m₁.set x { m₁.hole x with hNext := holeLink m₁ (stop none l) }))
      slots := by
    refine unused.congr rfl fun y member => ?_
    have other : some y ≠ some x := by
      rintro ⟨⟩
      exact once member
    rw [slotLink_set, Function.update_of_ne other]
  generalize m₁.set x { m₁.hole x with hNext := holeLink m₁ (stop none l) } = m₂ at links unused₂ ⊢
  have inUse₂ : Listed (holeLink m₂) (l ++ r) := by
    rw [links]
    refine inUse.congr (Function.update_of_ne (by simp) ..) fun y member => ?_
    have other : some y ≠ some x := by
      rintro ⟨⟩
      exact fresh member
    exact Function.update_of_ne other ..
  have next : holeLink m₂ (some x) = holeLink m₂ (stop none l) := by
    rw [links, Function.update_self, Function.update_of_ne away]
  refine ⟨?_, listed_relink unused₂ apart _, ?_, ?_⟩
  · rw [holeLink_relink]
    exact inUse₂.insert fresh next
  · intro i member inside
    rcases List.mem_append.mp member with before | after
    · exact apart i before inside
    · rcases List.mem_cons.mp after with rfl | after
      · exact once inside
      · exact holds.apart i (List.mem_append_right l after) (List.mem_cons_of_mem x inside)
  · have all := holds.all
    simp only [List.length_append, List.length_cons] at all ⊢
    omega

theorem tidy_of_separated {l : List (ℕ × ℕ)} (separated : Separated l) : tidy l = l := by
  cases l with
  | nil => rfl
  | cons a l => exact push_of_gap (separated_cons.mp separated).2.1

/-- The holes with a new one in a slot that was not used. -/
theorem Holds.blocks_enter (holds : Holds m used (x :: slots)) (base len : ℕ)
    (node : Option (Fin n)) : data (Minix.enter (claim m x base len) node x) x = (base, len) ∧
      blocks (Minix.enter (claim m x base len) node x) used = blocks m used := by
  rw [blocks, data_enter, data_claim]
  refine ⟨Function.update_self .., List.map_congr_left fun i member => ?_⟩
  refine Function.update_of_ne ?_ ..
  rintro rfl
  exact holds.apart i member List.mem_cons_self

theorem goesFirst_iff (listed : Listed (holeLink m) used) (base : ℕ) :
    goesFirst m base = true ↔ ∀ h ∈ (blocks m used).head?, base ≤ h.1 := by
  have head : m.holeHead = used.head? := listed.head
  rw [goesFirst, head]
  cases used with
  | nil => simp [blocks]
  | cons y used => simp [blocks, data]

/-- The hole goes first. -/
theorem Holds.freeFirst (holds : Holds m used (x :: slots)) (separated : Separated (blocks m used))
    {base : ℕ} (clicks : ℕ) (first : ∀ h ∈ (blocks m used).head?, base ≤ h.1) :
    ∃ m' used' slots', Minix.merge (Minix.enter (claim m x base clicks) none x) x = .ok m' ∧
      Holds m' used' slots' ∧
      blocks m' used' = Intervals.insert (base, clicks) (blocks m used) := by
  have entered : Holds (Minix.enter (claim m x base clicks) none x) ([] ++ x :: used) slots :=
    Holds.enter (l := []) holds base clicks
  obtain ⟨here, behind⟩ := holds.blocks_enter base clicks none
  obtain ⟨m', used', slots', merged, holds', same⟩ := entered.merge
  refine ⟨m', used', slots', merged, holds', ?_⟩
  rw [same, here, behind, tidy_of_separated separated]
  show push (base, clicks) (blocks m used) = _
  cases holes : blocks m used with
  | nil => rfl
  | cons h rest =>
    have order : (base, clicks).1 ≤ h.1 := first h (by rw [holes]; rfl)
    rw [Intervals.insert, if_pos order]

/-- The hole goes behind another one. -/
theorem Holds.freeBehind {y : Fin n} (holds : Holds m (l ++ y :: r) (x :: slots))
    (separated : Separated (blocks m (l ++ y :: r))) {base : ℕ} (clicks : ℕ)
    (after : (m.hole y).hBase < base) (before : ∀ h ∈ (blocks m r).head?, base ≤ h.1) :
    ∃ m' used' slots', Minix.merge (Minix.enter (claim m x base clicks) (some y) x) y = .ok m' ∧
      Holds m' used' slots' ∧
      blocks m' used' = Intervals.insert (base, clicks) (blocks m (l ++ y :: r)) := by
  have entered : Holds (Minix.enter (claim m x base clicks) (some y) x) (l ++ y :: x :: r) slots := by
    rw [List.append_cons] at holds
    have entered := holds.enter base clicks
    rwa [stop_append, List.append_assoc] at entered
  obtain ⟨here, others⟩ := holds.blocks_enter base clicks (some y)
  obtain ⟨m', used', slots', merged, holds', same⟩ := entered.merge
  refine ⟨m', used', slots', merged, holds', ?_⟩
  rw [blocks_append, blocks_append] at others
  obtain ⟨front, back⟩ := List.append_inj others (by simp [blocks])
  obtain ⟨at_y, behind⟩ := List.cons.inj back
  have rest : tidy (blocks (Minix.enter (claim m x base clicks) (some y) x) (x :: r)) =
      push (base, clicks) (blocks m r) := congrArg₂ push here behind
  rw [blocks_append] at separated
  have order : (data m y).1 < (base, clicks).1 := after
  rw [same, front, at_y, rest, blocks_append]
  exact (insert_eq separated order before).symm

/-- `free_mem` once there is a slot, by the assignments named above. -/
theorem freeMem_eq {base clicks : ℕ} (positive : clicks ≠ 0) (slot : m.freeSlots = some x) :
    freeMem m base clicks =
      if goesFirst (claim m x base clicks) base then
        Minix.merge (Minix.enter (claim m x base clicks) none x) x
      else (do
        match ← freeLoop (claim m x base clicks) base (n + 1) none
            (claim m x base clicks).holeHead with
        | none => .error .undefined
        | some prev => Minix.merge (Minix.enter (claim m x base clicks) (some prev) x) prev) := by
  unfold freeMem
  rw [if_neg positive, slot]
  rfl

/-- **`free_mem` puts a hole in its place**, or the table is full. -/
theorem Holds.freeMem (holds : Holds m used slots) (separated : Separated (blocks m used))
    (base : ℕ) {clicks : ℕ} (positive : clicks ≠ 0) :
    (slots = [] ∧ freeMem m base clicks = .error .holeTableFull) ∨
      slots ≠ [] ∧ ∃ m' used' slots', freeMem m base clicks = .ok m' ∧ Holds m' used' slots' ∧
        blocks m' used' = Intervals.insert (base, clicks) (blocks m used) := by
  have head := holds.unused.head
  cases slots with
  | nil =>
    have none : m.freeSlots = none := head
    exact .inl ⟨rfl, by rw [Minix.freeMem, if_neg positive, none]⟩
  | cons x slots =>
    refine .inr ⟨List.cons_ne_nil x slots, ?_⟩
    rw [freeMem_eq positive head]
    have listed : Listed (holeLink (claim m x base clicks)) ([] ++ used) := by
      rw [holeLink_claim]
      exact holds.inUse
    have few : used.length < n + 1 := by
      have all := holds.all
      omega
    have same : blocks (claim m x base clicks) used = blocks m used := by
      refine blocks_congr fun i member => ?_
      rw [data_claim, Function.update_of_ne]
      rintro rfl
      exact holds.apart i member List.mem_cons_self
    by_cases first : goesFirst (claim m x base clicks) base = true
    · have order := (goesFirst_iff listed base).mp first
      rw [List.nil_append, same] at order
      obtain ⟨m', used', slots', merged, rest⟩ := holds.freeFirst separated clicks order
      exact ⟨m', used', slots', (if_pos first).trans merged, rest⟩
    · obtain ⟨front, back, rfl, found, before, behind⟩ := freeLoop_spec base (n + 1) listed few
      have some_front : front ≠ [] := by
        rintro rfl
        exact first ((goesFirst_iff listed base).mpr behind)
      obtain ⟨front, y, rfl⟩ : ∃ l y, front = l ++ [y] :=
        ⟨_, _, (List.dropLast_append_getLast some_front).symm⟩
      rw [List.nil_append, stop_append] at found
      rw [← List.append_cons] at holds separated same ⊢
      rw [blocks_append, blocks_append] at same
      obtain ⟨-, same⟩ := List.append_inj same (by simp [blocks])
      obtain ⟨at_y, at_back⟩ := List.cons.inj same
      have after : (m.hole y).hBase < base := by
        have here := before (data (claim m x base clicks) y) (by simp [blocks])
        rwa [at_y] at here
      have order : ∀ h ∈ (blocks m back).head?, base ≤ h.1 := by
        rwa [blocks, at_back] at behind
      obtain ⟨m', used', slots', merged, rest⟩ := holds.freeBehind separated clicks after order
      refine ⟨m', used', slots', (if_neg first).trans ?_, rest⟩
      have walked : freeLoop (claim m x base clicks) base (n + 1) none
          (claim m x base clicks).holeHead = .ok (some y) := by
        have head : (claim m x base clicks).holeHead = _ := listed.head
        rw [head]
        exact found
      rw [walked]
      exact merged

end Minix
