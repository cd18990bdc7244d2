/-
**Sets of numbers as lists of intervals.**

An interval is its first number and its length. `Separated` lists are in order, without empty
intervals, and with a gap behind each: every set of this kind has one such list.

* `push`, `insert` — an interval put in front, or in its place, and joined with what it touches.
* `insert_eq` — only the two neighbours of the place are touched.
* `take` — the first interval that is long enough loses its first `size` numbers.
* `cover_insert`, `take_spec` — what they do to the set: first fit finds the least place.
* `Separated.starts`, `Separated.eq_of_cover` — the intervals are the maximal ones, hence the list is
  determined by its set.
-/

import Mathlib.Data.Set.Card
import Mathlib.Order.Interval.Finset.Nat
import SistemasOperacionais.Runs.Region

namespace Intervals

open Region

/-- The numbers in one of the intervals. -/
def cover (l : List (ℕ × ℕ)) : Set ℕ := {x | ∃ h ∈ l, x ∈ span h.1 h.2}

/-- **In order, without empty intervals, and with gaps.** -/
structure Separated (l : List (ℕ × ℕ)) : Prop where
  positive : ∀ h ∈ l, 0 < h.2
  apart : l.Pairwise fun a b => a.1 + a.2 < b.1

/-- Put an interval in front, and join it with the first one if they touch. -/
def push (a : ℕ × ℕ) : List (ℕ × ℕ) → List (ℕ × ℕ)
  | [] => [a]
  | b :: l => if a.1 + a.2 = b.1 then (a.1, a.2 + b.2) :: l else a :: b :: l

/-- Put an interval in its place. -/
def insert (x : ℕ × ℕ) : List (ℕ × ℕ) → List (ℕ × ℕ)
  | [] => [x]
  | a :: l => if x.1 ≤ a.1 then push x (a :: l) else push a (insert x l)

/-- Take numbers from the first interval that has so many. -/
def take (size : ℕ) : List (ℕ × ℕ) → Option (ℕ × List (ℕ × ℕ))
  | [] => none
  | h :: l =>
      if size ≤ h.2 then some (h.1, if h.2 - size = 0 then l else (h.1 + size, h.2 - size) :: l)
      else (take size l).map fun taken => (taken.1, h :: taken.2)

variable {a b x : ℕ × ℕ} {l r : List (ℕ × ℕ)}

theorem mem_cover_cons {y : ℕ} : y ∈ cover (a :: l) ↔ y ∈ span a.1 a.2 ∨ y ∈ cover l := by
  simp [cover]

theorem cover_cons : cover (a :: l) = span a.1 a.2 ∪ cover l := Set.ext fun _ => mem_cover_cons

theorem cover_append : cover (l ++ r) = cover l ∪ cover r := by
  induction l with
  | nil => simp [cover]
  | cons h l ih => rw [List.cons_append, cover_cons, ih, cover_cons, Set.union_assoc]

theorem cover_perm (perm : l.Perm r) : cover l = cover r := by
  ext y
  simp only [cover, Set.mem_ofPred_eq, perm.mem_iff]

theorem separated_cons : Separated (a :: l) ↔
    0 < a.2 ∧ (∀ b ∈ l, a.1 + a.2 < b.1) ∧ Separated l := by
  constructor
  · rintro ⟨positive, apart⟩
    obtain ⟨first, rest⟩ := List.pairwise_cons.mp apart
    obtain ⟨here, behind⟩ := List.forall_mem_cons.mp positive
    exact ⟨here, first, behind, rest⟩
  · rintro ⟨here, first, behind, rest⟩
    exact ⟨List.forall_mem_cons.mpr ⟨here, behind⟩, List.pairwise_cons.mpr ⟨first, rest⟩⟩

/-! ### Joining -/

theorem cover_push : cover (push a l) = span a.1 a.2 ∪ cover l := by
  cases l with
  | nil => rw [push, cover_cons]
  | cons b l =>
    rw [push]
    split
    · rename_i touch
      ext y
      simp only [Set.mem_union, mem_cover_cons, mem_span]
      by_cases inside : y ∈ cover l
      · simp [inside]
      · simp only [inside, or_false]
        omega
    · rw [cover_cons]

/-- The numbers of an interval that ends before another one begins, the gap left out. -/
theorem Separated.push (separated : Separated l) (positive : 0 < a.2)
    (before : ∀ b ∈ l, a.1 + a.2 ≤ b.1) : Separated (push a l) := by
  cases l with
  | nil => exact separated_cons.mpr ⟨positive, by simp, separated⟩
  | cons b l =>
    obtain ⟨here, behind, rest⟩ := separated_cons.mp separated
    have first := before b List.mem_cons_self
    rw [Intervals.push]
    split
    · rename_i touch
      refine separated_cons.mpr ⟨by show 0 < a.2 + b.2; omega, fun c member => ?_, rest⟩
      have gap := behind c member
      show a.1 + (a.2 + b.2) < c.1
      omega
    · refine separated_cons.mpr ⟨positive, List.forall_mem_cons.mpr ⟨by omega, ?_⟩, separated⟩
      intro c member
      have gap := behind c member
      omega

/-- Where the intervals of the result begin and end. -/
theorem le_of_mem_push {bound : ℕ} (first : bound ≤ a.1) (rest : ∀ b ∈ l, bound ≤ b.1) :
    ∀ b ∈ push a l, bound ≤ b.1 := by
  cases l with
  | nil => simpa [push] using first
  | cons c l =>
    obtain ⟨here, behind⟩ := List.forall_mem_cons.mp rest
    rw [push]
    split
    · exact List.forall_mem_cons.mpr ⟨first, behind⟩
    · exact List.forall_mem_cons.mpr ⟨first, rest⟩

theorem le_of_mem_insert {bound : ℕ} (first : bound ≤ x.1) (rest : ∀ b ∈ l, bound ≤ b.1) :
    ∀ b ∈ insert x l, bound ≤ b.1 := by
  induction l with
  | nil => simpa [insert] using first
  | cons a l ih =>
    obtain ⟨here, behind⟩ := List.forall_mem_cons.mp rest
    unfold insert
    split
    · exact le_of_mem_push first rest
    · exact le_of_mem_push here (ih behind)

theorem push_of_gap (gap : ∀ b ∈ l, a.1 + a.2 < b.1) : push a l = a :: l := by
  cases l with
  | nil => rfl
  | cons b l =>
    have first := gap b List.mem_cons_self
    rw [push, if_neg (by omega)]

/-- The first interval begins where it did. -/
theorem push_push_of_apart (apart : a.1 + a.2 ≠ b.1) : push a (push b l) = a :: push b l := by
  cases l with
  | nil => rw [push, push, if_neg apart]
  | cons c l =>
    rw [push]
    split <;> rw [push, if_neg apart]

/-- Two intervals that touch, put in front one after the other or as one. -/
theorem push_push_of_touch (touch : a.1 + a.2 = b.1) :
    push a (push b l) = push (a.1, a.2 + b.2) l := by
  cases l with
  | nil => exact if_pos touch
  | cons c l =>
    by_cases next : b.1 + b.2 = c.1
    · have last : a.1 + (a.2 + b.2) = c.1 := by omega
      simp only [push, if_pos next, if_pos touch, if_pos last, Nat.add_assoc]
    · have last : a.1 + (a.2 + b.2) ≠ c.1 := by omega
      simp only [push, if_neg next, if_pos touch, if_neg last]

theorem cover_insert : cover (insert x l) = cover l ∪ span x.1 x.2 := by
  induction l with
  | nil => simp [insert, cover]
  | cons a l ih =>
    unfold insert
    split
    · rw [cover_push, Set.union_comm]
    · rw [cover_push, ih, cover_cons, Set.union_assoc]

/-- Two intervals without a common number, in the order of their first numbers. -/
theorem end_le_of_disjoint (positive : 0 < b.2) (order : a.1 ≤ b.1)
    (disjoint : Disjoint (span a.1 a.2) (span b.1 b.2)) : a.1 + a.2 ≤ b.1 := by
  by_contra short
  have left : b.1 ∈ span a.1 a.2 := mem_span.mpr ⟨order, by omega⟩
  have right : b.1 ∈ span b.1 b.2 := mem_span.mpr ⟨le_rfl, by omega⟩
  exact Set.disjoint_left.mp disjoint left right

theorem Separated.insert (separated : Separated l) (positive : 0 < x.2)
    (disjoint : Disjoint (cover l) (span x.1 x.2)) : Separated (insert x l) := by
  induction l with
  | nil => exact separated_cons.mpr ⟨positive, by simp, separated⟩
  | cons a l ih =>
    obtain ⟨here, behind, rest⟩ := separated_cons.mp separated
    rw [cover_cons, Set.disjoint_union_left] at disjoint
    unfold Intervals.insert
    split
    · rename_i order
      have first := end_le_of_disjoint here order disjoint.1.symm
      refine separated.push positive (List.forall_mem_cons.mpr ⟨first, fun c member => ?_⟩)
      have gap := behind c member
      omega
    · rename_i order
      have first := end_le_of_disjoint positive (by omega) disjoint.1
      exact (ih rest disjoint.2).push here
        (le_of_mem_insert first fun c member => (behind c member).le)

/-- **Only the two neighbours are touched.** -/
theorem insert_eq (separated : Separated (l ++ a :: r)) (after : a.1 < x.1)
    (before : ∀ b ∈ r.head?, x.1 ≤ b.1) :
    insert x (l ++ a :: r) = l ++ push a (push x r) := by
  induction l with
  | nil =>
    rw [List.nil_append, insert, if_neg (by omega)]
    cases r with
    | nil => rfl
    | cons b r =>
      rw [insert, if_pos (before b rfl)]
      rfl
  | cons c l ih =>
    obtain ⟨-, behind, rest⟩ := separated_cons.mp separated
    have gap := behind a (by simp)
    have beyond : ∀ d ∈ l ++ push a (push x r), c.1 + c.2 < d.1 := by
      have inside : ∀ d ∈ l ++ a :: r, c.1 + c.2 + 1 ≤ d.1 := behind
      obtain ⟨front, back⟩ := List.forall_mem_append.mp inside
      obtain ⟨first, back⟩ := List.forall_mem_cons.mp back
      exact List.forall_mem_append.mpr ⟨front, le_of_mem_push first (le_of_mem_push (by omega) back)⟩
    rw [List.cons_append, insert, if_neg (by omega), ih rest, push_of_gap beyond, List.cons_append]

/-! ### The intervals of a set -/

/-- Two intervals of a separated list. -/
theorem Separated.order (separated : Separated l) (left : a ∈ l) (right : b ∈ l) :
    a = b ∨ a.1 + a.2 < b.1 ∨ b.1 + b.2 < a.1 := by
  induction l with
  | nil => cases left
  | cons c l ih =>
    obtain ⟨-, behind, rest⟩ := separated_cons.mp separated
    rcases List.mem_cons.mp left with rfl | first <;> rcases List.mem_cons.mp right with rfl | second
    · exact .inl rfl
    · exact .inr (.inl (behind b second))
    · exact .inr (.inr (behind a first))
    · exact ih rest first second

/-- The end of an interval is in a gap. -/
theorem Separated.end_not_mem (separated : Separated l) (member : a ∈ l) :
    a.1 + a.2 ∉ cover l := by
  rintro ⟨b, other, inside⟩
  rw [mem_span] at inside
  rcases separated.order member other with rfl | order | order <;> omega

/-- **The intervals are the maximal ones of the set.** -/
theorem Separated.mem_iff (separated : Separated l) : a ∈ l ↔
    0 < a.2 ∧ span a.1 a.2 ⊆ cover l ∧ a.1 + a.2 ∉ cover l ∧ ∀ y, y + 1 = a.1 → y ∉ cover l := by
  constructor
  · intro member
    refine ⟨separated.positive a member, fun y inside => ⟨a, member, inside⟩,
      separated.end_not_mem member, ?_⟩
    rintro y before ⟨b, other, inside⟩
    rw [mem_span] at inside
    rcases separated.order member other with rfl | order | order <;> omega
  · rintro ⟨positive, inside, after, before⟩
    obtain ⟨b, member, first⟩ := inside (mem_span.mpr ⟨le_rfl, Nat.lt_add_of_pos_right positive⟩)
    rw [mem_span] at first
    have begins : b.1 = a.1 := by
      by_contra differ
      exact before (a.1 - 1) (by omega) ⟨b, member, mem_span.mpr ⟨by omega, by omega⟩⟩
    have ends : b.2 = a.2 := by
      by_contra differ
      rcases Nat.lt_or_gt_of_ne differ with short | long
      · exact separated.end_not_mem member (inside (mem_span.mpr ⟨by omega, by omega⟩))
      · exact after ⟨b, member, mem_span.mpr ⟨by omega, by omega⟩⟩
    rwa [← Prod.ext begins ends]

theorem Separated.nodup (separated : Separated l) : l.Nodup := by
  refine separated.apart.imp ?_
  rintro a _ order rfl
  omega

/-- **A set has one list.** -/
theorem Separated.eq_of_cover (left : Separated l) (right : Separated r) (same : cover l = cover r) :
    l = r := by
  have members : ∀ a, a ∈ l ↔ a ∈ r := fun a => by rw [left.mem_iff, right.mem_iff, same]
  have perm := (List.perm_ext_iff_of_nodup left.nodup right.nodup).mpr members
  refine perm.eq_of_pairwise ?_ left.apart right.apart
  intro a b _ _ first second
  omega

/-- The first numbers of the runs of a set. -/
def starts (s : Set ℕ) : Set ℕ := {y | y ∈ s ∧ ∀ z, z + 1 = y → z ∉ s}

/-- A run of the set starts where one of the intervals does. -/
theorem starts_subset (l : List (ℕ × ℕ)) : starts (cover l) ⊆ ↑(l.map Prod.fst).toFinset := by
  rintro y ⟨⟨a, member, inside⟩, before⟩
  rw [mem_span] at inside
  rw [List.coe_toFinset]
  refine List.mem_map.mpr ⟨a, member, ?_⟩
  by_contra differ
  exact before (y - 1) (by omega) ⟨a, member, mem_span.mpr ⟨by omega, by omega⟩⟩

/-- **As many intervals as runs.** -/
theorem Separated.ncard_starts (separated : Separated l) : (starts (cover l)).ncard = l.length := by
  have same : starts (cover l) = ↑(l.map Prod.fst).toFinset := by
    refine (starts_subset l).antisymm fun y first => ?_
    rw [List.coe_toFinset] at first
    obtain ⟨a, member, rfl⟩ := List.mem_map.mp first
    obtain ⟨positive, inside, -, before⟩ := separated.mem_iff.mp member
    exact ⟨inside (mem_span.mpr ⟨le_rfl, Nat.lt_add_of_pos_right positive⟩), before⟩
  have nodup : (l.map Prod.fst).Nodup := by
    refine List.pairwise_map.mpr (separated.apart.imp fun order => ?_)
    omega
  rw [same, Set.ncard_coe_finset, List.toFinset_card_of_nodup nodup, List.length_map]

/-- Any list has at least as many intervals as its set has runs. -/
theorem ncard_starts_le (l : List (ℕ × ℕ)) : (starts (cover l)).ncard ≤ l.length :=
  calc (starts (cover l)).ncard ≤ (↑(l.map Prod.fst).toFinset : Set ℕ).ncard :=
        Set.ncard_le_ncard (starts_subset l) (Finset.finite_toSet _)
    _ = (l.map Prod.fst).toFinset.card := Set.ncard_coe_finset _
    _ ≤ (l.map Prod.fst).length := List.toFinset_card_le _
    _ = l.length := List.length_map _

/-- No number in two of the intervals. -/
def Distinct (l : List (ℕ × ℕ)) : Prop :=
  l.Pairwise fun a b => a.1 + a.2 ≤ b.1 ∨ b.1 + b.2 ≤ a.1

instance (l : List (ℕ × ℕ)) : Decidable (Distinct l) := inferInstanceAs (Decidable (l.Pairwise _))

theorem Distinct.perm (distinct : Distinct l) (perm : l.Perm r) : Distinct r :=
  (perm.pairwise_iff fun apart => apart.symm).mp distinct

theorem Distinct.disjoint (distinct : Distinct (a :: l)) : Disjoint (span a.1 a.2) (cover l) := by
  rw [Set.disjoint_left]
  rintro y inside ⟨b, member, within⟩
  rw [mem_span] at inside within
  rcases (List.pairwise_cons.mp distinct).1 b member with order | order <;> omega

theorem finite_cover (l : List (ℕ × ℕ)) : (cover l).Finite := by
  induction l with
  | nil => exact Set.finite_empty.subset fun y ⟨_, member, _⟩ => absurd member (by simp)
  | cons a l ih =>
    rw [cover_cons]
    exact (Set.finite_Ico a.1 (a.1 + a.2)).union ih

/-- **As many numbers as the lengths say.** -/
theorem Distinct.ncard_cover (distinct : Distinct l) : (cover l).ncard = (l.map Prod.snd).sum := by
  induction l with
  | nil => simp [cover]
  | cons a l ih =>
    have one : (span a.1 a.2).ncard = a.2 := by
      rw [span, ← Finset.coe_Ico, Set.ncard_coe_finset, Nat.card_Ico]
      omega
    rw [cover_cons, Set.ncard_union_eq distinct.disjoint (Set.finite_Ico _ _) (finite_cover l), one,
      ih (List.pairwise_cons.mp distinct).2, List.map_cons, List.sum_cons]

/-! ### First fit -/

theorem Separated.mem_fits (separated : Separated l) {size base : ℕ} :
    base ∈ fits (cover l) size ↔ ∃ a ∈ l, base ∈ span a.1 a.2 ∧ base + size ≤ a.1 + a.2 := by
  constructor
  · rintro ⟨⟨a, member, inside⟩, all⟩
    refine ⟨a, member, inside, ?_⟩
    rw [mem_span] at inside
    by_contra long
    exact separated.end_not_mem member (all (mem_span.mpr ⟨by omega, by omega⟩))
  · rintro ⟨a, member, inside, short⟩
    refine ⟨⟨a, member, inside⟩, fun y within => ⟨a, member, ?_⟩⟩
    rw [mem_span] at inside within ⊢
    omega

theorem take_eq_none {size : ℕ} : take size l = none ↔ ∀ a ∈ l, a.2 < size := by
  induction l with
  | nil => simp [take]
  | cons a l ih =>
    rw [take, List.forall_mem_cons, ← ih]
    split
    · simp_all
    · simp_all

/-- What is left of an interval. -/
def remains (size : ℕ) (a : ℕ × ℕ) : List (ℕ × ℕ) :=
  if a.2 - size = 0 then [] else [(a.1 + size, a.2 - size)]

theorem take_append {size : ℕ} (short : ∀ b ∈ l, b.2 < size) (long : size ≤ a.2) :
    take size (l ++ a :: r) = some (a.1, l ++ remains size a ++ r) := by
  induction l with
  | nil =>
    rw [List.nil_append, take, if_pos long, remains]
    split <;> rfl
  | cons b l ih =>
    obtain ⟨first, rest⟩ := List.forall_mem_cons.mp short
    rw [List.cons_append, take, if_neg (by omega), ih rest]
    rfl

theorem exists_of_take {size base : ℕ} {rest : List (ℕ × ℕ)} (took : take size l = some (base, rest)) :
    ∃ front a back, l = front ++ a :: back ∧ (∀ b ∈ front, b.2 < size) ∧ size ≤ a.2 ∧ base = a.1 ∧
      rest = front ++ remains size a ++ back := by
  induction l generalizing rest with
  | nil => cases took
  | cons a l ih =>
    rw [take] at took
    split at took
    · rename_i long
      have plain := take_append (r := l) (l := []) (by simp) long
      rw [List.nil_append, take, if_pos long, took] at plain
      cases plain
      exact ⟨[], a, l, rfl, by simp, long, rfl, rfl⟩
    · rename_i short
      obtain ⟨⟨base', rest'⟩, took', same⟩ := Option.map_eq_some_iff.mp took
      cases same
      obtain ⟨front, b, back, rfl, shorts, long, rfl, rfl⟩ := ih took'
      exact ⟨a :: front, b, back, rfl, List.forall_mem_cons.mpr ⟨by omega, shorts⟩, long, rfl, rfl⟩

theorem separated_append : Separated (l ++ r) ↔
    Separated l ∧ Separated r ∧ ∀ a ∈ l, ∀ b ∈ r, a.1 + a.2 < b.1 := by
  constructor
  · rintro ⟨positive, apart⟩
    obtain ⟨left, right, across⟩ := List.pairwise_append.mp apart
    obtain ⟨before, behind⟩ := List.forall_mem_append.mp positive
    exact ⟨⟨before, left⟩, ⟨behind, right⟩, across⟩
  · rintro ⟨⟨before, left⟩, ⟨behind, right⟩, across⟩
    exact ⟨List.forall_mem_append.mpr ⟨before, behind⟩, List.pairwise_append.mpr ⟨left, right, across⟩⟩

theorem mem_remains {size : ℕ} (long : size ≤ a.2) (y : ℕ) :
    y ∈ cover (remains size a) ↔ y ∈ span a.1 a.2 ∧ y ∉ span a.1 size := by
  unfold remains
  split
  · have nothing : y ∉ cover [] := by simp [cover]
    simp only [nothing, false_iff, mem_span]
    omega
  · have only : y ∈ cover [(a.1 + size, a.2 - size)] ↔ y ∈ span (a.1 + size) (a.2 - size) := by
      simp [cover]
    simp only [only, mem_span]
    omega

theorem Separated.remains (separated : Separated (l ++ a :: r)) (size : ℕ) :
    Separated (l ++ Intervals.remains size a ++ r) := by
  obtain ⟨left, right, across⟩ := separated_append.mp separated
  obtain ⟨positive, behind, rest⟩ := separated_cons.mp right
  rw [List.append_assoc]
  unfold Intervals.remains
  split
  · exact separated_append.mpr ⟨left, rest, fun b before c after =>
      across b before c (List.mem_cons_of_mem a after)⟩
  · rename_i more
    have here : 0 < a.2 - size := by omega
    have short : ∀ b ∈ r, a.1 + size + (a.2 - size) < b.1 := fun b after => by
      have gap := behind b after
      omega
    refine separated_append.mpr ⟨left, separated_cons.mpr ⟨here, short, rest⟩, fun b before => ?_⟩
    refine List.forall_mem_cons.mpr ⟨?_, fun c after => across b before c (.tail _ after)⟩
    have gap := across b before a List.mem_cons_self
    show b.1 + b.2 < a.1 + size
    omega

/-- **First fit takes the block at the lowest address.** -/
theorem Separated.take_some (separated : Separated l) {size base : ℕ} {rest : List (ℕ × ℕ)}
    (took : take size l = some (base, rest)) :
    IsLeast (fits (cover l) size) base ∧ cover rest = cover l \ span base size ∧
      Separated rest := by
  obtain ⟨front, a, back, rfl, shorts, long, rfl, rfl⟩ := exists_of_take took
  obtain ⟨left, right, across⟩ := separated_append.mp separated
  obtain ⟨positive, behind, -⟩ := separated_cons.mp right
  have member : a ∈ front ++ a :: back := by simp
  refine ⟨⟨?_, ?_⟩, ?_, separated.remains size⟩
  · exact separated.mem_fits.mpr ⟨a, member, mem_span.mpr ⟨le_rfl, by omega⟩, by omega⟩
  · intro other fit
    obtain ⟨b, found, inside, within⟩ := separated.mem_fits.mp fit
    rw [mem_span] at inside
    rcases List.mem_append.mp found with before | after
    · have short := shorts b before
      omega
    · rcases List.mem_cons.mp after with rfl | after
      · exact inside.1
      · have gap := behind b after
        omega
  · ext y
    have outside : y ∈ cover front ∨ y ∈ cover back → y ∉ span a.1 size := by
      rintro (⟨b, before, inside⟩ | ⟨b, after, inside⟩) <;> rw [mem_span] at inside ⊢
      · have gap := across b before a List.mem_cons_self
        omega
      · have gap := behind b after
        omega
    simp only [cover_append, cover_cons, Set.mem_union, Set.mem_sdiff, mem_remains long]
    tauto

theorem Separated.take_none (separated : Separated l) {size : ℕ} (took : take size l = none) :
    fits (cover l) size = ∅ := by
  refine Set.eq_empty_iff_forall_notMem.mpr fun base fit => ?_
  obtain ⟨a, member, inside, within⟩ := separated.mem_fits.mp fit
  have short := take_eq_none.mp took a member
  rw [mem_span] at inside
  omega

end Intervals
