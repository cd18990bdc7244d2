/-
**`minix.c`: the memory over whole runs.**

The table of holes is a region of clicks (`Runs.Region`): what a run of calls returns is what the
region returns.

* `Match m free` — the holes are the maximal runs of the set of free clicks.
* `Match.allocMem`, `Match.freeMem` — one call: the block at the lowest address at which it fits, or
  none; the clicks given back, or a panic.
* `memInit_holes` — `mem_init`, with the number of free clicks it reports.
* `holes_refine` — **every run of calls is a run of the region.**
* `table_full_iff` — the only panic, exactly if there are as many runs of free clicks as slots.
* `allocMem_le_maxHole` — what `max_hole` returns is the largest request that succeeds.
* `allocMem_freeMem` — a block taken and given back leaves the holes as they were.
* `holes_below` — the holes end where the memory ends, so that no sum of `phys_clicks` wraps.
-/

import SistemasOperacionais.Minix.Holes
import SistemasOperacionais.Runs.Refine
import Mathlib.Data.List.FinRange

namespace Minix

open SinglyLinked Intervals Region Transition

variable {n : ℕ} {m m' : Memory n} {used slots : List (Fin n)} {free : Set ℕ}

/-! ### The holes as they are read -/

theorem walk_eq (fuel : ℕ) {node : Option (Fin n)} {l : List (Fin n)}
    (path : Path (holeLink m) node l) (enough : l.length ≤ fuel) :
    walk m fuel (holeLink m node) = blocks m l := by
  induction fuel generalizing node l with
  | zero =>
    rw [List.length_eq_zero_iff.mp (Nat.le_zero.mp enough)]
    rfl
  | succ fuel ih =>
    cases l with
    | nil =>
      rw [show holeLink m node = none from path]
      rfl
    | cons x l =>
      rw [path.1, walk]
      exact congrArg _ (ih path.2 (Nat.le_of_succ_le_succ enough))

theorem Holds.holes_eq (holds : Holds m used slots) : holes m = blocks m used :=
  walk_eq n holds.inUse.path (by have := holds.all; omega)

/-- The list of the unused slots when all are. -/
theorem path_clear (k : ℕ) (few : k ≤ n) (node : Option (Fin n))
    (link : slotLink (clear n) node = ((List.finRange n).drop (n - k)).head?) :
    Path (slotLink (clear n)) node ((List.finRange n).drop (n - k)) := by
  induction k generalizing node with
  | zero =>
    have nothing : (List.finRange n).drop (n - 0) = [] := by simp
    rw [nothing] at link ⊢
    exact link
  | succ k ih =>
    have inside : n - (k + 1) < (List.finRange n).length := by
      rw [List.length_finRange]
      omega
    have split := List.drop_eq_getElem_cons inside
    have up : n - (k + 1) + 1 = n - k := by omega
    rw [up, List.getElem_finRange] at split
    rw [split] at link ⊢
    refine ⟨link, ih (by omega) _ ?_⟩
    rw [List.head?_drop]
    show (if inside : n - (k + 1) + 1 < n then some (⟨n - (k + 1) + 1, inside⟩ : Fin n) else none) = _
    by_cases more : n - k < n
    · have there : n - k < (List.finRange n).length := by rwa [List.length_finRange]
      rw [dif_pos (by omega), List.getElem?_eq_getElem there, List.getElem_finRange]
      exact congrArg some (Fin.ext up)
    · rw [dif_neg (by omega), List.getElem?_eq_none (by rw [List.length_finRange]; omega)]

theorem holds_clear (n : ℕ) : Holds (clear n) [] (List.finRange n) := by
  refine ⟨⟨rfl, List.nodup_nil⟩, ⟨?_, List.nodup_finRange n⟩, by simp, by simp⟩
  have path := path_clear n le_rfl (none : Option (Fin n))
  rw [Nat.sub_self, List.drop_zero] at path
  refine path ?_
  show (if inside : 0 < n then some (⟨0, inside⟩ : Fin n) else none) = _
  cases n with
  | zero => rfl
  | succ n => rw [dif_pos n.succ_pos, List.finRange_succ, List.head?_cons]; rfl

/-! ### One call -/

/-- **The holes are the maximal runs of the free clicks.** -/
structure Match (m : Memory n) (free : Set ℕ) : Prop where
  lists : ∃ used slots, Holds m used slots
  separated : Separated (holes m)
  cover : cover (holes m) = free

theorem match_of_holds (holds : Holds m used slots) (separated : Separated (blocks m used)) :
    Match m (Intervals.cover (blocks m used)) := by
  rw [← holds.holes_eq] at separated ⊢
  exact ⟨⟨used, slots, holds⟩, separated, rfl⟩

/-- **`alloc_mem` takes the block at the lowest address at which it fits**, if there is one. -/
theorem Match.allocMem (related : Match m free) (clicks : ℕ) :
    (∃ base m', allocMem m clicks = .ok (some base, m') ∧ IsLeast (fits free clicks) base ∧
        Match m' (free \ span base clicks)) ∨
      ∃ m', allocMem m clicks = .ok (none, m') ∧ fits free clicks = ∅ ∧ Match m' free := by
  obtain ⟨⟨used, slots, holds⟩, separated, rfl⟩ := related
  rw [holds.holes_eq] at separated ⊢
  obtain ⟨m', used', slots', called, holds', same⟩ := holds.allocMem clicks
  cases took : take clicks (blocks m used) with
  | none =>
    rw [took] at called same
    have after := match_of_holds holds' (by rw [same]; exact separated)
    rw [same] at after
    exact .inr ⟨m', called, separated.take_none took, after⟩
  | some taken =>
    obtain ⟨base, rest⟩ := taken
    rw [took] at called same
    obtain ⟨least, covers, separated'⟩ := separated.take_some took
    have after := match_of_holds holds' (by rw [same]; exact separated')
    rw [same] at after
    exact .inl ⟨base, m', called, least, covers ▸ after⟩

/-- A caller frees only clicks that are not free. -/
theorem Match.allocated_iff (related : Match m free) {base clicks : ℕ} :
    Allocated m (.freeMem base clicks) ↔ Disjoint free (span base clicks) := by
  rw [← related.cover]
  constructor
  · intro allocated
    rw [Set.disjoint_left]
    rintro y ⟨h, member, inside⟩ within
    rw [mem_span] at inside within
    rcases allocated with none | apart
    · omega
    · have away := apart h member
      omega
  · intro disjoint
    rcases Nat.eq_zero_or_pos clicks with none | positive
    · exact .inl none
    refine .inr fun h member => ?_
    have inside : span h.1 h.2 ⊆ Intervals.cover (holes m) := fun y inside => ⟨h, member, inside⟩
    have apart := disjoint.mono_left inside
    have here := related.separated.positive h member
    rcases Nat.le_total base h.1 with order | order
    · exact .inl (end_le_of_disjoint (a := (base, clicks)) here order apart.symm)
    · exact .inr (end_le_of_disjoint (b := (base, clicks)) positive order apart)

/-- The number of holes is the number of runs of free clicks. -/
theorem Match.length_holes (related : Match m free) : (holes m).length = (starts free).ncard := by
  rw [← related.cover, related.separated.ncard_starts]

/-- **`free_mem` gives the clicks back**, or panics because every slot holds a hole. -/
theorem Match.freeMem (related : Match m free) {base clicks : ℕ}
    (allocated : Allocated m (.freeMem base clicks)) :
    (clicks ≠ 0 ∧ (starts free).ncard = n ∧ freeMem m base clicks = .error .holeTableFull) ∨
      (clicks = 0 ∨ (starts free).ncard < n) ∧
        ∃ m', freeMem m base clicks = .ok m' ∧ Match m' (free ∪ span base clicks) := by
  have disjoint := related.allocated_iff.mp allocated
  by_cases positive : clicks = 0
  · subst positive
    have nothing : free ∪ span base 0 = free := by
      rw [span, Nat.add_zero, Set.Ico_self, Set.union_empty]
    rw [nothing]
    exact .inr ⟨.inl rfl, m, if_pos rfl, related⟩
  · have count := related.length_holes
    obtain ⟨⟨used, slots, holds⟩, separated, rfl⟩ := related
    have all := holds.all
    rw [holds.holes_eq] at separated disjoint count ⊢
    rw [← count, blocks, List.length_map]
    rcases holds.freeMem separated base positive with ⟨rfl, full⟩ | ⟨more, freed⟩
    · exact .inl ⟨positive, by simpa using all, full⟩
    · obtain ⟨m', used', slots', called, holds', same⟩ := freed
      have separated' := separated.insert (x := (base, clicks)) (by show 0 < clicks; omega) disjoint
      have after := match_of_holds holds' (by rw [same]; exact separated')
      rw [same, cover_insert] at after
      have room := List.length_pos_iff.mpr more
      exact .inr ⟨.inr (by omega), m', called, after⟩

/-! ### Runs -/

/-- What a call returns. -/
def seen (m : Memory n) : Label → Option Event
  | .allocMem clicks =>
      match allocMem m clicks with
      | .ok (some base, _) => some (.takes clicks base)
      | .ok (none, _) => some (.refused clicks)
      | .error _ => none
  | .freeMem base clicks => some (.gives base clicks)

/-- **One call is a move of the region.** -/
theorem Match.step (related : Match m free) (label : Label) (allocated : Allocated m label)
    (called : next m label = some m') :
    ∃ event free', seen m label = some event ∧ Region.next free event = some free' ∧
      Match m' free' := by
  cases label with
  | allocMem clicks =>
    rcases related.allocMem clicks with ⟨base, after, ran, least, related'⟩ | ⟨after, ran, none, related'⟩
    · simp only [Minix.next, ran, Except.toOption, Option.map_some, Option.some.injEq] at called
      subst called
      exact ⟨.takes clicks base, _, by simp only [seen, ran], if_pos least, related'⟩
    · simp only [Minix.next, ran, Except.toOption, Option.map_some, Option.some.injEq] at called
      subst called
      exact ⟨.refused clicks, _, by simp only [seen, ran], if_pos none, related'⟩
  | freeMem base clicks =>
    have disjoint := related.allocated_iff.mp allocated
    rcases related.freeMem allocated with ⟨-, -, full⟩ | ⟨-, after, ran, related'⟩
    · simp [Minix.next, full, Except.toOption] at called
    · simp only [Minix.next, ran, Except.toOption, Option.some.injEq] at called
      subst called
      exact ⟨.gives base clicks, _, rfl, if_pos disjoint, related'⟩

theorem simulates : Simulates (next (n := n)) Allocated seen Region.next some Match := by
  intro before label after free related allocated called
  obtain ⟨event, free', shows, moved, related'⟩ := related.step label allocated called
  exact ⟨[event], free', by rw [execute, moved]; rfl, related', by rw [shows]; rfl⟩

/-! ### `mem_init` -/

/-- The pieces of memory that the kernel reports. -/
def pieces (replies : List Reply) : List (ℕ × ℕ) :=
  (replies.takeWhile fun reply => reply.size ≠ 0).map fun reply => (reply.base, reply.size)

theorem pieces_cons {reply : Reply} (replies : List Reply) (more : reply.size ≠ 0) :
    pieces (reply :: replies) = (reply.base, reply.size) :: pieces replies := by
  simp [pieces, more]

/-- The loop of `mem_init`, after the pieces `done`. -/
theorem initLoop_spec (replies : List Reply) (total : Option ℕ) (count : ℕ) {done : List (ℕ × ℕ)}
    (related : Match m (cover done)) (distinct : Distinct (pieces replies ++ done))
    (few : (pieces replies ++ done).length ≤ n) (ends : ∃ reply ∈ replies, reply.size = 0) :
    ∃ m' total', initLoop replies m total count =
        .ok (m', total', count + ((pieces replies).map Prod.snd).sum) ∧
      Match m' (cover (pieces replies ++ done)) := by
  induction replies generalizing m total count done with
  | nil =>
    obtain ⟨_, member, -⟩ := ends
    cases member
  | cons reply replies ih =>
    rw [initLoop]
    by_cases last : reply.size = 0
    · have none : pieces (reply :: replies) = [] := by simp [pieces, last]
      rw [none, if_pos last]
      exact ⟨m, total, rfl, related⟩
    · rw [if_neg last]
      rw [pieces_cons replies last] at distinct few ⊢
      rw [List.cons_append] at distinct few ⊢
      have moved : List.Perm (pieces replies ++ (reply.base, reply.size) :: done)
          ((reply.base, reply.size) :: (pieces replies ++ done)) := List.perm_middle
      have rest : Distinct ((reply.base, reply.size) :: done) :=
        distinct.sublist ((List.sublist_append_right ..).cons_cons _)
      have allocated := related.allocated_iff.mpr rest.disjoint.symm
      have room : (starts (cover done)).ncard < n := by
        have count := ncard_starts_le done
        simp only [List.length_cons, List.length_append] at few
        omega
      rcases related.freeMem allocated with ⟨-, full, -⟩ | ⟨-, m₁, freed, related₁⟩
      · omega
      have joined : cover done ∪ span reply.base reply.size =
          cover ((reply.base, reply.size) :: done) := by rw [cover_cons, Set.union_comm]
      rw [joined] at related₁
      obtain ⟨m', total', ran, related'⟩ := ih (some reply.total) (count + reply.size) related₁
        (distinct.perm moved.symm) (by rw [moved.length_eq]; exact few) (by
          obtain ⟨zero, member, none⟩ := ends
          rcases List.mem_cons.mp member with rfl | member
          · exact absurd none last
          · exact ⟨zero, member, none⟩)
      rw [cover_perm moved] at related'
      refine ⟨m', total', ?_, related'⟩
      rw [freed, List.map_cons, List.sum_cons, ← Nat.add_assoc]
      exact ran

theorem exists_memInit (replies : List Reply) (distinct : Distinct (pieces replies))
    (few : (pieces replies).length ≤ n) (ends : ∃ reply ∈ replies, reply.size = 0) :
    ∃ (m : Memory n) (total : Option ℕ), memInit n replies =
        .ok (m, total, ((pieces replies).map Prod.snd).sum) ∧ Match m (cover (pieces replies)) := by
  have first : Match (clear n) (cover []) :=
    match_of_holds (holds_clear n) ⟨by simp [blocks], List.Pairwise.nil⟩
  have plain : pieces replies ++ [] = pieces replies := List.append_nil _
  obtain ⟨m, total, ran, related⟩ := initLoop_spec replies none 0 first (plain.symm ▸ distinct)
    (plain.symm ▸ few) ends
  rw [plain] at related
  rw [Nat.zero_add] at ran
  exact ⟨m, total, ran, related⟩

/-- **`mem_init`** leaves the pieces that the kernel reports as holes, and returns their size: if
they are no more than the slots and no click is reported twice, it does not panic. -/
theorem memInit_holes (replies : List Reply) (distinct : Distinct (pieces replies))
    (few : (pieces replies).length ≤ n) (ends : ∃ reply ∈ replies, reply.size = 0) :
    ∃ (m : Memory n) (total : Option ℕ), memInit n replies =
        .ok (m, total, (cover (holes m)).ncard) ∧
      Separated (holes m) ∧ cover (holes m) = cover (pieces replies) := by
  obtain ⟨m, total, ran, related⟩ := exists_memInit replies distinct few ends
  rw [← distinct.ncard_cover, ← related.cover] at ran
  exact ⟨m, total, ran, related.separated, related.cover⟩

theorem memInit_holes_two : ∃ (m : Memory 4) (total : Option ℕ),
    memInit 4 [⟨8, 4, 16⟩, ⟨0, 4, 16⟩, ⟨0, 0, 0⟩] = .ok (m, total, (cover (holes m)).ncard) ∧
      Separated (holes m) ∧ cover (holes m) = cover [(8, 4), (0, 4)] :=
  memInit_holes [⟨8, 4, 16⟩, ⟨0, 4, 16⟩, ⟨0, 0, 0⟩] (by decide) (by decide) ⟨⟨0, 0, 0⟩, by simp, rfl⟩

/-! ### What holds over every run -/

/-- **Every run of calls is a run of the region**: a request is given the block at the lowest
address at which it fits, and refused only if there is none; the holes left are the maximal runs of
the clicks that are free. -/
theorem holes_refine (replies : List Reply) (distinct : Distinct (pieces replies))
    (few : (pieces replies).length ≤ n) (ends : ∃ reply ∈ replies, reply.size = 0) :
    ∃ (start : Memory n) (total : Option ℕ) (count : ℕ),
      memInit n replies = .ok (start, total, count) ∧
      ∀ events state, Trace next Allocated seen start events state →
        ∃ free, execute Region.next (cover (pieces replies)) events = some free ∧
          Separated (holes state) ∧ cover (holes state) = free := by
  obtain ⟨start, total, ran, first⟩ := exists_memInit replies distinct few ends
  refine ⟨start, total, _, ran, fun events state trace => ?_⟩
  obtain ⟨moves, free, executed, related, shows⟩ := simulates.trace first trace
  rw [List.filterMap_some] at shows
  rw [shows] at executed
  exact ⟨free, executed, related.separated, related.cover⟩

/-- A block taken from the front of one of two pieces, and a piece of it given back. -/
theorem holes_refine_two_pieces : ∃ events free, execute Region.next (cover [(8, 4), (0, 4)]) events =
    some free ∧ cover [(0, 1), (2, 2), (8, 4)] = free := by
  obtain ⟨start, total, count, ran, all⟩ := holes_refine (n := 4)
    [⟨8, 4, 16⟩, ⟨0, 4, 16⟩, ⟨0, 0, 0⟩] (by decide) (by decide) ⟨⟨0, 0, 0⟩, by simp, rfl⟩
  have value : start = ((memInit 4 [⟨8, 4, 16⟩, ⟨0, 4, 16⟩, ⟨0, 0, 0⟩]).toOption.map Prod.fst).getD
      (clear 4) := by
    rw [ran]
    rfl
  have run : ∃ events state, Trace next Allocated seen start events state ∧
      holes state = [(0, 1), (2, 2), (8, 4)] := by
    rw [value]
    exact exists_trace_of_execute [.allocMem 2, .freeMem 0 1] _ (by decide +kernel)
  obtain ⟨events, state, trace, left⟩ := run
  obtain ⟨free, executed, -, covers⟩ := all events state trace
  exact ⟨events, free, executed, left ▸ covers⟩

/-- **A memory after `mem_init` and some calls.** -/
structure Reached (m : Memory n) : Prop where
  run : ∃ replies start total count, Distinct (pieces replies) ∧ (pieces replies).length ≤ n ∧
    memInit n replies = .ok (start, total, count) ∧ Reach next Allocated start m

theorem ends_of_initLoop (replies : List Reply) {total : Option ℕ} {count : ℕ}
    {result : Memory n × Option ℕ × ℕ} (ran : initLoop replies m total count = .ok result) :
    ∃ reply ∈ replies, reply.size = 0 := by
  induction replies generalizing m total count with
  | nil => cases ran
  | cons reply replies ih =>
    rw [initLoop] at ran
    split at ran
    · rename_i last
      exact ⟨reply, List.mem_cons_self, last⟩
    · cases freed : freeMem m reply.base reply.size with
      | error stop =>
        rw [freed] at ran
        cases ran
      | ok m₁ =>
        rw [freed] at ran
        obtain ⟨zero, member, none⟩ := ih ran
        exact ⟨zero, List.mem_cons_of_mem reply member, none⟩

theorem Reached.related (reached : Reached m) : Match m (cover (holes m)) := by
  obtain ⟨replies, start, total, count, distinct, few, ran, reach⟩ := reached
  obtain ⟨start', total', ran', first⟩ :=
    exists_memInit replies distinct few (ends_of_initLoop replies ran)
  rw [ran] at ran'
  cases ran'
  obtain ⟨free, related⟩ := simulates.reach first reach
  exact ⟨related.lists, related.separated, rfl⟩

/-- The memory that `mem_init` leaves after one piece of four clicks, and some calls. -/
theorem exists_reached (positive : 0 < n) (labels : List Label) (test : Memory n → Prop)
    [DecidablePred test]
    (run : (execute (guarded next Allocated)
      (((memInit n [⟨0, 4, 4⟩, ⟨0, 0, 0⟩]).toOption.map Prod.fst).getD (clear n)) labels).any
        (fun m => decide (test m)) = true) : ∃ m : Memory n, Reached m ∧ test m := by
  obtain ⟨start, total, ran, -⟩ := exists_memInit (n := n) [⟨0, 4, 4⟩, ⟨0, 0, 0⟩] (by decide) positive
    ⟨⟨0, 0, 0⟩, by simp, rfl⟩
  rw [ran] at run
  obtain ⟨m, reach, tested⟩ := exists_reach_of_execute labels test run
  have one : (pieces [⟨0, 4, 4⟩, ⟨0, 0, 0⟩]).length ≤ n := positive
  exact ⟨m, ⟨_, _, _, _, by decide, one, ran, reach⟩, tested⟩

/-- **The only panic of `free_mem`**: every slot holds a hole. Nothing undefined happens. -/
theorem table_full_iff (reached : Reached m) {base clicks : ℕ}
    (allocated : Allocated m (.freeMem base clicks)) (stop : Stop) :
    freeMem m base clicks = .error stop ↔
      stop = .holeTableFull ∧ clicks ≠ 0 ∧ (holes m).length = n := by
  have related := reached.related
  rw [related.length_holes]
  rcases related.freeMem allocated with ⟨positive, full, ran⟩ | ⟨room, m', ran, -⟩
  · rw [ran]
    constructor
    · rintro ⟨⟩
      exact ⟨rfl, positive, full⟩
    · rintro ⟨rfl, -⟩
      rfl
  · rw [ran]
    constructor
    · rintro ⟨⟩
    · rintro ⟨-, positive, full⟩
      rcases room with none | less
      · exact absurd none positive
      · omega

/-- With two slots and two holes the click between them cannot be given back, although it would leave
one hole. -/
theorem table_full_two_slots : ∃ m : Memory 2, Reached m ∧ holes m = [(0, 1), (2, 2)] ∧
    freeMem m 1 1 = .error .holeTableFull := by
  have run : ∃ m : Memory 2, Reached m ∧ Allocated m (.freeMem 1 1) ∧
      holes m = [(0, 1), (2, 2)] :=
    exists_reached (by decide) [.allocMem 2, .freeMem 0 1] _ (by decide +kernel)
  obtain ⟨m, reached, allocated, full⟩ := run
  refine ⟨m, reached, full, ?_⟩
  exact (table_full_iff reached allocated .holeTableFull).mpr ⟨rfl, by decide, by rw [full]; rfl⟩

/-- A block taken and given back. -/
theorem allocMem_freeMem (reached : Reached m) {base clicks : ℕ}
    (took : allocMem m clicks = .ok (some base, m')) (room : (holes m').length < n) :
    ∃ m'', freeMem m' base clicks = .ok m'' ∧ holes m'' = holes m := by
  have related := reached.related
  rcases related.allocMem clicks with ⟨base', m₁, ran, least, related₁⟩ | ⟨m₁, ran, -⟩
  · rw [ran] at took
    cases took
    have allocated := related₁.allocated_iff.mpr Set.disjoint_sdiff_left
    rcases related₁.freeMem allocated with ⟨-, full, -⟩ | ⟨-, m'', freed, related₂⟩
    · rw [related₁.length_holes] at room
      omega
    · rw [Set.sdiff_union_of_subset least.1.2] at related₂
      exact ⟨m'', freed, related₂.separated.eq_of_cover related.separated related₂.cover⟩
  · rw [ran] at took
    cases took

theorem allocMem_freeMem_two_slots : ∃ m m' m'' : Memory 2, Reached m ∧
    allocMem m 1 = .ok (some 2, m') ∧ freeMem m' 2 1 = .ok m'' ∧ holes m'' = holes m := by
  have run : ∃ m : Memory 2, Reached m ∧
      (allocMem m 1).toOption.map (fun r => (r.1, (holes r.2).length)) = some (some 2, 1) :=
    exists_reached (by decide) [.allocMem 2] _ (by decide +kernel)
  obtain ⟨m, reached, took⟩ := run
  obtain ⟨⟨base, m'⟩, result, same⟩ := Option.map_eq_some_iff.mp took
  obtain ⟨rfl, one⟩ := Prod.mk.inj same
  have called : allocMem m 1 = .ok (some 2, m') := by
    cases ran : allocMem m 1 with
    | error stop =>
      rw [ran] at result
      cases result
    | ok r =>
      rw [ran] at result
      cases result
      rfl
  obtain ⟨m'', freed, back⟩ := allocMem_freeMem reached called (by rw [one]; decide)
  exact ⟨m, m', m'', reached, called, freed, back⟩

/-! ### Addresses in range -/

/-- The call gives back memory that ends at `limit` at most. -/
def Below (limit : ℕ) : Label → Prop
  | .allocMem _ => True
  | .freeMem base clicks => base + clicks ≤ limit

theorem seen_below {limit : ℕ} {label : Label} {event : Event} (below : Below limit label)
    (shows : seen m label = some event) : event.Below limit := by
  cases label with
  | allocMem clicks =>
    simp only [seen] at shows
    split at shows <;> cases shows <;> trivial
  | freeMem base clicks =>
    cases shows
    exact below

/-- **No sum of the code leaves the range of `phys_clicks`**: if the pieces of memory end at `limit`
at most, and so does what the callers give back, then so does every hole. -/
theorem holes_below {limit : ℕ} {replies : List Reply} (distinct : Distinct (pieces replies))
    (few : (pieces replies).length ≤ n) (inside : ∀ h ∈ pieces replies, h.1 + h.2 ≤ limit)
    {start : Memory n} {total : Option ℕ} {count : ℕ}
    (ran : memInit n replies = .ok (start, total, count))
    (reach : Reach next (fun m label => Allocated m label ∧ Below limit label) start m) :
    ∀ h ∈ holes m, h.1 + h.2 ≤ limit := by
  obtain ⟨start', total', ran', first⟩ :=
    exists_memInit replies distinct few (ends_of_initLoop replies ran)
  rw [ran] at ran'
  cases ran'
  have initial : cover (pieces replies) ⊆ Set.Iio limit := by
    rintro address ⟨h, member, within⟩
    exact Nat.lt_of_lt_of_le (mem_span.mp within).2 (inside h member)
  obtain ⟨free, related, below⟩ : ∃ free, Match m free ∧ free ⊆ Set.Iio limit := by
    refine reach.invariant (fun m => ∃ free, Match m free ∧ free ⊆ Set.Iio limit)
      ⟨_, first, initial⟩ ?_
    rintro before label after ⟨free, related, below⟩ ⟨allocated, ends⟩ called
    obtain ⟨event, free', shows, moved, related'⟩ := related.step label allocated called
    exact ⟨free', related', next_subset (seen_below ends shows) below moved⟩
  intro h member
  have positive := related.separated.positive h member
  -- the last click of the hole is free
  have last : h.1 + h.2 - 1 ∈ free := by
    rw [← related.cover]
    exact ⟨h, member, mem_span.mpr (by omega)⟩
  have less := Set.mem_Iio.mp (below last)
  omega

/-! ### `max_hole` -/

theorem maxLoop_eq (fuel : ℕ) {node : Option (Fin n)} {l : List (Fin n)} (max : ℕ)
    (path : Path (holeLink m) node l) (enough : l.length < fuel) :
    maxLoop m fuel (holeLink m node) max =
      .ok ((blocks m l).foldl (fun max h => if h.2 > max then h.2 else max) max) := by
  induction fuel generalizing node l max with
  | zero => cases enough
  | succ fuel ih =>
    cases l with
    | nil =>
      rw [show holeLink m node = none from path]
      rfl
    | cons x l =>
      rw [path.1, maxLoop]
      exact ih _ path.2 (Nat.lt_of_succ_lt_succ enough)

theorem le_foldl_max_iff (l : List (ℕ × ℕ)) (max clicks : ℕ) :
    clicks ≤ l.foldl (fun max h => if h.2 > max then h.2 else max) max ↔
      clicks ≤ max ∨ ∃ h ∈ l, clicks ≤ h.2 := by
  induction l generalizing max with
  | nil => simp
  | cons h l ih =>
    rw [List.foldl_cons, ih]
    have here : clicks ≤ (if h.2 > max then h.2 else max) ↔ clicks ≤ max ∨ clicks ≤ h.2 := by
      split <;> omega
    rw [here, List.exists_mem_cons_iff, or_assoc]

/-- **`max_hole` is the largest request that succeeds.** -/
theorem allocMem_le_maxHole (reached : Reached m) :
    ∃ max, maxHole m = .ok max ∧ ∀ clicks,
      (∃ base m', allocMem m clicks = .ok (some base, m')) ↔ holes m ≠ [] ∧ clicks ≤ max := by
  obtain ⟨used, slots, holds⟩ := reached.related.lists
  have few : used.length < n + 1 := by
    have all := holds.all
    omega
  refine ⟨_, maxLoop_eq (n + 1) 0 holds.inUse.path few, fun clicks => ?_⟩
  obtain ⟨m', used', slots', called, -⟩ := holds.allocMem clicks
  have found : (∃ base m', allocMem m clicks = .ok (some base, m')) ↔
      ∃ h ∈ holes m, clicks ≤ h.2 := by
    rw [called, ← holds.holes_eq]
    cases took : take clicks (holes m) with
    | none =>
      have short := take_eq_none.mp took
      constructor
      · rintro ⟨base, m₁, ⟨⟩⟩
      · rintro ⟨h, member, long⟩
        exact absurd (short h member) (by omega)
    | some taken =>
      obtain ⟨front, a, back, split, -, long, -⟩ := exists_of_take took
      exact ⟨fun _ => ⟨a, by rw [split]; simp, long⟩, fun _ => ⟨taken.1, m', rfl⟩⟩
  rw [le_foldl_max_iff, ← holds.holes_eq, found]
  constructor
  · rintro ⟨h, member, long⟩
    exact ⟨List.ne_nil_of_mem member, .inr ⟨h, member, long⟩⟩
  · rintro ⟨some, none | found⟩
    · obtain ⟨h, member⟩ := List.exists_mem_of_ne_nil _ some
      exact ⟨h, member, by omega⟩
    · exact found

theorem allocMem_le_maxHole_two_slots : ∃ m : Memory 2, Reached m ∧
    ∃ base m', allocMem m 2 = .ok (some base, m') := by
  have run : ∃ m : Memory 2, Reached m ∧ holes m ≠ [] ∧ (maxHole m).toOption = some 2 :=
    exists_reached (by decide) [.allocMem 2] _ (by decide +kernel)
  obtain ⟨m, reached, some, max⟩ := run
  obtain ⟨largest, returned, all⟩ := allocMem_le_maxHole reached
  rw [returned] at max
  cases max
  exact ⟨m, reached, (all 2).mpr ⟨some, le_rfl⟩⟩

end Minix
