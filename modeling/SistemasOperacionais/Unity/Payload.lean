/-
**`memory_management_unity.c`: the bytes handed out.**

`meu_aloca` puts the header of a split-off block at `prev_hole + tam - size - hole_size`, one header
below the end of the hole; the hole keeps a `tam` that counts the bytes of the new header. A later
exact fit of the hole then hands out the header of the block behind it.

* `Run`, `next` — a client's run: the memory and the allocations that are live.
* `Safe` — the bytes of every live allocation are inside the arena, off every header on the list,
  and off the bytes of every other live allocation.
* `payload_overlap` — the run: `inicializa_memoria(100)`, `meu_aloca(12)`, `meu_aloca(40)`;
  `split_behind_overlap` — a run in which the first block is spared and one behind it is split.
* `Intact`, `OnlyFirst`, `Spares` — the condition on a request, in terms of the sizes on the list:
  only the first block is split; it is taken whole only if it is alone, and a split leaves it a
  header.
* `Packed`, `Layout` — what such calls keep: behind the first block the blocks fill the arena up to
  the header that the first split leaves unused, and the first one reaches up to the next header.
* `payload_safe` — **every state of every run of calls that meet the condition is safe**, and of the
  requests that split nothing but the first block those that meet it are the ones served safely.
-/

import SistemasOperacionais.Unity.Desaloca

namespace Unity

open Headers Coalesce Transition Wrap

/-! ### Runs of a client -/

/-- The headers in memory and the live allocations, each a pointer with the size asked for. -/
structure Run where
  memory : Memory Hole
  live : List (ℤ × ℤ)

/-- A call; `meu_aloca` carries a bound on the passes of its loop. -/
inductive Call
  | aloca (size : ℤ) (fuel : ℕ)
  | desaloca (p : ℤ)
  deriving DecidableEq, Repr

section

variable (holeSize base n : ℤ)

/-- After `inicializa_memoria(n)`. -/
def inicio : Run := ⟨inicializaMemoria holeSize base n, []⟩

/-- One call: `meu_aloca` of a positive size that an `int` can hold with its header, or
`meu_desaloca` of a live pointer. -/
def next (run : Run) : Call → Option Run
  | .aloca size fuel =>
      if 0 < size ∧ size + holeSize ≤ 2 ^ 31 - 1 then do
        let (result, memory) ← meuAloca holeSize run.memory (some base) fuel size
        match result with
        | none => some ⟨memory, run.live⟩
        | some p => some ⟨memory, run.live ++ [(p, size)]⟩
      else none
  | .desaloca p =>
      if p ∈ run.live.map Prod.fst then do
        let memory ← meuDesaloca holeSize run.memory p
        some ⟨memory, run.live.filter fun allocation => allocation.1 ≠ p⟩
      else none

/-- **The bytes of every live allocation** are inside the arena, off every header on the list and
off the bytes of every other live allocation. -/
structure Safe (run : Run) : Prop where
  inside : ∀ allocation ∈ run.live,
    base ≤ allocation.1 ∧ allocation.1 + allocation.2 ≤ base + n
  headers : ∀ allocation ∈ run.live, ∀ x, OnList Hole.next run.memory (some base) x →
    x + holeSize ≤ allocation.1 ∨ allocation.1 + allocation.2 ≤ x
  payloads : run.live.Pairwise fun one other =>
    one.1 + one.2 ≤ other.1 ∨ other.1 + other.2 ≤ one.1

/-! ### The condition -/

/-- The `tam` of every block on the list, as `imprime` prints them. -/
def tamanhos (memory : Memory Hole) (fuel : ℕ) : Option (List ℤ) :=
  (imprime memory (some base) fuel).map fun headers => headers.map fun header => header.2.tam

/-- **No block is split**: a block larger than the request and a header stands only behind one of
exactly the size, at which the scan stops. -/
def Intact (size : ℤ) : List ℤ → Prop
  | [] => True
  | tam :: tams => tam = size ∨ tam ≤ size + holeSize ∧ Intact size tams

/-- **No block but the first is split.** -/
def OnlyFirst (size : ℤ) : List ℤ → Prop
  | [] => True
  | tam :: tams => size + holeSize < tam ∨ Intact holeSize size (tam :: tams)

/-- **The first block is spared**: it is taken whole only if it is the only one, and split only if it
keeps the size of a header. -/
def Spares (size : ℤ) : List ℤ → Prop
  | [] => True
  | tam :: tams =>
      (tam = size → tams = []) ∧ (size + holeSize < tam → size + 2 * holeSize ≤ tam)

instance decidableIntact (size : ℤ) (tams : List ℤ) : Decidable (Intact holeSize size tams) :=
  match tams with
  | [] => inferInstanceAs (Decidable True)
  | _ :: tams =>
      have := decidableIntact size tams
      inferInstanceAs (Decidable (_ ∨ _ ∧ _))

instance (size : ℤ) (tams : List ℤ) : Decidable (OnlyFirst holeSize size tams) :=
  match tams with
  | [] => inferInstanceAs (Decidable True)
  | _ :: _ => inferInstanceAs (Decidable (_ ∨ _))

instance (size : ℤ) (tams : List ℤ) : Decidable (Spares holeSize size tams) :=
  match tams with
  | [] => inferInstanceAs (Decidable True)
  | _ :: _ => inferInstanceAs (Decidable (_ ∧ _))

/-- A call that meets a condition on the request and the sizes on the list. -/
def meets (condition : ℤ → List ℤ → Bool) (run : Run) : Call → Bool
  | .aloca size fuel => (tamanhos base run.memory fuel).any (condition size)
  | .desaloca _ => true

/-- **The condition on a call.** -/
def careful : Run → Call → Bool :=
  meets base fun size tams => decide (OnlyFirst holeSize size tams ∧ Spares holeSize size tams)

end

variable {holeSize base n : ℤ} {memory : Memory Hole}

/-! ### The layout of the blocks -/

/-- **The blocks fill the bytes** from an address up to the limit, one behind the other. -/
def Packed (holeSize limit : ℤ) : ℤ → List Block → Prop
  | x, [] => x = limit
  | x, block :: rest => block.1 = x ∧ Packed holeSize limit (x + holeSize + |block.2|) rest

/-- **The layout of the list**: the first block, counted from the start of its own header, reaches up
to the next one; behind it the blocks are packed, up to a header's size below the end of the arena.
A first block with others behind it has room for its header. -/
def Layout (holeSize base n : ℤ) : List Block → Prop
  | [] => False
  | block :: rest =>
      Packed holeSize (base + n - holeSize) (base + |block.2|) rest ∧
        (rest ≠ [] → holeSize ≤ block.2)

/-- What packed blocks account for is what lies between the two addresses. -/
theorem Packed.total {limit x : ℤ} {blocks : List Block} (packed : Packed holeSize limit x blocks) :
    x + total holeSize blocks = limit := by
  induction blocks generalizing x with
  | nil =>
    have empty : Coalesce.total holeSize ([] : List Block) = 0 := rfl
    have same : x = limit := packed
    omega
  | cons block rest ih =>
    have behind := ih packed.2
    rw [total_cons]
    omega

theorem packed_append {limit x : ℤ} {l r : List Block} :
    Packed holeSize limit x (l ++ r) ↔
      Packed holeSize (x + total holeSize l) x l ∧
        Packed holeSize limit (x + total holeSize l) r := by
  induction l generalizing x with
  | nil =>
    have empty : x + total holeSize ([] : List Block) = x := Int.add_zero x
    rw [empty]
    exact ⟨fun packed => ⟨rfl, packed⟩, And.right⟩
  | cons block rest ih =>
    have sum : x + total holeSize (block :: rest) =
        x + holeSize + |block.2| + total holeSize rest := by
      rw [total_cons]
      omega
    rw [List.cons_append, Packed, Packed, ih, sum, and_assoc]

/-- Packed blocks lie between the two addresses. -/
theorem Packed.between (positive : 0 < holeSize) {limit x : ℤ} {blocks : List Block}
    (packed : Packed holeSize limit x blocks) :
    ∀ block ∈ blocks, x ≤ block.1 ∧ block.1 + holeSize + |block.2| ≤ limit := by
  intro block member
  obtain ⟨l, r, rfl⟩ := List.append_of_mem member
  obtain ⟨-, here, behind⟩ := packed_append.mp packed
  have before := total_nonneg positive l
  have after := total_nonneg positive r
  have rest := behind.total
  omega

theorem Packed.pairwise (positive : 0 < holeSize) {limit x : ℤ} {blocks : List Block}
    (packed : Packed holeSize limit x blocks) :
    blocks.Pairwise fun one other => one.1 + holeSize + |one.2| ≤ other.1 := by
  induction blocks generalizing x with
  | nil => exact List.Pairwise.nil
  | cons block rest ih =>
    obtain ⟨rfl, packed⟩ := packed
    exact List.pairwise_cons.mpr
      ⟨fun other member => (packed.between positive other member).1, ih packed⟩

/-- Joining free neighbours keeps the blocks packed. -/
theorem packed_coalesce (positive : 0 < holeSize) {limit x : ℤ} {blocks : List Block}
    (packed : Packed holeSize limit x blocks) :
    Packed holeSize limit x (coalesce isFree (joined holeSize) blocks) := by
  induction blocks generalizing x with
  | nil => exact packed
  | cons block rest ih =>
    obtain ⟨here, packed⟩ := packed
    have behind := ih packed
    rw [coalesce]
    revert behind
    cases coalesce isFree (joined holeSize) rest with
    | nil => exact fun behind => ⟨here, behind⟩
    | cons next tail =>
      intro behind
      by_cases both : isFree block = true ∧ isFree next = true
      · have first := isFree_iff.mp both.1
        have second := isFree_iff.mp both.2
        have sum : x + holeSize + |block.2 + holeSize + next.2| =
            x + holeSize + |block.2| + holeSize + |next.2| := by
          rw [abs_of_pos first, abs_of_pos second, abs_of_pos (by omega)]
          omega
        rw [push_of_free both.1 both.2]
        refine ⟨here, ?_⟩
        show Packed holeSize limit (x + holeSize + |block.2 + holeSize + next.2|) tail
        rw [sum]
        exact behind.2
      · rw [push_of_not (by simpa using both)]
        exact ⟨here, behind⟩

theorem layout_coalesce (positive : 0 < holeSize) {blocks : List Block}
    (layout : Layout holeSize base n blocks) :
    Layout holeSize base n (coalesce isFree (joined holeSize) blocks) := by
  cases blocks with
  | nil => exact layout
  | cons block rest =>
    obtain ⟨packed, room⟩ := layout
    have behind := packed_coalesce positive packed
    have others : coalesce isFree (joined holeSize) rest ≠ [] → holeSize ≤ block.2 := by
      refine fun some => room ?_
      rintro rfl
      exact some rfl
    rw [coalesce]
    cases same : coalesce isFree (joined holeSize) rest with
    | nil =>
      rw [same] at behind
      exact ⟨behind, fun some => absurd rfl some⟩
    | cons next tail =>
      rw [same] at behind others
      have large := others (List.cons_ne_nil _ _)
      by_cases both : isFree block = true ∧ isFree next = true
      · have second := isFree_iff.mp both.2
        have sum : base + |block.2 + holeSize + next.2| =
            base + |block.2| + holeSize + |next.2| := by
          rw [abs_of_pos (a := block.2) (by omega), abs_of_pos second, abs_of_pos (by omega)]
          omega
        rw [push_of_free both.1 both.2]
        refine ⟨?_, fun _ => ?_⟩
        · show Packed holeSize _ (base + |block.2 + holeSize + next.2|) tail
          rw [sum]
          exact behind.2
        · show holeSize ≤ block.2 + holeSize + next.2
          omega
      · rw [push_of_not (by simpa using both)]
        exact ⟨behind, fun _ => large⟩

/-- The whole arena is accounted for. -/
theorem Layout.total {blocks : List Block} (layout : Layout holeSize base n blocks) :
    total holeSize blocks = n := by
  cases blocks with
  | nil => exact layout.elim
  | cons block rest =>
    have behind := layout.1.total
    rw [total_cons]
    omega

/-- A block that changes only its sign: the first one only if it is alone. -/
theorem Layout.neg {l r : List Block} {a t : ℤ}
    (layout : Layout holeSize base n (l ++ (a, t) :: r)) (alone : l = [] → r = []) :
    Layout holeSize base n (l ++ (a, -t) :: r) := by
  cases l with
  | nil =>
    obtain rfl := alone rfl
    refine ⟨?_, fun some => absurd rfl some⟩
    show Packed holeSize _ (base + |(-t)|) []
    rw [abs_neg]
    exact layout.1
  | cons block l =>
    obtain ⟨packed, room⟩ := layout
    refine ⟨?_, fun _ => room (by simp)⟩
    obtain ⟨before, here, behind⟩ := packed_append.mp packed
    refine packed_append.mpr ⟨before, here, ?_⟩
    show Packed holeSize _ (_ + |(-t)|) r
    rw [abs_neg]
    exact behind

/-- A used block is the first only if it is alone. -/
theorem Layout.alone (positive : 0 < holeSize) {l r : List Block} {a t : ℤ} (taken : t < 0)
    (layout : Layout holeSize base n (l ++ (a, t) :: r)) : l = [] → r = [] := by
  rintro rfl
  by_contra some
  have large : holeSize ≤ t := layout.2 some
  omega

/-! ### The bytes of the blocks -/

/-- The bytes a block needs: its header, and its payload while it is allocated. -/
def bytes (holeSize tam : ℤ) : ℤ := if tam < 0 then holeSize - tam else holeSize

theorem le_bytes (tam : ℤ) : holeSize ≤ bytes holeSize tam := by
  unfold bytes
  split <;> omega

theorem bytes_le (tam : ℤ) : bytes holeSize tam ≤ holeSize + |tam| := by
  have size := abs_nonneg tam
  unfold bytes
  split
  · rw [abs_of_neg ‹_›]
    omega
  · omega

theorem Layout.inside (positive : 0 < holeSize) {blocks : List Block}
    (layout : Layout holeSize base n blocks) (head : some base = first blocks none) :
    ∀ block ∈ blocks, base ≤ block.1 ∧ block.1 + bytes holeSize block.2 ≤ base + n := by
  cases blocks with
  | nil => exact layout.elim
  | cons first rest =>
    obtain ⟨packed, -⟩ := layout
    have start : base = first.1 := Option.some.inj head
    have behind := packed.total
    have size := abs_nonneg first.2
    refine List.forall_mem_cons.mpr ⟨?_, fun block member => ?_⟩
    · have others := total_nonneg positive rest
      have needs : bytes holeSize first.2 ≤ holeSize + |first.2| := bytes_le first.2
      omega
    · have needs : bytes holeSize block.2 ≤ holeSize + |block.2| := bytes_le block.2
      have place := packed.between positive block member
      omega

/-- Of two different blocks one has its bytes before the other. -/
theorem Layout.ordered (positive : 0 < holeSize) {blocks : List Block}
    (layout : Layout holeSize base n blocks) (head : some base = first blocks none) {x y : Block}
    (here : x ∈ blocks) (there : y ∈ blocks) (different : y ≠ x) :
    y.1 + bytes holeSize y.2 ≤ x.1 ∨ x.1 + bytes holeSize x.2 ≤ y.1 := by
  have pairwise : blocks.Pairwise fun one other =>
      one.1 + bytes holeSize one.2 ≤ other.1 ∨ other.1 + bytes holeSize other.2 ≤ one.1 := by
    cases blocks with
    | nil => exact List.Pairwise.nil
    | cons first rest =>
      obtain ⟨packed, room⟩ := layout
      refine List.pairwise_cons.mpr ⟨fun other member => ?_, ?_⟩
      · -- the first block is free, and its own header is all that it needs
        have start : base = first.1 := Option.some.inj head
        have large := room (List.ne_nil_of_mem member)
        have place := (packed.between positive other member).1
        have needs : bytes holeSize first.2 = holeSize := if_neg (by omega)
        rw [abs_of_pos (by omega)] at place
        omega
      · refine (packed.pairwise positive).imp fun {one other} apart => ?_
        have needs : bytes holeSize one.2 ≤ holeSize + |one.2| := bytes_le one.2
        omega
  have symmetric : Std.Symm fun one other : Block => one.1 + bytes holeSize one.2 ≤ other.1 ∨
      other.1 + bytes holeSize other.2 ≤ one.1 := ⟨fun _ _ => Or.symm⟩
  exact pairwise.forall there here different

/-! ### The calls on a list of blocks -/

/-- The scan stops at the first block that passes a test. -/
theorem scan_eq (holeSize size : ℤ) {prev : Option ℤ} {blocks : List Block}
    (chain : Chain Hole.mk memory prev blocks none) {fuel : ℕ} (enough : blocks.length < fuel) :
    scan holeSize memory size fuel (first blocks none) =
      some ((blocks.find? fun block => block.2 = size ∨ int (size + holeSize) < block.2).map
        Prod.fst) := by
  induction blocks generalizing prev fuel with
  | nil =>
    obtain ⟨fuel, rfl⟩ := Nat.exists_eq_add_of_lt enough
    rfl
  | cons block rest ih =>
    obtain ⟨here, chain⟩ := chain
    obtain ⟨fuel, rfl⟩ : ∃ more, fuel = more + 1 := ⟨fuel - 1, by omega⟩
    have short : rest.length < fuel := by simpa using enough
    show scan holeSize memory size (fuel + 1) (some block.1) = _
    simp only [scan, here, Option.bind_eq_bind, Option.bind_some]
    by_cases fits : block.2 = size ∨ int (size + holeSize) < block.2
    · rw [if_pos fits, List.find?_cons_of_pos (by simpa using fits)]
      rfl
    · rw [if_neg fits, List.find?_cons_of_neg (by simpa using fits)]
      exact ih chain short

/-- The split puts the new block behind the hole. -/
theorem split_linked (positive : 0 < holeSize) {l r : List Block} {a t size : ℤ} (asked : 0 < size)
    (large : size + holeSize < t) (range : t ≤ 2 ^ 31 - 1)
    (linked : Linked holeSize Hole.mk memory (l ++ (a, t) :: r))
    (fresh : ∀ block ∈ l ++ (a, t) :: r, Apart holeSize (a + t - size - holeSize) block.1) :
    ∃ memory', split holeSize memory a ⟨t, first r none, last none l⟩ size =
        some (a + t - size - holeSize + holeSize, memory') ∧
      Linked holeSize Hole.mk memory'
        (l ++ (a, t - size - holeSize) :: (a + t - size - holeSize, -size) :: r) := by
  have here : memory a = some ⟨t, first r none, last none l⟩ := linked.load
  have hole := fresh (a, t) (by simp)
  have negated : int (-size) = -size := int_eq (by omega) (by omega)
  have first_ : int (t - size) = t - size := int_eq (by omega) (by omega)
  have left : int (int (t - size) - holeSize) = t - size - holeSize := by
    rw [first_, int_eq (by omega) (by omega)]
  refine ⟨_, ?_, linked.insert positive fresh (t - size - holeSize) (-size)⟩
  simp only [Unity.split, modify_eq ((store_apart positive hole).trans here), modify_eq store_self,
    store_store, negated, left, Option.bind_eq_bind, Option.bind_some]
  cases r with
  | nil => rfl
  | cons block rest =>
    have away : Apart holeSize a block.1 := (spread_split linked.spread).2 block (by simp)
    have awayNew := fresh block (by simp)
    have behind : memory block.1 = some ⟨block.2, first rest none, some a⟩ := linked.loadNext
    simp only [first, modify_eq ((store_apart positive away).trans
      ((store_apart positive awayNew).trans behind)), Option.bind_some, adopt]

/-! ### The invariant -/

/-- **The invariant of a run**: a well-formed list, laid out in the arena, whose allocated blocks
are the live allocations. -/
structure Inv (holeSize base n : ℤ) (run : Run) (blocks : List Block) : Prop where
  wellFormed : WellFormed holeSize run.memory (some base) blocks
  layout : Layout holeSize base n blocks
  live : ∀ p size, (p, size) ∈ run.live ↔ 0 < size ∧ (p - holeSize, -size) ∈ blocks
  distinct : run.live.Nodup

theorem inv_inicio (positive : 0 < holeSize) (room : holeSize < n) (range : n ≤ 2 ^ 31 - 1) :
    Inv holeSize base n (inicio holeSize base n) [(base, n - holeSize)] := by
  have size : (if n < holeSize then int (holeSize + n) else n) = n := if_neg (by omega)
  have tam : int (n - holeSize) = n - holeSize := int_eq (by omega) (by omega)
  refine ⟨⟨rfl, ⟨⟨?_, trivial⟩, List.pairwise_singleton _ _⟩, ?_, List.isChain_singleton _⟩,
    ⟨?_, fun some => absurd rfl some⟩, ?_, List.nodup_nil⟩
  · simp only [inicio, inicializaMemoria, size, tam]
    exact store_self
  · simp only [List.mem_singleton, forall_eq]
    omega
  · show base + |n - holeSize| = base + n - holeSize
    rw [abs_of_pos (by omega)]
    omega
  · intro p size
    simp only [inicio, List.not_mem_nil, List.mem_singleton, Prod.mk.injEq, false_iff]
    omega

/-- The allocated blocks survive a coalescing. -/
theorem mem_coalesce_taken (positive : 0 < holeSize) {blocks : List Block} {block : Block}
    (taken : block.2 < 0) :
    block ∈ coalesce isFree (joined holeSize) blocks ↔ block ∈ blocks := by
  have kept := filter_coalesce (joins positive) blocks
  have notFree : (!isFree block) = true := by simp [isFree, taken.le]
  have mem := congrArg (fun l => block ∈ l) kept
  simpa [List.mem_filter, notFree] using mem

/-! ### One call keeps the invariant -/

variable {run : Run} {blocks : List Block}

/-- A list with one more allocated block accounts for one more live allocation. -/
theorem Inv.allocate {memory' : Memory Hole} {blocks' : List Block} {a size : ℤ}
    (inv : Inv holeSize base n run blocks) (asked : 0 < size)
    (wellFormed : WellFormed holeSize memory' (some base) blocks')
    (layout : Layout holeSize base n blocks')
    (members : ∀ block : Block, block.2 < 0 → (block ∈ blocks' ↔ block ∈ blocks ∨
      block = (a, -size)))
    (new : (a, -size) ∉ blocks) :
    Inv holeSize base n ⟨memory', run.live ++ [(a + holeSize, size)]⟩ blocks' := by
  refine ⟨wellFormed, layout, fun p s => ?_, ?_⟩
  · rw [List.mem_append, List.mem_singleton, inv.live p s, Prod.mk.injEq]
    constructor
    · rintro (⟨sized, member⟩ | ⟨rfl, rfl⟩)
      · exact ⟨sized, (members _ (by simp only; omega)).mpr (Or.inl member)⟩
      · refine ⟨asked, (members _ (by simp only; omega)).mpr (Or.inr ?_)⟩
        rw [Int.add_sub_cancel]
    · rintro ⟨sized, member⟩
      rcases (members _ (by simp only; omega)).mp member with member | same
      · exact Or.inl ⟨sized, member⟩
      · obtain ⟨address, value⟩ := Prod.mk.injEq _ _ _ _ ▸ same
        exact Or.inr ⟨by omega, by omega⟩
  · refine List.nodup_append.mpr ⟨inv.distinct, List.nodup_singleton _, ?_⟩
    intro allocation member other there same
    rw [List.mem_singleton.mp there] at same
    rw [same, inv.live, Int.add_sub_cancel] at member
    exact new member.2

/-- An exact fit, of the first block only if it is alone. -/
theorem Inv.fit (positive : 0 < holeSize) {l r : List Block} {a size : ℤ} (asked : 0 < size)
    (inv : Inv holeSize base n run (l ++ (a, size) :: r)) (alone : l = [] → r = []) :
    Inv holeSize base n
      ⟨store holeSize run.memory a ⟨-size, first r none, last none l⟩,
        run.live ++ [(a + holeSize, size)]⟩ (l ++ (a, -size) :: r) := by
  obtain ⟨head, linked, nonzero, settled⟩ := inv.wellFormed
  refine inv.allocate asked ⟨?_, linked.set positive (-size), ?_, ?_⟩ (inv.layout.neg alone) ?_ ?_
  · exact head.trans (first_replace ..)
  · intro block member
    rcases List.mem_append.mp member with member | member
    · exact nonzero block (by simp [member])
    · rcases List.mem_cons.mp member with rfl | member
      · simp only
        omega
      · exact nonzero block (by simp [member])
  · exact settled.replace (by simp [isFree, asked.le])
  · intro block taken
    simp only [List.mem_append, List.mem_cons]
    constructor
    · rintro (member | rfl | member)
      · exact Or.inl (Or.inl member)
      · exact Or.inr rfl
      · exact Or.inl (Or.inr (Or.inr member))
    · rintro ((member | rfl | member) | rfl)
      · exact Or.inl member
      · simp only at taken
        omega
      · exact Or.inr (Or.inr member)
      · exact Or.inr (Or.inl rfl)
  · intro member
    have same := block_unique positive linked.spread (x := (a, size)) (by simp) member rfl
    simp only [Prod.mk.injEq, true_and] at same
    omega

/-- A split of the first block. The new header keeps off the hole's own and ends before the next
one. -/
theorem Inv.split (positive : 0 < holeSize) (range : n ≤ 2 ^ 31 - 1) {r : List Block} {t size : ℤ}
    (asked : 0 < size) (inv : Inv holeSize base n run ((base, t) :: r))
    (large : size + 2 * holeSize ≤ t) :
    ∃ memory', Unity.split holeSize run.memory base ⟨t, first r none, none⟩ size =
        some (base + t - size - holeSize + holeSize, memory') ∧
      Inv holeSize base n
        ⟨memory', run.live ++ [(base + t - size - holeSize + holeSize, size)]⟩
        ((base, t - size - holeSize) :: (base + t - size - holeSize, -size) :: r) := by
  obtain ⟨head, linked, nonzero, settled⟩ := inv.wellFormed
  have sum := inv.layout.total
  obtain ⟨packed, -⟩ := inv.layout
  have behind := total_nonneg positive r
  rw [total_cons, abs_of_pos (by dsimp only; omega)] at sum
  rw [abs_of_pos (by dsimp only; omega)] at packed
  dsimp only at sum packed
  have whole : Linked holeSize Hole.mk run.memory ([] ++ (base, t) :: r) := linked
  have fresh : ∀ block ∈ [] ++ (base, t) :: r,
      Apart holeSize (base + t - size - holeSize) block.1 := by
    intro block member
    unfold Apart
    rcases List.mem_cons.mp member with rfl | member
    · right
      dsimp only
      omega
    · have place := (packed.between positive block member).1
      omega
  obtain ⟨memory', call, linked'⟩ := split_linked positive asked (by omega) (by omega) whole fresh
  refine ⟨memory', call, inv.allocate asked ⟨rfl, linked', ?_, ?_⟩ ⟨⟨?_, ?_⟩, fun _ => ?_⟩ ?_ ?_⟩
  · intro block member
    rcases List.mem_cons.mp member with rfl | member
    · dsimp only
      omega
    rcases List.mem_cons.mp member with rfl | member
    · dsimp only
      omega
    · exact nonzero block (List.mem_cons_of_mem _ member)
  · have hole : isFree (base, t - size - holeSize) = isFree (base, t) := by
      simp only [isFree, decide_eq_decide]
      omega
    exact Settled.insert (l := []) settled hole (by simp [isFree, asked.le])
  · rw [abs_of_pos (by dsimp only; omega)]
    dsimp only
    omega
  · -- the new block ends where the hole reached to
    have place : base + |t - size - holeSize| + holeSize + |(-size)| = base + t := by
      rw [abs_neg, abs_of_pos asked, abs_of_pos (by omega)]
      omega
    show Packed holeSize _ (base + |t - size - holeSize| + holeSize + |(-size)|) r
    rw [place]
    exact packed
  · dsimp only
    omega
  · intro block taken
    simp only [List.mem_cons]
    constructor
    · rintro (rfl | rfl | member)
      · dsimp only at taken
        omega
      · exact Or.inr rfl
      · exact Or.inl (Or.inr member)
    · rintro ((rfl | member) | rfl)
      · dsimp only at taken
        omega
      · exact Or.inr (Or.inr member)
      · exact Or.inr (Or.inl rfl)
  · intro member
    have := fresh _ member
    unfold Apart at this
    dsimp only at this
    omega

/-- **A call of `meu_desaloca` on a live pointer** returns and keeps the invariant. -/
theorem Inv.desaloca (positive : 0 < holeSize) (range : n ≤ 2 ^ 31 - 1) {p : ℤ}
    (inv : Inv holeSize base n run blocks) (live : p ∈ run.live.map Prod.fst) :
    ∃ after blocks', next holeSize base run (.desaloca p) = some after ∧
      Inv holeSize base n after blocks' := by
  obtain ⟨⟨p', size⟩, member, rfl⟩ := List.mem_map.mp live
  obtain ⟨sized, there⟩ := (inv.live p' size).mp member
  obtain ⟨l, r, rfl⟩ := List.append_of_mem there
  obtain ⟨head, linked, nonzero, settled⟩ := inv.wellFormed
  have others := address_ne positive linked.spread
  have negative : -size < 0 := by omega
  have fits := inv.layout.total.trans_le range
  have freed := inv.layout.neg (inv.layout.alone positive negative)
  obtain ⟨memory', call, linked'⟩ := meuDesaloca_linked positive negative linked settled fits
  rw [neg_neg] at linked' freed
  rw [Int.sub_add_cancel] at call
  refine ⟨⟨memory', run.live.filter fun allocation => allocation.1 ≠ p'⟩, _, ?_,
    ⟨?_, linked', ?_, settled_coalesce _⟩, layout_coalesce positive freed, ?_,
    inv.distinct.filter _⟩
  · simp only [next, if_pos live, call, Option.bind_eq_bind, Option.bind_some]
  · rw [first_coalesce]
    exact head.trans (first_replace ..)
  · refine forall_coalesce (fun x y left right _ _ => ?_) fun block there => ?_
    · rw [isFree_iff] at left right
      show x.2 + holeSize + y.2 ≠ 0
      omega
    · simp only [List.mem_append, List.mem_cons] at there
      rcases there with there | rfl | there
      · exact nonzero block (by simp [there])
      · simp only
        omega
      · exact nonzero block (by simp [there])
  · intro q s
    rw [List.mem_filter, inv.live q s]
    constructor
    · rintro ⟨⟨positiveSize, there⟩, different⟩
      refine ⟨positiveSize, (mem_coalesce_taken positive (by simp only; omega)).mpr ?_⟩
      have notFreed : (q - holeSize, -s) ≠ (p' - holeSize, -size) := by
        intro same
        have : q - holeSize = p' - holeSize := congrArg Prod.fst same
        simp only [ne_eq, decide_not, Bool.not_eq_eq_eq_not, Bool.not_true,
          decide_eq_false_iff_not] at different
        omega
      simp only [List.mem_append, List.mem_cons, notFreed, false_or] at there ⊢
      rcases there with there | there
      · exact Or.inl there
      · exact Or.inr (Or.inr there)
    · rintro ⟨positiveSize, there⟩
      have old := (mem_coalesce_taken positive (by simp only; omega)).mp there
      simp only [List.mem_append, List.mem_cons, Prod.mk.injEq] at old
      have elsewhere : (q - holeSize, -s) ∈ l ++ r := by
        rcases old with old | ⟨-, wrong⟩ | old
        · simp [old]
        · omega
        · simp [old]
      have different := others _ elsewhere
      refine ⟨⟨positiveSize, ?_⟩, ?_⟩
      · rcases List.mem_append.mp elsewhere with there | there <;> simp [there]
      · simp only [ne_eq, decide_not, Bool.not_eq_eq_eq_not, Bool.not_true,
          decide_eq_false_iff_not]
        rintro rfl
        exact different rfl

/-! ### Requests -/

/-- A block that passes a test of `meu_aloca`. -/
def passes (holeSize size : ℤ) (block : Block) : Bool :=
  decide (block.2 = size ∨ size + holeSize < block.2)

/-- On a list of which no block is split, the one that passes a test fits exactly. -/
theorem Intact.fits {size : ℤ} {r : List Block} {block : Block}
    (intact : Intact holeSize size (r.map Prod.snd))
    (found : r.find? (passes holeSize size) = some block) : block.2 = size := by
  induction r with
  | nil => cases found
  | cons head rest ih =>
    by_cases exact_ : head.2 = size
    · rw [List.find?_cons_of_pos (by simp [passes, exact_])] at found
      cases found
      exact exact_
    · obtain ⟨small, rest⟩ := intact.resolve_left exact_
      rw [List.find?_cons_of_neg (by simp [passes, exact_, small])] at found
      exact ih rest found

section Requests

variable {size t : ℤ} {r : List Block} {fuel : ℕ} (positive : 0 < holeSize) (asked : 0 < size)
  (sized : size + holeSize ≤ 2 ^ 31 - 1)

include positive asked sized

/-- A call of `meu_aloca` serves the request by the first block that passes a test, if there is
one. -/
theorem next_aloca (wellFormed : WellFormed holeSize run.memory (some base) blocks)
    (enough : blocks.length < fuel) :
    next holeSize base run (.aloca size fuel) =
      ((blocks.find? (passes holeSize size)).elim (some (none, run.memory)) fun block =>
        serve holeSize run.memory size block.1).map fun made =>
          ⟨made.2, run.live ++ made.1.toList.map fun p => (p, size)⟩ := by
  have exact_ : int (size + holeSize) = size + holeSize := int_eq (by omega) sized
  have scanned := scan_eq holeSize size wellFormed.linked.chain enough
  rw [← wellFormed.head, exact_] at scanned
  simp only [next, asked, sized, and_self, if_true, meuAloca, scanned, Option.bind_eq_bind,
    Option.bind_some]
  show Option.bind (match (blocks.find? (passes holeSize size)).map Prod.fst with
    | none => some (none, run.memory)
    | some current => serve holeSize run.memory size current) _ = _
  cases blocks.find? (passes holeSize size) with
  | none => simp
  | some block =>
    simp only [Option.map_some, Option.elim_some]
    cases serve holeSize run.memory size block.1 with
    | none => rfl
    | some made =>
      obtain ⟨result, memory'⟩ := made
      cases result <;> simp

theorem serve_fit {l : List Block} {a : ℤ}
    (linked : Linked holeSize Hole.mk memory (l ++ (a, size) :: r)) :
    serve holeSize memory size a = some (some (a + holeSize),
      store holeSize memory a ⟨-size, first r none, last none l⟩) := by
  have here : memory a = some ⟨size, first r none, last none l⟩ := linked.load
  have negated : int ((-1) * size) = -size := by
    rw [int_eq (by omega) (by omega)]
    omega
  simp only [serve, here, modify_eq here, negated, if_true, Option.bind_eq_bind, Option.bind_some]

omit positive asked sized in
theorem serve_split {l : List Block} {a : ℤ}
    (linked : Linked holeSize Hole.mk memory (l ++ (a, t) :: r)) (different : t ≠ size) :
    serve holeSize memory size a =
      (split holeSize memory a ⟨t, first r none, last none l⟩ size).map fun made =>
        (some made.1, made.2) := by
  have here : memory a = some ⟨t, first r none, last none l⟩ := linked.load
  simp only [serve, here, different, if_false, Option.bind_eq_bind, Option.bind_some]
  cases split holeSize memory a ⟨t, first r none, last none l⟩ size <;> rfl

omit positive asked sized in
/-- A new header that overlaps the hole's own is no split. -/
theorem split_overlapping {a : ℤ} {hole : Hole} (large : size + holeSize < hole.tam)
    (small : hole.tam < size + 2 * holeSize) : split holeSize memory a hole size = none := by
  have destroyed : ∀ made, store holeSize memory (a + hole.tam - size - holeSize) made a = none := by
    intro made
    rw [store, if_neg (by omega), if_pos (by omega)]
  simp only [split, Headers.modify, destroyed, Option.map_none, Option.bind_eq_bind,
    Option.bind_none]

/-- **A request that meets the condition** is answered, and the invariant is kept. -/
theorem Inv.aloca (range : n ≤ 2 ^ 31 - 1) (inv : Inv holeSize base n run ((base, t) :: r))
    (enough : r.length + 1 < fuel) (only : OnlyFirst holeSize size (t :: r.map Prod.snd))
    (spares : Spares holeSize size (t :: r.map Prod.snd)) :
    ∃ after blocks', next holeSize base run (.aloca size fuel) = some after ∧
      Inv holeSize base n after blocks' := by
  obtain ⟨alone, room⟩ := spares
  have linked : Linked holeSize Hole.mk run.memory ([] ++ (base, t) :: r) := inv.wellFormed.linked
  rw [next_aloca positive asked sized inv.wellFormed enough]
  by_cases fits : t = size
  · -- the first block is taken whole
    subst fits
    obtain rfl : r = [] := List.map_eq_nil_iff.mp (alone rfl)
    rw [List.find?_cons_of_pos (by simp [passes]), Option.elim_some,
      serve_fit positive asked sized linked]
    exact ⟨_, _, rfl, Inv.fit (l := []) positive asked inv fun _ => rfl⟩
  by_cases large : size + holeSize < t
  · -- the first block is split
    obtain ⟨memory', made, kept⟩ := inv.split positive range asked (room large)
    rw [List.find?_cons_of_pos (by simp [passes, large]), Option.elim_some,
      serve_split linked fits, last, made]
    exact ⟨_, _, rfl, kept⟩
  · -- a block behind it that fits exactly, or none
    have intact : Intact holeSize size (r.map Prod.snd) :=
      ((only.resolve_left large).resolve_left fits).2
    rw [List.find?_cons_of_neg (by simp [passes, fits, large])]
    cases found : r.find? (passes holeSize size) with
    | none => exact ⟨_, _, rfl, by simpa using inv⟩
    | some block =>
      obtain ⟨a, u⟩ := block
      have member := List.mem_of_find?_eq_some found
      obtain rfl : u = size := intact.fits found
      obtain ⟨l, r', rfl⟩ := List.append_of_mem member
      have whole : Inv holeSize base n run (((base, t) :: l) ++ (a, u) :: r') := inv
      rw [Option.elim_some, serve_fit positive asked sized whole.wellFormed.linked]
      exact ⟨_, _, rfl, whole.fit positive asked fun empty => absurd empty (List.cons_ne_nil _ _)⟩

/-- **A request that is served safely meets the condition.** -/
theorem Inv.spares (inv : Inv holeSize base n run ((base, t) :: r)) (enough : r.length + 1 < fuel)
    {after : Run} (moved : next holeSize base run (.aloca size fuel) = some after)
    (safe : Safe holeSize base n after) : Spares holeSize size (t :: r.map Prod.snd) := by
  have linked : Linked holeSize Hole.mk run.memory ([] ++ (base, t) :: r) := inv.wellFormed.linked
  rw [next_aloca positive asked sized inv.wellFormed enough] at moved
  refine ⟨fun fits => ?_, fun large => ?_⟩
  · -- with a block behind it, the bytes of the first one cover the next header
    subst fits
    rw [List.find?_cons_of_pos (by simp [passes]), Option.elim_some,
      serve_fit positive asked sized linked] at moved
    cases r with
    | nil => rfl
    | cons block rest =>
      cases moved
      have place : block.1 = base + t := by
        have here := inv.layout.1.1
        rwa [abs_of_pos asked] at here
      have there : run.memory block.1 = some ⟨block.2, first rest none, some base⟩ :=
        linked.loadNext
      have apart : Apart holeSize base block.1 := (spread_split linked.spread).2 block (by simp)
      have overlap := safe.headers (base + holeSize, t) (by simp) block.1
        (.later store_self (.here ((store_apart positive apart).trans there)))
      dsimp only at overlap
      omega
  · by_contra small
    have different : t ≠ size := by omega
    rw [List.find?_cons_of_pos (by simp [passes, large]), Option.elim_some,
      serve_split linked different, split_overlapping large (by dsimp only; omega)] at moved
    cases moved

end Requests

/-! ### Runs -/

/-- The invariant gives the safety of the bytes handed out. -/
theorem Inv.safe (positive : 0 < holeSize) (inv : Inv holeSize base n run blocks) :
    Safe holeSize base n run := by
  have needs : ∀ p size, (p, size) ∈ run.live → bytes holeSize (-size) = holeSize + size ∧
      (p - holeSize, -size) ∈ blocks := by
    intro p size member
    obtain ⟨sized, there⟩ := (inv.live p size).mp member
    refine ⟨?_, there⟩
    rw [bytes, if_pos (by omega)]
    omega
  have head := inv.wellFormed.head
  refine ⟨?_, ?_, inv.distinct.pairwise_of_forall_ne ?_⟩
  · rintro ⟨p, size⟩ member
    obtain ⟨taken, there⟩ := needs p size member
    have place := inv.layout.inside positive head _ there
    simp only [taken] at place ⊢
    omega
  · rintro ⟨p, size⟩ member x reached
    obtain ⟨taken, there⟩ := needs p size member
    rw [head] at reached
    obtain ⟨t, header⟩ := mem_of_onList (fun _ _ _ => rfl) inv.wellFormed.linked.chain reached
    by_cases same : ((x, t) : Block) = (p - holeSize, -size)
    · have : x = p - holeSize := congrArg Prod.fst same
      simp only
      omega
    · have order := inv.layout.ordered positive head there header same
      have size' : holeSize ≤ bytes holeSize t := le_bytes t
      simp only [taken] at order ⊢
      omega
  · rintro ⟨p, size⟩ member ⟨q, size'⟩ member' different
    obtain ⟨taken, there⟩ := needs p size member
    obtain ⟨taken', there'⟩ := needs q size' member'
    have distinct : ((q - holeSize, -size') : Block) ≠ (p - holeSize, -size) := by
      intro same
      have address : q - holeSize = p - holeSize := congrArg Prod.fst same
      have value : -size' = -size := congrArg Prod.snd same
      refine different ?_
      rw [Prod.mk.injEq]
      omega
    have order := inv.layout.ordered positive head there there' distinct
    simp only [taken, taken'] at order ⊢
    omega

/-- The list starts at the base. -/
theorem Inv.exists_cons (inv : Inv holeSize base n run blocks) : ∃ t r, blocks = (base, t) :: r := by
  cases blocks with
  | nil => exact inv.layout.elim
  | cons block r =>
    obtain ⟨a, t⟩ := block
    obtain rfl : base = a := Option.some.inj inv.wellFormed.head
    exact ⟨t, r, rfl⟩

/-- The sizes that `imprime` prints are those of the blocks. -/
theorem tamanhos_eq (wellFormed : WellFormed holeSize memory (some base) blocks) {fuel : ℕ}
    (enough : blocks.length < fuel) :
    tamanhos base memory fuel = some (blocks.map Prod.snd) := by
  have sizes : ∀ (prev : Option ℤ) (blocks : List Block),
      (nodes Hole.mk prev blocks).map (fun header => header.2.tam) = blocks.map Prod.snd := by
    intro prev blocks
    induction blocks generalizing prev with
    | nil => rfl
    | cons block rest ih => exact congrArg (block.2 :: ·) (ih (some block.1))
  have walked : walk Hole.next memory fuel (first blocks none) = _ :=
    walk_of_chain (fun _ _ _ => rfl) wellFormed.linked.chain enough
  rw [tamanhos, imprime, wellFormed.head, walked, Option.map_some, sizes]

/-- Sizes printed are those of the blocks, and there was fuel for all of them. -/
theorem Inv.printed (inv : Inv holeSize base n run blocks) {fuel : ℕ} {tams : List ℤ}
    (printed : tamanhos base run.memory fuel = some tams) :
    blocks.length < fuel ∧ tams = blocks.map Prod.snd := by
  obtain ⟨headers, walked, rfl⟩ := Option.map_eq_some_iff.mp printed
  have start := walked
  rw [imprime, inv.wellFormed.head] at start
  have enough := length_lt_of_walk (fun _ _ _ => rfl) inv.wellFormed.linked.chain start
  have same := tamanhos_eq inv.wellFormed enough
  rw [printed] at same
  exact ⟨enough, Option.some.inj same⟩

/-- Every state of a careful run has the invariant. -/
theorem inv_of_careful (positive : 0 < holeSize) (room : holeSize < n) (range : n ≤ 2 ^ 31 - 1)
    (reach : Reach (next holeSize base) (fun run call => careful holeSize base run call = true)
      (inicio holeSize base n) run) : ∃ blocks, Inv holeSize base n run blocks := by
  refine reach.invariant (fun run => ∃ blocks, Inv holeSize base n run blocks)
    ⟨_, inv_inicio positive room range⟩ ?_
  rintro before call after ⟨blocks, inv⟩ ok moved
  cases call with
  | aloca size fuel =>
    by_cases request : 0 < size ∧ size + holeSize ≤ 2 ^ 31 - 1
    · obtain ⟨tams, printed, meets⟩ := (Option.any_eq_true _ _).mp ok
      obtain ⟨enough, rfl⟩ := inv.printed printed
      obtain ⟨t, r, rfl⟩ := inv.exists_cons
      obtain ⟨only, spares⟩ := of_decide_eq_true meets
      obtain ⟨after', blocks', call, inv'⟩ := inv.aloca positive request.1 request.2 range enough
        only spares
      rw [call] at moved
      cases moved
      exact ⟨blocks', inv'⟩
    · simp only [next, if_neg request] at moved
      cases moved
  | desaloca p =>
    by_cases live : p ∈ before.live.map Prod.fst
    · obtain ⟨after', blocks', call, inv'⟩ := inv.desaloca positive range live
      rw [call] at moved
      cases moved
      exact ⟨blocks', inv'⟩
    · simp only [next, if_neg live] at moved
      cases moved

/-- **The bytes handed out are safe under the condition**, in every state of every run of calls that
meet it: every live pointer can be freed, and a request that splits no block but the first is answered
with a safe state exactly if it spares the first block. -/
theorem payload_safe (positive : 0 < holeSize) (room : holeSize < n) (range : n ≤ 2 ^ 31 - 1)
    (reach : Reach (next holeSize base) (fun run call => careful holeSize base run call = true)
      (inicio holeSize base n) run) :
    Safe holeSize base n run ∧
    (∀ p ∈ run.live.map Prod.fst, (next holeSize base run (.desaloca p)).isSome = true) ∧
    ∃ tams, (∀ fuel, tams.length < fuel → tamanhos base run.memory fuel = some tams) ∧
      ∀ size fuel, 0 < size → size + holeSize ≤ 2 ^ 31 - 1 → tams.length < fuel →
        OnlyFirst holeSize size tams →
        ((∃ after, next holeSize base run (.aloca size fuel) = some after ∧
            Safe holeSize base n after) ↔ Spares holeSize size tams) := by
  obtain ⟨blocks, inv⟩ := inv_of_careful positive room range reach
  refine ⟨inv.safe positive, fun p live => ?_, blocks.map Prod.snd, fun fuel enough => ?_,
    fun size fuel asked sized enough only => ?_⟩
  · obtain ⟨after, blocks', call, -⟩ := inv.desaloca positive range live
    rw [call]
    rfl
  · exact tamanhos_eq inv.wellFormed (by simpa using enough)
  · obtain ⟨t, r, rfl⟩ := inv.exists_cons
    have passes : r.length + 1 < fuel := by simpa using enough
    constructor
    · rintro ⟨after, call, safe⟩
      exact inv.spares positive asked sized passes call safe
    · intro spares
      obtain ⟨after, blocks', call, kept⟩ := inv.aloca positive asked sized range passes only spares
      exact ⟨after, call, kept.safe positive⟩

/-- Two splits, a free that joins nothing, an exact fit of the freed block, and a free that joins
the other block with the hole. -/
theorem payload_safe_four : ∃ run, Reach (next 24 0)
      (fun run call => careful 24 0 run call = true) (inicio 24 0 200) run ∧
    run.live = [(136, 40)] ∧ Safe 24 0 200 run := by
  have reach : Reach (next 24 0) (fun run call => careful 24 0 run call = true)
      (inicio 24 0 200) _ :=
    reach_of_execute [.aloca 40 4, .aloca 60 4, .desaloca 136, .aloca 40 4, .desaloca 52] .start rfl
  exact ⟨_, reach, by decide, (payload_safe (by decide) (by decide) (by decide) reach).1⟩

/-- `inicializa_memoria(100)`, `meu_aloca(12)`, `meu_aloca(40)`: the second call fits the hole
exactly, and its bytes are those of the header of the first allocation. -/
theorem payload_overlap : ∃ run, Reachable (next 24 0) (inicio 24 0 100) run ∧
    ¬ Safe 24 0 100 run := by
  refine ⟨_, reach_of_execute [.aloca 12 3, .aloca 40 3] .start rfl, fun safe => ?_⟩
  have overlap := safe.headers (24, 40) (by decide) 40 (.later rfl (.here rfl))
  omega

/-- **To spare the first block is not enough**: after two splits and a free, a request of 50 bytes
splits the block at 752, and one of 126 bytes fits what is left of it exactly. Its bytes are those of
the header at 878. -/
theorem split_behind_overlap : ∃ run, Reach (next 24 0)
      (fun run call => meets 0 (fun size tams => decide (Spares 24 size tams)) run call = true)
      (inicio 24 0 1000) run ∧ ¬ Safe 24 0 1000 run := by
  refine ⟨_, reach_of_execute [.aloca 200 5, .aloca 698 5, .desaloca 776, .aloca 50 5, .aloca 126 5]
    .start rfl, fun safe => ?_⟩
  have overlap := safe.headers (776, 126) (by decide) 878
    (.later rfl (.later rfl (.later rfl (.here rfl))))
  omega

end Unity
