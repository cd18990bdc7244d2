/-
**`meu_alloc.c`: the functions on lists of blocks.**

No function of `meu_alloc.c` reads `ant`. What they do is said here of the list of blocks that `tam`
and `prox` give, whatever the back links hold; a new header is taken to be away from the others.

* `Blocos` — the blocks of a state, from `listaMemoria` on.
* `onList_iff` — they are what the links lead to; `blocos_unique` — there is one list of them.
* `loop_eq_foldl` — a loop down the list is a fold over its blocks.
* `dividir_spec` — a split puts the new block behind the one split.
* `Com.merge_linked` — **`merge` coalesces the list**: every run of free blocks becomes one. It is
  proved for any description of the list by fields of its headers (`Campos`) and any sums that are
  exact up to what the list accounts for (`Exata`); `merge_spec` is the one for `Blocos`.
* `meuLibera_linked`, `meuLibera_spec` — `meu_libera` marks a block free and coalesces.
-/

import SistemasOperacionais.MeuAlloc.Arena
import SistemasOperacionais.Data.Coalesce

namespace MeuAlloc

open Headers Coalesce

/-! ### The blocks of a state -/

/-- The fields that the functions read. -/
def tamProx (hole : Hole) : ℤ × Option ℤ := (hole.tam, hole.prox)

/-- The two fields of a block, from its `tam` and the block behind it. -/
def simples (tam : ℤ) (prox _ant : Option ℤ) : ℤ × Option ℤ := (tam, prox)

/-- Blocks linked by `prox`, in memory. -/
abbrev Ligados (h : ℤ) (memory : Memory Hole) (blocks : List Block) : Prop :=
  Linked h simples (view tamProx memory) blocks

/-- **The blocks from `listaMemoria` on.** -/
structure Blocos (h : ℤ) (s : State) (blocks : List Block) : Prop where
  head : s.listaMemoria = first blocks none
  linked : Ligados h s.memory blocks

variable {h : ℤ} {memory : Memory Hole} {s : State} {blocks l r : List Block} {a t : ℤ}

/-- The header behind two fields read. -/
theorem hole_of_view {prox : Option ℤ} (seen : view tamProx memory a = some (t, prox)) :
    ∃ hole, memory a = some hole ∧ hole.tam = t ∧ hole.prox = prox := by
  obtain ⟨hole, found, fields⟩ := view_eq_some.mp seen
  exact ⟨hole, found, congrArg Prod.fst fields, congrArg Prod.snd fields⟩

/-- The header of a block. -/
theorem load_hole (linked : Ligados h memory (l ++ (a, t) :: r)) :
    ∃ hole, memory a = some hole ∧ hole.tam = t ∧ hole.prox = first r none :=
  hole_of_view linked.load

/-- The header of the block behind. -/
theorem load_next {b u : ℤ} (linked : Ligados h memory (l ++ (a, t) :: (b, u) :: r)) :
    ∃ hole, memory b = some hole ∧ hole.tam = u ∧ hole.prox = first r none :=
  hole_of_view linked.loadNext

/-- The blocks of a list are what its links lead to. -/
theorem onList_iff {prev : Option ℤ} {x : ℤ}
    (chain : Chain simples (view tamProx memory) prev blocks none) :
    OnList Hole.prox memory (first blocks none) x ↔ ∃ t, (x, t) ∈ blocks := by
  induction blocks generalizing prev with
  | nil => exact ⟨nofun, fun ⟨t, member⟩ => absurd member List.not_mem_nil⟩
  | cons block rest ih =>
    obtain ⟨here, chain⟩ := chain
    obtain ⟨hole, found, _, link⟩ := hole_of_view here
    constructor
    · intro reached
      cases reached with
      | here => exact ⟨block.2, List.mem_cons_self⟩
      | later other reached =>
        rw [found] at other
        cases other
        rw [link] at reached
        obtain ⟨t, member⟩ := (ih chain).mp reached
        exact ⟨t, List.mem_cons_of_mem _ member⟩
    · rintro ⟨t, member⟩
      rcases List.mem_cons.mp member with rfl | member
      · exact .here found
      · refine .later found ?_
        rw [link]
        exact (ih chain).mpr ⟨t, member⟩

/-- A state has one list of blocks. -/
theorem blocos_unique {blocks' : List Block} (one : Blocos h s blocks)
    (other : Blocos h s blocks') : blocks = blocks' :=
  chain_unique Prod.snd (fun _ _ _ => rfl) (fun _ _ _ _ _ => congrArg Prod.fst) one.linked.chain
    other.linked.chain (one.head.symm.trans other.head)

/-- Walking a list meets the header of every block. -/
theorem walk_of_ligados {prev : Option ℤ} {fuel : ℕ}
    (chain : Chain simples (view tamProx memory) prev blocks none)
    (enough : blocks.length < fuel) :
    ∃ nodes, walk Hole.prox memory fuel (first blocks none) = some nodes ∧
      ∀ block ∈ blocks, ∀ hole, memory block.1 = some hole → (block.1, hole) ∈ nodes := by
  induction blocks generalizing prev fuel with
  | nil =>
    obtain ⟨more, rfl⟩ := Nat.exists_eq_add_of_lt enough
    exact ⟨[], rfl, fun block member => absurd member List.not_mem_nil⟩
  | cons block rest ih =>
    obtain ⟨here, chain⟩ := chain
    obtain ⟨hole, found, _, link⟩ := hole_of_view here
    obtain ⟨more, rfl⟩ : ∃ more, fuel = more + 1 := ⟨fuel - 1, by omega⟩
    obtain ⟨nodes, walked, every⟩ := ih chain (show rest.length < more by simpa using enough)
    refine ⟨(block.1, hole) :: nodes, ?_, fun other member header there => ?_⟩
    · show walk Hole.prox memory (more + 1) (some block.1) = _
      rw [walk, found, Option.bind_eq_bind, Option.bind_some, link, walked]
      rfl
    · rcases List.mem_cons.mp member with rfl | member
      · rw [found] at there
        cases there
        exact List.mem_cons_self
      · exact List.mem_cons_of_mem _ (every other member header there)

/-- **A loop down the list is a fold over its blocks.** -/
theorem loop_eq_foldl {σ : Type} (loop : ℕ → Option ℤ → σ → Option σ) (update : σ → Block → σ)
    (finish : ∀ fuel acc, loop (fuel + 1) none acc = some acc)
    (pass : ∀ fuel a acc hole, memory a = some hole →
      loop (fuel + 1) (some a) acc = loop fuel hole.prox (update acc (a, hole.tam)))
    {prev : Option ℤ} {fuel : ℕ} (chain : Chain simples (view tamProx memory) prev blocks none)
    (enough : blocks.length < fuel) (acc : σ) :
    loop fuel (first blocks none) acc = some (blocks.foldl update acc) := by
  induction blocks generalizing prev fuel acc with
  | nil =>
    obtain ⟨more, rfl⟩ := Nat.exists_eq_add_of_lt enough
    exact finish _ acc
  | cons block rest ih =>
    obtain ⟨here, chain⟩ := chain
    obtain ⟨hole, found, tam, prox⟩ := hole_of_view here
    obtain ⟨more, rfl⟩ : ∃ more, fuel = more + 1 := ⟨fuel - 1, by omega⟩
    have short : rest.length < more := by simpa using enough
    show loop (more + 1) (some block.1) acc = _
    rw [pass more block.1 acc hole found, prox, tam]
    exact ih chain short _

/-! ### The split -/

/-- **A split** puts the new block, at the place given, behind the one split. -/
theorem dividir_spec (lugar : ℤ → ℤ → ℤ → ℤ) (tam : ℤ) (positive : 0 < h)
    (linked : Ligados h s.memory (l ++ (a, t) :: r))
    (fresh : ∀ block ∈ l ++ (a, t) :: r, Apart h (lugar a t tam) block.1)
    (sizes : ℤ → ℤ × ℤ) :
    ∃ memory, dividir h lugar s a tam sizes =
        some (some (lugar a t tam + h),
          { s with memory := memory, ptrNextFit := some (lugar a t tam) }) ∧
      Ligados h memory (l ++ (a, (sizes t).1) :: (lugar a t tam, (sizes t).2) :: r) := by
  obtain ⟨hole, found, rfl, link⟩ := load_hole linked
  have inserted := linked.insert positive fresh (sizes hole.tam).1 (sizes hole.tam).2
  have away : Apart h (lugar a hole.tam tam) a := fresh (a, hole.tam) (by simp)
  obtain ⟨_, behind⟩ := spread_split linked.spread
  unfold dividir
  simp only [found, Option.bind_eq_bind, Option.bind_some, link,
    modify_eq ((store_apart positive away).trans found)]
  cases r with
  | nil =>
    refine ⟨_, rfl, ?_⟩
    rw [Ligados, view_store, view_store]
    exact inserted
  | cons block rest =>
    obtain ⟨next, there, tamNext, proxNext⟩ := load_next linked
    have kept : ∀ made shrunk, store h (store h s.memory (lugar a hole.tam tam) made) a shrunk
        block.1 = some next := fun made shrunk =>
      (store_apart positive (behind block List.mem_cons_self)).trans
        ((store_apart positive (fresh block (by simp))).trans there)
    simp only [first, modify_eq (kept _ _), Option.bind_some]
    have fields : ∀ ant, tamProx { next with ant := ant } =
        simples block.2 (first rest none) ant := fun ant => Prod.ext tamNext proxNext
    refine ⟨_, rfl, ?_⟩
    rw [Ligados, view_store, view_store, view_store, fields]
    exact inserted

/-! ### `merge` -/

/-- A block that `merge` takes for free. -/
def livre (block : Block) : Bool := decide (0 ≤ block.2)

theorem livre_iff {block : Block} : livre block = true ↔ 0 ≤ block.2 := decide_eq_true_iff

theorem joins (positive : 0 < h) : Joins livre (joined h) :=
  joins_joined fun x y left right => by
    rw [livre_iff] at left right ⊢
    show 0 ≤ x.2 + h + y.2
    omega

/-- Joining free blocks keeps what the list accounts for. -/
theorem total_livres (positive : 0 < h) (blocks : List Block) :
    total h (coalesce livre (joined h) blocks) = total h blocks :=
  total_coalesce positive (fun _ free => livre_iff.mp free) blocks

/-- The sum that `merge` makes of two free blocks is exact up to a limit. -/
def Exata (int : ℤ → ℤ) (h limite : ℤ) : Prop :=
  ∀ x y, 0 ≤ x → 0 ≤ y → x + h + y ≤ limite → int (int (x + h) + y) = x + h + y

theorem exata_id (h limite : ℤ) : Exata id h limite := fun _ _ _ _ _ => rfl

/-- Fields of a header by which a list may be described: `tam` and `prox` are among them, and a
change of `ant` shows only in `ant`. -/
structure Campos {M : Type} (read : Hole → M) (mk : ℤ → Option ℤ → Option ℤ → M) : Prop where
  fields : ∀ {hole : Hole} {tam : ℤ} {prox ant : Option ℤ}, read hole = mk tam prox ant →
    hole.tam = tam ∧ hole.prox = prox
  change : ∀ {hole : Hole} {tam : ℤ} {prox ant : Option ℤ}, read hole = mk tam prox ant →
    ∀ tam' prox', read ⟨tam', hole.ant, prox'⟩ = mk tam' prox' ant
  back : ∀ {hole : Hole} {tam : ℤ} {prox ant : Option ℤ}, read hole = mk tam prox ant →
    ∀ ant', read { hole with ant := ant' } = mk tam prox ant'

theorem campos_simples : Campos tamProx simples where
  fields same := ⟨congrArg Prod.fst same, congrArg Prod.snd same⟩
  change _ _ _ := rfl
  back same _ := same

section Listas

variable {M : Type} {read : Hole → M} {mk : ℤ → Option ℤ → Option ℤ → M} (campos : Campos read mk)
  (positive : 0 < h)

include campos positive

/-- **Two blocks become one** at the address of the first, and the list is linked as before. -/
theorem absorve_spec {b u : ℤ} {hole next : Hole}
    (linked : Linked h mk (view read memory) (l ++ (a, t) :: (b, u) :: r))
    (found : memory a = some hole) (there : memory b = some next) (tam : ℤ) :
    ∃ memory', absorve h memory a hole next tam = some memory' ∧
      Linked h mk (view read memory') (l ++ (a, tam) :: r) := by
  have taken := linked.unlink positive tam
  obtain ⟨hole', found', here⟩ := view_eq_some.mp linked.load
  obtain ⟨next', there', behind⟩ := view_eq_some.mp linked.loadNext
  cases found.symm.trans found'
  cases there.symm.trans there'
  obtain ⟨_, away⟩ := spread_split linked.spread
  unfold absorve
  rw [(campos.fields behind).2]
  cases r with
  | nil =>
    refine ⟨_, rfl, ?_⟩
    rw [view_store, campos.change here]
    exact taken
  | cons block rest =>
    have shifted : Linked h mk (view read memory)
        ((l ++ [(a, t)]) ++ (b, u) :: block :: rest) := by simpa using linked
    obtain ⟨far, beyond, fields⟩ := view_eq_some.mp shifted.loadNext
    have kept : ∀ joined, store h memory a joined block.1 = some far := fun joined =>
      (store_apart positive (away block (by simp))).trans beyond
    refine ⟨_, modify_eq (kept _), ?_⟩
    rw [view_store, view_store, campos.change here, campos.back fields]
    exact taken

/-- **`merge` from a block on**, with the blocks before it left alone, as long as the sums are exact. If
there is nothing to join, nothing is written. -/
theorem Com.merge_from {int : ℤ → ℤ} {limite : ℤ} (exata : Exata int h limite) {r : List Block} :
    ∀ {l : List Block} {a t : ℤ} {memory : Memory Hole},
    Linked h mk (view read memory) (l ++ (a, t) :: r) → total h ((a, t) :: r) ≤ limite →
    ∃ memory', (∀ fuel, r.length + 1 < fuel →
        Com.merge h int memory fuel (some a) = some memory') ∧
      Linked h mk (view read memory') (l ++ coalesce livre (joined h) ((a, t) :: r)) ∧
      (Settled livre ((a, t) :: r) → memory' = memory) := by
  induction r with
  | nil =>
    intro l a t memory linked _
    obtain ⟨hole, found, here⟩ := view_eq_some.mp linked.load
    refine ⟨memory, fun fuel enough => ?_, linked, fun _ => rfl⟩
    obtain ⟨more, rfl⟩ : ∃ more, fuel = more + 2 := ⟨fuel - 2, by simp at enough; omega⟩
    rw [Com.merge_succ, corpo_fim found (campos.fields here).2]
    split <;> rfl
  | cons block r ih =>
    intro l a t memory linked fits
    obtain ⟨b, u⟩ := block
    obtain ⟨hole, found, here⟩ := view_eq_some.mp linked.load
    obtain ⟨next, there, behind⟩ := view_eq_some.mp linked.loadNext
    obtain ⟨rfl, link⟩ := campos.fields here
    obtain ⟨rfl, _⟩ := campos.fields behind
    rw [total_cons, total_cons] at fits
    by_cases both : livre (a, hole.tam) = true ∧ livre (b, next.tam) = true
    · -- the block behind is taken in, and the loop stays where it is
      have left : 0 ≤ hole.tam := livre_iff.mp both.1
      have right : 0 ≤ next.tam := livre_iff.mp both.2
      have rest := total_nonneg positive r
      rw [abs_of_nonneg left, abs_of_nonneg right] at fits
      have sum := exata hole.tam next.tam left right (by omega)
      obtain ⟨joined, taken, linked⟩ := absorve_spec campos positive linked found there
        (hole.tam + h + next.tam)
      obtain ⟨memory', run, result, _⟩ := ih linked (by
        rw [total_cons, abs_of_nonneg (show 0 ≤ hole.tam + h + next.tam by omega)]
        omega)
      refine ⟨memory', fun fuel enough => ?_, ?_, fun settled => ?_⟩
      · obtain ⟨more, rfl⟩ : ∃ more, fuel = more + 1 := ⟨fuel - 1, by omega⟩
        rw [Com.merge_succ, corpo_absorve found left link there right, sum, taken]
        exact run more (by simpa using enough)
      · rw [coalesce, coalesce, push_push (joins positive) both.1 both.2]
        exact result
      · exact absurd both (List.isChain_cons_cons.mp settled).1
    · -- the loop goes on to the block behind
      have shifted : Linked h mk (view read memory)
          ((l ++ [(a, hole.tam)]) ++ (b, next.tam) :: r) := by simpa using linked
      have size := abs_nonneg hole.tam
      obtain ⟨memory', run, result, same⟩ := ih shifted (by
        rw [total_cons]
        dsimp only at fits ⊢
        omega)
      refine ⟨memory', fun fuel enough => ?_, ?_, fun settled => same settled.tail⟩
      · obtain ⟨more, rfl⟩ : ∃ more, fuel = more + 1 := ⟨fuel - 1, by omega⟩
        rw [livre_iff, livre_iff] at both
        rw [Com.merge_succ, corpo_passa found link there both]
        exact run more (by simpa using enough)
      · have apart : coalesce livre (joined h) ((a, hole.tam) :: (b, next.tam) :: r) =
            (a, hole.tam) :: coalesce livre (joined h) ((b, next.tam) :: r) := by
          refine push_of_not fun y first => ?_
          obtain ⟨y', tail, same, kind⟩ := head_push (joins positive) (b, next.tam)
            (coalesce livre (joined h) r)
          rw [coalesce, same] at first
          cases first
          rw [kind]
          exact both
        rw [apart]
        simpa using result

/-- **`merge` coalesces the list**, by whichever fields it is described, as long as the sums are
exact. -/
theorem Com.merge_linked {int : ℤ → ℤ} {limite : ℤ} (exata : Exata int h limite)
    (linked : Linked h mk (view read memory) blocks) (fits : total h blocks ≤ limite) :
    ∃ memory', (∀ fuel, blocks.length < fuel →
        Com.merge h int memory fuel (first blocks none) = some memory') ∧
      Linked h mk (view read memory') (coalesce livre (joined h) blocks) ∧
      (Settled livre blocks → memory' = memory) := by
  cases blocks with
  | nil =>
    refine ⟨memory, fun fuel enough => ?_, linked, fun _ => rfl⟩
    obtain ⟨more, rfl⟩ := Nat.exists_eq_add_of_lt enough
    rfl
  | cons block rest =>
    have whole : Linked h mk (view read memory) ([] ++ block :: rest) := linked
    exact Com.merge_from campos positive exata whole fits

/-- `meu_libera` of a block on the list, by whichever fields it is described. -/
theorem meuLibera_linked {b u : ℤ}
    (linked : Linked h mk (view read s.memory) (l ++ (b, u) :: r))
    (head : s.listaMemoria = first (l ++ (b, u) :: r) none) :
    ∃ memory, (∀ fuel, (l ++ (b, u) :: r).length < fuel →
        meuLibera h s fuel (some (b + h)) = some { s with memory := memory }) ∧
      Linked h mk (view read memory) (coalesce livre (joined h) (l ++ (b, mod u) :: r)) := by
  obtain ⟨hole, found, here⟩ := view_eq_some.mp linked.load
  obtain ⟨rfl, link⟩ := campos.fields here
  have marked : Linked h mk
      (view read (store h s.memory b { hole with tam := mod hole.tam }))
      (l ++ (b, mod hole.tam) :: r) := by
    rw [view_store, campos.change here, link]
    exact linked.set positive (mod hole.tam)
  obtain ⟨memory, run, result, _⟩ := Com.merge_linked campos positive (exata_id h _) marked le_rfl
  refine ⟨memory, fun fuel enough => ?_, result⟩
  have start : s.listaMemoria = first (l ++ (b, mod hole.tam) :: r) none :=
    head.trans (first_replace l _ _ b _ _ none none)
  rw [meuLibera, Int.add_sub_cancel, modify_eq found, start, Option.bind_eq_bind,
    Option.bind_some, merge, run fuel (by simpa using enough)]
  rfl

end Listas

/-- The list still starts where it did. -/
theorem first_libera (h : ℤ) (l r : List Block) (b u : ℤ) :
    first (l ++ (b, u) :: r) none =
      first (coalesce livre (joined h) (l ++ (b, mod u) :: r)) none :=
  (first_replace l _ _ b _ _ none none).trans (first_coalesce _).symm

/-- `merge` on the blocks that `tam` and `prox` give. -/
theorem merge_spec (positive : 0 < h) {fuel : ℕ} (linked : Ligados h memory blocks)
    (enough : blocks.length < fuel) :
    ∃ memory', merge h memory fuel (first blocks none) = some memory' ∧
      Ligados h memory' (coalesce livre (joined h) blocks) := by
  obtain ⟨memory', run, result, _⟩ := Com.merge_linked campos_simples positive (exata_id h _) linked
    le_rfl
  exact ⟨memory', run fuel enough, result⟩

/-- **`meu_libera` of a block on the list** marks it free and coalesces. -/
theorem meuLibera_spec (positive : 0 < h) {b u : ℤ} {fuel : ℕ}
    (blocos : Blocos h s (l ++ (b, u) :: r)) (enough : (l ++ (b, u) :: r).length < fuel) :
    ∃ memory, meuLibera h s fuel (some (b + h)) = some { s with memory := memory } ∧
      Blocos h { s with memory := memory } (coalesce livre (joined h) (l ++ (b, mod u) :: r)) := by
  obtain ⟨memory, run, linked⟩ := meuLibera_linked campos_simples positive blocos.linked blocos.head
  exact ⟨memory, run fuel enough, blocos.head.trans (first_libera h l r b u), linked⟩

end MeuAlloc
