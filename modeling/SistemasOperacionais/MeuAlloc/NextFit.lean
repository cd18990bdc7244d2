/-
**`meu_alloc.c`: `nextfit` over whole runs.**

`nextfit` starts at `ptrNextFit` and goes around the list until it is back there. `merge` takes
headers off the list without looking at `ptrNextFit`. Headers are objects here: the `k`-th header made
has the address `endereco k`, away from all others, and keeps it when it is taken off the list.

* `Cliente`, `proximo` — a client's run over the four methods and `meu_libera`.
* `nextfit_lost` — a run after which `ptrNextFit` is off the list, and `nextfit` of a request that
  nothing can hold goes around forever.
* `Segura` — the condition on a call of `meu_libera`: the block at `ptrNextFit` and the one before it
  are not both free afterwards, so that `merge` leaves the header that `ptrNextFit` points to.
* `Volta` — what such runs keep.
* `nextfit_complete` — **in every state of every run of calls that meet the condition `ptrNextFit` is
  on the list, `nextfit` returns, and it refuses exactly the requests that no block can hold.**
-/

import SistemasOperacionais.MeuAlloc.RoundTrip

namespace MeuAlloc

open Headers Coalesce Transition

variable {h base : ℤ}

/-! ### Runs with headers as objects -/

/-- The address of the `k`-th header. -/
def endereco (h base : ℤ) (k : ℕ) : ℤ := base + h * k

/-- The allocator, the pointers returned and not yet freed, and the number of headers made. -/
structure Cliente where
  state : State
  live : List ℤ
  feitos : ℕ

/-- After `inicializa_mem()`. -/
def comeco (h base : ℤ) : Cliente := ⟨inicializaMem h base, [], 1⟩

/-- One call: `meu_aloca` of a positive size, or `meu_libera` of a live pointer. The bound on the
passes of the loops is more than the number of headers. -/
def proximo (h base : ℤ) (c : Cliente) : Call → Option Cliente
  | .aloca metodo tam fuel =>
      if 0 < tam ∧ c.feitos < fuel then do
        let (result, state) ← meuAloca h (fun _ _ _ => endereco h base c.feitos) c.state fuel
          metodo tam
        match result with
        | none => some { c with state := state }
        | some p => some ⟨state, c.live ++ [p], c.feitos + 1⟩
      else none
  | .libera ponteiro fuel =>
      if ponteiro ∈ c.live ∧ c.feitos < fuel then do
        let state ← meuLibera h c.state fuel (some ponteiro)
        some ⟨state, c.live.erase ponteiro, c.feitos⟩
      else none

/-! ### A run that loses `ptrNextFit` -/

/-- **A `nextfit` that never ends**: after `meu_libera(meu_aloca(2, 30))` the header that
`ptrNextFit` points to is off the list. -/
theorem nextfit_lost : ∃ c, Reachable (proximo 24 0) (comeco 24 0) c ∧
    (∀ q ∈ c.state.ptrNextFit, ¬ OnList Hole.prox c.state.memory c.state.listaMemoria q) ∧
    ∀ fuel, nextfit 24 (fun _ _ _ => endereco 24 0 c.feitos) c.state fuel 2000 = none := by
  have evaluated : ∃ c : Cliente, Reachable (proximo 24 0) (comeco 24 0) c ∧
      c.state.listaMemoria = some 0 ∧ c.state.ptrNextFit = some 24 ∧
      c.state.memory 0 = some ⟨1024, none, none⟩ ∧
      c.state.memory 24 = some ⟨30, some 0, none⟩ :=
    exists_reach_of_execute [.aloca .best 30 5, .libera 48 5] _ (by decide +kernel)
  obtain ⟨c, reach, head, ptr, first, stale⟩ := evaluated
  refine ⟨c, reach, ?_, ?_⟩
  · intro q there reached
    rw [ptr] at there
    cases there
    rw [head] at reached
    cases reached with
    | later found reached =>
      rw [first] at found
      cases found
      cases reached
  · have around : ∀ fuel, nextfitLoop c.state (2000 + 24) fuel (some 0) = none := by
      intro fuel
      induction fuel with
      | zero => rfl
      | succ fuel ih =>
        have here : view (emVolta c.state.listaMemoria) c.state.memory 0 = some (1024, some 0) := by
          rw [head]
          exact view_eq_some.mpr ⟨_, first, rfl⟩
        rw [nextfitLoop_succ here, ptr]
        exact ih
    intro fuel
    have lost : nextfitLoop c.state (2000 + 24) fuel (some 24) = none := by
      cases fuel with
      | zero => rfl
      | succ fuel =>
        have here : view (emVolta c.state.listaMemoria) c.state.memory 24 = some (30, some 0) := by
          rw [head]
          exact view_eq_some.mpr ⟨_, stale, rfl⟩
        rw [nextfitLoop_succ here, ptr]
        exact around fuel
    rw [nextfit, ptr, lost]
    rfl

/-! ### The headers in memory -/

/-- Every header in memory is one of the first `n`. -/
def Grade (h base : ℤ) (n : ℕ) (memory : Memory Hole) : Prop :=
  ∀ x, memory x ≠ none → ∃ k < n, x = endereco h base k

/-- Different headers do not overlap. -/
theorem apart_endereco (positive : 0 < h) {j k : ℕ} (different : j ≠ k) :
    Apart h (endereco h base j) (endereco h base k) := by
  have ordered : ∀ {j k : ℕ}, j < k → endereco h base j + h ≤ endereco h base k := by
    intro j k less
    have steps : h * ((j : ℤ) + 1) ≤ h * k :=
      Int.mul_le_mul_of_nonneg_left (by omega) positive.le
    unfold endereco
    rw [Int.mul_add, Int.mul_one] at steps
    omega
  rcases Nat.lt_or_gt_of_ne different with less | more
  · exact .inl (ordered less)
  · exact .inr (ordered more)

theorem Grade.store {n : ℕ} {memory : Memory Hole} (grade : Grade h base n memory) {k : ℕ}
    (known : k < n) (hole : Hole) : Grade h base n (store h memory (endereco h base k) hole) := by
  intro x present
  unfold Headers.store at present
  split at present
  · exact ⟨k, known, ‹_›⟩
  · split at present
    · exact absurd rfl present
    · exact grade x present

theorem Grade.modify {n : ℕ} {memory memory' : Memory Hole} (grade : Grade h base n memory) {x : ℤ}
    {change : Hole → Hole} (changed : modify h memory x change = some memory') :
    Grade h base n memory' := by
  obtain ⟨hole, found, rfl⟩ := Option.map_eq_some_iff.mp changed
  obtain ⟨k, known, rfl⟩ := grade x (by rw [found]; exact Option.some_ne_none hole)
  exact grade.store known _

theorem Grade.mono {n m : ℕ} {memory : Memory Hole} (grade : Grade h base n memory) (le : n ≤ m) :
    Grade h base m memory := by
  intro x present
  obtain ⟨k, known, same⟩ := grade x present
  exact ⟨k, Nat.lt_of_lt_of_le known le, same⟩

/-- `merge` makes no header. -/
theorem Grade.merge {n fuel : ℕ} {memory memory' : Memory Hole} {atual : Option ℤ}
    (grade : Grade h base n memory) (merged : merge h memory fuel atual = some memory') :
    Grade h base n memory' := by
  induction fuel generalizing memory atual with
  | zero => cases merged
  | succ fuel ih =>
    cases atual with
    | none =>
      cases merged
      exact grade
    | some a =>
      obtain ⟨hole, found, merged⟩ := Option.bind_eq_some_iff.mp merged
      split at merged
      · split at merged
        · cases merged
          exact grade
        · obtain ⟨next, _, merged⟩ := Option.bind_eq_some_iff.mp merged
          split at merged
          · obtain ⟨linked, first, merged⟩ := Option.bind_eq_some_iff.mp merged
            obtain ⟨grown, second, merged⟩ := Option.bind_eq_some_iff.mp merged
            have here := (grade.modify first).modify second
            split at merged
            · exact ih here merged
            · obtain ⟨pointed, third, merged⟩ := Option.bind_eq_some_iff.mp merged
              exact ih (here.modify third) merged
          · exact ih grade merged
      · exact ih grade merged

/-- `meu_libera` makes no header. -/
theorem Grade.libera {n fuel : ℕ} {s after : State} {p : ℤ} (grade : Grade h base n s.memory)
    (freed : meuLibera h s fuel (some p) = some after) : Grade h base n after.memory := by
  obtain ⟨marked, changed, freed⟩ := Option.bind_eq_some_iff.mp freed
  obtain ⟨merged, run, freed⟩ := Option.bind_eq_some_iff.mp freed
  cases freed
  exact (grade.modify changed).merge run

/-- A split makes the next one. -/
theorem Grade.dividir {n : ℕ} {s after : State} {a tam : ℤ} {sizes : ℤ → ℤ × ℤ}
    {result : Option ℤ} (grade : Grade h base n s.memory)
    (split : dividir h (fun _ _ _ => endereco h base n) s a tam sizes = some (result, after)) :
    Grade h base (n + 1) after.memory := by
  obtain ⟨hole, found, split⟩ := Option.bind_eq_some_iff.mp split
  obtain ⟨shrunk, changed, split⟩ := Option.bind_eq_some_iff.mp split
  have made := ((grade.mono (Nat.le_succ n)).store (Nat.lt_succ_self n) _).modify changed
  split at split
  · cases split
    exact made
  · obtain ⟨pointed, third, split⟩ := Option.bind_eq_some_iff.mp split
    cases split
    exact made.modify third

/-- The next header is away from all others. -/
theorem Grade.fresh {n : ℕ} {memory : Memory Hole} {x : ℤ} {hole : Hole} (positive : 0 < h)
    (grade : Grade h base n memory) (found : memory x = some hole) :
    Apart h (endereco h base n) x := by
  obtain ⟨k, known, rfl⟩ := grade x (by rw [found]; exact Option.some_ne_none hole)
  exact apart_endereco positive (Nat.ne_of_gt known)

/-- Two headers in memory are one or do not overlap. -/
theorem Grade.apart {n : ℕ} {memory : Memory Hole} {x y : ℤ} {hole other : Hole} (positive : 0 < h)
    (grade : Grade h base n memory) (found : memory x = some hole) (there : memory y = some other)
    (different : x ≠ y) : Apart h x y := by
  obtain ⟨j, _, rfl⟩ := grade x (by rw [found]; exact Option.some_ne_none hole)
  obtain ⟨k, _, rfl⟩ := grade y (by rw [there]; exact Option.some_ne_none other)
  refine apart_endereco positive fun same => different ?_
  rw [same]

/-! ### What is kept -/

/-- The header at `x` is free once `p` was given to `meu_libera`. -/
def Livra (h p x : ℤ) (hole : Hole) : Prop := 0 ≤ hole.tam ∨ x + h = p

instance (h p x : ℤ) (hole : Hole) : Decidable (Livra h p x hole) :=
  inferInstanceAs (Decidable (_ ∨ _))

/-- **The condition on a call**: `meu_libera` does not leave the block at `ptrNextFit` free behind a
free block. -/
def Segura (h : ℤ) (c : Cliente) : Call → Prop
  | .aloca _ _ _ => True
  | .libera p _ =>
      ∀ nodes ∈ walk Hole.prox c.state.memory (c.feitos + 1) c.state.listaMemoria,
        ∀ node ∈ nodes, ∀ q ∈ c.state.ptrNextFit, ∀ hole ∈ c.state.memory q,
          node.2.prox = some q → ¬ (Livra h p node.1 node.2 ∧ Livra h p q hole)

instance (h : ℤ) (c : Cliente) (call : Call) : Decidable (Segura h c call) := by
  cases call <;> unfold Segura <;> infer_instance

/-- **What the runs keep.** -/
structure Volta (h base : ℤ) (c : Cliente) (blocks : List Block) : Prop where
  list : BemFormada h c.state blocks
  total : contabil h blocks = memoriaBase
  grade : Grade h base c.feitos c.state.memory
  short : blocks.length ≤ c.feitos

theorem volta_comeco (h base : ℤ) :
    Volta h base (comeco h base) [(base, memoriaBase)] where
  list := by
    refine ⟨⟨rfl, ⟨?_, trivial⟩, List.pairwise_singleton _ _⟩, List.isChain_singleton _,
      (base, memoriaBase), List.mem_singleton_self _, rfl⟩
    show view tamProx (store h (fun _ => none) base ⟨memoriaBase, none, none⟩) base = _
    exact view_eq_some.mpr ⟨_, store_self, rfl⟩
  total := by
    show mod memoriaBase + 0 + h * (((1 : ℕ) : ℤ) - 1) = memoriaBase
    rw [mod_of_nonneg (by decide)]
    simp
  grade := by
    have first : base = endereco h base 0 := by simp [endereco]
    have empty : Grade h base 1 fun _ => none := fun _ present => absurd rfl present
    show Grade h base 1 (store h (fun _ => none) base _)
    rw [first]
    exact first ▸ empty.store Nat.one_pos _
  short := Nat.le_refl 1

/-! ### Allocation -/

section Aloca

variable {c : Cliente} {blocks : List Block} {metodo : Metodo} {tam : ℤ} {fuel : ℕ}

/-- A new header is away from every block of the list. -/
theorem Volta.novo (positive : 0 < h) (volta : Volta h base c blocks) (tam : ℤ) :
    Novo h (fun _ _ _ => endereco h base c.feitos) tam blocks := by
  intro _ _ other member
  obtain ⟨l, r, rfl⟩ := List.append_of_mem member
  obtain ⟨hole, found, _, _⟩ := load_hole volta.list.blocos.linked
  exact volta.grade.fresh positive found

/-- A block of size `memoria_base` is the only one, and so the first. -/
theorem Volta.primeiro (positive : 0 < h) (volta : Volta h base c blocks) (minimo : ℤ) :
    Primeiro minimo blocks := by
  rintro ⟨block, member, fits, full⟩ _ first head
  rw [alone_of_contabil positive volta.total member full (by decide)] at head
  cases head
  exact fits

/-- **`meu_aloca` keeps the invariant.** -/
theorem Volta.aloca (positive : 0 < h) (volta : Volta h base c blocks) (asked : 0 < tam)
    (enough : c.feitos < fuel) {result : Option ℤ} {after : State}
    (call : meuAloca h (fun _ _ _ => endereco h base c.feitos) c.state fuel metodo tam =
      some (result, after)) :
    (result = none ∧ after = c.state) ∨
      (result ≠ none ∧ ∀ live, ∃ blocks', Volta h base ⟨after, live, c.feitos + 1⟩ blocks') := by
  rcases meuAloca_cases (fun _ _ _ => endereco h base c.feitos) metodo positive volta.list.blocos
    volta.list.ptr (fun _ => volta.primeiro positive _) asked
    (Nat.lt_of_le_of_lt volta.short enough) with refused | ⟨l, a, t, r, rfl, fits, split⟩
  · rw [refused] at call
    cases call
    exact .inl ⟨rfl, rfl⟩
  · rw [split] at call
    have here : (a, t) ∈ l ++ (a, t) :: r := List.mem_append_right _ List.mem_cons_self
    obtain ⟨memory, made, linked⟩ := dividir_spec (fun _ _ _ => endereco h base c.feitos) tam
      positive volta.list.blocos.linked (volta.novo positive tam (a, t) here)
      (metodo.metades h tam)
    have grade := volta.grade.dividir call
    rw [made] at call
    cases call
    refine .inr ⟨nofun, fun live => ⟨_, ⟨⟨?_, linked⟩, ?_, ?_⟩, ?_, grade, ?_⟩⟩
    · exact volta.list.blocos.head.trans (first_replace l _ _ a _ _ none none)
    · exact settled_metades metodo volta.list.settled positive asked fits
    · exact ⟨_, List.mem_append_right _ (List.mem_cons_of_mem _ List.mem_cons_self), rfl⟩
    · refine (contabil_dividir ?_).trans volta.total
      cases metodo with
      | first => exact halves_first positive asked fits
      | best | worst | next => exact halves_second positive asked fits
    · have short := volta.short
      simp only [List.length_append, List.length_cons] at short ⊢
      omega

end Aloca

/-! ### Freeing -/

section Libera

variable {c : Cliente} {blocks : List Block} {fuel : ℕ} {p b : ℤ}

/-- The block at `b` marked free. -/
def desmarca (b : ℤ) (block : Block) : Block := if block.1 = b then (b, mod block.2) else block

theorem desmarca_fst (b : ℤ) (block : Block) : (desmarca b block).1 = block.1 := by
  unfold desmarca
  split
  · exact Eq.symm ‹_›
  · rfl

theorem map_desmarca_of_ne (away : ∀ block ∈ blocks, block.1 ≠ b) :
    blocks.map (desmarca b) = blocks :=
  (List.map_congr_left fun block member => if_neg (away block member)).trans (List.map_id _)

/-- A block of the list marked free. -/
theorem map_desmarca {l r : List Block} {u : ℤ} (positive : 0 < h)
    (spread : Spread h (l ++ (b, u) :: r)) :
    (l ++ (b, u) :: r).map (desmarca b) = l ++ (b, mod u) :: r := by
  obtain ⟨before, after⟩ := spread_split spread
  have away : ∀ {block : Block}, Apart h b block.1 → block.1 ≠ b := by
    intro block apart same
    unfold Apart at apart
    omega
  rw [List.map_append, List.map_cons,
    map_desmarca_of_ne fun block member => away (before block member),
    map_desmarca_of_ne fun block member => away (after block member)]
  exact congrArg (l ++ · :: r) (if_pos rfl)

/-- **`meu_libera` in a run**: a block of the list, or a header off it, is marked free, and the list
is coalesced. -/
theorem Volta.libera_blocos (positive : 0 < h) (volta : Volta h base c blocks)
    (enough : c.feitos < fuel) {after : State}
    (freed : meuLibera h c.state fuel (some p) = some after) :
    after.ptrNextFit = c.state.ptrNextFit ∧
      Blocos h after (coalesce livre (joined h) (blocks.map (desmarca (p - h)))) := by
  obtain ⟨b, rfl⟩ : ∃ b, p = b + h := ⟨p - h, by omega⟩
  rw [Int.add_sub_cancel]
  have passes := Nat.lt_of_le_of_lt volta.short enough
  by_cases member : ∃ u, (b, u) ∈ blocks
  · obtain ⟨u, member⟩ := member
    obtain ⟨l, r, rfl⟩ := List.append_of_mem member
    obtain ⟨memory, run, blocos⟩ := meuLibera_spec positive volta.list.blocos passes
    rw [run] at freed
    cases freed
    rw [map_desmarca positive volta.list.blocos.linked.spread]
    exact ⟨rfl, blocos⟩
  · -- a header that an earlier `merge` has taken off the list
    have away : ∀ block ∈ blocks, block.1 ≠ b := fun block inside same =>
      member ⟨block.2, same ▸ inside⟩
    obtain ⟨marked, changed, freed⟩ := Option.bind_eq_some_iff.mp freed
    obtain ⟨hole, found, rfl⟩ := Option.map_eq_some_iff.mp changed
    obtain ⟨merged, run, freed⟩ := Option.bind_eq_some_iff.mp freed
    cases freed
    rw [Int.add_sub_cancel] at found run
    have kept : Ligados h (store h c.state.memory b { hole with tam := mod hole.tam }) blocks := by
      refine ⟨?_, volta.list.blocos.linked.spread⟩
      rw [view_store]
      refine volta.list.blocos.linked.chain.store positive fun block inside => ?_
      obtain ⟨l, r, rfl⟩ := List.append_of_mem inside
      obtain ⟨other, there, _, _⟩ := load_hole volta.list.blocos.linked
      exact volta.grade.apart positive found there (away block inside).symm
    obtain ⟨memory, same, linked⟩ := merge_spec positive kept passes
    rw [volta.list.blocos.head, same] at run
    cases run
    rw [map_desmarca_of_ne away, coalesce_of_settled volta.list.settled] at *
    exact ⟨rfl, volta.list.blocos.head, linked⟩

/-- Marking and coalescing keep the accounted total. -/
theorem contabil_libera (positive : 0 < h) (b : ℤ) (blocks : List Block) :
    contabil h (coalesce livre (joined h) (blocks.map (desmarca b))) = contabil h blocks := by
  have each : ∀ blocks : List Block, contabil h blocks =
      (blocks.map fun block => mod block.2 + h).sum - h := by
    intro blocks
    unfold contabil
    induction blocks with
    | nil => simp
    | cons block rest ih =>
      simp only [List.map_cons, List.sum_cons, List.length_cons] at ih ⊢
      push_cast
      linear_combination ih
  have marked : ∀ block : Block, mod (desmarca b block).2 = mod block.2 := by
    intro block
    unfold desmarca
    split
    · exact mod_of_nonneg (mod_nonneg _)
    · rfl
  rw [each, each, sum_coalesce (fun block : Block => mod block.2 + h), List.map_map]
  · simp only [Function.comp_def, marked]
  · intro x y left right
    rw [livre_iff] at left right
    show mod (x.2 + h + y.2) + h = _
    rw [mod_of_nonneg (by omega), mod_of_nonneg left, mod_of_nonneg right]
    omega

/-- **The block at `ptrNextFit` stays on the list.** -/
theorem Volta.ptr_libera (positive : 0 < h) (volta : Volta h base c blocks)
    (safe : Segura h c (.libera p fuel)) :
    ∃ block ∈ coalesce livre (joined h) (blocks.map (desmarca (p - h))),
      c.state.ptrNextFit = some block.1 := by
  obtain ⟨⟨q, w⟩, member, ptr⟩ := volta.list.ptr
  obtain ⟨l, r, rfl⟩ := List.append_of_mem member
  obtain ⟨nodes, walked, every⟩ := walk_of_ligados volta.list.blocos.linked.chain
    (Nat.lt_succ_of_le volta.short)
  rw [← volta.list.blocos.head] at walked
  obtain ⟨hole, found, size, _⟩ := load_hole volta.list.blocos.linked
  -- what is free after the call was free before, or is the block given to it
  have frees : ∀ {block : Block} {header : Hole}, header.tam = block.2 →
      livre (desmarca (p - h) block) = true → Livra h p block.1 header := by
    intro block header same free
    unfold desmarca at free
    split at free
    · exact .inr (by omega)
    · exact .inl (same ▸ livre_iff.mp free)
  have apart : ∀ y ∈ (l.map (desmarca (p - h))).getLast?,
      ¬ (livre y = true ∧ livre (desmarca (p - h) (q, w)) = true) := by
    intro y last both
    rw [List.getLast?_map] at last
    obtain ⟨block, before, rfl⟩ := Option.map_eq_some_iff.mp last
    obtain ⟨l', rfl⟩ := List.getLast?_eq_some_iff.mp before
    have list := volta.list.blocos.linked
    rw [List.append_assoc] at list
    obtain ⟨header, there, tam, prox⟩ := load_hole list
    refine safe nodes walked (block.1, header) (every block (by simp) header there) q ptr hole found
      prox ⟨frees tam both.1, frees size both.2⟩
  rw [List.map_append, List.map_cons, coalesce_append_of_apart (joins positive) apart]
  have first : ∀ (x : Block) (rest : List Block), ∃ y ∈ push livre (joined h) x rest, y.1 = x.1 := by
    intro x rest
    cases rest with
    | nil => exact ⟨x, List.mem_singleton_self x, rfl⟩
    | cons y tail =>
      rw [push]
      split
      · exact ⟨_, List.mem_cons_self, rfl⟩
      · exact ⟨x, List.mem_cons_self, rfl⟩
  obtain ⟨block, there, same⟩ := first (desmarca (p - h) (q, w))
    (coalesce livre (joined h) (r.map (desmarca (p - h))))
  refine ⟨block, List.mem_append_right _ there, ?_⟩
  rw [same, desmarca_fst]
  exact ptr

/-- **`meu_libera` keeps the invariant** if the call meets the condition. -/
theorem Volta.libera (positive : 0 < h) (volta : Volta h base c blocks)
    (safe : Segura h c (.libera p fuel)) (enough : c.feitos < fuel) {after : State}
    (freed : meuLibera h c.state fuel (some p) = some after) (live : List ℤ) :
    ∃ blocks', Volta h base ⟨after, live, c.feitos⟩ blocks' := by
  obtain ⟨ptr, blocos⟩ := volta.libera_blocos positive enough freed
  refine ⟨_, ⟨blocos, settled_coalesce _, ?_⟩, ?_, volta.grade.libera freed, ?_⟩
  · obtain ⟨block, member, same⟩ := volta.ptr_libera positive safe
    exact ⟨block, member, ptr.trans same⟩
  · exact (contabil_libera positive _ _).trans volta.total
  · refine Nat.le_trans (length_coalesce_le _) ?_
    rw [List.length_map]
    exact volta.short

end Libera

/-! ### Whole runs -/

/-- **A call that meets the condition keeps the invariant.** -/
theorem Volta.proximo (positive : 0 < h) {c after : Cliente} {call : Call} {blocks : List Block}
    (volta : Volta h base c blocks) (safe : Segura h c call)
    (called : proximo h base c call = some after) : ∃ blocks', Volta h base after blocks' := by
  cases call with
  | aloca metodo tam fuel =>
    dsimp only [MeuAlloc.proximo] at called
    split at called
    · rename_i bounds
      obtain ⟨⟨result, state⟩, run, called⟩ := Option.bind_eq_some_iff.mp called
      rcases volta.aloca positive bounds.1 bounds.2 run with ⟨rfl, rfl⟩ | ⟨placed, kept⟩
      · cases called
        exact ⟨blocks, volta⟩
      · cases result with
        | none => exact absurd rfl placed
        | some p =>
          cases called
          exact kept _
    · cases called
  | libera p fuel =>
    dsimp only [MeuAlloc.proximo] at called
    split at called
    · rename_i bounds
      obtain ⟨state, freed, called⟩ := Option.bind_eq_some_iff.mp called
      cases called
      exact volta.libera positive safe bounds.2 freed _
    · cases called

/-- **`nextfit` ends and is complete in a run.** -/
theorem Volta.nextfit (positive : 0 < h) {c : Cliente} {blocks : List Block}
    (volta : Volta h base c blocks) (tam : ℤ) {fuel : ℕ} (enough : c.feitos ≤ fuel) :
    ∃ result after,
      nextfit h (fun _ _ _ => endereco h base c.feitos) c.state fuel tam = some (result, after) ∧
      (result = none ↔ ∀ block ∈ blocks, block.2 < tam + h) := by
  obtain ⟨⟨q, u⟩, member, ptr⟩ := volta.list.ptr
  obtain ⟨l, r, rfl⟩ := List.append_of_mem member
  rw [nextfit_eq positive volta.list.blocos ptr (Nat.le_trans volta.short enough)]
  -- one turn from `ptrNextFit` on meets the blocks of the list
  have turn : ∀ block : Block, block ∈ (q, u) :: (r ++ l) ↔ block ∈ l ++ (q, u) :: r := by
    intro block
    simp only [List.mem_cons, List.mem_append]
    tauto
  cases chosen : ((q, u) :: (r ++ l)).find? fun block => decide (Cabe (tam + h) block) with
  | none =>
    refine ⟨none, c.state, rfl, iff_of_true rfl fun block inside => ?_⟩
    have refused := List.find?_eq_none.mp chosen block ((turn block).mpr inside)
    rw [decide_eq_true_eq] at refused
    unfold Cabe at refused
    omega
  | some block =>
    have inside := (turn block).mp (List.mem_of_find?_eq_some chosen)
    have fits := List.find?_some chosen
    rw [decide_eq_true_eq] at fits
    have fresh := volta.novo positive tam block inside
    have linked := volta.list.blocos.linked
    obtain ⟨before, behind, parts⟩ := List.append_of_mem inside
    rw [parts] at linked fresh
    obtain ⟨memory, split, _⟩ := dividir_spec (fun _ _ _ => endereco h base c.feitos) tam
      positive linked fresh (usedSecond h tam)
    refine ⟨_, _, split, iff_of_false nofun fun small => ?_⟩
    have less := small block inside
    unfold Cabe at fits
    omega

/-- **`nextfit` ends and is complete**: in every run of calls that meet the condition `ptrNextFit` is
on the list, and `nextfit` returns, with NULL exactly if no block of the list can hold the request. -/
theorem nextfit_complete (positive : 0 < h) {c : Cliente}
    (reach : Reach (proximo h base) (Segura h) (comeco h base) c) :
    (∃ q, c.state.ptrNextFit = some q ∧ OnList Hole.prox c.state.memory c.state.listaMemoria q) ∧
    ∀ tam, 0 < tam → ∀ fuel, c.feitos ≤ fuel →
      ∃ result after,
        nextfit h (fun _ _ _ => endereco h base c.feitos) c.state fuel tam = some (result, after) ∧
        (result = none ↔ ∀ x hole, OnList Hole.prox c.state.memory c.state.listaMemoria x →
          c.state.memory x = some hole → hole.tam < tam + h) := by
  obtain ⟨blocks, volta⟩ := reach.invariant (fun c => ∃ blocks, Volta h base c blocks)
    ⟨_, volta_comeco h base⟩ fun _ _ _ ⟨_, volta⟩ safe called => volta.proximo positive safe called
  have onList : ∀ x, OnList Hole.prox c.state.memory c.state.listaMemoria x ↔
      ∃ t, (x, t) ∈ blocks := by
    intro x
    rw [volta.list.blocos.head]
    exact onList_iff volta.list.blocos.linked.chain
  have load : ∀ {x t : ℤ}, (x, t) ∈ blocks →
      ∃ hole, c.state.memory x = some hole ∧ hole.tam = t := by
    intro x t member
    obtain ⟨l, r, rfl⟩ := List.append_of_mem member
    obtain ⟨hole, found, size, _⟩ := load_hole volta.list.blocos.linked
    exact ⟨hole, found, size⟩
  refine ⟨?_, fun tam asked fuel enough => ?_⟩
  · obtain ⟨⟨q, u⟩, member, ptr⟩ := volta.list.ptr
    exact ⟨q, ptr, (onList q).mpr ⟨u, member⟩⟩
  · obtain ⟨result, after, run, refused⟩ := volta.nextfit positive tam enough
    refine ⟨result, after, run, refused.trans ⟨fun small x hole reached found => ?_,
      fun small block member => ?_⟩⟩
    · obtain ⟨t, member⟩ := (onList x).mp reached
      obtain ⟨other, there, rfl⟩ := load member
      rw [found] at there
      cases there
      exact small _ member
    · obtain ⟨hole, found, size⟩ := load member
      exact size ▸ small block.1 hole ((onList block.1).mpr ⟨block.2, member⟩) found

/-- The theorem on a run in which `meu_libera` joins a block with the one at `ptrNextFit`. -/
theorem nextfit_complete_joined : ∃ c, Reach (proximo 24 0) (Segura 24) (comeco 24 0) c ∧
    (∃ q, c.state.ptrNextFit = some q ∧
      OnList Hole.prox c.state.memory c.state.listaMemoria q) ∧
    ∃ result after,
      nextfit 24 (fun _ _ _ => endereco 24 0 c.feitos) c.state 3 2000 = some (result, after) ∧
      (result = none ↔ ∀ x hole, OnList Hole.prox c.state.memory c.state.listaMemoria x →
        c.state.memory x = some hole → hole.tam < 2000 + 24) := by
  have evaluated : ∃ c : Cliente, Reach (proximo 24 0) (Segura 24) (comeco 24 0) c ∧ c.feitos = 3 :=
    exists_reach_of_execute [.aloca .next 30 5, .aloca .first 50 5, .libera 48 5] _
      (by decide +kernel)
  obtain ⟨c, reach, three⟩ := evaluated
  obtain ⟨ptr, complete⟩ := nextfit_complete (by decide) reach
  exact ⟨c, reach, ptr, complete 2000 (by decide) 3 (by rw [three])⟩

end MeuAlloc
