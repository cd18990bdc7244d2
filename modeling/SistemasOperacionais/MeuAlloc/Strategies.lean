/-
**`meu_alloc.c`: what the strategies choose.**

`firstfit`, `bestfit` and `worstfit` on any list of blocks whose accounted total, the sizes and the
headers behind the first, is `memoria_base`.

* `Cabe` — a block that can hold a request together with the new header.
* `escolheFirst_eq`, `escolheBest_eq`, `escolheWorst_eq` — the block that each loop chooses, whatever
  the sum `tam + tamHole` is rounded to; `firstfit_eq`, `bestfit_eq`, `worstfit_eq` — each strategy is
  that choice and then the split of the block chosen.
* `Primeiro`, `escolheBest_cabe_iff` — `bestfit` takes the first block of the list when the smallest
  that can hold the request has size `memoria_base`, and so its choice holds the request exactly if
  that block does.
* `nextfit_eq` — `nextfit` takes the first block from `ptrNextFit` on and around the list.
* `meuAloca_cases` — every method refuses, or splits a block that can hold the request.
* `contabil` — the accounted total. It leaves room for a block of size `memoria_base` only alone.
* `strategies_agree` — **the three refuse the same requests, and otherwise split the first block that
  can hold the request, one of the smallest and one of the largest.**
-/

import SistemasOperacionais.MeuAlloc.Lista
import SistemasOperacionais.Data.Select
import Mathlib.Algebra.Order.BigOperators.Group.List
import Mathlib.Tactic.LinearCombination
import Mathlib.Tactic.Ring

namespace MeuAlloc

open Headers Select

variable {h tam minimo : ℤ} {lugar : ℤ → ℤ → ℤ → ℤ} {s : State} {blocks l r : List Block}
  {fuel : ℕ}

/-- A block that can hold a request and the new header, together `minimo` bytes. -/
def Cabe (minimo : ℤ) (block : Block) : Prop := minimo ≤ block.2

instance (minimo : ℤ) (block : Block) : Decidable (Cabe minimo block) :=
  inferInstanceAs (Decidable (_ ≤ _))

/-- The same, not larger than `memoria_base`. -/
def CabeBase (minimo : ℤ) (block : Block) : Prop := Cabe minimo block ∧ block.2 ≤ memoriaBase

instance (minimo : ℤ) (block : Block) : Decidable (CabeBase minimo block) :=
  inferInstanceAs (Decidable (_ ∧ _))

/-- The same, not empty. -/
def CabeAlgo (minimo : ℤ) (block : Block) : Prop := Cabe minimo block ∧ 0 < block.2

instance (minimo : ℤ) (block : Block) : Decidable (CabeAlgo minimo block) :=
  inferInstanceAs (Decidable (_ ∧ _))

/-- The `bestfit` loop replaces its candidate by a block not larger. -/
def Menor (x y : Block) : Prop := x.2 ≤ y.2

/-- The `worstfit` loop replaces its candidate by a larger block. -/
def Maior (x y : Block) : Prop := y.2 < x.2

instance (x y : Block) : Decidable (Menor x y) := inferInstanceAs (Decidable (_ ≤ _))

instance (x y : Block) : Decidable (Maior x y) := inferInstanceAs (Decidable (_ < _))

theorem ranks_menor : Ranks Menor fun x y : Block => x.2 ≤ y.2 where
  refl x := Int.le_refl x.2
  trans _ _ _ first second := Int.le_trans first second
  taken _ _ taken := taken
  kept _ _ kept := Int.le_of_lt (Int.not_le.mp kept)

theorem ranks_maior : Ranks Maior fun x y : Block => y.2 ≤ x.2 where
  refl x := Int.le_refl x.2
  trans _ _ _ first second := Int.le_trans second first
  taken _ _ taken := Int.le_of_lt taken
  kept _ _ kept := Int.not_lt.mp kept

/-! ### The loops -/

theorem firstfitLoop_eq {memory : Memory Hole} {prev : Option ℤ}
    (chain : Chain simples (view tamProx memory) prev blocks none)
    (enough : blocks.length < fuel) :
    firstfitLoop memory minimo fuel (first blocks none) =
      some ((blocks.find? fun block => decide (Cabe minimo block)).map Prod.fst) := by
  induction blocks generalizing prev fuel with
  | nil =>
    obtain ⟨more, rfl⟩ := Nat.exists_eq_add_of_lt enough
    rfl
  | cons block rest ih =>
    obtain ⟨here, chain⟩ := chain
    obtain ⟨hole, found, size, link⟩ := hole_of_view here
    obtain ⟨more, rfl⟩ : ∃ more, fuel = more + 1 := ⟨fuel - 1, by omega⟩
    have short : rest.length < more := by simpa using enough
    show firstfitLoop memory minimo (more + 1) (some block.1) = _
    rw [firstfitLoop, found, Option.bind_eq_bind, Option.bind_some, size, link, List.find?_cons]
    by_cases fits : Cabe minimo block
    · rw [if_pos (show minimo ≤ block.2 from fits), decide_eq_true fits]
      rfl
    · rw [if_neg (show ¬ minimo ≤ block.2 from fits), decide_eq_false fits]
      exact ih chain short

/-- The variables of a loop with the candidate `kept`: its size and address, or `vazio` and NULL. -/
def variaveis (vazio : ℤ) (kept : Option Block) : ℤ × Option ℤ :=
  (kept.elim vazio Prod.snd, kept.map Prod.fst)

/-- A loop that keeps a candidate in two variables selects. -/
theorem foldl_variaveis {vazio : ℤ} {fits : Block → Prop} [DecidablePred fits]
    {takes : Block → Block → Prop} [∀ x y, Decidable (takes x y)]
    {update : ℤ × Option ℤ → Block → ℤ × Option ℤ}
    (each : ∀ block kept, (∀ y ∈ kept, fits y) → update (variaveis vazio kept) block =
      variaveis vazio (keep fits takes kept block)) :
    blocks.foldl update (vazio, none) = variaveis vazio (select fits takes blocks) := by
  have from_ : ∀ kept, (∀ y ∈ kept, fits y) → blocks.foldl update (variaveis vazio kept) =
      variaveis vazio (blocks.foldl (keep fits takes) kept) := by
    induction blocks with
    | nil => exact fun _ _ => rfl
    | cons block rest ih =>
      intro kept good
      rw [List.foldl_cons, each block kept good, List.foldl_cons]
      refine ih _ fun y here => ?_
      unfold keep at here
      split at here
      · rename_i fit
        rw [← Option.mem_some.mp here]
        exact fit.1
      · exact good y here
  exact from_ none nofun

theorem bestfitLoop_eq {memory : Memory Hole}
    (chain : Chain simples (view tamProx memory) none blocks none)
    (enough : blocks.length < fuel) :
    bestfitLoop memory minimo fuel (first blocks none) memoriaBase none =
      some (variaveis memoriaBase (select (CabeBase minimo) Menor blocks)) := by
  have loop := loop_eq_foldl
    (fun fuel atual (acc : ℤ × Option ℤ) => bestfitLoop memory minimo fuel atual acc.1 acc.2)
    (fun acc block => if minimo ≤ block.2 ∧ block.2 ≤ acc.1 then (block.2, some block.1) else acc)
    (fun _ _ => rfl) (fun fuel a acc hole found => ?_) chain enough (memoriaBase, none)
  · refine loop.trans (congrArg some (foldl_variaveis fun block kept good => ?_))
    have same : (minimo ≤ block.2 ∧ block.2 ≤ (variaveis memoriaBase kept).1) ↔
        (CabeBase minimo block ∧ ∀ y ∈ kept, Menor block y) := by
      cases kept with
      | none => exact ⟨fun both => ⟨both, nofun⟩, And.left⟩
      | some y =>
        refine ⟨fun both => ⟨⟨both.1, Int.le_trans both.2 (good y rfl).2⟩, fun z here => ?_⟩,
          fun both => ⟨both.1.1, both.2 y rfl⟩⟩
        rw [← Option.mem_some.mp here]
        exact both.2
    rw [keep]
    simp only [same]
    split <;> rfl
  · show bestfitLoop memory minimo (fuel + 1) (some a) acc.1 acc.2 = _
    rw [bestfitLoop, found, Option.bind_eq_bind, Option.bind_some]
    split <;> rfl

theorem worstfitLoop_eq {memory : Memory Hole}
    (chain : Chain simples (view tamProx memory) none blocks none)
    (enough : blocks.length < fuel) :
    worstfitLoop memory minimo fuel (first blocks none) 0 none =
      some (variaveis 0 (select (CabeAlgo minimo) Maior blocks)) := by
  have loop := loop_eq_foldl
    (fun fuel atual (acc : ℤ × Option ℤ) => worstfitLoop memory minimo fuel atual acc.1 acc.2)
    (fun acc block => if minimo ≤ block.2 ∧ acc.1 < block.2 then (block.2, some block.1) else acc)
    (fun _ _ => rfl) (fun fuel a acc hole found => ?_) chain enough (0, none)
  · refine loop.trans (congrArg some (foldl_variaveis fun block kept good => ?_))
    have same : (minimo ≤ block.2 ∧ (variaveis 0 kept).1 < block.2) ↔
        (CabeAlgo minimo block ∧ ∀ y ∈ kept, Maior block y) := by
      cases kept with
      | none => exact ⟨fun both => ⟨both, nofun⟩, And.left⟩
      | some y =>
        refine ⟨fun both => ⟨⟨both.1, Int.lt_trans (good y rfl).2 both.2⟩, fun z here => ?_⟩,
          fun both => ⟨both.1.1, both.2 y rfl⟩⟩
        rw [← Option.mem_some.mp here]
        exact both.2
    rw [keep]
    simp only [same]
    split <;> rfl
  · show worstfitLoop memory minimo (fuel + 1) (some a) acc.1 acc.2 = _
    rw [worstfitLoop, found, Option.bind_eq_bind, Option.bind_some]
    split <;> rfl

/-! ### The strategies -/

section Escolhas

variable {int : ℤ → ℤ} (blocos : Blocos h s blocks) (enough : blocks.length < fuel)

include blocos enough

/-- **`firstfit` takes the first block that passes its test.** -/
theorem escolheFirst_eq : Com.escolheFirst h int s fuel tam =
    some ((blocks.find? fun block => decide (Cabe (int (tam + h)) block)).map Prod.fst) := by
  rw [Com.escolheFirst, blocos.head]
  exact firstfitLoop_eq blocos.linked.chain enough

/-- **`bestfit` takes a smallest one**, but the first block of the list if that one has size
`memoria_base`. -/
theorem escolheBest_eq : Com.escolheBest h int s fuel tam =
    some ((select (CabeBase (int (tam + h))) Menor blocks).bind fun block =>
      if block.2 = memoriaBase then s.listaMemoria else some block.1) := by
  have loop : bestfitLoop s.memory (int (tam + h)) fuel (first blocks none) memoriaBase none = _ :=
    bestfitLoop_eq blocos.linked.chain enough
  rw [← blocos.head] at loop
  rw [Com.escolheBest, loop, Option.bind_eq_bind, Option.bind_some]
  cases chosen : select (CabeBase (int (tam + h))) Menor blocks with
  | none => rfl
  | some block =>
    obtain ⟨l, r, rfl⟩ := List.append_of_mem (select_eq_some ranks_menor chosen).1
    have some_ : ∃ a, s.listaMemoria = some a := by
      rw [blocos.head]
      cases l <;> exact ⟨_, rfl⟩
    obtain ⟨a, head⟩ := some_
    show (if block.2 = memoriaBase then s.listaMemoria.bind fun atual => some (some atual)
      else some (some block.1)) = some (if block.2 = memoriaBase then s.listaMemoria else some block.1)
    rw [head]
    split <;> rfl

/-- **`worstfit` takes a largest one.** -/
theorem escolheWorst_eq : Com.escolheWorst h int s fuel tam =
    some ((select (CabeAlgo (int (tam + h))) Maior blocks).map Prod.fst) := by
  have loop : worstfitLoop s.memory (int (tam + h)) fuel (first blocks none) 0 none = _ :=
    worstfitLoop_eq blocos.linked.chain enough
  rw [← blocos.head] at loop
  rw [Com.escolheWorst, loop, Option.bind_eq_bind, Option.bind_some]
  cases chosen : select (CabeAlgo (int (tam + h))) Maior blocks with
  | none => rfl
  | some block =>
    have nonzero : block.2 ≠ 0 := ne_of_gt (select_eq_some ranks_maior chosen).2.1.2
    show (if block.2 = 0 then some none else some (some block.1)) = _
    rw [if_neg nonzero]
    rfl

theorem firstfit_eq : firstfit h lugar s fuel tam =
    atende h lugar s tam (usedFirst h tam)
      ((blocks.find? fun block => decide (Cabe (tam + h) block)).map Prod.fst) := by
  rw [firstfit, Com.firstfit, escolheFirst_eq blocos enough]
  rfl

theorem bestfit_eq : bestfit h lugar s fuel tam =
    atende h lugar s tam (usedSecond h tam)
      ((select (CabeBase (tam + h)) Menor blocks).bind fun block =>
        if block.2 = memoriaBase then s.listaMemoria else some block.1) := by
  rw [bestfit, Com.bestfit, escolheBest_eq blocos enough]
  rfl

theorem worstfit_eq (some_ : 0 < tam + h) : worstfit h lugar s fuel tam =
    atende h lugar s tam (usedSecond h tam)
      ((select (Cabe (tam + h)) Maior blocks).map Prod.fst) := by
  have same : select (CabeAlgo (tam + h)) Maior blocks = select (Cabe (tam + h)) Maior blocks := by
    refine select_congr fun block => and_iff_left_of_imp fun fits => ?_
    exact Int.lt_of_lt_of_le some_ fits
  rw [worstfit, Com.worstfit, escolheWorst_eq blocos enough, ← same]
  rfl

end Escolhas

/-- If a block of size `memoria_base` is the first, `bestfit` takes a smallest one. -/
theorem escolha_menor
    (whole : ∀ block ∈ blocks, block.2 = memoriaBase → s.listaMemoria = some block.1) :
    ((select (CabeBase minimo) Menor blocks).bind fun block =>
      if block.2 = memoriaBase then s.listaMemoria else some block.1) =
      (select (CabeBase minimo) Menor blocks).map Prod.fst := by
  cases chosen : select (CabeBase minimo) Menor blocks with
  | none => rfl
  | some block =>
    show (if block.2 = memoriaBase then s.listaMemoria else some block.1) = some block.1
    split
    · exact whole block (select_eq_some ranks_menor chosen).1 ‹_›
    · rfl

/-- **The first block serves**: if the smallest blocks that can hold the request have size
`memoria_base`, the first block of the list can hold it. -/
def Primeiro (minimo : ℤ) (blocks : List Block) : Prop :=
  (∃ block ∈ blocks, Cabe minimo block ∧ block.2 = memoriaBase) →
    (∀ block ∈ blocks, Cabe minimo block → memoriaBase ≤ block.2) →
      ∀ block ∈ blocks.head?, Cabe minimo block

/-- `bestfit` takes none if nothing passes its test. -/
theorem escolheBest_eq_none_iff (int : ℤ → ℤ) (blocos : Blocos h s blocks)
    (enough : blocks.length < fuel) :
    Com.escolheBest h int s fuel tam = some none ↔
      ∀ block ∈ blocks, ¬ CabeBase (int (tam + h)) block := by
  have none_iff : select (CabeBase (int (tam + h))) Menor blocks = none ↔ _ := select_eq_none_iff
  rw [escolheBest_eq blocos enough, Option.some_inj, ← none_iff]
  cases chosen : select (CabeBase (int (tam + h))) Menor blocks with
  | none => exact iff_of_true rfl rfl
  | some block =>
    obtain ⟨first, rest, rfl⟩ :=
      List.exists_cons_of_ne_nil (List.ne_nil_of_mem (select_eq_some ranks_menor chosen).1)
    refine iff_of_false ?_ nofun
    rw [Option.bind_some, blocos.head]
    split <;> exact Option.some_ne_none _

/-- If the first block does not serve, `bestfit` takes it all the same. -/
theorem escolheBest_of_not_primeiro (int : ℤ → ℤ) (blocos : Blocos h s blocks)
    (enough : blocks.length < fuel) (fails : ¬ Primeiro (int (tam + h)) blocks) :
    ∃ first rest, blocks = first :: rest ∧ ¬ Cabe (int (tam + h)) first ∧
      Com.escolheBest h int s fuel tam = some (some first.1) := by
  unfold Primeiro at fails
  push Not at fails
  obtain ⟨⟨block, member, fits, full⟩, least, first, head, small⟩ := fails
  obtain ⟨rest, rfl⟩ := List.head?_eq_some_iff.mp head
  obtain ⟨chosen, select⟩ : ∃ chosen, select (CabeBase (int (tam + h))) Menor (first :: rest) =
      some chosen := by
    refine Option.ne_none_iff_exists'.mp fun none => ?_
    exact select_eq_none_iff.mp none block member ⟨fits, full.le⟩
  obtain ⟨inside, holds, _⟩ := select_eq_some ranks_menor select
  have same : chosen.2 = memoriaBase := le_antisymm holds.2 (least chosen inside holds.1)
  refine ⟨first, rest, rfl, small, ?_⟩
  rw [escolheBest_eq blocos enough, select, Option.bind_some, if_pos same, blocos.head]
  rfl

/-- **`bestfit` takes a block that can hold the request exactly if the first block serves.** -/
theorem escolheBest_cabe_iff (int : ℤ → ℤ) (positive : 0 < h) (blocos : Blocos h s blocks)
    (enough : blocks.length < fuel) :
    (∀ a, Com.escolheBest h int s fuel tam = some (some a) →
      ∃ t, (a, t) ∈ blocks ∧ Cabe (int (tam + h)) (a, t)) ↔ Primeiro (int (tam + h)) blocks := by
  constructor
  · intro good
    by_contra fails
    obtain ⟨first, rest, rfl, small, taken⟩ := escolheBest_of_not_primeiro int blocos enough fails
    obtain ⟨t, there, fits⟩ := good first.1 taken
    rw [block_unique positive blocos.linked.spread List.mem_cons_self there rfl] at fits
    exact small fits
  · intro serves a choice
    rw [escolheBest_eq blocos enough] at choice
    obtain ⟨chosen, select, taken⟩ := Option.bind_eq_some_iff.mp (Option.some.inj choice)
    obtain ⟨inside, holds, least⟩ := select_eq_some ranks_menor select
    split at taken
    · -- nothing smaller than `memoria_base` can hold the request
      rename_i full
      obtain ⟨first, rest, rfl⟩ := List.exists_cons_of_ne_nil (List.ne_nil_of_mem inside)
      rw [blocos.head] at taken
      cases taken
      refine ⟨first.2, List.mem_cons_self, serves ⟨chosen, inside, holds.1, full⟩ ?_ first rfl⟩
      intro block member fits
      by_contra small
      have below := least block member ⟨fits, by omega⟩
      omega
    · cases taken
      exact ⟨chosen.2, inside, holds.1⟩

/-! ### `nextfit`, around the list -/

/-- The fields that `nextfit` reads: behind the last block comes the first. -/
def emVolta (head : Option ℤ) (hole : Hole) : ℤ × Option ℤ :=
  (hole.tam, if hole.prox = none then head else hole.prox)

theorem chain_emVolta {memory : Memory Hole} (head : Option ℤ) {prev next : Option ℤ}
    (chain : Chain simples (view tamProx memory) prev blocks next) :
    Chain simples (view (emVolta head) memory) prev blocks
      (if next = none then head else next) := by
  induction blocks generalizing prev with
  | nil => trivial
  | cons block rest ih =>
    obtain ⟨here, chain⟩ := chain
    obtain ⟨hole, found, size, link⟩ := hole_of_view here
    refine ⟨view_eq_some.mpr ⟨hole, found, Prod.ext size ?_⟩, ih chain⟩
    show (if hole.prox = none then head else hole.prox) = _
    rw [link]
    cases rest <;> rfl

/-- The blocks from `ptrNextFit` on, around the end of the list and back to it. -/
theorem chain_volta {q u : ℤ} (blocos : Blocos h s (l ++ (q, u) :: r)) :
    Chain simples (view (emVolta s.listaMemoria) s.memory) none ((q, u) :: r ++ l) (some q) := by
  obtain ⟨left, right⟩ := chain_append.mp blocos.linked.chain
  have start : s.listaMemoria = first l (some q) := by
    rw [blocos.head, first_append]
    rfl
  have around := chain_emVolta s.listaMemoria right
  have ahead := chain_emVolta s.listaMemoria left
  rw [if_pos rfl, start] at around
  rw [start] at ahead ⊢
  refine chain_append.mpr ⟨around, ?_⟩
  cases l with
  | nil => trivial
  | cons block rest => exact ahead

/-- One pass of the loop of `nextfit`. -/
theorem nextfitLoop_succ {a t : ℤ} {following : Option ℤ}
    (here : view (emVolta s.listaMemoria) s.memory a = some (t, following)) :
    nextfitLoop s minimo (fuel + 1) (some a) =
      if minimo ≤ t then some (some a)
      else if following = s.ptrNextFit then some none
      else nextfitLoop s minimo fuel following := by
  obtain ⟨hole, found, fields⟩ := view_eq_some.mp here
  obtain ⟨rfl, rfl⟩ := Prod.mk.inj fields
  rw [nextfitLoop, Option.bind_eq_bind, Option.bind_some, found]
  rfl

/-- The loop of `nextfit` over the blocks still to come, until `ptrNextFit` is met again. -/
theorem nextfitLoop_chain {q a t : ℤ} (ptr : s.ptrNextFit = some q) {prev : Option ℤ}
    (chain : Chain simples (view (emVolta s.listaMemoria) s.memory) prev ((a, t) :: r) (some q))
    (away : ∀ block ∈ r, block.1 ≠ q) (enough : r.length < fuel) :
    nextfitLoop s minimo fuel (some a) =
      some ((((a, t) :: r).find? fun block => decide (Cabe minimo block)).map Prod.fst) := by
  induction r generalizing a t prev fuel with
  | nil =>
    obtain ⟨more, rfl⟩ := Nat.exists_eq_add_of_lt enough
    rw [nextfitLoop_succ chain.1, List.find?_cons, ptr]
    by_cases fits : Cabe minimo (a, t)
    · rw [if_pos (show minimo ≤ t from fits), decide_eq_true fits]
      rfl
    · rw [if_neg (show ¬ minimo ≤ t from fits), decide_eq_false fits]
      exact if_pos rfl
  | cons block rest ih =>
    obtain ⟨more, rfl⟩ : ∃ more, fuel = more + 1 := ⟨fuel - 1, by omega⟩
    have short : rest.length < more := by simpa using enough
    rw [nextfitLoop_succ chain.1, List.find?_cons, ptr]
    by_cases fits : Cabe minimo (a, t)
    · rw [if_pos (show minimo ≤ t from fits), decide_eq_true fits]
      rfl
    · have different : first (block :: rest) (some q) ≠ some q := fun same =>
        away block List.mem_cons_self (Option.some.inj same)
      rw [if_neg (show ¬ minimo ≤ t from fits), decide_eq_false fits, if_neg different]
      exact ih chain.2 (fun other member => away other (List.mem_cons_of_mem _ member)) short

/-- **`nextfit` takes the first block that can hold the request**, from `ptrNextFit` on and around
the list, if `ptrNextFit` is on it. -/
theorem nextfit_eq (positive : 0 < h) {q u : ℤ} (blocos : Blocos h s (l ++ (q, u) :: r))
    (ptr : s.ptrNextFit = some q) (enough : (l ++ (q, u) :: r).length ≤ fuel) :
    nextfit h lugar s fuel tam =
      atende h lugar s tam (usedSecond h tam)
        ((((q, u) :: (r ++ l)).find? fun block => decide (Cabe (tam + h) block)).map Prod.fst) := by
  obtain ⟨before, after⟩ := spread_split blocos.linked.spread
  have away : ∀ block ∈ r ++ l, block.1 ≠ q := by
    intro block member same
    have apart : Apart h q block.1 :=
      (List.mem_append.mp member).elim (after block) (before block)
    unfold Apart at apart
    omega
  have short : (r ++ l).length < fuel := by
    rw [List.length_append, List.length_cons] at enough
    rw [List.length_append]
    omega
  rw [nextfit, ptr, nextfitLoop_chain ptr (chain_volta blocos) away short, Option.bind_eq_bind,
    Option.bind_some]
  rfl

/-! ### Every method -/

/-- A choice that can hold the request, or none. -/
theorem atende_cases {sizes : ℤ → ℤ × ℤ} {choice : Option ℤ}
    (good : ∀ a ∈ choice, ∃ t, (a, t) ∈ blocks ∧ Cabe (tam + h) (a, t)) :
    atende h lugar s tam sizes choice = some (none, s) ∨
      ∃ l a t r, blocks = l ++ (a, t) :: r ∧ Cabe (tam + h) (a, t) ∧
        atende h lugar s tam sizes choice = dividir h lugar s a tam sizes := by
  cases choice with
  | none => exact .inl rfl
  | some a =>
    obtain ⟨t, member, fits⟩ := good a rfl
    obtain ⟨l, r, parts⟩ := List.append_of_mem member
    exact .inr ⟨l, a, t, r, parts, fits, rfl⟩

/-- What the loops choose can hold the request. -/
theorem find_cabe : ∀ a ∈ (blocks.find? fun block => decide (Cabe minimo block)).map Prod.fst,
    ∃ t, (a, t) ∈ blocks ∧ Cabe minimo (a, t) := by
  intro a choice
  obtain ⟨block, found, rfl⟩ := Option.map_eq_some_iff.mp choice
  have fits := List.find?_some found
  exact ⟨block.2, List.mem_of_find?_eq_some found, of_decide_eq_true fits⟩

theorem maior_cabe : ∀ a ∈ (select (Cabe minimo) Maior blocks).map Prod.fst,
    ∃ t, (a, t) ∈ blocks ∧ Cabe minimo (a, t) := by
  intro a choice
  obtain ⟨block, chosen, rfl⟩ := Option.map_eq_some_iff.mp choice
  obtain ⟨member, fits, _⟩ := select_eq_some ranks_maior chosen
  exact ⟨block.2, member, fits⟩

variable (lugar) in
/-- **Every method refuses or splits a block that can hold the request**, if `ptrNextFit` is on the
list and, for `bestfit`, the first block serves. -/
theorem meuAloca_cases (metodo : Metodo) (positive : 0 < h) (blocos : Blocos h s blocks)
    (ptr : ∃ block ∈ blocks, s.ptrNextFit = some block.1)
    (serves : metodo = .best → Primeiro (tam + h) blocks) (asked : 0 < tam)
    (enough : blocks.length < fuel) :
    meuAloca h lugar s fuel metodo tam = some (none, s) ∨
      ∃ l a t r, blocks = l ++ (a, t) :: r ∧ Cabe (tam + h) (a, t) ∧
        meuAloca h lugar s fuel metodo tam = dividir h lugar s a tam (metodo.metades h tam) := by
  cases metodo with
  | first =>
    rw [meuAloca, firstfit_eq blocos enough]
    exact atende_cases find_cabe
  | best =>
    have good := (escolheBest_cabe_iff id positive blocos enough).mpr (serves rfl)
    rw [escolheBest_eq blocos enough] at good
    rw [meuAloca, bestfit_eq blocos enough]
    exact atende_cases fun a choice => good a (congrArg some choice)
  | worst =>
    rw [meuAloca, worstfit_eq blocos enough (by omega)]
    exact atende_cases maior_cabe
  | next =>
    obtain ⟨⟨q, u⟩, member, ptr⟩ := ptr
    obtain ⟨l, r, rfl⟩ := List.append_of_mem member
    rw [meuAloca, nextfit_eq positive blocos ptr enough.le]
    refine atende_cases fun a found => ?_
    obtain ⟨t, around, fits⟩ := find_cabe a found
    refine ⟨t, ?_, fits⟩
    simp only [List.mem_cons, List.mem_append] at around ⊢
    tauto

/-! ### The accounted total -/

/-- The accounted total: the sizes, and a header for every block but the first. -/
def contabil (h : ℤ) (blocks : List Block) : ℤ :=
  (blocks.map fun block => mod block.2).sum + h * ((blocks.length : ℤ) - 1)

theorem mod_nonneg (valor : ℤ) : 0 ≤ mod valor := by
  unfold mod
  split <;> omega

theorem mod_of_nonneg {valor : ℤ} (nonneg : 0 ≤ valor) : mod valor = valor :=
  if_neg (Int.not_lt.mpr nonneg)

theorem mod_neg {valor : ℤ} (nonneg : 0 ≤ valor) : mod ((-1) * valor) = valor := by
  unfold mod
  split <;> omega

/-- The total around one block. -/
theorem contabil_split (h : ℤ) (l r : List Block) (block : Block) :
    contabil h (l ++ block :: r) = mod block.2 +
      ((l.map fun block => mod block.2).sum + (r.map fun block => mod block.2).sum +
        h * ((l.length : ℤ) + r.length)) := by
  unfold contabil
  rw [List.map_append, List.sum_append, List.map_cons, List.sum_cons, List.length_append,
    List.length_cons]
  push_cast
  ring

/-- The rest of the total is at least the number of the other blocks. -/
theorem length_le_rest (positive : 0 < h) (l r : List Block) :
    (l.length : ℤ) + r.length ≤ (l.map fun block => mod block.2).sum +
      (r.map fun block => mod block.2).sum + h * ((l.length : ℤ) + r.length) := by
  have nonneg : ∀ blocks : List Block, 0 ≤ (blocks.map fun block => mod block.2).sum := by
    intro blocks
    refine List.sum_nonneg fun valor member => ?_
    obtain ⟨block, _, rfl⟩ := List.mem_map.mp member
    exact mod_nonneg block.2
  have first := nonneg l
  have second := nonneg r
  have headers : 1 * ((l.length : ℤ) + r.length) ≤ h * ((l.length : ℤ) + r.length) :=
    Int.mul_le_mul_of_nonneg_right positive (by omega)
  omega

/-- No block is larger than the total. -/
theorem le_of_contabil (positive : 0 < h) {total : ℤ} (accounted : contabil h blocks = total)
    {block : Block} (member : block ∈ blocks) : block.2 ≤ total := by
  obtain ⟨l, r, rfl⟩ := List.append_of_mem member
  rw [contabil_split] at accounted
  have rest := length_le_rest positive l r
  have size : block.2 ≤ mod block.2 := by
    unfold mod
    split <;> omega
  omega

/-- A block of the size of the total is alone. -/
theorem alone_of_contabil (positive : 0 < h) {total : ℤ} (accounted : contabil h blocks = total)
    {block : Block} (member : block ∈ blocks) (full : block.2 = total) (some_ : 0 < total) :
    blocks = [block] := by
  obtain ⟨l, r, rfl⟩ := List.append_of_mem member
  rw [contabil_split, full, mod_of_nonneg (by omega)] at accounted
  have rest := length_le_rest positive l r
  have left : l = [] := List.length_eq_zero_iff.mp (by omega)
  have right : r = [] := List.length_eq_zero_iff.mp (by omega)
  rw [left, right]
  rfl

/-- A split keeps the total. -/
theorem contabil_dividir {a t x y b : ℤ} (halves : mod x + h + mod y = mod t) :
    contabil h (l ++ (a, x) :: (b, y) :: r) = contabil h (l ++ (a, t) :: r) := by
  rw [contabil_split, contabil_split, List.map_cons, List.sum_cons, List.length_cons]
  dsimp only
  push_cast
  linear_combination halves

/-! ### The agreement -/

/-- The new headers are away from all others. -/
def Novo (h : ℤ) (lugar : ℤ → ℤ → ℤ → ℤ) (tam : ℤ) (blocks : List Block) : Prop :=
  ∀ block ∈ blocks, ∀ other ∈ blocks, Apart h (lugar block.1 block.2 tam) other.1

/-- **The request splits the block `(a, t)`** between `l` and `r`: the other blocks and the accounted
total stay. -/
def Divide (h : ℤ) (lugar : ℤ → ℤ → ℤ → ℤ) (tam : ℤ) (sizes : ℤ → ℤ × ℤ) (l : List Block) (a t : ℤ)
    (r : List Block) (result : Option (Option ℤ × State)) : Prop :=
  ∃ after, result = some (some (lugar a t tam + h), after) ∧
    Blocos h after (l ++ (a, (sizes t).1) :: (lugar a t tam, (sizes t).2) :: r) ∧
    contabil h (l ++ (a, (sizes t).1) :: (lugar a t tam, (sizes t).2) :: r) =
      contabil h (l ++ (a, t) :: r)

/-- The halves of a block that can hold the request. -/
theorem halves_first {t : ℤ} (positive : 0 < h) (asked : 0 < tam) (fits : tam + h ≤ t) :
    mod (usedFirst h tam t).1 + h + mod (usedFirst h tam t).2 = mod t := by
  show mod ((-1) * tam) + h + mod (t - tam - h) = mod t
  rw [mod_neg (by omega), mod_of_nonneg (by omega), mod_of_nonneg (by omega)]
  omega

theorem halves_second {t : ℤ} (positive : 0 < h) (asked : 0 < tam) (fits : tam + h ≤ t) :
    mod (usedSecond h tam t).1 + h + mod (usedSecond h tam t).2 = mod t := by
  show mod (t - tam - h) + h + mod ((-1) * tam) = mod t
  rw [mod_neg (by omega), mod_of_nonneg (by omega), mod_of_nonneg (by omega)]
  omega

theorem divide_of_atende (positive : 0 < h) (blocos : Blocos h s blocks)
    (fresh : Novo h lugar tam blocks) {sizes : ℤ → ℤ × ℤ} {a t : ℤ}
    (parts : blocks = l ++ (a, t) :: r)
    (halves : mod (sizes t).1 + h + mod (sizes t).2 = mod t) :
    Divide h lugar tam sizes l a t r (atende h lugar s tam sizes (some a)) := by
  subst parts
  have here : (a, t) ∈ l ++ (a, t) :: r := List.mem_append_right _ List.mem_cons_self
  obtain ⟨memory, made, linked⟩ := dividir_spec lugar tam positive blocos.linked
    (fresh (a, t) here) sizes
  refine ⟨_, made, ⟨?_, linked⟩, contabil_dividir halves⟩
  exact blocos.head.trans (first_replace l _ _ a _ _ none none)

/-- **The strategies agree on what can be allocated, and choose as named**, on every list whose
accounted total is `memoria_base`. Without a block that can hold the request and the new header all
three refuse and change nothing; with one, `firstfit` splits the first such block, `bestfit` one of
minimum and `worstfit` one of maximum size. -/
theorem strategies_agree (positive : 0 < h) (blocos : Blocos h s blocks)
    (total : contabil h blocks = memoriaBase) (asked : 0 < tam) (fresh : Novo h lugar tam blocks)
    (enough : blocks.length < fuel) :
    ((∀ block ∈ blocks, ¬ Cabe (tam + h) block) →
      firstfit h lugar s fuel tam = some (none, s) ∧ bestfit h lugar s fuel tam = some (none, s) ∧
        worstfit h lugar s fuel tam = some (none, s)) ∧
    ((∃ block ∈ blocks, Cabe (tam + h) block) →
      (∃ l a t r, blocks = l ++ (a, t) :: r ∧ Cabe (tam + h) (a, t) ∧ (∀ block ∈ l, ¬ Cabe (tam + h) block) ∧
        Divide h lugar tam (usedFirst h tam) l a t r (firstfit h lugar s fuel tam)) ∧
      (∃ l a t r, blocks = l ++ (a, t) :: r ∧ Cabe (tam + h) (a, t) ∧
        (∀ block ∈ blocks, Cabe (tam + h) block → t ≤ block.2) ∧
        Divide h lugar tam (usedSecond h tam) l a t r (bestfit h lugar s fuel tam)) ∧
      ∃ l a t r, blocks = l ++ (a, t) :: r ∧ Cabe (tam + h) (a, t) ∧
        (∀ block ∈ blocks, Cabe (tam + h) block → block.2 ≤ t) ∧
        Divide h lugar tam (usedSecond h tam) l a t r (worstfit h lugar s fuel tam)) := by
  have bounded : ∀ block ∈ blocks, Cabe (tam + h) block → CabeBase (tam + h) block :=
    fun block member fits => ⟨fits, le_of_contabil positive total member⟩
  have whole : ∀ block ∈ blocks, block.2 = memoriaBase → s.listaMemoria = some block.1 := by
    intro block member full
    rw [blocos.head, alone_of_contabil positive total member full (by decide)]
    rfl
  rw [firstfit_eq blocos enough, bestfit_eq blocos enough, escolha_menor whole,
    worstfit_eq blocos enough (by omega)]
  constructor
  · intro none
    rw [List.find?_eq_none.mpr (by simpa using none), select_eq_none_iff.mpr none,
      select_eq_none_iff.mpr fun block member fits => none block member fits.1]
    exact ⟨rfl, rfl, rfl⟩
  · rintro ⟨block, member, fits⟩
    refine ⟨?_, ?_, ?_⟩
    · obtain ⟨⟨a, t⟩, found⟩ : ∃ best, blocks.find? (fun block => decide (Cabe (tam + h) block)) =
          some best := by
        refine Option.ne_none_iff_exists'.mp fun none => ?_
        exact List.find?_eq_none.mp none block member (decide_eq_true fits)
      obtain ⟨here, l, r, parts, before⟩ := List.find?_eq_some_iff_append.mp found
      have fits : Cabe (tam + h) (a, t) := of_decide_eq_true here
      refine ⟨l, a, t, r, parts, fits, fun block member => by simpa using before block member, ?_⟩
      rw [found]
      exact divide_of_atende positive blocos fresh parts (halves_first positive asked fits)
    · obtain ⟨⟨a, t⟩, chosen⟩ : ∃ best, select (CabeBase (tam + h)) Menor blocks = some best := by
        refine Option.ne_none_iff_exists'.mp fun none => ?_
        exact select_eq_none_iff.mp none block member (bounded block member fits)
      obtain ⟨member, fits, least⟩ := select_eq_some ranks_menor chosen
      obtain ⟨l, r, parts⟩ := List.append_of_mem member
      refine ⟨l, a, t, r, parts, fits.1, fun other there fit => least other there
        (bounded other there fit), ?_⟩
      rw [chosen]
      exact divide_of_atende positive blocos fresh parts (halves_second positive asked fits.1)
    · obtain ⟨⟨a, t⟩, chosen⟩ : ∃ best, select (Cabe (tam + h)) Maior blocks = some best := by
        refine Option.ne_none_iff_exists'.mp fun none => ?_
        exact select_eq_none_iff.mp none block member fits
      obtain ⟨member, fits, most⟩ := select_eq_some ranks_maior chosen
      obtain ⟨l, r, parts⟩ := List.append_of_mem member
      refine ⟨l, a, t, r, parts, fits, most, ?_⟩
      rw [chosen]
      exact divide_of_atende positive blocos fresh parts (halves_second positive asked fits)

/-- A used block of 100 bytes and a free one of 900. -/
def doisBlocos : State where
  memory a := if a = 0 then some ⟨-100, none, some 124⟩ else if a = 124 then some ⟨900, some 0, none⟩
    else none
  listaMemoria := some 0
  ptrNextFit := some 0

theorem blocos_doisBlocos : Blocos 24 doisBlocos [(0, -100), (124, 900)] :=
  ⟨rfl, ⟨rfl, rfl, trivial⟩, by
    refine List.pairwise_cons.mpr ⟨fun block member => ?_, List.pairwise_singleton _ _⟩
    rw [List.mem_singleton.mp member]
    exact .inl (by decide)⟩

/-- On two blocks, one of them used. -/
theorem strategies_doisBlocos :
    contabil 24 [(0, -100), (124, 900)] = memoriaBase ∧
      ∃ l a t r, [(0, -100), (124, 900)] = l ++ (a, t) :: r ∧ Cabe (30 + 24) (a, t) ∧
        (∀ block ∈ [((0 : ℤ), (-100 : ℤ)), (124, 900)], Cabe (30 + 24) block → t ≤ block.2) ∧
        Divide 24 (fun _ _ _ => 2000) 30 (usedSecond 24 30) l a t r
          (bestfit 24 (fun _ _ _ => 2000) doisBlocos 3 30) := by
  have total : contabil 24 [(0, -100), (124, 900)] = memoriaBase := by decide
  have fresh : Novo 24 (fun _ _ _ => 2000) 30 [(0, -100), (124, 900)] := by
    unfold Novo Apart
    decide
  exact ⟨total, ((strategies_agree (by decide) blocos_doisBlocos total (by decide) fresh
    (by decide)).2 ⟨(124, 900), by decide, by decide⟩).2.1⟩

end MeuAlloc
