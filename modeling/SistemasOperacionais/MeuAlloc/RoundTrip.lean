/-
**`meu_alloc.c`: an allocation and the freeing of what it returned.**

* `not_restored` — `firstfit` marks the first half used and returns the second, so that freeing it
  does not give the block back; `bestfit` takes the first block of the list when the smallest that
  can hold the request has size `memoria_base`.
* `coalesce_dividir` — a free block split and freed again is whole.
* `Restauravel` — the condition: `firstfit` finds no block, and for `bestfit` the first block serves.
* `aloca_libera` — **`meu_libera(meu_aloca(m, tam))` gives back the sizes and marks exactly under the
  condition.** The block that `meu_libera` marks free is then the one that the allocation marked used.
-/

import SistemasOperacionais.MeuAlloc.Strategies

namespace MeuAlloc

open Headers Coalesce

variable {h tam : ℤ} {lugar : ℤ → ℤ → ℤ → ℤ} {s : State} {blocks l r : List Block} {fuel : ℕ}

/-- A list of blocks as it should be: no two neighbours free, and `ptrNextFit` on it. -/
structure BemFormada (h : ℤ) (s : State) (blocks : List Block) : Prop where
  blocos : Blocos h s blocks
  settled : Settled livre blocks
  ptr : ∃ block ∈ blocks, s.ptrNextFit = some block.1

/-! ### Lists that do not come back -/

/-- A used block of 100 bytes, and a free one of the size of the arena. -/
def arenaAtras : State where
  memory a := if a = 0 then some ⟨-100, none, some 124⟩ else if a = 124 then some ⟨1024, some 0, none⟩
    else none
  listaMemoria := some 0
  ptrNextFit := some 0

theorem blocos_arenaAtras : Blocos 24 arenaAtras [(0, -100), (124, 1024)] := by
  refine ⟨rfl, ⟨rfl, rfl, trivial⟩, List.pairwise_cons.mpr ⟨fun block member => ?_,
    List.pairwise_singleton _ _⟩⟩
  rw [List.mem_singleton.mp member]
  exact .inl (by decide)

/-- The headers at address 0 after an allocation and the freeing of what it returned. -/
def idaEVolta (s : State) (metodo : Metodo) (tam : ℤ) : Option (Option Hole) := do
  let (result, s) ← meuAloca 24 (fun _ _ _ => 5000) s 10 metodo tam
  let p ← result
  let s ← meuLibera 24 s 10 (some p)
  some (s.memory 0)

/-- A list whose first header has changed has not come back. -/
theorem not_blocos_of_idaEVolta {metodo : Metodo} {t : ℤ} {hole : Hole}
    (run : idaEVolta s metodo tam = some (some hole)) (changed : hole.tam ≠ t) :
    ∃ p after final, meuAloca 24 (fun _ _ _ => 5000) s 10 metodo tam = some (some p, after) ∧
      meuLibera 24 after 10 (some p) = some final ∧ ¬ Blocos 24 final ((0, t) :: r) := by
  obtain ⟨⟨result, after⟩, taken, rest⟩ := Option.bind_eq_some_iff.mp run
  obtain ⟨p, rfl, freeing⟩ := Option.bind_eq_some_iff.mp rest
  obtain ⟨final, freed, last⟩ := Option.bind_eq_some_iff.mp freeing
  refine ⟨p, after, final, taken, freed, fun blocos => ?_⟩
  have list : Ligados 24 final.memory ([] ++ (0, t) :: r) := blocos.linked
  obtain ⟨other, found, size, _⟩ := load_hole list
  rw [found] at last
  cases last
  exact changed size

/-- **Lists that do not come back**: the arena after `firstfit`, and a list with a block of the size
of the arena behind a used one after `bestfit`. Both are linked both ways, without two free
neighbours. -/
theorem not_restored :
    (BemFormada 24 (inicializaMem 24 0) [(0, 1024)] ∧
      Linked 24 Hole.linked (inicializaMem 24 0).memory [(0, 1024)] ∧
      ∃ p after final, meuAloca 24 (fun _ _ _ => 5000) (inicializaMem 24 0) 10 .first 30 =
          some (some p, after) ∧
        meuLibera 24 after 10 (some p) = some final ∧ ¬ Blocos 24 final [(0, 1024)]) ∧
    BemFormada 24 arenaAtras [(0, -100), (124, 1024)] ∧
      Linked 24 Hole.linked arenaAtras.memory [(0, -100), (124, 1024)] ∧
      ∃ p after final, meuAloca 24 (fun _ _ _ => 5000) arenaAtras 10 .best 30 =
          some (some p, after) ∧
        meuLibera 24 after 10 (some p) = some final ∧
          ¬ Blocos 24 final [(0, -100), (124, 1024)] := by
  refine ⟨⟨⟨⟨rfl, ⟨rfl, trivial⟩, List.pairwise_singleton _ _⟩, List.isChain_singleton _,
      (0, 1024), List.mem_singleton_self _, rfl⟩, ⟨⟨rfl, trivial⟩, List.pairwise_singleton _ _⟩, ?_⟩,
    ⟨blocos_arenaAtras, ?_, (0, -100), List.mem_cons_self, rfl⟩,
    ⟨⟨rfl, rfl, trivial⟩, blocos_arenaAtras.linked.spread⟩, ?_⟩
  · have run : idaEVolta (inicializaMem 24 0) .first 30 =
        some (some ⟨-30, none, some 5000⟩) := by decide +kernel
    exact not_blocos_of_idaEVolta run (by decide)
  · exact List.isChain_cons_cons.mpr ⟨by decide, List.isChain_singleton _⟩
  · have run : idaEVolta arenaAtras .best 30 = some (some ⟨-154, none, some 5000⟩) := by
      decide +kernel
    exact not_blocos_of_idaEVolta run (by decide)

/-! ### A block split and freed again -/

/-- **A free block split and freed again is whole.** -/
theorem coalesce_dividir (positive : 0 < h) {a t b : ℤ} (settled : Settled livre (l ++ (a, t) :: r))
    (asked : 0 < tam) (fits : Cabe (tam + h) (a, t)) :
    coalesce livre (joined h) (l ++ (a, t - tam - h) :: (b, tam) :: r) = l ++ (a, t) :: r := by
  unfold Cabe at fits
  dsimp only at fits
  have free : livre (a, t) = true := livre_iff.mpr (by dsimp only; omega)
  have rest : livre (a, t - tam - h) = true := livre_iff.mpr (by dsimp only; omega)
  have freed : livre (b, tam) = true := livre_iff.mpr (by dsimp only; omega)
  obtain ⟨left, right, across⟩ := List.isChain_append.mp settled
  have before : Settled livre (l ++ [(a, t - tam - h)]) := by
    refine List.isChain_append.mpr ⟨left, List.isChain_singleton _, ?_⟩
    intro x last y first
    obtain rfl := Option.mem_some.mp first
    exact fun both => across x last (a, t) rfl ⟨both.1, free⟩
  -- what follows the block is used, since the block was free
  have behind : push livre (joined h) (b, tam) r = (b, tam) :: r := by
    refine push_of_not fun y first both => ?_
    obtain ⟨tail, rfl⟩ := List.head?_eq_some_iff.mp first
    exact (List.isChain_cons_cons.mp right).1 ⟨free, both.2⟩
  have whole : joined h (a, t - tam - h) (b, tam) = (a, t) := by
    refine Prod.ext rfl ?_
    show t - tam - h + h + tam = t
    omega
  rw [coalesce_concat_append (joins positive) before, coalesce,
    coalesce_of_settled (show Settled livre r from right.tail), behind, push_of_free rest freed, whole]

/-- The list after a split has no two free neighbours, whichever half is used. -/
theorem settled_metades {a t b : ℤ} (metodo : Metodo) (settled : Settled livre (l ++ (a, t) :: r))
    (positive : 0 < h) (asked : 0 < tam) (fits : Cabe (tam + h) (a, t)) :
    Settled livre (l ++ (a, (metodo.metades h tam t).1) :: (b, (metodo.metades h tam t).2) :: r) := by
  unfold Cabe at fits
  dsimp only at fits
  have free : livre (a, t) = true := livre_iff.mpr (by dsimp only; omega)
  have used : ∀ x, livre (x, (-1) * tam) = false := fun x => decide_eq_false (by dsimp only; omega)
  have rest : ∀ x, livre (x, t - tam - h) = livre (a, t) := fun x => by
    rw [free]
    exact livre_iff.mpr (by dsimp only; omega)
  cases metodo with
  | first => exact settled.insert_before (rest b) (used a)
  | best | worst | next => exact settled.insert (rest a) (used b)

/-! ### An allocation and the freeing of what it returned -/

/-- **The list comes back**: whatever pointer the call returns, freeing it gives back the sizes and
marks, in order. -/
def Restaura (h : ℤ) (lugar : ℤ → ℤ → ℤ → ℤ) (s : State) (blocks : List Block) (fuel fuelLibera : ℕ)
    (metodo : Metodo) (tam : ℤ) : Prop :=
  ∀ p after, meuAloca h lugar s fuel metodo tam = some (some p, after) →
    ∃ final blocks', meuLibera h after fuelLibera (some p) = some final ∧
      Blocos h final blocks' ∧ blocks'.map Prod.snd = blocks.map Prod.snd

/-- **The condition**: `firstfit` has no block that can hold the request, and in `bestfit` the first
block serves. -/
def Restauravel (h tam : ℤ) (blocks : List Block) : Metodo → Prop
  | .first => ∀ block ∈ blocks, ¬ Cabe (tam + h) block
  | .best => Primeiro (tam + h) blocks
  | .worst | .next => True

section Libera

variable {fuelLibera : ℕ} {p a t : ℤ} {after : State}

/-- A block split, and what is behind the pointer returned freed. -/
theorem dividir_libera (positive : 0 < h) (blocos : Blocos h s (l ++ (a, t) :: r))
    (fresh : Novo h lugar tam (l ++ (a, t) :: r))
    (enough : (l ++ (a, t) :: r).length + 1 < fuelLibera) {sizes : ℤ → ℤ × ℤ}
    (call : dividir h lugar s a tam sizes = some (some p, after)) :
    Blocos h after (l ++ (a, (sizes t).1) :: (p - h, (sizes t).2) :: r) ∧
      ∃ final, meuLibera h after fuelLibera (some p) = some final ∧
        Blocos h final
          (coalesce livre (joined h) (l ++ (a, (sizes t).1) :: (p - h, mod (sizes t).2) :: r)) := by
  have here : (a, t) ∈ l ++ (a, t) :: r := List.mem_append_right _ List.mem_cons_self
  obtain ⟨memory, made, linked⟩ := dividir_spec lugar tam positive blocos.linked
    (fresh (a, t) here) sizes
  rw [made] at call
  cases call
  have divided : Blocos h { s with memory := memory, ptrNextFit := some (lugar a t tam) }
      ((l ++ [(a, (sizes t).1)]) ++ (lugar a t tam, (sizes t).2) :: r) := by
    rw [List.append_assoc]
    exact ⟨blocos.head.trans (first_replace l _ _ a _ _ none none), linked⟩
  have passes : ((l ++ [(a, (sizes t).1)]) ++ (lugar a t tam, (sizes t).2) :: r).length <
      fuelLibera := by
    simp only [List.length_append, List.length_cons, List.length_nil] at enough ⊢
    omega
  obtain ⟨final, freed, back⟩ := meuLibera_spec positive divided passes
  rw [List.append_assoc] at divided back
  rw [Int.add_sub_cancel]
  exact ⟨divided, _, freed, back⟩

variable (positive : 0 < h) (list : BemFormada h s blocks) (asked : 0 < tam)
  (fresh : Novo h lugar tam blocks) (enough : blocks.length < fuel)
  (enoughLibera : blocks.length + 1 < fuelLibera)

include positive list asked fresh enough enoughLibera

/-- **Under the condition the list comes back**, addresses included, and in between the block at the
pointer returned is the one marked used. -/
theorem restaura_of_restauravel {metodo : Metodo} (condition : Restauravel h tam blocks metodo)
    (call : meuAloca h lugar s fuel metodo tam = some (some p, after)) :
    ∃ l a t r, blocks = l ++ (a, t) :: r ∧
      Blocos h after (l ++ (a, t - tam - h) :: (p - h, (-1) * tam) :: r) ∧
      ∃ final, meuLibera h after fuelLibera (some p) = some final ∧ Blocos h final blocks := by
  have serves : metodo = .best → Primeiro (tam + h) blocks := by
    rintro rfl
    exact condition
  rcases meuAloca_cases lugar metodo positive list.blocos list.ptr serves asked enough with
    refused | ⟨l, a, t, r, rfl, fits, split⟩
  · rw [refused] at call
    cases call
  · have method : metodo ≠ .first := by
      rintro rfl
      exact condition (a, t) (List.mem_append_right _ List.mem_cons_self) fits
    have sizes : metodo.metades h tam = usedSecond h tam := by
      cases metodo <;> first | rfl | exact absurd rfl method
    rw [split, sizes] at call
    obtain ⟨divided, final, freed, back⟩ := dividir_libera positive list.blocos fresh enoughLibera
      call
    refine ⟨l, a, t, r, rfl, divided, final, freed, ?_⟩
    have whole : mod (usedSecond h tam t).2 = tam := mod_neg (by omega)
    rw [whole] at back
    exact coalesce_dividir positive list.settled asked fits ▸ back

/-- After `firstfit` there is one block more. -/
theorem firstfit_not_restaura (holds : ∃ block ∈ blocks, Cabe (tam + h) block) :
    ¬ Restaura h lugar s blocks fuel fuelLibera .first tam := by
  intro restaura
  obtain ⟨⟨a, t⟩, found⟩ : ∃ block, blocks.find? (fun block => decide (Cabe (tam + h) block)) =
      some block := by
    obtain ⟨block, member, fits⟩ := holds
    refine Option.ne_none_iff_exists'.mp fun none => ?_
    exact List.find?_eq_none.mp none block member (decide_eq_true fits)
  have fits : Cabe (tam + h) (a, t) := by simpa using List.find?_some found
  obtain ⟨l, r, rfl⟩ := List.append_of_mem (List.mem_of_find?_eq_some found)
  obtain ⟨memory, made, -⟩ := dividir_spec lugar tam positive list.blocos.linked
    (fresh (a, t) (List.mem_append_right _ List.mem_cons_self)) (usedFirst h tam)
  have call : meuAloca h lugar s fuel .first tam = dividir h lugar s a tam (usedFirst h tam) := by
    rw [meuAloca, firstfit_eq list.blocos enough, found]
    rfl
  rw [made] at call
  obtain ⟨final, blocks', freed, same, sizes⟩ := restaura _ _ call
  obtain ⟨-, final', freed', back⟩ := dividir_libera positive list.blocos fresh enoughLibera made
  rw [freed] at freed'
  cases freed'
  -- the half that is freed was free already
  have half : mod (usedFirst h tam t).2 = (usedFirst h tam t).2 := by
    unfold Cabe at fits
    exact mod_of_nonneg (show 0 ≤ t - tam - h by dsimp only at fits; omega)
  have settled : Settled livre (l ++ (a, (usedFirst h tam t).1) ::
      (lugar a t tam + h - h, (usedFirst h tam t).2) :: r) :=
    settled_metades .first list.settled positive asked fits
  rw [half, coalesce_of_settled settled] at back
  rw [blocos_unique same back] at sizes
  have lengths := congrArg List.length sizes
  simp at lengths

/-- After `bestfit` has split a first block that cannot hold the request, that block is smaller. -/
theorem bestfit_not_restaura (fails : ¬ Primeiro (tam + h) blocks) :
    ¬ Restaura h lugar s blocks fuel fuelLibera .best tam := by
  intro restaura
  obtain ⟨⟨a, t⟩, r, rfl, small, taken⟩ :=
    escolheBest_of_not_primeiro id list.blocos enough fails
  obtain ⟨memory, made, -⟩ := dividir_spec (l := []) lugar tam positive list.blocos.linked
    (fresh (a, t) List.mem_cons_self) (usedSecond h tam)
  have call : meuAloca h lugar s fuel .best tam = dividir h lugar s a tam (usedSecond h tam) := by
    rw [meuAloca, bestfit, Com.bestfit, taken]
    rfl
  rw [made] at call
  obtain ⟨final, blocks', freed, same, sizes⟩ := restaura _ _ call
  obtain ⟨-, final', freed', back⟩ :=
    dividir_libera (l := []) positive list.blocos fresh enoughLibera made
  rw [freed] at freed'
  cases freed'
  -- what is left of the first block is negative, and so joined with nothing
  have used : livre (a, (usedSecond h tam t).1) = false := by
    unfold Cabe at small
    exact decide_eq_false (show ¬ 0 ≤ t - tam - h by dsimp only [id] at small; omega)
  rw [List.nil_append, coalesce, push_of_not fun _ _ both => by simp [used] at both] at back
  rw [blocos_unique same back, List.map_cons, List.map_cons] at sizes
  have changed : t - tam - h = t := (List.cons.inj sizes).1
  omega

/-- **`meu_libera(meu_aloca(m, tam))` gives the sizes and marks back exactly under the condition**,
for every method. Then the addresses come back too, and in between the block at the pointer returned
is the one marked used. -/
theorem aloca_libera (metodo : Metodo) :
    (Restaura h lugar s blocks fuel fuelLibera metodo tam ↔ Restauravel h tam blocks metodo) ∧
      (Restauravel h tam blocks metodo →
        ∀ p after, meuAloca h lugar s fuel metodo tam = some (some p, after) →
          ∃ l a t r, blocks = l ++ (a, t) :: r ∧
            Blocos h after (l ++ (a, t - tam - h) :: (p - h, (-1) * tam) :: r) ∧
            ∃ final, meuLibera h after fuelLibera (some p) = some final ∧
              Blocos h final blocks) := by
  refine ⟨⟨fun restaura => ?_, fun condition p after call => ?_⟩, fun condition p after call => ?_⟩
  · cases metodo with
    | first =>
      intro block member fits
      exact firstfit_not_restaura positive list asked fresh enough enoughLibera
        ⟨block, member, fits⟩ restaura
    | best =>
      by_contra fails
      exact bestfit_not_restaura positive list asked fresh enough enoughLibera fails restaura
    | worst | next => trivial
  · obtain ⟨_, _, _, _, _, _, final, freed, blocos⟩ :=
      restaura_of_restauravel positive list asked fresh enough enoughLibera condition call
    exact ⟨final, blocks, freed, blocos, rfl⟩
  · exact restaura_of_restauravel positive list asked fresh enough enoughLibera condition call

end Libera

/-- On two blocks, one of them used: `worstfit` gives the list back and `firstfit` does not. -/
theorem aloca_libera_doisBlocos :
    (∃ p after, meuAloca 24 (fun _ _ _ => 2000) doisBlocos 3 .worst 30 = some (some p, after) ∧
      ∃ final, meuLibera 24 after 4 (some p) = some final ∧
        Blocos 24 final [(0, -100), (124, 900)]) ∧
      ¬ Restaura 24 (fun _ _ _ => 2000) doisBlocos [(0, -100), (124, 900)] 3 4 .first 30 := by
  have list : BemFormada 24 doisBlocos [(0, -100), (124, 900)] :=
    ⟨blocos_doisBlocos, List.isChain_cons_cons.mpr ⟨by decide, List.isChain_singleton _⟩,
      (0, -100), List.mem_cons_self, rfl⟩
  have fresh : Novo 24 (fun _ _ _ => 2000) 30 [(0, -100), (124, 900)] := by
    unfold Novo Apart
    decide
  have run : ((meuAloca 24 (fun _ _ _ => 2000) doisBlocos 3 .worst 30).bind Prod.fst).isSome =
      true := by decide +kernel
  obtain ⟨p, run⟩ := Option.isSome_iff_exists.mp run
  obtain ⟨⟨_, after⟩, call, rfl⟩ := Option.bind_eq_some_iff.mp run
  have passes : [((0 : ℤ), (-100 : ℤ)), (124, 900)].length + 1 < 4 := by decide
  have all := aloca_libera (by decide) list (by decide) fresh (Nat.lt_succ_self 2) passes
  obtain ⟨_, _, _, _, _, _, back⟩ := (all .worst).2 trivial p after call
  refine ⟨⟨p, after, call, back⟩, fun restaura => ?_⟩
  exact (all .first).1.mp restaura (124, 900) (by decide) (by decide)

end MeuAlloc
