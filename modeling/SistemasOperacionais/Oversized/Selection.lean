/-
**Requests near the top of the `int` range: which blocks are selected.**

The tests compare the size of a block with `tam + tamHole`, a sum of two `int`. A request above
`2 ^ 31 - 1 - tamHole` makes the sum negative, and then used blocks and small ones pass.

* `oversized_served` — a request of `2 ^ 31 - 1` bytes on a list of some hundred: `firstfit`,
  `bestfit` and `meu_aloca` of `memory_management_unity.c` split a used block, `worstfit` one of 900
  bytes. `bestfit` splits a used block also for a small request, when the block it chooses has size
  `memoria_base` and is not the first.
* `Seleciona` — a call that selects only a free block that can hold the request, and refuses a
  request larger than every free block.
* `AdmiteFirst`, `AdmiteBest`, `AdmiteWorst`, `AdmiteUnity` — the condition for each function, on the
  blocks of the list and the request: the sum is exact, or nothing passes the test by the sum that
  wraps.
* `oversized_refused` — **each of the four selects in this way exactly under its condition.**
-/

import SistemasOperacionais.MeuAlloc.RoundTrip
import SistemasOperacionais.Unity.Payload

namespace Oversized

open Headers MeuAlloc Select Wrap

/-! ### A sum that wraps -/

/-- **Served, though nothing can hold it**: a request of `2 ^ 31 - 1` bytes; and by a used block, a
request of 30 bytes in `bestfit` when the block chosen has size `memoria_base`. -/
theorem oversized_served :
    (Blocos 24 doisBlocos [(0, -100), (124, 900)] ∧
      (∃ after, Com.firstfit 24 (fun _ _ _ => 2000) int doisBlocos 3 2147483647 =
          some (some 2024, after) ∧ after.memory 0 = some ⟨-2147483647, none, some 2000⟩) ∧
      (∃ after, Com.bestfit 24 (fun _ _ _ => 2000) int doisBlocos 3 2147483647 =
          some (some 2024, after) ∧ after.memory 0 = some ⟨2147483525, none, some 2000⟩) ∧
      ∃ after, Com.worstfit 24 (fun _ _ _ => 2000) int doisBlocos 3 2147483647 =
          some (some 2024, after) ∧ after.memory 124 = some ⟨-2147482771, some 0, some 2000⟩) ∧
    (Blocos 24 arenaAtras [(0, -100), (124, 1024)] ∧
      ∃ after, Com.bestfit 24 (fun _ _ _ => 2000) int arenaAtras 3 30 = some (some 2024, after) ∧
        after.memory 0 = some ⟨-154, none, some 2000⟩) ∧
    Unity.WellFormed 24 (fun y => (nodes Unity.Hole.mk none Unity.fourBlocks).lookup y) (some 0)
        Unity.fourBlocks ∧
      ∃ p after, Unity.meuAloca 24
          (fun y => (nodes Unity.Hole.mk none Unity.fourBlocks).lookup y) (some 0) 5 2147483647 =
        some (some p, after) ∧ ∃ hole, after 0 = some hole ∧ hole.tam = 2147483613 := by
  refine ⟨⟨blocos_doisBlocos, ⟨_, rfl, ?_⟩, ⟨_, rfl, ?_⟩, ⟨_, rfl, ?_⟩⟩,
    ⟨blocos_arenaAtras, _, rfl, ?_⟩,
    Unity.fourBlocks_wellFormed, _, _, rfl, _, rfl, ?_⟩ <;> decide +kernel

/-! ### What is selected -/

/-- **A call that selects only a block that can hold the request.** It ends with the block it chose,
or with none; the block is free and can hold the request; and a request larger than every free block
returns NULL and leaves the list. -/
structure Seleciona {σ : Type} (livre cabe : ℤ → Prop) (tam : ℤ) (blocks : List (ℤ × ℤ)) (s : σ)
    (serve : Option ℤ → Option (Option ℤ × σ)) (escolha : Option (Option ℤ))
    (call : Option (Option ℤ × σ)) : Prop where
  ends : ∃ choice, escolha = some choice ∧ call = serve choice
  selected : ∀ a, escolha = some (some a) → ∃ t, (a, t) ∈ blocks ∧ livre t ∧ cabe t
  refused : (∀ block ∈ blocks, livre block.2 → block.2 < tam) → call = some (none, s)

/-- All of it follows from the second part, if what can hold the request is free and not smaller. -/
theorem seleciona_iff {σ : Type} {livre cabe : ℤ → Prop} {tam : ℤ} {blocks : List (ℤ × ℤ)} {s : σ}
    {serve : Option ℤ → Option (Option ℤ × σ)} {escolha : Option (Option ℤ)} {choice : Option ℤ}
    {call : Option (Option ℤ × σ)} (larger : ∀ t, cabe t → livre t ∧ tam ≤ t)
    (idle : serve none = some (none, s)) (chosen : escolha = some choice)
    (served : call = escolha.bind serve) :
    Seleciona livre cabe tam blocks s serve escolha call ↔
      ∀ a ∈ choice, ∃ t, (a, t) ∈ blocks ∧ cabe t := by
  rw [chosen, Option.bind_some] at served
  rw [chosen]
  constructor
  · intro good a here
    obtain ⟨t, member, _, holds⟩ := good.selected a (congrArg some here)
    exact ⟨t, member, holds⟩
  · intro good
    refine ⟨⟨choice, rfl, served⟩, fun a here => ?_, fun small => ?_⟩
    · obtain ⟨t, member, holds⟩ := good a (Option.some.inj here)
      exact ⟨t, member, (larger t holds).1, holds⟩
    · cases choice with
      | none => exact served.trans idle
      | some a =>
        obtain ⟨t, member, holds⟩ := good a rfl
        have less := small (a, t) member (larger t holds).1
        exact absurd (larger t holds).2 (Int.not_le.mpr less)

/-! ### The conditions -/

section Condicoes

variable (h tam : ℤ) (blocks : List (ℤ × ℤ))

/-- `firstfit`: the sum is exact, or no block passes. -/
def AdmiteFirst : Prop :=
  tam + h ≤ 2 ^ 31 - 1 ∨ ∀ block ∈ blocks, ¬ Cabe (int (tam + h)) block

/-- `bestfit`: the sum is exact and the first block serves, or no block up to `memoria_base` passes. -/
def AdmiteBest : Prop :=
  tam + h ≤ 2 ^ 31 - 1 ∧ Primeiro (tam + h) blocks ∨
    2 ^ 31 - 1 < tam + h ∧ ∀ block ∈ blocks, ¬ CabeBase (int (tam + h)) block

/-- `worstfit`: the sum is exact, or no block has a size above 0. -/
def AdmiteWorst : Prop :=
  tam + h ≤ 2 ^ 31 - 1 ∨ ∀ block ∈ blocks, block.2 ≤ 0

/-- `meu_aloca` of `memory_management_unity.c`: the sum is exact, or the first block above the sum
that wraps has just the size asked for. -/
def AdmiteUnity : Prop :=
  tam + h ≤ 2 ^ 31 - 1 ∨
    ∀ block ∈ blocks.find? fun block => decide (int (tam + h) < block.2), block.2 = tam

end Condicoes

section Escolhas

variable {h tam : ℤ} {blocks : List (ℤ × ℤ)} {choice : Option ℤ}

/-- Above the range no block can hold the request and the header, and a choice is right only if it
is none. -/
theorem cabe_iff_none (sized : ∀ block ∈ blocks, block.2 ≤ 2 ^ 31 - 1)
    (above : 2 ^ 31 - 1 < tam + h) :
    (∀ a ∈ choice, ∃ t, (a, t) ∈ blocks ∧ tam + h ≤ t) ↔ choice = none := by
  constructor
  · intro good
    by_contra chosen
    obtain ⟨a, here⟩ := Option.ne_none_iff_exists'.mp chosen
    obtain ⟨t, member, holds⟩ := good a here
    have small := sized (a, t) member
    dsimp only at small
    omega
  · rintro rfl a here
    cases here

/-- A choice among the blocks that pass the test, if there are any. -/
theorem cabe_iff {passa : Block → Prop} (asked : 0 < tam) (positive : 0 < h)
    (sized : ∀ block ∈ blocks, block.2 ≤ 2 ^ 31 - 1)
    (passes : ∀ a ∈ choice, ∃ t, (a, t) ∈ blocks ∧ Cabe (int (tam + h)) (a, t))
    (none_iff : choice = none ↔ ∀ block ∈ blocks, ¬ passa block) :
    (∀ a ∈ choice, ∃ t, (a, t) ∈ blocks ∧ tam + h ≤ t) ↔
      tam + h ≤ 2 ^ 31 - 1 ∨ ∀ block ∈ blocks, ¬ passa block := by
  rcases lt_or_ge (2 ^ 31 - 1) (tam + h) with above | range
  · rw [cabe_iff_none sized above, none_iff, or_iff_right (Int.not_le.mpr above)]
  · rw [int_eq (by omega) range] at passes
    exact iff_of_true passes (.inl range)

end Escolhas

/-! ### The four functions -/

section Funcoes

variable {h tam : ℤ} (positive : 0 < h) (asked : 0 < tam)

include positive asked

section Strategies

variable (lugar : ℤ → ℤ → ℤ → ℤ) {s : State} {blocks : List Block} {fuel : ℕ}
  (blocos : Blocos h s blocks) (sized : ∀ block ∈ blocks, block.2 ≤ 2 ^ 31 - 1)
  (enough : blocks.length < fuel)

include blocos sized enough

theorem firstfit_seleciona_iff :
    Seleciona (0 ≤ ·) (tam + h ≤ ·) tam blocks s
        (atende h lugar s tam (Com.usedFirst h int tam)) (Com.escolheFirst h int s fuel tam)
        (Com.firstfit h lugar int s fuel tam) ↔ AdmiteFirst h tam blocks := by
  refine (seleciona_iff (fun t holds => by omega) rfl (escolheFirst_eq blocos enough) rfl).trans
    (cabe_iff asked positive sized find_cabe ?_)
  simp

theorem worstfit_seleciona_iff (header : h ≤ 2 ^ 31 - 1) (range : tam ≤ 2 ^ 31 - 1) :
    Seleciona (0 ≤ ·) (tam + h ≤ ·) tam blocks s
        (atende h lugar s tam (Com.usedSecond h int tam)) (Com.escolheWorst h int s fuel tam)
        (Com.worstfit h lugar int s fuel tam) ↔ AdmiteWorst h tam blocks := by
  refine (seleciona_iff (fun t holds => by omega) rfl (escolheWorst_eq blocos enough) rfl).trans ?_
  have passes : ∀ a ∈ (select (CabeAlgo (int (tam + h))) Maior blocks).map Prod.fst,
      ∃ t, (a, t) ∈ blocks ∧ Cabe (int (tam + h)) (a, t) := by
    intro a choice
    obtain ⟨block, chosen, rfl⟩ := Option.map_eq_some_iff.mp choice
    obtain ⟨member, fits, _⟩ := select_eq_some ranks_maior chosen
    exact ⟨block.2, member, fits.1⟩
  rw [cabe_iff asked positive sized passes (Option.map_eq_none_iff.trans select_eq_none_iff)]
  refine or_congr_right' fun above => forall₂_congr fun block _ => ?_
  -- the sum is negative, and only the test for 0 is left
  have negative := int_above (tam + h) (by omega) (by omega)
  unfold CabeAlgo Cabe
  omega

theorem bestfit_seleciona_iff :
    Seleciona (0 ≤ ·) (tam + h ≤ ·) tam blocks s
        (atende h lugar s tam (Com.usedSecond h int tam)) (Com.escolheBest h int s fuel tam)
        (Com.bestfit h lugar int s fuel tam) ↔ AdmiteBest h tam blocks := by
  obtain ⟨choice, chosen⟩ : ∃ choice, Com.escolheBest h int s fuel tam = some choice :=
    ⟨_, escolheBest_eq blocos enough⟩
  refine (seleciona_iff (fun t holds => by omega) rfl chosen rfl).trans ?_
  rw [AdmiteBest]
  rcases lt_or_ge (2 ^ 31 - 1) (tam + h) with above | exact_
  · have refuses : _ ↔ ∀ block ∈ blocks, ¬ CabeBase (int (tam + h)) block :=
      escolheBest_eq_none_iff int blocos enough
    rw [chosen, Option.some_inj] at refuses
    rw [cabe_iff_none sized above, refuses, or_iff_right fun both => Int.not_le.mpr above both.1,
      and_iff_right above]
  · have holds : _ ↔ Primeiro (int (tam + h)) blocks :=
      escolheBest_cabe_iff int positive blocos enough
    rw [chosen, int_eq (by omega) exact_] at holds
    rw [and_iff_right exact_, or_iff_left fun both => Int.not_lt.mpr exact_ both.1, ← holds]
    exact forall_congr' fun a => imp_congr_left Option.some_inj.symm

end Strategies

/-- `meu_aloca` of `memory_management_unity.c`. -/
theorem meuAloca_seleciona_iff (header : h ≤ 2 ^ 31 - 1) (range : tam ≤ 2 ^ 31 - 1)
    {memory : Memory Unity.Hole} {holeList : Option ℤ} {blocks : List Unity.Block} {fuel : ℕ}
    (wellFormed : Unity.WellFormed h memory holeList blocks)
    (sized : ∀ block ∈ blocks, block.2 ≤ 2 ^ 31 - 1) (enough : blocks.length < fuel) :
    Seleciona (0 < ·) (fun t => t = tam ∨ tam + h ≤ t) tam blocks memory
        (fun choice => choice.elim (some (none, memory)) (Unity.serve h memory tam))
        (Unity.scan h memory tam fuel holeList) (Unity.meuAloca h memory holeList fuel tam) ↔
      AdmiteUnity h tam blocks := by
  have scanned := Unity.scan_eq h tam wellFormed.linked.chain enough
  rw [← wellFormed.head] at scanned
  have call : Unity.meuAloca h memory holeList fuel tam =
      (Unity.scan h memory tam fuel holeList).bind fun choice =>
        choice.elim (some (none, memory)) (Unity.serve h memory tam) := by
    rw [Unity.meuAloca, Option.bind_eq_bind]
    congr 1
    funext choice
    cases choice <;> rfl
  refine (seleciona_iff (fun t holds => by omega) rfl scanned call).trans ?_
  rw [AdmiteUnity]
  rcases lt_or_ge (2 ^ 31 - 1) (tam + h) with above | exact_
  · have negative := int_above (tam + h) (by omega) (by omega)
    have tests : (fun block : Unity.Block => decide (block.2 = tam ∨ int (tam + h) < block.2)) =
        fun block => decide (int (tam + h) < block.2) := by
      funext block
      refine decide_eq_decide.mpr (or_iff_right_of_imp fun same => ?_)
      omega
    rw [tests, or_iff_right (Int.not_le.mpr above)]
    refine ⟨fun good block found => ?_, fun good a found => ?_⟩
    · have member := List.mem_of_find?_eq_some found
      obtain ⟨t, there, fits⟩ := good block.1 (Option.mem_map_of_mem _ found)
      have same : t = block.2 :=
        congrArg Prod.snd (block_unique positive wellFormed.linked.spread member there rfl)
      have small := sized block member
      omega
    · obtain ⟨block, first, rfl⟩ := Option.map_eq_some_iff.mp found
      exact ⟨block.2, List.mem_of_find?_eq_some first, .inl (good block first)⟩
  · refine iff_of_true ?_ (.inl exact_)
    rw [int_eq (by omega) exact_]
    intro a found
    obtain ⟨block, first, rfl⟩ := Option.map_eq_some_iff.mp found
    have passes := List.find?_some first
    simp only [decide_eq_true_eq] at passes
    exact ⟨block.2, List.mem_of_find?_eq_some first, passes.imp_right le_of_lt⟩

end Funcoes

/-- **Only free blocks that can hold the request are selected, and a request larger than every free
block is refused, exactly under the conditions**, for every request and every list of blocks whose
sizes are `int` values. -/
theorem oversized_refused {h tam : ℤ} (positive : 0 < h) (header : h ≤ 2 ^ 31 - 1) (asked : 0 < tam)
    (range : tam ≤ 2 ^ 31 - 1) :
    (∀ (lugar : ℤ → ℤ → ℤ → ℤ) (s : State) (blocks : List Block) (fuel : ℕ), Blocos h s blocks →
      (∀ block ∈ blocks, block.2 ≤ 2 ^ 31 - 1) → blocks.length < fuel →
      (Seleciona (0 ≤ ·) (tam + h ≤ ·) tam blocks s
        (atende h lugar s tam (Com.usedFirst h int tam)) (Com.escolheFirst h int s fuel tam)
        (Com.firstfit h lugar int s fuel tam) ↔ AdmiteFirst h tam blocks) ∧
      (Seleciona (0 ≤ ·) (tam + h ≤ ·) tam blocks s
        (atende h lugar s tam (Com.usedSecond h int tam)) (Com.escolheBest h int s fuel tam)
        (Com.bestfit h lugar int s fuel tam) ↔ AdmiteBest h tam blocks) ∧
      (Seleciona (0 ≤ ·) (tam + h ≤ ·) tam blocks s
        (atende h lugar s tam (Com.usedSecond h int tam)) (Com.escolheWorst h int s fuel tam)
        (Com.worstfit h lugar int s fuel tam) ↔ AdmiteWorst h tam blocks)) ∧
    ∀ (memory : Memory Unity.Hole) (holeList : Option ℤ) (blocks : List Unity.Block) (fuel : ℕ),
      Unity.WellFormed h memory holeList blocks →
      (∀ block ∈ blocks, block.2 ≤ 2 ^ 31 - 1) → blocks.length < fuel →
      (Seleciona (0 < ·) (fun t => t = tam ∨ tam + h ≤ t) tam blocks memory
        (fun choice => choice.elim (some (none, memory)) (Unity.serve h memory tam))
        (Unity.scan h memory tam fuel holeList) (Unity.meuAloca h memory holeList fuel tam) ↔
          AdmiteUnity h tam blocks) := by
  refine ⟨fun lugar s blocks fuel blocos sized enough => ⟨?_, ?_, ?_⟩,
    fun memory holeList blocks fuel wellFormed sized enough => ?_⟩
  · exact firstfit_seleciona_iff positive asked lugar blocos sized enough
  · exact bestfit_seleciona_iff positive asked lugar blocos sized enough
  · exact worstfit_seleciona_iff positive asked lugar blocos sized enough header range
  · exact meuAloca_seleciona_iff positive asked header range wellFormed sized enough

/-- A request of 30 bytes on the lists above, and one of `2 ^ 31 - 1`. -/
theorem oversized_refused_thirty :
    Seleciona (0 ≤ ·) (30 + 24 ≤ ·) 30 [(0, -100), (124, 900)] doisBlocos
        (atende 24 (fun _ _ _ => 2000) doisBlocos 30 (Com.usedFirst 24 int 30))
        (Com.escolheFirst 24 int doisBlocos 3 30)
        (Com.firstfit 24 (fun _ _ _ => 2000) int doisBlocos 3 30) ∧
      Seleciona (0 < ·) (fun t => t = 30 ∨ 30 + 24 ≤ t) 30 Unity.fourBlocks
        (fun y => (nodes Unity.Hole.mk none Unity.fourBlocks).lookup y)
        (fun choice => choice.elim
          (some (none, fun y => (nodes Unity.Hole.mk none Unity.fourBlocks).lookup y))
          (Unity.serve 24 (fun y => (nodes Unity.Hole.mk none Unity.fourBlocks).lookup y) 30))
        (Unity.scan 24 (fun y => (nodes Unity.Hole.mk none Unity.fourBlocks).lookup y) 30 5 (some 0))
        (Unity.meuAloca 24
          (fun y => (nodes Unity.Hole.mk none Unity.fourBlocks).lookup y) (some 0) 5 30) ∧
      ¬ Seleciona (0 ≤ ·) (2147483647 + 24 ≤ ·) 2147483647 [(0, -100), (124, 900)] doisBlocos
        (atende 24 (fun _ _ _ => 2000) doisBlocos 2147483647 (Com.usedSecond 24 int 2147483647))
        (Com.escolheBest 24 int doisBlocos 3 2147483647)
        (Com.bestfit 24 (fun _ _ _ => 2000) int doisBlocos 3 2147483647) := by
  obtain ⟨thirty, unity⟩ := @oversized_refused 24 30 (by decide) (by decide) (by decide) (by decide)
  obtain ⟨top, -⟩ := @oversized_refused 24 2147483647 (by decide) (by decide) (by decide) (by decide)
  refine ⟨(thirty _ _ _ _ blocos_doisBlocos (by decide) (by decide)).1.mpr (.inl (by decide)),
    (unity _ _ _ _ Unity.fourBlocks_wellFormed (by decide) (by decide)).mpr (.inl (by decide)), ?_⟩
  rw [(top _ _ _ _ blocos_doisBlocos (by decide) (by decide)).2.1]
  rintro (⟨small, _⟩ | ⟨_, none⟩)
  · exact absurd small (by decide)
  · exact none (0, -100) (by decide) (by decide)

end Oversized
