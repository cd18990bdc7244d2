/-
**`meu_alloc.c`: the arena and the list.**

The new header of a split goes to `atual + atual->tam - tam`, and the pointer arithmetic counts
headers: with headers of `h` bytes the offset is `h` times the bytes meant. In the arena of 1024 bytes
only requests that leave almost nothing keep the new header inside; with headers of 24 bytes, those of
at least 983.

* `Run`, `next` — a client's run over the four methods and `meu_libera`.
* `Integro` — every header on `listaMemoria` is inside the arena, the headers do not overlap, the
  list ends and is linked both ways, and the totals printed by `mostra_mem` add up to `memoria_base`.
* `header_outside` — the run: `inicializa_mem()`, `meu_aloca(1, 30)`.
* `Compliant` — the condition on a request: no block on the list is large enough for it, or its new
  header, counted in headers from the end of the arena, still fits.
* `Shape` — the states of such runs: the arena whole, or split once. `ptrNextFit` may point to a header
  that a merge has taken off the list; `nextfit` then splits that one, away from the list.
* `integro_of_compliant` — **every state of every run of calls that meet the condition has its list
  intact**.
-/

import SistemasOperacionais.MeuAlloc.Model
import SistemasOperacionais.Runs.Reach
import Mathlib.Algebra.Order.Group.Unbundled.Int
import Mathlib.Tactic.Linarith

namespace MeuAlloc

open Headers Transition

/-! ### Runs of a client -/

/-- The allocator and the pointers returned and not yet freed. -/
structure Run where
  state : State
  live : List ℤ

/-- A call, with a bound on the passes of its loops. -/
inductive Call
  | aloca (metodo : Metodo) (tam : ℤ) (fuel : ℕ)
  | libera (ponteiro : ℤ) (fuel : ℕ)
  deriving DecidableEq, Repr

section

variable (h base : ℤ)

/-- After `inicializa_mem()`. -/
def inicio : Run := ⟨inicializaMem h base, []⟩

/-- One call: `meu_aloca` of a positive size, or `meu_libera` of a live pointer. -/
def next (run : Run) : Call → Option Run
  | .aloca metodo tam fuel =>
      if 0 < tam then do
        let (result, state) ← meuAloca h (lugarBytes h) run.state fuel metodo tam
        match result with
        | none => some ⟨state, run.live⟩
        | some p => some ⟨state, run.live ++ [p]⟩
      else none
  | .libera ponteiro fuel =>
      if ponteiro ∈ run.live then do
        let state ← meuLibera h run.state fuel (some ponteiro)
        some ⟨state, run.live.erase ponteiro⟩
      else none

/-- **The list is intact.** -/
def Integro (s : State) : Prop :=
  ∃ blocks, s.listaMemoria = first blocks none ∧ Linked h Hole.linked s.memory blocks ∧
    (∀ block ∈ blocks, base ≤ block.1 ∧ block.1 + h ≤ base + memoriaBase) ∧
    ∃ fuel mostra, mostraMem h s fuel = some mostra ∧
      mostra.livre + mostra.ocupada = memoriaBase

/-- A request that leaves so little of `memoria_base` that the rest, counted in headers, is inside the
arena. -/
def Deixa (tam : ℤ) : Prop := (memoriaBase - tam + 1) * h ≤ memoriaBase

/-- **The condition on a call**: no block on the list can hold the request, or it leaves so little
that the new header is inside. -/
def Compliant (run : Run) : Call → Prop
  | .aloca _ tam _ =>
      (∀ x hole, OnList Hole.prox run.state.memory run.state.listaMemoria x →
        run.state.memory x = some hole → hole.tam < tam + h) ∨
      Deixa h tam
  | .libera _ _ => True

end

/-! ### Requests that no block can hold -/

section Refused

/-- Every block visited is too small, and what follows it is visited too. -/
def TooSmall (h : ℤ) (s : State) (tam : ℤ) (Visits : ℤ → Prop) : Prop :=
  ∀ a hole, Visits a → s.memory a = some hole → hole.tam < tam + h ∧ ∀ b ∈ hole.prox, Visits b

variable {h : ℤ} {s : State} {tam : ℤ} {Visits : ℤ → Prop}

/-- A loop down the list that passes every block too small comes to the end of the list. -/
theorem loop_refused {β : Type} (loop : ℕ → Option ℤ → Option β) {result last : β}
    (small : TooSmall h s tam Visits) (out : ∀ atual, loop 0 atual = none)
    (finish : ∀ fuel, loop (fuel + 1) none = some last)
    (pass : ∀ fuel a, loop (fuel + 1) (some a) = some result → ∃ hole, s.memory a = some hole ∧
      (hole.tam < tam + h → loop fuel hole.prox = some result))
    {fuel : ℕ} {atual : Option ℤ} (from_ : ∀ a ∈ atual, Visits a)
    (run : loop fuel atual = some result) : result = last := by
  induction fuel generalizing atual with
  | zero =>
    rw [out] at run
    cases run
  | succ fuel ih =>
    cases atual with
    | none =>
      rw [finish] at run
      exact (Option.some.inj run).symm
    | some a =>
      obtain ⟨hole, found, run⟩ := pass fuel a run
      obtain ⟨short, closed⟩ := small a hole (from_ a rfl) found
      exact ih closed (run short)

theorem firstfitLoop_refused (small : TooSmall h s tam Visits) {fuel : ℕ}
    {atual result : Option ℤ} (from_ : ∀ a ∈ atual, Visits a)
    (run : firstfitLoop s.memory (tam + h) fuel atual = some result) : result = none := by
  refine loop_refused (firstfitLoop s.memory (tam + h)) small (fun _ => rfl) (fun _ => rfl)
    (fun fuel a run => ?_) from_ run
  obtain ⟨hole, found, run⟩ := Option.bind_eq_some_iff.mp run
  refine ⟨hole, found, fun short => ?_⟩
  rwa [if_neg (by omega)] at run

theorem bestfitLoop_refused (small : TooSmall h s tam Visits) {fuel : ℕ}
    {atual ptrMenor : Option ℤ} {menorTam : ℤ} {result : ℤ × Option ℤ}
    (from_ : ∀ a ∈ atual, Visits a)
    (run : bestfitLoop s.memory (tam + h) fuel atual menorTam ptrMenor = some result) :
    result = (menorTam, ptrMenor) := by
  refine loop_refused (fun fuel atual => bestfitLoop s.memory (tam + h) fuel atual menorTam ptrMenor)
    small (fun _ => rfl) (fun _ => rfl) (fun fuel a run => ?_) from_ run
  obtain ⟨hole, found, run⟩ := Option.bind_eq_some_iff.mp run
  refine ⟨hole, found, fun short => ?_⟩
  rwa [if_neg (by omega)] at run

theorem worstfitLoop_refused (small : TooSmall h s tam Visits) {fuel : ℕ}
    {atual ptrMaior : Option ℤ} {maiorTam : ℤ} {result : ℤ × Option ℤ}
    (from_ : ∀ a ∈ atual, Visits a)
    (run : worstfitLoop s.memory (tam + h) fuel atual maiorTam ptrMaior = some result) :
    result = (maiorTam, ptrMaior) := by
  refine loop_refused (fun fuel atual => worstfitLoop s.memory (tam + h) fuel atual maiorTam ptrMaior)
    small (fun _ => rfl) (fun _ => rfl) (fun fuel a run => ?_) from_ run
  obtain ⟨hole, found, run⟩ := Option.bind_eq_some_iff.mp run
  refine ⟨hole, found, fun short => ?_⟩
  rwa [if_neg (by omega)] at run

theorem nextfitLoop_refused (small : TooSmall h s tam Visits)
    (head : ∀ a ∈ s.listaMemoria, Visits a) {fuel : ℕ} {atual result : Option ℤ}
    (from_ : ∀ a ∈ atual, Visits a)
    (run : nextfitLoop s (tam + h) fuel atual = some result) : result = none := by
  induction fuel generalizing atual with
  | zero => cases run
  | succ fuel ih =>
    cases atual with
    | none => cases run
    | some a =>
      obtain ⟨hole, found, run⟩ := Option.bind_eq_some_iff.mp run
      obtain ⟨short, closed⟩ := small a hole (from_ a rfl) found
      rw [if_neg (by omega)] at run
      simp only at run
      split at run
      · split at run
        · cases run
          rfl
        · exact ih head run
      · split at run
        · cases run
          rfl
        · exact ih closed run

/-- **A request larger than every block visited is refused**, and nothing changes. -/
theorem meuAloca_refused (Visits : ℤ → Prop) {lugar : ℤ → ℤ → ℤ → ℤ}
    (small : TooSmall h s tam Visits) (head : ∀ a ∈ s.listaMemoria, Visits a)
    (ptr : ∀ a ∈ s.ptrNextFit, Visits a) {fuel : ℕ} {metodo : Metodo} {result : Option ℤ × State}
    (run : meuAloca h lugar s fuel metodo tam = some result) : result = (none, s) := by
  cases metodo with
  | first =>
    obtain ⟨found, loop, run⟩ := Option.bind_eq_some_iff.mp run
    obtain rfl := firstfitLoop_refused small head loop
    cases run
    rfl
  | best =>
    obtain ⟨found, choice, run⟩ := Option.bind_eq_some_iff.mp run
    obtain ⟨⟨menorTam, ptrMenor⟩, loop, choice⟩ := Option.bind_eq_some_iff.mp choice
    cases bestfitLoop_refused small head loop
    cases choice
    cases run
    rfl
  | worst =>
    obtain ⟨found, choice, run⟩ := Option.bind_eq_some_iff.mp run
    obtain ⟨⟨maiorTam, ptrMaior⟩, loop, choice⟩ := Option.bind_eq_some_iff.mp choice
    cases worstfitLoop_refused small head loop
    cases choice
    cases run
    rfl
  | next =>
    obtain ⟨found, loop, run⟩ := Option.bind_eq_some_iff.mp run
    obtain rfl := nextfitLoop_refused small head ptr loop
    cases run
    rfl

end Refused

/-! ### The states of a compliant run -/

/-- A block: the address of its header and its `tam`. -/
abbrev Block := ℤ × ℤ

/-- Where the header of a split of the whole arena goes. -/
def novo (h base tam : ℤ) : ℤ := base + (memoriaBase - tam) * h

/-- **The states of a compliant run**: the arena whole, or split in two by one request that leaves
almost nothing. `firstfit` marks the first half used and hands out the second one. -/
inductive Shape (h base : ℤ) (s : State) : List Block → Prop
  | whole : (∀ q ∈ s.ptrNextFit, q = base ∨
      base + h ≤ q ∧ ∀ hole, s.memory q = some hole → hole.prox = none) →
      Shape h base s [(base, memoriaBase)]
  | first {t : ℤ} : 0 < t → Deixa h t → t + h ≤ memoriaBase → s.ptrNextFit = some (novo h base t) →
      Shape h base s [(base, -t), (novo h base t, memoriaBase - t - h)]
  | second {t : ℤ} : 0 < t → Deixa h t → t + h ≤ memoriaBase → s.ptrNextFit = some (novo h base t) →
      Shape h base s [(base, memoriaBase - t - h), (novo h base t, -t)]

/-- The headers in memory, on the list or not, do not overlap. -/
def Disjuntos (h : ℤ) (memory : Memory Hole) : Prop :=
  ∀ x y, memory x ≠ none → memory y ≠ none → x ≠ y → Apart h x y

/-- **The invariant of a run.** What is handed out has its header behind that of the arena. -/
structure Inv (h base : ℤ) (run : Run) (blocks : List Block) : Prop where
  head : run.state.listaMemoria = some base
  linked : Linked h Hole.linked run.state.memory blocks
  disjuntos : Disjuntos h run.state.memory
  live : ∀ p ∈ run.live, base + h ≤ p - h
  shape : Shape h base run.state blocks

theorem Disjuntos.store {h x : ℤ} {memory : Memory Hole} (disjuntos : Disjuntos h memory)
    (hole : Hole) : Disjuntos h (store h memory x hole) := by
  have old : ∀ y, Headers.store h memory x hole y ≠ none → y ≠ x →
      memory y ≠ none ∧ Apart h x y := by
    intro y present different
    rw [Headers.store, if_neg different] at present
    split at present
    · exact absurd rfl present
    · refine ⟨present, ?_⟩
      unfold Apart
      omega
  intro y z left right different
  by_cases first : y = x
  · subst first
    exact (old z right (Ne.symm different)).2
  · by_cases second : z = x
    · subst second
      exact (old y left first).2.symm
    · exact disjuntos y z (old y left first).1 (old z right second).1 different

theorem Disjuntos.modify {h x : ℤ} {memory memory' : Memory Hole} (disjuntos : Disjuntos h memory)
    {change : Hole → Hole} (changed : modify h memory x change = some memory') :
    Disjuntos h memory' := by
  obtain ⟨hole, -, rfl⟩ := Option.map_eq_some_iff.mp changed
  exact disjuntos.store _

theorem inv_inicio (h base : ℤ) : Inv h base (inicio h base) [(base, memoriaBase)] where
  head := rfl
  linked := by
    refine ⟨⟨?_, trivial⟩, List.pairwise_singleton _ _⟩
    simp only [inicio, inicializaMem, store_self]
    rfl
  disjuntos := by
    have empty : Disjuntos h fun _ => none := fun _ _ present => absurd rfl present
    exact empty.store _
  live := nofun
  shape := .whole fun q there => by
    cases there
    exact Or.inl rfl

/-! ### Where the new header is -/

section Novo

variable {h base tam : ℤ} (wide : 2 ≤ h)

/-- A header counted in headers from another one is behind it. -/
theorem le_lugarBytes (positive : 0 < h) {a t : ℤ} (fits : tam + h ≤ t) :
    a + h ≤ lugarBytes h a t tam := by
  have headers : h ≤ (t - tam) * h := le_mul_of_one_le_left positive.le (by omega)
  unfold lugarBytes
  omega

/-- It ends inside the arena if the request leaves little. -/
theorem novo_le (leaves : Deixa h tam) : novo h base tam + h ≤ base + memoriaBase := by
  unfold Deixa at leaves
  unfold novo
  linarith

include wide in
/-- Two requests that leave little are together more than the arena. -/
theorem deixa_twice {t : ℤ} (first : Deixa h t) (second : Deixa h tam) :
    memoriaBase < t + tam + 2 * h := by
  unfold Deixa memoriaBase at *
  nlinarith

end Novo

/-! ### Requests -/

section Requests

variable {h base tam : ℤ} {s : State} {fuel : ℕ}

/-- The split of a block that is the last of its list, by any of the methods. -/
theorem dividir_last (positive : 0 < h) {a t : ℤ} {ant : Option ℤ} (fits : tam + h ≤ t)
    (sizes : ℤ → ℤ × ℤ) (here : s.memory a = some ⟨t, ant, none⟩) :
    dividir h (lugarBytes h) s a tam sizes =
      some (some (lugarBytes h a t tam + h),
        { s with
          memory := store h (store h s.memory (lugarBytes h a t tam) ⟨(sizes t).2, some a, none⟩) a
            ⟨(sizes t).1, ant, some (lugarBytes h a t tam)⟩
          ptrNextFit := some (lugarBytes h a t tam) }) := by
  have away : Apart h (lugarBytes h a t tam) a := Or.inr (le_lugarBytes positive fits)
  simp only [dividir, here, modify_eq ((store_apart positive away).trans here),
    Option.bind_eq_bind, Option.bind_some]

section Whole

variable (head : s.listaMemoria = some base) (here : s.memory base = some ⟨memoriaBase, none, none⟩)
  {found : Option ℤ}

include head here

/-- What a strategy finds in the whole arena: nothing, or its one block. -/
theorem escolheFirst_whole (choice : Com.escolheFirst h id s fuel tam = some found) :
    found = none ∨ found = some base ∧ tam + h ≤ memoriaBase := by
  rw [Com.escolheFirst, head, id] at choice
  cases fuel with
  | zero => cases choice
  | succ fuel =>
    rw [firstfitLoop, here, Option.bind_eq_bind, Option.bind_some] at choice
    split at choice
    · cases choice
      exact Or.inr ⟨rfl, ‹_›⟩
    · cases fuel with
      | zero => cases choice
      | succ fuel =>
        cases choice
        exact Or.inl rfl

theorem escolheBest_whole (choice : Com.escolheBest h id s fuel tam = some found) :
    found = none ∨ found = some base ∧ tam + h ≤ memoriaBase := by
  rw [Com.escolheBest, head, id] at choice
  obtain ⟨⟨menorTam, ptrMenor⟩, loop, choice⟩ := Option.bind_eq_some_iff.mp choice
  match fuel with
  | 0 => cases loop
  | 1 =>
    rw [bestfitLoop, here, Option.bind_eq_bind, Option.bind_some] at loop
    split at loop <;> cases loop
  | fuel + 2 =>
    rw [bestfitLoop, here, Option.bind_eq_bind, Option.bind_some] at loop
    split at loop
    · cases loop
      cases choice
      exact Or.inr ⟨rfl, (‹_ ∧ _›).1⟩
    · cases loop
      cases choice
      exact Or.inl rfl

theorem escolheWorst_whole (choice : Com.escolheWorst h id s fuel tam = some found) :
    found = none ∨ found = some base ∧ tam + h ≤ memoriaBase := by
  rw [Com.escolheWorst, head, id] at choice
  obtain ⟨⟨maiorTam, ptrMaior⟩, loop, choice⟩ := Option.bind_eq_some_iff.mp choice
  match fuel with
  | 0 => cases loop
  | 1 =>
    rw [worstfitLoop, here, Option.bind_eq_bind, Option.bind_some] at loop
    split at loop <;> cases loop
  | fuel + 2 =>
    rw [worstfitLoop, here, Option.bind_eq_bind, Option.bind_some] at loop
    split at loop
    · cases loop
      cases choice
      exact Or.inr ⟨rfl, (‹_ ∧ _›).1⟩
    · cases loop
      cases choice
      exact Or.inl rfl

theorem nextfitLoop_whole (loop : nextfitLoop s (tam + h) fuel (some base) = some found) :
    found = none ∨ found = some base ∧ tam + h ≤ memoriaBase := by
  induction fuel with
  | zero => cases loop
  | succ fuel ih =>
    simp only [nextfitLoop, here, head, Option.bind_eq_bind, Option.bind_some, if_true] at loop
    split at loop
    · cases loop
      exact Or.inr ⟨rfl, ‹_›⟩
    · split at loop
      · cases loop
        exact Or.inl rfl
      · exact ih loop

/-- `nextfit` may start at a header that a merge has taken off the list. -/
theorem nextfitLoop_ptr (ptr : ∀ q ∈ s.ptrNextFit, q = base ∨
      base + h ≤ q ∧ ∀ hole, s.memory q = some hole → hole.prox = none)
    (loop : nextfitLoop s (tam + h) fuel s.ptrNextFit = some found) :
    (found = none ∨ found = some base ∧ tam + h ≤ memoriaBase) ∨
      ∃ q t ant, found = some q ∧ base + h ≤ q ∧ s.memory q = some ⟨t, ant, none⟩ ∧ tam + h ≤ t := by
  cases pointer : s.ptrNextFit with
  | none =>
    rw [pointer] at loop
    cases fuel <;> cases loop
  | some q =>
    rw [pointer] at loop
    rcases ptr q pointer with rfl | ⟨behind, last⟩
    · exact Or.inl (nextfitLoop_whole head here loop)
    cases fuel with
    | zero => cases loop
    | succ fuel =>
      obtain ⟨⟨t, ant, prox⟩, there, loop⟩ := Option.bind_eq_some_iff.mp loop
      obtain rfl : prox = none := last _ there
      split at loop
      · cases loop
        exact Or.inr ⟨q, t, ant, rfl, behind, there, ‹_›⟩
      · rw [if_pos rfl, head] at loop
        dsimp only at loop
        split at loop
        · cases loop
          exact Or.inl (Or.inl rfl)
        · exact Or.inl (nextfitLoop_whole head here loop)

/-- **On the whole arena a method refuses, or splits the one block**, or `nextfit` splits a header
off the list. -/
theorem meuAloca_whole {metodo : Metodo} {result : Option ℤ × State}
    (ptr : ∀ q ∈ s.ptrNextFit, q = base ∨
      base + h ≤ q ∧ ∀ hole, s.memory q = some hole → hole.prox = none)
    (run : meuAloca h (lugarBytes h) s fuel metodo tam = some result) :
    result = (none, s) ∨
    (tam + h ≤ memoriaBase ∧
      dividir h (lugarBytes h) s base tam (metodo.metades h tam) = some result) ∨
    ∃ q t ant, base + h ≤ q ∧ s.memory q = some ⟨t, ant, none⟩ ∧ tam + h ≤ t ∧
      dividir h (lugarBytes h) s q tam (usedSecond h tam) = some result := by
  have answer : ∀ {sizes found},
      (found = none ∨ found = some base ∧ tam + h ≤ memoriaBase) →
      atende h (lugarBytes h) s tam sizes found = some result →
      result = (none, s) ∨ tam + h ≤ memoriaBase ∧
        dividir h (lugarBytes h) s base tam sizes = some result := by
    rintro sizes found (rfl | ⟨rfl, fits⟩) run
    · exact Or.inl (Option.some.inj run).symm
    · exact Or.inr ⟨fits, run⟩
  cases metodo with
  | first =>
    obtain ⟨found, choice, run⟩ := Option.bind_eq_some_iff.mp run
    exact (answer (escolheFirst_whole head here choice) run).imp_right Or.inl
  | best =>
    obtain ⟨found, choice, run⟩ := Option.bind_eq_some_iff.mp run
    exact (answer (escolheBest_whole head here choice) run).imp_right Or.inl
  | worst =>
    obtain ⟨found, choice, run⟩ := Option.bind_eq_some_iff.mp run
    exact (answer (escolheWorst_whole head here choice) run).imp_right Or.inl
  | next =>
    obtain ⟨found, loop, run⟩ := Option.bind_eq_some_iff.mp run
    rcases nextfitLoop_ptr head here ptr loop with arena | ⟨q, t, ant, rfl, behind, there, fits⟩
    · exact (answer arena run).imp_right Or.inl
    · exact Or.inr (Or.inr ⟨q, t, ant, behind, there, fits, run⟩)

end Whole

/-- With two blocks, both too small, every request is refused. -/
theorem refused_two {q x y : ℤ} (linked : Linked h Hole.linked s.memory [(base, x), (q, y)])
    (head : s.listaMemoria = some base) (ptr : s.ptrNextFit = some q) (first : x < tam + h)
    (second : y < tam + h) {metodo : Metodo} {result : Option ℤ × State}
    (call : meuAloca h (lugarBytes h) s fuel metodo tam = some result) : result = (none, s) := by
  have here : s.memory base = some ⟨x, none, some q⟩ := linked.chain.1
  have there : s.memory q = some ⟨y, some base, none⟩ := linked.chain.2.1
  refine meuAloca_refused (fun a => a = base ∨ a = q) (fun a hole visited found => ?_)
    (by simp [head]) (by simp [ptr]) call
  rcases visited with rfl | rfl
  · rw [here] at found
    cases found
    exact ⟨first, by simp⟩
  · rw [there] at found
    cases found
    exact ⟨second, by simp⟩

end Requests

/-- **A call of `meu_aloca` that meets the condition keeps the invariant.** -/
theorem Inv.aloca {h base tam : ℤ} (wide : 2 ≤ h) {run : Run} {blocks : List Block} {fuel : ℕ}
    {metodo : Metodo} {result : Option ℤ} {state : State} (inv : Inv h base run blocks)
    (asked : 0 < tam) (ok : Compliant h run (.aloca metodo tam fuel))
    (call : meuAloca h (lugarBytes h) run.state fuel metodo tam = some (result, state)) :
    ∃ blocks', Inv h base ⟨state, run.live ++ result.toList⟩ blocks' := by
  obtain ⟨s, live⟩ := run
  have positive : 0 < h := by omega
  have negated : (-1) * tam = -tam := by omega
  have kept := inv
  obtain ⟨head, linked, disjuntos, behind, shape⟩ := inv
  simp only at head linked disjuntos behind shape call
  have unchanged : (result, state) = (none, s) →
      ∃ blocks', Inv h base ⟨state, live ++ result.toList⟩ blocks' := by
    rintro ⟨⟩
    exact ⟨blocks, by simpa using kept⟩
  -- a split of a block that nothing follows
  have split : ∀ {a t : ℤ} {ant : Option ℤ} (sizes : ℤ → ℤ × ℤ), base ≤ a → tam + h ≤ t →
      s.memory a = some ⟨t, ant, none⟩ →
      dividir h (lugarBytes h) s a tam sizes = some (result, state) →
      result = some (lugarBytes h a t tam + h) ∧ state.ptrNextFit = some (lugarBytes h a t tam) ∧
        state.listaMemoria = some base ∧ Disjuntos h state.memory ∧
        (∀ p ∈ live ++ result.toList, base + h ≤ p - h) ∧
        state.memory = store h (store h s.memory (lugarBytes h a t tam)
          ⟨(sizes t).2, some a, none⟩) a ⟨(sizes t).1, ant, some (lugarBytes h a t tam)⟩ := by
    intro a t ant sizes after fits here made
    rw [dividir_last positive fits sizes here] at made
    cases made
    have place : a + h ≤ lugarBytes h a t tam := le_lugarBytes positive fits
    refine ⟨rfl, rfl, head, (disjuntos.store _).store _, fun p member => ?_, rfl⟩
    rcases List.mem_append.mp member with old | new
    · exact behind p old
    · rw [List.mem_singleton.mp new]
      omega
  cases shape with
  | whole ptr =>
    have here : s.memory base = some ⟨memoriaBase, none, none⟩ := linked.chain.1
    rcases meuAloca_whole head here ptr call with refused | ⟨fits, made⟩ |
      ⟨q, t, ant, beyond, there, fits, made⟩
    · exact unchanged refused
    · -- the arena is split
      have leaves : Deixa h tam := by
        refine ok.resolve_left fun refused => ?_
        have short := refused base _ (by simp only [head]; exact .here here) here
        exact absurd fits (by simp only at short; omega)
      obtain ⟨rfl, pointer, list, apart, ahead, memory⟩ := split _ le_rfl fits here made
      have place : lugarBytes h base memoriaBase tam = novo h base tam := rfl
      have away : Apart h (novo h base tam) base := Or.inr (le_lugarBytes positive fits)
      have divided : Linked h Hole.linked state.memory
          [(base, (metodo.metades h tam memoriaBase).1),
            (novo h base tam, (metodo.metades h tam memoriaBase).2)] := by
        rw [memory, place]
        have fresh : ∀ block ∈ [] ++ (base, memoriaBase) :: [],
            Apart h (novo h base tam) block.1 := by simpa using away
        exact Linked.insert (l := []) linked positive fresh _ _
      refine ⟨_, list, divided, apart, ahead, ?_⟩
      cases metodo with
      | first =>
        show Shape h base state [(base, (-1) * tam), _]
        rw [negated]
        exact .first asked leaves fits pointer
      | best | worst | next =>
        show Shape h base state [_, (novo h base tam, (-1) * tam)]
        rw [negated]
        exact .second asked leaves fits pointer
    · -- a header off the list is split, away from the arena's own
      obtain ⟨rfl, pointer, list, apart, ahead, memory⟩ := split _ (by omega) fits there made
      have place : q + h ≤ lugarBytes h q t tam := le_lugarBytes positive fits
      have first : Apart h (lugarBytes h q t tam) base := Or.inr (by omega)
      have second : Apart h q base := Or.inr beyond
      refine ⟨[(base, memoriaBase)], list, ⟨⟨?_, trivial⟩, List.pairwise_singleton _ _⟩, apart,
        ahead, .whole fun a pointed => Or.inr ?_⟩
      · rw [memory, store_apart positive second, store_apart positive first]
        exact here
      · rw [pointer] at pointed
        cases pointed
        refine ⟨by omega, fun hole found => ?_⟩
        rw [memory, store_apart positive (Or.inl place), store_self] at found
        cases found
        rfl
  | @first t sized leaves fits ptr =>
    have there : s.memory (novo h base t) = some ⟨memoriaBase - t - h, some base, none⟩ :=
      linked.chain.2.1
    have small : memoriaBase - t - h < tam + h := by
      rcases ok with refused | large
      · refine refused (novo h base t) _ ?_ there
        simp only [head]
        exact .later linked.chain.1 (.here there)
      · have := deixa_twice wide leaves large
        omega
    exact unchanged (refused_two linked head ptr (by omega) small call)
  | @second t sized leaves fits ptr =>
    have here : s.memory base = some ⟨memoriaBase - t - h, none, some (novo h base t)⟩ :=
      linked.chain.1
    have small : memoriaBase - t - h < tam + h := by
      rcases ok with refused | large
      · refine refused base _ ?_ here
        simp only [head]
        exact .here here
      · have := deixa_twice wide leaves large
        omega
    exact unchanged (refused_two linked head ptr small (by omega) call)

section Merge

variable {h base q x y : ℤ} {memory memory' : Memory Hole} {fuel : ℕ}

/-- A list of one free block is left alone. -/
theorem merge_whole {t : ℤ} (free : 0 ≤ t) (here : memory base = some ⟨t, none, none⟩)
    (merged : merge h memory fuel (some base) = some memory') : memory' = memory := by
  cases fuel with
  | zero => cases merged
  | succ fuel =>
    rw [merge_succ, corpo_fim here rfl, if_pos free] at merged
    exact (Option.some.inj merged).symm

variable (linked : Linked h Hole.linked memory [(base, x), (q, y)])

include linked

/-- With one half used `merge` joins nothing. -/
theorem merge_apart (apart : ¬ (0 ≤ x ∧ 0 ≤ y))
    (merged : merge h memory fuel (some base) = some memory') : memory' = memory := by
  have here : memory base = some ⟨x, none, some q⟩ := linked.chain.1
  have there : memory q = some ⟨y, some base, none⟩ := linked.chain.2.1
  match fuel with
  | 0 => cases merged
  | 1 =>
    rw [merge_succ, corpo_passa here rfl there apart] at merged
    cases merged
  | 2 =>
    rw [merge_succ, corpo_passa here rfl there apart, merge_succ, corpo_fim there rfl] at merged
    split at merged
    · exact (Option.some.inj merged).symm
    · cases merged
  | fuel + 3 =>
    rw [merge_succ, corpo_passa here rfl there apart, merge_succ, corpo_fim there rfl] at merged
    split at merged <;> exact (Option.some.inj merged).symm

/-- With both halves free `merge` joins them in the first header. -/
theorem merge_second (positive : 0 < h) (left : 0 ≤ x) (right : 0 ≤ y)
    (merged : merge h memory fuel (some base) = some memory') :
    memory' = store h memory base ⟨x + h + y, none, none⟩ := by
  have here : memory base = some ⟨x, none, some q⟩ := linked.chain.1
  have there : memory q = some ⟨y, some base, none⟩ := linked.chain.2.1
  have joined : (0 : ℤ) ≤ x + h + y := by omega
  match fuel with
  | 0 => cases merged
  | 1 =>
    rw [merge_succ, corpo_absorve here left rfl there right] at merged
    cases merged
  | fuel + 2 =>
    rw [merge_succ, corpo_absorve here left rfl there right, absorve, Option.bind_some, merge_succ,
      corpo_fim store_self rfl, if_pos joined] at merged
    exact (Option.some.inj merged).symm

end Merge

/-- **A call of `meu_libera` on a live pointer keeps the invariant.** -/
theorem Inv.libera {h base p : ℤ} (wide : 2 ≤ h) {run : Run} {blocks : List Block} {fuel : ℕ}
    {state : State} (inv : Inv h base run blocks) (live : p ∈ run.live)
    (call : meuLibera h run.state fuel (some p) = some state) :
    ∃ blocks', Inv h base ⟨state, run.live.erase p⟩ blocks' := by
  obtain ⟨s, pointers⟩ := run
  have positive : 0 < h := by omega
  obtain ⟨head, linked, disjuntos, behind, shape⟩ := inv
  simp only at head linked disjuntos behind shape live call
  obtain ⟨marked, changed, call⟩ := Option.bind_eq_some_iff.mp call
  obtain ⟨memory', merged, result⟩ := Option.bind_eq_some_iff.mp call
  have apartMarked := disjuntos.modify changed
  obtain ⟨hole, found, rfl⟩ := Option.map_eq_some_iff.mp changed
  have beyond : base + h ≤ p - h := behind p live
  have away : Apart h (p - h) base := Or.inr beyond
  have rest : ∀ r ∈ pointers.erase p, base + h ≤ r - h := fun r member =>
    behind r (List.mem_of_mem_erase member)
  cases result
  rw [head] at merged
  -- a header that is not on the list is marked, and the list stays
  have elsewhere : ∀ {q x y : ℤ}, Linked h Hole.linked s.memory [(base, x), (q, y)] → p - h ≠ q →
      Linked h Hole.linked (store h s.memory (p - h) { hole with tam := mod hole.tam })
        [(base, x), (q, y)] := by
    intro q x y linked different
    have there : s.memory q = some ⟨y, some base, none⟩ := linked.chain.2.1
    have apart : Apart h (p - h) q :=
      disjuntos _ _ (by simp [found]) (by simp [there]) different
    refine ⟨linked.chain.store positive fun block member => ?_, linked.spread⟩
    rcases List.mem_cons.mp member with rfl | member
    · exact away
    · rw [List.mem_singleton.mp member]
      exact apart
  cases shape with
  | whole ptr =>
    have here : s.memory base = some ⟨memoriaBase, none, none⟩ := linked.chain.1
    have same := merge_whole (by decide) ((store_apart positive away).trans here) merged
    subst same
    refine ⟨[(base, memoriaBase)], head, ⟨⟨(store_apart positive away).trans here, trivial⟩,
      List.pairwise_singleton _ _⟩, apartMarked, rest, .whole fun q pointed => ?_⟩
    refine (ptr q pointed).imp_right fun ⟨place, last⟩ => ⟨place, fun other there => ?_⟩
    simp only [store] at there
    split at there
    · rename_i same
      cases there
      exact last hole (same ▸ found)
    · split at there
      · cases there
      · exact last other there
  | @first t sized leaves fits ptr =>
    have there : s.memory (novo h base t) = some ⟨memoriaBase - t - h, some base, none⟩ :=
      linked.chain.2.1
    have kept : Linked h Hole.linked (store h s.memory (p - h) { hole with tam := mod hole.tam })
        [(base, -t), (novo h base t, memoriaBase - t - h)] := by
      by_cases same : p - h = novo h base t
      · rw [same, there] at found
        cases found
        have value : mod (memoriaBase - t - h) = memoriaBase - t - h := if_neg (by omega)
        rw [same, value]
        exact Linked.set (l := [(base, -t)]) linked positive (memoriaBase - t - h)
      · exact elsewhere linked same
    have same := merge_apart kept (by omega) merged
    subst same
    exact ⟨_, head, kept, apartMarked, rest, .first sized leaves fits ptr⟩
  | @second t sized leaves fits ptr =>
    have there : s.memory (novo h base t) = some ⟨-t, some base, none⟩ := linked.chain.2.1
    by_cases same : p - h = novo h base t
    · rw [same, there] at found
      cases found
      have value : mod (-t) = t := by
        rw [mod, if_pos (by omega)]
        omega
      dsimp only at merged apartMarked
      rw [same, value] at merged apartMarked
      have joined : Linked h Hole.linked _ [(base, memoriaBase - t - h), (novo h base t, t)] :=
        Linked.set (l := [(base, memoriaBase - t - h)]) linked positive t
      have result := merge_second joined positive (by omega) (by omega) merged
      have whole : memoriaBase - t - h + h + t = memoriaBase := by omega
      have apart : Apart h base (novo h base t) :=
        (List.pairwise_cons.mp joined.spread).1 _ (List.mem_singleton_self _)
      rw [whole] at result
      subst result
      refine ⟨[(base, memoriaBase)], head, ⟨⟨store_self, trivial⟩, List.pairwise_singleton _ _⟩,
        apartMarked.store _, rest, .whole fun q pointed => Or.inr ?_⟩
      rw [show s.ptrNextFit = _ from ptr] at pointed
      cases pointed
      refine ⟨same ▸ beyond, fun other found => ?_⟩
      cases found.symm.trans ((store_apart positive apart).trans joined.chain.2.1)
      rfl
    · have kept := elsewhere linked same
      have same := merge_apart kept (by omega) merged
      subst same
      exact ⟨_, head, kept, apartMarked, rest, .second sized leaves fits ptr⟩

/-! ### Runs -/

/-- What `mostra_mem` prints for two blocks of which one is used. -/
theorem mostraMem_two {h base q x y : ℤ} {s : State}
    (linked : Linked h Hole.linked s.memory [(base, x), (q, y)])
    (head : s.listaMemoria = some base) (oneUsed : x < 0 ∧ 0 ≤ y ∨ 0 ≤ x ∧ y < 0) :
    ∃ mostra, mostraMem h s 3 = some mostra ∧ mostra.livre + mostra.ocupada = |x| + |y| + h := by
  have here : s.memory base = some ⟨x, none, some q⟩ := linked.chain.1
  have there : s.memory q = some ⟨y, some base, none⟩ := linked.chain.2.1
  rcases oneUsed with ⟨used, free⟩ | ⟨free, used⟩
  · refine ⟨⟨[x, y], y, mod x + h⟩, ?_, ?_⟩
    · simp [mostraMem, mostraLoop, head, here, there, used, free]
    · simp only [mod, if_pos used, abs_of_neg used, abs_of_nonneg free]
      omega
  · refine ⟨⟨[x, y], x, mod y + h⟩, ?_, ?_⟩
    · simp [mostraMem, mostraLoop, head, here, there, used, free]
    · simp only [mod, if_pos used, abs_of_neg used, abs_of_nonneg free]
      omega

/-- The invariant gives the integrity of the list. -/
theorem Inv.integro {h base : ℤ} (wide : 2 ≤ h) (room : h ≤ memoriaBase) {run : Run}
    {blocks : List Block} (inv : Inv h base run blocks) : Integro h base run.state := by
  obtain ⟨s, live⟩ := run
  have positive : 0 < h := by omega
  obtain ⟨head, linked, -, -, shape⟩ := inv
  simp only at head linked shape ⊢
  have places : ∀ {t : ℤ}, Deixa h t → t + h ≤ memoriaBase →
      base ≤ novo h base t ∧ novo h base t + h ≤ base + memoriaBase := by
    intro t leaves fits
    have place : base + h ≤ novo h base t := le_lugarBytes positive fits
    exact ⟨by omega, novo_le leaves⟩
  refine ⟨blocks, ?_, linked, ?_, ?_⟩
  · cases shape <;> exact head
  · cases shape with
    | whole =>
      simp only [List.mem_singleton, forall_eq]
      omega
    | first _ leaves fits | second _ leaves fits =>
      simp only [List.mem_cons, List.not_mem_nil, or_false, forall_eq_or_imp, forall_eq]
      exact ⟨by omega, places leaves fits⟩
  · cases shape with
    | whole =>
      have here : s.memory base = some ⟨memoriaBase, none, none⟩ := linked.chain.1
      refine ⟨2, ⟨[memoriaBase], memoriaBase, 0⟩, ?_, rfl⟩
      simp [mostraMem, mostraLoop, head, here, memoriaBase]
    | @first t sized leaves fits =>
      obtain ⟨mostra, shown, sum⟩ := mostraMem_two linked head (Or.inl ⟨by omega, by omega⟩)
      refine ⟨3, mostra, shown, ?_⟩
      rw [sum, abs_of_neg (by omega), abs_of_nonneg (by omega)]
      omega
    | @second t sized leaves fits =>
      obtain ⟨mostra, shown, sum⟩ := mostraMem_two linked head (Or.inr ⟨by omega, by omega⟩)
      refine ⟨3, mostra, shown, ?_⟩
      rw [sum, abs_of_nonneg (by omega), abs_of_neg (by omega)]
      omega

/-- **The list is intact under the condition**, in every state of every run of calls that meet it,
whatever the size of a header. -/
theorem integro_of_compliant {h : ℤ} (wide : 2 ≤ h) (room : h ≤ memoriaBase) (base : ℤ) {run : Run}
    (reach : Reach (next h) (Compliant h) (inicio h base) run) : Integro h base run.state := by
  obtain ⟨blocks, inv⟩ : ∃ blocks, Inv h base run blocks := by
    refine reach.invariant (fun run => ∃ blocks, Inv h base run blocks) ⟨_, inv_inicio h base⟩ ?_
    rintro before call after ⟨blocks, inv⟩ ok moved
    cases call with
    | aloca metodo tam fuel =>
      simp only [next] at moved
      split at moved
      · obtain ⟨⟨result, state⟩, call, same⟩ := Option.bind_eq_some_iff.mp moved
        have kept := inv.aloca wide ‹0 < tam› ok call
        cases result with
        | none =>
          cases same
          simpa using kept
        | some p =>
          cases same
          exact kept
      · cases moved
    | libera ponteiro fuel =>
      simp only [next] at moved
      split at moved
      · obtain ⟨state, call, same⟩ := Option.bind_eq_some_iff.mp moved
        cases same
        exact inv.libera wide ‹_› call
      · cases moved
  exact inv.integro wide room

/-- A request of 990 bytes by `bestfit`, freed again, and one of 985 bytes by `nextfit`, which
starts from a header that is no longer on the list. -/
theorem integro_of_compliant_next : ∃ run, Reach (next 24) (Compliant 24) (inicio 24 0) run ∧
    run.live.length = 1 ∧ Integro 24 0 run.state := by
  have small : ∀ tam : ℤ, (memoriaBase - tam + 1) * 24 ≤ memoriaBase → Deixa 24 tam := fun _ => id
  have split : Reach (next 24) (Compliant 24) (inicio 24 0) _ :=
    .step .start (show Compliant 24 _ (.aloca .best 990 3) from Or.inr (small _ (by decide))) rfl
  have joined : Reach (next 24) (Compliant 24) (inicio 24 0) _ :=
    .step split (show Compliant 24 _ (.libera (novo 24 0 990 + 24) 3) from trivial) rfl
  have again : Reach (next 24) (Compliant 24) (inicio 24 0) _ :=
    .step joined (show Compliant 24 _ (.aloca .next 985 3) from Or.inr (small _ (by decide))) rfl
  exact ⟨_, again, rfl, integro_of_compliant (by decide) (by decide) 0 again⟩

/-- `inicializa_mem()`, `meu_aloca(1, 30)`: the header of the free half is 23856 bytes behind the
start of the arena. -/
theorem header_outside : ∃ run, Reachable (next 24) (inicio 24 0) run ∧
    ¬ Integro 24 0 run.state := by
  refine ⟨_, reach_of_execute [.aloca .first 30 2] .start rfl, ?_⟩
  rintro ⟨blocks, head, linked, inside, -⟩
  have follows : ∀ tam prox ant, Hole.prox (Hole.linked tam prox ant) = prox := fun _ _ _ => rfl
  obtain ⟨tam, member⟩ := mem_of_onList follows linked.chain (x := 23856) (by
    rw [← head]
    exact .later rfl (.here rfl))
  have bound := (inside _ member).2
  simp only [memoriaBase] at bound
  omega

end MeuAlloc
