/-
**`pipe.c`: the ranking in `notas.lst`.**

`N_NOTAS` times the loop looks for the largest average above `varAux = 0.0`, writes a line for it and
sets it to `0.0`. The three programs share this code.

* `varre` — the inner loop; it is the scan of `Data.Select` (`varre_eq`), which keeps the first of
  equal averages. If no average is above zero it leaves `aux` alone.
* `ordena` — the whole loop. It is undefined if it uses `aux` before anything was assigned to it.
* `Parcial` — what holds between two rounds: the averages listed are zero and rank before all others.
* `ranking` — **the ids listed are `0, …, N_NOTAS - 1` by decreasing average, equal ones by
  increasing id, exactly if every average is positive.**
* `zero_listed_twice` — a zero average is already marked as used: the id before it is listed again.
  In general an id with a zero average is never listed (`positive_of_listed`).
* `linha_lida` — the marks in a line are those of its record: `busca`, the scan of `nota.lst`, is
  `procura` of `Medias.Arquivo`.
-/

import SistemasOperacionais.Data.Select
import SistemasOperacionais.Medias.Arquivo
import Mathlib.Data.List.Perm.Subperm
import Mathlib.Data.List.Range

namespace Medias

open Select

variable {α : Type} [LinearOrder α] [Zero α]

/-! ### The loops -/

/-- The variables of the inner loop; `aux` is `none` until something is assigned to it. -/
structure Maior (α : Type) where
  aux : Option ℕ
  varAux : α

/-- The body of the inner loop. -/
def compara (nota1 : ℕ → α) (s : Maior α) (j : ℕ) : Maior α :=
  if nota1 j > s.varAux then ⟨some j, nota1 j⟩ else s

/-- The inner loop; `varAux` is `0.0` whenever it starts. -/
def varre (nota1 : ℕ → α) (N : ℕ) (aux : Option ℕ) : Maior α :=
  (List.range N).foldl (compara nota1) ⟨aux, 0⟩

/-- A line of `notas.lst`. -/
structure Linha (α : Type) where
  aux : ℕ
  v : Variaveis
  nota : α
  nota1 : α
  notas2 : α

structure Ordem (α : Type) where
  nota1 : ℕ → α
  aux : Option ℕ
  v : Variaveis
  linhas : List (Linha α)

/-- The ids written so far. -/
def Ordem.ids (o : Ordem α) : List ℕ := o.linhas.map Linha.aux

section Laco

variable (N : ℕ) (busca : Variaveis → ℕ → Variaveis) (nota notas2 : ℕ → α)

/-- The body of the outer loop. -/
def rodada (o : Ordem α) : Option (Ordem α) :=
  (varre o.nota1 N o.aux).aux.map fun aux =>
    let v := busca o.v aux
    { nota1 := Function.update o.nota1 aux 0
      aux := some aux
      v := v
      linhas := o.linhas ++ [⟨aux, v, nota aux, o.nota1 aux, notas2 aux⟩] }

/-- The outer loop, `voltas` rounds of it. -/
def rodadas (o : Ordem α) : ℕ → Option (Ordem α)
  | 0 => some o
  | voltas + 1 => (rodadas o voltas).bind (rodada N busca nota notas2)

/-- **The ranking.** -/
def ordena (v : Variaveis) (nota1 : ℕ → α) : Option (Ordem α) :=
  rodadas N busca nota notas2 ⟨nota1, none, v, []⟩ N

end Laco

/-! ### The inner loop -/

/-- `a` is listed before `b`. -/
def Antes (nota1 : ℕ → α) (a b : ℕ) : Prop :=
  nota1 b < nota1 a ∨ nota1 a = nota1 b ∧ a < b

omit [Zero α] in
/-- `takes` of the inner loop decides the order of the averages. -/
theorem ranks_nota1 (nota1 : ℕ → α) :
    Ranks (fun x y => nota1 y < nota1 x) fun x y => nota1 y ≤ nota1 x where
  refl _ := le_refl _
  trans _ _ _ first second := le_trans second first
  taken _ _ less := le_of_lt less
  kept _ _ other := not_lt.mp other

/-- The inner loop keeps the candidate and its average. -/
theorem varre_eq (nota1 : ℕ → α) (N : ℕ) (aux : Option ℕ) :
    varre nota1 N aux =
      (select (fun j => 0 < nota1 j) (fun x y => nota1 y < nota1 x) (List.range N)).elim ⟨aux, 0⟩
        fun j => ⟨some j, nota1 j⟩ := by
  induction N with
  | zero => rfl
  | succ N ih =>
    have step : varre nota1 (N + 1) aux = compara nota1 (varre nota1 N aux) N := by
      rw [varre, List.range_succ, List.foldl_concat]
      rfl
    rw [step, ih, List.range_succ, select_concat, keep, compara]
    cases kept : select (fun j => 0 < nota1 j) (fun x y => nota1 y < nota1 x) (List.range N) with
    | none =>
      show (if nota1 N > 0 then _ else _) = _
      by_cases fits : 0 < nota1 N
      · have takes : ∀ z ∈ none, nota1 z < nota1 N := fun z mem => absurd mem (Option.not_mem_none z)
        rw [if_pos fits, if_pos ⟨fits, takes⟩, Option.elim_some]
      · rw [if_neg fits, if_neg fun both => fits both.1, Option.elim_none]
    | some y =>
      have positive : 0 < nota1 y := (select_eq_some (ranks_nota1 nota1) kept).2.1
      show (if nota1 N > nota1 y then _ else _) = _
      by_cases larger : nota1 y < nota1 N
      · have takes : ∀ z ∈ some y, nota1 z < nota1 N := by
          rintro z ⟨⟩
          exact larger
        rw [if_pos larger, if_pos ⟨positive.trans larger, takes⟩, Option.elim_some]
      · rw [if_neg larger, if_neg fun both => larger (both.2 y rfl), Option.elim_some]

/-- **The first of the largest averages**, if one is positive. -/
theorem varre_of_positive {nota1 : ℕ → α} {N j : ℕ} (aux : Option ℕ) (inside : j < N)
    (positive : 0 < nota1 j) :
    ∃ best < N, (varre nota1 N aux).aux = some best ∧ 0 < nota1 best ∧
      ∀ i < N, 0 < nota1 i → i = best ∨ Antes nota1 best i := by
  cases kept : select (fun j => 0 < nota1 j) (fun x y => nota1 y < nota1 x) (List.range N) with
  | none => exact absurd positive (select_eq_none_iff.mp kept j (List.mem_range.mpr inside))
  | some best =>
    obtain ⟨member, fits, above⟩ := select_eq_some (ranks_nota1 nota1) kept
    obtain ⟨before, behind, split, first⟩ := select_first (ranks_nota1 nota1)
      (fun x y z less le => lt_of_le_of_lt le less) kept
    have chosen : (varre nota1 N aux).aux = some best := by rw [varre_eq, kept, Option.elim_some]
    refine ⟨best, List.mem_range.mp member, chosen, fits, fun i less other => ?_⟩
    have placed : i ∈ before ++ best :: behind := split ▸ List.mem_range.mpr less
    rcases List.mem_append.mp placed with early | late
    · exact .inr (.inl (first i early other))
    · rcases List.mem_cons.mp late with same | late
      · exact .inl same
      · -- behind the candidate in the range, so of a larger id
        have sorted : (before ++ best :: behind).Pairwise (· < ·) := split ▸ List.pairwise_lt_range
        have larger : best < i :=
          (List.pairwise_cons.mp (List.pairwise_append.mp sorted).2.1).1 i late
        rcases lt_or_eq_of_le (above i (List.mem_range.mpr less) other) with smaller | same
        · exact .inr (.inl smaller)
        · exact .inr (.inr ⟨same.symm, larger⟩)

/-- Otherwise `aux` is what it was. -/
theorem varre_of_zero {nota1 : ℕ → α} {N : ℕ} (aux : Option ℕ) (zero : ∀ j < N, ¬ 0 < nota1 j) :
    (varre nota1 N aux).aux = aux := by
  have nothing : select (fun j => 0 < nota1 j) (fun x y => nota1 y < nota1 x) (List.range N) =
      none := select_eq_none_iff.mpr fun j mem => zero j (List.mem_range.mp mem)
  rw [varre_eq, nothing, Option.elim_none]

/-! ### The outer loop -/

/-- **Between two rounds**: the averages listed are zero, the others as they were; the ids listed are
in order, and before all others. -/
structure Parcial (N : ℕ) (nota1 : ℕ → α) (o : Ordem α) : Prop where
  inside : ∀ a ∈ o.ids, a < N
  nodup : o.ids.Nodup
  marked : ∀ j, o.nota1 j = if j ∈ o.ids then 0 else nota1 j
  sorted : o.ids.Pairwise (Antes nota1)
  ahead : ∀ a ∈ o.ids, ∀ b < N, b ∉ o.ids → Antes nota1 a b

section Rodadas

variable (busca : Variaveis → ℕ → Variaveis) (nota notas2 : ℕ → α) {N : ℕ} {nota1 : ℕ → α}
  {o : Ordem α}

omit [LinearOrder α] [Zero α] in
/-- An id that is not listed yet. -/
theorem exists_unlisted (short : o.ids.length < N) : ∃ j < N, j ∉ o.ids := by
  by_contra all
  push Not at all
  have subset : List.range N ⊆ o.ids := fun j mem => all j (List.mem_range.mp mem)
  have long := (List.nodup_range.subperm subset).length_le
  rw [List.length_range] at long
  omega

theorem Parcial.nota1_unlisted (parcial : Parcial N nota1 o) {j : ℕ} (unlisted : j ∉ o.ids) :
    o.nota1 j = nota1 j := by
  rw [parcial.marked, if_neg unlisted]

/-- What is not zero is not listed. -/
theorem Parcial.unlisted (parcial : Parcial N nota1 o) {j : ℕ} (positive : 0 < o.nota1 j) :
    j ∉ o.ids := by
  intro listed
  rw [parcial.marked, if_pos listed] at positive
  exact lt_irrefl _ positive

omit [LinearOrder α] [Zero α] in
theorem ids_concat (o : Ordem α) (nota1 : ℕ → α) (aux : Option ℕ) (v : Variaveis)
    (linha : Linha α) :
    (Ordem.mk nota1 aux v (o.linhas ++ [linha])).ids = o.ids ++ [linha.aux] :=
  List.map_append

/-- The next id is the first of those not listed. -/
theorem Parcial.concat (parcial : Parcial N nota1 o) {best : ℕ} (inside : best < N)
    (unlisted : best ∉ o.ids)
    (first : ∀ i < N, i ∉ o.ids → i = best ∨ Antes nota1 best i) {aux : Option ℕ} {v : Variaveis}
    {linha : Linha α} (same : linha.aux = best) :
    Parcial N nota1 ⟨Function.update o.nota1 best 0, aux, v, o.linhas ++ [linha]⟩ := by
  have ids := ids_concat o (Function.update o.nota1 best 0) aux v linha
  rw [same] at ids
  constructor
  · intro a mem
    rw [ids, List.mem_append, List.mem_singleton] at mem
    rcases mem with old | rfl
    · exact parcial.inside a old
    · exact inside
  · rw [ids]
    rw [← List.concat_eq_append]
    exact parcial.nodup.concat unlisted
  · intro j
    rw [ids]
    show Function.update o.nota1 best 0 j = _
    by_cases here : j = best
    · subst here
      rw [Function.update_self, if_pos (List.mem_append_right _ (List.mem_singleton_self _))]
    · rw [Function.update_of_ne here, parcial.marked j]
      simp only [List.mem_append, List.mem_singleton, here, or_false]
  · rw [ids, List.pairwise_append]
    refine ⟨parcial.sorted, List.pairwise_singleton _ _, fun a old b new => ?_⟩
    rw [List.mem_singleton.mp new]
    exact parcial.ahead a old best inside unlisted
  · intro a mem b less other
    rw [ids, List.mem_append, List.mem_singleton] at mem other
    push Not at other
    rcases mem with old | rfl
    · exact parcial.ahead a old b less other.1
    · exact (first b less other.1).resolve_left other.2

/-- **One round** lists one id more. -/
theorem Parcial.rodada (parcial : Parcial N nota1 o) (positive : ∀ j < N, 0 < nota1 j)
    (short : o.ids.length < N) :
    ∃ after, rodada N busca nota notas2 o = some after ∧ Parcial N nota1 after ∧
      after.ids.length = o.ids.length + 1 := by
  obtain ⟨j, less, unlisted⟩ := exists_unlisted short
  have candidate : 0 < o.nota1 j := by
    rw [parcial.nota1_unlisted unlisted]
    exact positive j less
  obtain ⟨best, inside, found, more, first⟩ := varre_of_positive o.aux less candidate
  have fresh := parcial.unlisted more
  refine ⟨_, by rw [Medias.rodada, found]; rfl, ?_, ?_⟩
  · refine parcial.concat inside fresh (fun i less other => ?_) rfl
    have same := parcial.nota1_unlisted other
    have best_same := parcial.nota1_unlisted fresh
    rcases first i less (same ▸ positive i less) with rfl | before
    · exact .inl rfl
    · unfold Antes at before
      rw [same, best_same] at before
      exact .inr before
  · rw [ids_concat, List.length_append]
    rfl

/-- **The whole loop**, as long as ids are left. -/
theorem parcial_rodadas (v : Variaveis) (positive : ∀ j < N, 0 < nota1 j) {voltas : ℕ}
    (short : voltas ≤ N) :
    ∃ o, rodadas N busca nota notas2 ⟨nota1, none, v, []⟩ voltas = some o ∧ Parcial N nota1 o ∧
      o.ids.length = voltas := by
  induction voltas with
  | zero =>
    refine ⟨_, rfl, ⟨nofun, List.nodup_nil, fun j => ?_, List.Pairwise.nil, nofun⟩, rfl⟩
    exact (if_neg List.not_mem_nil).symm
  | succ voltas ih =>
    obtain ⟨o, ran, parcial, length⟩ := ih (by omega)
    obtain ⟨after, step, next, longer⟩ := parcial.rodada busca nota notas2 positive
      (by omega)
    exact ⟨after, by rw [rodadas, ran]; exact step, next, by omega⟩

/-- With positive averages every id is listed once. -/
theorem ordena_of_positive (v : Variaveis) (positive : ∀ j < N, 0 < nota1 j) :
    ∃ o, ordena N busca nota notas2 v nota1 = some o ∧ o.ids.Perm (List.range N) ∧
      o.ids.Pairwise (Antes nota1) := by
  obtain ⟨o, ran, parcial, length⟩ := parcial_rodadas busca nota notas2 v positive (le_refl N)
  have subset : o.ids ⊆ List.range N := fun a mem => List.mem_range.mpr (parcial.inside a mem)
  have perm := (parcial.nodup.subperm subset).perm_of_length_le (by rw [length, List.length_range])
  exact ⟨o, ran, perm, parcial.sorted⟩

/-! ### What a line says -/

/-- What is listed, and what `aux` holds, is an id with a positive average, and the marks in a line
are those of its record. -/
structure Listadas (N : ℕ) (busca : Variaveis → ℕ → Variaveis) (nota1 : ℕ → α) (o : Ordem α) :
    Prop where
  left : ∀ j, 0 < o.nota1 j → 0 < nota1 j
  aux : ∀ j ∈ o.aux, j < N ∧ 0 < nota1 j
  linhas : ∀ linha ∈ o.linhas, linha.aux < N ∧ 0 < nota1 linha.aux ∧ ∃ v, linha.v = busca v linha.aux

variable {busca nota notas2}

/-- The inner loop leaves `aux` at a positive average, or as it was. -/
theorem Listadas.varre (listadas : Listadas N busca nota1 o) {aux : ℕ}
    (found : (varre o.nota1 N o.aux).aux = some aux) : aux < N ∧ 0 < nota1 aux := by
  by_cases zero : ∀ j < N, ¬ 0 < o.nota1 j
  · rw [varre_of_zero o.aux zero] at found
    exact listadas.aux aux found
  · push Not at zero
    obtain ⟨j, less, positive⟩ := zero
    obtain ⟨best, inside, same, more, _⟩ := varre_of_positive o.aux less positive
    rw [same] at found
    cases found
    exact ⟨inside, listadas.left aux more⟩

theorem Listadas.rodada (listadas : Listadas N busca nota1 o) {after : Ordem α}
    (step : rodada N busca nota notas2 o = some after) : Listadas N busca nota1 after := by
  obtain ⟨aux, found, rfl⟩ := Option.map_eq_some_iff.mp step
  obtain ⟨inside, positive⟩ := listadas.varre found
  refine ⟨fun j more => ?_, ?_, ?_⟩
  · by_cases here : j = aux
    · exact here ▸ positive
    · change 0 < Function.update o.nota1 aux 0 j at more
      rw [Function.update_of_ne here] at more
      exact listadas.left j more
  · rintro j ⟨⟩
    exact ⟨inside, positive⟩
  · intro linha mem
    rcases List.mem_append.mp mem with old | new
    · exact listadas.linhas linha old
    · rw [List.mem_singleton.mp new]
      exact ⟨inside, positive, o.v, rfl⟩

theorem listadas_of_ordena {v : Variaveis} (ran : ordena N busca nota notas2 v nota1 = some o) :
    Listadas N busca nota1 o := by
  have kept (voltas : ℕ) : ∀ o, rodadas N busca nota notas2 ⟨nota1, none, v, []⟩ voltas = some o →
      Listadas N busca nota1 o := by
    induction voltas with
    | zero =>
      rintro o ⟨⟩
      exact ⟨fun _ more => more, nofun, nofun⟩
    | succ voltas ih =>
      intro o ran
      obtain ⟨before, earlier, step⟩ := Option.bind_eq_some_iff.mp ran
      exact (ih before earlier).rodada step
  exact kept N o ran

/-- **An id with a zero average is never listed**, so that the ids are not all listed if there is
one. -/
theorem positive_of_listed {v : Variaveis} (ran : ordena N busca nota notas2 v nota1 = some o)
    {j : ℕ} (listed : j ∈ o.ids) : 0 < nota1 j := by
  obtain ⟨linha, mem, rfl⟩ := List.mem_map.mp listed
  exact ((listadas_of_ordena ran).linhas linha mem).2.1

/-- **The ranking**: every id is listed once, the larger average first, and of equal ones the smaller
id. This holds exactly if every average is positive. -/
theorem ranking (v : Variaveis) :
    (∃ o, ordena N busca nota notas2 v nota1 = some o ∧ o.ids.Perm (List.range N) ∧
      o.ids.Pairwise (Antes nota1)) ↔ ∀ j < N, 0 < nota1 j := by
  refine ⟨?_, ordena_of_positive busca nota notas2 v⟩
  rintro ⟨o, ran, perm, _⟩ j inside
  exact positive_of_listed ran (perm.mem_iff.mpr (List.mem_range.mpr inside))

/-- The scan of `nota.lst` for the record of `aux`. -/
def buscaEm (texto : List Char) (voltas : ℕ) (v : Variaveis) (aux : ℕ) : Variaveis :=
  (procura aux voltas v texto).getD v

/-- **The marks in a line are those of its record**, if the file was written by the program. -/
theorem linha_lida {notas : ℕ → Registro ℕ} (decimos : ∀ i, (notas i).Decimos)
    (small : N ≤ 1000000) {v : Variaveis}
    (ran : ordena N (buscaEm (gera notas N) N) nota notas2 v nota1 = some o) {linha : Linha α}
    (mem : linha ∈ o.linhas) : linha.v = lido notas linha.aux := by
  obtain ⟨inside, _, before, read⟩ := (listadas_of_ordena ran).linhas linha mem
  have found := procura_gera decimos small inside (Nat.zero_le linha.aux)
    (by omega : linha.aux - 0 < N) before
  rw [read, buscaEm]
  exact congrArg (Option.getD · before) found

end Rodadas

/-- Three averages, the last two equal. -/
def empate : ℕ → ℕ := fun j => if j = 0 then 2 else 5

theorem ranking_tie :
    (∃ o, ordena 3 (fun v _ => v) empate empate ⟨0, 0, 0, 0⟩ empate = some o ∧
      o.ids.Perm (List.range 3) ∧ o.ids.Pairwise (Antes empate)) ∧
    (ordena 3 (fun v _ => v) empate empate ⟨0, 0, 0, 0⟩ empate).map Ordem.ids = some [1, 2, 0] :=
  ⟨(ranking ⟨0, 0, 0, 0⟩).mpr (by decide), by decide +kernel⟩

/-- **Averages `5` and `0`**: the second round finds nothing above zero, and writes id `0` again. -/
theorem zero_listed_twice :
    (ordena 2 (fun v _ => v) (fun _ => 0) (fun _ => 0) ⟨0, 0, 0, 0⟩
      (fun j => if j = 0 then 5 else 0 : ℕ → ℕ)).map Ordem.ids = some [0, 0] ∧
    ¬ [0, 0].Perm (List.range 2) :=
  ⟨by decide +kernel, by decide⟩

end Medias
