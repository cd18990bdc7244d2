/-
**`pipe.c`: the averages, computed by children.**

`main` forks `N_NOTAS / TAMANHOPIPE` children. Child `i` computes the averages of the records from
`k` on and writes them into its pipe in one block; the parent reads the block into `medias` and copies
it to `nota1`, from index `k` on. `i` and `k` advance in the parent, whether or not the `fork`
succeeded.

* `preenche` — the loop `filho` and `copia` share, and what it writes (`preenche_eq`); `principal` is
  the loop of the parent.
* `escritas_principal`, `nota1_principal` — the indices of the slices with a child are written, each
  once, by the child of its slice and with the average of its record.
* `averages` — **every student gets an average, exactly if `TAMANHOPIPE` divides `N_NOTAS` and the
  forks succeed.** `students_left_out`: otherwise the last ones get none.

The block comes whole through the pipe. `escritas` records which child's value went to which index.
What `fseek` and `fscanf` read is `arquivo`; for the file the program writes see `average_of_file`.
-/

import SistemasOperacionais.Medias.Arquivo
import Mathlib.Data.List.Range

namespace Medias

/-! ### The loops -/

section Lacos

variable {F : Type}

/-- The inner loop of child and parent: `valor j` goes to place `m`, and both advance. -/
def preenche (valor : ℕ → Option F) (limite j m : ℕ) (vetor : ℕ → Option F) : ℕ → Option F :=
  if j < limite then
    preenche valor limite (j + 1) (m + 1) (Function.update vetor m (valor j))
  else vetor
termination_by limite - j

/-- **The places from `m` on are filled**, as many as the loop has passes, and no others. -/
theorem preenche_eq (valor : ℕ → Option F) (limite j m : ℕ) (vetor : ℕ → Option F) (x : ℕ) :
    preenche valor limite j m vetor x =
      if m ≤ x ∧ x < m + (limite - j) then valor (j + (x - m)) else vetor x := by
  fun_induction preenche valor limite j m vetor with
  | case1 j m vetor less ih =>
    rw [ih]
    by_cases here : x = m
    · subst here
      rw [if_neg (by omega), if_pos (by omega), Function.update_self, Nat.sub_self]
      rfl
    · rw [Function.update_of_ne here]
      by_cases later : m + 1 ≤ x ∧ x < m + 1 + (limite - (j + 1))
      · rw [if_pos later, if_pos (by omega), show j + 1 + (x - (m + 1)) = j + (x - m) by omega]
      · rw [if_neg later, if_neg (by omega)]
  | case2 j m vetor done => rw [if_neg (by omega)]

structure Notas (F : Type) where
  nota1 : ℕ → Option F
  /-- the child and the index of every assignment to `nota1` -/
  escritas : List (ℕ × ℕ)

/-- The parent copies the block `medias` of child `i`. -/
def copia (medias : ℕ → Option F) (tamanhoPipe i k : ℕ) (s : Notas F) : Notas F where
  nota1 := preenche medias tamanhoPipe 0 k s.nota1
  escritas := s.escritas ++ (List.range' k tamanhoPipe).map (Prod.mk i)

variable [Add F] [Div F] [LE F] [DecidableLE F] [NatCast F]

/-- `media[]` of the child whose slice starts at `k`. -/
def filho (arquivo : ℕ → Registro F) (tamanhoPipe k : ℕ) : ℕ → Option F :=
  preenche (fun j => some (media (arquivo j))) (k + tamanhoPipe) k 0 fun _ => none

/-- The parent after `fork`; `nasce i` is whether there is a child `i`. -/
def recebe (nasce : ℕ → Bool) (arquivo : ℕ → Registro F) (tamanhoPipe i k : ℕ) (s : Notas F) :
    Notas F :=
  if nasce i then copia (filho arquivo tamanhoPipe k) tamanhoPipe i k s else s

/-- **The loop of the parent.** -/
def principal (nasce : ℕ → Bool) (arquivo : ℕ → Registro F) (tamanhoPipe nProcessos i k : ℕ)
    (s : Notas F) : Notas F :=
  if i < nProcessos then
    principal nasce arquivo tamanhoPipe nProcessos (i + 1) (k + tamanhoPipe)
      (recebe nasce arquivo tamanhoPipe i k s)
  else s
termination_by nProcessos - i

/-- `nota1` after the loop. -/
def notas (nasce : ℕ → Bool) (arquivo : ℕ → Registro F) (tamanhoPipe N : ℕ) : Notas F :=
  principal nasce arquivo tamanhoPipe (N / tamanhoPipe) 0 0 ⟨fun _ => none, []⟩

/-- **A block holds the averages of its slice.** -/
theorem filho_eq (arquivo : ℕ → Registro F) {tamanhoPipe a : ℕ} (k : ℕ)
    (inside : a < tamanhoPipe) :
    filho arquivo tamanhoPipe k a = some (media (arquivo (k + a))) := by
  rw [filho, preenche_eq, if_pos (by omega), Nat.sub_zero]

/-! ### The loop of the parent -/

/-- **Every slice is written by its own child**, if there is one. -/
theorem escritas_principal {tamanhoPipe : ℕ} (nasce : ℕ → Bool) (arquivo : ℕ → Registro F)
    (nProcessos i k : ℕ) (s : Notas F) (bound : k = tamanhoPipe * i) :
    (principal nasce arquivo tamanhoPipe nProcessos i k s).escritas =
      s.escritas ++ ((List.range' k (tamanhoPipe * (nProcessos - i))).filter
        fun m => nasce (m / tamanhoPipe)).map fun m => (m / tamanhoPipe, m) := by
  fun_induction principal nasce arquivo tamanhoPipe nProcessos i k s with
  | case1 i k s less ih =>
    have child : ∀ m ∈ List.range' k tamanhoPipe, m / tamanhoPipe = i := by
      intro m mem
      obtain ⟨low, high⟩ := List.mem_range'_1.mp mem
      exact Nat.div_eq_of_lt_le (by rw [Nat.mul_comm]; omega)
        (by rw [Nat.succ_mul, Nat.mul_comm]; omega)
    have slice : (recebe nasce arquivo tamanhoPipe i k s).escritas =
        s.escritas ++ ((List.range' k tamanhoPipe).filter fun m => nasce (m / tamanhoPipe)).map
          fun m => (m / tamanhoPipe, m) := by
      unfold recebe
      split
      · rename_i born
        have all : (List.range' k tamanhoPipe).filter (fun m => nasce (m / tamanhoPipe)) =
            List.range' k tamanhoPipe :=
          List.filter_eq_self.mpr fun m mem => by rw [child m mem, born]
        rw [all]
        exact congrArg (s.escritas ++ ·)
          (List.map_congr_left fun m mem => by rw [child m mem])
      · rename_i unborn
        have none : (List.range' k tamanhoPipe).filter (fun m => nasce (m / tamanhoPipe)) = [] :=
          List.filter_eq_nil_iff.mpr fun m mem => by rw [child m mem]; exact unborn
        rw [none]
        exact (List.append_nil _).symm
    have parts : tamanhoPipe * (nProcessos - i) =
        tamanhoPipe + tamanhoPipe * (nProcessos - (i + 1)) := by
      rw [show nProcessos - i = nProcessos - (i + 1) + 1 by omega, Nat.mul_succ, Nat.add_comm]
    rw [ih (by rw [bound, Nat.mul_succ]), slice, parts, ← List.range'_append_1, List.filter_append,
      List.map_append, List.append_assoc]
  | case2 i k s done =>
    rw [show nProcessos - i = 0 by omega]
    exact (List.append_nil _).symm

/-- **Every index of a slice with a child gets the average of its record.** -/
theorem nota1_principal {tamanhoPipe : ℕ} (nasce : ℕ → Bool) (arquivo : ℕ → Registro F)
    (nProcessos i k : ℕ) (s : Notas F) (bound : k = tamanhoPipe * i) (x : ℕ) :
    (principal nasce arquivo tamanhoPipe nProcessos i k s).nota1 x =
      if k ≤ x ∧ x < tamanhoPipe * nProcessos ∧ nasce (x / tamanhoPipe) = true then
        some (media (arquivo x))
      else s.nota1 x := by
  fun_induction principal nasce arquivo tamanhoPipe nProcessos i k s with
  | case1 i k s less ih =>
    have room : tamanhoPipe * (i + 1) ≤ tamanhoPipe * nProcessos := Nat.mul_le_mul_left _ less
    rw [Nat.mul_succ, ← bound] at room
    have received : (recebe nasce arquivo tamanhoPipe i k s).nota1 x =
        if (k ≤ x ∧ x < k + tamanhoPipe) ∧ nasce i = true then some (media (arquivo x))
        else s.nota1 x := by
      unfold recebe
      split
      · rename_i born
        show preenche (filho arquivo tamanhoPipe k) tamanhoPipe 0 k s.nota1 x = _
        rw [preenche_eq, Nat.sub_zero]
        by_cases here : k ≤ x ∧ x < k + tamanhoPipe
        · rw [if_pos here, if_pos ⟨here, born⟩, filho_eq arquivo k (by omega),
            show k + (0 + (x - k)) = x by omega]
        · rw [if_neg here, if_neg fun both => here both.1]
      · rename_i unborn
        rw [if_neg fun both => unborn both.2]
    rw [ih (by rw [bound, Nat.mul_succ]), received]
    by_cases here : k ≤ x ∧ x < k + tamanhoPipe
    · have child : x / tamanhoPipe = i := Nat.div_eq_of_lt_le (by rw [Nat.mul_comm]; omega)
        (by rw [Nat.succ_mul, Nat.mul_comm]; omega)
      rw [if_neg (by omega), child]
      simp only [here, true_and, and_self, show x < tamanhoPipe * nProcessos by omega]
    · have away : ¬ ((k ≤ x ∧ x < k + tamanhoPipe) ∧ nasce i = true) := fun both => here both.1
      rw [if_neg away]
      by_cases later : k + tamanhoPipe ≤ x
      · have first : k ≤ x := by omega
        simp only [later, first, true_and]
      · have before : ¬ k ≤ x := fun low => here ⟨low, by omega⟩
        simp only [later, before, false_and]
  | case2 i k s done =>
    have room : tamanhoPipe * nProcessos ≤ tamanhoPipe * i :=
      Nat.mul_le_mul_left _ (by omega)
    rw [if_neg (by omega)]

/-- What the loop leaves in `nota1`: the indices behind the last slice get nothing. -/
theorem nota1_notas (nasce : ℕ → Bool) (arquivo : ℕ → Registro F) (tamanhoPipe N m : ℕ) :
    (notas nasce arquivo tamanhoPipe N).nota1 m =
      if m < tamanhoPipe * (N / tamanhoPipe) ∧ nasce (m / tamanhoPipe) = true then
        some (media (arquivo m))
      else none := by
  rw [notas, nota1_principal nasce arquivo _ 0 0 _ (Nat.mul_zero _).symm]
  simp only [Nat.zero_le, true_and]

/-- Which assignments it makes. -/
theorem mem_escritas_notas {nasce : ℕ → Bool} {arquivo : ℕ → Registro F} {tamanhoPipe N i m : ℕ} :
    (i, m) ∈ (notas nasce arquivo tamanhoPipe N).escritas ↔
      m < tamanhoPipe * (N / tamanhoPipe) ∧ nasce i = true ∧ m / tamanhoPipe = i := by
  rw [notas, escritas_principal nasce arquivo _ 0 0 _ (Nat.mul_zero _).symm, Nat.sub_zero,
    List.nil_append]
  simp only [List.mem_map, List.mem_filter, List.mem_range'_1, Nat.zero_le, Nat.zero_add, true_and,
    Prod.mk.injEq]
  constructor
  · rintro ⟨x, ⟨less, born⟩, rfl, rfl⟩
    exact ⟨less, born, rfl⟩
  · rintro ⟨less, born, rfl⟩
    exact ⟨m, ⟨less, born⟩, rfl, rfl⟩

/-- **Every student gets an average.** No index at or above `N_NOTAS` is written. For every
`m < N_NOTAS`, `nota1[m]` is assigned what child `m / TAMANHOPIPE` computed for record `m`, exactly if
`TAMANHOPIPE` divides `N_NOTAS` and the forks made succeed; it is then the average of the record,
written once. -/
theorem averages (arquivo : ℕ → Registro F) (nasce : ℕ → Bool) (tamanhoPipe N : ℕ) :
    (∀ w ∈ (notas nasce arquivo tamanhoPipe N).escritas, w.2 < N) ∧
      ((∀ m < N, (m / tamanhoPipe, m) ∈ (notas nasce arquivo tamanhoPipe N).escritas ∧
          (notas nasce arquivo tamanhoPipe N).nota1 m =
            filho arquivo tamanhoPipe (tamanhoPipe * (m / tamanhoPipe)) (m % tamanhoPipe)) ↔
        tamanhoPipe ∣ N ∧ ∀ i < N / tamanhoPipe, nasce i = true) ∧
      (tamanhoPipe ∣ N → (∀ i < N / tamanhoPipe, nasce i = true) →
        (∀ m < N, (notas nasce arquivo tamanhoPipe N).nota1 m = some (media (arquivo m))) ∧
        (notas nasce arquivo tamanhoPipe N).escritas =
          (List.range N).map fun m => (m / tamanhoPipe, m)) := by
  have slices : tamanhoPipe * (N / tamanhoPipe) ≤ N := Nat.mul_div_le N tamanhoPipe
  -- the child of a student, where the slices cover everyone
  have child {m : ℕ} (divides : tamanhoPipe ∣ N) (less : m < N) :
      0 < tamanhoPipe ∧ m / tamanhoPipe < N / tamanhoPipe :=
    ⟨Nat.pos_of_dvd_of_pos divides (by omega), Nat.div_lt_div_of_lt_of_dvd divides less⟩
  have value {m : ℕ} (divides : tamanhoPipe ∣ N) (born : ∀ i < N / tamanhoPipe, nasce i = true)
      (less : m < N) : (notas nasce arquivo tamanhoPipe N).nota1 m = some (media (arquivo m)) := by
    rw [nota1_notas, Nat.mul_div_cancel' divides, if_pos ⟨less, born _ (child divides less).2⟩]
  refine ⟨fun w mem => (mem_escritas_notas.mp mem).1.trans_le slices, ⟨fun all => ?_, ?_⟩, ?_⟩
  · have whole : tamanhoPipe * (N / tamanhoPipe) = N := by
      by_contra short
      have written := (all (tamanhoPipe * (N / tamanhoPipe)) (by omega)).1
      exact absurd (mem_escritas_notas.mp written).1 (lt_irrefl _)
    refine ⟨⟨_, whole.symm⟩, fun i less => ?_⟩
    -- the first student of the slice
    have pipe : 0 < tamanhoPipe := Nat.pos_of_ne_zero fun zero => by
      rw [zero, Nat.div_zero] at less
      omega
    have inside : tamanhoPipe * i < N :=
      (Nat.mul_lt_mul_of_pos_left less pipe).trans_le slices
    have written := (all (tamanhoPipe * i) inside).1
    rw [Nat.mul_div_cancel_left i pipe] at written
    exact (mem_escritas_notas.mp written).2.1
  · rintro ⟨divides, born⟩ m less
    obtain ⟨pipe, among⟩ := child divides less
    refine ⟨mem_escritas_notas.mpr ⟨by rwa [Nat.mul_div_cancel' divides], born _ among, rfl⟩, ?_⟩
    rw [value divides born less, filho_eq arquivo _ (Nat.mod_lt m pipe), Nat.div_add_mod]
  · intro divides born
    refine ⟨fun m => value divides born, ?_⟩
    have everyone : (List.range' 0 N).filter (fun m => nasce (m / tamanhoPipe)) = List.range' 0 N :=
      List.filter_eq_self.mpr fun m mem => by
        have less := (List.mem_range'_1.mp mem).2
        exact born _ (child divides (by omega)).2
    rw [notas, escritas_principal nasce arquivo _ 0 0 _ (Nat.mul_zero _).symm, Nat.sub_zero,
      Nat.mul_div_cancel' divides, everyone, List.range_eq_range']
    rfl

end Lacos

/-- The default: 50 students in slices of ten, and five forks that succeed. -/
theorem averages_fifty :
    (notas (fun i => decide (i < 5)) (fun _ => ⟨8, 9, 0⟩ : ℕ → Registro ℚ) 10 50).nota1 49 =
      some (17 / 2) := by
  have law := (averages (fun _ => ⟨8, 9, 0⟩ : ℕ → Registro ℚ) (fun i => decide (i < 5)) 10 50).2.2
    (by decide) (by decide)
  rw [law.1 49 (by decide)]
  decide +kernel

/-- **Fifteen students in slices of ten**: there is one child, and the last five get no average. -/
theorem students_left_out :
    (notas (fun _ => true) (fun _ => ⟨8, 9, 0⟩ : ℕ → Registro ℚ) 10 15).nota1 10 = none ∧
      10 ∉ (notas (fun _ => true) (fun _ => ⟨8, 9, 0⟩ : ℕ → Registro ℚ) 10 15).escritas.map
        Prod.snd := by
  refine ⟨by rw [nota1_notas, if_neg (by decide)], fun mem => ?_⟩
  obtain ⟨⟨i, m⟩, written, rfl⟩ := List.mem_map.mp mem
  exact absurd (mem_escritas_notas.mp written).1 (by decide)

/-! ### The file the program writes -/

/-- What a child reads of record `j`. -/
def arquivoDe (texto : List Char) (v : Variaveis) (j : ℕ) : Registro ℚ :=
  let lido := (fscanf v (fseek texto (j * 19))).2.1
  ⟨lido.n1, lido.n2, lido.n3⟩

/-- **The average of a student is that of the marks written for them.** -/
theorem average_of_file {marcas : ℕ → Registro ℕ} (decimos : ∀ i, (marcas i).Decimos)
    {tamanhoPipe N : ℕ} (small : N ≤ 1000000) (divides : tamanhoPipe ∣ N) (v : Variaveis) {m : ℕ}
    (less : m < N) :
    (notas (fun _ => true) (arquivoDe (gera marcas N) v) tamanhoPipe N).nota1 m =
      some (media (⟨(marcas m).n1 / 10, (marcas m).n2 / 10, (marcas m).n3 / 10⟩ : Registro ℚ)) := by
  rw [nota1_notas, Nat.mul_div_cancel' divides, if_pos ⟨less, rfl⟩, arquivoDe, Nat.mul_comm,
    fscanf_gera decimos small less]
  rfl

end Medias
