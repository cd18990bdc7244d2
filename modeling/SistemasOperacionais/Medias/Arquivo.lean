/-
**`nota.lst`: direct access and the sequential scan.**

The three programs write the file with the same loop. `pipe.c` and `thread.c` read record `i` with
`fseek` to `19 * i` and one `fscanf`; a child of `processo.c` calls `fscanf` from the start of the
file until `ids == i`.

* `gera` — the text of the file: one `dprintf` per record, whose number of blanks depends on the
  number of digits of `i`. A mark is given in tenths.
* `fscanf` — `fscanf(arq, "%i %f %f %f\n", …)` on the text still unread: the number of conversions or
  `EOF`, the variables, and what is left. `procura` is the loop of `processo.c`.
* `length_registro` — **every record has 19 characters**, so that record `i` starts at `19 * i`
  (`fseek_gera`).
* `fscanf_registro` — **a record that is written is read back**, and the next `fscanf` starts at the
  next record.
* `direct_eq_sequential` — **both ways of reading give record `i`.**

A float is its decimal value: `%f` is read for numerals without an exponent, and `n1 + n2 >= 14.0`,
which is a comparison of rounded sums, is a parameter.
-/

import SistemasOperacionais.Data.Numeral
import SistemasOperacionais.Medias.Thread
import Mathlib.Algebra.Order.Field.Rat

namespace Medias

open Numeral

/-! ### Writing -/

/-- The marks of a record, in tenths; the third is not needed if the first two suffice. -/
def sorteia (alta : ℕ → ℕ → Bool) (rand : ℕ → ℕ) (i : ℕ) : Registro ℕ :=
  let n1 := rand (3 * i) % 100
  let n2 := rand (3 * i + 1) % 100
  let n3 := rand (3 * i + 2) % 100
  ⟨n1, n2, if alta n1 n2 then 0 else n3⟩

/-- `%.1f` -/
def decimo (decimos : ℕ) : List Char :=
  Nat.toDigits 10 (decimos / 10) ++ '.' :: Nat.toDigits 10 (decimos % 10)

/-- `dprintf` of a record behind `recuo` blanks. -/
def linha (recuo i : ℕ) (notas : Registro ℕ) : List Char :=
  List.replicate recuo ' ' ++ (Nat.toDigits 10 i ++ ' ' :: (decimo notas.n1 ++ ' ' ::
    (decimo notas.n2 ++ ' ' :: (decimo notas.n3 ++ ['\n']))))

/-- What the loop writes for record `i`. -/
def registro (i : ℕ) (notas : Registro ℕ) : List Char :=
  if i < 10 then linha 5 i notas
  else if i ≥ 10 ∧ i < 100 then linha 4 i notas
  else if i ≥ 100 ∧ i < 1000 then linha 3 i notas
  else if i ≥ 1000 ∧ i < 10000 then linha 2 i notas
  else if i ≥ 10000 ∧ i < 100000 then linha 1 i notas
  else if i ≥ 100000 ∧ i < 1000000 then linha 0 i notas
  else []

/-- **The file**, after `n` passes of the loop. -/
def gera (notas : ℕ → Registro ℕ) : ℕ → List Char
  | 0 => []
  | n + 1 => gera notas n ++ registro n (notas n)

/-! ### Reading -/

/-- The variables `fscanf` writes. -/
structure Variaveis where
  ids : ℤ
  n1 : ℚ
  n2 : ℚ
  n3 : ℚ
  deriving DecidableEq

/-- `%i`, behind the blanks: the value, unless there is none, and the text left. -/
def leInteiro (texto : List Char) : Option ℤ × List Char :=
  let (menos, corpo) := sign texto
  if corpo.head? = some '0' then
    if corpo.tail.head? = some 'x' ∨ corpo.tail.head? = some 'X' then
      let algarismos := numeral 16 corpo.tail.tail
      (some (signed menos (value 16 algarismos)), after 16 corpo.tail.tail)
    else (some (signed menos (value 8 (numeral 8 corpo))), after 8 corpo)
  else if numeral 10 corpo = [] then (none, corpo)
  else (some (signed menos (value 10 (numeral 10 corpo))), after 10 corpo)

/-- `%f`, behind the blanks, for a numeral without an exponent. -/
def leDecimal (texto : List Char) : Option ℚ × List Char :=
  let (menos, corpo) := sign texto
  let inteiros := numeral 10 corpo
  let depois := after 10 corpo
  let (fracao, resto) :=
    if depois.head? = some '.' then (numeral 10 depois.tail, after 10 depois.tail)
    else ([], depois)
  if inteiros = [] ∧ fracao = [] then (none, resto)
  else (some ((signed menos (value 10 (inteiros ++ fracao)) : ℚ) / 10 ^ fracao.length), resto)

/-- **`fscanf(arq, "%i %f %f %f\n", &ids, &n1, &n2, &n3)`**; `none` is `EOF`. -/
def fscanf (v : Variaveis) (texto : List Char) : Option ℕ × Variaveis × List Char :=
  if skip texto = [] then (none, v, [])
  else match leInteiro (skip texto) with
    | (none, resto) => (some 0, v, resto)
    | (some ids, resto) =>
      match leDecimal (skip resto) with
      | (none, resto) => (some 1, { v with ids }, resto)
      | (some n1, resto) =>
        match leDecimal (skip resto) with
        | (none, resto) => (some 2, { v with ids, n1 }, resto)
        | (some n2, resto) =>
          match leDecimal (skip resto) with
          | (none, resto) => (some 3, { v with ids, n1, n2 }, resto)
          | (some n3, resto) => (some 4, ⟨ids, n1, n2, n3⟩, skip resto)

/-- `processo.c`: the loop of a child, `voltas` passes of it at most. -/
def procura (i : ℤ) : ℕ → Variaveis → List Char → Option Variaveis
  | 0, _, _ => none
  | voltas + 1, v, texto =>
    match fscanf v texto with
    | (none, v, _) => some v
    | (some _, v, resto) => if v.ids = i then some v else procura i voltas v resto

/-- `fseek(arq, i * 19, SEEK_SET)` -/
def fseek (texto : List Char) (posicao : ℕ) : List Char := texto.drop posicao

/-! ### The width of a record -/

/-- The marks fit one digit before the point. -/
def Registro.Decimos (notas : Registro ℕ) : Prop :=
  notas.n1 < 100 ∧ notas.n2 < 100 ∧ notas.n3 < 100

theorem decimos_sorteia (alta : ℕ → ℕ → Bool) (rand : ℕ → ℕ) (i : ℕ) :
    (sorteia alta rand i).Decimos := by
  refine ⟨Nat.mod_lt _ (by omega), Nat.mod_lt _ (by omega), ?_⟩
  show (if alta _ _ then 0 else rand (3 * i + 2) % 100) < 100
  split <;> omega

theorem length_decimo {decimos : ℕ} (small : decimos < 100) : (decimo decimos).length = 3 := by
  unfold decimo
  rw [Nat.toDigits_of_lt_base (by omega : decimos / 10 < 10),
    Nat.toDigits_of_lt_base (by omega : decimos % 10 < 10)]
  rfl

theorem length_linha {recuo i : ℕ} {notas : Registro ℕ} (decimos : notas.Decimos) :
    (linha recuo i notas).length = recuo + (Nat.toDigits 10 i).length + 13 := by
  obtain ⟨first, second, third⟩ := decimos
  simp only [linha, List.length_append, List.length_replicate, List.length_cons, List.length_nil,
    length_decimo first, length_decimo second, length_decimo third]
  omega

/-- A number between two powers of ten. -/
theorem length_toDigits_eq {i k : ℕ} (low : 10 ^ k ≤ i) (high : i < 10 ^ (k + 1)) (some : 0 < k) :
    (Nat.toDigits 10 i).length = k + 1 := by
  have upper := (Nat.length_toDigits_le_iff (b := 10) (by omega) (Nat.succ_pos k)).mpr high
  have lower := (Nat.length_toDigits_le_iff (b := 10) (n := i) (by omega) some).not.mpr (by omega)
  omega

/-- The blanks make up for the missing digits. -/
theorem registro_eq_linha {i : ℕ} (small : i < 1000000) (notas : Registro ℕ) :
    ∃ recuo, registro i notas = linha recuo i notas ∧ recuo + (Nat.toDigits 10 i).length = 6 := by
  unfold registro
  split
  · refine ⟨5, rfl, ?_⟩
    rw [Nat.toDigits_of_lt_base ‹_›]
    rfl
  split
  · exact ⟨4, rfl, by rw [length_toDigits_eq (k := 1) (by omega) (by omega) (by omega)]⟩
  split
  · exact ⟨3, rfl, by rw [length_toDigits_eq (k := 2) (by omega) (by omega) (by omega)]⟩
  split
  · exact ⟨2, rfl, by rw [length_toDigits_eq (k := 3) (by omega) (by omega) (by omega)]⟩
  split
  · exact ⟨1, rfl, by rw [length_toDigits_eq (k := 4) (by omega) (by omega) (by omega)]⟩
  split
  · exact ⟨0, rfl, by rw [length_toDigits_eq (k := 5) (by omega) (by omega) (by omega)]⟩
  · omega

/-- **Every record has 19 characters.** -/
theorem length_registro {i : ℕ} (small : i < 1000000) {notas : Registro ℕ}
    (decimos : notas.Decimos) : (registro i notas).length = 19 := by
  obtain ⟨recuo, written, width⟩ := registro_eq_linha small notas
  rw [written, length_linha decimos]
  omega

/-- The records before `i`, record `i`, and the rest. -/
theorem gera_split (notas : ℕ → Registro ℕ) {i n : ℕ} (less : i < n) :
    ∃ resto, gera notas n = gera notas i ++ (registro i (notas i) ++ resto) := by
  induction n with
  | zero => omega
  | succ n ih =>
    by_cases last : i = n
    · subst last
      exact ⟨[], by rw [List.append_nil]; rfl⟩
    · obtain ⟨resto, split⟩ := ih (by omega)
      refine ⟨resto ++ registro n (notas n), ?_⟩
      rw [gera, split, List.append_assoc, List.append_assoc]

section Posicao

variable {notas : ℕ → Registro ℕ} (decimos : ∀ i, (notas i).Decimos)

include decimos

theorem length_gera {n : ℕ} (small : n ≤ 1000000) : (gera notas n).length = 19 * n := by
  induction n with
  | zero => rfl
  | succ n ih =>
    rw [gera, List.length_append, ih (by omega), length_registro (by omega) (decimos n)]
    omega

/-- **Record `i` starts at byte `19 * i`**, and the next one behind it. -/
theorem fseek_gera {i n : ℕ} (small : n ≤ 1000000) (less : i < n) :
    fseek (gera notas n) (19 * i) =
      registro i (notas i) ++ fseek (gera notas n) (19 * (i + 1)) := by
  obtain ⟨resto, split⟩ := gera_split notas less
  have before := length_gera decimos (n := i) (by omega)
  have width := length_registro (i := i) (by omega) (decimos i)
  have here : fseek (gera notas n) (19 * i) = registro i (notas i) ++ resto := by
    rw [fseek, split, ← before, List.drop_left]
  have next : fseek (gera notas n) (19 * (i + 1)) = resto := by
    have parts : fseek (gera notas n) (19 * (i + 1)) =
        (fseek (gera notas n) (19 * i)).drop 19 := List.drop_drop.symm
    rw [parts, here, ← width, List.drop_left]
  rw [here, next]

end Posicao

/-! ### Reading a record back -/

theorem leInteiro_toDigits (i : ℕ) {texto : List Char} :
    leInteiro (Nat.toDigits 10 i ++ ' ' :: texto) = (some (i : ℤ), ' ' :: texto) := by
  have stop : ∀ c ∈ (' ' :: texto).head?, 10 ≤ digit c := by
    rintro c ⟨⟩
    decide
  unfold leInteiro
  rw [sign_toDigits]
  by_cases zero : i = 0
  · -- `0` alone is an octal numeral
    subst zero
    rfl
  · have head : (Nat.toDigits 10 i ++ ' ' :: texto).head? ≠ some '0' := by
      rw [List.head?_append_of_ne_nil _ Nat.toDigits_ne_nil]
      exact head_toDigits (by omega)
    simp only [if_neg head, numeral_toDigits i stop, after_toDigits i stop, value_toDigits,
      if_neg Nat.toDigits_ne_nil]
    rfl

/-- A numeral with a point. -/
theorem leDecimal_of_point {texto corpo cauda : List Char} {menos : Bool}
    (signs : sign texto = (menos, corpo)) (integers : numeral 10 corpo ≠ [])
    (point : after 10 corpo = '.' :: cauda) :
    leDecimal texto =
      (some ((signed menos (value 10 (numeral 10 corpo ++ numeral 10 cauda)) : ℚ) /
        10 ^ (numeral 10 cauda).length), after 10 cauda) := by
  have some_digit : ¬ (numeral 10 corpo = [] ∧ numeral 10 cauda = []) := fun none => integers none.1
  simp only [leDecimal, signs, point, List.head?_cons, if_true, List.tail_cons,
    if_neg some_digit]

theorem leDecimal_decimo (decimos : ℕ) {c : Char} (stop : 10 ≤ digit c) (texto : List Char) :
    leDecimal (decimo decimos ++ c :: texto) = (some ((decimos : ℚ) / 10), c :: texto) := by
  have point : ∀ d ∈ ('.' :: (Nat.toDigits 10 (decimos % 10) ++ c :: texto)).head?,
      10 ≤ digit d := by
    rintro d ⟨⟩
    decide
  have behind : ∀ d ∈ (c :: texto).head?, 10 ≤ digit d := by
    rintro d ⟨⟩
    exact stop
  have last : decimos % 10 < 10 := Nat.mod_lt decimos (by omega)
  have body : decimo decimos ++ c :: texto = Nat.toDigits 10 (decimos / 10) ++
      '.' :: (Nat.toDigits 10 (decimos % 10) ++ c :: texto) := by
    rw [decimo, List.append_assoc, List.cons_append]
  have integers := numeral_toDigits (decimos / 10) point
  have fraction := numeral_toDigits (decimos % 10) behind
  have nonempty : numeral 10 (Nat.toDigits 10 (decimos / 10) ++
      '.' :: (Nat.toDigits 10 (decimos % 10) ++ c :: texto)) ≠ [] := by
    rw [integers]
    exact Nat.toDigits_ne_nil
  have one : (Nat.toDigits 10 (decimos % 10)).length = 1 := by
    rw [Nat.toDigits_of_lt_base last]
    rfl
  rw [body, leDecimal_of_point (sign_toDigits _ _) nonempty (after_toDigits _ point), integers,
    fraction, after_toDigits _ behind, value_append last, value_toDigits, Nat.div_add_mod, one,
    pow_one]
  rfl

theorem skip_decimo (decimos : ℕ) (texto : List Char) :
    skip (decimo decimos ++ texto) = decimo decimos ++ texto := by
  unfold decimo
  rw [List.append_assoc, skip_toDigits]

theorem skip_blank (texto : List Char) : skip (' ' :: texto) = skip texto := rfl

/-- What the blanks before a record leave. -/
theorem skip_linha (recuo i : ℕ) (notas : Registro ℕ) (texto : List Char) :
    skip (linha recuo i notas ++ texto) =
      Nat.toDigits 10 i ++ ' ' :: (decimo notas.n1 ++ ' ' :: (decimo notas.n2 ++ ' ' ::
        (decimo notas.n3 ++ '\n' :: texto))) := by
  have blank : ∀ c ∈ List.replicate recuo ' ', space c = true := by
    intro c mem
    rw [List.eq_of_mem_replicate mem]
    rfl
  simp only [linha, List.append_assoc, List.cons_append, List.nil_append]
  rw [skip_append blank, skip_toDigits]

/-- **A record is read back**, and the blanks before the next one are skipped. -/
theorem fscanf_registro {i : ℕ} (small : i < 1000000) (notas : Registro ℕ) (v : Variaveis)
    (texto : List Char) :
    fscanf v (registro i notas ++ texto) =
      (some 4, ⟨i, notas.n1 / 10, notas.n2 / 10, notas.n3 / 10⟩, skip texto) := by
  obtain ⟨recuo, written, _⟩ := registro_eq_linha small notas
  have blank : 10 ≤ digit ' ' := by decide
  have newline : 10 ≤ digit '\n' := by decide
  unfold fscanf
  rw [written, skip_linha, if_neg (List.append_ne_nil_of_left_ne_nil Nat.toDigits_ne_nil _)]
  simp only [leInteiro_toDigits, skip_blank, skip_decimo, leDecimal_decimo _ blank,
    leDecimal_decimo _ newline]
  rfl

/-! ### The two ways of reading -/

theorem fscanf_skip (v : Variaveis) (texto : List Char) :
    fscanf v (skip texto) = fscanf v texto := by
  unfold fscanf
  rw [skip_skip]

theorem procura_skip (i : ℤ) (voltas : ℕ) (v : Variaveis) (texto : List Char) :
    procura i voltas v (skip texto) = procura i voltas v texto := by
  cases voltas with
  | zero => rfl
  | succ voltas => rw [procura, fscanf_skip, procura]

/-- What is read of record `i`. -/
def lido (notas : ℕ → Registro ℕ) (i : ℕ) : Variaveis :=
  ⟨i, (notas i).n1 / 10, (notas i).n2 / 10, (notas i).n3 / 10⟩

section Leitura

variable {notas : ℕ → Registro ℕ} (decimos : ∀ i, (notas i).Decimos) {i n : ℕ}
  (small : n ≤ 1000000)

include decimos small

theorem fscanf_gera (less : i < n) (v : Variaveis) :
    fscanf v (fseek (gera notas n) (19 * i)) =
      (some 4, lido notas i, skip (fseek (gera notas n) (19 * (i + 1)))) := by
  rw [fseek_gera decimos small less, fscanf_registro (by omega)]
  rfl

/-- From any record up to `i` the loop comes to `i`, and stops there. -/
theorem procura_gera (less : i < n) {voltas k : ℕ} (before : k ≤ i) (enough : i - k < voltas)
    (v : Variaveis) :
    procura i voltas v (fseek (gera notas n) (19 * k)) = some (lido notas i) := by
  induction voltas generalizing k v with
  | zero => omega
  | succ voltas ih =>
    rw [procura, fscanf_gera decimos small (by omega)]
    show (if (k : ℤ) = i then _ else _) = _
    by_cases same : k = i
    · subst same
      exact if_pos rfl
    · rw [if_neg (by omega), procura_skip]
      exact ih (by omega) (by omega) (lido notas k)

/-- **Direct access agrees with the sequential scan**: record `i` is the bytes `19 * i` to
`19 * i + 18`, one `fscanf` there reads it whole, and so does the scan from the start, which needs
`i + 1` passes. -/
theorem direct_eq_sequential (less : i < n) :
    ((gera notas n).drop (19 * i)).take 19 = registro i (notas i) ∧
      (registro i (notas i)).length = 19 ∧
      (∀ v, (fscanf v (fseek (gera notas n) (i * 19))).1 = some 4 ∧
        (fscanf v (fseek (gera notas n) (i * 19))).2.1 = lido notas i) ∧
      ∀ v voltas, i < voltas → procura i voltas v (gera notas n) = some (lido notas i) := by
  have width := length_registro (i := i) (by omega) (decimos i)
  refine ⟨?_, width, fun v => ?_, fun v voltas enough => ?_⟩
  · rw [← fseek, fseek_gera decimos small less, ← width, List.take_left]
  · rw [Nat.mul_comm, fscanf_gera decimos small less]
    exact ⟨rfl, rfl⟩
  · exact procura_gera decimos small less (Nat.zero_le i) enough v

end Leitura

/-- The default file of 50 records, at a record with two digits. -/
theorem direct_eq_sequential_fifty :
    procura 10 50 ⟨0, 0, 0, 0⟩ (gera (sorteia (fun n1 n2 => 140 ≤ n1 + n2) fun draw => 7 * draw) 50) =
      some ⟨10, 1, 17 / 10, 24 / 10⟩ ∧
    ((gera (sorteia (fun n1 n2 => 140 ≤ n1 + n2) fun draw => 7 * draw) 50).drop 190).take 19 =
      "    10 1.0 1.7 2.4\n".toList := by
  have law := direct_eq_sequential (i := 10) (n := 50)
    (decimos_sorteia (fun n1 n2 => 140 ≤ n1 + n2) fun draw => 7 * draw) (by decide) (by decide)
  refine ⟨(law.2.2.2 ⟨0, 0, 0, 0⟩ 50 (by decide)).trans ?_, law.1.trans ?_⟩
  · decide +kernel
  · decide

end Medias
