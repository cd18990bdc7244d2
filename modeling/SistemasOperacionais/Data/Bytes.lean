/-
**Bytes in a buffer.**

A buffer is the bytes at its positions. `slice` copies bytes out of it and `patch` copies bytes into
it; what is patched is what is sliced, and positions apart do not disturb each other.

* `bytes`, `little` — a number in so many bytes, the least significant first; `field`, `setField` —
  such a number in a buffer.
* `bit`, `setBit`, `clearBit` — a buffer as a map of bits.
* `paged` — **the blocks of a list, one behind the other, are a buffer**: a copy that stays in a
  block is a copy in the buffer (`slice_paged`, `paged_patch`).
-/

import Mathlib.Data.List.GetD
import Mathlib.Data.List.Nodup
import Mathlib.Logic.Function.Basic
import Mathlib.Tactic.Ring

namespace Bytes

/-- The bytes of a buffer by their positions. -/
abbrev Buffer := ℕ → UInt8

variable {b : Buffer} {off o n m w v : ℕ} {l r : List UInt8}

/-! ### Slices and patches -/

/-- `n` bytes from position `off` on. -/
def slice (b : Buffer) (off n : ℕ) : List UInt8 := (List.range n).map fun i => b (off + i)

/-- The buffer with the bytes `l` at position `off`. -/
def patch (b : Buffer) (off : ℕ) (l : List UInt8) : Buffer := fun i =>
  if off ≤ i then l.getD (i - off) (b i) else b i

@[simp] theorem length_slice (b : Buffer) (off n : ℕ) : (slice b off n).length = n := by
  simp [slice]

@[simp] theorem slice_zero (b : Buffer) (off : ℕ) : slice b off 0 = [] := rfl

@[simp] theorem patch_nil (b : Buffer) (off : ℕ) : patch b off [] = b := by
  funext i
  simp [patch]

theorem getElem_slice (i : ℕ) (inside : i < (slice b off n).length) :
    (slice b off n)[i] = b (off + i) := by
  simp [slice]

theorem patch_of_lt {i : ℕ} (before : i < off) : patch b off l i = b i :=
  if_neg (Nat.not_le.mpr before)

theorem patch_of_le {i : ℕ} (behind : off + l.length ≤ i) : patch b off l i = b i := by
  rw [patch, if_pos (by omega), List.getD_eq_default _ _ (by omega)]

theorem patch_add (i : ℕ) (inside : i < l.length) : patch b off l (off + i) = l[i] := by
  rw [patch, if_pos (Nat.le_add_right _ _), Nat.add_sub_cancel_left, List.getD_eq_getElem _ _ inside]

theorem slice_congr {c : Buffer} (same : ∀ i, off ≤ i → i < off + n → b i = c i) :
    slice b off n = slice c off n :=
  List.map_congr_left fun i member => same _ (by omega) (by have := List.mem_range.mp member; omega)

theorem slice_add (b : Buffer) (off m n : ℕ) :
    slice b off (m + n) = slice b off m ++ slice b (off + m) n := by
  simp only [slice, List.range_add, List.map_append, List.map_map]
  refine congrArg _ (List.map_congr_left fun i _ => ?_)
  rw [Function.comp_apply, Nat.add_assoc]

theorem drop_slice (b : Buffer) (off n k : ℕ) :
    (slice b off n).drop k = slice b (off + k) (n - k) := by
  refine List.ext_getElem (by simp) fun i first second => ?_
  rw [List.getElem_drop, getElem_slice, getElem_slice, Nat.add_assoc]

theorem take_slice (b : Buffer) (off n k : ℕ) : (slice b off n).take k = slice b off (min k n) := by
  refine List.ext_getElem (by simp) fun i first second => ?_
  rw [List.getElem_take, getElem_slice, getElem_slice]

theorem slice_patch (b : Buffer) (off : ℕ) (l : List UInt8) :
    slice (patch b off l) off l.length = l := by
  refine List.ext_getElem (length_slice _ _ _) fun i inside inside' => ?_
  rw [getElem_slice, patch_add i inside']

/-- What is apart from a patch stays. -/
theorem slice_patch_of_apart (apart : o + n ≤ off ∨ off + l.length ≤ o) :
    slice (patch b off l) o n = slice b o n := by
  refine slice_congr fun i lower upper => ?_
  rcases apart with before | behind
  · exact patch_of_lt (by omega)
  · exact patch_of_le (by omega)

theorem patch_append (b : Buffer) (off : ℕ) (l r : List UInt8) :
    patch b off (l ++ r) = patch (patch b off l) (off + l.length) r := by
  funext i
  by_cases before : i < off
  · rw [patch_of_lt before, patch_of_lt (by omega), patch_of_lt before]
  · obtain ⟨k, rfl⟩ := Nat.exists_eq_add_of_le (Nat.le_of_not_lt before)
    by_cases first : k < l.length
    · rw [patch_add k (by simp; omega), patch_of_lt (by omega), patch_add k first,
        List.getElem_append_left first]
    · by_cases second : k < (l ++ r).length
      · have inside : k - l.length < r.length := by
          rw [List.length_append] at second
          omega
        rw [patch_add k second, List.getElem_append_right (by omega),
          show off + k = off + l.length + (k - l.length) by omega, patch_add _ inside]
      · rw [List.length_append] at second
        rw [patch_of_le (by simp; omega), patch_of_le (by omega), patch_of_le (by omega)]

/-- **A patch of the first bytes of a buffer, as lists.** -/
theorem slice_patch_zero (b : Buffer) (n : ℕ) (inside : off ≤ n) :
    slice (patch b off l) 0 (max n (off + l.length)) =
      (slice b 0 n).take off ++ l ++ (slice b 0 n).drop (off + l.length) := by
  refine List.ext_getElem ?_ fun i first second => ?_
  · simp only [length_slice, List.length_append, List.length_take, List.length_drop]
    omega
  · rw [length_slice] at first
    rw [getElem_slice, Nat.zero_add]
    by_cases before : i < off
    · rw [patch_of_lt before, List.getElem_append_left (by simp; omega),
        List.getElem_append_left (by simp; omega)]
      simp [slice]
    · obtain ⟨k, rfl⟩ := Nat.exists_eq_add_of_le (Nat.le_of_not_lt before)
      have start : ((slice b 0 n).take off).length = off := by simp [inside]
      by_cases new : k < l.length
      · rw [patch_add k new, List.getElem_append_left (by simp [inside]; omega),
          List.getElem_append_right (by omega)]
        simp [inside]
      · rw [patch_of_le (by omega), List.getElem_append_right (by simp [inside]; omega)]
        simp only [slice, List.getElem_drop, List.getElem_map, List.getElem_range, Nat.zero_add,
          List.length_append, List.length_take, List.length_map, List.length_range]
        congr 1
        omega

/-! ### Numbers -/

/-- The number that the bytes stand for, the least significant first. -/
def little : List UInt8 → ℕ
  | [] => 0
  | x :: l => x.toNat + 256 * little l

/-- The `w` bytes of a number, the least significant first. -/
def bytes : ℕ → ℕ → List UInt8
  | 0, _ => []
  | w + 1, v => UInt8.ofNat v :: bytes w (v / 256)

@[simp] theorem length_bytes (w v : ℕ) : (bytes w v).length = w := by
  induction w generalizing v with
  | zero => rfl
  | succ w ih => rw [bytes, List.length_cons, ih]

theorem little_bytes (small : v < 256 ^ w) : little (bytes w v) = v := by
  induction w generalizing v with
  | zero =>
    rw [pow_zero, Nat.lt_one_iff] at small
    rw [bytes, little, small]
  | succ w ih =>
    have rest : v / 256 < 256 ^ w := by
      rw [pow_succ'] at small
      exact Nat.div_lt_of_lt_mul small
    rw [bytes, little, ih rest, UInt8.toNat_ofNat']
    omega

/-- The number in `w` bytes from `off` on. -/
def field (b : Buffer) (off w : ℕ) : ℕ := little (slice b off w)

def setField (b : Buffer) (off w v : ℕ) : Buffer := patch b off (bytes w v)

theorem field_setField (small : v < 256 ^ w) : field (setField b off w v) off w = v := by
  have same := slice_patch b off (bytes w v)
  rw [length_bytes] at same
  rw [field, setField, same, little_bytes small]

theorem field_patch_of_apart (apart : o + w ≤ off ∨ off + l.length ≤ o) :
    field (patch b off l) o w = field b o w := by
  rw [field, slice_patch_of_apart apart, field]

theorem field_setField_of_apart (apart : o + m ≤ off ∨ off + w ≤ o) :
    field (setField b off w v) o m = field b o m :=
  field_patch_of_apart (by rwa [length_bytes])

/-- The first number of a patch. -/
theorem field_patch_bytes_append (b : Buffer) (off : ℕ) (small : v < 256 ^ w) (r : List UInt8) :
    field (patch b off (bytes w v ++ r)) off w = v := by
  rw [patch_append, field_patch_of_apart (.inl (by rw [length_bytes])), ← setField,
    field_setField small]

theorem length_row (w : ℕ) (row : List ℕ) : (row.flatMap (bytes w)).length = row.length * w := by
  induction row with
  | nil => simp
  | cons v row ih =>
    rw [List.flatMap_cons, List.length_append, length_bytes, ih, List.length_cons, Nat.succ_mul,
      Nat.add_comm]

/-- A row of numbers of the same width. -/
theorem field_row (b : Buffer) (off w : ℕ) (row : List ℕ) (small : ∀ v ∈ row, v < 256 ^ w) (i : ℕ)
    (inside : i < row.length) :
    field (patch b off (row.flatMap (bytes w))) (off + w * i) w = row[i] := by
  induction row generalizing b off i with
  | nil => cases inside
  | cons v row ih =>
    have others : ∀ v ∈ row, v < 256 ^ w := fun v member => small v (List.mem_cons_of_mem _ member)
    cases i with
    | zero =>
      rw [Nat.mul_zero, Nat.add_zero, List.flatMap_cons,
        field_patch_bytes_append _ _ (small v List.mem_cons_self), List.getElem_cons_zero]
    | succ i =>
      rw [List.flatMap_cons, patch_append, length_bytes, Nat.mul_succ, Nat.add_comm (w * i),
        ← Nat.add_assoc, ih _ _ others i (by simpa using inside), List.getElem_cons_succ]

/-! ### Bits -/

/-- The byte in which only bit `i % 8` is set. -/
def mask (i : ℕ) : UInt8 := UInt8.ofNat (1 <<< (i % 8))

def bit (b : Buffer) (i : ℕ) : Bool := b (i / 8) &&& mask i != 0

def setBit (b : Buffer) (i : ℕ) : Buffer := fun j => if j = i / 8 then b j ||| mask i else b j

def clearBit (b : Buffer) (i : ℕ) : Buffer := fun j => if j = i / 8 then b j &&& ~~~mask i else b j

theorem toBitVec_mask (i : ℕ) : (mask i).toBitVec = BitVec.twoPow 8 (i % 8) := by
  rw [mask, UInt8.toBitVec_ofNat']
  refine BitVec.eq_of_toNat_eq ?_
  simp [BitVec.toNat_twoPow, Nat.shiftLeft_eq]

theorem bit_eq (b : Buffer) (i : ℕ) : bit b i = (b (i / 8)).toBitVec.getLsbD (i % 8) := by
  have small : i % 8 < 8 := Nat.mod_lt _ (by decide)
  have same : bit b i = ((b (i / 8)).toBitVec &&& BitVec.twoPow 8 (i % 8) != 0#8) := by
    rw [bit, ← toBitVec_mask, ← UInt8.toBitVec_and, Bool.eq_iff_iff, bne_iff_ne, bne_iff_ne,
      ne_eq, ne_eq, ← UInt8.toBitVec_inj, UInt8.toBitVec_zero]
  rw [same, BitVec.and_twoPow]
  cases (b (i / 8)).toBitVec.getLsbD (i % 8) with
  | false => simp
  | true =>
    have there : BitVec.twoPow 8 (i % 8) ≠ 0#8 := by
      intro zero
      have bit := congrArg (BitVec.getLsbD · (i % 8)) zero
      simp [small] at bit
    simpa using there

@[simp] theorem bit_setBit (b : Buffer) (i j : ℕ) :
    bit (setBit b i) j = (bit b j || decide (i = j)) := by
  have small : j % 8 < 8 := Nat.mod_lt _ (by decide)
  rw [bit_eq, bit_eq, setBit]
  by_cases same : j / 8 = i / 8
  · rw [if_pos same, UInt8.toBitVec_or, BitVec.getLsbD_or, toBitVec_mask, BitVec.getLsbD_twoPow]
    congr 1
    simp only [Nat.mod_lt i (show 0 < 8 by decide), decide_true, Bool.true_and, decide_eq_decide]
    omega
  · rw [if_neg same, decide_eq_false (by rintro rfl; exact same rfl), Bool.or_false]

@[simp] theorem bit_clearBit (b : Buffer) (i j : ℕ) :
    bit (clearBit b i) j = (bit b j && decide (i ≠ j)) := by
  have small : j % 8 < 8 := Nat.mod_lt _ (by decide)
  rw [bit_eq, bit_eq, clearBit]
  by_cases same : j / 8 = i / 8
  · rw [if_pos same, UInt8.toBitVec_and, UInt8.toBitVec_not, BitVec.getLsbD_and,
      BitVec.getLsbD_not, toBitVec_mask, BitVec.getLsbD_twoPow]
    congr 1
    simp only [Nat.mod_lt i (show 0 < 8 by decide), small, decide_true, Bool.true_and,
      ← decide_not, decide_eq_decide]
    omega
  · rw [if_neg same, decide_eq_true (by rintro rfl; exact same rfl), Bool.and_true]

/-! ### Blocks one behind the other -/

/-- The buffer made of the blocks `l`, of `size` bytes each. -/
def paged (size : ℕ) (block : ℕ → Buffer) (l : List ℕ) : Buffer := fun i =>
  block (l.getD (i / size) 0) (i % size)

section Paged

variable {size : ℕ} {block block' : ℕ → Buffer} {l r : List ℕ} {piece : List UInt8}

/-- A position behind another one, as long as it is in the same block. -/
theorem div_mod_add (fits : off % size + m < size) :
    (off + m) / size = off / size ∧ (off + m) % size = off % size + m := by
  have positive : 0 < size := by omega
  have split : off + m = off % size + m + size * (off / size) := by
    have := Nat.mod_add_div off size
    omega
  rw [split, Nat.add_mul_div_left _ _ positive, Nat.add_mul_mod_self_left,
    Nat.div_eq_of_lt fits, Nat.mod_eq_of_lt fits]
  exact ⟨Nat.zero_add _, rfl⟩

theorem slice_paged (fits : off % size + m ≤ size) :
    slice (paged size block l) off m = slice (block (l.getD (off / size) 0)) (off % size) m := by
  refine List.map_congr_left fun i member => ?_
  have inside := List.mem_range.mp member
  have place : (off + i) / size = off / size ∧ (off + i) % size = off % size + i :=
    div_mod_add (by omega)
  rw [paged, place.1, place.2]

/-- **A patch in one block is a patch of the whole.** -/
theorem paged_patch (inside : off / size < l.length) (nodup : l.Nodup) (nonzero : 0 ∉ l)
    (fits : off % size + piece.length ≤ size) :
    paged size (Function.update block (l.getD (off / size) 0)
        (patch (block (l.getD (off / size) 0)) (off % size) piece)) l =
      patch (paged size block l) off piece := by
  funext i
  have place : l.getD (off / size) 0 = l[off / size] := List.getD_eq_getElem _ _ inside
  by_cases here : i / size = off / size
  · have split := Nat.div_add_mod i size
    have split' := Nat.div_add_mod off size
    rw [here] at split
    rw [paged, here, Function.update_self, patch, patch, paged, here]
    by_cases before : off ≤ i
    · rw [if_pos before, if_pos (by omega), show i % size - off % size = i - off by omega]
    · rw [if_neg before, if_neg (by omega)]
  · have other : l.getD (i / size) 0 ≠ l.getD (off / size) 0 := by
      rw [place]
      by_cases listed : i / size < l.length
      · rw [List.getD_eq_getElem _ _ listed]
        exact fun same => here ((nodup.getElem_inj_iff).mp same)
      · rw [List.getD_eq_default _ _ (Nat.le_of_not_lt listed)]
        exact fun zero => nonzero (zero ▸ List.getElem_mem inside)
    rw [paged, Function.update_of_ne other]
    have outside : i < off ∨ off + piece.length ≤ i := by
      by_contra within
      rw [not_or, Nat.not_lt, Nat.not_le] at within
      obtain ⟨k, rfl⟩ := Nat.exists_eq_add_of_le within.1
      exact here (div_mod_add (by omega)).1
    rcases outside with before | behind
    · rw [patch_of_lt before, paged]
    · rw [patch_of_le behind, paged]

theorem paged_congr (same : ∀ a ∈ l, block' a = block a) {i : ℕ} (inside : i / size < l.length) :
    paged size block' l i = paged size block l i := by
  rw [paged, paged, same]
  rw [List.getD_eq_getElem _ _ inside]
  exact List.getElem_mem inside

theorem paged_append {i : ℕ} (inside : i / size < l.length) :
    paged size block (l ++ r) i = paged size block l i := by
  rw [paged, paged, List.getD_append _ _ _ _ inside]

end Paged

end Bytes
