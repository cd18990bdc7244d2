/-
**xv6 `fs.c`: files are bytes.**

A file of the blocks `l` is the buffer `paged bsize block l`. The loops of `readi` and `writei` copy
in one round what is in one block.

* `Maps.readLoop` — **`readi` copies the bytes of the file**, from block to block.
* `blocksFor`, `needs` — the blocks for so many bytes, and those that a file takes to grow, its
  indirect block with them.
* `Written` — what a part of the loop of `writei` leaves: the list of blocks has grown by `more`, the
  bytes are there and all other bytes of the file are as they were.
* `Maps.writeLoop` — **`writei` writes the bytes of the file**, by induction on the rounds
  (`Maps.round`); it panics exactly if there are fewer free blocks than it needs.
-/

import SistemasOperacionais.Xv6.FsBlocks

namespace Xv6

namespace Fs

open Bytes

variable {s t : State} {b inum off : ℕ} {ip ip' : Dinode} {own : ℕ → Finset ℕ} {l more : List ℕ}
  {src : List UInt8}

/-! ### Rounds of the loops -/

theorem bsize_pos : 0 < bsize := by decide

theorem chunk_le (off left : ℕ) : chunk off left ≤ left := Nat.min_le_left _ _

theorem chunk_fits (off left : ℕ) : off % bsize + chunk off left ≤ bsize := by
  have small := Nat.mod_lt off bsize_pos
  have := Nat.min_le_right left (bsize - off % bsize)
  rw [chunk]
  omega

theorem chunk_pos {left : ℕ} (positive : 0 < left) : 0 < chunk off left := by
  have small := Nat.mod_lt off bsize_pos
  rw [chunk]
  omega

theorem div_lt_of_lt_mul {i k : ℕ} (inside : i < k * bsize) : i / bsize < k :=
  (Nat.div_lt_iff_lt_mul bsize_pos).mpr inside

/-- **`readi` copies the bytes of the file.** -/
theorem Maps.readLoop (maps : Maps s.block ip l) (fuel : ℕ) {left : ℕ} (enough : left ≤ fuel)
    (inside : off + left ≤ l.length * bsize) :
    readLoop fuel s ip off left = .ok (slice (paged bsize s.block l) off left, ip, s) := by
  induction fuel generalizing off left with
  | zero =>
    rw [Nat.le_zero.mp enough]
    rfl
  | succ fuel ih =>
    by_cases none : left = 0
    · rw [none, Fs.readLoop, if_pos rfl, slice_zero]
    · have positive := Nat.pos_of_ne_zero none
      have listed : off / bsize < l.length := div_lt_of_lt_mul (by omega)
      have step : 0 < chunk off left := chunk_pos positive
      have whole := chunk_le off left
      have rest := @ih (off + chunk off left) (left - chunk off left) (by omega) (by omega)
      rw [Fs.readLoop, if_neg none]
      simp only [maps.bmap_of_lt listed, bind, Except.bind, rest, pure, Except.pure]
      rw [← List.getD_eq_getElem l 0 listed, ← slice_paged (chunk_fits off left), ← slice_add,
        Nat.add_sub_cancel' whole]

/-- How many blocks hold so many bytes. -/
def blocksFor (n : ℕ) : ℕ := (n + bsize - 1) / bsize

/-- How many blocks a file of `k` blocks takes to have `k'`. -/
def needs (k k' : ℕ) : ℕ := (k' - k) + if k ≤ ndirect ∧ ndirect < k' then 1 else 0

theorem needs_self (k : ℕ) : needs k k = 0 := by
  rw [needs, Nat.sub_self, if_neg (by omega)]

theorem needs_succ (k : ℕ) : needs k (k + 1) = need k := by
  rw [needs, need]
  split <;> split <;> omega

theorem needs_add {k k' k'' : ℕ} (first : k ≤ k') (second : k' ≤ k'') :
    needs k k' + needs k' k'' = needs k k'' := by
  simp only [needs]
  split <;> split <;> split <;> omega

/-! ### Writing -/

/-- The next block of a file is one that it has, or a new one behind them. -/
theorem Maps.bmap (maps : Maps s.block ip l) (accounts : Accounts s own)
    (mine : own inum = owned ip l) {bn : ℕ} (next : bn ≤ l.length) (room : bn < maxFile) :
    (freeBlocks s).card < needs l.length (max l.length (bn + 1)) ∧
        bmap s ip bn = .error .outOfBlocks ∨
      ∃ more ip' t, (l ++ more).length = max l.length (bn + 1) ∧
        bmap s ip bn = .ok ((l ++ more).getD bn 0, ip', t) ∧
        Grows s t own inum ip ip' l more (needs l.length (max l.length (bn + 1))) := by
  rcases Nat.lt_or_eq_of_le next with inside | rfl
  · have same : max l.length (bn + 1) = l.length := by omega
    refine .inr ⟨[], ip, s, by simp [same], ?_, ?_⟩
    · rw [List.append_nil, List.getD_eq_getElem _ _ inside, maps.bmap_of_lt inside]
    · rw [same, needs_self]
      refine ⟨by rwa [List.append_nil], ?_, rfl, fun _ => rfl, .refl s _, rfl, fun _ _ => rfl⟩
      rwa [List.append_nil, ← mine, Function.update_eq_self]
  · have same : max l.length (l.length + 1) = l.length + 1 := by omega
    rw [same, needs_succ]
    refine (maps.bmap_grow accounts mine room).imp_right ?_
    rintro ⟨b, ip', t, ran, grows⟩
    refine ⟨[b], ip', t, by simp, ?_, grows⟩
    rw [ran, getD_concat, if_pos rfl]

/-- The blocks in which the bytes from `off` on are. -/
def pages (l : List ℕ) (off n : ℕ) : Set ℕ :=
  {b | ∃ i, off ≤ i ∧ i < off + n ∧ l.getD (i / bsize) 0 = b}

/-- What a loop of `writei` leaves. -/
structure Written (s t : State) (own : ℕ → Finset ℕ) (inum : ℕ) (ip ip' : Dinode) (l more : List ℕ)
    (off : ℕ) (src : List UInt8) : Prop where
  length : (l ++ more).length = max l.length (blocksFor (off + src.length))
  maps : Maps t.block ip' (l ++ more)
  accounts : Accounts t (Function.update own inum (owned ip' (l ++ more)))
  info : ip' = { ip with addrs := ip'.addrs }
  index : ip.indirect ≠ 0 → ip'.indirect = ip.indirect
  logs : Logs s t (touches s.sb ip' (pages (l ++ more) off src.length))
  free : (freeBlocks t).card + needs l.length (l ++ more).length = (freeBlocks s).card
  bytes : ∀ i, i < off + src.length ∨ i < l.length * bsize →
    paged bsize t.block (l ++ more) i = patch (paged bsize s.block l) off src i
  logged : ∀ b ∈ pages (l ++ more) off src.length, ∃ data, (b, data) ∈ t.writes

theorem blocksFor_le {n k : ℕ} : blocksFor n ≤ k ↔ n ≤ k * bsize := by
  rw [blocksFor, Nat.div_le_iff_le_mul_add_pred bsize_pos, Nat.mul_comm bsize]
  have := bsize_pos
  omega

theorem pages_append (l : List ℕ) (off m n : ℕ) :
    pages l off (m + n) = pages l off m ∪ pages l (off + m) n := by
  ext b
  constructor
  · rintro ⟨i, lower, upper, rfl⟩
    rcases Nat.lt_or_ge i (off + m) with before | behind
    · exact .inl ⟨i, lower, before, rfl⟩
    · exact .inr ⟨i, behind, by omega, rfl⟩
  · rintro (⟨i, lower, upper, rfl⟩ | ⟨i, lower, upper, rfl⟩)
    · exact ⟨i, lower, by omega, rfl⟩
    · exact ⟨i, by omega, by omega, rfl⟩

/-- More blocks behind change nothing for the bytes before. -/
theorem pages_concat (inside : off + n ≤ l.length * bsize) :
    pages (l ++ more) off n = pages l off n := by
  ext b
  refine exists_congr fun i => and_congr_right fun _ => and_congr_right fun upper => ?_
  rw [List.getD_append _ _ _ _ (div_lt_of_lt_mul (by omega))]

theorem pages_block {n : ℕ} (fits : off % bsize + n ≤ bsize) (positive : 0 < n) :
    pages l off n = {l.getD (off / bsize) 0} := by
  ext b
  constructor
  · rintro ⟨i, lower, upper, rfl⟩
    obtain ⟨k, rfl⟩ := Nat.exists_eq_add_of_le lower
    rw [(div_mod_add (by omega) : (off + k) / bsize = off / bsize ∧ _).1]
    rfl
  · rintro rfl
    exact ⟨off, le_rfl, by omega, rfl⟩

theorem touches_mono {sb : Superblock} {data data' : Set ℕ} (subset : data ⊆ data')
    (index : ip.indirect ≠ 0 → ip'.indirect = ip.indirect) :
    touches sb ip data ⊆ touches sb ip' data' := by
  rintro b (map | inside | ⟨rfl, there⟩)
  · exact .inl map
  · exact .inr (.inl (subset inside))
  · exact .inr (.inr ⟨(index there).symm, there⟩)

theorem Logs.writes_subset {touch : Set ℕ} (logs : Logs s t touch) {write : ℕ × Buffer}
    (member : write ∈ s.writes) : write ∈ t.writes := by
  obtain ⟨more, writes, -, -⟩ := logs.calls
  rw [writes]
  exact List.mem_append_right _ member

/-- Where nothing is patched, only what is below counts. -/
theorem patch_congr {b c : Buffer} {i : ℕ} (same : i < off ∨ off + src.length ≤ i → b i = c i) :
    patch b off src i = patch c off src i := by
  by_cases inside : off ≤ i ∧ i < off + src.length
  · obtain ⟨k, rfl⟩ := Nat.exists_eq_add_of_le inside.1
    rw [patch_add k (by omega), patch_add k (by omega)]
  · have outside : i < off ∨ off + src.length ≤ i := by omega
    have equal := same outside
    rcases outside with before | behind
    · rw [patch_of_lt before, patch_of_lt before, equal]
    · rw [patch_of_le behind, patch_of_le behind, equal]

/-- **One block is written.** -/
theorem Maps.copyIn (maps : Maps s.block ip l) (accounts : Accounts s own)
    (mine : own inum = owned ip l) (listed : off / bsize < l.length)
    (fits : off % bsize + src.length ≤ bsize) (positive : 0 < src.length) :
    Written s (copyIn s (l.getD (off / bsize) 0) off src) own inum ip ip l [] off src := by
  have member : l.getD (off / bsize) 0 ∈ l := by
    rw [List.getD_eq_getElem _ _ listed]
    exact List.getElem_mem listed
  have owner : l.getD (off / bsize) 0 ∈ own inum := mine ▸ mem_owned member
  have there := accounts.ne_zero owner
  have outside := not_mem_map_of_mem accounts owner
  have written := logs_logWrite s (patch (s.block (l.getD (off / bsize) 0)) (off % bsize) src)
    (Set.mem_singleton (l.getD (off / bsize) 0))
  have notMap : ∀ b ∈ ({l.getD (off / bsize) 0} : Set ℕ), b ∉ s.sb.map := by
    rintro b rfl
    exact outside
  have pages_eq : pages l off src.length = {l.getD (off / bsize) 0} := pages_block fits positive
  rw [Fs.copyIn]
  refine ⟨?_, ?_, ?_, rfl, fun _ => rfl, ?_, ?_, fun i _ => ?_, ?_⟩
  · have last : off + src.length ≤ l.length * bsize := by
      have split := Nat.div_add_mod' off bsize
      have more := Nat.mul_le_mul_right bsize (Nat.succ_le_of_lt listed)
      rw [Nat.succ_mul] at more
      omega
    have := blocksFor_le.mpr last
    rw [List.append_nil]
    omega
  · rw [List.append_nil]
    refine maps.congr fun _ => written.block_eq ?_
    exact fun same => maps.apart (same ▸ member)
  · rw [List.append_nil, ← mine, Function.update_eq_self]
    refine accounts.logs written ?_ notMap
    have positive := accounts.valid.one_lt
    have := (accounts.range inum _ owner).1
    rw [Set.mem_singleton_iff]
    omega
  · rw [List.append_nil, pages_eq]
    exact written.mono fun b inside => .inr (.inl inside)
  · rw [List.append_nil, needs_self, written.freeBlocks_eq accounts.valid notMap, Nat.add_zero]
  · rw [List.append_nil, ← paged_patch listed maps.nodup maps.nonzero fits]
    rfl
  · rw [List.append_nil, pages_eq]
    rintro b rfl
    exact ⟨_, List.mem_cons_self⟩

/-- Two pieces one behind the other. -/
theorem Written.trans {s' : State} {ip'' : Dinode} {rest : List UInt8} {more' : List ℕ} {behind : ℕ}
    (first : Written s s' own inum ip ip' l more off src)
    (second : Written s' t (Function.update own inum (owned ip' (l ++ more))) inum ip' ip''
      (l ++ more) more' behind rest) (place : behind = off + src.length) :
    Written s t own inum ip ip'' l (more ++ more') off (src ++ rest) := by
  subst place
  have short : off + src.length ≤ (l ++ more).length * bsize :=
    blocksFor_le.mp (by rw [first.length]; omega)
  have pages_eq : pages (l ++ (more ++ more')) off (src ++ rest).length =
      pages (l ++ more) off src.length ∪
        pages (l ++ more ++ more') (off + src.length) rest.length := by
    rw [← List.append_assoc, List.length_append, pages_append, pages_concat short]
  refine ⟨?_, ?_, ?_, ?_, fun there => ?_, ?_, ?_, fun i inside => ?_, ?_⟩
  · have grown := second.length
    rw [first.length] at grown
    have monotone : blocksFor (off + src.length) ≤ blocksFor (off + src.length + rest.length) :=
      Nat.div_le_div_right (by omega)
    rw [← List.append_assoc, grown, List.length_append, ← Nat.add_assoc]
    omega
  · rw [← List.append_assoc]
    exact second.maps
  · have accounts := second.accounts
    rwa [Function.update_idem, List.append_assoc] at accounts
  · rw [second.info, first.info]
  · have index := first.index there
    rw [second.index (index ▸ there), index]
  · rw [pages_eq]
    refine (first.logs.mono (touches_mono Set.subset_union_left second.index)).trans ?_
    rw [← first.logs.sb]
    exact second.logs.mono (touches_mono Set.subset_union_right fun _ => rfl)
  · have sum : needs l.length (l ++ more).length +
        needs (l ++ more).length (l ++ more ++ more').length =
          needs l.length (l ++ more ++ more').length := needs_add (by simp) (by simp)
    have := first.free
    have := second.free
    rw [← List.append_assoc]
    omega
  · have longer : l.length * bsize ≤ (l ++ more).length * bsize :=
      Nat.mul_le_mul_right _ (by simp)
    rw [List.length_append] at inside
    rw [← List.append_assoc, second.bytes i (by omega), patch_append]
    refine patch_congr fun outside => first.bytes i ?_
    omega
  · rw [pages_eq]
    rintro b (inside | inside)
    · obtain ⟨data, member⟩ := first.logged b inside
      exact ⟨data, second.logs.writes_subset member⟩
    · exact second.logged b inside

/-- A block is allocated, and then bytes are written in it and behind it. -/
theorem Grows.written {s' : State} {ip'' : Dinode} {more' : List ℕ}
    (grows : Grows s s' own inum ip ip' l more (needs l.length (l ++ more).length))
    (start : off ≤ l.length * bsize)
    (used : ∀ b ∈ more, b ∈ pages (l ++ more ++ more') off src.length)
    (longer : (l ++ more).length ≤ max l.length (blocksFor (off + src.length)))
    (second : Written s' t (Function.update own inum (owned ip' (l ++ more))) inum ip' ip''
      (l ++ more) more' off src) :
    Written s t own inum ip ip'' l (more ++ more') off src := by
  refine ⟨?_, ?_, ?_, ?_, fun there => ?_, ?_, ?_, fun i inside => ?_, ?_⟩
  · have grown := second.length
    rw [List.length_append] at longer
    rw [← List.append_assoc, grown, List.length_append]
    omega
  · rw [← List.append_assoc]
    exact second.maps
  · have accounts := second.accounts
    rwa [Function.update_idem, List.append_assoc] at accounts
  · rw [second.info, grows.info]
  · have index := grows.index there
    rw [second.index (index ▸ there), index]
  · rw [← List.append_assoc]
    refine (grows.logs.mono (touches_mono used second.index)).trans ?_
    rw [← grows.logs.sb]
    exact second.logs
  · have sum : needs l.length (l ++ more).length +
        needs (l ++ more).length (l ++ more ++ more').length =
          needs l.length (l ++ more ++ more').length := needs_add (by simp) (by simp)
    have := grows.free
    have := second.free
    rw [← List.append_assoc]
    omega
  · have longer : l.length * bsize ≤ (l ++ more).length * bsize :=
      Nat.mul_le_mul_right _ (by simp)
    rw [← List.append_assoc, second.bytes i (by omega)]
    refine patch_congr fun outside => ?_
    have before : i / bsize < l.length := div_lt_of_lt_mul (by omega)
    rw [paged_append before, paged_congr grows.kept before]
  · rw [← List.append_assoc]
    exact second.logged

theorem written_nil (maps : Maps s.block ip l) (accounts : Accounts s own)
    (mine : own inum = owned ip l) (start : off ≤ l.length * bsize) :
    Written s s own inum ip ip l [] off [] := by
  refine ⟨?_, by rwa [List.append_nil], ?_, rfl, fun _ => rfl, .refl s _, ?_, fun i _ => ?_, ?_⟩
  · have := blocksFor_le.mpr start
    rw [List.append_nil, List.length_nil, Nat.add_zero]
    omega
  · rwa [List.append_nil, ← mine, Function.update_eq_self]
  · rw [List.append_nil, needs_self, Nat.add_zero]
  · rw [List.append_nil, patch_nil]
  · rintro b ⟨i, lower, upper, -⟩
    rw [List.length_nil] at upper
    omega

theorem needs_mono (k : ℕ) {k' k'' : ℕ} (order : k' ≤ k'') : needs k k' ≤ needs k k'' := by
  rw [needs, needs]
  split <;> split <;> omega

/-- The block that `bmap` has added is the one that is written. -/
theorem mem_pages_of_new {n bn : ℕ} (place : off / bsize = bn) (next : bn ≤ l.length)
    (length : (l ++ more).length = max l.length (bn + 1)) (positive : 0 < n) (more' : List ℕ) :
    ∀ b ∈ more, b ∈ pages (l ++ more ++ more') off n := by
  intro b member
  obtain ⟨k, small, rfl⟩ := List.getElem_of_mem member
  rw [List.length_append] at length
  obtain rfl : k = 0 := by omega
  refine ⟨off, le_rfl, by omega, ?_⟩
  rw [place, List.append_assoc, List.getD_append_right _ _ _ _ (by omega),
    List.getD_append _ _ _ _ (by omega), show bn - l.length = 0 by omega,
    List.getD_eq_getElem _ _ small]

theorem blocksFor_block {n : ℕ} (fits : off % bsize + n ≤ bsize) (positive : 0 < n) :
    blocksFor (off + n) = off / bsize + 1 := by
  have split := Nat.div_add_mod' off bsize
  refine Nat.le_antisymm (blocksFor_le.mpr ?_) ?_
  · rw [Nat.succ_mul]
    omega
  · by_contra less
    have := blocksFor_le.mp (Nat.le_of_lt_succ (Nat.lt_of_not_le less))
    omega

/-- **One round of the loop.** -/
theorem Maps.round (maps : Maps s.block ip l) (accounts : Accounts s own)
    (mine : own inum = owned ip l) (start : off ≤ l.length * bsize)
    (fits : off % bsize + src.length ≤ bsize) (positive : 0 < src.length)
    (bound : off / bsize < maxFile) :
    (freeBlocks s).card < needs l.length (max l.length (blocksFor (off + src.length))) ∧
        Fs.bmap s ip (off / bsize) = .error .outOfBlocks ∨
      ∃ more ip' s', Fs.bmap s ip (off / bsize) = .ok ((l ++ more).getD (off / bsize) 0, ip', s') ∧
        Written s (Fs.copyIn s' ((l ++ more).getD (off / bsize) 0) off src) own inum ip ip' l more off
          src := by
  have next : off / bsize ≤ l.length := by
    rw [Nat.div_le_iff_le_mul_add_pred bsize_pos, Nat.mul_comm]
    omega
  rw [blocksFor_block fits positive]
  refine (maps.bmap accounts mine next bound).imp_right ?_
  rintro ⟨more, ip', s', length, ran, grows⟩
  refine ⟨more, ip', s', ran, ?_⟩
  have copied := grows.maps.copyIn grows.accounts (Function.update_self _ _ _)
    (by rw [length]; omega) fits positive
  have both := Grows.written (length ▸ grows) start
    (mem_pages_of_new rfl next length positive [])
    (by rw [length, blocksFor_block fits positive]) copied
  rwa [List.append_nil] at both

/-- **`writei` writes the bytes of the file**; it panics exactly if there are too few free blocks. -/
theorem Maps.writeLoop (maps : Maps s.block ip l) (accounts : Accounts s own)
    (mine : own inum = owned ip l) (fuel : ℕ) (enough : src.length ≤ fuel)
    (start : off ≤ l.length * bsize) (room : off + src.length ≤ maxFile * bsize) :
    (freeBlocks s).card < needs l.length (max l.length (blocksFor (off + src.length))) ∧
        writeLoop fuel s ip off src = .error .outOfBlocks ∨
      ∃ more ip' t, writeLoop fuel s ip off src = .ok (ip', t) ∧
        Written s t own inum ip ip' l more off src := by
  induction fuel generalizing s ip l own off src with
  | zero =>
    obtain rfl := List.eq_nil_of_length_eq_zero (Nat.le_zero.mp enough)
    exact .inr ⟨[], ip, s, rfl, written_nil maps accounts mine start⟩
  | succ fuel ih =>
    by_cases none : src = []
    · subst none
      exact .inr ⟨[], ip, s, by rw [Fs.writeLoop, if_pos rfl], written_nil maps accounts mine start⟩
    have positive : 0 < src.length := List.length_pos_of_ne_nil none
    have small := chunk_le off src.length
    have step : 0 < chunk off src.length := chunk_pos positive
    have taken : (src.take (chunk off src.length)).length = chunk off src.length :=
      List.length_take_of_le small
    have monotone : blocksFor (off + chunk off src.length) ≤ blocksFor (off + src.length) :=
      Nat.div_le_div_right (by omega)
    rcases maps.round accounts mine start (taken.symm ▸ chunk_fits off src.length)
      (taken.symm ▸ step) (div_lt_of_lt_mul (by omega)) with ⟨few, ran⟩ | ⟨more, ip₁, s₁, ran, first⟩
    · rw [taken] at few
      refine .inl ⟨few.trans_le (needs_mono _ (by omega)), ?_⟩
      rw [Fs.writeLoop, if_neg none]
      simp only [ran, bind, Except.bind]
    have length := first.length
    rw [taken] at length
    have behind : off + chunk off src.length + (src.drop (chunk off src.length)).length =
        off + src.length := by
      rw [List.length_drop]
      omega
    have enough' : (src.drop (chunk off src.length)).length ≤ fuel := by
      rw [List.length_drop]
      omega
    have start' : off + chunk off src.length ≤ (l ++ more).length * bsize :=
      blocksFor_le.mp (by rw [length]; omega)
    have round : Fs.writeLoop (fuel + 1) s ip off src =
        Fs.writeLoop fuel (Fs.copyIn s₁ ((l ++ more).getD (off / bsize) 0) off
          (src.take (chunk off src.length))) ip₁ (off + chunk off src.length)
          (src.drop (chunk off src.length)) := by
      rw [Fs.writeLoop, if_neg none]
      simp only [ran, bind, Except.bind]
    have whole : max (l ++ more).length (blocksFor (off + src.length)) =
        max l.length (blocksFor (off + src.length)) := by omega
    rw [round]
    rcases ih first.maps first.accounts (Function.update_self _ _ _) enough' start' (by omega) with
      ⟨few, ran'⟩ | ⟨more', ip₂, t, ran', second⟩
    · refine .inl ⟨?_, ran'⟩
      rw [behind, whole] at few
      have sum : needs l.length (l ++ more).length +
          needs (l ++ more).length (max l.length (blocksFor (off + src.length))) =
            needs l.length (max l.length (blocksFor (off + src.length))) :=
        needs_add (by simp) (by omega)
      have := first.free
      omega
    · have both := first.trans second (by rw [taken])
      rw [List.take_append_drop] at both
      exact .inr ⟨more ++ more', ip₂, t, ran', both⟩

end Fs

end Xv6
