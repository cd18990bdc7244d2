/-
**`funcoes_ex.cpp`: what one call does to the blocks.**

* `retira_first`, `retira_later` — `meu_aloca` at the first free block and at a later one: the
  memory and `listaLivres` it leaves. At the first one a perfect fit leaves `listaLivres` NULL.
* `procura_found`, `posicao_found` — where the loops of `meu_aloca` and `meu_libera` stop.
* `meuAloca_kept`, `meuLibera_kept` — **both calls keep the invariant of the memory, and say which
  blocks are free afterwards**; the first one unless the free blocks behind the first are lost.
* `merge_near`, `merge_far` — `merge` joins two neighbours on the list if they are contiguous, and
  changes nothing otherwise.
-/

import SistemasOperacionais.FuncoesEx.Heap

namespace FuncoesEx

open Headers

variable {size : ℤ}

/-! ### Allocation -/

/-- The remainder of a block of `t` bytes at `a`, unless the fit is perfect. -/
def resto (size a t tam : ℤ) : Option Block :=
  if t = size + tam then none else some (novoBloco size a tam, t - size - tam)

/-- The `tam` of the block after it is taken: a perfect fit keeps its own. -/
def tomado (size t tam : ℤ) : ℤ := if t = size + tam then t else tam

/-- Store the header of the block split off. -/
def place (size : ℤ) (memory : Memory Header) (r : List Block) : Option Block → Memory Header
  | none => memory
  | some novo => store size memory novo.1 ⟨novo.2, first r none⟩

theorem Pool.cut {a t tam : ℤ} {rest : List Block} (pool : Pool size ((a, t) :: rest))
    (positive : 0 < size) (asked : 0 < tam) (large : tam + size ≤ t) :
    Pool size ((a, tomado size t tam) :: ((resto size a t tam).toList ++ rest)) := by
  unfold resto tomado
  by_cases fits : t = size + tam
  · simpa [fits] using pool
  · simpa [fits] using pool.split positive asked (by omega)

theorem total_cut (size a t tam : ℤ) :
    tomado size t tam + size + total size (resto size a t tam).toList = t + size := by
  unfold resto tomado
  by_cases fits : t = size + tam
  · simp [fits]
  · simp only [fits, if_false, Option.toList_some, total_cons, total_nil]
    ring

theorem place_apart {memory : Memory Header} {r : List Block} {rest : Option Block} {y : ℤ}
    (positive : 0 < size) (away : ∀ novo ∈ rest.toList, Apart size novo.1 y) :
    place size memory r rest y = memory y := by
  cases rest with
  | none => rfl
  | some novo => exact store_apart positive (away novo (by simp))

/-- With the taken block's header cleared and the rest placed, the rest is linked before the blocks
that followed, and the taken block is used. -/
theorem taken {memory : Memory Header} {r used : List Block} {rest : Option Block} {a t' : ℤ}
    (chain : Chain Header.linked memory none r none)
    (headers : ∀ block ∈ used, memory block.1 = some ⟨block.2, none⟩) (positive : 0 < size)
    (pool : Pool size ((a, t') :: (rest.toList ++ (r ++ used)))) :
    Chain Header.linked (store size (place size memory r rest) a ⟨t', none⟩) none
        (rest.toList ++ r) none ∧
      ∀ block ∈ used ++ [(a, t')],
        store size (place size memory r rest) a ⟨t', none⟩ block.1 = some ⟨block.2, none⟩ := by
  have away := pool.apart positive
  have behind := pool.tail.across positive
  refine ⟨?_, fun block member => ?_⟩
  · refine Chain.store ?_ positive fun block member => away block ?_
    · cases rest with
      | none => exact chain
      | some novo =>
        exact ⟨store_self, chain_prev <| chain.store positive fun block member =>
          behind novo (by simp) block (List.mem_append_left _ member)⟩
    · rw [← List.append_assoc]
      exact List.mem_append_left _ member
  · rcases List.mem_append.mp member with member | here
    · rw [store_apart positive (away block (by simp [member])),
        place_apart positive fun novo inRest =>
          behind novo inRest block (List.mem_append_right _ member)]
      exact headers block member
    · obtain rfl := List.mem_singleton.mp here
      exact store_self

section Retira

variable {s : State} {l r used : List Block} {a t b u tam : ℤ}

/-- **`meu_aloca` at the first free block**: a perfect fit leaves `listaLivres` NULL. -/
theorem retira_first (heap : Heap size s ((a, t) :: r) used) (positive : 0 < size)
    (asked : 0 < tam) (large : tam + size ≤ t) :
    retira size s a a tam = some (a + size,
      ⟨store size (place size (store size s.memory a
          ⟨t, first ((resto size a t tam).toList ++ r) none⟩) r (resto size a t tam)) a
          ⟨tomado size t tam, none⟩,
        first (resto size a t tam).toList none⟩) := by
  have here : s.memory a = some ⟨t, first r none⟩ := heap.lists.2.1
  have head : some a = s.listaLivres := heap.lists.1.symm
  have away := (heap.pool.cut positive asked large).apart positive
  unfold resto tomado at away ⊢
  by_cases fits : t = size + tam
  · simp [retira, here, fits, perfeito, Headers.modify, head, place, first]
  · have apart : Apart size (novoBloco size a tam) a :=
      (away (novoBloco size a tam, t - size - tam) (by simp [fits])).symm
    simp [retira, here, fits, ajusta, Headers.modify, head, place, first,
      store_apart positive apart]

/-- **`meu_aloca` further down the list**: the block before it is linked past it. -/
theorem retira_later (heap : Heap size s (l ++ (b, u) :: (a, t) :: r) used) (positive : 0 < size)
    (asked : 0 < tam) (large : tam + size ≤ t)
    (pool : Pool size ((a, t) :: (b, u) :: (l ++ (r ++ used)))) :
    retira size s b a tam = some (a + size,
      ⟨store size (place size (store size s.memory b
          ⟨u, first ((resto size a t tam).toList ++ r) none⟩) r (resto size a t tam)) a
          ⟨tomado size t tam, none⟩, s.listaLivres⟩) := by
  obtain ⟨left, before, right⟩ := heap.parts
  have here : s.memory a = some ⟨t, first r none⟩ := right.1
  have apart : Apart size b a := (pool.apart positive (b, u) (by simp)).symm
  have notFirst : some a ≠ s.listaLivres := by
    rw [heap.lists.1]
    cases l with
    | nil =>
      intro same
      cases same
      unfold Apart at apart
      omega
    | cons block rest =>
      intro same
      have other := pool.apart positive block (by simp)
      cases same
      unfold Apart at other
      omega
  have away := (pool.cut positive asked large).apart positive
  unfold resto tomado at away ⊢
  by_cases fits : t = size + tam
  · simp [retira, here, before, fits, perfeito, Headers.modify, notFirst, place,
      store_apart positive apart]
  · have apartNovo : Apart size (novoBloco size a tam) a :=
      (away (novoBloco size a tam, t - size - tam) (by simp [fits])).symm
    simp [retira, here, before, fits, ajusta, Headers.modify, notFirst, place, first,
      store_apart positive apart, store_apart positive apartNovo]

/-- The first block taken. -/
theorem Heap.takeFirst {t' : ℤ} {rest : Option Block} (header : Header)
    (heap : Heap size s ((a, t) :: r) used) (positive : 0 < size)
    (pool : Pool size ((a, t') :: (rest.toList ++ (r ++ used)))) :
    Heap size ⟨store size (place size (store size s.memory a header) r rest) a ⟨t', none⟩,
      first (rest.toList ++ r) none⟩ (rest.toList ++ r) (used ++ [(a, t')]) := by
  have away := heap.pool.apart positive
  obtain ⟨chain, headers⟩ := taken
    ((chain_prev heap.lists.2.2).store positive fun block member =>
      away block (List.mem_append_left _ member))
    (store_headers heap.headers positive fun block member =>
      away block (List.mem_append_right _ member)) positive pool
  refine ⟨⟨rfl, chain⟩, headers, pool.of_count fun block => ?_⟩
  simp only [List.count_append, List.count_cons, List.count_nil]
  omega

/-- A later block taken. -/
theorem Heap.takeLater {t' : ℤ} {rest : Option Block}
    (heap : Heap size s (l ++ (b, u) :: (a, t) :: r) used) (positive : 0 < size)
    (pool : Pool size ((a, t') :: (rest.toList ++ ((b, u) :: (l ++ (r ++ used)))))) :
    Heap size ⟨store size (place size (store size s.memory b ⟨u, first (rest.toList ++ r) none⟩) r
      rest) a ⟨t', none⟩, s.listaLivres⟩ (l ++ (b, u) :: (rest.toList ++ r))
      (used ++ [(a, t')]) := by
  obtain ⟨left, -, -, right⟩ := heap.parts
  have whole : Pool size ((b, u) :: ((a, t') :: rest.toList ++ (l ++ (r ++ used)))) := by
    refine pool.of_count fun block => ?_
    simp only [List.count_append, List.count_cons]
    omega
  have away := whole.apart positive
  have inside : Pool size ((a, t') :: (rest.toList ++ (r ++ used))) := by
    refine whole.tail.sublist (List.Sublist.cons_cons _ ?_)
    exact List.Sublist.append_left (List.sublist_append_right _ _) _
  obtain ⟨chain, headers⟩ := taken
    ((chain_prev right).store positive fun block member => away block (by simp [member]))
    (store_headers heap.headers positive fun block member => away block (by simp [member]))
    positive inside
  have awayA := pool.apart positive
  have awayRest := pool.tail.across positive
  refine ⟨⟨?_, parts_chain ?_ ?_ chain⟩, headers, pool.of_count fun block => ?_⟩
  · exact heap.lists.1.trans (first_replace ..)
  · refine left.congr fun block member => ?_
    refine (store_apart positive (awayA block (by simp [member]))).trans ?_
    refine (place_apart positive fun novo inRest =>
      awayRest novo inRest block (by simp [member])).trans ?_
    exact store_apart positive (away block (by simp [member]))
  · have apart : Apart size a b := awayA (b, u) (by simp)
    refine (store_apart positive apart).trans ?_
    refine (place_apart positive fun novo inRest => awayRest novo inRest (b, u) (by simp)).trans ?_
    exact store_self
  · simp only [List.count_append, List.count_cons, List.count_nil]
    omega

end Retira

/-- **The loop of `meu_aloca`** stops at a block that is large enough, with `anterior` the block
before it, or `atual` itself at the first one. -/
theorem procura_found {memory : Memory Header} {tam b a : ℤ} {blocks : List Block} {fuel : ℕ}
    {anterior : ℤ} (chain : Chain Header.linked memory none blocks none)
    (found : procura size memory tam fuel anterior (first blocks none) = some (some (b, a))) :
    ∃ l t r, blocks = l ++ (a, t) :: r ∧ tam + size ≤ t ∧
      (l = [] ∧ b = anterior ∨ ∃ before u, l = before ++ [(b, u)]) := by
  induction blocks generalizing fuel anterior with
  | nil => cases fuel <;> simp [procura, first] at found
  | cons block rest ih =>
    obtain ⟨x, v⟩ := block
    obtain ⟨here, chain⟩ := chain
    cases fuel with
    | zero => simp [procura] at found
    | succ fuel =>
      simp only [procura, first, here, Header.linked, Option.bind_eq_bind, Option.bind_some] at found
      split at found
      · obtain ⟨l, t, r, rfl, large, place⟩ := ih (chain_prev chain) found
        refine ⟨(x, v) :: l, t, r, rfl, large, Or.inr ?_⟩
        rcases place with ⟨rfl, rfl⟩ | ⟨before, u, rfl⟩
        · exact ⟨[], v, rfl⟩
        · exact ⟨(x, v) :: before, u, rfl⟩
      · cases found
        exact ⟨[], v, rest, rfl, by omega, Or.inl ⟨rfl, rfl⟩⟩

section Allocation

variable {s s' : State} {free used : List Block} {fuel : ℕ} {tam p : ℤ}

/-- An unsuccessful call changes nothing. -/
theorem meuAloca_refused (call : meuAloca size s fuel tam = some (none, s')) : s' = s := by
  unfold meuAloca at call
  cases head : s.listaLivres with
  | none =>
    rw [head] at call
    cases call
    rfl
  | some primeiro =>
    rw [head] at call
    cases search : procura size s.memory tam fuel primeiro (some primeiro) with
    | none => simp [search] at call
    | some result =>
      cases result with
      | none =>
        simp only [search, Option.bind_eq_bind, Option.bind_some] at call
        cases call
        rfl
      | some pair => simp [search, Option.bind_eq_some_iff] at call

/-- A successful call takes the first free block or a later one. -/
theorem meuAloca_found (heap : Heap size s free used)
    (call : meuAloca size s fuel tam = some (some p, s')) :
    ∃ a t, tam + size ≤ t ∧
      ((∃ r, free = (a, t) :: r ∧ retira size s a a tam = some (p, s')) ∨
        ∃ l b u r, free = l ++ (b, u) :: (a, t) :: r ∧
          retira size s b a tam = some (p, s')) := by
  unfold meuAloca at call
  cases head : s.listaLivres with
  | none => simp [head] at call
  | some primeiro =>
    cases search : procura size s.memory tam fuel primeiro (some primeiro) with
    | none => simp [head, search] at call
    | some result =>
      cases result with
      | none => simp [head, search] at call
      | some pair =>
        obtain ⟨b, a⟩ := pair
        have taken : retira size s b a tam = some (p, s') := by
          simpa [head, search, Option.bind_eq_some_iff] using call
        have start : first free none = some primeiro := heap.lists.1.symm.trans head
        rw [← start] at search
        obtain ⟨l, t, r, rfl, large, place⟩ := procura_found heap.lists.2 search
        refine ⟨a, t, large, ?_⟩
        rcases place with ⟨rfl, rfl⟩ | ⟨before, u, rfl⟩
        · cases start
          exact Or.inl ⟨r, rfl, taken⟩
        · exact Or.inr ⟨before, b, u, r, by simp, taken⟩

/-- **A successful call** takes one block, puts the remainder in its place and leaves the others,
unless it is a perfect fit at the first of several free blocks. -/
theorem meuAloca_kept (heap : Heap size s free used) (positive : 0 < size) (asked : 0 < tam)
    (alone : ∀ a r, free = (a, size + tam) :: r → r = [])
    (call : meuAloca size s fuel tam = some (some p, s')) :
    ∃ l a t r, free = l ++ (a, t) :: r ∧ p = a + size ∧
      Heap size s' (l ++ ((resto size a t tam).toList ++ r)) (used ++ [(a, tomado size t tam)]) := by
  obtain ⟨a, t, large, ⟨r, rfl, taken⟩ | ⟨l, b, u, r, rfl, taken⟩⟩ := meuAloca_found heap call
  · rw [retira_first heap positive asked large] at taken
    cases taken
    refine ⟨[], a, t, r, rfl, rfl, ?_⟩
    have head : first ((resto size a t tam).toList ++ r) none =
        first (resto size a t tam).toList none := by
      unfold resto
      by_cases fits : t = size + tam
      · subst fits
        simp [alone a r rfl]
      · simp [fits, first]
    rw [← head]
    exact heap.takeFirst _ positive (heap.pool.cut positive asked large)
  · have pool : Pool size ((a, t) :: (b, u) :: (l ++ (r ++ used))) := by
      refine heap.pool.of_count fun block => ?_
      simp only [List.count_append, List.count_cons]
      omega
    rw [retira_later heap positive asked large pool] at taken
    cases taken
    refine ⟨l ++ [(b, u)], a, t, r, by simp, rfl, ?_⟩
    rw [List.append_assoc]
    exact heap.takeLater positive (pool.cut positive asked large)

end Allocation

/-! ### Freeing -/

section Freeing

variable {s : State} {memory' : Memory Header} {l r free used : List Block} {x tx y ty : ℤ}

/-- Two blocks are contiguous as `merge` measures it. -/
def Contiguos (size : ℤ) (x y : Block) : Prop := (y.1 - x.1) / size - x.2 - size = 0

instance (size : ℤ) (x y : Block) : Decidable (Contiguos size x y) :=
  inferInstanceAs (Decidable (_ = _))

/-- **`merge`** joins a free block with the next one if they are contiguous. -/
theorem merge_near (heap : Heap size s (l ++ (x, tx) :: (y, ty) :: r) used) (positive : 0 < size)
    (near : Contiguos size (x, tx) (y, ty)) :
    ∃ memory', merge size s.memory x y = some (true, memory') ∧
      Heap size ⟨memory', s.listaLivres⟩ (l ++ (x, size + tx + ty) :: r) used := by
  obtain ⟨left, before, after, right⟩ := heap.parts
  have here : s.memory y = some ⟨ty, first r none⟩ := after
  have next : (y - x) / size - tx - size = 0 := near
  have pool : Pool size ((x, tx) :: (y, ty) :: (l ++ (r ++ used))) := by
    refine heap.pool.of_count fun block => ?_
    simp only [List.count_append, List.count_cons]
    omega
  have away := pool.apart positive
  have start : s.listaLivres = first (l ++ (x, size + tx + ty) :: r) none :=
    heap.lists.1.trans (first_replace ..)
  simp only [merge, before, here, next, Option.bind_eq_bind, Option.bind_some, if_true,
    Headers.modify, Option.map_some, store_self, store_store]
  refine ⟨_, rfl, ⟨start, parts_chain ?_ store_self ?_⟩, ?_, ?_⟩
  · exact left.store positive fun block member => away block (by simp [member])
  · exact (chain_prev right).store positive fun block member => away block (by simp [member])
  · exact store_headers heap.headers positive fun block member => away block (by simp [member])
  · have quotient : (y - x) / size = tx + size := by omega
    have lower := Int.ediv_mul_le (y - x) positive.ne'
    have upper := Int.lt_ediv_add_one_mul_self (y - x) positive
    rw [quotient] at lower upper
    rw [Int.add_mul] at upper
    have joinedPool := pool.join positive (by unfold fim; dsimp only; omega)
      (by unfold fim; dsimp only; omega)
    refine joinedPool.of_count fun block => ?_
    simp only [List.count_append, List.count_cons]
    omega

/-- Otherwise it changes nothing. -/
theorem merge_far (heap : Heap size s (l ++ (x, tx) :: (y, ty) :: r) used)
    (far : ¬ Contiguos size (x, tx) (y, ty)) :
    merge size s.memory x y = some (false, s.memory) := by
  obtain ⟨_, before, _⟩ := heap.parts
  have next : ¬ (y - x) / size - tx - size = 0 := far
  simp only [merge, before, next, Option.bind_eq_bind, Option.bind_some, if_false]

/-- **`merge`** joins a free block with the next one, or changes nothing. -/
theorem merge_cases {joined : Bool} (heap : Heap size s (l ++ (x, tx) :: (y, ty) :: r) used)
    (positive : 0 < size) (call : merge size s.memory x y = some (joined, memory')) :
    joined = false ∧ memory' = s.memory ∨
      joined = true ∧ Heap size ⟨memory', s.listaLivres⟩ (l ++ (x, size + tx + ty) :: r) used := by
  by_cases near : Contiguos size (x, tx) (y, ty)
  · obtain ⟨memory, merged, after⟩ := merge_near heap positive near
    rw [merged] at call
    cases call
    exact Or.inr ⟨rfl, after⟩
  · rw [merge_far heap near] at call
    cases call
    exact Or.inl ⟨rfl, rfl⟩

/-- **The loop of `meu_libera`** stops between two neighbours on the list. -/
theorem posicao_found {memory : Memory Header} {endHeader b c : ℤ} {fuel : ℕ} (tx : ℤ)
    (chain : Chain Header.linked memory none r none)
    (found : posicao memory endHeader fuel x (first r none) = some (b, c)) :
    ∃ before u w after, (x, tx) :: r = before ++ (b, u) :: (c, w) :: after := by
  induction r generalizing fuel x tx with
  | nil => cases fuel <;> simp [posicao, first] at found
  | cons block rest ih =>
    obtain ⟨a, v⟩ := block
    obtain ⟨here, chain⟩ := chain
    cases fuel with
    | zero => simp [posicao] at found
    | succ fuel =>
      simp only [posicao, first, here, Header.linked, Option.bind_eq_bind, Option.bind_some] at found
      split at found
      · obtain ⟨before, u, w, after, split⟩ := ih v (chain_prev chain) found
        exact ⟨(x, tx) :: before, u, w, after, by rw [split]; rfl⟩
      · cases found
        exact ⟨[], tx, v, rest, rfl⟩

variable {l' r' : List Block} {e t : ℤ}

/-- A used block put before the free blocks. -/
theorem Heap.giveFirst (heap : Heap size s free (l' ++ (e, t) :: r')) (positive : 0 < size) :
    Heap size ⟨store size s.memory e ⟨t, first free none⟩, some e⟩ ((e, t) :: free)
      (l' ++ r') := by
  have pool : Pool size ((e, t) :: (free ++ (l' ++ r'))) := by
    refine heap.pool.of_count fun block => ?_
    simp only [List.count_append, List.count_cons]
    omega
  have away := pool.apart positive
  refine ⟨⟨rfl, store_self, ?_⟩, ?_, pool⟩
  · exact chain_prev <| heap.lists.2.store positive fun block member =>
      away block (List.mem_append_left _ member)
  · refine store_headers (fun block member => heap.headers block ?_) positive fun block member =>
      away block (List.mem_append_right _ member)
    rcases List.mem_append.mp member with member | member <;> simp [member]

/-- A used block put behind a free one. -/
theorem Heap.giveLater (heap : Heap size s (l ++ (x, tx) :: r) (l' ++ (e, t) :: r'))
    (positive : 0 < size) :
    Heap size ⟨store size (store size s.memory e ⟨t, first r none⟩) x ⟨tx, some e⟩, s.listaLivres⟩
      (l ++ (x, tx) :: (e, t) :: r) (l' ++ r') := by
  have pool : Pool size ((e, t) :: (x, tx) :: (l ++ (r ++ (l' ++ r')))) := by
    refine heap.pool.of_count fun block => ?_
    simp only [List.count_append, List.count_cons]
    omega
  obtain ⟨left, -, right⟩ := heap.parts
  have away := pool.apart positive
  have awayX := pool.tail.apart positive
  have apart : Apart size x e := (away (x, tx) (by simp)).symm
  refine ⟨⟨?_, parts_chain ?_ store_self ?_⟩, ?_, pool.of_count fun block => ?_⟩
  · exact heap.lists.1.trans (first_replace ..)
  · exact (left.store positive fun block member => away block (by simp [member])).store positive
      fun block member => awayX block (by simp [member])
  · refine ⟨(store_apart positive apart).trans store_self, ?_⟩
    exact ((chain_prev right).store positive fun block member => away block
      (by simp [member])).store positive fun block member => awayX block (by simp [member])
  · refine store_headers (store_headers (fun block member => heap.headers block ?_) positive
      fun block member => away block (List.mem_cons_of_mem _ (by simp [member]))) positive
      fun block member => awayX block (by simp [member])
    rcases List.mem_append.mp member with member | member <;> simp [member]
  · simp only [List.count_append, List.count_cons]
    omega

/-- A `merge` whose result is not used. -/
theorem merge_kept {joined : Bool} (heap : Heap size s (l ++ (x, tx) :: (y, ty) :: r) used)
    (positive : 0 < size) (call : merge size s.memory x y = some (joined, memory')) :
    ∃ after, Heap size ⟨memory', s.listaLivres⟩ after used ∧
      total size after = total size (l ++ (x, tx) :: (y, ty) :: r) := by
  rcases merge_cases heap positive call with ⟨-, rfl⟩ | ⟨-, heap⟩
  · exact ⟨_, heap, rfl⟩
  · refine ⟨_, heap, ?_⟩
    simp only [total_append, total_cons]
    ring

/-- The end of `meu_libera`: the freed block is joined with the one before it and what results, or
else the freed block, with the next one. -/
theorem merges_kept {s' : State} (heap : Heap size s (l ++ (x, tx) :: (e, t) :: (y, ty) :: r) used)
    (positive : 0 < size)
    (call : ((merge size s.memory x e).bind fun result =>
      if result.1 then (merge size result.2 x y).bind fun result =>
        some ⟨result.2, s.listaLivres⟩
      else (merge size result.2 e y).bind fun result => some ⟨result.2, s.listaLivres⟩) = some s') :
    ∃ after, Heap size s' after used ∧
      total size after = total size (l ++ (x, tx) :: (e, t) :: (y, ty) :: r) := by
  obtain ⟨⟨joined, memory⟩, merged, rest⟩ := Option.bind_eq_some_iff.mp call
  rcases merge_cases heap positive merged with ⟨rfl, rfl⟩ | ⟨rfl, heap⟩
  · obtain ⟨⟨again, memory⟩, merged, result⟩ := Option.bind_eq_some_iff.mp rest
    cases result
    have regrouped : Heap size s ((l ++ [(x, tx)]) ++ (e, t) :: (y, ty) :: r) used := by
      simpa using heap
    obtain ⟨after, kept, sum⟩ := merge_kept regrouped positive merged
    exact ⟨after, kept, by rw [sum]; simp⟩
  · obtain ⟨⟨again, memory⟩, merged, result⟩ := Option.bind_eq_some_iff.mp rest
    cases result
    obtain ⟨after, kept, sum⟩ := merge_kept heap positive merged
    refine ⟨after, kept, ?_⟩
    rw [sum]
    simp only [total_append, total_cons]
    ring

/-- A used block above the first free one is freed between two neighbours. -/
theorem neighbours {fuel : ℕ} {b c : ℤ} (heap : Heap size s ((x, tx) :: r) (l' ++ (e, t) :: r'))
    (positive : 0 < size) (notBelow : ¬ e < x)
    (found : posicao s.memory e fuel x (some x) = some (b, c)) :
    ∃ before u w after, (x, tx) :: r = before ++ (b, u) :: (c, w) :: after := by
  have apart : Apart size x e := heap.pool.apart positive (e, t) (by simp)
  have below : x < e := by
    unfold Apart at apart
    omega
  have here : s.memory x = some ⟨tx, first r none⟩ := heap.lists.2.1
  cases fuel with
  | zero => simp [posicao] at found
  | succ fuel =>
    simp only [posicao, below, if_true, here, Option.bind_eq_bind, Option.bind_some] at found
    exact posicao_found tx (chain_prev heap.lists.2.2) found

/-- **`meu_libera`** of a used block puts it among the free ones. -/
theorem meuLibera_kept {s' : State} {fuel : ℕ} (heap : Heap size s free (l' ++ (e, t) :: r'))
    (positive : 0 < size) (call : meuLibera size s fuel (e + size) = some s') :
    ∃ after, Heap size s' after (l' ++ r') ∧ total size after = total size free + (t + size) := by
  have own : s.memory e = some ⟨t, none⟩ := heap.headers (e, t) (by simp)
  cases free with
  | nil => simp [meuLibera, heap.lists.1, first] at call
  | cons block rest =>
    obtain ⟨f, tf⟩ := block
    have head : s.listaLivres = some f := heap.lists.1
    simp only [meuLibera, head, Int.add_sub_cancel, Option.bind_eq_bind, Option.bind_some,
      modify_eq own] at call
    by_cases below : e < f
    · rw [if_pos below] at call
      obtain ⟨⟨joined, memory⟩, merged, result⟩ := Option.bind_eq_some_iff.mp call
      cases result
      obtain ⟨after, kept, sum⟩ := merge_kept (l := []) (heap.giveFirst positive) positive merged
      refine ⟨after, kept, ?_⟩
      rw [sum, List.nil_append, total_cons (e, t)]
      ring
    · rw [if_neg below] at call
      obtain ⟨⟨b, c⟩, found, rest⟩ := Option.bind_eq_some_iff.mp call
      obtain ⟨before, u, w, after, split⟩ := neighbours heap positive below found
      rw [split] at heap ⊢
      have load : s.memory b = some ⟨u, some c⟩ := heap.parts.2.1
      have apart : Apart size e b := (heap.pool.across positive (b, u) (by simp) (e, t)
        (by simp)).symm
      have linked : store size s.memory e ⟨t, some c⟩ b = some ⟨u, some c⟩ :=
        (store_apart positive apart).trans load
      simp only [load, Option.bind_some, modify_eq linked, ← head] at rest
      obtain ⟨after, kept, sum⟩ := merges_kept (heap.giveLater positive) positive rest
      refine ⟨after, kept, ?_⟩
      rw [sum]
      simp only [total_append, total_cons]
      ring

end Freeing

end FuncoesEx
