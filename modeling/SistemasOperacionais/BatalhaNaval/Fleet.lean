/-
**`game.c`: the fleet that `genBattle` draws.**

`draw_hz` and `draw_vt` first look at every cell of the ship and at its neighbours across, in a loop
that returns 0 at the first cell that is taken, and then write the cells in a second loop. `genBattle`
tries one of them and then the other, for ships of alternating owners, until `N_SHIPS` are drawn.

* `Navio` — a ship: a straight run of cells with an owner.
* `feitos` — the passes of `genBattle` that drew a ship.
* `Frota` — **the table shows a fleet**: one ship for each of these passes, of the length and at the
  cell that the pass took from `rand`, inside the board, apart from one another, of alternating
  owners, and nothing else.
* `Conforme` — what a call of `draw_hz` or `draw_vt` does: it answers 0 and leaves the table as it
  was, or it draws a ship.
* `Frota.zarpa` — a ship more; `frota_foldl` — every number of passes of the loop.
-/

import SistemasOperacionais.BatalhaNaval.Model
import Mathlib.Data.List.Basic
import Mathlib.Algebra.Group.Nat.Even
import Mathlib.Data.List.Forall2

namespace BatalhaNaval

/-! ### The passes of `genBattle` -/

/-- The table and `drawn` after as many passes as there are draws. -/
def iteracoes (nX nY nZ : ℕ) (t : Tabela) (sorteios : List Sorteio) : Tabela × ℕ :=
  sorteios.foldl (iteracao nX nY nZ) (limpa t)

/-- The pass, if it draws a ship. -/
def feito (nX nY nZ : ℕ) (s : Tabela × ℕ) (sorteio : Sorteio) : List Sorteio :=
  if (tenta nX nY nZ s.2 sorteio s.1).1 then [sorteio] else []

/-- The passes that draw a ship. -/
def feitos (nX nY nZ : ℕ) : Tabela × ℕ → List Sorteio → List Sorteio
  | _, [] => []
  | s, sorteio :: rest =>
      feito nX nY nZ s sorteio ++ feitos nX nY nZ (iteracao nX nY nZ s sorteio) rest

/-! ### Ships -/

/-- A ship: `z` cells from position `inicio` on, in a row or a column of the board. -/
structure Navio where
  deitado : Bool
  inicio : ℕ
  linha : ℕ
  z : ℕ
  dono : Bool
  deriving DecidableEq, Repr

/-- The cell at a position along the ship and one across. -/
def Navio.casa (n : Navio) (a b : ℕ) : ℕ × ℕ := if n.deitado then (a, b) else (b, a)

/-- The cells of a ship. -/
def Navio.casas (n : Navio) : List (ℕ × ℕ) :=
  (List.range n.z).map fun j => n.casa (n.inicio + j) n.linha

/-- The cells beside its long sides. -/
def Navio.AoLado (n : Navio) (c : ℕ × ℕ) : Prop :=
  ∃ j < n.z, c = n.casa (n.inicio + j) (n.linha + 1) ∨
    1 ≤ n.linha ∧ c = n.casa (n.inicio + j) (n.linha - 1)

/-- The flag of the owner. -/
def Navio.bandeira (n : Navio) : Flags := if n.dono then flgP1 else flgP2

/-- The ship is the one that a pass asked for: its `z` cells, from the cell named by `x` and `y`. -/
structure Sorteado (nX nY nZ : ℕ) (sorteio : Sorteio) (n : Navio) : Prop where
  z : n.z = sorteio.z % nZ + 2
  ponto : (sorteio.x % nX, sorteio.y % nY) ∈ n.casas

/-- **The table shows a fleet**, listed in the order of drawing with the passes that drew it. -/
structure Frota (nX nY nZ : ℕ) (t : Tabela) (drawn : ℕ) (sorteios : List Sorteio)
    (navios : List Navio) : Prop where
  total : navios.length = drawn
  sorteados : List.Forall₂ (Sorteado nX nY nZ) sorteios navios
  dentro : ∀ n ∈ navios, ∀ c ∈ n.casas, c.1 < nX ∧ c.2 < nY
  disjuntos : navios.Pairwise fun n m => ∀ c ∈ m.casas, c ∉ n.casas
  alternam : navios.map Navio.dono = (List.range drawn).map fun k => decide (k % 2 = 1)
  afastados : navios.Pairwise fun n m => ∀ c, m.AoLado c → c ∉ n.casas
  mar : ∀ x y, t.sea x y ≠ '.' ↔ ∃ n ∈ navios, (x, y) ∈ n.casas
  bandeiras : ∀ n ∈ navios, ∀ c ∈ n.casas, t.flg c.1 c.2 = n.bandeira
  vazias : ∀ x y, (∀ n ∈ navios, (x, y) ∉ n.casas) → t.flg x y = 0

theorem Navio.mem_casas {n : Navio} {c : ℕ × ℕ} :
    c ∈ n.casas ↔ ∃ j < n.z, n.casa (n.inicio + j) n.linha = c := by
  simp only [Navio.casas, List.mem_map, List.mem_range]

theorem frota_limpa (nX nY nZ : ℕ) (t : Tabela) :
    Frota nX nY nZ (limpa t).1 (limpa t).2 [] [] where
  total := rfl
  sorteados := .nil
  dentro := nofun
  disjuntos := .nil
  alternam := rfl
  afastados := .nil
  mar _ _ := ⟨fun other => absurd rfl other, nofun⟩
  bandeiras := nofun
  vazias _ _ _ := rfl

/-! ### What a ship changes -/

/-- The cells `casas` were written for `who`, and nothing else. -/
structure Pinta (t t' : Tabela) (casas : List (ℕ × ℕ)) (who : Bool) : Prop where
  sea : ∀ x y, t'.sea x y ≠ '.' ↔ (x, y) ∈ casas ∨ t.sea x y ≠ '.'
  flg : ∀ x y, (x, y) ∈ casas → t'.flg x y = if who then flgP1 else flgP2
  resto : ∀ x y, (x, y) ∉ casas → t'.flg x y = t.flg x y

theorem Pinta.trans {first middle last : Tabela} {casas more : List (ℕ × ℕ)} {who : Bool}
    (one : Pinta first middle casas who) (two : Pinta middle last more who) :
    Pinta first last (casas ++ more) who where
  sea x y := by
    rw [two.sea, one.sea, List.mem_append]
    tauto
  flg x y member := by
    by_cases again : (x, y) ∈ more
    · exact two.flg x y again
    · rw [two.resto x y again]
      exact one.flg x y ((List.mem_append.mp member).resolve_right again)
  resto x y outside := by
    rw [List.mem_append, not_or] at outside
    rw [two.resto x y outside.2, one.resto x y outside.1]

theorem Pinta.congr {t t' : Tabela} {casas others : List (ℕ × ℕ)} {who : Bool}
    (pinta : Pinta t t' casas who) (same : ∀ c, c ∈ others ↔ c ∈ casas) :
    Pinta t t' others who where
  sea x y := by rw [pinta.sea, same]
  flg x y member := pinta.flg x y ((same _).mp member)
  resto x y outside := pinta.resto x y fun member => outside ((same _).mpr member)

theorem pinta_marca (e : Eixo) (t : Tabela) (a b : ℕ) {ch : Char} (who : Bool) (shown : ch ≠ '.') :
    Pinta t (marca e t a b ch who) [e.casa a b] who := by
  have here : ∀ {α : Type} (m : ℕ → ℕ → α) (v : α) (x y : ℕ),
      grava m (e.casa a b).1 (e.casa a b).2 v x y =
        if (x, y) = e.casa a b then v else m x y := by
    intro α m v x y
    unfold grava
    congr 1
    exact propext ⟨fun both => Prod.ext both.1 both.2,
      fun same => ⟨congrArg Prod.fst same, congrArg Prod.snd same⟩⟩
  refine ⟨fun x y => ?_, fun x y member => ?_, fun x y outside => ?_⟩
  · show grava t.sea (e.casa a b).1 (e.casa a b).2 ch x y ≠ '.' ↔ _
    rw [here, List.mem_singleton]
    split
    · exact ⟨fun _ => .inl ‹_›, fun _ => shown⟩
    · exact ⟨.inr, fun either => either.resolve_left ‹_›⟩
  · show grava t.flg (e.casa a b).1 (e.casa a b).2 _ x y = _
    rw [here, if_pos (List.mem_singleton.mp member)]
  · show grava t.flg (e.casa a b).1 (e.casa a b).2 _ x y = _
    rw [here, if_neg fun same => outside (List.mem_singleton.mpr same)]

theorem pinta_foldl (e : Eixo) (pos : ℕ → ℕ) (b : ℕ) {ch : Char} (who : Bool) (shown : ch ≠ '.')
    (js : List ℕ) (t : Tabela) :
    Pinta t (js.foldl (fun t j => marca e t (pos j) b ch who) t)
      (js.map fun j => e.casa (pos j) b) who := by
  induction js generalizing t with
  | nil => exact ⟨fun x y => by simp, nofun, fun _ _ _ => rfl⟩
  | cons j rest ih => exact (pinta_marca e t (pos j) b who shown).trans (ih _)

/-- **A ship drawn**: every cell passed the test, and the cells of the ship were written. -/
theorem desenha_spec {e : Eixo} {t : Tabela} {pos : ℕ → ℕ} {b z : ℕ} {who : Bool}
    {ponta : Char} (long : 0 < z) (body : e.corpo who ≠ '.') (tip : ponta ≠ '.') :
    desenha e pos b z who ponta t = (false, t) ∨
      ∃ made, desenha e pos b z who ponta t = (true, made) ∧
        (∀ j < z, cabe e t (pos j) b = true) ∧
        Pinta t made ((List.range z).map fun j => e.casa (pos j) b) who := by
  unfold desenha
  split
  · rename_i tested
    refine .inr ⟨_, rfl, fun j inside => List.all_eq_true.mp tested j (List.mem_range.mpr inside), ?_⟩
    have last : List.range z = List.range (z - 1) ++ [z - 1] := by
      rw [← List.range_succ, Nat.succ_eq_add_one, Nat.sub_add_cancel long]
    rw [last, List.map_append]
    exact (pinta_foldl e pos b who body _ t).trans (pinta_marca e _ _ b who tip)
  · exact .inl rfl

/-- The cell and its neighbours across, where the ship fits. -/
theorem vazias_of_cabe {e : Eixo} {t : Tabela} {a b : ℕ} (fits : cabe e t a b = true) :
    vazia t (e.casa a b) = true ∧ (b + 1 < e.largo → vazia t (e.casa a (b + 1)) = true) ∧
      (1 ≤ b → vazia t (e.casa a (b - 1)) = true) := by
  unfold cabe at fits
  simp only [Bool.and_eq_true, Bool.or_eq_true, Bool.not_eq_true', decide_eq_false_iff_not] at fits
  exact ⟨fits.1.1, fun inside => fits.1.2.resolve_left (not_not.mpr inside),
    fun inside => fits.2.resolve_left (not_not.mpr inside)⟩

/-- The axis of a ship. -/
def eixo (nX nY : ℕ) (deitado : Bool) : Eixo :=
  if deitado then horizontal nX nY else vertical nX nY

theorem casa_eixo (n : Navio) (nX nY a b : ℕ) : (eixo nX nY n.deitado).casa a b = n.casa a b := by
  unfold eixo Navio.casa
  cases n.deitado <;> rfl

theorem eixo_shown (nX nY : ℕ) (deitado who : Bool) :
    (eixo nX nY deitado).corpo who ≠ '.' ∧ (eixo nX nY deitado).tras ≠ '.' ∧
      (eixo nX nY deitado).frente ≠ '.' := by
  cases deitado <;> cases who <;> simp [eixo, horizontal, vertical]

/-- A cell of the board, by its positions along and across. -/
theorem casa_inside {n : Navio} {nX nY a b : ℕ} :
    (n.casa a b).1 < nX ∧ (n.casa a b).2 < nY ↔
      a < (eixo nX nY n.deitado).longo ∧ b < (eixo nX nY n.deitado).largo := by
  unfold eixo Navio.casa
  cases n.deitado
  · exact and_comm
  · exact Iff.rfl

/-- **What `draw_hz` or `draw_vt` does when it draws**: the ship lies inside the board on cells that
were empty, with empty cells of the board beside it, and its cells are written. -/
structure Lanca (nX nY : ℕ) (t t' : Tabela) (n : Navio) : Prop where
  pinta : Pinta t t' n.casas n.dono
  dentro : ∀ c ∈ n.casas, c.1 < nX ∧ c.2 < nY
  livres : ∀ c ∈ n.casas, vazia t c = true
  lados : ∀ c, n.AoLado c → c.1 < nX ∧ c.2 < nY → vazia t c = true

/-- **What a call leaves**: the answer 0 and the table as it was, or a ship of `z` cells of `who`,
one of them the cell `c`. -/
def Conforme (nX nY z : ℕ) (who : Bool) (c : ℕ × ℕ) (t : Tabela) (left : Bool × Tabela) : Prop :=
  left = (false, t) ∨ ∃ n : Navio, left.1 = true ∧ n.z = z ∧ n.dono = who ∧ c ∈ n.casas ∧
    Lanca nX nY t left.2 n

/-- The cells that passed the test are those of a ship. -/
theorem lanca_of_tested {nX nY : ℕ} {t made : Tabela} {n : Navio} (pos : ℕ → ℕ)
    (same : ∀ a, (∃ j < n.z, pos j = a) ↔ ∃ j < n.z, n.inicio + j = a)
    (along : ∀ j < n.z, pos j < (eixo nX nY n.deitado).longo)
    (across : n.linha < (eixo nX nY n.deitado).largo)
    (tested : ∀ j < n.z, cabe (eixo nX nY n.deitado) t (pos j) n.linha = true)
    (pinta : Pinta t made
      ((List.range n.z).map fun j => (eixo nX nY n.deitado).casa (pos j) n.linha) n.dono) :
    Lanca nX nY t made n := by
  have at_ : ∀ j < n.z, ∃ i < n.z, pos i = n.inicio + j := fun j inside =>
    (same _).mpr ⟨j, inside, rfl⟩
  refine ⟨pinta.congr fun c => ?_, fun c member => ?_, fun c member => ?_, ?_⟩
  · simp only [Navio.mem_casas, List.mem_map, List.mem_range, casa_eixo]
    constructor
    · rintro ⟨j, inside, rfl⟩
      obtain ⟨i, less, there⟩ := at_ j inside
      exact ⟨i, less, by rw [there]⟩
    · rintro ⟨i, less, rfl⟩
      obtain ⟨j, inside, there⟩ := (same (pos i)).mp ⟨i, less, rfl⟩
      exact ⟨j, inside, by rw [there]⟩
  · obtain ⟨j, inside, rfl⟩ := Navio.mem_casas.mp member
    obtain ⟨i, less, there⟩ := at_ j inside
    exact casa_inside.mpr ⟨there ▸ along i less, across⟩
  · obtain ⟨j, inside, rfl⟩ := Navio.mem_casas.mp member
    obtain ⟨i, less, there⟩ := at_ j inside
    rw [← there, ← casa_eixo n nX nY]
    exact (vazias_of_cabe (tested i less)).1
  · rintro c ⟨j, inside, rfl | ⟨first, rfl⟩⟩ board
    · obtain ⟨i, less, there⟩ := at_ j inside
      rw [← there, ← casa_eixo n nX nY]
      exact (vazias_of_cabe (tested i less)).2.1 (casa_inside.mp board).2
    · obtain ⟨i, less, there⟩ := at_ j inside
      rw [← there, ← casa_eixo n nX nY]
      exact (vazias_of_cabe (tested i less)).2.2 first

theorem desenha_conforme {nX nY : ℕ} {t : Tabela} {n : Navio} {ponta : Char} {c : ℕ × ℕ}
    (pos : ℕ → ℕ) (long : 0 < n.z) (tip : ponta ≠ '.') (point : c ∈ n.casas)
    (same : ∀ a, (∃ j < n.z, pos j = a) ↔ ∃ j < n.z, n.inicio + j = a)
    (along : ∀ j < n.z, pos j < (eixo nX nY n.deitado).longo)
    (across : n.linha < (eixo nX nY n.deitado).largo) :
    Conforme nX nY n.z n.dono c t
      (desenha (eixo nX nY n.deitado) pos n.linha n.z n.dono ponta t) := by
  rcases desenha_spec long (eixo_shown nX nY n.deitado n.dono).1 tip with
    none | ⟨made, run, tested, pinta⟩
  · exact .inl none
  · rw [run]
    exact .inr ⟨n, rfl, rfl, rfl, point, lanca_of_tested pos same along across tested pinta⟩

/-- **A call of `draw_hz` or `draw_vt`.** -/
theorem draw_conforme {nX nY s b z : ℕ} (deitado who : Bool) (t : Tabela) (long : 0 < z)
    (along : s < (eixo nX nY deitado).longo) (across : b < (eixo nX nY deitado).largo) :
    Conforme nX nY z who ((eixo nX nY deitado).casa s b) t
      (draw (eixo nX nY deitado) s b z who t) := by
  obtain ⟨_, back, front⟩ := eixo_shown nX nY deitado who
  unfold draw
  split
  · split
    · exact .inl rfl
    · -- backwards: the ship starts at its tip
      rename_i room
      let n : Navio := ⟨deitado, s + 1 - z, b, z, who⟩
      refine desenha_conforme (fun j => s - j) (n := n) long back ?_ (fun a => ?_)
        (fun j inside => ?_) across
      · rw [casa_eixo n]
        exact Navio.mem_casas.mpr ⟨z - 1, Nat.sub_lt long Nat.one_pos, by
          congr 1
          show s + 1 - z + (z - 1) = s
          omega⟩
      · dsimp only [n]
        constructor
        · rintro ⟨j, inside, rfl⟩
          exact ⟨z - 1 - j, by omega, by omega⟩
        · rintro ⟨j, inside, rfl⟩
          exact ⟨z - 1 - j, by omega, by omega⟩
      · dsimp only [n]
        omega
  · let n : Navio := ⟨deitado, s, b, z, who⟩
    refine desenha_conforme (fun j => s + j) (n := n) long front ?_ (fun a => Iff.rfl)
      (fun j inside => ?_) across
    · rw [casa_eixo n]
      exact Navio.mem_casas.mpr ⟨0, long, rfl⟩
    · dsimp only [n] at inside ⊢
      omega

/-- The second call is made on the table as it was. -/
theorem ou_conforme {nX nY z : ℕ} {who : Bool} {c : ℕ × ℕ} {t : Tabela}
    {first second : Tabela → Bool × Tabela} (one : Conforme nX nY z who c t (first t))
    (two : Conforme nX nY z who c t (second t)) :
    Conforme nX nY z who c t (ou first second t) := by
  unfold ou
  rcases one with none | ⟨n, made, ship⟩
  · rw [none]
    exact two
  · refine .inr ⟨n, ?_⟩
    split
    · rename_i after run
      rw [run] at ship
      exact ⟨rfl, ship⟩
    · rename_i after run
      rw [run] at made
      cases made

theorem tenta_conforme {nX nY : ℕ} (width : 0 < nX) (height : 0 < nY) (nZ drawn : ℕ)
    (sorteio : Sorteio) (t : Tabela) :
    Conforme nX nY (sorteio.z % nZ + 2) (decide (drawn % 2 = 1))
      (sorteio.x % nX, sorteio.y % nY) t (tenta nX nY nZ drawn sorteio t) := by
  have long : 0 < sorteio.z % nZ + 2 := Nat.succ_pos _
  have inX : sorteio.x % nX < nX := Nat.mod_lt _ width
  have inY : sorteio.y % nY < nY := Nat.mod_lt _ height
  have hz := draw_conforme true (decide (drawn % 2 = 1)) t long inX inY
  have vt := draw_conforme false (decide (drawn % 2 = 1)) t long inY inX
  unfold tenta
  split
  · exact ou_conforme hz vt
  · exact ou_conforme vt hz

/-! ### The fleet after every pass -/

section Passes

variable {nX nY nZ nShips : ℕ} {t made : Tabela} {drawn : ℕ} {sorteios : List Sorteio}
  {navios : List Navio}

/-- An empty cell belongs to no ship. -/
theorem Frota.not_mem (frota : Frota nX nY nZ t drawn sorteios navios) {n : Navio} (member : n ∈ navios)
    {c : ℕ × ℕ} (empty : vazia t c = true) : c ∉ n.casas := fun inside =>
  (frota.mar c.1 c.2).mpr ⟨n, member, inside⟩ (beq_iff_eq.mp empty)

/-- **A ship more.** -/
theorem Frota.zarpa (frota : Frota nX nY nZ t drawn sorteios navios) {n : Navio}
    {sorteio : Sorteio} (lanca : Lanca nX nY t made n) (asked : Sorteado nX nY nZ sorteio n)
    (owner : n.dono = decide (drawn % 2 = 1)) :
    Frota nX nY nZ made (drawn + 1) (sorteios ++ [sorteio]) (navios ++ [n]) where
  total := by rw [List.length_append, frota.total, List.length_singleton]
  sorteados := List.rel_append frota.sorteados (.cons asked .nil)
  dentro m member := by
    rcases List.mem_append.mp member with old | new
    · exact frota.dentro m old
    · rw [List.mem_singleton.mp new]
      exact lanca.dentro
  disjuntos := by
    refine List.pairwise_append.mpr ⟨frota.disjuntos, List.pairwise_singleton _ _, ?_⟩
    intro m old last new c inside
    rw [List.mem_singleton.mp new] at inside
    exact frota.not_mem old (lanca.livres c inside)
  alternam := by
    rw [List.map_append, frota.alternam, List.range_succ, List.map_append]
    exact congrArg (_ ++ ·) (congrArg (· :: []) owner)
  afastados := by
    refine List.pairwise_append.mpr ⟨frota.afastados, List.pairwise_singleton _ _, ?_⟩
    intro m old last new c beside inside
    rw [List.mem_singleton.mp new] at beside
    exact frota.not_mem old (lanca.lados c beside (frota.dentro m old c inside)) inside
  mar x y := by
    rw [lanca.pinta.sea, frota.mar]
    constructor
    · rintro (new | ⟨m, old, inside⟩)
      · exact ⟨n, List.mem_append_right _ (List.mem_singleton_self n), new⟩
      · exact ⟨m, List.mem_append_left _ old, inside⟩
    · rintro ⟨m, member, inside⟩
      rcases List.mem_append.mp member with old | new
      · exact .inr ⟨m, old, inside⟩
      · rw [List.mem_singleton.mp new] at inside
        exact .inl inside
  bandeiras m member c inside := by
    rcases List.mem_append.mp member with old | new
    · -- the cells of the earlier ships are not among those written
      have other : c ∉ n.casas := fun both => frota.not_mem old (lanca.livres c both) inside
      rw [lanca.pinta.resto c.1 c.2 other]
      exact frota.bandeiras m old c inside
    · rw [List.mem_singleton.mp new] at inside ⊢
      exact lanca.pinta.flg c.1 c.2 inside
  vazias x y outside := by
    rw [lanca.pinta.resto x y (outside n (List.mem_append_right _ (List.mem_singleton_self n)))]
    exact frota.vazias x y fun m old => outside m (List.mem_append_left _ old)

/-- **One pass keeps the fleet**, with a ship more or as it was. -/
theorem frota_iteracao (width : 0 < nX) (height : 0 < nY)
    (frota : Frota nX nY nZ t drawn sorteios navios) (sorteio : Sorteio) :
    ∃ more, Frota nX nY nZ (iteracao nX nY nZ (t, drawn) sorteio).1
      (iteracao nX nY nZ (t, drawn) sorteio).2
      (sorteios ++ feito nX nY nZ (t, drawn) sorteio) (navios ++ more) := by
  unfold iteracao feito
  rcases tenta_conforme width height nZ drawn sorteio t with none | ⟨n, drew, size, owner, point, lanca⟩
  · refine ⟨[], ?_⟩
    rw [none]
    dsimp only
    rw [if_neg Bool.false_ne_true, List.append_nil, List.append_nil]
    exact frota
  · refine ⟨[n], ?_⟩
    dsimp only
    rw [if_pos drew]
    split
    · rename_i after run
      rw [run] at lanca
      exact frota.zarpa lanca ⟨size, point⟩ owner
    · rename_i after run
      rw [run] at drew
      cases drew

/-- **Every number of passes.** -/
theorem frota_foldl (width : 0 < nX) (height : 0 < nY) (more : List Sorteio)
    {s : Tabela × ℕ} (frota : Frota nX nY nZ s.1 s.2 sorteios navios) :
    ∃ navios', Frota nX nY nZ (more.foldl (iteracao nX nY nZ) s).1
      (more.foldl (iteracao nX nY nZ) s).2 (sorteios ++ feitos nX nY nZ s more)
      (navios ++ navios') := by
  induction more generalizing s sorteios navios with
  | nil =>
    refine ⟨[], ?_⟩
    rw [feitos, List.append_nil, List.append_nil]
    exact frota
  | cons sorteio rest ih =>
    obtain ⟨one, kept⟩ := frota_iteracao width height frota sorteio
    obtain ⟨others, all⟩ := ih kept
    refine ⟨one ++ others, ?_⟩
    rw [List.append_assoc, List.append_assoc] at all
    exact all

theorem frota_iteracoes (width : 0 < nX) (height : 0 < nY) (t : Tabela) (sorteios : List Sorteio) :
    ∃ navios, Frota nX nY nZ (iteracoes nX nY nZ t sorteios).1 (iteracoes nX nY nZ t sorteios).2
      (feitos nX nY nZ (limpa t) sorteios) navios := by
  obtain ⟨navios, frota⟩ := frota_foldl width height sorteios (frota_limpa nX nY nZ t)
  exact ⟨navios, frota⟩

/-- One pass draws at most one ship. -/
theorem iteracao_drawn (s : Tabela × ℕ) (sorteio : Sorteio) :
    (iteracao nX nY nZ s sorteio).2 ≤ s.2 + 1 := by
  unfold iteracao
  split
  · exact le_rfl
  · exact Nat.le_succ _

/-- A battle that is generated is that of some number of passes, with all ships drawn. -/
theorem genBattleLoop_some {s made : Tabela × ℕ} {sorteios : List Sorteio}
    (run : genBattleLoop nX nY nZ nShips s sorteios = some made) (less : s.2 < nShips) :
    made.2 = nShips ∧ ∃ used, used <+: sorteios ∧ made = used.foldl (iteracao nX nY nZ) s := by
  induction sorteios generalizing s with
  | nil => cases run
  | cons sorteio rest ih =>
    rw [genBattleLoop] at run
    split at run
    · rename_i more
      obtain ⟨all, used, first, rfl⟩ := ih run more
      exact ⟨all, sorteio :: used, List.cons_prefix_cons.mpr ⟨rfl, first⟩, rfl⟩
    · rename_i done
      cases run
      have one := @iteracao_drawn nX nY nZ s sorteio
      exact ⟨by omega, [sorteio], List.cons_prefix_cons.mpr ⟨rfl, List.nil_prefix⟩, rfl⟩

/-- A cell is shown exactly if it has an owner, and then just one. -/
theorem Frota.shown (frota : Frota nX nY nZ t drawn sorteios navios) (x y : ℕ) :
    t.sea x y ≠ '.' ↔ t.flg x y = flgP1 ∨ t.flg x y = flgP2 := by
  rw [frota.mar]
  constructor
  · rintro ⟨n, member, inside⟩
    have flag := frota.bandeiras n member (x, y) inside
    unfold Navio.bandeira at flag
    split at flag
    · exact .inl flag
    · exact .inr flag
  · intro owned
    by_contra none
    have empty := frota.vazias x y fun n member inside => none ⟨n, member, inside⟩
    rw [empty] at owned
    revert owned
    decide

theorem countP_odd (n : ℕ) :
    ((List.range n).map fun k => decide (k % 2 = 1)).countP id = n / 2 := by
  induction n with
  | zero => rfl
  | succ n ih =>
    rw [List.range_succ, List.map_append, List.countP_append, ih]
    rcases Nat.mod_two_eq_zero_or_one n with even | odd
    · rw [List.map_singleton, even]
      show n / 2 + 0 = _
      omega
    · rw [List.map_singleton, odd]
      show n / 2 + 1 = _
      omega

/-- The ships of each player. -/
theorem Frota.donos (frota : Frota nX nY nZ t drawn sorteios navios) (even : Even drawn) :
    navios.countP (fun n => n.dono) = drawn / 2 ∧
      navios.countP (fun n => !n.dono) = drawn / 2 := by
  have first : navios.countP (fun n => n.dono) = drawn / 2 := by
    have mapped : (navios.map Navio.dono).countP id = navios.countP fun n => n.dono :=
      List.countP_map ..
    rw [← mapped, frota.alternam, countP_odd]
  have all := List.length_eq_countP_add_countP (fun n : Navio => n.dono) (l := navios)
  obtain ⟨half, rfl⟩ := even
  have total := frota.total
  simp only [Bool.not_eq_true, Bool.decide_eq_false] at all
  omega

theorem desenha_zero {e : Eixo} {pos : ℕ → ℕ} {b z : ℕ} {who : Bool} {ponta : Char} {t : Tabela} :
    (desenha e pos b z who ponta t).1 = false → (desenha e pos b z who ponta t).2 = t := by
  unfold desenha
  split
  · exact nofun
  · exact fun _ => rfl

/-- The answer 0 leaves the table as it was. -/
theorem draw_zero {e : Eixo} {s b z : ℕ} {who : Bool} {t : Tabela} :
    (draw e s b z who t).1 = false → (draw e s b z who t).2 = t := by
  unfold draw
  split
  · split
    · exact fun _ => rfl
    · exact desenha_zero
  · exact desenha_zero

/-- **The fleet of Batalha Naval**, on every board and for all numbers that `rand` may give:

* after every number of passes of the loop of `genBattle` the table shows a fleet of `drawn` ships,
  one for each pass that drew, and a cell is shown exactly if it belongs to one of the players;
* when `genBattle` returns there are `N_SHIPS` ships, and half of them are each player's;
* `draw_hz` and `draw_vt` leave the table as it was when they answer 0. -/
theorem fleet (width : 0 < nX) (height : 0 < nY) (ships : 0 < nShips) (t : Tabela)
    (sorteios : List Sorteio) :
    (∃ navios, Frota nX nY nZ (iteracoes nX nY nZ t sorteios).1 (iteracoes nX nY nZ t sorteios).2
      (feitos nX nY nZ (limpa t) sorteios) navios) ∧
    (∀ x y, (iteracoes nX nY nZ t sorteios).1.sea x y ≠ '.' ↔
      (iteracoes nX nY nZ t sorteios).1.flg x y = flgP1 ∨
        (iteracoes nX nY nZ t sorteios).1.flg x y = flgP2) ∧
    (∀ made, genBattle nX nY nZ nShips t sorteios = some made →
      ∃ used navios, used <+: sorteios ∧ made = (iteracoes nX nY nZ t used).1 ∧
        Frota nX nY nZ made nShips (feitos nX nY nZ (limpa t) used) navios ∧
        (Even nShips → navios.countP (fun n => n.dono) = nShips / 2 ∧
          navios.countP (fun n => !n.dono) = nShips / 2)) ∧
    ∀ sx sy z who before,
      ((drawHz nX nY sx sy z who before).1 = false →
        (drawHz nX nY sx sy z who before).2 = before) ∧
      ((drawVt nX nY sx sy z who before).1 = false →
        (drawVt nX nY sx sy z who before).2 = before) := by
  refine ⟨frota_iteracoes width height t sorteios, ?_, fun made run => ?_,
    fun sx sy z who before => ⟨draw_zero, draw_zero⟩⟩
  · obtain ⟨navios, frota⟩ := @frota_iteracoes nX nY nZ width height t sorteios
    exact frota.shown
  · obtain ⟨s, loop, rfl⟩ := Option.map_eq_some_iff.mp run
    obtain ⟨all, used, first, rfl⟩ := genBattleLoop_some loop ships
    obtain ⟨navios, frota⟩ := @frota_iteracoes nX nY nZ width height t used
    rw [iteracoes, all] at frota
    exact ⟨used, navios, first, rfl, frota, frota.donos⟩

/-- The numbers of a battle of six ships; the second pass finds its place taken. -/
def seisNavios : List Sorteio :=
  [⟨0, 1, 0, 0⟩, ⟨2, 1, 1, 0⟩, ⟨1, 0, 9, 8⟩, ⟨3, 1, 0, 3⟩, ⟨4, 1, 9, 1⟩, ⟨0, 0, 0, 9⟩, ⟨2, 1, 3, 7⟩]

/-- **`genBattle` returns**, on the board of the game, with three ships of each player. -/
theorem fleet_six_ships :
    ∃ made used navios,
      genBattle 10 10 5 6 ⟨fun _ => ⟨0, 0⟩, fun _ _ => 'x', fun _ _ => 0⟩ seisNavios = some made ∧
      used <+: seisNavios ∧
      Frota 10 10 5 made 6
        (feitos 10 10 5 (limpa ⟨fun _ => ⟨0, 0⟩, fun _ _ => 'x', fun _ _ => 0⟩) used) navios ∧
      navios.countP (fun n => n.dono) = 3 ∧ navios.countP (fun n => !n.dono) = 3 := by
  obtain ⟨made, run⟩ := Option.isSome_iff_exists.mp (by decide +kernel :
    (genBattle 10 10 5 6 ⟨fun _ => ⟨0, 0⟩, fun _ _ => 'x', fun _ _ => 0⟩ seisNavios).isSome = true)
  obtain ⟨used, navios, first, _, frota, halves⟩ :=
    (@fleet 10 10 5 6 (by decide) (by decide) (by decide) _ seisNavios).2.2.1 made run
  exact ⟨made, used, navios, run, first, frota, halves (by decide)⟩

end Passes

end BatalhaNaval
