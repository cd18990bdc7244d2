/-
**`game.c`: the score does not depend on the order of play.**

A game is a sequence of shots and recounts, each recount by some process with its own
`flg_game_over`.

* `bomb_flg`, `flg_bombas` — a shot marks its cell, and marking twice is marking once: after any
  shots the flags are those of the start, marked exactly at the cells hit.
* `recount_eq` — the recount: a sum over the board, and the test for the end.
* `restam` — the cells of a player that no shot has hit. `bsites_recount`: **that is what every
  recount finds.**
* `score` — equal sets of hits give equal flags; the count is `restam` and never grows;
  `flg_game_over` is set from the process's first recount with a player at 0, and stays.
-/

import SistemasOperacionais.BatalhaNaval.Model
import Mathlib.Algebra.BigOperators.Fin
import Mathlib.Data.Fintype.Prod

set_option linter.unusedSectionVars false

namespace BatalhaNaval

variable {nX nY : ℕ}

/-! ### The flags of a cell -/

/-- What a shot does to the flags of its cell. -/
def atinge (f : Flags) : Flags :=
  if f &&& (flgP1 ||| flgP2) ≠ 0 then f ||| flgBombd else f ||| flgSplsh

/-- The owner of a cell. -/
def dono (f : Flags) : Option (Fin 2) :=
  if f &&& (flgP1 ||| flgP2) = 0 then none else some (if f &&& flgP1 ≠ 0 then 0 else 1)

/-- The player for whom `recount` counts a cell. -/
def sitio (f : Flags) : Option (Fin 2) := if f &&& flgBombd = 0 then dono f else none

/-- A cell with at most one owner and no other flag. -/
def Limpa (f : Flags) : Prop := f = 0 ∨ f = flgP1 ∨ f = flgP2

theorem atinge_atinge {f : Flags} (clean : Limpa f) : atinge (atinge f) = atinge f := by
  rcases clean with rfl | rfl | rfl <;> decide

theorem sitio_of_clean {f : Flags} (clean : Limpa f) : sitio f = dono f := by
  rcases clean with rfl | rfl | rfl <;> decide

theorem sitio_atinge {f : Flags} (clean : Limpa f) : sitio (atinge f) = none := by
  rcases clean with rfl | rfl | rfl <;> decide

theorem bomb_eq (t : Tabela) (x y : ℕ) :
    bomb t x y = { t with flg := grava t.flg x y (atinge (t.flg x y)) } := by
  unfold bomb atinge
  split <;> rfl

/-- A shot marks its cell. -/
theorem bomb_flg (t : Tabela) (x y i j : ℕ) :
    (bomb t x y).flg i j = if i = x ∧ j = y then atinge (t.flg i j) else t.flg i j := by
  rw [bomb_eq]
  show (if i = x ∧ j = y then _ else _) = _
  split
  · rename_i here
    rw [here.1, here.2]
  · rfl

/-! ### The recount as a sum -/

/-- Sites added to both players. -/
def soma (t : Tabela) (sitios : Fin 2 → ℕ) : Tabela :=
  { t with player := fun p => { t.player p with bsites := (t.player p).bsites + sitios p } }

theorem soma_soma (t : Tabela) (first second : Fin 2 → ℕ) :
    soma (soma t first) second = soma t fun p => first p + second p := by
  simp only [soma, Nat.add_assoc]

/-- 1 for the player that a cell counts for. -/
def vale (f : Flags) (p : Fin 2) : ℕ := if sitio f = some p then 1 else 0

theorem recountCasa_eq (t : Tabela) (x y : ℕ) :
    recountCasa t x y = soma t (vale (t.flg x y)) := by
  have none : ∀ {f : Flags}, sitio f = none → soma t (vale f) = t := by
    intro f nobody
    simp only [soma, vale, nobody, reduceCtorEq, if_false, Nat.add_zero]
  have one : ∀ {f : Flags} {px : Fin 2}, sitio f = some px → soma t (vale f) = contaSitio t px := by
    intro f px counts
    simp only [soma, vale, counts, contaSitio, Option.some.injEq, Tabela.mk.injEq, and_true]
    funext p
    by_cases same : px = p
    · rw [same, if_pos rfl, Function.update_self]
    · rw [if_neg same, Function.update_of_ne (Ne.symm same)]
      rfl
  unfold recountCasa
  dsimp only
  split
  · rename_i sea
    rw [none]
    unfold sitio dono
    rw [if_pos sea]
    exact ite_self _
  · rename_i owned
    split
    · rename_i intact
      rw [one]
      unfold sitio dono
      rw [if_pos intact, if_neg owned]
    · rename_i hit
      rw [none]
      unfold sitio
      rw [if_neg hit]

/-- Sites added one position after another. -/
theorem foldl_soma {step : Tabela → ℕ → Tabela} {t : Tabela} (sitios : ℕ → Fin 2 → ℕ)
    (each : ∀ (before : Fin 2 → ℕ) (i : ℕ),
      step (soma t before) i = soma (soma t before) (sitios i)) (n : ℕ) :
    (List.range n).foldl step t = soma t fun p => ∑ i : Fin n, sitios i p := by
  induction n with
  | zero => rfl
  | succ n ih =>
    rw [List.range_succ, List.foldl_append, ih, List.foldl_cons, List.foldl_nil, each, soma_soma]
    simp only [Fin.sum_univ_castSucc, Fin.val_castSucc, Fin.val_last]

/-- The sites that a recount finds. -/
def sitios (nX nY : ℕ) (flg : ℕ → ℕ → Flags) (p : Fin 2) : ℕ :=
  ∑ y : Fin nY, ∑ x : Fin nX, vale (flg x y) p

/-- The loops of `recount`. -/
theorem foldl_recountCasa (t : Tabela) :
    (List.range nY).foldl (fun t y => (List.range nX).foldl (fun t x => recountCasa t x y) t) t =
      soma t (sitios nX nY t.flg) := by
  refine foldl_soma (fun y p => ∑ x : Fin nX, vale (t.flg x y) p) ?_ nY
  intro before y
  refine foldl_soma (fun x => vale (t.flg x y)) ?_ nX
  intro more x
  exact recountCasa_eq _ x y

/-- **The recount.** -/
theorem recount_eq (t : Tabela) (gameOver : Bool) :
    recount nX nY t gameOver =
      ({ t with player := fun p => { t.player p with bsites := sitios nX nY t.flg p } },
        gameOver || decide (∃ p, sitios nX nY t.flg p = 0)) := by
  unfold recount
  dsimp only
  rw [foldl_recountCasa]
  simp only [soma, Nat.zero_add, Fin.exists_fin_two]
  split
  · rename_i zero
    rw [decide_eq_true zero, Bool.or_true]
  · rename_i left
    rw [decide_eq_false left, Bool.or_false]

/-! ### Games -/

/-- A move: a shot, or a recount by a process. -/
inductive Lance (ι : Type) (nX nY : ℕ)
  | bomb (x : Fin nX) (y : Fin nY)
  | recount (quem : ι)
  deriving DecidableEq

/-- The table, and `flg_game_over` of every process. -/
structure Jogo (ι : Type) where
  tabela : Tabela
  gameOver : ι → Bool

section Games

variable {ι : Type} [DecidableEq ι]

def lance (s : Jogo ι) : Lance ι nX nY → Jogo ι
  | .bomb x y => { s with tabela := bomb s.tabela x y }
  | .recount quem =>
      let (tabela, gameOver) := recount nX nY s.tabela (s.gameOver quem)
      ⟨tabela, Function.update s.gameOver quem gameOver⟩

/-- A game. -/
def joga (s : Jogo ι) (lances : List (Lance ι nX nY)) : Jogo ι := lances.foldl lance s

theorem joga_concat (s : Jogo ι) (lances : List (Lance ι nX nY)) (last : Lance ι nX nY) :
    joga s (lances ++ [last]) = lance (joga s lances) last := by
  unfold joga
  rw [List.foldl_append]
  rfl

theorem lance_recount (s : Jogo ι) (quem : ι) :
    lance s (.recount quem : Lance ι nX nY) =
      ⟨{ s.tabela with player := fun p =>
          { s.tabela.player p with bsites := sitios nX nY s.tabela.flg p } },
        Function.update s.gameOver quem
          (s.gameOver quem || decide (∃ p, sitios nX nY s.tabela.flg p = 0))⟩ := by
  unfold lance
  dsimp only
  rw [recount_eq]

/-- Shots only. -/
def bombas (t : Tabela) (alvos : List (Fin nX × Fin nY)) : Tabela :=
  alvos.foldl (fun t alvo => bomb t alvo.1 alvo.2) t

/-- The cells shot at. -/
def alvos (lances : List (Lance ι nX nY)) : List (Fin nX × Fin nY) :=
  lances.filterMap fun
    | .bomb x y => some (x, y)
    | .recount _ => none

theorem alvos_append (first second : List (Lance ι nX nY)) :
    alvos (first ++ second) = alvos first ++ alvos second :=
  List.filterMap_append

theorem bombas_concat (t : Tabela) (hits : List (Fin nX × Fin nY)) (alvo : Fin nX × Fin nY) :
    bombas t (hits ++ [alvo]) = bomb (bombas t hits) alvo.1 alvo.2 := by
  unfold bombas
  rw [List.foldl_append]
  rfl

/-- A board of which no cell has more than an owner. -/
def Limpo (nX nY : ℕ) (t : Tabela) : Prop := ∀ (x : Fin nX) (y : Fin nY), Limpa (t.flg x y)

/-- **The cells of player `p` that no shot has hit.** -/
def restam (t : Tabela) (hits : List (Fin nX × Fin nY)) (p : Fin 2) : ℕ :=
  (Finset.univ.filter fun casa : Fin nX × Fin nY =>
    dono (t.flg casa.1 casa.2) = some p ∧ casa ∉ hits).card

variable {s : Jogo ι} {t : Tabela}

/-! ### The flags after any shots -/

/-- **The flags after a list of shots**: those of the start, marked where it hit. -/
theorem flg_bombas (clean : Limpo nX nY t) (hits : List (Fin nX × Fin nY)) (x : Fin nX)
    (y : Fin nY) :
    (bombas t hits).flg x y = if (x, y) ∈ hits then atinge (t.flg x y) else t.flg x y := by
  induction hits using List.reverseRecOn with
  | nil => rfl
  | append_singleton hits alvo ih =>
    rw [bombas_concat, bomb_flg, ih]
    by_cases here : (x, y) = alvo
    · subst here
      rw [if_pos ⟨rfl, rfl⟩, if_pos (List.mem_append_right _ (List.mem_singleton_self _))]
      split
      · exact atinge_atinge (clean x y)
      · rfl
    · have apart : ¬ ((x : ℕ) = alvo.1 ∧ (y : ℕ) = alvo.2) := fun same =>
        here (Prod.ext (Fin.ext same.1) (Fin.ext same.2))
      rw [if_neg apart]
      simp only [List.mem_append, List.mem_singleton, here, or_false]

/-- Outside the board nothing changes. -/
theorem flg_bombas_outside (hits : List (Fin nX × Fin nY)) {i j : ℕ}
    (outside : ¬ (i < nX ∧ j < nY)) : (bombas t hits).flg i j = t.flg i j := by
  induction hits generalizing t with
  | nil => rfl
  | cons alvo hits ih =>
    refine ih.trans ?_
    rw [bomb_flg, if_neg]
    rintro ⟨rfl, rfl⟩
    exact outside ⟨alvo.1.isLt, alvo.2.isLt⟩

/-- **Equal sets of hits give equal flags.** -/
theorem flg_bombas_congr (clean : Limpo nX nY t) {first second : List (Fin nX × Fin nY)}
    (same : ∀ alvo, alvo ∈ first ↔ alvo ∈ second) :
    (bombas t first).flg = (bombas t second).flg := by
  funext i j
  by_cases inside : i < nX ∧ j < nY
  · have hits := flg_bombas clean first ⟨i, inside.1⟩ ⟨j, inside.2⟩
    have others := flg_bombas clean second ⟨i, inside.1⟩ ⟨j, inside.2⟩
    rw [hits, others]
    simp only [same]
  · rw [flg_bombas_outside first inside, flg_bombas_outside second inside]

/-! ### The count -/

/-- Only the shots of a game change the flags. -/
theorem flg_joga (s : Jogo ι) (lances : List (Lance ι nX nY)) :
    (joga s lances).tabela.flg = (bombas s.tabela (alvos lances)).flg := by
  induction lances using List.reverseRecOn with
  | nil => rfl
  | append_singleton lances last ih =>
    rw [joga_concat, alvos_append]
    cases last with
    | bomb x y =>
      rw [show alvos [(.bomb x y : Lance ι nX nY)] = [(x, y)] from rfl, bombas_concat]
      funext i j
      rw [bomb_flg, ← ih]
      exact bomb_flg _ x y i j
    | recount quem =>
      rw [show alvos [(.recount quem : Lance ι nX nY)] = [] from rfl, List.append_nil, ← ih]
      rw [lance_recount]

/-- **What a recount finds.** -/
theorem sitios_bombas (clean : Limpo nX nY t) (hits : List (Fin nX × Fin nY)) (p : Fin 2) :
    sitios nX nY (bombas t hits).flg p = restam t hits p := by
  have cell : ∀ (x : Fin nX) (y : Fin nY), vale ((bombas t hits).flg x y) p =
      if dono (t.flg x y) = some p ∧ (x, y) ∉ hits then 1 else 0 := by
    intro x y
    rw [flg_bombas clean, vale]
    by_cases hit : (x, y) ∈ hits
    · rw [if_pos hit, sitio_atinge (clean x y), if_neg (Option.some_ne_none p).symm,
        if_neg (fun both => both.2 hit)]
    · rw [if_neg hit, sitio_of_clean (clean x y)]
      simp only [hit, not_false_eq_true, and_true]
  unfold sitios restam
  rw [Finset.card_filter, Fintype.sum_prod_type_right]
  simp only [cell]

/-- The sites left in a game. -/
theorem sitios_joga (clean : Limpo nX nY s.tabela) (lances : List (Lance ι nX nY)) (p : Fin 2) :
    sitios nX nY (joga s lances).tabela.flg p = restam s.tabela (alvos lances) p := by
  rw [flg_joga]
  exact sitios_bombas clean (alvos lances) p

/-- **After a recount `bsites` is the number of cells left.** -/
theorem bsites_recount (clean : Limpo nX nY s.tabela) (lances : List (Lance ι nX nY)) (quem : ι)
    (p : Fin 2) :
    ((joga s (lances ++ [.recount quem])).tabela.player p).bsites =
      restam s.tabela (alvos lances) p := by
  rw [joga_concat, lance_recount]
  exact sitios_joga clean lances p

/-- More shots leave fewer cells. -/
theorem restam_append_le (t : Tabela) (hits more : List (Fin nX × Fin nY)) (p : Fin 2) :
    restam t (hits ++ more) p ≤ restam t hits p := by
  refine Finset.card_le_card fun casa member => ?_
  obtain ⟨known, owned, missed⟩ := Finset.mem_filter.mp member
  exact Finset.mem_filter.mpr ⟨known, owned, fun hit => missed (List.mem_append_left _ hit)⟩

/-- **`bsites` never grows** from a recount on. -/
theorem bsites_le (clean : Limpo nX nY s.tabela) (lances more : List (Lance ι nX nY)) (quem : ι)
    (p : Fin 2) :
    ((joga s (lances ++ [.recount quem] ++ more)).tabela.player p).bsites ≤
      restam s.tabela (alvos lances) p := by
  induction more using List.reverseRecOn with
  | nil =>
    rw [List.append_nil]
    exact (bsites_recount clean lances quem p).le
  | append_singleton more last ih =>
    rw [← List.append_assoc]
    cases last with
    | bomb x y =>
      rw [joga_concat]
      show ((bomb _ _ _).player p).bsites ≤ _
      rw [bomb_eq]
      exact ih
    | recount outro =>
      rw [bsites_recount clean, List.append_assoc, alvos_append]
      exact restam_append_le s.tabela (alvos lances) _ p

/-- **When `flg_game_over` is set**: from a recount of the process with a player at 0. -/
theorem gameOver_joga (clean : Limpo nX nY s.tabela) (lances : List (Lance ι nX nY)) (quem : ι) :
    (joga s lances).gameOver quem = true ↔ s.gameOver quem = true ∨
      ∃ before after, lances = before ++ .recount quem :: after ∧
        ∃ p, restam s.tabela (alvos before) p = 0 := by
  induction lances using List.reverseRecOn with
  | nil =>
    refine ⟨.inl, ?_⟩
    rintro (set | ⟨before, after, none, _⟩)
    · exact set
    · exact absurd none (by simp)
  | append_singleton lances last ih =>
    -- an earlier recount is one of the game so far, or the last move itself
    have earlier : (∃ before after, lances ++ [last] = before ++ .recount quem :: after ∧
          ∃ p, restam s.tabela (alvos before) p = 0) ↔
        (∃ before after, lances = before ++ .recount quem :: after ∧
          ∃ p, restam s.tabela (alvos before) p = 0) ∨
        (last = .recount quem ∧ ∃ p, restam s.tabela (alvos lances) p = 0) := by
      constructor
      · rintro ⟨before, after, parts, zero⟩
        rcases List.eq_nil_or_concat after with rfl | ⟨after, final, rfl⟩
        · obtain ⟨rfl, same⟩ := List.append_inj' parts rfl
          exact .inr ⟨List.head_eq_of_cons_eq same, zero⟩
        · rw [List.concat_eq_append, ← List.cons_append, ← List.append_assoc] at parts
          obtain ⟨rfl, _⟩ := List.append_inj' parts rfl
          exact .inl ⟨before, after, rfl, zero⟩
      · rintro (⟨before, after, rfl, zero⟩ | ⟨rfl, zero⟩)
        · exact ⟨before, after ++ [last], by rw [List.append_assoc, List.cons_append], zero⟩
        · exact ⟨lances, [], rfl, zero⟩
    rw [earlier, ← or_assoc, ← ih, joga_concat]
    cases last with
    | bomb x y => simp only [reduceCtorEq, false_and, or_false, lance]
    | recount outro =>
      rw [lance_recount]
      by_cases same : quem = outro
      · subst same
        simp only [Function.update_self, Bool.or_eq_true, decide_eq_true_eq, sitios_joga clean,
          true_and]
      · have different : (Lance.recount outro : Lance ι nX nY) ≠ .recount quem := fun equal =>
          same (Lance.recount.inj equal).symm
        simp only [Function.update_of_ne same, different, false_and, or_false]

/-- **The score does not depend on the order of play.** From a clean board, with `flg_game_over` set
nowhere: shots at the same cells leave the same flags, whatever recounts come between them; every
recount finds, for each player, the cells that no shot has hit; the count never grows; and
`flg_game_over` of a process is set exactly from its first recount with a player at 0, and is never
reset. -/
theorem score (clean : Limpo nX nY s.tabela) (running : ∀ quem, s.gameOver quem = false) :
    (∀ first second : List (Fin nX × Fin nY), (∀ alvo, alvo ∈ first ↔ alvo ∈ second) →
      (bombas s.tabela first).flg = (bombas s.tabela second).flg) ∧
    (∀ lances others : List (Lance ι nX nY), (∀ alvo, alvo ∈ alvos lances ↔ alvo ∈ alvos others) →
      (joga s lances).tabela.flg = (joga s others).tabela.flg) ∧
    (∀ (lances : List (Lance ι nX nY)) (quem : ι) (p : Fin 2),
      ((joga s (lances ++ [.recount quem])).tabela.player p).bsites =
        restam s.tabela (alvos lances) p) ∧
    (∀ (lances more : List (Lance ι nX nY)) (quem : ι) (p : Fin 2),
      ((joga s (lances ++ [.recount quem] ++ more)).tabela.player p).bsites ≤
        ((joga s (lances ++ [.recount quem])).tabela.player p).bsites) ∧
    (∀ (lances : List (Lance ι nX nY)) (quem : ι), (joga s lances).gameOver quem = true ↔
      ∃ before after, lances = before ++ .recount quem :: after ∧
        ∃ p, ((joga s (before ++ [.recount quem])).tabela.player p).bsites = 0) ∧
    ∀ (lances more : List (Lance ι nX nY)) (quem : ι), (joga s lances).gameOver quem = true →
      (joga s (lances ++ more)).gameOver quem = true := by
  refine ⟨fun first second => flg_bombas_congr clean, ?_, bsites_recount clean, ?_, ?_, ?_⟩
  · intro lances others same
    rw [flg_joga, flg_joga]
    exact flg_bombas_congr clean same
  · intro lances more quem p
    rw [bsites_recount clean]
    exact bsites_le clean lances more quem p
  · intro lances quem
    simp only [gameOver_joga clean, running, Bool.false_eq_true, false_or, bsites_recount clean]
  · intro lances more quem set
    rw [gameOver_joga clean] at set ⊢
    refine set.imp id ?_
    rintro ⟨before, after, rfl, zero⟩
    exact ⟨before, after ++ more, List.append_assoc .., zero⟩

/-- A board of two cells, one for each player: the first is shot at twice. -/
theorem score_two_cells :
    let s : Jogo (Fin 2) :=
      ⟨⟨fun _ => ⟨0, 0⟩, fun _ _ => '.', fun x _ => if x = 0 then flgP1 else flgP2⟩,
        fun _ => false⟩
    let lances : List (Lance (Fin 2) 2 1) := [.bomb 0 0, .recount 0, .bomb 0 0]
    Limpo 2 1 s.tabela ∧ ((joga s (lances ++ [.recount 1])).tabela.player 0).bsites = 0 := by
  intro s lances
  have clean : Limpo 2 1 s.tabela := by
    intro x y
    match x with
    | 0 => exact .inr (.inl rfl)
    | 1 => exact .inr (.inr rfl)
  exact ⟨clean, ((score clean fun _ => rfl).2.2.1 lances 1 0).trans (by decide)⟩

end Games

end BatalhaNaval
