/-
**`game.c`: the board of Batalha Naval.**

The table in shared memory holds the two players and, for every cell of the sea, a character to show
and a byte of flags: who owns the cell, and whether it was bombed.

* `bomb`, `recount` — a shot, and the recount of the sites left with the test for the end of the
  game. `flg_game_over` is a variable of each process, so `recount` takes and returns it.
* `draw` — what `draw_hz` and `draw_vt` have in common; `drawHz` and `drawVt` are its two cases. They
  answer whether the ship was drawn, and return the table as the call leaves it.
* `genBattle` — the ships, from a list of the numbers that `rand` gives; `none` when the list ends
  before all ships are placed.
* `getInput` — the cell named by a line of input.

The sizes `N_X`, `N_Y`, `N_Z` and `N_SHIPS` are parameters. What `showBattle` prints is left out, so
that only its call of `recount` remains; so are the reseeding of `rand` and the flags `FLG_SEEN0` and
`FLG_SEEN1`, which nothing sets.
-/

import Mathlib.Algebra.GroupWithZero.Nat
import Mathlib.Logic.Function.Basic

namespace BatalhaNaval

/-- An element of `flg`. -/
abbrev Flags := BitVec 8

def flgP1 : Flags := 0o001
def flgP2 : Flags := 0o002
def flgBombd : Flags := 0o020
def flgSplsh : Flags := 0o040

/-- The players are numbered 0 and 1. -/
scoped instance players : NeZero 2 := ⟨Nat.succ_ne_zero 1⟩

structure Player where
  pid : ℕ
  bsites : ℕ
  deriving DecidableEq, Repr

structure Tabela where
  player : Fin 2 → Player
  sea : ℕ → ℕ → Char
  flg : ℕ → ℕ → Flags

/-- `matriz[x][y] = valor` -/
def grava {α : Type} (matriz : ℕ → ℕ → α) (x y : ℕ) (valor : α) : ℕ → ℕ → α := fun i j =>
  if i = x ∧ j = y then valor else matriz i j

/-! ### A shot and the recount -/

def bomb (t : Tabela) (x y : ℕ) : Tabela :=
  if t.flg x y &&& (flgP1 ||| flgP2) ≠ 0 then
    { t with flg := grava t.flg x y (t.flg x y ||| flgBombd) }
  else { t with flg := grava t.flg x y (t.flg x y ||| flgSplsh) }

/-- `++table->player[px].bsites` -/
def contaSitio (t : Tabela) (px : Fin 2) : Tabela :=
  let player := { t.player px with bsites := (t.player px).bsites + 1 }
  { t with player := Function.update t.player px player }

/-- The body of the loops of `recount`. -/
def recountCasa (t : Tabela) (x y : ℕ) : Tabela :=
  let f := t.flg x y
  if f &&& (flgP1 ||| flgP2) = 0 then t
  else
    let px := if f &&& flgP1 ≠ 0 then 0 else 1
    if f &&& flgBombd = 0 then contaSitio t px else t

def recount (nX nY : ℕ) (t : Tabela) (gameOver : Bool) : Tabela × Bool :=
  let t := { t with player := fun p => { t.player p with bsites := 0 } }
  let t := (List.range nY).foldl
    (fun t y => (List.range nX).foldl (fun t x => recountCasa t x y) t) t
  (t, if (t.player 0).bsites = 0 ∨ (t.player 1).bsites = 0 then true else gameOver)

def showBattle (nX nY : ℕ) (t : Tabela) (gameOver : Bool) : Tabela × Bool :=
  recount nX nY t gameOver

/-! ### The ships -/

/-- What tells `draw_hz` from `draw_vt`. -/
structure Eixo where
  /-- the cell at a position along the ship and a position across -/
  casa : ℕ → ℕ → ℕ × ℕ
  /-- the size of the board along the ship -/
  longo : ℕ
  /-- the size of the board across -/
  largo : ℕ
  corpo : Bool → Char
  /-- the tip of a ship drawn backwards -/
  tras : Char
  /-- the tip of a ship drawn forwards -/
  frente : Char

def horizontal (nX nY : ℕ) : Eixo where
  casa a b := (a, b)
  longo := nX
  largo := nY
  corpo who := if who then '=' else '-'
  tras := '<'
  frente := '>'

def vertical (nX nY : ℕ) : Eixo where
  casa a b := (b, a)
  longo := nY
  largo := nX
  corpo who := if who then '!' else '|'
  tras := '^'
  frente := 'V'

/-- A cell with nothing on it. -/
def vazia (t : Tabela) (casa : ℕ × ℕ) : Bool := t.sea casa.1 casa.2 == '.'

/-- A cell where a ship may lie: it and its two neighbours across are empty. -/
def cabe (e : Eixo) (t : Tabela) (a b : ℕ) : Bool :=
  vazia t (e.casa a b) && (!decide (b + 1 < e.largo) || vazia t (e.casa a (b + 1))) &&
    (!decide (1 ≤ b) || vazia t (e.casa a (b - 1)))

/-- One cell of a ship. -/
def marca (e : Eixo) (t : Tabela) (a b : ℕ) (ch : Char) (who : Bool) : Tabela :=
  let (x, y) := e.casa a b
  { t with
    sea := grava t.sea x y ch
    flg := grava t.flg x y (if who then flgP1 else flgP2) }

/-- A ship of `z` cells at the positions `pos 0`, …, the last of which is its tip: the answer, which
is 0 at the first cell that is taken, and the table left. -/
def desenha (e : Eixo) (pos : ℕ → ℕ) (b z : ℕ) (who : Bool) (ponta : Char) (t : Tabela) :
    Bool × Tabela :=
  if (List.range z).all fun j => cabe e t (pos j) b then
    let t := (List.range (z - 1)).foldl (fun t j => marca e t (pos j) b (e.corpo who) who) t
    (true, marca e t (pos (z - 1)) b ponta who)
  else (false, t)

/-- A ship from position `s` on, backwards if there is no room forwards. -/
def draw (e : Eixo) (s b z : ℕ) (who : Bool) (t : Tabela) : Bool × Tabela :=
  if e.longo < s + z then
    if s < z then (false, t) else desenha e (fun j => s - j) b z who e.tras t
  else desenha e (fun j => s + j) b z who e.frente t

def drawHz (nX nY sx sy z : ℕ) (who : Bool) : Tabela → Bool × Tabela :=
  draw (horizontal nX nY) sx sy z who

def drawVt (nX nY sx sy z : ℕ) (who : Bool) : Tabela → Bool × Tabela :=
  draw (vertical nX nY) sy sx z who

/-- `first || second`: the second call is made on what the first one leaves, if it answers 0. -/
def ou (first second : Tabela → Bool × Tabela) (t : Tabela) : Bool × Tabela :=
  match first t with
  | (true, t) => (true, t)
  | (false, t) => second t

/-- The four numbers that one pass of `genBattle` takes from `rand`. -/
structure Sorteio where
  z : ℕ
  dir : ℕ
  x : ℕ
  y : ℕ
  deriving DecidableEq, Repr

/-- The calls of one pass of the loop of `genBattle`. -/
def tenta (nX nY nZ drawn : ℕ) (sorteio : Sorteio) : Tabela → Bool × Tabela :=
  let z := sorteio.z % nZ + 2
  let x := sorteio.x % nX
  let y := sorteio.y % nY
  let who := decide (drawn % 2 = 1)
  if sorteio.dir % 2 = 1 then ou (drawHz nX nY x y z who) (drawVt nX nY x y z who)
  else ou (drawVt nX nY x y z who) (drawHz nX nY x y z who)

/-- One pass, on the table and `drawn`. -/
def iteracao (nX nY nZ : ℕ) (s : Tabela × ℕ) (sorteio : Sorteio) : Tabela × ℕ :=
  match tenta nX nY nZ s.2 sorteio s.1 with
  | (true, t) => (t, s.2 + 1)
  | (false, t) => (t, s.2)

/-- `do … while ( drawn < N_SHIPS )` -/
def genBattleLoop (nX nY nZ nShips : ℕ) : Tabela × ℕ → List Sorteio → Option (Tabela × ℕ)
  | _, [] => none
  | s, sorteio :: rest =>
      let s := iteracao nX nY nZ s sorteio
      if s.2 < nShips then genBattleLoop nX nY nZ nShips s rest else some s

/-- The table with an empty sea, and `drawn = 0`. -/
def limpa (t : Tabela) : Tabela × ℕ :=
  ({ t with sea := fun _ _ => '.', flg := fun _ _ => 0 }, 0)

def genBattle (nX nY nZ nShips : ℕ) (t : Tabela) (sorteios : List Sorteio) : Option Tabela :=
  (genBattleLoop nX nY nZ nShips (limpa t) sorteios).map Prod.fst

/-! ### The input -/

/-- `c - 'A'`, for a letter of the board. -/
def coordenada (n : ℕ) (c : Char) : Option (Fin n) :=
  if inside : 'A'.toNat ≤ c.toNat ∧ c.toNat - 'A'.toNat < n then
    some ⟨c.toNat - 'A'.toNat, inside.2⟩
  else none

/-- The cell named by a line, `y` first; `none` is `INP_NONE`. -/
def getInput (nX nY : ℕ) (buf : List Char) : Option (Fin nX × Fin nY) :=
  match buf.map Char.toUpper with
  | cy :: cx :: _ => (coordenada nX cx).bind fun x => (coordenada nY cy).map fun y => (x, y)
  | _ => none

end BatalhaNaval
