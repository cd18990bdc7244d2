/-
**`meu_alloc.c`: the functions.**

Four strategies over one doubly linked list of `struct hole` headers. A request is satisfied by
splitting a block: the new header goes to `atual + atual->tam - tam`, where `atual` is a
`struct hole *`, so that the offset is counted in headers and not in bytes. `firstfit` marks the
first half used and the other strategies the second half; all of them return the bytes behind the
new header.

* `mostraMem`, `inicializaMem`, `merge`, `firstfit`, `bestfit`, `worstfit`, `nextfit`, `meuAloca`,
  `meuLibera` — the functions of the source over the headers in memory. The loops take a bound on
  their passes; `none` is undefined or out of passes.
* `Com` — `merge`, `firstfit`, `bestfit` and `worstfit` with `int`, what becomes of the value of an
  `int` expression, as a parameter: `Wrap.int` where it is taken modulo `2 ^ 32`, and `id` where no sum
  leaves the range. The functions without it are those with `id`.
* `corpo` — the body of the loop of `merge`, and what a pass does: `corpo_absorve`, `corpo_passa`,
  `corpo_fim`.
* `lugar` — where `atual + atual->tam - tam` points. It is a parameter of the strategies;
  `lugarBytes` is the address the code computes.
-/

import SistemasOperacionais.Data.Headers

namespace MeuAlloc

open Headers

/-- `struct hole` -/
structure Hole where
  tam : ℤ
  ant : Option ℤ
  prox : Option ℤ
  deriving DecidableEq, Repr

/-- The constructor in the order data, next, previous. -/
def Hole.linked (tam : ℤ) (prox ant : Option ℤ) : Hole := ⟨tam, ant, prox⟩

/-- `memoria_base` -/
def memoriaBase : ℤ := 1024

/-- The headers in memory and the global pointers. -/
structure State where
  memory : Memory Hole
  listaMemoria : Option ℤ
  ptrNextFit : Option ℤ

/-- `mod` -/
def mod (valor : ℤ) : ℤ := if valor < 0 then valor * (-1) else valor

/-- What `mostra_mem` prints: the `tam` of every block, and the two totals. -/
structure Mostra where
  blocos : List ℤ
  livre : ℤ
  ocupada : ℤ
  deriving DecidableEq, Repr

section

variable (tamHole : ℤ)

/-- The loop of `mostra_mem`, with `livre`, `ocupada` and `i` so far. -/
def mostraLoop (memory : Memory Hole) :
    ℕ → Option ℤ → List ℤ → ℤ → ℤ → ℤ → Option Mostra
  | 0, _, _, _, _, _ => none
  | _ + 1, none, blocos, livre, ocupada, i => some ⟨blocos, livre, ocupada + tamHole * (i - 1)⟩
  | fuel + 1, some atual, blocos, livre, ocupada, i => do
      let hole ← memory atual
      if 0 ≤ hole.tam then
        mostraLoop memory fuel hole.prox (blocos ++ [hole.tam]) (livre + hole.tam) ocupada (i + 1)
      else
        mostraLoop memory fuel hole.prox (blocos ++ [hole.tam]) livre (ocupada + mod hole.tam)
          (i + 1)

/-- `mostra_mem` -/
def mostraMem (s : State) (fuel : ℕ) : Option Mostra :=
  mostraLoop tamHole s.memory fuel s.listaMemoria [] 0 0 0

/-- `inicializa_mem`, where `malloc` returns `base`. -/
def inicializaMem (base : ℤ) : State where
  memory := store tamHole (fun _ => none) base ⟨memoriaBase, none, none⟩
  listaMemoria := some base
  ptrNextFit := some base

/-- The body of the loop of `merge`, with the sum of two sizes and the rest of the loop given. -/
def corpo (soma : ℤ → ℤ → ℤ) (resto : Memory Hole → Option ℤ → Option (Memory Hole))
    (memory : Memory Hole) (atual : ℤ) : Option (Memory Hole) := do
  let hole ← memory atual
  if 0 ≤ hole.tam then
    match hole.prox with
    | none => some memory
    | some proximo => do
        let next ← memory proximo
        if 0 ≤ next.tam then
          let memory ← modify tamHole memory atual fun hole => { hole with prox := next.prox }
          let memory ← modify tamHole memory atual fun hole =>
            { hole with tam := soma hole.tam next.tam }
          let memory ← match next.prox with
            | none => some memory
            | some behind => modify tamHole memory behind fun hole =>
                { hole with ant := some atual }
          resto memory (some atual)
        else resto memory hole.prox
  else resto memory hole.prox

/-- `merge`: the loop from `atual` on. -/
def Com.merge (int : ℤ → ℤ) (memory : Memory Hole) : ℕ → Option ℤ → Option (Memory Hole)
  | 0, _ => none
  | _ + 1, none => some memory
  | fuel + 1, some atual =>
      corpo tamHole (fun x y => int (int (x + tamHole) + y)) (fun memory => merge int memory fuel)
        memory atual

/-- `merge` without overflows. -/
def merge (memory : Memory Hole) (fuel : ℕ) (atual : Option ℤ) : Option (Memory Hole) :=
  Com.merge tamHole id memory fuel atual

/-- Where `atual + atual->tam - tam` points when the pointer arithmetic counts headers. -/
def lugarBytes (atual tamAtual tam : ℤ) : ℤ := atual + (tamAtual - tam) * tamHole

variable (lugar : ℤ → ℤ → ℤ → ℤ)

/-- The split that the four strategies make at `anterior`: the new header at `aux` between it and
the block behind, with the two sizes given. `ptrNextFit` becomes `aux`, and the bytes behind the new
header are returned. -/
def dividir (s : State) (anterior tam : ℤ) (sizes : ℤ → ℤ × ℤ) : Option (Option ℤ × State) := do
  let hole ← s.memory anterior
  let aux := lugar anterior hole.tam tam
  let memory := store tamHole s.memory aux ⟨(sizes hole.tam).2, some anterior, hole.prox⟩
  let memory ← modify tamHole memory anterior fun hole =>
    { hole with prox := some aux, tam := (sizes hole.tam).1 }
  let memory ← match hole.prox with
    | none => some memory
    | some prox => modify tamHole memory prox fun hole => { hole with ant := some aux }
  some (some (aux + tamHole), { s with memory := memory, ptrNextFit := some aux })

/-- What a strategy does with its choice: it refuses, or splits the block chosen. -/
def atende (s : State) (tam : ℤ) (sizes : ℤ → ℤ × ℤ) : Option ℤ → Option (Option ℤ × State)
  | none => some (none, s)
  | some atual => dividir tamHole lugar s atual tam sizes

/-- `firstfit` marks the first half used. -/
def Com.usedFirst (int : ℤ → ℤ) (tam tamanhoOriginal : ℤ) : ℤ × ℤ :=
  (int ((-1) * tam), int (int (tamanhoOriginal - tam) - tamHole))

/-- The other strategies mark the second half used. -/
def Com.usedSecond (int : ℤ → ℤ) (tam tamanhoOriginal : ℤ) : ℤ × ℤ :=
  (int (int (tamanhoOriginal - tam) - tamHole), int ((-1) * tam))

/-- The halves without overflows. -/
def usedFirst (tam tamanhoOriginal : ℤ) : ℤ × ℤ := Com.usedFirst tamHole id tam tamanhoOriginal

@[inherit_doc usedFirst]
def usedSecond (tam tamanhoOriginal : ℤ) : ℤ × ℤ := Com.usedSecond tamHole id tam tamanhoOriginal

/-- The loop of `firstfit`: the first block of at least `tam + tamHole`. -/
def firstfitLoop (memory : Memory Hole) (minimo : ℤ) : ℕ → Option ℤ → Option (Option ℤ)
  | 0, _ => none
  | _ + 1, none => some none
  | fuel + 1, some atual => do
      let hole ← memory atual
      if minimo ≤ hole.tam then some (some atual) else firstfitLoop memory minimo fuel hole.prox

/-- The block that `firstfit` chooses. -/
def Com.escolheFirst (int : ℤ → ℤ) (s : State) (fuel : ℕ) (tam : ℤ) : Option (Option ℤ) :=
  firstfitLoop s.memory (int (tam + tamHole)) fuel s.listaMemoria

/-- `firstfit` -/
def Com.firstfit (int : ℤ → ℤ) (s : State) (fuel : ℕ) (tam : ℤ) : Option (Option ℤ × State) := do
  let atual ← Com.escolheFirst tamHole int s fuel tam
  atende tamHole lugar s tam (Com.usedFirst tamHole int tam) atual

/-- `firstfit` without overflows. -/
def firstfit (s : State) (fuel : ℕ) (tam : ℤ) : Option (Option ℤ × State) :=
  Com.firstfit tamHole lugar id s fuel tam

/-- The loop of `bestfit`, with `menorTam` and `ptrMenor` so far. -/
def bestfitLoop (memory : Memory Hole) (minimo : ℤ) :
    ℕ → Option ℤ → ℤ → Option ℤ → Option (ℤ × Option ℤ)
  | 0, _, _, _ => none
  | _ + 1, none, menorTam, ptrMenor => some (menorTam, ptrMenor)
  | fuel + 1, some atual, menorTam, ptrMenor => do
      let hole ← memory atual
      if minimo ≤ hole.tam ∧ hole.tam ≤ menorTam then
        bestfitLoop memory minimo fuel hole.prox hole.tam (some atual)
      else bestfitLoop memory minimo fuel hole.prox menorTam ptrMenor

/-- The block that `bestfit` chooses. With `menorTam` still `memoria_base` it is the first block of
the list. -/
def Com.escolheBest (int : ℤ → ℤ) (s : State) (fuel : ℕ) (tam : ℤ) : Option (Option ℤ) := do
  let (menorTam, ptrMenor) ←
    bestfitLoop s.memory (int (tam + tamHole)) fuel s.listaMemoria memoriaBase none
  match ptrMenor with
  | none => some none
  | some menor => do
      let atual ← if menorTam = memoriaBase then s.listaMemoria else some menor
      some (some atual)

/-- `bestfit` -/
def Com.bestfit (int : ℤ → ℤ) (s : State) (fuel : ℕ) (tam : ℤ) : Option (Option ℤ × State) := do
  let atual ← Com.escolheBest tamHole int s fuel tam
  atende tamHole lugar s tam (Com.usedSecond tamHole int tam) atual

/-- `bestfit` without overflows. -/
def bestfit (s : State) (fuel : ℕ) (tam : ℤ) : Option (Option ℤ × State) :=
  Com.bestfit tamHole lugar id s fuel tam

/-- The loop of `worstfit`, with `maiorTam` and `ptrMaior` so far. -/
def worstfitLoop (memory : Memory Hole) (minimo : ℤ) :
    ℕ → Option ℤ → ℤ → Option ℤ → Option (ℤ × Option ℤ)
  | 0, _, _, _ => none
  | _ + 1, none, maiorTam, ptrMaior => some (maiorTam, ptrMaior)
  | fuel + 1, some atual, maiorTam, ptrMaior => do
      let hole ← memory atual
      if minimo ≤ hole.tam ∧ maiorTam < hole.tam then
        worstfitLoop memory minimo fuel hole.prox hole.tam (some atual)
      else worstfitLoop memory minimo fuel hole.prox maiorTam ptrMaior

/-- The block that `worstfit` chooses. -/
def Com.escolheWorst (int : ℤ → ℤ) (s : State) (fuel : ℕ) (tam : ℤ) : Option (Option ℤ) := do
  let (maiorTam, ptrMaior) ← worstfitLoop s.memory (int (tam + tamHole)) fuel s.listaMemoria 0 none
  if maiorTam = 0 then some none
  else do
    let atual ← ptrMaior
    some (some atual)

/-- `worstfit` -/
def Com.worstfit (int : ℤ → ℤ) (s : State) (fuel : ℕ) (tam : ℤ) : Option (Option ℤ × State) := do
  let atual ← Com.escolheWorst tamHole int s fuel tam
  atende tamHole lugar s tam (Com.usedSecond tamHole int tam) atual

/-- `worstfit` without overflows. -/
def worstfit (s : State) (fuel : ℕ) (tam : ℤ) : Option (Option ℤ × State) :=
  Com.worstfit tamHole lugar id s fuel tam

/-- The loop of `nextfit`: from `ptrNextFit` on, around the end of the list, until it is back. -/
def nextfitLoop (s : State) (minimo : ℤ) : ℕ → Option ℤ → Option (Option ℤ)
  | 0, _ => none
  | fuel + 1, atual => do
      let atual ← atual
      let hole ← s.memory atual
      if minimo ≤ hole.tam then some (some atual)
      else
        let seguinte := if hole.prox = none then s.listaMemoria else hole.prox
        if seguinte = s.ptrNextFit then some none else nextfitLoop s minimo fuel seguinte

/-- `nextfit` -/
def nextfit (s : State) (fuel : ℕ) (tam : ℤ) : Option (Option ℤ × State) := do
  let atual ← nextfitLoop s (tam + tamHole) fuel s.ptrNextFit
  atende tamHole lugar s tam (usedSecond tamHole tam) atual

/-- The methods of `meu_aloca`, 1 to 4. -/
inductive Metodo
  | first
  | best
  | worst
  | next
  deriving DecidableEq, Repr

/-- The halves that a method makes of a block. -/
def Metodo.metades (tam : ℤ) : Metodo → ℤ → ℤ × ℤ
  | .first => usedFirst tamHole tam
  | .best | .worst | .next => usedSecond tamHole tam

/-- `meu_aloca` -/
def meuAloca (s : State) (fuel : ℕ) : Metodo → ℤ → Option (Option ℤ × State)
  | .first, tam => firstfit tamHole lugar s fuel tam
  | .best, tam => bestfit tamHole lugar s fuel tam
  | .worst, tam => worstfit tamHole lugar s fuel tam
  | .next, tam => nextfit tamHole lugar s fuel tam

/-- `meu_libera` -/
def meuLibera (s : State) (fuel : ℕ) : Option ℤ → Option State
  | none => some s
  | some ponteiro => do
      let atual := ponteiro - tamHole
      let memory ← modify tamHole s.memory atual fun hole => { hole with tam := mod hole.tam }
      let memory ← merge tamHole memory fuel s.listaMemoria
      some { s with memory := memory }

end

/-! ### One pass of `merge` -/

/-- What is left when the header `next` behind the one at `a` is taken out, with the size given. -/
def absorve (h : ℤ) (memory : Memory Hole) (a : ℤ) (hole next : Hole) (tam : ℤ) :
    Option (Memory Hole) :=
  match next.prox with
  | none => some (store h memory a ⟨tam, hole.ant, none⟩)
  | some behind => modify h (store h memory a ⟨tam, hole.ant, some behind⟩) behind fun hole =>
      { hole with ant := some a }

theorem Com.merge_succ (h : ℤ) (int : ℤ → ℤ) (memory : Memory Hole) (fuel : ℕ) (atual : ℤ) :
    Com.merge h int memory (fuel + 1) (some atual) =
      corpo h (fun x y => int (int (x + h) + y)) (fun memory => Com.merge h int memory fuel) memory
        atual :=
  rfl

theorem merge_succ (h : ℤ) (memory : Memory Hole) (fuel : ℕ) (atual : ℤ) :
    merge h memory (fuel + 1) (some atual) =
      corpo h (fun x y => x + h + y) (fun memory => merge h memory fuel) memory atual :=
  rfl

section Passos

variable {h a b : ℤ} {memory : Memory Hole} {hole next : Hole} {soma : ℤ → ℤ → ℤ}
  {resto : Memory Hole → Option ℤ → Option (Memory Hole)}

/-- Two free blocks: the second is taken out, and the loop stays where it is. -/
theorem corpo_absorve (found : memory a = some hole) (left : 0 ≤ hole.tam)
    (link : hole.prox = some b) (there : memory b = some next) (right : 0 ≤ next.tam) :
    corpo h soma resto memory a =
      (absorve h memory a hole next (soma hole.tam next.tam)).bind fun memory =>
        resto memory (some a) := by
  rw [corpo, found, Option.bind_eq_bind, Option.bind_some, if_pos left, link]
  dsimp only
  rw [there, Option.bind_some, if_pos right, modify_eq found, Option.bind_eq_bind,
    Option.bind_some, modify_eq store_self, store_store, Option.bind_some, absorve]
  cases next.prox <;> rfl

/-- Otherwise the loop goes on to the block behind. -/
theorem corpo_passa (found : memory a = some hole) (link : hole.prox = some b)
    (there : memory b = some next) (apart : ¬ (0 ≤ hole.tam ∧ 0 ≤ next.tam)) :
    corpo h soma resto memory a = resto memory (some b) := by
  rw [corpo, found, Option.bind_eq_bind, Option.bind_some, link]
  dsimp only
  split
  · rename_i free
    rw [there, Option.bind_some, if_neg fun right => apart ⟨free, right⟩]
  · rfl

/-- At the last block it ends, at once or in the next pass. -/
theorem corpo_fim (found : memory a = some hole) (link : hole.prox = none) :
    corpo h soma resto memory a = if 0 ≤ hole.tam then some memory else resto memory none := by
  rw [corpo, found, Option.bind_eq_bind, Option.bind_some, link]

end Passos

end MeuAlloc
