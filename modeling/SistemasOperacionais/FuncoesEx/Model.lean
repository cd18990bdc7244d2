/-
**`funcoes_ex.cpp`: the functions.**

A first-fit allocator with a singly linked list of the free blocks, `listaLivres`, kept in address
order. An allocated block keeps its header but is on no list. The offset of a split-off header and
the distance in `merge` are counted in headers, since they are computed on `struct header *`.

* `inicializaMem`, `meuAloca`, `merge`, `meuLibera` — the functions of the source over the headers in
  memory; the loops take a bound on their passes, and `none` is undefined or out of passes.
* `procura` — the loop of `meu_aloca`: the first block that is large enough, and the one before it.
* `posicao` — the loop of `meu_libera`: the last free block below the freed one, and the next one.
  It follows the link of a NULL pointer when every free block lies below.
-/

import SistemasOperacionais.Data.Headers

namespace FuncoesEx

open Headers

/-- `struct header` -/
structure Header where
  tam : ℤ
  prox : Option ℤ
  deriving DecidableEq, Repr

/-- The constructor in the order data, next, previous; there is no link back. -/
def Header.linked (tam : ℤ) (prox _ : Option ℤ) : Header := ⟨tam, prox⟩

/-- `tamMemoria` -/
def tamMemoria : ℤ := 10240

structure State where
  memory : Memory Header
  listaLivres : Option ℤ

section

variable (size : ℤ)

/-- `inicializa_mem`, where `malloc` returns `base`. -/
def inicializaMem (base : ℤ) : State where
  memory := store size (fun _ => none) base ⟨tamMemoria - size, none⟩
  listaLivres := some base

/-- The loop of `meu_aloca`, with `anterior` and `atual`. -/
def procura (memory : Memory Header) (tam : ℤ) : ℕ → ℤ → Option ℤ → Option (Option (ℤ × ℤ))
  | 0, _, _ => none
  | _ + 1, _, none => some none
  | fuel + 1, anterior, some atual => do
      let header ← memory atual
      if header.tam < tam + size then procura memory tam fuel atual header.prox
      else some (some (anterior, atual))

/-- A perfect fit: `anterior->prox=atual->prox; atual->prox=NULL;` -/
def perfeito (memory : Memory Header) (anterior atual : ℤ) (header : Header) :
    Option (Memory Header) := do
  let memory ← modify size memory anterior fun before => { before with prox := header.prox }
  modify size memory atual fun header => { header with prox := none }

/-- Where `atual+tam+sizeof(struct header)` points. -/
def novoBloco (atual tam : ℤ) : ℤ := atual + (tam + size) * size

/-- The split: `novoBloco` takes the place of `atual` behind `anterior`. -/
def ajusta (memory : Memory Header) (anterior atual : ℤ) (header : Header) (tam : ℤ) :
    Option (Memory Header) := do
  let novo := novoBloco size atual tam
  let memory ← modify size memory anterior fun before => { before with prox := some novo }
  let memory := store size memory novo ⟨header.tam - size - tam, header.prox⟩
  modify size memory atual fun header => { header with tam := tam }

/-- The part of `meu_aloca` after its loop has stopped at `atual`: unlink or split it, move
`listaLivres` if it was the first, clear its link, and return the bytes behind its header. -/
def retira (s : State) (anterior atual tam : ℤ) : Option (ℤ × State) := do
  let header ← s.memory atual
  let memory ← if header.tam = size + tam then perfeito size s.memory anterior atual header
    else ajusta size s.memory anterior atual header tam
  let header ← memory atual
  let listaLivres := if some atual = s.listaLivres then header.prox else s.listaLivres
  let memory ← modify size memory atual fun header => { header with prox := none }
  some (atual + size, ⟨memory, listaLivres⟩)

/-- `meu_aloca`; no result when no block is large enough. -/
def meuAloca (s : State) (fuel : ℕ) (tam : ℤ) : Option (Option ℤ × State) :=
  match s.listaLivres with
  | none => some (none, s)
  | some primeiro => do
      match ← procura size s.memory tam fuel primeiro (some primeiro) with
      | none => some (none, s)
      | some (anterior, atual) => do
          let (p, s) ← retira size s anterior atual tam
          some (some p, s)

/-- `merge`: whether the two blocks were joined. -/
def merge (memory : Memory Header) (anterior posterior : ℤ) : Option (Bool × Memory Header) := do
  let before ← memory anterior
  if (posterior - anterior) / size - before.tam - size = 0 then
    let after ← memory posterior
    let memory ← modify size memory anterior fun header => { header with prox := after.prox }
    let memory ← modify size memory anterior fun header =>
      { header with tam := size + header.tam + after.tam }
    some (true, memory)
  else some (false, memory)

/-- The loop of `meu_libera`, with `anterior` and `atual`: while `atual` is below the freed header
it follows its link, also when it is NULL. -/
def posicao (memory : Memory Header) (endHeader : ℤ) : ℕ → ℤ → Option ℤ → Option (ℤ × ℤ)
  | 0, _, _ => none
  | _ + 1, _, none => none
  | fuel + 1, anterior, some atual => do
      if atual < endHeader then
        let header ← memory atual
        posicao memory endHeader fuel atual header.prox
      else some (anterior, atual)

/-- `meu_libera` -/
def meuLibera (s : State) (fuel : ℕ) (ponteiro : ℤ) : Option State := do
  let endHeader := ponteiro - size
  -- with `listaLivres` NULL the first test fails and the loop follows the NULL pointer
  let primeiro ← s.listaLivres
  if endHeader < primeiro then
    let memory ← modify size s.memory endHeader fun header => { header with prox := some primeiro }
    let (_, memory) ← merge size memory endHeader primeiro
    some ⟨memory, some endHeader⟩
  else
    let (anterior, atual) ← posicao s.memory endHeader fuel primeiro (some primeiro)
    let before ← s.memory anterior
    let memory ← modify size s.memory endHeader fun header => { header with prox := before.prox }
    let memory ← modify size memory anterior fun header => { header with prox := some endHeader }
    let (joined, memory) ← merge size memory anterior endHeader
    if joined then
      let (_, memory) ← merge size memory anterior atual
      some ⟨memory, s.listaLivres⟩
    else
      let (_, memory) ← merge size memory endHeader atual
      some ⟨memory, s.listaLivres⟩

end

end FuncoesEx
