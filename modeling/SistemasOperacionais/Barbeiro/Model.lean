/-
**`barbeiro.c`: the sleeping barber.**

One thread runs `barbeiro`, any number of threads run `cliente`, over the semaphores `sem_clientes`,
`sem_barbeiros` and `mutex` and the counter `esperando`. `sem_wait` waits while the value is zero
and then takes one, `sem_post` adds one, both in one step.

* `program` — one statement at a time. Five counters are kept beside the source's variables: the
  customers admitted, the posts of `sem_barbeiros`, the customers that passed the wait for it, the
  haircuts begun (the barber has left its critical region), and the calls of `cortarCabelo`. A
  customer that passes the wait as the `k`-th one is the customer of the `k`-th haircut.
* `Act` — **what a step can do** (`act_of_program`).

The texts printed and `sleep` are left out.
-/

import SistemasOperacionais.Runs.Threads
import Mathlib.Algebra.Ring.Int.Defs
import Mathlib.Data.Fintype.Option

namespace Barbeiro

open Threads

structure Shared where
  semClientes : ℕ
  semBarbeiros : ℕ
  mutex : ℕ
  esperando : ℤ
  /-- how often `esperando` was incremented -/
  admitted : ℕ
  /-- how often `sem_barbeiros` was posted -/
  posted : ℕ
  /-- how often a customer passed its wait for `sem_barbeiros` -/
  passed : ℕ
  /-- how often the barber left its critical region for a haircut -/
  begun : ℕ
  /-- how often the barber called `cortarCabelo` -/
  cortes : ℕ

/-- Where a customer is: the statement it executes next. -/
inductive ClienteAt
  | waitMutex
  /-- `if(esperando < CADEIRAS)` -/
  | test
  | chegou
  | increment
  | postClientes
  | postMutex
  | waitBarbeiros
  /-- past the wait, in front of `cortandoCabelo` -/
  | seated (haircut : ℕ)
  /-- in `cortandoCabelo` -/
  | cortandoCabelo (haircut : ℕ)
  | served
  /-- the shop is full: `sem_post(&mutex)` -/
  | fullPost
  | desistiu
  | gone
  deriving DecidableEq, Repr

/-- Where the barber is. -/
inductive BarbeiroAt
  | waitClientes
  | waitMutex
  | decrement
  | postBarbeiros
  | postMutex
  /-- past `sem_post(&mutex)`, in front of `cortarCabelo` -/
  | ready
  /-- in `cortarCabelo` -/
  | cortarCabelo
  deriving DecidableEq, Repr

inductive Local
  | cliente (place : ClienteAt)
  | barbeiro (place : BarbeiroAt)
  deriving DecidableEq, Repr

/-- One step of `cliente`. -/
def cliente (CADEIRAS : ℕ) (s : Shared) : ClienteAt → Option (Shared × ClienteAt)
  | .waitMutex => if 0 < s.mutex then some ({ s with mutex := s.mutex - 1 }, .test) else none
  | .test => some (s, if s.esperando < CADEIRAS then .chegou else .fullPost)
  | .chegou => some (s, .increment)
  | .increment =>
    some ({ s with esperando := s.esperando + 1, admitted := s.admitted + 1 }, .postClientes)
  | .postClientes => some ({ s with semClientes := s.semClientes + 1 }, .postMutex)
  | .postMutex => some ({ s with mutex := s.mutex + 1 }, .waitBarbeiros)
  | .waitBarbeiros =>
    if 0 < s.semBarbeiros then
      some ({ s with semBarbeiros := s.semBarbeiros - 1, passed := s.passed + 1 },
        .seated (s.passed + 1))
    else none
  | .seated haircut => some (s, .cortandoCabelo haircut)
  | .cortandoCabelo _ => some (s, .served)
  | .served => none
  | .fullPost => some ({ s with mutex := s.mutex + 1 }, .desistiu)
  | .desistiu => some (s, .gone)
  | .gone => none

/-- One step of `barbeiro`. -/
def barbeiro (s : Shared) : BarbeiroAt → Option (Shared × BarbeiroAt)
  | .waitClientes =>
    if 0 < s.semClientes then some ({ s with semClientes := s.semClientes - 1 }, .waitMutex)
    else none
  | .waitMutex => if 0 < s.mutex then some ({ s with mutex := s.mutex - 1 }, .decrement) else none
  | .decrement => some ({ s with esperando := s.esperando - 1 }, .postBarbeiros)
  | .postBarbeiros =>
    some ({ s with semBarbeiros := s.semBarbeiros + 1, posted := s.posted + 1 }, .postMutex)
  | .postMutex => some ({ s with mutex := s.mutex + 1, begun := s.begun + 1 }, .ready)
  | .ready => some ({ s with cortes := s.cortes + 1 }, .cortarCabelo)
  | .cortarCabelo => some (s, .waitClientes)

variable {ι : Type}

def program (CADEIRAS : ℕ) : Program (Option ι) Shared Local
  | _, s, .cliente place =>
    (cliente CADEIRAS s place).map fun moved => (moved.1, .cliente moved.2)
  | _, s, .barbeiro place => (barbeiro s place).map fun moved => (moved.1, .barbeiro moved.2)

/-- After `main` has set up the semaphores: the barber is thread `none`. -/
def inicio (ι : Type) : Config (Option ι) Shared Local where
  shared := ⟨0, 0, 1, 0, 0, 0, 0, 0, 0⟩
  locals := fun thread => if thread.isNone then .barbeiro .waitClientes else .cliente .waitMutex

/-! ### What a step can do -/

/-- **The statements**, from the place they start at. -/
inductive Act (CADEIRAS : ℕ) (s : Shared) : Local → Shared → Local → Prop
  | enter : 0 < s.mutex →
      Act CADEIRAS s (.cliente .waitMutex) { s with mutex := s.mutex - 1 } (.cliente .test)
  | room : s.esperando < CADEIRAS → Act CADEIRAS s (.cliente .test) s (.cliente .chegou)
  | full : CADEIRAS ≤ s.esperando → Act CADEIRAS s (.cliente .test) s (.cliente .fullPost)
  | chegou : Act CADEIRAS s (.cliente .chegou) s (.cliente .increment)
  | increment : Act CADEIRAS s (.cliente .increment)
      { s with esperando := s.esperando + 1, admitted := s.admitted + 1 } (.cliente .postClientes)
  | announce : Act CADEIRAS s (.cliente .postClientes)
      { s with semClientes := s.semClientes + 1 } (.cliente .postMutex)
  | release : Act CADEIRAS s (.cliente .postMutex) { s with mutex := s.mutex + 1 }
      (.cliente .waitBarbeiros)
  | pass : 0 < s.semBarbeiros → Act CADEIRAS s (.cliente .waitBarbeiros)
      { s with semBarbeiros := s.semBarbeiros - 1, passed := s.passed + 1 }
      (.cliente (.seated (s.passed + 1)))
  | sit {haircut : ℕ} : Act CADEIRAS s (.cliente (.seated haircut)) s
      (.cliente (.cortandoCabelo haircut))
  | rise {haircut : ℕ} : Act CADEIRAS s (.cliente (.cortandoCabelo haircut)) s (.cliente .served)
  | refused : Act CADEIRAS s (.cliente .fullPost) { s with mutex := s.mutex + 1 }
      (.cliente .desistiu)
  | leave : Act CADEIRAS s (.cliente .desistiu) s (.cliente .gone)
  | wake : 0 < s.semClientes → Act CADEIRAS s (.barbeiro .waitClientes)
      { s with semClientes := s.semClientes - 1 } (.barbeiro .waitMutex)
  | lock : 0 < s.mutex → Act CADEIRAS s (.barbeiro .waitMutex) { s with mutex := s.mutex - 1 }
      (.barbeiro .decrement)
  | decrement : Act CADEIRAS s (.barbeiro .decrement) { s with esperando := s.esperando - 1 }
      (.barbeiro .postBarbeiros)
  | post : Act CADEIRAS s (.barbeiro .postBarbeiros)
      { s with semBarbeiros := s.semBarbeiros + 1, posted := s.posted + 1 } (.barbeiro .postMutex)
  | starts : Act CADEIRAS s (.barbeiro .postMutex)
      { s with mutex := s.mutex + 1, begun := s.begun + 1 } (.barbeiro .ready)
  | cut : Act CADEIRAS s (.barbeiro .ready) { s with cortes := s.cortes + 1 }
      (.barbeiro .cortarCabelo)
  | finish : Act CADEIRAS s (.barbeiro .cortarCabelo) s (.barbeiro .waitClientes)

variable {CADEIRAS : ℕ} {s s' : Shared} {l l' : Local}

theorem act_of_cliente {place place' : ClienteAt}
    (run : cliente CADEIRAS s place = some (s', place')) :
    Act CADEIRAS s (.cliente place) s' (.cliente place') := by
  cases place with
  | waitMutex =>
    rw [cliente] at run
    split at run <;> cases run
    exact .enter ‹_›
  | test =>
    cases run
    split
    · exact .room ‹_›
    · exact .full (Int.not_lt.mp ‹_›)
  | chegou =>
    cases run
    exact .chegou
  | increment =>
    cases run
    exact .increment
  | postClientes =>
    cases run
    exact .announce
  | postMutex =>
    cases run
    exact .release
  | waitBarbeiros =>
    rw [cliente] at run
    split at run <;> cases run
    exact .pass ‹_›
  | seated haircut =>
    cases run
    exact .sit
  | cortandoCabelo haircut =>
    cases run
    exact .rise
  | served => cases run
  | fullPost =>
    cases run
    exact .refused
  | desistiu =>
    cases run
    exact .leave
  | gone => cases run

theorem act_of_barbeiro {place place' : BarbeiroAt} (run : barbeiro s place = some (s', place')) :
    Act CADEIRAS s (.barbeiro place) s' (.barbeiro place') := by
  cases place with
  | waitClientes =>
    rw [barbeiro] at run
    split at run <;> cases run
    exact .wake ‹_›
  | waitMutex =>
    rw [barbeiro] at run
    split at run <;> cases run
    exact .lock ‹_›
  | decrement =>
    cases run
    exact .decrement
  | postBarbeiros =>
    cases run
    exact .post
  | postMutex =>
    cases run
    exact .starts
  | ready =>
    cases run
    exact .cut
  | cortarCabelo =>
    cases run
    exact .finish

/-- **Every step is one of the statements.** -/
theorem act_of_program {thread : Option ι} (run : program CADEIRAS thread s l = some (s', l')) :
    Act CADEIRAS s l s' l' := by
  cases l with
  | cliente place =>
    obtain ⟨⟨_, _⟩, moved, same⟩ := Option.map_eq_some_iff.mp run
    cases same
    exact act_of_cliente moved
  | barbeiro place =>
    obtain ⟨⟨_, _⟩, moved, same⟩ := Option.map_eq_some_iff.mp run
    cases same
    exact act_of_barbeiro moved

end Barbeiro
