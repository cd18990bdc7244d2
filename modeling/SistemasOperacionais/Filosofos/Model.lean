/-
**`filosofos.c`: the dining philosophers as threads.**

`N` threads run `acao_filosofo`, thread `i` with index `i`. The shared state is the semaphore
`mutex`, the private semaphores `sem_fil` and the array `state`; `sem_wait` waits while the value is
zero and then takes one, `sem_post` adds one, both in one step.

* `left`, `right` — the macros `LEFT` and `RIGHT`.
* `Call` — the three calls of `test`: `test(i)` in `pegar_garfo`, `test(LEFT)` and `test(RIGHT)` in
  `por_garfo`. `Call.target` is the philosopher tested, `Call.back` where the call returns to.
* `program` — one statement of `acao_filosofo` at a time, with `pegar_garfo`, `por_garfo` and `test`
  in line.

The calls of `mostrar` only print and move the global `i`, which no statement below reads; they are
left out here and are the subject of `Filosofos.StartUp`.
-/

import SistemasOperacionais.Runs.Threads

namespace Filosofos

open Threads

/-- The codes `THINKING`, `HUNGRY` and `EATING`. -/
inductive Estado
  | thinking
  | hungry
  | eating
  deriving DecidableEq, Repr

/-! ### The ring -/

section Ring

variable {N : ℕ}

/-- `LEFT`: `(i+N-1)%N`. -/
def left (i : Fin N) : Fin N := ⟨(i.val + N - 1) % N, Nat.mod_lt _ i.pos⟩

/-- `RIGHT`: `(i+1)%N`. -/
def right (i : Fin N) : Fin N := ⟨(i.val + 1) % N, Nat.mod_lt _ i.pos⟩

theorem right_left (i : Fin N) : right (left i) = i := by
  have small := i.isLt
  apply Fin.ext
  show ((i.val + N - 1) % N + 1) % N = i.val
  rw [Nat.mod_add_mod, show i.val + N - 1 + 1 = i.val + N by omega, Nat.add_mod_right,
    Nat.mod_eq_of_lt small]

theorem left_right (i : Fin N) : left (right i) = i := by
  have small := i.isLt
  apply Fin.ext
  show ((i.val + 1) % N + N - 1) % N = i.val
  rw [show (i.val + 1) % N + N - 1 = (i.val + 1) % N + (N - 1) by omega, Nat.mod_add_mod,
    show i.val + 1 + (N - 1) = i.val + N by omega, Nat.add_mod_right, Nat.mod_eq_of_lt small]

/-- With two philosophers or more nobody is their own neighbour. -/
theorem right_ne (two : 2 ≤ N) (i : Fin N) : right i ≠ i := by
  have small := i.isLt
  intro same
  have value : (i.val + 1) % N = i.val := congrArg Fin.val same
  rcases Nat.lt_or_ge (i.val + 1) N with inside | wrap
  · rw [Nat.mod_eq_of_lt inside] at value
    omega
  · rw [show i.val + 1 = N by omega, Nat.mod_self] at value
    omega

theorem left_ne (two : 2 ≤ N) (i : Fin N) : left i ≠ i := by
  intro same
  have back := right_left i
  rw [same] at back
  exact right_ne two i back

/-- The philosophers on either side. -/
def Neighbours (i j : Fin N) : Prop := j = left i ∨ j = right i

end Ring

/-! ### The threads -/

/-- The semaphores and the array `state`. -/
structure Shared (N : ℕ) where
  mutex : ℕ
  semFil : Fin N → ℕ
  state : Fin N → Estado

/-- The calls of `test`. -/
inductive Call
  | own
  | left
  | right
  deriving DecidableEq, Repr

/-- Where a philosopher is: the statement it executes next. -/
inductive Place
  | pensar
  /-- `pegar_garfo`: `sem_wait(&mutex)` -/
  | pegarWait
  | pegarHungry
  /-- `test`: the condition of the `if` -/
  | testIf (call : Call)
  /-- `test`: `state[i]=EATING` -/
  | testEat (call : Call)
  /-- `test`: `sem_post(&sem_fil[i])` -/
  | testPost (call : Call)
  /-- `pegar_garfo`: `sem_post(&mutex)` -/
  | pegarPost
  /-- `pegar_garfo`: `sem_wait(&sem_fil[i])` -/
  | pegarFil
  | comer
  /-- `por_garfo`: `sem_wait(&mutex)` -/
  | porWait
  | porThinking
  /-- `por_garfo`: `sem_post(&mutex)` -/
  | porPost
  deriving DecidableEq, Repr

/-- The philosopher a call of `test` by `i` is about. -/
def Call.target {N : ℕ} (i : Fin N) : Call → Fin N
  | .own => i
  | .left => Filosofos.left i
  | .right => Filosofos.right i

/-- The statement after a call of `test`. -/
def Call.back : Call → Place
  | .own => .pegarPost
  | .left => .testIf .right
  | .right => .porPost

/-- The condition of `test(i)`. -/
def CanEat {N : ℕ} (state : Fin N → Estado) (i : Fin N) : Prop :=
  state i = .hungry ∧ state (left i) ≠ .eating ∧ state (right i) ≠ .eating

instance {N : ℕ} (state : Fin N → Estado) (i : Fin N) : Decidable (CanEat state i) :=
  inferInstanceAs (Decidable (_ ∧ _ ∧ _))

/-- One step of philosopher `i`. -/
def program {N : ℕ} : Program (Fin N) (Shared N) Place
  | _, s, .pensar => some (s, .pegarWait)
  | _, s, .pegarWait =>
      if s.mutex = 0 then none else some ({ s with mutex := s.mutex - 1 }, .pegarHungry)
  | i, s, .pegarHungry =>
      some ({ s with state := Function.update s.state i .hungry }, .testIf .own)
  | i, s, .testIf call =>
      if CanEat s.state (call.target i) then some (s, .testEat call) else some (s, call.back)
  | i, s, .testEat call =>
      some ({ s with state := Function.update s.state (call.target i) .eating }, .testPost call)
  | i, s, .testPost call =>
      some ({ s with semFil :=
        Function.update s.semFil (call.target i) (s.semFil (call.target i) + 1) }, call.back)
  | _, s, .pegarPost => some ({ s with mutex := s.mutex + 1 }, .pegarFil)
  | i, s, .pegarFil =>
      if s.semFil i = 0 then none
      else some ({ s with semFil := Function.update s.semFil i (s.semFil i - 1) }, .comer)
  | _, s, .comer => some (s, .porWait)
  | _, s, .porWait =>
      if s.mutex = 0 then none else some ({ s with mutex := s.mutex - 1 }, .porThinking)
  | i, s, .porThinking =>
      some ({ s with state := Function.update s.state i .thinking }, .testIf .left)
  | _, s, .porPost => some ({ s with mutex := s.mutex + 1 }, .pensar)

/-- `main`: `mutex` is one, every `sem_fil` zero, everybody thinks. -/
def start (N : ℕ) : Config (Fin N) (Shared N) Place where
  shared := ⟨1, fun _ => 0, fun _ => .thinking⟩
  locals _ := .pensar

/-- Between the return of `pegar_garfo` and `state[i]=THINKING` in `por_garfo`. -/
def Place.eats : Place → Bool
  | .comer | .porWait | .porThinking => true
  | _ => false

end Filosofos
