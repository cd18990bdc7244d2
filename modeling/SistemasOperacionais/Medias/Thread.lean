/-
**`thread.c`: the averages, computed by threads.**

`main` creates `N_NOTAS/TAMANHOPIPE` threads and joins them. Each takes the slice that starts at the
shared counter `b`, writes the averages of its records to `notas2`, and adds `TAMANHOPIPE` to `b`
when it ends. Nothing locks `b`.

* `program` — `main` (`none`) and the threads (`some t`). `k = b`, every write of an average, and
  the read and the write of `b += TAMANHOPIPE` are steps of their own.
* `slice_lost` — two threads that read `b` before either has written it take the same slice, and
  another slice is taken by nobody.
* `Sozinha` — the condition: a thread reads `k = b` only while no other is between that read and its
  write of `b`.
* `Fatias` — what the counter then says: the indices written are `0, 1, 2, …` in this order, as far
  as `b` and the thread at work have come.
* `written_once` — **in every run of steps that meet the condition, once `main` has joined all
  threads, every index below `N_NOTAS` has been written by exactly one thread.**

`escritas` records who wrote which index. The opening and closing of the file are left out.
-/

import SistemasOperacionais.Runs.Threads
import Mathlib.Data.Fintype.Option
import Mathlib.Data.List.Nodup
import Mathlib.Data.Rat.Defs

set_option linter.unusedSectionVars false

namespace Medias

open Transition Threads

/-- A record of `nota.lst`. -/
structure Registro (F : Type) where
  n1 : F
  n2 : F
  n3 : F
  deriving DecidableEq, Repr

/-- The average of a record, without the third mark if the first two suffice. -/
def media {F : Type} [Add F] [Div F] [LE F] [DecidableLE F] [NatCast F] (registro : Registro F) :
    F :=
  if ((14 : ℕ) : F) ≤ registro.n1 + registro.n2 then (registro.n1 + registro.n2) / ((2 : ℕ) : F)
  else (registro.n1 + registro.n2 + registro.n3) / ((3 : ℕ) : F)

structure Shared (F : Type) (n : ℕ) where
  b : ℕ
  notas2 : ℕ → F
  /-- how many threads `main` has created -/
  criadas : ℕ
  /-- the threads that have ended, for `pthread_join` -/
  terminadas : Fin n → Bool
  /-- who wrote which index, in order -/
  escritas : List (Fin n × ℕ)

/-- Where `main` or a thread is. -/
inductive Lugar
  /-- `main`: `pthread_create(&threads[i], …)` -/
  | cria (i : ℕ)
  /-- `main`: `pthread_join(threads[i], NULL)` -/
  | junta (i : ℕ)
  /-- `main`: all threads joined -/
  | imprime
  /-- `int k = b` -/
  | inicio
  /-- the loop, at record `i` -/
  | laco (k i : ℕ)
  /-- `b += TAMANHOPIPE`: the read -/
  | leB
  /-- `b += TAMANHOPIPE`: the write -/
  | gravaB (lido : ℕ)
  | fim
  deriving DecidableEq, Repr

section Program

variable {F : Type} [Add F] [Div F] [LE F] [DecidableLE F] [NatCast F] {n : ℕ}

def passoMain (s : Shared F n) (lugar : Lugar) : Option (Shared F n × Lugar) :=
  match lugar with
  | .cria i =>
      if i < n then some ({ s with criadas := i + 1 }, .cria (i + 1)) else some (s, .junta 0)
  | .junta i =>
      if known : i < n then
        if s.terminadas ⟨i, known⟩ then some (s, .junta (i + 1)) else none
      else some (s, .imprime)
  | _ => none

/-- `notas2[i] = …` -/
def escreve (arquivo : ℕ → Registro F) (s : Shared F n) (t : Fin n) (i : ℕ) : Shared F n :=
  { s with
    notas2 := Function.update s.notas2 i (media (arquivo i))
    escritas := s.escritas ++ [(t, i)] }

def passoThread (arquivo : ℕ → Registro F) (tamanhoPipe : ℕ) (t : Fin n) (s : Shared F n)
    (lugar : Lugar) : Option (Shared F n × Lugar) :=
  match lugar with
  | .inicio => if t.val < s.criadas then some (s, .laco s.b s.b) else none
  | .laco k i =>
      if i < k + tamanhoPipe then some (escreve arquivo s t i, .laco k (i + 1)) else some (s, .leB)
  | .leB => some (s, .gravaB s.b)
  | .gravaB lido =>
      some ({ s with
        b := lido + tamanhoPipe
        terminadas := Function.update s.terminadas t true }, .fim)
  | _ => none

/-- **`main` and its threads.** -/
def program (arquivo : ℕ → Registro F) (tamanhoPipe : ℕ) :
    Program (Option (Fin n)) (Shared F n) Lugar
  | none => passoMain
  | some t => passoThread arquivo tamanhoPipe t

/-- `main` before its first `pthread_create`. -/
def start (notas : ℕ → F) (n : ℕ) : Config (Option (Fin n)) (Shared F n) Lugar where
  shared := ⟨0, notas, 0, fun _ => false, []⟩
  locals
    | none => .cria 0
    | some _ => .inicio

end Program

/-- The thread is between its read `k = b` and its write of `b`. -/
def Lugar.trabalha : Lugar → Bool
  | .laco .. | .leB | .gravaB _ => true
  | _ => false

/-! ### Two threads with one slice -/

/-- **A slice written twice and a slice written by nobody**: two threads read `b` before either has
written it. -/
theorem slice_lost :
    ∃ config : Config (Option (Fin (20 / 10))) (Shared ℚ (20 / 10)) Lugar,
      Reachable (step (program (fun _ => ⟨7, 7, 0⟩) 10)) (start (fun _ => 0) (20 / 10)) config ∧
        config.locals none = .imprime ∧ ¬ ∀ i < 20, ∃! t, (t, i) ∈ config.shared.escritas := by
  have evaluated : ∃ config : Config (Option (Fin (20 / 10))) (Shared ℚ (20 / 10)) Lugar,
      Reachable (step (program (fun _ => ⟨7, 7, 0⟩) 10)) (start (fun _ => 0) (20 / 10)) config ∧
        config.locals none = .imprime ∧ ∀ escrita ∈ config.shared.escritas, escrita.2 ≠ 10 :=
    exists_reach_of_execute
      ([none, none, none, some 0, some 1] ++ List.replicate 13 (some 0) ++
        List.replicate 13 (some 1) ++ [none, none, none]) _ (by decide +kernel)
  obtain ⟨config, reach, joined, untouched⟩ := evaluated
  refine ⟨config, reach, joined, fun each => ?_⟩
  obtain ⟨t, wrote, _⟩ := each 10 (by decide)
  exact untouched (t, 10) wrote rfl

/-! ### What a step does -/

section Steps

variable {F : Type} [Add F] [Div F] [LE F] [DecidableLE F] [NatCast F] {n : ℕ}
  {arquivo : ℕ → Registro F} {tamanhoPipe : ℕ} {notas : ℕ → F}

/-- The moves. -/
inductive Ato (arquivo : ℕ → Registro F) (tamanhoPipe : ℕ) (s : Shared F n) :
    Option (Fin n) → Lugar → Shared F n → Lugar → Prop
  | cria (i : ℕ) : Ato arquivo tamanhoPipe s none (.cria i) { s with criadas := i + 1 }
      (.cria (i + 1))
  | criadas (i : ℕ) : Ato arquivo tamanhoPipe s none (.cria i) s (.junta 0)
  | junta (t : Fin n) : s.terminadas t = true →
      Ato arquivo tamanhoPipe s none (.junta t) s (.junta (t + 1))
  | juntas (i : ℕ) : n ≤ i → Ato arquivo tamanhoPipe s none (.junta i) s .imprime
  | inicio (t : Fin n) : Ato arquivo tamanhoPipe s (some t) .inicio s (.laco s.b s.b)
  | escreve (t : Fin n) (k i : ℕ) : i < k + tamanhoPipe →
      Ato arquivo tamanhoPipe s (some t) (.laco k i) (escreve arquivo s t i) (.laco k (i + 1))
  | fecha (t : Fin n) (k i : ℕ) : k + tamanhoPipe ≤ i →
      Ato arquivo tamanhoPipe s (some t) (.laco k i) s .leB
  | leB (t : Fin n) : Ato arquivo tamanhoPipe s (some t) .leB s (.gravaB s.b)
  | gravaB (t : Fin n) (lido : ℕ) : Ato arquivo tamanhoPipe s (some t) (.gravaB lido)
      { s with
        b := lido + tamanhoPipe
        terminadas := Function.update s.terminadas t true } .fim

/-- **The inversion of a step.** -/
theorem ato_of_program {thread : Option (Fin n)} {s after : Shared F n} {lugar place : Lugar}
    (moved : program arquivo tamanhoPipe thread s lugar = some (after, place)) :
    Ato arquivo tamanhoPipe s thread lugar after place := by
  cases thread with
  | none =>
    replace moved : passoMain s lugar = some (after, place) := moved
    unfold passoMain at moved
    split at moved
    · split at moved <;> cases moved
      · exact .cria _
      · exact .criadas _
    · split at moved
      · rename_i i known
        split at moved <;> cases moved
        exact .junta ⟨i, known⟩ ‹_›
      · cases moved
        exact .juntas _ (Nat.le_of_not_lt ‹_›)
    · cases moved
  | some t =>
    replace moved : passoThread arquivo tamanhoPipe t s lugar = some (after, place) := moved
    unfold passoThread at moved
    split at moved
    · split at moved <;> cases moved
      exact .inicio t
    · split at moved <;> cases moved
      · exact .escreve t _ _ ‹_›
      · exact .fecha t _ _ (Nat.le_of_not_lt ‹_›)
    · cases moved
      exact .leB t
    · cases moved
      exact .gravaB t _
    · cases moved

/-- Who has ended does not move. -/
theorem Ato.ne_fim {thread : Option (Fin n)} {s after : Shared F n} {lugar place : Lugar}
    (ato : Ato arquivo tamanhoPipe s thread lugar after place) : lugar ≠ .fim := by
  cases ato <;> exact nofun

/-- A thread is marked as ended by its own last step. -/
theorem Ato.terminadas {thread : Option (Fin n)} {s after : Shared F n} {lugar place : Lugar}
    (ato : Ato arquivo tamanhoPipe s thread lugar after place) {u : Fin n}
    (ended : after.terminadas u = true) :
    s.terminadas u = true ∨ thread = some u ∧ place = .fim := by
  cases ato with
  | gravaB t lido =>
    by_cases same : u = t
    · exact .inr ⟨congrArg some same.symm, rfl⟩
    · exact .inl ((Function.update_of_ne same ..).symm.trans ended)
  | _ => exact .inl ended

/-! ### What `main` has joined -/

/-- What `main` knows at its place. -/
def Juntadas (locals : Option (Fin n) → Lugar) : Lugar → Prop
  | .junta i => ∀ t : Fin n, t.val < i → locals (some t) = .fim
  | .imprime => ∀ t : Fin n, locals (some t) = .fim
  | _ => True

/-- The threads joined have ended. -/
structure Encerradas (config : Config (Option (Fin n)) (Shared F n) Lugar) : Prop where
  fim : ∀ t : Fin n, config.shared.terminadas t = true → config.locals (some t) = .fim
  main : Juntadas config.locals (config.locals none)

theorem Juntadas.mono {locals moved : Option (Fin n) → Lugar} {lugar : Lugar}
    (known : Juntadas locals lugar)
    (still : ∀ t : Fin n, locals (some t) = .fim → moved (some t) = .fim) :
    Juntadas moved lugar := by
  cases lugar with
  | junta i => exact fun t less => still t (known t less)
  | imprime => exact fun t => still t (known t)
  | _ => exact known

/-- A move of `main`: a join adds the thread it waited for. -/
theorem Ato.juntadas {s after : Shared F n} {lugar place : Lugar}
    {locals : Option (Fin n) → Lugar} (ato : Ato arquivo tamanhoPipe s none lugar after place)
    (ended : ∀ t : Fin n, s.terminadas t = true → locals (some t) = .fim)
    (known : Juntadas locals lugar) : Juntadas locals place := by
  cases ato with
  | cria i => trivial
  | criadas i => exact fun t none => absurd none (Nat.not_lt_zero _)
  | junta t done =>
    intro u less
    rcases Nat.lt_succ_iff_lt_or_eq.mp less with before | same
    · exact known u before
    · rw [Fin.ext same]
      exact ended t done
  | juntas i all => exact fun t => known t (Nat.lt_of_lt_of_le t.isLt all)

theorem encerradas_step {config after : Config (Option (Fin n)) (Shared F n) Lugar}
    {thread : Option (Fin n)} (before : Encerradas config)
    (moved : step (program arquivo tamanhoPipe) config thread = some after) :
    Encerradas after := by
  obtain ⟨shared, place, run, rfl⟩ := step_eq_some moved
  have ato := ato_of_program run
  have still : ∀ t : Fin n, config.locals (some t) = .fim →
      Function.update config.locals thread place (some t) = .fim := by
    intro t ended
    have different : some t ≠ thread := by
      rintro rfl
      exact ato.ne_fim ended
    rw [Function.update_of_ne different]
    exact ended
  refine ⟨fun t done => ?_, ?_⟩
  · rcases ato.terminadas done with earlier | ⟨rfl, rfl⟩
    · exact still t (before.fim t earlier)
    · exact Function.update_self ..
  · cases thread with
    | none =>
      show Juntadas _ (Function.update config.locals none place none)
      rw [Function.update_self]
      exact (ato.juntadas before.fim before.main).mono still
    | some t =>
      show Juntadas _ (Function.update config.locals (some t) place none)
      rw [update_some_none]
      exact before.main.mono still

/-! ### One thread at a time -/

/-- **The condition**: a thread reads `k = b` only while no other thread is at work. -/
def Sozinha (config : Config (Option (Fin n)) (Shared F n) Lugar) : Option (Fin n) → Prop
  | none => True
  | some t => config.locals (some t) = .inicio →
      ∀ other : Fin n, (config.locals (some other)).trabalha = false

instance (config : Config (Option (Fin n)) (Shared F n) Lugar) (thread : Option (Fin n)) :
    Decidable (Sozinha config thread) := by
  cases thread <;> unfold Sozinha <;> infer_instance

/-- The indices written so far. -/
def Shared.indices (s : Shared F n) : List ℕ := s.escritas.map Prod.snd

/-- A thread has ended. -/
def ended : Option (Fin n) → Lugar → Bool
  | some _, .fim => true
  | _, _ => false

/-- What a thread at work knows. -/
def Fatia (tamanhoPipe : ℕ) (s : Shared F n) : Lugar → Prop
  | .laco k i => k = s.b ∧ i ≤ k + tamanhoPipe ∧ s.indices = List.range i
  | .leB => s.indices = List.range (s.b + tamanhoPipe)
  | .gravaB lido => lido = s.b ∧ s.indices = List.range (s.b + tamanhoPipe)
  | _ => True

/-- **The slices**: one thread at work at a time, `b` counts the slices done, and the indices are
written in order. -/
structure Fatias (tamanhoPipe : ℕ) (config : Config (Option (Fin n)) (Shared F n) Lugar) :
    Prop where
  uma : ∀ t u : Fin n, (config.locals (some t)).trabalha = true →
    (config.locals (some u)).trabalha = true → t = u
  feitas : config.shared.b = tamanhoPipe * count ended config.locals
  parada : (∀ t : Fin n, (config.locals (some t)).trabalha = false) →
    config.shared.indices = List.range config.shared.b
  ativa : ∀ t : Fin n, Fatia tamanhoPipe config.shared (config.locals (some t))

theorem fatia_of_not_trabalha {s : Shared F n} {lugar : Lugar} (idle : lugar.trabalha = false) :
    Fatia tamanhoPipe s lugar := by
  cases lugar with
  | laco | leB | gravaB => cases idle
  | _ => trivial

/-- A move of a thread while no other is at work. -/
theorem fatias_move {config : Config (Option (Fin n)) (Shared F n) Lugar} {t : Fin n}
    {shared : Shared F n} {place : Lugar}
    (others : ∀ u, u ≠ t → (config.locals (some u)).trabalha = false)
    (done : shared.b = tamanhoPipe * count ended (Function.update config.locals (some t) place))
    (idle : place.trabalha = false → shared.indices = List.range shared.b)
    (own : Fatia tamanhoPipe shared place) :
    Fatias tamanhoPipe ⟨shared, Function.update config.locals (some t) place⟩ := by
  have moved : Function.update config.locals (some t) place (some t) = place :=
    Function.update_self ..
  have alone : ∀ u, u ≠ t →
      (Function.update config.locals (some t) place (some u)).trabalha = false := by
    intro u different
    rw [update_some_of_ne _ _ different]
    exact others u different
  have only : ∀ u, (Function.update config.locals (some t) place (some u)).trabalha = true →
      u = t := by
    intro u working
    by_contra different
    rw [alone u different] at working
    cases working
  refine ⟨fun u v first second => (only u first).trans (only v second).symm, done, ?_, ?_⟩
  · intro nobody
    exact idle (moved ▸ nobody t)
  · intro u
    show Fatia tamanhoPipe shared (Function.update config.locals (some t) place (some u))
    by_cases same : u = t
    · rw [same, moved]
      exact own
    · exact fatia_of_not_trabalha (alone u same)

/-- Only a thread's last step changes the number of threads that have ended. -/
theorem count_ended {locals : Option (Fin n) → Lugar} {thread : Option (Fin n)} {place : Lugar}
    (running : locals thread ≠ .fim) :
    count ended (Function.update locals thread place) =
      count ended locals + (ended thread place).toNat := by
  have changed := count_update ended locals thread place
  have before : ended thread (locals thread) = false := by
    unfold ended
    split
    · exact absurd ‹_› running
    · rfl
  rwa [before] at changed

/-- A move of `main` changes nothing that the slices speak of. -/
theorem fatias_main {config : Config (Option (Fin n)) (Shared F n) Lugar} {shared : Shared F n}
    {place : Lugar} (before : Fatias tamanhoPipe config)
    (ato : Ato arquivo tamanhoPipe config.shared none (config.locals none) shared place) :
    Fatias tamanhoPipe ⟨shared, Function.update config.locals none place⟩ := by
  have kept : shared.b = config.shared.b ∧ shared.indices = config.shared.indices := by
    generalize config.locals none = lugar at ato
    cases ato <;> exact ⟨rfl, rfl⟩
  have same : ∀ t : Fin n, Function.update config.locals none place (some t) =
      config.locals (some t) := update_none_some _ _
  obtain ⟨uma, feitas, parada, ativa⟩ := before
  refine ⟨?_, ?_, ?_, ?_⟩
  · simpa only [same] using uma
  · rw [count_ended ato.ne_fim, kept.1, feitas]
    rfl
  · simpa only [same, kept.1, kept.2] using parada
  · intro t
    show Fatia tamanhoPipe shared (Function.update config.locals none place (some t))
    rw [same]
    unfold Fatia
    rw [kept.1, kept.2]
    exact ativa t

/-- A thread starts its slice or is at work on it. -/
theorem Ato.inicio_or_trabalha {s after : Shared F n} {t : Fin n} {lugar place : Lugar}
    (ato : Ato arquivo tamanhoPipe s (some t) lugar after place) :
    lugar = .inicio ∨ lugar.trabalha = true := by
  cases ato with
  | inicio => exact .inl rfl
  | _ => exact .inr rfl

/-- What a thread's step does to its slice, from `b` when it starts one. -/
theorem Ato.fatia {s after : Shared F n} {t : Fin n} {lugar place : Lugar}
    (ato : Ato arquivo tamanhoPipe s (some t) lugar after place)
    (fresh : lugar = .inicio → s.indices = List.range s.b) (slice : Fatia tamanhoPipe s lugar) :
    after.b = s.b + tamanhoPipe * (ended (some t) place).toNat ∧
      (place.trabalha = false → after.indices = List.range after.b) ∧
      Fatia tamanhoPipe after place := by
  cases ato with
  | inicio t =>
    have whole := fresh rfl
    exact ⟨rfl, nofun, rfl, Nat.le_add_right _ _, whole⟩
  | escreve t k i inside =>
    obtain ⟨first, _, written⟩ := slice
    refine ⟨rfl, nofun, first, inside, ?_⟩
    show (s.escritas ++ [(t, i)]).map Prod.snd = _
    rw [List.map_append, List.range_succ]
    exact congrArg (· ++ [i]) written
  | fecha t k i passed =>
    obtain ⟨first, within, written⟩ := slice
    refine ⟨rfl, nofun, ?_⟩
    show s.indices = List.range (s.b + tamanhoPipe)
    rw [written, ← first, Nat.le_antisymm within passed]
  | leB t => exact ⟨rfl, nofun, rfl, slice⟩
  | gravaB t lido =>
    obtain ⟨rfl, written⟩ := slice
    exact ⟨congrArg (s.b + ·) (Nat.mul_one tamanhoPipe).symm, fun _ => written, trivial⟩

/-- A step of a thread that meets the condition. -/
theorem fatias_thread {config : Config (Option (Fin n)) (Shared F n) Lugar} {t : Fin n}
    {shared : Shared F n} {place : Lugar} (before : Fatias tamanhoPipe config)
    (alone : Sozinha config (some t))
    (ato : Ato arquivo tamanhoPipe config.shared (some t) (config.locals (some t)) shared place) :
    Fatias tamanhoPipe ⟨shared, Function.update config.locals (some t) place⟩ := by
  obtain ⟨b, idle, own⟩ := ato.fatia (fun first => before.parada (alone first)) (before.ativa t)
  refine fatias_move ?_ ?_ idle own
  · intro u different
    rcases ato.inicio_or_trabalha with first | working
    · exact alone first u
    · by_contra busy
      exact different (before.uma u t (Bool.not_eq_false _ ▸ busy) working)
  · rw [count_ended ato.ne_fim, b, before.feitas, Nat.mul_add]

/-- **The slices are kept** by the steps that meet the condition. -/
theorem fatias_step {config after : Config (Option (Fin n)) (Shared F n) Lugar}
    {thread : Option (Fin n)} (before : Fatias tamanhoPipe config)
    (alone : Sozinha config thread)
    (moved : step (program arquivo tamanhoPipe) config thread = some after) :
    Fatias tamanhoPipe after := by
  obtain ⟨shared, place, run, rfl⟩ := step_eq_some moved
  cases thread with
  | none => exact fatias_main before (ato_of_program run)
  | some t => exact fatias_thread before alone (ato_of_program run)

/-! ### The run -/

/-- Nobody has ended at the start. -/
theorem fatias_start (tamanhoPipe : ℕ) (notas : ℕ → F) (n : ℕ) :
    Fatias tamanhoPipe (start notas n) := by
  have none : count ended (start notas n).locals = 0 := by
    refine count_eq_zero fun thread => ?_
    cases thread <;> rfl
  refine ⟨fun t u working _ => ?_, ?_, fun _ => rfl, fun t => trivial⟩
  · cases working
  · rw [none]
    rfl

theorem encerradas_start (notas : ℕ → F) (n : ℕ) : Encerradas (start notas n) :=
  ⟨fun _ done => Bool.noConfusion done, trivial⟩

theorem keeps {config : Config (Option (Fin n)) (Shared F n) Lugar}
    (reach : Reach (step (program arquivo tamanhoPipe)) Sozinha (start notas n) config) :
    Encerradas config ∧ Fatias tamanhoPipe config := by
  refine reach.invariant (fun config => Encerradas config ∧ Fatias tamanhoPipe config)
    ⟨encerradas_start notas n, fatias_start tamanhoPipe notas n⟩ ?_
  intro before thread after kept alone moved
  exact ⟨encerradas_step kept.1 moved, fatias_step kept.2 alone moved⟩

/-- All threads have ended. -/
theorem count_ended_all {locals : Option (Fin n) → Lugar}
    (all : ∀ t : Fin n, locals (some t) = .fim) : count ended locals = n := by
  have everyone : (Finset.univ.filter fun thread => ended thread (locals thread) = true) =
      Finset.univ.erase none := by
    refine Finset.ext fun thread => ?_
    rw [Finset.mem_filter, Finset.mem_erase]
    cases thread with
    | none => exact ⟨fun member => Bool.noConfusion member.2, fun member => absurd rfl member.1⟩
    | some t =>
      rw [all t]
      exact ⟨fun _ => ⟨Option.some_ne_none t, Finset.mem_univ _⟩, fun _ => ⟨Finset.mem_univ _, rfl⟩⟩
  unfold count
  rw [everyone, Finset.card_erase_of_mem (Finset.mem_univ _), Finset.card_univ,
    Fintype.card_option, Fintype.card_fin, Nat.add_sub_cancel]

/-- **Every index is written by exactly one thread**, once `main` has joined them all, in every run
in which the threads take their slices one after another. -/
theorem written_once {nNotas : ℕ} (multiple : tamanhoPipe ∣ nNotas)
    {config : Config (Option (Fin (nNotas / tamanhoPipe))) (Shared F (nNotas / tamanhoPipe)) Lugar}
    (reach : Reach (step (program arquivo tamanhoPipe)) Sozinha
      (start notas (nNotas / tamanhoPipe)) config)
    (joined : config.locals none = .imprime) {i : ℕ} (inside : i < nNotas) :
    ∃! t, (t, i) ∈ config.shared.escritas := by
  obtain ⟨encerradas, fatias⟩ := keeps reach
  have all : ∀ t, config.locals (some t) = .fim := by
    have known := encerradas.main
    rwa [joined] at known
  have written : config.shared.escritas.map Prod.snd = List.range nNotas := by
    have order := fatias.parada fun t => by rw [all t]; rfl
    rwa [fatias.feitas, count_ended_all all, Nat.mul_div_cancel' multiple] at order
  have once : (config.shared.escritas.map Prod.snd).Nodup := by
    rw [written]
    exact List.nodup_range
  have member : i ∈ config.shared.escritas.map Prod.snd := by
    rw [written]
    exact List.mem_range.mpr inside
  obtain ⟨⟨t, index⟩, wrote, rfl⟩ := List.mem_map.mp member
  refine ⟨t, wrote, fun u again => ?_⟩
  exact congrArg Prod.fst (List.inj_on_of_nodup_map once again wrote rfl)

/-- Two threads, one after the other. -/
theorem written_once_two : ∃ config : Config (Option (Fin (20 / 10))) (Shared ℚ (20 / 10)) Lugar,
    Reach (step (program (fun _ => ⟨7, 7, 0⟩) 10)) Sozinha (start (fun _ => 0) (20 / 10)) config ∧
      ∃! t, (t, 13) ∈ config.shared.escritas := by
  have evaluated : ∃ config : Config (Option (Fin (20 / 10))) (Shared ℚ (20 / 10)) Lugar,
      Reach (step (program (fun _ => ⟨7, 7, 0⟩) 10)) Sozinha (start (fun _ => 0) (20 / 10)) config ∧
        config.locals none = .imprime :=
    exists_reach_of_execute
      ([none, none, none] ++ List.replicate 14 (some 1) ++ List.replicate 14 (some 0) ++
        [none, none, none]) _ (by decide +kernel)
  obtain ⟨config, reach, joined⟩ := evaluated
  exact ⟨config, reach, written_once (by decide) reach joined (by decide)⟩

end Steps

end Medias
