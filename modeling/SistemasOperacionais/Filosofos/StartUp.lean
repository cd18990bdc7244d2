/-
**`filosofos.c`: the start of the philosophers.**

`main` passes the address of the global `i` to every thread and then increments it; each thread
reads its index through that pointer as its first step; and `mostrar`, called by every philosopher
inside `mutex`, runs its loop on the same `i`. Here the three run together: `main`'s creation loop,
the first step of each thread, and after it the protocol of `Filosofos.Model` with the calls of
`mostrar` put back.

* `step` — the interleaving. `i++` is a load and a store, both in `main` and in `mostrar`. A thread
  that reads an index outside `0..N-1` goes on with accesses outside the arrays; it takes no further
  step here.
* `distinct_fails` — two threads created before either reads adopt the same index.
* `InOrder` — the condition: `main` stores its increment only when every thread created has read its
  index, and `mostrar` writes `i` only after `main` has left the loop.
* `wellStarted_of_inOrder` — **in every state of every run of steps that meet the condition the
  indices adopted are pairwise distinct and in `0..N-1`, and `main` leaves the loop with exactly `N`
  threads created**.
-/

import SistemasOperacionais.Filosofos.Protocol

namespace Filosofos.StartUp

open Transition Filosofos

/-- Where a thread is in `mostrar`. -/
inductive MostrarAt
  /-- `i=1` -/
  | init
  /-- `i<=N` -/
  | test
  | body
  /-- `i++`: the read -/
  | load
  /-- `i++`: the write -/
  | store (value : ℤ)
  deriving DecidableEq, Repr

/-- A thread that runs `acao_filosofo`. -/
inductive Local (N : ℕ)
  /-- created, before `int i= *(int*) j` -/
  | fresh
  /-- in the protocol, with the index it has read -/
  | running (index : Fin N) (place : Place)
  /-- in `mostrar`, which returns to `place` -/
  | showing (index : Fin N) (place : Place) (loop : MostrarAt)
  /-- it has read an index that is not a philosopher's -/
  | lost (index : ℤ)
  deriving DecidableEq, Repr

/-- Where `main` is, from the creation loop on. -/
inductive MainAt
  /-- `i<N` -/
  | test
  /-- `pthread_create(&thread[i],NULL,acao_filosofo,&i)` -/
  | create
  /-- `i++`: the read -/
  | load
  /-- `i++`: the write -/
  | store (value : ℤ)
  /-- the `i=0` of the join loop -/
  | leave
  | join
  deriving DecidableEq, Repr

structure State (N : ℕ) where
  i : ℤ
  shared : Shared N
  main : MainAt
  threads : List (Local N)

inductive Label
  | main
  | thread (k : ℕ)
  deriving DecidableEq, Repr

variable {N : ℕ}

/-- `main` enters the creation loop with `i=0`. -/
def start (N : ℕ) : State N where
  i := 0
  shared := (Filosofos.start N).shared
  main := .test
  threads := []

/-- One step of `main`. It waits in `pthread_join`, since the threads do not return. -/
def mainStep (s : State N) : Option (State N) :=
  match s.main with
  | .test => some { s with main := if s.i < N then .create else .leave }
  | .create => some { s with threads := s.threads ++ [.fresh], main := .load }
  | .load => some { s with main := .store s.i }
  | .store value => some { s with i := value + 1, main := .test }
  | .leave => some { s with i := 0, main := .join }
  | .join => none

/-- The statements followed by a call of `mostrar`. -/
def shows : Place → Bool
  | .pegarHungry | .testEat _ | .porThinking => true
  | _ => false

/-- `int i= *(int*) j`: the index a thread adopts. -/
def adopt (N : ℕ) (i : ℤ) : Local N :=
  if inside : 0 ≤ i ∧ i < N then .running ⟨i.toNat, by omega⟩ .pensar else .lost i

/-- One step of a thread: the new `i`, the new semaphores and `state`, its new place. -/
def threadStep (i : ℤ) (shared : Shared N) : Local N → Option (ℤ × Shared N × Local N)
  | .fresh => some (i, shared, adopt N i)
  | .running index place => (program index shared place).map fun moved =>
      (i, moved.1, if shows place then .showing index moved.2 .init else .running index moved.2)
  | .showing index place .init => some (1, shared, .showing index place .test)
  | .showing index place .test =>
      if i ≤ N then some (i, shared, .showing index place .body)
      else some (i, shared, .running index place)
  | .showing index place .body => some (i, shared, .showing index place .load)
  | .showing index place .load => some (i, shared, .showing index place (.store i))
  | .showing index place (.store value) => some (value + 1, shared, .showing index place .test)
  | .lost _ => none

/-- **One step of the start-up**: of `main` or of the `k`-th thread created. -/
def step (s : State N) : Label → Option (State N)
  | .main => mainStep s
  | .thread k => do
      let place ← s.threads[k]?
      let (i, shared, place) ← threadStep s.i s.shared place
      some { s with i := i, shared := shared, threads := s.threads.set k place }

/-! ### What the start-up is for -/

/-- The index a thread has adopted, once it has. -/
def Local.adopted : Local N → Option ℤ
  | .fresh => none
  | .running index _ | .showing index _ _ => some index.val
  | .lost index => some index

/-- `main` is past its creation loop. -/
def MainAt.past : MainAt → Bool
  | .leave | .join => true
  | _ => false

/-- **The start-up as intended**: the indices adopted are pairwise distinct and in `0..N-1`, and
exactly `N` threads are created. -/
structure WellStarted (s : State N) : Prop where
  distinct : ∀ (j k : ℕ) (first second : Local N) (index : ℤ), s.threads[j]? = some first →
    s.threads[k]? = some second → first.adopted = some index → second.adopted = some index → j = k
  inside : ∀ (k : ℕ) (thread : Local N) (index : ℤ), s.threads[k]? = some thread →
    thread.adopted = some index → 0 ≤ index ∧ index < N
  atMost : s.threads.length ≤ N
  exact : s.main.past = true → s.threads.length = N

/-! ### The condition -/

/-- The next statement of the thread writes `i`. -/
def Local.writes : Local N → Bool
  | .showing _ _ .init | .showing _ _ (.store _) => true
  | _ => false

/-- The next statement of `main` is the write of its `i++`. -/
def MainAt.stores : MainAt → Bool
  | .store _ => true
  | _ => false

/-- **The condition on a step**: `main` stores its increment only when every thread created has
read its index, and `mostrar` writes `i` only after `main` has left its creation loop. -/
def InOrder (s : State N) : Label → Prop
  | .main => s.main.stores = true → ∀ thread ∈ s.threads, thread.adopted.isSome = true
  | .thread k => (s.threads[k]?).any Local.writes = true → s.main.past = true

instance (s : State N) : (label : Label) → Decidable (InOrder s label)
  | .main => inferInstanceAs (Decidable (_ → ∀ _ ∈ _, _))
  | .thread _ => inferInstanceAs (Decidable (_ → _))

/-! ### The invariant -/

/-- Every thread created has read its index. -/
def AllRead (s : State N) : Prop := ∀ thread ∈ s.threads, thread.adopted.isSome = true

/-- Every thread created but the last has read its index. -/
def AllButLast (s : State N) : Prop :=
  ∀ k thread, s.threads[k]? = some thread → k + 1 < s.threads.length →
    thread.adopted.isSome = true

/-- What `main`'s place says about `i` and the threads. -/
def AtMain (s : State N) : MainAt → Prop
  | .test => s.i = s.threads.length ∧ s.threads.length ≤ N ∧ AllRead s
  | .create => s.i = s.threads.length ∧ s.threads.length < N ∧ AllRead s
  | .load => s.i + 1 = s.threads.length ∧ s.threads.length ≤ N ∧ AllButLast s
  | .store value => value = s.i ∧ s.i + 1 = s.threads.length ∧ s.threads.length ≤ N ∧ AllButLast s
  | .leave | .join => s.threads.length = N ∧ AllRead s

/-- **The invariant**: the `k`-th thread adopts index `k`, and `i` is where `main` left it. -/
structure Aligned (s : State N) : Prop where
  adopted : ∀ (k : ℕ) thread, s.threads[k]? = some thread →
    thread.adopted = none ∨ thread.adopted = some (k : ℤ)
  atMain : AtMain s s.main

/-- A thread that has read its index keeps it; `i` changes only where `Local.writes` says. -/
theorem threadStep_cases {i i' : ℤ} {shared shared' : Shared N} {place place' : Local N}
    (run : threadStep i shared place = some (i', shared', place')) :
    place = .fresh ∧ place' = adopt N i ∧ i' = i ∨
      place.adopted.isSome = true ∧ place'.adopted = place.adopted ∧
        (i' = i ∨ place.writes = true) := by
  cases place with
  | fresh =>
    cases run
    exact Or.inl ⟨rfl, rfl, rfl⟩
  | running index place =>
    obtain ⟨moved, -, same⟩ := Option.map_eq_some_iff.mp run
    cases same
    refine Or.inr ⟨rfl, ?_, Or.inl rfl⟩
    split <;> rfl
  | showing index place loop =>
    cases loop with
    | init | store _ =>
      cases run
      exact Or.inr ⟨rfl, rfl, Or.inr rfl⟩
    | test =>
      simp only [threadStep] at run
      split at run <;> cases run <;> exact Or.inr ⟨rfl, rfl, Or.inl rfl⟩
    | body | load =>
      cases run
      exact Or.inr ⟨rfl, rfl, Or.inl rfl⟩
  | lost index => cases run

/-- A thread that reads `i = k` while there is a philosopher `k` adopts `k`. -/
theorem adopt_adopted {k : ℕ} (small : k < N) : (adopt N (k : ℤ)).adopted = some (k : ℤ) := by
  have inside : (0 : ℤ) ≤ k ∧ (k : ℤ) < N := by omega
  unfold adopt
  rw [dif_pos inside]
  simp [Local.adopted]

theorem aligned_start : Aligned (start N) where
  adopted _ _ found := nomatch found
  atMain := ⟨rfl, Nat.zero_le N, fun _ member => nomatch member⟩

/-- **`main` keeps the invariant**: it stores its increment when everybody has read. -/
theorem Aligned.main {s after : State N} (aligned : Aligned s) (inOrder : InOrder s .main)
    (moved : mainStep s = some after) : Aligned after := by
  obtain ⟨i, shared, main, threads⟩ := s
  obtain ⟨adopted, atMain⟩ := aligned
  cases main with
  | test =>
    obtain ⟨index, small, read⟩ := atMain
    cases moved
    refine ⟨adopted, ?_⟩
    simp only at index small ⊢
    split
    · exact ⟨index, by simp only; omega, read⟩
    · exact ⟨by simp only; omega, read⟩
  | create =>
    obtain ⟨index, small, read⟩ := atMain
    cases moved
    simp only at index small adopted
    refine ⟨fun k thread found => ?_, ?_, ?_, ?_⟩
    · simp only [List.getElem?_append] at found
      split at found
      · exact adopted k thread found
      · rw [List.getElem?_singleton] at found
        split at found <;> cases found
        exact Or.inl rfl
    · simp only [List.length_append, List.length_singleton]
      omega
    · simp only [List.length_append, List.length_singleton]
      omega
    · intro k thread found before
      simp only [List.length_append, List.length_singleton] at before
      simp only [List.getElem?_append, if_pos (show k < threads.length by omega)] at found
      exact read thread (List.mem_of_getElem? found)
  | load =>
    cases moved
    exact ⟨adopted, rfl, atMain⟩
  | store value =>
    obtain ⟨same, index, small, -⟩ := atMain
    cases moved
    simp only at same index small
    exact ⟨adopted, by simp only; omega, small, inOrder rfl⟩
  | leave =>
    cases moved
    exact ⟨adopted, atMain⟩
  | join => cases moved

/-- What `main`'s place says survives a step of a thread that has read its index, if that step
leaves `i` or `main` no longer looks at it. -/
theorem AtMain.set {s : State N} {k : ℕ} {i : ℤ} {shared : Shared N} {place : Local N}
    {main : MainAt} (atMain : AtMain s main) (read : place.adopted.isSome = true)
    (kept : i = s.i ∨ main.past = true) :
    AtMain { s with i := i, shared := shared, threads := s.threads.set k place } main := by
  have allRead : AllRead s →
      AllRead { s with i := i, shared := shared, threads := s.threads.set k place } := by
    intro all thread member
    rcases List.mem_or_eq_of_mem_set member with old | rfl
    · exact all thread old
    · exact read
  have allButLast : AllButLast s →
      AllButLast { s with i := i, shared := shared, threads := s.threads.set k place } := by
    intro all j thread found before
    simp only [List.getElem?_set, List.length_set] at found before
    split at found
    · split at found <;> cases found
      exact read
    · exact all j thread found before
  have length : (s.threads.set k place).length = s.threads.length := List.length_set
  cases main with
  | test | create =>
    obtain rfl := kept.resolve_right nofun
    exact ⟨by simpa only [length] using atMain.1, by simpa only [length] using atMain.2.1,
      allRead atMain.2.2⟩
  | load =>
    obtain rfl := kept.resolve_right nofun
    exact ⟨by simpa only [length] using atMain.1, by simpa only [length] using atMain.2.1,
      allButLast atMain.2.2⟩
  | store value =>
    obtain rfl := kept.resolve_right nofun
    exact ⟨atMain.1, by simpa only [length] using atMain.2.1,
      by simpa only [length] using atMain.2.2.1, allButLast atMain.2.2.2⟩
  | leave | join => exact ⟨by simpa only [length] using atMain.1, allRead atMain.2⟩

/-- A thread that has not read its index is the last one created, and `i` is the index meant for
it. -/
theorem Aligned.fresh {s : State N} {k : ℕ} (aligned : Aligned s)
    (found : s.threads[k]? = some .fresh) : s.i = k ∧ k < N := by
  have within : k < s.threads.length := (List.getElem?_eq_some_iff.mp found).1
  have notAll : ¬ AllRead s := fun all => nomatch all .fresh (List.mem_of_getElem? found)
  have last : AllButLast s → k + 1 = s.threads.length := by
    intro all
    by_contra earlier
    exact nomatch all k .fresh found (by omega)
  have atMain := aligned.atMain
  cases place : s.main with
  | test | create =>
    rw [place] at atMain
    exact absurd atMain.2.2 notAll
  | load =>
    rw [place] at atMain
    obtain ⟨index, small, all⟩ := atMain
    have := last all
    omega
  | store value =>
    rw [place] at atMain
    obtain ⟨-, index, small, all⟩ := atMain
    have := last all
    omega
  | leave | join =>
    rw [place] at atMain
    exact absurd atMain.2 notAll

/-- **A thread keeps the invariant**: the last one created reads the index meant for it, and
`mostrar` writes `i` when nobody depends on it. -/
theorem Aligned.thread {s after : State N} {k : ℕ} (aligned : Aligned s)
    (inOrder : InOrder s (.thread k)) (moved : step s (.thread k) = some after) :
    Aligned after := by
  obtain ⟨place, found, moved⟩ := Option.bind_eq_some_iff.mp moved
  obtain ⟨⟨i, shared, place'⟩, run, same⟩ := Option.bind_eq_some_iff.mp moved
  cases same
  have within : k < s.threads.length := (List.getElem?_eq_some_iff.mp found).1
  obtain ⟨own, kept⟩ : place'.adopted = some (k : ℤ) ∧ (i = s.i ∨ s.main.past = true) := by
    rcases threadStep_cases run with ⟨rfl, rfl, same⟩ | ⟨read, sameIndex, written⟩
    · obtain ⟨index, small⟩ := aligned.fresh found
      refine ⟨?_, Or.inl same⟩
      rw [index]
      exact adopt_adopted small
    · rw [sameIndex]
      refine ⟨(aligned.adopted k place found).resolve_left fun unread => ?_, ?_⟩
      · rw [unread] at read
        cases read
      · refine written.imp id fun writes => inOrder ?_
        rw [found]
        exact writes
  refine ⟨fun j thread there => ?_, aligned.atMain.set (by rw [own]; rfl) kept⟩
  simp only [List.getElem?_set] at there
  split at there
  · rename_i same
    subst same
    cases there
    exact Or.inr own
  · exact aligned.adopted j thread there

theorem Aligned.wellStarted {s : State N} (aligned : Aligned s) : WellStarted s := by
  have atMost : s.threads.length ≤ N := by
    have atMain := aligned.atMain
    cases place : s.main <;> rw [place] at atMain <;> unfold AtMain at atMain <;> omega
  have index : ∀ (k : ℕ) (thread : Local N) (index : ℤ), s.threads[k]? = some thread →
      thread.adopted = some index → index = k := by
    intro k thread index found adopted
    rcases aligned.adopted k thread found with unread | own
    · rw [unread] at adopted
      cases adopted
    · rw [own] at adopted
      cases adopted
      rfl
  refine ⟨fun j k first second value here there one two => ?_,
    fun k thread value found adopted => ?_, atMost, fun past => ?_⟩
  · have := index j first value here one
    have := index k second value there two
    omega
  · have := index k thread value found adopted
    have within : k < s.threads.length := (List.getElem?_eq_some_iff.mp found).1
    omega
  · have atMain := aligned.atMain
    cases place : s.main <;> rw [place] at atMain past <;> first | exact atMain.1 | cases past

/-- **The start-up under the condition.** Every state reached by steps that meet `InOrder` is well
started. -/
theorem wellStarted_of_inOrder {s : State N} (reach : Reach step InOrder (start N) s) :
    WellStarted s := by
  refine (reach.invariant Aligned aligned_start ?_).wellStarted
  rintro before (- | k) after aligned inOrder moved
  · exact aligned.main inOrder moved
  · exact aligned.thread inOrder moved

/-- `main` creates the five threads, each of which reads its index at once, and leaves the loop;
then the first philosopher reaches `mostrar` and writes `i`. -/
def oneByOne : List Label :=
  (List.range 5).flatMap (fun k => [.main, .main, .thread k, .main, .main]) ++ [.main] ++
    [.thread 0, .thread 0, .thread 0, .thread 0]

theorem wellStarted_of_inOrder_five : ∃ s : State 5, Reach step InOrder (start 5) s ∧
    s.main.past = true ∧ s.i = 1 ∧ WellStarted s := by
  have reach : Reach step InOrder (start 5) _ := reach_of_execute oneByOne .start rfl
  exact ⟨_, reach, rfl, rfl, wellStarted_of_inOrder reach⟩

/-- `main` creates two threads before either reads its index. -/
def readLate : List Label :=
  [.main, .main, .main, .main, .main, .main, .thread 0, .thread 1]

/-- **The indices need not be distinct**: both threads read one. -/
theorem distinct_fails : ∃ s : State 5, Reachable step (start 5) s ∧ ¬ WellStarted s := by
  refine ⟨_, reach_of_execute readLate .start rfl, fun well => ?_⟩
  have same : 0 = 1 := well.distinct 0 1 _ _ 1 rfl rfl rfl rfl
  cases same

end Filosofos.StartUp
