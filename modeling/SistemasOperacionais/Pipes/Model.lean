/-
**`processoNpipe.cpp`: a ring of processes joined by pipes.**

The parent opens `NP` pipes, forks `NP` children and waits for one of them to end. Child `np` writes
to pipe `np` and reads from the pipe of the child before it; child 0 sends 1, and each value read is
printed plus one and sent on, up to `VAL`.

* `program` — one statement at a time of the parent (`none`) and of child `np` (`some np`), with the
  open ends of every process.
* `Move` — **what a step can do** (`move_of_step`).

`printed` and `lidos` record what was printed, by which child, and what was read. A child that has
not been forked waits to be `born`. Process numbers are left out.
-/

import SistemasOperacionais.Runs.Threads
import SistemasOperacionais.Runs.Pipes
import Mathlib.Data.Fintype.Option

namespace ProcessoNpipe

open Threads Pipes

variable {NP : ℕ}

theorem anterior_lt (np : Fin NP) : (np.val + NP - 1) % NP < NP := Nat.mod_lt _ np.pos

/-- `(np-1+NP) % NP` -/
def anterior (np : Fin NP) : Fin NP := ⟨(np.val + NP - 1) % NP, anterior_lt np⟩

/-- Who is who: the parent, or a child. -/
abbrev Processo (NP : ℕ) := Option (Fin NP)

structure Shared (NP : ℕ) where
  fd : Table (Processo NP) (Fin NP) ℕ
  /-- the children forked so far -/
  born : Fin NP → Bool
  /-- the children that have ended -/
  exits : ℕ
  /-- the lines printed: number of the child and value -/
  printed : List (ℕ × ℕ)
  /-- the values read -/
  lidos : List ℕ

/-- The statement a process executes next. -/
inductive Place
  /-- parent: the `fork` of child `np`, or the end of the loop -/
  | fork (np : ℕ)
  | wait
  /-- parent: the end of `main` -/
  | leave
  | done
  /-- child: not forked yet -/
  | unborn
  /-- child: `close( fd[ i ][ WRITE ] )` -/
  | closing (i : ℕ)
  /-- child: `close( fd[ i ][ READ ] )` -/
  | closingRead (i : ℕ)
  /-- child: `if( np == 0 )` -/
  | start
  | print
  | write
  /-- child: the `read` in the `while` -/
  | reading
  /-- child: `if( val == VAL )` -/
  | test
  /-- child: `val++` -/
  | increment
  /-- child: behind the loop -/
  | closeWrite
  | closeRead
  | exit
  | gone
  deriving DecidableEq, Repr

structure Local where
  place : Place
  val : ℕ
  deriving DecidableEq, Repr

/-- The parent forks child `np`. -/
def Shared.fork (s : Shared NP) (np : Fin NP) : Shared NP :=
  { s with fd := s.fd.fork none (some np), born := Function.update s.born np true }

/-- Child `np` ends. -/
def Shared.finish (s : Shared NP) (np : Fin NP) : Shared NP :=
  { s with fd := s.fd.quit (some np), exits := s.exits + 1 }

def parent (s : Shared NP) (l : Local) : Option (Shared NP × Local) :=
  match l.place with
  | .fork i =>
    if less : i < NP then
      some (s.fork ⟨i, less⟩, { l with place := .fork (i + 1) })
    else some (s, { l with place := .wait })
  | .wait => if 0 < s.exits then some (s, { l with place := .leave }) else none
  | .leave => some ({ s with fd := s.fd.quit none }, { l with place := .done })
  | _ => none

def child (VAL : ℕ) (np : Fin NP) (s : Shared NP) (l : Local) : Option (Shared NP × Local) :=
  match l.place with
  | .unborn => if s.born np then some (s, { l with place := .closing 0 }) else none
  | .closing i =>
    if less : i < NP then
      some (if i ≠ np.val then { s with fd := s.fd.closeWriter (some np) ⟨i, less⟩ } else s,
        { l with place := .closingRead i })
    else some (s, { l with place := .start })
  | .closingRead i =>
    if less : i < NP then
      some (if i ≠ (anterior np).val then { s with fd := s.fd.closeReader (some np) ⟨i, less⟩ }
        else s, { l with place := .closing (i + 1) })
    else none
  | .start =>
    some (s, if np.val = 0 then { place := .print, val := 1 } else { l with place := .reading })
  | .print =>
    some ({ s with printed := s.printed ++ [(np.val + 1, l.val)] }, { l with place := .write })
  | .write => match s.fd.send (some np) np with
    | .done => some ({ s with fd := s.fd.setQueue np (s.fd.queue np ++ [l.val]) },
        { l with place := .reading })
    | .broken => some (s.finish np, { l with place := .gone })
    | .error => some (s, { l with place := .reading })
  | .reading => match s.fd.receive (some np) (anterior np) with
    | .value value rest =>
      some ({ s with fd := s.fd.setQueue (anterior np) rest, lidos := s.lidos ++ [value] },
        { place := .test, val := value })
    | .eof => some (s, { l with place := .closeWrite })
    | .blocked => none
    -- `read` gives -1, which the `while` takes for true
    | .error => some (s, { l with place := .test })
  | .test => some (s, { l with place := if l.val = VAL then .closeWrite else .increment })
  | .increment => some (s, { place := .print, val := l.val + 1 })
  | .closeWrite =>
    some ({ s with fd := s.fd.closeWriter (some np) np }, { l with place := .closeRead })
  | .closeRead =>
    some ({ s with fd := s.fd.closeReader (some np) (anterior np) }, { l with place := .exit })
  | .exit => some (s.finish np, { l with place := .gone })
  | _ => none

def program (VAL : ℕ) : Program (Processo NP) (Shared NP) Local
  | none, s, l => parent s l
  | some np, s, l => child VAL np s l

/-- After the calls of `pipe`: the parent has both ends of every pipe. -/
def inicio (NP : ℕ) : Config (Processo NP) (Shared NP) Local where
  shared :=
    { fd :=
        { queue := fun _ => []
          writer := fun proc _ => proc.isNone
          reader := fun proc _ => proc.isNone }
      born := fun _ => false
      exits := 0
      printed := []
      lidos := [] }
  locals := fun proc => ⟨if proc.isNone then .fork 0 else .unborn, 0⟩

/-! ### What a step can do -/

/-- **The moves**, with the place they start from. -/
inductive Move (VAL : ℕ) (s : Shared NP) (l : Local) : Processo NP → Shared NP → Local → Prop
  | fork {np : Fin NP} : l.place = .fork np.val →
      Move VAL s l none (s.fork np) { l with place := .fork (np.val + 1) }
  | forked {i : ℕ} : l.place = .fork i → NP ≤ i → Move VAL s l none s { l with place := .wait }
  | waited : l.place = .wait → 0 < s.exits → Move VAL s l none s { l with place := .leave }
  | leave : l.place = .leave →
      Move VAL s l none { s with fd := s.fd.quit none } { l with place := .done }
  | born {np : Fin NP} : l.place = .unborn → s.born np = true →
      Move VAL s l (some np) s { l with place := .closing 0 }
  | keepWrite {np : Fin NP} : l.place = .closing np.val →
      Move VAL s l (some np) s { l with place := .closingRead np.val }
  | closing {np i : Fin NP} : l.place = .closing i.val → i ≠ np →
      Move VAL s l (some np) { s with fd := s.fd.closeWriter (some np) i }
        { l with place := .closingRead i.val }
  | closed {np : Fin NP} {i : ℕ} : l.place = .closing i → NP ≤ i →
      Move VAL s l (some np) s { l with place := .start }
  | keepRead {np : Fin NP} : l.place = .closingRead (anterior np).val →
      Move VAL s l (some np) s { l with place := .closing ((anterior np).val + 1) }
  | closingRead {np i : Fin NP} : l.place = .closingRead i.val → i ≠ anterior np →
      Move VAL s l (some np) { s with fd := s.fd.closeReader (some np) i }
        { l with place := .closing (i.val + 1) }
  | first {np : Fin NP} : l.place = .start → np.val = 0 →
      Move VAL s l (some np) s { place := .print, val := 1 }
  | start {np : Fin NP} : l.place = .start → np.val ≠ 0 →
      Move VAL s l (some np) s { l with place := .reading }
  | print {np : Fin NP} : l.place = .print →
      Move VAL s l (some np) { s with printed := s.printed ++ [(np.val + 1, l.val)] }
        { l with place := .write }
  | write {np : Fin NP} : l.place = .write → s.fd.send (some np) np = .done →
      Move VAL s l (some np) { s with fd := s.fd.setQueue np (s.fd.queue np ++ [l.val]) }
        { l with place := .reading }
  | broken {np : Fin NP} : l.place = .write → s.fd.send (some np) np = .broken →
      Move VAL s l (some np) (s.finish np) { l with place := .gone }
  | badWrite {np : Fin NP} : l.place = .write → s.fd.send (some np) np = .error →
      Move VAL s l (some np) s { l with place := .reading }
  | read {np : Fin NP} {value : ℕ} {rest : List ℕ} : l.place = .reading →
      s.fd.receive (some np) (anterior np) = .value value rest →
      Move VAL s l (some np)
        { s with fd := s.fd.setQueue (anterior np) rest, lidos := s.lidos ++ [value] }
        { place := .test, val := value }
  | eof {np : Fin NP} : l.place = .reading → s.fd.receive (some np) (anterior np) = .eof →
      Move VAL s l (some np) s { l with place := .closeWrite }
  | badRead {np : Fin NP} : l.place = .reading →
      s.fd.receive (some np) (anterior np) = .error →
      Move VAL s l (some np) s { l with place := .test }
  | last {np : Fin NP} : l.place = .test → l.val = VAL →
      Move VAL s l (some np) s { l with place := .closeWrite }
  | test {np : Fin NP} : l.place = .test → l.val ≠ VAL →
      Move VAL s l (some np) s { l with place := .increment }
  | increment {np : Fin NP} : l.place = .increment →
      Move VAL s l (some np) s { place := .print, val := l.val + 1 }
  | closeWrite {np : Fin NP} : l.place = .closeWrite →
      Move VAL s l (some np) { s with fd := s.fd.closeWriter (some np) np }
        { l with place := .closeRead }
  | closeRead {np : Fin NP} : l.place = .closeRead →
      Move VAL s l (some np) { s with fd := s.fd.closeReader (some np) (anterior np) }
        { l with place := .exit }
  | exit {np : Fin NP} : l.place = .exit →
      Move VAL s l (some np) (s.finish np) { l with place := .gone }

variable {VAL : ℕ} {s s' : Shared NP} {l l' : Local}

theorem move_of_parent (run : parent s l = some (s', l')) : Move VAL s l none s' l' := by
  unfold parent at run
  split at run
  · rename_i i here
    split at run
    · rename_i less
      cases run
      exact (.fork here : Move VAL s l none (s.fork ⟨i, less⟩) { l with place := .fork (i + 1) })
    · cases run
      exact .forked here (Nat.not_lt.mp ‹_›)
  · split at run
    · cases run
      exact .waited ‹_› ‹_›
    · cases run
  · cases run
    exact .leave ‹_›
  · cases run

theorem move_of_child {np : Fin NP} (run : child VAL np s l = some (s', l')) :
    Move VAL s l (some np) s' l' := by
  unfold child at run
  split at run
  · split at run
    · cases run
      exact .born ‹_› ‹_›
    · cases run
  · rename_i i here
    split at run
    · rename_i less
      cases run
      split
      · rename_i other
        exact Move.closing (i := ⟨i, less⟩) here fun same => other (congrArg Fin.val same)
      · rename_i same
        obtain rfl : i = np.val := not_not.mp same
        exact .keepWrite here
    · cases run
      exact .closed here (Nat.not_lt.mp ‹_›)
  · rename_i i here
    split at run
    · rename_i less
      cases run
      split
      · rename_i other
        exact Move.closingRead (i := ⟨i, less⟩) here fun same => other (congrArg Fin.val same)
      · rename_i same
        obtain rfl : i = (anterior np).val := not_not.mp same
        exact .keepRead here
    · cases run
  · cases run
    split
    · exact .first ‹_› ‹_›
    · exact .start ‹_› ‹_›
  · cases run
    exact .print ‹_›
  · split at run <;> cases run
    · exact .write ‹_› ‹_›
    · exact .broken ‹_› ‹_›
    · exact .badWrite ‹_› ‹_›
  · split at run <;> cases run
    · exact .read ‹_› ‹_›
    · exact .eof ‹_› ‹_›
    · exact .badRead ‹_› ‹_›
  · cases run
    split
    · exact .last ‹_› ‹_›
    · exact .test ‹_› ‹_›
  · cases run
    exact .increment ‹_›
  · cases run
    exact .closeWrite ‹_›
  · cases run
    exact .closeRead ‹_›
  · cases run
    exact .exit ‹_›
  · cases run

/-- **Every step is one of the moves.** -/
theorem move_of_step {config after : Config (Processo NP) (Shared NP) Local} {proc : Processo NP}
    (run : step (program VAL) config proc = some after) :
    ∃ s' l', Move VAL config.shared (config.locals proc) proc s' l' ∧
      after = ⟨s', Function.update config.locals proc l'⟩ := by
  obtain ⟨s', l', moved, rfl⟩ := step_eq_some run
  cases proc with
  | none => exact ⟨s', l', move_of_parent moved, rfl⟩
  | some np => exact ⟨s', l', move_of_child moved, rfl⟩

end ProcessoNpipe
