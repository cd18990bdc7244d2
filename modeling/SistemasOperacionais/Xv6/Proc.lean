/-
**xv6 `proc.c`: the process table.**

`n` is `NPROC`; `κ` is the type of the CPUs. What is done while `ptable.lock` is held is one step;
between the steps any CPU goes on. Where a process is in the kernel is its `Place`.

* `wakeup1`, `allocproc`, `exit`, `waitScan`, `kill` — the functions of the source on the table.
* `fork` is four steps: `allocproc`, which ends before the kernel stack is there; the failure of
  `kalloc` or `copyuvm`; `np->parent = proc`; `np->state = RUNNABLE`. The memory, the files and the
  names that it copies are not modelled.
* `sched` gives the CPU back (`leave`); `schedule` is the loop of `scheduler` choosing a process. The
  process goes on with the lock held: in the sleep of `wait` it scans the table again.
* `sleep` — any other sleep; `wakeup` — any other wakeup, also by an interrupt.
* `userinit` is before the first step: `start`.

`pid` and `nextpid` are of type `int` and wrap around. `birth` and `births` number the processes
without end; nothing reads them. `exit` closes files and sleeps in the log before it takes the lock;
this is any `sleep`.
-/

import SistemasOperacionais.Runs.Reach
import SistemasOperacionais.Data.Wrap
import Mathlib.Data.List.FinRange
import Mathlib.Logic.Function.Basic

namespace Xv6

namespace Proc

/-- `enum procstate` -/
inductive ProcState
  | unused
  | embryo
  | sleeping
  | runnable
  | running
  | zombie
  deriving DecidableEq

/-- The address that a process sleeps on: a process, in `wait`, or anything else. -/
inductive Chan (n : ℕ)
  | proc (p : Fin n)
  | other (address : ℕ)
  deriving DecidableEq

/-- `struct proc` -/
structure Entry (n : ℕ) where
  state : ProcState
  pid : ℤ
  parent : Option (Fin n)
  chan : Option (Chan n)
  killed : Bool

/-- Where a process is. -/
inductive Place (n : ℕ)
  /-- in `fork`, with an `np` that is not yet its child -/
  | allocated (np : Fin n)
  /-- in `fork`, behind `np->parent = proc` -/
  | copied (np : Fin n)
  /-- in `sched`, called from `wait` -/
  | wait
  /-- in `sched`, called from another `sleep` -/
  | sleep
  /-- anywhere else -/
  | out
  deriving DecidableEq

structure State (n : ℕ) (κ : Type) where
  proc : Fin n → Entry n
  nextpid : ℤ
  initproc : Fin n
  cpu : κ → Option (Fin n)
  place : Fin n → Place n
  panic : Bool
  /-- the number of the process that was last made in an entry, 0 for none -/
  birth : Fin n → ℕ
  /-- the number of the next process -/
  births : ℕ

variable {n : ℕ} {κ : Type} [DecidableEq κ]

def State.set (s : State n κ) (p : Fin n) (entry : Entry n) : State n κ :=
  { s with proc := Function.update s.proc p entry }

def State.goto (s : State n κ) (p : Fin n) (place : Place n) : State n κ :=
  { s with place := Function.update s.place p place }

/-- `sched`, up to the `proc = 0` of `scheduler`. -/
def State.leave (s : State n κ) (p : Fin n) : State n κ :=
  { s with cpu := fun c => if s.cpu c = some p then none else s.cpu c }

/-- `wakeup1` -/
def wakeup1 (s : State n κ) (chan : Option (Chan n)) : State n κ :=
  { s with proc := fun q =>
      if (s.proc q).state = .sleeping ∧ (s.proc q).chan = chan then
        { s.proc q with state := .runnable }
      else s.proc q }

/-- `allocproc` up to the release of the lock, called from `fork`. -/
def allocproc (s : State n κ) (p : Fin n) : State n κ :=
  match (List.finRange n).find? fun q => (s.proc q).state = .unused with
  | none => s
  | some np =>
      { s.set np { s.proc np with state := .embryo, pid := s.nextpid } with
        nextpid := Wrap.int (s.nextpid + 1)
        birth := Function.update s.birth np s.births
        births := s.births + 1 }.goto p (.allocated np)

/-- One round of the loop of `exit` that passes children to init. -/
def reparent (p : Fin n) (s : State n κ) (q : Fin n) : State n κ :=
  if (s.proc q).parent = some p then
    let s := s.set q { s.proc q with parent := some s.initproc }
    if (s.proc q).state = .zombie then wakeup1 s (some (.proc s.initproc)) else s
  else s

/-- `exit` from the lock on. -/
def exit (s : State n κ) (p : Fin n) : State n κ :=
  if p = s.initproc then { s with panic := true }
  else
    let s := wakeup1 s ((s.proc p).parent.map .proc)
    let s := (List.finRange n).foldl (reparent p) s
    (s.set p { s.proc p with state := .zombie }).leave p

/-- One scan of `wait`: a zombie child is reaped; without children, or killed, it returns; else it
sleeps. -/
def waitScan (s : State n κ) (p : Fin n) : State n κ :=
  match (List.finRange n).find? fun q => (s.proc q).parent = some p ∧ (s.proc q).state = .zombie with
  | some q =>
      (s.set q { s.proc q with state := .unused, pid := 0, parent := none, killed := false }).goto p
        .out
  | none =>
      if (List.finRange n).all (fun q => (s.proc q).parent ≠ some p) ∨ (s.proc p).killed then
        s.goto p .out
      else
        ((s.set p { s.proc p with chan := some (.proc p), state := .sleeping }).goto p .wait).leave p

/-- `kill` -/
def kill (s : State n κ) (pid : ℤ) : State n κ :=
  match (List.finRange n).find? fun q => (s.proc q).pid = pid with
  | none => s
  | some q =>
      s.set q { s.proc q with
        killed := true
        state := if (s.proc q).state = .sleeping then .runnable else (s.proc q).state }

/-- `scheduler` switches to a process, which goes on behind its `sched`. -/
def resume (s : State n κ) (c : κ) (p : Fin n) : State n κ :=
  let s := { s.set p { s.proc p with state := .running } with
    cpu := Function.update s.cpu c (some p) }
  match s.place p with
  | .wait => waitScan (s.set p { s.proc p with chan := none }) p
  | .sleep => (s.set p { s.proc p with chan := none }).goto p .out
  | _ => s

inductive Label (n : ℕ) (κ : Type)
  | schedule (c : κ) (p : Fin n)
  | yield (p : Fin n)
  | sleep (p : Fin n) (address : ℕ)
  | wakeup (address : ℕ)
  | kill (p : Fin n) (pid : ℤ)
  /-- `fork` from its beginning -/
  | allocproc (p : Fin n)
  /-- `fork` fails -/
  | fails (p : Fin n)
  /-- `np->parent = proc` -/
  | copies (p : Fin n)
  /-- `np->state = RUNNABLE` -/
  | forks (p : Fin n)
  | exit (p : Fin n)
  | wait (p : Fin n)

/-- The process runs, and is not in the middle of `fork`. -/
def State.Free (s : State n κ) (p : Fin n) : Prop :=
  (s.proc p).state = .running ∧ s.place p = .out

instance (s : State n κ) (p : Fin n) : Decidable (s.Free p) := inferInstanceAs (Decidable (_ ∧ _))

/-- **One step of the table.** -/
def next (s : State n κ) (label : Label n κ) : Option (State n κ) :=
  if s.panic then none
  else match label with
    | .schedule c p =>
        if s.cpu c = none ∧ (s.proc p).state = .runnable then some (resume s c p) else none
    | .yield p =>
        if (s.proc p).state = .running then
          some ((s.set p { s.proc p with state := .runnable }).leave p)
        else none
    | .sleep p address =>
        if s.Free p then
          some (((s.set p { s.proc p with chan := some (.other address), state := .sleeping }).goto p
            .sleep).leave p)
        else none
    | .wakeup address => some (wakeup1 s (some (.other address)))
    | .kill p pid => if s.Free p then some (kill s pid) else none
    | .allocproc p => if s.Free p then some (allocproc s p) else none
    | .fails p =>
        match s.place p with
        | .allocated np =>
            if (s.proc p).state = .running then
              some ((s.set np { s.proc np with state := .unused }).goto p .out)
            else none
        | _ => none
    | .copies p =>
        match s.place p with
        | .allocated np =>
            if (s.proc p).state = .running then
              some ((s.set np { s.proc np with parent := some p }).goto p (.copied np))
            else none
        | _ => none
    | .forks p =>
        match s.place p with
        | .copied np =>
            if (s.proc p).state = .running then
              some ((s.set np { s.proc np with state := .runnable }).goto p .out)
            else none
        | _ => none
    | .exit p => if s.Free p then some (exit s p) else none
    | .wait p => if s.Free p then some (waitScan s p) else none

/-- After `userinit`: the first entry of the table is `initproc`. -/
def start (n : ℕ) (κ : Type) : State (n + 1) κ where
  proc := fun p => if p = 0 then ⟨.runnable, 1, none, none, false⟩ else ⟨.unused, 0, none, none, false⟩
  nextpid := 2
  initproc := 0
  cpu := fun _ => none
  place := fun _ => .out
  panic := false
  birth := fun p => if p = 0 then 1 else 0
  births := 2

end Proc

end Xv6
