/-
**Pipes shared by processes.**

Every pipe is a queue, and every process has its own set of open ends. A child gets its parent's
ends; an end is closed by hand or when its process ends.

* `receive`, `send` — what `read` and `write` of one value do: a read from an empty pipe waits as
  long as **any** process has the write end open, and a write is fatal when **no** process has the
  read end open.
* `receive_eof`, `send_broken` — so both need every process, the creator of the pipe too, to have
  closed its end.
-/

import Mathlib.Data.Fintype.Basic
import Mathlib.Logic.Function.Basic

set_option linter.unusedSectionVars false

namespace Pipes

variable {Proc Pipe Value : Type}

structure Table (Proc Pipe Value : Type) where
  queue : Pipe → List Value
  writer : Proc → Pipe → Bool
  reader : Proc → Pipe → Bool

variable [DecidableEq Proc] [DecidableEq Pipe]

/-- The child gets the ends its parent has open. -/
def Table.fork (table : Table Proc Pipe Value) (parent child : Proc) : Table Proc Pipe Value :=
  { table with
    writer := Function.update table.writer child (table.writer parent)
    reader := Function.update table.reader child (table.reader parent) }

def Table.closeWriter (table : Table Proc Pipe Value) (proc : Proc) (pipe : Pipe) :
    Table Proc Pipe Value :=
  { table with
    writer := Function.update table.writer proc (Function.update (table.writer proc) pipe false) }

def Table.closeReader (table : Table Proc Pipe Value) (proc : Proc) (pipe : Pipe) :
    Table Proc Pipe Value :=
  { table with
    reader := Function.update table.reader proc (Function.update (table.reader proc) pipe false) }

/-- The end of a process closes its ends. -/
def Table.quit (table : Table Proc Pipe Value) (proc : Proc) : Table Proc Pipe Value :=
  { table with
    writer := Function.update table.writer proc fun _ => false
    reader := Function.update table.reader proc fun _ => false }

def Table.setQueue (table : Table Proc Pipe Value) (pipe : Pipe) (values : List Value) :
    Table Proc Pipe Value :=
  { table with queue := Function.update table.queue pipe values }

/-! ### Reading and writing -/

/-- What `read` of one value comes to. -/
inductive Received (Value : Type)
  | value (value : Value) (rest : List Value)
  | eof
  /-- empty, and some process may still write -/
  | blocked
  /-- the process has closed its end -/
  | error

/-- What `write` of one value comes to. -/
inductive Sent
  | done
  /-- nobody can read: the process is killed -/
  | broken
  /-- the process has closed its end -/
  | error

section

variable [Fintype Proc]

def Table.receive (table : Table Proc Pipe Value) (proc : Proc) (pipe : Pipe) : Received Value :=
  if table.reader proc pipe then
    match table.queue pipe with
    | value :: rest => .value value rest
    | [] => if ∃ other, table.writer other pipe = true then .blocked else .eof
  else .error

def Table.send (table : Table Proc Pipe Value) (proc : Proc) (pipe : Pipe) : Sent :=
  if table.writer proc pipe then
    if ∃ other, table.reader other pipe = true then .done else .broken
  else .error

theorem receive_value {table : Table Proc Pipe Value} {proc : Proc} {pipe : Pipe} {value : Value}
    {rest : List Value} (run : table.receive proc pipe = .value value rest) :
    table.queue pipe = value :: rest := by
  unfold Table.receive at run
  split at run
  · split at run
    · cases run
      assumption
    · split at run <;> cases run
  · cases run

/-- **The end of file is seen only when no process has the write end open.** -/
theorem receive_eof {table : Table Proc Pipe Value} {proc : Proc} {pipe : Pipe}
    (run : table.receive proc pipe = .eof) (other : Proc) : table.writer other pipe = false := by
  unfold Table.receive at run
  split at run
  · split at run
    · cases run
    · split at run
      · cases run
      · rename_i nobody
        exact Bool.eq_false_of_not_eq_true fun opened => nobody ⟨other, opened⟩
  · cases run

theorem receive_error {table : Table Proc Pipe Value} {proc : Proc} {pipe : Pipe}
    (run : table.receive proc pipe = .error) : table.reader proc pipe = false := by
  unfold Table.receive at run
  split at run
  · split at run
    · cases run
    · split at run <;> cases run
  · exact Bool.eq_false_of_not_eq_true ‹_›

/-- **A write is fatal only when no process has the read end open.** -/
theorem send_broken {table : Table Proc Pipe Value} {proc : Proc} {pipe : Pipe}
    (run : table.send proc pipe = .broken) (other : Proc) : table.reader other pipe = false := by
  unfold Table.send at run
  split at run
  · split at run
    · cases run
    · rename_i nobody
      exact Bool.eq_false_of_not_eq_true fun opened => nobody ⟨other, opened⟩
  · cases run

theorem send_error {table : Table Proc Pipe Value} {proc : Proc} {pipe : Pipe}
    (run : table.send proc pipe = .error) : table.writer proc pipe = false := by
  unfold Table.send at run
  split at run
  · split at run <;> cases run
  · exact Bool.eq_false_of_not_eq_true ‹_›

end

/-! ### The ends of one process -/

/-- An update of another process's ends. -/
theorem ends_of_ne {ends : Proc → Pipe → Bool} {proc other : Proc} (different : other ≠ proc)
    (opened : Pipe → Bool) (pipe : Pipe) :
    Function.update ends proc opened other pipe = ends other pipe := by
  rw [Function.update_of_ne different]

/-- Closing another end. -/
theorem ends_close {ends : Proc → Pipe → Bool} {proc : Proc} {closed pipe : Pipe}
    (different : pipe ≠ closed) (other : Proc) :
    Function.update ends proc (Function.update (ends proc) closed false) other pipe =
      ends other pipe := by
  by_cases same : other = proc
  · rw [same, Function.update_self, Function.update_of_ne different]
  · rw [Function.update_of_ne same]

end Pipes
