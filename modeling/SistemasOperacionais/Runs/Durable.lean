/-
**A store whose groups of operations are atomic and durable.**

Clients open operations, write in them and close them. `current` is what they see; `durable` is what
survives a crash. `commit` makes everything durable at once, and is possible only while no operation
is open: nothing of an operation is durable unless all of it is.

* `next` — the moves; a crash forgets what is not durable and closes every operation.
* `Event` — the moves that a client sees, and a crash; `commit` is silent (`shown`).
-/

import Mathlib.Data.Finset.Basic

namespace Durable

variable {ι α β : Type} [DecidableEq ι] [DecidableEq α]

/-- **What the clients see and what survives a crash.** -/
structure Store (ι α β : Type) where
  current : α → β
  durable : α → β
  active : Finset ι

/-- What a client does, and a crash. -/
inductive Event (ι α β : Type)
  | opens (client : ι)
  | writes (client : ι) (place : α) (value : β)
  | closes (client : ι)
  | crash

inductive Move (ι α β : Type)
  | event (event : Event ι α β)
  | commit

def shown : Move ι α β → Option (Event ι α β)
  | .event event => some event
  | .commit => none

/-- **The moves of the store.** -/
def next (store : Store ι α β) : Move ι α β → Option (Store ι α β)
  | .event (.opens client) =>
      if client ∈ store.active then none
      else some { store with active := insert client store.active }
  | .event (.writes client place value) =>
      if client ∈ store.active then
        some { store with current := Function.update store.current place value }
      else none
  | .event (.closes client) =>
      if client ∈ store.active then some { store with active := store.active.erase client }
      else none
  | .event .crash => some { store with current := store.durable, active := ∅ }
  | .commit =>
      if store.active = ∅ then some { store with durable := store.current } else none

end Durable
