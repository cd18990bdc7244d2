/-
**A store of values with one user at a time for each.**

`takes` gives a client the only access to a place; while it has it, it may write; `gives` ends the
access. What is at a place is what was written there last, by whoever it was.
-/

import Mathlib.Logic.Function.Basic

namespace Lease

variable {ι κ β : Type} [DecidableEq ι] [DecidableEq κ]

/-- **The values, and who uses each.** -/
structure Store (ι κ β : Type) where
  contents : κ → β
  owner : κ → Option ι

inductive Event (ι κ β : Type)
  | takes (client : ι) (place : κ)
  | writes (client : ι) (place : κ) (value : β)
  | gives (client : ι) (place : κ)

/-- **The moves of the store.** -/
def next (store : Store ι κ β) : Event ι κ β → Option (Store ι κ β)
  | .takes client place =>
      if store.owner place = none then
        some { store with owner := Function.update store.owner place (some client) }
      else none
  | .writes client place value =>
      if store.owner place = some client then
        some { store with contents := Function.update store.contents place value }
      else none
  | .gives client place =>
      if store.owner place = some client then
        some { store with owner := Function.update store.owner place none }
      else none

end Lease
