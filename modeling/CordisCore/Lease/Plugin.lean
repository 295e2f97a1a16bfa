import CordisCore.Runtime.Types

/-!
# Sealed Plugins — one behavior with one value of its declared input

An apply moves the pair out of its seal and its lease puts it back.  An update swaps
the input of a pair that is home; an era replacement moves the behavior into a fresh
seal.  The downcast of an erased input is left out: a change is sealed for exactly
one contract.
-/

namespace CordisCore
namespace Lease

open CordisCore.Runtime (Contract)

variable {P Input : Type}

/-- `TypedPlugin<P>`; `contract` is the `TypeId` of `P`. -/
structure TypedPlugin (P Input : Type) where
  contract : Contract
  state : Option (P × Input)

/-- `PreparedChange`: a one-attempt input replacement for one contract. -/
structure PreparedChange (Input : Type) where
  contract : Contract
  input : Input
  deriving DecidableEq

namespace TypedPlugin

variable (t : TypedPlugin P Input)

/-- `state.lock().take()` -/
def take : TypedPlugin P Input × Option (P × Input) :=
  ({ t with state := none }, t.state)

/-- `state.lock().replace(pair)`, as a lease does when it is dropped. -/
def replace (pair : P × Input) : TypedPlugin P Input × Option (P × Input) :=
  ({ t with state := some pair }, t.state)

/-- Swap the input, and answer the superseded one; a change that does not fit is handed back. -/
def swapInput (change : PreparedChange Input) :
    TypedPlugin P Input × Except (PreparedChange Input) Input :=
  if change.contract ≠ t.contract then (t, .error change)
  else match t.state with
    | some (plugin, current) => ({ t with state := some (plugin, change.input) }, .ok current)
    | none => (t, .error change)

/-- Move the behavior into a fresh seal that carries the candidate. -/
def intoSuccessor (change : PreparedChange Input) :
    TypedPlugin P Input × Except (PreparedChange Input) (TypedPlugin P Input) :=
  if change.contract ≠ t.contract then (t, .error change)
  else match t.take with
    | (moved, some (plugin, _)) =>
        (moved, .ok { contract := t.contract, state := some (plugin, change.input) })
    | (moved, none) => (moved, .error change)

variable {t} {change : PreparedChange Input} {plugin : P} {current : Input}

/-- The change does not fit: it is for another Plugin, or the pair is away. -/
def Refuses (t : TypedPlugin P Input) (change : PreparedChange Input) : Prop :=
  change.contract ≠ t.contract ∨ t.state = none

theorem swapInput_refused (h : Refuses t change) : t.swapInput change = (t, .error change) := by
  unfold swapInput
  rcases h with h | h
  · exact if_pos h
  · rw [h]
    exact ite_self _

theorem swapInput_matching (hcontract : change.contract = t.contract)
    (hstate : t.state = some (plugin, current)) :
    t.swapInput change = ({ t with state := some (plugin, change.input) }, .ok current) := by
  unfold swapInput
  rw [if_neg (not_not_intro hcontract), hstate]

theorem intoSuccessor_refused (h : Refuses t change) :
    t.intoSuccessor change = (t, .error change) := by
  unfold intoSuccessor take
  rcases h with h | h
  · exact if_pos h
  · cases t
    cases h
    exact ite_self _

theorem intoSuccessor_matching (hcontract : change.contract = t.contract)
    (hstate : t.state = some (plugin, current)) :
    t.intoSuccessor change = ({ t with state := none },
      .ok { contract := t.contract, state := some (plugin, change.input) }) := by
  unfold intoSuccessor take
  rw [if_neg (not_not_intro hcontract), hstate]

end TypedPlugin

end Lease
end CordisCore
