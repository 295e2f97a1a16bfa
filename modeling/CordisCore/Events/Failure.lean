import Mathlib.Data.Option.Basic

/-!
# Invocation failures — what went wrong in a callback, and whom it is blamed on

Hooks of events and hooks of updates fail alike.
-/

namespace CordisCore
namespace Events

/-- The address of one registration occurrence. -/
abbrev ListenerRegistrationId := Nat

inductive InvocationFailureKind where
  | returnedError
  | panic
  deriving DecidableEq

structure InvocationFailure where
  registration : Option ListenerRegistrationId
  kind : InvocationFailureKind
  diagnostic : String
  deriving DecidableEq

namespace InvocationFailure

def returned (diagnostic : String) : InvocationFailure :=
  { registration := none, kind := .returnedError, diagnostic := diagnostic }

def panic (diagnostic : String) : InvocationFailure :=
  { registration := none, kind := .panic, diagnostic := diagnostic }

/-- Name the occurrence, unless an inner one is named already. -/
def correlate (failure : InvocationFailure) (registration : ListenerRegistrationId) :
    InvocationFailure :=
  if failure.registration.isNone then { failure with registration := some registration }
  else failure

/-- `diagnostic.push_str`. -/
def pushStr (failure : InvocationFailure) (text : String) : InvocationFailure :=
  { failure with diagnostic := failure.diagnostic ++ text }

/-- A failure that names somebody is correlated no further. -/
theorem correlate_of_isSome {failure : InvocationFailure} (h : failure.registration.isSome = true)
    (registration : ListenerRegistrationId) : failure.correlate registration = failure := by
  have hnamed : ¬ failure.registration.isNone = true := by
    rw [Option.isNone_iff_eq_none]
    exact Option.isSome_iff_ne_none.mp h
  exact if_neg hnamed

/-- Whoever correlates a failure, somebody is named afterwards. -/
theorem isSome_correlate (failure : InvocationFailure) (registration : ListenerRegistrationId) :
    (failure.correlate registration).registration.isSome = true := by
  unfold correlate
  split
  · rfl
  · rename_i hnamed
    exact Option.isSome_iff_ne_none.mpr (mt Option.isNone_iff_eq_none.mpr hnamed)

end InvocationFailure

end Events
end CordisCore
