import CordisCore.Interleaving.Machine

/-!
# Notifications — a broadcast to the futures created before it

A future of a notification is created unwoken.  A broadcast wakes every future
that exists, and no other; a future that is dropped takes nothing with it.
-/

namespace CordisCore
namespace Interleaving

/-- The futures of one notification, at most one for each party: `true` once it is woken. -/
structure Notify where
  futures : Party → Option Bool := fun _ => none

namespace Notify

variable (n : Notify)

/-- A party creates its future. -/
def notified (p : Party) : Notify :=
  { futures := fun q => if q = p then some false else n.futures q }

def notifyWaiters : Notify :=
  { futures := fun q => (n.futures q).map fun _ => true }

/-- The future of a party is dropped. -/
def discard (p : Party) : Notify :=
  { futures := fun q => if q = p then none else n.futures q }

/-- The future of the party is ready. -/
def woken (p : Party) : Bool :=
  n.futures p == some true

variable {n} {p q : Party}

@[simp] theorem notified_self : (n.notified p).futures p = some false := by
  simp [notified]

theorem notified_of_ne (h : q ≠ p) : (n.notified p).futures q = n.futures q := by
  simp [notified, h]

@[simp] theorem discard_self : (n.discard p).futures p = none := by
  simp [discard]

theorem discard_of_ne (h : q ≠ p) : (n.discard p).futures q = n.futures q := by
  simp [discard, h]

theorem woken_iff : n.woken p = true ↔ n.futures p = some true := by
  simp [woken]

end Notify

end Interleaving
end CordisCore
