import CordisCore.Locking.Sections

/-!
# Order — the framework's mutexes cannot deadlock

The canonical nesting puts the journal outside and the stores inside.  Ranks say
so for every mutex; each function is nested, and the rest is the library's.
-/

namespace CordisCore
namespace Locking

open Interleaving
open Locks (Nested Ranked Holds Wants Deadlock)
open CordisCore.Runtime (FiberId GroupId PluginKey FiberState)

/-! ## Ranks -/

/-- The outermost mutexes have the lowest ranks. -/
@[simp]
def rank : Lock → Nat
  | .error _ => 0
  | .journal _ => 1
  | .services => 2
  | .serviceMutationGate _ => 3
  | .events | .updates | .exporters | .observers => 4
  | .deps => 5
  | .allocations => 6
  | .members _ | .residents | .residency _ => 7
  | .state _ | .stored _ | .target _ | .drainCleanup _ => 8

theorem rank_lt_top (l : Lock) : rank l < 9 := by
  cases l <;> simp

/-- A journal is outside of every store. -/
theorem rank_journal_lt {f : FiberId} {l : Lock} (h : l.SemanticStore) :
    rank (.journal f) < rank l := by
  cases l <;> first | exact h.elim | simp

/-! ## Every function is nested -/

section Functions

variable {bound : Nat} {α : Type}

theorem nested_access {l : Lock} (h : bound ≤ rank l) : Nested rank bound (access l) :=
  .guarded h (.pure ())

theorem nested_state (f : FiberId) (h : bound ≤ 8) : Nested rank bound (state f) :=
  .guarded h (.ask _)

theorem nested_setState (f : FiberId) (h : bound ≤ 8) : Nested rank bound (setState f) :=
  nested_access h

theorem nested_assertCanRegister (f : FiberId) (h : bound ≤ 8) :
    Nested rank bound (assertCanRegister f) := by
  refine .bind (.ask _) fun alive => ?_
  split
  · refine .bind (.ask _) fun disposing => ?_
    split
    · exact .pure false
    · refine .bind (.ask _) fun replacing => ?_
      split
      · exact .pure false
      · refine .bind (nested_state f h) fun current => ?_
        cases current <;> exact .pure _
  · exact .pure false

theorem nested_root (f : FiberId) (h : bound ≤ 8) : Nested rank bound (root f) :=
  .guarded h (.ask _)

theorem nested_claimTerminal (f : FiberId) (h : bound ≤ 3) :
    Nested rank bound (claimTerminal f) :=
  .guarded h (.ask _)

theorem nested_removeDisposable (f : FiberId) (h : bound ≤ 1) :
    Nested rank bound (removeDisposable f) :=
  .guarded h (.ask _)

/-- What a gated push publishes takes its store beneath the journal. -/
theorem nested_pushGated (f : FiberId) {publish : Code (Option α)}
    (hpublish : Nested rank 2 publish) (h : bound ≤ 1) :
    Nested rank bound (pushGated f publish) := by
  refine .bind (nested_assertCanRegister f (by omega)) fun open_ => ?_
  split
  · refine .guarded h (.bind (nested_assertCanRegister f (by simp)) fun still => ?_)
    split
    · exact hpublish
    · exact .pure none
  · exact .pure none

/-! ### Stores without a second mutex -/

theorem nested_publishObservation (h : bound ≤ 4) : Nested rank bound publishObservation :=
  nested_access h

theorem nested_addReserved (h : bound ≤ 4) : Nested rank bound addReserved := by
  refine .guarded h (.bind (.ask _) fun mismatch => ?_)
  split <;> exact .pure _

theorem nested_removeHook (h : bound ≤ 4) : Nested rank bound removeHook := by
  refine .bind (.guarded h (.ask _)) fun found => ?_
  split
  · exact nested_publishObservation h
  · exact .pure ()

/-- A control claims its token when its store is free again. -/
theorem nested_claimToken {x : Code Unit} (hx : Nested rank bound x) (h : bound ≤ 1) :
    Nested rank bound (do
      x
      match ← ask .owner with
      | some f => do
          let _ ← removeDisposable f
      | none => pure ()) := by
  refine .bind hx fun _ => .bind (.ask _) fun owner => ?_
  cases owner with
  | some f => exact .bind (nested_removeDisposable f h) fun _ => .pure ()
  | none => exact .pure ()

theorem nested_registerListener (f : FiberId) (h : bound ≤ 1) :
    Nested rank bound (registerListener f) := by
  refine .bind (nested_pushGated f (nested_addReserved (by simp)) h) fun registered => ?_
  cases registered with
  | some _ => exact nested_publishObservation (by omega)
  | none => exact .pure ()

/-! ### The dependency index and the Registry -/

theorem nested_projectEdges (f : FiberId) (h : bound ≤ 5) : Nested rank bound (projectEdges f) :=
  .guarded h (.bind (.ask _) fun _ => .pure ())

theorem nested_dependentsOf (h : bound ≤ 5) : Nested rank bound dependentsOf := by
  refine .guarded h (.bind (.ask _) fun complete => ?_)
  split
  · exact .map _ (.ask _)
  · exact .pure none

theorem nested_snapshotFibers (h : bound ≤ 6) : Nested rank bound snapshotFibers :=
  .guarded h (.guarded (by simp) (.ask _))

theorem nested_attachFiber (key : PluginKey) (f : FiberId) (h : bound ≤ 6) :
    Nested rank bound (attachFiber key f) := by
  refine .guarded h (.bind (.ask _) fun g => ?_)
  refine .bind (nested_access (by simp)) fun _ => ?_
  exact .bind (nested_access (by simp)) fun _ => nested_access (by simp)

theorem nested_detachForRemoval (key : PluginKey) (h : bound ≤ 6) :
    Nested rank bound (detachForRemoval key) := by
  refine .guarded h (.bind (.ask _) fun mapped => ?_)
  cases mapped with
  | none => exact .pure []
  | some g =>
      refine .guarded (by simp) (.bind (.ask _) fun refuses => ?_)
      split
      · exact .pure []
      · exact .ask _

theorem nested_releaseClaim (g : GroupId) (h : bound ≤ 6) :
    Nested rank bound (releaseClaim g) := by
  refine .bind (.ask _) fun upgrades => ?_
  split
  · exact .guarded h (.bind (nested_access (by simp)) fun _ => nested_access (by simp))
  · exact .pure ()

/-- The index is asked beneath the Service store, and so is the Registry when it is not
available. -/
theorem nested_dependentsForEdges (h : bound ≤ 5) : Nested rank bound dependentsForEdges := by
  refine .bind (nested_dependentsOf h) fun indexed => ?_
  cases indexed with
  | some _ => exact .pure _
  | none => exact nested_snapshotFibers (by omega)

/-! ### The Service store -/

theorem nested_visible (slot : Option FiberId) (h : bound ≤ 8) :
    Nested rank bound (visible slot) := by
  cases slot with
  | none => exact .pure false
  | some f =>
      refine .bind (.ask _) fun alive => ?_
      split
      · exact .bind (nested_state f h) fun _ => .pure _
      · exact .pure false

theorem nested_occurrenceId (h : bound ≤ 2) : Nested rank bound occurrenceId :=
  .guarded h (.bind (.ask _) fun slot => nested_visible slot (by simp))

theorem nested_visibleValue (h : bound ≤ 2) : Nested rank bound visibleValue := by
  refine .guarded h (.bind (.ask _) fun mismatch => ?_)
  split
  · exact .pure false
  · exact .bind (.ask _) fun slot => nested_visible slot (by simp)

theorem nested_driftOf (current : FiberState) (h : bound ≤ 5) :
    Nested rank bound (driftOf current) := by
  unfold driftOf
  split
  · exact .map _ (nested_dependentsForEdges h)
  · exact .pure none

theorem nested_install (owner : FiberId) (h : bound ≤ 2) : Nested rank bound (install owner) := by
  have hdrift : Nested rank (rank .services + 1) (do
      let current ← state owner
      some <$> driftOf current) :=
    .bind (nested_state owner (by simp)) fun current => .map _ (nested_driftOf current (by simp))
  refine .guarded h (.bind (.ask _) fun mismatch => ?_)
  split
  · exact .pure none
  · refine .bind (.ask _) fun occupant => ?_
    cases occupant with
    | none => exact hdrift
    | some existing =>
        refine .bind (.ask _) fun alive => ?_
        split
        · exact .pure none
        · exact hdrift

theorem nested_setExact (h : bound ≤ 2) : Nested rank bound setExact := by
  refine .guarded h (.bind (.ask _) fun isCurrent => ?_)
  split
  · refine .bind (.ask _) fun owner => ?_
    cases owner with
    | some f => exact .guarded (by simp) (nested_assertCanRegister f (by simp))
    | none => exact .pure false
  · exact .pure false

/-- The drift is committed beneath the store and the owner's gate. -/
theorem nested_removeExact (h : bound ≤ 2) : Nested rank bound removeExact := by
  refine .guarded h (.bind (.ask _) fun isCurrent => ?_)
  split
  · refine .bind (.ask _) fun owner => ?_
    cases owner with
    | some f =>
        refine .guarded (by simp) ?_
        refine .bind (nested_assertCanRegister f (by simp)) fun open_ => ?_
        split
        · refine .bind (nested_state f (by simp)) fun current => ?_
          exact .map _ (nested_driftOf current (by simp))
        · exact .pure none
    | none => exact .pure none
  · exact .pure none

theorem nested_slotsOwnedBy (f : FiberId) (h : bound ≤ 2) : Nested rank bound (slotsOwnedBy f) :=
  .guarded h (.ask _)

theorem nested_commitFiberTransition (f : FiberId) (h : bound ≤ 2) :
    Nested rank bound (commitFiberTransition f) := by
  refine .guarded h (.bind (.ask _) fun visibility => ?_)
  have hrest : ∀ drift : Option (List FiberId), Nested rank (rank .services + 1) (do
      setState f
      pure (visibility, drift)) :=
    fun drift => .bind (nested_setState f (by simp)) fun _ => .pure _
  split
  · exact .bind (.pure none) hrest
  · exact .bind (.map _ (nested_dependentsForEdges (by simp))) hrest

theorem nested_snapshotOccurrences (h : bound ≤ 2) : Nested rank bound snapshotOccurrences := by
  refine .guarded h (.bind (.ask _) fun providers => .each (fun f => ?_) _)
  refine .bind (nested_state f (by simp)) fun _ => ?_
  exact .bind (nested_assertCanRegister f (by simp)) fun _ => .pure ()

/-! ### The lifecycle slot -/

theorem nested_missingFrom (f : FiberId) (h : bound ≤ 2) : Nested rank bound (missingFrom f) :=
  .bind (.ask _) fun edges =>
    .each (fun _ => .bind (nested_occurrenceId h) fun _ => .pure ()) edges

theorem nested_computeTarget (f : FiberId) (h : bound ≤ 2) :
    Nested rank bound (computeTarget f) := by
  refine .bind (nested_access (l := .stored f) (by simp; omega)) fun _ => ?_
  exact nested_missingFrom f h

theorem nested_recordTarget (f : FiberId) (h : bound ≤ 8) : Nested rank bound (recordTarget f) :=
  nested_access h

/-- The recheck holds nothing between its probes. -/
theorem nested_exitRecheck (f : FiberId) (h : bound ≤ 2) : Nested rank bound (exitRecheck f) := by
  refine .iterate fun _ => .bind (nested_computeTarget f h) fun _ => ?_
  refine .bind (.ask _) fun drifted => ?_
  split
  · exact .bind (nested_recordTarget f (by omega)) fun _ => .pure _
  · refine .bind (.ask _) fun moved => ?_
    split
    · exact .pure _
    · refine .bind (.ask _) fun released => ?_
      split <;> exact .pure _

theorem nested_whileDrifted (f : FiberId) (h : bound ≤ 2) :
    Nested rank bound (whileDrifted f) := by
  refine .bind (nested_exitRecheck f h) fun drifted => ?_
  split <;> exact .pure _

theorem nested_kickIdle (f : FiberId) (h : bound ≤ 2) : Nested rank bound (kickIdle f) := by
  have hrecorded : Nested rank bound (guarded (.target f) (ask (.recorded f))) :=
    .guarded (by simp; omega) (.ask _)
  refine .bind hrecorded fun recorded => ?_
  split
  · exact .bind (nested_exitRecheck f h) fun _ => .pure ()
  · exact .bind (nested_computeTarget f h) fun _ => nested_recordTarget f (by omega)

theorem nested_kick (f : FiberId) (h : bound ≤ 2) : Nested rank bound (kick f) := by
  refine .bind (.ask _) fun alive => ?_
  split
  · refine .bind (.ask _) fun committed => ?_
    split
    · refine .iterate fun _ => .bind (.ask _) fun inertia => ?_
      cases inertia with
      | active => exact .pure _
      | releasing =>
          refine .bind (.ask _) fun claimed => ?_
          split <;> exact .pure _
      | idle =>
          refine .bind (.ask _) fun handle => ?_
          split
          · refine .bind (.ask _) fun claimed => ?_
            split
            · exact .bind (nested_kickIdle f h) fun _ => .pure _
            · exact .pure _
          · exact .pure _
    · exact .pure ()
  · exact .pure ()

/-- Kicks run when the store is free again. -/
theorem nested_kickDrift (drift : Option (List FiberId)) (h : bound ≤ 2) :
    Nested rank bound (kickDrift drift) := by
  cases drift with
  | none => exact .pure ()
  | some affected => exact .each (fun f => nested_kick f h) affected

theorem nested_followUp (drift : Option (List FiberId)) (h : bound ≤ 2) :
    Nested rank bound (followUp drift) := by
  refine .bind (nested_kickDrift drift h) fun _ => ?_
  split
  · exact nested_publishObservation (by omega)
  · exact .pure ()

/-! ### Service publications -/

theorem nested_provide (f : FiberId) (h : bound ≤ 1) : Nested rank bound (provide f) := by
  refine .bind (nested_assertCanRegister f (by omega)) fun open_ => ?_
  split
  · refine .bind (nested_pushGated f (nested_install f (by simp)) h) fun installed => ?_
    cases installed with
    | some drift => exact nested_followUp drift (by omega)
    | none => exact .pure ()
  · exact .pure ()

/-- The token is claimed when the store is free again. -/
theorem nested_remove (h : bound ≤ 1) : Nested rank bound remove := by
  refine .bind (nested_removeExact (by omega)) fun removed => ?_
  cases removed with
  | none => exact .pure ()
  | some drift =>
      refine .bind (.ask _) fun owner => ?_
      cases owner with
      | some f =>
          refine .bind (nested_removeDisposable f h) fun _ => ?_
          exact nested_followUp drift (by omega)
      | none => exact nested_followUp drift (by omega)

/-! ### Transitions, passes and teardown -/

theorem nested_transition (f : FiberId) (next : FiberState) (h : bound ≤ 2) :
    Nested rank bound (transition f next) := by
  refine .bind (nested_state f (by omega)) fun old => ?_
  split
  · exact .pure ()
  · refine .bind (nested_root f (by omega)) fun installed => ?_
    split
    · refine .bind (nested_commitFiberTransition f h) fun committed => ?_
      refine .bind (nested_kickDrift committed.2 h) fun _ => ?_
      refine .bind (.each (fun _ => nested_publishObservation (by omega)) committed.1) fun _ => ?_
      exact nested_publishObservation (by omega)
    · refine .bind (nested_setState f (by omega)) fun _ => ?_
      split
      · exact nested_publishObservation (by omega)
      · exact .pure ()

theorem nested_executeCleanup (cleanup : CleanupBody) (h : bound ≤ 2) :
    Nested rank bound (executeCleanup cleanup) := by
  cases cleanup with
  | withdrawExact => exact nested_access h
  | removeListener => exact nested_removeHook (by omega)
  | removeUpdate => exact nested_access (by simp; omega)
  | removeExporter => exact nested_access (by simp; omega)
  | removeObserver => exact nested_access (by simp; omega)
  | user => exact .pure ()

theorem nested_disarmEffect (h : bound ≤ 1) : Nested rank bound disarmEffect :=
  nested_claimToken (.pure ()) h

/-- A claimed cleanup runs when the journal is free again. -/
theorem nested_disposeEffect (h : bound ≤ 1) : Nested rank bound disposeEffect := by
  refine .bind (.ask _) fun owner => ?_
  cases owner with
  | none => exact .pure ()
  | some f =>
      refine .bind (nested_removeDisposable f h) fun claimed => ?_
      cases claimed with
      | none => exact .pure ()
      | some cleanup =>
          refine .bind (nested_access (by simp; omega)) fun _ => ?_
          exact nested_executeCleanup cleanup (by omega)

theorem nested_runCleanupContained (f : FiberId) (cleanup : CleanupBody) (h : bound ≤ 2) :
    Nested rank bound (runCleanupContained f cleanup) := by
  refine .bind (nested_access (by simp; omega)) fun _ => ?_
  refine .bind (nested_access (by simp; omega)) fun _ => ?_
  exact nested_executeCleanup cleanup h

theorem nested_drainDisposables (f : FiberId) (h : bound ≤ 1) :
    Nested rank bound (drainDisposables f) := by
  refine .bind (.guarded (by simp; omega) (.ask _)) fun _ => ?_
  refine .bind (.guarded h (.ask _)) fun tokens => .each (fun _ => ?_) _
  refine .bind (nested_removeDisposable f h) fun claimed => ?_
  cases claimed with
  | some cleanup => exact nested_runCleanupContained f cleanup (by omega)
  | none => exact .pure ()

theorem nested_apply (f : FiberId) (h : bound ≤ 0) : Nested rank bound (apply f) := by
  refine .bind (nested_access (by simp; omega)) fun _ => ?_
  refine .bind (nested_transition f .loading (by omega)) fun _ => ?_
  refine .bind (.ask _) fun applied => ?_
  split
  · exact .bind (nested_access h) fun _ => nested_transition f .active (by omega)
  · refine .bind (nested_transition f .unloading (by omega)) fun _ => ?_
    refine .bind (nested_drainDisposables f (by omega)) fun _ => ?_
    exact .bind (nested_access h) fun _ => nested_transition f .failed (by omega)

theorem nested_settleOnce (f : FiberId) (h : bound ≤ 0) : Nested rank bound (settleOnce f) := by
  have hrest : Nested rank bound (do
      if ← ask (.hasMissing f) then do
        storeError f
        transition f .pending
      else if ← ask (.leavesFirstApply f) then pure ()
      else apply f) := by
    refine .bind (.ask _) fun missing => ?_
    split
    · exact .bind (nested_access h) fun _ => nested_transition f .pending (by omega)
    · refine .bind (.ask _) fun leaves => ?_
      split
      · exact .pure ()
      · exact nested_apply f h
  refine .bind (.ask _) fun alive => ?_
  split
  · refine .bind (nested_state f (by omega)) fun current => ?_
    cases current with
    | active | failed | loading =>
        refine .bind (nested_transition f .unloading (by omega)) fun _ => ?_
        exact .bind (nested_drainDisposables f (by omega)) fun _ => hrest
    | pending | unloading | disposed => exact hrest
  · exact .pure ()

theorem nested_teardownBody (f : FiberId) (h : bound ≤ 0) :
    Nested rank bound (teardownBody f) := by
  refine .bind (nested_state f (by omega)) fun current => ?_
  split
  · exact .pure ()
  · have hend : Nested rank bound (do
        drainDisposables f
        transition f .disposed
        storeError f) := by
      refine .bind (nested_drainDisposables f (by omega)) fun _ => ?_
      exact .bind (nested_transition f .disposed (by omega)) fun _ => nested_access h
    refine .bind (nested_transition f .unloading (by omega)) fun _ => ?_
    refine .bind (nested_recordTarget f (by omega)) fun _ => ?_
    refine .bind (nested_root f (by omega)) fun installed => ?_
    split
    · exact .bind (nested_projectEdges f (by omega)) fun _ => hend
    · exact hend

theorem nested_fiberSnapshot (f : FiberId) (h : bound ≤ 2) :
    Nested rank bound (fiberSnapshot f) := by
  refine .iterate fun _ => .bind (nested_state f (by omega)) fun current => ?_
  have hagain : Nested rank bound (do
      let again ← state f
      pure (if again == current then .inr () else .inl ()) : Code (Unit ⊕ Unit)) :=
    .bind (nested_state f (by omega)) fun _ => .pure _
  split
  · refine .bind (.ask _) fun alive => ?_
    split
    · exact .bind (nested_missingFrom f h) fun _ => hagain
    · exact hagain
  · exact hagain

theorem nested_releaseResidency (f : FiberId) (h : bound ≤ 2) :
    Nested rank bound (releaseResidency f) := by
  refine .bind (.guarded (by simp; omega) (.ask _)) fun claim => ?_
  cases claim with
  | none => exact .pure ()
  | some g =>
      have hrelease : Nested rank bound (releaseClaim g) := nested_releaseClaim g (by omega)
      refine .bind (nested_root f (by omega)) fun installed => ?_
      cases installed with
      | true =>
          refine .bind (nested_fiberSnapshot f h) fun _ => .bind hrelease fun _ => ?_
          exact nested_publishObservation (by omega)
      | false => exact .bind hrelease fun _ => .pure ()

theorem nested_attach (f : FiberId) (key : PluginKey) (h : bound ≤ 2) :
    Nested rank bound (attach f key) := by
  refine .bind (nested_attachFiber key f (by omega)) fun _ => ?_
  refine .bind (nested_access (by simp; omega)) fun _ => ?_
  refine .bind (nested_projectEdges f (by omega)) fun _ => ?_
  exact .bind (nested_fiberSnapshot f h) fun _ => nested_publishObservation (by omega)

theorem nested_completeClaimedDispose (f : FiberId) (h : bound ≤ 0) :
    Nested rank bound (completeClaimedDispose f) :=
  .bind (nested_teardownBody f h) fun _ => nested_releaseResidency f (by omega)

theorem nested_dispose (f : FiberId) (h : bound ≤ 0) : Nested rank bound (dispose f) := by
  refine .bind (nested_claimTerminal f (by omega)) fun disposing => ?_
  split
  · exact .pure ()
  · exact .bind (nested_root f (by omega)) fun _ => nested_completeClaimedDispose f h

/-! ### The holders of the slot -/

theorem nested_convergencePass (f : FiberId) (h : bound ≤ 0) :
    Nested rank bound (convergencePass f) := by
  refine .iterate fun _ => .bind (nested_access (by simp; omega)) fun _ => ?_
  refine .bind (nested_settleOnce f h) fun _ => ?_
  refine .bind (nested_computeTarget f (by omega)) fun _ => ?_
  refine .bind (.ask _) fun drifted => ?_
  split
  · exact .bind (nested_recordTarget f (by omega)) fun _ => .pure _
  · exact nested_whileDrifted f (by omega)

/-- The one scope that an operation enters before any other: the parked failure's. -/
theorem nested_updateCommitted (f : FiberId) (h : bound ≤ 0) :
    Nested rank bound (updateCommitted f) := by
  refine .iterate fun _ => .bind (nested_settleOnce f h) fun _ => ?_
  have hfailure : Nested rank bound (guarded (.error f) do
      if ← ask (.hasError f) then pure ()
      else do
        let _ ← state f) := by
    refine .guarded h (.bind (.ask _) fun failed => ?_)
    split
    · exact .pure ()
    · exact .bind (nested_state f (by simp)) fun _ => .pure ()
  refine .bind hfailure fun _ => ?_
  refine .bind (nested_exitRecheck f (by omega)) fun drifted => ?_
  split
  · refine .bind (nested_computeTarget f (by omega)) fun _ => ?_
    exact .bind (nested_recordTarget f (by omega)) fun _ => .pure _
  · exact .pure _

theorem nested_initialSpawnPass (f : FiberId) (h : bound ≤ 0) :
    Nested rank bound (initialSpawnPass f) := by
  refine .bind (.ask _) fun alive => ?_
  split
  · refine .iterate fun _ => .bind (nested_computeTarget f (by omega)) fun _ => ?_
    refine .bind (nested_settleOnce f h) fun _ => ?_
    refine .bind (.ask _) fun missing => ?_
    split
    · refine .bind (nested_recordTarget f (by omega)) fun _ => ?_
      exact nested_whileDrifted f (by omega)
    · refine .bind (nested_recordTarget f (by omega)) fun _ => ?_
      refine .bind (nested_state f (by omega)) fun current => ?_
      split
      · refine .bind (nested_access h) fun _ => .bind (nested_access (by simp; omega)) fun _ => ?_
        exact .bind (nested_completeClaimedDispose f h) fun _ => .pure _
      · exact nested_whileDrifted f (by omega)
  · exact nested_releaseResidency f (by omega)

/-- The source's terminal claim sits beneath the journal, beside the stores. -/
theorem nested_eraSwap (f : FiberId) (h : bound ≤ 1) : Nested rank bound (eraSwap f) := by
  refine .guarded h (.bind (nested_slotsOwnedBy f (by simp)) fun _ => ?_)
  refine .bind (nested_dependentsForEdges (by simp)) fun dependents => ?_
  refine .bind (.exists? (fun _ => .ask _) dependents) fun refused => ?_
  split
  · exact .pure false
  · exact nested_claimTerminal f (by simp)

theorem nested_runtimeSnapshot (h : bound ≤ 2) : Nested rank bound runtimeSnapshot := by
  refine .bind (nested_snapshotFibers (by omega)) fun fibers => ?_
  refine .bind (.each (fun f => nested_fiberSnapshot f h) fibers) fun _ => ?_
  exact nested_snapshotOccurrences h

end Functions

/-! ## Every thread is nested -/

theorem nested_code (operation : Operation) : Nested rank 0 operation.code := by
  have hzero : ∀ {n : Nat}, 0 ≤ n := Nat.zero_le _
  cases operation with
  | provide f => exact nested_provide f hzero
  | set => exact .bind (nested_setExact hzero) fun _ => .pure ()
  | remove => exact nested_remove hzero
  | tryService => exact .bind (nested_visibleValue hzero) fun _ => .pure ()
  | registerListener f => exact nested_registerListener f hzero
  | removeListener => exact nested_claimToken (nested_removeHook hzero) hzero
  | claimHook => exact nested_removeHook hzero
  | removeUpdate => exact nested_claimToken (nested_access hzero) hzero
  | onUpdate f | addExporter f | observeRuntime f =>
      exact .bind (nested_pushGated f (.map _ (nested_access (by simp))) hzero) fun _ => .pure ()
  | effect f => exact .bind (nested_pushGated f (.pure _) hzero) fun _ => .pure ()
  | disarmEffect => exact nested_disarmEffect hzero
  | disposeEffect => exact nested_disposeEffect hzero
  | transition f next => exact nested_transition f next hzero
  | kick f => exact nested_kick f hzero
  | initialSpawnPass f => exact nested_initialSpawnPass f hzero
  | convergencePass f => exact nested_convergencePass f hzero
  | updateCommitted f => exact nested_updateCommitted f hzero
  | claimTerminal f => exact .bind (nested_claimTerminal f hzero) fun _ => .pure ()
  | eraSwap f => exact .bind (nested_eraSwap f hzero) fun _ => .pure ()
  | attach f key => exact nested_attach f key hzero
  | detach key => exact .bind (nested_detachForRemoval key hzero) fun _ => .pure ()
  | dispose f => exact nested_dispose f hzero
  | releaseResidency f => exact nested_releaseResidency f hzero
  | runtimeSnapshot => exact nested_runtimeSnapshot hzero
  | withdrawExact | preflight | claimUpdate | snapshotUpdates | removeExporter | log
  | removeObserver | markTerminal _ | markReplacing _ => exact nested_access hzero

theorem nested_thread : Nested rank 0 thread := by
  refine .iterate fun _ => .bind (.ask _) fun next => ?_
  cases next with
  | some operation => exact .bind (nested_code operation) fun _ => .pure _
  | none => exact .pure _

/-- In every interleaving of any number of threads, whoever is about to take a mutex holds only
mutexes of a lower rank. -/
theorem ranked {c : State} (h : Reachable c) : Ranked rank c :=
  Locks.ranked_of_reachable (fun _ => nested_thread) h

/-! ## No deadlock -/

/-- What the nesting posture promises of a state. -/
structure DeadlockFree (c : State) : Prop where
  no_deadlock : ∀ group : Set Party, ¬ Deadlock c group
  no_reentry : ∀ {p : Party} {l : Lock}, Wants c p l → ¬ Holds c p l
  /-- The journal is outside, the stores are inside. -/
  journal_outside : ∀ {p : Party} {f : FiberId} {l : Lock}, Wants c p (.journal f) →
    l.SemanticStore → ¬ Holds c p l

theorem deadlockFree_of_reachable (c : State) (h : Reachable c) : DeadlockFree c where
  no_deadlock := (ranked h).not_deadlock rank_lt_top
  no_reentry hwants := (ranked h).not_reentrant hwants
  journal_outside {p f l} hwants hstore hholds := by
    have hlow : rank l < rank (.journal f) := ranked h p _ hwants l hholds
    have hhigh : rank (.journal f) < rank l := rank_journal_lt hstore
    omega

/-! ## Two threads at one journal -/

/-- The world of a live Fiber in state Active, as a thread sees it that was asked for one
operation. -/
def answers (operation : Operation) : (q : Query) → q.Answer
  | .isAlive _ | .hasCommittedRecheck _ | .compareExchange _ | .handle | .upgrades | .installed _
  | .recorded _ | .isCurrent | .found | .complete | .applies => true
  | .disposing _ | .generationReplacing _ | .recheckRevisionMoved _ | .leavesFirstApply _
  | .drifted _ | .hasMissing _ | .hasError _ | .claimedDrain _ | .contractMismatch
  | .refusesRecursion => false
  | .dependencyEdges _ | .ownedSlots _ | .tokens _ | .occupants | .dependents | .frozen _
  | .resident => []
  | .inertia _ => .idle
  | .owner | .occupant | .cleanup _ | .claim _ | .mapped _ => none
  | .current _ => .active
  | .allocation _ => 0
  | .next => some operation

/-- A thread is asked for one operation and takes some steps towards it. -/
def begins (p : Party) (operation : Operation) (n : Nat) : List (Label Unit (∀ q, Query.Answer q)) :=
  .enter p () :: List.replicate n (.step p 0 (answers operation))

/-- The first thread publishes, the second waits to register an effect. -/
def atOneJournal : List (Label Unit (∀ q, Query.Answer q)) :=
  begins 1 (.provide 0) 15 ++ begins 2 (.effect 0) 8

def contended : State :=
  (machine.run (fun _ _ _ _ => true) atOneJournal machine.start).get (by decide +kernel)

theorem reachable_contended : Reachable contended :=
  Machine.Reachable.of_run machine (fun _ _ _ _ _ => trivial) atOneJournal .start
    (Option.some_get _).symm

theorem deadlockFree_contended :
    Holds contended 1 (.journal 0) ∧ Wants contended 2 (.journal 0) ∧ DeadlockFree contended :=
  ⟨by unfold Holds; decide +kernel, ⟨_, rfl⟩,
    deadlockFree_of_reachable contended reachable_contended⟩

end Locking
end CordisCore
