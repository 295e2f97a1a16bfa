import CordisCore.Fiber.Blocks

/-!
# Stages — the operations that only a stage of residency or input performs
-/

namespace CordisCore
namespace Runtime

open Interleaving
open Interleaving.Program (Built iterate)

/-- The operations of the stages. -/
def staged : Op → Bool
  | .allocate _ | .attach _ _ | .install _ _ | .upgradeClaim _ _ | .releaseClaim _ _
  | .commitChange _ | .on _ .takeResidency => true
  | _ => false

/-- Code without any stage. -/
abbrev Unstaged {α : Type} (x : Prog α) : Prop :=
  x.Built (fun op => staged op = false) fun _ _ => False

variable {f : FiberId}

theorem unstaged_op {op : Op} (h : staged op = false) : Unstaged (perform op) :=
  .op h

theorem staged_of_plain {op : Op} (h : plain op = true) : staged op = false := by
  cases op with
  | on f op => cases op <;> first | rfl | cases h
  | _ => first | rfl | cases h

/-! ## The recheck protocol -/

theorem unstaged_computeTarget : Unstaged (computeTarget f) := by
  have hassignments : ∀ edges, Unstaged (readAssignments edges) := by
    intro edges
    induction edges with
    | nil => exact .pure _
    | cons edge edges ih => exact .bind (unstaged_op rfl) fun _ => .bind ih fun _ => .pure _
  exact .bind (unstaged_op rfl) fun _ => .bind (unstaged_op rfl) fun _ =>
    .bind (hassignments _) fun _ => .pure _

theorem unstaged_exitRecheck {settled : SemanticTarget} {revision : Nat} :
    Unstaged (exitRecheck f settled revision) := by
  refine .iterate fun revision => .bind (unstaged_op rfl) fun _ =>
    .bind unstaged_computeTarget fun live => .bind (unstaged_op rfl) fun observed => ?_
  split
  · exact .bind (unstaged_op rfl) fun _ => .bind (unstaged_op rfl) fun _ => .pure _
  · split
    · exact .pure _
    · refine .bind (unstaged_op rfl) fun _ => .bind (unstaged_op rfl) fun word => ?_
      cases word with
      | releasing => exact .pure _
      | active => exact .bind (unstaged_op rfl) fun _ => .pure _
      | idle => exact .bind (unstaged_op rfl) nofun

theorem unstaged_kickClaimed : Unstaged (kickClaimed f) := by
  refine .bind (unstaged_op rfl) fun revision => .bind (unstaged_op rfl) fun target => ?_
  cases target with
  | none =>
      exact .bind unstaged_computeTarget fun _ => .bind (unstaged_op rfl) fun _ =>
        .bind (unstaged_op rfl) fun _ => .pure _
  | some settled =>
      refine .bind unstaged_exitRecheck fun drifted => ?_
      cases drifted with
      | true => exact .bind (unstaged_op rfl) fun _ => .pure _
      | false => exact .pure _

theorem unstaged_hasCommittedRecheck : Unstaged (hasCommittedRecheck f) :=
  .bind (unstaged_op rfl) fun _ => .bind (unstaged_op rfl) fun _ => .pure _

theorem unstaged_kick {revision : Nat} : Unstaged (kick f revision) := by
  have honce : Unstaged (kickOnce f revision) := by
    refine .bind (unstaged_op rfl) fun word => ?_
    cases word with
    | active => exact .pure _
    | releasing =>
        refine .bind (unstaged_op rfl) fun won => ?_
        cases won <;> exact .pure _
    | idle =>
        refine .bind (unstaged_op rfl) fun current => ?_
        cases current with
        | false => exact .pure _
        | true =>
            refine .bind (unstaged_op rfl) fun won => ?_
            cases won with
            | false => exact .pure _
            | true =>
                exact .bind (unstaged_op rfl) fun _ => .bind unstaged_kickClaimed fun _ => .pure _
  have hdriven : Unstaged (ensureDriven f revision) := by
    refine .bind (unstaged_op rfl) fun alive => ?_
    cases alive with
    | false => exact .pure _
    | true =>
        refine .bind unstaged_hasCommittedRecheck fun outstanding => ?_
        cases outstanding with
        | false => exact .pure _
        | true => exact .iterate fun _ => honce
  exact .bind hdriven fun _ => unstaged_op rfl

theorem unstaged_kickAll {drift : List (FiberId × Nat)} : Unstaged (kickAll drift) := by
  induction drift with
  | nil => exact .pure _
  | cons row rest ih => exact .bind unstaged_kick fun _ => ih

/-! ## Drift and transitions -/

theorem unstaged_commitDrift {edges : List DependencyEdge} : Unstaged (commitDrift edges) := by
  have hadvance : ∀ fibers, Unstaged (advanceAll fibers) := by
    intro fibers
    induction fibers with
    | nil => exact .pure _
    | cons f rest ih => exact .bind (unstaged_op rfl) fun _ => .bind ih fun _ => .pure _
  exact .bind (unstaged_op rfl) fun _ => hadvance _

theorem unstaged_transition {next : FiberState} : Unstaged (transition f next) := by
  have hcommit : Unstaged (commitFiberTransition f next) := by
    refine .bind (unstaged_op rfl) fun _ => .bind (unstaged_op rfl) fun visibility => .bind ?_
      fun _ => .bind (unstaged_op rfl) fun _ => .bind (unstaged_op rfl) fun _ => .pure _
    unfold visibilityDrift
    split
    · exact .pure _
    · exact unstaged_commitDrift
  refine .bind (unstaged_op rfl) fun old => ?_
  split
  · exact .pure _
  · refine .bind (unstaged_op rfl) fun root => ?_
    split
    · exact .bind hcommit fun _ => unstaged_kickAll
    · exact unstaged_op rfl

/-! ## Registration and service control -/

theorem unstaged_assertCanRegister : Unstaged (assertCanRegister f) := by
  refine .bind (unstaged_op rfl) fun alive => ?_
  cases alive with
  | false => exact .pure _
  | true =>
      refine .bind (unstaged_op rfl) fun disposing => ?_
      cases disposing with
      | true => exact .pure _
      | false =>
          refine .bind (unstaged_op rfl) fun replacing => ?_
          cases replacing with
          | true => exact .pure _
          | false => exact .bind (unstaged_op rfl) fun _ => .pure _

theorem unstaged_pushGated {ε α : Type} {cleanup : Cleanup} {inactive : ε}
    {publish : Prog (Except ε α)} (h : Unstaged publish) :
    Unstaged (pushGated f cleanup inactive publish) := by
  refine .bind unstaged_assertCanRegister fun admitted => ?_
  cases admitted with
  | false => exact .pure _
  | true =>
      refine .bind (unstaged_op rfl) fun _ => .bind unstaged_assertCanRegister fun admitted => ?_
      cases admitted with
      | false => exact .bind (unstaged_op rfl) fun _ => .pure _
      | true =>
          refine .bind h fun published => ?_
          cases published with
          | ok published =>
              exact .bind (unstaged_op rfl) fun _ => .bind (unstaged_op rfl) fun _ => .pure _
          | error refused => exact .bind (unstaged_op rfl) fun _ => .pure _

theorem unstaged_ownerDrift {key : DependencyEdge} : Unstaged (ownerDrift f key) := by
  refine .bind (unstaged_op rfl) fun state => ?_
  split
  · exact unstaged_commitDrift
  · exact .pure _

theorem unstaged_installSlot {slot : ServiceSlot} : Unstaged (installSlot f slot) := by
  refine .bind (unstaged_op rfl) fun _ => .bind (unstaged_op rfl) fun bound => ?_
  cases bound with
  | false => exact .bind (unstaged_op rfl) fun _ => .pure _
  | true =>
      refine .bind (unstaged_op rfl) fun occupied => ?_
      cases occupied with
      | true => exact .bind (unstaged_op rfl) fun _ => .pure _
      | false =>
          exact .bind unstaged_ownerDrift fun _ => .bind (unstaged_op rfl) fun _ =>
            .bind (unstaged_op rfl) fun _ => .pure _

theorem unstaged_provide {key : DependencyEdge} {contract : Contract} {value : Nat} :
    Unstaged (provide f key contract value) := by
  refine .bind unstaged_assertCanRegister fun admitted => ?_
  cases admitted with
  | false => exact .pure _
  | true =>
      refine .bind (unstaged_op rfl) fun _ =>
        .bind (unstaged_pushGated unstaged_installSlot) fun pushed => ?_
      cases pushed with
      | ok pushed => exact .bind unstaged_kickAll fun _ => .pure _
      | error refusal => exact .pure _

theorem unstaged_setExact {publication : ServicePublication} {value : Nat} :
    Unstaged (setExact publication value) := by
  refine .bind (unstaged_op rfl) fun _ => .bind (unstaged_op rfl) fun holds => ?_
  cases holds with
  | false => exact .bind (unstaged_op rfl) fun _ => .pure _
  | true =>
      refine .bind (unstaged_op rfl) fun _ => .bind unstaged_assertCanRegister fun admitted => ?_
      cases admitted with
      | true =>
          exact .bind (unstaged_op rfl) fun _ => .bind (unstaged_op rfl) fun _ =>
            .bind (unstaged_op rfl) fun _ => .pure _
      | false => exact .bind (unstaged_op rfl) fun _ => .bind (unstaged_op rfl) fun _ => .pure _

theorem unstaged_removePublication {publication : ServicePublication} :
    Unstaged (removePublication publication) := by
  have hremove : Unstaged (removeExact publication) := by
    refine .bind (unstaged_op rfl) fun _ => .bind (unstaged_op rfl) fun holds => ?_
    cases holds with
    | false => exact .bind (unstaged_op rfl) fun _ => .pure _
    | true =>
        refine .bind (unstaged_op rfl) fun _ => .bind unstaged_assertCanRegister fun admitted => ?_
        cases admitted with
        | true =>
            exact .bind unstaged_ownerDrift fun _ => .bind (unstaged_op rfl) fun _ =>
              .bind (unstaged_op rfl) fun _ => .bind (unstaged_op rfl) fun _ => .pure _
        | false =>
            exact .bind (unstaged_op rfl) fun _ => .bind (unstaged_op rfl) fun _ => .pure _
  refine .bind hremove fun removed => ?_
  cases removed with
  | ok drift => exact .bind (unstaged_op rfl) fun _ => .bind unstaged_kickAll fun _ => .pure _
  | error refusal => exact .pure _

theorem unstaged_enterEra {ctx : SettleCtx} : Unstaged (enterEra ctx f) := by
  have hrefuse : ∀ fibers, Unstaged (refuseAny ctx fibers) := by
    intro fibers
    induction fibers with
    | nil => exact .pure _
    | cons g rest ih =>
        refine .bind (unstaged_op rfl) fun refused => ?_
        cases refused with
        | true => exact .pure _
        | false => exact ih
  refine .bind (unstaged_op rfl) fun _ => .bind (unstaged_op rfl) fun _ =>
    .bind (unstaged_op rfl) fun _ => .bind (hrefuse _) fun refused => ?_
  cases refused with
  | true => exact .bind (unstaged_op rfl) fun _ => .pure _
  | false =>
      refine .bind (unstaged_op rfl) fun disposing => .bind (unstaged_op rfl) fun _ => ?_
      cases disposing <;> exact .pure _

theorem unstaged_withdraw {key : DependencyEdge} {occurrence : Occurrence} :
    Unstaged (cleanupBody (.withdraw key occurrence)) := by
  have hexact : Unstaged (withdrawExact key occurrence) := by
    refine .bind (unstaged_op rfl) fun holds => ?_
    cases holds with
    | true => exact unstaged_op rfl
    | false => exact .pure _
  exact .bind (unstaged_op rfl) fun _ => .bind hexact fun _ => unstaged_op rfl

/-! ## Protocol code -/

variable {A : FiberId → Prop}

theorem Block.unstaged {α : Type} {x : Prog α} (h : Block A α x) : Unstaged x := by
  cases h with
  | transition f next => exact unstaged_transition
  | exitRecheck hf settled revision => exact unstaged_exitRecheck
  | renudge hf =>
      refine .bind unstaged_hasCommittedRecheck fun outstanding => ?_
      cases outstanding with
      | false => exact .pure _
      | true =>
          refine .bind (unstaged_op rfl) fun installed => ?_
          cases installed with
          | true => exact unstaged_kick
          | false => exact .pure _
  | pushNothing f cleanup inactive h => exact unstaged_pushGated (.pure _)
  | enterEra ctx f => exact unstaged_enterEra
  | provide f key contract value => exact unstaged_provide
  | setExact publication value => exact unstaged_setExact
  | removePublication publication => exact unstaged_removePublication
  | withdraw key occurrence => exact unstaged_withdraw

/-- Protocol code performs no stage. -/
theorem Protocol.unstaged {α : Type} {x : Prog α} (h : Protocol A x) : Unstaged x :=
  h.mono (fun _ hop => staged_of_plain hop.1) fun hblock => hblock.unstaged

end Runtime
end CordisCore
