import CordisCore.Discipline.Sections

/-!
# Routines — every routine keeps to the discipline
-/

namespace CordisCore
namespace Runtime
namespace Discipline

open Interleaving

variable {p : Party} {f : FiberId} {s : Root} {A : FiberId → Prop}

/-! ## Code that reads registered fibers only -/

theorem disciplined_of_plain {op : Op} (h : plain op = true)
    (hreads : ∀ f, reads op = some f → Registered s f) : Disciplined p op s := by
  cases op with
  | on f op =>
      have hplain : op.plain = true := h
      refine ⟨nofun, fun g hg => ?_, fun g hg => ?_, fun g hg => hreads g ?_, ?_⟩
      · cases op <;> first | exact absurd hplain Bool.noConfusion | cases hg
      · cases op <;> first | exact absurd hplain Bool.noConfusion | cases hg
      · cases op <;> exact hg
      · cases op <;> try rfl
        case store flag value =>
          cases flag <;> first | rfl | (cases value <;> first | rfl | exact absurd hplain Bool.noConfusion)
        case swapGated flag => cases flag <;> first | rfl | exact absurd hplain Bool.noConfusion
  | fork routine =>
      refine ⟨nofun, nofun, nofun, fun g hg => ?_, rfl⟩
      cases routine <;> first | exact absurd h Bool.noConfusion | cases hg
  | _ => first | exact absurd h Bool.noConfusion | exact ⟨nofun, nofun, nofun, nofun, rfl⟩

theorem maintains_block {D : Root → Prop} (hD : Lasting D)
    (hA : ∀ s, D s → ∀ f, A f → Registered s f) {α : Type} {x : Prog α} (hx : Block A α x) :
    discipline.Maintains D p x := by
  cases hx with
  | transition f next => exact maintains_transition hD
  | exitRecheck hf settled revision => exact maintains_exitRecheck hD fun s hd => hA s hd _ hf
  | renudge hf =>
      have hop : ∀ {op : Op}, easy op = true → discipline.Maintains D p (perform op) :=
        fun h => maintains_easy hD h
      refine .bind (.bind (hop rfl) fun _ => .bind (hop rfl) fun _ => .pure _)
        fun outstanding => ?_
      cases outstanding with
      | false => exact .pure _
      | true =>
          refine .bind (hop rfl) fun installed => ?_
          cases installed with
          | true => exact maintains_kick hD fun s hd => hA s hd _ hf
          | false => exact .pure _
  | pushNothing f cleanup inactive h => exact maintains_pushNothing hD
  | enterEra ctx f =>
      exact fun s hs hd => discipline.wp_mono hs (wp_enterEra hs) fun _ _ _ h => hD hd h.2
  | provide f key contract value => exact maintains_provide hD
  | setExact publication value => exact maintains_setExact hD
  | removePublication publication => exact maintains_removePublication hD
  | withdraw key occurrence => exact maintains_withdraw hD

theorem maintains_stage {D : Root → Prop} (hD : Lasting D)
    (hA : ∀ s, D s → ∀ f, A f → Registered s f) {α : Type} {x : Prog α} (hx : Stage A α x) :
    discipline.Maintains D p x := by
  have hop : ∀ {op : Op}, easy op = true → discipline.Maintains D p (perform op) :=
    fun h => maintains_easy hD h
  cases hx with
  | block hblock => exact maintains_block hD hA hblock
  | commitChange f => exact hop rfl
  | admitFiber key edges =>
      exact .bind (hop rfl) fun _ => .bind (hop rfl) fun _ => .bind (hop rfl) fun _ =>
        .bind (hop rfl) fun _ => .bind (hop rfl) fun _ => .pure _
  | releaseResidency f =>
      refine .bind (hop rfl) fun claim => ?_
      cases claim with
      | some group =>
          refine .bind (hop rfl) fun upgraded => ?_
          cases upgraded with
          | true => exact hop rfl
          | false => exact .pure _
      | none => exact .pure _

theorem maintains_routed {D : Root → Prop} (hD : Lasting D)
    (hA : ∀ s, D s → ∀ f, A f → Registered s f) {α : Type} {x : Prog α} (hx : Routed A x) :
    discipline.Maintains D p x :=
  Logic.Maintains.of_built
    (fun _ h => maintains_op hD fun s hd =>
      disciplined_of_plain h.1 fun f hf => hA s hd f (h.2 f hf))
    (fun hstage => maintains_stage hD hA hstage) hx

/-- Code that reads no edges at all. -/
theorem maintains_blind {D : Root → Prop} (hD : Lasting D) {α : Type} {x : Prog α}
    (hx : Routed (fun _ => False) x) : discipline.Maintains D p x :=
  maintains_routed hD (fun _ _ _ hf => hf.elim) hx

/-- Code that reads the edges of one Fiber. -/
theorem maintains_reader {D : Root → Prop} (hD : Lasting D) (hf : ∀ s, D s → Registered s f)
    {α : Type} {x : Prog α} (hx : Routed (fun g => g = f) x) : discipline.Maintains D p x :=
  maintains_routed hD (fun s hd g (hg : g = f) => hg ▸ hf s hd) hx

end Discipline
end Runtime
end CordisCore
