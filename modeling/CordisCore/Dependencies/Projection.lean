import CordisCore.Dependencies.Index
import Mathlib.Data.List.Range

/-!
# Projection — what the index knows in every run
-/

namespace CordisCore
namespace Dependencies

open Interleaving
open CordisCore.Runtime (FiberId DependencyEdge)

/-! ## The projection -/

/-- The entries of an edge are the Fibers that declare it, from their registration to their death;
one that is gone may be missing. -/
structure Root.Projected (s : Root) : Prop where
  rows : ∀ edge f, f ∈ s.index.rows edge →
    (s.fibers f).projected = true ∧ (s.fibers f).withdrawn = false ∧ edge ∈ (s.fibers f).edges
  counts : ∀ edge f, (s.fibers f).projected = true → (s.fibers f).withdrawn = false →
    (s.fibers f).strong = true → (s.index.rows edge).count f = (s.fibers f).edges.count edge
  tidy : s.index.Tidy
  registered : ∀ f, (s.fibers f).projected = true → (s.fibers f).registered = true
  live : ∀ f, s.index.complete = true → (s.fibers f).registered = true →
    (s.fibers f).alive = true → (s.fibers f).projected = true
  withdrawn : ∀ f, (s.fibers f).withdrawn = true → (s.fibers f).alive = false
  held : ∀ f, (s.fibers f).resident = true → (s.fibers f).strong = true
  fresh : ∀ f, s.nextFiber ≤ f → s.fibers f = {}

namespace Root.Projected

variable {s : Root} {f : FiberId} {fiber : Fiber}

/-- One Fiber changes, without a change of its place in the projection. -/
theorem put (h : s.Projected) (hedges : fiber.edges = (s.fibers f).edges)
    (hprojected : fiber.projected = (s.fibers f).projected)
    (hwithdrawn : fiber.withdrawn = (s.fibers f).withdrawn)
    (hregistered : fiber.registered = (s.fibers f).registered)
    (halive : fiber.alive = true → (s.fibers f).alive = true)
    (hstrong : fiber.strong = true → (s.fibers f).strong = true)
    (hheld : fiber.resident = true → fiber.strong = true)
    (hfresh : s.nextFiber ≤ f → fiber = {}) : (s.put f fiber).Projected := by
  have hsame : ∀ g, (Function.update s.fibers f fiber g).edges = (s.fibers g).edges ∧
      (Function.update s.fibers f fiber g).projected = (s.fibers g).projected ∧
      (Function.update s.fibers f fiber g).withdrawn = (s.fibers g).withdrawn ∧
      (Function.update s.fibers f fiber g).registered = (s.fibers g).registered ∧
      ((Function.update s.fibers f fiber g).alive = true → (s.fibers g).alive = true) ∧
      ((Function.update s.fibers f fiber g).strong = true → (s.fibers g).strong = true) ∧
      ((Function.update s.fibers f fiber g).resident = true →
        (Function.update s.fibers f fiber g).strong = true) ∧
      (s.nextFiber ≤ g → Function.update s.fibers f fiber g = {}) := by
    intro g
    by_cases hg : g = f
    · subst hg
      simp only [Function.update_self]
      exact ⟨hedges, hprojected, hwithdrawn, hregistered, halive, hstrong, hheld, hfresh⟩
    · simp only [Function.update_of_ne hg]
      exact ⟨trivial, trivial, trivial, trivial, id, id, h.held g, h.fresh g⟩
  refine ⟨fun edge g hg => ?_, fun edge g hp hw hs => ?_, h.tidy, fun g hp => ?_,
    fun g hc hr ha => ?_, fun g hw => ?_, fun g => (hsame g).2.2.2.2.2.2.1,
    fun g => (hsame g).2.2.2.2.2.2.2⟩
  all_goals simp only [Root.put] at *
  · rw [(hsame g).1, (hsame g).2.1, (hsame g).2.2.1]
    exact h.rows edge g hg
  · rw [(hsame g).1]
    rw [(hsame g).2.1] at hp
    rw [(hsame g).2.2.1] at hw
    exact h.counts edge g hp hw ((hsame g).2.2.2.2.2.1 hs)
  · rw [(hsame g).2.1] at hp
    rw [(hsame g).2.2.2.1]
    exact h.registered g hp
  · rw [(hsame g).2.2.2.1] at hr
    rw [(hsame g).2.1]
    exact h.live g hc hr ((hsame g).2.2.2.2.1 ha)
  · rw [(hsame g).2.2.1] at hw
    have halive := h.withdrawn g hw
    by_contra hne
    rw [(hsame g).2.2.2.2.1 (by simpa using hne)] at halive
    cases halive

/-- A Fiber that was never projected is in no entry. -/
theorem absent (h : s.Projected) (hprojected : (s.fibers f).projected = false)
    (edge : DependencyEdge) : f ∉ s.index.rows edge := by
  intro hmem
  rw [(h.rows edge f hmem).1] at hprojected
  cases hprojected

theorem attach (h : s.Projected) (edges : List DependencyEdge) :
    Root.Projected { s.put s.nextFiber { edges, alive := true, strong := true, resident := true }
      with nextFiber := s.nextFiber + 1 } := by
  have hdefault := h.fresh s.nextFiber (Nat.le_refl _)
  have hold : ∀ edge g, g ∈ s.index.rows edge → g ≠ s.nextFiber := by
    rintro edge g hg rfl
    exact h.absent (by rw [hdefault]) edge hg
  refine ⟨fun edge g hg => ?_, fun edge g hp hw hs => ?_, h.tidy, fun g hp => ?_,
    fun g hc hr ha => ?_, fun g hw => ?_, fun g hg => ?_, fun g hg => ?_⟩
  all_goals simp only [Root.put] at *
  · rw [Function.update_of_ne (hold edge g hg)]
    exact h.rows edge g hg
  all_goals by_cases heq : g = s.nextFiber
  any_goals subst heq
  any_goals simp only [Function.update_self] at *
  any_goals simp only [Function.update_of_ne heq] at *
  · cases hp
  · exact h.counts edge g hp hw hs
  · cases hp
  · exact h.registered g hp
  · cases hr
  · exact h.live g hc hr ha
  · cases hw
  · exact h.withdrawn g hw
  · exact h.held g hg
  · exact absurd hg (Nat.not_succ_le_self _)
  · exact h.fresh g (Nat.le_of_succ_le hg)

/-- Registration projects the Fiber, unless it is dead or the projection is not complete. -/
theorem register (h : s.Projected) (hallocated : f < s.nextFiber)
    (hregistered : (s.fibers f).registered = false) :
    Root.Projected { s.put f { s.fibers f with
        registered := true
        projected := s.index.complete && (s.fibers f).alive } with
      index := s.index.register f (s.fibers f) } := by
  have hunprojected : (s.fibers f).projected = false := by
    by_contra hne
    rw [h.registered f (by simpa using hne)] at hregistered
    cases hregistered
  have habsent := h.absent hunprojected
  have hcomplete := IndexState.complete_register s.index f (s.fibers f)
  -- what is in the entries afterwards
  have hrows : ∀ edge, (s.index.register f (s.fibers f)).rows edge = s.index.rows edge ++
      List.replicate (if s.index.complete && (s.fibers f).alive then
        (s.fibers f).edges.count edge else 0) f := by
    intro edge
    unfold IndexState.register
    cases s.index.complete with
    | false => simp
    | true =>
        cases halive : (s.fibers f).alive with
        | false => simp
        | true => simp [IndexState.rows_foldl_push]
  refine ⟨fun edge g hg => ?_, fun edge g hp hw hs => ?_, h.tidy.register f _, fun g hp => ?_,
    fun g hc hr ha => ?_, fun g hw => ?_, fun g hg => ?_, fun g hg => ?_⟩
  all_goals simp only [Root.put] at *
  · rw [hrows, List.mem_append] at hg
    by_cases heq : g = f
    · subst heq
      rcases hg with hg | hg
      · exact absurd hg (habsent edge)
      · rw [Function.update_self]
        split at hg
        · rename_i hprojects
          have hlive : (s.fibers g).alive = true := by
            rw [Bool.and_eq_true] at hprojects
            exact hprojects.2
          refine ⟨hprojects, ?_, ?_⟩
          · by_contra hne
            rw [h.withdrawn g (by simpa using hne)] at hlive
            cases hlive
          · exact List.count_pos_iff.mp (Nat.pos_of_ne_zero (List.mem_replicate.mp hg).1)
        · cases hg
    · rw [Function.update_of_ne heq]
      rcases hg with hg | hg
      · exact h.rows edge g hg
      · exact absurd (List.mem_replicate.mp hg).2 heq
  · rw [hrows, List.count_append]
    by_cases heq : g = f
    · subst heq
      rw [Function.update_self] at hp ⊢
      rw [List.count_eq_zero_of_not_mem (habsent edge), Nat.zero_add, List.count_replicate_self,
        if_pos hp]
    · rw [Function.update_of_ne heq] at hp hw hs ⊢
      rw [h.counts edge g hp hw hs, List.count_replicate, if_neg (by simpa using Ne.symm heq),
        Nat.add_zero]
  all_goals by_cases heq : g = f
  any_goals subst heq
  any_goals simp only [Function.update_self] at *
  any_goals simp only [Function.update_of_ne heq] at *
  · exact h.registered g hp
  · rw [hcomplete] at hc
    rw [hc, ha]
    rfl
  · exact h.live g (hcomplete ▸ hc) hr ha
  · exact h.withdrawn g hw
  · exact h.withdrawn g hw
  · exact h.held g hg
  · exact h.held g hg
  · exact absurd hallocated (Nat.not_lt.mpr hg)
  · exact h.fresh g hg

theorem unregister (h : s.Projected) (hdead : (s.fibers f).alive = false)
    (hstrong : (s.fibers f).strong = true) :
    Root.Projected { s.put f { s.fibers f with withdrawn := true } with
      index := s.index.unregister f (s.fibers f) } := by
  have hrows : ∀ edge, (s.index.unregister f (s.fibers f)).rows edge =
      if edge ∈ (s.fibers f).edges then (s.index.rows edge).filter (· ≠ f)
      else s.index.rows edge := fun edge => IndexState.rows_foldl_retain _ _
  have hother : ∀ edge g, g ∈ (s.index.unregister f (s.fibers f)).rows edge →
      g ∈ s.index.rows edge ∧ g ≠ f := by
    intro edge g hg
    rw [hrows] at hg
    split at hg
    · have hfilter := List.mem_filter.mp hg
      exact ⟨hfilter.1, by simpa using hfilter.2⟩
    · rename_i hedge
      refine ⟨hg, ?_⟩
      rintro rfl
      exact hedge (h.rows edge g hg).2.2
  have hcomplete := IndexState.complete_unregister s.index f (s.fibers f)
  refine ⟨fun edge g hg => ?_, fun edge g hp hw hs => ?_, h.tidy.unregister f _, fun g hp => ?_,
    fun g hc hr ha => ?_, fun g hw => ?_, fun g hg => ?_, fun g hg => ?_⟩
  all_goals simp only [Root.put] at *
  · rw [Function.update_of_ne (hother edge g hg).2]
    exact h.rows edge g (hother edge g hg).1
  all_goals by_cases heq : g = f
  any_goals subst heq
  any_goals simp only [Function.update_self] at *
  any_goals simp only [Function.update_of_ne heq] at *
  · cases hw
  · rw [hrows, ← h.counts edge g hp hw hs]
    split
    · exact List.count_filter (by simpa using heq)
    · rfl
  · exact h.registered g hp
  · exact h.registered g hp
  · exact h.live g (hcomplete ▸ hc) hr ha
  · exact h.live g (hcomplete ▸ hc) hr ha
  · exact hdead
  · exact h.withdrawn g hw
  · exact h.held g hg
  · exact h.held g hg
  · rw [h.fresh g hg] at hstrong
    cases hstrong
  · exact h.fresh g hg

theorem query (h : s.Projected) (edges : List DependencyEdge) :
    (s.dependentsForEdges edges).1.Projected := by
  cases hcomplete : s.index.complete with
  | false =>
      have hsame : s.index.dependentsOf (fun f => (s.fibers f).strong) edges = (s.index, none) := by
        unfold IndexState.dependentsOf
        rw [if_pos (by simp [hcomplete])]
      simp only [Root.dependentsForEdges, hsame]
      exact h
  | true =>
      rcases IndexState.dependentsOf_complete hcomplete (fun f => (s.fibers f).strong) edges with
        ⟨index, found, heq, hfound⟩
      simp only [Root.dependentsForEdges, heq]
      have hsub : ∀ edge g, g ∈ index.rows edge → g ∈ s.index.rows edge := by
        intro edge g hg
        rw [hfound.rows] at hg
        split at hg
        · exact (List.mem_filter.mp hg).1
        · exact hg
      refine ⟨fun edge g hg => h.rows edge g (hsub edge g hg), fun edge g hp hw hs => ?_,
        hfound.tidy h.tidy, h.registered, fun g _ => h.live g hcomplete, h.withdrawn, h.held,
        h.fresh⟩
      rw [hfound.rows, ← h.counts edge g hp hw hs]
      split
      · exact List.count_filter hs
      · rfl

end Root.Projected

theorem projected {complete : Bool} {ok : Root → Action → Prop} {s : Root}
    (h : (dependencies complete).Reachable ok s) : s.Projected := by
  refine h.invariant (I := Root.Projected) ?_ fun {s a s'} _ ih _ hstep => ?_
  · refine ⟨fun _ _ hf => absurd hf List.not_mem_nil, fun _ _ hp => ?_, fun _ => by simp [dependencies],
      fun _ hp => ?_, fun _ _ hr => ?_, fun _ hw => ?_, fun _ hr => ?_, fun _ _ => rfl⟩
    · cases hp
    · cases hp
    · cases hr
    · cases hw
    · cases hr
  cases a with
  | attach edges =>
      cases hstep
      exact ih.attach edges
  | register f =>
      simp only [dependencies] at hstep
      split at hstep
      · rename_i hguard
        cases hstep
        exact ih.register hguard.1 hguard.2
      · cases hstep
  | kill f =>
      cases hstep
      refine ih.put rfl rfl rfl rfl (fun ha => ?_) id (ih.held f) fun hf => ?_
      · cases ha
      · rw [ih.fresh f hf]
  | unregister f =>
      simp only [dependencies] at hstep
      split at hstep
      · rename_i hguard
        cases hstep
        exact ih.unregister hguard.1 hguard.2
      · cases hstep
  | unlink f =>
      cases hstep
      refine ih.put rfl rfl rfl rfl id id (fun hr => ?_) fun hf => ?_
      · cases hr
      · rw [ih.fresh f hf]
  | forget f =>
      simp only [dependencies] at hstep
      split at hstep
      · rename_i hguard
        cases hstep
        refine ih.put rfl rfl rfl rfl id (fun hs => ?_) (fun hr => ?_) fun hf => ?_
        · cases hs
        -- a fiber that is still held is not forgotten
        · rw [hguard.2] at hr
          cases hr
        · rw [ih.fresh f hf]
      · cases hstep
  | query edges =>
      cases hstep
      exact ih.query edges

/-! ## What a query answers -/

/-- The Fiber declares one of the edges. -/
def Root.Declares (s : Root) (f : FiberId) (edges : List DependencyEdge) : Prop :=
  ∃ edge ∈ edges, edge ∈ (s.fibers f).edges

/-- Every query is answered from the edges that Fibers own. -/
structure Root.Serves (s : Root) : Prop where
  /-- Each dependent once. -/
  nodup : ∀ edges, (s.dependentsForEdges edges).2.Nodup
  /-- Whoever is found can be upgraded, declares an edge that was asked for, and did not leave the
  projection. -/
  sound : ∀ edges, ∀ f ∈ (s.dependentsForEdges edges).2,
    (s.fibers f).strong = true ∧ s.Declares f edges ∧ (s.fibers f).withdrawn = false
  /-- Every live resident Fiber whose spawn is past its registration is found. -/
  complete : ∀ edges f, (s.fibers f).resident = true → (s.fibers f).alive = true →
    (s.fibers f).registered = true → s.Declares f edges → f ∈ (s.dependentsForEdges edges).2
  /-- A complete projection finds nobody else than who is projected. -/
  exact : s.index.complete = true → ∀ edges f, f ∈ (s.dependentsForEdges edges).2 ↔
    (s.fibers f).projected = true ∧ (s.fibers f).withdrawn = false ∧ (s.fibers f).strong = true ∧
      s.Declares f edges
  /-- When everybody left, the map is empty. -/
  empty : (∀ f, (s.fibers f).projected = true → (s.fibers f).withdrawn = true) →
    ∀ edge, s.index.reverse edge = none

namespace Root.Projected

variable {s : Root} {f : FiberId} {edges : List DependencyEdge}

/-- A Fiber in the projection is in the entries of the edges it declares. -/
theorem mem_rows (h : s.Projected) (hp : (s.fibers f).projected = true)
    (hw : (s.fibers f).withdrawn = false) (hs : (s.fibers f).strong = true) (edge : DependencyEdge) :
    f ∈ s.index.rows edge ↔ edge ∈ (s.fibers f).edges := by
  rw [← List.count_pos_iff, ← List.count_pos_iff, h.counts edge f hp hw hs]

theorem mem_indexed (h : s.Projected) (hcomplete : s.index.complete = true) :
    f ∈ (s.dependentsForEdges edges).2 ↔ (s.fibers f).projected = true ∧
      (s.fibers f).withdrawn = false ∧ (s.fibers f).strong = true ∧ s.Declares f edges := by
  rcases IndexState.dependentsOf_complete hcomplete (fun f => (s.fibers f).strong) edges with
    ⟨index, found, heq, hfound⟩
  simp only [Root.dependentsForEdges, heq, hfound.mem]
  refine ⟨?_, ?_⟩
  · rintro ⟨hs, edge, hedge, hrow⟩
    rcases h.rows edge f hrow with ⟨hp, hw, hdeclares⟩
    exact ⟨hp, hw, hs, edge, hedge, hdeclares⟩
  · rintro ⟨hp, hw, hs, edge, hedge, hdeclares⟩
    exact ⟨hs, edge, hedge, (h.mem_rows hp hw hs edge).mpr hdeclares⟩

/-- Without the projection, resident live Fibers are scanned. -/
theorem mem_scanned (h : s.Projected) (hcomplete : s.index.complete = false) :
    f ∈ (s.dependentsForEdges edges).2 ↔ (s.fibers f).resident = true ∧
      (s.fibers f).alive = true ∧ s.Declares f edges := by
  have hnone : s.index.dependentsOf (fun f => (s.fibers f).strong) edges = (s.index, none) := by
    unfold IndexState.dependentsOf
    rw [if_pos (by simp [hcomplete])]
  simp only [Root.dependentsForEdges, hnone, List.mem_filter, Bool.and_eq_true, List.any_eq_true,
    decide_eq_true_eq, snapshotFibers, List.mem_range]
  refine ⟨?_, ?_⟩
  · rintro ⟨⟨-, hr⟩, ha, edge, hdeclares, hedge⟩
    exact ⟨hr, ha, edge, hedge, hdeclares⟩
  · rintro ⟨hr, ha, edge, hedge, hdeclares⟩
    refine ⟨⟨?_, hr⟩, ha, edge, hdeclares, hedge⟩
    by_contra hge
    rw [h.fresh f (Nat.le_of_not_lt hge)] at hr
    cases hr

theorem alive_unwithdrawn (h : s.Projected) (ha : (s.fibers f).alive = true) :
    (s.fibers f).withdrawn = false := by
  by_contra hne
  rw [h.withdrawn f (by simpa using hne)] at ha
  cases ha

end Root.Projected

/-- Whether or not the projection is complete, and however spawns, deaths and queries
interleave. -/
theorem serves_of_reachable (complete : Bool) {s : Root}
    (h : (dependencies complete).Reachable Automaton.anyRun s) : s.Serves where
  nodup edges := by
    cases hcomplete : s.index.complete with
    | false =>
        -- an incomplete index answers nothing, and the fibers are scanned
        have hnone : s.index.dependentsOf (fun f => (s.fibers f).strong) edges =
            (s.index, none) := by
          unfold IndexState.dependentsOf
          rw [if_pos (by simp [hcomplete])]
        simp only [Root.dependentsForEdges, hnone]
        exact (List.nodup_range.filter _).filter _
    | true =>
        rcases IndexState.dependentsOf_complete hcomplete (fun f => (s.fibers f).strong) edges with
          ⟨index, found, heq, hfound⟩
        simp only [Root.dependentsForEdges, heq]
        exact hfound.nodup
  sound edges f hf := by
    have hprojected := projected h
    cases hcomplete : s.index.complete with
    | false =>
        rcases (hprojected.mem_scanned hcomplete).mp hf with ⟨hr, ha, hdeclares⟩
        exact ⟨hprojected.held f hr, hdeclares, hprojected.alive_unwithdrawn ha⟩
    | true =>
        rcases (hprojected.mem_indexed hcomplete).mp hf with ⟨-, hw, hs, hdeclares⟩
        exact ⟨hs, hdeclares, hw⟩
  complete edges f hr ha hregistered hdeclares := by
    have hprojected := projected h
    cases hcomplete : s.index.complete with
    | false => exact (hprojected.mem_scanned hcomplete).mpr ⟨hr, ha, hdeclares⟩
    | true =>
        exact (hprojected.mem_indexed hcomplete).mpr
          ⟨hprojected.live f hcomplete hregistered ha, hprojected.alive_unwithdrawn ha,
            hprojected.held f hr, hdeclares⟩
  exact hcomplete edges f := (projected h).mem_indexed hcomplete
  empty hleft edge := by
    have hprojected := projected h
    cases hrow : s.index.reverse edge with
    | none => rfl
    | some list =>
        cases list with
        | nil => exact absurd hrow (hprojected.tidy edge)
        | cons f rest =>
            have hmem : f ∈ s.index.rows edge := by simp [IndexState.rows, hrow]
            rcases hprojected.rows edge f hmem with ⟨hp, hw, -⟩
            rw [hleft f hp] at hw
            cases hw

/-- A spawn that loses against a disposal, and one that is found. -/
def lateRegistration : List Action :=
  [.attach [⟨0, 0⟩], .attach [⟨0, 0⟩, ⟨1, 0⟩], .kill 0, .unregister 0, .register 0, .register 1,
    .query [⟨1, 0⟩, ⟨0, 0⟩], .kill 1, .unregister 1, .unlink 1, .forget 1, .query [⟨0, 0⟩]]

theorem lateRegistration_enabled : ((dependencies true).run (fun _ _ => true) lateRegistration
    (dependencies true).init).isSome = true := by
  decide +kernel

theorem serves_lateRegistration : Root.Serves ((dependencies true).after (fun _ _ => true)
    lateRegistration lateRegistration_enabled) :=
  serves_of_reachable true (Automaton.reachable_after (fun _ _ _ => trivial) lateRegistration _)

end Dependencies
end CordisCore
