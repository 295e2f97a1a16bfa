import CordisCore.Attribution.Frames

/-!
# Exact attribution — who is refused, and what a guard takes away

`SettleFrameGuard::drop` pops by position.  The invariant ties each stack to the
brackets of its task, as long as no guard pops the frame of another live bracket.
-/

namespace CordisCore
namespace Attribution

open Interleaving
open CordisCore.Runtime (FiberId)

/-! ## Statements -/

namespace Frames

/-- Some bracket for the target, entered on the task or in what it inherited, is not over. -/
def Attributed (s : Frames) (t : TaskId) (target : FiberId) : Prop :=
  ∃ guard ∈ s.guards, guard.frame.fiber = target ∧ guard.frame.active ∈ s.attributed t

/-- The frame is on the stack of the task. -/
def OnStack (s : Frames) (t : TaskId) (frame : AttributionFrame) : Prop :=
  ∃ ctx, s.tasks t = some ctx ∧ frame ∈ ctx.settling

/-- The settling rule refuses exactly the attributed targets. -/
def Exact (s : Frames) : Prop :=
  ∀ t, (s.tasks t).isSome = true → ∀ target,
    s.inSettle (some t) target = true ↔ s.Attributed t target

/-- Every other live bracket keeps its liveness and its frames. -/
def Spares (s s' : Frames) (guard : SettleFrameGuard) : Prop :=
  ∀ other ∈ s.guards, other ≠ guard →
    s'.live other.frame.active = s.live other.frame.active ∧
      ∀ t, s.OnStack t other.frame ↔ s'.OnStack t other.frame

/-- The frame on top of the task's stack is this one, or that of a bracket that is over. -/
def topIs (s : Frames) (t : TaskId) (frame : AttributionFrame) : Bool :=
  (s.tasks t).all fun ctx =>
    ctx.settling.getLast?.all fun top => top = frame || !s.live top.active

end Frames

/-- A nested guard is dropped where its frame is on top. -/
def dropsOnTop (s : Frames) : Action → Bool
  | .dropGuard (some t) guard => !guard.popNested || s.topIs t guard.frame
  | _ => true

/-! ## The invariant -/

/-- The frames of a context are those of its brackets. -/
structure Faithful (s : Frames) (ctx : SettleCtx) (brackets : List Bit) : Prop where
  known : ∀ bit ∈ brackets, bit < s.nextBit
  issued : ∀ frame ∈ ctx.settling, frame.active < s.nextBit
  sound : ∀ frame ∈ ctx.settling, ∀ guard ∈ s.guards, guard.frame.active = frame.active →
    guard.frame = frame ∧ frame.active ∈ brackets
  complete : ∀ guard ∈ s.guards, guard.frame.active ∈ brackets → guard.frame ∈ ctx.settling

theorem Faithful.congr {s s' : Frames} {ctx : SettleCtx} {brackets : List Bit}
    (h : Faithful s ctx brackets) (hguards : s'.guards = s.guards)
    (hbit : s'.nextBit = s.nextBit) : Faithful s' ctx brackets where
  known := hbit ▸ h.known
  issued := hbit ▸ h.issued
  sound := hguards ▸ h.sound
  complete := hguards ▸ h.complete

structure Attributing (s : Frames) : Prop where
  issued : ∀ guard ∈ s.guards, guard.frame.active < s.nextBit
  live : ∀ bit, s.live bit = true ↔ ∃ guard ∈ s.guards, guard.frame.active = bit
  distinct : (s.guards.map (·.frame.active)).Nodup
  tasks : ∀ t ctx, s.tasks t = some ctx → Faithful s ctx (s.attributed t)
  captures : ∀ captured ∈ s.captures, Faithful s captured.ctx captured.brackets

variable {s : Frames}

theorem Attributing.same (h : Attributing s) {guard other : SettleFrameGuard}
    (hguard : guard ∈ s.guards) (hother : other ∈ s.guards)
    (hbit : other.frame.active = guard.frame.active) : other = guard :=
  List.inj_on_of_nodup_map h.distinct hother hguard hbit

theorem Attributing.live_guard (h : Attributing s) {guard : SettleFrameGuard}
    (hguard : guard ∈ s.guards) : s.live guard.frame.active = true :=
  (h.live _).mpr ⟨guard, hguard, rfl⟩

theorem Attributing.start : Attributing attribution.init where
  issued := nofun
  live _ := ⟨nofun, nofun⟩
  distinct := List.nodup_nil
  tasks := nofun
  captures := nofun

/-! ## Entering -/

theorem Faithful.guard (f : FiberId) (popNested : Bool) {ctx : SettleCtx} {brackets : List Bit}
    (h : Faithful s ctx brackets) : Faithful (s.guard (s.newFrame f) popNested) ctx brackets where
  known bit hbit := Nat.lt_succ_of_lt (h.known bit hbit)
  issued frame hframe := Nat.lt_succ_of_lt (h.issued frame hframe)
  sound frame hframe guard hguard hbit := by
    rcases List.mem_cons.mp hguard with rfl | hguard
    · exact absurd hbit (Nat.ne_of_gt (h.issued frame hframe))
    · exact h.sound frame hframe guard hguard hbit
  complete guard hguard hbit := by
    rcases List.mem_cons.mp hguard with rfl | hguard
    · exact absurd (h.known _ hbit) (Nat.lt_irrefl _)
    · exact h.complete guard hguard hbit

theorem Attributing.guard (h : Attributing s) (f : FiberId) (popNested : Bool) :
    Attributing (s.guard (s.newFrame f) popNested) where
  issued guard hguard := by
    rcases List.mem_cons.mp hguard with rfl | hguard
    · exact Nat.lt_succ_self _
    · exact Nat.lt_succ_of_lt (h.issued guard hguard)
  live bit := by
    simp only [Frames.guard, List.mem_cons, exists_eq_or_imp]
    by_cases hbit : bit = (s.newFrame f).active
    · simp [hbit]
    · simp only [hbit, if_false, h.live]
      exact ⟨.inr, fun h' => h'.resolve_left fun h'' => hbit h''.symm⟩
  distinct := by
    simp only [Frames.guard, List.map_cons, List.nodup_cons]
    refine ⟨fun hmem => ?_, h.distinct⟩
    rcases List.mem_map.mp hmem with ⟨guard, hguard, hbit⟩
    exact absurd (h.issued guard hguard) (hbit ▸ Nat.lt_irrefl _)
  tasks t ctx ht := (h.tasks t ctx ht).guard f popNested
  captures captured hc := (h.captures captured hc).guard f popNested

/-- A scope opened over a faithful context. -/
theorem Attributing.scope (h : Attributing s) {ctx : SettleCtx} {brackets : List Bit}
    (hctx : Faithful s ctx brackets) : Attributing (s.scope ctx brackets) where
  issued := h.issued
  live := h.live
  distinct := h.distinct
  tasks t ctx' ht := by
    simp only [Frames.scope] at ht ⊢
    by_cases htask : t = s.nextTask
    · simp only [htask, if_true, Option.some.injEq] at ht ⊢
      exact ht ▸ hctx.congr rfl rfl
    · simp only [htask, if_false] at ht ⊢
      exact (h.tasks t ctx' ht).congr rfl rfl
  captures captured hc := (h.captures captured hc).congr rfl rfl

/-- The fresh frame alone. -/
theorem Faithful.single (h : Attributing s) (f : FiberId) (popNested : Bool) :
    Faithful (s.guard (s.newFrame f) popNested) { settling := [s.newFrame f] } [s.nextBit] where
  known bit hbit := List.mem_singleton.mp hbit ▸ Nat.lt_succ_self _
  issued frame hframe := by
    cases List.mem_singleton.mp hframe
    exact Nat.lt_succ_self _
  sound frame hframe guard hguard hbit := by
    cases List.mem_singleton.mp hframe
    rcases List.mem_cons.mp hguard with rfl | hguard
    · exact ⟨rfl, List.mem_singleton.mpr rfl⟩
    · exact absurd (h.issued guard hguard) (hbit ▸ Nat.lt_irrefl _)
  complete guard hguard hbit := by
    rcases List.mem_cons.mp hguard with rfl | hguard
    · exact List.mem_singleton.mpr rfl
    · exact absurd (h.issued guard hguard) (List.mem_singleton.mp hbit ▸ Nat.lt_irrefl _)

/-- A context without settling frames stands for no bracket. -/
theorem Faithful.empty {ctx : SettleCtx} (h : ctx.settling = []) : Faithful s ctx [] where
  known := nofun
  issued := by simp [h]
  sound := by simp [h]
  complete := nofun

theorem Faithful.push (h : Attributing s) (f : FiberId) {ctx : SettleCtx} {brackets : List Bit}
    (hctx : Faithful s ctx brackets) :
    Faithful (s.guard (s.newFrame f) true) { ctx with settling := ctx.settling ++ [s.newFrame f] }
      (s.nextBit :: brackets) where
  known bit hbit := by
    rcases List.mem_cons.mp hbit with rfl | hbit
    · exact Nat.lt_succ_self _
    · exact Nat.lt_succ_of_lt (hctx.known bit hbit)
  issued frame hframe := by
    rcases List.mem_append.mp hframe with hframe | hframe
    · exact Nat.lt_succ_of_lt (hctx.issued frame hframe)
    · cases List.mem_singleton.mp hframe
      exact Nat.lt_succ_self _
  sound frame hframe guard hguard hbit := by
    rcases List.mem_append.mp hframe with hframe | hframe
    · have hold := (hctx.guard f true).sound frame hframe guard hguard hbit
      exact ⟨hold.1, List.mem_cons_of_mem _ hold.2⟩
    · have hnew := (Faithful.single h f true).sound frame hframe guard hguard hbit
      exact ⟨hnew.1, List.mem_cons.mpr (.inl (List.mem_singleton.mp hnew.2))⟩
  complete guard hguard hbit := by
    rcases List.mem_cons.mp hbit with hbit | hbit
    · exact List.mem_append_right _
        ((Faithful.single h f true).complete guard hguard (List.mem_singleton.mpr hbit))
    · exact List.mem_append_left _ ((hctx.guard f true).complete guard hguard hbit)

theorem Attributing.push (h : Attributing s) (t : TaskId) (f : FiberId) :
    Attributing ((s.guard (s.newFrame f) true).push t (s.newFrame f)) := by
  have hguarded := h.guard f true
  refine ⟨hguarded.issued, hguarded.live, hguarded.distinct, fun u ctx' hu => ?_,
    fun captured hc => (hguarded.captures captured hc).congr rfl rfl⟩
  simp only [Frames.push, Frames.modify] at hu ⊢
  by_cases htask : u = t
  · subst htask
    simp only [if_true, Option.map_eq_some_iff] at hu ⊢
    rcases hu with ⟨ctx, hctx, rfl⟩
    exact (Faithful.push h f (h.tasks u ctx hctx)).congr rfl rfl
  · simp only [htask, if_false] at hu ⊢
    exact (hguarded.tasks u ctx' hu).congr rfl rfl

/-! ## Leaving -/

/-- What is left when a guard is gone, before its nested frame is popped. -/
def Frames.released (s : Frames) (guard : SettleFrameGuard) : Frames :=
  { s with
    live := fun bit => if bit = guard.frame.active then false else s.live bit
    guards := s.guards.erase guard }

theorem Faithful.released (guard : SettleFrameGuard) {ctx : SettleCtx} {brackets : List Bit}
    (h : Faithful s ctx brackets) : Faithful (s.released guard) ctx brackets where
  known := h.known
  issued := h.issued
  sound frame hframe other hother := h.sound frame hframe other (List.mem_of_mem_erase hother)
  complete other hother := h.complete other (List.mem_of_mem_erase hother)

theorem Attributing.mem_released (h : Attributing s) {guard other : SettleFrameGuard} :
    other ∈ (s.released guard).guards ↔ other ≠ guard ∧ other ∈ s.guards :=
  (List.Nodup.of_map _ h.distinct).mem_erase_iff

theorem Attributing.released (h : Attributing s) {guard : SettleFrameGuard}
    (hguard : guard ∈ s.guards) : Attributing (s.released guard) where
  issued other hother := h.issued other (List.mem_of_mem_erase hother)
  live bit := by
    by_cases hbit : bit = guard.frame.active
    · subst hbit
      simp only [Frames.released, if_true, Bool.false_eq_true, false_iff, not_exists, not_and]
      intro other hother hsame
      have hmem := h.mem_released.mp hother
      exact hmem.1 (h.same hguard hmem.2 hsame)
    · simp only [Frames.released, hbit, if_false, h.live]
      constructor
      · rintro ⟨other, hother, rfl⟩
        exact ⟨other, h.mem_released.mpr ⟨fun heq => hbit (heq ▸ rfl), hother⟩, rfl⟩
      · rintro ⟨other, hother, rfl⟩
        exact ⟨other, List.mem_of_mem_erase hother, rfl⟩
  distinct := (List.erase_sublist.map _).nodup h.distinct
  tasks t ctx ht := (h.tasks t ctx ht).released guard
  captures captured hc := (h.captures captured hc).released guard

/-- Popping leaves every live bracket its frame when the top is the guard's own or dead. -/
theorem Faithful.pop (h : Attributing s) {guard : SettleFrameGuard} (hguard : guard ∈ s.guards)
    {ctx : SettleCtx} {brackets : List Bit} (hctx : Faithful s ctx brackets)
    (htop : ∀ top, ctx.settling.getLast? = some top →
      top = guard.frame ∨ s.live top.active = false) :
    Faithful (s.released guard) { ctx with settling := ctx.settling.dropLast } brackets where
  known := hctx.known
  issued frame hframe := hctx.issued frame (List.dropLast_subset _ hframe)
  sound frame hframe other hother :=
    hctx.sound frame (List.dropLast_subset _ hframe) other (List.mem_of_mem_erase hother)
  complete other hother hbit := by
    have hmem := h.mem_released.mp hother
    have hon := hctx.complete other hmem.2 hbit
    rcases List.eq_nil_or_concat ctx.settling with hnil | ⟨rest, top, hstack⟩
    · rw [hnil] at hon
      cases hon
    · simp only [List.concat_eq_append] at hstack
      rw [hstack] at hon htop ⊢
      simp only [List.dropLast_concat]
      rcases List.mem_append.mp hon with hrest | hlast
      · exact hrest
      · -- the frame on top belongs to a live bracket other than the guard's own
        exfalso
        have hframe := List.mem_singleton.mp hlast
        rcases htop top List.getLast?_concat with hown | hdead
        · exact hmem.1 (h.same hguard hmem.2 (congrArg _ (hframe.trans hown)))
        · rw [← hframe, h.live_guard hmem.2] at hdead
          cases hdead

theorem topIs_iff {t : TaskId} {frame : AttributionFrame} :
    s.topIs t frame = true ↔ ∀ ctx, s.tasks t = some ctx → ∀ top,
      ctx.settling.getLast? = some top → top = frame ∨ s.live top.active = false := by
  unfold Frames.topIs
  simp only [Option.all_eq_true, Bool.or_eq_true, decide_eq_true_eq, Bool.not_eq_true']

theorem Attributing.pop (h : Attributing s) {guard : SettleFrameGuard} (hguard : guard ∈ s.guards)
    {current : Option TaskId} (htop : ∀ t, current = some t → s.topIs t guard.frame = true) :
    Attributing ((s.released guard).pop current) := by
  have hreleased := h.released hguard
  cases current with
  | none => exact hreleased
  | some t =>
      refine ⟨hreleased.issued, hreleased.live, hreleased.distinct, fun u ctx' hu => ?_,
        fun captured hc => (hreleased.captures captured hc).congr rfl rfl⟩
      simp only [Frames.pop, Frames.modify] at hu ⊢
      by_cases htask : u = t
      · subst htask
        simp only [if_true, Option.map_eq_some_iff] at hu
        rcases hu with ⟨ctx, hctx, rfl⟩
        exact (Faithful.pop h hguard (h.tasks u ctx hctx)
          (topIs_iff.mp (htop u rfl) ctx hctx)).congr rfl rfl
      · simp only [htask, if_false] at hu
        exact (hreleased.tasks u ctx' hu).congr rfl rfl

theorem Attributing.dropGuard (h : Attributing s) {guard : SettleFrameGuard}
    (hguard : guard ∈ s.guards) {current : Option TaskId}
    (htop : dropsOnTop s (.dropGuard current guard) = true) :
    Attributing (s.dropGuard current guard) := by
  show Attributing (if guard.popNested then (s.released guard).pop current else s.released guard)
  split
  · rename_i hnested
    refine h.pop hguard fun t ht => ?_
    subst ht
    simpa [dropsOnTop, hnested] using htop
  · exact h.released hguard

/-! ## Every run -/

theorem Attributing.capture (h : Attributing s) {current : Option TaskId}
    (hrunning : s.running current = true) : Attributing (s.capture current) := by
  refine ⟨h.issued, h.live, h.distinct, fun t ctx ht => (h.tasks t ctx ht).congr rfl rfl,
    fun captured hc => ?_⟩
  rcases List.mem_cons.mp hc with rfl | hc
  · cases current with
    | none => exact Faithful.empty rfl
    | some t =>
        rcases Option.isSome_iff_exists.mp hrunning with ⟨ctx, hctx⟩
        simp only [Frames.context, Option.bind_some, hctx, Option.getD_some, Option.map_some]
        exact (h.tasks t ctx hctx).congr rfl rfl
  · exact (h.captures captured hc).congr rfl rfl

theorem Attributing.bracket (h : Attributing s) (current : Option TaskId) (f : FiberId) :
    Attributing (s.bracket current f) := by
  cases current with
  | none => exact (h.guard f false).scope (.single h f false)
  | some t => exact h.push t f

theorem Attributing.close (h : Attributing s) (t : TaskId) : Attributing (s.close t) := by
  refine ⟨h.issued, h.live, h.distinct, fun u ctx hu => ?_,
    fun captured hc => (h.captures captured hc).congr rfl rfl⟩
  simp only [Frames.close] at hu
  split at hu
  · cases hu
  · exact (h.tasks u ctx hu).congr rfl rfl

theorem Attributing.step {s s' : Frames} {a : Action} (h : Attributing s)
    (htop : dropsOnTop s a = true) (hstep : attribution.step s a = some s') : Attributing s' := by
  cases a with
  | bracket current f =>
      rcases Option.ite_none_right_eq_some.mp hstep with ⟨-, hs'⟩
      exact Option.some.inj hs' ▸ h.bracket current f
  | runTask f =>
      exact Option.some.inj hstep ▸ (h.guard f false).scope (.empty rfl)
  | dropGuard current guard =>
      rcases Option.ite_none_right_eq_some.mp hstep with ⟨hguard, hs'⟩
      exact Option.some.inj hs' ▸ h.dropGuard hguard.2 htop
  | capture current =>
      rcases Option.ite_none_right_eq_some.mp hstep with ⟨hrunning, hs'⟩
      exact Option.some.inj hs' ▸ h.capture hrunning
  | withAttribution captured =>
      rcases Option.ite_none_right_eq_some.mp hstep with ⟨hc, hs'⟩
      exact Option.some.inj hs' ▸ h.scope (h.captures captured hc)
  | leave t => exact Option.some.inj hstep ▸ h.close t

theorem attributing_of_reachable
    (h : attribution.Reachable (fun s a => dropsOnTop s a = true) s) : Attributing s :=
  h.invariant .start fun _ hs htop hstep => hs.step htop hstep

/-! ## Refusals -/

theorem Attributing.exact (h : Attributing s) : s.Exact := by
  intro t ht target
  rcases Option.isSome_iff_exists.mp ht with ⟨ctx, hctx⟩
  have hfaithful := h.tasks t ctx hctx
  simp only [Frames.inSettle, Frames.context, Option.bind_some, hctx, Option.any_some,
    List.any_eq_true, Frames.isActiveFor, Bool.and_eq_true, decide_eq_true_eq]
  constructor
  · rintro ⟨frame, hframe, hlive, rfl⟩
    rcases (h.live _).mp hlive with ⟨guard, hguard, hbit⟩
    have hown := hfaithful.sound frame hframe guard hguard hbit
    exact ⟨guard, hguard, congrArg _ hown.1, hbit ▸ hown.2⟩
  · rintro ⟨guard, hguard, rfl, hbit⟩
    exact ⟨guard.frame, hfaithful.complete guard hguard hbit, h.live_guard hguard, rfl⟩

theorem Attributing.onStack_iff (h : Attributing s) {guard : SettleFrameGuard}
    (hguard : guard ∈ s.guards) (t : TaskId) :
    s.OnStack t guard.frame ↔
      (s.tasks t).isSome = true ∧ guard.frame.active ∈ s.attributed t := by
  constructor
  · rintro ⟨ctx, hctx, hframe⟩
    exact ⟨hctx ▸ rfl, ((h.tasks t ctx hctx).sound _ hframe guard hguard rfl).2⟩
  · rintro ⟨ht, hbit⟩
    rcases Option.isSome_iff_exists.mp ht with ⟨ctx, hctx⟩
    exact ⟨ctx, hctx, (h.tasks t ctx hctx).complete guard hguard hbit⟩

/-- Dropping a guard neither opens nor closes a task, nor changes what it stands for. -/
theorem dropGuard_tasks (s : Frames) (current : Option TaskId) (guard : SettleFrameGuard)
    (t : TaskId) :
    ((s.dropGuard current guard).tasks t).isSome = (s.tasks t).isSome ∧
      (s.dropGuard current guard).attributed t = s.attributed t := by
  show ((if guard.popNested then (s.released guard).pop current
    else s.released guard).tasks t).isSome = _ ∧ (if guard.popNested then
      (s.released guard).pop current else s.released guard).attributed t = _
  split
  · cases current with
    | none => exact ⟨rfl, rfl⟩
    | some u =>
        refine ⟨?_, rfl⟩
        simp only [Frames.pop, Frames.modify]
        split
        · exact Option.isSome_map
        · rfl
  · exact ⟨rfl, rfl⟩

theorem dropGuard_guards (s : Frames) (current : Option TaskId) (guard : SettleFrameGuard) :
    (s.dropGuard current guard).guards = s.guards.erase guard := by
  show (if guard.popNested then (s.released guard).pop current
    else s.released guard).guards = _
  split
  · cases current <;> rfl
  · rfl

theorem Attributing.spares (h : Attributing s) {current : Option TaskId}
    {guard : SettleFrameGuard} (hguard : guard ∈ s.guards)
    (htop : dropsOnTop s (.dropGuard current guard) = true) :
    s.Spares (s.dropGuard current guard) guard := by
  intro other hother hne
  have h' := h.dropGuard hguard htop
  have hother' : other ∈ (s.dropGuard current guard).guards := by
    rw [dropGuard_guards]
    exact h.mem_released.mpr ⟨hne, hother⟩
  refine ⟨(h'.live_guard hother').trans (h.live_guard hother).symm, fun t => ?_⟩
  have hsame := dropGuard_tasks s current guard t
  rw [h.onStack_iff hother, h'.onStack_iff hother', hsame.1, hsame.2]

/-- While every nested guard drops on top: exact refusals, and guards that spare all others. -/
theorem attribution_exact
    (h : attribution.Reachable (fun s a => dropsOnTop s a = true) s) :
    s.Exact ∧ ∀ current guard s', dropsOnTop s (.dropGuard current guard) = true →
      attribution.step s (.dropGuard current guard) = some s' → s.Spares s' guard := by
  have hs := attributing_of_reachable h
  refine ⟨hs.exact, fun current guard s' htop hstep => ?_⟩
  rcases Option.ite_none_right_eq_some.mp hstep with ⟨hguard, hs'⟩
  exact Option.some.inj hs' ▸ hs.spares hguard.2 htop

/-! ## Two concurrent brackets -/

/-- Fiber 1 settles inside the teardown of Fiber 9 and is over before its sibling. -/
def siblings : List Action :=
  [.bracket none 9, .bracket (some 0) 1, .bracket (some 0) 2]

/-- The guard of the sibling that entered first. -/
def firstSibling : SettleFrameGuard :=
  { frame := { fiber := 1, active := 1 }, popNested := true }

/-- Cancelled in order of entry, the first sibling takes the second one's frame. -/
theorem not_exact_siblings :
    ∃ s, attribution.Reachable Automaton.anyRun s ∧ ¬ s.Exact := by
  refine ⟨attribution.after (fun _ _ => true)
    (siblings ++ [.dropGuard (some 0) firstSibling]) (by decide),
    Automaton.reachable_after (fun _ _ _ => trivial) _ _, fun hexact => ?_⟩
  have hrefused := (hexact 0 (by decide) 2).mpr
    ⟨{ frame := { fiber := 2, active := 2 }, popNested := true }, by decide, rfl, by decide⟩
  revert hrefused
  decide

/-- The second sibling goes first, and the first one is still refused. -/
theorem attribution_exact_siblings :
    let s := attribution.after dropsOnTop (siblings ++ [.dropGuard (some 0)
      { frame := { fiber := 2, active := 2 }, popNested := true }]) (by decide)
    s.Exact ∧ ∀ current guard s', dropsOnTop s (.dropGuard current guard) = true →
      attribution.step s (.dropGuard current guard) = some s' → s.Spares s' guard :=
  attribution_exact (Automaton.reachable_after (fun _ _ h => h) _ _)

end Attribution
end CordisCore
