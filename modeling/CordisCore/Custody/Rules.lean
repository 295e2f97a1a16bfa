import CordisCore.Custody.Logic

/-!
# Rules of custody — code beside a slot and code under it
-/

namespace CordisCore
namespace Runtime

open Interleaving
open Interleaving.Program (iterate)

variable {p : Party} {f : FiberId} {s : Reel} {α β γ : Type}

/-! ## Code that touches no slot -/

/-- The code keeps whatever slots the party holds. -/
def Clean (p : Party) (x : Prog α) : Prop :=
  ∀ s, Custody s → custody.wp p x (fun _ s' => Beside p (fun _ => False) s s') s

theorem Clean.pure (a : α) : Clean p (Pure.pure a : Prog α) :=
  fun s _ => Beside.refl p _ s

theorem Clean.bind {x : Prog α} {y : α → Prog β} (hx : Clean p x) (hy : ∀ a, Clean p (y a)) :
    Clean p (x >>= y) := by
  intro s hs
  refine custody.wp_seq hs (hx s hs) fun a s' hs' hb => ?_
  refine custody.wp_mono hs' (hy a s' hs') fun b s'' _ hb' => ?_
  exact hb.trans hb'

theorem Clean.iterate {start : γ} {body : γ → Prog (γ ⊕ β)} (h : ∀ g, Clean p (body g)) :
    Clean p (iterate start body) := by
  intro s _
  refine custody.wp_iterate (fun _ s' => Beside p (fun _ => False) s s') (Beside.refl p _ s) ?_
  intro g s' hs' hb
  refine custody.wp_mono hs' (h g s' hs') fun o s'' _ hb' => ?_
  cases o <;> exact hb.trans hb'

/-- The Fiber whose creation an operation marks as over. -/
def unseals : Op → Option FiberId
  | .on f (.store .creationPending false) => some f
  | _ => none

/-- The Fiber that its creator marks as its own with an operation. -/
def owns : Op → Option FiberId
  | .on f (.store .creationOwned true) => some f
  | _ => none

/-- The Fiber whose disposal an operation declares complete. -/
def completes : Op → Option FiberId
  | .on f (.store .disposeComplete true) => some f
  | _ => none

/-- The operation needs no slot, moves none and marks no creation and no disposal. -/
structure Loose (op : Op) : Prop where
  slot : underSlot op = none
  handles : handles op = none
  unseals : unseals op = none
  owns : owns op = none
  completes : completes op = none
  forks : forks op = none
  plain : tampers op = false

/-- The same, decided. -/
def loose (op : Op) : Bool :=
  (underSlot op).isNone && (handles op).isNone && (unseals op).isNone && (owns op).isNone &&
    (completes op).isNone && (forks op).isNone && !tampers op

theorem loose_iff {op : Op} : loose op = true ↔ Loose op := by
  simp only [loose, Bool.and_eq_true, Option.isNone_iff_eq_none, Bool.not_eq_true']
  constructor
  · rintro ⟨⟨⟨⟨⟨⟨hslot, hhandles⟩, hunseals⟩, howns⟩, hcompletes⟩, hforks⟩, hplain⟩
    exact ⟨hslot, hhandles, hunseals, howns, hcompletes, hforks, hplain⟩
  · rintro ⟨hslot, hhandles, hunseals, howns, hcompletes, hforks, hplain⟩
    exact ⟨⟨⟨⟨⟨⟨hslot, hhandles⟩, hunseals⟩, howns⟩, hcompletes⟩, hforks⟩, hplain⟩

/-- No operation outside the slots publishes a state. -/
theorem publishes_of_outside {op : Op} (hu : underSlot op = none) (f : FiberId)
    (next : FiberState) (hop : op = .on f (.publish next)) : (view s f).Publishes next := by
  subst hop
  cases hu

theorem cleared_of_outside {op : Op} (hu : underSlot op = none) (hh : handles op = none)
    (hm : unseals op = none) (hc : completes op = none) (ht : tampers op = false) :
    Cleared p op s := by
  refine {
    plain := ht
    rest := fun f hop => ?rest
    publish := publishes_of_outside hu
    complete := fun f hop => ?complete
    due := fun f target hop => ?due
    drifted := fun f hop => ?drifted
    unseals := fun f hop => ?unseals }
  case rest => rcases hop with rfl | rfl <;> cases hh
  case complete =>
    subst hop
    cases hc
  case due =>
    subst hop
    cases hu
  case drifted =>
    subst hop
    cases hh
  case unseals =>
    subst hop
    cases hm

theorem holds_shoot {q : Party} {choice : Choice} {op : Op} {state : Root} {r : op.Ret}
    (ha : Authorized p op s) (h : exec p q choice op s.state = some (state, r)) {g : FiberId}
    (hhandles : handles op ≠ some g) : Holds p (s.shoot p op r state) g ↔ Holds p s g := by
  have hsame := exec_holders ha.fresh h hhandles
  have hnext := exec_nextFiber_le h
  constructor
  · intro hheld
    have hmem := (holds_iff (s := s.shoot p op r state) (lt_of_holds hheld)).mp hheld
    change p ∈ (state.fibers g).trace.holders at hmem
    rw [hsame] at hmem
    by_cases hborn : g < s.state.nextFiber
    · exact (holds_iff hborn).mpr hmem
    · rw [ha.fresh g (Nat.not_lt.mp hborn)] at hmem
      cases hmem
  · intro hheld
    have hborn := lt_of_holds hheld
    have hmem := (holds_iff hborn).mp hheld
    refine (holds_iff (s := s.shoot p op r state) (Nat.lt_of_lt_of_le hborn hnext)).mpr ?_
    show p ∈ (state.fibers g).trace.holders
    rw [hsame]
    exact hmem

/-- An operation outside the slots, as its performer sees it. -/
theorem beside_of_exec {q : Party} {choice : Choice} {op : Op} {state : Root} {r : op.Ret}
    (ha : Authorized p op s) (h : exec p q choice op s.state = some (state, r))
    (hop : tampers op = false)
    (hpublish : ∀ g next, op = .on g (.publish next) → (view s g).Publishes next)
    {F : FiberId → Prop} (hslot : ∀ g, underSlot op = some g → F g)
    (hhandles : ∀ g, handles op = some g → F g) (hunseals : ∀ g, unseals op = some g → F g)
    (howns : owns op = none) : Beside p F s (s.shoot p op r state) := by
  refine beside_shoot h hop (onward_shoot ha hop hpublish h)
    (fun g hunder hg => absurd (hslot g hunder) hg)
    (fun g hg hF => absurd (hunseals g (hg ▸ rfl)) hF) (fun g hg => ?_) fun g hg => ?_
  · subst hg
    cases howns
  · exact holds_shoot ha h fun hhandle => hg (hhandles g hhandle)

theorem Loose.cleared {op : Op} (h : Loose op) : Cleared p op s :=
  cleared_of_outside h.slot h.handles h.unseals h.completes h.plain

theorem Loose.beside {op : Op} (hloose : Loose op) {q : Party} {choice : Choice} {state : Root}
    {r : op.Ret} (ha : Authorized p op s)
    (h : exec p q choice op s.state = some (state, r)) :
    Beside p (fun _ => False) s (s.shoot p op r state) := by
  refine beside_of_exec ha h hloose.plain (publishes_of_outside hloose.slot) (fun g hg => ?_)
    (fun g hg => ?_) (fun g hg => ?_) hloose.owns
  · exact absurd (hloose.slot.symm.trans hg) nofun
  · exact absurd (hloose.handles.symm.trans hg) nofun
  · exact absurd (hloose.unseals.symm.trans hg) nofun

/-- The party performed one operation, possibly after steps of the others. -/
def Took (p : Party) (op : Op) (s : Reel) (r : op.Ret) (s' : Reel) : Prop :=
  ∃ mid q c state, Waits p s mid ∧ Custody mid ∧ Authorized p op mid ∧
    exec p q c op mid.state = some (state, r) ∧ s' = mid.shoot p op r state

theorem wp_took {op : Op} (h : loose op = true) :
    custody.wp p (perform op) (fun r s' => Took p op s r s') s := by
  have hloose := loose_iff.mp h
  refine wp_op hloose.forks fun mid hr hmid => ⟨hloose.cleared, ?_⟩
  intro q c state r ha hexec
  exact ⟨mid, q, c, state, hr, hmid, ha, hexec, rfl⟩

theorem Took.beside {op : Op} {r : op.Ret} {s' : Reel} (hop : loose op = true)
    (h : Took p op s r s') : Beside p (fun _ => False) s s' := by
  rcases h with ⟨mid, q, c, state, hr, -, ha, hexec, rfl⟩
  exact hr.beside.trans ((loose_iff.mp hop).beside ha hexec)

/-- The shot of the operation comes on top of what the window showed before. -/
theorem Took.shows {op : Op} {r : op.Ret} {s' : Reel} (hop : loose op = true)
    (h : Took p op s r s') (hs : Custody s) {shots : List (Shot Root Op Op.Ret)}
    (hshows : s.Shows p shots) : ∃ mid : Reel, Custody mid ∧ Fresh mid.state ∧
      s'.Shows p (⟨p, op, r, mid.state⟩ :: shots) ∧
      (∃ q c state, exec p q c op mid.state = some (state, r)) ∧
      ∀ g, (s.state.fibers g).Onward (mid.state.fibers g) ∧
        (mid.state.fibers g).Onward (s'.state.fibers g) := by
  rcases h with ⟨mid, q, c, state, hr, hmid, ha, hexec, rfl⟩
  have hloose := loose_iff.mp hop
  refine ⟨mid, hmid, ha.fresh, ((hr.beside.later hs).shows hshows).shoot (hmid.begun p),
    ⟨q, c, state, hexec⟩, fun g => ⟨hr.beside.onward g, ?_⟩⟩
  exact onward_shoot ha hloose.plain (publishes_of_outside hloose.slot) hexec g

theorem clean_op {op : Op} (h : loose op = true) : Clean p (perform op) := by
  intro s hs
  exact custody.wp_mono hs (wp_took h) fun r s' _ htook => htook.beside h

theorem Beside.begin {F : FiberId → Prop} {s s' : Reel} (h : Beside p F s s') {q : Party}
    (hq : q ≠ p) : Beside p F s (s'.begin q) :=
  ⟨h.nextFiber, (if_neg (Ne.symm hq)).trans h.begun, h.declared, h.holds, h.view, h.pending,
    h.onward, h.film⟩

/-- A task that starts without a slot. -/
theorem clean_fork {routine : Routine} (hhandles : handles (.fork routine) = none)
    (hpre : ∀ q s, slotPre routine q s.state → custody.pre routine q s) :
    Clean p (perform (.fork routine)) := by
  intro s _
  refine wp_fork fun s' hr _ => ⟨cleared_of_outside rfl hhandles rfl rfl rfl, ?_⟩
  intro q c state r ha hq hexec hslot
  refine ⟨hpre q _ hslot, Beside.begin (hr.beside.trans ?_) hq⟩
  refine beside_of_exec ha hexec rfl nofun (fun g hg => nomatch hg) (fun g hg => ?_)
    (fun g hg => nomatch hg) rfl
  exact absurd (hhandles.symm.trans hg) nofun

/-! ## Code under a slot -/

/-- The party still holds the slot, keeps its others and started no apply. -/
structure Within (p : Party) (f : FiberId) (s s' : Reel) : Prop where
  beside : Beside p (fun g => g = f) s s'
  holds : Holds p s' f
  unapplied : Unapplied f s s'

namespace Within

variable {s s' s'' : Reel}

theorem refl (h : Holds p s f) : Within p f s s :=
  ⟨Beside.refl _ _ _, h, Unapplied.refl _ _⟩

theorem trans (h : Within p f s s') (h' : Within p f s' s'') : Within p f s s'' :=
  ⟨h.beside.trans h'.beside, h'.holds, h.unapplied.trans h'.unapplied⟩

theorem of_beside (h : Beside p (fun _ => False) s s') (hp : Holds p s f) : Within p f s s' :=
  ⟨h.mono fun _ hF => hF.elim, (h.holds f id).mpr hp, h.unapplied id hp⟩

theorem of_waits (h : Waits p s s') (hp : Holds p s f) : Within p f s s' :=
  of_beside h.beside hp

end Within

/-- The operations that a holder performs between its claim and its release. -/
def FiberOp.inside : FiberOp → Bool
  | .tryClaim | .release | .abandon | .startApply _ | .store .creationPending false
  | .store .creationOwned true | .store .disposeComplete true => false
  | op => !op.tampers

theorem inside_plain {op : FiberOp} (h : op.inside = true) : op.tampers = false := by
  cases op <;> first | rfl | cases h | skip
  case store flag value => cases flag <;> cases value <;> first | rfl | cases h
  case swapGated flag => cases flag <;> first | rfl | cases h

theorem inside_handles {op : FiberOp} (h : op.inside = true) : handles (.on f op) = none := by
  cases op <;> first | rfl | cases h

theorem inside_marks {op : FiberOp} (h : op.inside = true) :
    unseals (.on f op) = none ∧ owns (.on f op) = none := by
  cases op <;> first | exact ⟨rfl, rfl⟩ | cases h | skip
  case store flag value => cases flag <;> cases value <;> first | exact ⟨rfl, rfl⟩ | cases h

/-- An operation of the holder: what it does to the view, what it tells about it, and its shot. -/
theorem wp_inside {op : FiberOp} (hinside : op.inside = true) (hp : Holds p s f)
    (hpublish : ∀ next, op = .publish next → (view s f).Publishes next) :
    custody.wp p (on f op) (fun r s' => Within p f s s' ∧ view s' f = op.onView (view s f) ∧
      op.tells r (view s f) ∧ Lately (Sees p f op (view s f)) s s') s := by
  refine wp_op rfl fun s' hr _ => ?_
  have hp' : Holds p s' f := (hr.beside.holds f id).mpr hp
  have hview : view s' f = view s f := hr.beside.view f id hp
  have htampers : op.tampers = false := inside_plain hinside
  have hpublishes : ∀ g next, Op.on f op = .on g (.publish next) →
      (view s' g).Publishes next := by
    intro g next hop
    cases hop
    rw [hview]
    exact hpublish next rfl
  refine ⟨⟨htampers, fun g hop => ?_, hpublishes, fun g hop => ?_, fun g target hop => ?_, by simp,
    fun g hop => ?_⟩, ?_⟩
  · rcases hop with hop | hop <;> cases hop <;> cases hinside
  · cases hop
    cases hinside
  · cases hop
    cases hinside
  · cases hop
    cases hinside
  intro q c state r ha hexec
  have heffect := FiberOp.exec_view htampers (exec_on hexec)
  -- an operation on `f` needs the slot of `f` alone
  have hunder : ∀ g, underSlot (.on f op) = some g → g = f := by
    intro g hg
    simp only [underSlot, Option.ite_none_right_eq_some, Option.some.injEq] at hg
    exact hg.2.symm
  have hhandles : handles (.on f op) = none := inside_handles hinside
  have hbeside := beside_of_exec ha hexec htampers hpublishes (F := fun g => g = f) hunder
    (fun g hg => absurd (hhandles.symm.trans hg) (by simp))
    (fun g hg => absurd ((inside_marks hinside).1.symm.trans hg) (by simp)) (inside_marks hinside).2
  have hnone : applied f ⟨p, .on f op, r, s'.state⟩ = none := by
    unfold applied
    split
    · rename_i g target hop
      cases hop
      cases hinside
    · rfl
  have hborn := lt_of_holds hp'
  have hheld : Holds p (s'.shoot p (.on f op) r state) f := by
    have hsame := exec_holders ha.fresh hexec (f := f) (by rw [hhandles]; simp)
    refine (holds_iff (Nat.lt_of_lt_of_le hborn (exec_nextFiber_le hexec))).mpr ?_
    show p ∈ (state.fibers f).trace.holders
    rw [hsame]
    exact (holds_iff hborn).mp hp'
  have hunapplied : Unapplied f s' (s'.shoot p (.on f op) r state) := by
    refine unapplied_shoot hexec hborn hnone fun hop => ?_
    cases hop
    cases hinside
  -- the shot itself is the instant that the caller is told about
  have hsees : Lately (Sees p f op (view s f)) s' (s'.shoot p (.on f op) r state) :=
    ⟨[_], rfl, _, List.mem_singleton_self _, ⟨rfl, rfl⟩, (holds_iff hborn).mp hp', hview⟩
  exact ⟨(Within.of_waits hr hp).trans ⟨hbeside, hheld, hunapplied⟩,
    heffect.1.trans (congrArg _ hview), hview ▸ heffect.2 (busy_of_holds ha.slots hp'),
    hsees.after hr.beside.grows⟩

/-- Under the slot the code takes views in `P` to views in `Q`. -/
def Under (p : Party) (f : FiberId) (x : Prog α) (P : View → Prop) (Q : α → View → Prop) : Prop :=
  ∀ s, Custody s → Holds p s f → P (view s f) →
    custody.wp p x (fun a s' => Within p f s s' ∧ Q a (view s' f)) s

namespace Under

variable {P : View → Prop} {Q : α → View → Prop}

theorem pure {a : α} (h : ∀ v, P v → Q a v) : Under p f (Pure.pure a : Prog α) P Q :=
  fun _ _ hp hP => ⟨Within.refl hp, h _ hP⟩

theorem mono {x : Prog α} {R : View → Prop} {Q' : α → View → Prop} (h : Under p f x P Q)
    (hP : ∀ v, R v → P v) (hQ : ∀ a v, Q a v → Q' a v) : Under p f x R Q' := by
  intro s hs hp hR
  refine custody.wp_mono hs (h s hs hp (hP _ hR)) fun a s' _ hw => ?_
  exact ⟨hw.1, hQ a _ hw.2⟩

theorem bind {x : Prog α} {y : α → Prog β} {R : β → View → Prop} (hx : Under p f x P Q)
    (hy : ∀ a, Under p f (y a) (Q a) R) : Under p f (x >>= y) P R := by
  intro s hs hp hP
  refine custody.wp_seq hs (hx s hs hp hP) fun a s' hs' hw => ?_
  refine custody.wp_mono hs' (hy a s' hs' hw.1.holds hw.2) fun b s'' _ hw' => ?_
  exact ⟨hw.1.trans hw'.1, hw'.2⟩

/-- Code beside the slot changes nothing under it. -/
theorem clean {x : Prog α} (h : Clean p x) : Under p f x P fun _ v => P v := by
  intro s hs hp hP
  refine custody.wp_mono hs (h s hs) fun a s' _ hb => ?_
  exact ⟨Within.of_beside hb hp, (hb.view f id hp).symm ▸ hP⟩

/-- An operation on the Fiber: what it does to the view, and what it tells about it. -/
theorem on {op : FiberOp} {Q : op.Ret → View → Prop} (hinside : op.inside = true)
    (hpublish : ∀ next, op = .publish next → ∀ v, P v → v.Publishes next)
    (h : ∀ v r, P v → op.tells r v → Q r (op.onView v)) : Under p f (Runtime.on f op) P Q := by
  intro s hs hp hP
  refine custody.wp_mono hs (wp_inside hinside hp fun next hop => hpublish next hop _ hP) ?_
  rintro r s' _ ⟨hw, hview, htells, -⟩
  exact ⟨hw, hview ▸ h _ _ hP htells⟩

end Under

/-! ## Claims and releases -/

/-- The party holds the slot now and finds it at rest. -/
structure Claimed (p : Party) (f : FiberId) (s s' : Reel) : Prop where
  unheld : ¬ Holds p s f
  beside : Beside p (fun g => g = f) s s'
  holds : Holds p s' f
  rest : Rest f s'

/-- The slot is out of the party's hands. -/
structure Gone (p : Party) (f : FiberId) (s s' : Reel) : Prop where
  beside : Beside p (fun g => g = f) s s'
  unheld : ¬ Holds p s' f

/-- The slot was released with this view. -/
structure Vacated (p : Party) (f : FiberId) (v : View) (s s' : Reel) : Prop where
  gone : Gone p f s s'
  hand : Lately (Hand p f v) s s'

theorem Gone.after {s s' s'' : Reel} (h : Gone p f s' s'')
    (hb : Beside p (fun g => g = f) s s') : Gone p f s s'' :=
  ⟨hb.trans h.beside, h.unheld⟩

theorem Vacated.after {v : View} {s s' s'' : Reel} (h : Vacated p f v s' s'')
    (hb : Beside p (fun g => g = f) s s') : Vacated p f v s s'' :=
  ⟨h.gone.after hb, h.hand.after hb.grows⟩

theorem Gone.before {s s' s'' : Reel} (h : Gone p f s s')
    (hb : Beside p (fun _ => False) s' s'') : Gone p f s s'' :=
  ⟨h.beside.trans (hb.mono fun _ hF => hF.elim), fun hheld => h.unheld ((hb.holds f id).mp hheld)⟩

/-- A slot that the party did not hold before either is no change. -/
theorem Gone.restored {s s' : Reel} (h : Gone p f s s') (hp : ¬ Holds p s f) :
    Beside p (fun _ => False) s s' := by
  rcases h.beside.film with ⟨later, hfilm, hlater⟩
  refine {
    nextFiber := h.beside.nextFiber
    begun := h.beside.begun
    declared := h.beside.declared
    holds := fun g _ => ?holds
    view := fun g _ hg => ?view
    pending := fun g _ hg => ?pending
    onward := h.beside.onward
    film := ⟨later, hfilm, fun shot hshot g => ⟨fun _ hg => ?film, (hlater shot hshot g).2⟩⟩ }
  case holds =>
    by_cases hgf : g = f
    · subst hgf
      exact ⟨fun hheld => absurd hheld h.unheld, fun hheld => absurd hheld hp⟩
    · exact h.beside.holds g hgf
  case view =>
    have hgf : g ≠ f := fun heq => hp (heq ▸ hg)
    exact h.beside.view g hgf hg
  case pending =>
    have hgf : g ≠ f := fun heq => hp (heq ▸ hg)
    exact h.beside.pending g hgf hg
  case film =>
    have hgf : g ≠ f := fun heq => hp (heq ▸ hg)
    exact (hlater shot hshot g).1 hgf hg

theorem Claimed.restored {s s' s'' : Reel} (h : Claimed p f s s') (hg : Gone p f s' s'') :
    Beside p (fun _ => False) s s'' :=
  (hg.after h.beside).restored h.unheld

theorem Rest.beside {s s' : Reel} (h : Rest f s) (hb : Beside p (fun _ => False) s s')
    (hp : Holds p s f) : Rest f s' :=
  h.kept (hb.unapplied id hp) (hb.view f id hp)

theorem not_holds_of_erase {state : Root} {x : Fiber} (hs : SlotInv s.state)
    (hp : Holds p s f) (hx : x.trace.holders = (s.state.fibers f).trace.holders.erase p)
    (hf : state.fibers f = x) : p ∉ (state.fibers f).trace.holders := by
  have hborn := lt_of_holds hp
  have heq := (hs.slot f hborn).holders_eq ((holds_iff hborn).mp hp)
  rw [hf, hx, heq]
  simp

namespace Custody

theorem wp_tryClaim : custody.wp p (on f .tryClaim) (fun won s' =>
    if won then Claimed p f s s' else Beside p (fun _ => False) s s') s := by
  refine wp_op rfl fun s' hr hs' => ⟨⟨rfl, ?_, by simp, by simp, by simp, by simp, by simp⟩, ?_⟩
  · intro g hop
    rcases hop with hop | hop <;> cases hop
  intro q c state won ha hexec
  have hstep := exec_on hexec
  have hspawned := ha.entitled.claim f rfl
  simp only [FiberOp.exec] at hstep
  by_cases hidle : (s'.state.fibers f).inertia = .idle
  · rw [if_pos hidle] at hstep
    simp only [Option.some.injEq, Prod.mk.injEq] at hstep
    rcases hstep with ⟨hfiber, rfl⟩
    have hborn := hspawned.2
    have hunheld : ¬ Holds p s' f := fun hheld => busy_of_holds ha.slots hheld hidle
    have hbeside : Beside p (fun g => g = f) s' (s'.shoot p (.on f .tryClaim) true state) :=
      beside_of_exec ha hexec rfl (by simp) (by rintro _ ⟨⟩)
        (fun g hg => (Option.some.inj hg).symm) (by rintro _ ⟨⟩) rfl
    have hunapplied : Unapplied f s' (s'.shoot p (.on f .tryClaim) true state) :=
      unapplied_shoot hexec hborn rfl (by simp)
    refine ⟨fun hheld => hunheld ((hr.beside.holds f id).mpr hheld),
      (hr.beside.mono fun _ hF => hF.elim).trans hbeside, ?_,
      (hs'.rest f hspawned hidle).kept hunapplied ?_⟩
    · refine (holds_iff (Nat.lt_of_lt_of_le hspawned.2 (exec_nextFiber_le hexec))).mpr ?_
      show p ∈ (state.fibers f).trace.holders
      rw [← hfiber]
      exact List.mem_cons_self
    · show (state.fibers f).view = _
      rw [← hfiber]
      rfl
  · rw [if_neg hidle] at hstep
    simp only [Option.some.injEq, Prod.mk.injEq] at hstep
    rcases hstep with ⟨hfiber, rfl⟩
    have hsame : (state.fibers f).trace.holders = (s'.state.fibers f).trace.holders := by
      rw [← hfiber]
    refine hr.beside.trans (beside_shoot hexec rfl
      (onward_shoot ha rfl (by simp) hexec) (by rintro _ ⟨⟩) (by rintro _ ⟨⟩) (by rintro _ ⟨⟩) fun g _ => ?_)
    by_cases hgf : g = f
    · subst hgf
      have hborn := Nat.lt_of_lt_of_le hspawned.2 (exec_nextFiber_le hexec)
      rw [holds_iff hspawned.2]
      refine (holds_iff (s := s'.shoot p (.on g .tryClaim) false state) hborn).trans ?_
      show p ∈ (state.fibers g).trace.holders ↔ _
      rw [hsame]
    · have hother : handles (.on f .tryClaim) ≠ some g := fun heq =>
        hgf (Option.some.inj heq).symm
      exact holds_shoot ha hexec hother

/-- Giving the slot up in order, and what the Fiber is left with. -/
theorem wp_abandoned (hp : Holds p s f) (hrest : Rest f s) :
    custody.wp p (on f .abandon) (fun _ s' =>
      Gone p f s s' ∧ Lately (Sees p f .abandon (view s f)) s s') s := by
  refine wp_op rfl fun s' hr _ => ⟨⟨rfl, ?_, by simp, by simp, by simp, by simp, by simp⟩, ?_⟩
  · intro g hop
    rcases hop with hop | hop <;> cases hop
    exact hrest.beside hr.beside hp
  intro q c state r ha hexec
  have hstep := exec_on hexec
  simp only [FiberOp.exec, Option.some.injEq, Prod.mk.injEq] at hstep
  have hp' : Holds p s' f := (hr.beside.holds f id).mpr hp
  have hbeside : Beside p (fun g => g = f) s' (s'.shoot p (.on f .abandon) r state) :=
    beside_of_exec ha hexec rfl (by simp) (fun g hg => (Option.some.inj hg).symm)
      (fun g hg => (Option.some.inj hg).symm) (by rintro _ ⟨⟩) rfl
  have hseen : Lately (Sees p f .abandon (view s f)) s' (s'.shoot p (.on f .abandon) r state) :=
    ⟨[_], rfl, _, List.mem_singleton_self _, ⟨rfl, rfl⟩, (holds_iff (lt_of_holds hp')).mp hp',
      hr.beside.view f id hp⟩
  refine ⟨⟨(hr.beside.mono fun _ hF => hF.elim).trans hbeside, fun hheld => ?_⟩,
    hseen.after hr.beside.grows⟩
  have hmem := (holds_iff (lt_of_holds hheld)).mp hheld
  exact not_holds_of_erase ha.slots hp' rfl hstep.1.symm hmem

theorem wp_abandon (hs : Custody s) (hp : Holds p s f) (hrest : Rest f s) :
    custody.wp p (on f .abandon) (fun _ s' => Gone p f s s') s :=
  custody.wp_mono hs (wp_abandoned hp hrest) fun _ _ _ h => h.1

/-- The release CAS succeeds, unless a kick took the slot back for its holder. -/
theorem wp_release (hp : Holds p s f) (hrest : Rest f s) :
    custody.wp p (on f .release) (fun word s' =>
      match word with
      | .releasing => Vacated p f (view s f) s s'
      | .active => Within p f s s' ∧ view s' f = view s f
      | .idle => False) s := by
  refine wp_op rfl fun s' hr _ => ?_
  have hrest' : Rest f s' := hrest.beside hr.beside hp
  refine ⟨⟨rfl, ?_, by simp, by simp, by simp, by simp, by simp⟩, ?_⟩
  · intro g hop
    rcases hop with hop | hop <;> cases hop
    exact hrest'
  intro q c state word ha hexec
  have hstep := exec_on hexec
  have hp' : Holds p s' f := (hr.beside.holds f id).mpr hp
  have hview : (state.fibers f).view = view s' f := (FiberOp.exec_view rfl hstep).1
  have hbeside : Beside p (fun g => g = f) s' (s'.shoot p (.on f .release) word state) :=
    beside_of_exec ha hexec rfl (by simp) (fun g hg => (Option.some.inj hg).symm)
      (fun g hg => (Option.some.inj hg).symm) (by rintro _ ⟨⟩) rfl
  have hlong := (hr.beside.mono fun _ hF => hF.elim).trans hbeside
  simp only [FiberOp.exec] at hstep
  split at hstep <;> simp only [Option.some.injEq, Prod.mk.injEq] at hstep
  · rename_i hword
    rcases hstep with ⟨hfiber, rfl⟩
    refine ⟨⟨hlong, fun hheld => ?_⟩, ?_⟩
    · have hmem := (holds_iff (lt_of_holds hheld)).mp hheld
      exact not_holds_of_erase ha.slots hp' rfl hfiber.symm hmem
    · have hhand : Lately (Hand p f (view s f)) s' (s'.shoot p (.on f .release) .releasing state) :=
        ⟨[_], rfl, _, List.mem_singleton_self _, ⟨⟨rfl, rfl⟩,
          (holds_iff (lt_of_holds hp')).mp hp', hr.beside.view f id hp⟩, hword⟩
      exact hhand.after hr.beside.grows
  · rename_i hword
    have hborn := lt_of_holds hp'
    have hunapplied : Unapplied f s' (s'.shoot p (.on f .release) word state) :=
      unapplied_shoot hexec hborn rfl (by simp)
    have hbusy := busy_of_holds ha.slots hp'
    rcases hstep with ⟨hfiber, hanswer⟩
    cases word with
    | idle => exact absurd hanswer hbusy
    | releasing => exact absurd hanswer hword
    | active =>
        refine ⟨(Within.of_waits hr hp).trans ⟨hbeside, ?_, hunapplied⟩,
          hview.trans (hr.beside.view f id hp)⟩
        · refine (holds_iff (Nat.lt_of_lt_of_le hborn (exec_nextFiber_le hexec))).mpr ?_
          show p ∈ (state.fibers f).trace.holders
          rw [← hfiber]
          exact (holds_iff hborn).mp hp'

/-- The apply that starts is not a repetition. -/
theorem wp_startApply {target : SemanticTarget} (hp : Holds p s f) (he : Excused f s)
    (howned : Owned f s.film) (hpresent : target.hasMissing = false)
    (hloading : (view s f).state = .loading) (halive : (view s f).alive = true) :
    custody.wp p (on f (.startApply target)) (fun _ s' =>
      Beside p (fun g => g = f) s s' ∧ Holds p s' f ∧ view s' f = view s f ∧
        lastApply f s'.film = some target) s := by
  refine wp_op rfl fun s' hr _ => ?_
  have he' : Excused f s' := (hr.beside.unapplied id hp).excused he
  refine ⟨⟨rfl, ?_, nofun, nofun, ?_, nofun, nofun⟩, ?_⟩
  · intro g hop
    rcases hop with hop | hop <;> cases hop
  · intro g target' hop
    cases hop
    have hview : view s' f = view s f := hr.beside.view f id hp
    exact ⟨he', hr.beside.owned howned, hpresent, (congrArg View.state hview).trans hloading,
      (congrArg View.alive hview).trans halive⟩
  intro q c state r ha hexec
  have hp' : Holds p s' f := (hr.beside.holds f id).mpr hp
  have hborn := lt_of_holds hp'
  have hbeside : Beside p (fun g => g = f) s'
      (s'.shoot p (.on f (.startApply target)) r state) :=
    beside_of_exec ha hexec rfl nofun (fun g hg => (Option.some.inj hg).symm)
      (fun g hg => nomatch hg) (fun g hg => nomatch hg) rfl
  refine ⟨(hr.beside.mono fun _ hF => hF.elim).trans hbeside, ?_, ?_, ?_⟩
  · refine (holds_iff (Nat.lt_of_lt_of_le hborn (exec_nextFiber_le hexec))).mpr ?_
    show p ∈ (state.fibers f).trace.holders
    rw [exec_holders ha.fresh hexec (f := f) nofun]
    exact (holds_iff hborn).mp hp'
  · exact (FiberOp.exec_view rfl (exec_on hexec)).1.trans (hr.beside.view f id hp)
  · have hshot : applied f ⟨p, .on f (.startApply target), r, s'.state⟩ = some target := if_pos rfl
    show List.findSome? (applied f) (_ :: s'.film) = some target
    rw [List.findSome?_cons, hshot]

/-- The drifted Fiber goes to a convergence task. -/
theorem wp_forkConvergence (hp : Holds p s f) (hd : Drifted f s) :
    custody.wp p (perform (.fork (.convergence f))) (fun _ s' => Gone p f s s') s := by
  refine wp_fork fun s' hr _ => ?_
  have hd' : Drifted f s' := hd.kept (hr.beside.unapplied id hp) (hr.beside.view f id hp)
  refine ⟨⟨rfl, ?_, nofun, nofun, nofun, ?_, nofun⟩, ?_⟩
  · intro g hop
    rcases hop with hop | hop <;> cases hop
  · intro g hop
    cases hop
    exact hd'
  intro q c state r ha hq hexec hpre
  have hp' : Holds p s' f := (hr.beside.holds f id).mpr hp
  have hborn := lt_of_holds hp'
  have hbeside : Beside p (fun g => g = f) s'
      (s'.shoot p (.fork (.convergence f)) r state) :=
    beside_of_exec ha hexec rfl nofun (fun g hg => nomatch hg)
        (fun g hg => (Option.some.inj hg).symm) (fun g hg => nomatch hg) rfl
  have hheld : Holds q ((s'.shoot p (.fork (.convergence f)) r state).begin q) f :=
    hpre.2.2.holds
  have hunapplied : Unapplied f s' (s'.shoot p (.fork (.convergence f)) r state) :=
    unapplied_shoot hexec hborn rfl nofun
  simp only [exec, Option.some.injEq, Prod.mk.injEq] at hexec
  have hview : (state.fibers f).view = view s' f := by
    rw [← hexec.1, Root.fibers_put]
    rfl
  refine ⟨⟨hheld, (hd'.kept hunapplied hview).begin q⟩,
    ((hr.beside.mono fun _ hF => hF.elim).trans hbeside).begin hq, fun hself => ?_⟩
  have hmem := (holds_iff (lt_of_holds hself)).mp hself
  change p ∈ (state.fibers f).trace.holders at hmem
  rw [← hexec.1, Root.fibers_put] at hmem
  have heq := (ha.slots.slot f hborn).holders_eq ((holds_iff hborn).mp hp')
  simp [Fiber.hold, Fiber.unhold, Fiber.track, heq] at hmem
  exact hq hmem.symm

end Custody

end Runtime
end CordisCore
