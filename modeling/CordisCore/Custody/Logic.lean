import CordisCore.Custody.Promises
import CordisCore.Interleaving.Logic

/-!
# Custody logic — a slot is given away in order, and nobody applies twice for nothing
-/

namespace CordisCore
namespace Runtime

open Interleaving

/-! ## What a free slot promises -/

/-- The recorded target is the applied one, unless another apply is due anyway. -/
def Tied (f : FiberId) (s : Reel) : Prop :=
  Excused f s ∨ (view s f).alive = false ∨ (view s f).target = lastApply f s.film

/-- The creation is pending. -/
def Pending (f : FiberId) (s : Reel) : Prop :=
  (s.state.fibers f).flags .creationPending = true

/-- Nothing is applied before the initial pass of the creator. -/
structure Sealed (f : FiberId) (s : Reel) : Prop where
  pending : Pending f s
  unapplied : (view s f).applied = false
  never : lastApply f s.film = none

/-- The initial pass won the slot, or nothing was applied. -/
def Opened (f : FiberId) (s : Reel) : Prop :=
  Owned f s.film ∨ Sealed f s

/-- Whoever takes the slot next finds it so. -/
structure Rest (f : FiberId) (s : Reel) : Prop where
  settled : Settled (view s f)
  tied : Tied f s
  opened : (view s f).alive = true → Opened f s

/-- Whoever is handed a drifted Fiber finds it so. -/
structure Drifted (f : FiberId) (s : Reel) : Prop where
  settled : Settled (view s f)
  recorded : (view s f).target.isSome = true
  excused : Excused f s ∨ (view s f).alive = false
  opened : (view s f).alive = true → Opened f s

structure Custody (s : Reel) : Prop where
  rest : ∀ f, Spawned s.state f → (s.state.fibers f).inertia = .idle → Rest f s
  dead : ∀ f < s.state.nextFiber, (view s f).state = .disposed → (view s f).alive = false
  complete : ∀ f, Complete f s.state → (view s f).state = .disposed
  root : (view s 0).state = .active
  begun : ∀ p, s.begun p ≤ s.film.length
  flows : Flows s.film s.state
  applies : Applies s.film
  unborn : ∀ f, s.state.nextFiber ≤ f → lastApply f s.film = none ∧ ¬ Owned f s.film

/-! ## What a party keeps -/

/-- The party holds the slot. -/
def Holds (p : Party) (s : Reel) (f : FiberId) : Prop :=
  (part p s.state f).holds

/-- The party is the creator of the Fiber. -/
def Creates (p : Party) (s : Reel) (f : FiberId) : Prop :=
  (part p s.state f).creates

/-- What a party must make sure of before it performs an operation. -/
structure Cleared (p : Party) (op : Op) (s : Reel) : Prop where
  plain : tampers op = false
  rest : ∀ f, op = .on f .release ∨ op = .on f .abandon → Rest f s
  publish : ∀ f next, op = .on f (.publish next) → (view s f).Publishes next
  complete : ∀ f, op = .on f (.store .disposeComplete true) → (view s f).state = .disposed
  due : ∀ f target, op = .on f (.startApply target) → Due f target s.state s.film
  drifted : ∀ f, op = .fork (.convergence f) → Drifted f s
  unseals : ∀ f, op = .on f (.store .creationPending false) → Owned f s.film ∨ Holds p s f

/-- What a party keeps of all fibers but those in `F`. -/
structure Beside (p : Party) (F : FiberId → Prop) (s s' : Reel) : Prop where
  nextFiber : s.state.nextFiber ≤ s'.state.nextFiber
  begun : s'.begun p = s.begun p
  declared : ∀ f < s.state.nextFiber,
    (s'.state.fibers f).edges = (s.state.fibers f).edges ∧
      (s'.state.fibers f).trace.creator = (s.state.fibers f).trace.creator
  holds : ∀ f, ¬ F f → (Holds p s' f ↔ Holds p s f)
  view : ∀ f, ¬ F f → Holds p s f → view s' f = view s f
  pending : ∀ f, ¬ F f → Holds p s f → Pending f s → Owned f s'.film ∨ Pending f s'
  onward : ∀ f, (s.state.fibers f).Onward (s'.state.fibers f)
  film : ∃ later, s'.film = later ++ s.film ∧ ∀ shot ∈ later, ∀ f,
    (¬ F f → Holds p s f → underSlot shot.op ≠ some f) ∧
      (Creates p s f → shot.op ≠ .on f (.store .creationOwned true))

/-- What the steps of the others leave a party. -/
structure Waits (p : Party) (s s' : Reel) : Prop where
  beside : Beside p (fun _ => False) s s'
  keeps : Keeps p s.state s'.state

namespace Beside

variable {p : Party} {F G : FiberId → Prop} {s s' s'' : Reel} {f : FiberId}

theorem refl (p : Party) (F : FiberId → Prop) (s : Reel) : Beside p F s s :=
  ⟨Nat.le_refl _, rfl, fun _ _ => ⟨rfl, rfl⟩, fun _ _ => Iff.rfl, fun _ _ _ => rfl,
    fun _ _ _ h => .inr h, fun _ => .refl _, [], rfl, fun _ h => nomatch h⟩

theorem owned (h : Beside p F s s') (ho : Owned f s.film) : Owned f s'.film := by
  rcases h.film with ⟨later, hfilm, -⟩
  rw [hfilm]
  exact ho.append later

theorem creates (h : Beside p F s s') (hf : Creates p s f) : Creates p s' f := by
  have hlt : f < s.state.nextFiber := by
    by_contra hlt
    simp [Creates, part, hlt] at hf
  have hlt' := Nat.lt_of_lt_of_le hlt h.nextFiber
  simp only [Creates, part, if_pos hlt] at hf
  simp only [Creates, part, if_pos hlt']
  exact (h.declared f hlt).2.trans hf

theorem trans (h : Beside p F s s') (h' : Beside p F s' s'') : Beside p F s s'' := by
  rcases h.film with ⟨later, hfilm, hlater⟩
  rcases h'.film with ⟨latest, hfilm', hlatest⟩
  refine {
    nextFiber := Nat.le_trans h.nextFiber h'.nextFiber
    begun := h'.begun.trans h.begun
    declared := fun f hf => ?declared
    holds := fun f hf => (h'.holds f hf).trans (h.holds f hf)
    view := fun f hf hp => ?view
    pending := fun f hf hp hpending => ?pending
    onward := fun f => (h.onward f).trans (h'.onward f)
    film := ⟨latest ++ later, ?_, ?_⟩ }
  case declared =>
    have hdeclared := h.declared f hf
    have hdeclared' := h'.declared f (Nat.lt_of_lt_of_le hf h.nextFiber)
    exact ⟨hdeclared'.1.trans hdeclared.1, hdeclared'.2.trans hdeclared.2⟩
  case view => exact (h'.view f hf ((h.holds f hf).mpr hp)).trans (h.view f hf hp)
  case pending =>
    rcases h.pending f hf hp hpending with howned | hpending'
    · exact .inl (h'.owned howned)
    · exact h'.pending f hf ((h.holds f hf).mpr hp) hpending'
  · rw [hfilm', hfilm, List.append_assoc]
  · intro shot hshot f
    rcases List.mem_append.mp hshot with hnew | hold
    · have hnew := hlatest shot hnew f
      exact ⟨fun hf hp => hnew.1 hf ((h.holds f hf).mpr hp), fun hc => hnew.2 (h.creates hc)⟩
    · exact hlater shot hold f

theorem mono (h : Beside p F s s') (hFG : ∀ f, F f → G f) : Beside p G s s' := by
  rcases h.film with ⟨later, hfilm, hlater⟩
  exact ⟨h.nextFiber, h.begun, h.declared, fun f hf => h.holds f fun hF => hf (hFG f hF),
    fun f hf => h.view f fun hF => hf (hFG f hF), fun f hf => h.pending f fun hF => hf (hFG f hF),
    h.onward, later, hfilm, fun shot hshot f => ⟨fun hf => (hlater shot hshot f).1 fun hF => hf (hFG f hF),
      (hlater shot hshot f).2⟩⟩

/-- Nobody but the creator marks the slot as its own. -/
theorem unowned (h : Beside p F s s') (hc : Creates p s f)
    (ho : ¬ Owned f s.film) : ¬ Owned f s'.film := by
  rcases h.film with ⟨later, hfilm, hlater⟩
  rintro ⟨shot, hshot, hop⟩
  rw [hfilm] at hshot
  rcases List.mem_append.mp hshot with hnew | hold
  · exact (hlater shot hnew f).2 hc hop
  · exact ho ⟨shot, hold, hop⟩

theorem grows (h : Beside p F s s') : ∃ newer, s'.film = newer ++ s.film := by
  rcases h.film with ⟨newer, hfilm, -⟩
  exact ⟨newer, hfilm⟩

theorem later (h : Beside p F s s') (hs : Custody s) : Later p s s' :=
  ⟨h.grows, h.begun, hs.begun p, h.onward⟩

end Beside

namespace Waits

variable {p : Party} {s s' s'' : Reel}

theorem refl (p : Party) (s : Reel) : Waits p s s :=
  ⟨Beside.refl _ _ _, Keeps.refl _ _⟩

theorem trans (h : Waits p s s') (h' : Waits p s' s'') : Waits p s s'' :=
  ⟨h.beside.trans h'.beside, h.keeps.trans h'.keeps⟩

end Waits

/-! ## Films in which no apply of the Fiber starts -/

/-- Meanwhile no apply of the Fiber started, and a pending creation stayed pending. -/
structure Unapplied (f : FiberId) (s s' : Reel) : Prop where
  film : ∃ later, s'.film = later ++ s.film ∧ ∀ shot ∈ later, applied f shot = none
  pending : Pending f s → Owned f s'.film ∨ Pending f s'

namespace Unapplied

variable {f : FiberId} {s s' s'' : Reel}

theorem refl (f : FiberId) (s : Reel) : Unapplied f s s :=
  ⟨⟨[], rfl, fun _ h => nomatch h⟩, .inr⟩

theorem owned (h : Unapplied f s s') (ho : Owned f s.film) : Owned f s'.film := by
  rcases h.film with ⟨later, hfilm, -⟩
  rw [hfilm]
  exact ho.append later

theorem trans (h : Unapplied f s s') (h' : Unapplied f s' s'') : Unapplied f s s'' := by
  rcases h.film with ⟨later, hfilm, hlater⟩
  rcases h'.film with ⟨latest, hfilm', hlatest⟩
  refine ⟨⟨latest ++ later, by rw [hfilm', hfilm, List.append_assoc], fun shot hshot => ?_⟩,
    fun hpending => ?_⟩
  · rcases List.mem_append.mp hshot with hnew | hold
    · exact hlatest shot hnew
    · exact hlater shot hold
  · rcases h.pending hpending with howned | hpending'
    · exact .inl (h'.owned howned)
    · exact h'.pending hpending'

theorem lastApply (h : Unapplied f s s') :
    Runtime.lastApply f s'.film = Runtime.lastApply f s.film := by
  rcases h.film with ⟨later, hfilm, hlater⟩
  rw [hfilm, lastApply_append hlater]

theorem caused (h : Unapplied f s s') (hc : Caused f s.film) : Caused f s'.film := by
  rcases h.film with ⟨later, hfilm, hlater⟩
  rw [hfilm]
  exact caused_append hlater hc

theorem excused (h : Unapplied f s s') (he : Excused f s) : Excused f s' :=
  he.imp (fun hnone => h.lastApply.trans hnone) h.caused

theorem opened (h : Unapplied f s s') (happlied : (view s' f).applied = (view s f).applied)
    (ho : Opened f s) : Opened f s' := by
  rcases ho with howned | hsealed
  · exact .inl (h.owned howned)
  · rcases h.pending hsealed.pending with howned | hpending
    · exact .inl howned
    · exact .inr ⟨hpending, happlied.trans hsealed.unapplied, h.lastApply.trans hsealed.never⟩

end Unapplied

theorem underSlot_of_applied {f : FiberId} {shot : Shot Root Op Op.Ret} {target : SemanticTarget}
    (h : applied f shot = some target) : underSlot shot.op = some f := by
  unfold applied at h
  split at h
  · rename_i g _ hop
    rw [hop]
    split at h
    · rename_i hg
      exact hg ▸ rfl
    · cases h
  · cases h

theorem startApply_of_applied {f : FiberId} {shot : Shot Root Op Op.Ret}
    {target : SemanticTarget} (h : applied f shot = some target) :
    shot.op = .on f (.startApply target) := by
  unfold applied at h
  split at h
  · rename_i g other hop
    split at h
    · rename_i hg
      rw [hop, hg, Option.some.inj h]
    · cases h
  · cases h

theorem Beside.unapplied {p : Party} {F : FiberId → Prop} {s s' : Reel} {f : FiberId}
    (h : Beside p F s s') (hf : ¬ F f) (hp : Holds p s f) : Unapplied f s s' := by
  rcases h.film with ⟨later, hfilm, hlater⟩
  refine ⟨⟨later, hfilm, fun shot hshot => ?_⟩, h.pending f hf hp⟩
  by_contra hsome
  rcases Option.ne_none_iff_exists'.mp hsome with ⟨target, htarget⟩
  exact (hlater shot hshot f).1 hf hp (underSlot_of_applied htarget)

theorem Tied.kept {f : FiberId} {s s' : Reel} (h : Tied f s) (hu : Unapplied f s s')
    (hv : view s' f = view s f) : Tied f s' := by
  unfold Tied
  rw [hv, hu.lastApply]
  exact h.imp_left hu.excused

theorem Rest.kept {f : FiberId} {s s' : Reel} (h : Rest f s) (hu : Unapplied f s s')
    (hv : view s' f = view s f) : Rest f s' :=
  ⟨hv ▸ h.settled, h.tied.kept hu hv,
    fun halive => hu.opened (congrArg View.applied hv) (h.opened (hv ▸ halive))⟩

theorem Drifted.kept {f : FiberId} {s s' : Reel} (h : Drifted f s) (hu : Unapplied f s s')
    (hv : view s' f = view s f) : Drifted f s' :=
  ⟨hv ▸ h.settled, hv ▸ h.recorded, hv.symm ▸ h.excused.imp_left hu.excused,
    fun halive => hu.opened (congrArg View.applied hv) (h.opened (hv ▸ halive))⟩

theorem Settled.redirected {v : View} (h : Settled v) (target : Option SemanticTarget) :
    Settled { v with target := target } :=
  ⟨h.state, h.error, h.dead, h.unapplied⟩

/-- Another target was recorded for a Fiber at rest. -/
theorem Rest.drifted {f : FiberId} {s s' : Reel} {live : SemanticTarget} (hrest : Rest f s)
    (hu : Unapplied f s s') (hview : view s' f = { view s f with target := some live })
    (hcaused : (view s f).target = lastApply f s.film → Excused f s') : Drifted f s' := by
  refine ⟨hview ▸ hrest.settled.redirected _, by rw [hview]; rfl, ?_, fun halive => ?_⟩
  · rw [hview]
    rcases hrest.tied with hexcused | hdead | hsame
    · exact .inl (hu.excused hexcused)
    · exact .inr hdead
    · exact .inl (hcaused hsame)
  · rw [hview] at halive
    exact hu.opened (by rw [hview]) (hrest.opened halive)

/-- Yet another target may be recorded for a drifted Fiber. -/
theorem Drifted.retarget {f : FiberId} {s s' : Reel} {live : SemanticTarget} (h : Drifted f s)
    (hu : Unapplied f s s') (hview : view s' f = { view s f with target := some live }) :
    Drifted f s' := by
  refine ⟨hview ▸ h.settled.redirected _, by rw [hview]; rfl, ?_, fun halive => ?_⟩
  · rw [hview]
    exact h.excused.imp_left hu.excused
  · rw [hview] at halive
    exact hu.opened (by rw [hview]) (h.opened halive)

/-! ## One operation -/

/-- What is known of a party that is about to perform an operation. -/
structure Authorized (p : Party) (op : Op) (s : Reel) : Prop where
  performs : authority.Performs p op s.state fun _ _ => True
  drops : authority.Drops p op s.state
  entitled : Entitled p op s.state
  slots : SlotInv s.state
  fresh : Fresh s.state

theorem holds_iff {p : Party} {s : Reel} {f : FiberId} (hf : f < s.state.nextFiber) :
    Holds p s f ↔ p ∈ (s.state.fibers f).trace.holders := by
  simp only [Holds, part, if_pos hf]
  exact Iff.rfl

theorem holds_of_keeps {t : Party} {s s' : Reel} (h : Keeps t s.state s'.state) (f : FiberId) :
    Holds t s' f ↔ Holds t s f := by
  unfold Holds
  rw [h.part]

theorem holds_unique {p t : Party} {s : Reel} (hs : SlotInv s.state) {f : FiberId}
    (hp : Holds p s f) (ht : Holds t s f) : t = p := by
  have hf := lt_of_holds hp
  have heq := (hs.slot f hf).holders_eq ((holds_iff hf).mp hp)
  have hmem := (holds_iff hf).mp ht
  rw [heq, List.mem_singleton] at hmem
  exact hmem

theorem busy_of_holds {p : Party} {s : Reel} (hs : SlotInv s.state) {f : FiberId}
    (hp : Holds p s f) : (s.state.fibers f).inertia ≠ .idle := by
  have hf := lt_of_holds hp
  exact (hs.slot f hf).not_idle ((holds_iff hf).mp hp)

section Step

variable {p q t : Party} {choice : Choice} {op : Op} {s : Reel} {state : Root} {r : op.Ret}

theorem Owned.shoot {f : FiberId} (h : Owned f s.film) :
    Owned f (s.shoot p op r state).film :=
  h.append [_]

theorem pending_shoot (h : exec p q choice op s.state = some (state, r)) {f : FiberId}
    (hf : f < s.state.nextFiber)
    (hunseals : op = .on f (.store .creationPending false) → Owned f s.film) (hs : Pending f s) :
    Owned f (s.shoot p op r state).film ∨ Pending f (s.shoot p op r state) := by
  by_cases hop : op = .on f (.store .creationPending false)
  · exact .inl (Owned.shoot (hunseals hop))
  · exact .inr (exec_pending h hf hop hs)

/-- A step of one party, as a party that holds other slots sees it. -/
theorem beside_shoot (h : exec p q choice op s.state = some (state, r)) (hop : tampers op = false)
    (honward : ∀ f, (s.state.fibers f).Onward (state.fibers f)) {F : FiberId → Prop}
    (hslot : ∀ f, underSlot op = some f → ¬ F f → ¬ Holds t s f)
    (hunseals : ∀ f, op = .on f (.store .creationPending false) → ¬ F f → Holds t s f →
      Owned f s.film)
    (howns : ∀ f, op = .on f (.store .creationOwned true) → ¬ Creates t s f)
    (hholds : ∀ f, ¬ F f → (Holds t (s.shoot p op r state) f ↔ Holds t s f)) :
    Beside t F s (s.shoot p op r state) where
  nextFiber := exec_nextFiber_le h
  begun := rfl
  declared f hf := exec_declared h hf
  holds := hholds
  view f hf ht := exec_view h hop (lt_of_holds ht) fun hunder => hslot f hunder hf ht
  pending f hf ht := pending_shoot h (lt_of_holds ht) fun hop => hunseals f hop hf ht
  onward := honward
  film := by
    refine ⟨[⟨p, op, r, s.state⟩], rfl, fun shot hshot f => ?_⟩
    obtain rfl := List.mem_singleton.mp hshot
    exact ⟨fun hf ht hunder => hslot f hunder hf ht, fun hc hop => howns f hop hc⟩

/-- Whoever publishes in order leads every Fiber onward. -/
theorem onward_shoot (ha : Authorized p op s) (hop : tampers op = false)
    (hpublish : ∀ f next, op = .on f (.publish next) → (view s f).Publishes next)
    (h : exec p q choice op s.state = some (state, r)) (f : FiberId) :
    (s.state.fibers f).Onward (state.fibers f) :=
  exec_onward ha.fresh h hop fun next hnext => (hpublish f next hnext).final

theorem not_holds_of_underSlot (ha : Authorized p op s) (ht : t ≠ p) {f : FiberId}
    (hunder : underSlot op = some f) : ¬ Holds t s f :=
  fun hheld => ht (holds_unique ha.slots (ha.entitled.slot f hunder) hheld)

theorem creates_unique {f : FiberId} (hp : Creates p s f) (ht : Creates t s f) : t = p := by
  have hlt : f < s.state.nextFiber := by
    by_contra hlt
    simp [Creates, part, hlt] at hp
  simp only [Creates, part, if_pos hlt] at hp ht
  exact Option.some.inj (ht.symm.trans hp)

/-- The others keep their slots. -/
theorem waits_shoot (ha : Authorized p op s) (hc : Cleared p op s)
    (h : exec p q choice op s.state = some (state, r))
    (hk : Keeps t s.state state) (ht : t ≠ p) : Waits t s (s.shoot p op r state) := by
  refine ⟨beside_shoot h hc.plain (onward_shoot ha hc.plain hc.publish h) (fun _ hunder _ => not_holds_of_underSlot ha ht hunder)
    (fun f hop _ hheld => ?_) (fun f hop hcreates => ?_) fun f _ => holds_of_keeps hk f, hk⟩
  · refine (hc.unseals f hop).resolve_right fun hp => ?_
    exact ht (holds_unique ha.slots hp hheld)
  · subst hop
    exact ht (creates_unique (ha.entitled.creator f rfl) hcreates)

/-- A slot becomes free by release only. -/
theorem idle_of_exec (ha : Authorized p op s) (hs : SlotInv state)
    (h : exec p q choice op s.state = some (state, r)) {f : FiberId} (hf : f < s.state.nextFiber)
    (hidle : (state.fibers f).inertia = .idle) :
    (s.state.fibers f).inertia = .idle ∨ op = .on f .release ∨ op = .on f .abandon := by
  by_cases hhandles : handles op = some f
  · cases op <;> simp only [handles, reduceCtorEq] at hhandles
    case on g op' =>
      cases op' <;> simp only [reduceCtorEq, Option.some.injEq] at hhandles <;> subst hhandles
      case tryClaim =>
        simp only [exec, Option.map_eq_some_iff, Prod.mk.injEq] at h
        rcases h with ⟨⟨y, r'⟩, hexec, rfl, -⟩
        simp only [FiberOp.exec] at hexec
        split at hexec
        · rename_i hwas
          exact .inl hwas
        · simp only [Option.some.injEq, Prod.mk.injEq] at hexec
          rw [Root.fibers_put, ← hexec.1] at hidle
          exact .inl hidle
      case release => exact .inr (.inl rfl)
      case abandon => exact .inr (.inr rfl)
    case fork routine =>
      cases routine <;> simp only [reduceCtorEq, Option.some.injEq] at hhandles
      subst hhandles
      simp only [exec, Option.some.injEq, Prod.mk.injEq] at h
      rw [← h.1, Root.fibers_put] at hidle
      exact .inl hidle
  · have hsame := exec_holders ha.fresh h hhandles
    have hnone : (state.fibers f).trace.holders = [] := by
      exact (hs.slot f (Nat.lt_of_lt_of_le hf (exec_nextFiber_le h))).idle hidle
    refine .inl ?_
    by_contra hbusy
    rcases (ha.slots.slot f hf).busy hbusy with ⟨t, hholder⟩
    rw [hsame, hholder] at hnone
    cases hnone

theorem applied_eq_none {f : FiberId} {shot : Shot Root Op Op.Ret}
    (h : underSlot shot.op ≠ some f) : applied f shot = none := by
  by_contra hsome
  rcases Option.ne_none_iff_exists'.mp hsome with ⟨target, htarget⟩
  exact h (underSlot_of_applied htarget)

theorem unapplied_shoot (h : exec p q choice op s.state = some (state, r)) {f : FiberId}
    (hf : f < s.state.nextFiber) (happlied : applied f ⟨p, op, r, s.state⟩ = none)
    (hunseals : op = .on f (.store .creationPending false) → Owned f s.film) :
    Unapplied f s (s.shoot p op r state) := by
  refine ⟨⟨[⟨p, op, r, s.state⟩], rfl, fun shot hshot => ?_⟩, pending_shoot h hf hunseals⟩
  obtain rfl := List.mem_singleton.mp hshot
  exact happlied

/-- A Fiber that was just allocated. -/
theorem fiber_of_born (h : exec p q choice op s.state = some (state, r)) {f : FiberId}
    (hf : f < state.nextFiber) (hborn : s.state.nextFiber ≤ f) :
    ∃ edges, op = .allocate edges ∧ state.fibers f = Fiber.created edges p := by
  rcases exec_nextFiber h with hnext | ⟨edges, rfl, hnext⟩
  · exact absurd hf (Nat.not_lt.mpr (hnext ▸ hborn))
  · rw [hnext] at hf
    obtain rfl : f = s.state.nextFiber := Nat.le_antisymm (Nat.le_of_lt_succ hf) hborn
    simp only [exec, Option.some.injEq, Prod.mk.injEq] at h
    refine ⟨edges, rfl, ?_⟩
    rw [← h.1]
    exact Root.fibers_put _ _ _

theorem view_created (edges : List DependencyEdge) (p : Party) : (Fiber.created edges p).view =
    { state := .pending, error := none, target := none, alive := true, applied := false } :=
  rfl

theorem unapplied_of_born (ha : Authorized p op s) {f : FiberId}
    (hborn : s.state.nextFiber ≤ f) : applied f ⟨p, op, r, s.state⟩ = none := by
  refine applied_eq_none fun hunder => ?_
  exact absurd (lt_of_holds (ha.entitled.slot f hunder)) (Nat.not_lt.mpr hborn)

theorem onView_dead {op : FiberOp} {v : View} (hop : op.tampers = false)
    (hv : v.state = .disposed → v.alive = false) (hdead : op = .publish .disposed → v.alive = false)
    (h : (op.onView v).state = .disposed) : (op.onView v).alive = false := by
  cases op with
  | publish next =>
      obtain rfl : next = .disposed := h
      exact hdead rfl
  | store flag value =>
      cases flag with
      | alive =>
          cases value with
          | true => cases hop
          | false => rfl
      | _ => exact hv h
  | _ => exact hv h

/-- Whoever may perform an operation keeps the promises to everybody. -/
theorem custody_shoot (ha : Authorized p op s) (hs : Custody s) (hc : Cleared p op s)
    (hslots : SlotInv state) (h : exec p q choice op s.state = some (state, r)) :
    Custody (s.shoot p op r state) := by
  have honward := onward_shoot ha hc.plain hc.publish h
  refine {
    rest := fun f hf hidle => ?rest
    dead := fun f hf hstate => ?dead
    complete := fun f hf => ?complete
    root := ?root
    begun := fun t => ?begun
    flows := ⟨honward, hs.flows⟩
    applies := ⟨fun f target happlied => ?applies, hs.applies⟩
    unborn := fun f hf => ?unborn }
  case rest =>
    -- an idle fiber was idle, was released by this operation, or is born by it
    by_cases hborn : f < s.state.nextFiber
    · rcases idle_of_exec ha hslots h hborn hidle with hwas | hop
      · have hrest := hs.rest f ⟨hf.1, hborn⟩ hwas
        have hslot : underSlot op ≠ some f := fun hunder =>
          busy_of_holds ha.slots (ha.entitled.slot f hunder) hwas
        refine hrest.kept (unapplied_shoot h hborn (applied_eq_none hslot) fun hop => ?_)
          (exec_view h hc.plain hborn hslot)
        exact (hc.unseals f hop).resolve_right fun hp => busy_of_holds ha.slots hp hwas
      -- whoever frees the slot vouches for the state that it leaves behind
      · have hrest := hc.rest f hop
        have hview : (state.fibers f).view = (s.state.fibers f).view := by
          rcases exec_touch h f with ⟨op', r', hop', hexec⟩ | ⟨_, hop', -, -⟩ | ⟨hon, -, -⟩
          · have hview := (FiberOp.exec_view (by rw [hop'] at hc; exact hc.plain) hexec).1
            rw [hview]
            rw [hop'] at hop
            rcases hop with hop | hop <;> cases hop <;> rfl
          · rw [hop'] at hop
            rcases hop with hop | hop <;> cases hop
          · rcases hop with hop | hop <;> exact absurd hop (hon _)
        refine hrest.kept (unapplied_shoot h hborn ?_ ?_) hview
        · rcases hop with rfl | rfl <;> rfl
        · rcases hop with rfl | rfl <;> nofun
    -- a fiber is born idle and pending, owned by its creator
    · rcases fiber_of_born h hf.2 (Nat.not_lt.mp hborn) with ⟨edges, rfl, hfiber⟩
      have hlast : lastApply f (s.shoot p (.allocate edges) r state).film = none :=
        (hs.unborn f (Nat.not_lt.mp hborn)).1
      have hnew : view (s.shoot p (.allocate edges) r state) f = (Fiber.created edges p).view :=
        congrArg Fiber.view hfiber
      rw [view_created] at hnew
      refine ⟨?_, .inl (.inl hlast), fun _ => .inr ⟨?_, congrArg View.applied hnew, hlast⟩⟩
      · rw [hnew]
        exact ⟨⟨nofun, nofun⟩, fun _ => ⟨nofun, nofun⟩, ⟨nofun, nofun⟩, fun _ => .inl rfl⟩
      · show (state.fibers f).flags .creationPending = true
        rw [hfiber]
        rfl
  case dead =>
    by_cases hborn : f < s.state.nextFiber
    · have hwas := hs.dead f hborn
      rcases exec_touch h f with ⟨op', r', rfl, hexec⟩ | ⟨_, -, rfl, -⟩ | ⟨-, hcore, -⟩
      · have hview := (FiberOp.exec_view hc.plain hexec).1
        change (state.fibers f).view.state = .disposed at hstate
        change (state.fibers f).view.alive = false
        rw [hview] at hstate ⊢
        exact onView_dead hc.plain hwas (fun hop => (hc.publish f .disposed (hop ▸ rfl)).dead rfl)
          hstate
      · exact absurd hborn (Nat.lt_irrefl _)
      · change (state.fibers f).state = .disposed at hstate
        change (state.fibers f).flags .alive = false
        rw [hcore.state] at hstate
        rw [hcore.flags]
        exact hwas hstate
    · rcases fiber_of_born h hf (Nat.not_lt.mp hborn) with ⟨edges, -, hfiber⟩
      change (state.fibers f).view.state = .disposed at hstate
      rw [hfiber, view_created] at hstate
      cases hstate
  case complete =>
    refine (honward f).final ?_
    rcases exec_complete h hc.plain hf with hwas | hop
    · exact hs.complete f hwas
    · exact hc.complete f hop
  case root =>
    -- nobody holds the slot of the root
    have hslot : underSlot op ≠ some 0 := fun hunder =>
      absurd (spawned_of_holds ha.slots (ha.entitled.slot 0 hunder)).1 (Nat.lt_irrefl 0)
    have hview : (state.fibers 0).view = view s 0 := exec_view h hc.plain ha.slots.born hslot
    exact (congrArg View.state hview).trans hs.root
  case begun => exact Nat.le_succ_of_le (hs.begun t)
  case applies => exact hc.due f target (startApply_of_applied happlied)
  case unborn =>
    have hborn : s.state.nextFiber ≤ f := Nat.le_trans (exec_nextFiber_le h) hf
    rcases hs.unborn f hborn with ⟨hnever, hunowned⟩
    constructor
    · show List.findSome? (applied f) (_ :: s.film) = none
      rw [List.findSome?_cons, unapplied_of_born ha hborn]
      exact hnever
    -- an unborn fiber has no creator who could own it
    · rintro ⟨shot, hshot, hop⟩
      rcases List.mem_cons.mp hshot with rfl | hold
      · have hop : op = .on f (.store .creationOwned true) := hop
        subst hop
        have hcreates : (part p s.state f).creates := ha.entitled.creator f rfl
        simp [part, Nat.not_lt.mpr hborn] at hcreates
      · exact hunowned ⟨shot, hold, hop⟩

end Step

/-! ## The logic -/

def custody : Logic cordis.filmed tailIdle.filmed where
  inv := Custody
  rely := Waits
  blank p s := s.state.driving p = {} ∧ part p s.state = fun _ => {}
  pre routine p s :=
    match routine with
    | .convergence f => Holds p s f ∧ Drifted f s
    | .creationGuard f => (part p s.state f).Inheritable
    | _ => True
  post := Honoured
  check := Cleared
  given := Authorized
  rely_refl := Waits.refl
  rely_trans := Waits.trans
  blank_rely h hr := ⟨hr.keeps.driving.trans h.1, hr.keeps.part.trans h.2⟩
  post_rely h hr := by
    rcases hr.beside.film with ⟨newer, hfilm, -⟩
    exact h.after hfilm hr.beside.begun hr.beside.onward

theorem Opened.begin {f : FiberId} {s : Reel} (h : Opened f s) (q : Party) :
    Opened f (s.begin q) :=
  h.imp id fun hsealed => ⟨hsealed.pending, hsealed.unapplied, hsealed.never⟩

theorem Rest.begin {f : FiberId} {s : Reel} (h : Rest f s) (q : Party) : Rest f (s.begin q) :=
  ⟨h.settled, h.tied, fun halive => (h.opened halive).begin q⟩

theorem Drifted.begin {f : FiberId} {s : Reel} (h : Drifted f s) (q : Party) :
    Drifted f (s.begin q) :=
  ⟨h.settled, h.recorded, h.excused, fun halive => (h.opened halive).begin q⟩

theorem Custody.begin {s : Reel} (h : Custody s) (q : Party) : Custody (s.begin q) := by
  refine ⟨fun f hf hidle => (h.rest f hf hidle).begin q, h.dead, h.complete, h.root, fun p => ?_,
    h.flows, h.applies, h.unborn⟩
  show (if p = q then s.film.length else s.begun p) ≤ s.film.length
  split
  · exact Nat.le_refl _
  · exact h.begun p

theorem Waits.begin {t q : Party} {s s' : Reel} (h : Waits t s s') (ht : t ≠ q) :
    Waits t s (s'.begin q) := by
  refine ⟨⟨h.beside.nextFiber, ?_, h.beside.declared, h.beside.holds, h.beside.view,
    h.beside.pending, h.beside.onward, h.beside.film⟩, h.keeps⟩
  exact (if_neg ht).trans h.beside.begun

section Rules

variable {p : Party} {op : Op} {s : Reel}

/-- A drop leaves this of every Fiber. -/
structure Undropped (x y : Fiber) : Prop where
  view : y.view = x.view
  inertia : y.inertia = x.inertia
  edges : y.edges = x.edges
  creator : y.trace.creator = x.trace.creator
  flags : y.flags = x.flags
  sequence : y.sequence = x.sequence

theorem Undropped.onward {x y : Fiber} (h : Undropped x y) : x.Onward y := by
  have hstate : y.state = x.state := congrArg View.state h.view
  exact ⟨Nat.le_of_eq h.sequence.symm, fun _ => hstate, hstate.trans, fun hx => h.flags ▸ hx,
    fun hx => h.flags ▸ hx⟩

theorem dropped_kept {state : Root} {routine : Option Routine}
    (h : dropped p s.state = some (state, routine)) : state.nextFiber = s.state.nextFiber ∧
      ∀ f, Undropped (s.state.fibers f) (state.fibers f) := by
  rcases dropped_eq h with ⟨fibers, driving, rfl, hfibers⟩
  refine ⟨rfl, fun f => ?_⟩
  show Undropped (s.state.fibers f) (fibers f)
  rcases hfibers f with hfiber | hfiber <;> rw [hfiber] <;> exact ⟨rfl, rfl, rfl, rfl, rfl, rfl⟩

theorem custody_drops (hs : Custody s) : custody.Drops p op s := by
  intro hop ha s' next hdrop
  simp only [Machine.filmed, Option.map_eq_some_iff, Prod.mk.injEq] at hdrop
  rcases hdrop with ⟨⟨state, routine⟩, hdrop, rfl, rfl⟩
  have hslots := ha.drops hop trivial state routine hdrop
  rcases dropped_kept hdrop with ⟨hnext, hsame⟩
  have hborn : ∀ {f}, Spawned state f → Spawned s.state f := fun hf => ⟨hf.1, hnext ▸ hf.2⟩
  have hpending : ∀ f, Pending f s → Pending f (s.move state) := by
    intro f hf
    show (state.fibers f).flags .creationPending = true
    rw [(hsame f).flags]
    exact hf
  refine ⟨Custody.begin (s := s.move state) ⟨fun f hf hidle => ?_, fun f hf hstate => ?_,
    fun f hf => ?_, ?_, hs.begun, hs.flows.later fun f => (hsame f).onward, hs.applies,
    fun f hf => ?_⟩ p, fun t ht => ?_, ?_⟩
  · have hrest := hs.rest f (hborn hf) ((hsame f).inertia ▸ hidle)
    exact hrest.kept ⟨⟨[], rfl, by simp⟩, fun h => .inr (hpending f h)⟩ (hsame f).view
  · change (state.fibers f).view.state = .disposed at hstate
    change (state.fibers f).view.alive = false
    rw [(hsame f).view] at hstate ⊢
    exact hs.dead f (hnext ▸ hf) hstate
  · refine ((hsame f).onward).final (hs.complete f ?_)
    exact (congrFun (hsame f).flags _).symm.trans hf
  · exact (congrArg View.state (hsame 0).view).trans hs.root
  · exact hs.unborn f (hnext ▸ hf)
  · have hk : Keeps t s.state state := hslots.2.1 t ht
    refine Waits.begin ⟨⟨hk.nextFiber, rfl, fun f _ => ⟨(hsame f).edges, (hsame f).creator⟩,
      fun f _ => holds_of_keeps hk f, fun f _ _ => (hsame f).view,
      fun f _ _ h => .inr (hpending f h), fun f => (hsame f).onward, [], rfl, by simp⟩, hk⟩ ht
  · cases routine with
    | none => exact ⟨Nat.le_of_eq (if_pos rfl), trivial⟩
    | some routine =>
        have hpre : slotPre routine p state := hslots.2.2
        rcases dropped_guard hdrop with ⟨f, rfl⟩
        exact hpre.2.2.1

/-- One operation that starts no other party, performed within the condition. -/
theorem wp_allowed {Q : op.Ret → Reel → Prop} (hfork : forks op = none)
    (h : ∀ s', Waits p s s' → Custody s' → Cleared p op s' ∧
      ∀ q c state r, tailIdle p c op s'.state → Authorized p op s' →
        exec p q c op s'.state = some (state, r) → Q r (s'.shoot p op r state)) :
    custody.wp p (perform op) Q s := by
  refine custody.wp_perform fun s' hr hs' => ?_
  rcases h s' hr hs' with ⟨hc, hQ⟩
  refine ⟨hc, Logic.Performs.of_step hfork ?_, custody_drops hs'⟩
  intro q c s'' r hok ha hexec
  have hforks : cordis.forks op = none := hfork
  simp only [Machine.filmed, hforks, Option.map_eq_some_iff, Prod.mk.injEq] at hexec
  rcases hexec with ⟨⟨state, r'⟩, hexec, rfl, rfl⟩
  have hperforms := ha.performs q c state r' hok trivial hexec
  simp only [hforks] at hperforms
  have hexec' := cordis_exec hexec
  exact ⟨custody_shoot ha hs' hc hperforms.1 hexec',
    fun t ht => waits_shoot ha hc hexec' (hperforms.2.1 t ht) ht,
    hQ q c state r' hok ha hexec'⟩

/-- One operation that starts no other party. -/
theorem wp_op {Q : op.Ret → Reel → Prop} (hfork : forks op = none)
    (h : ∀ s', Waits p s s' → Custody s' → Cleared p op s' ∧
      ∀ q c state r, Authorized p op s' → exec p q c op s'.state = some (state, r) →
        Q r (s'.shoot p op r state)) : custody.wp p (perform op) Q s := by
  refine wp_allowed hfork fun s' hr hs' => ?_
  rcases h s' hr hs' with ⟨hc, hQ⟩
  exact ⟨hc, fun q c state r _ => hQ q c state r⟩

/-- One operation that starts another party. -/
theorem wp_fork {routine : Routine} {Q : Party → Reel → Prop}
    (h : ∀ s', Waits p s s' → Custody s' → Cleared p (.fork routine) s' ∧
      ∀ q c state r, Authorized p (.fork routine) s' → q ≠ p →
        exec p q c (.fork routine) s'.state = some (state, r) → slotPre routine q state →
        custody.pre routine q ((s'.shoot p (.fork routine) r state).begin q) ∧
          Q r ((s'.shoot p (.fork routine) r state).begin q)) :
    custody.wp p (perform (.fork routine)) Q s := by
  refine custody.wp_perform fun s' hr hs' => ?_
  rcases h s' hr hs' with ⟨hc, hQ⟩
  have hforks : cordis.forks (.fork routine) = some routine := rfl
  refine ⟨hc, Logic.Performs.of_fork hforks ?_, custody_drops hs'⟩
  intro q c s'' r hok ha hexec hq hblank
  simp only [Machine.filmed, Option.map_eq_some_iff, Prod.mk.injEq] at hexec
  rcases hexec with ⟨⟨state, r'⟩, hexec, rfl, rfl⟩
  have hperforms := ha.performs q c state r' hok trivial hexec hq hblank
  have hexec' := cordis_exec hexec
  have hpost := hQ q c state r' ha hq hexec' hperforms.2.2.1
  exact ⟨(custody_shoot ha hs' hc hperforms.1 hexec').begin q,
    fun t ht htq => (waits_shoot ha hc hexec' (hperforms.2.1 t ht htq) ht).begin htq,
    hpost.1, hpost.2⟩

end Rules

end Runtime
end CordisCore
