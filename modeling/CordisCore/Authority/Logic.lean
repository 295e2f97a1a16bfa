import CordisCore.Authority.Slot

/-!
# Authority logic — what a party may do with a slot, and what the others leave it
-/

namespace CordisCore
namespace Runtime

open Interleaving

/-! ## The condition on the initial pass's tail -/

/-- The Fiber whose slot is probed at the tail of an initial pass that released it. -/
def releasedTail : Op → Option FiberId
  | .on f (.probeIdle true) => some f
  | _ => none

def SlotIdle (f : FiberId) (s : Root) : Prop :=
  (s.fibers f).inertia = .idle

instance (f : FiberId) (s : Root) : Decidable (SlotIdle f s) :=
  inferInstanceAs (Decidable ((s.fibers f).inertia = .idle))

/-- The tail probe of an initial pass whose exit released the slot reads IDLE. -/
def tailIdle : Condition :=
  Machine.finds releasedTail SlotIdle

/-- The same condition, decided. -/
def tailIdle? : Party → Choice → Op → Root → Bool :=
  Machine.finds? releasedTail SlotIdle

/-! ## Who may perform what -/

/-- The operations that only the holder of the slot performs. -/
def FiberOp.underSlot : FiberOp → Bool
  | .storeInertia _ | .release | .abandon | .storeSettled _ _ | .recordTarget _
  | .markPendingIfUntouched _ | .pinInactive | .store .alive _ | .store .applied _
  | .store .draining _ | .store .generationReplacing _ | .swapGated .generationReplacing
  | .publish _ | .storeError _ | .takeError | .tokens | .startApply _ | .finishApply
  | .enterBracket .settle | .exitBracket .settle => true
  | _ => false

/-- The Fiber whose slot an operation needs. -/
def underSlot : Op → Option FiberId
  | .on f op => if op.underSlot then some f else none
  | .commitChange f | .claimCleanup f => some f
  | _ => none

/-- The Fiber whose creator performs an operation. -/
def byCreator : Op → Option FiberId
  | .on f op => if op.byCreator then some f else none
  | _ => none

/-- The Fiber whose slot an operation can take. -/
def claims : Op → Option FiberId
  | .on f .tryClaim => some f
  | _ => none

/-! ## Invariant and rely -/

/-- The Fiber was spawned: it is allocated, and it is not the root. -/
def Spawned (s : Root) (f : FiberId) : Prop :=
  0 < f ∧ f < s.nextFiber

/-- Every slot has at most one holder, and the projections name spawned fibers. -/
structure SlotInv (s : Root) : Prop where
  slot : ∀ f < s.nextFiber, Authority (s.fibers f)
  root : (s.fibers 0).trace.holders = []
  born : 0 < s.nextFiber
  reverse : ∀ row ∈ s.reverse, Spawned s row.2
  groups : ∀ g, ∀ f ∈ s.groups g, Spawned s f
  delivered : ∀ f, (s.fibers f).trace.delivered = true → Spawned s f

/-- A party keeps its parts of all slots and the way it is driven. -/
structure Keeps (p : Party) (s s' : Root) : Prop where
  nextFiber : s.nextFiber ≤ s'.nextFiber
  driving : s'.driving p = s.driving p
  part : part p s' = part p s

theorem Spawned.mono {s s' : Root} {f : FiberId} (h : Spawned s f)
    (hn : s.nextFiber ≤ s'.nextFiber) : Spawned s' f :=
  ⟨h.1, Nat.lt_of_lt_of_le h.2 hn⟩

namespace Keeps

variable {p : Party} {s s' s'' : Root} {f : FiberId}

theorem refl (p : Party) (s : Root) : Keeps p s s :=
  ⟨Nat.le_refl _, rfl, rfl⟩

theorem trans (h : Keeps p s s') (h' : Keeps p s' s'') : Keeps p s s'' :=
  ⟨Nat.le_trans h.nextFiber h'.nextFiber, h'.driving.trans h.driving, h'.part.trans h.part⟩

theorem spawned (h : Keeps p s s') (hf : Spawned s f) : Spawned s' f :=
  hf.mono h.nextFiber

theorem at_ (h : Keeps p s s') (f : FiberId) : Runtime.part p s' f = Runtime.part p s f :=
  congrFun h.part f

theorem holds (h : Keeps p s s') (hp : (Runtime.part p s f).holds) :
    (Runtime.part p s' f).holds :=
  h.at_ f ▸ hp

end Keeps

/-! ## Parts -/

namespace Part

/-- The slot is held and no settle body or apply is in progress. -/
structure Owns (x : Part) : Prop where
  holds : x.holds
  settling : ¬ x.settling
  applying : ¬ x.applying

/-- Nothing of the slot is held. -/
structure Clear (x : Part) : Prop where
  holds : ¬ x.holds
  settling : ¬ x.settling
  applying : ¬ x.applying

/-- The creation guard can tell from the ownership mark whether the slot is inherited. -/
structure Inheritable (x : Part) : Prop where
  creates : x.creates
  owned : x.owned ↔ x.holds

/-- The part with the slot gained or lost. -/
def withHolds (x : Part) (holds : Prop) : Part :=
  { x with holds := holds }

def withSettling (x : Part) (settling : Prop) : Part :=
  { x with settling := settling }

def withApplying (x : Part) (applying : Prop) : Part :=
  { x with applying := applying }

def withOwned (x : Part) (owned : Prop) : Part :=
  { x with owned := owned }

variable {x : Part}

theorem Clear.withHolds_true (h : x.Clear) : (x.withHolds True).Owns :=
  ⟨trivial, h.settling, h.applying⟩

theorem withHolds_eq {P : Prop} (h : P ↔ x.holds) : x.withHolds P = x := by
  cases x
  simpa [withHolds] using h

theorem withSettling_eq {P : Prop} (h : P ↔ x.settling) : x.withSettling P = x := by
  cases x
  simpa [withSettling] using h

theorem withApplying_eq {P : Prop} (h : P ↔ x.applying) : x.withApplying P = x := by
  cases x
  simpa [withApplying] using h

theorem withHolds_withHolds (P Q : Prop) : (x.withHolds P).withHolds Q = x.withHolds Q :=
  rfl

end Part

/-- Wherever the party is dropped now, its guard takes over. -/
def Droppable (p : Party) (s : Root) : Prop :=
  (s.driving p).byCaller = true → ∀ f, (s.driving p).guard = some f →
    Spawned s f ∧ (part p s f).Inheritable

/-- No guard of this party can fire. -/
def Free (p : Party) (s : Root) : Prop :=
  (s.driving p).byCaller = true → (s.driving p).guard = none

theorem Free.droppable {p : Party} {s : Root} (h : Free p s) : Droppable p s := by
  intro hcaller f hguard
  rw [h hcaller] at hguard
  cases hguard

/-! ## The logic -/

/-- The fibers whose handles a call is given. -/
def Routine.handle : Routine → Option FiberId
  | .ready _ f | .waitState _ f _ _ | .dispose _ f | .restart _ f | .update _ f _
  | .eraSwap _ f _ => some f
  | _ => none

def slotPre (routine : Routine) (p : Party) (s : Root) : Prop :=
  match routine with
  | .convergence f => s.driving p = {} ∧ Spawned s f ∧ (part p s f).Owns
  | .creationGuard f =>
      s.driving p = {} ∧ Spawned s f ∧ (part p s f).Inheritable ∧
        ¬ (part p s f).settling ∧ ¬ (part p s f).applying
  | .cleanup _ _ _ | .task _ => s.driving p = {}
  | routine => (s.driving p).guard = none ∧ ∀ f, routine.handle = some f → Spawned s f

/-- Entitlement: the slot for what needs the slot, creation for what the creator does. -/
structure Entitled (p : Party) (op : Op) (s : Root) : Prop where
  slot : ∀ f, underSlot op = some f → (part p s f).holds
  creator : ∀ f, byCreator op = some f → (part p s f).creates
  claim : ∀ f, claims op = some f → Spawned s f
  drop : op.awaits = true → Droppable p s

def authority : Logic cordis tailIdle where
  inv := SlotInv
  rely := Keeps
  blank p s := s.driving p = {} ∧ part p s = fun _ => {}
  pre := slotPre
  post _ _ _ := True
  check := Entitled
  rely_refl := Keeps.refl
  rely_trans := Keeps.trans
  blank_rely h hr := ⟨hr.driving.trans h.1, hr.part.trans h.2⟩
  post_rely _ _ := trivial

theorem Droppable.keeps {p : Party} {s s' : Root} (h : Droppable p s) (hk : Keeps p s s') :
    Droppable p s' := by
  intro hcaller f hguard
  rw [hk.driving] at hcaller hguard
  rw [hk.part]
  exact (h hcaller f hguard).imp_left hk.spawned

theorem Free.keeps {p : Party} {s s' : Root} (h : Free p s) (hk : Keeps p s s') :
    Free p s' := by
  unfold Free at *
  rw [hk.driving]
  exact h

theorem Entitled.keeps {p : Party} {op : Op} {s s' : Root} (h : Entitled p op s)
    (hk : Keeps p s s') : Entitled p op s' := by
  refine ⟨fun f hf => ?_, fun f hf => ?_, fun f hf => hk.spawned (h.claim f hf),
    fun ha => (h.drop ha).keeps hk⟩
  · rw [hk.part]
    exact h.slot f hf
  · rw [hk.part]
    exact h.creator f hf

/-! ## Steps that move no slot -/

theorem Unmoved.part {s s' : Root} (h : Unmoved s s') (p : Party) : part p s' = part p s := by
  funext f
  simp only [Runtime.part, h.nextFiber, (h.slots f).part p]

theorem Unmoved.keeps {s s' : Root} (h : Unmoved s s') (p : Party) : Keeps p s s' :=
  ⟨h.nextFiber ▸ Nat.le_refl _, congrFun h.driving p, h.part p⟩

theorem Unmoved.spawned {s s' : Root} (h : Unmoved s s') {f : FiberId} (hf : Spawned s f) :
    Spawned s' f :=
  ⟨hf.1, h.nextFiber ▸ hf.2⟩

theorem Unmoved.inv {s s' : Root} (h : Unmoved s s') (hs : SlotInv s) : SlotInv s' where
  slot f hf := (h.slots f).authority (hs.slot f (h.nextFiber ▸ hf))
  root := (h.slots 0).holders ▸ hs.root
  born := h.nextFiber ▸ hs.born
  reverse row hrow := h.spawned (hs.reverse row (h.reverse row hrow))
  groups g f hf := h.spawned (hs.groups g f (h.groups g f hf))
  delivered f hf := h.spawned (hs.delivered f ((h.slots f).delivered.trans hf))

/-! ## Steps of one party on one slot -/

theorem part_put {s : Root} {f : FiberId} {x : Fiber} {p : Party}
    (h : x.part p = (s.fibers f).part p) : part p (s.put f x) = part p s := by
  funext g
  by_cases hg : g = f
  · subst hg
    simp only [part, Root.fibers_put, h]
    rfl
  · simp only [part, Root.fibers_put_of_ne _ _ hg]
    rfl

theorem keeps_put {s : Root} {f : FiberId} {x : Fiber} {p : Party}
    (h : x.part p = (s.fibers f).part p) : Keeps p s (s.put f x) :=
  ⟨Nat.le_refl _, rfl, part_put h⟩

theorem inv_put {s : Root} (hs : SlotInv s) {f : FiberId} {x : Fiber} (hx : Authority x)
    (hroot : f = 0 → x.trace.holders = [])
    (hd : x.trace.delivered = true → Spawned s f) : SlotInv (s.put f x) where
  slot g hg := by
    by_cases hgf : g = f
    · subst hgf
      rwa [Root.fibers_put]
    · rw [Root.fibers_put_of_ne _ _ hgf]
      exact hs.slot g hg
  root := by
    by_cases hf : 0 = f
    · subst hf
      rw [Root.fibers_put]
      exact hroot rfl
    · rw [Root.fibers_put_of_ne _ _ hf]
      exact hs.root
  born := hs.born
  reverse := hs.reverse
  groups := hs.groups
  delivered g hg := by
    by_cases hgf : g = f
    · subst hgf
      rw [Root.fibers_put] at hg
      exact hd hg
    · rw [Root.fibers_put_of_ne _ _ hgf] at hg
      exact hs.delivered g hg

/-- The party's part in one slot has become `x`; it keeps all others. -/
structure Moves (p : Party) (f : FiberId) (x : Part) (s s' : Root) : Prop where
  nextFiber : s.nextFiber ≤ s'.nextFiber
  driving : s'.driving p = s.driving p
  here : part p s' f = x
  other : ∀ g, g ≠ f → part p s' g = part p s g

namespace Moves

variable {p : Party} {f : FiberId} {x y : Part} {s s' s'' : Root}

theorem of_keeps (h : Keeps p s s') (hx : part p s f = x) : Moves p f x s s' :=
  ⟨h.nextFiber, h.driving, (h.at_ f).trans hx, fun g _ => h.at_ g⟩

theorem keeps (h : Moves p f x s s') (hx : x = part p s f) : Keeps p s s' where
  nextFiber := h.nextFiber
  driving := h.driving
  part := by
    funext g
    by_cases hg : g = f
    · subst hg
      exact h.here.trans hx
    · exact h.other g hg

theorem trans (h : Moves p f x s s') (h' : Moves p f y s' s'') : Moves p f y s s'' :=
  ⟨Nat.le_trans h.nextFiber h'.nextFiber, h'.driving.trans h.driving, h'.here,
    fun g hg => (h'.other g hg).trans (h.other g hg)⟩

theorem trans_keeps (h : Moves p f x s s') (h' : Keeps p s' s'') : Moves p f x s s'' :=
  h.trans (of_keeps h' h.here)

theorem keeps_trans (h : Keeps p s s') (h' : Moves p f x s' s'') : Moves p f x s s'' :=
  (of_keeps h rfl).trans h'

theorem spawned (h : Moves p f x s s') {g : FiberId} (hg : Spawned s g) : Spawned s' g :=
  hg.mono h.nextFiber

theorem free (h : Moves p f x s s') (hp : Free p s) : Free p s' := by
  unfold Free at *
  rw [h.driving]
  exact hp

theorem of_put (hf : Spawned s f) (z : Fiber) : Moves p f (z.part p) s (s.put f z) where
  nextFiber := Nat.le_refl _
  driving := rfl
  here := by
    have hf' : f < (s.put f z).nextFiber := hf.2
    simp only [part, Root.fibers_put, if_pos hf']
  other g hg := by
    simp only [part, Root.fibers_put_of_ne _ _ hg]
    rfl

end Moves

/-- Only claiming, releasing and the ownership mark matter to the guard. -/
theorem Droppable.moves {p : Party} {f : FiberId} {x : Part} {s s' : Root} (h : Droppable p s)
    (hm : Moves p f x s s') (hin : (part p s f).Inheritable → x.Inheritable) :
    Droppable p s' := by
  intro hcaller g hguard
  rw [hm.driving] at hcaller hguard
  rcases h hcaller g hguard with ⟨hg, hig⟩
  refine ⟨hm.spawned hg, ?_⟩
  by_cases hgf : g = f
  · subst hgf
    rw [hm.here]
    exact hin hig
  · rw [hm.other g hgf]
    exact hig

theorem part_of_spawned {p : Party} {s : Root} {f : FiberId} (hf : Spawned s f) :
    part p s f = (s.fibers f).part p :=
  if_pos hf.2

theorem lt_of_holds {p : Party} {s : Root} {f : FiberId} (h : (part p s f).holds) :
    f < s.nextFiber := by
  by_contra hf
  simp [part, hf] at h

theorem spawned_of_holds {p : Party} {s : Root} {f : FiberId} (hs : SlotInv s)
    (h : (part p s f).holds) : Spawned s f := by
  refine ⟨Nat.pos_of_ne_zero fun hf => ?_, lt_of_holds h⟩
  subst hf
  simp [part, hs.born, Fiber.part, hs.root] at h

/-! ## Dropping a party -/

theorem forget_settling (x : Fiber) (p : Party) :
    (x.forget p).settling = x.settling.filter fun q => q ≠ p := by
  simp only [Fiber.settling, Fiber.forget, Fiber.track, List.filter_map, List.filter_filter]
  congr 1
  grind

theorem filter_single {l hs : List Party} {P : Party → Bool}
    (hhs : hs = [] ∨ ∃ q, hs = [q]) (h : l = [] ∨ l = hs) :
    l.filter P = [] ∨ l.filter P = hs := by
  rcases h with rfl | rfl
  · exact .inl rfl
  · rcases hhs with rfl | ⟨q, rfl⟩
    · exact .inl rfl
    · cases hq : P q <;> simp [hq]

theorem Authority.forget {x : Fiber} (h : Authority x) (p : Party) : Authority (x.forget p) where
  idle := h.idle
  busy := h.busy
  settling := by
    rw [forget_settling]
    exact filter_single h.holders_cases h.settling
  applying := filter_single h.holders_cases h.applying

theorem part_forget (x : Fiber) {p t : Party} (h : t ≠ p) :
    (x.forget p).part t = x.part t := by
  simp only [Fiber.part, forget_settling, Part.mk.injEq]
  simp [Fiber.forget, Fiber.track, h]

theorem part_forget_self (x : Fiber) (p : Party) :
    (x.forget p).part p = ((x.part p).withSettling False).withApplying False := by
  simp only [Fiber.part, forget_settling, Part.withSettling, Part.withApplying, Part.mk.injEq]
  simp [Fiber.forget, Fiber.track]

theorem keeps_drive {s : Root} {p t : Party} (driving : Driving) (h : t ≠ p) :
    Keeps t s (s.drive p driving) :=
  ⟨Nat.le_refl _, by simp [Root.drive, h], rfl⟩

theorem inv_drive {s : Root} (hs : SlotInv s) (p : Party) (driving : Driving) :
    SlotInv (s.drive p driving) :=
  ⟨hs.slot, hs.root, hs.born, hs.reverse, hs.groups, hs.delivered⟩

theorem inv_forget {s : Root} (hs : SlotInv s) (f : FiberId) (p : Party) :
    SlotInv (s.put f ((s.fibers f).forget p)) := by
  by_cases hf : f < s.nextFiber
  · exact inv_put hs ((hs.slot f hf).forget p) (fun h0 => h0 ▸ hs.root) (hs.delivered f)
  · refine ⟨fun g hg => ?_, ?_, hs.born, hs.reverse, hs.groups, fun g hg => ?_⟩
    · have hgf : g ≠ f := fun h => hf (h ▸ hg)
      rw [Root.fibers_put_of_ne _ _ hgf]
      exact hs.slot g hg
    · have h0 : (0 : FiberId) ≠ f := fun h => hf (h ▸ hs.born)
      rw [Root.fibers_put_of_ne _ _ h0]
      exact hs.root
    · by_cases hgf : g = f
      · subst hgf
        rw [Root.fibers_put] at hg
        exact hs.delivered g hg
      · rw [Root.fibers_put_of_ne _ _ hgf] at hg
        exact hs.delivered g hg

/-- What the creation guard finds when it takes over. -/
theorem forgotten {s : Root} {f : FiberId} {p : Party} (hf : Spawned s f)
    (hin : (part p s f).Inheritable) :
    let x := part p ((s.put f ((s.fibers f).forget p)).drive p {}) f
    x.Inheritable ∧ ¬ x.settling ∧ ¬ x.applying := by
  have hx : part p ((s.put f ((s.fibers f).forget p)).drive p {}) f =
      ((part p s f).withSettling False).withApplying False := by
    rw [part_of_spawned hf, ← part_forget_self]
    exact (Moves.of_put hf ((s.fibers f).forget p)).here
  rw [hx]
  exact ⟨⟨hin.creates, hin.owned⟩, id, id⟩

theorem drops_of_droppable {p : Party} {op : Op} {s : Root} (hs : SlotInv s)
    (h : op.awaits = true → Droppable p s) : authority.Drops p op s := by
  intro hop _ s' r hdrop
  simp only [cordis, dropped] at hdrop
  split at hdrop
  · rename_i hcaller
    split at hdrop <;> simp only [Option.some.injEq, Prod.mk.injEq] at hdrop <;>
      rcases hdrop with ⟨rfl, rfl⟩
    · rename_i f hguard
      rcases h hop hcaller f hguard with ⟨hf, hin⟩
      exact ⟨inv_drive (inv_forget hs f p) p {},
        fun t ht => (keeps_put (part_forget _ ht)).trans (keeps_drive {} ht),
        by simp [Root.drive], hf, forgotten hf hin⟩
    · exact ⟨hs, fun t _ => Keeps.refl t s, trivial⟩
  · cases hdrop

end Runtime
end CordisCore
