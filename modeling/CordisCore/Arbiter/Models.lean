import CordisCore.Arbiter.Turns
import CordisCore.Authority.Unique
import CordisCore.Fiber.Frame
import CordisCore.Lease.Creation
import CordisCore.Slot.Verdict
import CordisCore.Tasks.Passes

/-!
# Models — every model of the slot refines the one arbiter

The lifecycle, the slot protocol, the lease protocol and the task protocol look at the
same passes, each for what it is about.  Here they meet: in each of them the slot of a
Fiber changes hands as the turn of the arbiter does.
-/

namespace CordisCore
namespace Arbiter

open Interleaving
open Relation (ReflGen)

variable {p q : Party}

/-! ## The lifecycle -/

section Lifecycle

open CordisCore.Runtime (Authority FiberId FiberOp SlotInv)

variable {x y : Runtime.Fiber} {c : Runtime.Choice}

def fiberTurn (x : Runtime.Fiber) : Option Turn :=
  x.trace.holders.head?.map fun p => ⟨phase x.inertia, p⟩

theorem fiberTurn_free (h : x.trace.holders = []) : fiberTurn x = none := by
  simp [fiberTurn, h]

theorem fiberTurn_held (h : x.trace.holders = [p]) : fiberTurn x = some ⟨phase x.inertia, p⟩ := by
  simp [fiberTurn, h]

theorem fiberTurn_same (hinertia : y.inertia = x.inertia)
    (hholders : y.trace.holders = x.trace.holders) : fiberTurn y = fiberTurn x := by
  rw [fiberTurn, fiberTurn, hinertia, hholders]

/-- Whoever holds the slot gives it back. -/
theorem moves_unhold (hx : x.trace.holders = [p]) :
    ReflGen (Moves p) (fiberTurn x) (fiberTurn ((x.setInertia .idle).unhold p)) := by
  have hnone : ((x.setInertia .idle).unhold p).trace.holders = [] := by
    simp [Runtime.Fiber.unhold, Runtime.Fiber.setInertia, Runtime.Fiber.track, hx]
  rw [fiberTurn_held hx, fiberTurn_free hnone]
  exact .single (.release _)

theorem moves_on {op : FiberOp} {r : op.Ret} (hx : Authority x)
    (hheld : op.underSlot = true → p ∈ x.trace.holders) (h : op.exec p c x = some (y, r)) :
    ReflGen (Moves p) (fiberTurn x) (fiberTurn y) := by
  by_cases hw : op.writes .inertia = false
  · -- what leaves the word alone leaves the holder alone
    have hholders : op.writes .holders = false := by
      cases op <;> first | rfl | exact absurd hw Bool.noConfusion | (rename_i flag; cases flag <;> rfl)
    rw [fiberTurn_same (FiberOp.exec_same_field h .inertia hw)
      (FiberOp.exec_same_field h .holders hholders)]
  cases op with
  | tryClaim =>
      simp only [FiberOp.exec] at h
      split at h
      · rename_i hidle
        cases h
        have hp : ((x.setInertia .active).hold p).trace.holders = [p] := by
          simp [Runtime.Fiber.hold, Runtime.Fiber.setInertia, Runtime.Fiber.track, hx.idle hidle]
        rw [fiberTurn_free (hx.idle hidle), fiberTurn_held hp]
        exact .single .claim
      · cases h
        exact .refl
  | storeInertia word =>
      cases h
      have hp := hx.holders_eq (hheld rfl)
      have hp' : (x.setInertia word).trace.holders = [p] := hp
      rw [fiberTurn_held hp, fiberTurn_held hp']
      exact reflGen_phase p _ _
  | release =>
      simp only [FiberOp.exec] at h
      split at h
      · cases h
        exact moves_unhold (hx.holders_eq (hheld rfl))
      · cases h
        exact .refl
  | abandon =>
      cases h
      exact moves_unhold (hx.holders_eq (hheld rfl))
  | reclaim revision =>
      simp only [FiberOp.exec] at h
      split at h
      · rename_i hword
        cases h
        obtain ⟨t, ht⟩ := hx.busy (by rw [hword]; exact Runtime.Inertia.noConfusion)
        have ht' : ((x.setInertia .active).drive revision).trace.holders = [t] := ht
        rw [fiberTurn_held ht, fiberTurn_held ht', hword]
        exact .single (.resume t)
      · cases h
        exact .refl
  | swapGated flag => cases flag <;> exact absurd rfl hw
  | _ => exact absurd rfl hw

/-- The slot goes to the task that was started: nobody else can have held it. -/
theorem moves_fork (hx : Authority x) (hy : Authority ((x.unhold p).hold q)) :
    ReflGen (Moves p) (fiberTurn x) (fiberTurn ((x.unhold p).hold q)) := by
  have hholders : ((x.unhold p).hold q).trace.holders = q :: x.trace.holders.erase p := rfl
  have hone := hy.length_le
  rw [hholders] at hone
  rcases hx.holders_cases with hnone | ⟨t, ht⟩
  · have hidle : x.inertia = .idle := by
      by_contra hbusy
      rcases hx.busy hbusy with ⟨t, ht⟩
      rw [hnone] at ht
      cases ht
    have hempty := hy.idle hidle
    rw [hholders] at hempty
    cases hempty
  · obtain rfl : t = p := by
      by_contra hne
      rw [ht, List.erase_cons_tail (by simpa using hne)] at hone
      exact absurd hone (by simp)
    have hq : ((x.unhold t).hold q).trace.holders = [q] := by
      rw [hholders, ht, List.erase_cons_head]
    rw [fiberTurn_held ht, fiberTurn_held hq]
    exact .single (.handOver _ q)

/-- The slot of a Fiber, in every run whose tail probes read IDLE. -/
theorem lifecycle_refines (f : FiberId) :
    Runtime.cordis.Refines Runtime.tailIdle (fun s => fiberTurn (s.fibers f)) Moves none := by
  refine Machine.refines_of_performed ?_ ?_ ?_ ?_
  · refine fiberTurn_free ?_
    show (if f = 0 then Runtime.Fiber.root else {}).trace.holders = []
    split <;> rfl
  · intro cfg cfg' p q c op next r hr hr' hpool _ hexec
    have hs : SlotInv cfg.shared := Logic.inv_of_reachable Runtime.authority_verified hr
    have hs' : SlotInv cfg'.shared := Logic.inv_of_reachable Runtime.authority_verified hr'
    have hcheck : Runtime.Entitled p op cfg.shared :=
      Logic.check_of_reachable Runtime.authority_verified hr hpool
    have hle := Runtime.exec_nextFiber_le (Runtime.cordis_exec hexec)
    rcases Runtime.exec_touch (Runtime.cordis_exec hexec) f with
      ⟨op', r', rfl, hop⟩ | ⟨edges, -, hf, hborn⟩ | ⟨hon, hcore, hbooks⟩
    · have hf : f < cfg.shared.nextFiber := Runtime.cordis_touches hexec rfl
      refine moves_on (hs.slot f hf) (fun hunder => ?_) hop
      have hholds := hcheck.slot f (if_pos hunder)
      rw [Runtime.part_of_spawned (Runtime.spawned_of_holds hs hholds)] at hholds
      exact hholds
    · rw [Runtime.fresh_of_reachable hr f (Nat.le_of_eq hf.symm), hborn]
      exact .refl
    · by_cases hfork : op = .fork (.convergence f)
      · subst hfork
        have hf : f < cfg.shared.nextFiber := Runtime.cordis_touches hexec rfl
        have hy := hs'.slot f (Nat.lt_of_lt_of_le hf hle)
        have hfiber : cfg'.shared.fibers f = ((cfg.shared.fibers f).unhold p).hold q := by
          have hout := Runtime.cordis_exec hexec
          simp only [Runtime.exec, Option.some.injEq, Prod.mk.injEq] at hout
          rw [← hout.1, Runtime.Root.fibers_put]
        rw [hfiber] at hy ⊢
        exact moves_fork (hs.slot f hf) hy
      · rw [fiberTurn_same hcore.inertia (hbooks.holders hfork)]
  · intro p routine s s' henter
    simp only [Runtime.cordis, Runtime.enter, Option.ite_none_right_eq_some,
      Option.some.injEq] at henter
    rw [← henter.2]
    rfl
  · intro p s s' next hdrop
    rcases Runtime.dropped_eq hdrop with ⟨fibers, driving, rfl, hfibers⟩
    show fiberTurn (fibers f) = fiberTurn (s.fibers f)
    rcases hfibers f with hsame | hsame <;> rw [hsame]
    rfl

theorem lifecycle_arbitrated (f : FiberId) :
    Arbitrated Runtime.cordis Runtime.tailIdle (fun s => (s.fibers f).inertia = .idle)
      fun s => fiberTurn (s.fibers f) := by
  refine arbitrated_of_refines (lifecycle_refines f) fun cfg hr => ?_
  have hs : SlotInv cfg.shared := Logic.inv_of_reachable Runtime.authority_verified hr
  rcases Nat.lt_or_ge f cfg.shared.nextFiber with hf | hf
  · refine ⟨fun hnone => ?_, fun hidle => fiberTurn_free ((hs.slot f hf).idle hidle)⟩
    by_contra hbusy
    rcases (hs.slot f hf).busy hbusy with ⟨p, hp⟩
    rw [fiberTurn_held hp] at hnone
    cases hnone
  · rw [Runtime.fresh_of_reachable hr f hf]
    exact ⟨fun _ => rfl, fun _ => rfl⟩

end Lifecycle

/-! ## The slot protocol -/

section Protocol

open CordisCore.Slot (InertiaSlot Sound)

variable {s s' : InertiaSlot}

def wordPhase (word : Nat) : Phase :=
  if word = Slot.INERTIA_RELEASING then .rechecking else .settling

def slotTurn (s : InertiaSlot) : Option Turn :=
  s.trace.holder.map fun p => ⟨wordPhase s.inertia, p⟩

theorem slotTurn_same (hinertia : s'.inertia = s.inertia)
    (hholder : s'.trace.holder = s.trace.holder) : slotTurn s' = slotTurn s := by
  rw [slotTurn, slotTurn, hinertia, hholder]

/-- As long as the holder stays it goes on, whatever it writes. -/
theorem moves_held (hs : Slot.Holds p s) (hs' : Slot.Holds p s') :
    ReflGen (Moves p) (slotTurn s) (slotTurn s') := by
  rw [slotTurn, slotTurn, hs, hs']
  exact reflGen_phase p _ _

theorem moves_acquire (hs : Sound s) (hidle : s.inertia = Slot.INERTIA_IDLE) :
    ReflGen (Moves p) (slotTurn s) (slotTurn (s.acquire p)) := by
  rw [slotTurn, hs.held.mp hidle]
  exact .single .claim

theorem moves_release (hs : Slot.Holds p s) :
    ReflGen (Moves p) (slotTurn s) (slotTurn (s.release p)) := by
  rw [slotTurn, hs]
  exact .single (.release _)

/-- A kick calls the holder back. -/
theorem moves_reclaim (hs : Sound s) (hword : s.inertia = Slot.INERTIA_RELEASING) :
    ReflGen (Moves p) (slotTurn s) (slotTurn s.reclaim) := by
  have hturn : ∀ {t}, s.trace.holder = some t →
      slotTurn s = some ⟨.rechecking, t⟩ ∧ slotTurn s.reclaim = some ⟨.settling, t⟩ := by
    intro t ht
    have ht' : s.reclaim.trace.holder = some t := ht
    rw [slotTurn, slotTurn, ht, ht', hword]
    exact ⟨rfl, rfl⟩
  cases hholder : s.trace.holder with
  | none =>
      have hidle := hs.held.mpr hholder
      rw [hword] at hidle
      cases hidle
  | some t =>
      rw [(hturn hholder).1, (hturn hholder).2]
      exact .single (.resume t)

theorem moves_exec {op : Slot.Op} {c : Slot.Choice} {r : op.Ret} (hs : Sound s)
    (hcheck : Slot.check p op s) (h : Slot.exec p q c op s = some (s', r)) :
    ReflGen (Moves p) (slotTurn s) (slotTurn s') := by
  by_cases hquiet : op.quiet = true
  · have hsame := Slot.exec_quiet hquiet h
    rw [slotTurn_same hsame.inertia hsame.holder]
  cases op with
  | claim =>
      simp only [Slot.exec] at h
      split at h
      · rename_i hidle
        cases h
        exact moves_acquire hs hidle
      · cases h
        exact .refl
  | compareExchange expected new =>
      have hout : s.compareExchange p expected new = (s', r) := Option.some.inj h
      obtain rfl : (s.compareExchange p expected new).1 = s' := congrArg Prod.fst hout
      unfold InertiaSlot.compareExchange
      split
      · rename_i hword
        rcases hcheck with ⟨rfl, rfl⟩ | ⟨rfl, rfl⟩ | ⟨rfl, rfl, hp⟩
        · exact moves_acquire hs hword
        · exact moves_reclaim hs hword
        · exact moves_release hp
      · exact .refl
  | abandon =>
      cases h
      exact moves_release hcheck
  | storeActive | recordTarget | markPendingIfUntouched | pinInactive =>
      cases h
      exact moves_held hcheck hcheck
  | storeReleasing revision =>
      cases h
      exact moves_held hcheck.1 hcheck.1
  | storeSettled revision =>
      cases h
      exact moves_held hcheck.1 hcheck.1
  | fork routine =>
      cases h
      have hp : s.trace.holder = some p := hcheck.2.1
      rw [slotTurn, hp]
      exact .single (.handOver _ q)
  | _ => exact absurd rfl hquiet

theorem protocol_refines :
    Slot.protocol.Refines Slot.tailIdle slotTurn Moves none := by
  refine Machine.refines_of_performed rfl ?_ ?_ ?_
  · intro cfg cfg' p q c op next r hr _ hpool _ hexec
    exact moves_exec (Logic.inv_of_reachable Slot.rechecking_verified hr)
      (Logic.check_of_reachable Slot.rechecking_verified hr hpool) hexec
  · intro p routine s s' henter
    simp only [Slot.protocol, Option.ite_none_right_eq_some, Option.some.injEq] at henter
    rw [henter.2]
  · intro p s s' next hdrop
    cases hdrop
    rfl

theorem protocol_arbitrated :
    Arbitrated Slot.protocol Slot.tailIdle (fun s => s.inertia = Slot.INERTIA_IDLE) slotTurn := by
  refine arbitrated_of_refines protocol_refines fun cfg hr => ?_
  have hs : Sound cfg.shared := Logic.inv_of_reachable Slot.rechecking_verified hr
  rw [hs.held, slotTurn, Option.map_eq_none_iff]

end Protocol

/-! ## The lease protocol -/

section Leases

open CordisCore.Lease (Root Sound Holding)
open CordisCore.Runtime (FiberId)

variable {u u' : Lease.Fiber} {s s' : Root} {f g : FiberId} {change : Lease.Fiber → Lease.Fiber}

def leaseTurn (u : Lease.Fiber) : Option Turn :=
  u.holder.map fun p => ⟨phase u.inertia, p⟩

theorem leaseTurn_moves (hu : u.holder = some p) (hu' : u'.holder = some p) :
    ReflGen (Moves p) (leaseTurn u) (leaseTurn u') := by
  rw [leaseTurn, leaseTurn, hu, hu']
  exact reflGen_phase p _ _

theorem leaseTurn_ends (hu : u.holder = some p) (hu' : u'.holder = none) :
    ReflGen (Moves p) (leaseTurn u) (leaseTurn u') := by
  rw [leaseTurn, leaseTurn, hu, hu']
  exact .single (.release _)

/-- One Fiber changes; the others stay as they are. -/
theorem moves_setFiber
    (h : ReflGen (Moves p) (leaseTurn (s.fibers f)) (leaseTurn (change (s.fibers f)))) :
    ReflGen (Moves p) (leaseTurn (s.fibers g)) (leaseTurn ((s.setFiber f change).fibers g)) := by
  show ReflGen _ _ (leaseTurn (if g = f then change (s.fibers g) else s.fibers g))
  split
  · rename_i hg
    subst hg
    exact h
  · exact .refl

theorem moves_lease_acquire (hs : Sound s) (hidle : (s.fibers f).inertia = .idle) :
    ReflGen (Moves p) (leaseTurn (s.fibers g)) (leaseTurn ((s.acquire p f).fibers g)) := by
  refine moves_setFiber ?_
  rw [leaseTurn, (hs.fiber f).idle.mpr hidle]
  exact .single .claim

theorem moves_lease_reclaim (hs : Sound s) (hword : (s.fibers f).inertia = .releasing) :
    ReflGen (Moves p) (leaseTurn (s.fibers g))
      (leaseTurn ((s.setFiber f fun u => { u with inertia := .active }).fibers g)) := by
  refine moves_setFiber ?_
  cases hholder : (s.fibers f).holder with
  | none =>
      have hidle := (hs.fiber f).idle.mp hholder
      rw [hword] at hidle
      cases hidle
  | some t =>
      rw [leaseTurn, leaseTurn, hholder, hword]
      exact .single (.resume t)

theorem moves_lease_exec {op : Lease.Op} {c : Lease.Choice} {r : op.Ret} (hs : Sound s)
    (hentitled : Lease.Entitled p s op) (h : Lease.exec p q c op s = some (s', r)) :
    ReflGen (Moves p) (leaseTurn (s.fibers g)) (leaseTurn (s'.fibers g)) := by
  cases op with
  | claim f =>
      simp only [Lease.exec, Option.ite_none_right_eq_some, Option.some.injEq] at h
      rcases h with ⟨hidle, h⟩
      cases h
      exact moves_lease_acquire hs hidle
  | tryClaim f =>
      simp only [Lease.exec] at h
      split at h
      · rename_i hidle
        cases h
        exact moves_lease_acquire hs hidle
      · cases h
        exact .refl
  | reclaim f =>
      simp only [Lease.exec] at h
      split at h
      · rename_i hword
        cases h
        exact moves_lease_reclaim hs hword
      · cases h
        exact .refl
  | storeReleasing f | storeActive f =>
      have hp : (s.fibers f).holder = some p := hentitled.holder
      cases h
      exact moves_setFiber (leaseTurn_moves hp hp)
  | exchangeIdle f =>
      have hp : (s.fibers f).holder = some p := hentitled.holder
      simp only [Lease.exec] at h
      split at h
      · cases h
        exact moves_setFiber (leaseTurn_ends hp rfl)
      · cases h
        exact .refl
  | abandon f =>
      have hp : (s.fibers f).holder = some p := hentitled.holder
      cases h
      exact moves_setFiber (leaseTurn_ends hp rfl)
  | start f routine =>
      have hp : (s.fibers f).holder = some p := hentitled.1.holder
      cases h
      refine moves_setFiber ?_
      rw [leaseTurn, hp]
      exact .single (.handOver _ q)
  | create home =>
      cases h
      -- a Fiber that was not there had no holder
      have hborn : leaseTurn (s.fibers s.nextFiber) = none := by
        rw [hs.unborn _ (Nat.le_refl _)]
        rfl
      show ReflGen _ (leaseTurn ({ s with nextFiber := s.nextFiber + 1 }.fibers g))
        (leaseTurn (({ s with nextFiber := s.nextFiber + 1 }.setFiber s.nextFiber fun _ =>
          { plugin := home, contract := (s.seals home).plugin.contract, creator := some p }).fibers g))
      refine moves_setFiber ?_
      rw [hborn]
      exact .refl
  | takeCreationOwnership f =>
      cases h
      show ReflGen _ _
        (leaseTurn ((s.setFiber f fun u => { u with creationOwned := false }).fibers g))
      refine moves_setFiber ?_
      exact .refl
  | setCreationOwned | kill | claimTerminal | markTerminal | publishDisposeComplete | transition
  | setApplied | closeCreation =>
      cases h
      refine moves_setFiber ?_
      exact .refl
  | waitDisposeComplete =>
      simp only [Lease.exec, Option.ite_none_right_eq_some, Option.some.injEq] at h
      rcases h with ⟨-, h⟩
      cases h
      exact .refl
  | take home =>
      obtain rfl : (s.take p home).1 = s' := congrArg Prod.fst (Option.some.inj h)
      unfold Root.take
      split <;> exact .refl
  | commitChange f home change =>
      obtain rfl : (s.commitChange home change).1 = s' := congrArg Prod.fst (Option.some.inj h)
      unfold Root.commitChange
      split <;> exact .refl
  | intoSuccessor home change =>
      obtain rfl : (s.intoSuccessor p home change).1 = s' :=
        congrArg Prod.fst (Option.some.inj h)
      unfold Root.intoSuccessor
      split <;> exact .refl
  | dropSuperseded successor =>
      simp only [Lease.exec] at h
      split at h <;> cases h <;> exact .refl
  | _ =>
      cases h
      exact .refl

theorem lease_refines (f : FiberId) :
    Lease.protocol.Refines Lease.tailIdle (fun s => leaseTurn (s.fibers f)) Moves none := by
  refine Machine.refines_of_performed rfl ?_ ?_ ?_
  · intro cfg cfg' p q c op next r hr _ hpool _ hexec
    have hdue : Lease.Due p op cfg.shared :=
      Logic.check_of_reachable Lease.leasing_verified hr hpool
    exact moves_lease_exec (Logic.inv_of_reachable Lease.leasing_verified hr) hdue.entitled hexec
  · intro p routine s s' henter
    have hsame : s' = s := by
      cases routine <;> simp only [Lease.protocol, Lease.enter, Option.some.injEq,
        Option.ite_none_right_eq_some, reduceCtorEq] at henter <;> simp_all
    rw [hsame]
  · intro p s s' next hdrop
    cases hdrop
    rfl

theorem lease_arbitrated (f : FiberId) :
    Arbitrated Lease.protocol Lease.tailIdle (fun s => (s.fibers f).inertia = .idle)
      fun s => leaseTurn (s.fibers f) := by
  refine arbitrated_of_refines (lease_refines f) fun cfg hr => ?_
  have hs : Sound cfg.shared := Logic.inv_of_reachable Lease.leasing_verified hr
  rw [leaseTurn, Option.map_eq_none_iff]
  exact (hs.fiber f).idle

end Leases

/-! ## The task protocol -/

section Tasks

variable {s s' : Tasks.Fiber}

/-- The passes of this model do not judge drift. -/
def taskTurn (s : Tasks.Fiber) : Option Turn :=
  s.slot.map fun p => ⟨.settling, p⟩

theorem moves_task_exec {op : Tasks.Op} {c : Tasks.Choice} {r : op.Ret}
    (hentitled : Tasks.Entitled p s op) (h : Tasks.exec p q c op s = some (s', r)) :
    ReflGen (Moves p) (taskTurn s) (taskTurn s') := by
  cases op with
  | claimSlot =>
      simp only [Tasks.exec, Option.ite_none_right_eq_some, Option.some.injEq] at h
      rcases h with ⟨hfree, h⟩
      cases h
      rw [taskTurn, hfree]
      exact .single .claim
  | abandon =>
      cases h
      rw [taskTurn, hentitled.1]
      exact .single (.release _)
  | push cleanup author =>
      obtain rfl : (s.push cleanup author c.refuses).1 = s' :=
        congrArg Prod.fst (Option.some.inj h)
      unfold Tasks.Fiber.push
      split
      · cases cleanup <;> exact .refl
      · exact .refl
  | removeDisposable t claimant =>
      obtain rfl : (s.removeDisposable t claimant).1 = s' :=
        congrArg Prod.fst (Option.some.inj h)
      unfold Tasks.Fiber.removeDisposable
      split <;> exact .refl
  | detach t cleanup drains =>
      cases h
      cases cleanup <;> exact .refl
  | awaitParked | waitCompleted =>
      simp only [Tasks.exec, Option.ite_none_right_eq_some, Option.some.injEq] at h
      rcases h with ⟨-, h⟩
      cases h
      exact .refl
  | join r =>
      simp only [Tasks.exec] at h
      split at h <;> cases h
      exact .refl
  | outcome t =>
      simp only [Tasks.exec, Option.map_eq_some_iff] at h
      rcases h with ⟨_, -, h⟩
      cases h
      exact .refl
  | _ =>
      cases h
      exact .refl

theorem tasks_refine :
    Tasks.protocol.Refines Machine.anyRun taskTurn Moves none := by
  refine Machine.refines_of_performed rfl ?_ ?_ ?_
  · intro cfg cfg' p q c op next r hr _ hpool _ hexec
    have hdue : Tasks.Due p op cfg.shared :=
      Logic.check_of_reachable Tasks.joining_verified hr hpool
    exact moves_task_exec hdue.entitled hexec
  · intro p routine s s' henter
    have hconsume : ∀ t claimant, s.consume t claimant = some s' → taskTurn s' = taskTurn s := by
      intro t claimant hconsume
      unfold Tasks.Fiber.consume at hconsume
      split at hconsume <;> cases hconsume
      rfl
    cases routine with
    | disposeEffect t | disarm t | removeListener t | removePublication t =>
        exact hconsume t _ henter
    | run | register | settle | dispose | markReplacing =>
        cases henter
        rfl
    | task | work | teardown => cases henter
  · intro p s s' next hdrop
    cases hdrop
    rfl

theorem tasks_arbitrated :
    Arbitrated Tasks.protocol Machine.anyRun (fun s => s.slot = none) taskTurn :=
  arbitrated_of_refines tasks_refine fun _ _ => Option.map_eq_none_iff

end Tasks

/-- The four models agree on the slot: in each of them it is the one arbiter. -/
theorem slots_arbitrated :
    (∀ f, Arbitrated Runtime.cordis Runtime.tailIdle (fun s => (s.fibers f).inertia = .idle)
        fun s => fiberTurn (s.fibers f)) ∧
      Arbitrated Slot.protocol Slot.tailIdle (fun s => s.inertia = Slot.INERTIA_IDLE) slotTurn ∧
      (∀ f, Arbitrated Lease.protocol Lease.tailIdle (fun s => (s.fibers f).inertia = .idle)
        fun s => leaseTurn (s.fibers f)) ∧
      Arbitrated Tasks.protocol Machine.anyRun (fun s => s.slot = none) taskTurn :=
  ⟨lifecycle_arbitrated, protocol_arbitrated, lease_arbitrated, tasks_arbitrated⟩

end Arbiter
end CordisCore
