import CordisCore.Loader.Ledger

/-!
# Rollback — what an abandoned load leaves behind, and what a returned one does not

A load can be left where it waits for a creation or where it unwinds.  There its
buffer holds exactly the fibers it was given, and the rollback that takes the
buffer over disposes of these, the last one first, one at a time.
-/

namespace CordisCore
namespace Loader

open Interleaving
open Axes (Contracts Context RealmMembership ServiceRealm)
open CordisCore.Runtime (FiberId)

variable {C : Contracts}

/-! ## Creations on a path -/

def createdOf : Event (Op C) Op.Ret → Option FiberId
  | ⟨.spawnStart _ _, .created fiber⟩ => some fiber
  | _ => none

/-- The fibers whose creation was committed, in order. -/
def created (events : Events C) : List FiberId :=
  events.filterMap createdOf

def endOf : Event (Op C) Op.Ret → Option (FiberId × SpawnEnd)
  | ⟨.spawnEnd fiber, ending⟩ => some (fiber, ending)
  | _ => none

/-- The creations that ended, and how. -/
def ends (events : Events C) : List (FiberId × SpawnEnd) :=
  events.filterMap endOf

def handedOut : FiberId × SpawnEnd → Option FiberId
  | (fiber, .delivered) => some fiber
  | _ => none

/-- The fibers that were handed to the load, in the order of their successes. -/
def delivered (events : Events C) : List FiberId :=
  (ends events).filterMap handedOut

theorem created_append (a b : Events C) : created (a ++ b) = created a ++ created b :=
  List.filterMap_append ..

theorem ends_append (a b : Events C) : ends (a ++ b) = ends a ++ ends b :=
  List.filterMap_append ..

theorem delivered_append (a b : Events C) : delivered (a ++ b) = delivered a ++ delivered b := by
  rw [delivered, ends_append, List.filterMap_append]
  rfl

/-! ## Where a load can be left -/

/-- Nothing is under way: the buffer holds what was delivered, every creation ended. -/
def Balanced (events : Events C) : Prop :=
  ∃ entries, buffer events = some entries ∧
    entries.filterMap EntryOutcome.fiberHandle = delivered events ∧
      created events = (ends events).map Prod.fst

/-- The creation of this fiber is under way, and its guard is armed. -/
def Creating (events : Events C) (fiber : FiberId) : Prop :=
  armed events = some fiber ∧ ∃ entries, buffer events = some entries ∧
    entries.filterMap EntryOutcome.fiberHandle = delivered events ∧
      created events = (ends events).map Prod.fst ++ [fiber]

/-- What is known where a load waits or unwinds; it disposes of nothing itself. -/
def Settled (events : Events C) : Op C → Prop
  | .spawnEnd fiber => Creating events fiber
  | .unwind => Balanced events
  | .disposeStart _ => False
  | .disposeEnd _ => False
  | _ => True

/-- An event that touches neither buffer nor creations. -/
theorem Balanced.quiet {events : Events C} (h : Balanced events) {event : Event (Op C) Op.Ret}
    (hbuffer : ∀ b, bufferStep b event = b) (hcreated : createdOf event = none)
    (hend : endOf event = none) : Balanced (events ++ [event]) := by
  rcases h with ⟨entries, hentries, hhandles, hall⟩
  have hsame : created (events ++ [event]) = created events ∧
      ends (events ++ [event]) = ends events := by
    simp [created, ends, hcreated, hend]
  refine ⟨entries, ?_, ?_, ?_⟩
  · rw [buffer_snoc, hentries, hbuffer]
  · rw [hhandles, delivered, delivered, hsame.2]
  · rw [hsame.1, hsame.2, hall]

/-- What a part of a load leaves, whether or not it panicked. -/
abbrev Keeps {α : Type} (x : Prog C α) (events : Events C) : Prop :=
  Program.Along Admits Settled x (fun _ more => Balanced more) events

theorem keeps_realmFor (membership : RealmMembership) (env : RealmEnvironment)
    (policy : RealmPolicy) {events : Events C} (h : Balanced events) :
    Keeps (realmFor membership env policy) events := by
  have hallocate : ∀ answer, Balanced (events ++ [⟨.newServiceRealm membership, answer⟩]) :=
    fun answer => h.quiet (fun _ => rfl) rfl rfl
  cases policy with
  | privately =>
      rw [realmFor]
      refine Program.Along.bind (Program.Along.perform trivial fun answer _ => ?_)
      cases answer <;> exact hallocate _
  | shared label =>
      simp only [realmFor]
      cases env.lookup label with
      | some realm => exact h
      | none =>
          refine Program.Along.bind (Program.Along.perform trivial fun answer _ => ?_)
          cases answer <;> exact hallocate _

theorem keeps_mappings (membership : RealmMembership) (declarations : List IsolateEntry) :
    ∀ (env : RealmEnvironment) {events : Events C}, Balanced events →
      Keeps (mappings membership env declarations) events := by
  induction declarations with
  | nil =>
      intro env events h
      exact h
  | cons declaration declarations ih =>
      intro env events h
      refine Program.Along.bind ((keeps_realmFor membership env declaration.policy h).mono ?_)
      intro out more hmore
      rcases out with _ | ⟨env₁, realm⟩
      · exact hmore
      · refine Program.Along.bind ((ih env₁ hmore).mono ?_)
        intro out more hmore
        rcases out with _ | ⟨env₂, rows⟩
        · exact hmore
        · exact hmore

theorem keeps_place (membership : RealmMembership) (ctx : Context C) (env : RealmEnvironment)
    (declarations : List IsolateEntry) {events : Events C} (h : Balanced events) :
    Keeps (place membership ctx env declarations) events := by
  unfold place
  split
  · exact h
  · refine Program.Along.bind ((keeps_mappings membership declarations env h).mono ?_)
    intro out more hmore
    rcases out with _ | ⟨env₁, rows⟩
    · exact hmore
    · simp only
      split <;> exact hmore

/-- After the round of an entry: the buffer lacks the handle of its outcome at most. -/
def Owes (out : Option (Locals × EntryOutcome)) (events : Events C) : Prop :=
  match out with
  | none => Balanced events
  | some (_, outcome) => ∃ entries, buffer events = some entries ∧
      (entries ++ [outcome]).filterMap EntryOutcome.fiberHandle = delivered events ∧
        created events = (ends events).map Prod.fst

theorem Balanced.owes {events : Events C} (h : Balanced events) (locals : Locals)
    {outcome : EntryOutcome} (hnone : outcome.fiberHandle = none) :
    Owes (some (locals, outcome)) events := by
  rcases h with ⟨entries, hentries, hhandles, hall⟩
  refine ⟨entries, hentries, ?_, hall⟩
  simpa [hnone] using hhandles

/-- A creation ends while its guard is armed. -/
theorem Creating.ended {events : Events C} {fiber : FiberId} (h : Creating events fiber)
    (ending : SpawnEnd) : ∃ entries, buffer (events ++ [⟨.spawnEnd fiber, ending⟩]) = some entries ∧
      entries.filterMap EntryOutcome.fiberHandle ++ (handedOut (fiber, ending)).toList =
          delivered (events ++ [⟨.spawnEnd fiber, ending⟩]) ∧
        created (events ++ [⟨.spawnEnd fiber, ending⟩]) =
          (ends (events ++ [⟨.spawnEnd fiber, ending⟩])).map Prod.fst := by
  rcases h with ⟨-, entries, hentries, hhandles, hall⟩
  refine ⟨entries, ?_, ?_, ?_⟩
  · rw [buffer_snoc, hentries]
    rfl
  · rw [delivered_append, hhandles]
    cases ending <;> rfl
  · rw [created_append, ends_append, hall, List.map_append]
    exact List.append_nil _

theorem owes_spawn (placed : Context C) (prepared : PreparedPlugin) (id : EntryId) (key : String)
    (locals : Locals) {events : Events C} (h : Balanced events) :
    Program.Along Admits Settled (spawn placed prepared)
      (fun result more => match result with
        | none => Balanced more
        | some (.ok handle) => Owes (some (locals, .spawned id key handle)) more
        | some (.error failure) => Owes (some (locals, .failed id key (.spawn failure))) more)
      events := by
  refine Program.Along.bind (Program.Along.perform trivial fun started _ => ?_)
  cases started with
  | unwound => exact h.quiet (fun _ => rfl) rfl rfl
  | refused => exact (h.quiet (fun _ => rfl) rfl rfl).owes locals rfl
  | created fiber =>
      have hcreating : Creating (events ++ [⟨.spawnStart placed prepared, .created fiber⟩])
          fiber := by
        rcases h with ⟨entries, hentries, hhandles, hall⟩
        refine ⟨?_, entries, ?_, ?_, ?_⟩
        · rw [armed_snoc]
          rfl
        · rw [buffer_snoc, hentries]
          rfl
        · rw [delivered_append, hhandles]
          exact (List.append_nil _).symm
        · rw [created_append, ends_append, hall, List.map_append]
          exact congrArg (· ++ [fiber]) (List.append_nil _).symm
      refine Program.Along.bind (Program.Along.perform hcreating fun ended _ => ?_)
      rcases hcreating.ended ended with ⟨entries, hentries, hhandles, hall⟩
      cases ended with
      | unwound => exact ⟨entries, hentries, by simpa [handedOut] using hhandles, hall⟩
      | failed error =>
          exact ⟨entries, hentries,
            by simpa [handedOut, EntryOutcome.fiberHandle, List.filterMap_cons] using hhandles, hall⟩
      | delivered =>
          exact ⟨entries, hentries,
            by simpa [handedOut, EntryOutcome.fiberHandle] using hhandles, hall⟩

theorem owes_loadPlugin (membership : RealmMembership) (ctx : Context C) (id : EntryId)
    (entry : PluginEntry) (locals : Locals) {events : Events C} (h : Balanced events) :
    Program.Along Admits Settled (loadPlugin membership ctx id entry locals) Owes events := by
  cases hkey : entry.resolveKey with
  | none =>
      simp only [loadPlugin, hkey]
      exact h
  | some key =>
      simp only [loadPlugin, hkey]
      refine Program.Along.bind (Program.Along.perform trivial fun resolution _ => ?_)
      have hresolved : Balanced (events ++ [⟨.resolve (entry.request key), resolution⟩]) :=
        h.quiet (fun _ => rfl) rfl rfl
      cases hanswer : Resolution.normalize resolution with
      | none => exact hresolved
      | some answer =>
          rcases answer with failure | (_ | prepared)
          · exact hresolved.owes locals rfl
          · exact hresolved.owes locals rfl
          · refine Program.Along.bind
              ((keeps_place membership ctx locals.realms entry.isolate hresolved).mono ?_)
            intro out more hmore
            rcases out with _ | ⟨realms, placed⟩
            · exact hmore
            · refine Program.Along.bind ((owes_spawn placed prepared id key
                { locals with realms := realms } hmore).mono ?_)
              intro result more hmore
              rcases result with _ | (failure | handle)
              · exact hmore
              · exact hmore
              · exact hmore

theorem owes_loadNode (membership : RealmMembership) (ctx : Context C) (node : PlanNode)
    (locals : Locals) {events : Events C} (h : Balanced events) :
    Program.Along Admits Settled (loadNode membership ctx node locals) Owes events := by
  unfold loadNode
  split
  · exact h.owes _ rfl
  · split
    · exact h.owes _ rfl
    · split
      · exact h.owes _ rfl
      · exact owes_loadPlugin membership ctx node.id _ locals h

theorem settled_unwinding {events : Events C} (h : Balanced events) :
    Program.Along Admits Settled (unwinding : Prog C Answer) (fun _ _ => True) events :=
  Program.Along.bind (Program.Along.perform h fun _ _ => trivial)

theorem settled_loadFrom (plan : LoadPlan) (membership : RealmMembership) (ctx : Context C) :
    ∀ (order : List Nat) (locals : Locals) {events : Events C}, Balanced events →
      Program.Along Admits Settled (loadFrom plan membership ctx order locals)
        (fun _ _ => True) events := by
  intro order
  induction order with
  | nil =>
      intro locals events _
      exact Program.Along.bind (Program.Along.perform trivial fun _ _ => trivial)
  | cons index order ih =>
      intro locals events h
      cases hnode : plan.nodes[index]? with
      | none =>
          simp only [loadFrom, hnode]
          exact settled_unwinding h
      | some node =>
          simp only [loadFrom, hnode]
          refine Program.Along.bind ((owes_loadNode membership ctx node locals h).mono ?_)
          intro out more hmore
          rcases out with _ | ⟨locals', outcome⟩
          · exact settled_unwinding hmore
          · refine Program.Along.bind (Program.Along.perform trivial fun _ _ => ?_)
            rcases hmore with ⟨entries, hentries, hhandles, hall⟩
            refine ih locals' ⟨entries ++ [outcome], ?_, ?_, ?_⟩
            · rw [buffer_snoc, hentries]
              rfl
            · rw [delivered_append, hhandles]
              exact (List.append_nil _).symm
            · rw [created_append, ends_append, hall, List.map_append]
              rfl

theorem settled_load (plan : LoadPlan) (membership : RealmMembership) (ctx : Context C) :
    Program.Along Admits Settled (load plan membership ctx) (fun _ _ => True) [] := by
  rcases plan.executionOrder_preorder with ⟨order, horder, -⟩
  simp only [load, horder]
  refine Program.Along.bind (Program.Along.perform trivial fun _ _ => ?_)
  exact settled_loadFrom plan membership ctx order {} ⟨[], rfl, rfl, rfl⟩

/-! ## What a rollback performs -/

/-- Dispose of these fibers one after the other. -/
def script (C : Contracts) (fibers : List FiberId) : List (Op C) :=
  fibers.flatMap fun fiber => [.disposeStart fiber, .disposeEnd fiber]

/-- The operations so far and the next one begin the script. -/
def Scripted (all : List (Op C)) (events : Events C) (op : Op C) : Prop :=
  events.map Sigma.fst ++ [op] <+: all

theorem along_rollbackFrom {all : List (Op C)} (entries : List EntryOutcome) :
    ∀ {events : Events C}, all = events.map Sigma.fst ++
        script C (entries.filterMap EntryOutcome.fiberHandle) →
      Program.Along Admits (Scripted all) (rollbackFrom entries)
        (fun answer more => answer = .rolledBack ∧ more.map Sigma.fst = all) events := by
  induction entries with
  | nil =>
      intro events hall
      refine ⟨rfl, ?_⟩
      rw [hall]
      exact (List.append_nil _).symm
  | cons entry entries ih =>
      intro events hall
      cases entry with
      | spawned id key handle =>
          have hsplit : all = events.map Sigma.fst ++ .disposeStart handle ::
              .disposeEnd handle :: script C (entries.filterMap EntryOutcome.fiberHandle) := hall
          have hstart : Scripted all events (.disposeStart handle) := by
            rw [hsplit]
            exact ⟨.disposeEnd handle :: script C (entries.filterMap EntryOutcome.fiberHandle), by simp⟩
          have hend : Scripted all (events ++ [⟨.disposeStart handle, ()⟩])
              (.disposeEnd handle) := by
            rw [hsplit]
            exact ⟨script C (entries.filterMap EntryOutcome.fiberHandle), by simp⟩
          refine Program.Along.bind (Program.Along.perform hstart fun _ _ => ?_)
          refine Program.Along.bind (Program.Along.perform hend fun _ _ => ?_)
          apply ih
          rw [hsplit]
          simp
      | group | disabled | pruned | failed => exact ih hall

theorem along_rollback (entries : List EntryOutcome) :
    Program.Along Admits
      (Scripted (script C (entries.filterMap EntryOutcome.fiberHandle).reverse))
      (rollback entries)
      (fun answer more => answer = .rolledBack ∧ more.map Sigma.fst =
        script C (entries.filterMap EntryOutcome.fiberHandle).reverse) [] := by
  apply along_rollbackFrom
  rw [List.filterMap_reverse]
  rfl

end Loader
end CordisCore
