import CordisCore.Custody.View

/-!
# Promises — what an answer says about the window of its call

A call answers at its end, but what it answers was true at an instant of its
window.  The film of a run says at which one.
-/

namespace CordisCore
namespace Runtime

open Interleaving

/-! ## What a free slot promises -/

/-- No pass is in progress: the state is a stable one and the parked failure belongs to it. -/
structure Settled (v : View) : Prop where
  state : v.state ≠ .loading ∧ v.state ≠ .unloading
  error : v.alive = true → (v.error.isSome ↔ v.state = .failed)
  dead : v.alive = false ↔ v.state = .disposed
  unapplied : v.applied = false → v.state = .pending ∨ v.state = .disposed

/-- The barrier of the terminal disposal is published. -/
def Complete (f : FiberId) (s : Root) : Prop :=
  (s.fibers f).flags .disposeComplete = true

/-! ## Films in order -/

/-- Every instant leads onward to all later ones. -/
def Flows : Film → Root → Prop
  | [], _ => True
  | shot :: earlier, now =>
      (∀ f, (shot.before.fibers f).Onward (now.fibers f)) ∧ Flows earlier shot.before

theorem Flows.later {film : Film} {s s' : Root} (h : Flows film s)
    (hs : ∀ f, (s.fibers f).Onward (s'.fibers f)) : Flows film s' := by
  cases film with
  | nil => trivial
  | cons shot earlier => exact ⟨fun f => (h.1 f).trans (hs f), h.2⟩

/-- What every apply finds in order when it starts. -/
structure Due (f : FiberId) (target : SemanticTarget) (now : Root) (film : Film) : Prop where
  /-- It is the first apply, or there is a cause since the latest. -/
  caused : lastApply f film = none ∨ Caused f film
  /-- The initial pass of the creator has won the slot. -/
  owned : Owned f film
  /-- Every edge of the target is assigned. -/
  present : target.hasMissing = false
  loading : (now.fibers f).state = .loading
  alive : (now.fibers f).flags .alive = true

/-- Every apply on the film was due. -/
def Applies : Film → Prop
  | [] => True
  | shot :: earlier =>
      (∀ f target, applied f shot = some target → Due f target shot.before earlier) ∧
        Applies earlier

/-! ## Instants -/

/-- The slot was free at `look`; then a revision committed by `read` was found acknowledged at
`ack`, and until `last` no state was published. -/
structure Quiescent (f : FiberId) (state : FiberState)
    (look read ack last : Shot Root Op Op.Ret) : Prop where
  idle : (look.before.fibers f).inertia = .idle
  state : (look.before.fibers f).state = state
  settled : f ≠ 0 → Settled (look.before.fibers f).view
  acknowledged : (ack.before.fibers f).recheckSettled = (read.before.fibers f).recheckCommitted
  still : (last.before.fibers f).sequence = (look.before.fibers f).sequence

/-- The party held the slot and found the Fiber alive and settled. -/
structure Vouched (p : Party) (f : FiberId) (shot : Shot Root Op Op.Ret) : Prop where
  held : p ∈ (shot.before.fibers f).trace.holders
  alive : (shot.before.fibers f).flags .alive = true
  settled : Settled (shot.before.fibers f).view

/-- The slot was given away by its holder, with the Fiber alive and settled. -/
structure Handed (p : Party) (f : FiberId) (failure : Option PluginFailure)
    (shot : Shot Root Op Op.Ret) : Prop where
  vouched : Vouched p f shot
  op : shot.party = p ∧ shot.op = .on f .release
  away : (shot.before.fibers f).inertia = .releasing
  parked : (shot.before.fibers f).error = failure

/-- The holder performed the operation on this view. -/
structure Sees (p : Party) (f : FiberId) (op : FiberOp) (v : View)
    (shot : Shot Root Op Op.Ret) : Prop where
  op : shot.party = p ∧ shot.op = .on f op
  held : p ∈ (shot.before.fibers f).trace.holders
  view : (shot.before.fibers f).view = v

/-- The release that gave the slot away with this view. -/
structure Hand (p : Party) (f : FiberId) (v : View) (shot : Shot Root Op Op.Ret) : Prop
    extends Sees p f .release v shot where
  away : (shot.before.fibers f).inertia = .releasing

section Sees

variable {p : Party} {f : FiberId} {op : FiberOp} {v : View} {shot : Shot Root Op Op.Ret}

theorem Sees.vouched (h : Sees p f op v shot) (hsettled : Settled v) (halive : v.alive = true) :
    Vouched p f shot :=
  ⟨h.held, (congrArg View.alive h.view).trans halive, h.view.symm ▸ hsettled⟩

theorem Hand.handed (h : Hand p f v shot) (hsettled : Settled v) (halive : v.alive = true) :
    Handed p f v.error shot :=
  ⟨h.vouched hsettled halive, h.op, h.away, congrArg View.error h.view⟩

end Sees

/-- The party's own commit of a replacement. -/
def Commits (p : Party) (f : FiberId) (shot : Shot Root Op Op.Ret) : Prop :=
  shot.party = p ∧ Replaces f shot

/-- The party's own commit of an updated input. -/
def Changes (p : Party) (f : FiberId) (shot : Shot Root Op Op.Ret) : Prop :=
  shot.party = p ∧ shot.op = .commitChange f

/-- The party allocated this Fiber. -/
def Bears (p : Party) (edges : List DependencyEdge) (f : FiberId)
    (shot : Shot Root Op Op.Ret) : Prop :=
  ∃ before, shot = ⟨p, .allocate edges, f, before⟩

/-- The party did this to the Fiber. -/
def Did (p : Party) (f : FiberId) (op : FiberOp) (shot : Shot Root Op Op.Ret) : Prop :=
  shot.party = p ∧ shot.op = .on f op

/-- The party gave up the slot of a Fiber that was alive and settled, ended the creation and
delivered the handle. -/
structure HandsOff (p : Party) (f : FiberId) (hand opened delivered : Shot Root Op Op.Ret) :
    Prop where
  vouched : Vouched p f hand
  hand : Did p f .abandon hand
  opened : Did p f (.store .creationPending false) opened
  delivered : Did p f .deliver delivered

/-- The initial apply of a fresh Fiber failed under its slot. -/
structure Fails (p : Party) (f : FiberId) (failure : PluginFailure)
    (shot : Shot Root Op Op.Ret) : Prop where
  vouched : Vouched p f shot
  state : (shot.before.fibers f).state = .failed
  parked : (shot.before.fibers f).error = some failure

/-! ## Answers -/

/-- What `ready` promises. -/
def Readied (p : Party) (f : FiberId) (s : Reel) : Except ReadyError FiberState → Prop
  | .ok state => (state = .active ∨ state = .pending ∨ state = .disposed) ∧
      ∃ look read ack last, s.Shows p [last, ack, read, look] ∧
        Quiescent f state look read ack last
  | .error (.apply failure) => ∃ look read ack last park,
      s.Shows p [park, last, ack, read, look] ∧ Quiescent f .failed look read ack last ∧
        (park.before.fibers f).error = some failure
  | .error .recursion => True

/-- What a spawn promises. -/
def Born (p : Party) (s : Reel) : Except SpawnError FiberId → Prop
  | .ok f => ∃ edges born hand opened delivered, s.Shows p [delivered, opened, hand, born] ∧
      Bears p edges f born ∧ HandsOff p f hand opened delivered
  | .error (.initialApply failure) => ∃ edges f born fail, s.Shows p [fail, born] ∧
      Bears p edges f born ∧ Fails p f failure fail ∧ Complete f s.state
  | .error _ => True

/-- What a restart promises. -/
def Restarted (p : Party) (f : FiberId) (s : Reel) : Except RestartError Unit → Prop
  | .ok () => ∃ commit hand, s.Shows p [hand, commit] ∧ Commits p f commit ∧ Handed p f none hand
  | .error (.apply failure) => ∃ commit hand, s.Shows p [hand, commit] ∧ Commits p f commit ∧
      Handed p f (some failure) hand
  | .error _ => True

/-- What an update promises. -/
def Updated (p : Party) (f : FiberId) (s : Reel) : Except UpdateError UpdateOutcome → Prop
  | .ok (.committed state) => ∃ commit change hand, s.Shows p [hand, change, commit] ∧
      Commits p f commit ∧ Changes p f change ∧ Handed p f none hand ∧
        (hand.before.fibers f).state = state
  | .error (.apply failure) => ∃ commit change hand, s.Shows p [hand, change, commit] ∧
      Commits p f commit ∧ Changes p f change ∧ Handed p f (some failure) hand
  | _ => True

/-- What an era replacement promises. -/
def Swapped (p : Party) (f : FiberId) (s : Reel) : Except EraSwapError FiberId → Prop
  | .ok g => Complete f s.state ∧ ∃ edges born hand opened delivered,
      s.Shows p [delivered, opened, hand, born] ∧ Bears p edges g born ∧
        Complete f born.before ∧ edges = (born.before.fibers f).edges ∧
          HandsOff p g hand opened delivered
  | .error (.successorApply failure) => Complete f s.state ∧ ∃ edges g born fail,
      s.Shows p [fail, born] ∧ Bears p edges g born ∧ Complete f born.before ∧
        Fails p g failure fail ∧ Complete g s.state
  | .error .successorLost | .error .inputDropPanic => Complete f s.state
  | .error _ => True

/-- What a typed removal promises. -/
def Removed (p : Party) (s : Reel) : RemovalOutcome → Prop
  | .removed group _ => ∃ ctx key before, s.Shows p
      [⟨p, .detachForRemoval ctx key, some (some (group, before.groups group)), before⟩] ∧
        before.allocationOf key = some group ∧ ∀ f ∈ before.groups group, Complete f s.state
  | _ => True

/-- What an answer promises. -/
def Promised (p : Party) (s : Reel) : Answer → Prop
  | .spawned result => Born p s result
  | .ready f result => Readied p f s result
  | .disposed f => Complete f s.state
  | .restarted f result => Restarted p f s result
  | .updated f result => Updated p f s result
  | .swapped f result => Swapped p f s result
  | .removed outcome => Removed p s outcome
  | _ => True

/-! ## Promises are kept -/

/-- A later state of the run, for a routine in progress. -/
structure Later (p : Party) (s s' : Reel) : Prop where
  film : ∃ newer, s'.film = newer ++ s.film
  begun : s'.begun p = s.begun p
  window : s.begun p ≤ s.film.length
  onward : ∀ f, (s.state.fibers f).Onward (s'.state.fibers f)

/-- Such a shot was taken between the two states. -/
def Lately (P : Shot Root Op Op.Ret → Prop) (s s' : Reel) : Prop :=
  ∃ newer, s'.film = newer ++ s.film ∧ ∃ shot ∈ newer, P shot

section Later

variable {P Q : Shot Root Op Op.Ret → Prop} {t : Reel}

theorem Lately.mono {s s' : Reel} (h : Lately P s s') (hPQ : ∀ shot, P shot → Q shot) :
    Lately Q s s' := by
  rcases h with ⟨newer, hfilm, shot, hshot, hP⟩
  exact ⟨newer, hfilm, shot, hshot, hPQ shot hP⟩

theorem Lately.after {s s' : Reel} (h : Lately P s' t) (hs : ∃ newer, s'.film = newer ++ s.film) :
    Lately P s t := by
  rcases h with ⟨newer, hfilm, shot, hshot, hP⟩
  rcases hs with ⟨older, hfilm'⟩
  refine ⟨newer ++ older, ?_, shot, List.mem_append_left _ hshot, hP⟩
  rw [hfilm, hfilm', List.append_assoc]

theorem Lately.before {s s' : Reel} (h : Lately P s s') (ht : ∃ newer, t.film = newer ++ s'.film) :
    Lately P s t := by
  rcases h with ⟨newer, hfilm, shot, hshot, hP⟩
  rcases ht with ⟨latest, hfilm'⟩
  refine ⟨latest ++ newer, ?_, shot, List.mem_append_right _ hshot, hP⟩
  rw [hfilm', hfilm, List.append_assoc]

variable {p : Party} {f : FiberId} {s s' : Reel} {shots : List (Shot Root Op Op.Ret)}

theorem Later.refl (h : ∀ p, s.begun p ≤ s.film.length) : Later p s s :=
  ⟨⟨[], rfl⟩, rfl, h p, fun _ => .refl _⟩

theorem Later.trans {s'' : Reel} (h : Later p s s') (h' : Later p s' s'') : Later p s s'' := by
  rcases h.film with ⟨newer, hfilm⟩
  rcases h'.film with ⟨latest, hfilm'⟩
  refine ⟨⟨latest ++ newer, ?_⟩, h'.begun.trans h.begun, h.window,
    fun f => (h.onward f).trans (h'.onward f)⟩
  rw [hfilm', hfilm, List.append_assoc]

theorem Later.shoot {mid : Reel} (h : Later p s mid) {op : Op} {r : op.Ret} {state : Root}
    (honward : ∀ f, (mid.state.fibers f).Onward (state.fibers f)) :
    Later p s (mid.shoot p op r state) := by
  rcases h.film with ⟨newer, hfilm⟩
  refine ⟨⟨⟨p, op, r, mid.state⟩ :: newer, ?_⟩, h.begun, h.window,
    fun f => (h.onward f).trans (honward f)⟩
  show _ :: mid.film = _
  rw [hfilm]
  rfl

theorem Later.shows (h : Later p s s') (hs : s.Shows p shots) : s'.Shows p shots := by
  rcases h.film with ⟨newer, hfilm⟩
  exact hs.later hfilm h.begun h.window

/-- What was shot lately comes on top of what the window showed before. -/
theorem Lately.shows (h : Lately P s s') (hl : Later p s s') (hs : s.Shows p shots) :
    ∃ shot, P shot ∧ s'.Shows p (shot :: shots) := by
  rcases h with ⟨newer, hfilm, shot, hshot, hP⟩
  have hsingle : List.Sublist [shot] newer := List.singleton_sublist.mpr hshot
  exact ⟨shot, hP, hs.append hfilm hl.begun hl.window hsingle⟩

theorem Later.complete (h : Later p s s') (hs : Complete f s.state) : Complete f s'.state :=
  (h.onward f).complete hs

theorem Later.readied (h : Later p s s') {result : Except ReadyError FiberState}
    (hs : Readied p f s result) : Readied p f s' result := by
  cases result with
  | ok state =>
      rcases hs with ⟨hstate, look, read, ack, last, hshows, hquiet⟩
      exact ⟨hstate, look, read, ack, last, h.shows hshows, hquiet⟩
  | error refusal =>
      cases refusal with
      | recursion => trivial
      | apply failure =>
          rcases hs with ⟨look, read, ack, last, park, hshows, hquiet⟩
          exact ⟨look, read, ack, last, park, h.shows hshows, hquiet⟩

theorem Later.born (h : Later p s s') {result : Except SpawnError FiberId}
    (hs : Born p s result) : Born p s' result := by
  cases result with
  | ok g =>
      rcases hs with ⟨edges, born, hand, opened, delivered, hshows, hborn⟩
      exact ⟨edges, born, hand, opened, delivered, h.shows hshows, hborn⟩
  | error refusal =>
      cases refusal with
      | initialApply failure =>
          rcases hs with ⟨edges, g, born, fail, hshows, hborn, hfail, hcomplete⟩
          exact ⟨edges, g, born, fail, h.shows hshows, hborn, hfail, h.complete hcomplete⟩
      | inactiveContext | interrupted => trivial

theorem Later.restarted (h : Later p s s') {result : Except RestartError Unit}
    (hs : Restarted p f s result) : Restarted p f s' result := by
  cases result with
  | ok _ =>
      rcases hs with ⟨commit, hand, hshows, hkept⟩
      exact ⟨commit, hand, h.shows hshows, hkept⟩
  | error refusal =>
      cases refusal with
      | apply failure =>
          rcases hs with ⟨commit, hand, hshows, hkept⟩
          exact ⟨commit, hand, h.shows hshows, hkept⟩
      | closed | recursion => trivial

theorem Later.updated (h : Later p s s') {result : Except UpdateError UpdateOutcome}
    (hs : Updated p f s result) : Updated p f s' result := by
  cases result with
  | ok outcome =>
      cases outcome with
      | vetoed => trivial
      | committed state =>
          rcases hs with ⟨commit, change, hand, hshows, hkept⟩
          exact ⟨commit, change, hand, h.shows hshows, hkept⟩
  | error refusal =>
      cases refusal with
      | apply failure =>
          rcases hs with ⟨commit, change, hand, hshows, hkept⟩
          exact ⟨commit, change, hand, h.shows hshows, hkept⟩
      | pluginContractMismatch | closed | recursion | control | admissionLost => trivial

theorem Later.swapped (h : Later p s s') {result : Except EraSwapError FiberId}
    (hs : Swapped p f s result) : Swapped p f s' result := by
  cases result with
  | ok successor =>
      rcases hs with ⟨hcomplete, edges, born, hand, opened, delivered, hshows, hkept⟩
      exact ⟨h.complete hcomplete, edges, born, hand, opened, delivered, h.shows hshows, hkept⟩
  | error refusal =>
      cases refusal with
      | successorApply failure =>
          rcases hs with ⟨hcomplete, edges, g, born, fail, hshows, hborn, hbefore, hfail, hend⟩
          exact ⟨h.complete hcomplete, edges, g, born, fail, h.shows hshows, hborn, hbefore,
            hfail, h.complete hend⟩
      | successorLost | inputDropPanic => exact h.complete hs
      | pluginContractMismatch | closed | recursion => trivial

theorem Later.removed (h : Later p s s') {outcome : RemovalOutcome} (hs : Removed p s outcome) :
    Removed p s' outcome := by
  cases outcome with
  | removed group count =>
      rcases hs with ⟨ctx, key, before, hshows, hallocation, hcomplete⟩
      exact ⟨ctx, key, before, h.shows hshows, hallocation,
        fun g hg => h.complete (hcomplete g hg)⟩
  | recursion | absent => trivial

theorem Later.promised (h : Later p s s') {answer : Answer} (hs : Promised p s answer) :
    Promised p s' answer := by
  cases answer with
  | spawned result => exact h.born hs
  | ready g result => exact h.readied hs
  | disposed g => exact h.complete hs
  | restarted g result => exact h.restarted hs
  | updated g result => exact h.updated hs
  | swapped g result => exact h.swapped hs
  | removed outcome => exact h.removed hs
  | _ => trivial

/-- The window of a call that ended shows what its answer promises. -/
structure Honoured (p : Party) (answer : Answer) (s : Reel) : Prop where
  window : s.begun p ≤ s.film.length
  promised : Promised p s answer

theorem Honoured.after {answer : Answer} (h : Honoured p answer s) {newer : List (Shot Root Op Op.Ret)}
    (hfilm : s'.film = newer ++ s.film) (hbegun : s'.begun p = s.begun p)
    (honward : ∀ f, (s.state.fibers f).Onward (s'.state.fibers f)) : Honoured p answer s' := by
  refine ⟨?_, Later.promised ⟨⟨newer, hfilm⟩, hbegun, h.window, honward⟩ h.promised⟩
  rw [hbegun, hfilm, List.length_append]
  exact Nat.le_trans h.window (Nat.le_add_left _ _)

end Later

end Runtime
end CordisCore
