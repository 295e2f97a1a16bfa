import CordisCore.Events.Endings

/-!
# Waterfall — the nested continuations against their reference fold

The fold goes through the effective list once, from the front.  A failure keeps
the identity of the hook whose callback produced it; one that the tail produced
has none.
-/

namespace CordisCore
namespace Events

open Interleaving
open Axes (ScopeNode)

variable {V : Type}

/-! ## The reference -/

/-- This gives back the failure itself, to which only a destructor may have added. -/
def Finish.forwards (finish : Finish V) (failure : InvocationFailure) : Bool :=
  match finish.ending with
  | .carried told => decide (told = failure)
  | _ => false

/-- What comes of an Around whose continuation gave this: a failure that it forwards stays whose it
was, any other is its own. -/
def reply (hook : HookSnap) (resume : Except InvocationFailure V → Finish V)
    (downstream : Except InvocationFailure V) : Except InvocationFailure V :=
  match downstream with
  | .error failure =>
      if (resume downstream).forwards failure then (resume downstream).outcome
      else correlated hook.id (resume downstream).outcome
  | .ok _ => correlated hook.id (resume downstream).outcome

/-- The reference semantics: what a waterfall over these hooks performs, and its outcome. -/
inductive Fold (event : String) :
    List HookSnap → V → List (Performed V) → Except InvocationFailure V → Prop where
  | tail {args : V} (ending : TailEnding V) :
      Fold event [] args [⟨.tail args, ()⟩, ⟨.tailEnded, ending⟩] ending.outcome
  /-- An unclaimable hook is transparent. -/
  | skipped {hook : HookSnap} {hooks : List HookSnap} {args : V} {events : List (Performed V)}
      {out : Except InvocationFailure V} (unregistered : Bool) (said : List String)
      (rest : Fold event hooks args events out) :
      Fold event (hook :: hooks) args
        (claimPath event hook false unregistered ++ ⟨.discard [hook], said⟩ :: events) out
  /-- A Mapper feeds its output downstream. -/
  | mapped {hook : HookSnap} {hooks : List HookSnap} {args mapped : V}
      {events : List (Performed V)} {out : Except InvocationFailure V} {role : ListenerRole}
      (unregistered : Bool) (finish : Finish (hook.kind.role.Value V))
      {value : hook.kind.role.Value V} (plain : hook.kind = .plain role)
      (ok : finish.outcome = .ok value) (fed : adapt hook.kind.role value = .mapper mapped)
      (rest : Fold event hooks mapped events out) :
      Fold event (hook :: hooks) args
        (claimPath event hook true unregistered ++
          ⟨.call hook args, ()⟩ :: ⟨.ended hook, finish⟩ :: events) out
  /-- A Mapper that fails leaves everything downstream uncalled. -/
  | mapperFailed {hook : HookSnap} {hooks : List HookSnap} {args : V} {role : ListenerRole}
      (unregistered : Bool) (finish : Finish (hook.kind.role.Value V))
      {failure : InvocationFailure} (said : List String) (plain : hook.kind = .plain role)
      (failed : finish.outcome = .error failure) :
      Fold event (hook :: hooks) args
        (claimPath event hook true unregistered ++
          [⟨.call hook args, ()⟩, ⟨.ended hook, finish⟩, ⟨.discard hooks, said⟩])
        (.error ((failure.correlate hook.id).withUncalled said))
  /-- An Around that does not call its continuation. -/
  | short {hook : HookSnap} {hooks : List HookSnap} {args : V} (unregistered : Bool)
      (finish : Finish V) (around : hook.kind = .around) :
      Fold event (hook :: hooks) args
        (claimPath event hook true unregistered ++
          [⟨.call hook args, ()⟩, ⟨.moved hook, .ends finish⟩]) (correlated hook.id finish.outcome)
  /-- An Around that calls its continuation is given what comes of the rest. -/
  | around {hook : HookSnap} {hooks : List HookSnap} {args passed : V}
      {events : List (Performed V)} {downstream : Except InvocationFailure V} (unregistered : Bool)
      (resume : Except InvocationFailure V → Finish V) (around : hook.kind = .around)
      (rest : Fold event hooks passed events downstream) :
      Fold event (hook :: hooks) args
        (claimPath event hook true unregistered ++
          ⟨.call hook args, ()⟩ :: ⟨.moved hook, .calls passed⟩ ::
            (events ++ [⟨.resumed hook, resume⟩])) (reply hook resume downstream)

/-! ## Tail failures -/

/-- The tail has just failed with this. -/
def TailFailed (events : List (Performed V)) (failure : InvocationFailure) : Prop :=
  ∃ before ending, events = before ++ [⟨.tailEnded, ending⟩] ∧
    TailEnding.outcome ending = .error failure

/-- The tail failed, the innermost Around forwarded that, and every Around further out answers
otherwise where the failure names that Around than where it names nobody. -/
inductive Blamed : List (Performed V) → Except InvocationFailure V →
    Except InvocationFailure V → Prop where
  | forwarded {events : List (Performed V)} {failure : InvocationFailure} (hook : HookSnap)
      (resume : Except InvocationFailure V → Finish V) (failed : TailFailed events failure)
      (forwards : (resume (.error failure)).forwards failure = true) :
      Blamed (events ++ [⟨.resumed hook, resume⟩])
        (correlated hook.id (resume (.error failure)).outcome) (resume (.error failure)).outcome
  | further {events : List (Performed V)} {named unnamed : Except InvocationFailure V}
      (hook : HookSnap) (resume : Except InvocationFailure V → Finish V)
      (inner : Blamed events named unnamed)
      (differ : correlated hook.id (resume named).outcome ≠ reply hook resume unnamed) :
      Blamed (events ++ [⟨.resumed hook, resume⟩])
        (correlated hook.id (resume named).outcome) (reply hook resume unnamed)

namespace TailFailed

variable {events : List (Performed V)} {failure : InvocationFailure}

theorem prepend (h : TailFailed events failure) (before : List (Performed V)) :
    TailFailed (before ++ events) failure := by
  rcases h with ⟨first, ending, rfl, hfailed⟩
  exact ⟨before ++ first, ending, (List.append_assoc ..).symm, hfailed⟩

/-- The tail's ending is the last event. -/
theorem last {event : Performed V} (h : TailFailed (events ++ [event]) failure) :
    ∃ ending, event = ⟨.tailEnded, ending⟩ ∧ TailEnding.outcome ending = .error failure := by
  rcases h with ⟨before, ending, heq, hfailed⟩
  have hends := List.append_inj' heq rfl
  exact ⟨ending, by simpa using hends.2, hfailed⟩

theorem unique {other : InvocationFailure} (h : TailFailed events failure)
    (hother : TailFailed events other) : failure = other := by
  rcases h with ⟨before, ending, rfl, hfailed⟩
  rcases hother.last with ⟨_, heq, hfailed'⟩
  cases heq
  rw [hfailed, Except.error.injEq] at hfailed'
  exact hfailed'

/-- The tail names nobody. -/
theorem unnamed (h : TailFailed events failure) : failure.registration = none := by
  rcases h with ⟨_, ending, -, hfailed⟩
  cases ending <;> cases hfailed <;> rfl

end TailFailed

namespace Blamed

variable {events : List (Performed V)} {named unnamed : Except InvocationFailure V}

theorem prepend (h : Blamed events named unnamed) (before : List (Performed V)) :
    Blamed (before ++ events) named unnamed := by
  induction h with
  | forwarded hook resume failed forwards =>
      rw [← List.append_assoc]
      exact .forwarded hook resume (failed.prepend before) forwards
  | further hook resume _ differ ih =>
      rw [← List.append_assoc]
      exact .further hook resume ih differ

/-- The last event is an Around's answer. -/
theorem last {all : List (Performed V)} {event : Performed V} (h : Blamed all named unnamed)
    (heq : all = events ++ [event]) :
    ∃ hook resume, event = ⟨.resumed hook, resume⟩ ∧
      ((∃ failure, TailFailed events failure ∧ (resume (.error failure)).forwards failure = true ∧
          named = correlated hook.id (resume (.error failure)).outcome ∧
          unnamed = (resume (.error failure)).outcome) ∨
        ∃ named' unnamed', Blamed events named' unnamed' ∧
          correlated hook.id (resume named').outcome ≠ reply hook resume unnamed' ∧
          named = correlated hook.id (resume named').outcome ∧
          unnamed = reply hook resume unnamed') := by
  cases h with
  | @forwarded before failure hook resume failed forwards =>
      have hends := List.append_inj' heq rfl
      refine ⟨hook, resume, by simpa using hends.2.symm, .inl ⟨failure, ?_, forwards, rfl, rfl⟩⟩
      exact hends.1 ▸ failed
  | @further before named' unnamed' hook resume inner differ =>
      have hends := List.append_inj' heq rfl
      refine ⟨hook, resume, by simpa using hends.2.symm, .inr ⟨named', unnamed', ?_, differ, rfl,
        rfl⟩⟩
      exact hends.1 ▸ inner

theorem not_tailFailed {failure : InvocationFailure} (h : Blamed events named unnamed) :
    ¬ TailFailed events failure := by
  rintro ⟨before, ending, heq, -⟩
  rcases h.last heq with ⟨_, _, hevent, -⟩
  cases hevent

theorem unique {named' unnamed' : Except InvocationFailure V} (h : Blamed events named unnamed)
    (h' : Blamed events named' unnamed') : named' = named ∧ unnamed' = unnamed := by
  induction h generalizing named' unnamed' with
  | forwarded hook resume failed forwards =>
      rcases h'.last rfl with ⟨_, _, heq, ⟨failure, hfailed, -, rfl, rfl⟩ | ⟨_, _, hinner, -⟩⟩
      · cases heq
        obtain rfl := failed.unique hfailed
        exact ⟨rfl, rfl⟩
      · exact absurd failed hinner.not_tailFailed
  | further hook resume inner differ ih =>
      rcases h'.last rfl with ⟨_, _, heq, ⟨failure, hfailed, -⟩ | ⟨_, _, hinner, -, rfl, rfl⟩⟩
      · exact absurd hfailed inner.not_tailFailed
      · cases heq
        rcases ih hinner with ⟨rfl, rfl⟩
        exact ⟨rfl, rfl⟩

end Blamed

/-! ## Failures and their texts -/

namespace InvocationFailure

theorem withUncalled_registration (failure : InvocationFailure) (said : List String) :
    (failure.withUncalled said).registration = failure.registration := by
  unfold withUncalled
  induction said generalizing failure with
  | nil => rfl
  | cons diagnostic said ih => exact ih _

theorem correlate_registration (failure : InvocationFailure) (id : ListenerRegistrationId) :
    (failure.correlate id).registration ≠ none := by
  unfold correlate
  cases hown : failure.registration with
  | none => nofun
  | some other =>
      simp only [Option.isNone_some, Bool.false_eq_true, if_false, hown]
      nofun

/-- A failure that names somebody already is left alone. -/
theorem correlate_of_some {failure : InvocationFailure} (h : failure.registration ≠ none)
    (id : ListenerRegistrationId) : failure.correlate id = failure := by
  unfold correlate
  cases hown : failure.registration with
  | none => exact absurd hown h
  | some other => rfl

end InvocationFailure

theorem correlated_error {outcome : Except InvocationFailure V} {id : ListenerRegistrationId}
    {failure : InvocationFailure} (h : correlated id outcome = .error failure) :
    failure.registration ≠ none := by
  cases outcome with
  | ok value => cases h
  | error own =>
      cases h
      exact own.correlate_registration id

/-- What a panicking destructor adds does not change whom a failure names. -/
theorem dropCallbackContained_error (drops : Drops) :
    ∃ said, ∀ failure : InvocationFailure,
      (dropCallbackContained drops (.error failure) : Except InvocationFailure V) =
        .error (failure.pushStr said) := by
  cases hdrop : drops.callback with
  | none =>
      refine ⟨"", fun failure => ?_⟩
      simp [dropCallbackContained, hdrop, InvocationFailure.pushStr]
  | some diagnostic =>
      refine ⟨"; listener destruction panicked: " ++ diagnostic, fun failure => ?_⟩
      simp [dropCallbackContained, hdrop, InvocationFailure.pushStr, String.append_assoc]

/-- What is forwarded is the failure, with what a destructor adds to its text. -/
theorem Finish.outcome_of_forwards {finish : Finish V} {failure : InvocationFailure}
    (h : finish.forwards failure = true) :
    ∃ said, finish.outcome = .error (failure.pushStr said) := by
  rcases dropCallbackContained_error (V := V) finish.drops with ⟨said, hsaid⟩
  refine ⟨said, ?_⟩
  unfold Finish.forwards at h
  split at h
  · rename_i told hending
    rw [decide_eq_true_eq] at h
    subst h
    rw [Finish.outcome, hending]
    exact hsaid told
  · cases h

/-- A failure that names somebody is told whole, forwarded or not. -/
theorem reply_eq_correlated {hook : HookSnap} {resume : Except InvocationFailure V → Finish V}
    {downstream : Except InvocationFailure V}
    (h : ∀ failure, downstream = .error failure → failure.registration ≠ none) :
    reply hook resume downstream = correlated hook.id (resume downstream).outcome := by
  cases downstream with
  | ok output => rfl
  | error failure =>
      by_cases hforwards : (resume (.error failure)).forwards failure = true
      · rcases Finish.outcome_of_forwards hforwards with ⟨said, hout⟩
        have hnamed : (failure.pushStr said).registration ≠ none := h failure rfl
        have hkept := InvocationFailure.correlate_of_some hnamed hook.id
        simp only [reply, hforwards, if_true, hout, correlated, mapErr, hkept]
      · simp only [reply, hforwards, Bool.false_eq_true, if_false]

theorem reply_of_forwards {hook : HookSnap} {resume : Except InvocationFailure V → Finish V}
    {failure : InvocationFailure} (h : (resume (.error failure)).forwards failure = true) :
    reply hook resume (.error failure) = (resume (.error failure)).outcome := by
  simp only [reply, h, if_true]

theorem reply_of_not_forwards {hook : HookSnap} {resume : Except InvocationFailure V → Finish V}
    {failure : InvocationFailure} (h : ¬ (resume (.error failure)).forwards failure = true) :
    reply hook resume (.error failure) = correlated hook.id (resume (.error failure)).outcome := by
  simp only [reply, h, Bool.false_eq_true, if_false]

/-- The two sides of a blamed dispatch are different. -/
theorem Blamed.differ {events : List (Performed V)} {named unnamed : Except InvocationFailure V}
    (h : Blamed events named unnamed) : named ≠ unnamed := by
  cases h with
  | @forwarded _ failure hook resume failed forwards =>
      rcases Finish.outcome_of_forwards forwards with ⟨said, hout⟩
      intro heq
      have hunnamed : (failure.pushStr said).registration = none := failed.unnamed
      exact correlated_error (heq.trans hout) hunnamed
  | further _ _ _ differ => exact differ

/-! ## What the reference says about a tail failure -/

/-- What the end of the events says the reference comes to. -/
inductive Told : List (Performed V) → Except InvocationFailure V → Prop where
  | tail {events : List (Performed V)} {failure : InvocationFailure}
      (failed : TailFailed events failure) : Told events (.error failure)
  | blamed {events : List (Performed V)} {named unnamed : Except InvocationFailure V}
      (h : Blamed events named unnamed) : Told events unnamed

/-- It is the tail's own failure, or an Around's answer to what was told before. -/
theorem Told.last {events : List (Performed V)} {event : Performed V}
    {out : Except InvocationFailure V} (h : Told (events ++ [event]) out) :
    (∃ ending failure, event = ⟨.tailEnded, ending⟩ ∧ TailEnding.outcome ending = .error failure ∧
      out = .error failure) ∨
    ∃ hook resume out', event = ⟨.resumed hook, resume⟩ ∧ Told events out' ∧
      out = reply hook resume out' := by
  cases h with
  | tail failed =>
      rcases failed.last with ⟨ending, heq, hout⟩
      exact .inl ⟨ending, _, heq, hout, rfl⟩
  | blamed h =>
      rcases h.last rfl with ⟨hook, resume, heq, ⟨failure, hfailed, hforwards, -, rfl⟩ |
        ⟨_, unnamed', hinner, -, -, rfl⟩⟩
      · exact .inr ⟨hook, resume, _, heq, .tail hfailed, (reply_of_forwards hforwards).symm⟩
      · exact .inr ⟨hook, resume, unnamed', heq, .blamed hinner, rfl⟩

/-- An event that is neither of the two says nothing. -/
theorem Told.not_of_last {events : List (Performed V)} {event : Performed V}
    {out : Except InvocationFailure V} (h : Told (events ++ [event]) out)
    (hended : ∀ ending, event ≠ ⟨.tailEnded, ending⟩)
    (hresumed : ∀ hook resume, event ≠ ⟨.resumed hook, resume⟩) : False := by
  rcases h.last with ⟨ending, _, heq, -⟩ | ⟨hook, resume, _, heq, -⟩
  · exact hended ending heq
  · exact hresumed hook resume heq

theorem Fold.of_told {event : String} {hooks : List HookSnap} {args : V}
    {more : List (Performed V)} {out : Except InvocationFailure V}
    (h : Fold event hooks args more out) :
    ∀ {before : List (Performed V)} {told : Except InvocationFailure V},
      Told (before ++ more) told → out = told := by
  induction h with
  | @tail args ending =>
      intro before told htold
      have hsplit : before ++ [⟨.tail args, ()⟩, ⟨.tailEnded, ending⟩] =
          (before ++ [⟨.tail args, ()⟩]) ++ [⟨.tailEnded, ending⟩] := by simp
      rw [hsplit] at htold
      rcases htold.last with ⟨ending', failure, heq, hout, rfl⟩ | ⟨_, _, _, heq, -⟩
      · cases heq
        exact hout
      · cases heq
  | @skipped hook _ _ events _ unregistered said _ ih =>
      intro before told htold
      have hrest : Told ((before ++ claimPath event hook false unregistered ++
          [⟨.discard [hook], said⟩]) ++ events) told := by simpa using htold
      exact ih hrest
  | @mapped hook _ args _ events _ _ unregistered finish _ _ _ _ _ ih =>
      intro before told htold
      have hrest : Told ((before ++ claimPath event hook true unregistered ++
          [⟨.call hook args, ()⟩, ⟨.ended hook, finish⟩]) ++ events) told := by simpa using htold
      exact ih hrest
  | @mapperFailed hook hooks args _ unregistered finish _ said =>
      intro before told htold
      have hrest : Told ((before ++ claimPath event hook true unregistered ++
          [⟨.call hook args, ()⟩, ⟨.ended hook, finish⟩]) ++ [⟨.discard hooks, said⟩]) told := by
        simpa using htold
      -- nothing is told where the last event is neither the tail's ending nor an around's return
      exact (hrest.not_of_last (fun _ heq => by cases heq) (fun _ _ heq => by cases heq)).elim
  | @short hook _ args unregistered finish =>
      intro before told htold
      have hrest : Told ((before ++ claimPath event hook true unregistered ++
          [⟨.call hook args, ()⟩]) ++ [⟨.moved hook, .ends finish⟩]) told := by simpa using htold
      exact (hrest.not_of_last (fun _ heq => by cases heq) (fun _ _ heq => by cases heq)).elim
  | @around hook _ args passed events downstream unregistered resume _ _ ih =>
      intro before told htold
      have hsplit : before ++ (claimPath event hook true unregistered ++
          ⟨.call hook args, ()⟩ :: ⟨.moved hook, .calls passed⟩ ::
            (events ++ [⟨.resumed hook, resume⟩])) =
          ((before ++ claimPath event hook true unregistered ++
            [⟨.call hook args, ()⟩, ⟨.moved hook, .calls passed⟩]) ++ events) ++
              [⟨.resumed hook, resume⟩] := by simp
      rw [hsplit] at htold
      rcases htold.last with ⟨_, _, heq, -⟩ | ⟨_, _, told', heq, hinner, rfl⟩
      · cases heq
      · cases heq
        rw [ih hinner]

/-! ## The program against the reference -/

/-- What the program returns and what the reference says: they differ where the dispatch is
blamed on an Around. -/
inductive Near : Except InvocationFailure V → Except InvocationFailure V →
    List (Performed V) → Prop where
  | same {out : Except InvocationFailure V} {more : List (Performed V)}
      (untold : ∀ before told, ¬ Told (before ++ more) told)
      (named : ∀ failure, out = .error failure → failure.registration ≠ none) : Near out out more
  | tail {failure : InvocationFailure} {more : List (Performed V)}
      (failed : TailFailed more failure) : Near (.error failure) (.error failure) more
  | blamed {named unnamed : Except InvocationFailure V} {more : List (Performed V)}
      (h : Blamed more named unnamed) : Near named unnamed more

namespace Near

variable {result out : Except InvocationFailure V} {more : List (Performed V)}

theorem prepend (h : Near result out more) (before : List (Performed V)) :
    Near result out (before ++ more) := by
  cases h with
  | same untold named =>
      refine .same (fun first told htold => untold (first ++ before) told ?_) named
      rwa [List.append_assoc]
  | tail failed => exact .tail (failed.prepend before)
  | blamed h => exact .blamed (h.prepend before)

/-- An event after which the tail is not to blame. -/
theorem ends {event : Performed V} (hended : ∀ ending, event ≠ ⟨.tailEnded, ending⟩)
    (hresumed : ∀ hook resume, event ≠ ⟨.resumed hook, resume⟩)
    (named : ∀ failure, out = .error failure → failure.registration ≠ none) :
    Near out out (more ++ [event]) := by
  refine .same (fun before told htold => ?_) named
  rw [← List.append_assoc] at htold
  exact htold.not_of_last hended hresumed

/-- An Around's answer is its own where the dispatch is not blamed on anybody. -/
theorem answered {hook : HookSnap} {resume : Except InvocationFailure V → Finish V}
    (hown : reply hook resume out = correlated hook.id (resume result).outcome)
    (hnot : ∀ before named unnamed,
      ¬ Blamed ((before ++ more) ++ [⟨.resumed hook, resume⟩]) named unnamed) :
    Near (correlated hook.id (resume result).outcome) (reply hook resume out)
      (more ++ [⟨.resumed hook, resume⟩]) := by
  rw [hown]
  refine .same (fun before told htold => ?_) fun failure => correlated_error
  rw [← List.append_assoc] at htold
  cases htold with
  | tail failed =>
      rcases failed.last with ⟨_, heq, -⟩
      cases heq
  | blamed h => exact hnot before _ _ h

/-- An Around is given what the program returned, in the reference what the reference says. -/
theorem around (h : Near result out more) (hook : HookSnap)
    (resume : Except InvocationFailure V → Finish V) :
    Near (correlated hook.id (resume result).outcome) (reply hook resume out)
      (more ++ [⟨.resumed hook, resume⟩]) := by
  cases h with
  | same untold named =>
      refine answered (reply_eq_correlated named) fun before _ _ hblamed => ?_
      rcases hblamed.last rfl with ⟨_, _, heq, ⟨_, hfailed, -⟩ | ⟨_, _, hinner, -⟩⟩
      · exact untold before _ (.tail hfailed)
      · exact untold before _ (.blamed hinner)
  | @tail failure _ failed =>
      by_cases hforwards : (resume (.error failure)).forwards failure = true
      · -- the Around is taken for the producer of what it forwards
        rw [reply_of_forwards hforwards]
        exact .blamed (.forwarded hook resume failed hforwards)
      · refine answered (reply_of_not_forwards hforwards) fun before _ _ hblamed => ?_
        have hhere := failed.prepend before
        rcases hblamed.last rfl with ⟨_, _, heq, ⟨_, hfailed, hother, -⟩ | ⟨_, _, hinner, -⟩⟩
        · cases heq
          obtain rfl := hhere.unique hfailed
          exact hforwards hother
        · exact hinner.not_tailFailed hhere
  | blamed h =>
      by_cases hsame : correlated hook.id (resume result).outcome = reply hook resume out
      · refine answered hsame.symm fun before _ _ hblamed => ?_
        have hhere := h.prepend before
        rcases hblamed.last rfl with ⟨_, _, heq, ⟨_, hfailed, -⟩ | ⟨_, _, hinner, hdiffer, -⟩⟩
        · exact hhere.not_tailFailed hfailed
        · cases heq
          rcases hhere.unique hinner with ⟨rfl, rfl⟩
          exact hdiffer hsame
      · exact .blamed (.further hook resume h hsame)

end Near

/-- The program performs what the fold performs, and returns about what the fold says. -/
def Folds (event : String) (hooks : List HookSnap) (args : V) (before : List (Performed V))
    (result : Except InvocationFailure V) (all : List (Performed V)) : Prop :=
  ∃ more out, all = before ++ more ∧ Fold event hooks args more out ∧ Near result out more

theorem ends_waterfallTail (event : String) (args : V) (before : List (Performed V)) :
    Ends (waterfallTail args) (Folds event [] args before) before := by
  refine Program.Along.bind (ends_perform fun () => ?_)
  refine Program.Along.bind (ends_perform fun ending => ?_)
  refine ⟨[⟨.tail args, ()⟩, ⟨.tailEnded, ending⟩], ending.outcome, by simp, .tail ending, ?_⟩
  cases hout : TailEnding.outcome ending with
  | ok output =>
      refine .same (fun first told htold => ?_) fun _ heq => by cases heq
      have hlast : Told ((first ++ [⟨.tail args, ()⟩]) ++ [⟨.tailEnded, ending⟩]) told := by
        simpa using htold
      rcases hlast.last with ⟨_, _, heq, hfailed, -⟩ | ⟨_, _, _, heq, -⟩
      · cases heq
        rw [hout] at hfailed
        cases hfailed
      · cases heq
  | error failure => exact .tail ⟨[⟨.tail args, ()⟩], ending, rfl, hout⟩

/-- Where the last callback ended by itself, its failure names it. -/
theorem Folds.ended {event : String} {hook : HookSnap} {hooks : List HookSnap} {args : V}
    {before all : List (Performed V)} {out : Except InvocationFailure V}
    (more : List (Performed V)) (last : Performed V)
    (hfold : Fold event (hook :: hooks) args (more ++ [last]) out)
    (hnamed : ∀ failure, out = .error failure → failure.registration ≠ none)
    (hended : ∀ ending, last ≠ ⟨.tailEnded, ending⟩)
    (hresumed : ∀ hook resume, last ≠ ⟨.resumed hook, resume⟩)
    (hall : all = before ++ (more ++ [last])) : Folds event (hook :: hooks) args before out all :=
  ⟨more ++ [last], out, hall, hfold, Near.ends hended hresumed hnamed⟩

theorem ends_invokeAround (event : String) {hook : HookSnap} {hooks : List HookSnap}
    (around : hook.kind = .around) (unregistered : Bool)
    {next : V → Prog V (Except InvocationFailure V)}
    (hnext : ∀ passed before, Ends (next passed) (Folds event hooks passed before) before)
    (args : V) (before : List (Performed V)) :
    Ends (invokeAround hook args next)
      (fun outcome => Folds event (hook :: hooks) args before (correlated hook.id outcome))
      (before ++ claimPath event hook true unregistered) := by
  have hnamed : ∀ (finish : Finish V) failure, correlated hook.id finish.outcome = .error failure →
      failure.registration ≠ none := fun finish failure => correlated_error
  refine Program.Along.bind (ends_perform fun () => ?_)
  refine Program.Along.bind (ends_perform fun move => ?_)
  cases move with
  | ends finish =>
      have hfold : Fold event (hook :: hooks) args _ _ := .short unregistered finish around
      refine Folds.ended (claimPath event hook true unregistered ++ [⟨.call hook args, ()⟩])
        ⟨.moved hook, .ends finish⟩ ?_ (hnamed finish) (fun _ heq => by cases heq)
        (fun _ _ heq => by cases heq) ?_
      · simpa using hfold
      · simp
  | calls passed =>
      refine Program.Along.bind ((hnext passed _).mono fun result all hfolds => ?_)
      rcases hfolds with ⟨more, out, rfl, hrest, hnear⟩
      refine Program.Along.bind (ends_perform fun resume => ?_)
      have hfold : Fold event (hook :: hooks) args _ _ := .around unregistered resume around hrest
      have hanswer := (hnear.around hook resume).prepend (claimPath event hook true unregistered ++
        [⟨.call hook args, ()⟩, ⟨.moved hook, .calls passed⟩])
      refine ⟨_, _, ?_, hfold, ?_⟩
      · simp
      · simpa using hanswer

/-- Only a Mapper's value is fed to the continuation downstream. -/
theorem ends_fed {α : Type} {fed : CallbackValue V} {downstream : V → Prog V α}
    {post : α → List (Performed V) → Prop} {before : List (Performed V)}
    (h : ∀ mapped, fed = .mapper mapped → Ends (downstream mapped) post before) :
    Ends (match fed with
      | .mapper mapped => downstream mapped
      | _ => unreachable) post before := by
  cases fed with
  | mapper mapped => exact h mapped rfl
  | observer | responder => exact ends_unreachable

/-- The continuation of one hook performs the fold of its hook, given that of the rest. -/
theorem ends_waterfallHook (event : String) (hook : HookSnap) (hooks : List HookSnap)
    {downstream : V → Prog V (Except InvocationFailure V)}
    (hdownstream : ∀ passed before,
      Ends (downstream passed) (Folds event hooks passed before) before)
    (args : V) (before : List (Performed V)) :
    Ends (waterfallHook event hook hooks downstream args)
      (Folds event (hook :: hooks) args before) before := by
  refine Program.Along.bind ((ends_claimHook event hook before).mono ?_)
  rintro claimed _ ⟨unregistered, rfl⟩
  cases claimed with
  | false =>
      refine Program.Along.bind (Program.Along.bind (ends_perform fun said => ?_))
      refine (hdownstream args _).mono ?_
      rintro result _ ⟨more, out, rfl, hrest, hnear⟩
      have hfold : Fold event (hook :: hooks) args _ _ := .skipped unregistered said hrest
      refine ⟨_, out, ?_, hfold, ?_⟩
      · simp
      · have hbefore := hnear.prepend
          (claimPath event hook false unregistered ++ [⟨.discard [hook], said⟩])
        simpa using hbefore
  | true =>
      simp only [if_true]
      split
      · rename_i role hplain
        refine Program.Along.bind (Program.Along.bind (ends_perform fun () => ?_))
        refine Program.Along.bind (ends_perform fun finish => ?_)
        change Ends _ _ _
        cases hout : finish.outcome with
        | error failure =>
            refine Program.Along.bind (ends_perform fun said => ?_)
            have hfold : Fold event (hook :: hooks) args _ _ :=
              .mapperFailed unregistered finish said hplain hout
            refine Folds.ended (claimPath event hook true unregistered ++
              [⟨.call hook args, ()⟩, ⟨.ended hook, finish⟩]) ⟨.discard hooks, said⟩ ?_ ?_
              (fun _ heq => by cases heq) (fun _ _ heq => by cases heq) ?_
            · simpa using hfold
            · rintro _ ⟨⟩
              -- the failure of a mapper carries its id, so it is not told as the tail's
              have hsame := (failure.correlate hook.id).withUncalled_registration said
              exact fun hnone => failure.correlate_registration hook.id (hsame.symm.trans hnone)
            · simp
        | ok value =>
            refine ends_fed fun mapped hfed => (hdownstream mapped _).mono ?_
            rintro result _ ⟨more, out, rfl, hrest, hnear⟩
            have hfold : Fold event (hook :: hooks) args _ _ :=
              .mapped unregistered finish hplain hout hfed hrest
            refine ⟨_, out, ?_, hfold, ?_⟩
            · simp
            · have hbefore := hnear.prepend (claimPath event hook true unregistered ++
                [⟨.call hook args, ()⟩, ⟨.ended hook, finish⟩])
              simpa using hbefore
      · rename_i haround
        exact Program.Along.bind
          (ends_invokeAround event haround unregistered hdownstream args before)

theorem waterfallChain_fst (event : String) (hooks : List HookSnap) :
    (waterfallChain (V := V) event hooks).1 = hooks := by
  induction hooks with
  | nil => rfl
  | cons hook hooks ih =>
      rw [waterfallChain_cons]
      exact congrArg (hook :: ·) ih

/-- The whole chain performs the fold, and returns about what the fold says. -/
theorem ends_waterfallChain (event : String) (hooks : List HookSnap) :
    ∀ (args : V) (before : List (Performed V)),
      Ends ((waterfallChain event hooks).2 args) (Folds event hooks args before) before := by
  induction hooks with
  | nil => exact ends_waterfallTail event
  | cons hook hooks ih =>
      intro args before
      rw [waterfallChain_cons, waterfallChain_fst]
      exact ends_waterfallHook event hook hooks ih args before

/-! ## Invocations -/

/-- This access says that the hook passed control on. -/
def PassesOn (hook : HookSnap) : Performed V → Prop
  | ⟨.claim _ id, answer⟩ => id = hook.id ∧ answer.1 = false
  | ⟨.ended other, finish⟩ => other = hook ∧ ∃ value, Finish.outcome finish = .ok value
  | ⟨.moved other, move⟩ => other = hook ∧ ∃ passed, move = Move.calls passed
  | _ => False

/-- The hook was transparent, mapped its input, or called its continuation. -/
def PassedOn (events : List (Performed V)) (hook : HookSnap) : Prop :=
  ∃ event ∈ events, PassesOn hook event

def isTail : Performed V → Bool
  | ⟨.tail _, _⟩ => true
  | _ => false

/-- These accesses are about one hook. -/
structure Own (hook : HookSnap) (events : List (Performed V)) : Prop where
  tail : ∀ event ∈ events, isTail event = false
  passes : ∀ event ∈ events, ∀ other, PassesOn other event → other.id = hook.id

theorem Own.append {hook : HookSnap} {events events' : List (Performed V)}
    (h : Own hook events) (h' : Own hook events') : Own hook (events ++ events') where
  tail event hevent := (List.mem_append.mp hevent).elim (h.tail event) (h'.tail event)
  passes event hevent := (List.mem_append.mp hevent).elim (h.passes event) (h'.passes event)

theorem Own.single {hook : HookSnap} {event : Performed V} (htail : isTail event = false)
    (hpasses : ∀ other, PassesOn other event → other.id = hook.id) : Own hook [event] where
  tail _ hevent := List.mem_singleton.mp hevent ▸ htail
  passes _ hevent := List.mem_singleton.mp hevent ▸ hpasses

theorem Own.claimPath (event : String) (hook : HookSnap) (claimed unregistered : Bool) :
    Own (V := V) hook (claimPath event hook claimed unregistered) := by
  have hclaim : Own hook [(⟨.claim event hook.id, (claimed, unregistered)⟩ : Performed V)] :=
    .single rfl fun other h => h.1.symm
  cases unregistered with
  | false => exact hclaim
  | true => exact hclaim.append (.single rfl fun _ h => h.elim)

theorem Own.nil (hook : HookSnap) : Own (V := V) hook [] where
  tail _ hevent := absurd hevent List.not_mem_nil
  passes _ hevent := absurd hevent List.not_mem_nil

/-- The hook passed control on, with these accesses before and after those of the rest. -/
structure Passing (event : String) (hook : HookSnap) (hooks : List HookSnap)
    (events before inner after : List (Performed V)) : Prop where
  split : events = before ++ (inner ++ after)
  rest : ∃ passed out, Fold event hooks passed inner out
  first : Own hook before
  last : Own hook after
  calls : (called before).Sublist [hook.id] ∧ called after = []
  passed : PassedOn before hook

theorem called_claimPath (event : String) (hook : HookSnap) (claimed unregistered : Bool)
    (events : List (Performed V)) :
    called (claimPath event hook claimed unregistered ++ events) = called events := by
  cases unregistered <;> rfl

/-- A hook that was claimed is not transparent. -/
theorem not_passedOn_claimPath (event : String) (hook : HookSnap) (unregistered : Bool) :
    ¬ PassedOn (V := V) (claimPath event hook true unregistered) hook := by
  rintro ⟨other, hmem, hpasses⟩
  cases unregistered with
  | false =>
      obtain rfl := List.mem_singleton.mp hmem
      cases hpasses.2
  | true =>
      rcases List.mem_cons.mp hmem with rfl | hreport
      · cases hpasses.2
      · obtain rfl := List.mem_singleton.mp hreport
        exact hpasses

/-- Nor does it pass control on where none of its later accesses says so. -/
theorem not_passedOn_append {event : String} {hook : HookSnap} {unregistered : Bool}
    {events : List (Performed V)} (h : ∀ other ∈ events, ¬ PassesOn hook other) :
    ¬ PassedOn (claimPath event hook true unregistered ++ events) hook := by
  rintro ⟨other, hmem, hpasses⟩
  rcases List.mem_append.mp hmem with hclaim | hevent
  · exact not_passedOn_claimPath event hook unregistered ⟨other, hclaim, hpasses⟩
  · exact h other hevent hpasses

/-- An Around that called its continuation passed control on, whatever it did afterwards. -/
theorem Passing.around {event : String} {hook : HookSnap} {hooks : List HookSnap}
    {args passed : V} {inner : List (Performed V)} {out : Except InvocationFailure V}
    (unregistered : Bool) (rest : Fold event hooks passed inner out) {last : Performed V}
    (hown : Own hook [last]) (hlast : called [last] = []) :
    Passing event hook hooks (claimPath event hook true unregistered ++
        ⟨.call hook args, ()⟩ :: ⟨.moved hook, .calls passed⟩ :: (inner ++ [last]))
      (claimPath event hook true unregistered ++
        [⟨.call hook args, ()⟩, ⟨.moved hook, .calls passed⟩]) inner [last] where
  split := by simp
  rest := ⟨passed, out, rest⟩
  first := by
    have hcall : Own hook [(⟨.call hook args, ()⟩ : Performed V)] := .single rfl fun _ h => h.elim
    have hmove : Own hook [(⟨.moved hook, .calls passed⟩ : Performed V)] :=
      .single rfl fun _ h => h.1 ▸ rfl
    exact (Own.claimPath event hook true unregistered).append (hcall.append hmove)
  last := hown
  calls := by
    rw [called_claimPath]
    exact ⟨List.Sublist.refl _, hlast⟩
  passed := ⟨⟨.moved hook, .calls passed⟩, by simp, rfl, passed, rfl⟩

/-- What the fold of one hook performs: all on its own, or around the fold of the rest. -/
theorem Fold.cons_inv {event : String} {hook : HookSnap} {hooks : List HookSnap} {args : V}
    {events : List (Performed V)} {out : Except InvocationFailure V}
    (h : Fold event (hook :: hooks) args events out) :
    (Own hook events ∧ (called events).Sublist [hook.id] ∧ ¬ PassedOn events hook) ∨
      ∃ before inner after, Passing event hook hooks events before inner after := by
  have hclaim := fun claimed unregistered =>
    Own.claimPath (V := V) event hook claimed unregistered
  have hcall : ∀ args : V, Own hook [(⟨.call hook args, ()⟩ : Performed V)] := fun args =>
    .single rfl fun _ h => h.elim
  cases h with
  | @skipped _ _ _ events _ unregistered said rest =>
      refine .inr ⟨claimPath event hook false unregistered ++ [⟨.discard [hook], said⟩], events, [],
        by simp, ⟨args, out, rest⟩, ?_, .nil hook, ⟨?_, rfl⟩, ?_⟩
      · exact (hclaim _ _).append (.single rfl fun _ h => h.elim)
      · rw [called_claimPath]
        exact List.nil_sublist _
      · exact ⟨⟨.claim event hook.id, (false, unregistered)⟩, by simp [claimPath], rfl, rfl⟩
  | @mapped _ _ _ mapped events _ _ unregistered finish value plain ok _ rest =>
      refine .inr ⟨claimPath event hook true unregistered ++
        [⟨.call hook args, ()⟩, ⟨.ended hook, finish⟩], events, [], by simp, ⟨mapped, out, rest⟩,
        ?_, .nil hook, ⟨?_, rfl⟩, ?_⟩
      · exact (hclaim _ _).append ((hcall args).append (.single rfl fun _ h => h.1 ▸ rfl))
      · rw [called_claimPath]
        exact List.Sublist.refl _
      · exact ⟨⟨.ended hook, finish⟩, by simp, rfl, value, ok⟩
  | @mapperFailed _ _ _ _ unregistered finish failure said plain failed =>
      refine .inl ⟨?_, ?_, ?_⟩
      · have hended : Own hook [(⟨.ended hook, finish⟩ : Performed V)] :=
          .single rfl fun _ h => h.1 ▸ rfl
        have hdiscard : Own hook [(⟨.discard hooks, said⟩ : Performed V)] :=
          .single rfl fun _ h => h.elim
        exact (hclaim _ _).append ((hcall args).append (hended.append hdiscard))
      · rw [called_claimPath]
        exact List.Sublist.refl _
      -- a mapper that fails hands nothing on
      · apply not_passedOn_append
        intro other hother hpasses
        simp only [List.mem_cons, List.not_mem_nil, or_false] at hother
        rcases hother with rfl | rfl | rfl
        · exact hpasses
        · rcases hpasses with ⟨-, value, hvalue⟩
          rw [failed] at hvalue
          cases hvalue
        · exact hpasses
  | @short _ _ _ unregistered finish around =>
      refine .inl ⟨?_, ?_, ?_⟩
      · exact (hclaim _ _).append ((hcall args).append (.single rfl fun _ h => h.1 ▸ rfl))
      · rw [called_claimPath]
        exact List.Sublist.refl _
      -- the around came back without its continuation
      · apply not_passedOn_append
        intro other hother hpasses
        simp only [List.mem_cons, List.not_mem_nil, or_false] at hother
        rcases hother with rfl | rfl
        · exact hpasses
        · rcases hpasses with ⟨-, passed, hpassed⟩
          cases hpassed
  | around unregistered resume _ rest =>
      exact .inr ⟨_, _, _, .around unregistered rest (.single rfl fun _ h => h.elim) rfl⟩

theorem called_append (events events' : List (Performed V)) :
    called (events ++ events') = called events ++ called events' :=
  List.filterMap_append

/-- Callbacks are invoked in order, each at most once. -/
theorem Fold.called_sublist {event : String} (hooks : List HookSnap) :
    ∀ {args : V} {events : List (Performed V)} {out : Except InvocationFailure V},
      Fold event hooks args events out → (called events).Sublist (hooks.map HookSnap.id) := by
  induction hooks with
  | nil =>
      intro args events out h
      cases h
      exact .slnil
  | cons hook hooks ih =>
      intro args events out h
      rw [List.map_cons]
      rcases h.cons_inv with ⟨-, hcalls, -⟩ | ⟨before, inner, after, hpassing⟩
      · exact hcalls.trans ((List.nil_sublist _).cons_cons _)
      · rcases hpassing.rest with ⟨passed, out', hrest⟩
        rw [hpassing.split, called_append, called_append, hpassing.calls.2, List.append_nil]
        exact hpassing.calls.1.append (ih hrest)

theorem Own.countP_isTail {hook : HookSnap} {events : List (Performed V)} (h : Own hook events) :
    events.countP isTail = 0 :=
  List.countP_eq_zero.mpr fun event hevent htail => by
    rw [h.tail event hevent] at htail
    cases htail

/-- The tail is invoked at most once. -/
theorem Fold.countP_isTail_le {event : String} (hooks : List HookSnap) :
    ∀ {args : V} {events : List (Performed V)} {out : Except InvocationFailure V},
      Fold event hooks args events out → events.countP isTail ≤ 1 := by
  induction hooks with
  | nil =>
      intro args events out h
      cases h
      exact Nat.le_refl 1
  | cons hook hooks ih =>
      intro args events out h
      rcases h.cons_inv with ⟨hown, -⟩ | ⟨before, inner, after, hpassing⟩
      · rw [hown.countP_isTail]
        exact Nat.zero_le 1
      · rcases hpassing.rest with ⟨passed, out', hrest⟩
        rw [hpassing.split, List.countP_append, List.countP_append,
          hpassing.first.countP_isTail, hpassing.last.countP_isTail, Nat.zero_add, Nat.add_zero]
        exact ih hrest

/-- What is about one hook does not say that another passed control on. -/
theorem Own.not_passedOn {hook other : HookSnap} {events : List (Performed V)}
    (h : Own hook events) (hne : other.id ≠ hook.id) : ¬ PassedOn events other := by
  rintro ⟨event, hevent, hpasses⟩
  exact hne (h.passes event hevent other hpasses)

theorem passedOn_append {events events' : List (Performed V)} {hook : HookSnap} :
    PassedOn (events ++ events') hook ↔ PassedOn events hook ∨ PassedOn events' hook := by
  simp only [PassedOn, List.mem_append, or_and_right, exists_or]

/-- The tail runs if and only if every hook passed control on. -/
theorem Fold.tail_iff {event : String} (hooks : List HookSnap) :
    ∀ {args : V} {events : List (Performed V)} {out : Except InvocationFailure V},
      Fold event hooks args events out → (hooks.map HookSnap.id).Nodup →
        ((∃ performed ∈ events, isTail performed = true) ↔ ∀ hook ∈ hooks, PassedOn events hook) := by
  induction hooks with
  | nil =>
      intro args events out h _
      cases h
      simp [isTail]
  | cons hook hooks ih =>
      intro args events out h hnodup
      rw [List.map_cons, List.nodup_cons] at hnodup
      rcases h.cons_inv with ⟨hown, -, hnot⟩ | ⟨before, inner, after, hpassing⟩
      -- the hook stops here: no tail, and it did not pass on
      · constructor
        · rintro ⟨performed, hmem, htail⟩
          rw [hown.tail performed hmem] at htail
          cases htail
        · intro hall
          exact absurd (hall hook (List.mem_cons_self ..)) hnot
      · rcases hpassing.rest with ⟨passed, out', hrest⟩
        have hinner := ih hrest hnodup.2
        have htail : (∃ performed ∈ events, isTail performed = true) ↔
            ∃ performed ∈ inner, isTail performed = true := by
          rw [hpassing.split]
          constructor
          · rintro ⟨performed, hmem, hyes⟩
            rcases List.mem_append.mp hmem with hfirst | hmem
            · rw [hpassing.first.tail performed hfirst] at hyes
              cases hyes
            · rcases List.mem_append.mp hmem with hmem | hlast
              · exact ⟨performed, hmem, hyes⟩
              · rw [hpassing.last.tail performed hlast] at hyes
                cases hyes
          · rintro ⟨performed, hmem, hyes⟩
            refine ⟨performed, ?_, hyes⟩
            exact List.mem_append_right _ (List.mem_append_left _ hmem)
        -- what the hook itself performs passes on nothing of the others
        have hothers : ∀ other ∈ hooks, PassedOn events other ↔ PassedOn inner other := by
          intro other hother
          have hne : other.id ≠ hook.id :=
            fun heq => hnodup.1 (heq ▸ List.mem_map_of_mem hother)
          rw [hpassing.split, passedOn_append, passedOn_append]
          have hfirst := hpassing.first.not_passedOn hne
          have hlast := hpassing.last.not_passedOn hne
          simp [hfirst, hlast]
        rw [htail, hinner, List.forall_mem_cons]
        constructor
        · intro hall
          refine ⟨?_, fun other hother => (hothers other hother).mpr (hall other hother)⟩
          rw [hpassing.split]
          exact passedOn_append.mpr (.inl hpassing.passed)
        · exact fun hall other hother => (hothers other hother).mp (hall.2 other hother)

/-! ## The reference property -/

/-- The dispatch is what the reference says: its result, whom a failure names, and who ran. -/
structure Reference (event : String) (hooks : List HookSnap) (args : V)
    (events : List (Performed V)) (result : Except DispatchError V) : Prop where
  fold : ∃ out, Fold event hooks args events out ∧ result = mapErr DispatchError.invocation out
  once : (called events).Nodup
  tailOnce : events.countP isTail ≤ 1
  tail : (∃ performed ∈ events, isTail performed = true) ↔ ∀ hook ∈ hooks, PassedOn events hook

theorem mapErr_invocation_injective {out out' : Except InvocationFailure V}
    (h : mapErr DispatchError.invocation out = mapErr DispatchError.invocation out') :
    out = out' := by
  cases out <;> cases out' <;> cases h <;> rfl

/-- A waterfall is what the reference says, unless an Around is blamed for a failure of the tail. -/
theorem reference_iff {event : String} {hooks : List HookSnap} {args : V}
    {events : List (Performed V)} {result out : Except InvocationFailure V}
    (hfold : Fold event hooks args events out) (hnear : Near result out events)
    (hnodup : (hooks.map HookSnap.id).Nodup) :
    Reference event hooks args events (mapErr DispatchError.invocation result) ↔
      ¬ ∃ named unnamed, Blamed events named unnamed := by
  have hreference : result = out →
      Reference event hooks args events (mapErr DispatchError.invocation result) := fun heq => {
    fold := ⟨out, hfold, congrArg _ heq⟩
    once := hnodup.sublist (Fold.called_sublist hooks hfold)
    tailOnce := Fold.countP_isTail_le hooks hfold
    tail := Fold.tail_iff hooks hfold hnodup }
  cases hnear with
  | same untold =>
      refine iff_of_true (hreference rfl) ?_
      rintro ⟨named, unnamed, hblamed⟩
      exact untold [] unnamed (.blamed hblamed)
  | tail failed =>
      refine iff_of_true (hreference rfl) ?_
      rintro ⟨named, unnamed, hblamed⟩
      exact hblamed.not_tailFailed failed
  | blamed h =>
      refine iff_of_false ?_ (not_not_intro ⟨_, _, h⟩)
      rintro ⟨⟨other, hother, heq⟩, -⟩
      have hout : other = out := hother.of_told (show Told ([] ++ events) out from .blamed h)
      exact h.differ ((mapErr_invocation_injective heq).trans hout)

/-! ## Finished dispatches -/

/-- What a finished waterfall has performed, and what it is. -/
inductive Flowed (membership : Nat) (E : Event) (routing : Routing) (args : V)
    (result : Except DispatchError V) (log : List (Performed V)) : Prop where
  /-- The preflight refused; nobody was claimed or called. -/
  | refused (error : DispatchError) (first : List (Performed V)) (said : List String)
      (preflighted : Preflighted membership E routing .waterfall (.error error) first)
      (error_returned : result = .error error)
      (performed : log = first ++ [⟨.discard [], said⟩,
        ⟨.publish (.dispatchCompleted .waterfall E.NAME routing .failed), ()⟩])
  | ran (hooks : List HookSnap) (events : List (Performed V))
      (performed : log = ⟨.preflight E routing .waterfall, .ok hooks⟩ :: (events ++
        [⟨.publish (.dispatchCompleted .waterfall E.NAME routing (completion result)), ()⟩]))
      (reference : Reference E.NAME hooks args events result ↔
        ¬ ∃ named unnamed, Blamed events named unnamed)

theorem ends_waterfall (membership : Nat) (E : Event) (routing : Routing) (args : V) :
    Ends (waterfall membership E routing args) (fun result log =>
      (∀ event ∈ log, Admits event.1 event.2) →
        Flowed membership E routing args result log) [] := by
  refine Program.Along.bind (Program.Along.bind ((ends_preflight ..).mono ?_))
  intro chosen first hfirst
  cases chosen with
  | error error =>
      refine Program.Along.bind (ends_perform fun said => ?_)
      refine Program.Along.bind (ends_perform fun () _ => ?_)
      refine .refused error first said hfirst rfl ?_
      exact List.append_assoc ..
  | ok hooks =>
      cases hfirst
      refine Program.Along.bind ((ends_waterfallChain E.NAME hooks args _).mono ?_)
      rintro outcome _ ⟨events, out, rfl, hfold, hnear⟩
      refine Program.Along.bind (ends_perform fun () hadmitted => ?_)
      refine .ran hooks events rfl (reference_iff hfold hnear ?_)
      have hchosen := hadmitted ⟨.preflight E routing .waterfall, .ok hooks⟩ (by simp)
      exact hchosen.1

/-- In every run, a waterfall that finished is what the reference fold says, unless its tail failed,
the innermost Around forwarded that and every Around further out tells the two failures apart. -/
theorem waterfall_reference {cfg : Config (Record V) (Op V) Op.Ret (Answer V)}
    (h : (machine V).recorded.Reachable Machine.anyRun cfg) {p : Party} {membership : Nat}
    {E : Event} {routing : Routing} {args : V} {result : Except DispatchError V}
    (horigin : cfg.shared.origin p = some (.waterfall membership E routing args))
    (hpool : cfg.pool p = some (.pure (.flowed result))) :
    Flowed membership E routing args result (cfg.shared.log p) := by
  have hends : Ends ((machine V).body (.waterfall membership E routing args)) (fun answer log =>
      ∀ result, answer = .flowed result → (∀ event ∈ log, Admits event.1 event.2) →
        Flowed membership E routing args result log) [] := by
    refine Program.Along.bind ((ends_waterfall membership E routing args).mono ?_)
    rintro result log hflowed _ ⟨⟩
    exact hflowed
  exact ended_of_reachable h horigin hpool hends result rfl fun event => admitted_of_log h

/-! ### An Around forwards a failure of the tail -/

/-- The Around calls its continuation, the tail fails, and the Around passes that on. -/
def forwarding : Choice Unit :=
  { idle with moved := .calls (), tailEnded := .error "no tail" }

def forwardingRun : List (Label (Routine Unit) (Choice Unit)) :=
  [.enter 0 (.setGate 5 true), .step 0 9 forwarding,
    .enter 1 (.registerListener 5 [] sampleEvent .around {}),
    .step 1 9 forwarding, .step 1 9 forwarding, .step 1 9 forwarding,
    .enter 2 (.waterfall 0 sampleEvent .unscoped ()),
    .step 2 9 forwarding, .step 2 9 forwarding, .step 2 9 forwarding, .step 2 9 forwarding,
    .step 2 9 forwarding, .step 2 9 forwarding, .step 2 9 forwarding, .step 2 9 forwarding]

theorem forwardingRun_enabled : ((machine Unit).recorded.run (fun _ _ _ _ => true) forwardingRun
    (machine Unit).recorded.start).isSome = true := by
  decide +kernel

def forwardingEnd : Config (Record Unit) (Op Unit) Op.Ret (Answer Unit) :=
  ((machine Unit).recorded.run (fun _ _ _ _ => true) forwardingRun
    (machine Unit).recorded.start).get forwardingRun_enabled

/-- The failure names the Around that forwarded it. -/
def forwardedFailure : InvocationFailure where
  registration := some 0
  kind := .returnedError
  diagnostic := "no tail"

theorem forwardingEnd_pool :
    forwardingEnd.pool 2 = some (.pure (.flowed (.error (.invocation forwardedFailure)))) :=
  rfl

theorem forwardingEnd_reachable :
    (machine Unit).recorded.Reachable Machine.anyRun forwardingEnd :=
  Machine.Reachable.of_run _ (fun _ _ _ _ _ => trivial) forwardingRun .start
    (Option.some_get _).symm

/-! ### An Around replaces it, and one further out recovers -/

/-- The tail of this waterfall fails, and so does an Around that is told so. -/
def replacing : Choice Nat where
  ended
    | .observer => { ending := .returned () }
    | .responder => { ending := .returned none }
    | .mapper => { ending := .returned (8 : Nat) }
    | .around => { ending := .returned (0 : Nat) }
  moved := .calls 4
  resumed := fun _ => { ending := .error "replaced" }
  tailEnded := .error "no tail"

/-- An Around that recovers from what the listener with identity 2 failed with. -/
def recovering : Choice Nat :=
  { replacing with
    resumed := fun
      | .ok output => { ending := .returned output }
      | .error failure =>
          { ending := .returned (if failure.registration = some 2 then 7 else 0) } }

def mixedRun : List (Label (Routine Nat) (Choice Nat)) :=
  [.enter 0 (.setGate 5 true), .step 0 9 replacing,
    .enter 1 (.registerListener 5 [] sampleEvent .around {}),
    .step 1 9 replacing, .step 1 9 replacing, .step 1 9 replacing,
    .enter 2 (.registerListener 5 [] sampleEvent .mapper {}),
    .step 2 9 replacing, .step 2 9 replacing, .step 2 9 replacing,
    .enter 3 (.registerListener 5 [] sampleEvent .around {}),
    .step 3 9 replacing, .step 3 9 replacing, .step 3 9 replacing,
    .enter 4 (.waterfall 0 sampleEvent .unscoped 1), .step 4 9 replacing,
    -- the outer Around, the Mapper and the inner Around
    .step 4 9 replacing, .step 4 9 replacing, .step 4 9 replacing,
    .step 4 9 replacing, .step 4 9 replacing, .step 4 9 replacing,
    .step 4 9 replacing, .step 4 9 replacing, .step 4 9 replacing,
    .step 4 9 replacing, .step 4 9 replacing, .step 4 9 replacing, .step 4 9 recovering,
    .step 4 9 replacing]

theorem mixedRun_enabled : ((machine Nat).recorded.run (fun _ _ _ _ => true) mixedRun
    (machine Nat).recorded.start).isSome = true := by
  decide +kernel

def mixedEnd : Config (Record Nat) (Op Nat) Op.Ret (Answer Nat) :=
  ((machine Nat).recorded.run (fun _ _ _ _ => true) mixedRun
    (machine Nat).recorded.start).get mixedRun_enabled

/-- The outer Around was told of the inner one's failure. -/
theorem mixedEnd_pool : mixedEnd.pool 4 = some (.pure (.flowed (.ok 7))) :=
  rfl

theorem waterfall_reference_sample :
    Flowed 0 sampleEvent .unscoped () (.error (.invocation forwardedFailure))
        (forwardingEnd.shared.log 2) ∧
      Flowed 0 sampleEvent .unscoped 1 (.ok 7) (mixedEnd.shared.log 4) :=
  ⟨waterfall_reference forwardingEnd_reachable rfl forwardingEnd_pool,
    waterfall_reference (Machine.Reachable.of_run _ (fun _ _ _ _ _ => trivial) mixedRun .start
      (Option.some_get _).symm) rfl mixedEnd_pool⟩

/-! ### The blamed dispatch -/

def sampleAround : HookSnap where
  id := 0
  scope := []
  options := {}
  kind := .around

/-- What the waterfall of the run performed between its preflight and its completion. -/
def forwardingEvents : List (Performed Unit) :=
  [⟨.claim "ping" 0, (true, false)⟩, ⟨.call sampleAround (), ()⟩,
    ⟨.moved sampleAround, .calls ()⟩, ⟨.tail (), ()⟩, ⟨.tailEnded, .error "no tail"⟩,
    ⟨.resumed sampleAround, passOn⟩]

/-- The tail failed and every Around forwarded that, yet the failure has an identity. -/
theorem waterfall_names_forwarder :
    (machine Unit).recorded.Reachable Machine.anyRun forwardingEnd ∧
      forwardingEnd.shared.origin 2 = some (.waterfall 0 sampleEvent .unscoped ()) ∧
      forwardingEnd.pool 2 = some (.pure (.flowed (.error (.invocation forwardedFailure)))) ∧
      forwardingEnd.shared.log 2 =
        ⟨.preflight sampleEvent .unscoped .waterfall, .ok [sampleAround]⟩ :: (forwardingEvents ++
          [⟨.publish (.dispatchCompleted .waterfall "ping" .unscoped .failed), ()⟩]) ∧
      ¬ Reference "ping" [sampleAround] () forwardingEvents
        (.error (.invocation forwardedFailure)) := by
  refine ⟨forwardingEnd_reachable, rfl, forwardingEnd_pool, rfl, ?_⟩
  rintro ⟨⟨out, hfold, heq⟩, -⟩
  have htail : TailFailed (forwardingEvents.take 5) (.returned "no tail") :=
    ⟨forwardingEvents.take 4, .error "no tail", rfl, rfl⟩
  have hblamed : Blamed forwardingEvents _ _ := .forwarded sampleAround passOn htail rfl
  obtain rfl := hfold.of_told (show Told ([] ++ forwardingEvents) _ from .blamed hblamed)
  cases heq

end Events
end CordisCore
