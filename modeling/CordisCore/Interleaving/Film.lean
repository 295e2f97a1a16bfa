import CordisCore.Interleaving.Machine

/-!
# Films — the states a run went through

The filmed machine runs the same programs and keeps, for every operation it
performed, who performed it, what was answered and in which state.  A property of
a run that speaks about earlier instants becomes a property of its film.
-/

namespace CordisCore
namespace Interleaving

/-- One performed operation: the party, the answer and the state before it. -/
structure Shot (σ Op : Type) (Ret : Op → Type) where
  party : Party
  op : Op
  answer : Ret op
  before : σ

/-- The shared state and the film, the latest shot first. -/
structure Filmed (σ Op : Type) (Ret : Op → Type) where
  state : σ
  film : List (Shot σ Op Ret) := []
  /-- The length of the film when the routine of a party began. -/
  begun : Party → Nat := fun _ => 0

namespace Filmed

variable {σ Op : Type} {Ret : Op → Type}

def move (s : Filmed σ Op Ret) (state : σ) : Filmed σ Op Ret :=
  { s with state := state }

/-- A party performed an operation. -/
def shoot (s : Filmed σ Op Ret) (p : Party) (op : Op) (r : Ret op) (state : σ) :
    Filmed σ Op Ret :=
  { s with state := state, film := ⟨p, op, r, s.state⟩ :: s.film }

/-- A party begins a routine. -/
def begin (s : Filmed σ Op Ret) (p : Party) : Filmed σ Op Ret :=
  { s with begun := fun q => if q = p then s.film.length else s.begun q }

/-- What was performed since the routine of a party began. -/
def since (s : Filmed σ Op Ret) (p : Party) : List (Shot σ Op Ret) :=
  s.film.take (s.film.length - s.begun p)

/-- In this order, the latest first, these shots were taken since the routine began. -/
def Shows (s : Filmed σ Op Ret) (p : Party) (shots : List (Shot σ Op Ret)) : Prop :=
  shots.Sublist (s.since p)

section Window

variable {p : Party} {s s' : Filmed σ Op Ret} {newer shots : List (Shot σ Op Ret)}

/-- What was performed later is in the window of every routine that had begun. -/
theorem since_append (hfilm : s'.film = newer ++ s.film) (hbegun : s'.begun p = s.begun p)
    (hle : s.begun p ≤ s.film.length) : s'.since p = newer ++ s.since p := by
  have hlength : s'.film.length - s'.begun p = newer.length + (s.film.length - s.begun p) := by
    rw [hfilm, hbegun, List.length_append]
    omega
  rw [since, hlength, hfilm, List.take_length_add_append]
  rfl

theorem Shows.append (h : s.Shows p shots) {latest : List (Shot σ Op Ret)}
    (hfilm : s'.film = newer ++ s.film) (hbegun : s'.begun p = s.begun p)
    (hle : s.begun p ≤ s.film.length) (hlatest : latest.Sublist newer) :
    s'.Shows p (latest ++ shots) := by
  rw [Shows, since_append hfilm hbegun hle]
  exact hlatest.append h

theorem Shows.later (h : s.Shows p shots) (hfilm : s'.film = newer ++ s.film)
    (hbegun : s'.begun p = s.begun p) (hle : s.begun p ≤ s.film.length) : s'.Shows p shots :=
  h.append hfilm hbegun hle (List.nil_sublist newer)

theorem Shows.shoot (h : s.Shows p shots) (hle : s.begun p ≤ s.film.length) {q : Party} {op : Op}
    {r : Ret op} {state : σ} : (s.shoot q op r state).Shows p (⟨q, op, r, s.state⟩ :: shots) := by
  have hfilm : (s.shoot q op r state).film = [⟨q, op, r, s.state⟩] ++ s.film := rfl
  exact h.append hfilm rfl hle (List.Sublist.refl _)

end Window

end Filmed

namespace Machine

variable {σ Op : Type} {Ret : Op → Type} {Routine Choice Answer : Type}
variable (M : Machine σ Op Ret Routine Choice Answer)

/-- The same machine with a film of what happens. -/
def filmed : Machine (Filmed σ Op Ret) Op Ret Routine Choice Answer where
  init := { state := M.init }
  exec self fresh choice op s :=
    (M.exec self fresh choice op s.state).map fun out =>
      let performed := s.shoot self op out.2 out.1
      (match M.forks op with
        | some _ => performed.begin fresh
        | none => performed, out.2)
  forks := M.forks
  awaits := M.awaits
  dropped self s :=
    (M.dropped self s.state).map fun out => ((s.move out.1).begin self, out.2)
  gone := M.gone
  body := M.body
  enter self routine s :=
    (M.enter self routine s.state).map fun state => (s.move state).begin self

/-- A condition on operations, for filmed runs. -/
def Condition.filmed (ok : Condition σ Op Choice) : Condition (Filmed σ Op Ret) Op Choice :=
  fun p c op s => ok p c op s.state

/-- The configuration without its film. -/
def unfilmed (cfg : Config (Filmed σ Op Ret) Op Ret Answer) : Config σ Op Ret Answer :=
  { shared := cfg.shared.state, pool := cfg.pool }

variable {M}

/-- A step and its filmed counterpart are enabled together and do the same. -/
theorem step_unfilmed (cfg : Config (Filmed σ Op Ret) Op Ret Answer)
    (label : Label Routine Choice) :
    M.step (unfilmed cfg) label = (M.filmed.step cfg label).map unfilmed := by
  have hforks : ∀ op, M.filmed.forks op = M.forks op := fun _ => rfl
  have hawaits : ∀ op, M.filmed.awaits op = M.awaits op := fun _ => rfl
  have hpool : (unfilmed cfg).pool = cfg.pool := rfl
  cases label with
  | step self fresh choice =>
      simp only [Machine.step, hpool]
      cases cfg.pool self with
      | none => rfl
      | some prog =>
          cases prog with
          | pure a => rfl
          | loop body start next => rfl
          | act op next =>
              simp only [hforks]
              cases hop : M.forks op with
              | none =>
                  simp only [filmed, hop, Option.map_map]
                  rfl
              | some routine =>
                  by_cases hfresh : fresh ≠ self ∧ (cfg.pool fresh).isNone = true
                  · simp only [if_pos hfresh, filmed, hop, Option.map_map]
                    rfl
                  · simp only [if_neg hfresh, Option.map_none]
  | enter self routine =>
      simp only [Machine.step, hpool]
      by_cases hvacant : (cfg.pool self).isNone = true
      · simp only [if_pos hvacant, filmed, Option.map_map]
        rfl
      · simp only [if_neg hvacant, Option.map_none]
  | drop self =>
      simp only [Machine.step, hpool]
      cases cfg.pool self with
      | none => rfl
      | some prog =>
          cases prog with
          | pure a => rfl
          | loop body start next => rfl
          | act op next =>
              simp only [hawaits]
              by_cases hwaits : M.awaits op = true
              · simp only [if_pos hwaits, filmed, Option.map_map]
                rfl
              · simp only [if_neg hwaits, Option.map_none]

/-- A filmed run is a run. -/
theorem Reachable.unfilmed {ok : Condition (Filmed σ Op Ret) Op Choice}
    {ok' : Condition σ Op Choice} (hok : ∀ p c op s, ok p c op s → ok' p c op s.state)
    {cfg : Config (Filmed σ Op Ret) Op Ret Answer} (h : M.filmed.Reachable ok cfg) :
    M.Reachable ok' (unfilmed cfg) := by
  induction h with
  | start => exact .start
  | @step cfg cfg' label _ meets moves ih =>
      have hmoves : M.step (Machine.unfilmed cfg) label = some (Machine.unfilmed cfg') := by
        rw [step_unfilmed, moves, Option.map_some]
      refine .step label ih ?_ hmoves
      cases label with
      | step self fresh choice => exact fun op next hop => hok _ _ _ _ (meets op next hop)
      | enter self routine => trivial
      | drop self => trivial

/-- Every run can be filmed. -/
theorem Reachable.filmed {ok : Condition σ Op Choice} {c : Config σ Op Ret Answer}
    (h : M.Reachable ok c) :
    ∃ cfg, M.filmed.Reachable ok.filmed cfg ∧ Machine.unfilmed cfg = c := by
  induction h with
  | start => exact ⟨M.filmed.start, .start, rfl⟩
  | step label _ meets moves ih =>
      rcases ih with ⟨cfg, hcfg, rfl⟩
      rw [step_unfilmed, Option.map_eq_some_iff] at moves
      rcases moves with ⟨cfg', hmoves, rfl⟩
      refine ⟨cfg', .step label hcfg ?_ hmoves, rfl⟩
      cases label with
      | step self fresh choice => exact fun op next hop => meets op next hop
      | enter self routine => trivial
      | drop self => trivial

end Machine

end Interleaving
end CordisCore
