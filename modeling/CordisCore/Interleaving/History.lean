import CordisCore.Interleaving.Machine

/-!
# Histories — what the parties of a run have performed

The recorded machine runs the same programs and remembers every operation with
its answer.  What one party performed is a path through its own program, so a
property of all paths of a routine holds in every interleaving.
-/

namespace CordisCore
namespace Interleaving

/-! ## Paths through a program -/

/-- One performed operation and its answer. -/
abbrev Event (Op : Type) (Ret : Op → Type) :=
  (op : Op) × Ret op

namespace Program

variable {Op : Type} {Ret : Op → Type} {α β γ : Type}

/-- Performing these events takes the program to its rest. -/
inductive Arrives : Program Op Ret α → List (Event Op Ret) → Program Op Ret α → Prop where
  | here (x : Program Op Ret α) : Arrives x [] x
  | act {op : Op} {next : Ret op → Program Op Ret α} {events : List (Event Op Ret)}
      {y : Program Op Ret α} (r : Ret op) (h : Arrives (next r) events y) :
      Arrives (.act op next) (⟨op, r⟩ :: events) y
  | loop {β γ : Type} {body : γ → Program Op Ret (γ ⊕ β)} {start : γ}
      {next : β → Program Op Ret α} {events : List (Event Op Ret)} {y : Program Op Ret α}
      (h : Arrives (unfoldLoop body start next) events y) :
      Arrives (.loop body start next) events y

/-- A complete path: these events, then this answer. -/
abbrev Runs (x : Program Op Ret α) (events : List (Event Op Ret)) (a : α) : Prop :=
  Arrives x events (.pure a)

theorem Arrives.trans {x y z : Program Op Ret α} {events events' : List (Event Op Ret)}
    (h : Arrives x events y) (h' : Arrives y events' z) : Arrives x (events ++ events') z := by
  induction h with
  | here x => exact h'
  | act r _ ih => exact .act r (ih h')
  | loop _ ih => exact .loop (ih h')

theorem Arrives.step {x : Program Op Ret α} {events : List (Event Op Ret)} {op : Op}
    {next : Ret op → Program Op Ret α} (h : Arrives x events (.act op next)) (r : Ret op) :
    Arrives x (events ++ [⟨op, r⟩]) (next r) :=
  h.trans (.act r (.here _))

theorem Arrives.unfold {x : Program Op Ret α} {events : List (Event Op Ret)}
    {body : γ → Program Op Ret (γ ⊕ β)} {start : γ} {next : β → Program Op Ret α}
    (h : Arrives x events (.loop body start next)) :
    Arrives x events (unfoldLoop body start next) := by
  have hnext := h.trans (.loop (.here (unfoldLoop body start next)))
  rwa [List.append_nil] at hnext

/-! ## Inversion -/

theorem runs_pure {a b : α} {events : List (Event Op Ret)}
    (h : Runs (Pure.pure a : Program Op Ret α) events b) : events = [] ∧ a = b := by
  cases h
  exact ⟨rfl, rfl⟩

theorem runs_perform {op : Op} {events : List (Event Op Ret)} {r : Ret op}
    (h : Runs (perform op : Program Op Ret (Ret op)) events r) : events = [⟨op, r⟩] := by
  cases h with
  | act r' h =>
      have hend := runs_pure h
      rw [hend.1, hend.2]

/-- A path through a sequence splits where the first part is done. -/
theorem Arrives.split {z y : Program Op Ret β} {events : List (Event Op Ret)}
    (h : Arrives z events y) : ∀ {x : Program Op Ret α} {f : α → Program Op Ret β} {b : β},
      z = x.bind f → y = .pure b →
        ∃ a before after, events = before ++ after ∧ Runs x before a ∧ Runs (f a) after b := by
  induction h with
  | here z =>
      intro x f b hx hend
      cases x with
      | pure a =>
          have hfa : f a = .pure b := hx.symm.trans hend
          exact ⟨a, [], [], rfl, .here _, hfa ▸ .here _⟩
      | act op next => cases hx.symm.trans hend
      | loop body start next => cases hx.symm.trans hend
  | @act op next events y r hrest ih =>
      intro x f b hx hend
      cases x with
      | pure a =>
          have hfa : f a = .act op next := hx.symm
          subst hend
          exact ⟨a, [], _, rfl, .here _, hfa ▸ .act r hrest⟩
      | act op' next' =>
          cases hx
          rcases ih rfl hend with ⟨a, before, after, rfl, hx', hf⟩
          exact ⟨a, ⟨op, r⟩ :: before, after, rfl, .act r hx', hf⟩
      | loop body start next' => cases hx
  | @loop β' γ' body start next events y hrest ih =>
      intro x f b hx hend
      cases x with
      | pure a =>
          have hfa : f a = .loop body start next := hx.symm
          subst hend
          exact ⟨a, [], _, rfl, .here _, hfa ▸ .loop hrest⟩
      | act op' next' => cases hx
      | loop body' start' next' =>
          cases hx
          rcases ih (unfoldLoop_bind body start next' f).symm hend with
            ⟨a, before, after, rfl, hx', hf⟩
          exact ⟨a, before, after, rfl, .loop hx', hf⟩

theorem runs_bind {x : Program Op Ret α} {f : α → Program Op Ret β}
    {events : List (Event Op Ret)} {b : β} (h : Runs (x >>= f) events b) :
    ∃ a before after, events = before ++ after ∧ Runs x before a ∧ Runs (f a) after b :=
  h.split rfl rfl

/-- A path to an operation of a sequence stands in the first part, or past it. -/
theorem Arrives.part {z y : Program Op Ret β} {events : List (Event Op Ret)}
    (h : Arrives z events y) : ∀ {x : Program Op Ret α} {f : α → Program Op Ret β} {op : Op}
      {next : Ret op → Program Op Ret β}, z = x.bind f → y = .act op next →
        (∃ next', Arrives x events (.act op next') ∧ next = fun r => (next' r).bind f) ∨
        ∃ a before after, events = before ++ after ∧ Runs x before a ∧
          Arrives (f a) after (.act op next) := by
  induction h with
  | here z =>
      intro x f op next hx hend
      cases x with
      | pure a =>
          have hfa : f a = .act op next := hx.symm.trans hend
          exact .inr ⟨a, [], [], rfl, .here _, hfa ▸ .here _⟩
      | act op' next' =>
          cases hx.symm.trans hend
          exact .inl ⟨next', .here _, rfl⟩
      | loop body start next' => cases hx.symm.trans hend
  | @act op' next' events y r hrest ih =>
      intro x f op next hx hend
      cases x with
      | pure a =>
          have hfa : f a = .act op' next' := hx.symm
          subst hend
          exact .inr ⟨a, [], _, rfl, .here _, hfa ▸ .act r hrest⟩
      | act op'' next'' =>
          cases hx
          rcases ih rfl hend with ⟨rest, hfirst, hnext⟩ | ⟨a, before, after, rfl, hfirst, hsecond⟩
          · exact .inl ⟨rest, .act r hfirst, hnext⟩
          · exact .inr ⟨a, ⟨op', r⟩ :: before, after, rfl, .act r hfirst, hsecond⟩
      | loop body start next'' => cases hx
  | @loop β' γ' body start next' events y hrest ih =>
      intro x f op next hx hend
      cases x with
      | pure a =>
          have hfa : f a = .loop body start next' := hx.symm
          subst hend
          exact .inr ⟨a, [], _, rfl, .here _, hfa ▸ .loop hrest⟩
      | act op'' next'' => cases hx
      | loop body' start' next'' =>
          cases hx
          rcases ih (unfoldLoop_bind body start next'' f).symm hend with
            ⟨rest, hfirst, hnext⟩ | ⟨a, before, after, rfl, hfirst, hsecond⟩
          · exact .inl ⟨rest, .loop hfirst, hnext⟩
          · exact .inr ⟨a, before, after, rfl, .loop hfirst, hsecond⟩

theorem arrives_bind {x : Program Op Ret α} {f : α → Program Op Ret β}
    {events : List (Event Op Ret)} {op : Op} {next : Ret op → Program Op Ret β}
    (h : Arrives (x >>= f) events (.act op next)) :
    (∃ next', Arrives x events (.act op next') ∧ next = fun r => (next' r).bind f) ∨
      ∃ a before after, events = before ++ after ∧ Runs x before a ∧
        Arrives (f a) after (.act op next) :=
  h.part rfl rfl

theorem arrives_pure {a : α} {events : List (Event Op Ret)} {op : Op}
    {next : Ret op → Program Op Ret α}
    (h : Arrives (Pure.pure a : Program Op Ret α) events (.act op next)) : False := by
  cases h

theorem arrives_act {op op' : Op} {next : Ret op → Program Op Ret α}
    {next' : Ret op' → Program Op Ret α} {events : List (Event Op Ret)}
    (h : Arrives (.act op next) events (.act op' next')) :
    events = [] ∧ (⟨op, next⟩ : (op : Op) × (Ret op → Program Op Ret α)) = ⟨op', next'⟩ ∨
      ∃ r rest, events = ⟨op, r⟩ :: rest ∧ Arrives (next r) rest (.act op' next') := by
  cases h with
  | here => exact .inl ⟨rfl, rfl⟩
  | act r hrest => exact .inr ⟨r, _, rfl, hrest⟩

theorem arrives_perform {op op' : Op} {events : List (Event Op Ret)}
    {next : Ret op' → Program Op Ret (Ret op)}
    (h : Arrives (perform op : Program Op Ret (Ret op)) events (.act op' next)) :
    events = [] ∧ op' = op := by
  cases h with
  | here => exact ⟨rfl, rfl⟩
  | act r h => exact (arrives_pure h).elim

/-- A path comes by every one of its events. -/
theorem Arrives.found {x y : Program Op Ret α} {events : List (Event Op Ret)}
    {event : Event Op Ret} (h : Arrives x events y) (hevent : event ∈ events) :
    ∃ before after next, events = before ++ event :: after ∧
      Arrives x before (.act event.1 next) ∧ Arrives (next event.2) after y := by
  induction h with
  | here x => cases hevent
  | @act op next events y r hrest ih =>
      rcases List.mem_cons.mp hevent with rfl | hlater
      · exact ⟨[], events, next, rfl, .here _, hrest⟩
      · rcases ih hlater with ⟨before, after, rest, rfl, hbefore, hafter⟩
        exact ⟨⟨op, r⟩ :: before, after, rest, rfl, .act r hbefore, hafter⟩
  | loop _ ih =>
      rcases ih hevent with ⟨before, after, rest, hsplit, hbefore, hafter⟩
      exact ⟨before, after, rest, hsplit, .loop hbefore, hafter⟩

/-- What begins a path is a path. -/
theorem Arrives.front {x y : Program Op Ret α} {before after : List (Event Op Ret)}
    (h : Arrives x (before ++ after) y) : ∃ z, Arrives x before z ∧ Arrives z after y := by
  cases before with
  | nil => exact ⟨x, .here x, h⟩
  | cons first before =>
      generalize hevents : first :: before ++ after = events at h
      induction h generalizing first before with
      | here x => cases hevents
      | @act op next events y r hrest ih =>
          cases hevents
          cases before with
          | nil => exact ⟨next r, .act r (.here _), hrest⟩
          | cons second before =>
              rcases ih second before rfl with ⟨z, hbefore, hafter⟩
              exact ⟨z, .act r hbefore, hafter⟩
      | loop _ ih =>
          rcases ih first before hevents with ⟨z, hbefore, hafter⟩
          exact ⟨z, .loop hbefore, hafter⟩

/-- The rounds of a loop, up to the one that leaves. -/
inductive Rounds (body : γ → Program Op Ret (γ ⊕ β)) : γ → List (Event Op Ret) → β → Prop where
  | leave {g : γ} {events : List (Event Op Ret)} {b : β} (h : Runs (body g) events (.inr b)) :
      Rounds body g events b
  | again {g g' : γ} {events events' : List (Event Op Ret)} {b : β}
      (h : Runs (body g) events (.inl g')) (rest : Rounds body g' events' b) :
      Rounds body g (events ++ events') b

/-- The answer of a loop is the answer of its last round. -/
theorem Rounds.last {body : γ → Program Op Ret (γ ⊕ β)} {g : γ} {events : List (Event Op Ret)}
    {b : β} (h : Rounds body g events b) :
    ∃ g' before after, events = before ++ after ∧ Runs (body g') after (.inr b) := by
  induction h with
  | @leave g events b hround => exact ⟨g, [], events, rfl, hround⟩
  | @again g _ events _ _ _ _ ih =>
      rcases ih with ⟨last, before, after, rfl, hround⟩
      exact ⟨last, events ++ before, after, (List.append_assoc ..).symm, hround⟩

/-- What follows a round of the loop. -/
def around (body : γ → Program Op Ret (γ ⊕ β)) : γ ⊕ β → Program Op Ret β
  | .inl g => iterate g body
  | .inr b => .pure b

/-- A path that starts inside a round ends the round and follows with others. -/
theorem Arrives.rounds {body : γ → Program Op Ret (γ ⊕ β)} {z y : Program Op Ret β}
    {events : List (Event Op Ret)} (h : Arrives z events y) :
    ∀ {x : Program Op Ret (γ ⊕ β)} {b : β}, z = x.bind (around body) → y = .pure b →
      Runs x events (.inr b) ∨ ∃ g before after, events = before ++ after ∧
        Runs x before (.inl g) ∧ Rounds body g after b := by
  induction h with
  | here z =>
      intro x b hx hend
      cases x with
      | pure o =>
          cases o with
          | inl g => cases hx.symm.trans hend
          | inr b' =>
              cases hx.symm.trans hend
              exact .inl (.here _)
      | act op next => cases hx.symm.trans hend
      | loop body start next => cases hx.symm.trans hend
  | @act op next events y r hrest ih =>
      intro x b hx hend
      cases x with
      | pure o => cases o <;> cases hx
      | act op' next' =>
          cases hx
          rcases ih rfl hend with hleave | ⟨g, before, after, rfl, hround, hrounds⟩
          · exact .inl (.act r hleave)
          · exact .inr ⟨g, ⟨op, r⟩ :: before, after, rfl, .act r hround, hrounds⟩
      | loop body' start next' => cases hx
  | @loop β' γ' body' start next events y hrest ih =>
      intro x b hx hend
      cases x with
      | pure o =>
          cases o with
          | inr b' => cases hx
          | inl g =>
              -- the round is done and the next one begins
              cases hx
              have hunfold : unfoldLoop body g Program.pure = (body g).bind (around body) := by
                unfold unfoldLoop
                congr 1
              refine .inr ⟨g, [], events, rfl, .here _, ?_⟩
              rcases ih hunfold hend with hleave | ⟨g', before, after, rfl, hround, hrounds⟩
              · exact .leave hleave
              · exact .again hround hrounds
      | act op' next' => cases hx
      | loop body'' start' next' =>
          cases hx
          rcases ih (unfoldLoop_bind _ _ next' _).symm hend with
            hleave | ⟨g, before, after, rfl, hround, hrounds⟩
          · exact .inl (.loop hleave)
          · exact .inr ⟨g, before, after, rfl, .loop hround, hrounds⟩

/-- A complete path through a loop is made of rounds. -/
theorem runs_iterate {body : γ → Program Op Ret (γ ⊕ β)} {g : γ} {events : List (Event Op Ret)}
    {b : β} (h : Runs (iterate g body) events b) : Rounds body g events b := by
  have hrounds := Arrives.rounds (x := .pure (.inl g)) h rfl rfl
  rcases hrounds with hleave | ⟨g', before, after, rfl, hround, hrest⟩
  · cases hleave
  · cases hround
    exact hrest

/-! ## What a program can perform -/

/-- On every path, finished or not, only such operations are performed. -/
theorem All.events {P : Op → Prop} {x y : Program Op Ret α} {events : List (Event Op Ret)}
    (h : Arrives x events y) (hx : x.All P) : ∀ event ∈ events, P event.1 := by
  induction h with
  | here => exact nofun
  | act r _ ih =>
      intro event hevent
      rcases List.mem_cons.mp hevent with rfl | hrest
      · exact hx.1
      · exact ih (hx.2 r) event hrest
  | loop _ ih =>
      refine ih (All.bind (hx.1 _) fun o => ?_)
      cases o with
      | inl g => exact ⟨hx.1, hx.2⟩
      | inr b => exact hx.2 b

/-- Where a path has come to, only such an operation is about to be performed. -/
theorem All.arrives {P : Op → Prop} {x : Program Op Ret α} {events : List (Event Op Ret)} {op : Op}
    {next : Ret op → Program Op Ret α} (h : Arrives x events (.act op next)) (hx : x.All P) :
    P op := by
  generalize hend : Program.act op next = y at h
  induction h with
  | here =>
      subst hend
      exact hx.1
  | act r _ ih => exact ih (hx.2 r) hend
  | loop _ ih =>
      refine ih (All.bind (hx.1 _) fun o => ?_) hend
      cases o with
      | inl g => exact ⟨hx.1, hx.2⟩
      | inr b => exact hx.2 b

end Program

/-! ## The recorded machine -/

/-- The shared state, what every party has performed since its routine began, and everything
performed so far with the latest first. -/
structure Recorded (σ Op : Type) (Ret : Op → Type) (Routine : Type) where
  state : σ
  origin : Party → Option Routine := fun _ => none
  log : Party → List (Event Op Ret) := fun _ => []
  history : List (Party × Event Op Ret) := []

namespace Recorded

variable {σ Op : Type} {Ret : Op → Type} {Routine : Type}

/-- A party begins a routine. -/
def begin (s : Recorded σ Op Ret Routine) (p : Party) (routine : Option Routine) :
    Recorded σ Op Ret Routine :=
  { s with
    origin := fun q => if q = p then routine else s.origin q
    log := fun q => if q = p then [] else s.log q }

/-- A party performed an operation. -/
def record (s : Recorded σ Op Ret Routine) (p : Party) (event : Event Op Ret) :
    Recorded σ Op Ret Routine :=
  { s with
    log := fun q => if q = p then s.log p ++ [event] else s.log q
    history := (p, event) :: s.history }

def move (s : Recorded σ Op Ret Routine) (state : σ) : Recorded σ Op Ret Routine :=
  { s with state := state }

/-- Everything a party has performed, in order. -/
def performed (s : Recorded σ Op Ret Routine) (p : Party) : List (Event Op Ret) :=
  ((s.history.filter fun row => row.1 = p).map Prod.snd).reverse

theorem mem_performed {s : Recorded σ Op Ret Routine} {p : Party} {event : Event Op Ret} :
    event ∈ s.performed p ↔ (p, event) ∈ s.history := by
  simp only [performed, List.mem_reverse, List.mem_map, List.mem_filter, decide_eq_true_eq]
  constructor
  · rintro ⟨⟨q, other⟩, ⟨hrow, rfl⟩, rfl⟩
    exact hrow
  · intro hrow
    exact ⟨(p, event), ⟨hrow, rfl⟩, rfl⟩

end Recorded

namespace Machine

variable {σ Op : Type} {Ret : Op → Type} {Routine Choice Answer : Type}
variable (M : Machine σ Op Ret Routine Choice Answer)

/-- The same machine with a record of what happens. -/
def recorded : Machine (Recorded σ Op Ret Routine) Op Ret Routine Choice Answer where
  init := { state := M.init }
  exec self fresh choice op s :=
    (M.exec self fresh choice op s.state).map fun out =>
      let performed := (s.move out.1).record self ⟨op, out.2⟩
      (match M.forks op with
        | some routine => performed.begin fresh (some routine)
        | none => performed, out.2)
  forks := M.forks
  awaits := M.awaits
  dropped self s := (M.dropped self s.state).map fun out =>
    ((s.move out.1).begin self out.2, out.2)
  gone := M.gone
  body := M.body
  enter self routine s :=
    (M.enter self routine s.state).map fun state => (s.move state).begin self (some routine)

/-- A party that was not dropped is where its log says. -/
def Follows (s : Recorded σ Op Ret Routine) (p : Party) (x : Program Op Ret Answer) : Prop :=
  (∃ routine, s.origin p = some routine ∧ (M.body routine).Arrives (s.log p) x) ∨
    s.origin p = none ∧ x = .pure M.gone

variable {M}

theorem follows_of_same {s s' : Recorded σ Op Ret Routine} {p : Party}
    {x : Program Op Ret Answer} (h : M.Follows s p x) (horigin : s'.origin p = s.origin p)
    (hlog : s'.log p = s.log p) : M.Follows s' p x := by
  unfold Follows
  rw [horigin, hlog]
  exact h

theorem follows_begin (s : Recorded σ Op Ret Routine) (p : Party) (routine : Routine) :
    M.Follows (s.begin p (some routine)) p (M.body routine) := by
  refine .inl ⟨routine, by simp [Recorded.begin], ?_⟩
  have hlog : (s.begin p (some routine)).log p = [] := by simp [Recorded.begin]
  rw [hlog]
  exact .here _

/-- The performing party moves along its path. -/
theorem Follows.record {s : Recorded σ Op Ret Routine} {p : Party} {op : Op}
    {next : Ret op → Program Op Ret Answer} (h : M.Follows s p (.act op next)) (state : σ)
    (r : Ret op) : M.Follows ((s.move state).record p ⟨op, r⟩) p (next r) := by
  rcases h with ⟨routine, horigin, harrives⟩ | ⟨-, hgone⟩
  · refine .inl ⟨routine, horigin, ?_⟩
    have hlog : ((s.move state).record p ⟨op, r⟩).log p = s.log p ++ [⟨op, r⟩] := by
      simp [Recorded.record, Recorded.move]
    rw [hlog]
    exact harrives.step r
  · cases hgone

theorem record_others (s : Recorded σ Op Ret Routine) {p q : Party} (event : Event Op Ret)
    (h : q ≠ p) : (s.record p event).origin q = s.origin q ∧
      (s.record p event).log q = s.log q :=
  ⟨rfl, by simp [Recorded.record, h]⟩

theorem begin_others (s : Recorded σ Op Ret Routine) {p q : Party} (routine : Option Routine)
    (h : q ≠ p) : (s.begin p routine).origin q = s.origin q ∧
      (s.begin p routine).log q = s.log q := by
  simp [Recorded.begin, h]

/-! ## What one step of the recorded machine does -/

variable (M) in
/-- The ways in which a recorded configuration moves on. -/
inductive Moves (cfg : Config (Recorded σ Op Ret Routine) Op Ret Answer) :
    Config (Recorded σ Op Ret Routine) Op Ret Answer → Prop where
  | performed {p q : Party} {c : Choice} {op : Op} {next : Ret op → Program Op Ret Answer}
      {state : σ} {r : Ret op} (pool : cfg.pool p = some (.act op next))
      (forks : M.forks op = none) (exec : M.exec p q c op cfg.shared.state = some (state, r)) :
      Moves cfg
        { shared := (cfg.shared.move state).record p ⟨op, r⟩, pool := place cfg.pool p (next r) }
  | forked {p q : Party} {c : Choice} {op : Op} {next : Ret op → Program Op Ret Answer}
      {state : σ} {r : Ret op} {routine : Routine} (pool : cfg.pool p = some (.act op next))
      (forks : M.forks op = some routine) (fresh : q ≠ p) (unborn : cfg.pool q = none)
      (exec : M.exec p q c op cfg.shared.state = some (state, r)) :
      Moves cfg
        { shared := ((cfg.shared.move state).record p ⟨op, r⟩).begin q (some routine)
          pool := place (place cfg.pool p (next r)) q (M.body routine) }
  | unfolded {p : Party} {β γ : Type} {body : γ → Program Op Ret (γ ⊕ β)} {start : γ}
      {next : β → Program Op Ret Answer} (pool : cfg.pool p = some (.loop body start next)) :
      Moves cfg { cfg with pool := place cfg.pool p (Program.unfoldLoop body start next) }
  | entered {p : Party} {routine : Routine} {state : σ} (unborn : cfg.pool p = none)
      (enter : M.enter p routine cfg.shared.state = some state) :
      Moves cfg
        { shared := (cfg.shared.move state).begin p (some routine)
          pool := place cfg.pool p (M.body routine) }
  | dropped {p : Party} {op : Op} {next : Ret op → Program Op Ret Answer} {state : σ}
      {routine : Option Routine} (pool : cfg.pool p = some (.act op next))
      (awaits : M.awaits op = true) (dropped : M.dropped p cfg.shared.state = some (state, routine)) :
      Moves cfg
        { shared := (cfg.shared.move state).begin p routine
          pool := place cfg.pool p (M.left routine) }

theorem moves_of_step {cfg cfg' : Config (Recorded σ Op Ret Routine) Op Ret Answer}
    {label : Label Routine Choice} (h : M.recorded.step cfg label = some cfg') :
    M.Moves cfg cfg' := by
  cases transition_of_step M.recorded h with
  | performed hpool hforks hexec =>
      have hforks : M.forks _ = none := hforks
      simp only [recorded, hforks, Option.map_eq_some_iff, Prod.mk.injEq] at hexec
      rcases hexec with ⟨out, hexec, rfl, rfl⟩
      exact .performed hpool hforks hexec
  | @forked _ _ _ _ _ _ _ routine hpool hforks hfresh hunborn hexec =>
      have hforks : M.forks _ = some routine := hforks
      simp only [recorded, hforks, Option.map_eq_some_iff, Prod.mk.injEq] at hexec
      rcases hexec with ⟨out, hexec, rfl, rfl⟩
      exact .forked hpool hforks hfresh hunborn hexec
  | unfolded hpool => exact .unfolded hpool
  | entered hunborn henter =>
      simp only [recorded, Option.map_eq_some_iff] at henter
      rcases henter with ⟨state, henter, rfl⟩
      exact .entered hunborn henter
  | dropped hpool hawaits hdropped =>
      simp only [recorded, Option.map_eq_some_iff, Prod.mk.injEq] at hdropped
      rcases hdropped with ⟨⟨state, routine⟩, hdropped, rfl, rfl⟩
      exact .dropped hpool hawaits hdropped

/-- In every run each party is where its log says. -/
theorem follows_of_reachable {ok : Condition (Recorded σ Op Ret Routine) Op Choice}
    {cfg : Config (Recorded σ Op Ret Routine) Op Ret Answer}
    (h : M.recorded.Reachable ok cfg) :
    ∀ {p x}, cfg.pool p = some x → M.Follows cfg.shared p x := by
  induction h with
  | start => exact nofun
  | @step cfg cfg' label _ _ moves ih =>
      intro p x hx
      cases moves_of_step moves with
      | @performed _ _ _ op _ state r hpool =>
          rcases place_eq_some hx with ⟨rfl, rfl⟩ | ⟨hp, hx⟩
          · exact (ih hpool).record state r
          · have hothers := record_others (cfg.shared.move state) ⟨op, r⟩ hp
            exact follows_of_same (ih hx) hothers.1 hothers.2
      | @forked self _ _ op _ state r routine hpool =>
          rcases place_eq_some hx with ⟨rfl, rfl⟩ | ⟨hq, hx⟩
          · exact follows_begin _ _ routine
          · have hnew := begin_others ((cfg.shared.move state).record self ⟨op, r⟩)
              (some routine) hq
            rcases place_eq_some hx with ⟨rfl, rfl⟩ | ⟨hp, hx⟩
            · exact follows_of_same ((ih hpool).record state r) hnew.1 hnew.2
            · have hothers := record_others (cfg.shared.move state) ⟨op, r⟩ hp
              exact follows_of_same (ih hx) (hnew.1.trans hothers.1) (hnew.2.trans hothers.2)
      | unfolded hpool =>
          rcases place_eq_some hx with ⟨rfl, rfl⟩ | ⟨-, hx⟩
          · rcases ih hpool with ⟨routine, horigin, harrives⟩ | ⟨-, hgone⟩
            · exact .inl ⟨routine, horigin, harrives.unfold⟩
            · cases hgone
          · exact ih hx
      | @entered _ routine state =>
          rcases place_eq_some hx with ⟨rfl, rfl⟩ | ⟨hp, hx⟩
          · exact follows_begin _ _ routine
          · have hothers := begin_others (cfg.shared.move state) (some routine) hp
            exact follows_of_same (ih hx) hothers.1 hothers.2
      | @dropped _ _ _ state routine =>
          rcases place_eq_some hx with ⟨rfl, rfl⟩ | ⟨hp, hx⟩
          · cases routine with
            | some routine => exact follows_begin _ _ routine
            | none => exact .inr ⟨by simp [Recorded.begin], rfl⟩
          · have hothers := begin_others (cfg.shared.move state) routine hp
            exact follows_of_same (ih hx) hothers.1 hothers.2

/-- What every performed operation, every beginning, entry and drop preserves holds in every
recorded run. -/
theorem recorded_invariant {ok : Condition (Recorded σ Op Ret Routine) Op Choice}
    {I : Recorded σ Op Ret Routine → Prop} (init : I { state := M.init })
    (performs : ∀ {s p q c op s' r}, I s → M.exec p q c op s.state = some (s', r) →
      I ((s.move s').record p ⟨op, r⟩))
    (begins : ∀ {s p routine}, I s → I (s.begin p routine))
    (enters : ∀ {s p routine s'}, I s → M.enter p routine s.state = some s' → I (s.move s'))
    (drops : ∀ {s p s' next}, I s → M.dropped p s.state = some (s', next) → I (s.move s'))
    {cfg : Config (Recorded σ Op Ret Routine) Op Ret Answer}
    (h : M.recorded.Reachable ok cfg) : I cfg.shared := by
  refine Reachable.invariant M.recorded init ?_ ?_ ?_ h
  · intro p q c op s s' r hs hexec
    simp only [recorded, Option.map_eq_some_iff, Prod.mk.injEq] at hexec
    rcases hexec with ⟨⟨state, answer⟩, hexec, rfl, rfl⟩
    have hperformed := performs hs hexec
    cases M.forks op with
    | none => exact hperformed
    | some routine => exact begins hperformed
  · intro p routine s s' hs henter
    simp only [recorded, Option.map_eq_some_iff] at henter
    rcases henter with ⟨state, henter, rfl⟩
    exact begins (enters hs henter)
  · intro p s s' next hs hdrop
    simp only [recorded, Option.map_eq_some_iff, Prod.mk.injEq] at hdrop
    rcases hdrop with ⟨⟨state, guard⟩, hdrop, rfl, rfl⟩
    exact begins (drops hs hdrop)

/-! ## Logs are ends of the history -/

theorem log_suffix_performed {ok : Condition (Recorded σ Op Ret Routine) Op Choice}
    {cfg : Config (Recorded σ Op Ret Routine) Op Ret Answer} (h : M.recorded.Reachable ok cfg) :
    ∀ p, cfg.shared.log p <:+ cfg.shared.performed p := by
  have hbegin : ∀ {s : Recorded σ Op Ret Routine} {q : Party} {routine : Option Routine},
      (∀ p, s.log p <:+ s.performed p) →
        ∀ p, (s.begin q routine).log p <:+ (s.begin q routine).performed p := by
    intro s q routine hs p
    by_cases hp : p = q
    · have hnil : (s.begin q routine).log p = [] := by simp [Recorded.begin, hp]
      rw [hnil]
      exact List.nil_suffix
    · rw [(begin_others s routine hp).2]
      exact hs p
  refine recorded_invariant (I := fun s => ∀ p, s.log p <:+ s.performed p)
    (fun _ => List.nil_suffix) ?_ hbegin (fun hs _ => hs) (fun hs _ => hs) h
  intro s p q c op s' r hs _ party
  by_cases hp : party = p
  · subst hp
    rcases hs party with ⟨older, holder⟩
    refine ⟨older, ?_⟩
    simp only [Recorded.performed, Recorded.record, Recorded.move, if_true, List.filter_cons,
      decide_true, List.map_cons, List.reverse_cons]
    rw [← List.append_assoc, holder]
    rfl
  · have hkept : ((s.move s').record p ⟨op, r⟩).performed party = s.performed party := by
      simp [Recorded.performed, Recorded.record, Recorded.move, Ne.symm hp]
    rw [hkept, (record_others (s.move s') ⟨op, r⟩ hp).2]
    exact hs party

theorem mem_history_of_log {ok : Condition (Recorded σ Op Ret Routine) Op Choice}
    {cfg : Config (Recorded σ Op Ret Routine) Op Ret Answer} (h : M.recorded.Reachable ok cfg)
    {p : Party} {event : Event Op Ret} (hevent : event ∈ cfg.shared.log p) :
    (p, event) ∈ cfg.shared.history :=
  Recorded.mem_performed.mp ((log_suffix_performed h p).subset hevent)

end Machine

end Interleaving
end CordisCore
