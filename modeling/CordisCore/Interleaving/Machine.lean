import CordisCore.Interleaving.Program

/-!
# Machines — parties that run programs against one shared state

Any number of parties run programs.  One step of the system is one atomic
operation of one party, chosen by the scheduler together with the answer of the
outside world.  A party may fork a routine onto a fresh party, and a party that
waits may be dropped by whoever drives it.
-/

namespace CordisCore
namespace Interleaving

abbrev Party := Nat

/-- The meaning of the operations, and the routines that parties can run. -/
structure Machine (σ Op : Type) (Ret : Op → Type) (Routine Choice Answer : Type) where
  /-- The state before any party started. -/
  init : σ
  /-- `exec self fresh choice op`: `none` while the operation is blocked. -/
  exec : Party → Party → Choice → (op : Op) → σ → Option (σ × Ret op)
  /-- The routine that an operation starts on the fresh party. -/
  forks : Op → Option Routine
  /-- The operations at which a party waits and can be dropped. -/
  awaits : Op → Bool
  /-- What dropping a party does: `none` when nobody can drop it. -/
  dropped : Party → σ → Option (σ × Option Routine)
  /-- The answer left behind by a dropped party. -/
  gone : Answer
  /-- The program of a routine. -/
  body : Routine → Program Op Ret Answer
  /-- The effect of an outside party entering a routine. -/
  enter : Party → Routine → σ → Option σ

/-- One scheduling decision. -/
inductive Label (Routine Choice : Type) where
  | step (self fresh : Party) (choice : Choice)
  | enter (self : Party) (routine : Routine)
  | drop (self : Party)

/-- The shared state and the rest of every party's program. -/
structure Config (σ Op : Type) (Ret : Op → Type) (Answer : Type) where
  shared : σ
  pool : Party → Option (Program Op Ret Answer)

namespace Machine

variable {σ Op : Type} {Ret : Op → Type} {Routine Choice Answer : Type}
variable (M : Machine σ Op Ret Routine Choice Answer)

/-- The pool after `self` moved on to `prog`. -/
def place (pool : Party → Option (Program Op Ret Answer)) (self : Party)
    (prog : Program Op Ret Answer) : Party → Option (Program Op Ret Answer) :=
  fun p => if p = self then some prog else pool p

@[simp] theorem place_self (pool : Party → Option (Program Op Ret Answer)) (self : Party)
    (prog : Program Op Ret Answer) : place pool self prog self = some prog := by
  simp [place]

theorem place_of_ne (pool : Party → Option (Program Op Ret Answer)) {self p : Party}
    (prog : Program Op Ret Answer) (h : p ≠ self) : place pool self prog p = pool p := by
  simp [place, h]

theorem place_eq_some {pool : Party → Option (Program Op Ret Answer)} {self p : Party}
    {prog x : Program Op Ret Answer} (h : place pool self prog p = some x) :
    (p = self ∧ prog = x) ∨ (p ≠ self ∧ pool p = some x) := by
  by_cases hp : p = self
  · rw [hp, place_self] at h
    exact .inl ⟨hp, Option.some.inj h⟩
  · exact .inr ⟨hp, place_of_ne pool prog hp ▸ h⟩

theorem place_eq_none {pool : Party → Option (Program Op Ret Answer)} {self p : Party}
    {prog : Program Op Ret Answer} (h : place pool self prog p = none) :
    p ≠ self ∧ pool p = none := by
  have hp : p ≠ self := by
    rintro rfl
    cases (place_self pool p prog).symm.trans h
  exact ⟨hp, place_of_ne pool prog hp ▸ h⟩

/-! ## Steps -/

/-- One step of the system; `none` when the label is not enabled. -/
def step (cfg : Config σ Op Ret Answer) :
    Label Routine Choice → Option (Config σ Op Ret Answer)
  | .step self fresh choice =>
      match cfg.pool self with
      | some (.act op next) =>
          match M.forks op with
          | none =>
              (M.exec self fresh choice op cfg.shared).map fun out =>
                { shared := out.1, pool := place cfg.pool self (next out.2) }
          | some routine =>
              if fresh ≠ self ∧ (cfg.pool fresh).isNone then
                (M.exec self fresh choice op cfg.shared).map fun out =>
                  { shared := out.1
                    pool := place (place cfg.pool self (next out.2)) fresh (M.body routine) }
              else none
      | some (.loop body start next) =>
          some { cfg with pool := place cfg.pool self (Program.unfoldLoop body start next) }
      | _ => none
  | .enter self routine =>
      if (cfg.pool self).isNone then
        (M.enter self routine cfg.shared).map fun shared =>
          { shared := shared, pool := place cfg.pool self (M.body routine) }
      else none
  | .drop self =>
      match cfg.pool self with
      | some (.act op _) =>
          if M.awaits op then
            (M.dropped self cfg.shared).map fun out =>
              { shared := out.1
                pool := place cfg.pool self
                  (match out.2 with
                    | some routine => M.body routine
                    | none => .pure M.gone) }
          else none
      | _ => none

/-- Nobody has started. -/
def start : Config σ Op Ret Answer :=
  { shared := M.init, pool := fun _ => none }

/-- A condition on the operations a run performs. -/
abbrev Condition (σ Op Choice : Type) := Party → Choice → Op → σ → Prop

/-- The operation that this label performs, if any, meets the condition. -/
def Meets (ok : Condition σ Op Choice) (cfg : Config σ Op Ret Answer) :
    Label Routine Choice → Prop
  | .step self _ choice =>
      ∀ op next, cfg.pool self = some (.act op next) → ok self choice op cfg.shared
  | _ => True

/-- Configurations reached by runs whose operations all meet the condition. -/
inductive Reachable (ok : Condition σ Op Choice) : Config σ Op Ret Answer → Prop where
  | start : Reachable ok M.start
  | step {cfg cfg' : Config σ Op Ret Answer} (label : Label Routine Choice)
      (h : Reachable ok cfg) (meets : Meets ok cfg label)
      (moves : M.step cfg label = some cfg') : Reachable ok cfg'

/-- Any run at all. -/
def anyRun : Condition σ Op Choice :=
  fun _ _ _ _ => True

/-- The operations that look at some place find it good. -/
def finds {Place : Type} (looks : Op → Option Place) (good : Place → σ → Prop) :
    Condition σ Op Choice :=
  fun _ _ op s => ∀ place, looks op = some place → good place s

/-- The same condition, decided. -/
def finds? {Place : Type} (looks : Op → Option Place) (good : Place → σ → Prop)
    [∀ place s, Decidable (good place s)] : Party → Choice → Op → σ → Bool := fun _ _ op s =>
  match looks op with
  | some place => good place s
  | none => true

theorem finds_of_finds? {Place : Type} {looks : Op → Option Place} {good : Place → σ → Prop}
    [∀ place s, Decidable (good place s)] (p : Party) (c : Choice) (op : Op) (s : σ)
    (h : finds? looks good p c op s = true) : finds looks good p c op s := by
  intro place hplace
  simpa [finds?, hplace] using h

theorem Reachable.mono {ok ok' : Condition σ Op Choice}
    (h : ∀ p c op s, ok p c op s → ok' p c op s) {cfg : Config σ Op Ret Answer}
    (hr : M.Reachable ok cfg) : M.Reachable ok' cfg := by
  induction hr with
  | start => exact .start
  | step label _ meets moves ih =>
      refine .step label ih ?_ moves
      cases label with
      | step self fresh choice =>
          intro op next hop
          exact h _ _ _ _ (meets op next hop)
      | enter self routine => trivial
      | drop self => trivial

/-! ## What a step can do -/

/-- The program that a dropped party is left with. -/
def left (routine : Option Routine) : Program Op Ret Answer :=
  routine.elim (.pure M.gone) M.body

/-- What a scheduling decision makes of a configuration. -/
inductive Transition (cfg : Config σ Op Ret Answer) :
    Label Routine Choice → Config σ Op Ret Answer → Prop where
  | performed {p q : Party} {c : Choice} {op : Op} {next : Ret op → Program Op Ret Answer}
      {s' : σ} {r : Ret op} (pool : cfg.pool p = some (.act op next)) (forks : M.forks op = none)
      (exec : M.exec p q c op cfg.shared = some (s', r)) :
      Transition cfg (.step p q c) { shared := s', pool := place cfg.pool p (next r) }
  | forked {p q : Party} {c : Choice} {op : Op} {next : Ret op → Program Op Ret Answer}
      {s' : σ} {r : Ret op} {routine : Routine} (pool : cfg.pool p = some (.act op next))
      (forks : M.forks op = some routine) (fresh : q ≠ p) (unborn : cfg.pool q = none)
      (exec : M.exec p q c op cfg.shared = some (s', r)) :
      Transition cfg (.step p q c)
        { shared := s', pool := place (place cfg.pool p (next r)) q (M.body routine) }
  | unfolded {p q : Party} {c : Choice} {β γ : Type} {body : γ → Program Op Ret (γ ⊕ β)}
      {start : γ} {next : β → Program Op Ret Answer}
      (pool : cfg.pool p = some (.loop body start next)) :
      Transition cfg (.step p q c)
        { cfg with pool := place cfg.pool p (Program.unfoldLoop body start next) }
  | entered {p : Party} {routine : Routine} {s' : σ} (unborn : cfg.pool p = none)
      (enter : M.enter p routine cfg.shared = some s') :
      Transition cfg (.enter p routine)
        { shared := s', pool := place cfg.pool p (M.body routine) }
  | dropped {p : Party} {op : Op} {next : Ret op → Program Op Ret Answer} {s' : σ}
      {routine : Option Routine} (pool : cfg.pool p = some (.act op next))
      (awaits : M.awaits op = true) (dropped : M.dropped p cfg.shared = some (s', routine)) :
      Transition cfg (.drop p) { shared := s', pool := place cfg.pool p (M.left routine) }

theorem transition_of_step {cfg cfg' : Config σ Op Ret Answer} {label : Label Routine Choice}
    (h : M.step cfg label = some cfg') : M.Transition cfg label cfg' := by
  cases label with
  | step self fresh choice =>
      simp only [Machine.step] at h
      split at h
      · rename_i op next hpool
        split at h
        · rename_i hforks
          simp only [Option.map_eq_some_iff] at h
          rcases h with ⟨⟨s', r⟩, hexec, rfl⟩
          exact .performed hpool hforks hexec
        · rename_i routine hforks
          split at h
          · rename_i hfresh
            simp only [Option.map_eq_some_iff] at h
            rcases h with ⟨⟨s', r⟩, hexec, rfl⟩
            exact .forked hpool hforks hfresh.1 (Option.isNone_iff_eq_none.mp hfresh.2) hexec
          · cases h
      · rename_i body start next hpool
        cases h
        exact .unfolded hpool
      · cases h
  | enter self routine =>
      simp only [Machine.step] at h
      split at h
      · rename_i hunborn
        simp only [Option.map_eq_some_iff] at h
        rcases h with ⟨s', henter, rfl⟩
        exact .entered (Option.isNone_iff_eq_none.mp hunborn) henter
      · cases h
  | drop self =>
      simp only [Machine.step] at h
      split at h
      · rename_i op next hpool
        split at h
        · rename_i hawaits
          simp only [Option.map_eq_some_iff] at h
          rcases h with ⟨⟨s', routine⟩, hdropped, rfl⟩
          have htransition := Transition.dropped hpool hawaits hdropped
          cases routine <;> exact htransition
        · cases h
      · cases h

/-- What a scheduling decision makes of the shared state. -/
inductive Changes (cfg : Config σ Op Ret Answer) (s' : σ) : Label Routine Choice → Prop where
  | performed {p q : Party} {c : Choice} {op : Op} {next : Ret op → Program Op Ret Answer}
      {r : Ret op} (pool : cfg.pool p = some (.act op next))
      (exec : M.exec p q c op cfg.shared = some (s', r)) : Changes cfg s' (.step p q c)
  | unfolded {p q : Party} {c : Choice} (same : s' = cfg.shared) : Changes cfg s' (.step p q c)
  | entered {p : Party} {routine : Routine} (enter : M.enter p routine cfg.shared = some s') :
      Changes cfg s' (.enter p routine)
  | dropped {p : Party} {next : Option Routine}
      (dropped : M.dropped p cfg.shared = some (s', next)) : Changes cfg s' (.drop p)

theorem changes_of_step {cfg cfg' : Config σ Op Ret Answer} {label : Label Routine Choice}
    (h : M.step cfg label = some cfg') : M.Changes cfg cfg'.shared label := by
  cases transition_of_step M h with
  | performed hpool _ hexec => exact .performed hpool hexec
  | forked hpool _ _ _ hexec => exact .performed hpool hexec
  | unfolded => exact .unfolded rfl
  | entered _ henter => exact .entered henter
  | dropped _ _ hdropped => exact .dropped hdropped

/-- What every operation, every entry and every drop preserves holds in every run. -/
theorem Reachable.invariant {ok : Condition σ Op Choice} {I : σ → Prop} (init : I M.init)
    (exec : ∀ {p q c op s s' r}, I s → M.exec p q c op s = some (s', r) → I s')
    (enter : ∀ {p routine s s'}, I s → M.enter p routine s = some s' → I s')
    (dropped : ∀ {p s s' next}, I s → M.dropped p s = some (s', next) → I s')
    {cfg : Config σ Op Ret Answer} (h : M.Reachable ok cfg) : I cfg.shared := by
  induction h with
  | start => exact init
  | step label _ _ moves ih =>
      cases changes_of_step M moves with
      | performed _ hexec => exact exec ih hexec
      | unfolded hsame => exact hsame ▸ ih
      | entered henter => exact enter ih henter
      | dropped hdrop => exact dropped ih hdrop

/-! ## Executable runs -/

/-- The condition at a label, decided. -/
def meets? (ok? : Party → Choice → Op → σ → Bool) (cfg : Config σ Op Ret Answer) :
    Label Routine Choice → Bool
  | .step self _ choice =>
      match cfg.pool self with
      | some (.act op _) => ok? self choice op cfg.shared
      | _ => true
  | _ => true

/-- Follow a schedule, stopping where it is not enabled or breaks the condition. -/
def run (ok? : Party → Choice → Op → σ → Bool) :
    List (Label Routine Choice) → Config σ Op Ret Answer → Option (Config σ Op Ret Answer)
  | [], cfg => some cfg
  | label :: labels, cfg =>
      if meets? ok? cfg label then
        match M.step cfg label with
        | some cfg' => run ok? labels cfg'
        | none => none
      else none

theorem meets_of_meets? {ok : Condition σ Op Choice} {ok? : Party → Choice → Op → σ → Bool}
    (h : ∀ p c op s, ok? p c op s = true → ok p c op s) {cfg : Config σ Op Ret Answer}
    {label : Label Routine Choice} (hm : meets? ok? cfg label = true) : Meets ok cfg label := by
  cases label with
  | step self fresh choice =>
      intro op next hop
      simp only [meets?, hop] at hm
      exact h _ _ _ _ hm
  | enter self routine => trivial
  | drop self => trivial

theorem Reachable.of_run {ok : Condition σ Op Choice}
    {ok? : Party → Choice → Op → σ → Bool} (h : ∀ p c op s, ok? p c op s = true → ok p c op s)
    (labels : List (Label Routine Choice)) {cfg cfg' : Config σ Op Ret Answer}
    (hr : M.Reachable ok cfg) (hrun : M.run ok? labels cfg = some cfg') :
    M.Reachable ok cfg' := by
  induction labels generalizing cfg with
  | nil =>
      simp only [run, Option.some.injEq] at hrun
      exact hrun ▸ hr
  | cons label labels ih =>
      simp only [run] at hrun
      split at hrun
      · rename_i hm
        split at hrun
        · rename_i next hstep
          exact ih (.step label hr (meets_of_meets? h hm) hstep) hrun
        · cases hrun
      · cases hrun

/-- The party that a scheduling decision moves. -/
def mover : Label Routine Choice → Party
  | .step self _ _ => self
  | .enter self _ => self
  | .drop self => self

/-- The parties that a scheduling decision can move or start. -/
def parties : Label Routine Choice → List Party
  | .step self fresh _ => [self, fresh]
  | .enter self _ => [self]
  | .drop self => [self]

theorem pool_of_step {cfg cfg' : Config σ Op Ret Answer} {label : Label Routine Choice}
    (h : M.step cfg label = some cfg') {p : Party} (hp : p ∉ parties label) :
    cfg'.pool p = cfg.pool p := by
  cases transition_of_step M h with
  | performed => exact place_of_ne _ _ fun heq => hp (heq ▸ List.mem_cons_self)
  | @forked self fresh =>
      have hself : p ≠ self := fun heq => hp (heq ▸ List.mem_cons_self)
      have hfresh : p ≠ fresh := fun heq => hp (heq ▸ List.mem_cons_of_mem _ List.mem_cons_self)
      exact (place_of_ne _ _ hfresh).trans (place_of_ne _ _ hself)
  | unfolded => exact place_of_ne _ _ fun heq => hp (heq ▸ List.mem_cons_self)
  | entered => exact place_of_ne _ _ fun heq => hp (heq ▸ List.mem_cons_self)
  | dropped => exact place_of_ne _ _ fun heq => hp (heq ▸ List.mem_cons_self)

/-- A party that a schedule never names stays where it is. -/
theorem pool_of_run {ok? : Party → Choice → Op → σ → Bool} (labels : List (Label Routine Choice))
    {cfg cfg' : Config σ Op Ret Answer} (h : M.run ok? labels cfg = some cfg') {p : Party}
    (hp : p ∉ labels.flatMap parties) : cfg'.pool p = cfg.pool p := by
  induction labels generalizing cfg with
  | nil =>
      simp only [run, Option.some.injEq] at h
      rw [h]
  | cons label labels ih =>
      rw [List.flatMap_cons, List.mem_append, not_or] at hp
      simp only [run] at h
      split at h
      · split at h
        · rename_i next hstep
          exact (ih h hp.2).trans (pool_of_step M hstep hp.1)
        · cases h
      · cases h

end Machine

end Interleaving
end CordisCore
