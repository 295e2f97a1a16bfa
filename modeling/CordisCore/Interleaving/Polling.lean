import CordisCore.Interleaving.Machine
import Mathlib.Logic.Relation

/-!
# Polling — how long a party is on its way while the others move in between

A party that is polled again and again takes steps of its own, and between them the
others move.  A budget says how many steps it takes at most; whoever gets in its way
adds to it.  As long as the party is on its way it can move or waits for somebody.
-/

namespace CordisCore
namespace Interleaving
namespace Machine

open Program (unfoldLoop)

variable {σ Op : Type} {Ret : Op → Type} {Routine Choice Answer : Type}
variable (M : Machine σ Op Ret Routine Choice Answer)

/-! ## Runs that poll a party -/

/-- Runs from a configuration on that do not drop the party and stay within `Q`: how often
somebody got in its way, and how many steps it took itself. -/
inductive Polled (ok : Condition σ Op Choice) (Q : Config σ Op Ret Answer → Prop)
    (hits : σ → σ → Nat) (p : Party) (c : Config σ Op Ret Answer) :
    Nat → Nat → Config σ Op Ret Answer → Prop where
  | start (within : Q c) : Polled ok Q hits p c 0 0 c
  | own {k n : Nat} {cfg cfg' : Config σ Op Ret Answer} {fresh : Party} {choice : Choice}
      (h : Polled ok Q hits p c k n cfg)
      (meets : Meets ok cfg (.step p fresh choice : Label Routine Choice))
      (moves : M.step cfg (.step p fresh choice) = some cfg') (within : Q cfg') :
      Polled ok Q hits p c k (n + 1) cfg'
  | others {k n : Nat} {cfg cfg' : Config σ Op Ret Answer} {label : Label Routine Choice}
      (h : Polled ok Q hits p c k n cfg) (other : mover label ≠ p) (meets : Meets ok cfg label)
      (moves : M.step cfg label = some cfg') (within : Q cfg') :
      Polled ok Q hits p c (k + hits cfg.shared cfg'.shared) n cfg'

variable {M}

theorem Polled.within {ok : Condition σ Op Choice} {Q : Config σ Op Ret Answer → Prop}
    {hits : σ → σ → Nat} {p : Party} {c cfg : Config σ Op Ret Answer} {k n : Nat}
    (h : M.Polled ok Q hits p c k n cfg) : Q cfg := by
  cases h with
  | start within | own _ _ _ within | others _ _ _ _ within => exact within

theorem Polled.first {ok : Condition σ Op Choice} {Q : Config σ Op Ret Answer → Prop}
    {hits : σ → σ → Nat} {p : Party} {c cfg : Config σ Op Ret Answer} {k n : Nat}
    (h : M.Polled ok Q hits p c k n cfg) : Q c := by
  induction h with
  | start within => exact within
  | own _ _ _ _ ih | others _ _ _ _ _ ih => exact ih

theorem Polled.reachable {ok : Condition σ Op Choice} {Q : Config σ Op Ret Answer → Prop}
    {hits : σ → σ → Nat} {p : Party} {c cfg : Config σ Op Ret Answer} {k n : Nat}
    (h : M.Polled ok Q hits p c k n cfg) (hc : M.Reachable ok c) : M.Reachable ok cfg := by
  induction h with
  | start => exact hc
  | own _ meets moves _ ih => exact .step _ ih meets moves
  | others _ _ meets moves _ ih => exact .step _ ih meets moves

/-- What every step within the condition preserves holds all along. -/
theorem Polled.invariant {ok : Condition σ Op Choice} {Q : Config σ Op Ret Answer → Prop}
    {hits : σ → σ → Nat} {p : Party} {c cfg : Config σ Op Ret Answer} {k n : Nat} {I : σ → Prop}
    (step : ∀ {cfg cfg' : Config σ Op Ret Answer} {label : Label Routine Choice},
      M.Reachable ok cfg → I cfg.shared → Meets ok cfg label → M.step cfg label = some cfg' →
        Q cfg' → I cfg'.shared)
    (h : M.Polled ok Q hits p c k n cfg) (hc : M.Reachable ok c) (hI : I c.shared) :
    I cfg.shared := by
  induction h with
  | start => exact hI
  | own h meets moves within ih => exact step (h.reachable hc) ih meets moves within
  | others h _ meets moves within ih => exact step (h.reachable hc) ih meets moves within

/-! ## Steps, as the party that moves and as the others see them -/

/-- The other parties do not move a program. -/
theorem pool_of_others {cfg cfg' : Config σ Op Ret Answer} {label : Label Routine Choice}
    (h : M.step cfg label = some cfg') {p : Party} {x : Program Op Ret Answer}
    (hp : mover label ≠ p) (hx : cfg.pool p = some x) : cfg'.pool p = some x := by
  have hne : ∀ {q}, cfg.pool q = none → p ≠ q := by
    rintro q hq rfl
    rw [hx] at hq
    cases hq
  cases transition_of_step M h with
  | performed | unfolded | entered | dropped => exact (place_of_ne _ _ (Ne.symm hp)).trans hx
  | forked _ _ _ hunborn =>
      exact (place_of_ne _ _ (hne hunborn)).trans ((place_of_ne _ _ (Ne.symm hp)).trans hx)

/-- The party performs the operation it is about to perform. -/
theorem act_of_step {cfg cfg' : Config σ Op Ret Answer} {p fresh : Party} {choice : Choice}
    {op : Op} {next : Ret op → Program Op Ret Answer}
    (h : M.step cfg (.step p fresh choice) = some cfg') (hp : cfg.pool p = some (.act op next)) :
    ∃ r, M.exec p fresh choice op cfg.shared = some (cfg'.shared, r) ∧
      cfg'.pool p = some (next r) := by
  cases transition_of_step M h with
  | performed hpool _ hexec =>
      cases hpool.symm.trans hp
      exact ⟨_, hexec, place_self ..⟩
  | forked hpool _ hfresh _ hexec =>
      cases hpool.symm.trans hp
      exact ⟨_, hexec, (place_of_ne _ _ (Ne.symm hfresh)).trans (place_self ..)⟩
  | unfolded hpool => cases hpool.symm.trans hp

theorem loop_of_step {β γ : Type} {cfg cfg' : Config σ Op Ret Answer} {p fresh : Party}
    {choice : Choice} {body : γ → Program Op Ret (γ ⊕ β)} {start : γ}
    {next : β → Program Op Ret Answer} (h : M.step cfg (.step p fresh choice) = some cfg')
    (hp : cfg.pool p = some (.loop body start next)) :
    cfg'.shared = cfg.shared ∧ cfg'.pool p = some (unfoldLoop body start next) := by
  simp only [Machine.step, hp, Option.some.injEq] at h
  subst h
  exact ⟨rfl, place_self ..⟩

/-! ## Budgets -/

/-- What the way of a party is measured by. -/
structure Pace (σ Op : Type) where
  /-- Holds all along. -/
  inv : σ → Prop
  /-- How often a step of the others gets in the way. -/
  hits : σ → σ → Nat
  /-- What getting in the way costs the party. -/
  cost : Nat
  /-- The operations at which it waits for somebody. -/
  waits : Op → σ → Prop

namespace Pace

/-- The others moved on, and the budget grew by what they cost. -/
def Meanwhile (P : Pace σ Op) : σ × Nat → σ × Nat → Prop :=
  Relation.ReflTransGen fun x y => P.inv y.1 ∧ y.2 = x.2 + P.cost * P.hits x.1 y.1

theorem Meanwhile.inv {P : Pace σ Op} {x y : σ × Nat} (h : P.Meanwhile x y) (hx : P.inv x.1) :
    P.inv y.1 := by
  induction h with
  | refl => exact hx
  | tail _ hstep => exact hstep.1

end Pace

variable (M)

/-- Whatever the outside world answers, the party can perform this operation at once. -/
def Able (p : Party) (op : Op) (s : σ) : Prop :=
  M.forks op = none ∧ ∀ fresh choice, (M.exec p fresh choice op s).isSome = true

/-- The program is on its way and ends in `K`, within the budget. -/
def Within (P : Pace σ Op) (p : Party) :
    {α : Type} → Program Op Ret α → (α → σ × Nat → Prop) → σ × Nat → Prop
  | _, .pure a, K, x => K a x
  | _, .act op next, K, x => ∀ s n, P.Meanwhile x (s, n) → P.inv s →
      (M.Able p op s ∨ P.waits op s) ∧ ∀ fresh choice s' r,
        M.exec p fresh choice op s = some (s', r) → P.inv s' →
          ∃ m, n = m + 1 ∧ Within P p (next r) K (s', m)
  | _, .loop body start next, K, x => ∃ I : _ → σ × Nat → Prop, I start x ∧
      ∀ g s n, P.inv s → I g (s, n) → ∃ m, n = m + 1 ∧
        Within P p (body g) (fun o y =>
          match o with
          | .inl g' => I g' y
          | .inr b => Within P p (next b) K y) (s, m)

variable {M} {P : Pace σ Op} {p : Party} {α β γ : Type}

/-! ## Rules -/

namespace Within

theorem mono {x : Program Op Ret α} {K K' : α → σ × Nat → Prop} {y : σ × Nat} (hy : P.inv y.1)
    (h : M.Within P p x K y) (hK : ∀ a z, P.inv z.1 → K a z → K' a z) :
    M.Within P p x K' y := by
  induction x generalizing y with
  | pure a => exact hK a y hy h
  | act op next ih =>
      intro s n hmeanwhile hs
      rcases h s n hmeanwhile hs with ⟨hable, hnext⟩
      refine ⟨hable, fun fresh choice s' r hexec hs' => ?_⟩
      rcases hnext fresh choice s' r hexec hs' with ⟨m, hm, hrest⟩
      exact ⟨m, hm, ih r hs' hrest hK⟩
  | loop body start next ihb ihn =>
      rcases h with ⟨I, hI, hbody⟩
      refine ⟨I, hI, fun g s n hs hg => ?_⟩
      rcases hbody g s n hs hg with ⟨m, hm, hround⟩
      refine ⟨m, hm, ihb g hs hround fun o z hz ho => ?_⟩
      cases o with
      | inl g' => exact ho
      | inr b => exact ihn b hz ho hK

theorem bind {x : Program Op Ret α} {f : α → Program Op Ret β} {K : β → σ × Nat → Prop}
    {y : σ × Nat} (hy : P.inv y.1) (h : M.Within P p x (fun a => M.Within P p (f a) K) y) :
    M.Within P p (x >>= f) K y := by
  show M.Within P p (x.bind f) K y
  induction x generalizing y with
  | pure a => exact h
  | act op next ih =>
      intro s n hmeanwhile hs
      rcases h s n hmeanwhile hs with ⟨hable, hnext⟩
      refine ⟨hable, fun fresh choice s' r hexec hs' => ?_⟩
      rcases hnext fresh choice s' r hexec hs' with ⟨m, hm, hrest⟩
      exact ⟨m, hm, ih r hs' hrest⟩
  | loop body start next _ ihn =>
      rcases h with ⟨I, hI, hbody⟩
      refine ⟨I, hI, fun g s n hs hg => ?_⟩
      rcases hbody g s n hs hg with ⟨m, hm, hround⟩
      refine ⟨m, hm, hround.mono hs fun o z hz ho => ?_⟩
      cases o with
      | inl g' => exact ho
      | inr b => exact ihn b hz ho

theorem seq {x : Program Op Ret α} {f : α → Program Op Ret β} {R : α → σ × Nat → Prop}
    {K : β → σ × Nat → Prop} {y : σ × Nat} (hy : P.inv y.1) (hx : M.Within P p x R y)
    (hf : ∀ a z, P.inv z.1 → R a z → M.Within P p (f a) K z) : M.Within P p (x >>= f) K y :=
  (hx.mono hy hf).bind hy

theorem iterate {body : γ → Program Op Ret (γ ⊕ β)} {start : γ} {K : β → σ × Nat → Prop}
    {y : σ × Nat} (I : γ → σ × Nat → Prop) (hI : I start y)
    (h : ∀ g s n, P.inv s → I g (s, n) → ∃ m, n = m + 1 ∧
      M.Within P p (body g) (fun o z =>
        match o with
        | .inl g' => I g' z
        | .inr b => K b z) (s, m)) : M.Within P p (Program.iterate start body) K y :=
  ⟨I, hI, h⟩

/-- What a party does not need, it does not need later either. -/
theorem shift {y z : σ × Nat} (h : P.Meanwhile y z) {m : Nat} (hm : y.2 = m + 1) :
    ∃ m', z.2 = m' + 1 ∧ P.Meanwhile (y.1, m) (z.1, m') := by
  induction h with
  | refl => exact ⟨m, hm, .refl⟩
  | @tail u v _ hstep ih =>
      rcases ih with ⟨m', hm', hpath⟩
      refine ⟨m' + P.cost * P.hits u.1 v.1, ?_, hpath.tail ⟨hstep.1, rfl⟩⟩
      rw [hstep.2, hm']
      exact Nat.add_right_comm ..

/-- A program stays within its budget while the others move. -/
theorem meanwhile {x : Program Op Ret α} {K : α → σ × Nat → Prop}
    (hK : ∀ a {y z}, K a y → P.Meanwhile y z → K a z) {y z : σ × Nat} (hy : P.inv y.1)
    (h : M.Within P p x K y) (hyz : P.Meanwhile y z) : M.Within P p x K z := by
  induction x generalizing y z with
  | pure a => exact hK a h hyz
  | act op next _ =>
      intro s n hmeanwhile hs
      exact h s n (hyz.trans hmeanwhile) hs
  | loop body start next ihb ihn =>
      rcases h with ⟨I, hI, hbody⟩
      -- the rounds start wherever the others may have led from the invariant
      refine ⟨fun g u => ∃ t, P.inv t.1 ∧ I g t ∧ P.Meanwhile t u, ⟨y, hy, hI, hyz⟩, ?_⟩
      rintro g s n - ⟨t, ht, hg, htu⟩
      rcases hbody g t.1 t.2 ht hg with ⟨m, hm, hround⟩
      rcases shift htu hm with ⟨m', hm', hpath⟩
      have hstable : M.Within P p (body g) (fun o u => match o with
          | .inl g' => ∃ t, P.inv t.1 ∧ I g' t ∧ P.Meanwhile t u
          | .inr b => P.inv u.1 ∧ M.Within P p (next b) K u) (s, m') := by
        refine ihb g ?_ (y := (t.1, m)) ht (hround.mono ht fun o u hu ho => ?_) hpath
        · intro o u v ho huv
          cases o with
          | inl g' =>
              rcases ho with ⟨t', ht', hg', hpath'⟩
              exact ⟨t', ht', hg', hpath'.trans huv⟩
          | inr b => exact ⟨huv.inv ho.1, ihn b hK ho.1 ho.2 huv⟩
        · cases o with
          | inl g' => exact ⟨u, hu, ho, .refl⟩
          | inr b => exact ⟨hu, ho⟩
      refine ⟨m', hm', hstable.mono (hpath.inv ht) fun o u _ ho => ?_⟩
      cases o with
      | inl g' => exact ho
      | inr b => exact ho.2

end Within

/-! ## Soundness -/

variable (M) in
/-- Where a party is on its way, it can take its next step or waits for somebody. -/
inductive Proceeds (waits : Op → σ → Prop) (p : Party) (cfg : Config σ Op Ret Answer) : Prop where
  | moves (h : ∀ fresh choice, (M.step cfg (.step p fresh choice)).isSome = true)
  | waits {op : Op} {next : Ret op → Program Op Ret Answer}
      (pool : cfg.pool p = some (.act op next)) (h : waits op cfg.shared)

theorem Within.proceeds {x : Program Op Ret β} {next : β → Program Op Ret Answer}
    {K : β → σ × Nat → Prop} {cfg : Config σ Op Ret Answer} {n : Nat}
    (h : M.Within P p x K (cfg.shared, n)) (hs : P.inv cfg.shared)
    (hp : cfg.pool p = some (x.bind next))
    (hbusy : ∀ b, K b (cfg.shared, n) → cfg.pool p ≠ some (next b)) :
    M.Proceeds P.waits p cfg := by
  cases x with
  | pure b => exact absurd hp (hbusy b h)
  | act op rest =>
      rcases (h cfg.shared n .refl hs).1 with ⟨hforks, hable⟩ | hwaits
      · refine .moves fun fresh choice => ?_
        have hact : cfg.pool p = some (.act op fun r => (rest r).bind next) := hp
        simp only [Machine.step, hact, hforks, Option.isSome_map]
        exact hable fresh choice
      · exact .waits hp hwaits
  | loop body start rest =>
      refine .moves fun fresh choice => ?_
      have hloop : cfg.pool p = some (.loop body start fun b => (rest b).bind next) := hp
      simp only [Machine.step, hloop, Option.isSome_some]

section Polled

variable {ok : Condition σ Op Choice} {Q : Config σ Op Ret Answer → Prop}
variable {c cfg : Config σ Op Ret Answer} {k n N : Nat}

/-- As long as the party is on its way, it keeps to its budget. -/
theorem Polled.budget {x : Program Op Ret β} {next : β → Program Op Ret Answer}
    {K : β → σ × Nat → Prop} (hstable : ∀ b {y z}, K b y → P.Meanwhile y z → K b z)
    (hbusy : ∀ {cfg b y}, K b y → Q cfg → cfg.pool p ≠ some (next b))
    (hinv : ∀ {k n cfg}, M.Polled ok Q P.hits p c k n cfg → P.inv cfg.shared)
    (hp : c.pool p = some (x.bind next)) (hx : M.Within P p x K (c.shared, N))
    (h : M.Polled ok Q P.hits p c k n cfg) :
    ∃ y m, cfg.pool p = some (y.bind next) ∧ M.Within P p y K (cfg.shared, m) ∧
      n + m ≤ N + P.cost * k := by
  induction h with
  | start => exact ⟨x, N, hp, hx, by omega⟩
  | @own k n cfg cfg' fresh choice h meets moves within ih =>
      rcases ih with ⟨y, m, hpool, hy, hbudget⟩
      have hs := hinv h
      cases y with
      | pure b => exact absurd hpool (hbusy hy h.within)
      | act op rest =>
          rcases act_of_step moves hpool with ⟨r, hexec, hpool'⟩
          rcases (hy cfg.shared m .refl hs).2 fresh choice cfg'.shared r hexec
            (hinv (.own h meets moves within)) with ⟨m', rfl, hrest⟩
          exact ⟨rest r, m', hpool', hrest, by omega⟩
      | loop body start rest =>
          rcases loop_of_step moves hpool with ⟨hshared, hpool'⟩
          rcases hy with ⟨I, hI, hbody⟩
          rcases hbody start cfg.shared m hs hI with ⟨m', rfl, hround⟩
          rw [hshared]
          refine ⟨unfoldLoop body start rest, m', ?_, ?_, by omega⟩
          · rw [hpool', Program.unfoldLoop_bind]
          · refine Within.bind hs (hround.mono hs fun o z _ ho => ?_)
            cases o with
            | inl g => exact ⟨I, ho, hbody⟩
            | inr b => exact ho
  | @others k n cfg cfg' label h other meets moves within ih =>
      rcases ih with ⟨y, m, hpool, hy, hbudget⟩
      have hstep : P.Meanwhile (cfg.shared, m)
          (cfg'.shared, m + P.cost * P.hits cfg.shared cfg'.shared) :=
        .single ⟨hinv (.others h other meets moves within), rfl⟩
      refine ⟨y, _, pool_of_others moves other hpool, hy.meanwhile hstable (hinv h) hstep, ?_⟩
      rw [Nat.mul_add]
      omega

end Polled

end Machine
end Interleaving
end CordisCore
