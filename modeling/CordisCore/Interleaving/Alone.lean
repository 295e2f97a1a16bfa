import CordisCore.Interleaving.Machine

/-!
# Alone — one party polled while nobody else moves
-/

namespace CordisCore
namespace Interleaving
namespace Machine

variable {σ Op : Type} {Ret : Op → Type} {Routine Choice Answer : Type}
variable (M : Machine σ Op Ret Routine Choice Answer)

/-- One step of this party, whatever the outside world answers. -/
def Alone (self : Party) (cfg cfg' : Config σ Op Ret Answer) : Prop :=
  ∃ fresh choice, M.step cfg (.step self fresh choice) = some cfg'

/-- Polled alone, the party gives this answer after at most so many steps. -/
def AnswersWithin (self : Party) (a : Answer) : Nat → Config σ Op Ret Answer → Prop
  | 0, cfg => cfg.pool self = some (.pure a)
  | n + 1, cfg => cfg.pool self = some (.pure a) ∨
      ((∃ cfg', M.Alone self cfg cfg') ∧
        ∀ cfg', M.Alone self cfg cfg' → AnswersWithin self a n cfg')

/-- The configuration with this party at this program. -/
def at_ (self : Party) (pool : Party → Option (Program Op Ret Answer)) (s : σ)
    (prog : Program Op Ret Answer) : Config σ Op Ret Answer :=
  { shared := s, pool := place pool self prog }

variable {M} {self : Party} {a : Answer} {pool : Party → Option (Program Op Ret Answer)}
variable {s s' : σ} {n : Nat}

theorem place_place (prog prog' : Program Op Ret Answer) :
    place (place pool self prog) self prog' = place pool self prog' := by
  funext p
  simp only [place]
  split <;> rfl

theorem at_pool (cfg : Config σ Op Ret Answer) {prog : Program Op Ret Answer}
    (h : cfg.pool self = some prog) : at_ self cfg.pool cfg.shared prog = cfg := by
  rcases cfg with ⟨s, pool⟩
  simp only [at_, Config.mk.injEq, true_and]
  funext p
  simp only [place]
  split
  · rename_i hp
    subst hp
    exact h.symm
  · rfl

/-- A party that is not done and has one next configuration needs one step more. -/
theorem answersWithin_next {cfg cfg' : Config σ Op Ret Answer} [Inhabited Choice]
    (hbusy : cfg.pool self ≠ some (.pure a))
    (hstep : ∀ fresh choice, M.step cfg (.step self fresh choice) = some cfg') :
    M.AnswersWithin self a (n + 1) cfg ↔ M.AnswersWithin self a n cfg' := by
  constructor
  · rintro (hdone | ⟨-, hall⟩)
    · exact absurd hdone hbusy
    · exact hall _ ⟨self, default, hstep self default⟩
  · intro hrest
    refine .inr ⟨⟨_, self, default, hstep self default⟩, ?_⟩
    rintro cfg'' ⟨fresh, choice, h⟩
    rw [hstep fresh choice, Option.some.injEq] at h
    exact h ▸ hrest

theorem answersWithin_act [Inhabited Choice] {op : Op} {next : Ret op → Program Op Ret Answer} {r : Ret op}
    (hforks : M.forks op = none)
    (hexec : ∀ fresh choice, M.exec self fresh choice op s = some (s', r)) :
    M.AnswersWithin self a (n + 1) (at_ self pool s (.act op next)) ↔
      M.AnswersWithin self a n (at_ self pool s' (next r)) := by
  refine answersWithin_next (by simp [at_]) fun fresh choice => ?_
  simp only [Machine.step, at_, place_self, hforks, hexec fresh choice, Option.map_some,
    place_place]

theorem answersWithin_loop [Inhabited Choice] {β γ : Type} {body : γ → Program Op Ret (γ ⊕ β)} {start : γ}
    {next : β → Program Op Ret Answer} :
    M.AnswersWithin self a (n + 1) (at_ self pool s (.loop body start next)) ↔
      M.AnswersWithin self a n (at_ self pool s (Program.unfoldLoop body start next)) := by
  refine answersWithin_next (by simp [at_]) fun fresh choice => ?_
  simp only [Machine.step, at_, place_self, place_place]

theorem AnswersWithin.succ {cfg : Config σ Op Ret Answer} (h : M.AnswersWithin self a n cfg) :
    M.AnswersWithin self a (n + 1) cfg := by
  induction n generalizing cfg with
  | zero => exact .inl h
  | succ n ih =>
      rcases h with hdone | ⟨hsome, hall⟩
      · exact .inl hdone
      · exact .inr ⟨hsome, fun cfg' h' => ih (hall cfg' h')⟩

theorem AnswersWithin.mono {cfg : Config σ Op Ret Answer} {m : Nat}
    (h : M.AnswersWithin self a n cfg) (hnm : n ≤ m) : M.AnswersWithin self a m cfg := by
  induction hnm with
  | refl => exact h
  | step _ ih => exact ih.succ

/-! ## Programs that run alone to one answer -/

variable (M self)

/-- Polled alone in `s`, the program answers `b` in `s'` after exactly `n` steps. -/
def Gives {β : Type} (n : Nat) (x : Program Op Ret β) (s : σ) (b : β) (s' : σ) : Prop :=
  ∀ (a : Answer) (m : Nat) (pool : Party → Option (Program Op Ret Answer))
    (next : β → Program Op Ret Answer),
    M.AnswersWithin self a (m + n) (at_ self pool s (x.bind next)) ↔
      M.AnswersWithin self a m (at_ self pool s' (next b))

variable {M self}

namespace Gives

variable {β γ : Type} {s'' : σ} {m : Nat}

theorem pure (b : β) (s : σ) : M.Gives self 0 (Pure.pure b : Program Op Ret β) s b s :=
  fun _ _ _ _ => Iff.rfl

theorem perform [Inhabited Choice] {op : Op} {r : Ret op} (hforks : M.forks op = none)
    (hexec : ∀ fresh choice, M.exec self fresh choice op s = some (s', r)) :
    M.Gives self 1 (Program.perform op) s r s' :=
  fun _ _ _ _ => answersWithin_act hforks hexec

theorem bind {x : Program Op Ret β} {f : β → Program Op Ret γ} {b : β} {c : γ}
    (hx : M.Gives self n x s b s') (hf : M.Gives self m (f b) s' c s'') :
    M.Gives self (m + n) (x >>= f) s c s'' := by
  intro a k pool next
  show M.AnswersWithin self a (k + (m + n)) (at_ self pool s ((x.bind f).bind next)) ↔ _
  rw [Program.bind_assoc, ← Nat.add_assoc]
  exact (hx a (k + m) pool _).trans (hf a k pool next)

/-- A loop whose first round leaves. -/
theorem leave [Inhabited Choice] {body : γ → Program Op Ret (γ ⊕ β)} {start : γ} {b : β}
    (h : M.Gives self n (body start) s (.inr b) s') :
    M.Gives self (n + 1) (Program.iterate start body) s b s' := by
  intro a k pool next
  refine answersWithin_loop.trans ?_
  exact h a k pool _

/-- A loop whose first round goes around. -/
theorem again [Inhabited Choice] {body : γ → Program Op Ret (γ ⊕ β)} {start g : γ}
    (h : M.Gives self n (body start) s (.inl g) s')
    {next : β → Program Op Ret Answer} :
    M.AnswersWithin self a (m + (n + 1)) (at_ self pool s (.loop body start next)) ↔
      M.AnswersWithin self a m (at_ self pool s' (.loop body g next)) := by
  refine answersWithin_loop.trans ?_
  exact h a m pool _

end Gives

/-- A loop that goes around for ever never answers. -/
theorem not_answersWithin_of_again [Inhabited Choice] {β γ : Type}
    {body : γ → Program Op Ret (γ ⊕ β)} {next : β → Program Op Ret Answer} (P : γ → σ → Prop)
    (round : ∀ g s, P g s → ∃ k g' s', P g' s' ∧ M.Gives self k (body g) s (.inl g') s')
    {g : γ} (h : P g s) : ¬ M.AnswersWithin self a n (at_ self pool s (.loop body g next)) := by
  induction n using Nat.strongRecOn generalizing g s with
  | ind n ih =>
      intro hanswers
      rcases round g s h with ⟨k, g', s', h', hround⟩
      by_cases hn : n ≤ k
      · -- the answer would come before the round is over
        have hearly := hanswers.mono (m := 0 + (k + 1)) (by omega)
        have hzero := hround.again.mp hearly
        simp [AnswersWithin, at_] at hzero
      · have hlate : n = (n - (k + 1)) + (k + 1) := by omega
        rw [hlate] at hanswers
        exact ih _ (by omega) h' (hround.again.mp hanswers)

end Machine
end Interleaving
end CordisCore
