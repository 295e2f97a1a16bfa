import CordisCore.Interleaving.Machine

/-!
# Rely–guarantee logic — one proof per routine, sound for every interleaving

A logic fixes an invariant of the shared state, what each party may rely on
while it is not moving, and what every operation must be entitled to.  Programs
are verified one at a time with `wp`; `Logic.sound` then speaks about every
reachable configuration.
-/

namespace CordisCore
namespace Interleaving

variable {σ Op : Type} {Ret : Op → Type} {Routine Choice Answer : Type}

/-- The assertions that a verification of `M` under the condition `ok` is made of. -/
structure Logic (M : Machine σ Op Ret Routine Choice Answer)
    (ok : Machine.Condition σ Op Choice) where
  /-- Holds in every state. -/
  inv : σ → Prop
  /-- What the steps of the others leave alone for this party. -/
  rely : Party → σ → σ → Prop
  /-- A party that has not started. -/
  blank : Party → σ → Prop
  /-- What a party may assume when it starts a routine. -/
  pre : Routine → Party → σ → Prop
  /-- What holds for a party that ended with this answer. -/
  post : Party → Answer → σ → Prop
  /-- What must hold when a party is about to perform an operation. -/
  check : Party → Op → σ → Prop
  /-- What is known from elsewhere of a party about to perform an operation. -/
  given : Party → Op → σ → Prop := fun _ _ _ => True
  rely_refl : ∀ p s, rely p s s
  rely_trans : ∀ {p s s' s''}, rely p s s' → rely p s' s'' → rely p s s''
  blank_rely : ∀ {p s s'}, blank p s → rely p s s' → blank p s'
  post_rely : ∀ {p a s s'}, post p a s → rely p s s' → post p a s'

namespace Logic

variable {M : Machine σ Op Ret Routine Choice Answer} {ok : Machine.Condition σ Op Choice}
variable (L : Logic M ok) {α β γ : Type} {p : Party}

/-! ## Weakest preconditions -/

/-- The effect of one operation, as the party performing it and all others see it. -/
def Performs (p : Party) (op : Op) (s : σ) (K : Ret op → σ → Prop) : Prop :=
  ∀ q c s' r, ok p c op s → L.given p op s → M.exec p q c op s = some (s', r) →
    match M.forks op with
    | none => L.inv s' ∧ (∀ t, t ≠ p → L.rely t s s') ∧ K r s'
    | some routine => q ≠ p → L.blank q s →
        L.inv s' ∧ (∀ t, t ≠ p → t ≠ q → L.rely t s s') ∧ L.pre routine q s' ∧ K r s'

/-- The party may be dropped at this operation. -/
def Drops (p : Party) (op : Op) (s : σ) : Prop :=
  M.awaits op = true → L.given p op s → ∀ s' r, M.dropped p s = some (s', r) →
    L.inv s' ∧ (∀ t, t ≠ p → L.rely t s s') ∧
      match r with
      | some routine => L.pre routine p s'
      | none => L.post p M.gone s'

/-- Every run of the program by `p` from here is entitled to all it does and ends in `Q`. -/
def wp (p : Party) : {α : Type} → Program Op Ret α → (α → σ → Prop) → σ → Prop
  | _, .pure a, Q, s => Q a s
  | _, .act op next, Q, s => ∀ s', L.rely p s s' → L.inv s' →
      L.check p op s' ∧ L.Performs p op s' (fun r => wp p (next r) Q) ∧ L.Drops p op s'
  | _, .loop body start next, Q, s => ∃ I : _ → σ → Prop, I start s ∧
      ∀ g s', L.inv s' → I g s' →
        wp p (body g) (fun o s'' =>
          match o with
          | .inl g' => I g' s''
          | .inr b => wp p (next b) Q s'') s'

theorem Performs.mono {L : Logic M ok} {op : Op} {s : σ} {K K' : Ret op → σ → Prop}
    (h : L.Performs p op s K) (hK : ∀ r s', L.inv s' → K r s' → K' r s') :
    L.Performs p op s K' := by
  intro q c s' r hok hgiven hexec
  have hstep := h q c s' r hok hgiven hexec
  cases hf : M.forks op with
  | none =>
      simp only [hf] at hstep ⊢
      exact ⟨hstep.1, hstep.2.1, hK r s' hstep.1 hstep.2.2⟩
  | some routine =>
      simp only [hf] at hstep ⊢
      intro hq hb
      have hstep' := hstep hq hb
      exact ⟨hstep'.1, hstep'.2.1, hstep'.2.2.1, hK r s' hstep'.1 hstep'.2.2.2⟩

theorem Performs.of_step {L : Logic M ok} {op : Op} {s : σ} {K : Ret op → σ → Prop}
    (hf : M.forks op = none)
    (h : ∀ q c s' r, ok p c op s → L.given p op s → M.exec p q c op s = some (s', r) →
      L.inv s' ∧ (∀ t, t ≠ p → L.rely t s s') ∧ K r s') : L.Performs p op s K := by
  intro q c s' r hok hgiven hexec
  rw [hf]
  exact h q c s' r hok hgiven hexec

theorem Performs.of_fork {L : Logic M ok} {op : Op} {s : σ} {K : Ret op → σ → Prop}
    {routine : Routine} (hf : M.forks op = some routine)
    (h : ∀ q c s' r, ok p c op s → L.given p op s → M.exec p q c op s = some (s', r) →
      q ≠ p → L.blank q s →
      L.inv s' ∧ (∀ t, t ≠ p → t ≠ q → L.rely t s s') ∧ L.pre routine q s' ∧ K r s') :
    L.Performs p op s K := by
  intro q c s' r hok hgiven hexec
  rw [hf]
  exact h q c s' r hok hgiven hexec

theorem wp_mono {x : Program Op Ret α} {Q Q' : α → σ → Prop} {s : σ} (hs : L.inv s)
    (h : L.wp p x Q s) (hQ : ∀ a s', L.inv s' → Q a s' → Q' a s') : L.wp p x Q' s := by
  induction x generalizing s with
  | pure a => exact hQ a s hs h
  | act op next ih =>
      intro s' hr hs'
      have hact := h s' hr hs'
      exact ⟨hact.1, hact.2.1.mono fun r s'' hs'' hw => ih r hs'' hw hQ, hact.2.2⟩
  | loop body start next ihb ihn =>
      rcases h with ⟨I, hI, hbody⟩
      refine ⟨I, hI, fun g s' hs' hg => ihb g hs' (hbody g s' hs' hg) ?_⟩
      intro o s'' hs'' ho
      cases o with
      | inl g' => exact ho
      | inr b => exact ihn b hs'' ho hQ

theorem wp_bind {x : Program Op Ret α} {f : α → Program Op Ret β} {Q : β → σ → Prop} {s : σ}
    (hs : L.inv s) (h : L.wp p x (fun a => L.wp p (f a) Q) s) : L.wp p (x >>= f) Q s := by
  show L.wp p (x.bind f) Q s
  induction x generalizing s with
  | pure a => exact h
  | act op next ih =>
      intro s' hr hs'
      have hact := h s' hr hs'
      exact ⟨hact.1, hact.2.1.mono fun r s'' hs'' hw => ih r hs'' hw, hact.2.2⟩
  | loop body start next _ ih =>
      rcases h with ⟨I, hI, hbody⟩
      refine ⟨I, hI, fun g s' hs' hg => L.wp_mono hs' (hbody g s' hs' hg) ?_⟩
      intro o s'' hs'' ho
      cases o with
      | inl g' => exact ho
      | inr b => exact ih b hs'' ho

/-- A verified program stays verified while the others move. -/
theorem wp_rely {x : Program Op Ret α} {Q : α → σ → Prop}
    (hQ : ∀ a {s s'}, L.inv s → Q a s → L.rely p s s' → Q a s') {s s' : σ} (hs : L.inv s)
    (h : L.wp p x Q s) (hr : L.rely p s s') : L.wp p x Q s' := by
  induction x generalizing s s' with
  | pure a => exact hQ a hs h hr
  | act op next _ =>
      intro s'' hr' hs''
      exact h s'' (L.rely_trans hr hr') hs''
  | loop body start next ihb ihn =>
      rcases h with ⟨I, hI, hbody⟩
      -- close the loop invariant under what the others may do
      refine ⟨fun g t => ∃ t₀, L.inv t₀ ∧ I g t₀ ∧ L.rely p t₀ t, ⟨s, hs, hI, hr⟩, ?_⟩
      rintro g t - ⟨t₀, ht₀, hg, hrt⟩
      refine ihb g ?_ ht₀ (L.wp_mono ht₀ (hbody g t₀ ht₀ hg) ?_) hrt
      · intro o u u' hu ho hu'
        cases o with
        | inl g' =>
            rcases ho with ⟨t₁, ht₁, hg', hr'⟩
            exact ⟨t₁, ht₁, hg', L.rely_trans hr' hu'⟩
        | inr b => exact ihn b hQ hu ho hu'
      · intro o u hu ho
        cases o with
        | inl g' => exact ⟨u, hu, ho, L.rely_refl p u⟩
        | inr b => exact ho

/-! ## Rules for programs -/

theorem wp_pure {a : α} {Q : α → σ → Prop} {s : σ} (h : Q a s) :
    L.wp p (Pure.pure a) Q s :=
  h

theorem wp_perform {op : Op} {Q : Ret op → σ → Prop} {s : σ}
    (h : ∀ s', L.rely p s s' → L.inv s' →
      L.check p op s' ∧ L.Performs p op s' Q ∧ L.Drops p op s') :
    L.wp p (Program.perform op) Q s :=
  h

theorem wp_seq {x : Program Op Ret α} {f : α → Program Op Ret β} {R : α → σ → Prop}
    {Q : β → σ → Prop} {s : σ} (hs : L.inv s) (hx : L.wp p x R s)
    (hf : ∀ a s', L.inv s' → R a s' → L.wp p (f a) Q s') : L.wp p (x >>= f) Q s :=
  L.wp_bind hs (L.wp_mono hs hx hf)

theorem wp_iterate {start : γ} {body : γ → Program Op Ret (γ ⊕ β)} {Q : β → σ → Prop} {s : σ}
    (I : γ → σ → Prop) (hI : I start s)
    (h : ∀ g s', L.inv s' → I g s' → L.wp p (body g) (fun o s'' =>
      match o with
      | .inl g' => I g' s''
      | .inr b => Q b s'') s') : L.wp p (Program.iterate start body) Q s :=
  ⟨I, hI, h⟩

/-- Code that leaves this party everything the others leave it. -/
def Neutral (D : σ → Prop) (p : Party) (x : Program Op Ret α) : Prop :=
  ∀ s, L.inv s → D s → L.wp p x (fun _ s' => L.rely p s s') s

section Neutral

variable {L} {D : σ → Prop}

theorem Neutral.pure (a : α) : L.Neutral D p (Pure.pure a : Program Op Ret α) :=
  fun s _ _ => L.rely_refl p s

theorem Neutral.bind (hD : ∀ {s s'}, D s → L.rely p s s' → D s')
    {x : Program Op Ret α} {f : α → Program Op Ret β} (hx : L.Neutral D p x)
    (hf : ∀ a, L.Neutral D p (f a)) : L.Neutral D p (x >>= f) := by
  intro s hs hd
  refine L.wp_bind hs (L.wp_mono hs (hx s hs hd) ?_)
  intro a s' hs' hr
  refine L.wp_mono hs' (hf a s' hs' (hD hd hr)) ?_
  intro b s'' _ hr'
  exact L.rely_trans hr hr'

theorem Neutral.iterate (hD : ∀ {s s'}, D s → L.rely p s s' → D s') {start : γ}
    {body : γ → Program Op Ret (γ ⊕ β)} (h : ∀ g, L.Neutral D p (body g)) :
    L.Neutral D p (Program.iterate start body) := by
  intro s hs hd
  refine L.wp_iterate (fun _ s' => L.rely p s s') (L.rely_refl p s) ?_
  intro g s' hs' hr
  refine L.wp_mono hs' (h g s' hs' (hD hd hr)) ?_
  intro o s'' _ hr'
  cases o with
  | inl g' => exact L.rely_trans hr hr'
  | inr b => exact L.rely_trans hr hr'

end Neutral

/-- Code between whose blocks the party can always assert `D`. -/
def Maintains (D : σ → Prop) (p : Party) (x : Program Op Ret α) : Prop :=
  ∀ s, L.inv s → D s → L.wp p x (fun _ s' => D s') s

section Maintains

variable {L} {D : σ → Prop}

theorem Maintains.pure (a : α) : L.Maintains D p (Pure.pure a : Program Op Ret α) :=
  fun _ _ hd => hd

theorem Maintains.bind {x : Program Op Ret α} {f : α → Program Op Ret β}
    (hx : L.Maintains D p x) (hf : ∀ a, L.Maintains D p (f a)) :
    L.Maintains D p (x >>= f) :=
  fun s hs hd => L.wp_seq hs (hx s hs hd) fun a s' hs' hd' => hf a s' hs' hd'

theorem Maintains.iterate {start : γ} {body : γ → Program Op Ret (γ ⊕ β)}
    (h : ∀ g, L.Maintains D p (body g)) : L.Maintains D p (Program.iterate start body) := by
  intro s _ hd
  refine L.wp_iterate (fun _ s' => D s') hd fun g s' hs' hd' => ?_
  refine L.wp_mono hs' (h g s' hs' hd') fun o s'' _ hd'' => ?_
  cases o <;> exact hd''

/-- What the operations and the blocks maintain, the whole program maintains. -/
theorem Maintains.of_built {P : Op → Prop} {B : (α : Type) → Program Op Ret α → Prop}
    (hP : ∀ op, P op → L.Maintains D p (Program.perform op : Program Op Ret (Ret op)))
    (hB : ∀ {α : Type} {x : Program Op Ret α}, B α x → L.Maintains D p x)
    {x : Program Op Ret α} (hx : x.Built P B) : L.Maintains D p x := by
  induction hx with
  | pure a => exact Maintains.pure a
  | op h => exact hP _ h
  | block h => exact hB h
  | bind _ _ ihx ihf => exact Maintains.bind ihx ihf
  | iterate _ ih => exact Maintains.iterate ih

end Maintains

/-! ## Soundness -/

/-- Every party runs verified code. -/
structure Good (cfg : Config σ Op Ret Answer) : Prop where
  inv : L.inv cfg.shared
  verified : ∀ p prog, cfg.pool p = some prog → L.wp p prog (L.post p) cfg.shared
  vacant : ∀ p, cfg.pool p = none → L.blank p cfg.shared

theorem Good.relies {L : Logic M ok} {cfg : Config σ Op Ret Answer} (h : L.Good cfg)
    {s : σ} {prog : Program Op Ret Answer} (hp : cfg.pool p = some prog)
    (hr : L.rely p cfg.shared s) : L.wp p prog (L.post p) s := by
  refine L.wp_rely ?_ h.inv (h.verified p prog hp) hr
  intro a s s' _ hq hr'
  exact L.post_rely hq hr'

/-- One party moved on and the others kept what they rely on. -/
theorem Good.place {L : Logic M ok} {cfg : Config σ Op Ret Answer} (h : L.Good cfg)
    {s : σ} {prog : Program Op Ret Answer} (hs : L.inv s)
    (hr : ∀ t, t ≠ p → L.rely t cfg.shared s) (hw : L.wp p prog (L.post p) s) :
    L.Good { shared := s, pool := Machine.place cfg.pool p prog } where
  inv := hs
  verified t prog' ht := by
    rcases Machine.place_eq_some ht with ⟨rfl, rfl⟩ | ⟨htp, ht⟩
    · exact hw
    · exact h.relies ht (hr t htp)
  vacant t ht := by
    rcases Machine.place_eq_none ht with ⟨htp, ht⟩
    exact L.blank_rely (h.vacant t ht) (hr t htp)

/-- One party moved on and started another. -/
theorem Good.fork {L : Logic M ok} {cfg : Config σ Op Ret Answer} (h : L.Good cfg) {q : Party}
    {s : σ} {prog child : Program Op Ret Answer} (hs : L.inv s) (hqp : q ≠ p)
    (hr : ∀ t, t ≠ p → t ≠ q → L.rely t cfg.shared s) (hw : L.wp p prog (L.post p) s)
    (hc : L.wp q child (L.post q) s) :
    L.Good { shared := s, pool := Machine.place (Machine.place cfg.pool p prog) q child } where
  inv := hs
  verified t prog' ht := by
    rcases Machine.place_eq_some ht with ⟨rfl, rfl⟩ | ⟨htq, ht⟩
    · exact hc
    · rcases Machine.place_eq_some ht with ⟨rfl, rfl⟩ | ⟨htp, ht⟩
      · exact hw
      · exact h.relies ht (hr t htp htq)
  vacant t ht := by
    rcases Machine.place_eq_none ht with ⟨htq, ht⟩
    rcases Machine.place_eq_none ht with ⟨htp, ht⟩
    exact L.blank_rely (h.vacant t ht) (hr t htp htq)

/-- What has to be verified about a machine. -/
structure Verified : Prop where
  grounded : ∀ {cfg : Config σ Op Ret Answer}, M.Reachable ok cfg → ∀ {p op next},
    cfg.pool p = some (.act op next) → L.given p op cfg.shared
  init : L.inv M.init
  vacant : ∀ p, L.blank p M.init
  body : ∀ routine p s, L.inv s → L.pre routine p s → L.wp p (M.body routine) (L.post p) s
  enter : ∀ p routine s s', L.inv s → L.blank p s → M.enter p routine s = some s' →
    L.inv s' ∧ (∀ t, t ≠ p → L.rely t s s') ∧ L.pre routine p s'

variable {L}

theorem Good.step (V : L.Verified) {cfg cfg' : Config σ Op Ret Answer}
    (hr : M.Reachable ok cfg) (h : L.Good cfg) {label : Label Routine Choice} (meets : Machine.Meets ok cfg label)
    (moves : M.step cfg label = some cfg') : L.Good cfg' := by
  cases Machine.transition_of_step M moves with
  | @performed p q c op next s' r hpool hforks hexec =>
      have hact := (h.verified p _ hpool) cfg.shared (L.rely_refl _ _) h.inv
      have hstep := hact.2.1 q c s' r (meets op next hpool) (V.grounded hr hpool) hexec
      simp only [hforks] at hstep
      exact h.place hstep.1 hstep.2.1 hstep.2.2
  | @forked p q c op next s' r routine hpool hforks hfresh hunborn hexec =>
      have hact := (h.verified p _ hpool) cfg.shared (L.rely_refl _ _) h.inv
      have hstep := hact.2.1 q c s' r (meets op next hpool) (V.grounded hr hpool) hexec
      simp only [hforks] at hstep
      rcases hstep hfresh (h.vacant q hunborn) with ⟨hinv, hrely, hpre, hwp⟩
      exact h.fork hinv hfresh hrely hwp (V.body _ _ _ hinv hpre)
  | @unfolded p _ _ _ _ body start next hpool =>
      refine h.place h.inv (fun t _ => L.rely_refl t _) ?_
      rcases h.verified p _ hpool with ⟨I, hI, hbody⟩
      refine L.wp_bind h.inv (L.wp_mono h.inv (hbody start _ h.inv hI) ?_)
      intro o s' hs' ho
      cases o with
      | inl g => exact ⟨I, ho, hbody⟩
      | inr b => exact ho
  | entered hunborn henter =>
      rcases V.enter _ _ _ _ h.inv (h.vacant _ hunborn) henter with ⟨hinv, hrely, hpre⟩
      exact h.place hinv hrely (V.body _ _ _ hinv hpre)
  | @dropped p op next s' routine hpool hawaits hdropped =>
      have hact := (h.verified p _ hpool) cfg.shared (L.rely_refl _ _) h.inv
      rcases hact.2.2 hawaits (V.grounded hr hpool) s' routine hdropped with ⟨hinv, hrely, hpost⟩
      cases routine with
      | none => exact h.place hinv hrely hpost
      | some routine => exact h.place hinv hrely (V.body _ _ _ hinv hpost)

/-- Every reachable configuration satisfies the invariant and runs verified code. -/
theorem sound (V : L.Verified) {cfg : Config σ Op Ret Answer}
    (h : M.Reachable ok cfg) : L.Good cfg := by
  induction h with
  | start =>
      refine ⟨V.init, fun p prog hp => ?_, fun p _ => V.vacant p⟩
      cases hp
  | step label hr meets moves ih => exact ih.step V hr meets moves

theorem inv_of_reachable (V : L.Verified) {cfg : Config σ Op Ret Answer}
    (h : M.Reachable ok cfg) : L.inv cfg.shared :=
  (sound V h).inv

/-- Whoever is about to perform an operation is entitled to it. -/
theorem check_of_reachable (V : L.Verified) {cfg : Config σ Op Ret Answer}
    (h : M.Reachable ok cfg) {op : Op} {next : Ret op → Program Op Ret Answer}
    (hp : cfg.pool p = some (.act op next)) : L.check p op cfg.shared :=
  ((sound V h).verified p _ hp cfg.shared (L.rely_refl _ _) (sound V h).inv).1

/-- Whoever ended did so in a state fit for its answer. -/
theorem post_of_reachable (V : L.Verified) {cfg : Config σ Op Ret Answer}
    (h : M.Reachable ok cfg) {a : Answer} (hp : cfg.pool p = some (.pure a)) :
    L.post p a cfg.shared :=
  (sound V h).verified p _ hp

/-- What every operation preserves whose performer is entitled to it holds in every run. -/
theorem invariant_of_reachable (V : L.Verified) {ok' : Machine.Condition σ Op Choice}
    (hok : ∀ p c op s, ok' p c op s → ok p c op s) {I : σ → Prop} (init : I M.init)
    (exec : ∀ {p q c op s s' r}, I s → L.inv s → L.check p op s → ok' p c op s →
      M.exec p q c op s = some (s', r) → I s')
    (enter : ∀ {p routine s s'}, I s → M.enter p routine s = some s' → I s')
    (dropped : ∀ {p s s' next}, I s → M.dropped p s = some (s', next) → I s')
    {cfg : Config σ Op Ret Answer} (h : M.Reachable ok' cfg) : I cfg.shared := by
  induction h with
  | start => exact init
  | @step cfg cfg' label hr meets moves ih =>
      have hr' : M.Reachable ok cfg := hr.mono M hok
      cases Machine.changes_of_step M moves with
      | performed hpool hexec =>
          exact exec ih (inv_of_reachable V hr') (check_of_reachable V hr' hpool)
            (meets _ _ hpool) hexec
      | unfolded hsame => exact hsame ▸ ih
      | entered henter => exact enter ih henter
      | dropped hdrop => exact dropped ih hdrop

end Logic

end Interleaving
end CordisCore
