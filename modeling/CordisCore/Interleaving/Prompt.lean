import CordisCore.Interleaving.Logic

/-!
# Prompt programs — what a party does not carry through a loop head

An operation is prompt in a program when another operation follows it at once.  What
only prompt operations leave with a party is with it at an operation, never at a loop
head and never at the end.
-/

namespace CordisCore
namespace Interleaving

namespace Program

variable {Op : Type} {Ret : Op → Type} {α β γ : Type} {P : Op → Prop}

theorem head_bind {x : Program Op Ret α} {f : α → Program Op Ret β} (h : x.head ≠ none) :
    (x.bind f).head ≠ none := by
  cases x with
  | pure a => exact absurd rfl h
  | act op next => nofun
  | loop body start next => exact absurd rfl h

/-- Each of these operations is followed by another one at once. -/
def Prompt (P : Op → Prop) : {α : Type} → Program Op Ret α → Prop
  | _, .pure _ => True
  | _, .act op next => (P op → ∀ r, (next r).head ≠ none) ∧ ∀ r, Prompt P (next r)
  | _, .loop body _ next => (∀ g, Prompt P (body g)) ∧ ∀ b, Prompt P (next b)

namespace Prompt

theorem pure (a : α) : Prompt P (Pure.pure a : Program Op Ret α) :=
  trivial

theorem perform {op : Op} (h : ¬ P op) : Prompt P (perform op : Program Op Ret (Ret op)) :=
  ⟨fun hop => absurd hop h, fun _ => trivial⟩

theorem bind {x : Program Op Ret α} {f : α → Program Op Ret β} (hx : Prompt P x)
    (hf : ∀ a, Prompt P (f a)) : Prompt P (x.bind f) := by
  induction x with
  | pure a => exact hf a
  | act op next ih => exact ⟨fun hop r => head_bind (hx.1 hop r), fun r => ih r (hx.2 r) hf⟩
  | loop body start next _ ih => exact ⟨hx.1, fun b => ih b (hx.2 b) hf⟩

theorem iterate {start : γ} {body : γ → Program Op Ret (γ ⊕ β)} (h : ∀ g, Prompt P (body g)) :
    Prompt P (iterate start body) :=
  ⟨h, fun _ => trivial⟩

theorem unfoldLoop {body : γ → Program Op Ret (γ ⊕ β)} {start : γ} {next : β → Program Op Ret α}
    (h : Prompt P (loop body start next)) : Prompt P (unfoldLoop body start next) := by
  refine bind (h.1 start) fun out => ?_
  cases out with
  | inl g => exact ⟨h.1, h.2⟩
  | inr b => exact h.2 b

/-- A program put together from other operations and from prompt blocks. -/
theorem of_built {B : (α : Type) → Program Op Ret α → Prop}
    (hB : ∀ {α : Type} {x : Program Op Ret α}, B α x → Prompt P x) {x : Program Op Ret α}
    (hx : x.Built (fun op => ¬ P op) B) : Prompt P x := by
  induction hx with
  | pure a => exact pure a
  | op h => exact perform h
  | block h => exact hB h
  | bind _ _ ihx ihf => exact bind ihx ihf
  | iterate _ ih => exact iterate ih

end Prompt

end Program

namespace Logic

variable {σ Op : Type} {Ret : Op → Type} {Routine Choice Answer : Type}
variable {M : Machine σ Op Ret Routine Choice Answer} {ok : Machine.Condition σ Op Choice}
variable {L : Logic M ok}

/-- What the operations do about something that a party may have with it. -/
structure Engages (L : Logic M ok) (P : Op → Prop) (busy : Party → σ → Prop) : Prop where
  prompt : ∀ routine, (M.body routine).Prompt P
  /-- Only a prompt operation leaves it with its performer. -/
  own : ∀ {p q c op s s' r}, L.inv s → L.check p op s → M.exec p q c op s = some (s', r) →
    busy p s' → P op
  others : ∀ {p q c op s s' r t}, M.exec p q c op s = some (s', r) → t ≠ p → busy t s' → busy t s
  blank : ∀ {p s}, L.blank p s → ¬ busy p s
  enter : ∀ {p routine s s' t}, M.enter p routine s = some s' → busy t s' → busy t s
  dropped : ∀ {p s s' next t}, M.dropped p s = some (s', next) → busy t s' → busy t s
  /-- Its destructor begins with an operation. -/
  unwound : ∀ {p s s' next}, M.dropped p s = some (s', next) → busy p s' →
    ∃ routine, next = some routine ∧ (M.body routine).head ≠ none

/-- Every program is prompt, and whoever has something is at an operation. -/
structure Engaged (P : Op → Prop) (busy : Party → σ → Prop) (cfg : Config σ Op Ret Answer) :
    Prop where
  prompt : ∀ p prog, cfg.pool p = some prog → prog.Prompt P
  busy : ∀ p, busy p cfg.shared → ∃ op next, cfg.pool p = some (.act op next)

section Place

variable {P : Op → Prop} {busy : Party → σ → Prop} {cfg : Config σ Op Ret Answer} {p : Party}

theorem Engaged.place (h : Engaged P busy cfg) {s : σ} {prog : Program Op Ret Answer}
    (hprog : prog.Prompt P) (hself : busy p s → prog.head ≠ none)
    (hothers : ∀ t, t ≠ p → busy t s → busy t cfg.shared) :
    Engaged P busy { shared := s, pool := Machine.place cfg.pool p prog } where
  prompt t x ht := by
    rcases Machine.place_eq_some ht with ⟨rfl, rfl⟩ | ⟨-, ht⟩
    · exact hprog
    · exact h.prompt t x ht
  busy t ht := by
    by_cases htp : t = p
    · subst htp
      have hplaced := Machine.place_self cfg.pool t prog
      cases prog with
      | pure a => exact absurd rfl (hself ht)
      | act op next => exact ⟨op, next, hplaced⟩
      | loop body start next => exact absurd rfl (hself ht)
    · rcases h.busy t (hothers t htp ht) with ⟨op, next, hact⟩
      exact ⟨op, next, (Machine.place_of_ne cfg.pool prog htp).trans hact⟩

end Place

/-- Whoever has it with him is about to perform an operation. -/
theorem engaged_of_reachable (V : L.Verified) {P : Op → Prop} {busy : Party → σ → Prop}
    (E : L.Engages P busy) {cfg : Config σ Op Ret Answer} (h : M.Reachable ok cfg) :
    Engaged P busy cfg := by
  induction h with
  | start => exact ⟨nofun, fun p hp => absurd hp (E.blank (V.vacant p))⟩
  | @step cfg cfg' label hr meets moves ih =>
      have hgood := sound V hr
      have hmoved : ∀ {p q c op next out}, cfg.pool p = some (.act op next) →
          M.exec p q c op cfg.shared = some out →
            Engaged P busy { shared := out.1, pool := Machine.place cfg.pool p (next out.2) } := by
        intro p q c op next out hpool hexec
        have hprompt := ih.prompt p _ hpool
        have hcheck := check_of_reachable V hr hpool
        exact ih.place (hprompt.2 _)
          (fun hbusy => hprompt.1 (E.own hgood.inv hcheck hexec hbusy) _)
          fun t ht => E.others hexec ht
      cases Machine.transition_of_step M moves with
      | performed hpool _ hexec => exact hmoved hpool hexec
      | forked hpool _ hfresh hunborn hexec =>
          have hblank := hgood.vacant _ hunborn
          exact (hmoved hpool hexec).place (E.prompt _)
            (fun hbusy => absurd (E.others hexec hfresh hbusy) (E.blank hblank)) fun _ _ => id
      | @unfolded p _ _ _ _ body start next hpool =>
          refine ih.place (ih.prompt p _ hpool).unfoldLoop (fun hbusy => ?_) fun _ _ => id
          rcases ih.busy p hbusy with ⟨op, next', hact⟩
          cases hpool.symm.trans hact
      | @entered p routine s' hunborn henter =>
          have hblank := hgood.vacant p hunborn
          exact ih.place (E.prompt routine)
            (fun hbusy => absurd (E.enter henter hbusy) (E.blank hblank)) fun t _ => E.enter henter
      | @dropped p op next s' routine _ _ hdropped =>
          refine ih.place ?_ (fun hbusy => ?_) fun t _ => E.dropped hdropped
          · cases routine with
            | none => trivial
            | some routine => exact E.prompt routine
          · rcases E.unwound hdropped hbusy with ⟨routine, rfl, hhead⟩
            exact hhead

end Logic

end Interleaving
end CordisCore
