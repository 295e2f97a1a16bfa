import CordisCore.Interleaving.Logic
import Mathlib.Data.Set.Basic

/-!
# Locks — mutexes with ranks

Threads take and release mutexes, and look at what the mutexes protect.  A
mutex is not reentrant and a thread that wants a taken one waits.  Code whose
sections are lexically nested and go up in rank cannot deadlock: the thread that
waits for the mutex of the highest rank waits for somebody who can go on.
-/

namespace CordisCore
namespace Interleaving
namespace Locks

/-! ## Threads -/

/-- What code does with mutexes, and the questions whose answers it branches on. -/
inductive Op (Lock Query : Type) where
  | acquire (l : Lock)
  | release (l : Lock)
  | ask (q : Query)

variable {Lock Query : Type} {Answer : Query → Type}

/-- Questions are answered, the rest answers nothing. -/
abbrev Ret (Answer : Query → Type) : Op Lock Query → Type
  | .ask q => Answer q
  | _ => Unit

variable (Lock Answer) in
abbrev Code : Type → Type 1 :=
  Program (Op Lock Query) (Ret Answer)

/-- Who holds each mutex. -/
abbrev Table (Lock : Type) := Lock → Option Party

variable {α β γ : Type}

def acquire (l : Lock) : Code Lock Answer Unit :=
  Program.perform (Op.acquire l)

def release (l : Lock) : Code Lock Answer Unit :=
  Program.perform (Op.release l)

def ask (q : Query) : Code Lock Answer (Answer q) :=
  Program.perform (Op.ask q)

/-- Run the code in the scope of a guard. -/
def guarded (l : Lock) (x : Code Lock Answer α) : Code Lock Answer α := do
  acquire l
  let a ← x
  release l
  pure a

/-- Run the code for one element after the other. -/
def each (f : β → Code Lock Answer Unit) : List β → Code Lock Answer Unit
  | [] => pure ()
  | b :: bs => do
      f b
      each f bs

/-- The answer is `true` for some element; the rest is not looked at. -/
def exists? (f : β → Code Lock Answer Bool) : List β → Code Lock Answer Bool
  | [] => pure false
  | b :: bs => do
      if ← f b then pure true else exists? f bs

/-! ## Nesting -/

/-- The code can be run with mutexes below the bound in hand: each of its sections is about a
mutex of a higher rank than those around it. -/
inductive Nested (rank : Lock → Nat) :
    Nat → {α : Type} → Code Lock Answer α → Prop where
  | pure {bound : Nat} {α : Type} (a : α) : Nested rank bound (Pure.pure a)
  | ask {bound : Nat} (q : Query) : Nested rank bound (ask q)
  | guarded {bound : Nat} {α : Type} {l : Lock} {x : Code Lock Answer α} (h : bound ≤ rank l)
      (hx : Nested rank (rank l + 1) x) : Nested rank bound (guarded l x)
  | bind {bound : Nat} {α β : Type} {x : Code Lock Answer α} {f : α → Code Lock Answer β}
      (hx : Nested rank bound x) (hf : ∀ a, Nested rank bound (f a)) : Nested rank bound (x >>= f)
  | iterate {bound : Nat} {β γ : Type} {start : γ} {body : γ → Code Lock Answer (γ ⊕ β)}
      (h : ∀ g, Nested rank bound (body g)) : Nested rank bound (Program.iterate start body)

namespace Nested

variable {rank : Lock → Nat} {bound bound' : Nat}

theorem map {x : Code Lock Answer α} (f : α → β) (hx : Nested rank bound x) :
    Nested rank bound (f <$> x) :=
  .bind hx fun a => .pure (f a)

theorem each {f : β → Code Lock Answer Unit} (h : ∀ b, Nested rank bound (f b)) :
    ∀ bs, Nested rank bound (each f bs)
  | [] => .pure ()
  | b :: bs => .bind (h b) fun _ => each h bs

theorem exists? {f : β → Code Lock Answer Bool} (h : ∀ b, Nested rank bound (f b)) :
    ∀ bs, Nested rank bound (exists? f bs)
  | [] => .pure false
  | b :: bs => by
      refine .bind (h b) fun found => ?_
      cases found with
      | true => exact .pure true
      | false => exact exists? h bs

end Nested

/-! ## The machine -/

/-- Give the mutex to somebody, or to nobody. -/
def Table.set [DecidableEq Lock] (s : Table Lock) (l : Lock) (holder : Option Party) :
    Table Lock :=
  Function.update s l holder

/-- The scheduler answers the questions. -/
def exec [DecidableEq Lock] (self : Party) (choice : ∀ q, Answer q) :
    (op : Op Lock Query) → Table Lock → Option (Table Lock × Ret Answer op)
  | .acquire l, s => if (s l).isNone then some (s.set l (some self), ()) else none
  | .release l, s => if s l = some self then some (s.set l none, ()) else none
  | .ask q, s => some (s, choice q)

/-- Threads that run routines. -/
def machine [DecidableEq Lock] {Routine : Type} (body : Routine → Code Lock Answer Unit) :
    Machine (Table Lock) (Op Lock Query) (Ret Answer) Routine (∀ q, Answer q) Unit where
  init := fun _ => none
  exec self _ choice op s := exec self choice op s
  forks _ := none
  awaits _ := false
  dropped _ _ := none
  gone := ()
  body := body
  enter _ _ s := some s

/-! ## Deadlock -/

abbrev State (Lock : Type) (Answer : Query → Type) :=
  Config (Table Lock) (Op Lock Query) (Ret Answer) Unit

def Holds (c : State Lock Answer) (p : Party) (l : Lock) : Prop :=
  c.shared l = some p

/-- The thread's next step is to take the mutex. -/
def Wants (c : State Lock Answer) (p : Party) (l : Lock) : Prop :=
  ∃ next, c.pool p = some (.act (.acquire l) next)

/-- Everybody in the group wants a mutex that somebody in the group holds. -/
def Deadlock (c : State Lock Answer) (group : Set Party) : Prop :=
  group.Nonempty ∧ ∀ p ∈ group, ∃ l, Wants c p l ∧ ∃ q ∈ group, Holds c q l

/-- Whoever wants a mutex holds only mutexes of a lower rank. -/
def Ranked (rank : Lock → Nat) (c : State Lock Answer) : Prop :=
  ∀ p l, Wants c p l → ∀ l', Holds c p l' → rank l' < rank l

theorem Ranked.not_reentrant {rank : Lock → Nat} {c : State Lock Answer} (h : Ranked rank c)
    {p : Party} {l : Lock} (hwants : Wants c p l) : ¬ Holds c p l :=
  fun hholds => Nat.lt_irrefl _ (h p l hwants l hholds)

/-- From one wait of a deadlock to the next the rank goes up, so there is no last one. -/
theorem Ranked.not_deadlock {rank : Lock → Nat} {top : Nat} (hrank : ∀ l, rank l < top)
    {c : State Lock Answer} (h : Ranked rank c) (group : Set Party) : ¬ Deadlock c group := by
  rintro ⟨⟨p₀, hp₀⟩, hgroup⟩
  have climbs : ∀ n l, top - rank l ≤ n → ∀ q ∈ group, ¬ Holds c q l := by
    intro n
    induction n with
    | zero =>
        intro l hn
        have := hrank l
        omega
    | succ n ih =>
        intro l hn q hq hholds
        rcases hgroup q hq with ⟨l', hwants, r, hr, hholds'⟩
        have hup : rank l < rank l' := h q l' hwants l hholds
        have htop := hrank l'
        exact ih l' (by omega) r hr hholds'
  rcases hgroup p₀ hp₀ with ⟨l, -, q, hq, hholds⟩
  exact climbs (top - rank l) l (Nat.le_refl _) q hq hholds

/-! ## Every run is ranked -/

section Ordered

variable (rank : Lock → Nat)

/-- The party holds the same mutexes in both. -/
def Same (p : Party) (s s' : Table Lock) : Prop :=
  ∀ l, s l = some p ↔ s' l = some p

theorem Same.refl (p : Party) (s : Table Lock) : Same p s s :=
  fun _ => Iff.rfl

theorem Same.trans {p : Party} {s s' s'' : Table Lock} (h : Same p s s') (h' : Same p s' s'') :
    Same p s s'' :=
  fun l => (h l).trans (h' l)

/-- All that the party holds is below the bound. -/
def Below (bound : Nat) (p : Party) (s : Table Lock) : Prop :=
  ∀ l, s l = some p → rank l < bound

def Empty (p : Party) (s : Table Lock) : Prop :=
  ∀ l, s l ≠ some p

variable {rank} {bound : Nat} {p : Party}

theorem Below.of_same {s s' : Table Lock} (h : Below rank bound p s) (hr : Same p s s') :
    Below rank bound p s' :=
  fun l hl => h l ((hr l).mpr hl)

variable [DecidableEq Lock] {Routine : Type} (body : Routine → Code Lock Answer Unit)
variable (rank)

/-- Threads own what they hold, and take mutexes upwards. -/
def ordered : Logic (machine body) Machine.anyRun where
  inv _ := True
  rely := Same
  blank := Empty
  pre _ p s := Empty p s
  post p _ s := Empty p s
  check p op s :=
    match op with
    | .acquire l => Below rank (rank l) p s
    | .release l => s l = some p
    | .ask _ => True
  rely_refl := Same.refl
  rely_trans := Same.trans
  blank_rely h hr := fun l hl => h l ((hr l).mpr hl)
  post_rely h hr := fun l hl => h l ((hr l).mpr hl)

variable {body rank}

/-- Nobody else notices that a free mutex was taken. -/
theorem same_of_acquire {s : Table Lock} {l : Lock} {t : Party} (hfree : s l = none)
    (ht : t ≠ p) : Same t s (s.set l (some p)) := by
  intro l'
  by_cases hl : l' = l
  · subst hl
    simp [Table.set, hfree, ht.symm]
  · simp [Table.set, Function.update_of_ne hl]

/-- Nobody else notices that the holder gave a mutex back. -/
theorem same_of_release {s : Table Lock} {l : Lock} {t : Party} (hheld : s l = some p)
    (ht : t ≠ p) : Same t s (s.set l none) := by
  intro l'
  by_cases hl : l' = l
  · subst hl
    simp [Table.set, hheld, ht.symm]
  · simp [Table.set, Function.update_of_ne hl]

theorem wp_acquire {l : Lock} {Q : Unit → Table Lock → Prop} {s : Table Lock}
    (hbelow : Below rank (rank l) p s)
    (h : ∀ s', Same p s s' → s' l = none → Q () (s'.set l (some p))) :
    (ordered rank body).wp p (acquire l) Q s := by
  show (ordered rank body).wp p (Program.perform (Op.acquire l)) Q s
  apply Logic.wp_perform
  intro s' hr _
  refine ⟨hbelow.of_same hr, Logic.Performs.of_step rfl ?_, fun hawaits => nomatch hawaits⟩
  intro _ _ s'' _ _ _ hexec
  simp only [machine, exec] at hexec
  split at hexec
  · rename_i hfree
    rw [Option.isNone_iff_eq_none] at hfree
    cases hexec
    exact ⟨trivial, fun t ht => same_of_acquire hfree ht, h s' hr hfree⟩
  · cases hexec

theorem wp_release {l : Lock} {Q : Unit → Table Lock → Prop} {s : Table Lock}
    (hheld : s l = some p) (h : ∀ s', Same p s s' → Q () (s'.set l none)) :
    (ordered rank body).wp p (release l) Q s := by
  show (ordered rank body).wp p (Program.perform (Op.release l)) Q s
  apply Logic.wp_perform
  intro s' hr _
  have hheld' : s' l = some p := (hr l).mp hheld
  refine ⟨hheld', Logic.Performs.of_step rfl ?_, fun hawaits => nomatch hawaits⟩
  intro _ _ s'' _ _ _ hexec
  simp only [machine, exec, hheld', if_true] at hexec
  cases hexec
  exact ⟨trivial, fun t ht => same_of_release hheld' ht, h s' hr⟩

theorem wp_ask {q : Query} {Q : Answer q → Table Lock → Prop} {s : Table Lock}
    (h : ∀ s' a, Same p s s' → Q a s') : (ordered rank body).wp p (ask q) Q s := by
  show (ordered rank body).wp p (Program.perform (Op.ask q)) Q s
  apply Logic.wp_perform
  intro s' hr _
  refine ⟨trivial, Logic.Performs.of_step rfl ?_, fun hawaits => nomatch hawaits⟩
  intro _ _ s'' a _ _ hexec
  cases hexec
  exact ⟨trivial, fun t _ => Same.refl t _, h s' _ hr⟩

/-- A section gives back exactly what it took. -/
theorem same_of_section {s s₁ s₂ s₃ : Table Lock} {l : Lock} (hs : s l ≠ some p)
    (h₁ : Same p s s₁) (h₂ : Same p (s₁.set l (some p)) s₂) (h₃ : Same p s₂ s₃) :
    Same p s (s₃.set l none) := by
  intro l'
  by_cases hl : l' = l
  · subst hl
    simp [Table.set, hs]
  · have hmid : s₁ l' = some p ↔ s₂ l' = some p := by
      simpa [Table.set, Function.update_of_ne hl] using h₂ l'
    calc s l' = some p
        ↔ s₁ l' = some p := h₁ l'
      _ ↔ s₂ l' = some p := hmid
      _ ↔ s₃ l' = some p := h₃ l'
      _ ↔ (s₃.set l none) l' = some p := by simp [Table.set, Function.update_of_ne hl]

/-- Nested code leaves its thread with the mutexes that it had. -/
theorem Nested.neutral {x : Code Lock Answer α} (hx : Nested rank bound x) :
    (ordered rank body).Neutral (Below rank bound p) p x := by
  induction hx with
  | pure a => exact Logic.Neutral.pure a
  | ask q => exact fun s _ _ => wp_ask fun s' _ hr => hr
  | @guarded bound α l x hl _ ih =>
      intro s hs hbelow
      have hup : Below rank (rank l) p s := fun l' hl' => Nat.lt_of_lt_of_le (hbelow l' hl') hl
      have hfresh : s l ≠ some p := fun heq => Nat.lt_irrefl _ (hup l heq)
      refine Logic.wp_bind _ hs (wp_acquire hup fun s₁ h₁ hfree => ?_)
      have hin : Below rank (rank l + 1) p (s₁.set l (some p)) := by
        intro l' hl'
        by_cases heq : l' = l
        · exact heq ▸ Nat.lt_succ_self _
        · have hold : s₁ l' = some p := by
            simpa [Table.set, Function.update_of_ne heq] using hl'
          exact Nat.lt_succ_of_lt (hup l' ((h₁ l').mpr hold))
      refine Logic.wp_seq _ trivial (ih _ trivial hin) fun a s₂ _ h₂ => ?_
      have hheld : s₂ l = some p := (h₂ l).mp (by simp [Table.set])
      refine Logic.wp_bind _ trivial (wp_release hheld fun s₃ h₃ => ?_)
      exact same_of_section hfresh h₁ h₂ h₃
  | bind _ _ ihx ihf => exact Logic.Neutral.bind (fun h hr => h.of_same hr) ihx ihf
  | iterate _ ih => exact Logic.Neutral.iterate (fun h hr => h.of_same hr) ih

theorem ordered_verified (h : ∀ routine, Nested rank 0 (body routine)) :
    (ordered rank body).Verified where
  grounded _ _ _ _ _ := trivial
  init := trivial
  vacant _ _ := nofun
  body routine p s _ hpre := by
    have hbelow : Below rank 0 p s := fun l hl => absurd hl (hpre l)
    refine Logic.wp_mono _ trivial ((h routine).neutral s trivial hbelow) ?_
    intro _ s' _ hr l hl
    exact hpre l ((hr l).mpr hl)
  enter _ _ _ _ _ hblank henter := by
    cases henter
    exact ⟨trivial, fun t _ => Same.refl t _, hblank⟩

/-- Threads that run nested code are ranked in every interleaving. -/
theorem ranked_of_reachable (h : ∀ routine, Nested rank 0 (body routine))
    {c : State Lock Answer} (hc : (machine body).Reachable Machine.anyRun c) : Ranked rank c := by
  intro p l hwants l' hholds
  rcases hwants with ⟨next, hpool⟩
  exact Logic.check_of_reachable (ordered_verified h) hc hpool l' hholds

end Ordered

end Locks
end Interleaving
end CordisCore
