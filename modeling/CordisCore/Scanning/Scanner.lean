import Mathlib.Data.List.Basic

/-!
# Scanners — one item at a time, with a look at the next one

A scanner reads a list from left to right and writes zero or more items for each one
it reads.  An acceptor says which lists are in normal form.  A relation between the
states of the two carries both directions: the scanner writes normal forms only, and it
leaves normal forms as they are.
-/

namespace CordisCore
namespace Scanning

variable {σ τ α β : Type}

/-! ## Acceptors -/

/-- An automaton that refuses an item by having no next state. -/
abbrev Acceptor (τ β : Type) := τ → β → Option τ

/-- No item of the list is refused. -/
def Acceptor.Accepts (accept : Acceptor τ β) (t : τ) (l : List β) : Prop :=
  ∃ t', l.foldlM accept t = some t'

namespace Acceptor

variable {accept : Acceptor τ β} {t : τ} {b : β} {l l' : List β}

theorem accepts_nil : accept.Accepts t [] :=
  ⟨t, rfl⟩

theorem accepts_cons : accept.Accepts t (b :: l) ↔ ∃ t', accept t b = some t' ∧ accept.Accepts t' l := by
  unfold Accepts
  rw [List.foldlM_cons]
  cases accept t b with
  | none => exact ⟨nofun, nofun⟩
  | some t' => exact ⟨fun h => ⟨t', rfl, h⟩, fun ⟨_, heq, h⟩ => Option.some.inj heq ▸ h⟩

theorem accepts_append : accept.Accepts t (l ++ l') ↔
    ∃ t', l.foldlM accept t = some t' ∧ accept.Accepts t' l' := by
  unfold Accepts
  rw [List.foldlM_append]
  cases l.foldlM accept t with
  | none => exact ⟨nofun, nofun⟩
  | some t' => exact ⟨fun h => ⟨t', rfl, h⟩, fun ⟨_, heq, h⟩ => Option.some.inj heq ▸ h⟩

/-- Every item was accepted in some state. -/
theorem Accepts.mem (h : accept.Accepts t l) (hb : b ∈ l) : ∃ t t', accept t b = some t' := by
  rcases List.append_of_mem hb with ⟨before, after, rfl⟩
  rcases accepts_append.mp h with ⟨t₁, -, h₁⟩
  rcases accepts_cons.mp h₁ with ⟨t₂, hstep, -⟩
  exact ⟨t₁, t₂, hstep⟩

/-- An item that is refused after itself does not occur twice in a row. -/
theorem Accepts.not_twice (h : accept.Accepts t l)
    (hb : ∀ t t', accept t b = some t' → accept t' b = none) : ¬ [b, b] <:+: l := by
  rintro ⟨before, after, rfl⟩
  rw [List.append_assoc] at h
  rcases accepts_append.mp h with ⟨t₁, -, h₁⟩
  rcases accepts_cons.mp h₁ with ⟨t₂, hfirst, h₂⟩
  rcases accepts_cons.mp h₂ with ⟨t₃, hsecond, -⟩
  cases (hb t₁ t₂ hfirst).symm.trans hsecond

end Acceptor

/-! ## Scanners -/

/-- What is written for an item, given the next one, and the state after it. -/
abbrev Scanner (σ α β : Type) := σ → α → Option α → σ × List β

/-- Everything that is written for a list. -/
def Scanner.scan (scanner : Scanner σ α β) : σ → List α → List β
  | _, [] => []
  | s, a :: rest =>
      (scanner s a rest.head?).2 ++ scanner.scan (scanner s a rest.head?).1 rest

namespace Scanner

variable {scanner : Scanner σ α β} {accept : Acceptor τ β} {R : σ → τ → Prop}

/-- Only normal forms are written. -/
theorem accepts_scan (hstep : ∀ s t a next, R s t →
      ∃ t', (scanner s a next).2.foldlM accept t = some t' ∧ R (scanner s a next).1 t')
    (l : List α) {s : σ} {t : τ} (h : R s t) : accept.Accepts t (scanner.scan s l) := by
  induction l generalizing s t with
  | nil => exact Acceptor.accepts_nil
  | cons a rest ih =>
      rcases hstep s t a rest.head? h with ⟨t', hwritten, h'⟩
      exact Acceptor.accepts_append.mpr ⟨t', hwritten, ih h'⟩

/-- A normal form is written as it was read. -/
theorem scan_of_accepts {scanner : Scanner σ β β} (hstep : ∀ s t b t' next, R s t →
      accept t b = some t' → (scanner s b next).2 = [b] ∧ R (scanner s b next).1 t')
    {l : List β} {s : σ} {t : τ} (h : R s t) (hl : accept.Accepts t l) :
    scanner.scan s l = l := by
  induction l generalizing s t with
  | nil => rfl
  | cons b rest ih =>
      rcases Acceptor.accepts_cons.mp hl with ⟨t', haccept, hrest⟩
      rcases hstep s t b t' rest.head? h haccept with ⟨hwritten, h'⟩
      unfold scan
      rw [hwritten, ih h' hrest]
      rfl

/-- What is kept of each item is kept of the whole. -/
theorem filter_scan {keep : β → Bool} {f : α → β}
    (hstep : ∀ s a next, (scanner s a next).2.filter keep = [f a].filter keep) (s : σ)
    (l : List α) : (scanner.scan s l).filter keep = (l.map f).filter keep := by
  induction l generalizing s with
  | nil => rfl
  | cons a rest ih =>
      unfold scan
      rw [List.filter_append, hstep, ih, List.map_cons, ← List.filter_append]
      rfl

end Scanner

end Scanning
end CordisCore
