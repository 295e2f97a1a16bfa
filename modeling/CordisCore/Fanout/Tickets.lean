import Mathlib.Data.List.Nodup

/-!
# Tickets — every issued ticket is in one place

A ticket is issued to a party, which holds it until it is closed.
-/

namespace CordisCore
namespace Fanout

variable {Party Id : Type}

/-- Every issued ticket is held by one party, once, or was closed, once. -/
structure Accounted (issued : Id → Prop) (held : Party → List Id) (closed : List Id) : Prop where
  nodup_held : ∀ p, (held p).Nodup
  apart : ∀ {p q id}, id ∈ held p → id ∈ held q → p = q
  nodup_closed : closed.Nodup
  unclosed : ∀ {p id}, id ∈ held p → id ∉ closed
  places : ∀ id, issued id ↔ id ∈ closed ∨ ∃ p, id ∈ held p

namespace Accounted

variable {issued issued' : Id → Prop} {held : Party → List Id} {closed : List Id}

theorem empty : Accounted (fun _ : Id => False) (fun _ : Party => []) [] where
  nodup_held _ := List.nodup_nil
  apart h := absurd h List.not_mem_nil
  nodup_closed := List.nodup_nil
  unclosed h := absurd h List.not_mem_nil
  places _ := by simp

theorem congr (h : Accounted issued held closed) (hissued : ∀ id, issued' id ↔ issued id) :
    Accounted issued' held closed :=
  { h with places := fun id => (hissued id).trans (h.places id) }

/-- Parties may keep their tickets in any order. -/
theorem perm {held' : Party → List Id} (h : Accounted issued held closed)
    (hperm : ∀ p, (held' p).Perm (held p)) : Accounted issued held' closed where
  nodup_held p := (hperm p).nodup_iff.mpr (h.nodup_held p)
  apart hp hq := h.apart ((hperm _).mem_iff.mp hp) ((hperm _).mem_iff.mp hq)
  nodup_closed := h.nodup_closed
  unclosed hp := h.unclosed ((hperm _).mem_iff.mp hp)
  places id := by
    simp only [(hperm _).mem_iff]
    exact h.places id

variable [DecidableEq Party] (p : Party)

/-- Tickets of one party after a change of what it holds. -/
theorem mem_update {q : Party} {other : Id} {rest : List Id} :
    other ∈ Function.update held p rest q ↔ q = p ∧ other ∈ rest ∨ q ≠ p ∧ other ∈ held q := by
  by_cases hq : q = p
  · subst hq
    simp
  · simp [hq]

theorem nodup_update {rest : List Id} (h : ∀ q, (held q).Nodup) (hrest : rest.Nodup) (q : Party) :
    (Function.update held p rest q).Nodup := by
  by_cases hq : q = p
  · subst hq
    rwa [Function.update_self]
  · rw [Function.update_of_ne hq]
    exact h q

/-- New tickets go to one party. -/
theorem issue (h : Accounted issued held closed) (ids : List Id) (hnodup : ids.Nodup)
    (fresh : ∀ id ∈ ids, ¬ issued id) (hissued : ∀ id, issued' id ↔ id ∈ ids ∨ issued id) :
    Accounted issued' (Function.update held p (ids ++ held p)) closed := by
  -- a fresh ticket is nobody's yet, and was never closed
  have hclosed : ∀ id ∈ ids, id ∉ closed := fun id hid hmem =>
    fresh id hid ((h.places id).mpr (.inl hmem))
  have hheld : ∀ id ∈ ids, ∀ q, id ∉ held q := fun id hid q hmem =>
    fresh id hid ((h.places id).mpr (.inr ⟨q, hmem⟩))
  have hplace : ∀ q other, other ∈ Function.update held p (ids ++ held p) q ↔
      q = p ∧ other ∈ ids ∨ other ∈ held q := by
    intro q other
    rw [mem_update, List.mem_append]
    by_cases hq : q = p
    · subst hq
      simp
    · simp [hq]
  refine {
    nodup_held := nodup_update p h.nodup_held (List.nodup_append.mpr ⟨hnodup, h.nodup_held p,
      ?nodup_held⟩)
    apart := fun {q r other} hq hr => ?apart
    nodup_closed := h.nodup_closed
    unclosed := fun {q other} hq => ?unclosed
    places := fun other => ?places }
  case nodup_held =>
    rintro id hid other hother rfl
    exact hheld id hid p hother
  case apart =>
    rw [hplace] at hq hr
    rcases hq with ⟨rfl, hq⟩ | hq
    · rcases hr with ⟨rfl, -⟩ | hr
      · rfl
      · exact absurd hr (hheld other hq r)
    · rcases hr with ⟨rfl, hr⟩ | hr
      · exact absurd hq (hheld other hr q)
      · exact h.apart hq hr
  case unclosed =>
    rw [hplace] at hq
    rcases hq with ⟨-, hq⟩ | hq
    · exact hclosed other hq
    · exact h.unclosed hq
  case places =>
    rw [hissued, h.places]
    simp only [hplace]
    refine ⟨?_, ?_⟩
    · rintro (hin | hin | ⟨q, hq⟩)
      · exact .inr ⟨p, .inl ⟨rfl, hin⟩⟩
      · exact .inl hin
      · exact .inr ⟨q, .inr hq⟩
    · rintro (hin | ⟨q, ⟨-, hq⟩ | hq⟩)
      · exact .inr (.inl hin)
      · exact .inl hq
      · exact .inr (.inr ⟨q, hq⟩)

/-- A party closes one of its tickets. -/
theorem close (h : Accounted issued held closed) {id : Id} {rest : List Id}
    (hheld : (held p).Perm (id :: rest)) :
    Accounted issued (Function.update held p rest) (id :: closed) := by
  have hmem : id ∈ held p := hheld.mem_iff.mpr List.mem_cons_self
  have hnodup := List.nodup_cons.mp (hheld.nodup_iff.mp (h.nodup_held p))
  have hsub : ∀ q other, other ∈ Function.update held p rest q → other ∈ held q ∧ other ≠ id := by
    intro q other hq
    rcases (mem_update p).mp hq with ⟨rfl, hin⟩ | ⟨hqp, hin⟩
    · exact ⟨hheld.mem_iff.mpr (List.mem_cons_of_mem _ hin), fun heq => hnodup.1 (heq ▸ hin)⟩
    · exact ⟨hin, fun heq => hqp (h.apart hin (heq ▸ hmem))⟩
  refine ⟨nodup_update p h.nodup_held hnodup.2,
    fun hq hr => h.apart (hsub _ _ hq).1 (hsub _ _ hr).1,
    List.nodup_cons.mpr ⟨h.unclosed hmem, h.nodup_closed⟩, fun hq => ?_, fun other => ?_⟩
  · rw [List.mem_cons, not_or]
    exact ⟨(hsub _ _ hq).2, h.unclosed (hsub _ _ hq).1⟩
  · rw [h.places, List.mem_cons]
    refine ⟨?_, ?_⟩
    · rintro (hin | ⟨q, hq⟩)
      · exact .inl (.inr hin)
      · by_cases hqp : q = p
        · subst hqp
          rcases List.mem_cons.mp (hheld.mem_iff.mp hq) with rfl | hq
          · exact .inl (.inl rfl)
          · exact .inr ⟨q, (mem_update q).mpr (.inl ⟨rfl, hq⟩)⟩
        · exact .inr ⟨q, (mem_update p).mpr (.inr ⟨hqp, hq⟩)⟩
    · rintro ((rfl | hin) | ⟨q, hq⟩)
      · exact .inr ⟨p, hmem⟩
      · exact .inl hin
      · exact .inr ⟨q, (hsub _ _ hq).1⟩

end Accounted

end Fanout
end CordisCore
