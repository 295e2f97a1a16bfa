import Mathlib.Data.List.Basic
import Mathlib.Data.List.Nodup

/-!
# Repetitions — the first item that an earlier one equals
-/

namespace CordisCore
namespace Scanning

variable {α : Type} [DecidableEq α]

/-- The first item that equals one of `seen` or one before it. -/
def firstRepeated (seen : List α) : List α → Option α
  | [] => none
  | item :: items => if item ∈ seen then some item else firstRepeated (item :: seen) items

/-- The scan finds nothing exactly if no item occurs twice or was seen before. -/
theorem firstRepeated_eq_none {seen items : List α} :
    firstRepeated seen items = none ↔ items.Nodup ∧ ∀ item ∈ items, item ∉ seen := by
  induction items generalizing seen with
  | nil => simp [firstRepeated]
  | cons item items ih =>
      simp only [firstRepeated]
      by_cases hseen : item ∈ seen
      · simp [hseen]
      · rw [if_neg hseen, ih, List.nodup_cons]
        constructor
        · rintro ⟨hnodup, hnew⟩
          refine ⟨⟨fun hmem => hnew item hmem (.head _), hnodup⟩, fun other hother => ?_⟩
          rcases List.mem_cons.mp hother with rfl | hrest
          · exact hseen
          · exact fun hmem => hnew other hrest (.tail _ hmem)
        · rintro ⟨⟨hfirst, hnodup⟩, hnew⟩
          refine ⟨hnodup, fun other hother hmem => ?_⟩
          rcases List.mem_cons.mp hmem with rfl | hmem
          · exact hfirst hother
          · exact hnew other (.tail _ hother) hmem

theorem firstRepeated_nil_eq_none {items : List α} : firstRepeated [] items = none ↔ items.Nodup := by
  rw [firstRepeated_eq_none]
  simp

/-- The scan stops at the first item that was seen before. -/
theorem firstRepeated_append {seen before after : List α} {item : α} (hnodup : before.Nodup)
    (hfresh : ∀ other ∈ before, other ∉ seen) (hseen : item ∈ seen ∨ item ∈ before) :
    firstRepeated seen (before ++ item :: after) = some item := by
  induction before generalizing seen with
  | nil =>
      have hmem : item ∈ seen := by simpa using hseen
      simp [firstRepeated, hmem]
  | cons first before ih =>
      rw [List.nodup_cons] at hnodup
      simp only [List.mem_cons, forall_eq_or_imp] at hfresh hseen
      simp only [List.cons_append, firstRepeated, hfresh.1, if_false]
      refine ih hnodup.2 (fun other hother => ?_) ?_
      · have hne : other ≠ first := fun heq => hnodup.1 (heq ▸ hother)
        simp [hne, hfresh.2 other hother]
      · rcases hseen with hold | rfl | hrest
        · exact .inl (.tail _ hold)
        · exact .inl (.head _)
        · exact .inr hrest

end Scanning
end CordisCore
