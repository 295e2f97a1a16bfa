import Mathlib.Data.List.Perm.Basic

/-!
# Documents — self-describing values and what is wrong with one

A document is a tree whose objects are written field by field.  Two documents say
the same when they differ only in the order in which fields are written.
-/

namespace CordisCore
namespace Serde

/-- The three forms of a JSON number; a float is given by its bits. -/
inductive Number where
  | posInt (n : UInt64)
  | negInt (n : Int64)
  | float (bits : UInt64)
  deriving DecidableEq

inductive Value where
  | null
  | bool (b : Bool)
  | number (n : Number)
  | string (s : String)
  | array (elements : List Value)
  | object (entries : List (String × Value))

inductive DecodeError where
  | invalidType (expected : String)
  | missingField (field : String)
  | duplicateField (field : String)
  | unknownField (field : String) (expected : List String)
  | unknownVariant (variant : String) (expected : List String)
  | invalidLength
  deriving DecidableEq

def Value.toStringValue : Value → Except DecodeError String
  | string s => .ok s
  | _ => .error (.invalidType "a string")

theorem Value.toStringValue_eq_ok {v : Value} {s : String} :
    v.toStringValue = .ok s ↔ v = .string s := by
  cases v <;> simp [toStringValue]

/-! ## The same document -/

mutual

/-- Equal up to the order of the fields of every object. -/
inductive Value.Same : Value → Value → Prop where
  | refl (v : Value) : Same v v
  | object {entries others : List (String × Value)} (h : SameEntries entries others) :
      Same (.object entries) (.object others)

inductive Value.SameEntries : List (String × Value) → List (String × Value) → Prop where
  | nil : SameEntries [] []
  | cons {key : String} {v w : Value} {entries others : List (String × Value)}
      (hvalue : Value.Same v w) (hrest : SameEntries entries others) :
      SameEntries ((key, v) :: entries) ((key, w) :: others)
  | reorder {written entries others read : List (String × Value)} (hwritten : written.Perm entries)
      (h : SameEntries entries others) (hread : others.Perm read) : SameEntries written read

end

/-- A sequence is the same as itself only. -/
theorem Value.Same.array_eq {elements : List Value} {v : Value} (h : Same (.array elements) v) :
    v = .array elements := by
  cases h
  rfl

namespace Value.SameEntries

theorem refl : ∀ entries : List (String × Value), SameEntries entries entries
  | [] => .nil
  | (_, v) :: entries => .cons (.refl v) (refl entries)

theorem of_perm {entries others : List (String × Value)} (h : entries.Perm others) :
    SameEntries entries others :=
  .reorder h (refl others) (.refl _)

/-- Every field of the one is a field of the other. -/
theorem mem {entries others : List (String × Value)} (h : SameEntries entries others) :
    ∀ key v, (key, v) ∈ entries → ∃ w, (key, w) ∈ others ∧ Value.Same v w := by
  -- the fields of the values inside play no part
  refine Value.SameEntries.rec (motive_1 := fun _ _ _ => True)
    (motive_2 := fun entries others _ =>
      ∀ key v, (key, v) ∈ entries → ∃ w, (key, w) ∈ others ∧ Value.Same v w)
    (fun _ => trivial) (fun _ _ => trivial) ?_ ?_ ?_ h
  · exact fun key v hmem => absurd hmem List.not_mem_nil
  · intro key v w entries others hvalue hrest _ ih name value hmem
    rcases List.mem_cons.mp hmem with heq | hmem
    · cases heq
      exact ⟨w, List.mem_cons_self .., hvalue⟩
    · rcases ih name value hmem with ⟨w', hw', hsame⟩
      exact ⟨w', List.mem_cons_of_mem _ hw', hsame⟩
  · intro written entries others read hwritten _ hread ih name value hmem
    rcases ih name value (hwritten.mem_iff.mp hmem) with ⟨w, hw, hsame⟩
    exact ⟨w, hread.mem_iff.mp hw, hsame⟩

end Value.SameEntries

theorem Value.Same.entries {entries others : List (String × Value)}
    (h : Same (.object entries) (.object others)) :
    ∀ key v, (key, v) ∈ entries → ∃ w, (key, w) ∈ others ∧ Same v w := by
  cases h with
  | refl => exact fun key v hmem => ⟨v, hmem, .refl v⟩
  | object h => exact h.mem

theorem Value.Same.of_perm {entries others : List (String × Value)} (h : entries.Perm others) :
    Value.Same (.object entries) (.object others) :=
  .object (.of_perm h)

end Serde
end CordisCore
