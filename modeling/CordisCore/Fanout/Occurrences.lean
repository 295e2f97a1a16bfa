import Mathlib.Data.List.Nodup
import Mathlib.Data.List.Perm.Subperm

/-!
# Exact occurrences — registries whose entries are removed one by one

The same payload may be registered any number of times; every registration is an
occurrence of its own, under a key that is never used again.  A history lists what was
done to a registry, the latest change first.
-/

namespace CordisCore
namespace Fanout

variable {α : Type}

/-! ## Histories -/

structure Occurrence (α : Type) where
  key : Nat
  payload : α
  deriving DecidableEq

inductive Change (α : Type) where
  | inserted (occurrence : Occurrence α)
  | removed (key : Nat) (found : Bool)
  | snapshot (occurrences : List (Occurrence α))
  deriving DecidableEq

/-- What a history leaves registered, in the order of insertion. -/
def present : List (Change α) → List (Occurrence α)
  | [] => []
  | .inserted occurrence :: earlier => present earlier ++ [occurrence]
  | .removed key _ :: earlier => (present earlier).filter fun occurrence => occurrence.key ≠ key
  | .snapshot _ :: earlier => present earlier

/-- Everything that was ever inserted, in the order of insertion. -/
def insertions : List (Change α) → List (Occurrence α)
  | [] => []
  | .inserted occurrence :: earlier => insertions earlier ++ [occurrence]
  | .removed _ _ :: earlier | .snapshot _ :: earlier => insertions earlier

def keys (occurrences : List (Occurrence α)) : List Nat :=
  occurrences.map Occurrence.key

/-- Every key is inserted once, and every answer is what the earlier changes left. -/
inductive Exact : List (Change α) → Prop where
  | nil : Exact []
  | inserted {earlier : List (Change α)} (occurrence : Occurrence α) (h : Exact earlier)
      (fresh : occurrence.key ∉ keys (insertions earlier)) : Exact (.inserted occurrence :: earlier)
  | removed {earlier : List (Change α)} (key : Nat) (found : Bool) (h : Exact earlier)
      (answer : found = true ↔ key ∈ keys (present earlier)) :
      Exact (.removed key found :: earlier)
  | snapshot {earlier : List (Change α)} (h : Exact earlier) :
      Exact (.snapshot (present earlier) :: earlier)

/-! ## What is registered -/

section Present

variable {history later earlier : List (Change α)} {occurrence : Occurrence α} {key : Nat}

@[simp] theorem mem_keys {occurrences : List (Occurrence α)} :
    key ∈ keys occurrences ↔ ∃ occurrence ∈ occurrences, occurrence.key = key := by
  simp [keys]

theorem present_sublist (history : List (Change α)) :
    (present history).Sublist (insertions history) := by
  induction history with
  | nil => exact .slnil
  | cons change earlier ih =>
      cases change with
      | inserted occurrence => exact ih.append_right _
      | removed key found => exact List.filter_sublist.trans ih
      | snapshot occurrences => exact ih

theorem insertions_append (later earlier : List (Change α)) :
    insertions (later ++ earlier) = insertions earlier ++ insertions later := by
  induction later with
  | nil => simp [insertions]
  | cons change later ih =>
      cases change <;> simp [insertions, ih]

end Present

/-! ## Exact histories -/

namespace Exact

variable {history later earlier : List (Change α)} {occurrence : Occurrence α} {key : Nat}
  {found : Bool} {occurrences : List (Occurrence α)}

theorem tail {change : Change α} (h : Exact (change :: earlier)) : Exact earlier := by
  cases h <;> assumption

theorem before (h : Exact (later ++ earlier)) : Exact earlier := by
  induction later with
  | nil => exact h
  | cons change later ih => exact ih h.tail

/-- No key is inserted twice. -/
theorem nodup (h : Exact history) : (keys (insertions history)).Nodup := by
  induction h with
  | nil => exact List.nodup_nil
  | inserted occurrence h fresh ih =>
      simp only [insertions, keys, List.map_append, List.map_cons, List.map_nil]
      exact List.nodup_append_comm.mp (List.nodup_cons.mpr ⟨fresh, ih⟩)
  | removed key found h answer ih => exact ih
  | snapshot h ih => exact ih

theorem nodup_present (h : Exact history) : (keys (present history)).Nodup :=
  ((present_sublist history).map _).nodup h.nodup

/-- A snapshot is everything that was registered. -/
theorem snapshot_eq (h : Exact (.snapshot occurrences :: earlier)) :
    occurrences = present earlier := by
  cases h
  rfl

theorem removed_iff (h : Exact (.removed key found :: earlier)) :
    found = true ↔ key ∈ keys (present earlier) := by
  cases h
  assumption

theorem fresh (h : Exact (.inserted occurrence :: earlier)) :
    occurrence.key ∉ keys (insertions earlier) := by
  cases h
  assumption

/-- Once its key was asked for, an occurrence is not registered any more. -/
theorem absent (h : Exact (later ++ earlier)) (inserted : key ∈ keys (insertions earlier))
    (absent : key ∉ keys (present earlier)) : key ∉ keys (present (later ++ earlier)) := by
  induction later with
  | nil => exact absent
  | cons change later ih =>
      have hlater := ih h.tail
      rw [List.cons_append] at h ⊢
      cases change with
      | inserted occurrence =>
          have hne : occurrence.key ≠ key := by
            rintro rfl
            refine h.fresh ?_
            rw [insertions_append, keys, List.map_append]
            exact List.mem_append_left _ inserted
          simp only [present, keys, List.map_append, List.mem_append, List.map_cons, List.map_nil,
            List.mem_singleton, not_or]
          exact ⟨hlater, hne.symm⟩
      | removed key' found =>
          intro hmem
          exact hlater ((List.filter_sublist.map _).subset hmem)
      | snapshot occurrences => exact hlater

/-- What a removal found had been inserted. -/
theorem inserted_of_found (h : Exact history) (hmem : .removed key true ∈ history) :
    key ∈ keys (insertions history) := by
  rcases List.append_of_mem hmem with ⟨later, earlier, rfl⟩
  rw [insertions_append, keys, List.map_append]
  exact List.mem_append_left _
    (((present_sublist earlier).map _).subset (h.before.removed_iff.mp rfl))

/-- Registered is what was inserted and was not found by a removal since. -/
theorem mem_present (h : Exact history) : occurrence ∈ present history ↔
    .inserted occurrence ∈ history ∧ .removed occurrence.key true ∉ history := by
  induction h with
  | nil => simp [present]
  | inserted o h fresh ih =>
      simp only [present, List.mem_append, ih, List.mem_cons, List.not_mem_nil, or_false,
        Change.inserted.injEq, reduceCtorEq, false_or]
      refine ⟨?_, ?_⟩
      · rintro (⟨hin, hout⟩ | rfl)
        · exact ⟨.inr hin, hout⟩
        · exact ⟨.inl rfl, fun hmem => fresh (h.inserted_of_found hmem)⟩
      · rintro ⟨rfl | hin, hout⟩
        · exact .inr rfl
        · exact .inl ⟨hin, hout⟩
  | removed key found h answer ih =>
      simp only [present, List.mem_filter, ih, List.mem_cons, reduceCtorEq, false_or,
        Change.removed.injEq, decide_eq_true_eq, not_or, not_and]
      refine ⟨fun ⟨⟨hin, hout⟩, hne⟩ => ⟨hin, fun heq => absurd heq hne, hout⟩,
        fun ⟨hin, hasked, hout⟩ => ⟨⟨hin, hout⟩, fun heq => ?_⟩⟩
      exact hasked heq (answer.mpr (mem_keys.mpr ⟨_, ih.mpr ⟨hin, hout⟩, heq⟩)).symm
  | snapshot h ih => simpa [present] using ih

/-- A removal finds an occurrence once. -/
theorem found_once (h : Exact (later ++ .removed key true :: earlier)) :
    .removed key true ∉ later := by
  intro hmem
  rcases List.append_of_mem hmem with ⟨latest, between, rfl⟩
  rw [List.append_assoc, List.cons_append] at h
  have hafter := h.before
  have hbefore := hafter.tail.before
  have hin : key ∈ keys (insertions earlier) :=
    ((present_sublist earlier).map _).subset (hbefore.removed_iff.mp rfl)
  refine hafter.tail.absent hin ?_
    (hafter.removed_iff.mp rfl)
  simp [present]

end Exact

/-! ## Registries -/

/-- A registry: the last key that was reserved, and the occurrences in the order of insertion. -/
structure Registry (α : Type) where
  sequence : Nat := 0
  occurrences : List (Occurrence α) := []

namespace Registry

def insert (r : Registry α) (occurrence : Occurrence α) : Registry α :=
  { r with occurrences := r.occurrences ++ [occurrence] }

/-- Take out the first occurrence under the key, if there is one. -/
def remove (r : Registry α) (key : Nat) : Registry α × Bool :=
  ({ r with occurrences := r.occurrences.eraseP fun occurrence => occurrence.key = key },
    r.occurrences.any fun occurrence => occurrence.key = key)

/-- The registry holds what its history leaves, and no key beyond its counter was inserted. -/
structure Matches (r : Registry α) (history : List (Change α)) : Prop where
  exact : Exact history
  occurrences : r.occurrences = present history
  bounded : ∀ key ∈ keys (insertions history), key ≤ r.sequence

variable {r : Registry α} {history : List (Change α)} {occurrence : Occurrence α}

theorem matches_empty : (({} : Registry α)).Matches [] :=
  ⟨.nil, rfl, by simp [keys, insertions]⟩

theorem Matches.reserve (h : r.Matches history) (sequence : Nat) (grows : r.sequence ≤ sequence) :
    ({ r with sequence := sequence } : Registry α).Matches history :=
  ⟨h.exact, h.occurrences, fun key hkey => Nat.le_trans (h.bounded key hkey) grows⟩

theorem Matches.insert (h : r.Matches history) (fresh : occurrence.key ∉ keys (insertions history))
    (bounded : occurrence.key ≤ r.sequence) :
    (r.insert occurrence).Matches (.inserted occurrence :: history) := by
  refine ⟨.inserted occurrence h.exact fresh, ?_, fun key hkey => ?_⟩
  · simp [Registry.insert, present, h.occurrences]
  · simp only [insertions, keys, List.map_append, List.mem_append, List.map_cons, List.map_nil,
      List.mem_singleton] at hkey
    rcases hkey with hkey | rfl
    · exact h.bounded key hkey
    · exact bounded

/-- With distinct keys the first occurrence under a key is the only one. -/
theorem eraseP_key {occurrences : List (Occurrence α)} (key : Nat) (h : (keys occurrences).Nodup) :
    occurrences.eraseP (fun occurrence => occurrence.key = key) =
      occurrences.filter fun occurrence => occurrence.key ≠ key := by
  induction occurrences with
  | nil => rfl
  | cons occurrence rest ih =>
      have hrest : (keys rest).Nodup := (List.nodup_cons.mp h).2
      by_cases hkey : occurrence.key = key
      · have hnone : ∀ other ∈ rest, other.key ≠ key := fun other hother heq =>
          (List.nodup_cons.mp h).1 (mem_keys.mpr ⟨other, hother, heq.trans hkey.symm⟩)
        have hfilter : rest.filter (fun occurrence => occurrence.key ≠ key) = rest :=
          List.filter_eq_self.mpr fun other hother => by simpa using hnone other hother
        rw [List.eraseP_cons_of_pos (by simpa using hkey),
          List.filter_cons_of_neg (by simpa using hkey), hfilter]
      · rw [List.eraseP_cons_of_neg (by simpa using hkey),
          List.filter_cons_of_pos (by simpa using hkey), ih hrest]

theorem Matches.remove (h : r.Matches history) (key : Nat) :
    (r.remove key).1.Matches (.removed key (r.remove key).2 :: history) := by
  refine ⟨.removed key _ h.exact ?_, ?_, h.bounded⟩
  · simp [Registry.remove, h.occurrences]
  · simp only [Registry.remove, present, h.occurrences]
    exact eraseP_key key h.exact.nodup_present

theorem Matches.snapshot (h : r.Matches history) :
    r.Matches (.snapshot r.occurrences :: history) := by
  rw [h.occurrences]
  exact ⟨h.exact.snapshot, h.occurrences, h.bounded⟩

end Registry

end Fanout
end CordisCore
