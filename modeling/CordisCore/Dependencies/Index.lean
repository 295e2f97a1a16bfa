import CordisCore.Interleaving.Automaton
import CordisCore.Runtime.Types
import Mathlib.Logic.Function.Basic

/-!
# The dependency index — a reverse projection beside the edges that Fibers own

Fibers own their exact edges; the index only finds the likely dependents of an edge.  If it
is not known to be complete, resident Fibers are scanned instead.
-/

namespace CordisCore
namespace Dependencies

open Interleaving
open CordisCore.Runtime (FiberId DependencyEdge)

/-! ## Fibers -/

/-- What the index and the scan see of a Fiber. -/
structure Fiber where
  edges : List DependencyEdge := []
  alive : Bool := false
  /-- A strong reference is left: a `Weak` to the Fiber can be upgraded. -/
  strong : Bool := false
  /-- The Registry holds the Fiber. -/
  resident : Bool := false
  /-- The `register` of its spawn has run. -/
  registered : Bool := false
  /-- Instrumentation: that `register` inserted its edges, and `unregister` has run. -/
  projected : Bool := false
  withdrawn : Bool := false

/-! ## The projection -/

structure IndexState where
  /-- The map from an edge to the Fibers that declare it. -/
  reverse : DependencyEdge → Option (List FiberId) := fun _ => none
  complete : Bool := true

namespace IndexState

def set (index : IndexState) (edge : DependencyEdge) (row : Option (List FiberId)) : IndexState :=
  { index with reverse := Function.update index.reverse edge row }

/-- The entry of an edge; a missing entry is an empty one. -/
def rows (index : IndexState) (edge : DependencyEdge) : List FiberId :=
  (index.reverse edge).getD []

/-- `entry(edge).or_default().push(f)`. -/
def push (f : FiberId) (index : IndexState) (edge : DependencyEdge) : IndexState :=
  index.set edge (some (index.rows edge ++ [f]))

def register (index : IndexState) (f : FiberId) (fiber : Fiber) : IndexState :=
  if !index.complete then index
  -- a Fiber that died first is not brought back
  else if !fiber.alive then index
  else fiber.edges.foldl (push f) index

/-- Retain the other Fibers of an entry, and remove an entry that is empty. -/
def retain (f : FiberId) (index : IndexState) (edge : DependencyEdge) : IndexState :=
  match index.reverse edge with
  | some list =>
      let rest := list.filter (· ≠ f)
      index.set edge (if rest.isEmpty then none else some rest)
  | none => index

def unregister (index : IndexState) (f : FiberId) (fiber : Fiber) : IndexState :=
  fiber.edges.foldl (retain f) index

/-- The section of `dependents_of` up to an edge. -/
structure Scan where
  index : IndexState
  upgraded : List FiberId := []
  emptied : List DependencyEdge := []

/-- Upgrade the entry of one edge and prune what is gone. -/
def visit (strong : FiberId → Bool) (scan : Scan) (edge : DependencyEdge) : Scan :=
  match scan.index.reverse edge with
  -- nobody was ever recorded under this edge
  | none => scan
  | some list =>
      -- dead references are pruned where a query meets them
      let retained := list.filter strong
      { index := scan.index.set edge (some retained)
        upgraded := scan.upgraded ++ retained
        emptied := if retained.isEmpty then scan.emptied ++ [edge] else scan.emptied }

/-- The first of every Fiber that is found more than once. -/
def unique : List FiberId → List FiberId → List FiberId
  | _, [] => []
  | seen, f :: rest => if f ∈ seen then unique seen rest else f :: unique (f :: seen) rest

def dependentsOf (index : IndexState) (strong : FiberId → Bool) (edges : List DependencyEdge) :
    IndexState × Option (List FiberId) :=
  if !index.complete then (index, none)
  else
    let scan := edges.foldl (visit strong) { index }
    (scan.emptied.foldl (fun index edge => index.set edge none) scan.index,
      some (unique [] scan.upgraded))

end IndexState

/-! ## All interleavings -/

structure Root where
  fibers : FiberId → Fiber := fun _ => {}
  nextFiber : FiberId := 0
  index : IndexState := {}

namespace Root

def put (s : Root) (f : FiberId) (fiber : Fiber) : Root :=
  { s with fibers := Function.update s.fibers f fiber }

/-- `Registry::snapshot_fibers`, in some order. -/
def snapshotFibers (s : Root) : List FiberId :=
  (List.range s.nextFiber).filter fun f => (s.fibers f).resident

/-- `dependents_for_edges`: the projection, or else a scan of the resident Fibers. -/
def dependentsForEdges (s : Root) (edges : List DependencyEdge) :
    Root × List FiberId :=
  match s.index.dependentsOf (fun f => (s.fibers f).strong) edges with
  | (index, some indexed) => ({ s with index := index }, indexed)
  | (index, none) =>
      ({ s with index := index }, s.snapshotFibers.filter fun f =>
        (s.fibers f).alive && (s.fibers f).edges.any fun edge => edge ∈ edges)

end Root

inductive Action where
  /-- A spawn allocates a Fiber and attaches it. -/
  | attach (edges : List DependencyEdge)
  | register (f : FiberId)
  /-- The death mark. -/
  | kill (f : FiberId)
  | unregister (f : FiberId)
  /-- The Registry lets the Fiber go. -/
  | unlink (f : FiberId)
  /-- The last strong reference is dropped. -/
  | forget (f : FiberId)
  | query (edges : List DependencyEdge)

/-- Every order of the operations; a projection that is not complete stays so. -/
def dependencies (complete : Bool) : Automaton Root Action where
  init := { index := { complete := complete } }
  step s
    | .attach edges =>
        some { s.put s.nextFiber { edges, alive := true, strong := true, resident := true } with
          nextFiber := s.nextFiber + 1 }
    | .register f =>
        let fiber := s.fibers f
        if f < s.nextFiber ∧ fiber.registered = false then
          some { s.put f { fiber with
              registered := true
              projected := s.index.complete && fiber.alive } with
            index := s.index.register f fiber }
        else none
    | .kill f => some (s.put f { s.fibers f with alive := false })
    | .unregister f =>
        let fiber := s.fibers f
        if fiber.alive = false ∧ fiber.strong = true then
          some { s.put f { fiber with withdrawn := true } with
            index := s.index.unregister f fiber }
        else none
    | .unlink f => some (s.put f { s.fibers f with resident := false })
    | .forget f =>
        let fiber := s.fibers f
        -- the spawn and the Registry hold references of their own
        if fiber.registered = true ∧ fiber.resident = false then
          some (s.put f { fiber with strong := false })
        else none
    | .query edges => some (s.dependentsForEdges edges).1

/-! ## The section of one query -/

namespace IndexState

variable {index : IndexState} {f g : FiberId} {edge other : DependencyEdge}
  {edges : List DependencyEdge} {strong : FiberId → Bool}

theorem rows_set_self (row : Option (List FiberId)) :
    (index.set edge row).rows edge = row.getD [] := by
  simp [rows, set]

theorem rows_set_ne (h : other ≠ edge) (row : Option (List FiberId)) :
    (index.set edge row).rows other = index.rows other := by
  simp [rows, set, h]

/-- Registration adds a Fiber to each entry as often as it declares the edge. -/
theorem rows_foldl_push (edges : List DependencyEdge) (index : IndexState) :
    (edges.foldl (push f) index).rows other =
      index.rows other ++ List.replicate (edges.count other) f := by
  induction edges generalizing index with
  | nil => simp
  | cons edge edges ih =>
      rw [List.foldl_cons, ih]
      by_cases h : other = edge
      · subst h
        rw [push, rows_set_self, List.count_cons_self, Option.getD_some, List.append_assoc,
          List.replicate_succ, List.singleton_append]
      · rw [push, rows_set_ne h, List.count_cons_of_ne (Ne.symm h)]

theorem rows_retain : (retain f index edge).rows other =
    if other = edge then (index.rows other).filter (· ≠ f) else index.rows other := by
  unfold retain
  by_cases h : other = edge
  · subst h
    rw [if_pos rfl]
    cases hrow : index.reverse other with
    | none => simp [rows, hrow]
    | some list =>
        rw [rows_set_self]
        have hrows : index.rows other = list := by simp [rows, hrow]
        rw [hrows]
        split
        · rename_i hempty
          exact (List.isEmpty_iff.mp hempty).symm
        · rfl
  · rw [if_neg h]
    cases hrow : index.reverse edge with
    | none => rfl
    | some list => exact rows_set_ne h _

/-- Unregistration takes a Fiber out of the entries of its edges. -/
theorem rows_foldl_retain (edges : List DependencyEdge) (index : IndexState) :
    (edges.foldl (retain f) index).rows other =
      if other ∈ edges then (index.rows other).filter (· ≠ f) else index.rows other := by
  induction edges generalizing index with
  | nil => simp
  | cons edge edges ih =>
      rw [List.foldl_cons, ih, rows_retain]
      by_cases h : other = edge
      · subst h
        simp
      · simp [h]

theorem rows_visit {scan : Scan} : (visit strong scan edge).index.rows other =
    if other = edge then (scan.index.rows other).filter strong else scan.index.rows other := by
  unfold visit
  by_cases h : other = edge
  · subst h
    rw [if_pos rfl]
    cases hrow : scan.index.reverse other with
    | none => simp [rows, hrow]
    | some list =>
        rw [rows_set_self]
        simp [rows, hrow]
  · rw [if_neg h]
    cases hrow : scan.index.reverse edge with
    | none => rfl
    | some list => exact rows_set_ne h _

theorem rows_foldl_visit (edges : List DependencyEdge) (scan : Scan) :
    (edges.foldl (visit strong) scan).index.rows other =
      if other ∈ edges then (scan.index.rows other).filter strong else scan.index.rows other := by
  induction edges generalizing scan with
  | nil => simp
  | cons edge edges ih =>
      rw [List.foldl_cons, ih, rows_visit]
      by_cases h : other = edge
      · subst h
        simp
      · simp [h]

theorem upgraded_visit {scan : Scan} : (visit strong scan edge).upgraded =
    scan.upgraded ++ (scan.index.rows edge).filter strong := by
  unfold visit
  cases hrow : scan.index.reverse edge with
  | none => simp [rows, hrow]
  | some list => simp [rows, hrow]

/-- Whoever is found declares one of the edges and can be upgraded, and the other way round. -/
theorem mem_upgraded (edges : List DependencyEdge) (scan : Scan) :
    f ∈ (edges.foldl (visit strong) scan).upgraded ↔
      f ∈ scan.upgraded ∨ strong f = true ∧ ∃ edge ∈ edges, f ∈ scan.index.rows edge := by
  induction edges generalizing scan with
  | nil => simp
  | cons edge edges ih =>
      rw [List.foldl_cons, ih, upgraded_visit, List.mem_append, List.mem_filter]
      simp only [rows_visit, List.mem_cons, exists_eq_or_imp]
      refine ⟨?_, ?_⟩
      · rintro ((hin | ⟨hin, hstrong⟩) | ⟨hstrong, other, hother, hin⟩)
        · exact .inl hin
        · exact .inr ⟨hstrong, .inl hin⟩
        · refine .inr ⟨hstrong, .inr ⟨other, hother, ?_⟩⟩
          split at hin
          · exact (List.mem_filter.mp hin).1
          · exact hin
      · rintro (hin | ⟨hstrong, hin | ⟨other, hother, hin⟩⟩)
        · exact .inl (.inl hin)
        · exact .inl (.inr ⟨hin, hstrong⟩)
        · refine .inr ⟨hstrong, other, hother, ?_⟩
          split
          · exact List.mem_filter.mpr ⟨hin, hstrong⟩
          · exact hin

theorem mem_unique (seen found : List FiberId) :
    f ∈ unique seen found ↔ f ∈ found ∧ f ∉ seen := by
  induction found generalizing seen with
  | nil => simp [unique]
  | cons g rest ih =>
      unfold unique
      split
      · rename_i hseen
        rw [ih, List.mem_cons]
        refine ⟨fun ⟨hin, hout⟩ => ⟨.inr hin, hout⟩, ?_⟩
        rintro ⟨rfl | hin, hout⟩
        · exact absurd hseen hout
        · exact ⟨hin, hout⟩
      · rename_i hunseen
        rw [List.mem_cons, ih, List.mem_cons, List.mem_cons, not_or]
        refine ⟨?_, ?_⟩
        · rintro (rfl | ⟨hin, -, hout⟩)
          · exact ⟨.inl rfl, hunseen⟩
          · exact ⟨.inr hin, hout⟩
        · rintro ⟨rfl | hin, hout⟩
          · exact .inl rfl
          · by_cases heq : f = g
            · exact .inl heq
            · exact .inr ⟨hin, heq, hout⟩

theorem nodup_unique (seen found : List FiberId) : (unique seen found).Nodup := by
  induction found generalizing seen with
  | nil => exact List.nodup_nil
  | cons g rest ih =>
      unfold unique
      split
      · exact ih seen
      · refine List.nodup_cons.mpr ⟨fun hin => ?_, ih _⟩
        exact ((mem_unique _ _).mp hin).2 List.mem_cons_self

/-! ## Entries are never empty -/

def Tidy (index : IndexState) : Prop :=
  ∀ edge, index.reverse edge ≠ some []

theorem Tidy.set (h : index.Tidy) {row : Option (List FiberId)} (hrow : row ≠ some []) :
    (index.set edge row).Tidy := by
  intro other
  by_cases hother : other = edge
  · subst hother
    simpa [IndexState.set] using hrow
  · simpa [IndexState.set, hother] using h other

theorem Tidy.foldl_push (h : index.Tidy) (f : FiberId) (edges : List DependencyEdge) :
    (edges.foldl (push f) index).Tidy := by
  induction edges generalizing index with
  | nil => exact h
  | cons edge edges ih =>
      refine ih (h.set fun heq => ?_)
      simpa using Option.some.inj heq

theorem Tidy.register (h : index.Tidy) (f : FiberId) (fiber : Fiber) :
    (index.register f fiber).Tidy := by
  unfold IndexState.register
  split
  · exact h
  · split
    · exact h
    · exact h.foldl_push f fiber.edges

theorem Tidy.unregister (h : index.Tidy) (f : FiberId) (fiber : Fiber) :
    (index.unregister f fiber).Tidy := by
  unfold IndexState.unregister
  generalize fiber.edges = edges
  induction edges generalizing index with
  | nil => exact h
  | cons edge edges ih =>
      refine ih ?_
      unfold retain
      split
      · refine h.set ?_
        split
        · simp
        · rename_i hrest
          simpa using hrest
      · exact h

/-- During the section an empty entry is listed for removal. -/
def Scan.Listed (scan : Scan) : Prop :=
  ∀ edge, scan.index.reverse edge = some [] → edge ∈ scan.emptied

theorem Scan.Listed.visit {scan : Scan} (h : scan.Listed) :
    (IndexState.visit strong scan edge).Listed := by
  intro other hother
  unfold IndexState.visit at hother ⊢
  split at hother
  · exact h other hother
  · rename_i list hrow
    by_cases heq : other = edge
    · subst heq
      simp only [IndexState.set, Function.update_self, Option.some.injEq] at hother
      simp [hother]
    · simp only [IndexState.set, Function.update_of_ne heq] at hother
      have hlisted := h other hother
      show other ∈ if (list.filter strong).isEmpty then scan.emptied ++ [edge] else scan.emptied
      split
      · exact List.mem_append_left _ hlisted
      · exact hlisted

theorem Scan.Listed.foldl {scan : Scan} (h : scan.Listed) (edges : List DependencyEdge) :
    (edges.foldl (IndexState.visit strong) scan).Listed := by
  induction edges generalizing scan with
  | nil => exact h
  | cons edge edges ih => exact ih h.visit

/-- What is listed for removal is empty. -/
def Scan.Drained (scan : Scan) : Prop :=
  ∀ edge ∈ scan.emptied, scan.index.rows edge = []

theorem Scan.Drained.visit {scan : Scan} (h : scan.Drained) :
    (IndexState.visit strong scan edge).Drained := by
  intro other hother
  rw [rows_visit]
  by_cases hlisted : other ∈ scan.emptied
  · rw [h other hlisted]
    simp
  · unfold IndexState.visit at hother
    split at hother
    · exact absurd hother hlisted
    · rename_i list hrow
      have hother : other ∈ if (list.filter strong).isEmpty then scan.emptied ++ [edge]
          else scan.emptied := hother
      split at hother
      · rename_i hempty
        rcases List.mem_append.mp hother with hother | hother
        · exact absurd hother hlisted
        · cases List.mem_singleton.mp hother
          have hrows : scan.index.rows edge = list := by simp [rows, hrow]
          rw [if_pos rfl, hrows]
          exact List.isEmpty_iff.mp hempty
      · exact absurd hother hlisted

theorem Scan.Drained.foldl {scan : Scan} (h : scan.Drained) (edges : List DependencyEdge) :
    (edges.foldl (IndexState.visit strong) scan).Drained := by
  induction edges generalizing scan with
  | nil => exact h
  | cons edge edges ih => exact ih h.visit

theorem reverse_foldl_remove (edges : List DependencyEdge) (index : IndexState) :
    (edges.foldl (fun index edge => index.set edge none) index).reverse other =
      if other ∈ edges then none else index.reverse other := by
  induction edges generalizing index with
  | nil => simp
  | cons edge edges ih =>
      rw [List.foldl_cons, ih]
      by_cases h : other = edge
      · subst h
        simp [set]
      · simp [set, h]

theorem complete_foldl (op : IndexState → DependencyEdge → IndexState)
    (h : ∀ index edge, (op index edge).complete = index.complete) (edges : List DependencyEdge)
    (index : IndexState) : (edges.foldl op index).complete = index.complete := by
  induction edges generalizing index with
  | nil => rfl
  | cons edge edges ih => rw [List.foldl_cons, ih, h]

theorem complete_register (index : IndexState) (f : FiberId) (fiber : Fiber) :
    (index.register f fiber).complete = index.complete := by
  unfold register
  split
  · rfl
  · split
    · rfl
    · exact complete_foldl (push f) (fun _ _ => rfl) _ _

theorem complete_unregister (index : IndexState) (f : FiberId) (fiber : Fiber) :
    (index.unregister f fiber).complete = index.complete := by
  refine complete_foldl (retain f) (fun index edge => ?_) _ _
  unfold retain
  split <;> rfl

theorem complete_visit (edges : List DependencyEdge) (scan : Scan) :
    (edges.foldl (visit strong) scan).index.complete = scan.index.complete := by
  induction edges generalizing scan with
  | nil => rfl
  | cons edge edges ih =>
      rw [List.foldl_cons, ih]
      unfold visit
      split <;> rfl

/-- What a query of a complete projection finds and leaves. -/
structure Found (index : IndexState) (strong : FiberId → Bool) (edges : List DependencyEdge)
    (index' : IndexState) (found : List FiberId) : Prop where
  complete : index'.complete = true
  nodup : found.Nodup
  mem : ∀ f, f ∈ found ↔ strong f = true ∧ ∃ edge ∈ edges, f ∈ index.rows edge
  /-- The entries of the query are pruned. -/
  rows : ∀ edge, index'.rows edge =
    if edge ∈ edges then (index.rows edge).filter strong else index.rows edge
  tidy : index.Tidy → index'.Tidy

theorem dependentsOf_complete (h : index.complete = true) (strong : FiberId → Bool)
    (edges : List DependencyEdge) : ∃ index' found,
      index.dependentsOf strong edges = (index', some found) ∧
        Found index strong edges index' found := by
  unfold dependentsOf
  rw [if_neg (by simp [h])]
  refine ⟨_, _, rfl, ?_, nodup_unique _ _, fun f => ?_, fun edge => ?_, fun htidy edge => ?_⟩
  · rw [complete_foldl (fun index edge => index.set edge none) (fun _ _ => rfl), complete_visit]
    exact h
  · rw [mem_unique, mem_upgraded]
    simp
  · have hrows : (edges.foldl (visit strong) { index }).index.rows edge =
        if edge ∈ edges then (index.rows edge).filter strong else index.rows edge :=
      rows_foldl_visit edges { index }
    rw [← hrows]
    simp only [rows, reverse_foldl_remove]
    split
    · rename_i hlisted
      have hdrained : Scan.Drained { index } := fun _ hedge => absurd hedge List.not_mem_nil
      exact (hdrained.foldl edges edge hlisted).symm
    · rfl
  · rw [reverse_foldl_remove]
    split
    · simp
    · rename_i hunlisted
      have hlisted : Scan.Listed { index } := fun other hother => absurd hother (htidy other)
      exact fun hempty => hunlisted (hlisted.foldl edges edge hempty)

end IndexState

end Dependencies
end CordisCore
