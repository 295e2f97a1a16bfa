import CordisCore.Context.Independence
import CordisCore.Loader.Load
import CordisCore.Loader.Order

/-!
# Placement — which realm every isolate row of a load selects

A load asks for one fresh realm for every private row and for every label that
it meets for the first time.  Two of its rows meet exactly where both are shared
under one label.
-/

namespace CordisCore
namespace Loader

open Interleaving
open Axes (Contracts Context RealmMembership ServiceRealm)

variable {C : Contracts}

/-! ## What a path allocated -/

abbrev Events (C : Contracts) := List (Event (Op C) Op.Ret)

/-- The realm that one event handed out. -/
def realmOf : Event (Op C) Op.Ret → Option ServiceRealm
  | ⟨.newServiceRealm _, answer⟩ => answer
  | _ => none

/-- The realms that these events handed out, in order. -/
def realmsOf (events : Events C) : List ServiceRealm :=
  events.filterMap realmOf

theorem realmsOf_append (a b : Events C) : realmsOf (a ++ b) = realmsOf a ++ realmsOf b :=
  List.filterMap_append ..

/-- Nothing but realm allocations. -/
def Allocations (membership : RealmMembership) (events : Events C) : Prop :=
  ∀ event ∈ events, ∃ answer, event = ⟨.newServiceRealm membership, answer⟩

theorem Allocations.append {membership : RealmMembership} {a b : Events C}
    (ha : Allocations membership a) (hb : Allocations membership b) :
    Allocations membership (a ++ b) := by
  intro event hevent
  rcases List.mem_append.mp hevent with hmem | hmem
  · exact ha event hmem
  · exact hb event hmem

/-! ## What a load may meet -/

/-- The answers that the machine gives: a realm comes from the Runtime that was asked. -/
def Admits : (op : Op C) → op.Ret → Prop
  | .newServiceRealm membership, answer =>
      ∀ realm : ServiceRealm, answer = some realm → realm.membership = membership
  | _, _ => True

/-- The answers after which a load unwinds. -/
def panics : Event (Op C) Op.Ret → Bool
  | ⟨.newServiceRealm _, none⟩ => true
  | ⟨.resolve _, .escaped _⟩ => true
  | ⟨.spawnStart _ _, .unwound⟩ => true
  | ⟨.spawnEnd _, .unwound⟩ => true
  | _ => false

def Panicked (events : Events C) : Prop :=
  ∃ event ∈ events, panics event = true

theorem panicked_last (events : Events C) {event : Event (Op C) Op.Ret}
    (h : panics event = true) : Panicked (events ++ [event]) :=
  ⟨event, List.mem_append_right _ (List.mem_singleton_self _), h⟩

/-- A load unwinds only after a panic. -/
def Guarded (events : Events C) : Op C → Prop
  | .unwind => Panicked events
  | _ => True

/-- A part of a load panics or ends like this. -/
def OrPanicked {α : Type} (post : α → Events C → Prop) : Option α → Events C → Prop
  | none, more => Panicked more
  | some a, more => post a more

/-- Every path through a part of a load. -/
abbrev Follows {α : Type} (x : Prog C (Option α)) (post : α → Events C → Prop)
    (events : Events C) : Prop :=
  Program.Along Admits Guarded x (OrPanicked post) events

/-- What follows a part of a load that may panic. -/
theorem Follows.andThen {α β : Type} {x : Prog C (Option α)} {f : Option α → Prog C (Option β)}
    {post : α → Events C → Prop} {post' : β → Events C → Prop} {events : Events C}
    (h : Follows x post events) (hpanic : f none = pure none)
    (hsome : ∀ a more, post a more → Follows (f (some a)) post' more) :
    Follows (x >>= f) post' events := by
  refine Program.Along.bind (h.mono fun out more hout => ?_)
  cases out with
  | none =>
      rw [hpanic]
      exact hout
  | some a => exact hsome a more hout

/-! ## Rows and realms -/

/-- One isolate row and the realm it was mapped to. -/
abbrev Placement := IsolateEntry × ServiceRealm

/-- Two rows meet in one realm exactly when both are shared under one label. -/
def Rendezvous (a b : Placement) : Prop :=
  a.2 = b.2 ↔ ∃ label, a.1.policy = .shared label ∧ b.1.policy = .shared label

/-- The rows placed so far, the labels met so far and all realms handed out. -/
structure Placements (env : RealmEnvironment) (rows : List Placement)
    (allocated : List ServiceRealm) : Prop where
  known : ∀ row ∈ rows, row.2 ∈ allocated
  env_known : ∀ label realm, env.lookup label = some realm → realm ∈ allocated
  labels : ∀ row ∈ rows, ∀ label, row.1.policy = .shared label → env.lookup label = some row.2
  injective : ∀ label label' realm, env.lookup label = some realm →
    env.lookup label' = some realm → label = label'
  hidden : ∀ row ∈ rows, row.1.policy = .privately → ∀ label, env.lookup label ≠ some row.2
  meet : rows.Pairwise Rendezvous

namespace Placements

variable {env : RealmEnvironment} {rows : List Placement} {allocated : List ServiceRealm}

theorem empty : Placements [] [] [] where
  known := nofun
  env_known := nofun
  labels := nofun
  injective := nofun
  hidden := nofun
  meet := .nil

theorem more (h : Placements env rows allocated) (extra : List ServiceRealm) :
    Placements env rows (allocated ++ extra) :=
  { h with
    known := fun row hrow => List.mem_append_left _ (h.known row hrow)
    env_known := fun label realm hlabel => List.mem_append_left _ (h.env_known label realm hlabel) }

theorem pairwise_snoc {row : Placement} (h : rows.Pairwise Rendezvous)
    (hrow : ∀ other ∈ rows, Rendezvous other row) : (rows ++ [row]).Pairwise Rendezvous := by
  refine List.pairwise_append.mpr ⟨h, List.pairwise_singleton _ _, ?_⟩
  intro other hother last hlast
  rw [List.mem_singleton.mp hlast]
  exact hrow other hother

/-- A private row takes a realm that nobody has. -/
theorem privately (h : Placements env rows allocated) (row : Placement)
    (hpolicy : row.1.policy = .privately) (hfresh : row.2 ∉ allocated) :
    Placements env (rows ++ [row]) (allocated ++ [row.2]) where
  known other hother := by
    rcases List.mem_append.mp hother with hold | hnew
    · exact List.mem_append_left _ (h.known other hold)
    · rw [List.mem_singleton.mp hnew]
      exact List.mem_append_right _ (List.mem_singleton_self _)
  env_known label realm hlabel := List.mem_append_left _ (h.env_known label realm hlabel)
  labels other hother label hlabel := by
    rcases List.mem_append.mp hother with hold | hnew
    · exact h.labels other hold label hlabel
    · rw [List.mem_singleton.mp hnew, hpolicy] at hlabel
      cases hlabel
  injective := h.injective
  hidden other hother hprivate label := by
    rcases List.mem_append.mp hother with hold | hnew
    · exact h.hidden other hold hprivate label
    · rw [List.mem_singleton.mp hnew]
      exact fun hlabel => hfresh (h.env_known label _ hlabel)
  meet := by
    refine pairwise_snoc h.meet fun other hother => ?_
    constructor
    · intro heq
      exact absurd (heq ▸ h.known other hother) hfresh
    · rintro ⟨label, -, hlabel⟩
      rw [hpolicy] at hlabel
      cases hlabel

/-- A shared row under a label met before takes that label's realm. -/
theorem rejoin (h : Placements env rows allocated) (row : Placement) {label : String}
    (hpolicy : row.1.policy = .shared label) (hlabel : env.lookup label = some row.2) :
    Placements env (rows ++ [row]) allocated where
  known other hother := by
    rcases List.mem_append.mp hother with hold | hnew
    · exact h.known other hold
    · rw [List.mem_singleton.mp hnew]
      exact h.env_known label _ hlabel
  env_known := h.env_known
  labels other hother other_label hother_label := by
    rcases List.mem_append.mp hother with hold | hnew
    · exact h.labels other hold other_label hother_label
    · rw [List.mem_singleton.mp hnew, hpolicy, RealmPolicy.shared.injEq] at hother_label
      rw [List.mem_singleton.mp hnew, ← hother_label]
      exact hlabel
  injective := h.injective
  hidden other hother hprivate := by
    rcases List.mem_append.mp hother with hold | hnew
    · exact h.hidden other hold hprivate
    · rw [List.mem_singleton.mp hnew, hpolicy] at hprivate
      cases hprivate
  meet := by
    refine pairwise_snoc h.meet fun other hother => ?_
    constructor
    · intro heq
      cases hother_policy : other.1.policy with
      | privately => exact absurd (heq ▸ hlabel) (h.hidden other hother hother_policy label)
      | shared other_label =>
          have hlookup := h.labels other hother other_label hother_policy
          obtain rfl := h.injective _ _ _ (heq ▸ hlookup) hlabel
          exact ⟨_, rfl, hpolicy⟩
    · rintro ⟨same, hsame, hrow⟩
      rw [hpolicy, RealmPolicy.shared.injEq] at hrow
      have hlookup := h.labels other hother same hsame
      rw [← hrow, hlabel, Option.some.injEq] at hlookup
      exact hlookup.symm

/-- A label met for the first time takes a realm that nobody has. -/
theorem open_ (h : Placements env rows allocated) (row : Placement) {label : String}
    (hpolicy : row.1.policy = .shared label) (hlabel : env.lookup label = none)
    (hfresh : row.2 ∉ allocated) :
    Placements ((label, row.2) :: env) (rows ++ [row]) (allocated ++ [row.2]) := by
  -- the other labels keep their realms
  have hkept : ∀ other, other ≠ label →
      ((label, row.2) :: env).lookup other = env.lookup other := by
    intro other hne
    rw [List.lookup_cons, beq_eq_false_iff_ne.mpr hne]
  have hself : ((label, row.2) :: env).lookup label = some row.2 := by simp
  have hold : Placements ((label, row.2) :: env) rows (allocated ++ [row.2]) := by
    constructor
    case known => exact (h.more [row.2]).known
    case env_known =>
      intro other realm hother
      by_cases hne : other = label
      · rw [hne, hself, Option.some.injEq] at hother
        exact List.mem_append_right _ (hother ▸ List.mem_singleton_self _)
      · rw [hkept other hne] at hother
        exact List.mem_append_left _ (h.env_known other realm hother)
    case labels =>
      intro other hother other_label hother_policy
      have hlookup := h.labels other hother other_label hother_policy
      have hne : other_label ≠ label := by
        rintro rfl
        rw [hlabel] at hlookup
        cases hlookup
      rw [hkept _ hne]
      exact hlookup
    case injective =>
      -- the fresh realm belongs to no other label
      have hnew : ∀ other realm, other ≠ label → env.lookup other = some realm →
          realm ≠ row.2 := by
        rintro other realm - hother rfl
        exact hfresh (h.env_known other _ hother)
      intro a b realm ha hb
      by_cases hane : a = label <;> by_cases hbne : b = label
      · rw [hane, hbne]
      · rw [hane, hself, Option.some.injEq] at ha
        rw [hkept b hbne] at hb
        exact absurd ha.symm (hnew b realm hbne hb)
      · rw [hbne, hself, Option.some.injEq] at hb
        rw [hkept a hane] at ha
        exact absurd hb.symm (hnew a realm hane ha)
      · rw [hkept a hane] at ha
        rw [hkept b hbne] at hb
        exact h.injective a b realm ha hb
    case hidden =>
      intro other hother hprivate other_label
      by_cases hne : other_label = label
      · rw [hne, hself]
        intro heq
        rw [Option.some.injEq] at heq
        -- a private row got its realm before, so not the fresh one
        exact hfresh (heq ▸ h.known other hother)
      · rw [hkept _ hne]
        exact h.hidden other hother hprivate other_label
    case meet => exact h.meet
  exact hold.rejoin row hpolicy hself

end Placements

/-! ## The programs that place rows -/

/-- The rows and labels after these events: all of this Runtime, and placed well as long as no
realm came out twice. -/
structure Placing (membership : RealmMembership) (env : RealmEnvironment) (rows : List Placement)
    (events : Events C) : Prop where
  env_own : ∀ label realm, env.lookup label = some realm → realm.membership = membership
  rows_own : ∀ row ∈ rows, row.2.membership = membership
  placed : (realmsOf events).Nodup → Placements env rows (realmsOf events)

namespace Placing

variable {membership : RealmMembership} {env : RealmEnvironment} {rows : List Placement}
variable {events : Events C}

theorem start : Placing (C := C) membership [] [] [] where
  env_own := nofun
  rows_own := nofun
  placed _ := .empty

/-- An event that hands out no realm. -/
theorem quiet (h : Placing membership env rows events) {event : Event (Op C) Op.Ret}
    (hevent : realmOf event = none) : Placing membership env rows (events ++ [event]) := by
  have hsame : realmsOf (events ++ [event]) = realmsOf events := by
    simp [realmsOf, hevent]
  refine ⟨h.env_own, h.rows_own, ?_⟩
  rw [hsame]
  exact h.placed

theorem rows_snoc (h : Placing membership env rows events) {entry : IsolateEntry}
    {realm : ServiceRealm} (hrealm : realm.membership = membership) :
    ∀ row ∈ rows ++ [(entry, realm)], row.2.membership = membership := by
  intro row hrow
  rcases List.mem_append.mp hrow with hold | hnew
  · exact h.rows_own row hold
  · rw [List.mem_singleton.mp hnew]
    exact hrealm

/-- One more row, on a realm that was handed out for it. -/
theorem fresh (h : Placing membership env rows events) {env' : RealmEnvironment}
    {realm : ServiceRealm} {entry : IsolateEntry} (hrealm : realm.membership = membership)
    (hlabels : ∀ label realm, env'.lookup label = some realm → realm.membership = membership)
    (hstep : Placements env rows (realmsOf events) → realm ∉ realmsOf events →
      Placements env' (rows ++ [(entry, realm)]) (realmsOf events ++ [realm])) :
    Placing membership env' (rows ++ [(entry, realm)])
      (events ++ [⟨.newServiceRealm membership, some realm⟩]) := by
  have hgrown := realmsOf_append events [⟨.newServiceRealm membership, some realm⟩]
  change _ = realmsOf events ++ [realm] at hgrown
  refine ⟨hlabels, h.rows_snoc hrealm, ?_⟩
  rw [hgrown]
  intro hnodup
  have hsplit := List.nodup_append.mp hnodup
  refine hstep (h.placed hsplit.1) fun hmem => ?_
  exact hsplit.2.2 realm hmem realm (List.mem_singleton_self _) rfl

end Placing

theorem along_realmFor (membership : RealmMembership) (env : RealmEnvironment)
    (entry : IsolateEntry) {rows : List Placement} {events : Events C}
    (h : Placing membership env rows events) :
    Follows (realmFor membership env entry.policy)
      (fun out more => (∃ allocs, more = events ++ allocs ∧ Allocations membership allocs) ∧
        Placing membership out.1 (rows ++ [(entry, out.2)]) more) events := by
  have hallocation : ∀ answer : Option ServiceRealm,
      Allocations (C := C) membership [⟨.newServiceRealm membership, answer⟩] := by
    intro answer event hevent
    exact ⟨answer, List.mem_singleton.mp hevent⟩
  cases hpolicy : entry.policy with
  | privately =>
      rw [realmFor]
      refine Program.Along.bind (Program.Along.perform trivial fun answer hanswer => ?_)
      cases answer with
      | none => exact panicked_last _ rfl
      | some realm =>
          refine ⟨⟨_, rfl, hallocation _⟩, h.fresh (hanswer realm rfl) h.env_own ?_⟩
          intro hplaced hfresh
          exact hplaced.privately (entry, realm) hpolicy hfresh
  | shared label =>
      simp only [realmFor]
      cases hlabel : env.lookup label with
      | some realm =>
          refine ⟨⟨[], (List.append_nil _).symm, nofun⟩, h.env_own,
            h.rows_snoc (h.env_own label realm hlabel), fun hnodup => ?_⟩
          exact (h.placed hnodup).rejoin (entry, realm) hpolicy hlabel
      | none =>
          refine Program.Along.bind (Program.Along.perform trivial fun answer hanswer => ?_)
          cases answer with
          | none => exact panicked_last _ rfl
          | some realm =>
              refine ⟨⟨_, rfl, hallocation _⟩, h.fresh (hanswer realm rfl) ?_ ?_⟩
              · intro other found hfound
                by_cases hother : other = label
                · simp only [hother, List.lookup_cons_self, Option.some.injEq] at hfound
                  exact hfound ▸ hanswer realm rfl
                · rw [List.lookup_cons, beq_eq_false_iff_ne.mpr hother] at hfound
                  exact h.env_own other found hfound
              · intro hplaced hfresh
                exact hplaced.open_ (entry, realm) hpolicy hlabel hfresh

/-- Every declaration gets its realm, in declaration order. -/
theorem along_mappings (membership : RealmMembership) (declarations : List IsolateEntry) :
    ∀ (env : RealmEnvironment) (rows : List Placement) (events : Events C),
      Placing membership env rows events →
      Follows (mappings membership env declarations)
        (fun out more => (∃ allocs, more = events ++ allocs ∧ Allocations membership allocs) ∧
          ∃ placed : List Placement, placed.map Prod.fst = declarations ∧
            out.2 = placed.map (fun row => (row.1.service, row.2)) ∧
              Placing membership out.1 (rows ++ placed) more) events := by
  induction declarations with
  | nil =>
      intro env rows events h
      refine ⟨⟨[], (List.append_nil _).symm, nofun⟩, [], rfl, rfl, ?_⟩
      rwa [List.append_nil]
  | cons declaration declarations ih =>
      intro env rows events h
      refine (along_realmFor membership env declaration h).andThen rfl ?_
      rintro ⟨env₁, realm⟩ more ⟨⟨allocs, rfl, hallocs⟩, hplacing⟩
      refine (ih env₁ _ _ hplacing).andThen rfl ?_
      rintro ⟨env₂, pairs⟩ more ⟨⟨allocs', rfl, hallocs'⟩, placed, hplaced, rfl, hall⟩
      refine ⟨⟨allocs ++ allocs', List.append_assoc .., hallocs.append hallocs'⟩,
        (declaration, realm) :: placed, by simp [hplaced], rfl, ?_⟩
      simpa using hall

end Loader
end CordisCore
