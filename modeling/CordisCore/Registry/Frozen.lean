import CordisCore.Registry.Claims

/-!
# Frozen sets — residents, allocations and removals agree
-/

namespace CordisCore
namespace Runtime

open Interleaving

/-! ## What the registry log says -/

/-- Attached under this key, not released, and in no removal's frozen set so far. -/
structure Standing (keys : GroupId → PluginKey) (log : List RegistryEvent) (key : PluginKey)
    (f : FiberId) : Prop where
  attached : ∃ group, .attached f group ∈ log ∧ keys group = key
  unreleased : ∀ group, .released f group ∉ log
  unfrozen : ∀ group frozen, .detached group frozen ∈ log → f ∉ frozen

/-- Attach and release happen once; a removal freezes exactly what waits under its key. -/
def Chronicle (keys : GroupId → PluginKey) : List RegistryEvent → Prop
  | [] => True
  | .attached f _ :: earlier => (∀ group, .attached f group ∉ earlier) ∧ Chronicle keys earlier
  | .released f group :: earlier =>
      .attached f group ∈ earlier ∧ (∀ group, .released f group ∉ earlier) ∧
        Chronicle keys earlier
  | .detached group frozen :: earlier =>
      frozen.Nodup ∧ (∀ f, f ∈ frozen ↔ Standing keys earlier (keys group) f) ∧
        Chronicle keys earlier

/-- The allocation that an event names. -/
def RegistryEvent.group : RegistryEvent → GroupId
  | attached _ group | detached group _ | released _ group => group

theorem Standing.congr {keys keys' : GroupId → PluginKey} {log : List RegistryEvent}
    (h : ∀ event ∈ log, keys' event.group = keys event.group) {key : PluginKey} {f : FiberId} :
    Standing keys' log key f ↔ Standing keys log key f := by
  constructor
  · rintro ⟨⟨group, hattached, hkey⟩, hunreleased, hunfrozen⟩
    exact ⟨⟨group, hattached, (h _ hattached).symm.trans hkey⟩, hunreleased, hunfrozen⟩
  · rintro ⟨⟨group, hattached, hkey⟩, hunreleased, hunfrozen⟩
    exact ⟨⟨group, hattached, (h _ hattached).trans hkey⟩, hunreleased, hunfrozen⟩

/-- Later allocations do not change what the log says. -/
theorem Chronicle.congr {keys keys' : GroupId → PluginKey} {log : List RegistryEvent}
    (h : ∀ event ∈ log, keys' event.group = keys event.group) (hlog : Chronicle keys log) :
    Chronicle keys' log := by
  induction log with
  | nil => trivial
  | cons event earlier ih =>
      have hearlier : ∀ event ∈ earlier, keys' event.group = keys event.group :=
        fun event hevent => h event (List.mem_cons_of_mem _ hevent)
      cases event with
      | attached f group => exact ⟨hlog.1, ih hearlier hlog.2⟩
      | released f group => exact ⟨hlog.1, hlog.2.1, ih hearlier hlog.2.2⟩
      | detached group frozen =>
          refine ⟨hlog.1, fun f => ?_, ih hearlier hlog.2.2⟩
          have hgroup : keys' group = keys group := h _ List.mem_cons_self
          rw [hgroup]
          exact (hlog.2.1 f).trans (Standing.congr hearlier).symm

theorem Chronicle.of_append {keys : GroupId → PluginKey} {later earlier : List RegistryEvent}
    (h : Chronicle keys (later ++ earlier)) : Chronicle keys earlier := by
  induction later with
  | nil => exact h
  | cons event later ih =>
      cases event with
      | attached f group => exact ih h.2
      | released f group | detached group frozen => exact ih h.2.2

/-- Whoever is attached later was not attached before. -/
theorem Chronicle.attached_later {keys : GroupId → PluginKey} {later earlier : List RegistryEvent}
    (h : Chronicle keys (later ++ earlier)) {f : FiberId} {group group' : GroupId}
    (hlater : .attached f group ∈ later) : .attached f group' ∉ earlier := by
  induction later with
  | nil => cases hlater
  | cons event later ih =>
      rcases List.mem_cons.mp hlater with rfl | hrest
      · exact fun hearlier => h.1 group' (List.mem_append_right _ hearlier)
      · cases event with
        | attached g group'' => exact ih h.2 hrest
        | released g group'' | detached group'' frozen => exact ih h.2.2 hrest

/-! ## The invariant -/

/-- Residents, groups, the map and the removals agree with the log. -/
structure RegistryExact (s : Root) : Prop where
  unique : s.residents.Nodup
  residents : ∀ f, f ∈ s.residents ↔ (∃ group, Attached s f group) ∧ ¬ Released s f
  distinct : ∀ group, (s.groups group).Nodup
  members : ∀ {f group}, f ∈ s.groups group ↔ Attached s f group ∧ ¬ Released s f
  keys : (s.allocations.map Prod.fst).Nodup
  nonempty : ∀ row ∈ s.allocations, s.groups row.2 ≠ []
  placed : ∀ {f group}, f ∈ s.groups group → (s.groupKeys group, group) ∈ s.allocations ∨
    ∃ frozen, .detached group frozen ∈ s.registryLog ∧ f ∈ frozen
  current : ∀ row ∈ s.allocations, ∀ frozen, .detached row.2 frozen ∉ s.registryLog
  frozen : ∀ {f group frozen}, .detached group frozen ∈ s.registryLog → f ∈ frozen →
    Attached s f group
  detached : ∀ {group frozen}, .detached group frozen ∈ s.registryLog → group < s.nextGroup
  chronicle : Chronicle s.groupKeys s.registryLog

/-- The allocation that a release upgrades. -/
def upgradedGroup : Op → Option GroupId
  | .upgradeClaim _ group => some group
  | _ => none

/-- A claim is released while somebody still holds its allocation. -/
def upgradable : Condition :=
  Machine.finds upgradedGroup fun group s => s.groupAlive group = true

section Step

variable {self fresh : Party} {choice : Choice} {op : Op} {s s' : Root} {r : op.Ret}

theorem eq_of_mapped (hs : RegistryExact s) {key : PluginKey} {group group' : GroupId}
    (h : (key, group) ∈ s.allocations) (h' : (key, group') ∈ s.allocations) : group = group' := by
  have hinj := List.inj_on_of_nodup_map hs.keys h h' rfl
  exact congrArg Prod.snd hinj

theorem allocationOf_eq_none {key : PluginKey} (h : s.allocationOf key = none) :
    ∀ row ∈ s.allocations, row.1 ≠ key := by
  intro row hrow hkey
  rw [Root.allocationOf, Option.map_eq_none_iff, List.find?_eq_none] at h
  exact h row hrow (decide_eq_true hkey)

/-- The attached Fiber waits in the allocation it joined. -/
theorem RegistryExact.join (hs : RegistryExact s) (hc : Claims s) {f : FiberId}
    {group : GroupId} (hf : ∀ group, ¬ Attached s f group)
    (hlog : s'.registryLog = .attached f group :: s.registryLog)
    (hgroup : s'.groups group = s.groups group ++ [f])
    (hgroups : ∀ g, g ≠ group → s'.groups g = s.groups g)
    (hresidents : s'.residents = s.residents ++ [f])
    (hkeys : ∀ g, g < s.nextGroup → s'.groupKeys g = s.groupKeys g)
    (hnext : s.nextGroup ≤ s'.nextGroup)
    (hmapped : (s'.groupKeys group, group) ∈ s'.allocations)
    (hkept : ∀ row ∈ s.allocations, row ∈ s'.allocations)
    (hrows : ∀ row ∈ s'.allocations, row ∈ s.allocations ∨ row.2 = group)
    (hnodup : (s'.allocations.map Prod.fst).Nodup)
    (hcurrent : ∀ frozen, .detached group frozen ∉ s.registryLog) : RegistryExact s' := by
  have hattached : ∀ {g group'}, Attached s' g group' ↔
      Attached s g group' ∨ g = f ∧ group' = group := by
    intro g group'
    rw [Attached, hlog, List.mem_cons, RegistryEvent.attached.injEq]
    exact Or.comm
  have hreleased : ∀ {g}, Released s' g ↔ Released s g := by
    intro g
    simp only [Released, hlog, List.mem_cons, reduceCtorEq, false_or]
  have hold : ∀ {group' frozen}, .detached group' frozen ∈ s'.registryLog ↔
      .detached group' frozen ∈ s.registryLog := by
    intro group' frozen
    rw [hlog, List.mem_cons]
    simp only [reduceCtorEq, false_or]
  -- the Fiber was never attached, so it waits nowhere yet
  have hfresh : ∀ group', f ∉ s.groups group' := fun group' hmem =>
    hf group' (hs.members.mp hmem).1
  have hunreleased : ¬ Released s f := by
    rintro ⟨group', hleft⟩
    exact hf group' (hc.left hleft)
  have hmembers : ∀ {g group'}, g ∈ s'.groups group' ↔
      g ∈ s.groups group' ∨ g = f ∧ group' = group := by
    intro g group'
    by_cases heq : group' = group
    · subst heq
      rw [hgroup, List.mem_append, List.mem_singleton]
      simp only [and_true]
    · rw [hgroups group' heq]
      simp only [heq, and_false, or_false]
  have hsame : ∀ event ∈ s.registryLog, s'.groupKeys event.group = s.groupKeys event.group := by
    intro event hevent
    refine hkeys _ ?_
    cases event with
    | attached g group' => exact (hc.known hevent).2
    | released g group' => exact (hc.known (hc.left hevent)).2
    | detached group' frozen => exact hs.detached hevent
  refine {
    unique := ?unique
    residents := ?residents
    distinct := ?distinct
    members := ?members
    keys := hnodup
    nonempty := ?nonempty
    placed := ?placed
    current := ?current
    frozen := ?frozenAttached
    detached := ?detachedKnown
    chronicle := ?chronicle }
  case unique =>
    rw [hresidents]
    refine List.nodup_append.mpr ⟨hs.unique, List.nodup_singleton f, ?_⟩
    rintro g hg _ hgf rfl
    obtain rfl := List.mem_singleton.mp hgf
    rcases (hs.residents g).mp hg with ⟨⟨group', hattached'⟩, -⟩
    exact hf group' hattached'
  case residents =>
    intro g
    rw [hresidents, List.mem_append, List.mem_singleton, hs.residents g, hreleased]
    simp only [hattached]
    constructor
    · rintro (⟨⟨group', hg⟩, hr⟩ | rfl)
      · exact ⟨⟨group', .inl hg⟩, hr⟩
      · exact ⟨⟨group, .inr ⟨rfl, rfl⟩⟩, hunreleased⟩
    · rintro ⟨⟨group', hg | ⟨rfl, -⟩⟩, hr⟩
      · exact .inl ⟨⟨group', hg⟩, hr⟩
      · exact .inr rfl
  case distinct =>
    intro group'
    by_cases heq : group' = group
    · subst heq
      rw [hgroup]
      refine List.nodup_append.mpr ⟨hs.distinct _, List.nodup_singleton f, ?_⟩
      rintro g hg _ hgf rfl
      obtain rfl := List.mem_singleton.mp hgf
      exact hfresh _ hg
    · rw [hgroups group' heq]
      exact hs.distinct group'
  case members =>
    intro g group'
    rw [hmembers, hs.members, hattached, hreleased]
    constructor
    · rintro (⟨hg, hr⟩ | ⟨rfl, rfl⟩)
      · exact ⟨.inl hg, hr⟩
      · exact ⟨.inr ⟨rfl, rfl⟩, hunreleased⟩
    · rintro ⟨hg | ⟨rfl, rfl⟩, hr⟩
      · exact .inl ⟨hg, hr⟩
      · exact .inr ⟨rfl, rfl⟩
  case nonempty =>
    intro row hrow hempty
    by_cases heq : row.2 = group
    · rw [heq, hgroup] at hempty
      exact absurd hempty (List.append_ne_nil_of_right_ne_nil _ (List.cons_ne_nil _ _))
    · rw [hgroups _ heq] at hempty
      rcases hrows row hrow with hold' | hnew
      · exact hs.nonempty row hold' hempty
      · exact heq hnew
  case placed =>
    intro g group' hg
    by_cases heq : group' = group
    · subst heq
      exact .inl hmapped
    · rw [hgroups group' heq] at hg
      rw [hkeys group' (hc.known (hs.members.mp hg).1).2]
      rcases hs.placed hg with hrow | ⟨frozen, hfrozen, hmem⟩
      · exact .inl (hkept _ hrow)
      · exact .inr ⟨frozen, hold.mpr hfrozen, hmem⟩
  case current =>
    intro row hrow frozen hfrozen
    rcases hrows row hrow with hold' | hnew
    · exact hs.current row hold' frozen (hold.mp hfrozen)
    · exact hcurrent frozen (hnew ▸ hold.mp hfrozen)
  case frozenAttached =>
    intro g group' frozen hfrozen hmem
    exact hattached.mpr (.inl (hs.frozen (hold.mp hfrozen) hmem))
  case detachedKnown =>
    intro group' frozen hfrozen
    exact Nat.lt_of_lt_of_le (hs.detached (hold.mp hfrozen)) hnext
  case chronicle =>
    rw [hlog]
    exact ⟨hf, hs.chronicle.congr hsame⟩

theorem RegistryExact.attach (hs : RegistryExact s) (hc : Claims s) {f : FiberId}
    {key : PluginKey} (hf : Made self s f) : RegistryExact (s.attach f key) := by
  rcases attach_eq s f key with ⟨group, s₁, heq, hcase⟩
  rw [heq]
  rcases hcase with ⟨rfl, hmapped⟩ | ⟨rfl, rfl, hnone⟩
  · have hrow := mem_of_allocationOf hmapped
    refine hs.join hc hf.unattached rfl (if_pos rfl) (fun g hg => if_neg hg) rfl
      (fun _ _ => rfl) (Nat.le_refl _) ?_ (fun _ h => h) (fun _ h => .inl h) hs.keys ?_
    · show (s₁.groupKeys group, group) ∈ s₁.allocations
      rw [(hc.mapped hrow).1]
      exact hrow
    · exact hs.current _ hrow
  · have hbare : s.groups s.nextGroup = [] := by
      rw [List.eq_nil_iff_forall_not_mem]
      intro g hg
      exact absurd (hc.known (hs.members.mp hg).1).2 (Nat.lt_irrefl _)
    refine hs.join hc hf.unattached rfl ?_ (fun g hg => if_neg hg) rfl
      (fun g hg => if_neg (Nat.ne_of_lt hg)) (Nat.le_succ _) ?_
      (fun _ h => List.mem_cons_of_mem _ h) ?_ ?_ ?_
    · exact if_pos rfl
    · show ((s.newGroup key).groupKeys s.nextGroup, s.nextGroup) ∈ (key, s.nextGroup) :: s.allocations
      have hkey : (s.newGroup key).groupKeys s.nextGroup = key := if_pos rfl
      rw [hkey]
      exact List.mem_cons_self
    · intro row hrow
      rcases List.mem_cons.mp hrow with rfl | hold
      · exact .inr rfl
      · exact .inl hold
    · show (key :: s.allocations.map Prod.fst).Nodup
      refine List.nodup_cons.mpr ⟨fun hmem => ?_, hs.keys⟩
      rcases List.mem_map.mp hmem with ⟨row, hrow, hkey⟩
      exact allocationOf_eq_none hnone row hrow hkey
    · exact fun frozen hfrozen => absurd (hs.detached hfrozen) (Nat.lt_irrefl _)

/-- A release takes its Fiber out of its own allocation and nothing else. -/
theorem RegistryExact.release (hs : RegistryExact s) (hc : Claims s) {f : FiberId}
    {group : GroupId} (hf : Taken self s f group) :
    RegistryExact ((s.releaseClaim f group).put f ((s.fibers f).unlinked self)) := by
  have hlog : ((s.releaseClaim f group).put f ((s.fibers f).unlinked self)).registryLog =
      .released f group :: s.registryLog := rfl
  have htaken := hc.taken hf.unlinking
  generalize hs' : (s.releaseClaim f group).put f ((s.fibers f).unlinked self) = s' at hlog ⊢
  have hresidents : s'.residents = s.residents.erase f := hs' ▸ rfl
  have hgroup : s'.groups group = (s.groups group).erase f := by
    rw [← hs']
    exact if_pos rfl
  have hgroups : ∀ g, g ≠ group → s'.groups g = s.groups g := by
    intro g hg
    rw [← hs']
    exact if_neg hg
  have hkeys : s'.groupKeys = s.groupKeys := hs' ▸ rfl
  have hnext : s'.nextGroup = s.nextGroup := hs' ▸ rfl
  have hallocations : s'.allocations = if (s.groups group).erase f = [] then
      s.allocations.filter (fun row => row.2 ≠ group) else s.allocations := hs' ▸ rfl
  -- an allocation stays mapped exactly as long as somebody waits in it
  have hrows : ∀ row ∈ s'.allocations, row ∈ s.allocations ∧ s'.groups row.2 ≠ [] := by
    intro row hrow
    rw [hallocations] at hrow
    by_cases hbare : (s.groups group).erase f = []
    · rw [if_pos hbare, List.mem_filter] at hrow
      have hne : row.2 ≠ group := of_decide_eq_true hrow.2
      rw [hgroups _ hne]
      exact ⟨hrow.1, hs.nonempty row hrow.1⟩
    · rw [if_neg hbare] at hrow
      by_cases heq : row.2 = group
      · rw [heq, hgroup]
        exact ⟨hrow, hbare⟩
      · rw [hgroups _ heq]
        exact ⟨hrow, hs.nonempty row hrow⟩
  have hkept : ∀ row ∈ s.allocations, s'.groups row.2 ≠ [] → row ∈ s'.allocations := by
    intro row hrow hbusy
    rw [hallocations]
    split
    · rename_i hbare
      refine List.mem_filter.mpr ⟨hrow, decide_eq_true fun heq => hbusy ?_⟩
      rw [heq, hgroup]
      exact hbare
    · exact hrow
  have hattached : ∀ {g group'}, Attached s' g group' ↔ Attached s g group' := by
    intro g group'
    rw [Attached, hlog, List.mem_cons]
    simp only [reduceCtorEq, false_or]
    exact Iff.rfl
  have hreleased : ∀ {g}, Released s' g ↔ Released s g ∨ g = f := by
    intro g
    simp only [Released, hlog, List.mem_cons, RegistryEvent.released.injEq]
    constructor
    · rintro ⟨group', ⟨rfl, -⟩ | hold⟩
      · exact .inr rfl
      · exact .inl ⟨group', hold⟩
    · rintro (⟨group', hold⟩ | rfl)
      · exact ⟨group', .inr hold⟩
      · exact ⟨group, .inl ⟨rfl, rfl⟩⟩
  have hold : ∀ {group' frozen}, .detached group' frozen ∈ s'.registryLog ↔
      .detached group' frozen ∈ s.registryLog := by
    intro group' frozen
    rw [hlog, List.mem_cons]
    simp only [reduceCtorEq, false_or]
  have hmembers : ∀ {g group'}, g ∈ s'.groups group' ↔ g ∈ s.groups group' ∧ g ≠ f := by
    intro g group'
    by_cases heq : group' = group
    · subst heq
      rw [hgroup, (hs.distinct _).mem_erase_iff]
      exact And.comm
    · rw [hgroups group' heq]
      -- a Fiber is attached to one allocation only
      refine ⟨fun hg => ⟨hg, fun hgf => heq ?_⟩, fun hg => hg.1⟩
      subst hgf
      exact hc.once (hs.members.mp hg).1 hf.attached
  refine {
    unique := ?unique
    residents := ?residents
    distinct := ?distinct
    members := ?members
    keys := ?keys
    nonempty := fun row hrow => (hrows row hrow).2
    placed := ?placed
    current := ?current
    frozen := ?frozenAttached
    detached := ?detachedKnown
    chronicle := ?chronicle }
  case unique =>
    rw [hresidents]
    exact hs.unique.erase f
  case residents =>
    intro g
    rw [hresidents, hs.unique.mem_erase_iff, hs.residents g, hreleased]
    simp only [hattached]
    tauto
  case distinct =>
    intro group'
    by_cases heq : group' = group
    · subst heq
      rw [hgroup]
      exact (hs.distinct _).erase f
    · rw [hgroups group' heq]
      exact hs.distinct group'
  case members =>
    intro g group'
    rw [hmembers, hs.members, hattached, hreleased]
    tauto
  case keys =>
    rw [hallocations]
    split
    · exact hs.keys.sublist (List.filter_sublist.map Prod.fst)
    · exact hs.keys
  case placed =>
    intro g group' hg
    rw [hkeys]
    have hmember := hmembers.mp hg
    rcases hs.placed hmember.1 with hrow | ⟨frozen, hfrozen, hmem⟩
    · exact .inl (hkept _ hrow (List.ne_nil_of_mem hg))
    · exact .inr ⟨frozen, hold.mpr hfrozen, hmem⟩
  case current =>
    exact fun row hrow frozen hfrozen => hs.current row (hrows row hrow).1 frozen (hold.mp hfrozen)
  case frozenAttached => exact fun hfrozen hmem => hattached.mpr (hs.frozen (hold.mp hfrozen) hmem)
  case detachedKnown => exact fun hfrozen => hnext ▸ hs.detached (hold.mp hfrozen)
  case chronicle =>
    rw [hlog, hkeys]
    exact ⟨hf.attached, fun group' hleft => htaken.2.1 ⟨group', hleft⟩, hs.chronicle⟩

/-- A detach freezes what waits under its key. -/
theorem RegistryExact.detach (hs : RegistryExact s) (hc : Claims s) {key : PluginKey}
    {group : GroupId} (hmapped : s.allocationOf key = some group) :
    RegistryExact (s.detach key group) := by
  have hrow := mem_of_allocationOf hmapped
  have hkey : s.groupKeys group = key := (hc.mapped hrow).1
  have hattached : ∀ {g group'}, Attached (s.detach key group) g group' ↔ Attached s g group' := by
    intro g group'
    show _ ∈ _ :: s.registryLog ↔ _
    rw [List.mem_cons]
    simp only [reduceCtorEq, false_or]
    exact Iff.rfl
  have hreleased : ∀ {g}, Released (s.detach key group) g ↔ Released s g := by
    intro g
    show (∃ group', _ ∈ _ :: s.registryLog) ↔ _
    simp only [List.mem_cons, reduceCtorEq, false_or]
    exact Iff.rfl
  have hold : ∀ {group' frozen}, .detached group' frozen ∈ (s.detach key group).registryLog ↔
      group' = group ∧ frozen = s.groups group ∨ .detached group' frozen ∈ s.registryLog := by
    intro group' frozen
    show _ ∈ _ :: s.registryLog ↔ _
    rw [List.mem_cons, RegistryEvent.detached.injEq]
  have hrows : ∀ row ∈ (s.detach key group).allocations, row ∈ s.allocations ∧ row.1 ≠ key := by
    intro row hrow
    have hfilter := List.mem_filter.mp hrow
    exact ⟨hfilter.1, of_decide_eq_true hfilter.2⟩
  refine {
    unique := hs.unique
    residents := ?residents
    distinct := hs.distinct
    members := ?members
    keys := ?keys
    nonempty := ?nonempty
    placed := ?placed
    current := ?current
    frozen := ?frozenAttached
    detached := ?detachedKnown
    chronicle := ?chronicle }
  case residents =>
    intro g
    rw [hreleased]
    simp only [hattached]
    exact hs.residents g
  case members =>
    intro g group'
    rw [hattached, hreleased]
    exact hs.members
  case keys => exact hs.keys.sublist (List.filter_sublist.map Prod.fst)
  case nonempty => exact fun row hrow => hs.nonempty row (hrows row hrow).1
  case placed =>
    intro g group' hg
    rcases hs.placed hg with hplace | ⟨frozen, hfrozen, hmem⟩
    · by_cases hsame : s.groupKeys group' = key
      · -- the only allocation mapped under the key is the detached one
        have heq : group' = group := eq_of_mapped hs (hsame ▸ hplace) hrow
        subst heq
        exact .inr ⟨s.groups group', hold.mpr (.inl ⟨rfl, rfl⟩), hg⟩
      · exact .inl (List.mem_filter.mpr ⟨hplace, decide_eq_true hsame⟩)
    · exact .inr ⟨frozen, hold.mpr (.inr hfrozen), hmem⟩
  case current =>
    intro row hrow' frozen hfrozen
    have hfilter := hrows row hrow'
    rcases hold.mp hfrozen with ⟨heq, -⟩ | hearlier
    · exact hfilter.2 ((hc.mapped hfilter.1).1.symm.trans (heq ▸ hkey))
    · exact hs.current row hfilter.1 frozen hearlier
  case frozenAttached =>
    intro g group' frozen hfrozen hmem
    rw [hattached]
    rcases hold.mp hfrozen with ⟨rfl, rfl⟩ | hearlier
    · exact (hs.members.mp hmem).1
    · exact hs.frozen hearlier hmem
  case detachedKnown =>
    intro group' frozen hfrozen
    rcases hold.mp hfrozen with ⟨rfl, -⟩ | hearlier
    · exact (hc.mapped hrow).2
    · exact hs.detached hearlier
  case chronicle =>
    -- the frozen set is what the log says waited under the key
    refine ⟨hs.distinct group, fun g => ⟨fun hg => ?_, fun hg => ?_⟩, hs.chronicle⟩
    · have hmember := hs.members.mp hg
      refine ⟨⟨group, hmember.1, rfl⟩, fun group' hleft => hmember.2 ⟨group', hleft⟩, ?_⟩
      intro group' frozen hfrozen hmem
      have heq : group' = group := hc.once (hs.frozen hfrozen hmem) hmember.1
      exact hs.current _ hrow frozen (heq ▸ hfrozen)
    · rcases hg.attached with ⟨group', hg', hkey'⟩
      have hmember : g ∈ s.groups group' :=
        hs.members.mpr ⟨hg', fun ⟨group'', hleft⟩ => hg.unreleased group'' hleft⟩
      rcases hs.placed hmember with hplace | ⟨frozen, hfrozen, hmem⟩
      · have hkey'' : s.groupKeys group' = key := hkey'.trans hkey
        have heq : group' = group := eq_of_mapped hs (hkey'' ▸ hplace) hrow
        exact heq ▸ hmember
      · exact absurd hmem (hg.unfrozen group' frozen hfrozen)

theorem RegistryExact.same (hs : RegistryExact s) (hsame : SameRegistry s s') : RegistryExact s' := by
  have hattached : ∀ {g group}, Attached s' g group ↔ Attached s g group := hsame.attached
  have hreleased : ∀ {g}, Released s' g ↔ Released s g := by
    intro g
    rw [Released, hsame.registryLog]
    exact Iff.rfl
  refine {
    unique := hsame.residents ▸ hs.unique
    residents := fun g => ?residents
    distinct := hsame.groups ▸ hs.distinct
    members := ?members
    keys := hsame.allocations ▸ hs.keys
    nonempty := ?nonempty
    placed := ?placed
    current := ?current
    frozen := ?frozenAttached
    detached := ?detachedKnown
    chronicle := ?chronicle }
  case residents =>
    rw [hsame.residents, hreleased]
    simp only [hattached]
    exact hs.residents g
  case members =>
    intro g group
    rw [hsame.groups, hattached, hreleased]
    exact hs.members
  case nonempty =>
    rw [hsame.allocations, hsame.groups]
    exact hs.nonempty
  case placed =>
    intro g group hg
    rw [hsame.groups] at hg
    rw [hsame.groupKeys, hsame.allocations, hsame.registryLog]
    exact hs.placed hg
  case current =>
    rw [hsame.allocations, hsame.registryLog]
    exact hs.current
  case frozenAttached =>
    intro g group frozen hfrozen hmem
    rw [hattached]
    exact hs.frozen (hsame.registryLog ▸ hfrozen) hmem
  case detachedKnown =>
    intro group frozen hfrozen
    rw [hsame.nextGroup]
    exact hs.detached (hsame.registryLog ▸ hfrozen)
  case chronicle =>
    rw [hsame.groupKeys, hsame.registryLog]
    exact hs.chronicle

theorem RegistryExact.step (hs : RegistryExact s) (hc : Claims s)
    (hstep : RegistryStep self op s s') (hstaged : Staged self op s)
    (halive : upgradable p choice op s) : RegistryExact s' := by
  rcases hstep with ⟨rfl, rfl⟩ | ⟨-, -, rfl⟩ | ⟨hop, hdead, -⟩ | ⟨rfl, rfl⟩ | ⟨-, hmapped, rfl⟩ |
    ⟨-, rfl⟩ | ⟨-, -, -, hsame⟩
  · exact hs.attach hc hstaged
  · exact { hs with }
  · exact nomatch hdead.symm.trans (halive _ (hop ▸ rfl))
  · exact hs.release hc hstaged
  · exact hs.detach hc hmapped
  · exact { hs with }
  · exact hs.same hsame

end Step

/-! ## Every run -/

/-- What the registry must account for, whenever the allocations lock is free. -/
structure Accounted (s : Root) : Prop where
  unique : s.residents.Nodup
  residents : ∀ f, f ∈ s.residents ↔ (∃ group, Attached s f group) ∧ ¬ Released s f
  allocated : ∀ f ∈ s.residents, ∃! group, f ∈ s.groups group
  keyed : ∀ f group key, f ∈ s.groups group → (s.fibers f).pluginKey = some key →
    s.groupKeys group = key
  placed : ∀ f group, f ∈ s.groups group → (s.groupKeys group, group) ∈ s.allocations ∨
    ∃ frozen, .detached group frozen ∈ s.registryLog ∧ f ∈ frozen
  nonempty : ∀ row ∈ s.allocations, s.groups row.2 ≠ []
  frozen : ∀ later group frozen earlier,
    s.registryLog = later ++ .detached group frozen :: earlier →
      (∀ f, f ∈ frozen ↔ Standing s.groupKeys earlier (s.groupKeys group) f) ∧
        ∀ f group', .attached f group' ∈ later → f ∉ frozen

/-- The release takes the Fiber out of the allocation it was attached to, and nothing else. -/
structure ReleasesOnly (f : FiberId) (group : GroupId) (s s' : Root) : Prop where
  named : Attached s f group
  member : s'.groups group = (s.groups group).erase f
  others : ∀ g, g ≠ group → s'.groups g = s.groups g
  mapped : ∀ row, row ∈ s'.allocations ↔
    row ∈ s.allocations ∧ (row.2 = group → s'.groups group ≠ [])
  resident : s'.residents = s.residents.erase f

theorem RegistryExact.accounted {s : Root} (hs : RegistryExact s) (hc : Claims s) :
    Accounted s where
  unique := hs.unique
  residents := hs.residents
  allocated f hf := by
    rcases (hs.residents f).mp hf with ⟨⟨group, hattached⟩, hunreleased⟩
    refine ⟨group, hs.members.mpr ⟨hattached, hunreleased⟩, fun group' hmem => ?_⟩
    exact hc.once (hs.members.mp hmem).1 hattached
  keyed _ _ _ hmem hkey := hc.keyed (hs.members.mp hmem).1 hkey
  placed _ _ hmem := hs.placed hmem
  nonempty := hs.nonempty
  frozen later group frozen earlier hlog := by
    have hchronicle := hs.chronicle
    rw [hlog] at hchronicle
    have hdetached := hchronicle.of_append
    refine ⟨hdetached.2.1, fun f group' hlater hmem => ?_⟩
    rcases ((hdetached.2.1 f).mp hmem).attached with ⟨group'', hearlier, -⟩
    exact hchronicle.attached_later hlater (List.mem_cons_of_mem _ hearlier)

theorem releaseClaim_releasesOnly {s s' : Root} {p q : Party} {choice : Choice} {f : FiberId}
    {group : GroupId} {r : Unit} (hf : Taken p s f group)
    (h : exec p q choice (.releaseClaim f group) s = some (s', r)) :
    ReleasesOnly f group s s' := by
  simp only [exec, Option.some.injEq, Prod.mk.injEq] at h
  have hmember : s'.groups group = (s.groups group).erase f := by
    rw [← h.1]
    exact if_pos rfl
  refine ⟨hf.attached, hmember, fun g hg => ?_, fun row => ?_, ?_⟩
  · rw [← h.1]
    exact if_neg hg
  · have hallocations : s'.allocations = if (s.groups group).erase f = [] then
        s.allocations.filter (fun row => row.2 ≠ group) else s.allocations := h.1 ▸ rfl
    rw [hallocations, hmember]
    split
    · rename_i hbare
      rw [List.mem_filter, decide_eq_true_iff]
      exact and_congr_right fun _ => ⟨fun hne heq => absurd heq hne, fun hne heq => hne heq hbare⟩
    · rename_i hbusy
      exact ⟨fun hrow => ⟨hrow, fun _ => hbusy⟩, And.left⟩
  · rw [← h.1]
    rfl

theorem registryExact_new : RegistryExact Root.new := by
  have hblank : ∀ {event : RegistryEvent}, event ∉ (Root.new).registryLog := List.not_mem_nil
  refine ⟨List.nodup_nil, fun f => ⟨fun hf => absurd hf List.not_mem_nil, ?_⟩,
    fun _ => List.nodup_nil, fun {f group} => ⟨fun hf => absurd hf List.not_mem_nil, ?_⟩,
    List.nodup_nil, fun _ hrow => absurd hrow List.not_mem_nil,
    fun hf => absurd hf List.not_mem_nil, fun _ hrow => absurd hrow List.not_mem_nil,
    fun hfrozen => absurd hfrozen hblank, fun hfrozen => absurd hfrozen hblank, trivial⟩
  · rintro ⟨⟨group, hattached⟩, -⟩
    exact absurd hattached hblank
  · exact fun hattached => absurd hattached.1 hblank

theorem registryExact_of_reachable {c : State} (h : Reachable upgradable c) :
    RegistryExact c.shared := by
  refine Logic.invariant_of_reachable residency_verified (fun _ _ _ _ _ => trivial)
    registryExact_new ?_ ?_ ?_ h
  · intro p q choice op s s' r hs hc hstaged halive hexec
    exact hs.step hc (exec_registry (cordis_exec hexec)) hstaged halive
  · intro p routine s s' hs henter
    simp only [cordis, enter, Option.ite_none_right_eq_some, Option.some.injEq] at henter
    exact hs.same (by rw [← henter.2]; constructor <;> rfl)
  · intro p s s' next hs hdrop
    rcases dropped_eq hdrop with ⟨fibers, driving, rfl, -⟩
    exact hs.same (by constructor <;> rfl)

/-- The registry accounts for every Fiber while no release finds its allocation gone. -/
theorem registry_accounts {c : State} (h : Reachable upgradable c) :
    Accounted c.shared ∧
      ∀ p f group next, c.pool p = some (.act (.releaseClaim f group) next) →
        ∀ q choice s' r, exec p q choice (.releaseClaim f group) c.shared = some (s', r) →
          ReleasesOnly f group c.shared s' := by
  have hany : Reachable Machine.anyRun c := h.mono cordis fun _ _ _ _ _ => trivial
  have hs : RegistryExact c.shared := registryExact_of_reachable h
  refine ⟨hs.accounted (Logic.inv_of_reachable residency_verified hany), ?_⟩
  intro p f group next hp q choice s' r hexec
  have hstaged : Staged p (.releaseClaim f group) c.shared :=
    Logic.check_of_reachable residency_verified hany hp
  exact releaseClaim_releasesOnly hstaged hexec

/-- The condition, decided. -/
def upgradable? : Party → Choice → Op → Root → Bool :=
  Machine.finds? upgradedGroup fun group s => s.groupAlive group = true

/-- A spawn of a Plugin and its typed removal, one after the other. -/
def removedPlugin : List Step :=
  [.enter 1 (.spawn 0 5 [])] ++ turns 1 24 ++ turns 1 1 (.apply .succeeded) ++ turns 1 27 ++
    [.enter 2 (.removePlugins {} 5)] ++ turns 2 33

/-- The removal is about to release the claim. -/
theorem registry_accounts_removedPlugin :
    let c := after upgradable? removedPlugin (by decide +kernel)
    Accounted c.shared ∧
      ∀ p f group next, c.pool p = some (.act (.releaseClaim f group) next) →
        ∀ q choice s' r, exec p q choice (.releaseClaim f group) c.shared = some (s', r) →
          ReleasesOnly f group c.shared s' :=
  registry_accounts (reachable_after Machine.finds_of_finds? removedPlugin _)

/-- The spawn takes the claim of its removed Fiber; the removal drops the allocation first. -/
def lostRelease : List Step :=
  [.enter 1 (.spawn 0 5 [])] ++ turns 1 24 ++ turns 1 1 (.apply .succeeded) ++ turns 1 20 ++
    [.enter 2 (.removePlugins {} 5)] ++ turns 2 31 ++ turns 1 5 ++ turns 2 4 ++ turns 1 1

theorem not_accounted_lostRelease :
    ∃ c, Reachable Machine.anyRun c ∧ ¬ Accounted c.shared := by
  refine ⟨after always lostRelease (by decide +kernel),
    reachable_after (fun _ _ _ _ _ => trivial) lostRelease _, fun h => ?_⟩
  have hresident : 1 ∈ (after always lostRelease (by decide +kernel)).shared.residents := by
    decide +kernel
  have hreleased : .released 1 0 ∈
      (after always lostRelease (by decide +kernel)).shared.registryLog := by
    decide +kernel
  exact ((h.residents 1).mp hresident).2 ⟨0, hreleased⟩

end Runtime
end CordisCore
