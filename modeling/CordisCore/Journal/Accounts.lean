import CordisCore.Interleaving.Paths
import CordisCore.Journal.Routines

/-!
# Accounts — no obligation outlives its resource

A journal row is about one resource, and the resource is in its store until
somebody takes it out who has the row's token at hand.  Three accesses take a
resource out without a token; the accounts hold as long as none of them finds a
resource that is still owed.
-/

namespace CordisCore
namespace Journal

open Interleaving
open CordisCore.Runtime (FiberId PluginKey Token)
open Root (Leaves)

/-! ## What the journals owe -/

/-- The obligation is in the journal of the Fiber. -/
def Row (s : Root) (f : FiberId) (token : Token) (cleanup : Cleanup) : Prop :=
  (token, cleanup) ∈ (s.fibers f).disposables

/-- Some journal still holds an obligation for the resource. -/
def Owed (s : Root) (id : ResourceId) : Prop :=
  ∃ f token cleanup, Row s f token cleanup ∧ cleanup.resource = some id

/-- The resource that an operation takes out of its store with no token to claim: the claim of a
once listener or a once update hook, the removal of an exporter, the eviction of a dead slot. -/
def forgets : Op → Root → Option ResourceId
  | .claimListener event id, s => s.onceListener event id
  | .claimUpdate contract id, s => s.onceUpdate contract id
  | .unregister (.exporter key), s => if key ∈ s.exporters then some key else none
  | .pushGated f step, s => if (s.fibers f).assertCanRegister then s.evicts step else none
  | _, _ => none

/-- No such operation finds a resource that is still owed. -/
def remembers : Condition :=
  fun _ _ op s => ∀ id, forgets op s = some id → ¬ Owed s id

/-- Only the journal position that the control names can be about its resource. -/
structure Bound (s : Root) (control : Control) : Prop where
  known : ∀ {id}, control.cleanup.resource = some id → id < s.nextId
  sole : ∀ {id f token cleanup position}, control.cleanup.resource = some id →
    control.token = some position → Row s f token cleanup → cleanup.resource = some id →
    position = (f, token)

/-- The resource is owed by nobody, and never will be again. -/
structure Gone (s : Root) (id : ResourceId) : Prop where
  known : id < s.nextId
  unowed : ¬ Owed s id

structure Accounts (s : Root) : Prop where
  known : ∀ {f token cleanup id}, Row s f token cleanup → cleanup.resource = some id →
    id < s.nextId
  sole : ∀ {f token cleanup f' token' cleanup' id}, Row s f token cleanup →
    Row s f' token' cleanup' → cleanup.resource = some id → cleanup'.resource = some id →
    f = f' ∧ token = token'
  keyed : ∀ f, ((s.fibers f).disposables.map Prod.fst).Nodup
  below : ∀ {f token cleanup}, Row s f token cleanup → token ≤ (s.fibers f).sn
  /-- A resource that left its store has somebody with its token at hand. -/
  covered : ∀ {f token cleanup}, Row s f token cleanup →
    s.registered cleanup = true ∨ ∃ p, s.removing p = some (f, token)
  bound : ∀ control ∈ s.controls, Bound s control

/-! ## What the others leave alone -/

/-- Journals gain only rows for resources that did not exist before. -/
structure Later (s s' : Root) : Prop where
  nextId : s.nextId ≤ s'.nextId
  rows : ∀ {f token cleanup}, Row s' f token cleanup →
    Row s f token cleanup ∨ ∀ id, cleanup.resource = some id → s.nextId ≤ id

theorem Later.refl (s : Root) : Later s s :=
  ⟨Nat.le_refl _, fun h => .inl h⟩

theorem Later.trans {s s' s'' : Root} (h : Later s s') (h' : Later s' s'') : Later s s'' := by
  refine ⟨Nat.le_trans h.nextId h'.nextId, fun hrow => ?_⟩
  rcases h'.rows hrow with hold | hnew
  · exact h.rows hold
  · exact .inr fun id hid => Nat.le_trans h.nextId (hnew id hid)

theorem Later.same {s s' : Root} (hfibers : s'.fibers = s.fibers) (hnext : s'.nextId = s.nextId) :
    Later s s' := by
  refine ⟨Nat.le_of_eq hnext.symm, fun hrow => .inl ?_⟩
  unfold Row at hrow ⊢
  rwa [hfibers] at hrow

theorem Bound.later {s s' : Root} {control : Control} (h : Bound s control) (hl : Later s s') :
    Bound s' control := by
  refine ⟨fun hid => Nat.lt_of_lt_of_le (h.known hid) hl.nextId, fun hid hposition hrow hres => ?_⟩
  rcases hl.rows hrow with hold | hnew
  · exact h.sole hid hposition hold hres
  · exact absurd (h.known hid) (Nat.not_lt.mpr (hnew _ hres))

theorem Gone.later {s s' : Root} {id : ResourceId} (h : Gone s id) (hl : Later s s') :
    Gone s' id := by
  refine ⟨Nat.lt_of_lt_of_le h.known hl.nextId, ?_⟩
  rintro ⟨f, token, cleanup, hrow, hres⟩
  rcases hl.rows hrow with hold | hnew
  · exact h.unowed ⟨f, token, cleanup, hold, hres⟩
  · exact absurd h.known (Nat.not_lt.mpr (hnew _ hres))

/-- What a party must be sure of before it performs an operation. -/
def Entitled (p : Party) : Op → Root → Prop
  | .removeDisposable f token, s => s.removing p = none ∨ s.removing p = some (f, token)
  | .execute cleanup, s =>
      s.removing p = none ∧ ∀ id, cleanup.resource = some id → Gone s id
  | .unregister control, s | .deliver control, s => s.removing p = none ∧ Bound s control
  | _, s => s.removing p = none

theorem Entitled.later {p : Party} {op : Op} {s s' : Root} (h : Entitled p op s)
    (hl : Later s s') (hremoving : s'.removing p = s.removing p) : Entitled p op s' := by
  cases op with
  | removeDisposable f token =>
      simp only [Entitled] at h ⊢
      rwa [hremoving]
  | execute cleanup =>
      exact ⟨hremoving.trans h.1, fun id hid => (h.2 id hid).later hl⟩
  | unregister control => exact ⟨hremoving.trans h.1, h.2.later hl⟩
  | deliver control => exact ⟨hremoving.trans h.1, h.2.later hl⟩
  | _ => exact hremoving.trans h

/-! ## One operation -/

section Step

variable {p : Party} {op : Op} {s s' : Root} {r : op.Ret}

/-- What one operation of `p` does to the accounts and to everybody else. -/
structure Keeps (p : Party) (s s' : Root) : Prop where
  accounts : Accounts s'
  later : Later s s'
  removing : ∀ t, t ≠ p → s'.removing t = s.removing t

/-- The journals and the controls stay; what left a store is covered. -/
theorem Accounts.keeps (hs : Accounts s) (hfibers : s'.fibers = s.fibers)
    (hnext : s'.nextId = s.nextId) (hcontrols : s'.controls = s.controls)
    (hremoving : ∀ t, t ≠ p → s'.removing t = s.removing t) (hidle : s.removing p = none)
    (hcovered : ∀ {f token cleanup}, Row s f token cleanup → s.registered cleanup = true →
      s'.registered cleanup = true ∨ ∃ q, s'.removing q = some (f, token)) : Keeps p s s' := by
  have hrow : ∀ {f token cleanup}, Row s' f token cleanup → Row s f token cleanup := by
    intro f token cleanup h
    unfold Row at h ⊢
    rwa [hfibers] at h
  have hlater : Later s s' := .same hfibers hnext
  refine ⟨⟨?_, ?_, ?_, ?_, ?_, ?_⟩, hlater, hremoving⟩
  · intro f token cleanup id h hid
    rw [hnext]
    exact hs.known (hrow h) hid
  · intro f token cleanup f' token' cleanup' id h h' hid hid'
    exact hs.sole (hrow h) (hrow h') hid hid'
  · intro f
    rw [hfibers]
    exact hs.keyed f
  · intro f token cleanup h
    rw [hfibers]
    exact hs.below (hrow h)
  · intro f token cleanup h
    rcases hs.covered (hrow h) with hregistered | ⟨q, hq⟩
    · exact hcovered (hrow h) hregistered
    · refine .inr ⟨q, ?_⟩
      rw [hremoving q]
      · exact hq
      · rintro rfl
        exact nomatch hidle.symm.trans hq
  · intro control hcontrol
    rw [hcontrols] at hcontrol
    exact (hs.bound control hcontrol).later hlater

/-- Nothing that is still owed leaves its store. -/
theorem Accounts.leaves (hs : Accounts s) {lost : Option ResourceId} (hl : Leaves lost s s')
    (hidle : s.removing p = none) (hlost : ∀ id, lost = some id → ¬ Owed s id) : Keeps p s s' := by
  refine hs.keeps hl.fibers hl.nextId hl.controls (fun t _ => by rw [hl.removing]) hidle ?_
  intro f token cleanup hrow hregistered
  rcases hl.registered cleanup hregistered with hkept | ⟨id, hid, hres⟩
  · exact .inl hkept
  · exact absurd ⟨f, token, cleanup, hrow, hres⟩ (hlost id hid)

/-- The control of a resource takes it out and has its token at hand. -/
theorem Accounts.unregister (hs : Accounts s) {control : Control} {s₁ : Root}
    {position : FiberId × Token} (hl : Leaves control.cleanup.resource s s₁)
    (hb : Bound s control) (hposition : control.token = some position)
    (hidle : s.removing p = none) : Keeps p s (s₁.owe p control.token) := by
  have hself : (s₁.owe p control.token).removing p = some position := by
    simp [Root.owe, hposition]
  refine hs.keeps hl.fibers hl.nextId hl.controls (fun t ht => ?_) hidle ?_
  · simp [Root.owe, ht, hl.removing]
  · intro f token cleanup hrow hregistered
    rcases hl.registered cleanup hregistered with hkept | ⟨id, hid, hres⟩
    · exact .inl hkept
    · exact .inr ⟨p, hself.trans (congrArg some (hb.sole hid hposition hrow hres))⟩

/-- Only the flags of Fibers change. -/
theorem Accounts.flags (hs : Accounts s) {f : FiberId} {fiber : Fiber}
    (hrows : fiber.disposables = (s.fibers f).disposables) (hsn : fiber.sn = (s.fibers f).sn) :
    Keeps p s (s.setFiber f fiber) := by
  have hfiber : ∀ g, ((s.setFiber f fiber).fibers g).disposables = (s.fibers g).disposables ∧
      ((s.setFiber f fiber).fibers g).sn = (s.fibers g).sn := by
    intro g
    by_cases hg : g = f
    · subst hg
      simp [Root.setFiber, hrows, hsn]
    · simp [Root.setFiber, hg]
  have hrow : ∀ {g token cleanup}, Row (s.setFiber f fiber) g token cleanup →
      Row s g token cleanup := by
    intro g token cleanup h
    unfold Row at h ⊢
    rwa [(hfiber g).1] at h
  have hlater : Later s (s.setFiber f fiber) := ⟨Nat.le_refl _, fun h => .inl (hrow h)⟩
  refine ⟨⟨fun h hid => hs.known (hrow h) hid, fun h h' => hs.sole (hrow h) (hrow h'), fun g => ?_,
    fun {g _ _} h => ?_, fun {_ _ cleanup} h => ?_, fun control hcontrol => ?_⟩, hlater,
    fun _ _ => rfl⟩
  · rw [(hfiber g).1]
    exact hs.keyed g
  · rw [(hfiber g).2]
    exact hs.below (hrow h)
  · have hsame : (s.setFiber f fiber).registered cleanup = s.registered cleanup := by
      cases cleanup <;> rfl
    rw [hsame]
    exact hs.covered (hrow h)
  · exact (hs.bound control hcontrol).later hlater

/-! ### Journals -/

/-- The rows that a claim of one token leaves. -/
theorem row_removeDisposable {f g : FiberId} {token token' : Token} {cleanup : Cleanup} :
    Row (s.removeDisposable f token).1 g token' cleanup ↔
      Row s g token' cleanup ∧ ¬ (g = f ∧ token' = token) := by
  unfold Row Root.removeDisposable Root.setFiber
  by_cases hg : g = f
  · subst hg
    simp
  · simp [hg]

/-- A claimed row is gone from its journal, and its resource is owed nowhere else. -/
theorem Accounts.claimed (hs : Accounts s) {f : FiberId} {token : Token} {cleanup : Cleanup}
    (h : (s.removeDisposable f token).2 = some cleanup) {id : ResourceId}
    (hid : cleanup.resource = some id) : Gone (s.removeDisposable f token).1 id := by
  simp only [Root.removeDisposable, Option.map_eq_some_iff] at h
  rcases h with ⟨row, hrow, rfl⟩
  have htoken : row.1 = token := by simpa using List.find?_some hrow
  have hmember : Row s f token row.2 := by
    subst htoken
    exact List.mem_of_find?_eq_some hrow
  refine ⟨hs.known hmember hid, ?_⟩
  rintro ⟨g, token', cleanup', hrow', hid'⟩
  rw [row_removeDisposable] at hrow'
  have hsame := hs.sole hrow'.1 hmember hid' hid
  exact hrow'.2 hsame

theorem Accounts.removeDisposable (hs : Accounts s) {f : FiberId} {token : Token}
    (hentitled : Entitled p (.removeDisposable f token) s) :
    Keeps p s ((s.removeDisposable f token).1.owe p none) := by
  have hrow : ∀ {g token' cleanup}, Row ((s.removeDisposable f token).1.owe p none) g token' cleanup →
      Row s g token' cleanup ∧ ¬ (g = f ∧ token' = token) := fun h => row_removeDisposable.mp h
  have hlater : Later s ((s.removeDisposable f token).1.owe p none) :=
    ⟨Nat.le_refl _, fun h => .inl (hrow h).1⟩
  refine ⟨⟨fun h hid => hs.known (hrow h).1 hid, fun h h' => hs.sole (hrow h).1 (hrow h').1,
    fun g => ?_, fun {g _ _} h => ?_, fun {g token' cleanup} h => ?_, fun control hcontrol => ?_⟩,
    hlater, fun t ht => ?_⟩
  · by_cases hg : g = f
    · subst hg
      have hkept := (List.filter_sublist (p := fun row : Token × Cleanup => decide (row.1 ≠ token))
        (l := (s.fibers g).disposables)).map Prod.fst
      simpa [Root.removeDisposable, Root.setFiber, Root.owe] using (hs.keyed g).sublist hkept
    · simpa [Root.removeDisposable, Root.setFiber, Root.owe, hg] using hs.keyed g
  · have hbelow := hs.below (hrow h).1
    by_cases hg : g = f
    · subst hg
      simpa [Root.removeDisposable, Root.setFiber, Root.owe] using hbelow
    · simpa [Root.removeDisposable, Root.setFiber, Root.owe, hg] using hbelow
  · have hsame : ((s.removeDisposable f token).1.owe p none).registered cleanup =
        s.registered cleanup := by
      cases cleanup <;> rfl
    rw [hsame]
    rcases hs.covered (hrow h).1 with hregistered | ⟨q, hq⟩
    · exact .inl hregistered
    · refine .inr ⟨q, ?_⟩
      have hqp : q ≠ p := by
        rintro rfl
        rcases hentitled with hnone | hself
        · exact nomatch hnone.symm.trans hq
        · have hposition := Option.some.inj (hself.symm.trans hq)
          exact (hrow h).2 ⟨(congrArg Prod.fst hposition).symm, (congrArg Prod.snd hposition).symm⟩
      simpa [Root.owe, Root.removeDisposable, Root.setFiber, hqp] using hq
  · exact (hs.bound control hcontrol).later hlater
  · simp [Root.owe, Root.removeDisposable, Root.setFiber, ht]

/-- The rows after a push. -/
theorem row_push {f g : FiberId} {token : Token} {cleanup cleanup' : Cleanup} :
    Row (s.push f cleanup').1 g token cleanup ↔
      Row s g token cleanup ∨ (g = f ∧ token = (s.fibers f).sn + 1 ∧ cleanup = cleanup') := by
  unfold Row Root.push Root.setFiber
  by_cases hg : g = f
  · subst hg
    simp
  · simp [hg]

theorem Keeps.refl (hs : Accounts s) : Keeps p s s :=
  ⟨hs, .refl s, fun _ _ => rfl⟩

/-- A push of an obligation for a fresh resource that is registered. -/
theorem Accounts.push {s₁ : Root} (hs : Accounts s) (hk : Keeps p s s₁)
    (hfibers : s₁.fibers = s.fibers) (hcontrols : s₁.controls = s.controls)
    (hfresh : s.nextId < s₁.nextId) {f : FiberId} {cleanup : Cleanup} (hregistered : s₁.registered cleanup = true)
    (hres : cleanup.resource = none ∨ cleanup.resource = some s.nextId) :
    Keeps p s (s₁.push f cleanup).1 := by
  have hold : ∀ {g token cleanup}, Row s₁ g token cleanup → Row s g token cleanup := by
    intro g token cleanup h
    unfold Row at h ⊢
    rwa [hfibers] at h
  have hnew : ∀ {id}, cleanup.resource = some id → id = s.nextId := by
    intro id hid
    rcases hres with hnone | hsome
    · exact nomatch hnone.symm.trans hid
    · exact (Option.some.inj (hsome.symm.trans hid)).symm
  -- no older row is about the fresh resource
  have hapart : ∀ {g token cleanup' id}, Row s₁ g token cleanup' → cleanup'.resource = some id →
      cleanup.resource = some id → False := by
    intro g token cleanup' id hrow hid hid'
    have hlt := hs.known (hold hrow) hid
    rw [hnew hid'] at hlt
    exact Nat.lt_irrefl _ hlt
  have hlater : Later s (s₁.push f cleanup).1 := by
    refine ⟨Nat.le_of_lt hfresh, fun hrow => ?_⟩
    rcases row_push.mp hrow with hrow | ⟨-, -, rfl⟩
    · exact .inl (hold hrow)
    · exact .inr fun id hid => Nat.le_of_eq (hnew hid).symm
  refine ⟨⟨fun h hid => ?_, fun h h' hid hid' => ?_, fun g => ?_, fun {g _ _} h => ?_,
    fun {g _ cleanup'} h => ?_, fun control hcontrol => ?_⟩, hlater, hk.removing⟩
  · rcases row_push.mp h with hrow | ⟨-, -, rfl⟩
    · exact hk.accounts.known hrow hid
    · rw [hnew hid]
      exact hfresh
  · rcases row_push.mp h with hrow | ⟨rfl, rfl, rfl⟩ <;>
      rcases row_push.mp h' with hrow' | ⟨rfl, rfl, rfl⟩
    · exact hk.accounts.sole hrow hrow' hid hid'
    · exact (hapart hrow hid hid').elim
    · exact (hapart hrow' hid' hid).elim
    · exact ⟨rfl, rfl⟩
  · have hkeyed := hk.accounts.keyed g
    by_cases hg : g = f
    · subst hg
      simp only [Root.push, Root.setFiber, if_true, List.map_append, List.map_cons, List.map_nil]
      refine List.Nodup.append hkeyed (List.nodup_singleton _) ?_
      intro token htoken hlast
      rcases List.mem_map.mp htoken with ⟨row, hrow, rfl⟩
      have hle : row.1 ≤ (s₁.fibers g).sn := hk.accounts.below hrow
      rw [List.mem_singleton.mp hlast] at hle
      exact absurd hle (Nat.not_succ_le_self _)
    · simpa [Root.push, Root.setFiber, hg] using hkeyed
  · rcases row_push.mp h with hrow | ⟨rfl, rfl, rfl⟩
    · have hbelow := hk.accounts.below hrow
      by_cases hg : g = f
      · subst hg
        simp only [Root.push, Root.setFiber, if_true]
        exact Nat.le_succ_of_le hbelow
      · simpa [Root.push, Root.setFiber, hg] using hbelow
    · simp [Root.push, Root.setFiber]
  · have hsame : (s₁.push f cleanup).1.registered cleanup' = s₁.registered cleanup' := by
      cases cleanup' <;> rfl
    rw [hsame]
    rcases row_push.mp h with hrow | ⟨-, -, rfl⟩
    · exact hk.accounts.covered hrow
    · exact .inl hregistered
  · have hheld : control ∈ s₁.controls := hcontrol
    rw [hcontrols] at hheld
    exact (hs.bound control hheld).later hlater

/-- A gated push keeps the accounts if it evicts nothing that is owed. -/
theorem Accounts.pushGated (hs : Accounts s) {f : FiberId} {step : PublishStep}
    (hidle : s.removing p = none)
    (hok : ∀ id, forgets (.pushGated f step) s = some id → ¬ Owed s id) :
    Keeps p s (s.pushGated f step).1 ∧ ∀ {cleanup token control},
      (s.pushGated f step).2 = .ok (cleanup, token) → controlOf f (cleanup, token) = some control →
        Bound (s.pushGated f step).1 control := by
  unfold Root.pushGated
  split
  · rename_i hopen
    -- the new occurrence takes a number of its own
    have hticked : Keeps p s { s with nextId := s.nextId + 1 } := by
      have hlater : Later s { s with nextId := s.nextId + 1 } :=
        ⟨Nat.le_succ _, fun h => .inl h⟩
      refine ⟨⟨fun h hid => Nat.lt_succ_of_lt (hs.known h hid), hs.sole, hs.keyed, hs.below,
        fun {_ _ cleanup} h => ?_, fun control hcontrol => (hs.bound control hcontrol).later hlater⟩,
        hlater, fun _ _ => rfl⟩
      have hsame : { s with nextId := s.nextId + 1 }.registered cleanup = s.registered cleanup := by
        cases cleanup <;> rfl
      rw [hsame]
      exact hs.covered h
    have hforgets : forgets (.pushGated f step) s = s.evicts step := if_pos hopen
    have hevicts : { s with nextId := s.nextId + 1 }.evicts step = s.evicts step := by
      cases step <;> rfl
    rcases hpublish : { s with nextId := s.nextId + 1 }.publish f s.nextId step with ⟨s₁, out⟩
    have hspec := Root.publish_spec hpublish
    -- what the publication evicts is owed to nobody
    have hleft : Keeps p { s with nextId := s.nextId + 1 } s₁ := by
      refine hticked.accounts.leaves hspec.1 hidle fun id hid => ?_
      rw [hevicts, ← hforgets] at hid
      exact hok id hid
    have hkept : Keeps p s s₁ :=
      ⟨hleft.accounts, hticked.later.trans hleft.later, fun t ht =>
        (hleft.removing t ht).trans (hticked.removing t ht)⟩
    cases out with
    | none =>
        simp only [hpublish]
        exact ⟨hkept, nofun⟩
    | some cleanup =>
        simp only [hpublish]
        have hpublished := hspec.2 cleanup rfl
        have hfresh : s.nextId < s₁.nextId := by
          rw [hspec.1.nextId]
          exact Nat.lt_succ_self _
        have hpushed := hs.push hkept hspec.1.fibers hspec.1.controls hfresh (f := f)
          hpublished.1 hpublished.2
        refine ⟨hpushed, fun {_ token control} hout hcontrol => ?_⟩
        cases hout
        have hcleanup : control.cleanup = cleanup := by
          cases cleanup <;> cases hcontrol <;> rfl
        have hrow : Row (s₁.push f cleanup).1 f (s₁.push f cleanup).2 cleanup :=
          row_push.mpr (.inr ⟨rfl, rfl, rfl⟩)
        -- the control of the row holds the token that the push gave back
        have htoken : ∀ position, control.token = some position →
            position = (f, (s₁.push f cleanup).2) := by
          intro position hposition
          cases cleanup <;> cases hcontrol <;> cases hposition <;> rfl
        refine ⟨fun hid => ?_, fun hid hposition hother hres => ?_⟩
        · rw [hcleanup] at hid
          exact hpushed.accounts.known hrow hid
        · rw [hcleanup] at hid
          have hsame := hpushed.accounts.sole hother hrow hres hid
          rw [htoken _ hposition, hsame.1, hsame.2]
  · exact ⟨.refl hs, nofun⟩

end Step

end Journal
end CordisCore
