import CordisCore.Context.Derivations

/-!
# Independence — the axes of a view compose without touching one another

The scope nodes of a Runtime form a forest: what lies above a node is fixed when
the node is made.  That is why comparing the addresses on one chain with the
head of another decides ancestry of whole positions.
-/

namespace CordisCore
namespace Axes

open Interleaving Scanning

variable {C : Contracts}

/-! ## Chains of nodes -/

theorem reaches_iff (head : ScopeNode) (chain : List ScopeNode) :
    reaches head chain = true ↔ head ∈ chain := by
  induction chain with
  | nil => simp [reaches]
  | cons current parent ih =>
      by_cases h : current = head
      · simp [reaches, h]
      · simp [reaches, h, ih, Ne.symm h]

/-- What lies above a node is the same wherever the node occurs. -/
def Rooted (above : ScopeNode → List ScopeNode) (scopes : List ScopeNode) : Prop :=
  ∀ outer node inner, scopes = outer ++ node :: inner → outer = above node

theorem Rooted.snoc {above : ScopeNode → List ScopeNode} {scopes : List ScopeNode}
    {node : ScopeNode} (h : Rooted above scopes) (hnode : above node = scopes) :
    Rooted above (scopes ++ [node]) := by
  intro outer last inner heq
  rcases List.eq_nil_or_concat inner with rfl | ⟨inner', final, rfl⟩
  · have hsplit := List.append_inj' heq rfl
    have hlast : node = last := by simpa using hsplit.2
    rw [← hsplit.1, ← hnode, hlast]
  · have hregroup : scopes ++ [node] = (outer ++ last :: inner') ++ [final] := by
      rw [heq]
      simp
    exact h outer last inner' (List.append_inj' hregroup rfl).1

/-- In one forest the addresses decide: the head occurs on a chain only below its own chain. -/
theorem eligible_iff_initial {above : ScopeNode → List ScopeNode}
    {registration dispatch : List ScopeNode} (hr : Rooted above registration)
    (hd : Rooted above dispatch) :
    eligible registration.reverse dispatch.reverse = true ↔ registration <+: dispatch := by
  rcases List.eq_nil_or_concat registration with rfl | ⟨outer, head, rfl⟩
  · simp [eligible]
  · rw [List.concat_eq_append] at hr ⊢
    have hhead : outer = above head := hr outer head [] rfl
    have hreaches : eligible (outer ++ [head]).reverse dispatch.reverse = true ↔
        head ∈ dispatch := by
      rw [List.reverse_append]
      rcases List.eq_nil_or_concat dispatch with rfl | ⟨init, last, rfl⟩
      · simp [eligible]
      · simp [eligible, reaches_iff, or_comm]
    rw [hreaches]
    constructor
    · intro hmem
      rcases List.append_of_mem hmem with ⟨before, after, rfl⟩
      have hbefore : before = above head := hd before head after rfl
      exact ⟨after, by simp [hhead, hbefore]⟩
    · rintro ⟨rest, rfl⟩
      simp

/-! ## Configuration layers -/

theorem collect_eq_filter (name : String) (chain : List (InterceptLayer C)) :
    Context.collect name chain =
      (chain.filter fun entry => entry.name = name).map InterceptLayer.configured := by
  induction chain with
  | nil => rfl
  | cons current outer ih =>
      by_cases h : current.name = name
      · simp [Context.collect, h, ih]
      · simp [Context.collect, h, ih]

theorem mapM_downcastRef {S : C.TypeId} {configured : List (ConfiguredLayer C)}
    (h : ∀ layer ∈ configured, layer.serviceType = S) :
    ∃ layers : List (C.Layer S),
      layers.map (fun value => { serviceType := S, value := value }) = configured ∧
        configured.mapM (ConfiguredLayer.downcastRef S) = some layers := by
  induction configured with
  | nil => exact ⟨[], rfl, rfl⟩
  | cons layer configured ih =>
      rcases ih fun other hother => h other (List.mem_cons_of_mem _ hother) with
        ⟨layers, hmap, hcast⟩
      rcases layer with ⟨serviceType, value⟩
      obtain rfl : serviceType = S := h _ (List.mem_cons_self ..)
      refine ⟨value :: layers, by simp [hmap], ?_⟩
      simp [ConfiguredLayer.downcastRef, hcast]

theorem Reads.collected {ctx : Context C} {path : Path C} (h : Reads ctx path) (name : String) :
    (Context.collect name ctx.intercept).reverse = path.layers name := by
  rw [h.intercept, collect_eq_filter, List.filter_reverse, List.map_reverse, List.reverse_reverse]
  rfl

theorem Reads.resolveConfig {ctx : Context C} {path : Path C} (h : Reads ctx path)
    (S : C.TypeId) (base head : Option (C.Layer S))
    (hcontract : ∀ layer ∈ path.layers (C.NAME S), layer.serviceType = S) :
    ∃ layers : List (C.Layer S),
      layers.map (fun value => { serviceType := S, value := value }) =
          path.layers (C.NAME S) ∧
        ctx.resolveConfig S base head =
          some ((C.composeConfig S base layers head).mapError .compose) := by
  rcases mapM_downcastRef hcontract with ⟨layers, hmap, hcast⟩
  refine ⟨layers, hmap, ?_⟩
  have hmatch : (path.layers (C.NAME S)).any (fun layer => !layer.matchesContract S) = false := by
    simp only [List.any_eq_false, ConfiguredLayer.matchesContract]
    intro layer hlayer
    simp [hcontract layer hlayer]
  simp only [Context.resolveConfig, h.collected, hmatch, hcast]
  rfl

theorem Reads.resolveConfig_mismatch {ctx : Context C} {path : Path C} (h : Reads ctx path)
    (S : C.TypeId) (base head : Option (C.Layer S))
    (hother : ∃ layer ∈ path.layers (C.NAME S), layer.serviceType ≠ S) :
    ctx.resolveConfig S base head = some (.error (.contractMismatch (C.NAME S))) := by
  have hmatch : (path.layers (C.NAME S)).any (fun layer => !layer.matchesContract S) = true := by
    rcases hother with ⟨layer, hmem, hne⟩
    simp only [List.any_eq_true, ConfiguredLayer.matchesContract]
    exact ⟨layer, hmem, by simp [hne]⟩
  simp only [Context.resolveConfig, h.collected, hmatch]
  rfl

/-! ## Realm batches -/

theorem firstForeign_split {membership : RealmMembership}
    {before : List (String × ServiceRealm)} {service : String} {realm : ServiceRealm}
    {after : List (String × ServiceRealm)} (hbefore : ∀ row ∈ before, row.2.membership = membership)
    (hforeign : realm.membership ≠ membership) :
    Context.firstForeign membership (before ++ (service, realm) :: after) = some service := by
  induction before with
  | nil => simp [Context.firstForeign, ServiceRealm.belongsTo, hforeign]
  | cons row before ih =>
      rcases row with ⟨name, own⟩
      simp only [List.mem_cons, forall_eq_or_imp] at hbefore
      simp only [List.cons_append, Context.firstForeign, ServiceRealm.belongsTo, hbefore.1,
        beq_self_eq_true, if_true]
      exact ih hbefore.2

theorem firstForeign_none {membership : RealmMembership} {pairs : List (String × ServiceRealm)}
    (h : ∀ row ∈ pairs, row.2.membership = membership) :
    Context.firstForeign membership pairs = none := by
  induction pairs with
  | nil => rfl
  | cons row pairs ih =>
      rcases row with ⟨name, own⟩
      simp only [List.mem_cons, forall_eq_or_imp] at h
      simp only [Context.firstForeign, ServiceRealm.belongsTo, h.1, beq_self_eq_true, if_true]
      exact ih h.2

theorem own_of_firstForeign {membership : RealmMembership} {pairs : List (String × ServiceRealm)}
    (h : Context.firstForeign membership pairs = none) :
    ∀ row ∈ pairs, row.2.membership = membership := by
  induction pairs with
  | nil => exact nofun
  | cons row pairs ih =>
      rcases row with ⟨name, own⟩
      simp only [Context.firstForeign] at h
      split at h
      · rename_i hown
        intro row hrow
        rcases List.mem_cons.mp hrow with rfl | hrest
        · exact beq_iff_eq.mp hown
        · exact ih h row hrest
      · cases h

namespace Context

/-- A repeated name refuses the batch, whatever realms it carries. -/
theorem withServiceRealms_duplicate (ctx : Context C) (membership : RealmMembership)
    (before : List (String × ServiceRealm)) (service : String) (realm : ServiceRealm)
    (after : List (String × ServiceRealm)) (hnodup : (before.map Prod.fst).Nodup)
    (hseen : service ∈ before.map Prod.fst) :
    ctx.withServiceRealms membership (before ++ (service, realm) :: after) =
      .error (.duplicateService service) := by
  have hduplicate : firstRepeated [] ((before ++ (service, realm) :: after).map Prod.fst) =
      some service := by
    rw [List.map_append, List.map_cons]
    exact firstRepeated_append hnodup (fun _ _ => List.not_mem_nil) (.inr hseen)
  simp only [Context.withServiceRealms, hduplicate]

/-- Without one, the first foreign realm does. -/
theorem withServiceRealms_foreign (ctx : Context C) (membership : RealmMembership)
    (before : List (String × ServiceRealm)) (service : String) (realm : ServiceRealm)
    (after : List (String × ServiceRealm))
    (hnodup : ((before ++ (service, realm) :: after).map Prod.fst).Nodup)
    (hbefore : ∀ row ∈ before, row.2.membership = membership)
    (hforeign : realm.membership ≠ membership) :
    ctx.withServiceRealms membership (before ++ (service, realm) :: after) =
      .error (.foreignRealm service) := by
  have hunique : firstRepeated [] ((before ++ (service, realm) :: after).map Prod.fst) = none :=
    firstRepeated_nil_eq_none.mpr hnodup
  have hfirst : firstForeign membership (before ++ (service, realm) :: after) = some service :=
    firstForeign_split hbefore hforeign
  simp only [Context.withServiceRealms, hunique, hfirst]

theorem withServiceRealms_accepted (ctx : Context C) (membership : RealmMembership)
    (pairs : List (String × ServiceRealm)) (hnodup : (pairs.map Prod.fst).Nodup)
    (hown : ∀ row ∈ pairs, row.2.membership = membership) :
    ctx.withServiceRealms membership pairs =
      .ok (ctx.deriveIsolate (pairs.map fun (name, realm) => (name, realm.key))) := by
  have hunique : firstRepeated [] (pairs.map Prod.fst) = none :=
    firstRepeated_nil_eq_none.mpr hnodup
  simp only [Context.withServiceRealms, hunique, firstForeign_none hown]

end Context

/-- An accepted batch is one layer with exactly these rows. -/
theorem withServiceRealms_ok {ctx ctx' : Context C} {membership : RealmMembership}
    {pairs : List (String × ServiceRealm)}
    (h : ctx.withServiceRealms membership pairs = .ok ctx') :
    ctx' = ctx.deriveIsolate (pairs.map fun (name, realm) => (name, realm.key)) := by
  simp only [Context.withServiceRealms] at h
  split at h
  · cases h
  · split at h
    · cases h
    · cases h
      rfl

/-! ## The invariant of a world -/

/-- The scope node that the last derivation of a view made. -/
def made (view : Context C × Path C) : Option ScopeNode :=
  view.2.getLast?.bind Derived.node

theorem scopes_childScope (path : Path C) (node : ScopeNode) :
    (path ++ [Derived.childScope node]).scopes = path.scopes ++ [node] := by
  simp [Path.scopes, Derived.node]

theorem made_childScope (ctx : Context C) (path : Path C) (node : ScopeNode) :
    made (ctx, path ++ [Derived.childScope node]) = some node := by
  simp [made, Derived.node]

/-- No two views of a world were made by the same node. -/
theorem index_of_made {views : List (Context C × Path C)} {i j : Nat}
    {a b : Context C × Path C} {node : ScopeNode} (h : (views.filterMap made).Nodup)
    (ha : views[i]? = some a) (hb : views[j]? = some b) (hma : made a = some node)
    (hmb : made b = some node) : i = j := by
  induction views generalizing i j with
  | nil => simp at ha
  | cons view views ih =>
      have hrest : (views.filterMap made).Nodup := by
        simp only [List.filterMap_cons] at h
        split at h
        · exact h
        · exact (List.nodup_cons.mp h).2
      have hfirst : ∀ {k : Nat} {other : Context C × Path C}, made view = some node →
          views[k]? = some other → made other = some node → False := by
        intro k other hview hk hother
        simp only [List.filterMap_cons, hview, List.nodup_cons] at h
        exact h.1 (List.mem_filterMap.mpr ⟨other, List.mem_of_getElem? hk, hother⟩)
      cases i with
      | zero =>
          obtain rfl : view = a := by simpa using ha
          cases j with
          | zero => rfl
          | succ j => exact (hfirst hma (by simpa using hb) hmb).elim
      | succ i =>
          cases j with
          | zero =>
              obtain rfl : view = b := by simpa using hb
              exact (hfirst hmb (by simpa using ha) hma).elim
          | succ j => exact congrArg Nat.succ (ih hrest (by simpa using ha) (by simpa using hb))

structure Sound (w : World C) : Prop where
  reads : ∀ view ∈ w.views, Reads view.1 view.2
  forest : ∃ above, ∀ view ∈ w.views, Rooted above view.2.scopes
  bounded : ∀ view ∈ w.views, ∀ node ∈ view.2.scopes, node < w.nodes
  siblings : (w.views.filterMap made).Nodup
  realms : w.realms.Nodup
  counted : ∀ realm ∈ w.realms, 0 < realm.key ∧ realm.key ≤ w.sn.realm
  isolated : ∀ view ∈ w.views, ∀ name key, .isolatedService name key ∈ view.2 → key ∈ w.realms

namespace Sound

theorem init (membership : RealmMembership) : Sound ({ membership := membership } : World C) where
  reads := by
    intro view hview
    obtain rfl : view = (Context.root, []) := by simpa using hview
    exact Reads.root
  forest := by
    refine ⟨fun _ => [], fun view hview outer node inner hsplit => ?_⟩
    obtain rfl : view = (Context.root, []) := by simpa using hview
    simp [Path.scopes] at hsplit
  bounded := by
    intro view hview node hnode
    obtain rfl : view = (Context.root, []) := by simpa using hview
    simp [Path.scopes] at hnode
  siblings := List.nodup_nil
  realms := List.nodup_nil
  counted := nofun
  isolated := by
    intro view hview name key hkey
    obtain rfl : view = (Context.root, []) := by simpa using hview
    cases hkey

variable {w : World C}

/-- A new view at a known scope position, whose realms are all known. -/
theorem push (h : Sound w) {ctx : Context C} {path : Path C} (hreads : Reads ctx path)
    (hscopes : path.scopes = [] ∨ ∃ view ∈ w.views, path.scopes = view.2.scopes)
    (hmade : made (ctx, path) = none)
    (hisolated : ∀ name key, .isolatedService name key ∈ path → key ∈ w.realms) :
    Sound (w.push ctx path) where
  reads := by
    intro view hview
    rcases List.mem_append.mp hview with hold | hnew
    · exact h.reads view hold
    · obtain rfl := List.mem_singleton.mp hnew
      exact hreads
  forest := by
    rcases h.forest with ⟨above, habove⟩
    refine ⟨above, fun view hview => ?_⟩
    rcases List.mem_append.mp hview with hold | hnew
    · exact habove view hold
    · obtain rfl := List.mem_singleton.mp hnew
      rcases hscopes with hnil | ⟨source, hsource, hsame⟩
      · intro outer node inner hsplit
        simp [hnil] at hsplit
      · exact hsame ▸ habove source hsource
  bounded := by
    intro view hview node hnode
    rcases List.mem_append.mp hview with hold | hnew
    · exact h.bounded view hold node hnode
    · obtain rfl := List.mem_singleton.mp hnew
      rcases hscopes with hnil | ⟨source, hsource, hsame⟩
      · simp [hnil] at hnode
      · exact h.bounded source hsource node (hsame ▸ hnode)
  siblings := by
    simp only [World.push, List.filterMap_append, List.filterMap_cons, hmade,
      List.filterMap_nil, List.append_nil]
    exact h.siblings
  realms := h.realms
  counted := h.counted
  isolated := by
    intro view hview
    rcases List.mem_append.mp hview with hold | hnew
    · exact h.isolated view hold
    · obtain rfl := List.mem_singleton.mp hnew
      exact hisolated

/-- A new scope node is nobody's ancestor yet, so the forest grows at the leaf. -/
theorem childScope (h : Sound w) {ctx : Context C} {path : Path C} (hview : (ctx, path) ∈ w.views) :
    Sound ({ w with nodes := w.nodes + 1 }.push (ctx.withChildScope w.nodes)
      (path ++ [Derived.childScope w.nodes])) := by
  have hscopes := scopes_childScope path w.nodes
  have hfresh : ∀ view ∈ w.views, w.nodes ∉ view.2.scopes := fun view hv hmem =>
    Nat.lt_irrefl _ (h.bounded view hv _ hmem)
  constructor
  case reads =>
    intro view hview'
    rcases List.mem_append.mp hview' with hold | hnew
    · exact h.reads view hold
    · obtain rfl := List.mem_singleton.mp hnew
      exact (h.reads _ hview).childScope w.nodes
  case forest =>
    rcases h.forest with ⟨above, habove⟩
    -- the new node hangs below the path; every other node keeps what is above it
    let grown : ScopeNode → List ScopeNode :=
      fun node => if node = w.nodes then path.scopes else above node
    have hkept : ∀ view ∈ w.views, Rooted grown view.2.scopes := by
      intro view hv outer node inner hsplit
      have hne : node ≠ w.nodes := by
        rintro rfl
        exact hfresh view hv (by simp [hsplit])
      simp only [grown, if_neg hne]
      exact habove view hv outer node inner hsplit
    refine ⟨grown, fun view hview' => ?_⟩
    rcases List.mem_append.mp hview' with hold | hnew
    · exact hkept view hold
    · obtain rfl := List.mem_singleton.mp hnew
      simp only [hscopes]
      exact (hkept _ hview).snoc (by simp [grown])
  case bounded =>
    intro view hview' node hnode
    show node < w.nodes + 1
    rcases List.mem_append.mp hview' with hold | hnew
    · exact Nat.lt_succ_of_lt (h.bounded view hold node hnode)
    · obtain rfl := List.mem_singleton.mp hnew
      simp only [hscopes, List.mem_append, List.mem_singleton] at hnode
      rcases hnode with hold | rfl
      · exact Nat.lt_succ_of_lt (h.bounded _ hview node hold)
      · exact Nat.lt_succ_self _
  case siblings =>
    have hmade := made_childScope (ctx.withChildScope w.nodes) path w.nodes
    -- no view was made with this node before
    have hnew : w.nodes ∉ w.views.filterMap made := by
      intro hmem
      rcases List.mem_filterMap.mp hmem with ⟨view, hv, hlast⟩
      apply hfresh view hv
      simp only [made, Option.bind_eq_some_iff] at hlast
      rcases hlast with ⟨last, hlast, hnode⟩
      exact List.mem_filterMap.mpr ⟨last, List.mem_of_getLast? hlast, hnode⟩
    simp only [World.push, List.filterMap_append, List.filterMap_cons, hmade,
      List.filterMap_nil]
    refine List.nodup_append.mpr ⟨h.siblings, List.pairwise_singleton _ _, ?_⟩
    rintro node hnode _ hlast rfl
    exact hnew (List.mem_singleton.mp hlast ▸ hnode)
  case realms => exact h.realms
  case counted => exact h.counted
  case isolated =>
    intro view hview' name key hkey
    rcases List.mem_append.mp hview' with hold | hnew
    · exact h.isolated view hold name key hkey
    · obtain rfl := List.mem_singleton.mp hnew
      simp only [List.mem_append, List.mem_singleton, reduceCtorEq, or_false] at hkey
      exact h.isolated _ hview name key hkey

/-- One more key is allocated. -/
theorem allocate (h : Sound w) {sn : SnCounters} {key : RealmKey}
    (hnext : w.sn.nextRealmKey = some (sn, key)) :
    sn.realm = key.key ∧ Sound { w with sn := sn, realms := key :: w.realms } := by
  simp only [SnCounters.nextRealmKey, Option.ite_none_right_eq_some, Option.some.injEq,
    Prod.mk.injEq] at hnext
  rcases hnext with ⟨-, rfl, rfl⟩
  refine ⟨rfl, { h with realms := ?_, counted := ?_, isolated := ?_ }⟩
  · refine List.nodup_cons.mpr ⟨fun hmem => ?_, h.realms⟩
    exact Nat.not_succ_le_self _ (h.counted _ hmem).2
  · intro realm hrealm
    rcases List.mem_cons.mp hrealm with rfl | hold
    · exact ⟨Nat.succ_pos _, Nat.le_refl _⟩
    · have hcounted := h.counted realm hold
      exact ⟨hcounted.1, Nat.le_succ_of_le hcounted.2⟩
  · intro view hview name k hk
    exact List.mem_cons_of_mem _ (h.isolated view hview name k hk)

theorem configuredIntercept (h : Sound w) {ctx : Context C} {path : Path C}
    (hview : (ctx, path) ∈ w.views) (name : String) (configured : ConfiguredLayer C) :
    Sound (w.push (ctx.withConfiguredIntercept name configured)
      (path ++ [Derived.configuredIntercept name configured])) := by
  refine h.push ((h.reads _ hview).configuredIntercept name configured) ?_ ?_ ?_
  · exact .inr ⟨_, hview, by simp [Path.scopes, Derived.node]⟩
  · simp [made, Derived.node]
  · intro service k hk
    exact h.isolated _ hview service k (by simpa using hk)

theorem derive (h : Sound w) {ctx : Context C} {path : Path C} (hview : (ctx, path) ∈ w.views)
    {derivation : Derivation C} {w' : World C} (hstep : w.derive ctx path derivation = some w') :
    Sound w' := by
  have hreads := h.reads _ hview
  have hknown := h.isolated _ hview
  cases derivation with
  | isolatedService name =>
      simp only [World.derive, Context.withIsolatedService, Option.map_map, Option.map_eq_some_iff,
        Function.comp_apply] at hstep
      -- the realm of an isolated service is fresh, and the view is pushed after its allocation
      rcases hstep with ⟨⟨sn, key⟩, hnext, rfl⟩
      rcases h.allocate hnext with ⟨hkey, hsound⟩
      obtain rfl : key = { key := sn.realm } := by rw [hkey]
      refine hsound.push (hreads.deriveIsolate (fun service => ?_) rfl rfl rfl) ?_ ?_ ?_
      · simp only [List.lookup_cons, Derived.maps]
        by_cases hs : name = service
        · simp [hs]
        · simp [hs, beq_eq_false_iff_ne.mpr (Ne.symm hs)]
      · exact .inr ⟨_, hview, by simp [Path.scopes, Derived.node]⟩
      · simp [made, Derived.node]
      · intro service k hk
        simp only [List.mem_append, List.mem_singleton, Derived.isolatedService.injEq] at hk
        rcases hk with hold | ⟨-, rfl⟩
        · exact List.mem_cons_of_mem _ (hknown service k hold)
        · exact List.mem_cons_self ..
  | serviceRealms pairs =>
      simp only [World.derive] at hstep
      split at hstep
      · rename_i ctx' hok
        cases hstep
        obtain rfl := withServiceRealms_ok hok
        refine h.push (hreads.deriveIsolate (lookup_map_key pairs) rfl rfl rfl) ?_ ?_ ?_
        · exact .inr ⟨_, hview, by simp [Path.scopes, Derived.node]⟩
        · simp [made, Derived.node]
        · intro service k hk
          exact hknown service k (by simpa using hk)
      · cases hstep
        exact h
  | childScope =>
      cases hstep
      exact h.childScope hview
  | intercept S layer =>
      cases hstep
      exact h.configuredIntercept hview (C.NAME S) { serviceType := S, value := layer }
  | configuredIntercept name configured =>
      cases hstep
      exact h.configuredIntercept hview name configured
  | fiber fiber =>
      cases hstep
      refine h.push (hreads.withFiber fiber) ?_ ?_ ?_
      · exact .inr ⟨_, hview, by simp [Path.scopes, Derived.node]⟩
      · simp [made, Derived.node]
      · intro service k hk
        exact hknown service k (by simpa using hk)

theorem of_reachable {membership : RealmMembership}
    (h : (runtime C membership).Reachable Automaton.anyRun w) : Sound w := by
  refine Automaton.Reachable.invariant (init membership) ?_ h
  intro w a w' _ hw _ hstep
  cases a with
  | newServiceRealm =>
      simp only [runtime, World.newServiceRealm, Option.map_map, Option.map_eq_some_iff,
        Function.comp_apply] at hstep
      rcases hstep with ⟨out, hnext, rfl⟩
      exact (hw.allocate hnext).2
  | root =>
      cases hstep
      exact hw.push Reads.root (.inl rfl) rfl nofun
  | derive source derivation =>
      simp only [runtime] at hstep
      split at hstep
      · rename_i ctx path hview
        exact hw.derive (List.mem_of_getElem? hview) hstep
      · cases hstep

end Sound

/-! ## The axes compose -/

/-- What holds of every view of a world, axis by axis. -/
structure Composed (membership : RealmMembership) (w : World C) : Prop where
  /-- The isolate derivations alone select the realm, the last that maps the name first. -/
  realm : ∀ view ∈ w.views, ∀ name,
    view.1.isolateKey name = view.2.isolates.realm name
  /-- The scope derivations alone decide reachability, by ancestry. -/
  reach : ∀ registration ∈ w.views, ∀ dispatch ∈ w.views,
    eligible registration.1.scope dispatch.1.scope = true ↔
      registration.2.scopes <+: dispatch.2.scopes
  reach_refl : ∀ view ∈ w.views, eligible view.1.scope view.1.scope = true
  reach_antisymm : ∀ a ∈ w.views, ∀ b ∈ w.views, eligible a.1.scope b.1.scope = true →
    eligible b.1.scope a.1.scope = true → a.1.scope = b.1.scope
  reach_trans : ∀ a ∈ w.views, ∀ b ∈ w.views, ∀ c ∈ w.views,
    eligible a.1.scope b.1.scope = true → eligible b.1.scope c.1.scope = true →
      eligible a.1.scope c.1.scope = true
  /-- Two child scopes made at one position do not reach each other. -/
  siblings : ∀ (i j : Nat) (a b : Context C) (p q : Path C) (m n : ScopeNode), i ≠ j →
    w.views[i]? = some (a, p ++ [.childScope m]) → w.views[j]? = some (b, q ++ [.childScope n]) →
      p.scopes = q.scopes → eligible a.scope b.scope = false
  /-- The intercept derivations alone give the layers, outermost first. -/
  config : ∀ view ∈ w.views, ∀ (S : C.TypeId) (base head : Option (C.Layer S)),
    (∀ layer ∈ view.2.layers (C.NAME S), layer.serviceType = S) →
      ∃ layers : List (C.Layer S),
        layers.map (fun value => { serviceType := S, value := value }) =
            view.2.layers (C.NAME S) ∧
          view.1.resolveConfig S base head =
            some ((C.composeConfig S base layers head).mapError .compose)
  mismatch : ∀ view ∈ w.views, ∀ (S : C.TypeId) (base head : Option (C.Layer S)),
    (∃ layer ∈ view.2.layers (C.NAME S), layer.serviceType ≠ S) →
      view.1.resolveConfig S base head = some (.error (.contractMismatch (C.NAME S)))
  fiber : ∀ view ∈ w.views, view.1.fiber = view.2.fiber
  fresh : w.realms.Nodup ∧ RealmKey.DEFAULT ∉ w.realms
  isolated : ∀ view ∈ w.views, ∀ name key, .isolatedService name key ∈ view.2 → key ∈ w.realms
  /-- A batch is refused for its first repeated name, and only then for a foreign realm. -/
  duplicate : ∀ view ∈ w.views, ∀ before service realm after, (before.map Prod.fst).Nodup →
    service ∈ before.map Prod.fst →
      view.1.withServiceRealms membership (before ++ (service, realm) :: after) =
        .error (.duplicateService service)
  foreign : ∀ view ∈ w.views, ∀ before service realm after,
    ((before ++ (service, realm) :: after).map Prod.fst).Nodup →
      (∀ row ∈ before, row.2.membership = membership) → realm.membership ≠ membership →
        view.1.withServiceRealms membership (before ++ (service, realm) :: after) =
          .error (.foreignRealm service)
  accepted : ∀ view ∈ w.views, ∀ pairs, (pairs.map Prod.fst).Nodup →
    (∀ row ∈ pairs, row.2.membership = membership) →
      view.1.withServiceRealms membership pairs =
        .ok (view.1.deriveIsolate (pairs.map fun (name, realm) => (name, realm.key)))
  refused : ∀ (source : Nat) (ctx : Context C) (path : Path C) pairs error,
    w.views[source]? = some (ctx, path) → ctx.withServiceRealms membership pairs = .error error →
      (runtime C membership).step w (.derive source (.serviceRealms pairs)) = some w

theorem membership_of_reachable {membership : RealmMembership} {w : World C}
    (h : (runtime C membership).Reachable Automaton.anyRun w) : w.membership = membership := by
  refine Automaton.Reachable.invariant (I := fun w => w.membership = membership) rfl ?_ h
  intro w a w' _ hw _ hstep
  cases a with
  | newServiceRealm =>
      simp only [runtime, World.newServiceRealm, Option.map_map, Option.map_eq_some_iff] at hstep
      rcases hstep with ⟨out, -, rfl⟩
      exact hw
  | root =>
      cases hstep
      exact hw
  | derive source derivation =>
      simp only [runtime] at hstep
      split at hstep
      · rename_i ctx path _
        cases derivation with
        | isolatedService name =>
            simp only [World.derive, Option.map_eq_some_iff] at hstep
            rcases hstep with ⟨out, -, rfl⟩
            exact hw
        | serviceRealms pairs =>
            simp only [World.derive] at hstep
            split at hstep <;> cases hstep <;> exact hw
        | childScope | intercept | configuredIntercept | fiber =>
            cases hstep
            exact hw
      · cases hstep

theorem findSome?_isolates (path : Path C) (name : String) :
    path.isolates.reverse.findSome? (Derived.maps name) =
      path.reverse.findSome? (Derived.maps name) := by
  rw [Path.isolates, ← List.filter_reverse]
  induction path.reverse with
  | nil => rfl
  | cons last path ih =>
      cases last with
      | isolatedService | serviceRealms =>
          simp only [List.filter_cons, Derived.isIsolate, if_true, List.findSome?_cons, ih]
      | childScope | configuredIntercept | fiber =>
          simpa only [List.filter_cons, Derived.isIsolate, Bool.false_eq_true, if_false,
            List.findSome?_cons, Derived.maps] using ih

/-- Two contracts that share a Service name, with numbers for layers. -/
def numbered : Contracts where
  TypeId := Bool
  NAME := fun _ => "cache"
  Layer := fun _ => Nat
  Resolved := fun _ => List Nat
  ComposeError := fun _ => Empty
  composeConfig := fun _ base layers head => .ok (base.toList ++ layers ++ head.toList)

/-- Isolate, scope, intercept, a refused batch, a sibling and an accepted batch. -/
def mixed : List (Act numbered) :=
  [.newServiceRealm, .derive 0 (.isolatedService "cache"), .derive 1 .childScope,
    .derive 2 (.intercept true (5 : Nat)),
    .derive 3 (.serviceRealms [("db", { membership := 9, key := { key := 1 } })]),
    .derive 0 .childScope, .derive 3 (.fiber 4),
    .derive 5 (.serviceRealms [("cache", { membership := 7, key := { key := 1 } })])]

theorem mixed_enabled :
    ((runtime numbered 7).run (fun _ _ => true) mixed (runtime numbered 7).init).isSome = true :=
  rfl

end Axes
end CordisCore
