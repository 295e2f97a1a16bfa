import CordisCore.Interleaving.History
import Mathlib.Data.List.Nodup

/-!
# Pasts — where the operations and the routines of a run came from

What a party performed was performed in some configuration that the run went
through, and the routine it is in was entered, forked or left behind by a drop.
What nothing undoes and held right then holds ever since.
-/

namespace CordisCore
namespace Interleaving
namespace Machine

variable {σ Op : Type} {Ret : Op → Type} {Routine Choice Answer : Type}
variable {M : Machine σ Op Ret Routine Choice Answer}

/-- A condition on the state that no operation, entry or drop undoes. -/
structure Stable (M : Machine σ Op Ret Routine Choice Answer) (Q : σ → Prop) : Prop where
  exec : ∀ {p q c op s s' r}, Q s → M.exec p q c op s = some (s', r) → Q s'
  enter : ∀ {p routine s s'}, Q s → M.enter p routine s = some s' → Q s'
  dropped : ∀ {p s s' next}, Q s → M.dropped p s = some (s', next) → Q s'

/-- Everything stable about the first state is true of the second. -/
def Since (M : Machine σ Op Ret Routine Choice Answer) (s s' : σ) : Prop :=
  ∀ Q, M.Stable Q → Q s → Q s'

theorem Since.refl (s : σ) : M.Since s s :=
  fun _ _ h => h

theorem Since.trans {s s' s'' : σ} (h : M.Since s s') (h' : M.Since s' s'') : M.Since s s'' :=
  fun Q hQ hs => h' Q hQ (h Q hQ hs)

/-! ## What one step of the recorded machine keeps -/

theorem Moves.since {cfg cfg' : Config (Recorded σ Op Ret Routine) Op Ret Answer}
    (h : M.Moves cfg cfg') : M.Since cfg.shared.state cfg'.shared.state := by
  intro Q hQ hs
  cases h with
  | performed _ _ hexec => exact hQ.exec hs hexec
  | forked _ _ _ _ hexec => exact hQ.exec hs hexec
  | unfolded => exact hs
  | entered _ henter => exact hQ.enter hs henter
  | dropped _ _ hdropped => exact hQ.dropped hs hdropped

/-- A party that was born stays in the pool. -/
theorem Moves.born {cfg cfg' : Config (Recorded σ Op Ret Routine) Op Ret Answer}
    (h : M.Moves cfg cfg') {p : Party} (hborn : cfg.pool p ≠ none) : cfg'.pool p ≠ none := by
  have hplace : ∀ {pool : Party → Option (Program Op Ret Answer)} {q : Party}
      {x : Program Op Ret Answer}, pool p ≠ none → place pool q x p ≠ none := by
    intro pool q x hpool
    unfold place
    split
    · exact Option.some_ne_none _
    · exact hpool
  cases h with
  | performed | unfolded | entered | dropped => exact hplace hborn
  | forked => exact hplace (hplace hborn)

/-! ## Where an event was performed -/

variable (M) in
/-- In some configuration of the run the party performed this event. -/
def Happened (ok : Condition (Recorded σ Op Ret Routine) Op Choice) (p : Party)
    (event : Event Op Ret) (now : σ) : Prop :=
  ∃ cfg q c state next, M.recorded.Reachable ok cfg ∧
    cfg.pool p = some (.act event.1 next) ∧
    M.exec p q c event.1 cfg.shared.state = some (state, event.2) ∧ M.Since state now

theorem Happened.later {ok : Condition (Recorded σ Op Ret Routine) Op Choice} {p : Party}
    {event : Event Op Ret} {s s' : σ} (h : M.Happened ok p event s) (hsince : M.Since s s') :
    M.Happened ok p event s' := by
  rcases h with ⟨cfg, q, c, state, next, hreach, hpool, hexec, hthen⟩
  exact ⟨cfg, q, c, state, next, hreach, hpool, hexec, hthen.trans hsince⟩

theorem happened_of_reachable {ok : Condition (Recorded σ Op Ret Routine) Op Choice}
    {cfg : Config (Recorded σ Op Ret Routine) Op Ret Answer} (h : M.recorded.Reachable ok cfg) :
    ∀ row ∈ cfg.shared.history, M.Happened ok row.1 row.2 cfg.shared.state := by
  induction h with
  | start => exact nofun
  | @step cfg cfg' label hreach _ moves ih =>
      have hmove := moves_of_step moves
      have hold : ∀ row ∈ cfg.shared.history, M.Happened ok row.1 row.2 cfg'.shared.state :=
        fun row hrow => (ih row hrow).later hmove.since
      intro row hrow
      cases hmove with
      | performed hpool _ hexec =>
          rcases List.mem_cons.mp hrow with rfl | hrow
          · exact ⟨cfg, _, _, _, _, hreach, hpool, hexec, .refl _⟩
          · exact hold row hrow
      | forked hpool _ _ _ hexec =>
          rcases List.mem_cons.mp hrow with rfl | hrow
          · exact ⟨cfg, _, _, _, _, hreach, hpool, hexec, .refl _⟩
          · exact hold row hrow
      | unfolded | entered | dropped => exact hold row hrow

/-! ## How a party came to its routine -/

variable (M) in
/-- What a party had performed when it came to this routine, and how it came to it. -/
inductive Past (ok : Condition (Recorded σ Op Ret Routine) Op Choice) (p : Party) (now : σ) :
    List (Event Op Ret) → Option Routine → Prop where
  | entered {routine : Routine} {s s' : σ} (enter : M.enter p routine s = some s') :
      Past ok p now [] (some routine)
  | forked {routine : Routine} {op : Op} (forks : M.forks op = some routine) :
      Past ok p now [] (some routine)
  | dropped {cfg : Config (Recorded σ Op Ret Routine) Op Ret Answer} {op : Op}
      {next : Ret op → Program Op Ret Answer} {state : σ} {routine : Option Routine}
      (reached : M.recorded.Reachable ok cfg) (pool : cfg.pool p = some (.act op next))
      (awaits : M.awaits op = true)
      (dropped : M.dropped p cfg.shared.state = some (state, routine))
      (since : M.Since state now) : Past ok p now (cfg.shared.performed p) routine

theorem Past.later {ok : Condition (Recorded σ Op Ret Routine) Op Choice} {p : Party} {s s' : σ}
    {older : List (Event Op Ret)} {routine : Option Routine} (h : M.Past ok p s older routine)
    (hsince : M.Since s s') : M.Past ok p s' older routine := by
  cases h with
  | entered henter => exact .entered henter
  | forked hforks => exact .forked hforks
  | dropped hreached hpool hawaits hdropped hthen =>
      exact .dropped hreached hpool hawaits hdropped (hthen.trans hsince)

variable (M) in
/-- A party has done nothing yet, or all it did is its past and its log. -/
def Traced (ok : Condition (Recorded σ Op Ret Routine) Op Choice)
    (cfg : Config (Recorded σ Op Ret Routine) Op Ret Answer) (p : Party) : Prop :=
  (cfg.pool p = none ∧ cfg.shared.performed p = [] ∧ cfg.shared.origin p = none) ∨
    (cfg.pool p ≠ none ∧ ∃ older, M.Past ok p cfg.shared.state older (cfg.shared.origin p) ∧
      cfg.shared.performed p = older ++ cfg.shared.log p)

theorem performed_record_self (s : Recorded σ Op Ret Routine) (p : Party) (event : Event Op Ret) :
    (s.record p event).performed p = s.performed p ++ [event] := by
  simp [Recorded.performed, Recorded.record]

theorem performed_record_others (s : Recorded σ Op Ret Routine) {p q : Party}
    (event : Event Op Ret) (h : q ≠ p) : (s.record p event).performed q = s.performed q := by
  simp [Recorded.performed, Recorded.record, Ne.symm h]

/-- Nothing happened to the party itself. -/
theorem Traced.same {ok : Condition (Recorded σ Op Ret Routine) Op Choice}
    {cfg cfg' : Config (Recorded σ Op Ret Routine) Op Ret Answer} {p : Party}
    (h : M.Traced ok cfg p) (hsince : M.Since cfg.shared.state cfg'.shared.state)
    (hpool : cfg'.pool p = cfg.pool p) (horigin : cfg'.shared.origin p = cfg.shared.origin p)
    (hlog : cfg'.shared.log p = cfg.shared.log p)
    (hperformed : cfg'.shared.performed p = cfg.shared.performed p) : M.Traced ok cfg' p := by
  rcases h with ⟨hnone, hnothing, hnowhere⟩ | ⟨hsome, older, hpast, hall⟩
  · exact .inl ⟨hpool.trans hnone, hperformed.trans hnothing, horigin.trans hnowhere⟩
  · refine .inr ⟨?_, older, ?_, ?_⟩
    · rw [hpool]
      exact hsome
    · rw [horigin]
      exact hpast.later hsince
    · rw [hperformed, hlog, hall]

/-- A party that moves along has a past already. -/
theorem Traced.along {ok : Condition (Recorded σ Op Ret Routine) Op Choice}
    {cfg cfg' : Config (Recorded σ Op Ret Routine) Op Ret Answer} {p : Party}
    {x : Program Op Ret Answer} (h : M.Traced ok cfg p) (hpool : cfg.pool p = some x)
    (hsince : M.Since cfg.shared.state cfg'.shared.state) {more : List (Event Op Ret)}
    (hpool' : cfg'.pool p ≠ none) (horigin : cfg'.shared.origin p = cfg.shared.origin p)
    (hlog : cfg'.shared.log p = cfg.shared.log p ++ more)
    (hperformed : cfg'.shared.performed p = cfg.shared.performed p ++ more) :
    M.Traced ok cfg' p := by
  rcases h with ⟨hnone, -⟩ | ⟨-, older, hpast, hall⟩
  · rw [hpool] at hnone
    cases hnone
  · refine .inr ⟨hpool', older, ?_, ?_⟩
    · rw [horigin]
      exact hpast.later hsince
    · rw [hperformed, hlog, hall, List.append_assoc]

/-- A party begins a routine. -/
theorem Traced.begin {ok : Condition (Recorded σ Op Ret Routine) Op Choice}
    {s : Recorded σ Op Ret Routine} {pool : Party → Option (Program Op Ret Answer)} {p : Party}
    {routine : Option Routine} {x : Program Op Ret Answer}
    (hpast : M.Past ok p s.state (s.performed p) routine) :
    M.Traced ok { shared := s.begin p routine, pool := place pool p x } p := by
  refine .inr ⟨by simp, s.performed p, ?_, ?_⟩
  · simpa [Recorded.begin] using hpast
  · simp [Recorded.begin, Recorded.performed]

/-- What an unborn party has performed. -/
theorem Traced.unborn {ok : Condition (Recorded σ Op Ret Routine) Op Choice}
    {cfg : Config (Recorded σ Op Ret Routine) Op Ret Answer} {p : Party}
    (h : M.Traced ok cfg p) (hnone : cfg.pool p = none) : cfg.shared.performed p = [] := by
  rcases h with ⟨-, hnothing, -⟩ | ⟨hsome, -⟩
  · exact hnothing
  · exact absurd hnone hsome

theorem traced_of_reachable {ok : Condition (Recorded σ Op Ret Routine) Op Choice}
    {cfg : Config (Recorded σ Op Ret Routine) Op Ret Answer} (h : M.recorded.Reachable ok cfg) :
    ∀ p, M.Traced ok cfg p := by
  induction h with
  | start => exact fun p => .inl ⟨rfl, rfl, rfl⟩
  | @step cfg cfg' label hreach _ moves ih =>
      intro party
      have hmove := moves_of_step moves
      have hsince := hmove.since
      cases hmove with
      | @performed p _ _ op _ state r hpool =>
          by_cases hp : party = p
          · subst hp
            exact (ih party).along hpool hsince (by simp) rfl
              (by simp [Recorded.record, Recorded.move]) (performed_record_self ..)
          · exact (ih party).same hsince (place_of_ne _ _ hp) rfl
              (record_others (cfg.shared.move state) ⟨op, r⟩ hp).2
              (performed_record_others _ _ hp)
      | @forked p q _ op _ state r routine hpool hforks hfresh hunborn =>
          have hnew := fun (hq : party ≠ q) =>
            begin_others ((cfg.shared.move state).record p ⟨op, r⟩) (some routine) hq
          by_cases hq : party = q
          · subst hq
            apply Traced.begin
            -- an unborn party has no past, so the routine starts with an empty log
            have hnothing : ((cfg.shared.move state).record p ⟨op, r⟩).performed party = [] :=
              (performed_record_others _ _ hfresh).trans ((ih party).unborn hunborn)
            rw [hnothing]
            exact .forked hforks
          · by_cases hp : party = p
            · subst hp
              refine (ih party).along hpool hsince ?_ (hnew hq).1 ((hnew hq).2.trans ?_)
                (performed_record_self ..)
              · simp [place_of_ne _ _ hq]
              · simp [Recorded.record, Recorded.move]
            · refine (ih party).same hsince ?_ (hnew hq).1 ((hnew hq).2.trans ?_) ?_
              · exact (place_of_ne _ _ hq).trans (place_of_ne _ _ hp)
              · exact (record_others (cfg.shared.move state) ⟨op, r⟩ hp).2
              · exact performed_record_others _ _ hp
      | @unfolded p _ _ _ _ _ hpool =>
          by_cases hp : party = p
          · subst hp
            exact (ih party).along hpool hsince (by simp) rfl (List.append_nil _).symm
              (List.append_nil _).symm
          · exact (ih party).same hsince (place_of_ne _ _ hp) rfl rfl rfl
      | @entered p routine state hunborn henter =>
          by_cases hp : party = p
          · subst hp
            apply Traced.begin
            have hnothing : (cfg.shared.move state).performed party = [] :=
              (ih party).unborn hunborn
            rw [hnothing]
            exact .entered henter
          · have hothers := begin_others (cfg.shared.move state) (some routine) hp
            exact (ih party).same hsince (place_of_ne _ _ hp) hothers.1 hothers.2 rfl
      | @dropped p _ _ state routine hpool hawaits hdropped =>
          by_cases hp : party = p
          · subst hp
            apply Traced.begin
            exact .dropped hreach hpool hawaits hdropped (.refl _)
          · have hothers := begin_others (cfg.shared.move state) routine hp
            exact (ih party).same hsince (place_of_ne _ _ hp) hothers.1 hothers.2 rfl

/-! ### Machines that replace nobody -/

/-- A dropped party is left with no routine and performs nothing any more. -/
theorem log_of_gone {ok : Condition (Recorded σ Op Ret Routine) Op Choice}
    {cfg : Config (Recorded σ Op Ret Routine) Op Ret Answer} (h : M.recorded.Reachable ok cfg) :
    ∀ p, cfg.shared.origin p = none → cfg.shared.log p = [] := by
  induction h with
  | start => exact fun _ _ => rfl
  | @step cfg cfg' label hreach _ moves ih =>
      have hmove := moves_of_step moves
      have hbegin : ∀ {s : Recorded σ Op Ret Routine} {q : Party} {routine : Option Routine},
          (∀ p, s.origin p = none → s.log p = []) →
            ∀ p, (s.begin q routine).origin p = none → (s.begin q routine).log p = [] := by
        intro s q routine hs p hnone
        by_cases hp : p = q
        · simp [Recorded.begin, hp]
        · have hothers := begin_others s routine hp
          rw [hothers.2]
          exact hs p (hothers.1 ▸ hnone)
      have hrecord : ∀ {p : Party} {op : Op} {next : Ret op → Program Op Ret Answer} {state : σ}
          {r : Ret op}, cfg.pool p = some (.act op next) → ∀ q,
            ((cfg.shared.move state).record p ⟨op, r⟩).origin q = none →
              ((cfg.shared.move state).record p ⟨op, r⟩).log q = [] := by
        intro p op next state r hpool q hnone
        have hq : q ≠ p := by
          rintro rfl
          rcases follows_of_reachable hreach hpool with ⟨routine, hroutine, -⟩ | ⟨-, hgone⟩
          · have hsome : cfg.shared.origin q = none := hnone
            rw [hroutine] at hsome
            cases hsome
          · cases hgone
        rw [(record_others (cfg.shared.move state) ⟨op, r⟩ hq).2]
        exact ih q hnone
      cases hmove with
      | performed hpool => exact hrecord hpool
      | forked hpool => exact hbegin (hrecord hpool)
      | unfolded => exact ih
      | entered => exact hbegin ih
      | dropped => exact hbegin ih

/-- Where nobody follows a dropped party, all that a party performed is one path; it stands at the
end of it, or it was dropped there. -/
theorem path_of_reachable {ok : Condition (Recorded σ Op Ret Routine) Op Choice}
    (hgone : ∀ {p s s' next}, M.dropped p s = some (s', next) → next = none)
    {cfg : Config (Recorded σ Op Ret Routine) Op Ret Answer} (h : M.recorded.Reachable ok cfg)
    (p : Party) : (cfg.pool p = none ∧ cfg.shared.performed p = []) ∨
      ∃ routine x, (M.body routine).Arrives (cfg.shared.performed p) x ∧
        (cfg.pool p = some x ∨ ∃ op next, x = .act op next ∧ M.awaits op = true) := by
  rcases traced_of_reachable h p with ⟨hnone, hnothing, -⟩ | ⟨hsome, older, hpast, hall⟩
  · exact .inl ⟨hnone, hnothing⟩
  right
  have hstarted : ∀ {cfg : Config (Recorded σ Op Ret Routine) Op Ret Answer}
      {x : Program Op Ret Answer} {routine : Routine}, M.recorded.Reachable ok cfg →
        cfg.pool p = some x → cfg.shared.origin p = some routine →
          (M.body routine).Arrives (cfg.shared.log p) x := by
    intro cfg x routine hreach hpool horigin
    rcases follows_of_reachable hreach hpool with ⟨other, hother, harrives⟩ | ⟨hnowhere, -⟩
    · rw [horigin, Option.some.injEq] at hother
      exact hother ▸ harrives
    · rw [horigin] at hnowhere
      cases hnowhere
  rcases Option.ne_none_iff_exists'.mp hsome with ⟨x, hpool⟩
  generalize horigin : cfg.shared.origin p = routine at hpast
  cases hpast with
  | @entered routine =>
      rw [List.nil_append] at hall
      rw [hall]
      exact ⟨routine, x, hstarted h hpool horigin, .inl hpool⟩
  | @forked routine =>
      rw [List.nil_append] at hall
      rw [hall]
      exact ⟨routine, x, hstarted h hpool horigin, .inl hpool⟩
  | @dropped cfg₀ op next state _ hreached hpool₀ hawaits hdropped hsince =>
      obtain rfl := hgone hdropped
      rw [log_of_gone h p horigin, List.append_nil] at hall
      rw [hall]
      -- it was dropped once only
      rcases traced_of_reachable hreached p with ⟨hnone, -⟩ | ⟨-, older₀, hpast₀, hall₀⟩
      · rw [hpool₀] at hnone
        cases hnone
      generalize horigin₀ : cfg₀.shared.origin p = routine₀ at hpast₀
      cases hpast₀ with
      | @entered routine =>
          rw [List.nil_append] at hall₀
          rw [hall₀]
          exact ⟨routine, _, hstarted hreached hpool₀ horigin₀, .inr ⟨op, next, rfl, hawaits⟩⟩
      | @forked routine =>
          rw [List.nil_append] at hall₀
          rw [hall₀]
          exact ⟨routine, _, hstarted hreached hpool₀ horigin₀, .inr ⟨op, next, rfl, hawaits⟩⟩
      | dropped _ _ _ hdropped₀ =>
          obtain rfl := hgone hdropped₀
          rcases follows_of_reachable hreached hpool₀ with ⟨routine, hroutine, -⟩ | ⟨-, hend⟩
          · rw [horigin₀] at hroutine
            cases hroutine
          · cases hend

/-! ### First routines -/

variable (M) in
/-- What a party performed is a path of this routine; after it was dropped there it performed only
such operations. -/
def Led (P : Op → Prop) (s : Recorded σ Op Ret Routine) (p : Party) (routine : Routine) : Prop :=
  s.origin p = some routine ∧ s.log p = s.performed p ∨
    ∃ before older y, s.performed p = before ++ (older ++ s.log p) ∧
      (M.body routine).Arrives before y ∧ (∀ event ∈ older, P event.1) ∧
        ∀ guard, s.origin p = some guard → (M.body guard).All P

/-- A party that has performed nothing begins its first routine. -/
theorem led_begin {P : Op → Prop} {s : Recorded σ Op Ret Routine} {p : Party}
    (hnothing : s.performed p = []) (routine : Routine) :
    M.Led P (s.begin p (some routine)) p routine := by
  refine .inl ⟨by simp [Recorded.begin], ?_⟩
  have hlog : (s.begin p (some routine)).log p = [] := by simp [Recorded.begin]
  have hperformed : (s.begin p (some routine)).performed p = s.performed p := rfl
  rw [hlog, hperformed, hnothing]

theorem Led.same {P : Op → Prop} {s s' : Recorded σ Op Ret Routine} {p : Party} {routine : Routine}
    (h : M.Led P s p routine) (horigin : s'.origin p = s.origin p) (hlog : s'.log p = s.log p)
    (hperformed : s'.performed p = s.performed p) : M.Led P s' p routine := by
  unfold Led
  rw [horigin, hlog, hperformed]
  exact h

theorem Led.record {P : Op → Prop} {s : Recorded σ Op Ret Routine} {p : Party} {routine : Routine}
    (h : M.Led P s p routine) (state : σ) (event : Event Op Ret) :
    M.Led P ((s.move state).record p event) p routine := by
  have hlog : ((s.move state).record p event).log p = s.log p ++ [event] := by
    simp [Recorded.record, Recorded.move]
  have hperformed : ((s.move state).record p event).performed p = s.performed p ++ [event] :=
    performed_record_self ..
  rcases h with ⟨horigin, hsame⟩ | ⟨before, older, y, hall, hpath, holder, hguard⟩
  · exact .inl ⟨horigin, by rw [hlog, hperformed, hsame]⟩
  · refine .inr ⟨before, older, y, ?_, hpath, holder, hguard⟩
    rw [hlog, hperformed, hall]
    simp only [List.append_assoc]

/-- The path of the first routine, and what came after it was dropped. -/
theorem Led.path {P : Op → Prop} {ok : Condition (Recorded σ Op Ret Routine) Op Choice}
    {cfg : Config (Recorded σ Op Ret Routine) Op Ret Answer} (hreach : M.recorded.Reachable ok cfg)
    {p : Party} {routine : Routine} (hborn : cfg.pool p ≠ none)
    (h : M.Led P cfg.shared p routine) :
    ∃ before after y, cfg.shared.performed p = before ++ after ∧
      (M.body routine).Arrives before y ∧ ∀ event ∈ after, P event.1 := by
  rcases Option.ne_none_iff_exists'.mp hborn with ⟨x, hpool⟩
  have hfollows := follows_of_reachable hreach hpool
  rcases h with ⟨hroutine, hsame⟩ | ⟨before, older, y, hall, hpath, holder, hguard⟩
  · rcases hfollows with ⟨first, hfirst, harrives⟩ | ⟨hnone, -⟩
    · cases hroutine.symm.trans hfirst
      exact ⟨_, [], x, (List.append_nil _).symm, hsame ▸ harrives, nofun⟩
    · cases hroutine.symm.trans hnone
  · refine ⟨before, older ++ cfg.shared.log p, y, hall, hpath, fun event hevent => ?_⟩
    rcases List.mem_append.mp hevent with hold | hlast
    · exact holder event hold
    · rcases hfollows with ⟨guard, hfirst, harrives⟩ | ⟨hnone, hgone⟩
      · exact Program.All.events harrives (hguard guard hfirst) event hlast
      · rw [log_of_gone hreach p hnone] at hlast
        cases hlast

/-- The party is dropped, and follows at most a guard of such operations from now on. -/
theorem Led.drop {P : Op → Prop} {ok : Condition (Recorded σ Op Ret Routine) Op Choice}
    {cfg : Config (Recorded σ Op Ret Routine) Op Ret Answer} (hreach : M.recorded.Reachable ok cfg)
    {p : Party} {routine : Routine} (hborn : cfg.pool p ≠ none) (h : M.Led P cfg.shared p routine)
    (state : σ) {next : Option Routine}
    (hnext : ∀ guard, next = some guard → (M.body guard).All P) :
    M.Led P ((cfg.shared.move state).begin p next) p routine := by
  have hlog : ((cfg.shared.move state).begin p next).log p = [] := by simp [Recorded.begin]
  have horigin : ((cfg.shared.move state).begin p next).origin p = next := by
    simp [Recorded.begin]
  rcases h.path hreach hborn with ⟨before, after, y, hall, hpath, hafter⟩
  refine .inr ⟨before, after, y, ?_, hpath, hafter, ?_⟩
  · rw [hlog, List.append_nil]
    exact hall
  · rw [horigin]
    exact hnext

/-- A party that was born keeps the routine that it performed first. -/
theorem Led.step {P : Op → Prop} {ok : Condition (Recorded σ Op Ret Routine) Op Choice}
    (hguards : ∀ {p s s' guard}, M.dropped p s = some (s', some guard) → (M.body guard).All P)
    {cfg cfg' : Config (Recorded σ Op Ret Routine) Op Ret Answer}
    (hreach : M.recorded.Reachable ok cfg) (moves : M.Moves cfg cfg') {p : Party}
    {routine : Routine} (hborn : cfg.pool p ≠ none) (h : M.Led P cfg.shared p routine) :
    M.Led P cfg'.shared p routine := by
  cases moves with
  | @performed q _ _ op _ state r =>
      by_cases hp : p = q
      · subst hp
        exact h.record state ⟨op, r⟩
      · exact h.same rfl (record_others (cfg.shared.move state) ⟨op, r⟩ hp).2
          (performed_record_others _ _ hp)
  | @forked q fresh _ op _ state r other hpool hforks hne hunborn =>
      have hfresh : p ≠ fresh := fun heq => hborn (heq ▸ hunborn)
      have hnew := begin_others ((cfg.shared.move state).record q ⟨op, r⟩) (some other) hfresh
      by_cases hp : p = q
      · subst hp
        exact (h.record state ⟨op, r⟩).same hnew.1 hnew.2 rfl
      · exact h.same hnew.1
          (hnew.2.trans (record_others (cfg.shared.move state) ⟨op, r⟩ hp).2)
          (performed_record_others _ _ hp)
  | unfolded => exact h
  | @entered q other state hunborn =>
      have hp : p ≠ q := fun heq => hborn (heq ▸ hunborn)
      have hnew := begin_others (cfg.shared.move state) (some other) hp
      exact h.same hnew.1 hnew.2 rfl
  | @dropped q op _ state next hpool hawaits hdropped =>
      by_cases hp : p = q
      · subst hp
        exact h.drop hreach hborn state fun guard hguard => hguards (hguard ▸ hdropped)
      · have hnew := begin_others (cfg.shared.move state) next hp
        exact h.same hnew.1 hnew.2 rfl

end Machine

/-! ## What the events of a run yield -/

namespace Recorded

variable {σ Op : Type} {Ret : Op → Type} {Routine β : Type}

/-- What the events yield under `f` and to whom, the latest first. -/
def collected (f : Event Op Ret → Option β) (s : Recorded σ Op Ret Routine) : List (Party × β) :=
  s.history.filterMap fun row => (f row.2).map fun b => (row.1, b)

theorem collected_record (f : Event Op Ret → Option β) (s : Recorded σ Op Ret Routine) (p : Party)
    (event : Event Op Ret) : (s.record p event).collected f =
      ((f event).map fun b => (p, b)).toList ++ s.collected f := by
  simp only [collected, record, List.filterMap_cons]
  cases f event <;> rfl

theorem filterMap_performed (f : Event Op Ret → Option β) (s : Recorded σ Op Ret Routine)
    (p : Party) : (s.performed p).filterMap f =
      (((s.collected f).filter fun row => row.1 = p).map Prod.snd).reverse := by
  unfold performed collected
  rw [List.filterMap_reverse]
  congr 1
  induction s.history with
  | nil => rfl
  | cons row history ih =>
      rcases row with ⟨q, event⟩
      by_cases hq : q = p
      · cases hyield : f event with
        | none => simpa [List.filter_cons, List.filterMap_cons, hq, hyield] using ih
        | some b => simpa [List.filter_cons, List.filterMap_cons, hq, hyield] using ih
      · cases hyield : f event with
        | none => simpa [List.filter_cons, List.filterMap_cons, hq, hyield] using ih
        | some b => simpa [List.filter_cons, List.filterMap_cons, hq, hyield] using ih

theorem mem_filterMap_performed {f : Event Op Ret → Option β} {s : Recorded σ Op Ret Routine}
    {p : Party} {b : β} : b ∈ (s.performed p).filterMap f ↔ (p, b) ∈ s.collected f := by
  rw [filterMap_performed, List.mem_reverse, List.mem_map]
  constructor
  · rintro ⟨⟨q, found⟩, hrow, rfl⟩
    have hfiltered := List.mem_filter.mp hrow
    obtain rfl : q = p := by simpa using hfiltered.2
    exact hfiltered.1
  · intro hrow
    exact ⟨(p, b), List.mem_filter.mpr ⟨hrow, by simp⟩, rfl⟩

/-- Nothing comes twice to one party. -/
theorem nodup_filterMap_performed {f : Event Op Ret → Option β} {s : Recorded σ Op Ret Routine}
    (h : ((s.collected f).map Prod.snd).Nodup) (p : Party) :
    ((s.performed p).filterMap f).Nodup := by
  rw [filterMap_performed]
  refine List.pairwise_reverse.mpr ?_
  have hsub : (((s.collected f).filter fun row => row.1 = p).map Prod.snd).Sublist
      ((s.collected f).map Prod.snd) := List.filter_sublist.map _
  exact (h.sublist hsub).imp Ne.symm

/-- Nothing comes to two parties. -/
theorem party_unique {f : Event Op Ret → Option β} {s : Recorded σ Op Ret Routine}
    (h : ((s.collected f).map Prod.snd).Nodup) {p q : Party} {b : β}
    (hp : b ∈ (s.performed p).filterMap f) (hq : b ∈ (s.performed q).filterMap f) : p = q := by
  have hfirst := mem_filterMap_performed.mp hp
  have hsecond := mem_filterMap_performed.mp hq
  have heq := List.inj_on_of_nodup_map h hfirst hsecond rfl
  exact congrArg Prod.fst heq

/-- What comes twice to no party and to no two parties comes once. -/
theorem nodup_collected {f : Event Op Ret → Option β} {s : Recorded σ Op Ret Routine}
    (hparty : ∀ p, ((s.performed p).filterMap f).Nodup)
    (hunique : ∀ p q b, b ∈ (s.performed p).filterMap f → b ∈ (s.performed q).filterMap f →
      p = q) : ((s.collected f).map Prod.snd).Nodup := by
  have hrows : ∀ p, (((s.collected f).filter fun row => row.1 = p).map Prod.snd).Nodup := by
    intro p
    have hreversed := hparty p
    rw [filterMap_performed] at hreversed
    exact (List.pairwise_reverse.mp hreversed).imp Ne.symm
  have howner : ∀ row ∈ s.collected f, ∀ other ∈ s.collected f, row.2 = other.2 →
      row.1 = other.1 := by
    rintro ⟨p, b⟩ hrow ⟨q, c⟩ hother rfl
    exact hunique p q b (mem_filterMap_performed.mpr hrow) (mem_filterMap_performed.mpr hother)
  generalize s.collected f = rows at hrows howner
  induction rows with
  | nil => exact .nil
  | cons row rows ih =>
      rw [List.map_cons, List.nodup_cons]
      constructor
      · intro hmem
        rcases List.mem_map.mp hmem with ⟨other, hother, heq⟩
        have hsame := howner other (List.mem_cons_of_mem _ hother) row (List.mem_cons_self ..) heq
        have htwice := hrows row.1
        rw [List.filter_cons_of_pos (by simp), List.map_cons, List.nodup_cons] at htwice
        refine htwice.1 (List.mem_map.mpr ⟨other, List.mem_filter.mpr ⟨hother, ?_⟩, heq⟩)
        simpa using hsame
      · refine ih (fun p => (hrows p).sublist ?_) fun first hfirst other hother =>
          howner first (List.mem_cons_of_mem _ hfirst) other (List.mem_cons_of_mem _ hother)
        exact ((List.sublist_cons_self row rows).filter _).map _

end Recorded
end Interleaving
end CordisCore
