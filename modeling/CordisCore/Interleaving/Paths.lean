import CordisCore.Interleaving.History

/-!
# Paths — assertions about what a loop-free program has performed

A precondition over the events so far says what must hold whenever the program
is about to perform an operation, and what holds of the whole path when it ends,
for every answer that the outside world may give.
-/

namespace CordisCore
namespace Interleaving
namespace Program

variable {Op : Type} {Ret : Op → Type} {α β γ : Type}

/-- From these events on every path with admitted answers ends; `at_` holds before every
operation and `post` at the end. -/
def Along (admits : (op : Op) → Ret op → Prop) (at_ : List (Event Op Ret) → Op → Prop) :
    {α : Type} → Program Op Ret α → (α → List (Event Op Ret) → Prop) →
      List (Event Op Ret) → Prop
  | _, .pure a, post, events => post a events
  | _, .act op next, post, events =>
      at_ events op ∧ ∀ r, admits op r → Along admits at_ (next r) post (events ++ [⟨op, r⟩])
  | _, .loop _ _ _, _, _ => False

namespace Along

variable {admits : (op : Op) → Ret op → Prop} {at_ : List (Event Op Ret) → Op → Prop}
variable {events : List (Event Op Ret)}

theorem mono {x : Program Op Ret α} {post post' : α → List (Event Op Ret) → Prop}
    (h : Along admits at_ x post events) (hpost : ∀ a events, post a events → post' a events) :
    Along admits at_ x post' events := by
  induction x generalizing events with
  | pure a => exact hpost a events h
  | act op next ih => exact ⟨h.1, fun r hr => ih r (h.2 r hr) hpost⟩
  | loop => exact h.elim

theorem bind {x : Program Op Ret α} {f : α → Program Op Ret β}
    {post : β → List (Event Op Ret) → Prop}
    (h : Along admits at_ x (fun a events => Along admits at_ (f a) post events) events) :
    Along admits at_ (x >>= f) post events := by
  induction x generalizing events with
  | pure a => exact h
  | act op next ih => exact ⟨h.1, fun r hr => ih r (h.2 r hr)⟩
  | loop => exact h.elim

theorem perform {op : Op} {post : Ret op → List (Event Op Ret) → Prop} (hat : at_ events op)
    (h : ∀ r, admits op r → post r (events ++ [⟨op, r⟩])) :
    Along admits at_ (perform op : Program Op Ret (Ret op)) post events :=
  ⟨hat, h⟩

/-- Whatever is left of the program after some events keeps the assertions. -/
theorem arrives {x y : Program Op Ret α} {more : List (Event Op Ret)}
    {post : α → List (Event Op Ret) → Prop} (h : Along admits at_ x post events)
    (hy : Arrives x more y) (hmore : ∀ event ∈ more, admits event.1 event.2) :
    Along admits at_ y post (events ++ more) := by
  induction hy generalizing events with
  | here x =>
      rw [List.append_nil]
      exact h
  | @act op next more y r _ ih =>
      have hrest := ih (h.2 r (hmore _ (List.mem_cons_self ..)))
        fun event hevent => hmore event (List.mem_cons_of_mem _ hevent)
      rwa [List.append_assoc] at hrest
  | loop => exact h.elim

/-- What was required of an operation held when it was performed. -/
theorem held {x y : Program Op Ret α} {more : List (Event Op Ret)}
    {post : α → List (Event Op Ret) → Prop} (h : Along admits at_ x post events)
    (hy : Arrives x more y) (hmore : ∀ event ∈ more, admits event.1 event.2) :
    ∀ {before event after}, more = before ++ event :: after → at_ (events ++ before) event.1 := by
  induction hy generalizing events with
  | here x =>
      intro before event after hsplit
      cases before <;> cases hsplit
  | @act op next more y r _ ih =>
      intro before event after hsplit
      cases before with
      | nil =>
          cases hsplit
          rw [List.append_nil]
          exact h.1
      | cons first before =>
          cases hsplit
          have hrest := ih (h.2 r (hmore _ (List.mem_cons_self ..)))
            (fun event hevent => hmore event (List.mem_cons_of_mem _ hevent)) rfl
          rwa [List.append_assoc] at hrest
  | loop => exact h.elim

end Along

/-! ## Loop-free programs -/

/-- The program has no loops. -/
def Straight : {α : Type} → Program Op Ret α → Prop
  | _, .pure _ => True
  | _, .act _ next => ∀ r, Straight (next r)
  | _, .loop _ _ _ => False

namespace Straight

theorem pure (a : α) : Straight (Pure.pure a : Program Op Ret α) :=
  trivial

theorem perform (op : Op) : Straight (perform op : Program Op Ret (Ret op)) :=
  fun _ => trivial

theorem bind {x : Program Op Ret α} {f : α → Program Op Ret β} (hx : Straight x)
    (hf : ∀ a, Straight (f a)) : Straight (x >>= f) := by
  induction x with
  | pure a => exact hf a
  | act op next ih => exact fun r => ih r (hx r) hf
  | loop => exact hx.elim

theorem map {x : Program Op Ret α} (f : α → β) (hx : Straight x) : Straight (f <$> x) :=
  bind hx fun a => pure (f a)

end Straight

end Program

namespace Machine

variable {σ Op : Type} {Ret : Op → Type} {Routine Choice Answer : Type}
variable {M : Machine σ Op Ret Routine Choice Answer} {ok : Condition σ Op Choice}

/-- A machine without loops never comes to one. -/
theorem straight_of_reachable (hbody : ∀ routine, (M.body routine).Straight)
    {cfg : Config σ Op Ret Answer} (h : M.Reachable ok cfg) {p : Party}
    {x : Program Op Ret Answer} (hp : cfg.pool p = some x) : x.Straight := by
  have hplace : ∀ {pool : Party → Option (Program Op Ret Answer)} {self : Party}
      {y : Program Op Ret Answer}, (∀ q x, pool q = some x → x.Straight) → y.Straight →
      ∀ q x, place pool self y q = some x → x.Straight := by
    intro pool self y hpool hy q x hx
    rcases place_eq_some hx with ⟨-, rfl⟩ | ⟨-, hx⟩
    · exact hy
    · exact hpool q x hx
  suffices hall : ∀ q x, cfg.pool q = some x → x.Straight from hall p x hp
  clear hp
  induction h with
  | start => exact fun q x hx => nomatch hx
  | step label _ _ moves ih =>
      cases transition_of_step M moves with
      | @performed p _ _ _ next _ r hpool =>
          have hnext : ∀ r, (next r).Straight := ih p _ hpool
          exact hplace ih (hnext r)
      | @forked p _ _ _ next _ r _ hpool =>
          have hnext : ∀ r, (next r).Straight := ih p _ hpool
          exact hplace (hplace ih (hnext r)) (hbody _)
      | unfolded hpool => exact (ih _ _ hpool).elim
      | entered => exact hplace ih (hbody _)
      | @dropped _ _ _ _ routine =>
          cases routine with
          | none => exact hplace ih trivial
          | some routine => exact hplace ih (hbody _)

end Machine
end Interleaving
end CordisCore
