import Mathlib.Logic.Function.Basic

/-!
# Programs — sequential code over named atomic operations

A program is a tree of atomic operations.  Each operation is one indivisible
access to a shared state; what it does there is left to the machine that runs
the program.  Loops are kept as a constructor, so a program may run forever.
-/

namespace CordisCore
namespace Interleaving

universe u

/-- Sequential programs over operations `Op` whose answers have type `Ret op`. -/
inductive Program (Op : Type) (Ret : Op → Type) : Type → Type 1 where
  | pure {α : Type} (a : α) : Program Op Ret α
  | act {α : Type} (op : Op) (next : Ret op → Program Op Ret α) : Program Op Ret α
  | loop {α β γ : Type} (body : γ → Program Op Ret (γ ⊕ β)) (start : γ)
      (next : β → Program Op Ret α) : Program Op Ret α

namespace Program

variable {Op : Type} {Ret : Op → Type} {α β γ : Type}

/-! ## Sequencing -/

/-- Run a program and hand its answer to the next one. -/
def bind : Program Op Ret α → (α → Program Op Ret β) → Program Op Ret β
  | pure a, f => f a
  | act op next, f => act op fun r => (next r).bind f
  | loop body start next, f => loop body start fun b => (next b).bind f

instance : Monad (Program Op Ret) where
  pure := pure
  bind := bind

/-- One atomic operation as a program. -/
def perform (op : Op) : Program Op Ret (Ret op) :=
  act op pure

/-- Repeat `body` until it answers `Sum.inr`. -/
def iterate (start : γ) (body : γ → Program Op Ret (γ ⊕ β)) : Program Op Ret β :=
  loop body start pure

/-- One unfolding of a loop. -/
def unfoldLoop (body : γ → Program Op Ret (γ ⊕ β)) (start : γ)
    (next : β → Program Op Ret α) : Program Op Ret α :=
  (body start).bind fun
    | .inl g => loop body g next
    | .inr b => next b

/-- The operation a program performs next, when it is not at a loop head. -/
def head : Program Op Ret α → Option Op
  | act op _ => some op
  | _ => none

theorem bind_assoc (x : Program Op Ret α) (f : α → Program Op Ret β)
    (g : β → Program Op Ret γ) : (x.bind f).bind g = x.bind fun a => (f a).bind g := by
  induction x with
  | pure a => rfl
  | act op next ih =>
      simp only [bind]
      exact congrArg (act op) (funext fun r => ih r f)
  | loop body start next _ ih =>
      simp only [bind]
      exact congrArg (loop body start) (funext fun b => ih b f)

theorem unfoldLoop_bind (body : γ → Program Op Ret (γ ⊕ β)) (start : γ)
    (next : β → Program Op Ret α) {δ : Type} (f : α → Program Op Ret δ) :
    (unfoldLoop body start next).bind f =
      unfoldLoop body start fun b => (next b).bind f := by
  unfold unfoldLoop
  rw [bind_assoc]
  congr 1
  funext o
  cases o <;> rfl

/-! ## Programs built from operations and blocks -/

/-- The program is put together from operations in `P` and blocks in `B`. -/
inductive Built (P : Op → Prop) (B : (α : Type) → Program Op Ret α → Prop) :
    {α : Type} → Program Op Ret α → Prop where
  | pure {α : Type} (a : α) : Built P B (Pure.pure a)
  | op {op : Op} (h : P op) : Built P B (perform op)
  | block {α : Type} {x : Program Op Ret α} (h : B α x) : Built P B x
  | bind {α β : Type} {x : Program Op Ret α} {f : α → Program Op Ret β}
      (hx : Built P B x) (hf : ∀ a, Built P B (f a)) : Built P B (x >>= f)
  | iterate {β γ : Type} {start : γ} {body : γ → Program Op Ret (γ ⊕ β)}
      (h : ∀ g, Built P B (body g)) : Built P B (iterate start body)

theorem Built.mono {P Q : Op → Prop} {B C : (α : Type) → Program Op Ret α → Prop}
    (hP : ∀ op, P op → Q op)
    (hB : ∀ {α : Type} {x : Program Op Ret α}, B α x → Built Q C x)
    {x : Program Op Ret α} (hx : Built P B x) : Built Q C x := by
  induction hx with
  | pure a => exact .pure a
  | op h => exact .op (hP _ h)
  | block h => exact hB h
  | bind _ _ ihx ihf => exact .bind ihx ihf
  | iterate _ ih => exact .iterate ih

/-! ## What a program can perform -/

/-- Every operation that the program can come to is in `P`. -/
def All (P : Op → Prop) : {α : Type} → Program Op Ret α → Prop
  | _, .pure _ => True
  | _, .act op next => P op ∧ ∀ r, All P (next r)
  | _, .loop body _ next => (∀ g, All P (body g)) ∧ ∀ b, All P (next b)

theorem All.bind {P : Op → Prop} {x : Program Op Ret α} {f : α → Program Op Ret β}
    (hx : x.All P) (hf : ∀ a, (f a).All P) : (x.bind f).All P := by
  induction x with
  | pure a => exact hf a
  | act op next ih => exact ⟨hx.1, fun r => ih r (hx.2 r) hf⟩
  | loop body start next _ ih => exact ⟨hx.1, fun b => ih b (hx.2 b) hf⟩

theorem All.unfoldLoop {P : Op → Prop} {body : γ → Program Op Ret (γ ⊕ β)} {start : γ}
    {next : β → Program Op Ret α} (h : (loop body start next).All P) :
    (Program.unfoldLoop body start next).All P :=
  (h.1 start).bind fun o => match o with
    | .inl _ => h
    | .inr b => h.2 b

theorem Built.all {P : Op → Prop} {B : (α : Type) → Program Op Ret α → Prop}
    (hB : ∀ {α : Type} {x : Program Op Ret α}, B α x → x.All P)
    {x : Program Op Ret α} (hx : x.Built P B) : x.All P := by
  induction hx with
  | pure a => trivial
  | op hop => exact ⟨hop, fun _ => trivial⟩
  | block hblock => exact hB hblock
  | bind _ _ ihx ihf => exact ihx.bind ihf
  | iterate _ ih => exact ⟨ih, fun _ => trivial⟩

end Program

end Interleaving
end CordisCore
