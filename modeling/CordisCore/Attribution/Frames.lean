import CordisCore.Interleaving.Automaton
import CordisCore.Runtime.Exec

/-!
# Settle attribution — frames on task-local stacks

A task is what one `SETTLE_CTX` scope covers.  A bracket pushes its frame on the
stack of the task it is entered on, or opens a scope when there is none; its guard
may be dropped in any order, wherever the enclosing future is dropped.
-/

namespace CordisCore
namespace Attribution

open Interleaving
open CordisCore.Runtime (FiberId LifecycleOperation)

/-! ## Frames -/

/-- One `SETTLE_CTX` scope. -/
abbrev TaskId := Nat

/-- One shared liveness bit. -/
abbrev Bit := Nat

/-- One exact-allocation attribution frame. -/
structure AttributionFrame where
  fiber : FiberId
  active : Bit
  deriving DecidableEq

/-- The allocation facts carried by one task. -/
structure SettleCtx where
  settling : List AttributionFrame := []
  runOwner : Option AttributionFrame := none
  deriving DecidableEq

/-- The guard of a scope that deactivates its frame. -/
structure SettleFrameGuard where
  frame : AttributionFrame
  popNested : Bool
  deriving DecidableEq

/-- A captured attribution, with the brackets it stands for. -/
structure Captured where
  ctx : SettleCtx
  brackets : List Bit
  deriving DecidableEq

/-- All tasks, the liveness bits and the guards that are not dropped yet. -/
structure Frames where
  live : Bit → Bool := fun _ => false
  nextBit : Nat := 0
  tasks : TaskId → Option SettleCtx := fun _ => none
  nextTask : Nat := 0
  guards : List SettleFrameGuard := []
  captures : List Captured := []
  /-- Instrumentation: the brackets entered on a task or in what it inherited. -/
  attributed : TaskId → List Bit := fun _ => []

namespace Frames

/-- The context of the current task, if there is one. -/
def context (s : Frames) (current : Option TaskId) : Option SettleCtx :=
  current.bind s.tasks

def isActiveFor (s : Frames) (target : FiberId) (frame : AttributionFrame) : Bool :=
  s.live frame.active && frame.fiber = target

/-- The settling rule: some frame on the stack is active for the target. -/
def inSettle (s : Frames) (current : Option TaskId) (target : FiberId) : Bool :=
  (s.context current).any fun ctx => ctx.settling.any (s.isActiveFor target)

/-- The run-task rule: the task is owned by a generation of the target. -/
def ownsRunTask (s : Frames) (current : Option TaskId) (target : FiberId) : Bool :=
  (s.context current).any fun ctx => ctx.runOwner.any (s.isActiveFor target)

/-- `is_doomed`: no context, no refusal. -/
def isDoomed (s : Frames) (root : Runtime.Root) (current : Option TaskId) (target : FiberId)
    (operation : LifecycleOperation) : Bool :=
  s.inSettle current target ||
    (s.ownsRunTask current target &&
      Runtime.runTaskWaitIsDoomed (root.fibers target) operation)

/-! ## Scopes and guards -/

/-- A frame with a fresh liveness bit. -/
def newFrame (s : Frames) (f : FiberId) : AttributionFrame :=
  { fiber := f, active := s.nextBit }

/-- The fresh frame is live and its guard is held. -/
def guard (s : Frames) (frame : AttributionFrame) (popNested : Bool) : Frames :=
  { s with
    live := fun bit => if bit = frame.active then true else s.live bit
    nextBit := s.nextBit + 1
    guards := { frame := frame, popNested := popNested } :: s.guards }

/-- Change the context of one task. -/
def modify (s : Frames) (t : TaskId) (change : SettleCtx → SettleCtx) : Frames :=
  { s with tasks := fun u => if u = t then (s.tasks u).map change else s.tasks u }

/-- A fresh `SETTLE_CTX` scope. -/
def scope (s : Frames) (ctx : SettleCtx) (brackets : List Bit) : Frames :=
  { s with
    tasks := fun u => if u = s.nextTask then some ctx else s.tasks u
    nextTask := s.nextTask + 1
    attributed := fun u => if u = s.nextTask then brackets else s.attributed u }

/-- Push a frame on the stack of a task. -/
def push (s : Frames) (t : TaskId) (frame : AttributionFrame) : Frames :=
  { s.modify t fun ctx => { ctx with settling := ctx.settling ++ [frame] } with
    attributed := fun u => if u = t then frame.active :: s.attributed u else s.attributed u }

/-- Push on the stack of the current task, or open a scope for the frame alone. -/
def bracket (s : Frames) (current : Option TaskId) (f : FiberId) : Frames :=
  let frame := s.newFrame f
  match current with
  | some t => (s.guard frame true).push t frame
  | none => (s.guard frame false).scope { settling := [frame] } [frame.active]

/-- The scope of one `Context::run` task. -/
def runTask (s : Frames) (f : FiberId) : Frames :=
  (s.guard (s.newFrame f) false).scope { runOwner := some (s.newFrame f) } []

/-- The nested guard pops the stack of whatever task is current. -/
def pop (s : Frames) (current : Option TaskId) : Frames :=
  match current with
  | some t => s.modify t fun ctx => { ctx with settling := ctx.settling.dropLast }
  | none => s

/-- `SettleFrameGuard::drop`. -/
def dropGuard (s : Frames) (current : Option TaskId) (guard : SettleFrameGuard) : Frames :=
  let rest :=
    { s with
      live := fun bit => if bit = guard.frame.active then false else s.live bit
      guards := s.guards.erase guard }
  if guard.popNested then rest.pop current else rest

/-- The scope of a task ends. -/
def close (s : Frames) (t : TaskId) : Frames :=
  { s with tasks := fun u => if u = t then none else s.tasks u }

/-- `capture_attribution`: the default outside any task. -/
def capture (s : Frames) (current : Option TaskId) : Frames :=
  { s with captures :=
      { ctx := (s.context current).getD {}
        brackets := (current.map s.attributed).getD [] } :: s.captures }

end Frames

/-! ## All interleavings -/

inductive Action where
  | bracket (current : Option TaskId) (f : FiberId)
  | runTask (f : FiberId)
  | dropGuard (current : Option TaskId) (guard : SettleFrameGuard)
  | capture (current : Option TaskId)
  | withAttribution (captured : Captured)
  | leave (t : TaskId)

/-- A current task is one whose scope is still open. -/
def Frames.running (s : Frames) (current : Option TaskId) : Bool :=
  current.all fun t => (s.tasks t).isSome

def attribution : Automaton Frames Action where
  init := {}
  step s
    | .bracket current f => if s.running current then some (s.bracket current f) else none
    | .runTask f => some (s.runTask f)
    | .dropGuard current guard =>
        if s.running current ∧ guard ∈ s.guards then some (s.dropGuard current guard) else none
    | .capture current => if s.running current then some (s.capture current) else none
    | .withAttribution captured =>
        if captured ∈ s.captures then some (s.scope captured.ctx captured.brackets) else none
    | .leave t => some (s.close t)

end Attribution
end CordisCore
