import Mathlib.Data.List.Basic

/-!
# Wait queues (`kernel/core/task/wait_queue.c`)

Intrusive doubly linked queues of tasks. Every task has one node, so node and owner are the same
number here. The locks of queues and nodes are left out: each call is one step.
-/

namespace KernelBoot.Sched

/-- The scheduler's own queue, and the queues tasks wait on. -/
inductive QueueId where
  | ready
  | wait (n : Nat)
  deriving DecidableEq

/-- `task_wait_node_t`. -/
structure WaitNode where
  previous : Option Nat
  next : Option Nat
  queue : Option QueueId
  queued : Bool

/-- `task_wait_queue_t`. -/
structure WaitQueue where
  head : Option Nat
  tail : Option Nat
  count : Nat

structure WaitQueues where
  nodes : Nat → WaitNode
  queues : QueueId → WaitQueue

/-- `task_wait_node_initialize` and `task_wait_queue_initialize`. -/
def WaitQueues.initial : WaitQueues where
  nodes := fun _ => { previous := none, next := none, queue := none, queued := false }
  queues := fun _ => { head := none, tail := none, count := 0 }

namespace WaitQueues

def setNode (w : WaitQueues) (a : Nat) (f : WaitNode → WaitNode) : WaitQueues :=
  { w with nodes := fun x => if x = a then f (w.nodes a) else w.nodes x }

def setQueue (w : WaitQueues) (q : QueueId) (f : WaitQueue → WaitQueue) : WaitQueues :=
  { w with queues := fun x => if x = q then f (w.queues q) else w.queues x }

/-- A neighbour's link is set where there is a neighbour, and an end of the queue otherwise. -/
def relink (w : WaitQueues) (neighbour : Option Nat) (q : QueueId) (f : WaitNode → WaitNode)
    (g : WaitQueue → WaitQueue) : WaitQueues :=
  match neighbour with
  | some a => w.setNode a f
  | none => w.setQueue q g

/-- `task_wait_node_queued`. -/
def isQueued (w : WaitQueues) (a : Nat) : Bool := (w.nodes a).queued

/-- `task_wait_queue_enqueue`. -/
def enqueue (w : WaitQueues) (q : QueueId) (a : Nat) : Bool × WaitQueues :=
  if w.isQueued a then (false, w)
  else
    let tail := (w.queues q).tail
    let w := w.setNode a fun _ => { previous := tail, next := none, queue := some q, queued := true }
    let w := w.relink tail q (fun last => { last with next := some a })
      fun queue => { queue with head := some a }
    (true, w.setQueue q fun queue => { queue with tail := some a, count := queue.count + 1 })

/-- `unlink_node`. -/
def unlinkNode (w : WaitQueues) (q : QueueId) (a : Nat) : WaitQueues :=
  let node := w.nodes a
  let w := w.relink node.previous q (fun before => { before with next := node.next })
    fun queue => { queue with head := node.next }
  let w := w.relink node.next q (fun after => { after with previous := node.previous })
    fun queue => { queue with tail := node.previous }
  let w := w.setNode a fun _ => { previous := none, next := none, queue := none, queued := false }
  w.setQueue q fun queue => { queue with count := queue.count - 1 }

/-- `task_wait_queue_dequeue`. -/
def dequeue (w : WaitQueues) (q : QueueId) : Option Nat × WaitQueues :=
  match (w.queues q).head with
  | none => (none, w)
  | some a => (some a, w.unlinkNode q a)

/-- `task_wait_queue_remove`. -/
def remove (w : WaitQueues) (q : QueueId) (a : Nat) : Bool × WaitQueues :=
  if (w.nodes a).queued && (w.nodes a).queue = some q then (true, w.unlinkNode q a) else (false, w)

end WaitQueues

end KernelBoot.Sched
