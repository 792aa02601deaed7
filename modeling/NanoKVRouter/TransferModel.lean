/-
**KV transfer cost and contention.**

A transfer occupies the egress lane of its source and the ingress lane of its destination for the
same interval, or, without contention, no lane at all.

Main definitions:

* `TransferModel` — the two models;
* `TransferModel.requestTransfer` — reserve the lanes and say when the transfer starts and ends;
* `TransferModel.peekBacklog` — when the lanes of a node are free.

Main results:

* `TransferModel.now_le_start`, `TransferModel.finish_eq` — a transfer starts no earlier than it is
  requested and takes its service cost.
-/

import NanoKVRouter.Config
import NanoKVRouter.PyDict

set_option relaxedAutoImplicit false
set_option autoImplicit false

namespace NanoKVRouter

/-- The times at which the lanes of a node are free. -/
structure Backlog where
  egress : Time
  ingress : Time
deriving DecidableEq

/-- The read-only view of the lanes the schedulers get. -/
abbrev TransferBacklogView : Type := NodeId → Backlog

/-- The transfer models: a constant cost, or one egress and one ingress lane for each node. -/
inductive TransferModel
  | noop
  | perNodeLane (egressAvailableAt ingressAvailableAt : PyDict NodeId Time)

namespace TransferModel

/-- Reserve lanes for a transfer; it returns the start and the end of the transfer. -/
def requestTransfer (srcNodeId dstNodeId : NodeId) (now costMs : Time) :
    TransferModel → (Time × Time) × TransferModel
  | noop => ((now, now + costMs), noop)
  | perNodeLane egress ingress =>
      let start := max (max now (egress.getD srcNodeId 0)) (ingress.getD dstNodeId 0)
      let finish := start + costMs
      ((start, finish), perNodeLane (egress.set srcNodeId finish) (ingress.set dstNodeId finish))

/-- The times at which the lanes of a node are free. -/
def peekBacklog : TransferModel → TransferBacklogView
  | noop, _ => ⟨0, 0⟩
  | perNodeLane egress ingress, nodeId => ⟨egress.getD nodeId 0, ingress.getD nodeId 0⟩

theorem now_le_start (tm : TransferModel) (src dst : NodeId) (now costMs : Time) :
    now ≤ (tm.requestTransfer src dst now costMs).1.1 := by
  cases tm with
  | noop => exact le_refl now
  | perNodeLane egress ingress => exact (le_max_left _ _).trans (le_max_left _ _)

theorem finish_eq (tm : TransferModel) (src dst : NodeId) (now costMs : Time) :
    (tm.requestTransfer src dst now costMs).1.2 =
      (tm.requestTransfer src dst now costMs).1.1 + costMs := by
  cases tm <;> rfl

end TransferModel

end NanoKVRouter
