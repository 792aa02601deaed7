/-
**The transfer lanes of the nodes.**

The contended transfer model is a lane schedule: every node has an egress and an ingress lane, and
a transfer is a job on the egress lane of its source and the ingress lane of its destination.  Its
exclusiveness, its order and its work conservation are those of the schedule.  The schedulers
estimate the waiting time of a transfer by another formula, which agrees with it.

Main definitions:

* `Lane`, `TransferCall` — a lane, and one call of `request_transfer`;
* `TransferModel.clocks` — the clocks of a contended model, one for each lane;
* `TransferModel.serve` — the slots a sequence of calls gets.

Main results:

* `TransferModel.lanes_exclusive` — **the lanes are exclusive, first-in first-out and
  work-conserving**, and transfers that share no lane commute;
* `computeEstTtft_transfer` — **the estimate agrees with the reservation**.
-/

import NanoKVRouter.LaneSchedule
import NanoKVRouter.Scheduler
import Mathlib.Algebra.Order.Ring.Rat
import Mathlib.Tactic.Ring
import Mathlib.Algebra.Order.Group.MinMax

set_option relaxedAutoImplicit false
set_option autoImplicit false

namespace NanoKVRouter

/-- The two lanes of a node. -/
inductive Lane
  | egress (nodeId : NodeId)
  | ingress (nodeId : NodeId)
deriving DecidableEq

/-- One call of `request_transfer`. -/
structure TransferCall where
  srcNodeId : NodeId
  dstNodeId : NodeId
  now : Time
  costMs : Time
deriving DecidableEq

/-- One call with the interval it returned. -/
structure TransferResult where
  call : TransferCall
  start : Time
  finish : Time
deriving DecidableEq

/-- The two calls have the same source or the same destination. -/
def TransferCall.SharesLane (a b : TransferCall) : Prop :=
  a.srcNodeId = b.srcNodeId ∨ a.dstNodeId = b.dstNodeId

/-- A call as a job on two lanes. -/
def TransferCall.job (c : TransferCall) : LaneSchedule.Job Lane Time where
  lanes := [.egress c.srcNodeId, .ingress c.dstNodeId]
  now := c.now
  cost := c.costMs

/-- A call with its interval as a slot of two lanes. -/
def TransferResult.slot (x : TransferResult) : LaneSchedule.Slot Lane Time := ⟨x.call.job, x.start⟩

/-- The result of a call that gets a slot. -/
def TransferCall.result (c : TransferCall) (x : LaneSchedule.Slot Lane Time) : TransferResult :=
  ⟨c, x.start, x.start + c.costMs⟩

theorem TransferCall.job_shares_iff {a b : TransferCall} : a.job.Shares b.job ↔ a.SharesLane b := by
  simp [LaneSchedule.Job.Shares, job, SharesLane, or_and_right, exists_or]

namespace TransferModel

/-- A contended model whose lanes have never been used. -/
def perNodeLaneInit : TransferModel := .perNodeLane PyDict.empty PyDict.empty

/-- The calls of a sequence, one after the other, with the intervals they return. -/
def serve (tm : TransferModel) : List TransferCall → List TransferResult
  | [] => []
  | c :: cs =>
      let r := tm.requestTransfer c.srcNodeId c.dstNodeId c.now c.costMs
      ⟨c, r.1.1, r.1.2⟩ :: serve r.2 cs

/-- The clocks of the lanes. -/
def clocks (tm : TransferModel) : Lane → Time
  | .egress n => (tm.peekBacklog n).egress
  | .ingress n => (tm.peekBacklog n).ingress

/-! ### The model is a lane schedule -/

theorem start_eq (egress ingress : PyDict NodeId Time) (c : TransferCall) :
    ((perNodeLane egress ingress).requestTransfer c.srcNodeId c.dstNodeId c.now c.costMs).1.1 =
      LaneSchedule.startTime (perNodeLane egress ingress).clocks c.job :=
  rfl

theorem clocks_requestTransfer (egress ingress : PyDict NodeId Time) (c : TransferCall) :
    ((perNodeLane egress ingress).requestTransfer c.srcNodeId c.dstNodeId c.now c.costMs).2.clocks =
      LaneSchedule.reserve (perNodeLane egress ingress).clocks c.job := by
  funext lane
  cases lane with
  | egress n =>
      by_cases hn : n = c.srcNodeId
      · subst hn
        rw [LaneSchedule.reserve_of_mem (by simp [TransferCall.job])]
        simp only [requestTransfer, clocks, peekBacklog, PyDict.getD, PyDict.get?_set_self]
        rfl
      · rw [LaneSchedule.reserve_of_notMem (by simp [TransferCall.job, hn])]
        simp only [requestTransfer, clocks, peekBacklog, PyDict.getD, PyDict.get?_set_of_ne _ _ hn]
  | ingress n =>
      by_cases hn : n = c.dstNodeId
      · subst hn
        rw [LaneSchedule.reserve_of_mem (by simp [TransferCall.job])]
        simp only [requestTransfer, clocks, peekBacklog, PyDict.getD, PyDict.get?_set_self]
        rfl
      · rw [LaneSchedule.reserve_of_notMem (by simp [TransferCall.job, hn])]
        simp only [requestTransfer, clocks, peekBacklog, PyDict.getD, PyDict.get?_set_of_ne _ _ hn]

/-- **The contended model refines the lane schedule**: its starts are those of the schedule. -/
theorem map_slot_serve (egress ingress : PyDict NodeId Time) (cs : List TransferCall) :
    ((perNodeLane egress ingress).serve cs).map TransferResult.slot =
      LaneSchedule.serve (perNodeLane egress ingress).clocks (cs.map TransferCall.job) := by
  induction cs generalizing egress ingress with
  | nil => rfl
  | cons c cs ih =>
      rw [serve, List.map_cons, List.map_cons, LaneSchedule.serve,
        ← clocks_requestTransfer egress ingress c]
      exact congrArg₂ List.cons rfl (ih _ _)

theorem map_call_serve (tm : TransferModel) (cs : List TransferCall) :
    (tm.serve cs).map TransferResult.call = cs := by
  induction cs generalizing tm with
  | nil => rfl
  | cons c cs ih => rw [serve, List.map_cons, ih]

theorem finish_of_mem_serve {tm : TransferModel} {cs : List TransferCall} {x : TransferResult}
    (hx : x ∈ tm.serve cs) : x.finish = x.start + x.call.costMs := by
  induction cs generalizing tm with
  | nil => cases hx
  | cons c cs ih =>
      rw [serve] at hx
      rcases List.mem_cons.1 hx with rfl | hx
      · exact finish_eq tm c.srcNodeId c.dstNodeId c.now c.costMs
      · exact ih hx

theorem finish_slot {tm : TransferModel} {cs : List TransferCall} {x : TransferResult}
    (hx : x ∈ tm.serve cs) : x.slot.finish = x.finish :=
  (finish_of_mem_serve hx).symm

/-- The result of a call, by the slot it gets. -/
theorem serve_eq_zipWith (egress ingress : PyDict NodeId Time) (cs : List TransferCall) :
    (perNodeLane egress ingress).serve cs = List.zipWith TransferCall.result cs
      (LaneSchedule.serve (perNodeLane egress ingress).clocks (cs.map TransferCall.job)) := by
  induction cs generalizing egress ingress with
  | nil => rfl
  | cons c cs ih =>
      rw [serve, List.map_cons, LaneSchedule.serve, List.zipWith_cons_cons, finish_eq,
        ← clocks_requestTransfer egress ingress c]
      exact congrArg₂ List.cons rfl (ih _ _)

/-- Two adjacent calls that share no lane may be exchanged. -/
theorem serve_swap {a b : TransferCall} (hab : ¬ a.SharesLane b) (post pre : List TransferCall)
    (egress ingress : PyDict NodeId Time) : ∃ before x y later,
      (perNodeLane egress ingress).serve (pre ++ a :: b :: post) = before ++ x :: y :: later ∧
      (perNodeLane egress ingress).serve (pre ++ b :: a :: post) = before ++ y :: x :: later ∧
      x.call = a ∧ y.call = b := by
  have hj : ¬ a.job.Shares b.job := fun h => hab (TransferCall.job_shares_iff.1 h)
  obtain ⟨before, x, y, later, hlen, h1, h2⟩ := LaneSchedule.serve_swap hj
    (post.map TransferCall.job) (pre.map TransferCall.job) (perNodeLane egress ingress).clocks
  have hlen' : pre.length = before.length := by rw [hlen, List.length_map]
  refine ⟨List.zipWith TransferCall.result pre before, a.result x, b.result y,
    List.zipWith TransferCall.result post later, ?_, ?_, rfl, rfl⟩
  · rw [serve_eq_zipWith, List.map_append, List.map_cons, List.map_cons, h1,
      List.zipWith_append hlen']
    rfl
  · rw [serve_eq_zipWith, List.map_append, List.map_cons, List.map_cons, h2,
      List.zipWith_append hlen']
    rfl

theorem clocks_init : perNodeLaneInit.clocks = fun _ => 0 := by
  funext lane
  cases lane <;> rfl

/-- **The transfer lanes are exclusive, first-in first-out and work-conserving.**  Of any two calls
with the same source or the same destination the earlier one ends before the later one starts;
every call starts at the least time at which it can; it takes its service cost; and two adjacent
calls that share neither source nor destination may be exchanged without changing any result. -/
theorem lanes_exclusive (cs : List TransferCall) (hnow : ∀ c ∈ cs, 0 ≤ c.now)
    (hcost : ∀ c ∈ cs, 0 ≤ c.costMs) :
    (perNodeLaneInit.serve cs).map TransferResult.call = cs ∧
    ((perNodeLaneInit.serve cs).Pairwise fun x y =>
      x.call.SharesLane y.call → x.finish ≤ y.start) ∧
    (∀ before x after, perNodeLaneInit.serve cs = before ++ x :: after →
      IsLeast {t | x.call.now ≤ t ∧ ∀ y ∈ before, y.call.SharesLane x.call → y.finish ≤ t}
        x.start) ∧
    (∀ x ∈ perNodeLaneInit.serve cs, x.finish = x.start + x.call.costMs) ∧
    ∀ pre a b post, cs = pre ++ a :: b :: post → ¬ a.SharesLane b →
      ∃ before x y later, perNodeLaneInit.serve cs = before ++ x :: y :: later ∧
        perNodeLaneInit.serve (pre ++ b :: a :: post) = before ++ y :: x :: later ∧
        x.call = a ∧ y.call = b := by
  have hslots : (perNodeLaneInit.serve cs).map TransferResult.slot =
      LaneSchedule.serve (fun _ => 0) (cs.map TransferCall.job) := by
    rw [← clocks_init]
    exact map_slot_serve _ _ cs
  have hnow' : ∀ j ∈ cs.map TransferCall.job, 0 ≤ j.now := by simpa [TransferCall.job] using hnow
  have hcost' : ∀ j ∈ cs.map TransferCall.job, 0 ≤ j.cost := by
    simpa [TransferCall.job] using hcost
  refine ⟨map_call_serve _ cs, ?_, ?_, fun x hx => finish_of_mem_serve hx, ?_⟩
  · have hpair := LaneSchedule.serve_pairwise hnow' hcost'
    rw [← hslots, List.pairwise_map] at hpair
    refine hpair.imp_of_mem fun {x y} hx hy h hshares => ?_
    rw [← finish_slot hx]
    exact h (TransferCall.job_shares_iff.2 hshares)
  · intro before x after hsplit
    have hsplit' := hslots.symm
    rw [hsplit, List.map_append, List.map_cons] at hsplit'
    have hleast := LaneSchedule.start_isLeast hnow' hcost' (LaneSchedule.remembers_nil 0) hsplit'
    have hset : {t | x.call.now ≤ t ∧ ∀ y ∈ before, y.call.SharesLane x.call → y.finish ≤ t} =
        {t | x.slot.job.now ≤ t ∧ ∀ y ∈ [] ++ before.map TransferResult.slot,
          y.job.Shares x.slot.job → y.finish ≤ t} := by
      ext t
      simp only [Set.mem_ofPred_eq, List.nil_append, List.forall_mem_map]
      refine and_congr_right fun _ => forall₂_congr fun y hy => ?_
      have hmem : y ∈ perNodeLaneInit.serve cs := hsplit ▸ List.mem_append_left _ hy
      rw [finish_slot hmem]
      exact imp_congr_left TransferCall.job_shares_iff.symm
    rw [hset]
    exact hleast
  · rintro pre a b post rfl hab
    exact serve_swap hab post pre _ _

/-- Two transfers of one source, and one between two other nodes. -/
theorem lanes_exclusive_three :
    (perNodeLaneInit.serve [⟨"p0", "d0", 0, 5⟩, ⟨"p0", "d1", 1, 2⟩, ⟨"p1", "d2", 1, 3⟩]).map
      (fun x => (x.start, x.finish)) = [(0, 5), (5, 7), (1, 4)] ∧
    (perNodeLaneInit.serve [⟨"p0", "d0", 0, 5⟩, ⟨"p0", "d1", 1, 2⟩, ⟨"p1", "d2", 1, 3⟩]).Pairwise
      fun x y => x.call.SharesLane y.call → x.finish ≤ y.start :=
  ⟨by decide +kernel, (lanes_exclusive _ (by decide +kernel) (by decide +kernel)).2.1⟩

end TransferModel

/-! ### The estimate of the schedulers -/

/-- The wait for the lanes a scheduler charges. -/
def laneQueueWait (backlogView : TransferBacklogView) (src dst : NodeId) (now : Time) : Time :=
  max (max 0 ((backlogView src).egress - now)) (max 0 ((backlogView dst).ingress - now))

/-- The estimate read off a transfer model. -/
def estimateOn (prefillNode decodeNode : MockEngineNode) (request : Request)
    (decodeCacheMatch : CacheLookup) (kvBytesPerToken : ℕ) (bandwidthBytesPerS : ℚ) (now : Time) :
    Py TransferModel Time := do
  pure (computeEstTtft prefillNode decodeNode request decodeCacheMatch kvBytesPerToken
    bandwidthBytesPerS (← get).peekBacklog now)

/-- The larger of the clamped lane waits is the delay of the greedy start. -/
theorem laneQueueWait_eq (egress ingress : PyDict NodeId Time) (src dst : NodeId)
    (now cost : Time) :
    laneQueueWait (TransferModel.perNodeLane egress ingress).peekBacklog src dst now =
      ((TransferModel.perNodeLane egress ingress).requestTransfer src dst now cost).1.1 - now := by
  simp only [laneQueueWait, TransferModel.peekBacklog, TransferModel.requestTransfer]
  rw [← max_sub_sub_right, ← max_sub_sub_right, sub_self, max_max_max_comm, max_self, ← max_assoc]

/-- **The estimated and the actual transfer agree.**  On a contended model the lane wait of the
estimate is the delay with which the transfer would start now, the transfer term is the time after
which it would end, and evaluating the estimate any number of times leaves the lanes alone. -/
theorem computeEstTtft_transfer (egress ingress : PyDict NodeId Time) (p d : MockEngineNode)
    (request : Request) (hit : CacheLookup) (kvBytesPerToken : ℕ) (bandwidthBytesPerS : ℚ)
    (now : Time) :
    let tm := TransferModel.perNodeLane egress ingress
    let promptLen := request.tokenIds.length
    let service := transferServiceMs promptLen kvBytesPerToken bandwidthBytesPerS
    let reserved := (tm.requestTransfer p.nodeId d.nodeId now service).1
    laneQueueWait tm.peekBacklog p.nodeId d.nodeId now = reserved.1 - now ∧
    service + laneQueueWait tm.peekBacklog p.nodeId d.nodeId now = reserved.2 - now ∧
    computeEstTtft p d request hit kvBytesPerToken bandwidthBytesPerS tm.peekBacklog now =
      p.estimatePrefillTime promptLen hit.matchedTokens (some (p.decoding.card + 1)) +
        p.queueWaitTime (some promptLen) (some request.expectedOutputLen) +
        (reserved.2 - now) + hit.transferCostMs +
        d.estimateDecodeTime (d.decoding.card + 1) ∧
    ∀ k, ((List.replicate k ()).forM fun _ => do
      let _ ← estimateOn p d request hit kvBytesPerToken bandwidthBytesPerS now).run tm =
        .ok () tm := by
  intro tm promptLen service reserved
  have hwait : laneQueueWait tm.peekBacklog p.nodeId d.nodeId now = reserved.1 - now :=
    laneQueueWait_eq egress ingress p.nodeId d.nodeId now service
  have htransfer : service + laneQueueWait tm.peekBacklog p.nodeId d.nodeId now =
      reserved.2 - now := by
    have hfinish : reserved.2 = reserved.1 + service :=
      TransferModel.finish_eq tm p.nodeId d.nodeId now service
    rw [hwait, hfinish]
    ring
  refine ⟨hwait, htransfer, ?_, ?_⟩
  · rw [← htransfer]
    rfl
  · intro k
    induction k with
    | zero => rfl
    | succ k ih =>
        rw [List.replicate_succ, Py.run_forM_cons]
        exact ih

end NanoKVRouter
