/-
**Request conservation.**

A request that has arrived is carried by exactly one scheduled event, waits in the queue of a full
node, or is part of the work of a node that has a batch step scheduled.  When no event is left, none
of the three is possible: every request has ended, and nothing of it is left behind.

Main definitions:

* `Simulator.endings` — the handled events that ended the life of a request;
* `Drained` — no event is left, and every node and every map of the handlers is empty.

Main results:

* `Staged.length_endings` — when no event is left, every request that has arrived has ended once;
* `Staged.drained` — when no event is left, nothing of the requests is left;
* `Wiring.requests_conserved` — **with disjoint pools, decode nodes queue nothing and keep to their
  capacity in every state, and a run that drains the event queue ends every request exactly once and
  leaves nothing behind**.
-/

import NanoKVRouter.SimulatorLives
import NanoKVRouter.SimulatorOverlap

set_option relaxedAutoImplicit false
set_option autoImplicit false

namespace NanoKVRouter

/-- The handled events that ended the life of a request. -/
def Simulator.endings {ς : Type} (s : Simulator ς) (r : RequestId) : List Payload :=
  (s.1.processed.map Event.payload).filter fun p => p.Ends r

/-- Nothing of any request is left on the nodes and in the maps of the handlers. -/
structure Drained (b : Bookkeeping) : Prop where
  runningRequests : ∀ x n, b.nodes.get? x = some n → n.runningRequests = []
  queue : ∀ x n, b.nodes.get? x = some n → n.queue = []
  decoding : ∀ x n, b.nodes.get? x = some n → n.decoding = ∅
  prefillRemaining : ∀ x n, b.nodes.get? x = some n → n.prefillRemaining.entries = []
  decisions : b.decisions.entries = []
  requests : b.requests.entries = []
  pendingTransfers : b.pendingTransfers.entries = []

/-! ### Stages without an event -/

/-- The stages of requests that are gone. -/
def Stage.IsGone : Stage → Prop
  | .absent => True
  | .finished _ _ _ => True
  | .dismissed _ _ => True
  | _ => False

section Drain

variable {ς : Type} {w : Wiring ς} {s : Simulator ς} {stage : RequestId → Stage}

/-- When no event is left, no node has work. -/
theorem hasWork_eq_false (ha : Awake s.stepCount s.2.nodes) (hq : s.1.queue.events = [])
    {x : NodeId} {n : MockEngineNode} (hn : s.2.nodes.get? x = some n) : n.hasWork = false := by
  by_contra hw
  rw [Bool.not_eq_false] at hw
  have hcount := ha.counted x
  rw [inFlight_of_get? hn, ha.armed x n hn hw, Simulator.stepCount, hq] at hcount
  cases hcount

/-- When no event is left, the nodes run and queue nothing, and every request is gone. -/
theorem Staged.isGone (h : Staged w s stage) (ha : Awake s.stepCount s.2.nodes)
    (hq : s.1.queue.events = []) (r : RequestId) : (stage r).IsGone := by
  have hpending : ∀ q, (stage q).pending q = 0 := by
    intro q
    rw [← (h.known q).pending, hq]
    rfl
  -- a node that has something of a request is there
  have hnode : ∀ q x, (stage q).node x ≠ .idle → ∃ n, s.2.nodes.get? x = some n ∧
      n.viewOf q = (stage q).node x := by
    intro q x hne
    cases hn : s.2.nodes.get? x with
    | none =>
        have hview := (h.kept q).node x
        rw [Bookkeeping.nodeView] at hview
        rw [show s.2.toBookkeeping.nodes.get? x = none from hn] at hview
        exact absurd hview.symm hne
    | some n => exact ⟨n, rfl, (h.kept q).viewOf hn⟩
  have hidle : ∀ q x n, s.2.nodes.get? x = some n → (stage q).node x ≠ .idle →
      ∃ req a, stage q = .waiting req a ∧ a.prefillNode = x := by
    intro q x n hn hne
    have hwork := hasWork_eq_false ha hq hn
    have hview := (h.kept q).viewOf hn
    have hdec : (n.viewOf q).decoding = false := by
      refine decide_eq_false fun hd => ?_
      rw [hasWork_eq_true_iff.2 (Or.inl ⟨q, hd⟩)] at hwork
      cases hwork
    have hpipe : (n.viewOf q).pipeline = none := by
      refine Option.eq_none_iff_forall_ne_some.2 fun u hu => ?_
      have hmem := PyDict.get?_eq_some_iff.1 hu
      rw [hasWork_eq_true_iff.2 (Or.inr (List.ne_nil_of_mem hmem))] at hwork
      cases hwork
    have hp := hpending q
    rcases (stage q).node_cases x with hx | hx | ⟨req, a, k, hst, -⟩ | ⟨req, a, u, hst, rfl⟩ |
      ⟨req, a, hst, -⟩ | ⟨req, a, g, hst, rfl⟩ | ⟨req, a, g, hst, -⟩
    · exact absurd hx hne
    · exact hx
    · rw [hst] at hp
      exact absurd hp (Multiset.singleton_ne_zero _)
    · rw [hview, hst, Stage.node, only_self] at hpipe
      cases hpipe
    · rw [hst] at hp
      exact absurd hp (Multiset.singleton_ne_zero _)
    · rw [hview, hst, Stage.node, only_self] at hdec
      cases hdec
    · rw [hst] at hp
      exact absurd hp (Multiset.singleton_ne_zero _)
  have hp := hpending r
  cases hst : stage r with
  | absent => trivial
  | finished req d g => trivial
  | dismissed req reason => trivial
  | waiting req a =>
      -- the node it waits for is full, so that some request runs there
      have hne : (stage r).node a.prefillNode ≠ .idle := by
        rw [hst, Stage.node, only_self]
        exact fun h => by cases h
      obtain ⟨n, hn, hview⟩ := hnode r a.prefillNode hne
      have hqueue : n.queue ≠ [] := by
        have hcount : n.queue.count r = 1 := by
          have hqueued := congrArg NodeView.queued hview
          rwa [hst, Stage.node, only_self] at hqueued
        have hpos : 0 < n.queue.count r := by omega
        exact List.ne_nil_of_mem (List.count_pos_iff.1 hpos)
      have hfull := (h.fits _ n hn).full hqueue
      obtain ⟨q, hrun⟩ : ∃ q, q ∈ n.runningRequests := by
        refine List.exists_mem_of_length_pos ?_
        have := n.nodeConfig.one_le_capacity
        omega
      have hcount : ((stage q).node a.prefillNode).running ≠ 0 := by
        rw [← (h.kept q).viewOf hn]
        exact (List.count_pos_iff.2 hrun).ne'
      obtain ⟨req', a', hst', hx⟩ := hidle q _ n hn fun hidle => by
        rw [hidle] at hcount
        exact hcount rfl
      rw [hst', ← hx, Stage.node, only_self] at hcount
      exact absurd rfl hcount
  | prefilling req a u =>
      have hne : (stage r).node a.prefillNode ≠ .idle := by
        rw [hst, Stage.node, only_self]
        exact fun h => by cases h
      obtain ⟨n, hn, -⟩ := hnode r _ hne
      obtain ⟨req', a', hst', -⟩ := hidle r _ n hn hne
      rw [hst] at hst'
      cases hst'
  | decoding req a g =>
      have hne : (stage r).node a.decodeNode ≠ .idle := by
        rw [hst, Stage.node, only_self]
        exact fun h => by cases h
      obtain ⟨n, hn, -⟩ := hnode r _ hne
      obtain ⟨req', a', hst', -⟩ := hidle r _ n hn hne
      rw [hst] at hst'
      cases hst'
  | arriving _ | rejected _ _ | starting _ _ _ | prefilled _ _ | transferring _ _ _
  | decoded _ _ _ =>
      rw [hst] at hp
      exact absurd hp (Multiset.singleton_ne_zero _)

/-- **When no event is left, nothing of the requests is left.** -/
theorem Staged.drained (h : Staged w s stage) (ha : Awake s.stepCount s.2.nodes)
    (hq : s.1.queue.events = []) : Drained s.2.toBookkeeping := by
  have hgone := h.isGone ha hq
  have hview : ∀ x n, s.2.nodes.get? x = some n → ∀ r, n.viewOf r = .idle := by
    intro x n hn r
    rw [(h.kept r).viewOf hn]
    have hr := hgone r
    cases hst : stage r <;> rw [hst] at hr <;> first | rfl | exact hr.elim
  have hmaps : ∀ r, (stage r).assignment = none ∧ (stage r).stored = none ∧
      (stage r).transfers r = [] := by
    intro r
    have hr := hgone r
    cases hst : stage r <;> rw [hst] at hr <;> first | exact ⟨rfl, rfl, rfl⟩ | exact hr.elim
  have hwork : ∀ x n, s.2.nodes.get? x = some n →
      n.decoding = ∅ ∧ n.prefillRemaining.entries = [] := by
    intro x n hn
    have hno := hasWork_eq_false ha hq hn
    rw [← Bool.not_eq_true, hasWork_eq_true_iff, not_or, Finset.not_nonempty_iff_eq_empty,
      not_not] at hno
    exact hno
  refine ⟨fun x n hn => ?_, fun x n hn => ?_, fun x n hn => (hwork x n hn).1,
    fun x n hn => (hwork x n hn).2, ?_, ?_, ?_⟩
  · rw [List.eq_nil_iff_forall_not_mem]
    intro r hr
    have hcount := congrArg NodeView.running (hview x n hn r)
    exact (List.count_pos_iff.2 hr).ne' hcount
  · rw [List.eq_nil_iff_forall_not_mem]
    intro r hr
    have hcount := congrArg NodeView.queued (hview x n hn r)
    exact (List.count_pos_iff.2 hr).ne' hcount
  · rw [List.eq_nil_iff_forall_not_mem]
    rintro ⟨r, a⟩ hr
    have hget := (h.kept r).assignment.symm.trans (PyDict.get?_eq_some_iff.2 hr)
    rw [(hmaps r).1] at hget
    cases hget
  · rw [List.eq_nil_iff_forall_not_mem]
    rintro ⟨r, req⟩ hr
    have hget := (h.kept r).stored.symm.trans (PyDict.get?_eq_some_iff.2 hr)
    rw [(hmaps r).2.1] at hget
    cases hget
  · rw [List.eq_nil_iff_forall_not_mem]
    rintro ⟨tid, info⟩ hr
    have hin : (tid, info) ∈ s.2.pendingTransfers.entries.filter
        fun e => e.2.requestId = info.requestId := List.mem_filter.2 ⟨hr, by simp⟩
    rw [(h.kept info.requestId).transfers, (hmaps info.requestId).2.2] at hin
    cases hin

/-- **When no event is left, every request that has arrived has ended**, and exactly once. -/
theorem Staged.length_endings (h : Staged w s stage) (ha : Awake s.stepCount s.2.nodes)
    (hq : s.1.queue.events = []) {ev : Event Payload} (hev : ev ∈ s.1.processed) {req : Request}
    (hreq : ev.payload = .requestArrive req) : (s.endings req.requestId).length = 1 := by
  rw [Simulator.endings, (h.known req.requestId).ended]
  have hr := h.isGone ha hq req.requestId
  have harr := (h.known req.requestId).arrived
  cases hst : stage req.requestId with
  | absent =>
      rw [hst] at harr
      have hmem : req ∈ (s.1.processed.filterMap fun ev => ev.payload.arrival?).filter
          fun req' => req'.requestId = req.requestId :=
        List.mem_filter.2 ⟨List.mem_filterMap.2 ⟨ev, hev, by rw [hreq]; rfl⟩, by simp⟩
      rw [harr] at hmem
      cases hmem
  | finished _ _ _ => rfl
  | dismissed _ _ => rfl
  | _ =>
      rw [hst] at hr
      exact hr.elim

end Drain

/-! ### Disjoint pools -/

namespace Wiring

variable {ς : Type} {w : Wiring ς} {s : Simulator ς}

/-- With disjoint pools the requests are in their stages in every state that is reached. -/
theorem Reaches.staged_of_disjoint (hpools : ∀ id ∈ w.prefillIds, id ∉ w.decodeIds)
    (h : w.Reaches DistinctArrivals s) : ∃ stage, Staged w s stage :=
  h.staged (fun _ _ _ hm => hm) fun _ _ hs _ => hs.noneQueued hpools

/-- **Request conservation**: with disjoint pools and distinct request ids, in every state that is
reached a decode node queues nothing and runs at most its capacity; and when the event queue is
empty, every request that has arrived has ended exactly once, by a DECODE_COMPLETE or by a
REQUEST_REJECTED, and nothing is left on the nodes and in the maps of the handlers. -/
theorem requests_conserved (hpools : ∀ id ∈ w.prefillIds, id ∉ w.decodeIds)
    (h : w.Reaches DistinctArrivals s) :
    (∀ d ∈ w.decodeIds, ∀ n, s.2.nodes.get? d = some n →
      n.queue = [] ∧ n.runningRequests.length ≤ n.nodeConfig.capacity) ∧
    (s.1.queue.events = [] →
      (∀ ev ∈ s.1.processed, ∀ req, ev.payload = .requestArrive req →
        (s.endings req.requestId).length = 1) ∧
      Drained s.2.toBookkeeping) := by
  obtain ⟨stage, hs⟩ := h.staged_of_disjoint hpools
  refine ⟨fun d hd n hn => ?_, fun hq => ⟨fun ev hev req hreq => ?_, hs.drained h.awake hq⟩⟩
  · exact ⟨hs.queue_eq_nil hpools hd hn, (hs.fits d n hn).running_le⟩
  · exact hs.length_endings h.awake hq hev hreq

theorem requests_conserved_twoArrivals :
    (split.after twoArrivals).1.queue.events = [] ∧
      ((split.after twoArrivals).endings "b").length = 1 ∧
      Drained (split.after twoArrivals).2.toBookkeeping := by
  have hm : split.Meets DistinctArrivals twoArrivals split.initial := by decide +kernel
  have hok : ((split.execute twoArrivals).run split.initial).isOk = true := by decide +kernel
  have hq : (split.after twoArrivals).1.queue.events = [] := by decide +kernel
  have hb : (⟨1, 1, .requestArrive ⟨"b", [2], 1, 0, 1000, 1000⟩⟩ : Event Payload) ∈
      (split.after twoArrivals).1.processed := by decide +kernel
  have hpools : ∀ id ∈ split.prefillIds, id ∉ split.decodeIds := by decide +kernel
  obtain ⟨hends, hdrained⟩ := (requests_conserved hpools (reaches_after _ hm hok)).2 hq
  exact ⟨hq, hends _ hb ⟨"b", [2], 1, 0, 1000, 1000⟩ rfl, hdrained⟩

end Wiring

end NanoKVRouter
