/-
**What a handler does.**

A handler reads the cache and the policy, changes the bookkeeping and schedules events.  Which
events and which changes is stated once here, with one case for each way a handler returns; the
invariants of the simulator follow from these cases and never look at the handlers again.

Main definitions:

* `Pushes` — events pushed onto the engine one after another;
* `Handles` — what handling an event does: the events it schedules and the bookkeeping it leaves.

Main results:

* `Wiring.handles_of_run` — **a handler that returns does what `Handles` says**;
* `Wiring.turn_cases` — a turn of the engine does nothing, or handles the first event;
* `Wiring.Reaches.invariant` — **the induction over runs**.
-/

import NanoKVRouter.MockNodeSpec
import NanoKVRouter.Simulator

set_option relaxedAutoImplicit false
set_option autoImplicit false

namespace NanoKVRouter

/-! ### Scheduling -/

/-- The engine after some events have been scheduled, in order. -/
inductive Pushes : SimulationEngine Payload → List (Time × Payload) →
    SimulationEngine Payload → Prop
  | nil (eng : SimulationEngine Payload) : Pushes eng [] eng
  | cons {eng eng' : SimulationEngine Payload} {t : Time} {p : Payload}
      {out : List (Time × Payload)} (h : eng.currentTime ≤ t)
      (hp : Pushes (eng.push { time := t, payload := p } h) out eng') :
      Pushes eng ((t, p) :: out) eng'

namespace Pushes

variable {eng eng' eng'' : SimulationEngine Payload} {out out' : List (Time × Payload)}

theorem single {t : Time} {p : Payload} (h : eng.currentTime ≤ t) :
    Pushes eng [(t, p)] (eng.push { time := t, payload := p } h) := .cons h (.nil _)

theorem append (h : Pushes eng out eng') (h' : Pushes eng' out' eng'') :
    Pushes eng (out ++ out') eng'' := by
  induction h with
  | nil => exact h'
  | cons ht _ ih => exact .cons ht (ih h')

theorem currentTime_eq (h : Pushes eng out eng') : eng'.currentTime = eng.currentTime := by
  induction h with
  | nil => rfl
  | cons _ _ ih => exact ih

theorem processed_eq (h : Pushes eng out eng') : eng'.processed = eng.processed := by
  induction h with
  | nil => rfl
  | cons _ _ ih => exact ih

theorem stopped_eq (h : Pushes eng out eng') : eng'.stopped = eng.stopped := by
  induction h with
  | nil => rfl
  | cons _ _ ih => exact ih

/-- No event is scheduled in the past. -/
theorem now_le (h : Pushes eng out eng') : ∀ e ∈ out, eng.currentTime ≤ e.1 := by
  induction h with
  | nil => simp
  | cons ht _ ih =>
      intro e he
      rcases List.mem_cons.1 he with rfl | he
      · exact ht
      · exact ih e he

/-- The events of the queue are the old ones and the scheduled ones. -/
theorem mem (h : Pushes eng out eng') {ev : Event Payload} (he : ev ∈ eng'.queue.events) :
    ev ∈ eng.queue.events ∨ (ev.time, ev.payload) ∈ out := by
  induction h with
  | nil => exact Or.inl he
  | cons _ _ ih =>
      rcases ih he with he | he
      · rw [SimulationEngine.push_queue, EventQueue.mem_heappush] at he
        rcases he with rfl | he
        · exact Or.inr (List.mem_cons_self ..)
        · exact Or.inl he
      · exact Or.inr (List.mem_cons_of_mem _ he)

/-- An event that was in the queue stays there. -/
theorem mem_of_mem (h : Pushes eng out eng') {ev : Event Payload} (he : ev ∈ eng.queue.events) :
    ev ∈ eng'.queue.events := by
  induction h with
  | nil => exact he
  | cons _ _ ih => exact ih (by
      rw [SimulationEngine.push_queue, EventQueue.mem_heappush]
      exact Or.inr he)

/-- What has been scheduled is in the queue. -/
theorem exists_of_mem (h : Pushes eng out eng') {e : Time × Payload} (he : e ∈ out) :
    ∃ ev ∈ eng'.queue.events, ev.time = e.1 ∧ ev.payload = e.2 := by
  induction h with
  | nil => cases he
  | @cons eng eng' t p out ht hp ih =>
      rcases List.mem_cons.1 he with rfl | he
      · refine ⟨{ time := t, seq := eng.seqCounter, payload := p }, hp.mem_of_mem ?_, rfl, rfl⟩
        rw [SimulationEngine.push_queue, EventQueue.mem_heappush]
        exact Or.inl rfl
      · exact ih he

/-- What the events of the queue carry. -/
theorem perm (h : Pushes eng out eng') : (eng'.queue.events.map Event.payload).Perm
    (eng.queue.events.map Event.payload ++ out.map Prod.snd) := by
  induction h with
  | nil => simp
  | @cons eng eng' t p out _ _ ih =>
      rw [SimulationEngine.push_queue] at ih
      refine ih.trans ?_
      refine (((EventQueue.heappush_perm _ _).map Event.payload).append_right _).trans ?_
      rw [List.map_cons, List.map_cons, List.cons_append]
      exact List.perm_middle.symm

theorem length_eq (h : Pushes eng out eng') :
    eng'.queue.events.length = eng.queue.events.length + out.length := by
  have hlen := h.perm.length_eq
  rwa [List.length_append, List.length_map, List.length_map, List.length_map] at hlen

/-- Counting the events of the queue by what they carry. -/
theorem countP_eq (h : Pushes eng out eng') (f : Payload → Bool) :
    eng'.queue.events.countP (fun ev => f ev.payload) =
      eng.queue.events.countP (fun ev => f ev.payload) + out.countP fun e => f e.2 := by
  induction h with
  | nil => simp
  | cons _ _ ih =>
      rw [ih, SimulationEngine.push_queue, EventQueue.countP_heappush, List.countP_cons]
      simp only [Nat.add_assoc, Nat.add_comm, Nat.add_left_comm]

theorem numbered (h : Pushes eng out eng') (hn : eng.Numbered) : eng'.Numbered := by
  induction h with
  | nil => exact hn
  | cons ht _ ih => exact ih (hn.push _ ht)

/-- Events of a kind that come after the scheduled ones of that kind are scheduled behind them. -/
theorem filter_eq (h : Pushes eng out eng') (hn : eng.Numbered) (f : Payload → Bool)
    (hlast : ∀ ev ∈ eng.queue.events, f ev.payload = true → ∀ e ∈ out, f e.2 = true →
      ev.time ≤ e.1)
    (hmono : (out.filter fun e => f e.2).Pairwise fun e e' => e.1 ≤ e'.1) :
    (eng'.queue.events.filter fun ev => f ev.payload).map (fun ev => (ev.time, ev.payload)) =
      (eng.queue.events.filter fun ev => f ev.payload).map (fun ev => (ev.time, ev.payload)) ++
        out.filter fun e => f e.2 := by
  induction h with
  | nil => simp
  | @cons eng eng' t p out ht _ ih =>
      have hout : ∀ ev ∈ eng.queue.events, f ev.payload = true → ∀ e ∈ out, f e.2 = true →
          ev.time ≤ e.1 := fun ev hev hf e he => hlast ev hev hf e (List.mem_cons_of_mem _ he)
      by_cases hp : f p = true
      · have hfilter : ((t, p) :: out).filter (fun e => f e.2) =
            (t, p) :: out.filter fun e => f e.2 := List.filter_cons_of_pos hp
        rw [hfilter] at hmono ⊢
        rw [ih (hn.push _ ht) ?_ (List.pairwise_cons.1 hmono).2, SimulationEngine.push_queue,
          EventQueue.filter_heappush_of_last _ hp, List.map_append, List.append_assoc]
        · rfl
        · -- an event that was there before comes before the new one
          rintro a ha hfa (hlt | ⟨-, hle⟩)
          · exact absurd hlt (not_lt.2 (hlast a ha hfa (t, p) (List.mem_cons_self ..) hp))
          · exact absurd (hn a ha) (not_lt.2 hle)
        · intro a ha hfa e he hfe
          rw [SimulationEngine.push_queue, EventQueue.mem_heappush] at ha
          rcases ha with rfl | ha
          · exact (List.pairwise_cons.1 hmono).1 e (List.mem_filter.2 ⟨he, hfe⟩)
          · exact hout a ha hfa e he hfe
      · have hfilter : ((t, p) :: out).filter (fun e => f e.2) = out.filter fun e => f e.2 :=
          List.filter_cons_of_neg hp
        rw [hfilter] at hmono ⊢
        rw [ih (hn.push _ ht) ?_ hmono, SimulationEngine.push_queue,
          EventQueue.filter_heappush_of_neg _ (Bool.not_eq_true _ ▸ hp)]
        intro a ha hfa e he hfe
        rw [SimulationEngine.push_queue, EventQueue.mem_heappush] at ha
        rcases ha with rfl | ha
        · exact absurd hfa hp
        · exact hout a ha hfa e he hfe

end Pushes

/-! ### What handling an event does -/

namespace Bookkeeping

/-- The bookkeeping with another object for a node. -/
def setNode (b : Bookkeeping) (id : NodeId) (n : MockEngineNode) : Bookkeeping :=
  { b with nodes := b.nodes.set id n }

/-- The bookkeeping without that of a request. -/
def drop (b : Bookkeeping) (r : RequestId) : Bookkeeping :=
  { b with decisions := b.decisions.erase r, requests := b.requests.erase r }

/-- A promotion is recorded. -/
def promoted (b : Bookkeeping) (id : NodeId) (pr : Option RequestId) : Bookkeeping :=
  { b with promotions := b.promotions ++ pr.toList.map (id, ·) }

/-- The event that a wake-up schedules. -/
def wakeEvents (b : Bookkeeping) (id : NodeId) (t : Time) : List (Time × Payload) :=
  match b.nodes.get? id with
  | none => []
  | some n => if n.hasWork && !n.batchStepInFlight then [(t, .decodeBatchStep id)] else []

/-- The bookkeeping after a wake-up. -/
def wake (b : Bookkeeping) (id : NodeId) : Bookkeeping :=
  match b.nodes.get? id with
  | none => b
  | some n =>
      if n.hasWork && !n.batchStepInFlight then b.setNode id { n with batchStepInFlight := true }
      else b

/-- A wake-up does nothing, or schedules a step of a node that has work and none in flight. -/
theorem wake_cases (b : Bookkeeping) (id : NodeId) (t : Time) :
    (b.wakeEvents id t = [] ∧ b.wake id = b ∧
        ∀ n, b.nodes.get? id = some n → n.hasWork = true → n.batchStepInFlight = true) ∨
      ∃ n, b.nodes.get? id = some n ∧ n.hasWork = true ∧ n.batchStepInFlight = false ∧
        b.wakeEvents id t = [(t, .decodeBatchStep id)] ∧
        b.wake id = b.setNode id { n with batchStepInFlight := true } := by
  cases hn : b.nodes.get? id with
  | none => exact Or.inl ⟨by simp [wakeEvents, hn], by simp [wake, hn], by simp⟩
  | some n =>
      by_cases hw : n.hasWork = true ∧ n.batchStepInFlight = false
      · exact Or.inr ⟨n, rfl, hw.1, hw.2, by simp [wakeEvents, hn, hw], by simp [wake, hn, hw]⟩
      · have hw' : (n.hasWork && !n.batchStepInFlight) = false := by
          rw [Bool.eq_false_iff, ne_eq, Bool.and_eq_true, Bool.not_eq_true']
          exact hw
        refine Or.inl ⟨by simp [wakeEvents, hn, hw'], by simp [wake, hn, hw'], ?_⟩
        intro m hm hwork
        rw [Option.some_inj] at hm
        subst hm
        rw [← Bool.not_eq_false]
        exact fun hf => hw ⟨hwork, hf⟩

/-- A wake-up changes the nodes only. -/
theorem wake_eq (b : Bookkeeping) (id : NodeId) : ∃ nodes, b.wake id = { b with nodes := nodes } := by
  rcases b.wake_cases id 0 with ⟨-, hb, -⟩ | ⟨n, -, -, -, -, hb⟩
  · exact ⟨b.nodes, hb⟩
  · exact ⟨_, hb⟩

@[simp] theorem wake_decisions (b : Bookkeeping) (id : NodeId) :
    (b.wake id).decisions = b.decisions := by
  obtain ⟨nodes, h⟩ := b.wake_eq id
  rw [h]

@[simp] theorem wake_requests (b : Bookkeeping) (id : NodeId) :
    (b.wake id).requests = b.requests := by
  obtain ⟨nodes, h⟩ := b.wake_eq id
  rw [h]

@[simp] theorem wake_pendingTransfers (b : Bookkeeping) (id : NodeId) :
    (b.wake id).pendingTransfers = b.pendingTransfers := by
  obtain ⟨nodes, h⟩ := b.wake_eq id
  rw [h]

@[simp] theorem wake_transferCounter (b : Bookkeeping) (id : NodeId) :
    (b.wake id).transferCounter = b.transferCounter := by
  obtain ⟨nodes, h⟩ := b.wake_eq id
  rw [h]

@[simp] theorem wake_steps (b : Bookkeeping) (id : NodeId) : (b.wake id).steps = b.steps := by
  obtain ⟨nodes, h⟩ := b.wake_eq id
  rw [h]

@[simp] theorem wake_promotions (b : Bookkeeping) (id : NodeId) :
    (b.wake id).promotions = b.promotions := by
  obtain ⟨nodes, h⟩ := b.wake_eq id
  rw [h]

@[simp] theorem wake_entered (b : Bookkeeping) (id : NodeId) :
    (b.wake id).entered = b.entered := by
  obtain ⟨nodes, h⟩ := b.wake_eq id
  rw [h]

/-- An event that a wake-up schedules. -/
theorem mem_wakeEvents {b : Bookkeeping} {id : NodeId} {t : Time} {e : Time × Payload}
    (h : e ∈ b.wakeEvents id t) : e = (t, .decodeBatchStep id) ∧
      ∃ n, b.nodes.get? id = some n ∧ n.hasWork = true ∧ n.batchStepInFlight = false := by
  rcases b.wake_cases id t with ⟨hev, -⟩ | ⟨n, hn, hw, hf, hev, -⟩
  · rw [hev] at h
    cases h
  · rw [hev, List.mem_singleton] at h
    exact ⟨h, n, hn, hw, hf⟩

end Bookkeeping

/-- A request is taken off a node, which may promote a queued one; a request that is not there is
ignored. -/
def Completes (n : MockEngineNode) (r : RequestId) (pr : Option RequestId) (n' : MockEngineNode) :
    Prop :=
  (MockEngineNode.complete r).run n = .ok pr n' ∨
    (pr = none ∧ n' = n ∧ r ∉ n.runningRequests ∧ r ∉ n.queue)

/-- What is done with the request that a finished prefill promotes on the node `p`. -/
inductive Promotes (now : Time) (p : NodeId) (b : Bookkeeping) :
    Option RequestId → List (Time × Payload) → Bookkeeping → Prop
  | none : Promotes now p b none [] b
  | missing (q : RequestId) (h : b.requests.get? q = none ∨ b.decisions.get? q = none) :
      Promotes now p b (some q) [] b
  | start {q : RequestId} {req : Request} {a : Assignment} {u k : ℤ} {n n' : MockEngineNode}
      (hreq : b.requests.get? q = some req) (ha : b.decisions.get? q = some a)
      (hn : b.nodes.get? p = some n)
      (hop : (MockEngineNode.initPromoted q req.expectedOutputLen (some req.tokenIds.length)
        (some u)).run n = .ok () n') :
      Promotes now p b (some q) [(now, .prefillStart q p req k)] (b.setNode p n')

/-- The start of a promoted request changes the nodes only. -/
theorem Promotes.eq_nodes {now : Time} {p : NodeId} {b b' : Bookkeeping} {pr : Option RequestId}
    {out : List (Time × Payload)} (h : Promotes now p b pr out b') :
    ∃ nodes, b' = { b with nodes := nodes } := by
  cases h with
  | none => exact ⟨b.nodes, rfl⟩
  | missing q h => exact ⟨b.nodes, rfl⟩
  | start => exact ⟨_, rfl⟩

/-- The start of a promoted request schedules the start of its prefill at most. -/
theorem Promotes.mem_events {now : Time} {p : NodeId} {b b' : Bookkeeping} {pr : Option RequestId}
    {out : List (Time × Payload)} (h : Promotes now p b pr out b') {e : Time × Payload}
    (he : e ∈ out) : ∃ q req k, e = (now, .prefillStart q p req k) ∧ pr = some q := by
  cases h with
  | none => cases he
  | missing q h => cases he
  | start =>
      rw [List.mem_singleton] at he
      exact ⟨_, _, _, he, rfl⟩

/-- The completion event of a prefill that a batch step has finished. -/
def prefillEvents (b : Bookkeeping) (id : NodeId) (t : Time) : Option RequestId →
    List (Time × Payload)
  | none => []
  | some r =>
      match b.requests.get? r with
      | none => []
      | some req => [(t, .prefillComplete r id req)]

/-- Only the completion of a prefill is among them. -/
theorem mem_prefillEvents {b : Bookkeeping} {id : NodeId} {t : Time} {pf : Option RequestId}
    {e : Time × Payload} (h : e ∈ prefillEvents b id t pf) :
    ∃ r req, pf = some r ∧ b.requests.get? r = some req ∧ e = (t, .prefillComplete r id req) := by
  cases pf with
  | none => cases h
  | some r =>
      simp only [prefillEvents] at h
      cases hreq : b.requests.get? r with
      | none => simp [hreq] at h
      | some req =>
          simp only [hreq, List.mem_singleton] at h
          exact ⟨r, req, rfl, hreq, h⟩

/-- The token events of the streams of a batch step on the node `n`. -/
def tokenEvents (n : MockEngineNode) (t : Time) (streams : List RequestId) :
    List (Time × Payload) :=
  streams.map fun r => (t, .tokenGenerated r (n.outputTokens.getD r 0 - 1))

/-- The completion events of the streams of a batch step. -/
def completionEvents (id : NodeId) (t : Time) (completed : List RequestId) :
    List (Time × Payload) :=
  completed.map fun r => (t, .decodeComplete r id)

/-- What handling an event at time `now` does: the events that are scheduled, in order, and the
bookkeeping after it.  The uncached tokens `u` matter to the start of a prefill only. -/
inductive Handles {ς : Type} (w : Wiring ς) (now : Time) (u : ℤ) (b : Bookkeeping) :
    Payload → List (Time × Payload) → Bookkeeping → Prop
  | arriveRejected (req : Request) (reason : Option String) :
      Handles w now u b (.requestArrive req) [(now, .requestRejected req.requestId reason)] b
  | arriveAdmitted {req : Request} {p d : NodeId} {dec : SchedulingDecision} {mt : ℕ}
      {mb : PyDict Tier ℕ} {v : ℤ} {running : Bool} {n n' : MockEngineNode}
      {started : List (Time × Payload)}
      (hp : p ∈ w.prefillIds) (hn : b.nodes.get? p = some n) (hv : 0 ≤ v)
      (hop : (MockEngineNode.admitRequest req.requestId req.expectedOutputLen
        (some req.tokenIds.length) (some v)).run n = .ok running n')
      (hstarted : if running then ∃ k, started = [(now, .prefillStart req.requestId p req k)]
        else started = []) :
      Handles w now u b (.requestArrive req)
        ((now, .scheduled req.requestId dec mt mb) :: started)
        { b.setNode p n' with
          decisions := b.decisions.set req.requestId ⟨p, d⟩
          requests := b.requests.set req.requestId req }
  | startCached {r : RequestId} {p : NodeId} {req : Request} {k : ℤ} {n n' : MockEngineNode}
      (hu : u = 0) (hp : p ∈ w.prefillIds) (hn : b.nodes.get? p = some n)
      (hop : (MockEngineNode.markPrefillDone r).run n = .ok () n') :
      Handles w now u b (.prefillStart r p req k) [(now, .prefillComplete r p req)] (b.setNode p n')
  | startPipeline {r : RequestId} {p : NodeId} {req : Request} {k : ℤ} {n n' : MockEngineNode}
      (hp : p ∈ w.prefillIds) (hn : b.nodes.get? p = some n) (hu : 0 < u)
      (hlen : u ≤ req.tokenIds.length)
      (hop : (MockEngineNode.enterPrefill r u).run n = .ok () n') :
      Handles w now u b (.prefillStart r p req k) ((b.setNode p n').wakeEvents p now)
        ((b.setNode p n').wake p)
  | completeUnknown {r : RequestId} {p : NodeId} {req : Request}
      (ha : b.decisions.get? r = none) : Handles w now u b (.prefillComplete r p req) [] b
  | prefillFinished {r : RequestId} {p : NodeId} {req : Request} {a : Assignment}
      {n n' : MockEngineNode} {pr : Option RequestId} {started : List (Time × Payload)}
      {b₁ : Bookkeeping} {base : TransferPayload} {t₁ t₂ : Time}
      (hp : p ∈ w.prefillIds) (hn : b.nodes.get? p = some n) (ha : b.decisions.get? r = some a)
      (hop : Completes n r pr n')
      (hpr : Promotes now p ((b.setNode p n').promoted p pr) pr started b₁)
      (hbase : base.requestId = r ∧
        base.transferId = r ++ "-xfer-" ++ toString (b₁.transferCounter.getD r 0))
      (ht : t₂ = t₁ + transferServiceMs req.tokenIds.length w.modelCfg.kvBytesPerToken
        w.bandwidthCfg.gpuToGpu) :
      Handles w now u b (.prefillComplete r p req)
        (started ++ [(t₁, .kvTransferStart base), (t₂, .kvTransferComplete base req)])
        { b₁ with
          transferCounter := b₁.transferCounter.set r (b₁.transferCounter.getD r 0 + 1)
          pendingTransfers := b₁.pendingTransfers.set base.transferId
            ⟨r, a.prefillNode, a.decodeNode, base.costMs, req⟩ }
  | transferStale {base : TransferPayload} {req : Request}
      (hinfo : b.pendingTransfers.get? base.transferId = none) :
      Handles w now u b (.kvTransferComplete base req) [] b
  | transferUnknown {base : TransferPayload} {req : Request} {info : PendingTransfer}
      (hinfo : b.pendingTransfers.get? base.transferId = some info)
      (ha : b.decisions.get? info.requestId = none) :
      Handles w now u b (.kvTransferComplete base req) []
        { b with pendingTransfers := b.pendingTransfers.erase base.transferId }
  | transferRejected {base : TransferPayload} {req : Request} {info : PendingTransfer}
      {a : Assignment} {n : MockEngineNode}
      (hinfo : b.pendingTransfers.get? base.transferId = some info)
      (ha : b.decisions.get? info.requestId = some a) (hd : a.decodeNode ∈ w.decodeIds)
      (hn : b.nodes.get? a.decodeNode = some n)
      (hfull : n.nodeConfig.capacity ≤ n.runningRequests.length) :
      Handles w now u b (.kvTransferComplete base req)
        [(now, .requestRejected info.requestId (some "decode_capacity_exhausted"))]
        { b.drop info.requestId with
          pendingTransfers := b.pendingTransfers.erase base.transferId }
  | transferAccepted {base : TransferPayload} {req : Request} {info : PendingTransfer}
      {a : Assignment} {n n₁ n₂ : MockEngineNode} {res : Bool} {b₁ : Bookkeeping}
      (hinfo : b.pendingTransfers.get? base.transferId = some info)
      (ha : b.decisions.get? info.requestId = some a) (hd : a.decodeNode ∈ w.decodeIds)
      (hn : b.nodes.get? a.decodeNode = some n)
      (hroom : n.runningRequests.length < n.nodeConfig.capacity)
      (hadm : (MockEngineNode.admitRequest info.requestId info.request.expectedOutputLen
        (some info.request.tokenIds.length) (some 0)).run n = .ok res n₁)
      (hop : (MockEngineNode.startDecode info.requestId).run n₁ = .ok () n₂)
      (hb : b₁ = { b.setNode a.decodeNode n₂ with
        pendingTransfers := b.pendingTransfers.erase base.transferId
        entered := b.entered ++ [info.requestId] }) :
      Handles w now u b (.kvTransferComplete base req) (b₁.wakeEvents a.decodeNode now)
        (b₁.wake a.decodeNode)
  | stepIdle {id : NodeId} {n : MockEngineNode} (hn : b.nodes.get? id = some n)
      (hidle : n.hasWork = false) :
      Handles w now u b (.decodeBatchStep id) []
        { b.setNode id { n with batchStepInFlight := false } with
          steps := b.steps ++ [⟨id, now, none⟩] }
  | stepRun {id : NodeId} {n n' : MockEngineNode} {T : Time} {completed streams : List RequestId}
      {pf : Option RequestId} {b₁ : Bookkeeping}
      (hn : b.nodes.get? id = some n) (hwork : n.hasWork = true)
      (hop : (MockEngineNode.tickBatchStep now).run { n with batchStepInFlight := false } =
        .ok (T, completed, pf) n')
      (hnd : streams.Nodup) (hmem : ∀ r, r ∈ streams ↔ r ∈ n'.decoding ∨ r ∈ completed)
      (hout : ∀ r ∈ streams, (n'.outputTokens.get? r).isSome)
      (hb : b₁ = { b.setNode id n' with
        steps := b.steps ++ [⟨id, now, some (n.decoding.card, T)⟩] }) :
      Handles w now u b (.decodeBatchStep id)
        (prefillEvents b id T pf ++ (tokenEvents n' T streams ++ (completionEvents id T completed ++
          b₁.wakeEvents id T)))
        (b₁.wake id)
  | decodeFinished {r : RequestId} {id : NodeId} {n n' : MockEngineNode} {pr : Option RequestId}
      {b₁ : Bookkeeping} (hd : id ∈ w.decodeIds) (hn : b.nodes.get? id = some n)
      (hop : Completes n r pr n') (hb : b₁ = ((b.setNode id n').promoted id pr).drop r) :
      Handles w now u b (.decodeComplete r id) (b₁.wakeEvents id now) (b₁.wake id)
  | rejected (r : RequestId) (reason : Option String) :
      Handles w now u b (.requestRejected r reason) [] b
  | scheduled (r : RequestId) (dec : SchedulingDecision) (mt : ℕ) (mb : PyDict Tier ℕ) :
      Handles w now u b (.scheduled r dec mt mb) [] b
  | transferStarted (base : TransferPayload) : Handles w now u b (.kvTransferStart base) [] b
  | token (r : RequestId) (i : ℤ) : Handles w now u b (.tokenGenerated r i) [] b

/-- The event belongs to a transfer. -/
def Payload.isTransfer : Payload → Bool
  | .kvTransferStart _ => true
  | .kvTransferComplete _ _ => true
  | _ => false

/-- The event starts a prefill. -/
def Payload.isStart : Payload → Bool
  | .prefillStart _ _ _ _ => true
  | _ => false

/-- Only the end of a prefill schedules events of a transfer; only it and an arrival schedule the
start of a prefill. -/
theorem Handles.routine {ς : Type} {w : Wiring ς} {now : Time} {u : ℤ} {b b' : Bookkeeping}
    {p : Payload} {out : List (Time × Payload)} (h : Handles w now u b p out b')
    (hp : ∀ r x req, p ≠ .prefillComplete r x req) : ∀ e ∈ out, e.2.isTransfer = false ∧
      ((∀ req, p ≠ .requestArrive req) → e.2.isStart = false) := by
  have hwake : ∀ (b₁ : Bookkeeping) id t, ∀ e ∈ b₁.wakeEvents id t,
      e.2.isTransfer = false ∧ ((∀ req, p ≠ .requestArrive req) → e.2.isStart = false) := by
    intro b₁ id t e he
    rw [(Bookkeeping.mem_wakeEvents he).1]
    exact ⟨rfl, fun _ => rfl⟩
  intro e he
  cases h with
  | startPipeline => exact hwake _ _ _ e he
  | transferAccepted => exact hwake _ _ _ e he
  | decodeFinished => exact hwake _ _ _ e he
  | completeUnknown | prefillFinished => exact absurd rfl (hp _ _ _)
  | @arriveAdmitted _ x d dec mt mb v running n n' started hx hnode hv hop hstarted =>
      refine ⟨?_, fun harrive => absurd rfl (harrive _)⟩
      rcases List.mem_cons.1 he with rfl | he
      · rfl
      · cases running with
        | true =>
            obtain ⟨k, rfl⟩ := hstarted
            rw [List.mem_singleton.1 he]
            rfl
        | false =>
            obtain rfl := hstarted
            cases he
  | stepRun =>
      rcases List.mem_append.1 he with he | he
      · obtain ⟨q, req, -, -, rfl⟩ := mem_prefillEvents he
        exact ⟨rfl, fun _ => rfl⟩
      rcases List.mem_append.1 he with he | he
      · obtain ⟨q, -, rfl⟩ := List.mem_map.1 he
        exact ⟨rfl, fun _ => rfl⟩
      rcases List.mem_append.1 he with he | he
      · obtain ⟨q, -, rfl⟩ := List.mem_map.1 he
        exact ⟨rfl, fun _ => rfl⟩
      · exact hwake _ _ _ e he
  | arriveRejected | startCached | transferRejected =>
      rw [List.mem_singleton.1 he]
      exact ⟨rfl, fun _ => rfl⟩
  | _ => cases he

/-- The uncached tokens of the request whose prefill is started. -/
def Simulator.uncachedAt {ς : Type} (s : Simulator ς) : Payload → ℤ
  | .prefillStart requestId nodeId req _ =>
      let decodeNodeId := match s.2.decisions.get? requestId with
        | some decision => decision.decodeNode
        | none => nodeId
      (((computeUncachedTokens req decodeNodeId).run s).value?).getD 0
  | _ => 0

/-! ### The calls of the handlers -/

section Calls

variable {ς α : Type} {s s' : Simulator ς} {t : Time} {p : Payload} {u : Unit}

/-- A call that returned has scheduled `out` and left the bookkeeping `b`. -/
def Emits (s : Simulator ς) (out : List (Time × Payload)) (b : Bookkeeping) (s' : Simulator ς) :
    Prop :=
  Pushes s.1 out s'.1 ∧ s'.2.toBookkeeping = b

namespace Emits

variable {s'' : Simulator ς} {out out' : List (Time × Payload)} {b b' : Bookkeeping}

theorem refl (s : Simulator ς) : Emits s [] s.2.toBookkeeping s := ⟨.nil _, rfl⟩

theorem trans (h : Emits s out b s') (h' : Emits s' out' b' s'') :
    Emits s (out ++ out') b' s'' := ⟨h.1.append h'.1, h'.2⟩

theorem now_eq (h : Emits s out b s') : s'.1.now = s.1.now := h.1.currentTime_eq

end Emits

theorem run_scheduleAt (h : (scheduleAt t p).run s = .ok u s') :
    Emits s [(t, p)] s.2.toBookkeeping s' := by
  obtain ⟨eng, hrun, rfl⟩ := Py.run_onPart_eq_ok.1 h
  obtain ⟨hle, rfl⟩ := SimulationEngine.run_schedule_ok_iff.1 hrun
  exact ⟨.single hle, rfl⟩

theorem run_onCm {m : Py CacheManager α} {a : α} (h : (onCm m).run s = .ok a s') :
    Emits s [] s.2.toBookkeeping s' := by
  obtain ⟨cm, -, rfl⟩ := Py.run_onPart_eq_ok.1 h
  exact ⟨.nil _, rfl⟩

/-- Catching an exception of the cache. -/
theorem run_onCm_except {m : Py CacheManager α} {a b : α} {c : PyErr → Bool}
    (h : (Py.onExcept c (onCm m) (pure b)).run s = .ok a s') : Emits s [] s.2.toBookkeeping s' := by
  rcases Py.run_onExcept_eq_ok.1 h with h | ⟨e, t, herr, -, hpure⟩
  · exact run_onCm h
  · rw [EStateM.run_pure, EStateM.Result.ok.injEq] at hpure
    obtain ⟨-, rfl⟩ := hpure
    rw [onCm, Py.run_onPart] at herr
    split at herr
    · cases herr
    · cases herr
      exact ⟨.nil _, rfl⟩

theorem run_nodeOf {pool : List NodeId} {id : NodeId} {n : MockEngineNode}
    (h : (nodeOf pool id).run s = .ok n s') :
    id ∈ pool ∧ s.2.nodes.get? id = some n ∧ s' = s := by
  rw [nodeOf, Py.run_get_bind] at h
  by_cases hp : id ∈ pool
  · simp only [hp, if_true] at h
    cases hn : s.2.nodes.get? id with
    | none => simp [hn] at h
    | some n' =>
        simp only [hn, EStateM.run_pure, EStateM.Result.ok.injEq] at h
        obtain ⟨rfl, rfl⟩ := h
        exact ⟨hp, rfl, rfl⟩
  · simp [hp] at h

theorem run_onNode {m : Py MockEngineNode α} {id : NodeId} {a : α}
    (h : (onNode id m).run s = .ok a s') :
    ∃ n n', s.2.nodes.get? id = some n ∧ m.run n = .ok a n' ∧
      s'.1 = s.1 ∧ s'.2.toBookkeeping = s.2.toBookkeeping.setNode id n' := by
  rw [onNode, Py.run_get_bind] at h
  cases hn : s.2.nodes.get? id with
  | none => simp [hn] at h
  | some n =>
      rw [hn] at h
      obtain ⟨n', hrun, rfl⟩ := Py.run_onPart_eq_ok.1 h
      exact ⟨n, n', rfl, hrun, rfl, rfl⟩

theorem run_modifyCluster {f : Cluster ς → Cluster ς} (h : (modifyCluster f).run s = .ok u s') :
    s' = (s.1, f s.2) := by
  rw [modifyCluster, EStateM.run_modify, EStateM.Result.ok.injEq] at h
  exact h.2.symm

theorem run_computeUncachedTokens {req : Request} {d : NodeId} {k : ℤ}
    (h : (computeUncachedTokens req d).run s = .ok k s') :
    Emits s [] s.2.toBookkeeping s' ∧ 0 ≤ k ∧ k ≤ req.tokenIds.length := by
  rw [computeUncachedTokens, Py.run_get_bind] at h
  obtain ⟨m, t, hrun, hpure⟩ := Py.bind_eq_ok.1 h
  rw [EStateM.run_pure, EStateM.Result.ok.injEq] at hpure
  obtain ⟨rfl, rfl⟩ := hpure
  refine ⟨run_onCm_except hrun, le_max_left _ _, ?_⟩
  omega

theorem run_computeNChunks {req : Request} {d : NodeId} {c : ℕ} {k : ℤ}
    (h : (computeNChunks req d c).run s = .ok k s') : Emits s [] s.2.toBookkeeping s' := by
  obtain ⟨m, t, hrun, hpure⟩ := Py.bind_eq_ok.1 h
  rw [EStateM.run_pure, EStateM.Result.ok.injEq] at hpure
  obtain ⟨-, rfl⟩ := hpure
  exact (run_computeUncachedTokens hrun).1

theorem run_startPrefill {req : Request} {r : RequestId} {pn d : NodeId} {c : ℕ}
    (h : (Wiring.startPrefill req r pn d c).run s = .ok u s') :
    ∃ k, Emits s [(s.1.now, .prefillStart r pn req k)] s.2.toBookkeeping s' := by
  obtain ⟨k, t, hrun, h⟩ := Py.bind_eq_ok.1 h
  have hk := run_computeNChunks hrun
  rw [Py.run_get_bind] at h
  have hs := run_scheduleAt h
  rw [hk.now_eq, hk.2] at hs
  exact ⟨k, hk.trans hs⟩

theorem run_wakeBatchStep {id : NodeId} (h : (wakeBatchStep id t).run s = .ok u s') :
    Emits s (s.2.toBookkeeping.wakeEvents id t) (s.2.toBookkeeping.wake id) s' := by
  rw [wakeBatchStep, Py.run_get_bind] at h
  cases hn : s.2.nodes.get? id with
  | none => simp [hn] at h
  | some n =>
      have hn' : s.2.toBookkeeping.nodes.get? id = some n := hn
      simp only [hn] at h
      simp only [Bookkeeping.wakeEvents, Bookkeeping.wake, hn']
      by_cases hw : (n.hasWork && !n.batchStepInFlight) = true
      · rw [if_pos hw] at h ⊢
        rw [if_pos hw]
        obtain ⟨_, s₁, hsched, hmark⟩ := Py.bind_eq_ok.1 h
        have h₁ := run_scheduleAt hsched
        obtain ⟨m, m', hm, hrun, heng, hb⟩ := run_onNode hmark
        have hm' : s₁.2.toBookkeeping.nodes.get? id = some m := hm
        rw [h₁.2, hn', Option.some_inj] at hm'
        subst hm'
        have hflag : n.batchStepInFlight = false := by
          rw [Bool.and_eq_true, Bool.not_eq_true'] at hw
          exact hw.2
        simp only [MockEngineNode.markBatchStepScheduled, EStateM.run_bind, EStateM.run_get, hflag,
          Bool.false_eq_true, if_false, EStateM.run_set, EStateM.Result.ok.injEq, true_and] at hrun
        subst hrun
        exact ⟨heng ▸ h₁.1, by rw [hb, h₁.2]⟩
      · rw [if_neg hw, EStateM.run_pure, EStateM.Result.ok.injEq] at h
        obtain ⟨-, rfl⟩ := h
        rw [if_neg hw, if_neg hw]
        exact .refl s

theorem run_completeOn {id : NodeId} {r : RequestId} {pr : Option RequestId}
    (h : (completeOn id r).run s = .ok pr s') :
    ∃ n n', s.2.nodes.get? id = some n ∧ Completes n r pr n' ∧
      Emits s [] ((s.2.toBookkeeping.setNode id n').promoted id pr) s' := by
  obtain ⟨pr', s₁, hrun, h⟩ := Py.bind_eq_ok.1 h
  have hnode : ∃ n n', s.2.nodes.get? id = some n ∧ Completes n r pr' n' ∧ s₁.1 = s.1 ∧
      s₁.2.toBookkeeping = s.2.toBookkeeping.setNode id n' := by
    rcases Py.run_onExcept_eq_ok.1 hrun with hrun | ⟨e, s₂, herr, hval, hpure⟩
    · obtain ⟨n, n', hn, hm, heng, hb⟩ := run_onNode hrun
      exact ⟨n, n', hn, Or.inl hm, heng, hb⟩
    · rw [EStateM.run_pure, EStateM.Result.ok.injEq] at hpure
      obtain ⟨rfl, rfl⟩ := hpure
      rw [onNode, Py.run_get_bind] at herr
      cases hn : s.2.nodes.get? id with
      | none =>
          simp only [hn, Py.run_raise, EStateM.Result.error.injEq] at herr
          rw [← herr.1] at hval
          simp [PyErr.isValueError] at hval
      | some n =>
          simp only [hn, Py.run_onPart] at herr
          have hset : s.2.nodes.set id n = s.2.nodes := PyDict.set_of_get? hn
          -- only `list.remove` raises, and then nothing has changed
          by_cases hmem : r ∈ n.runningRequests ∨ r ∈ n.queue
          · rw [MockEngineNode.run_complete hmem] at herr
            cases herr
          · rw [not_or] at hmem
            rw [MockEngineNode.run_complete_absent hmem.1 hmem.2] at herr
            cases herr
            refine ⟨n, n, rfl, Or.inr ⟨rfl, rfl, hmem.1, hmem.2⟩, rfl, ?_⟩
            simp only [Bookkeeping.setNode, hset]
  obtain ⟨n, n', hn, hc, heng, hb⟩ := hnode
  refine ⟨n, n', hn, ?_⟩
  cases pr' with
  | none =>
      rw [EStateM.run_pure, EStateM.Result.ok.injEq] at h
      obtain ⟨rfl, rfl⟩ := h
      exact ⟨hc, heng ▸ .nil _, by rw [hb]; simp [Bookkeeping.promoted]⟩
  | some q =>
      obtain ⟨_, s₂, hmod, hpure⟩ := Py.bind_eq_ok.1 h
      rw [EStateM.run_pure, EStateM.Result.ok.injEq] at hpure
      obtain ⟨rfl, rfl⟩ := hpure
      have hpromoted : s₂.2.toBookkeeping = s₁.2.toBookkeeping.promoted id (some q) := by
        rw [run_modifyCluster hmod]
        rfl
      exact ⟨hc, by rw [run_modifyCluster hmod, heng]; exact .nil _, by rw [hpromoted, hb]⟩

theorem run_startPromoted {id : NodeId} {q : RequestId} {c : ℕ}
    (h : (Wiring.startPromoted id q c).run s = .ok u s') :
    ∃ out b, Promotes s.1.now id s.2.toBookkeeping (some q) out b ∧ Emits s out b s' := by
  rw [Wiring.startPromoted, Py.run_get_bind] at h
  cases hreq : s.2.requests.get? q with
  | none =>
      simp only [hreq, EStateM.run_pure, EStateM.Result.ok.injEq, true_and] at h
      subst h
      exact ⟨[], _, .missing q (Or.inl hreq), .refl s⟩
  | some req =>
      cases ha : s.2.decisions.get? q with
      | none =>
          simp only [hreq, ha, EStateM.run_pure, EStateM.Result.ok.injEq, true_and] at h
          subst h
          exact ⟨[], _, .missing q (Or.inr ha), .refl s⟩
      | some a =>
          simp only [hreq, ha] at h
          obtain ⟨k, s₁, hunc, h⟩ := Py.bind_eq_ok.1 h
          obtain ⟨_, s₂, hinit, h⟩ := Py.bind_eq_ok.1 h
          have h₁ := (run_computeUncachedTokens hunc).1
          obtain ⟨n, n', hn, hop, heng, hb⟩ := run_onNode hinit
          obtain ⟨k', h₃⟩ := run_startPrefill h
          have hn' : s₁.2.toBookkeeping.nodes.get? id = some n := hn
          rw [h₁.2] at hn' hb
          have hnow : s₂.1.now = s.1.now := by rw [heng]; exact h₁.now_eq
          rw [hnow] at h₃
          exact ⟨_, _, .start hreq ha hn' hop, h₁.1.append (heng ▸ h₃.1), h₃.2.trans hb⟩

theorem run_emitTokens {id : NodeId} {n : MockEngineNode} : ∀ {streams : List RequestId}
    {s s' : Simulator ς} {u : Unit}, s.2.nodes.get? id = some n →
    (Wiring.emitTokens id t streams).run s = .ok u s' →
    (∀ r ∈ streams, (n.outputTokens.get? r).isSome) ∧
      Emits s (tokenEvents n t streams) s.2.toBookkeeping s' := by
  intro streams
  induction streams with
  | nil =>
      intro s s' u hn h
      rw [Wiring.emitTokens, EStateM.run_pure, EStateM.Result.ok.injEq] at h
      obtain ⟨-, rfl⟩ := h
      exact ⟨by simp, .refl s⟩
  | cons r rest ih =>
      intro s s' u hn h
      rw [Wiring.emitTokens, Py.run_get_bind] at h
      simp only [hn] at h
      cases hg : n.outputTokens.get? r with
      | none => simp [hg] at h
      | some g =>
          simp only [hg] at h
          obtain ⟨_, s₁, hsched, h⟩ := Py.bind_eq_ok.1 h
          have h₁ := run_scheduleAt hsched
          have hn₁ : s₁.2.nodes.get? id = some n := by
            have hnodes : s₁.2.toBookkeeping.nodes = s.2.toBookkeeping.nodes := by rw [h₁.2]
            exact (congrArg (·.get? id) hnodes).trans hn
          obtain ⟨hall, h₂⟩ := ih hn₁ h
          refine ⟨?_, ?_⟩
          · intro x hx
            rcases List.mem_cons.1 hx with rfl | hx
            · rw [hg]
              rfl
            · exact hall x hx
          · have hgD : n.outputTokens.getD r 0 = g := by
              rw [PyDict.getD, hg, Option.getD_some]
            rw [tokenEvents, List.map_cons, hgD]
            exact h₁.2 ▸ h₁.trans h₂

theorem run_emitCompletions {id : NodeId} : ∀ {completed : List RequestId} {s s' : Simulator ς}
    {u : Unit}, (Wiring.emitCompletions id t completed).run s = .ok u s' →
    Emits s (completionEvents id t completed) s.2.toBookkeeping s' := by
  intro completed
  induction completed with
  | nil =>
      intro s s' u h
      rw [Wiring.emitCompletions, EStateM.run_pure, EStateM.Result.ok.injEq] at h
      obtain ⟨-, rfl⟩ := h
      exact .refl s
  | cons r rest ih =>
      intro s s' u h
      rw [Wiring.emitCompletions] at h
      obtain ⟨_, s₁, hsched, h⟩ := Py.bind_eq_ok.1 h
      have h₁ := run_scheduleAt hsched
      exact h₁.2 ▸ h₁.trans (ih h)

theorem run_emitPrefillComplete {id : NodeId} {pf : Option RequestId}
    (h : (Wiring.emitPrefillComplete id t pf).run s = .ok u s') :
    Emits s (prefillEvents s.2.toBookkeeping id t pf) s.2.toBookkeeping s' := by
  cases pf with
  | none =>
      rw [Wiring.emitPrefillComplete, EStateM.run_pure, EStateM.Result.ok.injEq] at h
      obtain ⟨-, rfl⟩ := h
      exact .refl s
  | some r =>
      rw [Wiring.emitPrefillComplete, Py.run_get_bind] at h
      cases hreq : s.2.requests.get? r with
      | none =>
          simp only [hreq, EStateM.run_pure, EStateM.Result.ok.injEq, true_and] at h
          subst h
          simp only [prefillEvents, hreq]
          exact .refl s
      | some req =>
          simp only [hreq] at h
          simp only [prefillEvents, hreq]
          exact run_scheduleAt h

end Calls

/-! ### The handlers -/

namespace Wiring

variable {ς : Type} {w : Wiring ς} {s s' : Simulator ς} {u : Unit}

/-- Handling an event has led from `s` to `s'`. -/
abbrev Handled (w : Wiring ς) (s : Simulator ς) (p : Payload) (s' : Simulator ς) : Prop :=
  ∃ out b, Handles w s.1.now (s.uncachedAt p) s.2.toBookkeeping p out b ∧ Emits s out b s'

theorem run_schedule {req : Request} {dec : SchedulingDecision}
    (h : (w.schedule req).run s = .ok dec s') : Emits s [] s.2.toBookkeeping s' := by
  rw [schedule, Py.run_get_bind] at h
  obtain ⟨p, -, rfl⟩ := Py.run_onPart_eq_ok.1 h
  exact ⟨.nil _, rfl⟩

/-- The arrival of an accepted request, up to the start of its prefill. -/
theorem run_acceptArrival {req : Request} {dec : SchedulingDecision} {p : NodeId}
    (h : (w.acceptArrival req dec p).run s = .ok u s') :
    ∃ d, ∃ lk : ℕ, ∃ running n n' s₁, dec.decodeNode = some d ∧ p ∈ w.prefillIds ∧
      s.2.nodes.get? p = some n ∧
      (MockEngineNode.admitRequest req.requestId req.expectedOutputLen (some req.tokenIds.length)
        (some (max 0 ((req.tokenIds.length : ℤ) - lk)))).run n = .ok running n' ∧
      (∃ mb, Emits s [(s.1.now, .scheduled req.requestId dec lk mb)]
        { s.2.toBookkeeping.setNode p n' with
          decisions := s.2.decisions.set req.requestId ⟨p, d⟩
          requests := s.2.requests.set req.requestId req } s₁) ∧
      (running = true ∧ (startPrefill req req.requestId p d n.modelConfig.prefillChunkSize).run s₁ =
          .ok u s' ∨
        running = false ∧ s' = s₁) := by
  rw [acceptArrival, Py.run_get_bind] at h
  cases hd : dec.decodeNode with
  | none => simp [hd] at h
  | some d =>
      simp only [hd] at h
      obtain ⟨lk, s₂, hlk, h⟩ := Py.bind_eq_ok.1 h
      obtain ⟨_, s₃, hsch, h⟩ := Py.bind_eq_ok.1 h
      obtain ⟨_, s₄, hmod, h⟩ := Py.bind_eq_ok.1 h
      obtain ⟨n, s₅, hnode, h⟩ := Py.bind_eq_ok.1 h
      obtain ⟨running, s₆, hadm, h⟩ := Py.bind_eq_ok.1 h
      have h₂ := run_onCm hlk
      have h₃ := h₂.trans (run_scheduleAt hsch)
      have hb₃ : s₃.2.toBookkeeping = s.2.toBookkeeping := h₃.2.trans h₂.2
      obtain rfl := run_modifyCluster hmod
      obtain ⟨hpool, hn, rfl⟩ := run_nodeOf hnode
      obtain ⟨m, m', hm, hop, heng, hb⟩ := run_onNode hadm
      rw [hn, Option.some_inj] at hm
      subst hm
      have hn₀ : s.2.toBookkeeping.nodes.get? p = some n := by
        rw [← hb₃]
        exact hn
      have hb₆ : s₆.2.toBookkeeping = { s.2.toBookkeeping.setNode p m' with
          decisions := s.2.decisions.set req.requestId ⟨p, d⟩
          requests := s.2.requests.set req.requestId req } := by
        rw [hb, ← hb₃]
        rfl
      have hpush : Pushes s.1 [(s.1.now, .scheduled req.requestId dec lk.matchedTokens
          lk.matchedBlocksByTier)] s₆.1 := by
        rw [heng]
        exact h₃.1
      refine ⟨d, lk.matchedTokens, running, n, m', s₆, rfl, hpool, hn₀, hop, ⟨_, hpush, hb₆⟩, ?_⟩
      cases running with
      | true =>
          simp only [if_true] at h
          exact Or.inl ⟨rfl, h⟩
      | false =>
          simp only [Bool.false_eq_true, if_false, EStateM.run_pure, EStateM.Result.ok.injEq,
            true_and] at h
          exact Or.inr ⟨rfl, h.symm⟩

theorem handles_onArrive {req : Request} (h : (w.onArrive req).run s = .ok u s') :
    Handled w s (.requestArrive req) s' := by
  obtain ⟨dec, s₁, hsched, h⟩ := Py.bind_eq_ok.1 h
  have h₁ := run_schedule hsched
  cases hp : dec.prefillNode with
  | none =>
      simp only [hp] at h
      rw [Py.run_get_bind] at h
      have h₂ := run_scheduleAt h
      rw [h₁.now_eq, h₁.2] at h₂
      exact ⟨_, _, .arriveRejected req dec.rejectReason, h₁.trans h₂⟩
  | some p =>
      simp only [hp] at h
      obtain ⟨d, lk, running, n, n', s₂, -, hpool, hn, hop, ⟨mb, h₂⟩, hstart⟩ := run_acceptArrival h
      have hn₀ : s₁.2.toBookkeeping.nodes.get? p = some n := hn
      rw [h₁.now_eq, h₁.2] at h₂
      rw [h₁.2] at hn₀
      have hu : (0 : ℤ) ≤ max 0 ((req.tokenIds.length : ℤ) - lk) := le_max_left _ _
      rcases hstart with ⟨rfl, hstart⟩ | ⟨rfl, rfl⟩
      · obtain ⟨k, h₃⟩ := run_startPrefill hstart
        rw [h₂.now_eq, h₁.now_eq, h₂.2] at h₃
        exact ⟨_, _, .arriveAdmitted hpool hn₀ hu hop (by simp only [if_true]; exact ⟨k, rfl⟩),
          h₁.trans (h₂.trans h₃)⟩
      · exact ⟨_, _, .arriveAdmitted hpool hn₀ hu hop (by simp), h₁.trans h₂⟩

theorem handles_onPrefillStart {r : RequestId} {p : NodeId} {req : Request} {k : ℤ}
    (h : (w.onPrefillStart r p req).run s = .ok u s') :
    Handled w s (.prefillStart r p req k) s' := by
  rw [onPrefillStart] at h
  obtain ⟨n, s₁, hnode, hrest⟩ := Py.bind_eq_ok.1 h
  obtain ⟨hpool, hn, rfl⟩ := run_nodeOf hnode
  rw [Py.run_get_bind] at hrest
  obtain ⟨v, s₂, hunc, h⟩ := Py.bind_eq_ok.1 hrest
  obtain ⟨h₂, hv0, hvlen⟩ := run_computeUncachedTokens hunc
  have hat : s₁.uncachedAt (.prefillStart r p req k) = v :=
    congrArg (fun res => res.value?.getD 0) hunc
  rw [Py.run_get_bind] at h
  by_cases hv : v = 0
  · simp only [hv, if_true] at h
    obtain ⟨_, s₃, hmark, h⟩ := Py.bind_eq_ok.1 h
    obtain ⟨m, m', hm, hop, heng, hb⟩ := run_onNode hmark
    have hm' : s₂.2.toBookkeeping.nodes.get? p = some m := hm
    rw [h₂.2] at hm' hb
    have h₄ := run_scheduleAt h
    rw [h₂.now_eq, hb] at h₄
    exact ⟨_, _, .startCached (hat.trans hv) hpool hm' hop, h₂.1.append (heng ▸ h₄.1), h₄.2⟩
  · simp only [hv, if_false] at h
    obtain ⟨_, s₃, henter, h⟩ := Py.bind_eq_ok.1 h
    obtain ⟨m, m', hm, hop, heng, hb⟩ := run_onNode henter
    have hm' : s₂.2.toBookkeeping.nodes.get? p = some m := hm
    rw [h₂.2] at hm' hb
    have h₄ := run_wakeBatchStep h
    rw [h₂.now_eq, hb] at h₄
    rw [← hat] at hop hv0 hvlen hv
    exact ⟨_, _, .startPipeline hpool hm' (lt_of_le_of_ne hv0 (Ne.symm hv)) hvlen hop,
      h₂.1.append (heng ▸ h₄.1), h₄.2⟩

/-- The pair of transfer events and the bookkeeping of the transfer. -/
theorem run_startTransfer {r : RequestId} {req : Request} {a : Assignment}
    (h : (w.startTransfer r req a).run s = .ok u s') :
    ∃ (base : TransferPayload) (t₁ t₂ : Time), base.requestId = r ∧
      base.transferId = r ++ "-xfer-" ++ toString (s.2.transferCounter.getD r 0) ∧
      base.costMs = base.queuedCostMs + base.serviceCostMs ∧
      t₂ = t₁ + transferServiceMs req.tokenIds.length w.modelCfg.kvBytesPerToken
        w.bandwidthCfg.gpuToGpu ∧
      Emits s [(t₁, .kvTransferStart base), (t₂, .kvTransferComplete base req)]
        { s.2.toBookkeeping with
          transferCounter := s.2.transferCounter.set r (s.2.transferCounter.getD r 0 + 1)
          pendingTransfers := s.2.pendingTransfers.set base.transferId
            ⟨r, a.prefillNode, a.decodeNode, base.costMs, req⟩ } s' := by
  rw [startTransfer, Py.run_get_bind] at h
  dsimp only at h
  obtain ⟨_, s₁, hmod₁, h₁⟩ := Py.bind_eq_ok.1 h
  obtain ⟨tid, s₂, htid, h₂⟩ := Py.bind_eq_ok.1 h₁
  obtain ⟨_, s₃, hmod₂, h₃⟩ := Py.bind_eq_ok.1 h₂
  obtain ⟨_, s₄, hsch, h₄⟩ := Py.bind_eq_ok.1 h₃
  obtain rfl := run_modifyCluster hmod₁
  rw [nextTransferId, Py.run_get_bind] at htid
  obtain ⟨_, s₂', hmod₃, hpure⟩ := Py.bind_eq_ok.1 htid
  rw [EStateM.run_pure, EStateM.Result.ok.injEq] at hpure
  obtain ⟨rfl, rfl⟩ := hpure
  obtain rfl := run_modifyCluster hmod₃
  obtain rfl := run_modifyCluster hmod₂
  have h₅ := (run_scheduleAt hsch).trans (run_scheduleAt h₄)
  rw [(run_scheduleAt hsch).2] at h₅
  refine ⟨_, _, _, rfl, rfl, ?_, TransferModel.finish_eq .., h₅⟩
  change _ - _ = _ - _ + _
  rw [TransferModel.finish_eq, sub_add_eq_add_sub]

/-- The end of a prefill: nothing, if the request is not known, or the release of its slot, the
start of the request that is promoted, and the transfer. -/
theorem run_onPrefillComplete {r : RequestId} {p : NodeId} {req : Request}
    (h : (w.onPrefillComplete r p req).run s = .ok u s') :
    ∃ n, p ∈ w.prefillIds ∧ s.2.nodes.get? p = some n ∧
      ((s.2.decisions.get? r = none ∧ s' = s) ∨
        ∃ a pr s₁ s₂, s.2.decisions.get? r = some a ∧ (completeOn p r).run s = .ok pr s₁ ∧
          (pr = none ∧ s₂ = s₁ ∨ ∃ q, pr = some q ∧
            (startPromoted p q n.modelConfig.prefillChunkSize).run s₁ = .ok () s₂) ∧
          (w.startTransfer r req a).run s₂ = .ok u s') := by
  rw [onPrefillComplete] at h
  obtain ⟨n, s₁, hnode, hrest⟩ := Py.bind_eq_ok.1 h
  obtain ⟨hpool, hn, rfl⟩ := run_nodeOf hnode
  refine ⟨n, hpool, hn, ?_⟩
  rw [Py.run_get_bind] at hrest
  cases ha : s₁.2.decisions.get? r with
  | none =>
      simp only [ha, EStateM.run_pure, EStateM.Result.ok.injEq, true_and] at hrest
      exact Or.inl ⟨rfl, hrest.symm⟩
  | some a =>
      simp only [ha] at hrest
      obtain ⟨pr, s₂, hcomp, hrest⟩ := Py.bind_eq_ok.1 hrest
      right
      cases pr with
      | none => exact ⟨a, none, s₂, s₂, rfl, hcomp, Or.inl ⟨rfl, rfl⟩, hrest⟩
      | some q =>
          obtain ⟨_, s₃, hstart, htransfer⟩ := Py.bind_eq_ok.1 hrest
          exact ⟨a, some q, s₂, s₃, rfl, hcomp, Or.inr ⟨q, rfl, hstart⟩, htransfer⟩

theorem handles_onPrefillComplete {r : RequestId} {p : NodeId} {req : Request}
    (h : (w.onPrefillComplete r p req).run s = .ok u s') :
    Handled w s (.prefillComplete r p req) s' := by
  obtain ⟨n, hpool, hn, ⟨ha, rfl⟩ | ⟨a, pr, s₂, s₃, ha, hcomp, hstart, htransfer⟩⟩ :=
    run_onPrefillComplete h
  · exact ⟨_, _, .completeUnknown ha, .refl _⟩
  · obtain ⟨m, n', hm, hc, h₂⟩ := run_completeOn hcomp
    rw [hn, Option.some_inj] at hm
    subst hm
    -- the promoted request
    obtain ⟨started, b₁, hpr, h₃⟩ : ∃ started b₁,
        Promotes s.1.now p ((s.2.toBookkeeping.setNode p n').promoted p pr) pr started b₁ ∧
          Emits s₂ started b₁ s₃ := by
      rcases hstart with ⟨rfl, rfl⟩ | ⟨q, rfl, hstart⟩
      · have hr := Emits.refl s₃
        rw [h₂.2] at hr
        exact ⟨[], _, .none, hr⟩
      · obtain ⟨out, b₁, hpr, h₃⟩ := run_startPromoted hstart
        rw [h₂.now_eq, h₂.2] at hpr
        exact ⟨out, b₁, hpr, h₃⟩
    obtain ⟨base, t₁, t₂, hr, htid, -, ht, h₄⟩ := run_startTransfer htransfer
    have hb₁ : s₃.2.toBookkeeping = b₁ := h₃.2
    have hcounter : s₃.2.transferCounter = b₁.transferCounter :=
      congrArg Bookkeeping.transferCounter hb₁
    have hpending : s₃.2.pendingTransfers = b₁.pendingTransfers :=
      congrArg Bookkeeping.pendingTransfers hb₁
    rw [hcounter] at htid
    rw [hcounter, hpending, hb₁] at h₄
    exact ⟨_, _, .prefillFinished hpool hn ha hc hpr ⟨hr, htid⟩ ht, h₂.trans (h₃.trans h₄)⟩

theorem handles_onKvTransferComplete {base : TransferPayload} {req : Request}
    (h : (w.onKvTransferComplete base.transferId).run s = .ok u s') :
    Handled w s (.kvTransferComplete base req) s' := by
  rw [onKvTransferComplete, Py.run_get_bind] at h
  cases hinfo : s.2.pendingTransfers.get? base.transferId with
  | none =>
      simp only [hinfo, EStateM.run_pure, EStateM.Result.ok.injEq, true_and] at h
      subst h
      exact ⟨_, _, .transferStale hinfo, .refl _⟩
  | some info =>
      simp only [hinfo] at h
      obtain ⟨_, s₁, hmod, h⟩ := Py.bind_eq_ok.1 h
      obtain rfl := run_modifyCluster hmod
      rw [Py.run_get_bind] at h
      cases ha : s.2.decisions.get? info.requestId with
      | none =>
          simp only [ha, EStateM.run_pure, EStateM.Result.ok.injEq, true_and] at h
          subst h
          exact ⟨_, _, .transferUnknown hinfo ha, .nil _, rfl⟩
      | some a =>
          simp only [ha] at h
          rw [enterDecode] at h
          obtain ⟨n, s₂, hnode, hrest⟩ := Py.bind_eq_ok.1 h
          obtain ⟨hpool, hn, rfl⟩ := run_nodeOf hnode
          rw [Py.run_get_bind] at hrest
          dsimp only at hrest
          have hn₀ : s.2.toBookkeeping.nodes.get? a.decodeNode = some n := hn
          by_cases hfull : n.nodeConfig.capacity ≤ n.runningRequests.length
          · rw [if_pos hfull] at hrest
            obtain ⟨_, s₃, hsch, hforget⟩ := Py.bind_eq_ok.1 hrest
            obtain rfl := run_modifyCluster hforget
            have h₃ := run_scheduleAt hsch
            refine ⟨_, _, .transferRejected hinfo ha hpool hn₀ hfull, h₃.1, ?_⟩
            change s₃.2.toBookkeeping.drop info.requestId = _
            rw [h₃.2]
            rfl
          · rw [if_neg hfull] at hrest
            obtain ⟨_, s₃, hmat, hrest⟩ := Py.bind_eq_ok.1 hrest
            obtain ⟨res, s₄, hadm, hrest⟩ := Py.bind_eq_ok.1 hrest
            obtain ⟨_, s₅, hdec, hrest⟩ := Py.bind_eq_ok.1 hrest
            obtain ⟨_, s₆, hent, hwake⟩ := Py.bind_eq_ok.1 hrest
            have h₃ := run_onCm_except hmat
            obtain ⟨m, n₁, hm, hadm', heng₁, hb₁⟩ := run_onNode hadm
            have hm' : s₃.2.toBookkeeping.nodes.get? a.decodeNode = some m := hm
            rw [h₃.2] at hm' hb₁
            change s.2.nodes.get? a.decodeNode = some m at hm'
            rw [show s.2.nodes.get? a.decodeNode = some n from hn, Option.some_inj] at hm'
            subst hm'
            obtain ⟨m, n₂, hm, hdec', heng₂, hb₂⟩ := run_onNode hdec
            have hm' : s₄.2.toBookkeeping.nodes.get? a.decodeNode = some m := hm
            rw [hb₁, Bookkeeping.setNode, PyDict.get?_set_self, Option.some_inj] at hm'
            subst hm'
            have hs₆ := run_modifyCluster hent
            have heng : s₆.1 = s₃.1 := by
              rw [hs₆]
              exact heng₂.trans heng₁
            have hb₅ : s₅.2.toBookkeeping = { s.2.toBookkeeping.setNode a.decodeNode n₂ with
                pendingTransfers := s.2.pendingTransfers.erase base.transferId } := by
              rw [hb₂, hb₁]
              simp only [Bookkeeping.setNode, PyDict.set_set_self]
            have hb₆ : s₆.2.toBookkeeping = { s.2.toBookkeeping.setNode a.decodeNode n₂ with
                pendingTransfers := s.2.pendingTransfers.erase base.transferId
                entered := s.2.entered ++ [info.requestId] } := by
              have hentered : ∀ c : Cluster ς,
                  ({ c with entered := c.entered ++ [info.requestId] } : Cluster ς).toBookkeeping =
                    { c.toBookkeeping with
                      entered := c.toBookkeeping.entered ++ [info.requestId] } := fun _ => rfl
              rw [hs₆, hentered, hb₅]
              rfl
            have h₇ := run_wakeBatchStep hwake
            rw [hb₆] at h₇
            refine ⟨_, _, .transferAccepted hinfo ha hpool hn₀ (not_le.1 hfull) hadm' hdec' rfl,
              ?_, h₇.2⟩
            exact h₃.1.append (heng ▸ h₇.1)

theorem handles_onDecodeComplete {r : RequestId} {id : NodeId}
    (h : (w.onDecodeComplete r id).run s = .ok u s') :
    Handled w s (.decodeComplete r id) s' := by
  rw [onDecodeComplete] at h
  obtain ⟨n, s₁, hnode, hrest⟩ := Py.bind_eq_ok.1 h
  obtain ⟨hpool, hn, rfl⟩ := run_nodeOf hnode
  obtain ⟨pr, s₂, hcomp, hrest⟩ := Py.bind_eq_ok.1 hrest
  obtain ⟨_, s₃, hrel, hrest⟩ := Py.bind_eq_ok.1 hrest
  obtain ⟨_, s₄, hforget, hrest⟩ := Py.bind_eq_ok.1 hrest
  obtain ⟨m, n', hm, hc, h₂⟩ := run_completeOn hcomp
  have h₃ := h₂.trans (run_onCm_except hrel)
  rw [h₂.2] at h₃
  obtain rfl := run_modifyCluster hforget
  rw [Py.run_get_bind] at hrest
  have h₄ := run_wakeBatchStep hrest
  have hb : (s₃.2.toBookkeeping.drop r) =
      ((s₁.2.toBookkeeping.setNode id n').promoted id pr).drop r := by rw [h₃.2]
  have hnow : s₃.1.now = s₁.1.now := h₃.now_eq
  refine ⟨_, _, .decodeFinished hpool hm hc rfl, ?_⟩
  rw [← hb, ← hnow]
  exact ⟨h₃.1.append h₄.1, h₄.2⟩

/-- The part of a batch step for a node with work. -/
theorem run_runBatchStep {id : NodeId} (h : (w.runBatchStep id).run s = .ok u s') :
    ∃ (n n' : MockEngineNode) (T : Time) (completed streams : List RequestId)
      (pf : Option RequestId) (b₁ : Bookkeeping),
      s.2.nodes.get? id = some n ∧
      (MockEngineNode.tickBatchStep s.1.now).run n = .ok (T, completed, pf) n' ∧
      streams.Nodup ∧ (∀ r, r ∈ streams ↔ r ∈ n'.decoding ∨ r ∈ completed) ∧
      (∀ r ∈ streams, (n'.outputTokens.get? r).isSome) ∧
      b₁ = { s.2.toBookkeeping.setNode id n' with
        steps := s.2.steps ++ [⟨id, s.1.now, some (n.decoding.card, T)⟩] } ∧
      Emits s (prefillEvents s.2.toBookkeeping id T pf ++ (tokenEvents n' T streams ++
        (completionEvents id T completed ++ b₁.wakeEvents id T))) (b₁.wake id) s' := by
  rw [runBatchStep, Py.run_get_bind] at h
  dsimp only at h
  obtain ⟨n, s₁, hnode, h₁⟩ := Py.bind_eq_ok.1 h
  obtain ⟨-, hn, rfl⟩ := run_nodeOf hnode
  obtain ⟨⟨T, completed, pf⟩, s₂, htick, h₂⟩ := Py.bind_eq_ok.1 h₁
  obtain ⟨_, s₃, hmod, h₃⟩ := Py.bind_eq_ok.1 h₂
  obtain ⟨_, s₄, hpf, h₄⟩ := Py.bind_eq_ok.1 h₃
  obtain ⟨n₂, s₅, hnode₂, h₅⟩ := Py.bind_eq_ok.1 h₄
  obtain ⟨-, hn₂, rfl⟩ := run_nodeOf hnode₂
  rw [Py.run_get_bind] at h₅
  dsimp only at h₅
  obtain ⟨_, s₆, htok, h₆⟩ := Py.bind_eq_ok.1 h₅
  obtain ⟨_, s₇, hcomp, hwake⟩ := Py.bind_eq_ok.1 h₆
  obtain ⟨m, n', hm, hop, heng, hb⟩ := run_onNode htick
  rw [hn, Option.some_inj] at hm
  subst hm
  have hs₃ := run_modifyCluster hmod
  have heng₃ : s₃.1 = s₁.1 := by
    rw [hs₃]
    exact heng
  have hb₃ : s₃.2.toBookkeeping = { s₁.2.toBookkeeping.setNode id n' with
      steps := s₁.2.steps ++ [⟨id, s₁.1.now, some (n.decoding.card, T)⟩] } := by
    have hsteps : ∀ (c : Cluster ς) (x : BatchStep),
        ({ c with steps := c.steps ++ [x] } : Cluster ς).toBookkeeping =
          { c.toBookkeeping with steps := c.toBookkeeping.steps ++ [x] } := fun _ _ => rfl
    rw [hs₃, hsteps, hb]
    rfl
  have hreq : s₃.2.toBookkeeping.requests = s₁.2.toBookkeeping.requests := by
    rw [hb₃]
    rfl
  have h₄ := run_emitPrefillComplete hpf
  have hprefill : prefillEvents s₃.2.toBookkeeping id T pf =
      prefillEvents s₁.2.toBookkeeping id T pf := by
    cases pf with
    | none => rfl
    | some q => simp only [prefillEvents, hreq]
  rw [hprefill] at h₄
  have hn' : n₂ = n' := by
    have hget : s₅.2.toBookkeeping.nodes.get? id = some n₂ := hn₂
    rw [h₄.2, hb₃] at hget
    exact (Option.some_inj.1 ((PyDict.get?_set_self _ _ _).symm.trans hget)).symm
  subst hn'
  obtain ⟨hout, h₅⟩ := run_emitTokens hn₂ htok
  have h₆ := run_emitCompletions hcomp
  have h₇ := run_wakeBatchStep hwake
  have hall := h₄.trans (h₅.trans (h₆.trans h₇))
  rw [h₆.2, h₅.2, h₄.2, hb₃] at hall
  refine ⟨n, n₂, T, completed, _, pf, _, hn, hop, w.streamOrder.nodup _ _, ?_, hout, rfl, ?_, hall.2⟩
  · intro r
    rw [w.streamOrder.mem_iff, Finset.mem_union, List.mem_toFinset]
  · exact heng₃ ▸ hall.1

theorem handles_onDecodeBatchStep {id : NodeId}
    (h : (w.onDecodeBatchStep id).run s = .ok u s') :
    Handled w s (.decodeBatchStep id) s' := by
  rw [onDecodeBatchStep, Py.run_get_bind] at h
  dsimp only at h
  obtain ⟨n, s₁, hnode, h₁⟩ := Py.bind_eq_ok.1 h
  obtain ⟨-, hn, rfl⟩ := run_nodeOf hnode
  obtain ⟨_, s₂, hmark, h₂⟩ := Py.bind_eq_ok.1 h₁
  obtain ⟨m, n', hm, hop, heng, hb⟩ := run_onNode hmark
  rw [hn, Option.some_inj] at hm
  subst hm
  rw [MockEngineNode.markBatchStepCompleted, EStateM.run_modify, EStateM.Result.ok.injEq] at hop
  obtain ⟨-, rfl⟩ := hop
  by_cases hw : n.hasWork = true
  · rw [if_pos hw] at h₂
    obtain ⟨m, n', T, completed, streams, pf, b₁, hm, htick, hnd, hmem, hout, hb₁, h₃⟩ :=
      run_runBatchStep h₂
    have hm' : s₂.2.toBookkeeping.nodes.get? id = some m := hm
    rw [hb, Bookkeeping.setNode, PyDict.get?_set_self, Option.some_inj] at hm'
    subst hm'
    have hnow : s₂.1.now = s₁.1.now := by rw [heng]
    have hsteps : s₂.2.toBookkeeping.steps = s₁.2.toBookkeeping.steps := by
      rw [hb]
      rfl
    have hreq : ∀ q, s₂.2.toBookkeeping.requests.get? q = s₁.2.toBookkeeping.requests.get? q := by
      intro q
      rw [hb]
      rfl
    have hprefill : prefillEvents s₂.2.toBookkeeping id T pf =
        prefillEvents s₁.2.toBookkeeping id T pf := by
      cases pf with
      | none => rfl
      | some q => simp only [prefillEvents, hreq]
    have hset : s₂.2.toBookkeeping.setNode id n' = s₁.2.toBookkeeping.setNode id n' := by
      rw [hb]
      simp only [Bookkeeping.setNode, PyDict.set_set_self]
    rw [hnow, hsteps, hset] at hb₁
    rw [hnow] at htick
    rw [hprefill] at h₃
    exact ⟨_, _, .stepRun hn hw htick hnd hmem hout hb₁, heng ▸ h₃.1, h₃.2⟩
  · rw [if_neg hw] at h₂
    have hs' := run_modifyCluster h₂
    have hidle : n.hasWork = false := by simpa using hw
    refine ⟨_, _, .stepIdle hn hidle, ?_, ?_⟩
    · rw [hs', heng]
      exact .nil _
    · have hsteps : ∀ (c : Cluster ς) (x : BatchStep),
          ({ c with steps := c.steps ++ [x] } : Cluster ς).toBookkeeping =
            { c.toBookkeeping with steps := c.toBookkeeping.steps ++ [x] } := fun _ _ => rfl
      rw [hs', hsteps, hb]
      rfl

/-- **A handler that returns does what `Handles` says.** -/
theorem handles_of_run {p : Payload} (h : (w.handle p).run s = .ok u s') :
    Handled w s p s' := by
  have hnone : (pure () : Py (Simulator ς) Unit).run s = .ok u s' → s' = s := by
    intro h
    rw [EStateM.run_pure, EStateM.Result.ok.injEq] at h
    exact h.2.symm
  cases p with
  | requestArrive req => exact handles_onArrive h
  | requestRejected r reason =>
      obtain rfl := hnone h
      exact ⟨_, _, .rejected r reason, .refl _⟩
  | scheduled r dec mt mb =>
      obtain rfl := hnone h
      exact ⟨_, _, .scheduled r dec mt mb, .refl _⟩
  | prefillStart r p req k => exact handles_onPrefillStart h
  | prefillComplete r p req => exact handles_onPrefillComplete h
  | kvTransferStart base =>
      obtain rfl := hnone h
      exact ⟨_, _, .transferStarted base, .refl _⟩
  | kvTransferComplete base req => exact handles_onKvTransferComplete h
  | decodeBatchStep id => exact handles_onDecodeBatchStep h
  | tokenGenerated r i =>
      obtain rfl := hnone h
      exact ⟨_, _, .token r i, .refl _⟩
  | decodeComplete r id => exact handles_onDecodeComplete h

/-- The event that a turn handles, and what it does. -/
structure TurnOf (w : Wiring ς) (s : Simulator ς) (ev : Event Payload) (rest : List (Event Payload))
    (out : List (Time × Payload)) (s' : Simulator ς) : Prop where
  events : s.1.queue.events = ev :: rest
  handles : Handles w ev.time (Simulator.uncachedAt (s.1.advance ev rest events, s.2) ev.payload)
    s.2.toBookkeeping ev.payload out s'.2.toBookkeeping
  pushes : Pushes (s.1.advance ev rest events) out s'.1

/-- A turn that returns does nothing, on an empty queue, or handles the first event. -/
theorem turn_cases (h : (SimulationEngine.turn w.handlers).run s = .ok u s') :
    (s.1.queue.events = [] ∧ s' = s) ∨ ∃ ev rest out, TurnOf w s ev rest out s' := by
  cases hq : s.1.queue.events with
  | nil =>
      rw [SimulationEngine.run_turn_nil _ hq, EStateM.Result.ok.injEq] at h
      exact Or.inl ⟨rfl, h.2.symm⟩
  | cons ev rest =>
      rw [SimulationEngine.run_turn_cons _ hq, handlers, Py.run_forM_cons] at h
      obtain ⟨_, s₁, hhandle, hpure⟩ := Py.bind_eq_ok.1 h
      cases hpure
      obtain ⟨out, b, hh, hpush, hb⟩ := handles_of_run hhandle
      exact Or.inr ⟨ev, rest, out, hq, hb ▸ hh, hpush⟩

/-- The nodes before the first event. -/
theorem start_node {sched : ς} {cm : CacheManager} {tm : TransferModel} {id : NodeId}
    {n : MockEngineNode} (h : (w.start sched cm tm).2.nodes.get? id = some n) :
    ∃ spec ∈ w.prefillNodes ++ w.decodeNodes, spec.nodeId = id ∧ n = spec.node := by
  have hfold : ∀ (specs : List NodeSpec) (d : PyDict NodeId MockEngineNode),
      (specs.foldl (fun d s => d.set s.nodeId s.node) d).get? id = some n →
        d.get? id = some n ∨ ∃ spec ∈ specs, spec.nodeId = id ∧ n = spec.node := by
    intro specs
    induction specs with
    | nil => exact fun d h => Or.inl h
    | cons spec specs ih =>
        intro d h
        rcases ih _ h with h | ⟨spec', hmem, hid, hn⟩
        · by_cases hid : id = spec.nodeId
          · subst hid
            rw [PyDict.get?_set_self, Option.some_inj] at h
            exact Or.inr ⟨spec, List.mem_cons_self .., rfl, h.symm⟩
          · rw [PyDict.get?_set_of_ne _ _ hid] at h
            exact Or.inl h
        · exact Or.inr ⟨spec', List.mem_cons_of_mem _ hmem, hid, hn⟩
  rcases hfold _ _ h with h | h
  · cases h
  · exact h

/-- The arrival of a request has been scheduled. -/
theorem run_arrive {t : Time} {req : Request} (h : (w.act (.arrive t req)).run s = .ok u s') :
    Pushes s.1 [(t, .requestArrive req)] s'.1 ∧ s'.2 = s.2 := by
  obtain ⟨eng, hrun, rfl⟩ := Py.run_onPart_eq_ok.1 h
  obtain ⟨hle, rfl⟩ := SimulationEngine.run_schedule_ok_iff.1 hrun
  exact ⟨.single hle, rfl⟩

/-- **What holds at the start and is kept by arrivals and by turns holds in every state reached.** -/
theorem Reaches.invariant {meets : Simulator ς → Action → Prop} {I : Simulator ς → Prop}
    (hstart : ∀ sched cm tm, I (w.start sched cm tm))
    (harrive : ∀ s s' t req, w.Reaches meets s → I s → meets s (.arrive t req) →
      Pushes s.1 [(t, .requestArrive req)] s'.1 → s'.2 = s.2 → I s')
    (hturn : ∀ s s' ev rest out, w.Reaches meets s → I s → meets s .turn →
      TurnOf w s ev rest out s' → I s')
    (h : w.Reaches meets s) : I s := by
  induction h with
  | start sched cm tm => exact hstart sched cm tm
  | @step s s' a h ha hrun ih =>
      cases a with
      | arrive t req =>
          obtain ⟨hpush, hc⟩ := run_arrive hrun
          exact harrive s s' t req h ih ha hpush hc
      | turn =>
          rcases turn_cases hrun with ⟨-, rfl⟩ | ⟨ev, rest, out, ht⟩
          · exact ih
          · exact hturn s s' ev rest out h ih ha ht

end Wiring

end NanoKVRouter
