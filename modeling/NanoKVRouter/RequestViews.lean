/-
**What the state holds for a request.**

The nodes, the maps of the handlers and the event queue each hold a part of a request.  The calls of
the handlers are read here from the point of view of one request: which part they change, and that
the parts of the other requests stay as they are.

Main definitions:

* `MockEngineNode.viewOf`, `Bookkeeping.nodeView` — what a node keeps of a request;
* `Kept`, `Known` — the bookkeeping, and the engine, has what a stage says of a request.

Main results:

* `MockEngineNode.Ticked.viewOf_decoding`, `MockEngineNode.Ticked.viewOf_pipeline` — a batch step for
  a stream and for a prefill;
* `Known.moves` — **the engine keeps to the moves of a request, whatever the handlers do**.
-/

import NanoKVRouter.RequestLife
import NanoKVRouter.SimulatorSteps

set_option relaxedAutoImplicit false
set_option autoImplicit false

namespace NanoKVRouter

/-! ### What a node keeps of a request -/

namespace MockEngineNode

variable {n n' : MockEngineNode} {r r' : RequestId}

/-- What the node keeps of a request. -/
def viewOf (n : MockEngineNode) (r : RequestId) : NodeView where
  running := n.runningRequests.count r
  queued := n.queue.count r
  decoding := decide (r ∈ n.decoding)
  pipeline := n.prefillRemaining.get? r
  generated := n.outputTokens.get? r
  expected := n.expectedOutput.get? r

theorem SameLists.viewOf (h : SameLists n n') (r : RequestId) : n'.viewOf r = n.viewOf r := by
  simp only [MockEngineNode.viewOf, h.runningRequests, h.queue, h.decoding, h.prefillRemaining,
    h.outputTokens, h.expectedOutput]

theorem viewOf_admitted_of_ne {e : ℤ} (h : r ≠ r') : (n.admitted r' e).viewOf r = n.viewOf r := by
  rw [admitted]
  split
  · simp [viewOf, PyDict.get?_set_of_ne _ _ h, Ne.symm h]
  · simp [viewOf, Ne.symm h]

/-- An admission on a node with room. -/
theorem viewOf_admitted_room {e : ℤ} (h : n.HasRoom) (hr : n.viewOf r = .idle) :
    (n.admitted r e).viewOf r = .slot 0 e := by
  simp only [viewOf, NodeView.idle, NodeView.mk.injEq] at hr
  obtain ⟨h₁, h₂, h₃, h₄, -, -⟩ := hr
  rw [admitted, if_pos h]
  simp only [viewOf, NodeView.slot, List.count_append, h₁, h₂, h₃, h₄, PyDict.get?_set_self]
  simp

/-- An admission on a full node. -/
theorem viewOf_admitted_full {e : ℤ} (h : ¬ n.HasRoom) (hr : n.viewOf r = .idle) :
    (n.admitted r e).viewOf r = .queuedOnly := by
  simp only [viewOf, NodeView.idle, NodeView.mk.injEq] at hr
  obtain ⟨h₁, h₂, h₃, h₄, h₅, h₆⟩ := hr
  rw [admitted, if_neg h]
  simp only [viewOf, NodeView.queuedOnly, List.count_append, h₁, h₂, h₃, h₄, h₅, h₆]
  simp

/-- A request that is taken off the running list of a node. -/
theorem viewOf_without_of_ne (hr' : r' ∈ n.runningRequests) (h : r ≠ r') :
    (n.without r').viewOf r = n.viewOf r := by
  simp [viewOf, without, hr', List.count_erase_of_ne h, Finset.mem_erase, h,
    PyDict.get?_erase_of_ne _ h]

theorem viewOf_without_self (h₁ : (n.viewOf r).running = 1) (h₂ : (n.viewOf r).queued = 0) :
    (n.without r).viewOf r = .idle := by
  have hr : r ∈ n.runningRequests := List.count_pos_iff.1 (by
    change n.runningRequests.count r = 1 at h₁
    omega)
  change n.runningRequests.count r = 1 at h₁
  change n.queue.count r = 0 at h₂
  simp [viewOf, without, hr, NodeView.idle, List.count_erase_self, h₁, h₂]

/-- A request that is not promoted. -/
theorem viewOf_afterPromote_of_ne (h : n.nextPromoted ≠ some r) :
    n.afterPromote.viewOf r = n.viewOf r := by
  rw [afterPromote]
  cases hq : n.nextPromoted with
  | none => rfl
  | some q =>
      have hne : q ≠ r := by
        rintro rfl
        exact h hq
      obtain ⟨rest, hqueue⟩ : ∃ rest, n.queue = q :: rest := by
        rw [nextPromoted] at hq
        split at hq
        · exact List.head?_eq_some_iff.1 hq
        · cases hq
      simp only [viewOf, modifyState_runningRequests, modifyState_queue, modifyState_decoding,
        modifyState_prefillRemaining, modifyState_outputTokens, modifyState_expectedOutput, hqueue]
      simp [hne]

/-- The request that is promoted. -/
theorem viewOf_afterPromote_self (h : n.nextPromoted = some r) (hr : n.viewOf r = .queuedOnly) :
    n.afterPromote.viewOf r = { NodeView.queuedOnly with running := 1, queued := 0 } := by
  simp only [viewOf, NodeView.queuedOnly, NodeView.mk.injEq] at hr
  obtain ⟨h₁, h₂, h₃, h₄, h₅, h₆⟩ := hr
  obtain ⟨rest, hqueue⟩ : ∃ rest, n.queue = r :: rest := by
    rw [nextPromoted] at h
    split at h
    · exact List.head?_eq_some_iff.1 h
    · cases h
  rw [hqueue, List.count_cons_self] at h₂
  simp only [afterPromote, h, viewOf, modifyState_runningRequests, modifyState_queue,
    modifyState_decoding, modifyState_prefillRemaining, modifyState_outputTokens,
    modifyState_expectedOutput, hqueue, List.tail_cons, List.count_append, h₁, h₃, h₄, h₅, h₆]
  simp [NodeView.queuedOnly, Nat.succ.inj h₂]

/-- A completion of a running request. -/
theorem completes_eq {pr : Option RequestId} (h : Completes n r pr n')
    (hr : r ∈ n.runningRequests) :
    pr = (n.without r).nextPromoted ∧ n' = (n.without r).afterPromote := by
  rcases h with h | ⟨-, -, hr', -⟩
  · rw [run_complete (Or.inl hr), EStateM.Result.ok.injEq] at h
    exact ⟨h.1.symm, h.2.symm⟩
  · exact absurd hr hr'

/-! ### Batch steps -/

section Ticked

variable {now T : Time} {completed : List RequestId} {pf : Option RequestId}

/-- The pipeline after a batch step: nothing has changed for the requests behind its head. -/
theorem Ticked.pipeline_cases (h : Ticked n now T completed pf n') (r : RequestId) :
    (pf ≠ some r ∧ n'.prefillRemaining.get? r = n.prefillRemaining.get? r) ∨
      ∃ u, n.prefillRemaining.get? r = some u ∧
        ((pf = some r ∧ n'.prefillRemaining.get? r = none) ∨
          (pf ≠ some r ∧ n.modelConfig.prefillChunkSize < u ∧
            n'.prefillRemaining.get? r = some (u - n.modelConfig.prefillChunkSize))) := by
  rcases h.pipeline with ⟨-, hpf, hsame, -⟩ | ⟨q, u, rest, hent, -, hif⟩
  · exact Or.inl ⟨by rw [hpf]; simp, by rw [hsame]⟩
  · have hq : n.prefillRemaining.get? q = some u :=
      PyDict.get?_eq_some_iff.2 (hent ▸ List.mem_cons_self ..)
    by_cases hu : u ≤ n.modelConfig.prefillChunkSize
    · rw [if_pos hu] at hif
      obtain ⟨hpf, hpipe⟩ := hif
      by_cases hrq : r = q
      · subst hrq
        exact Or.inr ⟨u, hq, Or.inl ⟨hpf, by rw [hpipe, PyDict.get?_erase_self]⟩⟩
      · refine Or.inl ⟨?_, by rw [hpipe, PyDict.get?_erase_of_ne _ hrq]⟩
        rw [hpf, ne_eq, Option.some_inj]
        exact fun hqr => hrq hqr.symm
    · rw [if_neg hu] at hif
      obtain ⟨hpf, hpipe⟩ := hif
      by_cases hrq : r = q
      · subst hrq
        exact Or.inr ⟨u, hq, Or.inr ⟨by rw [hpf]; simp, not_le.1 hu,
          by rw [hpipe, PyDict.get?_set_self]⟩⟩
      · exact Or.inl ⟨by rw [hpf]; simp, by rw [hpipe, PyDict.get?_set_of_ne _ _ hrq]⟩

/-- A request that is neither in the batch nor in the pipeline. -/
theorem Ticked.viewOf_other (h : Ticked n now T completed pf n')
    (hd : (n.viewOf r).decoding = false) (hp : (n.viewOf r).pipeline = none) :
    n'.viewOf r = n.viewOf r ∧ r ∉ n.decoding ∧ r ∉ completed ∧ pf ≠ some r := by
  have hd' : r ∉ n.decoding := of_decide_eq_false hd
  have hp' : n.prefillRemaining.get? r = none := hp
  have hc : r ∉ completed := fun hc => hd' (h.completed_sub r hc)
  have hdec : r ∉ n'.decoding := fun hr => hd' ((h.decoding r).1 hr).1
  rcases h.pipeline_cases r with ⟨hpf, hpipe⟩ | ⟨u, hu, -⟩
  · refine ⟨?_, hd', hc, hpf⟩
    simp only [viewOf, h.runningRequests, h.queue, h.expectedOutput, hpipe,
      h.outputTokens_other r hd', hd', hdec]
  · rw [hp'] at hu
    cases hu

/-- A stream of the batch. -/
theorem Ticked.viewOf_decoding {g e : ℤ} (h : Ticked n now T completed pf n')
    (hv : n.viewOf r = { NodeView.slot g e with decoding := true }) :
    n'.viewOf r = { NodeView.slot (g + 1) e with decoding := decide (g + 1 < e) } ∧
      r ∈ n.decoding ∧ (r ∈ completed ↔ e ≤ g + 1) ∧ pf ≠ some r := by
  simp only [viewOf, NodeView.slot, NodeView.mk.injEq] at hv
  obtain ⟨hrun, hqueue, hdec, hpipe, hgen, hexp⟩ := hv
  have hd : r ∈ n.decoding := of_decide_eq_true hdec
  obtain ⟨g', e', hg', he', hout, hc⟩ := h.outputTokens r hd
  rw [hgen, Option.some_inj] at hg'
  rw [hexp, Option.some_inj] at he'
  subst hg' he'
  rcases h.pipeline_cases r with ⟨hpf, hsame⟩ | ⟨u, hu, -⟩
  · refine ⟨?_, hd, hc, hpf⟩
    have hdec' : r ∈ n'.decoding ↔ g + 1 < e := by
      rw [h.decoding r, hc, not_le]
      exact and_iff_right hd
    simp only [viewOf, NodeView.slot, h.runningRequests, h.queue, h.expectedOutput, hsame, hrun,
      hqueue, hpipe, hexp, hout, hdec']
  · rw [hpipe] at hu
    cases hu

/-- A request of the pipeline. -/
theorem Ticked.viewOf_pipeline {u e : ℤ} (h : Ticked n now T completed pf n')
    (hv : n.viewOf r = { NodeView.slot 0 e with pipeline := some u }) :
    r ∉ n.decoding ∧ r ∉ completed ∧
      ((pf = some r ∧ n'.viewOf r = NodeView.slot 0 e) ∨
        (pf ≠ some r ∧ ∃ u', (u' = u ∨ (0 < u' ∧ u' < u)) ∧
          n'.viewOf r = { NodeView.slot 0 e with pipeline := some u' })) := by
  simp only [viewOf, NodeView.slot, NodeView.mk.injEq] at hv
  obtain ⟨hrun, hqueue, hdec, hpipe, hgen, hexp⟩ := hv
  have hd : r ∉ n.decoding := of_decide_eq_false hdec
  have hc : r ∉ completed := fun hc => hd (h.completed_sub r hc)
  have hdec' : r ∉ n'.decoding := fun hr => hd ((h.decoding r).1 hr).1
  have hview : n'.viewOf r = { NodeView.slot 0 e with
      pipeline := n'.prefillRemaining.get? r } := by
    simp only [viewOf, NodeView.slot, h.runningRequests, h.queue, h.expectedOutput, hrun, hqueue,
      hexp, h.outputTokens_other r hd, hgen, hdec', decide_false]
  refine ⟨hd, hc, ?_⟩
  rcases h.pipeline_cases r with ⟨hpf, hsame⟩ | ⟨v, hv, ⟨hpf, hnone⟩ | ⟨hpf, hlt, hsome⟩⟩
  · exact Or.inr ⟨hpf, u, Or.inl rfl, by rw [hview, hsame, hpipe]⟩
  · exact Or.inl ⟨hpf, by rw [hview, hnone]; rfl⟩
  · rw [hpipe, Option.some_inj] at hv
    subst hv
    have hone := n.modelConfig.one_le_prefillChunkSize
    exact Or.inr ⟨hpf, u - n.modelConfig.prefillChunkSize, Or.inr ⟨by omega, by omega⟩,
      by rw [hview, hsome]⟩

/-- A step of a batch takes time. -/
theorem Ticked.now_lt (h : Ticked n now T completed pf n') (hr : r ∈ n.decoding)
    (hu : ∀ q u, n.prefillRemaining.get? q = some u → 0 ≤ u) : now < T := by
  have hcard : 0 < n.decoding.card := Finset.card_pos.2 ⟨r, hr⟩
  have hdecode : 0 < n.estimateDecodeTime n.decoding.card := by
    have hbase := n.modelConfig.decodeBaseMs_pos
    have hmarg := n.modelConfig.marginalDecodeMs_pos
    have hbs : (0 : ℚ) ≤ ((n.decoding.card : ℤ) : ℚ) := by exact_mod_cast Nat.zero_le _
    rw [estimateDecodeTime]
    exact add_pos_of_pos_of_nonneg hbase (mul_nonneg hbs hmarg.le)
  rcases h.pipeline with ⟨-, -, -, hT⟩ | ⟨q, u, rest, hent, hT, -⟩
  · rw [hT, if_pos hcard]
    exact lt_add_of_pos_right now hdecode
  · have hq : n.prefillRemaining.get? q = some u :=
      PyDict.get?_eq_some_iff.2 (hent ▸ List.mem_cons_self ..)
    have hmin : (0 : ℤ) ≤ min u n.modelConfig.prefillChunkSize := le_min (hu q u hq) (by omega)
    have hchunk : 0 ≤ ((min u n.modelConfig.prefillChunkSize : ℤ) : ℚ) *
        n.modelConfig.prefillCostPerTokenMs :=
      mul_nonneg (by exact_mod_cast hmin) n.modelConfig.prefillCostPerTokenMs_pos.le
    rw [hT, if_pos hcard]
    exact lt_add_of_pos_right now (add_pos_of_nonneg_of_pos hchunk hdecode)

end Ticked

end MockEngineNode

/-! ### The bookkeeping of a request -/

namespace Bookkeeping

variable {b : Bookkeeping} {x p : NodeId} {r : RequestId} {n n' : MockEngineNode} {v v' : NodeView}

/-- What a node keeps of a request; a node that is not there keeps nothing. -/
def nodeView (b : Bookkeeping) (x : NodeId) (r : RequestId) : NodeView :=
  match b.nodes.get? x with
  | none => .idle
  | some n => n.viewOf r

theorem nodeView_of_get? (h : b.nodes.get? x = some n) : b.nodeView x r = n.viewOf r := by
  rw [nodeView, h]

theorem nodeView_setNode_self : (b.setNode p n').nodeView p r = n'.viewOf r :=
  nodeView_of_get? (PyDict.get?_set_self ..)

theorem nodeView_setNode_of_ne (h : x ≠ p) : (b.setNode p n').nodeView x r = b.nodeView x r := by
  simp only [nodeView, setNode, PyDict.get?_set_of_ne _ _ h]

/-- A call on a node that changes nothing for a request. -/
theorem nodeView_setNode_same (hn : b.nodes.get? p = some n) (h : n'.viewOf r = n.viewOf r)
    (x : NodeId) : (b.setNode p n').nodeView x r = b.nodeView x r := by
  by_cases hx : x = p
  · rw [hx, nodeView_setNode_self, nodeView_of_get? hn, h]
  · exact nodeView_setNode_of_ne hx

/-- A call on the only node that has something of a request. -/
theorem nodeView_setNode_only (h : ∀ y, b.nodeView y r = only p v y) (hv : n'.viewOf r = v')
    (x : NodeId) : (b.setNode p n').nodeView x r = only p v' x := by
  by_cases hx : x = p
  · rw [hx, nodeView_setNode_self, only_self, hv]
  · rw [nodeView_setNode_of_ne hx, h x, only_of_ne _ hx, only_of_ne _ hx]

theorem only_idle (p x : NodeId) : only p .idle x = .idle := by
  rw [only]
  split <;> rfl

/-- A wake-up changes the flag of a node only. -/
theorem nodeView_wake (b : Bookkeeping) (id x : NodeId) (r : RequestId) :
    (b.wake id).nodeView x r = b.nodeView x r := by
  rcases b.wake_cases id 0 with ⟨-, hb, -⟩ | ⟨n, hn, -, -, -, hb⟩
  · rw [hb]
  · rw [hb]
    have hsame : ({ n with batchStepInFlight := true } : MockEngineNode).viewOf r = n.viewOf r := rfl
    exact nodeView_setNode_same hn hsame x

end Bookkeeping

/-- The bookkeeping has what the stage says of the request `r`. -/
structure Kept (b : Bookkeeping) (r : RequestId) (st : Stage) : Prop where
  node : ∀ x, b.nodeView x r = st.node x
  assignment : b.decisions.get? r = st.assignment
  stored : b.requests.get? r = st.stored
  transfers : b.pendingTransfers.entries.filter (fun e => e.2.requestId = r) = st.transfers r
  entered : b.entered.count r = st.entered

/-- The engine has what the stage says of the request `r`. -/
structure Known (eng : SimulationEngine Payload) (r : RequestId) (st : Stage) : Prop where
  pending : carrying r (eng.queue.events.map Event.payload) = st.pending r
  arrived : (eng.processed.filterMap fun ev => ev.payload.arrival?).filter
    (fun req => req.requestId = r) = st.arrived
  ended : (eng.processed.map Event.payload).filter (fun p => p.Ends r) = st.ended r

namespace Kept

variable {b b' : Bookkeeping} {r : RequestId} {st : Stage}

/-- Nothing has changed for the request. -/
theorem congr (h : Kept b r st) (hnode : ∀ x, b'.nodeView x r = b.nodeView x r)
    (hd : b'.decisions.get? r = b.decisions.get? r) (hq : b'.requests.get? r = b.requests.get? r)
    (ht : b'.pendingTransfers.entries.filter (fun e => e.2.requestId = r) =
      b.pendingTransfers.entries.filter fun e => e.2.requestId = r)
    (he : b'.entered.count r = b.entered.count r) : Kept b' r st :=
  ⟨fun x => (hnode x).trans (h.node x), hd.trans h.assignment, hq.trans h.stored,
    ht.trans h.transfers, he.trans h.entered⟩

/-- A wake-up changes nothing for the requests. -/
theorem wake (h : Kept b r st) (id : NodeId) : Kept (b.wake id) r st :=
  h.congr (fun x => b.nodeView_wake id x r) (by rw [Bookkeeping.wake_decisions])
    (by rw [Bookkeeping.wake_requests]) (by rw [Bookkeeping.wake_pendingTransfers])
    (by rw [Bookkeeping.wake_entered])

/-- A call on a node that changes nothing for the request. -/
theorem setNode {p : NodeId} {n n' : MockEngineNode} (h : Kept b r st)
    (hn : b.nodes.get? p = some n) (hv : n'.viewOf r = n.viewOf r) : Kept (b.setNode p n') r st :=
  h.congr (Bookkeeping.nodeView_setNode_same hn hv) rfl rfl rfl rfl

end Kept

/-! ### The events of a request -/

theorem Payload.Ends.carries {r : RequestId} {p : Payload} (h : p.Ends r) : p.Carries r := by
  cases p with
  | requestRejected r' reason => exact ⟨h, rfl⟩
  | decodeComplete r' d => exact ⟨h, rfl⟩
  | _ => cases h

theorem Payload.carries_of_arrival {req : Request} {p : Payload} (h : p.arrival? = some req) :
    p.Carries req.requestId := by
  cases p with
  | requestArrive req' =>
      cases h
      exact ⟨rfl, rfl⟩
  | _ => cases h

/-- The event that is handled is the only one that carries its request on. -/
theorem Stage.eq_pending {r : RequestId} {p : Payload} {st : Stage} (h : p ∈ st.pending r) :
    st.pending r = {p} := by
  cases st <;> simp only [Stage.pending, Multiset.notMem_zero, Multiset.mem_singleton] at h ⊢ <;>
    rw [h]

namespace Known

variable {eng eng' : SimulationEngine Payload} {r : RequestId} {st st' : Stage}
  {ev : Event Payload} {rest : List (Event Payload)} {out : List (Time × Payload)}

/-- The events that carry a request on. -/
theorem carries_of_mem (h : Known eng r st) {p : Payload} (hp : p ∈ st.pending r) :
    p.Carries r := by
  rw [← h.pending, carrying, Multiset.mem_coe, List.mem_filter] at hp
  exact of_decide_eq_true hp.2

/-- The event that is handled carries the request on: no other one does. -/
theorem pending_of_carries (h : Known eng r st) (hq : eng.queue.events = ev :: rest)
    (hp : ev.payload.Carries r) :
    st.pending r = {ev.payload} ∧ carrying r (rest.map Event.payload) = 0 := by
  have hcons := h.pending
  rw [hq, List.map_cons, carrying_cons, if_pos hp] at hcons
  have hmem : ev.payload ∈ st.pending r := by
    rw [← hcons, Multiset.mem_add]
    exact Or.inl (Multiset.mem_singleton_self _)
  have hone := Stage.eq_pending hmem
  rw [hone] at hcons
  exact ⟨hone, add_eq_left.1 hcons⟩

/-- The event that is handled does not carry the request on. -/
theorem pending_of_not (h : Known eng r st) (hq : eng.queue.events = ev :: rest)
    (hp : ¬ ev.payload.Carries r) : carrying r (rest.map Event.payload) = st.pending r := by
  have hcons := h.pending
  rw [hq, List.map_cons, carrying_cons, if_neg hp, zero_add] at hcons
  exact hcons

/-- The queue after a turn. -/
theorem carrying_pushes (hq : eng.queue.events = ev :: rest)
    (hpush : Pushes (eng.advance ev rest hq) out eng') (r : RequestId) :
    carrying r (eng'.queue.events.map Event.payload) =
      carrying r (rest.map Event.payload) + carrying r ((own r out).map Prod.snd) := by
  rw [carrying_own, carrying_perm hpush.perm, carrying_append, SimulationEngine.advance_events]

/-- The arrivals handled after a turn. -/
theorem arrived_pushes (h : Known eng r st) (hq : eng.queue.events = ev :: rest)
    (hpush : Pushes (eng.advance ev rest hq) out eng') :
    (eng'.processed.filterMap fun ev => ev.payload.arrival?).filter
      (fun req => req.requestId = r) =
        st.arrived ++ ev.payload.arrival?.toList.filter fun req => req.requestId = r := by
  rw [hpush.processed_eq, SimulationEngine.advance_processed, List.filterMap_append,
    List.filter_append, h.arrived]
  cases hev : ev.payload.arrival? <;> simp [hev]

/-- The ends handled after a turn. -/
theorem ended_pushes (h : Known eng r st) (hq : eng.queue.events = ev :: rest)
    (hpush : Pushes (eng.advance ev rest hq) out eng') :
    (eng'.processed.map Event.payload).filter (fun p => p.Ends r) =
      st.ended r ++ [ev.payload].filter fun p => p.Ends r := by
  rw [hpush.processed_eq, SimulationEngine.advance_processed, List.map_append, List.filter_append,
    h.ended]
  rfl

/-- The event that is handled carries the request on. -/
theorem carried (h : Known eng r st) (hq : eng.queue.events = ev :: rest)
    (hpush : Pushes (eng.advance ev rest hq) out eng') (hp : ev.payload ∈ st.pending r)
    (hpend : carrying r ((own r out).map Prod.snd) = st'.pending r)
    (harr : st.arrived ++ ev.payload.arrival?.toList = st'.arrived)
    (hend : st.ended r ++ [ev.payload].filter (fun p => p.Ends r) = st'.ended r) :
    Known eng' r st' := by
  have hc := h.carries_of_mem hp
  have hown : ev.payload.arrival?.toList.filter (fun req => req.requestId = r) =
      ev.payload.arrival?.toList := by
    refine List.filter_eq_self.2 fun req hreq => ?_
    have hcarries := Payload.carries_of_arrival (Option.mem_toList.1 hreq)
    simpa using hcarries.1.symm.trans hc.1
  refine ⟨?_, ?_, ?_⟩
  · rw [carrying_pushes hq hpush r, (h.pending_of_carries hq hc).2, zero_add, hpend]
  · rw [h.arrived_pushes hq hpush, hown, harr]
  · rw [h.ended_pushes hq hpush, hend]

/-- The event that is handled does not carry the request on. -/
theorem uncarried (h : Known eng r st) (hq : eng.queue.events = ev :: rest)
    (hpush : Pushes (eng.advance ev rest hq) out eng') (hp : ¬ ev.payload.Carries r)
    (hpend : st.pending r + carrying r ((own r out).map Prod.snd) = st'.pending r)
    (harr : st.arrived = st'.arrived) (hend : st.ended r = st'.ended r) : Known eng' r st' := by
  have hnone : ev.payload.arrival?.toList.filter (fun req => req.requestId = r) = [] := by
    refine List.filter_eq_nil_iff.2 fun req hreq hid => hp ?_
    have hcarries := Payload.carries_of_arrival (Option.mem_toList.1 hreq)
    rwa [of_decide_eq_true hid] at hcarries
  have hnot : ([ev.payload].filter fun p => p.Ends r) = [] := by
    refine List.filter_eq_nil_iff.2 fun p hmem hends => hp ?_
    rw [List.mem_singleton.1 hmem] at hends
    exact (of_decide_eq_true hends).carries
  refine ⟨?_, ?_, ?_⟩
  · rw [carrying_pushes hq hpush r, h.pending_of_not hq hp, hpend]
  · rw [h.arrived_pushes hq hpush, hnone, List.append_nil, harr]
  · rw [h.ended_pushes hq hpush, hnot, List.append_nil, hend]

/-- The engine keeps to the stages, whatever the handlers do. -/
theorem moves {now : Time} (h : Known eng r st)
    (hm : Stage.Moves now ev.payload out r st st') (hq : eng.queue.events = ev :: rest)
    (hpush : Pushes (eng.advance ev rest hq) out eng') : Known eng' r st' := by
  have hstep : ∀ id, ev.payload = .decodeBatchStep id → ¬ ev.payload.Carries r := by
    intro id hid hc
    rw [hid] at hc
    cases hc.1
  cases hm with
  | stay _ hp hout =>
      exact h.uncarried hq hpush hp (by rw [hout]; exact add_zero _) rfl rfl
  | reject hp hout =>
      refine h.carried hq hpush ?_ ?_ ?_ ?_
      · simp [Stage.pending, hp]
      · simp [hout, Stage.pending, carrying_cons, Payload.Carries, Payload.owner, Payload.isNotice]
      · simp [hp, Stage.arrived, Payload.arrival?]
      · simp [hp, Stage.ended, Payload.Ends, Payload.terminal?]
  | queue hp hout hq' =>
      refine h.carried hq hpush ?_ ?_ ?_ ?_
      · simp [Stage.pending, hp]
      · rw [hout, List.map_cons, carrying_cons, if_neg (not_carries_of_isNotice hq')]
        rfl
      · simp [hp, Stage.arrived, Payload.arrival?]
      · simp [hp, Stage.ended, Payload.Ends, Payload.terminal?]
  | start hp hout hq' =>
      refine h.carried hq hpush ?_ ?_ ?_ ?_
      · simp [Stage.pending, hp]
      · rw [hout, List.map_cons, carrying_cons, if_neg (not_carries_of_isNotice hq')]
        simp [Stage.pending, carrying_cons, Payload.Carries, Payload.owner, Payload.isNotice]
      · simp [hp, Stage.arrived, Payload.arrival?]
      · simp [hp, Stage.ended, Payload.Ends, Payload.terminal?]
  | promote hp hout =>
      refine h.uncarried hq hpush hp ?_ rfl rfl
      simp [hout, Stage.pending, carrying_cons, Payload.Carries, Payload.owner, Payload.isNotice]
  | skip hp hout =>
      refine h.carried hq hpush ?_ ?_ ?_ ?_
      · simp [Stage.pending, hp]
      · simp [hout, Stage.pending, carrying_cons, Payload.Carries, Payload.owner, Payload.isNotice]
      · simp [hp, Stage.arrived, Payload.arrival?]
      · simp [hp, Stage.ended, Payload.Ends, Payload.terminal?]
  | pipeline hp hout hu =>
      refine h.carried hq hpush ?_ ?_ ?_ ?_
      · simp [Stage.pending, hp]
      · rw [hout]
        rfl
      · simp [hp, Stage.arrived, Payload.arrival?]
      · simp [hp, Stage.ended, Payload.Ends, Payload.terminal?]
  | chunk hp hout hpos hlt =>
      refine h.uncarried hq hpush (hstep _ hp) ?_ rfl rfl
      rw [hout]
      rfl
  | drain hp hout hpos =>
      refine h.uncarried hq hpush (hstep _ hp) ?_ rfl rfl
      simp [hout, Stage.pending, carrying_cons, Payload.Carries, Payload.owner, Payload.isNotice]
  | @transfer req a base t₁ t₂ hp hout =>
      refine h.carried hq hpush ?_ ?_ ?_ ?_
      · simp [Stage.pending, hp]
      · have hbase : base.requestId = r := by
          have howner := owner_of_mem_own (hout ▸ List.mem_cons_self ..)
          exact Option.some_inj.1 howner
        simp [hout, Stage.pending, carrying_cons, Payload.Carries, Payload.owner,
          Payload.isNotice, hbase]
      · simp [hp, Stage.arrived, Payload.arrival?]
      · simp [hp, Stage.ended, Payload.Ends, Payload.terminal?]
  | refuse hp hout =>
      refine h.carried hq hpush ?_ ?_ ?_ ?_
      · simp [Stage.pending, hp]
      · simp [hout, Stage.pending, carrying_cons, Payload.Carries, Payload.owner, Payload.isNotice]
      · simp [hp, Stage.arrived, Payload.arrival?]
      · simp [hp, Stage.ended, Payload.Ends, Payload.terminal?]
  | enter hp hout =>
      refine h.carried hq hpush ?_ ?_ ?_ ?_
      · simp [Stage.pending, hp]
      · rw [hout]
        rfl
      · simp [hp, Stage.arrived, Payload.arrival?]
      · simp [hp, Stage.ended, Payload.Ends, Payload.terminal?]
  | token hp hout ht hg =>
      refine h.uncarried hq hpush (hstep _ hp) ?_ rfl rfl
      simp [hout, Stage.pending, carrying_cons, Payload.Carries, Payload.owner, Payload.isNotice]
  | last hp hout ht hg =>
      refine h.uncarried hq hpush (hstep _ hp) ?_ rfl rfl
      simp [hout, Stage.pending, carrying_cons, Payload.Carries, Payload.owner, Payload.isNotice]
  | finish hp hout =>
      refine h.carried hq hpush ?_ ?_ ?_ ?_
      · simp [Stage.pending, hp]
      · rw [hout]
        rfl
      · simp [hp, Stage.arrived, Payload.arrival?]
      · simp [hp, Stage.ended, Payload.Ends, Payload.terminal?]
  | dismiss hp hout =>
      refine h.carried hq hpush ?_ ?_ ?_ ?_
      · simp [Stage.pending, hp]
      · rw [hout]
        rfl
      · simp [hp, Stage.arrived, Payload.arrival?]
      · simp [hp, Stage.ended, Payload.Ends, Payload.terminal?]

end Known

end NanoKVRouter
