/-
**The admission of requests to a node.**

The calls on a node are told in a log: who was accepted or queued, whose output tracking was
initialised, who was promoted from the queue and who left it before its turn.  A stream may be
started only for a request that has been accepted or initialised since it was queued last.  Under
this one condition, in whatever order the calls come, the lists, the sets and the dictionaries of
the node fit together, a batch step never misses a counter, and the queue is first in, first out.

Main definitions:

* `NodeCall`, `NodeCall.perform` — the calls on a node, and what they tell;
* `Prepared` — since it was queued last, a request was accepted or initialised;
* `NodeRun` — the nodes and logs that the allowed calls lead to;
* `Admission` — the invariant.

Main results:

* `NodeRun.admission` — **every run keeps the invariant**;
* `node_admission` — **what holds of every node that was run**.
-/

import NanoKVRouter.MockNodeTicks

set_option relaxedAutoImplicit false
set_option autoImplicit false

namespace NanoKVRouter

open MockEngineNode

/-! ### Calls and what they tell -/

/-- What a call on a node tells. -/
inductive NodeEvent
  | accepted (requestId : RequestId)
  | queued (requestId : RequestId)
  | initialised (requestId : RequestId)
  | promoted (requestId : RequestId)
  | cancelled (requestId : RequestId)
deriving DecidableEq

/-- A call on a node. -/
inductive NodeCall
  | admitRequest (requestId : RequestId) (expectedOutputLen : ℤ)
      (promptLen uncachedTokens : Option ℤ)
  | initPromoted (requestId : RequestId) (expectedOutputLen : ℤ)
      (promptLen uncachedTokens : Option ℤ)
  | enterPrefill (requestId : RequestId) (uncachedTokens : ℤ)
  | markPrefillDone (requestId : RequestId)
  | startDecode (requestId : RequestId)
  | tickBatchStep (now : Time)
  | complete (requestId : RequestId)
deriving DecidableEq

/-- Perform a call; it returns what the call tells, the newest first. -/
def NodeCall.perform : NodeCall → Py MockEngineNode (List NodeEvent)
  | admitRequest r expectedOutputLen promptLen uncachedTokens => do
      let running ← MockEngineNode.admitRequest r expectedOutputLen promptLen uncachedTokens
      pure [if running then .accepted r else .queued r]
  | initPromoted r expectedOutputLen promptLen uncachedTokens => do
      MockEngineNode.initPromoted r expectedOutputLen promptLen uncachedTokens
      pure [.initialised r]
  | enterPrefill r uncachedTokens => do
      MockEngineNode.enterPrefill r uncachedTokens
      pure []
  | markPrefillDone r => do
      MockEngineNode.markPrefillDone r
      pure []
  | startDecode r => do
      MockEngineNode.startDecode r
      pure []
  | tickBatchStep now => do
      let _ ← MockEngineNode.tickBatchStep now
      pure []
  | complete r => do
      let node ← get
      let next ← MockEngineNode.complete r
      pure (next.toList.map .promoted ++ if r ∈ node.runningRequests then [] else [.cancelled r])

/-- Since it was queued last, the request was accepted or initialised. -/
def Prepared (r : RequestId) : List NodeEvent → Prop
  | [] => False
  | e :: past => e = .accepted r ∨ e = .initialised r ∨ e ≠ .queued r ∧ Prepared r past

/-- The caller admits a request only if it is not on the node, and starts the stream of a request
only if it is prepared. -/
def NodeCall.Allowed (n : MockEngineNode) (past : List NodeEvent) : NodeCall → Prop
  | admitRequest r _ _ _ => r ∉ n.runningRequests ∧ r ∉ n.queue
  | startDecode r => Prepared r past
  | _ => True

/-- The nodes that allowed calls lead to, with what the calls told, the newest first. -/
inductive NodeRun (start : MockEngineNode) : MockEngineNode → List NodeEvent → Prop
  | fresh : NodeRun start start []
  | returned {n n' : MockEngineNode} {past events : List NodeEvent} {call : NodeCall}
      (hrun : NodeRun start n past) (hallowed : call.Allowed n past)
      (hcall : call.perform.run n = .ok events n') : NodeRun start n' (events ++ past)
  | raised {n n' : MockEngineNode} {past : List NodeEvent} {call : NodeCall} {e : PyErr}
      (hrun : NodeRun start n past) (hallowed : call.Allowed n past)
      (hcall : call.perform.run n = .error e n') : NodeRun start n' past

/-! ### The keys of the records -/

namespace MockEngineNode

variable {n n' : MockEngineNode} {r : RequestId}

@[simp] theorem mem_keys_modifyState {q : RequestId} {f : NodeRequestState → NodeRequestState} :
    r ∈ (n.modifyState q f).states.keys ↔ r ∈ n.states.keys := by
  rw [← PyDict.contains_iff, ← PyDict.contains_iff, PyDict.contains, PyDict.contains,
    states_modifyState, Option.isSome_map]

/-- An admission makes a record. -/
theorem admitRequest_states {e : ℤ} {pl ut : Option ℤ} {b : Bool}
    (h : (admitRequest r e pl ut).run n = .ok b n') : ∃ st, n'.states = n.states.set r st := by
  simp only [admitRequest, EStateM.run_bind, EStateM.run_get] at h
  by_cases hroom : n.runningRequests.length < n.nodeConfig.capacity
  · simp only [hroom, decide_true, if_true] at h
    cases h
    exact ⟨_, rfl⟩
  · simp only [hroom, decide_false, Bool.false_eq_true, if_false] at h
    cases h
    exact ⟨_, rfl⟩

/-- So does the initialisation of a promoted request. -/
theorem initPromoted_states {e : ℤ} {pl ut : Option ℤ}
    (h : (initPromoted r e pl ut).run n = .ok () n') : ∃ st, n'.states = n.states.set r st := by
  obtain ⟨-, h⟩ := run_requireRunning_bind h
  cases h
  exact ⟨_, rfl⟩

theorem mem_keys_startDecode (h : (startDecode r).run n = .ok () n') (q : RequestId) :
    q ∈ n'.states.keys ↔ q ∈ n.states.keys := by
  obtain ⟨-, h⟩ := run_requireRunning_bind h
  cases h
  exact mem_keys_modifyState

theorem mem_keys_enterPrefill {u : ℤ} (h : (enterPrefill r u).run n = .ok () n') (q : RequestId) :
    q ∈ n'.states.keys ↔ q ∈ n.states.keys := by
  obtain ⟨-, h⟩ := run_requireRunning_bind h
  cases h
  exact mem_keys_modifyState

theorem mem_keys_markPrefillDone (h : (markPrefillDone r).run n = .ok () n') (q : RequestId) :
    q ∈ n'.states.keys ↔ q ∈ n.states.keys := by
  obtain ⟨-, h⟩ := run_requireRunning_bind h
  cases h
  exact mem_keys_modifyState

theorem mem_keys_tickBatchStep {now T : Time} {completed : List RequestId} {pf : Option RequestId}
    (h : (tickBatchStep now).run n = .ok (T, completed, pf) n') (q : RequestId) :
    q ∈ n'.states.keys ↔ q ∈ n.states.keys := by
  rw [← PyDict.contains_iff, ← PyDict.contains_iff, PyDict.contains, PyDict.contains,
    tickBatchStep_states h, Option.isSome_map]

theorem mem_keys_afterPromote : r ∈ n.afterPromote.states.keys ↔ r ∈ n.states.keys := by
  rw [afterPromote]
  split
  · rfl
  · exact mem_keys_modifyState

end MockEngineNode

/-! ### The requests of a log -/

/-- The request that a call queued. -/
def NodeEvent.queued? : NodeEvent → Option RequestId
  | queued r => some r
  | _ => none

/-- The request that a call promoted. -/
def NodeEvent.promoted? : NodeEvent → Option RequestId
  | promoted r => some r
  | _ => none

/-- The request that a call cancelled while it was queued. -/
def NodeEvent.cancelled? : NodeEvent → Option RequestId
  | cancelled r => some r
  | _ => none

/-- The requests of a log, the oldest first. -/
def told (f : NodeEvent → Option RequestId) (past : List NodeEvent) : List RequestId :=
  (past.filterMap f).reverse

theorem told_cons_none {f : NodeEvent → Option RequestId} {e : NodeEvent}
    (h : f e = none) (past : List NodeEvent) : told f (e :: past) = told f past := by
  rw [told, List.filterMap_cons_none h, told]

theorem told_cons_some {f : NodeEvent → Option RequestId} {e : NodeEvent} {r : RequestId}
    (h : f e = some r) (past : List NodeEvent) : told f (e :: past) = told f past ++ [r] := by
  rw [told, List.filterMap_cons_some h, List.reverse_cons, told]

theorem Prepared.of_cons {r : RequestId} {e : NodeEvent} {past : List NodeEvent}
    (h : Prepared r (e :: past)) (ha : e ≠ .accepted r) (hi : e ≠ .initialised r) :
    Prepared r past :=
  (h.resolve_left ha).resolve_left hi |>.2

theorem not_prepared_queued {r : RequestId} {past : List NodeEvent} :
    ¬ Prepared r (.queued r :: past) := by
  rintro (h | h | ⟨h, -⟩)
  · cases h
  · cases h
  · exact h rfl

/-! ### The invariant -/

open NodeEvent (queued? promoted? cancelled?)

/-- The lists, sets and dictionaries of a node fit together, and they fit to the log. -/
structure Admission (n : MockEngineNode) (past : List NodeEvent) : Prop where
  nodup : (n.runningRequests ++ n.queue).Nodup
  decoding_sub : ∀ r ∈ n.decoding, r ∈ n.runningRequests
  prefill_sub : ∀ r ∈ n.prefillRemaining.keys, r ∈ n.runningRequests
  states_keys : ∀ r, r ∈ n.states.keys ↔ r ∈ n.runningRequests ∨ r ∈ n.queue
  counted : ∀ r ∈ n.decoding, r ∈ n.outputTokens.keys ∧ r ∈ n.expectedOutput.keys
  prepared : ∀ r ∈ n.runningRequests, Prepared r past →
    r ∈ n.outputTokens.keys ∧ r ∈ n.expectedOutput.keys
  waiting : ∀ r ∈ n.queue, ¬ Prepared r past
  fifo : (told promoted? past ++ n.queue).Sublist (told queued? past)
  balance : (told promoted? past ++ n.queue ++ told cancelled? past).Perm (told queued? past)

theorem admission_init (nodeId : NodeId) (modelConfig : ModelConfig) (nodeConfig : NodeConfig) :
    Admission (init nodeId modelConfig nodeConfig) [] where
  nodup := List.nodup_nil
  decoding_sub := fun r h => by cases h
  prefill_sub := fun r h => by cases h
  states_keys := by
    intro r
    constructor
    · intro h
      cases h
    · rintro (h | h) <;> cases h
  counted := fun r h => by cases h
  prepared := fun r h => by cases h
  waiting := fun r h => by cases h
  fifo := List.Sublist.refl _
  balance := List.Perm.refl _

namespace Admission

variable {n n' : MockEngineNode} {r : RequestId} {past : List NodeEvent}

theorem running_nodup (h : Admission n past) : n.runningRequests.Nodup :=
  (List.nodup_append.1 h.nodup).1

theorem queue_nodup (h : Admission n past) : n.queue.Nodup := (List.nodup_append.1 h.nodup).2.1

theorem notMem_queue (h : Admission n past) (hr : r ∈ n.runningRequests) : r ∉ n.queue :=
  fun hq => (List.nodup_append.1 h.nodup).2.2 r hr r hq rfl

/-- A call that leaves the lists as they are. -/
theorem frame (h : Admission n past) (hrunning : n'.runningRequests = n.runningRequests)
    (hqueue : n'.queue = n.queue) (hstates : ∀ r, r ∈ n'.states.keys ↔ r ∈ n.states.keys)
    (hdecoding : ∀ r ∈ n'.decoding, r ∈ n.decoding ∨ (r ∈ n.runningRequests ∧ Prepared r past))
    (hprefill : ∀ r ∈ n'.prefillRemaining.keys, r ∈ n.prefillRemaining.keys ∨
      r ∈ n.runningRequests)
    (hout : ∀ r ∈ n.outputTokens.keys, r ∈ n'.outputTokens.keys)
    (hexp : ∀ r ∈ n.expectedOutput.keys, r ∈ n'.expectedOutput.keys) : Admission n' past where
  nodup := by rw [hrunning, hqueue]; exact h.nodup
  decoding_sub := by
    intro r hr
    rw [hrunning]
    rcases hdecoding r hr with hr | ⟨hr, -⟩
    · exact h.decoding_sub r hr
    · exact hr
  prefill_sub := by
    intro r hr
    rw [hrunning]
    rcases hprefill r hr with hr | hr
    · exact h.prefill_sub r hr
    · exact hr
  states_keys := by
    intro r
    rw [hstates, hrunning, hqueue]
    exact h.states_keys r
  counted := by
    intro r hr
    have hn : r ∈ n.outputTokens.keys ∧ r ∈ n.expectedOutput.keys := by
      rcases hdecoding r hr with hr | ⟨hr, hp⟩
      · exact h.counted r hr
      · exact h.prepared r hr hp
    exact ⟨hout r hn.1, hexp r hn.2⟩
  prepared := by
    intro r hr hp
    rw [hrunning] at hr
    obtain ⟨ho, he⟩ := h.prepared r hr hp
    exact ⟨hout r ho, hexp r he⟩
  waiting := by rw [hqueue]; exact h.waiting
  fifo := by rw [hqueue]; exact h.fifo
  balance := by rw [hqueue]; exact h.balance

/-- An admission of a request that is not on the node. -/
theorem admitRequest (h : Admission n past) (hr : r ∉ n.runningRequests) (hq : r ∉ n.queue)
    {e : ℤ} {pl ut : Option ℤ} {b : Bool}
    (hrun : (MockEngineNode.admitRequest r e pl ut).run n = .ok b n') :
    Admission n' ((if b then .accepted r else .queued r) :: past) := by
  obtain ⟨st, hst⟩ := admitRequest_states hrun
  have hstates : ∀ q, q ∈ n'.states.keys ↔ q = r ∨ q ∈ n.runningRequests ∨ q ∈ n.queue := by
    intro q
    rw [hst, PyDict.mem_keys_set, h.states_keys]
  obtain ⟨rfl, hs⟩ := run_admitRequest hrun
  by_cases hroom : n.HasRoom
  · rw [admitted, if_pos hroom] at hs
    rw [decide_eq_true hroom, if_pos rfl]
    refine ⟨?_, ?_, ?_, ?_, ?_, ?_, ?_, ?_, ?_⟩
    · rw [hs.runningRequests, hs.queue, List.append_assoc, List.singleton_append]
      exact List.nodup_middle.2 (List.nodup_cons.2 ⟨by simp [hr, hq], h.nodup⟩)
    · rw [hs.decoding, hs.runningRequests]
      exact fun q hq => List.mem_append_left _ (h.decoding_sub q hq)
    · rw [hs.prefillRemaining, hs.runningRequests]
      exact fun q hq => List.mem_append_left _ (h.prefill_sub q hq)
    · intro q
      rw [hstates, hs.runningRequests, hs.queue, List.mem_append, List.mem_singleton]
      tauto
    · rw [hs.decoding, hs.outputTokens, hs.expectedOutput]
      intro q hq
      obtain ⟨ho, he⟩ := h.counted q hq
      exact ⟨PyDict.mem_keys_set.2 (Or.inr ho), PyDict.mem_keys_set.2 (Or.inr he)⟩
    · rw [hs.runningRequests, hs.outputTokens, hs.expectedOutput]
      intro q hq hp
      rw [PyDict.mem_keys_set, PyDict.mem_keys_set]
      by_cases hqr : q = r
      · exact ⟨Or.inl hqr, Or.inl hqr⟩
      · have hq' : q ∈ n.runningRequests := by simpa [hqr] using hq
        obtain ⟨ho, he⟩ := h.prepared q hq' (hp.of_cons (by simp [Ne.symm hqr]) (by simp))
        exact ⟨Or.inr ho, Or.inr he⟩
    · rw [hs.queue]
      intro q hmem hp
      have hqr : r ≠ q := fun heq => hq (heq ▸ hmem)
      exact h.waiting q hmem (hp.of_cons (by simp [hqr]) (by simp))
    · rw [hs.queue, told_cons_none rfl, told_cons_none rfl]
      exact h.fifo
    · rw [hs.queue, told_cons_none rfl, told_cons_none rfl, told_cons_none rfl]
      exact h.balance
  · rw [admitted, if_neg hroom] at hs
    rw [decide_eq_false hroom, if_neg Bool.false_ne_true]
    refine ⟨?_, ?_, ?_, ?_, ?_, ?_, ?_, ?_, ?_⟩
    · rw [hs.runningRequests, hs.queue, ← List.append_assoc, List.nodup_append_comm]
      exact List.nodup_cons.2 ⟨by simp [hr, hq], h.nodup⟩
    · rw [hs.decoding, hs.runningRequests]
      exact h.decoding_sub
    · rw [hs.prefillRemaining, hs.runningRequests]
      exact h.prefill_sub
    · intro q
      rw [hstates, hs.runningRequests, hs.queue, List.mem_append, List.mem_singleton]
      tauto
    · rw [hs.decoding, hs.outputTokens, hs.expectedOutput]
      exact h.counted
    · rw [hs.runningRequests, hs.outputTokens, hs.expectedOutput]
      intro q hq hp
      exact h.prepared q hq (hp.of_cons (by simp) (by simp))
    · rw [hs.queue]
      intro q hmem hp
      by_cases hqr : q = r
      · subst hqr
        exact not_prepared_queued hp
      · have hmem' : q ∈ n.queue := by simpa [hqr] using hmem
        exact h.waiting q hmem' (hp.of_cons (by simp) (by simp))
    · rw [hs.queue, told_cons_none rfl, told_cons_some rfl, ← List.append_assoc]
      exact h.fifo.append_right [r]
    · rw [hs.queue, told_cons_none rfl, told_cons_none rfl, told_cons_some rfl,
        ← List.append_assoc]
      have hswap : (told promoted? past ++ n.queue ++ [r] ++ told cancelled? past).Perm
          (told promoted? past ++ n.queue ++ told cancelled? past ++ [r]) := by
        rw [List.append_assoc _ [r], List.append_assoc _ (told cancelled? past)]
        exact List.perm_append_comm.append_left _
      exact hswap.trans (h.balance.append_right [r])

/-- The output tracking of a running request is initialised. -/
theorem initPromoted (h : Admission n past) {e : ℤ} {pl ut : Option ℤ}
    (hrun : (MockEngineNode.initPromoted r e pl ut).run n = .ok () n') :
    Admission n' (.initialised r :: past) := by
  obtain ⟨st, hst⟩ := initPromoted_states hrun
  obtain ⟨hr, hs⟩ := run_initPromoted hrun
  have hout : n'.outputTokens = n.outputTokens.set r 0 := hs.outputTokens
  have hexp : n'.expectedOutput = n.expectedOutput.set r e := hs.expectedOutput
  have hf : Admission n' past := by
    refine h.frame hs.runningRequests hs.queue ?_ ?_ ?_ ?_ ?_
    · intro q
      rw [hst, PyDict.mem_keys_set]
      exact or_iff_right_of_imp fun hq => hq ▸ (h.states_keys r).2 (Or.inl hr)
    · rw [hs.decoding]
      exact fun q hq => Or.inl hq
    · rw [hs.prefillRemaining]
      exact fun q hq => Or.inl hq
    · rw [hout]
      exact fun q hq => PyDict.mem_keys_set.2 (Or.inr hq)
    · rw [hexp]
      exact fun q hq => PyDict.mem_keys_set.2 (Or.inr hq)
  refine { hf with prepared := ?_, waiting := ?_ }
  · intro q hq hp
    by_cases hqr : q = r
    · rw [hout, hexp, PyDict.mem_keys_set, PyDict.mem_keys_set]
      exact ⟨Or.inl hqr, Or.inl hqr⟩
    · exact hf.prepared q hq (hp.of_cons (by simp) (by simp [Ne.symm hqr]))
  · intro q hq hp
    have hqr : r ≠ q := fun heq => h.notMem_queue hr (heq ▸ hs.queue ▸ hq)
    exact hf.waiting q hq (hp.of_cons (by simp) (by simp [hqr]))

/-- The counters and the record of another request stay. -/
theorem mem_keys_without {q : RequestId} (hqr : q ≠ r)
    (h : q ∈ n.outputTokens.keys ∧ q ∈ n.expectedOutput.keys) :
    q ∈ (n.without r).outputTokens.keys ∧ q ∈ (n.without r).expectedOutput.keys :=
  ⟨PyDict.mem_keys_erase.2 ⟨hqr, h.1⟩, PyDict.mem_keys_erase.2 ⟨hqr, h.2⟩⟩

/-- A request is taken off the running list. -/
theorem without_running (h : Admission n past) (hr : r ∈ n.runningRequests) :
    Admission (n.without r) past := by
  have hrunning : ∀ q, q ∈ (n.without r).runningRequests ↔ q ≠ r ∧ q ∈ n.runningRequests :=
    fun q => h.running_nodup.mem_erase_iff
  have hqueue : (n.without r).queue = n.queue := if_pos hr
  have hnot := h.notMem_queue hr
  refine ⟨?_, ?_, ?_, ?_, ?_, ?_, ?_, ?_, ?_⟩
  · rw [hqueue]
    exact h.nodup.sublist (List.erase_sublist.append_right _)
  · intro q hq
    obtain ⟨hqr, hq⟩ := Finset.mem_erase.1 hq
    exact (hrunning q).2 ⟨hqr, h.decoding_sub q hq⟩
  · intro q hq
    obtain ⟨hqr, hq⟩ := PyDict.mem_keys_erase.1 hq
    exact (hrunning q).2 ⟨hqr, h.prefill_sub q hq⟩
  · intro q
    have hkeys : q ∈ (n.without r).states.keys ↔ q ≠ r ∧ q ∈ n.states.keys :=
      PyDict.mem_keys_erase
    rw [hkeys, hrunning, hqueue, h.states_keys]
    constructor
    · rintro ⟨hqr, hq | hq⟩
      · exact Or.inl ⟨hqr, hq⟩
      · exact Or.inr hq
    · rintro (⟨hqr, hq⟩ | hq)
      · exact ⟨hqr, Or.inl hq⟩
      · exact ⟨fun heq => hnot (heq ▸ hq), Or.inr hq⟩
  · intro q hq
    obtain ⟨hqr, hq⟩ := Finset.mem_erase.1 hq
    exact mem_keys_without hqr (h.counted q hq)
  · intro q hq hp
    obtain ⟨hqr, hq⟩ := (hrunning q).1 hq
    exact mem_keys_without hqr (h.prepared q hq hp)
  · rw [hqueue]
    exact h.waiting
  · rw [hqueue]
    exact h.fifo
  · rw [hqueue]
    exact h.balance

/-- A request is taken off the queue. -/
theorem without_queued (h : Admission n past) (hr : r ∉ n.runningRequests) (hq : r ∈ n.queue) :
    Admission (n.without r) (.cancelled r :: past) := by
  have hrunning : (n.without r).runningRequests = n.runningRequests := List.erase_of_not_mem hr
  have hqueue : (n.without r).queue = n.queue.erase r := if_neg hr
  refine ⟨?_, ?_, ?_, ?_, ?_, ?_, ?_, ?_, ?_⟩
  · rw [hrunning, hqueue]
    exact h.nodup.sublist (List.erase_sublist.append_left _)
  · intro q hmem
    rw [hrunning]
    exact h.decoding_sub q (Finset.mem_of_mem_erase hmem)
  · intro q hmem
    rw [hrunning]
    exact h.prefill_sub q (PyDict.mem_keys_erase.1 hmem).2
  · intro q
    have hkeys : q ∈ (n.without r).states.keys ↔ q ≠ r ∧ q ∈ n.states.keys :=
      PyDict.mem_keys_erase
    rw [hkeys, hrunning, hqueue, h.states_keys, h.queue_nodup.mem_erase_iff]
    constructor
    · rintro ⟨hqr, hmem | hmem⟩
      · exact Or.inl hmem
      · exact Or.inr ⟨hqr, hmem⟩
    · rintro (hmem | ⟨hqr, hmem⟩)
      · exact ⟨fun heq => hr (heq ▸ hmem), Or.inl hmem⟩
      · exact ⟨hqr, Or.inr hmem⟩
  · intro q hmem
    obtain ⟨hqr, hmem⟩ := Finset.mem_erase.1 hmem
    exact mem_keys_without hqr (h.counted q hmem)
  · intro q hmem hp
    rw [hrunning] at hmem
    exact mem_keys_without (fun heq => hr (heq ▸ hmem))
      (h.prepared q hmem (hp.of_cons (by simp) (by simp)))
  · rw [hqueue]
    exact fun q hmem hp => h.waiting q (List.mem_of_mem_erase hmem) (hp.of_cons (by simp) (by simp))
  · rw [hqueue, told_cons_none rfl, told_cons_none rfl]
    exact (List.erase_sublist.append_left _).trans h.fifo
  · rw [hqueue, told_cons_none rfl, told_cons_some rfl, told_cons_none rfl]
    -- the request moves from the queue to the end of the cancelled ones
    have hmove : (n.queue.erase r ++ (told cancelled? past ++ [r])).Perm
        (n.queue ++ told cancelled? past) := by
      rw [← List.append_assoc]
      refine List.perm_append_comm.trans ?_
      exact (List.perm_cons_erase hq).symm.append_right _
    rw [List.append_assoc]
    exact (hmove.append_left _).trans (by rw [← List.append_assoc]; exact h.balance)

/-- The first request of the queue is promoted. -/
theorem afterPromote (h : Admission n past) :
    Admission n.afterPromote (n.nextPromoted.toList.map .promoted ++ past) := by
  cases hnext : n.nextPromoted with
  | none =>
      have hsame : n.afterPromote = n := by rw [MockEngineNode.afterPromote, hnext]
      rw [hsame]
      exact h
  | some q =>
      obtain ⟨rest, hrest⟩ : ∃ rest, n.queue = q :: rest := by
        rw [nextPromoted] at hnext
        split at hnext
        · exact List.head?_eq_some_iff.1 hnext
        · cases hnext
      have hrunning : n.afterPromote.runningRequests = n.runningRequests ++ [q] := by
        rw [MockEngineNode.afterPromote, hnext, modifyState_runningRequests]
      have hqueue : n.afterPromote.queue = rest := by
        rw [MockEngineNode.afterPromote, hnext, modifyState_queue, hrest, List.tail_cons]
      change Admission n.afterPromote (.promoted q :: past)
      refine ⟨?_, ?_, ?_, ?_, ?_, ?_, ?_, ?_, ?_⟩
      · rw [hrunning, hqueue, List.append_assoc, List.singleton_append, ← hrest]
        exact h.nodup
      · rw [afterPromote_decoding, hrunning]
        exact fun x hx => List.mem_append_left _ (h.decoding_sub x hx)
      · rw [afterPromote_prefillRemaining, hrunning]
        exact fun x hx => List.mem_append_left _ (h.prefill_sub x hx)
      · intro x
        rw [mem_keys_afterPromote, h.states_keys, hrunning, hqueue, hrest, List.mem_append,
          List.mem_singleton, List.mem_cons]
        tauto
      · rw [afterPromote_decoding, afterPromote_outputTokens, afterPromote_expectedOutput]
        exact h.counted
      · rw [hrunning, afterPromote_outputTokens, afterPromote_expectedOutput]
        intro x hx hp
        have hp' := hp.of_cons (by simp) (by simp)
        rcases List.mem_append.1 hx with hx | hx
        · exact h.prepared x hx hp'
        · -- a request that was queued is not prepared when it is promoted
          rw [List.mem_singleton] at hx
          exact absurd hp' (h.waiting x (hrest ▸ hx ▸ List.mem_cons_self))
      · rw [hqueue]
        exact fun x hx hp => h.waiting x (hrest ▸ List.mem_cons_of_mem _ hx)
          (hp.of_cons (by simp) (by simp))
      · rw [hqueue, told_cons_some rfl, told_cons_none rfl, List.append_assoc,
          List.singleton_append, ← hrest]
        exact h.fifo
      · rw [hqueue, told_cons_some rfl, told_cons_none rfl, told_cons_none rfl,
          List.append_assoc _ [q], List.singleton_append, ← hrest]
        exact h.balance

end Admission

/-! ### Runs -/

section Runs

variable {n n' : MockEngineNode} {past events : List NodeEvent} {call : NodeCall}

/-- The call that misses the request raises and leaves the node as it is. -/
theorem run_requireRunning_bind_error {r : RequestId} {method : String}
    {f : MockEngineNode → MockEngineNode} {e : PyErr}
    (h : (requireRunning method r >>= fun _ => modify f).run n = .error e n') :
    n' = n ∧ ∀ msg, e ≠ .keyError msg := by
  simp only [requireRunning, EStateM.run_bind, EStateM.run_get] at h
  by_cases hr : r ∈ n.runningRequests
  · simp only [hr, if_true, EStateM.run_pure] at h
    cases h
  · simp only [hr, if_false, Py.run_raise] at h
    cases h
    exact ⟨rfl, fun msg hmsg => by cases hmsg⟩

theorem exists_run_admitRequest (r : RequestId) (expectedOutputLen : ℤ)
    (promptLen uncachedTokens : Option ℤ) (n : MockEngineNode) : ∃ b n',
      (MockEngineNode.admitRequest r expectedOutputLen promptLen uncachedTokens).run n =
        .ok b n' := by
  simp only [MockEngineNode.admitRequest, EStateM.run_bind, EStateM.run_get]
  by_cases hroom : n.runningRequests.length < n.nodeConfig.capacity
  · simp only [hroom, decide_true, if_true]
    exact ⟨_, _, rfl⟩
  · simp only [hroom, decide_false, Bool.false_eq_true, if_false]
    exact ⟨_, _, rfl⟩

/-- A batch step raises only because there is no work to do. -/
theorem Admission.tick_raised (h : Admission n past) {now : Time} {e : PyErr}
    (hrun : (tickBatchStep now).run n = .error e n') : n' = n ∧ ∀ msg, e ≠ .keyError msg := by
  cases hwork : n.hasWork with
  | true =>
      obtain ⟨T, completed, pf, m, hok, -⟩ :=
        run_tickBatchStep_ok hwork (fun r hr => h.counted r (mem_sortedIds.1 hr)) now
      rw [hok] at hrun
      cases hrun
  | false =>
      rw [run_tickBatchStep_idle hwork] at hrun
      cases hrun
      exact ⟨rfl, fun msg hmsg => by cases hmsg⟩

/-- **A call that raises leaves the node as it is**, and it misses no counter. -/
theorem Admission.raised (h : Admission n past) {e : PyErr}
    (hcall : call.perform.run n = .error e n') : n' = n ∧ ∀ msg, e ≠ .keyError msg := by
  cases call with
  | admitRequest r expectedOutputLen promptLen uncachedTokens =>
      rcases Py.bind_eq_error.1 hcall with hrun | ⟨b, n₁, -, hend⟩
      · obtain ⟨b, n₁, hok⟩ := exists_run_admitRequest r expectedOutputLen promptLen uncachedTokens n
        rw [hok] at hrun
        cases hrun
      · cases hend
  | initPromoted r expectedOutputLen promptLen uncachedTokens =>
      rcases Py.bind_eq_error.1 hcall with hrun | ⟨⟨⟩, n₁, -, hend⟩
      · exact run_requireRunning_bind_error hrun
      · cases hend
  | enterPrefill r uncachedTokens =>
      rcases Py.bind_eq_error.1 hcall with hrun | ⟨⟨⟩, n₁, -, hend⟩
      · exact run_requireRunning_bind_error hrun
      · cases hend
  | markPrefillDone r =>
      rcases Py.bind_eq_error.1 hcall with hrun | ⟨⟨⟩, n₁, -, hend⟩
      · exact run_requireRunning_bind_error hrun
      · cases hend
  | startDecode r =>
      rcases Py.bind_eq_error.1 hcall with hrun | ⟨⟨⟩, n₁, -, hend⟩
      · exact run_requireRunning_bind_error hrun
      · cases hend
  | tickBatchStep now =>
      rcases Py.bind_eq_error.1 hcall with hrun | ⟨a, n₁, -, hend⟩
      · exact h.tick_raised hrun
      · cases hend
  | complete r =>
      rw [NodeCall.perform, Py.run_get_bind] at hcall
      rcases Py.bind_eq_error.1 hcall with hrun | ⟨next, n₁, -, hend⟩
      · by_cases hmem : r ∈ n.runningRequests ∨ r ∈ n.queue
        · rw [run_complete hmem] at hrun
          cases hrun
        · rw [not_or] at hmem
          rw [run_complete_absent hmem.1 hmem.2] at hrun
          cases hrun
          exact ⟨rfl, fun msg hmsg => by cases hmsg⟩
      · cases hend

/-- **A call that returns keeps the invariant.** -/
theorem Admission.returned (h : Admission n past) (hfits : n.Fits) (hallowed : call.Allowed n past)
    (hcall : call.perform.run n = .ok events n') : Admission n' (events ++ past) ∧ n'.Fits := by
  cases call with
  | admitRequest r expectedOutputLen promptLen uncachedTokens =>
      obtain ⟨b, n₁, hrun, hend⟩ := Py.bind_eq_ok.1 hcall
      cases hend
      exact ⟨h.admitRequest hallowed.1 hallowed.2 hrun,
        (run_admitRequest hrun).2.fits (hfits.admitted r expectedOutputLen)⟩
  | initPromoted r expectedOutputLen promptLen uncachedTokens =>
      obtain ⟨⟨⟩, n₁, hrun, hend⟩ := Py.bind_eq_ok.1 hcall
      cases hend
      exact ⟨h.initPromoted hrun, (run_initPromoted hrun).2.fits (hfits.congr rfl rfl rfl)⟩
  | enterPrefill r uncachedTokens =>
      obtain ⟨⟨⟩, n₁, hrun, hend⟩ := Py.bind_eq_ok.1 hcall
      cases hend
      obtain ⟨hr, hs⟩ := run_enterPrefill hrun
      refine ⟨h.frame hs.runningRequests hs.queue (mem_keys_enterPrefill hrun) ?_ ?_ ?_ ?_,
        hs.fits (hfits.congr rfl rfl rfl)⟩
      · rw [hs.decoding]
        exact fun q hq => Or.inl hq
      · rw [hs.prefillRemaining]
        intro q hq
        rcases PyDict.mem_keys_set.1 hq with rfl | hq
        · exact Or.inr hr
        · exact Or.inl hq
      · rw [hs.outputTokens]
        exact fun q hq => hq
      · rw [hs.expectedOutput]
        exact fun q hq => hq
  | markPrefillDone r =>
      obtain ⟨⟨⟩, n₁, hrun, hend⟩ := Py.bind_eq_ok.1 hcall
      cases hend
      obtain ⟨hr, hs⟩ := run_markPrefillDone hrun
      refine ⟨h.frame hs.runningRequests hs.queue (mem_keys_markPrefillDone hrun) ?_ ?_ ?_ ?_,
        hs.fits hfits⟩
      · rw [hs.decoding]
        exact fun q hq => Or.inl hq
      · rw [hs.prefillRemaining]
        exact fun q hq => Or.inl hq
      · rw [hs.outputTokens]
        exact fun q hq => hq
      · rw [hs.expectedOutput]
        exact fun q hq => hq
  | startDecode r =>
      obtain ⟨⟨⟩, n₁, hrun, hend⟩ := Py.bind_eq_ok.1 hcall
      cases hend
      obtain ⟨hr, hs⟩ := run_startDecode hrun
      refine ⟨h.frame hs.runningRequests hs.queue (mem_keys_startDecode hrun) ?_ ?_ ?_ ?_,
        hs.fits (hfits.congr rfl rfl rfl)⟩
      · rw [hs.decoding]
        intro q hq
        rcases Finset.mem_insert.1 hq with rfl | hq
        · exact Or.inr ⟨hr, hallowed⟩
        · exact Or.inl hq
      · rw [hs.prefillRemaining]
        exact fun q hq => Or.inl hq
      · rw [hs.outputTokens]
        exact fun q hq => hq
      · rw [hs.expectedOutput]
        exact fun q hq => hq
  | tickBatchStep now =>
      obtain ⟨⟨T, completed, pf⟩, n₁, hrun, hend⟩ := Py.bind_eq_ok.1 hcall
      cases hend
      obtain ⟨-, ht⟩ := ticked_of_run hrun
      refine ⟨h.frame ht.runningRequests ht.queue (mem_keys_tickBatchStep hrun) ?_ ?_ ?_ ?_,
        ht.fits hfits⟩
      · exact fun q hq => Or.inl ((ht.decoding q).1 hq).1
      · exact fun q hq => Or.inl (ht.mem_keys_prefill hq)
      · exact fun q hq => ht.mem_keys_outputTokens hq
      · rw [ht.expectedOutput]
        exact fun q hq => hq
  | complete r =>
      rw [NodeCall.perform, Py.run_get_bind] at hcall
      obtain ⟨next, n₁, hrun, hend⟩ := Py.bind_eq_ok.1 hcall
      cases hend
      by_cases hmem : r ∈ n.runningRequests ∨ r ∈ n.queue
      · rw [run_complete hmem] at hrun
        cases hrun
        refine ⟨?_, hfits.complete hmem⟩
        by_cases hr : r ∈ n.runningRequests
        · rw [if_pos hr, List.append_nil]
          exact (h.without_running hr).afterPromote
        · rw [if_neg hr, List.append_assoc]
          exact (h.without_queued hr (hmem.resolve_left hr)).afterPromote
      · rw [not_or] at hmem
        rw [run_complete_absent hmem.1 hmem.2] at hrun
        cases hrun

/-- **Every run keeps the invariant.** -/
theorem NodeRun.admission {nodeId : NodeId} {modelConfig : ModelConfig} {nodeConfig : NodeConfig}
    (h : NodeRun (init nodeId modelConfig nodeConfig) n past) : Admission n past ∧ n.Fits := by
  induction h with
  | fresh =>
      exact ⟨admission_init nodeId modelConfig nodeConfig, Nat.zero_le _, fun h => absurd rfl h⟩
  | returned hrun hallowed hcall ih => exact ih.1.returned ih.2 hallowed hcall
  | raised hrun hallowed hcall ih =>
      obtain ⟨rfl, -⟩ := ih.1.raised hcall
      exact ih

/-- **What holds of every node that was run**: the running requests and the queue are disjoint and
without duplicates, the node keeps to its capacity and queues only when it is full, the streams and
the prefills are running requests, the records are those of the requests on the node, a batch step
misses no counter, and the queue is first in, first out. -/
theorem node_admission {nodeId : NodeId} {modelConfig : ModelConfig} {nodeConfig : NodeConfig}
    (h : NodeRun (init nodeId modelConfig nodeConfig) n past) :
    n.runningRequests.Nodup ∧ n.queue.Nodup ∧ n.runningRequests.Disjoint n.queue ∧
      n.runningRequests.length ≤ n.nodeConfig.capacity ∧
      (n.queue ≠ [] → n.runningRequests.length = n.nodeConfig.capacity) ∧
      (∀ r ∈ n.decoding, r ∈ n.runningRequests) ∧
      (∀ r ∈ n.prefillRemaining.keys, r ∈ n.runningRequests) ∧
      (∀ r, r ∈ n.states.keys ↔ r ∈ n.runningRequests ∨ r ∈ n.queue) ∧
      (∀ now msg n', (tickBatchStep now).run n ≠ .error (.keyError msg) n') ∧
      (told promoted? past ++ n.queue).Sublist (told queued? past) ∧
      (told promoted? past ++ n.queue ++ told cancelled? past).Perm (told queued? past) := by
  obtain ⟨ha, hfits⟩ := h.admission
  refine ⟨ha.running_nodup, ha.queue_nodup, fun r hr hq => ha.notMem_queue hr hq,
    hfits.running_le, fun hq => le_antisymm hfits.running_le (hfits.full hq), ha.decoding_sub,
    ha.prefill_sub, ha.states_keys, ?_, ha.fifo, ha.balance⟩
  intro now msg n' hrun
  exact (ha.tick_raised hrun).2 msg rfl

end Runs

/-- A node with a single slot. -/
def oneSlot : MockEngineNode :=
  init "d0" .defaults { NodeConfig.defaults with capacity := 1, one_le_capacity := le_refl 1 }

/-- Two requests wait for the slot; the first of them leaves before its turn, so that the second is
promoted and can be decoded. -/
theorem node_admission_oneSlot : ∃ n past, NodeRun oneSlot n past ∧ n.runningRequests = ["c"] ∧
    told promoted? past = ["c"] ∧ told queued? past = ["b", "c"] ∧
    (∀ r ∈ n.decoding, r ∈ n.runningRequests) ∧
    ∀ now msg n', (tickBatchStep now).run n ≠ .error (.keyError msg) n' := by
  have h₁ := @NodeRun.returned oneSlot _ _ _ _ (.admitRequest "a" 1 none none) .fresh
    ⟨by decide, by decide⟩ rfl
  have h₂ := @NodeRun.returned oneSlot _ _ _ _ (.admitRequest "b" 1 none none) h₁
    ⟨by decide, by decide⟩ rfl
  have h₃ := @NodeRun.returned oneSlot _ _ _ _ (.admitRequest "c" 2 none none) h₂
    ⟨by decide, by decide⟩ rfl
  have h₄ := @NodeRun.returned oneSlot _ _ _ _ (.complete "b") h₃ trivial rfl
  have h₅ := @NodeRun.returned oneSlot _ _ _ _ (.complete "a") h₄ trivial rfl
  have h₆ := @NodeRun.returned oneSlot _ _ _ _ (.initPromoted "c" 2 none none) h₅ trivial rfl
  have h₇ := @NodeRun.returned oneSlot _ _ _ _ (.startDecode "c") h₆ (Or.inr (Or.inl rfl)) rfl
  obtain ⟨-, -, -, -, -, hdecoding, -, -, hkeys, -, -⟩ := node_admission h₇
  exact ⟨_, _, h₇, rfl, rfl, rfl, hdecoding, hkeys⟩

end NanoKVRouter
