/-
**Driving a prefill node.**

A node without decode streams is driven by batch steps, one after another, and every prefill that
completes releases its slot at once: the node promotes a queued request, which starts its prefill.
The pipeline is served in order, one chunk for each step, and is never idle while it has work.  The
time until a prefill completes is therefore the time of the work that is served before it.

Main definitions:

* `MockEngineNode.beginPrefill`, `MockEngineNode.releaseSlot`, `MockEngineNode.drivePrefill` — the
  calls of the handlers on a node;
* `MockEngineNode.Driven` — a node by the completions that are due, its pipeline and its queue;
* `MockEngineNode.Ahead` — the work that is served until a prefill completes.

Main results:

* `MockEngineNode.Driven.release`, `MockEngineNode.Driven.tick` — what a call does to them;
* `MockEngineNode.Driven.drivePrefill` — **the prefill completes when the work ahead of it is done**.
-/

import NanoKVRouter.MockNodeSpec
import Mathlib.Algebra.BigOperators.Group.List.Basic
import Mathlib.Tactic.Ring

set_option relaxedAutoImplicit false
set_option autoImplicit false

namespace NanoKVRouter

namespace MockEngineNode

/-! ### The calls -/

/-- A running request starts its prefill; without uncached tokens it is done at once.  The result is
the completions that are due. -/
def beginPrefill (requestId : RequestId) (uncached : ℤ) : Py MockEngineNode (List RequestId) := do
  if uncached = 0 then
    markPrefillDone requestId
    pure [requestId]
  else
    enterPrefill requestId uncached
    pure []

/-- A prefill has completed: its slot is released, and a promoted request starts its prefill. -/
def releaseSlot (requestId : RequestId) : Py MockEngineNode (List RequestId) := do
  match ← complete requestId with
  | none => pure []
  | some promotedId =>
      let state := (← get).stateForWait promotedId
      initPromoted promotedId state.expectedOutputLen none none
      beginPrefill promotedId (state.uncachedTotal.getD 0)

/-- The completions that are due, and then one batch step after another, until the prefill of a
request completes; the result is the time of that. -/
def drivePrefill (requestId : RequestId) : ℕ → Time → List RequestId → Py MockEngineNode Time
  | 0, _, _ => Py.raise .outOfFuel
  | fuel + 1, now, completed :: due => do
      if completed = requestId then
        pure now
      else
        let started ← releaseSlot completed
        drivePrefill requestId fuel now (due ++ started)
  | fuel + 1, now, [] => do
      let (nextTime, _, prefillCompletedId) ← tickBatchStep now
      drivePrefill requestId fuel nextTime prefillCompletedId.toList

/-- The time until the prefill of a request completes that is admitted now. -/
def timeToPrefill (requestId : RequestId) (promptLen expectedOutputLen uncached : ℤ)
    (due : List RequestId) (fuel : ℕ) : Py MockEngineNode Time := do
  let isRunning ← admitRequest requestId expectedOutputLen (some promptLen) (some uncached)
  let started ← if isRunning then beginPrefill requestId uncached else pure []
  drivePrefill requestId fuel 0 (due ++ started)

variable {n n' : MockEngineNode} {r q : RequestId} {f : NodeRequestState → NodeRequestState}

/-! ### Recorded tokens -/

/-- The uncached tokens recorded for a request. -/
def uncachedOf (n : MockEngineNode) (q : RequestId) : Option ℤ :=
  (n.states.get? q).bind NodeRequestState.uncachedTotal

theorem uncachedOf_set_of_ne {st : NodeRequestState} (h : q ≠ r) :
    ({ n with states := n.states.set r st } : MockEngineNode).uncachedOf q = n.uncachedOf q := by
  rw [uncachedOf, PyDict.get?_set_of_ne _ _ h, uncachedOf]

theorem uncachedOf_modifyState_of_ne (h : q ≠ r) : (n.modifyState r f).uncachedOf q =
    n.uncachedOf q := by
  unfold modifyState
  split
  · rfl
  · exact uncachedOf_set_of_ne h

theorem uncachedOf_modifyState (hf : ∀ st, (f st).uncachedTotal = st.uncachedTotal) :
    (n.modifyState r f).uncachedOf q = n.uncachedOf q := by
  by_cases h : q = r
  · subst h
    unfold modifyState
    split
    · rfl
    · rename_i st hst
      rw [uncachedOf, PyDict.get?_set_self, Option.bind_some, hf, uncachedOf, hst, Option.bind_some]
  · exact uncachedOf_modifyState_of_ne h

theorem uncachedOf_without_of_ne (h : q ≠ r) : (n.without r).uncachedOf q = n.uncachedOf q := by
  rw [uncachedOf, without, PyDict.get?_erase_of_ne _ h, uncachedOf]

theorem uncachedOf_afterPromote : n.afterPromote.uncachedOf q = n.uncachedOf q := by
  rw [afterPromote]
  split
  · rfl
  · exact uncachedOf_modifyState fun _ => rfl

theorem stateForWait_uncachedTotal {w : ℤ} (h : n.uncachedOf q = some w) :
    (n.stateForWait q).uncachedTotal = some w := by
  rw [stateForWait]
  cases hst : n.states.get? q with
  | none => simp [uncachedOf, hst] at h
  | some st => simpa [uncachedOf, hst] using h

/-! ### What the calls do -/

theorem run_requireRunning {method : String} (h : r ∈ n.runningRequests) :
    (requireRunning method r).run n = .ok () n := by
  simp [requireRunning, h]

/-- The node runs, queues and keeps in its pipeline what is said, and is otherwise as before, for
requests other than `r`. -/
structure Became (n : MockEngineNode) (running queue : List RequestId) (pipe : PyDict RequestId ℤ)
    (r : RequestId) (n' : MockEngineNode) : Prop where
  runningRequests : n'.runningRequests = running
  queue : n'.queue = queue
  prefillRemaining : n'.prefillRemaining = pipe
  decoding : n'.decoding = n.decoding
  modelConfig : n'.modelConfig = n.modelConfig
  nodeConfig : n'.nodeConfig = n.nodeConfig
  uncachedOf : ∀ q, q ≠ r → n'.uncachedOf q = n.uncachedOf q

/-- The start of a prefill. -/
theorem run_beginPrefill {w : ℤ} (h : r ∈ n.runningRequests) :
    ∃ n', (beginPrefill r w).run n = .ok (if w = 0 then [r] else []) n' ∧
      Became n n.runningRequests n.queue
        (if w = 0 then n.prefillRemaining else n.prefillRemaining.set r w) r n' := by
  by_cases hw : w = 0
  · simp only [hw, if_true]
    refine ⟨n.modifyState r prefillDoneState, ?_, ?_⟩
    · rw [beginPrefill, if_pos rfl, markPrefillDone, bind_assoc,
        Py.run_bind_ok (run_requireRunning h)]
      rfl
    · exact ⟨by simp, by simp, by simp, by simp, by simp, by simp,
        fun q hq => uncachedOf_modifyState_of_ne hq⟩
  · simp only [hw, if_false]
    refine ⟨(n.withPipeline (n.prefillRemaining.set r w)).modifyState r fun state =>
      { state with
        phase := .prefilling
        uncachedTotal := some (max 0 w)
        uncachedRemaining := w
        blocksPrefillSlot := true }, ?_, ?_⟩
    · rw [beginPrefill, if_neg hw, enterPrefill, bind_assoc, Py.run_bind_ok (run_requireRunning h)]
      rfl
    · exact ⟨by simp [withPipeline], by simp [withPipeline], by simp [withPipeline],
        by simp [withPipeline], by simp [withPipeline], by simp [withPipeline],
        fun q hq => uncachedOf_modifyState_of_ne hq⟩

/-- An admission to a free slot. -/
theorem run_admitRequest_room (r : RequestId) (e : ℤ) (pl ut : Option ℤ) (h : n.HasRoom) :
    ∃ n', (admitRequest r e pl ut).run n = .ok true n' ∧
      Became n (n.runningRequests ++ [r]) n.queue n.prefillRemaining r n' := by
  have h' : n.runningRequests.length < n.nodeConfig.capacity := h
  simp only [admitRequest, EStateM.run_bind, EStateM.run_get, h', decide_true, if_true,
    EStateM.run_set, EStateM.run_pure]
  exact ⟨_, rfl, rfl, rfl, rfl, rfl, rfl, rfl, fun q hq => uncachedOf_set_of_ne (n := n) hq⟩

/-- An admission to the queue. -/
theorem run_admitRequest_full (r : RequestId) (e u : ℤ) (pl : Option ℤ) (h : ¬ n.HasRoom) :
    ∃ n', (admitRequest r e pl (some u)).run n = .ok false n' ∧
      Became n n.runningRequests (n.queue ++ [r]) n.prefillRemaining r n' ∧
      n'.uncachedOf r = some (max 0 u) := by
  have h' : ¬ n.runningRequests.length < n.nodeConfig.capacity := h
  simp only [admitRequest, EStateM.run_bind, EStateM.run_get, h', decide_false,
    Bool.false_eq_true, if_false, EStateM.run_set, EStateM.run_pure]
  refine ⟨_, rfl, ⟨rfl, rfl, rfl, rfl, rfl, rfl, fun q hq => uncachedOf_set_of_ne (n := n) hq⟩, ?_⟩
  rw [uncachedOf, PyDict.get?_set_self]
  rfl

/-- A release on a node without a queue. -/
theorem run_releaseSlot_nil (hr : r ∈ n.runningRequests) (hq : n.queue = []) :
    (releaseSlot r).run n = .ok [] (n.without r) := by
  have hqueue : (n.without r).queue = [] := by rw [without, if_pos hr, hq]
  have hnone : (n.without r).nextPromoted = none := by
    rw [nextPromoted, hqueue]
    split <;> rfl
  have hrun := run_complete (Or.inl hr)
  rw [hnone, afterPromote, hnone] at hrun
  rw [releaseSlot, Py.run_bind_ok hrun]
  rfl

/-- A release on a node with a queue. -/
theorem run_releaseSlot_cons {rest : List RequestId} {w : ℤ} (hr : r ∈ n.runningRequests)
    (hq : n.queue = q :: rest) (hroom : (n.without r).HasRoom) (hw : n.uncachedOf q = some w)
    (hne : q ≠ r) :
    ∃ n', (releaseSlot r).run n = .ok (if w = 0 then [q] else []) n' ∧
      n'.runningRequests = n.runningRequests.erase r ++ [q] ∧ n'.queue = rest ∧
      n'.prefillRemaining = (if w = 0 then n.prefillRemaining.erase r else
        (n.prefillRemaining.erase r).set q w) ∧ n'.decoding = n.decoding.erase r ∧
      n'.modelConfig = n.modelConfig ∧ n'.nodeConfig = n.nodeConfig ∧
      ∀ x, x ≠ r → x ≠ q → n'.uncachedOf x = n.uncachedOf x := by
  have hqueue : (n.without r).queue = q :: rest := by rw [without, if_pos hr, hq]
  have hnext : (n.without r).nextPromoted = some q := by
    rw [nextPromoted, if_pos hroom, hqueue, List.head?_cons]
  have hrun := run_complete (Or.inl hr)
  rw [hnext] at hrun
  -- the node after the promotion
  generalize hn₁ : (n.without r).afterPromote = n₁ at hrun
  have hrunning : n₁.runningRequests = n.runningRequests.erase r ++ [q] := by
    rw [← hn₁, afterPromote, hnext]
    simp [without]
  have hqueue₁ : n₁.queue = rest := by
    rw [← hn₁, afterPromote, hnext]
    simp [hqueue]
  have hpipe₁ : n₁.prefillRemaining = n.prefillRemaining.erase r := by
    rw [← hn₁, afterPromote_prefillRemaining, without]
  have hcfg : n₁.modelConfig = n.modelConfig := by
    rw [← hn₁, afterPromote, hnext]
    simp [without]
  have hw₁ : n₁.uncachedOf q = some w := by
    rw [← hn₁, uncachedOf_afterPromote, uncachedOf_without_of_ne hne, hw]
  have hmem : q ∈ n₁.runningRequests := by
    rw [hrunning]
    exact List.mem_append_right _ (List.mem_singleton_self q)
  -- the node after the initialisation of the promoted request
  let e := (n₁.stateForWait q).expectedOutputLen
  let n₂ : MockEngineNode := { n₁ with
    outputTokens := n₁.outputTokens.set q 0
    expectedOutput := n₁.expectedOutput.set q e
    states := n₁.states.set q (promotedState q e none (Option.map (max 0) none)
      (n₁.states.get? q)) }
  have hinit : (initPromoted q e none none).run n₁ = .ok () n₂ := by
    rw [initPromoted, Py.run_bind_ok (run_requireRunning hmem)]
    rfl
  obtain ⟨n₃, hbegin, hb⟩ := run_beginPrefill (n := n₂) (w := w) hmem
  refine ⟨n₃, ?_, hb.runningRequests.trans hrunning, hb.queue.trans hqueue₁, ?_, ?_, ?_, ?_, ?_⟩
  · rw [releaseSlot, Py.run_bind_ok hrun, Py.run_get_bind]
    dsimp only
    rw [Py.run_bind_ok hinit, stateForWait_uncachedTotal hw₁, Option.getD_some, hbegin]
  · rw [hb.prefillRemaining, ← hpipe₁]
  · rw [hb.decoding]
    change n₁.decoding = _
    rw [← hn₁, afterPromote_decoding, without]
  · exact hb.modelConfig.trans hcfg
  · rw [hb.nodeConfig]
    change n₁.nodeConfig = _
    rw [← hn₁, afterPromote_nodeConfig, without]
  · intro x hxr hxq
    rw [hb.uncachedOf x hxq]
    refine (uncachedOf_set_of_ne (n := n₁) hxq).trans ?_
    rw [← hn₁, uncachedOf_afterPromote, uncachedOf_without_of_ne hxr]

/-- A batch step without decode streams. -/
theorem run_tickBatchStep_prefill (now : Time) {u : ℤ} {rest : List (RequestId × ℤ)}
    (hd : n.decoding = ∅) (he : n.prefillRemaining.entries = (q, u) :: rest) :
    ∃ n', (tickBatchStep now).run n = .ok (now + ((min u n.modelConfig.prefillChunkSize : ℤ) : ℚ) *
        n.modelConfig.prefillCostPerTokenMs, [],
        if u ≤ n.modelConfig.prefillChunkSize then some q else none) n' ∧
      Became n n.runningRequests n.queue
        (if u ≤ n.modelConfig.prefillChunkSize then n.prefillRemaining.erase q
          else n.prefillRemaining.set q (u - n.modelConfig.prefillChunkSize)) q n' := by
  have hw : n.hasWork = true := by simp [hasWork, he]
  have hchunk := run_prefillChunk_cons he
  generalize hn₁ : (n.withPipeline (n.prefillRemaining.set q
    (u - min u n.modelConfig.prefillChunkSize))).modifyState q _ = n₁ at hchunk
  have hd₁ : n₁.decoding = ∅ := by
    rw [← hn₁, modifyState_decoding, withPipeline, hd]
  have hpipe₁ : n₁.prefillRemaining = n.prefillRemaining.set q
      (u - min u n.modelConfig.prefillChunkSize) := by
    rw [← hn₁, modifyState_prefillRemaining, withPipeline]
  have hstreams : (advanceStreams (sortedIds n₁.decoding)).run n₁ = .ok [] n₁ := by
    rw [hd₁]
    rfl
  have hsame : ({ n₁ with decoding := n₁.decoding.filter (· ∉ ([] : List RequestId)) } :
      MockEngineNode) = n₁ := by
    have hfilter : n₁.decoding.filter (· ∉ ([] : List RequestId)) = n₁.decoding := by simp
    rw [hfilter]
  have hb₁ : Became n n.runningRequests n.queue (n.prefillRemaining.set q
      (u - min u n.modelConfig.prefillChunkSize)) q n₁ := by
    subst hn₁
    exact ⟨by simp [withPipeline], by simp [withPipeline], hpipe₁, by simp [withPipeline],
      by simp [withPipeline], by simp [withPipeline],
      fun x hx => uncachedOf_modifyState_of_ne hx⟩
  have hget : n₁.prefillRemaining.get? q = some (u - min u n.modelConfig.prefillChunkSize) := by
    rw [hpipe₁, PyDict.get?_set_self]
  have hrun : ∀ pf n', (finishPrefill (some q)).run n₁ = .ok pf n' → (tickBatchStep now).run n =
      .ok (now + ((min u n.modelConfig.prefillChunkSize : ℤ) : ℚ) *
        n.modelConfig.prefillCostPerTokenMs, [], pf) n' := by
    intro pf n' hfinish
    rw [tickBatchStep, Py.run_get_bind]
    simp only [hw, Bool.not_true, Bool.false_eq_true, if_false]
    rw [Py.run_bind_ok hchunk]
    dsimp only
    rw [Py.run_get_bind, Py.run_bind_ok hstreams, Py.run_modify_bind, hsame,
      Py.run_bind_ok hfinish, hd, Finset.card_empty, if_neg (lt_irrefl 0), add_zero]
    rfl
  by_cases hu : u ≤ n.modelConfig.prefillChunkSize
  · rw [if_pos hu, if_pos hu]
    have hzero : n₁.prefillRemaining.get? q = some 0 := by rw [hget, min_eq_left hu, sub_self]
    refine ⟨_, hrun _ _ (run_finishPrefill_drained hzero), ?_⟩
    refine ⟨?_, ?_, ?_, ?_, ?_, ?_, fun x hx => ?_⟩
    · simp [withPipeline, hb₁.runningRequests]
    · simp [withPipeline, hb₁.queue]
    · simp [withPipeline, hpipe₁, PyDict.erase_set_self]
    · simp [withPipeline, hb₁.decoding]
    · simp [withPipeline, hb₁.modelConfig]
    · simp [withPipeline, hb₁.nodeConfig]
    · rw [uncachedOf_modifyState_of_ne hx]
      exact hb₁.uncachedOf x hx
  · rw [if_neg hu, if_neg hu]
    have hne : n₁.prefillRemaining.get? q ≠ some 0 := by
      rw [hget, ne_eq, Option.some_inj]
      omega
    refine ⟨n₁, hrun _ _ (run_finishPrefill_left hne), ?_⟩
    rw [min_eq_right (by omega)] at hb₁
    exact hb₁

/-! ### A driven node -/

/-- A node without decode streams, by the completions that are due, the pipeline and the queue with
the uncached tokens of the requests. -/
structure Driven (cfg : ModelConfig) (due : List RequestId) (pipe waiting : List (RequestId × ℤ))
    (n : MockEngineNode) : Prop where
  modelConfig : n.modelConfig = cfg
  decoding : n.decoding = ∅
  pipeline : n.prefillRemaining.entries = pipe
  queue : n.queue = waiting.map Prod.fst
  works : ∀ e ∈ waiting, n.uncachedOf e.1 = some e.2
  running : n.runningRequests.Perm (due ++ pipe.map Prod.fst)
  nodup : (due ++ (pipe ++ waiting).map Prod.fst).Nodup
  pos : ∀ e ∈ pipe, 0 < e.2
  nonneg : ∀ e ∈ waiting, 0 ≤ e.2
  fits : due.length + pipe.length ≤ n.nodeConfig.capacity
  full : waiting ≠ [] → n.nodeConfig.capacity ≤ due.length + pipe.length

section Driven

variable {cfg : ModelConfig} {due : List RequestId} {pipe waiting rest : List (RequestId × ℤ)}

theorem Driven.keys (h : Driven cfg due pipe waiting n) :
    n.prefillRemaining.keys = pipe.map Prod.fst := by
  rw [PyDict.keys, h.pipeline]

/-- The completion of the first prefill that is due takes it off the running list only. -/
theorem Driven.erase_running {c : RequestId} (h : Driven cfg (c :: due) pipe waiting n) :
    c ∈ n.runningRequests ∧ n.prefillRemaining.erase c = n.prefillRemaining ∧
      (n.runningRequests.erase c).Perm (due ++ pipe.map Prod.fst) := by
  have hmem : c ∈ n.runningRequests := h.running.mem_iff.2 (List.mem_cons_self ..)
  have hnd := h.nodup
  rw [List.cons_append, List.nodup_cons, List.map_append, List.mem_append, List.mem_append] at hnd
  refine ⟨hmem, PyDict.erase_of_notMem ?_, ?_⟩
  · rw [h.keys]
    exact fun hc => hnd.1 (Or.inr (Or.inl hc))
  · have hperm := h.running.erase c
    rwa [List.cons_append, List.erase_cons_head] at hperm

/-- A completion that is due, on a node that queues nothing. -/
theorem Driven.release_nil {c : RequestId} (h : Driven cfg (c :: due) pipe [] n) :
    ∃ n', (releaseSlot c).run n = .ok [] n' ∧ Driven cfg due pipe [] n' := by
  obtain ⟨hmem, hpipe, hperm⟩ := h.erase_running
  refine ⟨_, run_releaseSlot_nil hmem h.queue, h.modelConfig, ?_, ?_, ?_, List.forall_mem_nil _,
    hperm, ?_, h.pos,
    List.forall_mem_nil _, ?_, fun hne => absurd rfl hne⟩
  · rw [without, h.decoding]
    rfl
  · rw [without, hpipe, h.pipeline]
  · rw [without, if_pos hmem, h.queue]
  · exact (List.nodup_cons.1 h.nodup).2
  · have hfits := h.fits
    rw [List.length_cons] at hfits
    change due.length + pipe.length ≤ n.nodeConfig.capacity
    omega

/-- A completion that is due, on a node with a queue: the next request starts its prefill, or is
done at once. -/
theorem Driven.release_cons {c q : RequestId} {w : ℤ}
    (h : Driven cfg (c :: due) pipe ((q, w) :: rest) n) :
    ∃ n', (releaseSlot c).run n = .ok (if w = 0 then [q] else []) n' ∧
      Driven cfg (due ++ if w = 0 then [q] else []) (pipe ++ if w = 0 then [] else [(q, w)]) rest
        n' := by
  obtain ⟨hmem, hpipe, hperm⟩ := h.erase_running
  have hfull := h.full (List.cons_ne_nil _ _)
  have hfits := h.fits
  have hlen : n.runningRequests.length = due.length + pipe.length + 1 := by
    rw [h.running.length_eq, List.length_append, List.length_cons, List.length_map]
    omega
  rw [List.length_cons] at hfull hfits
  have hroom : (n.without c).HasRoom := by
    change (n.runningRequests.erase c).length < n.nodeConfig.capacity
    rw [List.length_erase_of_mem hmem]
    omega
  have hnd := h.nodup
  simp only [List.cons_append, List.map_append, List.map_cons, List.nodup_cons, List.mem_append,
    List.mem_cons, not_or] at hnd
  obtain ⟨⟨-, -, hcq, hcrest⟩, hnd⟩ := hnd
  have hqrest : q ∉ rest.map Prod.fst ∧ q ∉ pipe.map Prod.fst := by
    have hsub : (pipe.map Prod.fst ++ q :: rest.map Prod.fst).Nodup :=
      hnd.sublist (List.sublist_append_right _ _)
    rw [List.nodup_append] at hsub
    refine ⟨(List.nodup_cons.1 hsub.2.1).1, fun hq => ?_⟩
    exact hsub.2.2 q hq q (List.mem_cons_self ..) rfl
  obtain ⟨n', hrun, hrunning, hqueue, hpipe', hdec, hmcfg, hncfg, hunc⟩ :=
    run_releaseSlot_cons hmem h.queue hroom (h.works _ (List.mem_cons_self ..)) (Ne.symm hcq)
  refine ⟨n', hrun, hmcfg.trans h.modelConfig, ?_, ?_, hqueue, fun e he => ?_, ?_, ?_, ?_,
    fun e he => h.nonneg e (List.mem_cons_of_mem _ he), ?_, ?_⟩
  · rw [hdec, h.decoding]
    rfl
  · rw [hpipe', hpipe]
    split
    · rw [h.pipeline, List.append_nil]
    · rw [PyDict.entries_set_of_notMem _ (by rw [h.keys]; exact hqrest.2), h.pipeline]
  · have hne : e.1 ≠ c ∧ e.1 ≠ q := by
      have hmem' := List.mem_map_of_mem (f := Prod.fst) he
      constructor
      · rintro rfl
        exact hcrest hmem'
      · rintro rfl
        exact hqrest.1 hmem'
    rw [hunc e.1 hne.1 hne.2]
    exact h.works e (List.mem_cons_of_mem _ he)
  · rw [hrunning]
    refine (hperm.append_right [q]).trans ?_
    split
    · rw [List.append_nil, List.append_assoc, List.append_assoc]
      exact (List.perm_append_comm).append_left due
    · rw [List.append_nil, List.map_append, List.append_assoc]
      exact List.Perm.refl _
  · refine (List.Perm.nodup_iff ?_).2 hnd
    split
    · simp only [List.append_nil, List.map_append, List.append_assoc, List.singleton_append]
      exact (List.perm_middle.symm).append_left due
    · rw [List.append_nil, List.map_append, List.map_append, List.append_assoc]
      exact List.Perm.refl _
  · intro e he
    rcases List.mem_append.1 he with he | he
    · exact h.pos e he
    · split at he
      · cases he
      · rename_i hw
        rw [List.mem_singleton.1 he]
        have := h.nonneg (q, w) (List.mem_cons_self ..)
        change 0 ≤ w at this
        change 0 < w
        omega
  · rw [hncfg]
    split <;> simp only [List.append_nil, List.length_append, List.length_singleton] <;> omega
  · intro _
    rw [hncfg]
    split <;> simp only [List.append_nil, List.length_append, List.length_singleton] <;> omega

/-- A batch step. -/
theorem Driven.tick {q : RequestId} {u : ℤ} (h : Driven cfg [] ((q, u) :: pipe) waiting n)
    (now : Time) :
    ∃ n', (tickBatchStep now).run n = .ok (now + ((min u cfg.prefillChunkSize : ℤ) : ℚ) *
        cfg.prefillCostPerTokenMs, [], if u ≤ cfg.prefillChunkSize then some q else none) n' ∧
      if u ≤ cfg.prefillChunkSize then Driven cfg [q] pipe waiting n'
      else Driven cfg [] ((q, u - cfg.prefillChunkSize) :: pipe) waiting n' := by
  obtain ⟨n', hrun, hb⟩ := run_tickBatchStep_prefill now h.decoding h.pipeline
  rw [h.modelConfig] at hrun hb
  have hnd := h.nodup
  simp only [List.nil_append, List.cons_append, List.map_append, List.map_cons, List.nodup_cons,
    List.mem_append, not_or] at hnd
  have hother : ∀ es : List (RequestId × ℤ), q ∉ es.map Prod.fst → ∀ e ∈ es, e.1 ≠ q := by
    rintro es hq e he rfl
    exact hq (List.mem_map_of_mem he)
  have hworks : ∀ e ∈ waiting, n'.uncachedOf e.1 = some e.2 := fun e he =>
    (hb.uncachedOf e.1 (hother waiting hnd.1.2 e he)).trans (h.works e he)
  have hrunning := h.running
  have hfits := h.fits
  have hfull := h.full
  refine ⟨n', hrun, ?_⟩
  by_cases hu : u ≤ cfg.prefillChunkSize
  · rw [if_pos hu] at hb ⊢
    refine ⟨hb.modelConfig.trans h.modelConfig, hb.decoding.trans h.decoding, ?_,
      hb.queue.trans h.queue, hworks, ?_, ?_, fun e he => h.pos e (List.mem_cons_of_mem _ he),
      h.nonneg, ?_, ?_⟩
    · rw [hb.prefillRemaining]
      exact PyDict.entries_erase_head h.pipeline
    · rw [hb.runningRequests]
      exact hrunning
    · simpa [List.map_append] using h.nodup
    · rw [hb.nodeConfig]
      simpa [Nat.add_comm] using hfits
    · rw [hb.nodeConfig]
      simpa [Nat.add_comm] using hfull
  · rw [if_neg hu] at hb ⊢
    refine ⟨hb.modelConfig.trans h.modelConfig, hb.decoding.trans h.decoding, ?_,
      hb.queue.trans h.queue, hworks, ?_, h.nodup, ?_, h.nonneg, ?_, ?_⟩
    · rw [hb.prefillRemaining]
      exact PyDict.entries_set_head h.pipeline _
    · rw [hb.runningRequests]
      exact hrunning
    · intro e he
      rcases List.mem_cons.1 he with rfl | he
      · change 0 < u - cfg.prefillChunkSize
        omega
      · exact h.pos e (List.mem_cons_of_mem _ he)
    · rw [hb.nodeConfig]
      exact hfits
    · rw [hb.nodeConfig]
      exact hfull

end Driven

/-! ### The work ahead -/

/-- The uncached tokens of some requests. -/
def work (es : List (RequestId × ℤ)) : ℤ := (es.map Prod.snd).sum

/-- The requests that have uncached tokens. -/
def withWork (es : List (RequestId × ℤ)) : List (RequestId × ℤ) := es.filter fun e => 0 < e.2

/-- The tokens that are served until the prefill of `r` completes.  A prefill with uncached tokens
that nobody is behind waits for all the others.  A request without uncached tokens that is the last
in the queue waits for its slot only: it is released as soon as all the requests before it have
slots, of which those with uncached tokens keep theirs for a while. -/
inductive Ahead (r : RequestId) (due : List RequestId) (pipe waiting : List (RequestId × ℤ)) : ℤ → Prop
  | due (hr : r ∈ due) : Ahead r due pipe waiting 0
  | last {pre : List (RequestId × ℤ)} {u : ℤ} (hr : r ∉ due) (hu : 0 < u)
      (h : pipe ++ waiting = pre ++ [(r, u)]) : Ahead r due pipe waiting (work (pipe ++ waiting))
  | slot {pre : List (RequestId × ℤ)} (hr : r ∉ due) (h : waiting = pre ++ [(r, 0)]) :
      Ahead r due pipe waiting
        (work ((pipe ++ withWork pre).take ((withWork pre).length + 1 - due.length)))

section Ahead

variable {due : List RequestId} {pipe waiting rest : List (RequestId × ℤ)} {c : RequestId}
  {u w L : ℤ}

@[simp] theorem work_nil : work [] = 0 := rfl

@[simp] theorem work_cons (e : RequestId × ℤ) (es : List (RequestId × ℤ)) :
    work (e :: es) = e.2 + work es := by
  rw [work, List.map_cons, List.sum_cons, work]

@[simp] theorem work_append (es es' : List (RequestId × ℤ)) :
    work (es ++ es') = work es + work es' := by
  rw [work, List.map_append, List.sum_append, work, work]

theorem withWork_cons_zero (q : RequestId) (es : List (RequestId × ℤ)) :
    withWork ((q, 0) :: es) = withWork es := by
  rw [withWork, List.filter_cons_of_neg (by simp), withWork]

theorem withWork_cons_pos (q : RequestId) (hw : 0 < w) (es : List (RequestId × ℤ)) :
    withWork ((q, w) :: es) = (q, w) :: withWork es := by
  rw [withWork, List.filter_cons_of_pos (by simpa using hw), withWork]

/-- The completion of another prefill, on a node that queues nothing. -/
theorem Ahead.release_nil (h : Ahead r (c :: due) pipe [] L) (hc : c ≠ r) :
    Ahead r due pipe [] L := by
  cases h with
  | due hr => exact .due ((List.mem_cons.1 hr).resolve_left (Ne.symm hc))
  | last hr hu h => exact .last (fun hmem => hr (List.mem_cons_of_mem _ hmem)) hu h
  | slot hr h => exact absurd h (by simp)

/-- The completion of another prefill, on a node with a queue: the work ahead stays the same. -/
theorem Ahead.release_cons (h : Ahead r (c :: due) pipe ((q, w) :: rest) L) (hc : c ≠ r)
    (hw : 0 ≤ w) (hnd : ((pipe ++ (q, w) :: rest).map Prod.fst).Nodup) :
    Ahead r (due ++ if w = 0 then [q] else []) (pipe ++ if w = 0 then [] else [(q, w)]) rest L := by
  cases h with
  | due hr =>
      exact .due (List.mem_append_left _ ((List.mem_cons.1 hr).resolve_left (Ne.symm hc)))
  | @last pre u hr hu h =>
      have hdue : r ∉ due := fun hmem => hr (List.mem_cons_of_mem _ hmem)
      by_cases hzero : w = 0
      · subst hzero
        -- the last one has work, so that it is another one
        obtain ⟨e, rest', rfl⟩ : ∃ e rest', rest = rest' ++ [e] := by
          rcases List.eq_nil_or_concat rest with rfl | ⟨rest', e, rfl⟩
          · have hlast := (List.append_inj' h rfl).2
            cases hlast
            exact absurd hu (lt_irrefl 0)
          · exact ⟨e, rest', List.concat_eq_append⟩
        have hsplit : pipe ++ (q, 0) :: (rest' ++ [e]) = (pipe ++ (q, 0) :: rest') ++ [e] := by simp
        have hlast := (List.append_inj' (hsplit.symm.trans h) rfl).2
        cases hlast
        have hqr : q ≠ r := by
          rintro rfl
          rw [List.map_append, List.map_cons, List.map_append, List.nodup_append,
            List.nodup_cons] at hnd
          exact hnd.2.1.1 (by simp)
        have hsame : work (pipe ++ (q, 0) :: (rest' ++ [(r, u)])) =
            work (pipe ++ [] ++ (rest' ++ [(r, u)])) := by simp
        rw [hsame]
        exact @Ahead.last _ _ _ _ (pipe ++ rest') _ (by simp [hdue, Ne.symm hqr]) hu (by simp)
      · rw [if_neg hzero, if_neg hzero]
        have hsame : pipe ++ (q, w) :: rest = (pipe ++ [(q, w)]) ++ rest := by simp
        rw [hsame] at h ⊢
        exact .last (by simpa using hdue) hu h
  | @slot pre hr h =>
      have hdue : r ∉ due := fun hmem => hr (List.mem_cons_of_mem _ hmem)
      cases pre with
      | nil =>
          -- the request gets the slot, and is done
          cases h
          rw [show (withWork []).length + 1 - (c :: due).length = 0 by simp [withWork],
            List.take_zero, work_nil]
          exact .due (by simp)
      | cons e pre =>
          obtain ⟨rfl, rfl⟩ := List.cons.inj h
          have hqr : q ≠ r := by
            rintro rfl
            rw [List.map_append, List.map_cons, List.nodup_append, List.nodup_cons] at hnd
            exact hnd.2.1.1 (by simp)
          by_cases hzero : w = 0
          · subst hzero
            have hlen : (due ++ [q]).length = (c :: due).length := by simp
            rw [withWork_cons_zero, if_pos rfl, if_pos rfl, List.append_nil, ← hlen]
            refine .slot ?_ rfl
            simpa using ⟨hdue, Ne.symm hqr⟩
          · have hpos : 0 < w := by omega
            rw [if_neg hzero, if_neg hzero, withWork_cons_pos _ hpos]
            have hneed : ((q, w) :: withWork pre).length + 1 - (c :: due).length =
                (withWork pre).length + 1 - (due ++ []).length := by
              simp only [List.length_cons, List.append_nil]
              omega
            have hsame : pipe ++ (q, w) :: withWork pre = (pipe ++ [(q, w)]) ++ withWork pre := by
              simp
            rw [hneed, hsame]
            exact .slot (by simpa using hdue) rfl

/-- The oldest prefill of the pipeline is drained. -/
theorem Ahead.drain (h : Ahead r [] ((q, u) :: pipe) waiting L)
    (hnd : (((q, u) :: pipe ++ waiting).map Prod.fst).Nodup) : Ahead r [q] pipe waiting (L - u) := by
  cases h with
  | due hr => cases hr
  | @last pre v hr hv h =>
      rw [List.cons_append] at h hnd ⊢
      cases pre with
      | nil =>
          obtain ⟨he, hnil⟩ := List.cons.inj h
          cases he
          rw [hnil, work_cons, work_nil, add_zero, sub_self]
          exact .due (List.mem_singleton_self _)
      | cons e pre =>
          obtain ⟨rfl, hrest⟩ := List.cons.inj h
          have hqr : q ≠ r := by
            rintro rfl
            rw [List.map_cons, List.nodup_cons, hrest] at hnd
            exact hnd.1 (by simp)
          rw [work_cons, add_sub_cancel_left]
          exact .last (by simpa using Ne.symm hqr) hv hrest
  | @slot pre hr h =>
      have hqr : q ≠ r := by
        rintro rfl
        rw [List.cons_append, List.map_cons, List.nodup_cons, h] at hnd
        exact hnd.1 (by simp)
      have hwork : work ((((q, u) :: pipe) ++ withWork pre).take
          ((withWork pre).length + 1 - ([] : List RequestId).length)) - u =
            work ((pipe ++ withWork pre).take ((withWork pre).length + 1 - [q].length)) := by
        rw [List.length_nil, Nat.sub_zero, List.length_singleton, Nat.add_sub_cancel,
          List.cons_append, List.take_succ_cons, work_cons, add_sub_cancel_left]
      rw [hwork]
      exact .slot (by simpa using Ne.symm hqr) h

/-- The oldest prefill of the pipeline advances by a chunk. -/
theorem Ahead.chunk (h : Ahead r [] ((q, u) :: pipe) waiting L) (hwu : w < u) :
    Ahead r [] ((q, u - w) :: pipe) waiting (L - w) := by
  cases h with
  | due hr => cases hr
  | @last pre v hr hv h =>
      rw [List.cons_append] at h ⊢
      have hwork : work ((q, u) :: (pipe ++ waiting)) - w =
          work ((q, u - w) :: pipe ++ waiting) := by
        rw [List.cons_append, work_cons, work_cons]
        ring
      rw [hwork]
      cases pre with
      | nil =>
          obtain ⟨he, hnil⟩ := List.cons.inj h
          cases he
          exact @Ahead.last _ _ _ _ [] (u - w) hr (by omega) (by rw [List.cons_append, hnil]; rfl)
      | cons e pre =>
          obtain ⟨rfl, hrest⟩ := List.cons.inj h
          exact @Ahead.last _ _ _ _ ((q, u - w) :: pre) _ hr hv
            (by rw [List.cons_append, hrest]; rfl)
  | @slot pre hr h =>
      have hwork : work ((((q, u) :: pipe) ++ withWork pre).take
          ((withWork pre).length + 1 - ([] : List RequestId).length)) - w =
            work ((((q, u - w) :: pipe) ++ withWork pre).take
              ((withWork pre).length + 1 - ([] : List RequestId).length)) := by
        rw [List.length_nil, Nat.sub_zero, List.cons_append, List.cons_append, List.take_succ_cons,
          List.take_succ_cons, work_cons, work_cons]
        ring
      rw [hwork]
      exact .slot hr h

end Ahead

/-! ### The end of a prefill -/

/-- What is left to do: a completion takes one call, a request of the queue two, and a prefill at
most one batch step for each token. -/
def callsLeft (due : List RequestId) (pipe waiting : List (RequestId × ℤ)) : ℕ :=
  due.length + (pipe.map fun e => 1 + e.2.toNat).sum + (waiting.map fun e => 2 + e.2.toNat).sum

/-- **The prefill of a request completes when the work ahead of it is done**, whatever fuel is left
over. -/
theorem Driven.run_drivePrefill {cfg : ModelConfig} (m : ℕ) :
    ∀ {due : List RequestId} {pipe waiting : List (RequestId × ℤ)} {n : MockEngineNode} {L : ℤ}
      (now : Time), Driven cfg due pipe waiting n → Ahead r due pipe waiting L →
      callsLeft due pipe waiting = m → ∀ fuel, m < fuel →
        ∃ n', (drivePrefill r fuel now due).run n =
          .ok (now + L * cfg.prefillCostPerTokenMs) n' := by
  induction m using Nat.strong_induction_on with
  | _ m ih =>
      intro due pipe waiting n L now hd ha hm fuel hfuel
      obtain ⟨fuel, rfl⟩ := Nat.exists_eq_add_one.2 (Nat.zero_lt_of_lt hfuel)
      cases due with
      | cons c due =>
          by_cases hc : c = r
          · subst hc
            have hL : L = 0 := by
              cases ha with
              | due => rfl
              | last hr => exact absurd (List.mem_cons_self ..) hr
              | slot hr => exact absurd (List.mem_cons_self ..) hr
            refine ⟨n, ?_⟩
            rw [drivePrefill, if_pos rfl, hL, Int.cast_zero, zero_mul, add_zero]
            rfl
          · cases waiting with
            | nil =>
                obtain ⟨n', hrun, hd'⟩ := hd.release_nil
                have hlt : callsLeft due pipe [] < m := by
                  rw [← hm]
                  simp only [callsLeft, List.length_cons]
                  omega
                obtain ⟨n'', hdrive⟩ := ih _ hlt now hd' (ha.release_nil hc) rfl fuel (by omega)
                refine ⟨n'', ?_⟩
                rw [drivePrefill, if_neg hc, Py.run_bind_ok hrun, List.append_nil]
                exact hdrive
            | cons e rest =>
                obtain ⟨q, w⟩ := e
                have hw := hd.nonneg (q, w) (List.mem_cons_self ..)
                have hnd : ((pipe ++ (q, w) :: rest).map Prod.fst).Nodup :=
                  hd.nodup.sublist (List.sublist_append_right _ _)
                obtain ⟨n', hrun, hd'⟩ := hd.release_cons
                have hlt : callsLeft (due ++ if w = 0 then [q] else [])
                    (pipe ++ if w = 0 then [] else [(q, w)]) rest < m := by
                  rw [← hm]
                  split
                  · simp [callsLeft]
                  · simp [callsLeft]
                    omega
                obtain ⟨n'', hdrive⟩ :=
                  ih _ hlt now hd' (ha.release_cons hc hw hnd) rfl fuel (by omega)
                refine ⟨n'', ?_⟩
                rw [drivePrefill, if_neg hc, Py.run_bind_ok hrun]
                exact hdrive
      | nil =>
          cases pipe with
          | nil =>
              -- an idle node has nothing to do for the request
              have hcap := n.nodeConfig.one_le_capacity
              have hnil : waiting = [] := by
                by_contra hne
                have hfull := hd.full hne
                simp only [List.length_nil] at hfull
                omega
              subst hnil
              cases ha with
              | due hr => cases hr
              | last hr hu h => exact absurd h (by simp)
              | slot hr h => exact absurd h (by simp)
          | cons e pipe =>
              obtain ⟨q, u⟩ := e
              have hu := hd.pos (q, u) (List.mem_cons_self ..)
              have hchunk := cfg.one_le_prefillChunkSize
              obtain ⟨n', hrun, hd'⟩ := hd.tick now
              by_cases hle : u ≤ cfg.prefillChunkSize
              · rw [if_pos hle] at hrun hd'
                have hlt : callsLeft [q] pipe waiting < m := by
                  rw [← hm]
                  simp only [callsLeft, List.length_cons, List.length_nil, List.map_cons,
                    List.sum_cons]
                  change 0 < u at hu
                  omega
                obtain ⟨n'', hdrive⟩ := ih _ hlt
                  (now + ((min u cfg.prefillChunkSize : ℤ) : ℚ) * cfg.prefillCostPerTokenMs) hd'
                  (ha.drain hd.nodup) rfl fuel (by omega)
                refine ⟨n'', ?_⟩
                rw [drivePrefill, Py.run_bind_ok hrun]
                refine hdrive.trans ?_
                rw [min_eq_left hle]
                push_cast
                ring_nf
              · rw [if_neg hle] at hrun hd'
                have hlt : callsLeft [] ((q, u - cfg.prefillChunkSize) :: pipe) waiting < m := by
                  rw [← hm]
                  simp only [callsLeft, List.length_nil, List.map_cons, List.sum_cons]
                  omega
                obtain ⟨n'', hdrive⟩ := ih _ hlt
                  (now + ((min u cfg.prefillChunkSize : ℤ) : ℚ) * cfg.prefillCostPerTokenMs) hd'
                  (ha.chunk (by omega)) rfl fuel (by omega)
                refine ⟨n'', ?_⟩
                rw [drivePrefill, Py.run_bind_ok hrun]
                refine hdrive.trans ?_
                rw [min_eq_right (by omega)]
                push_cast
                ring_nf

end MockEngineNode

end NanoKVRouter
