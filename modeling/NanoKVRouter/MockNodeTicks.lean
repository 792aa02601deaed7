/-
**A batch step on the records of a node.**

A batch step touches three things of a record, in this order: the tokens the oldest prefill has
left, the tokens a decode stream has made, and, if the oldest prefill is drained, its phase.  It
returns whenever there is work to do and every decode stream has its two counters; it raises
`KeyError` for no other reason than a stream without them.

Main definitions:

* `MockEngineNode.tickedState` — the record of a request after a batch step;
* `MockEngineNode.Counted` — every decode stream has its counters.

Main results:

* `MockEngineNode.run_tickBatchStep_ok` — **a batch step with work to do returns if every stream is
  counted**;
* `MockEngineNode.tickBatchStep_states` — what a batch step that returned did to the records.
-/

import NanoKVRouter.MockNodeSpec

set_option relaxedAutoImplicit false
set_option autoImplicit false

namespace NanoKVRouter

namespace MockEngineNode

variable {n n' : MockEngineNode} {r : RequestId}

/-! ### Records after a batch step -/

/-- A record after the prefill chunk. -/
def chunkedState (n : MockEngineNode) (r : RequestId) (state : NodeRequestState) :
    NodeRequestState :=
  match n.prefillRemaining.entries with
  | [] => state
  | (q, u) :: _ =>
      if r = q then
        { state with uncachedRemaining := u - min u n.modelConfig.prefillChunkSize }
      else
        state

/-- A record after the streams advanced. -/
def streamedState (n : MockEngineNode) (r : RequestId) (state : NodeRequestState) :
    NodeRequestState :=
  if r ∈ n.decoding then
    { state with generatedTokens := n.outputTokens.getD r 0 + 1 }
  else
    state

/-- A record after the oldest prefill is checked. -/
def drainedState (n : MockEngineNode) (r : RequestId) (state : NodeRequestState) :
    NodeRequestState :=
  match n.prefillRemaining.entries with
  | [] => state
  | (q, u) :: _ =>
      if r = q ∧ u ≤ n.modelConfig.prefillChunkSize then prefillDoneState state else state

/-- The record of a request after a batch step. -/
def tickedState (n : MockEngineNode) (r : RequestId) (state : NodeRequestState) :
    NodeRequestState :=
  n.drainedState r (n.streamedState r (n.chunkedState r state))

/-- A change of a record, read at a request. -/
theorem states_modifyState (q : RequestId) (f : NodeRequestState → NodeRequestState)
    (n : MockEngineNode) (r : RequestId) : (n.modifyState q f).states.get? r =
      (n.states.get? r).map fun state => if r = q then f state else state := by
  unfold modifyState
  split
  · rename_i hnone
    by_cases hr : r = q
    · subst hr
      rw [hnone]
      rfl
    · simp only [hr, if_false, Option.map_id']
  · rename_i state hstate
    by_cases hr : r = q
    · subst hr
      simp only [PyDict.get?_set_self, hstate, if_true, Option.map_some]
    · simp only [PyDict.get?_set_of_ne _ _ hr, hr, if_false, Option.map_id']

/-! ### Streams -/

/-- Every decode stream has its two counters. -/
def Counted (n : MockEngineNode) (rs : List RequestId) : Prop :=
  ∀ r ∈ rs, r ∈ n.outputTokens.keys ∧ r ∈ n.expectedOutput.keys

theorem run_advanceStream_ok {g e : ℤ} (hg : n.outputTokens.get? r = some g)
    (he : n.expectedOutput.get? r = some e) :
    (advanceStream r).run n = .ok (decide (g + 1 ≥ e))
      ({ n with outputTokens := n.outputTokens.set r (g + 1) }.modifyState r fun state =>
        { state with generatedTokens := g + 1 }) := by
  simp only [advanceStream, EStateM.run_bind, EStateM.run_get, hg, EStateM.run_set, he,
    EStateM.run_pure]

/-- The streams that are counted advance, and so do the counters in their records. -/
theorem run_advanceStreams_ok {rs : List RequestId} (hnd : rs.Nodup) :
    ∀ {n : MockEngineNode}, n.Counted rs → ∃ completed n',
      (advanceStreams rs).run n = .ok completed n' ∧
      ∀ r, n'.states.get? r = (n.states.get? r).map fun state =>
        if r ∈ rs then
          { state with generatedTokens := n.outputTokens.getD r 0 + 1 }
        else
          state := by
  induction rs with
  | nil =>
      intro n _
      refine ⟨[], n, rfl, fun r => ?_⟩
      simp only [List.not_mem_nil, if_false, Option.map_id']
  | cons q rs ih =>
      intro n hcounted
      obtain ⟨hq, hnd⟩ := List.nodup_cons.1 hnd
      obtain ⟨hout, hexp⟩ := hcounted q List.mem_cons_self
      obtain ⟨g, hg⟩ := PyDict.exists_get?_of_mem_keys hout
      obtain ⟨e, he⟩ := PyDict.exists_get?_of_mem_keys hexp
      have hrest : ({ n with outputTokens := n.outputTokens.set q (g + 1) }.modifyState q
          fun state => { state with generatedTokens := g + 1 }).Counted rs := by
        intro r hr
        obtain ⟨hout, hexp⟩ := hcounted r (List.mem_cons_of_mem _ hr)
        rw [modifyState_outputTokens, modifyState_expectedOutput]
        exact ⟨PyDict.mem_keys_set.2 (Or.inr hout), hexp⟩
      obtain ⟨completed, n', hrun, hstates⟩ := ih hnd hrest
      refine ⟨if decide (g + 1 ≥ e) then q :: completed else completed, n', ?_, fun r => ?_⟩
      · rw [advanceStreams, Py.run_bind_ok (run_advanceStream_ok hg he), Py.run_bind_ok hrun]
        rfl
      · rw [hstates, states_modifyState, Option.map_map, modifyState_outputTokens]
        congr 1
        funext state
        by_cases hr : r = q
        · subst hr
          simp only [Function.comp_apply, hq, if_false, if_true, List.mem_cons_self, PyDict.getD,
            hg, Option.getD_some]
        · simp only [Function.comp_apply, hr, if_false, List.mem_cons, false_or, PyDict.getD,
            PyDict.get?_set_of_ne _ _ hr]

/-! ### The batch step -/

/-- The chunk changes the record of the oldest prefill. -/
theorem states_prefillChunk {p : Option RequestId × Time} (h : prefillChunk.run n = .ok p n')
    (r : RequestId) : n'.states.get? r = (n.states.get? r).map (n.chunkedState r) := by
  rcases run_prefillChunk n with ⟨hnil, hrun⟩ | ⟨q, u, rest, m, hent, -, -⟩
  · rw [hrun] at h
    cases h
    have hid : n.chunkedState r = id := by
      funext state
      rw [chunkedState, hnil]
      rfl
    rw [hid, Option.map_id]
    rfl
  · rw [run_prefillChunk_cons hent] at h
    cases h
    rw [states_modifyState]
    congr 1
    funext state
    rw [chunkedState, hent]

/-- The end of a prefill changes its record. -/
theorem states_finishPrefill {pid pf : Option RequestId}
    (h : (finishPrefill pid).run n = .ok pf n') (r : RequestId) :
    n'.states.get? r = (n.states.get? r).map fun state =>
      if pid = some r ∧ n.prefillRemaining.get? r = some 0 then prefillDoneState state
      else state := by
  cases pid with
  | none =>
      cases h
      simp only [reduceCtorEq, false_and, if_false, Option.map_id']
  | some q =>
      by_cases h0 : n.prefillRemaining.get? q = some 0
      · rw [run_finishPrefill_drained h0] at h
        cases h
        rw [states_modifyState]
        congr 1
        funext state
        by_cases hr : r = q
        · subst hr
          simp only [h0, if_true, and_self]
        · simp only [Option.some_inj, hr, Ne.symm hr, false_and, if_false]
      · rw [run_finishPrefill_left h0] at h
        cases h
        have hnot : ¬ (some q = some r ∧ n.prefillRemaining.get? r = some 0) := by
          rintro ⟨hq, hr⟩
          cases hq
          exact h0 hr
        simp only [hnot, if_false, Option.map_id']

/-- **A batch step with work to do returns if every stream is counted**, and it changes the records
as `tickedState` says. -/
theorem run_tickBatchStep_ok (hwork : n.hasWork = true)
    (hcounted : n.Counted (sortedIds n.decoding)) (now : Time) :
    ∃ T completed pf n', (tickBatchStep now).run n = .ok (T, completed, pf) n' ∧
      ∀ r, n'.states.get? r = (n.states.get? r).map (n.tickedState r) := by
  obtain ⟨pid, cost, n₁, hchunk⟩ : ∃ pid cost n₁, prefillChunk.run n = .ok (pid, cost) n₁ := by
    rcases run_prefillChunk n with ⟨-, hrun⟩ | ⟨q, u, rest, m, -, hrun, -⟩
    · exact ⟨_, _, _, hrun⟩
    · exact ⟨_, _, _, hrun⟩
  have hsame₁ := sameLists_prefillChunk hchunk
  have hcounted₁ : n₁.Counted (sortedIds n₁.decoding) := by
    rw [Counted, hsame₁.decoding, hsame₁.outputTokens, hsame₁.expectedOutput]
    exact hcounted
  obtain ⟨completed, n₂, hstreams, hstates₂⟩ := run_advanceStreams_ok (sortedIds_nodup _) hcounted₁
  have ha := run_advanceStreams (sortedIds_nodup _) hstreams
  obtain ⟨pf, n₃, hfinish⟩ : ∃ pf n₃, (finishPrefill pid).run
      { n₂ with decoding := n₂.decoding.filter (· ∉ completed) } = .ok pf n₃ := by
    rcases run_finishPrefill { n₂ with decoding := n₂.decoding.filter (· ∉ completed) } pid with
      ⟨-, hrun⟩ | ⟨q, m, -, -, hrun, -⟩
    · exact ⟨_, _, hrun⟩
    · exact ⟨_, _, hrun⟩
  refine ⟨now + (cost + if n.decoding.card > 0 then n.estimateDecodeTime n.decoding.card else 0),
    completed, pf, n₃, ?_, fun r => ?_⟩
  · rw [tickBatchStep, Py.run_get_bind]
    simp only [hwork, Bool.not_true, Bool.false_eq_true, if_false]
    rw [Py.run_bind_ok hchunk, Py.run_get_bind]
    dsimp only
    rw [Py.run_bind_ok hstreams, Py.run_modify_bind, Py.run_bind_ok hfinish]
    rfl
  · -- the pipeline that the last part reads is the one that the first part left
    have hpipe : n₂.prefillRemaining = n₁.prefillRemaining := ha.prefillRemaining
    have hdrained : ∀ state, (if pid = some r ∧ n₁.prefillRemaining.get? r = some 0 then
        prefillDoneState state else state) = n.drainedState r state := by
      intro state
      rcases run_prefillChunk n with ⟨hnil, hrun⟩ | ⟨q, u, rest, m, hent, hrun, hs⟩
      · rw [hrun] at hchunk
        cases hchunk
        simp only [drainedState, hnil, reduceCtorEq, false_and, if_false]
      · rw [hrun] at hchunk
        cases hchunk
        have hset : n₁.prefillRemaining = n.prefillRemaining.set q
          (u - min u n.modelConfig.prefillChunkSize) := hs.prefillRemaining
        simp only [drainedState, hent]
        by_cases hr : r = q
        · subst hr
          have hiff : u - min u (n.modelConfig.prefillChunkSize : ℤ) = 0 ↔
            u ≤ n.modelConfig.prefillChunkSize := by omega
          simp only [hset, PyDict.get?_set_self, Option.some_inj, hiff, true_and]
        · simp only [Option.some_inj, hr, Ne.symm hr, false_and, if_false]
    have hread : ∀ state, streamedState n r state = if r ∈ sortedIds n₁.decoding then
        { state with generatedTokens := n₁.outputTokens.getD r 0 + 1 } else state := by
      intro state
      rw [streamedState, hsame₁.decoding, hsame₁.outputTokens]
      simp only [mem_sortedIds]
      rfl
    rw [states_finishPrefill hfinish, hstates₂, states_prefillChunk hchunk, Option.map_map,
      Option.map_map]
    congr 1
    funext state
    simp only [Function.comp_apply, tickedState, hread, ← hdrained, ← hpipe]

/-- What a batch step that returned did to the records. -/
theorem tickBatchStep_states {now T : Time} {completed : List RequestId} {pf : Option RequestId}
    (h : (tickBatchStep now).run n = .ok (T, completed, pf) n') (r : RequestId) :
    n'.states.get? r = (n.states.get? r).map (n.tickedState r) := by
  obtain ⟨hwork, ht⟩ := ticked_of_run h
  have hcounted : n.Counted (sortedIds n.decoding) := by
    intro q hq
    obtain ⟨g, e, hg, he, -⟩ := ht.outputTokens q (mem_sortedIds.1 hq)
    exact ⟨PyDict.mem_keys_of_get? hg, PyDict.mem_keys_of_get? he⟩
  obtain ⟨T', completed', pf', m, hrun, hstates⟩ := run_tickBatchStep_ok hwork hcounted now
  rw [hrun] at h
  cases h
  exact hstates r

/-- A batch step with no work to do raises and leaves the node as it is. -/
theorem run_tickBatchStep_idle (hwork : n.hasWork = false) (now : Time) :
    (tickBatchStep now).run n =
      .error (.runtimeError s!"node {n.nodeId}: tick on idle node") n := by
  rw [tickBatchStep, Py.run_get_bind]
  simp only [hwork, Bool.not_false, if_true, Py.run_raise]

section Ticked

variable {now T : Time} {completed : List RequestId} {pf : Option RequestId}

/-- No request enters the pipeline in a batch step. -/
theorem Ticked.mem_keys_prefill (ht : Ticked n now T completed pf n')
    (h : r ∈ n'.prefillRemaining.keys) : r ∈ n.prefillRemaining.keys := by
  rcases ht.pipeline with ⟨-, -, hpipe, -⟩ | ⟨q, u, rest, hent, -, hpipe⟩
  · exact hpipe ▸ h
  · have hq : q ∈ n.prefillRemaining.keys :=
      PyDict.mem_keys.2 ⟨u, hent ▸ List.mem_cons_self⟩
    split at hpipe
    · rw [hpipe.2] at h
      exact (PyDict.mem_keys_erase.1 h).2
    · rw [hpipe.2] at h
      rcases PyDict.mem_keys_set.1 h with rfl | h
      · exact hq
      · exact h

/-- The counters stay. -/
theorem Ticked.mem_keys_outputTokens (ht : Ticked n now T completed pf n')
    (h : r ∈ n.outputTokens.keys) : r ∈ n'.outputTokens.keys := by
  by_cases hr : r ∈ n.decoding
  · obtain ⟨g, e, -, -, hout, -⟩ := ht.outputTokens r hr
    exact PyDict.mem_keys_of_get? hout
  · rw [← PyDict.contains_iff, PyDict.contains, ht.outputTokens_other r hr]
    exact PyDict.contains_iff.2 h

end Ticked

end MockEngineNode

end NanoKVRouter
