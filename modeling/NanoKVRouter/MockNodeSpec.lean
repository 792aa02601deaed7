/-
**What the calls of a node do.**

Every call of a node is described by the node it leaves: which lists, sets and counters change, and
that the others stay.  The invariants of the simulator use these descriptions only.

Main definitions:

* `MockEngineNode.Fits` — a node runs at most its capacity, and queues requests only when it is full;
* `MockEngineNode.without`, `MockEngineNode.nextPromoted`, `MockEngineNode.afterPromote` — the two
  halves of a completion;
* `MockEngineNode.Ticked` — what a batch step does to the streams and to the prefill pipeline.

Main results:

* `MockEngineNode.run_complete` — a completion, or `ValueError` and no change;
* `MockEngineNode.ticked_of_run` — **a batch step that returns does what `Ticked` says**.
-/

import NanoKVRouter.MockNode

set_option relaxedAutoImplicit false
set_option autoImplicit false

namespace NanoKVRouter

namespace MockEngineNode

variable {n n' : MockEngineNode} {r : RequestId}

/-! ### Records -/

section ModifyState

variable (q : RequestId) (f : NodeRequestState → NodeRequestState) (n : MockEngineNode)

/-- A change of a record changes the records only. -/
theorem modifyState_eq : ∃ st, n.modifyState q f = { n with states := st } := by
  unfold modifyState
  split
  · exact ⟨n.states, rfl⟩
  · exact ⟨_, rfl⟩

@[simp] theorem modifyState_nodeId : (n.modifyState q f).nodeId = n.nodeId := by
  obtain ⟨st, h⟩ := modifyState_eq q f n
  rw [h]

@[simp] theorem modifyState_modelConfig : (n.modifyState q f).modelConfig = n.modelConfig := by
  obtain ⟨st, h⟩ := modifyState_eq q f n
  rw [h]

@[simp] theorem modifyState_nodeConfig : (n.modifyState q f).nodeConfig = n.nodeConfig := by
  obtain ⟨st, h⟩ := modifyState_eq q f n
  rw [h]

@[simp] theorem modifyState_runningRequests :
    (n.modifyState q f).runningRequests = n.runningRequests := by
  obtain ⟨st, h⟩ := modifyState_eq q f n
  rw [h]

@[simp] theorem modifyState_queue : (n.modifyState q f).queue = n.queue := by
  obtain ⟨st, h⟩ := modifyState_eq q f n
  rw [h]

@[simp] theorem modifyState_decoding : (n.modifyState q f).decoding = n.decoding := by
  obtain ⟨st, h⟩ := modifyState_eq q f n
  rw [h]

@[simp] theorem modifyState_outputTokens : (n.modifyState q f).outputTokens = n.outputTokens := by
  obtain ⟨st, h⟩ := modifyState_eq q f n
  rw [h]

@[simp] theorem modifyState_expectedOutput :
    (n.modifyState q f).expectedOutput = n.expectedOutput := by
  obtain ⟨st, h⟩ := modifyState_eq q f n
  rw [h]

@[simp] theorem modifyState_batchStepInFlight :
    (n.modifyState q f).batchStepInFlight = n.batchStepInFlight := by
  obtain ⟨st, h⟩ := modifyState_eq q f n
  rw [h]

@[simp] theorem modifyState_prefillRemaining :
    (n.modifyState q f).prefillRemaining = n.prefillRemaining := by
  obtain ⟨st, h⟩ := modifyState_eq q f n
  rw [h]

end ModifyState

/-- The nodes differ in their records only. -/
structure SameLists (n n' : MockEngineNode) : Prop where
  nodeId : n'.nodeId = n.nodeId
  modelConfig : n'.modelConfig = n.modelConfig
  nodeConfig : n'.nodeConfig = n.nodeConfig
  runningRequests : n'.runningRequests = n.runningRequests
  queue : n'.queue = n.queue
  decoding : n'.decoding = n.decoding
  outputTokens : n'.outputTokens = n.outputTokens
  expectedOutput : n'.expectedOutput = n.expectedOutput
  batchStepInFlight : n'.batchStepInFlight = n.batchStepInFlight
  prefillRemaining : n'.prefillRemaining = n.prefillRemaining

/-! ### Admission and promotion -/

/-- There is room for another running request. -/
def HasRoom (n : MockEngineNode) : Prop := n.runningRequests.length < n.nodeConfig.capacity

instance : DecidablePred HasRoom := fun n =>
  inferInstanceAs (Decidable (n.runningRequests.length < n.nodeConfig.capacity))

/-- The node runs at most its capacity, and queues requests only when it is full. -/
structure Fits (n : MockEngineNode) : Prop where
  running_le : n.runningRequests.length ≤ n.nodeConfig.capacity
  full : n.queue ≠ [] → n.nodeConfig.capacity ≤ n.runningRequests.length

/-- The node after an admission, up to its records. -/
def admitted (n : MockEngineNode) (r : RequestId) (expectedOutputLen : ℤ) : MockEngineNode :=
  if n.HasRoom then
    { n with
      runningRequests := n.runningRequests ++ [r]
      outputTokens := n.outputTokens.set r 0
      expectedOutput := n.expectedOutput.set r expectedOutputLen }
  else
    { n with queue := n.queue ++ [r] }

section Admitted

variable (e : ℤ)

@[simp] theorem admitted_modelConfig : (n.admitted r e).modelConfig = n.modelConfig := by
  rw [admitted]
  split <;> rfl

@[simp] theorem admitted_decoding : (n.admitted r e).decoding = n.decoding := by
  rw [admitted]
  split <;> rfl

@[simp] theorem admitted_prefillRemaining :
    (n.admitted r e).prefillRemaining = n.prefillRemaining := by
  rw [admitted]
  split <;> rfl

@[simp] theorem admitted_batchStepInFlight :
    (n.admitted r e).batchStepInFlight = n.batchStepInFlight := by
  rw [admitted]
  split <;> rfl

end Admitted

theorem run_admitRequest {e : ℤ} {pl ut : Option ℤ} {b : Bool}
    (h : (admitRequest r e pl ut).run n = .ok b n') :
    b = decide n.HasRoom ∧ SameLists (n.admitted r e) n' := by
  simp only [admitRequest, EStateM.run_bind, EStateM.run_get] at h
  by_cases hroom : n.runningRequests.length < n.nodeConfig.capacity
  · have hroom' : n.HasRoom := hroom
    simp only [hroom, decide_true, if_true] at h
    cases h
    refine ⟨by simp [hroom'], ?_⟩
    simp only [admitted, hroom', if_true]
    exact ⟨rfl, rfl, rfl, rfl, rfl, rfl, rfl, rfl, rfl, rfl⟩
  · have hroom' : ¬ n.HasRoom := hroom
    simp only [hroom, decide_false, Bool.false_eq_true, if_false] at h
    cases h
    refine ⟨by simp [hroom'], ?_⟩
    simp only [admitted, hroom', if_false]
    exact ⟨rfl, rfl, rfl, rfl, rfl, rfl, rfl, rfl, rfl, rfl⟩

/-- The calls on a running request. -/
theorem run_requireRunning_bind {method : String} {f : Unit → Py MockEngineNode Unit}
    (h : (requireRunning method r >>= f).run n = .ok () n') :
    r ∈ n.runningRequests ∧ (f ()).run n = .ok () n' := by
  simp only [requireRunning, EStateM.run_bind, EStateM.run_get] at h
  by_cases hr : r ∈ n.runningRequests
  · simp only [hr, if_true, EStateM.run_pure] at h
    exact ⟨hr, h⟩
  · simp [hr] at h

theorem run_startDecode (h : (startDecode r).run n = .ok () n') :
    r ∈ n.runningRequests ∧ SameLists { n with decoding := insert r n.decoding } n' := by
  obtain ⟨hr, h⟩ := run_requireRunning_bind h
  rw [EStateM.run_modify, EStateM.Result.ok.injEq] at h
  obtain ⟨-, rfl⟩ := h
  exact ⟨hr, by constructor <;> simp⟩

theorem run_initPromoted {e : ℤ} {pl ut : Option ℤ} (h : (initPromoted r e pl ut).run n = .ok () n') :
    r ∈ n.runningRequests ∧ SameLists { n with
      outputTokens := n.outputTokens.set r 0
      expectedOutput := n.expectedOutput.set r e } n' := by
  obtain ⟨hr, h⟩ := run_requireRunning_bind h
  rw [EStateM.run_modify, EStateM.Result.ok.injEq] at h
  obtain ⟨-, rfl⟩ := h
  exact ⟨hr, by constructor <;> rfl⟩

theorem run_enterPrefill {u : ℤ} (h : (enterPrefill r u).run n = .ok () n') :
    r ∈ n.runningRequests ∧
      SameLists { n with prefillRemaining := n.prefillRemaining.set r u } n' := by
  obtain ⟨hr, h⟩ := run_requireRunning_bind h
  rw [EStateM.run_modify, EStateM.Result.ok.injEq] at h
  obtain ⟨-, rfl⟩ := h
  exact ⟨hr, by constructor <;> simp⟩

theorem run_markPrefillDone (h : (markPrefillDone r).run n = .ok () n') :
    r ∈ n.runningRequests ∧ SameLists n n' := by
  obtain ⟨hr, h⟩ := run_requireRunning_bind h
  rw [EStateM.run_modify, EStateM.Result.ok.injEq] at h
  obtain ⟨-, rfl⟩ := h
  exact ⟨hr, by constructor <;> simp⟩

/-! ### Completion -/

/-- The node without a request; one that runs is taken off the running list only. -/
def without (n : MockEngineNode) (r : RequestId) : MockEngineNode :=
  { n with
    runningRequests := n.runningRequests.erase r
    queue := if r ∈ n.runningRequests then n.queue else n.queue.erase r
    outputTokens := n.outputTokens.erase r
    expectedOutput := n.expectedOutput.erase r
    decoding := n.decoding.erase r
    prefillRemaining := n.prefillRemaining.erase r
    states := n.states.erase r }

/-- The request that is promoted next, if there is room for it. -/
def nextPromoted (n : MockEngineNode) : Option RequestId :=
  if n.HasRoom then n.queue.head? else none

/-- The node after a promotion. -/
def afterPromote (n : MockEngineNode) : MockEngineNode :=
  match n.nextPromoted with
  | none => n
  | some q =>
      { n with
        queue := n.queue.tail
        runningRequests := n.runningRequests ++ [q] }.modifyState q fun state =>
          { state with phase := .admitted, blocksPrefillSlot := true }

@[simp] theorem afterPromote_nodeConfig : n.afterPromote.nodeConfig = n.nodeConfig := by
  rw [afterPromote]
  split <;> simp

@[simp] theorem afterPromote_decoding : n.afterPromote.decoding = n.decoding := by
  rw [afterPromote]
  split <;> simp

@[simp] theorem afterPromote_outputTokens : n.afterPromote.outputTokens = n.outputTokens := by
  rw [afterPromote]
  split <;> simp

@[simp] theorem afterPromote_expectedOutput :
    n.afterPromote.expectedOutput = n.expectedOutput := by
  rw [afterPromote]
  split <;> simp

@[simp] theorem afterPromote_prefillRemaining :
    n.afterPromote.prefillRemaining = n.prefillRemaining := by
  rw [afterPromote]
  split <;> simp

@[simp] theorem afterPromote_batchStepInFlight :
    n.afterPromote.batchStepInFlight = n.batchStepInFlight := by
  rw [afterPromote]
  split <;> simp

theorem run_promote (n : MockEngineNode) :
    promote.run n = .ok n.nextPromoted n.afterPromote := by
  simp only [promote, EStateM.run_bind, EStateM.run_get, afterPromote, nextPromoted]
  cases hq : n.queue with
  | nil => simp
  | cons q rest =>
      by_cases hroom : n.runningRequests.length < n.nodeConfig.capacity
      · have hroom' : n.HasRoom := hroom
        simp only [hroom, hroom', if_true, List.head?_cons, List.tail_cons]
        rfl
      · have hroom' : ¬ n.HasRoom := hroom
        simp [hroom, hroom']

/-- A completion that finds the request. -/
theorem run_complete (h : r ∈ n.runningRequests ∨ r ∈ n.queue) :
    (complete r).run n = .ok (n.without r).nextPromoted (n.without r).afterPromote := by
  rw [complete, EStateM.run_bind]
  by_cases hr : r ∈ n.runningRequests
  · simp only [remove, EStateM.run_bind, EStateM.run_get, hr, if_true, EStateM.run_set,
      EStateM.run_modify]
    rw [← run_promote, without, if_pos hr]
  · have hq : r ∈ n.queue := h.resolve_left hr
    simp only [remove, EStateM.run_bind, EStateM.run_get, hr, hq, if_true, if_false,
      EStateM.run_set, EStateM.run_modify]
    rw [← run_promote, without, if_neg hr, List.erase_of_not_mem hr]

/-- A completion that does not find the request changes nothing. -/
theorem run_complete_absent (hr : r ∉ n.runningRequests) (hq : r ∉ n.queue) :
    (complete r).run n = .error (.valueError "list.remove(x): x not in list") n := by
  simp [complete, remove, hr, hq]

/-! ### Capacity -/

theorem Fits.congr (h : n.Fits) (hc : n'.nodeConfig = n.nodeConfig)
    (hr : n'.runningRequests = n.runningRequests) (hq : n'.queue = n.queue) : n'.Fits := by
  constructor
  · rw [hr, hc]
    exact h.running_le
  · rw [hr, hc, hq]
    exact h.full

theorem SameLists.fits (hs : SameLists n n') (h : n.Fits) : n'.Fits :=
  h.congr hs.nodeConfig hs.runningRequests hs.queue

theorem Fits.admitted (h : n.Fits) (r : RequestId) (e : ℤ) : (n.admitted r e).Fits := by
  by_cases hroom : n.HasRoom
  · have hlt : n.runningRequests.length < n.nodeConfig.capacity := hroom
    have hnil : n.queue = [] := by
      by_contra hq
      exact absurd (h.full hq) (not_le.2 hlt)
    rw [MockEngineNode.admitted, if_pos hroom]
    constructor
    · change (n.runningRequests ++ [r]).length ≤ n.nodeConfig.capacity
      rw [List.length_append, List.length_singleton]
      exact hlt
    · exact fun hq => absurd hnil hq
  · rw [MockEngineNode.admitted, if_neg hroom]
    exact ⟨h.running_le, fun _ => not_lt.1 hroom⟩

/-- A promotion fills the slot that has been released. -/
theorem Fits.afterPromote (hle : n.runningRequests.length ≤ n.nodeConfig.capacity)
    (hfull : n.queue ≠ [] → n.nodeConfig.capacity ≤ n.runningRequests.length + 1) :
    n.afterPromote.Fits := by
  rw [MockEngineNode.afterPromote]
  cases hq : n.nextPromoted with
  | none =>
      refine ⟨hle, fun hqueue => ?_⟩
      rw [nextPromoted] at hq
      split at hq
      · exact absurd (List.head?_eq_none_iff.1 hq) hqueue
      · rename_i hroom
        exact not_lt.1 hroom
  | some q =>
      rw [nextPromoted] at hq
      split at hq
      · rename_i hroom
        obtain ⟨rest, hqueue⟩ := List.head?_eq_some_iff.1 hq
        constructor
        · simp only [modifyState_runningRequests, modifyState_nodeConfig, List.length_append,
            List.length_singleton]
          exact hroom
        · intro _
          simp only [modifyState_runningRequests, modifyState_nodeConfig, List.length_append,
            List.length_singleton]
          exact hfull (by rw [hqueue]; exact List.cons_ne_nil _ _)
      · cases hq

/-- **A completion leaves a node that fits.** -/
theorem Fits.complete (h : n.Fits) (hmem : r ∈ n.runningRequests ∨ r ∈ n.queue) :
    (n.without r).afterPromote.Fits := by
  by_cases hr : r ∈ n.runningRequests
  · have hlen := List.length_erase_of_mem hr
    have hpos := List.length_pos_of_mem hr
    have hle := h.running_le
    refine Fits.afterPromote ?_ fun hq => ?_
    · change (n.runningRequests.erase r).length ≤ n.nodeConfig.capacity
      omega
    · change n.nodeConfig.capacity ≤ (n.runningRequests.erase r).length + 1
      have hfull := h.full (by rwa [without, if_pos hr] at hq)
      omega
  · have hq := hmem.resolve_left hr
    have hfull := h.full (List.ne_nil_of_mem hq)
    have hle := h.running_le
    refine Fits.afterPromote ?_ fun _ => ?_
    · change (n.runningRequests.erase r).length ≤ n.nodeConfig.capacity
      rw [List.erase_of_not_mem hr]
      exact hle
    · change n.nodeConfig.capacity ≤ (n.runningRequests.erase r).length + 1
      rw [List.erase_of_not_mem hr]
      omega

/-! ### Batch steps -/

/-- What a batch step at time `now` does: each stream gets a token, a complete one leaves the batch,
and the oldest prefill of the pipeline advances by a chunk or leaves it. -/
structure Ticked (n : MockEngineNode) (now T : Time) (completed : List RequestId)
    (pf : Option RequestId) (n' : MockEngineNode) : Prop where
  nodeId : n'.nodeId = n.nodeId
  modelConfig : n'.modelConfig = n.modelConfig
  nodeConfig : n'.nodeConfig = n.nodeConfig
  runningRequests : n'.runningRequests = n.runningRequests
  queue : n'.queue = n.queue
  batchStepInFlight : n'.batchStepInFlight = n.batchStepInFlight
  expectedOutput : n'.expectedOutput = n.expectedOutput
  decoding : ∀ r, r ∈ n'.decoding ↔ r ∈ n.decoding ∧ r ∉ completed
  completed_nodup : completed.Nodup
  completed_sub : ∀ r ∈ completed, r ∈ n.decoding
  outputTokens_other : ∀ r, r ∉ n.decoding → n'.outputTokens.get? r = n.outputTokens.get? r
  outputTokens : ∀ r ∈ n.decoding, ∃ g e, n.outputTokens.get? r = some g ∧
    n.expectedOutput.get? r = some e ∧ n'.outputTokens.get? r = some (g + 1) ∧
    (r ∈ completed ↔ e ≤ g + 1)
  pipeline : (n.prefillRemaining.entries = [] ∧ pf = none ∧
      n'.prefillRemaining = n.prefillRemaining ∧
      T = now + (if 0 < n.decoding.card then n.estimateDecodeTime n.decoding.card else 0)) ∨
    ∃ q u rest, n.prefillRemaining.entries = (q, u) :: rest ∧
      T = now + (((min u n.modelConfig.prefillChunkSize : ℤ) : ℚ) *
          n.modelConfig.prefillCostPerTokenMs +
        if 0 < n.decoding.card then n.estimateDecodeTime n.decoding.card else 0) ∧
      if u ≤ n.modelConfig.prefillChunkSize then
        pf = some q ∧ n'.prefillRemaining = n.prefillRemaining.erase q
      else pf = none ∧ n'.prefillRemaining =
        n.prefillRemaining.set q (u - n.modelConfig.prefillChunkSize)

/-- The nodes differ in the token counts of the streams `rs`, and in records. -/
structure Advanced (n : MockEngineNode) (rs completed : List RequestId) (n' : MockEngineNode) :
    Prop where
  nodeId : n'.nodeId = n.nodeId
  modelConfig : n'.modelConfig = n.modelConfig
  nodeConfig : n'.nodeConfig = n.nodeConfig
  runningRequests : n'.runningRequests = n.runningRequests
  queue : n'.queue = n.queue
  batchStepInFlight : n'.batchStepInFlight = n.batchStepInFlight
  expectedOutput : n'.expectedOutput = n.expectedOutput
  decoding : n'.decoding = n.decoding
  prefillRemaining : n'.prefillRemaining = n.prefillRemaining
  completed_sub : completed.Sublist rs
  outputTokens_other : ∀ r, r ∉ rs → n'.outputTokens.get? r = n.outputTokens.get? r
  outputTokens : ∀ r ∈ rs, ∃ g e, n.outputTokens.get? r = some g ∧
    n.expectedOutput.get? r = some e ∧ n'.outputTokens.get? r = some (g + 1) ∧
    (r ∈ completed ↔ e ≤ g + 1)

theorem run_advanceStream {done : Bool} (h : (advanceStream r).run n = .ok done n') :
    ∃ g e st, n.outputTokens.get? r = some g ∧ n.expectedOutput.get? r = some e ∧
      done = decide (e ≤ g + 1) ∧
      n' = { n with outputTokens := n.outputTokens.set r (g + 1), states := st } := by
  simp only [advanceStream, EStateM.run_bind, EStateM.run_get] at h
  cases hg : n.outputTokens.get? r with
  | none => simp [hg] at h
  | some g =>
      simp only [hg, EStateM.run_bind, EStateM.run_set] at h
      cases he : n.expectedOutput.get? r with
      | none => simp [he] at h
      | some e =>
          simp only [he, EStateM.run_pure, EStateM.Result.ok.injEq] at h
          obtain ⟨rfl, rfl⟩ := h
          obtain ⟨st, hst⟩ := modifyState_eq r
            (fun state => { state with generatedTokens := g + 1 })
            { n with outputTokens := n.outputTokens.set r (g + 1) }
          exact ⟨g, e, st, rfl, rfl, rfl, hst⟩

/-- The streams are advanced one by one. -/
theorem run_advanceStreams : ∀ {rs : List RequestId} {n n' : MockEngineNode}
    {completed : List RequestId}, rs.Nodup → (advanceStreams rs).run n = .ok completed n' →
    Advanced n rs completed n' := by
  intro rs
  induction rs with
  | nil =>
      intro n n' completed _ h
      simp only [advanceStreams, EStateM.run_pure, EStateM.Result.ok.injEq] at h
      obtain ⟨rfl, rfl⟩ := h
      exact ⟨rfl, rfl, rfl, rfl, rfl, rfl, rfl, rfl, rfl, .slnil, fun _ _ => rfl, by simp⟩
  | cons r rs ih =>
      intro n n' completed hnd h
      obtain ⟨hr, hnd'⟩ := List.nodup_cons.1 hnd
      obtain ⟨done, n₁, h₁, h⟩ := Py.bind_eq_ok.1 h
      obtain ⟨rest, n₂, h₂, h⟩ := Py.bind_eq_ok.1 h
      rw [EStateM.run_pure, EStateM.Result.ok.injEq] at h
      obtain ⟨rfl, rfl⟩ := h
      obtain ⟨g, e, st, hg, he, rfl, rfl⟩ := run_advanceStream h₁
      have ha := ih hnd' h₂
      refine ⟨ha.nodeId, ha.modelConfig, ha.nodeConfig, ha.runningRequests, ha.queue,
        ha.batchStepInFlight, ha.expectedOutput, ha.decoding, ha.prefillRemaining, ?_, ?_, ?_⟩
      · split
        · exact ha.completed_sub.cons_cons r
        · exact ha.completed_sub.cons r
      · intro x hx
        rw [List.mem_cons, not_or] at hx
        rw [ha.outputTokens_other x hx.2, PyDict.get?_set_of_ne _ _ hx.1]
      · intro x hx
        by_cases hxr : x = r
        · subst hxr
          refine ⟨g, e, hg, he, ?_, ?_⟩
          · rw [ha.outputTokens_other x hr, PyDict.get?_set_self]
          · have hnot : x ∉ rest := fun hx => hr (ha.completed_sub.subset hx)
            by_cases hdone : e ≤ g + 1 <;> simp [hdone, hnot]
        · obtain ⟨g', e', hg', he', hout, hiff⟩ :=
            ha.outputTokens x ((List.mem_cons.1 hx).resolve_left hxr)
          rw [PyDict.get?_set_of_ne _ _ hxr] at hg'
          refine ⟨g', e', hg', he', hout, ?_⟩
          rw [← hiff]
          split
          · rw [List.mem_cons, or_iff_right hxr]
          · rfl

/-- The node with another prefill pipeline. -/
def withPipeline (n : MockEngineNode) (d : PyDict RequestId ℤ) : MockEngineNode :=
  { n with prefillRemaining := d }

theorem run_prefillChunk_cons {q : RequestId} {u : ℤ} {rest : List (RequestId × ℤ)}
    (he : n.prefillRemaining.entries = (q, u) :: rest) : prefillChunk.run n = .ok (some q,
      ((min u n.modelConfig.prefillChunkSize : ℤ) : ℚ) * n.modelConfig.prefillCostPerTokenMs)
      ((n.withPipeline (n.prefillRemaining.set q
        (u - min u n.modelConfig.prefillChunkSize))).modifyState q fun state =>
          { state with uncachedRemaining := u - min u n.modelConfig.prefillChunkSize }) := by
  simp only [prefillChunk, EStateM.run_bind, EStateM.run_get, he, EStateM.run_set,
    EStateM.run_pure]
  rfl

theorem run_finishPrefill_drained {q : RequestId} (h0 : n.prefillRemaining.get? q = some 0) :
    (finishPrefill (some q)).run n = .ok (some q)
      ((n.withPipeline (n.prefillRemaining.erase q)).modifyState q prefillDoneState) := by
  simp only [finishPrefill, EStateM.run_bind, EStateM.run_get, h0, if_true, EStateM.run_set,
    EStateM.run_pure]
  rfl

theorem run_finishPrefill_left {q : RequestId} (h0 : n.prefillRemaining.get? q ≠ some 0) :
    (finishPrefill (some q)).run n = .ok none n := by
  simp [finishPrefill, h0]

/-- The first half of a batch step: a chunk of the oldest prefill. -/
theorem run_prefillChunk (n : MockEngineNode) :
    (n.prefillRemaining.entries = [] ∧ prefillChunk.run n = .ok (none, 0) n) ∨
      ∃ q u rest n', n.prefillRemaining.entries = (q, u) :: rest ∧
        prefillChunk.run n = .ok (some q, ((min u n.modelConfig.prefillChunkSize : ℤ) : ℚ) *
          n.modelConfig.prefillCostPerTokenMs) n' ∧
        SameLists (n.withPipeline (n.prefillRemaining.set q
          (u - min u n.modelConfig.prefillChunkSize))) n' := by
  cases he : n.prefillRemaining.entries with
  | nil => exact Or.inl ⟨rfl, by simp [prefillChunk, he]⟩
  | cons e rest =>
      obtain ⟨q, u⟩ := e
      exact Or.inr ⟨q, u, rest, _, rfl, run_prefillChunk_cons he, by constructor <;> simp⟩

/-- The last half of a batch step: a drained prefill leaves the pipeline. -/
theorem run_finishPrefill (n : MockEngineNode) (pid : Option RequestId) :
    ((∀ q, pid = some q → n.prefillRemaining.get? q ≠ some 0) ∧
        (finishPrefill pid).run n = .ok none n) ∨
      ∃ q n', pid = some q ∧ n.prefillRemaining.get? q = some 0 ∧
        (finishPrefill pid).run n = .ok (some q) n' ∧
        SameLists (n.withPipeline (n.prefillRemaining.erase q)) n' := by
  cases pid with
  | none => exact Or.inl ⟨by simp, rfl⟩
  | some q =>
      by_cases h0 : n.prefillRemaining.get? q = some 0
      · exact Or.inr ⟨q, _, rfl, h0, run_finishPrefill_drained h0, by constructor <;> simp⟩
      · refine Or.inl ⟨?_, ?_⟩
        · rintro q' hq'
          cases hq'
          exact h0
        · exact run_finishPrefill_left h0

/-- The chunk changes the pipeline only. -/
theorem sameLists_prefillChunk {p : Option RequestId × Time}
    (h : prefillChunk.run n = .ok p n') :
    SameLists (n.withPipeline n'.prefillRemaining) n' := by
  rcases run_prefillChunk n with ⟨-, hrun⟩ | ⟨q, u, rest, m, -, hrun, hs⟩
  · rw [hrun] at h
    cases h
    exact ⟨rfl, rfl, rfl, rfl, rfl, rfl, rfl, rfl, rfl, rfl⟩
  · rw [hrun] at h
    cases h
    exact { hs with prefillRemaining := rfl }

/-- So does the end of a prefill. -/
theorem sameLists_finishPrefill {pid pf : Option RequestId}
    (h : (finishPrefill pid).run n = .ok pf n') :
    SameLists (n.withPipeline n'.prefillRemaining) n' := by
  rcases run_finishPrefill n pid with ⟨-, hrun⟩ | ⟨q, m, -, -, hrun, hs⟩
  · rw [hrun] at h
    cases h
    exact ⟨rfl, rfl, rfl, rfl, rfl, rfl, rfl, rfl, rfl, rfl⟩
  · rw [hrun] at h
    cases h
    exact { hs with prefillRemaining := rfl }

/-- **A batch step that returns does what `Ticked` says.** -/
theorem ticked_of_run {now T : Time} {completed : List RequestId} {pf : Option RequestId}
    (h : (tickBatchStep now).run n = .ok (T, completed, pf) n') :
    n.hasWork = true ∧ Ticked n now T completed pf n' := by
  rw [tickBatchStep, Py.run_get_bind] at h
  by_cases hw : n.hasWork = true
  swap
  · simp [hw] at h
  refine ⟨hw, ?_⟩
  simp only [hw, Bool.not_true, Bool.false_eq_true, if_false] at h
  obtain ⟨⟨pid, cost⟩, n₁, hchunk, h⟩ := Py.bind_eq_ok.1 h
  rw [Py.run_get_bind] at h
  obtain ⟨done, n₂, hstreams, h⟩ := Py.bind_eq_ok.1 h
  rw [Py.run_modify_bind] at h
  obtain ⟨pf', n₃, hfinish, h⟩ := Py.bind_eq_ok.1 h
  rw [EStateM.run_pure, EStateM.Result.ok.injEq, Prod.mk.injEq, Prod.mk.injEq] at h
  obtain ⟨⟨rfl, rfl, rfl⟩, rfl⟩ := h
  have hsame₁ := sameLists_prefillChunk hchunk
  have ha := run_advanceStreams (sortedIds_nodup _) hstreams
  have hsame₃ := sameLists_finishPrefill hfinish
  have hdec : n₁.decoding = n.decoding := hsame₁.decoding
  rw [hdec] at ha
  refine ⟨?_, ?_, ?_, ?_, ?_, ?_, ?_, ?_, ?_, ?_, ?_, ?_, ?_⟩
  · exact hsame₃.nodeId.trans (ha.nodeId.trans hsame₁.nodeId)
  · exact hsame₃.modelConfig.trans (ha.modelConfig.trans hsame₁.modelConfig)
  · exact hsame₃.nodeConfig.trans (ha.nodeConfig.trans hsame₁.nodeConfig)
  · exact hsame₃.runningRequests.trans (ha.runningRequests.trans hsame₁.runningRequests)
  · exact hsame₃.queue.trans (ha.queue.trans hsame₁.queue)
  · exact hsame₃.batchStepInFlight.trans (ha.batchStepInFlight.trans hsame₁.batchStepInFlight)
  · exact hsame₃.expectedOutput.trans (ha.expectedOutput.trans hsame₁.expectedOutput)
  · intro r
    have hd : n₃.decoding = n₂.decoding.filter (· ∉ done) := hsame₃.decoding
    rw [hd, ha.decoding, hdec, Finset.mem_filter]
  · exact (sortedIds_nodup _).sublist ha.completed_sub
  · exact fun r hr => mem_sortedIds.1 (ha.completed_sub.subset hr)
  · intro r hr
    have h3 : n₃.outputTokens = n₂.outputTokens := hsame₃.outputTokens
    have h1 : n₁.outputTokens = n.outputTokens := hsame₁.outputTokens
    rw [h3, ha.outputTokens_other r (fun h => hr (mem_sortedIds.1 h)), h1]
  · intro r hr
    have h3 : n₃.outputTokens = n₂.outputTokens := hsame₃.outputTokens
    have h1 : n₁.outputTokens = n.outputTokens := hsame₁.outputTokens
    have h1' : n₁.expectedOutput = n.expectedOutput := hsame₁.expectedOutput
    rw [h3, ← h1, ← h1']
    exact ha.outputTokens r (mem_sortedIds.2 hr)
  · rcases run_prefillChunk n with ⟨hnil, hrun⟩ | ⟨q, u, rest, m, hent, hrun, hs⟩
    · rw [hrun] at hchunk
      cases hchunk
      left
      cases hfinish
      exact ⟨hnil, rfl, ha.prefillRemaining, by rw [zero_add]⟩
    · rw [hrun] at hchunk
      cases hchunk
      refine Or.inr ⟨q, u, rest, hent, rfl, ?_⟩
      have hpipe : n₂.prefillRemaining =
          n.prefillRemaining.set q (u - min u n.modelConfig.prefillChunkSize) :=
        ha.prefillRemaining.trans hs.prefillRemaining
      have hget : n₂.prefillRemaining.get? q =
          some (u - min u n.modelConfig.prefillChunkSize) := by
        rw [hpipe, PyDict.get?_set_self]
      rcases run_finishPrefill { n₂ with decoding := n₂.decoding.filter (· ∉ done) } (some q) with
        ⟨hnot, hrun'⟩ | ⟨q', m', hq', hzero, hrun', hs'⟩
      · rw [hrun'] at hfinish
        cases hfinish
        have hne := hnot q rfl
        change n₂.prefillRemaining.get? q ≠ some 0 at hne
        rw [hget, ne_eq, Option.some_inj] at hne
        have hlt : ¬ u ≤ n.modelConfig.prefillChunkSize := by omega
        rw [if_neg hlt]
        refine ⟨rfl, ?_⟩
        change n₂.prefillRemaining = _
        rw [hpipe, min_eq_right (by omega)]
      · rw [hrun'] at hfinish
        cases hfinish
        cases hq'
        change n₂.prefillRemaining.get? q = some 0 at hzero
        rw [hget, Option.some_inj] at hzero
        have hle : u ≤ n.modelConfig.prefillChunkSize := by omega
        rw [if_pos hle]
        refine ⟨rfl, ?_⟩
        rw [hs'.prefillRemaining]
        change n₂.prefillRemaining.erase q = _
        rw [hpipe, PyDict.erase_set_self]

theorem Ticked.fits {now T : Time} {completed : List RequestId} {pf : Option RequestId}
    (ht : Ticked n now T completed pf n') (h : n.Fits) : n'.Fits :=
  h.congr ht.nodeConfig ht.runningRequests ht.queue

end MockEngineNode

end NanoKVRouter
