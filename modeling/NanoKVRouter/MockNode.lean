/-
**The mock engine node.**

A node runs at most `capacity` requests and queues the others; beside the requests it runs it keeps
the decode batch, the pipeline of chunked prefills, and one record for each request from which the
schedulers estimate waiting times.  A batch step advances every decode stream by one token and the
oldest prefill by one chunk.

Times are exact, and the pipeline is an insertion-ordered dictionary, as in the source.

Main definitions:

* `NodeRequestState`, `MockEngineNode` — the state of a node;
* `MockEngineNode.estimatePrefillTime`, `MockEngineNode.estimateDecodeTime`,
  `MockEngineNode.currentLoad`, `MockEngineNode.queueWaitTime` — what the schedulers read;
* `MockEngineNode.admitRequest`, `MockEngineNode.startDecode`, `MockEngineNode.initPromoted`,
  `MockEngineNode.enterPrefill`, `MockEngineNode.markPrefillDone`, `MockEngineNode.complete` — the
  life of a request on the node;
* `MockEngineNode.markBatchStepScheduled`, `MockEngineNode.markBatchStepCompleted`,
  `MockEngineNode.tickBatchStep` — the batch steps;
* `MockEngineNode.hasWork` — there is a decode stream or a pending prefill.
-/

import NanoKVRouter.Config
import NanoKVRouter.PyDict
import NanoKVRouter.PyState
import Mathlib.Data.Finset.Card
import Mathlib.Data.List.Sort
import Mathlib.Data.String.Basic
import Mathlib.Algebra.Order.Ring.Rat

set_option relaxedAutoImplicit false
set_option autoImplicit false

namespace NanoKVRouter

/-- The phase of a request on a node. -/
inductive Phase
  | queued
  | admitted
  | prefilling
  | prefillDone
  | decoding
deriving DecidableEq, Repr

/-- Runtime metadata for one request currently owned by a mock node. -/
structure NodeRequestState where
  requestId : RequestId
  promptLen : ℤ
  expectedOutputLen : ℤ
  phase : Phase
  uncachedTotal : Option ℤ := none
  uncachedRemaining : ℤ := 0
  generatedTokens : ℤ := 0
  hasPromptLen : Bool := false
  blocksPrefillSlot : Bool := true
deriving DecidableEq

/-- Latency-model-only stand-in for an inference engine. -/
structure MockEngineNode where
  nodeId : NodeId
  modelConfig : ModelConfig
  nodeConfig : NodeConfig
  runningRequests : List RequestId
  queue : List RequestId
  decoding : Finset RequestId
  outputTokens : PyDict RequestId ℤ
  expectedOutput : PyDict RequestId ℤ
  batchStepInFlight : Bool
  prefillRemaining : PyDict RequestId ℤ
  states : PyDict RequestId NodeRequestState
deriving DecidableEq

/-- `sorted` of a set of ids. -/
def sortedIds (s : Finset RequestId) : List RequestId :=
  Quotient.liftOn s.val (List.insertionSort (· ≤ ·)) fun a b hab =>
    (((List.perm_insertionSort _ a).trans hab).trans (List.perm_insertionSort _ b).symm).eq_of_pairwise
      (fun _ _ _ _ => le_antisymm) (List.pairwise_insertionSort _ a) (List.pairwise_insertionSort _ b)

@[simp] theorem mem_sortedIds {s : Finset RequestId} {r : RequestId} :
    r ∈ sortedIds s ↔ r ∈ s := by
  obtain ⟨⟨l⟩, hl⟩ := s
  exact List.mem_insertionSort _

theorem sortedIds_nodup (s : Finset RequestId) : (sortedIds s).Nodup := by
  obtain ⟨⟨l⟩, hl⟩ := s
  exact (List.perm_insertionSort _ l).nodup_iff.2 hl

namespace MockEngineNode

/-- A node with empty queues. -/
def init (nodeId : NodeId) (modelConfig : ModelConfig) (nodeConfig : NodeConfig) :
    MockEngineNode where
  nodeId := nodeId
  modelConfig := modelConfig
  nodeConfig := nodeConfig
  runningRequests := []
  queue := []
  decoding := ∅
  outputTokens := PyDict.empty
  expectedOutput := PyDict.empty
  batchStepInFlight := false
  prefillRemaining := PyDict.empty
  states := PyDict.empty

/-! ### Latency estimation -/

/-- Estimated prefill latency of a prompt with a partial cache hit: per token, or by full chunks
when a batch size is given. -/
def estimatePrefillTime (node : MockEngineNode) (promptLen cachedTokens : ℤ)
    (batchSizeHint : Option ℤ) : Time :=
  let uncached := max 0 (promptLen - cachedTokens)
  match batchSizeHint with
  | none => uncached * node.modelConfig.prefillCostPerTokenMs
  | some hint =>
      let chunk : ℤ := node.modelConfig.prefillChunkSize
      let nChunks := if uncached > 0 then (uncached + chunk - 1) / chunk else 0
      let stepPerChunk := chunk * node.modelConfig.prefillCostPerTokenMs +
        node.modelConfig.decodeBaseMs + hint * node.modelConfig.marginalDecodeMs
      nChunks * stepPerChunk

/-- Estimated latency of one decode step at a batch size. -/
def estimateDecodeTime (node : MockEngineNode) (batchSize : ℤ) : Time :=
  node.modelConfig.decodeBaseMs + batchSize * node.modelConfig.marginalDecodeMs

/-- Current load as a fraction of the capacity. -/
def currentLoad (node : MockEngineNode) : ℚ :=
  node.runningRequests.length / node.nodeConfig.capacity

/-- The legacy estimate is used when no argument is given and no blocker has metadata: the blockers
are read up to the first that decides it. -/
def usesLegacyWaitFallback (node : MockEngineNode) (blockerIds : List RequestId)
    (promptLen expectedOutputLen : Option ℤ) : Bool :=
  if promptLen.isSome || expectedOutputLen.isSome then
    false
  else
    match blockerIds with
    | [] => true
    | requestId :: rest =>
        match node.states.get? requestId with
        | none => true
        | some state =>
            if state.hasPromptLen || decide (state.expectedOutputLen > 0) then
              false
            else
              usesLegacyWaitFallback node rest promptLen expectedOutputLen

/-- The record of a blocker, or an empty one. -/
def stateForWait (node : MockEngineNode) (requestId : RequestId) : NodeRequestState :=
  match node.states.get? requestId with
  | some state => state
  | none =>
      { requestId := requestId
        promptLen := 0
        expectedOutputLen := 0
        phase := if requestId ∈ node.queue then .queued else .admitted }

/-- The decode step time the waiting estimate charges. -/
def waitDecodeStepMs (node : MockEngineNode) : Time :=
  let bs : ℕ := max (max node.decoding.card node.runningRequests.length) 1
  node.modelConfig.decodeBaseMs + bs * node.modelConfig.marginalDecodeMs

/-- The work a blocker has left, in milliseconds. -/
def remainingLifecycleMs (node : MockEngineNode) (state : NodeRequestState)
    (fallbackPromptLen fallbackOutputLen : Option ℤ) : Time :=
  let expectedOutput :=
    if state.expectedOutputLen = 0 ∧ state.hasPromptLen = false then
      fallbackOutputLen.getD state.expectedOutputLen
    else
      state.expectedOutputLen
  let remainingDecodeTokens := max 0 (expectedOutput - state.generatedTokens)
  let decodeStep := node.waitDecodeStepMs
  if state.phase = .prefillDone ∧ state.blocksPrefillSlot = false then
    0
  else if state.phase = .prefillDone ∨ state.phase = .decoding then
    remainingDecodeTokens * decodeStep
  else
    let prefillTokens :=
      if state.phase = .prefilling then
        max 0 state.uncachedRemaining
      else
        match state.uncachedTotal with
        | some total => max 0 total
        | none =>
            max 0 (if state.hasPromptLen then state.promptLen else fallbackPromptLen.getD 0)
    prefillTokens * node.modelConfig.prefillCostPerTokenMs + remainingDecodeTokens * decodeStep

/-- A queued request takes the earliest slot release and adds its own one, in order. -/
def occupyEarliest (slots : List Time) (work : Time) : List Time :=
  match slots with
  | [] => []
  | earliest :: rest => (rest ++ [earliest + work]).insertionSort (· ≤ ·)

/-- Estimated waiting time of a new request: the first slot free after the requests queued
before it. -/
def queueWaitTime (node : MockEngineNode) (promptLen expectedOutputLen : Option ℤ) : Time :=
  if node.runningRequests.length < node.nodeConfig.capacity then
    0
  else
    let blockerIds := node.runningRequests ++ node.queue
    if node.usesLegacyWaitFallback blockerIds promptLen expectedOutputLen then
      (node.queue.length + 1 : ℕ) * node.modelConfig.decodeBaseMs
    else
      let remaining := fun requestId =>
        node.remainingLifecycleMs (node.stateForWait requestId) promptLen expectedOutputLen
      let slotReleaseTimes := (node.runningRequests.map remaining).insertionSort (· ≤ ·)
      let released := (node.queue.map remaining).foldl occupyEarliest slotReleaseTimes
      released.headD 0

/-! ### The life of a request -/

/-- The record of a request, changed if there is one. -/
def modifyState (requestId : RequestId) (f : NodeRequestState → NodeRequestState)
    (node : MockEngineNode) : MockEngineNode :=
  match node.states.get? requestId with
  | none => node
  | some state => { node with states := node.states.set requestId (f state) }

/-- Admit a request: into `runningRequests` if the capacity allows, else into `queue`. -/
def admitRequest (requestId : RequestId) (expectedOutputLen : ℤ)
    (promptLen uncachedTokens : Option ℤ) : Py MockEngineNode Bool := do
  let node ← get
  let uncachedTotal := uncachedTokens.map (max 0)
  let running := decide (node.runningRequests.length < node.nodeConfig.capacity)
  let state : NodeRequestState :=
    { requestId := requestId
      promptLen := promptLen.getD 0
      expectedOutputLen := expectedOutputLen
      phase := if running then .admitted else .queued
      uncachedTotal := uncachedTotal
      uncachedRemaining := uncachedTotal.getD 0
      hasPromptLen := promptLen.isSome }
  let node := { node with states := node.states.set requestId state }
  if running then
    set { node with
      runningRequests := node.runningRequests ++ [requestId]
      outputTokens := node.outputTokens.set requestId 0
      expectedOutput := node.expectedOutput.set requestId expectedOutputLen }
  else
    set { node with queue := node.queue ++ [requestId] }
  pure running

/-- Every call on a running request raises when the request is not running. -/
def requireRunning (method : String) (requestId : RequestId) : Py MockEngineNode Unit := do
  let node ← get
  if requestId ∈ node.runningRequests then
    pure ()
  else
    Py.raise (.runtimeError (s!"node {node.nodeId}: {method} called for " ++ pyRepr requestId ++
      " which is not in running_requests"))

/-- Mark a request as finished with prefill and ready for batch decoding. -/
def startDecode (requestId : RequestId) : Py MockEngineNode Unit := do
  requireRunning "start_decode" requestId
  modify fun node =>
    let node := node.modifyState requestId fun state =>
      { state with
        phase := .decoding
        uncachedTotal := some (state.uncachedTotal.getD 0)
        uncachedRemaining := 0
        generatedTokens := node.outputTokens.getD requestId 0
        blocksPrefillSlot := true }
    { node with decoding := insert requestId node.decoding }

/-- The record of a promoted request. -/
def promotedState (requestId : RequestId) (expectedOutputLen : ℤ)
    (promptLen uncachedTotal : Option ℤ) : Option NodeRequestState → NodeRequestState
  | none =>
      { requestId := requestId
        promptLen := promptLen.getD 0
        expectedOutputLen := expectedOutputLen
        phase := .admitted
        uncachedTotal := uncachedTotal
        uncachedRemaining := uncachedTotal.getD 0
        hasPromptLen := promptLen.isSome }
  | some state =>
      { state with
        phase := .admitted
        expectedOutputLen := expectedOutputLen
        generatedTokens := 0
        promptLen := promptLen.getD state.promptLen
        hasPromptLen := promptLen.isSome || state.hasPromptLen
        uncachedTotal := uncachedTotal.or state.uncachedTotal
        uncachedRemaining := uncachedTotal.getD state.uncachedRemaining }

/-- Initialise the output tracking of a request promoted from `queue` to `runningRequests`. -/
def initPromoted (requestId : RequestId) (expectedOutputLen : ℤ)
    (promptLen uncachedTokens : Option ℤ) : Py MockEngineNode Unit := do
  requireRunning "init_promoted" requestId
  modify fun node =>
    { node with
      outputTokens := node.outputTokens.set requestId 0
      expectedOutput := node.expectedOutput.set requestId expectedOutputLen
      states := node.states.set requestId (promotedState requestId expectedOutputLen promptLen
        (uncachedTokens.map (max 0)) (node.states.get? requestId)) }

/-- Mark a request as entering the chunked prefill pipeline. -/
def enterPrefill (requestId : RequestId) (uncachedTokens : ℤ) : Py MockEngineNode Unit := do
  requireRunning "enter_prefill" requestId
  modify fun node =>
    { node with prefillRemaining := node.prefillRemaining.set requestId uncachedTokens }
      |>.modifyState requestId fun state =>
        { state with
          phase := .prefilling
          uncachedTotal := some (max 0 uncachedTokens)
          uncachedRemaining := uncachedTokens
          blocksPrefillSlot := true }

/-- The record of a request that has no prefill work left. -/
def prefillDoneState (state : NodeRequestState) : NodeRequestState :=
  { state with
    phase := .prefillDone
    uncachedTotal := some 0
    uncachedRemaining := 0
    blocksPrefillSlot := false }

/-- Record that a running request has no remaining prefill work. -/
def markPrefillDone (requestId : RequestId) : Py MockEngineNode Unit := do
  requireRunning "mark_prefill_done" requestId
  modify (modifyState requestId prefillDoneState)

/-- Move the first queued request into `runningRequests` if there is room. -/
def promote : Py MockEngineNode (Option RequestId) := do
  let node ← get
  match node.queue with
  | [] => pure none
  | promoted :: rest =>
      if node.runningRequests.length < node.nodeConfig.capacity then
        set ({ node with
          queue := rest
          runningRequests := node.runningRequests ++ [promoted] }.modifyState promoted fun state =>
            { state with phase := .admitted, blocksPrefillSlot := true })
        pure (some promoted)
      else
        pure none

/-- Take a request off the node, wherever it is. -/
def remove (requestId : RequestId) : Py MockEngineNode Unit := do
  let node ← get
  if requestId ∈ node.runningRequests then
    set { node with runningRequests := node.runningRequests.erase requestId }
  else if requestId ∈ node.queue then
    set { node with queue := node.queue.erase requestId }
  else
    Py.raise (.valueError "list.remove(x): x not in list")

/-- Mark a request as finished and promote the next queued one if room frees up. -/
def complete (requestId : RequestId) : Py MockEngineNode (Option RequestId) := do
  remove requestId
  modify fun node =>
    { node with
      outputTokens := node.outputTokens.erase requestId
      expectedOutput := node.expectedOutput.erase requestId
      decoding := node.decoding.erase requestId
      prefillRemaining := node.prefillRemaining.erase requestId
      states := node.states.erase requestId }
  promote

/-! ### Batch steps -/

/-- There is a decode stream or a pending prefill. -/
def hasWork (node : MockEngineNode) : Bool :=
  decide (node.decoding.Nonempty) || !node.prefillRemaining.entries.isEmpty

/-- Record that a batch step has been enqueued for this node. -/
def markBatchStepScheduled : Py MockEngineNode Unit := do
  let node ← get
  if node.batchStepInFlight then
    Py.raise (.runtimeError s!"node {node.nodeId}: double-scheduled batch step")
  else
    set { node with batchStepInFlight := true }

/-- Record that the handler of a batch step has started. -/
def markBatchStepCompleted : Py MockEngineNode Unit :=
  modify fun node => { node with batchStepInFlight := false }

/-- The prefill chunk of a batch step: the oldest entry of the pipeline, and the cost of its
chunk. -/
def prefillChunk : Py MockEngineNode (Option RequestId × Time) := do
  let node ← get
  match node.prefillRemaining.entries with
  | [] => pure (none, 0)
  | (prefillId, remaining) :: _ =>
      let chunkThisStep := min remaining node.modelConfig.prefillChunkSize
      let chunkCost := chunkThisStep * node.modelConfig.prefillCostPerTokenMs
      set ({ node with
        prefillRemaining := node.prefillRemaining.set prefillId (remaining - chunkThisStep)
        }.modifyState prefillId fun state =>
          { state with uncachedRemaining := remaining - chunkThisStep })
      pure (some prefillId, chunkCost)

/-- Advance one decode stream by one token; it says whether the stream is complete. -/
def advanceStream (reqId : RequestId) : Py MockEngineNode Bool := do
  let node ← get
  match node.outputTokens.get? reqId with
  | none => Py.raise (.keyError reqId)
  | some generated =>
      set ({ node with outputTokens := node.outputTokens.set reqId (generated + 1)
        }.modifyState reqId fun state => { state with generatedTokens := generated + 1 })
      match node.expectedOutput.get? reqId with
      | none => Py.raise (.keyError reqId)
      | some expected => pure (decide (generated + 1 ≥ expected))

/-- Advance the streams of a list, and collect the complete ones. -/
def advanceStreams : List RequestId → Py MockEngineNode (List RequestId)
  | [] => pure []
  | reqId :: rest => do
      let done ← advanceStream reqId
      let completed ← advanceStreams rest
      pure (if done then reqId :: completed else completed)

/-- Take a drained prefill out of the pipeline; it returns the prefill if it was drained. -/
def finishPrefill (prefillId : Option RequestId) : Py MockEngineNode (Option RequestId) := do
  let node ← get
  match prefillId with
  | none => pure none
  | some r =>
      if node.prefillRemaining.get? r = some 0 then
        set ({ node with prefillRemaining := node.prefillRemaining.erase r
          }.modifyState r prefillDoneState)
        pure (some r)
      else
        pure none

/-- Advance one batch step: one prefill chunk and one token of every decode stream.  It returns the
end of the step, the streams completed in it and the prefill completed in it. -/
def tickBatchStep (now : Time) : Py MockEngineNode (Time × List RequestId × Option RequestId) := do
  let node ← get
  if !node.hasWork then
    Py.raise (.runtimeError s!"node {node.nodeId}: tick on idle node")
  else
    let bs := node.decoding.card
    let (prefillId, chunkCost) ← prefillChunk
    let decodeCost := if bs > 0 then node.estimateDecodeTime bs else 0
    let stepTime := chunkCost + decodeCost
    let completed ← advanceStreams (sortedIds (← get).decoding)
    modify fun node => { node with decoding := node.decoding.filter (· ∉ completed) }
    let prefillCompletedId ← finishPrefill prefillId
    pure (now + stepTime, completed, prefillCompletedId)

end MockEngineNode

end NanoKVRouter
