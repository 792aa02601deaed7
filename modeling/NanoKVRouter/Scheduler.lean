/-
**The scheduling policies.**

A policy reads the nodes of the two pools, the cache and the backlog of the transfer lanes, and
chooses a prefill node and a decode node for a request or rejects it.  The interface leaves
everything else open: a policy is any call on a state of its own and on the cache manager it
queries.  The five policies of the simulator are given in full.

Main definitions:

* `SchedulingDecision`, `SchedulingPolicy` — the interface;
* `CacheQuery`, `CacheQuery.ofManager` — the view a policy has of the cache;
* `computeEstTtft`, `computeEstTbt` — the estimates every policy reports;
* `RoundRobinPolicy`, `LeastLoadedPolicy`, `PrefixGreedyPolicy`, `E2Policy`, `MooncakeConductor` —
  the parameters of the five policies, with the bounds their constructors check;
* `LeastLoadedPolicy.scheduleOn` and so on — the policies, against any view of the cache;
* `RoundRobinPolicy.schedule` and so on — the policies, against the cache manager.
-/

import NanoKVRouter.CacheManager
import NanoKVRouter.MockNode
import NanoKVRouter.TransferModel
import Mathlib.Data.List.MinMax
import Mathlib.Data.Prod.Lex

set_option relaxedAutoImplicit false
set_option autoImplicit false

namespace NanoKVRouter

/-! ### The interface -/

/-- A scheduler's verdict for one request. -/
structure SchedulingDecision where
  prefillNode : Option NodeId
  decodeNode : Option NodeId
  estimatedTtftMs : Time
  estimatedTbtMs : Time
  rejectReason : Option String := none
deriving DecidableEq

namespace SchedulingDecision

/-- The request was rejected: no prefill node is assigned. -/
def isRejected (d : SchedulingDecision) : Bool := d.prefillNode.isNone

/-- The verdict of every policy when a pool is empty. -/
def noNodesAvailable : SchedulingDecision where
  prefillNode := none
  decodeNode := none
  estimatedTtftMs := 0
  estimatedTbtMs := 0
  rejectReason := some "no_nodes_available"

end SchedulingDecision

/-- A policy with a state of type `ς`: `schedule(request, prefill_nodes, decode_nodes, cache, now)`
with the backlog view the policy was built with. -/
abbrev SchedulingPolicy (ς : Type) : Type :=
  Request → List MockEngineNode → List MockEngineNode → TransferBacklogView → Time →
    Py (ς × CacheManager) SchedulingDecision

/-- A query of the cache by a policy. -/
def onCache {ς α : Type} (m : Py CacheManager α) : Py (ς × CacheManager) α :=
  Py.onPart Prod.snd (fun cm s => (s.1, cm)) m

/-- The view a policy has of the cluster's caches: `lookup`, `lookup_all` and `free_blocks`, with the
count of free blocks read off the state. -/
structure CacheQuery (σ : Type) where
  lookup : Request → NodeId → Py σ CacheLookup
  lookupAll : Request → Py σ (PyDict NodeId CacheLookup)
  freeBlocks : NodeId → String → Py σ ℤ
  freeBlocks_readOnly : ∀ nodeId tier, (freeBlocks nodeId tier).ReadOnly

/-- The cache manager as a policy sees it. -/
def CacheQuery.ofManager {ς : Type} (now : Time) : CacheQuery (ς × CacheManager) where
  lookup := fun request nodeId => onCache (CacheManager.lookup now request nodeId)
  lookupAll := fun request => onCache (CacheManager.lookupAll now request)
  freeBlocks := fun nodeId tier => onCache (CacheManager.freeBlocks nodeId tier)
  freeBlocks_readOnly := fun nodeId tier =>
    (CacheManager.readOnly_freeBlocks nodeId tier).onPart fun _ => rfl

/-! ### Estimates -/

/-- The time to transfer the KV cache of a prompt. -/
def transferServiceMs (promptLen kvBytesPerToken : ℕ) (bandwidthBytesPerS : ℚ) : Time :=
  ((promptLen * kvBytesPerToken : ℕ) : ℚ) / bandwidthBytesPerS * 1000

/-- Estimated time to the first token of a request. -/
def computeEstTtft (prefillNode decodeNode : MockEngineNode) (request : Request)
    (decodeCacheMatch : CacheLookup) (kvBytesPerToken : ℕ) (bandwidthBytesPerS : ℚ)
    (backlogView : TransferBacklogView) (now : Time) : Time :=
  let promptLen := request.tokenIds.length
  let prefillBs : ℤ := prefillNode.decoding.card + 1
  let decodingBs : ℤ := decodeNode.decoding.card + 1
  let prefillPhase :=
    prefillNode.estimatePrefillTime promptLen decodeCacheMatch.matchedTokens (some prefillBs)
  let queueWait := prefillNode.queueWaitTime (some promptLen) (some request.expectedOutputLen)
  let service := transferServiceMs promptLen kvBytesPerToken bandwidthBytesPerS
  let srcEgressWait := max 0 ((backlogView prefillNode.nodeId).egress - now)
  let dstIngressWait := max 0 ((backlogView decodeNode.nodeId).ingress - now)
  let laneQueueWait := max srcEgressWait dstIngressWait
  let kvTransfer := service + laneQueueWait
  let firstDecodeTick := decodeNode.estimateDecodeTime decodingBs
  prefillPhase + queueWait + kvTransfer + decodeCacheMatch.transferCostMs + firstDecodeTick

/-- Estimated time of one decode step on a node. -/
def computeEstTbt (decodeNode : MockEngineNode) : Time :=
  decodeNode.estimateDecodeTime (decodeNode.decoding.card + 1)

/-- An accepted request, with its estimates. -/
def SchedulingDecision.accept (model : ModelConfig) (bandwidth : BandwidthConfig)
    (prefill decode : MockEngineNode) (request : Request) (decodeMatch : CacheLookup)
    (backlogView : TransferBacklogView) (now : Time) : SchedulingDecision where
  prefillNode := some prefill.nodeId
  decodeNode := some decode.nodeId
  estimatedTtftMs := computeEstTtft prefill decode request decodeMatch model.kvBytesPerToken
    bandwidth.gpuToGpu backlogView now
  estimatedTbtMs := computeEstTbt decode

/-- `n.current_load()`, with ties broken by the node id. -/
def loadKey (n : MockEngineNode) : ℚ ×ₗ NodeId := toLex (n.currentLoad, n.nodeId)

/-- `cache.lookup`, where an unknown node counts as a miss. -/
def CacheQuery.lookupOrMiss {σ : Type} (cache : CacheQuery σ) (request : Request)
    (nodeId : NodeId) : Py σ CacheLookup :=
  Py.onExcept PyErr.isKeyError (cache.lookup request nodeId) (pure CacheLookup.miss)

/-! ### Round robin -/

/-- Rotate across nodes in sequential order. -/
structure RoundRobinPolicy where
  model : ModelConfig
  bandwidth : BandwidthConfig

/-- The cursors of the round robin policy. -/
structure Cursors where
  prefillCursor : ℕ := 0
  decodeCursor : ℕ := 0

/-- Pick the next node in round-robin order from each pool. -/
def RoundRobinPolicy.schedule (policy : RoundRobinPolicy) : SchedulingPolicy Cursors :=
  fun request prefillNodes decodeNodes backlogView now => do
    if prefillNodes.isEmpty || decodeNodes.isEmpty then
      pure .noNodesAvailable
    else
      let cursors := (← get).1
      modify fun s => (⟨cursors.prefillCursor + 1, cursors.decodeCursor + 1⟩, s.2)
      match prefillNodes[cursors.prefillCursor % prefillNodes.length]?,
          decodeNodes[cursors.decodeCursor % decodeNodes.length]? with
      | some prefill, some decode =>
          let decodeMatch ← (CacheQuery.ofManager now).lookupOrMiss request decode.nodeId
          pure (.accept policy.model policy.bandwidth prefill decode request decodeMatch
            backlogView now)
      | _, _ => pure .noNodesAvailable

/-! ### Least loaded -/

/-- Pick the lowest-load node in each pool. -/
structure LeastLoadedPolicy where
  model : ModelConfig
  bandwidth : BandwidthConfig

/-- Pick the least-loaded node in each pool. -/
def LeastLoadedPolicy.scheduleOn {σ : Type} (policy : LeastLoadedPolicy) (cache : CacheQuery σ)
    (request : Request) (prefillNodes decodeNodes : List MockEngineNode)
    (backlogView : TransferBacklogView) (now : Time) : Py σ SchedulingDecision := do
  match prefillNodes.argmin loadKey, decodeNodes.argmin loadKey with
  | some prefill, some decode =>
      let decodeMatch ← cache.lookupOrMiss request decode.nodeId
      pure (.accept policy.model policy.bandwidth prefill decode request decodeMatch
        backlogView now)
  | _, _ => pure .noNodesAvailable

/-- The policy against the cache manager. -/
def LeastLoadedPolicy.schedule {ς : Type} (policy : LeastLoadedPolicy) : SchedulingPolicy ς :=
  fun request prefillNodes decodeNodes backlogView now =>
    policy.scheduleOn (.ofManager now) request prefillNodes decodeNodes backlogView now

/-! ### Prefix greedy -/

/-- Cache-aware scheduler: the decode node with the longest hit, unless the hit is too short. -/
structure PrefixGreedyPolicy where
  minHitRatio : ℚ := 1 / 4
  model : ModelConfig
  bandwidth : BandwidthConfig
  minHitRatio_nonneg : 0 ≤ minHitRatio := by decide +kernel
  minHitRatio_le_one : minHitRatio ≤ 1 := by decide +kernel

/-- `lookups.get(node_id, CacheLookup(0, {}, 0.0))`. -/
def hitOf (lookups : PyDict NodeId CacheLookup) (n : MockEngineNode) : CacheLookup :=
  lookups.getD n.nodeId CacheLookup.miss

/-- The decode nodes the prefix greedy policy chooses among: all of them if the best hit is too
short, otherwise those with the best hit. -/
def PrefixGreedyPolicy.candidates (policy : PrefixGreedyPolicy) (promptLen : ℕ)
    (lookups : PyDict NodeId CacheLookup) (decodeNodes : List MockEngineNode) :
    List MockEngineNode :=
  let hit := fun n => (hitOf lookups n).matchedTokens
  let maxHit := (decodeNodes.map hit).foldl max 0
  if promptLen = 0 ∨ (maxHit : ℚ) / promptLen < policy.minHitRatio then
    decodeNodes
  else
    decodeNodes.filter fun n => hit n = maxHit

/-- Pick the decode node by cache affinity and the prefill node by load. -/
def PrefixGreedyPolicy.scheduleOn {σ : Type} (policy : PrefixGreedyPolicy) (cache : CacheQuery σ)
    (request : Request) (prefillNodes decodeNodes : List MockEngineNode)
    (backlogView : TransferBacklogView) (now : Time) : Py σ SchedulingDecision := do
  if prefillNodes.isEmpty || decodeNodes.isEmpty then
    pure .noNodesAvailable
  else
    let lookups ← cache.lookupAll request
    let candidates := policy.candidates request.tokenIds.length lookups decodeNodes
    match prefillNodes.argmin loadKey, candidates.argmin loadKey with
    | some prefill, some decode =>
        pure (.accept policy.model policy.bandwidth prefill decode request
          (hitOf lookups decode) backlogView now)
    | _, _ => pure .noNodesAvailable

/-- The policy against the cache manager. -/
def PrefixGreedyPolicy.schedule {ς : Type} (policy : PrefixGreedyPolicy) : SchedulingPolicy ς :=
  fun request prefillNodes decodeNodes backlogView now =>
    policy.scheduleOn (.ofManager now) request prefillNodes decodeNodes backlogView now

/-! ### E2 -/

/-- Exploit-explore scheduler: the decode node of least cost. -/
structure E2Policy where
  wHistorical : ℚ := 1
  wEviction : ℚ := 1
  wRun : ℚ := 1
  model : ModelConfig
  bandwidth : BandwidthConfig
  wHistorical_nonneg : 0 ≤ wHistorical := by decide +kernel
  wEviction_nonneg : 0 ≤ wEviction := by decide +kernel
  wRun_nonneg : 0 ≤ wRun := by decide +kernel

/-- The cost of a decode node: its load, the re-prefill of the blocks it would evict, and the
predicted time to the first token. -/
def E2Policy.score {σ : Type} (policy : E2Policy) (cache : CacheQuery σ) (request : Request)
    (lookups : PyDict NodeId CacheLookup) (prefill : MockEngineNode)
    (backlogView : TransferBacklogView) (now : Time) (decode : MockEngineNode) :
    Py σ (ℚ ×ₗ NodeId) := do
  let promptLen := request.tokenIds.length
  let bs := policy.model.blockSize
  let ppt := policy.model.prefillCostPerTokenMs
  let decodeMatch := hitOf lookups decode
  let newBlocks : ℤ := max 0 ((promptLen / bs : ℕ) - (decodeMatch.matchedTokens / bs : ℕ))
  let hist := decode.currentLoad * promptLen * ppt
  let shortage := max 0 (newBlocks - (← cache.freeBlocks decode.nodeId "gpu"))
  let evict := shortage * bs * ppt
  let run := computeEstTtft prefill decode request decodeMatch policy.model.kvBytesPerToken
    policy.bandwidth.gpuToGpu backlogView now
  pure (toLex (policy.wHistorical * hist + policy.wEviction * evict + policy.wRun * run,
    decode.nodeId))

/-- Pick the decode node of least cost and the prefill node by load. -/
def E2Policy.scheduleOn {σ : Type} (policy : E2Policy) (cache : CacheQuery σ)
    (request : Request) (prefillNodes decodeNodes : List MockEngineNode)
    (backlogView : TransferBacklogView) (now : Time) : Py σ SchedulingDecision := do
  if prefillNodes.isEmpty || decodeNodes.isEmpty then
    pure .noNodesAvailable
  else
    let lookups ← cache.lookupAll request
    match prefillNodes.argmin loadKey with
    | none => pure .noNodesAvailable
    | some prefill =>
        let scored ← decodeNodes.mapM fun decode => do
          pure (decode, ← policy.score cache request lookups prefill backlogView now decode)
        match scored.argmin Prod.snd with
        | none => pure .noNodesAvailable
        | some (decode, _) =>
            pure (.accept policy.model policy.bandwidth prefill decode request
              (hitOf lookups decode) backlogView now)

/-- The policy against the cache manager. -/
def E2Policy.schedule {ς : Type} (policy : E2Policy) : SchedulingPolicy ς :=
  fun request prefillNodes decodeNodes backlogView now =>
    policy.scheduleOn (.ofManager now) request prefillNodes decodeNodes backlogView now

/-! ### Conductor -/

/-- Three-objective scoring over the decode pool, with early rejection by the service-level
targets. -/
structure MooncakeConductor where
  alpha : ℚ := 1
  beta : ℚ := 1
  gamma : ℚ := 1
  model : ModelConfig
  bandwidth : BandwidthConfig
  alpha_nonneg : 0 ≤ alpha := by decide +kernel
  beta_nonneg : 0 ≤ beta := by decide +kernel
  gamma_nonneg : 0 ≤ gamma := by decide +kernel

/-- The score of a decode node: what its cache saves, less its load and the transfers. -/
def MooncakeConductor.score (policy : MooncakeConductor) (request : Request)
    (lookups : PyDict NodeId CacheLookup) (decode : MockEngineNode) : ℚ :=
  let promptLen := request.tokenIds.length
  let ppt := policy.model.prefillCostPerTokenMs
  let decodeMatch := hitOf lookups decode
  let cacheBenefit := decodeMatch.matchedTokens * ppt
  let loadPenalty := decode.currentLoad * promptLen * ppt +
    decode.queueWaitTime (some promptLen) (some request.expectedOutputLen)
  let transferPenalty := decodeMatch.transferCostMs
  policy.alpha * cacheBenefit - policy.beta * loadPenalty - policy.gamma * transferPenalty

/-- The negated score of a decode node, with ties broken by the node id. -/
def MooncakeConductor.scoreKey (policy : MooncakeConductor) (request : Request)
    (lookups : PyDict NodeId CacheLookup) (decode : MockEngineNode) : ℚ ×ₗ NodeId :=
  toLex (-policy.score request lookups decode, decode.nodeId)

/-- The service-level check of the chosen pair. -/
def SchedulingDecision.sloGate (request : Request) (d : SchedulingDecision) :
    SchedulingDecision :=
  if d.estimatedTtftMs > request.sloTtft then
    { d with prefillNode := none, decodeNode := none, rejectReason := some "ttft_slo_exceeded" }
  else if d.estimatedTbtMs > request.sloTbt then
    { d with prefillNode := none, decodeNode := none, rejectReason := some "tbt_slo_exceeded" }
  else
    d

/-- Pick the decode node of maximal score and the prefill node by load, and reject the request if
the pair misses a target. -/
def MooncakeConductor.scheduleOn {σ : Type} (policy : MooncakeConductor) (cache : CacheQuery σ)
    (request : Request) (prefillNodes decodeNodes : List MockEngineNode)
    (backlogView : TransferBacklogView) (now : Time) : Py σ SchedulingDecision := do
  if prefillNodes.isEmpty || decodeNodes.isEmpty then
    pure .noNodesAvailable
  else
    let lookups ← cache.lookupAll request
    match prefillNodes.argmin loadKey,
        decodeNodes.argmin (policy.scoreKey request lookups) with
    | some prefill, some decode =>
        pure ((SchedulingDecision.accept policy.model policy.bandwidth prefill decode request
          (hitOf lookups decode) backlogView now).sloGate request)
    | _, _ => pure .noNodesAvailable

/-- The policy against the cache manager. -/
def MooncakeConductor.schedule {ς : Type} (policy : MooncakeConductor) : SchedulingPolicy ς :=
  fun request prefillNodes decodeNodes backlogView now =>
    policy.scheduleOn (.ofManager now) request prefillNodes decodeNodes backlogView now

end NanoKVRouter
