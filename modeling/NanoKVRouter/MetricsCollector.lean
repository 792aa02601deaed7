/-
**The metrics collector.**

The collector subscribes to the events of a run and accumulates counters, samples and the sets of
the requests that are in a phase; `summary` aggregates them.  It has one handler for each kind of
event.  The handler of a batch step reads the batch size from the payload of the event, and from
the node itself if the payload has none yet.

Samples are exact numbers.  The nodes and the per-token target in the record of a request are
written by the source and read by nothing, so they are left out; the registry of the nodes holds
the live node objects and is handed to the collector when it observes an event.

Main definitions:

* `RequestRecord`, `MetricsCollector` — the state of the collector;
* `MetricsCollector.onArrive`, `MetricsCollector.onScheduled` and so on — the handlers;
* `MetricsCollector.observe` — the handler of an event;
* `MetricsSummary`, `MetricsCollector.summary` — the aggregated metrics.
-/

import NanoKVRouter.Simulator

set_option relaxedAutoImplicit false
set_option autoImplicit false

namespace NanoKVRouter

/-! ### The state -/

/-- What the collector keeps about a request. -/
structure RequestRecord where
  arrivalTime : Time
  tokenCount : ℕ
  sloTtft : Time
  matchedTokens : Option ℕ
  ttft : Option Time
deriving DecidableEq

/-- Passive observer: subscribes to simulation events and accumulates metrics. -/
structure MetricsCollector where
  requests : PyDict RequestId RequestRecord
  ttftPerRequest : List Time
  e2ePerRequest : List Time
  rejectedCount : ℕ
  totalArrived : ℕ
  completedCount : ℕ
  startTime : Option Time
  endTime : Option Time
  lastDecodeStepTime : PyDict RequestId Time
  tbtSamples : PyDict RequestId (List Time)
  batchSizeSamples : List ℕ
  totalDecodeTokens : ℕ
  chunkedPrefillSteps : List ℤ
  requestNChunks : PyDict RequestId ℤ
  kvTransferCostSamples : List Time
  kvTransferQueuedSamples : List Time
  cacheHitByTier : PyDict Tier ℕ
  seenTransferIds : Finset String
  activePrefills : Finset RequestId
  activeDecodes : Finset RequestId
  dualPhaseTickCount : ℕ
deriving DecidableEq

namespace MetricsCollector

/-- A fresh collector. -/
def init : MetricsCollector where
  requests := .empty
  ttftPerRequest := []
  e2ePerRequest := []
  rejectedCount := 0
  totalArrived := 0
  completedCount := 0
  startTime := none
  endTime := none
  lastDecodeStepTime := .empty
  tbtSamples := .empty
  batchSizeSamples := []
  totalDecodeTokens := 0
  chunkedPrefillSteps := []
  requestNChunks := .empty
  kvTransferCostSamples := []
  kvTransferQueuedSamples := []
  cacheHitByTier := ((PyDict.empty.set .gpu 0).set .cpu 0).set .disk 0
  seenTransferIds := ∅
  activePrefills := ∅
  activeDecodes := ∅
  dualPhaseTickCount := 0

/-! ### The handlers -/

/-- `_on_arrive`. -/
def onArrive (m : MetricsCollector) (time : Time) (req : Request) : MetricsCollector :=
  { m with
    totalArrived := m.totalArrived + 1
    startTime := some (m.startTime.getD time)
    requests := m.requests.set req.requestId
      { arrivalTime := time
        tokenCount := req.tokenIds.length
        sloTtft := req.sloTtft
        matchedTokens := none
        ttft := none } }

/-- The blocks of a hit are added to the counters of the tiers that are counted. -/
def addTierHits (hits : PyDict Tier ℕ) (byTier : PyDict Tier ℕ) : PyDict Tier ℕ :=
  byTier.entries.foldl
    (fun d e => if d.contains e.1 then d.set e.1 (d.getD e.1 0 + e.2) else d) hits

/-- `_on_scheduled`. -/
def onScheduled (m : MetricsCollector) (requestId : RequestId) (matchedTokens : ℕ)
    (matchedBlocksByTier : PyDict Tier ℕ) : MetricsCollector :=
  match m.requests.get? requestId with
  | none => m
  | some rec =>
      { m with
        requests := m.requests.set requestId { rec with matchedTokens := some matchedTokens }
        cacheHitByTier := addTierHits m.cacheHitByTier matchedBlocksByTier }

/-- `_on_rejected`. -/
def onRejected (m : MetricsCollector) (requestId : RequestId) : MetricsCollector :=
  { m with
    rejectedCount := m.rejectedCount + 1
    requestNChunks := m.requestNChunks.erase requestId
    activePrefills := m.activePrefills.erase requestId }

/-- `_on_prefill_start`. -/
def onPrefillStart (m : MetricsCollector) (requestId : RequestId) (nChunks : ℤ) :
    MetricsCollector :=
  { m with
    requestNChunks := m.requestNChunks.set requestId nChunks
    activePrefills := insert requestId m.activePrefills }

/-- `_on_prefill_complete`. -/
def onPrefillComplete (m : MetricsCollector) (requestId : RequestId) : MetricsCollector :=
  { m with activePrefills := m.activePrefills.erase requestId }

/-- `_on_kv_transfer_start`. -/
def onKvTransferStart (m : MetricsCollector) (transferId : String) : MetricsCollector :=
  { m with seenTransferIds := insert transferId m.seenTransferIds }

/-- `_on_kv_transfer_complete`: a transfer whose start has not been seen is dropped. -/
def onKvTransferComplete (m : MetricsCollector) (transferId : String)
    (costMs queuedCostMs : Time) : MetricsCollector :=
  if transferId ∈ m.seenTransferIds then
    { m with
      seenTransferIds := m.seenTransferIds.erase transferId
      kvTransferCostSamples := m.kvTransferCostSamples ++ [costMs]
      kvTransferQueuedSamples := m.kvTransferQueuedSamples ++ [queuedCostMs] }
  else
    m

/-- `_on_decode_step`. -/
def onDecodeStep (m : MetricsCollector) (time : Time) (requestId : RequestId) (stepIndex : ℤ) :
    MetricsCollector :=
  match m.requests.get? requestId with
  | none => m
  | some rec =>
      if stepIndex = 0 then
        if rec.ttft.isSome then
          m
        else
          let ttft := time - rec.arrivalTime
          { m with
            requests := m.requests.set requestId { rec with ttft := some ttft }
            ttftPerRequest := m.ttftPerRequest ++ [ttft]
            lastDecodeStepTime := m.lastDecodeStepTime.set requestId time
            tbtSamples := m.tbtSamples.set requestId (m.tbtSamples.getD requestId [])
            activeDecodes := insert requestId m.activeDecodes }
      else
        match m.lastDecodeStepTime.get? requestId with
        | none => { m with lastDecodeStepTime := m.lastDecodeStepTime.set requestId time }
        | some last =>
            { m with
              tbtSamples := m.tbtSamples.set requestId
                (m.tbtSamples.getD requestId [] ++ [time - last])
              lastDecodeStepTime := m.lastDecodeStepTime.set requestId time }

/-- The node that a batch step reads its batch size from, if the payload has none: an empty id is
not looked up. -/
def fallbackNode (nodes : PyDict NodeId MockEngineNode) (nodeId : NodeId) :
    Option MockEngineNode :=
  if nodeId ≠ "" then nodes.get? nodeId else none

/-- `_on_decode_batch_step`: `batchSize` is the entry of the payload, if it has one. -/
def onDecodeBatchStep (m : MetricsCollector) (nodes : PyDict NodeId MockEngineNode)
    (nodeId : NodeId) (batchSize : Option ℕ) : MetricsCollector :=
  match batchSize <|> (fallbackNode nodes nodeId).map fun node => node.decoding.card with
  | none => m
  | some batchSize =>
      { m with
        batchSizeSamples := m.batchSizeSamples ++ [batchSize]
        totalDecodeTokens := m.totalDecodeTokens + batchSize
        dualPhaseTickCount :=
          if m.activePrefills.Nonempty ∧ m.activeDecodes.Nonempty then
            m.dualPhaseTickCount + 1
          else
            m.dualPhaseTickCount }

/-- `_on_decode_complete`. -/
def onDecodeComplete (m : MetricsCollector) (time : Time) (requestId : RequestId) :
    MetricsCollector :=
  match m.requests.get? requestId with
  | none => m
  | some rec =>
      { m with
        completedCount := m.completedCount + 1
        endTime := some time
        e2ePerRequest := m.e2ePerRequest ++ [time - rec.arrivalTime]
        requestNChunks := m.requestNChunks.erase requestId
        chunkedPrefillSteps :=
          m.chunkedPrefillSteps ++ (m.requestNChunks.get? requestId).toList
        activeDecodes := m.activeDecodes.erase requestId }

/-- The handler of an event, as registered by `attach`. -/
def observe (m : MetricsCollector) (nodes : PyDict NodeId MockEngineNode)
    (batchSize : Option ℕ) (time : Time) : Payload → MetricsCollector
  | .requestArrive req => m.onArrive time req
  | .scheduled requestId _ matchedTokens matchedBlocksByTier =>
      m.onScheduled requestId matchedTokens matchedBlocksByTier
  | .requestRejected requestId _ => m.onRejected requestId
  | .prefillStart requestId _ _ nChunks => m.onPrefillStart requestId nChunks
  | .prefillComplete requestId _ _ => m.onPrefillComplete requestId
  | .kvTransferStart base => m.onKvTransferStart base.transferId
  | .kvTransferComplete base _ =>
      m.onKvTransferComplete base.transferId base.costMs base.queuedCostMs
  | .tokenGenerated requestId stepIndex => m.onDecodeStep time requestId stepIndex
  | .decodeBatchStep nodeId => m.onDecodeBatchStep nodes nodeId batchSize
  | .decodeComplete requestId _ => m.onDecodeComplete time requestId

end MetricsCollector

/-! ### The summary -/

namespace Statistics

/-- `statistics.mean`, or nothing without samples. -/
def mean (data : List ℚ) : Option ℚ :=
  if data = [] then none else some (data.sum / data.length)

/-- `statistics.median`, or nothing without samples. -/
def median (data : List ℚ) : Option ℚ :=
  let sorted := data.insertionSort (· ≤ ·)
  let n := data.length
  if n = 0 then
    none
  else if n % 2 = 1 then
    sorted[n / 2]?
  else
    some ((sorted.getD (n / 2 - 1) 0 + sorted.getD (n / 2) 0) / 2)

/-- `statistics.quantiles(data, n=100)[98]` for two samples and more. -/
def quantile99 (data : List ℚ) : ℚ :=
  let sorted := data.insertionSort (· ≤ ·)
  let ld := data.length
  let m := ld + 1
  let j := max 1 (min (ld - 1) (99 * m / 100))
  let delta : ℤ := 99 * m - j * 100
  (sorted.getD (j - 1) 0 * (100 - delta) + sorted.getD j 0 * delta) / 100

/-- The 99th percentile; a single sample stands for itself. -/
def p99 (data : List ℚ) : Option ℚ :=
  match data with
  | [] => none
  | [x] => some x
  | data => some (quantile99 data)

end Statistics

/-- The aggregated metrics. -/
structure MetricsSummary where
  totalArrived : ℕ
  completed : ℕ
  rejected : ℕ
  rejectionRate : Option ℚ
  ttftP50Ms : Option ℚ
  ttftP99Ms : Option ℚ
  ttftAvgMs : Option ℚ
  tbtP50Ms : Option ℚ
  tbtAvgMs : Option ℚ
  e2eP50Ms : Option ℚ
  e2eAvgMs : Option ℚ
  sloTtftHitRate : Option ℚ
  cacheHitRatio : Option ℚ
  throughputReqPerS : Option ℚ
  avgBatchSize : Option ℚ
  decodeThroughputTokensPerS : Option ℚ
  avgChunkedPrefillStepsPerRequest : Option ℚ
  kvTransferTimeAvgMs : Option ℚ
  dualPhaseTickCount : ℕ
  kvTransferQueuedAvgMs : ℚ
  cacheHitByTierBlocks : PyDict Tier ℕ
  cacheHitByTierRatio : Option (List (Tier × ℚ))
deriving DecidableEq

namespace MetricsCollector

/-- `_flat_tbt`. -/
def flatTbt (m : MetricsCollector) : List Time := m.tbtSamples.values.flatten

/-- `_slo_ttft_hit_rate`. -/
def sloTtftHitRate (m : MetricsCollector) : Option ℚ :=
  let eligible := m.requests.values.filterMap fun rec => rec.ttft.map fun ttft => (ttft, rec.sloTtft)
  if eligible = [] then none
  else some (eligible.countP (fun e => e.1 ≤ e.2) / eligible.length)

/-- `_cache_hit_ratio`. -/
def cacheHitRatio (m : MetricsCollector) : Option ℚ :=
  let scheduled := m.requests.values.filterMap fun rec =>
    rec.matchedTokens.map fun matched => (rec.tokenCount, matched)
  let totalTokens := (scheduled.map Prod.fst).sum
  let matchedTokens := (scheduled.map Prod.snd).sum
  if totalTokens = 0 then none else some (matchedTokens / totalTokens)

/-- A count per second between the first arrival and the last completion. -/
def perSecond (m : MetricsCollector) (count : ℕ) : Option ℚ :=
  match m.startTime, m.endTime with
  | some start, some finish =>
      let durationS := (finish - start) / 1000
      if durationS ≤ 0 then none else some (count / durationS)
  | _, _ => none

/-- `_throughput`. -/
def throughput (m : MetricsCollector) : Option ℚ := m.perSecond m.completedCount

/-- `_decode_throughput`. -/
def decodeThroughput (m : MetricsCollector) : Option ℚ := m.perSecond m.totalDecodeTokens

/-- `_avg_batch_size`. -/
def avgBatchSize (m : MetricsCollector) : Option ℚ :=
  Statistics.mean (m.batchSizeSamples.map fun n => (n : ℚ))

/-- `_cache_hit_by_tier_ratio`. -/
def cacheHitByTierRatio (m : MetricsCollector) : Option (List (Tier × ℚ)) :=
  let total := m.cacheHitByTier.values.sum
  if total = 0 then none
  else some ((m.cacheHitByTier.entries.filter fun e => e.2 > 0).map fun e =>
    (e.1, (e.2 : ℚ) / total))

/-- `summary`. -/
def summary (m : MetricsCollector) : MetricsSummary where
  totalArrived := m.totalArrived
  completed := m.completedCount
  rejected := m.rejectedCount
  rejectionRate :=
    if m.totalArrived > 0 then some (m.rejectedCount / m.totalArrived) else none
  ttftP50Ms := Statistics.median m.ttftPerRequest
  ttftP99Ms := Statistics.p99 m.ttftPerRequest
  ttftAvgMs := Statistics.mean m.ttftPerRequest
  tbtP50Ms := Statistics.median m.flatTbt
  tbtAvgMs := Statistics.mean m.flatTbt
  e2eP50Ms := Statistics.median m.e2ePerRequest
  e2eAvgMs := Statistics.mean m.e2ePerRequest
  sloTtftHitRate := m.sloTtftHitRate
  cacheHitRatio := m.cacheHitRatio
  throughputReqPerS := m.throughput
  avgBatchSize := m.avgBatchSize
  decodeThroughputTokensPerS := m.decodeThroughput
  avgChunkedPrefillStepsPerRequest :=
    Statistics.mean (m.chunkedPrefillSteps.map fun n => (n : ℚ))
  kvTransferTimeAvgMs := Statistics.mean m.kvTransferCostSamples
  dualPhaseTickCount := m.dualPhaseTickCount
  kvTransferQueuedAvgMs := (Statistics.mean m.kvTransferQueuedSamples).getD 0
  cacheHitByTierBlocks := m.cacheHitByTier
  cacheHitByTierRatio := m.cacheHitByTierRatio

end MetricsCollector

end NanoKVRouter
