/-
**The wired simulator.**

Seven handlers take a request through the cluster: it arrives and is admitted on a prefill node, is
prefilled in chunks, is transferred, and is decoded one token per batch step on a decode node.  The
handlers share the nodes, the cache manager, the transfer model and three maps of bookkeeping; what
is left to do is in the event queue of the engine.

The policy, the nodes of the two pools and the order in which a Python set is iterated are
parameters.  A node that is in both pools is one object, as in a combined deployment.

Main definitions:

* `Payload` — the events of the simulator, with what they carry;
* `Bookkeeping`, `Cluster` — the state the handlers share, and `Wiring` — what they are wired with;
* `Wiring.onArrive`, `Wiring.onPrefillStart`, `Wiring.onPrefillComplete`,
  `Wiring.onKvTransferComplete`, `Wiring.onDecodeBatchStep`, `Wiring.onDecodeComplete` — the
  handlers;
* `Wiring.act` — one step of a run: scheduling an arrival, or a turn of the engine;
* `Wiring.Reaches`, `Wiring.ReachesFrom` — the states that runs lead to, between two event
  handlings, from the start and from a given state.
-/

import NanoKVRouter.Scheduler
import NanoKVRouter.SimulationEngine

set_option relaxedAutoImplicit false
set_option autoImplicit false

namespace NanoKVRouter

/-! ### Events -/

/-- What both events of a transfer carry. -/
structure TransferPayload where
  requestId : RequestId
  transferId : String
  srcNodeId : NodeId
  dstNodeId : NodeId
  serviceCostMs : Time
  queuedCostMs : Time
  costMs : Time
deriving DecidableEq

/-- The events of the simulator.  The batch size that the handler of a batch step writes into its
event is kept in the history of the cluster. -/
inductive Payload
  | requestArrive (request : Request)
  | requestRejected (requestId : RequestId) (reason : Option String)
  | scheduled (requestId : RequestId) (decision : SchedulingDecision) (matchedTokens : ℕ)
      (matchedBlocksByTier : PyDict Tier ℕ)
  | prefillStart (requestId : RequestId) (nodeId : NodeId) (request : Request) (nChunks : ℤ)
  | prefillComplete (requestId : RequestId) (nodeId : NodeId) (request : Request)
  | kvTransferStart (base : TransferPayload)
  | kvTransferComplete (base : TransferPayload) (request : Request)
  | decodeBatchStep (nodeId : NodeId)
  | tokenGenerated (requestId : RequestId) (stepIndex : ℤ)
  | decodeComplete (requestId : RequestId) (nodeId : NodeId)
deriving DecidableEq

/-! ### The state the handlers share -/

/-- The nodes an accepted request is assigned to. -/
structure Assignment where
  prefillNode : NodeId
  decodeNode : NodeId
deriving DecidableEq

/-- The bookkeeping of one transfer. -/
structure PendingTransfer where
  requestId : RequestId
  src : NodeId
  dst : NodeId
  costMs : Time
  request : Request
deriving DecidableEq

/-- A handled batch step: when it started, and what its tick did unless the node was idle. -/
structure BatchStep where
  nodeId : NodeId
  time : Time
  tick : Option (ℕ × Time)
deriving DecidableEq

/-- The nodes and the maps of the handlers.  The last three fields are history variables, which
nothing reads: the handled batch steps with their batch sizes and ends, the promotions of queued
requests, and the requests that have entered decode, the oldest first. -/
structure Bookkeeping where
  nodes : PyDict NodeId MockEngineNode
  decisions : PyDict RequestId Assignment
  requests : PyDict RequestId Request
  pendingTransfers : PyDict String PendingTransfer
  transferCounter : PyDict RequestId ℕ
  steps : List BatchStep
  promotions : List (NodeId × RequestId)
  entered : List RequestId

/-- The state the handlers share. -/
structure Cluster (ς : Type) extends Bookkeeping where
  sched : ς
  cm : CacheManager
  transferModel : TransferModel

/-- The engine and the cluster. -/
abbrev Simulator (ς : Type) : Type := SimulationEngine Payload × Cluster ς

/-- What a node is created with. -/
structure NodeSpec where
  nodeId : NodeId
  modelConfig : ModelConfig
  nodeConfig : NodeConfig
deriving DecidableEq

/-- The node object before the first event. -/
def NodeSpec.node (spec : NodeSpec) : MockEngineNode :=
  .init spec.nodeId spec.modelConfig spec.nodeConfig

/-- An order in which a Python set is iterated; it may change from one event to the next. -/
structure SetOrder where
  iter : ℕ → Finset RequestId → List RequestId
  nodup : ∀ n s, (iter n s).Nodup
  mem_iff : ∀ n s r, r ∈ iter n s ↔ r ∈ s

/-- The order by id. -/
def SetOrder.byId : SetOrder where
  iter := fun _ => sortedIds
  nodup := fun _ => sortedIds_nodup
  mem_iff := fun _ _ _ => mem_sortedIds

/-- What the handlers are wired with.  Nodes go by their ids: one id names one node object. -/
structure Wiring (ς : Type) where
  policy : SchedulingPolicy ς
  prefillNodes : List NodeSpec
  decodeNodes : List NodeSpec
  modelCfg : ModelConfig
  bandwidthCfg : BandwidthConfig
  streamOrder : SetOrder
  unique : ∀ s ∈ prefillNodes ++ decodeNodes, ∀ s' ∈ prefillNodes ++ decodeNodes,
    s.nodeId = s'.nodeId → s = s'

namespace Wiring

variable {ς : Type}

/-- The ids of the prefill pool. -/
def prefillIds (w : Wiring ς) : List NodeId := w.prefillNodes.map NodeSpec.nodeId

/-- The ids of the decode pool. -/
def decodeIds (w : Wiring ς) : List NodeId := w.decodeNodes.map NodeSpec.nodeId

/-- The simulator before the first event. -/
def start (w : Wiring ς) (sched : ς) (cm : CacheManager) (transferModel : TransferModel) :
    Simulator ς :=
  (.init,
    { sched := sched
      cm := cm
      nodes := (w.prefillNodes ++ w.decodeNodes).foldl (fun d s => d.set s.nodeId s.node) .empty
      transferModel := transferModel
      decisions := .empty
      requests := .empty
      pendingTransfers := .empty
      transferCounter := .empty
      steps := []
      promotions := []
      entered := [] })

end Wiring

/-! ### Calls of the handlers -/

section Calls

variable {ς : Type}

/-- A call on the engine. -/
def onEngine {α : Type} (m : Py (SimulationEngine Payload) α) : Py (Simulator ς) α :=
  Py.onPart Prod.fst (fun eng s => (eng, s.2)) m

/-- A call on the cache manager. -/
def onCm {α : Type} (m : Py CacheManager α) : Py (Simulator ς) α :=
  Py.onPart (fun s => s.2.cm) (fun cm s => (s.1, { s.2 with cm := cm })) m

/-- An update of the shared state. -/
def modifyCluster (f : Cluster ς → Cluster ς) : Py (Simulator ς) Unit :=
  modify fun s => (s.1, f s.2)

/-- The node of a pool with a given id. -/
def nodeOf (pool : List NodeId) (nodeId : NodeId) : Py (Simulator ς) MockEngineNode := do
  let c := (← get).2
  match if nodeId ∈ pool then c.nodes.get? nodeId else none with
  | none => Py.raise (.keyError nodeId)
  | some node => pure node

/-- A call of a method of a node. -/
def onNode {α : Type} (nodeId : NodeId) (m : Py MockEngineNode α) : Py (Simulator ς) α := do
  match (← get).2.nodes.get? nodeId with
  | none => Py.raise (.keyError nodeId)
  | some node =>
      Py.onPart (fun _ => node)
        (fun n s => (s.1, { s.2 with nodes := s.2.nodes.set nodeId n })) m

/-- Schedule an event. -/
def scheduleAt (time : Time) (payload : Payload) : Py (Simulator ς) Unit :=
  onEngine (SimulationEngine.schedule { time := time, payload := payload })

/-- The transfer id of a request, by its counter. -/
def nextTransferId (requestId : RequestId) : Py (Simulator ς) String := do
  let n := (← get).2.transferCounter.getD requestId 0
  modifyCluster fun c => { c with transferCounter := c.transferCounter.set requestId (n + 1) }
  pure (requestId ++ "-xfer-" ++ toString n)

/-- Prompt tokens that still require prefill after the cache hit on the decode node. -/
def computeUncachedTokens (req : Request) (decodeNodeId : NodeId) : Py (Simulator ς) ℤ := do
  let now := (← get).1.now
  let lookup := do pure (← CacheManager.lookup now req decodeNodeId).matchedTokens
  let matched ← Py.onExcept PyErr.isKeyError (onCm lookup) (pure 0)
  pure (max 0 (req.tokenIds.length - matched))

/-- Prefill chunks needed for a request. -/
def computeNChunks (req : Request) (decodeNodeId : NodeId) (chunkSize : ℕ) :
    Py (Simulator ς) ℤ := do
  let uncached ← computeUncachedTokens req decodeNodeId
  pure (if uncached > 0 then (uncached + chunkSize - 1) / chunkSize else 0)

/-- Schedule a batch step if the node has work and no step is in flight. -/
def wakeBatchStep (nodeId : NodeId) (time : Time) : Py (Simulator ς) Unit := do
  match (← get).2.nodes.get? nodeId with
  | none => Py.raise (.keyError nodeId)
  | some node =>
      if node.hasWork && !node.batchStepInFlight then
        scheduleAt time (.decodeBatchStep nodeId)
        onNode nodeId MockEngineNode.markBatchStepScheduled
      else
        pure ()

/-- `node.complete(request_id)`, where a request that is not on the node is ignored. -/
def completeOn (nodeId : NodeId) (requestId : RequestId) : Py (Simulator ς) (Option RequestId) := do
  let promoted ← Py.onExcept PyErr.isValueError
    (onNode nodeId (MockEngineNode.complete requestId)) (pure none)
  match promoted with
  | none => pure none
  | some id =>
      modifyCluster fun c => { c with promotions := c.promotions ++ [(nodeId, id)] }
      pure (some id)

/-- The bookkeeping of a request is dropped. -/
def forget (requestId : RequestId) : Py (Simulator ς) Unit :=
  modifyCluster fun c =>
    { c with decisions := c.decisions.erase requestId, requests := c.requests.erase requestId }

end Calls

/-! ### The handlers -/

namespace Wiring

variable {ς : Type}

/-- `sched.schedule(…)`: the policy sees the nodes of both pools, the cache, and the backlog of the
transfer model. -/
def schedule (w : Wiring ς) (req : Request) : Py (Simulator ς) SchedulingDecision := do
  let (eng, c) ← get
  let nodesOf := fun ids => ids.filterMap c.nodes.get?
  Py.onPart (fun s => (s.2.sched, s.2.cm))
    (fun p s => (s.1, { s.2 with sched := p.1, cm := p.2 }))
    (w.policy req (nodesOf w.prefillIds) (nodesOf w.decodeIds) c.transferModel.peekBacklog eng.now)

/-- Start the prefill of a request that is running on a prefill node. -/
def startPrefill (req : Request) (requestId : RequestId) (prefillNode decodeNode : NodeId)
    (chunkSize : ℕ) : Py (Simulator ς) Unit := do
  let nChunks ← computeNChunks req decodeNode chunkSize
  scheduleAt (← get).1.now (.prefillStart requestId prefillNode req nChunks)

/-- An accepted request is admitted on its prefill node. -/
def acceptArrival (w : Wiring ς) (req : Request) (decision : SchedulingDecision)
    (prefillNode : NodeId) : Py (Simulator ς) Unit := do
  let now := (← get).1.now
  match decision.decodeNode with
  | none => Py.raise (.keyError "None")
  | some decodeNode =>
      let decodeLookup ← onCm (CacheManager.lookup now req decodeNode)
      scheduleAt now (.scheduled req.requestId decision decodeLookup.matchedTokens
        decodeLookup.matchedBlocksByTier)
      modifyCluster fun c =>
        { c with
          decisions := c.decisions.set req.requestId ⟨prefillNode, decodeNode⟩
          requests := c.requests.set req.requestId req }
      let node ← nodeOf w.prefillIds prefillNode
      let uncached : ℤ := max 0 (req.tokenIds.length - decodeLookup.matchedTokens)
      let isRunning ← onNode prefillNode (MockEngineNode.admitRequest req.requestId
        req.expectedOutputLen (some req.tokenIds.length) (some uncached))
      if isRunning then
        startPrefill req req.requestId prefillNode decodeNode node.modelConfig.prefillChunkSize
      else
        pure ()

/-- `on_arrive`. -/
def onArrive (w : Wiring ς) (req : Request) : Py (Simulator ς) Unit := do
  let decision ← w.schedule req
  match decision.prefillNode with
  | none => scheduleAt (← get).1.now (.requestRejected req.requestId decision.rejectReason)
  | some prefillNode => w.acceptArrival req decision prefillNode

/-- `on_prefill_start`. -/
def onPrefillStart (w : Wiring ς) (requestId : RequestId) (nodeId : NodeId) (req : Request) :
    Py (Simulator ς) Unit := do
  let _ ← nodeOf w.prefillIds nodeId
  let decodeNodeId := match (← get).2.decisions.get? requestId with
    | some decision => decision.decodeNode
    | none => nodeId
  let uncached ← computeUncachedTokens req decodeNodeId
  let now := (← get).1.now
  if uncached = 0 then
    -- fully cached on the decode side: no chunk to run
    onNode nodeId (MockEngineNode.markPrefillDone requestId)
    scheduleAt now (.prefillComplete requestId nodeId req)
  else
    onNode nodeId (MockEngineNode.enterPrefill requestId uncached)
    wakeBatchStep nodeId now

/-- A request promoted when a prefill slot is released starts its prefill. -/
def startPromoted (nodeId : NodeId) (promotedId : RequestId) (chunkSize : ℕ) :
    Py (Simulator ς) Unit := do
  let c := (← get).2
  match c.requests.get? promotedId, c.decisions.get? promotedId with
  | some req, some decision =>
      let uncached ← computeUncachedTokens req decision.decodeNode
      onNode nodeId (MockEngineNode.initPromoted promotedId req.expectedOutputLen
        (some req.tokenIds.length) (some uncached))
      startPrefill req promotedId nodeId decision.decodeNode chunkSize
  | _, _ => pure ()

/-- Emit the pair of transfer events after a prefill. -/
def startTransfer (w : Wiring ς) (requestId : RequestId) (req : Request) (decision : Assignment) :
    Py (Simulator ς) Unit := do
  let (eng, c) ← get
  let service := transferServiceMs req.tokenIds.length w.modelCfg.kvBytesPerToken
    w.bandwidthCfg.gpuToGpu
  let ((startT, finishT), tm) := c.transferModel.requestTransfer decision.prefillNode
    decision.decodeNode eng.now service
  modifyCluster fun c => { c with transferModel := tm }
  let transferId ← nextTransferId requestId
  let info : PendingTransfer :=
    { requestId := requestId
      src := decision.prefillNode
      dst := decision.decodeNode
      costMs := finishT - eng.now
      request := req }
  modifyCluster fun c => { c with pendingTransfers := c.pendingTransfers.set transferId info }
  let base : TransferPayload :=
    { requestId := requestId
      transferId := transferId
      srcNodeId := decision.prefillNode
      dstNodeId := decision.decodeNode
      serviceCostMs := service
      queuedCostMs := startT - eng.now
      costMs := finishT - eng.now }
  scheduleAt startT (.kvTransferStart base)
  scheduleAt finishT (.kvTransferComplete base req)

/-- `on_prefill_complete`. -/
def onPrefillComplete (w : Wiring ς) (requestId : RequestId) (nodeId : NodeId) (req : Request) :
    Py (Simulator ς) Unit := do
  let node ← nodeOf w.prefillIds nodeId
  match (← get).2.decisions.get? requestId with
  | none => pure ()
  | some decision =>
      -- release the prefill slot; a queued request may be promoted
      match ← completeOn nodeId requestId with
      | none => pure ()
      | some promotedId => startPromoted nodeId promotedId node.modelConfig.prefillChunkSize
      w.startTransfer requestId req decision

/-- The request of a finished transfer enters decode, unless the decode node is full. -/
def enterDecode (w : Wiring ς) (info : PendingTransfer) (decodeNode : NodeId) :
    Py (Simulator ς) Unit := do
  let node ← nodeOf w.decodeIds decodeNode
  let now := (← get).1.now
  if node.runningRequests.length ≥ node.nodeConfig.capacity then
    scheduleAt now (.requestRejected info.requestId (some "decode_capacity_exhausted"))
    forget info.requestId
  else
    let materialize := do
      let _ ← CacheManager.materializeRequest (fun _ => now) info.requestId info.request.tokenIds
        decodeNode
    Py.onExcept PyErr.isMemoryError (onCm materialize) (pure ())
    let _ ← onNode decodeNode (MockEngineNode.admitRequest info.requestId
      info.request.expectedOutputLen (some info.request.tokenIds.length) (some 0))
    onNode decodeNode (MockEngineNode.startDecode info.requestId)
    modifyCluster fun c => { c with entered := c.entered ++ [info.requestId] }
    wakeBatchStep decodeNode now

/-- `on_kv_transfer_complete`. -/
def onKvTransferComplete (w : Wiring ς) (transferId : String) : Py (Simulator ς) Unit := do
  match (← get).2.pendingTransfers.get? transferId with
  | none => pure ()
  | some info =>
      modifyCluster fun c => { c with pendingTransfers := c.pendingTransfers.erase transferId }
      match (← get).2.decisions.get? info.requestId with
      | none => pure ()
      | some decision => w.enterDecode info decision.decodeNode

/-- The token events of a batch step. -/
def emitTokens (nodeId : NodeId) (time : Time) : List RequestId → Py (Simulator ς) Unit
  | [] => pure ()
  | r :: rest => do
      match (← get).2.nodes.get? nodeId with
      | none => Py.raise (.keyError nodeId)
      | some node =>
          match node.outputTokens.get? r with
          | none => Py.raise (.keyError r)
          | some generated =>
              scheduleAt time (.tokenGenerated r (generated - 1))
              emitTokens nodeId time rest

/-- The completion events of a batch step. -/
def emitCompletions (nodeId : NodeId) (time : Time) : List RequestId → Py (Simulator ς) Unit
  | [] => pure ()
  | r :: rest => do
      scheduleAt time (.decodeComplete r nodeId)
      emitCompletions nodeId time rest

/-- The completion event of the prefill that a batch step finished, if it finished one. -/
def emitPrefillComplete (nodeId : NodeId) (time : Time) : Option RequestId → Py (Simulator ς) Unit
  | none => pure ()
  | some r => do
      match (← get).2.requests.get? r with
      | none => pure ()
      | some req => scheduleAt time (.prefillComplete r nodeId req)

/-- The part of `on_decode_batch_step` for a node with work. -/
def runBatchStep (w : Wiring ς) (nodeId : NodeId) : Py (Simulator ς) Unit := do
  let now := (← get).1.now
  let node ← nodeOf (w.prefillIds ++ w.decodeIds) nodeId
  let (nextTime, completed, prefillCompleted) ←
    onNode nodeId (MockEngineNode.tickBatchStep now)
  modifyCluster fun c =>
    { c with steps := c.steps ++ [⟨nodeId, now, some (node.decoding.card, nextTime)⟩] }
  emitPrefillComplete nodeId nextTime prefillCompleted
  let node ← nodeOf (w.prefillIds ++ w.decodeIds) nodeId
  let streams := w.streamOrder.iter (← get).1.seqCounter (node.decoding ∪ completed.toFinset)
  emitTokens nodeId nextTime streams
  emitCompletions nodeId nextTime completed
  wakeBatchStep nodeId nextTime

/-- `on_decode_batch_step`. -/
def onDecodeBatchStep (w : Wiring ς) (nodeId : NodeId) : Py (Simulator ς) Unit := do
  let now := (← get).1.now
  let node ← nodeOf (w.prefillIds ++ w.decodeIds) nodeId
  onNode nodeId MockEngineNode.markBatchStepCompleted
  if node.hasWork then
    w.runBatchStep nodeId
  else
    modifyCluster fun c => { c with steps := c.steps ++ [⟨nodeId, now, none⟩] }

/-- `on_decode_complete`. -/
def onDecodeComplete (w : Wiring ς) (requestId : RequestId) (nodeId : NodeId) :
    Py (Simulator ς) Unit := do
  let _ ← nodeOf w.decodeIds nodeId
  -- a promoted request is logged and ignored
  let _ ← completeOn nodeId requestId
  Py.onExcept PyErr.isKeyError (onCm (CacheManager.releaseRequest requestId nodeId)) (pure ())
  forget requestId
  wakeBatchStep nodeId (← get).1.now

/-- The handler of an event. -/
def handle (w : Wiring ς) : Payload → Py (Simulator ς) Unit
  | .requestArrive req => w.onArrive req
  | .prefillStart requestId nodeId req _ => w.onPrefillStart requestId nodeId req
  | .prefillComplete requestId nodeId req => w.onPrefillComplete requestId nodeId req
  | .kvTransferComplete base _ => w.onKvTransferComplete base.transferId
  | .decodeBatchStep nodeId => w.onDecodeBatchStep nodeId
  | .decodeComplete requestId nodeId => w.onDecodeComplete requestId nodeId
  -- the other events are read by the metrics only
  | .requestRejected .. => pure ()
  | .scheduled .. => pure ()
  | .kvTransferStart .. => pure ()
  | .tokenGenerated .. => pure ()

/-- The handlers as registered with the engine. -/
def handlers (w : Wiring ς) : SimulationEngine.Handlers Payload (Cluster ς) :=
  fun _ => [fun ev => w.handle ev.payload]

end Wiring

/-! ### Runs -/

/-- A step of a run: the arrival of a request is scheduled, or the engine handles an event. -/
inductive Action
  | arrive (time : Time) (request : Request)
  | turn
deriving DecidableEq

namespace Wiring

variable {ς : Type}

/-- A step of a run. -/
def act (w : Wiring ς) : Action → Py (Simulator ς) Unit
  | .arrive time request => scheduleAt time (.requestArrive request)
  | .turn => SimulationEngine.turn w.handlers

/-- The states that runs lead to without an exception, if every step meets the condition in the
state it starts from. -/
inductive Reaches (w : Wiring ς) (meets : Simulator ς → Action → Prop) : Simulator ς → Prop
  | start (sched : ς) (cm : CacheManager) (transferModel : TransferModel) :
      Reaches w meets (w.start sched cm transferModel)
  | step {s s' : Simulator ς} (a : Action) (h : Reaches w meets s) (ha : meets s a)
      (hrun : (w.act a).run s = .ok () s') : Reaches w meets s'

/-- Some actions, one after another. -/
def execute (w : Wiring ς) (acts : List Action) : Py (Simulator ς) Unit := acts.forM w.act

/-- The steps of a run meet the condition. -/
def Meets (w : Wiring ς) (meets : Simulator ς → Action → Prop) : List Action → Simulator ς → Prop
  | [], _ => True
  | a :: acts, s => meets s a ∧ Meets w meets acts ((w.act a).run s).state

instance (w : Wiring ς) (meets : Simulator ς → Action → Prop) [∀ s a, Decidable (meets s a)] :
    ∀ acts s, Decidable (w.Meets meets acts s)
  | [], _ => .isTrue trivial
  | _ :: acts, _ => @instDecidableAnd _ _ _ (instDecidableMeets w meets acts _)

/-- The states that runs from `s₀` lead to without an exception, if every step meets the condition
in the state it starts from. -/
inductive ReachesFrom (w : Wiring ς) (meets : Simulator ς → Action → Prop) (s₀ : Simulator ς) :
    Simulator ς → Prop
  | refl : ReachesFrom w meets s₀ s₀
  | step {s s' : Simulator ς} (a : Action) (h : ReachesFrom w meets s₀ s) (ha : meets s a)
      (hrun : (w.act a).run s = .ok () s') : ReachesFrom w meets s₀ s'

section Runs

variable {w : Wiring ς} {meets : Simulator ς → Action → Prop} {s₀ s : Simulator ς}

/-- What is reached from a state that is reached is reached. -/
theorem ReachesFrom.reaches (h : w.ReachesFrom meets s₀ s) (h₀ : w.Reaches meets s₀) :
    w.Reaches meets s := by
  induction h with
  | refl => exact h₀
  | step a _ ha hrun ih => exact ih.step a ha hrun

/-- A run of some actions that raises no exception leads on. -/
theorem ReachesFrom.execute : ∀ {acts : List Action} {s : Simulator ς},
    w.ReachesFrom meets s₀ s → w.Meets meets acts s →
      ((w.execute acts).run s).isOk = true →
      w.ReachesFrom meets s₀ ((w.execute acts).run s).state := by
  intro acts
  induction acts with
  | nil => exact fun h _ _ => h
  | cons a acts ih =>
      intro s h hm hok
      have hrun : (w.execute (a :: acts)).run s =
          (w.act a >>= fun _ => w.execute acts).run s := rfl
      cases ha : (w.act a).run s with
      | error e s' =>
          rw [hrun, Py.run_bind_error ha] at hok
          cases hok
      | ok u s' =>
          rw [hrun, Py.run_bind_ok ha] at hok ⊢
          have hm' := hm.2
          rw [ha] at hm'
          exact ih (h.step a hm.1 ha) hm' hok

/-- A run of some actions from a state that is reached leads to one. -/
theorem Reaches.execute {acts : List Action} (h : w.Reaches meets s) (hm : w.Meets meets acts s)
    (hok : ((w.execute acts).run s).isOk = true) :
    w.Reaches meets ((w.execute acts).run s).state :=
  (ReachesFrom.execute .refl hm hok).reaches h

end Runs

end Wiring

/-! ### Small deployments -/

namespace Wiring

theorem unitCost_pos : (0 : Time) < 1 := by decide +kernel

theorem unitChunk_pos : 1 ≤ 4 := by decide

/-- One token for each block, and unit costs for each token. -/
def unitCosts : ModelConfig :=
  { ModelConfig.defaults with
    blockSize := 1
    kvBytesPerToken := 1
    prefillCostPerTokenMs := 1
    prefillChunkSize := 4
    one_le_blockSize := Nat.one_pos
    one_le_kvBytesPerToken := Nat.one_pos
    prefillCostPerTokenMs_pos := unitCost_pos
    one_le_prefillChunkSize := unitChunk_pos }

/-- A node of a given capacity. -/
def smallNode (capacity : ℕ) (h : 1 ≤ capacity) : NodeConfig :=
  { gpuBlocks := 8, cpuBlocks := 8, diskBlocks := 8, capacity := capacity, one_le_capacity := h }

/-- One prefill node and one decode node, with two slots each. -/
def split : Wiring Cursors where
  policy := RoundRobinPolicy.schedule ⟨unitCosts, .defaults⟩
  prefillNodes := [⟨"p0", unitCosts, smallNode 2 Nat.two_pos⟩]
  decodeNodes := [⟨"d0", unitCosts, smallNode 2 Nat.two_pos⟩]
  modelCfg := unitCosts
  bandwidthCfg := .defaults
  streamOrder := .byId
  unique := by decide +kernel

/-- One node with one slot, which is in both pools. -/
def combined : Wiring Cursors where
  policy := RoundRobinPolicy.schedule ⟨unitCosts, .defaults⟩
  prefillNodes := [⟨"n", unitCosts, smallNode 1 Nat.one_pos⟩]
  decodeNodes := [⟨"n", unitCosts, smallNode 1 Nat.one_pos⟩]
  modelCfg := unitCosts
  bandwidthCfg := .defaults
  streamOrder := .byId
  unique := by decide +kernel

/-- The start with empty caches and without contention. -/
def initial (w : Wiring Cursors) : Simulator Cursors :=
  w.start {} (.init w.decodeIds unitCosts (smallNode 2 Nat.two_pos) .defaults) .noop

/-- The state after some actions from the start. -/
def after (w : Wiring Cursors) (acts : List Action) : Simulator Cursors :=
  ((w.execute acts).run w.initial).state

theorem reaches_after {w : Wiring Cursors} {meets : Simulator Cursors → Action → Prop}
    (acts : List Action) (hm : w.Meets meets acts w.initial)
    (hok : ((w.execute acts).run w.initial).isOk = true) : w.Reaches meets (w.after acts) :=
  Reaches.execute (.start ..) hm hok

end Wiring

end NanoKVRouter
