/-
**The cache manager: one tree and one pool for each node, and the block tables of the active
requests.**

The manager admits a prompt by demoting least recently used leaves down the tier hierarchy until
the GPU tier has room and then inserting the prompt into the tree; it materializes a request by
pinning the reusable prefix, admitting the prompt and pinning the rest; and it answers lookups from
the same two structures.

A call reads the injected clock at several places.  The readings of one call are given by a
function `clock`, one argument for each place, so that they are independent of each other; a
constant function is the clock of the simulator, whose time stands still during a call.

Main definitions:

* `NodeCache`, `RequestBlockTable`, `CacheManager` — the state;
* `demoteBlock` — cascade one block down the hierarchy;
* `NodeCache.admitTokens` — the admission of a prompt, in two parts: `NodeCache.admitPrepare` is all
  that comes before the insertion;
* `NodeCache.lookup` — the hit of a prompt;
* `NodeCache.materialize` — the block table of a prompt, pinned;
* `CacheManager.admitTokens`, `CacheManager.lookup`, `CacheManager.lookupAll`,
  `CacheManager.freeBlocks`, `CacheManager.materializeRequest`, `CacheManager.releaseRequest` — the
  public methods.
-/

import NanoKVRouter.RadixTree
import NanoKVRouter.Request

set_option relaxedAutoImplicit false
set_option autoImplicit false

namespace NanoKVRouter

/-- One call of the demotion loop on a block: the pool it found and the pool it left. -/
structure DemotionCall where
  block : BlockId
  before : BlockPool
  after : BlockPool

/-- The tree and the pool of one node.  `demotions` is a history variable: nothing reads it. -/
structure NodeCache where
  tree : RadixTree
  pool : BlockPool
  demotions : List DemotionCall

/-- Per-node cache hit summary of one request. -/
structure CacheLookup where
  matchedTokens : ℕ
  matchedBlocksByTier : PyDict Tier ℕ
  transferCostMs : ℚ

/-- The summary of a miss. -/
def CacheLookup.miss : CacheLookup := ⟨0, PyDict.empty, 0⟩

namespace NodeCache

/-- An empty cache. -/
def init (model : ModelConfig) (node : NodeConfig) : NodeCache where
  tree := RadixTree.init model.blockSize
  pool := BlockPool.init node
  demotions := []

/-- Run a call on the tree. -/
def onTree {α : Type} (m : Py RadixTree α) : Py NodeCache α :=
  Py.onPart NodeCache.tree (fun t c => { c with tree := t }) m

/-- Run a call on the pool. -/
def onPool {α : Type} (m : Py BlockPool α) : Py NodeCache α :=
  Py.onPart NodeCache.pool (fun p c => { c with pool := p }) m

/-- Run a tree method whose callbacks work on the pool. -/
def onBoth {α : Type} (m : Py (RadixTree × BlockPool) α) : Py NodeCache α :=
  Py.onPart (fun c => (c.tree, c.pool)) (fun s c => { c with tree := s.1, pool := s.2 }) m

/-- `tree.match_prefix_path`. -/
def matchPrefixPath (now : Time) (tokenIds : List Token) : Py NodeCache (ℕ × List BlockId) :=
  fun c => .ok (c.tree.matchPrefixPath now tokenIds).1
    { c with tree := (c.tree.matchPrefixPath now tokenIds).2 }

/-! ### Demotion -/

/-- Release a block for good; the zombie leaf it may leave is dropped at once. -/
def freeBlock (bid : BlockId) : Py NodeCache Unit := do
  onPool (BlockPool.free [bid])
  let pool := (← get).pool
  let _ ← onTree (RadixTree.purgeBlockIds [bid] pool.tierOf)

/-- Cascade one block down the tier hierarchy until it finds a free slot: GPU, CPU, disk, and
free. -/
def demoteBlock (bid : BlockId) : Py NodeCache Unit := do
  let pool := (← get).pool
  match pool.tierOf bid with
  | none => pure ()
  | some current =>
      if pool.pinCountOf bid > 0 then
        Py.raise (.memoryError s!"block {bid} is pinned and cannot be demoted")
      else
        match current with
        | .gpu =>
            if pool.freeSlots .cpu > 0 then
              onPool (BlockPool.move bid "gpu" "cpu")
            else if pool.freeSlots .disk > 0 then
              onPool (BlockPool.move bid "gpu" "disk")
            else
              freeBlock bid
        | .cpu =>
            if pool.freeSlots .disk > 0 then
              onPool (BlockPool.move bid "cpu" "disk")
            else
              freeBlock bid
        | .disk => freeBlock bid

/-- `demoteBlock`, entered in the history. -/
def demoteRecorded (bid : BlockId) : Py NodeCache Unit := do
  let before := (← get).pool
  demoteBlock bid
  modify fun c => { c with demotions := c.demotions ++ [⟨bid, before, c.pool⟩] }

/-- One turn of the demotion loop of `admit`: select the least recently used unpinned leaf and
demote its blocks, in their order. -/
def demoteOnce (now : Time) (need capacity : ℕ) : Py NodeCache Unit := do
  let pool := (← get).pool
  let demoted ← onTree (RadixTree.demoteLru (fun _ => now) 1 (some pool.tierOf)
    (some fun b => decide (pool.pinCountOf b > 0)))
  if demoted = [] then
    Py.raise (.memoryError (s!"GPU pool full and no demotion candidates; need {need}, " ++
      s!"free {(capacity : ℤ) - pool.used .gpu}"))
  else
    demoted.forM fun bids => bids.forM demoteRecorded

/-- The demotion loop of `admit`: demote until `need` blocks fit into the GPU tier. -/
def demotionLoop (clock : ℕ → Time) (need capacity : ℕ) : ℕ → Py NodeCache Unit
  | 0 => Py.raise .outOfFuel
  | fuel + 1 => do
      if (← get).pool.used .gpu + need > capacity then
        demoteOnce (clock fuel) need capacity
        demotionLoop clock need capacity fuel
      else
        pure ()

/-- A bound on the turns of the demotion loop: each turn takes an allocated block at least one
step down the hierarchy, and a block on the GPU tier can go down three times. -/
def demotionFuel (c : NodeCache) : ℕ :=
  3 * c.pool.used .gpu + 2 * c.pool.used .cpu + c.pool.used .disk + 1

/-! ### Admission -/

/-- The prompt cut to its full blocks, and their number. -/
def alignedTokens (bs : ℕ) (tokenIds : List Token) : List Token × ℕ :=
  (tokenIds.take (tokenIds.length / bs * bs), tokenIds.length / bs)

/-- The size check and the demotion loop of `admit`. -/
def makeRoom (gpuBlocks : ℕ) (clock : ℕ → Time) (totalBlocks : ℕ) : Py NodeCache Unit := do
  if totalBlocks > gpuBlocks then
    Py.raise (.memoryError (s!"prompt requires {totalBlocks} blocks, " ++
      s!"exceeds total GPU capacity {gpuBlocks}"))
  else
    let worstCaseNew := min (totalBlocks + 1) gpuBlocks
    demotionLoop clock worstCaseNew gpuBlocks (demotionFuel (← get))

/-- What `admit` does when the tree matches the prompt in full: nothing if every block of the
prompt is still alive, otherwise the path is purged before the size check and the demotion loop.
It says whether the prompt is still to be inserted. -/
def prepareMatched (gpuBlocks : ℕ) (clock : ℕ → Time) (aligned : List Token) (totalBlocks : ℕ)
    (pathBlockIds : List BlockId) : Py NodeCache Bool := do
  let liveTiers := (← get).pool.tiersOf (pathBlockIds.take totalBlocks)
  if liveTiers.entries.length = totalBlocks then
    pure false
  else
    let _ ← onBoth (RadixTree.purgePathWithAnyDead BlockPool.tierOf BlockPool.free aligned)
    makeRoom gpuBlocks clock totalBlocks
    pure true

/-- Everything `admit` does before the insertion: the fast path, the purge of a zombie path, the
size check and the demotion loop.  It says whether the prompt is still to be inserted. -/
def admitPrepare (bs gpuBlocks : ℕ) (clock : ℕ → Time) (tokenIds : List Token) :
    Py NodeCache Bool := do
  let (aligned, totalBlocks) := alignedTokens bs tokenIds
  if totalBlocks = 0 then
    pure false
  else
    let (matchedRaw, pathBlockIds) ← matchPrefixPath (clock 0) aligned
    if matchedRaw / bs ≥ totalBlocks then
      prepareMatched gpuBlocks (fun k => clock (k + 2)) aligned totalBlocks pathBlockIds
    else
      makeRoom gpuBlocks (fun k => clock (k + 2)) totalBlocks
      pure true

/-- Materialise the KV cache of a prompt. -/
def admitTokens (bs gpuBlocks : ℕ) (clock : ℕ → Time) (tokenIds : List Token) : Py NodeCache Unit := do
  if ← admitPrepare bs gpuBlocks clock tokenIds then
    let _ ← onBoth (RadixTree.insert (fun n => BlockPool.allocate n "gpu") (clock 1)
      (alignedTokens bs tokenIds).1)
  else
    pure ()

/-! ### Lookup -/

/-- Count a block on its tier; a freed block does not count. -/
def countTier (tiers : PyDict BlockId Tier) (d : PyDict Tier ℕ) (b : BlockId) : PyDict Tier ℕ :=
  match tiers.get? b with
  | none => d
  | some t => d.set t (d.getD t 0 + 1)

/-- The number of blocks of a list on each tier. -/
def tierCounts (tiers : PyDict BlockId Tier) (bids : List BlockId) : PyDict Tier ℕ :=
  bids.foldl (countTier tiers) PyDict.empty

/-- The time to load `cpu` blocks over one hop and `disk` blocks over two into the GPU tier. -/
def transferCost (model : ModelConfig) (bw : BandwidthConfig) (cpu disk : ℕ) : ℚ :=
  let kvBytesPerBlock : ℚ := model.blockSize * model.kvBytesPerToken
  let cpuLoadMs := if cpu > 0 then cpu * kvBytesPerBlock / bw.gpuToCpu * 1000 else 0
  let diskLoadMs := if disk > 0 then
    disk * kvBytesPerBlock * (1 / bw.cpuToDisk + 1 / bw.gpuToCpu) * 1000 else 0
  cpuLoadMs + diskLoadMs

/-- Prefix-hit details of a prompt. -/
def lookup (model : ModelConfig) (bw : BandwidthConfig) (now : Time) (tokenIds : List Token) :
    Py NodeCache CacheLookup := do
  let bs := model.blockSize
  let (matchedRaw, pathBlockIds) ← matchPrefixPath now tokenIds
  let matchedBlocks := matchedRaw / bs
  if matchedBlocks = 0 then
    pure CacheLookup.miss
  else
    let relevantBids := pathBlockIds.take matchedBlocks
    let counts := tierCounts ((← get).pool.tiersOf relevantBids) relevantBids
    let liveBlockCount := counts.values.sum
    if liveBlockCount = 0 then
      pure CacheLookup.miss
    else
      pure {
        matchedTokens := liveBlockCount * bs
        matchedBlocksByTier := counts
        transferCostMs := transferCost model bw (counts.getD .cpu 0) (counts.getD .disk 0) }

/-! ### Block tables -/

/-- The leading blocks of the matched path that are still allocated. -/
def livePrefixBlockIds (bs : ℕ) (now : Time) (tokenIds : List Token) (totalBlocks : ℕ) :
    Py NodeCache (List BlockId) := do
  let (matchedRaw, pathBlockIds) ← matchPrefixPath now tokenIds
  let matchedBlocks := min (matchedRaw / bs) totalBlocks
  let pool := (← get).pool
  pure ((pathBlockIds.take matchedBlocks).takeWhile fun b => (pool.tierOf b).isSome)

/-- Pin blocks for an active request. -/
def retainBlocks (bids : List BlockId) : Py NodeCache Unit :=
  if bids = [] then pure () else onPool (BlockPool.pin bids)

/-- Unpin blocks of an active request. -/
def releaseBlocks (bids : List BlockId) : Py NodeCache Unit :=
  if bids = [] then pure () else onPool (BlockPool.unpin bids)

/-- Run a call on the cache beside the local variable `retained`. -/
def beside {α : Type} (m : Py NodeCache α) : Py (NodeCache × List BlockId) α :=
  Py.onPart Prod.fst (fun c s => (c, s.2)) m

/-- Admit the prompt unless the reused prefix covers it. -/
def admitMissing (bs gpuBlocks : ℕ) (clock : ℕ → Time) (aligned : List Token)
    (prefixLength totalBlocks : ℕ) : Py NodeCache Unit :=
  if prefixLength < totalBlocks then admitTokens bs gpuBlocks clock aligned else pure ()

/-- The end of the body of the `try` statement of `materialize_request`: check that the prompt is
in the tree with all its blocks, and pin those not yet retained.  The second component of the state
is the list `retained`. -/
def pinPath (bs : ℕ) (now : Time) (aligned : List Token) (totalBlocks : ℕ) :
    Py (NodeCache × List BlockId) (List BlockId) := do
  let (matchedAfter, pathBlockIds) ← beside (matchPrefixPath now aligned)
  if matchedAfter / bs < totalBlocks then
    Py.raise (.memoryError s!"failed to materialize {totalBlocks} blocks")
  else
    let blockIds := pathBlockIds.take totalBlocks
    let liveTiers := (← get).1.pool.tiersOf blockIds
    if liveTiers.entries.length ≠ totalBlocks then
      Py.raise (.memoryError "materialized path contains freed blocks")
    else
      let alreadyRetained := (← get).2
      let newRetains := blockIds.filter fun b => b ∉ alreadyRetained
      beside (retainBlocks newRetains)
      modify fun s => (s.1, s.2 ++ newRetains)
      pure blockIds

/-- The start of that body: pin the reusable prefix.  It returns the length of the prefix. -/
def retainPrefix (bs : ℕ) (now : Time) (aligned : List Token) (totalBlocks : ℕ) :
    Py (NodeCache × List BlockId) ℕ := do
  let prefixBids ← beside (livePrefixBlockIds bs now aligned totalBlocks)
  beside (retainBlocks prefixBids)
  modify fun s => (s.1, s.2 ++ prefixBids)
  pure prefixBids.length

/-- The body of the `try` statement of `materialize_request`.  It returns the blocks of the table
and the length of the reused prefix. -/
def materializeBody (bs gpuBlocks : ℕ) (clock : ℕ → Time) (aligned : List Token)
    (totalBlocks : ℕ) : Py (NodeCache × List BlockId) (List BlockId × ℕ) := do
  let matched ← retainPrefix bs (clock 0) aligned totalBlocks
  beside (admitMissing bs gpuBlocks (fun k => clock (k + 2)) aligned matched totalBlocks)
  let blockIds ← pinPath bs (clock 1) aligned totalBlocks
  pure (blockIds, matched)

/-- The `except` clause of `materialize_request`: release what was retained and raise again. -/
def releaseRetained {α : Type} (e : PyErr) (retained : List BlockId) : Py NodeCache α := do
  releaseBlocks retained
  Py.raise e

/-- The `try` statement of `materialize_request`. -/
def materialize (bs gpuBlocks : ℕ) (clock : ℕ → Time) (aligned : List Token) (totalBlocks : ℕ) :
    Py NodeCache (List BlockId × ℕ) := fun c =>
  match (materializeBody bs gpuBlocks clock aligned totalBlocks).run (c, []) with
  | .ok r s => .ok r s.1
  | .error e s => (releaseRetained e s.2).run s.1

/-- A body that returns is the call. -/
theorem run_materialize_ok {bs gpuBlocks : ℕ} {clock : ℕ → Time} {P : List Token} {k : ℕ}
    {c : NodeCache} {r : List BlockId × ℕ} {s : NodeCache × List BlockId}
    (h : (materializeBody bs gpuBlocks clock P k).run (c, []) = .ok r s) :
    (materialize bs gpuBlocks clock P k).run c = .ok r s.1 := by
  rw [EStateM.run, materialize, h]

/-- After a body that raises the retained blocks are released. -/
theorem run_materialize_error {bs gpuBlocks : ℕ} {clock : ℕ → Time} {P : List Token} {k : ℕ}
    {c : NodeCache} {e : PyErr} {s : NodeCache × List BlockId}
    (h : (materializeBody bs gpuBlocks clock P k).run (c, []) = .error e s) :
    (materialize bs gpuBlocks clock P k).run c = (releaseRetained e s.2).run s.1 := by
  rw [EStateM.run, materialize, h]

end NodeCache

/-- Logical-to-physical KV block table of one active request. -/
structure RequestBlockTable where
  requestId : RequestId
  nodeId : NodeId
  blockIds : List BlockId
  matchedBlocks : ℕ
  newBlocks : ℕ
deriving DecidableEq

/-- The cache manager: a cache for each node, and the tables of the active requests. -/
structure CacheManager where
  model : ModelConfig
  nodeConfig : NodeConfig
  bandwidth : BandwidthConfig
  caches : PyDict NodeId NodeCache
  blockTables : PyDict (NodeId × RequestId) RequestBlockTable

namespace CacheManager

/-- A manager with empty caches. -/
def init (nodeIds : List NodeId) (model : ModelConfig) (nodeConfig : NodeConfig)
    (bandwidth : BandwidthConfig) : CacheManager where
  model := model
  nodeConfig := nodeConfig
  bandwidth := bandwidth
  caches := nodeIds.foldl (fun d n => d.set n (NodeCache.init model nodeConfig)) PyDict.empty
  blockTables := PyDict.empty

/-- Run a call on the cache of a known node. -/
def onNode {α : Type} (nodeId : NodeId) (m : Py NodeCache α) : Py CacheManager α := do
  match (← get).caches.get? nodeId with
  | none => Py.raise (.keyError nodeId)
  | some c =>
      Py.onPart (fun _ => c) (fun c' cm => { cm with caches := cm.caches.set nodeId c' }) m

/-- Return prefix-hit details of a request on a node. -/
def lookup (now : Time) (request : Request) (nodeId : NodeId) : Py CacheManager CacheLookup := do
  let cm ← get
  onNode nodeId (NodeCache.lookup cm.model cm.bandwidth now request.tokenIds)

/-- Return prefix-hit details of a request on every known node. -/
def lookupAll (now : Time) (request : Request) :
    Py CacheManager (PyDict NodeId CacheLookup) := do
  (← get).caches.keys.foldlM (fun d nodeId => do
    pure (d.set nodeId (← lookup now request nodeId))) PyDict.empty

/-- How many free blocks a node has on a tier. -/
def freeBlocks (nodeId : NodeId) (tier : String) : Py CacheManager ℤ := do
  match (← get).caches.get? nodeId with
  | none => Py.raise (.keyError nodeId)
  | some c =>
      match Tier.ofName tier with
      | none => Py.raise (.keyError tier)
      | some t => pure (c.pool.freeSlots t)

theorem readOnly_freeBlocks (nodeId : NodeId) (tier : String) :
    (freeBlocks nodeId tier).ReadOnly := by
  intro cm
  rw [freeBlocks, Py.run_get_bind]
  split
  · rfl
  · split
    · rfl
    · rfl

/-- Materialise the KV cache of a prompt on a node. -/
def admitTokens (clock : ℕ → Time) (tokenIds : List Token) (nodeId : NodeId) :
    Py CacheManager Unit := do
  let cm ← get
  onNode nodeId (NodeCache.admitTokens cm.model.blockSize cm.nodeConfig.gpuBlocks clock tokenIds)

/-- The blocks of a new table, pinned, and the number of reused ones among them. -/
def acquireBlocks (clock : ℕ → Time) (tokenIds : List Token) (nodeId : NodeId) :
    Py CacheManager (List BlockId × ℕ) := do
  let cm ← get
  let bs := cm.model.blockSize
  let (aligned, totalBlocks) := NodeCache.alignedTokens bs tokenIds
  if totalBlocks = 0 then
    pure ([], 0)
  else
    onNode nodeId (NodeCache.materialize bs cm.nodeConfig.gpuBlocks clock aligned totalBlocks)

/-- Create and pin the block table of an active request. -/
def materializeRequest (clock : ℕ → Time) (requestId : RequestId) (tokenIds : List Token)
    (nodeId : NodeId) : Py CacheManager RequestBlockTable := do
  let cm ← get
  if !cm.caches.contains nodeId then
    Py.raise (.keyError nodeId)
  else if cm.blockTables.contains (nodeId, requestId) then
    Py.raise (.valueError ("request " ++ pyRepr requestId ++ " already materialized on " ++
      pyRepr nodeId))
  else
    let (blockIds, matched) ← acquireBlocks clock tokenIds nodeId
    let table : RequestBlockTable :=
      { requestId := requestId
        nodeId := nodeId
        blockIds := blockIds
        matchedBlocks := matched
        newBlocks := (NodeCache.alignedTokens cm.model.blockSize tokenIds).2 - matched }
    modify fun cm => { cm with blockTables := cm.blockTables.set (nodeId, requestId) table }
    pure table

/-- Release the pinned block table of an active request. -/
def releaseRequest (requestId : RequestId) (nodeId : NodeId) : Py CacheManager Unit := do
  let cm ← get
  if !cm.caches.contains nodeId then
    Py.raise (.keyError nodeId)
  else
    match cm.blockTables.get? (nodeId, requestId) with
    | none => Py.raise (.keyError s!"({nodeId}, {requestId})")
    | some table =>
        modify fun cm => { cm with blockTables := cm.blockTables.erase (nodeId, requestId) }
        onNode nodeId (NodeCache.releaseBlocks table.blockIds)

/-! ### Runs -/

/-- The calls of the public interface that change the manager. -/
inductive Op
  | admitTokens (clock : ℕ → Time) (tokenIds : List Token) (nodeId : NodeId)
  | materialize (clock : ℕ → Time) (requestId : RequestId) (tokenIds : List Token)
      (nodeId : NodeId)
  | release (requestId : RequestId) (nodeId : NodeId)
  | lookup (now : Time) (request : Request) (nodeId : NodeId)

/-- The state a call leaves, whether it returned or raised. -/
def apply (cm : CacheManager) : Op → CacheManager
  | .admitTokens clock tokenIds nodeId => ((admitTokens clock tokenIds nodeId).run cm).state
  | .materialize clock requestId tokenIds nodeId =>
      ((materializeRequest clock requestId tokenIds nodeId).run cm).state
  | .release requestId nodeId => ((releaseRequest requestId nodeId).run cm).state
  | .lookup now request nodeId => ((lookup now request nodeId).run cm).state

/-- The states some sequence of calls leads to, from the empty manager. -/
inductive Reachable (nodeIds : List NodeId) (model : ModelConfig) (nodeConfig : NodeConfig)
    (bandwidth : BandwidthConfig) : CacheManager → Prop
  | init : Reachable nodeIds model nodeConfig bandwidth (init nodeIds model nodeConfig bandwidth)
  | step {cm : CacheManager} (op : Op) :
      Reachable nodeIds model nodeConfig bandwidth cm →
      Reachable nodeIds model nodeConfig bandwidth (cm.apply op)

end CacheManager

end NanoKVRouter
