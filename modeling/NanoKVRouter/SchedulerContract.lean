/-
**The contract of the schedulers.**

The event handlers rely on a scheduler in three ways: its call returns, it decides on a node of each
pool or rejects with a reason, and it does nothing to the cache but look prompts up.  The decode
nodes have to be known to the cache.  Every scheduler that the factory builds keeps this contract.

Main definitions:

* `CacheManager.Queried` — the states that lookups lead to;
* `SchedulingDecision.WellFormed` — a decision that the handlers can act on;
* `SchedulingPolicy.Contract` — the contract;
* `buildScheduler`, `Built` — the factory, and what it builds.

Main results:

* `RoundRobinPolicy.contract`, `LeastLoadedPolicy.contract`, `PrefixGreedyPolicy.contract`,
  `E2Policy.contract`, `MooncakeConductor.contract` — the policies keep the contract;
* `buildScheduler_contract` — **so does whatever the factory builds**.
-/

import NanoKVRouter.CacheQueries
import NanoKVRouter.PyTriples
import NanoKVRouter.SchedulerOrder

set_option relaxedAutoImplicit false
set_option autoImplicit false

namespace NanoKVRouter

/-! ### Managers after lookups -/

/-- A lookup in a cache returns. -/
theorem NodeCache.lookup_returns (model : ModelConfig) (bw : BandwidthConfig) (now : Time)
    (T : List Token) :
    Py.Returns (fun _ => True) (lookup model bw now T) fun _ _ => True := by
  have hwalk : Py.Returns (fun _ => True) (matchPrefixPath now T) fun _ _ => True :=
    fun c _ => ⟨_, _, rfl, trivial⟩
  refine hwalk.bind fun path => ?_
  refine .ite (fun _ => .pure fun _ _ => trivial) fun _ => .get_bind fun c _ => ?_
  exact .ite (fun _ => .pure fun _ _ => trivial) fun _ => .pure fun _ _ => trivial

namespace CacheManager

/-- The second manager is the first one after some lookups. -/
inductive Queried (cm : CacheManager) : CacheManager → Prop
  | refl : Queried cm cm
  | lookup {cm' : CacheManager} (h : Queried cm cm') (now : Time) (request : Request)
      (nodeId : NodeId) : Queried cm ((lookup now request nodeId).run cm').state

variable {cm cm' : CacheManager}

/-- Lookups change access times only. -/
theorem Queried.sameShape (h : Queried cm cm') : SameShape cm cm' := by
  induction h with
  | refl => exact .refl cm
  | lookup _ now request nodeId ih => exact ih.trans (keeps_lookup _ now request nodeId _ (.refl _))

theorem Queried.keys_eq (h : Queried cm cm') : cm'.caches.keys = cm.caches.keys :=
  h.sameShape.keys_eq

/-- Lookups lead from reachable managers to reachable ones. -/
theorem Queried.reachable {nodeIds : List NodeId} {model : ModelConfig} {nodeConfig : NodeConfig}
    {bandwidth : BandwidthConfig} (h : Queried cm cm')
    (hr : Reachable nodeIds model nodeConfig bandwidth cm) :
    Reachable nodeIds model nodeConfig bandwidth cm' := by
  induction h with
  | refl => exact hr
  | lookup _ now request nodeId ih => exact ih.step (.lookup now request nodeId)

/-- A lookup on a known node returns. -/
theorem lookup_returns (cm : CacheManager) (now : Time) (request : Request) {nodeId : NodeId}
    (hn : nodeId ∈ cm.caches.keys) :
    Py.Returns (Queried cm) (lookup now request nodeId) fun _ => Queried cm := by
  intro cm' h
  obtain ⟨c, hc⟩ := PyDict.exists_get?_of_mem_keys (h.keys_eq ▸ hn)
  obtain ⟨r, c', hrun, -⟩ :=
    NodeCache.lookup_returns cm'.model cm'.bandwidth now request.tokenIds c trivial
  have hlookup : (lookup now request nodeId).run cm' =
      .ok r { cm' with caches := cm'.caches.set nodeId c' } := by
    rw [lookup, Py.run_get_bind, onNode, Py.run_get_bind, hc]
    exact Py.run_onPart_ok hrun
  have hq := h.lookup now request nodeId
  rw [hlookup] at hq
  exact ⟨r, _, hlookup, hq⟩

/-- A lookup on an unknown node raises `KeyError` and changes nothing. -/
theorem run_lookup_unknown (now : Time) (request : Request) {nodeId : NodeId}
    (hn : nodeId ∉ cm.caches.keys) :
    (lookup now request nodeId).run cm = .error (.keyError nodeId) cm := by
  rw [lookup, Py.run_get_bind, onNode, Py.run_get_bind, PyDict.get?_eq_none_iff.2 hn]
  rfl

/-- So do the lookups on all nodes. -/
theorem lookupAll_returns (cm : CacheManager) (now : Time) (request : Request) :
    Py.Returns (Queried cm) (lookupAll now request) fun _ => Queried cm := by
  refine .get_bind fun cm' h => ?_
  have hloop := @Py.Returns.foldlM CacheManager (PyDict NodeId CacheLookup) NodeId
    (fun _ => Queried cm)
    (fun d nodeId => do pure (d.set nodeId (← lookup now request nodeId))) cm'.caches.keys
    (fun d nodeId hmem => (lookup_returns cm now request (h.keys_eq ▸ hmem)).bind fun l =>
      .pure fun _ hs => hs) .empty
  exact hloop.strengthen fun cm'' heq => heq ▸ h

/-- The count of free blocks of a known node is returned. -/
theorem freeBlocks_returns (cm : CacheManager) {nodeId : NodeId} (hn : nodeId ∈ cm.caches.keys) :
    Py.Returns (Queried cm) (freeBlocks nodeId "gpu") fun _ => Queried cm := by
  intro cm' h
  obtain ⟨c, hc⟩ := PyDict.exists_get?_of_mem_keys (h.keys_eq ▸ hn)
  refine ⟨c.pool.freeSlots .gpu, cm', ?_, h⟩
  rw [freeBlocks, Py.run_get_bind, hc]
  rfl

end CacheManager

/-! ### The contract -/

/-- A decision that the handlers can act on: a node of each pool, or a reason for a rejection. -/
inductive SchedulingDecision.WellFormed (prefillIds decodeIds : List NodeId)
    (d : SchedulingDecision) : Prop
  | accepted {p q : NodeId} (hp : p ∈ prefillIds) (hq : q ∈ decodeIds)
      (hprefill : d.prefillNode = some p) (hdecode : d.decodeNode = some q)
      (hreason : d.rejectReason = none)
  | rejected {reason : String} (hne : reason ≠ "") (hprefill : d.prefillNode = none)
      (hdecode : d.decodeNode = none) (hreason : d.rejectReason = some reason)

/-- The contract of a scheduler: whatever its own state, its call returns a decision that the
handlers can act on, after looking prompts up at most.  The decode nodes are known to the cache. -/
def SchedulingPolicy.Contract {ς : Type} (policy : SchedulingPolicy ς) : Prop :=
  ∀ (request : Request) (prefillNodes decodeNodes : List MockEngineNode)
    (backlogView : TransferBacklogView) (now : Time) (cm : CacheManager),
    (∀ n ∈ decodeNodes, n.nodeId ∈ cm.caches.keys) →
    Py.Returns (fun s => cm.Queried s.2)
      (policy request prefillNodes decodeNodes backlogView now) fun d s =>
        d.WellFormed (prefillNodes.map MockEngineNode.nodeId)
          (decodeNodes.map MockEngineNode.nodeId) ∧ cm.Queried s.2

/-! ### The policies -/

section Policies

variable {ς : Type} {prefillNodes decodeNodes : List MockEngineNode} {cm : CacheManager}

theorem SchedulingDecision.wellFormed_none (prefillIds decodeIds : List NodeId) :
    SchedulingDecision.noNodesAvailable.WellFormed prefillIds decodeIds :=
  .rejected (by decide : "no_nodes_available" ≠ "") rfl rfl rfl

theorem SchedulingDecision.wellFormed_accept {prefill decode : MockEngineNode}
    (hp : prefill ∈ prefillNodes) (hd : decode ∈ decodeNodes) (model : ModelConfig)
    (bandwidth : BandwidthConfig) (request : Request) (decodeMatch : CacheLookup)
    (backlogView : TransferBacklogView) (now : Time) :
    (accept model bandwidth prefill decode request decodeMatch backlogView now).WellFormed
      (prefillNodes.map MockEngineNode.nodeId) (decodeNodes.map MockEngineNode.nodeId) :=
  .accepted (List.mem_map_of_mem hp) (List.mem_map_of_mem hd) rfl rfl rfl

/-- The service-level check rejects with a reason or changes nothing. -/
theorem SchedulingDecision.WellFormed.sloGate {prefillIds decodeIds : List NodeId}
    {d : SchedulingDecision} (h : d.WellFormed prefillIds decodeIds) (request : Request) :
    (d.sloGate request).WellFormed prefillIds decodeIds := by
  rw [SchedulingDecision.sloGate]
  split
  · exact .rejected (by decide : "ttft_slo_exceeded" ≠ "") rfl rfl rfl
  · split
    · exact .rejected (by decide : "tbt_slo_exceeded" ≠ "") rfl rfl rfl
    · exact h

/-- A query of the cache beside the state of the policy. -/
theorem onCache_returns {α : Type} {m : Py CacheManager α} {P : CacheManager → Prop}
    {Q : α → CacheManager → Prop} (h : Py.Returns P m Q) :
    Py.Returns (fun s : ς × CacheManager => P s.2) (onCache m) fun a s => Q a s.2 :=
  h.onPart (fun _ hs => hs) fun _ _ _ _ ht => ht

theorem lookupAll_ofManager_returns (cm : CacheManager) (now : Time) (request : Request) :
    Py.Returns (fun s : ς × CacheManager => cm.Queried s.2)
      ((CacheQuery.ofManager now).lookupAll request) fun _ s => cm.Queried s.2 :=
  onCache_returns (cm.lookupAll_returns now request)

theorem freeBlocks_ofManager_returns (cm : CacheManager) (now : Time) {nodeId : NodeId}
    (hn : nodeId ∈ cm.caches.keys) :
    Py.Returns (fun s : ς × CacheManager => cm.Queried s.2)
      ((CacheQuery.ofManager now).freeBlocks nodeId "gpu") fun _ s => cm.Queried s.2 :=
  onCache_returns (cm.freeBlocks_returns hn)

/-- A lookup that counts an unknown node as a miss returns. -/
theorem lookupOrMiss_returns (cm : CacheManager) (now : Time) (request : Request)
    (nodeId : NodeId) :
    Py.Returns (fun s : ς × CacheManager => cm.Queried s.2)
      ((CacheQuery.ofManager now).lookupOrMiss request nodeId) fun _ s => cm.Queried s.2 := by
  refine .orElse (E := fun s => cm.Queried s.2) (fun s hs => ?_) (.pure fun _ hs => hs)
  by_cases hn : nodeId ∈ cm.caches.keys
  · exact Or.inl (onCache_returns (cm.lookup_returns now request hn) s hs)
  · have hrun := CacheManager.run_lookup_unknown now request (hs.keys_eq ▸ hn)
    exact Or.inr ⟨_, s, Py.run_onPart_error hrun, rfl, hs⟩

theorem RoundRobinPolicy.contract (policy : RoundRobinPolicy) :
    SchedulingPolicy.Contract policy.schedule := by
  intro request prefillNodes decodeNodes backlogView now cm _
  refine .ite (fun _ => .pure fun s hs => ⟨SchedulingDecision.wellFormed_none _ _, hs⟩)
    fun hne => ?_
  rw [Bool.or_eq_true, not_or, List.isEmpty_iff, List.isEmpty_iff] at hne
  refine .get_bind fun s hs => ?_
  refine .bind (Q := fun _ t => cm.Queried t.2) (.modify fun t ht => ht ▸ hs) fun _ => ?_
  obtain ⟨prefill, hp⟩ : ∃ n, prefillNodes[s.1.prefillCursor % prefillNodes.length]? = some n :=
    ⟨_, List.getElem?_eq_getElem (Nat.mod_lt _ (List.length_pos_of_ne_nil hne.1))⟩
  obtain ⟨decode, hd⟩ : ∃ n, decodeNodes[s.1.decodeCursor % decodeNodes.length]? = some n :=
    ⟨_, List.getElem?_eq_getElem (Nat.mod_lt _ (List.length_pos_of_ne_nil hne.2))⟩
  rw [hp, hd]
  refine (lookupOrMiss_returns cm now request decode.nodeId).bind fun l => ?_
  exact .pure fun t ht => ⟨SchedulingDecision.wellFormed_accept (List.mem_of_getElem? hp)
    (List.mem_of_getElem? hd) .., ht⟩

theorem LeastLoadedPolicy.contract (policy : LeastLoadedPolicy) :
    SchedulingPolicy.Contract (ς := ς) policy.schedule := by
  intro request prefillNodes decodeNodes backlogView now cm _
  rw [LeastLoadedPolicy.schedule, LeastLoadedPolicy.scheduleOn]
  cases hp : prefillNodes.argmin loadKey with
  | none => exact .pure fun s hs => ⟨SchedulingDecision.wellFormed_none _ _, hs⟩
  | some prefill =>
      cases hd : decodeNodes.argmin loadKey with
      | none => exact .pure fun s hs => ⟨SchedulingDecision.wellFormed_none _ _, hs⟩
      | some decode =>
          refine (lookupOrMiss_returns cm now request decode.nodeId).bind fun l => ?_
          exact .pure fun t ht => ⟨SchedulingDecision.wellFormed_accept (List.argmin_mem hp)
            (List.argmin_mem hd) .., ht⟩

theorem PrefixGreedyPolicy.contract (policy : PrefixGreedyPolicy) :
    SchedulingPolicy.Contract (ς := ς) policy.schedule := by
  intro request prefillNodes decodeNodes backlogView now cm _
  refine .ite (fun _ => .pure fun s hs => ⟨SchedulingDecision.wellFormed_none _ _, hs⟩)
    fun _ => ?_
  refine (lookupAll_ofManager_returns cm now request).bind fun lookups => ?_
  dsimp only
  cases hp : prefillNodes.argmin loadKey with
  | none => exact .pure fun s hs => ⟨SchedulingDecision.wellFormed_none _ _, hs⟩
  | some prefill =>
      cases hd : (policy.candidates request.tokenIds.length lookups decodeNodes).argmin loadKey with
      | none => exact .pure fun s hs => ⟨SchedulingDecision.wellFormed_none _ _, hs⟩
      | some decode =>
          have hmem : decode ∈ decodeNodes := by
            have hcand := List.argmin_mem hd
            rw [PrefixGreedyPolicy.candidates] at hcand
            split at hcand
            · exact hcand
            · exact List.mem_of_mem_filter hcand
          exact .pure fun t ht =>
            ⟨SchedulingDecision.wellFormed_accept (List.argmin_mem hp) hmem .., ht⟩

theorem E2Policy.contract (policy : E2Policy) :
    SchedulingPolicy.Contract (ς := ς) policy.schedule := by
  intro request prefillNodes decodeNodes backlogView now cm hknown
  refine .ite (fun _ => .pure fun s hs => ⟨SchedulingDecision.wellFormed_none _ _, hs⟩)
    fun _ => ?_
  refine (lookupAll_ofManager_returns cm now request).bind fun lookups => ?_
  cases hp : prefillNodes.argmin loadKey with
  | none => exact .pure fun s hs => ⟨SchedulingDecision.wellFormed_none _ _, hs⟩
  | some prefill =>
      -- every score reads the free blocks of its node, which is known
      refine Py.Returns.bind (Py.Returns.mapM (P := fun s : ς × CacheManager => cm.Queried s.2)
        (V := fun (n : MockEngineNode) (scored : MockEngineNode × (ℚ ×ₗ NodeId)) => scored.1 = n)
        decodeNodes fun decode hmem => ?_) fun scored => ?_
      · refine Py.Returns.bind (Q := fun _ (s : ς × CacheManager) => cm.Queried s.2) ?_ fun key =>
          .pure fun s hs => ⟨rfl, hs⟩
        exact (freeBlocks_ofManager_returns cm now (hknown decode hmem)).bind fun free =>
          .pure fun s hs => hs
      · cases hs : scored.argmin Prod.snd with
        | none => exact .pure fun s hs => ⟨SchedulingDecision.wellFormed_none _ _, hs.2⟩
        | some best =>
            refine .pure fun s h => ⟨?_, h.2⟩
            obtain ⟨decode, hdecode, heq⟩ := h.1.exists_left (List.argmin_mem hs)
            exact SchedulingDecision.wellFormed_accept (List.argmin_mem hp)
              (heq ▸ hdecode) ..

theorem MooncakeConductor.contract (policy : MooncakeConductor) :
    SchedulingPolicy.Contract (ς := ς) policy.schedule := by
  intro request prefillNodes decodeNodes backlogView now cm _
  refine .ite (fun _ => .pure fun s hs => ⟨SchedulingDecision.wellFormed_none _ _, hs⟩)
    fun _ => ?_
  refine (lookupAll_ofManager_returns cm now request).bind fun lookups => ?_
  cases hp : prefillNodes.argmin loadKey with
  | none => exact .pure fun s hs => ⟨SchedulingDecision.wellFormed_none _ _, hs⟩
  | some prefill =>
      cases hd : decodeNodes.argmin (policy.scoreKey request lookups) with
      | none => exact .pure fun s hs => ⟨SchedulingDecision.wellFormed_none _ _, hs⟩
      | some decode =>
          exact .pure fun t ht => ⟨(SchedulingDecision.wellFormed_accept (List.argmin_mem hp)
            (List.argmin_mem hd) ..).sloGate request, ht⟩

end Policies

/-! ### The factory -/

section Factory

variable {π : Type} (toFloat : π → Except PyErr ℚ)

/-- `float(params.get(name, default))`; a string that is no number makes `float` raise. -/
def floatParam (params : PyDict String π) (name : String) (default : ℚ) : Except PyErr ℚ :=
  match params.get? name with
  | none => .ok default
  | some v => toFloat v

/-- `PrefixGreedyPolicy(min_hit_ratio, …)`. -/
def PrefixGreedyPolicy.make (minHitRatio : ℚ) (model : ModelConfig) (bandwidth : BandwidthConfig) :
    Except PyErr PrefixGreedyPolicy :=
  if h : 0 ≤ minHitRatio ∧ minHitRatio ≤ 1 then
    .ok { minHitRatio, model, bandwidth, minHitRatio_nonneg := h.1, minHitRatio_le_one := h.2 }
  else
    .error (.valueError s!"min_hit_ratio must be in [0, 1], got {minHitRatio}")

/-- `E2Policy(w_historical, w_eviction, w_run, …)`: the first negative weight is named. -/
def E2Policy.make (wHistorical wEviction wRun : ℚ) (model : ModelConfig)
    (bandwidth : BandwidthConfig) : Except PyErr E2Policy :=
  if hh : wHistorical < 0 then
    .error (.valueError s!"w_historical must be >= 0, got {wHistorical}")
  else if he : wEviction < 0 then
    .error (.valueError s!"w_eviction must be >= 0, got {wEviction}")
  else if hr : wRun < 0 then
    .error (.valueError s!"w_run must be >= 0, got {wRun}")
  else
    .ok {
      wHistorical, wEviction, wRun, model, bandwidth
      wHistorical_nonneg := not_lt.1 hh
      wEviction_nonneg := not_lt.1 he
      wRun_nonneg := not_lt.1 hr }

/-- `MooncakeConductor(alpha, beta, gamma, …)`. -/
def MooncakeConductor.make (alpha beta gamma : ℚ) (model : ModelConfig)
    (bandwidth : BandwidthConfig) : Except PyErr MooncakeConductor :=
  if h : alpha < 0 ∨ beta < 0 ∨ gamma < 0 then
    .error (.valueError ("Weights must be non-negative; got " ++
      s!"alpha={alpha}, beta={beta}, gamma={gamma}"))
  else
    .ok {
      alpha, beta, gamma, model, bandwidth
      alpha_nonneg := not_lt.1 fun hlt => h (Or.inl hlt)
      beta_nonneg := not_lt.1 fun hlt => h (Or.inr (Or.inl hlt))
      gamma_nonneg := not_lt.1 fun hlt => h (Or.inr (Or.inr hlt)) }

/-- `SCHEDULER_NAMES`. -/
def schedulerNames : List String :=
  ["round_robin", "least_loaded", "prefix_greedy", "e2_policy", "conductor"]

/-- `_build_scheduler`: construct a scheduler by name.  Schedulers without a state of their own
leave the cursors alone. -/
def buildScheduler (name : String) (params : PyDict String π) (model : ModelConfig)
    (bandwidth : BandwidthConfig) : Except PyErr (SchedulingPolicy Cursors) := do
  if name = "round_robin" then
    pure (RoundRobinPolicy.schedule ⟨model, bandwidth⟩)
  else if name = "least_loaded" then
    pure (LeastLoadedPolicy.schedule ⟨model, bandwidth⟩)
  else if name = "prefix_greedy" then
    let minHitRatio ← floatParam toFloat params "min_hit_ratio" (1 / 4)
    let policy ← PrefixGreedyPolicy.make minHitRatio model bandwidth
    pure policy.schedule
  else if name = "e2_policy" then
    let wHistorical ← floatParam toFloat params "w_historical" 1
    let wEviction ← floatParam toFloat params "w_eviction" 1
    let wRun ← floatParam toFloat params "w_run" 1
    let policy ← E2Policy.make wHistorical wEviction wRun model bandwidth
    pure policy.schedule
  else if name = "conductor" then
    let alpha ← floatParam toFloat params "alpha" 1
    let beta ← floatParam toFloat params "beta" 1
    let gamma ← floatParam toFloat params "gamma" 1
    let policy ← MooncakeConductor.make alpha beta gamma model bandwidth
    pure policy.schedule
  else
    .error (.valueError ("Unknown scheduler " ++ pyRepr name ++ "; valid: " ++
      pyReprList schedulerNames))

variable {toFloat}

theorem Except.bind_eq_ok {ε α β : Type} {x : Except ε α} {f : α → Except ε β} {b : β}
    (h : (x >>= f) = .ok b) : ∃ a, x = .ok a ∧ f a = .ok b := by
  cases x with
  | error e => cases h
  | ok a => exact ⟨a, rfl, h⟩

/-- The schedulers that the factory builds. -/
inductive Built : SchedulingPolicy Cursors → Prop
  | roundRobin (policy : RoundRobinPolicy) : Built policy.schedule
  | leastLoaded (policy : LeastLoadedPolicy) : Built policy.schedule
  | prefixGreedy (policy : PrefixGreedyPolicy) : Built policy.schedule
  | e2 (policy : E2Policy) : Built policy.schedule
  | conductor (policy : MooncakeConductor) : Built policy.schedule

theorem Built.contract {policy : SchedulingPolicy Cursors} (h : Built policy) :
    policy.Contract := by
  cases h with
  | roundRobin policy => exact policy.contract
  | leastLoaded policy => exact policy.contract
  | prefixGreedy policy => exact policy.contract
  | e2 policy => exact policy.contract
  | conductor policy => exact policy.contract

/-- The factory builds one of these. -/
theorem buildScheduler_built {name : String} {params : PyDict String π} {model : ModelConfig}
    {bandwidth : BandwidthConfig} {policy : SchedulingPolicy Cursors}
    (h : buildScheduler toFloat name params model bandwidth = .ok policy) : Built policy := by
  rw [buildScheduler] at h
  split at h
  · cases h
    exact .roundRobin _
  split at h
  · cases h
    exact .leastLoaded _
  split at h
  · obtain ⟨minHitRatio, -, h⟩ := Except.bind_eq_ok h
    obtain ⟨built, -, h⟩ := Except.bind_eq_ok h
    cases h
    exact .prefixGreedy built
  split at h
  · obtain ⟨wHistorical, -, h⟩ := Except.bind_eq_ok h
    obtain ⟨wEviction, -, h⟩ := Except.bind_eq_ok h
    obtain ⟨wRun, -, h⟩ := Except.bind_eq_ok h
    obtain ⟨built, -, h⟩ := Except.bind_eq_ok h
    cases h
    exact .e2 built
  split at h
  · obtain ⟨alpha, -, h⟩ := Except.bind_eq_ok h
    obtain ⟨beta, -, h⟩ := Except.bind_eq_ok h
    obtain ⟨gamma, -, h⟩ := Except.bind_eq_ok h
    obtain ⟨built, -, h⟩ := Except.bind_eq_ok h
    cases h
    exact .conductor built
  · cases h

/-- **Whatever the factory builds keeps the contract.** -/
theorem buildScheduler_contract {name : String} {params : PyDict String π} {model : ModelConfig}
    {bandwidth : BandwidthConfig} {policy : SchedulingPolicy Cursors}
    (h : buildScheduler toFloat name params model bandwidth = .ok policy) : policy.Contract :=
  (buildScheduler_built h).contract

/-- The E2 policy with a weight of its own. -/
theorem buildScheduler_contract_e2 : ∃ policy : SchedulingPolicy Cursors,
    buildScheduler Except.ok "e2_policy" (PyDict.empty.set "w_run" (1 / 2)) .defaults .defaults =
      .ok policy ∧ policy.Contract := by
  have hok : (buildScheduler Except.ok "e2_policy" (PyDict.empty.set "w_run" (1 / 2)) .defaults
      .defaults).toOption.isSome = true := by decide +kernel
  cases h : buildScheduler Except.ok "e2_policy" (PyDict.empty.set "w_run" (1 / 2)) .defaults
      .defaults with
  | error e =>
      rw [h] at hok
      cases hok
  | ok policy => exact ⟨policy, rfl, buildScheduler_contract h⟩

end Factory

end NanoKVRouter
