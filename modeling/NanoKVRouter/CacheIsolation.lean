/-
**The nodes of a cache manager do not interfere.**

The manager keeps the caches of all nodes in one object and the tables of all requests in one
dictionary.  A call on a node reads and writes the cache and the tables of that node only, and a
lookup on every node is a lookup on each of them.  So the manager of a cluster is the product of
managers of one node each: on every node a sequence of calls leaves the cache and the tables, and
gives the answers, that the calls on that node have without the others, in whatever way the calls on
other nodes, failed ones included, are spread over the sequence.

Main definitions:

* `CacheManager.Access`, `CacheManager.access` — the calls of the public interface, queries
  included;
* `CacheManager.Access.onNode` — a call as one node sees it;
* `CacheManager.OfNode` — the second manager has nothing but the one node of the first.

Main results:

* `CacheManager.keeps_call` — **the footprint of a call**: the cache and the tables of its node;
* `CacheManager.sim_call` — a call depends on its node only;
* `CacheManager.sim_lookupAll` — a lookup on every node is a lookup on each;
* `CacheManager.cluster_isProduct` — **the manager of a cluster is a product of nodes**.
-/

import NanoKVRouter.PyViews
import NanoKVRouter.SchedulerContract

set_option relaxedAutoImplicit false
set_option autoImplicit false

namespace NanoKVRouter

namespace CacheManager

/-! ### The interface -/

/-- A call of the public interface. -/
inductive Access
  | on (op : Op)
  | lookupAll (now : Time) (request : Request)
  | freeBlocks (nodeId : NodeId) (tier : String)

/-- What a call of the public interface returns. -/
inductive Reply
  | answer (a : Answer)
  | hits (d : PyDict NodeId CacheLookup)
  | free (k : ℤ)

/-- A call of the public interface. -/
def access : Access → Py CacheManager Reply
  | .on op => do
      let a ← call op
      pure (.answer a)
  | .lookupAll now request => do
      let d ← lookupAll now request
      pure (.hits d)
  | .freeBlocks nodeId tier => do
      let k ← freeBlocks nodeId tier
      pure (.free k)

/-- The node a call works on. -/
def Op.node : Op → NodeId
  | .admitTokens _ _ nodeId => nodeId
  | .materialize _ _ _ nodeId => nodeId
  | .release _ nodeId => nodeId
  | .lookup _ _ nodeId => nodeId

/-- A call as a node sees it: a call on another node is nothing to it. -/
def Access.onNode (n : NodeId) : Access → Option Access
  | .on op => if op.node = n then some (.on op) else none
  | .lookupAll now request => some (.lookupAll now request)
  | .freeBlocks nodeId tier => if nodeId = n then some (.freeBlocks nodeId tier) else none

/-- Two replies agree on a node: of the hits on every node its own is read. -/
inductive Reply.AgreeAt (n : NodeId) : Reply → Reply → Prop
  | answer (a : Answer) : AgreeAt n (.answer a) (.answer a)
  | hits {d d' : PyDict NodeId CacheLookup} (h : d'.get? n = d.get? n) :
      AgreeAt n (.hits d) (.hits d')
  | free (k : ℤ) : AgreeAt n (.free k) (.free k)

/-! ### The manager of one node -/

/-- The second manager is what the first one is on the node, and knows no other node. -/
structure OfNode (n : NodeId) (cm one : CacheManager) : Prop where
  model_eq : one.model = cm.model
  nodeConfig_eq : one.nodeConfig = cm.nodeConfig
  bandwidth_eq : one.bandwidth = cm.bandwidth
  cache_eq : one.caches.get? n = cm.caches.get? n
  tables_eq : ∀ r, one.blockTables.get? (n, r) = cm.blockTables.get? (n, r)
  only : ∀ m ∈ one.caches.keys, m = n

/-- The keys after an update. -/
theorem mem_keys_set {ν : Type} {d : PyDict NodeId ν} {m k : NodeId} {v : ν}
    (h : m ∈ (d.set k v).keys) : m = k ∨ m ∈ d.keys := by
  rw [PyDict.keys_set] at h
  split at h
  · exact Or.inr h
  · simpa [or_comm] using h

namespace OfNode

variable {n : NodeId} {cm one : CacheManager}

/-- Storing a cache of another node. -/
theorem set_other (h : OfNode n cm one) {m : NodeId} (hm : m ≠ n) (c : NodeCache) :
    OfNode n { cm with caches := cm.caches.set m c } one where
  model_eq := h.model_eq
  nodeConfig_eq := h.nodeConfig_eq
  bandwidth_eq := h.bandwidth_eq
  cache_eq := h.cache_eq.trans (PyDict.get?_set_of_ne _ _ (Ne.symm hm)).symm
  tables_eq := h.tables_eq
  only := h.only

/-- Storing a cache of the node. -/
theorem set (h : OfNode n cm one) (c : NodeCache) :
    OfNode n { cm with caches := cm.caches.set n c } { one with caches := one.caches.set n c } where
  model_eq := h.model_eq
  nodeConfig_eq := h.nodeConfig_eq
  bandwidth_eq := h.bandwidth_eq
  cache_eq := by simp only [PyDict.get?_set, if_true]
  tables_eq := h.tables_eq
  only := fun m hm => (mem_keys_set hm).elim id (h.only m)

/-- A table of another node. -/
theorem tables_other (h : OfNode n cm one) {tables : PyDict (NodeId × RequestId) RequestBlockTable}
    (ht : ∀ r, tables.get? (n, r) = cm.blockTables.get? (n, r)) :
    OfNode n { cm with blockTables := tables } one :=
  { h with tables_eq := fun r => (h.tables_eq r).trans (ht r).symm }

/-- A table of the node. -/
theorem tables (h : OfNode n cm one)
    {tables tables' : PyDict (NodeId × RequestId) RequestBlockTable}
    (ht : ∀ r, tables'.get? (n, r) = tables.get? (n, r)) :
    OfNode n { cm with blockTables := tables } { one with blockTables := tables' } :=
  { h with tables_eq := ht }

theorem contains_eq (h : OfNode n cm one) : one.caches.contains n = cm.caches.contains n := by
  rw [PyDict.contains, PyDict.contains, h.cache_eq]

end OfNode

/-! ### The footprint of a call -/

section Footprint

variable {P : CacheManager → Prop} {m : NodeId}

theorem keeps_onNode {α : Type} (x : Py NodeCache α)
    (hcache : ∀ cm c, P cm → P { cm with caches := cm.caches.set m c }) :
    Py.Keeps P (onNode m x) := by
  refine Py.Keeps.get.bind fun cm => ?_
  cases cm.caches.get? m with
  | none => exact .raise _
  | some c => exact fun cm' h => (by
      rw [Py.run_onPart]
      cases x.run c with
      | ok a c' => exact hcache cm' c' h
      | error e c' => exact hcache cm' c' h)

theorem keeps_lookup_of_footprint (now : Time) (request : Request)
    (hcache : ∀ cm c, P cm → P { cm with caches := cm.caches.set m c }) :
    Py.Keeps P (lookup now request m) :=
  Py.Keeps.get.bind fun _ => keeps_onNode _ hcache

/-- **The footprint of a call**: it writes the cache of its node and the tables of that node, and
nothing else. -/
theorem keeps_call (op : Op) (hop : op.node = m)
    (hcache : ∀ cm c, P cm → P { cm with caches := cm.caches.set m c })
    (hset : ∀ cm r t, P cm → P { cm with blockTables := cm.blockTables.set (m, r) t })
    (herase : ∀ cm r, P cm → P { cm with blockTables := cm.blockTables.erase (m, r) }) :
    Py.Keeps P (call op) := by
  subst hop
  cases op with
  | admitTokens clock T k =>
      exact (Py.Keeps.get.bind fun _ => keeps_onNode _ hcache).bind fun _ => .pure _
  | lookup now request k =>
      exact (keeps_lookup_of_footprint now request hcache).bind fun _ => .pure _
  | materialize clock r T k =>
      refine Py.Keeps.bind (Py.Keeps.get.bind fun cm => ?_) fun _ => .pure _
      split
      · exact .raise _
      · split
        · exact .raise _
        · refine Py.Keeps.bind (Py.Keeps.get.bind fun cm' => ?_) fun res => ?_
          · dsimp only
            split
            · exact .pure _
            · exact keeps_onNode _ hcache
          · exact (Py.Keeps.modify fun s hs => hset s r _ hs).bind fun _ => .pure _
  | release r k =>
      refine Py.Keeps.bind (Py.Keeps.get.bind fun cm => ?_) fun _ => .pure _
      split
      · exact .raise _
      · cases cm.blockTables.get? (k, r) with
        | none => exact .raise _
        | some t =>
            exact (Py.Keeps.modify fun s hs => herase s r hs).bind fun _ => keeps_onNode _ hcache

end Footprint

/-- A call on another node is nothing to a node. -/
theorem keeps_call_other {n : NodeId} (op : Op) (hop : op.node ≠ n) (one : CacheManager) :
    Py.Keeps (fun cm => OfNode n cm one) (call op) := by
  have hkey : ∀ r r' : RequestId, (n, r') ≠ (op.node, r) :=
    fun r r' heq => hop (congrArg Prod.fst heq).symm
  exact keeps_call op rfl (fun _ c h => h.set_other hop c)
    (fun _ r t h => h.tables_other fun r' => PyDict.get?_set_of_ne _ _ (hkey r r'))
    (fun _ r h => h.tables_other fun r' => PyDict.get?_erase_of_ne _ (hkey r r'))

/-! ### A call on the node -/

section Local

variable {n : NodeId}

/-- A call on the cache of the node finds the same cache in both managers. -/
theorem simOf_onNode {α : Type} (m : Py NodeCache α) :
    Py.Sim (OfNode n) Eq (onNode n m) (onNode n m) := by
  intro cm one h
  cases hc : cm.caches.get? n with
  | none =>
      rw [run_onNode_unknown m hc, run_onNode_unknown m (h.cache_eq.trans hc)]
      exact .error _ h
  | some c =>
      rw [run_onNode m hc, run_onNode m (h.cache_eq.trans hc)]
      cases m.run c with
      | ok a c' => exact .ok rfl (h.set c')
      | error e c' => exact .error e (h.set c')

theorem simOf_lookup (now : Time) (request : Request) :
    Py.Sim (OfNode n) Eq (lookup now request n) (lookup now request n) := by
  refine .get_bind fun cm one h => ?_
  rw [h.model_eq, h.bandwidth_eq]
  exact simOf_onNode _

theorem simOf_acquireBlocks (clock : ℕ → Time) (T : List Token) :
    Py.Sim (OfNode n) Eq (acquireBlocks clock T n) (acquireBlocks clock T n) := by
  refine .get_bind fun cm one h => ?_
  rw [h.model_eq, h.nodeConfig_eq]
  dsimp only
  split
  · exact .pure rfl
  · exact simOf_onNode _

theorem simOf_materializeRequest (clock : ℕ → Time) (r : RequestId) (T : List Token) :
    Py.Sim (OfNode n) Eq (materializeRequest clock r T n) (materializeRequest clock r T n) := by
  refine .get_bind fun cm one h => ?_
  have hcontains : one.blockTables.contains (n, r) = cm.blockTables.contains (n, r) := by
    rw [PyDict.contains, PyDict.contains, h.tables_eq]
  rw [h.contains_eq, hcontains, h.model_eq]
  split
  · exact .raise _
  · split
    · exact .raise _
    · refine (simOf_acquireBlocks clock T).bind_eq fun res => ?_
      refine Py.Sim.bind_eq (.modify fun s s' hs => hs.tables fun r' => ?_) fun _ => .pure rfl
      rw [PyDict.get?_set, PyDict.get?_set, hs.tables_eq]

theorem simOf_releaseRequest (r : RequestId) :
    Py.Sim (OfNode n) Eq (releaseRequest r n) (releaseRequest r n) := by
  refine .get_bind fun cm one h => ?_
  rw [h.contains_eq, h.tables_eq]
  split
  · exact .raise _
  · cases cm.blockTables.get? (n, r) with
    | none => exact .raise _
    | some t =>
        refine Py.Sim.bind_eq (.modify fun s s' hs => hs.tables fun r' => ?_) fun _ =>
          simOf_onNode _
        rw [PyDict.get?_erase, PyDict.get?_erase, hs.tables_eq]

/-- **A call on a node** depends on nothing but that node. -/
theorem sim_call (op : Op) (hop : op.node = n) :
    Py.Sim (OfNode n) Eq (call op) (call op) := by
  subst hop
  cases op with
  | admitTokens clock T k =>
      refine Py.Sim.bind_eq (.get_bind fun cm one h => ?_) fun _ => .pure rfl
      rw [h.model_eq, h.nodeConfig_eq]
      exact simOf_onNode _
  | materialize clock r T k =>
      exact (simOf_materializeRequest clock r T).bind_eq fun _ => .pure rfl
  | release r k => exact (simOf_releaseRequest r).bind_eq fun _ => .pure rfl
  | lookup now request k => exact (simOf_lookup now request).bind_eq fun _ => .pure rfl

end Local

/-! ### A lookup on every node -/

section LookupAll

variable {n : NodeId}

/-- One round of `lookup_all`. -/
def lookupInto (now : Time) (request : Request) (d : PyDict NodeId CacheLookup) (nodeId : NodeId) :
    Py CacheManager (PyDict NodeId CacheLookup) := do
  pure (d.set nodeId (← lookup now request nodeId))

/-- The rounds on the nodes of a list, seen from one node: only the round on the node counts. -/
theorem alike_lookups (now : Time) (request : Request) : ∀ (ks : List NodeId)
    {cm one : CacheManager} {d d' : PyDict NodeId CacheLookup}, OfNode n cm one →
    (∀ k ∈ ks, k ∈ cm.caches.keys) → d'.get? n = d.get? n →
    Py.Alike (OfNode n) (fun d d' => d'.get? n = d.get? n)
      ((ks.foldlM (lookupInto now request) d).run cm)
      (((ks.filter (· = n)).foldlM (lookupInto now request) d').run one) := by
  intro ks
  induction ks with
  | nil => intro cm one d d' h _ hd; exact .ok hd h
  | cons k ks ih =>
      intro cm one d d' h hks hd
      obtain ⟨l, cm', hrun, hqueried⟩ := lookup_returns cm now request (hks k (.head _)) cm .refl
      have hks' : ∀ k' ∈ ks, k' ∈ cm'.caches.keys := fun k' hk' => by
        rw [hqueried.keys_eq]
        exact hks k' (.tail _ hk')
      have hround : (lookupInto now request d k).run cm = .ok (d.set k l) cm' := by
        rw [lookupInto, Py.run_bind_ok hrun]
        rfl
      rw [List.foldlM_cons, Py.run_bind_ok hround]
      by_cases hk : k = n
      · subst hk
        have hsim := simOf_lookup now request cm one h
        rw [hrun] at hsim
        rw [List.filter_cons_of_pos (by simp), List.foldlM_cons]
        generalize hr : (lookup now request k).run one = r at hsim
        cases hsim with
        | @ok _ l' _ one' hl hs =>
            have hround' : (lookupInto now request d' k).run one = .ok (d'.set k l) one' := by
              rw [lookupInto, Py.run_bind_ok hr, ← hl]
              rfl
            rw [Py.run_bind_ok hround']
            refine ih hs hks' ?_
            rw [PyDict.get?_set, PyDict.get?_set, hd]
      · rw [List.filter_cons_of_neg (by simpa using hk)]
        have hother := keeps_lookup_of_footprint (P := fun cm => OfNode n cm one) now request
          (fun _ c hc => hc.set_other hk c) cm h
        rw [hrun] at hother
        exact ih hother hks' (hd.trans (PyDict.get?_set_of_ne _ _ (Ne.symm hk)).symm)

/-- A manager that knows no other node looks up on the nodes it has in common with the cluster. -/
theorem OfNode.keys_eq {cm one : CacheManager} (h : OfNode n cm one) :
    one.caches.keys = cm.caches.keys.filter (· = n) := by
  have hmem : n ∈ one.caches.keys ↔ n ∈ cm.caches.keys := by
    rw [← PyDict.contains_iff, ← PyDict.contains_iff, h.contains_eq]
  have hself : one.caches.keys = one.caches.keys.filter (· = n) :=
    (List.filter_eq_self.2 fun m hm => decide_eq_true (h.only m hm)).symm
  rw [hself, List.filter_eq, List.filter_eq, one.caches.keys_nodup.count,
    cm.caches.keys_nodup.count]
  simp only [hmem]

/-- **A lookup on every node** is, to each of them, a lookup on it. -/
theorem sim_lookupAll (now : Time) (request : Request) :
    Py.Sim (OfNode n) (fun d d' => d'.get? n = d.get? n) (lookupAll now request)
      (lookupAll now request) := by
  intro cm one h
  rw [lookupAll, Py.run_get_bind, Py.run_get_bind, h.keys_eq]
  exact alike_lookups now request _ h (fun _ hk => hk) rfl

end LookupAll

/-! ### The cluster -/

section Cluster

variable {n : NodeId}

theorem sim_freeBlocks (tier : String) :
    Py.Sim (OfNode n) Eq (freeBlocks n tier) (freeBlocks n tier) := by
  refine .get_bind fun cm one h => ?_
  rw [h.cache_eq]
  cases cm.caches.get? n with
  | none => exact .raise _
  | some c =>
      cases Tier.ofName tier with
      | none => exact .raise _
      | some t => exact .pure rfl

/-- The calls of the interface, seen from one node. -/
theorem shows_node (n : NodeId) :
    Py.Shows access access (Access.onNode n) (OfNode n) (Reply.AgreeAt n) where
  hidden := by
    intro a ha one
    cases a with
    | on op =>
        have hop : op.node ≠ n := by
          intro hop
          simp [Access.onNode, hop] at ha
        exact (keeps_call_other op hop one).bind fun _ => .pure _
    | lookupAll now request => simp [Access.onNode] at ha
    | freeBlocks k tier =>
        exact Py.Keeps.bind (fun cm h => (readOnly_freeBlocks k tier cm).symm ▸ h) fun _ => .pure _
  shown := by
    intro a b hab
    cases a with
    | on op =>
        by_cases hop : op.node = n
        · simp only [Access.onNode, hop, if_true, Option.some_inj] at hab
          subst hab
          exact (sim_call op hop).bind_eq fun _ => .pure (.answer _)
        · simp [Access.onNode, hop] at hab
    | lookupAll now request =>
        simp only [Access.onNode, Option.some_inj] at hab
        subst hab
        exact (sim_lookupAll now request).bind fun _ _ hd => .pure (.hits hd)
    | freeBlocks k tier =>
        by_cases hk : k = n
        · simp only [Access.onNode, hk, if_true, Option.some_inj] at hab
          subst hab hk
          exact (sim_freeBlocks tier).bind_eq fun _ => .pure (.free _)
        · simp [Access.onNode, hk] at hab

variable {nodeIds : List NodeId} {model : ModelConfig} {nodeConfig : NodeConfig}
  {bandwidth : BandwidthConfig}

/-- The empty manager of a cluster, and that of one of its nodes. -/
theorem ofNode_init : OfNode n (init nodeIds model nodeConfig bandwidth)
    (init (nodeIds.filter (· = n)) model nodeConfig bandwidth) := by
  have hfold : ∀ (ids : List NodeId) (d d' : PyDict NodeId NodeCache), d'.get? n = d.get? n →
      (∀ m ∈ d'.keys, m = n) →
      ((ids.filter (· = n)).foldl
          (fun d n => d.set n (NodeCache.init model nodeConfig)) d').get? n =
        (ids.foldl (fun d n => d.set n (NodeCache.init model nodeConfig)) d).get? n ∧
      ∀ m ∈ ((ids.filter (· = n)).foldl
        (fun d n => d.set n (NodeCache.init model nodeConfig)) d').keys, m = n := by
    intro ids
    induction ids with
    | nil => intro d d' hd honly; exact ⟨hd, honly⟩
    | cons m ids ih =>
        intro d d' hd honly
        by_cases hm : m = n
        · rw [List.filter_cons_of_pos (by simpa using hm)]
          refine ih _ _ ?_ fun k hk => (mem_keys_set hk).elim (fun hkm => hkm.trans hm) (honly k)
          rw [PyDict.get?_set, PyDict.get?_set, hd]
        · rw [List.filter_cons_of_neg (by simpa using hm)]
          exact ih _ _ (hd.trans (PyDict.get?_set_of_ne _ _ (Ne.symm hm)).symm) honly
  obtain ⟨hcache, honly⟩ := hfold nodeIds PyDict.empty PyDict.empty rfl (by simp [PyDict.keys])
  exact ⟨rfl, rfl, rfl, hcache, fun _ => rfl, honly⟩

/-- **The manager of a cluster is the product of managers of one node each.**  After any sequence of
calls it is, on every node, what a manager of that node alone is after the calls the node sees, and
each of these calls has the answer it has there. -/
theorem cluster_isProduct (n : NodeId) (calls : List Access) :
    OfNode n (Py.served access calls (init nodeIds model nodeConfig bandwidth))
        (Py.served access (calls.filterMap (Access.onNode n))
          (init (nodeIds.filter (· = n)) model nodeConfig bandwidth)) ∧
      List.Forall₂ (fun e e' => e.1.onNode n = some e'.1 ∧ Py.Agrees (Reply.AgreeAt n) e.2 e'.2)
        ((Py.answers access calls (init nodeIds model nodeConfig bandwidth)).filter
          fun e => (e.1.onNode n).isSome)
        (Py.answers access (calls.filterMap (Access.onNode n))
          (init (nodeIds.filter (· = n)) model nodeConfig bandwidth)) :=
  ⟨(shows_node n).served calls ofNode_init, (shows_node n).answers calls ofNode_init⟩

end Cluster

end CacheManager

end NanoKVRouter
