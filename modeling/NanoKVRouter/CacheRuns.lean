/-
**Runs of the cache manager.**

The invariant of the manager says of each node that its tree and its pool represent an abstract
cache that satisfies the invariant of `CacheState`, that the pin count of a block is the number of
block tables of the node that list it, that the tiers have their configured capacities, and what
the history of the demotion loop has recorded.  Every call of the interface keeps it, whether the
call returns or raises.

Main definitions:

* `CacheManager.tableCount` — the number of block tables of a node that list a block;
* `CacheManager.NodeInv`, `CacheManager.Inv` — the invariant;
* `CacheManager.Moves` — what a call does to each node.

Main results:

* `CacheManager.inv_init` — an empty manager satisfies the invariant;
* `CacheManager.apply_spec` — **every call keeps the invariant**;
* `CacheManager.Reachable.inv` — so every reachable manager satisfies it.
-/

import NanoKVRouter.CacheMaterialize

set_option relaxedAutoImplicit false
set_option autoImplicit false

namespace NanoKVRouter

theorem CacheState.Safe.refl {s : CacheState} (hi : s.Inv) : Safe s s where
  inv := hi
  capacity_eq := fun _ => rfl
  tierOf_pinned := fun _ _ => rfl
  pinned_sublist := fun _ _ hR _ => hR
  isSome_of_pinned := fun l b hb _ => by
    obtain ⟨bs, hl, -⟩ := PathTrie.exists_of_mem_items hb
    rw [hl]
    rfl

namespace CacheManager

/-! ### The invariant -/

/-- The entry is a table of the node and lists the block. -/
def lists (n : NodeId) (b : BlockId) (e : (NodeId × RequestId) × RequestBlockTable) : Bool :=
  decide (e.1.1 = n ∧ b ∈ e.2.blockIds)

/-- The number of active block tables of a node that list a block. -/
def tableCount (cm : CacheManager) (n : NodeId) (b : BlockId) : ℕ :=
  cm.blockTables.entries.countP (lists n b)

/-- The cache `c` of the node `n` represents the abstract cache `s`, which is in order. -/
structure NodeInv (cm : CacheManager) (n : NodeId) (c : NodeCache) (s : CacheState) : Prop where
  represents : c.Represents cm.model.blockSize s
  inv : s.Inv
  pin_eq : ∀ b, s.pool.pinCountOf b = cm.tableCount n b
  capacity_eq : ∀ t, (s.pool.tiers t).capacity = cm.nodeConfig.blocks t
  exhausted : ∀ d ∈ c.demotions, d.Frees → d.Exhausted
  intact : (∀ d ∈ c.demotions, ¬ d.Frees) → s.Intact

/-- What holds of the manager between calls. -/
structure Inv (cm : CacheManager) : Prop where
  node : ∀ n c, cm.caches.get? n = some c → ∃ s, NodeInv cm n c s
  table_node : ∀ n r t, cm.blockTables.get? (n, r) = some t → ∃ c, cm.caches.get? n = some c
  table_nodup : ∀ n r t, cm.blockTables.get? (n, r) = some t → t.blockIds.Nodup

/-- What a call does to each node: pinned blocks and the nodes that have one are left alone, and
the history grows. -/
structure Moves (cm cm' : CacheManager) : Prop where
  model_eq : cm'.model = cm.model
  nodeConfig_eq : cm'.nodeConfig = cm.nodeConfig
  bandwidth_eq : cm'.bandwidth = cm.bandwidth
  known : ∀ n, cm.caches.get? n = none → cm'.caches.get? n = none
  node : ∀ n c s, cm.caches.get? n = some c → NodeInv cm n c s →
    ∃ c' s', cm'.caches.get? n = some c' ∧ NodeInv cm' n c' s' ∧ CacheState.Safe s s' ∧
      NodeCache.Recorded c s c' s'

theorem Moves.refl (cm : CacheManager) : Moves cm cm where
  model_eq := rfl
  nodeConfig_eq := rfl
  bandwidth_eq := rfl
  known := fun _ h => h
  node := fun _ c s hc hn => ⟨c, s, hc, hn, .refl hn.inv, .refl c s⟩

/-- A change of the nodes and of the tables that fits together keeps the invariant. -/
theorem Inv.of_moves {cm cm' : CacheManager} (h : cm.Inv) (hm : Moves cm cm')
    (hnode : ∀ n r t, cm'.blockTables.get? (n, r) = some t → ∃ c, cm.caches.get? n = some c)
    (hnd : ∀ n r t, cm'.blockTables.get? (n, r) = some t → t.blockIds.Nodup) : cm'.Inv where
  node := by
    intro n c' hc'
    cases hc : cm.caches.get? n with
    | none =>
        rw [hm.known n hc] at hc'
        simp at hc'
    | some c =>
        obtain ⟨s, hs⟩ := h.node n c hc
        obtain ⟨c'', s', hc'', hs', -⟩ := hm.node n c s hc hs
        rw [hc', Option.some_inj] at hc''
        exact ⟨s', hc'' ▸ hs'⟩
  table_node := by
    intro n r t ht
    obtain ⟨c, hc⟩ := hnode n r t ht
    obtain ⟨s, hs⟩ := h.node n c hc
    obtain ⟨c', -, hc', -⟩ := hm.node n c s hc hs
    exact ⟨c', hc'⟩
  table_nodup := hnd

/-- The manager with another cache for the node `n` and other block tables. -/
def update (cm : CacheManager) (n : NodeId) (c : NodeCache)
    (tables : PyDict (NodeId × RequestId) RequestBlockTable) : CacheManager :=
  { cm with caches := cm.caches.set n c, blockTables := tables }

section Update

variable {cm : CacheManager} {n : NodeId} {c c' : NodeCache}
  {tables : PyDict (NodeId × RequestId) RequestBlockTable}

/-- A call that works on the cache of one node. -/
theorem moves_update {s s' : CacheState} (hc : cm.caches.get? n = some c) (hs : NodeInv cm n c s)
    (hother : ∀ n' b, n' ≠ n → (cm.update n c' tables).tableCount n' b = cm.tableCount n' b)
    (hrep : c'.Represents cm.model.blockSize s') (hsafe : CacheState.Safe s s')
    (hrec : NodeCache.Recorded c s c' s')
    (hpin : ∀ b, s'.pool.pinCountOf b = (cm.update n c' tables).tableCount n b) :
    Moves cm (cm.update n c' tables) where
  model_eq := rfl
  nodeConfig_eq := rfl
  bandwidth_eq := rfl
  known := by
    intro n' hn'
    have hne : n' ≠ n := by
      rintro rfl
      rw [hc] at hn'
      simp at hn'
    exact (PyDict.get?_set_of_ne _ _ hne).trans hn'
  node := by
    intro n' c₀ s₀ hc₀ hs₀
    by_cases hn : n' = n
    · subst hn
      rw [hc, Option.some_inj] at hc₀
      subst hc₀
      rw [hs.represents.unique hs₀.represents]
      obtain ⟨calls, hcalls, hex, hkept⟩ := hrec
      refine ⟨c', s', PyDict.get?_set_self .., ⟨hrep, hsafe.inv, hpin, fun t => ?_, ?_, ?_⟩, hsafe,
        ⟨calls, hcalls, hex, hkept⟩⟩
      · exact (hsafe.capacity_eq t).trans (hs.capacity_eq t)
      · intro d hd
        rw [hcalls] at hd
        rcases List.mem_append.1 hd with hd | hd
        · exact hs.exhausted d hd
        · exact hex d hd
      · intro hnone
        rw [hcalls] at hnone
        exact (hkept (hs.intact fun d hd => hnone d (List.mem_append_left _ hd)) fun d hd =>
          hnone d (List.mem_append_right _ hd)).1
    · refine ⟨c₀, s₀, (PyDict.get?_set_of_ne _ _ hn).trans hc₀, ⟨hs₀.represents, hs₀.inv,
        fun b => ?_, hs₀.capacity_eq, hs₀.exhausted, hs₀.intact⟩, .refl hs₀.inv, .refl c₀ s₀⟩
      rw [hs₀.pin_eq, hother n' b hn]

/-- A call on a node that leaves the tables and all pins alone. -/
theorem Inv.update_cache {s s' : CacheState} (h : cm.Inv) (hc : cm.caches.get? n = some c)
    (hs : NodeInv cm n c s) (hrep : c'.Represents cm.model.blockSize s')
    (hsafe : CacheState.Safe s s') (hrec : NodeCache.Recorded c s c' s')
    (hpin : ∀ b, s'.pool.pinCountOf b = s.pool.pinCountOf b) :
    (cm.update n c' cm.blockTables).Inv ∧ Moves cm (cm.update n c' cm.blockTables) := by
  have hm : Moves cm (cm.update n c' cm.blockTables) :=
    moves_update hc hs (fun _ _ _ => rfl) hrep hsafe hrec fun b => (hpin b).trans (hs.pin_eq b)
  exact ⟨h.of_moves hm h.table_node h.table_nodup, hm⟩

end Update

/-! ### The calls -/

section Calls

variable {cm : CacheManager} {n : NodeId} {c : NodeCache}

theorem run_onNode {α : Type} (m : Py NodeCache α) (hc : cm.caches.get? n = some c) :
    (onNode n m).run cm =
      match m.run c with
      | .ok a c' => .ok a (cm.update n c' cm.blockTables)
      | .error e c' => .error e (cm.update n c' cm.blockTables) := by
  simp only [onNode, EStateM.run_bind, EStateM.run_get, hc, Py.run_onPart]
  cases m.run c <;> rfl

theorem run_onNode_unknown {α : Type} (m : Py NodeCache α) (hc : cm.caches.get? n = none) :
    (onNode n m).run cm = .error (.keyError n) cm := by
  simp [onNode, hc]

theorem state_onNode {α : Type} (m : Py NodeCache α) (hc : cm.caches.get? n = some c) :
    ((onNode n m).run cm).state = cm.update n (m.run c).state cm.blockTables := by
  rw [run_onNode m hc]
  cases m.run c <;> rfl

/-- A call that works on the cache of one node and leaves the tables and all pins alone. -/
theorem onNode_spec {α : Type} (h : cm.Inv) (m : Py NodeCache α)
    (hspec : ∀ c s, cm.caches.get? n = some c → NodeInv cm n c s →
      ∃ s', (m.run c).state.Represents cm.model.blockSize s' ∧ CacheState.Safe s s' ∧
        NodeCache.Recorded c s (m.run c).state s' ∧
        ∀ b, s'.pool.pinCountOf b = s.pool.pinCountOf b) :
    ((onNode n m).run cm).state.Inv ∧ Moves cm ((onNode n m).run cm).state := by
  cases hc : cm.caches.get? n with
  | none =>
      rw [run_onNode_unknown m hc]
      exact ⟨h, .refl cm⟩
  | some c =>
      obtain ⟨s, hs⟩ := h.node n c hc
      obtain ⟨s', hrep, hsafe, hrec, hpin⟩ := hspec c s hc hs
      rw [state_onNode m hc]
      exact h.update_cache hc hs hrep hsafe hrec hpin

/-- An admission ends in the state of its spec. -/
theorem state_of_admitted {s m s' : CacheState} {P : List Token} {k : ℕ}
    {prep : EStateM.Result PyErr NodeCache Bool} {c' : NodeCache}
    {r : EStateM.Result PyErr NodeCache Unit}
    (h : NodeCache.Admitted s m P k prep c' s' r) : r.state = c' := by
  cases h <;> rfl

theorem admit_moves (h : cm.Inv) (clock : ℕ → Time) (T : List Token) (n : NodeId) :
    ((admitTokens clock T n).run cm).state.Inv ∧ Moves cm ((admitTokens clock T n).run cm).state := by
  refine onNode_spec h (NodeCache.admitTokens cm.model.blockSize cm.nodeConfig.gpuBlocks clock T)
    fun c s _ hs => ?_
  obtain ⟨m, c', s', hc', hturn, hrec, hout⟩ := NodeCache.admit_spec hs.represents hs.inv
    cm.model.one_le_blockSize cm.nodeConfig.gpuBlocks clock
    (Prod.mk.eta (p := NodeCache.alignedTokens _ T))
  rw [state_of_admitted hout]
  exact ⟨s', hc', hturn.safe hs.inv, hrec, hturn.pin_eq hs.inv⟩

theorem lookup_moves (h : cm.Inv) (now : Time) (request : Request) (n : NodeId) :
    ((lookup now request n).run cm).state.Inv ∧
      Moves cm ((lookup now request n).run cm).state := by
  refine onNode_spec h (NodeCache.lookup cm.model cm.bandwidth now request.tokenIds)
    fun c s _ hs => ?_
  obtain ⟨r, c', hrun, hc', hdem, -⟩ :=
    NodeCache.lookup_spec hs.represents cm.bandwidth now request.tokenIds
  rw [hrun]
  exact ⟨s, hc', .refl hs.inv, .of_eq hdem id fun _ _ hl => hl, fun _ => rfl⟩

/-! ### Block tables -/

/-- A listed block is pinned. -/
theorem NodeInv.pinned_of_table {s : CacheState} (hs : NodeInv cm n c s) {r : RequestId}
    {t : RequestBlockTable} (ht : cm.blockTables.get? (n, r) = some t) {b : BlockId}
    (hb : b ∈ t.blockIds) : s.pool.pinned b = true := by
  rw [BlockPool.pinned_iff, hs.pin_eq]
  have hpos : 0 < cm.tableCount n b :=
    List.countP_pos_iff.2 ⟨_, PyDict.get?_eq_some_iff.1 ht, by simp [lists, hb]⟩
  omega

/-- A new table counts for its own blocks. -/
theorem tableCount_set (cm : CacheManager) {n : NodeId} {r : RequestId} {t : RequestBlockTable}
    (hnew : cm.blockTables.get? (n, r) = none) (hnd : t.blockIds.Nodup) (c : NodeCache)
    (n' : NodeId) (b : BlockId) :
    (cm.update n c (cm.blockTables.set (n, r) t)).tableCount n' b =
      cm.tableCount n' b + if n' = n then t.blockIds.count b else 0 := by
  simp only [tableCount, update,
    PyDict.entries_set_of_notMem t (PyDict.get?_eq_none_iff.1 hnew), List.countP_append,
    List.countP_cons, List.countP_nil, lists]
  by_cases hn : n = n'
  · by_cases hb : b ∈ t.blockIds
    · simp [hn, hb, List.count_eq_one_of_mem hnd hb]
    · simp [hn, hb, List.count_eq_zero_of_not_mem hb]
  · simp [hn, Ne.symm hn]

/-- A released table counts no more. -/
theorem tableCount_erase (cm : CacheManager) {n : NodeId} {r : RequestId} {t : RequestBlockTable}
    (ht : cm.blockTables.get? (n, r) = some t) (hnd : t.blockIds.Nodup) (c : NodeCache)
    (n' : NodeId) (b : BlockId) :
    cm.tableCount n' b = (cm.update n c (cm.blockTables.erase (n, r))).tableCount n' b +
      if n' = n then t.blockIds.count b else 0 := by
  simp only [tableCount, update, PyDict.countP_entries_erase ht (lists n' b), lists]
  by_cases hn : n = n'
  · by_cases hb : b ∈ t.blockIds
    · simp [hn, hb, List.count_eq_one_of_mem hnd hb]
    · simp [hn, hb, List.count_eq_zero_of_not_mem hb]
  · simp [hn, Ne.symm hn]

/-- The table of a request, released. -/
theorem run_releaseRequest {r : RequestId} {t : RequestBlockTable}
    (hc : cm.caches.get? n = some c) (ht : cm.blockTables.get? (n, r) = some t) {c' : NodeCache}
    (hrun : (NodeCache.releaseBlocks t.blockIds).run c = .ok () c') :
    (releaseRequest r n).run cm = .ok () (cm.update n c' (cm.blockTables.erase (n, r))) := by
  have hcont : cm.caches.contains n = true := by
    rw [PyDict.contains, hc]
    rfl
  simp only [releaseRequest, EStateM.run_bind, EStateM.run_get, hcont, Bool.not_true,
    Bool.false_eq_true, if_false, ht]
  change (onNode n _).run { cm with blockTables := cm.blockTables.erase (n, r) } = _
  have hc' : ({ cm with blockTables := cm.blockTables.erase (n, r) } : CacheManager).caches.get? n =
      some c := hc
  rw [run_onNode _ hc', hrun]
  rfl

/-- A release without a table changes nothing. -/
theorem run_releaseRequest_none {r : RequestId}
    (ht : cm.caches.get? n = none ∨ cm.blockTables.get? (n, r) = none) :
    ∃ msg, (releaseRequest r n).run cm = .error (.keyError msg) cm := by
  cases hc : cm.caches.get? n with
  | none =>
      refine ⟨n, ?_⟩
      simp [releaseRequest, PyDict.contains, hc]
  | some c =>
      rw [hc] at ht
      have ht' : cm.blockTables.get? (n, r) = none := by simpa using ht
      exact ⟨_, by
        simp only [releaseRequest, EStateM.run_bind, EStateM.run_get, PyDict.contains, hc,
          Option.isSome_some, Bool.not_true, Bool.false_eq_true, if_false, ht']
        rfl⟩

theorem release_moves (h : cm.Inv) (r : RequestId) (n : NodeId) :
    ((releaseRequest r n).run cm).state.Inv ∧ Moves cm ((releaseRequest r n).run cm).state := by
  cases ht : cm.blockTables.get? (n, r) with
  | none =>
      obtain ⟨msg, hrun⟩ := run_releaseRequest_none (Or.inr ht)
      rw [hrun]
      exact ⟨h, .refl cm⟩
  | some t =>
      obtain ⟨c, hc⟩ := h.table_node n r t ht
      have hnd := h.table_nodup n r t ht
      obtain ⟨s, hs⟩ := h.node n c hc
      obtain ⟨q, hrun, hq⟩ := NodeCache.releaseBlocks_spec hs.represents hs.inv hnd
        fun b hb => hs.pinned_of_table ht hb
      rw [run_releaseRequest hc ht hrun]
      have hcount := tableCount_erase cm ht hnd { c with pool := q }
      have hm : Moves cm (cm.update n { c with pool := q } (cm.blockTables.erase (n, r))) := by
        have hrep : NodeCache.Represents { c with pool := q } cm.model.blockSize ⟨s.trie, q⟩ :=
          ⟨hs.represents.tree, rfl⟩
        refine moves_update hc hs (fun n' b hn' => ?_) hrep
          ((CacheState.Safe.refl hs.inv).repin hq.tiers_eq hq.tierOf_eq (hs.inv.unpin hq))
          (NodeCache.recorded_of_pool rfl hq.tierOf_eq) fun b => ?_
        · rw [hcount n' b, if_neg hn']
          rfl
        · have h1 := hcount n b
          rw [if_pos rfl] at h1
          change q.pinCountOf b = _
          rw [hq.pin_eq, hs.pin_eq, h1]
          push_cast
          omega
      have hold : ∀ n' r' t', (cm.blockTables.erase (n, r)).get? (n', r') = some t' →
          cm.blockTables.get? (n', r') = some t' := by
        intro n' r' t' ht'
        rw [PyDict.get?_erase] at ht'
        split at ht'
        · simp at ht'
        · exact ht'
      exact ⟨h.of_moves hm (fun n' r' t' ht' => h.table_node n' r' t' (hold n' r' t' ht'))
        fun n' r' t' ht' => h.table_nodup n' r' t' (hold n' r' t' ht'), hm⟩

/-! ### Materialization -/

/-- The ways `materialize_request` ends for a new request on a known node. -/
inductive Materialized (cm : CacheManager) (n : NodeId) (r : RequestId) (P : List Token) (k : ℕ)
    (s : CacheState) (c' : NodeCache) (s' : CacheState) :
    EStateM.Result PyErr CacheManager RequestBlockTable → Prop
  | ok (t : RequestBlockTable) : ¬ (0 < k ∧ s.Collision P k) →
      t.blockIds = (s'.trie.path P).take k → (0 < k → s'.Complete P k) →
      (∀ b, s'.pool.pinCountOf b = s.pool.pinCountOf b + t.blockIds.count b) →
      Materialized cm n r P k s c' s' (.ok t (cm.update n c' (cm.blockTables.set (n, r) t)))
  | full (msg : String) : ¬ (0 < k ∧ s.Collision P k) →
      (∀ b, s'.pool.pinCountOf b = s.pool.pinCountOf b) →
      Materialized cm n r P k s c' s' (.error (.memoryError msg) (cm.update n c' cm.blockTables))
  | collision (msg : String) : 0 < k → s.Collision P k →
      (∀ b, s'.pool.pinCountOf b = s.pool.pinCountOf b) →
      Materialized cm n r P k s c' s' (.error (.runtimeError msg) (cm.update n c' cm.blockTables))

theorem run_materializeRequest {clock : ℕ → Time} {r : RequestId} {T : List Token}
    (hc : cm.caches.get? n = some c) (ht : cm.blockTables.get? (n, r) = none) :
    (materializeRequest clock r T n).run cm =
      (do
        let (blockIds, matched) ← acquireBlocks clock T n
        let table : RequestBlockTable :=
          { requestId := r
            nodeId := n
            blockIds := blockIds
            matchedBlocks := matched
            newBlocks := (NodeCache.alignedTokens cm.model.blockSize T).2 - matched }
        modify fun cm => { cm with blockTables := cm.blockTables.set (n, r) table }
        pure table : Py CacheManager RequestBlockTable).run cm := by
  simp only [materializeRequest, EStateM.run_bind, EStateM.run_get, PyDict.contains, hc, ht,
    Option.isSome_some, Option.isSome_none, Bool.not_true, Bool.false_eq_true, if_false]

/-- **The materialization of a new request on a known node.** -/
theorem materializeRequest_spec {s : CacheState} {P : List Token} {k : ℕ}
    (clock : ℕ → Time) {r : RequestId} {T : List Token} (hc : cm.caches.get? n = some c)
    (ht : cm.blockTables.get? (n, r) = none) (hs : NodeInv cm n c s)
    (hT : NodeCache.alignedTokens cm.model.blockSize T = (P, k)) :
    ∃ c' s', c'.Represents cm.model.blockSize s' ∧ CacheState.Safe s s' ∧
      NodeCache.Recorded c s c' s' ∧
      Materialized cm n r P k s c' s' ((materializeRequest clock r T n).run cm) := by
  rw [run_materializeRequest hc ht]
  rcases Nat.eq_zero_or_pos k with rfl | hk
  · refine ⟨c, s, hs.represents, .refl hs.inv, .refl c s, ?_⟩
    have hacq : (acquireBlocks clock T n).run cm = .ok ([], 0) cm := by
      simp [acquireBlocks, hT]
    rw [Py.run_bind_ok hacq]
    have hupd : ∀ t, { cm with blockTables := cm.blockTables.set (n, r) t } =
        cm.update n c (cm.blockTables.set (n, r) t) := by
      intro t
      rw [update, PyDict.set_of_get? hc]
    change Materialized cm n r P 0 s c s
      (.ok _ { cm with blockTables := cm.blockTables.set (n, r) _ })
    rw [hupd]
    exact .ok _ (by omega) rfl (by omega) (by simp)
  · obtain ⟨c', s', hc', hsafe, hrec, hout⟩ := NodeCache.materialize_spec hs.represents hs.inv
      cm.model.one_le_blockSize cm.nodeConfig.gpuBlocks clock (NodeCache.length_aligned hT) hk
    refine ⟨c', s', hc', hsafe, hrec, ?_⟩
    have hacq : (acquireBlocks clock T n).run cm =
        (onNode n (NodeCache.materialize cm.model.blockSize cm.nodeConfig.gpuBlocks clock P k)).run
          cm := by
      simp [acquireBlocks, hT, Nat.pos_iff_ne_zero.1 hk]
    rw [run_onNode _ hc] at hacq
    generalize (NodeCache.materialize cm.model.blockSize cm.nodeConfig.gpuBlocks clock P k).run c =
      out at hout hacq
    cases hout with
    | ok m hno hfull hpin =>
        rw [Py.run_bind_ok hacq]
        exact .ok _ (fun hcol => hno hcol.2) rfl (fun _ => hfull) hpin
    | full msg hno hpin =>
        rw [Py.run_bind_error hacq]
        exact .full msg (fun hcol => hno hcol.2) hpin
    | collision msg hcol hpin =>
        rw [Py.run_bind_error hacq]
        exact .collision msg hk hcol hpin

theorem run_materializeRequest_unknown (clock : ℕ → Time) (r : RequestId) (T : List Token)
    (hc : cm.caches.get? n = none) :
    (materializeRequest clock r T n).run cm = .error (.keyError n) cm := by
  simp [materializeRequest, PyDict.contains, hc]

theorem run_materializeRequest_again (clock : ℕ → Time) {r : RequestId} (T : List Token)
    {t : RequestBlockTable} (hc : cm.caches.get? n = some c)
    (ht : cm.blockTables.get? (n, r) = some t) :
    ∃ msg, (materializeRequest clock r T n).run cm = .error (.valueError msg) cm :=
  ⟨_, by
    simp only [materializeRequest, EStateM.run_bind, EStateM.run_get, PyDict.contains, hc, ht,
      Option.isSome_some, Bool.not_true, Bool.false_eq_true, if_false, if_true]
    rfl⟩

theorem materialize_moves (h : cm.Inv) (clock : ℕ → Time) (r : RequestId) (T : List Token)
    (n : NodeId) :
    ((materializeRequest clock r T n).run cm).state.Inv ∧
      Moves cm ((materializeRequest clock r T n).run cm).state := by
  cases hc : cm.caches.get? n with
  | none =>
      rw [run_materializeRequest_unknown clock r T hc]
      exact ⟨h, .refl cm⟩
  | some c =>
      cases ht : cm.blockTables.get? (n, r) with
      | some t =>
          obtain ⟨msg, hrun⟩ := run_materializeRequest_again clock T hc ht
          rw [hrun]
          exact ⟨h, .refl cm⟩
      | none =>
          obtain ⟨s, hs⟩ := h.node n c hc
          obtain ⟨c', s', hc', hsafe, hrec, hout⟩ := materializeRequest_spec (r := r) clock hc ht
            hs (Prod.mk.eta (p := NodeCache.alignedTokens cm.model.blockSize T))
          generalize (materializeRequest clock r T n).run cm = out at hout ⊢
          cases hout with
          | full msg hno hpin => exact h.update_cache hc hs hc' hsafe hrec hpin
          | collision msg hk hcol hpin => exact h.update_cache hc hs hc' hsafe hrec hpin
          | ok t hno hids hfull hpin =>
              have hnd : t.blockIds.Nodup := by
                rw [hids]
                exact (hsafe.inv.distinct.path_nodup _).sublist (List.take_sublist _ _)
              have hcount := tableCount_set cm ht hnd c'
              have hm : Moves cm (cm.update n c' (cm.blockTables.set (n, r) t)) := by
                refine moves_update hc hs (fun n' b hn' => ?_) hc' hsafe hrec fun b => ?_
                · rw [hcount n' b, if_neg hn']
                  rfl
                · rw [hpin, hs.pin_eq, hcount n b, if_pos rfl]
                  push_cast
                  rfl
              refine ⟨h.of_moves hm (fun n' r' t' ht' => ?_) fun n' r' t' ht' => ?_, hm⟩
              · change (cm.blockTables.set (n, r) t).get? (n', r') = some t' at ht'
                rw [PyDict.get?_set] at ht'
                split at ht'
                · rename_i heq
                  obtain ⟨rfl, -⟩ := Prod.mk.inj heq
                  exact ⟨c, hc⟩
                · exact h.table_node n' r' t' ht'
              · change (cm.blockTables.set (n, r) t).get? (n', r') = some t' at ht'
                rw [PyDict.get?_set] at ht'
                split at ht'
                · obtain rfl := Option.some_inj.1 ht'
                  exact hnd
                · exact h.table_nodup n' r' t' ht'

end Calls

/-! ### Runs -/

/-- The state some calls lead to. -/
def run (cm : CacheManager) (ops : List Op) : CacheManager := ops.foldl apply cm

/-- **Every call keeps the invariant**, whether it returns or raises. -/
theorem apply_spec {cm : CacheManager} (h : cm.Inv) (op : Op) :
    (cm.apply op).Inv ∧ Moves cm (cm.apply op) := by
  cases op with
  | admitTokens clock T n => exact admit_moves h clock T n
  | materialize clock r T n => exact materialize_moves h clock r T n
  | release r n => exact release_moves h r n
  | lookup now request n => exact lookup_moves h now request n

section Reach

variable {nodeIds : List NodeId} {model : ModelConfig} {nodeConfig : NodeConfig}
  {bandwidth : BandwidthConfig}

theorem init_caches {n : NodeId} {c : NodeCache}
    (h : (init nodeIds model nodeConfig bandwidth).caches.get? n = some c) :
    c = NodeCache.init model nodeConfig := by
  have hfold : ∀ (ids : List NodeId) (d : PyDict NodeId NodeCache),
      (ids.foldl (fun d n => d.set n (NodeCache.init model nodeConfig)) d).get? n = some c →
      d.get? n = some c ∨ c = NodeCache.init model nodeConfig := by
    intro ids
    induction ids with
    | nil => intro d hd; exact Or.inl hd
    | cons m ids ih =>
        intro d hd
        rcases ih _ hd with hd | hd
        · rw [PyDict.get?_set] at hd
          split at hd
          · exact Or.inr (Option.some_inj.1 hd).symm
          · exact Or.inl hd
        · exact Or.inr hd
  rcases hfold nodeIds PyDict.empty h with hd | hd
  · simp at hd
  · exact hd

/-- **An empty manager** satisfies the invariant. -/
theorem inv_init : (init nodeIds model nodeConfig bandwidth).Inv where
  node := by
    intro n c hc
    rw [init_caches hc]
    refine ⟨⟨fun _ => none, BlockPool.init nodeConfig⟩,
      ⟨RadixTree.repr_init model.one_le_blockSize, rfl⟩,
      ⟨BlockPool.wf_init nodeConfig, rfl, PathTrie.distinct_empty, ?_, ?_, ?_⟩, fun b => rfl,
      fun t => rfl, ?_, ?_⟩
    · intro b hb
      simp [BlockPool.live, BlockPool.tierOf, BlockPool.init] at hb
    · intro l b hb
      rw [PathTrie.items_of_none rfl] at hb
      simp at hb
    · intro T
      have hnil : PathTrie.path (fun _ => none : PathTrie Token BlockId) T = [] :=
        PathTrie.below_eq_nil fun _ _ _ => rfl
      rw [hnil]
      exact List.Pairwise.nil
    · intro d hd
      simp [NodeCache.init] at hd
    · intro _ l b hb
      rw [PathTrie.items_of_none rfl] at hb
      simp at hb
  table_node := by
    intro n r t ht
    simp [init] at ht
  table_nodup := by
    intro n r t ht
    simp [init] at ht

/-- **Every reachable manager satisfies the invariant.** -/
theorem Reachable.inv {cm : CacheManager}
    (h : Reachable nodeIds model nodeConfig bandwidth cm) : cm.Inv := by
  induction h with
  | init => exact inv_init
  | step op _ ih => exact (apply_spec ih op).1

/-- Further calls lead to reachable managers. -/
theorem Reachable.run {cm : CacheManager} (h : Reachable nodeIds model nodeConfig bandwidth cm)
    (ops : List Op) : Reachable nodeIds model nodeConfig bandwidth (cm.run ops) := by
  induction ops generalizing cm with
  | nil => exact h
  | cons op ops ih => exact ih (h.step op)

/-- The configuration of a reachable manager is that of the empty one. -/
theorem Reachable.config {cm : CacheManager}
    (h : Reachable nodeIds model nodeConfig bandwidth cm) :
    cm.model = model ∧ cm.nodeConfig = nodeConfig ∧ cm.bandwidth = bandwidth := by
  induction h with
  | init => exact ⟨rfl, rfl, rfl⟩
  | step op hr ih =>
      have hm := (apply_spec hr.inv op).2
      exact ⟨hm.model_eq.trans ih.1, hm.nodeConfig_eq.trans ih.2.1, hm.bandwidth_eq.trans ih.2.2⟩

end Reach

end CacheManager

end NanoKVRouter
