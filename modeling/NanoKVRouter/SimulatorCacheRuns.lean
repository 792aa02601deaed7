/-
**The cache in a run of the simulator.**

The handlers use the cache through its interface, so that in a run the manager is in a state that
calls of its methods lead to, and whatever holds of all these states holds in the simulator.  The
block tables follow the streams: a table belongs to a request that runs on its node, so no block is
pinned more often than the node has slots, and when nothing is left to handle nothing is pinned.

Main definitions:

* `Wiring.fresh` — the start with empty caches for the decode nodes;
* `Served` — what holds of the cache and of the assignments in a run;
* `TablesFollow` — every block table belongs to a request in decode.

Main results:

* `Wiring.ReachesFrom.served` — the invariant of a run;
* `Wiring.cache_refines_interface` — **in a run the manager is in a state of its interface**;
* `Wiring.tables_follow_streams` — **tables belong to running requests, and a run that drains the
  event queue leaves neither tables nor pins**.
-/

import NanoKVRouter.CacheTrees
import NanoKVRouter.SimulatorCache
import NanoKVRouter.SimulatorConservation

set_option relaxedAutoImplicit false
set_option autoImplicit false

namespace NanoKVRouter

/-! ### The first event -/

namespace Wiring

variable {ς : Type} {w : Wiring ς} {s s' : Simulator ς}

/-- The simulator before the first event, with empty caches for its decode nodes. -/
def fresh (w : Wiring ς) (sched : ς) (nodeConfig : NodeConfig) (transferModel : TransferModel) :
    Simulator ς :=
  w.start sched (.init w.decodeIds w.modelCfg nodeConfig w.bandwidthCfg) transferModel

/-- A turn that returns does nothing, on an empty queue, or handles the first event. -/
theorem turn_run_cases (h : (SimulationEngine.turn w.handlers).run s = .ok () s') :
    (s.1.queue.events = [] ∧ s' = s) ∨ ∃ ev rest out, ∃ ht : TurnOf w s ev rest out s',
      (w.handle ev.payload).run (s.1.advance ev rest ht.events, s.2) = .ok () s' := by
  by_cases hq : s.1.queue.events = []
  · rw [SimulationEngine.run_turn_nil _ hq, EStateM.Result.ok.injEq] at h
    exact Or.inl ⟨hq, h.2.symm⟩
  · obtain ⟨ev, rest, hcons⟩ := List.exists_cons_of_ne_nil hq
    rw [SimulationEngine.run_turn_cons _ hcons, handlers, Py.run_forM_cons] at h
    obtain ⟨u, s₁, hhandle, hpure⟩ := Py.bind_eq_ok.1 h
    cases hpure
    obtain ⟨out, b, hh, hpush, hb⟩ := handles_of_run hhandle
    exact Or.inr ⟨ev, rest, out, ⟨hcons, hb ▸ hh, hpush⟩, hhandle⟩

end Wiring

/-! ### The interface of the cache -/

/-- What holds of the cache and of the assignments in a run from fresh caches. -/
structure Served {ς : Type} (w : Wiring ς) (nodeConfig : NodeConfig) (s : Simulator ς) : Prop where
  reachable : CacheManager.Reachable w.decodeIds w.modelCfg nodeConfig w.bandwidthCfg s.2.cm
  assigned : ∀ r a, s.2.decisions.get? r = some a →
    a.prefillNode ∈ w.prefillIds ∧ a.decodeNode ∈ w.decodeIds

/-- A manager knows the nodes it was created for. -/
theorem CacheManager.Reachable.mem_keys {nodeIds : List NodeId} {model : ModelConfig}
    {nodeConfig : NodeConfig} {bandwidth : BandwidthConfig} {cm : CacheManager}
    (h : Reachable nodeIds model nodeConfig bandwidth cm) {id : NodeId} (hid : id ∈ nodeIds) :
    id ∈ cm.caches.keys := by
  induction h with
  | init =>
      have hfold : ∀ (ids : List NodeId) (d : PyDict NodeId NodeCache), id ∈ ids ∨ id ∈ d.keys →
          id ∈ (ids.foldl (fun d n => d.set n (NodeCache.init model nodeConfig)) d).keys := by
        intro ids
        induction ids with
        | nil => exact fun d h => h.resolve_left (by simp)
        | cons n ids ih =>
            intro d h
            refine ih _ ?_
            rw [PyDict.mem_keys_set]
            rcases h with h | h
            · rcases List.mem_cons.1 h with rfl | h
              · exact Or.inr (Or.inl rfl)
              · exact Or.inl h
            · exact Or.inr (Or.inr h)
      exact hfold nodeIds .empty (Or.inl hid)
  | @step cm op h ih =>
      obtain ⟨c, hc⟩ := PyDict.exists_get?_of_mem_keys ih
      obtain ⟨s, hs⟩ := h.inv.node id c hc
      obtain ⟨c', -, hc', -⟩ := (apply_spec h.inv op).2.node id c s hc hs
      exact PyDict.mem_keys_of_get? hc'

theorem get?_of_get?_erase {κ ν : Type} [DecidableEq κ] {d : PyDict κ ν} {k a : κ} {v : ν}
    (h : (d.erase k).get? a = some v) : d.get? a = some v := by
  rw [PyDict.get?_erase] at h
  split at h
  · cases h
  · exact h

/-- A release leaves no table of the request on the node, and brings none in. -/
theorem CacheManager.blockTables_release {cm : CacheManager} (h : cm.Inv) (r : RequestId)
    (d : NodeId) : (cm.apply (.release r d)).blockTables.get? (d, r) = none ∧
      ∀ k t, (cm.apply (.release r d)).blockTables.get? k = some t →
        cm.blockTables.get? k = some t := by
  change ((releaseRequest r d).run cm).state.blockTables.get? (d, r) = none ∧
    ∀ k t, ((releaseRequest r d).run cm).state.blockTables.get? k = some t → _
  cases ht : cm.blockTables.get? (d, r) with
  | none =>
      obtain ⟨msg, hrun⟩ := run_releaseRequest_none (Or.inr ht)
      rw [hrun]
      exact ⟨ht, fun _ _ hk => hk⟩
  | some t =>
      obtain ⟨c, hc⟩ := h.table_node d r t ht
      obtain ⟨s, hs⟩ := h.node d c hc
      obtain ⟨q, hrun, -⟩ := NodeCache.releaseBlocks_spec hs.represents hs.inv
        (h.table_nodup d r t ht) fun b hb => hs.pinned_of_table ht hb
      rw [run_releaseRequest hc ht hrun]
      exact ⟨PyDict.get?_erase_self .., fun k t' hk => get?_of_get?_erase hk⟩

section Interface

variable {ς : Type} {w : Wiring ς} {nodeConfig : NodeConfig} {s s' : Simulator ς} {p : Payload}

/-- A handler leads from states of the interface to states of the interface. -/
theorem CacheStep.reachable {nodeIds : List NodeId} {model : ModelConfig}
    {bandwidth : BandwidthConfig} (h : CacheStep s s' p)
    (hr : CacheManager.Reachable nodeIds model nodeConfig bandwidth s.2.cm) :
    CacheManager.Reachable nodeIds model nodeConfig bandwidth s'.2.cm := by
  cases h with
  | queried hp hcm => exact hcm.reachable hr
  | materialized hinfo ha hentered hcm =>
      rw [hcm]
      exact hr.step _
  | released hcm =>
      rw [hcm]
      exact hr.step _

namespace Wiring

/-- The nodes that a scheduler is shown are known to the cache. -/
theorem known_of_reachable {meets : Simulator ς → Action → Prop} (h : w.Reaches meets s)
    (hr : CacheManager.Reachable w.decodeIds w.modelCfg nodeConfig w.bandwidthCfg s.2.cm) :
    ∀ n ∈ w.decodeIds.filterMap s.2.nodes.get?, n.nodeId ∈ s.2.cm.caches.keys := by
  intro n hn
  have hid : n.nodeId ∈ w.decodeIds := by
    rw [← h.nodeIds_eq fun id hid => List.mem_append_right _ hid]
    exact List.mem_map_of_mem hn
  exact hr.mem_keys hid

/-- Only an arrival assigns nodes to a request. -/
theorem assigned_handles {now : Time} {u : ℤ} {b b' : Bookkeeping} {out : List (Time × Payload)}
    (h : Handles w now u b p out b') (hp : ∀ req, p ≠ .requestArrive req) {r : RequestId}
    {a : Assignment} (ha : b'.decisions.get? r = some a) : b.decisions.get? r = some a := by
  cases h with
  | arriveRejected req reason => exact absurd rfl (hp req)
  | arriveAdmitted => exact absurd rfl (hp _)
  | startPipeline => rwa [Bookkeeping.wake_decisions] at ha
  | prefillFinished hpool hn hdec hop hpr hbase ht =>
      obtain ⟨nodes, hb⟩ := hpr.eq_nodes
      subst hb
      exact ha
  | transferRejected => exact get?_of_get?_erase ha
  | transferAccepted hinfo hdec hd hn hroom hadm hop hb =>
      subst hb
      rwa [Bookkeeping.wake_decisions] at ha
  | stepRun hn hwork hop hnd hmem hout hb =>
      subst hb
      rwa [Bookkeeping.wake_decisions] at ha
  | decodeFinished hd hn hop hb =>
      subst hb
      rw [Bookkeeping.wake_decisions] at ha
      exact get?_of_get?_erase ha
  | _ => exact ha

/-- A turn that handles an event, in a run from fresh caches. -/
theorem served_turn (hpolicy : w.policy.Contract) {meets : Simulator ς → Action → Prop}
    (hs : Served w nodeConfig s) (h : w.Reaches meets s) {ev : Event Payload}
    {rest : List (Event Payload)} {out : List (Time × Payload)} (ht : TurnOf w s ev rest out s')
    (hrun : (w.handle ev.payload).run (s.1.advance ev rest ht.events, s.2) = .ok () s') :
    CacheStep (s.1.advance ev rest ht.events, s.2) s' ev.payload ∧ Served w nodeConfig s' := by
  have hnodes := known_of_reachable h hs.reachable
  have hstep := cacheStep_of_run hpolicy (s := (s.1.advance ev rest ht.events, s.2)) hnodes hrun
  refine ⟨hstep, hstep.reachable hs.reachable, fun r a ha => ?_⟩
  by_cases harr : ∃ req, ev.payload = .requestArrive req
  · obtain ⟨req, hreq⟩ := harr
    rw [hreq] at hrun
    rcases decisions_onArrive hpolicy (s := (s.1.advance ev rest ht.events, s.2)) hnodes hrun with
      hsame | ⟨p, hp, d, hd, hset⟩
    · exact hs.assigned r a (hsame ▸ ha)
    · rw [hset] at ha
      by_cases hr : r = req.requestId
      · rw [hr, PyDict.get?_set_self, Option.some_inj] at ha
        rw [← ha]
        rw [h.nodeIds_eq fun id hid => List.mem_append_left _ hid] at hp
        rw [h.nodeIds_eq fun id hid => List.mem_append_right _ hid] at hd
        exact ⟨hp, hd⟩
      · rw [PyDict.get?_set_of_ne _ _ hr] at ha
        exact hs.assigned r a ha
  · exact hs.assigned r a (assigned_handles ht.handles (fun req hreq => harr ⟨req, hreq⟩) ha)

variable {meets : Simulator ς → Action → Prop} {sched : ς} {tm : TransferModel}
  {meets₀ : Simulator Cursors → Action → Prop}

/-- **The invariant of a run** from fresh caches. -/
theorem ReachesFrom.served (hpolicy : w.policy.Contract)
    (h : w.ReachesFrom meets (w.fresh sched nodeConfig tm) s) : Served w nodeConfig s := by
  induction h with
  | refl => exact ⟨.init, fun r a ha => by cases ha⟩
  | @step s s' a h ha hrun ih =>
      cases a with
      | arrive t req =>
          have hc := (run_arrive hrun).2
          exact ⟨hc ▸ ih.reachable, hc ▸ ih.assigned⟩
      | turn =>
          rcases turn_run_cases hrun with ⟨-, rfl⟩ | ⟨ev, rest, out, ht, hhandle⟩
          · exact ih
          · exact (served_turn hpolicy ih (h.reaches (.start ..)) ht hhandle).2

/-- **In a run the manager is in a state of its interface**: with fresh caches and a scheduler that
keeps the contract, some calls of the public methods lead from the empty manager to the manager of
every state that is reached, and every request in flight is assigned to one node of each pool. -/
theorem cache_refines_interface (hpolicy : w.policy.Contract)
    (h : w.ReachesFrom meets (w.fresh sched nodeConfig tm) s) :
    (∃ ops, s.2.cm = (CacheManager.init w.decodeIds w.modelCfg nodeConfig w.bandwidthCfg).run ops) ∧
    ∀ r a, s.2.decisions.get? r = some a →
      a.prefillNode ∈ w.prefillIds ∧ a.decodeNode ∈ w.decodeIds := by
  have hs := h.served hpolicy
  exact ⟨hs.reachable.exists_run, hs.assigned⟩

/-- The start of a small deployment is fresh. -/
theorem reachesFrom_after {acts : List Action} (hm : split.Meets meets₀ acts split.initial)
    (hok : ((split.execute acts).run split.initial).isOk = true) :
    split.ReachesFrom meets₀ (split.fresh {} (smallNode 2 Nat.two_pos) .noop) (split.after acts) :=
  ReachesFrom.execute .refl hm hok

/-- Two requests are in decode. -/
theorem cache_refines_interface_twoArrivals :
    (split.after (twoArrivals.take 17)).2.cm.blockTables.keys = [("d0", "a"), ("d0", "b")] ∧
      ∃ ops, (split.after (twoArrivals.take 17)).2.cm =
        (CacheManager.init ["d0"] unitCosts (smallNode 2 Nat.two_pos) .defaults).run ops := by
  have hm : split.Meets (fun _ _ => True) (twoArrivals.take 17) split.initial := by decide +kernel
  have hok : ((split.execute (twoArrivals.take 17)).run split.initial).isOk = true := by
    decide +kernel
  have hkeys : (split.after (twoArrivals.take 17)).2.cm.blockTables.keys =
    [("d0", "a"), ("d0", "b")] := by decide +kernel
  exact ⟨hkeys, (cache_refines_interface (RoundRobinPolicy.contract _)
    (reachesFrom_after hm hok)).1⟩

end Wiring

end Interface

/-! ### Tables and streams -/

/-- Every block table belongs to a request that is in decode on its node. -/
def TablesFollow (cm : CacheManager) (stage : RequestId → Stage) : Prop :=
  ∀ n r t, cm.blockTables.get? (n, r) = some t → ∃ req a g,
    (stage r = .decoding req a g ∨ stage r = .decoded req a g) ∧ a.decodeNode = n

section Tables

variable {ς : Type} {w : Wiring ς} {nodeConfig : NodeConfig} {s s' : Simulator ς}
  {stage stage' : RequestId → Stage}

/-- A request in decode stays there, unless its completion is handled. -/
theorem Stage.Moves.in_decode {now : Time} {p : Payload} {out : List (Time × Payload)}
    {r : RequestId} {st st' : Stage} (h : Stage.Moves now p out r st st') {n : NodeId}
    (hp : p ≠ .decodeComplete r n)
    (hst : ∃ req a g, (st = .decoding req a g ∨ st = .decoded req a g) ∧ a.decodeNode = n) :
    ∃ req a g, (st' = .decoding req a g ∨ st' = .decoded req a g) ∧ a.decodeNode = n := by
  obtain ⟨req, a, g, rfl | rfl, hn⟩ := hst
  · cases h with
    | stay => exact ⟨req, a, g, Or.inl rfl, hn⟩
    | token => exact ⟨req, a, g + 1, Or.inl rfl, hn⟩
    | last => exact ⟨req, a, g + 1, Or.inr rfl, hn⟩
  · cases h with
    | stay => exact ⟨req, a, g, Or.inr rfl, hn⟩
    | finish hp' => exact absurd (hn ▸ hp') hp

/-- A request whose transfer is over and that has entered decode is in decode. -/
theorem Stage.Moves.entered {now : Time} {p : Payload} {out : List (Time × Payload)}
    {r : RequestId} {req : Request} {a : Assignment} {base : TransferPayload} {st' : Stage}
    (h : Stage.Moves now p out r (.transferring req a base) st') (hst : st'.entered = 1) :
    st' = .decoding req a 0 := by
  cases h with
  | stay => cases hst
  | refuse => cases hst
  | enter => rfl

/-- **The tables follow the streams**, whatever is handled. -/
theorem CacheStep.tablesFollow {now : Time} {p : Payload} {out : List (Time × Payload)}
    (h : CacheStep s s' p) (hinv : s.2.cm.Inv) (hl : Lives w s.2.toBookkeeping p stage)
    (hkept : ∀ r, Kept s'.2.toBookkeeping r (stage' r))
    (hmoves : ∀ r, Stage.Moves now p out r (stage r) (stage' r))
    (ht : TablesFollow s.2.cm stage) : TablesFollow s'.2.cm stage' := by
  intro n r t hget
  cases h with
  | queried hp hcm =>
      rw [hcm.sameShape.blockTables_eq] at hget
      exact (hmoves r).in_decode (hp r n) (ht n r t hget)
  | @materialized base req info a hinfo ha hentered hcm =>
      rw [hcm] at hget
      change ((CacheManager.materializeRequest _ _ _ _).run s.2.cm).state.blockTables.get? (n, r) =
        some t at hget
      have hold : s.2.cm.blockTables.get? (n, r) = some t → ∃ req a g,
          (stage' r = .decoding req a g ∨ stage' r = .decoded req a g) ∧ a.decodeNode = n :=
        fun hget => (hmoves r).in_decode (fun hp => by cases hp) (ht n r t hget)
      rcases CacheManager.blockTables_materialize hinv (fun _ => s.1.now) info.requestId
        info.request.tokenIds a.decodeNode with ⟨t', cm', hrun, -, htab⟩ | ⟨e, cm', hrun, htab⟩
      · rw [hrun, EStateM.Result.state_ok, htab] at hget
        by_cases hr : (n, r) = (a.decodeNode, info.requestId)
        · -- the new table
          obtain ⟨rfl, rfl⟩ := Prod.mk.inj hr
          obtain ⟨a', hst, hinfo'⟩ := hl.transfer_eq
          obtain rfl := Option.some_inj.1 (hinfo.symm.trans hinfo')
          have hassign := (hl.kept base.requestId).assignment
          rw [hst] at hassign
          obtain rfl := Option.some_inj.1 (ha.symm.trans hassign)
          have hcount := (hkept base.requestId).entered
          have hzero := (hl.kept base.requestId).entered
          rw [hst] at hzero
          rw [show s'.2.toBookkeeping.entered = s.2.toBookkeeping.entered ++ [base.requestId] from
            hentered, List.count_append, hzero, List.count_singleton_self] at hcount
          have hmove := hmoves base.requestId
          rw [hst] at hmove
          exact ⟨req, a, 0, Or.inl (hmove.entered hcount.symm), rfl⟩
        · rw [PyDict.get?_set_of_ne _ _ hr] at hget
          exact hold hget
      · rw [hrun, EStateM.Result.state_error, htab] at hget
        exact hold hget
  | @released r' d hcm =>
      have hgone : s'.2.cm.blockTables.get? (d, r') = none ∧
          ∀ k t, s'.2.cm.blockTables.get? k = some t → s.2.cm.blockTables.get? k = some t := by
        rw [hcm]
        exact CacheManager.blockTables_release hinv r' d
      refine (hmoves r).in_decode ?_ (ht n r t (hgone.2 _ _ hget))
      intro hp
      obtain ⟨rfl, rfl⟩ := Payload.decodeComplete.inj hp
      rw [hgone.1] at hget
      cases hget

namespace Wiring

variable {sched : ς} {tm : TransferModel}

/-- With disjoint pools and distinct ids the requests are in their stages, and the tables follow
them. -/
theorem ReachesFrom.tablesFollow (hpolicy : w.policy.Contract)
    (hpools : ∀ id ∈ w.prefillIds, id ∉ w.decodeIds)
    (h : w.ReachesFrom DistinctArrivals (w.fresh sched nodeConfig tm) s) :
    ∃ stage, Staged w s stage ∧ TablesFollow s.2.cm stage := by
  induction h with
  | refl => exact ⟨_, staged_start w _ _ _, fun n r t ht => by cases ht⟩
  | @step s s' a h ha hrun ih =>
      obtain ⟨stage, hst, ht⟩ := ih
      cases a with
      | arrive time req =>
          obtain ⟨hpush, hc⟩ := run_arrive hrun
          refine ⟨_, hst.arrive ha hpush hc, fun n r t hget => ?_⟩
          rw [hc] at hget
          obtain ⟨req', a, g, hr, hn⟩ := ht n r t hget
          refine ⟨req', a, g, ?_, hn⟩
          have hne : r ≠ req.requestId := by
            rintro rfl
            rw [hst.absent ha] at hr
            rcases hr with hr | hr <;> cases hr
          rwa [if_neg hne]
      | turn =>
          rcases turn_run_cases hrun with ⟨-, rfl⟩ | ⟨ev, rest, out, hturn, hhandle⟩
          · exact ⟨stage, hst, ht⟩
          · have hserved := h.served hpolicy
            obtain ⟨hstep, -⟩ := served_turn hpolicy hserved (h.reaches (.start ..)) hturn hhandle
            obtain ⟨stage', hst', hmoves⟩ := hturn.staged hst (hst.noneQueued hpools)
            exact ⟨stage', hst', hstep.tablesFollow hserved.reachable.inv (hturn.lives hst)
              hst'.kept hmoves ht⟩

end Wiring

/-- When no event is left, no table is left. -/
theorem Staged.no_tables (h : Staged w s stage) (ht : TablesFollow s.2.cm stage)
    (ha : Awake s.stepCount s.2.nodes) (hq : s.1.queue.events = []) :
    s.2.cm.blockTables.entries = [] := by
  rw [List.eq_nil_iff_forall_not_mem]
  rintro ⟨⟨n, r⟩, t⟩ hmem
  obtain ⟨req, a, g, hr, -⟩ := ht n r t (PyDict.get?_eq_some_iff.2 hmem)
  have hgone := h.isGone ha hq r
  rcases hr with hr | hr
  · rw [hr] at hgone
    exact hgone
  · rw [hr] at hgone
    exact hgone

/-- A request that is in decode runs on its node. -/
theorem Staged.runs_of_table (h : Staged w s stage) (ht : TablesFollow s.2.cm stage) {n : NodeId}
    {r : RequestId} {t : RequestBlockTable} (hget : s.2.cm.blockTables.get? (n, r) = some t) :
    ∃ p node, s.2.decisions.get? r = some ⟨p, n⟩ ∧ n ∈ w.decodeIds ∧
      s.2.nodes.get? n = some node ∧ r ∈ node.runningRequests := by
  obtain ⟨req, a, g, hr, rfl⟩ := ht n r t hget
  have hassign := (h.kept r).assignment
  have hview := (h.kept r).node a.decodeNode
  have hvalid := h.valid r
  have hdecode : (stage r).assignment = some a ∧ ((stage r).node a.decodeNode).running = 1 ∧
      a.decodeNode ∈ w.decodeIds := by
    rcases hr with hr | hr
    · rw [hr] at hvalid ⊢
      exact ⟨rfl, by rw [Stage.node, only_self]; rfl, hvalid.2.1⟩
    · rw [hr] at hvalid ⊢
      exact ⟨rfl, by rw [Stage.node, only_self]; rfl, hvalid.2.1⟩
  cases hn : s.2.nodes.get? a.decodeNode with
  | none =>
      rw [Bookkeeping.nodeView, show s.2.toBookkeeping.nodes.get? a.decodeNode = none from hn]
        at hview
      rw [← hview] at hdecode
      cases hdecode.2.1
  | some node =>
      refine ⟨a.prefillNode, node, hassign.trans hdecode.1, hdecode.2.2, rfl, ?_⟩
      rw [Bookkeeping.nodeView_of_get? hn] at hview
      rw [← hview] at hdecode
      exact List.count_pos_iff.1 (Nat.one_pos.trans_eq hdecode.2.1.symm)

/-- The tables of a node that list a block are at most as many as requests run on the node. -/
theorem tableCount_le {cm : CacheManager} {n : NodeId} {running : List RequestId} (b : BlockId)
    (h : ∀ r t, cm.blockTables.get? (n, r) = some t → r ∈ running) :
    cm.tableCount n b ≤ running.length := by
  let es := cm.blockTables.entries.filter (CacheManager.lists n b)
  have hnode : ∀ e ∈ es, e.1 = (n, e.1.2) := by
    intro e he
    have hlists := of_decide_eq_true (List.mem_filter.1 he).2
    exact Prod.ext hlists.1 rfl
  have hkeys : (es.map Prod.fst).Nodup :=
    cm.blockTables.keys_nodup.sublist (List.filter_sublist.map _)
  have hnd : (es.map fun e => e.1.2).Nodup := by
    refine List.Nodup.map_on (fun e he e' he' heq => ?_) hkeys.of_map
    refine List.inj_on_of_nodup_map hkeys he he' ?_
    rw [hnode e he, hnode e' he', heq]
  have hsub : es.map (fun e => e.1.2) ⊆ running := by
    intro r hr
    obtain ⟨e, he, rfl⟩ := List.mem_map.1 hr
    refine h e.1.2 e.2 (PyDict.get?_eq_some_iff.2 ?_)
    rw [← hnode e he]
    exact (List.mem_filter.1 he).1
  have hle := (hnd.subperm hsub).length_le
  rwa [List.length_map, ← List.countP_eq_length_filter] at hle

namespace Wiring

variable {sched : ς} {tm : TransferModel}

/-- **Tables follow streams**: with disjoint pools, distinct ids, fresh caches and a scheduler that
keeps the contract, in every state that is reached a block table belongs to a request that runs on
its decode node; so a block is pinned at most as often as the node has slots.  When no event is left,
no table is left, and no block of any node is pinned or referenced. -/
theorem tables_follow_streams (hpolicy : w.policy.Contract)
    (hpools : ∀ id ∈ w.prefillIds, id ∉ w.decodeIds)
    (h : w.ReachesFrom DistinctArrivals (w.fresh sched nodeConfig tm) s) :
    (∀ n r t, s.2.cm.blockTables.get? (n, r) = some t →
      ∃ p node, s.2.decisions.get? r = some ⟨p, n⟩ ∧ n ∈ w.decodeIds ∧
        s.2.nodes.get? n = some node ∧ r ∈ node.runningRequests) ∧
    (∀ n c node b, s.2.cm.caches.get? n = some c → s.2.nodes.get? n = some node →
      c.pool.pinCountOf b ≤ node.nodeConfig.capacity) ∧
    (s.1.queue.events = [] → s.2.cm.blockTables.entries = [] ∧
      ∀ n c b, s.2.cm.caches.get? n = some c →
        c.pool.pinCountOf b = 0 ∧ c.pool.refCountOf b = 0) := by
  obtain ⟨stage, hst, ht⟩ := h.tablesFollow hpolicy hpools
  have hinv := (h.served hpolicy).reachable.inv
  refine ⟨fun n r t hget => hst.runs_of_table ht hget, fun n c node b hc hn => ?_, fun hq => ?_⟩
  · rw [hinv.pinCountOf_eq hc]
    have hle : s.2.cm.tableCount n b ≤ node.runningRequests.length := by
      refine tableCount_le b fun r t hget => ?_
      obtain ⟨p, node', -, -, hn', hr⟩ := hst.runs_of_table ht hget
      obtain rfl := Option.some_inj.1 (hn.symm.trans hn')
      exact hr
    exact_mod_cast hle.trans (hst.fits n node hn).running_le
  · have hnil := hst.no_tables ht (h.reaches (.start ..)).awake hq
    refine ⟨hnil, fun n c b hc => ?_⟩
    have hzero : s.2.cm.tableCount n b = 0 := by
      rw [CacheManager.tableCount, hnil]
      rfl
    obtain ⟨cs, hcs⟩ := hinv.node n c hc
    refine ⟨by rw [hinv.pinCountOf_eq hc, hzero]; rfl, ?_⟩
    rw [hcs.represents.pool, hcs.inv.pool_wf.ref_eq_pin, hcs.pin_eq, hzero]
    rfl

theorem tables_follow_streams_twoArrivals :
    (split.after (twoArrivals.take 17)).2.cm.blockTables.keys = [("d0", "a"), ("d0", "b")] ∧
      (∀ n r t, (split.after (twoArrivals.take 17)).2.cm.blockTables.get? (n, r) = some t →
        ∃ p node, (split.after (twoArrivals.take 17)).2.decisions.get? r = some ⟨p, n⟩ ∧
          n ∈ split.decodeIds ∧ (split.after (twoArrivals.take 17)).2.nodes.get? n = some node ∧
          r ∈ node.runningRequests) ∧
      (split.after twoArrivals).2.cm.blockTables.entries = [] := by
  have hm : split.Meets DistinctArrivals twoArrivals split.initial := by decide +kernel
  have hok : ((split.execute twoArrivals).run split.initial).isOk = true := by decide +kernel
  have hm' : split.Meets DistinctArrivals (twoArrivals.take 17) split.initial := by
    decide +kernel
  have hok' : ((split.execute (twoArrivals.take 17)).run split.initial).isOk = true := by
    decide +kernel
  have hpools : ∀ id ∈ split.prefillIds, id ∉ split.decodeIds := by decide +kernel
  have hkeys : (split.after (twoArrivals.take 17)).2.cm.blockTables.keys =
    [("d0", "a"), ("d0", "b")] := by decide +kernel
  have hq : (split.after twoArrivals).1.queue.events = [] := by decide +kernel
  exact ⟨hkeys, (tables_follow_streams (RoundRobinPolicy.contract _) hpools
    (reachesFrom_after hm' hok')).1, ((tables_follow_streams (RoundRobinPolicy.contract _) hpools
    (reachesFrom_after hm hok)).2.2 hq).1⟩

end Wiring

end Tables

end NanoKVRouter
