/-
**Progress of the simulator.**

A handler reads maps by key, calls node methods that insist on a running request and schedules events
that must not lie in the past.  In a run none of this fails: the stages say where every request is,
and the flags of the nodes that no step is scheduled twice.  The one exception that leaves a handler
is that of a prompt whose block table collides with blocks that have been freed below it.

Main definitions:

* `At` — the clock, the bookkeeping and a property of the cache at a place of a handler;
* `Simulator.Collides` — the first event is the end of a transfer whose prompt collides.

Main results:

* `At.scheduleAt`, `At.onNode` and so on — the rules for the calls of the handlers;
* `Wiring.turn_progress` — **in a run a turn of the engine raises exactly when the prompt of a
  request that enters decode collides in the cache of its decode node**.
-/

import NanoKVRouter.MockNodeRuns
import NanoKVRouter.RequestLogs
import NanoKVRouter.SimulatorCacheRuns

set_option relaxedAutoImplicit false
set_option autoImplicit false

namespace NanoKVRouter

/-! ### Calls of the handlers -/

/-- The clock reads `now`, the bookkeeping is `b`, and `P` holds of the cache. -/
structure At {ς : Type} (now : Time) (b : Bookkeeping) (P : CacheManager → Prop)
    (s : Simulator ς) : Prop where
  now_eq : s.1.now = now
  bookkeeping : s.2.toBookkeeping = b
  cache : P s.2.cm

namespace MockEngineNode

variable {n n' : MockEngineNode} {r : RequestId}

/-- A method that insists on a running request finds it. -/
theorem run_requireRunning_ok {method : String} (hr : r ∈ n.runningRequests)
    (f : MockEngineNode → MockEngineNode) :
    (requireRunning method r >>= fun _ => modify f).run n = .ok () (f n) := by
  simp only [requireRunning, EStateM.run_bind, EStateM.run_get, hr, if_true, EStateM.run_pure,
    EStateM.run_modify]

/-- The request that a completion promotes runs. -/
theorem mem_running_of_promoted {q : RequestId} (h : Completes n r (some q) n') :
    q ∈ n'.runningRequests := by
  rcases h with h | ⟨hq, -⟩
  swap
  · cases hq
  by_cases hmem : r ∈ n.runningRequests ∨ r ∈ n.queue
  · rw [run_complete hmem, EStateM.Result.ok.injEq] at h
    rw [← h.2, afterPromote, h.1, modifyState_runningRequests]
    exact List.mem_append_right _ (List.mem_singleton_self q)
  · rw [not_or] at hmem
    rw [run_complete_absent hmem.1 hmem.2] at h
    cases h

end MockEngineNode

/-- A batch step does not go back in time. -/
theorem MockEngineNode.Ticked.now_le {n n' : MockEngineNode} {now T : Time}
    {completed : List RequestId} {pf : Option RequestId} (h : Ticked n now T completed pf n')
    (hu : ∀ q u, n.prefillRemaining.get? q = some u → 0 ≤ u) : now ≤ T := by
  by_cases hd : n.decoding.Nonempty
  · obtain ⟨r, hr⟩ := hd
    exact (h.now_lt hr hu).le
  · have hcard : ¬ 0 < n.decoding.card := fun hpos => hd (Finset.card_pos.1 hpos)
    rcases h.pipeline with ⟨-, -, -, hT⟩ | ⟨q, u, rest, hent, hT, -⟩
    · rw [hT, if_neg hcard, add_zero]
    · have hq : n.prefillRemaining.get? q = some u :=
        PyDict.get?_eq_some_iff.2 (hent ▸ List.mem_cons_self ..)
      have hmin : (0 : ℤ) ≤ min u n.modelConfig.prefillChunkSize := le_min (hu q u hq) (by omega)
      rw [hT, if_neg hcard, add_zero]
      exact le_add_of_nonneg_right (mul_nonneg (by exact_mod_cast hmin)
        n.modelConfig.prefillCostPerTokenMs_pos.le)

/-- A release returns, or raises `KeyError`. -/
theorem CacheManager.releaseRequest_cases {cm : CacheManager} (h : cm.Inv) (r : RequestId)
    (d : NodeId) : (∃ cm', (releaseRequest r d).run cm = .ok () cm') ∨
      ∃ msg, (releaseRequest r d).run cm = .error (.keyError msg) cm := by
  cases ht : cm.blockTables.get? (d, r) with
  | none => exact Or.inr (run_releaseRequest_none (Or.inr ht))
  | some t =>
      obtain ⟨c, hc⟩ := h.table_node d r t ht
      obtain ⟨s, hs⟩ := h.node d c hc
      obtain ⟨q, hrun, -⟩ := NodeCache.releaseBlocks_spec hs.represents hs.inv
        (h.table_nodup d r t ht) fun b hb => hs.pinned_of_table ht hb
      exact Or.inl ⟨_, run_releaseRequest hc ht hrun⟩

/-- A lookup raises `KeyError` at most. -/
theorem CacheManager.isKeyError_of_lookup {cm cm' : CacheManager} {now : Time} {request : Request}
    {d : NodeId} {e : PyErr} (h : (lookup now request d).run cm = .error e cm') :
    e.isKeyError = true := by
  by_cases hd : d ∈ cm.caches.keys
  · obtain ⟨l, cm'', hrun, -⟩ := lookup_returns cm now request hd cm .refl
    rw [hrun] at h
    cases h
  · rw [run_lookup_unknown now request hd] at h
    cases h
    rfl

namespace At

variable {ς α β : Type} {now t : Time} {b : Bookkeeping} {P Q : CacheManager → Prop}
  {id : NodeId} {n n' : MockEngineNode} {r : RequestId}

/-- An event that does not lie in the past is scheduled. -/
theorem scheduleAt (ht : now ≤ t) (p : Payload) :
    Py.Returns (At (ς := ς) now b P) (scheduleAt t p) fun _ => At now b P := by
  intro s hs
  have hle : s.1.currentTime ≤ t := hs.now_eq.le.trans ht
  exact ⟨(), _, Py.run_onPart_eq_ok.2 ⟨_, SimulationEngine.run_schedule_ok_iff.2 ⟨hle, rfl⟩, rfl⟩,
    hs.now_eq, hs.bookkeeping, hs.cache⟩

/-- A node of the pool is found. -/
theorem nodeOf {pool : List NodeId} (hid : id ∈ pool) (hn : b.nodes.get? id = some n) :
    Py.Returns (At (ς := ς) now b P) (nodeOf pool id) fun m s => m = n ∧ At now b P s := by
  intro s hs
  have hn' : s.2.nodes.get? id = some n := by
    rw [← hs.bookkeeping] at hn
    exact hn
  refine ⟨n, s, ?_, rfl, hs⟩
  rw [NanoKVRouter.nodeOf, Py.run_get_bind]
  simp only [hid, if_true, hn']
  rfl

/-- A method of a node that returns. -/
theorem onNode {m : Py MockEngineNode α} {a : α} (hn : b.nodes.get? id = some n)
    (hrun : m.run n = .ok a n') :
    Py.Returns (At (ς := ς) now b P) (onNode id m) fun x s =>
      x = a ∧ At now (b.setNode id n') P s := by
  intro s hs
  have hn' : s.2.nodes.get? id = some n := by
    rw [← hs.bookkeeping] at hn
    exact hn
  have hput : (NanoKVRouter.onNode id m).run s =
      .ok a (s.1, { s.2 with nodes := s.2.nodes.set id n' }) := by
    rw [NanoKVRouter.onNode, Py.run_get_bind, hn']
    exact Py.run_onPart_ok hrun
  refine ⟨a, _, hput, rfl, hs.now_eq, ?_, hs.cache⟩
  rw [← hs.bookkeeping]
  rfl

/-- An update of the bookkeeping. -/
theorem modifyCluster {f : Cluster ς → Cluster ς} (g : Bookkeeping → Bookkeeping)
    (hf : ∀ c, (f c).toBookkeeping = g c.toBookkeeping) (hcm : ∀ c, (f c).cm = c.cm) :
    Py.Returns (At now b P) (modifyCluster f) fun _ => At now (g b) P := by
  refine Py.Returns.modify fun s hs => ⟨hs.now_eq, ?_, ?_⟩
  · rw [hf, hs.bookkeeping]
  · rw [hcm]
    exact hs.cache

/-- A known node is woken. -/
theorem wakeBatchStep (hn : b.nodes.get? id = some n) (ht : now ≤ t) :
    Py.Returns (At (ς := ς) now b P) (wakeBatchStep id t) fun _ _ => True := by
  refine .read fun s hs => ?_
  have hn' : s.2.nodes.get? id = some n := by
    rw [← hs.bookkeeping] at hn
    exact hn
  rw [hn']
  refine .ite (fun hw => ?_) fun _ => .pure fun _ _ => trivial
  refine (scheduleAt ht _).bind fun _ => ?_
  rw [Bool.and_eq_true, Bool.not_eq_true'] at hw
  exact (onNode hn (run_markBatchStepScheduled hw.2)).weaken fun _ _ _ => trivial

/-- A completion returns, whether the request is there or not. -/
theorem completeOn (hn : b.nodes.get? id = some n) :
    ∃ pr n', Completes n r pr n' ∧ Py.Returns (At (ς := ς) now b P) (completeOn id r)
      fun x s => x = pr ∧ At now ((b.setNode id n').promoted id pr) P s := by
  by_cases hmem : r ∈ n.runningRequests ∨ r ∈ n.queue
  · have hrun := MockEngineNode.run_complete hmem
    refine ⟨_, _, Or.inl hrun, (Py.Returns.onExcept (onNode hn hrun)).bind_val ?_⟩
    cases (n.without r).nextPromoted with
    | none => exact .pure fun s hs => ⟨rfl, by simpa [Bookkeeping.promoted] using hs⟩
    | some q =>
        refine Py.Returns.bind (modifyCluster (fun b => b.promoted id (some q)) ?_ ?_) fun _ =>
          .pure fun s hs => ⟨rfl, hs⟩
        · exact fun _ => rfl
        · exact fun _ => rfl
  · rw [not_or] at hmem
    refine ⟨none, n, Or.inr ⟨rfl, rfl, hmem.1, hmem.2⟩, ?_⟩
    refine Py.Returns.bind_val (a := none) (S := At now b P) ?_ (.pure fun s hs => ⟨rfl, ?_⟩)
    · refine Py.Returns.orElse (E := At now b P) (fun s hs => Or.inr ?_) (.pure fun s hs => ⟨rfl, hs⟩)
      have hn' : s.2.nodes.get? id = some n := by
        rw [← hs.bookkeeping] at hn
        exact hn
      refine ⟨.valueError "list.remove(x): x not in list", s, ?_, rfl, hs⟩
      rw [NanoKVRouter.onNode, Py.run_get_bind, hn']
      refine (Py.run_onPart_error (MockEngineNode.run_complete_absent hmem.1 hmem.2)).trans ?_
      rw [PyDict.set_of_get? hn']
    · rw [Bookkeeping.setNode, PyDict.set_of_get? hn]
      simpa [Bookkeeping.promoted] using hs

/-- A lookup returns, or raises the exception that is caught; what lookups keep is kept. -/
theorem computeUncachedTokens
    (hlookup : ∀ now request nodeId, Py.Keeps P (CacheManager.lookup now request nodeId))
    (req : Request) (d : NodeId) :
    Py.Returns (At (ς := ς) now b P) (computeUncachedTokens req d) fun _ => At now b P := by
  refine .read fun s hs => Py.Returns.bind (Q := fun _ => At now b P) ?_ fun m =>
    .pure fun _ hs => hs
  refine Py.Returns.orElse (E := At now b P) (fun t ht => ?_) (.pure fun _ hs => hs)
  have hstate := hlookup s.1.now req d t.2.cm ht.cache
  cases hrun : (CacheManager.lookup s.1.now req d).run t.2.cm with
  | ok l cm =>
      rw [hrun] at hstate
      exact Or.inl ⟨_, _, Py.run_onPart_ok (Py.run_bind_ok hrun), ht.now_eq, ht.bookkeeping, hstate⟩
  | error e cm =>
      rw [hrun] at hstate
      refine Or.inr ⟨e, _, Py.run_onPart_error (Py.run_bind_error hrun), ?_, ht.now_eq,
        ht.bookkeeping, hstate⟩
      exact CacheManager.isKeyError_of_lookup hrun

theorem startPrefill
    (hlookup : ∀ now request nodeId, Py.Keeps P (CacheManager.lookup now request nodeId))
    (req : Request) (r : RequestId) (p d : NodeId) (chunkSize : ℕ) :
    Py.Returns (At (ς := ς) now b P) (Wiring.startPrefill req r p d chunkSize)
      fun _ => At now b P := by
  refine Py.Returns.bind (Q := fun _ => At now b P) ?_ fun k => .read fun s hs =>
    scheduleAt hs.now_eq.ge _
  exact (computeUncachedTokens hlookup req d).bind fun _ => .pure fun _ hs => hs

/-- A promoted request that runs on its node is started. -/
theorem startPromoted
    (hlookup : ∀ now request nodeId, Py.Keeps P (CacheManager.lookup now request nodeId))
    (hn : b.nodes.get? id = some n) (hr : r ∈ n.runningRequests) (chunkSize : ℕ) :
    Py.Returns (At (ς := ς) now b P) (Wiring.startPromoted id r chunkSize)
      fun _ s => ∃ b', At now b' P s := by
  refine .read fun s hs => ?_
  dsimp only
  split
  · rename_i req decision _ _
    refine (computeUncachedTokens hlookup req decision.decodeNode).bind fun u => ?_
    exact (onNode hn (MockEngineNode.run_requireRunning_ok hr _)).bind_val
      ((startPrefill hlookup _ _ _ _ _).weaken fun _ _ h => ⟨_, h⟩)
  · exact .pure fun s hs => ⟨b, hs⟩

/-- The pair of transfer events lies in the future. -/
theorem startTransfer (w : Wiring ς) (r : RequestId) (req : Request) (a : Assignment) :
    Py.Returns (At (ς := ς) now b P) (w.startTransfer r req a) fun _ _ => True := by
  refine .read fun s hs => ?_
  dsimp only
  have hstart := s.2.transferModel.now_le_start a.prefillNode a.decodeNode s.1.now
    (transferServiceMs req.tokenIds.length w.modelCfg.kvBytesPerToken w.bandwidthCfg.gpuToGpu)
  rw [hs.now_eq] at hstart ⊢
  have hfinish := hstart.trans ((le_add_of_nonneg_right (transferServiceMs_nonneg
    req.tokenIds.length w.modelCfg.kvBytesPerToken w.bandwidthCfg.gpuToGpu_pos)).trans_eq
      (TransferModel.finish_eq ..).symm)
  refine Py.Returns.bind (modifyCluster (fun b => b) ?_ ?_) fun _ => ?_
  · exact fun _ => rfl
  · exact fun _ => rfl
  refine Py.Returns.bind (Q := fun _ s => ∃ b', At now b' P s) ?_ fun tid => ?_
  · refine .read fun t _ => Py.Returns.bind (modifyCluster (fun b => { b with
      transferCounter := b.transferCounter.set r (t.2.transferCounter.getD r 0 + 1) }) ?_ ?_)
        fun _ => .pure fun _ hs => ⟨_, hs⟩
    · exact fun _ => rfl
    · exact fun _ => rfl
  rintro t ⟨b', ht⟩
  refine Py.Returns.bind (P := At now b' P) (Q := fun _ s => ∃ b', At now b' P s) ?_ (fun _ => ?_)
    t ht
  · intro u hu
    exact ⟨(), _, rfl, _, hu.now_eq, rfl, hu.cache⟩
  · rintro u ⟨b'', hu⟩
    exact ((scheduleAt hstart _).bind fun _ => (scheduleAt hfinish _).weaken fun _ _ _ => trivial)
      u hu

/-! ### Handlers -/

/-- The start of a prefill of a request that runs. -/
theorem onPrefillStart
    (hlookup : ∀ now request nodeId, Py.Keeps P (CacheManager.lookup now request nodeId))
    {w : Wiring ς} (hid : id ∈ w.prefillIds) (hn : b.nodes.get? id = some n)
    (hr : r ∈ n.runningRequests) (req : Request) :
    Py.Returns (At now b P) (w.onPrefillStart r id req) fun _ _ => True := by
  refine (nodeOf hid hn).bind_val (.read fun s hs => ?_)
  refine (computeUncachedTokens hlookup _ _).bind fun u => .read fun t ht => .ite ?_ ?_
  · exact fun _ => (onNode hn (MockEngineNode.run_requireRunning_ok hr _)).bind_val
      ((scheduleAt ht.now_eq.ge _).weaken fun _ _ _ => trivial)
  · exact fun _ => (onNode hn (MockEngineNode.run_requireRunning_ok hr _)).bind_val
      (wakeBatchStep (PyDict.get?_set_self ..) ht.now_eq.ge)

/-- The end of a prefill. -/
theorem onPrefillComplete
    (hlookup : ∀ now request nodeId, Py.Keeps P (CacheManager.lookup now request nodeId))
    {w : Wiring ς} (hid : id ∈ w.prefillIds) (hn : b.nodes.get? id = some n) (req : Request) :
    Py.Returns (At now b P) (w.onPrefillComplete r id req) fun _ _ => True := by
  refine (nodeOf hid hn).bind_val (.read fun s hs => ?_)
  split
  · exact .pure fun _ _ => trivial
  · obtain ⟨pr, n', hcomp, hrun⟩ := @completeOn ς now b P id n r hn
    refine hrun.bind_val ?_
    cases pr with
    | none =>
        dsimp only
        exact startTransfer w r req _
    | some q =>
        dsimp only
        have hn' : ((b.setNode id n').promoted id (some q)).nodes.get? id = some n' :=
          PyDict.get?_set_self ..
        refine (startPromoted hlookup hn' (MockEngineNode.mem_running_of_promoted hcomp) _).bind
          fun _ => ?_
        rintro t ⟨b', ht⟩
        exact startTransfer w r req _ t ht

/-- The token events of streams that have a counter. -/
theorem emitTokens (hn : b.nodes.get? id = some n) (ht : now ≤ t) : ∀ (rs : List RequestId),
    (∀ r ∈ rs, (n.outputTokens.get? r).isSome) →
    Py.Returns (At (ς := ς) now b P) (Wiring.emitTokens id t rs) fun _ => At now b P := by
  intro rs
  induction rs with
  | nil => exact fun _ => .pure fun _ hs => hs
  | cons r rs ih =>
      intro hrs
      refine .read fun s hs => ?_
      have hn' : s.2.nodes.get? id = some n := by
        rw [← hs.bookkeeping] at hn
        exact hn
      obtain ⟨g, hg⟩ := Option.isSome_iff_exists.1 (hrs r List.mem_cons_self)
      simp only [hn', hg]
      exact (scheduleAt ht _).bind fun _ => ih fun q hq => hrs q (List.mem_cons_of_mem _ hq)

theorem emitCompletions (ht : now ≤ t) : ∀ (rs : List RequestId),
    Py.Returns (At (ς := ς) now b P) (Wiring.emitCompletions id t rs) fun _ => At now b P := by
  intro rs
  induction rs with
  | nil => exact .pure fun _ hs => hs
  | cons r rs ih => exact (scheduleAt ht _).bind fun _ => ih

theorem emitPrefillComplete (ht : now ≤ t) (pf : Option RequestId) :
    Py.Returns (At (ς := ς) now b P) (Wiring.emitPrefillComplete id t pf) fun _ => At now b P := by
  cases pf with
  | none => exact .pure fun _ hs => hs
  | some r =>
      refine .read fun s hs => ?_
      split
      · exact .pure fun _ hs => hs
      · exact scheduleAt ht _

/-- The events of a batch step, once the node has ticked. -/
theorem endStep {w : Wiring ς} {now₀ T : Time} {completed : List RequestId}
    {pf : Option RequestId} (hid : id ∈ w.prefillIds ++ w.decodeIds)
    (hn : b.nodes.get? id = some n') (hT : now ≤ T)
    (hticked : MockEngineNode.Ticked n now₀ T completed pf n') :
    Py.Returns (At (ς := ς) now b P) (do
      let node ← NanoKVRouter.nodeOf (w.prefillIds ++ w.decodeIds) id
      let streams := w.streamOrder.iter (← get).1.seqCounter (node.decoding ∪ completed.toFinset)
      Wiring.emitTokens id T streams
      Wiring.emitCompletions id T completed
      NanoKVRouter.wakeBatchStep id T) fun _ _ => True := by
  refine (nodeOf hid hn).bind_val (.read fun u hu => ?_)
  refine Py.Returns.bind (emitTokens hn hT _ fun r hr => ?_) fun _ =>
    (emitCompletions hT _).bind fun _ => wakeBatchStep hn hT
  -- every stream of the step has been counted
  have hdec : r ∈ n.decoding := by
    rw [w.streamOrder.mem_iff, Finset.mem_union, List.mem_toFinset] at hr
    rcases hr with hr | hr
    · exact ((hticked.decoding r).1 hr).1
    · exact hticked.completed_sub r hr
  obtain ⟨g, e, -, -, hout, -⟩ := hticked.outputTokens r hdec
  rw [hout]
  rfl

/-- A batch step of a node whose streams have counters. -/
theorem onDecodeBatchStep {w : Wiring ς} (hid : id ∈ w.prefillIds ++ w.decodeIds)
    (hn : b.nodes.get? id = some n) (hcounted : n.Counted (sortedIds n.decoding))
    (hpipe : ∀ q u, n.prefillRemaining.get? q = some u → 0 ≤ u) :
    Py.Returns (At now b P) (w.onDecodeBatchStep id) fun _ _ => True := by
  refine .read fun s hs => (nodeOf hid hn).bind_val ?_
  have hmark : MockEngineNode.markBatchStepCompleted.run n =
    .ok () { n with batchStepInFlight := false } := rfl
  refine (onNode hn hmark).bind_val (.ite ?_ ?_)
  swap
  · exact fun _ => Py.Returns.modify fun _ _ => trivial
  intro hwork
  have hn₁ : (b.setNode id { n with batchStepInFlight := false }).nodes.get? id =
    some { n with batchStepInFlight := false } := PyDict.get?_set_self ..
  obtain ⟨T, completed, pf, n', htick, -⟩ := MockEngineNode.run_tickBatchStep_ok
    (n := { n with batchStepInFlight := false }) hwork hcounted now
  have hticked := (MockEngineNode.ticked_of_run htick).2
  have hT : now ≤ T := hticked.now_le hpipe
  refine .read fun t ht => (nodeOf hid hn₁).bind_val ?_
  rw [ht.now_eq]
  refine (onNode hn₁ htick).bind_val ?_
  refine Py.Returns.bind (modifyCluster (fun b => { b with steps := b.steps ++
    [⟨id, now, some (n.decoding.card, T)⟩] }) ?_ ?_) fun _ => ?_
  · exact fun _ => rfl
  · exact fun _ => rfl
  exact (emitPrefillComplete hT pf).bind fun _ =>
    endStep hid (PyDict.get?_set_self ..) hT hticked

/-- The end of a stream on a decode node. -/
theorem onDecodeComplete {w : Wiring ς} (hid : id ∈ w.decodeIds) (hn : b.nodes.get? id = some n) :
    Py.Returns (At now b CacheManager.Inv) (w.onDecodeComplete r id) fun _ _ => True := by
  obtain ⟨pr, n', -, hrun⟩ := @completeOn ς now b CacheManager.Inv id n r hn
  refine (nodeOf hid hn).bind_val (hrun.bind_val ?_)
  refine Py.Returns.bind (Q := fun _ => At now ((b.setNode id n').promoted id pr)
    CacheManager.Inv) ?_ fun _ => ?_
  · refine Py.Returns.orElse (E := At now ((b.setNode id n').promoted id pr) CacheManager.Inv)
      (fun s hs => ?_) (.pure fun _ hs => hs)
    have hinv := (CacheManager.release_moves hs.cache r id).1
    rcases CacheManager.releaseRequest_cases hs.cache r id with ⟨cm, hrel⟩ | ⟨msg, hrel⟩
    · rw [hrel] at hinv
      exact Or.inl ⟨_, _, Py.run_onPart_ok hrel, hs.now_eq, hs.bookkeeping, hinv⟩
    · rw [hrel] at hinv
      exact Or.inr ⟨_, _, Py.run_onPart_error hrel, rfl, hs.now_eq, hs.bookkeeping, hinv⟩
  · refine Py.Returns.bind (modifyCluster (fun b => b.drop r) ?_ ?_) fun _ => .read fun s hs => ?_
    · exact fun _ => rfl
    · exact fun _ => rfl
    · exact wakeBatchStep (PyDict.get?_set_self ..) hs.now_eq.ge

end At

/-! ### Arrivals and transfers -/

section Handlers

variable {ς : Type} {w : Wiring ς} {s s' : Simulator ς} {u : Unit}

/-- An arrival is handled, whatever the scheduler decides. -/
theorem onArrive_returns (hpolicy : w.policy.Contract)
    (hnodes : ∀ id ∈ w.prefillIds, ∃ n, s.2.nodes.get? id = some n)
    (hprefill : (w.prefillIds.filterMap s.2.nodes.get?).map MockEngineNode.nodeId = w.prefillIds)
    (hdecode : (w.decodeIds.filterMap s.2.nodes.get?).map MockEngineNode.nodeId = w.decodeIds)
    (hknown : ∀ id ∈ w.decodeIds, id ∈ s.2.cm.caches.keys) (req : Request) :
    Py.Returns (fun t => t = s) (w.onArrive req) fun _ _ => True := by
  obtain ⟨dec, sched, cm, hrun, hdec, hq⟩ := w.run_schedule_returns hpolicy req (s := s) (by
    intro n hn
    refine hknown _ ?_
    rw [← hdecode]
    exact List.mem_map_of_mem hn)
  refine (Py.Returns.of_run hrun).bind_val ?_
  have hstart : ∀ t : Simulator ς, t = (s.1, { s.2 with sched := sched, cm := cm }) →
      At s.1.now s.2.toBookkeeping cm.Queried t := by
    rintro t rfl
    exact ⟨rfl, rfl, .refl⟩
  refine Py.Returns.strengthen (P := At s.1.now s.2.toBookkeeping cm.Queried) ?_ hstart
  rw [hprefill, hdecode] at hdec
  cases hdec with
  | rejected hne hp hd hreason =>
      simp only [hp]
      exact .read fun t ht => (At.scheduleAt ht.now_eq.ge _).weaken fun _ _ _ => trivial
  | @accepted p d hp hd hpn hdn hreason =>
      obtain ⟨n, hn⟩ := hnodes p hp
      simp only [hpn]
      refine .read fun t ht => ?_
      simp only [hdn]
      have hd' : d ∈ cm.caches.keys := hq.keys_eq ▸ hknown d hd
      refine Py.Returns.bind (Q := fun _ => At s.1.now s.2.toBookkeeping cm.Queried) ?_ fun l => ?_
      · exact Py.Returns.onPart (CacheManager.lookup_returns cm t.1.now req hd')
          (fun _ hu => hu.cache) fun _ _ _ hu hq => ⟨hu.now_eq, hu.bookkeeping, hq⟩
      refine (At.scheduleAt ht.now_eq.ge _).bind fun _ => ?_
      refine Py.Returns.bind (At.modifyCluster (fun b => { b with
        decisions := b.decisions.set req.requestId ⟨p, d⟩
        requests := b.requests.set req.requestId req }) ?_ ?_) fun _ => ?_
      · exact fun _ => rfl
      · exact fun _ => rfl
      let b : Bookkeeping := { s.2.toBookkeeping with
        decisions := s.2.decisions.set req.requestId ⟨p, d⟩
        requests := s.2.requests.set req.requestId req }
      have hn' : b.nodes.get? p = some n := hn
      refine (At.nodeOf hp hn').bind_val ?_
      obtain ⟨running, n', hadm⟩ := exists_run_admitRequest req.requestId
        req.expectedOutputLen (some (req.tokenIds.length : ℤ))
        (some (max 0 ((req.tokenIds.length : ℤ) - l.matchedTokens))) n
      refine (At.onNode hn' hadm).bind_val (.ite (fun _ => ?_) fun _ => .pure fun _ _ => trivial)
      exact (At.startPrefill (keeps_queried cm) _ _ _ _ _).weaken fun _ _ _ => trivial

/-- The full blocks of a prompt collide in the cache. -/
def NodeCache.CollidesWith (c : NodeCache) (bs : ℕ) (tokenIds : List Token) : Prop :=
  c.Collides bs (alignedTokens bs tokenIds).1 (tokenIds.length / bs)

/-- A materialization ends in one of the two ways that the handler provides for. -/
def Declared (cm : CacheManager) (now : Time) (info : PendingTransfer) (d : NodeId) : Prop :=
  ((CacheManager.materializeRequest (fun _ => now) info.requestId info.request.tokenIds d).run
      cm).isOk = true ∨
    ∃ msg, ((CacheManager.materializeRequest (fun _ => now) info.requestId info.request.tokenIds
      d).run cm).error? = some (.memoryError msg)

/-- A materialization of a new request ends as declared, or it collides and raises `RuntimeError`. -/
theorem CacheManager.materialize_ends {cm : CacheManager} {c : NodeCache} {d : NodeId}
    {info : PendingTransfer} (h : cm.Inv) (hc : cm.caches.get? d = some c)
    (hr : cm.blockTables.get? (d, info.requestId) = none) (now : Time) :
    (¬ c.CollidesWith cm.model.blockSize info.request.tokenIds ∧ Declared cm now info d) ∨
      (c.CollidesWith cm.model.blockSize info.request.tokenIds ∧ ∃ msg cm',
        (materializeRequest (fun _ => now) info.requestId info.request.tokenIds d).run cm =
          .error (.runtimeError msg) cm') := by
  obtain ⟨s, hs⟩ := h.node d c hc
  have hT : NodeCache.alignedTokens cm.model.blockSize info.request.tokenIds =
    ((NodeCache.alignedTokens cm.model.blockSize info.request.tokenIds).1,
      info.request.tokenIds.length / cm.model.blockSize) := rfl
  rw [Declared, NodeCache.CollidesWith, NodeCache.collides_iff hs.represents hs.inv
    cm.model.one_le_blockSize (NodeCache.length_aligned hT)]
  obtain ⟨c', s', -, -, -, hout⟩ :=
    materializeRequest_spec (r := info.requestId) (fun _ => now) hc hr hs hT
  generalize (materializeRequest (fun _ => now) info.requestId info.request.tokenIds d).run cm =
    out at hout ⊢
  cases hout with
  | ok t hno _ _ _ => exact Or.inl ⟨hno, Or.inl rfl⟩
  | full msg hno _ => exact Or.inl ⟨hno, Or.inr ⟨msg, rfl⟩⟩
  | collision msg hk hcol _ => exact Or.inr ⟨⟨hk, hcol⟩, msg, _, rfl⟩

/-- A request enters decode or is rejected, if the materialization ends as declared. -/
theorem enterDecode_returns {now : Time} {b : Bookkeeping} {cm : CacheManager} {d : NodeId}
    {n : MockEngineNode} {info : PendingTransfer} (hd : d ∈ w.decodeIds)
    (hn : b.nodes.get? d = some n)
    (hmat : n.runningRequests.length < n.nodeConfig.capacity → Declared cm now info d) :
    Py.Returns (At now b (· = cm)) (w.enterDecode info d) fun _ _ => True := by
  refine (At.nodeOf hd hn).bind_val (.read fun t ht => ?_)
  rw [ht.now_eq]
  refine .ite (fun _ => ?_) fun hroom => ?_
  · exact (At.scheduleAt le_rfl _).bind fun _ => Py.Returns.modify fun _ _ => trivial
  have hdecl := hmat (not_le.1 hroom)
  refine Py.Returns.bind (Q := fun _ => At now b fun _ => True) ?_ fun _ => ?_
  · refine Py.Returns.orElse (E := At now b fun _ => True) (fun v hv => ?_) (.pure fun _ hs => hs)
    rw [← hv.cache] at hdecl
    cases hrun : (CacheManager.materializeRequest (fun _ => now) info.requestId
        info.request.tokenIds d).run v.2.cm with
    | ok table cm' =>
        exact Or.inl ⟨(), _, Py.run_onPart_ok (Py.run_bind_ok hrun), hv.now_eq, hv.bookkeeping,
          trivial⟩
    | error e cm' =>
        refine Or.inr ⟨e, _, Py.run_onPart_error (Py.run_bind_error hrun), ?_, hv.now_eq,
          hv.bookkeeping, trivial⟩
        rw [Declared, hrun] at hdecl
        rcases hdecl with hdecl | ⟨msg, hdecl⟩
        · cases hdecl
        · rw [Option.some_inj.1 hdecl]
          rfl
  obtain ⟨running, n₁, hadm⟩ := exists_run_admitRequest info.requestId
    info.request.expectedOutputLen (some (info.request.tokenIds.length : ℤ)) (some 0) n
  have hrunning : info.requestId ∈ n₁.runningRequests := by
    rw [(MockEngineNode.run_admitRequest hadm).2.runningRequests, MockEngineNode.admitted,
      if_pos (show n.HasRoom from not_le.1 hroom)]
    exact List.mem_append_right _ (List.mem_singleton_self _)
  refine (At.onNode hn hadm).bind_val ?_
  refine (At.onNode (PyDict.get?_set_self ..)
    (MockEngineNode.run_requireRunning_ok hrunning _)).bind_val ?_
  refine Py.Returns.bind (At.modifyCluster (fun b => { b with
    entered := b.entered ++ [info.requestId] }) ?_ ?_) fun _ => ?_
  · exact fun _ => rfl
  · exact fun _ => rfl
  · exact At.wakeBatchStep (PyDict.get?_set_self ..) le_rfl

/-- The end of a transfer is handled, if the materialization ends as declared. -/
theorem onKvTransferComplete_returns {tid : String}
    (h : ∀ info a, s.2.pendingTransfers.get? tid = some info →
      s.2.decisions.get? info.requestId = some a → a.decodeNode ∈ w.decodeIds ∧
        ∃ n, s.2.nodes.get? a.decodeNode = some n ∧
          (n.runningRequests.length < n.nodeConfig.capacity →
            Declared s.2.cm s.1.now info a.decodeNode)) :
    Py.Returns (fun t => t = s) (w.onKvTransferComplete tid) fun _ _ => True := by
  refine .get_bind fun t ht => ?_
  subst ht
  split
  · exact .pure fun _ _ => trivial
  rename_i info hinfo
  refine Py.Returns.strengthen (P := At t.1.now t.2.toBookkeeping (· = t.2.cm)) ?_ (by
    rintro v rfl
    exact ⟨rfl, rfl, rfl⟩)
  refine Py.Returns.bind (At.modifyCluster (fun b => { b with
    pendingTransfers := b.pendingTransfers.erase tid }) ?_ ?_) fun _ => .read fun v hv => ?_
  · exact fun _ => rfl
  · exact fun _ => rfl
  have hdecisions := congrArg Bookkeeping.decisions hv.bookkeeping
  dsimp only at hdecisions
  rw [hdecisions]
  split
  · exact .pure fun _ _ => trivial
  rename_i a ha
  obtain ⟨hd, n, hn, hmat⟩ := h info a hinfo ha
  exact enterDecode_returns hd hn hmat

/-- An exception of the materialization that is not caught leaves the handler. -/
theorem onKvTransferComplete_raises {tid : String} {info : PendingTransfer} {a : Assignment}
    {n : MockEngineNode} {e : PyErr} {cm : CacheManager}
    (hinfo : s.2.pendingTransfers.get? tid = some info)
    (ha : s.2.decisions.get? info.requestId = some a) (hd : a.decodeNode ∈ w.decodeIds)
    (hn : s.2.nodes.get? a.decodeNode = some n)
    (hroom : n.runningRequests.length < n.nodeConfig.capacity) (he : e.isMemoryError = false)
    (hmat : (CacheManager.materializeRequest (fun _ => s.1.now) info.requestId
      info.request.tokenIds a.decodeNode).run s.2.cm = .error e cm) :
    ∃ s', (w.onKvTransferComplete tid).run s = .error e s' := by
  let s₁ : Simulator ς := (s.1, { s.2 with
    pendingTransfers := s.2.pendingTransfers.erase tid })
  have hnode : (nodeOf w.decodeIds a.decodeNode).run s₁ = .ok n s₁ := by
    rw [nodeOf, Py.run_get_bind]
    simp only [hd, if_true]
    rw [show s₁.2.nodes.get? a.decodeNode = some n from hn]
    rfl
  have hcm : (onCm (do
      let _ ← CacheManager.materializeRequest (fun _ => s.1.now) info.requestId
        info.request.tokenIds a.decodeNode
      pure ())).run s₁ = .error e (s₁.1, { s₁.2 with cm := cm }) :=
    Py.run_onPart_error (Py.run_bind_error hmat)
  have hmod : (modifyCluster fun c : Cluster ς => { c with
      pendingTransfers := c.pendingTransfers.erase tid }).run s = .ok () s₁ := rfl
  refine ⟨(s₁.1, { s₁.2 with cm := cm }), ?_⟩
  rw [Wiring.onKvTransferComplete, Py.run_get_bind]
  simp only [hinfo]
  rw [Py.run_bind_ok hmod, Py.run_get_bind]
  simp only [show s₁.2.decisions.get? info.requestId = some a from ha]
  rw [Wiring.enterDecode, Py.run_bind_ok hnode, Py.run_get_bind]
  dsimp only
  rw [if_neg (not_le.2 hroom)]
  refine Py.run_bind_error ?_
  rw [Py.run_onExcept, show s₁.1.now = s.1.now from rfl, hcm]
  simp only [he, Bool.false_eq_true, if_false]

end Handlers

/-! ### Turns -/

/-- The event ends a transfer whose prompt collides in the cache of its decode node, where there is a
slot for the request. -/
def Payload.CollidesIn {ς : Type} (s : Simulator ς) : Payload → Prop
  | .kvTransferComplete base _ => ∃ info a n c,
      s.2.pendingTransfers.get? base.transferId = some info ∧
      s.2.decisions.get? info.requestId = some a ∧ s.2.nodes.get? a.decodeNode = some n ∧
      n.runningRequests.length < n.nodeConfig.capacity ∧
      s.2.cm.caches.get? a.decodeNode = some c ∧
      c.CollidesWith s.2.cm.model.blockSize info.request.tokenIds
  | _ => False

/-- The first event is the end of a transfer whose prompt collides. -/
def Simulator.Collides {ς : Type} (s : Simulator ς) : Prop :=
  ∃ ev ∈ s.1.queue.events.head?, ev.payload.CollidesIn s

section Turns

variable {ς : Type} {w : Wiring ς} {nodeConfig : NodeConfig} {s : Simulator ς}
  {stage : RequestId → Stage} {ev : Event Payload} {rest : List (Event Payload)}

/-- A node keeps something of a request only if it is there. -/
theorem Staged.exists_node (h : Staged w s stage) {r : RequestId} {x : NodeId} {v : NodeView}
    (hx : (stage r).node x = v) (hv : v ≠ .idle) :
    ∃ n, s.2.nodes.get? x = some n ∧ n.viewOf r = v := by
  cases hn : s.2.nodes.get? x with
  | none =>
      have hview := (h.kept r).node x
      rw [Bookkeeping.nodeView, show s.2.toBookkeeping.nodes.get? x = none from hn, hx] at hview
      exact absurd hview.symm hv
  | some n => exact ⟨n, rfl, ((h.kept r).viewOf hn).trans hx⟩

theorem MockEngineNode.mem_running_of_view {n : MockEngineNode} {r : RequestId} {v : NodeView}
    (h : n.viewOf r = v) (hv : v.running = 1) : r ∈ n.runningRequests := by
  rw [← h] at hv
  exact List.count_pos_iff.1 (Nat.one_pos.trans_eq hv.symm)

/-- Every stream of a node has its counters. -/
theorem Staged.counted (h : Staged w s stage) {x : NodeId} {n : MockEngineNode}
    (hn : s.2.nodes.get? x = some n) : n.Counted (sortedIds n.decoding) := by
  intro r hr
  have hview := (h.kept r).viewOf hn
  have hdec : ((stage r).node x).decoding = true := by
    rw [← hview]
    exact decide_eq_true (mem_sortedIds.1 hr)
  obtain ⟨req, a, g, hst, rfl⟩ := Stage.eq_decoding hdec
  rw [hst, Stage.node, only_self] at hview
  exact ⟨PyDict.mem_keys_of_get? (congrArg NodeView.generated hview),
    PyDict.mem_keys_of_get? (congrArg NodeView.expected hview)⟩

/-- Every prefill in a pipeline has tokens left. -/
theorem Staged.pipeline_nonneg (h : Staged w s stage) {x : NodeId} {n : MockEngineNode}
    (hn : s.2.nodes.get? x = some n) :
    ∀ q u, n.prefillRemaining.get? q = some u → 0 ≤ u := by
  intro q u hu
  have hview := (h.kept q).viewOf hn
  have hpipe : ((stage q).node x).pipeline = some u := by
    rw [← hview]
    exact hu
  obtain ⟨req, a, hst, -⟩ := Stage.eq_prefilling hpipe
  have hv := h.valid q
  rw [hst] at hv
  exact hv.2.2.1.le

/-- The first event finds the requests in their stages. -/
theorem Staged.lives (h : Staged w s stage) (hq : s.1.queue.events = ev :: rest) :
    Lives w s.2.toBookkeeping ev.payload stage :=
  ⟨h.kept, h.valid, fun r hc => ((h.known r).pending_of_carries hq hc).1⟩

variable {sched : ς} {tm : TransferModel}

/-- What a request enters decode with: no table, a known cache and an assignment. -/
theorem entering_of_reachesFrom (hpolicy : w.policy.Contract)
    (h : w.ReachesFrom DistinctArrivals (w.fresh sched nodeConfig tm) s)
    (hst : Staged w s stage) (ht : TablesFollow s.2.cm stage)
    (hq : s.1.queue.events = ev :: rest) {base : TransferPayload} {req : Request}
    (hp : ev.payload = .kvTransferComplete base req) {info : PendingTransfer} {a : Assignment}
    (hinfo : s.2.pendingTransfers.get? base.transferId = some info)
    (ha : s.2.decisions.get? info.requestId = some a) :
    a.decodeNode ∈ w.decodeIds ∧ (∃ c, s.2.cm.caches.get? a.decodeNode = some c) ∧
      s.2.cm.blockTables.get? (a.decodeNode, info.requestId) = none := by
  have hserved := h.served hpolicy
  have hd := (hserved.assigned _ a ha).2
  refine ⟨hd, PyDict.exists_get?_of_mem_keys (hserved.reachable.mem_keys hd), ?_⟩
  have hl := hst.lives hq
  rw [hp] at hl
  obtain ⟨a', hstage, hinfo'⟩ := hl.transfer_eq
  obtain rfl := Option.some_inj.1 (hinfo.symm.trans hinfo')
  cases htab : s.2.cm.blockTables.get? (a.decodeNode, base.requestId) with
  | none => rfl
  | some t =>
      obtain ⟨req', a'', g, hr, -⟩ := ht _ _ t htab
      rw [hstage] at hr
      rcases hr with hr | hr <;> cases hr

/-- **Every handler returns**, unless the prompt of a transfer collides. -/
theorem Wiring.handle_returns (hpolicy : w.policy.Contract)
    (h : w.ReachesFrom DistinctArrivals (w.fresh sched nodeConfig tm) s)
    (hst : Staged w s stage) (ht : TablesFollow s.2.cm stage)
    (hq : s.1.queue.events = ev :: rest) (hno : ¬ ev.payload.CollidesIn s) :
    Py.Returns (fun t => t = (s.1.advance ev rest hq, s.2)) (w.handle ev.payload)
      fun _ _ => True := by
  have hreach : w.Reaches DistinctArrivals s := h.reaches (.start ..)
  have hserved := h.served hpolicy
  have hinv := hserved.reachable.inv
  have hl := hst.lives hq
  have hat : ∀ {P : CacheManager → Prop}, P s.2.cm → ∀ t : Simulator ς,
      t = (s.1.advance ev rest hq, s.2) →
        At (s.1.advance ev rest hq).now s.2.toBookkeeping P t := by
    rintro P hP t rfl
    exact ⟨rfl, rfl, hP⟩
  have hkeeps : ∀ now request nodeId, Py.Keeps (fun _ : CacheManager => True)
    (CacheManager.lookup now request nodeId) := fun _ _ _ _ _ => trivial
  cases hp : ev.payload with
  | requestArrive req =>
      have hprefill := hreach.nodeIds_eq fun id hid => List.mem_append_left w.decodeIds hid
      have hdecode := hreach.nodeIds_eq fun id hid => List.mem_append_right w.prefillIds hid
      refine onArrive_returns (s := (s.1.advance ev rest hq, s.2)) hpolicy (fun id hid => ?_)
        hprefill hdecode (fun id hid => hserved.reachable.mem_keys hid) req
      obtain ⟨n, hn, -⟩ := hreach.exists_node (List.mem_append_left _ hid)
      exact ⟨n, hn⟩
  | prefillStart r x req k =>
      rw [hp] at hl
      obtain ⟨a, hstage, rfl⟩ := Stage.eq_starting (hl.carried r ⟨rfl, rfl⟩)
      have hv := hst.valid r
      rw [hstage] at hv
      obtain ⟨n, hn, hview⟩ := hst.exists_node (r := r) (x := a.prefillNode)
        (v := .slot 0 req.expectedOutputLen) (by rw [hstage, Stage.node, only_self])
          fun hidle => by cases hidle
      exact (At.onPrefillStart hkeeps hv.2 hn
        (MockEngineNode.mem_running_of_view hview rfl) req).strengthen (hat trivial)
  | prefillComplete r x req =>
      rw [hp] at hl
      obtain ⟨a, hstage, rfl⟩ := Stage.eq_prefilled (hl.carried r ⟨rfl, rfl⟩)
      have hv := hst.valid r
      rw [hstage] at hv
      obtain ⟨n, hn, -⟩ := hst.exists_node (r := r) (x := a.prefillNode)
        (v := .slot 0 req.expectedOutputLen) (by rw [hstage, Stage.node, only_self])
          fun hidle => by cases hidle
      exact (At.onPrefillComplete hkeeps hv.2 hn req).strengthen (hat trivial)
  | kvTransferComplete base req =>
      refine onKvTransferComplete_returns fun info a hinfo ha => ?_
      obtain ⟨hd, ⟨c, hc⟩, htab⟩ := entering_of_reachesFrom hpolicy h hst ht hq hp hinfo ha
      obtain ⟨n, hn, -⟩ := hreach.exists_node (List.mem_append_right _ hd)
      refine ⟨hd, n, hn, fun hroom => ?_⟩
      rcases CacheManager.materialize_ends hinv hc htab (s.1.advance ev rest hq).now with
        ⟨-, hdecl⟩ | ⟨hcol, -⟩
      · exact hdecl
      · refine absurd ?_ hno
        rw [hp]
        exact ⟨info, a, n, c, hinfo, ha, hn, hroom, hc, hcol⟩
  | decodeBatchStep x =>
      have hcount := hreach.awake.counted x
      cases hn : s.2.nodes.get? x with
      | none =>
          have hpos : 0 < s.stepCount x := by
            rw [Simulator.stepCount, hq, List.countP_cons_of_pos]
            · exact Nat.succ_pos _
            · rw [hp]
              exact decide_eq_true rfl
          rw [hcount, inFlight, hn] at hpos
          exact absurd hpos (lt_irrefl 0)
      | some n =>
          exact (At.onDecodeBatchStep (hreach.mem_pools hn) hn (hst.counted hn)
            (hst.pipeline_nonneg hn)).strengthen (hat (P := fun _ => True) trivial)
  | decodeComplete r x =>
      rw [hp] at hl
      obtain ⟨req, a, g, hstage, rfl⟩ := Stage.eq_decoded (hl.carried r ⟨rfl, rfl⟩)
      have hv := hst.valid r
      rw [hstage] at hv
      obtain ⟨n, hn, -⟩ := hst.exists_node (r := r) (x := a.decodeNode)
        (v := .slot g req.expectedOutputLen) (by rw [hstage, Stage.node, only_self])
          fun hidle => by cases hidle
      exact (At.onDecodeComplete hv.2.1 hn).strengthen (hat hinv)
  | requestRejected _ _ | scheduled _ _ _ _ | kvTransferStart _ | tokenGenerated _ _ =>
      exact .pure fun _ _ => trivial

/-- A turn returns, unless the prompt of a transfer collides. -/
theorem Wiring.turn_returns (hpolicy : w.policy.Contract)
    (hpools : ∀ id ∈ w.prefillIds, id ∉ w.decodeIds)
    (h : w.ReachesFrom DistinctArrivals (w.fresh sched nodeConfig tm) s) (hno : ¬ s.Collides) :
    ∃ s', (SimulationEngine.turn w.handlers).run s = .ok () s' := by
  obtain ⟨stage, hst, ht⟩ := h.tablesFollow hpolicy hpools
  by_cases hq : s.1.queue.events = []
  · exact ⟨s, SimulationEngine.run_turn_nil _ hq⟩
  obtain ⟨ev, rest, hcons⟩ := List.exists_cons_of_ne_nil hq
  have hev : ¬ ev.payload.CollidesIn s := fun hcol => hno ⟨ev, by rw [hcons]; rfl, hcol⟩
  obtain ⟨u, s', hhandle, -⟩ := handle_returns hpolicy h hst ht hcons hev _ rfl
  have hrun : (SimulationEngine.turn w.handlers).run s =
      (w.handle ev.payload >>= fun _ => pure ()).run (s.1.advance ev rest hcons, s.2) :=
    SimulationEngine.run_turn_cons _ hcons
  exact ⟨s', by rw [hrun, Py.run_bind_ok hhandle]; rfl⟩

/-- A turn that finds the prompt of a transfer colliding raises. -/
theorem Wiring.turn_raises (hpolicy : w.policy.Contract)
    (hpools : ∀ id ∈ w.prefillIds, id ∉ w.decodeIds)
    (h : w.ReachesFrom DistinctArrivals (w.fresh sched nodeConfig tm) s) (hcol : s.Collides) :
    ∃ msg s', (SimulationEngine.turn w.handlers).run s = .error (.runtimeError msg) s' := by
  obtain ⟨stage, hst, ht⟩ := h.tablesFollow hpolicy hpools
  obtain ⟨ev, hev, hcol⟩ := hcol
  obtain ⟨rest, hcons⟩ := List.head?_eq_some_iff.1 hev
  have hrun : (SimulationEngine.turn w.handlers).run s =
      (w.handle ev.payload >>= fun _ => pure ()).run (s.1.advance ev rest hcons, s.2) :=
    SimulationEngine.run_turn_cons _ hcons
  rw [hrun]
  cases hp : ev.payload with
  | kvTransferComplete base req =>
      rw [hp] at hcol
      obtain ⟨info, a, n, c, hinfo, ha, hn, hroom, hc, hcol⟩ := hcol
      obtain ⟨hd, -, htab⟩ := entering_of_reachesFrom hpolicy h hst ht hcons hp hinfo ha
      rcases CacheManager.materialize_ends (h.served hpolicy).reachable.inv hc htab
        (s.1.advance ev rest hcons).now with ⟨hno, -⟩ | ⟨-, msg, cm, hmat⟩
      · exact absurd hcol hno
      · obtain ⟨s', hraise⟩ := onKvTransferComplete_raises
          (s := (s.1.advance ev rest hcons, s.2)) hinfo ha hd hn hroom rfl hmat
        exact ⟨msg, s', Py.run_bind_error hraise⟩
  | _ =>
      rw [hp] at hcol
      exact hcol.elim

/-- **Progress**: with disjoint pools, distinct ids, fresh caches and a scheduler that keeps the
contract, in every state that is reached the next turn of the engine returns, unless the first event
is the end of a transfer whose prompt collides in the cache of its decode node; then it raises
`RuntimeError`. -/
theorem Wiring.turn_progress (hpolicy : w.policy.Contract)
    (hpools : ∀ id ∈ w.prefillIds, id ∉ w.decodeIds)
    (h : w.ReachesFrom DistinctArrivals (w.fresh sched nodeConfig tm) s) :
    (¬ s.Collides → ((SimulationEngine.turn w.handlers).run s).isOk = true) ∧
      (s.Collides → ∃ msg s',
        (SimulationEngine.turn w.handlers).run s = .error (.runtimeError msg) s') := by
  refine ⟨fun hno => ?_, turn_raises hpolicy hpools h⟩
  obtain ⟨s', hrun⟩ := turn_returns hpolicy hpools h hno
  rw [hrun]
  rfl

namespace Wiring

/-- Three requests one after another; the third has the prompt of the first. -/
def threeRequests : List Action :=
  [.arrive 0 ⟨"a", [1, 2, 3, 4], 1, 0, 1000, 1000⟩,
    .arrive 100 ⟨"b", [11, 12, 13, 14], 1, 0, 1000, 1000⟩,
    .arrive 200 ⟨"c", [1, 2, 3, 4], 1, 0, 1000, 1000⟩] ++ List.replicate 26 .turn

/-- A GPU tier that one prompt fills. -/
def tinyNode : NodeConfig :=
  { NodeConfig.defaults with gpuBlocks := 4, cpuBlocks := 2, diskBlocks := 0 }

/-- The second prompt has pushed the first one off the GPU tier, half of it out of the cache; the
turn that brings the prompt back raises. -/
theorem turn_progress_threeRequests :
    split.ReachesFrom DistinctArrivals (split.fresh {} tinyNode .noop)
        ((split.execute threeRequests).run (split.fresh {} tinyNode .noop)).state ∧
      ((split.execute threeRequests).run (split.fresh {} tinyNode .noop)).state.Collides ∧
      ∃ msg s', (SimulationEngine.turn split.handlers).run
        ((split.execute threeRequests).run (split.fresh {} tinyNode .noop)).state =
          .error (.runtimeError msg) s' := by
  have hm : split.Meets DistinctArrivals threeRequests (split.fresh {} tinyNode .noop) := by
    decide +kernel
  have hok : ((split.execute threeRequests).run (split.fresh {} tinyNode .noop)).isOk = true := by
    decide +kernel
  have hraise : ((SimulationEngine.turn split.handlers).run
      ((split.execute threeRequests).run (split.fresh {} tinyNode .noop)).state).isOk = false := by
    decide +kernel
  have hpools : ∀ id ∈ split.prefillIds, id ∉ split.decodeIds := by decide +kernel
  have hreach := ReachesFrom.execute .refl hm hok
  have hturn := turn_progress (RoundRobinPolicy.contract _) hpools hreach
  have hcol : ((split.execute threeRequests).run (split.fresh {} tinyNode .noop)).state.Collides := by
    by_contra hno
    rw [hturn.1 hno] at hraise
    cases hraise
  exact ⟨hreach, hcol, hturn.2 hcol⟩

end Wiring

end Turns

end NanoKVRouter
