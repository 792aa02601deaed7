/-
**A whole run of the simulator.**

The loop of the engine uses up energy with every turn and raises only when the prompt of a transfer
collides in the cache of its decode node.  So from every state that is reached the loop ends: with
an empty queue, every request that was scheduled served or rejected, and nothing left behind, or
before a collision.  A collision needs a freed block in front of the tree's match, and without slower
tiers there is none.

Main definitions:

* `Delivered` — everything that was scheduled has been handled, and nothing is left behind.

Main results:

* `Wiring.not_collides` — with a GPU tier only no transfer collides;
* `Wiring.TurnOf.mem_of_mem` — a turn loses no event;
* `Wiring.loop_ends` — the loop ends, or comes to a collision;
* `Wiring.ReachesFrom.delivered` — where it has ended, everything is delivered;
* `Wiring.run_delivers` — **a run delivers**, unless a slower tier makes it collide.
-/

import NanoKVRouter.CacheSingleTier
import NanoKVRouter.SimulatorProgress
import NanoKVRouter.SimulatorTermination

set_option relaxedAutoImplicit false
set_option autoImplicit false

namespace NanoKVRouter

section Delivery

variable {ς : Type} {w : Wiring ς} {s s' : Simulator ς} {stage stage' : RequestId → Stage}
  {sched : ς} {nodeConfig : NodeConfig} {tm : TransferModel}

/-! ### Collisions need a slower tier -/

namespace Wiring

/-- With a GPU tier only no transfer collides. -/
theorem not_collides (hpolicy : w.policy.Contract) (hcpu : nodeConfig.cpuBlocks = 0)
    (hdisk : nodeConfig.diskBlocks = 0)
    (h : w.ReachesFrom DistinctArrivals (w.fresh sched nodeConfig tm) s) : ¬ s.Collides := by
  rintro ⟨ev, -, hcol⟩
  have hreach := (h.served hpolicy).reachable
  cases hp : ev.payload with
  | kvTransferComplete base req =>
      rw [hp] at hcol
      obtain ⟨info, a, n, c, -, -, -, -, hc, hcol⟩ := hcol
      obtain ⟨cs, hcs, hi, -, hint⟩ := hreach.sound hcpu hdisk (hreach.intact hcpu hdisk) hc
      have hT : NodeCache.alignedTokens s.2.cm.model.blockSize info.request.tokenIds =
        ((NodeCache.alignedTokens s.2.cm.model.blockSize info.request.tokenIds).1,
          info.request.tokenIds.length / s.2.cm.model.blockSize) := rfl
      rw [NodeCache.CollidesWith, NodeCache.collides_iff hcs hi s.2.cm.model.one_le_blockSize
        (NodeCache.length_aligned hT)] at hcol
      exact hint.not_collision _ _ hcol.2
  | _ =>
      rw [hp] at hcol
      exact hcol.elim

/-! ### The loop -/

/-- A turn loses no event. -/
theorem TurnOf.mem_of_mem {ev : Event Payload} {rest : List (Event Payload)}
    {out : List (Time × Payload)} (ht : TurnOf w s ev rest out s') {e : Event Payload}
    (he : e ∈ s.1.queue.events ++ s.1.processed) :
    e ∈ s'.1.queue.events ++ s'.1.processed := by
  have hproc : s'.1.processed = s.1.processed ++ [ev] := ht.pushes.processed_eq
  rw [List.mem_append, hproc] at *
  rcases he with he | he
  · rw [ht.events] at he
    rcases List.mem_cons.1 he with rfl | he
    · exact Or.inr (List.mem_append_right _ (List.mem_singleton_self _))
    · exact Or.inl (ht.pushes.mem_of_mem he)
  · exact Or.inr (List.mem_append_left _ he)

/-- **The loop ends**, or comes to a collision. -/
theorem loop_ends (hpolicy : w.policy.Contract)
    (hpools : ∀ id ∈ w.prefillIds, id ∉ w.decodeIds) {ids : Finset RequestId} (m : ℕ) :
    ∀ {s : Simulator ς} {stage : RequestId → Stage},
      w.ReachesFrom DistinctArrivals (w.fresh sched nodeConfig tm) s → Staged w s stage →
      (∀ r, r ∉ ids → stage r = .absent) → s.energy ids stage = m →
      ∃ n s', w.ReachesFrom DistinctArrivals (w.fresh sched nodeConfig tm) s' ∧
        (∀ ev ∈ s.1.queue.events ++ s.1.processed,
          ev ∈ s'.1.queue.events ++ s'.1.processed) ∧
        ((s'.1.queue.events = [] ∧ ∀ fuel, n < fuel →
            (SimulationEngine.runLoop w.handlers fuel).run s = .ok () s') ∨
          (s'.Collides ∧ ∃ msg s'', ∀ fuel, n < fuel →
            (SimulationEngine.runLoop w.handlers fuel).run s =
              .error (.runtimeError msg) s'')) := by
  induction m using Nat.strong_induction_on with
  | _ m ih =>
      intro s stage h hst habsent hm
      have hstop : s.1.stopped = false := (h.reaches (.start ..)).stopped
      by_cases hq : s.1.queue.events = []
      · refine ⟨0, s, h, fun _ he => he, Or.inl ⟨hq, fun fuel hfuel => ?_⟩⟩
        obtain ⟨k, rfl⟩ := Nat.exists_eq_add_one.2 hfuel
        exact SimulationEngine.run_runLoop_nil _ k hq
      by_cases hcol : s.Collides
      · obtain ⟨msg, s'', hrun⟩ := turn_raises hpolicy hpools h hcol
        refine ⟨0, s, h, fun _ he => he, Or.inr ⟨hcol, msg, s'', fun fuel hfuel => ?_⟩⟩
        obtain ⟨k, rfl⟩ := Nat.exists_eq_add_one.2 hfuel
        rw [SimulationEngine.run_runLoop_succ _ k hq hstop, Py.run_bind_error hrun]
      -- the turn returns, and less energy is left
      obtain ⟨s₁, hrun⟩ := turn_returns hpolicy hpools h hcol
      have h₁ : w.ReachesFrom DistinctArrivals (w.fresh sched nodeConfig tm) s₁ :=
        h.step .turn trivial hrun
      rcases turn_cases hrun with ⟨hnil, -⟩ | ⟨ev, rest, out, ht⟩
      · exact absurd hnil hq
      obtain ⟨stage₁, hst₁, hmoves⟩ := ht.staged hst (hst.noneQueued hpools)
      have hlt := ht.energy_lt hst hst₁ hmoves habsent
      obtain ⟨n, s', h', hmem, hend⟩ := ih _ (hm ▸ hlt) h₁ hst₁
        (fun r hr => (hmoves r).absent_iff.1 (habsent r hr)) rfl
      refine ⟨n + 1, s', h', fun e he => hmem e (ht.mem_of_mem he), ?_⟩
      have hloop : ∀ fuel, n + 1 < fuel → ∃ k, n < k ∧
          (SimulationEngine.runLoop w.handlers fuel).run s =
            (SimulationEngine.runLoop w.handlers k).run s₁ := by
        intro fuel hfuel
        obtain ⟨k, rfl⟩ := Nat.exists_eq_add_one.2 (Nat.zero_lt_of_lt hfuel)
        refine ⟨k, by omega, ?_⟩
        rw [SimulationEngine.run_runLoop_succ _ k hq hstop, Py.run_bind_ok hrun]
      refine hend.imp (fun hok => ⟨hok.1, fun fuel hfuel => ?_⟩) fun herr => ⟨herr.1, ?_⟩
      · obtain ⟨k, hk, heq⟩ := hloop fuel hfuel
        rw [heq, hok.2 k hk]
      · obtain ⟨msg, s'', herr⟩ := herr.2
        refine ⟨msg, s'', fun fuel hfuel => ?_⟩
        obtain ⟨k, hk, heq⟩ := hloop fuel hfuel
        rw [heq, herr k hk]

end Wiring

/-! ### Delivery -/

/-- Everything that was scheduled in `s` has been handled in `s'`: no event is left, every request
has ended once, and nothing is left on the nodes, in the maps of the handlers and in the caches. -/
structure Delivered (s s' : Simulator ς) : Prop where
  queue : s'.1.queue.events = []
  ended : ∀ ev ∈ s.1.queue.events ++ s.1.processed, ∀ req, ev.payload = .requestArrive req →
    (s'.endings req.requestId).length = 1
  drained : Drained s'.2.toBookkeeping
  tables : s'.2.cm.blockTables.entries = []
  unpinned : ∀ n c b, s'.2.cm.caches.get? n = some c → c.pool.pinned b = false

namespace Wiring

/-- Where no event is left, everything has been delivered. -/
theorem ReachesFrom.delivered (hpolicy : w.policy.Contract)
    (hpools : ∀ id ∈ w.prefillIds, id ∉ w.decodeIds)
    (h : w.ReachesFrom DistinctArrivals (w.fresh sched nodeConfig tm) s)
    (hq : s.1.queue.events = []) : Delivered s s := by
  obtain ⟨stage, hst, ht⟩ := h.tablesFollow hpolicy hpools
  have hawake := (h.reaches (.start ..)).awake
  have htables := hst.no_tables ht hawake hq
  refine ⟨hq, fun ev hev req hreq => ?_, hst.drained hawake hq, htables, fun id c b hc => ?_⟩
  · rw [hq, List.nil_append] at hev
    exact hst.length_endings hawake hq hev hreq
  · rw [BlockPool.pinned, (h.served hpolicy).reachable.inv.pinCountOf_eq hc,
      CacheManager.tableCount, htables]
    rfl

/-- **A run delivers**: with disjoint pools, distinct ids, fresh caches and a scheduler that keeps
the contract, from every state that is reached the loop of the engine ends after finitely many
turns, by itself and with everything delivered, unless there is a slower tier and it comes to a
transfer whose prompt collides; then it raises `RuntimeError`. -/
theorem run_delivers (hpolicy : w.policy.Contract)
    (hpools : ∀ id ∈ w.prefillIds, id ∉ w.decodeIds)
    (h : w.ReachesFrom DistinctArrivals (w.fresh sched nodeConfig tm) s) :
    ∃ n s', w.ReachesFrom DistinctArrivals (w.fresh sched nodeConfig tm) s' ∧
      ((Delivered s s' ∧ ∀ fuel, n < fuel →
          (SimulationEngine.runLoop w.handlers fuel).run s = .ok () s') ∨
        (0 < nodeConfig.cpuBlocks + nodeConfig.diskBlocks ∧ s'.Collides ∧ ∃ msg s'',
          ∀ fuel, n < fuel → (SimulationEngine.runLoop w.handlers fuel).run s =
            .error (.runtimeError msg) s'')) := by
  obtain ⟨stage, hst⟩ := (h.reaches (.start ..)).staged_of_disjoint hpools
  obtain ⟨n, s', h', hmem, hend⟩ := loop_ends hpolicy hpools _ h hst
    (fun r hr => hst.absent_of_notMem hr) rfl
  refine ⟨n, s', h', hend.imp (fun hok => ⟨?_, hok.2⟩) fun hcol => ⟨?_, hcol⟩⟩
  · have hdel := h'.delivered hpolicy hpools hok.1
    exact ⟨hdel.queue, fun ev hev => hdel.ended ev (hmem ev hev), hdel.drained, hdel.tables,
      hdel.unpinned⟩
  · by_contra hzero
    exact not_collides hpolicy (by omega) (by omega) h' hcol.1

/-- Without a CPU tier to leave half of a prompt on, the third request is served too. -/
theorem run_delivers_threeRequests : ∃ n s',
    Delivered ((split.execute (threeRequests.take 3)).run
      (split.fresh {} { tinyNode with cpuBlocks := 0 } .noop)).state s' ∧
    ∀ fuel, n < fuel → (SimulationEngine.runLoop split.handlers fuel).run
      ((split.execute (threeRequests.take 3)).run
        (split.fresh {} { tinyNode with cpuBlocks := 0 } .noop)).state = .ok () s' := by
  have hm : split.Meets DistinctArrivals (threeRequests.take 3)
      (split.fresh {} { tinyNode with cpuBlocks := 0 } .noop) := by decide +kernel
  have hok : ((split.execute (threeRequests.take 3)).run
      (split.fresh {} { tinyNode with cpuBlocks := 0 } .noop)).isOk = true := by decide +kernel
  have hpools : ∀ id ∈ split.prefillIds, id ∉ split.decodeIds := by decide +kernel
  obtain ⟨n, s', -, hend⟩ := run_delivers (RoundRobinPolicy.contract _) hpools
    (ReachesFrom.execute .refl hm hok)
  refine ⟨n, s', hend.resolve_right fun hslow => ?_⟩
  exact absurd hslow.1 (by decide)

end Wiring

end Delivery

end NanoKVRouter
