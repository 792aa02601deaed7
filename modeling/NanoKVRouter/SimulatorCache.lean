/-
**What the handlers do to the cache.**

Three handlers change the cache beyond looking prompts up, and what they do is a call of the cache
manager: a request is materialized when it enters decode and released when its last token is out.
A scheduler only looks prompts up, by its contract.

Main definitions:

* `OfCache` — a property of the cache in the simulator;
* `CacheStep` — what a handler does to the cache.

Main results:

* `framed_ofCache` — a property of the cache says nothing about the engine and the books;
* `Wiring.cacheStep_of_run` — **a handler that returns queries the cache, materializes a request or
  releases one**;
* `Wiring.decisions_onArrive` — an arrival assigns nodes of the two pools, or none.
-/

import NanoKVRouter.SchedulerContract
import NanoKVRouter.SimulatorConservation
import NanoKVRouter.SimulatorFrames
import NanoKVRouter.SimulatorNodes

set_option relaxedAutoImplicit false
set_option autoImplicit false

namespace NanoKVRouter

/-! ### Handlers that query the cache -/

section Keeps

variable {ς α : Type} {P : CacheManager → Prop}

/-- The property holds of the cache in the simulator. -/
def OfCache (P : CacheManager → Prop) (s : Simulator ς) : Prop := P s.2.cm

theorem framed_ofCache (P : CacheManager → Prop) : Framed (OfCache (ς := ς) P) where
  engine := fun _ _ hs => hs
  books := fun _ _ hs => hs

theorem keeps_onCm {m : Py CacheManager α} (hm : Py.Keeps P m) :
    Py.Keeps (OfCache (ς := ς) P) (onCm m) :=
  hm.onPart (fun _ hs => hs) fun _ _ _ ht => ht

end Keeps

/-! ### What a handler does to the cache -/

/-- What handling an event does to the cache: prompts are looked up; or the request of a finished
transfer enters decode and is materialized; or the request of a finished stream is released. -/
inductive CacheStep {ς : Type} (s s' : Simulator ς) : Payload → Prop
  | queried {p : Payload} (hp : ∀ r d, p ≠ .decodeComplete r d)
      (hcm : s.2.cm.Queried s'.2.cm) : CacheStep s s' p
  | materialized {base : TransferPayload} {req : Request} {info : PendingTransfer} {a : Assignment}
      (hinfo : s.2.pendingTransfers.get? base.transferId = some info)
      (ha : s.2.decisions.get? info.requestId = some a)
      (hentered : s'.2.entered = s.2.entered ++ [info.requestId])
      (hcm : s'.2.cm = s.2.cm.apply (.materialize (fun _ => s.1.now) info.requestId
        info.request.tokenIds a.decodeNode)) : CacheStep s s' (.kvTransferComplete base req)
  | released {r : RequestId} {d : NodeId} (hcm : s'.2.cm = s.2.cm.apply (.release r d)) :
      CacheStep s s' (.decodeComplete r d)

section Steps

variable {ς α : Type} {w : Wiring ς} {s s' : Simulator ς} {u : Unit}

/-- A call that keeps properties of the cache does so when it returns. -/
theorem cm_of_keeps {P : CacheManager → Prop} {m : Py (Simulator ς) α} {a : α}
    (hm : Py.Keeps (OfCache P) m) (hs : P s.2.cm) (h : m.run s = .ok a s') : P s'.2.cm := by
  have hstate := hm s hs
  rw [h] at hstate
  exact hstate

/-- A call that keeps every property of the cache leaves it alone when it returns. -/
theorem cm_eq_of_keeps {m : Py (Simulator ς) α} {a : α}
    (hm : ∀ P : CacheManager → Prop, Py.Keeps (OfCache P) m) (h : m.run s = .ok a s') :
    s'.2.cm = s.2.cm := cm_of_keeps (P := fun cm => cm = s.2.cm) (hm _) rfl h

/-- A call on the cache whose exceptions are caught leaves the cache as the call alone does. -/
theorem cm_onCm_except {m : Py CacheManager α} {a b : α} {c : PyErr → Bool}
    (h : (Py.onExcept c (onCm m) (pure b)).run s = .ok a s') :
    s'.2.cm = (m.run s.2.cm).state := by
  rcases Py.run_onExcept_eq_ok.1 h with h | ⟨e, t, herr, -, hpure⟩
  · obtain ⟨cm, hrun, rfl⟩ := Py.run_onPart_eq_ok.1 h
    rw [hrun]
    rfl
  · rw [EStateM.run_pure, EStateM.Result.ok.injEq] at hpure
    obtain ⟨-, rfl⟩ := hpure
    rw [onCm, Py.run_onPart] at herr
    cases hrun : m.run s.2.cm with
    | ok b t' =>
        rw [hrun] at herr
        cases herr
    | error e' t' =>
        rw [hrun] at herr
        cases herr
        rfl

theorem keeps_queried (cm : CacheManager) (now : Time) (request : Request) (nodeId : NodeId) :
    Py.Keeps cm.Queried (CacheManager.lookup now request nodeId) :=
  fun _ h => h.lookup now request nodeId

theorem keeps_lookup (cm : CacheManager) (now : Time) (request : Request) (nodeId : NodeId) :
    Py.Keeps (OfCache (ς := ς) cm.Queried) (onCm (CacheManager.lookup now request nodeId)) :=
  keeps_onCm (keeps_queried cm now request nodeId)

namespace Wiring

/-- Scheduling returns a decision that the handlers can act on, and looks prompts up at most. -/
theorem run_schedule_returns (hpolicy : w.policy.Contract) (req : Request)
    (hnodes : ∀ n ∈ w.decodeIds.filterMap s.2.nodes.get?, n.nodeId ∈ s.2.cm.caches.keys) :
    ∃ dec sched cm, (w.schedule req).run s =
        .ok dec (s.1, { s.2 with sched := sched, cm := cm }) ∧
      dec.WellFormed ((w.prefillIds.filterMap s.2.nodes.get?).map MockEngineNode.nodeId)
        ((w.decodeIds.filterMap s.2.nodes.get?).map MockEngineNode.nodeId) ∧
      s.2.cm.Queried cm := by
  obtain ⟨dec, t, hrun, hdec, hq⟩ := hpolicy req (w.prefillIds.filterMap s.2.nodes.get?)
    (w.decodeIds.filterMap s.2.nodes.get?) s.2.transferModel.peekBacklog s.1.now s.2.cm hnodes
    (s.2.sched, s.2.cm) .refl
  refine ⟨dec, t.1, t.2, ?_, hdec, hq⟩
  rw [schedule, Py.run_get_bind]
  exact Py.run_onPart_ok hrun

theorem queried_onArrive (hpolicy : w.policy.Contract) {req : Request}
    (hnodes : ∀ n ∈ w.decodeIds.filterMap s.2.nodes.get?, n.nodeId ∈ s.2.cm.caches.keys)
    (h : (w.onArrive req).run s = .ok u s') : s.2.cm.Queried s'.2.cm := by
  obtain ⟨dec, sched, cm, hrun, -, hq⟩ := w.run_schedule_returns hpolicy req hnodes
  rw [onArrive, Py.run_bind_ok hrun] at h
  cases hp : dec.prefillNode with
  | none =>
      simp only [hp] at h
      have hreject : Py.Keeps (OfCache (ς := ς) s.2.cm.Queried) (do
          scheduleAt (← get).1.now (.requestRejected req.requestId dec.rejectReason)) :=
        Py.Keeps.get.bind fun _ => (framed_ofCache _).keeps_scheduleAt _ _
      exact cm_of_keeps hreject hq h
  | some p =>
      simp only [hp] at h
      exact cm_of_keeps ((framed_ofCache _).keeps_acceptArrival (keeps_lookup s.2.cm) _ _ _ _)
        hq h

/-- A request that arrives is assigned to nodes that the scheduler was shown, or to none. -/
theorem decisions_onArrive (hpolicy : w.policy.Contract) {req : Request}
    (hnodes : ∀ n ∈ w.decodeIds.filterMap s.2.nodes.get?, n.nodeId ∈ s.2.cm.caches.keys)
    (h : (w.onArrive req).run s = .ok u s') : s'.2.decisions = s.2.decisions ∨
      ∃ p ∈ (w.prefillIds.filterMap s.2.nodes.get?).map MockEngineNode.nodeId,
        ∃ d ∈ (w.decodeIds.filterMap s.2.nodes.get?).map MockEngineNode.nodeId,
          s'.2.decisions = s.2.decisions.set req.requestId ⟨p, d⟩ := by
  obtain ⟨dec, sched, cm, hrun, hdec, -⟩ := w.run_schedule_returns hpolicy req hnodes
  rw [onArrive, Py.run_bind_ok hrun] at h
  cases hdec with
  | rejected hne hprefill hdecode hreason =>
      simp only [hprefill] at h
      exact Or.inl (congrArg Bookkeeping.decisions (run_scheduleAt h).2)
  | @accepted p d hp hd hprefill hdecode hreason =>
      simp only [hprefill] at h
      obtain ⟨d', lk, running, n, n', s₂, hd', -, -, -, ⟨mb, h₂⟩, hstart⟩ := run_acceptArrival h
      obtain rfl := Option.some_inj.1 (hdecode.symm.trans hd')
      have h₃ : s₂.2.decisions = s.2.decisions.set req.requestId ⟨p, d⟩ :=
        congrArg Bookkeeping.decisions h₂.2
      refine Or.inr ⟨p, hp, d, hd, ?_⟩
      rcases hstart with ⟨-, hstart⟩ | ⟨-, rfl⟩
      · obtain ⟨k, h₄⟩ := run_startPrefill hstart
        exact (congrArg Bookkeeping.decisions h₄.2).trans h₃
      · exact h₃

/-- A request that enters decode is materialized; in the other cases the cache is left alone. -/
theorem cacheStep_onKvTransferComplete {base : TransferPayload} {req : Request}
    (h : (w.onKvTransferComplete base.transferId).run s = .ok u s') :
    CacheStep s s' (.kvTransferComplete base req) := by
  have hsame : s'.2.cm = s.2.cm → CacheStep s s' (.kvTransferComplete base req) := fun hcm =>
    .queried (fun _ _ hp => by cases hp) (hcm ▸ .refl)
  rw [onKvTransferComplete, Py.run_get_bind] at h
  cases hinfo : s.2.pendingTransfers.get? base.transferId with
  | none =>
      simp only [hinfo, EStateM.run_pure, EStateM.Result.ok.injEq, true_and] at h
      exact hsame (by rw [h])
  | some info =>
      simp only [hinfo] at h
      obtain ⟨_, s₁, hmod, h⟩ := Py.bind_eq_ok.1 h
      obtain rfl := run_modifyCluster hmod
      rw [Py.run_get_bind] at h
      cases ha : s.2.decisions.get? info.requestId with
      | none =>
          simp only [ha, EStateM.run_pure, EStateM.Result.ok.injEq, true_and] at h
          exact hsame (by rw [← h])
      | some a =>
          simp only [ha] at h
          rw [enterDecode] at h
          obtain ⟨n, s₂, hnode, hrest⟩ := Py.bind_eq_ok.1 h
          obtain ⟨-, -, rfl⟩ := run_nodeOf hnode
          rw [Py.run_get_bind] at hrest
          dsimp only at hrest
          by_cases hfull : n.nodeConfig.capacity ≤ n.runningRequests.length
          · rw [if_pos hfull] at hrest
            obtain ⟨_, s₃, hsch, hforget⟩ := Py.bind_eq_ok.1 hrest
            have h₃ := cm_eq_of_keeps (fun P => (framed_ofCache P).keeps_scheduleAt _ _) hsch
            have h₄ := cm_eq_of_keeps (fun P => (framed_ofCache P).keeps_forget _) hforget
            exact hsame (h₄.trans h₃)
          · rw [if_neg hfull] at hrest
            obtain ⟨_, s₃, hmat, hrest⟩ := Py.bind_eq_ok.1 hrest
            obtain ⟨res, s₄, hadm, hrest⟩ := Py.bind_eq_ok.1 hrest
            obtain ⟨_, s₅, hdec, hrest⟩ := Py.bind_eq_ok.1 hrest
            obtain ⟨_, s₆, hent, hwake⟩ := Py.bind_eq_ok.1 hrest
            have hcm := cm_onCm_except hmat
            rw [CacheManager.state_bind_pure] at hcm
            have hb₃ := (run_onCm_except hmat).2
            obtain ⟨_, _, -, -, -, hb₄⟩ := run_onNode hadm
            obtain ⟨_, _, -, -, -, hb₅⟩ := run_onNode hdec
            obtain rfl := run_modifyCluster hent
            have hentered₅ : s₅.2.entered = s.2.entered := by
              have h₅ := congrArg Bookkeeping.entered hb₅
              rw [hb₄, hb₃] at h₅
              exact h₅
            refine .materialized hinfo ha ?_ ?_
            · have hb := congrArg Bookkeeping.entered (run_wakeBatchStep hwake).2
              rw [Bookkeeping.wake_entered] at hb
              exact hb.trans (congrArg (· ++ [info.requestId]) hentered₅)
            · have hP := framed_ofCache (ς := ς)
              have h₅ := cm_eq_of_keeps (fun P => (hP P).keeps_onNode _ _) hdec
              have h₄ := cm_eq_of_keeps (fun P => (hP P).keeps_onNode _ _) hadm
              have h₆ := cm_eq_of_keeps (fun P => (hP P).keeps_wakeBatchStep _ _) hwake
              exact h₆.trans (h₅.trans (h₄.trans hcm))

/-- A request whose stream is finished is released. -/
theorem cm_onDecodeComplete {r : RequestId} {d : NodeId}
    (h : (w.onDecodeComplete r d).run s = .ok u s') :
    s'.2.cm = s.2.cm.apply (.release r d) := by
  rw [onDecodeComplete] at h
  obtain ⟨n, s₁, hnode, hrest⟩ := Py.bind_eq_ok.1 h
  obtain ⟨-, -, rfl⟩ := run_nodeOf hnode
  obtain ⟨pr, s₂, hcomp, hrest⟩ := Py.bind_eq_ok.1 hrest
  obtain ⟨_, s₃, hrel, hrest⟩ := Py.bind_eq_ok.1 hrest
  have hP := framed_ofCache (ς := ς)
  have h₂ := cm_eq_of_keeps (fun P => (hP P).keeps_completeOn _ _) hcomp
  have h₃ := cm_onCm_except hrel
  rw [h₂] at h₃
  have htail := cm_eq_of_keeps (fun P => ((hP P).keeps_forget r).bind fun _ =>
    Py.Keeps.get.bind fun _ => (hP P).keeps_wakeBatchStep d _) hrest
  exact htail.trans h₃

/-- **A handler that returns queries the cache, materializes a request or releases one.** -/
theorem cacheStep_of_run (hpolicy : w.policy.Contract) {p : Payload}
    (hnodes : ∀ n ∈ w.decodeIds.filterMap s.2.nodes.get?, n.nodeId ∈ s.2.cm.caches.keys)
    (h : (w.handle p).run s = .ok u s') : CacheStep s s' p := by
  have hkept : (∀ r d, p ≠ .decodeComplete r d) →
      Py.Keeps (OfCache (ς := ς) s.2.cm.Queried) (w.handle p) → CacheStep s s' p :=
    fun hp hk => .queried hp (cm_of_keeps hk .refl h)
  have hP := framed_ofCache (ς := ς) s.2.cm.Queried
  cases p with
  | requestArrive req =>
      exact .queried (fun _ _ hp => by cases hp) (queried_onArrive hpolicy hnodes h)
  | prefillStart r x req k =>
      exact hkept (fun _ _ hp => by cases hp) (hP.keeps_onPrefillStart (keeps_lookup _) w r x req)
  | prefillComplete r x req =>
      exact hkept (fun _ _ hp => by cases hp)
        (hP.keeps_onPrefillComplete (keeps_lookup _) (fun _ _ hs => hs) w r x req)
  | kvTransferComplete base req => exact cacheStep_onKvTransferComplete h
  | decodeBatchStep x =>
      exact hkept (fun _ _ hp => by cases hp) (hP.keeps_onDecodeBatchStep w x)
  | decodeComplete r d => exact .released (cm_onDecodeComplete h)
  | requestRejected _ _ | scheduled _ _ _ _ | kvTransferStart _ | tokenGenerated _ _ =>
      exact hkept (fun _ _ hp => by cases hp) (.pure _)

end Wiring

end Steps

end NanoKVRouter
