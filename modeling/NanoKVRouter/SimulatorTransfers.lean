/-
**The transfers of a run.**

When a prefill is complete the handler asks the transfer model for a slot and schedules the two
events of the transfer at its ends.  Nothing else asks the model and nothing else schedules such
events.  So the transfer events of a run are those of the slots that have been granted, one slot for
each request, and what holds of the lanes holds of the run: transfers over one lane do not overlap,
and each of them starts as early as it can.

Main definitions:

* `Grant` — a transfer with the time it was asked for and the time it starts;
* `Simulator.history`, `Simulator.transferEvents` — what has been scheduled in a run, and the
  transfer events among it;
* `Granted` — the invariant of a run.

Main results:

* `TransferModel.Follows.grant` — the next slot is the earliest possible one;
* `Wiring.run_onPrefillComplete_granted` — what the end of a prefill asks for;
* `Wiring.ReachesFrom.granted` — the invariant holds in every state that is reached;
* `Wiring.transfers_follow_grants` — **the transfers of a run are exclusive and prompt**.
-/

import NanoKVRouter.SimulatorCacheRuns
import NanoKVRouter.RequestLogs
import NanoKVRouter.TransferLanes

set_option relaxedAutoImplicit false
set_option autoImplicit false

namespace NanoKVRouter

/-! ### Grants -/

/-- A transfer that was granted: what its events carry, its request, when it was asked for and when
it starts. -/
structure Grant where
  base : TransferPayload
  request : Request
  askedAt : Time
  start : Time
deriving DecidableEq

namespace Grant

/-- The end of the transfer. -/
def finish (g : Grant) : Time := g.start + g.base.serviceCostMs

/-- The call of the transfer model. -/
def call (g : Grant) : TransferCall :=
  ⟨g.base.srcNodeId, g.base.dstNodeId, g.askedAt, g.base.serviceCostMs⟩

/-- The slot of its two lanes. -/
def slot (g : Grant) : LaneSchedule.Slot Lane Time := ⟨g.call.job, g.start⟩

/-- The events of the transfer. -/
def events (g : Grant) : List (Time × Payload) :=
  [(g.start, .kvTransferStart g.base), (g.finish, .kvTransferComplete g.base g.request)]

/-- The grant starts as early as it can after the grants `before`: not before it was asked for and,
if the lanes are contended, not before the end of those that share a lane with it. -/
def Prompt (contended : Prop) (before : List Grant) (g : Grant) : Prop :=
  IsLeast {t | g.askedAt ≤ t ∧ (contended → ∀ y ∈ before, y.call.SharesLane g.call → y.finish ≤ t)}
    g.start

/-- Every grant starts as early as it can after those before it. -/
def AllPrompt (contended : Prop) (H : List Grant) : Prop :=
  ∀ before g after, H = before ++ g :: after → g.Prompt contended before

section Lists

variable {contended : Prop} {H : List Grant} {g : Grant}

theorem AllPrompt.concat (h : AllPrompt contended H) (hg : g.Prompt contended H) :
    AllPrompt contended (H ++ [g]) := by
  intro before x after hsplit
  rcases List.eq_nil_or_concat after with rfl | ⟨after, y, rfl⟩
  · obtain ⟨rfl, hx⟩ := List.append_inj' hsplit rfl
    rw [List.cons.injEq] at hx
    exact hx.1 ▸ hg
  · rw [List.concat_eq_append, ← List.cons_append, ← List.append_assoc] at hsplit
    exact h before x after (List.append_inj' hsplit rfl).1

/-- Over contended lanes, grants that share one do not overlap. -/
theorem AllPrompt.pairwise (h : AllPrompt contended H) (hc : contended) :
    H.Pairwise fun x y => x.call.SharesLane y.call → x.finish ≤ y.start := by
  rw [List.pairwise_iff_getElem]
  intro i j hi hj hij hshares
  have hsplit := (List.take_append_drop j H).symm
  rw [List.drop_eq_getElem_cons hj] at hsplit
  exact (h _ _ _ hsplit).1.2 hc _ (List.mem_take_iff_getElem.2 ⟨i, by omega, rfl⟩) hshares

end Lists

end Grant

/-! ### The transfer model follows its grants -/

namespace TransferModel

/-- Lanes are reserved. -/
def Contended : TransferModel → Prop
  | noop => False
  | perNodeLane _ _ => True

/-- No lane has been used. -/
def Unused : TransferModel → Prop
  | noop => True
  | perNodeLane egress ingress => (perNodeLane egress ingress).clocks = fun _ => 0

/-- The clocks of the lanes are those the grants left behind. -/
def Follows : TransferModel → List Grant → Prop
  | noop, _ => True
  | perNodeLane egress ingress, H =>
      LaneSchedule.Remembers 0 (perNodeLane egress ingress).clocks (H.map Grant.slot)

theorem Unused.follows {tm : TransferModel} (h : tm.Unused) : tm.Follows [] := by
  cases tm with
  | noop => trivial
  | perNodeLane egress ingress =>
      rw [Unused] at h
      rw [Follows, h]
      exact LaneSchedule.remembers_nil 0

theorem contended_requestTransfer (tm : TransferModel) (src dst : NodeId) (now cost : Time) :
    (tm.requestTransfer src dst now cost).2.Contended ↔ tm.Contended := by
  cases tm <;> rfl

/-- **The next slot is the earliest possible one.** -/
theorem Follows.grant {tm : TransferModel} {H : List Grant} {g : Grant} (h : tm.Follows H)
    (hnow : 0 ≤ g.askedAt) (hcost : 0 ≤ g.base.serviceCostMs)
    (hstart : g.start = (tm.requestTransfer g.base.srcNodeId g.base.dstNodeId g.askedAt
      g.base.serviceCostMs).1.1) :
    (tm.requestTransfer g.base.srcNodeId g.base.dstNodeId g.askedAt
      g.base.serviceCostMs).2.Follows (H ++ [g]) ∧ g.Prompt tm.Contended H := by
  cases tm with
  | noop =>
      refine ⟨trivial, ⟨?_, fun hc => hc.elim⟩, fun t ht => ?_⟩
      · exact hstart.ge
      · exact hstart.le.trans ht.1
  | perNodeLane egress ingress =>
      rw [Follows] at h
      have hslot : g.start = LaneSchedule.startTime (perNodeLane egress ingress).clocks
          g.call.job := hstart.trans (start_eq egress ingress g.call)
      constructor
      · have hclocks := clocks_requestTransfer egress ingress g.call
        have hremembers := h.reserve (j := g.call.job) hcost
        rw [← hclocks, ← hslot] at hremembers
        rw [requestTransfer, Follows, List.map_append]
        exact hremembers
      · have hleast := h.start_isLeast (j := g.call.job) hnow
        rw [← hslot] at hleast
        have hset : {t | g.askedAt ≤ t ∧ ((perNodeLane egress ingress).Contended → ∀ y ∈ H,
            y.call.SharesLane g.call → y.finish ≤ t)} = {t | g.call.job.now ≤ t ∧
              ∀ x ∈ H.map Grant.slot, x.job.Shares g.call.job → x.finish ≤ t} := by
          ext t
          simp only [Set.mem_ofPred_eq, List.forall_mem_map]
          refine and_congr_right fun _ => ⟨fun hall y hy hs => ?_, fun hall _ y hy hs => ?_⟩
          · exact hall trivial y hy (TransferCall.job_shares_iff.1 hs)
          · exact hall y hy (TransferCall.job_shares_iff.2 hs)
        rw [Grant.Prompt, hset]
        exact hleast

end TransferModel

/-! ### The transfer events of a run -/

/-- Events with their times. -/
def stamped (evs : List (Event Payload)) : List (Time × Payload) :=
  evs.map fun ev => (ev.time, ev.payload)

/-- The transfer events among some events. -/
def transferOf (out : List (Time × Payload)) : List (Time × Payload) :=
  out.filter fun e => e.2.isTransfer

/-- What has been scheduled in a run, handled or not. -/
def Simulator.history {ς : Type} (s : Simulator ς) : List (Time × Payload) :=
  stamped (s.1.processed ++ s.1.queue.events)

/-- The transfer events of a run. -/
def Simulator.transferEvents {ς : Type} (s : Simulator ς) : List (Time × Payload) :=
  transferOf s.history

theorem transferOf_append (out out' : List (Time × Payload)) :
    transferOf (out ++ out') = transferOf out ++ transferOf out' := List.filter_append ..

theorem transferOf_eq_nil {out : List (Time × Payload)} (h : ∀ e ∈ out, e.2.isTransfer = false) :
    transferOf out = [] := List.filter_eq_nil_iff.2 fun e he => by
  rw [h e he]
  exact Bool.false_ne_true

theorem transferOf_events (g : Grant) : transferOf g.events = g.events := rfl

/-- The queue holds its old events and the new ones. -/
theorem Pushes.perm_stamped {eng eng' : SimulationEngine Payload} {out : List (Time × Payload)}
    (h : Pushes eng out eng') :
    (stamped eng'.queue.events).Perm (stamped eng.queue.events ++ out) := by
  induction h with
  | nil => rw [List.append_nil]
  | @cons eng eng' t p out _ _ ih =>
      rw [SimulationEngine.push_queue] at ih
      refine ih.trans ?_
      refine (((EventQueue.heappush_perm _ _).map _).append_right _).trans ?_
      rw [List.map_cons, List.cons_append]
      exact List.perm_middle.symm

section Events

variable {ς : Type} {w : Wiring ς} {s s' : Simulator ς} {out : List (Time × Payload)}

theorem Pushes.history {eng : SimulationEngine Payload} (h : Pushes eng out s'.1)
    (hold : (eng.processed ++ eng.queue.events).Perm (s.1.processed ++ s.1.queue.events)) :
    s'.history.Perm (s.history ++ out) := by
  rw [Simulator.history, h.processed_eq, stamped, List.map_append]
  refine (h.perm_stamped.append_left _).trans ?_
  rw [← List.append_assoc]
  refine List.Perm.append_right _ ?_
  have hmap := hold.map fun ev : Event Payload => (ev.time, ev.payload)
  rwa [List.map_append] at hmap

theorem Pushes.transferEvents {eng : SimulationEngine Payload} (h : Pushes eng out s'.1)
    (hold : (eng.processed ++ eng.queue.events).Perm (s.1.processed ++ s.1.queue.events)) :
    s'.transferEvents.Perm (s.transferEvents ++ transferOf out) := by
  rw [Simulator.transferEvents, Simulator.transferEvents, ← transferOf_append]
  exact (h.history hold).filter _

/-- The event that is handled moves to the past. -/
theorem perm_advance {ev : Event Payload} {rest : List (Event Payload)}
    (hq : s.1.queue.events = ev :: rest) :
    ((s.1.advance ev rest hq).processed ++ (s.1.advance ev rest hq).queue.events).Perm
      (s.1.processed ++ s.1.queue.events) := by
  rw [SimulationEngine.advance_processed, SimulationEngine.advance_events, hq, List.append_assoc,
    List.singleton_append]

end Events

/-! ### What the handlers ask for -/

/-- The property holds of the transfer model in the simulator. -/
def OfLanes {ς : Type} (P : TransferModel → Prop) (s : Simulator ς) : Prop := P s.2.transferModel

theorem framed_ofLanes {ς : Type} (P : TransferModel → Prop) : Framed (OfLanes (ς := ς) P) where
  engine := fun _ _ hs => hs
  books := fun _ _ hs => hs

/-- The transfer of the request `req`, asked for at `now`, is granted. -/
structure Asks {ς : Type} (w : Wiring ς) (now : Time) (r : RequestId) (req : Request)
    (a : Assignment) (tm : TransferModel) (g : Grant) (tm' : TransferModel) : Prop where
  requestId : g.base.requestId = r
  src : g.base.srcNodeId = a.prefillNode
  dst : g.base.dstNodeId = a.decodeNode
  request : g.request = req
  askedAt : g.askedAt = now
  service : g.base.serviceCostMs = transferServiceMs g.request.tokenIds.length
    w.modelCfg.kvBytesPerToken w.bandwidthCfg.gpuToGpu
  queued : g.base.queuedCostMs = g.start - g.askedAt
  cost : g.base.costMs = g.finish - g.askedAt
  start : g.start = (tm.requestTransfer g.base.srcNodeId g.base.dstNodeId g.askedAt
    g.base.serviceCostMs).1.1
  lanes : tm' = (tm.requestTransfer g.base.srcNodeId g.base.dstNodeId g.askedAt
    g.base.serviceCostMs).2

section Handlers

variable {ς α : Type} {w : Wiring ς} {s s' : Simulator ς} {u : Unit}

theorem keepsLanes_onCm (P : TransferModel → Prop) (m : Py CacheManager α) :
    Py.Keeps (OfLanes (ς := ς) P) (onCm m) :=
  Py.Keeps.onPart (Q := fun _ => True) (fun _ _ => trivial) (fun _ _ => trivial)
    fun _ _ hs _ => hs

theorem keepsLanes_schedule (P : TransferModel → Prop) (w : Wiring ς) (req : Request) :
    Py.Keeps (OfLanes P) (w.schedule req) := by
  refine Py.Keeps.get.bind fun s => ?_
  exact Py.Keeps.onPart (Q := fun _ => True) (fun _ _ => trivial) (fun _ _ => trivial)
    fun _ _ hs _ => hs

/-- A call that keeps every property of the lanes leaves them alone when it returns. -/
theorem lanes_eq_of_keeps {m : Py (Simulator ς) α} {a : α}
    (hm : ∀ P : TransferModel → Prop, Py.Keeps (OfLanes P) m) (h : m.run s = .ok a s') :
    s'.2.transferModel = s.2.transferModel := by
  have hstate := hm (fun tm => tm = s.2.transferModel) s rfl
  rw [h] at hstate
  exact hstate

namespace Wiring

/-- Only the end of a prefill asks for lanes. -/
theorem lanes_of_run {p : Payload} (hp : ∀ r x req, p ≠ .prefillComplete r x req)
    (h : (w.handle p).run s = .ok u s') : s'.2.transferModel = s.2.transferModel := by
  refine lanes_eq_of_keeps (fun P => ?_) h
  have hP := framed_ofLanes (ς := ς) P
  have hlookup := fun now request nodeId =>
    keepsLanes_onCm (ς := ς) P (CacheManager.lookup now request nodeId)
  cases p with
  | requestArrive req => exact hP.keeps_onArrive hlookup w req (keepsLanes_schedule P w req)
  | prefillStart r x req k => exact hP.keeps_onPrefillStart hlookup w r x req
  | prefillComplete r x req => exact absurd rfl (hp r x req)
  | kvTransferComplete base req => exact hP.keeps_onKvTransferComplete (keepsLanes_onCm P) w _
  | decodeBatchStep x => exact hP.keeps_onDecodeBatchStep w x
  | decodeComplete r d => exact hP.keeps_onDecodeComplete (keepsLanes_onCm P) w r d
  | requestRejected _ _ | scheduled _ _ _ _ | kvTransferStart _ | tokenGenerated _ _ => exact .pure _

/-- The transfer of a request is granted by the model and lies in its two events. -/
theorem run_startTransfer_granted {r : RequestId} {req : Request} {a : Assignment}
    (h : (w.startTransfer r req a).run s = .ok u s') : ∃ g : Grant,
      Asks w s.1.now r req a s.2.transferModel g s'.2.transferModel ∧ Pushes s.1 g.events s'.1 := by
  rw [startTransfer, Py.run_get_bind] at h
  dsimp only at h
  obtain ⟨_, s₁, hmod₁, h₁⟩ := Py.bind_eq_ok.1 h
  obtain ⟨tid, s₂, htid, h₂⟩ := Py.bind_eq_ok.1 h₁
  obtain ⟨_, s₃, hmod₂, h₃⟩ := Py.bind_eq_ok.1 h₂
  obtain ⟨_, s₄, hsch, h₄⟩ := Py.bind_eq_ok.1 h₃
  have hlanes := fun P => framed_ofLanes (ς := ς) P
  have htail := (lanes_eq_of_keeps (fun P => (hlanes P).keeps_scheduleAt _ _) h₄).trans
    (lanes_eq_of_keeps (fun P => (hlanes P).keeps_scheduleAt _ _) hsch)
  have hmid := lanes_eq_of_keeps (fun P => (hlanes P).keeps_nextTransferId _) htid
  obtain rfl := run_modifyCluster hmod₁
  obtain rfl := run_modifyCluster hmod₂
  rw [nextTransferId, Py.run_get_bind] at htid
  obtain ⟨_, s₂', hmod₃, hpure⟩ := Py.bind_eq_ok.1 htid
  rw [EStateM.run_pure, EStateM.Result.ok.injEq] at hpure
  obtain ⟨rfl, rfl⟩ := hpure
  obtain rfl := run_modifyCluster hmod₃
  have hpush := (run_scheduleAt hsch).1.append (run_scheduleAt h₄).1
  have hfinish := s.2.transferModel.finish_eq a.prefillNode a.decodeNode s.1.now
    (transferServiceMs req.tokenIds.length w.modelCfg.kvBytesPerToken w.bandwidthCfg.gpuToGpu)
  rw [hfinish] at hpush
  exact ⟨⟨_, req, s.1.now, _⟩, ⟨rfl, rfl, rfl, rfl, rfl, rfl, rfl, rfl, rfl, htail.trans hmid⟩, hpush⟩

/-- **What the end of a prefill asks for**: nothing, if the request is not known, or the transfer
of the request to its decode node. -/
theorem run_onPrefillComplete_granted {r : RequestId} {p : NodeId} {req : Request}
    (h : (w.onPrefillComplete r p req).run s = .ok u s') :
    (s.2.decisions.get? r = none ∧ s' = s) ∨ ∃ a g started, s.2.decisions.get? r = some a ∧
      Asks w s.1.now r req a s.2.transferModel g s'.2.transferModel ∧
      (∀ e ∈ started, ∃ q req' k, e.2 = Payload.prefillStart q p req' k) ∧
      Pushes s.1 (started ++ g.events) s'.1 := by
  obtain ⟨n, -, -, ⟨ha, rfl⟩ | ⟨a, pr, s₂, s₃, ha, hcomp, hstart, htransfer⟩⟩ :=
    run_onPrefillComplete h
  · exact Or.inl ⟨ha, rfl⟩
  · obtain ⟨m, n', -, -, h₂⟩ := run_completeOn hcomp
    have hP := fun P => framed_ofLanes (ς := ς) P
    have hlanes₂ := lanes_eq_of_keeps (fun P => (hP P).keeps_completeOn _ _) hcomp
    obtain ⟨started, hstarted, hpush, hlanes₃⟩ : ∃ started,
        (∀ e ∈ started, ∃ q req' k, e.2 = Payload.prefillStart q p req' k) ∧
        Pushes s₂.1 started s₃.1 ∧ s₃.2.transferModel = s₂.2.transferModel := by
      rcases hstart with ⟨-, rfl⟩ | ⟨q, -, hstart⟩
      · exact ⟨[], fun _ he => absurd he List.not_mem_nil, .nil _, rfl⟩
      · obtain ⟨out, b, hpr, hem⟩ := run_startPromoted hstart
        refine ⟨out, fun e he => ?_, hem.1, ?_⟩
        · obtain ⟨q, req', k, rfl, -⟩ := hpr.mem_events he
          exact ⟨q, req', k, rfl⟩
        · exact lanes_eq_of_keeps (fun P => (hP P).keeps_startPromoted
            (fun _ _ _ => keepsLanes_onCm P _) _ _ _) hstart
    obtain ⟨g, hasks, hgranted⟩ := run_startTransfer_granted htransfer
    have hnow : s₃.1.now = s.1.now := hpush.currentTime_eq.trans h₂.1.currentTime_eq
    rw [hnow, hlanes₃.trans hlanes₂] at hasks
    exact Or.inr ⟨a, g, started, ha, hasks, hstarted, (h₂.1.append hpush).append hgranted⟩

end Wiring

end Handlers

/-! ### Runs -/

section Runs

variable {ς : Type} {w : Wiring ς} {contended : Prop} {s s' : Simulator ς} {H : List Grant}

/-- What holds of the transfers in every state: their events are those of the grants, which are for
different requests, in the order in which their prefills were completed. -/
structure Granted (w : Wiring ς) (contended : Prop) (s : Simulator ς) (H : List Grant) :
    Prop where
  now_nonneg : 0 ≤ s.1.currentTime
  events : s.transferEvents.Perm (H.flatMap Grant.events)
  kind : s.2.transferModel.Contended ↔ contended
  follows : s.2.transferModel.Follows H
  prompt : Grant.AllPrompt contended H
  asked_le : ∀ g ∈ H, g.askedAt ≤ s.1.currentTime
  inOrder : H.Pairwise fun x y => x.askedAt ≤ y.askedAt
  nodup : (H.map fun g => g.base.requestId).Nodup
  service : ∀ g ∈ H, g.base.serviceCostMs = transferServiceMs g.request.tokenIds.length
    w.modelCfg.kvBytesPerToken w.bandwidthCfg.gpuToGpu
  waits : ∀ g ∈ H, g.base.queuedCostMs = g.start - g.askedAt ∧
    g.base.costMs = g.finish - g.askedAt
  prefilled : ∀ g ∈ H, ∃ ev ∈ s.1.processed, ev.time = g.askedAt ∧
    ev.payload = .prefillComplete g.base.requestId g.base.srcNodeId g.request

/-- What brings no transfer in leaves the grants as they are. -/
theorem Granted.congr (h : Granted w contended s H) (hnow : s.1.currentTime ≤ s'.1.currentTime)
    (hevents : s'.transferEvents.Perm s.transferEvents)
    (htm : s'.2.transferModel = s.2.transferModel)
    (hprocessed : ∀ ev ∈ s.1.processed, ev ∈ s'.1.processed) : Granted w contended s' H where
  now_nonneg := h.now_nonneg.trans hnow
  events := hevents.trans h.events
  kind := htm ▸ h.kind
  follows := htm ▸ h.follows
  prompt := h.prompt
  asked_le := fun g hg => (h.asked_le g hg).trans hnow
  inOrder := h.inOrder
  nodup := h.nodup
  service := h.service
  waits := h.waits
  prefilled := fun g hg => (h.prefilled g hg).imp fun _ hev => ⟨hprocessed _ hev.1, hev.2⟩

theorem mem_transferEvents {e : Time × Payload} : e ∈ s.transferEvents ↔
    (∃ ev ∈ s.1.processed ++ s.1.queue.events, (ev.time, ev.payload) = e) ∧
      e.2.isTransfer = true := by
  rw [Simulator.transferEvents, transferOf, List.mem_filter, Simulator.history, stamped,
    List.mem_map]

/-- A request whose prefill ends has not been granted a transfer. -/
theorem Granted.notMem_of_prefilled (h : Granted w contended s H) {stage : RequestId → Stage}
    (hl : Logged s stage) {r : RequestId} {req : Request} {a : Assignment}
    (hstage : stage r = .prefilled req a) : r ∉ H.map fun g => g.base.requestId := by
  intro hmem
  obtain ⟨g, hg, rfl⟩ := List.mem_map.1 hmem
  have hev : (g.start, Payload.kvTransferStart g.base) ∈ s.transferEvents :=
    h.events.mem_iff.2 (List.mem_flatMap.2 ⟨g, hg, List.mem_cons_self⟩)
  obtain ⟨⟨ev, hin, heq⟩, -⟩ := mem_transferEvents.1 hev
  rw [Prod.mk.injEq] at heq
  have hlog : Payload.kvTransferStart g.base ∈ (s.log g.base.requestId).map Prod.snd := by
    refine List.mem_map.2 ⟨_, mem_logIn.2 ⟨ev, hin, ?_, rfl⟩, heq.2⟩
    rw [heq.2]
    rfl
  have hstory := hl.story g.base.requestId
  rw [hstage] at hstory
  generalize (s.log g.base.requestId).map Prod.snd = l at hlog hstory
  cases hstory with
  | prefilled c => simp [Course.prefilled, Course.started, Course.admitted] at hlog

namespace Wiring

theorem granted_start {sched : ς} {cm : CacheManager} {tm : TransferModel} (htm : tm.Unused) :
    Granted w tm.Contended (w.start sched cm tm) [] where
  now_nonneg := le_rfl
  events := .refl _
  kind := Iff.rfl
  follows := htm.follows
  prompt := fun before g after h => by simp at h
  asked_le := fun _ hg => absurd hg List.not_mem_nil
  inOrder := .nil
  nodup := List.nodup_nil
  service := fun _ hg => absurd hg List.not_mem_nil
  waits := fun _ hg => absurd hg List.not_mem_nil
  prefilled := fun _ hg => absurd hg List.not_mem_nil

/-- **A turn grants the transfer of the request whose prefill it ends, and nothing else.** -/
theorem granted_turn (h : Granted w contended s H) {stage : RequestId → Stage} (hst : Staged w s stage)
    (hl : Logged s stage) {ev : Event Payload} {rest : List (Event Payload)}
    {out : List (Time × Payload)} (ht : TurnOf w s ev rest out s')
    (hrun : (w.handle ev.payload).run (s.1.advance ev rest ht.events, s.2) = .ok () s') :
    ∃ H', Granted w contended s' H' := by
  have hfirst : ev ∈ s.1.queue.events := ht.events ▸ List.mem_cons_self
  have htime : s.1.currentTime ≤ ev.time := s.1.timely ev hfirst
  have hnow : s'.1.currentTime = ev.time := ht.pushes.currentTime_eq
  have hprocessed : s'.1.processed = s.1.processed ++ [ev] := ht.pushes.processed_eq
  have hold : ∀ e ∈ s.1.processed, e ∈ s'.1.processed := fun e he =>
    hprocessed ▸ List.mem_append_left _ he
  by_cases hp : ∃ r x req, ev.payload = .prefillComplete r x req
  · obtain ⟨r, x, req, hpayload⟩ := hp
    rw [hpayload] at hrun
    -- the request is known, and its prefill ran on the node it was assigned to
    have hcarries : ev.payload.Carries r := hpayload ▸ ⟨rfl, rfl⟩
    have hpend := ((hst.known r).pending_of_carries ht.events hcarries).1
    rw [hpayload] at hpend
    obtain ⟨a, hstage, rfl⟩ := Stage.eq_prefilled hpend
    have hassigned : s.2.decisions.get? r = some a := by
      rw [(hst.kept r).assignment, hstage]
      rfl
    rcases run_onPrefillComplete_granted hrun with ⟨hnone, -⟩ | ⟨a', g, started, ha, hasks, hstarted,
      hpush⟩
    · rw [hassigned] at hnone
      cases hnone
    · rw [hassigned] at ha
      cases ha
      have hasked : g.askedAt = ev.time := hasks.askedAt
      have hcost : 0 ≤ g.base.serviceCostMs := by
        rw [hasks.service]
        exact transferServiceMs_nonneg _ _ w.bandwidthCfg.gpuToGpu_pos
      obtain ⟨hfollows, hprompt⟩ := h.follows.grant
        (hasked ▸ h.now_nonneg.trans htime) hcost hasks.start
      rw [← hasks.lanes] at hfollows
      have hle : ∀ x ∈ H, x.askedAt ≤ g.askedAt := fun x hx =>
        ((h.asked_le x hx).trans htime).trans hasked.ge
      refine ⟨H ++ [g], ?_, ?_, ?_, hfollows, ?_, ?_, ?_, ?_, ?_, ?_, ?_⟩
      · exact hnow ▸ h.now_nonneg.trans htime
      · have hnone : transferOf started = [] := transferOf_eq_nil fun e he => by
          obtain ⟨q, req', k, heq⟩ := hstarted e he
          rw [heq]
          rfl
        have hevents := hpush.transferEvents (perm_advance ht.events)
        rw [transferOf_append, hnone, List.nil_append, transferOf_events] at hevents
        rw [List.flatMap_append, List.flatMap_singleton]
        exact hevents.trans (h.events.append_right _)
      · rw [hasks.lanes, TransferModel.contended_requestTransfer]
        exact h.kind
      · exact h.prompt.concat (propext h.kind ▸ hprompt)
      · rw [hnow]
        exact List.forall_mem_append.2 ⟨fun x hx => (h.asked_le x hx).trans htime,
          List.forall_mem_singleton.2 hasked.le⟩
      · exact List.pairwise_append.2 ⟨h.inOrder, List.pairwise_singleton _ _, fun x hx y hy =>
          List.mem_singleton.1 hy ▸ hle x hx⟩
      · rw [List.map_append, List.map_singleton, hasks.requestId]
        exact (List.nodup_append.2 ⟨h.nodup, List.nodup_singleton _, fun x hx y hy heq =>
          h.notMem_of_prefilled hl hstage (List.mem_singleton.1 hy ▸ heq ▸ hx)⟩)
      · exact List.forall_mem_append.2 ⟨h.service, List.forall_mem_singleton.2 hasks.service⟩
      · exact List.forall_mem_append.2
          ⟨h.waits, List.forall_mem_singleton.2 ⟨hasks.queued, hasks.cost⟩⟩
      · refine List.forall_mem_append.2 ⟨fun x hx => ?_, List.forall_mem_singleton.2 ?_⟩
        · exact (h.prefilled x hx).imp fun _ hev => ⟨hold _ hev.1, hev.2⟩
        · refine ⟨ev, hprocessed ▸ List.mem_append_right _ (List.mem_singleton_self _),
            hasked.symm, ?_⟩
          rw [hpayload, hasks.requestId, hasks.src, hasks.request]
  · have hp' : ∀ r x req, ev.payload ≠ .prefillComplete r x req := fun r x req heq =>
      hp ⟨r, x, req, heq⟩
    have hlanes := lanes_of_run (s := (s.1.advance ev rest ht.events, s.2)) hp' hrun
    refine ⟨H, h.congr (hnow ▸ htime) ?_ hlanes hold⟩
    have hevents := ht.pushes.transferEvents (perm_advance ht.events)
    rwa [transferOf_eq_nil fun e he => (ht.handles.routine hp' e he).1, List.append_nil] at hevents

/-- **In every state that is reached, the transfers are those that have been granted.** -/
theorem ReachesFrom.granted (hpools : ∀ id ∈ w.prefillIds, id ∉ w.decodeIds) {sched : ς}
    {cm : CacheManager} {tm : TransferModel} (htm : tm.Unused)
    (h : w.ReachesFrom DistinctArrivals (w.start sched cm tm) s) : ∃ H, Granted w tm.Contended s H := by
  induction h with
  | refl => exact ⟨[], granted_start htm⟩
  | @step s s' a h ha hrun ih =>
      obtain ⟨H, hH⟩ := ih
      cases a with
      | arrive t req =>
          obtain ⟨hpush, hsame⟩ := run_arrive hrun
          refine ⟨H, hH.congr hpush.currentTime_eq.ge ?_ (congrArg Cluster.transferModel hsame)
            fun ev hev => hpush.processed_eq ▸ hev⟩
          have hevents := hpush.transferEvents (s := s) (.refl _)
          rwa [transferOf_eq_nil (by simp [Payload.isTransfer]), List.append_nil] at hevents
      | turn =>
          rcases turn_run_cases hrun with ⟨-, rfl⟩ | ⟨ev, rest, out, ht, hhandle⟩
          · exact ⟨H, hH⟩
          · obtain ⟨stage, hst, hl⟩ := (h.reaches (.start sched cm tm)).logged hpools
            exact granted_turn hH hst hl ht hhandle

/-- **The transfers of a run are exclusive and prompt.**  With disjoint pools, distinct ids and
unused lanes, in every state that is reached the transfer events, handled or scheduled, are those of
a list of grants.  Each grant is for another request, it was asked for when the prefill of that
request was completed on the source, and its events carry what it costs.  The grants stand in the
order in which they were asked for and start as early as they can: at once if the lanes are not
contended, and otherwise after the earlier ones they share a lane with, which they do not overlap. -/
theorem transfers_follow_grants (hpools : ∀ id ∈ w.prefillIds, id ∉ w.decodeIds) {sched : ς}
    {cm : CacheManager} {tm : TransferModel} (htm : tm.Unused)
    (h : w.ReachesFrom DistinctArrivals (w.start sched cm tm) s) : ∃ H : List Grant,
      s.transferEvents.Perm (H.flatMap Grant.events) ∧
      (H.map fun g => g.base.requestId).Nodup ∧
      (∀ g ∈ H, ∃ ev ∈ s.1.processed, ev.time = g.askedAt ∧
        ev.payload = .prefillComplete g.base.requestId g.base.srcNodeId g.request) ∧
      (∀ g ∈ H, g.base.serviceCostMs = transferServiceMs g.request.tokenIds.length
          w.modelCfg.kvBytesPerToken w.bandwidthCfg.gpuToGpu ∧
        g.base.queuedCostMs = g.start - g.askedAt ∧ g.base.costMs = g.finish - g.askedAt) ∧
      (H.Pairwise fun x y => x.askedAt ≤ y.askedAt) ∧ Grant.AllPrompt tm.Contended H ∧
      (tm.Contended → H.Pairwise fun x y => x.call.SharesLane y.call → x.finish ≤ y.start) := by
  obtain ⟨H, hH⟩ := h.granted hpools htm
  exact ⟨H, hH.events, hH.nodup, hH.prefilled, fun g hg => ⟨hH.service g hg, hH.waits g hg⟩,
    hH.inOrder, hH.prompt, hH.prompt.pairwise⟩

/-- Two prefill nodes and one decode node. -/
def funnel : Wiring Cursors where
  policy := RoundRobinPolicy.schedule ⟨unitCosts, .defaults⟩
  prefillNodes := [⟨"p0", unitCosts, smallNode 2 Nat.two_pos⟩,
    ⟨"p1", unitCosts, smallNode 2 Nat.two_pos⟩]
  decodeNodes := [⟨"d0", unitCosts, smallNode 2 Nat.two_pos⟩]
  modelCfg := unitCosts
  bandwidthCfg := .defaults
  streamOrder := .byId
  unique := by decide +kernel

/-- Two prompts whose prefills end at the same time. -/
def bothAtOnce : List Action :=
  .arrive 0 ⟨"a", [1, 2], 2, 0, 100, 100⟩ :: .arrive 0 ⟨"b", [3, 4], 2, 0, 100, 100⟩ ::
    List.replicate 10 .turn

/-- The prompts wait for each other, on unused lanes. -/
def funnelStart : Simulator Cursors :=
  funnel.fresh {} (smallNode 2 Nat.two_pos) .perNodeLaneInit

/-- Both transfers are asked for at one time, and the second waits for the first. -/
theorem transfers_follow_grants_two :
    ((funnel.execute bothAtOnce).run funnelStart).state.transferEvents.map Prod.fst =
        [2, 300000001 / 150000000, 300000001 / 150000000, 150000001 / 75000000] ∧
      ∃ H : List Grant, ((funnel.execute bothAtOnce).run funnelStart).state.transferEvents.Perm
          (H.flatMap Grant.events) ∧
        H.Pairwise fun x y => x.call.SharesLane y.call → x.finish ≤ y.start := by
  have hm : funnel.Meets DistinctArrivals bothAtOnce funnelStart := by decide +kernel
  have hok : ((funnel.execute bothAtOnce).run funnelStart).isOk = true := by decide +kernel
  have hpools : ∀ id ∈ funnel.prefillIds, id ∉ funnel.decodeIds := by decide +kernel
  have htimes : ((funnel.execute bothAtOnce).run funnelStart).state.transferEvents.map Prod.fst =
      [2, 300000001 / 150000000, 300000001 / 150000000, 150000001 / 75000000] := by decide +kernel
  have htm : TransferModel.perNodeLaneInit.Unused := TransferModel.clocks_init
  obtain ⟨H, hevents, -, -, -, -, -, hexclusive⟩ := transfers_follow_grants hpools htm
    (ReachesFrom.execute .refl hm hok)
  exact ⟨htimes, H, hevents, hexclusive trivial⟩

end Wiring

end Runs

end NanoKVRouter
