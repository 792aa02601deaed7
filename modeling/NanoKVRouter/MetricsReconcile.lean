/-
**The collected metrics reconcile with the run.**

The collector sees one event after another and keeps, for each request, a few bits: the request has
arrived, it is prefilled, it is decoded, its number of chunks is known, its transfer has been
started.  What an event does to these bits depends on the events about the same request only, so
they are the result of the log of the request, and its story decides them: when it has ended they
are all clear.  The samples are read off the events that the collector has accepted, which are all
of them, because every event finds the bits as its handler expects them.

Main definitions:

* `Collected` — a collector that has observed some events;
* `MetricsView`, `MetricsCollector.view` — what the collector keeps of a request;
* `Ending` — the stories that have ended;
* `Tally` — the counts and the samples;
* `Reconciled` — the metrics agree with the events.

Main results:

* `Collected.view_eq` — the view of a request is the result of its log;
* `Ending.settles` — a story that has ended is accepted, and leaves nothing in the view;
* `Collected.tally_eq` — the counts and the samples of a collector that accepts its events;
* `Wiring.metrics_reconcile` — **the metrics of a drained run reconcile with it**.
-/

import Mathlib.Algebra.BigOperators.Group.List.Basic
import NanoKVRouter.MetricsAttach
import NanoKVRouter.RequestLogs

set_option relaxedAutoImplicit false
set_option autoImplicit false

namespace NanoKVRouter

/-! ### Collectors of runs -/

/-- The collector has observed some events, whatever it has read from payloads and nodes. -/
inductive Collected : MetricsCollector → List (Event Payload) → Prop
  | init : Collected .init []
  | observe {m : MetricsCollector} {evs : List (Event Payload)} (h : Collected m evs)
      (nodes : PyDict NodeId MockEngineNode) (batchSize : Option ℕ) (ev : Event Payload) :
      Collected (m.observe nodes batchSize ev.time ev.payload) (evs ++ [ev])

namespace Wiring

variable {ς : Type} {w : Wiring ς}

/-- The handler of the simulator processes no event and leaves the collector as it is. -/
theorem collected_of_simulate {ev : Event Payload} {s s' : Observed ς} {u : Unit}
    (h : (w.simulate ev).run s = .ok u s') :
    s'.1.processed = s.1.processed ∧ s'.2.2.collector = s.2.2.collector := by
  rw [simulate, Py.run_get_bind] at h
  obtain ⟨_, s₁, hrun, hmod⟩ := Py.bind_eq_ok.1 h
  obtain ⟨sim, hhandle, rfl⟩ := Py.run_onPart_eq_ok.1 hrun
  rw [EStateM.run_modify, EStateM.Result.ok.injEq] at hmod
  obtain ⟨-, rfl⟩ := hmod
  obtain ⟨out, b, -, hpush, -⟩ := handles_of_run hhandle
  exact ⟨hpush.processed_eq, Metrics.collector_write _ _ _⟩

/-- A turn with a collector. -/
theorem collected_of_turn {order : AttachOrder} {s s' : Observed ς} {u : Unit}
    (hs : Collected s.2.2.collector s.1.processed)
    (h : (SimulationEngine.turn (w.observedHandlers order)).run s = .ok u s') :
    Collected s'.2.2.collector s'.1.processed := by
  cases hq : s.1.queue.events with
  | nil =>
      rw [SimulationEngine.run_turn_nil _ hq, EStateM.Result.ok.injEq] at h
      exact h.2 ▸ hs
  | cons ev rest =>
      rw [SimulationEngine.run_turn_cons _ hq] at h
      cases order with
      | collectorFirst =>
          obtain ⟨_, s₁, hcollect, hrest⟩ := Py.bind_eq_ok.1 h
          rw [collect_run, EStateM.Result.ok.injEq] at hcollect
          obtain ⟨-, rfl⟩ := hcollect
          obtain ⟨_, s₂, hsim, hpure⟩ := Py.bind_eq_ok.1 hrest
          cases hpure
          obtain ⟨hproc, hcoll⟩ := collected_of_simulate hsim
          rw [hproc, hcoll]
          exact hs.observe _ _ ev
      | collectorLast =>
          obtain ⟨_, s₁, hsim, hrest⟩ := Py.bind_eq_ok.1 h
          obtain ⟨_, s₂, hcollect, hpure⟩ := Py.bind_eq_ok.1 hrest
          cases hpure
          rw [collect_run, EStateM.Result.ok.injEq] at hcollect
          obtain ⟨-, rfl⟩ := hcollect
          obtain ⟨hproc, hcoll⟩ := collected_of_simulate hsim
          change Collected (s₁.2.2.collector.observe _ _ ev.time ev.payload) s₁.1.processed
          rw [hproc, hcoll]
          exact hs.observe _ _ ev

/-- **The collector of a run in which nothing is raised has observed the processed events.** -/
theorem collected_of_observe {order : AttachOrder} : ∀ {acts : List Action} {s s' : Observed ς}
    {u : Unit}, Collected s.2.2.collector s.1.processed →
    (w.observe order acts).run s = .ok u s' → Collected s'.2.2.collector s'.1.processed := by
  intro acts
  induction acts with
  | nil =>
      intro s s' u hs h
      cases h
      exact hs
  | cons a acts ih =>
      intro s s' u hs h
      rw [observe, Py.run_forM_cons] at h
      obtain ⟨_, s₁, hact, hrest⟩ := Py.bind_eq_ok.1 h
      refine ih ?_ hrest
      cases a with
      | turn => exact collected_of_turn hs hact
      | arrive time request =>
          obtain ⟨eng, hrun, rfl⟩ := Py.run_onPart_eq_ok.1 hact
          obtain ⟨hle, rfl⟩ := SimulationEngine.run_schedule_ok_iff.1 hrun
          exact hs

end Wiring

/-! ### Views -/

/-- What the collector keeps of a request: it has arrived and has got its first token; its number
of chunks is known; it is prefilled, it is decoded; its transfer has been started. -/
@[ext] structure MetricsView where
  arrived : Bool
  ttft : Bool
  chunks : Bool
  prefilling : Bool
  decoding : Bool
  seen : Bool
deriving DecidableEq

namespace MetricsView

/-- Nothing. -/
def init : MetricsView := ⟨false, false, false, false, false, false⟩

/-- What an event about the request does, where its transfer has the id `tid`. -/
def step (tid : String) (v : MetricsView) : Payload → MetricsView
  | .requestArrive _ => { v with arrived := true, ttft := false }
  | .scheduled .. => v
  | .requestRejected .. => { v with chunks := false, prefilling := false }
  | .prefillStart .. => { v with chunks := true, prefilling := true }
  | .prefillComplete .. => { v with prefilling := false }
  | .kvTransferStart base => { v with seen := v.seen || base.transferId = tid }
  | .kvTransferComplete base _ => { v with seen := v.seen && base.transferId ≠ tid }
  | .decodeBatchStep _ => v
  | .tokenGenerated _ i =>
      if v.arrived && i = 0 && !v.ttft then { v with ttft := true, decoding := true } else v
  | .decodeComplete .. => if v.arrived then { v with chunks := false, decoding := false } else v

/-- The handler of an event about the request finds what it expects. -/
def Ready (tid : String) (v : MetricsView) : Payload → Prop
  | .requestArrive _ => v.arrived = false
  | .kvTransferComplete base _ => base.transferId = tid ∧ v.seen = true
  | .tokenGenerated _ i => i = 0 → v.arrived = true ∧ v.ttft = false
  | .decodeComplete .. => v.arrived = true
  | _ => True

/-- The handlers of some events about the request find what they expect. -/
def Accepts (tid : String) : MetricsView → List Payload → Prop
  | _, [] => True
  | v, p :: ps => v.Ready tid p ∧ Accepts tid (v.step tid p) ps

theorem accepts_append {tid : String} {ps ps' : List Payload} : ∀ {v : MetricsView},
    v.Accepts tid (ps ++ ps') ↔ v.Accepts tid ps ∧ (ps.foldl (step tid) v).Accepts tid ps' := by
  induction ps with
  | nil =>
      intro v
      exact (and_iff_right trivial).symm
  | cons p ps ih =>
      intro v
      rw [List.cons_append, Accepts, Accepts, ih, and_assoc, List.foldl_cons]

end MetricsView

/-- The request has got its first token. -/
def RequestRecord.answered (rec : RequestRecord) : Bool := rec.ttft.isSome

/-- What the collector keeps of a request whose transfer has the id `tid`. -/
def MetricsCollector.view (m : MetricsCollector) (r : RequestId) (tid : String) : MetricsView where
  arrived := (m.requests.get? r).isSome
  ttft := (m.requests.get? r).any RequestRecord.answered
  chunks := (m.requestNChunks.get? r).isSome
  prefilling := r ∈ m.activePrefills
  decoding := r ∈ m.activeDecodes
  seen := tid ∈ m.seenTransferIds

section Views

variable {m : MetricsCollector} {nodes : PyDict NodeId MockEngineNode} {batchSize : Option ℕ}
  {time : Time} {p : Payload} {r : RequestId} {tid : String}

/-- The transfer of a request is no longer seen. -/
theorem view_observe_transferComplete_own (base : TransferPayload) (req : Request) :
    (m.observe nodes batchSize time (.kvTransferComplete base req)).view r tid =
      (m.view r tid).step tid (.kvTransferComplete base req) := by
  rw [MetricsCollector.observe, MetricsCollector.onKvTransferComplete]
  by_cases hseen : base.transferId ∈ m.seenTransferIds
  · rw [if_pos hseen]
    refine MetricsView.ext rfl rfl rfl rfl rfl ?_
    simp [MetricsCollector.view, MetricsView.step, eq_comm, Bool.and_comm]
  · rw [if_neg hseen]
    refine MetricsView.ext rfl rfl rfl rfl rfl ?_
    have hne : tid ∈ m.seenTransferIds → base.transferId ≠ tid := fun h heq => hseen (heq ▸ h)
    simpa [MetricsCollector.view, MetricsView.step] using hne

/-- A token of the request: the first answers it, if it is known and not answered yet. -/
theorem view_observe_tokenGenerated_own (i : ℤ) :
    (m.observe nodes batchSize time (.tokenGenerated r i)).view r tid =
      (m.view r tid).step tid (.tokenGenerated r i) := by
  rw [MetricsCollector.observe, MetricsCollector.onDecodeStep]
  cases hrec : m.requests.get? r with
  | none => simp [MetricsCollector.view, MetricsView.step, hrec]
  | some rec =>
      by_cases hi : i = 0
      · by_cases ht : rec.ttft.isSome = true
        · simp [MetricsCollector.view, MetricsView.step, RequestRecord.answered, hrec, hi, ht]
        · refine MetricsView.ext ?_ ?_ ?_ ?_ ?_ ?_ <;>
            simp [MetricsCollector.view, MetricsView.step, RequestRecord.answered, hrec, hi, ht]
      · cases hlast : m.lastDecodeStepTime.get? r with
        | none =>
            simp [MetricsCollector.view, MetricsView.step, RequestRecord.answered, hrec, hi]
        | some last =>
            simp [MetricsCollector.view, MetricsView.step, RequestRecord.answered, hrec, hi]

/-- An event about the request. -/
theorem view_observe_own (hp : p.owner = some r) :
    (m.observe nodes batchSize time p).view r tid = (m.view r tid).step tid p := by
  cases p with
  | requestArrive req =>
      obtain rfl := Option.some_inj.1 hp
      have hget := PyDict.get?_set_self m.requests req.requestId
        ⟨time, req.tokenIds.length, req.sloTtft, none, none⟩
      exact MetricsView.ext (congrArg Option.isSome hget)
        (congrArg (Option.any RequestRecord.answered) hget) rfl rfl rfl rfl
  | scheduled r' dec mt mb =>
      obtain rfl := Option.some_inj.1 hp
      rw [MetricsCollector.observe, MetricsCollector.onScheduled]
      cases hrec : m.requests.get? r' with
      | none => rfl
      | some rec =>
          refine MetricsView.ext ?_ ?_ rfl rfl rfl rfl <;>
            simp [MetricsCollector.view, MetricsView.step, RequestRecord.answered, hrec]
  | requestRejected r' reason =>
      obtain rfl := Option.some_inj.1 hp
      exact MetricsView.ext rfl rfl
        (congrArg Option.isSome (PyDict.get?_erase_self m.requestNChunks r'))
        (decide_eq_false (Finset.notMem_erase r' m.activePrefills)) rfl rfl
  | prefillStart r' p req k =>
      obtain rfl := Option.some_inj.1 hp
      exact MetricsView.ext rfl rfl
        (congrArg Option.isSome (PyDict.get?_set_self m.requestNChunks r' k))
        (decide_eq_true (Finset.mem_insert_self r' m.activePrefills)) rfl rfl
  | prefillComplete r' p req =>
      obtain rfl := Option.some_inj.1 hp
      exact MetricsView.ext rfl rfl rfl
        (decide_eq_false (Finset.notMem_erase r' m.activePrefills)) rfl rfl
  | kvTransferStart base =>
      refine MetricsView.ext rfl rfl rfl rfl rfl ?_
      simp [MetricsCollector.observe, MetricsCollector.onKvTransferStart, MetricsCollector.view,
        MetricsView.step, eq_comm, Bool.or_comm]
  | kvTransferComplete base req => exact view_observe_transferComplete_own base req
  | decodeBatchStep id => cases hp
  | tokenGenerated r' i =>
      obtain rfl := Option.some_inj.1 hp
      exact view_observe_tokenGenerated_own i
  | decodeComplete r' d =>
      obtain rfl := Option.some_inj.1 hp
      rw [MetricsCollector.observe, MetricsCollector.onDecodeComplete]
      cases hrec : m.requests.get? r' with
      | none => simp [MetricsCollector.view, MetricsView.step, hrec]
      | some rec =>
          refine MetricsView.ext ?_ ?_ ?_ ?_ ?_ ?_ <;>
            simp [MetricsCollector.view, MetricsView.step, RequestRecord.answered, hrec]

/-- A token of another request. -/
theorem view_observe_tokenGenerated_other {r' : RequestId} (i : ℤ) (hne : r ≠ r') :
    (m.observe nodes batchSize time (.tokenGenerated r' i)).view r tid = m.view r tid := by
  rw [MetricsCollector.observe, MetricsCollector.onDecodeStep]
  cases hrec : m.requests.get? r' with
  | none => rfl
  | some rec =>
      by_cases hi : i = 0
      · by_cases ht : rec.ttft.isSome = true
        · simp only [hi, ht, if_true]
        · have hget := PyDict.get?_set_of_ne m.requests
            { rec with ttft := some (time - rec.arrivalTime) } hne
          simp only [hi, ht, if_true]
          exact MetricsView.ext (congrArg Option.isSome hget)
            (congrArg (Option.any RequestRecord.answered) hget) rfl rfl
            (decide_eq_decide.2 (Finset.mem_insert.trans (or_iff_right hne))) rfl
      · simp only [hi, if_false]
        cases m.lastDecodeStepTime.get? r' with
        | none => rfl
        | some last => rfl

/-- An event about another request, or about none. -/
theorem view_observe_other (hp : p.owner ≠ some r) (hc : p.Consistent) (htid : TransferOf r tid) :
    (m.observe nodes batchSize time p).view r tid = m.view r tid := by
  -- the id of a transfer names its request, so that it is not that of another one
  have hother : ∀ base : TransferPayload, base.Consistent → base.requestId ≠ r →
      tid ≠ base.transferId := by
    intro base hb hne heq
    exact hne (TransferOf.unique hb.named (heq ▸ htid))
  cases p with
  | requestArrive req =>
      have hget := PyDict.get?_set_of_ne m.requests
        ⟨time, req.tokenIds.length, req.sloTtft, none, none⟩ fun h => hp (congrArg some h.symm)
      exact MetricsView.ext (congrArg Option.isSome hget)
        (congrArg (Option.any RequestRecord.answered) hget) rfl rfl rfl rfl
  | scheduled r' dec mt mb =>
      have hne : r ≠ r' := fun h => hp (congrArg some h.symm)
      rw [MetricsCollector.observe, MetricsCollector.onScheduled]
      cases hrec : m.requests.get? r' with
      | none => rfl
      | some rec =>
          have hget := PyDict.get?_set_of_ne m.requests { rec with matchedTokens := some mt } hne
          exact MetricsView.ext (congrArg Option.isSome hget)
            (congrArg (Option.any RequestRecord.answered) hget) rfl rfl rfl rfl
  | requestRejected r' reason =>
      have hne : r ≠ r' := fun h => hp (congrArg some h.symm)
      exact MetricsView.ext rfl rfl
        (congrArg Option.isSome (PyDict.get?_erase_of_ne m.requestNChunks hne))
        (decide_eq_decide.2 (Finset.mem_erase.trans (and_iff_right hne))) rfl rfl
  | prefillStart r' p req k =>
      have hne : r ≠ r' := fun h => hp (congrArg some h.symm)
      exact MetricsView.ext rfl rfl
        (congrArg Option.isSome (PyDict.get?_set_of_ne m.requestNChunks k hne))
        (decide_eq_decide.2 (Finset.mem_insert.trans (or_iff_right hne))) rfl rfl
  | prefillComplete r' p req =>
      have hne : r ≠ r' := fun h => hp (congrArg some h.symm)
      exact MetricsView.ext rfl rfl rfl
        (decide_eq_decide.2 (Finset.mem_erase.trans (and_iff_right hne))) rfl rfl
  | kvTransferStart base =>
      have hne := hother base hc fun h => hp (congrArg some h)
      exact MetricsView.ext rfl rfl rfl rfl rfl
        (decide_eq_decide.2 (Finset.mem_insert.trans (or_iff_right hne)))
  | kvTransferComplete base req =>
      have hne := hother base hc fun h => hp (congrArg some h)
      rw [MetricsCollector.observe, MetricsCollector.onKvTransferComplete]
      by_cases hseen : base.transferId ∈ m.seenTransferIds
      · rw [if_pos hseen]
        exact MetricsView.ext rfl rfl rfl rfl rfl
          (decide_eq_decide.2 (Finset.mem_erase.trans (and_iff_right hne)))
      · rw [if_neg hseen]
  | decodeBatchStep id =>
      rw [MetricsCollector.observe, MetricsCollector.onDecodeBatchStep]
      split
      · rfl
      · rfl
  | tokenGenerated r' i =>
      exact view_observe_tokenGenerated_other i fun h => hp (congrArg some h.symm)
  | decodeComplete r' d =>
      have hne : r ≠ r' := fun h => hp (congrArg some h.symm)
      rw [MetricsCollector.observe, MetricsCollector.onDecodeComplete]
      cases hrec : m.requests.get? r' with
      | none => rfl
      | some rec =>
          exact MetricsView.ext rfl rfl
            (congrArg Option.isSome (PyDict.get?_erase_of_ne m.requestNChunks hne)) rfl
            (decide_eq_decide.2 (Finset.mem_erase.trans (and_iff_right hne))) rfl

/-- **The view of a request is the result of its log.** -/
theorem Collected.view_eq {evs : List (Event Payload)} (h : Collected m evs)
    (hc : ∀ ev ∈ evs, ev.payload.Consistent) (htid : TransferOf r tid) :
    m.view r tid = ((logIn r evs).map Prod.snd).foldl (MetricsView.step tid) .init := by
  induction h with
  | init => rfl
  | @observe m evs h nodes batchSize ev ih =>
      have hold := ih fun ev hev => hc ev (List.mem_append_left _ hev)
      have hlast := hc ev (List.mem_append_right _ (List.mem_singleton_self _))
      rw [logIn_append, List.map_append, List.foldl_append, ← hold]
      by_cases hp : ev.payload.owner = some r
      · rw [view_observe_own hp, logIn, List.filter_cons_of_pos (by simpa using hp)]
        rfl
      · rw [view_observe_other hp hlast htid, logIn, List.filter_cons_of_neg (by simpa using hp)]
        rfl

end Views

/-! ### Endings -/

/-- What has been logged of the request `r` when it has ended, or has never arrived. -/
inductive Ending (r : RequestId) : List Payload → Prop
  | absent : Ending r []
  | rejected (req : Request) (reason : Option String) :
      Ending r [.requestArrive req, .requestRejected r reason]
  | refused (c : Course) (reason : Option String) :
      Ending r (c.transferred r ++ [.requestRejected r reason])
  | completed (c : Course) (g : ℕ) : Ending r (c.decoded r (g + 1))

/-- The story of a request that is gone has ended. -/
theorem Stage.Story.ending {prefillIds decodeIds : List NodeId} {r : RequestId} {st : Stage}
    {l : List Payload} (h : st.Story r l) (hgone : st.IsGone)
    (hv : st.Valid prefillIds decodeIds r) : Ending r l := by
  cases h with
  | absent => exact .absent
  | dismissed req reason => exact .rejected req reason
  | dismissedLate c reason => exact .refused c reason
  | finished c g =>
      -- at least one token is generated
      have hpos : 1 ≤ g := hv.2.2 ▸ Stage.one_le_goal c.request
      obtain ⟨g, rfl⟩ := Nat.exists_eq_add_of_le' hpos
      exact .completed c g
  | _ => exact hgone.elim

/-- The events of a request whose transfer has the id `tid` are accepted, and they leave nothing
in the view but that the request has arrived, and perhaps got its first token. -/
structure Settles (r : RequestId) (tid : String) (l : List Payload) : Prop where
  named : TransferOf r tid
  starts : ∀ base, .kvTransferStart base ∈ l → base.transferId = tid
  accepts : MetricsView.Accepts tid .init l
  clear : ∃ arrived ttft, l.foldl (MetricsView.step tid) .init =
    ⟨arrived, ttft, false, false, false, false⟩

/-- The tokens of a request. -/
def tokensOf (r : RequestId) (g : ℕ) : List Payload :=
  (List.range g).map fun i : ℕ => .tokenGenerated r i

section Endings

variable {r : RequestId} {tid : String}

/-- The first token is noted, the others change nothing. -/
theorem foldl_tokensOf (g : ℕ) {v : MetricsView} (ha : v.arrived = true) (ht : v.ttft = false) :
    (tokensOf r (g + 1)).foldl (MetricsView.step tid) v =
        { v with ttft := true, decoding := true } ∧
      v.Accepts tid (tokensOf r (g + 1)) := by
  induction g with
  | zero =>
      refine ⟨?_, ?_⟩
      · simp [tokensOf, MetricsView.step, ha, ht]
      · simp [tokensOf, MetricsView.Accepts, MetricsView.Ready, ha, ht]
  | succ g ih =>
      have hsucc : tokensOf r (g + 1 + 1) =
          tokensOf r (g + 1) ++ [.tokenGenerated r ((g + 1 : ℕ) : ℤ)] := by
        rw [tokensOf, List.range_succ, List.map_append]
        rfl
      have hne : ((g + 1 : ℕ) : ℤ) ≠ 0 := by omega
      rw [hsucc, List.foldl_append, MetricsView.accepts_append, ih.1]
      refine ⟨?_, ih.2, fun h => absurd h hne, trivial⟩
      simp [MetricsView.step]

/-- What is left of a request that has been transferred. -/
theorem foldl_transferred (c : Course) (hid : c.base.transferId = tid) :
    (c.transferred r).foldl (MetricsView.step tid) .init =
        ⟨true, false, true, false, false, false⟩ ∧
      MetricsView.Accepts tid .init (c.transferred r) := by
  constructor
  · simp [Course.transferred, Course.prefilled, Course.started, Course.admitted, MetricsView.init,
      MetricsView.step, hid]
  · simp [Course.transferred, Course.prefilled, Course.started, Course.admitted, MetricsView.init,
      MetricsView.step, MetricsView.Accepts, MetricsView.Ready, hid]

/-- The start of the transfer of a request that has been transferred. -/
theorem start_of_mem_transferred {c : Course} {base : TransferPayload}
    (h : .kvTransferStart base ∈ c.transferred r) : base = c.base := by
  simpa [Course.transferred, Course.prefilled, Course.started, Course.admitted] using h

/-- **A story that has ended is accepted**, and nothing is left of it. -/
theorem Ending.settles {l : List Payload} (h : Ending r l)
    (hown : ∀ p ∈ l, p.owner = some r) (hc : ∀ p ∈ l, p.Consistent) : ∃ tid, Settles r tid l := by
  -- the transfer of a course
  have hnamed : ∀ {c : Course} {l' : List Payload}, l = c.transferred r ++ l' →
      TransferOf r c.base.transferId := by
    intro c l' hl
    have hmem : .kvTransferStart c.base ∈ l := by
      rw [hl]
      exact List.mem_append_left _ (List.mem_append_right _ List.mem_cons_self)
    have hr := Option.some_inj.1 (hown _ hmem)
    exact hr ▸ (hc _ hmem).named
  cases h with
  | absent => exact ⟨_, ⟨0, rfl⟩, fun _ h => absurd h List.not_mem_nil, trivial, false, false, rfl⟩
  | rejected req reason =>
      refine ⟨_, ⟨0, rfl⟩, fun base h => ?_, ⟨rfl, trivial, trivial⟩, true, false, rfl⟩
      simp at h
  | refused c reason =>
      obtain ⟨hfold, hacc⟩ := foldl_transferred (r := r) c rfl
      refine ⟨_, hnamed rfl, fun base h => ?_, ?_, true, false, ?_⟩
      · rcases List.mem_append.1 h with h | h
        · rw [start_of_mem_transferred h]
        · cases List.mem_singleton.1 h
      · rw [MetricsView.accepts_append]
        exact ⟨hacc, trivial, trivial⟩
      · rw [List.foldl_append, hfold]
        rfl
  | completed c g =>
      obtain ⟨hfold, hacc⟩ := foldl_transferred (r := r) c rfl
      have hl : c.decoded r (g + 1) = c.transferred r ++
          (tokensOf r (g + 1) ++ [.decodeComplete r c.assignment.decodeNode]) :=
        List.append_assoc _ _ _
      obtain ⟨htokens, htacc⟩ := @foldl_tokensOf r c.base.transferId g
        ⟨true, false, true, false, false, false⟩ rfl rfl
      refine ⟨_, hnamed hl, fun base h => ?_, ?_, true, true, ?_⟩
      · rw [hl] at h
        rcases List.mem_append.1 h with h | h
        · rw [start_of_mem_transferred h]
        · simp [tokensOf] at h
      · rw [hl, MetricsView.accepts_append, MetricsView.accepts_append, hfold, htokens]
        exact ⟨hacc, htacc, rfl, trivial⟩
      · rw [hl, List.foldl_append, List.foldl_append, hfold, htokens]
        rfl

end Endings

/-! ### Events of one kind -/

namespace Payload

/-- The request that arrives. -/
def arrivalId? (p : Payload) : Option RequestId := p.arrival?.map Request.requestId

/-- The request that is rejected. -/
def rejection? : Payload → Option RequestId
  | .requestRejected r _ => some r
  | _ => none

/-- The request that is completed. -/
def completion? : Payload → Option RequestId
  | .decodeComplete r _ => some r
  | _ => none

/-- The request that gets its first token. -/
def firstToken? : Payload → Option RequestId
  | .tokenGenerated r i => if i = 0 then some r else none
  | _ => none

/-- The request whose prefill is complete. -/
def prefilled? : Payload → Option RequestId
  | .prefillComplete r _ _ => some r
  | _ => none

/-- The transfer that is complete. -/
def transfer? : Payload → Option TransferPayload
  | .kvTransferComplete base _ => some base
  | _ => none

/-- The request whose transfer is complete. -/
def transferred? (p : Payload) : Option RequestId := p.transfer?.map TransferPayload.requestId

/-- The events of a kind are about the request that they name. -/
def Owned (kind? : Payload → Option RequestId) : Prop :=
  ∀ p r, kind? p = some r → p.owner = some r

theorem owned_arrivalId : Owned arrivalId? := fun p r hp => by
  cases p <;> first | exact hp | cases hp

theorem owned_rejection : Owned rejection? := fun p r hp => by
  cases p <;> first | exact hp | cases hp

theorem owned_completion : Owned completion? := fun p r hp => by
  cases p <;> first | exact hp | cases hp

theorem owned_prefilled : Owned prefilled? := fun p r hp => by
  cases p <;> first | exact hp | cases hp

theorem owned_transferred : Owned transferred? := fun p r hp => by
  cases p <;> first | exact hp | cases hp

theorem owned_firstToken : Owned firstToken? := fun p r hp => by
  cases p with
  | tokenGenerated r' i =>
      rw [firstToken?] at hp
      split at hp
      · exact hp
      · cases hp
  | _ => cases hp

end Payload

/-- The requests of the events of a kind, with their times. -/
def stampedIn (kind? : Payload → Option RequestId) (evs : List (Event Payload)) :
    List (RequestId × Time) :=
  evs.filterMap fun ev => (kind? ev.payload).map fun r => (r, ev.time)

/-- The requests of the events of a kind. -/
def idsIn (kind? : Payload → Option RequestId) (evs : List (Event Payload)) : List RequestId :=
  evs.filterMap fun ev => kind? ev.payload

/-- The transfers that are complete. -/
def transfersIn (evs : List (Event Payload)) : List TransferPayload :=
  evs.filterMap fun ev => ev.payload.transfer?

/-- When a request arrives. -/
def arrivalTime (evs : List (Event Payload)) (r : RequestId) : Time :=
  ((evs.find? fun ev => ev.payload.arrivalId? = some r).map Event.time).getD 0

section Kinds

variable {kind? : Payload → Option RequestId} {evs : List (Event Payload)} {r : RequestId}

theorem map_fst_stampedIn : (stampedIn kind? evs).map Prod.fst = idsIn kind? evs := by
  rw [stampedIn, List.map_filterMap, idsIn]
  refine List.filterMap_congr fun ev _ => ?_
  cases kind? ev.payload with
  | none => rfl
  | some r => rfl

/-- The events about a request decide how often it is among the requests of a kind. -/
theorem count_idsIn (hkind : Payload.Owned kind?) :
    (idsIn kind? evs).count r = ((logIn r evs).map Prod.snd).countP fun p => kind? p = some r := by
  have hlog : (logIn r evs).map Prod.snd =
      (evs.filter fun ev => ev.payload.owner = some r).map Event.payload := by
    rw [logIn, List.map_map]
    rfl
  rw [hlog, List.countP_map, List.countP_filter, idsIn, List.count, List.countP_filterMap]
  refine List.countP_congr fun ev _ => ?_
  cases hk : kind? ev.payload with
  | none => simp [hk]
  | some r' =>
      by_cases hr : r' = r
      · subst hr
        simp [hk, hkind _ _ hk]
      · simp [hk, hr]

/-- If no two requests of a kind are the same, an arrival is the one that is found. -/
theorem arrivalTime_eq (hd : (idsIn Payload.arrivalId? evs).Nodup) {ev : Event Payload}
    (hev : ev ∈ evs) (hr : ev.payload.arrivalId? = some r) : arrivalTime evs r = ev.time := by
  have hmem : ∀ ev' ∈ evs, ev'.payload.arrivalId? = some r →
      (r, ev'.time) ∈ stampedIn Payload.arrivalId? evs := fun ev' hev' hr' =>
    List.mem_filterMap.2 ⟨ev', hev', by rw [hr']; rfl⟩
  rw [← map_fst_stampedIn] at hd
  cases hfind : evs.find? fun ev => ev.payload.arrivalId? = some r with
  | none => exact absurd (decide_eq_true hr) (List.find?_eq_none.1 hfind ev hev)
  | some ev' =>
      have hr' : ev'.payload.arrivalId? = some r := by simpa using List.find?_some hfind
      have heq := List.inj_on_of_nodup_map hd (hmem ev' (List.mem_of_find?_eq_some hfind) hr')
        (hmem ev hev hr) rfl
      rw [arrivalTime, hfind]
      exact (Prod.mk.injEq _ _ _ _ ▸ heq).2

end Kinds

section Ended

variable {r : RequestId}

/-- How often a log has an event of a kind. -/
def occurrences (kind? : Payload → Option RequestId) (r : RequestId) (l : List Payload) : ℕ :=
  l.countP fun p => kind? p = some r

theorem occurrences_append {kind? : Payload → Option RequestId} {l l' : List Payload} :
    occurrences kind? r (l ++ l') = occurrences kind? r l + occurrences kind? r l' :=
  List.countP_append

/-- Tokens are of no other kind. -/
theorem occurrences_tokensOf {kind? : Payload → Option RequestId}
    (h : ∀ i, kind? (.tokenGenerated r i) = none) (g : ℕ) :
    occurrences kind? r (tokensOf r g) = 0 := by
  refine List.countP_eq_zero.2 fun p hp => ?_
  obtain ⟨i, -, rfl⟩ := List.mem_map.1 hp
  simp [h]

/-- One of the tokens is the first. -/
theorem occurrences_firstToken (g : ℕ) :
    occurrences Payload.firstToken? r (tokensOf r (g + 1)) = 1 := by
  rw [tokensOf, List.range_succ_eq_map, List.map_cons, List.map_map, occurrences,
    List.countP_cons_of_pos (by simp [Payload.firstToken?]), Nat.add_eq_right, List.countP_eq_zero]
  intro p hp
  obtain ⟨i, -, rfl⟩ := List.mem_map.1 hp
  have hne : ((i + 1 : ℕ) : ℤ) ≠ 0 := by omega
  simp only [Payload.firstToken?, Function.comp_apply, Nat.succ_eq_add_one, hne, if_false,
    reduceCtorEq, decide_false, Bool.false_eq_true, not_false_eq_true]

/-- What has happened to a request that has ended: it arrived at most once; it was completed or
rejected if it arrived; it got its first token if it was completed; and it was transferred if it
was prefilled. -/
structure Balanced (r : RequestId) (l : List Payload) : Prop where
  once : occurrences Payload.arrivalId? r l ≤ 1
  ended : occurrences Payload.arrivalId? r l =
    occurrences Payload.completion? r l + occurrences Payload.rejection? r l
  answered : occurrences Payload.firstToken? r l = occurrences Payload.completion? r l
  transferred : occurrences Payload.transferred? r l = occurrences Payload.prefilled? r l

/-- A request that has been transferred has arrived and has been prefilled. -/
theorem occurrences_transferred {c : Course} (hown : ∀ p ∈ c.transferred r, p.owner = some r) :
    occurrences Payload.arrivalId? r (c.transferred r) = 1 ∧
      occurrences Payload.completion? r (c.transferred r) = 0 ∧
      occurrences Payload.rejection? r (c.transferred r) = 0 ∧
      occurrences Payload.firstToken? r (c.transferred r) = 0 ∧
      occurrences Payload.transferred? r (c.transferred r) = 1 ∧
      occurrences Payload.prefilled? r (c.transferred r) = 1 := by
  have hl : c.transferred r = [.requestArrive c.request,
      .scheduled r c.decision c.matchedTokens c.matchedBlocksByTier,
      .prefillStart r c.assignment.prefillNode c.request c.nChunks,
      .prefillComplete r c.assignment.prefillNode c.request, .kvTransferStart c.base,
      .kvTransferComplete c.base c.request] := rfl
  rw [hl] at hown ⊢
  have hreq : c.request.requestId = r :=
    Option.some_inj.1 (hown (.requestArrive c.request) (by simp))
  have hbase : c.base.requestId = r :=
    Option.some_inj.1 (hown (.kvTransferStart c.base) (by simp))
  simp [occurrences, Payload.arrivalId?, Payload.arrival?, Payload.completion?, Payload.rejection?,
    Payload.firstToken?, Payload.prefilled?, Payload.transferred?, Payload.transfer?, hreq, hbase]

/-- **A story that has ended is balanced.** -/
theorem Ending.balanced {l : List Payload} (h : Ending r l) (hown : ∀ p ∈ l, p.owner = some r) :
    Balanced r l := by
  cases h with
  | absent => exact ⟨Nat.zero_le _, rfl, rfl, rfl⟩
  | rejected req reason =>
      have hreq : req.requestId = r := Option.some_inj.1 (hown _ List.mem_cons_self)
      constructor <;>
        simp [occurrences, Payload.arrivalId?, Payload.arrival?, Payload.completion?,
          Payload.rejection?, Payload.firstToken?, Payload.prefilled?, Payload.transferred?,
          Payload.transfer?, hreq]
  | refused c reason =>
      obtain ⟨ha, hc, hr, hf, ht, hp⟩ :=
        @occurrences_transferred r c fun p hp => hown p (List.mem_append_left _ hp)
      constructor <;>
        simp only [occurrences_append, ha, hc, hr, hf, ht, hp] <;>
        simp [occurrences, Payload.arrivalId?, Payload.arrival?, Payload.completion?,
          Payload.rejection?, Payload.firstToken?, Payload.prefilled?, Payload.transferred?,
          Payload.transfer?]
  | completed c g =>
      have hl : c.decoded r (g + 1) = c.transferred r ++
          (tokensOf r (g + 1) ++ [.decodeComplete r c.assignment.decodeNode]) :=
        List.append_assoc _ _ _
      rw [hl] at hown ⊢
      obtain ⟨ha, hc, hr, hf, ht, hp⟩ :=
        @occurrences_transferred r c fun p hp => hown p (List.mem_append_left _ hp)
      constructor <;>
        simp only [occurrences_append, ha, hc, hr, hf, ht, hp, occurrences_firstToken,
          @occurrences_tokensOf r Payload.arrivalId? (fun _ => rfl),
          @occurrences_tokensOf r Payload.completion? (fun _ => rfl),
          @occurrences_tokensOf r Payload.rejection? (fun _ => rfl),
          @occurrences_tokensOf r Payload.transferred? (fun _ => rfl),
          @occurrences_tokensOf r Payload.prefilled? (fun _ => rfl)] <;>
        simp [occurrences, Payload.arrivalId?, Payload.arrival?, Payload.completion?,
          Payload.rejection?, Payload.firstToken?, Payload.prefilled?, Payload.transferred?,
          Payload.transfer?]

end Ended

/-! ### Counts and samples -/

/-- The counts and the samples of a collector. -/
@[ext] structure Tally where
  arrived : ℕ
  rejected : ℕ
  completed : ℕ
  ttft : List Time
  e2e : List Time
  costs : List Time
  queued : List Time

namespace Tally

/-- One tally after another. -/
def add (t t' : Tally) : Tally where
  arrived := t.arrived + t'.arrived
  rejected := t.rejected + t'.rejected
  completed := t.completed + t'.completed
  ttft := t.ttft ++ t'.ttft
  e2e := t.e2e ++ t'.e2e
  costs := t.costs ++ t'.costs
  queued := t.queued ++ t'.queued

/-- The tally of some events, where `arrivedAt` are the times of the arrivals. -/
def ofEvents (arrivedAt : RequestId → Time) (evs : List (Event Payload)) : Tally where
  arrived := (idsIn Payload.arrivalId? evs).length
  rejected := (idsIn Payload.rejection? evs).length
  completed := (idsIn Payload.completion? evs).length
  ttft := (stampedIn Payload.firstToken? evs).map fun e => e.2 - arrivedAt e.1
  e2e := (stampedIn Payload.completion? evs).map fun e => e.2 - arrivedAt e.1
  costs := (transfersIn evs).map TransferPayload.costMs
  queued := (transfersIn evs).map TransferPayload.queuedCostMs

theorem ofEvents_append (arrivedAt : RequestId → Time) (evs evs' : List (Event Payload)) :
    ofEvents arrivedAt (evs ++ evs') = (ofEvents arrivedAt evs).add (ofEvents arrivedAt evs') := by
  simp only [ofEvents, add, idsIn, stampedIn, transfersIn, List.filterMap_append, List.map_append,
    List.length_append]

/-- The tally of one event. -/
theorem ofEvents_singleton (arrivedAt : RequestId → Time) (ev : Event Payload) :
    ofEvents arrivedAt [ev] =
      ⟨ev.payload.arrivalId?.toList.length, ev.payload.rejection?.toList.length,
        ev.payload.completion?.toList.length,
        ev.payload.firstToken?.toList.map fun r => ev.time - arrivedAt r,
        ev.payload.completion?.toList.map fun r => ev.time - arrivedAt r,
        ev.payload.transfer?.toList.map TransferPayload.costMs,
        ev.payload.transfer?.toList.map TransferPayload.queuedCostMs⟩ := by
  have hone : ∀ {β : Type} (f : Event Payload → Option β), [ev].filterMap f = (f ev).toList := by
    intro β f
    rw [List.filterMap_cons]
    cases f ev with
    | none => rfl
    | some b => rfl
  simp only [ofEvents, idsIn, stampedIn, transfersIn, hone, Option.toList_map, List.map_map]
  rfl

/-- An event that is not counted. -/
theorem add_ofEvents_skip {arrivedAt : RequestId → Time} {ev : Event Payload} (t : Tally)
    (ha : ev.payload.arrivalId? = none) (hr : ev.payload.rejection? = none)
    (hc : ev.payload.completion? = none) (hf : ev.payload.firstToken? = none)
    (ht : ev.payload.transfer? = none) : t.add (ofEvents arrivedAt [ev]) = t := by
  simp [add, ofEvents, idsIn, stampedIn, transfersIn, ha, hr, hc, hf, ht]

end Tally

/-- The counts and the samples of a collector. -/
def MetricsCollector.tally (m : MetricsCollector) : Tally where
  arrived := m.totalArrived
  rejected := m.rejectedCount
  completed := m.completedCount
  ttft := m.ttftPerRequest
  e2e := m.e2ePerRequest
  costs := m.kvTransferCostSamples
  queued := m.kvTransferQueuedSamples

section Tallies

variable {arrivedAt : RequestId → Time} {m : MetricsCollector} {evs : List (Event Payload)}
  {nodes : PyDict NodeId MockEngineNode} {batchSize : Option ℕ} {ev : Event Payload}

/-- **An event that finds what it expects is counted.** -/
theorem tally_observe (hrec : ∀ r rec, m.requests.get? r = some rec → rec.arrivalTime = arrivedAt r)
    (hready : ∀ r, ev.payload.owner = some r → ∃ tid, (m.view r tid).Ready tid ev.payload) :
    (m.observe nodes batchSize ev.time ev.payload).tally =
      m.tally.add (.ofEvents arrivedAt [ev]) := by
  obtain ⟨time, seq, p⟩ := ev
  cases p with
  | requestArrive req =>
      rw [Tally.ofEvents_singleton]
      exact Tally.ext rfl rfl rfl (List.append_nil _).symm (List.append_nil _).symm
        (List.append_nil _).symm (List.append_nil _).symm
  | scheduled r dec mt mb =>
      rw [Tally.add_ofEvents_skip _ rfl rfl rfl rfl rfl, MetricsCollector.observe,
        MetricsCollector.onScheduled]
      cases m.requests.get? r with
      | none => rfl
      | some rec => rfl
  | requestRejected r reason =>
      rw [Tally.ofEvents_singleton]
      exact Tally.ext rfl rfl rfl (List.append_nil _).symm (List.append_nil _).symm
        (List.append_nil _).symm (List.append_nil _).symm
  | prefillStart r id req k =>
      rw [Tally.add_ofEvents_skip _ rfl rfl rfl rfl rfl]
      rfl
  | prefillComplete r id req =>
      rw [Tally.add_ofEvents_skip _ rfl rfl rfl rfl rfl]
      rfl
  | kvTransferStart base =>
      rw [Tally.add_ofEvents_skip _ rfl rfl rfl rfl rfl]
      rfl
  | kvTransferComplete base req =>
      obtain ⟨tid, htid, hseen⟩ := hready _ rfl
      have hmem : base.transferId ∈ m.seenTransferIds := htid ▸ of_decide_eq_true hseen
      rw [MetricsCollector.observe, MetricsCollector.onKvTransferComplete, if_pos hmem,
        Tally.ofEvents_singleton]
      exact Tally.ext rfl rfl rfl (List.append_nil _).symm (List.append_nil _).symm rfl rfl
  | decodeBatchStep id =>
      rw [Tally.add_ofEvents_skip _ rfl rfl rfl rfl rfl, MetricsCollector.observe,
        MetricsCollector.onDecodeBatchStep]
      split
      · rfl
      · rfl
  | tokenGenerated r i =>
      obtain ⟨tid, hfirst⟩ := hready _ rfl
      rw [MetricsCollector.observe, MetricsCollector.onDecodeStep]
      by_cases hi : i = 0
      · -- the record has no first token yet
        obtain ⟨harrived, hnone⟩ := hfirst hi
        obtain ⟨rec, hget⟩ := Option.isSome_iff_exists.1 harrived
        have htime := hrec r rec hget
        have hanswered : rec.ttft.isSome = false := by
          have hany := hnone
          rw [MetricsCollector.view, hget] at hany
          exact hany
        rw [Tally.ofEvents_singleton]
        simp only [hget, hi, hanswered, htime, if_true, Bool.false_eq_true, if_false]
        exact Tally.ext rfl rfl rfl rfl (List.append_nil _).symm (List.append_nil _).symm
          (List.append_nil _).symm
      · have hskip : (Payload.tokenGenerated r i).firstToken? = none := if_neg hi
        rw [@Tally.add_ofEvents_skip _ ⟨time, seq, .tokenGenerated r i⟩ _ rfl rfl rfl hskip rfl]
        cases m.requests.get? r with
        | none => rfl
        | some rec =>
            simp only [if_neg hi]
            cases m.lastDecodeStepTime.get? r with
            | none => rfl
            | some last => rfl
  | decodeComplete r d =>
      obtain ⟨tid, harrived⟩ := hready _ rfl
      obtain ⟨rec, hget⟩ := Option.isSome_iff_exists.1 harrived
      have htime := hrec r rec hget
      rw [MetricsCollector.observe, MetricsCollector.onDecodeComplete, Tally.ofEvents_singleton]
      simp only [hget, htime]
      exact Tally.ext rfl rfl rfl (List.append_nil _).symm rfl (List.append_nil _).symm
        (List.append_nil _).symm

/-- The records keep the times of the arrivals. -/
theorem arrivalTime_of_observe
    (hrec : ∀ r rec, m.requests.get? r = some rec → rec.arrivalTime = arrivedAt r)
    (harr : ∀ r, ev.payload.arrivalId? = some r → ev.time = arrivedAt r) {r : RequestId}
    {rec : RequestRecord}
    (h : (m.observe nodes batchSize ev.time ev.payload).requests.get? r = some rec) :
    rec.arrivalTime = arrivedAt r := by
  -- a record that is written has the time of the one before, or of the arrival
  have hset : ∀ {r' : RequestId} {rec' : RequestRecord}, rec'.arrivalTime = arrivedAt r' →
      (m.requests.set r' rec').get? r = some rec → rec.arrivalTime = arrivedAt r := by
    intro r' rec' htime hget
    by_cases hr : r = r'
    · rw [hr, PyDict.get?_set_self] at hget
      rw [← Option.some_inj.1 hget, htime, hr]
    · rw [PyDict.get?_set_of_ne _ _ hr] at hget
      exact hrec r rec hget
  obtain ⟨time, seq, p⟩ := ev
  cases p with
  | requestArrive req => exact hset (harr _ rfl) h
  | scheduled r' dec mt mb =>
      rw [MetricsCollector.observe, MetricsCollector.onScheduled] at h
      cases hget : m.requests.get? r' with
      | none =>
          rw [hget] at h
          exact hrec r rec h
      | some rec' =>
          rw [hget] at h
          exact @hset r' { rec' with matchedTokens := some mt } (hrec r' rec' hget) h
  | kvTransferComplete base req =>
      rw [MetricsCollector.observe, MetricsCollector.onKvTransferComplete] at h
      split at h
      · exact hrec r rec h
      · exact hrec r rec h
  | decodeBatchStep id =>
      rw [MetricsCollector.observe, MetricsCollector.onDecodeBatchStep] at h
      split at h
      · exact hrec r rec h
      · exact hrec r rec h
  | tokenGenerated r' i =>
      rw [MetricsCollector.observe, MetricsCollector.onDecodeStep] at h
      cases hget : m.requests.get? r' with
      | none =>
          rw [hget] at h
          exact hrec r rec h
      | some rec' =>
          simp only [hget] at h
          split at h
          · split at h
            · exact hrec r rec h
            · exact @hset r' { rec' with ttft := some (time - rec'.arrivalTime) }
                (hrec r' rec' hget) h
          · split at h
            · exact hrec r rec h
            · exact hrec r rec h
  | decodeComplete r' d =>
      rw [MetricsCollector.observe, MetricsCollector.onDecodeComplete] at h
      split at h
      · exact hrec r rec h
      · exact hrec r rec h
  | requestRejected _ _ | prefillStart _ _ _ _ | prefillComplete _ _ _ | kvTransferStart _ =>
      exact hrec r rec h

/-- The collector sees the transfers that are started. -/
theorem mem_seenTransferIds_observe {tid : String}
    (h : tid ∈ (m.observe nodes batchSize ev.time ev.payload).seenTransferIds) :
    tid ∈ m.seenTransferIds ∨
      ∃ base, ev.payload = .kvTransferStart base ∧ base.transferId = tid := by
  obtain ⟨time, seq, p⟩ := ev
  cases p with
  | kvTransferStart base =>
      rcases Finset.mem_insert.1 h with rfl | hold
      · exact Or.inr ⟨base, rfl, rfl⟩
      · exact Or.inl hold
  | kvTransferComplete base req =>
      rw [MetricsCollector.observe, MetricsCollector.onKvTransferComplete] at h
      split at h
      · exact Or.inl (Finset.mem_of_mem_erase h)
      · exact Or.inl h
  | scheduled r dec mt mb =>
      rw [MetricsCollector.observe, MetricsCollector.onScheduled] at h
      split at h
      · exact Or.inl h
      · exact Or.inl h
  | decodeBatchStep id =>
      rw [MetricsCollector.observe, MetricsCollector.onDecodeBatchStep] at h
      split at h
      · exact Or.inl h
      · exact Or.inl h
  | tokenGenerated r i =>
      rw [MetricsCollector.observe, MetricsCollector.onDecodeStep] at h
      split at h
      · exact Or.inl h
      · split at h
        · split at h
          · exact Or.inl h
          · exact Or.inl h
        · split at h
          · exact Or.inl h
          · exact Or.inl h
  | decodeComplete r d =>
      rw [MetricsCollector.observe, MetricsCollector.onDecodeComplete] at h
      split at h
      · exact Or.inl h
      · exact Or.inl h
  | requestArrive _ | requestRejected _ _ | prefillStart _ _ _ _ | prefillComplete _ _ _ =>
      exact Or.inl h

end Tallies

/-! ### The metrics of a run -/

/-- The events of every request are accepted. -/
def Accepted (evs : List (Event Payload)) : Prop :=
  ∀ r, ∃ tid, TransferOf r tid ∧ MetricsView.Accepts tid .init ((logIn r evs).map Prod.snd)

section Runs

variable {arrivedAt : RequestId → Time} {m : MetricsCollector} {evs : List (Event Payload)}

/-- **The counts and the samples of a collector that accepts its events.** -/
theorem Collected.tally_eq (h : Collected m evs) (hc : ∀ ev ∈ evs, ev.payload.Consistent)
    (harr : ∀ ev ∈ evs, ∀ r, ev.payload.arrivalId? = some r → ev.time = arrivedAt r)
    (haccepted : Accepted evs) :
    m.tally = .ofEvents arrivedAt evs ∧
      ∀ r rec, m.requests.get? r = some rec → rec.arrivalTime = arrivedAt r := by
  induction h with
  | init => exact ⟨rfl, fun _ _ h => by cases h⟩
  | @observe m evs h nodes batchSize ev ih =>
      have hlast : ev ∈ evs ++ [ev] := List.mem_append_right _ (List.mem_singleton_self _)
      have hold : ∀ ev' ∈ evs, ev'.payload.Consistent := fun ev' hev' =>
        hc ev' (List.mem_append_left _ hev')
      obtain ⟨htally, hrec⟩ := ih hold (fun ev' hev' => harr ev' (List.mem_append_left _ hev'))
        fun r => by
          obtain ⟨tid, htid, hacc⟩ := haccepted r
          rw [logIn_append, List.map_append, MetricsView.accepts_append] at hacc
          exact ⟨tid, htid, hacc.1⟩
      refine ⟨?_, fun r rec => arrivalTime_of_observe hrec (harr ev hlast)⟩
      rw [Tally.ofEvents_append, ← htally]
      refine tally_observe hrec fun r hr => ?_
      -- the event is the next one in the log of its request
      obtain ⟨tid, htid, hacc⟩ := haccepted r
      have hown : logIn r [ev] = [(ev.time, ev.payload)] := by
        rw [logIn, List.filter_cons_of_pos (by simpa using hr)]
        rfl
      rw [logIn_append, List.map_append, MetricsView.accepts_append, ← h.view_eq hold htid,
        hown] at hacc
      exact ⟨tid, hacc.2.1⟩

/-- The transfers that a collector has seen have been started. -/
theorem Collected.started (h : Collected m evs) : ∀ tid ∈ m.seenTransferIds, ∃ ev ∈ evs, ∃ base,
    ev.payload = .kvTransferStart base ∧ base.transferId = tid := by
  induction h with
  | init => exact fun _ h => absurd h (Finset.notMem_empty _)
  | @observe m evs h nodes batchSize ev ih =>
      intro tid htid
      rcases mem_seenTransferIds_observe htid with hold | hnew
      · obtain ⟨ev', hev', hstart⟩ := ih tid hold
        exact ⟨ev', List.mem_append_left _ hev', hstart⟩
      · exact ⟨ev, List.mem_append_right _ (List.mem_singleton_self _), hnew⟩

end Runs

/-- The mean of the differences is the difference of the means. -/
theorem mean_sub_mean {bases : List TransferPayload}
    (h : ∀ base ∈ bases, base.costMs = base.queuedCostMs + base.serviceCostMs) :
    ((Statistics.mean (bases.map TransferPayload.costMs)).map fun mean =>
        mean - (Statistics.mean (bases.map TransferPayload.queuedCostMs)).getD 0) =
      Statistics.mean (bases.map TransferPayload.serviceCostMs) := by
  by_cases hnil : bases = []
  · rw [hnil]
    rfl
  · have hsum : (bases.map TransferPayload.costMs).sum =
        (bases.map TransferPayload.queuedCostMs).sum +
          (bases.map TransferPayload.serviceCostMs).sum := by
      rw [← List.sum_map_add]
      exact congrArg List.sum (List.map_congr_left h)
    rw [Statistics.mean, Statistics.mean, Statistics.mean, if_neg (by simpa using hnil),
      if_neg (by simpa using hnil), if_neg (by simpa using hnil), hsum, Option.map_some,
      Option.getD_some, List.length_map, List.length_map, List.length_map, add_div,
      add_sub_cancel_left]

/-- A transfer that is complete has cost its time in the queue and its service. -/
theorem costs_of_mem_transfersIn {evs : List (Event Payload)}
    (hc : ∀ ev ∈ evs, ev.payload.Consistent) {base : TransferPayload}
    (hbase : base ∈ transfersIn evs) : base.costMs = base.queuedCostMs + base.serviceCostMs := by
  obtain ⟨ev, hev, htr⟩ := List.mem_filterMap.1 hbase
  have hcons := hc ev hev
  cases hp : ev.payload with
  | kvTransferComplete base' req =>
      rw [hp] at htr hcons
      obtain rfl := Option.some_inj.1 htr
      exact hcons.costs
  | _ =>
      rw [hp] at htr
      cases htr

/-! ### Requests that have ended -/

/-- The events of every request are balanced. -/
def BalancedIn (evs : List (Event Payload)) : Prop :=
  ∀ r, Balanced r ((logIn r evs).map Prod.snd)

namespace BalancedIn

variable {evs : List (Event Payload)} (h : BalancedIn evs)
include h

theorem nodup_arrivals : (idsIn Payload.arrivalId? evs).Nodup :=
  List.nodup_iff_count_le_one.2 fun r => by
    rw [count_idsIn Payload.owned_arrivalId]
    exact (h r).once

/-- What has arrived is completed or rejected. -/
theorem perm_ended : (idsIn Payload.arrivalId? evs).Perm
    (idsIn Payload.completion? evs ++ idsIn Payload.rejection? evs) := by
  refine List.perm_iff_count.2 fun r => ?_
  rw [List.count_append, count_idsIn Payload.owned_arrivalId, count_idsIn Payload.owned_completion,
    count_idsIn Payload.owned_rejection]
  exact (h r).ended

theorem perm_answered : (idsIn Payload.firstToken? evs).Perm (idsIn Payload.completion? evs) := by
  refine List.perm_iff_count.2 fun r => ?_
  rw [count_idsIn Payload.owned_firstToken, count_idsIn Payload.owned_completion]
  exact (h r).answered

/-- There is a transfer for every prefill. -/
theorem length_transfersIn : (transfersIn evs).length = (idsIn Payload.prefilled? evs).length := by
  have hids : idsIn Payload.transferred? evs =
      (transfersIn evs).map TransferPayload.requestId := by
    rw [transfersIn, List.map_filterMap]
    rfl
  have hperm : (idsIn Payload.transferred? evs).Perm (idsIn Payload.prefilled? evs) := by
    refine List.perm_iff_count.2 fun r => ?_
    rw [count_idsIn Payload.owned_transferred, count_idsIn Payload.owned_prefilled]
    exact (h r).transferred
  rw [← hperm.length_eq, hids, List.length_map]

end BalancedIn

/-- The sets of a collector have nothing left of a request. -/
def Cleared (m : MetricsCollector) (evs : List (Event Payload)) (r : RequestId) : Prop :=
  ∃ tid arrived ttft,
    (∀ base, .kvTransferStart base ∈ (logIn r evs).map Prod.snd → base.transferId = tid) ∧
      m.view r tid = ⟨arrived, ttft, false, false, false, false⟩

theorem Collected.cleared {m : MetricsCollector} {evs : List (Event Payload)} {r : RequestId}
    {tid : String} (h : Collected m evs) (hc : ∀ ev ∈ evs, ev.payload.Consistent)
    (hs : Settles r tid ((logIn r evs).map Prod.snd)) : Cleared m evs r := by
  obtain ⟨arrived, ttft, hclear⟩ := hs.clear
  exact ⟨tid, arrived, ttft, hs.starts, (h.view_eq hc hs.named).trans hclear⟩

section Cleared

variable {m : MetricsCollector} {evs : List (Event Payload)} (h : ∀ r, Cleared m evs r)
include h

theorem activePrefills_of_cleared : m.activePrefills = ∅ :=
  Finset.eq_empty_of_forall_notMem fun r hr => by
    obtain ⟨tid, arrived, ttft, -, hv⟩ := h r
    exact of_decide_eq_false (congrArg MetricsView.prefilling hv) hr

theorem activeDecodes_of_cleared : m.activeDecodes = ∅ :=
  Finset.eq_empty_of_forall_notMem fun r hr => by
    obtain ⟨tid, arrived, ttft, -, hv⟩ := h r
    exact of_decide_eq_false (congrArg MetricsView.decoding hv) hr

theorem requestNChunks_of_cleared : m.requestNChunks.entries = [] := by
  refine List.eq_nil_iff_forall_not_mem.2 fun ⟨r, k⟩ hr => ?_
  obtain ⟨tid, arrived, ttft, -, hv⟩ := h r
  have hnone : (m.requestNChunks.get? r).isSome = false := congrArg MetricsView.chunks hv
  rw [PyDict.get?_eq_some_iff.2 hr] at hnone
  cases hnone

theorem seenTransferIds_of_cleared (hm : Collected m evs) : m.seenTransferIds = ∅ := by
  refine Finset.eq_empty_of_forall_notMem fun tid htid => ?_
  obtain ⟨ev, hev, base, hp, rfl⟩ := hm.started tid htid
  obtain ⟨tid', arrived, ttft, hstarts, hv⟩ := h base.requestId
  have hlog : .kvTransferStart base ∈ (logIn base.requestId evs).map Prod.snd := by
    refine List.mem_map.2 ⟨(ev.time, ev.payload), mem_logIn.2 ⟨ev, hev, ?_, rfl⟩, hp⟩
    rw [hp]
    rfl
  rw [hstarts base hlog] at htid
  exact of_decide_eq_false (congrArg MetricsView.seen hv) htid

end Cleared

/-- The metrics agree with the events: what has arrived is completed or rejected; the samples of
the first tokens and of the whole times are those of the completed requests, one each; there is a
sample of a transfer for each prefill that is complete, and their means differ by the mean service
time; and nothing is left in the sets of the collector. -/
structure Reconciled (m : MetricsCollector) (evs : List (Event Payload)) : Prop where
  totalArrived : m.totalArrived = (idsIn Payload.arrivalId? evs).length
  completed : m.completedCount = (idsIn Payload.completion? evs).length
  rejected : m.rejectedCount = (idsIn Payload.rejection? evs).length
  arrived : m.summary.totalArrived = m.summary.completed + m.summary.rejected
  once : (idsIn Payload.completion? evs ++ idsIn Payload.rejection? evs).Nodup
  ttft : m.ttftPerRequest =
    (stampedIn Payload.firstToken? evs).map fun e => e.2 - arrivalTime evs e.1
  answered : ((stampedIn Payload.firstToken? evs).map Prod.fst).Perm
    (idsIn Payload.completion? evs)
  e2e : m.e2ePerRequest =
    (stampedIn Payload.completion? evs).map fun e => e.2 - arrivalTime evs e.1
  costs : m.kvTransferCostSamples.length = (idsIn Payload.prefilled? evs).length
  queued : m.kvTransferQueuedSamples.length = (idsIn Payload.prefilled? evs).length
  service : (m.summary.kvTransferTimeAvgMs.map fun mean => mean - m.summary.kvTransferQueuedAvgMs) =
    Statistics.mean ((transfersIn evs).map TransferPayload.serviceCostMs)
  activePrefills : m.activePrefills = ∅
  activeDecodes : m.activeDecodes = ∅
  requestNChunks : m.requestNChunks.entries = []
  seenTransferIds : m.seenTransferIds = ∅

/-- **A collector whose events have ended for every request reconciles with them.** -/
theorem Collected.reconciled {m : MetricsCollector} {evs : List (Event Payload)}
    (h : Collected m evs) (hc : ∀ ev ∈ evs, ev.payload.Consistent)
    (hend : ∀ r, Ending r ((logIn r evs).map Prod.snd)) : Reconciled m evs := by
  have hmem : ∀ r, ∀ p ∈ (logIn r evs).map Prod.snd, p.owner = some r ∧ p.Consistent := by
    intro r p hp
    obtain ⟨e, he, rfl⟩ := List.mem_map.1 hp
    obtain ⟨ev, hev, howner, rfl⟩ := mem_logIn.1 he
    exact ⟨howner, hc ev hev⟩
  have hbalanced : BalancedIn evs := fun r => (hend r).balanced fun p hp => (hmem r p hp).1
  have hsettles : ∀ r, ∃ tid, Settles r tid ((logIn r evs).map Prod.snd) := fun r =>
    (hend r).settles (fun p hp => (hmem r p hp).1) fun p hp => (hmem r p hp).2
  have hcleared : ∀ r, Cleared m evs r := fun r => by
    obtain ⟨tid, hs⟩ := hsettles r
    exact h.cleared hc hs
  -- the samples
  obtain ⟨htally, -⟩ := @Collected.tally_eq (arrivalTime evs) m evs h hc
    (fun ev hev r hr => (arrivalTime_eq hbalanced.nodup_arrivals hev hr).symm)
    fun r => (hsettles r).imp fun tid hs => ⟨hs.named, hs.accepts⟩
  have htotal : m.totalArrived = _ := congrArg Tally.arrived htally
  have hcomplete : m.completedCount = _ := congrArg Tally.completed htally
  have hreject : m.rejectedCount = _ := congrArg Tally.rejected htally
  have hcosts : m.kvTransferCostSamples = _ := congrArg Tally.costs htally
  have hqueued : m.kvTransferQueuedSamples = _ := congrArg Tally.queued htally
  have harrived : m.totalArrived = m.completedCount + m.rejectedCount := by
    rw [htotal, hcomplete, hreject]
    exact hbalanced.perm_ended.length_eq.trans List.length_append
  have hservice : ((Statistics.mean m.kvTransferCostSamples).map fun mean =>
      mean - (Statistics.mean m.kvTransferQueuedSamples).getD 0) =
        Statistics.mean ((transfersIn evs).map TransferPayload.serviceCostMs) := by
    rw [hcosts, hqueued]
    exact mean_sub_mean fun base => costs_of_mem_transfersIn hc
  exact
    { totalArrived := htotal
      completed := hcomplete
      rejected := hreject
      arrived := harrived
      once := hbalanced.perm_ended.nodup_iff.1 hbalanced.nodup_arrivals
      ttft := congrArg Tally.ttft htally
      answered := by
        rw [map_fst_stampedIn]
        exact hbalanced.perm_answered
      e2e := congrArg Tally.e2e htally
      costs := by
        rw [hcosts, ← hbalanced.length_transfersIn]
        exact List.length_map _
      queued := by
        rw [hqueued, ← hbalanced.length_transfersIn]
        exact List.length_map _
      service := hservice
      activePrefills := activePrefills_of_cleared hcleared
      activeDecodes := activeDecodes_of_cleared hcleared
      requestNChunks := requestNChunks_of_cleared hcleared
      seenTransferIds := seenTransferIds_of_cleared hcleared h }

namespace Wiring

variable {ς : Type} {w : Wiring ς}

/-- **The metrics of a drained run reconcile with it**: if the pools are disjoint, the arriving
requests have distinct ids, nothing is raised and no event is left. -/
theorem metrics_reconcile (hpools : ∀ id ∈ w.prefillIds, id ∉ w.decodeIds) {order : AttachOrder}
    {sched : ς} {cm : CacheManager} {tm : TransferModel} {acts : List Action} {u : Unit}
    {s : Observed ς} (hm : w.Meets DistinctArrivals acts (w.start sched cm tm))
    (hrun : (w.observe order acts).run (w.observed sched cm tm) = .ok u s)
    (hq : s.1.queue.events = []) : Reconciled s.2.2.collector s.1.processed := by
  have hcollected : Collected s.2.2.collector s.1.processed :=
    collected_of_observe (s := w.observed sched cm tm) .init hrun
  -- the run without the collector
  have hreaches : w.Reaches DistinctArrivals s.simulator := by
    have halike := observe_alike w order acts (w.observed sched cm tm) (w.start sched cm tm) rfl
    rw [hrun] at halike
    cases hplain : (w.execute acts).run (w.start sched cm tm) with
    | error e sim =>
        rw [hplain] at halike
        cases halike
    | ok u' sim =>
        rw [hplain] at halike
        have hall := Reaches.execute (.start sched cm tm) hm (by rw [hplain]; rfl)
        rw [hplain] at hall
        have hsame : s.simulator = sim := halike.state
        exact hsame ▸ hall
  obtain ⟨stage, hstaged, hlogged⟩ := hreaches.logged hpools
  have hevents : s.simulator.1.processed ++ s.simulator.1.queue.events = s.1.processed := by
    rw [show s.simulator.1.queue.events = [] from hq, List.append_nil]
    rfl
  refine hcollected.reconciled (hevents ▸ hreaches.consistent) fun r => ?_
  have hstory := hlogged.story r
  rw [Simulator.log, hevents] at hstory
  exact hstory.ending (hstaged.isGone hreaches.awake hq r) (hstaged.valid r)

/-- The state of `split` with a collector after a request and all its events. -/
def observedOneToken : Observed Cursors :=
  ((split.observe .collectorLast oneToken).run (split.observed {} split.emptyCache .noop)).state

/-- The metrics of a run with one request, which is completed. -/
theorem metrics_reconcile_oneToken :
    observedOneToken.2.2.collector.completedCount = 1 ∧
      Reconciled observedOneToken.2.2.collector observedOneToken.1.processed := by
  have hok : ((split.observe .collectorLast oneToken).run
      (split.observed {} split.emptyCache .noop)).isOk = true := by decide +kernel
  have hpools : ∀ id ∈ split.prefillIds, id ∉ split.decodeIds := by decide +kernel
  have hm : split.Meets DistinctArrivals oneToken (split.start {} split.emptyCache .noop) := by
    decide +kernel
  have hq : observedOneToken.1.queue.events = [] := by decide +kernel
  refine ⟨by decide +kernel, ?_⟩
  cases hrun : (split.observe .collectorLast oneToken).run
      (split.observed {} split.emptyCache .noop) with
  | error e s =>
      rw [hrun] at hok
      cases hok
  | ok u s =>
      rw [observedOneToken, hrun] at hq ⊢
      exact metrics_reconcile hpools hm hrun hq

end Wiring

end NanoKVRouter
