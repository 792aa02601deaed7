/-
**When the batch steps of a node overlap.**

A batch step is charged at its start: the handler advances the streams, announces the results at the
end of the step, and clears the flag of the node at once.  If the step leaves work on the node, the
next step is scheduled at its end.  If it does not, a request that joins the node before the end
wakes it, and the next step starts while the last one is still running.

Main definitions:

* `BatchStep.EndedBy`, `Serial`, `Rested` — the steps of a node in order of their handling, and when
  the last one has ended;
* `Simulator.gainsWork` — the node that handling an event gives work to;
* `Wiring.WakesRested` — the node that gains work and has no step scheduled has ended its last step.

Main results:

* `Wiring.steps_serial` — **in a run in which only rested nodes are woken, no step of a node starts
  before the last one has ended**;
* `Wiring.steps_overlap` — otherwise steps of one node overlap.
-/

import NanoKVRouter.SimulatorWakeups
import Mathlib.Data.List.Chain

set_option relaxedAutoImplicit false
set_option autoImplicit false

namespace NanoKVRouter

/-! ### The steps of a node -/

/-- The step has ended at time `t`; an idle step takes no time. -/
def BatchStep.EndedBy (x : BatchStep) (t : Time) : Prop := ∀ tick ∈ x.tick, tick.2 ≤ t

instance (x : BatchStep) (t : Time) : Decidable (x.EndedBy t) :=
  inferInstanceAs (Decidable (∀ tick ∈ x.tick, tick.2 ≤ t))

/-- The steps of a node. -/
def stepsOf (steps : List BatchStep) (id : NodeId) : List BatchStep :=
  steps.filter fun x => x.nodeId = id

/-- No step of the node starts before the last one has ended. -/
def Serial (steps : List BatchStep) (id : NodeId) : Prop :=
  (stepsOf steps id).IsChain fun a b => a.EndedBy b.time

instance (steps : List BatchStep) (id : NodeId) : Decidable (Serial steps id) :=
  inferInstanceAs (Decidable ((stepsOf steps id).IsChain fun a b => a.EndedBy b.time))

/-- The last step of the node has ended at time `t`. -/
def Rested (steps : List BatchStep) (id : NodeId) (t : Time) : Prop :=
  ∀ x ∈ (stepsOf steps id).getLast?, x.EndedBy t

instance (steps : List BatchStep) (id : NodeId) (t : Time) : Decidable (Rested steps id t) :=
  inferInstanceAs (Decidable (∀ x ∈ (stepsOf steps id).getLast?, x.EndedBy t))

section Steps

variable {steps : List BatchStep} {id : NodeId} {x : BatchStep} {t : Time}

theorem stepsOf_append_self (h : x.nodeId = id) :
    stepsOf (steps ++ [x]) id = stepsOf steps id ++ [x] := by
  rw [stepsOf, List.filter_append, stepsOf]
  simp [h]

theorem stepsOf_append_of_ne (h : x.nodeId ≠ id) : stepsOf (steps ++ [x]) id = stepsOf steps id := by
  rw [stepsOf, List.filter_append, stepsOf]
  simp [h]

/-- A step is handled. -/
theorem Serial.append (h : Serial steps id) (hx : x.nodeId = id → Rested steps id x.time) :
    Serial (steps ++ [x]) id := by
  by_cases hid : x.nodeId = id
  · rw [Serial, stepsOf_append_self hid]
    refine List.isChain_append.2 ⟨h, .singleton x, fun a ha b hb => ?_⟩
    rw [List.head?_cons, Option.mem_some_iff] at hb
    subst hb
    exact hx hid a ha
  · rw [Serial, stepsOf_append_of_ne hid]
    exact h

theorem rested_append_self (h : x.nodeId = id) : Rested (steps ++ [x]) id t ↔ x.EndedBy t := by
  rw [Rested, stepsOf_append_self h]
  simp

theorem rested_append_of_ne (h : x.nodeId ≠ id) :
    Rested (steps ++ [x]) id t ↔ Rested steps id t := by
  rw [Rested, stepsOf_append_of_ne h, Rested]

end Steps

/-! ### Nodes that gain work -/

/-- The node that handling the event gives work to: the node of a prefill that is started and not
fully cached, and the decode node of a transfer that finds room. -/
def Simulator.gainsWork {ς : Type} (s : Simulator ς) : Payload → Option NodeId
  | .prefillStart requestId nodeId req nChunks =>
      if s.uncachedAt (.prefillStart requestId nodeId req nChunks) = 0 then none else some nodeId
  | .kvTransferComplete base _ => do
      let info ← s.2.pendingTransfers.get? base.transferId
      let decision ← s.2.decisions.get? info.requestId
      let node ← s.2.nodes.get? decision.decodeNode
      if node.HasRoom then some decision.decodeNode else none
  | _ => none

/-- The turn wakes a node only if the last step of the node has ended. -/
def Wiring.WakesRested {ς : Type} (s : Simulator ς) : Action → Prop
  | .arrive _ _ => True
  | .turn => ∀ e ∈ s.1.take, ∀ id ∈ Simulator.gainsWork (e.2, s.2) e.1.payload,
      ∀ n ∈ s.2.nodes.get? id, n.batchStepInFlight = false → Rested s.2.steps id e.1.time

instance {ς : Type} (s : Simulator ς) : ∀ a, Decidable (Wiring.WakesRested s a)
  | .arrive _ _ => .isTrue trivial
  | .turn => inferInstanceAs (Decidable (∀ e ∈ s.1.take,
      ∀ id ∈ Simulator.gainsWork (e.2, s.2) e.1.payload, ∀ n ∈ s.2.nodes.get? id,
        n.batchStepInFlight = false → Rested s.2.steps id e.1.time))

/-! ### The steps that handling an event schedules -/

/-- **A handled step is recorded, and schedules the next one at its end; every other event schedules
a step only for the node it gives work to, at once.** -/
theorem Handles.steps_cases {ς : Type} {w : Wiring ς} {s : Simulator ς} {now : Time}
    {b' : Bookkeeping} {p : Payload} {out : List (Time × Payload)}
    (h : Handles w now (s.uncachedAt p) s.2.toBookkeeping p out b')
    (ha : ∀ id, Armed s.2.nodes id) :
    (∃ x : BatchStep, p = .decodeBatchStep x.nodeId ∧ x.time = now ∧
        b'.steps = s.2.steps ++ [x] ∧
        ∀ id t, (t, .decodeBatchStep id) ∈ out → id = x.nodeId ∧ x.EndedBy t) ∨
      ((∀ id, p ≠ .decodeBatchStep id) ∧ b'.steps = s.2.steps ∧
        ∀ id t, (t, .decodeBatchStep id) ∈ out → t = now ∧ s.gainsWork p = some id ∧
          ∃ n, s.2.nodes.get? id = some n ∧ n.batchStepInFlight = false) := by
  cases h with
  | arriveRejected req reason => exact Or.inr ⟨by simp, rfl, by simp⟩
  | @arriveAdmitted req p d dec mt mb v running n n' started hp hn hu hop hstarted =>
      refine Or.inr ⟨by simp, rfl, fun id t hmem => ?_⟩
      cases running with
      | true =>
          obtain ⟨k, rfl⟩ := hstarted
          simp at hmem
      | false =>
          obtain rfl := hstarted
          simp at hmem
  | startCached hu hp hn hop => exact Or.inr ⟨by simp, rfl, by simp⟩
  | @startPipeline r p req k n n' hp hn hu hlen hop =>
      have hs := (MockEngineNode.run_enterPrefill hop).2
      refine Or.inr ⟨by simp, by rw [Bookkeeping.wake_steps]; rfl, fun id t hmem => ?_⟩
      obtain ⟨he, m, hm, -, hf⟩ := Bookkeeping.mem_wakeEvents hmem
      cases he
      refine ⟨rfl, ?_, n, hn, ?_⟩
      · rw [Simulator.gainsWork, if_neg hu.ne']
      · change (s.2.nodes.set _ _).get? _ = _ at hm
        rw [PyDict.get?_set_self, Option.some_inj] at hm
        subst hm
        exact hs.batchStepInFlight ▸ hf
  | completeUnknown ha' => exact Or.inr ⟨by simp, rfl, by simp⟩
  | @prefillFinished r p req a n n' pr started b₁ base t₁ t₂ hp hn ha' hop hpr hbase ht =>
      refine Or.inr ⟨by simp, ?_, fun id t hmem => ?_⟩
      · obtain ⟨nodes, hb⟩ := hpr.eq_nodes
        rw [hb]
        rfl
      · rcases List.mem_append.1 hmem with hmem | hmem
        · obtain ⟨q, req', k, he, -⟩ := hpr.mem_events hmem
          cases he
        · simp at hmem
  | transferStale hinfo => exact Or.inr ⟨by simp, rfl, by simp⟩
  | transferUnknown hinfo ha' => exact Or.inr ⟨by simp, rfl, by simp⟩
  | transferRejected hinfo ha' hd hn hfull => exact Or.inr ⟨by simp, rfl, by simp⟩
  | @transferAccepted base req info a n n₁ n₂ res b₁ hinfo ha' hd hn hroom hadm hop hb =>
      have hs₁ := (MockEngineNode.run_admitRequest hadm).2
      have hs₂ := (MockEngineNode.run_startDecode hop).2
      refine Or.inr ⟨by simp, by rw [Bookkeeping.wake_steps, hb]; rfl, fun id t hmem => ?_⟩
      obtain ⟨he, m, hm, -, hf⟩ := Bookkeeping.mem_wakeEvents hmem
      cases he
      have hroom' : n.HasRoom := hroom
      refine ⟨rfl, ?_, n, hn, ?_⟩
      · have hinfo' : s.2.pendingTransfers.get? base.transferId = some info := hinfo
        have hdec : s.2.decisions.get? info.requestId = some a := ha'
        have hnode : s.2.nodes.get? a.decodeNode = some n := hn
        simp [Simulator.gainsWork, hinfo', hdec, hnode, hroom']
      · rw [hb] at hm
        change (s.2.nodes.set _ _).get? _ = _ at hm
        rw [PyDict.get?_set_self, Option.some_inj] at hm
        subst hm
        have hflag : n₁.batchStepInFlight = n.batchStepInFlight :=
          hs₁.batchStepInFlight.trans (MockEngineNode.admitted_batchStepInFlight _)
        rw [← hflag]
        exact hs₂.batchStepInFlight ▸ hf
  | @stepIdle id n hn hidle =>
      exact Or.inl ⟨⟨id, now, none⟩, rfl, rfl, rfl, by simp⟩
  | @stepRun id n n' T completed streams pf b₁ hn hwork hop hnd hmem hout hb =>
      refine Or.inl ⟨⟨id, now, some (n.decoding.card, T)⟩, rfl, rfl,
        by rw [Bookkeeping.wake_steps, hb], fun id' t he => ?_⟩
      rcases List.mem_append.1 he with he | he
      · obtain ⟨r, req, -, -, heq⟩ := mem_prefillEvents he
        cases heq
      rcases List.mem_append.1 he with he | he
      · obtain ⟨r, -, heq⟩ := List.mem_map.1 he
        cases heq
      rcases List.mem_append.1 he with he | he
      · obtain ⟨r, -, heq⟩ := List.mem_map.1 he
        cases heq
      · obtain ⟨heq, -⟩ := Bookkeeping.mem_wakeEvents he
        cases heq
        refine ⟨rfl, fun tick htick => ?_⟩
        rw [Option.mem_some_iff] at htick
        subst htick
        exact le_refl _
  | @decodeFinished r id n n' pr b₁ hd hn hop hb =>
      obtain ⟨hflag, hwork⟩ := hop.flag_work
      refine Or.inr ⟨by simp, by rw [Bookkeeping.wake_steps, hb]; rfl, fun id' t he => ?_⟩
      -- the node had a step in flight if it has work now
      obtain ⟨heq, m, hm, hw, hf⟩ := Bookkeeping.mem_wakeEvents he
      rw [hb] at hm
      change (s.2.nodes.set _ _).get? _ = _ at hm
      rw [PyDict.get?_set_self, Option.some_inj] at hm
      subst hm
      rw [hflag, ha id n hn (hwork hw)] at hf
      cases hf
  | rejected r reason => exact Or.inr ⟨by simp, rfl, by simp⟩
  | scheduled r dec mt mb => exact Or.inr ⟨by simp, rfl, by simp⟩
  | transferStarted base => exact Or.inr ⟨by simp, rfl, by simp⟩
  | token r i => exact Or.inr ⟨by simp, rfl, by simp⟩

/-! ### Runs -/

/-- The steps handled so far are serial, and the last step of a node has ended when the next one is
due. -/
structure SerialSteps {ς : Type} (s : Simulator ς) : Prop where
  serial : ∀ id, Serial s.2.steps id
  due : ∀ ev ∈ s.1.queue.events, ∀ id, ev.payload = .decodeBatchStep id →
    Rested s.2.steps id ev.time

namespace Wiring

variable {ς : Type} {w : Wiring ς} {s s' : Simulator ς}

/-- A node has one scheduled step, so that none is left when it is taken. -/
theorem notMem_rest_of_step {ev : Event Payload} {rest : List (Event Payload)} {id : NodeId}
    (ha : Awake s.stepCount s.2.nodes) (hq : s.1.queue.events = ev :: rest)
    (hev : ev.payload = .decodeBatchStep id) : ∀ e ∈ rest, e.payload ≠ .decodeBatchStep id := by
  have hcount : s.stepCount id ≤ 1 := by
    rw [ha.counted id, inFlight]
    split
    · exact Nat.zero_le 1
    · exact Bool.toNat_le _
  rw [Simulator.stepCount, hq, List.countP_cons, hev] at hcount
  have hzero : rest.countP (fun e => e.payload.isStepOf id) = 0 := by
    have hone : (Payload.decodeBatchStep id).isStepOf id = true := by simp [Payload.isStepOf]
    rw [hone, if_pos rfl] at hcount
    omega
  intro e he hstep
  have hnot := List.countP_eq_zero.1 hzero e he
  rw [hstep] at hnot
  simp [Payload.isStepOf] at hnot

/-- A turn that wakes only rested nodes keeps the steps serial. -/
theorem TurnOf.serialSteps {ev : Event Payload} {rest : List (Event Payload)}
    {out : List (Time × Payload)} (ht : TurnOf w s ev rest out s')
    (ha : Awake s.stepCount s.2.nodes) (hs : SerialSteps s) (hm : WakesRested s .turn) :
    SerialSteps s' := by
  have hfirst : ev ∈ s.1.queue.events := ht.events ▸ List.mem_cons_self ..
  have hrest : ∀ e ∈ rest, e ∈ s.1.queue.events := fun e he =>
    ht.events ▸ List.mem_cons_of_mem _ he
  have htake := SimulationEngine.take_cons ht.events
  rcases ht.handles.steps_cases ha.armed with ⟨x, hp, hx, hsteps, hout⟩ | ⟨-, hsteps, hout⟩
  · -- the step of the node `x.nodeId` is handled
    have hnone := notMem_rest_of_step ha ht.events hp
    refine ⟨fun id => ?_, fun e he id hid => ?_⟩
    · rw [hsteps]
      refine (hs.serial id).append fun hid => ?_
      rw [hx]
      exact hs.due ev hfirst id (hid ▸ hp)
    · rw [hsteps]
      rcases ht.pushes.mem he with he | he
      · have hne : x.nodeId ≠ id := by
          rintro rfl
          exact hnone e he hid
        exact (rested_append_of_ne hne).2 (hs.due e (hrest e he) id hid)
      · rw [hid] at he
        obtain ⟨rfl, hended⟩ := hout id e.time he
        exact (rested_append_self rfl).2 hended
  · refine ⟨fun id => hsteps ▸ hs.serial id, fun e he id hid => ?_⟩
    rw [hsteps]
    rcases ht.pushes.mem he with he | he
    · exact hs.due e (hrest e he) id hid
    · rw [hid] at he
      obtain ⟨htime, hgain, n, hn, hflag⟩ := hout id e.time he
      rw [htime]
      exact hm _ htake id hgain n hn hflag

/-- **In a run in which only rested nodes are woken, the batch steps of a node are serial**: in
every state reached, each step of a node started when the one before it had ended. -/
theorem steps_serial (h : w.Reaches WakesRested s) (id : NodeId) : Serial s.2.steps id := by
  have hinv : SerialSteps s := by
    refine h.invariant (I := SerialSteps) ?_ ?_ ?_
    · exact fun _ _ _ => ⟨fun _ => .nil, fun _ he => absurd he List.not_mem_nil⟩
    · intro s s' t req _ hs _ hpush hc
      refine ⟨fun id => hc ▸ hs.serial id, fun e he id hid => hc ▸ ?_⟩
      rcases hpush.mem he with he | he
      · exact hs.due e he id hid
      · rw [hid, List.mem_singleton] at he
        cases he
    · exact fun s s' ev rest out h hs hm ht => ht.serialSteps h.awake hs hm
  exact hinv.serial id

/-- One request, from its arrival to its end. -/
def oneRequest : List Action :=
  .arrive 0 ⟨"a", [1], 2, 0, 1000, 1000⟩ :: List.replicate 15 .turn

theorem steps_serial_oneRequest : Serial (split.after oneRequest).2.steps "d0" ∧
    (stepsOf (split.after oneRequest).2.steps "d0").length = 2 := by
  have hm : split.Meets WakesRested oneRequest split.initial := by decide +kernel
  have hok : ((split.execute oneRequest).run split.initial).isOk = true := by decide +kernel
  exact ⟨steps_serial (reaches_after _ hm hok) "d0", by decide +kernel⟩

/-- Two requests of one token, the second one a millisecond later. -/
def twoArrivals : List Action :=
  [.arrive 0 ⟨"a", [1], 1, 0, 1000, 1000⟩, .arrive 1 ⟨"b", [2], 1, 0, 1000, 1000⟩] ++
    List.replicate 30 .turn

/-- The second request joins the decode node while the step of the first one is running. -/
theorem steps_overlap :
    split.Reaches (fun _ _ => True) (split.after twoArrivals) ∧
      (∀ id ∈ split.prefillIds, id ∉ split.decodeIds) ∧
      ¬ Serial (split.after twoArrivals).2.steps "d0" := by
  have hm : split.Meets (fun _ _ => True) twoArrivals split.initial := by decide +kernel
  have hok : ((split.execute twoArrivals).run split.initial).isOk = true := by decide +kernel
  exact ⟨reaches_after _ hm hok, by decide +kernel, by decide +kernel⟩

end Wiring

end NanoKVRouter
