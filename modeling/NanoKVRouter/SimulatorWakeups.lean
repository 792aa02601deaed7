/-
**No lost wake-up, and no step scheduled twice.**

The flag of a node says whether a batch step of the node is in the event queue.  The flag is cleared
at the top of the handler of a step, set again where a step is scheduled, and never touched
elsewhere; work is added to a node by handlers that wake it afterwards.

Main definitions:

* `Payload.isStepOf`, `Simulator.stepCount` — the scheduled batch steps of a node;
* `Awake` — the flags count the scheduled steps, and a node with work has one.

Main results:

* `Handles.awake` — every handler keeps the invariant;
* `Wiring.wakeups` — **in every state between two event handlings the flag of a node is set exactly
  when one step of it is scheduled, and it is set if the node has work**; and scheduling a step
  never fails because one is scheduled already.
-/

import NanoKVRouter.SimulatorSteps

set_option relaxedAutoImplicit false
set_option autoImplicit false

namespace NanoKVRouter

/-! ### Scheduled steps -/

/-- The event is a batch step of the node. -/
def Payload.isStepOf (id : NodeId) : Payload → Bool
  | .decodeBatchStep id' => decide (id' = id)
  | _ => false

/-- The number of batch steps of a node among some events. -/
def stepsIn (id : NodeId) (out : List (Time × Payload)) : ℕ := out.countP fun e => e.2.isStepOf id

/-- The number of batch steps of a node in the event queue. -/
def Simulator.stepCount {ς : Type} (s : Simulator ς) (id : NodeId) : ℕ :=
  s.1.queue.events.countP fun ev => ev.payload.isStepOf id

theorem stepsIn_append (id : NodeId) (out out' : List (Time × Payload)) :
    stepsIn id (out ++ out') = stepsIn id out + stepsIn id out' := List.countP_append

theorem stepsIn_cons (id : NodeId) (t : Time) (p : Payload) (out : List (Time × Payload)) :
    stepsIn id ((t, p) :: out) = stepsIn id out + (p.isStepOf id).toNat := by
  rw [stepsIn, List.countP_cons, stepsIn]
  cases p.isStepOf id <;> rfl

@[simp] theorem stepsIn_nil (id : NodeId) : stepsIn id [] = 0 := rfl

theorem stepsIn_eq_zero {id : NodeId} {out : List (Time × Payload)}
    (h : ∀ e ∈ out, e.2.isStepOf id = false) : stepsIn id out = 0 := by
  refine List.countP_eq_zero.2 fun e he => ?_
  simp [h e he]

theorem stepsIn_prefillEvents (id : NodeId) (b : Bookkeeping) (id' : NodeId) (t : Time)
    (pf : Option RequestId) : stepsIn id (prefillEvents b id' t pf) = 0 := by
  refine stepsIn_eq_zero fun e he => ?_
  obtain ⟨r, req, -, -, rfl⟩ := mem_prefillEvents he
  rfl

theorem stepsIn_tokenEvents (id : NodeId) (n : MockEngineNode) (t : Time) (rs : List RequestId) :
    stepsIn id (tokenEvents n t rs) = 0 := by
  refine stepsIn_eq_zero fun e he => ?_
  obtain ⟨r, -, rfl⟩ := List.mem_map.1 he
  rfl

theorem stepsIn_completionEvents (id id' : NodeId) (t : Time) (rs : List RequestId) :
    stepsIn id (completionEvents id' t rs) = 0 := by
  refine stepsIn_eq_zero fun e he => ?_
  obtain ⟨r, -, rfl⟩ := List.mem_map.1 he
  rfl

theorem Promotes.stepsIn_eq_zero {now : Time} {p : NodeId} {b b' : Bookkeeping}
    {pr : Option RequestId} {out : List (Time × Payload)} (h : Promotes now p b pr out b')
    (id : NodeId) : stepsIn id out = 0 := by
  cases h <;> rfl

/-! ### The invariant -/

/-- The number of scheduled steps that the flag of a node stands for. -/
def inFlight (nodes : PyDict NodeId MockEngineNode) (id : NodeId) : ℕ :=
  match nodes.get? id with
  | none => 0
  | some n => n.batchStepInFlight.toNat

/-- The flag of the node is set if the node has work. -/
def Armed (nodes : PyDict NodeId MockEngineNode) (id : NodeId) : Prop :=
  ∀ n, nodes.get? id = some n → n.hasWork = true → n.batchStepInFlight = true

/-- The flags count the scheduled steps, and a node with work has one. -/
structure Awake (count : NodeId → ℕ) (nodes : PyDict NodeId MockEngineNode) : Prop where
  counted : ∀ id, count id = inFlight nodes id
  armed : ∀ id, Armed nodes id

/-- The flags count the scheduled steps, and every node but one that has work has one. -/
structure AwakeBut (id : NodeId) (count : NodeId → ℕ) (nodes : PyDict NodeId MockEngineNode) :
    Prop where
  counted : ∀ i, count i = inFlight nodes i
  armed : ∀ i, i ≠ id → Armed nodes i

section Invariant

variable {c : NodeId → ℕ} {nodes : PyDict NodeId MockEngineNode} {p i : NodeId}
  {n n' : MockEngineNode}

theorem inFlight_of_get? (h : nodes.get? p = some n) :
    inFlight nodes p = n.batchStepInFlight.toNat := by rw [inFlight, h]

theorem inFlight_set_self : inFlight (nodes.set p n') p = n'.batchStepInFlight.toNat :=
  inFlight_of_get? (PyDict.get?_set_self ..)

theorem inFlight_set_of_ne (h : i ≠ p) : inFlight (nodes.set p n') i = inFlight nodes i := by
  rw [inFlight, PyDict.get?_set_of_ne _ _ h, inFlight]

theorem armed_set_self (h : n'.hasWork = true → n'.batchStepInFlight = true) :
    Armed (nodes.set p n') p := by
  intro m hm hw
  rw [PyDict.get?_set_self, Option.some_inj] at hm
  subst hm
  exact h hw

theorem armed_set_of_ne (h : i ≠ p) (ha : Armed nodes i) : Armed (nodes.set p n') i := by
  intro m hm
  rw [PyDict.get?_set_of_ne _ _ h] at hm
  exact ha m hm

/-- A call on a node that keeps its flag, before the node is woken. -/
theorem Awake.setNode_but (h : Awake c nodes) (hn : nodes.get? p = some n)
    (hflag : n'.batchStepInFlight = n.batchStepInFlight) : AwakeBut p c (nodes.set p n') where
  counted i := by
    by_cases hi : i = p
    · rw [hi, h.counted, inFlight_of_get? hn, inFlight_set_self, hflag]
    · rw [inFlight_set_of_ne hi, h.counted]
  armed i hi := armed_set_of_ne hi (h.armed i)

/-- A call on a node that keeps its flag and gives it no work. -/
theorem Awake.setNode (h : Awake c nodes) (hn : nodes.get? p = some n)
    (hflag : n'.batchStepInFlight = n.batchStepInFlight)
    (hwork : n'.hasWork = true → n.hasWork = true) : Awake c (nodes.set p n') where
  counted := (h.setNode_but hn hflag).counted
  armed i := by
    by_cases hi : i = p
    · rw [hi]
      exact armed_set_self fun hw => hflag ▸ h.armed p n hn (hwork hw)
    · exact armed_set_of_ne hi (h.armed i)

/-- The handler of a step has cleared the flag of the node. -/
theorem Awake.setNode_step
    (h : Awake (fun i => c i + ((Payload.decodeBatchStep p).isStepOf i).toNat) nodes)
    (hn : nodes.get? p = some n) (hflag : n'.batchStepInFlight = false) :
    AwakeBut p c (nodes.set p n') where
  counted i := by
    have hi := h.counted i
    by_cases hip : i = p
    · subst hip
      rw [inFlight_of_get? hn] at hi
      rw [inFlight_set_self, hflag]
      have hone : ((Payload.decodeBatchStep i).isStepOf i).toNat = 1 := by simp [Payload.isStepOf]
      have hle := n.batchStepInFlight.toNat_le
      rw [hone] at hi
      rw [Bool.toNat_false]
      omega
    · rw [inFlight_set_of_ne hip]
      simpa [Payload.isStepOf, Ne.symm hip] using hi
  armed i hi := armed_set_of_ne hi (h.armed i)

/-- A node is woken. -/
theorem AwakeBut.wake {b : Bookkeeping} {id : NodeId} (h : AwakeBut id c b.nodes) (t : Time) :
    Awake (fun i => c i + stepsIn i (b.wakeEvents id t)) (b.wake id).nodes := by
  rcases b.wake_cases id t with ⟨hev, hb, harmed⟩ | ⟨n, hn, -, hflag, hev, hb⟩
  · rw [hev, hb]
    refine ⟨h.counted, fun i => ?_⟩
    by_cases hi : i = id
    · rw [hi]
      exact harmed
    · exact h.armed i hi
  · rw [hev, hb]
    refine ⟨fun i => ?_, fun i => ?_⟩
    · change c i + stepsIn i _ = inFlight (b.nodes.set id _) i
      rw [h.counted i, stepsIn_cons, stepsIn_nil]
      by_cases hi : i = id
      · rw [hi, inFlight_of_get? hn, inFlight_set_self, hflag]
        simp [Payload.isStepOf]
      · rw [inFlight_set_of_ne hi]
        simp [Payload.isStepOf, Ne.symm hi]
    · by_cases hi : i = id
      · rw [hi]
        exact armed_set_self fun _ => rfl
      · exact armed_set_of_ne hi (h.armed i hi)

end Invariant

/-! ### The handlers keep the invariant -/

theorem hasWork_eq_true_iff {n : MockEngineNode} :
    n.hasWork = true ↔ n.decoding.Nonempty ∨ n.prefillRemaining.entries ≠ [] := by
  simp [MockEngineNode.hasWork]

/-- A call on a node that changes neither its batch nor its pipeline gives it no work. -/
theorem hasWork_congr {n n' : MockEngineNode} (hd : n'.decoding = n.decoding)
    (hp : n'.prefillRemaining = n.prefillRemaining) : n'.hasWork = n.hasWork := by
  rw [MockEngineNode.hasWork, hd, hp, MockEngineNode.hasWork]

/-- A completion keeps the flag and gives no work. -/
theorem Completes.flag_work {n n' : MockEngineNode} {r : RequestId} {pr : Option RequestId}
    (h : Completes n r pr n') :
    n'.batchStepInFlight = n.batchStepInFlight ∧ (n'.hasWork = true → n.hasWork = true) := by
  rcases h with h | ⟨-, rfl, -, -⟩
  · by_cases hmem : r ∈ n.runningRequests ∨ r ∈ n.queue
    · rw [MockEngineNode.run_complete hmem, EStateM.Result.ok.injEq] at h
      obtain ⟨-, rfl⟩ := h
      refine ⟨by simp [MockEngineNode.without], fun hw => ?_⟩
      rw [hasWork_eq_true_iff] at hw ⊢
      rcases hw with hd | hp
      · rw [MockEngineNode.afterPromote_decoding] at hd
        exact Or.inl (hd.mono (Finset.erase_subset _ _))
      · rw [MockEngineNode.afterPromote_prefillRemaining] at hp
        refine Or.inr fun hnil => hp ?_
        change (n.prefillRemaining.erase r).entries = []
        rw [PyDict.entries_erase, hnil, List.filter_nil]
    · rw [not_or] at hmem
      rw [MockEngineNode.run_complete_absent hmem.1 hmem.2] at h
      cases h
  · exact ⟨rfl, id⟩

/-- **Every handler keeps the invariant**, if `c` counts the scheduled steps without the one that is
handled. -/
theorem Handles.awake {ς : Type} {w : Wiring ς} {now : Time} {u : ℤ} {b b' : Bookkeeping} {p : Payload}
    {out : List (Time × Payload)} {c : NodeId → ℕ} (h : Handles w now u b p out b')
    (ha : Awake (fun i => c i + (p.isStepOf i).toNat) b.nodes) :
    Awake (fun i => c i + stepsIn i out) b'.nodes := by
  cases h with
  | arriveRejected req reason => exact ha
  | @arriveAdmitted req p d dec mt mb v running n n' started hp hn hu hop hstarted =>
      have hs := (MockEngineNode.run_admitRequest hop).2
      have hout : ∀ i, stepsIn i started = 0 := by
        intro i
        cases running with
        | true =>
            obtain ⟨k, rfl⟩ := hstarted
            rfl
        | false =>
            obtain rfl := hstarted
            rfl
      have hkeep : Awake c (b.nodes.set p n') := by
        refine Awake.setNode ha hn ?_ fun hw => ?_
        · rw [hs.batchStepInFlight, MockEngineNode.admitted_batchStepInFlight]
        · rwa [hasWork_congr (n := n) (by rw [hs.decoding, MockEngineNode.admitted_decoding])
            (by rw [hs.prefillRemaining, MockEngineNode.admitted_prefillRemaining])] at hw
      refine ⟨fun i => ?_, hkeep.armed⟩
      rw [stepsIn_cons, hout i]
      exact hkeep.counted i
  | startCached hu hp hn hop =>
      have hs := (MockEngineNode.run_markPrefillDone hop).2
      refine ha.setNode hn hs.batchStepInFlight fun hw => ?_
      rwa [hasWork_congr hs.decoding hs.prefillRemaining] at hw
  | startPipeline hp hn hu hlen hop =>
      have hs := (MockEngineNode.run_enterPrefill hop).2
      exact AwakeBut.wake (ha.setNode_but hn hs.batchStepInFlight) now
  | completeUnknown ha' => exact ha
  | @prefillFinished r p req a n n' pr started b₁ base t₁ t₂ hp hn ha' hop hpr hbase ht =>
      obtain ⟨hflag, hwork⟩ := hop.flag_work
      have hdone : Awake c (b.nodes.set p n') := Awake.setNode ha hn hflag hwork
      have hkeep : Awake c b₁.nodes := by
        cases hpr with
        | none => exact hdone
        | missing q h => exact hdone
        | start hreq hdec hn₁ hinit =>
            have hs := (MockEngineNode.run_initPromoted hinit).2
            refine Awake.setNode hdone hn₁ hs.batchStepInFlight fun hw => ?_
            rwa [hasWork_congr hs.decoding hs.prefillRemaining] at hw
      refine ⟨fun i => ?_, hkeep.armed⟩
      rw [stepsIn_append, hpr.stepsIn_eq_zero]
      exact hkeep.counted i
  | transferStale hinfo => exact ha
  | transferUnknown hinfo ha' => exact ha
  | transferRejected hinfo ha' hd hn hfull => exact ha
  | transferAccepted hinfo ha' hd hn hroom hadm hop hb =>
      have hs₁ := (MockEngineNode.run_admitRequest hadm).2
      have hs₂ := (MockEngineNode.run_startDecode hop).2
      subst hb
      refine AwakeBut.wake (Awake.setNode_but ha hn ?_) now
      rw [hs₂.batchStepInFlight]
      exact hs₁.batchStepInFlight.trans (MockEngineNode.admitted_batchStepInFlight _)
  | @stepIdle id n hn hidle =>
      have hflag : ({ n with batchStepInFlight := false } : MockEngineNode).batchStepInFlight =
          false := rfl
      have hbut := ha.setNode_step hn hflag
      refine ⟨hbut.counted, fun i => ?_⟩
      by_cases hi : i = id
      · rw [hi]
        refine armed_set_self fun hw => ?_
        have hw' : n.hasWork = true := hw
        rw [hidle] at hw'
        cases hw'
      · exact hbut.armed i hi
  | @stepRun id n n' T completed streams pf b₁ hn hwork hop hnd hmem hout hb =>
      have ht := (MockEngineNode.ticked_of_run hop).2
      have hbut : AwakeBut id c b₁.nodes := by
        rw [hb]
        exact ha.setNode_step hn ht.batchStepInFlight
      have hwake := hbut.wake T
      refine ⟨fun i => ?_, hwake.armed⟩
      rw [stepsIn_append, stepsIn_append, stepsIn_append, stepsIn_prefillEvents,
        stepsIn_tokenEvents, stepsIn_completionEvents, zero_add, zero_add, zero_add]
      exact hwake.counted i
  | decodeFinished hd hn hop hb =>
      obtain ⟨hflag, -⟩ := hop.flag_work
      subst hb
      exact AwakeBut.wake (ha.setNode_but hn hflag) now
  | rejected r reason => exact ha
  | scheduled r dec mt mb => exact ha
  | transferStarted base => exact ha
  | token r i => exact ha

/-! ### Runs -/

namespace Wiring

variable {ς : Type} {w : Wiring ς} {s s' : Simulator ς}

/-- The flags count the scheduled steps in every state that is reached, and a node with work has
one. -/
theorem Reaches.awake {meets : Simulator ς → Action → Prop} (h : w.Reaches meets s) :
    Awake s.stepCount s.2.nodes := by
  refine h.invariant (I := fun s => Awake s.stepCount s.2.nodes) ?_ ?_ ?_
  · intro sched cm tm
    refine ⟨fun id => ?_, fun id n hn hwork => ?_⟩
    · rw [inFlight]
      cases hn : (w.start sched cm tm).2.nodes.get? id with
      | none => rfl
      | some n =>
          obtain ⟨spec, -, -, rfl⟩ := start_node hn
          rfl
    · obtain ⟨spec, -, -, rfl⟩ := start_node hn
      cases hwork
  · intro s s' t req _ ha _ hpush hc
    rw [hc]
    refine ⟨fun id => ?_, ha.armed⟩
    rw [← ha.counted id]
    exact hpush.countP_eq _
  · intro s s' ev rest out _ ha _ ht
    have hcount : s.stepCount = fun id => (rest.countP fun ev => ev.payload.isStepOf id) +
        (ev.payload.isStepOf id).toNat := by
      funext id
      rw [Simulator.stepCount, ht.events, List.countP_cons]
      cases ev.payload.isStepOf id <;> rfl
    rw [hcount] at ha
    have hstep := ht.handles.awake ha
    refine ⟨fun id => ?_, hstep.armed⟩
    rw [← hstep.counted id]
    exact ht.pushes.countP_eq _

end Wiring

/-- A step that is scheduled for a node without one is marked. -/
theorem run_markBatchStepScheduled {n : MockEngineNode} (h : n.batchStepInFlight = false) :
    MockEngineNode.markBatchStepScheduled.run n = .ok () { n with batchStepInFlight := true } := by
  simp only [MockEngineNode.markBatchStepScheduled, EStateM.run_bind, EStateM.run_get, h,
    Bool.false_eq_true, if_false, EStateM.run_set]

/-- Waking a node fails for an unknown node and for a time in the past only: a step that is
scheduled already does not make it fail. -/
theorem run_wakeBatchStep_error {ς : Type} {s s' : Simulator ς} {id : NodeId} {t : Time}
    {e : PyErr} (h : (wakeBatchStep id t).run s = .error e s') :
    e = .keyError id ∨ e = .valueError
      s!"cannot schedule event at past time {t} < now {s.1.currentTime}" := by
  rw [wakeBatchStep, Py.run_get_bind] at h
  cases hn : s.2.nodes.get? id with
  | none =>
      simp only [hn, Py.run_raise, EStateM.Result.error.injEq] at h
      exact Or.inl h.1.symm
  | some n =>
      simp only [hn] at h
      by_cases hw : (n.hasWork && !n.batchStepInFlight) = true
      swap
      · rw [if_neg hw] at h
        cases h
      rw [if_pos hw, EStateM.run_bind] at h
      by_cases ht : s.1.currentTime ≤ t
      · have hsched : (scheduleAt t (.decodeBatchStep id)).run s =
            .ok () (s.1.push { time := t, payload := .decodeBatchStep id } ht, s.2) :=
          Py.run_onPart_eq_ok.2 ⟨_, SimulationEngine.run_schedule_ok_iff.2 ⟨ht, rfl⟩, rfl⟩
        rw [Bool.and_eq_true, Bool.not_eq_true'] at hw
        rw [hsched] at h
        simp only [onNode, Py.run_get_bind, hn] at h
        rw [Py.run_onPart_ok (run_markBatchStepScheduled hw.2)] at h
        cases h
      · have hsched : (scheduleAt t (.decodeBatchStep id)).run s = .error (.valueError
            s!"cannot schedule event at past time {t} < now {s.1.currentTime}") s :=
          Py.run_onPart_error (SimulationEngine.run_schedule_error (not_le.1 ht))
        rw [hsched, EStateM.Result.error.injEq] at h
        exact Or.inr h.1.symm

/-- **No lost wake-up and no step scheduled twice**: in every state between two event handlings, of
any run, the flag of a node is set exactly when one batch step of it is scheduled, it is clear
exactly when none is, and it is set if the node has a decode stream or a pending prefill.  Marking
a step as scheduled never raises: `_wake_batch_step` raises no `RuntimeError` in any state. -/
theorem Wiring.wakeups {ς : Type} {w : Wiring ς} {s : Simulator ς}
    (h : w.Reaches (fun _ _ => True) s) :
    (∀ id n, s.2.nodes.get? id = some n →
      (n.batchStepInFlight = true ↔ s.stepCount id = 1) ∧
      (n.batchStepInFlight = false ↔ s.stepCount id = 0) ∧
      (n.decoding.Nonempty ∨ n.prefillRemaining.entries ≠ [] → n.batchStepInFlight = true)) ∧
    ∀ id t msg s', (wakeBatchStep id t).run s ≠ .error (.runtimeError msg) s' := by
  have ha := h.awake
  refine ⟨fun id n hn => ?_, fun id t msg s' herr => ?_⟩
  · have hcount : s.stepCount id = n.batchStepInFlight.toNat := by
      rw [ha.counted id, inFlight_of_get? hn]
    refine ⟨?_, ?_, fun hw => ha.armed id n hn (hasWork_eq_true_iff.2 hw)⟩
    · rw [hcount]
      cases n.batchStepInFlight <;> simp
    · rw [hcount]
      cases n.batchStepInFlight <;> simp
  · rcases run_wakeBatchStep_error herr with h | h <;> cases h

/-- One request, up to the batch step that prefills it. -/
def Wiring.oneArrival : List Action :=
  [.arrive 0 ⟨"a", [1], 1, 0, 1000, 1000⟩, .turn, .turn, .turn]

theorem Wiring.wakeups_oneArrival :
    (split.after oneArrival).stepCount "p0" = 1 ∧
      ∀ n, (split.after oneArrival).2.nodes.get? "p0" = some n → n.batchStepInFlight = true := by
  have hcount : (split.after oneArrival).stepCount "p0" = 1 := by decide +kernel
  have hm : split.Meets (fun _ _ => True) oneArrival split.initial := by decide +kernel
  have hok : ((split.execute oneArrival).run split.initial).isOk = true := by decide +kernel
  exact ⟨hcount, fun n hn => ((wakeups (reaches_after _ hm hok)).1 "p0" n hn).1.2 hcount⟩

end NanoKVRouter
