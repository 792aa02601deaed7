/-
**Promoted requests.**

A node that releases a slot promotes the oldest request of its queue.  The handler of a finished
prefill starts the request that is promoted; the handler of a finished decode drops it.  In a
combined deployment one running list serves both phases, so that the second handler can promote as
well: the request then runs forever and never starts.

Main definitions:

* `CompletesUnqueued` — the ids of the requests are distinct, and the streams that are completed
  leave nodes without a queue;
* `Simulator.Started` — the start of the prefill of a promoted request has been scheduled.

Main results:

* `Wiring.TurnOf.promotions_cases` — a turn that promotes a request schedules its start;
* `Wiring.promoted_started` — **in runs of that kind every promoted request is started, and every
  request ends**;
* `Wiring.promoted_dropped` — a run in which a promoted request is dropped.
-/

import NanoKVRouter.SimulatorConservation

set_option relaxedAutoImplicit false
set_option autoImplicit false

namespace NanoKVRouter

/-! ### Runs without dropped promotions -/

/-- The node that an event completes a stream on. -/
def Payload.completesOn : Payload → Option NodeId
  | .decodeComplete _ d => some d
  | _ => none

/-- A stream is completed only on a node whose queue is empty. -/
theorem noneQueued_iff {ς : Type} {s : Simulator ς} : NoneQueued s ↔
    ∀ e ∈ s.1.take, ∀ d ∈ e.1.payload.completesOn, ∀ n ∈ s.2.nodes.get? d, n.queue = [] := by
  constructor
  · intro h e he d hd n hn
    cases hp : e.1.payload with
    | decodeComplete q d' =>
        rw [hp] at hd
        obtain rfl := Option.some_inj.1 hd
        exact h e he q d' n hp hn
    | _ =>
        rw [hp] at hd
        cases hd
  · intro h e he q d n hp hn
    exact h e he d (by rw [hp]; rfl) n hn

instance {ς : Type} (s : Simulator ς) : Decidable (NoneQueued s) :=
  decidable_of_iff _ noneQueued_iff.symm

/-- The requests that arrive have distinct ids, and the streams that are completed leave nodes
without a queue. -/
def CompletesUnqueued {ς : Type} (s : Simulator ς) : Action → Prop
  | .arrive _ req => NewId s req.requestId
  | .turn => NoneQueued s

instance {ς : Type} (s : Simulator ς) : ∀ a, Decidable (CompletesUnqueued s a)
  | .arrive t req => inferInstanceAs (Decidable (DistinctArrivals s (.arrive t req)))
  | .turn => inferInstanceAs (Decidable (NoneQueued s))

/-- The node and the request that an event starts the prefill of. -/
def Payload.starts? : Payload → Option (NodeId × RequestId)
  | .prefillStart r p _ _ => some (p, r)
  | _ => none

/-- The start of the prefill of a request on a node has been scheduled. -/
def Simulator.Started {ς : Type} (s : Simulator ς) (e : NodeId × RequestId) : Prop :=
  ∃ ev ∈ s.1.processed ++ s.1.queue.events, ev.payload.starts? = some e

instance {ς : Type} (s : Simulator ς) (e : NodeId × RequestId) : Decidable (s.Started e) :=
  inferInstanceAs (Decidable (∃ ev ∈ s.1.processed ++ s.1.queue.events,
    ev.payload.starts? = some e))

/-! ### Promotions of a turn -/

/-- On a node without a queue nothing is promoted. -/
theorem Completes.promoted_eq_none {n n' : MockEngineNode} {r : RequestId} {pr : Option RequestId}
    (h : Completes n r pr n') (hq : n.queue = []) : pr = none := by
  rcases h with h | ⟨hpr, -⟩
  swap
  · exact hpr
  by_cases hmem : r ∈ n.runningRequests ∨ r ∈ n.queue
  · rw [MockEngineNode.run_complete hmem, EStateM.Result.ok.injEq] at h
    have hqueue : (n.without r).queue = [] := by simp [MockEngineNode.without, hq]
    rw [← h.1, MockEngineNode.nextPromoted, hqueue]
    split <;> rfl
  · rw [not_or] at hmem
    rw [MockEngineNode.run_complete_absent hmem.1 hmem.2] at h
    cases h

section Turns

variable {ς : Type} {w : Wiring ς} {s s' : Simulator ς} {stage : RequestId → Stage}

/-- Handling an event promotes nothing, or schedules the start of the request that it promotes. -/
theorem Handles.promotions_cases {now : Time} {u : ℤ} {b b' : Bookkeeping} {p : Payload}
    {out : List (Time × Payload)} (h : Handles w now u b p out b') (hl : Lives w b p stage)
    (hempty : ∀ q d n, p = .decodeComplete q d → b.nodes.get? d = some n → n.queue = []) :
    b'.promotions = b.promotions ∨ ∃ x q req k, b'.promotions = b.promotions ++ [(x, q)] ∧
      (now, .prefillStart q x req k) ∈ out := by
  cases h with
  | @prefillFinished r x req a n n' pr started b₁ base t₁ t₂ hp hn ha hop hpr hbase ht =>
      cases hpr with
      | none => exact Or.inl (List.append_nil _)
      | start hreq ha' hm hinit =>
          exact Or.inr ⟨_, _, _, _, rfl, List.mem_append_left _ (List.mem_singleton_self _)⟩
      | missing q h =>
          -- a request that waits in the queue of the node is known
          obtain ⟨a', hst, hx⟩ := Stage.eq_prefilled (hl.carried r ⟨rfl, rfl⟩)
          have hview : n.viewOf r = .slot 0 req.expectedOutputLen := by
            rw [(hl.kept r).viewOf hn, hst, ← hx]
            exact only_self ..
          have hmem : r ∈ n.runningRequests := by
            have hcount : n.runningRequests.count r = 1 := congrArg NodeView.running hview
            exact List.count_pos_iff.1 (by omega)
          have hnext := (MockEngineNode.completes_eq hop hmem).1
          obtain ⟨req', a'', hw, -⟩ := hl.promoted_waiting hn hmem hnext.symm
          have hk := hl.kept q
          rw [hw] at hk
          rcases h with h | h
          · cases hk.stored.symm.trans h
          · cases hk.assignment.symm.trans h
  | startPipeline hp hn hu hlen hop => exact Or.inl (by simp [Bookkeeping.setNode])
  | transferAccepted hinfo ha hd hn hroom hadm hop hb =>
      exact Or.inl (by simp [hb, Bookkeeping.setNode])
  | stepRun hn hwork hop hnd hmem hout hb => exact Or.inl (by simp [hb, Bookkeeping.setNode])
  | @decodeFinished r d n n' pr b₁ hd hn hop hb =>
      obtain rfl := hop.promoted_eq_none (hempty r d n rfl hn)
      exact Or.inl (by simp [hb, Bookkeeping.setNode, Bookkeeping.promoted, Bookkeeping.drop])
  | _ => exact Or.inl rfl

namespace Wiring

/-- The start that has been scheduled stays in the record of the engine. -/
theorem TurnOf.started {ev : Event Payload} {rest : List (Event Payload)}
    {out : List (Time × Payload)} (ht : TurnOf w s ev rest out s') {e : NodeId × RequestId}
    (h : s.Started e) : s'.Started e := by
  obtain ⟨ev', hev, hp⟩ := h
  refine ⟨ev', ?_, hp⟩
  rw [ht.pushes.processed_eq, SimulationEngine.advance_processed]
  rcases List.mem_append.1 hev with hev | hev
  · exact List.mem_append_left _ (List.mem_append_left _ hev)
  · rw [ht.events] at hev
    rcases List.mem_cons.1 hev with rfl | hev
    · exact List.mem_append_left _ (List.mem_append_right _ (List.mem_singleton_self _))
    · exact List.mem_append_right _ (ht.pushes.mem_of_mem hev)

/-- **A turn that promotes a request schedules its start**, if it completes no stream on a node with
a queue. -/
theorem TurnOf.promotions_cases {ev : Event Payload} {rest : List (Event Payload)}
    {out : List (Time × Payload)} (ht : TurnOf w s ev rest out s') (h : Staged w s stage)
    (hq : NoneQueued s) : s'.2.promotions = s.2.promotions ∨
      ∃ e, s'.2.promotions = s.2.promotions ++ [e] ∧
        ∃ ev' ∈ s'.1.queue.events, ev'.payload.starts? = some e := by
  have hempty : ∀ q d n, ev.payload = .decodeComplete q d → s.2.nodes.get? d = some n →
      n.queue = [] := hq _ (SimulationEngine.take_cons ht.events)
  rcases ht.handles.promotions_cases (ht.lives h) hempty with hsame | ⟨x, q, req, k, hnew, hout⟩
  · exact Or.inl hsame
  · obtain ⟨ev', hev, -, hp⟩ := ht.pushes.exists_of_mem hout
    exact Or.inr ⟨(x, q), hnew, ev', hev, by rw [hp]; rfl⟩

end Wiring

end Turns

/-! ### Whole runs -/

namespace Wiring

variable {ς : Type} {w : Wiring ς} {s : Simulator ς}

/-- **No promoted request is dropped, if no stream is completed on a node with a queue**: in every
state of such a run the start of every promoted request has been scheduled, and when the event queue
is empty, every request that has arrived has ended exactly once. -/
theorem promoted_started (h : w.Reaches CompletesUnqueued s) :
    (∀ e ∈ s.2.promotions, s.Started e) ∧ (s.1.queue.events = [] →
      ∀ ev ∈ s.1.processed, ∀ req, ev.payload = .requestArrive req →
        (s.endings req.requestId).length = 1) := by
  have hstaged : ∀ {s : Simulator ς}, w.Reaches CompletesUnqueued s → ∃ stage, Staged w s stage :=
    fun h => h.staged (fun _ _ _ hm => hm) fun _ _ _ hm => hm
  constructor
  · refine h.invariant (I := fun s => ∀ e ∈ s.2.promotions, s.Started e) ?_ ?_ ?_
    · exact fun _ _ _ _ he => absurd he List.not_mem_nil
    · intro s s' t req _ hs _ hpush hc e he
      rw [hc] at he
      obtain ⟨ev, hev, hp⟩ := hs e he
      refine ⟨ev, ?_, hp⟩
      rw [hpush.processed_eq]
      exact (List.mem_append.1 hev).elim (List.mem_append_left _)
        fun h => List.mem_append_right _ (hpush.mem_of_mem h)
    · intro s s' ev rest out h hs hm ht e he
      obtain ⟨stage, hstage⟩ := hstaged h
      rcases ht.promotions_cases hstage hm with hsame | ⟨e', hnew, ev', hev, hp⟩
      · rw [hsame] at he
        exact ht.started (hs e he)
      · rw [hnew, List.mem_append, List.mem_singleton] at he
        rcases he with he | rfl
        · exact ht.started (hs e he)
        · exact ⟨ev', List.mem_append_right _ hev, hp⟩
  · intro hq ev hev req hreq
    obtain ⟨stage, hstage⟩ := hstaged h
    exact hstage.length_endings h.awake hq hev hreq

/-- The second request waits until the prefill of the first one is finished. -/
def twoPrefills : List Action :=
  [.arrive 0 ⟨"a", [1], 1, 0, 1000, 1000⟩, .arrive 0 ⟨"b", [2], 1, 0, 1000, 1000⟩] ++
    List.replicate 30 .turn

theorem promoted_started_twoPrefills :
    (combined.after twoPrefills).2.promotions = [("n", "b")] ∧
      (combined.after twoPrefills).Started ("n", "b") ∧
      (combined.after twoPrefills).1.queue.events = [] := by
  have hm : combined.Meets CompletesUnqueued twoPrefills combined.initial := by decide +kernel
  have hok : ((combined.execute twoPrefills).run combined.initial).isOk = true := by decide +kernel
  have hp : (combined.after twoPrefills).2.promotions = [("n", "b")] := by decide +kernel
  have hq : (combined.after twoPrefills).1.queue.events = [] := by decide +kernel
  refine ⟨hp, (promoted_started (reaches_after _ hm hok)).1 _ ?_, hq⟩
  rw [hp]
  exact List.mem_singleton_self _

/-- The second request waits until the decode of the first one is finished. -/
def prefillAfterDecode : List Action :=
  [.arrive 0 ⟨"a", [1], 1, 0, 1000, 1000⟩, .arrive 3 ⟨"b", [2], 1, 0, 1000, 1000⟩] ++
    List.replicate 30 .turn

/-- The request `b` is promoted when the decode of `a` is finished.  It is never started, and the
run ends without it. -/
theorem promoted_dropped :
    combined.Reaches DistinctArrivals (combined.after prefillAfterDecode) ∧
      combined.prefillNodes = combined.decodeNodes ∧
      (combined.after prefillAfterDecode).1.queue.events = [] ∧
      ("n", "b") ∈ (combined.after prefillAfterDecode).2.promotions ∧
      ¬ (combined.after prefillAfterDecode).Started ("n", "b") ∧
      (combined.after prefillAfterDecode).endings "b" = [] := by
  have hm : combined.Meets DistinctArrivals prefillAfterDecode combined.initial := by
    decide +kernel
  have hok : ((combined.execute prefillAfterDecode).run combined.initial).isOk = true := by
    decide +kernel
  have hq : (combined.after prefillAfterDecode).1.queue.events = [] := by decide +kernel
  exact ⟨reaches_after _ hm hok, rfl, by decide +kernel, by decide +kernel, by decide +kernel,
    by decide +kernel⟩

end Wiring

end NanoKVRouter
