/-
**The nodes of a run are those the simulator was wired with.**

Handlers replace a node by one that differs in its lists and counters: its id and its configuration
stay, and no node comes or goes.  So a scheduler that reads the ids and the configuration of the
nodes it is shown reads the specifications.

Main definitions:

* `MockEngineNode.spec` — what a node was created with;
* `Bookkeeping.specOf` — the same by the id under which the node is stored.

Main results:

* `Handles.specOf_eq` — no handler changes it;
* `Wiring.Reaches.specOf_eq` — **in every state that is reached the nodes are those of the wiring**.
-/

import NanoKVRouter.SimulatorSteps

set_option relaxedAutoImplicit false
set_option autoImplicit false

namespace NanoKVRouter

/-! ### Specifications -/

/-- What the node was created with. -/
def MockEngineNode.spec (n : MockEngineNode) : NodeSpec := ⟨n.nodeId, n.modelConfig, n.nodeConfig⟩

/-- What the node with a given id was created with. -/
def Bookkeeping.specOf (b : Bookkeeping) (id : NodeId) : Option NodeSpec :=
  (b.nodes.get? id).map MockEngineNode.spec

namespace MockEngineNode

variable {n n' : MockEngineNode} {r : RequestId}

theorem SameLists.spec_eq (h : SameLists n n') : n'.spec = n.spec := by
  rw [spec, h.nodeId, h.modelConfig, h.nodeConfig, spec]

theorem Ticked.spec_eq {now T : Time} {completed : List RequestId} {pf : Option RequestId}
    (h : Ticked n now T completed pf n') : n'.spec = n.spec := by
  rw [spec, h.nodeId, h.modelConfig, h.nodeConfig, spec]

theorem spec_modifyState (q : RequestId) (f : NodeRequestState → NodeRequestState) :
    (n.modifyState q f).spec = n.spec := by
  obtain ⟨st, h⟩ := modifyState_eq q f n
  rw [h]
  rfl

theorem spec_admitted (r : RequestId) (e : ℤ) : (n.admitted r e).spec = n.spec := by
  rw [admitted]
  split <;> rfl

theorem spec_afterPromote : n.afterPromote.spec = n.spec := by
  rw [afterPromote]
  cases n.nextPromoted with
  | none => rfl
  | some q => exact spec_modifyState ..

theorem spec_completes {pr : Option RequestId} (h : Completes n r pr n') : n'.spec = n.spec := by
  rcases h with h | ⟨-, rfl, -, -⟩
  swap
  · rfl
  by_cases hmem : r ∈ n.runningRequests ∨ r ∈ n.queue
  · rw [run_complete hmem, EStateM.Result.ok.injEq] at h
    rw [← h.2, spec_afterPromote]
    rfl
  · rw [not_or] at hmem
    rw [run_complete_absent hmem.1 hmem.2] at h
    cases h

end MockEngineNode

namespace Bookkeeping

variable {b : Bookkeeping} {x : NodeId} {n n' : MockEngineNode}

theorem specOf_of_get? (h : b.nodes.get? x = some n) : b.specOf x = some n.spec := by
  rw [specOf, h, Option.map_some]

/-- A node is replaced by one with its specification. -/
theorem specOf_setNode (hn : b.nodes.get? x = some n) (h : n'.spec = n.spec) (y : NodeId) :
    (b.setNode x n').specOf y = b.specOf y := by
  by_cases hy : y = x
  · subst hy
    rw [specOf_of_get? hn, specOf, setNode, PyDict.get?_set_self, Option.map_some, h]
  · rw [specOf, setNode, PyDict.get?_set_of_ne _ _ hy, specOf]

theorem specOf_wake (b : Bookkeeping) (id y : NodeId) : (b.wake id).specOf y = b.specOf y := by
  rcases b.wake_cases id 0 with ⟨-, hb, -⟩ | ⟨n, hn, -, -, -, hb⟩
  · rw [hb]
  · rw [hb]
    exact specOf_setNode hn (by rfl) y

end Bookkeeping

/-! ### Runs -/

section Handlers

variable {ς : Type} {w : Wiring ς} {now : Time} {u : ℤ} {b b' : Bookkeeping} {p : Payload}
  {out : List (Time × Payload)}

open Bookkeeping MockEngineNode

/-- **No handler changes what the nodes were created with.** -/
theorem Handles.specOf_eq (h : Handles w now u b p out b') (y : NodeId) :
    b'.specOf y = b.specOf y := by
  cases h with
  | arriveAdmitted hp hn hv hop hstarted =>
      exact specOf_setNode hn (((run_admitRequest hop).2.spec_eq).trans (spec_admitted ..)) y
  | startCached hu hp hn hop =>
      exact specOf_setNode hn (run_markPrefillDone hop).2.spec_eq y
  | startPipeline hp hn hu hlen hop =>
      rw [specOf_wake, specOf_setNode hn (run_enterPrefill hop).2.spec_eq]
  | @prefillFinished r p req a n n' pr started b₁ base t₁ t₂ hp hn ha hop hpr hbase ht =>
      have hdone : ∀ y, ((b.setNode p n').promoted p pr).specOf y = b.specOf y :=
        specOf_setNode hn (spec_completes hop)
      change b₁.specOf y = _
      cases hpr with
      | none => exact hdone y
      | missing q h => exact hdone y
      | start hreq hdec hn₁ hinit =>
          exact (specOf_setNode hn₁ (run_initPromoted hinit).2.spec_eq y).trans (hdone y)
  | @transferAccepted base req info a n n₁ n₂ res b₁ hinfo ha hd hn hroom hadm hop hb =>
      have hspec : n₂.spec = n.spec := by
        rw [(run_startDecode hop).2.spec_eq]
        exact (run_admitRequest hadm).2.spec_eq.trans (spec_admitted ..)
      rw [specOf_wake, hb]
      exact specOf_setNode hn hspec y
  | stepIdle hn hidle => exact specOf_setNode hn (by rfl) y
  | @stepRun id n n' T completed streams pf b₁ hn hwork hop hnd hmem hout hb =>
      have hspec : n'.spec = n.spec := (ticked_of_run hop).2.spec_eq
      rw [specOf_wake, hb]
      exact specOf_setNode hn hspec y
  | decodeFinished hd hn hop hb =>
      rw [specOf_wake, hb]
      exact specOf_setNode hn (spec_completes hop) y
  | _ => rfl

end Handlers

namespace Wiring

variable {ς : Type} {w : Wiring ς} {s : Simulator ς}

/-- Before the first event the nodes are those of the wiring. -/
theorem specOf_start (w : Wiring ς) (sched : ς) (cm : CacheManager) (tm : TransferModel)
    {spec : NodeSpec} (hspec : spec ∈ w.prefillNodes ++ w.decodeNodes) :
    (w.start sched cm tm).2.specOf spec.nodeId = some spec := by
  have hfold : ∀ (specs : List NodeSpec) (d : PyDict NodeId MockEngineNode),
      (spec ∈ specs ∨ (d.get? spec.nodeId).isSome) →
      ((specs.foldl (fun d s => d.set s.nodeId s.node) d).get? spec.nodeId).isSome := by
    intro specs
    induction specs with
    | nil => exact fun d h => h.resolve_left (by simp)
    | cons spec' specs ih =>
        intro d h
        refine ih _ ?_
        by_cases hid : spec.nodeId = spec'.nodeId
        · rw [hid, PyDict.get?_set_self]
          exact Or.inr rfl
        · rw [PyDict.get?_set_of_ne _ _ hid]
          exact h.imp_left fun h => (List.mem_cons.1 h).resolve_left fun h => hid (by rw [h])
  obtain ⟨n, hn⟩ := Option.isSome_iff_exists.1 (hfold _ .empty (Or.inl hspec))
  have hstart : (w.start sched cm tm).2.nodes.get? spec.nodeId = some n := hn
  obtain ⟨spec', hmem, hid, rfl⟩ := start_node hstart
  obtain rfl := w.unique spec hspec spec' hmem hid.symm
  exact congrArg (Option.map MockEngineNode.spec) hn

/-- **In every state that is reached the nodes are those of the wiring.** -/
theorem Reaches.specOf_eq {meets : Simulator ς → Action → Prop} (h : w.Reaches meets s)
    {spec : NodeSpec} (hspec : spec ∈ w.prefillNodes ++ w.decodeNodes) :
    s.2.specOf spec.nodeId = some spec := by
  refine h.invariant (I := fun s => s.2.specOf spec.nodeId = some spec) ?_ ?_ ?_
  · exact fun sched cm tm => w.specOf_start sched cm tm hspec
  · intro s s' t req _ hs _ _ hc
    rw [hc]
    exact hs
  · exact fun s s' ev rest out _ hs _ ht => (ht.handles.specOf_eq _).trans hs

/-- A node that the handlers are wired with is there, with its id. -/
theorem Reaches.exists_node {meets : Simulator ς → Action → Prop} (h : w.Reaches meets s)
    {id : NodeId} (hid : id ∈ w.prefillIds ++ w.decodeIds) :
    ∃ n, s.2.nodes.get? id = some n ∧ n.nodeId = id := by
  obtain ⟨spec, hmem, rfl⟩ : ∃ spec ∈ w.prefillNodes ++ w.decodeNodes, spec.nodeId = id := by
    rwa [prefillIds, decodeIds, ← List.map_append, List.mem_map] at hid
  obtain ⟨n, hn, hspec⟩ := Option.map_eq_some_iff.1 (h.specOf_eq hmem)
  exact ⟨n, hn, congrArg NodeSpec.nodeId hspec⟩

/-- There is no other node. -/
theorem Reaches.mem_pools {meets : Simulator ς → Action → Prop} (h : w.Reaches meets s)
    {id : NodeId} {n : MockEngineNode} (hn : s.2.nodes.get? id = some n) :
    id ∈ w.prefillIds ++ w.decodeIds := by
  by_contra hid
  have hnone : s.2.specOf id = none := by
    refine h.invariant (I := fun s => s.2.specOf id = none) (fun sched cm tm => ?_) ?_ ?_
    · cases hget : (w.start sched cm tm).2.nodes.get? id with
      | none => exact congrArg (Option.map MockEngineNode.spec) hget
      | some m =>
          obtain ⟨spec, hspec, rfl, -⟩ := start_node hget
          refine absurd ?_ hid
          rw [prefillIds, decodeIds, ← List.map_append]
          exact List.mem_map_of_mem hspec
    · intro s s' t req _ hs _ _ hc
      rw [hc]
      exact hs
    · exact fun s s' ev rest out _ hs _ ht => (ht.handles.specOf_eq _).trans hs
  rw [Bookkeeping.specOf_of_get? (b := s.2.toBookkeeping) hn] at hnone
  cases hnone

/-- The nodes that a scheduler is shown are those of the pool. -/
theorem Reaches.nodeIds_eq {meets : Simulator ς → Action → Prop} (h : w.Reaches meets s)
    {ids : List NodeId} (hids : ∀ id ∈ ids, id ∈ w.prefillIds ++ w.decodeIds) :
    (ids.filterMap s.2.nodes.get?).map MockEngineNode.nodeId = ids := by
  induction ids with
  | nil => rfl
  | cons id ids ih =>
      obtain ⟨n, hn, hid⟩ := h.exists_node (hids id List.mem_cons_self)
      rw [List.filterMap_cons_some hn, List.map_cons, hid,
        ih fun x hx => hids x (List.mem_cons_of_mem _ hx)]

end Wiring

end NanoKVRouter
