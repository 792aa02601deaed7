/-
**The executed chunks of a prefill.**

When a PREFILL_START is handled, the tokens of the prompt that are uncached then enter the pipeline
of the node, and every batch step of the node takes one chunk of the oldest prefill.  When the event
queue has drained, all that entered has been executed.

Main definitions:

* `ChunkEvent`, `Simulator.tells` — what a turn tells of the chunks of a request;
* `Wiring.chunkLog`, `Wiring.executedChunks` — what a run tells, and the chunks it has executed;
* `Wiring.ReportsLeft` — the PREFILL_START that is handled reports the chunks that are left;
* `Noted` — what has been told of a request, in each of its stages.

Main results:

* `Wiring.TurnOf.noted` — a turn tells what belongs to the next stage;
* `Wiring.noted_run` — a run tells what belongs to the stages it ends in;
* `Wiring.executed_iff_reportsLeft` — **a run that drains the event queue has executed the chunks
  that it reported if and only if every report was up to date when it was handled**.
-/

import NanoKVRouter.SimulatorConservation
import NanoKVRouter.ChunkedPrefill

set_option relaxedAutoImplicit false
set_option autoImplicit false

namespace NanoKVRouter

/-! ### What is told of the chunks -/

/-- What is told of the chunks of a request: its PREFILL_START is handled, which reports a number of
chunks and finds a number of them left, and a batch step takes a chunk of it. -/
inductive ChunkEvent
  | started (requestId : RequestId) (reported left : ℤ)
  | executed (requestId : RequestId)
deriving DecidableEq

/-- The request that is told of. -/
def ChunkEvent.requestId : ChunkEvent → RequestId
  | started r _ _ => r
  | executed r => r

/-- What is reported is what is left. -/
def ChunkEvent.UpToDate : ChunkEvent → Prop
  | started _ reported left => reported = left
  | executed _ => True

instance : DecidablePred ChunkEvent.UpToDate
  | .started _ reported left => inferInstanceAs (Decidable (reported = left))
  | .executed _ => .isTrue trivial

/-- The chunk size of a node. -/
def Bookkeeping.chunkSize (b : Bookkeeping) (x : NodeId) : ℤ :=
  (b.nodes.get? x).elim 0 fun n => n.modelConfig.prefillChunkSize

/-- What handling an event tells: the chunks of the uncached tokens when a prefill is started, and
the oldest prefill of the node when a batch step is handled. -/
def Simulator.tells {ς : Type} (s : Simulator ς) : Payload → List ChunkEvent
  | .prefillStart requestId nodeId req nChunks =>
      [.started requestId nChunks (chunks (s.2.toBookkeeping.chunkSize nodeId)
        (s.uncachedAt (.prefillStart requestId nodeId req nChunks)))]
  | .decodeBatchStep nodeId =>
      ((s.2.nodes.get? nodeId).bind MockEngineNode.pipelineHead).toList.map .executed
  | _ => []

namespace Wiring

variable {ς : Type}

/-- What a step of a run tells. -/
def tellsOf (s : Simulator ς) : Action → List ChunkEvent
  | .arrive _ _ => []
  | .turn => s.1.take.toList.flatMap fun e => Simulator.tells (e.2, s.2) e.1.payload

/-- What a run tells. -/
def chunkLog (w : Wiring ς) : List Action → Simulator ς → List ChunkEvent
  | [], _ => []
  | a :: acts, s => tellsOf s a ++ chunkLog w acts ((w.act a).run s).state

/-- The batch steps of a run that take a chunk of the request. -/
def executedChunks (w : Wiring ς) (acts : List Action) (s : Simulator ς) (r : RequestId) : ℕ :=
  (w.chunkLog acts s).count (.executed r)

/-- The PREFILL_START that the step handles, if it handles one, reports the chunks that are left. -/
def ReportsLeft (s : Simulator ς) (a : Action) : Prop := ∀ e ∈ tellsOf s a, e.UpToDate

instance (s : Simulator ς) : DecidablePred (ReportsLeft s) := fun a =>
  inferInstanceAs (Decidable (∀ e ∈ tellsOf s a, e.UpToDate))

end Wiring

/-! ### Chunk sizes -/

theorem Completes.modelConfig {n n' : MockEngineNode} {r : RequestId} {pr : Option RequestId}
    (h : Completes n r pr n') : n'.modelConfig = n.modelConfig := by
  rcases h with h | ⟨-, rfl, -, -⟩
  · by_cases hmem : r ∈ n.runningRequests ∨ r ∈ n.queue
    · rw [MockEngineNode.run_complete hmem, EStateM.Result.ok.injEq] at h
      obtain ⟨-, rfl⟩ := h
      exact MockEngineNode.afterPromote_modelConfig _
    · rw [not_or] at hmem
      rw [MockEngineNode.run_complete_absent hmem.1 hmem.2] at h
      cases h
  · rfl

section ChunkSize

variable {b b' : Bookkeeping} {x : NodeId} {n n' : MockEngineNode}

namespace Bookkeeping

theorem chunkSize_of_get? (hn : b.nodes.get? x = some n) :
    b.chunkSize x = n.modelConfig.prefillChunkSize := by
  rw [chunkSize, hn, Option.elim_some]

theorem chunkSize_setNode (hn : b.nodes.get? x = some n) (h : n'.modelConfig = n.modelConfig) :
    (b.setNode x n').chunkSize = b.chunkSize := by
  funext y
  by_cases hy : y = x
  · subst hy
    rw [chunkSize_of_get? hn, chunkSize_of_get? (PyDict.get?_set_self ..), h]
  · rw [chunkSize, chunkSize, setNode, PyDict.get?_set_of_ne _ _ hy]

theorem chunkSize_wake (b : Bookkeeping) (x : NodeId) : (b.wake x).chunkSize = b.chunkSize := by
  rcases b.wake_cases x 0 with ⟨-, hb, -⟩ | ⟨n, hn, -, -, -, hb⟩
  · rw [hb]
  · rw [hb]
    exact chunkSize_setNode hn rfl

end Bookkeeping

/-- **No handler changes a chunk size.** -/
theorem Handles.chunkSize {ς : Type} {w : Wiring ς} {now : Time} {u : ℤ} {p : Payload}
    {out : List (Time × Payload)} (h : Handles w now u b p out b') :
    b'.chunkSize = b.chunkSize := by
  cases h with
  | arriveAdmitted hp hn hu hop hstarted =>
      have hs := (MockEngineNode.run_admitRequest hop).2.modelConfig
      exact Bookkeeping.chunkSize_setNode hn (hs.trans (MockEngineNode.admitted_modelConfig _))
  | startCached hu hp hn hop =>
      exact Bookkeeping.chunkSize_setNode hn (MockEngineNode.run_markPrefillDone hop).2.modelConfig
  | startPipeline hp hn hu hlen hop =>
      rw [Bookkeeping.chunkSize_wake]
      exact Bookkeeping.chunkSize_setNode hn (MockEngineNode.run_enterPrefill hop).2.modelConfig
  | @prefillFinished r p req a n n' pr started b₁ base t₁ t₂ hp hn ha hop hpr hbase ht =>
      have hdone := Bookkeeping.chunkSize_setNode hn hop.modelConfig
      cases hpr with
      | none => exact hdone
      | missing q h => exact hdone
      | start hreq hdec hn₁ hinit =>
          exact (Bookkeeping.chunkSize_setNode hn₁
            (MockEngineNode.run_initPromoted hinit).2.modelConfig).trans hdone
  | transferAccepted hinfo ha hd hn hroom hadm hop hb =>
      have hs := (MockEngineNode.run_admitRequest hadm).2.modelConfig
      have hs' := (MockEngineNode.run_startDecode hop).2.modelConfig
      rw [Bookkeeping.chunkSize_wake, hb]
      exact Bookkeeping.chunkSize_setNode hn
        (hs'.trans (hs.trans (MockEngineNode.admitted_modelConfig _)))
  | stepIdle hn hidle => exact Bookkeeping.chunkSize_setNode hn rfl
  | stepRun hn hwork hop hnd hmem hout hb =>
      rw [Bookkeeping.chunkSize_wake, hb]
      exact Bookkeeping.chunkSize_setNode hn (MockEngineNode.ticked_of_run hop).2.modelConfig
  | decodeFinished hd hn hop hb =>
      rw [Bookkeeping.chunkSize_wake, hb]
      exact Bookkeeping.chunkSize_setNode hn hop.modelConfig
  | arriveRejected | completeUnknown | transferStale | transferUnknown | transferRejected
  | rejected | scheduled | transferStarted | token => rfl

end ChunkSize

/-! ### The pipeline of a node -/

namespace MockEngineNode

variable {n n' : MockEngineNode} {r : RequestId} {now T : Time} {completed : List RequestId}
  {pf : Option RequestId}

/-- A batch step takes a chunk of the oldest prefill. -/
theorem Ticked.pipeline_head (h : Ticked n now T completed pf n') (hr : n.pipelineHead = some r) :
    ∃ u, n.prefillRemaining.get? r = some u ∧
      (u ≤ n.modelConfig.prefillChunkSize ∧ n'.prefillRemaining.get? r = none ∨
        n.modelConfig.prefillChunkSize < u ∧
          n'.prefillRemaining.get? r = some (u - n.modelConfig.prefillChunkSize)) := by
  rcases h.pipeline with ⟨hnil, -⟩ | ⟨q, u, rest, hent, -, hif⟩
  · rw [pipelineHead, hnil] at hr
    cases hr
  · rw [pipelineHead, hent] at hr
    obtain rfl := Option.some_inj.1 hr
    refine ⟨u, PyDict.get?_eq_some_iff.2 (hent ▸ List.mem_cons_self ..), ?_⟩
    split at hif
    · rename_i hle
      exact Or.inl ⟨hle, by rw [hif.2, PyDict.get?_erase_self]⟩
    · rename_i hlt
      exact Or.inr ⟨not_le.1 hlt, by rw [hif.2, PyDict.get?_set_self]⟩

/-- Nothing changes for the other prefills. -/
theorem Ticked.pipeline_behind (h : Ticked n now T completed pf n')
    (hr : n.pipelineHead ≠ some r) : n'.prefillRemaining.get? r = n.prefillRemaining.get? r := by
  rcases h.pipeline with ⟨-, -, hsame, -⟩ | ⟨q, u, rest, hent, -, hif⟩
  · rw [hsame]
  · have hne : r ≠ q := by
      rintro rfl
      rw [pipelineHead, hent] at hr
      exact hr rfl
    split at hif
    · rw [hif.2, PyDict.get?_erase_of_ne _ hne]
    · rw [hif.2, PyDict.get?_set_of_ne _ _ hne]

end MockEngineNode

section Pipelines

variable {ς : Type} {w : Wiring ς} {now : Time} {u : ℤ} {b b' : Bookkeeping} {r : RequestId}
  {out : List (Time × Payload)} {x : NodeId} {n : MockEngineNode}

/-- The pipeline after a handled batch step. -/
theorem Handles.pipeline_step (h : Handles w now u b (.decodeBatchStep x) out b')
    (hn : b.nodes.get? x = some n) :
    (n.pipelineHead = some r → ∃ v, (n.viewOf r).pipeline = some v ∧
      (v ≤ n.modelConfig.prefillChunkSize ∧ (b'.nodeView x r).pipeline = none ∨
        n.modelConfig.prefillChunkSize < v ∧
          (b'.nodeView x r).pipeline = some (v - n.modelConfig.prefillChunkSize))) ∧
    (n.pipelineHead ≠ some r → (b'.nodeView x r).pipeline = (n.viewOf r).pipeline) := by
  cases h with
  | @stepIdle _ m hm hidle =>
      obtain rfl := Option.some_inj.1 (hn.symm.trans hm)
      have hnil : n.pipelineHead = none := by
        rw [MockEngineNode.pipelineHead]
        cases hent : n.prefillRemaining.entries with
        | nil => rfl
        | cons e es =>
            have hwork := hasWork_eq_true_iff.2
              (Or.inr (hent ▸ List.cons_ne_nil e es))
            rw [hidle] at hwork
            cases hwork
      refine ⟨fun hr => ?_, fun _ => ?_⟩
      · rw [hnil] at hr
        cases hr
      · exact congrArg NodeView.pipeline (Bookkeeping.nodeView_setNode_self (b := b))
  | @stepRun _ m n' T completed streams pf b₁ hm hwork hop hnd hmem hout hb =>
      obtain rfl := Option.some_inj.1 (hn.symm.trans hm)
      have ht := (MockEngineNode.ticked_of_run hop).2
      have hview : (b₁.wake x).nodeView x r = n'.viewOf r := by
        rw [Bookkeeping.nodeView_wake, hb]
        exact Bookkeeping.nodeView_setNode_self (b := b)
      rw [hview]
      exact ⟨fun hr => ht.pipeline_head hr, fun hr => ht.pipeline_behind hr⟩

/-- The pipeline after a handled start of a prefill. -/
theorem Handles.pipeline_start {req : Request} {k : ℤ}
    (h : Handles w now u b (.prefillStart r x req k) out b')
    (hr : (b.nodeView x r).pipeline = none) :
    u = 0 ∧ (b'.nodeView x r).pipeline = none ∨ 0 < u ∧ (b'.nodeView x r).pipeline = some u := by
  cases h with
  | @startCached _ _ _ _ m n' hu hp hm hop =>
      left
      have hs := (MockEngineNode.run_markPrefillDone hop).2
      refine ⟨hu, ?_⟩
      rw [Bookkeeping.nodeView_setNode_self, hs.viewOf, ← Bookkeeping.nodeView_of_get? hm, hr]
  | @startPipeline _ _ _ _ m n' hp hm hu hlen hop =>
      right
      have hs := (MockEngineNode.run_enterPrefill hop).2
      refine ⟨hu, ?_⟩
      rw [Bookkeeping.nodeView_wake, Bookkeeping.nodeView_setNode_self, hs.viewOf]
      exact PyDict.get?_set_self ..

end Pipelines

/-! ### What has been told of a request -/

/-- The prefill of the request has not been started. -/
def Stage.Unstarted : Stage → Prop
  | .absent | .arriving _ | .waiting _ _ | .starting _ _ _ => True
  | _ => False

/-- The chunks of the request that are in the pipeline. -/
def Stage.chunksToCome (c : NodeId → ℤ) : Stage → ℤ
  | .prefilling _ a u => chunks (c a.prefillNode) u
  | _ => 0

theorem Stage.chunksToCome_prefilling (c : NodeId → ℤ) (req : Request) (a : Assignment) (u : ℤ) :
    (Stage.prefilling req a u).chunksToCome c = chunks (c a.prefillNode) u := rfl

theorem Stage.chunksToCome_prefilled (c : NodeId → ℤ) (req : Request) (a : Assignment) :
    (Stage.prefilled req a).chunksToCome c = 0 := rfl

/-- Nothing has been told of the request before its prefill was started; since then, what has been
executed and what is in the pipeline are what was left at the start. -/
structure Noted (c : NodeId → ℤ) (past : List ChunkEvent) (r : RequestId) (st : Stage) : Prop where
  fresh : st.Unstarted → ∀ e ∈ past, e.requestId ≠ r
  counted : ∀ k m, .started r k m ∈ past → (past.count (.executed r) : ℤ) + st.chunksToCome c = m

namespace Noted

variable {c : NodeId → ℤ} {past news : List ChunkEvent} {r : RequestId} {st st' : Stage}

/-- Nothing is told of the request. -/
theorem idle (h : Noted c past r st) (hnews : ∀ e ∈ news, e.requestId ≠ r)
    (hfresh : st'.Unstarted → st.Unstarted) (heq : st'.chunksToCome c = st.chunksToCome c) :
    Noted c (past ++ news) r st' := by
  have hcount : news.count (.executed r) = 0 :=
    List.count_eq_zero_of_not_mem fun hmem => hnews _ hmem rfl
  constructor
  · intro hst e he
    rcases List.mem_append.1 he with he | he
    · exact h.fresh (hfresh hst) e he
    · exact hnews e he
  · intro k m hmem
    rw [List.count_append, hcount, add_zero, heq]
    refine h.counted k m ((List.mem_append.1 hmem).resolve_right fun hmem => ?_)
    exact hnews _ hmem rfl

/-- Its prefill is started. -/
theorem started (h : Noted c past r st) {k m : ℤ} (hst : st.Unstarted) (hst' : ¬ st'.Unstarted)
    (heq : st'.chunksToCome c = m) : Noted c (past ++ [.started r k m]) r st' := by
  have hfresh := h.fresh hst
  have hcount : past.count (.executed r) = 0 :=
    List.count_eq_zero_of_not_mem fun hmem => hfresh _ hmem rfl
  constructor
  · exact fun hst => absurd hst hst'
  · intro k' m' hmem
    rw [List.count_append, hcount]
    rcases List.mem_append.1 hmem with hmem | hmem
    · exact absurd rfl (hfresh _ hmem)
    · obtain ⟨-, -, rfl⟩ := ChunkEvent.started.inj (List.mem_singleton.1 hmem)
      simp [heq]

/-- A chunk of it is executed. -/
theorem executed (h : Noted c past r st) (hst' : ¬ st'.Unstarted)
    (heq : st'.chunksToCome c + 1 = st.chunksToCome c) :
    Noted c (past ++ [.executed r]) r st' := by
  constructor
  · exact fun hst => absurd hst hst'
  · intro k m hmem
    have hmem : .started r k m ∈ past := by simpa using hmem
    have hcounted := h.counted k m hmem
    rw [List.count_append, List.count_singleton_self]
    push_cast
    omega

end Noted

section Turns

variable {ς : Type} {s s' : Simulator ς} {p : Payload} {r : RequestId} {c : NodeId → ℤ}

theorem chunks_zero {chunk : ℤ} (h : 0 ≤ chunk) : chunks chunk 0 = 0 := by
  rw [chunks]
  rcases h.eq_or_lt with rfl | hpos
  · rfl
  · exact Int.ediv_eq_zero_of_lt (by omega) (by omega)

theorem Bookkeeping.chunkSize_nonneg (b : Bookkeeping) (x : NodeId) : 0 ≤ b.chunkSize x := by
  rw [chunkSize]
  cases b.nodes.get? x with
  | none => exact le_rfl
  | some n => exact Int.natCast_nonneg _

theorem mem_tells {e : ChunkEvent} (he : e ∈ s.tells p) :
    (∃ q x req k m, p = .prefillStart q x req k ∧ e = .started q k m) ∨
      ∃ x n q, p = .decodeBatchStep x ∧ s.2.nodes.get? x = some n ∧ n.pipelineHead = some q ∧
        e = .executed q := by
  cases p with
  | prefillStart q x req k => exact Or.inl ⟨q, x, req, k, _, rfl, List.mem_singleton.1 he⟩
  | decodeBatchStep x =>
      obtain ⟨q, hq, rfl⟩ := List.mem_map.1 he
      obtain ⟨n, hn, hhead⟩ := Option.bind_eq_some_iff.1 (Option.mem_toList.1 hq)
      exact Or.inr ⟨x, n, q, rfl, hn, hhead, rfl⟩
  | _ => cases he

theorem tells_of_head {x : NodeId} {n : MockEngineNode} (hn : s.2.nodes.get? x = some n)
    (hr : n.pipelineHead = some r) : s.tells (.decodeBatchStep x) = [.executed r] := by
  rw [Simulator.tells, hn, Option.bind_some, hr]
  rfl

/-- A move starts the prefill of the request, or takes a chunk of it, or leaves its chunks as they
are. -/
theorem Stage.Moves.chunks_cases {now : Time} {out : List (Time × Payload)} {st st' : Stage}
    (h : Stage.Moves now p out r st st') :
    (st'.chunksToCome c = st.chunksToCome c ∧ (st'.Unstarted → st.Unstarted) ∧
        ∀ x req k, p ≠ .prefillStart r x req k) ∨
      (∃ req a k, st = .starting req a k ∧ p = .prefillStart r a.prefillNode req k ∧
        (st' = .prefilled req a ∨ ∃ u, st' = .prefilling req a u)) ∨
      ∃ req a u, st = .prefilling req a u ∧ p = .decodeBatchStep a.prefillNode ∧
        (st' = .prefilled req a ∨ ∃ u', st' = .prefilling req a u' ∧ u' < u) := by
  have hcarries : ¬ p.Carries r → ∀ x req k, p ≠ .prefillStart r x req k := by
    rintro hp x req k rfl
    exact hp ⟨rfl, rfl⟩
  have hother : ∀ {q : Payload}, p = q → (∀ x req k, q ≠ .prefillStart r x req k) →
      ∀ x req k, p ≠ .prefillStart r x req k := fun hp hq => hp ▸ hq
  cases h with
  | stay _ hp hout => exact Or.inl ⟨rfl, id, hcarries hp⟩
  | reject hp | queue hp | start hp => exact Or.inl ⟨rfl, fun _ => trivial, hother hp (by simp)⟩
  | promote hp => exact Or.inl ⟨rfl, fun _ => trivial, hcarries hp⟩
  | skip hp => exact Or.inr (Or.inl ⟨_, _, _, rfl, hp, Or.inl rfl⟩)
  | pipeline hp => exact Or.inr (Or.inl ⟨_, _, _, rfl, hp, Or.inr ⟨_, rfl⟩⟩)
  | chunk hp hout hpos hlt =>
      exact Or.inr (Or.inr ⟨_, _, _, rfl, hp, Or.inr ⟨_, rfl, hlt⟩⟩)
  | drain hp => exact Or.inr (Or.inr ⟨_, _, _, rfl, hp, Or.inl rfl⟩)
  | transfer hp | refuse hp | enter hp | token hp | last hp | finish hp | dismiss hp =>
      exact Or.inl ⟨rfl, False.elim, hother hp (by simp)⟩

namespace Wiring

variable {w : Wiring ς} {stage stage' : RequestId → Stage} {ev : Event Payload}
  {rest : List (Event Payload)} {out : List (Time × Payload)} {past : List ChunkEvent}

theorem TurnOf.tellsOf_eq (ht : TurnOf w s ev rest out s') :
    tellsOf s .turn = Simulator.tells (s.1.advance ev rest ht.events, s.2) ev.payload := by
  rw [tellsOf, SimulationEngine.take_cons ht.events]
  exact List.append_nil _

/-- **A turn tells what belongs to the next stage.** -/
theorem TurnOf.noted (ht : TurnOf w s ev rest out s') (h : Staged w s stage)
    (h' : Staged w s' stage')
    (hm : Stage.Moves ev.time ev.payload out r (stage r) (stage' r))
    (hn : Noted s.2.toBookkeeping.chunkSize past r (stage r)) :
    Noted s.2.toBookkeeping.chunkSize (past ++ tellsOf s .turn) r (stage' r) := by
  rw [ht.tellsOf_eq]
  by_cases hexec : ∃ x n, ev.payload = .decodeBatchStep x ∧ s.2.nodes.get? x = some n ∧
      n.pipelineHead = some r
  · -- a chunk of the request is executed
    obtain ⟨x, n, hp, hnode, hhead⟩ := hexec
    have hhandles := ht.handles
    rw [hp] at hhandles
    obtain ⟨v, hv, hafter⟩ := (hhandles.pipeline_step hnode).1 hhead
    rw [(h'.kept r).node] at hafter
    obtain ⟨req, a, hst, rfl⟩ := Stage.eq_prefilling (((h.kept r).viewOf hnode) ▸ hv)
    have hpos := h.valid r
    rw [hst] at hm hn hpos
    have hone := n.modelConfig.one_le_prefillChunkSize
    have hsize := Bookkeeping.chunkSize_of_get? (b := s.2.toBookkeeping) hnode
    have htells : Simulator.tells (s.1.advance ev rest ht.events, s.2)
        (.decodeBatchStep a.prefillNode) = [.executed r] := tells_of_head hnode hhead
    rw [hp, htells]
    generalize hst' : stage' r = st' at hm hafter
    cases hm with
    | stay =>
        rw [Stage.node, only_self] at hafter
        simp only [Option.some_inj, reduceCtorEq, and_false, false_or] at hafter
        omega
    | chunk hp' hout hpos' hlt =>
        rw [Stage.node, only_self] at hafter
        simp only [Option.some_inj, reduceCtorEq, and_false, false_or] at hafter
        refine hn.executed id ?_
        rw [Stage.chunksToCome_prefilling, Stage.chunksToCome_prefilling, hsize, hafter.2,
          chunks_sub (by omega)]
        omega
    | drain hp' hout hpos' =>
        rw [Stage.node, only_self] at hafter
        simp only [NodeView.slot, reduceCtorEq, and_false, or_false, and_true] at hafter
        refine hn.executed id ?_
        rw [Stage.chunksToCome_prefilled, Stage.chunksToCome_prefilling, hsize,
          chunks_eq_one hpos' hafter]
        rfl
  · have hquiet : (∀ x req k, ev.payload ≠ .prefillStart r x req k) →
        ∀ e ∈ Simulator.tells (s.1.advance ev rest ht.events, s.2) ev.payload,
          e.requestId ≠ r := by
      rintro hstart e he rfl
      rcases mem_tells he with ⟨q, x, req, k, m, hp, rfl⟩ | ⟨x, n, q, hp, hnode, hhead, rfl⟩
      · exact hstart x req k hp
      · exact hexec ⟨x, n, hp, hnode, hhead⟩
    rcases hm.chunks_cases (c := s.2.toBookkeeping.chunkSize) with ⟨heq, hfresh, hstart⟩ |
      ⟨req, a, k, hst, hp, hst'⟩ | ⟨req, a, u, hst, hp, hst'⟩
    · exact hn.idle (hquiet hstart) hfresh heq
    · -- the prefill of the request is started
      have hhandles := ht.handles
      rw [hp] at hhandles
      have hview : (s.2.toBookkeeping.nodeView a.prefillNode r).pipeline = none := by
        rw [(h.kept r).node, hst, Stage.node, only_self]
        rfl
      have hafter := hhandles.pipeline_start hview
      rw [(h'.kept r).node] at hafter
      rw [hp]
      refine hn.started (hst ▸ trivial) ?_ ?_
      · rcases hst' with hst' | ⟨u, hst'⟩ <;> exact hst' ▸ id
      · rcases hst' with hst' | ⟨u, hst'⟩
        · rw [hst', Stage.node, only_self] at hafter
          simp only [NodeView.slot, reduceCtorEq, and_false, or_false, and_true] at hafter
          rw [hst', hafter, chunks_zero (Bookkeeping.chunkSize_nonneg _ _),
            Stage.chunksToCome_prefilled]
        · rw [hst', Stage.node, only_self] at hafter
          simp only [Option.some_inj, reduceCtorEq, and_false, false_or] at hafter
          rw [hst', hafter.2, Stage.chunksToCome_prefilling]
    · -- the step takes a chunk of another request
      have hview : (s.2.toBookkeeping.nodeView a.prefillNode r).pipeline = some u := by
        rw [(h.kept r).node, hst, Stage.node, only_self]
      obtain ⟨n, hnode⟩ : ∃ n, s.2.nodes.get? a.prefillNode = some n := by
        cases hnode : s.2.toBookkeeping.nodes.get? a.prefillNode with
        | none =>
            rw [Bookkeeping.nodeView, hnode] at hview
            cases hview
        | some n => exact ⟨n, rfl⟩
      have hhandles := ht.handles
      rw [hp] at hhandles
      have hafter := (hhandles.pipeline_step hnode).2 fun hhead => hexec ⟨_, n, hp, hnode, hhead⟩
      rw [(h'.kept r).node, ← Bookkeeping.nodeView_of_get? hnode, hview] at hafter
      rcases hst' with hst' | ⟨u', hst', hlt⟩
      · rw [hst', Stage.node, only_self] at hafter
        cases hafter
      · rw [hst', Stage.node, only_self] at hafter
        exact absurd (Option.some_inj.1 hafter) hlt.ne

/-! ### Runs -/

/-- **A run tells what belongs to the stages it ends in.** -/
theorem noted_run (hpools : ∀ id ∈ w.prefillIds, id ∉ w.decodeIds) : ∀ {acts : List Action}
    {s s' : Simulator ς} {stage : RequestId → Stage} {past : List ChunkEvent}, Staged w s stage →
    (∀ r, Noted s.2.toBookkeeping.chunkSize past r (stage r)) → w.Meets DistinctArrivals acts s →
    (w.execute acts).run s = .ok () s' → ∃ stage', Staged w s' stage' ∧
      ∀ r, Noted s'.2.toBookkeeping.chunkSize (past ++ w.chunkLog acts s) r (stage' r) := by
  intro acts
  induction acts with
  | nil =>
      intro s s' stage past h hn _ hrun
      obtain ⟨-, rfl⟩ := EStateM.Result.ok.inj hrun
      exact ⟨stage, h, fun r => by rw [chunkLog, List.append_nil]; exact hn r⟩
  | cons a acts ih =>
      intro s s' stage past h hn hids hrun
      obtain ⟨_, s₁, hact, hrest⟩ := Py.bind_eq_ok.1 hrun
      have hids' := hids.2
      have hlog : w.chunkLog (a :: acts) s = tellsOf s a ++ w.chunkLog acts s₁ := by
        rw [chunkLog, hact]
        rfl
      rw [hact] at hids'
      rw [hlog, ← List.append_assoc]
      cases a with
      | arrive t req =>
          obtain ⟨hpush, hc⟩ := run_arrive hact
          refine ih (h.arrive hids.1 hpush hc) (fun r => ?_) hids' hrest
          rw [hc]
          by_cases hr : r = req.requestId
          · rw [if_pos hr]
            have habsent := hn r
            rw [hr, h.absent hids.1] at habsent
            rw [hr]
            exact habsent.idle (fun e he => absurd he List.not_mem_nil) (fun _ => trivial) rfl
          · rw [if_neg hr]
            exact (hn r).idle (fun e he => absurd he List.not_mem_nil) id rfl
      | turn =>
          rcases turn_cases hact with ⟨hq, rfl⟩ | ⟨ev, rest, out, ht⟩
          · have htells : tellsOf s₁ .turn = [] := by
              rw [tellsOf, SimulationEngine.take_nil hq]
              rfl
            rw [htells, List.append_nil]
            exact ih h hn hids' hrest
          · obtain ⟨stage₁, h₁, hmoves⟩ := ht.staged h (h.noneQueued hpools)
            refine ih h₁ (fun r => ?_) hids' hrest
            rw [ht.handles.chunkSize]
            exact ht.noted h h₁ (hmoves r) (hn r)

/-- A run tells of every PREFILL_START that it handles. -/
theorem started_mem_chunkLog {k : ℤ} : ∀ {acts : List Action} {s s' : Simulator ς},
    (w.execute acts).run s = .ok () s' →
    ((∃ ev ∈ s'.1.processed, ∃ x req, ev.payload = .prefillStart r x req k) ↔
      (∃ ev ∈ s.1.processed, ∃ x req, ev.payload = .prefillStart r x req k) ∨
        ∃ m, .started r k m ∈ w.chunkLog acts s) := by
  intro acts
  induction acts with
  | nil =>
      intro s s' hrun
      obtain ⟨-, rfl⟩ := EStateM.Result.ok.inj hrun
      simp [chunkLog]
  | cons a acts ih =>
      intro s s' hrun
      obtain ⟨_, s₁, hact, hrest⟩ := Py.bind_eq_ok.1 hrun
      have hlog : w.chunkLog (a :: acts) s = tellsOf s a ++ w.chunkLog acts s₁ := by
        rw [chunkLog, hact]
        rfl
      have hfirst : (∃ ev ∈ s₁.1.processed, ∃ x req, ev.payload = .prefillStart r x req k) ↔
          (∃ ev ∈ s.1.processed, ∃ x req, ev.payload = .prefillStart r x req k) ∨
            ∃ m, .started r k m ∈ tellsOf s a := by
        cases a with
        | arrive t req =>
            rw [(run_arrive hact).1.processed_eq]
            simp [tellsOf]
        | turn =>
            rcases turn_cases hact with ⟨hq, rfl⟩ | ⟨ev, rest, out, ht⟩
            · simp [tellsOf, SimulationEngine.take_nil hq]
            · have hpro : s₁.1.processed = s.1.processed ++ [ev] := ht.pushes.processed_eq
              rw [hpro, ht.tellsOf_eq]
              simp only [List.mem_append, List.mem_singleton, or_and_right, exists_or,
                exists_eq_left]
              refine or_congr_right ?_
              constructor
              · rintro ⟨x, req, hp⟩
                exact ⟨_, by rw [hp]; exact List.mem_singleton_self _⟩
              · rintro ⟨m, hmem⟩
                rcases mem_tells hmem with ⟨q, x, req, k', m', hp, heq⟩ | ⟨x, n, q, -, -, -, heq⟩
                · obtain ⟨rfl, rfl, -⟩ := ChunkEvent.started.inj heq
                  exact ⟨x, req, hp⟩
                · cases heq
      rw [ih hrest, hfirst, hlog, or_assoc]
      simp only [List.mem_append, exists_or]

theorem meets_reportsLeft_iff : ∀ {acts : List Action} {s : Simulator ς},
    w.Meets ReportsLeft acts s ↔ ∀ e ∈ w.chunkLog acts s, e.UpToDate := by
  intro acts
  induction acts with
  | nil => exact ⟨fun _ _ he => absurd he List.not_mem_nil, fun _ => trivial⟩
  | cons a acts ih =>
      intro s
      rw [Meets, chunkLog, List.forall_mem_append, ih, ReportsLeft]

/-- A run that drains the event queue has executed as many chunks of every request as its
PREFILL_START reported if and only if every PREFILL_START reported, when it was handled, the chunks
of the tokens that were uncached then. -/
theorem executed_iff_reportsLeft (hpools : ∀ id ∈ w.prefillIds, id ∉ w.decodeIds) (sched : ς)
    (cm : CacheManager) (tm : TransferModel) {acts : List Action} {s : Simulator ς}
    (hids : w.Meets DistinctArrivals acts (w.start sched cm tm))
    (hrun : (w.execute acts).run (w.start sched cm tm) = .ok () s) (hq : s.1.queue.events = []) :
    (∀ ev ∈ s.1.processed, ∀ r x req k, ev.payload = .prefillStart r x req k →
        k = w.executedChunks acts (w.start sched cm tm) r) ↔
      w.Meets ReportsLeft acts (w.start sched cm tm) := by
  have hreach : w.Reaches DistinctArrivals s := by
    have hstate := Reaches.execute (.start sched cm tm) hids (by rw [hrun]; rfl)
    rwa [hrun] at hstate
  obtain ⟨stage, h, hn⟩ := noted_run hpools (staged_start w sched cm tm)
    (fun r => ⟨fun _ _ he => absurd he List.not_mem_nil, fun _ _ he => absurd he List.not_mem_nil⟩)
    hids hrun
  -- nothing is in the pipelines
  have hexec : ∀ (r : RequestId) (k m : ℤ),
      .started r k m ∈ w.chunkLog acts (w.start sched cm tm) →
        (w.executedChunks acts (w.start sched cm tm) r : ℤ) = m := by
    intro r k m hmem
    have hcounted := (hn r).counted k m hmem
    have hgone := h.isGone hreach.awake hq r
    have hcome : (stage r).chunksToCome s.2.toBookkeeping.chunkSize = 0 := by
      cases hst : stage r <;> rw [hst] at hgone <;> first | rfl | exact hgone.elim
    rwa [hcome, add_zero] at hcounted
  have hreported : ∀ r k, (∃ ev ∈ s.1.processed, ∃ x req, ev.payload = .prefillStart r x req k) ↔
      ∃ m, .started r k m ∈ w.chunkLog acts (w.start sched cm tm) := by
    intro r k
    rw [started_mem_chunkLog hrun]
    exact or_iff_right fun ⟨_, hev, _⟩ => absurd hev List.not_mem_nil
  rw [meets_reportsLeft_iff]
  constructor
  · intro hall e he
    cases e with
    | executed r => trivial
    | started r k m =>
        obtain ⟨ev, hev, x, req, hp⟩ := (hreported r k).2 ⟨m, he⟩
        exact (hall ev hev r x req k hp).trans (hexec r k m he)
  · intro hall ev hev r x req k hp
    obtain ⟨m, hmem⟩ := (hreported r k).1 ⟨ev, hev, x, req, hp⟩
    have huptodate : k = m := hall _ hmem
    rw [huptodate, hexec r k m hmem]

end Wiring

end Turns

end NanoKVRouter
