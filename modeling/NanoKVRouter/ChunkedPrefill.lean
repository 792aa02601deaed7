/-
**Chunked prefills.**

The pipeline of a node is served in order: a batch step takes one chunk of its oldest prefill, and
a prefill that is drained leaves it.  So a prefill is the oldest one for as many steps as it has
chunks, or for one if it has no tokens, and the chunks cost what its tokens cost.  The decode
streams advance in every step, whether a chunk is taken or not.

A step costs at most a full chunk and the decode cost of the streams there may be.  As many of them
as the prefill has chunks bound the time until the oldest prefill is drained, which is what the
estimate of the schedulers charges.

Main definitions:

* `PrefillEvent`, `NodeCall.observe` — what is told of the pipeline;
* `headTicks`, `chunkCosts` — the steps in which a request was the oldest prefill, and their cost;
* `PrefillRun` — the calls that complete no request in prefill;
* `HeadRun` — the time that is spent until a prefill is drained.

Main results:

* `PrefillRun.pipelined` — **what every run keeps of the pipeline**;
* `chunked_prefill` — **prefills finish in order, each after its chunks and at their cost**;
* `prefill_estimate_bounds` — **the estimate bounds the time of a prefill that found the pipeline
  empty**.
-/

import NanoKVRouter.MockNodeRuns
import Mathlib.Tactic.Linarith
import Mathlib.Tactic.Ring

set_option relaxedAutoImplicit false
set_option autoImplicit false

namespace NanoKVRouter

open MockEngineNode

/-! ### What is told of the pipeline -/

/-- What a call tells of the prefill pipeline. -/
inductive PrefillEvent
  | entered (requestId : RequestId) (uncachedTokens : ℤ)
  | ticked (head : Option RequestId) (chunkCost : Time) (finished : Option RequestId)
deriving DecidableEq

/-- The oldest prefill of the pipeline. -/
def MockEngineNode.pipelineHead (n : MockEngineNode) : Option RequestId :=
  n.prefillRemaining.entries.head?.map Prod.fst

/-- What the decode streams add to a batch step. -/
def MockEngineNode.decodeCost (n : MockEngineNode) : Time :=
  if 0 < n.decoding.card then n.estimateDecodeTime n.decoding.card else 0

/-- Perform a call; it returns what the call tells of the pipeline.  The cost of the chunk is the
time of the step without that of the streams. -/
def NodeCall.observe : NodeCall → Py MockEngineNode (List PrefillEvent)
  | tickBatchStep now => do
      let node ← get
      let (nextTime, _, finished) ← MockEngineNode.tickBatchStep now
      pure [.ticked node.pipelineHead (nextTime - now - node.decodeCost) finished]
  | enterPrefill r uncachedTokens => do
      let _ ← perform (enterPrefill r uncachedTokens)
      pure [.entered r uncachedTokens]
  | call => do
      let _ ← call.perform
      pure []

/-- The requests that entered the pipeline, the first one first. -/
def enteredIds : List PrefillEvent → List RequestId
  | [] => []
  | .entered r _ :: past => enteredIds past ++ [r]
  | .ticked _ _ _ :: past => enteredIds past

/-- The requests whose prefill finished, the first one first. -/
def finishedIds : List PrefillEvent → List RequestId
  | [] => []
  | .entered _ _ :: past => finishedIds past
  | .ticked _ _ finished :: past => finishedIds past ++ finished.toList

/-- The tokens with which a request entered the pipeline last. -/
def enteredWith (r : RequestId) : List PrefillEvent → Option ℤ
  | [] => none
  | .entered q u :: past => if q = r then some u else enteredWith r past
  | .ticked _ _ _ :: past => enteredWith r past

/-- The steps in which a request was the oldest prefill, since it entered the pipeline. -/
def headTicks (r : RequestId) : List PrefillEvent → ℕ
  | [] => 0
  | .entered q _ :: past => if q = r then 0 else headTicks r past
  | .ticked head _ _ :: past => headTicks r past + if head = some r then 1 else 0

/-- The cost of the chunks in these steps. -/
def chunkCosts (r : RequestId) : List PrefillEvent → Time
  | [] => 0
  | .entered q _ :: past => if q = r then 0 else chunkCosts r past
  | .ticked head cost _ :: past => chunkCosts r past + if head = some r then cost else 0

/-- No request that is in prefill is completed or enters again. -/
def NodeCall.KeepsPrefills (n : MockEngineNode) : NodeCall → Prop
  | enterPrefill r uncachedTokens => r ∉ n.prefillRemaining.keys ∧ 0 ≤ uncachedTokens
  | complete r => r ∉ n.prefillRemaining.keys
  | _ => True

/-- The nodes that such calls lead to from a node without prefills, with what the calls told, the
newest first. -/
inductive PrefillRun (start : MockEngineNode) : MockEngineNode → List PrefillEvent → Prop
  | fresh (hempty : start.prefillRemaining.entries = []) : PrefillRun start start []
  | called {n n' : MockEngineNode} {past events : List PrefillEvent} {call : NodeCall}
      (hrun : PrefillRun start n past) (hkeeps : call.KeepsPrefills n)
      (hcall : call.observe.run n = .ok events n') : PrefillRun start n' (events ++ past)

/-! ### What the calls do to the pipeline -/

/-- The pipeline after a call that is no batch step. -/
def NodeCall.pipelineAfter (d : PyDict RequestId ℤ) : NodeCall → PyDict RequestId ℤ
  | enterPrefill r uncachedTokens => d.set r uncachedTokens
  | complete r => d.erase r
  | _ => d

section Calls

variable {n n' : MockEngineNode} {events : List NodeEvent} {call : NodeCall}

theorem MockEngineNode.afterPromote_modelConfig (n : MockEngineNode) :
    n.afterPromote.modelConfig = n.modelConfig := by
  rw [afterPromote]
  split <;> simp

theorem NodeCall.pipeline_of_perform (hnot : ∀ now, call ≠ .tickBatchStep now)
    (hcall : call.perform.run n = .ok events n') : n'.modelConfig = n.modelConfig ∧
      n'.prefillRemaining = call.pipelineAfter n.prefillRemaining := by
  cases call with
  | admitRequest r expectedOutputLen promptLen uncachedTokens =>
      obtain ⟨b, n₁, hrun, hend⟩ := Py.bind_eq_ok.1 hcall
      cases hend
      obtain ⟨-, hs⟩ := run_admitRequest hrun
      refine ⟨hs.modelConfig.trans ?_, hs.prefillRemaining.trans (admitted_prefillRemaining _)⟩
      rw [admitted]
      split <;> rfl
  | initPromoted r expectedOutputLen promptLen uncachedTokens =>
      obtain ⟨⟨⟩, n₁, hrun, hend⟩ := Py.bind_eq_ok.1 hcall
      cases hend
      obtain ⟨-, hs⟩ := run_initPromoted hrun
      exact ⟨hs.modelConfig, hs.prefillRemaining⟩
  | enterPrefill r uncachedTokens =>
      obtain ⟨⟨⟩, n₁, hrun, hend⟩ := Py.bind_eq_ok.1 hcall
      cases hend
      obtain ⟨-, hs⟩ := run_enterPrefill hrun
      exact ⟨hs.modelConfig, hs.prefillRemaining⟩
  | markPrefillDone r =>
      obtain ⟨⟨⟩, n₁, hrun, hend⟩ := Py.bind_eq_ok.1 hcall
      cases hend
      obtain ⟨-, hs⟩ := run_markPrefillDone hrun
      exact ⟨hs.modelConfig, hs.prefillRemaining⟩
  | startDecode r =>
      obtain ⟨⟨⟩, n₁, hrun, hend⟩ := Py.bind_eq_ok.1 hcall
      cases hend
      obtain ⟨-, hs⟩ := run_startDecode hrun
      exact ⟨hs.modelConfig, hs.prefillRemaining⟩
  | tickBatchStep now => exact absurd rfl (hnot now)
  | complete r =>
      rw [NodeCall.perform, Py.run_get_bind] at hcall
      obtain ⟨next, n₁, hrun, hend⟩ := Py.bind_eq_ok.1 hcall
      cases hend
      by_cases hmem : r ∈ n.runningRequests ∨ r ∈ n.queue
      · rw [run_complete hmem] at hrun
        cases hrun
        exact ⟨afterPromote_modelConfig _, afterPromote_prefillRemaining⟩
      · rw [not_or] at hmem
        rw [run_complete_absent hmem.1 hmem.2] at hrun
        cases hrun

/-- What a call tells of the pipeline. -/
theorem NodeCall.observe_cases {told : List PrefillEvent} (h : call.observe.run n = .ok told n') :
    (∃ now T completed pf, call = .tickBatchStep now ∧
        (MockEngineNode.tickBatchStep now).run n = .ok (T, completed, pf) n' ∧
        told = [.ticked n.pipelineHead (T - now - n.decodeCost) pf]) ∨
      ((∀ now, call ≠ .tickBatchStep now) ∧ n'.modelConfig = n.modelConfig ∧
        n'.prefillRemaining = call.pipelineAfter n.prefillRemaining ∧
        ((∃ r u, call = .enterPrefill r u ∧ told = [.entered r u]) ∨
          (∀ r u, call ≠ .enterPrefill r u) ∧ told = [])) := by
  have hother : (∀ now, call ≠ .tickBatchStep now) → (∀ r u, call ≠ .enterPrefill r u) →
      (do let _ ← call.perform; pure [] : Py MockEngineNode (List PrefillEvent)).run n =
        .ok told n' → n'.modelConfig = n.modelConfig ∧
        n'.prefillRemaining = call.pipelineAfter n.prefillRemaining ∧
        ((∃ r u, call = .enterPrefill r u ∧ told = [.entered r u]) ∨
          (∀ r u, call ≠ .enterPrefill r u) ∧ told = []) := by
    intro htick henter hrun
    obtain ⟨events, n₁, hperform, hend⟩ := Py.bind_eq_ok.1 hrun
    cases hend
    obtain ⟨hcfg, hpipe⟩ := NodeCall.pipeline_of_perform htick hperform
    exact ⟨hcfg, hpipe, Or.inr ⟨henter, rfl⟩⟩
  cases call with
  | tickBatchStep now =>
      rw [NodeCall.observe, Py.run_get_bind] at h
      obtain ⟨⟨T, completed, pf⟩, n₁, hrun, hend⟩ := Py.bind_eq_ok.1 h
      cases hend
      exact Or.inl ⟨now, T, completed, pf, rfl, hrun, rfl⟩
  | enterPrefill r uncachedTokens =>
      have htick : ∀ now, NodeCall.enterPrefill r uncachedTokens ≠ .tickBatchStep now :=
        fun now hc => by cases hc
      obtain ⟨events, n₁, hperform, hend⟩ := Py.bind_eq_ok.1 h
      cases hend
      obtain ⟨hcfg, hpipe⟩ := NodeCall.pipeline_of_perform htick hperform
      exact Or.inr ⟨htick, hcfg, hpipe, Or.inl ⟨r, uncachedTokens, rfl, rfl⟩⟩
  | _ =>
      refine Or.inr ⟨fun now hc => ?_, hother (fun now hc => ?_) (fun r u hc => ?_) h⟩ <;> cases hc

/-- A batch step takes a chunk of the oldest prefill, and a drained one leaves the pipeline. -/
theorem MockEngineNode.Ticked.entries {now T : Time} {completed : List RequestId}
    {pf : Option RequestId} (ht : Ticked n now T completed pf n') :
    (n.prefillRemaining.entries = [] ∧ pf = none ∧ n'.prefillRemaining.entries = [] ∧
        T - now - n.decodeCost = 0) ∨
      ∃ q m rest, n.prefillRemaining.entries = (q, m) :: rest ∧
        T - now - n.decodeCost = ((min m n.modelConfig.prefillChunkSize : ℤ) : ℚ) *
          n.modelConfig.prefillCostPerTokenMs ∧
        (m ≤ n.modelConfig.prefillChunkSize ∧ pf = some q ∧
            n'.prefillRemaining.entries = rest ∨
          n.modelConfig.prefillChunkSize < m ∧ pf = none ∧ n'.prefillRemaining.entries =
            (q, m - n.modelConfig.prefillChunkSize) :: rest) := by
  rcases ht.pipeline with ⟨hnil, hpf, hpipe, hT⟩ | ⟨q, m, rest, hent, hT, hpipe⟩
  · refine Or.inl ⟨hnil, hpf, hpipe ▸ hnil, ?_⟩
    rw [hT, decodeCost]
    ring
  · refine Or.inr ⟨q, m, rest, hent, ?_, ?_⟩
    · rw [hT, decodeCost]
      ring
    · split at hpipe
      · rename_i hle
        exact Or.inl ⟨hle, hpipe.1, hpipe.2 ▸ PyDict.entries_erase_head hent⟩
      · rename_i hlt
        exact Or.inr ⟨not_le.1 hlt, hpipe.1, hpipe.2 ▸ PyDict.entries_set_head hent _⟩

theorem MockEngineNode.decodeCost_nonneg (n : MockEngineNode) : 0 ≤ n.decodeCost := by
  have hbase := n.modelConfig.decodeBaseMs_pos
  have hmarg := n.modelConfig.marginalDecodeMs_pos
  rw [decodeCost]
  split
  · rw [estimateDecodeTime]
    positivity
  · exact le_refl 0

end Calls

/-! ### The pipeline over a run -/

/-- The chunks of a prefill of `u` tokens. -/
def chunks (chunk u : ℤ) : ℤ := (u + chunk - 1) / chunk

/-- The steps it takes: its chunks, or one step if there are none. -/
def prefillSteps (chunk u : ℤ) : ℤ := max 1 (chunks chunk u)

section Chunks

variable {chunk m : ℤ}

theorem chunks_add_mul (hchunk : 0 < chunk) (m k : ℤ) :
    chunks chunk (m + k * chunk) = chunks chunk m + k := by
  have hsum : m + k * chunk + chunk - 1 = m + chunk - 1 + k * chunk := by ring
  rw [chunks, chunks, hsum, Int.add_mul_ediv_right _ _ hchunk.ne']

theorem chunks_sub (hchunk : 0 < chunk) (m : ℤ) :
    chunks chunk (m - chunk) = chunks chunk m - 1 := by
  have hadd := chunks_add_mul hchunk m (-1)
  rwa [Int.neg_one_mul, ← sub_eq_add_neg, ← sub_eq_add_neg] at hadd

/-- The tokens of a single chunk. -/
theorem chunks_eq_one (hpos : 0 < m) (hle : m ≤ chunk) : chunks chunk m = 1 := by
  have hsum : m + chunk - 1 = m - 1 + 1 * chunk := by ring
  rw [chunks, hsum, Int.add_mul_ediv_right _ _ (hpos.trans_le hle).ne',
    Int.ediv_eq_zero_of_lt (by omega) (by omega)]
  rfl

theorem prefillSteps_eq_one (hnn : 0 ≤ m) (hle : m ≤ chunk) : prefillSteps chunk m = 1 := by
  rw [prefillSteps]
  rcases hnn.eq_or_lt with rfl | hpos
  · refine max_eq_left ?_
    rcases hle.eq_or_lt with rfl | hchunk
    · decide
    · rw [chunks, Int.ediv_eq_zero_of_lt (by omega) (by omega)]
      decide
  · rw [chunks_eq_one hpos hle, max_self]

end Chunks

/-- A prefill that has `m` of `u` tokens left, after `k` chunks. -/
structure Chunked (cfg : ModelConfig) (u m : ℤ) (k : ℕ) (cost : Time) : Prop where
  nonneg : 0 ≤ u
  left : m = u - k * cfg.prefillChunkSize
  pos : k = 0 ∨ 0 < m
  cost : cost = ((k * cfg.prefillChunkSize : ℤ) : ℚ) * cfg.prefillCostPerTokenMs

namespace Chunked

variable {cfg : ModelConfig} {u m : ℤ} {k : ℕ} {cost : Time}

theorem left_nonneg (h : Chunked cfg u m k cost) : 0 ≤ m := by
  rcases h.pos with rfl | hpos
  · rw [h.left, Nat.cast_zero, Int.zero_mul, Int.sub_zero]
    exact h.nonneg
  · exact hpos.le

/-- Another chunk is taken. -/
theorem next (h : Chunked cfg u m k cost) (hlt : cfg.prefillChunkSize < m) :
    Chunked cfg u (m - cfg.prefillChunkSize) (k + 1)
      (cost + ((min m cfg.prefillChunkSize : ℤ) : ℚ) * cfg.prefillCostPerTokenMs) := by
  refine ⟨h.nonneg, ?_, Or.inr (by omega), ?_⟩
  · rw [h.left, Nat.cast_succ, Int.add_mul]
    ring
  · rw [h.cost, min_eq_right hlt.le, Nat.cast_succ]
    push_cast
    ring

/-- **The last chunk is taken**: the prefill took its steps, and its tokens were paid for. -/
theorem last (h : Chunked cfg u m k cost) (hle : m ≤ cfg.prefillChunkSize) :
    ((k + 1 : ℕ) : ℤ) = prefillSteps cfg.prefillChunkSize u ∧
      cost + ((min m cfg.prefillChunkSize : ℤ) : ℚ) * cfg.prefillCostPerTokenMs =
        u * cfg.prefillCostPerTokenMs := by
  have hu : u = m + k * cfg.prefillChunkSize := by rw [h.left]; ring
  constructor
  · rcases h.pos with rfl | hpos
    · rw [hu, Nat.cast_zero, Int.zero_mul, Int.add_zero, prefillSteps_eq_one h.left_nonneg hle]
      rfl
    · rw [prefillSteps, hu, chunks_add_mul (hpos.trans_le hle), chunks_eq_one hpos hle]
      omega
  · rw [h.cost, min_eq_left hle, hu]
    push_cast
    ring

end Chunked

section Counts

/-- A chunk is counted for the prefill it was taken from. -/
theorem counts_ticked_self (q : RequestId) (cost : Time) (pf : Option RequestId)
    (past : List PrefillEvent) :
    headTicks q (.ticked (some q) cost pf :: past) = headTicks q past + 1 ∧
      chunkCosts q (.ticked (some q) cost pf :: past) = chunkCosts q past + cost := by
  rw [headTicks, chunkCosts, if_pos rfl, if_pos rfl]
  exact ⟨rfl, rfl⟩

/-- It is counted for no other one. -/
theorem counts_ticked_of_ne {head : Option RequestId} {r : RequestId} (cost : Time)
    (pf : Option RequestId) (past : List PrefillEvent) (h : ¬ head = some r) :
    headTicks r (.ticked head cost pf :: past) = headTicks r past ∧
      chunkCosts r (.ticked head cost pf :: past) = chunkCosts r past := by
  rw [headTicks, chunkCosts, if_neg h, if_neg h, add_zero, add_zero]
  exact ⟨rfl, rfl⟩

end Counts

/-- What holds of the pipeline of a node and what was told of it. -/
structure Pipelined (n : MockEngineNode) (past : List PrefillEvent) : Prop where
  fifo : enteredIds past = finishedIds past ++ n.prefillRemaining.keys
  pending : ∀ r m, (r, m) ∈ n.prefillRemaining.entries → ∃ u, enteredWith r past = some u ∧
    Chunked n.modelConfig u m (headTicks r past) (chunkCosts r past)
  finished : ∀ r u, enteredWith r past = some u → r ∉ n.prefillRemaining.keys →
    (headTicks r past : ℤ) = prefillSteps n.modelConfig.prefillChunkSize u ∧
      chunkCosts r past = u * n.modelConfig.prefillCostPerTokenMs

namespace Pipelined

variable {n n' : MockEngineNode} {past : List PrefillEvent} {r : RequestId}

/-- A call that leaves the pipeline as it is. -/
theorem congr (h : Pipelined n past) (hcfg : n'.modelConfig = n.modelConfig)
    (hpipe : n'.prefillRemaining = n.prefillRemaining) : Pipelined n' past := by
  refine ⟨?_, ?_, ?_⟩
  · rw [hpipe]
    exact h.fifo
  · rw [hpipe, hcfg]
    exact h.pending
  · rw [hpipe, hcfg]
    exact h.finished

/-- A prefill enters the pipeline. -/
theorem entered (h : Pipelined n past) {u : ℤ} (hr : r ∉ n.prefillRemaining.keys) (hu : 0 ≤ u)
    (hcfg : n'.modelConfig = n.modelConfig)
    (hpipe : n'.prefillRemaining = n.prefillRemaining.set r u) :
    Pipelined n' (.entered r u :: past) := by
  have hkeys : n'.prefillRemaining.keys = n.prefillRemaining.keys ++ [r] := by
    rw [hpipe, PyDict.keys_set, if_neg hr]
  refine ⟨?_, fun q m hmem => ?_, fun q v hv hq => ?_⟩
  · rw [enteredIds, finishedIds, hkeys, h.fifo, List.append_assoc]
  · rw [hpipe, PyDict.entries_set_of_notMem u hr, List.mem_append, List.mem_singleton] at hmem
    rw [enteredWith, headTicks, chunkCosts, hcfg]
    rcases hmem with hmem | hmem
    · have hne : ¬ r = q := fun heq => hr (heq ▸ PyDict.mem_keys.2 ⟨m, hmem⟩)
      rw [if_neg hne, if_neg hne, if_neg hne]
      exact h.pending q m hmem
    · cases hmem
      rw [if_pos rfl, if_pos rfl, if_pos rfl]
      refine ⟨u, rfl, hu, ?_, Or.inl rfl, ?_⟩
      · rw [Nat.cast_zero, Int.zero_mul, Int.sub_zero]
      · rw [Nat.cast_zero, Int.zero_mul, Int.cast_zero, zero_mul]
  · rw [hkeys, List.mem_append, List.mem_singleton, not_or] at hq
    have hne : ¬ r = q := fun heq => hq.2 heq.symm
    rw [enteredWith, if_neg hne] at hv
    rw [headTicks, chunkCosts, if_neg hne, if_neg hne, hcfg]
    exact h.finished q v hv hq.1

/-- A batch step without prefills. -/
theorem idle (h : Pipelined n past) (hcfg : n'.modelConfig = n.modelConfig) (cost : Time)
    (hnil : n.prefillRemaining.entries = []) (hnil' : n'.prefillRemaining.entries = []) :
    Pipelined n' (.ticked none cost none :: past) := by
  have hkeys : n.prefillRemaining.keys = [] := by rw [PyDict.keys, hnil]; rfl
  have hkeys' : n'.prefillRemaining.keys = [] := by rw [PyDict.keys, hnil']; rfl
  refine ⟨?_, fun r m hmem => ?_, fun r u hu _ => ?_⟩
  · rw [enteredIds, finishedIds, h.fifo, hkeys, hkeys', Option.toList_none, List.append_nil,
      List.append_nil]
  · rw [hnil'] at hmem
    cases hmem
  · have hr : r ∉ n.prefillRemaining.keys := hkeys ▸ List.not_mem_nil
    obtain ⟨hticks, hcosts⟩ := counts_ticked_of_ne cost none past (fun h : none = some r => by cases h)
    rw [hticks, hcosts, hcfg]
    exact h.finished r u hu hr

/-- A chunk of the oldest prefill, which is not the last one. -/
theorem next (h : Pipelined n past) {q : RequestId} {m : ℤ} {rest : List (RequestId × ℤ)}
    (hent : n.prefillRemaining.entries = (q, m) :: rest)
    (hlt : n.modelConfig.prefillChunkSize < m) (hcfg : n'.modelConfig = n.modelConfig)
    (hent' : n'.prefillRemaining.entries = (q, m - n.modelConfig.prefillChunkSize) :: rest) :
    Pipelined n' (.ticked (some q) (((min m n.modelConfig.prefillChunkSize : ℤ) : ℚ) *
      n.modelConfig.prefillCostPerTokenMs) none :: past) := by
  have hkeys : n.prefillRemaining.keys = q :: rest.map Prod.fst := by
    rw [PyDict.keys, hent, List.map_cons]
  have hkeys' : n'.prefillRemaining.keys = q :: rest.map Prod.fst := by
    rw [PyDict.keys, hent', List.map_cons]
  have hq : q ∉ rest.map Prod.fst := (List.nodup_cons.1 (hkeys ▸ n.prefillRemaining.keys_nodup)).1
  refine ⟨?_, fun r m' hmem => ?_, fun r u hu hr => ?_⟩
  · rw [enteredIds, finishedIds, h.fifo, hkeys, hkeys', Option.toList_none, List.append_nil]
  · rw [hcfg]
    rw [hent'] at hmem
    rcases List.mem_cons.1 hmem with heq | hmem
    · cases heq
      obtain ⟨u, hu, hchunked⟩ := h.pending q m (hent ▸ List.mem_cons_self)
      exact ⟨u, hu, (counts_ticked_self q _ none past).1 ▸ (counts_ticked_self q _ none past).2 ▸
        hchunked.next hlt⟩
    · have hne : ¬ some q = some r := fun heq =>
        hq (Option.some_inj.1 heq ▸ List.mem_map_of_mem hmem)
      obtain ⟨hticks, hcosts⟩ := counts_ticked_of_ne _ none past hne
      rw [hticks, hcosts]
      exact h.pending r m' (hent ▸ List.mem_cons_of_mem _ hmem)
  · rw [hkeys', ← hkeys] at hr
    have hne : ¬ some q = some r := fun heq =>
      hr (hkeys ▸ Option.some_inj.1 heq ▸ List.mem_cons_self)
    obtain ⟨hticks, hcosts⟩ := counts_ticked_of_ne _ none past hne
    rw [hticks, hcosts, hcfg]
    exact h.finished r u hu hr

/-- The last chunk of the oldest prefill. -/
theorem last (h : Pipelined n past) {q : RequestId} {m : ℤ} {rest : List (RequestId × ℤ)}
    (hent : n.prefillRemaining.entries = (q, m) :: rest)
    (hle : m ≤ n.modelConfig.prefillChunkSize) (hcfg : n'.modelConfig = n.modelConfig)
    (hent' : n'.prefillRemaining.entries = rest) :
    Pipelined n' (.ticked (some q) (((min m n.modelConfig.prefillChunkSize : ℤ) : ℚ) *
      n.modelConfig.prefillCostPerTokenMs) (some q) :: past) := by
  have hkeys : n.prefillRemaining.keys = q :: rest.map Prod.fst := by
    rw [PyDict.keys, hent, List.map_cons]
  have hkeys' : n'.prefillRemaining.keys = rest.map Prod.fst := by rw [PyDict.keys, hent']
  have hq : q ∉ rest.map Prod.fst := (List.nodup_cons.1 (hkeys ▸ n.prefillRemaining.keys_nodup)).1
  refine ⟨?_, fun r m' hmem => ?_, fun r v hv hr => ?_⟩
  · rw [enteredIds, finishedIds, h.fifo, hkeys, hkeys', Option.toList_some, List.append_assoc,
      List.singleton_append]
  · rw [hent'] at hmem
    have hne : ¬ some q = some r := fun heq =>
      hq (Option.some_inj.1 heq ▸ List.mem_map_of_mem hmem)
    obtain ⟨hticks, hcosts⟩ := counts_ticked_of_ne _ (some q) past hne
    rw [hticks, hcosts, hcfg]
    exact h.pending r m' (hent ▸ List.mem_cons_of_mem _ hmem)
  · rw [hcfg]
    by_cases heq : r = q
    · subst heq
      obtain ⟨u, hu, hchunked⟩ := h.pending r m (hent ▸ List.mem_cons_self)
      obtain rfl : u = v := Option.some_inj.1 (hu.symm.trans hv)
      rw [(counts_ticked_self r _ (some r) past).1, (counts_ticked_self r _ (some r) past).2]
      exact hchunked.last hle
    · have hne : ¬ some q = some r := fun h => heq (Option.some_inj.1 h).symm
      obtain ⟨hticks, hcosts⟩ := counts_ticked_of_ne _ (some q) past hne
      rw [hticks, hcosts]
      refine h.finished r v hv ?_
      rw [hkeys, List.mem_cons, not_or, ← hkeys']
      exact ⟨heq, hr⟩

/-- **A batch step takes a chunk of the oldest prefill**, and finishes a drained one. -/
theorem ticked (h : Pipelined n past) {now T : Time} {completed : List RequestId}
    {pf : Option RequestId} (ht : Ticked n now T completed pf n') :
    Pipelined n' (.ticked n.pipelineHead (T - now - n.decodeCost) pf :: past) := by
  rcases ht.entries with ⟨hnil, rfl, hnil', -⟩ | ⟨q, m, rest, hent, hcost, hstep⟩
  · have hhead : n.pipelineHead = none := by rw [pipelineHead, hnil]; rfl
    rw [hhead]
    exact h.idle ht.modelConfig _ hnil hnil'
  · have hhead : n.pipelineHead = some q := by rw [pipelineHead, hent]; rfl
    rw [hhead, hcost]
    rcases hstep with ⟨hle, rfl, hent'⟩ | ⟨hlt, rfl, hent'⟩
    · exact h.last hent hle ht.modelConfig hent'
    · exact h.next hent hlt ht.modelConfig hent'

/-- The steps take no time back. -/
theorem now_le (h : Pipelined n past) {now T : Time} {completed : List RequestId}
    {pf : Option RequestId} (ht : Ticked n now T completed pf n') : now ≤ T := by
  have hdecode := n.decodeCost_nonneg
  rcases ht.entries with ⟨-, -, -, hcost⟩ | ⟨q, m, rest, hent, hcost, -⟩
  · linarith
  · obtain ⟨u, -, hchunked⟩ := h.pending q m (hent ▸ List.mem_cons_self)
    have hmin : (0 : ℚ) ≤ ((min m n.modelConfig.prefillChunkSize : ℤ) : ℚ) := by
      exact_mod_cast le_min hchunked.left_nonneg (Int.natCast_nonneg _)
    have hchunk := mul_nonneg hmin n.modelConfig.prefillCostPerTokenMs_pos.le
    linarith

end Pipelined

/-- **What every run keeps of the pipeline.** -/
theorem PrefillRun.pipelined {start n : MockEngineNode} {past : List PrefillEvent}
    (h : PrefillRun start n past) : Pipelined n past := by
  induction h with
  | fresh hempty =>
      refine ⟨?_, fun r m hmem => ?_, fun r u hu _ => ?_⟩
      · rw [PyDict.keys, hempty]
        rfl
      · rw [hempty] at hmem
        cases hmem
      · cases hu
  | called hrun hkeeps hcall ih =>
      rename_i n n' past events call
      rcases NodeCall.observe_cases hcall with ⟨now, T, completed, pf, rfl, htick, rfl⟩ |
        ⟨htick, hcfg, hpipe, ⟨r, u, rfl, rfl⟩ | ⟨henter, rfl⟩⟩
      · exact ih.ticked (ticked_of_run htick).2
      · exact ih.entered hkeeps.1 hkeeps.2 hcfg hpipe
      · refine ih.congr hcfg (hpipe.trans ?_)
        cases call with
        | enterPrefill r u => exact absurd rfl (henter r u)
        | complete r => exact PyDict.erase_of_notMem hkeeps
        | _ => rfl

/-- **Prefills finish in order, each after its chunks and at their cost**: at every point of a run,
those that entered are those that finished, in this order, and then those of the pipeline; one that
left the pipeline was the oldest for as many steps as it has chunks, at least for one, and its
chunks cost what its tokens cost; and a batch step takes no time back and gives each stream one
token. -/
theorem chunked_prefill {start n : MockEngineNode} {past : List PrefillEvent}
    (h : PrefillRun start n past) :
    enteredIds past = finishedIds past ++ n.prefillRemaining.keys ∧
      (∀ r u, enteredWith r past = some u → r ∉ n.prefillRemaining.keys →
        (headTicks r past : ℤ) = prefillSteps n.modelConfig.prefillChunkSize u ∧
          chunkCosts r past = u * n.modelConfig.prefillCostPerTokenMs) ∧
      ∀ now T completed pf n', (tickBatchStep now).run n = .ok (T, completed, pf) n' →
        now ≤ T ∧
        (∀ r ∈ n.decoding, ∃ g, n.outputTokens.get? r = some g ∧
          n'.outputTokens.get? r = some (g + 1)) ∧
        ∀ r ∉ n.decoding, n'.outputTokens.get? r = n.outputTokens.get? r := by
  have hp := h.pipelined
  refine ⟨hp.fifo, hp.finished, fun now T completed pf n' hrun => ?_⟩
  obtain ⟨-, ht⟩ := ticked_of_run hrun
  refine ⟨hp.now_le ht, fun r hr => ?_, ht.outputTokens_other⟩
  obtain ⟨g, e, hg, -, hg', -⟩ := ht.outputTokens r hr
  exact ⟨g, hg, hg'⟩

/-- A call of a run, by what it leaves. -/
theorem PrefillRun.call {start n : MockEngineNode} {past : List PrefillEvent}
    (h : PrefillRun start n past) (call : NodeCall) (hkeeps : call.KeepsPrefills n)
    (hok : (call.observe.run n).isOk = true) : PrefillRun start (call.observe.run n).state
      ((call.observe.run n).value?.getD [] ++ past) := by
  cases hrun : call.observe.run n with
  | ok events n' => exact h.called hkeeps hrun
  | error e n' =>
      rw [hrun] at hok
      cases hok

/-- A prefill of two chunks and one without tokens, which takes a step of its own. -/
theorem chunked_prefill_two : ∃ n past, PrefillRun (init "p0" .defaults .defaults) n past ∧
    finishedIds past = ["a", "b"] ∧ (headTicks "a" past : ℤ) = prefillSteps 512 600 ∧
    (headTicks "b" past : ℤ) = prefillSteps 512 0 ∧ chunkCosts "a" past = 600 * (33 / 1000) := by
  have h₁ := (@PrefillRun.fresh (init "p0" .defaults .defaults) rfl).call
    (.admitRequest "a" 1 none none) trivial (by decide +kernel)
  have h₂ := h₁.call (.admitRequest "b" 1 none none) trivial (by decide +kernel)
  have h₃ := h₂.call (.enterPrefill "a" 600) ⟨by decide +kernel, by decide⟩ (by decide +kernel)
  have h₄ := h₃.call (.enterPrefill "b" 0) ⟨by decide +kernel, by decide⟩ (by decide +kernel)
  have h₅ := h₄.call (.tickBatchStep 0) trivial (by decide +kernel)
  have h₆ := h₅.call (.tickBatchStep 17) trivial (by decide +kernel)
  have h₇ := h₆.call (.tickBatchStep 20) trivial (by decide +kernel)
  obtain ⟨-, hfinished, -⟩ := chunked_prefill h₇
  obtain ⟨hticks, hcosts⟩ := hfinished "a" 600 (by decide +kernel) (by decide +kernel)
  obtain ⟨hticks', -⟩ := hfinished "b" 0 (by decide +kernel) (by decide +kernel)
  exact ⟨_, _, h₇, by decide +kernel, hticks, hticks', hcosts⟩

/-! ### The time of a prefill that found the pipeline empty -/

/-- The calls after a request entered the pipeline, until its prefill is finished: it is neither
completed nor entered again, and in every batch step at most `b` streams are decoding.  The time is
that of the batch steps. -/
inductive HeadRun (r : RequestId) (b : ℤ) (start : MockEngineNode) : MockEngineNode → Time → Prop
  | entered : HeadRun r b start start 0
  | called {n n' : MockEngineNode} {spent : Time} {events : List NodeEvent} {call : NodeCall}
      (hrun : HeadRun r b start n spent) (hstep : ∀ now, call ≠ .tickBatchStep now)
      (hcomplete : call ≠ .complete r) (henter : ∀ u, call ≠ .enterPrefill r u)
      (hcall : call.perform.run n = .ok events n') : HeadRun r b start n' spent
  | ticked {n n' : MockEngineNode} {spent now T : Time} {completed : List RequestId}
      {pf : Option RequestId} (hrun : HeadRun r b start n spent) (hb : (n.decoding.card : ℤ) ≤ b)
      (htick : (tickBatchStep now).run n = .ok (T, completed, pf) n') (hpf : pf ≠ some r) :
      HeadRun r b start n' (spent + (T - now))

/-- The time of a full step: a full chunk, and the decode cost of `b` streams. -/
def MockEngineNode.fullStep (n : MockEngineNode) (b : ℤ) : Time :=
  n.modelConfig.prefillChunkSize * n.modelConfig.prefillCostPerTokenMs +
    n.modelConfig.decodeBaseMs + b * n.modelConfig.marginalDecodeMs

section Estimate

variable {n n' : MockEngineNode} {r : RequestId} {b : ℤ}

/-- A batch step takes at most a full step. -/
theorem MockEngineNode.Ticked.le_fullStep {now T : Time} {completed : List RequestId}
    {pf : Option RequestId} (ht : Ticked n now T completed pf n') (hb : (n.decoding.card : ℤ) ≤ b) :
    T - now ≤ n.fullStep b := by
  have hbase := n.modelConfig.decodeBaseMs_pos
  have hmarg := n.modelConfig.marginalDecodeMs_pos
  have hcost := n.modelConfig.prefillCostPerTokenMs_pos
  have hb' : ((n.decoding.card : ℕ) : ℚ) ≤ (b : ℚ) := by exact_mod_cast hb
  have hstreams := mul_le_mul_of_nonneg_right hb' hmarg.le
  have hdecode : n.decodeCost ≤ n.modelConfig.decodeBaseMs + b * n.modelConfig.marginalDecodeMs := by
    rw [decodeCost]
    split
    · rw [estimateDecodeTime, Int.cast_natCast]
      linarith
    · have hnn : (0 : ℚ) ≤ ((n.decoding.card : ℕ) : ℚ) * n.modelConfig.marginalDecodeMs := by
        positivity
      linarith
  have hchunk : T - now - n.decodeCost ≤
      n.modelConfig.prefillChunkSize * n.modelConfig.prefillCostPerTokenMs := by
    rcases ht.entries with ⟨-, -, -, hc⟩ | ⟨q, m, rest, -, hc, -⟩
    · rw [hc]
      positivity
    · rw [hc]
      have hmin : ((min m n.modelConfig.prefillChunkSize : ℤ) : ℚ) ≤
          (n.modelConfig.prefillChunkSize : ℕ) := by
        exact_mod_cast min_le_right _ _
      exact mul_le_mul_of_nonneg_right hmin hcost.le
  rw [fullStep]
  linarith

/-- The estimate charges as many full steps as the prefill has chunks. -/
theorem estimatePrefillTime_some (n : MockEngineNode) (promptLen cachedTokens b : ℤ)
    (hpos : 0 < max 0 (promptLen - cachedTokens)) :
    n.estimatePrefillTime promptLen cachedTokens (some b) =
      (chunks n.modelConfig.prefillChunkSize (max 0 (promptLen - cachedTokens)) : ℚ) *
        n.fullStep b := by
  simp only [estimatePrefillTime, gt_iff_lt, hpos, if_true, fullStep]
  rfl

/-- The oldest prefill of a node, and the time that is left for it within a bound. -/
structure HeadLeft (r : RequestId) (b : ℤ) (start : MockEngineNode) (u : ℤ) (n : MockEngineNode)
    (spent : Time) : Prop where
  modelConfig : n.modelConfig = start.modelConfig
  head : ∃ m rest, n.prefillRemaining.entries = (r, m) :: rest ∧ 0 < m ∧
    spent + (chunks start.modelConfig.prefillChunkSize m : ℚ) * start.fullStep b ≤
      (chunks start.modelConfig.prefillChunkSize u : ℚ) * start.fullStep b

/-- **Until the prefill is finished it is the oldest one**, and each step takes one of its chunks. -/
theorem HeadRun.headLeft {start : MockEngineNode} {spent : Time} {u : ℤ}
    (h : HeadRun r b start n spent) (hu : 0 < u)
    (hstart : ∃ rest, start.prefillRemaining.entries = (r, u) :: rest) :
    HeadLeft r b start u n spent := by
  induction h with
  | entered =>
      obtain ⟨rest, hent⟩ := hstart
      exact ⟨rfl, u, rest, hent, hu, by rw [zero_add]⟩
  | called hrun hstep hcomplete henter hcall ih =>
      rename_i call
      obtain ⟨hcfg, hpipe⟩ := NodeCall.pipeline_of_perform hstep hcall
      obtain ⟨hcfg', m, rest, hent, hm, hle⟩ := ih
      refine ⟨hcfg.trans hcfg', ?_⟩
      suffices hhead : ∃ rest', (call.pipelineAfter _).entries = (r, m) :: rest' by
        obtain ⟨rest', hent'⟩ := hhead
        exact ⟨m, rest', hpipe ▸ hent', hm, hle⟩
      cases call with
      | enterPrefill q v =>
          exact PyDict.entries_set_of_head_ne hent (fun hq => henter v (hq ▸ rfl)) v
      | complete q => exact PyDict.entries_erase_of_head_ne hent fun hq => hcomplete (hq ▸ rfl)
      | _ => exact ⟨rest, hent⟩
  | ticked hrun hb htick hpf ih =>
      rename_i n n' spent now T completed pf
      obtain ⟨-, ht⟩ := ticked_of_run htick
      obtain ⟨hcfg, m, rest, hent, hm, hle⟩ := ih
      refine ⟨ht.modelConfig.trans hcfg, ?_⟩
      have hfull : T - now ≤ start.fullStep b := by
        have := ht.le_fullStep hb
        rwa [fullStep, hcfg] at this
      rcases ht.entries with ⟨hnil, -⟩ | ⟨q, m', rest', hent', -, ⟨-, hpf', -⟩ | ⟨hlt, -, hnext⟩⟩
      · rw [hnil] at hent
        cases hent
      · rw [hent'] at hent
        cases hent
        exact absurd hpf' hpf
      · rw [hent'] at hent
        cases hent
        rw [hcfg] at hlt hnext
        refine ⟨_, rest, hnext, by omega, ?_⟩
        have hchunk : (0 : ℤ) < start.modelConfig.prefillChunkSize := by
          have := start.modelConfig.one_le_prefillChunkSize
          omega
        rw [chunks_sub hchunk, Int.cast_sub, Int.cast_one, sub_mul, one_mul]
        linarith

/-- **The estimate bounds the time of a prefill that found the pipeline empty**: however the
streams change, as long as at most as many are decoding as the estimate was told. -/
theorem prefill_estimate_bounds {n₀ start : MockEngineNode} {promptLen cachedTokens : ℤ}
    {spent now T : Time} {completed : List RequestId}
    (hempty : n₀.prefillRemaining.entries = []) (hpos : 0 < max 0 (promptLen - cachedTokens))
    (henter : (enterPrefill r (max 0 (promptLen - cachedTokens))).run n₀ = .ok () start)
    (hrun : HeadRun r b start n spent) (hb : (n.decoding.card : ℤ) ≤ b)
    (htick : (tickBatchStep now).run n = .ok (T, completed, some r) n') :
    spent + (T - now) ≤ n₀.estimatePrefillTime promptLen cachedTokens (some b) := by
  obtain ⟨-, hs⟩ := run_enterPrefill henter
  have hcfg₀ : start.modelConfig = n₀.modelConfig := hs.modelConfig
  have hpipe : start.prefillRemaining =
      n₀.prefillRemaining.set r (max 0 (promptLen - cachedTokens)) := hs.prefillRemaining
  have hkeys : r ∉ n₀.prefillRemaining.keys := by
    rw [PyDict.keys, hempty]
    exact List.not_mem_nil
  have hent : start.prefillRemaining.entries = [(r, max 0 (promptLen - cachedTokens))] := by
    rw [hpipe, PyDict.entries_set_of_notMem _ hkeys, hempty, List.nil_append]
  obtain ⟨hcfg, m, rest, hent', hm, hle⟩ := hrun.headLeft hpos ⟨[], hent⟩
  obtain ⟨-, ht⟩ := ticked_of_run htick
  have hfull : T - now ≤ start.fullStep b := by
    have := ht.le_fullStep hb
    rwa [fullStep, hcfg] at this
  have hchunk : chunks start.modelConfig.prefillChunkSize m = 1 := by
    rcases ht.entries with ⟨-, hpf, -⟩ | ⟨q, m', rest', hent'', -, ⟨hlast, -⟩ | ⟨-, hpf, -⟩⟩
    · cases hpf
    · rw [hent''] at hent'
      cases hent'
      exact chunks_eq_one hm (hcfg ▸ hlast)
    · cases hpf
  rw [hchunk, Int.cast_one, one_mul] at hle
  rw [estimatePrefillTime_some n₀ promptLen cachedTokens b hpos, fullStep, ← hcfg₀]
  rw [fullStep] at hle hfull
  linarith

end Estimate

/-- A node that decodes one stream, with a second running request. -/
def oneStream : MockEngineNode :=
  let node := (((admitRequest "s" 2 none none).run (init "p0" .defaults .defaults)).state)
  let node := ((startDecode "s").run node).state
  ((admitRequest "a" 1 none none).run node).state

/-- The prefill of the second request takes two steps beside the stream. -/
theorem prefill_estimate_bounds_oneStream : ∃ start n n' spent T completed,
    (enterPrefill "a" 600).run oneStream = .ok () start ∧ HeadRun "a" 1 start n spent ∧
    (tickBatchStep 23).run n = .ok (T, completed, some "a") n' ∧
    spent + (T - 23) ≤ oneStream.estimatePrefillTime 600 0 (some 1) := by
  obtain ⟨⟨⟩, henter⟩ := EStateM.Result.exists_eq_ok
    (by decide +kernel : ((enterPrefill "a" 600).run oneStream).isOk = true)
  obtain ⟨⟨T₁, completed₁, pf₁⟩, htick₁⟩ := EStateM.Result.exists_eq_ok
    (by decide +kernel : ((tickBatchStep 0).run
      ((enterPrefill "a" 600).run oneStream).state).isOk = true)
  have hpf₁ : pf₁ ≠ some "a" := by
    have hnot : ((tickBatchStep 0).run ((enterPrefill "a" 600).run oneStream).state).value?.map
      (fun v => v.2.2) ≠ some (some "a") := by decide +kernel
    rw [htick₁] at hnot
    exact fun h => hnot (h ▸ rfl)
  have hrun := HeadRun.ticked (HeadRun.entered (r := "a") (b := 1)) (by decide +kernel) htick₁ hpf₁
  obtain ⟨⟨T, completed, pf⟩, htick⟩ := EStateM.Result.exists_eq_ok
    (by decide +kernel : ((tickBatchStep 23).run ((tickBatchStep 0).run
      ((enterPrefill "a" 600).run oneStream).state).state).isOk = true)
  obtain rfl : pf = some "a" := by
    have hval : ((tickBatchStep 23).run ((tickBatchStep 0).run
      ((enterPrefill "a" 600).run oneStream).state).state).value?.map
        (fun v => v.2.2) = some (some "a") := by decide +kernel
    rw [htick] at hval
    exact Option.some_inj.1 hval
  exact ⟨_, _, _, _, T, completed, henter, hrun, htick,
    prefill_estimate_bounds (by decide +kernel) (by decide) henter hrun (by decide +kernel) htick⟩

end NanoKVRouter
