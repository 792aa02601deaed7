/-
**The waiting estimate of a full node.**

A full node estimates the wait for a slot from the work its running and queued requests have left:
the queued ones take the slots that are released first, and the wait is the first release after
them.  Seen as multisets, slots that are released later lead to later releases, so that more work
or another queued request never shortens the wait; and the mean release bounds it.

A batch step leaves no request more work than it had.  For this the records of a node have to keep
up with its counters and its pipeline, which they do whatever calls it receives.

Main definitions:

* `MockEngineNode.blockerWork` — the work the estimate charges a request of the node;
* `Synced` — the records keep up with the counters and the pipeline;
* `NodeCalls` — the nodes that any calls lead to.

Main results:

* `MockEngineNode.queueWaitTime_serves` — the estimate is a first release;
* `NodeCalls.synced` — **every node keeps its records in step**;
* `Synced.blockerWork_tick` — **a batch step leaves no more work**;
* `queue_wait_time` — **the estimate is bounded, and monotone in the work and the queue**.
-/

import NanoKVRouter.MockNodeRuns
import NanoKVRouter.PyRelations
import NanoKVRouter.SlotSchedule
import Mathlib.Algebra.Order.Field.Rat
import Mathlib.Tactic.Linarith
import Mathlib.Tactic.Positivity

set_option relaxedAutoImplicit false
set_option autoImplicit false

namespace NanoKVRouter

open SlotSchedule

/-! ### The estimate is a first release -/

namespace MockEngineNode

/-- The work the waiting estimate charges a request of the node. -/
def blockerWork (n : MockEngineNode) (promptLen out : Option ℤ) (r : RequestId) : Time :=
  n.remainingLifecycleMs (n.stateForWait r) promptLen out

section Wait

variable {n n' : MockEngineNode} {promptLen out : Option ℤ}

/-- A slot is put back behind the others that are released earlier. -/
theorem occupyEarliest_stepsSorted : StepsSorted (τ := Time) occupyEarliest where
  sorted := by
    intro slots work
    cases slots with
    | nil => exact .nil
    | cons t rest => exact List.pairwise_insertionSort _ _
  perm := fun t rest work =>
    (List.perm_insertionSort _ _).trans (List.perm_append_singleton _ _)

/-- With an argument the estimate reads the records. -/
theorem usesLegacyWaitFallback_eq_false (ids : List RequestId)
    (harg : promptLen.isSome ∨ out.isSome) :
    n.usesLegacyWaitFallback ids promptLen out = false := by
  rw [usesLegacyWaitFallback.eq_def, if_pos (by simpa using harg)]

/-- The estimate of a full node, read as a list of releases. -/
theorem queueWaitTime_eq (hroom : ¬ n.HasRoom) (harg : promptLen.isSome ∨ out.isSome) :
    n.queueWaitTime promptLen out = ((n.queue.map (n.blockerWork promptLen out)).foldl
      occupyEarliest ((n.runningRequests.map (n.blockerWork promptLen out)).insertionSort
        (· ≤ ·))).headD 0 := by
  have hroom' : ¬ n.runningRequests.length < n.nodeConfig.capacity := hroom
  rw [queueWaitTime, if_neg hroom']
  simp only [usesLegacyWaitFallback_eq_false _ harg, Bool.false_eq_true, if_false]
  rfl

/-- The releases of a full node are a sorted list that is not empty. -/
theorem exists_releases (hroom : ¬ n.HasRoom) (f : RequestId → Time) : ∃ t rest,
    (n.queue.map f).foldl occupyEarliest ((n.runningRequests.map f).insertionSort (· ≤ ·)) =
      t :: rest ∧ (t :: rest).Pairwise (· ≤ ·) ∧
      Serves (n.runningRequests.map f : List Time) (n.queue.map f) (t :: rest : List Time) := by
  have hne : n.runningRequests ≠ [] := by
    intro hnil
    have hcap := n.nodeConfig.one_le_capacity
    have hfull : n.nodeConfig.capacity ≤ n.runningRequests.length := not_lt.1 hroom
    rw [hnil, List.length_nil] at hfull
    omega
  have hperm := List.perm_insertionSort (· ≤ ·) (n.runningRequests.map f)
  have hne' : (n.runningRequests.map f).insertionSort (· ≤ ·) ≠ [] := by
    intro hnil
    rw [hnil] at hperm
    exact hne (List.map_eq_nil_iff.1 hperm.nil_eq.symm)
  obtain ⟨hserves, hend, hsorted⟩ := serves_foldl occupyEarliest_stepsSorted
    (n.queue.map f) hne' (List.pairwise_insertionSort _ _)
  rw [Multiset.coe_eq_coe.2 hperm] at hserves
  obtain ⟨t, rest, hreleased⟩ := List.exists_cons_of_ne_nil hend
  rw [hreleased] at hserves hsorted
  exact ⟨t, rest, hreleased, hsorted, hserves⟩

/-- **The wait is the first release** after the queued requests took their turns on the slots of the
running ones. -/
theorem queueWaitTime_serves (hroom : ¬ n.HasRoom) (harg : promptLen.isSome ∨ out.isSome) :
    ∃ slots, Serves (n.runningRequests.map (n.blockerWork promptLen out) : List Time)
      (n.queue.map (n.blockerWork promptLen out)) slots ∧
        Earliest slots (n.queueWaitTime promptLen out) := by
  obtain ⟨t, rest, hreleased, hsorted, hserves⟩ :=
    exists_releases hroom (n.blockerWork promptLen out)
  rw [queueWaitTime_eq hroom harg, hreleased]
  exact ⟨_, hserves, earliest_of_pairwise hsorted⟩

end Wait

end MockEngineNode

/-! ### The work of a record -/

namespace NodeRequestState

/-- The decode tokens a record leaves. -/
def outputTokensLeft (st : NodeRequestState) (out : Option ℤ) : ℤ :=
  max 0 ((if st.expectedOutputLen = 0 ∧ st.hasPromptLen = false then
    out.getD st.expectedOutputLen else st.expectedOutputLen) - st.generatedTokens)

/-- The prefill tokens a record leaves. -/
def prefillTokensLeft (st : NodeRequestState) (promptLen : Option ℤ) : ℤ :=
  if st.phase = .prefillDone ∨ st.phase = .decoding then 0
  else if st.phase = .prefilling then max 0 st.uncachedRemaining
  else
    match st.uncachedTotal with
    | some total => max 0 total
    | none => max 0 (if st.hasPromptLen then st.promptLen else promptLen.getD 0)

/-- The request waits for its transfer and holds no slot. -/
def Released (st : NodeRequestState) : Prop :=
  st.phase = .prefillDone ∧ st.blocksPrefillSlot = false

instance (st : NodeRequestState) : Decidable st.Released := inferInstanceAs (Decidable (_ ∧ _))

/-- A record with no more work than another one. -/
structure Lighter (promptLen out : Option ℤ) (st st' : NodeRequestState) : Prop where
  prefill : st'.prefillTokensLeft promptLen ≤ st.prefillTokensLeft promptLen
  output : st'.outputTokensLeft out ≤ st.outputTokensLeft out
  released : st.Released → st'.Released

section Lighter

variable {promptLen out : Option ℤ} {st st' st'' : NodeRequestState}

theorem Lighter.refl (st : NodeRequestState) : Lighter promptLen out st st :=
  ⟨le_refl _, le_refl _, id⟩

theorem Lighter.trans (h : Lighter promptLen out st st') (h' : Lighter promptLen out st' st'') :
    Lighter promptLen out st st'' :=
  ⟨h'.prefill.trans h.prefill, h'.output.trans h.output, fun hr => h'.released (h.released hr)⟩

theorem outputTokensLeft_nonneg (st : NodeRequestState) (out : Option ℤ) :
    0 ≤ st.outputTokensLeft out := le_max_left _ _

theorem prefillTokensLeft_nonneg (st : NodeRequestState) (promptLen : Option ℤ) :
    0 ≤ st.prefillTokensLeft promptLen := by
  rw [prefillTokensLeft]
  split
  · exact le_refl 0
  · split
    · exact le_max_left _ _
    · split
      · exact le_max_left _ _
      · exact le_max_left _ _

end Lighter

end NodeRequestState

namespace MockEngineNode

open NodeRequestState

section Work

variable {n n' : MockEngineNode} {promptLen out : Option ℤ} {st st' : NodeRequestState}

/-- The estimate charges the tokens a record leaves, and nothing to a released request. -/
theorem remainingLifecycleMs_eq (n : MockEngineNode) (st : NodeRequestState)
    (promptLen out : Option ℤ) : n.remainingLifecycleMs st promptLen out =
      if st.Released then 0
      else st.prefillTokensLeft promptLen * n.modelConfig.prefillCostPerTokenMs +
        st.outputTokensLeft out * n.waitDecodeStepMs := by
  rw [remainingLifecycleMs]
  by_cases hreleased : st.phase = .prefillDone ∧ st.blocksPrefillSlot = false
  · rw [if_pos hreleased, if_pos (show st.Released from hreleased)]
  · rw [if_neg hreleased, if_neg (show ¬ st.Released from hreleased), prefillTokensLeft]
    by_cases hdone : st.phase = .prefillDone ∨ st.phase = .decoding
    · rw [if_pos hdone, if_pos hdone, Int.cast_zero, zero_mul, zero_add]
      rfl
    · rw [if_neg hdone, if_neg hdone]
      rfl

theorem waitDecodeStepMs_nonneg (n : MockEngineNode) : 0 ≤ n.waitDecodeStepMs := by
  have hbase := n.modelConfig.decodeBaseMs_pos
  have hmarg := n.modelConfig.marginalDecodeMs_pos
  rw [waitDecodeStepMs]
  positivity

/-- No record leaves negative work. -/
theorem remainingLifecycleMs_nonneg (n : MockEngineNode) (st : NodeRequestState)
    (promptLen out : Option ℤ) : 0 ≤ n.remainingLifecycleMs st promptLen out := by
  rw [remainingLifecycleMs_eq]
  split
  · exact le_refl 0
  · exact add_nonneg
      (mul_nonneg (Int.cast_nonneg (st.prefillTokensLeft_nonneg promptLen))
        n.modelConfig.prefillCostPerTokenMs_pos.le)
      (mul_nonneg (Int.cast_nonneg (st.outputTokensLeft_nonneg out)) n.waitDecodeStepMs_nonneg)

/-- A lighter record leaves less work, also on a node with shorter decode steps. -/
theorem remainingLifecycleMs_le (hcfg : n'.modelConfig = n.modelConfig)
    (hstep : n'.waitDecodeStepMs ≤ n.waitDecodeStepMs) (h : Lighter promptLen out st st') :
    n'.remainingLifecycleMs st' promptLen out ≤ n.remainingLifecycleMs st promptLen out := by
  by_cases hr' : st'.Released
  · rw [remainingLifecycleMs_eq n', if_pos hr']
    exact n.remainingLifecycleMs_nonneg st promptLen out
  · have hr : ¬ st.Released := fun hr => hr' (h.released hr)
    rw [remainingLifecycleMs_eq n', remainingLifecycleMs_eq n, if_neg hr, if_neg hr', hcfg]
    refine add_le_add ?_ ?_
    · exact mul_le_mul_of_nonneg_right (Int.cast_le.2 h.prefill)
        n.modelConfig.prefillCostPerTokenMs_pos.le
    · exact mul_le_mul (Int.cast_le.2 h.output) hstep n'.waitDecodeStepMs_nonneg
        (Int.cast_nonneg (st.outputTokensLeft_nonneg out))

theorem blockerWork_nonneg (n : MockEngineNode) (promptLen out : Option ℤ) (r : RequestId) :
    0 ≤ n.blockerWork promptLen out r := n.remainingLifecycleMs_nonneg _ _ _

/-- Fewer streams make for shorter steps. -/
theorem waitDecodeStepMs_le (hcfg : n'.modelConfig = n.modelConfig)
    (hrunning : n'.runningRequests = n.runningRequests) (hdecoding : n'.decoding ⊆ n.decoding) :
    n'.waitDecodeStepMs ≤ n.waitDecodeStepMs := by
  have hcard := Finset.card_le_card hdecoding
  have hmax : max (max n'.decoding.card n'.runningRequests.length) 1 ≤
      max (max n.decoding.card n.runningRequests.length) 1 := by
    rw [hrunning]
    exact max_le_max (max_le_max hcard (le_refl _)) (le_refl _)
  rw [waitDecodeStepMs, waitDecodeStepMs, hcfg]
  have hcast : ((max (max n'.decoding.card n'.runningRequests.length) 1 : ℕ) : ℚ) ≤
      (max (max n.decoding.card n.runningRequests.length) 1 : ℕ) := Nat.cast_le.2 hmax
  have hmul := mul_le_mul_of_nonneg_right hcast n.modelConfig.marginalDecodeMs_pos.le
  linarith

end Work

end MockEngineNode

/-! ### Records in step -/

/-- The records keep up with the counters and with the pipeline. -/
structure Synced (n : MockEngineNode) : Prop where
  counter_nonneg : ∀ r g, n.outputTokens.get? r = some g → 0 ≤ g
  generated : ∀ r st, n.states.get? r = some st → st.generatedTokens ≤ n.outputTokens.getD r 0
  prefilling : ∀ r st, n.states.get? r = some st → st.phase = .prefilling →
    n.prefillRemaining.get? r = some st.uncachedRemaining

/-- The nodes that any calls lead to, whether they return or raise. -/
inductive NodeCalls (start : MockEngineNode) : MockEngineNode → Prop
  | fresh : NodeCalls start start
  | called {n : MockEngineNode} (call : NodeCall) (h : NodeCalls start n) :
      NodeCalls start (call.perform.run n).state
  | marked {n : MockEngineNode} (batchStepInFlight : Bool) (h : NodeCalls start n) :
      NodeCalls start { n with batchStepInFlight := batchStepInFlight }

namespace Synced

open MockEngineNode

variable {n n' : MockEngineNode}

theorem getD_nonneg (h : Synced n) (r : RequestId) : 0 ≤ n.outputTokens.getD r 0 := by
  rw [PyDict.getD]
  cases hg : n.outputTokens.get? r with
  | none => exact le_refl 0
  | some g => exact h.counter_nonneg r g hg

/-- A change of what a node has of one request. -/
theorem update (h : Synced n) (r : RequestId)
    (hother : ∀ q, q ≠ r → n'.states.get? q = n.states.get? q ∧
      n'.outputTokens.get? q = n.outputTokens.get? q ∧
      n'.prefillRemaining.get? q = n.prefillRemaining.get? q)
    (hout : ∀ g, n'.outputTokens.get? r = some g → 0 ≤ g)
    (hself : ∀ st, n'.states.get? r = some st → st.generatedTokens ≤ n'.outputTokens.getD r 0 ∧
      (st.phase = .prefilling → n'.prefillRemaining.get? r = some st.uncachedRemaining)) :
    Synced n' := by
  refine ⟨fun q g hg => ?_, fun q st hst => ?_, fun q st hst => ?_⟩
  · by_cases hq : q = r
    · exact hout g (hq ▸ hg)
    · exact h.counter_nonneg q g ((hother q hq).2.1 ▸ hg)
  · by_cases hq : q = r
    · subst hq
      exact (hself st hst).1
    · rw [PyDict.getD, (hother q hq).2.1]
      exact h.generated q st ((hother q hq).1 ▸ hst)
  · by_cases hq : q = r
    · subst hq
      exact (hself st hst).2
    · rw [(hother q hq).2.2]
      exact h.prefilling q st ((hother q hq).1 ▸ hst)

/-- A change of a record that leaves it in step. -/
theorem modifyState (h : Synced n) (r : RequestId) {f : NodeRequestState → NodeRequestState}
    (hf : ∀ st, n.states.get? r = some st → (f st).generatedTokens ≤ n.outputTokens.getD r 0 ∧
      ((f st).phase = .prefilling →
        n.prefillRemaining.get? r = some (f st).uncachedRemaining)) :
    Synced (n.modifyState r f) := by
  refine h.update r (fun q hq => ?_) (fun g hg => ?_) fun st hst => ?_
  · rw [states_modifyState, modifyState_outputTokens, modifyState_prefillRemaining]
    simp only [hq, if_false, Option.map_id', and_self]
  · rw [modifyState_outputTokens] at hg
    exact h.counter_nonneg r g hg
  · rw [states_modifyState] at hst
    obtain ⟨st₀, hst₀, rfl⟩ := Option.map_eq_some_iff.1 hst
    rw [modifyState_outputTokens, modifyState_prefillRemaining, if_pos rfl]
    exact hf st₀ hst₀

theorem requireRunning (method : String) (r : RequestId) :
    Py.Keeps Synced (requireRunning method r) := by
  intro n h
  rw [MockEngineNode.requireRunning, Py.run_get_bind]
  split
  · exact h
  · exact h

theorem startDecode (r : RequestId) : Py.Keeps Synced (startDecode r) := by
  refine (requireRunning _ r).bind fun _ => .modify fun n h => ?_
  have hm := h.modifyState r (f := fun state =>
    { state with
      phase := .decoding
      uncachedTotal := some (state.uncachedTotal.getD 0)
      uncachedRemaining := 0
      generatedTokens := n.outputTokens.getD r 0
      blocksPrefillSlot := true }) fun st _ => ⟨le_refl _, fun hp => by cases hp⟩
  exact ⟨hm.counter_nonneg, hm.generated, hm.prefilling⟩

theorem markPrefillDone (r : RequestId) : Py.Keeps Synced (markPrefillDone r) :=
  (requireRunning _ r).bind fun _ => .modify fun _ h =>
    h.modifyState r fun st hst => ⟨h.generated r st hst, fun hp => by cases hp⟩

theorem enterPrefill (r : RequestId) (u : ℤ) : Py.Keeps Synced (enterPrefill r u) := by
  refine (requireRunning _ r).bind fun _ => .modify fun n h => ?_
  refine h.update r (fun q hq => ?_) (fun g hg => ?_) fun st hst => ?_
  · simp only [states_modifyState, hq, if_false, Option.map_id', modifyState_outputTokens,
      modifyState_prefillRemaining, PyDict.get?_set_of_ne _ _ hq, and_self]
  · rw [modifyState_outputTokens] at hg
    exact h.counter_nonneg r g hg
  · rw [states_modifyState] at hst
    obtain ⟨st₀, hst₀, rfl⟩ := Option.map_eq_some_iff.1 hst
    rw [modifyState_outputTokens, modifyState_prefillRemaining, if_pos rfl, PyDict.get?_set_self]
    exact ⟨h.generated r st₀ hst₀, fun _ => rfl⟩

theorem initPromoted (r : RequestId) (e : ℤ) (pl ut : Option ℤ) :
    Py.Keeps Synced (initPromoted r e pl ut) := by
  refine (requireRunning _ r).bind fun _ => .modify fun n h => ?_
  refine h.update r (fun q hq => ?_) (fun g hg => ?_) fun st hst => ?_
  · exact ⟨PyDict.get?_set_of_ne _ _ hq, PyDict.get?_set_of_ne _ _ hq, rfl⟩
  · rw [PyDict.get?_set_self] at hg
    cases hg
    exact le_refl 0
  · rw [PyDict.get?_set_self] at hst
    cases hst
    rw [PyDict.getD, PyDict.get?_set_self, promotedState.eq_def]
    split
    · exact ⟨le_refl _, fun hp => by cases hp⟩
    · exact ⟨le_refl _, fun hp => by cases hp⟩

theorem admitRequest (r : RequestId) (e : ℤ) (pl ut : Option ℤ) :
    Py.Keeps Synced (admitRequest r e pl ut) := by
  intro n h
  rw [MockEngineNode.admitRequest, Py.run_get_bind]
  by_cases hroom : n.runningRequests.length < n.nodeConfig.capacity
  · simp only [hroom, decide_true, if_true]
    refine h.update r (fun q hq => ?_) (fun g hg => ?_) fun st hst => ?_
    · exact ⟨PyDict.get?_set_of_ne _ _ hq, PyDict.get?_set_of_ne _ _ hq, rfl⟩
    · change (n.outputTokens.set r 0).get? r = some g at hg
      rw [PyDict.get?_set_self] at hg
      cases hg
      exact le_refl 0
    · change (n.states.set r _).get? r = some st at hst
      rw [PyDict.get?_set_self] at hst
      cases hst
      change 0 ≤ (n.outputTokens.set r 0).getD r 0 ∧ _
      rw [PyDict.getD, PyDict.get?_set_self]
      exact ⟨le_refl _, fun hp => by cases hp⟩
  · simp only [hroom, decide_false, Bool.false_eq_true, if_false]
    refine h.update r (fun q hq => ?_) (h.counter_nonneg r) fun st hst => ?_
    · exact ⟨PyDict.get?_set_of_ne _ _ hq, rfl, rfl⟩
    · change (n.states.set r _).get? r = some st at hst
      rw [PyDict.get?_set_self] at hst
      cases hst
      exact ⟨h.getD_nonneg r, fun hp => by cases hp⟩

/-- A request leaves with all that the node has of it. -/
theorem without (h : Synced n) (r : RequestId) : Synced (n.without r) := by
  refine h.update r (fun q hq => ?_) (fun g hg => ?_) fun st hst => ?_
  · exact ⟨PyDict.get?_erase_of_ne _ hq, PyDict.get?_erase_of_ne _ hq,
      PyDict.get?_erase_of_ne _ hq⟩
  · change (n.outputTokens.erase r).get? r = some g at hg
    rw [PyDict.get?_erase_self] at hg
    cases hg
  · change (n.states.erase r).get? r = some st at hst
    rw [PyDict.get?_erase_self] at hst
    cases hst

theorem afterPromote (h : Synced n) : Synced n.afterPromote := by
  rw [MockEngineNode.afterPromote]
  split
  · exact h
  · have hlists : Synced { n with
        queue := n.queue.tail
        runningRequests := n.runningRequests ++ [‹RequestId›] } :=
      ⟨h.counter_nonneg, h.generated, h.prefilling⟩
    exact hlists.modifyState _ fun st hst => ⟨h.generated _ st hst, fun hp => by cases hp⟩

theorem complete (r : RequestId) : Py.Keeps Synced (complete r) := by
  intro n h
  by_cases hmem : r ∈ n.runningRequests ∨ r ∈ n.queue
  · rw [run_complete hmem]
    exact (h.without r).afterPromote
  · rw [not_or] at hmem
    rw [run_complete_absent hmem.1 hmem.2]
    exact h

/-! ### Batch steps keep the records in step -/

theorem prefillChunk : Py.Keeps Synced prefillChunk := by
  intro n h
  rcases run_prefillChunk n with ⟨-, hrun⟩ | ⟨q, u, rest, -, hent, -, -⟩
  · rw [hrun]
    exact h
  · rw [run_prefillChunk_cons hent]
    refine h.update q (fun x hx => ?_) (fun g hg => ?_) fun st hst => ?_
    · simp only [EStateM.Result.state_ok, states_modifyState, hx, if_false, Option.map_id',
        modifyState_outputTokens, modifyState_prefillRemaining, withPipeline,
        PyDict.get?_set_of_ne _ _ hx, and_self]
    · rw [EStateM.Result.state_ok, modifyState_outputTokens] at hg
      exact h.counter_nonneg q g hg
    · rw [EStateM.Result.state_ok, states_modifyState] at hst
      obtain ⟨st₀, hst₀, rfl⟩ := Option.map_eq_some_iff.1 hst
      rw [EStateM.Result.state_ok, modifyState_outputTokens, modifyState_prefillRemaining,
        if_pos rfl, withPipeline, PyDict.get?_set_self]
      exact ⟨h.generated q st₀ hst₀, fun _ => rfl⟩

theorem advanceStream (r : RequestId) : Py.Keeps Synced (advanceStream r) := by
  intro n h
  rw [MockEngineNode.advanceStream, Py.run_get_bind]
  cases hg : n.outputTokens.get? r with
  | none => exact h
  | some g =>
      have hadvanced : Synced ({ n with outputTokens := n.outputTokens.set r (g + 1)
          }.modifyState r fun state => { state with generatedTokens := g + 1 }) := by
        refine h.update r (fun q hq => ?_) (fun g' hg' => ?_) fun st hst => ?_
        · simp only [states_modifyState, hq, if_false, Option.map_id', modifyState_outputTokens,
            modifyState_prefillRemaining, PyDict.get?_set_of_ne _ _ hq, and_self]
        · rw [modifyState_outputTokens, PyDict.get?_set_self] at hg'
          cases hg'
          have := h.counter_nonneg r g hg
          omega
        · rw [states_modifyState] at hst
          obtain ⟨st₀, hst₀, rfl⟩ := Option.map_eq_some_iff.1 hst
          rw [modifyState_outputTokens, modifyState_prefillRemaining, if_pos rfl, PyDict.getD,
            PyDict.get?_set_self]
          exact ⟨le_refl _, h.prefilling r st₀ hst₀⟩
      simp only [EStateM.run_bind, EStateM.run_set]
      cases he : n.expectedOutput.get? r with
      | none => exact hadvanced
      | some e => exact hadvanced

theorem advanceStreams (rs : List RequestId) : Py.Keeps Synced (advanceStreams rs) := by
  induction rs with
  | nil => exact .pure _
  | cons r rs ih => exact (advanceStream r).bind fun _ => ih.bind fun _ => .pure _

theorem finishPrefill (pid : Option RequestId) : Py.Keeps Synced (finishPrefill pid) := by
  intro n h
  cases pid with
  | none => exact h
  | some q =>
      by_cases h0 : n.prefillRemaining.get? q = some 0
      · rw [run_finishPrefill_drained h0]
        refine h.update q (fun x hx => ?_) (fun g hg => ?_) fun st hst => ?_
        · simp only [EStateM.Result.state_ok, states_modifyState, hx, if_false, Option.map_id',
            modifyState_outputTokens, modifyState_prefillRemaining, withPipeline,
            PyDict.get?_erase_of_ne _ hx, and_self]
        · rw [EStateM.Result.state_ok, modifyState_outputTokens] at hg
          exact h.counter_nonneg q g hg
        · rw [EStateM.Result.state_ok, states_modifyState] at hst
          obtain ⟨st₀, hst₀, rfl⟩ := Option.map_eq_some_iff.1 hst
          rw [EStateM.Result.state_ok, modifyState_outputTokens, if_pos rfl]
          exact ⟨h.generated q st₀ hst₀, fun hp => by cases hp⟩
      · rw [run_finishPrefill_left h0]
        exact h

theorem tickBatchStep (now : Time) : Py.Keeps Synced (tickBatchStep now) := by
  refine Py.Keeps.get.bind fun node => ?_
  split
  · exact .raise _
  · refine prefillChunk.bind fun p => Py.Keeps.get.bind fun node' => ?_
    refine (advanceStreams _).bind fun completed => ?_
    refine (Py.Keeps.modify fun n h => ?_).bind fun _ => (finishPrefill _).bind fun _ => .pure _
    exact ⟨h.counter_nonneg, h.generated, h.prefilling⟩

end Synced

/-- **Every node keeps its records in step**, whatever calls it receives. -/
theorem NodeCalls.synced {nodeId : NodeId} {modelConfig : ModelConfig} {nodeConfig : NodeConfig}
    {n : MockEngineNode} (h : NodeCalls (.init nodeId modelConfig nodeConfig) n) : Synced n := by
  induction h with
  | fresh =>
      refine ⟨fun r g hg => ?_, fun r st hst => ?_, fun r st hst => ?_⟩
      · cases hg
      · cases hst
      · cases hst
  | called call _ ih =>
      have hkeeps : Py.Keeps Synced call.perform := by
        cases call with
        | admitRequest r e pl ut => exact (Synced.admitRequest r e pl ut).bind fun _ => .pure _
        | initPromoted r e pl ut => exact (Synced.initPromoted r e pl ut).bind fun _ => .pure _
        | enterPrefill r u => exact (Synced.enterPrefill r u).bind fun _ => .pure _
        | markPrefillDone r => exact (Synced.markPrefillDone r).bind fun _ => .pure _
        | startDecode r => exact (Synced.startDecode r).bind fun _ => .pure _
        | tickBatchStep now => exact (Synced.tickBatchStep now).bind fun _ => .pure _
        | complete r =>
            exact Py.Keeps.get.bind fun node => (Synced.complete r).bind fun _ => .pure _
      exact hkeeps _ ih
  | marked b _ ih => exact ⟨ih.counter_nonneg, ih.generated, ih.prefilling⟩

/-! ### A batch step leaves no more work -/

namespace Synced

open MockEngineNode NodeRequestState

variable {n n' : MockEngineNode} {promptLen out : Option ℤ} {r : RequestId}
  {st : NodeRequestState}

/-- The chunk makes the record of the oldest prefill lighter. -/
theorem lighter_chunkedState (h : Synced n) (hst : n.states.get? r = some st) :
    Lighter promptLen out st (n.chunkedState r st) := by
  rw [chunkedState]
  split
  · exact .refl st
  · rename_i q u rest hent
    split
    · rename_i hq
      subst hq
      refine ⟨?_, le_refl _, id⟩
      rw [prefillTokensLeft, prefillTokensLeft]
      dsimp only
      split
      · exact le_refl 0
      · split
        · rename_i hp
          -- the record has as many tokens left as the pipeline
          have hu : n.prefillRemaining.get? r = some u :=
            PyDict.get?_eq_some_iff.2 (hent ▸ List.mem_cons_self)
          obtain rfl : st.uncachedRemaining = u :=
            Option.some_inj.1 ((h.prefilling r st hst hp).symm.trans hu)
          omega
        · exact le_refl _
    · exact .refl st

theorem chunkedState_generatedTokens (n : MockEngineNode) (r : RequestId)
    (st : NodeRequestState) : (n.chunkedState r st).generatedTokens = st.generatedTokens := by
  rw [chunkedState]
  split
  · rfl
  · split <;> rfl

/-- A token makes the record of a stream lighter. -/
theorem lighter_streamedState (hgen : st.generatedTokens ≤ n.outputTokens.getD r 0) :
    Lighter promptLen out st (n.streamedState r st) := by
  rw [streamedState]
  split
  · refine ⟨le_refl _, ?_, id⟩
    rw [outputTokensLeft, outputTokensLeft]
    dsimp only
    omega
  · exact .refl st

/-- The end of a prefill makes its record lighter. -/
theorem lighter_drainedState (n : MockEngineNode) (r : RequestId) (st : NodeRequestState) :
    Lighter promptLen out st (n.drainedState r st) := by
  rw [drainedState]
  split
  · exact .refl st
  · split
    · refine ⟨?_, le_refl _, fun _ => ⟨rfl, rfl⟩⟩
      exact (if_pos (Or.inl rfl)).le.trans (st.prefillTokensLeft_nonneg promptLen)
    · exact .refl st

/-- **A batch step leaves no more work.** -/
theorem blockerWork_tick (h : Synced n) {now T : Time} {completed : List RequestId}
    {pf : Option RequestId} (hrun : (MockEngineNode.tickBatchStep now).run n =
      .ok (T, completed, pf) n') (promptLen out : Option ℤ) (r : RequestId) :
    n'.blockerWork promptLen out r ≤ n.blockerWork promptLen out r := by
  obtain ⟨-, ht⟩ := ticked_of_run hrun
  have hstep := waitDecodeStepMs_le ht.modelConfig ht.runningRequests
    fun q hq => ((ht.decoding q).1 hq).1
  refine remainingLifecycleMs_le ht.modelConfig hstep ?_
  have hstates := tickBatchStep_states hrun r
  rw [stateForWait, stateForWait, ht.queue]
  cases hst : n.states.get? r with
  | none =>
      rw [hst, Option.map_none] at hstates
      rw [hstates]
      exact .refl _
  | some st =>
      rw [hst, Option.map_some] at hstates
      rw [hstates]
      have hgen : (n.chunkedState r st).generatedTokens ≤ n.outputTokens.getD r 0 := by
        rw [chunkedState_generatedTokens]
        exact h.generated r st hst
      exact (h.lighter_chunkedState hst).trans
        ((lighter_streamedState hgen).trans (lighter_drainedState n r _))

end Synced

/-! ### The estimate is monotone -/

namespace MockEngineNode

section Wait

variable {n n' : MockEngineNode} {promptLen out : Option ℤ}

/-- **More work makes for a longer wait.** -/
theorem queueWaitTime_mono (hroom : ¬ n.HasRoom) (harg : promptLen.isSome ∨ out.isSome)
    (hcfg : n'.nodeConfig = n.nodeConfig) (hrunning : n'.runningRequests = n.runningRequests)
    (hqueue : n'.queue = n.queue) (hwork : ∀ r ∈ n.runningRequests ++ n.queue,
      n.blockerWork promptLen out r ≤ n'.blockerWork promptLen out r) :
    n.queueWaitTime promptLen out ≤ n'.queueWaitTime promptLen out := by
  have hroom' : ¬ n'.HasRoom := by rwa [HasRoom, hrunning, hcfg]
  obtain ⟨slots, hserves, hearly⟩ := queueWaitTime_serves hroom harg
  obtain ⟨slots', hserves', hearly'⟩ := queueWaitTime_serves hroom' harg
  rw [hrunning, hqueue] at hserves'
  refine hearly.le_of_rel hearly' (hserves.rel hserves' ?_ ?_)
  · rw [← Multiset.map_coe, ← Multiset.map_coe, Multiset.rel_map]
    exact Multiset.rel_refl_of_refl_on fun r hr => hwork r (List.mem_append_left _ hr)
  · rw [List.forall₂_map_left_iff, List.forall₂_map_right_iff]
    exact List.forall₂_same.2 fun r hr => hwork r (List.mem_append_right _ hr)

/-- The wait is not negative. -/
theorem queueWaitTime_nonneg (hroom : ¬ n.HasRoom) (harg : promptLen.isSome ∨ out.isSome) :
    0 ≤ n.queueWaitTime promptLen out := by
  obtain ⟨slots, hserves, hearly⟩ := queueWaitTime_serves hroom harg
  refine hserves.nonneg (fun x hx => ?_) (fun w hw => ?_) _ hearly.1
  · obtain ⟨r, -, rfl⟩ := List.mem_map.1 (Multiset.mem_coe.1 hx)
    exact n.blockerWork_nonneg promptLen out r
  · obtain ⟨r, -, rfl⟩ := List.mem_map.1 hw
    exact n.blockerWork_nonneg promptLen out r

/-- **The wait is at most the mean work.** -/
theorem queueWaitTime_le (hfull : n.runningRequests.length = n.nodeConfig.capacity)
    (harg : promptLen.isSome ∨ out.isSome) : n.queueWaitTime promptLen out ≤
      ((n.runningRequests ++ n.queue).map (n.blockerWork promptLen out)).sum /
        n.nodeConfig.capacity := by
  have hroom : ¬ n.HasRoom := by rw [HasRoom, hfull]; exact lt_irrefl _
  obtain ⟨slots, hserves, hearly⟩ := queueWaitTime_serves hroom harg
  have hle := hearly.card_nsmul_le
  rw [hserves.card_eq, hserves.sum_eq, Multiset.coe_card, List.length_map, hfull,
    Multiset.sum_coe, nsmul_eq_mul] at hle
  have hcap : (0 : ℚ) < n.nodeConfig.capacity := Nat.cast_pos.2 n.nodeConfig.one_le_capacity
  rw [le_div_iff₀ hcap, mul_comm, List.map_append, List.sum_append]
  exact hle

/-- **Another queued request makes for a longer wait.** -/
theorem queueWaitTime_append (hroom : ¬ n.HasRoom) (harg : promptLen.isSome ∨ out.isSome)
    (hcfg : n'.nodeConfig = n.nodeConfig) (hrunning : n'.runningRequests = n.runningRequests)
    {r : RequestId} (hqueue : n'.queue = n.queue ++ [r])
    (hwork : ∀ q ∈ n.runningRequests ++ n.queue,
      n'.blockerWork promptLen out q = n.blockerWork promptLen out q) :
    n.queueWaitTime promptLen out ≤ n'.queueWaitTime promptLen out := by
  have hroom' : ¬ n'.HasRoom := by rwa [HasRoom, hrunning, hcfg]
  have hmapr : n.runningRequests.map (n'.blockerWork promptLen out) =
      n.runningRequests.map (n.blockerWork promptLen out) :=
    List.map_congr_left fun q hq => hwork q (List.mem_append_left _ hq)
  have hmapq : n.queue.map (n'.blockerWork promptLen out) =
      n.queue.map (n.blockerWork promptLen out) :=
    List.map_congr_left fun q hq => hwork q (List.mem_append_right _ hq)
  obtain ⟨t, rest, hreleased, hsorted, -⟩ := exists_releases hroom (n.blockerWork promptLen out)
  rw [queueWaitTime_eq hroom harg, queueWaitTime_eq hroom' harg, hrunning, hqueue, List.map_append,
    List.foldl_append, hmapr, hmapq, hreleased, List.headD_cons, List.map_singleton,
    List.foldl_cons, List.foldl_nil]
  -- the request is put back at the first release or later
  have hperm := occupyEarliest_stepsSorted.perm t rest (n'.blockerWork promptLen out r)
  cases hocc : occupyEarliest (t :: rest) (n'.blockerWork promptLen out r) with
  | nil =>
      rw [hocc] at hperm
      exact absurd hperm.nil_eq.symm (List.cons_ne_nil _ _)
  | cons t' rest' =>
      rw [hocc] at hperm
      rw [List.headD_cons]
      rcases List.mem_cons.1 (hperm.mem_iff.1 List.mem_cons_self) with rfl | hmem
      · exact le_add_of_nonneg_right (n'.blockerWork_nonneg promptLen out r)
      · exact (List.pairwise_cons.1 hsorted).1 t' hmem

/-- The admission of a request to a full node leaves the work of the others. -/
theorem blockerWork_admitRequest {r : RequestId} {e : ℤ} {pl ut : Option ℤ} {b : Bool}
    (hroom : ¬ n.HasRoom) (hrun : (admitRequest r e pl ut).run n = .ok b n') {q : RequestId}
    (hq : q ≠ r) : n'.blockerWork promptLen out q = n.blockerWork promptLen out q := by
  obtain ⟨st, hst⟩ := admitRequest_states hrun
  obtain ⟨-, hs⟩ := run_admitRequest hrun
  rw [admitted, if_neg hroom] at hs
  have hstep : n'.waitDecodeStepMs = n.waitDecodeStepMs := by
    rw [waitDecodeStepMs, waitDecodeStepMs, hs.decoding, hs.runningRequests, hs.modelConfig]
  have hcfg : n'.modelConfig = n.modelConfig := hs.modelConfig
  have hget : n'.states.get? q = n.states.get? q := by rw [hst, PyDict.get?_set_of_ne _ _ hq]
  have hmem : q ∈ n'.queue ↔ q ∈ n.queue := by
    rw [hs.queue, List.mem_append, List.mem_singleton]
    exact or_iff_left hq
  have hstate : n'.stateForWait q = n.stateForWait q := by
    rw [stateForWait, stateForWait, hget]
    simp only [hmem]
  rw [blockerWork, blockerWork, hstate, remainingLifecycleMs_eq, remainingLifecycleMs_eq, hstep,
    hcfg]

end Wait

end MockEngineNode

open MockEngineNode

/-- **The estimate is bounded, and monotone in the work and the queue**: on a full node it is not
negative and at most the mean work; it does not decrease when the work of requests increases or
another request is queued, and it does not increase with a batch step. -/
theorem queue_wait_time {nodeId : NodeId} {modelConfig : ModelConfig} {nodeConfig : NodeConfig}
    {n : MockEngineNode} (h : NodeCalls (.init nodeId modelConfig nodeConfig) n)
    (hfull : n.runningRequests.length = n.nodeConfig.capacity) {promptLen out : Option ℤ}
    (harg : promptLen.isSome ∨ out.isSome) :
    0 ≤ n.queueWaitTime promptLen out ∧
      n.queueWaitTime promptLen out ≤
        ((n.runningRequests ++ n.queue).map (n.blockerWork promptLen out)).sum /
          n.nodeConfig.capacity ∧
      (∀ n' : MockEngineNode, n'.nodeConfig = n.nodeConfig →
        n'.runningRequests = n.runningRequests → n'.queue = n.queue →
        (∀ r ∈ n.runningRequests ++ n.queue,
          n.blockerWork promptLen out r ≤ n'.blockerWork promptLen out r) →
        n.queueWaitTime promptLen out ≤ n'.queueWaitTime promptLen out) ∧
      (∀ r expectedOutputLen pl ut b n', r ∉ n.runningRequests ++ n.queue →
        (admitRequest r expectedOutputLen pl ut).run n = .ok b n' →
        n.queueWaitTime promptLen out ≤ n'.queueWaitTime promptLen out) ∧
      ∀ now T completed pf n', (tickBatchStep now).run n = .ok (T, completed, pf) n' →
        n'.queueWaitTime promptLen out ≤ n.queueWaitTime promptLen out := by
  have hroom : ¬ n.HasRoom := by rw [HasRoom, hfull]; exact lt_irrefl _
  refine ⟨queueWaitTime_nonneg hroom harg, queueWaitTime_le hfull harg,
    fun n' hcfg hrunning hqueue hwork => queueWaitTime_mono hroom harg hcfg hrunning hqueue hwork,
    fun r e pl ut b n' hr hrun => ?_, fun now T completed pf n' hrun => ?_⟩
  · obtain ⟨-, hs⟩ := run_admitRequest hrun
    rw [admitted, if_neg hroom] at hs
    exact queueWaitTime_append hroom harg hs.nodeConfig hs.runningRequests hs.queue
      fun q hq => blockerWork_admitRequest hroom hrun fun heq => hr (heq ▸ hq)
  · obtain ⟨-, ht⟩ := ticked_of_run hrun
    have hroom' : ¬ n'.HasRoom := by rwa [HasRoom, ht.runningRequests, ht.nodeConfig]
    exact queueWaitTime_mono hroom' harg ht.nodeConfig.symm ht.runningRequests.symm ht.queue.symm
      fun r _ => h.synced.blockerWork_tick hrun promptLen out r

/-- A node whose slot is taken by a request of ten tokens, while another one waits. -/
theorem queue_wait_time_oneSlot : ∃ n, NodeCalls oneSlot n ∧ n.queue = ["b"] ∧
    0 ≤ n.queueWaitTime (some 10) none ∧
    n.queueWaitTime (some 10) none ≤ (["a", "b"].map (n.blockerWork (some 10) none)).sum / 1 := by
  have h := ((@NodeCalls.fresh oneSlot).called (.admitRequest "a" 2 (some 10) none)).called
    (.admitRequest "b" 3 none none)
  obtain ⟨hnonneg, hle, -⟩ := queue_wait_time h (by decide +kernel)
    (Or.inl rfl : (some (10 : ℤ)).isSome ∨ (none : Option ℤ).isSome)
  refine ⟨_, h, by decide +kernel, hnonneg, ?_⟩
  have hcap : ((1 : ℕ) : ℚ) = 1 := Nat.cast_one
  rw [← hcap]
  exact hle

end NanoKVRouter
