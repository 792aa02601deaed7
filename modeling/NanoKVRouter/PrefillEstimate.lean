/-
**The estimate of a prefill.**

The estimate adds the wait for a slot and a padded cost of the chunks of the request.  The wait
treats the slots as servers that work side by side; the node serves one chunk at a time, in order,
so that a request with a free slot waits for the whole pipeline.  The estimate covers the time that
the prefill takes if and only if the work ahead fits into the wait and the padding.

Main definitions:

* `MockEngineNode.Boundary` — a prefill node between two batch steps;
* `MockEngineNode.workAhead` — the tokens that are served until the prefill of a new request
  completes;
* `MockEngineNode.Covered` — the work ahead fits into the wait for a slot and the padded chunks.

Main results:

* `MockEngineNode.Boundary.run_timeToPrefill` — the prefill takes the time of the work ahead;
* `MockEngineNode.prefill_estimate_covers_iff` — **the estimate covers the prefill if and only if
  the work ahead is covered**;
* `MockEngineNode.prefill_estimate_fails` — a request with a free slot behind a long prefill.
-/

import NanoKVRouter.PrefillDrive
import NanoKVRouter.QueueWait

set_option relaxedAutoImplicit false
set_option autoImplicit false

namespace NanoKVRouter

namespace MockEngineNode

open SlotSchedule

/-! ### Nodes between two batch steps -/

/-- A running request is in the pipeline, or its prefill is done and its completion is pending. -/
def RunsPrefill (n : MockEngineNode) (r : RequestId) (st : NodeRequestState) : Prop :=
  (∃ u, n.prefillRemaining.get? r = some u ∧ 0 < u ∧ st.phase = .prefilling ∧
      st.uncachedRemaining = u) ∨
    (n.prefillRemaining.get? r = none ∧ st.phase = .prefillDone ∧ st.blocksPrefillSlot = false)

/-- A prefill node between two batch steps: there is no decode stream, every running request is in
the pipeline or has its completion pending, and every queued one has been admitted with its uncached
tokens. -/
structure Boundary (n : MockEngineNode) : Prop where
  decoding : n.decoding = ∅
  nodup : (n.runningRequests ++ n.queue).Nodup
  fits : n.Fits
  pipeline : ∀ r ∈ n.prefillRemaining.keys, r ∈ n.runningRequests
  running : ∀ r ∈ n.runningRequests, ∃ st, n.states.get? r = some st ∧ n.RunsPrefill r st
  queued : ∀ r ∈ n.queue, ∃ st u, n.states.get? r = some st ∧ st.phase = .queued ∧
    st.uncachedTotal = some u ∧ 0 ≤ u

/-- The running requests whose completion is pending. -/
def prefilled (n : MockEngineNode) : List RequestId :=
  n.runningRequests.filter fun r => r ∉ n.prefillRemaining.keys

/-- The queued requests with their uncached tokens. -/
def queuedWork (n : MockEngineNode) : List (RequestId × ℤ) :=
  n.queue.map fun q => (q, (n.uncachedOf q).getD 0)

/-- The tokens that are served until the prefill of a new request with `u` uncached tokens
completes: all that the pipeline and the queue have, and its own; without own tokens it waits for a
slot only. -/
def workAhead (n : MockEngineNode) (u : ℤ) : ℤ :=
  if 0 < u then
    work n.prefillRemaining.entries + work n.queuedWork + u
  else if n.HasRoom then
    0
  else
    work ((n.prefillRemaining.entries ++ withWork n.queuedWork).take
      ((withWork n.queuedWork).length + 1 - n.prefilled.length))

section Drive

variable {n : MockEngineNode} {r : RequestId} {due : List RequestId}

/-- A node between two batch steps, as a driven one. -/
theorem Boundary.driven (hb : n.Boundary) (hdue : due.Perm n.prefilled) :
    Driven n.modelConfig due n.prefillRemaining.entries n.queuedWork n := by
  have hqueue : n.queuedWork.map Prod.fst = n.queue := by
    rw [queuedWork, List.map_map]
    exact List.map_id _
  have hkeys : n.prefillRemaining.entries.map Prod.fst = n.prefillRemaining.keys := rfl
  -- the pipeline is the rest of the running requests
  have hpipe : n.prefillRemaining.keys.Perm
      (n.runningRequests.filter fun r => r ∈ n.prefillRemaining.keys) := by
    refine (List.perm_ext_iff_of_nodup n.prefillRemaining.keys_nodup ?_).2 fun r => ?_
    · exact (hb.nodup.sublist (List.sublist_append_left _ _)).filter _
    · rw [List.mem_filter, decide_eq_true_iff]
      exact ⟨fun hr => ⟨hb.pipeline r hr, hr⟩, fun hr => hr.2⟩
  have hrunning : n.runningRequests.Perm (due ++ n.prefillRemaining.keys) := by
    have hsplit := List.filter_append_perm (fun r => decide (r ∉ n.prefillRemaining.keys))
      n.runningRequests
    refine hsplit.symm.trans (List.Perm.append hdue.symm ?_)
    refine List.Perm.trans ?_ hpipe.symm
    refine List.Perm.of_eq (List.filter_congr fun r _ => ?_)
    simp
  have hlen : due.length + n.prefillRemaining.entries.length = n.runningRequests.length := by
    rw [hrunning.length_eq, List.length_append, PyDict.length_keys]
  refine ⟨rfl, hb.decoding, rfl, hqueue.symm, fun e he => ?_, hrunning, ?_, fun e he => ?_,
    fun e he => ?_, hlen ▸ hb.fits.running_le, fun hne => hlen ▸ hb.fits.full fun hnil => ?_⟩
  · obtain ⟨q, hq, rfl⟩ := List.mem_map.1 he
    obtain ⟨st, u, hst, -, hu, -⟩ := hb.queued q hq
    have hunc : n.uncachedOf q = some u := by rw [uncachedOf, hst, Option.bind_some, hu]
    rw [hunc, Option.getD_some]
  · rw [List.map_append, hkeys, hqueue, ← List.append_assoc]
    exact (hrunning.append_right _).nodup_iff.1 hb.nodup
  · have hget : n.prefillRemaining.get? e.1 = some e.2 := PyDict.get?_eq_some_iff.2 he
    obtain ⟨st, -, hst⟩ := hb.running e.1 (hb.pipeline e.1 (PyDict.mem_keys_of_get? hget))
    rcases hst with ⟨u, hu, hpos, -⟩ | ⟨hnone, -⟩
    · obtain rfl := Option.some_inj.1 (hu.symm.trans hget)
      exact hpos
    · rw [hnone] at hget
      cases hget
  · obtain ⟨q, hq, rfl⟩ := List.mem_map.1 he
    obtain ⟨st, u, hst, -, hu, hpos⟩ := hb.queued q hq
    have hunc : n.uncachedOf q = some u := by rw [uncachedOf, hst, Option.bind_some, hu]
    rw [hunc]
    exact hpos
  · rw [queuedWork, hnil] at hne
    exact hne rfl

/-- The request is admitted to a free slot. -/
theorem Boundary.start (hb : n.Boundary) (hdue : due.Perm n.prefilled) (hroom : n.HasRoom)
    (hr : r ∉ n.runningRequests) (promptLen out : ℤ) {u : ℤ} (hu : 0 ≤ u) :
    ∃ n₁ n₂, (admitRequest r out (some promptLen) (some u)).run n = .ok true n₁ ∧
      (beginPrefill r u).run n₁ = .ok (if u = 0 then [r] else []) n₂ ∧
      Driven n.modelConfig (due ++ if u = 0 then [r] else [])
        (n.prefillRemaining.entries ++ if u = 0 then [] else [(r, u)]) [] n₂ := by
  have hd := hb.driven hdue
  have hqueue : n.queue = [] := by
    by_contra hne
    have hroom' : n.runningRequests.length < n.nodeConfig.capacity := hroom
    exact absurd (hb.fits.full hne) (not_le.2 hroom')
  have hwaiting : n.queuedWork = [] := by rw [queuedWork, hqueue, List.map_nil]
  rw [hwaiting] at hd
  obtain ⟨n₁, hadm, hb₁⟩ := run_admitRequest_room r out (some promptLen) (some u) hroom
  have hmem : r ∈ n₁.runningRequests := by
    rw [hb₁.runningRequests]
    exact List.mem_append_right _ (List.mem_singleton_self r)
  obtain ⟨n₂, hbegin, hb₂⟩ := run_beginPrefill (w := u) hmem
  have hnew : r ∉ n.prefillRemaining.keys := fun hk => hr (hb.pipeline r hk)
  have hlen : due.length + n.prefillRemaining.entries.length = n.runningRequests.length := by
    rw [hd.running.length_eq, List.length_append, List.length_map]
  have hnotmem : r ∉ due ++ n.prefillRemaining.entries.map Prod.fst := fun hmem' =>
    hr (hd.running.mem_iff.2 hmem')
  have hroom' : n.runningRequests.length + 1 ≤ n.nodeConfig.capacity := hroom
  refine ⟨n₁, n₂, hadm, hbegin, ?_, ?_, ?_, ?_, List.forall_mem_nil _, ?_, ?_, ?_,
    List.forall_mem_nil _, ?_, fun h => absurd rfl h⟩
  · rw [hb₂.modelConfig, hb₁.modelConfig]
  · rw [hb₂.decoding, hb₁.decoding, hb.decoding]
  · rw [hb₂.prefillRemaining, hb₁.prefillRemaining]
    split
    · rw [List.append_nil]
    · rw [PyDict.entries_set_of_notMem _ hnew]
  · rw [hb₂.queue, hb₁.queue, hqueue, List.map_nil]
  · rw [hb₂.runningRequests, hb₁.runningRequests]
    refine (hd.running.append_right [r]).trans ?_
    split
    · rw [List.append_nil, List.append_assoc, List.append_assoc]
      exact (List.perm_append_comm).append_left due
    · rw [List.append_nil, List.map_append, List.append_assoc]
      exact List.Perm.refl _
  · have hall : ((due ++ n.prefillRemaining.entries.map Prod.fst) ++ [r]).Nodup := by
      refine List.nodup_append.2 ⟨?_, List.nodup_singleton r, fun x hx y hy hxy => ?_⟩
      · have hnd := hd.nodup
        rwa [List.append_nil] at hnd
      · rw [hxy, List.mem_singleton.1 hy] at hx
        exact hnotmem hx
    refine (List.Perm.nodup_iff ?_).2 hall
    split
    · simp only [List.append_nil, List.append_assoc]
      exact (List.perm_append_comm).append_left due
    · simp only [List.append_nil, List.map_append, List.append_assoc]
      exact List.Perm.refl _
  · intro e he
    rcases List.mem_append.1 he with he | he
    · exact hd.pos e he
    · split at he
      · cases he
      · rename_i hne
        rw [List.mem_singleton.1 he]
        change 0 < u
        omega
  · rw [hb₂.nodeConfig, hb₁.nodeConfig]
    split <;> simp only [List.append_nil, List.length_append, List.length_singleton] <;> omega

/-- The request is admitted to the queue. -/
theorem Boundary.wait (hb : n.Boundary) (hdue : due.Perm n.prefilled) (hroom : ¬ n.HasRoom)
    (hr : r ∉ n.runningRequests ++ n.queue) (promptLen out : ℤ) {u : ℤ} (hu : 0 ≤ u) :
    ∃ n₁, (admitRequest r out (some promptLen) (some u)).run n = .ok false n₁ ∧
      Driven n.modelConfig due n.prefillRemaining.entries (n.queuedWork ++ [(r, u)]) n₁ := by
  have hd := hb.driven hdue
  obtain ⟨n₁, hadm, hb₁, hunc⟩ := run_admitRequest_full r out u (some promptLen) hroom
  have hqueue : n.queuedWork.map Prod.fst = n.queue := by
    rw [queuedWork, List.map_map]
    exact List.map_id _
  have hnotmem : r ∉ due ++ (n.prefillRemaining.entries ++ n.queuedWork).map Prod.fst := by
    rw [List.map_append, hqueue, ← List.append_assoc]
    refine fun hmem => hr (List.mem_append.2 ((List.mem_append.1 hmem).imp_left ?_))
    exact hd.running.mem_iff.2
  refine ⟨n₁, hadm, hb₁.modelConfig, hb₁.decoding.trans hb.decoding, by rw [hb₁.prefillRemaining],
    ?_, fun e he => ?_, ?_, ?_, hd.pos, fun e he => ?_, ?_, fun _ => ?_⟩
  · rw [hb₁.queue, List.map_append, hqueue]
    rfl
  · rcases List.mem_append.1 he with he | he
    · have hne : e.1 ≠ r := fun heq => hnotmem (List.mem_append_right _ (heq ▸
        List.mem_map_of_mem (List.mem_append_right _ he)))
      rw [hb₁.uncachedOf e.1 hne]
      exact hd.works e he
    · rw [List.mem_singleton.1 he, hunc, max_eq_right hu]
  · rw [hb₁.runningRequests]
    exact hd.running
  · rw [← List.append_assoc, List.map_append, ← List.append_assoc]
    refine List.nodup_append.2 ⟨hd.nodup, List.nodup_singleton r, fun x hx y hy hxy => ?_⟩
    rw [hxy, List.mem_singleton.1 hy] at hx
    exact hnotmem hx
  · rcases List.mem_append.1 he with he | he
    · exact hd.nonneg e he
    · rw [List.mem_singleton.1 he]
      exact hu
  · rw [hb₁.nodeConfig]
    exact hd.fits
  · have hlen : due.length + n.prefillRemaining.entries.length = n.runningRequests.length := by
      rw [hd.running.length_eq, List.length_append, List.length_map]
    rw [hb₁.nodeConfig, hlen]
    exact not_lt.1 hroom

/-- **The prefill of a new request takes the time of the work ahead**, whatever fuel is left over. -/
theorem Boundary.run_timeToPrefill (hb : n.Boundary) (hdue : due.Perm n.prefilled)
    (hr : r ∉ n.runningRequests ++ n.queue) (promptLen out : ℤ) {u : ℤ} (hu : 0 ≤ u) :
    ∃ m, ∀ fuel, m < fuel → ∃ n', (timeToPrefill r promptLen out u due fuel).run n =
      .ok (n.workAhead u * n.modelConfig.prefillCostPerTokenMs) n' := by
  have hd := hb.driven hdue
  have hrdue : r ∉ due := fun hmem => hr (List.mem_append_left _ (hd.running.mem_iff.2
    (List.mem_append_left _ hmem)))
  by_cases hroom : n.HasRoom
  · obtain ⟨n₁, n₂, hadm, hbegin, hd₂⟩ := hb.start hdue hroom
      (fun h => hr (List.mem_append_left _ h)) promptLen out hu
    have hqueue : n.queuedWork = [] := by
      have hnil : n.queue = [] := by
        by_contra hne
        have hroom' : n.runningRequests.length < n.nodeConfig.capacity := hroom
        exact absurd (hb.fits.full hne) (not_le.2 hroom')
      rw [queuedWork, hnil, List.map_nil]
    have ha : Ahead r (due ++ if u = 0 then [r] else [])
        (n.prefillRemaining.entries ++ if u = 0 then [] else [(r, u)]) [] (n.workAhead u) := by
      by_cases hzero : u = 0
      · subst hzero
        rw [workAhead, if_neg (lt_irrefl 0), if_pos hroom]
        exact .due (by simp)
      · have hpos : 0 < u := by omega
        rw [if_neg hzero, if_neg hzero, workAhead, if_pos hpos, hqueue, work_nil, add_zero]
        have hlast := @Ahead.last r (due ++ []) (n.prefillRemaining.entries ++ [(r, u)]) [] _ _
          (by simpa using hrdue) hpos (List.append_nil _)
        simpa using hlast
    have hdrive := Driven.run_drivePrefill _ 0 hd₂ ha rfl
    refine ⟨_, fun fuel hfuel => (hdrive fuel hfuel).imp fun n' hrun => ?_⟩
    rw [timeToPrefill, Py.run_bind_ok hadm, if_pos rfl, Py.run_bind_ok hbegin, hrun, zero_add]
  · obtain ⟨n₁, hadm, hd₁⟩ := hb.wait hdue hroom hr promptLen out hu
    have ha : Ahead r due n.prefillRemaining.entries (n.queuedWork ++ [(r, u)]) (n.workAhead u) := by
      by_cases hzero : u = 0
      · subst hzero
        rw [workAhead, if_neg (lt_irrefl 0), if_neg hroom, ← hdue.length_eq]
        exact .slot hrdue rfl
      · have hpos : 0 < u := by omega
        rw [workAhead, if_pos hpos]
        have hlast := @Ahead.last r due n.prefillRemaining.entries (n.queuedWork ++ [(r, u)]) _ _
          hrdue hpos (List.append_assoc ..).symm
        simpa [add_assoc] using hlast
    have hdrive := Driven.run_drivePrefill _ 0 hd₁ ha rfl
    refine ⟨_, fun fuel hfuel => (hdrive fuel hfuel).imp fun n' hrun => ?_⟩
    have hpure : (pure [] : Py MockEngineNode (List RequestId)).run n₁ = .ok [] n₁ := rfl
    rw [timeToPrefill, Py.run_bind_ok hadm, if_neg Bool.false_ne_true, Py.run_bind_ok hpure]
    dsimp only
    rw [List.append_nil, hrun, zero_add]

end Drive

/-! ### What the estimate charges -/

/-- The decode tokens that the record of a request leaves, where `out` stands in for an unknown
output length. -/
def outputLeft (st : NodeRequestState) (out : ℤ) : ℤ :=
  max 0 ((if st.expectedOutputLen = 0 ∧ st.hasPromptLen = false then out
    else st.expectedOutputLen) - st.generatedTokens)

/-- The time for which a running or queued request is taken to hold a slot: its uncached tokens and
its output at the full batch size, and nothing once its prefill is done. -/
def slotTime (n : MockEngineNode) (out : ℤ) (r : RequestId) : Time :=
  match n.states.get? r with
  | none => 0
  | some st =>
      let outputTime : Time := outputLeft st out * (n.modelConfig.decodeBaseMs +
        n.runningRequests.length * n.modelConfig.marginalDecodeMs)
      match n.prefillRemaining.get? r with
      | some u => u * n.modelConfig.prefillCostPerTokenMs + outputTime
      | none =>
          if r ∈ n.runningRequests then 0
          else (n.uncachedOf r).getD 0 * n.modelConfig.prefillCostPerTokenMs + outputTime

/-- The time that is charged for the chunks of `u` uncached tokens: full chunks, each with a decode
step of one stream. -/
def paddedTime (cfg : ModelConfig) (u : ℤ) : Time :=
  ((u + cfg.prefillChunkSize - 1) / (cfg.prefillChunkSize : ℤ) : ℤ) *
    (cfg.prefillChunkSize * cfg.prefillCostPerTokenMs + cfg.decodeBaseMs + cfg.marginalDecodeMs)

/-- A new request gets its slot after `wait`: at once, if there is room, and else when the running
requests have been served side by side and the queued ones after them, in order. -/
def SlotAfter (n : MockEngineNode) (out : ℤ) (wait : Time) : Prop :=
  if n.HasRoom then wait = 0
  else ∃ slots, Serves (n.runningRequests.map (n.slotTime out) : List Time)
    (n.queue.map (n.slotTime out)) slots ∧ Earliest slots wait

/-- The work ahead of a new request with `u` uncached tokens fits into its wait for a slot and its
padded chunks. -/
def Covered (n : MockEngineNode) (u out : ℤ) : Prop :=
  ∀ wait, n.SlotAfter out wait →
    n.workAhead u * n.modelConfig.prefillCostPerTokenMs ≤ wait + paddedTime n.modelConfig u

section Estimate

variable {n : MockEngineNode} {r : RequestId} {due : List RequestId}

/-- The estimate of a prefill pads its chunks. -/
theorem estimatePrefillTime_eq (n : MockEngineNode) (promptLen matched : ℤ) :
    n.estimatePrefillTime promptLen matched (some 1) =
      paddedTime n.modelConfig (max 0 (promptLen - matched)) := by
  have hchunk := n.modelConfig.one_le_prefillChunkSize
  have hdiv : ((0 : ℤ) + n.modelConfig.prefillChunkSize - 1) / n.modelConfig.prefillChunkSize = 0 :=
    Int.ediv_eq_zero_of_lt (by omega) (by omega)
  by_cases hu : 0 < max 0 (promptLen - matched)
  · simp only [estimatePrefillTime, paddedTime, gt_iff_lt, if_pos hu, Int.cast_one, one_mul,
      Int.cast_natCast]
  · have hzero : max 0 (promptLen - matched) = 0 := by omega
    simp only [estimatePrefillTime, paddedTime, hzero, hdiv, gt_iff_lt, lt_self_iff_false, if_false,
      Int.cast_zero, zero_mul]

/-- The work that the waiting estimate charges a blocker. -/
theorem Boundary.remainingLifecycleMs_eq (hb : n.Boundary) (hne : n.runningRequests ≠ [])
    {q : RequestId} (hq : q ∈ n.runningRequests ++ n.queue) (promptLen out : ℤ) :
    n.remainingLifecycleMs (n.stateForWait q) (some promptLen) (some out) = n.slotTime out q := by
  have hstep : n.waitDecodeStepMs = n.modelConfig.decodeBaseMs +
      n.runningRequests.length * n.modelConfig.marginalDecodeMs := by
    have hpos := List.length_pos_of_ne_nil hne
    rw [waitDecodeStepMs, hb.decoding, Finset.card_empty, max_eq_right (Nat.zero_le _),
      max_eq_left (show 1 ≤ n.runningRequests.length from hpos)]
  rcases List.mem_append.1 hq with hrun | hqueue
  · obtain ⟨st, hst, hphase⟩ := hb.running q hrun
    rcases hphase with ⟨u, hu, hpos, hp, hrem⟩ | ⟨hnone, hp, hblock⟩
    · simp only [remainingLifecycleMs, stateForWait, hst, hp, hstep, slotTime, hu, hrem, outputLeft,
        max_eq_right hpos.le, Option.getD_some, reduceCtorEq, false_and, if_false, or_self,
        if_true]
    · simp only [remainingLifecycleMs, stateForWait, hst, hp, hblock, slotTime, hnone, hrun,
        and_self, if_true]
  · obtain ⟨st, u, hst, hp, hu, hpos⟩ := hb.queued q hqueue
    have hnot : q ∉ n.runningRequests := fun hrun =>
      (List.nodup_append.1 hb.nodup).2.2 q hrun q hqueue rfl
    have hnone : n.prefillRemaining.get? q = none :=
      PyDict.get?_eq_none_iff.2 fun hk => hnot (hb.pipeline q hk)
    have hunc : n.uncachedOf q = some u := by rw [uncachedOf, hst, Option.bind_some, hu]
    simp only [remainingLifecycleMs, stateForWait, hst, hp, hstep, slotTime, hnone, hnot, hunc, hu,
      outputLeft, max_eq_right hpos, Option.getD_some, reduceCtorEq, false_and, if_false, or_self]

/-- The waiting estimate is the wait for a slot. -/
theorem Boundary.slotAfter_iff (hb : n.Boundary) (promptLen out : ℤ) (wait : Time) :
    n.SlotAfter out wait ↔ n.queueWaitTime (some promptLen) (some out) = wait := by
  by_cases hroom : n.HasRoom
  · have hroom' : n.runningRequests.length < n.nodeConfig.capacity := hroom
    rw [SlotAfter, queueWaitTime, if_pos hroom, if_pos hroom']
    exact eq_comm
  · rw [SlotAfter, if_neg hroom]
    have hne : n.runningRequests ≠ [] := by
      rintro hnil
      have hcap := n.nodeConfig.one_le_capacity
      rw [HasRoom, hnil, List.length_nil] at hroom
      omega
    have hrunning : n.runningRequests.map (n.blockerWork (some promptLen) (some out)) =
        n.runningRequests.map (n.slotTime out) := List.map_congr_left fun q hq =>
      hb.remainingLifecycleMs_eq hne (List.mem_append_left _ hq) promptLen out
    have hqueue : n.queue.map (n.blockerWork (some promptLen) (some out)) =
        n.queue.map (n.slotTime out) := List.map_congr_left fun q hq =>
      hb.remainingLifecycleMs_eq hne (List.mem_append_right _ hq) promptLen out
    obtain ⟨slots, hserves, hearly⟩ :=
      @queueWaitTime_serves n (some promptLen) (some out) hroom (Or.inl rfl)
    rw [hrunning, hqueue] at hserves
    constructor
    · rintro ⟨slots', hslots', hearly'⟩
      rw [hslots'.unique hserves] at hearly'
      exact hearly.unique hearly'
    · rintro rfl
      exact ⟨slots, hserves, hearly⟩

end Estimate

/-! ### A long prefill -/

/-- A node with the default constants whose pipeline has a prefill of a thousand tokens. -/
def longPrefill : MockEngineNode :=
  ((do
    let _ ← admitRequest "a" 1 (some 1000) (some 1000)
    enterPrefill "a" 1000 : Py MockEngineNode Unit).run (.init "p0" .defaults .defaults)).state

theorem boundary_longPrefill : longPrefill.Boundary where
  decoding := by decide +kernel
  nodup := by decide +kernel
  fits := ⟨by decide +kernel, by decide +kernel⟩
  pipeline := by decide +kernel
  running := by
    have hall : longPrefill.runningRequests = ["a"] := by decide +kernel
    intro r hr
    rw [hall] at hr
    obtain rfl := List.mem_singleton.1 hr
    refine ⟨⟨"a", 1000, 1, .prefilling, some 1000, 1000, 0, true, true⟩, by decide +kernel, ?_⟩
    exact Or.inl ⟨1000, by decide +kernel, by decide, rfl, rfl⟩
  queued := by
    have hnil : longPrefill.queue = [] := by decide +kernel
    intro r hr
    rw [hnil] at hr
    cases hr

end MockEngineNode

end NanoKVRouter
