/-
**The simulator moves requests through their stages.**

Every turn of the engine takes every request from the stage it is in to the same stage or to the next
one: the handlers refine the life of a request.  The invariants over whole runs that concern single
requests follow from this refinement.

The one thing that can go wrong is the completion of a stream on a node with a queue: it promotes a
queued request that nobody starts.  The refinement is therefore stated for turns that complete
streams on nodes with an empty queue only; with disjoint pools every turn is one.

Main definitions:

* `Lives` — every request is in its stage;
* `Advances` — a turn takes a request to a stage that the bookkeeping agrees with;
* `AllFit` — every node runs at most its capacity, and queues requests only when it is full;
* `Staged` — the invariant of a run.

Main results:

* `Handles.moves` — **handling an event moves every request**;
* `Wiring.TurnOf.staged` — **so does a turn of the engine**.
-/

import NanoKVRouter.RequestViews

set_option relaxedAutoImplicit false
set_option autoImplicit false

namespace NanoKVRouter

/-! ### The handlers move the requests -/

/-- The turn takes the request from its stage to one that the bookkeeping agrees with. -/
def Advances {ς : Type} (w : Wiring ς) (now : Time) (p : Payload) (out : List (Time × Payload))
    (b' : Bookkeeping) (r : RequestId) (st : Stage) : Prop :=
  ∃ st', Stage.Moves now p out r st st' ∧ Kept b' r st' ∧ st'.Valid w.prefillIds w.decodeIds r

/-- Every request is in its stage, and the event that is handled is the one that carries its
request on. -/
structure Lives {ς : Type} (w : Wiring ς) (b : Bookkeeping) (p : Payload)
    (stage : RequestId → Stage) : Prop where
  kept : ∀ r, Kept b r (stage r)
  valid : ∀ r, (stage r).Valid w.prefillIds w.decodeIds r
  carried : ∀ r, p.Carries r → (stage r).pending r = {p}

section Handlers

variable {ς : Type} {w : Wiring ς} {now : Time} {u : ℤ} {b b' : Bookkeeping} {p : Payload}
  {out : List (Time × Payload)} {stage : RequestId → Stage} {r r' : RequestId}

/-- An event that does not concern the request, and changes nothing for it. -/
theorem Lives.stay (h : Lives w b p stage) (hp : ¬ p.Carries r) (hout : own r out = [])
    (hk : Kept b' r (stage r)) : Advances w now p out b' r (stage r) :=
  ⟨stage r, .stay _ hp hout, hk, h.valid r⟩

theorem not_carries_of_ne (hp : p.owner = some r') (hr : r ≠ r') : ¬ p.Carries r := fun hc =>
  hr (Option.some_inj.1 (hc.1.symm.trans hp))

/-- What a node has of a request. -/
theorem Kept.viewOf {st : Stage} {x : NodeId} {n : MockEngineNode} (h : Kept b r st)
    (hn : b.nodes.get? x = some n) : n.viewOf r = st.node x := by
  rw [← h.node x, Bookkeeping.nodeView_of_get? hn]

theorem own_wakeEvents (id : NodeId) (t : Time) : own r (b.wakeEvents id t) = [] := by
  refine own_eq_nil fun e he => ?_
  rw [(Bookkeeping.mem_wakeEvents he).1]
  exact fun h => by cases h

theorem moves_arriveRejected {req : Request} {reason : Option String}
    (hl : Lives w b (.requestArrive req) stage) (r : RequestId) :
    Advances w now (.requestArrive req) [(now, .requestRejected req.requestId reason)] b r
      (stage r) := by
  by_cases hr : r = req.requestId
  · have hst := Stage.eq_arriving (hl.carried r ⟨congrArg some hr.symm, rfl⟩)
    have hk := hl.kept r
    have hv := hl.valid r
    rw [hst] at hk hv ⊢
    exact ⟨_, .reject rfl (by rw [hr]; exact own_cons_self rfl),
      ⟨hk.node, hk.assignment, hk.stored, hk.transfers, hk.entered⟩, hv⟩
  · refine hl.stay (not_carries_of_ne rfl hr) (own_cons_of_ne ?_) (hl.kept r)
    exact fun h => hr (Option.some_inj.1 h).symm

theorem moves_arriveAdmitted {req : Request} {p d : NodeId} {dec : SchedulingDecision} {mt : ℕ}
    {mb : PyDict Tier ℕ} {v : ℤ} {running : Bool} {n n' : MockEngineNode}
    {started : List (Time × Payload)} (hp : p ∈ w.prefillIds) (hn : b.nodes.get? p = some n)
    (hop : (MockEngineNode.admitRequest req.requestId req.expectedOutputLen
      (some req.tokenIds.length) (some v)).run n = .ok running n')
    (hstarted : if running then ∃ k, started = [(now, .prefillStart req.requestId p req k)]
      else started = [])
    (hl : Lives w b (.requestArrive req) stage) (r : RequestId) :
    Advances w now (.requestArrive req) ((now, .scheduled req.requestId dec mt mb) :: started)
      { b.setNode p n' with
        decisions := b.decisions.set req.requestId ⟨p, d⟩
        requests := b.requests.set req.requestId req } r (stage r) := by
  obtain ⟨hrunning, hs⟩ := MockEngineNode.run_admitRequest hop
  have hstarted' : ∀ e ∈ started, e.2.owner = some req.requestId := by
    intro e he
    cases running with
    | true =>
        obtain ⟨k, rfl⟩ := hstarted
        rw [List.mem_singleton.1 he]
        rfl
    | false =>
        obtain rfl := hstarted
        cases he
  by_cases hr : r = req.requestId
  swap
  · refine hl.stay (not_carries_of_ne rfl hr) (own_eq_nil fun e he howner => hr ?_) ?_
    · rcases List.mem_cons.1 he with rfl | he
      · exact (Option.some_inj.1 howner).symm
      · exact Option.some_inj.1 (howner.symm.trans (hstarted' e he))
    · have hview : n'.viewOf r = n.viewOf r := by
        rw [hs.viewOf, MockEngineNode.viewOf_admitted_of_ne hr]
      exact ((hl.kept r).setNode hn hview).congr (fun _ => rfl)
        (PyDict.get?_set_of_ne _ _ hr) (PyDict.get?_set_of_ne _ _ hr) rfl rfl
  · -- the request that arrives
    have hst := Stage.eq_arriving (hl.carried r ⟨congrArg some hr.symm, rfl⟩)
    have hk := hl.kept r
    rw [hst] at hk ⊢
    have hidle : n.viewOf r = .idle := hk.viewOf hn
    have hnode : ∀ y, b.nodeView y r = only p .idle y := by
      intro y
      rw [hk.node y, Bookkeeping.only_idle]
      rfl
    have hkept : ∀ st' : Stage, st'.assignment = some ⟨p, d⟩ → st'.stored = some req →
        st'.transfers r = [] → st'.entered = 0 → (∀ x, st'.node x = only p (n'.viewOf r) x) →
        Kept { b.setNode p n' with
          decisions := b.decisions.set req.requestId ⟨p, d⟩
          requests := b.requests.set req.requestId req } r st' := by
      intro st' ha hq ht he hx
      refine ⟨fun x => ?_, ?_, ?_, ?_, ?_⟩
      · rw [hx x]
        exact Bookkeeping.nodeView_setNode_only hnode rfl x
      · rw [ha, hr]
        exact PyDict.get?_set_self ..
      · rw [hq, hr]
        exact PyDict.get?_set_self ..
      · rw [ht]
        exact hk.transfers
      · rw [he]
        exact hk.entered
    by_cases hroom : n.HasRoom
    · simp only [hrunning, hroom, decide_true, if_true] at hstarted
      obtain ⟨k, rfl⟩ := hstarted
      have hview : n'.viewOf r = .slot 0 req.expectedOutputLen := by
        rw [hs.viewOf, hr, MockEngineNode.viewOf_admitted_room hroom (hr ▸ hidle)]
      refine ⟨.starting req ⟨p, d⟩ k, .start (q := .scheduled req.requestId dec mt mb) rfl ?_ rfl,
        hkept _ rfl rfl rfl rfl (fun x => by rw [hview]; rfl), hr.symm, hp⟩
      rw [hr, own_cons_self rfl, own_cons_self rfl]
      rfl
    · simp only [hrunning, hroom, decide_false, Bool.false_eq_true, if_false] at hstarted
      subst hstarted
      have hview : n'.viewOf r = .queuedOnly := by
        rw [hs.viewOf, hr, MockEngineNode.viewOf_admitted_full hroom (hr ▸ hidle)]
      refine ⟨.waiting req ⟨p, d⟩, .queue (q := .scheduled req.requestId dec mt mb) rfl ?_ rfl,
        hkept _ rfl rfl rfl rfl (fun x => by rw [hview]; rfl), hr.symm, hp⟩
      rw [hr, own_cons_self rfl]
      rfl

theorem moves_startCached {p : NodeId} {req : Request} {k : ℤ} {n n' : MockEngineNode}
    (hn : b.nodes.get? p = some n) (hop : (MockEngineNode.markPrefillDone r').run n = .ok () n')
    (hl : Lives w b (.prefillStart r' p req k) stage) (r : RequestId) :
    Advances w now (.prefillStart r' p req k) [(now, .prefillComplete r' p req)] (b.setNode p n') r
      (stage r) := by
  have hs := (MockEngineNode.run_markPrefillDone hop).2
  have hkept := (hl.kept r).setNode hn (hs.viewOf r)
  by_cases hr : r = r'
  · subst hr
    obtain ⟨a, hst, rfl⟩ := Stage.eq_starting (hl.carried r ⟨rfl, rfl⟩)
    have hv := hl.valid r
    rw [hst] at hkept hv ⊢
    exact ⟨.prefilled req a, .skip rfl (own_cons_self rfl),
      ⟨hkept.node, hkept.assignment, hkept.stored, hkept.transfers, hkept.entered⟩, hv⟩
  · refine hl.stay (not_carries_of_ne rfl hr) (own_cons_of_ne ?_) hkept
    exact fun h => hr (Option.some_inj.1 h).symm

theorem moves_startPipeline {p : NodeId} {req : Request} {k : ℤ} {n n' : MockEngineNode}
    (hn : b.nodes.get? p = some n) (hu : 0 < u) (hlen : u ≤ req.tokenIds.length)
    (hop : (MockEngineNode.enterPrefill r' u).run n = .ok () n')
    (hl : Lives w b (.prefillStart r' p req k) stage) (r : RequestId) :
    Advances w now (.prefillStart r' p req k) ((b.setNode p n').wakeEvents p now)
      ((b.setNode p n').wake p) r (stage r) := by
  have hs := (MockEngineNode.run_enterPrefill hop).2
  by_cases hr : r = r'
  · subst hr
    obtain ⟨a, hst, rfl⟩ := Stage.eq_starting (hl.carried r ⟨rfl, rfl⟩)
    have hk := hl.kept r
    have hv := hl.valid r
    rw [hst] at hk hv ⊢
    have hview : n'.viewOf r =
        { NodeView.slot 0 req.expectedOutputLen with pipeline := some u } := by
      have hn' : n.viewOf r = .slot 0 req.expectedOutputLen := by
        rw [hk.viewOf hn]
        exact only_self ..
      simp only [MockEngineNode.viewOf, NodeView.slot, NodeView.mk.injEq] at hn'
      obtain ⟨h₁, h₂, h₃, -, h₅, h₆⟩ := hn'
      rw [hs.viewOf]
      simp only [MockEngineNode.viewOf, NodeView.slot, PyDict.get?_set_self, h₁, h₂, h₃, h₅, h₆]
    refine ⟨.prefilling req a u, .pipeline rfl (own_wakeEvents _ _) hlen, Kept.wake ?_ _,
      hv.1, hv.2, hu, hlen⟩
    exact ⟨Bookkeeping.nodeView_setNode_only hk.node hview, hk.assignment, hk.stored,
      hk.transfers, hk.entered⟩
  · refine hl.stay (not_carries_of_ne rfl hr) (own_wakeEvents _ _)
      (((hl.kept r).setNode hn ?_).wake p)
    rw [hs.viewOf]
    simp only [MockEngineNode.viewOf, PyDict.get?_set_of_ne _ _ hr]

/-- The transfers of a request, when one is recorded under a new id. -/
theorem filter_set_transfers {d : PyDict String PendingTransfer} {tid : String}
    {info : PendingTransfer} (h : tid ∉ d.keys) (r : RequestId) :
    (d.set tid info).entries.filter (fun e => e.2.requestId = r) =
      d.entries.filter (fun e => e.2.requestId = r) ++
        if info.requestId = r then [(tid, info)] else [] := by
  rw [PyDict.entries_set_of_notMem _ h, List.filter_append]
  by_cases hr : info.requestId = r <;> simp [hr]

/-- The digits after the last dash are determined by the whole. -/
theorem append_digits_injective {l l' a b : List Char} (ha : ∀ c ∈ a, c.isDigit = true)
    (hb : ∀ c ∈ b, c.isDigit = true) (h : l ++ '-' :: a = l' ++ '-' :: b) : l = l' := by
  have hrev := congrArg List.reverse h
  simp only [List.reverse_append, List.reverse_cons, List.append_assoc, List.cons_append,
    List.nil_append] at hrev
  have htake := congrArg (List.takeWhile Char.isDigit) hrev
  have hdash : Char.isDigit '-' = false := by decide
  rw [List.takeWhile_append_of_pos (by simpa using ha),
    List.takeWhile_append_of_pos (by simpa using hb), List.takeWhile_cons_of_neg (by simp [hdash]),
    List.takeWhile_cons_of_neg (by simp [hdash]), List.append_nil, List.append_nil,
    List.reverse_inj] at htake
  rw [htake] at h
  exact List.append_cancel_right h

/-- The transfer id of a request names the request. -/
theorem transferId_injective {r r' : RequestId} {m n : ℕ}
    (h : r ++ "-xfer-" ++ toString m = r' ++ "-xfer-" ++ toString n) : r = r' := by
  have hdigits : ∀ k : ℕ, ∀ c ∈ (toString k).toList, c.isDigit = true := by
    intro k c hc
    rw [Nat.toString_eq_repr, Nat.toList_repr] at hc
    exact Nat.isDigit_of_mem_toDigits (by omega) (by omega) hc
  have hsplit : ∀ (q : RequestId) (k : ℕ), (q ++ "-xfer-" ++ toString k).toList =
      (q.toList ++ "-xfer".toList) ++ '-' :: (toString k).toList := by
    intro q k
    rw [String.toList_append, String.toList_append, List.append_assoc, List.append_assoc]
    rfl
  have hlist := congrArg String.toList h
  rw [hsplit, hsplit] at hlist
  have hpre := append_digits_injective (hdigits m) (hdigits n) hlist
  exact String.toList_inj.1 (List.append_cancel_right hpre)

/-- The id of a transfer that is started is new. -/
theorem Lives.transferId_notMem (hl : Lives w b p stage) {req : Request} {a : Assignment}
    (hst : stage r = .prefilled req a) (n : ℕ) :
    r ++ "-xfer-" ++ toString n ∉ b.pendingTransfers.keys := by
  intro hmem
  obtain ⟨info, hinfo⟩ := PyDict.mem_keys.1 hmem
  have hin : (r ++ "-xfer-" ++ toString n, info) ∈
      b.pendingTransfers.entries.filter fun e => e.2.requestId = info.requestId :=
    List.mem_filter.2 ⟨hinfo, by simp⟩
  have hv := hl.valid info.requestId
  rw [(hl.kept info.requestId).transfers] at hin
  cases hs : stage info.requestId with
  | transferring req' a' base =>
      rw [hs] at hin hv
      rw [Stage.transfers, List.mem_singleton, Prod.mk.injEq] at hin
      obtain ⟨-, -, m, hm⟩ := hv
      have hid : info.requestId = r := transferId_injective (hm.symm.trans hin.1.symm)
      rw [hid, hst] at hs
      cases hs
  | _ =>
      rw [hs] at hin
      cases hin

/-- The request that a completion on the node `p` promotes waits for that node. -/
theorem Lives.promoted_waiting (hl : Lives w b p stage) {x : NodeId} {n : MockEngineNode}
    (hn : b.nodes.get? x = some n) (hr : r ∈ n.runningRequests) {q : RequestId}
    (hq : (n.without r).nextPromoted = some q) :
    ∃ req a, stage q = .waiting req a ∧ a.prefillNode = x := by
  have hmem : q ∈ n.queue := by
    rw [MockEngineNode.nextPromoted] at hq
    split at hq
    · have hhead := List.mem_of_mem_head? (Option.mem_def.2 hq)
      rwa [MockEngineNode.without, if_pos hr] at hhead
    · cases hq
  refine Stage.eq_waiting ?_
  rw [← (hl.kept q).viewOf hn]
  exact (List.count_pos_iff.2 hmem).ne'

/-- The start of a promoted request changes nothing for the others. -/
theorem promotes_other {x : NodeId} {b₀ b₁ : Bookkeeping} {pr : Option RequestId}
    {started : List (Time × Payload)} (hpr : pr ≠ some r) (h : Promotes now x b₀ pr started b₁) :
    (∀ y, b₁.nodeView y r = b₀.nodeView y r) ∧ own r started = [] := by
  cases h with
  | none => exact ⟨fun _ => rfl, rfl⟩
  | missing q h => exact ⟨fun _ => rfl, rfl⟩
  | @start q req a v k m m' hreq ha hm hop =>
      have hne : r ≠ q := fun h => hpr (h ▸ rfl)
      have hs := (MockEngineNode.run_initPromoted hop).2
      refine ⟨Bookkeeping.nodeView_setNode_same hm ?_,
        own_cons_of_ne fun h => hne (Option.some_inj.1 h).symm⟩
      rw [hs.viewOf]
      simp only [MockEngineNode.viewOf, PyDict.get?_set_of_ne _ _ hne]

/-- The request that is promoted starts its prefill. -/
theorem promotes_self {x : NodeId} {n' : MockEngineNode} {started : List (Time × Payload)}
    {b₁ : Bookkeeping} {req : Request} {a : Assignment} (hx : a.prefillNode = x)
    (hview : n'.viewOf r = { NodeView.queuedOnly with running := 1, queued := 0 })
    (h : Promotes now x ((b.setNode x n').promoted x (some r)) (some r) started b₁)
    (hk : Kept b r (.waiting req a)) :
    ∃ k, Kept b₁ r (.starting req a k) ∧ own r started = [(now, .prefillStart r x req k)] := by
  cases h with
  | missing _ h =>
      rcases h with h | h
      · cases hk.stored.symm.trans h
      · cases hk.assignment.symm.trans h
  | @start _ req' a' v k m m' hreq ha hm hop =>
      have hs := (MockEngineNode.run_initPromoted hop).2
      obtain rfl : req = req' := Option.some_inj.1 (hk.stored.symm.trans hreq)
      have hm' : n' = m := Option.some_inj.1 ((PyDict.get?_set_self _ _ _).symm.trans hm)
      subst hm'
      have hview' : m'.viewOf r = .slot 0 req.expectedOutputLen := by
        simp only [MockEngineNode.viewOf, NodeView.queuedOnly, NodeView.mk.injEq] at hview
        obtain ⟨h₁, h₂, h₃, h₄, -, -⟩ := hview
        rw [hs.viewOf]
        simp only [MockEngineNode.viewOf, NodeView.slot, PyDict.get?_set_self, h₁, h₂, h₃, h₄]
      have hnode : ∀ y, (b.setNode x n').nodeView y r =
          only x { NodeView.queuedOnly with running := 1, queued := 0 } y :=
        Bookkeeping.nodeView_setNode_only (fun y => by rw [hk.node y, ← hx]; rfl) hview
      refine ⟨k, ⟨fun y => ?_, hk.assignment, hk.stored, hk.transfers, hk.entered⟩,
        own_cons_self rfl⟩
      rw [Stage.node, hx]
      exact Bookkeeping.nodeView_setNode_only (b := (b.setNode x n').promoted x (some r)) hnode
        hview' y

theorem moves_prefillFinished {p : NodeId} {req : Request} {a : Assignment}
    {n n' : MockEngineNode} {pr : Option RequestId} {started : List (Time × Payload)}
    {b₁ : Bookkeeping} {base : TransferPayload} {t₁ t₂ : Time} {m : ℕ}
    (hn : b.nodes.get? p = some n) (ha : b.decisions.get? r' = some a)
    (hop : Completes n r' pr n')
    (hpr : Promotes now p ((b.setNode p n').promoted p pr) pr started b₁)
    (hid : base.requestId = r') (htid : base.transferId = r' ++ "-xfer-" ++ toString m)
    (hl : Lives w b (.prefillComplete r' p req) stage) (counter : PyDict RequestId ℕ)
    (r : RequestId) :
    Advances w now (.prefillComplete r' p req)
      (started ++ [(t₁, .kvTransferStart base), (t₂, .kvTransferComplete base req)])
      { b₁ with
        transferCounter := counter
        pendingTransfers := b₁.pendingTransfers.set base.transferId
          ⟨r', a.prefillNode, a.decodeNode, base.costMs, req⟩ } r (stage r) := by
  -- the request that has finished its prefill is running on the node
  obtain ⟨a', hst', hpn⟩ := Stage.eq_prefilled (hl.carried r' ⟨rfl, rfl⟩)
  have hk' := hl.kept r'
  rw [hst'] at hk'
  obtain rfl : a' = a := Option.some_inj.1 (hk'.assignment.symm.trans ha)
  have hview' : n.viewOf r' = .slot 0 req.expectedOutputLen := by
    rw [hk'.viewOf hn, ← hpn]
    exact only_self ..
  have hrun : (n.viewOf r').running = 1 := by rw [hview']; rfl
  have hqueued : (n.viewOf r').queued = 0 := by rw [hview']; rfl
  have hmem : r' ∈ n.runningRequests := List.count_pos_iff.1 (by
    change (n.viewOf r').running > 0
    omega)
  obtain ⟨hprom, hn'⟩ := MockEngineNode.completes_eq hop hmem
  have hnew : base.transferId ∉ b.pendingTransfers.keys := by
    rw [htid]
    exact hl.transferId_notMem hst' m
  have hpend : b₁.pendingTransfers = b.pendingTransfers := by
    obtain ⟨nodes, hb⟩ := hpr.eq_nodes
    rw [hb]
    rfl
  have hlast : ∀ q, q ≠ r' → own q [(t₁, .kvTransferStart base), (t₂, .kvTransferComplete base req)] =
      [] := by
    intro q hq
    have hne : base.requestId ≠ q := fun h => hq (h.symm.trans hid)
    have howner : some base.requestId ≠ some q := fun h => hne (Option.some_inj.1 h)
    rw [own_cons_of_ne (e := (t₁, .kvTransferStart base)) howner,
      own_cons_of_ne (e := (t₂, .kvTransferComplete base req)) howner, own_nil]
  have hkept : ∀ q st, q ≠ r' → Kept b₁ q st → Kept { b₁ with
      transferCounter := counter
      pendingTransfers := b₁.pendingTransfers.set base.transferId
        ⟨r', a'.prefillNode, a'.decodeNode, base.costMs, req⟩ } q st := by
    intro q st hq hk
    refine hk.congr (fun _ => rfl) rfl rfl ?_ rfl
    rw [hpend, filter_set_transfers hnew, if_neg (Ne.symm hq), List.append_nil]
  by_cases hr : r = r'
  · subst hr
    have hnot : pr ≠ some r := by
      rw [hprom]
      intro hq
      obtain ⟨req', a'', hw, -⟩ := hl.promoted_waiting hn hmem hq
      rw [hst'] at hw
      cases hw
    have hidle : n'.viewOf r = .idle := by
      rw [hn', MockEngineNode.viewOf_afterPromote_of_ne (hprom ▸ hnot),
        MockEngineNode.viewOf_without_self hrun hqueued]
    obtain ⟨hnode, hown⟩ := promotes_other hnot hpr
    obtain ⟨nodes, hb₁⟩ := hpr.eq_nodes
    have hv := hl.valid r
    rw [hst'] at hv ⊢
    have hout : own r (started ++
        [(t₁, .kvTransferStart base), (t₂, .kvTransferComplete base req)]) =
          [(t₁, .kvTransferStart base), (t₂, .kvTransferComplete base req)] := by
      have howner : some base.requestId = some r := congrArg some hid
      rw [own_append, hown, List.nil_append,
        own_cons_self (e := (t₁, .kvTransferStart base)) howner,
        own_cons_self (e := (t₂, .kvTransferComplete base req)) howner, own_nil]
    refine ⟨.transferring req a' base, .transfer (by rw [hpn]) hout, ⟨fun y => ?_, ?_, ?_, ?_, ?_⟩,
      hv.1, hid, m, htid⟩
    · refine (hnode y).trans ?_
      change (b.setNode p n').nodeView y r = .idle
      rw [Bookkeeping.nodeView_setNode_only (fun y => by rw [hk'.node y, ← hpn]; rfl) hidle,
        Bookkeeping.only_idle]
    · rw [hb₁]
      exact hk'.assignment
    · rw [hb₁]
      exact hk'.stored
    · change (b₁.pendingTransfers.set _ _).entries.filter _ = _
      rw [hpend, filter_set_transfers hnew, if_pos rfl, hk'.transfers]
      rfl
    · rw [hb₁]
      exact hk'.entered
  · by_cases hq : pr = some r
    · -- the request that is promoted
      obtain ⟨req', a'', hw, hx⟩ := hl.promoted_waiting hn hmem (hprom.symm.trans hq)
      have hk := hl.kept r
      rw [hw] at hk ⊢
      have hview : n.viewOf r = .queuedOnly := by
        rw [hk.viewOf hn, ← hx]
        exact only_self ..
      subst hq
      have hafter : n'.viewOf r = { NodeView.queuedOnly with running := 1, queued := 0 } := by
        rw [hn', MockEngineNode.viewOf_afterPromote_self hprom.symm]
        rw [MockEngineNode.viewOf_without_of_ne hmem hr, hview]
      obtain ⟨k, hk₁, hown⟩ := promotes_self hx hafter hpr hk
      have hv := hl.valid r
      rw [hw] at hv
      refine ⟨.starting req' a'' k, .promote (not_carries_of_ne rfl hr) ?_, hkept r _ hr hk₁, hv⟩
      rw [own_append, hown, hlast r hr, hx, List.append_nil]
    · have hsame : n'.viewOf r = n.viewOf r := by
        rw [hn', MockEngineNode.viewOf_afterPromote_of_ne (hprom ▸ hq),
          MockEngineNode.viewOf_without_of_ne hmem hr]
      obtain ⟨hnode, hown⟩ := promotes_other hq hpr
      obtain ⟨nodes, hb₁⟩ := hpr.eq_nodes
      have hk₁ : Kept b₁ r (stage r) := by
        refine (hl.kept r).congr (fun y => (hnode y).trans ?_) ?_ ?_ ?_ ?_
        · exact Bookkeeping.nodeView_setNode_same hn hsame y
        all_goals
          rw [hb₁]
          rfl
      refine hl.stay (not_carries_of_ne rfl hr) ?_ (hkept r _ hr hk₁)
      rw [own_append, hown, hlast r hr, List.append_nil]

/-- The transfers of a request, when a transfer is dropped. -/
theorem filter_erase_transfers (d : PyDict String PendingTransfer) (tid : String)
    (r : RequestId) : (d.erase tid).entries.filter (fun e => e.2.requestId = r) =
      (d.entries.filter fun e => e.2.requestId = r).filter fun e => e.1 ≠ tid := by
  rw [PyDict.entries_erase, List.filter_filter, List.filter_filter]
  exact List.filter_congr fun e _ => Bool.and_comm _ _

/-- The transfer whose end is handled. -/
theorem Lives.transfer_eq {base : TransferPayload} {req : Request}
    (hl : Lives w b (.kvTransferComplete base req) stage) :
    ∃ a, stage base.requestId = .transferring req a base ∧ b.pendingTransfers.get? base.transferId =
      some ⟨base.requestId, a.prefillNode, a.decodeNode, base.costMs, req⟩ := by
  obtain ⟨a, hst⟩ := Stage.eq_transferring (hl.carried base.requestId ⟨rfl, rfl⟩)
  have ht := (hl.kept base.requestId).transfers
  rw [hst] at ht
  refine ⟨a, hst, PyDict.get?_eq_some_iff.2 ?_⟩
  have hmem : (base.transferId, (⟨base.requestId, a.prefillNode, a.decodeNode, base.costMs, req⟩ :
      PendingTransfer)) ∈ b.pendingTransfers.entries.filter
        fun e => e.2.requestId = base.requestId := by
    rw [ht]
    exact List.mem_singleton_self _
  exact (List.mem_filter.1 hmem).1

/-- The transfers of the other requests are kept when one is dropped. -/
theorem transfers_erase {tid : String} {info : PendingTransfer}
    (hinfo : b.pendingTransfers.get? tid = some info) (hr : r ≠ info.requestId) :
    (b.pendingTransfers.erase tid).entries.filter (fun e => e.2.requestId = r) =
      b.pendingTransfers.entries.filter fun e => e.2.requestId = r := by
  rw [filter_erase_transfers]
  refine List.filter_eq_self.2 fun e he => ?_
  obtain ⟨he, hid⟩ := List.mem_filter.1 he
  have hne : e.1 ≠ tid := by
    rintro rfl
    have hsame := PyDict.eq_of_mem_entries he (PyDict.get?_eq_some_iff.1 hinfo)
    rw [hsame] at hid
    exact hr (of_decide_eq_true hid).symm
  simpa using hne

/-- The transfer of a request is dropped. -/
theorem transfers_erase_self {tid : String} {info : PendingTransfer}
    (h : b.pendingTransfers.entries.filter (fun e => e.2.requestId = r) = [(tid, info)]) :
    (b.pendingTransfers.erase tid).entries.filter (fun e => e.2.requestId = r) = [] := by
  rw [filter_erase_transfers, h]
  simp

theorem moves_transferRejected {base : TransferPayload} {req : Request} {info : PendingTransfer}
    {reason : Option String} (hinfo : b.pendingTransfers.get? base.transferId = some info)
    (hl : Lives w b (.kvTransferComplete base req) stage) (r : RequestId) :
    Advances w now (.kvTransferComplete base req) [(now, .requestRejected info.requestId reason)]
      { b.drop info.requestId with
        pendingTransfers := b.pendingTransfers.erase base.transferId } r (stage r) := by
  obtain ⟨a, hst, hget⟩ := hl.transfer_eq
  obtain rfl := Option.some_inj.1 (hinfo.symm.trans hget)
  by_cases hr : r = base.requestId
  · subst hr
    have hk := hl.kept base.requestId
    have hv := hl.valid base.requestId
    rw [hst] at hk hv ⊢
    refine ⟨.rejected req reason, .refuse rfl (own_cons_self rfl), ⟨hk.node, ?_, ?_, ?_, hk.entered⟩,
      hv.1⟩
    · exact PyDict.get?_erase_self ..
    · exact PyDict.get?_erase_self ..
    · exact transfers_erase_self hk.transfers
  · refine hl.stay (not_carries_of_ne rfl hr) (own_cons_of_ne ?_) ?_
    · exact fun h => hr (Option.some_inj.1 h).symm
    · exact (hl.kept r).congr (fun _ => rfl) (PyDict.get?_erase_of_ne _ hr)
        (PyDict.get?_erase_of_ne _ hr) (transfers_erase hinfo hr) rfl

theorem moves_transferAccepted {base : TransferPayload} {req : Request} {info : PendingTransfer}
    {a : Assignment} {n n₁ n₂ : MockEngineNode} {res : Bool} {b₁ : Bookkeeping}
    (hinfo : b.pendingTransfers.get? base.transferId = some info)
    (ha : b.decisions.get? info.requestId = some a) (hd : a.decodeNode ∈ w.decodeIds)
    (hn : b.nodes.get? a.decodeNode = some n) (hroom : n.HasRoom)
    (hadm : (MockEngineNode.admitRequest info.requestId info.request.expectedOutputLen
      (some info.request.tokenIds.length) (some 0)).run n = .ok res n₁)
    (hop : (MockEngineNode.startDecode info.requestId).run n₁ = .ok () n₂)
    (hb : b₁ = { b.setNode a.decodeNode n₂ with
      pendingTransfers := b.pendingTransfers.erase base.transferId
      entered := b.entered ++ [info.requestId] })
    (hl : Lives w b (.kvTransferComplete base req) stage) (r : RequestId) :
    Advances w now (.kvTransferComplete base req) (b₁.wakeEvents a.decodeNode now)
      (b₁.wake a.decodeNode) r (stage r) := by
  obtain ⟨a', hst, hget⟩ := hl.transfer_eq
  obtain rfl := Option.some_inj.1 (hinfo.symm.trans hget)
  have hs₁ := (MockEngineNode.run_admitRequest hadm).2
  have hs₂ := (MockEngineNode.run_startDecode hop).2
  by_cases hr : r = base.requestId
  · subst hr
    have hk := hl.kept base.requestId
    have hv := hl.valid base.requestId
    rw [hst] at hk hv ⊢
    obtain rfl : a' = a := Option.some_inj.1 (hk.assignment.symm.trans ha)
    have hview₁ : n₁.viewOf base.requestId = .slot 0 req.expectedOutputLen := by
      rw [hs₁.viewOf, MockEngineNode.viewOf_admitted_room hroom (hk.viewOf hn)]
    have hview₂ : n₂.viewOf base.requestId =
        { NodeView.slot 0 req.expectedOutputLen with decoding := true } := by
      simp only [MockEngineNode.viewOf, NodeView.slot, NodeView.mk.injEq] at hview₁
      obtain ⟨h₁, h₂, -, h₄, h₅, h₆⟩ := hview₁
      rw [hs₂.viewOf]
      simp only [MockEngineNode.viewOf, NodeView.slot, Finset.mem_insert, true_or, decide_true,
        h₁, h₂, h₄, h₅, h₆]
    have hnode : ∀ y, b.nodeView y base.requestId = only a'.decodeNode .idle y := by
      intro y
      rw [hk.node y, Bookkeeping.only_idle]
      rfl
    refine ⟨.decoding req a' 0, .enter rfl (own_wakeEvents _ _), Kept.wake ?_ _, hv.1, hd,
      Stage.one_le_goal req⟩
    rw [hb]
    refine ⟨fun y => ?_, hk.assignment, hk.stored, transfers_erase_self hk.transfers, ?_⟩
    · exact Bookkeeping.nodeView_setNode_only hnode hview₂ y
    · change (b.entered ++ [base.requestId]).count base.requestId = 1
      rw [List.count_append, hk.entered]
      simp [Stage.entered]
  · have hview : n₂.viewOf r = n.viewOf r := by
      have hins : ∀ m : MockEngineNode, MockEngineNode.viewOf
          { m with decoding := insert base.requestId m.decoding } r = m.viewOf r := by
        intro m
        simp only [MockEngineNode.viewOf, Finset.mem_insert, hr, false_or]
      rw [hs₂.viewOf, hins, hs₁.viewOf, MockEngineNode.viewOf_admitted_of_ne hr]
    refine hl.stay (not_carries_of_ne rfl hr) (own_wakeEvents _ _) (Kept.wake ?_ _)
    rw [hb]
    refine ((hl.kept r).setNode hn hview).congr (fun _ => rfl) rfl rfl (transfers_erase hinfo hr) ?_
    change (b.entered ++ [base.requestId]).count r = b.entered.count r
    rw [List.count_append, List.count_singleton]
    simp [Ne.symm hr]

/-- The events of a batch step about one request. -/
theorem own_map {f : RequestId → Time × Payload} (hf : ∀ q, (f q).2.owner = some q)
    {rs : List RequestId} (hnd : rs.Nodup) (r : RequestId) :
    own r (rs.map f) = if r ∈ rs then [f r] else [] := by
  have hfilter : own r (rs.map f) = (rs.filter (· = r)).map f := by
    rw [own, List.filter_map]
    refine congrArg (List.map f) (List.filter_congr fun q _ => ?_)
    simp [hf q]
  rw [hfilter, List.filter_eq]
  by_cases hr : r ∈ rs
  · rw [if_pos hr, List.count_eq_one_of_mem hnd hr]
    rfl
  · rw [if_neg hr, List.count_eq_zero.2 hr]
    rfl

theorem own_prefillEvents_of_ne {id : NodeId} {t : Time} {pf : Option RequestId}
    (h : pf ≠ some r) : own r (prefillEvents b id t pf) = [] := by
  refine own_eq_nil fun e he howner => ?_
  obtain ⟨q, req, hq, -, rfl⟩ := mem_prefillEvents he
  exact h (hq.trans howner)

theorem moves_stepRun {id : NodeId} {n m n' : MockEngineNode} {T : Time}
    {completed streams : List RequestId} {pf : Option RequestId} {b₁ : Bookkeeping}
    {x : BatchStep} (hn : b.nodes.get? id = some n) (hm : ∀ q, m.viewOf q = n.viewOf q)
    (ht : MockEngineNode.Ticked m now T completed pf n')
    (hnd : streams.Nodup) (hmem : ∀ r, r ∈ streams ↔ r ∈ n'.decoding ∨ r ∈ completed)
    (hb : b₁ = { b.setNode id n' with steps := b.steps ++ [x] })
    (hl : Lives w b (.decodeBatchStep id) stage) (r : RequestId) :
    Advances w now (.decodeBatchStep id)
      (prefillEvents b id T pf ++ (tokenEvents n' T streams ++ (completionEvents id T completed ++
        b₁.wakeEvents id T))) (b₁.wake id) r (stage r) := by
  have hnot : ¬ (Payload.decodeBatchStep id).Carries r := fun h => by cases h.1
  have hstream : r ∈ streams ↔ r ∈ m.decoding := by
    rw [hmem, ht.decoding r]
    constructor
    · rintro (⟨hd, -⟩ | hc)
      · exact hd
      · exact ht.completed_sub r hc
    · intro hd
      by_cases hc : r ∈ completed
      · exact Or.inr hc
      · exact Or.inl ⟨hd, hc⟩
  have hout : own r (prefillEvents b id T pf ++ (tokenEvents n' T streams ++
      (completionEvents id T completed ++ b₁.wakeEvents id T))) =
        own r (prefillEvents b id T pf) ++
          ((if r ∈ streams then [(T, .tokenGenerated r (n'.outputTokens.getD r 0 - 1))] else []) ++
            if r ∈ completed then [(T, .decodeComplete r id)] else []) := by
    rw [own_append, own_append, own_append, own_wakeEvents, List.append_nil, tokenEvents,
      own_map (fun _ => rfl) hnd, completionEvents, own_map (fun _ => rfl) ht.completed_nodup]
  have hk := hl.kept r
  have hv := hl.valid r
  have hnv := (hm r).trans (hk.viewOf hn)
  have hkept : ∀ st' : Stage, (∀ x, (b.setNode id n').nodeView x r = st'.node x) →
      st'.assignment = (stage r).assignment → st'.stored = (stage r).stored →
      st'.transfers r = (stage r).transfers r → st'.entered = (stage r).entered →
      Kept (b₁.wake id) r st' := by
    intro st' hx ha hq htr he
    refine Kept.wake ?_ id
    rw [hb]
    exact ⟨hx, hk.assignment.trans ha.symm, hk.stored.trans hq.symm, hk.transfers.trans htr.symm,
      hk.entered.trans he.symm⟩
  by_cases hdec : (m.viewOf r).decoding = true
  · -- a stream of the batch
    obtain ⟨req, a, g, hst, rfl⟩ := Stage.eq_decoding (hnv ▸ hdec)
    rw [hst] at hk hv hnv hkept ⊢
    have hview : m.viewOf r = { NodeView.slot g req.expectedOutputLen with decoding := true } := by
      rw [hnv]
      exact only_self ..
    obtain ⟨hview', hd, hc, hpf⟩ := ht.viewOf_decoding hview
    have htok : n'.outputTokens.getD r 0 - 1 = g := by
      have hget : n'.outputTokens.get? r = some ((g : ℤ) + 1) :=
        congrArg NodeView.generated hview'
      rw [PyDict.getD, hget, Option.getD_some, add_sub_cancel_right]
    have hnow : now < T := by
      refine ht.now_lt hd fun q u hq => ?_
      have hpipe : ((stage q).node a.decodeNode).pipeline = some u := by
        rw [← (hl.kept q).viewOf hn, ← hm q]
        exact hq
      obtain ⟨req', a', hq', -⟩ := Stage.eq_prefilling hpipe
      have hvq := hl.valid q
      rw [hq'] at hvq
      exact hvq.2.2.1.le
    rw [own_prefillEvents_of_ne hpf, if_pos (hstream.2 hd), htok, List.nil_append] at hout
    have hnode : ∀ dec : Bool, dec = decide ((g : ℤ) + 1 < req.expectedOutputLen) → ∀ x,
        (b.setNode a.decodeNode n').nodeView x r = only a.decodeNode
          { NodeView.slot ((g + 1 : ℕ) : ℤ) req.expectedOutputLen with decoding := dec } x := by
      intro dec hdec'
      refine Bookkeeping.nodeView_setNode_only hk.node ?_
      rw [hview', hdec']
      push_cast
      rfl
    have hgoal : Stage.goal req = max 1 req.expectedOutputLen.toNat := rfl
    by_cases hlt : (g : ℤ) + 1 < req.expectedOutputLen
    · rw [if_neg (fun h => absurd (hc.1 h) (not_le.2 hlt)), List.append_nil] at hout
      have hg : g + 1 < Stage.goal req := by omega
      exact ⟨.decoding req a (g + 1), .token rfl hout hnow hg,
        hkept _ (hnode true (by simp [hlt])) rfl rfl rfl rfl, hv.1, hv.2.1, hg⟩
    · rw [if_pos (hc.2 (not_lt.1 hlt))] at hout
      have hg : g + 1 = Stage.goal req := by
        have := hv.2.2
        omega
      exact ⟨.decoded req a (g + 1), .last rfl hout hnow hg,
        hkept _ (hnode false (by simp [hlt])) rfl rfl rfl rfl, hv.1, hv.2.1, hg⟩
  · cases hpipe : (m.viewOf r).pipeline with
    | some u =>
        -- a prefill of the pipeline
        obtain ⟨req, a, hst, rfl⟩ := Stage.eq_prefilling (hnv ▸ hpipe)
        rw [hst] at hk hv hnv hkept ⊢
        have hview : m.viewOf r =
            { NodeView.slot 0 req.expectedOutputLen with pipeline := some u } := by
          rw [hnv]
          exact only_self ..
        obtain ⟨hd, hc, hcases⟩ := ht.viewOf_pipeline hview
        rw [if_neg (fun h => hd (hstream.1 h)), if_neg hc, List.append_nil, List.append_nil] at hout
        rcases hcases with ⟨hpf, hview'⟩ | ⟨hpf, u', hu', hview'⟩
        · have hreq : b.requests.get? r = some req := hk.stored
          have hown : own r (prefillEvents b a.prefillNode T pf) =
              [(T, .prefillComplete r a.prefillNode req)] := by
            simp only [hpf, prefillEvents, hreq]
            exact own_cons_self rfl
          rw [hown] at hout
          exact ⟨.prefilled req a, .drain rfl hout hv.2.2.1,
            hkept _ (Bookkeeping.nodeView_setNode_only hk.node hview') rfl rfl rfl rfl,
            hv.1, hv.2.1⟩
        · rw [own_prefillEvents_of_ne hpf] at hout
          have hkept' := hkept (.prefilling req a u')
            (Bookkeeping.nodeView_setNode_only hk.node hview') rfl rfl rfl rfl
          rcases hu' with rfl | ⟨hpos, hlt⟩
          · exact ⟨_, .stay _ hnot hout, hkept', hv⟩
          · exact ⟨_, .chunk rfl hout hpos hlt, hkept', hv.1, hv.2.1, hpos,
              hlt.le.trans hv.2.2.2⟩
    | none =>
        obtain ⟨hview, hd, hc, hpf⟩ := ht.viewOf_other (Bool.eq_false_iff.2 hdec) hpipe
        rw [own_prefillEvents_of_ne hpf, if_neg (fun h => hd (hstream.1 h)), if_neg hc] at hout
        refine ⟨stage r, .stay _ hnot hout, hkept _ (fun x => ?_) rfl rfl rfl rfl, hv⟩
        rw [Bookkeeping.nodeView_setNode_same hn (hview.trans (hm r)), hk.node x]

theorem moves_decodeFinished {id : NodeId} {n n' : MockEngineNode} {pr : Option RequestId}
    {b₁ : Bookkeeping} (hd : id ∈ w.decodeIds) (hn : b.nodes.get? id = some n)
    (hop : Completes n r' pr n') (hb : b₁ = ((b.setNode id n').promoted id pr).drop r')
    (hempty : n.queue = []) (hl : Lives w b (.decodeComplete r' id) stage) (r : RequestId) :
    Advances w now (.decodeComplete r' id) (b₁.wakeEvents id now) (b₁.wake id) r (stage r) := by
  obtain ⟨req, a, g, hst', rfl⟩ := Stage.eq_decoded (hl.carried r' ⟨rfl, rfl⟩)
  have hk' := hl.kept r'
  rw [hst'] at hk'
  have hview' : n.viewOf r' = .slot g req.expectedOutputLen := by
    rw [hk'.viewOf hn]
    exact only_self ..
  have hrun : (n.viewOf r').running = 1 := by rw [hview']; rfl
  have hqueued : (n.viewOf r').queued = 0 := by rw [hview']; rfl
  have hmem : r' ∈ n.runningRequests := List.count_pos_iff.1 (by
    change (n.viewOf r').running > 0
    omega)
  obtain ⟨-, hn'⟩ := MockEngineNode.completes_eq hop hmem
  -- nothing is promoted
  have hnone : (n.without r').nextPromoted = none := by
    rw [MockEngineNode.nextPromoted]
    split
    · rw [MockEngineNode.without, if_pos hmem, hempty]
      rfl
    · rfl
  have hafter : ∀ q, n'.viewOf q = (n.without r').viewOf q := by
    intro q
    rw [hn', MockEngineNode.viewOf_afterPromote_of_ne]
    rw [hnone]
    exact fun h => by cases h
  by_cases hr : r = r'
  · subst hr
    have hidle : n'.viewOf r = .idle := by
      rw [hafter, MockEngineNode.viewOf_without_self hrun hqueued]
    have hv := hl.valid r
    rw [hst'] at hv ⊢
    refine ⟨.finished req a.decodeNode g, .finish rfl (own_wakeEvents _ _), Kept.wake ?_ _,
      hv.1, hv.2.1, hv.2.2⟩
    rw [hb]
    refine ⟨fun y => ?_, PyDict.get?_erase_self .., PyDict.get?_erase_self .., hk'.transfers,
      hk'.entered⟩
    exact (Bookkeeping.nodeView_setNode_only hk'.node hidle y).trans (Bookkeeping.only_idle ..)
  · have hsame : n'.viewOf r = n.viewOf r := by
      rw [hafter, MockEngineNode.viewOf_without_of_ne hmem hr]
    refine hl.stay (not_carries_of_ne rfl hr) (own_wakeEvents _ _) (Kept.wake ?_ _)
    rw [hb]
    exact ((hl.kept r).setNode hn hsame).congr (fun _ => rfl) (PyDict.get?_erase_of_ne _ hr)
      (PyDict.get?_erase_of_ne _ hr) rfl rfl

/-- **Handling an event moves every request**, if the completion of a stream finds no request queued
on its node. -/
theorem Handles.moves (h : Handles w now u b p out b') (hl : Lives w b p stage)
    (hempty : ∀ q d n, p = .decodeComplete q d → b.nodes.get? d = some n → n.queue = [])
    (r : RequestId) : Advances w now p out b' r (stage r) := by
  have hnotice : p.isNotice = true → Advances w now p [] b r (stage r) := fun hp =>
    hl.stay (not_carries_of_isNotice hp) rfl (hl.kept r)
  cases h with
  | arriveRejected req reason => exact moves_arriveRejected hl r
  | arriveAdmitted hp hn hu hop hstarted => exact moves_arriveAdmitted hp hn hop hstarted hl r
  | startCached hu hp hn hop => exact moves_startCached hn hop hl r
  | startPipeline hp hn hu hlen hop => exact moves_startPipeline hn hu hlen hop hl r
  | @completeUnknown q p req ha =>
      obtain ⟨a, hst, -⟩ := Stage.eq_prefilled (hl.carried q ⟨rfl, rfl⟩)
      have hk := (hl.kept q).assignment
      rw [hst, ha] at hk
      cases hk
  | prefillFinished hp hn ha hop hpr hbase ht =>
      exact moves_prefillFinished hn ha hop hpr hbase.1 hbase.2 hl _ r
  | transferStale hinfo =>
      obtain ⟨a, -, hget⟩ := hl.transfer_eq
      rw [hinfo] at hget
      cases hget
  | @transferUnknown base req info hinfo ha =>
      obtain ⟨a, hst, hget⟩ := hl.transfer_eq
      obtain rfl := Option.some_inj.1 (hinfo.symm.trans hget)
      have hk := (hl.kept base.requestId).assignment
      rw [hst, ha] at hk
      cases hk
  | transferRejected hinfo ha hd hn hfull => exact moves_transferRejected hinfo hl r
  | transferAccepted hinfo ha hd hn hroom hadm hop hb =>
      exact moves_transferAccepted hinfo ha hd hn hroom hadm hop hb hl r
  | stepIdle hn hidle =>
      refine hl.stay (fun h => by cases h.1) rfl ?_
      exact ((hl.kept r).setNode hn (by rfl)).congr (fun _ => rfl) rfl rfl rfl rfl
  | @stepRun id n n' T completed streams pf b₁ hn hwork hop hnd hmem hout hb =>
      exact moves_stepRun hn (fun q => by rfl) (MockEngineNode.ticked_of_run hop).2 hnd hmem hb hl r
  | decodeFinished hd hn hop hb =>
      exact moves_decodeFinished hd hn hop hb (hempty _ _ _ rfl hn) hl r
  | @rejected q reason =>
      by_cases hr : r = q
      · subst hr
        obtain ⟨req, hst⟩ := Stage.eq_rejected (hl.carried r ⟨rfl, rfl⟩)
        have hk := hl.kept r
        have hv := hl.valid r
        rw [hst] at hk hv ⊢
        exact ⟨_, .dismiss rfl rfl, ⟨hk.node, hk.assignment, hk.stored, hk.transfers, hk.entered⟩,
          hv⟩
      · exact hl.stay (not_carries_of_ne rfl hr) rfl (hl.kept r)
  | scheduled q dec mt mb => exact hnotice rfl
  | transferStarted base => exact hnotice rfl
  | token q i => exact hnotice rfl

end Handlers

/-! ### Capacity -/

namespace MockEngineNode

variable {n n' : MockEngineNode} {r : RequestId}

theorem Fits.completes {pr : Option RequestId} (h : n.Fits) (hc : Completes n r pr n') : n'.Fits := by
  rcases hc with hc | ⟨-, rfl, -, -⟩
  swap
  · exact h
  by_cases hmem : r ∈ n.runningRequests ∨ r ∈ n.queue
  · rw [run_complete hmem, EStateM.Result.ok.injEq] at hc
    obtain ⟨-, rfl⟩ := hc
    exact h.complete hmem
  · rw [not_or] at hmem
    rw [run_complete_absent hmem.1 hmem.2] at hc
    cases hc

end MockEngineNode

/-- Every node fits. -/
def AllFit (nodes : PyDict NodeId MockEngineNode) : Prop :=
  ∀ x n, nodes.get? x = some n → n.Fits

section Capacity

variable {nodes : PyDict NodeId MockEngineNode} {b b' : Bookkeeping}

theorem AllFit.set (h : AllFit nodes) {x : NodeId} {n : MockEngineNode} (hn : n.Fits) :
    AllFit (nodes.set x n) := by
  intro y m hm
  by_cases hy : y = x
  · rw [hy, PyDict.get?_set_self, Option.some_inj] at hm
    exact hm ▸ hn
  · rw [PyDict.get?_set_of_ne _ _ hy] at hm
    exact h y m hm

theorem AllFit.wake (h : AllFit b.nodes) (id : NodeId) : AllFit (b.wake id).nodes := by
  rcases b.wake_cases id 0 with ⟨-, hb, -⟩ | ⟨n, hn, -, -, -, hb⟩
  · rwa [hb]
  · rw [hb]
    exact h.set ((h id n hn).congr rfl rfl rfl)

/-- **The nodes keep to their capacity**, whatever is handled. -/
theorem Handles.fits {ς : Type} {w : Wiring ς} {now : Time} {u : ℤ} {p : Payload}
    {out : List (Time × Payload)} (h : Handles w now u b p out b') (hf : AllFit b.nodes) :
    AllFit b'.nodes := by
  cases h with
  | arriveRejected req reason => exact hf
  | arriveAdmitted hp hn hu hop hstarted =>
      exact hf.set ((MockEngineNode.run_admitRequest hop).2.fits ((hf _ _ hn).admitted _ _))
  | startCached hu hp hn hop =>
      exact hf.set ((MockEngineNode.run_markPrefillDone hop).2.fits (hf _ _ hn))
  | startPipeline hp hn hu hlen hop =>
      refine AllFit.wake (hf.set ((MockEngineNode.run_enterPrefill hop).2.fits ?_)) _
      exact (hf _ _ hn).congr rfl rfl rfl
  | completeUnknown ha => exact hf
  | @prefillFinished r p req a n n' pr started b₁ base t₁ t₂ hp hn ha hop hpr hbase ht =>
      have hdone : AllFit (b.nodes.set p n') := hf.set ((hf _ _ hn).completes hop)
      cases hpr with
      | none => exact hdone
      | missing q h => exact hdone
      | start hreq hdec hn₁ hinit =>
          refine AllFit.set hdone ((MockEngineNode.run_initPromoted hinit).2.fits ?_)
          exact (hdone _ _ hn₁).congr rfl rfl rfl
  | transferStale hinfo => exact hf
  | transferUnknown hinfo ha => exact hf
  | transferRejected hinfo ha hd hn hfull => exact hf
  | transferAccepted hinfo ha hd hn hroom hadm hop hb =>
      subst hb
      refine AllFit.wake (AllFit.set hf ((MockEngineNode.run_startDecode hop).2.fits ?_)) _
      have hfit := (MockEngineNode.run_admitRequest hadm).2.fits ((hf _ _ hn).admitted _ _)
      exact hfit.congr rfl rfl rfl
  | stepIdle hn hidle => exact hf.set ((hf _ _ hn).congr rfl rfl rfl)
  | stepRun hn hwork hop hnd hmem hout hb =>
      subst hb
      refine AllFit.wake (AllFit.set hf ((MockEngineNode.ticked_of_run hop).2.fits ?_)) _
      exact (hf _ _ hn).congr rfl rfl rfl
  | decodeFinished hd hn hop hb =>
      subst hb
      exact AllFit.wake (AllFit.set hf ((hf _ _ hn).completes hop)) _
  | rejected r reason => exact hf
  | scheduled r dec mt mb => exact hf
  | transferStarted base => exact hf
  | token r i => exact hf

end Capacity

/-! ### Turns -/

/-- Every request is in a stage that the whole state agrees with, and every node fits. -/
structure Staged {ς : Type} (w : Wiring ς) (s : Simulator ς) (stage : RequestId → Stage) : Prop where
  kept : ∀ r, Kept s.2.toBookkeeping r (stage r)
  known : ∀ r, Known s.1 r (stage r)
  valid : ∀ r, (stage r).Valid w.prefillIds w.decodeIds r
  fits : AllFit s.2.nodes

/-- If the first event is the completion of a stream, no request is queued on its node. -/
def NoneQueued {ς : Type} (s : Simulator ς) : Prop :=
  ∀ e ∈ s.1.take, ∀ q d n, e.1.payload = .decodeComplete q d → s.2.nodes.get? d = some n →
    n.queue = []

namespace Wiring

variable {ς : Type} {w : Wiring ς} {s s' : Simulator ς} {stage : RequestId → Stage}
  {ev : Event Payload} {rest : List (Event Payload)} {out : List (Time × Payload)}

/-- The first event of the queue finds the requests in their stages. -/
theorem TurnOf.lives (ht : TurnOf w s ev rest out s') (h : Staged w s stage) :
    Lives w s.2.toBookkeeping ev.payload stage :=
  ⟨h.kept, h.valid, fun r hc => ((h.known r).pending_of_carries ht.events hc).1⟩

/-- **A turn moves every request**, if it does not complete a stream on a node with a queue. -/
theorem TurnOf.staged (ht : TurnOf w s ev rest out s') (h : Staged w s stage)
    (hq : NoneQueued s) : ∃ stage', Staged w s' stage' ∧
      ∀ r, Stage.Moves ev.time ev.payload out r (stage r) (stage' r) := by
  have hempty : ∀ q d n, ev.payload = .decodeComplete q d → s.2.nodes.get? d = some n →
      n.queue = [] := hq _ (SimulationEngine.take_cons ht.events)
  choose stage' hmoves hkept hvalid using ht.handles.moves (ht.lives h) hempty
  exact ⟨stage', ⟨hkept, fun r => (h.known r).moves (hmoves r) ht.events ht.pushes, hvalid,
    ht.handles.fits h.fits⟩, hmoves⟩

end Wiring

/-! ### Runs -/

/-- No arrival of the request has been scheduled so far. -/
def NewId {ς : Type} (s : Simulator ς) (r : RequestId) : Prop :=
  ∀ ev ∈ s.1.queue.events ++ s.1.processed, ∀ req ∈ ev.payload.arrival?, req.requestId ≠ r

/-- The requests that arrive have distinct ids. -/
def DistinctArrivals {ς : Type} (s : Simulator ς) : Action → Prop
  | .arrive _ req => NewId s req.requestId
  | .turn => True

instance {ς : Type} (s : Simulator ς) : ∀ a, Decidable (DistinctArrivals s a)
  | .arrive _ req => inferInstanceAs (Decidable (∀ ev ∈ s.1.queue.events ++ s.1.processed,
      ∀ req' ∈ ev.payload.arrival?, req'.requestId ≠ req.requestId))
  | .turn => .isTrue trivial

section Runs

variable {ς : Type} {w : Wiring ς} {s s' : Simulator ς} {stage : RequestId → Stage}

/-- A request with a new id is absent. -/
theorem Staged.absent (h : Staged w s stage) {r : RequestId} (hr : NewId s r) :
    stage r = .absent := by
  have hk := h.known r
  have harrived : (stage r).arrived = [] := by
    rw [← hk.arrived, List.filter_eq_nil_iff]
    intro req hreq hid
    obtain ⟨ev, hev, ha⟩ := List.mem_filterMap.1 hreq
    exact hr ev (List.mem_append_right _ hev) req ha (of_decide_eq_true hid)
  cases hst : stage r with
  | absent => rfl
  | arriving req =>
      have hmem : Payload.requestArrive req ∈ (stage r).pending r := by
        rw [hst]
        exact Multiset.mem_singleton_self _
      have hc := (hk.carries_of_mem hmem).1
      rw [← hk.pending, carrying, Multiset.mem_coe, List.mem_filter, List.mem_map] at hmem
      obtain ⟨⟨ev, hev, hp⟩, -⟩ := hmem
      refine absurd (Option.some_inj.1 hc) (hr ev (List.mem_append_left _ hev) req ?_)
      rw [hp]
      rfl
  | _ =>
      rw [hst] at harrived
      cases harrived

/-- The arrival of a request with a new id is scheduled. -/
theorem Staged.arrive (h : Staged w s stage) {t : Time} {req : Request}
    (hr : NewId s req.requestId) (hpush : Pushes s.1 [(t, .requestArrive req)] s'.1)
    (hc : s'.2 = s.2) :
    Staged w s' fun r => if r = req.requestId then .arriving req else stage r := by
  have habsent := h.absent hr
  have hpend : ∀ r, carrying r (s'.1.queue.events.map Event.payload) = (stage r).pending r +
      if req.requestId = r then {.requestArrive req} else 0 := by
    intro r
    rw [carrying_perm hpush.perm, carrying_append, (h.known r).pending]
    by_cases hreq : req.requestId = r
    · simp [carrying_cons, Payload.Carries, Payload.owner, Payload.isNotice, hreq]
    · simp [carrying_cons, Payload.Carries, Payload.owner, hreq]
  refine ⟨fun r => ?_, fun r => ?_, fun r => ?_, hc ▸ h.fits⟩
  · have hk := h.kept r
    rw [hc]
    by_cases hreq : r = req.requestId
    · rw [if_pos hreq]
      rw [hreq, habsent] at hk
      rw [hreq]
      exact ⟨hk.node, hk.assignment, hk.stored, hk.transfers, hk.entered⟩
    · rwa [if_neg hreq]
  · have hk := h.known r
    have hp := hpend r
    by_cases hreq : r = req.requestId
    · rw [if_pos hreq]
      rw [hreq] at hk hp ⊢
      rw [habsent] at hk hp
      rw [if_pos rfl] at hp
      refine ⟨hp.trans (zero_add _), ?_, ?_⟩
      · rw [hpush.processed_eq]
        exact hk.arrived
      · rw [hpush.processed_eq]
        exact hk.ended
    · rw [if_neg hreq]
      rw [if_neg (Ne.symm hreq), add_zero] at hp
      exact ⟨hp, hpush.processed_eq ▸ hk.arrived, hpush.processed_eq ▸ hk.ended⟩
  · by_cases hreq : r = req.requestId
    · rw [if_pos hreq]
      exact hreq.symm
    · rw [if_neg hreq]
      exact h.valid r

/-- Before the first event every request is absent. -/
theorem staged_start (w : Wiring ς) (sched : ς) (cm : CacheManager) (tm : TransferModel) :
    Staged w (w.start sched cm tm) fun _ => .absent := by
  have hnode : ∀ x n, (w.start sched cm tm).2.nodes.get? x = some n →
      ∃ spec : NodeSpec, n = spec.node := by
    intro x n hn
    obtain ⟨spec, -, -, h⟩ := Wiring.start_node hn
    exact ⟨spec, h⟩
  refine ⟨fun r => ⟨fun x => ?_, rfl, rfl, rfl, rfl⟩, fun r => ⟨rfl, rfl, rfl⟩, fun r => trivial,
    fun x n hn => ?_⟩
  · rw [Bookkeeping.nodeView]
    cases hn : (w.start sched cm tm).2.toBookkeeping.nodes.get? x with
    | none => rfl
    | some n =>
        obtain ⟨spec, rfl⟩ := hnode x n hn
        rfl
  · obtain ⟨spec, rfl⟩ := hnode x n hn
    exact ⟨Nat.zero_le _, fun h => absurd rfl h⟩

/-- **In every state that is reached, every request is in a stage that the whole state agrees
with**, and so is whatever else holds at the start and is kept by arrivals and moves. -/
theorem Wiring.Reaches.staged_and {meets : Simulator ς → Action → Prop} (h : w.Reaches meets s)
    (hids : ∀ s t req, meets s (.arrive t req) → NewId s req.requestId)
    (hqueues : ∀ s stage, Staged w s stage → meets s .turn → NoneQueued s)
    {J : Simulator ς → (RequestId → Stage) → Prop}
    (hstart : ∀ sched cm tm, J (w.start sched cm tm) fun _ => .absent)
    (harrive : ∀ s s' stage t req, Staged w s stage → J s stage → NewId s req.requestId →
      Pushes s.1 [(t, .requestArrive req)] s'.1 → s'.2 = s.2 →
      J s' fun r => if r = req.requestId then .arriving req else stage r)
    (hturn : ∀ s s' stage stage' ev rest out, w.Reaches meets s → Staged w s stage → J s stage →
      w.TurnOf s ev rest out s' →
      (∀ r, Stage.Moves ev.time ev.payload out r (stage r) (stage' r)) → J s' stage') :
    ∃ stage, Staged w s stage ∧ J s stage := by
  refine h.invariant (I := fun s => ∃ stage, Staged w s stage ∧ J s stage) ?_ ?_ ?_
  · exact fun sched cm tm => ⟨_, staged_start w sched cm tm, hstart sched cm tm⟩
  · rintro s s' t req _ ⟨stage, hst, hJ⟩ hm hpush hc
    have hnew := hids s t req hm
    exact ⟨_, hst.arrive hnew hpush hc, harrive s s' stage t req hst hJ hnew hpush hc⟩
  · rintro s s' ev rest out h ⟨stage, hst, hJ⟩ hm ht
    obtain ⟨stage', hst', hmoves⟩ := ht.staged hst (hqueues s stage hst hm)
    exact ⟨stage', hst', hturn s s' stage stage' ev rest out h hst hJ ht hmoves⟩

theorem Wiring.Reaches.staged {meets : Simulator ς → Action → Prop} (h : w.Reaches meets s)
    (hids : ∀ s t req, meets s (.arrive t req) → NewId s req.requestId)
    (hqueues : ∀ s stage, Staged w s stage → meets s .turn → NoneQueued s) :
    ∃ stage, Staged w s stage :=
  (h.staged_and hids hqueues (J := fun _ _ => True) (fun _ _ _ => trivial)
    (fun _ _ _ _ _ _ _ _ _ _ => trivial) (fun _ _ _ _ _ _ _ _ _ _ _ _ => trivial)).imp
      fun _ h => h.1

/-- With disjoint pools no request is queued on a decode node. -/
theorem Staged.queue_eq_nil (h : Staged w s stage) (hpools : ∀ id ∈ w.prefillIds, id ∉ w.decodeIds)
    {d : NodeId} (hd : d ∈ w.decodeIds) {n : MockEngineNode} (hn : s.2.nodes.get? d = some n) :
    n.queue = [] := by
  rw [List.eq_nil_iff_forall_not_mem]
  intro q hq
  have hqueued : ((stage q).node d).queued ≠ 0 := by
    rw [← (h.kept q).viewOf hn]
    exact (List.count_pos_iff.2 hq).ne'
  obtain ⟨req, a, hst, rfl⟩ := Stage.eq_waiting hqueued
  have hv := h.valid q
  rw [hst] at hv
  exact hpools _ hv.2 hd

/-- With disjoint pools a stream is never completed on a node with a queue. -/
theorem Staged.noneQueued (h : Staged w s stage)
    (hpools : ∀ id ∈ w.prefillIds, id ∉ w.decodeIds) : NoneQueued s := by
  intro e he q d n hp hn
  cases hq : s.1.queue.events with
  | nil =>
      rw [SimulationEngine.take_nil hq] at he
      cases he
  | cons ev rest =>
      rw [SimulationEngine.take_cons hq, Option.mem_some_iff] at he
      subst he
      have hc : ev.payload.Carries q := by
        have hp' : ev.payload = .decodeComplete q d := hp
        rw [hp']
        exact ⟨rfl, rfl⟩
      have hone := ((h.known q).pending_of_carries hq hc).1
      rw [show ev.payload = .decodeComplete q d from hp] at hone
      obtain ⟨req, a, g, hst, rfl⟩ := Stage.eq_decoded hone
      have hv := h.valid q
      rw [hst] at hv
      exact h.queue_eq_nil hpools hv.2.1 hn

end Runs

end NanoKVRouter
