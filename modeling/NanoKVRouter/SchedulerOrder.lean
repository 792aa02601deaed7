/-
**A decision does not depend on the order of the pools.**

The policies take a minimum under a key that ends in the node id, so with distinct ids the node they
choose is a function of the set of nodes.  The prefix greedy policy filters the pool first, by a
maximum over it; the E2 policy reads the free blocks of every node on the way.  Both commute with a
permutation.

Main definitions:

* `DistinctIds` — no two nodes of a pool share an id;
* `LeastLoaded`, `HighestScore` — the node a pool offers, with the tie broken by the id.

Main results:

* `List.argmin_perm` — the least element under an injective key, in any order of the list;
* `Py.run_mapM_readOnly` — a list of read-only calls;
* `schedule_perm` — permuted pools give the same decision, and the Conductor accepts when its node of
  maximal score meets both targets.
-/

import NanoKVRouter.Scheduler

set_option relaxedAutoImplicit false
set_option autoImplicit false

/-! ### The least element of a list -/

section Argmin

variable {α β : Type} [LinearOrder β] {f : α → β} {l l' : List α} {m : α}

/-- The least element under an injective key, without the position of the list's own choice. -/
theorem List.argmin_eq_some_of_injOn (hinj : ∀ a ∈ l, ∀ b ∈ l, f a = f b → a = b) :
    l.argmin f = some m ↔ m ∈ l ∧ ∀ a ∈ l, f m ≤ f a := by
  constructor
  · intro h
    exact ⟨List.argmin_mem h, fun a ha => List.le_of_mem_argmin ha h⟩
  · rintro ⟨hm, hle⟩
    cases h : l.argmin f with
    | none =>
        rw [List.argmin_eq_none.1 h] at hm
        cases hm
    | some b =>
        have hb : b ∈ l := List.argmin_mem h
        rw [hinj b hb m hm (le_antisymm (List.le_of_mem_argmin hm h) (hle b hb))]

/-- **The least element under an injective key does not depend on the order of the list.** -/
theorem List.argmin_perm (h : l.Perm l') (hinj : ∀ a ∈ l, ∀ b ∈ l, f a = f b → a = b) :
    l.argmin f = l'.argmin f := by
  have hinj' : ∀ a ∈ l', ∀ b ∈ l', f a = f b → a = b :=
    fun a ha b hb => hinj a (h.mem_iff.2 ha) b (h.mem_iff.2 hb)
  refine Option.ext fun m => ?_
  rw [List.argmin_eq_some_of_injOn hinj, List.argmin_eq_some_of_injOn hinj', h.mem_iff]
  exact and_congr_right fun _ => forall_congr' fun a => by rw [h.mem_iff]

end Argmin

/-- Every entry on the right of two related lists has a partner. -/
theorem List.Forall₂.exists_left {α β : Type} {R : α → β → Prop} {l : List α} {bs : List β}
    (h : List.Forall₂ R l bs) {b : β} (hb : b ∈ bs) : ∃ a ∈ l, R a b := by
  induction h with
  | nil => cases hb
  | cons hab _ ih =>
      rcases List.mem_cons.1 hb with rfl | hb
      · exact ⟨_, List.mem_cons_self, hab⟩
      · obtain ⟨a, ha, h⟩ := ih hb
        exact ⟨a, List.mem_cons_of_mem _ ha, h⟩

/-! ### Read-only calls -/

namespace Py

variable {σ α β : Type}

/-- **A list of read-only calls** returns their results, one by one, and leaves the state. -/
theorem run_mapM_readOnly {f : α → Py σ β} (hf : ∀ a, (f a).ReadOnly) (l : List α) (s s' : σ)
    (bs : List β) :
    (l.mapM f).run s = .ok bs s' ↔
      s' = s ∧ List.Forall₂ (fun a b => (f a).run s = .ok b s) l bs := by
  induction l generalizing bs with
  | nil =>
      rw [List.mapM_nil, EStateM.run_pure, EStateM.Result.ok.injEq, List.forall₂_nil_left_iff]
      exact and_comm.trans (and_congr eq_comm eq_comm)
  | cons a l ih =>
      rw [List.mapM_cons, List.forall₂_cons_left_iff, Py.bind_eq_ok]
      constructor
      · rintro ⟨b, t, hb, h⟩
        have ht : t = s := by simpa [hb] using hf a s
        subst ht
        obtain ⟨bs', t', hbs, h⟩ := Py.bind_eq_ok.1 h
        cases h
        obtain ⟨rfl, hall⟩ := (ih bs').1 hbs
        exact ⟨rfl, b, bs', hb, hall, rfl⟩
      · rintro ⟨rfl, b, bs', hb, hall, rfl⟩
        exact ⟨b, s', hb, Py.bind_eq_ok.2 ⟨bs', s', (ih bs').2 ⟨rfl, hall⟩, rfl⟩⟩

theorem ReadOnly.bind_pure {m : Py σ α} (h : m.ReadOnly) (g : α → β) :
    (do pure (g (← m))).ReadOnly := by
  intro s
  have hs := h s
  rw [EStateM.run_bind]
  cases hm : m.run s with
  | ok a t =>
      rw [hm] at hs
      exact hs
  | error e t =>
      rw [hm] at hs
      exact hs

end Py

namespace NanoKVRouter

/-! ### Pools and their nodes -/

/-- The nodes of a pool have distinct ids. -/
def DistinctIds (nodes : List MockEngineNode) : Prop := (nodes.map MockEngineNode.nodeId).Nodup

/-- The node of a pool of least load, and of smallest id among equals. -/
def LeastLoaded (nodes : List MockEngineNode) (n : MockEngineNode) : Prop :=
  n ∈ nodes ∧ ∀ m ∈ nodes, m ≠ n →
    n.currentLoad < m.currentLoad ∨ n.currentLoad = m.currentLoad ∧ n.nodeId < m.nodeId

/-- The node of a pool of highest score, and of smallest id among equals. -/
def HighestScore (score : MockEngineNode → ℚ) (nodes : List MockEngineNode)
    (n : MockEngineNode) : Prop :=
  n ∈ nodes ∧ ∀ m ∈ nodes, m ≠ n →
    score m < score n ∨ score m = score n ∧ n.nodeId < m.nodeId

section Pools

variable {nodes nodes' : List MockEngineNode} {key : MockEngineNode → ℚ ×ₗ NodeId}

theorem DistinctIds.eq_of_nodeId (h : DistinctIds nodes) {n m : MockEngineNode} (hn : n ∈ nodes)
    (hm : m ∈ nodes) (hid : n.nodeId = m.nodeId) : n = m :=
  List.inj_on_of_nodup_map h hn hm hid

theorem DistinctIds.filter (h : DistinctIds nodes) (p : MockEngineNode → Bool) :
    DistinctIds (nodes.filter p) :=
  List.Nodup.sublist (List.filter_sublist.map _) h

/-- A key that ends in the node id tells the nodes of a pool apart. -/
theorem DistinctIds.injOn (h : DistinctIds nodes) (hkey : ∀ n, (ofLex (key n)).2 = n.nodeId) :
    ∀ n ∈ nodes, ∀ m ∈ nodes, key n = key m → n = m := by
  intro n hn m hm he
  refine h.eq_of_nodeId hn hm ?_
  rw [← hkey n, ← hkey m, he]

theorem DistinctIds.argmin_perm (h : DistinctIds nodes) (hp : nodes.Perm nodes')
    (hkey : ∀ n, (ofLex (key n)).2 = n.nodeId) : nodes.argmin key = nodes'.argmin key :=
  List.argmin_perm hp (h.injOn hkey)

theorem DistinctIds.lt_of_argmin (h : DistinctIds nodes) (hkey : ∀ n, (ofLex (key n)).2 = n.nodeId)
    {n m : MockEngineNode} (hn : nodes.argmin key = some n) (hm : m ∈ nodes) (hne : m ≠ n) :
    key n < key m := by
  refine lt_of_le_of_ne (List.le_of_mem_argmin hm hn) fun he => hne ?_
  exact (h.injOn hkey n (List.argmin_mem hn) m hm he).symm

theorem DistinctIds.leastLoaded (h : DistinctIds nodes) {n : MockEngineNode}
    (hn : nodes.argmin loadKey = some n) : LeastLoaded nodes n :=
  ⟨List.argmin_mem hn, fun _ hm hne =>
    Prod.Lex.toLex_lt_toLex.1 (h.lt_of_argmin (fun _ => rfl) hn hm hne)⟩

theorem DistinctIds.leastLoaded_perm (h : DistinctIds nodes) (hp : nodes.Perm nodes') :
    nodes.argmin loadKey = nodes'.argmin loadKey :=
  h.argmin_perm hp fun _ => rfl

end Pools

/-! ### The policies -/

section Policies

variable {σ : Type} (cache : CacheQuery σ) (request : Request) (backlogView : TransferBacklogView)
  (now : Time) {P P' D D' : List MockEngineNode}

theorem LeastLoadedPolicy.scheduleOn_perm (policy : LeastLoadedPolicy) (hP : DistinctIds P)
    (hD : DistinctIds D) (hp : P.Perm P') (hd : D.Perm D') :
    policy.scheduleOn cache request P D backlogView now =
      policy.scheduleOn cache request P' D' backlogView now := by
  rw [scheduleOn, scheduleOn, hP.leastLoaded_perm hp, hD.leastLoaded_perm hd]

/-- The best hit of a pool, and with it the candidates, are the same in every order. -/
theorem PrefixGreedyPolicy.candidates_perm (policy : PrefixGreedyPolicy) (promptLen : ℕ)
    (lookups : PyDict NodeId CacheLookup) (hd : D.Perm D') :
    (policy.candidates promptLen lookups D).Perm (policy.candidates promptLen lookups D') := by
  have hmax : (D.map fun n => (hitOf lookups n).matchedTokens).foldl max 0 =
      (D'.map fun n => (hitOf lookups n).matchedTokens).foldl max 0 :=
    (hd.map _).foldl_eq 0
  simp only [candidates, hmax]
  split
  · exact hd
  · exact hd.filter _

theorem PrefixGreedyPolicy.distinctIds_candidates (policy : PrefixGreedyPolicy) (promptLen : ℕ)
    (lookups : PyDict NodeId CacheLookup) (hD : DistinctIds D) :
    DistinctIds (policy.candidates promptLen lookups D) := by
  rw [candidates]
  split
  · exact hD
  · exact hD.filter _

theorem PrefixGreedyPolicy.scheduleOn_perm (policy : PrefixGreedyPolicy) (hP : DistinctIds P)
    (hD : DistinctIds D) (hp : P.Perm P') (hd : D.Perm D') :
    policy.scheduleOn cache request P D backlogView now =
      policy.scheduleOn cache request P' D' backlogView now := by
  have hcand : ∀ lookups, (policy.candidates request.tokenIds.length lookups D).argmin loadKey =
      (policy.candidates request.tokenIds.length lookups D').argmin loadKey := fun lookups =>
    (policy.distinctIds_candidates _ lookups hD).argmin_perm
      (policy.candidates_perm _ lookups hd) fun _ => rfl
  simp only [scheduleOn, hp.isEmpty_eq, hd.isEmpty_eq, hcand, hP.leastLoaded_perm hp]

theorem MooncakeConductor.scheduleOn_perm (policy : MooncakeConductor) (hP : DistinctIds P)
    (hD : DistinctIds D) (hp : P.Perm P') (hd : D.Perm D') :
    policy.scheduleOn cache request P D backlogView now =
      policy.scheduleOn cache request P' D' backlogView now := by
  have hscore : ∀ lookups, D.argmin (policy.scoreKey request lookups) =
      D'.argmin (policy.scoreKey request lookups) := fun lookups =>
    hD.argmin_perm hd fun _ => rfl
  simp only [scheduleOn, hp.isEmpty_eq, hd.isEmpty_eq, hscore, hP.leastLoaded_perm hp]

theorem E2Policy.readOnly_score (policy : E2Policy) (lookups : PyDict NodeId CacheLookup)
    (prefill decode : MockEngineNode) :
    (policy.score cache request lookups prefill backlogView now decode).ReadOnly :=
  (cache.freeBlocks_readOnly decode.nodeId "gpu").bind_pure _

/-- The cost of a node ends in its id. -/
theorem E2Policy.score_nodeId {policy : E2Policy} {lookups : PyDict NodeId CacheLookup}
    {prefill decode : MockEngineNode} {s t : σ} {k : ℚ ×ₗ NodeId}
    (h : (policy.score cache request lookups prefill backlogView now decode).run s = .ok k t) :
    (ofLex k).2 = decode.nodeId := by
  obtain ⟨free, t', -, h⟩ := Py.bind_eq_ok.1 h
  cases h
  rfl

/-- A decode node and its cost, as the E2 policy lists them. -/
def E2Policy.scored {σ : Type} (policy : E2Policy) (cache : CacheQuery σ) (request : Request)
    (lookups : PyDict NodeId CacheLookup) (prefill : MockEngineNode)
    (backlogView : TransferBacklogView) (now : Time) (decode : MockEngineNode) :
    Py σ (MockEngineNode × (ℚ ×ₗ NodeId)) := do
  pure (decode, ← policy.score cache request lookups prefill backlogView now decode)

theorem E2Policy.scored_eq {policy : E2Policy} {lookups : PyDict NodeId CacheLookup}
    {prefill decode : MockEngineNode} {s t : σ} {b : MockEngineNode × (ℚ ×ₗ NodeId)}
    (h : (policy.scored cache request lookups prefill backlogView now decode).run s = .ok b t) :
    b.1 = decode ∧ (ofLex b.2).2 = decode.nodeId := by
  obtain ⟨k, t', hk, h⟩ := Py.bind_eq_ok.1 h
  cases h
  exact ⟨rfl, policy.score_nodeId cache request backlogView now hk⟩

/-- The costs of a permuted pool are a permutation of its costs, with the same least one. -/
theorem E2Policy.mapM_scored_perm (policy : E2Policy) (lookups : PyDict NodeId CacheLookup)
    (prefill : MockEngineNode) (hD : DistinctIds D) (hd : D.Perm D') {s t : σ}
    {bs : List (MockEngineNode × (ℚ ×ₗ NodeId))}
    (h : (D.mapM (policy.scored cache request lookups prefill backlogView now)).run s =
      .ok bs t) :
    ∃ bs', (D'.mapM (policy.scored cache request lookups prefill backlogView now)).run s =
      .ok bs' t ∧ bs.argmin Prod.snd = bs'.argmin Prod.snd := by
  have hread : ∀ n, (policy.scored cache request lookups prefill backlogView now n).ReadOnly :=
    fun n => (policy.readOnly_score cache request backlogView now lookups prefill n).bind_pure _
  obtain ⟨rfl, hall⟩ := (Py.run_mapM_readOnly hread D s t bs).1 h
  obtain ⟨bs', hall', hperm⟩ := List.perm_comp_forall₂ hd.symm hall
  refine ⟨bs', (Py.run_mapM_readOnly hread D' t t bs').2 ⟨rfl, hall'⟩,
    List.argmin_perm hperm.symm ?_⟩
  -- equal costs end in the same id, so they are the costs of one node
  intro a ha b hb hab
  obtain ⟨n, hn, ha'⟩ := hall.exists_left ha
  obtain ⟨m, hm, hb'⟩ := hall.exists_left hb
  obtain ⟨rfl, ha₂⟩ := policy.scored_eq cache request backlogView now ha'
  obtain ⟨rfl, hb₂⟩ := policy.scored_eq cache request backlogView now hb'
  have hid : a.1.nodeId = b.1.nodeId := by rw [← ha₂, ← hb₂, hab]
  exact Prod.ext (hD.eq_of_nodeId hn hm hid) hab

theorem E2Policy.scheduleOn_perm_ok (policy : E2Policy) (hP : DistinctIds P) (hD : DistinctIds D)
    (hp : P.Perm P') (hd : D.Perm D') {s t : σ} {d : SchedulingDecision}
    (h : (policy.scheduleOn cache request P D backlogView now).run s = .ok d t) :
    (policy.scheduleOn cache request P' D' backlogView now).run s = .ok d t := by
  rw [scheduleOn] at h ⊢
  rw [← hp.isEmpty_eq, ← hd.isEmpty_eq]
  split at h
  case isTrue he => rwa [if_pos he]
  case isFalse he =>
      rw [if_neg he]
      obtain ⟨lookups, s₁, hl, h⟩ := Py.bind_eq_ok.1 h
      refine Py.bind_eq_ok.2 ⟨lookups, s₁, hl, ?_⟩
      rw [← hP.leastLoaded_perm hp]
      cases hmin : P.argmin loadKey with
      | none => rwa [hmin] at h
      | some prefill =>
          simp only [hmin] at h ⊢
          obtain ⟨bs, s₂, hbs, h⟩ := Py.bind_eq_ok.1 h
          obtain ⟨bs', hbs', hmin'⟩ :=
            policy.mapM_scored_perm cache request backlogView now lookups prefill hD hd hbs
          refine Py.bind_eq_ok.2 ⟨bs', s₂, hbs', ?_⟩
          rwa [← hmin']

/-- The verdict on a chosen pair is an acceptance when both targets are met. -/
theorem SchedulingDecision.isRejected_sloGate (d : SchedulingDecision) (hd : d.isRejected = false) :
    (d.sloGate request).isRejected = false ↔
      d.estimatedTtftMs ≤ request.sloTtft ∧ d.estimatedTbtMs ≤ request.sloTbt := by
  rw [sloGate]
  split
  case isTrue h => exact ⟨fun hr => (by cases hr), fun hr => absurd hr.1 (not_le.2 h)⟩
  case isFalse h =>
      split
      case isTrue h' => exact ⟨fun hr => (by cases hr), fun hr => absurd hr.2 (not_le.2 h')⟩
      case isFalse h' => exact ⟨fun _ => ⟨not_lt.1 h, not_lt.1 h'⟩, fun _ => hd⟩

theorem MooncakeConductor.highestScore (policy : MooncakeConductor)
    (lookups : PyDict NodeId CacheLookup) (hD : DistinctIds D) {n : MockEngineNode}
    (hn : D.argmin (policy.scoreKey request lookups) = some n) :
    HighestScore (policy.score request lookups) D n := by
  refine ⟨List.argmin_mem hn, fun m hm hne => ?_⟩
  have hlt := Prod.Lex.toLex_lt_toLex.1 (hD.lt_of_argmin (fun _ => rfl) hn hm hne)
  exact hlt.imp neg_lt_neg_iff.1 fun h => ⟨(neg_inj.1 h.1).symm, h.2⟩

/-- **The Conductor accepts** when its decode node of highest score meets both targets. -/
theorem MooncakeConductor.accepts_iff (policy : MooncakeConductor) (hP : DistinctIds P)
    (hD : DistinctIds D) (hPne : P ≠ []) (hDne : D ≠ []) {s t : σ} {d : SchedulingDecision}
    (h : (policy.scheduleOn cache request P D backlogView now).run s = .ok d t) :
    ∃ lookups prefill decode, (cache.lookupAll request).run s = .ok lookups t ∧
      LeastLoaded P prefill ∧ HighestScore (policy.score request lookups) D decode ∧
      (d.isRejected = false ↔
        computeEstTtft prefill decode request (hitOf lookups decode) policy.model.kvBytesPerToken
            policy.bandwidth.gpuToGpu backlogView now ≤ request.sloTtft ∧
          computeEstTbt decode ≤ request.sloTbt) := by
  rw [scheduleOn, if_neg (by simp [hPne, hDne])] at h
  obtain ⟨lookups, s₁, hl, h⟩ := Py.bind_eq_ok.1 h
  have hpne : P.argmin loadKey ≠ none := mt List.argmin_eq_none.1 hPne
  have hdne : D.argmin (policy.scoreKey request lookups) ≠ none := mt List.argmin_eq_none.1 hDne
  obtain ⟨prefill, hp⟩ := Option.ne_none_iff_exists'.1 hpne
  obtain ⟨decode, hd⟩ := Option.ne_none_iff_exists'.1 hdne
  rw [hp, hd] at h
  cases h
  exact ⟨lookups, prefill, decode, hl, hP.leastLoaded hp,
    policy.highestScore request lookups hD hd, SchedulingDecision.isRejected_sloGate request _ rfl⟩

/-- **Permuted pools give the same decision**, under each of the four policies: the call of the
first three is the same, and the E2 policy, which may raise at another node, returns the same
decision.  For non-empty pools, the Conductor accepts when its node of maximal score meets both
targets. -/
theorem schedule_perm (hP : DistinctIds P) (hD : DistinctIds D) (hp : P.Perm P')
    (hd : D.Perm D') :
    (∀ policy : LeastLoadedPolicy, policy.scheduleOn cache request P D backlogView now =
      policy.scheduleOn cache request P' D' backlogView now) ∧
    (∀ policy : PrefixGreedyPolicy, policy.scheduleOn cache request P D backlogView now =
      policy.scheduleOn cache request P' D' backlogView now) ∧
    (∀ (policy : E2Policy) (s t : σ) (d : SchedulingDecision),
      (policy.scheduleOn cache request P D backlogView now).run s = .ok d t ↔
        (policy.scheduleOn cache request P' D' backlogView now).run s = .ok d t) ∧
    (∀ policy : MooncakeConductor, policy.scheduleOn cache request P D backlogView now =
      policy.scheduleOn cache request P' D' backlogView now) ∧
    (P ≠ [] → D ≠ [] → ∀ (policy : MooncakeConductor) (s t : σ) (d : SchedulingDecision),
      (policy.scheduleOn cache request P D backlogView now).run s = .ok d t →
      ∃ lookups prefill decode, (cache.lookupAll request).run s = .ok lookups t ∧
        LeastLoaded P prefill ∧ HighestScore (policy.score request lookups) D decode ∧
        (d.isRejected = false ↔
          computeEstTtft prefill decode request (hitOf lookups decode) policy.model.kvBytesPerToken
              policy.bandwidth.gpuToGpu backlogView now ≤ request.sloTtft ∧
            computeEstTbt decode ≤ request.sloTbt)) := by
  have hP' : DistinctIds P' := (hp.map _).nodup hP
  have hD' : DistinctIds D' := (hd.map _).nodup hD
  refine ⟨fun policy => policy.scheduleOn_perm cache request backlogView now hP hD hp hd,
    fun policy => policy.scheduleOn_perm cache request backlogView now hP hD hp hd,
    fun policy s t d => ⟨fun h => ?_, fun h => ?_⟩,
    fun policy => policy.scheduleOn_perm cache request backlogView now hP hD hp hd,
    fun hPne hDne policy s t d h =>
      policy.accepts_iff cache request backlogView now hP hD hPne hDne h⟩
  · exact policy.scheduleOn_perm_ok cache request backlogView now hP hD hp hd h
  · exact policy.scheduleOn_perm_ok cache request backlogView now hP' hD' hp.symm hd.symm h

end Policies

/-- A view without hits, which knows some nodes and raises for the others. -/
def nullCacheQuery (nodeIds : List NodeId) (freeBlocksCount : ℕ) : CacheQuery Unit where
  lookup := fun _ nodeId =>
    if nodeId ∈ nodeIds then pure CacheLookup.miss else Py.raise (.keyError nodeId)
  lookupAll := fun _ => pure (nodeIds.foldl (fun d n => d.set n CacheLookup.miss) PyDict.empty)
  freeBlocks := fun nodeId _ =>
    if nodeId ∈ nodeIds then pure freeBlocksCount else Py.raise (.keyError nodeId)
  freeBlocks_readOnly := fun nodeId _ s => by
    split
    · rfl
    · rfl

/-- The E2 policy with its default weights. -/
def defaultE2 : E2Policy := { model := .defaults, bandwidth := .defaults }

/-- The Conductor with its default weights. -/
def defaultConductor : MooncakeConductor := { model := .defaults, bandwidth := .defaults }

/-- Two idle nodes of a pool, listed against the order of their ids. -/
def idlePool (first second : NodeId) : List MockEngineNode :=
  [.init second .defaults .defaults, .init first .defaults .defaults]

/-- The verdict on the first of each pool, for a prompt of two tokens. -/
def firstOfEach : SchedulingDecision where
  prefillNode := some "p0"
  decodeNode := some "d0"
  estimatedTtftMs := 32690629 / 1171875
  estimatedTbtMs := 11 / 2

theorem schedule_perm_idle :
    (defaultE2.scheduleOn (nullCacheQuery ["d0", "d1"] 1024) ⟨"r", [1, 2], 4, 0, 2000, 100⟩
        (idlePool "p0" "p1").reverse (idlePool "d0" "d1").reverse
        TransferModel.noop.peekBacklog 0).run () = .ok firstOfEach () ∧
      (∃ lookups prefill decode,
        ((nullCacheQuery ["d0", "d1"] 1024).lookupAll ⟨"r", [1, 2], 4, 0, 2000, 100⟩).run () =
          .ok lookups () ∧
        LeastLoaded (idlePool "p0" "p1") prefill ∧
        HighestScore (defaultConductor.score ⟨"r", [1, 2], 4, 0, 2000, 100⟩ lookups)
          (idlePool "d0" "d1") decode ∧
        (firstOfEach.isRejected = false ↔
          computeEstTtft prefill decode ⟨"r", [1, 2], 4, 0, 2000, 100⟩ (hitOf lookups decode)
              defaultConductor.model.kvBytesPerToken defaultConductor.bandwidth.gpuToGpu
              TransferModel.noop.peekBacklog 0 ≤ 2000 ∧
            computeEstTbt decode ≤ 100)) := by
  have hP : DistinctIds (idlePool "p0" "p1") := by unfold DistinctIds; decide
  have hD : DistinctIds (idlePool "d0" "d1") := by unfold DistinctIds; decide
  have h := schedule_perm (nullCacheQuery ["d0", "d1"] 1024) ⟨"r", [1, 2], 4, 0, 2000, 100⟩
    TransferModel.noop.peekBacklog 0 hP hD (List.reverse_perm _).symm (List.reverse_perm _).symm
  exact ⟨(h.2.2.1 defaultE2 () () firstOfEach).1
      (EStateM.Result.eq_ok_of_value? (by decide +kernel)),
    h.2.2.2.2 (List.cons_ne_nil _ _) (List.cons_ne_nil _ _) defaultConductor () () firstOfEach
      (EStateM.Result.eq_ok_of_value? (by decide +kernel))⟩

end NanoKVRouter
