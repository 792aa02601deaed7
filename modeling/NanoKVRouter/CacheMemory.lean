/-
**When an admission runs out of memory.**

An admission reserves one block for each full block of the prompt and one for the head of a split
edge, or the whole GPU tier if that is less.  A prompt that the tier cannot hold is refused.  The
size check comes after the purge of a stale path, but such a prompt has no path in the tree to be
purged: no path of a reachable tree is longer than what the GPU tier holds.

The reservation is too small in one case and too large in others.  A prompt that takes the whole tier
gets no block for a head.  And a prompt of which most is there already needs less than is reserved,
so that `MemoryError` may be raised while the blocks the insertion would mint are free.

Main definitions:

* `NodeCache.Leaves` — the held GPU blocks leave what the loop reserves;
* `NodeCache.reusable` — the blocks a materialization pins before it admits the prompt;
* `NodeCache.Spares` — the loop frees no block that the insertion keeps.

Main results:

* `CacheManager.Reachable.length_le_capacity` — **no path is longer than the GPU tier**;
* `CacheManager.admit_oversize` — **an oversize prompt is refused** without touching the cache;
* `CacheManager.admit_unpinned_iff_mints` — with nothing pinned an admission finds room, with one
  kind of exceptions;
* `CacheManager.admit_memoryError_iff`, `CacheManager.materialize_memoryError_iff_spares` — when
  memory runs out though the blocks are free.
-/

import NanoKVRouter.CacheRoom

set_option relaxedAutoImplicit false
set_option autoImplicit false

namespace NanoKVRouter

/-! ### The admission of a prompt that is not matched -/

namespace NodeCache

variable {c : NodeCache} {s : CacheState} {bs k : ℕ} {T P : List Token} {gpuBlocks : ℕ}
  {clock : ℕ → Time}

/-- When the tree matches less than the prompt, room is made at once. -/
theorem run_admitPrepare_unmatched (gpuBlocks : ℕ) (clock : ℕ → Time)
    (h : c.Represents bs s) (hT : alignedTokens bs T = (P, k))
    (hlt : s.trie.matched P / bs < k) :
    ∃ t', RadixTree.SameShape c.tree t' ∧ (admitPrepare bs gpuBlocks clock T).run c =
      (do makeRoom gpuBlocks (fun j => clock (j + 2)) k
          pure true : Py NodeCache Bool).run { c with tree := t' } := by
  obtain ⟨-, full, hv⟩ := h.tree
  obtain ⟨t', hshape, heq⟩ := hv.matchPrefixPath_eq (clock 0) P
  have hpath : (matchPrefixPath (clock 0) P).run c =
      .ok (s.trie.matched P, s.trie.path P) { c with tree := t' } := by
    change EStateM.Result.ok _ _ = _
    rw [heq]
  have h0 : k ≠ 0 := Nat.ne_zero_of_lt hlt
  refine ⟨t', hshape, ?_⟩
  simp only [admitPrepare, hT, if_neg h0]
  rw [Py.run_bind_ok hpath]
  simp only [ge_iff_le, if_neg (not_le.2 hlt)]

/-! ### Materializations on a path without freed blocks -/

/-- The blocks a materialization of the prompt reuses, which it pins before it admits it. -/
def reusable (c : NodeCache) (bs : ℕ) (P : List Token) (k : ℕ) : List BlockId :=
  ((c.walk P).2.take (min ((c.walk P).1 / bs) k)).takeWhile c.pool.live

theorem Represents.reusable_eq (h : c.Represents bs s) (P : List Token) (k : ℕ) :
    c.reusable bs P k = s.liveRun P (min (s.trie.matched P / bs) k) := by
  rw [reusable, h.walk_eq, h.pool]
  rfl

/-- The GPU blocks at or above one for which `pinned` holds leave the room that the admission of `k`
blocks asks for. -/
def Leaves (c : NodeCache) (gpuBlocks k : ℕ) (pinned : BlockId → Bool) : Prop :=
  c.heldGpu pinned + min (k + 1) gpuBlocks ≤ gpuBlocks

/-- When the insertion of a materialization is due, none of the first `k` blocks that it keeps on the
path is freed. -/
def Spares (c : NodeCache) (bs gpuBlocks : ℕ) (clock : ℕ → Time) (P : List Token) (k : ℕ) : Prop :=
  ∀ len c₁ ids c₂, (retainPrefix bs (clock 0) P k).run (c, []) = .ok len (c₁, ids) →
    (admitPrepare bs gpuBlocks (fun j => clock (j + 2)) P).run c₁ = .ok true c₂ →
    ∀ b ∈ (c₂.tree.keptBlocks P).take k, c₂.pool.live b = true

/-- There is one cache in which that insertion is due. -/
theorem spares_iff_of_run {len : ℕ} {c₁ c₂ : NodeCache} {ids : List BlockId}
    (hrun : (retainPrefix bs (clock 0) P k).run (c, []) = .ok len (c₁, ids))
    (hprep : (admitPrepare bs gpuBlocks (fun j => clock (j + 2)) P).run c₁ = .ok true c₂) :
    c.Spares bs gpuBlocks clock P k ↔
      ∀ b ∈ (c₂.tree.keptBlocks P).take k, c₂.pool.live b = true := by
  constructor
  · intro hall
    exact hall len c₁ ids c₂ hrun hprep
  · intro hall len c₁' ids c₂' hrun' hprep'
    rw [hrun] at hrun'
    cases hrun'
    rw [hprep] at hprep'
    cases hprep'
    exact hall

/-- On a path without freed blocks the prompt is complete exactly if it is matched. -/
theorem complete_iff_matched (hbs : 0 < bs) (hP : P.length = k * bs) (hne : P ≠ [])
    (hlive : ∀ b ∈ s.trie.path P, s.pool.live b = true) :
    s.Complete P k ↔ k ≤ s.trie.matched P / bs := by
  rw [CacheState.le_matched_div_iff hbs hP hne]
  exact ⟨fun h => h.node, fun h => ⟨h, fun b hb => hlive b (List.mem_of_mem_take hb)⟩⟩

/-- There is nothing to clash with. -/
theorem not_clash_of_live (hlive : ∀ b ∈ s.trie.path P, s.pool.live b = true) : ¬ s.Clash P k := by
  rintro ⟨⟨-, b, hb, hdead⟩, -⟩
  rw [hlive b (List.mem_of_mem_take hb)] at hdead
  cases hdead

/-- The `except` clause never returns. -/
theorem isOk_materialize (gpuBlocks : ℕ) (clock : ℕ → Time) (P : List Token) (k : ℕ)
    (c : NodeCache) : ((materialize bs gpuBlocks clock P k).run c).isOk =
      ((materializeBody bs gpuBlocks clock P k).run (c, [])).isOk := by
  cases hrun : (materializeBody bs gpuBlocks clock P k).run (c, []) with
  | ok r st =>
      rw [run_materialize_ok hrun]
      rfl
  | error e st =>
      rw [run_materialize_error hrun, releaseRetained, EStateM.run_bind]
      cases (releaseBlocks st.2).run st.1 <;> rfl

/-- The end of the body returns exactly if the path is complete. -/
theorem isOk_pinPath (h : c.Represents bs s) (hi : s.Inv) (hbs : 0 < bs) (now : Time)
    (hP : P.length = k * bs) (hne : P ≠ []) (R : List BlockId) (n : ℕ) :
    ((do let ids ← pinPath bs now P k; pure (ids, n) : Py _ _).run (c, R)).isOk = true ↔
      s.Complete P k := by
  by_cases hfull : s.Complete P k
  · obtain ⟨c', q, hrun, -⟩ := pinPath_ok h hi hbs now hP hne hfull R
    rw [Py.run_bind_ok hrun]
    exact iff_of_true rfl hfull
  · obtain ⟨msg, c', hrun, -⟩ := pinPath_error h hi hbs now hP hne hfull R
    rw [Py.run_bind_error hrun]
    exact iff_of_false (by simp [EStateM.Result.isOk]) hfull

/-- All blocks of a complete path that is matched are pinned. -/
theorem Represents.le_length_liveRun (h : c.Represents bs s) (hbs : 0 < bs)
    (hP : P.length = k * bs) (hfull : s.Complete P k) (hmatch : k ≤ s.trie.matched P / bs) :
    k ≤ (s.liveRun P (min (s.trie.matched P / bs) k)).length := by
  have hpre : (s.trie.path P).take k <+: s.liveRun P (min (s.trie.matched P / bs) k) :=
    CacheState.prefix_liveRun (List.take_prefix _ _)
      (by rw [Nat.min_eq_right hmatch]; exact List.length_take_le _ _) hfull.live
  have hle := hpre.length_le
  rwa [List.length_take, Nat.min_eq_left (h.le_length_path hbs hP hfull.node)] at hle

/-- The blocks that will be pinned leave room exactly if they do once they are pinned. -/
theorem Represents.leaves_reusable_iff (h : c.Represents bs s) (hi : s.Inv) {q : BlockPool}
    (hq : BlockPool.Pinned s.pool (s.liveRun P (min (s.trie.matched P / bs) k)) q) :
    c.Leaves gpuBlocks k (fun b => c.pool.pinned b || decide (b ∈ c.reusable bs P k)) ↔
      CacheState.heldGpu ⟨s.trie, q⟩ q.pinned + min (k + 1) gpuBlocks ≤ gpuBlocks := by
  have hheld : CacheState.heldGpu ⟨s.trie, q⟩ q.pinned = s.heldGpu q.pinned := by
    rw [CacheState.heldGpu, CacheState.heldGpu, hq.tiers_eq]
    rfl
  rw [Leaves, h.heldGpu_eq hi, h.reusable_eq, h.pool, hheld, hq.pinned_eq hi.pool_wf]

/-- **A materialization whose path has no freed block** and whose mints fit into the GPU tier returns
exactly if the prompt is matched, or the loop can make room and spares what the insertion keeps. -/
theorem isOk_materialize_iff (h : c.Represents bs s) (hi : s.Inv) (hbs : 0 < bs)
    (hcap : (s.pool.tiers .gpu).capacity = gpuBlocks) (hk : k ≤ gpuBlocks) (hpos : 0 < k)
    (hP : P.length = k * bs) (hlive : ∀ b ∈ s.trie.path P, s.pool.live b = true)
    (hmint : (c.tree.mints P).sum ≤ gpuBlocks) (clock : ℕ → Time) :
    ((materialize bs gpuBlocks clock P k).run c).isOk = true ↔
      k ≤ s.trie.matched P / bs ∨
        c.Leaves gpuBlocks k (fun b => c.pool.pinned b || decide (b ∈ c.reusable bs P k)) ∧
          c.Spares bs gpuBlocks clock P k := by
  have hne := aligned_ne_nil (alignedTokens_self hbs hP) hbs hpos
  obtain ⟨c₁, q, hrun₁, hc₁, -, hq⟩ := retainPrefix_spec (k := k) h hi (clock 0) P
  have hi₁ := hi.pin (s.liveRun_prefix P _) (fun b hb => CacheState.liveRun_live hb)
    (fun b hb => hb) hq
  have hlive₁ : ∀ b ∈ s.trie.path P, q.live b = true := fun b hb => by
    rw [BlockPool.live, hq.tierOf_eq]
    exact hlive b hb
  rw [isOk_materialize, materializeBody, Py.run_bind_ok hrun₁]
  by_cases hmatch : k ≤ s.trie.matched P / bs
  · -- the prompt is there: nothing is admitted
    have hfull := (complete_iff_matched hbs hP hne hlive).2 hmatch
    have hlen := h.le_length_liveRun hbs hP hfull hmatch
    have hadm : (admitMissing bs gpuBlocks (fun j => clock (j + 2)) P
        (s.liveRun P (min (s.trie.matched P / bs) k)).length k).run c₁ = .ok () c₁ := by
      rw [admitMissing, if_neg (not_lt.2 hlen)]
      rfl
    rw [Py.run_bind_ok (run_beside_ok hadm _), isOk_pinPath hc₁ hi₁ hbs (clock 1) hP hne]
    exact iff_of_true ⟨hfull.node, fun b hb => hlive₁ b (List.mem_of_mem_take hb)⟩ (Or.inl hmatch)
  · have hlen : (s.liveRun P (min (s.trie.matched P / bs) k)).length < k :=
      (s.length_liveRun_le P _).trans_lt ((Nat.min_le_left _ _).trans_lt (not_le.1 hmatch))
    have hincomplete : ¬ (⟨s.trie, q⟩ : CacheState).Complete P k := by
      rw [complete_iff_matched hbs hP hne hlive₁]
      exact hmatch
    have hcap₁ : (q.tiers .gpu).capacity = gpuBlocks := by rw [hq.tiers_eq, hcap]
    rw [h.leaves_reusable_iff hi hq, or_iff_right hmatch, admitMissing, if_pos hlen]
    obtain ⟨m, c₂, s₂, hc₂, hturn, -, hout⟩ := admit_spec hc₁ hi₁ hbs gpuBlocks
      (fun j => clock (j + 2)) (alignedTokens_self hbs hP)
    have hends := admit_ends hc₁ hi₁ hbs hk (fun j => clock (j + 2)) (alignedTokens_self hbs hP)
    generalize hprep : (admitPrepare bs gpuBlocks (fun j => clock (j + 2)) P).run c₁ = prep
      at hout hends
    generalize hrun : (admitTokens bs gpuBlocks (fun j => clock (j + 2)) P).run c₁ = r
      at hout hends
    cases hout with
    | hit _ _ _ hcomp => exact absurd (hcomp hpos) hincomplete
    | clash msg _ _ hcl => exact absurd hcl (not_clash_of_live hlive₁)
    | full msg _ =>
        rw [Py.run_bind_error (run_beside_error hrun _)]
        refine iff_of_false (by simp [EStateM.Result.isOk]) ?_
        rintro ⟨hroom, -⟩
        cases hends with
        | full _ _ _ _ hheld => exact absurd hroom (not_le.2 hheld)
        | short cm m' _ _ hclear hshort =>
            exact hclear.fits hcap₁ hk hP hbs (h.tree) hmint hshort
    | inserted cm bs' fresh hprep' hcm _ _ hnode hpath hfresh _ =>
        subst hprep'
        rw [Py.run_bind_ok (run_beside_ok hrun _),
          isOk_pinPath hc₂ (hturn.inv hi₁) hbs (clock 1) hP hne, spares_iff_of_run hrun₁ hprep]
        have hiff := CacheManager.live_path_iff hcm (hturn.evicts.inv hi₁) hturn.grows hpath hfresh
          (k := k)
        cases hends with
        | inserted _ m' _ hclear _ =>
            rw [and_iff_right hclear.held_le, ← hiff]
            exact ⟨fun hfull => hfull.live, fun hall => ⟨hnode, hall⟩⟩

end NodeCache

namespace CacheManager

variable {nodeIds : List NodeId} {model : ModelConfig} {nodeConfig : NodeConfig}
  {bandwidth : BandwidthConfig} {cm : CacheManager} {n : NodeId} {c : NodeCache} {s : CacheState}

/-! ### Oversize prompts -/

/-- **No path of a reachable tree is longer than the GPU tier.** -/
theorem Reachable.length_le_capacity (h : Reachable nodeIds model nodeConfig bandwidth cm)
    (hc : cm.caches.get? n = some c) (hs : NodeInv cm n c s) {l : List Token}
    (hl : (s.trie l).isSome) : l.length ≤ nodeConfig.gpuBlocks * model.blockSize := by
  obtain ⟨ops, rfl⟩ := h.exists_run
  refine @run_nodes _ _ _ _ _ _ _ (fun _ => True)
    (fun l => l.length ≤ nodeConfig.gpuBlocks * model.blockSize) (fun _ _ T P k _ _ hT hk => ?_) ops
    (fun _ _ => trivial) hc hs l hl
  have hP : P.length ≤ nodeConfig.gpuBlocks * model.blockSize := by
    rw [NodeCache.length_aligned hT]
    exact Nat.mul_le_mul_right _ hk
  exact ⟨hP, fun w _ => (RadixTree.lcp_isPrefix_left P w).length_le.trans hP⟩

/-- **An oversize prompt is refused** and the cache is as it was, but for access times. -/
theorem admit_oversize (h : Reachable nodeIds model nodeConfig bandwidth cm)
    (hc : cm.caches.get? n = some c) {T : List Token}
    (hbig : nodeConfig.gpuBlocks < T.length / model.blockSize) (clock : ℕ → Time) :
    ∃ msg c', (admitTokens clock T n).run cm =
        .error (.memoryError msg) { cm with caches := cm.caches.set n c' } ∧
      c'.pool = c.pool ∧ RadixTree.SameShape c.tree c'.tree := by
  obtain ⟨s, hs⟩ := h.inv.node n c hc
  obtain ⟨rfl, rfl, rfl⟩ := h.config
  obtain ⟨P, hT⟩ : ∃ P, NodeCache.alignedTokens cm.model.blockSize T =
    (P, T.length / cm.model.blockSize) := ⟨_, rfl⟩
  generalize T.length / cm.model.blockSize = k at hbig hT
  -- the tree matches no more than the GPU tier holds
  have hmatch : s.trie.matched P ≤ cm.nodeConfig.gpuBlocks * cm.model.blockSize := by
    by_cases h0 : s.trie.matched P = 0
    · rw [h0]
      exact Nat.zero_le _
    · have hlen := h.length_le_capacity hc hs (PathTrie.isSome_take_matched h0)
      rwa [List.length_take, Nat.min_eq_left (s.trie.matched_le P)] at hlen
  have hlt : s.trie.matched P / cm.model.blockSize < k := by
    rw [Nat.mul_comm] at hmatch
    exact (Nat.div_le_of_le_mul hmatch).trans_lt hbig
  obtain ⟨t', hshape, hprep⟩ := NodeCache.run_admitPrepare_unmatched
    cm.nodeConfig.gpuBlocks clock hs.represents hT hlt
  obtain ⟨msg, hroom⟩ : ∃ msg, (NodeCache.makeRoom cm.nodeConfig.gpuBlocks
      (fun j => clock (j + 2)) k).run { c with tree := t' } =
      .error (.memoryError msg) { c with tree := t' } :=
    ⟨_, by rw [NodeCache.makeRoom, if_pos hbig]; rfl⟩
  rw [Py.run_bind_error hroom] at hprep
  refine ⟨msg, { c with tree := t' }, ?_, rfl, hshape⟩
  rw [admitTokens, Py.run_get_bind, run_onNode _ hc, NodeCache.admitTokens,
    Py.run_bind_error hprep]
  rfl

/-- The cache of a prompt is not touched when a longer one is refused. -/
theorem admit_oversize_two : ∃ c msg c',
    ((oneNode unitBlocks 2 1 0).run [.admitAt 1 [1, 2]]).caches.get? "n" = some c ∧
      (admitTokens (fun _ => 2) [1, 2, 3] "n").run
          ((oneNode unitBlocks 2 1 0).run [.admitAt 1 [1, 2]]) =
        .error (.memoryError msg) { (oneNode unitBlocks 2 1 0).run [.admitAt 1 [1, 2]] with
          caches := ((oneNode unitBlocks 2 1 0).run [.admitAt 1 [1, 2]]).caches.set "n" c' } ∧
      c'.pool = c.pool ∧ RadixTree.SameShape c.tree c'.tree := by
  obtain ⟨c, hc⟩ : ∃ c, ((oneNode unitBlocks 2 1 0).run [.admitAt 1 [1, 2]]).caches.get? "n" =
      some c := Option.isSome_iff_exists.1 (by decide +kernel)
  obtain ⟨msg, c', hrun, hpool, hshape⟩ := @admit_oversize ["n"] unitBlocks _ _ _ _ _
    (Reachable.init.run _) hc [1, 2, 3] (by decide) fun _ => 2
  exact ⟨c, msg, c', hc, hrun, hpool, hshape⟩

/-! ### Nothing pinned -/

/-- A call runs out of memory on a known node when its cache does. -/
theorem onNode_memoryError_iff {α : Type} {m : Py NodeCache α} (hc : cm.caches.get? n = some c) :
    (∀ msg cm', (onNode n m).run cm ≠ .error (.memoryError msg) cm') ↔
      ∀ msg c', m.run c ≠ .error (.memoryError msg) c' := by
  rw [run_onNode m hc]
  cases m.run c with
  | ok a c' => simp
  | error e c' => simp

/-- With nothing pinned an admission finds room unless the prompt takes the whole GPU tier and
parts from an edge inside its first block, which is still in the tree when the tier is empty. -/
theorem admit_unpinned_iff_mints (h : Reachable nodeIds model nodeConfig bandwidth cm)
    (hc : cm.caches.get? n = some c) (hpin : ∀ b, c.pool.pinned b = false) {T : List Token}
    (hfit : T.length / model.blockSize ≤ nodeConfig.gpuBlocks) (clock : ℕ → Time) :
    (∀ msg cm', (admitTokens clock T n).run cm ≠ .error (.memoryError msg) cm') ↔
      (T.length / model.blockSize < nodeConfig.gpuBlocks ∨
        ∀ c₁, (NodeCache.admitPrepare model.blockSize nodeConfig.gpuBlocks clock T).run c =
            .ok true c₁ →
          c₁.tree.mints (NodeCache.alignedTokens model.blockSize T).1 ≠
            [1, T.length / model.blockSize]) := by
  obtain ⟨s, hs⟩ := h.inv.node n c hc
  obtain ⟨rfl, rfl, rfl⟩ := h.config
  have hbs := cm.model.one_le_blockSize
  obtain ⟨P, k, hP, hk, hT⟩ : ∃ P k, (NodeCache.alignedTokens cm.model.blockSize T).1 = P ∧
    T.length / cm.model.blockSize = k ∧ NodeCache.alignedTokens cm.model.blockSize T = (P, k) :=
    ⟨_, _, rfl, rfl, rfl⟩
  rw [hP, hk]
  rw [hk] at hfit
  have hrun : (admitTokens clock T n).run cm = (onNode n
      (NodeCache.admitTokens cm.model.blockSize cm.nodeConfig.gpuBlocks clock T)).run cm := rfl
  rw [hrun, onNode_memoryError_iff hc]
  have hun : ∀ b, s.pool.pinned b = false := fun b => by rw [← hs.represents.pool, hpin]
  have hlen := NodeCache.length_aligned hT
  have hends := NodeCache.admit_ends hs.represents hs.inv hbs hfit clock hT
  generalize (NodeCache.admitPrepare cm.model.blockSize cm.nodeConfig.gpuBlocks clock T).run c =
    prep at hends ⊢
  generalize (NodeCache.admitTokens cm.model.blockSize cm.nodeConfig.gpuBlocks clock T).run c = r
    at hends ⊢
  cases hends with
  | hit c' _ => simp
  | clash msg c' hcl => simp
  | full msg c' hpos hfull hheld =>
      -- nothing is held
      rw [CacheState.heldGpu_eq_zero hun] at hheld
      omega
  | inserted c₁ s₁ c' hclear hle =>
      have hshort := hclear.short_iff (hs.capacity_eq .gpu) hfit hlen hbs
      refine iff_of_true (by simp) ?_
      rw [← not_lt, hshort, not_and] at hle
      rcases hfit.lt_or_eq with hlt | heq
      · exact Or.inl hlt
      · exact Or.inr fun c₂ hc₂ => by cases hc₂; exact hle heq
  | short c₁ s₁ msg c' hclear hlt =>
      rw [hclear.short_iff (hs.capacity_eq .gpu) hfit hlen hbs] at hlt
      refine iff_of_false (by simp) ?_
      rintro (hk' | hne)
      · exact absurd hlt.1 hk'.ne
      · exact hne c₁ rfl hlt.2

/-- Without block tables nothing is pinned. -/
theorem unpinned_of_no_tables (h : cm.Inv) (hc : cm.caches.get? n = some c)
    (ht : cm.blockTables.entries = []) (b : BlockId) : c.pool.pinned b = false := by
  obtain ⟨s, hs⟩ := h.node n c hc
  rw [hs.represents.pool, BlockPool.pinned, hs.pin_eq, tableCount, ht]
  rfl

/-! ### No freed blocks, and room for the mints -/

/-- A materialization runs out of memory when its cache does. -/
theorem materializeRequest_memoryError_iff {clock : ℕ → Time} {r : RequestId} {T P : List Token}
    {k : ℕ} (hc : cm.caches.get? n = some c) (ht : cm.blockTables.get? (n, r) = none)
    (hT : NodeCache.alignedTokens cm.model.blockSize T = (P, k)) (hk : 0 < k) :
    (∀ msg cm', (materializeRequest clock r T n).run cm ≠ .error (.memoryError msg) cm') ↔
      ∀ msg c', (NodeCache.materialize cm.model.blockSize cm.nodeConfig.gpuBlocks clock P k).run c ≠
        .error (.memoryError msg) c' := by
  have hacq : (acquireBlocks clock T n).run cm =
      (onNode n (NodeCache.materialize cm.model.blockSize cm.nodeConfig.gpuBlocks clock P k)).run
        cm := by
    simp [acquireBlocks, hT, Nat.pos_iff_ne_zero.1 hk]
  rw [run_onNode _ hc] at hacq
  rw [run_materializeRequest hc ht]
  cases hrun : (NodeCache.materialize cm.model.blockSize cm.nodeConfig.gpuBlocks clock P k).run c with
  | ok a c' =>
      rw [hrun] at hacq
      rw [Py.run_bind_ok hacq]
      exact iff_of_true (fun msg cm' hr => by cases hr) (by simp)
  | error e c' =>
      rw [hrun] at hacq
      rw [Py.run_bind_error hacq]
      simp

/-- Mints that fit into what is free of the GPU tier fit into the tier. -/
theorem mints_le {s : CacheState} {m : ℕ} (hs : NodeInv cm n c s)
    (hmint : (m : ℤ) ≤ c.pool.freeSlots .gpu) : m ≤ cm.nodeConfig.gpuBlocks := by
  have hcap : (s.pool.tiers .gpu).capacity = cm.nodeConfig.gpuBlocks := hs.capacity_eq .gpu
  have hfree : c.pool.freeSlots .gpu = (cm.nodeConfig.gpuBlocks : ℤ) - s.pool.used .gpu := by
    simp only [BlockPool.freeSlots, TierState.free, BlockPool.used, hs.represents.pool, hcap]
  omega

section Spurious

variable {T P : List Token} {k : ℕ}
  (h : Reachable nodeIds model nodeConfig bandwidth cm) (hc : cm.caches.get? n = some c)
  (hT : NodeCache.alignedTokens model.blockSize T = (P, k)) (hfit : k ≤ nodeConfig.gpuBlocks)
  (hlive : ∀ b ∈ (c.walk P).2, c.pool.live b = true)
  (hmint : ((c.tree.mints P).sum : ℤ) ≤ c.pool.freeSlots .gpu)
include h hc hT hfit hlive hmint

/-- When an admission runs out of memory though the blocks an insertion would mint are free.  The
matched path has no freed block, and the mints of the prompt fit into what is free of the GPU tier.
Then none runs out exactly if the prompt is matched or the GPU blocks at or above a pinned one leave
what the loop reserves. -/
theorem admit_memoryError_iff (clock : ℕ → Time) :
    (∀ msg cm', (admitTokens clock T n).run cm ≠ .error (.memoryError msg) cm') ↔
      k ≤ (c.walk P).1 / model.blockSize ∨ c.Leaves nodeConfig.gpuBlocks k c.pool.pinned := by
  obtain ⟨s, hs⟩ := h.inv.node n c hc
  obtain ⟨rfl, rfl, rfl⟩ := h.config
  have hbs := cm.model.one_le_blockSize
  have hlen := NodeCache.length_aligned hT
  have hcap : (s.pool.tiers .gpu).capacity = cm.nodeConfig.gpuBlocks := hs.capacity_eq .gpu
  have hmint' := mints_le hs hmint
  rw [hs.represents.walk_eq] at hlive ⊢
  rw [hs.represents.pool] at hlive
  have hne : 0 < k → P ≠ [] := NodeCache.aligned_ne_nil hT hbs
  have hrun : (admitTokens clock T n).run cm = (onNode n
    (NodeCache.admitTokens cm.model.blockSize cm.nodeConfig.gpuBlocks clock T)).run cm := rfl
  rw [hrun, onNode_memoryError_iff hc, NodeCache.Leaves, hs.represents.heldGpu_eq hs.inv,
    hs.represents.pool]
  have hends := NodeCache.admit_ends hs.represents hs.inv hbs hfit clock hT
  generalize (NodeCache.admitPrepare cm.model.blockSize cm.nodeConfig.gpuBlocks clock T).run c =
    prep at hends
  generalize (NodeCache.admitTokens cm.model.blockSize cm.nodeConfig.gpuBlocks clock T).run c = r
    at hends ⊢
  -- on a path without a freed block, to be complete is to be matched
  cases hends with
  | hit c' hcomp =>
      refine iff_of_true (by simp) (Or.inl ?_)
      rcases Nat.eq_zero_or_pos k with rfl | hk
      · exact Nat.zero_le _
      · exact (NodeCache.complete_iff_matched hbs hlen (hne hk) hlive).1 (hcomp hk)
  | clash msg c' hcl => exact absurd hcl (NodeCache.not_clash_of_live hlive)
  | full msg c' hk hfull hheld =>
      refine iff_of_false (by simp) ?_
      rintro (hmatch | hroom)
      · exact hfull ((NodeCache.complete_iff_matched hbs hlen (hne hk) hlive).2 hmatch)
      · exact absurd hroom (not_le.2 hheld)
  | inserted c₁ s₁ c' hclear _ => exact iff_of_true (by simp) (Or.inr hclear.held_le)
  | short c₁ s₁ msg c' hclear hshort =>
      -- what the loop leaves is enough for the mints of the tree before
      exact absurd hshort (hclear.fits hcap hfit hlen hbs hs.represents.tree hmint')

/-- When a materialization does: none runs out exactly if there is a table already, or the prompt is
matched, or these blocks, with the reused ones pinned too, leave what the loop reserves and the loop
frees none of those the insertion keeps. -/
theorem materialize_memoryError_iff_spares (clock : ℕ → Time) (r : RequestId) :
    (∀ msg cm', (materializeRequest clock r T n).run cm ≠ .error (.memoryError msg) cm') ↔
      cm.blockTables.contains (n, r) = true ∨ k ≤ (c.walk P).1 / model.blockSize ∨
        c.Leaves nodeConfig.gpuBlocks k
            (fun b => c.pool.pinned b || decide (b ∈ c.reusable model.blockSize P k)) ∧
          c.Spares model.blockSize nodeConfig.gpuBlocks clock P k := by
  obtain ⟨s, hs⟩ := h.inv.node n c hc
  obtain ⟨rfl, rfl, rfl⟩ := h.config
  have hbs := cm.model.one_le_blockSize
  have hlen := NodeCache.length_aligned hT
  have hcap : (s.pool.tiers .gpu).capacity = cm.nodeConfig.gpuBlocks := hs.capacity_eq .gpu
  have hmint' := mints_le hs hmint
  rw [hs.represents.walk_eq] at hlive ⊢
  rw [hs.represents.pool] at hlive
  cases ht : cm.blockTables.get? (n, r) with
  | some t =>
      obtain ⟨msg, hrun⟩ := run_materializeRequest_again clock T hc ht
      rw [hrun]
      exact iff_of_true (by simp) (Or.inl (by rw [PyDict.contains, ht]; rfl))
  | none =>
      have hcont : ¬ cm.blockTables.contains (n, r) = true := by
        rw [PyDict.contains, ht]
        simp
      rw [or_iff_right hcont]
      rcases Nat.eq_zero_or_pos k with rfl | hk
      · -- a prompt without a full block acquires nothing
        refine iff_of_true ?_ (Or.inl (Nat.zero_le _))
        have hacq : (acquireBlocks clock T n).run cm = .ok ([], 0) cm := by
          simp [acquireBlocks, hT]
        rw [run_materializeRequest hc ht, Py.run_bind_ok hacq]
        exact fun msg cm' hr => by cases hr
      · rw [materializeRequest_memoryError_iff hc ht hT hk]
        refine Iff.trans ?_ (NodeCache.isOk_materialize_iff hs.represents hs.inv hbs hcap hfit hk
          hlen hlive hmint' clock)
        obtain ⟨c', s', -, -, -, hout⟩ := NodeCache.materialize_spec hs.represents hs.inv hbs
          cm.nodeConfig.gpuBlocks clock hlen hk
        generalize (NodeCache.materialize cm.model.blockSize cm.nodeConfig.gpuBlocks clock P
          k).run c = out at hout
        cases hout with
        | ok m _ _ _ => exact iff_of_true (by simp) rfl
        | full msg _ _ => exact iff_of_false (by simp) (by simp [EStateM.Result.isOk])
        | collision msg hcol _ =>
            obtain ⟨-, b, hb, hdead⟩ := hcol.stale
            rw [hlive b (List.mem_of_mem_take hb)] at hdead
            cases hdead

end Spurious

end CacheManager

end NanoKVRouter
