/-
**The loops of an admission end.**

`admit` demotes until enough of the GPU tier is free, and each turn asks `demote_lru` for a victim,
which scans for one and drops the zombies it meets.  A turn may leave the usage of the GPU tier as
it was, when the victim lies on a slower tier, and each turn rewrites the access time of its victim,
so neither decreases.  What decreases is the rank of the pool, in which a block counts for more the
faster its tier; and a turn of the scan that finds no victim drops a node.

The source's `while` loop has no bound.  The recursion of the model has one, and the statement is
that it is never reached: whatever the bound and the clock, from the rank on the loop ends with
enough room or raises `MemoryError`.

Main definitions:

* `CacheManager.AdmitStart` — the caches an admission starts from, at rest and within a
  materialization;
* `CacheManager.LoopState` — the caches the demotion loop passes through;
* `RadixTree.Barred` — a node is referenced or has a pinned block.

Main results:

* `RadixTree.View.demoteLru_complete` — `demote_lru` returns nothing only where no candidate is left;
* `demotion_loop_ends` — **both loops end**.
-/

import NanoKVRouter.CacheHits

set_option relaxedAutoImplicit false
set_option autoImplicit false

namespace NanoKVRouter

/-! ### The scan for a victim -/

namespace RadixTree

/-- The node is referenced, or has a block that is pinned according to the callback. -/
def Barred (t : RadixTree) (isPinned : Option (BlockId → Bool)) (a : Addr) : Prop :=
  0 < (t.node a).refCount ∨ ∃ f, isPinned = some f ∧ ∃ b ∈ (t.node a).blockIds, f b = true

variable {t : RadixTree} {full : Addr → List Token} {A : PathTrie Token BlockId}

/-- Without a victim every leaf is barred. -/
theorem View.barred_of_no_victim (h : t.View full A) {isPinned : Option (BlockId → Bool)}
    (hvic : t.lruVictim isPinned = none) {a : Addr} (ha : a ∈ t.nodes.values)
    (hleaf : (t.node a).children.entries = []) : t.Barred isPinned a := by
  rw [lruVictim, List.argmin_eq_none, List.filter_eq_nil_iff] at hvic
  have hnot := hvic a ha
  have href := h.wf.refCount_zero a (Or.inr ha)
  cases isPinned with
  | none => simp [isCandidate, hleaf, href] at hnot
  | some f =>
      right
      simpa [isCandidate, hleaf, href] using hnot

/-- `demote_lru` returns, and it returns nothing only when every leaf that is left is barred. -/
theorem View.demoteLru_complete (h : t.View full A) (clock : ℕ → Time) {nNodes : ℕ}
    (hn : 1 ≤ nNodes) (tierOf : Option (BlockId → Option Tier))
    (isPinned : Option (BlockId → Bool)) :
    ∃ ids t', (demoteLru clock nNodes tierOf isPinned).run t = .ok ids t' ∧
      (ids = [] → ∀ a ∈ t'.nodes.values, (t'.node a).children.entries = [] →
        t'.Barred isPinned a) := by
  obtain ⟨ids, t', A', hrun, hv', hend⟩ := demoteScan_complete clock nNodes tierOf isPinned
    (t.nodes.entries.length + nNodes + 1) [] h (by simp)
  refine ⟨ids, t', hrun, ?_⟩
  rintro rfl a ha hleaf
  exact hv'.barred_of_no_victim (hend hn) ha hleaf

end RadixTree

/-! ### The states of the loop -/

namespace CacheManager

open NodeCache

/-- The caches of the node `n` from which the prompt `T` is admitted: the cache at rest, and the
one in which `materialize_request` has pinned the prefix of `T` it can reuse. -/
inductive AdmitStart (cm : CacheManager) (n : NodeId) (T : List Token) : NodeCache → Prop
  | resting {c : NodeCache} : cm.caches.get? n = some c → AdmitStart cm n T c
  | retained {c c' : NodeCache} {now : Time} {len : ℕ} {ids : List BlockId} :
      cm.caches.get? n = some c →
      (retainPrefix cm.model.blockSize now (alignedTokens cm.model.blockSize T).1
        (alignedTokens cm.model.blockSize T).2).run (c, []) = .ok len (c', ids) →
      AdmitStart cm n T c'

/-- The GPU blocks the loop of `admit` makes room for. -/
def roomFor (cm : CacheManager) (T : List Token) : ℕ :=
  min ((alignedTokens cm.model.blockSize T).2 + 1) cm.nodeConfig.gpuBlocks

/-- The caches the demotion loop passes through while the prompt `T` is admitted to the node `n`.
It is entered after the match, if that is not the whole prompt, and otherwise after the purge of
the path; each turn of it starts with too little room. -/
inductive LoopState (cm : CacheManager) (n : NodeId) (T : List Token) : NodeCache → Prop
  | missing {c c' : NodeCache} {now : Time} {hit : ℕ × List BlockId} : AdmitStart cm n T c →
      (matchPrefixPath now (alignedTokens cm.model.blockSize T).1).run c = .ok hit c' →
      hit.1 / cm.model.blockSize < (alignedTokens cm.model.blockSize T).2 →
      LoopState cm n T c'
  | purged {c c' c'' : NodeCache} {now : Time} {hit : ℕ × List BlockId} {purged : ℕ} :
      AdmitStart cm n T c →
      (matchPrefixPath now (alignedTokens cm.model.blockSize T).1).run c = .ok hit c' →
      (alignedTokens cm.model.blockSize T).2 ≤ hit.1 / cm.model.blockSize →
      (onBoth (RadixTree.purgePathWithAnyDead BlockPool.tierOf BlockPool.free
        (alignedTokens cm.model.blockSize T).1)).run c' = .ok purged c'' →
      LoopState cm n T c''
  | turn {c c' : NodeCache} {now : Time} : LoopState cm n T c →
      c.pool.used .gpu + cm.roomFor T > cm.nodeConfig.gpuBlocks →
      (demoteOnce now (cm.roomFor T) cm.nodeConfig.gpuBlocks).run c = .ok () c' →
      LoopState cm n T c'

variable {nodeIds : List NodeId} {model : ModelConfig} {nodeConfig : NodeConfig}
  {bandwidth : BandwidthConfig} {cm : CacheManager} {n : NodeId} {T : List Token} {c : NodeCache}

/-- The cache an admission starts from is in order. -/
theorem AdmitStart.represents (h : cm.Inv) (hc : AdmitStart cm n T c) :
    ∃ s, c.Represents cm.model.blockSize s ∧ s.Inv := by
  cases hc with
  | resting hc =>
      obtain ⟨s, hs⟩ := h.node n c hc
      exact ⟨s, hs.represents, hs.inv⟩
  | @retained c₀ _ now len ids hc hrun =>
      obtain ⟨s, hs⟩ := h.node n c₀ hc
      obtain ⟨c', q, hrun', hrep, -, hq⟩ := retainPrefix_spec
        (k := (alignedTokens cm.model.blockSize T).2) hs.represents hs.inv now
        (alignedTokens cm.model.blockSize T).1
      rw [hrun'] at hrun
      cases hrun
      exact ⟨⟨s.trie, q⟩, hrep, hs.inv.pin (CacheState.liveRun_prefix _ _ _)
        (fun b hb => CacheState.liveRun_live hb) (fun b hb => hb) hq⟩

/-- The purge of a path leaves the cache in order. -/
theorem represents_of_purge {bs : ℕ} {s : CacheState} {P : List Token} {c c' : NodeCache} {k : ℕ}
    (h : c.Represents bs s) (hi : s.Inv)
    (hrun : (onBoth (RadixTree.purgePathWithAnyDead BlockPool.tierOf BlockPool.free P)).run c =
      .ok k c') : ∃ s', c'.Represents bs s' ∧ s'.Inv := by
  by_cases hdead : ∃ b ∈ s.trie.path P, s.pool.live b = false
  · obtain ⟨l, hl⟩ := CacheState.exists_firstDead hdead
    obtain ⟨hclash, hclean⟩ := RadixTree.purgePath_dead h.tree hi hl
    by_cases hpin : ∃ b ∈ s.trie.items l, s.pool.pinned b = true
    · obtain ⟨msg, hrun'⟩ := hclash hpin
      rw [← h.pool] at hrun'
      rw [run_onBoth_error hrun'] at hrun
      cases hrun
    · obtain ⟨k', t', q, hrun', hrepr, hev⟩ := hclean fun b hb => by
        by_contra hp
        exact hpin ⟨b, hb, by simpa using hp⟩
      rw [← h.pool] at hrun'
      rw [run_onBoth_ok hrun'] at hrun
      cases hrun
      exact ⟨_, ⟨hrepr, rfl⟩, hev.evict.inv hi⟩
  · have hrun' := RadixTree.purgePath_clean h.tree (T := P) (by simpa using hdead)
    rw [← h.pool] at hrun'
    rw [run_onBoth_ok hrun'] at hrun
    cases hrun
    exact ⟨s, ⟨h.tree, h.pool⟩, hi⟩

/-- The demotion loop passes through caches that are in order. -/
theorem LoopState.represents (h : cm.Inv) (hc : LoopState cm n T c) :
    ∃ s, c.Represents cm.model.blockSize s ∧ s.Inv := by
  induction hc with
  | @missing c c' now hit hstart hrun hlt =>
      obtain ⟨s, hs, hi⟩ := hstart.represents h
      obtain ⟨c₁, hrun', hs', -⟩ := run_matchPrefixPath hs now (alignedTokens cm.model.blockSize T).1
      rw [hrun'] at hrun
      cases hrun
      exact ⟨s, hs', hi⟩
  | @purged c c' c'' now hit k hstart hrun hle hpurge =>
      obtain ⟨s, hs, hi⟩ := hstart.represents h
      obtain ⟨c₁, hrun', hs', -⟩ := run_matchPrefixPath hs now (alignedTokens cm.model.blockSize T).1
      rw [hrun'] at hrun
      cases hrun
      exact represents_of_purge hs' hi hpurge
  | @turn c c' now hstate hfull hrun ih =>
      obtain ⟨s, hs, hi⟩ := ih
      obtain ⟨c₁, s₁, hd, ⟨hrun', -⟩ | ⟨msg, hrun', -⟩⟩ :=
        demoteOnce_spec hs hi now (cm.roomFor T) cm.nodeConfig.gpuBlocks
      · rw [hrun'] at hrun
        cases hrun
        exact ⟨s₁, hd.represents, hd.evicts.inv hi⟩
      · rw [hrun'] at hrun
        cases hrun

/-- **The loops of an admission end.**  In every cache the demotion loop passes through, whatever
the clock will show, it ends with room for the prompt or raises `MemoryError`, its bound being
never reached; and `demote_lru` returns, with an empty list only if every leaf that is left is
referenced or has a pinned block, in these caches and in those an admission starts from. -/
theorem demotion_loop_ends (h : Reachable nodeIds model nodeConfig bandwidth cm)
    (hc : AdmitStart cm n T c ∨ LoopState cm n T c) :
    (LoopState cm n T c → ∀ (clock : ℕ → Time) (fuel : ℕ), demotionFuel c ≤ fuel →
      (∃ c', (demotionLoop clock (cm.roomFor T) cm.nodeConfig.gpuBlocks fuel).run c = .ok () c' ∧
          c'.pool.used .gpu + cm.roomFor T ≤ cm.nodeConfig.gpuBlocks) ∨
        ∃ msg c', (demotionLoop clock (cm.roomFor T) cm.nodeConfig.gpuBlocks fuel).run c =
          .error (.memoryError msg) c') ∧
    ∀ (clock : ℕ → Time) (nNodes : ℕ) (tierOf : BlockId → Option Tier)
      (isPinned : Option (BlockId → Bool)), 1 ≤ nNodes →
      ∃ ids t', (RadixTree.demoteLru clock nNodes (some tierOf) isPinned).run c.tree = .ok ids t' ∧
        (ids = [] → ∀ a ∈ t'.nodes.values, (t'.node a).children.entries = [] →
          t'.Barred isPinned a) := by
  constructor
  · intro hloop clock fuel hfuel
    obtain ⟨s, hs, hi⟩ := hloop.represents h.inv
    have hrank : s.pool.rank < fuel := by
      simp only [demotionFuel, hs.pool] at hfuel
      simp only [BlockPool.rank]
      omega
    obtain ⟨c', s', hd, ⟨hrun, hroom⟩ | ⟨msg, hrun, -⟩⟩ := demotionLoop_spec clock (cm.roomFor T)
      cm.nodeConfig.gpuBlocks fuel hs hi hrank
    · exact Or.inl ⟨c', hrun, by rwa [hd.represents.pool]⟩
    · exact Or.inr ⟨msg, c', hrun⟩
  · intro clock nNodes tierOf isPinned hn
    obtain ⟨s, hs, -⟩ : ∃ s, c.Represents cm.model.blockSize s ∧ s.Inv :=
      hc.elim (fun hc => hc.represents h.inv) fun hc => hc.represents h.inv
    obtain ⟨-, full, hv⟩ := hs.tree
    exact hv.demoteLru_complete clock hn (some tierOf) isPinned

/-- A GPU tier of one block, taken by the first prompt, when the second one is admitted. -/
theorem demotion_loop_ends_one : ∃ c,
    LoopState ((oneNode unitBlocks 1 1 0).run [.admitAt 1 [1]]) "n" [2] c ∧
      (∀ (clock : ℕ → Time) (fuel : ℕ), demotionFuel c ≤ fuel →
        (∃ c', (demotionLoop clock 1 1 fuel).run c = .ok () c' ∧ c'.pool.used .gpu + 1 ≤ 1) ∨
          ∃ msg c', (demotionLoop clock 1 1 fuel).run c = .error (.memoryError msg) c') ∧
      ∃ ids t', (RadixTree.demoteLru (fun _ => 2) 1 (some c.pool.tierOf) none).run c.tree =
          .ok ids t' ∧
        (ids = [] → ∀ a ∈ t'.nodes.values, (t'.node a).children.entries = [] →
          t'.Barred none a) := by
  obtain ⟨c, hc⟩ : ∃ c, ((oneNode unitBlocks 1 1 0).run [.admitAt 1 [1]]).caches.get? "n" =
      some c := Option.isSome_iff_exists.1 (by decide +kernel)
  have hmiss : (((oneNode unitBlocks 1 1 0).run [.admitAt 1 [1]]).caches.get? "n").map
      (fun c => (c.tree.matchPrefixPath 2 [2]).1.1 / 1) = some 0 := by decide +kernel
  rw [hc, Option.map_some, Option.some_inj] at hmiss
  have hstate : LoopState ((oneNode unitBlocks 1 1 0).run [.admitAt 1 [1]]) "n" [2]
      { c with tree := (c.tree.matchPrefixPath 2 [2]).2 } :=
    @LoopState.missing _ _ _ _ _ 2 _ (.resting hc) rfl (lt_of_eq_of_lt hmiss (by decide))
  obtain ⟨hloop, hscan⟩ := @demotion_loop_ends ["n"] _ _ _ _ _ _ _
    (Reachable.init.run _) (Or.inr hstate)
  exact ⟨_, hstate, hloop hstate, hscan (fun _ => 2) 1 c.pool.tierOf none le_rfl⟩

end CacheManager

end NanoKVRouter
