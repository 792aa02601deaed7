/-
**Caches without slower tiers.**

With no blocks on the CPU and disk tiers the cascade has nowhere to send a block, so it frees every
block of the leaf it selects, one after the other, and the last one takes the node with it.  Between
two calls every block of the tree is then allocated, whatever the calls were and whether they
returned or raised.  So no prompt is ever stale, no materialization collides, and a lookup counts
exactly the blocks a materialization reuses.

Main definitions:

* `BlockPool.GpuOnly` — the slower tiers of the pool have no slots;
* `CacheState.IntactBut` — the cascade is in the middle of a leaf;
* `NodeCache.Intact` — every block of the tree of the cache is allocated.

Main results:

* `NodeCache.forM_demoteRecorded_intact` — **the cascade of a leaf** takes it away as a whole;
* `NodeCache.keeps_admitTokens` — an admission leaves the cache intact, so every call does
  (`NodeCache.passes_intact`);
* `CacheManager.Reachable.intact` — **all caches of a reachable manager are intact**;
* `CacheManager.single_tier_coherent` — so what the tree says of a prompt is what can be reused.
-/

import NanoKVRouter.CacheTurns

set_option relaxedAutoImplicit false
set_option autoImplicit false

namespace NanoKVRouter

/-! ### Pools with a GPU tier only -/

namespace BlockPool

/-- The slower tiers have no slots. -/
structure GpuOnly (p : BlockPool) : Prop where
  cpu : (p.tiers .cpu).capacity = 0
  disk : (p.tiers .disk).capacity = 0

namespace GpuOnly

variable {p q : BlockPool}

theorem congr (h : p.GpuOnly) (hcap : ∀ t, (q.tiers t).capacity = (p.tiers t).capacity) :
    q.GpuOnly :=
  ⟨(hcap .cpu).trans h.cpu, (hcap .disk).trans h.disk⟩

/-- No slot is free on a tier without slots. -/
theorem freeSlots_le {t : Tier} (hcap : (p.tiers t).capacity = 0) : ¬ p.freeSlots t > 0 := by
  rw [freeSlots, TierState.free, hcap]
  omega

/-- Every allocated block is on the GPU tier. -/
theorem tierOf_eq (h : p.GpuOnly) (hp : p.WF) {b : BlockId} (hb : p.live b = true) :
    p.tierOf b = some .gpu := by
  have hnone : ∀ t, (p.tiers t).capacity = 0 → p.tierOf b ≠ some t := by
    intro t hcap ht
    have hle := hp.used_le t
    rw [hcap, Nat.le_zero, used, TierState.used, Finset.card_eq_zero] at hle
    have hmem := (hp.mem_allocated t b).2 ht
    rw [hle] at hmem
    exact absurd hmem (Finset.notMem_empty b)
  obtain ⟨t, ht⟩ := live_iff.1 hb
  cases t with
  | gpu => exact ht
  | cpu => exact absurd ht (hnone .cpu h.cpu)
  | disk => exact absurd ht (hnone .disk h.disk)

end GpuOnly

end BlockPool

/-! ### The cascade of a leaf -/

namespace CacheState

variable {s s' : CacheState} {l : List Token}

/-- Every block of the tree is allocated but for some of the leaf `l`, which is gone when none of
its blocks is. -/
structure IntactBut (s : CacheState) (l : List Token) : Prop where
  others : ∀ w, w ≠ l → ∀ b ∈ s.trie.items w, s.pool.live b = true
  self : (s.trie l).isSome → ∃ b ∈ s.trie.items l, s.pool.live b = true

/-- Growth keeps every block of the tree allocated. -/
theorem Intact.grows (h : s.Intact) (hi : s.Inv) (hg : Grows s s') : s'.Intact := by
  induction hg with
  | refl => exact h
  | @tail u v hrun hstep ih =>
      intro l b hb
      rcases hstep.mem_items hb with hlive | ⟨w, hw⟩
      · exact hlive
      · exact hstep.live_of_live (Grows.inv hrun hi) (ih w b hw)

/-- On the walks of an intact cache nothing is freed. -/
theorem Intact.not_collision (h : s.Intact) (P : List Token) (k : ℕ) : ¬ s.Collision P k := by
  rintro ⟨⟨-, b, hb, hdead⟩, -⟩
  rw [h.path P b (List.mem_of_mem_take hb)] at hdead
  cases hdead

end CacheState

namespace NodeCache

variable {bs : ℕ} {c : NodeCache} {s : CacheState} {l : List Token} {b : BlockId}

/-- With nowhere to go an allocated block is freed. -/
theorem run_demoteBlock_gpuOnly (h : c.Represents bs s) (hi : s.Inv) (hg : s.pool.GpuOnly)
    (hl : s.Candidate l) (hb : b ∈ s.trie.items l) (hlive : s.pool.live b = true) :
    (demoteBlock b).run c = (freeBlock b).run c := by
  have hpin : ¬ s.pool.pinCountOf b > 0 := by
    rw [gt_iff_lt, ← BlockPool.pinned_iff, hl.unpinned b hb]
    simp
  simp [demoteBlock, h.pool, hg.tierOf_eq hi.pool_wf hlive, hpin,
    BlockPool.GpuOnly.freeSlots_le hg.cpu, BlockPool.GpuOnly.freeSlots_le hg.disk]

/-- A freed block of a leaf takes the leaf with it when it was the last one. -/
theorem freeBlock_intactBut (h : c.Represents bs s) (hi : s.Inv) (hl : s.Candidate l)
    (hb : b ∈ s.trie.items l) (hlive : s.pool.live b = true) (hbut : s.IntactBut l) :
    ∃ c' s', (freeBlock b).run c = .ok () c' ∧ c'.Represents bs s' ∧
      CacheState.Evicts s s' ∧ s'.IntactBut l ∧
      (s'.trie = s.trie ∨ s'.trie l = none ∧ ∀ x ∈ s.trie.items l, s'.pool.live x = false) ∧
      ∀ x, s'.pool.live x = (s.pool.live x && decide (x ≠ b)) := by
  obtain ⟨q, hrun, hq⟩ := BlockPool.free_ok hi.pool_wf (List.nodup_singleton b) (by
    intro x hx
    rw [List.mem_singleton.1 hx]
    exact ⟨hlive, hl.unpinned b hb⟩)
  rw [← h.pool] at hrun
  have hstep : CacheState.Evict s ⟨s.trie, q⟩ := .free l b q hl hb hlive hq
  obtain ⟨n, t', s', hrun', hrepr, hpool, hev, hor⟩ :=
    RadixTree.purgeBlockIds_spec (s := ⟨s.trie, q⟩) h.tree (hstep.inv hi) hb
  have hrun'' : (onTree (RadixTree.purgeBlockIds [b] q.tierOf)).run { c with pool := q } =
      .ok n { c with tree := t', pool := q } := run_onTree_ok hrun'
  have hpoolLive : ∀ x, s'.pool.live x = (s.pool.live x && decide (x ≠ b)) := by
    intro x
    rw [hpool, hq.live_eq]
    by_cases hx : x = b <;> simp [hx]
  have hother : ∀ w, w ≠ l → ∀ x ∈ s.trie.items w, s'.pool.live x = true := by
    intro w hw x hx
    rw [hpoolLive, hbut.others w hw x hx, Bool.true_and, decide_eq_true_eq]
    rintro rfl
    exact hw (hi.distinct.unique w l x hx hb)
  refine ⟨{ c with tree := t', pool := q }, s', ?_, ⟨hrepr, hpool.symm⟩, .head hstep hev, ?_, ?_,
    hpoolLive⟩
  · rw [freeBlock, Py.run_bind_ok (run_onPool_ok hrun)]
    simp only [EStateM.run_bind, EStateM.run_get, hrun'', EStateM.run_pure]
  · rcases hor with ⟨rfl, hself⟩ | ⟨htrie, -⟩
    · exact ⟨hother, fun _ => hself hl.leaf⟩
    · refine ⟨fun w hw x hx => ?_, fun hsome => ?_⟩
      · rw [htrie, PathTrie.items_prune] at hx
        split at hx
        · cases hx
        · exact hother w hw x hx
      · rw [htrie, PathTrie.prune_of_prefix _ (List.prefix_refl l)] at hsome
        cases hsome
  · rcases hor with ⟨rfl, -⟩ | ⟨htrie, hdead⟩
    · exact Or.inl rfl
    · right
      rw [htrie, hpool]
      exact ⟨PathTrie.prune_of_prefix _ (List.prefix_refl l), hdead⟩

/-- **The cascade of a leaf** takes it away as a whole: once it has come by all allocated blocks of
the leaf, every block of the tree is allocated. -/
theorem forM_demoteRecorded_intact : ∀ (bids : List BlockId) {c : NodeCache} {s : CacheState},
    c.Represents bs s → s.Inv → s.pool.GpuOnly → s.IntactBut l →
    (s.Candidate l ∧ (∀ b ∈ bids, b ∈ s.trie.items l) ∨ ∀ b ∈ bids, s.pool.live b = false) →
    (∀ b ∈ s.trie.items l, s.pool.live b = true → b ∈ bids) →
    ∃ c' s', (bids.forM demoteRecorded).run c = .ok () c' ∧ c'.Represents bs s' ∧
      CacheState.Evicts s s' ∧ s'.Intact := by
  intro bids
  induction bids with
  | nil =>
      intro c s h _ _ hbut _ hall
      refine ⟨c, s, rfl, h, .refl, fun w b hb => ?_⟩
      by_cases hw : w = l
      · subst hw
        obtain ⟨ids, hids, -⟩ := PathTrie.exists_of_mem_items hb
        obtain ⟨x, hx, hlive⟩ := hbut.self (by rw [hids]; rfl)
        cases hall x hx hlive
      · exact hbut.others w hw b hb
  | cons b bids ih =>
      intro c s h hi hg hbut hor hall
      by_cases hb : s.pool.live b = true
      · obtain ⟨hl, hmem⟩ : s.Candidate l ∧ ∀ x ∈ b :: bids, x ∈ s.trie.items l := by
          rcases hor with hor | hdead
          · exact hor
          · rw [hdead b (List.mem_cons_self ..)] at hb
            cases hb
        obtain ⟨c₁, s₁, hrun, hc₁, hev₁, hbut₁, htrie, hlive₁⟩ :=
          freeBlock_intactBut h hi hl (hmem b (List.mem_cons_self ..)) hb hbut
        rw [← run_demoteBlock_gpuOnly h hi hg hl (hmem b (List.mem_cons_self ..)) hb] at hrun
        have hor₁ : s₁.Candidate l ∧ (∀ x ∈ bids, x ∈ s₁.trie.items l) ∨
            ∀ x ∈ bids, s₁.pool.live x = false := by
          rcases htrie with heq | ⟨-, hdead⟩
          · left
            refine ⟨⟨?_, ?_, ?_⟩, ?_⟩
            · rw [heq]
              exact hl.node
            · intro w hw hne
              rw [heq]
              exact hl.leaf w hw hne
            · intro x hx
              rw [hev₁.pinned_eq hi]
              exact hl.unpinned x (heq ▸ hx)
            · intro x hx
              rw [heq]
              exact hmem x (List.mem_cons_of_mem _ hx)
          · exact Or.inr fun x hx => hdead x (hmem x (List.mem_cons_of_mem _ hx))
        have hall₁ : ∀ x ∈ s₁.trie.items l, s₁.pool.live x = true → x ∈ bids := by
          intro x hx hxlive
          rw [hlive₁, Bool.and_eq_true, decide_eq_true_eq] at hxlive
          rcases htrie with heq | ⟨hnone, -⟩
          · exact List.mem_of_ne_of_mem hxlive.2 (hall x (heq ▸ hx) hxlive.1)
          · rw [PathTrie.items_of_none hnone] at hx
            cases hx
        obtain ⟨c₂, s₂, hrun₂, hc₂, hev₂, hint⟩ := ih (c := { c₁ with
          demotions := c₁.demotions ++ [⟨b, c.pool, c₁.pool⟩] }) ⟨hc₁.tree, hc₁.pool⟩ (hev₁.inv hi)
          (hg.congr fun t => hev₁.capacity_eq t) hbut₁ hor₁ hall₁
        refine ⟨c₂, s₂, ?_, hc₂, hev₁.trans hev₂, hint⟩
        have hrec : (demoteRecorded b).run c = .ok () { c₁ with
            demotions := c₁.demotions ++ [⟨b, c.pool, c₁.pool⟩] } := by
          simp only [demoteRecorded, EStateM.run_bind, EStateM.run_get, hrun]
          rfl
        rw [Py.run_forM_cons, Py.run_bind_ok hrec, hrun₂]
      · rw [Bool.not_eq_true] at hb
        obtain ⟨c₁, hrun, hd⟩ := run_demoteRecorded_dead h hb
        have hor₁ : s.Candidate l ∧ (∀ x ∈ bids, x ∈ s.trie.items l) ∨
            ∀ x ∈ bids, s.pool.live x = false := by
          rcases hor with ⟨hl, hmem⟩ | hdead
          · exact Or.inl ⟨hl, fun x hx => hmem x (List.mem_cons_of_mem _ hx)⟩
          · exact Or.inr fun x hx => hdead x (List.mem_cons_of_mem _ hx)
        have hall₁ : ∀ x ∈ s.trie.items l, s.pool.live x = true → x ∈ bids := by
          intro x hx hxlive
          refine List.mem_of_ne_of_mem ?_ (hall x hx hxlive)
          rintro rfl
          rw [hb] at hxlive
          cases hxlive
        obtain ⟨c₂, s₂, hrun₂, hc₂, hev₂, hint⟩ := ih hd.represents hi hg hbut hor₁ hall₁
        refine ⟨c₂, s₂, ?_, hc₂, hev₂, hint⟩
        rw [Py.run_forM_cons, Py.run_bind_ok hrun, hrun₂]

/-! ### The admission -/

/-- The cache has a GPU tier only, and every block of its tree is allocated. -/
def Sound (bs : ℕ) (c : NodeCache) : Prop :=
  ∃ s, c.Represents bs s ∧ s.Inv ∧ s.pool.GpuOnly ∧ s.Intact

theorem keeps_demoteOnce (now : Time) (need capacity : ℕ) :
    Py.Keeps (Sound bs) (demoteOnce now need capacity) := by
  rintro c ⟨s, h, hi, hg, hs⟩
  obtain ⟨ids, t', s₁, hrun, hrepr, hpool, hev, -, hids⟩ :=
    RadixTree.demoteLru_spec h.tree hi (fun _ => now)
  have hs₁ : s₁.Intact := fun l b hb => by
    rw [hpool]
    exact hs l b (hev.items_subset hb)
  have hg₁ : s₁.pool.GpuOnly := hpool ▸ hg
  rw [← h.pool] at hrun
  have hrun₁ := run_onTree_ok hrun
  rcases hids with ⟨rfl, -⟩ | ⟨l, hl, rfl, hlive⟩
  · have hraise : ∃ e, (demoteOnce now need capacity).run c = .error e { c with tree := t' } :=
      ⟨_, by
        simp only [demoteOnce, EStateM.run_bind, EStateM.run_get, hrun₁]
        rfl⟩
    obtain ⟨e, hraise⟩ := hraise
    rw [hraise]
    exact ⟨s₁, ⟨hrepr, h.pool.trans hpool.symm⟩, hev.inv hi, hg₁, hs₁⟩
  · have hbut : s₁.IntactBut l := ⟨fun w _ b hb => hs₁ w b hb, fun _ => hlive⟩
    obtain ⟨c', s', hrun', hc', hev', hs'⟩ := forM_demoteRecorded_intact (s₁.trie.items l)
      (c := { c with tree := t' }) ⟨hrepr, h.pool.trans hpool.symm⟩ (hev.inv hi) hg₁ hbut
      (Or.inl ⟨hl, fun b hb => hb⟩) fun b hb _ => hb
    have hok : (demoteOnce now need capacity).run c = .ok () c' := by
      simp only [demoteOnce, EStateM.run_bind, EStateM.run_get, hrun₁]
      simp
      exact hrun'
    rw [hok]
    exact ⟨s', hc', hev'.inv (hev.inv hi), hg₁.congr fun t => hev'.capacity_eq t, hs'⟩

theorem keeps_demotionLoop (clock : ℕ → Time) (need capacity : ℕ) :
    ∀ fuel, Py.Keeps (Sound bs) (demotionLoop clock need capacity fuel) := by
  intro fuel
  induction fuel with
  | zero => exact .raise _
  | succ fuel ih =>
      refine Py.Keeps.bind .get fun c => ?_
      split
      · exact (keeps_demoteOnce _ _ _).bind fun _ => ih
      · exact .pure _

theorem keeps_makeRoom (gpuBlocks : ℕ) (clock : ℕ → Time) (totalBlocks : ℕ) :
    Py.Keeps (Sound bs) (makeRoom gpuBlocks clock totalBlocks) := by
  rw [makeRoom]
  split
  · exact .raise _
  · exact Py.Keeps.get.bind fun _ => keeps_demotionLoop _ _ _ _

theorem sound_matchPrefixPath (now : Time) (T : List Token) :
    Py.Keeps (Sound bs) (matchPrefixPath now T) := by
  rintro c ⟨s, h, hrest⟩
  obtain ⟨c', hrun, hc', -⟩ := run_matchPrefixPath h now T
  rw [hrun]
  exact ⟨s, hc', hrest⟩

/-- A path without freed blocks is not purged. -/
theorem keeps_purgePath (T : List Token) : Py.Keeps (Sound bs)
    (onBoth (RadixTree.purgePathWithAnyDead BlockPool.tierOf BlockPool.free T)) := by
  rintro c ⟨s, h, hi, hg, hs⟩
  have hrun := RadixTree.purgePath_clean h.tree (T := T) (hs.path T)
  rw [← h.pool] at hrun
  rw [run_onBoth_ok hrun]
  exact ⟨s, h, hi, hg, hs⟩

theorem keeps_admitPrepare (gpuBlocks : ℕ) (clock : ℕ → Time) (T : List Token) :
    Py.Keeps (Sound bs) (admitPrepare bs gpuBlocks clock T) := by
  have hroom : ∀ (clock : ℕ → Time) (k : ℕ), Py.Keeps (Sound bs)
      (do makeRoom gpuBlocks clock k; pure true) := fun clock k =>
    (keeps_makeRoom gpuBlocks clock k).bind fun _ => .pure true
  rw [admitPrepare]
  dsimp only
  split
  · exact .pure _
  · refine (sound_matchPrefixPath _ _).bind fun w => ?_
    split
    · refine Py.Keeps.get.bind fun c => ?_
      dsimp only
      split
      · exact .pure _
      · exact (keeps_purgePath _).bind fun _ => hroom _ _
    · exact hroom _ _

/-- An insertion adds allocated blocks only. -/
theorem keeps_insert (now : Time) (T : List Token) :
    Py.Keeps (Sound bs) (onBoth (RadixTree.insert RadixTree.mintGpu now T)) := by
  rintro c ⟨s, h, hi, hg, hs⟩
  by_cases hT : T = []
  · subst hT
    exact ⟨s, h, hi, hg, hs⟩
  · obtain ⟨s', hins, -⟩ := RadixTree.insert_spec h.tree hi now hT
    rw [← h.pool] at hins
    have hrepr := hins.repr
    have hpool := hins.pool_eq
    have hsound : Sound bs { c with
        tree := ((RadixTree.insert RadixTree.mintGpu now T).run (c.tree, c.pool)).state.1
        pool := ((RadixTree.insert RadixTree.mintGpu now T).run (c.tree, c.pool)).state.2 } :=
      ⟨s', ⟨hrepr, hpool⟩, hins.grows.inv hi, hg.congr fun t => hins.grows.capacity_eq t,
        hs.grows hi hins.grows⟩
    cases hrun : (RadixTree.insert RadixTree.mintGpu now T).run (c.tree, c.pool) with
    | ok ids st =>
        rw [hrun] at hsound
        rw [run_onBoth_ok hrun]
        exact hsound
    | error e st =>
        rw [hrun] at hsound
        rw [run_onBoth_error hrun]
        exact hsound

/-- **An admission leaves the cache sound**, whether it returns or raises. -/
theorem keeps_admitTokens (gpuBlocks : ℕ) (clock : ℕ → Time) (T : List Token) :
    Py.Keeps (Sound bs) (admitTokens bs gpuBlocks clock T) := by
  refine (keeps_admitPrepare gpuBlocks clock T).bind fun go => ?_
  split
  · exact (keeps_insert _ _).bind fun _ => .pure _
  · exact .pure _

/-! ### The calls -/

/-- Every block of the tree of the cache is allocated. -/
def Intact (bs : ℕ) (c : NodeCache) : Prop := ∃ s, c.Represents bs s ∧ s.Intact

/-- Admissions leave an intact cache with a GPU tier only intact, and pins bear on neither. -/
theorem passes_intact (gpuBlocks : ℕ) :
    Passes bs gpuBlocks (fun _ => True) (fun s => s.Intact ∧ s.pool.GpuOnly)
      (fun s => s.Intact ∧ s.pool.GpuOnly) := by
  have hpins : Unpinning fun s => s.Intact ∧ s.pool.GpuOnly := by
    rintro s q ⟨hs, hg⟩ hq
    refine ⟨fun l b hb => ?_, hg.congr fun t => ?_⟩
    · change (q.tierOf b).isSome = true
      rw [hq.tierOf_eq]
      exact hs l b hb
    · change (q.tiers t).capacity = _
      rw [hq.tiers_eq]
  refine ⟨fun s _ q hs hq => hpins s q hs hq.repinned, hpins, fun _ h => h,
    fun c s clock T _ h hi hs => ?_⟩
  obtain ⟨s', hs', -, hg', hint'⟩ := keeps_admitTokens gpuBlocks clock T c ⟨s, h, hi, hs.2, hs.1⟩
  exact ⟨s', hs', hint', hg'⟩

end NodeCache

namespace CacheManager

variable {cm : CacheManager} {n : NodeId} {c : NodeCache} {nodeIds : List NodeId}
  {model : ModelConfig} {nodeConfig : NodeConfig} {bandwidth : BandwidthConfig}

/-! ### The manager -/

/-- Every cache of the manager is intact. -/
def Intact (cm : CacheManager) : Prop :=
  ∀ n c, cm.caches.get? n = some c → c.Intact cm.model.blockSize

/-- The caches of a reachable manager with a GPU tier only are sound when they are intact. -/
theorem Reachable.sound (h : Reachable nodeIds model nodeConfig bandwidth cm)
    (hcpu : nodeConfig.cpuBlocks = 0) (hdisk : nodeConfig.diskBlocks = 0) (hint : cm.Intact)
    (hc : cm.caches.get? n = some c) : c.Sound cm.model.blockSize := by
  obtain ⟨s, hs⟩ := h.inv.node n c hc
  obtain ⟨s', hs', hint'⟩ := hint n c hc
  obtain rfl := hs.represents.unique hs'
  have hcfg := h.config.2.1
  refine ⟨s', hs', hs.inv, ⟨?_, ?_⟩, hint'⟩
  · rw [hs.capacity_eq, hcfg]
    exact hcpu
  · rw [hs.capacity_eq, hcfg]
    exact hdisk

/-- **All caches of a reachable manager with a GPU tier only are intact.** -/
theorem Reachable.intact (h : Reachable nodeIds model nodeConfig bandwidth cm)
    (hcpu : nodeConfig.cpuBlocks = 0) (hdisk : nodeConfig.diskBlocks = 0) : cm.Intact := by
  induction h with
  | init =>
      intro n c hc
      rw [init_caches hc]
      refine ⟨⟨fun _ => none, BlockPool.init nodeConfig⟩,
        ⟨RadixTree.repr_init model.one_le_blockSize, rfl⟩, fun l b hb => ?_⟩
      rw [PathTrie.items_of_none rfl] at hb
      cases hb
  | @step cm op hr hint =>
      intro n c' hc'
      obtain ⟨c, hc⟩ : ∃ c, cm.caches.get? n = some c := by
        refine Option.ne_none_iff_exists'.1 fun hnone => ?_
        rw [(apply_spec hr.inv op).2.known n hnone] at hc'
        cases hc'
      obtain ⟨s, hs⟩ := hr.inv.node n c hc
      obtain ⟨s', hrep, -, hg, hs'⟩ := hr.sound hcpu hdisk hint hc
      obtain rfl := hs.represents.unique hrep
      obtain ⟨c₁, s₁, hc₁, hs₁, hint₁, -⟩ :=
        apply_passes (NodeCache.passes_intact _) hr.inv hc hs ⟨hs', hg⟩ op fun _ _ => trivial
      obtain rfl : c₁ = c' := Option.some_inj.1 (hc₁.symm.trans hc')
      exact ⟨s₁, hs₁.represents, hint₁⟩

/-! ### What the tree says of a prompt -/

/-- A lookup in an intact cache counts every block of the matched walk. -/
theorem hitBlocks_of_intact {bs : ℕ} {s : CacheState} (h : c.Represents bs s) (hbs : 0 < bs)
    (hs : s.Intact) (T : List Token) : s.hitBlocks bs T = s.trie.matched T / bs := by
  obtain ⟨⟨rfl, full, hv⟩, -⟩ := h
  have hlen : s.trie.matched T / c.tree.blockSize ≤ (s.trie.path T).length :=
    Nat.div_le_of_le_mul (hv.matched_le_blocks T)
  have hall : ∀ b ∈ s.head c.tree.blockSize T, s.pool.live b = true := fun b hb =>
    hs.path T b (List.mem_of_mem_take hb)
  rw [CacheState.hitBlocks, List.countP_eq_length.2 hall, CacheState.head, List.length_take]
  exact Nat.min_eq_left hlen

/-- A prompt in the tree of a cache whose first blocks are allocated is found in full. -/
theorem foundInFull_of_complete {s : CacheState} {T P : List Token} {k : ℕ}
    (hc : cm.caches.get? n = some c) (hs : c.Represents cm.model.blockSize s)
    (hT : NodeCache.alignedTokens cm.model.blockSize T = (P, k)) (hcomp : 0 < k → s.Complete P k) :
    cm.FoundInFull n T := by
  have hk : T.length / cm.model.blockSize = k := congrArg Prod.snd hT
  have hbs := cm.model.one_le_blockSize
  rw [foundInFull_iff hc hs, hk]
  rcases Nat.eq_zero_or_pos k with rfl | hpos
  · have hle := CacheState.matched_div_le (s := s) hT hbs
    rw [CacheState.hitBlocks, CacheState.head, Nat.le_zero.1 hle]
    rfl
  · exact (CacheState.hitBlocks_eq_iff hs hbs hT (hcomp hpos).node).2 (hcomp hpos).live

/-- An admission that returns leaves the prompt in the tree. -/
theorem admit_foundInFull (h : Reachable nodeIds model nodeConfig bandwidth cm)
    (hcpu : nodeConfig.cpuBlocks = 0) (hdisk : nodeConfig.diskBlocks = 0)
    (hc : cm.caches.get? n = some c) (clock : ℕ → Time) (T : List Token)
    (hok : ((admitTokens clock T n).run cm).isOk = true) :
    ((admitTokens clock T n).run cm).state.FoundInFull n T := by
  have hint := (h.step (.admitTokens clock T n)).intact hcpu hdisk
  obtain ⟨s, hs⟩ := h.inv.node n c hc
  have hbs := cm.model.one_le_blockSize
  have hT : NodeCache.alignedTokens cm.model.blockSize T =
    ((NodeCache.alignedTokens cm.model.blockSize T).1, T.length / cm.model.blockSize) := rfl
  generalize (NodeCache.alignedTokens cm.model.blockSize T).1 = P at hT
  obtain ⟨m, c', s', hc', -, -, hout⟩ :=
    NodeCache.admit_spec hs.represents hs.inv hbs cm.nodeConfig.gpuBlocks clock hT
  have hrun : (admitTokens clock T n).run cm = (onNode n
      (NodeCache.admitTokens cm.model.blockSize cm.nodeConfig.gpuBlocks clock T)).run cm := rfl
  change ((admitTokens clock T n).run cm).state.Intact at hint
  rw [hrun, run_onNode _ hc] at hok hint ⊢
  generalize (NodeCache.admitTokens cm.model.blockSize cm.nodeConfig.gpuBlocks clock T).run c = r
    at hout hok hint ⊢
  have hget : (cm.update n c' cm.blockTables).caches.get? n = some c' := PyDict.get?_set_self ..
  cases hout with
  | full msg hno => cases hok
  | clash msg hsame hk hcl => cases hok
  | hit hprep hsame hstale hcomp =>
      subst hsame
      exact foundInFull_of_complete hget hc' hT hcomp
  | inserted cmid bs fresh hprep hmid hk hno hnode hpath hfresh hkept =>
      obtain ⟨s'', hs'', hlive⟩ := hint n c' hget
      obtain rfl := hc'.unique hs''
      exact foundInFull_of_complete hget hc' hT fun _ =>
        ⟨hnode, fun b hb => hlive.path P b (List.mem_of_mem_take hb)⟩

/-- A materialization that returns leaves the prompt in the tree; else it is out of memory. -/
theorem materialize_foundInFull (h : Reachable nodeIds model nodeConfig bandwidth cm)
    (hcpu : nodeConfig.cpuBlocks = 0) (hdisk : nodeConfig.diskBlocks = 0)
    (hc : cm.caches.get? n = some c) (clock : ℕ → Time) {r : RequestId} (T : List Token)
    (ht : cm.blockTables.get? (n, r) = none) :
    (∃ t cm', (materializeRequest clock r T n).run cm = .ok t cm' ∧ cm'.FoundInFull n T) ∨
      ∃ msg cm', (materializeRequest clock r T n).run cm = .error (.memoryError msg) cm' := by
  obtain ⟨s, hs⟩ := h.inv.node n c hc
  obtain ⟨s', hs', hint⟩ := h.intact hcpu hdisk n c hc
  obtain rfl := hs.represents.unique hs'
  have hT : NodeCache.alignedTokens cm.model.blockSize T =
    ((NodeCache.alignedTokens cm.model.blockSize T).1, T.length / cm.model.blockSize) := rfl
  obtain ⟨c', s₁, hc', -, -, hout⟩ := materializeRequest_spec (r := r) clock hc ht hs hT
  generalize (materializeRequest clock r T n).run cm = out at hout
  cases hout with
  | full msg _ _ => exact Or.inr ⟨msg, _, rfl⟩
  | collision msg _ hcol _ => exact absurd hcol (hint.not_collision _ _)
  | ok t _ _ hcomp _ =>
      exact Or.inl ⟨t, _, rfl, foundInFull_of_complete (PyDict.get?_set_self ..) hc' hT hcomp⟩

/-- **With a GPU tier only the tree never lies**: after any calls every block of the tree is
allocated, on the GPU tier; a lookup counts all full blocks of its match; an admission or a
materialization that returns leaves the prompt found in full; and a materialization fails in its
declared way only. -/
theorem single_tier_coherent (h : Reachable nodeIds model nodeConfig bandwidth cm)
    (hcpu : nodeConfig.cpuBlocks = 0) (hdisk : nodeConfig.diskBlocks = 0)
    (hc : cm.caches.get? n = some c) :
    (∀ a ∈ c.tree.nodes.values, ∀ b ∈ (c.tree.node a).blockIds, c.pool.tierOf b = some .gpu) ∧
    (∀ now request, ∃ l cm', (lookup now request n).run cm = .ok l cm' ∧
      l.matchedTokens =
        (c.walk request.tokenIds).1 / cm.model.blockSize * cm.model.blockSize) ∧
    (∀ clock T, ((admitTokens clock T n).run cm).isOk = true →
      ((admitTokens clock T n).run cm).state.FoundInFull n T) ∧
    (∀ clock r T, cm.blockTables.get? (n, r) = none →
      (∃ t cm', (materializeRequest clock r T n).run cm = .ok t cm' ∧ cm'.FoundInFull n T) ∨
        ∃ msg cm', (materializeRequest clock r T n).run cm = .error (.memoryError msg) cm') := by
  obtain ⟨s, hs, hi, hg, hint⟩ := h.sound hcpu hdisk (h.intact hcpu hdisk) hc
  refine ⟨fun a ha b hb => ?_, fun now request => ?_, fun clock T hok => ?_,
    fun clock r T ht => materialize_foundInFull h hcpu hdisk hc clock T ht⟩
  · have htree := hs.tree
    obtain ⟨-, full, hv⟩ := htree
    rw [← hv.items_full ha] at hb
    rw [hs.pool]
    exact hg.tierOf_eq hi.pool_wf (hint (full a) b hb)
  · obtain ⟨l, cm', hrun, hl⟩ := run_lookup hc hs now request
    refine ⟨l, cm', hrun, ?_⟩
    rw [hl, hitBlocks_of_intact hs cm.model.one_le_blockSize hint, hs.walk_eq]
  · exact admit_foundInFull h hcpu hdisk hc clock T hok

/-- The admission of the second prompt has pushed out the first one as a whole. -/
theorem single_tier_coherent_two : ∃ c,
    ((oneNode unitBlocks 4 0 0).run [.admitAt 1 [1, 2, 3],
      .admitAt 2 [11, 12, 13]]).caches.get? "n" = some c ∧
    ∀ a ∈ c.tree.nodes.values, ∀ b ∈ (c.tree.node a).blockIds, c.pool.tierOf b = some .gpu := by
  obtain ⟨c, hc⟩ : ∃ c, ((oneNode unitBlocks 4 0 0).run [.admitAt 1 [1, 2, 3],
      .admitAt 2 [11, 12, 13]]).caches.get? "n" = some c :=
    Option.isSome_iff_exists.1 (by decide +kernel)
  have hr : Reachable ["n"] unitBlocks { NodeConfig.defaults with
      gpuBlocks := 4, cpuBlocks := 0, diskBlocks := 0 } .defaults
      ((oneNode unitBlocks 4 0 0).run [.admitAt 1 [1, 2, 3], .admitAt 2 [11, 12, 13]]) :=
    Reachable.init.run _
  exact ⟨c, hc, (single_tier_coherent hr rfl rfl hc).1⟩

end CacheManager

end NanoKVRouter
