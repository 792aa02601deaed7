/-
**Who owns a block, and when a block is lost.**

Every allocated block has one place in the tree of its node, no two nodes of a tree share a block,
and no tier is over its capacity.  The demotion loop frees a block only if it was on disk already or
the disk tier was full; as long as it meets neither, every admitted prompt stays found.

Main definitions:

* `RadixTree.Occurs` — the place of a block in a tree.

Main results:

* `CacheManager.pool_tree_agree` — **pool and tree agree on ownership**;
* `CacheManager.freed_only_when_exhausted` — **when the demotion loop frees a block**.
-/

import NanoKVRouter.CacheTables

set_option relaxedAutoImplicit false
set_option autoImplicit false

namespace NanoKVRouter

/-! ### Places in a tree -/

namespace RadixTree

/-- The block is at position `i` of the block ids of the node `a` of the tree. -/
structure Occurs (t : RadixTree) (b : BlockId) (a : Addr) (i : ℕ) : Prop where
  linked : t.Linked a
  get : (t.node a).blockIds[i]? = some b

variable {t : RadixTree} {full : Addr → List Token} {A : PathTrie Token BlockId}

/-- A node that has a block is indexed. -/
theorem View.exists_of_occurs (h : t.View full A) {a : Addr} {b : BlockId} (ha : t.Linked a)
    (hb : b ∈ (t.node a).blockIds) : a ∈ t.nodes.values ∧ b ∈ A.items (full a) := by
  rcases h.wf.linked_iff.1 ha with rfl | hv
  · rw [h.wf.root_blockIds] at hb
    simp at hb
  · exact ⟨hv, by rwa [h.items_full hv]⟩

/-- No two nodes of the tree share a block. -/
theorem View.node_unique (h : t.View full A) (hA : A.Distinct) {a a' : Addr} {b : BlockId}
    (ha : t.Linked a) (ha' : t.Linked a') (hb : b ∈ (t.node a).blockIds)
    (hb' : b ∈ (t.node a').blockIds) : a = a' := by
  obtain ⟨hv, hi⟩ := h.exists_of_occurs ha hb
  obtain ⟨hv', hi'⟩ := h.exists_of_occurs ha' hb'
  exact h.wf.full_inj (Or.inr hv) (Or.inr hv') (hA.unique _ _ b hi hi')

end RadixTree

namespace CacheManager

variable {cm : CacheManager} {n : NodeId} {c : NodeCache} {s : CacheState}
  {nodeIds : List NodeId} {model : ModelConfig} {nodeConfig : NodeConfig}
  {bandwidth : BandwidthConfig}

/-! ### Ownership -/

/-- **Pool and tree agree on ownership.**  An allocated block occurs in the tree at exactly one place,
no block occurs in two nodes of the tree, and no tier holds more blocks than configured. -/
theorem pool_tree_agree (h : Reachable nodeIds model nodeConfig bandwidth cm)
    (hc : cm.caches.get? n = some c) :
    (∀ t, ∀ b ∈ (c.pool.tiers t).allocated, ∃ a i, c.tree.Occurs b a i ∧
      ∀ a' i', c.tree.Occurs b a' i' → a' = a ∧ i' = i) ∧
    (∀ a a' b, c.tree.Linked a → c.tree.Linked a' → b ∈ (c.tree.node a).blockIds →
      b ∈ (c.tree.node a').blockIds → a = a') ∧
    ∀ t, (c.pool.tiers t).allocated.card ≤ nodeConfig.blocks t := by
  obtain ⟨s, hs⟩ := h.inv.node n c hc
  obtain ⟨⟨-, full, hv⟩, hpool⟩ := hs.represents
  refine ⟨?_, fun a a' b ha ha' hb hb' => hv.node_unique hs.inv.distinct ha ha' hb hb', ?_⟩
  · intro t b hb
    rw [hpool, hs.inv.pool_wf.mem_allocated] at hb
    obtain ⟨l, hl⟩ := hs.inv.owned b (BlockPool.live_iff.2 ⟨t, hb⟩)
    obtain ⟨bids, hbids, -⟩ := PathTrie.exists_of_mem_items hl
    obtain ⟨a, ha, rfl⟩ := hv.exists_addr (l := l) (by rw [hbids]; rfl)
    have hnd := hs.inv.distinct.nodup (full a)
    rw [hv.items_full ha] at hl hnd
    obtain ⟨i, hi⟩ := List.mem_iff_getElem?.1 hl
    refine ⟨a, i, ⟨hv.wf.linked_iff.2 (Or.inr ha), hi⟩, fun a' i' hocc => ?_⟩
    obtain rfl := hv.node_unique hs.inv.distinct hocc.linked (hv.wf.linked_iff.2 (Or.inr ha))
      (List.mem_of_getElem? hocc.get) hl
    refine ⟨rfl, ?_⟩
    obtain ⟨hlt, -⟩ := List.getElem?_eq_some_iff.1 hocc.get
    exact (List.getElem?_inj hlt hnd).1 (hocc.get.trans hi.symm)
  · intro t
    rw [hpool, ← h.config.2.1, ← hs.capacity_eq]
    exact hs.inv.pool_wf.used_le t

theorem pool_tree_agree_one :
    ∃ c, ((oneNode unitBlocks 4 2 0).run [.admitAt 1 [1, 2]]).caches.get? "n" =
        some c ∧
      ∃ a i, c.tree.Occurs 1 a i ∧ ∀ a' i', c.tree.Occurs 1 a' i' → a' = a ∧ i' = i := by
  have hmem : (((oneNode unitBlocks 4 2 0).run
      [.admitAt 1 [1, 2]]).caches.get? "n").map
        (fun c => decide (1 ∈ (c.pool.tiers .gpu).allocated)) = some true := by decide +kernel
  obtain ⟨c, hc, hmem⟩ := Option.map_eq_some_iff.1 hmem
  exact ⟨c, hc, (pool_tree_agree (Reachable.init.run _) hc).1 .gpu 1 (of_decide_eq_true hmem)⟩

/-! ### The history of the demotion loop -/

/-- What further calls do to a node. -/
theorem recorded_run (ops : List Op) : ∀ {cm : CacheManager} {c : NodeCache} {s : CacheState},
    cm.Inv → cm.caches.get? n = some c → NodeInv cm n c s →
    (cm.run ops).model = cm.model ∧ ∃ c' s', (cm.run ops).caches.get? n = some c' ∧
      NodeInv (cm.run ops) n c' s' ∧ NodeCache.Recorded c s c' s' := by
  induction ops with
  | nil =>
      intro cm c s _ hc hs
      exact ⟨rfl, c, s, hc, hs, .refl c s⟩
  | cons op ops ih =>
      intro cm c s h hc hs
      obtain ⟨hinv, hm⟩ := apply_spec h op
      obtain ⟨c₁, s₁, hc₁, hs₁, -, hrec⟩ := hm.node n c s hc hs
      obtain ⟨hmodel, c', s', hc', hs', hrec'⟩ := ih hinv hc₁ hs₁
      exact ⟨hmodel.trans hm.model_eq, c', s', hc', hs', hrec.trans hrec'⟩

/-- An admission that returns leaves its prompt in the tree. -/
theorem node_of_admit (h : cm.Inv) {clock : ℕ → Time} {T P : List Token} {k : ℕ}
    (hT : NodeCache.alignedTokens cm.model.blockSize T = (P, k)) (hk : 0 < k)
    (hok : ((admitTokens clock T n).run cm).isOk = true) :
    ∃ c s, (cm.apply (.admitTokens clock T n)).caches.get? n = some c ∧
      NodeInv (cm.apply (.admitTokens clock T n)) n c s ∧ (s.trie P).isSome := by
  have hrun : (admitTokens clock T n).run cm = (onNode n
      (NodeCache.admitTokens cm.model.blockSize cm.nodeConfig.gpuBlocks clock T)).run cm := rfl
  cases hc : cm.caches.get? n with
  | none =>
      rw [hrun, run_onNode_unknown _ hc] at hok
      simp [EStateM.Result.isOk] at hok
  | some c =>
      obtain ⟨s, hs⟩ := h.node n c hc
      obtain ⟨m, c', s', hc', -, -, hout⟩ := NodeCache.admit_spec hs.represents hs.inv
        cm.model.one_le_blockSize cm.nodeConfig.gpuBlocks clock hT
      have hm := (apply_spec h (.admitTokens clock T n)).2
      obtain ⟨c₁, s₁, hc₁, hs₁, -⟩ := hm.node n c s hc hs
      have hget : (cm.apply (.admitTokens clock T n)).caches.get? n = some c' := by
        change ((admitTokens clock T n).run cm).state.caches.get? n = some c'
        rw [hrun, state_onNode _ hc, state_of_admitted hout]
        exact PyDict.get?_set_self ..
      obtain rfl : c₁ = c' := Option.some_inj.1 (hc₁.symm.trans hget)
      obtain rfl : s₁ = s' := by
        have hrep := hs₁.represents
        rw [hm.model_eq] at hrep
        exact hc'.unique hrep
      refine ⟨c₁, s₁, hc₁, hs₁, ?_⟩
      rw [hrun, run_onNode _ hc] at hok
      generalize (NodeCache.admitTokens cm.model.blockSize cm.nodeConfig.gpuBlocks clock T).run c = out
        at hout hok
      cases hout with
      | full msg _ => simp [EStateM.Result.isOk] at hok
      | clash msg _ _ _ => simp [EStateM.Result.isOk] at hok
      | hit _ hsame _ hcomp =>
          rw [hsame]
          exact (hcomp hk).node
      | inserted _ _ _ _ _ _ _ hnode _ _ _ => exact hnode

/-- **When the demotion loop frees a block**: the block was on disk, or the disk tier had no free slot.
As long as no call of the loop meets either, every admitted prompt stays found. -/
theorem freed_only_when_exhausted (h : Reachable nodeIds model nodeConfig bandwidth cm) :
    (∀ n c d, cm.caches.get? n = some c → d ∈ c.demotions → d.Frees →
      d.before.tierOf d.block = some .disk ∨ d.before.freeSlots .disk ≤ 0) ∧
    ∀ clock T n ops c', ((admitTokens clock T n).run cm).isOk = true →
      ((cm.apply (.admitTokens clock T n)).run ops).caches.get? n = some c' →
      (∀ d ∈ c'.demotions, d.before.tierOf d.block ≠ some .disk ∧ 0 < d.before.freeSlots .disk) →
      ((cm.apply (.admitTokens clock T n)).run ops).FoundInFull n T := by
  have hinv := h.inv
  constructor
  · intro n c d hc hd hfree
    obtain ⟨s, hs⟩ := hinv.node n c hc
    exact hs.exhausted d hd hfree
  · intro clock T n ops c' hok hc' hcalls
    have hm := (apply_spec hinv (.admitTokens clock T n)).2
    have hinv₁ := (apply_spec hinv (.admitTokens clock T n)).1
    have hT : NodeCache.alignedTokens cm.model.blockSize T =
      ((NodeCache.alignedTokens cm.model.blockSize T).1, T.length / cm.model.blockSize) := rfl
    generalize (NodeCache.alignedTokens cm.model.blockSize T).1 = P at hT
    have hreach := (h.step (.admitTokens clock T n)).run ops
    obtain ⟨s', hs'⟩ := hreach.inv.node n c' hc'
    rcases Nat.eq_zero_or_pos (T.length / cm.model.blockSize) with h0 | hk
    · refine foundInFull_of_zero hc' hs'.represents ?_
      rwa [hreach.config.1, ← h.config.1]
    · obtain ⟨c₁, s₁, hc₁, hs₁, hnode⟩ := node_of_admit hinv hT hk hok
      obtain ⟨hmodel, c'', s'', hc'', hs'', calls, hdem, hex, hkept⟩ :=
        recorded_run ops hinv₁ hc₁ hs₁
      obtain rfl : c'' = c' := Option.some_inj.1 (hc''.symm.trans hc')
      have hnone : ∀ d ∈ c''.demotions, ¬ d.Frees := by
        intro d hd hfree
        rcases hs''.exhausted d hd hfree with hdisk | hfull
        · exact (hcalls d hd).1 hdisk
        · exact absurd (hcalls d hd).2 (not_lt.2 hfull)
      rw [hdem] at hnone
      obtain ⟨hintact, hnodes⟩ := hkept
        (hs₁.intact fun d hd => hnone d (List.mem_append_left _ hd))
        fun d hd => hnone d (List.mem_append_right _ hd)
      have hT' : NodeCache.alignedTokens
          ((cm.apply (.admitTokens clock T n)).run ops).model.blockSize T =
          (P, T.length / cm.model.blockSize) := by
        rwa [hmodel, hm.model_eq]
      refine (foundInFull_iff hc' hs''.represents T).2 ?_
      rw [show T.length / ((cm.apply (.admitTokens clock T n)).run ops).model.blockSize =
        T.length / cm.model.blockSize from congrArg Prod.snd hT']
      refine (CacheState.hitBlocks_eq_iff hs''.represents
        ((cm.apply (.admitTokens clock T n)).run ops).model.one_le_blockSize hT' (hnodes P hnode)).2 ?_
      exact fun b hb => hintact.path P b (List.mem_of_mem_take hb)

theorem freed_only_when_exhausted_one :
    (((oneNode unitBlocks 2 0 10).apply (.admitAt 1 [1])).run
      [.admitAt 2 [2]]).FoundInFull "n" [1] := by
  have hcalls : ((((oneNode unitBlocks 2 0 10).apply (.admitAt 1 [1])).run
      [.admitAt 2 [2]]).caches.get? "n").map (fun c => c.demotions.all fun d =>
        decide (d.before.tierOf d.block ≠ some .disk ∧ 0 < d.before.freeSlots .disk)) =
      some true := by decide +kernel
  obtain ⟨c, hc, hall⟩ := Option.map_eq_some_iff.1 hcalls
  exact (freed_only_when_exhausted .init).2 (fun _ => 1) [1] "n" [.admitAt 2 [2]] c
    (by decide +kernel) hc fun d hd => of_decide_eq_true (List.all_eq_true.1 hall d hd)

/-- The least recently used leaf is on disk, and the demotion loop frees its block though the disk
tier has room. -/
theorem freed_only_when_full_fails :
    Reachable ["n"] unitBlocks { gpuBlocks := 2, cpuBlocks := 0, diskBlocks := 10 } .defaults
        ((oneNode unitBlocks 2 0 10).run [.admitAt 1 [1], .admitAt 2 [2],
          .admitAt 3 [3], .admitAt 4 [4]]) ∧
      (∃ c d, ((oneNode unitBlocks 2 0 10).run [.admitAt 1 [1],
          .admitAt 2 [2], .admitAt 3 [3],
          .admitAt 4 [4]]).caches.get? "n" = some c ∧ d ∈ c.demotions ∧ d.Frees ∧
        0 < d.before.freeSlots .disk) ∧
      ¬ ((oneNode unitBlocks 2 0 10).run [.admitAt 1 [1], .admitAt 2 [2],
        .admitAt 3 [3], .admitAt 4 [4]]).FoundInFull "n" [1] := by
  refine ⟨Reachable.init.run _, ?_, fun h => absurd h.matchedTokens_eq (by decide +kernel)⟩
  have hany : (((oneNode unitBlocks 2 0 10).run [.admitAt 1 [1],
      .admitAt 2 [2], .admitAt 3 [3],
      .admitAt 4 [4]]).caches.get? "n").map (fun c => c.demotions.any fun d =>
        decide ((d.before.live d.block = true ∧ d.after.live d.block = false) ∧
          0 < d.before.freeSlots .disk)) = some true := by decide +kernel
  obtain ⟨c, hc, hany⟩ := Option.map_eq_some_iff.1 hany
  obtain ⟨d, hd, hdec⟩ := List.any_eq_true.1 hany
  obtain ⟨hfree, hslots⟩ := of_decide_eq_true hdec
  exact ⟨c, d, hc, hd, hfree, hslots⟩

end CacheManager

end NanoKVRouter
