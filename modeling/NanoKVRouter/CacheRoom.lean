/-
**How much room the demotion loop can make.**

Demotion takes unpinned leaves only, so a node at or above a pinned block is out of its reach: the
node is held.  Evictions neither drop a held node nor move one of its blocks, and while a node is not
held there is a leaf at or below it to demote.  So the held GPU blocks are what the loop cannot get
rid of, and it makes room exactly when they leave enough of it.

What an insertion then needs is the sum of its mints, which is at most one block more than the
prompt has.

Main definitions:

* `CacheState.Held`, `CacheState.heldGpu` — held nodes, and the number of held GPU blocks;
* `NodeCache.heldGpu` — the same number, read off the tree.

Main results:

* `CacheState.Evicts.heldGpu_eq` — **evictions leave the held GPU blocks alone**;
* `NodeCache.makeRoom_iff` — **the demotion loop makes room** exactly when the held GPU blocks leave
  it;
* `NodeCache.admitPrepare_cases` — what comes before the insertion;
* `RadixTree.insert_room` — an insertion returns exactly when its mints fit into the GPU tier.
-/

import NanoKVRouter.CacheTrees
import NanoKVRouter.RadixTreeMints

set_option relaxedAutoImplicit false
set_option autoImplicit false

namespace NanoKVRouter

/-! ### Held blocks -/

namespace CacheState

/-- A block for which `pinned` holds is at or below the node. -/
def Held (s : CacheState) (pinned : BlockId → Bool) (l : List Token) : Prop :=
  ∃ w, l <+: w ∧ ∃ b ∈ s.trie.items w, pinned b = true

/-- The block belongs to a held node. -/
def HeldBlock (s : CacheState) (pinned : BlockId → Bool) (b : BlockId) : Prop :=
  ∃ l, b ∈ s.trie.items l ∧ s.Held pinned l

open Classical in
/-- The number of GPU blocks that belong to held nodes. -/
noncomputable def heldGpu (s : CacheState) (pinned : BlockId → Bool) : ℕ :=
  ((s.pool.tiers .gpu).allocated.filter (s.HeldBlock pinned)).card

variable {s s' : CacheState}

theorem heldGpu_le (s : CacheState) (pinned : BlockId → Bool) :
    s.heldGpu pinned ≤ s.pool.used .gpu := by
  classical
  exact Finset.card_filter_le _ _

/-- Without pins nothing is held. -/
theorem heldGpu_eq_zero {pinned : BlockId → Bool} (h : ∀ b, pinned b = false) :
    s.heldGpu pinned = 0 := by
  classical
  rw [heldGpu, Finset.card_eq_zero, Finset.filter_eq_empty_iff]
  rintro b - ⟨l, -, w, -, x, -, hx⟩
  rw [h x] at hx
  cases hx

namespace Evict

/-- A candidate for demotion is not held. -/
theorem not_held_of_candidate {l : List Token} (hl : s.Candidate l) : ¬ s.Held s.pool.pinned l := by
  rintro ⟨w, hw, b, hb, hp⟩
  by_cases hwl : w = l
  · subst hwl
    rw [hl.unpinned b hb] at hp
    cases hp
  · rw [PathTrie.items_of_none (hl.leaf w hw hwl)] at hb
    cases hb

/-- The blocks of a held node stay where they are. -/
theorem tierOf_held (h : Evict s s') (hi : s.Inv) {l : List Token} {b : BlockId}
    (hb : b ∈ s.trie.items l) (hl : s.Held s.pool.pinned l) : s'.pool.tierOf b = s.pool.tierOf b := by
  cases h with
  | move x c t q hx hc _ hq =>
      rw [hq.tierOf_eq, if_neg]
      rintro rfl
      exact not_held_of_candidate (hi.distinct.unique _ _ _ hb hc ▸ hx) hl
  | free x c q hx hc _ hq =>
      rw [hq.tierOf_eq, if_neg]
      rw [List.mem_singleton]
      rintro rfl
      exact not_held_of_candidate (hi.distinct.unique _ _ _ hb hc ▸ hx) hl
  | drop x ids q _ hun hids hq =>
      rw [hq.tierOf_eq, if_neg]
      intro hmem
      obtain ⟨-, y, hy, hby⟩ := (hids b).1 hmem
      obtain ⟨w, hw, p, hp, hpin⟩ := hl
      rw [hun w ((hi.distinct.unique _ _ _ hby hb ▸ hy).trans hw) p hp] at hpin
      cases hpin

/-- Evictions leave the held nodes as they are. -/
theorem trie_held (h : Evict s s') {l : List Token} (hl : s.Held s.pool.pinned l) :
    s'.trie l = s.trie l := by
  cases h with
  | move => rfl
  | free => rfl
  | drop x ids q _ hun _ _ =>
      refine PathTrie.prune_of_not_isPrefix _ fun hx => ?_
      obtain ⟨w, hw, p, hp, hpin⟩ := hl
      rw [hun w (hx.trans hw) p hp] at hpin
      cases hpin

theorem held_iff (h : Evict s s') (l : List Token) :
    s'.Held s.pool.pinned l ↔ s.Held s.pool.pinned l := by
  constructor
  · rintro ⟨w, hw, b, hb, hp⟩
    exact ⟨w, hw, b, h.items_subset hb, hp⟩
  · rintro ⟨w, hw, b, hb, hp⟩
    refine ⟨w, hw, b, ?_, hp⟩
    rwa [PathTrie.items, h.trie_held ⟨w, List.prefix_refl w, b, hb, hp⟩]

theorem heldBlock_iff (h : Evict s s') (b : BlockId) :
    s'.HeldBlock s.pool.pinned b ↔ s.HeldBlock s.pool.pinned b := by
  constructor
  · rintro ⟨l, hb, hl⟩
    exact ⟨l, h.items_subset hb, (h.held_iff l).1 hl⟩
  · rintro ⟨l, hb, hl⟩
    refine ⟨l, ?_, (h.held_iff l).2 hl⟩
    rwa [PathTrie.items, h.trie_held hl]

theorem heldGpu_eq (h : Evict s s') (hi : s.Inv) :
    s'.heldGpu s.pool.pinned = s.heldGpu s.pool.pinned := by
  classical
  refine congrArg Finset.card ?_
  ext b
  rw [Finset.mem_filter, Finset.mem_filter, (h.inv hi).pool_wf.mem_allocated,
    hi.pool_wf.mem_allocated, h.heldBlock_iff]
  refine and_congr_left ?_
  rintro ⟨l, hb, hl⟩
  rw [h.tierOf_held hi hb hl]

end Evict

/-- **Evictions leave the held GPU blocks alone.** -/
theorem Evicts.heldGpu_eq (h : Evicts s s') (hi : s.Inv) :
    s'.heldGpu s'.pool.pinned = s.heldGpu s.pool.pinned := by
  have hpin : s'.pool.pinned = s.pool.pinned := funext fun b => h.pinned_eq hi b
  rw [hpin]
  induction h with
  | refl => rfl
  | @tail u v hrun hstep ih =>
      have hu : u.pool.pinned = s.pool.pinned := funext fun b => Evicts.pinned_eq hrun hi b
      rw [← ih hu, ← hu]
      exact hstep.heldGpu_eq (Evicts.inv hrun hi)

end CacheState

/-! ### Held nodes of the tree -/

namespace RadixTree

section Below

variable {t : RadixTree} {full : Addr → List Token} {A : PathTrie Token BlockId}

/-- A node of a represented trie has a leaf at or below it. -/
theorem View.exists_leaf (h : t.View full A) (p : BlockPool) {l : List Token}
    (hl : (A l).isSome) : ∃ w, l <+: w ∧ (A w).isSome ∧ CacheState.IsLeaf ⟨A, p⟩ w := by
  obtain ⟨a, ha, rfl⟩ := h.exists_addr hl
  -- the longest node at or below
  obtain ⟨x, hx⟩ : ∃ x, x ∈ (t.nodes.values.filter fun x => full a <+: full x).argmax
      fun x => (full x).length := by
    refine Option.isSome_iff_exists.1 (Option.isSome_iff_ne_none.2 fun hnone => ?_)
    rw [List.argmax_eq_none, List.filter_eq_nil_iff] at hnone
    exact hnone a ha (by simp)
  obtain ⟨hxv, hax⟩ := List.mem_filter.1 (List.argmax_mem hx)
  rw [decide_eq_true_eq] at hax
  refine ⟨full x, hax, by rw [h.apply_full hxv]; rfl, fun w hw hne => ?_⟩
  by_contra hnode
  obtain ⟨y, hy, rfl⟩ := h.exists_addr (Option.isSome_iff_ne_none.2 hnode)
  have hle := List.le_of_mem_argmax (f := fun x => (full x).length)
    (List.mem_filter.2 ⟨hy, by simpa using hax.trans hw⟩) hx
  exact hne (hw.eq_of_length_le hle).symm

/-- A block for which `pinned` holds is at or below the node. -/
def pinnedBelow (t : RadixTree) (pinned : BlockId → Bool) : ℕ → Addr → Bool
  | 0, _ => false
  | fuel + 1, a => (t.node a).blockIds.any pinned ||
      (t.node a).children.values.any (pinnedBelow t pinned fuel)

theorem View.pinnedBelow_iff (h : t.View full A) (pinned : BlockId → Bool) : ∀ (fuel : ℕ) {a : Addr},
    a ∈ t.nodes.values → (t.nodes.values.filter fun x => full a <+: full x).length ≤ fuel →
    (t.pinnedBelow pinned fuel a = true ↔
      ∃ x ∈ t.nodes.values, full a <+: full x ∧ ∃ b ∈ (t.node x).blockIds, pinned b = true) := by
  intro fuel
  induction fuel with
  | zero =>
      intro a ha hle
      have hmem : a ∈ t.nodes.values.filter fun x => full a <+: full x :=
        List.mem_filter.2 ⟨ha, by simp⟩
      have := List.length_pos_of_mem hmem
      omega
  | succ fuel ih =>
      intro a ha hle
      have hchild : ∀ {c tok}, (t.node a).children.get? tok = some c →
          c ∈ t.nodes.values ∧
          (t.nodes.values.filter fun x => full c <+: full x).length ≤ fuel := by
        intro c tok hc
        have hlt := h.length_below_child_lt ha hc
        exact ⟨(h.wf.child a tok c (Or.inr ha) hc).1, by omega⟩
      rw [pinnedBelow, Bool.or_eq_true, List.any_eq_true, List.any_eq_true]
      constructor
      · rintro (⟨b, hb, hp⟩ | ⟨c, hc, hbelow⟩)
        · exact ⟨a, ha, List.prefix_refl _, b, hb, hp⟩
        · obtain ⟨tok, htok⟩ := PyDict.mem_values.1 hc
          have hget := PyDict.get?_eq_some_iff.2 htok
          obtain ⟨hcv, hlen⟩ := hchild hget
          obtain ⟨x, hx, hcx, hpin⟩ := (ih hcv hlen).1 hbelow
          obtain ⟨r, -, hfull⟩ := h.wf.full_child (Or.inr ha) hget
          exact ⟨x, hx, (hfull ▸ List.prefix_append _ _ : full a <+: full c).trans hcx, hpin⟩
      · rintro ⟨x, hx, hax, hpin⟩
        rcases h.wf.exists_child (Or.inr hx) (Or.inr ha) hax with rfl | ⟨tok, c, hc, hcx⟩
        · exact Or.inl hpin
        · obtain ⟨hcv, hlen⟩ := hchild hc
          exact Or.inr ⟨c, PyDict.mem_values_of_get? hc, (ih hcv hlen).2 ⟨x, hx, hcx, hpin⟩⟩

end Below

/-! ### What an insertion needs -/

section Mints

variable {t t' : RadixTree} {full full' : Addr → List Token} {A B : PathTrie Token BlockId}

theorem nBlocks_mono (t : RadixTree) {xs ys : List Token} (h : xs.length ≤ ys.length) :
    t.nBlocks xs ≤ t.nBlocks ys := by
  by_cases hx : xs = []
  · rw [nBlocks, if_pos hx]
    exact Nat.zero_le _
  · have hy : ys ≠ [] := by
      rintro rfl
      exact hx (List.length_eq_zero_iff.1 (Nat.le_zero.1 h))
    rw [nBlocks, nBlocks, if_neg hx, if_neg hy]
    exact Nat.div_le_div_right (by omega)

/-- An insertion mints one piece that is no longer than the prompt, or a head before it. -/
theorem View.mints_cases (h : t.View full A) {T : List Token} (hT : T ≠ []) :
    (t.mints T).length ≤ 1 ∧ (t.mints T).sum ≤ t.nBlocks T ∨
      ∃ n ≤ t.nBlocks T, t.mints T = [1, n] := by
  obtain ⟨hend, -⟩ := h.insertEnd_spec T
  have hpos := nBlocks_pos (t := t) h.wf.blockSize_pos hT
  rw [mints]
  cases he : t.insertEnd T with
  | mk a rest' =>
      rw [he] at hend
      have hlen : rest'.length ≤ T.length := by
        rw [← hend.path_eq, List.length_append]
        exact Nat.le_add_left _ _
      cases rest' with
      | nil => exact Or.inl ⟨by simp [mintsAt], by simp [mintsAt]⟩
      | cons first rest =>
          have hle := t.nBlocks_mono hlen
          cases hc : (t.node a).children.get? first with
          | none => exact Or.inl ⟨by simp [mintsAt, hc], by simpa [mintsAt, hc] using hle⟩
          | some child =>
              have htail : t.nBlocks ((first :: rest).drop
                  (cpLen (first :: rest) (t.node child).key)) ≤ t.nBlocks (first :: rest) :=
                t.nBlocks_mono (by simp)
              simp only [mintsAt, hc, headMints, tailMints]
              split <;> split
              · exact Or.inl ⟨by simp, by simpa using Nat.succ_le_of_lt hpos⟩
              · exact Or.inr ⟨_, htail.trans hle, rfl⟩
              · exact Or.inl ⟨by simp, by simp⟩
              · exact Or.inl ⟨by simp, by simpa using htail.trans hle⟩

/-- Two mints after nodes were dropped are the mints before. -/
theorem View.mints_of_dropped (h : t.View full A) (h' : t'.View full' B)
    (hbs : t'.blockSize = t.blockSize)
    (hdrop : ∀ z, (B z).isSome → ∀ w, w <+: z → B w = A w) (T : List Token) :
    (t'.mints T).length ≤ 1 ∨ t'.mints T = t.mints T := by
  rw [mints, mints]
  cases hend : t'.insertEnd T with
  | mk a' rest' =>
      cases rest' with
      | nil => exact Or.inl (by simp [mintsAt])
      | cons first rest =>
          cases hc' : (t'.node a').children.get? first with
          | none => exact Or.inl (by simp [mintsAt, hc'])
          | some c' =>
              obtain ⟨a, c, hend₀, hc, hkeys, hblocks⟩ :=
                h.insertEnd_of_dropped h' hdrop hend hc'
              right
              rw [hend₀]
              simp only [mintsAt, hc, hc', headMints, tailMints, nBlocks, hkeys, hblocks, hbs]

end Mints

/-- A list of mints goes through exactly when the GPU tier has room for their sum. -/
theorem run_mintAll_mintGpu : ∀ (ns : List ℕ) {p : BlockPool}, p.Accounted →
    ((∃ q, (mintAll mintGpu ns).run p = .ok () q) ∧ (ns.sum : ℤ) ≤ p.freeSlots .gpu) ∨
      (∃ msg q, (mintAll mintGpu ns).run p = .error (.memoryError msg) q) ∧
        p.freeSlots .gpu < ns.sum := by
  intro ns
  induction ns with
  | nil =>
      intro p hp
      refine Or.inl ⟨⟨p, rfl⟩, ?_⟩
      have := hp.used_le .gpu
      simp only [List.sum_nil, BlockPool.freeSlots, TierState.free, BlockPool.used] at this ⊢
      omega
  | cons n ns ih =>
      intro p hp
      by_cases hn : (n : ℤ) ≤ p.freeSlots .gpu
      · have hrun : (mintGpu n).run p = .ok (p.freshIds n) (p.addBlocks n .gpu) :=
          BlockPool.run_allocate hn
        have hfree : (p.addBlocks n .gpu).freeSlots .gpu = p.freeSlots .gpu - n := by
          have hused := hp.used_addBlocks n .gpu
          have hcap := BlockPool.capacity_addBlocks p n .gpu .gpu
          simp only [BlockPool.freeSlots, TierState.free, BlockPool.used] at hused ⊢
          omega
        have htail := ih (hp.addBlocks hn)
        rw [hfree] at htail
        rw [List.sum_cons, mintAll, Py.run_bind_ok hrun]
        rcases htail with ⟨hok, hle⟩ | ⟨herr, hlt⟩
        · exact Or.inl ⟨hok, by omega⟩
        · exact Or.inr ⟨herr, by omega⟩
      · obtain ⟨msg, hrun⟩ := BlockPool.allocate_full (p := p) (n := n) (t := .gpu) (not_le.1 hn)
        refine Or.inr ⟨⟨msg, p, run_mintAll_error hrun⟩, ?_⟩
        rw [List.sum_cons]
        omega

end RadixTree

namespace NodeCache

variable {c : NodeCache} {s : CacheState} {bs k gpuBlocks : ℕ} {T P : List Token}
  {clock : ℕ → Time}

/-- Without a candidate for demotion every GPU block is held. -/
theorem Represents.heldGpu_eq_used (h : c.Represents bs s) (hi : s.Inv)
    (hnone : ∀ l, ¬ s.Candidate l) : s.heldGpu s.pool.pinned = s.pool.used .gpu := by
  classical
  obtain ⟨⟨-, full, hv⟩, -⟩ := h
  refine congrArg Finset.card (Finset.filter_true_of_mem fun b hb => ?_)
  rw [hi.pool_wf.mem_allocated] at hb
  obtain ⟨l, hl⟩ := hi.owned b (BlockPool.live_iff.2 ⟨_, hb⟩)
  obtain ⟨bids, hbids, -⟩ := PathTrie.exists_of_mem_items hl
  obtain ⟨w, hw, hnode, hleaf⟩ := hv.exists_leaf s.pool (l := l) (by rw [hbids]; rfl)
  refine ⟨l, hl, w, hw, ?_⟩
  by_contra hno
  refine hnone w ⟨hnode, hleaf, fun x hx => ?_⟩
  by_contra hp
  exact hno ⟨x, hx, by simpa using hp⟩

/-- The blocks of the nodes that are at or above a block for which `pinned` holds. -/
def heldBlocks (c : NodeCache) (pinned : BlockId → Bool) : List BlockId :=
  (c.tree.nodes.values.filter (c.tree.pinnedBelow pinned c.tree.nextAddr)).flatMap fun a =>
    (c.tree.node a).blockIds

/-- The number of them on the GPU tier. -/
def heldGpu (c : NodeCache) (pinned : BlockId → Bool) : ℕ :=
  (c.heldBlocks pinned).countP fun b => decide (c.pool.tierOf b = some .gpu)

theorem Represents.mem_heldBlocks (h : c.Represents bs s) (pinned : BlockId → Bool) (b : BlockId) :
    b ∈ c.heldBlocks pinned ↔ s.HeldBlock pinned b := by
  obtain ⟨⟨-, full, hv⟩, -⟩ := h
  simp only [heldBlocks, List.mem_flatMap, List.mem_filter]
  constructor
  · rintro ⟨a, ⟨ha, hbelow⟩, hb⟩
    obtain ⟨x, hx, hax, p, hp, hpin⟩ :=
      (hv.pinnedBelow_iff pinned _ ha (hv.length_below_le a)).1 hbelow
    exact ⟨full a, by rwa [hv.items_full ha], full x, hax, p, by rwa [hv.items_full hx], hpin⟩
  · rintro ⟨l, hb, w, hw, p, hp, hpin⟩
    obtain ⟨bids, hbids, -⟩ := PathTrie.exists_of_mem_items hb
    obtain ⟨a, ha, rfl⟩ := hv.exists_addr (l := l) (by rw [hbids]; rfl)
    obtain ⟨pids, hpids, -⟩ := PathTrie.exists_of_mem_items hp
    obtain ⟨x, hx, rfl⟩ := hv.exists_addr (l := w) (by rw [hpids]; rfl)
    rw [hv.items_full ha] at hb
    rw [hv.items_full hx] at hp
    exact ⟨a, ⟨ha, (hv.pinnedBelow_iff pinned _ ha (hv.length_below_le a)).2
      ⟨x, hx, hw, p, hp, hpin⟩⟩, hb⟩

theorem Represents.nodup_heldBlocks (h : c.Represents bs s) (hi : s.Inv)
    (pinned : BlockId → Bool) : (c.heldBlocks pinned).Nodup := by
  obtain ⟨⟨-, full, hv⟩, -⟩ := h
  rw [heldBlocks, List.nodup_flatMap]
  refine ⟨fun a ha => ?_, ?_⟩
  · have hav := List.mem_of_mem_filter ha
    rw [← hv.items_full hav]
    exact hi.distinct.nodup (full a)
  · refine (hv.wf.values_nodup.filter _).imp_of_mem fun {a x} ha hx hne => ?_
    intro b hba hbx
    change b ∈ (c.tree.node a).blockIds at hba
    change b ∈ (c.tree.node x).blockIds at hbx
    have hav := List.mem_of_mem_filter ha
    have hxv := List.mem_of_mem_filter hx
    rw [← hv.items_full hav] at hba
    rw [← hv.items_full hxv] at hbx
    exact hne (hv.wf.full_inj (Or.inr hav) (Or.inr hxv) (hi.distinct.unique _ _ _ hba hbx))

/-- The number read off the tree is that of the abstract cache. -/
theorem Represents.heldGpu_eq (h : c.Represents bs s) (hi : s.Inv) (pinned : BlockId → Bool) :
    c.heldGpu pinned = s.heldGpu pinned := by
  classical
  rw [heldGpu, List.countP_eq_length_filter, CacheState.heldGpu,
    ← List.toFinset_card_of_nodup ((h.nodup_heldBlocks hi pinned).filter _)]
  refine congrArg Finset.card ?_
  ext b
  rw [List.mem_toFinset, List.mem_filter, h.mem_heldBlocks, Finset.mem_filter,
    hi.pool_wf.mem_allocated, h.pool, decide_eq_true_eq, and_comm]

/-! ### Making room -/

/-- **The demotion loop makes room** exactly when the held GPU blocks leave it. -/
theorem makeRoom_iff (h : c.Represents bs s) (hi : s.Inv) (hk : k ≤ gpuBlocks)
    (clock : ℕ → Time) :
    ∃ c' s', c'.Represents bs s' ∧ CacheState.Evicts s s' ∧
      ((makeRoom gpuBlocks clock k).run c = .ok () c' ∧
          s'.pool.used .gpu + min (k + 1) gpuBlocks ≤ gpuBlocks ∧
          s.heldGpu s.pool.pinned + min (k + 1) gpuBlocks ≤ gpuBlocks ∨
        ∃ msg, (makeRoom gpuBlocks clock k).run c = .error (.memoryError msg) c' ∧
          gpuBlocks < s.heldGpu s.pool.pinned + min (k + 1) gpuBlocks) := by
  obtain ⟨c', s', hd, hrun⟩ := makeRoom_spec h hi gpuBlocks clock k
  refine ⟨c', s', hd.represents, hd.evicts, ?_⟩
  have hheld := hd.evicts.heldGpu_eq hi
  rcases hrun with ⟨hrun, hroom⟩ | ⟨msg, hrun, hbig | ⟨hfull, hnone⟩⟩
  · refine Or.inl ⟨hrun, hroom, ?_⟩
    have := s'.heldGpu_le s'.pool.pinned
    omega
  · omega
  · refine Or.inr ⟨msg, hrun, ?_⟩
    rwa [← hheld, hd.represents.heldGpu_eq_used (hd.evicts.inv hi) hnone]

/-! ### Inserting -/

/-- **An insertion returns** exactly when its mints fit into the GPU tier, and raises `MemoryError`
otherwise. -/
theorem insert_room (h : c.Represents bs s) (hi : s.Inv) (now : Time) (hP : P ≠ []) :
    ((∃ ids st, (RadixTree.insert RadixTree.mintGpu now P).run (c.tree, c.pool) = .ok ids st) ∧
        ((c.tree.mints P).sum : ℤ) ≤ c.pool.freeSlots .gpu) ∨
      (∃ msg st, (RadixTree.insert RadixTree.mintGpu now P).run (c.tree, c.pool) =
          .error (.memoryError msg) st) ∧
        c.pool.freeSlots .gpu < (c.tree.mints P).sum := by
  have hraise := RadixTree.insert_raises (h.owns hi) RadixTree.mintsFresh_mintGpu now hP
  have hpool : c.pool.Accounted := h.pool ▸ hi.pool_wf.accounted
  rcases RadixTree.run_mintAll_mintGpu (c.tree.mints P) hpool with
    ⟨⟨q, hq⟩, hle⟩ | ⟨⟨msg, q, hq⟩, hlt⟩
  · refine Or.inl ⟨?_, hle⟩
    cases hrun : (RadixTree.insert RadixTree.mintGpu now P).run (c.tree, c.pool) with
    | ok ids st => exact ⟨ids, st, rfl⟩
    | error e st =>
        have := (hraise e st.2).1 ⟨st.1, hrun⟩
        rw [hq] at this
        cases this
  · obtain ⟨t', hrun⟩ := (hraise (.memoryError msg) q).2 hq
    exact Or.inr ⟨⟨msg, (t', q), hrun⟩, hlt⟩

/-! ### The admission -/

/-- The cache `c₁` in which the insertion of the prompt is due: room has been made in the cache `c`,
whose held GPU blocks leave it. -/
structure Cleared (bs gpuBlocks : ℕ) (s : CacheState) (P : List Token) (k : ℕ) (c₁ : NodeCache)
    (s₁ : CacheState) : Prop where
  pos : 0 < k
  incomplete : ¬ s.Complete P k
  represents : c₁.Represents bs s₁
  evicts : CacheState.Evicts s s₁
  used_le : s₁.pool.used .gpu + min (k + 1) gpuBlocks ≤ gpuBlocks
  held_le : s.heldGpu s.pool.pinned + min (k + 1) gpuBlocks ≤ gpuBlocks

/-- The ways an admission of a prompt that fits into the GPU tier ends, and whether for want of
memory: `prep` is how `admitPrepare` ends. -/
inductive Ends (bs gpuBlocks : ℕ) (s : CacheState) (P : List Token) (k : ℕ) :
    EStateM.Result PyErr NodeCache Bool → EStateM.Result PyErr NodeCache Unit → Prop
  | hit (c' : NodeCache) : (0 < k → s.Complete P k) →
      Ends bs gpuBlocks s P k (.ok false c') (.ok () c')
  | clash (msg : String) (c' : NodeCache) : s.Clash P k →
      Ends bs gpuBlocks s P k (.error (.runtimeError msg) c') (.error (.runtimeError msg) c')
  | full (msg : String) (c' : NodeCache) : 0 < k → ¬ s.Complete P k →
      gpuBlocks < s.heldGpu s.pool.pinned + min (k + 1) gpuBlocks →
      Ends bs gpuBlocks s P k (.error (.memoryError msg) c') (.error (.memoryError msg) c')
  | inserted (c₁ : NodeCache) (s₁ : CacheState) (c' : NodeCache) :
      Cleared bs gpuBlocks s P k c₁ s₁ → ((c₁.tree.mints P).sum : ℤ) ≤ c₁.pool.freeSlots .gpu →
      Ends bs gpuBlocks s P k (.ok true c₁) (.ok () c')
  | short (c₁ : NodeCache) (s₁ : CacheState) (msg : String) (c' : NodeCache) :
      Cleared bs gpuBlocks s P k c₁ s₁ → c₁.pool.freeSlots .gpu < (c₁.tree.mints P).sum →
      Ends bs gpuBlocks s P k (.ok true c₁) (.error (.memoryError msg) c')

/-- **The admission of a prompt that fits into the GPU tier.** -/
theorem admit_ends (h : c.Represents bs s) (hi : s.Inv) (hbs : 0 < bs) (hk : k ≤ gpuBlocks)
    (clock : ℕ → Time) (hT : alignedTokens bs T = (P, k)) :
    Ends bs gpuBlocks s P k ((admitPrepare bs gpuBlocks clock T).run c)
      ((admitTokens bs gpuBlocks clock T).run c) := by
  obtain ⟨c₁, s₁, hc₁, hev₁, -, hchecked⟩ := admitPrepare_checked h hi hbs gpuBlocks clock hT
  generalize hprep : (admitPrepare bs gpuBlocks clock T).run c = prep at hchecked
  cases hchecked with
  | hit _ _ hcomp =>
      rw [admitTokens, Py.run_bind_ok hprep]
      exact .hit c₁ hcomp
  | clash msg _ _ hcl =>
      rw [admitTokens, Py.run_bind_error hprep]
      exact .clash msg c₁ hcl
  | room hpos hfull _ =>
      have hheld := hev₁.heldGpu_eq hi
      obtain ⟨c₂, s₂, hc₂, hev₂, ⟨hrun, hroom, hleft⟩ | ⟨msg, hrun, hleft⟩⟩ :=
        makeRoom_iff hc₁ (hev₁.inv hi) hk (fun j => clock (j + 2))
      · rw [hheld] at hleft
        have hclear : Cleared bs gpuBlocks s P k c₂ s₂ :=
          ⟨hpos, hfull, hc₂, hev₁.trans hev₂, hroom, hleft⟩
        rw [Py.run_bind_ok hrun] at hprep ⊢
        have hstart : (admitTokens bs gpuBlocks clock T).run c = (do
            let _ ← onBoth (RadixTree.insert RadixTree.mintGpu (clock 1) P)
            pure () : Py NodeCache Unit).run c₂ := by
          rw [admitTokens, Py.run_bind_ok hprep, hT]
          rfl
        rw [hstart]
        rcases insert_room hc₂ (hclear.evicts.inv hi) (clock 1) (aligned_ne_nil hT hbs hpos) with
          ⟨⟨ids, st, hins⟩, hle⟩ | ⟨⟨msg, st, hins⟩, hlt⟩
        · rw [Py.run_bind_ok (run_onBoth_ok hins)]
          exact .inserted c₂ s₂ _ hclear hle
        · rw [Py.run_bind_error (run_onBoth_error hins)]
          exact .short c₂ s₂ msg _ hclear hlt
      · rw [hheld] at hleft
        rw [Py.run_bind_error hrun] at hprep ⊢
        rw [admitTokens, Py.run_bind_error hprep]
        exact .full msg c₂ hpos hfull hleft

/-- An insertion for which room has been made falls short only if it mints a head and then a block
for each block of the whole GPU tier. -/
theorem Cleared.short_iff {c₁ : NodeCache} {s₁ : CacheState} (hc : Cleared bs gpuBlocks s P k c₁ s₁)
    (hcap : (s.pool.tiers .gpu).capacity = gpuBlocks) (hk : k ≤ gpuBlocks)
    (hP : P.length = k * bs) (hbs : 0 < bs) :
    c₁.pool.freeSlots .gpu < (c₁.tree.mints P).sum ↔ k = gpuBlocks ∧ c₁.tree.mints P = [1, k] := by
  have hne : P ≠ [] := by
    rintro rfl
    have := Nat.mul_pos hc.pos hbs
    rw [List.length_nil] at hP
    omega
  obtain ⟨hblock, full, hv⟩ := hc.represents.tree
  have hn : c₁.tree.nBlocks P = k := by
    rw [RadixTree.nBlocks, if_neg hne, hblock, hP, Nat.add_sub_assoc hbs, Nat.mul_comm,
      Nat.mul_add_div hbs, Nat.div_eq_of_lt (by omega), Nat.add_zero]
  have hfree : c₁.pool.freeSlots .gpu = (gpuBlocks : ℤ) - s₁.pool.used .gpu := by
    have h1 := hc.evicts.capacity_eq .gpu
    rw [hcap] at h1
    simp only [BlockPool.freeSlots, TierState.free, BlockPool.used, hc.represents.pool, h1]
  have hused := hc.used_le
  have hpos := hc.pos
  rw [hfree]
  rcases hv.mints_cases hne with ⟨hlen, hsum⟩ | ⟨n, hle, hmints⟩
  · rw [hn] at hsum
    refine iff_of_false (by omega) ?_
    rintro ⟨-, hmints⟩
    rw [hmints] at hlen
    simp at hlen
  · rw [hn] at hle
    rw [hmints]
    simp only [List.sum_cons, List.sum_nil, List.cons.injEq, true_and, and_true]
    omega

/-- It does not fall short if its mints in the tree before fit into the GPU tier. -/
theorem Cleared.fits {c₁ : NodeCache} {s₁ : CacheState} (hc : Cleared bs gpuBlocks s P k c₁ s₁)
    (hcap : (s.pool.tiers .gpu).capacity = gpuBlocks) (hk : k ≤ gpuBlocks)
    (hP : P.length = k * bs) (hbs : 0 < bs) {t : RadixTree} (ht : t.Repr bs s.trie)
    (hmint : (t.mints P).sum ≤ gpuBlocks) :
    ¬ c₁.pool.freeSlots .gpu < (c₁.tree.mints P).sum := by
  rw [hc.short_iff hcap hk hP hbs]
  rintro ⟨rfl, hmints⟩
  obtain ⟨hblock, full, hv⟩ := ht
  obtain ⟨hblock₁, full₁, hv₁⟩ := hc.represents.tree
  rcases hv.mints_of_dropped hv₁ (hblock₁.trans hblock.symm)
    (fun z hz w hw => hc.evicts.trie_eq_of_prefix hz hw) P with hlen | heq
  · rw [hmints] at hlen
    simp at hlen
  · rw [← heq, hmints] at hmint
    simp at hmint

end NodeCache

end NanoKVRouter
