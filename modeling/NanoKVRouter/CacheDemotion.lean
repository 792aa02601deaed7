/-
**The demotion cascade.**

One turn of the loop that makes room on the GPU tier selects an unpinned leaf and sends each of its
blocks one step down the hierarchy, or frees it.  Every turn is a run of evictions of the abstract
cache, raises nothing but `MemoryError`, and lowers the rank of the pool, in which a block counts
for more the faster its tier; so the loop ends.

Main definitions:

* `BlockPool.rank` — the rank of a pool;
* `NodeCache.Represents` — the tree and the pool of a node represent an abstract cache;
* `DemotionCall.Frees`, `DemotionCall.Exhausted` — a recorded call freed its block; it found the
  block on disk, or the disk tier full;
* `BlockPool.Lowered` — what it does to the other blocks, and when it frees one;
* `NodeCache.Demotes` — what the cascade does to a cache and to its history.

Main results:

* `NodeCache.demoteBlock_spec` — **one block**: it moves down, or is freed because it was on disk
  or the disk tier is full;
* `NodeCache.demoteOnce_spec` — one turn;
* `NodeCache.demotionLoop_spec` — **the loop ends** with room on the GPU tier, or in `MemoryError`.
-/

import NanoKVRouter.CacheManager
import NanoKVRouter.RadixTreePurge

set_option relaxedAutoImplicit false
set_option autoImplicit false

namespace NanoKVRouter

/-! ### The rank of a pool -/

/-- How many steps of the cascade a block of the tier has before it. -/
def Tier.weight : Tier → ℕ
  | .gpu => 3
  | .cpu => 2
  | .disk => 1

namespace BlockPool

/-- The steps of the cascade the blocks of a pool have before them. -/
def rank (p : BlockPool) : ℕ := 3 * p.used .gpu + 2 * p.used .cpu + p.used .disk

variable {p q : BlockPool} {b : BlockId} {t : Tier}

theorem Freed.allocated_eq {ids : List BlockId} (hp : p.WF) (h : Freed p ids q) (s : Tier) :
    (q.tiers s).allocated = (p.tiers s).allocated.filter (· ∉ ids) := by
  ext c
  rw [h.wf.mem_allocated, Finset.mem_filter, hp.mem_allocated, h.tierOf_eq]
  by_cases hc : c ∈ ids <;> simp [hc]

/-- Freeing allocated blocks leaves no tier fuller. -/
theorem Freed.used_le {ids : List BlockId} (hp : p.WF) (h : Freed p ids q) (s : Tier) :
    q.used s ≤ p.used s := by
  rw [used, TierState.used, h.allocated_eq hp]
  exact Finset.card_filter_le _ _

theorem Freed.used_lt (hp : p.WF) (h : Freed p [b] q) (hb : p.tierOf b = some t) :
    q.used t < p.used t := by
  rw [used, TierState.used, h.allocated_eq hp]
  refine Finset.card_lt_card (Finset.filter_ssubset.2 ⟨b, (hp.mem_allocated t b).2 hb, by simp⟩)

/-- Freeing a block lowers the rank. -/
theorem Freed.rank_lt (hp : p.WF) (h : Freed p [b] q) (hb : p.tierOf b = some t) :
    q.rank < p.rank := by
  have h1 := h.used_lt hp hb
  have h2 := h.used_le hp .gpu
  have h3 := h.used_le hp .cpu
  have h4 := h.used_le hp .disk
  cases t <;> simp only [rank] <;> omega

theorem Moved.used_eq {src : Tier} (hp : p.WF) (h : Moved p b t q) (hb : p.tierOf b = some src)
    (hne : src ≠ t) (s : Tier) :
    q.used s + (if s = src then 1 else 0) = p.used s + (if s = t then 1 else 0) := by
  have hmem : b ∈ (p.tiers src).allocated := (hp.mem_allocated src b).2 hb
  by_cases hst : s = t
  · subst hst
    have heq : (q.tiers s).allocated = insert b (p.tiers s).allocated := by
      ext c
      rw [h.wf.mem_allocated, Finset.mem_insert, hp.mem_allocated, h.tierOf_eq]
      by_cases hc : c = b <;> simp [hc]
    have hnot : b ∉ (p.tiers s).allocated := by
      rw [hp.mem_allocated, hb, Option.some_inj]
      exact hne
    rw [used, TierState.used, heq, Finset.card_insert_of_notMem hnot]
    simp [Ne.symm hne, used, TierState.used]
  · by_cases hss : s = src
    · subst hss
      have heq : (q.tiers s).allocated = (p.tiers s).allocated.erase b := by
        ext c
        rw [h.wf.mem_allocated, Finset.mem_erase, hp.mem_allocated, h.tierOf_eq]
        by_cases hc : c = b
        · simp [hc, Ne.symm hst]
        · simp [hc]
      rw [used, TierState.used, heq, if_pos rfl, if_neg hst, Finset.card_erase_add_one hmem]
      rfl
    · have heq : (q.tiers s).allocated = (p.tiers s).allocated := by
        ext c
        rw [h.wf.mem_allocated, hp.mem_allocated, h.tierOf_eq]
        by_cases hc : c = b
        · subst hc
          simp [hb, Ne.symm hst, Ne.symm hss]
        · simp [hc]
      simp [used, TierState.used, heq, hst, hss]

/-- Moving a block down the hierarchy lowers the rank. -/
theorem Moved.rank_lt {src : Tier} (hp : p.WF) (h : Moved p b t q) (hb : p.tierOf b = some src)
    (hlt : t.weight < src.weight) : q.rank < p.rank := by
  have hne : src ≠ t := by
    rintro rfl
    exact lt_irrefl _ hlt
  have h1 := h.used_eq hp hb hne .gpu
  have h2 := h.used_eq hp hb hne .cpu
  have h3 := h.used_eq hp hb hne .disk
  cases src <;> cases t <;> simp [Tier.weight, rank] at hlt h1 h2 h3 ⊢ <;> omega

/-- The allocated blocks of a pool. -/
def total (p : BlockPool) : ℕ := p.used .gpu + p.used .cpu + p.used .disk

/-- From `p` to `q` the block `b` has left the GPU tier, if it was there, and no other block has
moved; it is freed only if no lower tier had a free slot. -/
structure Lowered (p : BlockPool) (b : BlockId) (q : BlockPool) : Prop where
  tierOf_eq : ∀ x, x ≠ b → q.tierOf x = p.tierOf x
  not_gpu : q.tierOf b ≠ some .gpu
  total_le : q.total ≤ p.total
  full_cpu : q.live b = false → p.tierOf b = some .gpu → p.freeSlots .cpu ≤ 0
  full_disk : q.live b = false → p.tierOf b ≠ some .disk → p.freeSlots .disk ≤ 0

theorem Moved.lowered {src : Tier} (hp : p.WF) (h : Moved p b t q) (hb : p.tierOf b = some src)
    (hlt : t.weight < src.weight) : Lowered p b q := by
  have htier : q.tierOf b = some t := by rw [h.tierOf_eq, if_pos rfl]
  have hlive : q.live b = true := live_iff.2 ⟨t, htier⟩
  have hne : src ≠ t := by
    rintro rfl
    exact lt_irrefl _ hlt
  refine ⟨fun x hx => by rw [h.tierOf_eq, if_neg hx], ?_, ?_, ?_, ?_⟩
  · rw [htier, Ne, Option.some_inj]
    rintro rfl
    cases src <;> simp [Tier.weight] at hlt
  · have h1 := h.used_eq hp hb hne .gpu
    have h2 := h.used_eq hp hb hne .cpu
    have h3 := h.used_eq hp hb hne .disk
    cases src <;> cases t <;> simp [Tier.weight, total] at hlt h1 h2 h3 ⊢ <;> omega
  · intro hdead
    rw [hlive] at hdead
    cases hdead
  · intro hdead
    rw [hlive] at hdead
    cases hdead

theorem Freed.lowered (hp : p.WF) (h : Freed p [b] q)
    (hcpu : p.tierOf b = some .gpu → p.freeSlots .cpu ≤ 0)
    (hdisk : p.tierOf b ≠ some .disk → p.freeSlots .disk ≤ 0) : Lowered p b q := by
  refine ⟨fun x hx => ?_, ?_, ?_, fun _ => hcpu, fun _ => hdisk⟩
  · rw [h.tierOf_eq, if_neg (by simpa using hx)]
  · rw [h.tierOf_eq, if_pos (by simp)]
    simp
  · have h1 := h.used_le hp .gpu
    have h2 := h.used_le hp .cpu
    have h3 := h.used_le hp .disk
    rw [total, total]
    omega

end BlockPool

namespace NodeCache

/-! ### Calls on the parts of a cache -/

section Runs

variable {α : Type} {c : NodeCache}

theorem run_onTree_ok {m : Py RadixTree α} {a : α} {t : RadixTree} (h : m.run c.tree = .ok a t) :
    (onTree m).run c = .ok a { c with tree := t } := Py.run_onPart_ok h

theorem run_onPool_ok {m : Py BlockPool α} {a : α} {p : BlockPool} (h : m.run c.pool = .ok a p) :
    (onPool m).run c = .ok a { c with pool := p } := Py.run_onPart_ok h

theorem run_onPool_error {m : Py BlockPool α} {e : PyErr} {p : BlockPool}
    (h : m.run c.pool = .error e p) : (onPool m).run c = .error e { c with pool := p } :=
  Py.run_onPart_error h

theorem run_onBoth_ok {m : Py (RadixTree × BlockPool) α} {a : α} {s : RadixTree × BlockPool}
    (h : m.run (c.tree, c.pool) = .ok a s) :
    (onBoth m).run c = .ok a { c with tree := s.1, pool := s.2 } := Py.run_onPart_ok h

theorem run_onBoth_error {m : Py (RadixTree × BlockPool) α} {e : PyErr}
    {s : RadixTree × BlockPool} (h : m.run (c.tree, c.pool) = .error e s) :
    (onBoth m).run c = .error e { c with tree := s.1, pool := s.2 } := Py.run_onPart_error h

end Runs

/-- The tree and the pool of the node represent the abstract cache `s`, with blocks of `bs`
tokens. -/
structure Represents (c : NodeCache) (bs : ℕ) (s : CacheState) : Prop where
  tree : c.tree.Repr bs s.trie
  pool : c.pool = s.pool

variable {bs : ℕ} {c : NodeCache} {s : CacheState}

/-- A cache represents one abstract cache only. -/
theorem Represents.unique {s' : CacheState} (h : c.Represents bs s) (h' : c.Represents bs s') :
    s' = s := by
  obtain ⟨⟨-, full, hv⟩, hp⟩ := h
  obtain ⟨⟨-, full', hv'⟩, hp'⟩ := h'
  obtain ⟨A, p⟩ := s
  obtain ⟨A', p'⟩ := s'
  obtain rfl : A' = A := hv'.unique hv
  obtain rfl : p' = p := hp'.symm.trans hp
  rfl

/-- `match_prefix_path` computes the walk of the trie and changes nothing that counts. -/
theorem run_matchPrefixPath (h : c.Represents bs s) (now : Time) (T : List Token) :
    ∃ c', (matchPrefixPath now T).run c = .ok (s.trie.matched T, s.trie.path T) c' ∧
      c'.Represents bs s ∧ c'.demotions = c.demotions := by
  obtain ⟨⟨hbs, full, hv⟩, hp⟩ := h
  obtain ⟨t', hs, heq⟩ := hv.matchPrefixPath_eq now T
  refine ⟨{ c with tree := t' }, ?_, ⟨⟨hs.blockSize_eq.trans hbs, full, hv.sameShape hs⟩, hp⟩, rfl⟩
  change EStateM.Result.ok _ _ = _
  rw [heq]

/-! ### One block -/

/-- What the cascade does to an allocated block `b` of the leaf `l`. -/
structure Demoted (bs : ℕ) (c : NodeCache) (s : CacheState) (l : List Token) (b : BlockId)
    (c' : NodeCache) (s' : CacheState) : Prop where
  represents : c'.Represents bs s'
  evicts : CacheState.Evicts s s'
  rank_lt : s'.pool.rank < s.pool.rank
  trie_or : s'.trie = s.trie ∨ ∀ x ∈ s.trie.items l, s'.pool.live x = false
  lowered : s.pool.Lowered b s'.pool
  kept : s'.pool.live b = true → s'.trie = s.trie ∧ ∀ x, s'.pool.live x = s.pool.live x
  demotions_eq : c'.demotions = c.demotions

/-- A freed block is left alone. -/
theorem run_demoteBlock_dead {b : BlockId} (hb : c.pool.live b = false) :
    (demoteBlock b).run c = .ok () c := by
  simp [demoteBlock, BlockPool.live_eq_false_iff.1 hb]

section Cascade

variable {l : List Token} {b : BlockId}

/-- The block moves down. -/
theorem run_move_demoted (h : c.Represents bs s) (hi : s.Inv) (hl : s.Candidate l)
    (hb : b ∈ s.trie.items l) {src : Tier} (dst : Tier) (hsrc : s.pool.tierOf b = some src)
    (hlt : dst.weight < src.weight) (hfree : 0 < s.pool.freeSlots dst) :
    ∃ c' s', (onPool (BlockPool.move b src.name dst.name)).run c = .ok () c' ∧
      Demoted bs c s l b c' s' := by
  have hlive : s.pool.live b = true := BlockPool.live_iff.2 ⟨src, hsrc⟩
  obtain ⟨q, hrun, hq⟩ := BlockPool.move_ok hi.pool_wf hsrc (hl.unpinned b hb) hfree
  rw [← h.pool] at hrun
  exact ⟨{ c with pool := q }, ⟨s.trie, q⟩, run_onPool_ok hrun, ⟨h.tree, rfl⟩,
    .single (.move l b dst q hl hb hlive hq), hq.rank_lt hi.pool_wf hsrc hlt, Or.inl rfl,
    hq.lowered hi.pool_wf hsrc hlt, fun _ => ⟨rfl, fun x => hq.live_eq hlive x⟩, rfl⟩

/-- The block is freed, and with it its node when it was the last allocated one. -/
theorem run_freeBlock_demoted (h : c.Represents bs s) (hi : s.Inv) (hl : s.Candidate l)
    (hb : b ∈ s.trie.items l) {src : Tier} (hsrc : s.pool.tierOf b = some src)
    (hcpu : src = .gpu → s.pool.freeSlots .cpu ≤ 0)
    (hdisk : src ≠ .disk → s.pool.freeSlots .disk ≤ 0) :
    ∃ c' s', (freeBlock b).run c = .ok () c' ∧ Demoted bs c s l b c' s' := by
  have hlive : s.pool.live b = true := BlockPool.live_iff.2 ⟨src, hsrc⟩
  obtain ⟨q, hrun, hq⟩ := BlockPool.free_ok hi.pool_wf (List.nodup_singleton b) (by
    intro x hx
    rw [List.mem_singleton.1 hx]
    exact ⟨hlive, hl.unpinned b hb⟩)
  rw [← h.pool] at hrun
  have hstep : CacheState.Evict s ⟨s.trie, q⟩ := .free l b q hl hb hlive hq
  obtain ⟨n, t', s', hrun', hrepr, hpool, hev, hor⟩ :=
    RadixTree.purgeBlockIds_spec (s := ⟨s.trie, q⟩) h.tree (hstep.inv hi) hb
  have hrun'' : (onTree (RadixTree.purgeBlockIds [b] q.tierOf)).run { c with pool := q } =
      .ok n { c with tree := t', pool := q } := run_onTree_ok hrun'
  have hdead : s'.pool.live b = false := by
    rw [hpool, hq.live_eq]
    simp
  refine ⟨{ c with tree := t', pool := q }, s', ?_, ⟨hrepr, hpool.symm⟩, .head hstep hev, ?_, ?_, ?_,
    ?_, rfl⟩
  · rw [freeBlock, Py.run_bind_ok (run_onPool_ok hrun)]
    simp only [EStateM.run_bind, EStateM.run_get, hrun'', EStateM.run_pure]
  · rw [hpool]
    exact hq.rank_lt hi.pool_wf hsrc
  · rcases hor with ⟨rfl, -⟩ | ⟨-, hall⟩
    · exact Or.inl rfl
    · right
      intro x hx
      rw [hpool]
      exact hall x hx
  · rw [hpool]
    refine hq.lowered hi.pool_wf (fun hgpu => hcpu ?_) fun hne => hdisk ?_
    · rwa [hsrc, Option.some_inj] at hgpu
    · rintro rfl
      exact hne hsrc
  · intro hl'
    rw [hdead] at hl'
    simp at hl'

/-- **The cascade of one block** of an unpinned leaf. -/
theorem demoteBlock_spec (h : c.Represents bs s) (hi : s.Inv) (hl : s.Candidate l)
    (hb : b ∈ s.trie.items l) (hlive : s.pool.live b = true) :
    ∃ c' s', (demoteBlock b).run c = .ok () c' ∧ Demoted bs c s l b c' s' := by
  obtain ⟨src, hsrc⟩ := BlockPool.live_iff.1 hlive
  have hpin : ¬ s.pool.pinCountOf b > 0 := by
    rw [gt_iff_lt, ← BlockPool.pinned_iff, hl.unpinned b hb]
    simp
  cases src with
  | gpu =>
      by_cases hcpu : 0 < s.pool.freeSlots .cpu
      · obtain ⟨c', s', hrun, hd⟩ := run_move_demoted h hi hl hb .cpu hsrc (by decide) hcpu
        refine ⟨c', s', ?_, hd⟩
        rw [← hrun]
        simp [demoteBlock, h.pool, hsrc, hpin, hcpu]
        rfl
      · by_cases hdisk : 0 < s.pool.freeSlots .disk
        · obtain ⟨c', s', hrun, hd⟩ :=
            run_move_demoted h hi hl hb .disk hsrc (by decide) hdisk
          refine ⟨c', s', ?_, hd⟩
          rw [← hrun]
          simp [demoteBlock, h.pool, hsrc, hpin, hcpu, hdisk]
          rfl
        · obtain ⟨c', s', hrun, hd⟩ :=
            run_freeBlock_demoted h hi hl hb hsrc (fun _ => not_lt.1 hcpu) fun _ => not_lt.1 hdisk
          refine ⟨c', s', ?_, hd⟩
          rw [← hrun]
          simp [demoteBlock, h.pool, hsrc, hpin, hcpu, hdisk]
  | cpu =>
      by_cases hdisk : 0 < s.pool.freeSlots .disk
      · obtain ⟨c', s', hrun, hd⟩ :=
          run_move_demoted h hi hl hb .disk hsrc (by decide) hdisk
        refine ⟨c', s', ?_, hd⟩
        rw [← hrun]
        simp [demoteBlock, h.pool, hsrc, hpin, hdisk]
        rfl
      · obtain ⟨c', s', hrun, hd⟩ :=
          run_freeBlock_demoted h hi hl hb hsrc (fun h => by cases h) fun _ => not_lt.1 hdisk
        refine ⟨c', s', ?_, hd⟩
        rw [← hrun]
        simp [demoteBlock, h.pool, hsrc, hpin, hdisk]
  | disk =>
      obtain ⟨c', s', hrun, hd⟩ := run_freeBlock_demoted h hi hl hb hsrc (fun h => by cases h)
        fun h => absurd rfl h
      refine ⟨c', s', ?_, hd⟩
      rw [← hrun]
      simp [demoteBlock, h.pool, hsrc, hpin]

end Cascade

/-! ### The history -/

end NodeCache

namespace DemotionCall

/-- The call took the block out of the pool. -/
def Frees (d : DemotionCall) : Prop :=
  d.before.live d.block = true ∧ d.after.live d.block = false

/-- The call found its block on disk or the disk tier full. -/
def Exhausted (d : DemotionCall) : Prop :=
  d.before.tierOf d.block = some .disk ∨ d.before.freeSlots .disk ≤ 0

end DemotionCall

/-- Nothing is lost from `s` to `s'`: the same blocks are allocated, and only nodes without an
allocated block are gone. -/
structure CacheState.Kept (s s' : CacheState) : Prop where
  live_eq : ∀ b, s'.pool.live b = s.pool.live b
  trie_or : ∀ l, (s.trie l).isSome → s'.trie l = s.trie l ∨
    ∀ b ∈ s.trie.items l, s.pool.live b = false

theorem CacheState.Kept.refl (s : CacheState) : s.Kept s := ⟨fun _ => rfl, fun _ _ => Or.inl rfl⟩

theorem CacheState.Kept.trans {s s' s'' : CacheState} (h : s.Kept s') (h' : s'.Kept s'') :
    s.Kept s'' where
  live_eq := fun b => (h'.live_eq b).trans (h.live_eq b)
  trie_or := by
    intro l hl
    rcases h.trie_or l hl with heq | hdead
    · rcases h'.trie_or l (heq ▸ hl) with heq' | hdead
      · exact Or.inl (heq'.trans heq)
      · right
        intro b hb
        rw [← h.live_eq]
        refine hdead b ?_
        rwa [PathTrie.items, heq]
    · exact Or.inr hdead

namespace NodeCache

/-- From `c` to `c'` the cache ran evictions and added to the history.  Blocks were freed only by
exhausted calls, and if no call freed its block nothing was lost. -/
structure Demotes (bs : ℕ) (c : NodeCache) (s : CacheState) (c' : NodeCache) (s' : CacheState) :
    Prop where
  represents : c'.Represents bs s'
  evicts : CacheState.Evicts s s'
  calls : ∃ calls, c'.demotions = c.demotions ++ calls ∧ (∀ d ∈ calls, d.Frees → d.Exhausted) ∧
    ((∀ d ∈ calls, ¬ d.Frees) → s.Kept s')

namespace Demotes

variable {bs : ℕ} {c c' c'' : NodeCache} {s s' s'' : CacheState}

theorem refl (h : c.Represents bs s) : Demotes bs c s c s :=
  ⟨h, .refl, [], by simp, by simp, fun _ => .refl s⟩

theorem trans (h : Demotes bs c s c' s') (h' : Demotes bs c' s' c'' s'') :
    Demotes bs c s c'' s'' := by
  obtain ⟨l, hl, hex, hkept⟩ := h.calls
  obtain ⟨l', hl', hex', hkept'⟩ := h'.calls
  refine ⟨h'.represents, h.evicts.trans h'.evicts, l ++ l', ?_, ?_, ?_⟩
  · rw [hl', hl, List.append_assoc]
  · intro d hd
    rcases List.mem_append.1 hd with hd | hd
    · exact hex d hd
    · exact hex' d hd
  · intro hnone
    exact (hkept fun d hd => hnone d (List.mem_append_left _ hd)).trans
      (hkept' fun d hd => hnone d (List.mem_append_right _ hd))

end Demotes

/-- The recorded call on a freed block. -/
theorem run_demoteRecorded_dead {bs : ℕ} {c : NodeCache} {s : CacheState} {b : BlockId}
    (h : c.Represents bs s) (hb : s.pool.live b = false) :
    ∃ c', (demoteRecorded b).run c = .ok () c' ∧ Demotes bs c s c' s := by
  refine ⟨{ c with demotions := c.demotions ++ [⟨b, c.pool, c.pool⟩] }, ?_, ⟨h.tree, h.pool⟩, .refl,
    [⟨b, c.pool, c.pool⟩], rfl, ?_, fun _ => .refl s⟩
  · have hrun := run_demoteBlock_dead (h.pool ▸ hb)
    simp only [demoteRecorded, EStateM.run_bind, EStateM.run_get, hrun]
    rfl
  · intro d hd hfree
    rw [List.mem_singleton.1 hd] at hfree
    have hlive := hfree.1
    rw [hfree.2] at hlive
    simp at hlive

/-- The recorded call on an allocated block of an unpinned leaf. -/
theorem demoteRecorded_spec {bs : ℕ} {c : NodeCache} {s : CacheState} {l : List Token}
    {b : BlockId} (h : c.Represents bs s) (hi : s.Inv) (hl : s.Candidate l)
    (hb : b ∈ s.trie.items l) (hlive : s.pool.live b = true) :
    ∃ c' s', (demoteRecorded b).run c = .ok () c' ∧ Demotes bs c s c' s' ∧
      s'.pool.rank < s.pool.rank ∧ s.pool.Lowered b s'.pool ∧
      (s'.trie = s.trie ∨ ∀ x ∈ s.trie.items l, s'.pool.live x = false) := by
  obtain ⟨c', s', hrun, hd⟩ := demoteBlock_spec h hi hl hb hlive
  refine ⟨{ c' with demotions := c'.demotions ++ [⟨b, c.pool, c'.pool⟩] }, s', ?_,
    ⟨⟨hd.represents.tree, hd.represents.pool⟩, hd.evicts, [⟨b, c.pool, c'.pool⟩], ?_, ?_, ?_⟩,
    hd.rank_lt, hd.lowered, hd.trie_or⟩
  · simp only [demoteRecorded, EStateM.run_bind, EStateM.run_get, hrun]
    rfl
  · rw [hd.demotions_eq]
  · intro d hmem hfree
    rw [List.mem_singleton.1 hmem] at hfree ⊢
    have hdead := hfree.2
    rw [hd.represents.pool] at hdead
    rw [DemotionCall.Exhausted, h.pool]
    exact or_iff_not_imp_left.2 fun hne => hd.lowered.full_disk hdead hne
  · intro hnone
    have hnot := hnone _ (List.mem_singleton_self _)
    have hlive' : s'.pool.live b = true := by
      by_contra hdead
      refine hnot ⟨?_, ?_⟩
      · rwa [h.pool]
      · rw [hd.represents.pool]
        simpa using hdead
    obtain ⟨htrie, hsame⟩ := hd.kept hlive'
    exact ⟨hsame, fun l _ => Or.inl (by rw [htrie])⟩

/-! ### One turn -/

/-- The cascade of the blocks `bids` of the leaf `l`, one after the other. -/
inductive Cascade (l : List Token) : List BlockId → CacheState → CacheState → Prop
  | nil (s : CacheState) : Cascade l [] s s
  | dead {b : BlockId} {bids : List BlockId} {s s' : CacheState} : s.pool.live b = false →
      Cascade l bids s s' → Cascade l (b :: bids) s s'
  | lower {b : BlockId} {bids : List BlockId} {s s₁ s' : CacheState} : s.Candidate l →
      b ∈ s.trie.items l → CacheState.Evicts s s₁ → s.pool.Lowered b s₁.pool →
      Cascade l bids s₁ s' → Cascade l (b :: bids) s s'

/-- The calls on the blocks `bids` of one leaf, of which none is left as soon as the node is
gone. -/
theorem forM_demoteRecorded {bs : ℕ} {l : List Token} : ∀ (bids : List BlockId) {c : NodeCache}
    {s : CacheState}, c.Represents bs s → s.Inv →
    (s.Candidate l ∧ (∀ b ∈ bids, b ∈ s.trie.items l) ∨ ∀ b ∈ bids, s.pool.live b = false) →
    ∃ c' s', (bids.forM demoteRecorded).run c = .ok () c' ∧ Demotes bs c s c' s' ∧
      Cascade l bids s s' ∧ s'.pool.rank ≤ s.pool.rank ∧
      ((∃ b ∈ bids, s.pool.live b = true) → s'.pool.rank < s.pool.rank) := by
  intro bids
  induction bids with
  | nil =>
      intro c s h _ _
      exact ⟨c, s, rfl, .refl h, .nil s, le_rfl, by simp⟩
  | cons b bids ih =>
      intro c s h hi hor
      by_cases hb : s.pool.live b = true
      · obtain ⟨hl, hmem⟩ : s.Candidate l ∧ ∀ x ∈ b :: bids, x ∈ s.trie.items l := by
          rcases hor with hor | hdead
          · exact hor
          · rw [hdead b (List.mem_cons_self ..)] at hb
            simp at hb
        obtain ⟨c₁, s₁, hrun, hd, hrank, hlow, htrie⟩ :=
          demoteRecorded_spec h hi hl (hmem b (List.mem_cons_self ..)) hb
        have hor₁ : s₁.Candidate l ∧ (∀ x ∈ bids, x ∈ s₁.trie.items l) ∨
            ∀ x ∈ bids, s₁.pool.live x = false := by
          rcases htrie with heq | hdead
          · left
            refine ⟨⟨?_, ?_, ?_⟩, ?_⟩
            · rw [heq]
              exact hl.node
            · intro w hw hne
              rw [heq]
              exact hl.leaf w hw hne
            · intro x hx
              rw [hd.evicts.pinned_eq hi]
              exact hl.unpinned x (heq ▸ hx)
            · intro x hx
              rw [heq]
              exact hmem x (List.mem_cons_of_mem _ hx)
          · right
            intro x hx
            exact hdead x (hmem x (List.mem_cons_of_mem _ hx))
        obtain ⟨c₂, s₂, hrun₂, hd₂, hcas, hrank₂, -⟩ := ih hd.represents (hd.evicts.inv hi) hor₁
        refine ⟨c₂, s₂, ?_, hd.trans hd₂,
          .lower hl (hmem b (List.mem_cons_self ..)) hd.evicts hlow hcas, by omega,
          fun _ => by omega⟩
        rw [Py.run_forM_cons, Py.run_bind_ok hrun, hrun₂]
      · rw [Bool.not_eq_true] at hb
        obtain ⟨c₁, hrun, hd⟩ := run_demoteRecorded_dead h hb
        have hor₁ : s.Candidate l ∧ (∀ x ∈ bids, x ∈ s.trie.items l) ∨
            ∀ x ∈ bids, s.pool.live x = false := by
          rcases hor with ⟨hl, hmem⟩ | hdead
          · exact Or.inl ⟨hl, fun x hx => hmem x (List.mem_cons_of_mem _ hx)⟩
          · exact Or.inr fun x hx => hdead x (List.mem_cons_of_mem _ hx)
        obtain ⟨c₂, s₂, hrun₂, hd₂, hcas, hrank₂, hlt⟩ := ih hd.represents hi hor₁
        refine ⟨c₂, s₂, ?_, hd.trans hd₂, .dead hb hcas, hrank₂, ?_⟩
        · rw [Py.run_forM_cons, Py.run_bind_ok hrun, hrun₂]
        · rintro ⟨x, hx, hlive⟩
          rcases List.mem_cons.1 hx with rfl | hx
          · rw [hb] at hlive
            simp at hlive
          · exact hlt ⟨x, hx, hlive⟩

/-- **One turn of the demotion loop** lowers the rank of the pool, or raises `MemoryError` when there
is no candidate. -/
theorem demoteOnce_spec {bs : ℕ} {c : NodeCache} {s : CacheState} (h : c.Represents bs s)
    (hi : s.Inv) (now : Time) (need capacity : ℕ) :
    ∃ c' s', Demotes bs c s c' s' ∧
      (((demoteOnce now need capacity).run c = .ok () c' ∧ s'.pool.rank < s.pool.rank) ∨
        ∃ msg, (demoteOnce now need capacity).run c = .error (.memoryError msg) c' ∧
          s'.pool = s.pool ∧ ∀ l, ¬ s'.Candidate l) := by
  obtain ⟨ids, t', s₁, hrun, hrepr, hpool, hev, hor, hids⟩ :=
    RadixTree.demoteLru_spec h.tree hi (fun _ => now)
  have hd₁ : Demotes bs c s { c with tree := t' } s₁ := by
    refine ⟨⟨hrepr, h.pool.trans hpool.symm⟩, hev, [], by simp, by simp, fun _ => ⟨fun b => ?_, hor⟩⟩
    rw [hpool]
  rw [← h.pool] at hrun
  have hrun₁ := run_onTree_ok hrun
  rcases hids with ⟨rfl, hnone⟩ | ⟨l, hl, rfl, hlive⟩
  · exact ⟨_, s₁, hd₁, Or.inr ⟨_, by
      simp only [demoteOnce, EStateM.run_bind, EStateM.run_get, hrun₁]
      rfl, hpool, hnone⟩⟩
  · obtain ⟨c', s', hrun', hd', -, -, hlt⟩ := forM_demoteRecorded (s₁.trie.items l) hd₁.represents
      (hev.inv hi) (Or.inl ⟨hl, fun b hb => hb⟩)
    refine ⟨c', s', hd₁.trans hd', Or.inl ⟨?_, ?_⟩⟩
    · simp only [demoteOnce, EStateM.run_bind, EStateM.run_get, hrun₁]
      simp
      exact hrun'
    · have := hlt hlive
      rwa [hpool] at this

/-! ### The loop -/

/-- **The demotion loop ends** with room for `need` blocks on the GPU tier, or raises
`MemoryError` without it when there is no candidate. -/
theorem demotionLoop_spec {bs : ℕ} (clock : ℕ → Time) (need capacity : ℕ) : ∀ (fuel : ℕ)
    {c : NodeCache} {s : CacheState}, c.Represents bs s → s.Inv → s.pool.rank < fuel →
    ∃ c' s', Demotes bs c s c' s' ∧
      (((demotionLoop clock need capacity fuel).run c = .ok () c' ∧
          s'.pool.used .gpu + need ≤ capacity) ∨
        ∃ msg, (demotionLoop clock need capacity fuel).run c = .error (.memoryError msg) c' ∧
          capacity < s'.pool.used .gpu + need ∧ ∀ l, ¬ s'.Candidate l) := by
  intro fuel
  induction fuel with
  | zero => intro c s _ _ hlt; omega
  | succ fuel ih =>
      intro c s h hi hlt
      by_cases hfull : s.pool.used .gpu + need > capacity
      · have hstep : (demotionLoop clock need capacity (fuel + 1)).run c =
            (do demoteOnce (clock fuel) need capacity
                demotionLoop clock need capacity fuel : Py NodeCache Unit).run c := by
          simp [demotionLoop, h.pool, hfull]
        rw [hstep]
        obtain ⟨c₁, s₁, hd, ⟨hrun, hrank⟩ | ⟨msg, hrun, hpool, hnone⟩⟩ :=
          demoteOnce_spec h hi (clock fuel) need capacity
        · obtain ⟨c₂, s₂, hd₂, hrun₂⟩ := ih hd.represents (hd.evicts.inv hi) (by omega)
          rw [Py.run_bind_ok hrun]
          exact ⟨c₂, s₂, hd.trans hd₂, hrun₂⟩
        · rw [Py.run_bind_error hrun]
          exact ⟨c₁, s₁, hd, Or.inr ⟨msg, rfl, hpool ▸ hfull, hnone⟩⟩
      · refine ⟨c, s, .refl h, Or.inl ⟨?_, not_lt.1 hfull⟩⟩
        simp [demotionLoop, h.pool, hfull]

/-- `makeRoom` makes room or raises `MemoryError`, for a prompt that does not fit into the GPU tier or
when there is no candidate. -/
theorem makeRoom_spec {bs : ℕ} {c : NodeCache} {s : CacheState} (h : c.Represents bs s)
    (hi : s.Inv) (gpuBlocks : ℕ) (clock : ℕ → Time) (totalBlocks : ℕ) :
    ∃ c' s', Demotes bs c s c' s' ∧
      ((makeRoom gpuBlocks clock totalBlocks).run c = .ok () c' ∧
          s'.pool.used .gpu + min (totalBlocks + 1) gpuBlocks ≤ gpuBlocks ∨
        ∃ msg, (makeRoom gpuBlocks clock totalBlocks).run c = .error (.memoryError msg) c' ∧
          (gpuBlocks < totalBlocks ∨
            gpuBlocks < s'.pool.used .gpu + min (totalBlocks + 1) gpuBlocks ∧
              ∀ l, ¬ s'.Candidate l)) := by
  by_cases hbig : totalBlocks > gpuBlocks
  · exact ⟨c, s, .refl h, Or.inr ⟨_, by rw [makeRoom, if_pos hbig]; rfl, Or.inl hbig⟩⟩
  · have hfuel : s.pool.rank < demotionFuel c := by
      simp only [demotionFuel, h.pool, BlockPool.rank]
      omega
    obtain ⟨c', s', hd, hrun⟩ := demotionLoop_spec clock (min (totalBlocks + 1) gpuBlocks)
      gpuBlocks _ h hi hfuel
    have heq : (makeRoom gpuBlocks clock totalBlocks).run c =
        (demotionLoop clock (min (totalBlocks + 1) gpuBlocks) gpuBlocks (demotionFuel c)).run c := by
      simp [makeRoom, hbig]
    rw [heq]
    refine ⟨c', s', hd, ?_⟩
    rcases hrun with ⟨hrun, hroom⟩ | ⟨msg, hrun, hfull⟩
    · exact Or.inl ⟨hrun, hroom⟩
    · exact Or.inr ⟨msg, hrun, Or.inr hfull⟩

end NodeCache

end NanoKVRouter
