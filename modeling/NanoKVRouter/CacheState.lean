/-
**The cache of a node, abstractly.**

A trie of blocks beside a pool.  A handful of steps is all that ever happens to the pair: a block of
an unpinned leaf moves to another tier or is freed, a subtree without a pinned block is dropped, a
leaf with fresh blocks is added, an edge is split.  This module states what holds of the pair and
shows that every step keeps it.

Main definitions:

* `CacheState` — the pair; `CacheState.Inv` — its invariant;
* `CacheState.Evict`, `CacheState.Grow` — the steps, and `CacheState.Evicts`, `CacheState.Grows` for
  runs of them;
* `CacheState.Turn` — what one call does.

Main results:

* `CacheState.Evict.inv`, `CacheState.Grow.inv` — **every step keeps the invariant**;
* `CacheState.Evict.pin_eq`, `CacheState.Evict.tierOf_pinned` — evictions leave pins and pinned
  blocks alone;
* `CacheState.Evict.pinned_prefix` — **a pinned prefix of a walk** stays one;
* `CacheState.Turn.tierOf_pinned`, `CacheState.Turn.isSome_of_pinned` — no call touches a pinned
  block or drops a node that has one;
* `CacheState.Inv.pin`, `CacheState.Inv.unpin` — pinning a live prefix of a walk keeps the
  invariant.
-/

import NanoKVRouter.BlockPoolSpec
import NanoKVRouter.PathTrie
import Mathlib.Logic.Relation

set_option relaxedAutoImplicit false
set_option autoImplicit false

namespace NanoKVRouter

/-- The cache of a node: the blocks of each node of its tree, and its pool. -/
structure CacheState where
  trie : PathTrie Token BlockId
  pool : BlockPool

namespace CacheState

/-- What holds of the cache of a node at all times. -/
structure Inv (s : CacheState) : Prop where
  pool_wf : s.pool.WF
  root_none : s.trie [] = none
  distinct : s.trie.Distinct
  owned : ∀ b, s.pool.live b = true → ∃ l, b ∈ s.trie.items l
  lt_minted : ∀ l b, b ∈ s.trie.items l → b < s.pool.minted
  /-- On no walk does a freed block come before a pinned one. -/
  pin_closed : ∀ T, (s.trie.path T).Pairwise fun c b => s.pool.pinned b = true →
    s.pool.live c = true

/-- No node lies below `l`. -/
def IsLeaf (s : CacheState) (l : List Token) : Prop := ∀ w, l <+: w → w ≠ l → s.trie w = none

/-- A leaf none of whose blocks is pinned. -/
structure Candidate (s : CacheState) (l : List Token) : Prop where
  node : (s.trie l).isSome
  leaf : s.IsLeaf l
  unpinned : ∀ b ∈ s.trie.items l, s.pool.pinned b = false

/-- The steps that take blocks away. -/
inductive Evict (s : CacheState) : CacheState → Prop
  | move (l : List Token) (b : BlockId) (t : Tier) (q : BlockPool) :
      s.Candidate l → b ∈ s.trie.items l → s.pool.live b = true → BlockPool.Moved s.pool b t q →
      Evict s ⟨s.trie, q⟩
  | free (l : List Token) (b : BlockId) (q : BlockPool) :
      s.Candidate l → b ∈ s.trie.items l → s.pool.live b = true → BlockPool.Freed s.pool [b] q →
      Evict s ⟨s.trie, q⟩
  | drop (l : List Token) (ids : List BlockId) (q : BlockPool) :
      l ≠ [] → (∀ w, l <+: w → ∀ b ∈ s.trie.items w, s.pool.pinned b = false) →
      (∀ b, b ∈ ids ↔ s.pool.live b = true ∧ ∃ w, l <+: w ∧ b ∈ s.trie.items w) →
      BlockPool.Freed s.pool ids q → Evict s ⟨s.trie.prune l, q⟩

/-- The steps that bring blocks in. -/
inductive Grow (s : CacheState) : CacheState → Prop
  | leaf (l : List Token) (n : ℕ) (q : BlockPool) :
      l ≠ [] → (∀ w, l <+: w → s.trie w = none) → BlockPool.Allocated s.pool n .gpu q →
      Grow s ⟨s.trie.put l (s.pool.freshIds n), q⟩
  | split (y z : List Token) (m d : List BlockId) (n : ℕ) (q : BlockPool) :
      y ≠ [] → y <+: z → y ≠ z → (∀ w, (s.trie w).isSome → y <+: w → z <+: w) →
      s.trie.items z = m ++ d → BlockPool.Allocated s.pool n .gpu q →
      Grow s ⟨s.trie.split y z m (s.pool.freshIds n ++ d), q⟩

/-- A run of evictions. -/
abbrev Evicts : CacheState → CacheState → Prop := Relation.ReflTransGen Evict

/-- A run of growth steps. -/
abbrev Grows : CacheState → CacheState → Prop := Relation.ReflTransGen Grow

/-! ### Walks and leaves -/

/-- The walk through a leaf ends with its blocks. -/
theorem path_of_leaf {s : CacheState} {l T : List Token} (hl : l ≠ []) (hleaf : s.IsLeaf l)
    (hT : l <+: T) : s.trie.path T = s.trie.above l ++ s.trie.items l := by
  rw [PathTrie.path_eq_of_no_node hT fun w hw _ hne => hleaf w hw hne, PathTrie.path_eq_above _ hl]

namespace Inv

variable {s : CacheState} (h : s.Inv)
include h

theorem ne_nil {l : List Token} (hl : (s.trie l).isSome) : l ≠ [] := by
  rintro rfl
  rw [h.root_none] at hl
  simp at hl

/-- A block of the trie is older than the fresh ids. -/
theorem fresh_notMem {n : ℕ} {b : BlockId} (hb : b ∈ s.pool.freshIds n) (l : List Token) :
    b ∉ s.trie.items l := fun hl =>
  absurd (h.lt_minted l b hl) (Nat.not_lt.2 (BlockPool.mem_freshIds.1 hb).1)

theorem fresh_unpinned {n : ℕ} {b : BlockId} (hb : b ∈ s.pool.freshIds n) :
    s.pool.pinned b = false := by
  by_contra hp
  have hlive := h.pool_wf.live_of_pinned (Bool.not_eq_false _ ▸ hp)
  rw [h.pool_wf.fresh_not_live hb] at hlive
  simp at hlive

end Inv

/-! ### The first freed block of a walk -/

/-- `l` is the first node on the walk along `T` that has a freed block. -/
structure FirstDead (s : CacheState) (T l : List Token) : Prop where
  ne_nil : l ≠ []
  isPrefix : l <+: T
  dead : ∃ b ∈ s.trie.items l, s.pool.live b = false
  above_live : ∀ b ∈ s.trie.above l, s.pool.live b = true

/-- A walk that collects a freed block passes a first node with one. -/
theorem exists_firstDead {s : CacheState} {T : List Token}
    (h : ∃ b ∈ s.trie.path T, s.pool.live b = false) : ∃ l, s.FirstDead T l := by
  have hex : ∃ n, ∃ b ∈ s.trie.items (T.take n), T.take n ≠ [] ∧ s.pool.live b = false := by
    obtain ⟨b, hb, hdead⟩ := h
    obtain ⟨l, hne, hl, hbl⟩ := PathTrie.mem_path.1 hb
    rw [List.prefix_iff_eq_take.1 hl] at hne hbl
    exact ⟨l.length, b, hbl, hne, hdead⟩
  classical
  obtain ⟨b, hb, hne, hdead⟩ := Nat.find_spec hex
  refine ⟨T.take (Nat.find hex), hne, List.take_prefix _ _, ⟨b, hb, hdead⟩, fun c hc => ?_⟩
  obtain ⟨x, hx, hpre, hxne, hcx⟩ := PathTrie.mem_above.1 hc
  by_contra hlive
  have hxT := List.prefix_iff_eq_take.1 (hpre.trans (List.take_prefix _ _))
  have hmin : Nat.find hex ≤ x.length := by
    refine Nat.find_min' hex ⟨c, ?_, ?_, by simpa using hlive⟩
    · rwa [← hxT]
    · rwa [← hxT]
  have hlen := hpre.length_le
  rw [List.length_take] at hlen
  refine hxne (hpre.eq_of_length ?_)
  rw [List.length_take]
  omega

/-- A walk meets no freed block before its first node with one. -/
theorem FirstDead.unique {s : CacheState} {T l l' : List Token} (h : s.FirstDead T l)
    (h' : s.FirstDead T l') : l = l' := by
  have hlt : ∀ {x y : List Token}, s.FirstDead T x → s.FirstDead T y → x.length ≤ y.length →
      x = y := by
    intro x y hx hy hle
    have hpre := List.prefix_of_prefix_length_le hx.isPrefix hy.isPrefix hle
    by_contra hne
    obtain ⟨b, hb, hdead⟩ := hx.dead
    have := hy.above_live b (PathTrie.mem_above.2 ⟨x, hx.ne_nil, hpre, hne, hb⟩)
    rw [hdead] at this
    simp at this
  rcases le_total l.length l'.length with hle | hle
  · exact hlt h h' hle
  · exact (hlt h' h hle).symm

/-- Below a node with a freed block nothing is pinned. -/
theorem Inv.unpinned_below {s : CacheState} (hi : s.Inv) {l w : List Token} (hl : l ≠ [])
    (hdead : ∃ b ∈ s.trie.items l, s.pool.live b = false) (hw : l <+: w) (hne : w ≠ l) {b : BlockId}
    (hb : b ∈ s.trie.items w) : s.pool.pinned b = false := by
  obtain ⟨c, hc, hcd⟩ := hdead
  by_contra hp
  obtain ⟨r, rfl⟩ := hw
  have hr : r ≠ [] := by
    rintro rfl
    exact hne (List.append_nil _)
  have hpair := hi.pin_closed (l ++ r)
  rw [PathTrie.path_append, PathTrie.path_eq_above _ hl, List.pairwise_append] at hpair
  have hlive := hpair.2.2 c (List.mem_append_right _ hc) b
    ((PathTrie.mem_below _ _ _ _).2 ⟨r, hr, List.prefix_refl r, hb⟩) (by simpa using hp)
  rw [hcd] at hlive
  simp at hlive

/-! ### Evictions -/

/-- A walk after a subtree is dropped is a walk of the trie before, cut short. -/
theorem path_prune_isPrefix (A : PathTrie Token BlockId) {l : List Token} (hl : l ≠ [])
    (T : List Token) : (A.prune l).path T <+: A.path T := by
  by_cases hT : l <+: T
  · rw [PathTrie.path_prune hl hT, PathTrie.path_split_at A hl hT, List.append_assoc]
    exact List.prefix_append _ _
  · rw [PathTrie.path_prune_of_not_isPrefix A hT]

/-- A walk after a subtree is dropped meets no block of it. -/
theorem notMem_path_prune {A : PathTrie Token BlockId} (hA : A.Distinct) {l w T : List Token}
    {b : BlockId} (hw : l <+: w) (hb : b ∈ A.items w) : b ∉ (A.prune l).path T := by
  intro hmem
  obtain ⟨x, -, -, hx⟩ := PathTrie.mem_path.1 hmem
  rw [PathTrie.items_prune] at hx
  split at hx
  · simp at hx
  · rename_i hnot
    exact hnot (hA.unique _ _ _ hb hx ▸ hw)

namespace Evict

variable {s s' : CacheState}

/-- A leaf without an allocated block can be dropped. -/
theorem dropDead (hi : s.Inv) {l : List Token} (hl : (s.trie l).isSome) (hleaf : s.IsLeaf l)
    (hdead : ∀ b ∈ s.trie.items l, s.pool.live b = false) :
    Evict s ⟨s.trie.prune l, s.pool⟩ := by
  have hbelow : ∀ w, l <+: w → ∀ b ∈ s.trie.items w, s.pool.live b = false := by
    intro w hw b hb
    by_cases hwl : w = l
    · subst hwl
      exact hdead b hb
    · rw [PathTrie.items_of_none (hleaf w hw hwl)] at hb
      simp at hb
  refine .drop l [] s.pool (hi.ne_nil hl) ?_ ?_ (.refl hi.pool_wf)
  · intro w hw b hb
    by_contra hp
    have := hi.pool_wf.live_of_pinned (Bool.not_eq_false _ ▸ hp)
    rw [hbelow w hw b hb] at this
    simp at this
  · intro b
    simp only [List.not_mem_nil, false_iff, not_and, not_exists]
    intro hlive w hw hb
    rw [hbelow w hw b hb] at hlive
    simp at hlive

/-- **Evictions leave all pin counts as they are.** -/
theorem pin_eq (h : Evict s s') (hi : s.Inv) (b : BlockId) :
    s'.pool.pinCountOf b = s.pool.pinCountOf b := by
  have hzero : ∀ c, s.pool.pinned c = false → s.pool.pinCountOf c = 0 := by
    intro c hc
    have h1 := hi.pool_wf.pin_nonneg c
    have h2 : ¬ 0 < s.pool.pinCountOf c := by
      rw [← BlockPool.pinned_iff, hc]
      simp
    omega
  cases h with
  | move l c t q _ _ _ hq => exact hq.pin_eq b
  | free l c q hl hc _ hq =>
      rw [hq.pin_eq]
      split
      · rename_i hb
        rw [List.mem_singleton.1 hb, hzero c (hl.unpinned c hc)]
      · rfl
  | drop l ids q _ hun hids hq =>
      rw [hq.pin_eq]
      split
      · rename_i hb
        obtain ⟨-, w, hw, hbw⟩ := (hids b).1 hb
        rw [hzero b (hun w hw b hbw)]
      · rfl

theorem pinned_eq (h : Evict s s') (hi : s.Inv) (b : BlockId) :
    s'.pool.pinned b = s.pool.pinned b := by
  rw [BlockPool.pinned, BlockPool.pinned, h.pin_eq hi]

/-- **A pinned block stays where it is.** -/
theorem tierOf_pinned (h : Evict s s') {b : BlockId} (hb : s.pool.pinned b = true) :
    s'.pool.tierOf b = s.pool.tierOf b := by
  cases h with
  | move l c t q hl hc _ hq =>
      rw [hq.tierOf_eq, if_neg]
      rintro rfl
      rw [hl.unpinned b hc] at hb
      simp at hb
  | free l c q hl hc _ hq =>
      rw [hq.tierOf_eq, if_neg]
      rw [List.mem_singleton]
      rintro rfl
      rw [hl.unpinned b hc] at hb
      simp at hb
  | drop l ids q _ hun hids hq =>
      rw [hq.tierOf_eq, if_neg]
      intro hmem
      obtain ⟨-, w, hw, hbw⟩ := (hids b).1 hmem
      rw [hun w hw b hbw] at hb
      simp at hb

theorem capacity_eq (h : Evict s s') (t : Tier) :
    (s'.pool.tiers t).capacity = (s.pool.tiers t).capacity := by
  cases h with
  | move _ _ _ _ _ _ _ hq => exact hq.capacity_eq t
  | free _ _ _ _ _ _ hq => exact hq.capacity_eq t
  | drop _ _ _ _ _ _ hq => exact hq.capacity_eq t

theorem live_of_live (h : Evict s s') {b : BlockId} (hb : s'.pool.live b = true) :
    s.pool.live b = true := by
  cases h with
  | move l c t q _ _ hlive hq => rwa [hq.live_eq hlive] at hb
  | free l c q _ _ _ hq => rw [hq.live_eq] at hb; simp_all
  | drop l ids q _ _ _ hq => rw [hq.live_eq] at hb; simp_all

/-- Nodes are dropped whole. -/
theorem trie_eq_or (h : Evict s s') (l : List Token) :
    s'.trie l = s.trie l ∨ s'.trie l = none ∧ ∀ b ∈ s.trie.items l, s.pool.pinned b = false := by
  cases h with
  | move => exact Or.inl rfl
  | free => exact Or.inl rfl
  | drop x ids q _ hun _ _ =>
      by_cases hx : x <+: l
      · exact Or.inr ⟨PathTrie.prune_of_prefix _ hx, hun l hx⟩
      · exact Or.inl (PathTrie.prune_of_not_isPrefix _ hx)

theorem items_subset (h : Evict s s') {l : List Token} {b : BlockId} (hb : b ∈ s'.trie.items l) :
    b ∈ s.trie.items l := by
  rcases h.trie_eq_or l with heq | ⟨heq, -⟩
  · rwa [PathTrie.items, heq] at hb
  · rw [PathTrie.items_of_none heq] at hb
    simp at hb

/-- A block of an unpinned leaf comes before no pinned block. -/
theorem pin_closed_free {l : List Token} {c : BlockId} {q : BlockPool} (hi : s.Inv)
    (hl : s.Candidate l) (hc : c ∈ s.trie.items l) (hq : BlockPool.Freed s.pool [c] q)
    (hpin : ∀ b, q.pinned b = s.pool.pinned b) (T : List Token) :
    (s.trie.path T).Pairwise fun x b => q.pinned b = true → q.live x = true := by
  have hlive : ∀ x b, x ≠ c → (s.pool.pinned b = true → s.pool.live x = true) →
      q.pinned b = true → q.live x = true := by
    intro x b hx hxb hb
    rw [hq.live_eq]
    simp [hx, hxb (hpin b ▸ hb)]
  by_cases hT : l <+: T
  · have hne := hi.ne_nil hl.node
    have h0 := hi.pin_closed T
    rw [path_of_leaf hne hl.leaf hT] at h0 ⊢
    rw [List.pairwise_append] at h0 ⊢
    refine ⟨?_, ?_, ?_⟩
    · refine h0.1.imp_of_mem fun hx _ hxb => hlive _ _ ?_ hxb
      rintro rfl
      exact hi.distinct.notMem_above hc hx
    · refine List.pairwise_of_forall_mem_list fun x _ b hb hp => ?_
      rw [hpin, hl.unpinned b hb] at hp
      simp at hp
    · intro x hx b hb hp
      rw [hpin, hl.unpinned b hb] at hp
      simp at hp
  · refine (hi.pin_closed T).imp_of_mem fun hx _ hxb => hlive _ _ ?_ hxb
    rintro rfl
    exact hT (hi.distinct.prefix_of_mem_path hc hx)

/-- **Evictions keep the invariant.** -/
theorem inv (h : Evict s s') (hi : s.Inv) : s'.Inv := by
  have hpin := h.pinned_eq hi
  cases h with
  | move l c t q hl hc hlive hq =>
      refine ⟨hq.wf, hi.root_none, hi.distinct, ?_, ?_, ?_⟩
      · intro b hb
        exact hi.owned b (hq.live_eq hlive b ▸ hb)
      · intro l b hb
        rw [hq.minted_eq]
        exact hi.lt_minted l b hb
      · intro T
        refine (hi.pin_closed T).imp fun hxb hb => ?_
        rw [hq.live_eq hlive]
        exact hxb (hpin _ ▸ hb)
  | free l c q hl hc hlive hq =>
      refine ⟨hq.wf, hi.root_none, hi.distinct, ?_, ?_, ?_⟩
      · intro b hb
        rw [hq.live_eq] at hb
        exact hi.owned b (by simp_all)
      · intro l b hb
        rw [hq.minted_eq]
        exact hi.lt_minted l b hb
      · have hclosed := pin_closed_free hi hl hc hq hpin
        exact hclosed
  | drop l ids q hne hun hids hq =>
      refine ⟨hq.wf, ?_, hi.distinct.prune l, ?_, ?_, ?_⟩
      · -- the root has no blocks, so that it is not what is dropped
        have hnot : ¬ l <+: [] := fun hl => hne (List.prefix_nil.1 hl)
        exact (PathTrie.prune_of_not_isPrefix _ hnot).trans hi.root_none
      · intro b hb
        rw [hq.live_eq, Bool.and_eq_true, Bool.not_eq_true', decide_eq_false_iff_not] at hb
        obtain ⟨w, hw⟩ := hi.owned b hb.2
        refine ⟨w, ?_⟩
        rw [PathTrie.items_prune, if_neg]
        · exact hw
        · intro hlw
          exact hb.1 ((hids b).2 ⟨hb.2, w, hlw, hw⟩)
      · intro w b hb
        rw [hq.minted_eq]
        rw [PathTrie.items_prune] at hb
        split at hb
        · simp at hb
        · exact hi.lt_minted w b hb
      · intro T
        have h0 := (hi.pin_closed T).sublist (path_prune_isPrefix s.trie hne T).sublist
        refine h0.imp_of_mem fun {x b} hx _ hxb hb => ?_
        rw [hq.live_eq, hxb (hpin b ▸ hb)]
        have hnot : x ∉ ids := by
          intro hmem
          obtain ⟨-, w, hw, hxw⟩ := (hids x).1 hmem
          exact notMem_path_prune hi.distinct hw hxw hx
        simp [hnot]

/-- **A pinned prefix of a walk stays one.** -/
theorem pinned_prefix (h : Evict s s') {R : List BlockId} {T : List Token}
    (hR : R <+: s.trie.path T) (hpin : ∀ b ∈ R, s.pool.pinned b = true) :
    R <+: s'.trie.path T := by
  cases h with
  | move => exact hR
  | free => exact hR
  | drop l ids q hne hun _ _ =>
      by_cases hT : l <+: T
      · -- the walk is cut above `l`, and nothing pinned lies from there on
        rw [PathTrie.path_prune hne hT]
        rw [PathTrie.path_split_at _ hne hT, List.append_assoc] at hR
        refine List.prefix_of_prefix_length_le hR (List.prefix_append _ _) ?_
        by_contra hlt
        rw [not_le] at hlt
        obtain ⟨R', rfl⟩ := List.prefix_of_prefix_length_le (List.prefix_append _ _) hR hlt.le
        rw [List.prefix_append_right_inj] at hR
        cases R' with
        | nil => simp at hlt
        | cons b R' =>
        have hget := hR.subset (List.mem_cons_self (a := b))
        have hp := hpin b (by simp)
        rcases List.mem_append.1 hget with hm | hm
        · rw [hun l (List.prefix_refl l) _ hm] at hp
          simp at hp
        · obtain ⟨z, -, -, hz⟩ := (PathTrie.mem_below _ _ _ _).1 hm
          rw [hun _ (List.prefix_append l z) _ hz] at hp
          simp at hp
      · rwa [PathTrie.path_prune_of_not_isPrefix _ hT]

/-- **Pinned blocks of a walk** stay on it, in their order. -/
theorem pinned_sublist (h : Evict s s') {R : List BlockId} {T : List Token}
    (hR : R.Sublist (s.trie.path T)) (hpin : ∀ b ∈ R, s.pool.pinned b = true) :
    R.Sublist (s'.trie.path T) := by
  cases h with
  | move => exact hR
  | free => exact hR
  | drop l ids q hne hun _ _ =>
      by_cases hT : l <+: T
      · rw [PathTrie.path_prune hne hT]
        rw [PathTrie.path_split_at _ hne hT, List.append_assoc, List.sublist_append_iff] at hR
        obtain ⟨R₁, R₂, rfl, h1, h2⟩ := hR
        have hnil : R₂ = [] := by
          refine List.eq_nil_iff_forall_not_mem.2 fun b hb => ?_
          have hp := hpin b (List.mem_append_right _ hb)
          rcases List.mem_append.1 (h2.subset hb) with hm | hm
          · rw [hun l (List.prefix_refl l) _ hm] at hp
            simp at hp
          · obtain ⟨z, -, -, hz⟩ := (PathTrie.mem_below _ _ _ _).1 hm
            rw [hun _ (List.prefix_append l z) _ hz] at hp
            simp at hp
        rw [hnil, List.append_nil]
        exact h1
      · rwa [PathTrie.path_prune_of_not_isPrefix _ hT]

end Evict

/-! ### Runs of evictions -/

namespace Evicts

variable {s s' : CacheState}

theorem inv (h : Evicts s s') (hi : s.Inv) : s'.Inv := by
  induction h with
  | refl => exact hi
  | tail _ hstep ih => exact hstep.inv ih

theorem pin_eq (h : Evicts s s') (hi : s.Inv) (b : BlockId) :
    s'.pool.pinCountOf b = s.pool.pinCountOf b := by
  induction h with
  | refl => rfl
  | tail hrun hstep ih => exact (hstep.pin_eq (inv hrun hi) b).trans ih

theorem pinned_eq (h : Evicts s s') (hi : s.Inv) (b : BlockId) :
    s'.pool.pinned b = s.pool.pinned b := by
  rw [BlockPool.pinned, BlockPool.pinned, h.pin_eq hi]

theorem tierOf_pinned (h : Evicts s s') (hi : s.Inv) {b : BlockId} (hb : s.pool.pinned b = true) :
    s'.pool.tierOf b = s.pool.tierOf b := by
  induction h with
  | refl => rfl
  | tail hrun hstep ih => exact (hstep.tierOf_pinned (pinned_eq hrun hi b ▸ hb)).trans ih

theorem capacity_eq (h : Evicts s s') (t : Tier) :
    (s'.pool.tiers t).capacity = (s.pool.tiers t).capacity := by
  induction h with
  | refl => rfl
  | tail _ hstep ih => exact (hstep.capacity_eq t).trans ih

theorem live_of_live (h : Evicts s s') {b : BlockId} (hb : s'.pool.live b = true) :
    s.pool.live b = true := by
  induction h with
  | refl => exact hb
  | tail _ hstep ih => exact ih (hstep.live_of_live hb)

theorem items_subset (h : Evicts s s') {l : List Token} {b : BlockId}
    (hb : b ∈ s'.trie.items l) : b ∈ s.trie.items l := by
  induction h with
  | refl => exact hb
  | tail _ hstep ih => exact ih (hstep.items_subset hb)

theorem live_pinned (h : Evicts s s') (hi : s.Inv) {b : BlockId} (hb : s.pool.pinned b = true) :
    s'.pool.live b = true := by
  rw [BlockPool.live, h.tierOf_pinned hi hb]
  exact hi.pool_wf.live_of_pinned hb

/-- **A node with a pinned block is not dropped.** -/
theorem trie_eq_of_pinned (h : Evicts s s') (hi : s.Inv) {l : List Token} {b : BlockId}
    (hb : b ∈ s.trie.items l) (hp : s.pool.pinned b = true) : s'.trie l = s.trie l := by
  induction h with
  | refl => rfl
  | @tail u v hrun hstep ih =>
      rcases hstep.trie_eq_or l with heq | ⟨-, hun⟩
      · exact heq.trans ih
      · have h1 := hun b (by rwa [PathTrie.items, ih])
        rw [pinned_eq hrun hi, hp] at h1
        simp at h1

theorem pinned_prefix (h : Evicts s s') (hi : s.Inv) {R : List BlockId} {T : List Token}
    (hR : R <+: s.trie.path T) (hpin : ∀ b ∈ R, s.pool.pinned b = true) :
    R <+: s'.trie.path T := by
  induction h with
  | refl => exact hR
  | tail hrun hstep ih =>
      exact hstep.pinned_prefix ih fun b hb => pinned_eq hrun hi b ▸ hpin b hb

theorem pinned_sublist (h : Evicts s s') (hi : s.Inv) {R : List BlockId} {T : List Token}
    (hR : R.Sublist (s.trie.path T)) (hpin : ∀ b ∈ R, s.pool.pinned b = true) :
    R.Sublist (s'.trie.path T) := by
  induction h with
  | refl => exact hR
  | tail hrun hstep ih =>
      exact hstep.pinned_sublist ih fun b hb => pinned_eq hrun hi b ▸ hpin b hb

end Evicts

/-! ### Growth -/

namespace Grow

variable {s s' : CacheState}

/-- The pool after a growth is the pool before, with fresh blocks on the GPU tier. -/
theorem exists_allocated (h : Grow s s') :
    ∃ n, BlockPool.Allocated s.pool n .gpu s'.pool := by
  cases h with
  | leaf l n q _ _ hq => exact ⟨n, hq⟩
  | split y z m d n q _ _ _ _ _ hq => exact ⟨n, hq⟩

theorem pin_eq (h : Grow s s') (b : BlockId) :
    s'.pool.pinCountOf b = s.pool.pinCountOf b := by
  obtain ⟨n, hq⟩ := h.exists_allocated
  exact hq.pin_eq b

theorem pinned_eq (h : Grow s s') (b : BlockId) : s'.pool.pinned b = s.pool.pinned b := by
  rw [BlockPool.pinned, BlockPool.pinned, h.pin_eq]

theorem capacity_eq (h : Grow s s') (t : Tier) :
    (s'.pool.tiers t).capacity = (s.pool.tiers t).capacity := by
  obtain ⟨n, hq⟩ := h.exists_allocated
  exact hq.capacity_eq t

/-- An allocated block stays where it is. -/
theorem tierOf_live (h : Grow s s') (hi : s.Inv) {b : BlockId} (hb : s.pool.live b = true) :
    s'.pool.tierOf b = s.pool.tierOf b := by
  obtain ⟨n, hq⟩ := h.exists_allocated
  rw [hq.tierOf_eq, if_neg]
  intro hmem
  rw [hi.pool_wf.fresh_not_live hmem] at hb
  simp at hb

theorem live_of_live (h : Grow s s') (hi : s.Inv) {b : BlockId} (hb : s.pool.live b = true) :
    s'.pool.live b = true := by
  rw [BlockPool.live, h.tierOf_live hi hb]
  exact hb

/-- An old block is allocated after a growth only if it was before. -/
theorem live_of_items (h : Grow s s') (hi : s.Inv) {l : List Token} {b : BlockId}
    (hb : b ∈ s.trie.items l) : s'.pool.live b = s.pool.live b := by
  obtain ⟨n, hq⟩ := h.exists_allocated
  have hnot : b ∉ s.pool.freshIds n := fun hmem => hi.fresh_notMem hmem l hb
  rw [hq.live_eq]
  simp [hnot]

/-- A block of the tree after a growth was there before, or is fresh and allocated. -/
theorem mem_items (h : Grow s s') {l : List Token} {b : BlockId} (hb : b ∈ s'.trie.items l) :
    s'.pool.live b = true ∨ ∃ w, b ∈ s.trie.items w := by
  cases h with
  | leaf x n q _ _ hq =>
      rw [PathTrie.items_put] at hb
      split at hb
      · left
        rw [hq.live_eq]
        simp [hb]
      · exact Or.inr ⟨l, hb⟩
  | split y z m d n q _ _ _ _ hz hq =>
      rw [PathTrie.items_split] at hb
      split at hb
      · exact Or.inr ⟨z, hz ▸ List.mem_append_left _ hb⟩
      · split at hb
        · rcases List.mem_append.1 hb with hb | hb
          · left
            rw [hq.live_eq]
            simp [hb]
          · exact Or.inr ⟨z, hz ▸ List.mem_append_right _ hb⟩
        · exact Or.inr ⟨l, hb⟩

theorem isSome_trie (h : Grow s s') {l : List Token} (hl : (s.trie l).isSome) :
    (s'.trie l).isSome := by
  cases h with
  | leaf x n q _ _ _ => exact PathTrie.isSome_put s.trie _ hl
  | split y z m d n q _ _ _ _ _ _ => exact PathTrie.isSome_split s.trie _ _ hl

/-- A walk after a growth collects what it did before, in that order, and fresh blocks. -/
theorem path_sublist (h : Grow s s') (T : List Token) :
    (s.trie.path T).Sublist (s'.trie.path T) := by
  cases h with
  | leaf l n q hne hleaf _ =>
      by_cases hT : l <+: T
      · rw [PathTrie.path_put _ hne hT hleaf]
        exact List.sublist_append_left _ _
      · rw [PathTrie.path_put_of_not_isPrefix _ _ hT]
  | split y z m d n q hy hyz hne hedge hz hq =>
      by_cases hyT : y <+: T
      · by_cases hzT : z <+: T
        · obtain ⟨h1, h2⟩ := PathTrie.path_split_through (m := m)
            (d := s.pool.freshIds n ++ d) hy hyz hne hedge hzT
          rw [h1, h2, hz]
          simp
        · rw [PathTrie.path_split_end hy hyz hedge hyT hzT]
          exact List.sublist_append_left _ _
      · rw [PathTrie.path_split_of_not_isPrefix hyz hyT]

/-- Entries related to all others can be put anywhere. -/
theorem pairwise_insert {α : Type} {R : α → α → Prop} {a c h : List α} (hac : (a ++ c).Pairwise R)
    (hleft : ∀ x ∈ h, ∀ b, R x b) (hright : ∀ x, ∀ b ∈ h, R x b) : (a ++ (h ++ c)).Pairwise R := by
  rw [List.pairwise_append] at hac ⊢
  refine ⟨hac.1, List.pairwise_append.2 ⟨?_, hac.2.1, fun x hx b _ => hleft x hx b⟩, ?_⟩
  · exact List.pairwise_of_forall_mem_list fun x hx b _ => hleft x hx b
  · intro x hx b hb
    rcases List.mem_append.1 hb with hb | hb
    · exact hright x b hb
    · exact hac.2.2 x hx b hb

theorem root_none (h : Grow s s') (hi : s.Inv) : s'.trie [] = none := by
  cases h with
  | leaf l n q hne hleaf hq => exact (PathTrie.put_of_ne _ _ (Ne.symm hne)).trans hi.root_none
  | split y z m d n q hy hyz hne hedge hz hq =>
      have hnz : ([] : List Token) ≠ z := by
        rintro rfl
        exact hy (List.prefix_nil.1 hyz)
      exact (PathTrie.split_of_ne _ _ _ (Ne.symm hy) hnz).trans hi.root_none

theorem distinct (h : Grow s s') (hi : s.Inv) : s'.trie.Distinct := by
  cases h with
  | leaf l n q hne hleaf hq =>
      exact hi.distinct.put (s.pool.nodup_freshIds n) fun b hb w => hi.fresh_notMem hb w
  | split y z m d n q hy hyz hne hedge hz hq =>
      exact hi.distinct.split hz (s.pool.nodup_freshIds n) fun b hb w => hi.fresh_notMem hb w

/-- The fresh blocks belong to the new node or to the lower half of the edge, and the others to the
nodes they belonged to, but for the upper half of the edge. -/
theorem owned (h : Grow s s') (hi : s.Inv) {b : BlockId} (hb : s'.pool.live b = true) :
    ∃ l, b ∈ s'.trie.items l := by
  cases h with
  | leaf l n q hne hleaf hq =>
      rw [hq.live_eq, Bool.or_eq_true, decide_eq_true_eq] at hb
      rcases hb with hb | hb
      · exact ⟨l, by rwa [PathTrie.items_put_self]⟩
      · obtain ⟨w, hw⟩ := hi.owned b hb
        refine ⟨w, ?_⟩
        rw [PathTrie.items_put_of_ne]
        · exact hw
        · rintro rfl
          rw [PathTrie.items_of_none (hleaf w (List.prefix_refl w))] at hw
          cases hw
  | split y z m d n q hy hyz hne hedge hz hq =>
      rw [hq.live_eq, Bool.or_eq_true, decide_eq_true_eq] at hb
      rcases hb with hb | hb
      · refine ⟨z, ?_⟩
        rw [PathTrie.items_split, if_neg (Ne.symm hne), if_pos rfl]
        exact List.mem_append_left _ hb
      · obtain ⟨w, hw⟩ := hi.owned b hb
        by_cases hwz : w = z
        · rw [hwz, hz] at hw
          rcases List.mem_append.1 hw with hm | hd
          · exact ⟨y, by rwa [PathTrie.items_split, if_pos rfl]⟩
          · refine ⟨z, ?_⟩
            rw [PathTrie.items_split, if_neg (Ne.symm hne), if_pos rfl]
            exact List.mem_append_right _ hd
        · refine ⟨w, ?_⟩
          rw [PathTrie.items_split, if_neg, if_neg hwz]
          · exact hw
          · rintro rfl
            obtain ⟨bs, hbs, -⟩ := PathTrie.exists_of_mem_items hw
            have hzw := hedge w (by rw [hbs]; rfl) (List.prefix_refl w)
            exact hne (hyz.eq_of_length_le hzw.length_le)

theorem lt_minted (h : Grow s s') (hi : s.Inv) {l : List Token} {b : BlockId}
    (hb : b ∈ s'.trie.items l) : b < s'.pool.minted := by
  cases h with
  | leaf x n q hne hleaf hq =>
      rw [hq.minted_eq]
      rw [PathTrie.items_put] at hb
      split at hb
      · exact (BlockPool.mem_freshIds.1 hb).2
      · exact Nat.lt_add_right n (hi.lt_minted l b hb)
  | split y z m d n q hy hyz hne hedge hz hq =>
      have hold : b ∈ m ∨ b ∈ d → b < q.minted := by
        intro hmd
        rw [hq.minted_eq]
        exact Nat.lt_add_right n (hi.lt_minted z b (hz ▸ List.mem_append.2 hmd))
      rw [PathTrie.items_split] at hb
      split at hb
      · exact hold (Or.inl hb)
      · split at hb
        · rcases List.mem_append.1 hb with hb | hb
          · rw [hq.minted_eq]
            exact (BlockPool.mem_freshIds.1 hb).2
          · exact hold (Or.inr hb)
        · rw [hq.minted_eq]
          exact Nat.lt_add_right n (hi.lt_minted l b hb)

/-- A fresh block is allocated and not pinned. -/
theorem fresh_spec {n : ℕ} {q : BlockPool} (hi : s.Inv)
    (hq : BlockPool.Allocated s.pool n .gpu q) {b : BlockId} (hb : b ∈ s.pool.freshIds n) :
    q.live b = true ∧ q.pinned b = false := by
  constructor
  · rw [hq.live_eq]
    simp [hb]
  · rw [BlockPool.pinned, hq.pin_eq]
    exact hi.fresh_unpinned hb

/-- The walks of the trie before are in order for the pool after. -/
theorem pin_closed_before (h : Grow s s') (hi : s.Inv) (T : List Token) :
    (s.trie.path T).Pairwise fun x b => s'.pool.pinned b = true → s'.pool.live x = true :=
  (hi.pin_closed T).imp fun {_ b} hxb hb =>
    h.live_of_live hi (hxb (h.pinned_eq b ▸ hb))

/-- A walk collects the fresh blocks last, or before others where they are allocated. -/
theorem pin_closed (h : Grow s s') (hi : s.Inv) (T : List Token) :
    (s'.trie.path T).Pairwise fun x b => s'.pool.pinned b = true → s'.pool.live x = true := by
  have hbefore := h.pin_closed_before hi
  cases h with
  | leaf l n q hne hleaf hq =>
      by_cases hT : l <+: T
      · rw [PathTrie.path_put _ hne hT hleaf, List.pairwise_append]
        have hfresh : ∀ x, ∀ b ∈ s.pool.freshIds n, q.pinned b = true → q.live x = true := by
          intro x b hb hp
          rw [(fresh_spec hi hq hb).2] at hp
          cases hp
        exact ⟨hbefore T, List.pairwise_of_forall_mem_list fun x _ b hb => hfresh x b hb,
          fun x _ b hb => hfresh x b hb⟩
      · rw [PathTrie.path_put_of_not_isPrefix _ _ hT]
        exact hbefore T
  | split y z m d n q hy hyz hne hedge hz hq =>
      by_cases hyT : y <+: T
      · by_cases hzT : z <+: T
        · -- the fresh block is allocated, so it may come before pinned ones
          obtain ⟨h1, h2⟩ := PathTrie.path_split_through (m := m)
            (d := s.pool.freshIds n ++ d) hy hyz hne hedge hzT
          have h3 := hbefore T
          have hsplit : s.trie.path y ++ m ++ (s.pool.freshIds n ++ d) ++
              s.trie.below z (T.drop z.length) = (s.trie.path y ++ m) ++
                (s.pool.freshIds n ++ (d ++ s.trie.below z (T.drop z.length))) := by
            simp
          rw [h1, hz, List.append_assoc, List.append_assoc, ← List.append_assoc] at h3
          rw [h2, hsplit]
          refine pairwise_insert h3 (fun x hx b _ => (fresh_spec hi hq hx).1) fun x b hb hp => ?_
          rw [(fresh_spec hi hq hb).2] at hp
          cases hp
        · -- the walk ends with the upper half of the edge
          have h1 := hbefore z
          obtain ⟨h2, -⟩ := PathTrie.path_split_through (m := m)
            (d := s.pool.freshIds n ++ d) hy hyz hne hedge (List.prefix_refl z)
          have h3 : s.trie.path T = s.trie.path y := by
            refine PathTrie.path_eq_of_no_node hyT fun w hw hwT _ => ?_
            by_contra hs
            exact hzT ((hedge w (Option.isSome_iff_ne_none.2 hs) hw).trans hwT)
          rw [PathTrie.path_split_end hy hyz hedge hyT hzT, h3]
          rw [h2, hz] at h1
          refine h1.sublist ?_
          simp only [List.append_assoc]
          exact (List.append_sublist_append_left _).2 (List.sublist_append_left _ _)
      · rw [PathTrie.path_split_of_not_isPrefix hyz hyT]
        exact hbefore T

/-- **Growth keeps the invariant.** -/
theorem inv (h : Grow s s') (hi : s.Inv) : s'.Inv where
  pool_wf := by
    obtain ⟨n, hq⟩ := h.exists_allocated
    exact hq.wf
  root_none := h.root_none hi
  distinct := h.distinct hi
  owned := fun _ => h.owned hi
  lt_minted := fun _ _ => h.lt_minted hi
  pin_closed := h.pin_closed hi

end Grow

namespace Grows

variable {s s' : CacheState}

theorem inv (h : Grows s s') (hi : s.Inv) : s'.Inv := by
  induction h with
  | refl => exact hi
  | tail _ hstep ih => exact hstep.inv ih

theorem pin_eq (h : Grows s s') (b : BlockId) : s'.pool.pinCountOf b = s.pool.pinCountOf b := by
  induction h with
  | refl => rfl
  | tail _ hstep ih => exact (hstep.pin_eq b).trans ih

theorem capacity_eq (h : Grows s s') (t : Tier) :
    (s'.pool.tiers t).capacity = (s.pool.tiers t).capacity := by
  induction h with
  | refl => rfl
  | tail _ hstep ih => exact (hstep.capacity_eq t).trans ih

theorem live_of_live (h : Grows s s') (hi : s.Inv) {b : BlockId} (hb : s.pool.live b = true) :
    s'.pool.live b = true := by
  induction h with
  | refl => exact hb
  | tail hrun hstep ih => exact hstep.live_of_live (inv hrun hi) ih

theorem tierOf_live (h : Grows s s') (hi : s.Inv) {b : BlockId} (hb : s.pool.live b = true) :
    s'.pool.tierOf b = s.pool.tierOf b := by
  induction h with
  | refl => rfl
  | tail hrun hstep ih =>
      exact (hstep.tierOf_live (inv hrun hi) (live_of_live hrun hi hb)).trans ih

theorem isSome_trie (h : Grows s s') {l : List Token} (hl : (s.trie l).isSome) :
    (s'.trie l).isSome := by
  induction h with
  | refl => exact hl
  | tail _ hstep ih => exact hstep.isSome_trie ih

theorem path_sublist (h : Grows s s') (T : List Token) :
    (s.trie.path T).Sublist (s'.trie.path T) := by
  induction h with
  | refl => exact List.Sublist.refl _
  | tail _ hstep ih => exact ih.trans (hstep.path_sublist T)

/-- An old block is allocated after a growth only if it was before. -/
theorem live_of_mem_path (h : Grows s s') (hi : s.Inv) {T : List Token} {b : BlockId}
    (hb : b ∈ s.trie.path T) : s'.pool.live b = s.pool.live b := by
  induction h with
  | refl => rfl
  | tail hrun hstep ih =>
      obtain ⟨l, -, -, hl⟩ := PathTrie.mem_path.1 ((path_sublist hrun T).subset hb)
      exact (hstep.live_of_items (inv hrun hi) hl).trans ih

end Grows

/-! ### Turns -/

/-- What one call does to the cache: a run of evictions, then a run of growth steps. -/
structure Turn (s m s' : CacheState) : Prop where
  evicts : Evicts s m
  grows : Grows m s'

namespace Turn

variable {s m s' : CacheState}

theorem inv (h : Turn s m s') (hi : s.Inv) : s'.Inv := h.grows.inv (h.evicts.inv hi)

/-- **A turn leaves all pin counts as they are.** -/
theorem pin_eq (h : Turn s m s') (hi : s.Inv) (b : BlockId) :
    s'.pool.pinCountOf b = s.pool.pinCountOf b :=
  (h.grows.pin_eq b).trans (h.evicts.pin_eq hi b)

/-- **A pinned block stays where it is.** -/
theorem tierOf_pinned (h : Turn s m s') (hi : s.Inv) {b : BlockId} (hb : s.pool.pinned b = true) :
    s'.pool.tierOf b = s.pool.tierOf b :=
  (h.grows.tierOf_live (h.evicts.inv hi) (h.evicts.live_pinned hi hb)).trans
    (h.evicts.tierOf_pinned hi hb)

theorem capacity_eq (h : Turn s m s') (t : Tier) :
    (s'.pool.tiers t).capacity = (s.pool.tiers t).capacity :=
  (h.grows.capacity_eq t).trans (h.evicts.capacity_eq t)

/-- **Pinned blocks of a walk** stay on it, in their order. -/
theorem pinned_sublist (h : Turn s m s') (hi : s.Inv) {R : List BlockId} {T : List Token}
    (hR : R.Sublist (s.trie.path T)) (hpin : ∀ b ∈ R, s.pool.pinned b = true) :
    R.Sublist (s'.trie.path T) :=
  (h.evicts.pinned_sublist hi hR hpin).trans (h.grows.path_sublist T)

/-- **A node with a pinned block stays.** -/
theorem isSome_of_pinned (h : Turn s m s') (hi : s.Inv) {l : List Token} {b : BlockId}
    (hb : b ∈ s.trie.items l) (hp : s.pool.pinned b = true) : (s'.trie l).isSome := by
  refine h.grows.isSome_trie ?_
  obtain ⟨bs, hl, -⟩ := PathTrie.exists_of_mem_items hb
  rw [h.evicts.trie_eq_of_pinned hi hb hp, hl]
  rfl

end Turn

/-! ### Pinning -/

namespace Inv

variable {s : CacheState} (h : s.Inv)
include h

/-- **Pinning blocks of a live prefix of a walk** keeps the invariant. -/
theorem pin {T : List Token} {P ids : List BlockId} {q : BlockPool} (hP : P <+: s.trie.path T)
    (hlive : ∀ b ∈ P, s.pool.live b = true) (hids : ∀ b ∈ ids, b ∈ P)
    (hq : BlockPool.Pinned s.pool ids q) : (⟨s.trie, q⟩ : CacheState).Inv := by
  have hlive_eq : ∀ b, q.live b = s.pool.live b := by
    intro b
    rw [BlockPool.live, hq.tierOf_eq, BlockPool.live]
  refine ⟨hq.wf, h.root_none, h.distinct, ?_, ?_, ?_⟩
  · intro b hb
    exact h.owned b (hlive_eq b ▸ hb)
  · intro l b hb
    rw [hq.minted_eq]
    exact h.lt_minted l b hb
  · intro T'
    refine ((h.pin_closed T').and (h.distinct.pairwise_before T')).imp fun {x b} hxb hb => ?_
    rw [hlive_eq]
    by_cases hbi : b ∈ ids
    · exact hlive x (hxb.2 T P hP (hids b hbi))
    · refine hxb.1 ?_
      rw [BlockPool.pinned_iff, hq.pin_eq, List.count_eq_zero_of_not_mem hbi] at hb
      rw [BlockPool.pinned_iff]
      simpa using hb

/-- Unpinning keeps the invariant. -/
theorem unpin {ids : List BlockId} {q : BlockPool} (hq : BlockPool.Unpinned s.pool ids q) :
    (⟨s.trie, q⟩ : CacheState).Inv := by
  have hlive_eq : ∀ b, q.live b = s.pool.live b := by
    intro b
    rw [BlockPool.live, hq.tierOf_eq, BlockPool.live]
  refine ⟨hq.wf, h.root_none, h.distinct, ?_, ?_, ?_⟩
  · intro b hb
    exact h.owned b (hlive_eq b ▸ hb)
  · intro l b hb
    rw [hq.minted_eq]
    exact h.lt_minted l b hb
  · intro T
    refine (h.pin_closed T).imp fun {x b} hxb hb => ?_
    rw [hlive_eq]
    refine hxb ?_
    rw [BlockPool.pinned_iff, hq.pin_eq] at hb
    rw [BlockPool.pinned_iff]
    omega

end Inv

end CacheState

end NanoKVRouter
