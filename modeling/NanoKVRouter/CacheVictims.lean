/-
**Which leaves the demotion loop takes, and what becomes of their blocks.**

The loop takes the least recently used free leaf, turn after turn, until there is room.  Suppose
that some free leaves cover the need: without their GPU blocks there is room.  Then, as long as
there is none, one of them has not had its turn, and what the loop takes is no younger than that
one.  So a node that is younger than all of them is never taken; and a node that is taken once, and
is younger than all of them from then on, is not taken again.  Where the lower tiers have slots for
all that can come down, one turn frees no block of it.

Main definitions:

* `CacheState.Takes` — the tiers below have slots for all that can come down from a tier;
* `NodeCache.Turn` — what one turn of the loop does, seen from the nodes and blocks;
* `NodeCache.Covered` — some free leaves cover the need of the loop;
* `NodeCache.Lasts` — a node has lost no block, and will not be taken any more, or once at most.

Main results:

* `NodeCache.demoteOnce_turn` — **one turn** of the demotion loop;
* `NodeCache.Lasts.turn` — **a node lasts through a turn** of a loop whose need is covered;
* `NodeCache.lasts_makeRoom` — and through the whole loop.
-/

import NanoKVRouter.CacheRoom
import NanoKVRouter.RadixTreePruned

set_option relaxedAutoImplicit false
set_option autoImplicit false

namespace NanoKVRouter

/-! ### Room on the lower tiers -/

namespace CacheState

variable {s s' : CacheState}

/-- The tiers below the tier have slots for all blocks that can come down to them: at most those that
are allocated, but for the held ones on the GPU tier. -/
def Takes (s : CacheState) : Tier → Prop
  | .gpu => s.pool.total ≤ s.heldGpu s.pool.pinned +
      ((s.pool.tiers .cpu).capacity + (s.pool.tiers .disk).capacity)
  | .cpu => s.pool.total ≤ s.heldGpu s.pool.pinned + (s.pool.tiers .disk).capacity
  | .disk => False

/-- Evictions take up no more slots than there are blocks. -/
theorem Takes.evicts {t : Tier} (h : s.Takes t) (hi : s.Inv) (hev : Evicts s s')
    (hle : s'.pool.total ≤ s.pool.total) : s'.Takes t := by
  cases t with
  | gpu =>
      simp only [Takes, hev.heldGpu_eq hi, hev.capacity_eq] at h ⊢
      exact hle.trans h
  | cpu =>
      simp only [Takes, hev.heldGpu_eq hi, hev.capacity_eq] at h ⊢
      exact hle.trans h
  | disk => exact h

/-- A GPU block that is not held is one more than the held ones. -/
theorem heldGpu_lt (hi : s.Inv) {b : BlockId} (hb : s.pool.tierOf b = some .gpu)
    (hheld : ¬ s.HeldBlock s.pool.pinned b) : s.heldGpu s.pool.pinned < s.pool.used .gpu := by
  classical
  exact Finset.card_lt_card
    (Finset.filter_ssubset.2 ⟨b, (hi.pool_wf.mem_allocated .gpu b).2 hb, hheld⟩)

/-- **A block that comes down** from a tier below which there are slots is not freed. -/
theorem live_of_lowered (hi : s.Inv) {l : List Token} {b : BlockId} {t : Tier}
    (hl : s.Candidate l) (hb : b ∈ s.trie.items l) (hlow : s.pool.Lowered b s'.pool)
    (ht : s.pool.tierOf b = some t) (htakes : s.Takes t) : s'.pool.live b = true := by
  by_contra hlive
  have hdead : s'.pool.live b = false := by simpa using hlive
  have hheld : ¬ s.HeldBlock s.pool.pinned b := by
    rintro ⟨w, hw, hheld⟩
    exact Evict.not_held_of_candidate hl (hi.distinct.unique _ _ _ hw hb ▸ hheld)
  have hcap : ∀ {u : Tier}, s.pool.freeSlots u ≤ 0 → (s.pool.tiers u).capacity ≤ s.pool.used u := by
    intro u hu
    simp only [BlockPool.freeSlots, TierState.free, BlockPool.used] at hu ⊢
    omega
  cases t with
  | gpu =>
      have hcpu := hcap (hlow.full_cpu hdead ht)
      have hdisk := hcap (hlow.full_disk hdead (by rw [ht]; simp))
      have hlt := heldGpu_lt hi ht hheld
      simp only [Takes, BlockPool.total] at htakes
      omega
  | cpu =>
      have hdisk := hcap (hlow.full_disk hdead (by rw [ht]; simp))
      have hle := s.heldGpu_le s.pool.pinned
      have hpos : 0 < s.pool.used .cpu :=
        Finset.card_pos.2 ⟨b, (hi.pool_wf.mem_allocated .cpu b).2 ht⟩
      simp only [Takes, BlockPool.total] at htakes
      omega
  | disk => exact htakes

end CacheState

namespace NodeCache

/-! ### The cascade of a leaf -/

namespace Cascade

variable {l : List Token} {bids : List BlockId} {s s' : CacheState}

theorem total_le (h : Cascade l bids s s') : s'.pool.total ≤ s.pool.total := by
  induction h with
  | nil => exact le_rfl
  | dead _ _ ih => exact ih
  | lower _ _ _ hlow _ ih => exact ih.trans hlow.total_le

/-- No block of another node moves. -/
theorem tierOf_eq (h : Cascade l bids s s') {x : BlockId} (hx : x ∉ bids) :
    s'.pool.tierOf x = s.pool.tierOf x := by
  induction h with
  | nil => rfl
  | dead _ _ ih => exact ih fun hmem => hx (List.mem_cons_of_mem _ hmem)
  | lower _ _ _ hlow _ ih =>
      rw [ih fun hmem => hx (List.mem_cons_of_mem _ hmem),
        hlow.tierOf_eq x fun heq => hx (heq ▸ List.mem_cons_self)]

/-- No block of the leaf is left on the GPU tier. -/
theorem not_gpu (h : Cascade l bids s s') {x : BlockId} (hx : x ∈ bids) :
    s'.pool.tierOf x ≠ some .gpu := by
  induction h with
  | nil => cases hx
  | @dead b bids s s' hdead hrest ih =>
      by_cases hmem : x ∈ bids
      · exact ih hmem
      · obtain rfl := (List.mem_cons.1 hx).resolve_right hmem
        rw [hrest.tierOf_eq hmem, BlockPool.live_eq_false_iff.1 hdead]
        simp
  | @lower b bids s s₁ s' _ _ _ hlow hrest ih =>
      by_cases hmem : x ∈ bids
      · exact ih hmem
      · obtain rfl := (List.mem_cons.1 hx).resolve_right hmem
        rw [hrest.tierOf_eq hmem]
        exact hlow.not_gpu

/-- A block of the leaf is not freed where the tiers below take it. -/
theorem live_of_takes (h : Cascade l bids s s') (hi : s.Inv) (hnd : bids.Nodup) {x : BlockId}
    {t : Tier} (hx : x ∈ bids) (ht : s.pool.tierOf x = some t) (htakes : s.Takes t) :
    s'.pool.live x = true := by
  induction h with
  | nil => cases hx
  | @dead b bids s s' hdead hrest ih =>
      obtain ⟨-, hnd⟩ := List.nodup_cons.1 hnd
      refine ih hi hnd ((List.mem_cons.1 hx).resolve_left ?_) ht htakes
      rintro rfl
      rw [BlockPool.live_eq_false_iff.1 hdead] at ht
      cases ht
  | @lower b bids s s₁ s' hl hb hev hlow hrest ih =>
      obtain ⟨hbids, hnd⟩ := List.nodup_cons.1 hnd
      rcases List.mem_cons.1 hx with rfl | hmem
      · rw [BlockPool.live, hrest.tierOf_eq hbids]
        exact CacheState.live_of_lowered hi hl hb hlow ht htakes
      · refine ih (hev.inv hi) hnd hmem ?_ (htakes.evicts hi hev hlow.total_le)
        rwa [hlow.tierOf_eq x fun heq => hbids (heq ▸ hmem)]

end Cascade

/-! ### One turn -/

section Trimmed

variable (t : RadixTree)

theorem trimmed_onPool {α : Type} (m : Py BlockPool α) :
    Py.Keeps (fun c : NodeCache => t.Trimmed c.tree) (onPool m) :=
  Py.Keeps.onPart (Q := fun _ => True) (fun _ _ => trivial) (fun _ _ => trivial) fun _ _ hs _ => hs

theorem trimmed_freeBlock (b : BlockId) :
    Py.Keeps (fun c : NodeCache => t.Trimmed c.tree) (freeBlock b) := by
  refine .bind (trimmed_onPool t _) fun _ => .bind .get fun c => .bind ?_ fun _ => .pure ()
  exact Py.Keeps.onPart (Q := t.Trimmed) (t.trimmed_purgeBlockIds _ _) (fun _ hs => hs)
    fun _ _ _ ht => ht

/-- Demoting blocks prunes the tree and leaves the access times alone. -/
theorem trimmed_demoteRecorded (b : BlockId) :
    Py.Keeps (fun c : NodeCache => t.Trimmed c.tree) (demoteRecorded b) := by
  refine .bind .get fun c => .bind ?_ fun _ => .modify fun _ hs => hs
  refine .bind .get fun c => ?_
  dsimp only
  split
  · exact .pure ()
  · split
    · exact .raise _
    · split
      · split
        · exact trimmed_onPool t _
        · split
          · exact trimmed_onPool t _
          · exact trimmed_freeBlock t b
      · split
        · exact trimmed_onPool t _
        · exact trimmed_freeBlock t b
      · exact trimmed_freeBlock t b

theorem pruned_demoteRecorded (b : BlockId) :
    Py.Keeps (fun c : NodeCache => t.Pruned c.tree) (demoteRecorded b) := fun c hc =>
  hc.trans (trimmed_demoteRecorded c.tree b c (.refl c.tree)).toPruned

theorem pruned_demoteOnce (τ : Time) (need capacity : ℕ) :
    Py.Keeps (fun c : NodeCache => t.Pruned c.tree) (demoteOnce τ need capacity) := by
  refine .bind .get fun c => .bind ?_ fun demoted => ?_
  · exact Py.Keeps.onPart (Q := t.Pruned) (t.pruned_demoteLru _ _ _ _) (fun _ hs => hs)
      fun _ _ _ ht => ht
  · split
    · exact .raise _
    · exact .forM (fun bids => .forM (pruned_demoteRecorded t) bids) demoted

theorem pruned_demotionLoop (clock : ℕ → Time) (need capacity : ℕ) : ∀ fuel : ℕ,
    Py.Keeps (fun c : NodeCache => t.Pruned c.tree) (demotionLoop clock need capacity fuel) := by
  intro fuel
  induction fuel with
  | zero => exact .raise _
  | succ fuel ih =>
      refine .bind .get fun c => ?_
      split
      · exact .bind (pruned_demoteOnce t _ need capacity) fun _ => ih
      · exact .pure ()

/-- **Making room** prunes the tree. -/
theorem pruned_makeRoom (gpuBlocks : ℕ) (clock : ℕ → Time) (k : ℕ) :
    Py.Keeps (fun c : NodeCache => t.Pruned c.tree) (makeRoom gpuBlocks clock k) := by
  rw [makeRoom]
  split
  · exact .raise _
  · exact .bind .get fun _ => pruned_demotionLoop t _ _ _ _

end Trimmed

/-- A turn of the demotion loop at `τ` that takes the leaf `v`. -/
structure Turn (bs : ℕ) (τ : Time) (v : Addr) (c : NodeCache) (s : CacheState) (c' : NodeCache)
    (s' : CacheState) : Prop where
  represents : c'.Represents bs s'
  evicts : CacheState.Evicts s s'
  total_le : s'.pool.total ≤ s.pool.total
  pruned : c.tree.Pruned c'.tree
  mem : v ∈ c.tree.nodes.values
  time_eq : ∀ x ∈ c'.tree.nodes.values, x ≠ v →
    (c'.tree.node x).lastAccessTime = (c.tree.node x).lastAccessTime
  time_victim : (c'.tree.node v).lastAccessTime = RadixTree.renewedTime τ
  first : ∀ o ∈ c.tree.nodes.values, c.tree.isCandidate (some c.pool.pinned) o = true →
    (∃ b ∈ (c.tree.node o).blockIds, c.pool.live b = true) → c.tree.key v ≤ c.tree.key o
  tierOf_eq : ∀ b ∉ (c.tree.node v).blockIds, c'.pool.tierOf b = c.pool.tierOf b
  not_gpu : ∀ b ∈ (c.tree.node v).blockIds, c'.pool.tierOf b ≠ some .gpu
  live : ∀ b ∈ (c.tree.node v).blockIds, ∀ t, c.pool.tierOf b = some t → s.Takes t →
    c'.pool.live b = true

variable {bs : ℕ} {c c' : NodeCache} {s s' : CacheState}

/-- **One turn of the demotion loop** that returns. -/
theorem demoteOnce_turn (h : c.Represents bs s) (hi : s.Inv) {τ : Time} {need capacity : ℕ}
    (hrun : (demoteOnce τ need capacity).run c = .ok () c') :
    ∃ v s', Turn bs τ v c s c' s' := by
  obtain ⟨ids, t', s₁, hlru, hrepr, hpool, hev, -, hids⟩ :=
    RadixTree.demoteLru_spec h.tree hi (fun _ => τ)
  rw [← h.pool] at hlru
  have hlru' := run_onTree_ok hlru
  obtain ⟨-, full, hv⟩ := h.tree
  rcases hv.demoteLru_one (fun _ => τ) c.pool.tierOf
    (some fun b => decide (c.pool.pinCountOf b > 0)) with ⟨t'', hnone⟩ | ⟨v, t'', hsome, hsel⟩
  · -- nothing to demote: the loop raises
    rw [hlru] at hnone
    obtain ⟨rfl, -⟩ := EStateM.Result.ok.inj hnone
    simp only [demoteOnce, EStateM.run_bind, EStateM.run_get, hlru'] at hrun
    cases hrun
  · rw [hlru] at hsome
    obtain ⟨rfl, rfl⟩ := EStateM.Result.ok.inj hsome
    rcases hids with ⟨hnil, -⟩ | ⟨l, hl, heq, -⟩
    · cases hnil
    obtain ⟨hitems, -⟩ := List.cons.inj heq
    have hstart : NodeCache.Represents { c with tree := t' } bs s₁ := ⟨hrepr, h.pool.trans hpool.symm⟩
    obtain ⟨c₁, s', hrun₁, hd, hcas, -, -⟩ := forM_demoteRecorded (s₁.trie.items l) hstart
      (hev.inv hi) (Or.inl ⟨hl, fun b hb => hb⟩)
    obtain rfl : c₁ = c' := by
      have hstep : (demoteOnce τ need capacity).run c =
          ((s₁.trie.items l).forM demoteRecorded).run { c with tree := t' } := by
        simp only [demoteOnce, EStateM.run_bind, EStateM.run_get, hlru', hitems]
        simp
      rw [hstep, hrun₁] at hrun
      exact (EStateM.Result.ok.inj hrun).2
    have htrim : t'.Trimmed c₁.tree := by
      have hkeeps := Py.Keeps.forM (trimmed_demoteRecorded t') (s₁.trie.items l)
        { c with tree := t' } (.refl t')
      rwa [hrun₁] at hkeeps
    have hsame : ∀ b, s₁.pool.tierOf b = c.pool.tierOf b := fun b => by rw [hpool, h.pool]
    refine ⟨v, s', hd.represents, hev.trans hd.evicts, hpool ▸ hcas.total_le,
      hsel.pruned.trans htrim.toPruned, hsel.pruned.values.subset hsel.mem, fun x hx hxv => ?_, ?_,
      fun o ho hcand hlive => ?_, fun b hb => ?_, fun b hb => ?_, fun b hb t ht htakes => ?_⟩
    · rw [htrim.time_eq, hsel.time_eq x (htrim.values.subset hx) hxv]
    · rw [htrim.time_eq, hsel.time_victim]
    · refine hsel.first o ho hcand fun hdead => ?_
      obtain ⟨b, hb, hblive⟩ := hlive
      rw [BlockPool.live, hdead b hb] at hblive
      cases hblive
    · rw [hd.represents.pool, hcas.tierOf_eq (hitems ▸ hb), hsame]
    · rw [hd.represents.pool]
      exact hcas.not_gpu (hitems ▸ hb)
    · rw [hd.represents.pool]
      exact hcas.live_of_takes (hev.inv hi) ((hev.inv hi).distinct.nodup l) (hitems ▸ hb)
        ((hsame b).trans ht) (htakes.evicts hi hev (hpool ▸ le_rfl))

/-! ### A covered need -/

/-- A block of one of the nodes `O`. -/
def Among (c : NodeCache) (O : Addr → Prop) (b : BlockId) : Prop :=
  ∃ o, O o ∧ b ∈ (c.tree.node o).blockIds

open Classical in
/-- The number of GPU blocks that belong to none of the nodes `O` of the cache `c₀`. -/
noncomputable def gpuBesides (c₀ : NodeCache) (O : Addr → Prop) (c : NodeCache) : ℕ :=
  ((c.pool.tiers .gpu).allocated.filter fun b => ¬ c₀.Among O b).card

/-- The leaves `O` of the cache `c₀` cover the need: there is room without their GPU blocks, and one
that still has a GPU block has not had its turn. -/
structure Covered (c₀ : NodeCache) (O : Addr → Prop) (need capacity : ℕ) (c : NodeCache) : Prop where
  pruned : c₀.tree.Pruned c.tree
  room : c₀.gpuBesides O c + need ≤ capacity
  waiting : ∀ o, O o → (∃ b ∈ (c₀.tree.node o).blockIds, c.pool.tierOf b = some .gpu) →
    (c.tree.node o).lastAccessTime = (c₀.tree.node o).lastAccessTime

variable {c₀ : NodeCache} {O : Addr → Prop} {need capacity : ℕ} {z : Addr}

/-- A node of which a block is still in the trie is still in the tree. -/
theorem Represents.mem_of_item {s₀ : CacheState} (h₀ : c₀.Represents bs s₀) (hi₀ : s₀.Inv)
    (h : c.Represents bs s) (hp : c₀.tree.Pruned c.tree) {x : Addr} (hx : x ∈ c₀.tree.nodes.values)
    {b : BlockId} (hb : b ∈ (c₀.tree.node x).blockIds) {l : List Token}
    (hl : b ∈ s.trie.items l) : x ∈ c.tree.nodes.values := by
  obtain ⟨-, full₀, hv₀⟩ := h₀.tree
  obtain ⟨-, full, hv⟩ := h.tree
  obtain ⟨ids, hids, hbids⟩ := PathTrie.exists_of_mem_items hl
  obtain ⟨y, hy, -, rfl⟩ := (hv.eq_some_iff _ _).1 hids
  rw [hp.blockIds_eq] at hbids
  have hy₀ := hp.values.subset hy
  rw [← hv₀.items_full hx] at hb
  rw [← hv₀.items_full hy₀] at hbids
  rwa [hv₀.wf.full_inj (Or.inr hx) (Or.inr hy₀) (hi₀.distinct.unique _ _ _ hb hbids)]

/-- A node of which a block is allocated is still in the tree. -/
theorem Represents.mem_of_live {s₀ : CacheState} (h₀ : c₀.Represents bs s₀) (hi₀ : s₀.Inv)
    (h : c.Represents bs s) (hi : s.Inv) (hp : c₀.tree.Pruned c.tree) {x : Addr}
    (hx : x ∈ c₀.tree.nodes.values) {b : BlockId} (hb : b ∈ (c₀.tree.node x).blockIds)
    (hlive : c.pool.live b = true) : x ∈ c.tree.nodes.values := by
  obtain ⟨l, hl⟩ := hi.owned b (h.pool ▸ hlive)
  exact h₀.mem_of_item hi₀ h hp hx hb hl

/-- The order of the keys does not depend on the nodes that have gone. -/
theorem keyAt_le_of_pruned {s₀ : CacheState} (h₀ : c₀.Represents bs s₀)
    (hp : c₀.tree.Pruned c.tree) {x y : Addr} (hx : x ∈ c.tree.nodes.values)
    (hy : y ∈ c.tree.nodes.values) (hle : c.tree.key x ≤ c.tree.key y) :
    RadixTree.keyAt c₀.tree.nodes.values (c.tree.node x).lastAccessTime x ≤
      RadixTree.keyAt c₀.tree.nodes.values (c.tree.node y).lastAccessTime y := by
  obtain ⟨-, full₀, hv₀⟩ := h₀.tree
  rw [RadixTree.key, RadixTree.keyAt, RadixTree.key, RadixTree.keyAt,
    Prod.Lex.toLex_le_toLex] at hle
  rw [RadixTree.keyAt, RadixTree.keyAt, Prod.Lex.toLex_le_toLex]
  refine hle.imp_right fun heq => ⟨heq.1, ?_⟩
  exact hp.values.idxOf_le hv₀.wf.values_nodup hx hy heq.2

namespace Covered

variable {s₀ : CacheState} {τ : Time} {v : Addr} (h₀ : c₀.Represents bs s₀) (hi₀ : s₀.Inv)
  (hO : ∀ o, O o → o ∈ c₀.tree.nodes.values ∧
    c₀.tree.isCandidate (some c₀.pool.pinned) o = true)
  (hev : CacheState.Evicts s₀ s) (h : c.Represents bs s) (hcov : Covered c₀ O need capacity c)
include h₀ hi₀ hO hev h hcov

/-- **While there is no room** one of the leaves has not had its turn, and the leaf that the loop
takes is no younger. -/
theorem exists_waiting (hfull : capacity < c.pool.used .gpu + need)
    (ht : Turn bs τ v c s c' s') :
    ∃ o, O o ∧ (∃ b ∈ (c₀.tree.node o).blockIds, c.pool.tierOf b = some .gpu) ∧
      RadixTree.keyAt c₀.tree.nodes.values (c.tree.node v).lastAccessTime v ≤ c₀.tree.key o := by
  classical
  have hi := hev.inv hi₀
  obtain ⟨b, hb, o, ho, hbo⟩ : ∃ b ∈ (c.pool.tiers .gpu).allocated, c₀.Among O b := by
    by_contra hno
    have hall : (c.pool.tiers .gpu).allocated.filter (fun b => ¬ c₀.Among O b) =
        (c.pool.tiers .gpu).allocated :=
      Finset.filter_true_of_mem fun b hb hamong => hno ⟨b, hb, hamong⟩
    have hroom := hcov.room
    rw [gpuBesides, hall] at hroom
    exact absurd hfull (not_lt.2 hroom)
  have htier : c.pool.tierOf b = some .gpu := by
    rw [h.pool] at hb ⊢
    exact (hi.pool_wf.mem_allocated .gpu b).1 hb
  have hlive : c.pool.live b = true := BlockPool.live_iff.2 ⟨_, htier⟩
  obtain ⟨hov, hcand⟩ := hO o ho
  have hmem := h₀.mem_of_live hi₀ h hi hcov.pruned hov hbo hlive
  have hpin : c.pool.pinned = c₀.pool.pinned := funext fun x => by
    rw [h.pool, hev.pinned_eq hi₀, h₀.pool]
  have hle := ht.first o hmem (hpin ▸ hcov.pruned.isCandidate hcand)
    ⟨b, by rwa [hcov.pruned.blockIds_eq], hlive⟩
  have hkey := keyAt_le_of_pruned h₀ hcov.pruned ht.mem hmem hle
  rw [hcov.waiting o ho ⟨b, hbo, htier⟩] at hkey
  exact ⟨o, ho, ⟨b, hbo, htier⟩, hkey⟩

/-- The leaves cover the need after the turn too. -/
theorem turn (ht : Turn bs τ v c s c' s') : Covered c₀ O need capacity c' := by
  classical
  have hi := hev.inv hi₀
  -- no block comes to the GPU tier
  have hgpu : ∀ b, c'.pool.tierOf b = some .gpu →
      b ∉ (c.tree.node v).blockIds ∧ c.pool.tierOf b = some .gpu := by
    intro b hb
    have hnot : b ∉ (c.tree.node v).blockIds := fun hmem => ht.not_gpu b hmem hb
    exact ⟨hnot, by rw [← ht.tierOf_eq b hnot, hb]⟩
  refine ⟨hcov.pruned.trans ht.pruned, (Nat.add_le_add_right ?_ _).trans hcov.room, ?_⟩
  · refine Finset.card_le_card (Finset.filter_subset_filter _ fun b hb => ?_)
    rw [ht.represents.pool, (ht.evicts.inv hi).pool_wf.mem_allocated, ← ht.represents.pool] at hb
    rw [h.pool, hi.pool_wf.mem_allocated, ← h.pool]
    exact (hgpu b hb).2
  · rintro o ho ⟨b, hbo, hb⟩
    obtain ⟨hnot, hold⟩ := hgpu b hb
    have hmem := h₀.mem_of_live hi₀ ht.represents (ht.evicts.inv hi)
      (hcov.pruned.trans ht.pruned) (hO o ho).1 hbo (BlockPool.live_iff.2 ⟨_, hb⟩)
    rw [ht.time_eq o hmem ?_, hcov.waiting o ho ⟨b, hbo, hold⟩]
    rintro rfl
    exact hnot (by rwa [hcov.pruned.blockIds_eq])

end Covered

/-! ### Nodes that last -/

/-- The node `z` of the cache `c₀` has lost no block.  Either it is younger than all of the leaves
`O` that still have a GPU block, or it has not had its turn, the tiers below take its blocks, and it
is younger than all of `O` when it has had it. -/
structure Lasts (c₀ : NodeCache) (O : Addr → Prop) (clock : ℕ → Time) (z : Addr) (c : NodeCache)
    (s : CacheState) : Prop where
  live_eq : ∀ b ∈ (c₀.tree.node z).blockIds, c.pool.live b = c₀.pool.live b
  later_or :
    (O z → ∀ b ∈ (c₀.tree.node z).blockIds, c.pool.tierOf b ≠ some .gpu) ∧
        (∀ o, O o → o ≠ z → c₀.tree.key o <
          RadixTree.keyAt c₀.tree.nodes.values (c.tree.node z).lastAccessTime z) ∨
      (c.tree.node z).lastAccessTime = (c₀.tree.node z).lastAccessTime ∧
        (∀ b ∈ (c₀.tree.node z).blockIds, ∀ t, c.pool.tierOf b = some t → s.Takes t) ∧
        ∀ j, ∀ o, O o → o ≠ z → c₀.tree.key o <
          RadixTree.keyAt c₀.tree.nodes.values (RadixTree.renewedTime (clock j)) z

section Lasts

variable {s₀ : CacheState} {clock : ℕ → Time} (h₀ : c₀.Represents bs s₀) (hi₀ : s₀.Inv)
  (hO : ∀ o, O o → o ∈ c₀.tree.nodes.values ∧
    c₀.tree.isCandidate (some c₀.pool.pinned) o = true)
  (hz : z ∈ c₀.tree.nodes.values)
  (hlive : ∃ b ∈ (c₀.tree.node z).blockIds, c₀.pool.live b = true)
include h₀ hi₀ hO hz hlive

omit hO in
/-- A node that lasts is in the tree. -/
theorem Lasts.mem (hev : CacheState.Evicts s₀ s) (h : c.Represents bs s)
    (hp : c₀.tree.Pruned c.tree) (hl : Lasts c₀ O clock z c s) : z ∈ c.tree.nodes.values := by
  obtain ⟨b, hb, hblive⟩ := hlive
  exact h₀.mem_of_live hi₀ h (hev.inv hi₀) hp hz hb ((hl.live_eq b hb).trans hblive)

/-- **A node lasts through a turn** of a loop that still lacks room. -/
theorem Lasts.turn (hev : CacheState.Evicts s₀ s) (h : c.Represents bs s)
    (hcov : Covered c₀ O need capacity c) (hl : Lasts c₀ O clock z c s)
    (hfull : capacity < c.pool.used .gpu + need) {j : ℕ} {v : Addr}
    (ht : Turn bs (clock j) v c s c' s') : Lasts c₀ O clock z c' s' := by
  have hi := hev.inv hi₀
  obtain ⟨-, full₀, hv₀⟩ := h₀.tree
  have hdisj : v ≠ z → ∀ b ∈ (c₀.tree.node z).blockIds, b ∉ (c.tree.node v).blockIds := by
    intro hne b hb hbv
    have hvv := hcov.pruned.values.subset ht.mem
    rw [hcov.pruned.blockIds_eq, ← hv₀.items_full hvv] at hbv
    rw [← hv₀.items_full hz] at hb
    exact hne (hv₀.wf.full_inj (Or.inr hvv) (Or.inr hz) (hi₀.distinct.unique _ _ _ hbv hb))
  -- what a turn that takes another leaf leaves alone
  have hother : v ≠ z → (∀ b ∈ (c₀.tree.node z).blockIds,
      c'.pool.tierOf b = c.pool.tierOf b ∧ c'.pool.live b = c₀.pool.live b) ∧
      (c'.tree.node z).lastAccessTime = (c.tree.node z).lastAccessTime := by
    intro hne
    have htier : ∀ b ∈ (c₀.tree.node z).blockIds,
        c'.pool.tierOf b = c.pool.tierOf b ∧ c'.pool.live b = c₀.pool.live b := by
      intro b hb
      have heq := ht.tierOf_eq b (hdisj hne b hb)
      exact ⟨heq, by rw [← hl.live_eq b hb, BlockPool.live, heq]; rfl⟩
    obtain ⟨b, hb, hblive⟩ := hlive
    have hmem := h₀.mem_of_live hi₀ ht.represents (ht.evicts.inv hi)
      (hcov.pruned.trans ht.pruned) hz hb ((htier b hb).2.trans hblive)
    exact ⟨htier, ht.time_eq z hmem hne.symm⟩
  obtain ⟨o, ho, ⟨x, hxo, hx⟩, hle⟩ := hcov.exists_waiting h₀ hi₀ hO hev h hfull ht
  rcases hl.later_or with ⟨hnot, hyoung⟩ | ⟨htime, htakes, hclock⟩
  · -- the node is younger than the leaf that waits
    have hoz : o ≠ z := by
      rintro rfl
      exact hnot ho x hxo hx
    have hne : v ≠ z := by
      rintro rfl
      exact absurd (hyoung o ho hoz) (not_lt.2 hle)
    obtain ⟨htier, htime'⟩ := hother hne
    refine ⟨fun b hb => (htier b hb).2, Or.inl ⟨fun hOz b hb => ?_, ?_⟩⟩
    · rw [(htier b hb).1]
      exact hnot hOz b hb
    · rw [htime']
      exact hyoung
  · by_cases hne : v = z
    · -- its one turn has come
      subst hne
      have hblocks := hcov.pruned.blockIds_eq v
      refine ⟨fun b hb => ?_, Or.inl ⟨fun _ b hb => ht.not_gpu b (hblocks ▸ hb), ?_⟩⟩
      · cases hold : c₀.pool.live b with
        | true =>
            obtain ⟨t, htb⟩ := BlockPool.live_iff.1 ((hl.live_eq b hb).trans hold)
            exact ht.live b (hblocks ▸ hb) t htb (htakes b hb t htb)
        | false =>
            have hdead := (hl.live_eq b hb).trans hold
            by_contra hb'
            rw [Bool.not_eq_false, ht.represents.pool] at hb'
            rw [h.pool, ht.evicts.live_of_live hb'] at hdead
            cases hdead
      · rw [ht.time_victim]
        exact hclock j
    · obtain ⟨htier, htime'⟩ := hother hne
      refine ⟨fun b hb => (htier b hb).2, Or.inr ⟨htime'.trans htime, fun b hb t htb => ?_, hclock⟩⟩
      rw [(htier b hb).1] at htb
      exact (htakes b hb t htb).evicts hi ht.evicts ht.total_le

/-- **A node lasts through the demotion loop** if its need is covered. -/
theorem lasts_demotionLoop : ∀ (fuel : ℕ) {c : NodeCache} {s : CacheState},
    CacheState.Evicts s₀ s → c.Represents bs s → Covered c₀ O need capacity c →
    Lasts c₀ O clock z c s →
    (demotionLoop clock need capacity fuel).run c = .ok () c' →
    ∃ s', c'.Represents bs s' ∧ CacheState.Evicts s₀ s' ∧ c₀.tree.Pruned c'.tree ∧
      Lasts c₀ O clock z c' s' := by
  intro fuel
  induction fuel with
  | zero => intro c s _ _ _ _ hrun; cases hrun
  | succ fuel ih =>
      intro c s hev h hcov hl hrun
      by_cases hfull : c.pool.used .gpu + need > capacity
      · simp only [demotionLoop, EStateM.run_bind, EStateM.run_get, if_pos hfull] at hrun
        cases honce : (demoteOnce (clock fuel) need capacity).run c with
        | error e c₁ =>
            rw [honce] at hrun
            cases hrun
        | ok u c₁ =>
            rw [honce] at hrun
            obtain ⟨v, s₁, ht⟩ := demoteOnce_turn h (hev.inv hi₀) honce
            exact ih (hev.trans ht.evicts) ht.represents (hcov.turn h₀ hi₀ hO hev h ht)
              (hl.turn h₀ hi₀ hO hz hlive hev h hcov hfull ht) hrun
      · simp only [demotionLoop, EStateM.run_bind, EStateM.run_get, if_neg hfull] at hrun
        cases hrun
        exact ⟨s, h, hev, hcov.pruned, hl⟩

theorem lasts_makeRoom {gpuBlocks k : ℕ} (hev : CacheState.Evicts s₀ s) (h : c.Represents bs s)
    (hcov : Covered c₀ O (min (k + 1) gpuBlocks) gpuBlocks c) (hl : Lasts c₀ O clock z c s)
    (hrun : (makeRoom gpuBlocks clock k).run c = .ok () c') :
    ∃ s', c'.Represents bs s' ∧ CacheState.Evicts s₀ s' ∧ c₀.tree.Pruned c'.tree ∧
      Lasts c₀ O clock z c' s' := by
  rw [makeRoom] at hrun
  split at hrun
  · cases hrun
  · simp only [EStateM.run_bind, EStateM.run_get] at hrun
    exact lasts_demotionLoop h₀ hi₀ hO hz hlive _ hev h hcov hl hrun

end Lasts

end NodeCache

end NanoKVRouter
