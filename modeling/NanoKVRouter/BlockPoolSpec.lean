/-
**What the pool operations do.**

The consistency of the four maps and three sets of a pool, and one specification for each
operation: when it returns, what it has changed, and otherwise which exception it raises with the
pool as it was.

Main definitions:

* `BlockPool.live`, `BlockPool.pinned` — a block is allocated; an active request pins it;
* `BlockPool.WF` — the bookkeeping is consistent and no tier is over its capacity;
* `BlockPool.repin`, `BlockPool.Repinned` — the step of a pin and of an unpin, and what it
  leaves alone;
* `BlockPool.Freed`, `BlockPool.Moved`, `BlockPool.Allocated`, `BlockPool.Pinned`,
  `BlockPool.Unpinned` — the effect of each operation.

Main results:

* `BlockPool.wf_init` — an empty pool is consistent;
* `BlockPool.free_ok`, `BlockPool.free_pinned`, `BlockPool.move_ok`, `BlockPool.allocate_ok`,
  `BlockPool.allocate_full`, `BlockPool.pin_ok`, `BlockPool.unpin_ok` — the specifications.
-/

import NanoKVRouter.BlockPool
import Mathlib.Data.Finset.Lattice.Basic
import Mathlib.Tactic.Linarith

set_option relaxedAutoImplicit false
set_option autoImplicit false

namespace NanoKVRouter

namespace BlockPool

/-- The block is allocated. -/
def live (p : BlockPool) (b : BlockId) : Bool := (p.tierOf b).isSome

/-- An active request pins the block. -/
def pinned (p : BlockPool) (b : BlockId) : Bool := 0 < p.pinCountOf b

theorem live_iff {p : BlockPool} {b : BlockId} : p.live b = true ↔ ∃ t, p.tierOf b = some t :=
  Option.isSome_iff_exists

theorem live_eq_false_iff {p : BlockPool} {b : BlockId} : p.live b = false ↔ p.tierOf b = none := by
  simp [live]

theorem live_iff_mem_keys {p : BlockPool} {b : BlockId} :
    p.live b = true ↔ b ∈ p.blockTier.keys := by
  rw [← PyDict.contains_iff]
  rfl

@[simp] theorem pinned_iff {p : BlockPool} {b : BlockId} :
    p.pinned b = true ↔ 0 < p.pinCountOf b := by
  simp [pinned]

/-- The bookkeeping of a pool is consistent. -/
structure WF (p : BlockPool) : Prop where
  mem_allocated : ∀ t b, b ∈ (p.tiers t).allocated ↔ p.tierOf b = some t
  used_le : ∀ t, p.used t ≤ (p.tiers t).capacity
  ref_keys : ∀ b, b ∈ p.refCount.keys ↔ b ∈ p.blockTier.keys
  pin_keys : ∀ b, b ∈ p.pinCount.keys ↔ b ∈ p.blockTier.keys
  ref_eq_pin : ∀ b, p.refCountOf b = p.pinCountOf b
  pin_nonneg : ∀ b, 0 ≤ p.pinCountOf b
  lt_minted : ∀ b, p.live b = true → b < p.minted

theorem wf_init (cfg : NodeConfig) : (init cfg).WF where
  mem_allocated := by intro t b; simp [init, tierOf]
  used_le := by intro t; simp [init, used, TierState.used]
  ref_keys := by intro b; simp [init]
  pin_keys := by intro b; simp [init]
  ref_eq_pin := by intro b; rfl
  pin_nonneg := by intro b; simp [init, pinCountOf, PyDict.getD]
  lt_minted := by intro b h; simp [init, live, tierOf] at h

namespace WF

variable {p : BlockPool} (h : p.WF)
include h

/-- A block that is not allocated has no pin. -/
theorem pin_eq_zero {b : BlockId} (hb : p.live b = false) : p.pinCountOf b = 0 := by
  have hk : b ∉ p.pinCount.keys := by
    rw [h.pin_keys, ← live_iff_mem_keys, hb]
    simp
  rw [pinCountOf, PyDict.getD, PyDict.get?_eq_none_iff.2 hk]
  rfl

/-- A pinned block is allocated. -/
theorem live_of_pinned {b : BlockId} (hb : p.pinned b = true) : p.live b = true := by
  by_contra hl
  have h0 := h.pin_eq_zero (Bool.not_eq_true _ ▸ hl)
  rw [pinned_iff] at hb
  omega

end WF

theorem nodup_freshIds (p : BlockPool) (n : ℕ) : (p.freshIds n).Nodup := List.nodup_range'

@[simp] theorem length_freshIds (p : BlockPool) (n : ℕ) : (p.freshIds n).length = n :=
  List.length_range'

theorem mem_freshIds {p : BlockPool} {n : ℕ} {b : BlockId} :
    b ∈ p.freshIds n ↔ p.minted ≤ b ∧ b < p.minted + n :=
  List.mem_range'_1

/-- A query of a tier by its own name succeeds. -/
@[simp] theorem run_requireTier_name (t : Tier) (p : BlockPool) :
    (requireTier t.name).run p = .ok t p := by
  simp [requireTier]

/-! ### Accounting

The part of the consistency that does not depend on how often a block is pinned: it survives any
successful call, also an `unpin` that names one block twice. -/

/-- The maps and the sets of the pool agree on which blocks are allocated and where, and no tier
is over its capacity. -/
structure Accounted (p : BlockPool) : Prop where
  mem_allocated : ∀ t b, b ∈ (p.tiers t).allocated ↔ p.tierOf b = some t
  used_le : ∀ t, p.used t ≤ (p.tiers t).capacity
  ref_keys : ∀ b, b ∈ p.refCount.keys ↔ b ∈ p.blockTier.keys
  pin_keys : ∀ b, b ∈ p.pinCount.keys ↔ b ∈ p.blockTier.keys
  lt_minted : ∀ b, p.live b = true → b < p.minted

theorem WF.accounted {p : BlockPool} (h : p.WF) : p.Accounted :=
  ⟨h.mem_allocated, h.used_le, h.ref_keys, h.pin_keys, h.lt_minted⟩

theorem Accounted.wf {p : BlockPool} (h : p.Accounted) (href : ∀ b, p.refCountOf b = p.pinCountOf b)
    (hpin : ∀ b, 0 ≤ p.pinCountOf b) : p.WF :=
  ⟨h.mem_allocated, h.used_le, h.ref_keys, h.pin_keys, href, hpin, h.lt_minted⟩

/-- The pool after `b` has gone from tier `src` to tier `dst`. -/
def moveBlock (p : BlockPool) (b : BlockId) (src dst : Tier) : BlockPool :=
  let q := p.setTier src { p.tiers src with allocated := (p.tiers src).allocated.erase b }
  let q := q.setTier dst { q.tiers dst with allocated := insert b (q.tiers dst).allocated }
  { q with blockTier := q.blockTier.set b dst }

/-- The pool after `n` fresh ids have been allocated on tier `t`. -/
def addBlocks (p : BlockPool) (n : ℕ) (t : Tier) : BlockPool :=
  let q := p.setTier t
    { p.tiers t with allocated := (p.tiers t).allocated ∪ (p.freshIds n).toFinset }
  { (p.freshIds n).foldl (addBlock t) q with minted := p.minted + n }

/-- Count `δ` more active requests on a block: a pin counts one more, an unpin one less. -/
def repin (δ : ℤ) (p : BlockPool) (b : BlockId) : BlockPool :=
  { p with
    refCount := p.refCount.set b (p.refCountOf b + δ)
    pinCount := p.pinCount.set b (p.pinCountOf b + δ) }

theorem pinOne_eq_repin : pinOne = repin 1 := rfl

theorem unpinOne_eq_repin : unpinOne = repin (-1) := rfl

theorem tierOf_dropBlock (p : BlockPool) (b : BlockId) (t : Tier) (c : BlockId) :
    (p.dropBlock b t).tierOf c = if c = b then none else p.tierOf c := by
  simp only [tierOf, dropBlock, PyDict.get?_erase]

theorem tierOf_moveBlock (p : BlockPool) (b : BlockId) (src dst : Tier) (c : BlockId) :
    (p.moveBlock b src dst).tierOf c = if c = b then some dst else p.tierOf c := by
  simp [moveBlock, setTier, tierOf, PyDict.get?_set]

/-- The sets of the tiers once a block has moved; the two tiers may be the same. -/
theorem mem_moveBlock (p : BlockPool) (b : BlockId) (src dst s : Tier) (c : BlockId) :
    c ∈ ((p.moveBlock b src dst).tiers s).allocated ↔
      c = b ∧ s = dst ∨ ¬(c = b ∧ s = src) ∧ c ∈ (p.tiers s).allocated := by
  by_cases hd : s = dst <;> by_cases hs : s = src <;>
    simp only [moveBlock, setTier, Function.update_apply, hd, hs, if_true, if_false] <;>
    subst_vars <;> simp_all [Finset.mem_insert, Finset.mem_erase]

theorem capacity_moveBlock (p : BlockPool) (b : BlockId) (src dst s : Tier) :
    ((p.moveBlock b src dst).tiers s).capacity = (p.tiers s).capacity := by
  by_cases hd : s = dst <;> by_cases hs : s = src <;>
    simp only [moveBlock, setTier, Function.update_apply, hd, hs, if_true, if_false] <;>
    subst_vars <;> simp_all

theorem foldl_addBlock_tiers (t : Tier) (ids : List BlockId) (p : BlockPool) :
    (ids.foldl (addBlock t) p).tiers = p.tiers := by
  induction ids generalizing p with
  | nil => rfl
  | cons b ids ih => rw [List.foldl_cons, ih]; rfl

theorem foldl_addBlock_tierOf (t : Tier) (ids : List BlockId) (p : BlockPool) (c : BlockId) :
    (ids.foldl (addBlock t) p).tierOf c = if c ∈ ids then some t else p.tierOf c := by
  induction ids generalizing p with
  | nil => simp
  | cons b ids ih =>
      rw [List.foldl_cons, ih]
      by_cases hc : c ∈ ids <;> by_cases hcb : c = b <;>
        simp [hc, hcb, addBlock, tierOf, PyDict.get?_set]

theorem foldl_addBlock_pin (t : Tier) (ids : List BlockId) (p : BlockPool) (c : BlockId) :
    (ids.foldl (addBlock t) p).pinCount.get? c = if c ∈ ids then some 0 else p.pinCount.get? c := by
  induction ids generalizing p with
  | nil => simp
  | cons b ids ih =>
      rw [List.foldl_cons, ih]
      by_cases hc : c ∈ ids <;> by_cases hcb : c = b <;> simp [hc, hcb, addBlock, PyDict.get?_set]

theorem foldl_addBlock_ref (t : Tier) (ids : List BlockId) (p : BlockPool) (c : BlockId) :
    (ids.foldl (addBlock t) p).refCount.get? c = if c ∈ ids then some 0 else p.refCount.get? c := by
  induction ids generalizing p with
  | nil => simp
  | cons b ids ih =>
      rw [List.foldl_cons, ih]
      by_cases hc : c ∈ ids <;> by_cases hcb : c = b <;> simp [hc, hcb, addBlock, PyDict.get?_set]

theorem tiers_addBlocks (p : BlockPool) (n : ℕ) (t : Tier) :
    (p.addBlocks n t).tiers = Function.update p.tiers t
      { p.tiers t with allocated := (p.tiers t).allocated ∪ (p.freshIds n).toFinset } :=
  foldl_addBlock_tiers t (p.freshIds n) _

theorem tierOf_addBlocks (p : BlockPool) (n : ℕ) (t : Tier) (c : BlockId) :
    (p.addBlocks n t).tierOf c = if c ∈ p.freshIds n then some t else p.tierOf c :=
  foldl_addBlock_tierOf t (p.freshIds n) _ c

theorem pin_addBlocks (p : BlockPool) (n : ℕ) (t : Tier) (c : BlockId) :
    (p.addBlocks n t).pinCount.get? c = if c ∈ p.freshIds n then some 0 else p.pinCount.get? c :=
  foldl_addBlock_pin t (p.freshIds n) _ c

theorem ref_addBlocks (p : BlockPool) (n : ℕ) (t : Tier) (c : BlockId) :
    (p.addBlocks n t).refCount.get? c = if c ∈ p.freshIds n then some 0 else p.refCount.get? c :=
  foldl_addBlock_ref t (p.freshIds n) _ c

theorem capacity_addBlocks (p : BlockPool) (n : ℕ) (t s : Tier) :
    ((p.addBlocks n t).tiers s).capacity = (p.tiers s).capacity := by
  rw [tiers_addBlocks]
  rcases eq_or_ne s t with rfl | hs
  · simp
  · rw [Function.update_of_ne hs]

namespace Accounted

variable {p : BlockPool} (h : p.Accounted)
include h

/-- A block that is not allocated is in no set, and no count is kept for it. -/
theorem not_live {b : BlockId} (hb : p.live b = false) :
    (∀ t, b ∉ (p.tiers t).allocated) ∧ b ∉ p.refCount.keys ∧ b ∉ p.pinCount.keys := by
  have hk : b ∉ p.blockTier.keys := by
    rw [← live_iff_mem_keys, hb]
    simp
  refine ⟨fun t ht => ?_, fun hr => hk ((h.ref_keys b).1 hr), fun hp => hk ((h.pin_keys b).1 hp)⟩
  rw [h.mem_allocated, live_eq_false_iff.1 hb] at ht
  simp at ht

/-- A fresh id is not allocated. -/
theorem fresh_not_live {n : ℕ} {b : BlockId} (hb : b ∈ p.freshIds n) : p.live b = false := by
  by_contra hl
  have h1 := h.lt_minted b (by simpa using hl)
  exact absurd h1 (Nat.not_lt.2 (List.mem_range'_1.1 hb).1)

/-- Forgetting an allocated block. -/
theorem dropBlock {b : BlockId} {t : Tier} (ht : p.tierOf b = some t) :
    (p.dropBlock b t).Accounted := by
  refine ⟨?_, ?_, ?_, ?_, ?_⟩
  · intro s c
    rw [tierOf_dropBlock]
    by_cases hs : s = t
    · subst hs
      simp only [BlockPool.dropBlock, Function.update_self, Finset.mem_erase, h.mem_allocated]
      by_cases hc : c = b <;> simp [hc]
    · simp only [BlockPool.dropBlock, Function.update_of_ne hs, h.mem_allocated]
      by_cases hc : c = b
      · subst hc
        simp only [if_true, ht, Option.some.injEq, reduceCtorEq, iff_false]
        exact fun e => hs e.symm
      · simp [hc]
  · intro s
    have h1 := h.used_le s
    by_cases hs : s = t
    · subst hs
      have h2 : ((p.tiers s).allocated.erase b).card ≤ (p.tiers s).allocated.card :=
        Finset.card_erase_le
      simp only [used, TierState.used, BlockPool.dropBlock, Function.update_self] at h1 ⊢
      omega
    · simpa only [used, BlockPool.dropBlock, Function.update_of_ne hs] using h1
  · intro c; simp [BlockPool.dropBlock, h.ref_keys]
  · intro c; simp [BlockPool.dropBlock, h.pin_keys]
  · intro c hc
    refine h.lt_minted c ?_
    rw [live, tierOf_dropBlock] at hc
    split at hc
    · simp at hc
    · exact hc

/-- Moving an allocated block to a tier with a free slot. -/
theorem moveBlock {b : BlockId} {src dst : Tier} (hb : p.tierOf b = some src)
    (hfree : 0 < p.freeSlots dst) : (p.moveBlock b src dst).Accounted := by
  have hkeys : ∀ c, c ∈ (p.moveBlock b src dst).blockTier.keys ↔ c ∈ p.blockTier.keys := by
    intro c
    simp only [BlockPool.moveBlock, setTier, PyDict.mem_keys_set]
    constructor
    · rintro (rfl | hc)
      · exact PyDict.mem_keys_of_get? hb
      · exact hc
    · exact Or.inr
  refine ⟨?_, ?_, ?_, ?_, ?_⟩
  · intro s c
    rw [mem_moveBlock, tierOf_moveBlock, h.mem_allocated]
    by_cases hc : c = b
    · subst hc
      simp only [hb, true_and, Option.some.injEq, if_true]
      constructor
      · rintro (rfl | ⟨h1, h2⟩)
        · rfl
        · exact absurd h2.symm h1
      · rintro rfl
        exact Or.inl rfl
    · simp [hc]
  · intro s
    rw [capacity_moveBlock]
    have hsub : ((p.moveBlock b src dst).tiers s).allocated ⊆
        if s = dst then insert b (p.tiers s).allocated else (p.tiers s).allocated := by
      intro c hc
      rw [mem_moveBlock] at hc
      rcases hc with ⟨rfl, rfl⟩ | ⟨-, hc⟩
      · simp
      · split
        · exact Finset.mem_insert_of_mem hc
        · exact hc
    have h1 := Finset.card_le_card hsub
    have h2 := h.used_le s
    simp only [used, TierState.used] at h2 ⊢
    split at h1
    · next hs =>
        subst hs
        have h3 := Finset.card_insert_le b (p.tiers s).allocated
        simp only [freeSlots, TierState.free, TierState.used] at hfree
        omega
    · omega
  · intro c; rw [hkeys]; exact h.ref_keys c
  · intro c; rw [hkeys]; exact h.pin_keys c
  · intro c hc
    refine h.lt_minted c ?_
    rwa [live_iff_mem_keys, hkeys, ← live_iff_mem_keys] at hc

/-- Counting requests on an allocated block. -/
theorem repin {b : BlockId} (δ : ℤ) (hb : p.live b = true) : (p.repin δ b).Accounted := by
  have hk := live_iff_mem_keys.1 hb
  refine ⟨h.mem_allocated, h.used_le, ?_, ?_, h.lt_minted⟩
  · intro c
    simp only [BlockPool.repin, PyDict.mem_keys_set, h.ref_keys]
    exact ⟨fun hc => hc.elim (fun e => e ▸ hk) id, Or.inr⟩
  · intro c
    simp only [BlockPool.repin, PyDict.mem_keys_set, h.pin_keys]
    exact ⟨fun hc => hc.elim (fun e => e ▸ hk) id, Or.inr⟩

/-- Allocating fresh ids adds as many to the tier. -/
theorem used_addBlocks (n : ℕ) (t : Tier) : (p.addBlocks n t).used t = p.used t + n := by
  have hdisj : Disjoint (p.tiers t).allocated (p.freshIds n).toFinset := by
    rw [Finset.disjoint_left]
    intro c hc hc'
    have h1 := h.fresh_not_live (List.mem_toFinset.1 hc')
    rw [h.mem_allocated] at hc
    simp [live, hc] at h1
  simp only [used, TierState.used, tiers_addBlocks, Function.update_self]
  rw [Finset.card_union_of_disjoint hdisj, List.toFinset_card_of_nodup (p.nodup_freshIds n),
    length_freshIds]

/-- Allocating fresh ids on a tier with room for them. -/
theorem addBlocks {n : ℕ} {t : Tier} (hn : (n : ℤ) ≤ p.freeSlots t) :
    (p.addBlocks n t).Accounted := by
  have hkeys : ∀ (d d' : PyDict BlockId ℤ),
      (∀ c, d'.get? c = if c ∈ p.freshIds n then some 0 else d.get? c) →
      (∀ c, c ∈ d.keys ↔ c ∈ p.blockTier.keys) →
      ∀ c, c ∈ d'.keys ↔ c ∈ (p.addBlocks n t).blockTier.keys := by
    intro d d' hd hk c
    have h1 : c ∈ (p.addBlocks n t).blockTier.keys ↔ (p.addBlocks n t).tierOf c ≠ none := by
      rw [ne_eq, tierOf, PyDict.get?_eq_none_iff, not_not]
    have h2 : c ∈ d'.keys ↔ d'.get? c ≠ none := by
      rw [ne_eq, PyDict.get?_eq_none_iff, not_not]
    rw [h1, h2, hd, tierOf_addBlocks]
    by_cases hc : c ∈ p.freshIds n
    · simp [hc]
    · simp only [hc, if_false, ne_eq, PyDict.get?_eq_none_iff, tierOf, hk]
  refine ⟨?_, ?_, hkeys _ _ (ref_addBlocks p n t) h.ref_keys,
    hkeys _ _ (pin_addBlocks p n t) h.pin_keys, ?_⟩
  · intro s c
    rw [tierOf_addBlocks, tiers_addBlocks]
    rcases eq_or_ne s t with rfl | hs
    · simp only [Function.update_self, Finset.mem_union, h.mem_allocated, List.mem_toFinset]
      by_cases hc : c ∈ p.freshIds n <;> simp [hc]
    · rw [Function.update_of_ne hs, h.mem_allocated]
      by_cases hc : c ∈ p.freshIds n
      · have h1 := live_eq_false_iff.1 (h.fresh_not_live hc)
        simp [hc, h1, Ne.symm hs]
      · simp [hc]
  · intro s
    rw [capacity_addBlocks]
    rcases eq_or_ne s t with rfl | hs
    · rw [h.used_addBlocks]
      simp only [freeSlots, TierState.free] at hn
      simp only [used]
      omega
    · simpa only [used, tiers_addBlocks, Function.update_of_ne hs] using h.used_le s
  · intro c hc
    rw [live, tierOf_addBlocks] at hc
    by_cases hmem : c ∈ p.freshIds n
    · exact (mem_freshIds.1 hmem).2
    · rw [if_neg hmem] at hc
      exact Nat.lt_add_right n (h.lt_minted c hc)

end Accounted

/-- A fresh id is not allocated. -/
theorem WF.fresh_not_live {p : BlockPool} (h : p.WF) {n : ℕ} {b : BlockId}
    (hb : b ∈ p.freshIds n) : p.live b = false :=
  h.accounted.fresh_not_live hb

/-! ### Freeing -/

/-- `q` is `p` without the blocks of `ids`. -/
structure Freed (p : BlockPool) (ids : List BlockId) (q : BlockPool) : Prop where
  wf : q.WF
  tierOf_eq : ∀ b, q.tierOf b = if b ∈ ids then none else p.tierOf b
  pin_eq : ∀ b, q.pinCountOf b = if b ∈ ids then 0 else p.pinCountOf b
  capacity_eq : ∀ t, (q.tiers t).capacity = (p.tiers t).capacity
  minted_eq : q.minted = p.minted

/-- The checking loop accepts a list without duplicates whose blocks are allocated and
unpinned. -/
theorem checkFree_ok {p : BlockPool} : ∀ (ids : List BlockId) (acc : PyDict BlockId Tier),
    ids.Nodup → (∀ b ∈ ids, b ∉ acc.keys) → (∀ b ∈ ids, p.live b = true ∧ p.pinned b = false) →
    ∃ d, p.checkFree acc ids = .ok d ∧
      ∀ b t, (b, t) ∈ d.entries ↔ (b, t) ∈ acc.entries ∨ b ∈ ids ∧ p.tierOf b = some t := by
  intro ids
  induction ids with
  | nil => intro acc _ _ _; exact ⟨acc, rfl, by simp⟩
  | cons b ids ih =>
      intro acc hnd hacc hids
      obtain ⟨hb, hnd'⟩ := List.nodup_cons.1 hnd
      obtain ⟨hlive, hpin⟩ := hids b List.mem_cons_self
      obtain ⟨t, ht⟩ := live_iff.1 hlive
      have hnot : acc.contains b = false := by
        rw [← Bool.not_eq_true, PyDict.contains_iff]
        exact hacc b List.mem_cons_self
      have hpin' : ¬ p.pinCountOf b > 0 := by
        rw [gt_iff_lt, ← pinned_iff, hpin]
        simp
      obtain ⟨d, hd, hmem⟩ := ih (acc.set b t) hnd'
        (by
          intro c hc
          rw [PyDict.mem_keys_set]
          rintro (rfl | hk)
          · exact hb hc
          · exact hacc c (List.mem_cons_of_mem _ hc) hk)
        (fun c hc => hids c (List.mem_cons_of_mem _ hc))
      refine ⟨d, ?_, ?_⟩
      · simp only [checkFree, hnot, Bool.false_eq_true, if_false, ht, hpin']
        exact hd
      · intro c s
        have hbacc : ∀ s, (b, s) ∉ acc.entries := fun s hs =>
          hacc b List.mem_cons_self (PyDict.mem_keys.2 ⟨s, hs⟩)
        rw [hmem, PyDict.mem_entries_set, List.mem_cons]
        constructor
        · rintro ((⟨rfl, rfl⟩ | ⟨-, h⟩) | ⟨hc, hs⟩)
          · exact Or.inr ⟨Or.inl rfl, ht⟩
          · exact Or.inl h
          · exact Or.inr ⟨Or.inr hc, hs⟩
        · rintro (h | ⟨rfl | hc, hs⟩)
          · refine Or.inl (Or.inr ⟨?_, h⟩)
            rintro rfl
            exact hbacc s h
          · rw [ht] at hs
            exact Or.inl (Or.inl ⟨rfl, (Option.some_inj.1 hs).symm⟩)
          · exact Or.inr ⟨hc, hs⟩

/-- The checking loop stops with `RuntimeError` at a list without duplicates whose blocks are
allocated, one of them pinned. -/
theorem checkFree_pinned {p : BlockPool} : ∀ (ids : List BlockId) (acc : PyDict BlockId Tier),
    ids.Nodup → (∀ b ∈ ids, b ∉ acc.keys) → (∀ b ∈ ids, p.live b = true) →
    (∃ b ∈ ids, p.pinned b = true) →
    ∃ msg, p.checkFree acc ids = .error (.runtimeError msg) := by
  intro ids
  induction ids with
  | nil => intro acc _ _ _ h; simp at h
  | cons b ids ih =>
      intro acc hnd hacc hids hex
      obtain ⟨hb, hnd'⟩ := List.nodup_cons.1 hnd
      obtain ⟨t, ht⟩ := live_iff.1 (hids b List.mem_cons_self)
      have hnot : acc.contains b = false := by
        rw [← Bool.not_eq_true, PyDict.contains_iff]
        exact hacc b List.mem_cons_self
      simp only [checkFree, hnot, Bool.false_eq_true, if_false, ht]
      by_cases hpin : p.pinCountOf b > 0
      · exact ⟨_, if_pos hpin⟩
      · rw [if_neg hpin]
        refine ih (acc.set b t) hnd' ?_ (fun c hc => hids c (List.mem_cons_of_mem _ hc)) ?_
        · intro c hc
          rw [PyDict.mem_keys_set]
          rintro (rfl | hk)
          · exact hb hc
          · exact hacc c (List.mem_cons_of_mem _ hc) hk
        · obtain ⟨c, hc, hcp⟩ := hex
          rcases List.mem_cons.1 hc with rfl | hc
          · exact absurd (pinned_iff.1 hcp) hpin
          · exact ⟨c, hc, hcp⟩

/-- Forgetting one allocated block. -/
theorem dropBlock_freed {p : BlockPool} (h : p.WF) {b : BlockId} {t : Tier}
    (ht : p.tierOf b = some t) : Freed p [b] (p.dropBlock b t) := by
  have htier : ∀ c, (p.dropBlock b t).tierOf c = if c ∈ [b] then none else p.tierOf c := by
    intro c
    simp only [tierOf_dropBlock, List.mem_singleton]
  have hpin : ∀ c, (p.dropBlock b t).pinCountOf c = if c ∈ [b] then 0 else p.pinCountOf c := by
    intro c
    simp only [pinCountOf, PyDict.getD, dropBlock, PyDict.get?_erase, List.mem_singleton]
    split <;> simp_all
  have href : ∀ c, (p.dropBlock b t).refCountOf c = if c ∈ [b] then 0 else p.refCountOf c := by
    intro c
    simp only [refCountOf, PyDict.getD, dropBlock, PyDict.get?_erase, List.mem_singleton]
    split <;> simp_all
  have hcap : ∀ s, ((p.dropBlock b t).tiers s).capacity = (p.tiers s).capacity := by
    intro s
    by_cases hs : s = t
    · subst hs; simp [dropBlock]
    · simp [dropBlock, Function.update_of_ne hs]
  refine ⟨(h.accounted.dropBlock ht).wf ?_ ?_, htier, hpin, hcap, rfl⟩
  · intro c; rw [href, hpin, h.ref_eq_pin]
  · intro c
    rw [hpin]
    split
    · exact le_rfl
    · exact h.pin_nonneg c

theorem Freed.live_eq {p q : BlockPool} {ids : List BlockId} (h : Freed p ids q) (b : BlockId) :
    q.live b = (!decide (b ∈ ids) && p.live b) := by
  by_cases hb : b ∈ ids <;> simp [live, h.tierOf_eq, hb]

theorem Freed.trans {p q r : BlockPool} {ids ids' : List BlockId} (h : Freed p ids q)
    (h' : Freed q ids' r) : Freed p (ids ++ ids') r where
  wf := h'.wf
  tierOf_eq := by
    intro b
    rw [h'.tierOf_eq, h.tierOf_eq]
    by_cases h1 : b ∈ ids <;> by_cases h2 : b ∈ ids' <;> simp [h1, h2]
  pin_eq := by
    intro b
    rw [h'.pin_eq, h.pin_eq]
    by_cases h1 : b ∈ ids <;> by_cases h2 : b ∈ ids' <;> simp [h1, h2]
  capacity_eq := fun t => (h'.capacity_eq t).trans (h.capacity_eq t)
  minted_eq := h'.minted_eq.trans h.minted_eq

theorem Freed.refl {p : BlockPool} (h : p.WF) : Freed p [] p :=
  ⟨h, by simp, by simp, fun _ => rfl, rfl⟩

/-- The releasing loop of `free`. -/
theorem foldl_dropBlock_freed : ∀ (es : List (BlockId × Tier)) {p : BlockPool}, p.WF →
    (es.map Prod.fst).Nodup → (∀ e ∈ es, p.tierOf e.1 = some e.2) →
    Freed p (es.map Prod.fst) (es.foldl (fun q e => q.dropBlock e.1 e.2) p) := by
  intro es
  induction es with
  | nil => intro p h _ _; exact Freed.refl h
  | cons e es ih =>
      intro p h hnd hes
      obtain ⟨he, hnd'⟩ := List.nodup_cons.1 hnd
      have h1 := dropBlock_freed h (hes e List.mem_cons_self)
      refine h1.trans (ih h1.wf hnd' ?_)
      intro e' he'
      have hne : e'.1 ∉ [e.1] := by
        rw [List.mem_singleton]
        intro heq
        exact he (heq ▸ List.mem_map_of_mem he')
      rw [h1.tierOf_eq, if_neg hne]
      exact hes e' (List.mem_cons_of_mem _ he')

/-- `free` releases a list of allocated, unpinned, pairwise distinct blocks. -/
theorem free_ok {p : BlockPool} (h : p.WF) {ids : List BlockId} (hnd : ids.Nodup)
    (hids : ∀ b ∈ ids, p.live b = true ∧ p.pinned b = false) :
    ∃ q, (free ids).run p = .ok () q ∧ Freed p ids q := by
  obtain ⟨d, hd, hmem⟩ := checkFree_ok ids PyDict.empty hnd (by simp) hids
  simp only [PyDict.entries_empty, List.not_mem_nil, false_or] at hmem
  have hfree := foldl_dropBlock_freed d.entries h d.nodup_keys
    (fun e he => ((hmem e.1 e.2).1 he).2)
  refine ⟨d.entries.foldl (fun q e => q.dropBlock e.1 e.2) p, by simp [free, hd], ?_⟩
  have hkeys : ∀ b, b ∈ d.entries.map Prod.fst ↔ b ∈ ids := by
    intro b
    constructor
    · intro hb
      obtain ⟨e, he, rfl⟩ := List.mem_map.1 hb
      exact ((hmem e.1 e.2).1 he).1
    · intro hb
      obtain ⟨t, ht⟩ := live_iff.1 (hids b hb).1
      exact List.mem_map.2 ⟨(b, t), (hmem b t).2 ⟨hb, ht⟩, rfl⟩
  exact ⟨hfree.wf, by simpa only [hkeys] using hfree.tierOf_eq,
    by simpa only [hkeys] using hfree.pin_eq, hfree.capacity_eq, hfree.minted_eq⟩

/-- `free` refuses a pinned block, before it releases anything. -/
theorem free_pinned {p : BlockPool} {ids : List BlockId} (hnd : ids.Nodup)
    (hids : ∀ b ∈ ids, p.live b = true) (hpin : ∃ b ∈ ids, p.pinned b = true) :
    ∃ msg, (free ids).run p = .error (.runtimeError msg) p := by
  obtain ⟨msg, hmsg⟩ := checkFree_pinned ids PyDict.empty hnd (by simp) hids hpin
  exact ⟨msg, by simp [free, hmsg]⟩

/-! ### Moving -/

/-- `q` is `p` with the block `b` on tier `t`. -/
structure Moved (p : BlockPool) (b : BlockId) (t : Tier) (q : BlockPool) : Prop where
  wf : q.WF
  tierOf_eq : ∀ c, q.tierOf c = if c = b then some t else p.tierOf c
  pin_eq : ∀ c, q.pinCountOf c = p.pinCountOf c
  capacity_eq : ∀ s, (q.tiers s).capacity = (p.tiers s).capacity
  minted_eq : q.minted = p.minted

/-- `move` takes an allocated, unpinned block to another tier that has a free slot. -/
theorem move_ok {p : BlockPool} (h : p.WF) {b : BlockId} {src dst : Tier} (hb : p.tierOf b = some src)
    (hpin : p.pinned b = false) (hfree : 0 < p.freeSlots dst) :
    ∃ q, (move b src.name dst.name).run p = .ok () q ∧ Moved p b dst q := by
  have hpin' : ¬ p.pinCountOf b > 0 := by
    rw [gt_iff_lt, ← pinned_iff, hpin]
    simp
  have hfree' : ¬ (p.tiers dst).free < 1 := by
    simp only [freeSlots] at hfree
    omega
  refine ⟨p.moveBlock b src dst, by simp [move, hb, hpin', hfree', moveBlock], ?_⟩
  refine ⟨(h.accounted.moveBlock hb hfree).wf h.ref_eq_pin h.pin_nonneg,
    tierOf_moveBlock p b src dst, fun c => rfl, capacity_moveBlock p b src dst, rfl⟩

theorem Moved.live_eq {p q : BlockPool} {b : BlockId} {t : Tier} (h : Moved p b t q)
    (hb : p.live b = true) (c : BlockId) : q.live c = p.live c := by
  by_cases hc : c = b
  · subst hc
    rw [hb, live, h.tierOf_eq, if_pos rfl]
    rfl
  · simp [live, h.tierOf_eq, hc]

/-! ### Allocating -/

/-- `q` is `p` with the next `n` fresh ids allocated on tier `t`. -/
structure Allocated (p : BlockPool) (n : ℕ) (t : Tier) (q : BlockPool) : Prop where
  wf : q.WF
  tierOf_eq : ∀ b, q.tierOf b = if b ∈ p.freshIds n then some t else p.tierOf b
  pin_eq : ∀ b, q.pinCountOf b = p.pinCountOf b
  capacity_eq : ∀ s, (q.tiers s).capacity = (p.tiers s).capacity
  used_eq : q.used t = p.used t + n
  minted_eq : q.minted = p.minted + n

theorem run_allocate {p : BlockPool} {n : ℕ} {t : Tier} (hn : (n : ℤ) ≤ p.freeSlots t) :
    (allocate n t.name).run p = .ok (p.freshIds n) (p.addBlocks n t) := by
  have hn' : ¬ (n : ℤ) > (p.tiers t).free := not_lt.2 hn
  simp [allocate, hn', addBlocks]
  rfl

/-- `allocate` hands out fresh ids while the tier has room for them. -/
theorem allocate_ok {p : BlockPool} (h : p.WF) {n : ℕ} {t : Tier} (hn : (n : ℤ) ≤ p.freeSlots t) :
    ∃ q, (allocate n t.name).run p = .ok (p.freshIds n) q ∧ Allocated p n t q := by
  have hpin : ∀ c, (p.addBlocks n t).pinCountOf c = p.pinCountOf c := by
    intro c
    by_cases hc : c ∈ p.freshIds n
    · rw [h.pin_eq_zero (h.fresh_not_live hc), pinCountOf, PyDict.getD, pin_addBlocks, if_pos hc]
      rfl
    · rw [pinCountOf, PyDict.getD, pin_addBlocks, if_neg hc]
      rfl
  have href : ∀ c, (p.addBlocks n t).refCountOf c = p.refCountOf c := by
    intro c
    by_cases hc : c ∈ p.freshIds n
    · rw [h.ref_eq_pin, h.pin_eq_zero (h.fresh_not_live hc), refCountOf, PyDict.getD,
        ref_addBlocks, if_pos hc]
      rfl
    · rw [refCountOf, PyDict.getD, ref_addBlocks, if_neg hc]
      rfl
  refine ⟨p.addBlocks n t, run_allocate hn, (h.accounted.addBlocks hn).wf ?_ ?_,
    tierOf_addBlocks p n t, hpin,
    capacity_addBlocks p n t, h.accounted.used_addBlocks n t, rfl⟩
  · intro c; rw [href, hpin, h.ref_eq_pin]
  · intro c; rw [hpin]; exact h.pin_nonneg c

/-- `allocate` refuses more blocks than the tier has free. -/
theorem allocate_full {p : BlockPool} {n : ℕ} {t : Tier} (hn : p.freeSlots t < n) :
    ∃ msg, (allocate n t.name).run p = .error (.memoryError msg) p := by
  have hn' : (n : ℤ) > (p.tiers t).free := hn
  exact ⟨_, by simp [allocate, hn']; rfl⟩

/-- Allocating nothing changes nothing. -/
theorem Allocated.refl {p : BlockPool} (h : p.WF) (t : Tier) : Allocated p 0 t p :=
  ⟨h, by simp [freshIds], fun _ => rfl, fun _ => rfl, rfl, rfl⟩

theorem Allocated.live_eq {p q : BlockPool} {n : ℕ} {t : Tier} (h : Allocated p n t q)
    (b : BlockId) : q.live b = (decide (b ∈ p.freshIds n) || p.live b) := by
  by_cases hb : b ∈ p.freshIds n <;> simp [live, h.tierOf_eq, hb]

/-! ### Pinning

A pin and an unpin go through the same steps with opposite signs. -/

/-- The pools differ in pins only. -/
structure Repinned (p q : BlockPool) : Prop where
  tierOf_eq : ∀ b, q.tierOf b = p.tierOf b
  tiers_eq : q.tiers = p.tiers
  minted_eq : q.minted = p.minted

theorem Repinned.refl (p : BlockPool) : Repinned p p := ⟨fun _ => rfl, rfl, rfl⟩

theorem Repinned.trans {p q r : BlockPool} (h : Repinned p q) (h' : Repinned q r) : Repinned p r :=
  ⟨fun b => (h'.tierOf_eq b).trans (h.tierOf_eq b), h'.tiers_eq.trans h.tiers_eq,
    h'.minted_eq.trans h.minted_eq⟩

theorem repinned_foldl_repin (δ : ℤ) (ids : List BlockId) (p : BlockPool) :
    Repinned p (ids.foldl (repin δ) p) := by
  induction ids generalizing p with
  | nil => exact .refl p
  | cons b ids ih =>
      have hone : Repinned p (p.repin δ b) := ⟨fun _ => rfl, rfl, rfl⟩
      exact hone.trans (ih _)

theorem counts_repin (δ : ℤ) (p : BlockPool) (b c : BlockId) :
    (p.repin δ b).pinCountOf c = p.pinCountOf c + δ * [b].count c ∧
      (p.repin δ b).refCountOf c = p.refCountOf c + δ * [b].count c := by
  simp only [pinCountOf, refCountOf, PyDict.getD, repin, PyDict.get?_set]
  by_cases hc : c = b
  · simp [hc]
  · simp [hc, Ne.symm hc]

/-- Every block is counted as often as it is named. -/
theorem counts_foldl_repin (δ : ℤ) (ids : List BlockId) (p : BlockPool) {c : BlockId} :
    (ids.foldl (repin δ) p).pinCountOf c = p.pinCountOf c + δ * ids.count c ∧
      (ids.foldl (repin δ) p).refCountOf c = p.refCountOf c + δ * ids.count c := by
  induction ids generalizing p with
  | nil => simp
  | cons b ids ih =>
      have hcount : (b :: ids).count c = [b].count c + ids.count c := by
        rw [← List.count_append, List.singleton_append]
      rw [List.foldl_cons, (ih _).1, (ih _).2, (counts_repin δ p b c).1, (counts_repin δ p b c).2,
        hcount, Nat.cast_add, mul_add, ← add_assoc, ← add_assoc]
      exact ⟨rfl, rfl⟩

theorem Accounted.foldl_repin (δ : ℤ) {ids : List BlockId} {p : BlockPool} (h : p.Accounted)
    (hids : ∀ b ∈ ids, p.live b = true) : (ids.foldl (BlockPool.repin δ) p).Accounted := by
  induction ids generalizing p with
  | nil => exact h
  | cons b ids ih =>
      exact ih (h.repin δ (hids b List.mem_cons_self))
        fun c hc => hids c (List.mem_cons_of_mem _ hc)

/-- Counts that do not become negative leave a consistent pool consistent. -/
theorem WF.foldl_repin {δ : ℤ} {ids : List BlockId} {p : BlockPool} (h : p.WF)
    (hids : ∀ b ∈ ids, p.live b = true)
    (hcounts : ∀ b, 0 ≤ p.pinCountOf b + δ * ids.count b) : (ids.foldl (repin δ) p).WF := by
  refine (h.accounted.foldl_repin δ hids).wf (fun b => ?_) fun b => ?_
  · rw [(counts_foldl_repin δ ids p).1, (counts_foldl_repin δ ids p).2, h.ref_eq_pin]
  · rw [(counts_foldl_repin δ ids p).1]
    exact hcounts b

/-- `q` is `p` with every block pinned once more for each of its occurrences in `ids`. -/
structure Pinned (p : BlockPool) (ids : List BlockId) (q : BlockPool) : Prop where
  wf : q.WF
  tierOf_eq : ∀ b, q.tierOf b = p.tierOf b
  pin_eq : ∀ b, q.pinCountOf b = p.pinCountOf b + ids.count b
  tiers_eq : q.tiers = p.tiers
  minted_eq : q.minted = p.minted

theorem foldl_pinOne_pinned {p : BlockPool} (h : p.WF) {ids : List BlockId}
    (hids : ∀ b ∈ ids, p.live b = true) : Pinned p ids (ids.foldl pinOne p) := by
  have hsame := repinned_foldl_repin 1 ids p
  rw [pinOne_eq_repin]
  refine ⟨h.foldl_repin hids fun b => ?_, hsame.tierOf_eq, fun b => ?_, hsame.tiers_eq,
    hsame.minted_eq⟩
  · have := h.pin_nonneg b
    omega
  · rw [(counts_foldl_repin 1 ids p).1, one_mul]

theorem Pinned.pinned_eq {p q : BlockPool} {ids : List BlockId} (hp : p.WF)
    (h : Pinned p ids q) : q.pinned = fun b => p.pinned b || decide (b ∈ ids) := by
  funext b
  have hnonneg := hp.pin_nonneg b
  have heq := h.pin_eq b
  rw [Bool.eq_iff_iff, Bool.or_eq_true, pinned_iff, pinned_iff, heq,
    decide_eq_true_eq, ← List.count_pos_iff]
  omega

/-- `pin` retains allocated blocks. -/
theorem pin_ok {p : BlockPool} (h : p.WF) {ids : List BlockId} (hids : ∀ b ∈ ids, p.live b = true) :
    ∃ q, (pin ids).run p = .ok () q ∧ Pinned p ids q := by
  have hfind : ids.find? (fun b => !p.blockTier.contains b) = none := by
    rw [List.find?_eq_none]
    intro b hb
    have := hids b hb
    rw [live_iff_mem_keys, ← PyDict.contains_iff] at this
    simp [this]
  exact ⟨ids.foldl pinOne p, by simp [pin, hfind], foldl_pinOne_pinned h hids⟩

/-- `q` is `p` with every block of `ids` pinned once less. -/
structure Unpinned (p : BlockPool) (ids : List BlockId) (q : BlockPool) : Prop where
  wf : q.WF
  tierOf_eq : ∀ b, q.tierOf b = p.tierOf b
  pin_eq : ∀ b, q.pinCountOf b = p.pinCountOf b - ids.count b
  tiers_eq : q.tiers = p.tiers
  minted_eq : q.minted = p.minted

theorem foldl_unpinOne_unpinned {p : BlockPool} (h : p.WF) {ids : List BlockId} (hnd : ids.Nodup)
    (hids : ∀ b ∈ ids, p.pinned b = true) : Unpinned p ids (ids.foldl unpinOne p) := by
  have hsame := repinned_foldl_repin (-1) ids p
  rw [unpinOne_eq_repin]
  refine ⟨h.foldl_repin (fun b hb => h.live_of_pinned (hids b hb)) fun b => ?_, hsame.tierOf_eq,
    fun b => ?_, hsame.tiers_eq, hsame.minted_eq⟩
  · -- distinct ids name a block once, and then it is pinned
    have hnonneg := h.pin_nonneg b
    by_cases hb : b ∈ ids
    · have hpos := pinned_iff.1 (hids b hb)
      rw [List.count_eq_one_of_mem hnd hb]
      omega
    · rw [List.count_eq_zero_of_not_mem hb]
      omega
  · rw [(counts_foldl_repin (-1) ids p).1, neg_one_mul, sub_eq_add_neg]

/-- `unpin` releases pairwise distinct pinned blocks. -/
theorem unpin_ok {p : BlockPool} (h : p.WF) {ids : List BlockId} (hnd : ids.Nodup)
    (hids : ∀ b ∈ ids, p.pinned b = true) :
    ∃ q, (unpin ids).run p = .ok () q ∧ Unpinned p ids q := by
  have hfind : ids.findSome? p.unpinError = none := by
    rw [List.findSome?_eq_none_iff]
    intro b hb
    have hpin := hids b hb
    have hk := live_iff_mem_keys.1 (h.live_of_pinned hpin)
    rw [← PyDict.contains_iff] at hk
    have hpos := pinned_iff.1 hpin
    have hnp : ¬ (p.pinCountOf b ≤ 0 ∨ p.refCountOf b ≤ 0) := by
      rw [h.ref_eq_pin]
      omega
    simp [unpinError, hk, hnp]
  exact ⟨ids.foldl unpinOne p, by simp [unpin, hfind], foldl_unpinOne_unpinned h hnd hids⟩

end BlockPool

end NanoKVRouter
