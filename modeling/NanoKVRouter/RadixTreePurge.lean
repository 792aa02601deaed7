/-
**Removing nodes from the prefix tree.**

Four methods take nodes out of the tree: the zombie collection after a block is freed, the purge of
a path with a freed block, its recursion over a subtree, and the scan for a demotion victim.  Each
is shown to prune the trie, freeing exactly the allocated blocks of what it prunes.

Main definitions:

* `RadixTree.Removed` — a node is gone with its subtree, and nothing else has changed;
* `RadixTree.Detached` — what the recursion over a subtree has done to the tree so far, and
  `RadixTree.Frees` what it has done to the state of the callbacks.

Main results:

* `RadixTree.View.removed` — **removing a subtree prunes the trie**;
* `RadixTree.View.purgeSubtreeAlive_detached` — the recursion detaches everything below a node;
* `RadixTree.purgePath_clean`, `RadixTree.purgePath_dead` — the purge of a path, by its first node
  with a freed block;
* `RadixTree.purgeBlockIds_spec`, `RadixTree.demoteLru_spec` — the collection of a zombie and the
  selection of a victim are runs of evictions.
-/

import NanoKVRouter.CacheState
import NanoKVRouter.RadixTreeShape
import Mathlib.Data.Set.Card
import Mathlib.Tactic.Ring

set_option relaxedAutoImplicit false
set_option autoImplicit false

namespace NanoKVRouter

namespace RadixTree

variable {t : RadixTree} {full : Addr → List Token} {A : PathTrie Token BlockId}

/-! ### Removing a subtree -/

/-- The child `a` of `p` under `tok` is gone with all that is below it; the other nodes differ in
access times only. -/
structure Removed (t : RadixTree) (full : Addr → List Token) (p : Addr) (tok : Token) (a : Addr)
    (t' : RadixTree) : Prop where
  blockSize_eq : t'.blockSize = t.blockSize
  nextAddr_eq : t'.nextAddr = t.nextAddr
  entries_iff : ∀ k x, (k, x) ∈ t'.nodes.entries ↔
    (k, x) ∈ t.nodes.entries ∧ ¬ full a <+: full x
  key_eq : ∀ x, t.Member x → ¬ full a <+: full x → (t'.node x).key = (t.node x).key
  blockIds_eq : ∀ x, t.Member x → ¬ full a <+: full x →
    (t'.node x).blockIds = (t.node x).blockIds
  refCount_eq : ∀ x, t.Member x → ¬ full a <+: full x →
    (t'.node x).refCount = (t.node x).refCount
  parent_eq : ∀ x, t.Member x → ¬ full a <+: full x → (t'.node x).parent = (t.node x).parent
  children_eq : ∀ x, t.Member x → ¬ full a <+: full x → (t'.node x).children =
    if x = p then (t.node p).children.erase tok else (t.node x).children

/-- The root is below no other node. -/
theorem WF.root_not_below (h : t.WF full) {a : Addr} (ha : a ∈ t.nodes.values) :
    ¬ full a <+: full root := by
  rw [h.full_root, List.prefix_nil]
  exact h.full_ne_nil ha

/-- The way into a subtree leads through its root. -/
theorem WF.child_not_below (h : t.WF full) {p a q c : Addr} {tok tok' : Token} (hp : t.Member p)
    (hpa : (t.node p).children.get? tok = some a) (hq : t.Member q) (hnq : ¬ full a <+: full q)
    (hqc : (t.node q).children.get? tok' = some c) (htok : q = p → tok' ≠ tok) :
    ¬ full a <+: full c := by
  obtain ⟨hav, hapar, -⟩ := h.child p tok a hp hpa
  obtain ⟨hcv, hcpar, rest, hckey⟩ := h.child q tok' c hq hqc
  intro hac
  have hca : c ≠ a := by
    rintro rfl
    rw [hcpar, Option.some_inj] at hapar
    subst hapar
    obtain ⟨r, hr₁, -⟩ := h.full_child hp hpa
    rw [hckey, List.cons.injEq] at hr₁
    exact htok rfl hr₁.1
  obtain ⟨r, -, hfc⟩ := h.full_child hq hqc
  have hqc' : full q <+: full c := hfc ▸ List.prefix_append _ _
  rcases le_total (full a).length (full q).length with hle | hle
  · exact hnq (List.prefix_of_prefix_length_le hac hqc' hle)
  · have hqa := List.prefix_of_prefix_length_le hqc' hac hle
    rcases h.exists_child (Or.inr hav) hq hqa with rfl | ⟨tok'', c', hc', hca'⟩
    · exact hnq (List.prefix_refl _)
    · have hcc := h.child_unique hq hc' hqc (hca'.trans hac) (List.prefix_refl _)
      subst hcc
      exact hca (h.full_inj (Or.inr hcv) (Or.inr hav) (hca'.eq_of_length_le hac.length_le))

namespace Removed

variable {t' : RadixTree} {p a : Addr} {tok : Token} (hr : Removed t full p tok a t')
include hr

/-- The index is left with the nodes that are not in the subtree. -/
theorem mem_values_iff (x : Addr) :
    x ∈ t'.nodes.values ↔ x ∈ t.nodes.values ∧ ¬ full a <+: full x := by
  simp only [PyDict.mem_values, hr.entries_iff]
  tauto

section WF

variable (h : t.WF full) (hp : t.Member p) (hpa : (t.node p).children.get? tok = some a)
include h hp hpa

theorem member_iff (x : Addr) : t'.Member x ↔ t.Member x ∧ ¬ full a <+: full x := by
  rw [Member, hr.mem_values_iff, Member]
  constructor
  · rintro (rfl | ⟨hx, hn⟩)
    · exact ⟨Or.inl rfl, h.root_not_below (h.child p tok a hp hpa).1⟩
    · exact ⟨Or.inr hx, hn⟩
  · rintro ⟨hx | hx, hn⟩
    · exact Or.inl hx
    · exact Or.inr ⟨hx, hn⟩

omit hp hpa in
theorem index_head {k : BlockId} {x : Addr} (hkx : (k, x) ∈ t'.nodes.entries) :
    (t'.node x).blockIds.head? = some k := by
  obtain ⟨hkx, hnx⟩ := (hr.entries_iff k x).1 hkx
  rw [hr.blockIds_eq x (Or.inr (PyDict.mem_values.2 ⟨k, hkx⟩)) hnx]
  exact h.index_head k x hkx

omit hp hpa in
theorem length_blockIds {x : Addr} (hx : x ∈ t'.nodes.values) :
    (t'.node x).blockIds.length = t'.nBlocks (t'.node x).key := by
  obtain ⟨hx, hnx⟩ := (hr.mem_values_iff x).1 hx
  rw [nBlocks, hr.blockSize_eq, hr.blockIds_eq x (Or.inr hx) hnx, hr.key_eq x (Or.inr hx) hnx]
  exact h.length_blockIds x hx

theorem parent {x : Addr} (hx : x ∈ t'.nodes.values) :
    ∃ q tok' rest, t'.Member q ∧ (t'.node x).parent = some q ∧ (t'.node x).key = tok' :: rest ∧
      (t'.node q).children.get? tok' = some x ∧ full x = full q ++ (t'.node x).key := by
  obtain ⟨hx, hnx⟩ := (hr.mem_values_iff x).1 hx
  obtain ⟨q, tok', rest, hq, hpar, hkey, hqx, hfull⟩ := h.parent x hx
  have hnq : ¬ full a <+: full q := fun hle =>
    hnx (hle.trans (hfull ▸ List.prefix_append _ _))
  refine ⟨q, tok', rest, (hr.member_iff h hp hpa q).2 ⟨hq, hnq⟩, ?_⟩
  rw [hr.parent_eq x (Or.inr hx) hnx, hr.key_eq x (Or.inr hx) hnx, hr.children_eq q hq hnq]
  refine ⟨hpar, hkey, ?_, hfull⟩
  by_cases hqp : q = p
  · subst hqp
    have htok : tok' ≠ tok := by
      rintro rfl
      rw [hpa, Option.some_inj] at hqx
      exact hnx (hqx ▸ List.prefix_refl _)
    rw [if_pos rfl, PyDict.get?_erase_of_ne _ htok]
    exact hqx
  · rw [if_neg hqp]
    exact hqx

omit h hp hpa in
/-- A child of a node that is left was its child before, and is not the root of the subtree. -/
theorem child_before {q c : Addr} {tok' : Token} (hq : t.Member q) (hnq : ¬ full a <+: full q)
    (hqc : (t'.node q).children.get? tok' = some c) :
    (t.node q).children.get? tok' = some c ∧ (q = p → tok' ≠ tok) := by
  rw [hr.children_eq q hq hnq] at hqc
  by_cases hqp : q = p
  · subst hqp
    rw [if_pos rfl, PyDict.get?_erase] at hqc
    split at hqc
    · cases hqc
    · next htok => exact ⟨hqc, fun _ => htok⟩
  · rw [if_neg hqp] at hqc
    exact ⟨hqc, fun he => absurd he hqp⟩

theorem child {q c : Addr} {tok' : Token} (hq : t'.Member q)
    (hqc : (t'.node q).children.get? tok' = some c) :
    c ∈ t'.nodes.values ∧ (t'.node c).parent = some q ∧
      ∃ rest, (t'.node c).key = tok' :: rest := by
  obtain ⟨hq, hnq⟩ := (hr.member_iff h hp hpa q).1 hq
  obtain ⟨hqc, htok⟩ := hr.child_before hq hnq hqc
  obtain ⟨hcv, hcpar, hckey⟩ := h.child q tok' c hq hqc
  have hnc := h.child_not_below hp hpa hq hnq hqc htok
  rw [hr.parent_eq c (Or.inr hcv) hnc, hr.key_eq c (Or.inr hcv) hnc]
  exact ⟨(hr.mem_values_iff c).2 ⟨hcv, hnc⟩, hcpar, hckey⟩

end WF

/-- The trie has lost the nodes of the subtree. -/
theorem eq_some_iff (h : t.View full A) (l : List Token) (bs : List BlockId) :
    A.prune (full a) l = some bs ↔
      ∃ x ∈ t'.nodes.values, full x = l ∧ (t'.node x).blockIds = bs := by
  by_cases hl : full a <+: l
  · rw [PathTrie.prune_of_prefix _ hl]
    constructor
    · intro hn
      cases hn
    · rintro ⟨x, hx, rfl, -⟩
      exact absurd hl ((hr.mem_values_iff x).1 hx).2
  · rw [PathTrie.prune_of_not_isPrefix _ hl, h.eq_some_iff]
    constructor
    · rintro ⟨x, hx, rfl, hbs⟩
      refine ⟨x, (hr.mem_values_iff x).2 ⟨hx, hl⟩, rfl, ?_⟩
      rw [hr.blockIds_eq x (Or.inr hx) hl, hbs]
    · rintro ⟨x, hx, rfl, hbs⟩
      obtain ⟨hx, hnx⟩ := (hr.mem_values_iff x).1 hx
      rw [hr.blockIds_eq x (Or.inr hx) hnx] at hbs
      exact ⟨x, hx, rfl, hbs⟩

end Removed

/-- **Removing a subtree prunes the trie.** -/
theorem View.removed {t' : RadixTree} (h : t.View full A) {p a : Addr} {tok : Token}
    (hp : t.Member p) (hpa : (t.node p).children.get? tok = some a)
    (hr : Removed t full p tok a t') : t'.View full (A.prune (full a)) where
  wf :=
    { blockSize_pos := hr.blockSize_eq ▸ h.wf.blockSize_pos
      full_root := h.wf.full_root
      root_blockIds := by
        rw [hr.blockIds_eq root t.member_root
          (h.wf.root_not_below (h.wf.child p tok a hp hpa).1)]
        exact h.wf.root_blockIds
      index_head := fun _ _ => hr.index_head h.wf
      lt_nextAddr := fun x hx =>
        hr.nextAddr_eq ▸ h.wf.lt_nextAddr x ((hr.member_iff h.wf hp hpa x).1 hx).1
      length_blockIds := fun _ => hr.length_blockIds h.wf
      refCount_zero := fun x hx => by
        obtain ⟨hx, hnx⟩ := (hr.member_iff h.wf hp hpa x).1 hx
        rw [hr.refCount_eq x hx hnx]
        exact h.wf.refCount_zero x hx
      parent := fun _ => hr.parent h.wf hp hpa
      child := fun _ _ _ => hr.child h.wf hp hpa }
  eq_some_iff := hr.eq_some_iff h

/-! ### Removing a leaf -/

/-- A node is a leaf of the trie iff it has no children. -/
theorem View.isLeaf_iff (h : t.View full A) (p : BlockPool) {a : Addr} (ha : a ∈ t.nodes.values) :
    CacheState.IsLeaf ⟨A, p⟩ (full a) ↔ (t.node a).children.entries = [] := by
  constructor
  · intro hleaf
    refine List.eq_nil_iff_forall_not_mem.2 fun e he => ?_
    have hc := PyDict.get?_eq_some_iff.2 he
    obtain ⟨r, -, hfull⟩ := h.wf.full_child (Or.inr ha) hc
    have hnone := hleaf (full e.2) (hfull ▸ List.prefix_append _ _) (by
      rw [hfull]
      intro heq
      have := congrArg List.length heq
      simp at this)
    have hsome := h.apply_full (h.wf.child a e.1 e.2 (Or.inr ha) hc).1
    change A (full e.2) = none at hnone
    rw [hnone] at hsome
    simp at hsome
  · intro hnil w hw hne
    by_contra hnode
    obtain ⟨x, hx, rfl⟩ := h.exists_addr (Option.isSome_iff_ne_none.2 hnode)
    rcases h.wf.exists_child (Or.inr hx) (Or.inr ha) hw with rfl | ⟨tok, c, hc, -⟩
    · exact hne rfl
    · have := PyDict.get?_eq_some_iff.1 hc
      rw [hnil] at this
      simp at this

/-- The tree without the leaf `a`. -/
def withoutLeaf (t : RadixTree) (p : Addr) (tok : Token) (a : Addr) (b : BlockId) : RadixTree :=
  ((t.dropChild p tok).orphan a).unindex b

/-- The other nodes are as they were, but that the parent has let go of the leaf. -/
theorem node_withoutLeaf (t : RadixTree) (p : Addr) (tok : Token) {a x : Addr} (b : BlockId)
    (hxa : x ≠ a) : (t.withoutLeaf p tok a b).node x =
      { t.node x with children := if x = p then (t.node p).children.erase tok
        else (t.node x).children } := by
  by_cases hxp : x = p
  · subst hxp
    simp [RadixTree.withoutLeaf, unindex, orphan, dropChild, modifyNode, Function.update_of_ne hxa]
  · simp [RadixTree.withoutLeaf, unindex, orphan, dropChild, modifyNode, Function.update_of_ne hxa,
      hxp]

/-- Nothing lies below a leaf. -/
theorem View.below_leaf_iff (h : t.View full A) {a x : Addr} (ha : a ∈ t.nodes.values)
    (hleaf : (t.node a).children.entries = []) (hx : t.Member x) :
    full a <+: full x ↔ x = a := by
  constructor
  · intro hax
    rcases h.wf.exists_child hx (Or.inr ha) hax with heq | ⟨tok, c, hc, -⟩
    · exact heq.symm
    · have hmem := PyDict.get?_eq_some_iff.1 hc
      rw [hleaf] at hmem
      simp at hmem
  · rintro rfl
    exact List.prefix_refl _

theorem View.removed_withoutLeaf (h : t.View full A) {p a : Addr} {b : BlockId} (tok : Token)
    (hleaf : (t.node a).children.entries = []) (hb : (b, a) ∈ t.nodes.entries) :
    Removed t full p tok a (t.withoutLeaf p tok a b) := by
  have hav := PyDict.mem_values.2 ⟨b, hb⟩
  have hnode : ∀ x, t.Member x → ¬ full a <+: full x → (t.withoutLeaf p tok a b).node x =
      { t.node x with children := if x = p then (t.node p).children.erase tok
        else (t.node x).children } := fun x _ hax =>
    t.node_withoutLeaf p tok b fun heq => hax (heq ▸ List.prefix_refl _)
  refine ⟨rfl, rfl, ?_, ?_, ?_, ?_, ?_, ?_⟩
  · intro k x
    have herase : (t.withoutLeaf p tok a b).nodes = t.nodes.erase b := rfl
    rw [herase, PyDict.mem_entries_erase, and_comm]
    refine and_congr_right fun hkx => ?_
    rw [h.below_leaf_iff hav hleaf (Or.inr (PyDict.mem_values.2 ⟨k, hkx⟩))]
    constructor
    · rintro hk rfl
      have hhead := h.wf.index_head _ _ hkx
      rw [h.wf.index_head _ _ hb, Option.some_inj] at hhead
      exact hk hhead.symm
    · rintro hxa rfl
      exact hxa (PyDict.eq_of_mem_entries hkx hb)
  · intro x hx hax
    rw [hnode x hx hax]
  · intro x hx hax
    rw [hnode x hx hax]
  · intro x hx hax
    rw [hnode x hx hax]
  · intro x hx hax
    rw [hnode x hx hax]
  · intro x hx hax
    rw [hnode x hx hax]

theorem View.withoutLeaf (h : t.View full A) {p a : Addr} {tok : Token} {b : BlockId}
    (hp : t.Member p) (hpa : (t.node p).children.get? tok = some a)
    (hleaf : (t.node a).children.entries = []) (hb : (b, a) ∈ t.nodes.entries) :
    (t.withoutLeaf p tok a b).View full (A.prune (full a)) :=
  h.removed hp hpa (h.removed_withoutLeaf tok hleaf hb)

/-! ### Collecting a zombie -/

theorem run_purgeOne_skip {b : BlockId} {tierOf : BlockId → Option Tier} {a : Addr}
    (hb : b ∉ (t.node a).blockIds) : (purgeOne [b] tierOf a).run t = .ok 0 t := by
  have hany : (t.node a).blockIds.any ([b].contains ·) = false := by
    rw [List.any_eq_false]
    intro x hx
    simp only [List.contains_eq_mem, List.mem_singleton, decide_eq_true_eq]
    rintro rfl
    exact hb hx
  by_cases hc : (t.node a).children.entries ≠ [] ∨ (t.node a).refCount > 0
  · simp [purgeOne, hc]
  · simp only [purgeOne, EStateM.run_bind, EStateM.run_get, hc, if_false, hany]
    rfl

/-- A turn of the collection drops a leaf all of whose blocks are freed, and nothing else. -/
theorem View.run_purgeOne (h : t.View full A) {b : BlockId} (tierOf : BlockId → Option Tier)
    {a : Addr} (ha : a ∈ t.nodes.values) (hb : b ∈ (t.node a).blockIds) :
    ((purgeOne [b] tierOf a).run t = .ok 0 t ∧
        ((t.node a).children.entries = [] → ∃ x ∈ (t.node a).blockIds, (tierOf x).isSome)) ∨
      ((t.node a).children.entries = [] ∧ (∀ x ∈ (t.node a).blockIds, tierOf x = none) ∧
        ∃ n t', (purgeOne [b] tierOf a).run t = .ok n t' ∧ t'.View full (A.prune (full a)) ∧
          t'.blockSize = t.blockSize ∧
          ∀ x, x ∈ t.nodes.values → x ≠ a → (t'.node x).blockIds = (t.node x).blockIds) := by
  have href : ¬ (t.node a).refCount > 0 := by
    rw [h.wf.refCount_zero a (Or.inr ha)]
    decide
  have hany : (t.node a).blockIds.any ([b].contains ·) = true := by
    rw [List.any_eq_true]
    exact ⟨b, hb, by simp⟩
  by_cases hleaf : (t.node a).children.entries = []
  swap
  · left
    refine ⟨?_, fun hnil => absurd hnil hleaf⟩
    simp [purgeOne, hleaf]
  -- a leaf with a live block stays as well
  by_cases hlive : (t.node a).blockIds.any (fun x => (tierOf x).isSome) = true
  · left
    refine ⟨?_, fun _ => List.any_eq_true.1 hlive⟩
    simp only [purgeOne, EStateM.run_bind, EStateM.run_get, hleaf, ne_eq, not_true_eq_false,
      href, or_self, if_false, hany, hlive, if_true]
    rfl
  right
  have hdead : ∀ x ∈ (t.node a).blockIds, tierOf x = none := by
    intro x hx
    by_contra hne
    exact hlive (List.any_eq_true.2 ⟨x, hx, Option.isSome_iff_ne_none.2 hne⟩)
  obtain ⟨p, tok, rest, hp, hpar, hkey, hpa, -⟩ := h.wf.parent a ha
  obtain ⟨b₀, bs, hb₀, hent⟩ := h.wf.exists_head ha
  refine ⟨hleaf, hdead, 1, t.withoutLeaf p tok a b₀, ?_, h.withoutLeaf hp hpa hleaf hent, rfl, ?_⟩
  · rw [hb₀] at hany hlive
    simp only [purgeOne, EStateM.run_bind, EStateM.run_get, hleaf, ne_eq, not_true_eq_false,
      href, or_self, if_false, hb₀, hany, hlive, hpar, hkey, Option.isSome_some, if_true,
      Bool.false_eq_true, run_item0_cons, EStateM.run_modify, EStateM.run_pure]
    simp only [unlink, hpar, RadixTree.withoutLeaf]
  · intro x _ hxa
    rw [t.node_withoutLeaf p tok b₀ hxa]

/-- The turns of the collection that find nothing to do. -/
theorem run_purge_skip {b : BlockId} (tierOf : BlockId → Option Tier) (as : List Addr)
    (has : ∀ a ∈ as, b ∉ (t.node a).blockIds) (n : ℕ) :
    (as.foldlM (fun purged a => do pure (purged + (← purgeOne [b] tierOf a))) n :
      Py RadixTree ℕ).run t = .ok n t := by
  induction as generalizing n with
  | nil => rfl
  | cons a as ih =>
      rw [List.foldlM_cons, EStateM.run_bind, EStateM.run_bind,
        run_purgeOne_skip (has a List.mem_cons_self)]
      exact ih (fun x hx => has x (List.mem_cons_of_mem _ hx)) _

/-- The nodes of the tree before and after one of them are others. -/
theorem View.exists_around (h : t.View full A) {a : Addr} (ha : a ∈ t.nodes.values) :
    ∃ pre post, t.nodes.values = pre ++ a :: post ∧
      (∀ x ∈ pre, x ∈ t.nodes.values ∧ x ≠ a) ∧ ∀ x ∈ post, x ∈ t.nodes.values ∧ x ≠ a := by
  obtain ⟨pre, post, hsplit⟩ := List.append_of_mem ha
  have hnd := h.wf.values_nodup
  rw [hsplit] at hnd ⊢
  obtain ⟨-, hpost, hapart⟩ := List.nodup_append.1 hnd
  refine ⟨pre, post, rfl, fun x hx => ⟨List.mem_append_left _ hx, ?_⟩, fun x hx =>
    ⟨List.mem_append_right _ (List.mem_cons_of_mem _ hx), ?_⟩⟩
  · rintro rfl
    exact hapart x hx x List.mem_cons_self rfl
  · rintro rfl
    exact (List.nodup_cons.1 hpost).1 hx

/-- **Collecting the zombie of a freed block**: its node is dropped, if it is a leaf and all its
blocks are freed. -/
theorem purgeBlockIds_spec {bs : ℕ} {s : CacheState} (h : t.Repr bs s.trie) (hi : s.Inv)
    {l : List Token} {b : BlockId} (hb : b ∈ s.trie.items l) :
    ∃ n t' s', (purgeBlockIds [b] s.pool.tierOf).run t = .ok n t' ∧ t'.Repr bs s'.trie ∧
      s'.pool = s.pool ∧ CacheState.Evicts s s' ∧
      (s' = s ∧ (s.IsLeaf l → ∃ x ∈ s.trie.items l, s.pool.live x = true) ∨
        s'.trie = s.trie.prune l ∧ ∀ x ∈ s.trie.items l, s.pool.live x = false) := by
  obtain ⟨rfl, full, hv⟩ := h
  obtain ⟨ids, hids, hbids⟩ := PathTrie.exists_of_mem_items hb
  obtain ⟨a, ha, rfl, rfl⟩ := (hv.eq_some_iff _ _).1 hids
  have hother : ∀ x ∈ t.nodes.values, x ≠ a → b ∉ (t.node x).blockIds := by
    intro x hx hxa hbx
    refine hxa (hv.wf.full_inj (Or.inr hx) (Or.inr ha) ?_)
    refine hi.distinct.unique _ _ b ?_ hb
    rwa [hv.items_full hx]
  obtain ⟨pre, post, hsplit, hpre, hpost⟩ := hv.exists_around ha
  have hrun : (purgeBlockIds [b] s.pool.tierOf).run t =
      ((pre ++ a :: post).foldlM (fun purged a => do
        pure (purged + (← purgeOne [b] s.pool.tierOf a))) 0 : Py RadixTree ℕ).run t := by
    simp only [purgeBlockIds, List.cons_ne_nil, if_false, EStateM.run_bind, EStateM.run_get]
    rw [← hsplit]
  -- only the turn of the node that holds the block does something
  rw [hrun, List.foldlM_append, EStateM.run_bind,
    run_purge_skip s.pool.tierOf pre fun x hx => hother x (hpre x hx).1 (hpre x hx).2]
  simp only [List.foldlM_cons, EStateM.run_bind]
  rcases hv.run_purgeOne s.pool.tierOf ha hbids with ⟨h0, hlive⟩ | ⟨hleaf, hdead, n, t', hrun',
    hv', hbs, hsame⟩
  · refine ⟨0, t, s, ?_, ⟨rfl, full, hv⟩, rfl, .refl, Or.inl ⟨rfl, fun hleaf => ?_⟩⟩
    swap
    · rw [hv.items_full ha]
      exact hlive ((hv.isLeaf_iff s.pool ha).1 hleaf)
    rw [h0]
    exact run_purge_skip s.pool.tierOf post (fun x hx => hother x (hpost x hx).1 (hpost x hx).2) 0
  · have hdead' : ∀ x ∈ s.trie.items (full a), s.pool.live x = false := by
      intro x hx
      rw [hv.items_full ha] at hx
      rw [BlockPool.live_eq_false_iff]
      exact hdead x hx
    have hisSome : (s.trie (full a)).isSome := by
      rw [hv.apply_full ha]
      rfl
    refine ⟨n, t', ⟨s.trie.prune (full a), s.pool⟩, ?_, ⟨hbs, full, hv'⟩, rfl,
      .single (.dropDead hi hisSome ((hv.isLeaf_iff s.pool ha).2 hleaf) hdead'),
      Or.inr ⟨rfl, hdead'⟩⟩
    rw [hrun']
    have hskip := run_purge_skip (t := t') (b := b) s.pool.tierOf post (by
      intro x hx
      rw [hsame x (hpost x hx).1 (hpost x hx).2]
      exact hother x (hpost x hx).1 (hpost x hx).2) n
    simpa using hskip

/-! ### The nodes of a subtree -/

/-- There are fewer nodes at or below a child. -/
theorem View.length_below_child_lt (h : t.View full A) {r c : Addr} {tok : Token}
    (hr : r ∈ t.nodes.values) (hc : (t.node r).children.get? tok = some c) :
    (t.nodes.values.filter fun x => full c <+: full x).length <
      (t.nodes.values.filter fun x => full r <+: full x).length := by
  obtain ⟨s, -, hs⟩ := h.wf.full_child (Or.inr hr) hc
  have hrc : full r <+: full c := hs ▸ List.prefix_append _ _
  have hnotin : r ∉ t.nodes.values.filter fun x => full c <+: full x := by
    intro hmem
    have hpre : full c <+: full r := by simpa using (List.mem_filter.1 hmem).2
    have hlen := hpre.length_le
    rw [hs, List.length_append, List.length_cons] at hlen
    omega
  have hsub : r :: (t.nodes.values.filter fun x => full c <+: full x) ⊆
      t.nodes.values.filter fun x => full r <+: full x := by
    intro x hx
    rcases List.mem_cons.1 hx with rfl | hx
    · exact List.mem_filter.2 ⟨hr, by simp⟩
    · obtain ⟨hxv, hx⟩ := List.mem_filter.1 hx
      refine List.mem_filter.2 ⟨hxv, ?_⟩
      simpa using hrc.trans (by simpa using hx)
  have hle := (List.subperm_of_subset
    (List.nodup_cons.2 ⟨hnotin, h.wf.values_nodup.filter _⟩) hsub).length_le
  rwa [List.length_cons] at hle

/-- The addresses bound the number of nodes at or below one. -/
theorem View.length_below_le (h : t.View full A) (r : Addr) :
    (t.nodes.values.filter fun x => full r <+: full x).length ≤ t.nextAddr := by
  have hsub : (t.nodes.values.filter fun x => full r <+: full x) ⊆ List.range t.nextAddr := by
    intro x hx
    exact List.mem_range.2 (h.wf.lt_nextAddr x (Or.inr (List.mem_of_mem_filter hx)))
  have hle := (List.subperm_of_subset (h.wf.values_nodup.filter _) hsub).length_le
  rwa [List.length_range] at hle

/-! ### Detaching a subtree -/

/-- From `t` on, the nodes of `S`, a set of nodes of the tree `t₀`, have been taken out of the
index; nodes outside `S` are as they were. -/
structure Detached (t₀ : RadixTree) (S : Addr → Prop) (t t' : RadixTree) : Prop where
  blockSize_eq : t'.blockSize = t.blockSize
  nextAddr_eq : t'.nextAddr = t.nextAddr
  entries_iff : ∀ k x, (k, x) ∈ t'.nodes.entries ↔
    (k, x) ∈ t.nodes.entries ∧ ∀ d, S d → (k, d) ∉ t₀.nodes.entries
  node_eq : ∀ x, ¬ S x → t'.node x = t.node x

namespace Detached

variable {t₀ t' u : RadixTree} {S S' : Addr → Prop}

theorem refl (t₀ t : RadixTree) : Detached t₀ (fun _ => False) t t :=
  ⟨rfl, rfl, by simp, fun _ _ => rfl⟩

theorem congr (h : Detached t₀ S t t') (hS : ∀ x, S x ↔ S' x) : Detached t₀ S' t t' := by
  have : S = S' := funext fun x => propext (hS x)
  exact this ▸ h

/-- A change of a detached node does not count. -/
theorem modifyNode (h : Detached t₀ S t t') {a : Addr} (ha : S a) (f : RadixNode → RadixNode) :
    Detached t₀ S t (t'.modifyNode a f) := by
  refine ⟨h.blockSize_eq, h.nextAddr_eq, h.entries_iff, fun x hx => ?_⟩
  rw [node_modifyNode_of_ne]
  · exact h.node_eq x hx
  · rintro rfl
    exact hx ha

theorem trans (h : Detached t₀ S t t') (h' : Detached t₀ S' t' u) :
    Detached t₀ (fun x => S x ∨ S' x) t u := by
  refine ⟨h'.blockSize_eq.trans h.blockSize_eq, h'.nextAddr_eq.trans h.nextAddr_eq, ?_, ?_⟩
  · intro k x
    rw [h'.entries_iff, h.entries_iff, and_assoc]
    refine and_congr_right fun _ => ⟨?_, ?_⟩
    · rintro ⟨h1, h2⟩ d (hd | hd)
      · exact h1 d hd
      · exact h2 d hd
    · exact fun h1 => ⟨fun d hd => h1 d (Or.inl hd), fun d hd => h1 d (Or.inr hd)⟩
  · intro x hx
    rw [h'.node_eq x fun hs => hx (Or.inr hs), h.node_eq x fun hs => hx (Or.inl hs)]

end Detached

/-- `x` is `r` or lies below it. -/
def Sub (t₀ : RadixTree) (full : Addr → List Token) (r x : Addr) : Prop :=
  x ∈ t₀.nodes.values ∧ full r <+: full x

/-- A node counts among the nodes at or below it. -/
theorem sub_cases (t₀ : RadixTree) {r : Addr} (hr : t₀.Sub full r r) (x : Addr) :
    x = r ∨ t₀.Sub full r x ∧ x ≠ r ↔ t₀.Sub full r x := by
  constructor
  · rintro (rfl | ⟨hx, -⟩)
    · exact hr
    · exact hx
  · intro hx
    by_cases hxr : x = r
    · exact Or.inl hxr
    · exact Or.inr ⟨hx, hxr⟩

theorem encard_sub (t₀ : RadixTree) {r : Addr} (hr : t₀.Sub full r r) :
    {x | t₀.Sub full r x}.encard = {x | t₀.Sub full r x ∧ x ≠ r}.encard + 1 := by
  have hinsert : {x | t₀.Sub full r x} = Insert.insert r {x | t₀.Sub full r x ∧ x ≠ r} := by
    ext x
    exact (t₀.sub_cases hr x).symm
  rw [hinsert, Set.encard_insert_of_notMem fun hmem => hmem.2 rfl]

theorem node_unindexNode (t : RadixTree) (c : Addr) : (t.unindexNode c).node = t.node := by
  rw [unindexNode]
  split <;> rfl

/-- Taking a node out of the index detaches it. -/
theorem detached_one {t₀ : RadixTree} (h : t₀.View full A) {c : Addr}
    (hc : c ∈ t₀.nodes.values) (hsame : (t.node c).blockIds = (t₀.node c).blockIds) :
    Detached t₀ (fun x => x = c) t ((t.unindexNode c).orphan c) := by
  obtain ⟨b, bs, hb, hent⟩ := h.wf.exists_head hc
  have hun : t.unindexNode c = t.unindex b := by
    rw [unindexNode, hsame, hb]
  rw [hun]
  refine ⟨rfl, rfl, ?_, fun x hx => node_modifyNode_of_ne _ _ hx⟩
  intro k x
  have herase : ((t.unindex b).orphan c).nodes = t.nodes.erase b := rfl
  rw [herase, PyDict.mem_entries_erase, and_comm]
  refine and_congr_right fun _ => ⟨?_, ?_⟩
  · rintro hk d rfl hkd
    have h1 := h.wf.index_head _ _ hkd
    rw [h.wf.index_head _ _ hent, Option.some_inj] at h1
    exact hk h1.symm
  · rintro h1 rfl
    exact h1 c rfl hent

/-- Taking a node out of the index leaves blocks and children alone. -/
theorem links_detached_one (t : RadixTree) (c x : Addr) :
    (((t.unindexNode c).orphan c).node x).blockIds = (t.node x).blockIds ∧
      (((t.unindexNode c).orphan c).node x).children = (t.node x).children := by
  by_cases hxc : x = c
  · subst hxc
    simp [orphan, node_unindexNode]
  · rw [orphan, node_modifyNode_of_ne _ _ hxc, node_unindexNode]
    exact ⟨rfl, rfl⟩

/-- The callbacks' state goes from `p` to `q` while the blocks of the nodes of `S` are freed, each
node as `R` says. -/
inductive Frees {π : Type} (R : Addr → π → π → Prop) : (Addr → Prop) → π → π → Prop
  | none (p : π) : Frees R (fun _ => False) p p
  | one {S : Addr → Prop} {p q r : π} {c : Addr} (h : Frees R S p q) (hc : R c q r) :
      Frees R (fun x => S x ∨ x = c) p r

namespace Frees

variable {π : Type} {R : Addr → π → π → Prop} {S S' : Addr → Prop} {p q r : π}

theorem congr (h : Frees R S p q) (hS : ∀ x, S x ↔ S' x) : Frees R S' p q := by
  have : S = S' := funext fun x => propext (hS x)
  exact this ▸ h

theorem single {c : Addr} (hc : R c p q) : Frees R (fun x => x = c) p q :=
  (Frees.one (.none p) hc).congr (by simp)

theorem trans (h : Frees R S p q) (h' : Frees R S' q r) : Frees R (fun x => S x ∨ S' x) p r := by
  induction h' with
  | none q => exact h.congr (by simp)
  | one _ hc ih => exact (Frees.one (ih h) hc).congr fun x => by simp only [or_assoc]

/-- What every turn keeps, the whole keeps. -/
theorem keeps {P : π → Prop} (hP : ∀ c p q, R c p q → P p → P q) (h : Frees R S p q) (hp : P p) :
    P q := by
  induction h with
  | none => exact hp
  | one _ hc ih => exact hP _ _ _ hc (ih hp)

end Frees

section Detach

variable {π : Type} {tierOf : π → BlockId → Option Tier} {freeBlocks : List BlockId → Py π Unit}
  {R : Addr → π → π → Prop} {I : π → Prop} {D : Addr → Prop} {t₀ : RadixTree}

/-- The turns of the recursion over the children `cs` of a node, given what a turn does. -/
theorem foldl_children_detached (h : t₀.View full A)
    (hfree : ∀ c, c ∈ t₀.nodes.values → D c → ∀ (t : RadixTree) (p : π), I p →
      (t.node c).blockIds = (t₀.node c).blockIds →
      ∃ q, (freeAlive tierOf freeBlocks c).run (t, p) = .ok () (t, q) ∧ R c p q ∧ I q)
    {fuel : ℕ} {r : Addr} (hr : t₀.Member r)
    (ih : ∀ c ∈ t₀.nodes.values, (∃ tok, (t₀.node r).children.get? tok = some c) →
      ∀ (t : RadixTree) (p : π), I p →
        (∀ x, t₀.Sub full c x → D x ∧ (t.node x).blockIds = (t₀.node x).blockIds ∧
          (t.node x).children = (t₀.node x).children) →
        ∃ n t' q, (purgeSubtreeAlive tierOf freeBlocks fuel c).run (t, p) =
            .ok n (t'.modifyNode c fun n => { n with children := PyDict.empty }, q) ∧
          Detached t₀ (fun x => t₀.Sub full c x ∧ x ≠ c) t t' ∧
          Frees R (fun x => t₀.Sub full c x ∧ x ≠ c) p q ∧ I q ∧
          {x | t₀.Sub full c x ∧ x ≠ c}.encard = n) :
    ∀ (cs : List Addr) (acc : ℕ) (t : RadixTree) (p : π), cs.Nodup →
      (∀ c ∈ cs, ∃ tok, (t₀.node r).children.get? tok = some c) → I p →
      (∀ c ∈ cs, ∀ x, t₀.Sub full c x → D x ∧ (t.node x).blockIds = (t₀.node x).blockIds ∧
        (t.node x).children = (t₀.node x).children) →
      ∃ n t' q, (cs.foldlM (fun purged child => do
            freeAlive tierOf freeBlocks child
            modifyTree fun t => t.unindexNode child
            modifyTree fun t => t.orphan child
            let below ← purgeSubtreeAlive tierOf freeBlocks fuel child
            pure (purged + 1 + below)) acc : Py (RadixTree × π) ℕ).run (t, p) =
          .ok n (t', q) ∧
        Detached t₀ (fun x => ∃ c ∈ cs, t₀.Sub full c x) t t' ∧
        Frees R (fun x => ∃ c ∈ cs, t₀.Sub full c x) p q ∧ I q ∧
        acc + {x | ∃ c ∈ cs, t₀.Sub full c x}.encard = n := by
  intro cs
  induction cs with
  | nil =>
      intro acc t p _ _ hp _
      exact ⟨acc, t, p, rfl, (Detached.refl t₀ t).congr (by simp),
        (Frees.none p).congr (by simp), hp, by simp⟩
  | cons c cs ih' =>
      intro acc t p hcs hchild hp hsame
      obtain ⟨hc, hcs'⟩ := List.nodup_cons.1 hcs
      obtain ⟨tok, htok⟩ := hchild c List.mem_cons_self
      have hcv := (h.wf.child r tok c hr htok).1
      have hself : t₀.Sub full c c := ⟨hcv, List.prefix_refl _⟩
      obtain ⟨hD, hblocks, -⟩ := hsame c List.mem_cons_self c hself
      obtain ⟨q₁, hrun₁, hfree₁, hq₁⟩ := hfree c hcv hD t p hp hblocks
      have hdet₁ := detached_one h hcv hblocks
      -- what has been done to `c` leaves the links of its subtree alone
      have hsame₁ : ∀ x, t₀.Sub full c x →
          D x ∧ (((t.unindexNode c).orphan c).node x).blockIds = (t₀.node x).blockIds ∧
          (((t.unindexNode c).orphan c).node x).children = (t₀.node x).children := by
        intro x hx
        rw [(links_detached_one t c x).1, (links_detached_one t c x).2]
        exact hsame c List.mem_cons_self x hx
      obtain ⟨n₂, t₂, q₂, hrun₂, hdet₂, hfree₂, hq₂, hcount₂⟩ :=
        ih c hcv ⟨tok, htok⟩ _ q₁ hq₁ hsame₁
      have hsub := t₀.sub_cases hself
      have hdet : Detached t₀ (t₀.Sub full c) t
          (t₂.modifyNode c fun n => { n with children := PyDict.empty }) :=
        ((hdet₁.trans hdet₂).modifyNode (Or.inl rfl) _).congr hsub
      have hfree : Frees R (t₀.Sub full c) p q₂ := ((Frees.single hfree₁).trans hfree₂).congr hsub
      have hdisj : ∀ c' ∈ cs, ∀ x, t₀.Sub full c' x → ¬ t₀.Sub full c x := by
        intro c' hc' x hx hx'
        obtain ⟨tok', htok'⟩ := hchild c' (List.mem_cons_of_mem _ hc')
        obtain rfl := h.wf.child_unique hr htok htok' hx'.2 hx.2
        exact hc hc'
      obtain ⟨n, t', q, hrun, hdet', hfree', hq, hcount⟩ := ih' (acc + 1 + n₂) _ q₂ hcs'
        (fun c' hc' => hchild c' (List.mem_cons_of_mem _ hc')) hq₂
        (fun c' hc' x hx => by
          rw [hdet.node_eq x (hdisj c' hc' x hx)]
          exact hsame c' (List.mem_cons_of_mem _ hc') x hx)
      refine ⟨n, t', q, ?_, (hdet.trans hdet').congr (by simp), (hfree.trans hfree').congr (by simp),
        hq, ?_⟩
      · rw [List.foldlM_cons, EStateM.run_bind]
        simp only [EStateM.run_bind, hrun₁, run_modifyTree, hrun₂, EStateM.run_pure]
        exact hrun
      · have hsplit : {x | ∃ c' ∈ c :: cs, t₀.Sub full c' x} =
            {x | t₀.Sub full c x} ∪ {x | ∃ c' ∈ cs, t₀.Sub full c' x} := by
          ext x
          simp
        have hapart : Disjoint {x | t₀.Sub full c x} {x | ∃ c' ∈ cs, t₀.Sub full c' x} :=
          Set.disjoint_left.2 fun x hx ⟨c', hc', hx'⟩ => hdisj c' hc' x hx' hx
        rw [hsplit, Set.encard_union_eq hapart, t₀.encard_sub hself, hcount₂, ← hcount]
        push_cast
        ring

/-- No node is listed twice among the children of another. -/
theorem View.nodup_children_values (h : t₀.View full A) {r : Addr} (hr : t₀.Member r) :
    (t₀.node r).children.values.Nodup := by
  refine List.Nodup.map_on ?_ (List.Nodup.of_map _ (t₀.node r).children.nodup_keys)
  rintro ⟨k, c⟩ hk ⟨k', c'⟩ hk' heq
  obtain rfl : c = c' := heq
  -- the key of the node begins with both tokens
  obtain ⟨-, -, s, hs⟩ := h.wf.child r k c hr (PyDict.get?_eq_some_iff.2 hk)
  obtain ⟨-, -, s', hs'⟩ := h.wf.child r k' c hr (PyDict.get?_eq_some_iff.2 hk')
  rw [hs, List.cons.injEq] at hs'
  rw [hs'.1]

/-- The subtrees of the children are what lies below the node. -/
theorem View.sub_child_iff (h : t₀.View full A) {r : Addr} (hr : t₀.Member r) (x : Addr) :
    (∃ c ∈ (t₀.node r).children.values, t₀.Sub full c x) ↔ t₀.Sub full r x ∧ x ≠ r := by
  constructor
  · rintro ⟨c, hc, hx⟩
    obtain ⟨tok, htok⟩ := PyDict.mem_values.1 hc
    obtain ⟨s, -, hs⟩ := h.wf.full_child hr (PyDict.get?_eq_some_iff.2 htok)
    refine ⟨⟨hx.1, (hs ▸ List.prefix_append _ _ : full r <+: full c).trans hx.2⟩, ?_⟩
    rintro rfl
    have hle := hx.2.length_le
    rw [hs, List.length_append, List.length_cons] at hle
    omega
  · rintro ⟨⟨hxv, hx⟩, hxr⟩
    rcases h.wf.exists_child (Or.inr hxv) hr hx with heq | ⟨tok, c, hc, hcx⟩
    · exact absurd heq.symm hxr
    · exact ⟨c, PyDict.mem_values_of_get? hc, hxv, hcx⟩

/-- **The recursion detaches everything below a node.** -/
theorem View.purgeSubtreeAlive_detached (h : t₀.View full A)
    (hfree : ∀ c, c ∈ t₀.nodes.values → D c → ∀ (t : RadixTree) (p : π), I p →
      (t.node c).blockIds = (t₀.node c).blockIds →
      ∃ q, (freeAlive tierOf freeBlocks c).run (t, p) = .ok () (t, q) ∧ R c p q ∧ I q) :
    ∀ (fuel : ℕ), ∀ r ∈ t₀.nodes.values,
      (t₀.nodes.values.filter fun x => full r <+: full x).length ≤ fuel →
      ∀ (t : RadixTree) (p : π), I p →
        (∀ x, t₀.Sub full r x → D x ∧ (t.node x).blockIds = (t₀.node x).blockIds ∧
          (t.node x).children = (t₀.node x).children) →
        ∃ n t' q, (purgeSubtreeAlive tierOf freeBlocks fuel r).run (t, p) =
            .ok n (t'.modifyNode r fun n => { n with children := PyDict.empty }, q) ∧
          Detached t₀ (fun x => t₀.Sub full r x ∧ x ≠ r) t t' ∧
          Frees R (fun x => t₀.Sub full r x ∧ x ≠ r) p q ∧ I q ∧
          {x | t₀.Sub full r x ∧ x ≠ r}.encard = n := by
  intro fuel
  induction fuel with
  | zero =>
      intro r hr hle
      have hmem : r ∈ t₀.nodes.values.filter fun x => full r <+: full x :=
        List.mem_filter.2 ⟨hr, by simp⟩
      have := List.length_pos_of_mem hmem
      omega
  | succ fuel ih =>
      intro r hr hle t p hp hsame
      have hrm : t₀.Member r := Or.inr hr
      have hchild : ∀ c ∈ (t₀.node r).children.values,
          ∃ tok, (t₀.node r).children.get? tok = some c := fun c hc =>
        (PyDict.mem_values.1 hc).imp fun _ htok => PyDict.get?_eq_some_iff.2 htok
      have hfewer : ∀ c, (∃ tok, (t₀.node r).children.get? tok = some c) →
          (t₀.nodes.values.filter fun x => full c <+: full x).length ≤ fuel := by
        rintro c ⟨tok, htok⟩
        have hlt := h.length_below_child_lt hr htok
        omega
      obtain ⟨n, t', q, hrun, hdet, hfrees, hq, hcount⟩ := foldl_children_detached h hfree hrm
        (fun c hcv hc t p hp hsame => ih c hcv (hfewer c hc) t p hp hsame)
        (t₀.node r).children.values 0 t p (h.nodup_children_values hrm) hchild hp
        (fun c hc x hx => hsame x ((h.sub_child_iff hrm x).1 ⟨c, hc, hx⟩).1)
      have hsub := h.sub_child_iff hrm
      refine ⟨n, t', q, ?_, hdet.congr hsub, hfrees.congr hsub, hq, ?_⟩
      · have hchildren : (t.node r).children = (t₀.node r).children :=
          (hsame r ⟨hr, List.prefix_refl _⟩).2.2
        simp only [purgeSubtreeAlive, EStateM.run_bind, EStateM.run_get, hchildren, hrun,
          run_modifyTree, EStateM.run_pure]
      · simpa [hsub] using hcount

/-- **Purging a node** takes its subtree out, whatever the callbacks free.  The other nodes are as
they were, but that the parent has let go of the node, and the result counts what is gone. -/
theorem View.run_purgeNode_detached (h : t₀.View full A)
    (hfree : ∀ c, c ∈ t₀.nodes.values → D c → ∀ (t : RadixTree) (p : π), I p →
      (t.node c).blockIds = (t₀.node c).blockIds →
      ∃ q, (freeAlive tierOf freeBlocks c).run (t, p) = .ok () (t, q) ∧ R c p q ∧ I q)
    {n c : Addr} {first : Token} (hn : t₀.Member n)
    (hc : (t₀.node n).children.get? first = some c) (hD : ∀ x, t₀.Sub full c x → D x)
    {p : π} (hp : I p) :
    ∃ k t' q, (purgeNode tierOf freeBlocks n first c).run (t₀, p) = .ok k (t', q) ∧
      Removed t₀ full n first c t' ∧ Frees R (t₀.Sub full c) p q ∧ I q ∧
      {x | t₀.Sub full c x}.encard = k ∧
      ∀ x, ¬ full c <+: full x → t'.node x =
        { t₀.node x with children := if x = n then (t₀.node n).children.erase first
          else (t₀.node x).children } := by
  obtain ⟨hcv, hcpar, -⟩ := h.wf.child n first c hn hc
  have hself : t₀.Sub full c c := ⟨hcv, List.prefix_refl _⟩
  have hcn : ¬ full c <+: full n := by
    intro hpre
    obtain ⟨r, -, hr⟩ := h.wf.full_child hn hc
    have := hpre.length_le
    rw [hr, List.length_append, List.length_cons] at this
    omega
  obtain ⟨q₁, hrun₁, hfree₁, hq₁⟩ := hfree c hcv (hD c hself) t₀ p hp rfl
  -- the tree the recursion starts from: the parent has let go of the child
  have hnode : ∀ x, x ≠ n → (t₀.dropChild n first).node x = t₀.node x := fun x hx =>
    node_modifyNode_of_ne _ _ hx
  have hsubn : ∀ x, t₀.Sub full c x → x ≠ n := by
    rintro x ⟨-, hx⟩ rfl
    exact hcn hx
  have hdet₁ := detached_one h (t := t₀.dropChild n first) hcv
    (by rw [hnode c (hsubn c hself)])
  have hsame : ∀ x, t₀.Sub full c x → D x ∧
      ((((t₀.dropChild n first).unindexNode c).orphan c).node x).blockIds = (t₀.node x).blockIds ∧
      ((((t₀.dropChild n first).unindexNode c).orphan c).node x).children =
        (t₀.node x).children := by
    intro x hx
    rw [(links_detached_one _ c x).1, (links_detached_one _ c x).2, hnode x (hsubn x hx)]
    exact ⟨hD x hx, rfl, rfl⟩
  obtain ⟨k, t₂, q₂, hrun₂, hdet₂, hfree₂, hq₂, hcount⟩ :=
    h.purgeSubtreeAlive_detached hfree t₀.nextAddr c hcv (h.length_below_le c) _ q₁ hq₁ hsame
  have hsub := t₀.sub_cases hself
  have hdet : Detached t₀ (t₀.Sub full c) (t₀.dropChild n first)
      (t₂.modifyNode c fun n => { n with children := PyDict.empty }) :=
    ((hdet₁.trans hdet₂).modifyNode (Or.inl rfl) _).congr hsub
  have hnext : (((t₀.dropChild n first).unindexNode c).orphan c).nextAddr = t₀.nextAddr :=
    hdet₁.nextAddr_eq
  have hkeep : ∀ x, ¬ full c <+: full x →
      (t₂.modifyNode c fun n => { n with children := PyDict.empty }).node x =
        { t₀.node x with children := if x = n then (t₀.node n).children.erase first
          else (t₀.node x).children } := by
    intro x hx
    rw [hdet.node_eq x fun hs => hx hs.2]
    by_cases hxn : x = n
    · subst hxn
      simp [dropChild]
    · rw [hnode x hxn]
      simp [hxn]
  refine ⟨1 + k, _, q₂, ?_, ?_, ((Frees.single hfree₁).trans hfree₂).congr hsub,
    hq₂, ?_, hkeep⟩
  · simp only [purgeNode, EStateM.run_bind, hrun₁, run_modifyTree, EStateM.run_get, hnext, hrun₂,
      EStateM.run_pure]
  · refine ⟨hdet.blockSize_eq, hdet.nextAddr_eq, ?_, ?_, ?_, ?_, ?_, ?_⟩
    · intro k x
      rw [hdet.entries_iff]
      refine and_congr_right fun hkx => ⟨fun h1 hcx => ?_, ?_⟩
      · exact h1 x ⟨PyDict.mem_values.2 ⟨k, hkx⟩, hcx⟩ hkx
      · rintro hcx d ⟨-, hcd⟩ hkd
        exact hcx (PyDict.eq_of_mem_entries hkd hkx ▸ hcd)
    · intro x _ hcx
      rw [hkeep x hcx]
    · intro x _ hcx
      rw [hkeep x hcx]
    · intro x _ hcx
      rw [hkeep x hcx]
    · intro x _ hcx
      rw [hkeep x hcx]
    · intro x _ hcx
      rw [hkeep x hcx]
  · rw [t₀.encard_sub hself, hcount]
    push_cast
    ring

end Detach

/-! ### Freeing the blocks of a subtree -/

/-- The allocated blocks of a node. -/
def aliveIds (t : RadixTree) (p : BlockPool) (a : Addr) : List BlockId :=
  (t.node a).blockIds.filter fun b => (p.tierOf b).isSome

theorem mem_aliveIds {p : BlockPool} {a : Addr} {b : BlockId} :
    b ∈ t.aliveIds p a ↔ b ∈ (t.node a).blockIds ∧ p.live b = true := by
  simp [aliveIds, BlockPool.live]

/-- The allocated blocks of a node are freed, unless one is pinned. -/
theorem run_freeAlive {p : BlockPool} (hp : p.WF) {a : Addr} (hnd : (t.node a).blockIds.Nodup)
    (hun : ∀ b ∈ (t.node a).blockIds, p.pinned b = false) :
    ∃ q, (freeAlive BlockPool.tierOf BlockPool.free a).run (t, p) = .ok () (t, q) ∧
      BlockPool.Freed p (t.aliveIds p a) q := by
  by_cases hnil : t.aliveIds p a = []
  · refine ⟨p, ?_, hnil ▸ .refl hp⟩
    rw [aliveIds] at hnil
    simp only [freeAlive, EStateM.run_bind, EStateM.run_get, hnil, ne_eq, not_true_eq_false,
      if_false]
    rfl
  · have hnd' : (t.aliveIds p a).Nodup := hnd.filter _
    obtain ⟨q, hrun, hq⟩ := BlockPool.free_ok hp hnd' (fun b hb =>
      ⟨(mem_aliveIds.1 hb).2, hun b (mem_aliveIds.1 hb).1⟩)
    refine ⟨q, ?_, hq⟩
    have hcall := run_callback_ok (t := t) hrun
    rw [aliveIds] at hnil hcall
    simpa only [freeAlive, EStateM.run_bind, EStateM.run_get, ne_eq, hnil, not_false_eq_true,
      if_true] using hcall

theorem run_freeAlive_pinned {p : BlockPool} (hp : p.WF) {a : Addr}
    (hnd : (t.node a).blockIds.Nodup) (hpin : ∃ b ∈ (t.node a).blockIds, p.pinned b = true) :
    ∃ msg, (freeAlive BlockPool.tierOf BlockPool.free a).run (t, p) =
      .error (.runtimeError msg) (t, p) := by
  obtain ⟨b, hb, hbp⟩ := hpin
  have hmem : b ∈ t.aliveIds p a := mem_aliveIds.2 ⟨hb, hp.live_of_pinned hbp⟩
  have hnd' : (t.aliveIds p a).Nodup := hnd.filter _
  obtain ⟨msg, hrun⟩ := BlockPool.free_pinned hnd' (fun c hc => (mem_aliveIds.1 hc).2)
    ⟨b, hmem, hbp⟩
  have hnil : t.aliveIds p a ≠ [] := List.ne_nil_of_mem hmem
  have hcall := run_callback_error (t := t) hrun
  refine ⟨msg, ?_⟩
  rw [aliveIds] at hnil hcall
  simpa only [freeAlive, EStateM.run_bind, EStateM.run_get, ne_eq, hnil, not_false_eq_true,
    if_true] using hcall

/-- The blocks freed with the nodes of `S` are those allocated. -/
theorem Frees.freed {t₀ : RadixTree} {S : Addr → Prop} {p q : BlockPool}
    (h : Frees (fun c p q => BlockPool.Freed p (t₀.aliveIds p c) q) S p q) (hp : p.WF) :
    ∃ ids, BlockPool.Freed p ids q ∧
      ∀ b, b ∈ ids ↔ p.live b = true ∧ ∃ d, S d ∧ b ∈ (t₀.node d).blockIds := by
  induction h with
  | none p => exact ⟨[], .refl hp, by simp⟩
  | @one S p q r c _ hc ih =>
      obtain ⟨ids, hids, hmem⟩ := ih hp
      refine ⟨ids ++ t₀.aliveIds q c, hids.trans hc, fun b => ?_⟩
      rw [List.mem_append, mem_aliveIds, hids.live_eq, Bool.and_eq_true, Bool.not_eq_true',
        decide_eq_false_iff_not]
      constructor
      · rintro (hb | ⟨hbc, -, hlive⟩)
        · obtain ⟨hlive, d, hd, hbd⟩ := (hmem b).1 hb
          exact ⟨hlive, d, Or.inl hd, hbd⟩
        · exact ⟨hlive, c, Or.inr rfl, hbc⟩
      · rintro ⟨hlive, d, hd | rfl, hbd⟩
        · exact Or.inl ((hmem b).2 ⟨hlive, d, hd, hbd⟩)
        · by_cases hb : b ∈ ids
          · exact Or.inl hb
          · exact Or.inr ⟨hbd, hb, hlive⟩

/-! ### The walk of the purge -/

/-- `x` lies strictly below `n` on the way that `rest` goes on. -/
structure Way (full : Addr → List Token) (n : Addr) (rest : List Token) (x : Addr) : Prop where
  below : full n <+: full x
  ne : full x ≠ full n
  onWay : full x <+: full n ++ rest

namespace Way

variable {n x : Addr} {rest : List Token}

theorem exists_suffix (h : Way full n rest x) :
    ∃ z, z ≠ [] ∧ z <+: rest ∧ full x = full n ++ z := by
  obtain ⟨z, hz⟩ := h.below
  refine ⟨z, ?_, ?_, hz.symm⟩
  · rintro rfl
    exact h.ne (by rw [← hz, List.append_nil])
  · have hway := h.onWay
    rwa [← hz, List.prefix_append_right_inj] at hway

theorem not_nil (h : Way full n [] x) : False := by
  obtain ⟨z, hz, hzr, -⟩ := h.exists_suffix
  exact hz (List.prefix_nil.1 hzr)

/-- The way below a node starts with one of its edges. -/
theorem first_step {first : Token} (hv : t.View full A) (hn : t.Member n)
    (hx : x ∈ t.nodes.values) (h : Way full n (first :: rest) x) :
    ∃ child, (t.node n).children.get? first = some child ∧ full child <+: full x :=
  hv.wf.child_prefix hn (Or.inr hx)
    (View.step_isPrefix h.below h.onWay h.ne)

/-- An edge on the way leads above all that lies on it. -/
theorem child_below {first : Token} {child : Addr} (hv : t.View full A) (hn : t.Member n)
    (hc : (t.node n).children.get? first = some child) (hx : x ∈ t.nodes.values)
    (h : Way full n (first :: rest) x) : full child <+: full x := by
  obtain ⟨child', hchild', hpre⟩ := h.first_step hv hn hx
  rw [hc, Option.some_inj] at hchild'
  exact hchild' ▸ hpre

section Edge

variable {first : Token} {child : Addr} {rest' : List Token} (hv : t.View full A)
  (hn : t.Member n) (hc : (t.node n).children.get? first = some child)
  (hrest : (t.node child).key ++ rest' = first :: rest)
include hv hn hc

theorem isPrefix_child : full n <+: full child := by
  obtain ⟨r, -, hfull⟩ := hv.wf.full_child hn hc
  rw [hfull]
  exact List.prefix_append _ _

theorem length_lt_child : (full n).length < (full child).length := by
  obtain ⟨r, -, hfull⟩ := hv.wf.full_child hn hc
  rw [hfull, List.length_append, List.length_cons]
  omega

include hrest

/-- Behind the edge the way goes on with the rest. -/
theorem append_eq : full n ++ first :: rest = full child ++ rest' := by
  obtain ⟨r, hkey, hfull⟩ := hv.wf.full_child hn hc
  rw [hfull, ← hkey, List.append_assoc, hrest]

theorem of_child : Way full n (first :: rest) child where
  below := isPrefix_child hv hn hc
  ne := fun heq => by
    have hlt := length_lt_child hv hn hc
    rw [heq] at hlt
    exact lt_irrefl _ hlt
  onWay := append_eq hv hn hc hrest ▸ List.prefix_append _ _

theorem of_below (hx : Way full child rest' x) : Way full n (first :: rest) x where
  below := (isPrefix_child hv hn hc).trans hx.below
  ne := fun heq => by
    have hlt := length_lt_child hv hn hc
    have hle := hx.below.length_le
    rw [heq] at hle
    omega
  onWay := append_eq hv hn hc hrest ▸ hx.onWay

theorem child_or_below (hx : x ∈ t.nodes.values) (h : Way full n (first :: rest) x) :
    full x = full child ∨ Way full child rest' x := by
  by_cases heq : full x = full child
  · exact Or.inl heq
  · exact Or.inr ⟨h.child_below hv hn hc hx, heq, append_eq hv hn hc hrest ▸ h.onWay⟩

end Edge

end Way

/-- The way from the root leads to the nodes on the path. -/
theorem View.way_root_iff (h : t.View full A) {x : Addr} (hx : x ∈ t.nodes.values)
    {T : List Token} : Way full root T x ↔ full x <+: T := by
  constructor
  · intro hway
    simpa [h.wf.full_root] using hway.onWay
  · intro hT
    refine ⟨?_, ?_, ?_⟩
    · simp [h.wf.full_root]
    · simpa [h.wf.full_root] using h.wf.full_ne_nil hx
    · simpa [h.wf.full_root] using hT

/-- **The loop of the purge** passes the path if no node on it has a freed block; otherwise it
purges the first that has one. -/
theorem View.purgePathLoop_first {π : Type} (h : t.View full A) (p : π)
    (tierOf : π → BlockId → Option Tier) (freeBlocks : List BlockId → Py π Unit) :
    ∀ (fuel : ℕ) {n : Addr} {rest : List Token}, t.Member n → rest.length ≤ fuel →
    ((purgePathLoop tierOf freeBlocks fuel n rest).run (t, p) = .ok 0 (t, p) ∧
      ∀ x ∈ t.nodes.values, Way full n rest x → ∀ b ∈ (t.node x).blockIds,
        (tierOf p b).isSome = true) ∨
    ∃ m first c, t.Member m ∧ (t.node m).children.get? first = some c ∧ Way full n rest c ∧
      (∃ b ∈ (t.node c).blockIds, tierOf p b = none) ∧
      (∀ x ∈ t.nodes.values, Way full n rest x →
        (∃ b ∈ (t.node x).blockIds, tierOf p b = none) → full c <+: full x) ∧
      (purgePathLoop tierOf freeBlocks fuel n rest).run (t, p) =
        (purgeNode tierOf freeBlocks m first c).run (t, p) := by
  intro fuel
  induction fuel with
  | zero =>
      intro n rest _ hle
      obtain rfl := List.length_eq_zero_iff.1 (Nat.le_zero.1 hle)
      exact Or.inl ⟨rfl, fun x _ hx => hx.not_nil.elim⟩
  | succ fuel ih =>
      intro n rest hn hle
      cases rest with
      | nil => exact Or.inl ⟨rfl, fun x _ hx => hx.not_nil.elim⟩
      | cons first rest =>
          cases hc : (t.node n).children.get? first with
          | none =>
              refine Or.inl ⟨by simp [purgePathLoop, hc], fun x hxv hx => ?_⟩
              obtain ⟨child, hchild, -⟩ := hx.first_step h hn hxv
              simp [hc] at hchild
          | some child =>
              obtain ⟨hcv, -⟩ := h.wf.child n first child hn hc
              obtain ⟨r, hkey, hfull⟩ := h.wf.full_child hn hc
              have href : ¬ (t.node child).refCount > 0 := by
                rw [h.wf.refCount_zero child (Or.inr hcv)]
                decide
              by_cases hcp : cpLen (first :: rest) (t.node child).key < (t.node child).key.length
              · -- the edge is left partway, and no node lies inside it
                refine Or.inl ⟨by simp [purgePathLoop, hc, href, hcp], fun x hxv hx => ?_⟩
                have hpre := (hx.child_below h hn hc hxv).trans hx.onWay
                rw [hfull, ← hkey, List.prefix_append_right_inj] at hpre
                have := cpLen_eq_length_iff.2 hpre
                omega
              have hcp' : cpLen (first :: rest) (t.node child).key = (t.node child).key.length :=
                le_antisymm (cpLen_le_right _ _) (not_lt.1 hcp)
              obtain ⟨rest', hrest'⟩ := cpLen_eq_length_iff.1 hcp'
              have hdrop : (first :: rest).drop (t.node child).key.length = rest' := by
                rw [← hrest', List.drop_left]
              cases hany : (t.node child).blockIds.any (fun b => (tierOf p b).isNone) with
              | true =>
                  -- the first node on the way has a freed block
                  obtain ⟨b, hb, hdead⟩ := List.any_eq_true.1 hany
                  refine Or.inr ⟨n, first, child, hn, hc, .of_child h hn hc hrest',
                    ⟨b, hb, Option.isNone_iff_eq_none.1 hdead⟩,
                    fun x hxv hx _ => hx.child_below h hn hc hxv, ?_⟩
                  simp only [purgePathLoop, EStateM.run_bind, EStateM.run_get, hc, href, if_false,
                    hcp, hany, if_true]
              | false =>
                  have hrun : (purgePathLoop tierOf freeBlocks (fuel + 1) n
                      (first :: rest)).run (t, p) =
                      (purgePathLoop tierOf freeBlocks fuel child rest').run (t, p) := by
                    simp only [purgePathLoop, EStateM.run_bind, EStateM.run_get, hc, href, if_false,
                      hcp', lt_irrefl, hany, Bool.false_eq_true, hdrop]
                  have hlive : ∀ b ∈ (t.node child).blockIds, (tierOf p b).isSome = true := by
                    intro b hb
                    have hno := List.any_eq_false.1 hany b hb
                    cases htier : tierOf p b with
                    | none => simp [htier] at hno
                    | some tier => rfl
                  have hlen : rest'.length ≤ fuel := by
                    have hsum := congrArg List.length hrest'
                    rw [hkey] at hsum
                    simp only [List.cons_append, List.length_cons, List.length_append] at hsum hle
                    omega
                  rw [hrun]
                  rcases ih (Or.inr hcv) hlen with ⟨hrun', hall⟩ |
                    ⟨m, first', c, hm, hmc, hcway, hdead, hfirst, hrun'⟩
                  · refine Or.inl ⟨hrun', fun x hxv hx => ?_⟩
                    rcases hx.child_or_below h hn hc hrest' hxv with heq | hx'
                    · rw [h.wf.full_inj (Or.inr hxv) (Or.inr hcv) heq]
                      exact hlive
                    · exact hall x hxv hx'
                  · refine Or.inr ⟨m, first', c, hm, hmc, .of_below h hn hc hrest' hcway, hdead,
                      fun x hxv hx hxd => ?_, hrun'⟩
                    rcases hx.child_or_below h hn hc hrest' hxv with heq | hx'
                    · obtain ⟨b, hb, hnone⟩ := hxd
                      rw [h.wf.full_inj (Or.inr hxv) (Or.inr hcv) heq] at hb
                      have hsome := hlive b hb
                      rw [hnone] at hsome
                      cases hsome
                    · exact hfirst x hxv hx' hxd

/-! ### Purging a path -/

section PurgePath

variable {s : CacheState}

/-- A node with a pinned block is not purged, and the purge changes nothing. -/
theorem View.run_purgeNode_pinned (h : t.View full s.trie) (hi : s.Inv) {n c : Addr}
    {first : Token} (hcv : c ∈ t.nodes.values)
    (hpin : ∃ b ∈ s.trie.items (full c), s.pool.pinned b = true) :
    ∃ msg, (purgeNode BlockPool.tierOf BlockPool.free n first c).run (t, s.pool) =
      .error (.runtimeError msg) (t, s.pool) := by
  rw [h.items_full hcv] at hpin
  have hnd : (t.node c).blockIds.Nodup := h.items_full hcv ▸ hi.distinct.nodup _
  obtain ⟨msg, hrun⟩ := run_freeAlive_pinned (t := t) hi.pool_wf hnd hpin
  exact ⟨msg, by rw [purgeNode, EStateM.run_bind, hrun]⟩

/-- The nodes at and below `l` are purged, and `q` is the pool after that: the other blocks are where
they were. -/
structure Severed (s : CacheState) (l : List Token) (q : BlockPool) : Prop where
  evict : CacheState.Evict s ⟨s.trie.prune l, q⟩
  tierOf_or : ∀ b, q.tierOf b = s.pool.tierOf b ∨ q.tierOf b = none
  tierOf_eq : ∀ w, ¬ l <+: w → ∀ b ∈ s.trie.items w, q.tierOf b = s.pool.tierOf b

theorem Severed.of_freed (hi : s.Inv) {l : List Token} {ids : List BlockId} {q : BlockPool}
    (hne : l ≠ []) (hun : ∀ w, l <+: w → ∀ b ∈ s.trie.items w, s.pool.pinned b = false)
    (hids : ∀ b, b ∈ ids ↔ s.pool.live b = true ∧ ∃ w, l <+: w ∧ b ∈ s.trie.items w)
    (hq : BlockPool.Freed s.pool ids q) : Severed s l q where
  evict := .drop l ids q hne hun hids hq
  tierOf_or := fun b => by
    rw [hq.tierOf_eq]
    split
    · exact Or.inr rfl
    · exact Or.inl rfl
  tierOf_eq := fun w hw b hb => by
    rw [hq.tierOf_eq, if_neg]
    intro hmem
    obtain ⟨-, x, hx, hbx⟩ := (hids b).1 hmem
    exact hw (hi.distinct.unique _ _ _ hbx hb ▸ hx)

/-- **Purging a subtree without a pinned block** prunes the trie and frees what was allocated. -/
theorem View.run_purgeNode (h : t.View full s.trie) (hi : s.Inv) {n c : Addr} {first : Token}
    (hn : t.Member n) (hc : (t.node n).children.get? first = some c)
    (hun : ∀ w, full c <+: w → ∀ b ∈ s.trie.items w, s.pool.pinned b = false) :
    ∃ k t' q, (purgeNode BlockPool.tierOf BlockPool.free n first c).run (t, s.pool) =
        .ok k (t', q) ∧ t'.blockSize = t.blockSize ∧ t'.View full (s.trie.prune (full c)) ∧
      Severed s (full c) q := by
  have hun' : ∀ x, t.Sub full c x → ∀ b ∈ (t.node x).blockIds, s.pool.pinned b = false := by
    rintro x ⟨hx, hcx⟩ b hb
    exact hun _ hcx b (by rwa [h.items_full hx])
  -- what the recursion frees on the way leaves the unpinned blocks unpinned
  have hfree : ∀ x, x ∈ t.nodes.values → t.Sub full c x → ∀ (u : RadixTree) (p : BlockPool),
      (p.WF ∧ ∀ b, s.pool.pinned b = false → p.pinned b = false) →
      (u.node x).blockIds = (t.node x).blockIds →
      ∃ q, (freeAlive BlockPool.tierOf BlockPool.free x).run (u, p) = .ok () (u, q) ∧
        BlockPool.Freed p (t.aliveIds p x) q ∧
        (q.WF ∧ ∀ b, s.pool.pinned b = false → q.pinned b = false) := by
    intro x hx hsub u p hp hsame
    have hnd : (u.node x).blockIds.Nodup := by
      rw [hsame, ← h.items_full hx]
      exact hi.distinct.nodup _
    obtain ⟨q, hrun, hq⟩ := run_freeAlive hp.1 hnd fun b hb => hp.2 b (hun' x hsub b (hsame ▸ hb))
    rw [aliveIds, hsame] at hq
    refine ⟨q, hrun, hq, hq.wf, fun b hb => ?_⟩
    rw [BlockPool.pinned, hq.pin_eq]
    split
    · simp
    · exact hp.2 b hb
  obtain ⟨k, t', q, hrun, hrem, hfrees, -⟩ := h.run_purgeNode_detached hfree hn hc
    (fun x hx => hx) ⟨hi.pool_wf, fun _ hb => hb⟩
  refine ⟨k, t', q, hrun, hrem.blockSize_eq, h.removed hn hc hrem, ?_⟩
  obtain ⟨ids, hids, hmem⟩ := hfrees.freed hi.pool_wf
  refine .of_freed hi (h.wf.full_ne_nil (h.wf.child n first c hn hc).1) hun (fun b => ?_) hids
  rw [hmem]
  refine and_congr_right fun _ => ⟨?_, ?_⟩
  · rintro ⟨d, ⟨hd, hcd⟩, hb⟩
    exact ⟨full d, hcd, by rwa [h.items_full hd]⟩
  · rintro ⟨w, hcw, hb⟩
    obtain ⟨bs, hbs, -⟩ := PathTrie.exists_of_mem_items hb
    obtain ⟨d, hd, rfl⟩ := h.exists_addr (l := w) (by rw [hbs]; rfl)
    exact ⟨d, ⟨hd, hcw⟩, by rwa [← h.items_full hd]⟩

/-- The loop passes a path without a freed block. -/
theorem View.purgePathLoop_clean (h : t.View full s.trie) {n : Addr} {rest : List Token}
    (hn : t.Member n) (hlive : ∀ b ∈ s.trie.below (full n) rest, s.pool.live b = true) :
    (purgePathLoop BlockPool.tierOf BlockPool.free rest.length n rest).run (t, s.pool) =
      .ok 0 (t, s.pool) := by
  rcases h.purgePathLoop_first s.pool BlockPool.tierOf BlockPool.free rest.length hn le_rfl with
    ⟨hrun, -⟩ | ⟨m, first, c, hm, hc, hway, ⟨b, hb, hdead⟩, -, -⟩
  · exact hrun
  · obtain ⟨hcv, -⟩ := h.wf.child m first c hm hc
    obtain ⟨z, hz, hzr, hcz⟩ := hway.exists_suffix
    have hbelow : b ∈ s.trie.below (full n) rest :=
      (s.trie.mem_below _ _ _).2 ⟨z, hz, hzr, by rwa [← hcz, h.items_full hcv]⟩
    have hlive' := hlive b hbelow
    rw [BlockPool.live, hdead] at hlive'
    simp at hlive'

/-- The loop reaches the first node with a freed block. -/
theorem View.purgePathLoop_dead (h : t.View full s.trie) {c : Addr} (hcv : c ∈ t.nodes.values)
    (hdead : ∃ b ∈ s.trie.items (full c), s.pool.live b = false) {n : Addr} {rest : List Token}
    (hn : t.Member n) (hway : Way full n rest c)
    (hbetween : ∀ x, full n <+: x → x <+: full c → x ≠ full n → x ≠ full c →
      ∀ b ∈ s.trie.items x, s.pool.live b = true) :
    ∃ m first, t.Member m ∧ (t.node m).children.get? first = some c ∧
      (purgePathLoop BlockPool.tierOf BlockPool.free rest.length n rest).run (t, s.pool) =
        (purgeNode BlockPool.tierOf BlockPool.free m first c).run (t, s.pool) := by
  obtain ⟨b, hb, hbd⟩ := hdead
  rw [h.items_full hcv] at hb
  have htier := BlockPool.live_eq_false_iff.1 hbd
  rcases h.purgePathLoop_first s.pool BlockPool.tierOf BlockPool.free rest.length hn le_rfl with
    ⟨-, hall⟩ | ⟨m, first, c', hm, hc', hway', ⟨b', hb', hdead'⟩, hfirst, hrun⟩
  · have hlive := hall c hcv hway b hb
    rw [htier] at hlive
    simp at hlive
  · obtain ⟨hcv', -⟩ := h.wf.child m first c' hm hc'
    suffices heq : c' = c by
      subst heq
      exact ⟨m, first, hm, hc', hrun⟩
    refine h.wf.full_inj (Or.inr hcv') (Or.inr hcv) ?_
    by_contra hne
    -- a node strictly between has no freed block
    have hlive := hbetween (full c') hway'.below (hfirst c hcv hway ⟨b, hb, htier⟩) hway'.ne hne b'
      (by rwa [h.items_full hcv'])
    rw [BlockPool.live, hdead'] at hlive
    simp at hlive

/-- **A path without a freed block** is left alone. -/
theorem purgePath_clean {bs : ℕ} (h : t.Repr bs s.trie) {T : List Token}
    (hlive : ∀ b ∈ s.trie.path T, s.pool.live b = true) :
    (purgePathWithAnyDead BlockPool.tierOf BlockPool.free T).run (t, s.pool) =
      .ok 0 (t, s.pool) := by
  obtain ⟨-, full, hv⟩ := h
  refine hv.purgePathLoop_clean t.member_root ?_
  rw [hv.wf.full_root]
  exact hlive

/-- **A path with a freed block** is severed at the first node that has one, unless that node has
a pinned block too: then the purge raises `RuntimeError` and changes nothing. -/
theorem purgePath_dead {bs : ℕ} (h : t.Repr bs s.trie) (hi : s.Inv) {T l : List Token}
    (hl : s.FirstDead T l) :
    ((∃ b ∈ s.trie.items l, s.pool.pinned b = true) →
      ∃ msg, (purgePathWithAnyDead BlockPool.tierOf BlockPool.free T).run (t, s.pool) =
        .error (.runtimeError msg) (t, s.pool)) ∧
    ((∀ b ∈ s.trie.items l, s.pool.pinned b = false) →
      ∃ k t' q, (purgePathWithAnyDead BlockPool.tierOf BlockPool.free T).run (t, s.pool) =
          .ok k (t', q) ∧ t'.Repr bs (s.trie.prune l) ∧ Severed s l q) := by
  obtain ⟨hbs, full, hv⟩ := h
  obtain ⟨b, hb, hbd⟩ := hl.dead
  obtain ⟨bids, hbids, -⟩ := PathTrie.exists_of_mem_items hb
  obtain ⟨c, hcv, rfl⟩ := hv.exists_addr (l := l) (by rw [hbids]; rfl)
  obtain ⟨m, first, hm, hmc, hrun⟩ := hv.purgePathLoop_dead hcv ⟨b, hb, hbd⟩ t.member_root
    ((hv.way_root_iff hcv).2 hl.isPrefix) (by
      intro x _ hxc hne hne' b hb
      rw [hv.wf.full_root] at hne
      exact hl.above_live b (PathTrie.mem_above.2 ⟨x, hne, hxc, hne', hb⟩))
  rw [purgePathWithAnyDead, hrun]
  refine ⟨fun hpin => hv.run_purgeNode_pinned hi hcv hpin, fun hun => ?_⟩
  obtain ⟨k, t', q, hrun', hbs', hv', hev⟩ := hv.run_purgeNode hi hm hmc (by
    intro w hw b hb
    by_cases hwc : w = full c
    · subst hwc
      exact hun b hb
    · exact hi.unpinned_below hl.ne_nil hl.dead hw hwc hb)
  exact ⟨k, t', q, hrun', ⟨hbs'.trans hbs, full, hv'⟩, hev⟩

end PurgePath

/-! ### Selecting a victim for demotion -/

/-- Taking a node out of the tree, where the links and the index are consistent. -/
theorem run_removeZombie_links {a p : Addr} {tok : Token} {rest : List Token} {b : BlockId}
    {bs : List BlockId} (hpar : (t.node a).parent = some p) (hkey : (t.node a).key = tok :: rest)
    (hpa : (t.node p).children.get? tok = some a) (hb : (t.node a).blockIds = b :: bs)
    (hent : (b, a) ∈ t.nodes.entries) :
    (removeZombie a).run t = .ok () (t.withoutLeaf p tok a b) := by
  have hchild : (t.node p).children.contains tok = true := by
    rw [PyDict.contains, hpa]
    rfl
  have hindex : t.nodes.contains b = true :=
    PyDict.contains_iff.2 (PyDict.mem_keys.2 ⟨a, hent⟩)
  have hindex' : ((t.dropChild p tok).orphan a).nodes.contains b = true := hindex
  simp only [removeZombie, EStateM.run_bind, EStateM.run_get, hpar, hkey, hb, run_item0_cons,
    hchild, Bool.not_true, Bool.false_eq_true, if_false, EStateM.run_modify, hindex']
  rfl

/-- Taking a leaf out of the tree succeeds. -/
theorem View.run_removeZombie_leaf (h : t.View full A) {a : Addr} (ha : a ∈ t.nodes.values) :
    ∃ p tok b, (removeZombie a).run t = .ok () (t.withoutLeaf p tok a b) ∧ t.Member p ∧
      (t.node p).children.get? tok = some a ∧ (b, a) ∈ t.nodes.entries := by
  obtain ⟨p, tok, rest, hp, hpar, hkey, hpa, -⟩ := h.wf.parent a ha
  obtain ⟨b, bs, hb, hent⟩ := h.wf.exists_head ha
  exact ⟨p, tok, b, run_removeZombie_links hpar hkey hpa hb hent, hp, hpa, hent⟩

theorem View.run_removeZombie (h : t.View full A) {a : Addr} (ha : a ∈ t.nodes.values)
    (hleaf : (t.node a).children.entries = []) :
    ∃ t', (removeZombie a).run t = .ok () t' ∧ t'.View full (A.prune (full a)) ∧
      t'.blockSize = t.blockSize ∧ t'.nodes.entries.length + 1 = t.nodes.entries.length := by
  obtain ⟨p, tok, b, hrun, hp, hpa, hent⟩ := h.run_removeZombie_leaf ha
  exact ⟨t.withoutLeaf p tok a b, hrun, h.withoutLeaf hp hpa hleaf hent, rfl,
    PyDict.length_entries_erase (PyDict.mem_keys.2 ⟨a, hent⟩)⟩

/-- The candidates of the scan are those of the abstract cache. -/
theorem View.isCandidate_iff (h : t.View full A) (p : BlockPool) {a : Addr}
    (ha : a ∈ t.nodes.values) :
    t.isCandidate (some fun b => decide (p.pinCountOf b > 0)) a = true ↔
      CacheState.Candidate ⟨A, p⟩ (full a) := by
  have hany : (t.node a).blockIds.any (fun b => decide (p.pinCountOf b > 0)) = false ↔
      ∀ b ∈ A.items (full a), p.pinned b = false := by
    rw [h.items_full ha, List.any_eq_false]
    simp [BlockPool.pinned]
  have href := h.wf.refCount_zero a (Or.inr ha)
  simp only [isCandidate, href, Bool.and_eq_true, List.isEmpty_iff, decide_true, and_true,
    Bool.not_eq_true', hany]
  rw [← h.isLeaf_iff p ha]
  constructor
  · rintro ⟨hleaf, hpin⟩
    refine ⟨?_, hleaf, hpin⟩
    change (A (full a)).isSome
    rw [h.apply_full ha]
    rfl
  · rintro ⟨-, hleaf, hpin⟩
    exact ⟨hleaf, hpin⟩

/-- A selected victim is an indexed leaf. -/
theorem mem_of_lruVictim {isPinned : Option (BlockId → Bool)} {a : Addr}
    (h : t.lruVictim isPinned = some a) :
    a ∈ t.nodes.values ∧ (t.node a).children.entries = [] := by
  obtain ⟨hval, hcand⟩ := List.mem_filter.1 (List.argmin_mem h)
  simp only [isCandidate, Bool.and_eq_true, List.isEmpty_iff] at hcand
  exact ⟨hval, hcand.1.1⟩

/-- A turn of the scan that has a victim: a zombie is dropped, another node is selected. -/
theorem run_demoteScan_victim (clock : ℕ → Time) (scans : ℕ)
    (tierOf : Option (BlockId → Option Tier)) {nNodes : ℕ} {isPinned : Option (BlockId → Bool)}
    {out : List (List BlockId)} {victim : Addr} (hlen : out.length < nNodes)
    (hvic : t.lruVictim isPinned = some victim) :
    (demoteScan clock nNodes tierOf isPinned (scans + 1) out).run t =
        (removeZombie victim >>= fun _ => demoteScan clock nNodes tierOf isPinned scans out).run t ∨
      (demoteScan clock nNodes tierOf isPinned (scans + 1) out).run t =
        (demoteScan clock nNodes tierOf isPinned scans (out ++ [(t.node victim).blockIds])).run
          (t.touch victim (renewedTime (clock out.length))) := by
  simp only [demoteScan, hlen, if_true, EStateM.run_bind, EStateM.run_get, hvic]
  cases tierOf with
  | none => exact Or.inr rfl
  | some f =>
      by_cases hz : ((t.node victim).blockIds.all fun b => (f b).isNone) = true
      · left
        simp only [hz, if_true, EStateM.run_bind]
      · right
        simp only [hz, if_false, EStateM.run_bind, EStateM.run_modify, Bool.false_eq_true]

/-- The scan of `demote_lru` for one victim drops zombie leaves and returns the blocks of at most
one unpinned leaf, one of them allocated. -/
theorem demoteScan_spec {bs : ℕ} (clock : ℕ → Time) : ∀ (scans : ℕ) {t : RadixTree}
    {s : CacheState}, t.Repr bs s.trie → s.Inv →
    ∃ ids t' s', (demoteScan clock 1 (some s.pool.tierOf)
        (some fun b => decide (s.pool.pinCountOf b > 0)) scans []).run t = .ok ids t' ∧
      t'.Repr bs s'.trie ∧ s'.pool = s.pool ∧ CacheState.Evicts s s' ∧
      (∀ l, (s.trie l).isSome → s'.trie l = s.trie l ∨
        ∀ b ∈ s.trie.items l, s.pool.live b = false) ∧
      (ids = [] ∨ ∃ l, s'.Candidate l ∧ ids = [s'.trie.items l] ∧
        ∃ b ∈ s'.trie.items l, s'.pool.live b = true) := by
  intro scans
  induction scans with
  | zero =>
      intro t s h hi
      exact ⟨[], t, s, rfl, h, rfl, .refl, fun l _ => Or.inl rfl, Or.inl rfl⟩
  | succ scans ih =>
      intro t s h hi
      obtain ⟨hbs, full, hv⟩ := h
      cases hvic : t.lruVictim (some fun b => decide (s.pool.pinCountOf b > 0)) with
      | none =>
          refine ⟨[], t, s, ?_, ⟨hbs, full, hv⟩, rfl, .refl, fun l _ => Or.inl rfl, Or.inl rfl⟩
          simp [demoteScan, hvic]
      | some victim =>
          obtain ⟨hval, hcand⟩ := List.mem_filter.1 (List.argmin_mem hvic)
          have hc := (hv.isCandidate_iff s.pool hval).1 hcand
          have hleaf := (hv.isLeaf_iff s.pool hval).1 hc.leaf
          by_cases hz : ((t.node victim).blockIds.all fun b => (s.pool.tierOf b).isNone) = true
          · -- a zombie: drop it and look for the next candidate
            have hdead : ∀ b ∈ s.trie.items (full victim), s.pool.live b = false := by
              intro b hb
              rw [hv.items_full hval] at hb
              rw [BlockPool.live_eq_false_iff]
              simpa using List.all_eq_true.1 hz b hb
            obtain ⟨t₁, hrun₁, hv₁, hbs₁, -⟩ := hv.run_removeZombie hval hleaf
            have hstep : CacheState.Evict s ⟨s.trie.prune (full victim), s.pool⟩ :=
              .dropDead hi hc.node hc.leaf hdead
            obtain ⟨ids, t', s', hrun, hrepr, hpool, hev, hkeep, hres⟩ :=
              ih (s := ⟨s.trie.prune (full victim), s.pool⟩) ⟨hbs₁.trans hbs, full, hv₁⟩
                (hstep.inv hi)
            refine ⟨ids, t', s', ?_, hrepr, hpool, .head hstep hev, ?_, hres⟩
            · rw [← hrun]
              simp only [demoteScan, List.length_nil, Nat.lt_one_iff, if_true, EStateM.run_bind,
                EStateM.run_get, hvic, hz, hrun₁]
            · intro l hl
              by_cases hpre : full victim <+: l
              · right
                by_cases hlv : l = full victim
                · subst hlv
                  exact hdead
                · rw [hc.leaf l hpre hlv] at hl
                  simp at hl
              · have hsame : s.trie.prune (full victim) l = s.trie l :=
                  PathTrie.prune_of_not_isPrefix _ hpre
                have hitems : (s.trie.prune (full victim)).items l = s.trie.items l := by
                  rw [PathTrie.items, hsame, PathTrie.items]
                have hl' : (s.trie.prune (full victim) l).isSome := hsame ▸ hl
                rcases hkeep l hl' with h1 | h1
                · exact Or.inl (h1.trans hsame)
                · exact Or.inr fun b hb => h1 b (by rwa [← hitems] at hb)
          · have hs := sameShape_touch t victim (renewedTime (clock 0))
            refine ⟨[(t.node victim).blockIds], t.touch victim (renewedTime (clock 0)), s, ?_,
              ⟨hs.blockSize_eq.trans hbs, full, hv.sameShape hs⟩, rfl, .refl,
              fun l _ => Or.inl rfl, Or.inr ⟨full victim, hc, ?_, ?_⟩⟩
            · have hdone : ∀ (n : ℕ) (u : RadixTree), (demoteScan clock 1 (some s.pool.tierOf)
                  (some fun b => decide (s.pool.pinCountOf b > 0)) n
                    [(t.node victim).blockIds]).run u = .ok [(t.node victim).blockIds] u := by
                intro n u
                cases n <;> simp [demoteScan]
              simp only [demoteScan, List.length_nil, Nat.lt_one_iff, if_true, EStateM.run_bind,
                EStateM.run_get, hvic, hz, if_false, EStateM.run_modify, List.nil_append, hdone,
                Bool.false_eq_true]
            · rw [hv.items_full hval]
            · rw [hv.items_full hval]
              by_contra hno
              refine hz (List.all_eq_true.2 fun b hb => ?_)
              rw [Option.isNone_iff_eq_none, ← BlockPool.live_eq_false_iff]
              by_contra hlive
              exact hno ⟨b, hb, by simpa using hlive⟩

/-- **The scan stops short only where no candidate is left**: with a turn for each node and each
victim still to find, its bound is never what ends it. -/
theorem demoteScan_complete (clock : ℕ → Time) (nNodes : ℕ)
    (tierOf : Option (BlockId → Option Tier)) (isPinned : Option (BlockId → Bool)) :
    ∀ (scans : ℕ) {t : RadixTree} {A : PathTrie Token BlockId} (demoted : List (List BlockId)),
    t.View full A → t.nodes.entries.length + (nNodes - demoted.length) < scans →
    ∃ ids t' A', (demoteScan clock nNodes tierOf isPinned scans demoted).run t = .ok ids t' ∧
      t'.View full A' ∧ (ids.length < nNodes → t'.lruVictim isPinned = none) := by
  intro scans
  induction scans with
  | zero => intro t A demoted _ hlt; omega
  | succ scans ih =>
      intro t A demoted h hlt
      by_cases hfew : demoted.length < nNodes
      swap
      · exact ⟨demoted, t, A, by simp [demoteScan, hfew], h, fun hlen => absurd hlen hfew⟩
      cases hvic : t.lruVictim isPinned with
      | none => exact ⟨demoted, t, A, by simp [demoteScan, hfew, hvic], h, fun _ => hvic⟩
      | some victim =>
          obtain ⟨hval, hleaf⟩ := mem_of_lruVictim hvic
          rcases run_demoteScan_victim clock scans tierOf hfew hvic with hrun | hrun
          · -- a zombie: one node less
            obtain ⟨t₁, hrun₁, hv₁, -, hlen⟩ := h.run_removeZombie hval hleaf
            obtain ⟨ids, t', A', hrun', hend⟩ := ih demoted hv₁ (by omega)
            exact ⟨ids, t', A', by rw [hrun, EStateM.run_bind, hrun₁]; exact hrun', hend⟩
          · -- a victim: one less to find
            have hs := sameShape_touch t victim (renewedTime (clock demoted.length))
            obtain ⟨ids, t', A', hrun', hend⟩ :=
              ih (demoted ++ [(t.node victim).blockIds]) (h.sameShape hs) (by
                rw [hs.nodes_eq, List.length_append, List.length_singleton]
                omega)
            exact ⟨ids, t', A', hrun.trans hrun', hend⟩

/-- Without a victim there is no candidate. -/
theorem View.no_candidate (h : t.View full A) {p : BlockPool}
    (hvic : t.lruVictim (some fun b => decide (p.pinCountOf b > 0)) = none) (l : List Token) :
    ¬ CacheState.Candidate ⟨A, p⟩ l := by
  intro hl
  obtain ⟨a, ha, rfl⟩ := h.exists_addr hl.node
  rw [lruVictim, List.argmin_eq_none, List.filter_eq_nil_iff] at hvic
  exact hvic a ha ((h.isCandidate_iff p ha).2 hl)

/-- **Selecting a victim** raises nothing, and it finds one while there is a candidate. -/
theorem demoteLru_spec {bs : ℕ} {s : CacheState} (h : t.Repr bs s.trie) (hi : s.Inv)
    (clock : ℕ → Time) :
    ∃ ids t' s', (demoteLru clock 1 (some s.pool.tierOf)
        (some fun b => decide (s.pool.pinCountOf b > 0))).run t = .ok ids t' ∧
      t'.Repr bs s'.trie ∧ s'.pool = s.pool ∧ CacheState.Evicts s s' ∧
      (∀ l, (s.trie l).isSome → s'.trie l = s.trie l ∨
        ∀ b ∈ s.trie.items l, s.pool.live b = false) ∧
      (ids = [] ∧ (∀ l, ¬ s'.Candidate l) ∨ ∃ l, s'.Candidate l ∧ ids = [s'.trie.items l] ∧
        ∃ b ∈ s'.trie.items l, s'.pool.live b = true) := by
  obtain ⟨ids, t', s', hrun, hrepr, hpool, hev, hor, hids⟩ := demoteScan_spec clock _ h hi
  refine ⟨ids, t', s', hrun, hrepr, hpool, hev, hor, ?_⟩
  rcases hids with rfl | hids
  · left
    obtain ⟨-, full, hv⟩ := h
    obtain ⟨-, full', hv'⟩ := hrepr
    obtain ⟨ids', t'', A', hrun', -, hend⟩ := demoteScan_complete clock 1 (some s.pool.tierOf)
      (some fun b => decide (s.pool.pinCountOf b > 0)) (t.nodes.entries.length + 1 + 1)
      [] hv (by simp)
    rw [hrun] at hrun'
    cases hrun'
    refine ⟨rfl, fun l hl => ?_⟩
    have hnot := hv'.no_candidate (p := s'.pool) (hpool ▸ hend Nat.zero_lt_one) l
    exact hnot hl
  · exact Or.inr hids

end RadixTree

end NanoKVRouter
