/-
**Eviction in the order of use.**

`evict_lru` looks at leaves only, and a node becomes a leaf when the last of its children has gone.
It still removes the least recently used nodes of the whole tree, because every call that reads or
inserts touches the whole way to where it ends: a node is never older than its children.

Main definitions:

* `RadixTree.Ages` — no node is older than its children, and none is younger than the clock;
* `RadixTree.Clocked` — the trees reached by insertions, matches and evictions under a clock;
* `RadixTree.Evicted` — what an eviction has done.

Main results:

* `RadixTree.Clocked.ages` — **a node is never older than its children**;
* `RadixTree.evictLru_evicts` — **an eviction removes the oldest nodes**, oldest first, as many as
  asked for if there are as many.
-/

import NanoKVRouter.RadixTreePaths

set_option relaxedAutoImplicit false
set_option autoImplicit false

namespace NanoKVRouter

namespace RadixTree

variable {t : RadixTree} {full : Addr → List Token} {A : PathTrie Token BlockId} {now : Time}

/-! ### Ages -/

/-- No node is used after `now`, and none after its parent. -/
structure Ages (t : RadixTree) (now : Time) : Prop where
  le_now : ∀ a ∈ t.nodes.values, (t.node a).lastAccessTime ≤ now
  le_parent : ∀ a ∈ t.nodes.values, ∀ p ∈ t.nodes.values, (t.node a).parent = some p →
    (t.node a).lastAccessTime ≤ (t.node p).lastAccessTime

/-- The walk that stands on `n` has touched it. -/
def Touched (t : RadixTree) (now : Time) (n : Addr) : Prop :=
  n ∈ t.nodes.values → (t.node n).lastAccessTime = now

/-- A walk touches a node after its parent. -/
theorem Ages.touch (h : t.Ages now) {a : Addr}
    (hpar : ∀ p, (t.node a).parent = some p → t.Touched now p) : (t.touch a now).Ages now := by
  have hs := sameShape_touch t a now
  constructor
  · intro c hc
    rw [hs.nodes_eq] at hc
    rw [lastAccessTime_touch]
    split
    · exact le_refl now
    · exact h.le_now c hc
  · intro c hc p hp hcp
    rw [hs.nodes_eq] at hc hp
    rw [hs.parent_eq] at hcp
    rw [lastAccessTime_touch, lastAccessTime_touch]
    by_cases hpa : p = a
    · rw [if_pos hpa]
      split
      · exact le_refl now
      · exact h.le_now c hc
    · rw [if_neg hpa]
      split
      · rename_i hca
        exact ((hpar p (hca ▸ hcp)) hp).ge
      · exact h.le_parent c hc p hp hcp

/-- Touching a node again changes nothing. -/
theorem Ages.touch_again (h : t.Ages now) {a : Addr} (ha : t.Touched now a) :
    (t.touch a now).Ages now := by
  have hs := sameShape_touch t a now
  have htime : ∀ c ∈ t.nodes.values,
      ((t.touch a now).node c).lastAccessTime = (t.node c).lastAccessTime := by
    intro c hc
    rw [lastAccessTime_touch]
    split
    · rename_i hca
      exact (hca ▸ (ha (hca ▸ hc)).symm)
    · rfl
  constructor
  · intro c hc
    rw [hs.nodes_eq] at hc
    exact (htime c hc).trans_le (h.le_now c hc)
  · intro c hc p hp hcp
    rw [hs.nodes_eq] at hc hp
    rw [hs.parent_eq] at hcp
    rw [htime c hc, htime p hp]
    exact h.le_parent c hc p hp hcp

theorem touched_touch (t : RadixTree) (now : Time) (a : Addr) : (t.touch a now).Touched now a :=
  fun _ => by rw [lastAccessTime_touch, if_pos rfl]

/-- The clock advances. -/
theorem Ages.mono (h : t.Ages now) {now' : Time} (hle : now ≤ now') : t.Ages now' :=
  ⟨fun a ha => (h.le_now a ha).trans hle, h.le_parent⟩

/-! ### Matches -/

/-- A match touches the way it goes. -/
theorem View.matchPathLoop_ages (h : t.View full A) : ∀ (fuel : ℕ) (n : Addr) (rest : List Token)
    (pos : ℕ) (ids : List BlockId), t.Member n → t.Touched now n → t.Ages now →
    (matchPathLoop now fuel t n rest pos ids).2.Ages now := by
  intro fuel
  induction fuel generalizing t with
  | zero => exact fun n rest pos ids _ _ ha => ha
  | succ fuel ih =>
      intro n rest pos ids hn htouch ha
      cases rest with
      | nil => exact ha
      | cons first rest =>
          cases hc : (t.node n).children.get? first with
          | none => simpa only [matchPathLoop, hc] using ha
          | some child =>
              by_cases hcp : cpLen (first :: rest) (t.node child).key < (t.node child).key.length
              · simpa only [matchPathLoop, hc, if_pos hcp] using ha
              · obtain ⟨hcv, hpar, -⟩ := h.wf.child n first child hn hc
                have hs := sameShape_touch t child now
                have hmem : (t.touch child now).Member child := by
                  rw [Member, hs.nodes_eq]
                  exact Or.inr hcv
                have hages : (t.touch child now).Ages now := ha.touch fun p hp => by
                  rw [hpar, Option.some_inj] at hp
                  exact hp ▸ htouch
                simpa only [matchPathLoop, hc, if_neg hcp] using ih (h.sameShape hs) child _ _ _ hmem
                  (t.touched_touch now child) hages

theorem View.touched_root (h : t.View full A) (now : Time) : t.Touched now root :=
  fun hr => absurd hr h.wf.root_notMem

theorem View.matchPrefixPath_ages (h : t.View full A) (ha : t.Ages now) (T : List Token) :
    (t.matchPrefixPath now T).2.Ages now := by
  rw [matchPrefixPath]
  split
  · exact ha
  · exact h.matchPathLoop_ages _ _ _ _ _ t.member_root (h.touched_root now) ha

/-! ### Insertions -/

section Insert

variable {n c : Addr} {first childFirst : Token} {key : List Token} {cp : ℕ}
  {ids mids childs : List BlockId} {b midHead childHead : BlockId}

theorem View.ages_withLeaf (h : t.View full A) (hn : t.Member n) (htouch : t.Touched now n)
    (hb : b ∉ t.nodes.keys) (ha : t.Ages now) : (t.withLeaf now n first key ids b).Ages now := by
  have hlt := h.wf.lt_nextAddr
  have hold : ∀ a ∈ t.nodes.values, a ≠ t.nextAddr := fun a ha' =>
    Nat.ne_of_lt (hlt a (Or.inr ha'))
  constructor
  · intro a hav
    rcases (mem_values_withLeaf hb).1 hav with rfl | hav
    · rw [node_withLeaf_self (hlt n hn)]
    · rw [node_withLeaf_of_ne (hlt n hn) (hold a hav)]
      exact ha.le_now a hav
  · intro a hav p hpv hpar
    rcases (mem_values_withLeaf hb).1 hav with rfl | hav
    · -- the new leaf hangs below `n`
      rw [node_withLeaf_self (hlt n hn)] at hpar ⊢
      obtain rfl := Option.some_inj.1 hpar
      rcases (mem_values_withLeaf hb).1 hpv with heq | hpv
      · exact absurd heq (Nat.ne_of_lt (hlt n hn))
      · rw [node_withLeaf_of_ne (hlt n hn) (hold n hpv)]
        exact (htouch hpv).ge
    · rw [node_withLeaf_of_ne (hlt n hn) (hold a hav)] at hpar ⊢
      obtain ⟨q, -, -, hq, hqpar, -⟩ := h.wf.parent a hav
      have hpq : some q = some p := hqpar.symm.trans hpar
      obtain rfl := Option.some_inj.1 hpq
      rcases (mem_values_withLeaf hb).1 hpv with heq | hpv
      · exact absurd heq (Nat.ne_of_lt (hlt q hq))
      · rw [node_withLeaf_of_ne (hlt n hn) (hold q hpv)]
        exact ha.le_parent a hav q hpv hqpar

theorem View.ages_withSplit (h : t.View full A) (hn : t.Member n) (htouch : t.Touched now n)
    (hc : (t.node n).children.get? first = some c) (hmid : (midHead, c) ∈ t.nodes.entries)
    (hchild : childHead ∉ t.nodes.keys) (ha : t.Ages now) :
    (t.withSplit now n first c cp mids childs childFirst midHead childHead).Ages now := by
  have hlt := h.wf.lt_nextAddr
  have hold : ∀ a ∈ t.nodes.values, a ≠ t.nextAddr := fun a ha' =>
    Nat.ne_of_lt (hlt a (Or.inr ha'))
  obtain ⟨hcv, hcpar, -⟩ := h.wf.child n first c hn hc
  have hcn : c ≠ n := by
    rintro rfl
    obtain ⟨r, -, hr⟩ := h.wf.full_child hn hc
    simp at hr
  have htime : ∀ a ∈ t.nodes.values,
      ((t.withSplit now n first c cp mids childs childFirst midHead childHead).node
        a).lastAccessTime = (t.node a).lastAccessTime := by
    intro a hav
    by_cases hac : a = c
    · subst hac
      rw [node_withSplit_child (hlt a (Or.inr hav)) hcn]
    · rw [node_withSplit_of_ne (hlt n hn) hcn (hold a hav) hac]
  have hmidNode := @node_withSplit_mid t now n c first childFirst cp mids childs midHead childHead
    (hlt n hn) (hlt c (Or.inr hcv))
  constructor
  · intro a hav
    rcases (mem_values_withSplit hmid hchild).1 hav with rfl | hav
    · rw [hmidNode]
    · rw [htime a hav]
      exact ha.le_now a hav
  · intro a hav p hpv hpar
    rcases (mem_values_withSplit hmid hchild).1 hav with rfl | hav
    · -- the middle node hangs below `n`
      rw [hmidNode] at hpar ⊢
      obtain rfl := Option.some_inj.1 hpar
      rcases (mem_values_withSplit hmid hchild).1 hpv with heq | hpv
      · exact absurd heq (Nat.ne_of_lt (hlt n hn))
      · rw [htime n hpv]
        exact (htouch hpv).ge
    · rw [htime a hav]
      by_cases hac : a = c
      · -- the lower half of the edge hangs below the middle node
        subst hac
        rw [node_withSplit_child (hlt a (Or.inr hcv)) hcn] at hpar
        obtain rfl := Option.some_inj.1 hpar
        rw [hmidNode]
        exact ha.le_now a hcv
      · rw [node_withSplit_of_ne (hlt n hn) hcn (hold a hav) hac] at hpar
        obtain ⟨q, -, -, hq, hqpar, -⟩ := h.wf.parent a hav
        have hpq : some q = some p := hqpar.symm.trans hpar
        obtain rfl := Option.some_inj.1 hpq
        rcases (mem_values_withSplit hmid hchild).1 hpv with heq | hpv
        · exact absurd heq (Nat.ne_of_lt (hlt q hq))
        · rw [htime q hpv]
          exact ha.le_parent a hav q hpv hqpar

variable {π : Type} {mint : ℕ → Py π (List BlockId)} {used : π → BlockId → Prop} {p : π}

theorem View.insertLeaf_ages (h : t.View full A) (ho : Owns (used p) t A)
    (hm : MintsFresh mint used) (hn : t.Member n) (htouch : t.Touched now n) (ha : t.Ages now)
    (hc : (t.node n).children.get? first = none) (rest : List Token) :
    ((insertLeaf mint now n first (first :: rest)).run (t, p)).state.1.Ages now := by
  cases hrun : (mint (t.nBlocks (first :: rest))).run p with
  | error e q =>
      rw [run_insertLeaf_error hrun]
      exact ha
  | ok ids q =>
      obtain ⟨b, bs, rfl, -⟩ := h.addLeaf ho hm now hn hc rest hrun
      rw [run_insertLeaf hrun]
      refine h.ages_withLeaf hn htouch (h.notMem_keys fun l hl => ?_) ha
      exact ((hm.ok _ _ _ _ hrun).2.2 b List.mem_cons_self).1 (ho.items_used l b hl)

theorem View.insertSplit_ages (h : t.View full A) (ho : Owns (used p) t A)
    (hm : MintsFresh mint used) (hn : t.Member n) (htouch : t.Touched now n) (ha : t.Ages now)
    (hc : (t.node n).children.get? first = some c) (rest : List Token)
    (hlt : cpLen (first :: rest) (t.node c).key < (t.node c).key.length) :
    ((insertSplit mint now n first c (first :: rest)
      (cpLen (first :: rest) (t.node c).key)).run (t, p)).state.1.Ages now := by
  rcases run_mintChildHead_cases hm t c (cpLen (first :: rest) (t.node c).key) p with
    ⟨ids, q, hhead, hnd, hlen, hfresh, hmono⟩ | ⟨e, q, hhead, -, -⟩
  swap
  · rw [run_insertSplit_error hhead]
    exact ha
  obtain ⟨midHead, ms, childHead, cs, childFirst, childRest, hckey, hmids, hchilds, hmid, hchild,
    hview, hown⟩ := h.withSplit_owns ho now hn hc rest hlt hnd hlen hfresh hmono
  have hages := @View.ages_withSplit t full A now n c first childFirst
    (cpLen (first :: rest) (t.node c).key) (midHead :: ms) (childHead :: cs) midHead childHead
    h hn htouch hc hmid hchild ha
  cases htail : (first :: rest).drop (cpLen (first :: rest) (t.node c).key) with
  | nil =>
      rw [run_insertSplit_end hhead hckey hmids hchilds htail]
      exact hages
  | cons tailFirst tail =>
      cases hrun : (mint (t.nBlocks (tailFirst :: tail))).run q with
      | error e r =>
          rw [run_insertSplit_leaf_error hhead hckey hmids hchilds htail hrun]
          exact hages
      | ok leafIds r =>
          -- the new leaf hangs below the new middle node
          have hmem := member_withSplit_mid now n first (cpLen (first :: rest) (t.node c).key)
            (midHead :: ms) (childHead :: cs) childFirst hmid hchild
          obtain ⟨-, hleafLen, hleafFresh⟩ := hm.ok _ _ _ _ hrun
          obtain ⟨leafHead, ls, rfl⟩ := List.exists_cons_of_length_pos
            (hleafLen ▸ nBlocks_pos h.wf.blockSize_pos (List.cons_ne_nil tailFirst tail))
          rw [run_insertSplit_leaf hhead hckey hmids hchilds htail hrun]
          refine hview.ages_withLeaf hmem (fun _ => ?_) (hview.notMem_keys fun l hl => ?_) hages
          · obtain ⟨hcv, -⟩ := h.wf.child n first c hn hc
            rw [node_withSplit_mid (h.wf.lt_nextAddr n hn) (h.wf.lt_nextAddr c (Or.inr hcv))]
          · exact (hleafFresh leafHead List.mem_cons_self).1 (hown.items_used l leafHead hl)

/-- An insertion touches the way it goes, and what it adds is as young. -/
theorem View.insertLoop_ages (hm : MintsFresh mint used) : ∀ (fuel : ℕ) {t : RadixTree}
    {full : Addr → List Token} (n : Addr) (rest : List Token), t.View full A → Owns (used p) t A →
    t.Member n → t.Touched now n → t.Ages now →
    ((insertLoop mint now fuel n rest).run (t, p)).state.1.Ages now := by
  intro fuel
  induction fuel with
  | zero => exact fun n rest _ _ _ _ ha => ha
  | succ fuel ih =>
      intro t full n rest h ho hn htouch ha
      cases rest with
      | nil =>
          have hrun : (insertLoop mint now (fuel + 1) n []).run (t, p) =
              .ok ((t.touch n now).node n).blockIds (t.touch n now, p) := by
            simp only [insertLoop, EStateM.run_bind, run_modifyTree]
            rfl
          rw [hrun]
          exact ha.touch_again htouch
      | cons first rest =>
          cases hc : (t.node n).children.get? first with
          | none =>
              have hrun : (insertLoop mint now (fuel + 1) n (first :: rest)).run (t, p) =
                  (insertLeaf mint now n first (first :: rest)).run (t, p) := by
                simp [insertLoop, hc]
              rw [hrun]
              exact h.insertLeaf_ages ho hm hn htouch ha hc rest
          | some child =>
              by_cases hcp : cpLen (first :: rest) (t.node child).key = (t.node child).key.length
              · obtain ⟨hcv, hpar, -⟩ := h.wf.child n first child hn hc
                have hs := sameShape_touch t child now
                have hmem : (t.touch child now).Member child := by
                  rw [Member, hs.nodes_eq]
                  exact Or.inr hcv
                have hages : (t.touch child now).Ages now := ha.touch fun p hp => by
                  rw [hpar, Option.some_inj] at hp
                  exact hp ▸ htouch
                have hrun : (insertLoop mint now (fuel + 1) n (first :: rest)).run (t, p) =
                    (insertLoop mint now fuel child ((first :: rest).drop
                      (t.node child).key.length)).run (t.touch child now, p) := by
                  simp [insertLoop, hc, hcp]
                rw [hrun]
                exact ih child _ (h.sameShape hs) (ho.sameShape hs) hmem
                  (t.touched_touch now child) hages
              · have hrun : (insertLoop mint now (fuel + 1) n (first :: rest)).run (t, p) =
                    (insertSplit mint now n first child (first :: rest)
                      (cpLen (first :: rest) (t.node child).key)).run (t, p) := by
                  simp [insertLoop, hc, hcp]
                rw [hrun]
                exact h.insertSplit_ages ho hm hn htouch ha hc rest
                  (lt_of_le_of_ne (cpLen_le_right _ _) hcp)

theorem insert_ages (hm : MintsFresh mint used) (ho : Owns (used p) t A) (ha : t.Ages now)
    (T : List Token) : ((insert mint now T).run (t, p)).state.1.Ages now := by
  obtain ⟨full, h⟩ := ho.view
  by_cases hT : T = []
  · subst hT
    exact ha
  · have hinsert : (insert mint now T).run (t, p) =
        (insertLoop mint now (T.length + 1) root T).run (t, p) := by
      simp [insert, hT]
    rw [hinsert]
    exact View.insertLoop_ages hm _ root T h ho t.member_root (h.touched_root now) ha

end Insert

/-! ### Evictions -/

/-- Taking a leaf out changes neither the use of the others nor their parents. -/
theorem Ages.withoutLeaf (h : t.View full A) (ha : t.Ages now) {p a : Addr} {b : BlockId}
    (tok : Token) (hleaf : (t.node a).children.entries = []) (hb : (b, a) ∈ t.nodes.entries) :
    (t.withoutLeaf p tok a b).Ages now := by
  have hrem := h.removed_withoutLeaf (p := p) tok hleaf hb
  have hav := PyDict.mem_values.2 ⟨b, hb⟩
  have hold : ∀ x ∈ (t.withoutLeaf p tok a b).nodes.values, x ∈ t.nodes.values ∧ x ≠ a := by
    intro x hx
    obtain ⟨hx, hnot⟩ := (hrem.mem_values_iff x).1 hx
    exact ⟨hx, fun heq => hnot (heq ▸ List.prefix_refl _)⟩
  constructor
  · intro x hx
    obtain ⟨hx, hxa⟩ := hold x hx
    rw [t.node_withoutLeaf p tok b hxa]
    exact ha.le_now x hx
  · intro x hx y hy hxy
    obtain ⟨hx, hxa⟩ := hold x hx
    obtain ⟨hy, hya⟩ := hold y hy
    rw [t.node_withoutLeaf p tok b hxa] at hxy ⊢
    rw [t.node_withoutLeaf p tok b hya]
    exact ha.le_parent x hx y hy hxy

/-- A node is at least as young as the nodes below it. -/
theorem View.le_of_descends (h : t.View full A) (ha : t.Ages now) {x y : Addr}
    (hx : x ∈ t.nodes.values) (hxy : t.Descends x y) :
    y ∈ t.nodes.values ∧ (t.node y).lastAccessTime ≤ (t.node x).lastAccessTime := by
  induction hxy with
  | refl => exact ⟨hx, le_refl _⟩
  | tail _ hc ih =>
      obtain ⟨hp, hle⟩ := ih
      obtain ⟨tok, hc⟩ := hc
      obtain ⟨hcv, hpar, -⟩ := h.wf.child _ tok _ (Or.inr hp) hc
      exact ⟨hcv, (ha.le_parent _ hcv _ hp hpar).trans hle⟩

/-- **The victim is the oldest node** of the tree, and there is one if there is a node. -/
theorem View.lruVictim_oldest (h : t.View full A) (ha : t.Ages now) :
    (t.lruVictim none = none → t.nodes.values = []) ∧
    ∀ a, t.lruVictim none = some a → ∀ x ∈ t.nodes.values,
      (t.node a).lastAccessTime ≤ (t.node x).lastAccessTime := by
  have hcand : ∀ y ∈ t.nodes.values, (t.node y).children.entries = [] →
      y ∈ t.nodes.values.filter (t.isCandidate none) := by
    intro y hy hleaf
    refine List.mem_filter.2 ⟨hy, ?_⟩
    simp [isCandidate, hleaf, h.wf.refCount_zero y (Or.inr hy)]
  constructor
  · intro hnone
    rw [lruVictim, List.argmin_eq_none] at hnone
    refine List.eq_nil_iff_forall_not_mem.2 fun x hx => ?_
    obtain ⟨y, hy, -, hleaf⟩ := h.exists_leaf_below hx
    have hmem := hcand y hy hleaf
    rw [hnone] at hmem
    simp at hmem
  · intro a hvic x hx
    obtain ⟨y, hy, hxy, hleaf⟩ := h.exists_leaf_below hx
    exact (List.le_of_mem_argmin (hcand y hy hleaf) hvic).trans (h.le_of_descends ha hx hxy).2

/-- The nodes `removed` have been taken out of the tree, the oldest first, and nothing else has
changed. -/
structure Evicted (t : RadixTree) (removed : List Addr) (t' : RadixTree) : Prop where
  nodup : removed.Nodup
  removed_nodes : ∀ a ∈ removed, t.Linked a ∧ a ≠ root
  linked_iff : ∀ x, t'.Linked x ↔ t.Linked x ∧ x ∉ removed
  spells_iff : ∀ x l, t'.Spells x l ↔ t.Spells x l ∧ x ∉ removed
  node_eq : ∀ x, t'.Linked x → t'.node x = { t.node x with children := (t'.node x).children }
  oldest_first : removed.Pairwise fun a c => (t.node a).lastAccessTime ≤ (t.node c).lastAccessTime
  oldest : ∀ a ∈ removed, ∀ x, t'.Linked x → x ≠ root →
    (t.node a).lastAccessTime ≤ (t.node x).lastAccessTime
  match_eq : ∀ T, (∀ a ∈ removed, ∀ l, t.Spells a l → ¬ l <+: T) → ∀ now,
    (t'.matchPrefix now T).1 = (t.matchPrefix now T).1 ∧
      (t'.matchPrefixPath now T).1 = (t.matchPrefixPath now T).1

namespace Evicted

theorem refl (t : RadixTree) : Evicted t [] t where
  nodup := List.nodup_nil
  removed_nodes := by simp
  linked_iff := by simp
  spells_iff := by simp
  node_eq := fun _ _ => rfl
  oldest_first := .nil
  oldest := by simp
  match_eq := fun _ _ _ => ⟨rfl, rfl⟩

/-- One eviction after another. -/
theorem cons {t₁ t' : RadixTree} {a : Addr} {removed : List Addr} (h : Evicted t [a] t₁)
    (h' : Evicted t₁ removed t') : Evicted t (a :: removed) t' := by
  have hlater : ∀ c ∈ removed, t₁.Linked c ∧ c ≠ root ∧
      (t₁.node c).lastAccessTime = (t.node c).lastAccessTime := by
    intro c hc
    obtain ⟨hlinked, hne⟩ := h'.removed_nodes c hc
    exact ⟨hlinked, hne, by rw [h.node_eq c hlinked]⟩
  refine ⟨?_, ?_, ?_, ?_, ?_, ?_, ?_, ?_⟩
  · refine List.nodup_cons.2 ⟨fun hmem => ?_, h'.nodup⟩
    exact ((h.linked_iff a).1 (hlater a hmem).1).2 (List.mem_singleton_self a)
  · intro c hc
    rcases List.mem_cons.1 hc with rfl | hc
    · exact h.removed_nodes c (List.mem_singleton_self c)
    · obtain ⟨hlinked, hne, -⟩ := hlater c hc
      exact ⟨((h.linked_iff c).1 hlinked).1, hne⟩
  · intro x
    rw [h'.linked_iff, h.linked_iff, List.mem_singleton, List.mem_cons, not_or, and_assoc]
  · intro x l
    rw [h'.spells_iff, h.spells_iff, List.mem_singleton, List.mem_cons, not_or, and_assoc]
  · intro x hx
    rw [h'.node_eq x hx, h.node_eq x ((h'.linked_iff x).1 hx).1]
  · refine List.pairwise_cons.2 ⟨fun c hc => ?_, h'.oldest_first.imp_of_mem fun hc hd hle => ?_⟩
    · obtain ⟨hlinked, hne, -⟩ := hlater c hc
      exact h.oldest a (List.mem_singleton_self a) c hlinked hne
    · rwa [(hlater _ hc).2.2, (hlater _ hd).2.2] at hle
  · intro c hc x hx hne
    have hx₁ := ((h'.linked_iff x).1 hx).1
    rcases List.mem_cons.1 hc with rfl | hc
    · exact h.oldest c (List.mem_singleton_self c) x hx₁ hne
    · have hle := h'.oldest c hc x hx hne
      rwa [(hlater c hc).2.2, h.node_eq x hx₁] at hle
  · intro T hT now
    have h₁ := h.match_eq T (fun c hc => hT c (List.mem_singleton.1 hc ▸ List.mem_cons_self)) now
    have h₂ := h'.match_eq T (fun c hc l hl =>
      hT c (List.mem_cons_of_mem a hc) l ((h.spells_iff c l).1 hl).1) now
    exact ⟨h₂.1.trans h₁.1, h₂.2.trans h₁.2⟩

end Evicted

/-- The oldest node, a leaf, has been taken out. -/
theorem View.evicted_leaf (h : t.View full A) {p a : Addr} {tok : Token} {b : BlockId}
    (hp : t.Member p) (hpa : (t.node p).children.get? tok = some a)
    (hleaf : (t.node a).children.entries = []) (hb : (b, a) ∈ t.nodes.entries)
    (hold : ∀ x ∈ t.nodes.values, (t.node a).lastAccessTime ≤ (t.node x).lastAccessTime) :
    Evicted t [a] (t.withoutLeaf p tok a b) := by
  have hav := PyDict.mem_values.2 ⟨b, hb⟩
  have har : a ≠ root := fun heq => h.wf.root_notMem (heq ▸ hav)
  have hv := h.withoutLeaf hp hpa hleaf hb
  have hmember : ∀ x, (t.withoutLeaf p tok a b).Member x ↔ t.Member x ∧ x ≠ a := by
    intro x
    rw [Member, (h.removed_withoutLeaf tok hleaf hb).mem_values_iff]
    constructor
    · rintro (rfl | ⟨hx, hnot⟩)
      · exact ⟨Or.inl rfl, har.symm⟩
      · exact ⟨Or.inr hx, fun heq => hnot (heq ▸ List.prefix_refl _)⟩
    · rintro ⟨hx | hx, hne⟩
      · exact Or.inl hx
      · exact Or.inr ⟨hx, fun hpre => hne ((h.below_leaf_iff hav hleaf (Or.inr hx)).1 hpre)⟩
  have hlinked : ∀ x, (t.withoutLeaf p tok a b).Linked x ↔ t.Linked x ∧ x ≠ a := by
    intro x
    rw [hv.wf.linked_iff, hmember, h.wf.linked_iff]
  refine ⟨List.nodup_singleton a, ?_, ?_, ?_, ?_, List.pairwise_singleton _ a, ?_, ?_⟩
  · intro x hx
    rw [List.mem_singleton.1 hx]
    exact ⟨h.wf.linked_iff.2 (Or.inr hav), har⟩
  · simpa using hlinked
  · intro x l
    rw [hv.spells_iff, hmember, h.spells_iff, List.mem_singleton]
    tauto
  · intro x hx
    rw [t.node_withoutLeaf p tok b ((hlinked x).1 hx).2]
  · intro c hc x hx hne
    rw [List.mem_singleton.1 hc]
    exact hold x ((h.wf.linked_iff.1 ((hlinked x).1 hx).1).resolve_left hne)
  · intro T hT now
    exact h.matches_prune hv (hT a (List.mem_singleton_self a) (full a)
      (h.spells_iff.2 ⟨Or.inr hav, rfl⟩)) now

/-- **The loop of an eviction** takes out the oldest nodes, as many as asked for. -/
theorem evictLoop_evicts {α : Type} {f : RadixNode → α}
    (hf : ∀ n c, f { n with children := c } = f n) : ∀ (n : ℕ) {t : RadixTree}
    {A : PathTrie Token BlockId} (out : List α), t.View full A → t.Ages now →
    ∃ removed t', (evictLoop f n out).run t =
        .ok (out ++ removed.map fun a => f (t.node a)) t' ∧
      removed.length = min n t.nodes.values.length ∧ Evicted t removed t' ∧ t'.Ages now := by
  intro n
  induction n with
  | zero =>
      intro t A out _ ha
      exact ⟨[], t, by simp [evictLoop], by simp, .refl t, ha⟩
  | succ n ih =>
      intro t A out h ha
      obtain ⟨hnone, hold⟩ := h.lruVictim_oldest ha
      cases hvic : t.lruVictim none with
      | none => exact ⟨[], t, by simp [evictLoop, hvic], by simp [hnone hvic], .refl t, ha⟩
      | some a =>
          obtain ⟨hav, hleaf⟩ := mem_of_lruVictim hvic
          obtain ⟨p, tok, b, hrun₁, hp, hpa, hent⟩ := h.run_removeZombie_leaf hav
          have hone := h.evicted_leaf hp hpa hleaf hent (hold a hvic)
          obtain ⟨removed, t', hrun, hlen, hev, hages⟩ := ih (out ++ [f (t.node a)])
            (h.withoutLeaf hp hpa hleaf hent) (ha.withoutLeaf h tok hleaf hent)
          refine ⟨a :: removed, t', ?_, ?_, hone.cons hev, hages⟩
          · simp only [evictLoop, EStateM.run_bind, EStateM.run_get, hvic, hrun₁]
            rw [hrun, List.append_assoc, List.map_cons, List.singleton_append]
            have hsame : ∀ c ∈ removed,
                f ((t.withoutLeaf p tok a b).node c) = f (t.node c) := by
              intro c hc
              rw [hone.node_eq c (hev.removed_nodes c hc).1, hf]
            rw [List.map_congr_left hsame]
          · have hfewer : (t.withoutLeaf p tok a b).nodes.values.length + 1 =
                t.nodes.values.length := by
              rw [PyDict.length_values, PyDict.length_values]
              exact PyDict.length_entries_erase (PyDict.mem_keys.2 ⟨a, hent⟩)
            rw [List.length_cons, hlen]
            omega

/-! ### Trees under a clock -/

/-- A call that reads, inserts or evicts. -/
inductive LruCall where
  | insert (tokenIds : List Token)
  | matchPrefix (tokenIds : List Token)
  | matchPrefixPath (tokenIds : List Token)
  | evictLru (nNodes : ℕ)

/-- The call when the clock shows `now`. -/
def LruCall.at {π : Type} (now : Time) : LruCall → TreeCall π
  | insert T => .insert now T
  | matchPrefix T => .matchPrefix now T
  | matchPrefixPath T => .matchPrefixPath now T
  | evictLru n => .evictLru n

section Clocked

variable {π : Type} {mint : ℕ → Py π (List BlockId)} {used : π → BlockId → Prop} {blockSize : ℕ}
  {p : π}

/-- The trees reached by insertions, matches and evictions, returned or raised, under a clock that
does not go back; the last argument is the clock. -/
inductive Clocked (mint : ℕ → Py π (List BlockId)) (used : π → BlockId → Prop) (blockSize : ℕ) :
    RadixTree → π → Time → Prop
  | init (p : π) (now : Time) : Clocked mint used blockSize (RadixTree.init blockSize) p now
  | owner {t : RadixTree} {p q : π} {now : Time} (h : Clocked mint used blockSize t p now)
      (hq : ∀ b, used p b → used q b) : Clocked mint used blockSize t q now
  | call {t : RadixTree} {p : π} {now now' : Time} (c : LruCall)
      (h : Clocked mint used blockSize t p now) (hle : now ≤ now') :
      Clocked mint used blockSize (((c.at now').run mint).run (t, p)).state.1
        (((c.at now').run mint).run (t, p)).state.2 now'

theorem Clocked.reachable (h : Clocked mint used blockSize t p now) :
    Reachable mint used blockSize t p := by
  induction h with
  | init p now => exact .init p
  | owner _ hq ih => exact .owner ih hq
  | call c _ _ ih =>
      refine .call (c.at _) ih ?_
      cases c <;> trivial

/-- **A node is never older than its children.** -/
theorem Clocked.ages (hm : MintsFresh mint used) (h : Clocked mint used blockSize t p now) :
    t.Ages now := by
  induction h with
  | init p now => exact ⟨by simp [RadixTree.init], by simp [RadixTree.init]⟩
  | owner _ _ ih => exact ih
  | @call t p now now' c h hle ih =>
      obtain ⟨-, A, ho⟩ := h.reachable.owns hm
      obtain ⟨full, hv⟩ := ho.view
      have ha := ih.mono hle
      cases c with
      | insert T =>
          rw [LruCall.at, TreeCall.run, state_bind_unit]
          exact insert_ages hm ho ha T
      | matchPrefix T =>
          rw [LruCall.at, TreeCall.run, run_modifyTree, EStateM.Result.state_ok,
            (matchPrefix_eq t now' T).2]
          exact hv.matchPrefixPath_ages ha T
      | matchPrefixPath T =>
          rw [LruCall.at, TreeCall.run, run_modifyTree, EStateM.Result.state_ok]
          exact hv.matchPrefixPath_ages ha T
      | evictLru n =>
          obtain ⟨removed, t', hrun, -, -, hages⟩ :=
            evictLoop_evicts (f := fun n => n.blockIds) (fun _ _ => rfl) n [] hv ha
          rw [LruCall.at, TreeCall.run, state_bind_unit, evictLru, run_onTree_ok hrun]
          exact hages

/-- **An eviction removes the least recently used nodes**, oldest first, as many as asked for if
there are as many: no node that remains is older than a removed one, and no match that avoids the
removed nodes has changed. -/
theorem evictLru_evicts (hm : MintsFresh mint used) (h : Clocked mint used blockSize t p now)
    (n : ℕ) :
    ∃ removed t' nNodes, (evictLru n).run t = .ok (removed.map fun a => (t.node a).blockIds) t' ∧
      {a | t.Linked a ∧ a ≠ root}.encard = (nNodes : ℕ) ∧ removed.length = min n nNodes ∧
      Evicted t removed t' := by
  obtain ⟨-, A, ho⟩ := h.reachable.owns hm
  obtain ⟨full, hv⟩ := ho.view
  obtain ⟨removed, t', hrun, hlen, hev, -⟩ :=
    evictLoop_evicts (f := fun n => n.blockIds) (fun _ _ => rfl) n [] hv (h.ages hm)
  have hnodes : {a | t.Linked a ∧ a ≠ root} = (t.nodes.values.toFinset : Set Addr) := by
    ext a
    rw [Set.mem_ofPred_eq, Finset.mem_coe, List.mem_toFinset, (hv.sound ho.distinct).mem_values_iff]
  refine ⟨removed, t', t.nodes.values.length, hrun, ?_, hlen, hev⟩
  rw [hnodes, Set.encard_coe_eq_coe_finsetCard, List.toFinset_card_of_nodup hv.wf.values_nodup]

theorem evictLru_evicts_two : ∃ t : RadixTree, t.nodes.keys = [0, 1, 2] ∧
    ∃ removed t' nNodes, (evictLru 2).run t = .ok (removed.map fun a => (t.node a).blockIds) t' ∧
      {a | t.Linked a ∧ a ≠ root}.encard = (nNodes : ℕ) ∧ removed.length = min 2 nNodes ∧
      Evicted t removed t' := by
  have h := Clocked.call (.matchPrefix [5, 6, 7]) (.call (.insert [5, 6, 8])
    (.call (.insert [5, 6, 7]) (@Clocked.init _ mintCounter (fun k b => b < k) 2 0 0)
      (le_refl 0)) (by decide : (0 : Time) ≤ 1)) (by decide : (1 : Time) ≤ 2)
  exact ⟨_, by decide +kernel, evictLru_evicts mintsFresh_mintCounter h 2⟩

end Clocked

end RadixTree

end NanoKVRouter
