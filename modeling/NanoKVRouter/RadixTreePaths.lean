/-
**The nodes of the prefix tree by their paths.**

The representation invariant speaks about the nodes found from the root.  Each lies at the end of
one path, the concatenation of the keys on the way to it, and the paths make the tree a trie in the
sense of `PathTrie`; so what is proved about the trie holds of every tree that satisfies the
invariant, and can be said again in terms of nodes, links and paths.

Main definitions:

* `RadixTree.Sound` — the representation invariant of a tree, `RadixTree.Unreferenced` that no node
  is referenced;
* `RadixTree.Descends` — a node lies at or below another.

Main results:

* `RadixTree.Sound.exists_view` — **a sound tree is a trie** without a repeated block;
* `RadixTree.View.matchPrefix_eq` — `match_prefix` returns the longest match and the blocks of the
  node that ends it;
* `RadixTree.View.matches_prune` — matches that avoid a removed subtree are unchanged.
-/

import NanoKVRouter.RadixTreeBoundaries

set_option relaxedAutoImplicit false
set_option autoImplicit false

namespace NanoKVRouter

namespace RadixTree

/-! ### Paths and descendants -/

/-- `c` is a child of `p`. -/
def ChildOf (t : RadixTree) (p c : Addr) : Prop := ∃ tok, (t.node p).children.get? tok = some c

/-- `x` is `a` or lies below it. -/
def Descends (t : RadixTree) : Addr → Addr → Prop := Relation.ReflTransGen t.ChildOf

theorem Spells.linked {t : RadixTree} {a : Addr} {l : List Token} (h : t.Spells a l) :
    t.Linked a := by
  induction h with
  | root => exact .root
  | child _ hc ih => exact .child ih hc

theorem Linked.exists_spells {t : RadixTree} {a : Addr} (h : t.Linked a) : ∃ l, t.Spells a l := by
  induction h with
  | root => exact ⟨[], .root⟩
  | child _ hc ih =>
      obtain ⟨l, hl⟩ := ih
      exact ⟨_, .child hl hc⟩

/-- A node has one path. -/
theorem Spells.unique {t : RadixTree} (h : t.Consistent) {a : Addr} {l l' : List Token}
    (hl : t.Spells a l) (hl' : t.Spells a l') : l = l' := by
  induction hl generalizing l' with
  | root =>
      cases hl' with
      | root => rfl
      | child hp hc => exact absurd rfl (h.child _ _ _ hp.linked hc).1
  | child hp hc ih =>
      obtain ⟨hne, hpar, -⟩ := h.child _ _ _ hp.linked hc
      cases hl' with
      | root => exact absurd rfl hne
      | child hq hqc =>
          obtain ⟨-, hqpar, -⟩ := h.child _ _ _ hq.linked hqc
          rw [hpar, Option.some_inj] at hqpar
          subst hqpar
          rw [ih hq]

/-! ### Sound trees -/

/-- The tree satisfies its representation invariant, and its nodes are objects that exist. -/
structure Sound (t : RadixTree) : Prop where
  consistent : t.Consistent
  blockSize_pos : 0 < t.blockSize
  root_blockIds : (t.node root).blockIds = []
  created : ∀ a, t.Linked a → a < t.nextAddr

/-- No node is referenced. -/
def Unreferenced (t : RadixTree) : Prop := ∀ a, t.Linked a → (t.node a).refCount = 0

theorem Sound.blockIds_ne_nil {t : RadixTree} (h : t.Sound) {a : Addr} (hl : t.Linked a)
    (hne : a ≠ root) : (t.node a).blockIds ≠ [] := by
  have hkey := List.length_pos_of_ne_nil (h.consistent.key_ne_nil a hl hne)
  refine List.ne_nil_of_length_pos ?_
  rw [h.consistent.length_blockIds a hl hne, Nat.ceilDiv_eq_add_pred_div]
  exact Nat.div_pos (by omega) h.blockSize_pos

/-- The index lists the nodes found from the root, but for the root itself. -/
theorem Sound.mem_values_iff {t : RadixTree} (h : t.Sound) {a : Addr} :
    a ∈ t.nodes.values ↔ t.Linked a ∧ a ≠ root := by
  constructor
  · intro ha
    obtain ⟨b, hb⟩ := PyDict.mem_values.1 ha
    obtain ⟨hl, hne, -⟩ := (h.consistent.index b a).1 (PyDict.get?_eq_some_iff.2 hb)
    exact ⟨hl, hne⟩
  · rintro ⟨hl, hne⟩
    obtain ⟨b, bs, hb⟩ := List.exists_cons_of_ne_nil (h.blockIds_ne_nil hl hne)
    exact PyDict.mem_values_of_get? ((h.consistent.index b a).2 ⟨hl, hne, by simp [hb]⟩)

theorem Sound.member_iff {t : RadixTree} (h : t.Sound) {a : Addr} : t.Member a ↔ t.Linked a := by
  rw [Member, h.mem_values_iff]
  constructor
  · rintro (rfl | ⟨hl, -⟩)
    · exact .root
    · exact hl
  · intro hl
    by_cases hne : a = root
    · exact Or.inl hne
    · exact Or.inr ⟨hl, hne⟩

/-- **A sound tree is a trie** without a repeated block. -/
theorem Sound.exists_view {t : RadixTree} (h : t.Sound) (href : t.Unreferenced) :
    ∃ full A, t.View full A ∧ A.Distinct := by
  have hpaths : ∀ a, ∃ l, t.Linked a → t.Spells a l := by
    intro a
    by_cases ha : t.Linked a
    · obtain ⟨l, hl⟩ := ha.exists_spells
      exact ⟨l, fun _ => hl⟩
    · exact ⟨[], fun hl => absurd hl ha⟩
  choose full hfull using hpaths
  have hwf : t.WF full := by
    constructor
    case blockSize_pos => exact h.blockSize_pos
    case full_root => exact Spells.unique h.consistent (hfull root .root) .root
    case root_blockIds => exact h.root_blockIds
    case index_head =>
      intro b a hba
      exact ((h.consistent.index b a).1 (PyDict.get?_eq_some_iff.2 hba)).2.2
    case lt_nextAddr => exact fun a ha => h.created a (h.member_iff.1 ha)
    case length_blockIds =>
      intro a ha
      obtain ⟨hl, hne⟩ := h.mem_values_iff.1 ha
      rw [h.consistent.length_blockIds a hl hne,
        nBlocks_of_ne_nil (h.consistent.key_ne_nil a hl hne), Nat.ceilDiv_eq_add_pred_div]
    case refCount_zero => exact fun a ha => href a (h.member_iff.1 ha)
    case parent =>
      intro a ha
      obtain ⟨hl, hne⟩ := h.mem_values_iff.1 ha
      obtain ⟨p, first, rest, hp, hkey, hpa, hpar⟩ := h.consistent.stored a hl hne
      exact ⟨p, first, rest, h.member_iff.2 hp, hpar, hkey, hpa,
        Spells.unique h.consistent (hfull a hl) (.child (hfull p hp) hpa)⟩
    case child =>
      intro p tok c hp hc
      have hp' := h.member_iff.1 hp
      obtain ⟨hne, hpar, hkey⟩ := h.consistent.child p tok c hp' hc
      exact ⟨h.mem_values_iff.2 ⟨.child hp' hc, hne⟩, hpar, hkey⟩
  let A : PathTrie Token BlockId := fun l =>
    (t.nodes.values.find? fun a => full a = l).map fun a => (t.node a).blockIds
  have hA : ∀ l bs, A l = some bs ↔ ∃ a ∈ t.nodes.values, full a = l ∧ (t.node a).blockIds = bs := by
    intro l bs
    simp only [A, Option.map_eq_some_iff]
    constructor
    · rintro ⟨a, ha, rfl⟩
      exact ⟨a, List.mem_of_find?_eq_some ha, by simpa using List.find?_some ha, rfl⟩
    · rintro ⟨a, ha, rfl, rfl⟩
      cases hfind : t.nodes.values.find? fun x => full x = full a with
      | none =>
          have hnone := List.find?_eq_none.1 hfind a ha
          simp at hnone
      | some x =>
          have hx : full x = full a := by simpa using List.find?_some hfind
          rw [hwf.full_inj (Or.inr (List.mem_of_find?_eq_some hfind)) (Or.inr ha) hx]
          exact ⟨a, rfl, rfl⟩
  have hv : t.View full A := ⟨hwf, hA⟩
  refine ⟨full, A, hv, ⟨fun l => ?_, fun l l' b hb hb' => ?_⟩⟩
  · cases hl : A l with
    | none =>
        rw [PathTrie.items_of_none hl]
        exact List.nodup_nil
    | some bs =>
        obtain ⟨a, ha, -, rfl⟩ := (hA l bs).1 hl
        rw [PathTrie.items_of_eq hl]
        exact h.consistent.nodup a (h.mem_values_iff.1 ha).1
  · obtain ⟨bs, hl, hbs⟩ := PathTrie.exists_of_mem_items hb
    obtain ⟨bs', hl', hbs'⟩ := PathTrie.exists_of_mem_items hb'
    obtain ⟨a, ha, rfl, rfl⟩ := (hA l bs).1 hl
    obtain ⟨a', ha', rfl, rfl⟩ := (hA l' bs').1 hl'
    by_cases hne : a = a'
    · rw [hne]
    · exact absurd hbs' (h.consistent.disjoint a a' (h.mem_values_iff.1 ha).1
        (h.mem_values_iff.1 ha').1 hne b hbs)

variable {t : RadixTree} {full : Addr → List Token} {A : PathTrie Token BlockId}

theorem View.sound (h : t.View full A) (hA : A.Distinct) : t.Sound := by
  have ho : Owns (fun _ => True) t A := ⟨⟨full, h⟩, hA, fun _ _ _ => trivial⟩
  exact {
    consistent := ho.consistent
    blockSize_pos := h.wf.blockSize_pos
    root_blockIds := h.wf.root_blockIds
    created := fun a ha => h.wf.lt_nextAddr a (h.wf.linked_iff.1 ha) }

theorem View.unreferenced (h : t.View full A) : t.Unreferenced := fun a ha =>
  h.wf.refCount_zero a (h.wf.linked_iff.1 ha)

/-- The nodes below one are those whose paths extend its path. -/
theorem View.descends_iff (h : t.View full A) {a x : Addr} (ha : t.Member a) :
    t.Descends a x ↔ t.Member x ∧ full a <+: full x := by
  constructor
  · intro hax
    induction hax with
    | refl => exact ⟨ha, List.prefix_refl _⟩
    | tail _ hc ih =>
        obtain ⟨tok, hc⟩ := hc
        obtain ⟨rest, -, hfull⟩ := h.wf.full_child ih.1 hc
        exact ⟨h.wf.member_child ih.1 hc, ih.2.trans (hfull ▸ List.prefix_append _ _)⟩
  · rintro ⟨hx, hpre⟩
    -- on the length of what is left of the way, from above
    induction hk : (full x).length - (full a).length using Nat.strong_induction_on
      generalizing a with
    | h k ih =>
        rcases h.wf.exists_child hx ha hpre with rfl | ⟨tok, c, hc, hcx⟩
        · exact .refl
        · obtain ⟨rest, -, hfull⟩ := h.wf.full_child ha hc
          have hlen := hcx.length_le
          have hlt : (full a).length < (full c).length := by
            rw [hfull, List.length_append, List.length_cons]
            omega
          exact .head ⟨tok, hc⟩ (ih _ (by omega) (h.wf.member_child ha hc) hcx rfl)

/-- Below every node there is a leaf. -/
theorem View.exists_leaf_below (h : t.View full A) {x : Addr} (hx : x ∈ t.nodes.values) :
    ∃ y ∈ t.nodes.values, t.Descends x y ∧ (t.node y).children.entries = [] := by
  -- on the number of nodes at or below `x`
  induction hk : (t.nodes.values.filter fun z => full x <+: full z).length using
    Nat.strong_induction_on generalizing x with
  | h k ih =>
      cases hent : (t.node x).children.entries with
      | nil => exact ⟨x, hx, .refl, hent⟩
      | cons e es =>
          have hc : (t.node x).children.get? e.1 = some e.2 :=
            PyDict.get?_eq_some_iff.2 (by rw [hent]; exact List.mem_cons_self)
          obtain ⟨hcv, -⟩ := h.wf.child x e.1 e.2 (Or.inr hx) hc
          obtain ⟨y, hy, hxy, hleaf⟩ :=
            ih _ (hk ▸ h.length_below_child_lt hx hc) hcv rfl
          exact ⟨y, hy, .head ⟨e.1, hc⟩ hxy, hleaf⟩

/-! ### Matches -/

/-- The loop of `match_prefix` ends with the blocks of the node it has reached. -/
theorem View.matchPrefixLoop_eq (h : t.View full A) (now : Time) : ∀ (fuel : ℕ) (n : Addr)
    (rest : List Token), t.Member n → rest.length ≤ fuel →
    (matchPrefixLoop now fuel t n rest (full n).length (A.items (full n))).1 =
      (A.matched (full n ++ rest), A.items ((full n ++ rest).take (A.matched (full n ++ rest)))) := by
  intro fuel
  induction fuel generalizing t with
  | zero =>
      intro n rest hn hle
      obtain rfl := List.length_eq_zero_iff.1 (Nat.le_zero.1 hle)
      simp [matchPrefixLoop, h.matched_full hn]
  | succ fuel ih =>
      intro n rest hn hle
      cases rest with
      | nil => simp [matchPrefixLoop, h.matched_full hn]
      | cons first rest =>
          cases hc : (t.node n).children.get? first with
          | none =>
              obtain ⟨hstop, -⟩ := h.stop_of_no_child hn hc rest
              simp [matchPrefixLoop, hc, hstop]
          | some child =>
              obtain ⟨r, hkey, hfull⟩ := h.wf.full_child hn hc
              obtain ⟨hchild, -⟩ := h.wf.child n first child hn hc
              by_cases hcp : cpLen (first :: rest) (t.node child).key < (t.node child).key.length
              · obtain ⟨hstop, -⟩ := h.stop_of_partial hn hc hcp
                simp [matchPrefixLoop, hc, hcp, hstop]
              · -- the edge is matched in full: go on at its end
                have hcp' : cpLen (first :: rest) (t.node child).key = (t.node child).key.length :=
                  le_antisymm (cpLen_le_right _ _) (not_lt.1 hcp)
                obtain ⟨rest', hrest'⟩ := cpLen_eq_length_iff.1 hcp'
                have hlen : rest'.length ≤ fuel := by
                  have hsum := congrArg List.length hrest'
                  rw [hkey] at hsum
                  simp only [List.cons_append, List.length_cons, List.length_append] at hsum hle
                  omega
                have hdrop : (first :: rest).drop (t.node child).key.length = rest' := by
                  rw [← hrest', List.drop_left]
                have hs := sameShape_touch t child now
                have hmem : (t.touch child now).Member child := by
                  rw [Member, hs.nodes_eq]
                  exact Or.inr hchild
                have hrun := ih (h.sameShape hs) child rest' hmem hlen
                have hlenc : (full n).length + (t.node child).key.length = (full child).length := by
                  rw [hfull, hkey, List.length_append]
                have hpath : full n ++ first :: rest = full child ++ rest' := by
                  rw [hfull, ← hkey, List.append_assoc, hrest']
                rw [h.items_full hchild] at hrun
                simp only [matchPrefixLoop, hc, hcp', lt_irrefl, if_false, hdrop, hlenc, hrun,
                  hpath]

/-- **`match_prefix` computes the longest match** and returns the blocks of the node that ends
it. -/
theorem View.matchPrefix_eq (h : t.View full A) (now : Time) (T : List Token) :
    (t.matchPrefix now T).1 = (A.matched T, A.items (T.take (A.matched T))) := by
  have hroot : (t.node root).blockIds = A.items [] := by
    rw [h.wf.root_blockIds, PathTrie.items_of_none h.apply_nil]
  rw [matchPrefix, hroot]
  split
  · rename_i hT
    subst hT
    simp [Nat.le_zero.1 (A.matched_le [])]
  · have hrun := h.matchPrefixLoop_eq now T.length root T t.member_root le_rfl
    rwa [h.wf.full_root, List.nil_append] at hrun

/-- **Matches that avoid a removed subtree are unchanged.** -/
theorem View.matches_prune {t' : RadixTree} {full' : Addr → List Token} {l : List Token}
    (h : t.View full A) (h' : t'.View full' (A.prune l)) {T : List Token} (hT : ¬ l <+: T)
    (now : Time) :
    (t'.matchPrefix now T).1 = (t.matchPrefix now T).1 ∧
      (t'.matchPrefixPath now T).1 = (t.matchPrefixPath now T).1 := by
  have hmatched := A.matched_prune_of_not_isPrefix hT
  constructor
  · rw [h.matchPrefix_eq, h'.matchPrefix_eq, hmatched, PathTrie.items_prune, if_neg]
    exact fun hl => hT (hl.trans (List.take_prefix _ _))
  · obtain ⟨u, -, hu⟩ := h.matchPrefixPath_eq now T
    obtain ⟨u', -, hu'⟩ := h'.matchPrefixPath_eq now T
    rw [hu, hu', hmatched, A.path_prune_of_not_isPrefix hT]

end RadixTree

end NanoKVRouter
