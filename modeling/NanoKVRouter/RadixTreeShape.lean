/-
**The shape of the prefix tree.**

The objects of a tree hang together: every indexed node has a parent that lists it under the first
token of its key, owns as many blocks as its key needs, and is indexed by its first block.  With the
full path of each node this determines a trie in the sense of `PathTrie`, and the two walks of the
tree compute what a walk of that trie collects.

Main definitions:

* `RadixTree.Member` — the root and the indexed nodes; `RadixTree.Linked` — the nodes found from
  the root;
* `RadixTree.WF` — the links, the index and the block lists are consistent;
* `RadixTree.View`, `RadixTree.Repr` — the tree is well formed and represents a trie;
* `RadixTree.SameShape` — two trees differ in access times only.

Main results:

* `RadixTree.WF.exists_child` — **prefixes are ancestors**: below a node, whatever extends its path
  goes through one of its children;
* `RadixTree.View.matchPrefixPath_eq` — **the walk** returns the longest match and the blocks of
  the nodes on the path;
* `RadixTree.View.matched_le_blocks` — the path owns enough blocks for its match.
-/

import NanoKVRouter.PathTrie
import NanoKVRouter.RadixTree
import Mathlib.Tactic.Linarith

set_option relaxedAutoImplicit false
set_option autoImplicit false

namespace NanoKVRouter

namespace RadixTree

/-! ### Common prefixes -/

theorem cpLen_le_right (a b : List Token) : cpLen a b ≤ b.length := by
  induction a generalizing b with
  | nil => simp [cpLen]
  | cons x a ih =>
      cases b with
      | nil => simp [cpLen]
      | cons y b =>
          have := ih b
          simp only [cpLen, List.length_cons]
          split <;> omega

/-- Both lists start with their common prefix. -/
theorem take_cpLen_isPrefix (a b : List Token) : b.take (cpLen a b) <+: a := by
  induction a generalizing b with
  | nil => simp [cpLen]
  | cons x a ih =>
      cases b with
      | nil => simp
      | cons y b =>
          simp only [cpLen]
          split
          · rename_i h
            subst h
            simpa using ih b
          · simp

/-- No longer list is a prefix of both. -/
theorem length_le_cpLen {a b l : List Token} (ha : l <+: a) (hb : l <+: b) :
    l.length ≤ cpLen a b := by
  induction l generalizing a b with
  | nil => simp
  | cons x l ih =>
      obtain ⟨a, rfl⟩ := ha
      obtain ⟨b, rfl⟩ := hb
      have := ih (List.prefix_append l a) (List.prefix_append l b)
      simpa [cpLen] using this

/-- The common prefix is the whole second list iff that is a prefix of the first. -/
theorem cpLen_eq_length_iff {a b : List Token} : cpLen a b = b.length ↔ b <+: a := by
  constructor
  · intro h
    have := take_cpLen_isPrefix a b
    rwa [h, List.take_length] at this
  · intro h
    exact le_antisymm (cpLen_le_right a b) (length_le_cpLen h (List.prefix_refl b))

theorem cpLen_cons_pos (x : Token) (a b : List Token) : 0 < cpLen (x :: a) (x :: b) := by
  simp [cpLen]

/-! ### Access times do not matter -/

/-- The two trees differ in access times only. -/
structure SameShape (t t' : RadixTree) : Prop where
  blockSize_eq : t'.blockSize = t.blockSize
  nextAddr_eq : t'.nextAddr = t.nextAddr
  nodes_eq : t'.nodes = t.nodes
  key_eq : ∀ a, (t'.node a).key = (t.node a).key
  blockIds_eq : ∀ a, (t'.node a).blockIds = (t.node a).blockIds
  refCount_eq : ∀ a, (t'.node a).refCount = (t.node a).refCount
  children_eq : ∀ a, (t'.node a).children = (t.node a).children
  parent_eq : ∀ a, (t'.node a).parent = (t.node a).parent

theorem SameShape.refl (t : RadixTree) : SameShape t t :=
  ⟨rfl, rfl, rfl, fun _ => rfl, fun _ => rfl, fun _ => rfl, fun _ => rfl, fun _ => rfl⟩

theorem SameShape.trans {t t' t'' : RadixTree} (h : SameShape t t') (h' : SameShape t' t'') :
    SameShape t t'' where
  blockSize_eq := h'.blockSize_eq.trans h.blockSize_eq
  nextAddr_eq := h'.nextAddr_eq.trans h.nextAddr_eq
  nodes_eq := h'.nodes_eq.trans h.nodes_eq
  key_eq a := (h'.key_eq a).trans (h.key_eq a)
  blockIds_eq a := (h'.blockIds_eq a).trans (h.blockIds_eq a)
  refCount_eq a := (h'.refCount_eq a).trans (h.refCount_eq a)
  children_eq a := (h'.children_eq a).trans (h.children_eq a)
  parent_eq a := (h'.parent_eq a).trans (h.parent_eq a)

theorem node_modifyNode_of_ne (t : RadixTree) {a c : Addr} (f : RadixNode → RadixNode)
    (h : c ≠ a) : (t.modifyNode a f).node c = t.node c :=
  Function.update_of_ne h ..

@[simp] theorem node_modifyNode_self (t : RadixTree) (a : Addr) (f : RadixNode → RadixNode) :
    (t.modifyNode a f).node a = f (t.node a) :=
  Function.update_self ..

@[simp] theorem blockSize_modifyNode (t : RadixTree) (a : Addr) (f : RadixNode → RadixNode) :
    (t.modifyNode a f).blockSize = t.blockSize := rfl

@[simp] theorem nextAddr_modifyNode (t : RadixTree) (a : Addr) (f : RadixNode → RadixNode) :
    (t.modifyNode a f).nextAddr = t.nextAddr := rfl

@[simp] theorem nodes_modifyNode (t : RadixTree) (a : Addr) (f : RadixNode → RadixNode) :
    (t.modifyNode a f).nodes = t.nodes := rfl

theorem sameShape_touch (t : RadixTree) (a : Addr) (now : Time) : SameShape t (t.touch a now) := by
  refine ⟨rfl, rfl, rfl, ?_, ?_, ?_, ?_, ?_⟩ <;> intro c <;> rcases eq_or_ne c a with rfl | hc <;>
    simp [touch, node_modifyNode_of_ne, *]

theorem lastAccessTime_touch (t : RadixTree) (a c : Addr) (τ : Time) :
    ((t.touch a τ).node c).lastAccessTime = if c = a then τ else (t.node c).lastAccessTime := by
  by_cases hc : c = a
  · rw [if_pos hc, hc, touch, node_modifyNode_self]
  · rw [if_neg hc, touch, node_modifyNode_of_ne t _ hc]

/-- Trees of the same shape stay so when a node is touched in both. -/
theorem SameShape.touch {t t' : RadixTree} (h : SameShape t t') (a : Addr) (now now' : Time) :
    SameShape (t.touch a now) (t'.touch a now') := by
  refine ⟨h.blockSize_eq, h.nextAddr_eq, h.nodes_eq, ?_, ?_, ?_, ?_, ?_⟩ <;> intro c <;>
    rcases eq_or_ne c a with rfl | hc <;>
    simp [RadixTree.touch, node_modifyNode_of_ne, h.key_eq, h.blockIds_eq, h.refCount_eq,
      h.children_eq, h.parent_eq, *]

/-- Trees of the same shape give the same matches. -/
theorem SameShape.matchPathLoop_eq {now now' : Time} : ∀ (fuel : ℕ) {t t' : RadixTree},
    SameShape t t' → ∀ (n : Addr) (rest : List Token) (pos : ℕ) (ids : List BlockId),
    (matchPathLoop now' fuel t' n rest pos ids).1 = (matchPathLoop now fuel t n rest pos ids).1 := by
  intro fuel
  induction fuel with
  | zero => intro t t' _ n rest pos ids; rfl
  | succ fuel ih =>
      intro t t' h n rest pos ids
      cases rest with
      | nil => rfl
      | cons first rest =>
          simp only [matchPathLoop, h.children_eq, h.key_eq, h.blockIds_eq]
          cases (t.node n).children.get? first with
          | none => rfl
          | some child =>
              dsimp only
              split
              · rfl
              · exact ih (h.touch child now now') ..

theorem SameShape.matchPrefixLoop_eq {now now' : Time} : ∀ (fuel : ℕ) {t t' : RadixTree},
    SameShape t t' → ∀ (n : Addr) (rest : List Token) (pos : ℕ) (ids : List BlockId),
    (matchPrefixLoop now' fuel t' n rest pos ids).1 =
      (matchPrefixLoop now fuel t n rest pos ids).1 := by
  intro fuel
  induction fuel with
  | zero => intro t t' _ n rest pos ids; rfl
  | succ fuel ih =>
      intro t t' h n rest pos ids
      cases rest with
      | nil => rfl
      | cons first rest =>
          simp only [matchPrefixLoop, h.children_eq, h.key_eq, h.blockIds_eq]
          cases (t.node n).children.get? first with
          | none => rfl
          | some child =>
              dsimp only
              split
              · rfl
              · exact ih (h.touch child now now') ..

theorem SameShape.matchPrefixPath_eq {t t' : RadixTree} (h : SameShape t t') (now now' : Time)
    (T : List Token) : (t'.matchPrefixPath now' T).1 = (t.matchPrefixPath now T).1 := by
  rw [matchPrefixPath, matchPrefixPath]
  split
  · rfl
  · exact h.matchPathLoop_eq ..

theorem SameShape.matchPrefix_eq {t t' : RadixTree} (h : SameShape t t') (now now' : Time)
    (T : List Token) : (t'.matchPrefix now' T).1 = (t.matchPrefix now T).1 := by
  rw [matchPrefix, matchPrefix, h.blockIds_eq]
  split
  · rfl
  · exact h.matchPrefixLoop_eq ..

/-! ### Well-formed trees -/

/-- The root and the indexed nodes. -/
def Member (t : RadixTree) (a : Addr) : Prop := a = root ∨ a ∈ t.nodes.values

theorem member_root (t : RadixTree) : t.Member root := Or.inl rfl

/-- The nodes found from the root. -/
inductive Linked (t : RadixTree) : Addr → Prop
  | root : Linked t root
  | child {p c : Addr} {tok : Token} (hp : Linked t p)
      (hc : (t.node p).children.get? tok = some c) : Linked t c

/-- The links, the index and the block lists are consistent; `full` is the path of a node. -/
structure WF (t : RadixTree) (full : Addr → List Token) : Prop where
  blockSize_pos : 0 < t.blockSize
  full_root : full root = []
  root_blockIds : (t.node root).blockIds = []
  index_head : ∀ b a, (b, a) ∈ t.nodes.entries → (t.node a).blockIds.head? = some b
  lt_nextAddr : ∀ a, t.Member a → a < t.nextAddr
  length_blockIds : ∀ a ∈ t.nodes.values, (t.node a).blockIds.length = t.nBlocks (t.node a).key
  refCount_zero : ∀ a, t.Member a → (t.node a).refCount = 0
  parent : ∀ a ∈ t.nodes.values, ∃ p tok rest, t.Member p ∧ (t.node a).parent = some p ∧
    (t.node a).key = tok :: rest ∧ (t.node p).children.get? tok = some a ∧
    full a = full p ++ (t.node a).key
  child : ∀ p tok c, t.Member p → (t.node p).children.get? tok = some c →
    c ∈ t.nodes.values ∧ (t.node c).parent = some p ∧ ∃ rest, (t.node c).key = tok :: rest

namespace WF

variable {t : RadixTree} {full : Addr → List Token} (h : t.WF full)
include h

/-- An indexed node is indexed by its first block. -/
theorem exists_head {a : Addr} (ha : a ∈ t.nodes.values) :
    ∃ b bs, (t.node a).blockIds = b :: bs ∧ (b, a) ∈ t.nodes.entries := by
  obtain ⟨b, hb⟩ := PyDict.mem_values.1 ha
  obtain ⟨bs, hbs⟩ := List.head?_eq_some_iff.1 (h.index_head b a hb)
  exact ⟨b, bs, hbs, hb⟩

theorem blockIds_ne_nil {a : Addr} (ha : a ∈ t.nodes.values) : (t.node a).blockIds ≠ [] := by
  obtain ⟨b, bs, hbs, -⟩ := h.exists_head ha
  rw [hbs]
  simp

/-- The index lists every node once. -/
theorem values_nodup : t.nodes.values.Nodup := by
  refine List.Nodup.map_on ?_ (List.Nodup.of_map _ t.nodes.nodup_keys)
  rintro ⟨b, a⟩ hb ⟨b', a'⟩ hb' heq
  obtain rfl : a = a' := heq
  have h1 := h.index_head b a hb
  rw [h.index_head b' a hb', Option.some_inj] at h1
  rw [h1]

theorem root_notMem : root ∉ t.nodes.values := fun hr =>
  h.blockIds_ne_nil hr h.root_blockIds

theorem full_child {p c : Addr} {tok : Token} (hp : t.Member p)
    (hc : (t.node p).children.get? tok = some c) :
    ∃ rest, (t.node c).key = tok :: rest ∧ full c = full p ++ tok :: rest := by
  obtain ⟨hmem, hpar, rest, hrest⟩ := h.child p tok c hp hc
  obtain ⟨q, tok', rest', -, hq, hkey, -, hfull⟩ := h.parent c hmem
  rw [hpar, Option.some_inj] at hq
  subst hq
  exact ⟨rest, hrest, hrest ▸ hfull⟩

theorem member_child {p c : Addr} {tok : Token} (hp : t.Member p)
    (hc : (t.node p).children.get? tok = some c) : t.Member c :=
  Or.inr (h.child p tok c hp hc).1

/-- The nodes found from the root are those of the index. -/
theorem linked_iff {a : Addr} : t.Linked a ↔ t.Member a := by
  constructor
  · intro ha
    induction ha with
    | root => exact t.member_root
    | child _ hc ih => exact h.member_child ih hc
  · intro ha
    induction hk : (full a).length using Nat.strong_induction_on generalizing a with
    | h k ih =>
        rcases ha with rfl | ha
        · exact .root
        · obtain ⟨p, tok, rest, hp, -, hkey, hpa, hfull⟩ := h.parent a ha
          refine .child (ih _ ?_ hp rfl) hpa
          rw [← hk, hfull, hkey, List.length_append, List.length_cons]
          omega

theorem full_ne_nil {a : Addr} (ha : a ∈ t.nodes.values) : full a ≠ [] := by
  obtain ⟨p, tok, rest, -, -, hkey, -, hfull⟩ := h.parent a ha
  rw [hfull, hkey]
  simp

theorem eq_root_of_full_nil {a : Addr} (ha : t.Member a) (hnil : full a = []) : a = root := by
  rcases ha with ha | ha
  · exact ha
  · exact absurd hnil (h.full_ne_nil ha)

/-- Children whose paths lie on one path are the same child. -/
theorem child_unique {p c c' : Addr} {tok tok' : Token} {l : List Token} (hp : t.Member p)
    (hc : (t.node p).children.get? tok = some c) (hc' : (t.node p).children.get? tok' = some c')
    (hl : full c <+: l) (hl' : full c' <+: l) : c = c' := by
  obtain ⟨r, -, hr⟩ := h.full_child hp hc
  obtain ⟨r', -, hr'⟩ := h.full_child hp hc'
  obtain ⟨s, rfl⟩ := hl
  obtain ⟨s', hs'⟩ := hl'
  rw [hr, hr', List.append_assoc, List.append_assoc, List.append_cancel_left_eq] at hs'
  have htok : tok' = tok := by
    simp only [List.cons_append, List.cons.injEq] at hs'
    exact hs'.1
  rw [htok, hc] at hc'
  exact Option.some_inj.1 hc'

/-- **Prefixes are ancestors.**  A member whose path extends the path of `n` is `n` itself or lies
below one of its children. -/
theorem exists_child : ∀ {a n : Addr}, t.Member a → t.Member n → full n <+: full a →
    n = a ∨ ∃ tok c, (t.node n).children.get? tok = some c ∧ full c <+: full a := by
  -- strong induction on the length of the longer path, for all shorter ones at once
  suffices hmain : ∀ k a n, (full a).length = k → t.Member a → t.Member n → full n <+: full a →
      n = a ∨ ∃ tok c, (t.node n).children.get? tok = some c ∧ full c <+: full a by
    intro a n ha hn hna
    exact hmain _ a n rfl ha hn hna
  intro k
  induction k using Nat.strong_induction_on with
  | h k ih =>
      intro a n hk ha hn hna
      rcases ha with rfl | ha
      · refine Or.inl (h.eq_root_of_full_nil hn ?_)
        rwa [h.full_root, List.prefix_nil] at hna
      obtain ⟨p, tok, rest, hp, -, hkey, hpa, hfull⟩ := h.parent a ha
      have hlt : (full p).length < k := by
        rw [← hk, hfull, hkey]
        simp
      have hpp : full p <+: full a := hfull ▸ List.prefix_append _ _
      rcases le_total (full n).length (full p).length with hle | hle
      · -- `n` is at or above the parent of `a`
        have hnp := List.prefix_of_prefix_length_le hna hpp hle
        rcases ih _ hlt p n rfl hp hn hnp with rfl | ⟨tok', c, hc, hcp⟩
        · exact Or.inr ⟨tok, a, hpa, List.prefix_refl _⟩
        · exact Or.inr ⟨tok', c, hc, hcp.trans hpp⟩
      · have hpn := List.prefix_of_prefix_length_le hpp hna hle
        rcases Nat.lt_or_ge (full n).length k with hnk | hnk
        · -- `n` would lie strictly between `a` and its parent, or is the parent
          rcases ih _ hnk n p rfl hn hp hpn with rfl | ⟨tok', c, hc, hcn⟩
          · exact Or.inr ⟨tok, a, hpa, List.prefix_refl _⟩
          · have hca := h.child_unique hp hc hpa (hcn.trans hna) (List.prefix_refl _)
            subst hca
            have := hcn.length_le
            omega
        · -- the paths are equal, and so are the parents
          have heq : full n = full a := hna.eq_of_length_le (by omega)
          have hn' : n ∈ t.nodes.values := by
            rcases hn with rfl | hn
            · rw [h.full_root] at heq
              exact absurd heq.symm (h.full_ne_nil ha)
            · exact hn
          obtain ⟨q, tok', rest', hq, -, hkey', hqn, hfull'⟩ := h.parent n hn'
          have hqlt : (full q).length < k := by
            rw [← hk, ← heq, hfull', hkey']
            simp
          have hqq : full q <+: full a := heq ▸ (hfull' ▸ List.prefix_append _ _)
          refine Or.inl ?_
          rcases le_total (full q).length (full p).length with hqp | hqp
          · rcases ih _ hlt p q rfl hp hq (List.prefix_of_prefix_length_le hqq hpp hqp) with
              rfl | ⟨tok'', c, hc, hcp⟩
            · exact h.child_unique hq hqn hpa (heq ▸ List.prefix_refl _) (List.prefix_refl _)
            · have hcn := h.child_unique hq hc hqn (hcp.trans hpp) (heq ▸ List.prefix_refl _)
              subst hcn
              have := hcp.length_le
              omega
          · rcases ih _ hqlt q p rfl hq hp (List.prefix_of_prefix_length_le hpp hqq hqp) with
              rfl | ⟨tok'', c, hc, hcq⟩
            · exact h.child_unique hp hqn hpa (heq ▸ List.prefix_refl _) (List.prefix_refl _)
            · have hca := h.child_unique hp hc hpa (hcq.trans hqq) (List.prefix_refl _)
              subst hca
              have := hcq.length_le
              omega

/-- A node is determined by its path. -/
theorem full_inj {a b : Addr} (ha : t.Member a) (hb : t.Member b) (heq : full a = full b) :
    a = b := by
  rcases h.exists_child hb ha (heq ▸ List.prefix_refl _) with hab | ⟨tok, c, hc, hcb⟩
  · exact hab
  · obtain ⟨r, -, hr⟩ := h.full_child ha hc
    have := hcb.length_le
    rw [hr, ← heq, List.length_append, List.length_cons] at this
    omega

/-- A member beyond the edge that starts with `tok` lies below the child there. -/
theorem child_prefix {p a : Addr} {tok : Token} (hp : t.Member p) (ha : t.Member a)
    (hpa : full p ++ [tok] <+: full a) :
    ∃ c, (t.node p).children.get? tok = some c ∧ full c <+: full a := by
  rcases h.exists_child ha hp ((List.prefix_append _ _).trans hpa) with rfl | ⟨tok', c, hc, hca⟩
  · have := hpa.length_le
    rw [List.length_append, List.length_singleton] at this
    omega
  · obtain ⟨r, -, hr⟩ := h.full_child hp hc
    refine ⟨c, ?_, hca⟩
    obtain ⟨s, hs⟩ := hpa
    obtain ⟨s', hs'⟩ := hca
    rw [← hs, hr, List.append_assoc, List.append_assoc, List.append_cancel_left_eq] at hs'
    simp only [List.cons_append, List.cons.injEq, List.nil_append] at hs'
    obtain ⟨rfl, -⟩ := hs'
    exact hc

end WF

/-- Well-formedness does not look at access times. -/
theorem WF.sameShape {t t' : RadixTree} {full : Addr → List Token} (h : t.WF full)
    (hs : SameShape t t') : t'.WF full := by
  have hmem : ∀ a, t'.Member a ↔ t.Member a := by
    intro a
    rw [Member, Member, hs.nodes_eq]
  have hn : ∀ key, t'.nBlocks key = t.nBlocks key := by
    intro key
    rw [nBlocks, nBlocks, hs.blockSize_eq]
  constructor
  case blockSize_pos => rw [hs.blockSize_eq]; exact h.blockSize_pos
  case full_root => exact h.full_root
  case root_blockIds => rw [hs.blockIds_eq]; exact h.root_blockIds
  case index_head => intro b a; rw [hs.nodes_eq, hs.blockIds_eq]; exact h.index_head b a
  case lt_nextAddr => intro a; rw [hmem, hs.nextAddr_eq]; exact h.lt_nextAddr a
  case length_blockIds =>
    intro a
    rw [hs.nodes_eq, hs.blockIds_eq, hn, hs.key_eq]
    exact h.length_blockIds a
  case refCount_zero => intro a; rw [hmem, hs.refCount_eq]; exact h.refCount_zero a
  case parent =>
    intro a
    simp only [hs.nodes_eq, hmem, hs.parent_eq, hs.key_eq, hs.children_eq]
    exact h.parent a
  case child =>
    intro p tok c
    simp only [hs.nodes_eq, hmem, hs.parent_eq, hs.key_eq, hs.children_eq]
    exact h.child p tok c

/-- The node at which `match_prefix_path` stops. -/
def walkEnd (t : RadixTree) : ℕ → Addr → List Token → Addr
  | 0, node, _ => node
  | _ + 1, node, [] => node
  | fuel + 1, node, first :: rest =>
      match (t.node node).children.get? first with
      | none => node
      | some child =>
          let cp := cpLen (first :: rest) (t.node child).key
          if cp < (t.node child).key.length then node
          else walkEnd t fuel child ((first :: rest).drop cp)

/-! ### The trie of a tree -/

/-- The tree is well formed, and its nodes are those of the trie `A`. -/
structure View (t : RadixTree) (full : Addr → List Token) (A : PathTrie Token BlockId) :
    Prop where
  wf : t.WF full
  eq_some_iff : ∀ l bs, A l = some bs ↔
    ∃ a ∈ t.nodes.values, full a = l ∧ (t.node a).blockIds = bs

/-- The links of a tree determine the paths of its nodes. -/
theorem WF.full_unique {t : RadixTree} {full full' : Addr → List Token} (h : t.WF full)
    (h' : t.WF full') {a : Addr} (ha : t.Member a) : full a = full' a := by
  induction hk : (full a).length using Nat.strong_induction_on generalizing a with
  | h k ih =>
      rcases ha with rfl | ha
      · rw [h.full_root, h'.full_root]
      · obtain ⟨p, tok, rest, hp, -, hkey, hpa, hfull⟩ := h.parent a ha
        obtain ⟨rest', hkey', hfull'⟩ := h'.full_child hp hpa
        have hlt : (full p).length < k := by
          rw [← hk, hfull, hkey, List.length_append, List.length_cons]
          omega
        rw [hfull, hfull', ← hkey', ih _ hlt hp rfl]

/-- A tree represents one trie only. -/
theorem View.unique {t : RadixTree} {full full' : Addr → List Token}
    {A A' : PathTrie Token BlockId} (h : t.View full A) (h' : t.View full' A') : A = A' := by
  funext l
  refine Option.ext fun bs => ?_
  rw [h.eq_some_iff, h'.eq_some_iff]
  constructor
  · rintro ⟨a, ha, hl, hb⟩
    exact ⟨a, ha, (h.wf.full_unique h'.wf (Or.inr ha)) ▸ hl, hb⟩
  · rintro ⟨a, ha, hl, hb⟩
    exact ⟨a, ha, (h'.wf.full_unique h.wf (Or.inr ha)) ▸ hl, hb⟩

/-- The tree represents the trie `A`, with blocks of `bs` tokens. -/
def Repr (t : RadixTree) (bs : ℕ) (A : PathTrie Token BlockId) : Prop :=
  t.blockSize = bs ∧ ∃ full, t.View full A

namespace View

variable {t : RadixTree} {full : Addr → List Token} {A : PathTrie Token BlockId}

theorem sameShape {t' : RadixTree} (h : t.View full A) (hs : SameShape t t') : t'.View full A := by
  refine ⟨h.wf.sameShape hs, fun l bs => ?_⟩
  rw [h.eq_some_iff, hs.nodes_eq]
  simp only [hs.blockIds_eq]

variable (h : t.View full A)
include h

theorem apply_full {a : Addr} (ha : a ∈ t.nodes.values) : A (full a) = some (t.node a).blockIds :=
  (h.eq_some_iff _ _).2 ⟨a, ha, rfl, rfl⟩

theorem items_full {a : Addr} (ha : a ∈ t.nodes.values) :
    A.items (full a) = (t.node a).blockIds :=
  PathTrie.items_of_eq (h.apply_full ha)

theorem exists_addr {l : List Token} (hl : (A l).isSome) : ∃ a ∈ t.nodes.values, full a = l := by
  obtain ⟨bs, hbs⟩ := Option.isSome_iff_exists.1 hl
  obtain ⟨a, ha, hfull, -⟩ := (h.eq_some_iff _ _).1 hbs
  exact ⟨a, ha, hfull⟩

theorem apply_nil : A [] = none := by
  by_contra hne
  obtain ⟨a, ha, hfull⟩ := h.exists_addr (Option.isSome_iff_ne_none.2 hne)
  exact h.wf.full_ne_nil ha hfull

theorem ne_nil_of_isSome {l : List Token} (hl : (A l).isSome) : l ≠ [] := by
  rintro rfl
  rw [h.apply_nil] at hl
  simp at hl

/-- Beyond an edge that is not there, there is no node. -/
theorem none_of_no_child {p : Addr} {tok : Token} (hp : t.Member p)
    (hc : (t.node p).children.get? tok = none) {l : List Token} (hl : full p ++ [tok] <+: l) :
    A l = none := by
  by_contra hne
  obtain ⟨a, ha, rfl⟩ := h.exists_addr (Option.isSome_iff_ne_none.2 hne)
  obtain ⟨c, hc', -⟩ := h.wf.child_prefix hp (Or.inr ha) hl
  rw [hc] at hc'
  simp at hc'

/-- Beyond an edge, every node lies below the child at its end. -/
theorem prefix_of_child {p c : Addr} {tok : Token} (hp : t.Member p)
    (hc : (t.node p).children.get? tok = some c) {l : List Token} (hnode : (A l).isSome)
    (hl : full p ++ [tok] <+: l) : full c <+: l := by
  obtain ⟨a, ha, rfl⟩ := h.exists_addr hnode
  obtain ⟨c', hc', hpre⟩ := h.wf.child_prefix hp (Or.inr ha) hl
  rw [hc, Option.some_inj] at hc'
  exact hc' ▸ hpre

/-- There is no node inside an edge. -/
theorem none_inside_edge {p c : Addr} {tok : Token} (hp : t.Member p)
    (hc : (t.node p).children.get? tok = some c) {l : List Token} (hpl : full p <+: l)
    (hlc : l <+: full c) (hne : l ≠ full p) (hne' : l ≠ full c) : A l = none := by
  by_contra hnode
  refine hne' (hlc.eq_of_length_le ?_)
  refine (h.prefix_of_child hp hc (Option.isSome_iff_ne_none.2 hnode) ?_).length_le
  obtain ⟨r, -, hr⟩ := h.wf.full_child hp hc
  obtain ⟨s, rfl⟩ := hpl
  cases s with
  | nil => exact absurd (List.append_nil _) hne
  | cons x s =>
      rw [hr, List.prefix_append_right_inj, List.cons_prefix_cons] at hlc
      obtain ⟨rfl, -⟩ := hlc
      rw [List.prefix_append_right_inj]
      simp

/-- The walk over one edge. -/
theorem path_child {p c : Addr} {tok : Token} (hp : t.Member p)
    (hc : (t.node p).children.get? tok = some c) :
    A.path (full c) = A.path (full p) ++ (t.node c).blockIds := by
  obtain ⟨r, -, hr⟩ := h.wf.full_child hp hc
  rw [← h.items_full (h.wf.child p tok c hp hc).1]
  refine PathTrie.path_of_edge ?_ ?_ fun l hpl hlc hne hne' =>
    h.none_inside_edge hp hc hpl hlc hne hne'
  · rw [hr]
    exact List.prefix_append _ _
  · rw [hr]
    intro heq
    have := congrArg List.length heq
    simp at this

/-- The walk that starts with an edge. -/
theorem below_child {p c : Addr} {tok : Token} (hp : t.Member p)
    (hc : (t.node p).children.get? tok = some c) (rest : List Token) :
    A.below (full p) ((t.node c).key ++ rest) = (t.node c).blockIds ++ A.below (full c) rest := by
  obtain ⟨r, hkey, hfull⟩ := h.wf.full_child hp hc
  have h1 := h.path_child hp hc
  rw [hfull, PathTrie.path_append, List.append_cancel_left_eq, ← hkey] at h1
  rw [PathTrie.below_append, h1, hfull, hkey]

/-- **The path owns enough blocks** for the tokens on it. -/
theorem length_full_le {a : Addr} (ha : t.Member a) :
    (full a).length ≤ t.blockSize * (A.path (full a)).length := by
  induction hk : (full a).length using Nat.strong_induction_on generalizing a with
  | h k ih =>
      rcases ha with rfl | ha
      · rw [h.wf.full_root] at hk
        simp only [List.length_nil] at hk
        omega
      · obtain ⟨p, tok, rest, hp, -, hkey, hpa, hfull⟩ := h.wf.parent a ha
        have hlen : k = (full p).length + (t.node a).key.length := by
          rw [← hk, hfull, List.length_append]
        have hpos : 0 < (t.node a).key.length := by
          rw [hkey]
          simp
        have h1 := ih _ (by omega) hp rfl
        have h2 := h.wf.length_blockIds a ha
        have h3 : (t.node a).key.length ≤ t.blockSize * t.nBlocks (t.node a).key := by
          have hbs := h.wf.blockSize_pos
          rw [nBlocks, if_neg (by rw [hkey]; simp)]
          have := Nat.div_add_mod ((t.node a).key.length + t.blockSize - 1) t.blockSize
          have := Nat.mod_lt ((t.node a).key.length + t.blockSize - 1) hbs
          omega
        rw [h.path_child hp hpa, List.length_append, Nat.mul_add, h2]
        omega

/-- **The match of a path is covered** by the blocks the walk collects. -/
theorem matched_le_blocks (T : List Token) :
    A.matched T ≤ t.blockSize * (A.path T).length := by
  rcases Nat.eq_zero_or_pos (A.matched T) with h0 | h0
  · omega
  · obtain ⟨a, ha, hfull⟩ := h.exists_addr
      (PathTrie.isSome_take_matched (Nat.pos_iff_ne_zero.1 h0))
    have h1 := h.length_full_le (Or.inr ha)
    rw [hfull, PathTrie.path_take_matched, List.length_take,
      Nat.min_eq_left (A.matched_le T)] at h1
    exact h1

/-! ### The walk -/

theorem matched_full {n : Addr} (hn : t.Member n) : A.matched (full n) = (full n).length := by
  rcases hn with rfl | hn
  · rw [h.wf.full_root]
    exact Nat.le_zero.1 (A.matched_le [])
  · refine (PathTrie.matched_eq_length_iff (h.wf.full_ne_nil hn)).2 ?_
    rw [h.apply_full hn]
    rfl

/-- Where no edge goes on, the match ends and the walk collects nothing. -/
theorem stop {n : Addr} {rest : List Token} (hn : t.Member n)
    (hnone : ∀ l, full n <+: l → l <+: full n ++ rest → l ≠ full n → A l = none) :
    A.matched (full n ++ rest) = (full n).length ∧ A.below (full n) rest = [] := by
  constructor
  · refine PathTrie.matched_eq (by simp) ?_ ?_
    · rcases hn with rfl | hn
      · exact Or.inl (by rw [h.wf.full_root]; rfl)
      · refine Or.inr ?_
        rw [List.take_left, h.apply_full hn]
        rfl
    · intro l hl hnode
      by_contra hlt
      have hpre : full n <+: l :=
        List.prefix_of_prefix_length_le (List.prefix_append _ _) hl (by omega)
      rw [hnone l hpre hl] at hnode
      · simp at hnode
      · rintro rfl
        omega
  · refine PathTrie.below_eq_nil fun z hz hzr => ?_
    refine hnone _ (List.prefix_append _ _) ((List.prefix_append_right_inj _).2 hzr) ?_
    simpa using hz

omit h in
/-- The first step beyond `x` on the way to `x ++ first :: rest`. -/
theorem step_isPrefix {x l rest : List Token} {first : Token} (hxl : x <+: l)
    (hl : l <+: x ++ first :: rest) (hne : l ≠ x) : x ++ [first] <+: l := by
  obtain ⟨s, rfl⟩ := hxl
  cases s with
  | nil => exact absurd (List.append_nil _) hne
  | cons y s =>
      rw [List.prefix_append_right_inj, List.cons_prefix_cons] at hl
      obtain ⟨rfl, -⟩ := hl
      rw [List.prefix_append_right_inj]
      simp

/-- The walk stops where there is no edge to go on. -/
theorem stop_of_no_child {n : Addr} {first : Token} (hn : t.Member n)
    (hc : (t.node n).children.get? first = none) (rest : List Token) :
    A.matched (full n ++ first :: rest) = (full n).length ∧ A.below (full n) (first :: rest) = [] :=
  h.stop hn fun _ hpl hl hne => h.none_of_no_child hn hc (step_isPrefix hpl hl hne)

/-- The walk stops before an edge that it would leave partway. -/
theorem stop_of_partial {n child : Addr} {first : Token} {rest : List Token} (hn : t.Member n)
    (hc : (t.node n).children.get? first = some child)
    (hcp : cpLen (first :: rest) (t.node child).key < (t.node child).key.length) :
    A.matched (full n ++ first :: rest) = (full n).length ∧
      A.below (full n) (first :: rest) = [] := by
  refine h.stop hn fun l hpl hl hne => ?_
  by_contra hnode
  have hpre := h.prefix_of_child hn hc (Option.isSome_iff_ne_none.2 hnode)
    (step_isPrefix hpl hl hne)
  obtain ⟨r, hkey, hfull⟩ := h.wf.full_child hn hc
  have h3 := hpre.trans hl
  rw [hfull, ← hkey, List.prefix_append_right_inj] at h3
  have := cpLen_eq_length_iff.2 h3
  omega

/-- The loop of `match_prefix_path`. -/
theorem matchPathLoop_eq (now : Time) : ∀ (fuel : ℕ) (n : Addr) (rest : List Token)
    (ids : List BlockId), t.Member n → rest.length ≤ fuel →
    ∃ t', SameShape t t' ∧ matchPathLoop now fuel t n rest (full n).length ids =
      ((A.matched (full n ++ rest), ids ++ A.below (full n) rest), t') := by
  intro fuel
  induction fuel generalizing t with
  | zero =>
      intro n rest ids hn hle
      obtain rfl := List.length_eq_zero_iff.1 (Nat.le_zero.1 hle)
      refine ⟨t, SameShape.refl t, ?_⟩
      simp [matchPathLoop, h.matched_full hn]
  | succ fuel ih =>
      intro n rest ids hn hle
      cases rest with
      | nil =>
          refine ⟨t, SameShape.refl t, ?_⟩
          simp [matchPathLoop, h.matched_full hn]
      | cons first rest =>
          cases hc : (t.node n).children.get? first with
          | none =>
              obtain ⟨h1, h2⟩ := h.stop_of_no_child hn hc rest
              exact ⟨t, SameShape.refl t, by simp [matchPathLoop, hc, h1, h2]⟩
          | some child =>
              obtain ⟨r, hkey, hfull⟩ := h.wf.full_child hn hc
              have hmem := h.wf.member_child hn hc
              by_cases hcp : cpLen (first :: rest) (t.node child).key < (t.node child).key.length
              · obtain ⟨h1, h2⟩ := h.stop_of_partial hn hc hcp
                exact ⟨t, SameShape.refl t, by simp [matchPathLoop, hc, hcp, h1, h2]⟩
              · -- the edge is matched in full: go on at its end
                have hpre : (t.node child).key <+: first :: rest :=
                  cpLen_eq_length_iff.1 (le_antisymm (cpLen_le_right _ _) (not_lt.1 hcp))
                obtain ⟨rest', hrest'⟩ := hpre
                have hlen : rest'.length ≤ fuel := by
                  have h3 := congrArg List.length hrest'
                  rw [hkey] at h3
                  simp only [List.cons_append, List.length_cons, List.length_append] at h3 hle
                  omega
                have hs := sameShape_touch t child now
                have hv := h.sameShape hs
                have hmem' : (t.touch child now).Member child := by
                  rwa [Member, hs.nodes_eq]
                obtain ⟨t', ht', hrun⟩ :=
                  ih hv child rest' (ids ++ (t.node child).blockIds) hmem' hlen
                have hcp' : cpLen (first :: rest) (t.node child).key = (t.node child).key.length :=
                  le_antisymm (cpLen_le_right _ _) (not_lt.1 hcp)
                have hdrop : (first :: rest).drop (t.node child).key.length = rest' := by
                  rw [← hrest', List.drop_left]
                have hlenc : (full n).length + (t.node child).key.length = (full child).length := by
                  rw [hfull, hkey, List.length_append]
                have hpath : full n ++ first :: rest = full child ++ rest' := by
                  rw [hfull, ← hkey, List.append_assoc, hrest']
                have hbelow : A.below (full n) (first :: rest) =
                    (t.node child).blockIds ++ A.below (full child) rest' := by
                  rw [← hrest', h.below_child hn hc]
                refine ⟨t', hs.trans ht', ?_⟩
                simp only [matchPathLoop, hc, hcp', lt_irrefl, if_false, hdrop, hlenc, hrun, hpath,
                  hbelow, List.append_assoc]

/-- **`match_prefix_path` computes the walk of the trie.** -/
theorem matchPrefixPath_eq (now : Time) (T : List Token) :
    ∃ t', SameShape t t' ∧ t.matchPrefixPath now T = ((A.matched T, A.path T), t') := by
  rw [matchPrefixPath]
  split
  · rename_i hT
    subst hT
    exact ⟨t, SameShape.refl t, by simp [Nat.le_zero.1 (A.matched_le [])]⟩
  · obtain ⟨t', ht', hrun⟩ := h.matchPathLoop_eq now T.length root T [] t.member_root le_rfl
    rw [h.wf.full_root] at hrun
    exact ⟨t', ht', by simpa [PathTrie.path] using hrun⟩

/-- The walk to a node ends there. -/
theorem full_walkEnd : ∀ (fuel : ℕ) {n : Addr} {rest : List Token}, t.Member n →
    rest.length ≤ fuel → (rest = [] ∨ (A (full n ++ rest)).isSome) →
    t.Member (t.walkEnd fuel n rest) ∧ full (t.walkEnd fuel n rest) = full n ++ rest := by
  intro fuel
  induction fuel with
  | zero =>
      intro n rest hn hlen _
      obtain rfl : rest = [] := List.eq_nil_of_length_eq_zero (Nat.le_zero.1 hlen)
      exact ⟨hn, (List.append_nil _).symm⟩
  | succ fuel ih =>
      intro n rest hn hlen hor
      cases rest with
      | nil => exact ⟨hn, (List.append_nil _).symm⟩
      | cons first rest =>
          have hsome : (A (full n ++ first :: rest)).isSome := by
            rcases hor with hnil | hsome
            · simp at hnil
            · exact hsome
          cases hc : (t.node n).children.get? first with
          | none =>
              -- no edge goes on, so the walk meets no node below
              have hlen' := (h.stop_of_no_child hn hc rest).1
              have hge := PathTrie.le_matched (List.prefix_refl _) hsome
              rw [hlen', List.length_append, List.length_cons] at hge
              omega
          | some child =>
              obtain ⟨r, hkey, hfull⟩ := h.wf.full_child hn hc
              by_cases hcp : cpLen (first :: rest) (t.node child).key < (t.node child).key.length
              · have hlen' := (h.stop_of_partial hn hc hcp).1
                have hge := PathTrie.le_matched (List.prefix_refl _) hsome
                rw [hlen', List.length_append, List.length_cons] at hge
                omega
              · have hcp' : cpLen (first :: rest) (t.node child).key =
                    (t.node child).key.length :=
                  le_antisymm (cpLen_le_right _ _) (not_lt.1 hcp)
                obtain ⟨rest', hrest'⟩ := cpLen_eq_length_iff.1 hcp'
                have hdrop : (first :: rest).drop (t.node child).key.length = rest' := by
                  rw [← hrest', List.drop_left]
                have heq : full n ++ first :: rest = full child ++ rest' := by
                  rw [hfull, ← hkey, List.append_assoc, hrest']
                have hlen' : rest'.length ≤ fuel := by
                  have := congrArg List.length hrest'
                  rw [List.length_append, hkey] at this
                  simp only [List.length_cons] at this hlen
                  omega
                simp only [walkEnd, hc, hcp', lt_irrefl, if_false, hdrop]
                rw [heq]
                exact ih (Or.inr (h.wf.child n first child hn hc).1) hlen' (Or.inr (heq ▸ hsome))

end View

/-- An empty tree represents the empty trie. -/
theorem repr_init {bs : ℕ} (hbs : 1 ≤ bs) : (init bs).Repr bs (fun _ => none) := by
  refine ⟨max_eq_right hbs, fun _ => [], ⟨?_, rfl, rfl, ?_, ?_, ?_, ?_, ?_, ?_⟩, ?_⟩
  · simp [init]
  · simp [init]
  · rintro a (rfl | ha)
    · simp [init, root]
    · simp [init] at ha
  · simp [init]
  · simp [init]
  · simp [init]
  · simp [init]
  · simp [init]

end RadixTree

end NanoKVRouter
