/-
**Inserting into the prefix tree.**

An insertion ends at a node, adds a leaf, or splits an edge and then perhaps adds a leaf.  The two
changes of the objects are stated as changes of the trie, and `insert` is shown to take at most two
steps of the abstract cache: whatever it reuses of the path is left in place, and what it adds is
freshly allocated.

Main definitions:

* `RadixTree.withLeaf`, `RadixTree.withSplit` — the tree after a leaf is added or an edge split;
* `RadixTree.NewLeaf`, `RadixTree.NewSplit` — what is then known of its nodes;
* `RadixTree.keptBlocks` — the blocks on the path of a prompt that an insertion leaves on it;
* `RadixTree.boundaryBlock` — the block inside which an insertion splits an edge.

Main results:

* `RadixTree.View.withLeaf`, `RadixTree.View.withSplit` — the two changes of the objects;
* `RadixTree.insert_spec` — **insertion refines growth**: it returns with the whole prompt in the
  tree, or raises `MemoryError` between two steps; walks keep the blocks they start with, but those
  that go on past the boundary block.
-/

import NanoKVRouter.CacheState
import NanoKVRouter.RadixTreeShape

set_option relaxedAutoImplicit false
set_option autoImplicit false

namespace NanoKVRouter

namespace RadixTree

variable {t : RadixTree} {full : Addr → List Token} {A : PathTrie Token BlockId}

/-- A path for a new node leaves those of the old nodes as they are. -/
theorem WF.full_update (h : t.WF full) {a : Addr} (ha : t.Member a) (l : List Token) :
    Function.update full t.nextAddr l a = full a :=
  Function.update_of_ne (h.lt_nextAddr a ha).ne ..

/-! ### Adding a leaf -/

/-- The tree with a new leaf below `n`. -/
def withLeaf (t : RadixTree) (now : Time) (n : Addr) (first : Token) (key : List Token)
    (bids : List BlockId) (b : BlockId) : RadixTree :=
  ((t.newNode { key := key, blockIds := bids, lastAccessTime := now, parent := some n }).setChild
    n first t.nextAddr).index b t.nextAddr

section WithLeaf

variable {now : Time} {n : Addr} {first : Token} {key : List Token} {bids : List BlockId}
  {b : BlockId}

theorem node_withLeaf_self (hn : n < t.nextAddr) :
    (t.withLeaf now n first key bids b).node t.nextAddr =
      { key := key, blockIds := bids, lastAccessTime := now, parent := some n } := by
  have hne : t.nextAddr ≠ n := (Nat.ne_of_lt hn).symm
  simp [withLeaf, index, setChild, modifyNode, newNode, Function.update_of_ne hne]

theorem node_withLeaf_of_ne {a : Addr} (hn : n < t.nextAddr) (ha : a ≠ t.nextAddr) :
    (t.withLeaf now n first key bids b).node a =
      { t.node a with
        children := if a = n then (t.node n).children.set first t.nextAddr
          else (t.node a).children } := by
  have hne : n ≠ t.nextAddr := Nat.ne_of_lt hn
  by_cases han : a = n
  · subst han
    simp [withLeaf, index, setChild, modifyNode, newNode, Function.update_of_ne hne]
  · simp [withLeaf, index, setChild, modifyNode, newNode, Function.update_of_ne ha, han]

theorem mem_values_withLeaf (hb : b ∉ t.nodes.keys) {a : Addr} :
    a ∈ (t.withLeaf now n first key bids b).nodes.values ↔ a = t.nextAddr ∨ a ∈ t.nodes.values := by
  have hset : (t.withLeaf now n first key bids b).nodes = t.nodes.set b t.nextAddr := rfl
  simp only [hset, PyDict.mem_values, PyDict.mem_entries_set]
  constructor
  · rintro ⟨k, ⟨-, rfl⟩ | ⟨-, h⟩⟩
    · exact Or.inl rfl
    · exact Or.inr ⟨k, h⟩
  · rintro (rfl | ⟨k, h⟩)
    · exact ⟨b, Or.inl ⟨rfl, rfl⟩⟩
    · refine ⟨k, Or.inr ⟨?_, h⟩⟩
      rintro rfl
      exact hb (PyDict.mem_keys.2 ⟨a, h⟩)

/-- `t'` is `t` with a new leaf below `n`, which is indexed by the block `b`. -/
structure NewLeaf (t : RadixTree) (now : Time) (n : Addr) (first : Token) (key : List Token)
    (bids : List BlockId) (b : BlockId) (t' : RadixTree) : Prop where
  blockSize_eq : t'.blockSize = t.blockSize
  nextAddr_eq : t'.nextAddr = t.nextAddr + 1
  entries : ∀ k a, (k, a) ∈ t'.nodes.entries → (k = b ∧ a = t.nextAddr) ∨ (k, a) ∈ t.nodes.entries
  mem_values_iff : ∀ a, a ∈ t'.nodes.values ↔ a = t.nextAddr ∨ a ∈ t.nodes.values
  leaf : t'.node t.nextAddr =
    { key := key, blockIds := bids, lastAccessTime := now, parent := some n }
  other : ∀ a, t.Member a → t'.node a = { t.node a with
    children := if a = n then (t.node n).children.set first t.nextAddr else (t.node a).children }

theorem WF.newLeaf_withLeaf (h : t.WF full) (hn : t.Member n) (hb : b ∉ t.nodes.keys) :
    t.NewLeaf now n first key bids b (t.withLeaf now n first key bids b) where
  blockSize_eq := rfl
  nextAddr_eq := rfl
  entries := fun _ _ hka => (PyDict.mem_entries_set.1 hka).imp_right And.right
  mem_values_iff := fun _ => mem_values_withLeaf hb
  leaf := node_withLeaf_self (h.lt_nextAddr n hn)
  other := fun a ha => node_withLeaf_of_ne (h.lt_nextAddr n hn) (h.lt_nextAddr a ha).ne

namespace NewLeaf

variable {t' : RadixTree} (ht : t.NewLeaf now n first key bids b t')
include ht

theorem member_iff (a : Addr) : t'.Member a ↔ a = t.nextAddr ∨ t.Member a := by
  rw [Member, ht.mem_values_iff, Member]
  tauto

theorem index_head (h : t.WF full) (hbids : bids.head? = some b) {k : BlockId} {a : Addr}
    (hka : (k, a) ∈ t'.nodes.entries) : (t'.node a).blockIds.head? = some k := by
  rcases ht.entries k a hka with ⟨rfl, rfl⟩ | hka
  · rw [ht.leaf]
    exact hbids
  · rw [ht.other a (Or.inr (PyDict.mem_values.2 ⟨k, hka⟩))]
    exact h.index_head k a hka

theorem lt_nextAddr (h : t.WF full) {a : Addr} (ha : t'.Member a) : a < t'.nextAddr := by
  rw [ht.nextAddr_eq]
  rcases (ht.member_iff a).1 ha with rfl | ha
  · exact Nat.lt_succ_self _
  · exact Nat.lt_succ_of_lt (h.lt_nextAddr a ha)

theorem length_blockIds (h : t.WF full) (hlen : bids.length = t.nBlocks key) {a : Addr}
    (ha : a ∈ t'.nodes.values) : (t'.node a).blockIds.length = t'.nBlocks (t'.node a).key := by
  rw [nBlocks, ht.blockSize_eq]
  rcases (ht.mem_values_iff a).1 ha with rfl | ha
  · rw [ht.leaf]
    exact hlen
  · rw [ht.other a (Or.inr ha)]
    exact h.length_blockIds a ha

theorem refCount_zero (h : t.WF full) {a : Addr} (ha : t'.Member a) :
    (t'.node a).refCount = 0 := by
  rcases (ht.member_iff a).1 ha with rfl | ha
  · rw [ht.leaf]
  · rw [ht.other a ha]
    exact h.refCount_zero a ha

theorem parent (h : t.WF full) (hn : t.Member n) (hfree : (t.node n).children.get? first = none)
    {rest : List Token} (hkey : key = first :: rest) {a : Addr} (ha : a ∈ t'.nodes.values) :
    ∃ p tok rest, t'.Member p ∧ (t'.node a).parent = some p ∧ (t'.node a).key = tok :: rest ∧
      (t'.node p).children.get? tok = some a ∧
      Function.update full t.nextAddr (full n ++ key) a =
        Function.update full t.nextAddr (full n ++ key) p ++ (t'.node a).key := by
  rcases (ht.mem_values_iff a).1 ha with rfl | ha
  · refine ⟨n, first, rest, (ht.member_iff n).2 (Or.inr hn), ?_⟩
    rw [ht.leaf, ht.other n hn, Function.update_self, h.full_update hn]
    exact ⟨rfl, hkey, by simp, rfl⟩
  · obtain ⟨p, tok, rest', hp, hpar, hkey', hpa, hfa⟩ := h.parent a ha
    refine ⟨p, tok, rest', (ht.member_iff p).2 (Or.inr hp), ?_⟩
    rw [ht.other a (Or.inr ha), ht.other p hp, h.full_update (Or.inr ha), h.full_update hp]
    refine ⟨hpar, hkey', ?_, hfa⟩
    by_cases hpn : p = n
    · subst hpn
      have htok : tok ≠ first := by
        rintro rfl
        rw [hfree] at hpa
        cases hpa
      simpa [PyDict.get?_set_of_ne _ _ htok] using hpa
    · simpa [hpn] using hpa

theorem child (h : t.WF full) {rest : List Token} (hkey : key = first :: rest) {p c : Addr}
    {tok : Token} (hp : t'.Member p) (hpc : (t'.node p).children.get? tok = some c) :
    c ∈ t'.nodes.values ∧ (t'.node c).parent = some p ∧
      ∃ rest, (t'.node c).key = tok :: rest := by
  have hold : t.Member p → (t.node p).children.get? tok = some c → c ∈ t'.nodes.values ∧
      (t'.node c).parent = some p ∧ ∃ rest, (t'.node c).key = tok :: rest := by
    intro hp hpc
    obtain ⟨hcv, hcp, hck⟩ := h.child p tok c hp hpc
    rw [ht.other c (Or.inr hcv)]
    exact ⟨(ht.mem_values_iff c).2 (Or.inr hcv), hcp, hck⟩
  rcases (ht.member_iff p).1 hp with rfl | hp'
  · rw [ht.leaf] at hpc
    cases hpc
  · rw [ht.other p hp'] at hpc
    by_cases hpn : p = n
    · subst hpn
      simp only [if_true] at hpc
      by_cases htok : tok = first
      · subst htok
        rw [PyDict.get?_set_self, Option.some_inj] at hpc
        subst hpc
        rw [ht.leaf]
        exact ⟨(ht.mem_values_iff _).2 (Or.inl rfl), rfl, rest, hkey⟩
      · rw [PyDict.get?_set_of_ne _ _ htok] at hpc
        exact hold hp' hpc
    · simp only [hpn, if_false] at hpc
      exact hold hp' hpc

/-- The trie has the new node, and the old ones as they were. -/
theorem eq_some_iff (h : t.View full A) (hnode : A (full n ++ key) = none) (w : List Token)
    (x : List BlockId) : A.put (full n ++ key) bids w = some x ↔ ∃ a ∈ t'.nodes.values,
      Function.update full t.nextAddr (full n ++ key) a = w ∧ (t'.node a).blockIds = x := by
  have hsplit : (∃ a ∈ t'.nodes.values, Function.update full t.nextAddr (full n ++ key) a = w ∧
      (t'.node a).blockIds = x) ↔ (full n ++ key = w ∧ bids = x) ∨ A w = some x := by
    rw [h.eq_some_iff]
    constructor
    · rintro ⟨a, ha, hfa, hx⟩
      rcases (ht.mem_values_iff a).1 ha with rfl | ha
      · rw [Function.update_self] at hfa
        rw [ht.leaf] at hx
        exact Or.inl ⟨hfa, hx⟩
      · rw [h.wf.full_update (Or.inr ha)] at hfa
        rw [ht.other a (Or.inr ha)] at hx
        exact Or.inr ⟨a, ha, hfa, hx⟩
    · rintro (⟨hw, hx⟩ | ⟨a, ha, hfa, hx⟩)
      · refine ⟨t.nextAddr, (ht.mem_values_iff _).2 (Or.inl rfl), ?_, ?_⟩
        · rw [Function.update_self, hw]
        · rw [ht.leaf, hx]
      · refine ⟨a, (ht.mem_values_iff a).2 (Or.inr ha), ?_, ?_⟩
        · rw [h.wf.full_update (Or.inr ha), hfa]
        · rw [ht.other a (Or.inr ha), hx]
  rw [hsplit]
  by_cases hw : w = full n ++ key
  · subst hw
    rw [PathTrie.put_self, Option.some_inj, hnode]
    simp
  · rw [PathTrie.put_of_ne _ _ hw]
    simp [Ne.symm hw]

end NewLeaf

/-- **A new leaf is a new node of the trie.** -/
theorem View.withLeaf (h : t.View full A) (now : Time) (hn : t.Member n)
    (hc : (t.node n).children.get? first = none) {rest : List Token} (hkey : key = first :: rest)
    {bs : List BlockId} (hbids : bids = b :: bs) (hlen : bids.length = t.nBlocks key)
    (hb : b ∉ t.nodes.keys) :
    (t.withLeaf now n first key bids b).View (Function.update full t.nextAddr (full n ++ key))
      (A.put (full n ++ key) bids) := by
  have ht : t.NewLeaf now n first key bids b _ := h.wf.newLeaf_withLeaf hn hb
  have hnode : A (full n ++ key) = none := by
    refine h.none_of_no_child hn hc ?_
    rw [hkey, List.prefix_append_right_inj]
    simp
  have hwf : (t.withLeaf now n first key bids b).WF
      (Function.update full t.nextAddr (full n ++ key)) :=
    { blockSize_pos := h.wf.blockSize_pos
      full_root := (h.wf.full_update t.member_root _).trans h.wf.full_root
      root_blockIds := by
        rw [ht.other root t.member_root]
        exact h.wf.root_blockIds
      index_head := fun _ _ => ht.index_head h.wf (by rw [hbids]; rfl)
      lt_nextAddr := fun _ => ht.lt_nextAddr h.wf
      length_blockIds := fun _ => ht.length_blockIds h.wf hlen
      refCount_zero := fun _ => ht.refCount_zero h.wf
      parent := fun _ => ht.parent h.wf hn hc hkey
      child := fun _ _ _ => ht.child h.wf hkey }
  exact ⟨hwf, ht.eq_some_iff h hnode⟩

end WithLeaf

/-! ### Splitting an edge -/

/-- The tree with the edge from `n` to `c` split after `cp` tokens. -/
def withSplit (t : RadixTree) (now : Time) (n : Addr) (first : Token) (c : Addr) (cp : ℕ)
    (mids childs : List BlockId) (childFirst : Token) (midHead childHead : BlockId) : RadixTree :=
  (((((t.newNode { key := (t.node c).key.take cp, blockIds := mids, lastAccessTime := now,
                   parent := some n }).modifyNode c
    fun x => { x with key := (t.node c).key.drop cp, blockIds := childs,
                      parent := some t.nextAddr }).setChild
      t.nextAddr childFirst c).setChild n first t.nextAddr).index midHead t.nextAddr).index
        childHead c

section WithSplit

variable {now : Time} {n c : Addr} {first childFirst : Token} {cp : ℕ} {mids childs : List BlockId}
  {midHead childHead : BlockId}

theorem node_withSplit_mid (hn : n < t.nextAddr) (hc : c < t.nextAddr) :
    (t.withSplit now n first c cp mids childs childFirst midHead childHead).node t.nextAddr =
      { key := (t.node c).key.take cp, blockIds := mids, lastAccessTime := now, parent := some n,
        children := PyDict.empty.set childFirst c } := by
  have h1 : t.nextAddr ≠ n := (Nat.ne_of_lt hn).symm
  have h2 : t.nextAddr ≠ c := (Nat.ne_of_lt hc).symm
  simp [withSplit, index, setChild, modifyNode, newNode, Function.update_of_ne h1,
    Function.update_of_ne h2]

theorem node_withSplit_child (hc : c < t.nextAddr) (hcn : c ≠ n) :
    (t.withSplit now n first c cp mids childs childFirst midHead childHead).node c =
      { t.node c with key := (t.node c).key.drop cp, blockIds := childs,
                      parent := some t.nextAddr } := by
  have h1 : c ≠ t.nextAddr := Nat.ne_of_lt hc
  simp [withSplit, index, setChild, modifyNode, newNode, Function.update_of_ne hcn,
    Function.update_of_ne h1]

theorem node_withSplit_of_ne {a : Addr} (hn : n < t.nextAddr) (hcn : c ≠ n)
    (ha : a ≠ t.nextAddr) (hac : a ≠ c) :
    (t.withSplit now n first c cp mids childs childFirst midHead childHead).node a =
      { t.node a with
        children := if a = n then (t.node n).children.set first t.nextAddr
          else (t.node a).children } := by
  have h1 : n ≠ t.nextAddr := Nat.ne_of_lt hn
  by_cases han : a = n
  · subst han
    simp [withSplit, index, setChild, modifyNode, newNode, Function.update_of_ne h1,
      Function.update_of_ne hac]
  · simp [withSplit, index, setChild, modifyNode, newNode, Function.update_of_ne ha,
      Function.update_of_ne hac, han]

theorem mem_values_withSplit (hmid : (midHead, c) ∈ t.nodes.entries)
    (hchild : childHead ∉ t.nodes.keys) {a : Addr} :
    a ∈ (t.withSplit now n first c cp mids childs childFirst midHead childHead).nodes.values ↔
      a = t.nextAddr ∨ a ∈ t.nodes.values := by
  have hset : (t.withSplit now n first c cp mids childs childFirst midHead childHead).nodes =
      (t.nodes.set midHead t.nextAddr).set childHead c := rfl
  have hkeys : ∀ {k v}, (k, v) ∈ t.nodes.entries → k ≠ childHead := by
    rintro k v h rfl
    exact hchild (PyDict.mem_keys.2 ⟨v, h⟩)
  simp only [hset, PyDict.mem_values, PyDict.mem_entries_set]
  constructor
  · rintro ⟨k, ⟨-, rfl⟩ | ⟨-, ⟨-, rfl⟩ | ⟨-, h⟩⟩⟩
    · exact Or.inr ⟨midHead, hmid⟩
    · exact Or.inl rfl
    · exact Or.inr ⟨k, h⟩
  · rintro (rfl | ⟨k, h⟩)
    · exact ⟨midHead, Or.inr ⟨hkeys hmid, Or.inl ⟨rfl, rfl⟩⟩⟩
    · by_cases hk : k = midHead
      · subst hk
        exact ⟨childHead, Or.inl ⟨rfl, PyDict.eq_of_mem_entries h hmid⟩⟩
      · exact ⟨k, Or.inr ⟨hkeys h, Or.inr ⟨hk, h⟩⟩⟩

/-- `t'` is `t` with the edge from `n` to `c` split after `cp` tokens: a new node in the middle keeps
the blocks `mids`, and `c` below it the blocks `childs`. -/
structure NewSplit (t : RadixTree) (now : Time) (n : Addr) (first : Token) (c : Addr) (cp : ℕ)
    (mids childs : List BlockId) (childFirst : Token) (t' : RadixTree) : Prop where
  blockSize_eq : t'.blockSize = t.blockSize
  nextAddr_eq : t'.nextAddr = t.nextAddr + 1
  entries : ∀ k a, (k, a) ∈ t'.nodes.entries → (childs.head? = some k ∧ a = c) ∨
    (mids.head? = some k ∧ a = t.nextAddr) ∨ (a ≠ c ∧ (k, a) ∈ t.nodes.entries)
  mem_values_iff : ∀ a, a ∈ t'.nodes.values ↔ a = t.nextAddr ∨ a ∈ t.nodes.values
  mid : t'.node t.nextAddr =
    { key := (t.node c).key.take cp, blockIds := mids, lastAccessTime := now, parent := some n,
      children := PyDict.empty.set childFirst c }
  lower : t'.node c =
    { t.node c with
      key := (t.node c).key.drop cp, blockIds := childs, parent := some t.nextAddr }
  other : ∀ a, t.Member a → a ≠ c → t'.node a = { t.node a with
    children := if a = n then (t.node n).children.set first t.nextAddr else (t.node a).children }

/-- A node is not its own child. -/
theorem WF.child_ne (h : t.WF full) (hn : t.Member n)
    (hc : (t.node n).children.get? first = some c) : c ≠ n := by
  rintro rfl
  obtain ⟨r, -, hf⟩ := h.full_child hn hc
  have := congrArg List.length hf
  rw [List.length_append, List.length_cons] at this
  omega

/-- The two halves of an edge lead to its end. -/
theorem WF.full_halves (h : t.WF full) (hn : t.Member n)
    (hc : (t.node n).children.get? first = some c) (cp : ℕ) :
    full n ++ (t.node c).key.take cp ++ (t.node c).key.drop cp = full c := by
  obtain ⟨r, hr, hf⟩ := h.full_child hn hc
  rw [List.append_assoc, List.take_append_drop, hf, hr]

/-- The upper half of an edge starts with its token. -/
theorem WF.take_eq_cons (h : t.WF full) (hn : t.Member n)
    (hc : (t.node n).children.get? first = some c) (hcp : 0 < cp) :
    ∃ r, (t.node c).key.take cp = first :: r := by
  obtain ⟨k, rfl⟩ := Nat.exists_eq_add_of_lt hcp
  obtain ⟨r, hr, -⟩ := h.full_child hn hc
  exact ⟨r.take (0 + k), by rw [hr]; rfl⟩

/-- The node in the middle of an edge is not its end. -/
theorem WF.full_mid_ne (h : t.WF full) (hn : t.Member n)
    (hc : (t.node n).children.get? first = some c) {rest : List Token}
    (hkey : (t.node c).key.drop cp = childFirst :: rest) :
    full n ++ (t.node c).key.take cp ≠ full c := by
  rw [← h.full_halves hn hc cp]
  intro heq
  have hnil := List.self_eq_append_right.1 heq
  rw [hkey] at hnil
  cases hnil

theorem WF.newSplit_withSplit (h : t.WF full) (hn : t.Member n)
    (hc : (t.node n).children.get? first = some c) (hmids : mids.head? = some midHead)
    (hchilds : childs.head? = some childHead) (hmid : (midHead, c) ∈ t.nodes.entries)
    (hchild : childHead ∉ t.nodes.keys) :
    t.NewSplit now n first c cp mids childs childFirst
      (t.withSplit now n first c cp mids childs childFirst midHead childHead) where
  blockSize_eq := rfl
  nextAddr_eq := rfl
  entries := by
    intro k a hka
    rcases PyDict.mem_entries_set.1 hka with ⟨rfl, rfl⟩ | ⟨-, hka⟩
    · exact Or.inl ⟨hchilds, rfl⟩
    · rcases PyDict.mem_entries_set.1 hka with ⟨rfl, rfl⟩ | ⟨hk, hka⟩
      · exact Or.inr (Or.inl ⟨hmids, rfl⟩)
      · refine Or.inr (Or.inr ⟨?_, hka⟩)
        -- the index lists `c` once, under `midHead`
        rintro rfl
        have hhead := h.index_head _ _ hka
        rw [h.index_head _ _ hmid, Option.some_inj] at hhead
        exact hk hhead.symm
  mem_values_iff := fun _ => mem_values_withSplit hmid hchild
  mid := node_withSplit_mid (h.lt_nextAddr n hn) (h.lt_nextAddr c (h.member_child hn hc))
  lower := node_withSplit_child (h.lt_nextAddr c (h.member_child hn hc)) (h.child_ne hn hc)
  other := fun a ha hac => node_withSplit_of_ne (h.lt_nextAddr n hn) (h.child_ne hn hc)
    (h.lt_nextAddr a ha).ne hac

namespace NewSplit

variable {t' : RadixTree} (ht : t.NewSplit now n first c cp mids childs childFirst t')
include ht

theorem member_iff (a : Addr) : t'.Member a ↔ a = t.nextAddr ∨ t.Member a := by
  rw [Member, ht.mem_values_iff, Member]
  tauto

/-- An old node is the lower half of the edge, or it keeps its key and its blocks. -/
theorem lower_or_other {a : Addr} (ha : t.Member a) : a = c ∨
    (a ≠ c ∧ (t'.node a).key = (t.node a).key ∧ (t'.node a).blockIds = (t.node a).blockIds) := by
  by_cases hac : a = c
  · exact Or.inl hac
  · rw [ht.other a ha hac]
    exact Or.inr ⟨hac, rfl, rfl⟩

theorem index_head (h : t.WF full) {k : BlockId} {a : Addr} (hka : (k, a) ∈ t'.nodes.entries) :
    (t'.node a).blockIds.head? = some k := by
  rcases ht.entries k a hka with ⟨hk, rfl⟩ | ⟨hk, rfl⟩ | ⟨hac, hka⟩
  · rw [ht.lower]
    exact hk
  · rw [ht.mid]
    exact hk
  · rw [ht.other a (Or.inr (PyDict.mem_values.2 ⟨k, hka⟩)) hac]
    exact h.index_head k a hka

theorem lt_nextAddr (h : t.WF full) {a : Addr} (ha : t'.Member a) : a < t'.nextAddr := by
  rw [ht.nextAddr_eq]
  rcases (ht.member_iff a).1 ha with rfl | ha
  · exact Nat.lt_succ_self _
  · exact Nat.lt_succ_of_lt (h.lt_nextAddr a ha)

theorem length_blockIds (h : t.WF full)
    (hlenm : mids.length = t.nBlocks ((t.node c).key.take cp))
    (hlenc : childs.length = t.nBlocks ((t.node c).key.drop cp)) {a : Addr}
    (ha : a ∈ t'.nodes.values) : (t'.node a).blockIds.length = t'.nBlocks (t'.node a).key := by
  rw [nBlocks, ht.blockSize_eq]
  rcases (ht.mem_values_iff a).1 ha with rfl | ha
  · rw [ht.mid]
    exact hlenm
  · rcases ht.lower_or_other (Or.inr ha) with rfl | ⟨-, hkey, hblocks⟩
    · rw [ht.lower]
      exact hlenc
    · rw [hkey, hblocks]
      exact h.length_blockIds a ha

theorem refCount_zero (h : t.WF full) {a : Addr} (ha : t'.Member a) :
    (t'.node a).refCount = 0 := by
  rcases (ht.member_iff a).1 ha with rfl | ha
  · rw [ht.mid]
  · by_cases hac : a = c
    · subst hac
      rw [ht.lower]
      exact h.refCount_zero a ha
    · rw [ht.other a ha hac]
      exact h.refCount_zero a ha

section Edge

variable (h : t.WF full) (hn : t.Member n) (hc : (t.node n).children.get? first = some c)
  (hcp : 0 < cp) {rest : List Token} (hkey : (t.node c).key.drop cp = childFirst :: rest)
include h hn hc

include hcp hkey in
theorem parent {a : Addr} (ha : a ∈ t'.nodes.values) :
    ∃ p tok rest, t'.Member p ∧ (t'.node a).parent = some p ∧ (t'.node a).key = tok :: rest ∧
      (t'.node p).children.get? tok = some a ∧
      Function.update full t.nextAddr (full n ++ (t.node c).key.take cp) a =
        Function.update full t.nextAddr (full n ++ (t.node c).key.take cp) p ++
          (t'.node a).key := by
  have hcn := h.child_ne hn hc
  rcases (ht.mem_values_iff a).1 ha with rfl | ha
  · obtain ⟨r, hr⟩ := h.take_eq_cons hn hc hcp
    refine ⟨n, first, r, (ht.member_iff n).2 (Or.inr hn), ?_⟩
    rw [ht.mid, ht.other n hn hcn.symm, Function.update_self, h.full_update hn]
    exact ⟨rfl, hr, by simp, rfl⟩
  · by_cases hac : a = c
    · subst hac
      refine ⟨t.nextAddr, childFirst, rest, (ht.member_iff _).2 (Or.inl rfl), ?_⟩
      rw [ht.lower, ht.mid, Function.update_self, h.full_update (Or.inr ha)]
      exact ⟨rfl, hkey, by simp, (h.full_halves hn hc cp).symm⟩
    · obtain ⟨p, tok, rest', hp, hpar, hkey', hpa, hfa⟩ := h.parent a ha
      refine ⟨p, tok, rest', (ht.member_iff p).2 (Or.inr hp), ?_⟩
      rw [ht.other a (Or.inr ha) hac, h.full_update (Or.inr ha), h.full_update hp]
      refine ⟨hpar, hkey', ?_, hfa⟩
      by_cases hpc : p = c
      · subst hpc
        rw [ht.lower]
        exact hpa
      · rw [ht.other p hp hpc]
        by_cases hpn : p = n
        · subst hpn
          have htok : tok ≠ first := by
            rintro rfl
            rw [hc, Option.some_inj] at hpa
            exact hac hpa.symm
          simpa [PyDict.get?_set_of_ne _ _ htok] using hpa
        · simpa [hpn] using hpa

include hcp hkey in
theorem child {p x : Addr} {tok : Token} (hp : t'.Member p)
    (hpx : (t'.node p).children.get? tok = some x) :
    x ∈ t'.nodes.values ∧ (t'.node x).parent = some p ∧
      ∃ rest, (t'.node x).key = tok :: rest := by
  obtain ⟨hcv, hcpar, keyRest, hckey⟩ := h.child n first c hn hc
  -- an old child keeps its edge, unless it is `c`
  have hold : t.Member p → (t.node p).children.get? tok = some x → x ≠ c →
      x ∈ t'.nodes.values ∧ (t'.node x).parent = some p ∧
        ∃ rest, (t'.node x).key = tok :: rest := by
    intro hp hpx hxc
    obtain ⟨hxv, hxp, hxk⟩ := h.child p tok x hp hpx
    rw [ht.other x (Or.inr hxv) hxc]
    exact ⟨(ht.mem_values_iff x).2 (Or.inr hxv), hxp, hxk⟩
  have hne : t.Member p → (t.node p).children.get? tok = some x → p ≠ n → x ≠ c := by
    rintro hp hpx hpn rfl
    obtain ⟨-, hxp, -⟩ := h.child p tok x hp hpx
    rw [hcpar, Option.some_inj] at hxp
    exact hpn hxp.symm
  rcases (ht.member_iff p).1 hp with rfl | hp'
  · rw [ht.mid] at hpx
    by_cases htok : tok = childFirst
    · subst htok
      rw [PyDict.get?_set_self, Option.some_inj] at hpx
      subst hpx
      rw [ht.lower]
      exact ⟨(ht.mem_values_iff c).2 (Or.inr hcv), rfl, rest, hkey⟩
    · rw [PyDict.get?_set_of_ne _ _ htok] at hpx
      cases hpx
  · by_cases hpc : p = c
    · subst hpc
      rw [ht.lower] at hpx
      exact hold hp' hpx (hne hp' hpx (h.child_ne hn hc))
    · rw [ht.other p hp' hpc] at hpx
      by_cases hpn : p = n
      · subst hpn
        simp only [if_true] at hpx
        by_cases htok : tok = first
        · subst htok
          rw [PyDict.get?_set_self, Option.some_inj] at hpx
          subst hpx
          rw [ht.mid]
          exact ⟨(ht.mem_values_iff _).2 (Or.inl rfl), rfl, h.take_eq_cons hn hc hcp⟩
        · rw [PyDict.get?_set_of_ne _ _ htok] at hpx
          refine hold hp' hpx ?_
          rintro rfl
          obtain ⟨-, -, r, hr⟩ := h.child _ _ _ hp' hpx
          rw [hckey, List.cons.injEq] at hr
          exact htok hr.1.symm
      · simp only [hpn, if_false] at hpx
        exact hold hp' hpx (hne hp' hpx hpn)

end Edge

/-- The nodes of the new tree are the two halves of the edge and the other nodes of the old one. -/
theorem exists_node_iff (h : t.View full A) (hc : c ∈ t.nodes.values) {y : List Token}
    (w : List Token) (x : List BlockId) :
    (∃ a ∈ t'.nodes.values, Function.update full t.nextAddr y a = w ∧
      (t'.node a).blockIds = x) ↔
      (y = w ∧ mids = x) ∨ (full c = w ∧ childs = x) ∨ (w ≠ full c ∧ A w = some x) := by
  rw [h.eq_some_iff]
  constructor
  · rintro ⟨a, ha, hfa, hx⟩
    rcases (ht.mem_values_iff a).1 ha with rfl | ha
    · rw [Function.update_self] at hfa
      rw [ht.mid] at hx
      exact Or.inl ⟨hfa, hx⟩
    · rw [h.wf.full_update (Or.inr ha)] at hfa
      rcases ht.lower_or_other (Or.inr ha) with rfl | ⟨hac, -, hblocks⟩
      · rw [ht.lower] at hx
        exact Or.inr (Or.inl ⟨hfa, hx⟩)
      · have hwc : w ≠ full c := fun hw =>
          hac (h.wf.full_inj (Or.inr ha) (Or.inr hc) (hfa.trans hw))
        exact Or.inr (Or.inr ⟨hwc, a, ha, hfa, hblocks ▸ hx⟩)
  · rintro (⟨hw, hx⟩ | ⟨hw, hx⟩ | ⟨hwc, a, ha, hfa, hx⟩)
    · refine ⟨t.nextAddr, (ht.mem_values_iff _).2 (Or.inl rfl), ?_, ?_⟩
      · rw [Function.update_self, hw]
      · rw [ht.mid, hx]
    · refine ⟨c, (ht.mem_values_iff c).2 (Or.inr hc), ?_, ?_⟩
      · rw [h.wf.full_update (Or.inr hc), hw]
      · rw [ht.lower, hx]
    · refine ⟨a, (ht.mem_values_iff a).2 (Or.inr ha), ?_, ?_⟩
      · rw [h.wf.full_update (Or.inr ha), hfa]
      · rcases ht.lower_or_other (Or.inr ha) with rfl | ⟨-, -, hblocks⟩
        · exact absurd hfa.symm hwc
        · rw [hblocks, hx]

/-- The trie has the new node in the middle, the shorter one below it, and the others as they
were. -/
theorem eq_some_iff (h : t.View full A) (hc : c ∈ t.nodes.values) {y : List Token}
    (hyc : y ≠ full c) (hy : A y = none) (w : List Token) (x : List BlockId) :
    A.split y (full c) mids childs w = some x ↔ ∃ a ∈ t'.nodes.values,
      Function.update full t.nextAddr y a = w ∧ (t'.node a).blockIds = x := by
  rw [ht.exists_node_iff h hc]
  by_cases hwy : w = y
  · subst hwy
    rw [PathTrie.split_mid, Option.some_inj, hy]
    simp [hyc.symm]
  · by_cases hwc : w = full c
    · subst hwc
      rw [PathTrie.split_end _ _ _ hyc, Option.some_inj]
      simp [hyc]
    · rw [PathTrie.split_of_ne _ _ _ hwy hwc]
      simp [Ne.symm hwy, Ne.symm hwc, hwc]

end NewSplit

/-- **A split edge is a split of the trie.** -/
theorem View.withSplit (h : t.View full A) (now : Time) (hn : t.Member n)
    (hc : (t.node n).children.get? first = some c) (hcp : 0 < cp)
    {ms cs : List BlockId} {rest : List Token} (hmids : mids = midHead :: ms)
    (hchilds : childs = childHead :: cs)
    (hkey : (t.node c).key.drop cp = childFirst :: rest)
    (hlenm : mids.length = t.nBlocks ((t.node c).key.take cp))
    (hlenc : childs.length = t.nBlocks ((t.node c).key.drop cp))
    (hmid : (midHead, c) ∈ t.nodes.entries) (hchild : childHead ∉ t.nodes.keys) :
    (t.withSplit now n first c cp mids childs childFirst midHead childHead).View
      (Function.update full t.nextAddr (full n ++ (t.node c).key.take cp))
      (A.split (full n ++ (t.node c).key.take cp) (full c) mids childs) := by
  have ht : t.NewSplit now n first c cp mids childs childFirst _ :=
    h.wf.newSplit_withSplit hn hc (by rw [hmids]; rfl) (by rw [hchilds]; rfl) hmid hchild
  have hcv : c ∈ t.nodes.values := PyDict.mem_values.2 ⟨midHead, hmid⟩
  have hyc := h.wf.full_mid_ne hn hc hkey
  have hnone : A (full n ++ (t.node c).key.take cp) = none := by
    obtain ⟨r, hr⟩ := h.wf.take_eq_cons hn hc hcp
    refine h.none_inside_edge hn hc (List.prefix_append _ _)
      ⟨_, h.wf.full_halves hn hc cp⟩ ?_ hyc
    rw [hr]
    simp
  have hwf : (t.withSplit now n first c cp mids childs childFirst midHead childHead).WF
      (Function.update full t.nextAddr (full n ++ (t.node c).key.take cp)) :=
    { blockSize_pos := h.wf.blockSize_pos
      full_root := (h.wf.full_update t.member_root _).trans h.wf.full_root
      root_blockIds := by
        rw [ht.other root t.member_root fun he => h.wf.root_notMem (he ▸ hcv)]
        exact h.wf.root_blockIds
      index_head := fun _ _ => ht.index_head h.wf
      lt_nextAddr := fun _ => ht.lt_nextAddr h.wf
      length_blockIds := fun _ => ht.length_blockIds h.wf hlenm hlenc
      refCount_zero := fun _ => ht.refCount_zero h.wf
      parent := fun _ => ht.parent h.wf hn hc hcp hkey
      child := fun _ _ _ => ht.child h.wf hn hc hcp hkey }
  exact ⟨hwf, ht.eq_some_iff h hcv hyc hnone⟩

/-- The new middle node of a split edge. -/
theorem member_withSplit_mid (now : Time) (n : Addr) (first : Token) (cp : ℕ)
    (mids childs : List BlockId) (childFirst : Token) (hmid : (midHead, c) ∈ t.nodes.entries)
    (hchild : childHead ∉ t.nodes.keys) :
    (t.withSplit now n first c cp mids childs childFirst midHead childHead).Member t.nextAddr :=
  Or.inr ((mem_values_withSplit hmid hchild).2 (Or.inl rfl))

/-- It has the lower half of the edge as its only child. -/
theorem View.no_child_withSplit_mid (h : t.View full A) (now : Time) (first : Token) (cp : ℕ)
    (mids childs : List BlockId) (midHead childHead : BlockId) (hn : t.Member n) (hc : t.Member c)
    {tok : Token} (htok : tok ≠ childFirst) :
    ((t.withSplit now n first c cp mids childs childFirst midHead childHead).node
      t.nextAddr).children.get? tok = none := by
  rw [node_withSplit_mid (h.wf.lt_nextAddr n hn) (h.wf.lt_nextAddr c hc),
    PyDict.get?_set_of_ne _ _ htok]
  rfl

end WithSplit

/-! ### The calls -/

section Runs

variable {π : Type} {mint : ℕ → Py π (List BlockId)} {now : Time} {p q r : π}

theorem run_insertLeaf {n : Addr} {first : Token} {key : List Token} {b : BlockId}
    {bs : List BlockId} (h : (mint (t.nBlocks key)).run p = .ok (b :: bs) q) :
    (insertLeaf mint now n first key).run (t, p) =
      .ok (b :: bs) (t.withLeaf now n first key (b :: bs) b, q) := by
  simp only [insertLeaf, bind_pure_comp, EStateM.run_bind, EStateM.run_get, run_callback_ok h,
    run_modifyTree, run_item0_cons, withLeaf]
  rfl

theorem run_insertLeaf_error {n : Addr} {first : Token} {key : List Token} {e : PyErr}
    (h : (mint (t.nBlocks key)).run p = .error e q) :
    (insertLeaf mint now n first key).run (t, p) = .error e (t, q) := by
  simp [insertLeaf, run_callback_error h]

variable {n c : Addr} {first childFirst tailFirst : Token} {remaining rest tail : List Token}
  {cp : ℕ} {h ms cs ls : List BlockId} {midHead childHead leafHead : BlockId}

theorem run_insertSplit_error {e : PyErr}
    (hh : (mintChildHead mint c cp).run (t, p) = .error e (t, q)) :
    (insertSplit mint now n first c remaining cp).run (t, p) = .error e (t, q) := by
  simp only [insertSplit, EStateM.run_bind, EStateM.run_get, hh]

theorem run_insertSplit_end (hh : (mintChildHead mint c cp).run (t, p) = .ok h (t, q))
    (hkey : (t.node c).key.drop cp = childFirst :: rest)
    (hmids : (t.node c).blockIds.take ((cp + t.blockSize - 1) / t.blockSize) = midHead :: ms)
    (hchilds : h ++ (t.node c).blockIds.drop ((cp + t.blockSize - 1) / t.blockSize) =
      childHead :: cs) (htail : remaining.drop cp = []) :
    (insertSplit mint now n first c remaining cp).run (t, p) =
      .ok (midHead :: ms) (t.withSplit now n first c cp (midHead :: ms) (childHead :: cs)
        childFirst midHead childHead, q) := by
  simp only [insertSplit, EStateM.run_bind, EStateM.run_get, hh, hkey, hmids, hchilds, htail,
    run_modifyTree, run_item0_cons, EStateM.run_pure, withSplit]

theorem run_insertSplit_leaf (hh : (mintChildHead mint c cp).run (t, p) = .ok h (t, q))
    (hkey : (t.node c).key.drop cp = childFirst :: rest)
    (hmids : (t.node c).blockIds.take ((cp + t.blockSize - 1) / t.blockSize) = midHead :: ms)
    (hchilds : h ++ (t.node c).blockIds.drop ((cp + t.blockSize - 1) / t.blockSize) =
      childHead :: cs) (htail : remaining.drop cp = tailFirst :: tail)
    (hleaf : (mint (t.nBlocks (tailFirst :: tail))).run q = .ok (leafHead :: ls) r) :
    (insertSplit mint now n first c remaining cp).run (t, p) =
      .ok (leafHead :: ls) ((t.withSplit now n first c cp (midHead :: ms) (childHead :: cs)
        childFirst midHead childHead).withLeaf now t.nextAddr tailFirst (tailFirst :: tail)
          (leafHead :: ls) leafHead, r) := by
  have hleaf' : ∀ t' : RadixTree, t'.blockSize = t.blockSize →
      (callback (mint (t'.nBlocks (tailFirst :: tail)))).run (t', q) =
        .ok (leafHead :: ls) (t', r) := by
    intro t' ht'
    refine run_callback_ok ?_
    rw [nBlocks, ht']
    exact hleaf
  simp only [insertSplit, EStateM.run_bind, EStateM.run_get, hh, hkey, hmids, hchilds, htail,
    run_modifyTree, run_item0_cons, EStateM.run_pure, withSplit]
  rw [hleaf']
  · rfl
  · rfl

theorem run_insertSplit_leaf_error {e : PyErr}
    (hh : (mintChildHead mint c cp).run (t, p) = .ok h (t, q))
    (hkey : (t.node c).key.drop cp = childFirst :: rest)
    (hmids : (t.node c).blockIds.take ((cp + t.blockSize - 1) / t.blockSize) = midHead :: ms)
    (hchilds : h ++ (t.node c).blockIds.drop ((cp + t.blockSize - 1) / t.blockSize) =
      childHead :: cs) (htail : remaining.drop cp = tailFirst :: tail)
    (hleaf : (mint (t.nBlocks (tailFirst :: tail))).run q = .error e r) :
    (insertSplit mint now n first c remaining cp).run (t, p) =
      .error e (t.withSplit now n first c cp (midHead :: ms) (childHead :: cs)
        childFirst midHead childHead, r) := by
  have hleaf' : ∀ t' : RadixTree, t'.blockSize = t.blockSize →
      (callback (mint (t'.nBlocks (tailFirst :: tail)))).run (t', q) = .error e (t', r) := by
    intro t' ht'
    refine run_callback_error ?_
    rw [nBlocks, ht']
    exact hleaf
  simp only [insertSplit, EStateM.run_bind, EStateM.run_get, hh, hkey, hmids, hchilds, htail,
    run_modifyTree, run_item0_cons, withSplit]
  rw [hleaf']
  rfl

end Runs

/-! ### Insertion refines growth -/

/-- The blocks at and below `node` on the path of `rest` that an insertion leaves on the path: those
of the edges it passes, and the upper half of those of the edge it leaves partway. -/
def keptLoop (t : RadixTree) : ℕ → Addr → List Token → List BlockId
  | 0, _, _ => []
  | _ + 1, _, [] => []
  | fuel + 1, node, first :: rest =>
      match (t.node node).children.get? first with
      | none => []
      | some child =>
          let cp := cpLen (first :: rest) (t.node child).key
          if cp = (t.node child).key.length then
            (t.node child).blockIds ++ keptLoop t fuel child ((first :: rest).drop cp)
          else
            (t.node child).blockIds.take ((cp + t.blockSize - 1) / t.blockSize)

/-- The blocks on the path of a prompt that an insertion of the prompt leaves on it. -/
def keptBlocks (t : RadixTree) (tokenIds : List Token) : List BlockId :=
  t.keptLoop (tokenIds.length + 1) root tokenIds

theorem SameShape.keptLoop_eq {t t' : RadixTree} (hs : SameShape t t') (fuel : ℕ) (n : Addr)
    (rest : List Token) : t'.keptLoop fuel n rest = t.keptLoop fuel n rest := by
  induction fuel generalizing n rest with
  | zero => rfl
  | succ fuel ih =>
      cases rest with
      | nil => rfl
      | cons first rest =>
          simp only [keptLoop, hs.children_eq, hs.key_eq, hs.blockIds_eq, hs.blockSize_eq, ih]

theorem SameShape.keptBlocks_eq {t t' : RadixTree} (hs : SameShape t t') (T : List Token) :
    t'.keptBlocks T = t.keptBlocks T := hs.keptLoop_eq ..

/-- The block inside which an edge is split after `cp` tokens: the last one that the upper half keeps,
if the lower half gets a fresh head. -/
def splitBlock (t : RadixTree) (child : Addr) (cp : ℕ) : Option BlockId :=
  let n := t.node child
  let cpBlocks := (cp + t.blockSize - 1) / t.blockSize
  let tailBlocks := (n.key.length - cp + t.blockSize - 1) / t.blockSize
  if cpBlocks + tailBlocks > n.blockIds.length then n.blockIds[cpBlocks - 1]? else none

/-- The block at or below `node` inside which an insertion of `rest` splits an edge. -/
def boundaryLoop (t : RadixTree) : ℕ → Addr → List Token → Option BlockId
  | 0, _, _ => none
  | _ + 1, _, [] => none
  | fuel + 1, node, first :: rest =>
      match (t.node node).children.get? first with
      | none => none
      | some child =>
          let cp := cpLen (first :: rest) (t.node child).key
          if cp = (t.node child).key.length then
            boundaryLoop t fuel child ((first :: rest).drop cp)
          else
            t.splitBlock child cp

/-- The block inside which an insertion of a prompt splits an edge, if there is one. -/
def boundaryBlock (t : RadixTree) (tokenIds : List Token) : Option BlockId :=
  t.boundaryLoop (tokenIds.length + 1) root tokenIds

/-- Where the walk of an insertion ends: the node it reaches, and what remains to insert there. -/
def endLoop (t : RadixTree) : ℕ → Addr → List Token → Addr × List Token
  | 0, node, rest => (node, rest)
  | _ + 1, node, [] => (node, [])
  | fuel + 1, node, first :: rest =>
      match (t.node node).children.get? first with
      | none => (node, first :: rest)
      | some child =>
          let cp := cpLen (first :: rest) (t.node child).key
          if cp = (t.node child).key.length then
            endLoop t fuel child ((first :: rest).drop cp)
          else
            (node, first :: rest)

/-- Where the walk of an insertion of a prompt ends. -/
def insertEnd (t : RadixTree) (tokenIds : List Token) : Addr × List Token :=
  t.endLoop (tokenIds.length + 1) root tokenIds

theorem SameShape.endLoop_eq {t t' : RadixTree} (hs : SameShape t t') (fuel : ℕ) (n : Addr)
    (rest : List Token) : t'.endLoop fuel n rest = t.endLoop fuel n rest := by
  induction fuel generalizing n rest with
  | zero => rfl
  | succ fuel ih =>
      cases rest with
      | nil => rfl
      | cons first rest => simp only [endLoop, hs.children_eq, hs.key_eq, ih]

/-- The last step of an insertion, at the end of its walk. -/
def insertHere {π : Type} (mint : ℕ → Py π (List BlockId)) (now : Time) (node : Addr) :
    List Token → Py (RadixTree × π) (List BlockId)
  | [] => do
      modifyTree fun t => t.touch node now
      pure ((← get).1.node node).blockIds
  | first :: rest => do
      let t := (← get).1
      match (t.node node).children.get? first with
      | none => insertLeaf mint now node first (first :: rest)
      | some child =>
          insertSplit mint now node first child (first :: rest)
            (cpLen (first :: rest) (t.node child).key)

/-- The blocks of the edge that an insertion leaves partway which stay on its path. -/
def keptAt (t : RadixTree) : Addr × List Token → List BlockId
  | (_, []) => []
  | (node, first :: rest) =>
      match (t.node node).children.get? first with
      | none => []
      | some child => (t.node child).blockIds.take
          ((cpLen (first :: rest) (t.node child).key + t.blockSize - 1) / t.blockSize)

/-- The block inside which an insertion that ends there splits an edge. -/
def boundaryAt (t : RadixTree) : Addr × List Token → Option BlockId
  | (_, []) => none
  | (node, first :: rest) =>
      match (t.node node).children.get? first with
      | none => none
      | some child => t.splitBlock child (cpLen (first :: rest) (t.node child).key)

/-- What holds of the place `e` where the walk of an insertion of `T` ends: no edge that starts with
the first remaining token is matched in full. -/
structure EndOf (t : RadixTree) (full : Addr → List Token) (T : List Token)
    (e : Addr × List Token) : Prop where
  member : t.Member e.1
  path_eq : full e.1 ++ e.2 = T
  partway : ∀ first rest child, e.2 = first :: rest →
    (t.node e.1).children.get? first = some child →
    cpLen (first :: rest) (t.node child).key < (t.node child).key.length

theorem SameShape.keptAt_eq {t t' : RadixTree} (hs : SameShape t t') (e : Addr × List Token) :
    t'.keptAt e = t.keptAt e := by
  rcases e with ⟨a, _ | ⟨first, rest⟩⟩
  · rfl
  · simp only [keptAt, hs.children_eq, hs.key_eq, hs.blockIds_eq, hs.blockSize_eq]

theorem SameShape.boundaryAt_eq {t t' : RadixTree} (hs : SameShape t t') (e : Addr × List Token) :
    t'.boundaryAt e = t.boundaryAt e := by
  rcases e with ⟨a, _ | ⟨first, rest⟩⟩
  · rfl
  · simp only [boundaryAt, splitBlock, hs.children_eq, hs.key_eq, hs.blockIds_eq, hs.blockSize_eq]

theorem EndOf.sameShape {t' : RadixTree} {T : List Token} {e : Addr × List Token}
    (he : EndOf t full T e) (hs : SameShape t t') : EndOf t' full T e where
  member := by
    rw [Member, hs.nodes_eq]
    exact he.member
  path_eq := he.path_eq
  partway := by
    intro first rest child
    rw [hs.children_eq, hs.key_eq]
    exact he.partway first rest child

/-- An edge that is matched in full. -/
theorem WF.edge_in_full (h : t.WF full) {n child : Addr} {first : Token} {rest : List Token}
    (hn : t.Member n) (hc : (t.node n).children.get? first = some child)
    (hcp : cpLen (first :: rest) (t.node child).key = (t.node child).key.length) :
    ∃ rest', full n ++ first :: rest = full child ++ rest' ∧
      (first :: rest).drop (t.node child).key.length = rest' ∧
      rest'.length < (first :: rest).length := by
  obtain ⟨rest', hrest'⟩ := cpLen_eq_length_iff.1 hcp
  obtain ⟨r, hkey, hfull⟩ := h.full_child hn hc
  refine ⟨rest', ?_, by rw [← hrest', List.drop_left], ?_⟩
  · rw [hfull, ← hkey, List.append_assoc, hrest']
  · rw [← hrest', hkey, List.length_append, List.length_cons]
    omega

/-- A call ends in a growth of the cache state `s`: if it returned, `T` is a path of the trie, and
the walk along it collects `kept` and then allocated blocks; otherwise it raised `MemoryError`. -/
structure Inserted {α : Type} (bs : ℕ) (s : CacheState) (T : List Token) (kept : List BlockId)
    (r : EStateM.Result PyErr (RadixTree × BlockPool) α) (s' : CacheState) : Prop where
  grows : CacheState.Grows s s'
  repr : r.state.1.Repr bs s'.trie
  pool_eq : r.state.2 = s'.pool
  node : r.isOk = true → (s'.trie T).isSome
  path_eq : r.isOk = true → ∃ fresh, s'.trie.path T = kept ++ fresh ∧
    ∀ b ∈ fresh, s'.pool.live b = true
  kept_prefix : r.isOk = true → s.trie.path T <+: kept
  error : ∀ e, r.error? = some e → e.isMemoryError = true

namespace Inserted

variable {α : Type} {bs : ℕ} {s s' : CacheState} {T : List Token} {kept : List BlockId}
  {r : EStateM.Result PyErr (RadixTree × BlockPool) α} {t' : RadixTree}

theorem of_ok {a : α} (fresh : List BlockId) (hr : r = .ok a (t', s'.pool))
    (hgrows : CacheState.Grows s s') (hrepr : t'.Repr bs s'.trie) (hnode : (s'.trie T).isSome)
    (hpath : s'.trie.path T = kept ++ fresh) (hfresh : ∀ b ∈ fresh, s'.pool.live b = true)
    (hkept : s.trie.path T <+: kept) : Inserted bs s T kept r s' := by
  subst hr
  exact ⟨hgrows, hrepr, rfl, fun _ => hnode, fun _ => ⟨fresh, hpath, hfresh⟩, fun _ => hkept,
    by simp [EStateM.Result.error?]⟩

theorem of_memoryError {msg : String} (hr : r = .error (.memoryError msg) (t', s'.pool))
    (hgrows : CacheState.Grows s s') (hrepr : t'.Repr bs s'.trie) : Inserted bs s T kept r s' := by
  subst hr
  refine ⟨hgrows, hrepr, rfl, ?_, ?_, ?_, ?_⟩
  · simp [EStateM.Result.isOk]
  · simp [EStateM.Result.isOk]
  · simp [EStateM.Result.isOk]
  · simp [EStateM.Result.error?, PyErr.isMemoryError]

end Inserted

/-- The mint of the tree of a node: blocks come from the GPU tier of its pool. -/
abbrev mintGpu (n : ℕ) : Py BlockPool (List BlockId) := BlockPool.allocate n "gpu"

theorem le_mul_ceil {bs : ℕ} (hbs : 0 < bs) (x : ℕ) :
    x ≤ bs * ((x + bs - 1) / bs) ∧ bs * ((x + bs - 1) / bs) < x + bs := by
  have h1 := Nat.div_add_mod (x + bs - 1) bs
  have h2 := Nat.mod_lt (x + bs - 1) hbs
  omega

/-- The blocks of the two halves of a split edge: together as many as before, or one more. -/
theorem ceil_split {bs cp K : ℕ} (hbs : 0 < bs) (hcp : 0 < cp) (hK : cp < K) :
    0 < (cp + bs - 1) / bs ∧ 0 < (K - cp + bs - 1) / bs ∧
      (cp + bs - 1) / bs ≤ (K + bs - 1) / bs ∧
      (K + bs - 1) / bs ≤ (cp + bs - 1) / bs + (K - cp + bs - 1) / bs ∧
      (cp + bs - 1) / bs + (K - cp + bs - 1) / bs ≤ (K + bs - 1) / bs + 1 := by
  obtain ⟨a1, a2⟩ := le_mul_ceil hbs cp
  obtain ⟨b1, b2⟩ := le_mul_ceil hbs (K - cp)
  obtain ⟨c1, c2⟩ := le_mul_ceil hbs K
  refine ⟨Nat.div_pos (by omega) hbs, Nat.div_pos (by omega) hbs,
    Nat.div_le_div_right (by omega), ?_, ?_⟩
  · refine Nat.lt_succ_iff.1 (Nat.lt_of_mul_lt_mul_left (a := bs) ?_)
    rw [Nat.mul_succ, Nat.mul_add]
    omega
  · refine Nat.lt_succ_iff.1 (Nat.lt_of_mul_lt_mul_left (a := bs) ?_)
    rw [Nat.mul_succ, Nat.mul_add, Nat.mul_succ]
    omega

theorem nBlocks_pos (hbs : 0 < t.blockSize) {key : List Token} (hkey : key ≠ []) :
    0 < t.nBlocks key := by
  rw [nBlocks, if_neg hkey]
  have := List.length_pos_of_ne_nil hkey
  exact Nat.div_pos (by omega) hbs

theorem nBlocks_of_ne_nil {key : List Token} (hkey : key ≠ []) :
    t.nBlocks key = (key.length + t.blockSize - 1) / t.blockSize := if_neg hkey

namespace View

variable {p q : BlockPool} {n c : Addr} {first : Token} {b : BlockId}
  {bs : List BlockId}

/-- The index knows blocks of the trie only. -/
theorem notMem_keys (h : t.View full A) (hb : ∀ l, b ∉ A.items l) : b ∉ t.nodes.keys := by
  intro hk
  obtain ⟨a, ha⟩ := PyDict.mem_keys.1 hk
  have hv := PyDict.mem_values.2 ⟨b, ha⟩
  refine hb (full a) ?_
  rw [h.items_full hv]
  exact List.mem_of_mem_head? (h.wf.index_head b a ha)

theorem fresh_notMem_keys (h : t.View full A) (hi : (⟨A, p⟩ : CacheState).Inv) {k : ℕ}
    (hb : b ∈ p.freshIds k) : b ∉ t.nodes.keys :=
  h.notMem_keys fun l => hi.fresh_notMem hb l

theorem freshIds_eq_cons (p : BlockPool) {k : ℕ} (hk : 0 < k) :
    ∃ b bs, p.freshIds k = b :: bs := by
  obtain ⟨k, rfl⟩ := Nat.exists_eq_add_of_lt hk
  exact ⟨_, _, rfl⟩

/-- A leaf with freshly allocated blocks is a step of growth. -/
theorem grow_leaf (h : t.View full A) (now : Time) (hi : (⟨A, p⟩ : CacheState).Inv) (hn : t.Member n)
    (hc : (t.node n).children.get? first = none) {rest : List Token}
    (hq : BlockPool.Allocated p (t.nBlocks (first :: rest)) .gpu q)
    (hids : p.freshIds (t.nBlocks (first :: rest)) = b :: bs) :
    CacheState.Grow ⟨A, p⟩ ⟨A.put (full n ++ first :: rest) (b :: bs), q⟩ ∧
      (t.withLeaf now n first (first :: rest) (b :: bs) b).View
        (Function.update full t.nextAddr (full n ++ first :: rest))
        (A.put (full n ++ first :: rest) (b :: bs)) ∧
      (A.put (full n ++ first :: rest) (b :: bs)).path (full n ++ first :: rest) =
        A.path (full n ++ first :: rest) ++ b :: bs ∧
      A.KeepsHeads (A.put (full n ++ first :: rest) (b :: bs)) none := by
  have hne : full n ++ first :: rest ≠ [] := by simp
  have hleaf : ∀ w, full n ++ first :: rest <+: w → A w = none := by
    intro w hw
    refine h.none_of_no_child hn hc (List.IsPrefix.trans ?_ hw)
    rw [List.prefix_append_right_inj]
    simp
  refine ⟨?_, ?_, PathTrie.path_put _ hne (List.prefix_refl _) hleaf, .put _ hne hleaf⟩
  · rw [← hids]
    exact CacheState.Grow.leaf _ _ _ hne hleaf hq
  · refine h.withLeaf now hn hc rfl rfl ?_ ?_
    · rw [← hids, BlockPool.length_freshIds]
    · refine h.fresh_notMem_keys hi (k := t.nBlocks (first :: rest)) ?_
      rw [hids]
      exact List.mem_cons_self

/-- An insertion that finds no edge to go on. -/
theorem insertLeaf_inserted (h : t.View full A) (now : Time) (hi : (⟨A, p⟩ : CacheState).Inv)
    (hn : t.Member n) (hc : (t.node n).children.get? first = none) (rest : List Token) :
    ∃ s', Inserted t.blockSize ⟨A, p⟩ (full n ++ first :: rest) (A.path (full n))
      ((insertLeaf mintGpu now n first (first :: rest)).run (t, p)) s' ∧
        A.KeepsHeads s'.trie none := by
  have hpath : A.path (full n ++ first :: rest) = A.path (full n) := by
    rw [PathTrie.path_append, (h.stop_of_no_child hn hc rest).2, List.append_nil]
  rcases le_or_gt ((t.nBlocks (first :: rest) : ℕ) : ℤ) (p.freeSlots .gpu) with hle | hgt
  · obtain ⟨q, hrun, hq⟩ := BlockPool.allocate_ok hi.pool_wf hle
    obtain ⟨b, bs, hids⟩ := freshIds_eq_cons p
      (nBlocks_pos h.wf.blockSize_pos (List.cons_ne_nil first rest))
    obtain ⟨hgrow, hview, hpath', hkeeps⟩ := h.grow_leaf now hi hn hc hq hids
    rw [hids] at hrun
    refine ⟨⟨_, q⟩, .of_ok (b :: bs) (run_insertLeaf hrun) (.single hgrow) ⟨rfl, _, hview⟩
      (PathTrie.isSome_put_self ..) (hpath'.trans (by rw [hpath])) (fun c hc => ?_)
      (hpath ▸ List.prefix_refl _), hkeeps⟩
    rw [hq.live_eq, hids]
    simp [hc]
  · obtain ⟨msg, hrun⟩ := BlockPool.allocate_full hgt
    exact ⟨⟨A, p⟩, .of_memoryError (run_insertLeaf_error hrun) .refl ⟨rfl, full, h⟩, .refl A none⟩

/-- The head of the lower half of a split edge: at most one fresh block, or `MemoryError`. -/
theorem run_mintChildHead (hi : (⟨A, p⟩ : CacheState).Inv) (t : RadixTree) (c : Addr) (cp : ℕ) :
    (∃ k q, BlockPool.Allocated p k .gpu q ∧
        (mintChildHead mintGpu c cp).run (t, p) = .ok (p.freshIds k) (t, q) ∧
        k = if (cp + t.blockSize - 1) / t.blockSize +
          ((t.node c).key.length - cp + t.blockSize - 1) / t.blockSize >
            (t.node c).blockIds.length then 1 else 0) ∨
      ∃ msg, (mintChildHead mintGpu c cp).run (t, p) = .error (.memoryError msg) (t, p) := by
  by_cases hneed : (cp + t.blockSize - 1) / t.blockSize +
      ((t.node c).key.length - cp + t.blockSize - 1) / t.blockSize > (t.node c).blockIds.length
  · rcases le_or_gt ((1 : ℕ) : ℤ) (p.freeSlots .gpu) with hle | hgt
    · obtain ⟨q, hrun, hq⟩ := BlockPool.allocate_ok hi.pool_wf hle
      refine Or.inl ⟨1, q, hq, ?_, by rw [if_pos hneed]⟩
      have hrun' : (mintGpu 1).run p = .ok (p.freshIds 1) q := hrun
      simpa [mintChildHead, hneed] using run_callback_ok hrun'
    · obtain ⟨msg, hrun⟩ := BlockPool.allocate_full hgt
      refine Or.inr ⟨msg, ?_⟩
      have hrun' : (mintGpu 1).run p = .error (.memoryError msg) p := hrun
      simpa [mintChildHead, hneed] using run_callback_error hrun'
  · refine Or.inl ⟨0, p, BlockPool.Allocated.refl hi.pool_wf _, ?_, by rw [if_neg hneed]⟩
    simp [mintChildHead, hneed, BlockPool.freshIds]

/-- What a split makes of an edge: the blocks of the halves and their heads. -/
theorem split_halves (h : t.View full A) (hd : A.Distinct) (hcv : c ∈ t.nodes.values) {cp : ℕ}
    (hcp : 0 < cp) (hlt : cp < (t.node c).key.length) {ids : List BlockId}
    (hids : ∀ b ∈ ids, ∀ l, b ∉ A.items l)
    (hk : ids.length = if (cp + t.blockSize - 1) / t.blockSize +
      ((t.node c).key.length - cp + t.blockSize - 1) / t.blockSize > (t.node c).blockIds.length
      then 1 else 0) :
    ∃ midHead ms childHead cs,
      (t.node c).blockIds.take ((cp + t.blockSize - 1) / t.blockSize) = midHead :: ms ∧
      ids ++ (t.node c).blockIds.drop ((cp + t.blockSize - 1) / t.blockSize) =
        childHead :: cs ∧
      (midHead :: ms).length = t.nBlocks ((t.node c).key.take cp) ∧
      (childHead :: cs).length = t.nBlocks ((t.node c).key.drop cp) ∧
      (midHead, c) ∈ t.nodes.entries ∧ childHead ∉ t.nodes.keys := by
  have hbs := h.wf.blockSize_pos
  have hkne : (t.node c).key ≠ [] := List.ne_nil_of_length_pos (by omega)
  have hlen := h.wf.length_blockIds c hcv
  rw [nBlocks_of_ne_nil hkne] at hlen
  obtain ⟨c1, c2, c3, c4, c5⟩ := ceil_split hbs hcp hlt
  obtain ⟨b, bs, hb, hent⟩ := h.wf.exists_head hcv
  have hchildLen : (ids ++
      (t.node c).blockIds.drop ((cp + t.blockSize - 1) / t.blockSize)).length =
        ((t.node c).key.length - cp + t.blockSize - 1) / t.blockSize := by
    rw [List.length_append, List.length_drop, hlen, hk, hlen]
    split <;> omega
  obtain ⟨childHead, cs, hchild⟩ := List.exists_cons_of_length_pos (by rw [hchildLen]; exact c2)
  obtain ⟨m, hm⟩ := Nat.exists_eq_add_of_lt c1
  rw [Nat.zero_add] at hm
  refine ⟨b, bs.take m, childHead, cs, by rw [hb, hm]; rfl, hchild, ?_, ?_, hent, ?_⟩
  · have htake : (t.node c).blockIds.take ((cp + t.blockSize - 1) / t.blockSize) =
        b :: bs.take m := by rw [hb, hm]; rfl
    have hne : (t.node c).key.take cp ≠ [] := List.ne_nil_of_length_pos (by
      rw [List.length_take]; omega)
    rw [← htake, nBlocks_of_ne_nil hne, List.length_take, List.length_take, hlen,
      Nat.min_eq_left c3, Nat.min_eq_left (le_of_lt hlt)]
  · have hne : (t.node c).key.drop cp ≠ [] := List.ne_nil_of_length_pos (by
      rw [List.length_drop]; omega)
    rw [← hchild, hchildLen, nBlocks_of_ne_nil hne, List.length_drop]
  · -- a fresh block, or one that is not the first of its node
    have hmem : childHead ∈ ids ++
        (t.node c).blockIds.drop ((cp + t.blockSize - 1) / t.blockSize) := by
      rw [hchild]
      exact List.mem_cons_self
    rcases List.mem_append.1 hmem with hfresh | hdrop
    · exact h.notMem_keys (hids _ hfresh)
    · intro hkeys
      obtain ⟨a, ha⟩ := PyDict.mem_keys.1 hkeys
      have hav := PyDict.mem_values.2 ⟨childHead, ha⟩
      have hhead := h.wf.index_head childHead a ha
      have hac : full a = full c := by
        refine hd.unique _ _ childHead ?_ ?_
        · rw [h.items_full hav]
          exact List.mem_of_mem_head? hhead
        · rw [h.items_full hcv]
          exact List.mem_of_mem_drop hdrop
      obtain rfl := h.wf.full_inj (Or.inr hav) (Or.inr hcv) hac
      have hnd : (t.node a).blockIds.Nodup := h.items_full hav ▸ hd.nodup _
      rw [hb] at hhead hnd hdrop
      rw [hm, List.drop_succ_cons] at hdrop
      rw [List.head?_cons, Option.some_inj] at hhead
      exact (List.nodup_cons.1 hnd).1 (hhead ▸ List.mem_of_mem_drop hdrop)

/-- The split point `y` of the edge that ends at the node `z`, for an insertion of `T`: it lies
inside the edge, on the path of `T`, which then leaves the edge. -/
structure SplitPoint (A : PathTrie Token BlockId) (y z T : List Token) : Prop where
  ne_nil : y ≠ []
  isPrefix : y <+: z
  ne : y ≠ z
  onPath : y <+: T
  off : ¬ z <+: T
  edge : ∀ w, (A w).isSome → y <+: w → z <+: w

/-- The edge from `n` to `c` is left partway at a split point. -/
theorem splitPoint (h : t.View full A) (hn : t.Member n)
    (hc : (t.node n).children.get? first = some c) {rest : List Token}
    (hlt : cpLen (first :: rest) (t.node c).key < (t.node c).key.length) :
    SplitPoint A (full n ++ (t.node c).key.take (cpLen (first :: rest) (t.node c).key)) (full c)
      (full n ++ first :: rest) := by
  obtain ⟨r, hkey, hfull⟩ := h.wf.full_child hn hc
  have hfc : full c = full n ++ (t.node c).key := by rw [hfull, hkey]
  have htake := take_cpLen_isPrefix (first :: rest) (t.node c).key
  have hfirst : [first] <+: (t.node c).key.take (cpLen (first :: rest) (t.node c).key) := by
    obtain ⟨m, hm⟩ := Nat.exists_eq_add_of_lt (cpLen_cons_pos first rest r)
    rw [hkey, hm, Nat.zero_add]
    simp
  have hyT : full n ++ (t.node c).key.take (cpLen (first :: rest) (t.node c).key) <+:
      full n ++ first :: rest := by
    rwa [List.prefix_append_right_inj]
  have hzT : ¬ full c <+: full n ++ first :: rest := by
    rw [hfc, List.prefix_append_right_inj]
    intro hpre
    have := length_le_cpLen hpre (List.prefix_refl (t.node c).key)
    omega
  refine ⟨?_, ?_, fun heq => hzT (heq ▸ hyT), hyT, hzT, ?_⟩
  · intro hnil
    have hnil' := (List.append_eq_nil_iff.1 hnil).2
    rw [hnil'] at hfirst
    simp at hfirst
  · rw [hfc, List.prefix_append_right_inj]
    exact List.take_prefix _ _
  · intro w hw hyw
    refine h.prefix_of_child hn hc hw (List.IsPrefix.trans ?_ hyw)
    rwa [List.prefix_append_right_inj]

/-- An insertion that ends inside an edge ends at its split point. -/
theorem eq_of_split_end {key rest : List Token} (x : List Token)
    (htail : rest.drop (cpLen rest key) = []) :
    x ++ key.take (cpLen rest key) = x ++ rest := by
  have hpre := take_cpLen_isPrefix rest key
  have hlen := List.drop_eq_nil_iff.1 htail
  have hle := cpLen_le_right rest key
  rw [hpre.eq_of_length_le (by rw [List.length_take]; omega)]

/-- An insertion that leaves an edge goes on from the split point, with another token. -/
theorem eq_of_split_tail {key rest tail childRest : List Token} {tailFirst childFirst : Token}
    (x : List Token) (htail : rest.drop (cpLen rest key) = tailFirst :: tail)
    (hkey : key.drop (cpLen rest key) = childFirst :: childRest) :
    x ++ rest = x ++ key.take (cpLen rest key) ++ tailFirst :: tail ∧ tailFirst ≠ childFirst := by
  obtain ⟨r, hr⟩ := take_cpLen_isPrefix rest key
  have hlenTake : (key.take (cpLen rest key)).length = cpLen rest key := by
    rw [List.length_take, Nat.min_eq_left (cpLen_le_right rest key)]
  have hrt : r = tailFirst :: tail := by
    have hdrop : (key.take (cpLen rest key) ++ r).drop (cpLen rest key) = r :=
      List.drop_left' hlenTake
    rw [hr, htail] at hdrop
    exact hdrop.symm
  have hrest : rest = key.take (cpLen rest key) ++ tailFirst :: tail := by
    rw [← hrt, hr]
  refine ⟨by rw [List.append_assoc, ← hrest], ?_⟩
  rintro rfl
  have h1 : key.take (cpLen rest key) ++ [tailFirst] <+: key := by
    conv_rhs => rw [← List.take_append_drop (cpLen rest key) key, hkey]
    rw [List.prefix_append_right_inj]
    simp
  have h2 : key.take (cpLen rest key) ++ [tailFirst] <+: rest := by
    conv_rhs => rw [hrest]
    rw [List.prefix_append_right_inj]
    simp
  have := length_le_cpLen h2 h1
  rw [List.length_append, hlenTake, List.length_singleton] at this
  omega

/-- The upper half of a split edge keeps some of its blocks. -/
theorem cpBlocks_le (h : t.View full A) (hcv : c ∈ t.nodes.values) {cp : ℕ} (hcp : 0 < cp)
    (hlt : cp < (t.node c).key.length) :
    (cp + t.blockSize - 1) / t.blockSize ≤ (t.node c).blockIds.length := by
  have hkne : (t.node c).key ≠ [] := List.ne_nil_of_length_pos (by omega)
  rw [h.wf.length_blockIds c hcv, nBlocks_of_ne_nil hkne]
  exact (ceil_split h.wf.blockSize_pos hcp hlt).2.2.1

/-- The split of an edge: walks that go on past the boundary block are the ones it changes. -/
theorem keepsHeads_split (hd : A.Distinct) {y z T : List Token} (hsp : SplitPoint A y z T)
    {ms ids rest : List BlockId} (hitems : A.items z = ms ++ rest) {c : Addr} {cp : ℕ}
    (hms : (t.node c).blockIds.take ((cp + t.blockSize - 1) / t.blockSize) = ms) (hne : ms ≠ [])
    (hle : (cp + t.blockSize - 1) / t.blockSize ≤ (t.node c).blockIds.length)
    (hk : ids.length = if (cp + t.blockSize - 1) / t.blockSize +
      ((t.node c).key.length - cp + t.blockSize - 1) / t.blockSize > (t.node c).blockIds.length
      then 1 else 0) :
    A.KeepsHeads (A.split y z ms (ids ++ rest)) (t.splitBlock c cp) := by
  by_cases hgt : (cp + t.blockSize - 1) / t.blockSize +
      ((t.node c).key.length - cp + t.blockSize - 1) / t.blockSize > (t.node c).blockIds.length
  · have hpos : (cp + t.blockSize - 1) / t.blockSize ≠ 0 := by
      rintro h0
      rw [h0, List.take_zero] at hms
      exact hne hms.symm
    have hlt : (cp + t.blockSize - 1) / t.blockSize - 1 < (t.node c).blockIds.length :=
      lt_of_lt_of_le (Nat.sub_one_lt hpos) hle
    have hb : ms.getLast? = some (ms.getLast hne) := List.getLast?_eq_some_getLast hne
    have hblock : t.splitBlock c cp = some (ms.getLast hne) := by
      rw [← hb, ← hms, List.getLast?_take, if_neg hpos,
        List.getElem?_eq_getElem hlt, Option.some_or]
      simp only [splitBlock, if_pos hgt]
      exact List.getElem?_eq_getElem hlt
    rw [hblock]
    exact .split_fresh hd hsp.ne_nil hsp.isPrefix hsp.ne hsp.edge hitems hb ids
  · rw [if_neg hgt, List.length_eq_zero_iff] at hk
    rw [hk, List.nil_append]
    exact .split hsp.ne_nil hsp.isPrefix hsp.ne hsp.edge hitems

/-- An insertion that leaves an edge partway. -/
theorem insertSplit_inserted (h : t.View full A) (now : Time) (hi : (⟨A, p⟩ : CacheState).Inv)
    (hn : t.Member n) (hc : (t.node n).children.get? first = some c) (rest : List Token)
    (hlt : cpLen (first :: rest) (t.node c).key < (t.node c).key.length) :
    ∃ s', Inserted t.blockSize ⟨A, p⟩ (full n ++ first :: rest)
      (A.path (full n) ++ (t.node c).blockIds.take
        ((cpLen (first :: rest) (t.node c).key + t.blockSize - 1) / t.blockSize))
      ((insertSplit mintGpu now n first c (first :: rest)
        (cpLen (first :: rest) (t.node c).key)).run (t, p)) s' ∧
      A.KeepsHeads s'.trie (t.splitBlock c (cpLen (first :: rest) (t.node c).key)) := by
  obtain ⟨hcv, -, keyRest, hkey⟩ := h.wf.child n first c hn hc
  have hcp : 0 < cpLen (first :: rest) (t.node c).key := by
    rw [hkey]
    exact cpLen_cons_pos ..
  have hpath : A.path (full n ++ first :: rest) = A.path (full n) := by
    rw [PathTrie.path_append, (h.stop_of_partial hn hc hlt).2, List.append_nil]
  have hsp := h.splitPoint hn hc hlt
  rcases run_mintChildHead hi t c (cpLen (first :: rest) (t.node c).key) with
    ⟨k, q, hq, hhead, hk⟩ | ⟨msg, hhead⟩
  swap
  · -- the head of the lower half is minted before anything is changed
    exact ⟨⟨A, p⟩, .of_memoryError (run_insertSplit_error hhead) .refl ⟨rfl, full, h⟩, .refl A _⟩
  obtain ⟨midHead, ms, childHead, cs, hmids, hchilds, hlenm, hlenc, hmid, hchild⟩ :=
    h.split_halves hi.distinct hcv hcp hlt
      (fun b (hb : b ∈ p.freshIds k) => hi.fresh_notMem hb) (by rw [BlockPool.length_freshIds, hk])
  obtain ⟨childFirst, childRest, hckey⟩ := List.exists_cons_of_length_pos
    (l := (t.node c).key.drop (cpLen (first :: rest) (t.node c).key))
    (by rw [List.length_drop]; omega)
  have hitems : A.items (full c) = (midHead :: ms) ++ (t.node c).blockIds.drop
      ((cpLen (first :: rest) (t.node c).key + t.blockSize - 1) / t.blockSize) := by
    rw [h.items_full hcv, ← hmids, List.take_append_drop]
  have hgrow := CacheState.Grow.split (s := ⟨A, p⟩) _ _ _ _ _ _ hsp.ne_nil hsp.isPrefix hsp.ne
    hsp.edge hitems hq
  have hview := h.withSplit now hn hc hcp rfl rfl hckey hlenm hlenc hmid hchild
  have hpath₁ := PathTrie.path_split_end (m := midHead :: ms) (d := childHead :: cs) hsp.ne_nil
    hsp.isPrefix hsp.edge hsp.onPath hsp.off
  have hkeeps := keepsHeads_split hi.distinct hsp hitems hmids (List.cons_ne_nil _ _)
    (h.cpBlocks_le hcv hcp hlt) ((p.length_freshIds k).trans hk)
  simp only [hchilds] at hgrow hkeeps
  have hkept : A.path (full n ++ first :: rest) <+: A.path (full n) ++ midHead :: ms :=
    hpath ▸ List.prefix_append _ _
  rw [hpath] at hpath₁
  rw [hmids]
  cases htail : (first :: rest).drop (cpLen (first :: rest) (t.node c).key) with
  | nil =>
      -- the prompt ends where the edge is split
      have hyeq := eq_of_split_end (full n) htail
      refine ⟨⟨_, q⟩, .of_ok [] (run_insertSplit_end hhead hckey hmids hchilds htail)
        (.single hgrow) ⟨rfl, _, hview⟩ ?_ ?_ (by simp) hkept, hkeeps⟩
      · rw [hyeq]
        exact PathTrie.isSome_put_self ..
      · rw [List.append_nil]
        exact hpath₁
  | cons tailFirst tail =>
      -- the rest of the prompt becomes a leaf below the new node
      obtain ⟨hT, htok⟩ := eq_of_split_tail (full n) htail hckey
      have hi₁ := hgrow.inv hi
      have hmem := member_withSplit_mid now n first (cpLen (first :: rest) (t.node c).key)
        (midHead :: ms) (childHead :: cs) childFirst hmid hchild
      have hnone := h.no_child_withSplit_mid now first (cpLen (first :: rest) (t.node c).key)
        (midHead :: ms) (childHead :: cs) midHead childHead hn (Or.inr hcv) htok
      rw [hT] at hpath₁ hkept ⊢
      rcases le_or_gt ((t.nBlocks (tailFirst :: tail) : ℕ) : ℤ) (q.freeSlots .gpu) with hle | hgt
      · obtain ⟨r, hrun, hr⟩ := BlockPool.allocate_ok hi₁.pool_wf hle
        obtain ⟨leafHead, ls, hids⟩ := freshIds_eq_cons q
          (nBlocks_pos h.wf.blockSize_pos (List.cons_ne_nil tailFirst tail))
        obtain ⟨hgrow₂, hview₂, hpath₂, hkeeps₂⟩ :=
          hview.grow_leaf now hi₁ hmem hnone hr hids
        rw [Function.update_self] at hgrow₂ hview₂ hpath₂ hkeeps₂
        rw [hpath₁] at hpath₂
        have hrun' : (mintGpu (t.nBlocks (tailFirst :: tail))).run q =
            .ok (leafHead :: ls) r := hids ▸ hrun
        refine ⟨⟨_, r⟩, .of_ok (leafHead :: ls)
          (run_insertSplit_leaf hhead hckey hmids hchilds htail hrun')
          (.tail (.single hgrow) hgrow₂) ⟨rfl, _, hview₂⟩ (PathTrie.isSome_put_self ..) hpath₂ ?_
          hkept, hkeeps.trans hkeeps₂⟩
        intro x hx
        rw [hr.live_eq, hids]
        simp [hx]
      · -- the split stays though the leaf cannot be minted
        obtain ⟨msg, hrun⟩ := BlockPool.allocate_full hgt
        exact ⟨⟨_, q⟩, .of_memoryError
          (run_insertSplit_leaf_error hhead hckey hmids hchilds htail hrun) (.single hgrow)
          ⟨rfl, _, hview⟩, hkeeps⟩

/-- **An insertion is a walk and one last step**: it touches the nodes it passes, and what it does
at the end of the walk is all it does to the tree otherwise. -/
theorem run_insertLoop (h : t.View full A) {π : Type} (mint : ℕ → Py π (List BlockId))
    (now : Time) (r : π) : ∀ (fuel : ℕ) {n : Addr} {rest : List Token}, t.Member n →
    rest.length < fuel → ∃ t₁, SameShape t t₁ ∧
      (insertLoop mint now fuel n rest).run (t, r) =
        (insertHere mint now (t.endLoop fuel n rest).1 (t.endLoop fuel n rest).2).run (t₁, r) := by
  intro fuel
  induction fuel generalizing t with
  | zero => intro n rest _ hlt; omega
  | succ fuel ih =>
      intro n rest hn hlt
      cases rest with
      | nil => exact ⟨t, .refl t, rfl⟩
      | cons first rest =>
          cases hc : (t.node n).children.get? first with
          | none => exact ⟨t, .refl t, by simp [insertLoop, endLoop, insertHere, hc]⟩
          | some child =>
              by_cases hcp : cpLen (first :: rest) (t.node child).key = (t.node child).key.length
              · -- the edge is matched in full: go on at its end
                obtain ⟨rest', -, hdrop, hlen⟩ := h.wf.edge_in_full hn hc hcp
                have hs := sameShape_touch t child now
                have hmem : (t.touch child now).Member child := by
                  rw [Member, hs.nodes_eq]
                  exact h.wf.member_child hn hc
                obtain ⟨t₁, hs₁, hrun⟩ := ih (h.sameShape hs) hmem
                  (lt_of_lt_of_le hlen (Nat.lt_succ_iff.1 hlt))
                refine ⟨t₁, hs.trans hs₁, ?_⟩
                rw [hs.endLoop_eq] at hrun
                simpa [insertLoop, endLoop, hc, hcp, hdrop] using hrun
              · exact ⟨t, .refl t, by simp [insertLoop, endLoop, insertHere, hc, hcp]⟩

/-- What holds where the walk of an insertion ends. -/
theorem endLoop_spec (h : t.View full A) : ∀ (fuel : ℕ) {n : Addr} {rest : List Token},
    t.Member n → rest.length < fuel → EndOf t full (full n ++ rest) (t.endLoop fuel n rest) ∧
      A.path (full n) ++ t.keptLoop fuel n rest =
        A.path (full (t.endLoop fuel n rest).1) ++ t.keptAt (t.endLoop fuel n rest) ∧
      t.boundaryLoop fuel n rest = t.boundaryAt (t.endLoop fuel n rest) := by
  intro fuel
  induction fuel with
  | zero => intro n rest _ hlt; omega
  | succ fuel ih =>
      intro n rest hn hlt
      cases rest with
      | nil => exact ⟨⟨hn, rfl, by simp [endLoop]⟩, rfl, rfl⟩
      | cons first rest =>
          cases hc : (t.node n).children.get? first with
          | none =>
              have hend : t.endLoop (fuel + 1) n (first :: rest) = (n, first :: rest) := by
                simp [endLoop, hc]
              rw [hend]
              refine ⟨⟨hn, rfl, ?_⟩, by simp [keptLoop, keptAt, hc], by
                simp [boundaryLoop, boundaryAt, hc]⟩
              rintro f r c hr hcc
              obtain ⟨rfl, rfl⟩ := List.cons.inj hr
              rw [hc] at hcc
              simp at hcc
          | some child =>
              by_cases hcp : cpLen (first :: rest) (t.node child).key = (t.node child).key.length
              · -- the edge is matched in full: go on at its end
                obtain ⟨rest', hpath, hdrop, hlen⟩ := h.wf.edge_in_full hn hc hcp
                have hend : t.endLoop (fuel + 1) n (first :: rest) = t.endLoop fuel child rest' := by
                  simp [endLoop, hc, hcp, hdrop]
                obtain ⟨h1, h2, h3⟩ := ih (h.wf.member_child hn hc)
                  (lt_of_lt_of_le hlen (Nat.lt_succ_iff.1 hlt))
                rw [hend, hpath, ← h2, ← h3, h.path_child hn hc]
                refine ⟨h1, ?_, ?_⟩
                · simp [keptLoop, hc, hcp, hdrop]
                · simp [boundaryLoop, hc, hcp, hdrop]
              · have hend : t.endLoop (fuel + 1) n (first :: rest) = (n, first :: rest) := by
                  simp [endLoop, hc, hcp]
                rw [hend]
                refine ⟨⟨hn, rfl, ?_⟩, by simp [keptLoop, keptAt, hc, hcp], by
                  simp [boundaryLoop, boundaryAt, hc, hcp]⟩
                rintro f r c hr hcc
                obtain ⟨rfl, rfl⟩ := List.cons.inj hr
                rw [hc, Option.some_inj] at hcc
                subst hcc
                exact lt_of_le_of_ne (cpLen_le_right _ _) hcp

/-- What holds where the walk of an insertion of a prompt ends. -/
theorem insertEnd_spec (h : t.View full A) (T : List Token) :
    EndOf t full T (t.insertEnd T) ∧
      t.keptBlocks T = A.path (full (t.insertEnd T).1) ++ t.keptAt (t.insertEnd T) ∧
      t.boundaryBlock T = t.boundaryAt (t.insertEnd T) := by
  have hspec := h.endLoop_spec (T.length + 1) t.member_root (Nat.lt_succ_self T.length)
  rw [h.wf.full_root] at hspec
  simpa [insertEnd, keptBlocks, boundaryBlock] using hspec

/-- The walk ends in one place. -/
theorem endOf_unique (h : t.View full A) {T : List Token} {e e' : Addr × List Token}
    (he : EndOf t full T e) (he' : EndOf t full T e') : e = e' := by
  have hle : ∀ {e e' : Addr × List Token}, EndOf t full T e → EndOf t full T e' →
      full e.1 <+: full e'.1 → e = e' := by
    rintro ⟨a, rest⟩ ⟨a', rest'⟩ he he' hpre
    have hpath : full a ++ rest = full a' ++ rest' := he.path_eq.trans he'.path_eq.symm
    rcases h.wf.exists_child he'.member he.member hpre with heq | ⟨tok, c, hc, hca⟩
    · change a = a' at heq
      subst heq
      rw [List.append_cancel_left_eq] at hpath
      rw [hpath]
    · -- the first walk would have passed the edge towards the end of the second
      obtain ⟨r, hkey, hfull⟩ := h.wf.full_child he.member hc
      obtain ⟨u, hu⟩ := hca
      have hrest : rest = (t.node c).key ++ (u ++ rest') := by
        change full a ++ rest = full a' ++ rest' at hpath
        change full c ++ u = full a' at hu
        rw [← hu, hfull, ← hkey] at hpath
        simpa using hpath
      have hlt := he.partway tok (r ++ (u ++ rest')) c
        (by rw [hrest, hkey, List.cons_append]) hc
      rw [cpLen_eq_length_iff.2 ?_] at hlt
      · exact absurd hlt (lt_irrefl _)
      · rw [hkey, ← List.cons_append]
        exact List.prefix_append _ _
  rcases le_total (full e.1).length (full e'.1).length with hlen | hlen
  · exact hle he he' (List.prefix_of_prefix_length_le ⟨e.2, he.path_eq⟩ ⟨e'.2, he'.path_eq⟩ hlen)
  · exact (hle he' he
      (List.prefix_of_prefix_length_le ⟨e'.2, he'.path_eq⟩ ⟨e.2, he.path_eq⟩ hlen)).symm

/-- An insertion of a prompt that is in the tree ends at its node. -/
theorem insertEnd_full (h : t.View full A) {a : Addr} (ha : a ∈ t.nodes.values) :
    t.insertEnd (full a) = (a, []) :=
  h.endOf_unique (h.insertEnd_spec (full a)).1 ⟨Or.inr ha, by simp, by simp⟩

/-- Such an insertion keeps the path. -/
theorem keptBlocks_of_node (h : t.View full A) {T : List Token} (hT : (A T).isSome) :
    t.keptBlocks T = A.path T := by
  obtain ⟨a, ha, rfl⟩ := h.exists_addr hT
  rw [(h.insertEnd_spec (full a)).2.1, h.insertEnd_full ha]
  simp [keptAt]

/-- The last step of an insertion. -/
theorem insertHere_inserted (h : t.View full A) (now : Time) (hi : (⟨A, p⟩ : CacheState).Inv)
    {T : List Token} {e : Addr × List Token} (he : EndOf t full T e) (hT : T ≠ []) :
    ∃ s', Inserted t.blockSize ⟨A, p⟩ T (A.path (full e.1) ++ t.keptAt e)
      ((insertHere mintGpu now e.1 e.2).run (t, p)) s' ∧ A.KeepsHeads s'.trie (t.boundaryAt e) := by
  obtain ⟨n, rest⟩ := e
  obtain ⟨hn, rfl, hpart⟩ := he
  cases rest with
  | nil =>
      have hs := sameShape_touch t n now
      rw [List.append_nil] at hT ⊢
      have hv : n ∈ t.nodes.values := by
        rcases hn with rfl | hn
        · exact absurd h.wf.full_root hT
        · exact hn
      have hrun : (insertHere mintGpu now n []).run (t, p) =
          .ok ((t.touch n now).node n).blockIds (t.touch n now, p) := by
        simp only [insertHere, EStateM.run_bind, run_modifyTree]
        rfl
      refine ⟨⟨A, p⟩, .of_ok [] hrun .refl ⟨hs.blockSize_eq, full, h.sameShape hs⟩ ?_ ?_
        (by simp) (List.prefix_append _ _), .refl A _⟩
      · change (A (full n)).isSome
        rw [h.apply_full hv]
        rfl
      · simp [keptAt]
  | cons first rest =>
      cases hc : (t.node n).children.get? first with
      | none =>
          have hrun : (insertHere mintGpu now n (first :: rest)).run (t, p) =
              (insertLeaf mintGpu now n first (first :: rest)).run (t, p) := by
            simp [insertHere, hc]
          have hkept : t.keptAt (n, first :: rest) = [] := by simp [keptAt, hc]
          have hblock : t.boundaryAt (n, first :: rest) = none := by simp [boundaryAt, hc]
          rw [hrun, hkept, List.append_nil, hblock]
          exact h.insertLeaf_inserted now hi hn hc rest
      | some child =>
          have hrun : (insertHere mintGpu now n (first :: rest)).run (t, p) =
              (insertSplit mintGpu now n first child (first :: rest)
                (cpLen (first :: rest) (t.node child).key)).run (t, p) := by
            simp [insertHere, hc]
          have hkept : t.keptAt (n, first :: rest) = (t.node child).blockIds.take
              ((cpLen (first :: rest) (t.node child).key + t.blockSize - 1) / t.blockSize) := by
            simp [keptAt, hc]
          have hblock : t.boundaryAt (n, first :: rest) =
              t.splitBlock child (cpLen (first :: rest) (t.node child).key) := by
            simp [boundaryAt, hc]
          rw [hrun, hkept, hblock]
          exact h.insertSplit_inserted now hi hn hc rest (hpart first rest child rfl hc)

/-- The loop of `insert`. -/
theorem insertLoop_inserted (h : t.View full A) (now : Time) (hi : (⟨A, p⟩ : CacheState).Inv)
    (fuel : ℕ) {rest : List Token} (hn : t.Member n) (hlt : rest.length < fuel)
    (hne : full n ++ rest ≠ []) :
    ∃ s', Inserted t.blockSize ⟨A, p⟩ (full n ++ rest) (A.path (full n) ++ t.keptLoop fuel n rest)
      ((insertLoop mintGpu now fuel n rest).run (t, p)) s' ∧
        A.KeepsHeads s'.trie (t.boundaryLoop fuel n rest) := by
  obtain ⟨t₁, hs, hrun⟩ := h.run_insertLoop mintGpu now p fuel hn hlt
  obtain ⟨hend, hkept, hblock⟩ := h.endLoop_spec fuel hn hlt
  obtain ⟨s', hins⟩ := (h.sameShape hs).insertHere_inserted now hi (hend.sameShape hs) hne
  rw [hs.blockSize_eq, hs.keptAt_eq, hs.boundaryAt_eq] at hins
  rw [hrun, hkept, hblock]
  exact ⟨s', hins⟩

/-- The kept blocks belong to nodes of the trie. -/
theorem mem_keptLoop {full : Addr → List Token} {A : PathTrie Token BlockId}
    (h : t.View full A) {b : BlockId} : ∀ (fuel : ℕ) {n : Addr} {rest : List Token}, t.Member n →
    b ∈ t.keptLoop fuel n rest → ∃ l, b ∈ A.items l := by
  intro fuel
  induction fuel with
  | zero => intro n rest _ hb; simp [keptLoop] at hb
  | succ fuel ih =>
      intro n rest hn hb
      cases rest with
      | nil => simp [keptLoop] at hb
      | cons first rest =>
          cases hc : (t.node n).children.get? first with
          | none => simp [keptLoop, hc] at hb
          | some child =>
              have hcv := (h.wf.child n first child hn hc).1
              have hitems : ∀ x ∈ (t.node child).blockIds, ∃ l, x ∈ A.items l := fun x hx =>
                ⟨full child, by rwa [h.items_full hcv]⟩
              simp only [keptLoop, hc] at hb
              split at hb
              · rcases List.mem_append.1 hb with hb | hb
                · exact hitems b hb
                · exact ih (Or.inr hcv) hb
              · exact hitems b (List.mem_of_mem_take hb)

end View

/-- **Insertion refines growth.**  It returns with the prompt in the tree, or raises `MemoryError`
after at most a split; what it keeps of the path comes first, and what it adds is allocated. -/
theorem insert_spec {bs : ℕ} {s : CacheState} (h : t.Repr bs s.trie) (hi : s.Inv) (now : Time)
    {T : List Token} (hT : T ≠ []) :
    ∃ s', Inserted bs s T (t.keptBlocks T) ((insert mintGpu now T).run (t, s.pool)) s' ∧
      s.trie.KeepsHeads s'.trie (t.boundaryBlock T) := by
  obtain ⟨rfl, full, hv⟩ := h
  have hspec := hv.insertLoop_inserted (p := s.pool) now hi (T.length + 1) t.member_root
    (Nat.lt_succ_self T.length)
  rw [hv.wf.full_root] at hspec
  simpa [insert, hT, keptBlocks, boundaryBlock] using hspec

end RadixTree

end NanoKVRouter
