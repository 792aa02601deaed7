/-
**The prefix tree under any sequence of calls.**

The tree is used with callbacks of its owner: `mint` hands out fresh blocks or raises, `tier_of`
answers anything, `free_blocks` does not raise.  An insertion adds the node of the inserted sequence
and at most the node of a split point; the removals prune.  So every sequence of calls keeps the
links, the index and the block lists of the tree consistent.

Main definitions:

* `RadixTree.MintsFresh` — what the tree relies on when it mints;
* `RadixTree.TreeCall` — a call of one of the methods, and `RadixTree.Reachable` — the states that
  calls reach;
* `RadixTree.Consistent` — the representation invariant over the nodes found from the root.

Main results:

* `RadixTree.insert_adds` — **what an insertion adds**, whether it returns or `mint` raises;
* `RadixTree.reachable_consistent` — **every reachable tree is consistent**.
-/

import NanoKVRouter.RadixTreeInsert
import NanoKVRouter.RadixTreePurge
import Mathlib.Algebra.Order.Floor.Div

set_option relaxedAutoImplicit false
set_option autoImplicit false

namespace NanoKVRouter

namespace RadixTree

/-! ### Longest common prefixes -/

/-- The longest common prefix of two token sequences. -/
def lcp (a b : List Token) : List Token := b.take (cpLen a b)

theorem isPrefix_lcp_iff {a b x : List Token} : x <+: lcp a b ↔ x <+: a ∧ x <+: b := by
  constructor
  · intro h
    exact ⟨h.trans (take_cpLen_isPrefix a b), h.trans (List.take_prefix _ _)⟩
  · rintro ⟨ha, hb⟩
    refine List.prefix_of_prefix_length_le hb (List.take_prefix _ _) ?_
    rw [lcp, List.length_take, Nat.min_eq_left (cpLen_le_right a b)]
    exact length_le_cpLen ha hb

theorem lcp_isPrefix_left (a b : List Token) : lcp a b <+: a :=
  (isPrefix_lcp_iff.1 (List.prefix_refl _)).1

theorem lcp_isPrefix_right (a b : List Token) : lcp a b <+: b :=
  (isPrefix_lcp_iff.1 (List.prefix_refl _)).2

/-- The common prefixes of two lists determine the longest one. -/
theorem eq_lcp {a b l : List Token} (h : ∀ x, x <+: l ↔ x <+: a ∧ x <+: b) : l = lcp a b := by
  have h1 : l <+: lcp a b := isPrefix_lcp_iff.2 ((h l).1 (List.prefix_refl l))
  have h2 : lcp a b <+: l := (h _).2 (isPrefix_lcp_iff.1 (List.prefix_refl _))
  exact h1.eq_of_length_le h2.length_le

theorem lcp_append (x a b : List Token) : lcp (x ++ a) (x ++ b) = x ++ lcp a b := by
  induction x with
  | nil => rfl
  | cons y x ih =>
      have hcp : cpLen (y :: x ++ a) (y :: x ++ b) = cpLen (x ++ a) (x ++ b) + 1 := by
        simp [cpLen]
      rw [lcp, hcp, List.cons_append, List.take_succ_cons]
      exact congrArg _ ih

/-- **The nodes of a tree are closed under common prefixes.** -/
theorem View.isSome_lcp {t : RadixTree} {full : Addr → List Token} {A : PathTrie Token BlockId}
    (h : t.View full A) {l l' : List Token} (hl : (A l).isSome) (hl' : (A l').isSome)
    (hne : lcp l l' ≠ []) : (A (lcp l l')).isSome := by
  obtain ⟨a, ha, rfl⟩ := h.exists_addr hl
  obtain ⟨b, hb, rfl⟩ := h.exists_addr hl'
  -- walk down from the root as long as the node lies above both
  have hwalk : ∀ (k : ℕ) (m : Addr), t.Member m → full m <+: lcp (full a) (full b) →
      (lcp (full a) (full b)).length ≤ (full m).length + k →
      ∃ m', t.Member m' ∧ full m' = lcp (full a) (full b) := by
    intro k
    induction k with
    | zero =>
        intro m hm hpre hle
        exact ⟨m, hm, hpre.eq_of_length_le hle⟩
    | succ k ih =>
        intro m hm hpre hle
        have hma := hpre.trans (lcp_isPrefix_left _ _)
        have hmb := hpre.trans (lcp_isPrefix_right _ _)
        by_cases heq : full m = lcp (full a) (full b)
        · exact ⟨m, hm, heq⟩
        · rcases h.wf.exists_child (Or.inr ha) hm hma with hamEq | ⟨tok, c, hc, hca⟩
          · exact absurd (hpre.eq_of_length_le (hamEq ▸ (lcp_isPrefix_left _ _).length_le)) heq
          · obtain ⟨r, -, hfull⟩ := h.wf.full_child hm hc
            -- the first token beyond `m` is common to both, so the child lies above both
            have hstep : full m ++ [tok] <+: lcp (full a) (full b) := by
              obtain ⟨s, hs⟩ := hpre
              cases s with
              | nil => exact absurd (by rw [← hs, List.append_nil]) heq
              | cons y s =>
                  have h1 : full m ++ y :: s <+: full a := hs ▸ lcp_isPrefix_left _ _
                  have h2 : full m ++ [tok] <+: full a :=
                    List.IsPrefix.trans (hfull ▸ by simp) hca
                  obtain ⟨u, hu⟩ := h1
                  obtain ⟨v, hv⟩ := h2
                  rw [← hv, List.append_assoc, List.append_assoc, List.append_cancel_left_eq] at hu
                  simp only [List.cons_append, List.nil_append, List.cons.injEq] at hu
                  rw [← hs, hu.1]
                  simp
            have hcb := h.prefix_of_child hm hc (by rw [h.apply_full hb]; rfl)
              (hstep.trans (lcp_isPrefix_right _ _))
            refine ih c (h.wf.member_child hm hc) (isPrefix_lcp_iff.2 ⟨hca, hcb⟩) ?_
            rw [hfull, List.length_append, List.length_cons]
            omega
  obtain ⟨m, hm, hfull⟩ := hwalk _ root t.member_root
    (by rw [h.wf.full_root]; exact List.nil_prefix) (Nat.le_add_left _ _)
  rcases hm with rfl | hm
  · exact absurd (hfull.symm.trans h.wf.full_root) hne
  · rw [← hfull, h.apply_full hm]
    rfl

/-- A split point is the longest common prefix of the inserted sequence and the end of its edge. -/
theorem split_point_eq_lcp {x key rest : List Token} :
    x ++ key.take (cpLen rest key) = lcp (x ++ rest) (x ++ key) := by
  rw [lcp_append, lcp]

/-! ### Inserting -/

section Insert

variable {π : Type} {mint : ℕ → Py π (List BlockId)} {used : π → BlockId → Prop}

/-- What the tree relies on when it mints: the blocks are distinct, as many as asked for, and have
not been handed out before.  `used p b` says that `b` has been handed out when the owner's state
is `p`. -/
structure MintsFresh (mint : ℕ → Py π (List BlockId)) (used : π → BlockId → Prop) : Prop where
  ok : ∀ n p ids q, (mint n).run p = .ok ids q → ids.Nodup ∧ ids.length = n ∧
    ∀ b ∈ ids, ¬ used p b ∧ used q b
  mono : ∀ n p b, used p b → used ((mint n).run p).state b

/-- The trie `A` of the tree `t` repeats no block, and its blocks have been handed out. -/
structure Owns (used : BlockId → Prop) (t : RadixTree) (A : PathTrie Token BlockId) : Prop where
  view : ∃ full, t.View full A
  distinct : A.Distinct
  items_used : ∀ l, ∀ b ∈ A.items l, used b

/-- What an insertion of `T` has done to the tree `t` with the trie `A`, whether it returned or
raised: the new trie `A'` has the old nodes, perhaps the node of `T`, and perhaps a node at the
common prefix of `T` and an old one.  Only `mint` raises. -/
structure Adds {α : Type} (mint : ℕ → Py π (List BlockId)) (used : π → BlockId → Prop)
    (t : RadixTree) (p : π) (A : PathTrie Token BlockId) (T : List Token)
    (r : EStateM.Result PyErr (RadixTree × π) α) (A' : PathTrie Token BlockId) : Prop where
  blockSize_eq : r.state.1.blockSize = t.blockSize
  owns : Owns (used r.state.2) r.state.1 A'
  mono : ∀ b, used p b → used r.state.2 b
  keeps : ∀ l, (A l).isSome → (A' l).isSome
  nodes : ∀ l, (A' l).isSome → (A l).isSome ∨ l = T ∨ ∃ w, (A w).isSome ∧ l = lcp T w
  ends : r.isOk = true → (A' T).isSome
  raises : ∀ e, r.error? = some e → ∃ n q, ((mint n).run q).error? = some e

variable {t : RadixTree} {full : Addr → List Token} {A : PathTrie Token BlockId} {p q : π}
  {n c : Addr} {first : Token}

namespace Owns

theorem mono {used used' : BlockId → Prop} (h : Owns used t A) (hu : ∀ b, used b → used' b) :
    Owns used' t A :=
  ⟨h.view, h.distinct, fun l b hb => hu b (h.items_used l b hb)⟩

theorem sameShape {used : BlockId → Prop} {t' : RadixTree} (h : Owns used t A)
    (hs : SameShape t t') : Owns used t' A := by
  obtain ⟨full, hv⟩ := h.view
  exact ⟨⟨full, hv.sameShape hs⟩, h.distinct, h.items_used⟩

theorem prune {used : BlockId → Prop} {t' : RadixTree} (h : Owns used t A) {l : List Token}
    (hv : t'.View full (A.prune l)) : Owns used t' (A.prune l) := by
  refine ⟨⟨full, hv⟩, h.distinct.prune l, fun w b hb => ?_⟩
  rw [PathTrie.items_prune] at hb
  split at hb
  · simp at hb
  · exact h.items_used w b hb

end Owns

/-- A new leaf with minted blocks. -/
theorem View.addLeaf (h : t.View full A) (ho : Owns (used p) t A) (hm : MintsFresh mint used)
    (now : Time) (hn : t.Member n) (hc : (t.node n).children.get? first = none)
    (rest : List Token) {ids : List BlockId}
    (hrun : (mint (t.nBlocks (first :: rest))).run p = .ok ids q) :
    ∃ b bs, ids = b :: bs ∧
      Owns (used q) (t.withLeaf now n first (first :: rest) (b :: bs) b)
        (A.put (full n ++ first :: rest) (b :: bs)) := by
  obtain ⟨hnd, hlen, hfresh⟩ := hm.ok _ _ _ _ hrun
  have hmono : ∀ b, used p b → used q b := by
    intro b hb
    have := hm.mono (t.nBlocks (first :: rest)) p b hb
    rwa [hrun] at this
  have hpos := nBlocks_pos h.wf.blockSize_pos (List.cons_ne_nil first rest)
  obtain ⟨b, bs, rfl⟩ := List.exists_cons_of_length_pos (hlen ▸ hpos)
  have hnew : ∀ x ∈ b :: bs, ∀ w, x ∉ A.items w := fun x hx w hxw =>
    (hfresh x hx).1 (ho.items_used w x hxw)
  refine ⟨b, bs, rfl, ⟨_, h.withLeaf now hn hc rfl rfl hlen
    (h.notMem_keys (hnew b List.mem_cons_self))⟩, ho.distinct.put hnd hnew, fun w x hx => ?_⟩
  rw [PathTrie.items_put] at hx
  split at hx
  · exact (hfresh x hx).2
  · exact hmono x (ho.items_used w x hx)

/-- An insertion that finds no edge to go on. -/
theorem View.insertLeaf_adds (h : t.View full A) (ho : Owns (used p) t A)
    (hm : MintsFresh mint used) (now : Time) (hn : t.Member n)
    (hc : (t.node n).children.get? first = none) (rest : List Token) :
    ∃ A', Adds mint used t p A (full n ++ first :: rest)
      ((insertLeaf mint now n first (first :: rest)).run (t, p)) A' := by
  have hmono := hm.mono (t.nBlocks (first :: rest)) p
  cases hrun : (mint (t.nBlocks (first :: rest))).run p with
  | error e q =>
      rw [hrun] at hmono
      refine ⟨A, ?_⟩
      rw [run_insertLeaf_error hrun]
      exact ⟨rfl, ho.mono hmono, hmono, fun _ hl => hl, fun _ hl => Or.inl hl,
        fun hok => absurd hok (by simp [EStateM.Result.isOk]),
        fun e' he => ⟨_, _, by rw [hrun]; exact he⟩⟩
  | ok ids q =>
      rw [hrun] at hmono
      obtain ⟨b, bs, rfl, hown⟩ := h.addLeaf ho hm now hn hc rest hrun
      rw [run_insertLeaf hrun]
      refine ⟨_, rfl, hown, hmono, fun l hl => PathTrie.isSome_put _ _ hl, fun l hl => ?_,
        fun _ => PathTrie.isSome_put_self .., fun e he => by simp [EStateM.Result.error?] at he⟩
      by_cases hlT : l = full n ++ first :: rest
      · exact Or.inr (Or.inl hlT)
      · rw [PathTrie.put_of_ne _ _ hlT] at hl
        exact Or.inl hl

/-- The head of the lower half of a split edge: at most one minted block. -/
theorem run_mintChildHead_cases (hm : MintsFresh mint used) (t : RadixTree) (c : Addr) (cp : ℕ)
    (p : π) :
    (∃ ids q, (mintChildHead mint c cp).run (t, p) = .ok ids (t, q) ∧ ids.Nodup ∧
        ids.length = (if (cp + t.blockSize - 1) / t.blockSize +
          ((t.node c).key.length - cp + t.blockSize - 1) / t.blockSize >
            (t.node c).blockIds.length then 1 else 0) ∧
        (∀ b ∈ ids, ¬ used p b ∧ used q b) ∧ ∀ b, used p b → used q b) ∨
      ∃ e q, (mintChildHead mint c cp).run (t, p) = .error e (t, q) ∧
        (mint 1).run p = .error e q ∧ ∀ b, used p b → used q b := by
  by_cases hneed : (cp + t.blockSize - 1) / t.blockSize +
      ((t.node c).key.length - cp + t.blockSize - 1) / t.blockSize > (t.node c).blockIds.length
  · have hmono := hm.mono 1 p
    cases hrun : (mint 1).run p with
    | ok ids q =>
        obtain ⟨hnd, hlen, hfresh⟩ := hm.ok _ _ _ _ hrun
        rw [hrun] at hmono
        refine Or.inl ⟨ids, q, ?_, hnd, by rw [if_pos hneed, hlen], hfresh, hmono⟩
        simpa [mintChildHead, hneed] using run_callback_ok hrun
    | error e q =>
        rw [hrun] at hmono
        refine Or.inr ⟨e, q, ?_, rfl, hmono⟩
        simpa [mintChildHead, hneed] using run_callback_error hrun
  · refine Or.inl ⟨[], p, ?_, List.nodup_nil, by rw [if_neg hneed]; rfl, by simp, fun _ hb => hb⟩
    simp [mintChildHead, hneed]

/-- A node of a split trie is an old one or the split point. -/
theorem isSome_split_cases {y z l : List Token} {m d : List BlockId} (hz : (A z).isSome)
    (hl : (A.split y z m d l).isSome) : (A l).isSome ∨ l = y := by
  by_cases hly : l = y
  · exact Or.inr hly
  · by_cases hlz : l = z
    · exact Or.inl (hlz ▸ hz)
    · rw [PathTrie.split_of_ne _ _ _ hly hlz] at hl
      exact Or.inl hl

/-- The edge from `n` to `c`, split where an insertion leaves it, with the minted blocks `ids` at the
head of its lower half. -/
theorem View.withSplit_owns (h : t.View full A) (ho : Owns (used p) t A) (now : Time)
    (hn : t.Member n) (hc : (t.node n).children.get? first = some c) (rest : List Token)
    (hlt : cpLen (first :: rest) (t.node c).key < (t.node c).key.length) {ids : List BlockId}
    (hnd : ids.Nodup) (hlen : ids.length =
      (if (cpLen (first :: rest) (t.node c).key + t.blockSize - 1) / t.blockSize +
        ((t.node c).key.length - cpLen (first :: rest) (t.node c).key + t.blockSize - 1) /
          t.blockSize > (t.node c).blockIds.length then 1 else 0))
    (hfresh : ∀ b ∈ ids, ¬ used p b ∧ used q b) (hmono : ∀ b, used p b → used q b) :
    ∃ midHead ms childHead cs childFirst childRest,
      (t.node c).key.drop (cpLen (first :: rest) (t.node c).key) = childFirst :: childRest ∧
      (t.node c).blockIds.take ((cpLen (first :: rest) (t.node c).key + t.blockSize - 1) /
        t.blockSize) = midHead :: ms ∧
      ids ++ (t.node c).blockIds.drop ((cpLen (first :: rest) (t.node c).key + t.blockSize - 1) /
        t.blockSize) = childHead :: cs ∧
      (midHead, c) ∈ t.nodes.entries ∧ childHead ∉ t.nodes.keys ∧
      (t.withSplit now n first c (cpLen (first :: rest) (t.node c).key) (midHead :: ms)
        (childHead :: cs) childFirst midHead childHead).View
          (Function.update full t.nextAddr
            (full n ++ (t.node c).key.take (cpLen (first :: rest) (t.node c).key)))
          (A.split (full n ++ (t.node c).key.take (cpLen (first :: rest) (t.node c).key)) (full c)
            (midHead :: ms) (childHead :: cs)) ∧
      Owns (used q) (t.withSplit now n first c (cpLen (first :: rest) (t.node c).key)
        (midHead :: ms) (childHead :: cs) childFirst midHead childHead)
          (A.split (full n ++ (t.node c).key.take (cpLen (first :: rest) (t.node c).key)) (full c)
            (midHead :: ms) (childHead :: cs)) := by
  obtain ⟨hcv, -, keyRest, hkey⟩ := h.wf.child n first c hn hc
  have hcp : 0 < cpLen (first :: rest) (t.node c).key := by
    rw [hkey]
    exact cpLen_cons_pos ..
  have hnew : ∀ b ∈ ids, ∀ l, b ∉ A.items l := fun b hb l hbl =>
    (hfresh b hb).1 (ho.items_used l b hbl)
  obtain ⟨midHead, ms, childHead, cs, hmids, hchilds, hlenm, hlenc, hmid, hchild⟩ :=
    h.split_halves ho.distinct hcv hcp hlt hnew hlen
  obtain ⟨childFirst, childRest, hckey⟩ := List.exists_cons_of_length_pos
    (l := (t.node c).key.drop (cpLen (first :: rest) (t.node c).key))
    (by rw [List.length_drop]; omega)
  have hitems : A.items (full c) = (midHead :: ms) ++ (t.node c).blockIds.drop
      ((cpLen (first :: rest) (t.node c).key + t.blockSize - 1) / t.blockSize) := by
    rw [h.items_full hcv, ← hmids, List.take_append_drop]
  have hview := h.withSplit now hn hc hcp rfl rfl hckey hlenm hlenc hmid hchild
  have hdistinct := ho.distinct.split
    (y := full n ++ (t.node c).key.take (cpLen (first :: rest) (t.node c).key)) hitems hnd hnew
  rw [hchilds] at hdistinct
  refine ⟨midHead, ms, childHead, cs, childFirst, childRest, hckey, hmids, hchilds, hmid, hchild,
    hview, ⟨⟨_, hview⟩, hdistinct, fun w b hb => ?_⟩⟩
  rw [PathTrie.items_split] at hb
  split at hb
  · exact hmono b (ho.items_used (full c) b (hitems ▸ List.mem_append_left _ hb))
  · split at hb
    · rw [← hchilds] at hb
      rcases List.mem_append.1 hb with hb | hb
      · exact (hfresh b hb).2
      · exact hmono b (ho.items_used (full c) b (hitems ▸ List.mem_append_right _ hb))
    · exact hmono b (ho.items_used w b hb)

/-- An insertion that leaves an edge partway. -/
theorem View.insertSplit_adds (h : t.View full A) (ho : Owns (used p) t A)
    (hm : MintsFresh mint used) (now : Time) (hn : t.Member n)
    (hc : (t.node n).children.get? first = some c) (rest : List Token)
    (hlt : cpLen (first :: rest) (t.node c).key < (t.node c).key.length) :
    ∃ A', Adds mint used t p A (full n ++ first :: rest)
      ((insertSplit mint now n first c (first :: rest)
        (cpLen (first :: rest) (t.node c).key)).run (t, p)) A' := by
  obtain ⟨hcv, -⟩ := h.wf.child n first c hn hc
  have hy : full n ++ (t.node c).key.take (cpLen (first :: rest) (t.node c).key) =
      lcp (full n ++ first :: rest) (full c) := by
    obtain ⟨r, hr, hfull⟩ := h.wf.full_child hn hc
    rw [split_point_eq_lcp, hfull, hr]
  have hcSome : (A (full c)).isSome := by
    rw [h.apply_full hcv]
    rfl
  rcases run_mintChildHead_cases hm t c (cpLen (first :: rest) (t.node c).key) p with
    ⟨ids, q, hhead, hnd, hlen, hfresh, hmono⟩ | ⟨e, q, hhead, hrun, hmono⟩
  swap
  · refine ⟨A, ?_⟩
    rw [run_insertSplit_error hhead]
    exact ⟨rfl, ho.mono hmono, hmono, fun _ hl => hl, fun _ hl => Or.inl hl,
      fun hok => absurd hok (by simp [EStateM.Result.isOk]),
      fun e' he => ⟨_, _, by rw [hrun]; exact he⟩⟩
  obtain ⟨midHead, ms, childHead, cs, childFirst, childRest, hckey, hmids, hchilds, hmid, hchild,
    hview, hown₁⟩ := h.withSplit_owns ho now hn hc rest hlt hnd hlen hfresh hmono
  have hkeeps₁ : ∀ l, (A l).isSome → (A.split
      (full n ++ (t.node c).key.take (cpLen (first :: rest) (t.node c).key)) (full c)
      (midHead :: ms) (childHead :: cs) l).isSome := fun l hl => PathTrie.isSome_split _ _ _ hl
  have hnodes₁ : ∀ l, (A.split
      (full n ++ (t.node c).key.take (cpLen (first :: rest) (t.node c).key)) (full c)
      (midHead :: ms) (childHead :: cs) l).isSome → (A l).isSome ∨
        l = full n ++ first :: rest ∨ ∃ w, (A w).isSome ∧ l = lcp (full n ++ first :: rest) w := by
    intro l hl
    rcases isSome_split_cases hcSome hl with hl | rfl
    · exact Or.inl hl
    · exact Or.inr (Or.inr ⟨full c, hcSome, hy⟩)
  cases htail : (first :: rest).drop (cpLen (first :: rest) (t.node c).key) with
  | nil =>
      rw [run_insertSplit_end hhead hckey hmids hchilds htail]
      refine ⟨_, rfl, hown₁, hmono, hkeeps₁, hnodes₁, fun _ => ?_,
        fun e he => by simp [EStateM.Result.error?] at he⟩
      rw [← eq_of_split_end (full n) htail]
      exact PathTrie.isSome_put_self ..
  | cons tailFirst tail =>
      obtain ⟨hT, htok⟩ := eq_of_split_tail (full n) htail hckey
      have hmem := member_withSplit_mid now n first (cpLen (first :: rest) (t.node c).key)
        (midHead :: ms) (childHead :: cs) childFirst hmid hchild
      have hnone := h.no_child_withSplit_mid now first (cpLen (first :: rest) (t.node c).key)
        (midHead :: ms) (childHead :: cs) midHead childHead hn (Or.inr hcv) htok
      have hmono₂ := hm.mono (t.nBlocks (tailFirst :: tail)) q
      cases hrun : (mint (t.nBlocks (tailFirst :: tail))).run q with
      | error e r =>
          rw [hrun] at hmono₂
          rw [run_insertSplit_leaf_error hhead hckey hmids hchilds htail hrun]
          exact ⟨_, rfl, hown₁.mono hmono₂, fun b hb => hmono₂ b (hmono b hb), hkeeps₁, hnodes₁,
            fun hok => absurd hok (by simp [EStateM.Result.isOk]),
        fun e' he => ⟨_, _, by rw [hrun]; exact he⟩⟩
      | ok leafIds r =>
          rw [hrun] at hmono₂
          obtain ⟨leafHead, ls, rfl, hown₂⟩ := hview.addLeaf hown₁ hm now hmem hnone tail hrun
          rw [Function.update_self, ← hT] at hown₂
          rw [run_insertSplit_leaf hhead hckey hmids hchilds htail hrun]
          refine ⟨_, rfl, hown₂, fun b hb => hmono₂ b (hmono b hb),
            fun l hl => PathTrie.isSome_put _ _ (hkeeps₁ l hl), fun l hl => ?_,
            fun _ => PathTrie.isSome_put_self .., fun e he => by simp [EStateM.Result.error?] at he⟩
          by_cases hlT : l = full n ++ first :: rest
          · exact Or.inr (Or.inl hlT)
          · rw [PathTrie.put_of_ne _ _ hlT] at hl
            exact hnodes₁ l hl

/-- The last step of an insertion. -/
theorem View.insertHere_adds (h : t.View full A) (ho : Owns (used p) t A)
    (hm : MintsFresh mint used) (now : Time) {T : List Token} {e : Addr × List Token}
    (he : EndOf t full T e) (hT : T ≠ []) :
    ∃ A', Adds mint used t p A T ((insertHere mint now e.1 e.2).run (t, p)) A' := by
  obtain ⟨n, rest⟩ := e
  obtain ⟨hn, rfl, hpart⟩ := he
  cases rest with
  | nil =>
      have hs := sameShape_touch t n now
      rw [List.append_nil] at hT ⊢
      have hv : n ∈ t.nodes.values := by
        rcases hn with rfl | hn
        · exact absurd h.wf.full_root hT
        · exact hn
      have hrun : (insertHere mint now n []).run (t, p) =
          .ok ((t.touch n now).node n).blockIds (t.touch n now, p) := by
        simp only [insertHere, EStateM.run_bind, run_modifyTree]
        rfl
      rw [hrun]
      refine ⟨A, hs.blockSize_eq, ho.sameShape hs, fun _ hb => hb, fun _ hl => hl,
        fun _ hl => Or.inl hl, fun _ => ?_, fun e he => by simp [EStateM.Result.error?] at he⟩
      rw [h.apply_full hv]
      rfl
  | cons first rest =>
      cases hc : (t.node n).children.get? first with
      | none =>
          have hrun : (insertHere mint now n (first :: rest)).run (t, p) =
              (insertLeaf mint now n first (first :: rest)).run (t, p) := by
            simp [insertHere, hc]
          rw [hrun]
          exact h.insertLeaf_adds ho hm now hn hc rest
      | some child =>
          have hrun : (insertHere mint now n (first :: rest)).run (t, p) =
              (insertSplit mint now n first child (first :: rest)
                (cpLen (first :: rest) (t.node child).key)).run (t, p) := by
            simp [insertHere, hc]
          rw [hrun]
          exact h.insertSplit_adds ho hm now hn hc rest (hpart first rest child rfl hc)

/-- **What an insertion adds**, whether it returns or `mint` raises. -/
theorem insert_adds (ho : Owns (used p) t A) (hm : MintsFresh mint used) (now : Time)
    {T : List Token} (hT : T ≠ []) :
    ∃ A', Adds mint used t p A T ((insert mint now T).run (t, p)) A' := by
  obtain ⟨full, hv⟩ := ho.view
  obtain ⟨t₁, hs, hrun⟩ := hv.run_insertLoop mint now p (T.length + 1) t.member_root
    (Nat.lt_succ_self T.length)
  obtain ⟨hend, -⟩ := hv.endLoop_spec (T.length + 1) t.member_root (Nat.lt_succ_self T.length)
  rw [hv.wf.full_root, List.nil_append] at hend
  obtain ⟨A', ha⟩ := (hv.sameShape hs).insertHere_adds (ho.sameShape hs) hm now
    (hend.sameShape hs) hT
  have hinsert : (insert mint now T).run (t, p) =
      (insertLoop mint now (T.length + 1) root T).run (t, p) := by
    simp [insert, hT]
  rw [hinsert, hrun]
  exact ⟨A', ha.blockSize_eq.trans hs.blockSize_eq, ha.owns, ha.mono, ha.keeps, ha.nodes, ha.ends,
    ha.raises⟩

end Insert

/-! ### Removing -/

section Remove

variable {used : BlockId → Prop} {t : RadixTree} {A : PathTrie Token BlockId}

/-- A call has removed nodes of the tree, and nothing else. -/
def Prunes (used : BlockId → Prop) (t t' : RadixTree) : Prop :=
  t'.blockSize = t.blockSize ∧ ∃ A', Owns used t' A'

/-- A turn of the zombie collection drops a leaf or does nothing; the other nodes stay. -/
theorem View.run_purgeOne_cases {full : Addr → List Token} (h : t.View full A)
    (freed : List BlockId) (tierOf : BlockId → Option Tier) {a : Addr} (ha : a ∈ t.nodes.values) :
    (purgeOne freed tierOf a).run t = .ok 0 t ∨
      ∃ t', (purgeOne freed tierOf a).run t = .ok 1 t' ∧ t'.View full (A.prune (full a)) ∧
        t'.blockSize = t.blockSize ∧ ∀ x ∈ t.nodes.values, x ≠ a → x ∈ t'.nodes.values := by
  have href : ¬ (t.node a).refCount > 0 := by
    rw [h.wf.refCount_zero a (Or.inr ha)]
    decide
  by_cases hleaf : (t.node a).children.entries = []
  swap
  · left
    simp [purgeOne, hleaf]
  cases hany : (t.node a).blockIds.any (freed.contains ·) with
  | false =>
      left
      simp only [purgeOne, EStateM.run_bind, EStateM.run_get, hleaf, ne_eq, not_true_eq_false,
        href, or_self, if_false, hany]
      rfl
  | true =>
      cases hlive : (t.node a).blockIds.any (fun x => (tierOf x).isSome) with
      | true =>
          left
          simp only [purgeOne, EStateM.run_bind, EStateM.run_get, hleaf, ne_eq, not_true_eq_false,
            href, or_self, if_false, hany, hlive, if_true]
          rfl
      | false =>
          right
          obtain ⟨p, tok, rest, hp, hpar, hkey, hpa, -⟩ := h.wf.parent a ha
          obtain ⟨b, bs, hb, hent⟩ := h.wf.exists_head ha
          refine ⟨t.withoutLeaf p tok a b, ?_, h.withoutLeaf hp hpa hleaf hent, rfl, ?_⟩
          · rw [hb] at hany hlive
            simp only [purgeOne, EStateM.run_bind, EStateM.run_get, hleaf, ne_eq,
              not_true_eq_false, href, or_self, if_false, hb, hany, hlive, hpar, hkey,
              Option.isSome_some, if_true, Bool.false_eq_true, run_item0_cons, EStateM.run_modify,
              EStateM.run_pure]
            simp only [unlink, hpar, RadixTree.withoutLeaf]
          · intro x hx hxa
            obtain ⟨k, hk⟩ := PyDict.mem_values.1 hx
            refine PyDict.mem_values.2 ⟨k, PyDict.mem_entries_erase.2 ⟨?_, hk⟩⟩
            rintro rfl
            exact hxa (PyDict.eq_of_mem_entries hk hent)

/-- The turns of the zombie collection over a snapshot of the index. -/
theorem foldl_purgeOne (freed : List BlockId) (tierOf : BlockId → Option Tier) :
    ∀ (as : List Addr) (n : ℕ) {t : RadixTree} {A : PathTrie Token BlockId}, Owns used t A →
    as.Nodup → (∀ a ∈ as, a ∈ t.nodes.values) →
    ∃ m t', (as.foldlM (fun purged a => do pure (purged + (← purgeOne freed tierOf a))) n :
      Py RadixTree ℕ).run t = .ok m t' ∧ Prunes used t t' := by
  intro as
  induction as with
  | nil => intro n t A ho _ _; exact ⟨n, t, rfl, rfl, A, ho⟩
  | cons a as ih =>
      intro n t A ho hnd has
      obtain ⟨hnot, hnd'⟩ := List.nodup_cons.1 hnd
      obtain ⟨full, hv⟩ := ho.view
      rcases hv.run_purgeOne_cases freed tierOf (has a List.mem_cons_self) with
        hrun | ⟨t₁, hrun, hv₁, hbs, hkeep⟩
      · obtain ⟨m, t', hrun', hp⟩ := ih (n + 0) ho hnd' fun x hx => has x (List.mem_cons_of_mem _ hx)
        refine ⟨m, t', ?_, hp⟩
        rw [List.foldlM_cons, EStateM.run_bind, EStateM.run_bind, hrun]
        exact hrun'
      · obtain ⟨m, t', hrun', hbs', hp⟩ := ih (n + 1) (ho.prune hv₁) hnd' fun x hx =>
          hkeep x (has x (List.mem_cons_of_mem _ hx)) fun heq => hnot (heq ▸ hx)
        refine ⟨m, t', ?_, hbs'.trans hbs, hp⟩
        rw [List.foldlM_cons, EStateM.run_bind, EStateM.run_bind, hrun]
        exact hrun'

/-- The zombie collection prunes. -/
theorem purgeBlockIds_prunes (ho : Owns used t A) (freed : List BlockId)
    (tierOf : BlockId → Option Tier) :
    ∃ m t', (purgeBlockIds freed tierOf).run t = .ok m t' ∧ Prunes used t t' := by
  obtain ⟨full, hv⟩ := ho.view
  by_cases hnil : freed = []
  · exact ⟨0, t, by simp [purgeBlockIds, hnil], rfl, A, ho⟩
  · obtain ⟨m, t', hrun, hp⟩ := foldl_purgeOne freed tierOf t.nodes.values 0 ho
      hv.wf.values_nodup fun a ha => ha
    refine ⟨m, t', ?_, hp⟩
    simpa only [purgeBlockIds, hnil, if_false, EStateM.run_bind, EStateM.run_get] using hrun

/-- The loop of the evictions prunes. -/
theorem evictLoop_prunes {α : Type} (report : RadixNode → α) : ∀ (n : ℕ) (out : List α)
    {t : RadixTree} {A : PathTrie Token BlockId}, Owns used t A →
    ∃ out' t', (evictLoop report n out).run t = .ok out' t' ∧ Prunes used t t' := by
  intro n
  induction n with
  | zero => intro out t A ho; exact ⟨out, t, rfl, rfl, A, ho⟩
  | succ n ih =>
      intro out t A ho
      cases hvic : t.lruVictim none with
      | none => exact ⟨out, t, by simp [evictLoop, hvic], rfl, A, ho⟩
      | some victim =>
          obtain ⟨hval, hleaf⟩ := mem_of_lruVictim hvic
          obtain ⟨full, hv⟩ := ho.view
          obtain ⟨t₁, hrun₁, hv₁, hbs, -⟩ := hv.run_removeZombie hval hleaf
          obtain ⟨out', t', hrun, hbs', hp⟩ := ih (out ++ [report (t.node victim)]) (ho.prune hv₁)
          refine ⟨out', t', ?_, hbs'.trans hbs, hp⟩
          simp only [evictLoop, EStateM.run_bind, EStateM.run_get, hvic, hrun₁]
          exact hrun

/-- The scan for demotion victims prunes. -/
theorem demoteScan_prunes (clock : ℕ → Time) (nNodes : ℕ)
    (tierOf : Option (BlockId → Option Tier)) (isPinned : Option (BlockId → Bool)) :
    ∀ (scans : ℕ) (out : List (List BlockId)) {t : RadixTree} {A : PathTrie Token BlockId},
    Owns used t A → ∃ out' t', (demoteScan clock nNodes tierOf isPinned scans out).run t =
      .ok out' t' ∧ Prunes used t t' := by
  intro scans
  induction scans with
  | zero => intro out t A ho; exact ⟨out, t, rfl, rfl, A, ho⟩
  | succ scans ih =>
      intro out t A ho
      by_cases hlen : out.length < nNodes
      swap
      · exact ⟨out, t, by simp [demoteScan, hlen], rfl, A, ho⟩
      cases hvic : t.lruVictim isPinned with
      | none => exact ⟨out, t, by simp [demoteScan, hlen, hvic], rfl, A, ho⟩
      | some victim =>
          obtain ⟨hval, hleaf⟩ := mem_of_lruVictim hvic
          rcases run_demoteScan_victim clock scans tierOf hlen hvic with hrun | hrun
          · -- a zombie: it is dropped, and the scan goes on
            obtain ⟨full, hv⟩ := ho.view
            obtain ⟨t₁, hrun₁, hv₁, hbs, -⟩ := hv.run_removeZombie hval hleaf
            obtain ⟨out', t', hrun', hbs', hp⟩ := ih out (ho.prune hv₁)
            exact ⟨out', t', by rw [hrun, EStateM.run_bind, hrun₁]; exact hrun', hbs'.trans hbs, hp⟩
          · have hs := sameShape_touch t victim (renewedTime (clock out.length))
            obtain ⟨out', t', hrun', hbs', hp⟩ :=
              ih (out ++ [(t.node victim).blockIds]) (ho.sameShape hs)
            exact ⟨out', t', hrun.trans hrun', hbs'.trans hs.blockSize_eq, hp⟩

end Remove

/-! ### Purging a path with any callbacks -/

section PurgePathCalls

variable {π : Type} {used : π → BlockId → Prop} {tierOf : π → BlockId → Option Tier}
  {freeBlocks : List BlockId → Py π Unit} {t : RadixTree} {full : Addr → List Token}
  {A : PathTrie Token BlockId} {p : π}

/-- The callback `free_blocks` does not raise, and takes back no block that was handed out. -/
def FreesQuietly (freeBlocks : List BlockId → Py π Unit) (used : π → BlockId → Prop) : Prop :=
  ∀ ids p, ∃ q, (freeBlocks ids).run p = .ok () q ∧ ∀ b, used p b → used q b

theorem run_freeAlive_quiet (tierOf : π → BlockId → Option Tier)
    (hf : FreesQuietly freeBlocks used) (t : RadixTree) (p : π)
    (a : Addr) : ∃ q, (freeAlive tierOf freeBlocks a).run (t, p) = .ok () (t, q) ∧
      ∀ b, used p b → used q b := by
  by_cases hnil : ((t.node a).blockIds.filter fun b => (tierOf p b).isSome) = []
  · refine ⟨p, ?_, fun _ hb => hb⟩
    simp only [freeAlive, EStateM.run_bind, EStateM.run_get, hnil, ne_eq, not_true_eq_false,
      if_false]
    rfl
  · obtain ⟨q, hrun, hmono⟩ := hf ((t.node a).blockIds.filter fun b => (tierOf p b).isSome) p
    refine ⟨q, ?_, hmono⟩
    simpa only [freeAlive, EStateM.run_bind, EStateM.run_get, ne_eq, hnil, not_false_eq_true,
      if_true] using run_callback_ok (t := t) hrun

/-- The purge of a path prunes. -/
theorem purgePath_prunes (tierOf : π → BlockId → Option Tier) (ho : Owns (used p) t A)
    (hf : FreesQuietly freeBlocks used) (T : List Token) :
    ∃ k t' q, (purgePathWithAnyDead tierOf freeBlocks T).run (t, p) = .ok k (t', q) ∧
      (∀ b, used p b → used q b) ∧ Prunes (used q) t t' := by
  obtain ⟨full, hv⟩ := ho.view
  rcases hv.purgePathLoop_first p tierOf freeBlocks T.length t.member_root le_rfl with
    ⟨hrun, -⟩ | ⟨m, first, c, hm, hc, -, -, -, hrun⟩
  · exact ⟨0, t, p, hrun, fun _ hb => hb, rfl, A, ho⟩
  · obtain ⟨k, t', q, hrun', hrem, hfrees, -⟩ := hv.run_purgeNode_detached
      (R := fun _ p q => ∀ b, used p b → used q b) (I := fun _ => True) (D := fun _ => True)
      (fun x _ _ u p _ _ => by
        obtain ⟨q, hrun, hmono⟩ := run_freeAlive_quiet tierOf hf u p x
        exact ⟨q, hrun, hmono, trivial⟩) hm hc (fun _ _ => trivial) (p := p) trivial
    have hmono : ∀ b, used p b → used q b := fun b => hfrees.keeps (P := fun p => used p b)
      fun _ p q hpq => hpq b
    refine ⟨k, t', q, ?_, hmono, hrem.blockSize_eq, _,
      (ho.mono hmono).prune (hv.removed hm hc hrem)⟩
    rw [purgePathWithAnyDead, hrun, hrun']

end PurgePathCalls

/-! ### Sequences of calls -/

/-- The two matching loops differ in what they collect only. -/
theorem matchPrefixLoop_eq (now : Time) : ∀ (fuel : ℕ) (t : RadixTree) (n : Addr)
    (rest : List Token) (pos : ℕ) (ids ids' : List BlockId),
    (matchPrefixLoop now fuel t n rest pos ids).1.1 =
        (matchPathLoop now fuel t n rest pos ids').1.1 ∧
      (matchPrefixLoop now fuel t n rest pos ids).2 =
        (matchPathLoop now fuel t n rest pos ids').2 := by
  intro fuel
  induction fuel with
  | zero => intro t n rest pos ids ids'; exact ⟨rfl, rfl⟩
  | succ fuel ih =>
      intro t n rest pos ids ids'
      cases rest with
      | nil => exact ⟨rfl, rfl⟩
      | cons first rest =>
          cases hc : (t.node n).children.get? first with
          | none => simp [matchPrefixLoop, matchPathLoop, hc]
          | some child =>
              simp only [matchPrefixLoop, matchPathLoop, hc]
              split
              · exact ⟨rfl, rfl⟩
              · exact ih ..

/-- **`match_prefix` and `match_prefix_path` match the same tokens** and touch the same nodes. -/
theorem matchPrefix_eq (t : RadixTree) (now : Time) (T : List Token) :
    (t.matchPrefix now T).1.1 = (t.matchPrefixPath now T).1.1 ∧
      (t.matchPrefix now T).2 = (t.matchPrefixPath now T).2 := by
  rw [matchPrefix, matchPrefixPath]
  split
  · exact ⟨rfl, rfl⟩
  · exact matchPrefixLoop_eq ..

/-- A call of a method of the tree.  The tree's own `mint` is fixed; what else a method is given
changes from call to call. -/
inductive TreeCall (π : Type) where
  | insert (now : Time) (tokenIds : List Token)
  | matchPrefix (now : Time) (tokenIds : List Token)
  | matchPrefixPath (now : Time) (tokenIds : List Token)
  | evictLru (nNodes : ℕ)
  | evictLruWithLengths (nNodes : ℕ)
  | demoteLru (clock : ℕ → Time) (nNodes : ℕ) (tierOf : Option (BlockId → Option Tier))
      (isPinned : Option (BlockId → Bool))
  | purgeBlockIds (freed : List BlockId) (tierOf : BlockId → Option Tier)
  | purgePathWithAnyDead (tokenIds : List Token) (tierOf : π → BlockId → Option Tier)
      (freeBlocks : List BlockId → Py π Unit)

section Calls

variable {π : Type}

/-- Run a method that uses no callback with a state. -/
def onTree {α : Type} (m : Py RadixTree α) : Py (RadixTree × π) α :=
  Py.onPart Prod.fst (fun t s => (t, s.2)) m

/-- The call, its result dropped. -/
def TreeCall.run (mint : ℕ → Py π (List BlockId)) : TreeCall π → Py (RadixTree × π) Unit
  | .insert now T => do let _ ← RadixTree.insert mint now T
  | .matchPrefix now T => modifyTree fun t => (t.matchPrefix now T).2
  | .matchPrefixPath now T => modifyTree fun t => (t.matchPrefixPath now T).2
  | .evictLru n => do let _ ← onTree (RadixTree.evictLru n)
  | .evictLruWithLengths n => do let _ ← onTree (RadixTree.evictLruWithLengths n)
  | .demoteLru clock n tierOf isPinned => do
      let _ ← onTree (RadixTree.demoteLru clock n tierOf isPinned)
  | .purgeBlockIds freed tierOf => do let _ ← onTree (RadixTree.purgeBlockIds freed tierOf)
  | .purgePathWithAnyDead T tierOf freeBlocks => do
      let _ ← RadixTree.purgePathWithAnyDead tierOf freeBlocks T

/-- The callbacks given to the call do not raise. -/
def TreeCall.Quiet (used : π → BlockId → Prop) : TreeCall π → Prop
  | .purgePathWithAnyDead _ _ freeBlocks => FreesQuietly freeBlocks used
  | _ => True

/-- The states that a tree reaches: after any calls, returned or raised, and after its owner has
done something else with the state of the callbacks. -/
inductive Reachable (mint : ℕ → Py π (List BlockId)) (used : π → BlockId → Prop) (blockSize : ℕ) :
    RadixTree → π → Prop
  | init (p : π) : Reachable mint used blockSize (RadixTree.init blockSize) p
  | owner {t : RadixTree} {p q : π} (h : Reachable mint used blockSize t p)
      (hq : ∀ b, used p b → used q b) : Reachable mint used blockSize t q
  | call {t : RadixTree} {p : π} (c : TreeCall π) (h : Reachable mint used blockSize t p)
      (hc : c.Quiet used) :
      Reachable mint used blockSize ((c.run mint).run (t, p)).state.1
        ((c.run mint).run (t, p)).state.2

variable {mint : ℕ → Py π (List BlockId)} {used : π → BlockId → Prop} {t : RadixTree} {p : π}
  {A : PathTrie Token BlockId}

theorem state_bind_unit {σ α : Type} (m : Py σ α) (s : σ) :
    ((do let _ ← m : Py σ Unit).run s).state = (m.run s).state := by
  rw [EStateM.run_bind]
  cases m.run s <;> rfl

theorem run_onTree_ok {α : Type} {m : Py RadixTree α} {a : α} {t' : RadixTree}
    (h : m.run t = .ok a t') : (onTree m).run (t, p) = .ok a (t', p) := by
  rw [onTree, Py.run_onPart_ok h]

/-- A method that prunes leaves the state of the callbacks alone. -/
theorem owns_onTree {α : Type} {m : Py RadixTree α}
    (h : ∃ a t', m.run t = .ok a t' ∧ Prunes (used p) t t') :
    ((onTree m).run (t, p)).state.1.blockSize = t.blockSize ∧
      ∃ A', Owns (used ((onTree m).run (t, p)).state.2) ((onTree m).run (t, p)).state.1 A' := by
  obtain ⟨a, t', hrun, hbs, A', ho⟩ := h
  rw [run_onTree_ok hrun]
  exact ⟨hbs, A', ho⟩

/-- A call keeps the trie of the tree sound. -/
theorem TreeCall.run_owns (hm : MintsFresh mint used) (ho : Owns (used p) t A) (c : TreeCall π)
    (hc : c.Quiet used) :
    ((c.run mint).run (t, p)).state.1.blockSize = t.blockSize ∧
      ∃ A', Owns (used ((c.run mint).run (t, p)).state.2) ((c.run mint).run (t, p)).state.1 A' := by
  have hmatch : ∀ now T, ((t.matchPrefixPath now T).2).blockSize = t.blockSize ∧
      ∃ A', Owns (used p) (t.matchPrefixPath now T).2 A' := by
    intro now T
    obtain ⟨full, hv⟩ := ho.view
    obtain ⟨t', hs, hrun⟩ := hv.matchPrefixPath_eq now T
    rw [hrun]
    exact ⟨hs.blockSize_eq, A, ho.sameShape hs⟩
  cases c with
  | insert now T =>
      rw [TreeCall.run, state_bind_unit]
      by_cases hT : T = []
      · subst hT
        exact ⟨rfl, A, ho⟩
      · obtain ⟨A', ha⟩ := insert_adds ho hm now hT
        exact ⟨ha.blockSize_eq, A', ha.owns⟩
  | matchPrefix now T =>
      rw [TreeCall.run, run_modifyTree, EStateM.Result.state_ok, (matchPrefix_eq t now T).2]
      exact hmatch now T
  | matchPrefixPath now T =>
      rw [TreeCall.run, run_modifyTree]
      exact hmatch now T
  | evictLru n =>
      rw [TreeCall.run, state_bind_unit]
      exact owns_onTree (evictLoop_prunes _ n [] ho)
  | evictLruWithLengths n =>
      rw [TreeCall.run, state_bind_unit]
      exact owns_onTree (evictLoop_prunes _ n [] ho)
  | demoteLru clock n tierOf isPinned =>
      rw [TreeCall.run, state_bind_unit]
      exact owns_onTree (demoteScan_prunes clock n tierOf isPinned _ [] ho)
  | purgeBlockIds freed tierOf =>
      rw [TreeCall.run, state_bind_unit]
      exact owns_onTree (purgeBlockIds_prunes ho freed tierOf)
  | purgePathWithAnyDead T tierOf freeBlocks =>
      obtain ⟨k, t', q, hrun, -, hbs, A', ho'⟩ := purgePath_prunes tierOf ho hc T
      rw [TreeCall.run, state_bind_unit, hrun]
      exact ⟨hbs, A', ho'⟩

/-- Every reachable tree represents a trie without a repeated block. -/
theorem Reachable.owns (hm : MintsFresh mint used) {blockSize : ℕ}
    (h : Reachable mint used blockSize t p) :
    t.blockSize = max 1 blockSize ∧ ∃ A, Owns (used p) t A := by
  induction h with
  | init p =>
      obtain ⟨-, full, hv⟩ := @repr_init (max 1 blockSize) (le_max_left _ _)
      have hinit : RadixTree.init (max 1 blockSize) = RadixTree.init blockSize := by
        simp [RadixTree.init]
      rw [hinit] at hv
      exact ⟨rfl, _, ⟨full, hv⟩, PathTrie.distinct_empty, by simp [PathTrie.items]⟩
  | owner _ hq ih =>
      obtain ⟨hbs, A, ho⟩ := ih
      exact ⟨hbs, A, ho.mono hq⟩
  | call c _ hc ih =>
      obtain ⟨hbs, A, ho⟩ := ih
      obtain ⟨hbs', A', ho'⟩ := c.run_owns hm ho hc
      exact ⟨hbs'.trans hbs, A', ho'⟩

end Calls

/-! ### The representation invariant -/

/-- The representation invariant, over the nodes found from the root. -/
structure Consistent (t : RadixTree) : Prop where
  key_ne_nil : ∀ a, t.Linked a → a ≠ root → (t.node a).key ≠ []
  length_blockIds : ∀ a, t.Linked a → a ≠ root →
    (t.node a).blockIds.length = (t.node a).key.length ⌈/⌉ t.blockSize
  stored : ∀ a, t.Linked a → a ≠ root → ∃ p first rest, t.Linked p ∧
    (t.node a).key = first :: rest ∧ (t.node p).children.get? first = some a ∧
    (t.node a).parent = some p
  child : ∀ p tok c, t.Linked p → (t.node p).children.get? tok = some c →
    c ≠ root ∧ (t.node c).parent = some p ∧ ∃ rest, (t.node c).key = tok :: rest
  nodup : ∀ a, t.Linked a → (t.node a).blockIds.Nodup
  disjoint : ∀ a a', t.Linked a → t.Linked a' → a ≠ a' →
    ∀ b ∈ (t.node a).blockIds, b ∉ (t.node a').blockIds
  index : ∀ b a, t.nodes.get? b = some a ↔
    t.Linked a ∧ a ≠ root ∧ (t.node a).blockIds.head? = some b

/-- A tree that represents a trie without a repeated block is consistent. -/
theorem Owns.consistent {used : BlockId → Prop} {t : RadixTree} {A : PathTrie Token BlockId}
    (h : Owns used t A) : t.Consistent := by
  obtain ⟨full, hv⟩ := h.view
  have hval : ∀ a, t.Linked a → a ≠ root → a ∈ t.nodes.values := fun a ha hne =>
    (hv.wf.linked_iff.1 ha).resolve_left hne
  have hitems : ∀ a, t.Linked a → A.items (full a) = (t.node a).blockIds := by
    intro a ha
    rcases hv.wf.linked_iff.1 ha with rfl | ha
    · rw [hv.wf.full_root, PathTrie.items_of_none hv.apply_nil, hv.wf.root_blockIds]
    · exact hv.items_full ha
  refine ⟨?_, ?_, ?_, ?_, ?_, ?_, ?_⟩
  · intro a ha hne
    obtain ⟨p, tok, rest, -, -, hkey, -, -⟩ := hv.wf.parent a (hval a ha hne)
    simp [hkey]
  · intro a ha hne
    obtain ⟨p, tok, rest, -, -, hkey, -, -⟩ := hv.wf.parent a (hval a ha hne)
    rw [hv.wf.length_blockIds a (hval a ha hne), nBlocks_of_ne_nil (by simp [hkey]),
      Nat.ceilDiv_eq_add_pred_div]
  · intro a ha hne
    obtain ⟨p, tok, rest, hp, hpar, hkey, hpa, -⟩ := hv.wf.parent a (hval a ha hne)
    exact ⟨p, tok, rest, hv.wf.linked_iff.2 hp, hkey, hpa, hpar⟩
  · intro p tok c hp hc
    obtain ⟨hcv, hpar, hkey⟩ := hv.wf.child p tok c (hv.wf.linked_iff.1 hp) hc
    exact ⟨fun heq => hv.wf.root_notMem (heq ▸ hcv), hpar, hkey⟩
  · intro a ha
    exact hitems a ha ▸ h.distinct.nodup _
  · intro a a' ha ha' hne b hb hb'
    rw [← hitems a ha] at hb
    rw [← hitems a' ha'] at hb'
    exact hne (hv.wf.full_inj (hv.wf.linked_iff.1 ha) (hv.wf.linked_iff.1 ha')
      (h.distinct.unique _ _ _ hb hb'))
  · intro b a
    rw [PyDict.get?_eq_some_iff]
    constructor
    · intro hent
      have ha := PyDict.mem_values.2 ⟨b, hent⟩
      exact ⟨hv.wf.linked_iff.2 (Or.inr ha), fun heq => hv.wf.root_notMem (heq ▸ ha),
        hv.wf.index_head b a hent⟩
    · rintro ⟨ha, hne, hhead⟩
      obtain ⟨b', bs, hb', hent⟩ := hv.wf.exists_head (hval a ha hne)
      rw [hb', List.head?_cons, Option.some_inj] at hhead
      exact hhead ▸ hent

/-- **Every reachable tree is consistent**, with the block size it was created with. -/
theorem reachable_consistent {π : Type} {mint : ℕ → Py π (List BlockId)}
    {used : π → BlockId → Prop} (hm : MintsFresh mint used) {blockSize : ℕ} {t : RadixTree} {p : π}
    (h : Reachable mint used blockSize t p) :
    t.blockSize = max 1 blockSize ∧ t.Consistent := by
  obtain ⟨hbs, A, ho⟩ := h.owns hm
  exact ⟨hbs, ho.consistent⟩

/-- A counter as the owner's state: it mints the numbers from the counter on. -/
def mintCounter (n : ℕ) : Py ℕ (List BlockId) := do
  let k ← get
  set (k + n)
  pure (List.range' k n)

theorem run_mintCounter (n k : ℕ) :
    (mintCounter n).run k = .ok (List.range' k n) (k + n) := rfl

/-- A counter mints fresh blocks. -/
theorem mintsFresh_mintCounter : MintsFresh mintCounter (fun k b => b < k) := by
  constructor
  · intro n k ids q h
    rw [run_mintCounter, EStateM.Result.ok.injEq] at h
    obtain ⟨rfl, rfl⟩ := h
    refine ⟨List.nodup_range', List.length_range', fun b hb => ?_⟩
    rw [List.mem_range'_1] at hb
    exact ⟨Nat.not_lt.2 hb.1, hb.2⟩
  · intro n k b hb
    rw [run_mintCounter]
    exact Nat.lt_of_lt_of_le hb (Nat.le_add_right k n)

theorem reachable_consistent_split :
    ∃ t p, Reachable mintCounter (fun k b => b < k) 2 t p ∧ t.nodes.keys = [0, 1, 2] ∧
      t.Consistent := by
  have h := Reachable.call (.insert 1 [5, 6, 8])
    (.call (.insert 0 [5, 6, 7]) (@Reachable.init _ mintCounter (fun k b => b < k) 2 0) trivial)
    trivial
  exact ⟨_, _, h, by decide +kernel, (reachable_consistent mintsFresh_mintCounter h).2⟩

end RadixTree

end NanoKVRouter
