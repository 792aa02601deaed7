/-
**What an insertion mints.**

An insertion asks for blocks at up to two places: the head of the lower half of a split edge, and
the leaf.  The sizes of its mints can be read off the tree beforehand, and it raises exactly when
one of them does, in their order.

The split stands between the two mints.  If the head's mint raises, nothing has changed but access
times; if the leaf's mint raises after a split, the edge stays split, the new inner node can be
matched, and a minted head stays with the tree.

Main definitions:

* `RadixTree.mints` — the sizes of the mints of an insertion;
* `RadixTree.LateMint` — the leaf's mint raises after a split;
* `RadixTree.Undone` — a tree is as before up to access times and owns nothing new.

Main results:

* `RadixTree.insert_raises` — **an insertion raises exactly when its mints do**;
* `RadixTree.insert_atomic_iff` — **a failed insertion is undone, except after a late mint**.
-/

import NanoKVRouter.RadixTreeCalls

set_option relaxedAutoImplicit false
set_option autoImplicit false

namespace NanoKVRouter

namespace RadixTree

/-! ### The sizes of the mints -/

/-- The mint of the head of the lower half, for an edge split after `cp` tokens. -/
def headMints (t : RadixTree) (child : Addr) (cp : ℕ) : List ℕ :=
  if (cp + t.blockSize - 1) / t.blockSize +
      ((t.node child).key.length - cp + t.blockSize - 1) / t.blockSize >
    (t.node child).blockIds.length then [1] else []

/-- The mint of the leaf for what remains after a split. -/
def tailMints (t : RadixTree) (tail : List Token) : List ℕ :=
  if tail = [] then [] else [t.nBlocks tail]

/-- The mints of an insertion whose walk ends at the given place. -/
def mintsAt (t : RadixTree) : Addr × List Token → List ℕ
  | (_, []) => []
  | (node, first :: rest) =>
      match (t.node node).children.get? first with
      | none => [t.nBlocks (first :: rest)]
      | some child =>
          t.headMints child (cpLen (first :: rest) (t.node child).key) ++
            t.tailMints ((first :: rest).drop (cpLen (first :: rest) (t.node child).key))

/-- The sizes of the mints an insertion of the prompt asks for, in their order. -/
def mints (t : RadixTree) (tokenIds : List Token) : List ℕ := t.mintsAt (t.insertEnd tokenIds)

theorem SameShape.mintsAt_eq {t t' : RadixTree} (hs : SameShape t t') (e : Addr × List Token) :
    t'.mintsAt e = t.mintsAt e := by
  rcases e with ⟨a, _ | ⟨first, rest⟩⟩
  · rfl
  · simp only [mintsAt, headMints, tailMints, nBlocks, hs.children_eq, hs.key_eq, hs.blockIds_eq,
      hs.blockSize_eq]

section Mints

variable {π : Type} {mint : ℕ → Py π (List BlockId)} {used : π → BlockId → Prop}
  {t : RadixTree} {full : Addr → List Token} {A : PathTrie Token BlockId} {p q : π}

/-- Mint blocks of the given sizes one after another; the ids are dropped. -/
def mintAll (mint : ℕ → Py π (List BlockId)) : List ℕ → Py π Unit
  | [] => pure ()
  | n :: ns => do
      let _ ← mint n
      mintAll mint ns

@[simp] theorem run_mintAll_nil : (mintAll mint []).run p = .ok () p := rfl

theorem run_mintAll_ok {n : ℕ} {ids : List BlockId} (h : (mint n).run p = .ok ids q) :
    (mintAll mint [n]).run p = .ok () q := by
  rw [mintAll, Py.run_bind_ok h, run_mintAll_nil]

theorem run_mintAll_error {n : ℕ} {ns : List ℕ} {e : PyErr} (h : (mint n).run p = .error e q) :
    (mintAll mint (n :: ns)).run p = .error e q := by
  rw [mintAll, Py.run_bind_error h]

theorem mintAll_append (mint : ℕ → Py π (List BlockId)) (ns ms : List ℕ) :
    mintAll mint (ns ++ ms) = (mintAll mint ns >>= fun _ => mintAll mint ms) := by
  induction ns with
  | nil => simp [mintAll]
  | cons n ns ih => simp [mintAll, ih]

/-- The leaf's mint raises after a split: the insertion leaves an edge partway with tokens to spare,
the head is minted if one is needed, and the mint of the leaf raises. -/
def LateMintAt (mint : ℕ → Py π (List BlockId)) (t : RadixTree) (p : π) :
    Addr × List Token → Prop
  | (_, []) => False
  | (node, first :: rest) =>
      match (t.node node).children.get? first with
      | none => False
      | some child => ∃ q e r,
          (mintAll mint (t.headMints child (cpLen (first :: rest) (t.node child).key))).run p =
              .ok () q ∧
            (mintAll mint (t.tailMints ((first :: rest).drop
              (cpLen (first :: rest) (t.node child).key)))).run q = .error e r

/-- An insertion of the prompt splits an edge, and then the mint of its leaf raises. -/
def LateMint (mint : ℕ → Py π (List BlockId)) (t : RadixTree) (p : π) (tokenIds : List Token) :
    Prop := LateMintAt mint t p (t.insertEnd tokenIds)

theorem SameShape.lateMintAt_iff {t' : RadixTree} (hs : SameShape t t') (e : Addr × List Token) :
    LateMintAt mint t' p e ↔ LateMintAt mint t p e := by
  rcases e with ⟨a, _ | ⟨first, rest⟩⟩
  · rfl
  · simp only [LateMintAt, headMints, tailMints, nBlocks, hs.children_eq, hs.key_eq,
      hs.blockIds_eq, hs.blockSize_eq]

/-! ### The last step of an insertion -/

/-- The head of the lower half is minted as `headMints` says. -/
theorem run_mintChildHead_mintAll (t : RadixTree) (c : Addr) (cp : ℕ) (p : π) :
    (∃ ids q, (mintChildHead mint c cp).run (t, p) = .ok ids (t, q) ∧
        (mintAll mint (t.headMints c cp)).run p = .ok () q) ∨
      ∃ e q, (mintChildHead mint c cp).run (t, p) = .error e (t, q) ∧
        (mintAll mint (t.headMints c cp)).run p = .error e q := by
  by_cases hneed : (cp + t.blockSize - 1) / t.blockSize +
      ((t.node c).key.length - cp + t.blockSize - 1) / t.blockSize > (t.node c).blockIds.length
  · rw [headMints, if_pos hneed]
    cases hrun : (mint 1).run p with
    | ok ids q =>
        refine Or.inl ⟨ids, q, ?_, run_mintAll_ok hrun⟩
        simpa [mintChildHead, hneed] using run_callback_ok hrun
    | error e q =>
        refine Or.inr ⟨e, q, ?_, run_mintAll_error hrun⟩
        simpa [mintChildHead, hneed] using run_callback_error hrun
  · rw [headMints, if_neg hneed]
    exact Or.inl ⟨[], p, by simp [mintChildHead, hneed], rfl⟩

/-- How a step of an insertion ends, when its mints have the sizes `ns`: it returns when they do;
otherwise it raises what they raise, and either the tree is as it was or, after a late mint, it has
one node more. -/
inductive EndsLike (mint : ℕ → Py π (List BlockId)) (t : RadixTree) (p : π) (ns : List ℕ)
    (late : Prop) : EStateM.Result PyErr (RadixTree × π) (List BlockId) → Prop
  | ok (ids : List BlockId) (t' : RadixTree) (q : π) : (mintAll mint ns).run p = .ok () q →
      ¬ late → EndsLike mint t p ns late (.ok ids (t', q))
  | undone (e : PyErr) (q : π) : (mintAll mint ns).run p = .error e q → ¬ late →
      EndsLike mint t p ns late (.error e (t, q))
  | late (e : PyErr) (t' : RadixTree) (q : π) : (mintAll mint ns).run p = .error e q → late →
      t'.nodes.entries.length = t.nodes.entries.length + 1 →
      EndsLike mint t p ns late (.error e (t', q))

/-- A leaf is minted in one piece. -/
theorem View.insertLeaf_ends (h : t.View full A) (hm : MintsFresh mint used) (now : Time)
    (n : Addr) (first : Token) (rest : List Token) :
    EndsLike mint t p [t.nBlocks (first :: rest)] False
      ((insertLeaf mint now n first (first :: rest)).run (t, p)) := by
  cases hrun : (mint (t.nBlocks (first :: rest))).run p with
  | error e q =>
      rw [run_insertLeaf_error hrun]
      exact .undone e q (run_mintAll_error hrun) id
  | ok ids q =>
      obtain ⟨-, hlen, -⟩ := hm.ok _ _ _ _ hrun
      obtain ⟨b, bs, rfl⟩ := List.exists_cons_of_length_pos
        (hlen ▸ nBlocks_pos h.wf.blockSize_pos (List.cons_ne_nil first rest))
      rw [run_insertLeaf hrun]
      exact .ok _ _ _ (run_mintAll_ok hrun) id

/-- The index of a tree with a split edge has one entry more. -/
theorem length_nodes_withSplit {n c : Addr} {first childFirst : Token} {cp : ℕ}
    {mids childs : List BlockId} {midHead childHead : BlockId} (now : Time)
    (hmid : (midHead, c) ∈ t.nodes.entries) (hchild : childHead ∉ t.nodes.keys) :
    (t.withSplit now n first c cp mids childs childFirst midHead childHead).nodes.entries.length =
      t.nodes.entries.length + 1 := by
  have hmidKey : midHead ∈ t.nodes.keys := PyDict.mem_keys.2 ⟨c, hmid⟩
  have hchildKey : childHead ∉ (t.nodes.set midHead t.nextAddr).keys := by
    rw [PyDict.mem_keys_set]
    rintro (rfl | hk)
    · exact hchild hmidKey
    · exact hchild hk
  change ((t.nodes.set midHead t.nextAddr).set childHead c).entries.length = _
  rw [PyDict.length_entries_set, if_neg hchildKey, PyDict.length_entries_set, if_pos hmidKey]

/-- A split mints the head, and then the leaf if tokens are left over. -/
theorem View.insertSplit_ends (h : t.View full A) (ho : Owns (used p) t A)
    (hm : MintsFresh mint used) (now : Time) {n c : Addr} {first : Token} (hn : t.Member n)
    (hc : (t.node n).children.get? first = some c) (rest : List Token)
    (hlt : cpLen (first :: rest) (t.node c).key < (t.node c).key.length) :
    EndsLike mint t p (t.headMints c (cpLen (first :: rest) (t.node c).key) ++
        t.tailMints ((first :: rest).drop (cpLen (first :: rest) (t.node c).key)))
      (∃ q e r, (mintAll mint (t.headMints c (cpLen (first :: rest) (t.node c).key))).run p =
          .ok () q ∧ (mintAll mint (t.tailMints ((first :: rest).drop
            (cpLen (first :: rest) (t.node c).key)))).run q = .error e r)
      ((insertSplit mint now n first c (first :: rest)
        (cpLen (first :: rest) (t.node c).key)).run (t, p)) := by
  obtain ⟨hcv, -, keyRest, hkey⟩ := h.wf.child n first c hn hc
  have hcp : 0 < cpLen (first :: rest) (t.node c).key := by
    rw [hkey]
    exact cpLen_cons_pos ..
  rcases @run_mintChildHead_mintAll _ mint t c (cpLen (first :: rest) (t.node c).key) p with
    ⟨ids, q, hhead, hheads⟩ | ⟨e, q, hhead, hheads⟩
  swap
  · rw [run_insertSplit_error hhead]
    refine .undone e q ?_ ?_
    · rw [mintAll_append, Py.run_bind_error hheads]
    · rintro ⟨q', -, -, hok, -⟩
      rw [hheads] at hok
      cases hok
  -- the head is there: the edge is split
  obtain ⟨hfresh, hlen⟩ : (∀ b ∈ ids, ¬ used p b) ∧ ids.length = _ := by
    rcases run_mintChildHead_cases hm t c (cpLen (first :: rest) (t.node c).key) p with
      ⟨ids', q', hhead', -, hlen, hfresh, -⟩ | ⟨e, q', hhead', -⟩
    · rw [hhead] at hhead'
      cases hhead'
      exact ⟨fun b hb => (hfresh b hb).1, hlen⟩
    · rw [hhead] at hhead'
      cases hhead'
  obtain ⟨midHead, ms, childHead, cs, hmids, hchilds, -, -, hmid, hchild⟩ :=
    h.split_halves ho.distinct hcv hcp hlt
      (fun b hb l hbl => hfresh b hb (ho.items_used l b hbl)) hlen
  obtain ⟨childFirst, childRest, hckey⟩ := List.exists_cons_of_length_pos
    (l := (t.node c).key.drop (cpLen (first :: rest) (t.node c).key))
    (by rw [List.length_drop]; omega)
  have happend : ∀ ns, (mintAll mint (t.headMints c (cpLen (first :: rest) (t.node c).key) ++
      ns)).run p = (mintAll mint ns).run q := by
    intro ns
    rw [mintAll_append, Py.run_bind_ok hheads]
  cases htail : (first :: rest).drop (cpLen (first :: rest) (t.node c).key) with
  | nil =>
      rw [run_insertSplit_end hhead hckey hmids hchilds htail]
      refine .ok _ _ q ?_ ?_
      · rw [happend]
        rfl
      · rintro ⟨q', e, r, -, herr⟩
        simp [tailMints] at herr
  | cons tailFirst tail =>
      have htails : t.tailMints (tailFirst :: tail) = [t.nBlocks (tailFirst :: tail)] := rfl
      rw [htails]
      cases hrun : (mint (t.nBlocks (tailFirst :: tail))).run q with
      | error e r =>
          rw [run_insertSplit_leaf_error hhead hckey hmids hchilds htail hrun]
          refine .late e _ r ?_ ⟨q, e, r, hheads, run_mintAll_error hrun⟩
            (length_nodes_withSplit now hmid hchild)
          rw [happend, run_mintAll_error hrun]
      | ok leafIds r =>
          obtain ⟨-, hlenLeaf, -⟩ := hm.ok _ _ _ _ hrun
          obtain ⟨leafHead, ls, rfl⟩ := List.exists_cons_of_length_pos
            (hlenLeaf ▸ nBlocks_pos h.wf.blockSize_pos (List.cons_ne_nil tailFirst tail))
          rw [run_insertSplit_leaf hhead hckey hmids hchilds htail hrun]
          refine .ok _ _ r ?_ ?_
          · rw [happend, run_mintAll_ok hrun]
          · rintro ⟨q', e, r', hq', herr⟩
            rw [hheads] at hq'
            cases hq'
            rw [run_mintAll_ok hrun] at herr
            cases herr

/-- **The last step of an insertion** ends as its mints do. -/
theorem View.insertHere_ends (h : t.View full A) (ho : Owns (used p) t A)
    (hm : MintsFresh mint used) (now : Time) {T : List Token} {e : Addr × List Token}
    (he : EndOf t full T e) :
    ∃ t₁, SameShape t t₁ ∧ EndsLike mint t₁ p (t.mintsAt e) (LateMintAt mint t p e)
      ((insertHere mint now e.1 e.2).run (t, p)) := by
  obtain ⟨n, rest⟩ := e
  obtain ⟨hn, -, hpart⟩ := he
  cases rest with
  | nil =>
      have hrun : (insertHere mint now n []).run (t, p) =
          .ok ((t.touch n now).node n).blockIds (t.touch n now, p) := by
        simp only [insertHere, EStateM.run_bind, run_modifyTree]
        rfl
      rw [hrun]
      exact ⟨t, .refl t, .ok _ _ p rfl id⟩
  | cons first rest =>
      refine ⟨t, .refl t, ?_⟩
      cases hc : (t.node n).children.get? first with
      | none =>
          have hends := h.insertLeaf_ends (p := p) hm now n first rest
          simpa [insertHere, mintsAt, LateMintAt, hc] using hends
      | some child =>
          have hends := h.insertSplit_ends ho hm now hn hc rest (hpart first rest child rfl hc)
          simpa only [insertHere, mintsAt, LateMintAt, hc, EStateM.run_bind, EStateM.run_get]
            using hends

/-! ### The insertion -/

/-- An insertion ends as its mints do. -/
theorem insert_ends (ho : Owns (used p) t A) (hm : MintsFresh mint used) (now : Time)
    {T : List Token} (hT : T ≠ []) :
    ∃ t₁, SameShape t t₁ ∧ EndsLike mint t₁ p (t.mints T) (LateMint mint t p T)
      ((insert mint now T).run (t, p)) := by
  obtain ⟨full, hv⟩ := ho.view
  obtain ⟨t₁, hs, hrun⟩ := hv.run_insertLoop mint now p (T.length + 1) t.member_root
    (Nat.lt_succ_self T.length)
  obtain ⟨hend, -⟩ := hv.endLoop_spec (T.length + 1) t.member_root (Nat.lt_succ_self T.length)
  rw [hv.wf.full_root, List.nil_append] at hend
  obtain ⟨t₂, hs₂, hends⟩ :=
    (hv.sameShape hs).insertHere_ends (ho.sameShape hs) hm now (hend.sameShape hs)
  have hinsert : (insert mint now T).run (t, p) =
      (insertLoop mint now (T.length + 1) root T).run (t, p) := by
    simp [insert, hT]
  rw [hs.mintsAt_eq, propext (hs.lateMintAt_iff _)] at hends
  rw [hinsert, hrun]
  exact ⟨t₂, hs.trans hs₂, hends⟩

/-- **An insertion raises exactly when its mints do**, and leaves their state. -/
theorem insert_raises (ho : Owns (used p) t A) (hm : MintsFresh mint used) (now : Time)
    {T : List Token} (hT : T ≠ []) (e : PyErr) (q : π) :
    (∃ t', (insert mint now T).run (t, p) = .error e (t', q)) ↔
      (mintAll mint (t.mints T)).run p = .error e q := by
  obtain ⟨t₁, -, hends⟩ := insert_ends ho hm now hT
  generalize (insert mint now T).run (t, p) = r at hends ⊢
  cases hends with
  | ok ids t' q' hall _ => simp [hall]
  | undone e' q' hall _ => simp [hall, eq_comm]
  | late e' t' q' hall _ _ => simp [hall, eq_comm]

/-! ### Atomicity -/

/-- The tree `t'` is `t` up to access times: the same nodes with the same keys and blocks, so that
every match is answered as before, and no block that is not `used` is owned by a node. -/
structure Undone (used : BlockId → Prop) (t t' : RadixTree) : Prop where
  shape : SameShape t t'
  matches_eq : ∀ now T, (t'.matchPrefix now T).1 = (t.matchPrefix now T).1 ∧
    (t'.matchPrefixPath now T).1 = (t.matchPrefixPath now T).1
  owns_used : ∀ a, t'.Linked a → ∀ b ∈ (t'.node a).blockIds, used b

theorem Undone.of_sameShape {used : BlockId → Prop} {t' : RadixTree} (ho : Owns used t A)
    (hs : SameShape t t') : Undone used t t' where
  shape := hs
  matches_eq now T := ⟨hs.matchPrefix_eq now now T, hs.matchPrefixPath_eq now now T⟩
  owns_used := by
    obtain ⟨full, hv⟩ := ho.view
    intro a ha b hb
    have hv' := hv.sameShape hs
    rcases hv'.wf.linked_iff.1 ha with rfl | hav
    · rw [hv'.wf.root_blockIds] at hb
      simp at hb
    · exact ho.items_used (full a) b (by rwa [hv'.items_full hav])

/-- **A failed insertion is undone, except after a late mint.**  Whatever its mint, which may raise
at any call, an insertion into a reachable tree that raises leaves it as it was up to access times,
with none of the minted blocks, if and only if the mint of its leaf does not raise after a split. -/
theorem insert_atomic_iff (hm : MintsFresh mint used) {blockSize : ℕ}
    (h : Reachable mint used blockSize t p) (now : Time) (T : List Token) :
    (∀ e t' q, (insert mint now T).run (t, p) = .error e (t', q) → Undone (used p) t t') ↔
      ¬ LateMint mint t p T := by
  obtain ⟨-, A, ho⟩ := h.owns hm
  by_cases hT : T = []
  · subst hT
    have hlate : ¬ LateMint mint t p [] := id
    refine iff_of_true ?_ hlate
    intro e t' q hrun
    cases hrun
  · obtain ⟨t₁, hs, hends⟩ := insert_ends ho hm now hT
    generalize (insert mint now T).run (t, p) = r at hends ⊢
    cases hends with
    | ok ids t' q hall hlate => exact iff_of_true (fun e t'' q' hr => by cases hr) hlate
    | undone e q hall hlate =>
        refine iff_of_true ?_ hlate
        intro e' t' q' hr
        cases hr
        exact .of_sameShape ho hs
    | late e t' q hall hlate hlen =>
        refine iff_of_false ?_ (not_not.2 hlate)
        intro hundone
        have hnodes := (hundone e t' q rfl).shape.nodes_eq
        rw [hnodes, ← hs.nodes_eq] at hlen
        omega

end Mints

/-- A mint that has `limit` blocks to give. -/
def mintUpTo (limit n : ℕ) : Py ℕ (List BlockId) := do
  let k ← get
  if k + n > limit then
    Py.raise (.memoryError s!"{n} blocks requested, {limit - k} free")
  else
    mintCounter n

/-- Such a mint mints fresh blocks. -/
theorem mintsFresh_mintUpTo (limit : ℕ) : MintsFresh (mintUpTo limit) (fun k b => b < k) := by
  have hrun : ∀ n k, (mintUpTo limit n).run k = (mintCounter n).run k ∨
      ∃ e, (mintUpTo limit n).run k = .error e k := by
    intro n k
    by_cases hlim : k + n > limit
    · exact Or.inr ⟨_, by simp [mintUpTo, hlim]; rfl⟩
    · exact Or.inl (by simp [mintUpTo, hlim])
  constructor
  · intro n k ids q h
    rcases hrun n k with heq | ⟨e, herr⟩
    · exact mintsFresh_mintCounter.ok n k ids q (heq ▸ h)
    · rw [herr] at h
      cases h
  · intro n k b hb
    rcases hrun n k with heq | ⟨e, herr⟩
    · rw [heq]
      exact mintsFresh_mintCounter.mono n k b hb
    · rw [herr]
      exact hb

/-- One prompt of two blocks in a tree whose mint has no more than these. -/
def twoBlockTree : RadixTree × ℕ := ((insert (mintUpTo 2) 0 [1, 2]).run (init 1, 0)).state

theorem reachable_twoBlockTree :
    Reachable (mintUpTo 2) (fun k b => b < k) 1 twoBlockTree.1 twoBlockTree.2 := by
  have h := Reachable.call (.insert 0 [1, 2])
    (@Reachable.init _ (mintUpTo 2) (fun k b => b < k) 1 0) trivial
  rwa [TreeCall.run, state_bind_unit] at h

theorem insert_atomic_iff_two :
    (∀ e t' q, (insert (mintUpTo 2) 1 [1, 3]).run twoBlockTree = .error e (t', q) →
      Undone (· < twoBlockTree.2) twoBlockTree.1 t') ↔
      ¬ LateMint (mintUpTo 2) twoBlockTree.1 twoBlockTree.2 [1, 3] :=
  insert_atomic_iff (mintsFresh_mintUpTo 2) reachable_twoBlockTree 1 [1, 3]

/-- The second prompt splits the edge of the first between its two blocks, which needs no fresh
head; then its leaf cannot be minted.  The first block alone can be matched now. -/
theorem insert_atomic_fails :
    Reachable (mintUpTo 2) (fun k b => b < k) 1 twoBlockTree.1 twoBlockTree.2 ∧
      ¬ ∀ e t' q, (insert (mintUpTo 2) 1 [1, 3]).run twoBlockTree = .error e (t', q) →
        Undone (· < twoBlockTree.2) twoBlockTree.1 t' := by
  refine ⟨reachable_twoBlockTree, fun hall => ?_⟩
  have hraise : ((insert (mintUpTo 2) 1 [1, 3]).run twoBlockTree).isOk = false := by
    decide +kernel
  have hmatch : (((insert (mintUpTo 2) 1 [1, 3]).run twoBlockTree).state.1.matchPrefix 2 [1]).1 ≠
      (twoBlockTree.1.matchPrefix 2 [1]).1 := by decide +kernel
  cases hrun : (insert (mintUpTo 2) 1 [1, 3]).run twoBlockTree with
  | ok ids s =>
      rw [hrun] at hraise
      simp [EStateM.Result.isOk] at hraise
  | error e s =>
      rw [hrun] at hmatch
      exact hmatch ((hall e s.1 s.2 hrun).matches_eq 2 [1]).1

end RadixTree

end NanoKVRouter
