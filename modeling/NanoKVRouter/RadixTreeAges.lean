/-
**What the access times of a tree decide.**

Two trees that differ in access times only answer every query alike and change alike.  The one
place that reads an access time is the choice of the node to demote, and that compares two of them.
So the trees demote the same nodes as long as of any two nodes the same one is older in both; a
touch keeps that so if the access times in which the trees differ lie before it.

Main definitions:

* `RadixTree.mark` — the tree with some of its nodes touched;
* `RadixTree.SameAges` — of any two nodes, the same one is older in both trees;
* `RadixTree.Twins` — the trees differ in access times only, and perhaps have the same ages.

Main results:

* `List.argmin_congr` — a least entry depends on comparisons only;
* `RadixTree.matchPrefixPath_marks` — a walk marks nodes that access times do not decide;
* `RadixTree.SameAges.touch` — **a touch** keeps the ages the same;
* `RadixTree.sim_purgePathWithAnyDead` — the purge of a path does not look at access times;
* `RadixTree.sim_demoteLru` — **the demotion** of trees with the same ages selects the same nodes;
* `RadixTree.sim_insert` — **an insertion** does not look at access times.
-/

import NanoKVRouter.PyRelations
import NanoKVRouter.RadixTreeShape

set_option relaxedAutoImplicit false
set_option autoImplicit false

/-- A least entry of a list depends on the comparisons of later entries with earlier ones only. -/
theorem List.argmin_congr {α β : Type} [LinearOrder β] {f g : α → β} {l : List α}
    (h : l.Pairwise fun a b => (f b < f a ↔ g b < g a)) : l.argmin f = l.argmin g := by
  induction l using List.reverseRecOn with
  | nil => rfl
  | append_singleton l a ih =>
      rw [List.pairwise_append] at h
      rw [List.argmin_concat, List.argmin_concat, ih h.1]
      cases hmin : l.argmin g with
      | none => rfl
      | some c => simp only [h.2.2 c (List.argmin_mem hmin) a (List.mem_singleton_self a)]

namespace NanoKVRouter

namespace RadixTree

variable {t t' u u' : RadixTree} {now τ τ' : Time} {held : BlockId → Prop}

/-! ### Trees of one shape -/

/-- The tree with the nodes of a list touched. -/
def mark (t : RadixTree) (as : List Addr) (now : Time) : RadixTree :=
  { t with node := fun a => if a ∈ as then { t.node a with lastAccessTime := now } else t.node a }

@[simp] theorem mark_nil (t : RadixTree) (now : Time) : t.mark [] now = t := by
  simp [mark]

theorem lastAccessTime_mark (t : RadixTree) (as : List Addr) (now : Time) (a : Addr) :
    ((t.mark as now).node a).lastAccessTime = if a ∈ as then now else (t.node a).lastAccessTime := by
  simp only [mark]
  split <;> rfl

/-- Touching a node and then others at one time. -/
theorem mark_touch (t : RadixTree) (a : Addr) (as : List Addr) (now : Time) :
    (t.touch a now).mark as now = t.mark (a :: as) now := by
  simp only [mark, touch, modifyNode, mk.injEq, true_and, and_true]
  funext c
  by_cases hca : c = a
  · subst hca
    simp
  · simp [hca]

/-- The later of two marks of the same nodes counts. -/
theorem mark_mark (t : RadixTree) (as : List Addr) (τ τ' : Time) :
    (t.mark as τ).mark as τ' = t.mark as τ' := by
  simp only [mark, mk.injEq, true_and, and_true]
  funext c
  split <;> rfl

theorem sameShape_mark (t : RadixTree) (as : List Addr) (now : Time) :
    SameShape t (t.mark as now) := by
  refine ⟨rfl, rfl, rfl, ?_, ?_, ?_, ?_, ?_⟩ <;> intro a <;> simp only [mark] <;> split <;> rfl

namespace SameShape

theorem symm (h : SameShape t t') : SameShape t' t where
  blockSize_eq := h.blockSize_eq.symm
  nextAddr_eq := h.nextAddr_eq.symm
  nodes_eq := h.nodes_eq.symm
  key_eq a := (h.key_eq a).symm
  blockIds_eq a := (h.blockIds_eq a).symm
  refCount_eq a := (h.refCount_eq a).symm
  children_eq a := (h.children_eq a).symm
  parent_eq a := (h.parent_eq a).symm

theorem mark (h : SameShape t t') (as : List Addr) (τ τ' : Time) :
    SameShape (t.mark as τ) (t'.mark as τ') :=
  ((sameShape_mark t as τ).symm.trans h).trans (sameShape_mark t' as τ')

/-- What the two trees have in common at each node, they have in common after a change of one. -/
theorem update_eq {α : Type} (field : RadixNode → α) {f f' : Addr → RadixNode} {a : Addr}
    {n n' : RadixNode} (h : ∀ c, field (f' c) = field (f c)) (ha : field n' = field n) (c : Addr) :
    field (Function.update f' a n' c) = field (Function.update f a n c) := by
  rcases eq_or_ne c a with rfl | hc
  · rw [Function.update_self, Function.update_self, ha]
  · rw [Function.update_of_ne hc, Function.update_of_ne hc, h]

theorem modifyNode (h : SameShape t t') (a : Addr) {f f' : RadixNode → RadixNode}
    (hkey : (f' (t'.node a)).key = (f (t.node a)).key)
    (hblocks : (f' (t'.node a)).blockIds = (f (t.node a)).blockIds)
    (href : (f' (t'.node a)).refCount = (f (t.node a)).refCount)
    (hchildren : (f' (t'.node a)).children = (f (t.node a)).children)
    (hparent : (f' (t'.node a)).parent = (f (t.node a)).parent) :
    SameShape (t.modifyNode a f) (t'.modifyNode a f') where
  blockSize_eq := h.blockSize_eq
  nextAddr_eq := h.nextAddr_eq
  nodes_eq := h.nodes_eq
  key_eq := update_eq RadixNode.key h.key_eq hkey
  blockIds_eq := update_eq RadixNode.blockIds h.blockIds_eq hblocks
  refCount_eq := update_eq RadixNode.refCount h.refCount_eq href
  children_eq := update_eq RadixNode.children h.children_eq hchildren
  parent_eq := update_eq RadixNode.parent h.parent_eq hparent

theorem setChild (h : SameShape t t') (a : Addr) (tok : Token) (c : Addr) :
    SameShape (t.setChild a tok c) (t'.setChild a tok c) :=
  h.modifyNode a (h.key_eq a) (h.blockIds_eq a) (h.refCount_eq a)
    (by simp only [h.children_eq a]) (h.parent_eq a)

theorem dropChild (h : SameShape t t') (a : Addr) (tok : Token) :
    SameShape (t.dropChild a tok) (t'.dropChild a tok) :=
  h.modifyNode a (h.key_eq a) (h.blockIds_eq a) (h.refCount_eq a)
    (by simp only [h.children_eq a]) (h.parent_eq a)

theorem orphan (h : SameShape t t') (a : Addr) : SameShape (t.orphan a) (t'.orphan a) :=
  h.modifyNode a (h.key_eq a) (h.blockIds_eq a) (h.refCount_eq a) (h.children_eq a) rfl

theorem clearChildren (h : SameShape t t') (a : Addr) :
    SameShape (t.modifyNode a fun n => { n with children := PyDict.empty })
      (t'.modifyNode a fun n => { n with children := PyDict.empty }) :=
  h.modifyNode a (h.key_eq a) (h.blockIds_eq a) (h.refCount_eq a) rfl (h.parent_eq a)

theorem index (h : SameShape t t') (b : BlockId) (a : Addr) :
    SameShape (t.index b a) (t'.index b a) :=
  { h with nodes_eq := by simp only [RadixTree.index, h.nodes_eq] }

theorem unindex (h : SameShape t t') (b : BlockId) : SameShape (t.unindex b) (t'.unindex b) :=
  { h with nodes_eq := by simp only [RadixTree.unindex, h.nodes_eq] }

theorem newNode (h : SameShape t t') (n : RadixNode) :
    SameShape (t.newNode n) (t'.newNode n) := by
  rw [RadixTree.newNode, RadixTree.newNode, h.nextAddr_eq]
  exact
    { blockSize_eq := h.blockSize_eq
      nextAddr_eq := rfl
      nodes_eq := h.nodes_eq
      key_eq := update_eq RadixNode.key h.key_eq rfl
      blockIds_eq := update_eq RadixNode.blockIds h.blockIds_eq rfl
      refCount_eq := update_eq RadixNode.refCount h.refCount_eq rfl
      children_eq := update_eq RadixNode.children h.children_eq rfl
      parent_eq := update_eq RadixNode.parent h.parent_eq rfl }

theorem nBlocks_eq (h : SameShape t t') (key : List Token) : t'.nBlocks key = t.nBlocks key := by
  rw [nBlocks, nBlocks, h.blockSize_eq]

theorem isCandidate_eq (h : SameShape t t') (isPinned : Option (BlockId → Bool)) (a : Addr) :
    t'.isCandidate isPinned a = t.isCandidate isPinned a := by
  simp only [isCandidate, h.children_eq, h.refCount_eq, h.blockIds_eq]

end SameShape

/-! ### Walks -/

/-- A walk of trees of one shape sees the same and marks the same nodes, those whose blocks it
collects. -/
theorem matchPathLoop_marks : ∀ (fuel : ℕ) (t : RadixTree) (n : Addr) (rest : List Token)
    (pos : ℕ) (ids : List BlockId), ∃ m as,
      (∀ full, t.WF full → t.Member n → ∀ a ∈ as, a ∈ t.nodes.values) ∧
      ∀ τ t', SameShape t t' → matchPathLoop τ fuel t' n rest pos ids =
        ((m, ids ++ as.flatMap fun a => (t.node a).blockIds), t'.mark as τ) := by
  intro fuel
  induction fuel with
  | zero =>
      intro t n rest pos ids
      exact ⟨pos, [], by simp, fun τ t' _ => by simp [matchPathLoop]⟩
  | succ fuel ih =>
      intro t n rest pos ids
      cases rest with
      | nil => exact ⟨pos, [], by simp, fun τ t' _ => by simp [matchPathLoop]⟩
      | cons first rest =>
          cases hc : (t.node n).children.get? first with
          | none =>
              refine ⟨pos, [], by simp, fun τ t' h => ?_⟩
              simp [matchPathLoop, h.children_eq, hc]
          | some child =>
              by_cases hcp : cpLen (first :: rest) (t.node child).key < (t.node child).key.length
              · refine ⟨pos, [], by simp, fun τ t' h => ?_⟩
                simp [matchPathLoop, h.children_eq, h.key_eq, hc, hcp]
              · obtain ⟨m, as, hmem, hloop⟩ := ih t child
                  ((first :: rest).drop (cpLen (first :: rest) (t.node child).key))
                  (pos + cpLen (first :: rest) (t.node child).key)
                  (ids ++ (t.node child).blockIds)
                refine ⟨m, child :: as, fun full hwf hn => ?_, fun τ t' h => ?_⟩
                · have hcv := (hwf.child n first child hn hc).1
                  exact List.forall_mem_cons.2 ⟨hcv, hmem full hwf (Or.inr hcv)⟩
                · rw [← mark_touch, List.flatMap_cons, ← List.append_assoc,
                    ← hloop τ _ (h.trans (sameShape_touch t' child τ))]
                  simp only [matchPathLoop, h.children_eq, h.key_eq, h.blockIds_eq, hc, if_neg hcp]

theorem matchPrefixPath_marks (t : RadixTree) (T : List Token) : ∃ m as,
    (∀ full, t.WF full → ∀ a ∈ as, a ∈ t.nodes.values) ∧
    ∀ τ t', SameShape t t' → t'.matchPrefixPath τ T =
      ((m, as.flatMap fun a => (t.node a).blockIds), t'.mark as τ) := by
  by_cases hT : T = []
  · exact ⟨0, [], by simp, fun τ t' _ => by simp [matchPrefixPath, hT]⟩
  · obtain ⟨m, as, hmem, h⟩ := matchPathLoop_marks T.length t root T 0 []
    exact ⟨m, as, fun full hwf => hmem full hwf t.member_root, fun τ t' ht => by
      rw [matchPrefixPath, if_neg hT, h τ t' ht, List.nil_append]⟩

theorem SameShape.matchPrefixPath (h : SameShape t t') (τ τ' : Time) (T : List Token) :
    SameShape (t.matchPrefixPath τ T).2 (t'.matchPrefixPath τ' T).2 := by
  obtain ⟨m, as, -, hv⟩ := matchPrefixPath_marks t T
  rw [hv τ t (.refl t), hv τ' t' h]
  exact h.mark as τ τ'

theorem sameShape_matchPrefixPath (t : RadixTree) (τ : Time) (T : List Token) :
    SameShape t (t.matchPrefixPath τ T).2 := by
  obtain ⟨m, as, -, hv⟩ := matchPrefixPath_marks t T
  rw [hv τ t (.refl t)]
  exact sameShape_mark t as τ

/-- Of two walks along the same prompt the later one counts. -/
theorem matchPrefixPath_again (t : RadixTree) (τ τ' : Time) (T : List Token) :
    ((t.matchPrefixPath τ T).2.matchPrefixPath τ' T).2 = (t.matchPrefixPath τ' T).2 := by
  obtain ⟨m, as, -, hv⟩ := matchPrefixPath_marks t T
  rw [hv τ' t (.refl t), hv τ t (.refl t), hv τ' _ (sameShape_mark t as τ), mark_mark]

/-! ### Ages -/

/-- None of the blocks of the node is held. -/
def Loose (held : BlockId → Prop) (t : RadixTree) (a : Addr) : Prop :=
  ∀ b ∈ (t.node a).blockIds, ¬ held b

/-- Of any two loose nodes of the index, the same one is older in both trees: a later one is older
than an earlier one in both or in neither.  And access times in which the trees differ lie before
`now`. -/
structure SameAges (held : BlockId → Prop) (now : Time) (t t' : RadixTree) : Prop where
  older_iff : t.nodes.values.Pairwise fun a b => t.Loose held a → t.Loose held b →
    ((t.node b).lastAccessTime < (t.node a).lastAccessTime ↔
      (t'.node b).lastAccessTime < (t'.node a).lastAccessTime)
  past : ∀ a ∈ t.nodes.values, t.Loose held a →
    (t'.node a).lastAccessTime = (t.node a).lastAccessTime ∨
      (t.node a).lastAccessTime < now ∧ (t'.node a).lastAccessTime < now

instance [DecidablePred held] (t : RadixTree) (a : Addr) : Decidable (t.Loose held a) :=
  inferInstanceAs (Decidable (∀ b ∈ (t.node a).blockIds, ¬ held b))

instance [DecidablePred held] (now : Time) (t t' : RadixTree) :
    Decidable (SameAges held now t t') :=
  decidable_of_iff
    ((t.nodes.values.Pairwise fun a b => t.Loose held a → t.Loose held b →
        ((t.node b).lastAccessTime < (t.node a).lastAccessTime ↔
          (t'.node b).lastAccessTime < (t'.node a).lastAccessTime)) ∧
      ∀ a ∈ t.nodes.values, t.Loose held a →
        (t'.node a).lastAccessTime = (t.node a).lastAccessTime ∨
          (t.node a).lastAccessTime < now ∧ (t'.node a).lastAccessTime < now)
    ⟨fun h => ⟨h.1, h.2⟩, fun h => ⟨h.1, h.2⟩⟩

namespace SameAges

/-- The ages of a tree that has fewer indexed nodes, with their access times. -/
theorem of_sublist (h : SameAges held now t t') (hsub : u.nodes.values.Sublist t.nodes.values)
    (hblocks : ∀ a, (u.node a).blockIds = (t.node a).blockIds)
    (hu : ∀ a, (u.node a).lastAccessTime = (t.node a).lastAccessTime)
    (hu' : ∀ a, (u'.node a).lastAccessTime = (t'.node a).lastAccessTime) :
    SameAges held now u u' where
  older_iff := by
    simp only [hu, hu', Loose, hblocks]
    exact h.older_iff.sublist hsub
  past := by
    simp only [hu, hu', Loose, hblocks]
    exact fun a ha => h.past a (hsub.subset ha)

theorem loose_touch (a c : Addr) : (t.touch a τ).Loose held c ↔ t.Loose held c := by
  rw [Loose, Loose, (sameShape_touch t a τ).blockIds_eq]

/-- **A touch** at a later time keeps the ages the same. -/
theorem touch (h : SameAges held now t t') (hτ : now ≤ τ) (a : Addr) :
    SameAges held now (t.touch a τ) (t'.touch a τ) where
  older_iff := by
    refine (h.older_iff.imp_of_mem fun {x y} hx hy hxy => ?_ : t.nodes.values.Pairwise _)
    simp only [lastAccessTime_touch, loose_touch]
    intro hxl hyl
    by_cases hxa : x = a
    · by_cases hya : y = a
      · simp only [if_pos hxa, if_pos hya, lt_irrefl]
      · simp only [if_pos hxa, if_neg hya]
        rcases h.past y hy hyl with heq | ⟨h1, h2⟩
        · rw [heq]
        · exact iff_of_true (h1.trans_le hτ) (h2.trans_le hτ)
    · by_cases hya : y = a
      · simp only [if_neg hxa, if_pos hya]
        rcases h.past x hx hxl with heq | ⟨h1, h2⟩
        · rw [heq]
        · exact iff_of_false (h1.trans_le hτ).not_gt (h2.trans_le hτ).not_gt
      · simpa only [if_neg hxa, if_neg hya] using hxy hxl hyl
  past := by
    intro c hc hcl
    rw [loose_touch] at hcl
    simp only [lastAccessTime_touch]
    by_cases hca : c = a
    · exact Or.inl (by simp only [if_pos hca])
    · simpa only [if_neg hca] using h.past c hc hcl

end SameAges

/-! ### Twins -/

/-- The trees differ in access times only; if `aged`, they have the same ages. -/
structure Twins (aged : Prop) (held : BlockId → Prop) (now : Time) (t t' : RadixTree) : Prop where
  shape : SameShape t t'
  ages : aged → SameAges held now t t'

variable {aged : Prop}

namespace Twins

theorem touch (h : Twins aged held now t t') (hτ : now ≤ τ) (a : Addr) :
    Twins aged held now (t.touch a τ) (t'.touch a τ) where
  shape := h.shape.touch a τ τ
  ages := fun ha => (h.ages ha).touch hτ a

/-- A change that takes nodes out of the index and leaves blocks and access times alone. -/
theorem of_shape (h : Twins aged held now t t') (hs : SameShape u u')
    (hsub : u.nodes.values.Sublist t.nodes.values)
    (hblocks : ∀ a, (u.node a).blockIds = (t.node a).blockIds)
    (hu : ∀ a, (u.node a).lastAccessTime = (t.node a).lastAccessTime)
    (hu' : ∀ a, (u'.node a).lastAccessTime = (t'.node a).lastAccessTime) :
    Twins aged held now u u' where
  shape := hs
  ages := fun ha => (h.ages ha).of_sublist hsub hblocks hu hu'

/-- What a change of one node leaves alone. -/
theorem field_modifyNode {α : Type} (field : RadixNode → α) (t : RadixTree) (a : Addr)
    {f : RadixNode → RadixNode} (hf : ∀ n, field (f n) = field n) (c : Addr) :
    field ((t.modifyNode a f).node c) = field (t.node c) := by
  rcases eq_or_ne c a with rfl | hc
  · rw [node_modifyNode_self, hf]
  · rw [node_modifyNode_of_ne t f hc]

/-- A change of one node that leaves its blocks and its access time alone. -/
theorem modifyNode (h : Twins aged held now t t') (a : Addr) {f : RadixNode → RadixNode}
    (hs : SameShape (t.modifyNode a f) (t'.modifyNode a f))
    (hblocks : ∀ n, (f n).blockIds = n.blockIds)
    (hf : ∀ n, (f n).lastAccessTime = n.lastAccessTime) :
    Twins aged held now (t.modifyNode a f) (t'.modifyNode a f) :=
  h.of_shape hs (List.Sublist.refl _) (field_modifyNode RadixNode.blockIds t a hblocks)
    (field_modifyNode RadixNode.lastAccessTime t a hf)
    (field_modifyNode RadixNode.lastAccessTime t' a hf)

theorem dropChild (h : Twins aged held now t t') (a : Addr) (tok : Token) :
    Twins aged held now (t.dropChild a tok) (t'.dropChild a tok) :=
  h.modifyNode a (h.shape.dropChild a tok) (fun _ => rfl) fun _ => rfl

theorem orphan (h : Twins aged held now t t') (a : Addr) :
    Twins aged held now (t.orphan a) (t'.orphan a) :=
  h.modifyNode a (h.shape.orphan a) (fun _ => rfl) fun _ => rfl

theorem clearChildren (h : Twins aged held now t t') (a : Addr) :
    Twins aged held now (t.modifyNode a fun n => { n with children := PyDict.empty })
      (t'.modifyNode a fun n => { n with children := PyDict.empty }) :=
  h.modifyNode a (h.shape.clearChildren a) (fun _ => rfl) fun _ => rfl

theorem unindex (h : Twins aged held now t t') (b : BlockId) :
    Twins aged held now (t.unindex b) (t'.unindex b) :=
  h.of_shape (h.shape.unindex b) (List.filter_sublist.map Prod.snd) (fun _ => rfl) (fun _ => rfl)
    fun _ => rfl

theorem unlink (h : Twins aged held now t t') (a : Addr) (first : Token) :
    Twins aged held now (t.unlink a first) (t'.unlink a first) := by
  rw [RadixTree.unlink, RadixTree.unlink, h.shape.parent_eq]
  cases (t.node a).parent with
  | none => exact h
  | some p => exact (h.dropChild p first).orphan a

theorem unindexNode (h : Twins aged held now t t') (a : Addr) :
    Twins aged held now (t.unindexNode a) (t'.unindexNode a) := by
  rw [RadixTree.unindexNode, RadixTree.unindexNode, h.shape.blockIds_eq]
  cases (t.node a).blockIds with
  | nil => exact h
  | cons b bs => exact h.unindex b

/-- **Twins of the same ages** have the same least recently used candidate. -/
theorem lruVictim_eq (h : Twins True held now t t') {isPinned : BlockId → Bool}
    (hheld : ∀ b, held b → isPinned b = true) :
    t'.lruVictim (some isPinned) = t.lruVictim (some isPinned) := by
  rw [lruVictim, lruVictim, h.shape.nodes_eq, funext (h.shape.isCandidate_eq (some isPinned))]
  -- a candidate has no pinned block, so that its age is known
  have hloose : ∀ a, t.isCandidate (some isPinned) a = true → t.Loose held a := by
    intro a ha b hb hbheld
    have hfree := (Bool.and_eq_true_iff.1 ha).2
    rw [Bool.not_eq_true', List.any_eq_false] at hfree
    exact hfree b hb (hheld b hbheld)
  refine (List.argmin_congr ?_).symm
  refine ((h.ages trivial).older_iff.sublist List.filter_sublist).imp_of_mem ?_
  intro a b ha hb hab
  exact hab (hloose a (List.mem_filter.1 ha).2) (hloose b (List.mem_filter.1 hb).2)

end Twins

/-! ### Calls on two trees -/

theorem sim_item0 {σ σ' α : Type} {R : σ → σ' → Prop} (l : List α) :
    Py.Sim R Eq (item0 l : Py σ α) (item0 l : Py σ' α) := by
  cases l with
  | nil => exact .raise _
  | cons a l => exact .pure rfl

section Sim

variable {π α : Type} {K : RadixTree → RadixTree → Prop} {P : π → Prop}

/-- Related trees, beside the same state of the callbacks, which has a property. -/
def Beside (K : RadixTree → RadixTree → Prop) (P : π → Prop) (s s' : RadixTree × π) : Prop :=
  K s.1 s'.1 ∧ s'.2 = s.2 ∧ P s.2

theorem sim_callback {m : Py π α} (hm : Py.Keeps P m) :
    Py.Sim (Beside K P) Eq (callback m) (callback m) := by
  rintro ⟨t, p⟩ ⟨t', p'⟩ ⟨ht, rfl, hp⟩
  have h := hm p' hp
  simp only [callback, Py.run_onPart]
  cases hrun : m.run p' with
  | ok a q =>
      rw [hrun] at h
      exact .ok rfl ⟨ht, rfl, h⟩
  | error e q =>
      rw [hrun] at h
      exact .error e ⟨ht, rfl, h⟩

theorem sim_modifyTree {f f' : RadixTree → RadixTree} (hf : ∀ t t', K t t' → K (f t) (f' t')) :
    Py.Sim (Beside K P) Eq (modifyTree f : Py (RadixTree × π) Unit) (modifyTree f') :=
  .modify fun _ _ hs => ⟨hf _ _ hs.1, hs.2⟩

/-! ### Purging -/

theorem sim_purgeOne (freed : List BlockId) (tierOf : BlockId → Option Tier) (a : Addr) :
    Py.Sim (Twins aged held now) Eq (purgeOne freed tierOf a) (purgeOne freed tierOf a) := by
  refine .get_bind fun t t' h => ?_
  simp only [h.shape.children_eq, h.shape.refCount_eq, h.shape.blockIds_eq, h.shape.parent_eq,
    h.shape.key_eq]
  split
  · exact .pure rfl
  · split
    · exact .pure rfl
    · split
      · exact .pure rfl
      · have hrest : Py.Sim (Twins aged held now) Eq
            (do let b ← item0 (t.node a).blockIds; modify fun t => t.unindex b; pure 1)
            (do let b ← item0 (t.node a).blockIds; modify fun t => t.unindex b; pure 1) :=
          (sim_item0 _).bind_eq fun b => (Py.Sim.modify fun _ _ hu => hu.unindex b).bind_eq fun _ =>
            .pure rfl
        split
        · exact (sim_item0 _).bind_eq fun first =>
            (Py.Sim.modify fun _ _ hu => hu.unlink a first).bind_eq fun _ => hrest
        · exact hrest

theorem sim_purgeBlockIds (freed : List BlockId) (tierOf : BlockId → Option Tier) :
    Py.Sim (Twins aged held now) Eq (purgeBlockIds freed tierOf) (purgeBlockIds freed tierOf) := by
  rw [purgeBlockIds]
  split
  · exact .pure rfl
  · refine .get_bind fun t t' h => ?_
    rw [h.shape.nodes_eq]
    refine Py.Sim.foldlM (fun n n' a hn => ?_) _ rfl
    exact (sim_purgeOne freed tierOf a).bind_eq fun k => .pure (by rw [hn])

section Path

variable (tierOf : π → BlockId → Option Tier) {freeBlocks : List BlockId → Py π Unit}
  (hfree : ∀ ids, Py.Keeps P (freeBlocks ids))
include hfree

theorem sim_freeAlive (a : Addr) :
    Py.Sim (Beside (Twins aged held now) P) Eq (freeAlive tierOf freeBlocks a)
      (freeAlive tierOf freeBlocks a) := by
  refine .get_bind ?_
  rintro ⟨t, p⟩ ⟨t', p'⟩ ⟨h, rfl, -⟩
  have hs : SameShape t t' := h.shape
  simp only [hs.blockIds_eq]
  split
  · exact sim_callback (hfree _)
  · exact .pure rfl

theorem sim_purgeSubtreeAlive : ∀ (fuel : ℕ) (r : Addr),
    Py.Sim (Beside (Twins aged held now) P) Eq (purgeSubtreeAlive tierOf freeBlocks fuel r)
      (purgeSubtreeAlive tierOf freeBlocks fuel r) := by
  intro fuel
  induction fuel with
  | zero => intro r; exact .raise _
  | succ fuel ih =>
      intro r
      refine .get_bind fun s s' h => ?_
      rw [h.1.shape.children_eq]
      refine Py.Sim.bind_eq (Py.Sim.foldlM (fun n n' a hn => ?_) _ rfl) fun n => ?_
      · subst hn
        refine (sim_freeAlive tierOf hfree a).bind_eq fun _ => ?_
        refine (sim_modifyTree fun _ _ hu => hu.unindexNode a).bind_eq fun _ => ?_
        refine (sim_modifyTree fun _ _ hu => hu.orphan a).bind_eq fun _ => ?_
        exact (ih a).bind_eq fun k => .pure rfl
      · exact (sim_modifyTree fun _ _ hu => hu.clearChildren r).bind_eq fun _ => .pure rfl

theorem sim_purgeNode (n : Addr) (first : Token) (a : Addr) :
    Py.Sim (Beside (Twins aged held now) P) Eq (purgeNode tierOf freeBlocks n first a)
      (purgeNode tierOf freeBlocks n first a) := by
  refine (sim_freeAlive tierOf hfree a).bind_eq fun _ => ?_
  refine (sim_modifyTree fun _ _ hu => hu.dropChild n first).bind_eq fun _ => ?_
  refine (sim_modifyTree fun _ _ hu => hu.unindexNode a).bind_eq fun _ => ?_
  refine (sim_modifyTree fun _ _ hu => hu.orphan a).bind_eq fun _ => ?_
  refine .get_bind fun s s' h => ?_
  rw [h.1.shape.nextAddr_eq]
  exact (sim_purgeSubtreeAlive tierOf hfree _ a).bind_eq fun _ => .pure rfl

theorem sim_purgePathLoop : ∀ (fuel : ℕ) (n : Addr) (rest : List Token),
    Py.Sim (Beside (Twins aged held now) P) Eq (purgePathLoop tierOf freeBlocks fuel n rest)
      (purgePathLoop tierOf freeBlocks fuel n rest) := by
  intro fuel
  induction fuel with
  | zero => intro n rest; exact .pure rfl
  | succ fuel ih =>
      intro n rest
      cases rest with
      | nil => exact .pure rfl
      | cons first rest =>
          refine .get_bind ?_
          rintro ⟨t, p⟩ ⟨t', p'⟩ ⟨h, rfl, -⟩
          have hs : SameShape t t' := h.shape
          simp only [hs.children_eq, hs.key_eq, hs.refCount_eq, hs.blockIds_eq]
          cases (t.node n).children.get? first with
          | none => exact .pure rfl
          | some child =>
              dsimp only
              split
              · exact .pure rfl
              · split
                · exact .pure rfl
                · split
                  · exact sim_purgeNode tierOf hfree n first child
                  · exact ih child _

/-- **The purge of a path** does not look at access times, and keeps the ages the same. -/
theorem sim_purgePathWithAnyDead (T : List Token) :
    Py.Sim (Beside (Twins aged held now) P) Eq (purgePathWithAnyDead tierOf freeBlocks T)
      (purgePathWithAnyDead tierOf freeBlocks T) :=
  sim_purgePathLoop tierOf hfree _ _ _

end Path

/-! ### Demoting -/

theorem sim_removeZombie (a : Addr) :
    Py.Sim (Twins aged held now) Eq (removeZombie a) (removeZombie a) := by
  refine .get_bind fun t t' h => ?_
  simp only [h.shape.parent_eq, h.shape.key_eq, h.shape.blockIds_eq]
  cases (t.node a).parent with
  | none => exact .raise _
  | some p =>
      refine (sim_item0 _).bind_eq fun first => .get_bind fun u u' hu => ?_
      rw [hu.shape.children_eq]
      have hrest : Py.Sim (Twins aged held now) Eq
          (do
            modify fun t => (t.dropChild p first).orphan a
            let b ← item0 (t.node a).blockIds
            if !(← get).nodes.contains b then
              Py.raise (.keyError s!"{b}")
            modify fun t => t.unindex b)
          (do
            modify fun t => (t.dropChild p first).orphan a
            let b ← item0 (t.node a).blockIds
            if !(← get).nodes.contains b then
              Py.raise (.keyError s!"{b}")
            modify fun t => t.unindex b) := by
        refine (Py.Sim.modify fun _ _ hv => (hv.dropChild p first).orphan a).bind_eq fun _ => ?_
        refine (sim_item0 _).bind_eq fun b => .get_bind fun v v' hv => ?_
        rw [hv.shape.nodes_eq]
        split
        · exact (Py.Sim.raise _).bind_eq fun _ => .modify fun _ _ hw => hw.unindex b
        · exact .modify fun _ _ hw => hw.unindex b
      split
      · exact (Py.Sim.raise _).bind_eq fun _ => hrest
      · exact hrest

section Demote

variable {clock : ℕ → Time} (hclock : ∀ k, now ≤ renewedTime (clock k)) (nNodes : ℕ)
  (tierOf : Option (BlockId → Option Tier)) {isPinned : BlockId → Bool}
  (hheld : ∀ b, held b → isPinned b = true)
include hclock hheld

theorem sim_demoteScan : ∀ (scans : ℕ) (demoted : List (List BlockId)),
    Py.Sim (Twins True held now) Eq (demoteScan clock nNodes tierOf (some isPinned) scans demoted)
      (demoteScan clock nNodes tierOf (some isPinned) scans demoted) := by
  intro scans
  induction scans with
  | zero => intro demoted; exact .pure rfl
  | succ scans ih =>
      intro demoted
      rw [demoteScan]
      split
      · refine .get_bind fun t t' h => ?_
        simp only [h.lruVictim_eq hheld, h.shape.blockIds_eq]
        cases t.lruVictim (some isPinned) with
        | none => exact .pure rfl
        | some victim =>
            have htouch : Py.Sim (Twins True held now) Eq
                (do
                  modify fun t => t.touch victim (renewedTime (clock demoted.length))
                  demoteScan clock nNodes tierOf (some isPinned) scans
                    (demoted ++ [(t.node victim).blockIds]))
                (do
                  modify fun t => t.touch victim (renewedTime (clock demoted.length))
                  demoteScan clock nNodes tierOf (some isPinned) scans
                    (demoted ++ [(t.node victim).blockIds])) :=
              (Py.Sim.modify fun _ _ hu => hu.touch (hclock _) victim).bind_eq fun _ => ih _
            cases tierOf with
            | none => exact htouch
            | some f =>
                dsimp only
                split
                · exact (sim_removeZombie victim).bind_eq fun _ => ih demoted
                · exact htouch
      · exact .pure rfl

/-- **The demotion** of trees with the same ages selects the same nodes. -/
theorem sim_demoteLru :
    Py.Sim (Twins True held now) Eq (demoteLru clock nNodes tierOf (some isPinned))
      (demoteLru clock nNodes tierOf (some isPinned)) := by
  refine .get_bind fun t t' h => ?_
  rw [h.shape.nodes_eq]
  exact sim_demoteScan hclock nNodes tierOf hheld _ _

end Demote

/-! ### Inserting -/

section Insert

variable {mint : ℕ → Py π (List BlockId)} (hmint : ∀ n, Py.Keeps P (mint n)) (τ : Time)
include hmint

theorem sim_insertLeaf (n : Addr) (first : Token) (key : List Token) :
    Py.Sim (Beside SameShape P) Eq (insertLeaf mint τ n first key)
      (insertLeaf mint τ n first key) := by
  refine .get_bind fun s s' h => ?_
  rw [h.1.nBlocks_eq]
  refine (sim_callback (hmint _)).bind_eq fun bids => .get_bind fun u u' hu => ?_
  rw [hu.1.nextAddr_eq]
  refine (sim_modifyTree fun _ _ ht => ht.newNode _).bind_eq fun _ => ?_
  refine (sim_modifyTree fun _ _ ht => ht.setChild n first _).bind_eq fun _ => ?_
  refine (sim_item0 _).bind_eq fun b => ?_
  exact (sim_modifyTree fun _ _ ht => ht.index b _).bind_eq fun _ => .pure rfl

theorem sim_mintChildHead (child : Addr) (cp : ℕ) :
    Py.Sim (Beside SameShape P) Eq (mintChildHead mint child cp) (mintChildHead mint child cp) := by
  refine .get_bind fun s s' h => ?_
  simp only [h.1.blockSize_eq, h.1.blockIds_eq, h.1.key_eq]
  split
  · exact sim_callback (hmint 1)
  · exact .pure rfl

theorem sim_insertSplit (n : Addr) (first : Token) (child : Addr) (remaining : List Token)
    (cp : ℕ) :
    Py.Sim (Beside SameShape P) Eq (insertSplit mint τ n first child remaining cp)
      (insertSplit mint τ n first child remaining cp) := by
  refine .get_bind fun s s' h => ?_
  simp only [h.1.blockSize_eq, h.1.blockIds_eq, h.1.key_eq]
  refine (sim_mintChildHead hmint child cp).bind_eq fun childHead => .get_bind fun u u' hu => ?_
  rw [hu.1.nextAddr_eq]
  refine (sim_modifyTree fun _ _ ht => ht.newNode _).bind_eq fun _ => ?_
  refine (sim_modifyTree fun _ _ ht => ht.modifyNode child rfl rfl (ht.refCount_eq _)
    (ht.children_eq _) rfl).bind_eq fun _ => ?_
  refine (sim_item0 _).bind_eq fun childFirst => ?_
  refine (sim_modifyTree fun _ _ ht => ht.setChild _ childFirst child).bind_eq fun _ => ?_
  refine (sim_modifyTree fun _ _ ht => ht.setChild n first _).bind_eq fun _ => ?_
  refine (sim_item0 _).bind_eq fun midHead => ?_
  refine (sim_modifyTree fun _ _ ht => ht.index midHead _).bind_eq fun _ => ?_
  refine (sim_item0 _).bind_eq fun headBlock => ?_
  refine (sim_modifyTree fun _ _ ht => ht.index headBlock child).bind_eq fun _ => ?_
  split
  · exact .pure rfl
  · refine .get_bind fun v v' hv => ?_
    rw [hv.1.nBlocks_eq]
    refine (sim_callback (hmint _)).bind_eq fun leafBids => .get_bind fun w w' hw => ?_
    rw [hw.1.nextAddr_eq]
    refine (sim_modifyTree fun _ _ ht => ht.newNode _).bind_eq fun _ => ?_
    refine (sim_item0 _).bind_eq fun leafHead => ?_
    refine (sim_modifyTree fun _ _ ht => ht.index leafHead _).bind_eq fun _ => ?_
    exact (sim_modifyTree fun _ _ ht => ht.setChild _ _ _).bind_eq fun _ => .pure rfl

theorem sim_insertLoop : ∀ (fuel : ℕ) (n : Addr) (remaining : List Token),
    Py.Sim (Beside SameShape P) Eq (insertLoop mint τ fuel n remaining)
      (insertLoop mint τ fuel n remaining) := by
  intro fuel
  induction fuel with
  | zero => intro n remaining; exact .raise _
  | succ fuel ih =>
      intro n remaining
      cases remaining with
      | nil =>
          refine (sim_modifyTree fun _ _ ht => ht.touch n τ τ).bind_eq fun _ => ?_
          exact .get_bind fun s s' h => .pure (h.1.blockIds_eq n).symm
      | cons first rest =>
          refine .get_bind fun s s' h => ?_
          simp only [h.1.children_eq, h.1.key_eq]
          cases (s.1.node n).children.get? first with
          | none => exact sim_insertLeaf hmint τ n first _
          | some child =>
              dsimp only
              split
              · exact (sim_modifyTree fun _ _ ht => ht.touch child τ τ).bind_eq fun _ => ih child _
              · exact sim_insertSplit hmint τ n first child _ _

/-- **An insertion** does not look at access times. -/
theorem sim_insert (T : List Token) :
    Py.Sim (Beside SameShape P) Eq (insert mint τ T) (insert mint τ T) := by
  rw [insert]
  split
  · exact .get_bind fun s s' h => .pure (h.1.blockIds_eq root).symm
  · exact sim_insertLoop hmint τ _ _ _

end Insert

end Sim

end RadixTree

end NanoKVRouter
