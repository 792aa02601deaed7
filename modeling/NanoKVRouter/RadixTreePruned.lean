/-
**What is left of a tree when nodes go.**

Purges and demotions take nodes out of a tree; they change no key and no block of another node, and
a purge leaves the access times alone as well.  So what such a call has done to the tree can be said
node by node.  The insertion of a prompt keeps the same blocks in both trees as long as the nodes
that own them are still there.

Main definitions:

* `RadixTree.Pruned`, `RadixTree.Trimmed` — nodes are gone; the access times are as they were too;
* `RadixTree.walked`, `RadixTree.timeAfterWalk` — the access times after a walk.

Main results:

* `RadixTree.trimmed_purgePathWithAnyDead`, `RadixTree.pruned_demoteLru` — **purges and demotions**
  prune;
* `RadixTree.View.isPrefix_keptBlocks`, `RadixTree.View.take_keptBlocks` — **the kept blocks** of a
  pruned tree;
* `RadixTree.View.demoteLru_one` — **the leaf that a demotion selects** comes before every candidate
  with a live block.
-/

import NanoKVRouter.RadixTreeAges
import NanoKVRouter.RadixTreeSelection

set_option relaxedAutoImplicit false
set_option autoImplicit false

namespace NanoKVRouter

/-- What a dictionary with fewer entries says, the other one says. -/
theorem PyDict.get?_of_sublist {κ ν : Type} [DecidableEq κ] {d d' : PyDict κ ν}
    (h : d'.entries.Sublist d.entries) {k : κ} {v : ν} (hv : d'.get? k = some v) :
    d.get? k = some v :=
  PyDict.get?_eq_some_iff.2 (h.subset (PyDict.get?_eq_some_iff.1 hv))

theorem PyDict.get?_none_of_sublist {κ ν : Type} [DecidableEq κ] {d d' : PyDict κ ν}
    (h : d'.entries.Sublist d.entries) {k : κ} (hv : d.get? k = none) : d'.get? k = none := by
  cases hget : d'.get? k with
  | none => rfl
  | some v =>
      rw [PyDict.get?_of_sublist h hget] at hv
      cases hv

namespace RadixTree

variable {t t' t'' : RadixTree} {full full' : Addr → List Token} {A B : PathTrie Token BlockId}

/-! ### Pruned trees -/

/-- From `t` to `t'` nodes have gone from the index and from among the children of others; keys,
blocks and reference counts are as they were. -/
structure Pruned (t t' : RadixTree) : Prop where
  blockSize_eq : t'.blockSize = t.blockSize
  nodes : t'.nodes.entries.Sublist t.nodes.entries
  key_eq : ∀ x, (t'.node x).key = (t.node x).key
  blockIds_eq : ∀ x, (t'.node x).blockIds = (t.node x).blockIds
  refCount_eq : ∀ x, (t'.node x).refCount = (t.node x).refCount
  children : ∀ x, (t'.node x).children.entries.Sublist (t.node x).children.entries

/-- Nodes have gone, and the access times are as they were. -/
structure Trimmed (t t' : RadixTree) : Prop extends Pruned t t' where
  time_eq : ∀ x, (t'.node x).lastAccessTime = (t.node x).lastAccessTime

namespace Pruned

theorem refl (t : RadixTree) : Pruned t t :=
  ⟨rfl, .refl _, fun _ => rfl, fun _ => rfl, fun _ => rfl, fun _ => .refl _⟩

theorem trans (h : Pruned t t') (h' : Pruned t' t'') : Pruned t t'' where
  blockSize_eq := h'.blockSize_eq.trans h.blockSize_eq
  nodes := h'.nodes.trans h.nodes
  key_eq := fun x => (h'.key_eq x).trans (h.key_eq x)
  blockIds_eq := fun x => (h'.blockIds_eq x).trans (h.blockIds_eq x)
  refCount_eq := fun x => (h'.refCount_eq x).trans (h.refCount_eq x)
  children := fun x => (h'.children x).trans (h.children x)

theorem of_sameShape (h : SameShape t t') : Pruned t t' where
  blockSize_eq := h.blockSize_eq
  nodes := by rw [h.nodes_eq]
  key_eq := h.key_eq
  blockIds_eq := h.blockIds_eq
  refCount_eq := h.refCount_eq
  children := fun x => by rw [h.children_eq]

theorem values (h : Pruned t t') : t'.nodes.values.Sublist t.nodes.values := h.nodes.map Prod.snd

/-- A leaf stays a leaf. -/
theorem leaf (h : Pruned t t') {x : Addr} (hx : (t.node x).children.entries = []) :
    (t'.node x).children.entries = [] := by
  have hsub := h.children x
  rw [hx] at hsub
  exact List.sublist_nil.1 hsub

/-- A candidate stays one. -/
theorem isCandidate (h : Pruned t t') {isPinned : Option (BlockId → Bool)} {x : Addr}
    (hx : t.isCandidate isPinned x = true) : t'.isCandidate isPinned x = true := by
  rw [isCandidate_iff, Free, h.blockIds_eq, h.refCount_eq]
  rw [isCandidate_iff, Free] at hx
  exact ⟨h.leaf hx.1, hx.2⟩

end Pruned

namespace Trimmed

theorem refl (t : RadixTree) : Trimmed t t := ⟨.refl t, fun _ => rfl⟩

theorem trans (h : Trimmed t t') (h' : Trimmed t' t'') : Trimmed t t'' :=
  ⟨h.toPruned.trans h'.toPruned, fun x => (h'.time_eq x).trans (h.time_eq x)⟩

/-- A change of one node that takes children away at most. -/
theorem modifyNode (h : Trimmed t t') (a : Addr) {f : RadixNode → RadixNode}
    (hkey : ∀ n, (f n).key = n.key) (hblocks : ∀ n, (f n).blockIds = n.blockIds)
    (href : ∀ n, (f n).refCount = n.refCount)
    (htime : ∀ n, (f n).lastAccessTime = n.lastAccessTime)
    (hchildren : ∀ n, (f n).children.entries.Sublist n.children.entries) :
    Trimmed t (t'.modifyNode a f) := by
  refine h.trans ⟨⟨rfl, .refl _, ?_, ?_, ?_, fun x => ?_⟩, ?_⟩
  · exact Twins.field_modifyNode RadixNode.key t' a hkey
  · exact Twins.field_modifyNode RadixNode.blockIds t' a hblocks
  · exact Twins.field_modifyNode RadixNode.refCount t' a href
  · rcases eq_or_ne x a with rfl | hx
    · rw [node_modifyNode_self]
      exact hchildren _
    · rw [node_modifyNode_of_ne _ _ hx]
  · exact Twins.field_modifyNode RadixNode.lastAccessTime t' a htime

theorem dropChild (h : Trimmed t t') (a : Addr) (tok : Token) : Trimmed t (t'.dropChild a tok) :=
  h.modifyNode a (fun _ => rfl) (fun _ => rfl) (fun _ => rfl) (fun _ => rfl) fun _ =>
    List.filter_sublist

theorem orphan (h : Trimmed t t') (a : Addr) : Trimmed t (t'.orphan a) :=
  h.modifyNode a (fun _ => rfl) (fun _ => rfl) (fun _ => rfl) (fun _ => rfl) fun _ => .refl _

theorem clearChildren (h : Trimmed t t') (a : Addr) :
    Trimmed t (t'.modifyNode a fun n => { n with children := PyDict.empty }) :=
  h.modifyNode a (fun _ => rfl) (fun _ => rfl) (fun _ => rfl) (fun _ => rfl) fun _ =>
    List.nil_sublist _

theorem unindex (h : Trimmed t t') (b : BlockId) : Trimmed t (t'.unindex b) :=
  h.trans ⟨⟨rfl, List.filter_sublist, fun _ => rfl, fun _ => rfl, fun _ => rfl, fun _ => .refl _⟩,
    fun _ => rfl⟩

theorem unlink (h : Trimmed t t') (a : Addr) (first : Token) : Trimmed t (t'.unlink a first) := by
  rw [RadixTree.unlink]
  cases (t'.node a).parent with
  | none => exact h
  | some p => exact (h.dropChild p first).orphan a

theorem unindexNode (h : Trimmed t t') (a : Addr) : Trimmed t (t'.unindexNode a) := by
  rw [RadixTree.unindexNode]
  cases (t'.node a).blockIds with
  | nil => exact h
  | cons b bs => exact h.unindex b

end Trimmed

/-! ### Calls that prune -/

section Calls

variable {π : Type} (t)

theorem keeps_item0 {σ α : Type} {P : σ → Prop} (l : List α) : Py.Keeps P (item0 l) := by
  cases l with
  | nil => exact .raise _
  | cons a as => exact .pure a

theorem trimmed_purgeOne (freed : List BlockId) (tierOf : BlockId → Option Tier) (a : Addr) :
    Py.Keeps (Trimmed t) (purgeOne freed tierOf a) := by
  refine .bind .get fun u => ?_
  dsimp only
  split
  · exact .pure 0
  · split
    · exact .pure 0
    · split
      · exact .pure 0
      · have hrest : Py.Keeps (Trimmed t)
            (do let b ← item0 (u.node a).blockIds; modify fun t => t.unindex b; pure 1) :=
          .bind (keeps_item0 _) fun b => .bind (.modify fun _ hu => hu.unindex b) fun _ => .pure 1
        split
        · exact .bind (keeps_item0 _) fun first =>
            .bind (.modify fun _ hu => hu.unlink a first) fun _ => hrest
        · exact hrest

/-- **Collecting zombies** prunes. -/
theorem trimmed_purgeBlockIds (freed : List BlockId) (tierOf : BlockId → Option Tier) :
    Py.Keeps (Trimmed t) (purgeBlockIds freed tierOf) := by
  rw [purgeBlockIds]
  split
  · exact .pure 0
  · exact .bind .get fun u => .foldlM (fun n a =>
      .bind (trimmed_purgeOne t freed tierOf a) fun k => .pure _) _ _

theorem trimmed_callback {α : Type} (m : Py π α) :
    Py.Keeps (fun s : RadixTree × π => Trimmed t s.1) (callback m) :=
  Py.Keeps.onPart (Q := fun _ => True) (fun _ _ => trivial) (fun _ _ => trivial) fun _ _ hs _ => hs

theorem trimmed_modifyTree {f : RadixTree → RadixTree} (hf : ∀ u, Trimmed t u → Trimmed t (f u)) :
    Py.Keeps (fun s : RadixTree × π => Trimmed t s.1) (modifyTree f) :=
  .modify fun s hs => hf s.1 hs

variable (tierOf : π → BlockId → Option Tier) (freeBlocks : List BlockId → Py π Unit)

theorem trimmed_freeAlive (a : Addr) :
    Py.Keeps (fun s : RadixTree × π => Trimmed t s.1) (freeAlive tierOf freeBlocks a) := by
  refine .bind .get fun s => ?_
  dsimp only
  split
  · exact trimmed_callback t _
  · exact .pure ()

theorem trimmed_purgeSubtreeAlive : ∀ (fuel : ℕ) (r : Addr),
    Py.Keeps (fun s : RadixTree × π => Trimmed t s.1)
      (purgeSubtreeAlive tierOf freeBlocks fuel r) := by
  intro fuel
  induction fuel with
  | zero => intro r; exact .raise _
  | succ fuel ih =>
      intro r
      refine .bind .get fun s => .bind (.foldlM (fun n a => ?_) _ _) fun n => ?_
      · refine .bind (trimmed_freeAlive t tierOf freeBlocks a) fun _ => ?_
        refine .bind (trimmed_modifyTree t fun _ hu => hu.unindexNode a) fun _ => ?_
        refine .bind (trimmed_modifyTree t fun _ hu => hu.orphan a) fun _ => ?_
        exact .bind (ih a) fun k => .pure _
      · exact .bind (trimmed_modifyTree t fun _ hu => hu.clearChildren r) fun _ => .pure n

theorem trimmed_purgeNode (n : Addr) (first : Token) (a : Addr) :
    Py.Keeps (fun s : RadixTree × π => Trimmed t s.1)
      (purgeNode tierOf freeBlocks n first a) := by
  refine .bind (trimmed_freeAlive t tierOf freeBlocks a) fun _ => ?_
  refine .bind (trimmed_modifyTree t fun _ hu => hu.dropChild n first) fun _ => ?_
  refine .bind (trimmed_modifyTree t fun _ hu => hu.unindexNode a) fun _ => ?_
  refine .bind (trimmed_modifyTree t fun _ hu => hu.orphan a) fun _ => ?_
  exact .bind .get fun s => .bind (trimmed_purgeSubtreeAlive t tierOf freeBlocks _ a) fun k =>
    .pure _

theorem trimmed_purgePathLoop : ∀ (fuel : ℕ) (n : Addr) (rest : List Token),
    Py.Keeps (fun s : RadixTree × π => Trimmed t s.1)
      (purgePathLoop tierOf freeBlocks fuel n rest) := by
  intro fuel
  induction fuel with
  | zero => intro n rest; exact .pure 0
  | succ fuel ih =>
      intro n rest
      cases rest with
      | nil => exact .pure 0
      | cons first rest =>
          refine .bind .get fun s => ?_
          dsimp only
          split
          · exact .pure 0
          · split
            · exact .pure 0
            · split
              · exact .pure 0
              · split
                · exact trimmed_purgeNode t tierOf freeBlocks n first _
                · exact ih _ _

/-- **The purge of a path** prunes. -/
theorem trimmed_purgePathWithAnyDead (T : List Token) :
    Py.Keeps (fun s : RadixTree × π => Trimmed t s.1)
      (purgePathWithAnyDead tierOf freeBlocks T) :=
  trimmed_purgePathLoop t tierOf freeBlocks _ _ _

theorem pruned_removeZombie (a : Addr) : Py.Keeps (Pruned t) (removeZombie a) := by
  refine .bind .get fun u => ?_
  dsimp only
  split
  · exact .raise _
  · next p _ =>
    refine .bind (keeps_item0 _) fun first => .bind .get fun u' => ?_
    have hrest : Py.Keeps (Pruned t) (do
        modify fun t => (t.dropChild p first).orphan a
        let b ← item0 (u.node a).blockIds
        if !(← get).nodes.contains b then
          Py.raise (.keyError s!"{b}")
        modify fun t => t.unindex b) := by
      refine .bind (.modify fun v hv => ?_) fun _ => .bind (keeps_item0 _) fun b =>
        .bind .get fun v => ?_
      · exact hv.trans (((Trimmed.refl v).dropChild p first).orphan a).toPruned
      · have hmod : Py.Keeps (Pruned t) (modify fun t => t.unindex b) :=
          .modify fun w hw => hw.trans ((Trimmed.refl w).unindex b).toPruned
        split
        · exact .bind (.raise _) fun _ => hmod
        · exact hmod
    split
    · exact .bind (.raise _) fun _ => hrest
    · exact hrest

theorem pruned_demoteScan (clock : ℕ → Time) (nNodes : ℕ)
    (tierOf : Option (BlockId → Option Tier)) (isPinned : Option (BlockId → Bool)) :
    ∀ (scans : ℕ) (demoted : List (List BlockId)),
      Py.Keeps (Pruned t) (demoteScan clock nNodes tierOf isPinned scans demoted) := by
  intro scans
  induction scans with
  | zero => intro demoted; exact .pure demoted
  | succ scans ih =>
      intro demoted
      rw [demoteScan]
      split
      · refine .bind .get fun u => ?_
        split
        · exact .pure demoted
        · next v _ =>
          have hselect : Py.Keeps (Pruned t) (do
              modify fun t => t.touch v (renewedTime (clock demoted.length))
              demoteScan clock nNodes tierOf isPinned scans (demoted ++ [(u.node v).blockIds])) :=
            .bind (.modify fun w hw => hw.trans (.of_sameShape (sameShape_touch w v _))) fun _ =>
              ih _
          dsimp only
          split
          · split
            · exact .bind (pruned_removeZombie t v) fun _ => ih _
            · exact hselect
          · split
            · exact .bind (pruned_removeZombie t v) fun _ => ih _
            · exact hselect
      · exact .pure demoted

/-- **Selecting leaves for demotion** prunes. -/
theorem pruned_demoteLru (clock : ℕ → Time) (nNodes : ℕ)
    (tierOf : Option (BlockId → Option Tier)) (isPinned : Option (BlockId → Bool)) :
    Py.Keeps (Pruned t) (demoteLru clock nNodes tierOf isPinned) :=
  .bind .get fun _ => pruned_demoteScan t clock nNodes tierOf isPinned _ _

end Calls

/-! ### Walks -/

/-- The walk along the prompt comes by the node. -/
def walked (t : RadixTree) (T : List Token) (x : Addr) : Bool :=
  (t.node x).blockIds.any fun b => decide (b ∈ (t.matchPrefixPath 0 T).1.2)

/-- The access time of a node after a walk along the prompt at `now`. -/
def timeAfterWalk (t : RadixTree) (now : Time) (T : List Token) (x : Addr) : Time :=
  if t.walked T x then now else (t.node x).lastAccessTime

theorem View.time_matchPrefixPath (h : t.View full A) (hd : A.Distinct) (now : Time)
    (T : List Token) {x : Addr} (hx : x ∈ t.nodes.values) :
    ((t.matchPrefixPath now T).2.node x).lastAccessTime = t.timeAfterWalk now T x := by
  obtain ⟨m, as, hmem, hwalk⟩ := matchPrefixPath_marks t T
  have hiff : t.walked T x = true ↔ x ∈ as := by
    rw [walked, hwalk 0 t (.refl t), List.any_eq_true]
    simp only [decide_eq_true_eq, List.mem_flatMap]
    constructor
    · rintro ⟨b, hb, a, ha, hba⟩
      have hav := hmem full h.wf a ha
      rw [← h.items_full hx] at hb
      rw [← h.items_full hav] at hba
      rwa [h.wf.full_inj (Or.inr hx) (Or.inr hav) (hd.unique _ _ _ hb hba)]
    · intro ha
      obtain ⟨b, hb⟩ := List.exists_mem_of_ne_nil _ (h.wf.blockIds_ne_nil hx)
      exact ⟨b, hb, x, ha, hb⟩
  rw [hwalk now t (.refl t), lastAccessTime_mark, timeAfterWalk]
  exact if_congr hiff.symm rfl rfl

/-! ### Kept blocks -/

/-- The edge to a node that is left is left. -/
theorem View.edge_of_pruned (h : t.View full A) (h' : t'.View full' B) (hp : Pruned t t')
    {n c : Addr} {tok : Token} (hn : t.Member n) (hc : (t.node n).children.get? tok = some c)
    (hc' : c ∈ t'.nodes.values) :
    t'.Member n ∧ (t'.node n).children.get? tok = some c := by
  obtain ⟨-, hpar, rest, hkey⟩ := h.wf.child n tok c hn hc
  obtain ⟨p, tok', rest', hpm, -, -, hpc, -⟩ := h'.wf.parent c hc'
  have hpm₀ : t.Member p := hpm.imp id fun hv => hp.values.subset hv
  obtain ⟨-, hpar', rest'', hkey'⟩ := h.wf.child p tok' c hpm₀
    (PyDict.get?_of_sublist (hp.children p) hpc)
  rw [hpar, Option.some_inj] at hpar'
  rw [hkey] at hkey'
  obtain rfl := hpar'
  obtain rfl := (List.cons.inj hkey').1
  exact ⟨hpm, hpc⟩

/-- An edge whose node has gone has gone. -/
theorem View.no_edge_of_pruned (h' : t'.View full' B) (hp : Pruned t t') {n c : Addr} {tok : Token}
    (hn' : t'.Member n) (hc : (t.node n).children.get? tok = some c) (hc' : c ∉ t'.nodes.values) :
    (t'.node n).children.get? tok = none := by
  cases hget : (t'.node n).children.get? tok with
  | none => rfl
  | some d =>
      have hcd := PyDict.get?_of_sublist (hp.children n) hget
      rw [hc, Option.some_inj] at hcd
      exact absurd (h'.wf.child n tok d hn' hget).1 (hcd ▸ hc')

/-- What an insertion keeps in a pruned tree is the beginning of what it keeps in the whole one. -/
theorem View.isPrefix_keptLoop (h : t.View full A) (h' : t'.View full' B) (hp : Pruned t t') :
    ∀ (fuel : ℕ) {n : Addr} {rest : List Token}, t.Member n → t'.Member n →
      t'.keptLoop fuel n rest <+: t.keptLoop fuel n rest := by
  intro fuel
  induction fuel with
  | zero => intro n rest _ _; exact List.prefix_refl _
  | succ fuel ih =>
      intro n rest hn hn'
      cases rest with
      | nil => exact List.prefix_refl _
      | cons first rest =>
          cases hc : (t.node n).children.get? first with
          | none =>
              have hc' := PyDict.get?_none_of_sublist (hp.children n) hc
              simp only [keptLoop, hc, hc']
              exact List.prefix_refl _
          | some c =>
              have hcv := (h.wf.child n first c hn hc).1
              by_cases hc' : c ∈ t'.nodes.values
              · have hedge := (h.edge_of_pruned h' hp hn hc hc').2
                simp only [keptLoop, hc, hedge, hp.key_eq, hp.blockIds_eq, hp.blockSize_eq]
                split
                · exact List.prefix_append_right_inj _ |>.2 (ih (Or.inr hcv) (Or.inr hc'))
                · exact List.prefix_refl _
              · simp only [keptLoop, h'.no_edge_of_pruned hp hn' hc hc']
                exact List.nil_prefix

theorem View.isPrefix_keptBlocks (h : t.View full A) (h' : t'.View full' B) (hp : Pruned t t')
    (T : List Token) : t'.keptBlocks T <+: t.keptBlocks T :=
  h.isPrefix_keptLoop h' hp _ t.member_root t'.member_root

/-- **The first blocks that an insertion keeps** in a pruned tree are those it keeps in the whole one,
as long as the nodes that own them are left. -/
theorem View.take_keptLoop (h : t.View full A) (h' : t'.View full' B) (hp : Pruned t t') :
    ∀ (fuel : ℕ) {n : Addr} {rest : List Token} (k : ℕ), t.Member n → t'.Member n →
      (∀ z ∈ t.nodes.values, (∃ b ∈ (t.keptLoop fuel n rest).take k, b ∈ (t.node z).blockIds) →
        z ∈ t'.nodes.values) →
      (t'.keptLoop fuel n rest).take k = (t.keptLoop fuel n rest).take k := by
  intro fuel
  induction fuel with
  | zero => intro n rest k _ _ _; rfl
  | succ fuel ih =>
      intro n rest k hn hn' hleft
      cases rest with
      | nil => rfl
      | cons first rest =>
          cases hc : (t.node n).children.get? first with
          | none =>
              have hc' := PyDict.get?_none_of_sublist (hp.children n) hc
              simp only [keptLoop, hc, hc']
          | some c =>
              have hcv := (h.wf.child n first c hn hc).1
              obtain ⟨b, bs, hb, -⟩ := h.wf.exists_head hcv
              by_cases hc' : c ∈ t'.nodes.values
              · -- the edge is left
                have hedge := (h.edge_of_pruned h' hp hn hc hc').2
                simp only [keptLoop, hc, hedge, hp.key_eq, hp.blockIds_eq, hp.blockSize_eq]
                  at hleft ⊢
                split at hleft
                · next hcp =>
                  rw [if_pos hcp, if_pos hcp, List.take_append, List.take_append]
                  refine congrArg _ (ih _ (Or.inr hcv) (Or.inr hc') fun z hz hown => hleft z hz ?_)
                  obtain ⟨x, hx, hxz⟩ := hown
                  exact ⟨x, by rw [List.take_append]; exact List.mem_append_right _ hx, hxz⟩
                · next hcp => rw [if_neg hcp, if_neg hcp]
              · -- it has gone, so that none of its blocks is among the first
                have hnil : (t.keptLoop (fuel + 1) n (first :: rest)).take k = [] := by
                  refine List.eq_nil_iff_forall_not_mem.2 fun x hx => hc' (hleft c hcv ?_)
                  by_cases hcp : cpLen (first :: rest) (t.node c).key = (t.node c).key.length
                  · simp only [keptLoop, hc, if_pos hcp, hb] at hx ⊢
                    cases k with
                    | zero => simp at hx
                    | succ k => exact ⟨b, by simp, by simp⟩
                  · refine ⟨x, hx, ?_⟩
                    simp only [keptLoop, hc, if_neg hcp] at hx
                    exact List.mem_of_mem_take (List.mem_of_mem_take hx)
                have hgone := h'.no_edge_of_pruned hp hn' hc hc'
                rw [hnil]
                simp [keptLoop, hgone]

theorem View.take_keptBlocks (h : t.View full A) (h' : t'.View full' B) (hp : Pruned t t')
    {T : List Token} {k : ℕ}
    (hleft : ∀ z ∈ t.nodes.values, (∃ b ∈ (t.keptBlocks T).take k, b ∈ (t.node z).blockIds) →
      z ∈ t'.nodes.values) : (t'.keptBlocks T).take k = (t.keptBlocks T).take k :=
  h.take_keptLoop h' hp _ k t.member_root t'.member_root hleft

/-! ### The end of an insertion -/

/-- A node that is left is where it was, if its blocks are. -/
theorem View.full_of_pruned (h : t.View full A) (h' : t'.View full' B) (hp : Pruned t t')
    (hd : A.Distinct) (hitems : ∀ l, ∀ b ∈ B.items l, b ∈ A.items l) {x : Addr}
    (hx : t'.Member x) : full' x = full x := by
  rcases hx with rfl | hx
  · rw [h'.wf.full_root, h.wf.full_root]
  · obtain ⟨b, hb⟩ := List.exists_mem_of_ne_nil _ (h'.wf.blockIds_ne_nil hx)
    have hb' := hb
    rw [← h'.items_full hx] at hb
    rw [hp.blockIds_eq, ← h.items_full (hp.values.subset hx)] at hb'
    exact hd.unique _ _ _ (hitems _ b hb) hb'

/-- **An insertion leaves the same edge partway** as long as the node at its end is left. -/
theorem View.insertEnd_of_pruned (h : t.View full A) (h' : t'.View full' B) (hp : Pruned t t')
    (hd : A.Distinct) (hitems : ∀ l, ∀ b ∈ B.items l, b ∈ A.items l) {T rest : List Token}
    {a z : Addr} {first : Token} (hend : t.insertEnd T = (a, first :: rest))
    (hz : (t.node a).children.get? first = some z) (hz' : z ∈ t'.nodes.values) :
    t'.insertEnd T = (a, first :: rest) ∧ (t'.node a).children.get? first = some z := by
  obtain ⟨hspec, -⟩ := h.insertEnd_spec T
  rw [hend] at hspec
  obtain ⟨hmem, hedge⟩ := h.edge_of_pruned h' hp hspec.member hz hz'
  refine ⟨h'.endOf_unique (h'.insertEnd_spec T).1 ⟨hmem, ?_, ?_⟩, hedge⟩
  · rw [h.full_of_pruned h' hp hd hitems hmem]
    exact hspec.path_eq
  · rintro f r d hr hedge'
    obtain ⟨rfl, rfl⟩ := List.cons.inj hr
    obtain rfl : z = d := Option.some_inj.1 (hedge.symm.trans hedge')
    rw [hp.key_eq]
    exact hspec.partway first rest z rfl hz

/-! ### Selecting a leaf -/

/-- What lies below a leaf is the leaf. -/
theorem turn_leaf {x : Addr} (hx : x ∈ t.nodes.values)
    (hleaf : (t.node x).children.entries = []) : t.turn x = t.key x := by
  obtain ⟨d, -, hxd, hturn⟩ := exists_turn_eq hx
  rcases Relation.ReflTransGen.cases_head hxd with rfl | ⟨c, ⟨tok, hchild⟩, -⟩
  · exact hturn
  · have hmem := PyDict.get?_eq_some_iff.1 hchild
    rw [hleaf] at hmem
    simp at hmem

/-- The reference counts of the nodes do not matter. -/
theorem View.forgetRefs (h : t.View full A) : t.forgetRefs.View full A where
  wf := {
    blockSize_pos := h.wf.blockSize_pos
    full_root := h.wf.full_root
    root_blockIds := h.wf.root_blockIds
    index_head := h.wf.index_head
    lt_nextAddr := h.wf.lt_nextAddr
    length_blockIds := h.wf.length_blockIds
    refCount_zero := fun _ _ => rfl
    parent := h.wf.parent
    child := h.wf.child }
  eq_some_iff := h.eq_some_iff

/-- The demotion of one leaf has selected `v`, whose access time is `τ` now. -/
structure Selects (t : RadixTree) (tierOf : BlockId → Option Tier)
    (isPinned : Option (BlockId → Bool)) (τ : Time) (v : Addr) (t' : RadixTree) : Prop where
  pruned : t.Pruned t'
  mem : v ∈ t'.nodes.values
  time_eq : ∀ x ∈ t'.nodes.values, x ≠ v → (t'.node x).lastAccessTime = (t.node x).lastAccessTime
  time_victim : (t'.node v).lastAccessTime = τ
  first : ∀ o ∈ t.nodes.values, t.isCandidate isPinned o = true → ¬ t.AllDead tierOf o →
    t.key v ≤ t.key o

/-- **The leaf that a demotion selects** comes before every candidate with a live block. -/
theorem View.demoteLru_one (h : t.View full A) (clock : ℕ → Time)
    (tierOf : BlockId → Option Tier) (isPinned : Option (BlockId → Bool)) :
    (∃ t', (demoteLru clock 1 (some tierOf) isPinned).run t = .ok [] t') ∨
      ∃ v t', (demoteLru clock 1 (some tierOf) isPinned).run t = .ok [(t.node v).blockIds] t' ∧
        Selects t tierOf isPinned (renewedTime (clock 0)) v t' := by
  have hstart : InTurn t full tierOf isPinned clock t [] := .start h.forgetRefs
  obtain ⟨picks, t', hrun, hscan, hend⟩ := InTurn.run h.forgetRefs 1 (t.nodes.entries.length + 2)
    hstart (Nat.zero_le 1) (by simp)
  have hrun' : (demoteLru clock 1 (some tierOf) isPinned).run t =
      .ok (picks.map fun x => (t.node x).blockIds) t' := hrun
  rcases hend with ⟨hturn, hend⟩ | ⟨-, t₁, picks₁, v, -, hlen, -, hv⟩
  swap
  · obtain rfl := List.length_eq_zero_iff.1 (Nat.lt_one_iff.1 hlen)
    cases hv
  cases picks with
  | nil => exact Or.inl ⟨t', hrun'⟩
  | cons v picks =>
      -- the selected leaf is a candidate still, so that the scan ended with it
      obtain ⟨hv, hleaf, hfree, -⟩ := hscan.picked v List.mem_cons_self
      have hone : picks = [] := by
        rcases hend with hlen | hnone
        · simpa using hlen
        · rw [lruVictim, List.argmin_eq_none, List.filter_eq_nil_iff] at hnone
          exact absurd ((hscan.isCandidate_iff hv).2 ⟨hleaf, hfree⟩) (hnone v hv)
      subst hone
      refine Or.inr ⟨v, t', hrun', ?_, hv, fun x hx hxv => ?_, ?_, fun o ho hcand hlive => ?_⟩
      · have hkeeps := pruned_demoteLru t clock 1 (some tierOf) isPinned t (.refl t)
        rwa [hrun'] at hkeeps
      · exact hturn.time_old x hx (by simpa using hxv)
      · exact hturn.time_new 0 v rfl
      · by_cases hov : o = v
        · rw [hov]
        · have hsel := Selectable.of_candidate ho hcand hlive
          have hlt := hturn.first v List.mem_cons_self o hsel (by simpa using hov)
          rw [turn_leaf ho (RadixTree.isCandidate_iff.1 hcand).1] at hlt
          exact (key_le_turn (hscan.sublist.subset hv) .refl).trans hlt.le

end RadixTree

end NanoKVRouter
