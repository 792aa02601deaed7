/-
**Which nodes a demotion selects.**

The scan of `demote_lru` takes the least recently used candidate turn after turn.  A zombie goes,
and may leave its parent as a candidate; a live leaf is selected and stays, with its access time set
to the clock and a little more.  So a selected leaf is a candidate again, and the scan selects it a
second time as soon as no candidate is older than its renewed access time.

Every node has its turn when the youngest of the nodes at and below it has been passed.  The nodes
that can be selected are taken in the order of their turns, and they are distinct as long as each
turn comes before the renewed access times of those taken earlier.

Main definitions:

* `RadixTree.Selectable` — a node that the scan can select;
* `RadixTree.turn` — when the scan has passed what lies below a node;
* `RadixTree.Scanned` — what a scan has done to the tree, whatever it has selected;
* `RadixTree.SelectsDistinct` — the call selects distinct nodes and removes dead ones only.

Main results:

* `RadixTree.demoteLru_selectsDistinct_iff` — **when the selected nodes are distinct**;
* `RadixTree.demoteLru_selects_twice` — one leaf, asked for two.
-/

import NanoKVRouter.RadixTreePaths
import Mathlib.Data.Prod.Lex
import Mathlib.Data.List.Sort

set_option relaxedAutoImplicit false
set_option autoImplicit false

/-- A sublist keeps the order of places. -/
theorem List.Sublist.idxOf_le {α : Type} [DecidableEq α] {l l' : List α} (h : l.Sublist l')
    (hnd : l'.Nodup) {a b : α} (ha : a ∈ l) (hb : b ∈ l) (hle : l.idxOf a ≤ l.idxOf b) :
    l'.idxOf a ≤ l'.idxOf b := by
  induction h with
  | slnil => simp at ha
  | @cons l l' x hsub ih =>
      obtain ⟨hx, hnd⟩ := List.nodup_cons.1 hnd
      have hxa : x ≠ a := fun heq => hx (heq ▸ hsub.subset ha)
      have hxb : x ≠ b := fun heq => hx (heq ▸ hsub.subset hb)
      rw [List.idxOf_cons_ne _ hxa, List.idxOf_cons_ne _ hxb]
      exact Nat.succ_le_succ (ih hnd ha hb hle)
  | @cons_cons l l' x hsub ih =>
      obtain ⟨hx, hnd⟩ := List.nodup_cons.1 hnd
      by_cases hxa : x = a
      · rw [List.idxOf_cons_eq _ hxa]
        exact Nat.zero_le _
      by_cases hxb : x = b
      · rw [List.idxOf_cons_ne _ hxa, List.idxOf_cons_eq _ hxb] at hle
        simp at hle
      rw [List.idxOf_cons_ne _ hxa, List.idxOf_cons_ne _ hxb] at hle ⊢
      exact Nat.succ_le_succ (ih hnd (List.mem_of_ne_of_mem (Ne.symm hxa) ha)
        (List.mem_of_ne_of_mem (Ne.symm hxb) hb) (Nat.le_of_succ_le_succ hle))

theorem List.getElem?_append_singleton_cases {α : Type} {l : List α} {a x : α} {i : ℕ}
    (h : (l ++ [a])[i]? = some x) : l[i]? = some x ∧ i < l.length ∨ i = l.length ∧ x = a := by
  rcases lt_trichotomy i l.length with hlt | rfl | hgt
  · rw [List.getElem?_append_left hlt] at h
    exact Or.inl ⟨h, hlt⟩
  · simp only [List.getElem?_concat_length, Option.some_inj] at h
    exact Or.inr ⟨rfl, h.symm⟩
  · rw [List.getElem?_eq_none (by simpa using hgt)] at h
    simp at h

theorem EStateM.run'_eq_some {ε σ α : Type} {m : EStateM ε σ α} {s s' : σ} {a : α}
    (h : m.run s = .ok a s') : m.run' s = some a := by
  delta EStateM.run'
  rw [h]

namespace NanoKVRouter

namespace RadixTree

/-! ### Trees without their reference counts -/

/-- The tree as it is when nobody references a node. -/
def forgetRefs (t : RadixTree) : RadixTree :=
  { t with node := fun a => { t.node a with refCount := 0 } }

theorem forgetRefs_modifyNode (t : RadixTree) (a : Addr) {f : RadixNode → RadixNode}
    (hf : ∀ n, { f n with refCount := 0 } = f { n with refCount := 0 }) :
    (t.modifyNode a f).forgetRefs = t.forgetRefs.modifyNode a f := by
  have hnode : ∀ c, (t.modifyNode a f).forgetRefs.node c =
      (t.forgetRefs.modifyNode a f).node c := by
    intro c
    rcases eq_or_ne c a with rfl | hc
    · rw [node_modifyNode_self]
      simp only [forgetRefs, node_modifyNode_self]
      exact hf _
    · rw [node_modifyNode_of_ne _ _ hc]
      simp only [forgetRefs, node_modifyNode_of_ne _ _ hc]
  have heq := funext hnode
  simp only [forgetRefs, modifyNode] at heq ⊢
  rw [heq]

theorem forgetRefs_touch (t : RadixTree) (a : Addr) (τ : Time) :
    (t.touch a τ).forgetRefs = t.forgetRefs.touch a τ :=
  t.forgetRefs_modifyNode a fun _ => rfl

theorem forgetRefs_withoutLeaf (t : RadixTree) (p : Addr) (tok : Token) (a : Addr) (b : BlockId) :
    (t.withoutLeaf p tok a b).forgetRefs = t.forgetRefs.withoutLeaf p tok a b := by
  have h1 : (t.dropChild p tok).forgetRefs = t.forgetRefs.dropChild p tok :=
    t.forgetRefs_modifyNode p fun _ => rfl
  have h2 : ((t.dropChild p tok).orphan a).forgetRefs = (t.dropChild p tok).forgetRefs.orphan a :=
    (t.dropChild p tok).forgetRefs_modifyNode a fun _ => rfl
  rw [withoutLeaf, withoutLeaf, ← h1, ← h2]
  rfl

theorem linked_forgetRefs {t : RadixTree} {a : Addr} : t.forgetRefs.Linked a ↔ t.Linked a := by
  constructor
  · intro h
    induction h with
    | root => exact .root
    | child _ hc ih => exact .child ih hc
  · intro h
    induction h with
    | root => exact .root
    | @child p c tok _ hc ih => exact @Linked.child _ p c tok ih hc

theorem Sound.forgetRefs {t : RadixTree} (h : t.Sound) : t.forgetRefs.Sound where
  consistent := by
    obtain ⟨h1, h2, h3, h4, h5, h6, h7⟩ := h.consistent
    constructor <;> simp only [linked_forgetRefs]
    · exact h1
    · exact h2
    · exact h3
    · exact h4
    · exact h5
    · exact h6
    · exact h7
  blockSize_pos := h.blockSize_pos
  root_blockIds := h.root_blockIds
  created := by
    simp only [linked_forgetRefs]
    exact h.created

/-- A sound tree is a trie, whatever its reference counts are. -/
theorem Sound.exists_view_forgetRefs {t : RadixTree} (h : t.Sound) :
    ∃ full A, t.forgetRefs.View full A ∧ A.Distinct :=
  h.forgetRefs.exists_view fun _ _ => rfl

/-! ### The nodes that can be selected -/

/-- One of the blocks is pinned, as the callback says. -/
def holdsPinned (isPinned : Option (BlockId → Bool)) (ids : List BlockId) : Bool :=
  match isPinned with
  | none => false
  | some g => ids.any g

/-- The node is not referenced and holds no pinned block. -/
def Free (t : RadixTree) (isPinned : Option (BlockId → Bool)) (x : Addr) : Prop :=
  (t.node x).refCount = 0 ∧ holdsPinned isPinned (t.node x).blockIds = false

/-- All blocks of the node are freed. -/
def AllDead (t : RadixTree) (tierOf : BlockId → Option Tier) (x : Addr) : Prop :=
  ∀ b ∈ (t.node x).blockIds, tierOf b = none

/-- The scan can select the node: it is free and has a live block, and what lies below it are
zombies, which the scan removes. -/
structure Selectable (t : RadixTree) (tierOf : BlockId → Option Tier)
    (isPinned : Option (BlockId → Bool)) (x : Addr) : Prop where
  mem : x ∈ t.nodes.values
  free : t.Free isPinned x
  live : ¬ t.AllDead tierOf x
  below : ∀ y, t.Descends x y → y ≠ x → t.Free isPinned y ∧ t.AllDead tierOf y

theorem isCandidate_iff {t : RadixTree} {isPinned : Option (BlockId → Bool)} {x : Addr} :
    t.isCandidate isPinned x = true ↔ (t.node x).children.entries = [] ∧ t.Free isPinned x := by
  cases isPinned <;>
    simp only [isCandidate, Free, holdsPinned, Bool.and_eq_true, List.isEmpty_iff,
      decide_eq_true_eq, Bool.not_eq_true', and_assoc]

/-! ### Turns -/

/-- Access times, and places in the index `places` among equals. -/
abbrev Key : Type := Lex (Time × ℕ)

/-- The key the scan compares: the access time, and the place in the index among equals. -/
def keyAt (places : List Addr) (τ : Time) (x : Addr) : Key := toLex (τ, places.idxOf x)

/-- The key of a node. -/
def key (t : RadixTree) (x : Addr) : Key := keyAt t.nodes.values (t.node x).lastAccessTime x

open Classical in
/-- The node with the greatest key at or below a node. -/
noncomputable def youngestBelow (t : RadixTree) (x : Addr) : Option Addr :=
  (t.nodes.values.filter fun d => t.Descends x d).argmax t.key

/-- The turn of a node: the greatest key at or below it. -/
noncomputable def turn (t : RadixTree) (x : Addr) : Key :=
  (t.youngestBelow x).elim (t.key x) t.key

theorem key_le_turn {t : RadixTree} {x d : Addr} (hd : d ∈ t.nodes.values) (hxd : t.Descends x d) :
    t.key d ≤ t.turn x := by
  classical
  have hmem : d ∈ t.nodes.values.filter fun d => t.Descends x d :=
    List.mem_filter.2 ⟨hd, by simpa using hxd⟩
  rw [turn]
  cases hmax : t.youngestBelow x with
  | none =>
      rw [youngestBelow, List.argmax_eq_none] at hmax
      rw [hmax] at hmem
      simp at hmem
  | some m => exact List.le_of_mem_argmax hmem hmax

/-- The turn of a node is the key of a node at or below it. -/
theorem exists_turn_eq {t : RadixTree} {x : Addr} (hx : x ∈ t.nodes.values) :
    ∃ d ∈ t.nodes.values, t.Descends x d ∧ t.turn x = t.key d := by
  classical
  rw [turn]
  cases hmax : t.youngestBelow x with
  | none => exact ⟨x, hx, .refl, rfl⟩
  | some m =>
      obtain ⟨hm, hxm⟩ := List.mem_filter.1 (List.argmax_mem hmax)
      exact ⟨m, hm, by simpa using hxm, rfl⟩

theorem key_inj {t : RadixTree} {x y : Addr} (hx : x ∈ t.nodes.values) (heq : t.key x = t.key y) :
    x = y := by
  have hidx : t.nodes.values.idxOf x = t.nodes.values.idxOf y := congrArg (fun k => (ofLex k).2) heq
  exact (List.idxOf_inj hx).1 hidx

/-- A candidate with a live block can be selected: nothing lies below it. -/
theorem Selectable.of_candidate {t : RadixTree} {tierOf : BlockId → Option Tier}
    {isPinned : Option (BlockId → Bool)} {x : Addr} (hx : x ∈ t.nodes.values)
    (hcand : t.isCandidate isPinned x = true) (hlive : ¬ t.AllDead tierOf x) :
    t.Selectable tierOf isPinned x := by
  obtain ⟨hleaf, hfree⟩ := isCandidate_iff.1 hcand
  refine ⟨hx, hfree, hlive, fun y hxy hne => ?_⟩
  rcases Relation.ReflTransGen.cases_head hxy with rfl | ⟨c, ⟨tok, hchild⟩, -⟩
  · exact absurd rfl hne
  · have hmem := PyDict.get?_eq_some_iff.1 hchild
    rw [hleaf] at hmem
    simp at hmem

/-! ### What a scan has done -/

section Scan

variable {t₀ t : RadixTree} {full : Addr → List Token} {tierOf : BlockId → Option Tier}
  {isPinned : Option (BlockId → Bool)} {picks : List Addr}

/-- From `t₀` on, the scan has removed free nodes without a live block, the lower ones first, and
has selected live leaves; nothing but access times has changed otherwise. -/
structure Scanned (t₀ : RadixTree) (full : Addr → List Token) (tierOf : BlockId → Option Tier)
    (isPinned : Option (BlockId → Bool)) (t : RadixTree) (picks : List Addr) : Prop where
  view : ∃ A, t.forgetRefs.View full A
  sublist : t.nodes.values.Sublist t₀.nodes.values
  blockIds_eq : ∀ x ∈ t.nodes.values, (t.node x).blockIds = (t₀.node x).blockIds
  refCount_eq : ∀ x ∈ t.nodes.values, (t.node x).refCount = (t₀.node x).refCount
  gone : ∀ d ∈ t₀.nodes.values, d ∉ t.nodes.values →
    t₀.Free isPinned d ∧ t₀.AllDead tierOf d ∧ ∀ y ∈ t.nodes.values, ¬ full d <+: full y
  picked : ∀ x ∈ picks, x ∈ t.nodes.values ∧ (t.node x).children.entries = [] ∧
    t₀.Free isPinned x ∧ ¬ t₀.AllDead tierOf x

namespace Scanned

theorem refl {A : PathTrie Token BlockId} (h : t.forgetRefs.View full A) :
    Scanned t full tierOf isPinned t [] where
  view := ⟨A, h⟩
  sublist := List.Sublist.refl _
  blockIds_eq := fun _ _ => rfl
  refCount_eq := fun _ _ => rfl
  gone := fun _ hd hnot => absurd hd hnot
  picked := by simp

variable (h : Scanned t₀ full tierOf isPinned t picks)
include h

theorem free_iff {x : Addr} (hx : x ∈ t.nodes.values) :
    t.Free isPinned x ↔ t₀.Free isPinned x := by
  rw [Free, Free, h.blockIds_eq x hx, h.refCount_eq x hx]

/-- A candidate of the scan. -/
theorem isCandidate_iff {x : Addr} (hx : x ∈ t.nodes.values) :
    t.isCandidate isPinned x = true ↔ (t.node x).children.entries = [] ∧ t₀.Free isPinned x := by
  rw [RadixTree.isCandidate_iff, h.free_iff hx]

/-- Nothing lies below a leaf. -/
theorem below_leaf_iff {a x : Addr} (ha : a ∈ t.nodes.values)
    (hleaf : (t.node a).children.entries = []) (hx : x ∈ t.nodes.values) :
    full a <+: full x ↔ x = a := by
  obtain ⟨A, hv⟩ := h.view
  exact hv.below_leaf_iff ha hleaf (Or.inr hx)

/-- A zombie is removed. -/
theorem remove {a : Addr} (ha : a ∈ t.nodes.values) (hleaf : (t.node a).children.entries = [])
    (hfree : t₀.Free isPinned a) (hdead : t₀.AllDead tierOf a) :
    ∃ t', (removeZombie a).run t = .ok () t' ∧ Scanned t₀ full tierOf isPinned t' picks ∧
      (∀ x, x ∈ t'.nodes.values ↔ x ∈ t.nodes.values ∧ x ≠ a) ∧
      (∀ x, x ≠ a → (t'.node x).lastAccessTime = (t.node x).lastAccessTime) ∧
      t'.nodes.entries.length + 1 = t.nodes.entries.length := by
  obtain ⟨A, hv⟩ := h.view
  obtain ⟨p, tok, rest, hp, hpar, hkey, hpa, -⟩ := hv.wf.parent a ha
  obtain ⟨b, bs, hb, hent⟩ := hv.wf.exists_head ha
  have hval : ∀ x, x ∈ (t.withoutLeaf p tok a b).nodes.values ↔ x ∈ t.nodes.values ∧ x ≠ a := by
    intro x
    have hrem := (hv.removed_withoutLeaf (p := p) tok hleaf hent).mem_values_iff x
    refine hrem.trans (and_congr_right fun hx => ?_)
    rw [hv.below_leaf_iff ha hleaf (Or.inr hx)]
  refine ⟨t.withoutLeaf p tok a b, run_removeZombie_links hpar hkey hpa hb hent, ?_, hval,
    fun x hxa => by rw [t.node_withoutLeaf p tok b hxa],
    PyDict.length_entries_erase (PyDict.mem_keys.2 ⟨a, hent⟩)⟩
  constructor
  case view =>
    refine ⟨A.prune (full a), ?_⟩
    rw [forgetRefs_withoutLeaf]
    exact hv.withoutLeaf hp hpa hleaf hent
  case sublist => exact (List.filter_sublist.map Prod.snd).trans h.sublist
  case blockIds_eq =>
    intro x hx
    obtain ⟨hx, hxa⟩ := (hval x).1 hx
    rw [t.node_withoutLeaf p tok b hxa]
    exact h.blockIds_eq x hx
  case refCount_eq =>
    intro x hx
    obtain ⟨hx, hxa⟩ := (hval x).1 hx
    rw [t.node_withoutLeaf p tok b hxa]
    exact h.refCount_eq x hx
  case gone =>
    intro d hd hnot
    by_cases hda : d = a
    · subst hda
      refine ⟨hfree, hdead, fun y hy hpre => ?_⟩
      obtain ⟨hy, hyd⟩ := (hval y).1 hy
      exact hyd ((h.below_leaf_iff ha hleaf hy).1 hpre)
    · obtain ⟨hf, hz, hbelow⟩ := h.gone d hd fun hd' => hnot ((hval d).2 ⟨hd', hda⟩)
      exact ⟨hf, hz, fun y hy => hbelow y ((hval y).1 hy).1⟩
  case picked =>
    intro x hx
    obtain ⟨hxv, hxleaf, hxfree, hxlive⟩ := h.picked x hx
    have hxa : x ≠ a := by
      rintro rfl
      exact hxlive hdead
    refine ⟨(hval x).2 ⟨hxv, hxa⟩, ?_, hxfree, hxlive⟩
    rw [t.node_withoutLeaf p tok b hxa]
    -- a selected leaf is not the parent of another leaf
    have hxp : x ≠ p := by
      rintro rfl
      have hmem : (tok, a) ∈ (t.node x).children.entries := PyDict.get?_eq_some_iff.1 hpa
      rw [hxleaf] at hmem
      simp at hmem
    rw [if_neg hxp]
    exact hxleaf

/-- A live leaf is selected. -/
theorem select {a : Addr} (ha : a ∈ t.nodes.values) (hleaf : (t.node a).children.entries = [])
    (hfree : t₀.Free isPinned a) (hlive : ¬ t₀.AllDead tierOf a) (τ : Time) :
    Scanned t₀ full tierOf isPinned (t.touch a τ) (picks ++ [a]) := by
  have hs := sameShape_touch t a τ
  obtain ⟨A, hv⟩ := h.view
  constructor
  case view =>
    refine ⟨A, ?_⟩
    rw [forgetRefs_touch]
    exact hv.sameShape (sameShape_touch t.forgetRefs a τ)
  case sublist => exact h.sublist
  case blockIds_eq => exact fun x hx => (hs.blockIds_eq x).trans (h.blockIds_eq x hx)
  case refCount_eq => exact fun x hx => (hs.refCount_eq x).trans (h.refCount_eq x hx)
  case gone => exact h.gone
  case picked =>
    intro x hx
    rw [hs.nodes_eq, hs.children_eq]
    rcases List.mem_append.1 hx with hx | hx
    · exact h.picked x hx
    · rw [List.mem_singleton.1 hx]
      exact ⟨ha, hleaf, hfree, hlive⟩

/-- A turn of the scan: the victim is a zombie and goes, or it is selected. -/
theorem turn_cases (clock : ℕ → Time) (scans : ℕ) {n : ℕ} {v : Addr} (hlen : picks.length < n)
    (hvic : t.lruVictim isPinned = some v) :
    (t₀.AllDead tierOf v ∧ ∃ t', Scanned t₀ full tierOf isPinned t' picks ∧
      (demoteScan clock n (some tierOf) isPinned (scans + 1)
          (picks.map fun x => (t₀.node x).blockIds)).run t =
        (demoteScan clock n (some tierOf) isPinned scans
          (picks.map fun x => (t₀.node x).blockIds)).run t' ∧
      (∀ x, x ∈ t'.nodes.values ↔ x ∈ t.nodes.values ∧ x ≠ v) ∧
      (∀ x, x ≠ v → (t'.node x).lastAccessTime = (t.node x).lastAccessTime) ∧
      t'.nodes.entries.length + 1 = t.nodes.entries.length) ∨
    (¬ t₀.AllDead tierOf v ∧
      Scanned t₀ full tierOf isPinned (t.touch v (renewedTime (clock picks.length)))
        (picks ++ [v]) ∧
      (demoteScan clock n (some tierOf) isPinned (scans + 1)
          (picks.map fun x => (t₀.node x).blockIds)).run t =
        (demoteScan clock n (some tierOf) isPinned scans
          ((picks ++ [v]).map fun x => (t₀.node x).blockIds)).run
            (t.touch v (renewedTime (clock picks.length)))) := by
  obtain ⟨hv, hcand⟩ := List.mem_filter.1 (List.argmin_mem hvic)
  obtain ⟨hleaf, hfree⟩ := (h.isCandidate_iff hv).1 hcand
  have hids := h.blockIds_eq v hv
  have hzombie : (((t.node v).blockIds.all fun b => (tierOf b).isNone) = true) ↔
      t₀.AllDead tierOf v := by
    rw [hids, AllDead, List.all_eq_true]
    simp only [Option.isNone_iff_eq_none]
  by_cases hdead : t₀.AllDead tierOf v
  · left
    obtain ⟨t', hrun, hscan, hval, htime, hlen'⟩ := h.remove hv hleaf hfree hdead
    refine ⟨hdead, t', hscan, ?_, hval, htime, hlen'⟩
    simp only [demoteScan, List.length_map, hlen, if_true, EStateM.run_bind, EStateM.run_get, hvic,
      hzombie.2 hdead, hrun]
  · right
    refine ⟨hdead, h.select hv hleaf hfree hdead _, ?_⟩
    have hfalse : ((t₀.node v).blockIds.all fun b => (tierOf b).isNone) = false := by
      rw [← hids, ← Bool.not_eq_true, hzombie]
      exact hdead
    simp only [demoteScan, List.length_map, hlen, if_true, EStateM.run_bind, EStateM.run_get, hvic,
      hids, hfalse, Bool.false_eq_true, if_false, EStateM.run_modify, List.map_append,
      List.map_singleton]

end Scanned

/-- **Whatever it selects**, the scan returns blocks of live leaves and removes zombies only. -/
theorem Scanned.run (clock : ℕ → Time) (n : ℕ) : ∀ (scans : ℕ) {t : RadixTree}
    {picks : List Addr}, Scanned t₀ full tierOf isPinned t picks →
    ∃ picks' t', (demoteScan clock n (some tierOf) isPinned scans
        (picks.map fun x => (t₀.node x).blockIds)).run t =
          .ok (picks'.map fun x => (t₀.node x).blockIds) t' ∧
      picks <+: picks' ∧ Scanned t₀ full tierOf isPinned t' picks' := by
  intro scans
  induction scans with
  | zero => exact fun h => ⟨_, _, rfl, List.prefix_refl _, h⟩
  | succ scans ih =>
      intro t picks h
      by_cases hlen : picks.length < n
      swap
      · exact ⟨picks, t, by simp [demoteScan, hlen], List.prefix_refl _, h⟩
      cases hvic : t.lruVictim isPinned with
      | none => exact ⟨picks, t, by simp [demoteScan, hlen, hvic], List.prefix_refl _, h⟩
      | some v =>
          rcases h.turn_cases clock scans hlen hvic with
            ⟨-, t', h', hrun, -⟩ | ⟨-, h', hrun⟩
          · rw [hrun]
            exact ih h'
          · obtain ⟨picks', t', hrun', hpre, h''⟩ := ih h'
            exact ⟨picks', t', hrun.trans hrun', (List.prefix_append _ _).trans hpre, h''⟩

/-! ### Distinct selections -/

theorem Scanned.mem_of_selectable (h : Scanned t₀ full tierOf isPinned t picks) {y : Addr}
    (hy : t₀.Selectable tierOf isPinned y) : y ∈ t.nodes.values := by
  by_contra hnot
  exact hy.live (h.gone y hy.mem hnot).2.1

variable {A₀ : PathTrie Token BlockId} (hv₀ : t₀.forgetRefs.View full A₀)
include hv₀

/-- The nodes at and below one are those whose paths extend its path. -/
theorem descends_iff_below {x d : Addr} (hx : x ∈ t₀.nodes.values) :
    t₀.Descends x d ↔ d ∈ t₀.nodes.values ∧ full x <+: full d := by
  refine (hv₀.descends_iff (Or.inr hx)).trans (and_congr_left fun hpre => ?_)
  constructor
  · rintro (rfl | hd)
    · rw [hv₀.wf.full_root, List.prefix_nil] at hpre
      exact absurd hpre (hv₀.wf.full_ne_nil hx)
    · exact hd
  · exact Or.inr

/-- Of two selectable nodes none lies below the other. -/
theorem Selectable.eq_of_descends {x y d : Addr} (hx : t₀.Selectable tierOf isPinned x)
    (hy : t₀.Selectable tierOf isPinned y) (hxd : t₀.Descends x d) (hyd : t₀.Descends y d) :
    x = y := by
  have hxp := ((descends_iff_below hv₀ hx.mem).1 hxd).2
  have hyp := ((descends_iff_below hv₀ hy.mem).1 hyd).2
  by_contra hne
  rcases le_total (full x).length (full y).length with hle | hle
  · have hxy := (descends_iff_below hv₀ hx.mem).2
      ⟨hy.mem, List.prefix_of_prefix_length_le hxp hyp hle⟩
    exact hy.live (hx.below y hxy (Ne.symm hne)).2
  · have hyx := (descends_iff_below hv₀ hy.mem).2
      ⟨hx.mem, List.prefix_of_prefix_length_le hyp hxp hle⟩
    exact hx.live (hy.below x hyx hne).2

/-- At or below a selectable node there is always a candidate. -/
theorem Scanned.exists_candidate (h : Scanned t₀ full tierOf isPinned t picks) {y : Addr}
    (hy : t₀.Selectable tierOf isPinned y) :
    ∃ e ∈ t.nodes.values, t.isCandidate isPinned e = true ∧ t₀.Descends y e ∧
      (e = y ∨ t₀.AllDead tierOf e) := by
  obtain ⟨A, hv⟩ := h.view
  have hyv := h.mem_of_selectable hy
  obtain ⟨e, he, hye, hleaf⟩ := hv.exists_leaf_below hyv
  have hpre := ((hv.descends_iff (Or.inr hyv)).1 hye).2
  have hdesc := (descends_iff_below hv₀ hy.mem).2 ⟨h.sublist.subset he, hpre⟩
  by_cases hey : e = y
  · exact ⟨e, he, (h.isCandidate_iff he).2 ⟨hleaf, hey ▸ hy.free⟩, hdesc, Or.inl hey⟩
  · obtain ⟨hfree, hdead⟩ := hy.below e hdesc hey
    exact ⟨e, he, (h.isCandidate_iff he).2 ⟨hleaf, hfree⟩, hdesc, Or.inr hdead⟩

/-- The victim has the least key of the candidates. -/
theorem Scanned.victim_le (h : Scanned t₀ full tierOf isPinned t picks) {v c : Addr}
    (hvic : t.lruVictim isPinned = some v) (hc : c ∈ t.nodes.values)
    (hcand : t.isCandidate isPinned c = true) :
    keyAt t₀.nodes.values (t.node v).lastAccessTime v ≤
      keyAt t₀.nodes.values (t.node c).lastAccessTime c := by
  obtain ⟨hmem, hle, hidx⟩ := List.mem_argmin_iff.1 hvic
  have hcm : c ∈ t.nodes.values.filter (t.isCandidate isPinned) := List.mem_filter.2 ⟨hc, hcand⟩
  rw [keyAt, keyAt, Prod.Lex.toLex_le_toLex]
  rcases (hle c hcm).lt_or_eq with hlt | heq
  · exact Or.inl hlt
  · refine Or.inr ⟨heq, ?_⟩
    exact (List.filter_sublist.trans h.sublist).idxOf_le hv₀.wf.values_nodup hmem hcm
      (hidx c hcm heq.ge)

omit hv₀ in
/-- What holds while no node has been selected twice: the nodes are taken in the order of their
turns, and what the scan has passed came before the turns to come and before the renewed access
times of the nodes selected by then. -/
structure InTurn (t₀ : RadixTree) (full : Addr → List Token) (tierOf : BlockId → Option Tier)
    (isPinned : Option (BlockId → Bool)) (clock : ℕ → Time) (t : RadixTree) (picks : List Addr) :
    Prop where
  scanned : Scanned t₀ full tierOf isPinned t picks
  nodup : picks.Nodup
  selectable : ∀ x ∈ picks, t₀.Selectable tierOf isPinned x
  time_old : ∀ x ∈ t.nodes.values, x ∉ picks →
    (t.node x).lastAccessTime = (t₀.node x).lastAccessTime
  time_new : ∀ i x, picks[i]? = some x →
    (t.node x).lastAccessTime = renewedTime (clock i)
  ordered : picks.Pairwise fun x y => t₀.turn x < t₀.turn y
  first : ∀ x ∈ picks, ∀ y, t₀.Selectable tierOf isPinned y → y ∉ picks → t₀.turn x < t₀.turn y
  passed : ∀ d ∈ t₀.nodes.values, d ∉ t.nodes.values → ∀ y, t₀.Selectable tierOf isPinned y →
    y ∉ picks → ¬ t₀.Descends y d → t₀.key d < t₀.turn y
  renewed : ∀ i x, picks[i]? = some x → ∀ d ∈ t₀.nodes.values, (d ∉ t.nodes.values ∨ d ∈ picks) →
    ¬ t₀.Descends x d → t₀.key d < keyAt t₀.nodes.values (renewedTime (clock i)) x ∨
      t₀.key d < t₀.turn x

namespace InTurn

variable {clock : ℕ → Time}

omit hv₀ in
theorem start {A : PathTrie Token BlockId} (h : t₀.forgetRefs.View full A) :
    InTurn t₀ full tierOf isPinned clock t₀ [] where
  scanned := .refl h
  nodup := List.nodup_nil
  selectable := by simp
  time_old := fun _ _ _ => rfl
  time_new := by simp
  ordered := .nil
  first := by simp
  passed := fun _ hd hnot => absurd hd hnot
  renewed := by simp

variable (h : InTurn t₀ full tierOf isPinned clock t picks)
include h

/-- A victim that has not been selected comes before the turns to come. -/
theorem key_victim_lt {v y : Addr} (hvic : t.lruVictim isPinned = some v) (hv : v ∉ picks)
    (hy : t₀.Selectable tierOf isPinned y) (hyp : y ∉ picks) (hnot : ¬ t₀.Descends y v) :
    t₀.key v < t₀.turn y := by
  obtain ⟨hvv, -⟩ := List.mem_filter.1 (List.argmin_mem hvic)
  obtain ⟨e, he, hcand, hye, hdead⟩ := h.scanned.exists_candidate hv₀ hy
  have hep : e ∉ picks := by
    rintro hmem
    rcases hdead with rfl | hdead
    · exact hyp hmem
    · exact (h.selectable e hmem).live hdead
  have hle := h.scanned.victim_le hv₀ hvic he hcand
  rw [h.time_old v hvv hv, h.time_old e he hep] at hle
  have hev := h.scanned.sublist.subset he
  refine (lt_of_le_of_ne hle fun heq => hnot ?_).trans_le (key_le_turn hev hye)
  exact (key_inj (h.scanned.sublist.subset hvv) heq) ▸ hye

/-- A victim that has not been selected comes before the renewed access times. -/
theorem key_victim_lt_renewed {v x : Addr} {i : ℕ} (hvic : t.lruVictim isPinned = some v)
    (hv : v ∉ picks) (hx : picks[i]? = some x) :
    t₀.key v < keyAt t₀.nodes.values (renewedTime (clock i)) x := by
  obtain ⟨hvv, -⟩ := List.mem_filter.1 (List.argmin_mem hvic)
  have hxp := List.mem_of_getElem? hx
  obtain ⟨hxv, hleaf, hfree, -⟩ := h.scanned.picked x hxp
  have hle := h.scanned.victim_le hv₀ hvic hxv ((h.scanned.isCandidate_iff hxv).2 ⟨hleaf, hfree⟩)
  rw [h.time_old v hvv hv, h.time_new i x hx] at hle
  refine lt_of_le_of_ne hle fun heq => hv ?_
  have hidx : t₀.nodes.values.idxOf v = t₀.nodes.values.idxOf x :=
    congrArg (fun k => (ofLex k).2) heq
  rw [(List.idxOf_inj (h.scanned.sublist.subset hvv)).1 hidx]
  exact hxp

/-- A zombie goes. -/
theorem remove {v : Addr} {t' : RadixTree} (hvic : t.lruVictim isPinned = some v)
    (hdead : t₀.AllDead tierOf v) (hscan : Scanned t₀ full tierOf isPinned t' picks)
    (hval : ∀ x, x ∈ t'.nodes.values ↔ x ∈ t.nodes.values ∧ x ≠ v)
    (htime : ∀ x, x ≠ v → (t'.node x).lastAccessTime = (t.node x).lastAccessTime) :
    InTurn t₀ full tierOf isPinned clock t' picks := by
  have hv : v ∉ picks := fun hmem => (h.selectable v hmem).live hdead
  have hgone : ∀ d, d ∉ t'.nodes.values → d ∉ t.nodes.values ∨ d = v := by
    intro d hd
    by_contra hno
    obtain ⟨hd', hdv⟩ := not_or.1 hno
    exact hd ((hval d).2 ⟨not_not.1 hd', hdv⟩)
  refine ⟨hscan, h.nodup, h.selectable, ?_, ?_, h.ordered, h.first, ?_, ?_⟩
  · intro x hx hxp
    obtain ⟨hx, hxv⟩ := (hval x).1 hx
    rw [htime x hxv]
    exact h.time_old x hx hxp
  · intro i x hx
    rw [htime x fun heq => hv (heq ▸ List.mem_of_getElem? hx)]
    exact h.time_new i x hx
  · intro d hd hnot y hy hyp hyd
    rcases hgone d hnot with hnot | rfl
    · exact h.passed d hd hnot y hy hyp hyd
    · exact h.key_victim_lt hv₀ hvic hv hy hyp hyd
  · intro i x hx d hd hor hxd
    by_cases hdv : d = v
    · subst hdv
      exact Or.inl (h.key_victim_lt_renewed hv₀ hvic hv hx)
    · refine h.renewed i x hx d hd ?_ hxd
      rcases hor with hnot | hmem
      · exact Or.inl ((hgone d hnot).resolve_right hdv)
      · exact Or.inr hmem

/-- A leaf that has not been selected is: its turn has come. -/
theorem select {v : Addr} (hvic : t.lruVictim isPinned = some v) (hv : v ∉ picks)
    (hlive : ¬ t₀.AllDead tierOf v)
    (hscan : Scanned t₀ full tierOf isPinned
      (t.touch v (renewedTime (clock picks.length))) (picks ++ [v])) :
    InTurn t₀ full tierOf isPinned clock (t.touch v (renewedTime (clock picks.length)))
      (picks ++ [v]) := by
  obtain ⟨hvv, hcand⟩ := List.mem_filter.1 (List.argmin_mem hvic)
  obtain ⟨hleaf, hfree⟩ := (h.scanned.isCandidate_iff hvv).1 hcand
  have hv₀v := h.scanned.sublist.subset hvv
  -- whatever lies below the victim is gone
  have hbelow : ∀ d, t₀.Descends v d → d ≠ v → d ∈ t₀.nodes.values ∧ d ∉ t.nodes.values := by
    intro d hd hne
    obtain ⟨hdv, hpre⟩ := (descends_iff_below hv₀ hv₀v).1 hd
    exact ⟨hdv, fun hdt => hne ((h.scanned.below_leaf_iff hvv hleaf hdt).1 hpre)⟩
  have hsel : t₀.Selectable tierOf isPinned v := by
    refine ⟨hv₀v, hfree, hlive, fun d hd hne => ?_⟩
    obtain ⟨hdv, hdt⟩ := hbelow d hd hne
    obtain ⟨hdfree, hdead, -⟩ := h.scanned.gone d hdv hdt
    exact ⟨hdfree, hdead⟩
  -- its turn comes before the turns of the others
  have hturn : ∀ y, t₀.Selectable tierOf isPinned y → y ∉ picks → y ≠ v →
      t₀.turn v < t₀.turn y := by
    intro y hy hyp hyv
    obtain ⟨d, hdv, hvd, heq⟩ := exists_turn_eq hv₀v
    have hnot : ¬ t₀.Descends y d := fun hyd => hyv (hy.eq_of_descends hv₀ hsel hyd hvd)
    rw [heq]
    by_cases hd : d = v
    · subst hd
      exact h.key_victim_lt hv₀ hvic hv hy hyp hnot
    · exact h.passed d hdv (hbelow d hvd hd).2 y hy hyp hnot
  have hs := sameShape_touch t v (renewedTime (clock picks.length))
  refine ⟨hscan, ?_, ?_, ?_, ?_, ?_, ?_, ?_, ?_⟩
  · refine List.nodup_append.2 ⟨h.nodup, List.nodup_singleton v, ?_⟩
    rintro x hx y hy rfl
    exact hv (List.mem_singleton.1 hy ▸ hx)
  · intro x hx
    rcases List.mem_append.1 hx with hx | hx
    · exact h.selectable x hx
    · exact List.mem_singleton.1 hx ▸ hsel
  · intro x hx hxp
    rw [List.mem_append, List.mem_singleton, not_or] at hxp
    rw [lastAccessTime_touch, if_neg hxp.2]
    exact h.time_old x hx hxp.1
  · intro i x hx
    rcases List.getElem?_append_singleton_cases hx with ⟨hx, -⟩ | ⟨rfl, rfl⟩
    · have hxv : x ≠ v := fun heq => hv (heq ▸ List.mem_of_getElem? hx)
      rw [lastAccessTime_touch, if_neg hxv]
      exact h.time_new i x hx
    · rw [lastAccessTime_touch, if_pos rfl]
  · refine List.pairwise_append.2 ⟨h.ordered, List.pairwise_singleton _ v, fun x hx y hy => ?_⟩
    rw [List.mem_singleton.1 hy]
    exact h.first x hx v hsel hv
  · intro x hx y hy hyp
    rw [List.mem_append, List.mem_singleton, not_or] at hyp
    rcases List.mem_append.1 hx with hx | hx
    · exact h.first x hx y hy hyp.1
    · rw [List.mem_singleton.1 hx]
      exact hturn y hy hyp.1 hyp.2
  · intro d hd hnot y hy hyp hyd
    rw [List.mem_append, List.mem_singleton, not_or] at hyp
    exact h.passed d hd hnot y hy hyp.1 hyd
  · intro i x hx d hd hor hxd
    rw [hs.nodes_eq, List.mem_append, List.mem_singleton] at hor
    rcases List.getElem?_append_singleton_cases hx with ⟨hold, -⟩ | ⟨rfl, rfl⟩
    · by_cases hdv : d = v
      · rw [hdv]
        exact Or.inl (h.key_victim_lt_renewed hv₀ hvic hv hold)
      · exact h.renewed i x hold d hd (hor.imp_right fun hor => hor.resolve_right hdv) hxd
    · -- what has been passed came before the turn of the victim
      right
      rcases hor with hnot | hmem | rfl
      · exact h.passed d hd hnot x hsel hv hxd
      · exact (key_le_turn hd .refl).trans_lt (h.first d hmem x hsel hv)
      · exact absurd .refl hxd

omit h in
/-- **The scan** goes on in turn until it has what it was asked for or no candidate is left, or else
it selects a node for the second time. -/
theorem run (n : ℕ) : ∀ (scans : ℕ) {t : RadixTree} {picks : List Addr},
    InTurn t₀ full tierOf isPinned clock t picks → picks.length ≤ n →
    t.nodes.entries.length + (n - picks.length) < scans →
    ∃ picks' t', (demoteScan clock n (some tierOf) isPinned scans
        (picks.map fun x => (t₀.node x).blockIds)).run t =
          .ok (picks'.map fun x => (t₀.node x).blockIds) t' ∧
      Scanned t₀ full tierOf isPinned t' picks' ∧
      (InTurn t₀ full tierOf isPinned clock t' picks' ∧
          (picks'.length = n ∨ t'.lruVictim isPinned = none) ∨
        ¬ picks'.Nodup ∧ ∃ t₁ picks₁ v, InTurn t₀ full tierOf isPinned clock t₁ picks₁ ∧
          picks₁.length < n ∧ t₁.lruVictim isPinned = some v ∧ v ∈ picks₁) := by
  intro scans
  induction scans with
  | zero => exact fun _ _ hlt => absurd hlt (Nat.not_lt_zero _)
  | succ scans ih =>
      intro t picks h hle hlt
      by_cases hlen : picks.length < n
      swap
      · exact ⟨picks, t, by simp [demoteScan, hlen], h.scanned,
          Or.inl ⟨h, Or.inl (by omega)⟩⟩
      cases hvic : t.lruVictim isPinned with
      | none =>
          exact ⟨picks, t, by simp [demoteScan, hlen, hvic], h.scanned, Or.inl ⟨h, Or.inr hvic⟩⟩
      | some v =>
          rcases h.scanned.turn_cases clock scans hlen hvic with
            ⟨hdead, t', hscan, hrun, hval, htime, hlen'⟩ | ⟨hlive, hscan, hrun⟩
          · rw [hrun]
            exact ih (h.remove hv₀ hvic hdead hscan hval htime) hle (by omega)
          · rw [hrun]
            by_cases hv : v ∈ picks
            · -- the second selection of `v`
              obtain ⟨picks', t', hrun', hpre, hscan'⟩ := hscan.run clock n scans
              refine ⟨picks', t', hrun', hscan', Or.inr ⟨fun hnd => ?_, t, picks, v, h, hlen, hvic,
                hv⟩⟩
              obtain ⟨-, -, hdisj⟩ := List.nodup_append.1 (hnd.sublist hpre.sublist)
              exact hdisj v hv v (List.mem_singleton_self v) rfl
            · refine ih (h.select hv₀ hvic hv hlive hscan) ?_ ?_
              · rw [List.length_append, List.length_singleton]
                omega
              · rw [List.length_append, List.length_singleton, (sameShape_touch t v _).nodes_eq]
                omega

end InTurn

/-! ### The order of the selections -/

omit hv₀ in
open Classical in
/-- The nodes that can be selected, by their turns. -/
noncomputable def selectionOrder (t : RadixTree) (tierOf : BlockId → Option Tier)
    (isPinned : Option (BlockId → Bool)) : List Addr :=
  (t.nodes.values.filter fun x => t.Selectable tierOf isPinned x).mergeSort
    fun x y => decide (t.turn x ≤ t.turn y)

omit hv₀ in
theorem mem_selectionOrder {x : Addr} :
    x ∈ t₀.selectionOrder tierOf isPinned ↔ t₀.Selectable tierOf isPinned x := by
  classical
  rw [selectionOrder, (List.mergeSort_perm _ _).mem_iff, List.mem_filter, decide_eq_true_eq]
  exact and_iff_right_of_imp fun h => h.mem

omit hv₀ in
theorem pairwise_selectionOrder :
    (t₀.selectionOrder tierOf isPinned).Pairwise fun x y => t₀.turn x ≤ t₀.turn y := by
  classical
  have hsorted := @List.pairwise_mergeSort _ (fun x y => decide (t₀.turn x ≤ t₀.turn y))
    (fun a b c hab hbc => decide_eq_true ((of_decide_eq_true hab).trans (of_decide_eq_true hbc)))
    (fun a b => by simpa using le_total (t₀.turn a) (t₀.turn b))
    (t₀.nodes.values.filter fun x => t₀.Selectable tierOf isPinned x)
  exact hsorted.imp fun h => of_decide_eq_true h

theorem nodup_selectionOrder : (t₀.selectionOrder tierOf isPinned).Nodup := by
  rw [selectionOrder, (List.mergeSort_perm _ _).nodup_iff]
  exact hv₀.wf.values_nodup.filter _

/-- Selectable nodes have different turns. -/
theorem Selectable.eq_of_turn_eq {x y : Addr} (hx : t₀.Selectable tierOf isPinned x)
    (hy : t₀.Selectable tierOf isPinned y) (heq : t₀.turn x = t₀.turn y) : x = y := by
  obtain ⟨d, hd, hxd, hxturn⟩ := exists_turn_eq hx.mem
  obtain ⟨e, -, hye, hyturn⟩ := exists_turn_eq hy.mem
  have hde : d = e := key_inj hd (by rw [← hxturn, ← hyturn, heq])
  exact hx.eq_of_descends hv₀ hy hxd (hde ▸ hye)

/-- What has been selected in turn is the beginning of the order. -/
theorem InTurn.prefix_order {clock : ℕ → Time}
    (h : InTurn t₀ full tierOf isPinned clock t picks) :
    picks <+: t₀.selectionOrder tierOf isPinned := by
  let later := (t₀.selectionOrder tierOf isPinned).filter fun x => x ∉ picks
  have hlater : ∀ {y}, y ∈ later ↔ t₀.Selectable tierOf isPinned y ∧ y ∉ picks := by
    intro y
    rw [List.mem_filter, mem_selectionOrder, decide_eq_true_eq]
  have hperm : (picks ++ later).Perm (t₀.selectionOrder tierOf isPinned) := by
    refine (List.perm_ext_iff_of_nodup ?_ (nodup_selectionOrder hv₀)).2 fun x => ?_
    · refine List.nodup_append.2 ⟨h.nodup, (nodup_selectionOrder hv₀).filter _, ?_⟩
      rintro x hx y hy rfl
      exact (hlater.1 hy).2 hx
    · rw [List.mem_append, hlater, mem_selectionOrder]
      refine ⟨fun hx => hx.elim (h.selectable x) And.left, fun hx => ?_⟩
      by_cases hxp : x ∈ picks
      · exact Or.inl hxp
      · exact Or.inr ⟨hx, hxp⟩
  have hsorted : (picks ++ later).Pairwise fun x y => t₀.turn x ≤ t₀.turn y := by
    refine List.pairwise_append.2 ⟨h.ordered.imp le_of_lt, pairwise_selectionOrder.filter _, ?_⟩
    intro x hx y hy
    obtain ⟨hy, hyp⟩ := hlater.1 hy
    exact (h.first x hx y hy hyp).le
  have heq : picks ++ later = t₀.selectionOrder tierOf isPinned := by
    refine List.Perm.eq_of_pairwise (fun x y hx hy hxy hyx => ?_) hsorted pairwise_selectionOrder
      hperm
    exact (mem_selectionOrder.1 (hperm.subset hx)).eq_of_turn_eq hv₀ (mem_selectionOrder.1 hy)
      (le_antisymm hxy hyx)
  exact heq ▸ List.prefix_append _ _

end Scan

/-! ### When the selected nodes are distinct -/

/-- The call returns the blocks of distinct leaves, none of them referenced or with a pinned block
and each with a live one, and it removes unreferenced nodes without a live block only. -/
def SelectsDistinct (t : RadixTree) (clock : ℕ → Time) (nNodes : ℕ)
    (tierOf : BlockId → Option Tier) (isPinned : Option (BlockId → Bool)) : Prop :=
  ∃ (picks : List Addr) (t' : RadixTree),
    (demoteLru clock nNodes (some tierOf) isPinned).run t =
      .ok (picks.map fun x => (t.node x).blockIds) t' ∧
    picks.Nodup ∧
    (∀ x ∈ picks, t'.Linked x ∧ x ≠ root ∧ (t'.node x).children.entries = [] ∧
      t.Free isPinned x ∧ ¬ t.AllDead tierOf x) ∧
    ∀ x, t.Linked x → ¬ t'.Linked x → (t.node x).refCount = 0 ∧ t.AllDead tierOf x

/-- Each of the first `nNodes` nodes of the order has its turn before the renewed access time of
every one before it. -/
def TurnsBeforeRenewed (t : RadixTree) (clock : ℕ → Time) (nNodes : ℕ) (order : List Addr) : Prop :=
  ∀ i j x y, i < j → j < nNodes → order[i]? = some x → order[j]? = some y →
    t.turn y < keyAt t.nodes.values (renewedTime (clock i)) x

section

variable {t t' : RadixTree} {full : Addr → List Token} {tierOf : BlockId → Option Tier}
  {isPinned : Option (BlockId → Bool)} {picks : List Addr} {clock : ℕ → Time} {nNodes : ℕ}

theorem length_le_selectionOrder {L : List Addr} (hnd : L.Nodup)
    (h : ∀ x ∈ L, t.Selectable tierOf isPinned x) :
    L.length ≤ (t.selectionOrder tierOf isPinned).length :=
  (hnd.subperm fun x hx => mem_selectionOrder.2 (h x hx)).length_le

/-- Every turn comes before renewed access times that lie after all access times of the tree. -/
theorem turnsBeforeRenewed_of_lt {order : List Addr} (horder : ∀ x ∈ order, x ∈ t.nodes.values)
    (h : ∀ i, ∀ d ∈ t.nodes.values, (t.node d).lastAccessTime < renewedTime (clock i)) :
    t.TurnsBeforeRenewed clock nNodes order := by
  intro i j x y _ _ _ hy
  obtain ⟨d, hd, -, hturn⟩ := exists_turn_eq (horder y (List.mem_of_getElem? hy))
  rw [hturn]
  exact Prod.Lex.toLex_lt_toLex.2 (Or.inl (h i d hd))

/-- After a scan in turn. -/
theorem InTurn.condition {A : PathTrie Token BlockId} (hv : t.forgetRefs.View full A)
    (h : InTurn t full tierOf isPinned clock t' picks)
    (hend : picks.length = nNodes ∨ t'.lruVictim isPinned = none) :
    t.selectionOrder tierOf isPinned = [] ∨
      nNodes ≤ (t.selectionOrder tierOf isPinned).length ∧
        t.TurnsBeforeRenewed clock nNodes (t.selectionOrder tierOf isPinned) := by
  refine or_iff_not_imp_left.2 fun hne => ?_
  obtain ⟨y, hy⟩ := List.exists_mem_of_ne_nil _ hne
  have hlen : picks.length = nNodes := by
    refine hend.resolve_right fun hnone => ?_
    -- a node that can be selected leaves a candidate
    obtain ⟨e, he, hcand, -⟩ := h.scanned.exists_candidate hv (mem_selectionOrder.1 hy)
    rw [lruVictim, List.argmin_eq_none] at hnone
    have hmem := List.mem_filter.2 ⟨he, hcand⟩
    rw [hnone] at hmem
    simp at hmem
  obtain ⟨later, horder⟩ := h.prefix_order hv
  refine ⟨?_, fun i j x y hij hj hx hy => ?_⟩
  · rw [← horder, List.length_append]
    omega
  rw [← horder, List.getElem?_append_left (by omega)] at hx hy
  have hlt : t.turn x < t.turn y := by
    obtain ⟨hi, rfl⟩ := List.getElem?_eq_some_iff.1 hx
    obtain ⟨hj, rfl⟩ := List.getElem?_eq_some_iff.1 hy
    exact List.pairwise_iff_getElem.1 h.ordered i j hi hj hij
  have hyp := List.mem_of_getElem? hy
  obtain ⟨hyv, hleaf, -⟩ := h.scanned.picked y hyp
  have hysel := h.selectable y hyp
  obtain ⟨d, hd, hyd, hturn⟩ := exists_turn_eq hysel.mem
  have hor : d ∉ t'.nodes.values ∨ d ∈ picks := by
    refine or_iff_not_imp_left.2 fun hmem => ?_
    have hpre := ((descends_iff_below hv hysel.mem).1 hyd).2
    rwa [(h.scanned.below_leaf_iff hyv hleaf (not_not.1 hmem)).1 hpre]
  have hnot : ¬ t.Descends x d := fun hxd => by
    rw [(h.selectable x (List.mem_of_getElem? hx)).eq_of_descends hv hysel hxd hyd] at hlt
    exact lt_irrefl _ hlt
  rw [hturn] at hlt ⊢
  exact (h.renewed i x hx d hd hor hnot).resolve_right hlt.asymm

/-- Under the condition no node is selected again. -/
theorem InTurn.not_mem_of_condition {A : PathTrie Token BlockId} (hv : t.forgetRefs.View full A)
    (h : InTurn t full tierOf isPinned clock t' picks) {v : Addr}
    (hcond : t.selectionOrder tierOf isPinned = [] ∨
      nNodes ≤ (t.selectionOrder tierOf isPinned).length ∧
        t.TurnsBeforeRenewed clock nNodes (t.selectionOrder tierOf isPinned))
    (hlen : picks.length < nNodes) (hvic : t'.lruVictim isPinned = some v) : v ∉ picks := by
  intro hmem
  have hpre := h.prefix_order hv
  rcases hcond with hnil | ⟨hle, hbefore⟩
  · rw [hnil, List.prefix_nil] at hpre
    rw [hpre] at hmem
    simp at hmem
  obtain ⟨i, hi⟩ := List.mem_iff_getElem?.1 hmem
  obtain ⟨hilt, -⟩ := List.getElem?_eq_some_iff.1 hi
  -- the next node of the order leaves a candidate that has not been selected
  obtain ⟨y, hy⟩ : ∃ y, (t.selectionOrder tierOf isPinned)[picks.length]? = some y :=
    ⟨_, List.getElem?_eq_getElem (by omega)⟩
  obtain ⟨later, horder⟩ := hpre
  have hlate : y ∉ picks := by
    have hnd : (t.selectionOrder tierOf isPinned).Nodup := nodup_selectionOrder hv
    rw [← horder] at hnd hy
    rw [List.getElem?_append_right (le_refl _)] at hy
    exact fun hyp => (List.nodup_append.1 hnd).2.2 y hyp y (List.mem_of_getElem? hy) rfl
  have hysel := mem_selectionOrder.1 (List.mem_of_getElem? hy)
  obtain ⟨e, he, hcand, hye, hdead⟩ := h.scanned.exists_candidate hv hysel
  have hep : e ∉ picks := fun hep => hdead.elim (fun heq => hlate (heq ▸ hep))
    (h.selectable e hep).live
  have hle := h.scanned.victim_le hv hvic he hcand
  rw [h.time_new i v hi, h.time_old e he hep] at hle
  have hvorder : (t.selectionOrder tierOf isPinned)[i]? = some v := by
    rw [← horder, List.getElem?_append_left hilt, hi]
  have hlt := hbefore i picks.length v y hilt hlen hvorder hy
  exact (hle.trans (key_le_turn (h.scanned.sublist.subset he) hye)).not_gt hlt

/-- What the call has done when the nodes are distinct. -/
theorem Scanned.selectsDistinct (h : Scanned t full tierOf isPinned t' picks) (ht : t.Sound)
    (hrun : (demoteLru clock nNodes (some tierOf) isPinned).run t =
      .ok (picks.map fun x => (t.node x).blockIds) t') (hnd : picks.Nodup) :
    t.SelectsDistinct clock nNodes tierOf isPinned := by
  obtain ⟨A, hv⟩ := h.view
  have hlinked : ∀ x, t'.Linked x ↔ t'.Member x := fun x =>
    linked_forgetRefs.symm.trans hv.wf.linked_iff
  refine ⟨picks, t', hrun, hnd, fun x hx => ?_, fun x hx hgone => ?_⟩
  · obtain ⟨hxv, hleaf, hfree, hlive⟩ := h.picked x hx
    exact ⟨(hlinked x).2 (Or.inr hxv), (ht.mem_values_iff.1 (h.sublist.subset hxv)).2, hleaf, hfree,
      hlive⟩
  · rw [hlinked, Member, not_or] at hgone
    obtain ⟨hfree, hdead, -⟩ := h.gone x (ht.mem_values_iff.2 ⟨hx, hgone.1⟩) hgone.2
    exact ⟨hfree.1, hdead⟩

/-- The nodes are as different as their blocks. -/
theorem Scanned.nodup_of_map (h : Scanned t full tierOf isPinned t' picks) (ht : t.Sound)
    {picks₂ : List Addr}
    (hmap : (picks.map fun x => (t.node x).blockIds) = picks₂.map fun x => (t.node x).blockIds)
    (hnd : picks₂.Nodup) (hmem : ∀ x ∈ picks₂, t'.Linked x ∧ x ≠ root) : picks.Nodup := by
  obtain ⟨A, hv⟩ := h.view
  have hlinked : ∀ x ∈ picks₂, t.Linked x ∧ x ≠ root := by
    intro x hx
    obtain ⟨hl, hne⟩ := hmem x hx
    have hxv := (hv.wf.linked_iff.1 (linked_forgetRefs.2 hl)).resolve_left hne
    exact ht.mem_values_iff.1 (h.sublist.subset hxv)
  refine List.Nodup.of_map (fun x => (t.node x).blockIds) ?_
  rw [hmap]
  refine hnd.map_on fun x hx y hy heq => ?_
  by_contra hne
  obtain ⟨hxl, hxroot⟩ := hlinked x hx
  obtain ⟨hyl, -⟩ := hlinked y hy
  obtain ⟨b, hb⟩ := List.exists_mem_of_ne_nil _ (ht.blockIds_ne_nil hxl hxroot)
  exact ht.consistent.disjoint x y hxl hyl hne b hb (heq ▸ hb)

/-- Distinct nodes are at most as many as there are. -/
theorem SelectsDistinct.length_le (ht : t.Sound) {tierOf : BlockId → Option Tier}
    (h : t.SelectsDistinct clock nNodes tierOf isPinned) :
    ∃ ids, (demoteLru clock nNodes (some tierOf) isPinned).run' t = some ids ∧
      ids.length ≤ t.nodes.values.length := by
  obtain ⟨picks, t', hrun, hnd, hsel, -⟩ := h
  obtain ⟨full, A, hv, -⟩ := ht.exists_view_forgetRefs
  have hstart : Scanned t full tierOf isPinned t [] := .refl hv
  obtain ⟨picks', t₂, hrun₂, -, hscan⟩ :=
    hstart.run clock nNodes (t.nodes.entries.length + nNodes + 1)
  have hstate : (demoteLru clock nNodes (some tierOf) isPinned).run t =
      .ok (picks'.map fun x => (t.node x).blockIds) t₂ := hrun₂
  rw [hrun, EStateM.Result.ok.injEq] at hstate
  obtain ⟨-, rfl⟩ := hstate
  refine ⟨_, EStateM.run'_eq_some hrun, ?_⟩
  rw [List.length_map]
  refine (hnd.subperm fun x hx => ?_).length_le
  obtain ⟨A', hv'⟩ := hscan.view
  obtain ⟨hl, hne, -⟩ := hsel x hx
  exact hscan.sublist.subset ((hv'.wf.linked_iff.1 (linked_forgetRefs.2 hl)).resolve_left hne)

end

/-- **When the selected nodes are distinct**: nothing can be selected, or there are as many nodes as
are asked for and the turn of each comes before the renewed access times of those before it. -/
theorem demoteLru_selectsDistinct_iff {t : RadixTree} (ht : t.Sound) (clock : ℕ → Time)
    (nNodes : ℕ) (tierOf : BlockId → Option Tier) (isPinned : Option (BlockId → Bool)) :
    t.SelectsDistinct clock nNodes tierOf isPinned ↔
      t.selectionOrder tierOf isPinned = [] ∨
        nNodes ≤ (t.selectionOrder tierOf isPinned).length ∧
          t.TurnsBeforeRenewed clock nNodes (t.selectionOrder tierOf isPinned) := by
  obtain ⟨full, A, hv, -⟩ := ht.exists_view_forgetRefs
  have hstart : InTurn t full tierOf isPinned clock t [] := .start hv
  obtain ⟨picks, t', hrun, hscan, hcourse⟩ := InTurn.run hv nNodes
    (t.nodes.entries.length + nNodes + 1) hstart (Nat.zero_le _) (by simp)
  have hcall : (demoteLru clock nNodes (some tierOf) isPinned).run t =
      .ok (picks.map fun x => (t.node x).blockIds) t' := hrun
  constructor
  · rintro ⟨picks₂, t₂, hrun₂, hnd, hsel, -⟩
    rw [hcall, EStateM.Result.ok.injEq] at hrun₂
    obtain ⟨hmap, rfl⟩ := hrun₂
    rcases hcourse with ⟨hturn, hend⟩ | ⟨htwice, -⟩
    · exact hturn.condition hv hend
    · have hlinked : ∀ x ∈ picks₂, t'.Linked x ∧ x ≠ root := fun x hx =>
        ⟨(hsel x hx).1, (hsel x hx).2.1⟩
      exact absurd (hscan.nodup_of_map ht hmap hnd hlinked) htwice
  · intro hcond
    rcases hcourse with ⟨hturn, -⟩ | ⟨-, t₁, picks₁, v, hturn, hlen, hvic, hmem⟩
    · exact hscan.selectsDistinct ht hcall hturn.nodup
    · exact absurd hmem (hturn.not_mem_of_condition hv hcond hlen hvic)

/-- The prompts `[5, 6, 7]`, `[5, 6, 8]` and `[9, 1]` inserted in turn, in blocks of two tokens. -/
def threeLeaves : RadixTree × ℕ :=
  [TreeCall.insert 1 [5, 6, 7], .insert 2 [5, 6, 8], .insert 3 [9, 1]].foldl
    (fun s call => ((call.run mintCounter).run s).state) (RadixTree.init 2, 0)

theorem threeLeaves_sound : threeLeaves.1.Sound := by
  obtain ⟨-, A, ho⟩ := (Reachable.call (.insert 3 [9, 1]) (.call (.insert 2 [5, 6, 8])
    (.call (.insert 1 [5, 6, 7]) (@Reachable.init _ mintCounter (fun k b => b < k) 2 0) trivial)
      trivial) trivial).owns mintsFresh_mintCounter
  obtain ⟨full, hv⟩ := ho.view
  exact hv.sound ho.distinct

/-- The last leaf is freed and the clock is so late that it absorbs the step; the other two leaves
are selected, each once. -/
theorem demoteLru_selectsDistinct_two :
    threeLeaves.1.SelectsDistinct (fun _ => 16777216) 2
      (fun b => if b = 3 then none else some .gpu) none := by
  refine (demoteLru_selectsDistinct_iff threeLeaves_sound _ 2 _ none).2 (Or.inr ⟨?_, ?_⟩)
  · have hleaves : ∀ x ∈ [1, 3], x ∈ threeLeaves.1.nodes.values ∧
        threeLeaves.1.isCandidate none x = true ∧
        ¬ ∀ b ∈ (threeLeaves.1.node x).blockIds, (if b = 3 then none else some Tier.gpu) = none := by
      decide +kernel
    refine length_le_selectionOrder (L := [1, 3]) (by decide) fun x hx => ?_
    obtain ⟨hmem, hcand, hlive⟩ := hleaves x hx
    exact .of_candidate hmem hcand hlive
  · refine turnsBeforeRenewed_of_lt (fun x hx => (mem_selectionOrder.1 hx).mem) fun _ => ?_
    decide +kernel

/-- One leaf, asked for two: its blocks are returned twice. -/
theorem demoteLru_selects_twice : ∃ t : RadixTree, t.Sound ∧ t.Unreferenced ∧
    t.nodes.keys = [0] ∧
    (demoteLru (fun _ => 1) 2 (some fun _ => some .gpu) none).run' t = some [[0], [0]] ∧
    ¬ t.SelectsDistinct (fun _ => 1) 2 (fun _ => some .gpu) none := by
  have hreach := Reachable.call (.insert 0 [5])
    (@Reachable.init _ mintCounter (fun k b => b < k) 2 0) trivial
  obtain ⟨-, A, ho⟩ := hreach.owns mintsFresh_mintCounter
  obtain ⟨full, hv⟩ := ho.view
  have ht := hv.sound ho.distinct
  refine ⟨_, ht, hv.unreferenced, by decide +kernel, by decide +kernel, fun hsel => ?_⟩
  obtain ⟨ids, hids, hle⟩ := hsel.length_le ht
  have htwo : (demoteLru (fun _ => 1) 2 (some fun _ => some .gpu) none).run'
      (((TreeCall.insert 0 [5]).run mintCounter).run (RadixTree.init 2, 0)).state.1 =
        some [[0], [0]] := by decide +kernel
  rw [htwo, Option.some_inj] at hids
  rw [← hids] at hle
  exact absurd hle (by decide +kernel)

end RadixTree

end NanoKVRouter
