/-
**What a prefix tree built by insertions matches.**

An insertion can put a node inside an edge, and only a node ends a match.  The nodes of a tree built
from an empty one are the inserted sequences and the common prefixes of two of them: the boundaries.
So the tree matches the longest boundary that starts a query, whatever the order of the insertions.

Main definitions:

* `RadixTree.Boundary` — the inserted sequences and their common prefixes;
* `RadixTree.longestBoundary` — the length of the longest boundary that starts a query;
* `RadixTree.insertAll` — insert sequences one after another.

Main results:

* `RadixTree.insertAll_boundaries` — the nodes of the tree are the boundaries;
* `RadixTree.insertAll_matches` — **the tree matches the longest boundary**, in any order of the
  insertions.
-/

import NanoKVRouter.RadixTreeCalls

set_option relaxedAutoImplicit false
set_option autoImplicit false

namespace NanoKVRouter

namespace RadixTree

/-! ### Boundaries -/

/-- The non-empty sequences that are inserted or the common prefix of two inserted ones. -/
def Boundary (S : List (List Token)) (l : List Token) : Prop :=
  l ≠ [] ∧ (l ∈ S ∨ ∃ x ∈ S, ∃ y ∈ S, x ≠ y ∧ l = lcp x y)

instance (S : List (List Token)) : DecidablePred (Boundary S) := fun l =>
  inferInstanceAs (Decidable (l ≠ [] ∧ (l ∈ S ∨ ∃ x ∈ S, ∃ y ∈ S, x ≠ y ∧ l = lcp x y)))

/-- The length of the longest boundary that starts the query, and zero if there is none. -/
def longestBoundary (S : List (List Token)) (query : List Token) : ℕ :=
  Nat.findGreatest (fun n => Boundary S (query.take n)) query.length

theorem Boundary.mono {S S' : List (List Token)} (h : ∀ l ∈ S, l ∈ S') {l : List Token}
    (hl : Boundary S l) : Boundary S' l := by
  obtain ⟨hne, hl | ⟨x, hx, y, hy, hxy, heq⟩⟩ := hl
  · exact ⟨hne, Or.inl (h l hl)⟩
  · exact ⟨hne, Or.inr ⟨x, h x hx, y, h y hy, hxy, heq⟩⟩

/-- The boundaries do not depend on the order or on repetitions. -/
theorem boundary_congr {S S' : List (List Token)} (h : ∀ l, l ∈ S ↔ l ∈ S') (l : List Token) :
    Boundary S l ↔ Boundary S' l :=
  ⟨.mono fun l => (h l).1, .mono fun l => (h l).2⟩

theorem longestBoundary_congr {S S' : List (List Token)} (h : ∀ l, l ∈ S ↔ l ∈ S')
    (query : List Token) : longestBoundary S query = longestBoundary S' query := by
  simp only [longestBoundary, boundary_congr h]

/-- An inserted sequence is its own longest boundary. -/
theorem longestBoundary_mem {S : List (List Token)} {T : List Token} (hT : T ∈ S) (hne : T ≠ []) :
    longestBoundary S T = T.length := by
  refine le_antisymm (Nat.findGreatest_le _) (Nat.le_findGreatest le_rfl ?_)
  rw [List.take_length]
  exact ⟨hne, Or.inl hT⟩

theorem lcp_self (a : List Token) : lcp a a = a :=
  (eq_lcp fun x => by rw [and_self]).symm

/-- Of three common prefixes the shortest occurs twice. -/
theorem lcp_lcp (T x y : List Token) : lcp T (lcp x y) = lcp T x ∨ lcp T (lcp x y) = lcp T y := by
  rcases List.prefix_or_prefix_of_prefix (lcp_isPrefix_left T x) (lcp_isPrefix_left T y) with h | h
  · left
    refine (eq_lcp fun z => ?_).symm
    rw [isPrefix_lcp_iff, isPrefix_lcp_iff]
    refine ⟨fun ⟨h1, h2⟩ => ⟨h1, h2, ?_⟩, fun ⟨h1, h2, _⟩ => ⟨h1, h2⟩⟩
    exact ((isPrefix_lcp_iff.2 ⟨h1, h2⟩).trans h).trans (lcp_isPrefix_right T y)
  · right
    refine (eq_lcp fun z => ?_).symm
    rw [isPrefix_lcp_iff, isPrefix_lcp_iff]
    refine ⟨fun ⟨h1, h2⟩ => ⟨h1, ?_, h2⟩, fun ⟨h1, _, h2⟩ => ⟨h1, h2⟩⟩
    exact ((isPrefix_lcp_iff.2 ⟨h1, h2⟩).trans h).trans (lcp_isPrefix_right T x)

/-- The common prefix of a new sequence and a boundary is a boundary. -/
theorem boundary_lcp {S : List (List Token)} {T w : List Token} (hw : Boundary S w)
    (hne : lcp T w ≠ []) : Boundary (S ++ [T]) (lcp T w) := by
  have hT : T ∈ S ++ [T] := List.mem_append_right _ List.mem_cons_self
  have hmem : ∀ x ∈ S, lcp T x ≠ [] → Boundary (S ++ [T]) (lcp T x) := by
    intro x hx hne
    by_cases hTx : T = x
    · subst hTx
      rw [lcp_self] at hne ⊢
      exact ⟨hne, Or.inl hT⟩
    · exact ⟨hne, Or.inr ⟨T, hT, x, List.mem_append_left _ hx, hTx, rfl⟩⟩
  obtain ⟨-, hw | ⟨x, hx, y, hy, -, rfl⟩⟩ := hw
  · exact hmem w hw hne
  · rcases lcp_lcp T x y with heq | heq
    · rw [heq] at hne ⊢
      exact hmem x hx hne
    · rw [heq] at hne ⊢
      exact hmem y hy hne

/-! ### Insertions one after another -/

section InsertAll

variable {π : Type} {mint : ℕ → Py π (List BlockId)} {used : π → BlockId → Prop}

/-- Insert sequences, each at its time. -/
def insertAll (mint : ℕ → Py π (List BlockId)) (calls : List (Time × List Token)) :
    Py (RadixTree × π) Unit :=
  calls.forM fun c => do let _ ← insert mint c.1 c.2

variable {t : RadixTree} {p : π} {A : PathTrie Token BlockId} {S : List (List Token)}

/-- An insertion that returns adds the boundaries of the new sequence. -/
theorem Adds.boundaries {α : Type} {T : List Token} {r : EStateM.Result PyErr (RadixTree × π) α}
    {A' : PathTrie Token BlockId} (h : Adds mint used t p A T r A') (hok : r.isOk = true)
    (hA : ∀ l, (A l).isSome ↔ Boundary S l) (hS : ∀ l ∈ S, l ≠ []) (hT : T ≠ []) (l : List Token) :
    (A' l).isSome ↔ Boundary (S ++ [T]) l := by
  obtain ⟨full, hv⟩ := h.owns.view
  constructor
  · intro hl
    have hne := hv.ne_nil_of_isSome hl
    rcases h.nodes l hl with hl | rfl | ⟨w, hw, rfl⟩
    · exact ((hA l).1 hl).mono fun x hx => List.mem_append_left _ hx
    · exact ⟨hne, Or.inl (List.mem_append_right _ List.mem_cons_self)⟩
    · exact boundary_lcp ((hA w).1 hw) hne
  · have hmem : ∀ x ∈ S ++ [T], (A' x).isSome := by
      intro x hx
      rcases List.mem_append.1 hx with hx | hx
      · exact h.keeps x ((hA x).2 ⟨hS x hx, Or.inl hx⟩)
      · rw [List.mem_singleton.1 hx]
        exact h.ends hok
    rintro ⟨hne, hl | ⟨x, hx, y, hy, -, rfl⟩⟩
    · exact hmem l hl
    · exact hv.isSome_lcp (hmem x hx) (hmem y hy) hne

/-- **The nodes of a tree built by insertions are the boundaries.** -/
theorem insertAll_boundaries (hm : MintsFresh mint used) (hok : ∀ n p, ((mint n).run p).isOk = true) :
    ∀ (calls : List (Time × List Token)) {t : RadixTree} {p : π} {A : PathTrie Token BlockId}
      {S : List (List Token)}, (∀ c ∈ calls, c.2 ≠ []) → (∀ l ∈ S, l ≠ []) → Owns (used p) t A →
      (∀ l, (A l).isSome ↔ Boundary S l) →
      ∃ t' q A', (insertAll mint calls).run (t, p) = .ok () (t', q) ∧ Owns (used q) t' A' ∧
        ∀ l, (A' l).isSome ↔ Boundary (S ++ calls.map Prod.snd) l := by
  intro calls
  induction calls with
  | nil =>
      intro t p A S _ _ ho hA
      exact ⟨t, p, A, rfl, ho, by simpa using hA⟩
  | cons c calls ih =>
      intro t p A S hcalls hS ho hA
      have hT := hcalls c List.mem_cons_self
      obtain ⟨A₁, ha⟩ := insert_adds ho hm c.1 hT
      cases hrun : (insert mint c.1 c.2).run (t, p) with
      | error e s =>
          -- only `mint` could have raised
          rw [hrun] at ha
          obtain ⟨n, q, he⟩ := ha.raises e rfl
          have := hok n q
          cases hmint : (mint n).run q with
          | ok ids r => rw [hmint] at he; simp [EStateM.Result.error?] at he
          | error e' r => rw [hmint] at this; simp [EStateM.Result.isOk] at this
      | ok bids s =>
          obtain ⟨t₁, q₁⟩ := s
          rw [hrun] at ha
          have hS' : ∀ l ∈ S ++ [c.2], l ≠ [] := by
            intro l hl
            rcases List.mem_append.1 hl with hl | hl
            · exact hS l hl
            · exact List.mem_singleton.1 hl ▸ hT
          obtain ⟨t', q, A', hrun', ho', hA'⟩ :=
            ih (fun c' hc' => hcalls c' (List.mem_cons_of_mem _ hc')) hS' ha.owns
              (ha.boundaries rfl hA hS hT)
          refine ⟨t', q, A', ?_, ho', fun l => ?_⟩
          · rw [insertAll, Py.run_forM_cons, EStateM.run_bind, EStateM.run_bind, hrun]
            exact hrun'
          · rw [hA' l, List.map_cons, List.append_assoc]
            rfl

end InsertAll

/-! ### Matching -/

/-- The token sequence on the way from the root to a node. -/
inductive Spells (t : RadixTree) : Addr → List Token → Prop
  | root : Spells t root []
  | child {p c : Addr} {tok : Token} {l : List Token} (hp : Spells t p l)
      (hc : (t.node p).children.get? tok = some c) : Spells t c (l ++ (t.node c).key)

/-- The node boundaries of the tree: the sequences that end at a node other than the root. -/
def NodeAt (t : RadixTree) (l : List Token) : Prop := ∃ a, a ≠ root ∧ t.Spells a l

theorem View.spells_iff {t : RadixTree} {full : Addr → List Token} {A : PathTrie Token BlockId}
    (h : t.View full A) {a : Addr} {l : List Token} : t.Spells a l ↔ t.Member a ∧ full a = l := by
  constructor
  · intro hs
    induction hs with
    | root => exact ⟨t.member_root, h.wf.full_root⟩
    | child _ hc ih =>
        obtain ⟨hp, rfl⟩ := ih
        obtain ⟨r, hr, hfull⟩ := h.wf.full_child hp hc
        exact ⟨h.wf.member_child hp hc, by rw [hfull, hr]⟩
  · rintro ⟨ha, rfl⟩
    have hlink := h.wf.linked_iff.2 ha
    clear ha
    induction hlink with
    | root => exact h.wf.full_root ▸ .root
    | child hp hc ih =>
        obtain ⟨r, hr, hfull⟩ := h.wf.full_child (h.wf.linked_iff.1 hp) hc
        rw [hfull, ← hr]
        exact .child ih hc

/-- The nodes of the tree are those of its trie. -/
theorem View.nodeAt_iff {t : RadixTree} {full : Addr → List Token} {A : PathTrie Token BlockId}
    (h : t.View full A) {l : List Token} : t.NodeAt l ↔ (A l).isSome := by
  constructor
  · rintro ⟨a, hne, hs⟩
    obtain ⟨ha, rfl⟩ := h.spells_iff.1 hs
    rw [h.apply_full (ha.resolve_left hne)]
    rfl
  · intro hl
    obtain ⟨a, ha, hfull⟩ := h.exists_addr hl
    exact ⟨a, fun heq => h.wf.root_notMem (heq ▸ ha), h.spells_iff.2 ⟨Or.inr ha, hfull⟩⟩

/-- A trie whose nodes are the boundaries matches the longest one. -/
theorem matched_eq_longestBoundary {A : PathTrie Token BlockId} {S : List (List Token)}
    (hA : ∀ l, (A l).isSome ↔ Boundary S l) (T : List Token) :
    A.matched T = longestBoundary S T := by
  refine PathTrie.matched_eq (Nat.findGreatest_le _) ?_ fun l hl hnode => ?_
  · rcases Nat.eq_zero_or_pos (longestBoundary S T) with h | h
    · exact Or.inl h
    · exact Or.inr ((hA _).2 (Nat.findGreatest_of_ne_zero rfl h.ne'))
  · refine Nat.le_findGreatest hl.length_le ?_
    rw [← List.prefix_iff_eq_take.1 hl]
    exact (hA l).1 hnode

/-- **The tree matches the longest boundary.**  Whatever the order of the insertions and their
repetitions, both matching methods find the longest inserted sequence or common prefix of two that
starts the query; the nodes are the boundaries; an inserted sequence is matched in full; and another
list of insertions of the same sequences gives the same. -/
theorem insertAll_matches {π : Type} {mint : ℕ → Py π (List BlockId)} {used : π → BlockId → Prop}
    (hm : MintsFresh mint used) (hok : ∀ n p, ((mint n).run p).isOk = true) (blockSize : ℕ)
    (calls : List (Time × List Token)) (hcalls : ∀ c ∈ calls, c.2 ≠ []) (p : π) :
    ∃ t q, (insertAll mint calls).run (init blockSize, p) = .ok () (t, q) ∧
      (∀ now query,
        (t.matchPrefix now query).1.1 = longestBoundary (calls.map Prod.snd) query ∧
        (t.matchPrefixPath now query).1.1 = longestBoundary (calls.map Prod.snd) query) ∧
      (∀ l, t.NodeAt l ↔ Boundary (calls.map Prod.snd) l) ∧
      (∀ now, ∀ c ∈ calls, (t.matchPrefix now c.2).1.1 = c.2.length ∧
        (t.matchPrefixPath now c.2).1.1 = c.2.length) ∧
      ∀ calls' p', (∀ l, l ∈ calls'.map Prod.snd ↔ l ∈ calls.map Prod.snd) →
        ∃ t' q', (insertAll mint calls').run (init blockSize, p') = .ok () (t', q') ∧
          (∀ now now' query, (t'.matchPrefix now' query).1.1 = (t.matchPrefix now query).1.1 ∧
            (t'.matchPrefixPath now' query).1.1 = (t.matchPrefixPath now query).1.1) ∧
          ∀ l, t'.NodeAt l ↔ t.NodeAt l := by
  have hbuild : ∀ (calls : List (Time × List Token)) (p : π), (∀ c ∈ calls, c.2 ≠ []) →
      ∃ t q, (insertAll mint calls).run (init blockSize, p) = .ok () (t, q) ∧
        (∀ now query,
          (t.matchPrefix now query).1.1 = longestBoundary (calls.map Prod.snd) query ∧
          (t.matchPrefixPath now query).1.1 = longestBoundary (calls.map Prod.snd) query) ∧
        ∀ l, t.NodeAt l ↔ Boundary (calls.map Prod.snd) l := by
    intro calls p hcalls
    obtain ⟨full, hv⟩ := (@repr_init (max 1 blockSize) (le_max_left _ _)).2
    have hinit : init (max 1 blockSize) = init blockSize := by
      simp [init]
    rw [hinit] at hv
    obtain ⟨t, q, A, hrun, ho, hA⟩ := insertAll_boundaries hm hok calls (p := p) (S := []) hcalls
      (by simp) ⟨⟨full, hv⟩, PathTrie.distinct_empty, by simp [PathTrie.items]⟩
      (by simp [Boundary])
    obtain ⟨full', hv'⟩ := ho.view
    rw [List.nil_append] at hA
    refine ⟨t, q, hrun, fun now query => ?_, fun l => hv'.nodeAt_iff.trans (hA l)⟩
    obtain ⟨t', -, hmatch⟩ := hv'.matchPrefixPath_eq now query
    rw [(matchPrefix_eq t now query).1, hmatch]
    exact ⟨matched_eq_longestBoundary hA query, matched_eq_longestBoundary hA query⟩
  obtain ⟨t, q, hrun, hmatch, hnodes⟩ := hbuild calls p hcalls
  refine ⟨t, q, hrun, hmatch, hnodes, fun now c hc => ?_, fun calls' p' hsame => ?_⟩
  · rw [(hmatch now c.2).1, (hmatch now c.2).2,
      longestBoundary_mem (List.mem_map_of_mem hc) (hcalls c hc)]
    exact ⟨rfl, rfl⟩
  · have hcalls' : ∀ c ∈ calls', c.2 ≠ [] := by
      intro c hc
      obtain ⟨c₀, hc₀, heq⟩ := List.mem_map.1 ((hsame c.2).1 (List.mem_map_of_mem hc))
      exact heq ▸ hcalls c₀ hc₀
    obtain ⟨t', q', hrun', hmatch', hnodes'⟩ := hbuild calls' p' hcalls'
    refine ⟨t', q', hrun', fun now now' query => ?_, fun l => ?_⟩
    · rw [(hmatch now query).1, (hmatch now query).2, (hmatch' now' query).1,
        (hmatch' now' query).2, longestBoundary_congr hsame]
      exact ⟨rfl, rfl⟩
    · rw [hnodes', hnodes, boundary_congr hsame]

theorem insertAll_matches_three :
    ∃ t q, (insertAll mintCounter [(0, [1, 2, 3]), (1, [1, 2, 4]), (2, [1, 2, 3])]).run
        (init 2, 0) = .ok () (t, q) ∧
      (t.matchPrefix 3 [1, 2, 5]).1.1 = 2 ∧ t.NodeAt [1, 2] ∧ ¬ t.NodeAt [1] := by
  obtain ⟨t, q, hrun, hmatch, hnodes, -⟩ := insertAll_matches mintsFresh_mintCounter
    (fun _ _ => rfl) 2 [(0, [1, 2, 3]), (1, [1, 2, 4]), (2, [1, 2, 3])] (by decide) 0
  refine ⟨t, q, hrun, ?_, (hnodes _).2 (by decide), fun h => ?_⟩
  · rw [(hmatch 3 [1, 2, 5]).1]
    decide
  · exact absurd ((hnodes _).1 h) (by decide)

end RadixTree

end NanoKVRouter
