/-
**Tries seen as maps from paths.**

A prefix tree whose nodes carry lists of items is determined by the partial map that sends the full
path of a node to its items.  What a walk along a path collects, and what growing and pruning the
tree change about it, are facts about that map alone: they mention neither edges nor pointers.

Main definitions:

* `PathTrie` — the map; `PathTrie.items` — the items at a path;
* `PathTrie.below`, `PathTrie.path` — the items of the nodes a walk passes;
* `PathTrie.matched` — the length of the longest prefix that ends at a node;
* `PathTrie.put`, `PathTrie.split`, `PathTrie.prune` — adding a leaf, splitting an edge, removing
  a node with all that is below it;
* `PathTrie.KeepsHeads` — an update that leaves the first items of walks the first.

Main results:

* `PathTrie.mem_path` — a walk collects the items of the nodes at its prefixes;
* `PathTrie.path_split_at` — **a walk through a node**: what is above it, its own items, and what
  is below;
* `PathTrie.Distinct.path_nodup` — where no item occurs twice, a walk collects none twice;
* `PathTrie.path_put`, `PathTrie.path_split_end`, `PathTrie.path_split_through`,
  `PathTrie.path_prune` — the walks after an update;
* `PathTrie.KeepsHeads.split_fresh` — **new items in the middle of an edge** leave alone what ends
  at the split point.
-/

import Mathlib.Data.List.Infix
import Mathlib.Data.List.Nodup
import Mathlib.Data.Nat.Find

set_option relaxedAutoImplicit false
set_option autoImplicit false

/-- A trie: the items of the node at a path, if there is one. -/
abbrev PathTrie (τ β : Type) : Type := List τ → Option (List β)

namespace PathTrie

variable {τ β : Type}

/-- The items at a path; none where there is no node. -/
def items (A : PathTrie τ β) (l : List τ) : List β := (A l).getD []

theorem items_of_eq {A : PathTrie τ β} {l : List τ} {bs : List β} (h : A l = some bs) :
    A.items l = bs := by
  rw [items, h]
  rfl

theorem items_of_none {A : PathTrie τ β} {l : List τ} (h : A l = none) : A.items l = [] := by
  rw [items, h]
  rfl

/-- Only nodes have items. -/
theorem exists_of_mem_items {A : PathTrie τ β} {l : List τ} {b : β} (h : b ∈ A.items l) :
    ∃ bs, A l = some bs ∧ b ∈ bs := by
  cases hl : A l with
  | none => rw [items_of_none hl] at h; simp at h
  | some bs => exact ⟨bs, rfl, by rwa [items_of_eq hl] at h⟩

/-! ### Walks -/

/-- The items of the nodes strictly below `x`, down to `x ++ y`. -/
def below (A : PathTrie τ β) : List τ → List τ → List β
  | _, [] => []
  | x, t :: y => A.items (x ++ [t]) ++ below A (x ++ [t]) y

/-- The items of the nodes at the non-empty prefixes of a path. -/
def path (A : PathTrie τ β) (T : List τ) : List β := A.below [] T

@[simp] theorem below_nil (A : PathTrie τ β) (x : List τ) : A.below x [] = [] := rfl

@[simp] theorem path_nil (A : PathTrie τ β) : A.path [] = [] := rfl

theorem below_append (A : PathTrie τ β) (x y z : List τ) :
    A.below x (y ++ z) = A.below x y ++ A.below (x ++ y) z := by
  induction y generalizing x with
  | nil => simp
  | cons t y ih => simp [below, ih]

theorem path_append (A : PathTrie τ β) (x y : List τ) :
    A.path (x ++ y) = A.path x ++ A.below x y := by
  simpa only [path, List.nil_append] using A.below_append [] x y

theorem path_prefix (A : PathTrie τ β) {x y : List τ} (h : x <+: y) : A.path x <+: A.path y := by
  obtain ⟨z, rfl⟩ := h
  rw [path_append]
  exact List.prefix_append _ _

theorem mem_below (A : PathTrie τ β) (x y : List τ) (b : β) :
    b ∈ A.below x y ↔ ∃ z, z ≠ [] ∧ z <+: y ∧ b ∈ A.items (x ++ z) := by
  induction y generalizing x with
  | nil => simp
  | cons t y ih =>
      simp only [below, List.mem_append, ih]
      constructor
      · rintro (h | ⟨z, -, hz, h⟩)
        · exact ⟨[t], by simp, by simp, h⟩
        · exact ⟨t :: z, by simp, by simpa using hz, by simpa using h⟩
      · rintro ⟨z, hne, hz, h⟩
        cases z with
        | nil => exact absurd rfl hne
        | cons s z =>
            obtain ⟨rfl, hz'⟩ := List.cons_prefix_cons.1 hz
            rcases eq_or_ne z [] with rfl | hzne
            · exact Or.inl h
            · exact Or.inr ⟨z, hzne, hz', by simpa using h⟩

/-- **A walk collects the items of the nodes at its prefixes.** -/
theorem mem_path {A : PathTrie τ β} {T : List τ} {b : β} :
    b ∈ A.path T ↔ ∃ l, l ≠ [] ∧ l <+: T ∧ b ∈ A.items l := by
  simpa only [path, List.nil_append] using A.mem_below [] T b

theorem below_congr {A A' : PathTrie τ β} {x y : List τ}
    (h : ∀ z, z ≠ [] → z <+: y → A' (x ++ z) = A (x ++ z)) : A'.below x y = A.below x y := by
  induction y generalizing x with
  | nil => rfl
  | cons t y ih =>
      have h1 : A' (x ++ [t]) = A (x ++ [t]) := h [t] (by simp) (by simp)
      have h2 : A'.below (x ++ [t]) y = A.below (x ++ [t]) y := by
        refine ih fun z _ hz => ?_
        simpa using h (t :: z) (by simp) (by simpa using hz)
      simp [below, items, h1, h2]

/-- A walk depends on the nodes at its prefixes only. -/
theorem path_congr {A A' : PathTrie τ β} {T : List τ}
    (h : ∀ l, l ≠ [] → l <+: T → A' l = A l) : A'.path T = A.path T :=
  below_congr (by simpa using h)

theorem below_eq_nil {A : PathTrie τ β} {x y : List τ}
    (h : ∀ z, z ≠ [] → z <+: y → A (x ++ z) = none) : A.below x y = [] := by
  induction y generalizing x with
  | nil => rfl
  | cons t y ih =>
      have h1 := items_of_none (h [t] (by simp) (by simp))
      have h2 : A.below (x ++ [t]) y = [] := by
        refine ih fun z _ hz => ?_
        simpa using h (t :: z) (by simp) (by simpa using hz)
      rw [below, h1, h2, List.append_nil]

/-- A walk that passes no node after `x` collects what the walk to `x` does. -/
theorem path_eq_of_no_node {A : PathTrie τ β} {x T : List τ} (hx : x <+: T)
    (h : ∀ l, x <+: l → l <+: T → l ≠ x → A l = none) : A.path T = A.path x := by
  obtain ⟨y, rfl⟩ := hx
  rw [path_append, below_eq_nil, List.append_nil]
  intro z hne hz
  refine h _ (List.prefix_append _ _) ((List.prefix_append_right_inj x).2 hz) ?_
  simpa using hne

theorem path_concat (A : PathTrie τ β) (x : List τ) (t : τ) :
    A.path (x ++ [t]) = A.path x ++ A.items (x ++ [t]) := by
  simp [path_append, below]

/-- The walk down to the place just above `l`. -/
def above (A : PathTrie τ β) (l : List τ) : List β := A.path l.dropLast

theorem path_eq_above (A : PathTrie τ β) {l : List τ} (hl : l ≠ []) :
    A.path l = A.above l ++ A.items l := by
  have h := A.path_concat l.dropLast (l.getLast hl)
  rwa [List.dropLast_append_getLast hl] at h

/-- **A walk through a node**: what is above it, its items, and what is below. -/
theorem path_split_at (A : PathTrie τ β) {l T : List τ} (hl : l ≠ []) (h : l <+: T) :
    A.path T = A.above l ++ A.items l ++ A.below l (T.drop l.length) := by
  obtain ⟨z, rfl⟩ := h
  rw [path_append, path_eq_above A hl, List.drop_left]

theorem mem_above {A : PathTrie τ β} {l : List τ} {b : β} :
    b ∈ A.above l ↔ ∃ x, x ≠ [] ∧ x <+: l ∧ x ≠ l ∧ b ∈ A.items x := by
  rw [above, mem_path]
  constructor
  · rintro ⟨x, hx, hp, hb⟩
    refine ⟨x, hx, hp.trans (List.dropLast_prefix l), ?_, hb⟩
    rintro rfl
    have := hp.length_le
    rw [List.length_dropLast] at this
    have := List.length_pos_of_ne_nil hx
    omega
  · rintro ⟨x, hx, hp, hne, hb⟩
    refine ⟨x, hx, ?_, hb⟩
    have hlt : x.length < l.length := by
      refine lt_of_le_of_ne hp.length_le fun h => hne (hp.eq_of_length h)
    refine List.prefix_of_prefix_length_le hp (List.dropLast_prefix l) ?_
    rw [List.length_dropLast]
    omega

/-- A walk that passes no node strictly between `x` and `z`. -/
theorem path_of_edge {A : PathTrie τ β} {x z : List τ} (hx : x <+: z) (hne : x ≠ z)
    (h : ∀ l, x <+: l → l <+: z → l ≠ x → l ≠ z → A l = none) :
    A.path z = A.path x ++ A.items z := by
  have hz : z ≠ [] := by
    rintro rfl
    exact hne (List.prefix_nil.1 hx)
  have hlt : x.length < z.length :=
    lt_of_le_of_ne hx.length_le fun h => hne (hx.eq_of_length h)
  have hxd : x <+: z.dropLast := by
    refine List.prefix_of_prefix_length_le hx (List.dropLast_prefix z) ?_
    rw [List.length_dropLast]
    omega
  rw [path_eq_above A hz, above, path_eq_of_no_node hxd]
  intro l hxl hl hlx
  refine h l hxl (hl.trans (List.dropLast_prefix z)) hlx ?_
  rintro rfl
  have h1 := hl.length_le
  rw [List.length_dropLast] at h1
  omega

/-! ### The longest match -/

/-- The length of the longest prefix of a path that ends at a node. -/
def matched (A : PathTrie τ β) (T : List τ) : ℕ :=
  Nat.findGreatest (fun n => (A (T.take n)).isSome) T.length

theorem matched_le (A : PathTrie τ β) (T : List τ) : A.matched T ≤ T.length :=
  Nat.findGreatest_le _

theorem le_matched {A : PathTrie τ β} {l T : List τ} (h : l <+: T) (hl : (A l).isSome) :
    l.length ≤ A.matched T := by
  refine Nat.le_findGreatest h.length_le ?_
  rwa [← List.prefix_iff_eq_take.1 h]

theorem isSome_take_matched {A : PathTrie τ β} {T : List τ} (h : A.matched T ≠ 0) :
    (A (T.take (A.matched T))).isSome := by
  have := Nat.findGreatest_of_ne_zero (P := fun n => (A (T.take n)).isSome) (n := T.length) rfl h
  exact this

/-- The match of a path is the position `n` if `n` is a node, or `0`, and no node lies beyond. -/
theorem matched_eq {A : PathTrie τ β} {T : List τ} {n : ℕ} (hn : n ≤ T.length)
    (hnode : n = 0 ∨ (A (T.take n)).isSome)
    (hmax : ∀ l, l <+: T → (A l).isSome → l.length ≤ n) : A.matched T = n := by
  refine le_antisymm ?_ ?_
  · rcases Nat.eq_zero_or_pos (A.matched T) with h | h
    · omega
    · have h1 := hmax _ (List.take_prefix _ _) (isSome_take_matched (Nat.pos_iff_ne_zero.1 h))
      rwa [List.length_take, Nat.min_eq_left (A.matched_le T)] at h1
  · rcases hnode with rfl | hnode
    · exact Nat.zero_le _
    · have h1 := le_matched (List.take_prefix n T) hnode
      rwa [List.length_take, Nat.min_eq_left hn] at h1

/-- A path is matched in full iff it ends at a node. -/
theorem matched_eq_length_iff {A : PathTrie τ β} {T : List τ} (hT : T ≠ []) :
    A.matched T = T.length ↔ (A T).isSome := by
  constructor
  · intro h
    have hpos := List.length_pos_of_ne_nil hT
    have h1 := isSome_take_matched (A := A) (T := T) (by omega)
    rwa [h, List.take_length] at h1
  · intro h
    exact le_antisymm (A.matched_le T) (le_matched (List.prefix_refl T) h)

theorem matched_mono (A : PathTrie τ β) {x T : List τ} (h : x <+: T) :
    A.matched x ≤ A.matched T := by
  rcases Nat.eq_zero_or_pos (A.matched x) with h0 | h0
  · omega
  · have h1 := isSome_take_matched (Nat.pos_iff_ne_zero.1 h0)
    have h2 := le_matched ((List.take_prefix _ _).trans h) h1
    rwa [List.length_take, Nat.min_eq_left (A.matched_le x)] at h2

/-- The match depends on the nodes at the prefixes only. -/
theorem matched_congr {A A' : PathTrie τ β} {T : List τ} (h : ∀ l, l <+: T → A' l = A l) :
    A'.matched T = A.matched T := by
  have heq : ∀ n, A' (T.take n) = A (T.take n) := fun n => h _ (List.take_prefix n T)
  simp only [matched, heq]

/-- Nothing is collected beyond the longest match. -/
theorem path_take_matched (A : PathTrie τ β) (T : List τ) :
    A.path (T.take (A.matched T)) = A.path T := by
  refine (path_eq_of_no_node (List.take_prefix _ _) ?_).symm
  intro l hx hT hne
  by_contra hnode
  have h1 := le_matched hT (Option.isSome_iff_ne_none.2 hnode)
  have h2 := hx.length_le
  rw [List.length_take, Nat.min_eq_left (A.matched_le T)] at h2
  refine hne (hx.eq_of_length ?_).symm
  rw [List.length_take, Nat.min_eq_left (A.matched_le T)]
  omega

/-! ### Updates -/

variable [DecidableEq τ]

/-- Add a node. -/
def put (A : PathTrie τ β) (l : List τ) (bs : List β) : PathTrie τ β :=
  Function.update A l (some bs)

/-- Split an edge at `y`: the items `m` go to a new node there, and `d` are what is left of the
items of `z`. -/
def split (A : PathTrie τ β) (y z : List τ) (m d : List β) : PathTrie τ β :=
  (A.put z d).put y m

/-- Remove a node with all that is below it. -/
def prune (A : PathTrie τ β) (l : List τ) : PathTrie τ β :=
  fun w => if l <+: w then none else A w

theorem put_self (A : PathTrie τ β) (l : List τ) (bs : List β) : A.put l bs l = some bs :=
  Function.update_self ..

theorem put_of_ne (A : PathTrie τ β) {l w : List τ} (bs : List β) (h : w ≠ l) :
    A.put l bs w = A w :=
  Function.update_of_ne h ..

theorem isSome_put_self (A : PathTrie τ β) (l : List τ) (bs : List β) :
    (A.put l bs l).isSome := by
  rw [put_self]
  rfl

/-- Adding a node loses none. -/
theorem isSome_put (A : PathTrie τ β) {l w : List τ} (bs : List β) (hw : (A w).isSome) :
    (A.put l bs w).isSome := by
  by_cases h : w = l
  · rw [h, put_self]
    rfl
  · rwa [put_of_ne A bs h]

theorem isSome_split (A : PathTrie τ β) {y z w : List τ} (m d : List β) (hw : (A w).isSome) :
    (A.split y z m d w).isSome :=
  isSome_put _ m (isSome_put A d hw)

theorem prune_of_prefix (A : PathTrie τ β) {l w : List τ} (h : l <+: w) : A.prune l w = none :=
  if_pos h

theorem prune_of_not_isPrefix (A : PathTrie τ β) {l w : List τ} (h : ¬ l <+: w) :
    A.prune l w = A w :=
  if_neg h

theorem items_put_self (A : PathTrie τ β) (l : List τ) (bs : List β) :
    (A.put l bs).items l = bs :=
  items_of_eq (A.put_self l bs)

theorem items_put_of_ne (A : PathTrie τ β) {l w : List τ} (bs : List β) (h : w ≠ l) :
    (A.put l bs).items w = A.items w := by
  rw [items, put_of_ne A bs h, items]

/-- A walk that avoids a node does not see it. -/
theorem path_put_of_not_isPrefix (A : PathTrie τ β) {l T : List τ} (bs : List β) (h : ¬ l <+: T) :
    (A.put l bs).path T = A.path T := by
  refine path_congr fun w _ hw => put_of_ne A bs ?_
  rintro rfl
  exact h hw

/-- **A walk through a new leaf** collects its items last. -/
theorem path_put {A : PathTrie τ β} {l T : List τ} (bs : List β) (hl : l ≠ []) (h : l <+: T)
    (hleaf : ∀ w, l <+: w → A w = none) : (A.put l bs).path T = A.path T ++ bs := by
  have h1 : (A.put l bs).path T = (A.put l bs).path l := by
    refine path_eq_of_no_node h fun w hw _ hne => ?_
    rw [put_of_ne A bs hne, hleaf w hw]
  have h2 : A.path T = A.path l := path_eq_of_no_node h fun w hw _ _ => hleaf w hw
  have h3 : (A.put l bs).above l = A.above l := by
    refine path_put_of_not_isPrefix A bs fun hp => ?_
    have := hp.length_le
    rw [List.length_dropLast] at this
    have := List.length_pos_of_ne_nil hl
    omega
  rw [h1, h2, path_eq_above _ hl, h3, items_put_self, path_eq_above A hl,
    items_of_none (hleaf l (List.prefix_refl l)), List.append_nil]

section Split

variable {A : PathTrie τ β} {y z : List τ} {m h d : List β}

theorem split_mid (A : PathTrie τ β) (y z : List τ) (m d : List β) :
    A.split y z m d y = some m := put_self ..

theorem split_end (A : PathTrie τ β) {y z : List τ} (m d : List β) (hne : y ≠ z) :
    A.split y z m d z = some d := by
  rw [split, put_of_ne _ _ (Ne.symm hne), put_self]

theorem split_of_ne (A : PathTrie τ β) {y z w : List τ} (m d : List β) (hy : w ≠ y) (hz : w ≠ z) :
    A.split y z m d w = A w := by
  rw [split, put_of_ne _ _ hy, put_of_ne _ _ hz]

/-- A walk that avoids the split point does not see it. -/
theorem path_split_of_not_isPrefix {T : List τ} (hyz : y <+: z) (hT : ¬ y <+: T) :
    (A.split y z m d).path T = A.path T := by
  refine path_congr fun w _ hw => split_of_ne A m d ?_ ?_
  · rintro rfl
    exact hT hw
  · rintro rfl
    exact hT (hyz.trans hw)

/-- **A walk that ends inside the split edge** now collects the items of its upper half. -/
theorem path_split_end {T : List τ} (hy : y ≠ []) (hyz : y <+: z)
    (hedge : ∀ w, (A w).isSome → y <+: w → z <+: w) (hyT : y <+: T) (hzT : ¬ z <+: T) :
    (A.split y z m d).path T = A.path T ++ m := by
  have hne : y ≠ z := by
    rintro rfl
    exact hzT hyT
  have hnone : ∀ w, y <+: w → w <+: T → A w = none := by
    intro w hw hwT
    by_contra hs
    exact hzT ((hedge w (Option.isSome_iff_ne_none.2 hs) hw).trans hwT)
  have h1 : (A.split y z m d).path T = (A.split y z m d).path y := by
    refine path_eq_of_no_node hyT fun w hw hwT hwy => ?_
    have hwz : w ≠ z := by
      rintro rfl
      exact hzT hwT
    rw [split_of_ne A m d hwy hwz, hnone w hw hwT]
  have h2 : A.path T = A.path y := path_eq_of_no_node hyT fun w hw hwT _ => hnone w hw hwT
  have h3 : (A.split y z m d).above y = A.above y := by
    refine path_split_of_not_isPrefix hyz fun hp => ?_
    have := hp.length_le
    rw [List.length_dropLast] at this
    have := List.length_pos_of_ne_nil hy
    omega
  rw [h1, h2, path_eq_above _ hy, h3, items_of_eq (split_mid A y z m d), path_eq_above A hy,
    items_of_none (hnone y (List.prefix_refl y) hyT), List.append_nil]

/-- **A walk through the split edge** collects the items of both halves where it collected those
of the edge. -/
theorem path_split_through {T : List τ} (hy : y ≠ []) (hyz : y <+: z) (hne : y ≠ z)
    (hedge : ∀ w, (A w).isSome → y <+: w → z <+: w) (hzT : z <+: T) :
    A.path T = A.path y ++ A.items z ++ A.below z (T.drop z.length) ∧
      (A.split y z m d).path T = A.path y ++ m ++ d ++ A.below z (T.drop z.length) := by
  have hz : z ≠ [] := by
    rintro rfl
    exact hy (List.prefix_nil.1 hyz)
  have hbetween : ∀ w, y <+: w → w <+: z → w ≠ z → A w = none := by
    intro w hw hwz hwne
    by_contra hs
    refine hwne (hwz.eq_of_length_le ?_)
    exact (hedge w (Option.isSome_iff_ne_none.2 hs) hw).length_le
  have hbelow : (A.split y z m d).below z (T.drop z.length) = A.below z (T.drop z.length) := by
    refine below_congr fun w hw _ => ?_
    have h1 : z ++ w ≠ z := by simpa using hw
    refine split_of_ne A m d ?_ h1
    intro heq
    have h2 := congrArg List.length heq
    have h3 := hyz.length_le
    have h4 := List.length_pos_of_ne_nil hw
    rw [List.length_append] at h2
    omega
  have hnotin : ¬ z <+: y := fun h => hne (hyz.eq_of_length_le h.length_le)
  constructor
  · have h1 : A.path z = A.path y ++ A.items z :=
      path_of_edge hyz hne fun w hw hwz _ hwne => hbetween w hw hwz hwne
    obtain ⟨r, rfl⟩ := hzT
    rw [path_append, h1, List.drop_left]
  · have h1 : (A.split y z m d).path z =
        (A.split y z m d).path y ++ (A.split y z m d).items z := by
      refine path_of_edge hyz hne fun w hw hwz hwy hwne => ?_
      rw [split_of_ne A m d hwy hwne, hbetween w hw hwz hwne]
    have h2 : (A.split y z m d).path y = A.path y ++ m :=
      path_split_end hy hyz hedge (List.prefix_refl y) hnotin
    rw [items_of_eq (split_end A m d hne), h2] at h1
    obtain ⟨r, rfl⟩ := hzT
    rw [path_append, h1]
    rw [List.drop_left] at hbelow ⊢
    rw [hbelow]

end Split

/-- A walk that avoids a pruned node does not miss it. -/
theorem path_prune_of_not_isPrefix (A : PathTrie τ β) {l T : List τ} (h : ¬ l <+: T) :
    (A.prune l).path T = A.path T :=
  path_congr fun _ _ hw => prune_of_not_isPrefix A fun hl => h (hl.trans hw)

theorem matched_prune_of_not_isPrefix (A : PathTrie τ β) {l T : List τ} (h : ¬ l <+: T) :
    (A.prune l).matched T = A.matched T :=
  matched_congr fun _ hw => prune_of_not_isPrefix A fun hl => h (hl.trans hw)

/-- **A walk through a pruned node** stops above it. -/
theorem path_prune {A : PathTrie τ β} {l T : List τ} (hl : l ≠ []) (h : l <+: T) :
    (A.prune l).path T = A.above l := by
  have h1 : (A.prune l).path T = (A.prune l).path l.dropLast := by
    refine path_eq_of_no_node ((List.dropLast_prefix l).trans h) fun w hw hwT hne => ?_
    refine prune_of_prefix A (List.prefix_of_prefix_length_le h hwT ?_)
    have h2 : l.dropLast.length < w.length :=
      lt_of_le_of_ne hw.length_le fun he => hne (hw.eq_of_length he).symm
    rw [List.length_dropLast] at h2
    omega
  rw [h1, path_prune_of_not_isPrefix A, above]
  intro hp
  have := hp.length_le
  rw [List.length_dropLast] at this
  have := List.length_pos_of_ne_nil hl
  omega

/-! ### Tries without a repeated item -/

/-- No item occurs twice in the trie. -/
structure Distinct (A : PathTrie τ β) : Prop where
  nodup : ∀ l, (A.items l).Nodup
  unique : ∀ l l' b, b ∈ A.items l → b ∈ A.items l' → l = l'

omit [DecidableEq τ] in
theorem distinct_empty : Distinct (fun _ => none : PathTrie τ β) :=
  ⟨fun _ => List.nodup_nil, fun _ _ _ h => by simp [items] at h⟩

theorem items_split (A : PathTrie τ β) {y z : List τ} (m d : List β) (w : List τ) :
    (A.split y z m d).items w = if w = y then m else if w = z then d else A.items w := by
  by_cases hy : w = y
  · rw [if_pos hy, hy, items_of_eq (split_mid A y z m d)]
  · by_cases hz : w = z
    · rw [if_neg hy, if_pos hz, hz, items_of_eq (split_end A m d fun h => hy (hz.trans h.symm))]
    · rw [if_neg hy, if_neg hz, items, split_of_ne A m d hy hz, items]

theorem items_put (A : PathTrie τ β) (l : List τ) (bs : List β) (w : List τ) :
    (A.put l bs).items w = if w = l then bs else A.items w := by
  by_cases h : w = l
  · rw [if_pos h, h, items_put_self]
  · rw [if_neg h, items_put_of_ne A bs h]

theorem items_prune (A : PathTrie τ β) (l w : List τ) :
    (A.prune l).items w = if l <+: w then [] else A.items w := by
  by_cases h : l <+: w
  · rw [if_pos h, items_of_none (A.prune_of_prefix h)]
  · rw [if_neg h, items, A.prune_of_not_isPrefix h, items]

omit [DecidableEq τ] in
/-- In a list without repetitions, a prefix that has an entry has all that come before it. -/
theorem pairwise_isPrefix {L : List β} (hL : L.Nodup) :
    L.Pairwise fun x b => ∀ P, P <+: L → b ∈ P → x ∈ P := by
  rw [List.pairwise_iff_getElem]
  intro i j hi hj hij P hP hb
  obtain ⟨k, hk, hkb⟩ := List.mem_iff_getElem.1 hb
  have hkL : k < L.length := lt_of_lt_of_le hk hP.length_le
  have hget : ∀ n (hn : n < P.length), P[n] = L.get ⟨n, lt_of_lt_of_le hn hP.length_le⟩ :=
    fun n hn => hP.getElem hn
  have hkj : k = j := (List.Nodup.getElem_inj_iff hL).1 ((hget k hk).symm.trans hkb)
  have hiP : i < P.length := by omega
  have hmem : L.get ⟨i, lt_of_lt_of_le hiP hP.length_le⟩ ∈ P := by
    rw [← hget i hiP]
    exact List.getElem_mem hiP
  exact hmem

namespace Distinct

variable {A : PathTrie τ β} (hA : A.Distinct)
include hA

omit [DecidableEq τ] in
/-- **A walk collects no item twice.** -/
theorem path_nodup (T : List τ) : (A.path T).Nodup := by
  induction T using List.reverseRecOn with
  | nil => simp
  | append_singleton x t ih =>
      rw [path_concat]
      refine List.nodup_append.2 ⟨ih, hA.nodup _, ?_⟩
      rintro a ha b hb rfl
      obtain ⟨l, -, hl, hal⟩ := mem_path.1 ha
      have heq := hA.unique _ _ _ hal hb
      have := hl.length_le
      rw [heq, List.length_append, List.length_singleton] at this
      omega

omit [DecidableEq τ] in
/-- The items of a node are collected by the walks through it only. -/
theorem prefix_of_mem_path {l T : List τ} {b : β} (hb : b ∈ A.items l) (hT : b ∈ A.path T) :
    l <+: T := by
  obtain ⟨l', -, hl', hb'⟩ := mem_path.1 hT
  rw [hA.unique _ _ _ hb hb']
  exact hl'

omit [DecidableEq τ] in
/-- **What comes before an item** does so on every walk that collects the item. -/
theorem pairwise_before (T : List τ) : (A.path T).Pairwise fun x b =>
    ∀ (T' : List τ) (P : List β), P <+: A.path T' → b ∈ P → x ∈ P := by
  refine (pairwise_isPrefix (hA.path_nodup T)).imp_of_mem fun {x b} _ hb hxb T' P hP hbP => ?_
  obtain ⟨l, -, hl, hbl⟩ := mem_path.1 hb
  have hl' : l <+: T' := hA.prefix_of_mem_path hbl (hP.subset hbP)
  have hbpath : b ∈ A.path l := by
    refine mem_path.2 ⟨l, ?_, List.prefix_refl l, hbl⟩
    rintro rfl
    obtain ⟨l'', hne, hl'', hbl''⟩ := mem_path.1 hb
    exact hne (hA.unique _ _ _ hbl'' hbl)
  rcases le_total P.length (A.path l).length with hle | hle
  · -- `P` ends inside the walk to the node, which both walks share
    have hPl := List.prefix_of_prefix_length_le hP (A.path_prefix hl') hle
    exact hxb P (hPl.trans (A.path_prefix hl)) hbP
  · have hlP := List.prefix_of_prefix_length_le (A.path_prefix hl') hP hle
    exact hlP.subset (hxb _ (A.path_prefix hl) hbpath)

omit [DecidableEq τ] in
theorem notMem_above {l : List τ} {b : β} (hb : b ∈ A.items l) : b ∉ A.above l := by
  intro h
  obtain ⟨x, -, -, hne, hx⟩ := mem_above.1 h
  exact hne (hA.unique _ _ _ hx hb)

theorem put {l : List τ} {bs : List β} (hbs : bs.Nodup) (hnew : ∀ b ∈ bs, ∀ w, b ∉ A.items w) :
    (A.put l bs).Distinct := by
  constructor
  · intro w
    rw [items_put]
    split
    · exact hbs
    · exact hA.nodup w
  · intro w w' b hw hw'
    rw [items_put] at hw hw'
    split at hw <;> split at hw'
    · simp_all
    · exact absurd hw' (hnew b hw _)
    · exact absurd hw (hnew b hw' _)
    · exact hA.unique w w' b hw hw'

theorem split {y z : List τ} {m h d : List β} (hz : A.items z = m ++ d) (hh : h.Nodup)
    (hnew : ∀ b ∈ h, ∀ w, b ∉ A.items w) : (A.split y z m (h ++ d)).Distinct := by
  have hnd : (m ++ d).Nodup := hz ▸ hA.nodup z
  obtain ⟨hm, hd, hmd⟩ := List.nodup_append.1 hnd
  have hmem : ∀ b, b ∈ m ∨ b ∈ d → b ∈ A.items z := by
    intro b hb
    rw [hz]
    exact List.mem_append.2 hb
  constructor
  · intro w
    rw [items_split]
    split
    · exact hm
    · split
      · refine List.nodup_append.2 ⟨hh, hd, ?_⟩
        rintro a ha b hb rfl
        exact hnew a ha z (hmem a (Or.inr hb))
      · exact hA.nodup w
  · intro w w' b hw hw'
    rw [items_split] at hw hw'
    -- a block of the edge is in one half only, a new one nowhere else
    by_cases hwy : w = y <;> by_cases hwz : w = z <;> by_cases hwy' : w' = y <;>
      by_cases hwz' : w' = z <;>
      simp only [hwy, hwz, hwy', hwz', if_true, if_false] at hw hw' ⊢ <;>
      grind [Distinct.unique]

theorem prune (l : List τ) : (A.prune l).Distinct := by
  constructor
  · intro w
    rw [items_prune]
    split
    · exact List.nodup_nil
    · exact hA.nodup w
  · intro w w' b hw hw'
    rw [items_prune] at hw hw'
    split at hw
    · simp at hw
    · split at hw'
      · simp at hw'
      · exact hA.unique w w' b hw hw'

end Distinct

/-! ### The first items of a walk -/

/-- The first items of a walk stay the first, unless they go on past the item `b?`. -/
def KeepsHeads {τ β : Type} (A A' : PathTrie τ β) (b? : Option β) : Prop :=
  ∀ T R, R <+: A.path T → (∀ b, b? = some b → b ∈ R → R.getLast? = some b) → R <+: A'.path T

namespace KeepsHeads

variable {τ β : Type} {A A' A'' : PathTrie τ β} {b? : Option β}

theorem refl (A : PathTrie τ β) (b? : Option β) : A.KeepsHeads A b? := fun _ _ hR _ => hR

theorem trans (h : A.KeepsHeads A' b?) (h' : A'.KeepsHeads A'' none) : A.KeepsHeads A'' b? :=
  fun T R hR hb => h' T R (h T R hR hb) (by simp)

variable [DecidableEq τ]

/-- A new leaf comes last on every walk. -/
theorem put {l : List τ} (bs : List β) (hl : l ≠ []) (hleaf : ∀ w, l <+: w → A w = none) :
    A.KeepsHeads (A.put l bs) b? := by
  intro T R hR _
  by_cases hT : l <+: T
  · rw [path_put bs hl hT hleaf]
    exact hR.trans (List.prefix_append _ _)
  · rwa [path_put_of_not_isPrefix A bs hT]

variable {y z : List τ} {m d : List β}

/-- An edge split without new items. -/
theorem split (hy : y ≠ []) (hyz : y <+: z) (hne : y ≠ z)
    (hedge : ∀ w, (A w).isSome → y <+: w → z <+: w) (hz : A.items z = m ++ d) :
    A.KeepsHeads (A.split y z m d) b? := by
  intro T R hR _
  by_cases hyT : y <+: T
  · by_cases hzT : z <+: T
    · obtain ⟨h1, h2⟩ := path_split_through (m := m) (d := d) hy hyz hne hedge hzT
      rw [h1, hz] at hR
      rwa [h2, List.append_assoc (A.path y)]
    · rw [path_split_end hy hyz hedge hyT hzT]
      exact hR.trans (List.prefix_append _ _)
  · rwa [path_split_of_not_isPrefix hyz hyT]

/-- **An edge split with new items** for its lower half: they come after the last item that the
upper half keeps. -/
theorem split_fresh (hA : A.Distinct) (hy : y ≠ []) (hyz : y <+: z) (hne : y ≠ z)
    (hedge : ∀ w, (A w).isSome → y <+: w → z <+: w) (hz : A.items z = m ++ d) {b : β}
    (hb : m.getLast? = some b) (h : List β) : A.KeepsHeads (A.split y z m (h ++ d)) (some b) := by
  intro T R hR hlast
  by_cases hyT : y <+: T
  · by_cases hzT : z <+: T
    · obtain ⟨h1, h2⟩ := path_split_through (m := m) (d := h ++ d) hy hyz hne hedge hzT
      have hnd := hA.path_nodup T
      rw [h1, hz, ← List.append_assoc, List.append_assoc] at hR hnd
      rw [h2, List.append_assoc]
      refine List.IsPrefix.trans ?_ (List.prefix_append _ _)
      rcases le_or_gt R.length (A.path y ++ m).length with hle | hgt
      · exact List.prefix_of_prefix_length_le hR (List.prefix_append _ _) hle
      · -- then `b` is an entry of `R` but not its last one
        obtain ⟨R', rfl⟩ := List.prefix_of_prefix_length_le (List.prefix_append _ _) hR hgt.le
        have hbm := List.mem_of_getLast? hb
        have hne' : R' ≠ [] := by
          rintro rfl
          simp at hgt
        have hbR := hlast b rfl (List.mem_append_left _ (List.mem_append_right _ hbm))
        rw [List.getLast?_append_of_ne_nil _ hne'] at hbR
        rw [List.prefix_append_right_inj] at hR
        exact absurd rfl ((List.nodup_append.1 hnd).2.2 b (List.mem_append_right _ hbm) b
          (hR.subset (List.mem_of_getLast? hbR)))
    · rw [path_split_end hy hyz hedge hyT hzT]
      exact hR.trans (List.prefix_append _ _)
  · rwa [path_split_of_not_isPrefix hyz hyT]

end KeepsHeads
end PathTrie
