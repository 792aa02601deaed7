/-
**Insertion-ordered dictionaries.**

A dictionary of the source remembers the order in which its keys were first inserted, and the
program relies on it: the prefill pipeline is FIFO because a dictionary is iterated in that order,
and a least-recently-used tie is won by the entry inserted first.  This module gives that data
structure on its own: the list of entries, with pairwise distinct keys carried as a field.

Main definitions:

* `PyDict` — the dictionary;
* `PyDict.get?`, `PyDict.contains` — `d.get(k)` and `k in d`;
* `PyDict.set` — `d[k] = v`: an existing key keeps its place, a new one goes last;
* `PyDict.erase` — `d.pop(k, None)`;
* `PyDict.keys`, `PyDict.values` — the two views, in insertion order.

Main results:

* `PyDict.get?_eq_some_iff` — looking a key up is membership of the entry;
* `PyDict.mem_entries_set`, `PyDict.mem_entries_erase` — the entries after an update;
* `PyDict.get?_set`, `PyDict.get?_erase` — the lookups after an update.
-/

import Mathlib.Data.List.Nodup
import Mathlib.Data.List.Basic

set_option relaxedAutoImplicit false
set_option autoImplicit false

/-- A dictionary: entries in insertion order, with pairwise distinct keys. -/
structure PyDict (κ ν : Type) where
  entries : List (κ × ν)
  nodup_keys : (entries.map Prod.fst).Nodup
deriving DecidableEq

namespace PyDict

variable {κ ν : Type}

/-- The keys, in insertion order. -/
def keys (d : PyDict κ ν) : List κ := d.entries.map Prod.fst

/-- The values, in insertion order of their keys. -/
def values (d : PyDict κ ν) : List ν := d.entries.map Prod.snd

/-- The empty dictionary. -/
def empty : PyDict κ ν := ⟨[], List.nodup_nil⟩

@[simp] theorem entries_empty : (empty : PyDict κ ν).entries = [] := rfl

@[simp] theorem keys_empty : (empty : PyDict κ ν).keys = [] := rfl

@[simp] theorem values_empty : (empty : PyDict κ ν).values = [] := rfl

theorem keys_nodup (d : PyDict κ ν) : d.keys.Nodup := d.nodup_keys

@[simp] theorem length_keys (d : PyDict κ ν) : d.keys.length = d.entries.length := by
  simp [keys]

@[simp] theorem length_values (d : PyDict κ ν) : d.values.length = d.entries.length := by
  simp [values]

theorem mem_keys {d : PyDict κ ν} {k : κ} : k ∈ d.keys ↔ ∃ v, (k, v) ∈ d.entries := by
  simp [keys]

theorem mem_values {d : PyDict κ ν} {v : ν} : v ∈ d.values ↔ ∃ k, (k, v) ∈ d.entries := by
  simp [values]

/-- A key has one value. -/
theorem eq_of_mem_entries {d : PyDict κ ν} {k : κ} {v w : ν} (hv : (k, v) ∈ d.entries)
    (hw : (k, w) ∈ d.entries) : v = w := by
  have h := List.inj_on_of_nodup_map d.nodup_keys hv hw rfl
  exact congrArg Prod.snd h

variable [DecidableEq κ]

/-! ### Looking a key up -/

/-- `d.get(k)`: the value stored under `k`, if any. -/
def get? (d : PyDict κ ν) (k : κ) : Option ν :=
  (d.entries.find? fun e => e.1 = k).map Prod.snd

/-- `k in d`. -/
def contains (d : PyDict κ ν) (k : κ) : Bool := (d.get? k).isSome

/-- `d.get(k, v)`: the value stored under `k`, or `v`. -/
def getD (d : PyDict κ ν) (k : κ) (v : ν) : ν := (d.get? k).getD v

@[simp] theorem get?_empty (k : κ) : (empty : PyDict κ ν).get? k = none := rfl

/-- Looking a key up is membership of the entry. -/
theorem get?_eq_some_iff {d : PyDict κ ν} {k : κ} {v : ν} :
    d.get? k = some v ↔ (k, v) ∈ d.entries := by
  simp only [get?, Option.map_eq_some_iff]
  constructor
  · rintro ⟨e, he, rfl⟩
    have hk : e.1 = k := by simpa using List.find?_some he
    exact hk ▸ List.mem_of_find?_eq_some he
  · intro h
    obtain ⟨e, he⟩ : ∃ e, d.entries.find? (fun e => e.1 = k) = some e := by
      refine Option.isSome_iff_exists.1 ?_
      rw [List.find?_isSome]
      exact ⟨_, h, by simp⟩
    have hk : e.1 = k := by simpa using List.find?_some he
    have hmem : (k, e.2) ∈ d.entries := hk ▸ List.mem_of_find?_eq_some he
    exact ⟨e, he, eq_of_mem_entries hmem h⟩

theorem get?_eq_none_iff {d : PyDict κ ν} {k : κ} : d.get? k = none ↔ k ∉ d.keys := by
  rw [mem_keys, Option.eq_none_iff_forall_ne_some]
  simp only [ne_eq, get?_eq_some_iff, not_exists]

@[simp] theorem contains_iff {d : PyDict κ ν} {k : κ} : d.contains k = true ↔ k ∈ d.keys := by
  rw [contains, Option.isSome_iff_ne_none, ne_eq, get?_eq_none_iff, not_not]

theorem mem_keys_of_get? {d : PyDict κ ν} {k : κ} {v : ν} (h : d.get? k = some v) : k ∈ d.keys :=
  mem_keys.2 ⟨v, get?_eq_some_iff.1 h⟩

theorem mem_values_of_get? {d : PyDict κ ν} {k : κ} {v : ν} (h : d.get? k = some v) :
    v ∈ d.values :=
  mem_values.2 ⟨k, get?_eq_some_iff.1 h⟩

theorem exists_get?_of_mem_keys {d : PyDict κ ν} {k : κ} (h : k ∈ d.keys) :
    ∃ v, d.get? k = some v := by
  obtain ⟨v, hv⟩ := mem_keys.1 h
  exact ⟨v, get?_eq_some_iff.2 hv⟩

/-! ### Updates -/

/-- The entries after `d[k] = v`: the value of an existing key is replaced in place, a new key
is appended. -/
def setEntries (k : κ) (v : ν) : List (κ × ν) → List (κ × ν)
  | [] => [(k, v)]
  | e :: es => if e.1 = k then (k, v) :: es else e :: setEntries k v es

theorem map_fst_setEntries (k : κ) (v : ν) (es : List (κ × ν)) :
    (setEntries k v es).map Prod.fst =
      if k ∈ es.map Prod.fst then es.map Prod.fst else es.map Prod.fst ++ [k] := by
  induction es with
  | nil => simp [setEntries]
  | cons e es ih =>
      by_cases he : e.1 = k
      · simp [setEntries, he]
      · have hk : k ≠ e.1 := Ne.symm he
        simp only [setEntries, he, if_false, List.map_cons, ih, List.mem_cons, hk, false_or]
        split <;> simp

/-- `d[k] = v`. -/
def set (d : PyDict κ ν) (k : κ) (v : ν) : PyDict κ ν where
  entries := setEntries k v d.entries
  nodup_keys := by
    rw [map_fst_setEntries]
    split
    · exact d.nodup_keys
    · rename_i h
      exact List.nodup_append.2 ⟨d.nodup_keys, List.nodup_singleton k, by
        intro a ha b hb hab
        rw [List.mem_singleton.1 hb] at hab
        exact h (hab ▸ ha)⟩

/-- `d.pop(k, None)`: the dictionary without `k`. -/
def erase (d : PyDict κ ν) (k : κ) : PyDict κ ν where
  entries := d.entries.filter fun e => e.1 ≠ k
  nodup_keys := List.Nodup.sublist (List.filter_sublist.map Prod.fst) d.nodup_keys

theorem entries_erase (d : PyDict κ ν) (k : κ) :
    (d.erase k).entries = d.entries.filter fun e => e.1 ≠ k := rfl

theorem keys_set (d : PyDict κ ν) (k : κ) (v : ν) :
    (d.set k v).keys = if k ∈ d.keys then d.keys else d.keys ++ [k] :=
  map_fst_setEntries k v d.entries

@[simp] theorem mem_keys_set {d : PyDict κ ν} {k a : κ} {v : ν} :
    a ∈ (d.set k v).keys ↔ a = k ∨ a ∈ d.keys := by
  rw [keys_set]
  split
  · rename_i h
    exact ⟨Or.inr, fun h' => h'.elim (fun e => e ▸ h) id⟩
  · simp [or_comm]

theorem mem_setEntries {k : κ} {v : ν} {es : List (κ × ν)} (hnd : (es.map Prod.fst).Nodup)
    {a : κ} {b : ν} :
    (a, b) ∈ setEntries k v es ↔ (a = k ∧ b = v) ∨ (a ≠ k ∧ (a, b) ∈ es) := by
  induction es with
  | nil => simp [setEntries]
  | cons e es ih =>
      have hnd' := List.nodup_cons.1 hnd
      have hnotin : ∀ b, (e.1, b) ∉ es := fun b hb =>
        hnd'.1 (List.mem_map.2 ⟨(e.1, b), hb, rfl⟩)
      by_cases he : e.1 = k
      · subst he
        simp only [setEntries, if_true, List.mem_cons, Prod.mk.injEq]
        constructor
        · rintro (h | h)
          · exact Or.inl h
          · refine Or.inr ⟨?_, Or.inr h⟩
            rintro rfl
            exact hnotin b h
        · rintro (h | ⟨hne, h | h⟩)
          · exact Or.inl h
          · exact absurd (congrArg Prod.fst h) hne
          · exact Or.inr h
      · simp only [setEntries, he, if_false, List.mem_cons, ih hnd'.2]
        constructor
        · rintro (h | h | ⟨hne, h⟩)
          · refine Or.inr ⟨?_, Or.inl h⟩
            rintro rfl
            exact he (congrArg Prod.fst h).symm
          · exact Or.inl h
          · exact Or.inr ⟨hne, Or.inr h⟩
        · rintro (h | ⟨hne, h | h⟩)
          · exact Or.inr (Or.inl h)
          · exact Or.inl h
          · exact Or.inr (Or.inr ⟨hne, h⟩)

/-- The entries after `d[k] = v`. -/
theorem mem_entries_set {d : PyDict κ ν} {k a : κ} {v b : ν} :
    (a, b) ∈ (d.set k v).entries ↔ (a = k ∧ b = v) ∨ (a ≠ k ∧ (a, b) ∈ d.entries) :=
  mem_setEntries d.nodup_keys

/-- The entries after `d.pop(k, None)`. -/
theorem mem_entries_erase {d : PyDict κ ν} {k a : κ} {b : ν} :
    (a, b) ∈ (d.erase k).entries ↔ a ≠ k ∧ (a, b) ∈ d.entries := by
  simp [erase, and_comm]

theorem get?_set (d : PyDict κ ν) (k a : κ) (v : ν) :
    (d.set k v).get? a = if a = k then some v else d.get? a := by
  refine Option.ext fun b => ?_
  rw [get?_eq_some_iff, mem_entries_set]
  by_cases h : a = k
  · simp [h, eq_comm]
  · simp [h, get?_eq_some_iff]

@[simp] theorem get?_set_self (d : PyDict κ ν) (k : κ) (v : ν) : (d.set k v).get? k = some v := by
  rw [get?_set, if_pos rfl]

theorem get?_set_of_ne (d : PyDict κ ν) {k a : κ} (v : ν) (h : a ≠ k) :
    (d.set k v).get? a = d.get? a := by
  rw [get?_set, if_neg h]

theorem get?_erase (d : PyDict κ ν) (k a : κ) :
    (d.erase k).get? a = if a = k then none else d.get? a := by
  refine Option.ext fun b => ?_
  rw [get?_eq_some_iff, mem_entries_erase]
  by_cases h : a = k
  · simp [h]
  · simp [h, get?_eq_some_iff]

@[simp] theorem get?_erase_self (d : PyDict κ ν) (k : κ) : (d.erase k).get? k = none := by
  rw [get?_erase, if_pos rfl]

theorem get?_erase_of_ne (d : PyDict κ ν) {k a : κ} (h : a ≠ k) :
    (d.erase k).get? a = d.get? a := by
  rw [get?_erase, if_neg h]

/-- Dropping a key that has just been set. -/
theorem erase_set_self (d : PyDict κ ν) (k : κ) (v : ν) : (d.set k v).erase k = d.erase k := by
  have hentries : ∀ es : List (κ × ν),
      (setEntries k v es).filter (fun e => e.1 ≠ k) = es.filter fun e => e.1 ≠ k := by
    intro es
    induction es with
    | nil => simp [setEntries]
    | cons e es ih =>
        by_cases he : e.1 = k
        · simp [setEntries, he]
        · simp only [setEntries, he, if_false, List.filter_cons, ih]
  simp only [erase, set, hentries]

/-- The last value that is stored counts. -/
@[simp] theorem set_set_self (d : PyDict κ ν) (k : κ) (v v' : ν) :
    (d.set k v).set k v' = d.set k v' := by
  have hentries : ∀ es : List (κ × ν),
      setEntries k v' (setEntries k v es) = setEntries k v' es := by
    intro es
    induction es with
    | nil => simp [setEntries]
    | cons e es ih =>
        by_cases he : e.1 = k
        · simp [setEntries, he]
        · simp only [setEntries, he, if_false, ih]
  simp only [set, hentries]

theorem keys_erase (d : PyDict κ ν) (k : κ) : (d.erase k).keys = d.keys.filter (· ≠ k) := by
  simp only [keys, erase, List.filter_map]
  rfl

@[simp] theorem mem_keys_erase {d : PyDict κ ν} {k a : κ} :
    a ∈ (d.erase k).keys ↔ a ≠ k ∧ a ∈ d.keys := by
  simp [keys_erase, and_comm]

/-- Removing an absent key changes nothing. -/
theorem erase_of_notMem {d : PyDict κ ν} {k : κ} (h : k ∉ d.keys) : d.erase k = d := by
  have he : d.entries.filter (fun e => e.1 ≠ k) = d.entries := by
    refine List.filter_eq_self.2 ?_
    intro e hmem
    have hek : e.1 ≠ k := by
      rintro rfl
      exact h (mem_keys.2 ⟨e.2, hmem⟩)
    simpa using hek
  cases d
  simp only [erase, mk.injEq]
  exact he

/-- Removing a present key removes one entry. -/
theorem length_entries_erase {d : PyDict κ ν} {k : κ} (h : k ∈ d.keys) :
    (d.erase k).entries.length + 1 = d.entries.length := by
  rw [← length_keys, ← length_keys, keys_erase]
  have hperm := List.perm_cons_erase h
  have hf : d.keys.filter (· ≠ k) = d.keys.erase k := by
    rw [List.Nodup.erase_eq_filter d.keys_nodup]
    refine List.filter_congr fun x _ => ?_
    by_cases hx : x = k <;> simp [hx]
  rw [hf, hperm.length_eq, List.length_cons]

/-- Storing adds one entry if the key is new. -/
theorem length_entries_set (d : PyDict κ ν) (k : κ) (v : ν) :
    (d.set k v).entries.length = d.entries.length + if k ∈ d.keys then 0 else 1 := by
  rw [← length_keys, ← length_keys, keys_set]
  split
  · rfl
  · rw [List.length_append, List.length_singleton]

/-- Storing the value a key has changes nothing. -/
theorem set_of_get? {d : PyDict κ ν} {k : κ} {v : ν} (h : d.get? k = some v) : d.set k v = d := by
  obtain ⟨es, hnd⟩ := d
  have hes : setEntries k v es = es := by
    simp only [get?] at h
    clear hnd
    induction es with
    | nil => simp at h
    | cons e es ih =>
        by_cases he : e.1 = k
        · have hv : e.2 = v := by simpa [he] using h
          simp [setEntries, ← he, ← hv]
        · rw [setEntries, if_neg he, ih (by simpa [he] using h)]
  simp only [set, hes]

/-- A new key goes last. -/
theorem entries_set_of_notMem {d : PyDict κ ν} {k : κ} (v : ν) (h : k ∉ d.keys) :
    (d.set k v).entries = d.entries ++ [(k, v)] := by
  obtain ⟨es, hnd⟩ := d
  simp only [keys] at h
  simp only [set]
  clear hnd
  induction es with
  | nil => rfl
  | cons e es ih =>
      rw [List.map_cons, List.mem_cons, not_or] at h
      rw [setEntries, if_neg (Ne.symm h.1), ih h.2, List.cons_append]

section Head

variable {d : PyDict κ ν} {k : κ} {u : ν} {rest : List (κ × ν)}

/-- The first entry is changed in place. -/
theorem entries_set_head (he : d.entries = (k, u) :: rest) (v : ν) :
    (d.set k v).entries = (k, v) :: rest := by
  change setEntries k v d.entries = _
  rw [he, setEntries, if_pos rfl]

/-- The first entry is removed. -/
theorem entries_erase_head (he : d.entries = (k, u) :: rest) : (d.erase k).entries = rest := by
  have hnd := d.nodup_keys
  rw [he, List.map_cons, List.nodup_cons] at hnd
  rw [entries_erase, he, List.filter_cons_of_neg (by simp), List.filter_eq_self]
  intro e hmem
  have hne : e.1 ≠ k := fun h => hnd.1 (List.mem_map.2 ⟨e, hmem, h⟩)
  exact decide_eq_true hne

/-- Storing another key leaves the first entry. -/
theorem entries_set_of_head_ne (he : d.entries = (k, u) :: rest) {a : κ} (ha : a ≠ k) (v : ν) :
    ∃ rest', (d.set a v).entries = (k, u) :: rest' := by
  refine ⟨setEntries a v rest, ?_⟩
  change setEntries a v d.entries = _
  rw [he, setEntries, if_neg (Ne.symm ha)]

/-- Removing another key leaves the first entry. -/
theorem entries_erase_of_head_ne (he : d.entries = (k, u) :: rest) {a : κ} (ha : a ≠ k) :
    ∃ rest', (d.erase a).entries = (k, u) :: rest' := by
  refine ⟨rest.filter fun e => e.1 ≠ a, ?_⟩
  rw [entries_erase, he, List.filter_cons_of_pos (by simpa using Ne.symm ha)]

end Head

/-- Counting entries when a present key is removed. -/
theorem countP_entries_erase {d : PyDict κ ν} {k : κ} {v : ν} (h : d.get? k = some v)
    (p : κ × ν → Bool) :
    d.entries.countP p = (d.erase k).entries.countP p + if p (k, v) then 1 else 0 := by
  obtain ⟨pre, post, hsplit⟩ := List.append_of_mem (get?_eq_some_iff.1 h)
  have hnd := d.nodup_keys
  rw [hsplit, List.map_append, List.map_cons, List.nodup_append, List.nodup_cons] at hnd
  obtain ⟨-, ⟨hpost, -⟩, hdisj⟩ := hnd
  have hfilter : (d.erase k).entries = pre ++ post := by
    have hpre : pre.filter (fun e => e.1 ≠ k) = pre := by
      refine List.filter_eq_self.2 fun e he => ?_
      have := hdisj e.1 (List.mem_map_of_mem he) k (List.mem_cons_self ..)
      simpa using this
    have hpost' : post.filter (fun e => e.1 ≠ k) = post := by
      refine List.filter_eq_self.2 fun e he => ?_
      have hne : e.1 ≠ k := by
        rintro rfl
        exact hpost (List.mem_map.2 ⟨e, he, rfl⟩)
      simpa using hne
    rw [erase]
    simp only [hsplit, List.filter_append, hpre, List.filter_cons, hpost']
    simp
  rw [hfilter, hsplit, List.countP_append, List.countP_append, List.countP_cons]
  omega

end PyDict
