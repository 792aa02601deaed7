/-
**Synthetic prefixes are coherent.**

A bucket only grows, at its end.  So whatever has been taken from it is a prefix of what it has now,
and two prefixes of one bucket are prefixes of one another, at whatever times they were taken.

The buckets in recent use are a queue that loses entries at its front, and only when a prefix is
taken.  Where the times do not go back, the queue is sorted, and what it has lost is older than the
window ever after; so the candidates of a local choice are all uses within the window.

A call does not tell which bucket it chose, and how.  It is traced: a traced call does the same and
returns its choice too.

Main definitions:

* `PrefixSynthesisModel.Choice`, `PrefixSynthesisModel.assignTraced` — a call that tells its choice;
* `PrefixSynthesisModel.Takes` — what a call does that takes a prefix from a bucket;
* `PrefixSynthesisModel.Calls` — the calls since the model was new, at times that do not go back;
* `PrefixSynthesisModel.Coherent` — what holds between two calls.

Main results:

* `PrefixSynthesisModel.assignPrefixTokens_eq` — a traced call is the call;
* `PrefixSynthesisModel.Coherent.call` — every call keeps the invariant;
* `PrefixSynthesisModel.prefixes_coherent` — **lengths, prefixes and local choices of all calls**.
-/

import NanoKVRouter.TraceReplayRuns

set_option relaxedAutoImplicit false
set_option autoImplicit false

namespace NanoKVRouter

namespace PrefixSynthesisModel

variable {ρ : Type}

/-! ### Traced calls -/

/-- The choice of a bucket: from the candidates in recent use, or by its weight. -/
structure Choice where
  bucket : ℕ
  candidates : Option (List ℕ)

section Traced

variable (rand : PyRandom ρ)

/-- The choice of a bucket, as `selectBucket` makes it. -/
def selectTraced : Py (PrefixSynthesisModel ρ) Choice := do
  let coin ← onRng rand.random
  let model ← get
  if coin < model.cfg.pLocal ∧ 0 < model.recent.length then
    let i ← onRng (rand.choice model.recent.length)
    match model.recent[i]? with
    | none => Py.raise (.indexError "list index out of range")
    | some entry => pure { bucket := entry.1, candidates := some (model.recent.map Prod.fst) }
  else
    let bucket ← onRng (rand.choices model.zipfWeights)
    pure { bucket, candidates := none }

/-- A call of `assignPrefixTokens`, with its choice if it takes a prefix. -/
def assignTraced (arrivalMs : Time) (promptLen : ℤ) :
    Py (PrefixSynthesisModel ρ) (List Token × Option Choice) := do
  let model ← get
  let layerIdx ← onRng (rand.choices (model.cfg.sharingLayers.map Prod.fst))
  match model.cfg.sharingLayers[layerIdx]? with
  | none => Py.raise (.indexError "list index out of range")
  | some (_, layerRatio) =>
      let rawPrefixLen := pyInt (layerRatio * promptLen)
      let alignedPrefixLen := rawPrefixLen / model.blockSize * model.blockSize
      if alignedPrefixLen = 0 then
        pure ([], none)
      else
        purgeExpired arrivalMs
        let choice ← selectTraced rand
        let tokens ← takeFromBucket rand choice.bucket alignedPrefixLen arrivalMs
        pure (tokens, some choice)

theorem selectBucket_eq : selectBucket rand = Choice.bucket <$> selectTraced rand := by
  rw [selectBucket, selectTraced, map_bind]
  refine bind_congr fun coin => ?_
  rw [map_bind]
  refine bind_congr fun model => ?_
  split
  · rw [map_bind]
    refine bind_congr fun i => ?_
    cases model.recent[i]? with
    | none => rfl
    | some entry => rfl
  · rw [map_bind]
    exact (bind_pure _).symm

/-- **A traced call is the call.** -/
theorem assignPrefixTokens_eq (arrivalMs : Time) (promptLen : ℤ) :
    assignPrefixTokens rand arrivalMs promptLen =
      Prod.fst <$> assignTraced rand arrivalMs promptLen := by
  rw [assignPrefixTokens, assignTraced, map_bind]
  refine bind_congr fun model => ?_
  rw [map_bind]
  refine bind_congr fun layerIdx => ?_
  cases model.cfg.sharingLayers[layerIdx]? with
  | none => rfl
  | some layer =>
      dsimp only
      split
      · rfl
      · rw [map_bind, selectBucket_eq]
        refine bind_congr fun _ => ?_
        rw [map_bind, bind_map_left]
        refine bind_congr fun choice => ?_
        rw [map_bind]
        exact (bind_pure _).symm

end Traced

/-! ### What a call does -/

/-- The uses of buckets within the window. -/
def within (model : PrefixSynthesisModel ρ) (nowMs : Time) (uses : List (ℕ × Time)) :
    List (ℕ × Time) :=
  uses.filter fun use => nowMs - model.cfg.localWindowS * 1000 ≤ use.2

/-- The buckets in recent use, once the expired ones are dropped. -/
def purged (model : PrefixSynthesisModel ρ) (nowMs : Time) : List (ℕ × Time) :=
  model.recent.dropWhile fun use => use.2 < nowMs - model.cfg.localWindowS * 1000

/-- The two models have the same parameters. -/
structure SameParams (model model' : PrefixSynthesisModel ρ) : Prop where
  cfg : model'.cfg = model.cfg
  blockSize : model'.blockSize = model.blockSize

/-- A call takes the tokens from the bucket it has chosen. -/
structure Takes (model : PrefixSynthesisModel ρ) (arrivalMs : Time) (tokens : List Token)
    (choice : Choice) (model' : PrefixSynthesisModel ρ) : Prop where
  tokens_ne : tokens ≠ []
  bucket : ∃ bucket added, model.bucketPrefixes[choice.bucket]? = some bucket ∧
    model'.bucketPrefixes = model.bucketPrefixes.set choice.bucket (bucket ++ added) ∧
    tokens <+: bucket ++ added
  recent : model'.recent = model.purged arrivalMs ++ [(choice.bucket, arrivalMs)]
  candidates : ∀ candidates, choice.candidates = some candidates →
    candidates = (model.purged arrivalMs).map Prod.fst ∧ choice.bucket ∈ candidates

/-- The length of a prefix for a ratio. -/
def alignedLen (model : PrefixSynthesisModel ρ) (ratio : ℚ) (promptLen : ℕ) : ℤ :=
  ⌊ratio * promptLen⌋ / model.blockSize * model.blockSize

/-- What a call returns, and what it does to the model. -/
structure Assigns (model : PrefixSynthesisModel ρ) (arrivalMs : Time) (promptLen : ℕ)
    (tokens : List Token) (choice : Option Choice) (model' : PrefixSynthesisModel ρ) : Prop where
  params : SameParams model model'
  length : ∃ layer ∈ model.cfg.sharingLayers,
    (tokens.length : ℤ) = model.alignedLen layer.2 promptLen
  nothing : choice = none → tokens = [] ∧ model'.bucketPrefixes = model.bucketPrefixes ∧
    model'.recent = model.recent
  takes : ∀ c, choice = some c → Takes model arrivalMs tokens c model'

section Runs

variable {rand : PyRandom ρ} {model : PrefixSynthesisModel ρ}

/-- The bucket that is chosen is one of the buckets, and a candidate if the choice is local. -/
theorem run_selectTraced (hv : model.Valid) :
    ∃ choice rng', (selectTraced rand).run model = .ok choice { model with rng := rng' } ∧
      choice.bucket < model.cfg.numBuckets ∧
      ∀ candidates, choice.candidates = some candidates →
        candidates = model.recent.map Prod.fst ∧ choice.bucket ∈ candidates := by
  obtain ⟨coin, rng₁, hcoin⟩ := rand.draws_random model.rng
  rw [selectTraced, Py.run_bind_ok (run_onRng_ok hcoin), Py.run_get_bind]
  split
  case isTrue h =>
      obtain ⟨i, rng₂, hi, hlt⟩ := rand.draws_choice _ h.2 rng₁
      rw [Py.run_bind_ok (run_onRng_ok hi), List.getElem?_eq_getElem hlt]
      refine ⟨_, rng₂, rfl, hv.recent_lt _ (List.getElem_mem hlt), ?_⟩
      intro candidates hcandidates
      cases hcandidates
      exact ⟨rfl, List.mem_map_of_mem (List.getElem_mem hlt)⟩
  case isFalse h =>
      obtain ⟨i, rng₂, hi, hlt⟩ := rand.draws_choices _ hv.weights_pos rng₁
      rw [hv.length_weights] at hlt
      rw [Py.run_bind_ok (run_onRng_ok hi)]
      exact ⟨_, rng₂, rfl, hlt, fun candidates h => by cases h⟩

/-- The tokens that are taken, and the bucket that they are taken from. -/
theorem run_takeTraced (hv : model.Valid) {i : ℕ} (hi : i < model.cfg.numBuckets) (n : ℕ)
    (arrivalMs : Time) :
    ∃ bucket added model', model.bucketPrefixes[i]? = some bucket ∧
      (takeFromBucket rand i n arrivalMs).run model = .ok ((bucket ++ added).take n) model' ∧
      n ≤ (bucket ++ added).length ∧ SameParams model model' ∧
      model'.bucketPrefixes = model.bucketPrefixes.set i (bucket ++ added) ∧
      model'.recent = model.recent ++ [(i, arrivalMs)] := by
  have hlt : i < model.bucketPrefixes.length := hv.length_prefixes ▸ hi
  obtain ⟨bucket, hbucket⟩ : ∃ bucket, model.bucketPrefixes[i]? = some bucket :=
    ⟨_, List.getElem?_eq_getElem hlt⟩
  obtain ⟨added, rng', hadd, hlen, -⟩ := run_randomTokens (draws_vocab model)
    ((n : ℤ) - (bucket.length : ℤ)).toNat model.rng
  have hslice : sliceTo (bucket ++ added) n = (bucket ++ added).take n := by
    rw [sliceTo, if_neg (by omega), Int.toNat_natCast]
  refine ⟨bucket, added,
    { model with
      rng := rng'
      bucketPrefixes := model.bucketPrefixes.set i (bucket ++ added)
      recent := model.recent ++ [(i, arrivalMs)] },
    hbucket, ?_, ?_, ⟨rfl, rfl⟩, rfl, rfl⟩
  · rw [takeFromBucket, Py.run_get_bind, hbucket]
    dsimp only
    rw [Py.run_bind_ok (run_onRng_ok hadd), Py.run_modify_bind, hslice]
    rfl
  · rw [List.length_append, hlen]
    omega

/-- **A call returns**, and does what it should. -/
theorem run_assignTraced (hv : model.Valid) (arrivalMs : Time) (promptLen : ℕ) :
    ∃ tokens choice model', (assignTraced rand arrivalMs promptLen).run model =
        .ok (tokens, choice) model' ∧ Assigns model arrivalMs promptLen tokens choice model' := by
  have hpos : 0 < (model.cfg.sharingLayers.map Prod.fst).sum :=
    lt_of_lt_of_le (by decide +kernel) model.cfg.total_mem.1
  obtain ⟨i, rng₁, hi, hlt⟩ := rand.draws_choices _ hpos model.rng
  rw [List.length_map] at hlt
  have hlayer := List.getElem_mem hlt
  obtain ⟨h0, h1⟩ := model.cfg.ratio_mem _ hlayer
  obtain ⟨n, hn, -⟩ := exists_aligned h0 h1 promptLen model.blockSize
  have hnn : (0 : ℚ) ≤ (model.cfg.sharingLayers[i]).2 * (promptLen : ℤ) := mul_nonneg h0 (by simp)
  have haligned : model.alignedLen (model.cfg.sharingLayers[i]).2 promptLen = n := by
    rw [← hn, pyInt, if_neg (not_lt.2 hnn), Int.cast_natCast]
    rfl
  rw [assignTraced, Py.run_get_bind, Py.run_bind_ok (run_onRng_ok hi),
    List.getElem?_eq_getElem hlt]
  dsimp only
  rw [hn]
  split
  case isTrue h =>
      refine ⟨[], none, _, rfl, ⟨rfl, rfl⟩, ⟨_, hlayer, ?_⟩, fun _ => ⟨rfl, rfl, rfl⟩, fun c hc => ?_⟩
      · rw [haligned, h]
        rfl
      · cases hc
  case isFalse h =>
      obtain ⟨model₂, hmodel₂⟩ : ∃ model₂ : PrefixSynthesisModel ρ, model₂ =
        { model with rng := rng₁, recent := model.purged arrivalMs } := ⟨_, rfl⟩
      have hpurge : (purgeExpired arrivalMs).run { model with rng := rng₁ } = .ok () model₂ := by
        rw [hmodel₂]
        rfl
      have hv₂ : model₂.Valid := by
        obtain ⟨model₂', hrun, hvalid, -⟩ := run_purgeExpired (hv.withRng rng₁) arrivalMs
        rw [hpurge] at hrun
        cases hrun
        exact hvalid
      obtain ⟨choice, rng₃, hsel, hbucket, hcands⟩ := @run_selectTraced _ rand _ hv₂
      obtain ⟨bucket, added, model₄, hget, htake, hle, hparams, hprefixes, hrecent⟩ :=
        @run_takeTraced _ rand _ (hv₂.withRng rng₃) _ hbucket n arrivalMs
      rw [Py.run_bind_ok hpurge, Py.run_bind_ok hsel, Py.run_bind_ok htake]
      rw [hmodel₂] at hcands hget hparams hprefixes hrecent
      have hlength : ((bucket ++ added).take n).length = n := by
        rw [List.length_take, Nat.min_eq_left hle]
      refine ⟨(bucket ++ added).take n, some choice, model₄, rfl, ⟨hparams.cfg, hparams.blockSize⟩,
        ⟨_, hlayer, ?_⟩, fun hc => ?_, fun c hc => ?_⟩
      · rw [haligned, hlength]
      · cases hc
      · cases hc
        refine ⟨fun hnil => ?_, ⟨bucket, added, hget, hprefixes, List.take_prefix _ _⟩, hrecent, hcands⟩
        rw [hnil] at hlength
        exact h (by rw [← hlength]; rfl)

end Runs

/-! ### The calls since the model was new -/

/-- A call that has been made, and what it returned. -/
structure Assigned where
  arrivalMs : Time
  promptLen : ℕ
  tokens : List Token
  choice : Option Choice

/-- The uses of buckets in the calls, in order. -/
def uses (history : List Assigned) : List (ℕ × Time) :=
  history.filterMap fun call => call.choice.map fun choice => (choice.bucket, call.arrivalMs)

/-- The calls that lead from a model to another, at times that do not go back. -/
inductive Calls (rand : PyRandom ρ) (model₀ : PrefixSynthesisModel ρ) :
    List Assigned → PrefixSynthesisModel ρ → Prop
  | start : Calls rand model₀ [] model₀
  | call {history : List Assigned} {model model' : PrefixSynthesisModel ρ} {arrivalMs : Time}
      {promptLen : ℕ} {tokens : List Token} {choice : Option Choice}
      (h : Calls rand model₀ history model) (hnow : ∀ call ∈ history, call.arrivalMs ≤ arrivalMs)
      (hrun : (assignTraced rand arrivalMs promptLen).run model = .ok (tokens, choice) model') :
      Calls rand model₀ (history ++ [⟨arrivalMs, promptLen, tokens, choice⟩]) model'

section Invariant

variable {rand : PyRandom ρ} {model₀ model model' : PrefixSynthesisModel ρ}
  {history : List Assigned} {arrivalMs : Time} {promptLen : ℕ} {tokens : List Token}
  {choice : Option Choice}

theorem uses_concat (history : List Assigned) (call : Assigned) :
    uses (history ++ [call]) =
      uses history ++ (call.choice.map fun choice => (choice.bucket, call.arrivalMs)).toList := by
  rw [uses, List.filterMap_append]
  cases hchoice : call.choice with
  | none => rw [List.filterMap_cons_none (by rw [hchoice]; rfl)]; rfl
  | some c => rw [List.filterMap_cons_some (by rw [hchoice]; rfl)]; rfl

theorem mem_uses {use : ℕ × Time} (h : use ∈ uses history) :
    ∃ call ∈ history, use.2 = call.arrivalMs := by
  obtain ⟨call, hcall, hmap⟩ := List.mem_filterMap.1 h
  obtain ⟨choice, -, rfl⟩ := Option.map_eq_some_iff.1 hmap
  exact ⟨call, hcall, rfl⟩

/-- **What holds between two calls**: every prefix that was taken is one of its bucket; the uses are
in order, and those that the queue has lost are too old for every call to come. -/
structure Coherent (model₀ : PrefixSynthesisModel ρ) (history : List Assigned)
    (model : PrefixSynthesisModel ρ) : Prop where
  valid : model.Valid
  params : SameParams model₀ model
  prefixes : ∀ call ∈ history, ∀ c, call.choice = some c →
    ∃ bucket, model.bucketPrefixes[c.bucket]? = some bucket ∧ call.tokens <+: bucket
  sorted : (uses history).Pairwise fun a b => a.2 ≤ b.2
  window : ∃ dropped, uses history = dropped ++ model.recent ∧
    ∀ now, (∀ call ∈ history, call.arrivalMs ≤ now) →
      ∀ use ∈ dropped, use.2 < now - model₀.cfg.localWindowS * 1000

/-- Dropping the expired uses from the front of a sorted queue leaves those within the window. -/
theorem dropWhile_eq_filter {cutoff : Time} {l : List (ℕ × Time)}
    (hl : l.Pairwise fun a b => a.2 ≤ b.2) :
    l.dropWhile (fun use => use.2 < cutoff) = l.filter fun use => cutoff ≤ use.2 := by
  induction l with
  | nil => rfl
  | cons use l ih =>
      obtain ⟨hfirst, hrest⟩ := List.pairwise_cons.1 hl
      by_cases hlt : use.2 < cutoff
      · rw [List.dropWhile_cons_of_pos (by simpa using hlt),
          List.filter_cons_of_neg (by simpa using hlt), ih hrest]
      · rw [List.dropWhile_cons_of_neg (by simpa using hlt), eq_comm, List.filter_eq_self]
        intro a ha
        rcases List.mem_cons.1 ha with rfl | ha
        · simpa using hlt
        · exact decide_eq_true ((not_lt.1 hlt).trans (hfirst a ha))

/-- **The candidates of a local choice** are the uses within the window. -/
theorem Coherent.purged_eq (h : Coherent model₀ history model)
    (hnow : ∀ call ∈ history, call.arrivalMs ≤ arrivalMs) :
    model.purged arrivalMs = model₀.within arrivalMs (uses history) := by
  obtain ⟨dropped, hdropped, hold⟩ := h.window
  have hsorted := h.sorted
  rw [hdropped] at hsorted
  have hnone : dropped.filter (fun use =>
      arrivalMs - model₀.cfg.localWindowS * 1000 ≤ use.2) = [] := by
    refine List.filter_eq_nil_iff.2 fun use huse => ?_
    rw [decide_eq_true_iff, not_le]
    exact hold arrivalMs hnow use huse
  rw [purged, h.params.cfg, dropWhile_eq_filter (List.pairwise_append.1 hsorted).2.1, within,
    hdropped, List.filter_append, hnone, List.nil_append]

/-- A traced call that returned is a call that returned. -/
theorem run_of_traced
    (hrun : (assignTraced rand arrivalMs promptLen).run model = .ok (tokens, choice) model') :
    (assignPrefixTokens rand arrivalMs promptLen).run model = .ok tokens model' := by
  rw [assignPrefixTokens_eq, ← bind_pure_comp, Py.run_bind_ok hrun]
  rfl

/-- A call that returned did what it should. -/
theorem assigns_of_run (hv : model.Valid)
    (hrun : (assignTraced rand arrivalMs promptLen).run model = .ok (tokens, choice) model') :
    model'.Valid ∧ Assigns model arrivalMs promptLen tokens choice model' := by
  constructor
  · obtain ⟨pre, model₁, hpre, hvalid, -⟩ :=
      @run_assignPrefixTokens _ rand _ hv arrivalMs promptLen
    rw [run_of_traced hrun] at hpre
    cases hpre
    exact hvalid
  · obtain ⟨tokens₁, choice₁, model₁, hrun₁, hassigns⟩ :=
      @run_assignTraced _ rand _ hv arrivalMs promptLen
    rw [hrun] at hrun₁
    cases hrun₁
    exact hassigns

/-- A new model is coherent. -/
theorem Coherent.start (hv : model₀.Valid) (hrecent : model₀.recent = []) :
    Coherent model₀ [] model₀ := by
  refine ⟨hv, ⟨rfl, rfl⟩, fun call h => absurd h List.not_mem_nil, List.Pairwise.nil,
    [], ?_, fun _ _ use h => absurd h List.not_mem_nil⟩
  rw [hrecent]
  rfl

/-- The bucket of a prefix that was taken has only grown. -/
theorem Takes.prefix_grows {c : Choice} (h : Takes model arrivalMs tokens c model') {i : ℕ}
    {bucket : List Token} (hbucket : model.bucketPrefixes[i]? = some bucket) :
    ∃ bucket', model'.bucketPrefixes[i]? = some bucket' ∧ bucket <+: bucket' := by
  obtain ⟨old, added, hold, hset, -⟩ := h.bucket
  obtain ⟨hlt, -⟩ := List.getElem?_eq_some_iff.1 hbucket
  by_cases hi : c.bucket = i
  · subst hi
    rw [hold] at hbucket
    cases hbucket
    refine ⟨bucket ++ added, ?_, List.prefix_append _ _⟩
    rw [hset, List.getElem?_set_self hlt]
  · refine ⟨bucket, ?_, List.prefix_refl _⟩
    rw [hset, List.getElem?_set_ne hi, hbucket]

/-- **Every call keeps the invariant.** -/
theorem Coherent.call (h : Coherent model₀ history model)
    (hnow : ∀ call ∈ history, call.arrivalMs ≤ arrivalMs)
    (hrun : (assignTraced rand arrivalMs promptLen).run model = .ok (tokens, choice) model') :
    Coherent model₀ (history ++ [⟨arrivalMs, promptLen, tokens, choice⟩]) model' := by
  obtain ⟨hvalid, hassigns⟩ := assigns_of_run h.valid hrun
  have hparams : SameParams model₀ model' :=
    ⟨hassigns.params.cfg.trans h.params.cfg, hassigns.params.blockSize.trans h.params.blockSize⟩
  cases choice with
  | none =>
      obtain ⟨rfl, hprefixes, hrecent⟩ := hassigns.nothing rfl
      have huses : uses (history ++ [⟨arrivalMs, promptLen, [], none⟩]) = uses history :=
        (uses_concat _ _).trans (List.append_nil _)
      refine ⟨hvalid, hparams, ?_, by rw [huses]; exact h.sorted, ?_⟩
      · intro call hcall c hc
        rw [hprefixes]
        rcases List.mem_append.1 hcall with hcall | hcall
        · exact h.prefixes call hcall c hc
        · obtain rfl := List.mem_singleton.1 hcall
          cases hc
      · obtain ⟨dropped, hdropped, hold⟩ := h.window
        refine ⟨dropped, by rw [huses, hrecent]; exact hdropped, fun now hall => hold now ?_⟩
        exact fun call hcall => hall call (List.mem_append_left _ hcall)
  | some c =>
      have htakes := hassigns.takes c rfl
      have huses : uses (history ++ [⟨arrivalMs, promptLen, tokens, some c⟩]) =
          uses history ++ [(c.bucket, arrivalMs)] := uses_concat _ _
      refine ⟨hvalid, hparams, ?_, ?_, ?_⟩
      · intro call hcall d hd
        rcases List.mem_append.1 hcall with hcall | hcall
        · obtain ⟨bucket, hbucket, hpre⟩ := h.prefixes call hcall d hd
          obtain ⟨bucket', hbucket', hgrows⟩ := htakes.prefix_grows hbucket
          exact ⟨bucket', hbucket', hpre.trans hgrows⟩
        · obtain rfl := List.mem_singleton.1 hcall
          cases hd
          obtain ⟨bucket, added, hold, hset, hpre⟩ := htakes.bucket
          obtain ⟨hlt, -⟩ := List.getElem?_eq_some_iff.1 hold
          exact ⟨bucket ++ added, by rw [hset, List.getElem?_set_self hlt], hpre⟩
      · rw [huses]
        refine List.pairwise_append.2 ⟨h.sorted, List.pairwise_singleton _ _, ?_⟩
        intro use huse last hlast
        obtain rfl := List.mem_singleton.1 hlast
        obtain ⟨call, hcall, htime⟩ := mem_uses huse
        rw [htime]
        exact hnow call hcall
      · -- what is dropped now is too old for the calls to come
        obtain ⟨dropped, hdropped, hold⟩ := h.window
        refine ⟨dropped ++ model.recent.takeWhile fun use =>
          use.2 < arrivalMs - model.cfg.localWindowS * 1000, ?_, ?_⟩
        · rw [huses, htakes.recent, hdropped, purged, List.append_assoc, List.append_assoc,
            ← List.append_assoc (List.takeWhile _ _), List.takeWhile_append_dropWhile]
        · intro now hall use huse
          have hlast : arrivalMs ≤ now :=
            hall ⟨arrivalMs, promptLen, tokens, some c⟩
              (List.mem_append_right _ (List.mem_singleton.2 rfl))
          rcases List.mem_append.1 huse with huse | huse
          · exact hold now (fun call hcall => hall call (List.mem_append_left _ hcall)) use huse
          · have hold := List.mem_takeWhile_imp huse
            have hlt := of_decide_eq_true hold
            rw [h.params.cfg] at hlt
            exact hlt.trans_le (sub_le_sub_right hlast _)

/-- The invariant holds after any calls. -/
theorem Calls.coherent (h : Calls rand model₀ history model) (hv : model₀.Valid)
    (hrecent : model₀.recent = []) : Coherent model₀ history model := by
  induction h with
  | start => exact .start hv hrecent
  | call _ hnow hrun ih => exact ih.call hnow hrun

/-- The length of a prefix for a ratio is that of some blocks of the prompt. -/
theorem alignedLen_le (model : PrefixSynthesisModel ρ) {ratio : ℚ} (h1 : ratio ≤ 1)
    (promptLen : ℕ) : (model.blockSize : ℤ) ∣ model.alignedLen ratio promptLen ∧
      model.alignedLen ratio promptLen ≤ promptLen := by
  have hbs : (0 : ℤ) < model.blockSize := by
    have := model.one_le_blockSize
    omega
  have hle : ratio * (promptLen : ℚ) ≤ promptLen := mul_le_of_le_one_left (Nat.cast_nonneg _) h1
  refine ⟨Dvd.intro_left _ rfl, (Int.ediv_mul_le _ hbs.ne').trans ?_⟩
  exact (Int.floor_le_floor hle).trans (by rw [Int.floor_natCast])

/-- **Every call returns tokens of a configured length**, and tokens exactly if it chose a bucket. -/
theorem Calls.lengths (h : Calls rand model₀ history model) (hv : model₀.Valid)
    (hrecent : model₀.recent = []) : ∀ call ∈ history,
      (call.choice.isSome ↔ call.tokens ≠ []) ∧ ∃ layer ∈ model₀.cfg.sharingLayers,
        (call.tokens.length : ℤ) = model₀.alignedLen layer.2 call.promptLen := by
  induction h with
  | start => exact fun call h => absurd h List.not_mem_nil
  | @call history model model' arrivalMs promptLen tokens choice hcalls hnow hrun ih =>
      intro call hcall
      rcases List.mem_append.1 hcall with hcall | hcall
      · exact ih call hcall
      obtain rfl := List.mem_singleton.1 hcall
      have hcoherent := hcalls.coherent hv hrecent
      obtain ⟨-, hassigns⟩ := assigns_of_run hcoherent.valid hrun
      constructor
      · cases choice with
        | none => exact ⟨fun h => (by cases h), fun h => absurd (hassigns.nothing rfl).1 h⟩
        | some c => exact ⟨fun _ => (hassigns.takes c rfl).tokens_ne, fun _ => rfl⟩
      · obtain ⟨layer, hlayer, hlength⟩ := hassigns.length
        rw [alignedLen, hcoherent.params.blockSize] at hlength
        rw [hcoherent.params.cfg] at hlayer
        exact ⟨layer, hlayer, hlength⟩

/-- **A local choice** is one of the uses within the window, all of which are candidates. -/
theorem Calls.local_choice (h : Calls rand model₀ history model) (hv : model₀.Valid)
    (hrecent : model₀.recent = []) : ∀ earlier call later, history = earlier ++ call :: later →
      ∀ c candidates, call.choice = some c → c.candidates = some candidates →
        c.bucket ∈ candidates ∧
        candidates = (model₀.within call.arrivalMs (uses earlier)).map Prod.fst := by
  induction h with
  | start => exact fun earlier call later h => absurd h (List.append_ne_nil_of_right_ne_nil _
      (List.cons_ne_nil _ _)).symm
  | @call history model model' arrivalMs promptLen tokens choice hcalls hnow hrun ih =>
      intro earlier call later hsplit c candidates hc hcandidates
      rcases List.eq_nil_or_concat later with rfl | ⟨later, last, rfl⟩
      · -- the last call
        obtain ⟨rfl, hcall⟩ := List.append_inj' hsplit rfl
        cases hcall
        have hcoherent := hcalls.coherent hv hrecent
        obtain ⟨-, hassigns⟩ := assigns_of_run hcoherent.valid hrun
        obtain ⟨heq, hmem⟩ := (hassigns.takes c hc).candidates candidates hcandidates
        exact ⟨hmem, by rw [heq, hcoherent.purged_eq hnow]⟩
      · rw [List.concat_eq_append, ← List.cons_append, ← List.append_assoc] at hsplit
        obtain ⟨hhistory, -⟩ := List.append_inj' hsplit rfl
        exact ih earlier call later hhistory c candidates hc hcandidates

end Invariant

/-- **Synthetic prefixes are coherent.**  After any calls of a new model at times that do not go back:

* every call returned tokens of the length for a configured ratio, which are full blocks of the
  prompt, and tokens exactly if it chose a bucket;
* of two prefixes of one bucket one is a prefix of the other;
* a local choice is one of the uses of buckets since the start of the window, all of which are
  candidates;
* the next call returns, and is one of these calls. -/
theorem prefixes_coherent {rand : PyRandom ρ} {cfg : PrefixSynthesisConfig}
    {blockSize vocabSize : ℕ} {hbs : 1 ≤ blockSize} {hvs : 1 ≤ vocabSize} {zipfWeights : List ℚ}
    (hlen : zipfWeights.length = cfg.numBuckets) (hpos : 0 < zipfWeights.sum)
    {initialPromptLen : ℕ} {rng : ρ} {model₀ : PrefixSynthesisModel ρ}
    (hmake : make rand cfg blockSize vocabSize hbs hvs zipfWeights initialPromptLen rng = .ok model₀)
    {history : List Assigned} {model : PrefixSynthesisModel ρ}
    (h : Calls rand model₀ history model) :
    (∀ call ∈ history, (call.choice.isSome ↔ call.tokens ≠ []) ∧ blockSize ∣ call.tokens.length ∧
      call.tokens.length ≤ call.promptLen ∧ ∃ layer ∈ cfg.sharingLayers,
        (call.tokens.length : ℤ) = ⌊layer.2 * call.promptLen⌋ / blockSize * blockSize) ∧
    (∀ a ∈ history, ∀ b ∈ history, ∀ c d, a.choice = some c → b.choice = some d →
      c.bucket = d.bucket → a.tokens <+: b.tokens ∨ b.tokens <+: a.tokens) ∧
    (∀ earlier call later, history = earlier ++ call :: later → ∀ c candidates,
      call.choice = some c → c.candidates = some candidates → c.bucket ∈ candidates ∧
        candidates = ((uses earlier).filter fun use =>
          call.arrivalMs - cfg.localWindowS * 1000 ≤ use.2).map Prod.fst) ∧
    ∀ arrivalMs (promptLen : ℕ), (∀ call ∈ history, call.arrivalMs ≤ arrivalMs) →
      ∃ tokens choice model', (assignPrefixTokens rand arrivalMs promptLen).run model =
          .ok tokens model' ∧
        Calls rand model₀ (history ++ [⟨arrivalMs, promptLen, tokens, choice⟩]) model' := by
  obtain ⟨model₁, hmake₁, hv, -⟩ :=
    @valid_make _ rand cfg _ _ hbs hvs _ hlen hpos initialPromptLen rng
  obtain rfl : model₁ = model₀ := Except.ok.inj (hmake₁.symm.trans hmake)
  have hnew : model₁.cfg = cfg ∧ model₁.blockSize = blockSize ∧ model₁.recent = [] := by
    rw [make] at hmake
    split at hmake
    · cases hmake
      exact ⟨rfl, rfl, rfl⟩
    · cases hmake
  obtain ⟨rfl, rfl, hrecent⟩ := hnew
  have hcoherent := h.coherent hv hrecent
  refine ⟨fun call hcall => ?_, ?_, h.local_choice hv hrecent, ?_⟩
  · obtain ⟨hchoice, layer, hlayer, hlength⟩ := h.lengths hv hrecent call hcall
    obtain ⟨hdvd, hle⟩ := model₁.alignedLen_le (model₁.cfg.ratio_mem layer hlayer).2 call.promptLen
    rw [← hlength] at hdvd hle
    exact ⟨hchoice, Int.natCast_dvd_natCast.1 hdvd, Int.ofNat_le.1 hle, layer, hlayer, hlength⟩
  · intro a ha b hb c d hc hd hbucket
    obtain ⟨bucket, hget, hpre⟩ := hcoherent.prefixes a ha c hc
    obtain ⟨bucket', hget', hpre'⟩ := hcoherent.prefixes b hb d hd
    rw [hbucket, hget'] at hget
    cases hget
    exact List.prefix_or_prefix_of_prefix hpre hpre'
  · intro arrivalMs promptLen hnow
    obtain ⟨tokens, choice, model', hrun, -⟩ :=
      @run_assignTraced _ rand _ hcoherent.valid arrivalMs promptLen
    exact ⟨tokens, choice, model', run_of_traced hrun, .call h hnow hrun⟩

/-- `PrefixSynthesisConfig()`. -/
def defaults : PrefixSynthesisConfig := { zipfAlpha_pos := zero_lt_one }

theorem prefixes_coherent_two :
    ∃ model₀ history model, Calls TraceGenerator.drawLow model₀ history model ∧
      history.length = 2 ∧ ∀ a ∈ history, ∀ b ∈ history, ∀ c d, a.choice = some c →
        b.choice = some d → c.bucket = d.bucket → a.tokens <+: b.tokens ∨ b.tokens <+: a.tokens := by
  have hlen : (List.replicate 64 (1 : ℚ)).length = defaults.numBuckets := rfl
  have hpos : 0 < (List.replicate 64 (1 : ℚ)).sum := by decide +kernel
  have hone : 1 ≤ 4 := by decide
  obtain ⟨model₀, hmake, hv, -⟩ :=
    @valid_make _ TraceGenerator.drawLow defaults 4 4 hone hone _ hlen hpos 0 ()
  obtain ⟨tokens₁, choice₁, model₁, hrun₁, -⟩ :=
    @run_assignTraced _ TraceGenerator.drawLow _ hv 0 20
  have hcalls₁ := Calls.call .start (fun _ h => absurd h List.not_mem_nil) hrun₁
  obtain ⟨-, -, -, hnext⟩ := prefixes_coherent hlen hpos hmake hcalls₁
  obtain ⟨tokens₂, choice₂, model₂, -, hcalls₂⟩ := hnext 5 40 (fun call hcall => by
    rw [List.mem_singleton.1 hcall]
    exact (by decide +kernel : (0 : ℚ) ≤ 5))
  exact ⟨model₀, _, model₂, hcalls₂, rfl, (prefixes_coherent hlen hpos hmake hcalls₂).2.1⟩

end PrefixSynthesisModel

end NanoKVRouter
