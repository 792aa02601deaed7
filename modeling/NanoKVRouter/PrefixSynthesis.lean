/-
**Prefixes for the records of a trace that names none.**

A trace may give only the times and the lengths of its requests.  The synthesis model puts a
prefix on such a record: it draws how much of the prompt is shared, draws one of some buckets, where
it prefers those in recent use, and takes the tokens of the bucket, which grows when it is too short.

The random generator is a parameter, as far as the program uses it: its calls return, and what they
return is within what they are asked for.

Main definitions:

* `PyRandom` — the calls of a random generator;
* `PrefixSynthesisConfig`, `PrefixSynthesisModel` — the model;
* `PrefixSynthesisConfig.zipfWeights` — the weights of the buckets, which may overflow;
* `PrefixSynthesisModel.assignPrefixTokens` — the prefix of one record.

Main results:

* `PrefixSynthesisModel.valid_make` — a new model is valid;
* `PrefixSynthesisModel.run_assignPrefixTokens` — **a valid model returns a prefix no longer than the
  prompt**, and stays valid.
-/

import NanoKVRouter.FloatRounding
import NanoKVRouter.RequestHash
import Mathlib.Algebra.Order.BigOperators.Group.List
import Mathlib.Algebra.Order.Floor.Ring
import Mathlib.Data.Rat.Floor

set_option relaxedAutoImplicit false
set_option autoImplicit false

namespace NanoKVRouter

/-! ### The random generator -/

/-- The calls of a `random.Random` whose state is of type `ρ`.  `choices` and `choice` return the
position of what is chosen. -/
structure PyRandom (ρ : Type) where
  randint : ℤ → ℤ → Py ρ ℤ
  random : Py ρ ℚ
  choices : List ℚ → Py ρ ℕ
  choice : ℕ → Py ρ ℕ
  draws_randint : ∀ low high, low ≤ high → Draws randint low high (Between low high)
  draws_random : ∀ rng, ∃ x rng', random.run rng = .ok x rng'
  draws_choices : ∀ weights : List ℚ, 0 < weights.sum → ∀ rng,
    ∃ i rng', (choices weights).run rng = .ok i rng' ∧ i < weights.length
  draws_choice : ∀ n, 0 < n → ∀ rng, ∃ i rng', (choice n).run rng = .ok i rng' ∧ i < n

/-- `int(x)`: the part of a number before the point. -/
def pyInt (x : ℚ) : ℤ := if x < 0 then ⌈x⌉ else ⌊x⌋

/-- A list of calls that return, each with a value of a kind. -/
theorem Py.run_mapM_returns {σ α β : Type} {f : α → Py σ β} {P : β → Prop}
    (hf : ∀ a s, ∃ b s', (f a).run s = .ok b s' ∧ P b) (l : List α) (s : σ) :
    ∃ bs s', (l.mapM f).run s = .ok bs s' ∧ bs.length = l.length ∧ ∀ b ∈ bs, P b := by
  induction l generalizing s with
  | nil => exact ⟨[], s, rfl, rfl, fun b hb => absurd hb List.not_mem_nil⟩
  | cons a l ih =>
      obtain ⟨b, s₁, hb, hP⟩ := hf a s
      obtain ⟨bs, s₂, hbs, hlen, hall⟩ := ih s₁
      refine ⟨b :: bs, s₂, ?_, by rw [List.length_cons, hlen, List.length_cons], ?_⟩
      · rw [List.mapM_cons, Py.run_bind_ok hb, Py.run_bind_ok hbs]
        rfl
      · exact List.forall_mem_cons.2 ⟨hP, hall⟩

/-! ### The model -/

/-- The parameters of the synthesis: `sharingLayers` are pairs of a probability and a ratio. -/
structure PrefixSynthesisConfig where
  numBuckets : ℕ := 64
  zipfAlpha : ℚ := 1
  pLocal : ℚ := 3 / 5
  localWindowS : ℚ := 60
  sharingLayers : List (ℚ × ℚ) := [(1 / 5, 1 / 2), (1 / 2, 1 / 4), (3 / 10, 0)]
  one_le_numBuckets : 1 ≤ numBuckets := by decide
  zipfAlpha_pos : 0 < zipfAlpha := by decide +kernel
  pLocal_mem : 0 ≤ pLocal ∧ pLocal ≤ 1 := by decide +kernel
  localWindowS_pos : 0 < localWindowS := by decide +kernel
  prob_nonneg : ∀ layer ∈ sharingLayers, 0 ≤ layer.1 := by decide +kernel
  ratio_mem : ∀ layer ∈ sharingLayers, 0 ≤ layer.2 ∧ layer.2 ≤ 1 := by decide +kernel
  total_mem : 99 / 100 ≤ (sharingLayers.map Prod.fst).sum ∧
    (sharingLayers.map Prod.fst).sum ≤ 101 / 100 := by decide +kernel

/-- The synthesis model.  `zipfWeights` are the weights of the buckets, `recent` the buckets in
recent use with the times of their use, the oldest first. -/
structure PrefixSynthesisModel (ρ : Type) where
  cfg : PrefixSynthesisConfig
  blockSize : ℕ
  vocabSize : ℕ
  rng : ρ
  zipfWeights : List ℚ
  bucketPrefixes : List (List Token)
  recent : List (ℕ × Time)
  one_le_blockSize : 1 ≤ blockSize
  one_le_vocabSize : 1 ≤ vocabSize

/-- The weights `1 / (i + 1) ** zipf_alpha` of the buckets, in floats.  `pow` is the power of floats,
which raises `OverflowError` where the result is too large. -/
def PrefixSynthesisConfig.zipfWeights (pow : ℕ → ℚ → Except PyErr ℚ)
    (cfg : PrefixSynthesisConfig) : Except PyErr (List ℚ) :=
  (List.range cfg.numBuckets).mapM fun i => do
    pure (binary64.round (1 / (← pow (i + 1) cfg.zipfAlpha)))

namespace PrefixSynthesisModel

variable {ρ : Type} (rand : PyRandom ρ)

/-- A new model, whose buckets are drawn for a prompt of `initialPromptLen` tokens. -/
def make (cfg : PrefixSynthesisConfig) (blockSize vocabSize : ℕ) (one_le_blockSize : 1 ≤ blockSize)
    (one_le_vocabSize : 1 ≤ vocabSize) (zipfWeights : List ℚ) (initialPromptLen : ℕ) (rng : ρ) :
    Except PyErr (PrefixSynthesisModel ρ) :=
  let initialBlocks := max 1 ((initialPromptLen + blockSize - 1) / blockSize)
  match ((List.range cfg.numBuckets).mapM fun _ =>
      randomTokens rand.randint vocabSize (initialBlocks * blockSize)).run rng with
  | .ok bucketPrefixes rng' =>
      .ok {
        cfg, blockSize, vocabSize, rng := rng', zipfWeights, bucketPrefixes, recent := []
        one_le_blockSize, one_le_vocabSize }
  | .error e _ => .error e

/-- A call of the model's own random generator. -/
def onRng {α : Type} (m : Py ρ α) : Py (PrefixSynthesisModel ρ) α :=
  Py.onPart rng (fun rng model => { model with rng }) m

/-- Drop the entries that are older than the window from the front. -/
def purgeExpired (nowMs : Time) : Py (PrefixSynthesisModel ρ) Unit :=
  modify fun model =>
    let cutoff := nowMs - model.cfg.localWindowS * 1000
    { model with recent := model.recent.dropWhile fun entry => entry.2 < cutoff }

/-- The choice of a bucket: one in recent use, or one by its weight. -/
def selectBucket : Py (PrefixSynthesisModel ρ) ℕ := do
  let coin ← onRng rand.random
  let model ← get
  if coin < model.cfg.pLocal ∧ 0 < model.recent.length then
    let i ← onRng (rand.choice model.recent.length)
    match model.recent[i]? with
    | none => Py.raise (.indexError "list index out of range")
    | some entry => pure entry.1
  else
    onRng (rand.choices model.zipfWeights)

/-- The first tokens of a bucket, which is extended where it is too short. -/
def takeFromBucket (bucketIdx : ℕ) (alignedPrefixLen : ℤ) (arrivalMs : Time) :
    Py (PrefixSynthesisModel ρ) (List Token) := do
  let model ← get
  match model.bucketPrefixes[bucketIdx]? with
  | none => Py.raise (.indexError "list index out of range")
  | some bucket =>
      let nToAdd := (alignedPrefixLen - bucket.length).toNat
      let added ← onRng (randomTokens rand.randint model.vocabSize nToAdd)
      modify fun model =>
        { model with
          bucketPrefixes := model.bucketPrefixes.set bucketIdx (bucket ++ added)
          recent := model.recent ++ [(bucketIdx, arrivalMs)] }
      pure (sliceTo (bucket ++ added) alignedPrefixLen)

/-- The prefix of a record: the share of the prompt, cut to full blocks, from one bucket. -/
def assignPrefixTokens (arrivalMs : Time) (promptLen : ℤ) :
    Py (PrefixSynthesisModel ρ) (List Token) := do
  let model ← get
  let layerIdx ← onRng (rand.choices (model.cfg.sharingLayers.map Prod.fst))
  match model.cfg.sharingLayers[layerIdx]? with
  | none => Py.raise (.indexError "list index out of range")
  | some (_, layerRatio) =>
      let rawPrefixLen := pyInt (layerRatio * promptLen)
      let alignedPrefixLen := rawPrefixLen / model.blockSize * model.blockSize
      if alignedPrefixLen = 0 then
        pure []
      else
        purgeExpired arrivalMs
        let bucketIdx ← selectBucket rand
        takeFromBucket rand bucketIdx alignedPrefixLen arrivalMs

/-! ### Valid models -/

/-- What a list of calls that may fail returns. -/
theorem mapM_eq_ok {ε α β : Type} {f : α → Except ε β} {l : List α} {bs : List β}
    (h : l.mapM f = .ok bs) : bs.length = l.length ∧ (∀ b ∈ bs, ∃ a ∈ l, f a = .ok b) ∧
      ∀ a ∈ l, ∃ b ∈ bs, f a = .ok b := by
  induction l generalizing bs with
  | nil =>
      cases h
      exact ⟨rfl, fun b hb => absurd hb List.not_mem_nil, fun a ha => absurd ha List.not_mem_nil⟩
  | cons a l ih =>
      rw [List.mapM_cons] at h
      cases hb : f a with
      | error e =>
          rw [hb] at h
          cases h
      | ok b =>
          cases hbs : l.mapM f with
          | error e =>
              rw [hb, hbs] at h
              cases h
          | ok bs' =>
              rw [hb, hbs] at h
              cases h
              obtain ⟨hlen, hall, heach⟩ := ih hbs
              refine ⟨congrArg (· + 1) hlen,
                List.forall_mem_cons.2 ⟨⟨a, List.mem_cons_self, hb⟩, fun b' hb' => ?_⟩,
                List.forall_mem_cons.2 ⟨⟨b, List.mem_cons_self, hb⟩, fun a' ha' => ?_⟩⟩
              · exact (hall b' hb').imp fun _ hx => ⟨List.mem_cons_of_mem _ hx.1, hx.2⟩
              · exact (heach a' ha').imp fun _ hx => ⟨List.mem_cons_of_mem _ hx.1, hx.2⟩

/-- If no power overflows, there is a weight for each bucket, and not all of them are zero. -/
theorem zipfWeights_spec {pow : ℕ → ℚ → Except PyErr ℚ}
    (hpos : ∀ n alpha x, 0 < n → pow n alpha = .ok x → 0 < x)
    (hone : ∀ alpha, pow 1 alpha = .ok 1) {cfg : PrefixSynthesisConfig} {weights : List ℚ}
    (h : cfg.zipfWeights pow = .ok weights) :
    weights.length = cfg.numBuckets ∧ 0 < weights.sum := by
  obtain ⟨hlen, hall, hfirst⟩ := mapM_eq_ok h
  rw [List.length_range] at hlen
  have hnonneg : ∀ b ∈ weights, 0 ≤ b := by
    intro b hb
    obtain ⟨i, -, hi⟩ := hall b hb
    cases hx : pow (i + 1) cfg.zipfAlpha with
    | error e =>
        rw [hx] at hi
        cases hi
    | ok x =>
        rw [hx] at hi
        cases hi
        exact binary64.round_nonneg (one_div_pos.2 (hpos _ _ _ (Nat.succ_pos i) hx)).le
  -- the first bucket has the weight one
  have hweight : (1 : ℚ) ∈ weights := by
    obtain ⟨b, hb, hi⟩ := hfirst 0 (List.mem_range.2 cfg.one_le_numBuckets)
    have hround : binary64.round (1 / 1) = 1 := by decide +kernel
    rw [zero_add, hone] at hi
    cases hi
    exact hround ▸ hb
  exact ⟨hlen, zero_lt_one.trans_le (List.single_le_sum hnonneg _ hweight)⟩

/-- Every bucket has a prefix, drawn from the vocabulary, and a weight, and the buckets in recent
use are buckets. -/
structure Valid (model : PrefixSynthesisModel ρ) : Prop where
  length_weights : model.zipfWeights.length = model.cfg.numBuckets
  weights_pos : 0 < model.zipfWeights.sum
  length_prefixes : model.bucketPrefixes.length = model.cfg.numBuckets
  tokens : ∀ bucket ∈ model.bucketPrefixes, ∀ tok ∈ bucket,
    Between 0 (model.vocabSize - 1 : ℤ) tok
  recent_lt : ∀ entry ∈ model.recent, entry.1 < model.cfg.numBuckets

variable {rand} {model : PrefixSynthesisModel ρ}

/-- The draws from the vocabulary of the model. -/
theorem draws_vocab (model : PrefixSynthesisModel ρ) :
    Draws rand.randint 0 (model.vocabSize - 1) (Between 0 (model.vocabSize - 1 : ℤ)) := by
  have := model.one_le_vocabSize
  exact rand.draws_randint 0 _ (by omega)

theorem Valid.withRng (hv : model.Valid) (rng : ρ) : ({ model with rng } : _).Valid :=
  ⟨hv.length_weights, hv.weights_pos, hv.length_prefixes, hv.tokens, hv.recent_lt⟩

theorem run_onRng_ok {α : Type} {m : Py ρ α} {a : α} {rng : ρ} (h : m.run model.rng = .ok a rng) :
    (onRng m).run model = .ok a { model with rng } :=
  Py.run_onPart_ok h

theorem run_purgeExpired (hv : model.Valid) (nowMs : Time) :
    ∃ model', (purgeExpired nowMs).run model = .ok () model' ∧ model'.Valid ∧
      model'.vocabSize = model.vocabSize := by
  refine ⟨_, rfl, ⟨hv.length_weights, hv.weights_pos, hv.length_prefixes, hv.tokens, ?_⟩, rfl⟩
  exact fun entry hentry => hv.recent_lt entry ((List.dropWhile_suffix _).subset hentry)

/-- The bucket that is chosen is one of the buckets. -/
theorem run_selectBucket (hv : model.Valid) :
    ∃ i model', (selectBucket rand).run model = .ok i model' ∧ model'.Valid ∧
      model'.vocabSize = model.vocabSize ∧ i < model'.cfg.numBuckets := by
  obtain ⟨coin, rng₁, hcoin⟩ := rand.draws_random model.rng
  rw [selectBucket, Py.run_bind_ok (run_onRng_ok hcoin), Py.run_get_bind]
  split
  case isTrue h =>
      -- a bucket in recent use
      obtain ⟨i, rng₂, hi, hlt⟩ := rand.draws_choice _ h.2 rng₁
      rw [Py.run_bind_ok (run_onRng_ok hi), List.getElem?_eq_getElem hlt]
      exact ⟨_, _, rfl, (hv.withRng rng₁).withRng rng₂, rfl,
        hv.recent_lt _ (List.getElem_mem hlt)⟩
  case isFalse h =>
      obtain ⟨i, rng₂, hi, hlt⟩ := rand.draws_choices _ hv.weights_pos rng₁
      rw [hv.length_weights] at hlt
      exact ⟨i, _, run_onRng_ok hi, (hv.withRng rng₁).withRng rng₂, rfl, hlt⟩

theorem run_takeFromBucket (hv : model.Valid) {i : ℕ} (hi : i < model.cfg.numBuckets) (n : ℕ)
    (arrivalMs : Time) :
    ∃ pre model', (takeFromBucket rand i n arrivalMs).run model = .ok pre model' ∧ model'.Valid ∧
      model'.vocabSize = model.vocabSize ∧ pre.length ≤ n ∧
      ∀ tok ∈ pre, Between 0 (model.vocabSize - 1 : ℤ) tok := by
  have hlt : i < model.bucketPrefixes.length := hv.length_prefixes ▸ hi
  obtain ⟨added, rng', hadd, -, htoks⟩ := run_randomTokens (draws_vocab model)
    ((n : ℤ) - (model.bucketPrefixes[i].length : ℤ)).toNat model.rng
  have htokens : ∀ tok ∈ model.bucketPrefixes[i] ++ added,
      Between 0 (model.vocabSize - 1 : ℤ) tok := by
    intro tok htok
    rcases List.mem_append.1 htok with htok | htok
    · exact hv.tokens _ (List.getElem_mem hlt) tok htok
    · exact htoks tok htok
  have hslice : sliceTo (model.bucketPrefixes[i] ++ added) n =
      (model.bucketPrefixes[i] ++ added).take n := by
    rw [sliceTo, if_neg (by omega), Int.toNat_natCast]
  refine ⟨(model.bucketPrefixes[i] ++ added).take n,
    { model with
      rng := rng'
      bucketPrefixes := model.bucketPrefixes.set i (model.bucketPrefixes[i] ++ added)
      recent := model.recent ++ [(i, arrivalMs)] },
    ?_, ⟨hv.length_weights, hv.weights_pos, ?_, ?_, ?_⟩, rfl, List.length_take_le _ _,
    fun tok htok => htokens tok (List.mem_of_mem_take htok)⟩
  · rw [takeFromBucket, Py.run_get_bind, List.getElem?_eq_getElem hlt]
    dsimp only
    rw [Py.run_bind_ok (run_onRng_ok hadd), Py.run_modify_bind, hslice]
    rfl
  · exact List.length_set.trans hv.length_prefixes
  · intro bucket hbucket
    rcases List.mem_or_eq_of_mem_set hbucket with hbucket | rfl
    · exact hv.tokens bucket hbucket
    · exact htokens
  · intro entry hentry
    rcases List.mem_append.1 hentry with hentry | hentry
    · exact hv.recent_lt entry hentry
    · rw [List.mem_singleton.1 hentry]
      exact hi

/-- The part of a prompt that a layer shares, cut to full blocks, is no longer than the prompt. -/
theorem exists_aligned {ratio : ℚ} (h0 : 0 ≤ ratio) (h1 : ratio ≤ 1) (promptLen bs : ℕ) :
    ∃ n : ℕ, pyInt (ratio * (promptLen : ℤ)) / bs * bs = n ∧ n ≤ promptLen := by
  have hnn : (0 : ℚ) ≤ ratio * (promptLen : ℤ) := mul_nonneg h0 (by simp)
  have hle : ratio * (promptLen : ℤ) ≤ (promptLen : ℤ) := mul_le_of_le_one_left (by simp) h1
  have hfloor : pyInt (ratio * (promptLen : ℤ)) = ⌊ratio * (promptLen : ℤ)⌋ :=
    if_neg (not_lt.2 hnn)
  obtain ⟨k, hk⟩ := Int.eq_ofNat_of_zero_le (Int.floor_nonneg.2 hnn)
  have hkle : (k : ℤ) ≤ promptLen := by
    rw [← hk]
    exact (Int.floor_le_floor hle).trans (by rw [Int.floor_intCast])
  refine ⟨k / bs * bs, ?_, (Nat.div_mul_le_self k bs).trans (by omega)⟩
  rw [hfloor, hk, Nat.cast_mul, Int.natCast_div]

/-- **A valid model returns a prefix no longer than the prompt**, whose tokens are of its
vocabulary, and stays valid. -/
theorem run_assignPrefixTokens (hv : model.Valid) (arrivalMs : Time) (promptLen : ℕ) :
    ∃ pre model', (assignPrefixTokens rand arrivalMs promptLen).run model = .ok pre model' ∧
      model'.Valid ∧ model'.vocabSize = model.vocabSize ∧ pre.length ≤ promptLen ∧
      ∀ tok ∈ pre, Between 0 (model.vocabSize - 1 : ℤ) tok := by
  have hpos : 0 < (model.cfg.sharingLayers.map Prod.fst).sum :=
    lt_of_lt_of_le (by decide +kernel) model.cfg.total_mem.1
  obtain ⟨i, rng₁, hi, hlt⟩ := rand.draws_choices _ hpos model.rng
  rw [List.length_map] at hlt
  obtain ⟨h0, h1⟩ := model.cfg.ratio_mem _ (List.getElem_mem hlt)
  obtain ⟨n, hn, hnle⟩ := exists_aligned h0 h1 promptLen model.blockSize
  have hv₁ := hv.withRng rng₁
  rw [assignPrefixTokens, Py.run_get_bind, Py.run_bind_ok (run_onRng_ok hi),
    List.getElem?_eq_getElem hlt]
  dsimp only
  rw [hn]
  split
  case isTrue h =>
      exact ⟨[], _, rfl, hv₁, rfl, Nat.zero_le _, fun tok htok => absurd htok List.not_mem_nil⟩
  case isFalse h =>
      obtain ⟨model₂, hpurge, hv₂, hvocab₂⟩ := run_purgeExpired hv₁ arrivalMs
      obtain ⟨j, model₃, hsel, hv₃, hvocab₃, hj⟩ := @run_selectBucket _ rand _ hv₂
      obtain ⟨pre, model₄, htake, hv₄, hvocab₄, hlen, htoks⟩ :=
        @run_takeFromBucket _ rand _ hv₃ j hj n arrivalMs
      have hvocab : model₃.vocabSize = model.vocabSize := hvocab₃.trans hvocab₂
      rw [Py.run_bind_ok hpurge, Py.run_bind_ok hsel]
      rw [hvocab] at htoks
      exact ⟨pre, model₄, htake, hv₄, hvocab₄.trans hvocab, hlen.trans hnle, htoks⟩

/-- A new model is valid. -/
theorem valid_make (cfg : PrefixSynthesisConfig) {blockSize vocabSize : ℕ} (hbs : 1 ≤ blockSize)
    (hvs : 1 ≤ vocabSize) {zipfWeights : List ℚ} (hlen : zipfWeights.length = cfg.numBuckets)
    (hpos : 0 < zipfWeights.sum) (initialPromptLen : ℕ) (rng : ρ) :
    ∃ model, make rand cfg blockSize vocabSize hbs hvs zipfWeights initialPromptLen rng =
      .ok model ∧ model.Valid ∧ model.vocabSize = vocabSize := by
  have hdraw : Draws rand.randint 0 (vocabSize - 1) (Between 0 (vocabSize - 1 : ℤ)) :=
    rand.draws_randint 0 _ (by omega)
  obtain ⟨prefixes, rng', hrun, hlength, htoks⟩ := Py.run_mapM_returns
    (f := fun _ => randomTokens rand.randint vocabSize
      (max 1 ((initialPromptLen + blockSize - 1) / blockSize) * blockSize))
    (fun (_ : ℕ) s => (run_randomTokens hdraw _ s).imp fun toks h =>
      h.imp fun _ h => ⟨h.1, h.2.2⟩) (List.range cfg.numBuckets) rng
  refine ⟨_, by rw [make, hrun], ⟨hlen, hpos, ?_, htoks, ?_⟩, rfl⟩
  · exact hlength.trans List.length_range
  · exact fun entry hentry => absurd hentry List.not_mem_nil

end PrefixSynthesisModel

end NanoKVRouter
