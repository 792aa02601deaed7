/-
**Replaying a trace.**

The generator reads the file line by line.  It schedules the arrival of the first record when it is
attached, and the arrival of the next one whenever a request arrives; lines that are not JSON are
skipped.  It closes the file at its end, when as many requests as asked for have been scheduled, and
when a record cannot be made a request.

The file is the list of the lines that have not been read, whose end is the empty string that
`readline` returns there.  What `json.loads` makes of a line is a parameter.

Main definitions:

* `TraceConfig`, `TraceRecord` — the parameters of a replay, and what is read of a record;
* `TraceGenerator` — the generator; one in the mode `synthesis` has a synthesis model;
* `TraceGenerator.nextRequest` — the next request of the file;
* `TraceGenerator.scheduleNext`, `TraceGenerator.attach` — `_schedule_next` and `attach`;
* `TraceGenerator.onArriveChain` — the handler of the chain.

Main results:

* `TraceGenerator.run_onArriveChain` — the handler is the call of `_schedule_next`.
-/

import NanoKVRouter.PrefixSynthesis
import NanoKVRouter.SimulationEngineRuns
import NanoKVRouter.Simulator

set_option relaxedAutoImplicit false
set_option autoImplicit false

namespace NanoKVRouter

/-! ### Configuration and records -/

/-- How the prompts of a trace are derived. -/
inductive PrefixMode
  | none
  | hashIds
  | synthesis
deriving DecidableEq

/-- The parameters of a replay. -/
structure TraceConfig where
  speedup : ℚ := 1
  maxRequests : Option ℕ := Option.none
  prefixMode : PrefixMode := .hashIds
  speedup_pos : 0 < speedup := by decide +kernel
  one_le_maxRequests : ∀ m ∈ maxRequests, 1 ≤ m := by decide

/-- `TraceConfig(path)`. -/
def TraceConfig.defaults : TraceConfig := {}

/-- The fields of a record, those that it has. -/
structure TraceRecord where
  arrivalMs : Option ℚ := none
  timestamp : Option ℚ := none
  inputLength : Option ℤ := none
  outputLength : Option ℤ := none
  hashIds : Option (List ℤ) := none
deriving DecidableEq

/-- `record.get("arrival_ms", record.get("timestamp", 0))`. -/
def TraceRecord.rawArrivalMs (record : TraceRecord) : ℚ :=
  record.arrivalMs.getD (record.timestamp.getD 0)

/-- `record[field]`. -/
def TraceRecord.require {σ α : Type} (field : String) : Option α → Py σ α
  | some a => pure a
  | none => Py.raise (.keyError field)

/-! ### The generator -/

/-- The generator.  `file` are the lines that have not been read, or nothing when it is closed. -/
structure TraceGenerator (ρ : Type) where
  config : NanoKVConfig
  traceCfg : TraceConfig
  synthesisModel : Option (PrefixSynthesisModel ρ)
  rng : ρ
  idx : ℕ
  file : Option (List String)
  attached : Bool
  hasModel : traceCfg.prefixMode = .synthesis → synthesisModel.isSome

namespace TraceGenerator

variable {ρ : Type}

/-- A new generator; `rng` is the state of its random generator for the seed of the
configuration. -/
def make (config : NanoKVConfig) (traceCfg : TraceConfig)
    (synthesisModel : Option (PrefixSynthesisModel ρ)) (rng : ρ) :
    Except PyErr (TraceGenerator ρ) :=
  if h : traceCfg.prefixMode = .synthesis ∧ synthesisModel.isNone then
    .error (.valueError ("prefix_mode='synthesis' requires synthesis_model; " ++
      "construct TraceGenerator with synthesis_model=PrefixSynthesisModel(...)"))
  else
    .ok {
      config, traceCfg, synthesisModel, rng
      idx := 0
      file := none
      attached := false
      hasModel := fun hmode => by simpa [hmode, Option.isSome_iff_ne_none] using h }

/-- `_close`. -/
def close (gen : TraceGenerator ρ) : TraceGenerator ρ := { gen with file := none }

/-- `max_requests` requests have been scheduled. -/
def capped (gen : TraceGenerator ρ) : Bool :=
  match gen.traceCfg.maxRequests with
  | some m => m ≤ gen.idx
  | none => false

/-- `try: m except Exception: self._close(); raise`. -/
def closing {α : Type} (m : Py (TraceGenerator ρ) α) : Py (TraceGenerator ρ) α := fun gen =>
  match m gen with
  | .ok a gen' => .ok a gen'
  | .error e gen' => .error e gen'.close

/-- A call of the generator's own random generator. -/
def onRng {α : Type} (m : Py ρ α) : Py (TraceGenerator ρ) α :=
  Py.onPart rng (fun rng gen => { gen with rng }) m

/-- The text of the error of a record without hash ids. -/
def missingHashIds (idx : ℕ) : String :=
  s!"prefix_mode='hash_ids' requires 'hash_ids' field; got record without it (request idx={idx}). "
    ++ "Use a cleaner trace or set prefix_mode='none'."

/-- `assert len(tokens) == input_length`. -/
def assertLength {σ : Type} (tokens : List Token) (inputLength : ℤ) : Py σ (List Token) :=
  if (tokens.length : ℤ) = inputLength then pure tokens else Py.raise (.assertionError "")

section Replay

variable (rand : PyRandom ρ) (loads : String → Option TraceRecord)
  (hexdigest : List UInt8 → String) (uuid4 : RequestId)

/-- `_build_token_ids_from_record`: dispatch token synthesis based on the mode. -/
def buildTokenIdsFromRecord (record : TraceRecord) : Py (TraceGenerator ρ) (List Token) := do
  let gen ← get
  let inputLength ← TraceRecord.require "input_length" record.inputLength
  let blockSize := gen.config.model.blockSize
  let vocabSize := gen.config.generator.vocabSize
  match h : gen.traceCfg.prefixMode with
  | .none =>
      let tokens ← onRng (randomTokens rand.randint vocabSize inputLength.toNat)
      assertLength tokens inputLength
  | .hashIds =>
      match record.hashIds with
      | none => Py.raise (.valueError (missingHashIds gen.idx))
      | some hashIds =>
          onRng (buildTokenIds rand.randint hashIds inputLength blockSize vocabSize)
  | .synthesis =>
      let pre ← Py.onPart (fun _ => gen.synthesisModel.get (gen.hasModel h))
        (fun model gen => { gen with synthesisModel := some model, hasModel := fun _ => rfl })
        (PrefixSynthesisModel.assignPrefixTokens rand record.rawArrivalMs inputLength)
      let suffix ← onRng (randomTokens rand.randint vocabSize (inputLength - pre.length).toNat)
      assertLength (pre ++ suffix) inputLength

/-- The request of a record. -/
def requestOf (record : TraceRecord) : Py (TraceGenerator ρ) StampedRequest := do
  let gen ← get
  let arrivalMs := record.rawArrivalMs / gen.traceCfg.speedup
  let tokenIds ← buildTokenIdsFromRecord rand record
  let expectedOutputLen ← TraceRecord.require "output_length" record.outputLength
  makeRequest hexdigest uuid4 tokenIds arrivalMs gen.config 0 (some expectedOutputLen)

/-- `_schedule_next` up to its call of `engine.schedule`, on an open file with these lines left:
the request that is scheduled next, if there is one. -/
def nextRequest : List String → Py (TraceGenerator ρ) (Option StampedRequest)
  | [] => do
      -- the file is closed here, whether or not requests are still asked for
      modify close
      pure none
  | line :: rest => do
      if (← get).capped then
        modify close
        pure none
      else
        modify fun gen => { gen with file := some rest }
        match loads line with
        | none => nextRequest rest
        | some record =>
            let req ← closing (requestOf rand hexdigest uuid4 record)
            let idx := (← get).idx
            modify fun gen => { gen with idx := idx + 1 }
            pure (some { req with requestId := s!"trace-{idx}" })

/-- The arrival of a request. -/
def arrivalOf (req : StampedRequest) : Event Payload where
  time := req.arrivalTime
  payload := .requestArrive req.toRequest

/-- `_schedule_next`: read one record from the file and schedule its arrival. -/
def scheduleNext : Py (SimulationEngine Payload × TraceGenerator ρ) Unit := do
  match (← get).2.file with
  | none => pure ()
  | some lines =>
      let next ← Py.onPart Prod.snd (fun gen s => (s.1, gen))
        (nextRequest rand loads hexdigest uuid4 lines)
      match next with
      | none => pure ()
      | some req =>
          Py.onPart Prod.fst (fun eng s => (eng, s.2)) (SimulationEngine.schedule (arrivalOf req))

/-- The text of the error of a second `attach`. -/
def attachedTwice : String :=
  "TraceGenerator.attach() called more than once; arrival events would interleave from two " ++
    "parallel chains. Construct a fresh TraceGenerator for a fresh simulation."

/-- `attach`: open the file, which has these lines, and schedule the first arrival.  The handler of
the chain is registered with the engine's handlers. -/
def attach (lines : List String) : Py (SimulationEngine Payload × TraceGenerator ρ) Unit := do
  if (← get).2.attached then
    Py.raise (.runtimeError attachedTwice)
  else
    modify fun s => (s.1, { s.2 with attached := true, file := some lines })
    scheduleNext rand loads hexdigest uuid4

/-- What is left of a handler after its call of `schedule`: the exception, if that raised. -/
def orRaise {σ : Type} : Option PyErr → HandlerProgram Payload σ
  | none => .done
  | some e => .raise e

/-- The call that `onArriveChain` makes in a state of the generator. -/
def chainCall {τ : Type} (s : TraceGenerator ρ × τ) : HandlerProgram Payload (TraceGenerator ρ × τ) :=
  match s.1.file with
  | none => .done
  | some lines =>
      match (nextRequest rand loads hexdigest uuid4 lines).run s.1 with
      | .error e gen => .write (gen, s.2) (.raise e)
      | .ok none gen => .write (gen, s.2) .done
      | .ok (some req) gen => .write (gen, s.2) (.schedule (arrivalOf req) orRaise)

/-- `_on_arrive_chain`, as a handler that works beside others on a state of type `τ`. -/
def onArriveChain {τ : Type} (_ev : Event Payload) :
    HandlerProgram Payload (TraceGenerator ρ × τ) :=
  .read fun _now s => chainCall rand loads hexdigest uuid4 s

/-- The handler of the chain is the call of `_schedule_next`. -/
theorem run_onArriveChain {τ : Type} (ev : Event Payload)
    (s : SimulationEngine Payload × (TraceGenerator ρ × τ)) :
    (onArriveChain rand loads hexdigest uuid4 ev).run.run s =
      (Py.onPart (fun s : SimulationEngine Payload × (TraceGenerator ρ × τ) => (s.1, s.2.1))
        (fun p s => (p.1, (p.2, s.2.2))) (scheduleNext rand loads hexdigest uuid4)).run s := by
  obtain ⟨eng, gen, t⟩ := s
  change (chainCall rand loads hexdigest uuid4 (gen, t)).run.run (eng, (gen, t)) = _
  rw [Py.run_onPart, chainCall, scheduleNext, Py.run_get_bind]
  dsimp only
  cases gen.file with
  | none => rfl
  | some lines =>
      dsimp only
      cases hnext : (nextRequest rand loads hexdigest uuid4 lines).run gen with
      | error e gen' =>
          have hpart : (Py.onPart Prod.snd (fun gen s => (s.1, gen))
              (nextRequest rand loads hexdigest uuid4 lines)).run (eng, gen) =
                .error e (eng, gen') := Py.run_onPart_error hnext
          rw [Py.run_bind_error hpart]
          rfl
      | ok next gen' =>
          have hpart : (Py.onPart Prod.snd (fun gen s => (s.1, gen))
              (nextRequest rand loads hexdigest uuid4 lines)).run (eng, gen) =
                .ok next (eng, gen') := Py.run_onPart_ok hnext
          rw [Py.run_bind_ok hpart]
          cases next with
          | none => rfl
          | some req =>
              by_cases hpast : (arrivalOf req).time < eng.currentTime
              · have herror := SimulationEngine.run_schedule_error hpast
                dsimp only
                rw [Py.run_onPart_error herror]
                exact (Py.run_bind_ok
                  (Py.run_onPart_ok (HandlerProgram.run_outcome_error herror))).trans rfl
              · have hok : (SimulationEngine.schedule (arrivalOf req)).run eng =
                    .ok () (eng.push (arrivalOf req) (not_lt.1 hpast)) :=
                  SimulationEngine.run_schedule_ok_iff.2 ⟨not_lt.1 hpast, rfl⟩
                dsimp only
                rw [Py.run_onPart_ok hok]
                exact (Py.run_bind_ok
                  (Py.run_onPart_ok (HandlerProgram.run_outcome_ok hok))).trans rfl

end Replay

end TraceGenerator

end NanoKVRouter
