/-
**The configuration the simulator reads.**

The sub-configurations of the YAML root that a modelled function reads, with the bounds their
schema checks (`ge=1`, `gt=0`) as fields, so that no configuration outside them can be built.
Fractional values are rationals: the arithmetic of the simulator is taken to be exact.

Main definitions:

* `Tier` — the three storage tiers, and `Tier.ofName` which reads a tier name;
* `NodeConfig`, `ModelConfig`, `BandwidthConfig`, `SLOConfig`, `WorkloadConfig`,
  `GeneratorConfig` — the sub-configurations;
* `NanoKVConfig` — the part of the root that stamps requests.
-/

import Mathlib.Data.Rat.Defs
import Mathlib.Algebra.Order.Ring.Unbundled.Rat

set_option relaxedAutoImplicit false
set_option autoImplicit false

namespace NanoKVRouter

/-- A token id. -/
abbrev Token : Type := ℤ

/-- The identifier of a node of the cluster. -/
abbrev NodeId : Type := String

/-- The identifier of a request. -/
abbrev RequestId : Type := String

/-- A simulated time or duration, in milliseconds. -/
abbrev Time : Type := ℚ

/-- The storage tiers, fastest first. -/
inductive Tier
  | gpu
  | cpu
  | disk
deriving DecidableEq, Repr

namespace Tier

/-- The name under which the configuration and the public methods know a tier. -/
def name : Tier → String
  | gpu => "gpu"
  | cpu => "cpu"
  | disk => "disk"

/-- The tier of a name; there are exactly three. -/
def ofName : String → Option Tier
  | "gpu" => some gpu
  | "cpu" => some cpu
  | "disk" => some disk
  | _ => none

@[simp] theorem ofName_name (t : Tier) : ofName t.name = some t := by
  cases t <;> rfl

end Tier

/-- Per-node resource limits. -/
structure NodeConfig where
  gpuBlocks : ℕ := 2000
  cpuBlocks : ℕ := 10000
  diskBlocks : ℕ := 100000
  capacity : ℕ := 32
  one_le_capacity : 1 ≤ capacity := by decide
deriving DecidableEq

/-- `NodeConfig()`. -/
def NodeConfig.defaults : NodeConfig := {}

/-- The capacity of a tier, in blocks. -/
def NodeConfig.blocks (cfg : NodeConfig) : Tier → ℕ
  | .gpu => cfg.gpuBlocks
  | .cpu => cfg.cpuBlocks
  | .disk => cfg.diskBlocks

/-- The constants of the latency model. -/
structure ModelConfig where
  blockSize : ℕ := 16
  kvBytesPerToken : ℕ := 512
  prefillCostPerTokenMs : Time := 33 / 1000
  decodeBaseMs : Time := 5
  marginalDecodeMs : Time := 1 / 2
  prefillChunkSize : ℕ := 512
  one_le_blockSize : 1 ≤ blockSize := by decide
  one_le_kvBytesPerToken : 1 ≤ kvBytesPerToken := by decide
  prefillCostPerTokenMs_pos : 0 < prefillCostPerTokenMs := by decide +kernel
  decodeBaseMs_pos : 0 < decodeBaseMs := by decide +kernel
  marginalDecodeMs_pos : 0 < marginalDecodeMs := by decide +kernel
  one_le_prefillChunkSize : 1 ≤ prefillChunkSize := by decide
deriving DecidableEq

/-- `ModelConfig()`. -/
def ModelConfig.defaults : ModelConfig := {}

/-- Inter-tier and inter-node bandwidths, in bytes per second. -/
structure BandwidthConfig where
  gpuToGpu : ℚ := 300000000000
  gpuToCpu : ℚ := 32000000000
  cpuToDisk : ℚ := 5000000000
  gpuToGpu_pos : 0 < gpuToGpu := by decide +kernel
  gpuToCpu_pos : 0 < gpuToCpu := by decide +kernel
  cpuToDisk_pos : 0 < cpuToDisk := by decide +kernel
deriving DecidableEq

/-- `BandwidthConfig()`. -/
def BandwidthConfig.defaults : BandwidthConfig := {}

/-- The service-level targets that requests are stamped with. -/
structure SLOConfig where
  ttftTargetMs : Time := 2000
  tbtTargetMs : Time := 100
  ttftTargetMs_pos : 0 < ttftTargetMs := by decide +kernel
  tbtTargetMs_pos : 0 < tbtTargetMs := by decide +kernel
deriving DecidableEq

/-- `SLOConfig()`. -/
def SLOConfig.defaults : SLOConfig := {}

/-- The knobs of the synthetic workload. -/
structure WorkloadConfig where
  avgOutputLen : ℕ := 256
  one_le_avgOutputLen : 1 ≤ avgOutputLen := by decide
deriving DecidableEq

/-- `WorkloadConfig()`. -/
def WorkloadConfig.defaults : WorkloadConfig := {}

/-- The parameters of the request generators. -/
structure GeneratorConfig where
  vocabSize : ℕ := 32000
  one_le_vocabSize : 1 ≤ vocabSize := by decide
deriving DecidableEq

/-- `GeneratorConfig()`. -/
def GeneratorConfig.defaults : GeneratorConfig := {}

/-- The root configuration, as far as a request is made from it. -/
structure NanoKVConfig where
  model : ModelConfig := ModelConfig.defaults
  slo : SLOConfig := SLOConfig.defaults
  workload : WorkloadConfig := WorkloadConfig.defaults
  generator : GeneratorConfig := GeneratorConfig.defaults
deriving DecidableEq

/-- `NanoKVConfig()`. -/
def NanoKVConfig.defaults : NanoKVConfig := {}

end NanoKVRouter
