import Dataflow.Error
import Dataflow.Stealing

/-!
# Pool configuration
-/

namespace Dataflow

/-- What happens when a task ends with a broken contract. -/
inductive FaultPolicy where
  /-- The task is dropped and the pool goes on. -/
  | abortTask
  /-- The whole process ends. -/
  | abortProcess
  deriving DecidableEq, Repr

namespace FaultPolicy

/-- The name in configuration files. -/
def text : FaultPolicy → String
  | .abortTask => "abort_task"
  | .abortProcess => "abort_process"

/-- The policy as inspection shows it. -/
def inspect : FaultPolicy → String
  | .abortTask => "AbortTask"
  | .abortProcess => "AbortProcess"

end FaultPolicy

/-- How a pool is set up. The defaults are those of a machine with one processor. -/
structure PoolConfig where
  numWorkers : Nat := 1
  /-- The bound on accepted tasks that no worker has claimed yet; zero is no bound. -/
  maxQueueSize : Nat := 1024
  /-- How many tasks a thief takes at most. -/
  stealBatch : Nat := 4
  useWorkStealing : Bool := true
  /-- How long an idle worker sleeps before it looks again. -/
  idleTimeoutMs : Nat := 1
  /-- Bytes of stack for each worker. -/
  stackSize : Nat := 2 * 1024 * 1024
  threadNamePrefix : String := "ivarpool-worker"
  faultPolicy : FaultPolicy := .abortTask
  deriving DecidableEq, Repr

namespace PoolConfig

/-- How long an idle worker sleeps, in nanoseconds. -/
def idleTimeoutNs (c : PoolConfig) : Nat := c.idleTimeoutMs * 1000000

/-- Refuse a configuration that no pool can run with. -/
def validate (c : PoolConfig) : Except RuntimeError Unit :=
  if c.numWorkers = 0 then .error (.invalidConfig "num_workers must be at least 1")
  else if c.stealBatch = 0 then .error (.invalidConfig "steal_batch must be at least 1")
  else .ok ()

/-- The name of a worker's thread. -/
def workerName (c : PoolConfig) (worker : Nat) : String := c.threadNamePrefix ++ "-" ++ toString worker

/-- The configuration as inspection shows it. -/
def inspect (c : PoolConfig) : String :=
  Text.inspectRecord "PoolConfig"
    [("num_workers", toString c.numWorkers), ("max_queue_size", toString c.maxQueueSize),
      ("steal_batch", toString c.stealBatch), ("use_work_stealing", toString c.useWorkStealing),
      ("idle_timeout_ms", toString c.idleTimeoutMs), ("stack_size", toString c.stackSize),
      ("thread_name_prefix", Text.inspectString c.threadNamePrefix),
      ("fault_policy", c.faultPolicy.inspect)]

end PoolConfig

/-- Why a pool was not started. -/
inductive StartError where
  /-- No pool can run with the configuration. -/
  | refused (error : RuntimeError)
  /-- There is no room for so many workers. -/
  | crowded
  /-- The name of a thread holds the character that ends names. -/
  | badName (name : String)
  deriving DecidableEq, Repr

/-- The message. -/
def StartError.message : StartError → String
  | .refused error => error.message
  | .crowded => "capacity overflow"
  | .badName name =>
    let bytes := name.toUTF8.toList
    "thread name may not contain interior null bytes: " ++ Text.inspectCall "NulError"
      (toString (bytes.findIdx (· == 0)) ++ ", " ++ Text.inspectList (bytes.map toString))

/-- What keeps a pool with the configuration from starting. -/
def PoolConfig.startError? (c : PoolConfig) : Option StartError :=
  match c.validate with
  | .error e => some (.refused e)
  | .ok () =>
    if LocalQueues.workerBound ≤ c.numWorkers then some .crowded
    else if (c.workerName 0).contains '\x00' then some (.badName (c.workerName 0))
    else none

/-- A configuration being put together. -/
structure PoolBuilder where
  config : PoolConfig := {}

/-- One setting of a builder. -/
inductive PoolSetting where
  | numWorkers (n : Nat)
  | maxQueueSize (n : Nat)
  | workStealing (enabled : Bool)
  | faultPolicy (policy : FaultPolicy)
  | threadNamePrefix (text : String)

namespace PoolBuilder

/-- Change one setting. -/
def set (b : PoolBuilder) : PoolSetting → PoolBuilder
  | .numWorkers n => ⟨{ b.config with numWorkers := n }⟩
  | .maxQueueSize n => ⟨{ b.config with maxQueueSize := n }⟩
  | .workStealing enabled => ⟨{ b.config with useWorkStealing := enabled }⟩
  | .faultPolicy policy => ⟨{ b.config with faultPolicy := policy }⟩
  | .threadNamePrefix text => ⟨{ b.config with threadNamePrefix := text }⟩

/-- The configuration, if a pool can run with it. -/
def build (b : PoolBuilder) : Except RuntimeError PoolConfig :=
  match b.config.validate with
  | .ok () => .ok b.config
  | .error e => .error e

/-- The builder as inspection shows it. -/
def inspect (b : PoolBuilder) : String :=
  Text.inspectRecord "PoolBuilder" [("config", b.config.inspect)]

end PoolBuilder
end Dataflow
