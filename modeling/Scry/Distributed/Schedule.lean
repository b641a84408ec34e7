import Mathlib.Data.String.Basic
import Scry.Lib.Sorting

/-! # Distributed block scheduling

The blocks of a query are taken in one order, and each goes to the offer with the lowest score among the
workers that have room left, or stays with the coordinator.
-/

open Scry.Lib

namespace Scry.Distributed

def u64Max : Nat := 2 ^ 64 - 1

def saturatingAdd (a b : Nat) : Nat := min (a + b) u64Max

def saturatingMul (a b : Nat) : Nat := min (a * b) u64Max

def maxWorkersPerQuery : Nat := 64

def maxWorkerSnapshots : Nat := 256

def maxBlocksPerQuery : Nat := 100000

def maxBlocksPerWorker : Nat := 50000

def maxOffersPerBlock : Nat := maxWorkerSnapshots

def maxBytesPerWorker : Nat := 2 ^ 50

/-! ## Workers -/

inductive WorkerRole
  | query
  | other
  deriving DecidableEq

structure WorkerSnapshot where
  workerId : String
  role : WorkerRole
  deployment : String
  fragmentProtocolVersion : UInt32
  schemaVersions : List UInt32
  heartbeatUnixMs : UInt64
  draining : Bool
  fragmentSlotsLimit : UInt32
  fragmentSlotsInUse : UInt32
  admissionWaiters : UInt32
  recentlyRejected : Bool
  memoryPressurePerMille : UInt16
  loadCost : UInt64
  minimumCompletionMs : UInt64
  deriving DecidableEq

structure EligibilityRequirements where
  deployment : String
  protocolVersion : UInt32
  schemaVersion : UInt32
  nowUnixMs : UInt64
  remainingDeadlineMs : UInt64

structure EligibilityPolicy where
  freshnessMs : UInt64
  maximumFutureSkewMs : UInt64
  maximumMemoryPressurePerMille : UInt16

inductive IneligibilityReason
  | invalidSnapshot
  | stale
  | incompatibleRole
  | incompatibleDeployment
  | incompatibleProtocol
  | incompatibleSchema
  | draining
  | busy
  | admissionQueued
  | recentlyRejecting
  | memoryPressure
  | deadline
  deriving DecidableEq

def WorkerSnapshot.eligibility (w : WorkerSnapshot) (requirements : EligibilityRequirements)
    (policy : EligibilityPolicy) : Except IneligibilityReason Unit :=
  if w.workerId = "" ∨ w.fragmentSlotsLimit = 0 ∨ w.fragmentSlotsLimit < w.fragmentSlotsInUse ∨
      1000 < w.memoryPressurePerMille then .error .invalidSnapshot
  else if saturatingAdd requirements.nowUnixMs.toNat policy.maximumFutureSkewMs.toNat <
        w.heartbeatUnixMs.toNat ∨
      policy.freshnessMs.toNat < requirements.nowUnixMs.toNat - w.heartbeatUnixMs.toNat then
    .error .stale
  else if w.role ≠ .query then .error .incompatibleRole
  else if w.deployment ≠ requirements.deployment then .error .incompatibleDeployment
  else if w.fragmentProtocolVersion ≠ requirements.protocolVersion then .error .incompatibleProtocol
  else if requirements.schemaVersion ∉ w.schemaVersions then .error .incompatibleSchema
  else if w.draining then .error .draining
  else if w.fragmentSlotsInUse = w.fragmentSlotsLimit then .error .busy
  else if w.admissionWaiters ≠ 0 then .error .admissionQueued
  else if w.recentlyRejected then .error .recentlyRejecting
  else if policy.maximumMemoryPressurePerMille < w.memoryPressurePerMille then .error .memoryPressure
  else if requirements.remainingDeadlineMs < w.minimumCompletionMs then .error .deadline
  else .ok ()

/-! ## Offers and blocks -/

inductive LocalityClass
  | completeMain
  | allRequiredRanges
  | someRequiredRanges
  | footerAndRequiredSidecars
  | requiredSidecars
  | cold
  deriving DecidableEq

def LocalityClass.rank : LocalityClass → Nat
  | completeMain => 0
  | allRequiredRanges => 1
  | someRequiredRanges => 2
  | footerAndRequiredSidecars => 3
  | requiredSidecars => 4
  | cold => 5

structure BlockOffer where
  workerId : String
  blockId : String
  locality : LocalityClass
  admitted : Bool
  estimatedCost : UInt64
  deriving DecidableEq

structure SchedulableBlock where
  blockId : String
  estimatedBytes : UInt64
  deriving DecidableEq

/-! ## Configuration -/

structure SchedulerConfig where
  maximumWorkersPerQuery : Nat
  maximumBlocksPerQuery : Nat
  maximumBlocksPerWorker : Nat
  maximumBytesPerWorker : UInt64
  bytesPerLoadCost : UInt64
  localityStepCost : UInt64
  coldNonAffinityCost : UInt64

structure ConfigError where
  field : String
  message : String
  deriving DecidableEq

def EligibilityPolicy.validate (p : EligibilityPolicy) : Except ConfigError Unit :=
  if ¬ (100 ≤ p.freshnessMs ∧ p.freshnessMs ≤ 300000) then
    .error ⟨"freshness_ms", "must be in 100..=300000"⟩
  else if 60000 < p.maximumFutureSkewMs then .error ⟨"maximum_future_skew_ms", "must be <= 60000"⟩
  else if 1000 < p.maximumMemoryPressurePerMille then
    .error ⟨"maximum_memory_pressure_per_mille", "must be <= 1000"⟩
  else .ok ()

def outsideBounds (field : String) : ConfigError := ⟨field, "outside hard bounds"⟩

def SchedulerConfig.validate (c : SchedulerConfig) : Except ConfigError Unit :=
  if ¬ (1 ≤ c.maximumWorkersPerQuery ∧ c.maximumWorkersPerQuery ≤ maxWorkersPerQuery) then
    .error (outsideBounds "maximum_workers_per_query")
  else if ¬ (1 ≤ c.maximumBlocksPerQuery ∧ c.maximumBlocksPerQuery ≤ maxBlocksPerQuery) then
    .error (outsideBounds "maximum_blocks_per_query")
  else if ¬ (1 ≤ c.maximumBlocksPerWorker ∧ c.maximumBlocksPerWorker ≤ maxBlocksPerWorker) then
    .error (outsideBounds "maximum_blocks_per_worker")
  else if ¬ (1 ≤ c.maximumBytesPerWorker.toNat ∧ c.maximumBytesPerWorker.toNat ≤ maxBytesPerWorker) then
    .error (outsideBounds "maximum_bytes_per_worker")
  else if c.bytesPerLoadCost = 0 then .error ⟨"bytes_per_load_cost", "must be non-zero"⟩
  else if 1000000000 < c.localityStepCost then .error ⟨"locality_step_cost", "must be <= 1000000000"⟩
  else if 1000000000 < c.coldNonAffinityCost then
    .error ⟨"cold_non_affinity_cost", "must be <= 1000000000"⟩
  else .ok ()

/-! ## Schedules -/

inductive AssignmentReason
  | locality (class_ : LocalityClass)
  | rendezvousAffinity
  | lowerLoad
  | capacityOverride
  | localFallback
  deriving DecidableEq

structure BlockAssignment where
  blockId : String
  workerId : String
  estimatedBytes : UInt64
  locality : LocalityClass
  reason : AssignmentReason
  deriving DecidableEq

structure WorkerExclusion where
  workerId : String
  reason : IneligibilityReason
  deriving DecidableEq

structure Schedule where
  assignments : List BlockAssignment
  excludedWorkers : List WorkerExclusion
  deriving DecidableEq

inductive ScheduleError
  | invalidConfig (e : ConfigError)
  | tooManyBlocks (count maximum : Nat)
  | duplicateBlock (blockId : String)
  | duplicateWorker (workerId : String)
  | duplicateOffer (workerId blockId : String)
  | tooManyWorkers (count maximum : Nat)
  | tooManyOffers (count maximum : Nat)
  | unknownOfferBlock (blockId : String)
  | unknownOfferWorker (workerId : String)
  | deploymentMismatch
  | missingCoordinator
  deriving DecidableEq

/-! ## Rendezvous hashing -/

def toLeBytes (n : UInt64) : List UInt8 :=
  (List.range 8).map fun i => (n >>> UInt64.ofNat (8 * i)).toUInt8

def rendezvousScore (deployment signal blockId worker : String) : UInt64 :=
  let bytes := [deployment, signal, blockId, worker].flatMap fun component =>
    toLeBytes (UInt64.ofNat component.utf8ByteSize) ++ component.toUTF8.toList
  let hash := bytes.foldl (fun hash byte => (hash ^^^ byte.toUInt64) * 0x100000001b3) 0xcbf29ce484222325
  let hash := (hash ^^^ (hash >>> 30)) * 0xbf58476d1ce4e5b9
  let hash := (hash ^^^ (hash >>> 27)) * 0x94d049bb133111eb
  hash ^^^ (hash >>> 31)

def rendezvousGreater (deployment signal blockId left right : String) : Bool :=
  let scoreLeft := rendezvousScore deployment signal blockId left
  let scoreRight := rendezvousScore deployment signal blockId right
  scoreRight < scoreLeft || (scoreLeft == scoreRight && decide (left < right))

/-- `max_by`, which keeps the later of two that compare equal. -/
def rendezvousWorker (deployment signal blockId : String) : List String → Option String
  | [] => none
  | worker :: rest => some (rest.foldl (fun best next =>
      if rendezvousGreater deployment signal blockId best next then best else next) worker)

/-! ## Validation -/

def admitWorkers (requirements : EligibilityRequirements) (policy : EligibilityPolicy) :
    List WorkerSnapshot → List WorkerSnapshot → List WorkerExclusion →
      Except ScheduleError (List WorkerSnapshot × List WorkerExclusion)
  | [], eligible, exclusions => .ok (eligible, exclusions)
  | w :: rest, eligible, exclusions =>
    if eligible.any (·.workerId = w.workerId) || exclusions.any (·.workerId = w.workerId) then
      .error (.duplicateWorker w.workerId)
    else
      match w.eligibility requirements policy with
      | .ok () => admitWorkers requirements policy rest (eligible ++ [w]) exclusions
      | .error reason =>
        admitWorkers requirements policy rest eligible (exclusions ++ [⟨w.workerId, reason⟩])

variable (blocks : List SchedulableBlock) (eligible : List WorkerSnapshot) (offers : List BlockOffer)
   (b : SchedulableBlock) (o : BlockOffer)

def checkBlock : Except ScheduleError Unit :=
  refuseIf (b.blockId = "") (.duplicateBlock b.blockId)

def checkBlocks : List SchedulableBlock → Except ScheduleError Unit :=
  scanDistinct checkBlock (·.blockId) (fun b => .duplicateBlock b.blockId) []

def checkOffer :
    Except ScheduleError Unit := do
  refuseIf (∀ b ∈ blocks, b.blockId ≠ o.blockId) (.unknownOfferBlock o.blockId)
  refuseIf (∀ w ∈ eligible, w.workerId ≠ o.workerId) (.unknownOfferWorker o.workerId)

def offerKey : String × String := (o.blockId, o.workerId)

def checkOffers :
    List BlockOffer → Except ScheduleError Unit :=
  scanDistinct (checkOffer blocks eligible) offerKey (fun o => .duplicateOffer o.workerId o.blockId) []

def offerFor (blockId workerId : String) : Option BlockOffer :=
  offers.find? fun o => offerKey o = (blockId, workerId)

/-! ## The order of the blocks -/

def bestLocality (blockId : String) : Nat :=
  (((eligible.filterMap fun w => offerFor offers blockId w.workerId).filter (·.admitted)).map
    (·.locality.rank)).foldl min LocalityClass.cold.rank

/-- Blocks are taken by best locality, the larger first, and by id. -/
def blockKey :
    Nat ×ₗ Natᵒᵈ ×ₗ String :=
  toLex (bestLocality eligible offers b.blockId, toLex (OrderDual.toDual b.estimatedBytes.toNat, b.blockId))

/-! ## The loop -/

structure WorkerState where
  blocks : Nat
  bytes : Nat
  deriving DecidableEq

structure Candidate where
  workerId : String
  locality : LocalityClass
  score : Nat
  isLocal : Bool
  deriving DecidableEq

structure Loads where
  states : String → WorkerState
  activeRemote : List String

def divCeil (value divisor : Nat) : Nat := value / divisor + if value % divisor = 0 then 0 else 1

section

variable (coordinatorId : String) (config : SchedulerConfig)

variable (loads : Loads) (offers : List BlockOffer) (affinity : Option String) (b : SchedulableBlock)

/-- As many blocks or bytes as it may, or one worker too many. -/
def atCapacity (workerId : String) (b : SchedulableBlock) : Prop :=
  config.maximumBlocksPerWorker ≤ (loads.states workerId).blocks ∨
    config.maximumBytesPerWorker.toNat <
      saturatingAdd (loads.states workerId).bytes b.estimatedBytes.toNat ∨
    workerId ∉ loads.activeRemote ∧ config.maximumWorkersPerQuery ≤ loads.activeRemote.length

instance (loads : Loads) (workerId : String) (b : SchedulableBlock) :
    Decidable (atCapacity config loads workerId b) := inferInstanceAs (Decidable (_ ∨ _))

def score (w : WorkerSnapshot)
    (o : BlockOffer) : Nat :=
  let projectedUnits := divCeil (saturatingAdd (loads.states w.workerId).bytes b.estimatedBytes.toNat)
    config.bytesPerLoadCost.toNat
  let affinityPenalty :=
    if o.locality = .cold ∧ affinity.any (· ≠ w.workerId) then config.coldNonAffinityCost.toNat else 0
  saturatingAdd (saturatingAdd (saturatingAdd (saturatingAdd w.loadCost.toNat projectedUnits)
    o.estimatedCost.toNat) (saturatingMul o.locality.rank config.localityStepCost.toNat)) affinityPenalty

def candidate (loads : Loads) (affinity : Option String)
    (b : SchedulableBlock) (w : WorkerSnapshot) : Option Candidate :=
  match offerFor offers b.blockId w.workerId with
  | none => none
  | some o =>
    if ¬ o.admitted then none
    else if w.workerId ≠ coordinatorId ∧ atCapacity config loads w.workerId b then none
    else some ⟨w.workerId, o.locality, score config loads affinity b w o, w.workerId = coordinatorId⟩

def candidateKey (c : Candidate) : Nat ×ₗ String := toLex (c.score, c.workerId)

def assignmentReason
    (candidates : List Candidate) (chosen : Candidate) : AssignmentReason :=
  let preferredWasCapped := affinity.any fun winner =>
    (offerFor offers b.blockId winner).isSome && !candidates.any (·.workerId = winner)
  if chosen.locality ≠ .cold then .locality chosen.locality
  else if affinity = some chosen.workerId then .rendezvousAffinity
  else if preferredWasCapped then .capacityOverride
  else .lowerLoad

def Loads.add (chosen : Candidate) (b : SchedulableBlock) : Loads where
  states := Function.update loads.states chosen.workerId
    ⟨(loads.states chosen.workerId).blocks + 1,
      saturatingAdd (loads.states chosen.workerId).bytes b.estimatedBytes.toNat⟩
  activeRemote :=
    if chosen.isLocal ∨ chosen.workerId ∈ loads.activeRemote then loads.activeRemote
    else loads.activeRemote ++ [chosen.workerId]

def assignBlock (eligible : List WorkerSnapshot) (offers : List BlockOffer) (affinityOf : String → Option String)
    (loads : Loads) (b : SchedulableBlock) : Loads × BlockAssignment :=
  let affinity := affinityOf b.blockId
  let candidates := sortBy candidateKey
    (eligible.filterMap (candidate coordinatorId config offers loads affinity b))
  match candidates.head? with
  | some chosen => (loads.add chosen b, ⟨b.blockId, chosen.workerId, b.estimatedBytes, chosen.locality,
      assignmentReason offers affinity b candidates chosen⟩)
  | none => (loads, ⟨b.blockId, coordinatorId, b.estimatedBytes, .cold, .localFallback⟩)

def assignBlocks (eligible : List WorkerSnapshot) (offers : List BlockOffer)
    (affinityOf : String → Option String) :
    List SchedulableBlock → Loads → List BlockAssignment → List BlockAssignment
  | [], _, assignments => assignments
  | b :: rest, loads, assignments =>
    let (loads, assignment) := assignBlock coordinatorId config eligible offers affinityOf loads b
    assignBlocks eligible offers affinityOf rest loads (assignments ++ [assignment])

end

def noLoads : Loads := ⟨fun _ => ⟨0, 0⟩, []⟩

/-- A map is the list of its values in key order. -/
def scheduleBlocks (deployment signal coordinatorId : String) (blocks : List SchedulableBlock)
    (workers : List WorkerSnapshot) (offers : List BlockOffer) (requirements : EligibilityRequirements)
    (policy : EligibilityPolicy) (config : SchedulerConfig) : Except ScheduleError Schedule := do
  policy.validate.mapError .invalidConfig
  config.validate.mapError .invalidConfig
  refuseIf (coordinatorId = "") .missingCoordinator
  refuseIf (deployment ≠ requirements.deployment) .deploymentMismatch
  refuseIf (workers.length > maxWorkerSnapshots) (.tooManyWorkers workers.length maxWorkerSnapshots)
  let maximumOffers := saturatingMul blocks.length maxOffersPerBlock
  refuseIf (offers.length > maximumOffers) (.tooManyOffers offers.length maximumOffers)
  refuseIf (blocks.length > config.maximumBlocksPerQuery)
    (.tooManyBlocks blocks.length config.maximumBlocksPerQuery)
  checkBlocks blocks
  let (admitted, exclusions) ← admitWorkers requirements policy workers [] []
  checkOffers blocks admitted offers
  let eligible := sortBy (·.workerId) admitted
  let affinityWorkers := (eligible.map (·.workerId)).filter (· ≠ coordinatorId)
  let assignments := assignBlocks coordinatorId config eligible offers
    (fun blockId => rendezvousWorker deployment signal blockId affinityWorkers)
    (sortBy (blockKey eligible offers) blocks) noLoads []
  return ⟨sortBy (·.blockId) assignments, sortBy (·.workerId) exclusions⟩

end Scry.Distributed
