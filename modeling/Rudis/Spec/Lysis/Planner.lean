import Rudis.Spec.Primitives

/-!
# `Rudis.Spec.Lysis.Planner`: the work plan of a sharded Lysis

`program_v1/planner.rs`: the padded binary tree over the primary shards, the units of the ten
phases, and the arithmetic between a unit's position and its ordinal in the plan. All integers are
`u32` in the source: a checked operator is `checkedAdd 32` or `checkedShl`, an unchecked addition is
`wrappingAdd 32`. Unit specifications, which bind hashes of inputs to a position, are left out.
-/

namespace Rudis.Lysis

def primaryWorkShardSize : Nat := 256

inductive UnitPhase where
  | enumerate
  | fidelityMap
  | fixedReduce
  | amountMap
  | gratisPrefix
  | gratisPrefixDown
  | outputFinalize
  | ownerShuffle
  | bucketShuffle
  | rootReduce
  deriving DecidableEq

/-- What a reducer reads from its children. -/
inductive InputPurpose where
  | fidelityPartials
  | gratisPrefixTable
  | rootSummary
  deriving DecidableEq

/-- Where a unit stands in its phase. -/
inductive PlannedUnitPosition where
  | primary (phase : UnitPhase) (ordinal : Nat)
  | treeNode (phase : UnitPhase) (level index : Nat)
  | runSpan (phase : UnitPhase) (level index startRun endRun : Nat)
  deriving DecidableEq

def PlannedUnitPosition.phase : PlannedUnitPosition → UnitPhase
  | .primary phase _ => phase
  | .treeNode phase _ _ => phase
  | .runSpan phase _ _ _ _ => phase

/-- What a unit consumes: another unit's output, or the empty value of a padded leaf. -/
inductive PlannedProducer where
  | unit (position : PlannedUnitPosition)
  | canonicalEmpty (purpose : InputPurpose) (paddedOrdinal : Nat)
  deriving DecidableEq

inductive PlannerError where
  | emptyTributePopulation
  | primaryShardOutOfRange (ordinal primaryLeafCount : Nat)
  | phasePositionOutOfRange (phase : UnitPhase) (ordinal phaseUnitCount : Nat)
  | planPositionOutOfRange (ordinal totalUnitCount : Nat)
  | producerMembershipMismatch
  | integerOverflow
  deriving DecidableEq

/-- The fixed padded binary topology. -/
structure PaddedBinaryTree where
  tributeCount : Option Nat
  primaryLeafCount : Nat
  paddedLeafCount : Nat
  height : Nat
  deriving DecidableEq

/-- A primary shard: its ordinal and the tributes it covers. -/
structure PrimaryShard where
  ordinal : Nat
  startOrdinal : Nat
  endOrdinal : Nat
  deriving DecidableEq

def lysisPlanPhaseOrder : List UnitPhase :=
  [.enumerate, .fidelityMap, .fixedReduce, .amountMap, .gratisPrefix, .gratisPrefixDown,
    .outputFinalize, .ownerShuffle, .bucketShuffle, .rootReduce]

/-! ### Integer operators -/

/-- `1_u32.checked_shl(k)`. -/
def checkedShl (k : Nat) : Option Nat := if k < 32 then some (2 ^ k) else none

/-- The least power of two that is at least `n`. -/
def nextPowerOfTwo (n : Nat) : Nat := if n ≤ 1 then 1 else 2 ^ (Nat.log2 (n - 1) + 1)

/-- `u32::checked_next_power_of_two`. -/
def checkedNextPowerOfTwo (n : Nat) : Option Nat :=
  if nextPowerOfTwo n < 2 ^ 32 then some (nextPowerOfTwo n) else none

/-- The `u32` sum of an iterator. -/
def sum32 (l : List Nat) : Nat := l.foldl (wrappingAdd 32) 0

/-- The levels `1..level`, the upper end excluded. -/
def levelsBelow (level : Nat) : List Nat := List.range' 1 (level - 1)

/-! ### The tree -/

/-- Shards needed for a population. -/
def primaryWorkUnitCount (tributeCount : Nat) : Except PlannerError Nat := do
  throwIf (tributeCount = 0) .emptyTributePopulation
  pure (tributeCount / primaryWorkShardSize
    + if tributeCount % primaryWorkShardSize = 0 then 0 else 1)

namespace PaddedBinaryTree

/-- The tree over a number of primary leaves. -/
def forPrimaryLeafCount (primaryLeafCount : Nat) : Except PlannerError PaddedBinaryTree := do
  throwIf (primaryLeafCount = 0) .emptyTributePopulation
  let padded ← okOr (checkedNextPowerOfTwo primaryLeafCount) .integerOverflow
  let paddedLeafCount := max padded 2
  pure {
    tributeCount := none
    primaryLeafCount := primaryLeafCount
    paddedLeafCount := paddedLeafCount
    height := Nat.log2 paddedLeafCount }

/-- The tree over the shards of a population. -/
def forTributeCount (tributeCount : Nat) : Except PlannerError PaddedBinaryTree := do
  let primaryLeafCount ← primaryWorkUnitCount tributeCount
  let tree ← forPrimaryLeafCount primaryLeafCount
  pure { tree with tributeCount := some tributeCount }

variable (t : PaddedBinaryTree)

def primaryShard (ordinal : Nat) : Except PlannerError PrimaryShard := do
  throwIf (ordinal ≥ t.primaryLeafCount) (.primaryShardOutOfRange ordinal t.primaryLeafCount)
  let tributeCount ← okOr t.tributeCount .integerOverflow
  let startOrdinal ← okOr (checkedMul 32 ordinal primaryWorkShardSize) .integerOverflow
  let endOrdinal := min (saturatingAdd 32 startOrdinal primaryWorkShardSize) tributeCount
  pure { ordinal := ordinal, startOrdinal := startOrdinal, endOrdinal := endOrdinal }

def reducerNodeCount : Nat := t.paddedLeafCount - 1

/-- The levels above the leaves, bottom up. -/
def levels : List Nat := levelsBelow (t.height + 1)

/-! ### Widths of a level -/

def fullWidth (level : Nat) : Nat := t.paddedLeafCount / 2 ^ level

/-- Nodes above at least one primary leaf on a level. -/
def activeWidth (level : Nat) : Nat :=
  divCeil t.primaryLeafCount (2 ^ level)

/-- `active_width`, with the shift checked. -/
def checkedActiveWidth (level : Nat) : Except PlannerError Nat := do
  let width ← okOr (checkedShl level) .integerOverflow
  pure (divCeil t.primaryLeafCount width)

/-- Merge nodes on a level: those whose right half covers a primary leaf. -/
def shuffleNodeCount (level : Nat) : Except PlannerError Nat := do
  let halfWidth ← okOr (checkedShl (level - 1)) .integerOverflow
  let width ← okOr (checkedMul 32 halfWidth 2) .integerOverflow
  let value ← okOr ((checkedSub t.primaryLeafCount 1).bind (checkedAdd 32 · halfWidth))
    .integerOverflow
  pure (value / width)

/-- Internal nodes above at least one primary leaf. -/
def activeInternalNodeCount : Nat := sum32 (t.levels.map t.activeWidth)

/-! ### Units of a phase -/

def phaseUnitCount : UnitPhase → Nat
  | .enumerate | .fidelityMap | .amountMap | .outputFinalize => t.primaryLeafCount
  | .fixedReduce => t.reducerNodeCount
  | .gratisPrefix | .gratisPrefixDown =>
    wrappingAdd 32 t.primaryLeafCount t.activeInternalNodeCount
  | .ownerShuffle | .bucketShuffle =>
    wrappingAdd 32 t.primaryLeafCount (t.primaryLeafCount - 1)
  | .rootReduce =>
    if t.primaryLeafCount = 1 then 1 else wrappingAdd 32 t.primaryLeafCount t.reducerNodeCount

def totalUnitCount : Nat :=
  sum32 (lysisPlanPhaseOrder.map t.phaseUnitCount)

/-- The level an ordinal falls on when the levels are laid out one after the other, and the index
in it. -/
def nodeAt (width : Nat → Nat) : List Nat → Nat → Except PlannerError (Nat × Nat)
  | [], _ => .error .integerOverflow
  | level :: levels, ordinal =>
    if ordinal < width level then .ok (level, ordinal)
    else nodeAt width levels (ordinal - width level)

def fullBottomUpNodeAt (ordinal : Nat) : Except PlannerError (Nat × Nat) :=
  nodeAt t.fullWidth t.levels ordinal

def activeBottomUpNodeAt (ordinal : Nat) : Except PlannerError (Nat × Nat) :=
  nodeAt t.activeWidth t.levels ordinal

def activeTopDownNodeAt (ordinal : Nat) : Except PlannerError (Nat × Nat) :=
  nodeAt t.activeWidth t.levels.reverse ordinal

/-- `shuffle_internal_node_at`: the widths are checked level by level. -/
def shuffleInternalNodeAt (t : PaddedBinaryTree) :
    List Nat → Nat → Except PlannerError (Nat × Nat)
  | [], _ => .error .integerOverflow
  | level :: levels, ordinal => do
    let nodeCount ← t.shuffleNodeCount level
    if ordinal < nodeCount then pure (level, ordinal)
    else shuffleInternalNodeAt t levels (ordinal - nodeCount)

variable (phase : UnitPhase) (level index : Nat)

/-- The runs of a node of the merge trees. -/
def runsOf : Except PlannerError PlannedUnitPosition := do
  let width ← okOr (checkedShl level) .integerOverflow
  let startRun ← okOr (checkedMul 32 index width) .integerOverflow
  let endRun := min (saturatingAdd 32 startRun width) t.primaryLeafCount
  pure (.runSpan phase level index startRun endRun)

/-- The position of the `ordinal`-th unit of a phase. -/
def phasePositionAt (ordinal : Nat) : Except PlannerError PlannedUnitPosition := do
  let count := t.phaseUnitCount phase
  throwIf (ordinal ≥ count) (.phasePositionOutOfRange phase ordinal count)
  let primary := t.primaryLeafCount
  match phase with
  | .enumerate | .fidelityMap | .amountMap | .outputFinalize => pure (.primary phase ordinal)
  | .fixedReduce =>
    let node ← t.fullBottomUpNodeAt ordinal
    pure (.treeNode phase node.1 node.2)
  | .gratisPrefix =>
    if ordinal < primary then pure (.treeNode phase 0 ordinal)
    else
      let node ← t.activeBottomUpNodeAt (ordinal - primary)
      pure (.treeNode phase node.1 node.2)
  | .gratisPrefixDown =>
    let activeInternal := t.activeInternalNodeCount
    if ordinal < activeInternal then
      let node ← t.activeTopDownNodeAt ordinal
      pure (.treeNode phase node.1 node.2)
    else pure (.treeNode phase 0 (ordinal - activeInternal))
  | .ownerShuffle | .bucketShuffle =>
    if ordinal < primary then t.runsOf phase 0 ordinal
    else
      let node ← t.shuffleInternalNodeAt t.levels (ordinal - primary)
      t.runsOf phase node.1 node.2
  | .rootReduce =>
    if ordinal < primary then pure (.treeNode phase 0 ordinal)
    else
      let node ← t.fullBottomUpNodeAt (ordinal - primary)
      pure (.treeNode phase node.1 node.2)

/-- The ordinal of a node whose levels are laid out after `before`, in a level of a given width. -/
def levelOrdinal (before : List Nat)
    (width : Nat → Except PlannerError Nat) (level index : Nat) : Except PlannerError Nat := do
  throwIf (level = 0 ∨ level > t.height) .producerMembershipMismatch
  let offset ← before.foldlM (fun acc l => do
    let w ← width l
    okOr (checkedAdd 32 acc w) .integerOverflow) 0
  let w ← width level
  throwIf (index ≥ w) .producerMembershipMismatch
  okOr (checkedAdd 32 offset index) .integerOverflow

def fullBottomUpOrdinal : Except PlannerError Nat :=
  t.levelOrdinal (levelsBelow level) (fun l => pure (t.fullWidth l)) level index

def activeBottomUpOrdinal : Except PlannerError Nat :=
  t.levelOrdinal (levelsBelow level) t.checkedActiveWidth level index

/-- `active_top_down_ordinal`: the levels above `level`, from the root down, come first. -/
def activeTopDownOrdinal : Except PlannerError Nat :=
  t.levelOrdinal (List.range' (level + 1) (t.height - level)).reverse t.checkedActiveWidth level index

def shuffleInternalOrdinal : Except PlannerError Nat :=
  t.levelOrdinal (levelsBelow level) t.shuffleNodeCount level index

/-- A position's ordinal in its phase, before it is checked against the position. -/
def rawPhaseOrdinal :
    PlannedUnitPosition → Except PlannerError Nat
  | .primary _ ordinal => pure ordinal
  | .treeNode .fixedReduce level index => t.fullBottomUpOrdinal level index
  | .treeNode .gratisPrefix level index =>
    if level = 0 then pure index
    else do
      let ordinal ← t.activeBottomUpOrdinal level index
      okOr (checkedAdd 32 t.primaryLeafCount ordinal) .integerOverflow
  | .treeNode .gratisPrefixDown level index =>
    if level = 0 then okOr (checkedAdd 32 t.activeInternalNodeCount index) .integerOverflow
    else t.activeTopDownOrdinal level index
  | .treeNode .rootReduce level index =>
    if level = 0 then pure index
    else do
      let ordinal ← t.fullBottomUpOrdinal level index
      okOr (checkedAdd 32 t.primaryLeafCount ordinal) .integerOverflow
  | .runSpan .ownerShuffle level index _ _ | .runSpan .bucketShuffle level index _ _ =>
    if level = 0 then pure index
    else do
      let ordinal ← t.shuffleInternalOrdinal level index
      okOr (checkedAdd 32 t.primaryLeafCount ordinal) .integerOverflow
  | _ => .error .producerMembershipMismatch

def phaseOrdinalOf (position : PlannedUnitPosition) : Except PlannerError Nat := do
  let ordinal ← t.rawPhaseOrdinal position
  let actual ← t.phasePositionAt position.phase ordinal
  throwIf (actual ≠ position) .producerMembershipMismatch
  pure ordinal

/-! ### The plan -/

/-- Walks the phases until the ordinal falls into one. -/
def planPositionFrom (t : PaddedBinaryTree) (ordinal : Nat) :
    List UnitPhase → Nat → Except PlannerError PlannedUnitPosition
  | [], offset => .error (.planPositionOutOfRange ordinal offset)
  | phase :: phases, offset =>
    let next := wrappingAdd 32 offset (t.phaseUnitCount phase)
    if ordinal < next then t.phasePositionAt phase (wrappingSub 32 ordinal offset)
    else planPositionFrom t ordinal phases next

def planPositionAt (ordinal : Nat) : Except PlannerError PlannedUnitPosition :=
  t.planPositionFrom ordinal lysisPlanPhaseOrder 0

def phaseOffsetFrom (t : PaddedBinaryTree) (target : UnitPhase) :
    List UnitPhase → Nat → Except PlannerError Nat
  | [], _ => .error .producerMembershipMismatch
  | phase :: phases, offset =>
    if phase = target then .ok offset
    else do
      let next ← okOr (checkedAdd 32 offset (t.phaseUnitCount phase)) .integerOverflow
      phaseOffsetFrom t target phases next

def phaseOffset (target : UnitPhase) : Except PlannerError Nat :=
  t.phaseOffsetFrom target lysisPlanPhaseOrder 0

def planOrdinalOf (position : PlannedUnitPosition) : Except PlannerError Nat := do
  let phaseOrdinal ← t.phaseOrdinalOf position
  let offset ← t.phaseOffset position.phase
  okOr (checkedAdd 32 offset phaseOrdinal) .integerOverflow

/-! ### Producers -/

/-- One child of a reducer node. -/
def binaryChild (phase leafPhase : UnitPhase) (purpose : InputPurpose)
    (parentLevel childIndex : Nat) (fullTree : Bool) : PlannedProducer :=
  let childLevel := parentLevel - 1
  let childCount :=
    if childLevel = 0 then t.primaryLeafCount
    else if fullTree then t.fullWidth childLevel
    else t.activeWidth childLevel
  if childIndex ≥ childCount then .canonicalEmpty purpose childIndex
  else if childLevel = 0 ∧ leafPhase ≠ phase then .unit (.primary leafPhase childIndex)
  else .unit (.treeNode phase childLevel childIndex)

/-- The two children of a reducer node. -/
def binaryChildren (phase leafPhase : UnitPhase) (purpose : InputPurpose)
    (level index : Nat) (fullTree : Bool) : Except PlannerError (List PlannedProducer) := do
  throwIf (level = 0 ∨ level > t.height) .producerMembershipMismatch
  let width := if fullTree then t.fullWidth level else t.activeWidth level
  throwIf (index ≥ width) .producerMembershipMismatch
  let first ← okOr (checkedMul 32 index 2) .integerOverflow
  pure [t.binaryChild phase leafPhase purpose level first fullTree,
    t.binaryChild phase leafPhase purpose level (wrappingAdd 32 first 1) fullTree]

/-- The root of the Fidelity reduction. -/
def fixedReduceRoot : PlannedUnitPosition :=
  .treeNode .fixedReduce t.height 0

/-- The runs of a merge node that covers at least one run. -/
def runSpanPosition : Except PlannerError PlannedUnitPosition := do
  let width ← okOr (checkedShl level) .integerOverflow
  let startRun ← okOr (checkedMul 32 index width) .integerOverflow
  let endRun := min (saturatingAdd 32 startRun width) t.primaryLeafCount
  throwIf (startRun ≥ endRun) .producerMembershipMismatch
  pure (.runSpan phase level index startRun endRun)

/-- The merge node of a span of runs. -/
def runSpanRootPosition (startRun endRun : Nat) : Except PlannerError PlannedUnitPosition := do
  let width ← okOr ((checkedSub endRun startRun).filter (0 < ·)) .producerMembershipMismatch
  let paddedWidth ← okOr (checkedNextPowerOfTwo width) .integerOverflow
  throwIf (startRun % paddedWidth ≠ 0) .producerMembershipMismatch
  let level := Nat.log2 paddedWidth
  let position ← t.runSpanPosition phase level (startRun / paddedWidth)
  throwIf (position ≠ .runSpan phase level (startRun / paddedWidth) startRun endRun)
    .producerMembershipMismatch
  pure position

def shuffleRoot : Except PlannerError PlannedUnitPosition :=
  t.runSpanRootPosition phase 0 t.primaryLeafCount

/-- The two halves of the runs `startRun..endRun`: the left one is the largest power of two below
their number. -/
def splitRuns (startRun endRun : Nat) : Except PlannerError (List PlannedProducer) := do
  let width ← okOr (checkedSub endRun startRun) .integerOverflow
  throwIf (width ≤ 1) .producerMembershipMismatch
  let leftWidth := 2 ^ Nat.log2 (width - 1)
  let split ← okOr (checkedAdd 32 startRun leftWidth) .integerOverflow
  let left ← t.runSpanRootPosition phase startRun split
  let right ← t.runSpanRootPosition phase split endRun
  pure [.unit left, .unit right]

/-- The two spans a merge node joins. -/
def runChildren : Except PlannerError (List PlannedProducer) := do
  throwIf (level = 0) .producerMembershipMismatch
  let position ← t.runSpanPosition phase level index
  match position with
  | .runSpan _ _ _ startRun endRun => t.splitRuns phase startRun endRun
  | _ => .error .producerMembershipMismatch

/-- The producers of a merge node. -/
def runProducers (level index startRun endRun : Nat) : Except PlannerError (List PlannedProducer) :=
  if level = 0 then
    if index < t.primaryLeafCount ∧ startRun = index ∧ endRun = index + 1 then
      pure [.unit (.primary .outputFinalize index)]
    else .error .producerMembershipMismatch
  else do
    let expected ← t.runSpanPosition phase level index
    throwIf (expected ≠ .runSpan phase level index startRun endRun) .producerMembershipMismatch
    t.runChildren phase level index

/-- The units whose outputs a unit reads, in order. -/
def requiredProducers :
    PlannedUnitPosition → Except PlannerError (List PlannedProducer)
  | .primary .enumerate _ => pure []
  | .primary .fidelityMap ordinal =>
    if ordinal < t.primaryLeafCount then pure [.unit (.primary .enumerate ordinal)]
    else .error .producerMembershipMismatch
  | .treeNode .fixedReduce level index =>
    t.binaryChildren .fixedReduce .fidelityMap .fidelityPartials level index true
  | .primary .amountMap ordinal =>
    if ordinal < t.primaryLeafCount then
      pure [.unit (.primary .enumerate ordinal), .unit (.primary .fidelityMap ordinal),
        .unit t.fixedReduceRoot]
    else .error .producerMembershipMismatch
  | .treeNode .gratisPrefix level index =>
    if level = 0 ∧ index < t.primaryLeafCount then pure [.unit (.primary .amountMap index)]
    else t.binaryChildren .gratisPrefix .gratisPrefix .gratisPrefixTable level index false
  | .treeNode .gratisPrefixDown level index =>
    if level = 0 ∧ index < t.primaryLeafCount then
      pure [.unit (.treeNode .gratisPrefixDown 1 (index / 2)), .unit (.treeNode .gratisPrefix 0 index)]
    else do
      let childSummaries ←
        t.binaryChildren .gratisPrefix .gratisPrefix .gratisPrefixTable level index false
      if level = t.height ∧ index = 0 then pure childSummaries
      else if level < t.height then
        pure (.unit (.treeNode .gratisPrefixDown (level + 1) (index / 2)) :: childSummaries)
      else .error .producerMembershipMismatch
  | .primary .outputFinalize ordinal =>
    if ordinal < t.primaryLeafCount then
      pure [.unit (.primary .amountMap ordinal), .unit (.treeNode .gratisPrefixDown 0 ordinal)]
    else .error .producerMembershipMismatch
  | .runSpan .ownerShuffle level index startRun endRun =>
    t.runProducers .ownerShuffle level index startRun endRun
  | .runSpan .bucketShuffle level index startRun endRun =>
    t.runProducers .bucketShuffle level index startRun endRun
  | .treeNode .rootReduce level index =>
    if level = 0 ∧ index < t.primaryLeafCount then do
      let owners ← t.shuffleRoot .ownerShuffle
      let buckets ← t.shuffleRoot .bucketShuffle
      pure [.unit (.primary .outputFinalize index), .unit owners, .unit buckets]
    else t.binaryChildren .rootReduce .rootReduce .rootSummary level index true
  | _ => .error .producerMembershipMismatch

end PaddedBinaryTree

example : (do
    let t ← PaddedBinaryTree.forPrimaryLeafCount 5
    let p ← t.planPositionAt 17
    t.planOrdinalOf p) = .ok 17 := by
  decide +kernel

end Rudis.Lysis
