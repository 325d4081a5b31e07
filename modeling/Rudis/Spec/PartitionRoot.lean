import Rudis.Lib.KWay
import Rudis.Spec.CompressedEntities

/-!
# `Rudis.Spec.PartitionRoot`: the root of a Tribute partition, eagerly and in bounded memory

The collection root of a day's tributes is computed in two ways.
`tributePartitionRootFromLeaves` (`collection.rs`) groups all leaves by shard and updates an empty
sparse Merkle tree with each group. `BoundedTributePartitionVerifier`
(`collection_reconstruction.rs`) buffers a bounded number of records, writes sorted runs, merges
them in passes of bounded fan-in and feeds the sorted records to `SortedPoseidonRootReducer`
(`smt/facade.rs`), which keeps one pending subtree per level.

A run file is the list of its records. A tree key is the number its 32 bytes are in the order the
tree compares them in, so that bit `h` of the number is the branch at height `h`. The vendored
merge and the Poseidon hashes are parameters (`TreeOps`).
-/

namespace Rudis.PartitionRoot

open List

open CompressedEntities (WwdEntityId worldwideDay)

abbrev TreeKey := Fin (2 ^ 256)

abbrev PresentLeaf := { c : B256 // c ≠ 0 }

inductive TreeError where
  | duplicateKey
  | nonAscendingKey
  | zeroLeaf
  | treeHashError
  | reducerInvariant (message : String)
  deriving DecidableEq

/-- What the vendored tree and the Poseidon hash provide. -/
structure TreeOps (V : Type) where
  /-- `MergeValue::zero`. -/
  zero : V
  /-- `MergeValue::from_h256` of a leaf. -/
  ofLeaf : B256 → V
  /-- `merge`, by height and node key. -/
  merge : Nat → Nat → V → V → V
  /-- The hash of the root value, with the checks of `checked_root`. -/
  checkedRoot : V → Except TreeError B256
  /-- `derive_tree_key` of a tribute. -/
  treeKey : WwdEntityId → TreeKey
  /-- `aggregate_b256_shard_roots`. -/
  aggregateShardRoots : List B256 → Except TreeError B256
  /-- `collection_root` of the partition of a day, over the shard top root. -/
  collectionRoot : WorldwideDay → B256 → Except TreeError B256
  merge_zero : ∀ height key, merge height key zero zero = zero

inductive CollectionError where
  | invalidTributeWwd (day : Nat)
  | tributeDayMismatch (expected actual : Nat)
  | duplicateTributeKey
  | tree (error : TreeError)
  deriving DecidableEq

/-! ### Days -/

/-- The day is a calendar date `yyyymmdd`. -/
def isValid (day : WorldwideDay) : Bool := isValidDay day

/-! ### The sorted reducer -/

section Reducer

variable {V : Type} (ops : TreeOps V)

def isRight (key : TreeKey) (height : Nat) : Bool := key.val.testBit height

/-- The key with the bits up to a height cleared. -/
def parentPath (key : TreeKey) (height : Nat) : Nat :=
  key.val / 2 ^ (height + 1) * 2 ^ (height + 1)

/-- The highest bit in which two keys differ. -/
def forkHeight (a b : TreeKey) : Nat :=
  ((range 256).reverse.find? fun h => isRight a h != isRight b h).getD 0

/-- A subtree that waits for its sibling. -/
structure PendingSortedNode (V : Type) where
  key : TreeKey
  value : V

/-- The reducer: one pending subtree per height, and the subtree of the last key. -/
structure SortedPoseidonRootReducer (V : Type) where
  /-- Pending left subtrees by height. -/
  frontier : Nat → Option (PendingSortedNode V)
  /-- The subtree of the last key. -/
  current : Option (PendingSortedNode V)

/-- The reducer without leaves. -/
def SortedPoseidonRootReducer.new : SortedPoseidonRootReducer V where
  frontier := fun _ => none
  current := none

variable (r : SortedPoseidonRootReducer V)

/-- A pending subtree is left over. -/
def SortedPoseidonRootReducer.anyPending : Bool :=
  (range 256).any fun h => (r.frontier h).isSome

/-- The value of the current subtree one level up. -/
def mergedValue (current : PendingSortedNode V) (height : Nat) : Except TreeError V :=
  let parentKey := parentPath current.key height
  match r.frontier height with
  | some left =>
    if isRight left.key height = true ∨ isRight current.key height = false ∨
        parentPath left.key height ≠ parentKey then
      .error (.reducerInvariant "pending subtrees are not ordered siblings")
    else .ok (ops.merge height parentKey left.value current.value)
  | none =>
    if isRight current.key height then .ok (ops.merge height parentKey ops.zero current.value)
    else .ok (ops.merge height parentKey current.value ops.zero)

/-- Lifts the current subtree over one level. -/
def mergeCurrentLevel (height : Nat) : Except TreeError (SortedPoseidonRootReducer V) := do
  let current ← okOr r.current (.reducerInvariant "current subtree is missing")
  let value ← mergedValue ops r current height
  pure { frontier := update r.frontier height none
         current := some { current with value := value } }

def liftCurrent (targetHeight : Nat) : Except TreeError (SortedPoseidonRootReducer V) :=
  (range targetHeight).foldlM (mergeCurrentLevel ops) r

/-- Completes the current subtree at its fork with the next key. -/
def completeCurrent (current : PendingSortedNode V)
    (key : TreeKey) : Except TreeError (Nat → Option (PendingSortedNode V)) := do
  throwIf (key < current.key) .nonAscendingKey
  throwIf (key = current.key) .duplicateKey
  let forkHeight := forkHeight current.key key
  let lifted ← liftCurrent ops r forkHeight
  let completed ← okOr lifted.current (.reducerInvariant "current subtree disappeared")
  throwIf (isRight completed.key forkHeight = true)
    (.reducerInvariant "ordered subtree is not the left fork child")
  throwIf ((lifted.frontier forkHeight).isSome)
    (.reducerInvariant "fork frontier already contains a subtree")
  pure (update lifted.frontier forkHeight (some completed))

/-- The pending subtrees before the next key: a reducer without leaves has none to complete. -/
def nextFrontier (key : TreeKey) : Except TreeError (Nat → Option (PendingSortedNode V)) :=
  match r.current with
  | some current => completeCurrent ops r current key
  | none => pure r.frontier

/-- Adds the next leaf. -/
def SortedPoseidonRootReducer.push (leaf : TreeKey × B256) :
    Except TreeError (SortedPoseidonRootReducer V) := do
  throwIf (leaf.2 = 0) .zeroLeaf
  let frontier ← nextFrontier ops r leaf.1
  pure { frontier := frontier, current := some { key := leaf.1, value := ops.ofLeaf leaf.2 } }

def SortedPoseidonRootReducer.finish : Except TreeError B256 :=
  if r.current.isNone then do
    throwIf (r.anyPending = true) (.reducerInvariant "empty reducer retains a pending subtree")
    pure 0
  else do
    let lifted ← liftCurrent ops r 255
    let merged ← mergeCurrentLevel ops lifted 255
    throwIf (merged.anyPending = true)
      (.reducerInvariant "finished reducer retains a pending subtree")
    let root ← okOr merged.current (.reducerInvariant "root subtree disappeared")
    ops.checkedRoot root.value

/-! ### The tree -/

def leafOf (leaves : List (TreeKey × B256)) (key : Nat) : Option B256 :=
  (leaves.find? fun leaf => leaf.1.val == key).map Prod.snd

/-- The value of the node with index `q` at a height of the sparse Merkle tree over `leaves`: a
leaf or zero at the bottom, the merge of the two children above. A subtree without leaves is
zero. -/
def smtNode (leaves : List (TreeKey × B256)) : Nat → Nat → V
  | 0, q =>
    match leafOf leaves q with
    | some leaf => ops.ofLeaf leaf
    | none => ops.zero
  | height + 1, q =>
    if leaves.any fun leaf => leaf.1.val / 2 ^ (height + 1) == q then
      ops.merge height (q * 2 ^ (height + 1)) (smtNode leaves height (2 * q))
        (smtNode leaves height (2 * q + 1))
    else ops.zero

/-- `update_all` on an empty tree. -/
def updateAll (updates : List (TreeKey × B256)) : Except TreeError B256 := do
  throwIf (¬ (updates.map Prod.fst).Nodup) .duplicateKey
  if updates.isEmpty then pure 0 else ops.checkedRoot (smtNode ops updates 256 0)

end Reducer

/-! ### Records and shards -/

/-- Number of shards of the Tribute domain. -/
def shardCount : Nat := 16

/-- The shard of a key: the low bits of its last byte. -/
def shardIndex (key : TreeKey) : Nat := key.val / 2 ^ 248 % shardCount

structure RunRecord where
  shard : Nat
  key : TreeKey
  leaf : B256

/-- Records are ordered by shard and key. -/
def RunRecord.le (a b : RunRecord) : Bool :=
  decide (a.shard < b.shard) || (decide (a.shard = b.shard) && decide (a.key ≤ b.key))

def RunRecord.treeLeaf (r : RunRecord) : TreeKey × B256 := (r.key, r.leaf)

section Partition

variable {V : Type} (ops : TreeOps V)

def recordOf (leaf : WwdEntityId × PresentLeaf) : RunRecord where
  shard := shardIndex (ops.treeKey leaf.1)
  key := ops.treeKey leaf.1
  leaf := leaf.2.val

def shardLeaves (records : List RunRecord) (shard : Nat) : List (TreeKey × B256) :=
  (records.filter fun r => r.shard == shard).map RunRecord.treeLeaf

/-- The root of a shard of an eager reconstruction; a shard without leaves keeps the zero root. -/
def eagerShardRoot (records : List RunRecord) (shard : Nat) : Except TreeError B256 :=
  if (shardLeaves records shard).isEmpty then pure 0 else updateAll ops (shardLeaves records shard)

/-- The collection root over the shard roots. -/
def closeRoots (day : WorldwideDay) (roots : List B256) : Except TreeError B256 := do
  let top ← ops.aggregateShardRoots roots
  ops.collectionRoot day top

def tributePartitionRootFromLeaves (day : WorldwideDay)
    (leaves : List (WwdEntityId × PresentLeaf)) : Except CollectionError B256 := do
  throwIf (isValid day = false) (.invalidTributeWwd day.val)
  leaves.forM fun leaf =>
    throwIf (worldwideDay leaf.1 ≠ day) (.tributeDayMismatch day.val (worldwideDay leaf.1).val)
  let records := leaves.map (recordOf ops)
  throwIf (¬ (records.map RunRecord.key).Nodup) .duplicateTributeKey
  let roots ← ((range shardCount).mapM (eagerShardRoot ops records)).mapError .tree
  (closeRoots ops day roots).mapError .tree

/-! ### The bounded verifier -/

/-- What a partition is verified against. -/
structure TributePartitionExpectation where
  day : WorldwideDay
  /-- Number of leaves, a `u32`. -/
  exactLeafCount : Nat
  expectedCollectionRoot : B256
  commitmentScheme : Nat
  /-- The count is a `u32`. -/
  exactLeafCount_lt : exactLeafCount < 2 ^ 32

structure TributePartitionWorkConfig where
  recordsPerRun : Nat
  /-- Runs merged at once. -/
  mergeFanIn : Nat

/-- Errors of a reconstruction. `capacityOverflow` is the panic of `Vec::with_capacity`. -/
inductive ReconstructionError where
  | collection (error : CollectionError)
  | unsupportedCommitmentScheme (scheme : Nat)
  | invalidWorkConfig
  | countMismatch (expected actual : Nat)
  | rootMismatch (expected actual : B256)
  | tree (error : TreeError)
  | integerOverflow
  | corruptRun
  | capacityOverflow
  deriving DecidableEq

structure BoundedTributePartitionVerifier where
  /-- What the partition is verified against. -/
  expectation : TributePartitionExpectation
  work : TributePartitionWorkConfig
  buffered : List RunRecord
  /-- Largest number of buffered records so far. -/
  peakBufferedRecords : Nat
  /-- Leaves pushed so far. -/
  pushedCount : Nat
  /-- The runs written so far. -/
  runs : List (List RunRecord)

def activeCommitmentScheme : Nat := 1

/-- Bytes of a buffered record: the shard, the key and the leaf. -/
def recordBytes : Nat := 68

def create (expectation : TributePartitionExpectation) (work : TributePartitionWorkConfig) :
    Except ReconstructionError BoundedTributePartitionVerifier := do
  throwIf (isValid expectation.day = false) (.collection (.invalidTributeWwd expectation.day.val))
  throwIf (expectation.commitmentScheme ≠ activeCommitmentScheme)
    (.unsupportedCommitmentScheme expectation.commitmentScheme)
  throwIf (work.recordsPerRun = 0 ∨ work.mergeFanIn < 2) .invalidWorkConfig
  throwIf (2 ^ 63 ≤ work.recordsPerRun * recordBytes) .capacityOverflow
  pure { expectation := expectation, work := work, buffered := [], peakBufferedRecords := 0,
         pushedCount := 0, runs := [] }

/-- Two neighbours of a sorted run have one key. -/
def adjacentDuplicate : List RunRecord → Bool
  | a :: b :: rest => a.key == b.key || adjacentDuplicate (b :: rest)
  | _ => false

variable (v : BoundedTributePartitionVerifier)

/-- Writes the buffered records as a sorted run. -/
def flushRun : Except ReconstructionError BoundedTributePartitionVerifier :=
  if v.buffered.isEmpty then pure v
  else do
    let sorted := v.buffered.insertionSort fun a b => a.le b = true
    throwIf (adjacentDuplicate sorted = true) (.collection .duplicateTributeKey)
    pure { v with buffered := [], runs := v.runs ++ [sorted] }

def push (leaf : WwdEntityId × PresentLeaf) :
    Except ReconstructionError BoundedTributePartitionVerifier := do
  throwIf (worldwideDay leaf.1 ≠ v.expectation.day)
    (.collection (.tributeDayMismatch v.expectation.day.val (worldwideDay leaf.1).val))
  let actual ← okOr (checkedAdd 32 v.pushedCount 1) .integerOverflow
  throwIf (v.expectation.exactLeafCount < actual)
    (.countMismatch v.expectation.exactLeafCount actual)
  let buffered := v.buffered ++ [recordOf ops leaf]
  let v := { v with buffered := buffered, pushedCount := actual,
                    peakBufferedRecords := max v.peakBufferedRecords buffered.length }
  if buffered.length = v.work.recordsPerRun then flushRun v else pure v

/-- Merges a group of runs. The heap holds the next record of every run and pops the least, the
one of the first run among equals. -/
def mergeRunGroup (runs : List (List RunRecord)) : Except ReconstructionError (List RunRecord) := do
  let outputCount := (runs.map length).sum
  let output := KWay.popAll RunRecord.le outputCount runs
  throwIf (output.length ≠ outputCount) .corruptRun
  pure output

/-- One output of a pass: the merge of the runs from `output_index * fan_in` on. -/
def runGroup (fanIn : Nat) (runs : List (List RunRecord)) (outputIndex : Nat) :
    Except ReconstructionError (List RunRecord) := do
  let start ← okOr (checkedMul 64 outputIndex fanIn) .integerOverflow
  let stop ← okOr (checkedAdd 64 start fanIn) .integerOverflow
  mergeRunGroup ((runs.drop start).take (min stop runs.length - start))

/-- The merge passes: until one run is left. -/
def mergeRuns (fanIn : Nat) : Nat → List (List RunRecord) →
    Except ReconstructionError (List (List RunRecord))
  | 0, runs => pure runs
  | passes + 1, runs =>
    if 1 < runs.length then do
      let padded ← okOr (checkedAdd 64 runs.length (fanIn - 1)) .integerOverflow
      let merged ← (range (padded / fanIn)).mapM (runGroup fanIn runs)
      mergeRuns fanIn passes merged
    else pure runs

/-- The state of the reduction of a sorted run. -/
structure Reduction (V : Type) where
  /-- Shard roots so far. -/
  roots : List B256
  /-- The shard whose leaves are being reduced. -/
  currentShard : Option Nat
  reducer : SortedPoseidonRootReducer V

/-- How an error of the reducer is reported. -/
def pushError : TreeError → ReconstructionError
  | .duplicateKey => .collection .duplicateTributeKey
  | error => .tree error

def closeShard (st : Reduction V) : Except ReconstructionError (List B256) :=
  match st.currentShard with
  | none => pure st.roots
  | some shard => do
    let root ← (st.reducer.finish ops).mapError .tree
    pure (st.roots.set shard root)

def reduceRecord (st : Reduction V) (record : RunRecord) :
    Except ReconstructionError (Reduction V) := do
  throwIf (record.shard ≠ shardIndex record.key) .corruptRun
  if st.currentShard = some record.shard then
    let reducer ← (st.reducer.push ops record.treeLeaf).mapError pushError
    pure { st with reducer := reducer }
  else
    let roots ← closeShard ops st
    let reducer ← (SortedPoseidonRootReducer.new.push ops record.treeLeaf).mapError pushError
    pure { roots := roots, currentShard := some record.shard, reducer := reducer }

/-- The collection root of a sorted run. -/
def reduceSortedRun (day : WorldwideDay) (records : List RunRecord) :
    Except ReconstructionError B256 := do
  let st ← records.foldlM (reduceRecord ops)
    { roots := replicate shardCount 0, currentShard := none, reducer := .new }
  let roots ← closeShard ops st
  (closeRoots ops day roots).mapError .tree

/-- Finishes a verification: flushes, merges, reduces and compares. -/
def finish : Except ReconstructionError B256 := do
  throwIf (v.pushedCount ≠ v.expectation.exactLeafCount)
    (.countMismatch v.expectation.exactLeafCount v.pushedCount)
  let v ← flushRun v
  let runs ← mergeRuns v.work.mergeFanIn v.runs.length v.runs
  let root ← reduceSortedRun ops v.expectation.day (runs.headD [])
  throwIf (root ≠ v.expectation.expectedCollectionRoot)
    (.rootMismatch v.expectation.expectedCollectionRoot root)
  pure root

/-- Creates a verifier, pushes the leaves in order and finishes. -/
def verify (expectation : TributePartitionExpectation) (work : TributePartitionWorkConfig)
    (leaves : List (WwdEntityId × PresentLeaf)) : Except ReconstructionError B256 := do
  let v ← create expectation work
  let v ← leaves.foldlM (push ops) v
  finish ops v

end Partition

end Rudis.PartitionRoot
