import Rudis.Spec.PriceMath

/-!
# `Rudis.Spec.Gem`: gems and their bin index

The `gem` crate: the records and their enumerations (`api.rs`, `state.rs`), the two bin indexes by
currency (`Issued` gems by floor price, `Qualified` gems by call price), the hour buckets of called
gems as far as a gem leaves them, and the qualification scan of `hooks.rs` and `runtime.rs`.

The columns keyed by a packed or hashed currency, bin and position are functions of those. The id of
a gem is a hash of owner, load and block number and a parameter.
-/

namespace Rudis.Gem

/-! ### Records -/

inductive GemState where
  | issued
  | qualified
  | called
  | settled
  deriving DecidableEq

structure GemData where
  owner : Address
  gemType : Nat
  promisLoadMinor : Nat
  entryPriceMinor : Nat
  floorPriceMinor : Nat
  issuanceCurrency : Nat
  referenceCurrency : Nat
  state : GemState
  issuedAt : Nat
  callPriceMinor : Nat
  calledAt : Nat
  callNoticePeriod : Nat
  callRate : Nat
  callWindow : Nat
  callThreshold : Nat
  qualifiedAt : Nat
  settledAt : Nat
  deriving DecidableEq

/-- Gem protocol parameters; all periods are seconds. -/
structure GemParams where
  callWindow : Nat
  callThreshold : Nat
  callNoticePeriod : Nat
  callRate : Nat
  floorRate : Nat
  positionValidity : Nat
  deriving DecidableEq

/-! ### The bin index of one currency -/

/-- The gems of one bin: a count and the gem at each position. -/
structure Bin where
  count : Nat
  gemAt : Nat → Nat

def Bin.gems (b : Bin) : List Nat := (List.range b.count).map b.gemAt

def Bin.push (b : Bin) (gemId : Nat) : Bin :=
  { count := wrappingAdd 32 b.count 1
    gemAt := update b.gemAt b.count gemId }

/-- The first position that holds a gem. -/
def Bin.find (b : Bin) (gemId : Nat) : Option Nat :=
  (List.range b.count).find? fun i => b.gemAt i = gemId

/-- Fills a position with the last gem and clears the last position. -/
def Bin.swapRemove (b : Bin) (idx : Nat) : Bin :=
  let last := b.count - 1
  let gemAt := if idx ≠ last then update b.gemAt idx (b.gemAt last) else b.gemAt
  { count := last
    gemAt := update gemAt last 0 }

structure BinIndex where
  tree : BinTree.Tree
  bin : Nat → Bin

def BinIndex.empty : BinIndex := ⟨.empty, fun _ => ⟨0, fun _ => 0⟩⟩

def BinIndex.insert (x : BinIndex) (binId gemId : Nat) : BinIndex :=
  { tree := (BinTree.add x.tree binId).1
    bin := update x.bin binId ((x.bin binId).push gemId) }

/-- Removes a gem from its bin, and the bin from the trie once it is empty; a gem that is not there
is left alone. -/
def BinIndex.remove (x : BinIndex) (binId gemId : Nat) : BinIndex :=
  if (x.bin binId).count = 0 then x
  else
    match (x.bin binId).find gemId with
    | none => x
    | some idx =>
      let b := (x.bin binId).swapRemove idx
      { tree := if b.count = 0 then (BinTree.remove x.tree binId).1 else x.tree
        bin := update x.bin binId b }

/-! ### State -/

/-- Called gems, in buckets by the hour their notice period closes in. -/
structure ExpiryBuckets where
  tree : BinTree.Tree
  /-- Bucket and slot of a gem in one word; 0 for a gem that is not queued. -/
  calledBucketSlot : Nat → Nat
  calledDeadline : Nat → Nat
  bucketLen : Nat → Nat
  bucketLive : Nat → Nat
  bucketAt : Nat → Nat → Nat
  sweepDay : Nat
  cursor : Nat

structure Store where
  totalSupply : Nat
  gemItems : Nat → Option GemData
  ownerGemCounts : Address → Nat
  ownerGemIds : Address → Nat → Nat
  allGemIds : List Nat
  gemIndex : Nat → Nat
  /-- `Issued` gems by floor price, for each currency. -/
  unqualified : Nat → BinIndex
  /-- `Qualified` gems by call price, for each currency. -/
  qualified : Nat → BinIndex
  qualifyScanCursor : Nat → Nat
  maxCallWindow : Nat → Nat
  expiry : ExpiryBuckets

def Store.empty : Store where
  totalSupply := 0
  gemItems := fun _ => none
  ownerGemCounts := fun _ => 0
  ownerGemIds := fun _ _ => 0
  allGemIds := []
  gemIndex := fun _ => 0
  unqualified := fun _ => .empty
  qualified := fun _ => .empty
  qualifyScanCursor := fun _ => 0
  maxCallWindow := fun _ => 0
  expiry := ⟨.empty, fun _ => 0, fun _ => 0, fun _ => 0, fun _ => 0, fun _ _ => 0, 0, 0⟩

/-! ### Bins by price -/

def binStepBp : Nat := 25

def priceToBin (price : Nat) : Result Nat :=
  if price = 0 then .ok 0 else PriceMath.coenIsoPriceToBinId price binStepBp

def insertUnqualified (gemId floorPriceMinor referenceCurrency : Nat) : Call Store Unit := do
  let binId ← ofExcept (priceToBin floorPriceMinor)
  modify fun s =>
    { s with
      unqualified := update s.unqualified referenceCurrency
        ((s.unqualified referenceCurrency).insert binId gemId) }

def removeUnqualified (gemId floorPriceMinor referenceCurrency : Nat) : Call Store Unit := do
  let binId ← ofExcept (priceToBin floorPriceMinor)
  modify fun s =>
    { s with
      unqualified := update s.unqualified referenceCurrency
        ((s.unqualified referenceCurrency).remove binId gemId) }

def insertQualified (gemId callPriceMinor referenceCurrency : Nat) : Call Store Unit := do
  let binId ← ofExcept (priceToBin callPriceMinor)
  modify fun s =>
    { s with
      qualified := update s.qualified referenceCurrency
        ((s.qualified referenceCurrency).insert binId gemId) }

def removeQualified (gemId callPriceMinor referenceCurrency : Nat) : Call Store Unit := do
  let binId ← ofExcept (priceToBin callPriceMinor)
  modify fun s =>
    { s with
      qualified := update s.qualified referenceCurrency
        ((s.qualified referenceCurrency).remove binId gemId) }

/-! ### Called gems -/

/-- Frees one bucket slot, retiring the bucket once nothing waits in it. -/
def ExpiryBuckets.releaseSlot (x : ExpiryBuckets) (day slot gemId : Nat) : ExpiryBuckets :=
  if x.bucketAt day slot ≠ gemId then x
  else
    let live := x.bucketLive day - 1
    let x :=
      { x with
        bucketAt := update x.bucketAt day (update (x.bucketAt day) slot 0)
        bucketLive := update x.bucketLive day live }
    if live ≠ 0 then x
    else
      { x with
        tree := (BinTree.remove x.tree day).1
        bucketLen := update x.bucketLen day 0
        -- the cursor names a slot in a length that no longer exists
        sweepDay := if x.sweepDay = day then 0 else x.sweepDay
        cursor := if x.sweepDay = day then 0 else x.cursor }

def ExpiryBuckets.removeCalled (x : ExpiryBuckets) (gemId : Nat) : ExpiryBuckets :=
  let slot := x.calledBucketSlot gemId
  let x :=
    { x with
      calledBucketSlot := update x.calledBucketSlot gemId 0
      calledDeadline := update x.calledDeadline gemId 0 }
  if slot = 0 then x else x.releaseSlot (slot / 2 ^ 32) (slot % 2 ^ 32) gemId

/-! ### Records and their state -/

def getGem (gemId : Nat) : Call Store GemData := do
  let item ← reads (·.gemItems gemId)
  ofExcept (okOr item (.revert "gem not found"))

/-- The index entries a gem gains or loses with its new state, and its time stamp. -/
def reindex (now gemId : Nat) (item : GemData) : GemState → Call Store GemData
  | .qualified => do
    insertQualified gemId item.callPriceMinor item.referenceCurrency
    pure { item with qualifiedAt := now }
  | .settled => do
    when (item.state = .qualified)
      (removeQualified gemId item.callPriceMinor item.referenceCurrency)
    pure { item with settledAt := now }
  | .issued => pure item
  | .called => pure item

def setState (now gemId : Nat) (newState : GemState) : Call Store Unit := do
  let item ← getGem gemId
  -- `Issued` is the only state in the floor-price index
  when (item.state = .issued ∧ newState ≠ .issued)
    (removeUnqualified gemId item.floorPriceMinor item.referenceCurrency)
  let item ← reindex now gemId item newState
  when (item.state = .called ∧ newState ≠ .called)
    (modify fun s => { s with expiry := s.expiry.removeCalled gemId })
  modify fun s =>
    { s with gemItems := update s.gemItems gemId (some { item with state := newState }) }

/-- Creates a record and enters it in the enumerations and in the index of its state. -/
def addGemItem (gemId : Nat) (item : GemData) : Call Store Unit := do
  let known ← reads (·.gemItems gemId)
  failIf (known.isSome = true) (.revert "gem already exists")
  modify fun s =>
    let ownerCount := s.ownerGemCounts item.owner
    { s with
      gemItems := update s.gemItems gemId (some item)
      ownerGemIds := update s.ownerGemIds item.owner
        (update (s.ownerGemIds item.owner) ownerCount gemId)
      ownerGemCounts :=
        update s.ownerGemCounts item.owner (wrappingAdd 32 ownerCount 1)
      allGemIds := s.allGemIds ++ [gemId]
      gemIndex := update s.gemIndex gemId (s.allGemIds.length % 2 ^ 32)
      totalSupply := wrappingAdd 64 s.totalSupply 1 }
  when (item.state = .issued) (insertUnqualified gemId item.floorPriceMinor item.referenceCurrency)
  when (item.state = .qualified) (insertQualified gemId item.callPriceMinor item.referenceCurrency)
  modify fun s =>
    { s with
      maxCallWindow := update s.maxCallWindow item.referenceCurrency
        (max (s.maxCallWindow item.referenceCurrency) item.callWindow) }

structure GemAddParams where
  owner : Address
  gemType : Nat
  promisLoadMinor : Nat
  entryPriceMinor : Nat
  floorPriceMinor : Nat
  callPriceMinor : Nat
  callRate : Nat
  issuanceCurrency : Nat
  referenceCurrency : Nat
  initialState : GemState
  issuedAt : Nat
  deriving DecidableEq

/-- The record of a new gem; one born past `Issued` reached those states at issuance. -/
def GemAddParams.item (params : GemAddParams) (terms : GemParams) : GemData where
  owner := params.owner
  gemType := params.gemType
  promisLoadMinor := params.promisLoadMinor
  entryPriceMinor := params.entryPriceMinor
  floorPriceMinor := params.floorPriceMinor
  issuanceCurrency := params.issuanceCurrency
  referenceCurrency := params.referenceCurrency
  state := params.initialState
  issuedAt := params.issuedAt
  callPriceMinor := params.callPriceMinor
  calledAt := 0
  callNoticePeriod := terms.callNoticePeriod
  callRate := params.callRate
  callWindow := terms.callWindow
  callThreshold := terms.callThreshold
  qualifiedAt := if params.initialState = .issued then 0 else params.issuedAt
  settledAt := if params.initialState = .settled then params.issuedAt else 0

/-- Adds a gem under the hash of its owner, its load and the block number. -/
def addGem (generateGemId : Address → Nat → Nat → Nat) (terms : GemParams) (blockNumber : Nat)
    (params : GemAddParams) : Call Store Nat := do
  failIf (params.owner = 0) (.revert "invalid owner")
  let gemId := generateGemId params.owner params.promisLoadMinor blockNumber
  addGemItem gemId (params.item terms)
  pure gemId

/-! ### The qualification scan -/

/-- Qualifies an `Issued` gem of the currency once the rate is above its floor price. -/
def qualify (now iso rate gemId : Nat) : Call Store Bool := do
  let item ← getGem gemId
  if item.state ≠ .issued then pure false
  else if item.referenceCurrency ≠ iso then pure false
  else if rate ≤ item.floorPriceMinor then pure false
  else do
    setState now gemId .qualified
    pure true

/-- One gem of the scan; a gem that fails is skipped. -/
def tryQualify (now iso rate : Nat) (s : Store) (gemId : Nat) : Store :=
  ((checkpoint (qualify now iso rate gemId)).run s).2

/-- The ids of a bin, taken before any gem leaves it. -/
def binSnapshot (s : Store) (iso binId : Nat) : List Nat :=
  ((s.unqualified iso).bin binId).gems.filter (· ≠ 0)

def inspectGem (now iso rate : Nat) (acc : Store × Nat) (gemId : Nat) : Store × Nat :=
  (tryQualify now iso rate acc.1 gemId, saturatingAdd 32 acc.2 1)

def Store.setScanCursor (s : Store) (iso cursor : Nat) : Store :=
  { s with qualifyScanCursor := update s.qualifyScanCursor iso cursor }

/-- The walk over the bins up to the bin of the rate. The cursor rises with every round. -/
def qualifyLoop (now iso rate rBin budget : Nat) : Nat → Store → Nat → Nat → Store × Nat
  | 0, s, inspected, _ => (s, inspected)
  | fuel + 1, s, inspected, cursor =>
    if inspected ≥ budget then (s.setScanCursor iso cursor, inspected)
    else
      match BinTree.findFirstLeftInclusive (s.unqualified iso).tree cursor with
      | none => (s.setScanCursor iso 0, inspected)
      | some next =>
        -- end of the eligible range: the next scan starts from the bottom
        if next > rBin then (s.setScanCursor iso 0, inspected)
        else
          let scanned := (binSnapshot s iso next).foldl (inspectGem now iso rate) (s, inspected)
          if next + 1 ≤ BinTree.maxBinId then
            qualifyLoop now iso rate rBin budget fuel scanned.1 scanned.2 (next + 1)
          else (scanned.1.setScanCursor iso 0, scanned.2)

/-- Rounds that are always enough: one per bin and one to stop. -/
def scanFuel : Nat := 0x1000001

/-- Drains the floor bins one currency's rate has crossed; returns how many gems it inspected. -/
def qualifyWithRate (now iso rate budget : Nat) (s : Store) : Store × Nat :=
  match priceToBin rate with
  | .error _ => (s, 0)
  | .ok rBin => qualifyLoop now iso rate rBin budget scanFuel s 0 (s.qualifyScanCursor iso)

end Rudis.Gem
