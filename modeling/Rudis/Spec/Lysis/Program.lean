import Rudis.Lib.SortedMap
import Rudis.Spec.Lysis.Algorithm

/-!
# `Rudis.Spec.Lysis.Program`: the sequential Lysis program

`program_v1/types.rs` and `program_v1/execute.rs`: the pure program that turns the tributes of one
day into Nod actions. `execute` sorts and validates its input, derives the fraction of each
Fidelity league, and walks the tributes with a running remainder of the Gratis allocation. A
`BTreeMap` of the source is a `SortedMap`, a deterministic observation is an `Option`, and the `V1`
of the source's type names is left out. The two hash functions are parameters (`Hashing`).
-/

namespace Rudis.Lysis

/-- Words are ordered as the numbers they stand for. -/
scoped instance instLinearOrderBitVec (w : Nat) : LinearOrder (BitVec w) where
  le := (· ≤ ·)
  lt := (· < ·)
  le_refl := BitVec.le_refl
  le_trans _ _ _ := BitVec.le_trans
  lt_iff_le_not_ge _ _ := ⟨fun h => ⟨BitVec.le_of_lt h, BitVec.not_le.mpr h⟩,
    fun h => BitVec.not_le.mp h.2⟩
  le_antisymm _ _ := BitVec.le_antisymm
  le_total := BitVec.le_total
  toDecidableLE := inferInstance
  toDecidableEq := inferInstance
  toDecidableLT := inferInstance

/-- The hash functions of the compressed entities. -/
structure Hashing where
  /-- `derive_poseidon_digest`: the digest of an owner and a day, or the text of its failure. -/
  derivePoseidonDigest : Address → Nat → Except String B256
  keccak256 : List UInt8 → B256

/-! ### Types -/

/-- The day an entity id carries in its top four bytes. -/
def entityDay (id : B256) : Nat := id.toNat / 2 ^ 224

/-- `WwdEntityId::from_day_and_digest`: the digest with its first four bytes replaced by the day. -/
def fromDayAndDigest (worldwideDay : Nat) (digest : B256) : B256 :=
  BitVec.ofNat 256 (worldwideDay % 2 ^ 32 * 2 ^ 224 + digest.toNat % 2 ^ 224)

variable (h : Hashing)

/-- The canonical id of an owner's entity of a day. -/
def Hashing.derivePoseidonEntityId (owner : Address) (worldwideDay : Nat) : Except String B256 := do
  let digest ← h.derivePoseidonDigest owner worldwideDay
  pure (fromDayAndDigest worldwideDay digest)

/-- `NodContract::bucket_key`. -/
def Hashing.bucketKey (h : Hashing) (worldwideDay floorPriceMinor referenceCurrency : Nat) : B256 :=
  h.keccak256 (beBytes 4 worldwideDay ++ beBytes 32 floorPriceMinor ++ beBytes 2 referenceCurrency)

/-- One canonical tribute body. -/
structure TributeInput where
  tributeId : B256
  owner : Address
  worldwideDay : Nat
  issuanceCurrency : Nat
  nominalAmountMinor : Nat
  referenceCurrency : Nat
  tributePriceMinor : Nat
  excludeFromIntexIssuance : Bool
  deriving DecidableEq

/-- A tribute with the observations its ordinal consumes. -/
structure ObservedTribute where
  tribute : TributeInput
  firstLeague : Option Nat
  secondLeague : Option Nat
  /-- Required only when the reference currency is not 840. -/
  conditionalEntryPriceMinor : Option Nat
  nodTargetAvailable : Bool
  deriving DecidableEq

structure ProgramInput where
  worldwideDay : Nat
  logicalEvaluationTime : Nat
  gratisAllocation : Nat
  mandatoryEntryPrice840 : Option Nat
  tributes : List ObservedTribute
  deriving DecidableEq

/-- Which of the two Fidelity observations was made. -/
inductive FidelityPhase where
  | first
  | second
  deriving DecidableEq

/-- One entry of the observation transcript. -/
inductive SemanticObservation where
  | fidelity (ordinal : Nat) (phase : FidelityPhase) (owner : Address) (league : Nat)
  /-- The ordinal is `none` for the mandatory observation before the output loop. -/
  | oracle (ordinal : Option Nat) (currency entryPriceMinor : Nat)
  deriving DecidableEq

structure NodAction where
  sourceTributeId : B256
  nodId : B256
  owner : Address
  worldwideDay : Nat
  leagueId : Nat
  floorPriceMinor : Nat
  gratisLoadMinor : Nat
  entryPriceMinor : Nat
  costAmountMinor : Nat
  issuanceCurrency : Nat
  referenceCurrency : Nat
  bucketKey : B256
  issuedAt : Nat
  deriving DecidableEq

/-- One contributor's total. -/
structure ContributorAction where
  owner : Address
  nominalAmountMinor : Nat
  deriving DecidableEq

structure LeagueFraction where
  league : Nat
  fraction : Nat
  deriving DecidableEq

/-- The result of a successful run. -/
structure ProgramResult where
  tributeIds : List B256
  totalNominal : Nat
  gratisAllocation : Nat
  remainingGratis : Nat
  leagueFractions : List LeagueFraction
  nodActions : List NodAction
  contributors : List ContributorAction
  observations : List SemanticObservation
  deriving DecidableEq

inductive ProgramError where
  | emptyInput
  | nonCanonicalInput (ordinal : Nat)
  | duplicateInput (ordinal : Nat)
  | worldwideDayMismatch (ordinal : Nat)
  | invalidTributeIdentity (ordinal : Nat)
  | totalNominalOverflow (ordinal : Nat)
  | zeroTotalNominal
  | fidelityUnavailable (ordinal : Nat) (phase : FidelityPhase)
  | fidelityMismatch (ordinal first second : Nat)
  | mandatoryOracleUnavailable
  | conditionalOracleUnavailable (ordinal currency : Nat)
  | zeroEntryPrice (ordinal : Option Nat) (currency : Nat)
  | arithmetic (message : String)
  | zeroGratisLoad (ordinal : Nat)
  | zeroCost (ordinal entryPriceMinor gratisLoadMinor : Nat)
  | gratisLoadExceedsRemaining (ordinal : Nat)
  | invalidNodTarget (ordinal : Nat)
  | contributorOverflow (ordinal : Nat)
  | outputCountMismatch
  deriving DecidableEq

/-! ### Checks of one step -/

/-- `checked_mul_div_floor` with the program's error. -/
def scaledFloor (numerator multiplier denominator : Nat) : Except ProgramError Nat :=
  (checkedMulDivFloor numerator multiplier denominator).mapError fun e => .arithmetic e.text

def calculateGratisLoad (nominalAmountMinor fraction ordinal : Nat) : Except ProgramError Nat := do
  let load ← scaledFloor nominalAmountMinor fraction scale
  throwIf (load = 0) (.zeroGratisLoad ordinal)
  pure load

def calculateCost (entryPriceMinor gratisLoadMinor ordinal : Nat) : Except ProgramError Nat := do
  let cost ← scaledFloor entryPriceMinor gratisLoadMinor scale
  throwIf (cost = 0) (.zeroCost ordinal entryPriceMinor gratisLoadMinor)
  pure cost

/-- The canonical id of a tribute's owner and day. -/
def deriveEntityId (owner : Address) (worldwideDay : Nat) : Except ProgramError B256 :=
  (h.derivePoseidonEntityId owner worldwideDay).mapError .arithmetic

/-- One round of the canonical walk: `previous` is the id before the tribute. -/
def validateCanonicalTribute (worldwideDay : Nat) (previous : Option B256)
    (tribute : TributeInput) (ordinal : Nat) : Except ProgramError (Option B256) := do
  throwIf (tribute.worldwideDay ≠ worldwideDay ∨ entityDay tribute.tributeId ≠ worldwideDay)
    (.worldwideDayMismatch ordinal)
  throwIf (previous = some tribute.tributeId) (.duplicateInput ordinal)
  throwIf (previous.any fun p => tribute.tributeId < p) (.nonCanonicalInput ordinal)
  let expected ← deriveEntityId h tribute.owner tribute.worldwideDay
  throwIf (tribute.tributeId ≠ expected) (.invalidTributeIdentity ordinal)
  pure (some tribute.tributeId)

/-- Every tribute is of the day, has the id of its owner, and the ids ascend. -/
def validateCanonicalTributes (worldwideDay : Nat) (tributes : List TributeInput) :
    Except ProgramError Unit := do
  let _ ← tributes.zipIdx.foldlM (fun previous item =>
    validateCanonicalTribute h worldwideDay previous item.1 item.2) none
  pure ()

def checkedNominalStep (total nominalAmountMinor ordinal : Nat) : Except ProgramError Nat :=
  okOr (checkedAdd 256 total nominalAmountMinor) (.totalNominalOverflow ordinal)

def validateEntryPrice (entryPriceMinor : Nat) (ordinal : Option Nat) (currency : Nat) :
    Except ProgramError Unit :=
  throwIf (entryPriceMinor = 0) (.zeroEntryPrice ordinal currency)

def validateRequiredGratis (remaining gratisLoadMinor ordinal : Nat) : Except ProgramError Nat := do
  throwIf (gratisLoadMinor = 0) (.zeroGratisLoad ordinal)
  throwIf (gratisLoadMinor > remaining) (.gratisLoadExceedsRemaining ordinal)
  pure (remaining - gratisLoadMinor)

/-! ### The fraction map -/

/-- Populations and nominal totals by Fidelity league. -/
abbrev Groups := SortedMap Nat (Nat × Nat)

/-- Adds `count` tributes of a nominal total to a league. The three walks that build groups differ
in the errors they give an overflow. -/
def addToGroup (population nominalOverflow : ProgramError) (groups : Groups)
    (league count nominal : Nat) : Except ProgramError Groups := do
  let group := (groups.find? league).getD (0, 0)
  let count ← okOr (checkedAdd 32 group.1 count) population
  let nominal ← okOr (checkedAdd 256 group.2 nominal) nominalOverflow
  pure (groups.insert league (count, nominal))

/-- The last share takes what rounding left of one. -/
def completeShares (shares : List Nat) (shareSum : Nat) : Except ProgramError (List Nat) :=
  match shares.getLast? with
  | none => pure shares
  | some last =>
    if shareSum < scale then do
      let last ← okOr (checkedAdd 256 last (scale - shareSum))
        (.arithmetic "Fidelity share remainder overflow")
      pure (shares.dropLast ++ [last])
    else pure shares

/-- The fractions the distribution gives the leagues, before the real amounts are looked at. -/
def distributedFractions (groups : Groups) (tributeCount totalInterest gratisAllocation : Nat) :
    Except ProgramError (List Nat) := do
  let shares ← groups.entries.mapM fun e => scaledFloor e.2.2 scale totalInterest
  let shareSum ← shares.foldlM (fun sum share =>
    okOr (checkedAdd 256 sum share) (.arithmetic "Fidelity share sum overflow")) 0
  let shares ← completeShares shares shareSum
  let f ← scaledFloor gratisAllocation scale totalInterest
  let fmax ← okOr (checkedMul 256 f 2) (.arithmetic "maximum Gratis fraction overflow")
  (calcFractionDistributionFp shares (groups.entries.map (·.2.1)) tributeCount f fmax).mapError
    fun e => .arithmetic e.text

/-- Adds the load of a league's total under its fraction. -/
def addProjectedLoad (sum : Nat) (item : (Nat × (Nat × Nat)) × Nat) : Except ProgramError Nat := do
  let load ← scaledFloor item.1.2.2 item.2 scale
  okOr (checkedAdd 256 sum load) (.arithmetic "projected Gratis allocation overflow")

/-- What the leagues' totals spend under given fractions. -/
def projectedGratis (groups : Groups) (fractions : List Nat) : Except ProgramError Nat :=
  (groups.entries.zip fractions).foldlM addProjectedLoad 0

def computeFractionMapFromGroups (groups : Groups)
    (tributeCount totalInterest gratisAllocation : Nat) :
    Except ProgramError (SortedMap Nat Nat) := do
  let fractions ← distributedFractions groups tributeCount totalInterest gratisAllocation
  let projected ← projectedGratis groups fractions
  let fractions ←
    if projected > gratisAllocation then
      fractions.mapM fun fraction => scaledFloor fraction gratisAllocation projected
    else pure fractions
  pure (SortedMap.ofList (groups.keys.zip fractions))

/-- Adds one tribute, given as its league, nominal amount and ordinal. -/
def addTributeToGroup (groups : Groups) (item : (Nat × Nat) × Nat) : Except ProgramError Groups :=
  addToGroup (.arithmetic "Fidelity league population overflow") (.totalNominalOverflow item.2)
    groups item.1.1 1 item.1.2

/-- Populations and totals of the leagues of a list of tributes. -/
def leagueGroups (nominalAmounts tributeFis : List Nat) : Except ProgramError Groups :=
  (tributeFis.zip nominalAmounts).zipIdx.foldlM addTributeToGroup SortedMap.empty

def computeFractionMap (nominalAmounts tributeFis : List Nat)
    (totalInterest gratisAllocation : Nat) : Except ProgramError (SortedMap Nat Nat) := do
  let groups ← leagueGroups nominalAmounts tributeFis
  throwIf (nominalAmounts.length ≥ 2 ^ 32) .outputCountMismatch
  computeFractionMapFromGroups groups nominalAmounts.length totalInterest gratisAllocation

/-! ### The staged program -/

/-- The input after the first Fidelity pass. -/
structure PreparedProgram where
  tributes : List TributeInput
  firstLeagues : List Nat
  fractions : SortedMap Nat Nat
  totalNominal : Nat
  gratisAllocation : Nat
  logicalEvaluationTime : Nat
  observations : List SemanticObservation
  deriving DecidableEq

/-- One load, checked before the reads at its ordinal. -/
structure PendingNod where
  ordinal : Nat
  gratisLoadMinor : Nat
  remainingAfter : Nat

/-- The state of the output loop. -/
structure ProgramExecution where
  prepared : PreparedProgram
  mandatoryEntryPrice840 : Nat
  nextOrdinal : Nat
  remaining : Nat
  nodActions : List NodAction
  contributors : SortedMap Address Nat
  observations : List SemanticObservation
  deriving DecidableEq

/-- Validates the input and derives the fractions. -/
def prepare (worldwideDay : Nat) (tributes : List TributeInput)
    (firstLeagues : List Nat) (gratisAllocation logicalEvaluationTime : Nat) :
    Except ProgramError PreparedProgram := do
  throwIf (tributes.isEmpty) .emptyInput
  throwIf (tributes.length ≠ firstLeagues.length) .outputCountMismatch
  validateCanonicalTributes h worldwideDay tributes
  let totalNominal ← tributes.zipIdx.foldlM (fun total item =>
    checkedNominalStep total item.1.nominalAmountMinor item.2) 0
  throwIf (totalNominal = 0) .zeroTotalNominal
  let fractions ← computeFractionMap (tributes.map (·.nominalAmountMinor)) firstLeagues
    totalNominal gratisAllocation
  pure {
    tributes := tributes
    firstLeagues := firstLeagues
    fractions := fractions
    totalNominal := totalNominal
    gratisAllocation := gratisAllocation
    logicalEvaluationTime := logicalEvaluationTime
    observations := (tributes.zip firstLeagues).zipIdx.map fun item =>
      .fidelity item.2 .first item.1.1.owner item.1.2 }

def PreparedProgram.start (prepared : PreparedProgram) (mandatoryEntryPrice840 : Nat) :
    Except ProgramError ProgramExecution := do
  validateEntryPrice mandatoryEntryPrice840 none 840
  pure {
    prepared := prepared
    mandatoryEntryPrice840 := mandatoryEntryPrice840
    nextOrdinal := 0
    remaining := prepared.gratisAllocation
    nodActions := []
    contributors := SortedMap.empty
    observations := prepared.observations ++ [.oracle none 840 mandatoryEntryPrice840] }

variable (execution : ProgramExecution)

/-- Computes the next load and checks it against the remainder. -/
def ProgramExecution.quoteNext : Except ProgramError PendingNod := do
  let ordinal := execution.nextOrdinal
  let tribute ← okOr execution.prepared.tributes[ordinal]? .outputCountMismatch
  let fraction :=
    (execution.prepared.fractions.find? (execution.prepared.firstLeagues.getD ordinal 0)).getD 0
  let gratisLoadMinor ← calculateGratisLoad tribute.nominalAmountMinor fraction ordinal
  let remainingAfter ← validateRequiredGratis execution.remaining gratisLoadMinor ordinal
  pure { ordinal := ordinal, gratisLoadMinor := gratisLoadMinor, remainingAfter := remainingAfter }

/-- Counts a tribute's nominal amount to its owner. -/
def addContributor (contributors : SortedMap Address Nat) (tribute : TributeInput) (ordinal : Nat) :
    Except ProgramError (SortedMap Address Nat) :=
  if tribute.excludeFromIntexIssuance then pure contributors
  else do
    let total ← okOr (checkedAdd 256 ((contributors.find? tribute.owner).getD 0)
      tribute.nominalAmountMinor) (.contributorOverflow ordinal)
    pure (contributors.insert tribute.owner total)

/-- Completes the next action with its observations. -/
def ProgramExecution.commitNext (pending : PendingNod)
    (entryPriceMinor secondLeague : Nat) (nodTargetAvailable : Bool) :
    Except ProgramError ProgramExecution := do
  let ordinal := execution.nextOrdinal
  throwIf (pending.ordinal ≠ ordinal) .outputCountMismatch
  let tribute ← okOr execution.prepared.tributes[ordinal]? .outputCountMismatch
  validateEntryPrice entryPriceMinor (some ordinal) tribute.referenceCurrency
  throwIf (tribute.referenceCurrency = 840 ∧ entryPriceMinor ≠ execution.mandatoryEntryPrice840)
    (.arithmetic "ISO 840 entry price was not reused")
  let oracle := if tribute.referenceCurrency ≠ 840 then
      [SemanticObservation.oracle (some ordinal) tribute.referenceCurrency entryPriceMinor]
    else []
  let floorPriceMinor := calcFloorPrice (max tribute.tributePriceMinor entryPriceMinor)
  let firstLeague := execution.prepared.firstLeagues.getD ordinal 0
  throwIf (firstLeague ≠ secondLeague) (.fidelityMismatch ordinal firstLeague secondLeague)
  let costAmountMinor ← calculateCost entryPriceMinor pending.gratisLoadMinor ordinal
  let nodId ← deriveEntityId h tribute.owner tribute.worldwideDay
  throwIf (nodTargetAvailable = false ∨ tribute.owner = 0) (.invalidNodTarget ordinal)
  let action : NodAction := {
    sourceTributeId := tribute.tributeId
    nodId := nodId
    owner := tribute.owner
    worldwideDay := tribute.worldwideDay
    leagueId := secondLeague
    floorPriceMinor := floorPriceMinor
    gratisLoadMinor := pending.gratisLoadMinor
    entryPriceMinor := entryPriceMinor
    costAmountMinor := costAmountMinor
    issuanceCurrency := tribute.issuanceCurrency
    referenceCurrency := tribute.referenceCurrency
    bucketKey := h.bucketKey tribute.worldwideDay floorPriceMinor tribute.referenceCurrency
    issuedAt := execution.prepared.logicalEvaluationTime }
  let contributors ← addContributor execution.contributors tribute ordinal
  pure { execution with
    nextOrdinal := ordinal + 1
    remaining := pending.remainingAfter
    nodActions := execution.nodActions ++ [action]
    contributors := contributors
    observations := execution.observations ++ oracle
      ++ [.fidelity ordinal .second tribute.owner secondLeague] }

/-- The result, once every tribute has its action. -/
def ProgramExecution.finish : Except ProgramError ProgramResult := do
  throwIf (execution.nextOrdinal ≠ execution.prepared.tributes.length
    ∨ execution.nodActions.length ≠ execution.prepared.tributes.length) .outputCountMismatch
  pure {
    tributeIds := execution.prepared.tributes.map (·.tributeId)
    totalNominal := execution.prepared.totalNominal
    gratisAllocation := execution.prepared.gratisAllocation
    remainingGratis := execution.remaining
    leagueFractions := execution.prepared.fractions.entries.map fun e => ⟨e.1, e.2⟩
    nodActions := execution.nodActions
    contributors := execution.contributors.entries.map fun e => ⟨e.1, e.2⟩
    observations := execution.observations }

/-- The price a tribute enters at: the mandatory one for currency 840, else the observed one. -/
def entryPriceOf (mandatory : Nat) (observed : ObservedTribute) (ordinal : Nat) :
    Except ProgramError Nat :=
  if observed.tribute.referenceCurrency = 840 then pure mandatory
  else okOr observed.conditionalEntryPriceMinor
    (.conditionalOracleUnavailable ordinal observed.tribute.referenceCurrency)

/-- One round of the output loop. -/
def ProgramExecution.next (mandatory : Nat) (execution : ProgramExecution)
    (observed : ObservedTribute) : Except ProgramError ProgramExecution := do
  let pending ← execution.quoteNext
  let entryPrice ← entryPriceOf mandatory observed pending.ordinal
  validateEntryPrice entryPrice (some pending.ordinal) observed.tribute.referenceCurrency
  let secondLeague ← okOr observed.secondLeague (.fidelityUnavailable pending.ordinal .second)
  execution.commitNext h pending entryPrice secondLeague observed.nodTargetAvailable

/-- The canonical order of the observed tributes. -/
def sortById (tributes : List ObservedTribute) : List ObservedTribute :=
  tributes.insertionSort fun a b => a.tribute.tributeId ≤ b.tribute.tributeId

/-- One tribute of the first Fidelity pass: its league is listed and its amount added. -/
def firstPassStep (acc : List Nat × Nat) (item : ObservedTribute × Nat) :
    Except ProgramError (List Nat × Nat) := do
  let league ← okOr item.1.firstLeague (.fidelityUnavailable item.2 .first)
  let total ← checkedNominalStep acc.2 item.1.tribute.nominalAmountMinor item.2
  pure (acc.1 ++ [league], total)

/-- The first Fidelity pass: every league, and the total they are shares of. -/
def firstPass (observed : List ObservedTribute) : Except ProgramError (List Nat × Nat) :=
  observed.zipIdx.foldlM firstPassStep ([], 0)

/-- Runs the program on a complete input. -/
def execute (input : ProgramInput) : Except ProgramError ProgramResult := do
  let observed := sortById input.tributes
  let tributes := observed.map (·.tribute)
  throwIf (tributes.isEmpty) .emptyInput
  validateCanonicalTributes h input.worldwideDay tributes
  let (firstLeagues, observedTotal) ← firstPass observed
  throwIf (observedTotal = 0) .zeroTotalNominal
  let prepared ← prepare h input.worldwideDay tributes firstLeagues input.gratisAllocation
    input.logicalEvaluationTime
  let mandatory ← okOr input.mandatoryEntryPrice840 .mandatoryOracleUnavailable
  let execution ← prepared.start mandatory
  let execution ← observed.foldlM (ProgramExecution.next h mandatory) execution
  execution.finish

end Rudis.Lysis
