import Mathlib.Data.Finset.Sort
import Rudis.Spec.Primitives

/-!
# `Rudis.Spec.CompressedEntities`: the block overlay over a finalized parent

Entity bodies live off chain. A block works on an overlay (`state.rs`): a pending word and body
for each touched entity, and one delta word for each touched index record, which says how the
membership changed against the finalized parent. `mint`, `update` and `delete` (`runtime.rs`)
write both; `read` looks an entity up through the overlay and `list` merges the parent's pages
with the deltas.

Mappings keyed by a hash are keyed by what is hashed: the entity for the body locator, the record
for the index key. A stored body is the typed body its canonical payload decodes to, and the body
commitment is a parameter. The gas charges of a call are not modelled; the endless walk over a
parent that never ends its pages runs out of gas, and the number of pages read is bounded by that
gas.
-/

namespace Rudis.CompressedEntities

open Function (update)

/-- A 32-byte entity id: the worldwide day in the first four bytes, then a digest. -/
abbrev WwdEntityId := Fin (2 ^ 256)

def worldwideDay (id : WwdEntityId) : WorldwideDay :=
  ⟨id.val / 2 ^ 224, by have := id.isLt; omega⟩

/-- The id with a day prefix and the last 28 bytes of a digest. -/
def fromDayAndDigest (day : WorldwideDay) (digest : B256) : WwdEntityId :=
  ⟨day.val * 2 ^ 224 + digest.toNat % 2 ^ 224, by have := day.isLt; omega⟩

abbrev Commitment := B256

/-! ### Bodies -/

/-- Canonical Tribute payload. -/
structure TributeBody where
  tributeId : WwdEntityId
  owner : Address
  worldwideDay : WorldwideDay
  issuanceAmountMinor : Nat
  /-- Currency of the issued amount. -/
  issuanceCurrency : Nat
  nominalAmountMinor : Nat
  referenceCurrency : Nat
  tributePriceMinor : Nat
  /-- Left out of the Intex issuance. -/
  excludeFromIntexIssuance : Bool

/-- Canonical Nod item payload. -/
structure NodItemBody where
  nodId : WwdEntityId
  owner : Address
  gratisLoadMinor : Nat
  worldwideDay : WorldwideDay
  leagueId : Nat
  floorPriceMinor : Nat
  /-- Bucket the Nod belongs to. -/
  bucketKey : B256
  issuanceCurrency : Nat
  referenceCurrency : Nat
  /-- Time of issuance. -/
  issuedAt : Nat

/-- Canonical Nod bucket payload. -/
structure NodBucketBody where
  bucketKey : B256
  worldwideDay : WorldwideDay
  floorPriceMinor : Nat
  /-- Whether the bucket is qualified. -/
  isQualified : Bool
  /-- Number of Nods in the bucket. -/
  totalNods : Nat
  entryPriceMinor : Nat
  referenceCurrency : Nat

inductive EntityRef where
  | tribute (id : WwdEntityId)
  | nodItem (id : WwdEntityId)
  | nodBucket (id : WwdEntityId)
  deriving DecidableEq

def EntityRef.entityId : EntityRef → WwdEntityId
  | .tribute id | .nodItem id | .nodBucket id => id

/-- A typed body: the input of a mint or an update, and what a stored body decodes to. -/
inductive Body where
  | tribute (body : TributeBody)
  | nodItem (body : NodItemBody)
  | nodBucket (body : NodBucketBody)

def Body.entity : Body → EntityRef
  | .tribute body => .tribute body.tributeId
  | .nodItem body => .nodItem body.nodId
  | .nodBucket body => .nodBucket (fromDayAndDigest body.worldwideDay body.bucketKey)

/-- `validate_identity_day`, made by the encoders and decoders of tributes and Nods: the day of
the body is the day prefix of its id. -/
def Body.identityDayValid : Body → Bool
  | .tribute body => worldwideDay body.tributeId == body.worldwideDay
  | .nodItem body => worldwideDay body.nodId == body.worldwideDay
  | .nodBucket _ => true

/-! ### Index records and deltas -/

/-- The four indices. -/
inductive IndexKind where
  | tributeByOwner
  | tributeByDay
  | nodByOwner
  | nodAll
  deriving DecidableEq

inductive Partition where
  | owner (owner : Address)
  | day (day : WorldwideDay)
  | all
  deriving DecidableEq

/-- One membership of an entity in an index. -/
structure IndexRecord where
  kind : IndexKind
  partition : Partition
  /-- The member. -/
  entityId : WwdEntityId
  deriving DecidableEq

/-- How a membership changed against the parent. -/
inductive DeltaStatus where
  | neverTouched
  | added
  | removed
  | noChangeTouched
  deriving DecidableEq

inductive PendingWord where
  | untouched
  | set (commitment : Commitment)
  | deleted
  deriving DecidableEq

def Body.memberships : Body → List IndexRecord
  | .tribute body =>
    [{ kind := .tributeByOwner, partition := .owner body.owner, entityId := body.tributeId },
      { kind := .tributeByDay, partition := .day body.worldwideDay, entityId := body.tributeId }]
  | .nodItem body =>
    [{ kind := .nodByOwner, partition := .owner body.owner, entityId := body.nodId },
      { kind := .nodAll, partition := .all, entityId := body.nodId }]
  | .nodBucket _ => []

/-! ### Queries and pages -/

inductive QueryRef where
  | tributeByOwner (owner : Address)
  | tributeByDay (day : WorldwideDay)
  | nodByOwner (owner : Address)
  | nodAll

/-- Upper bound of a page limit. -/
def maxIdPageLimit : Nat := 1024

/-- A page request: the ids after a cursor, at most `limit` of them. -/
structure IdPageRequest where
  /-- The cursor; `none` starts from the first id. -/
  after : Option WwdEntityId
  /-- Largest number of ids. -/
  limit : Nat

structure IdPage where
  /-- The ids, in ascending order. -/
  ids : List WwdEntityId
  /-- The cursor of the next page, `none` when there is none. -/
  nextAfter : Option WwdEntityId

def recordMatchesQuery (record : IndexRecord) (query : QueryRef) : Bool :=
  match query with
  | .tributeByOwner owner => record.kind == .tributeByOwner && record.partition == .owner owner
  | .tributeByDay day => record.kind == .tributeByDay && record.partition == .day day
  | .nodByOwner owner => record.kind == .nodByOwner && record.partition == .owner owner
  | .nodAll => record.kind == .nodAll && record.partition == .all

/-- `verified_matches_query`, on the body of a verified body. -/
def bodyMatchesQuery (body : Body) (query : QueryRef) : Bool :=
  match query, body with
  | .tributeByOwner owner, .tribute tribute => tribute.owner == owner
  | .tributeByDay day, .tribute tribute => tribute.worldwideDay == day
  | .nodByOwner owner, .nodItem item => item.owner == owner
  | .nodAll, .nodItem _ => true
  | _, _ => false

def entityForQuery : QueryRef → WwdEntityId → EntityRef
  | .tributeByOwner _, id | .tributeByDay _, id => .tribute id
  | .nodByOwner _, id | .nodAll, id => .nodItem id

/-! ### The finalized parent and the overlay -/

/-- What a block sees of its finalized parent. -/
structure Parent where
  readParentLeafVerified : EntityRef → Result (Option Commitment)
  get : EntityRef → Result (Option Body)
  list : QueryRef → IdPageRequest → Result IdPage

structure Overlay where
  pendingWord : EntityRef → PendingWord
  pendingBody : EntityRef → Option Body
  /-- Identity recorded at the locator of an entity. -/
  bodyIdentity : EntityRef → Option EntityRef
  /-- Touched entities, in order of the first touch. -/
  touched : List EntityRef
  indexDeltaWord : IndexRecord → DeltaStatus
  /-- The record stored at the key of an index record. -/
  indexDeltaRecord : IndexRecord → Option IndexRecord
  /-- Touched index records, in order of the first touch. -/
  touchedIndexDeltas : List IndexRecord

/-- The overlay at the start of a block. -/
def Overlay.empty : Overlay where
  pendingWord := fun _ => .untouched
  pendingBody := fun _ => none
  bodyIdentity := fun _ => none
  touched := []
  indexDeltaWord := fun _ => .neverTouched
  indexDeltaRecord := fun _ => none
  touchedIndexDeltas := []

/-- The pending word and body of an entity, with the checks of their records. -/
def Overlay.pending (s : Overlay) (entity : EntityRef) : Result (PendingWord × Option Body) :=
  match s.pendingWord entity with
  | .untouched => do
    throwIf ((s.pendingBody entity).isSome ∨ (s.bodyIdentity entity).isSome)
      (.fatal "untouched compressed-entity locator has residual dynamic state")
    pure (.untouched, s.pendingBody entity)
  | .set commitment => do
    throwIf (s.bodyIdentity entity ≠ some entity)
      (.fatal "compressed-entity body identity record/hash mismatch")
    throwIf ((s.pendingBody entity).isNone)
      (.fatal "compressed-entity Set entry has no pending body")
    pure (.set commitment, s.pendingBody entity)
  | .deleted => do
    throwIf (s.bodyIdentity entity ≠ some entity)
      (.fatal "compressed-entity body identity record/hash mismatch")
    throwIf ((s.pendingBody entity).isSome)
      (.fatal "compressed-entity Deleted entry retains pending body")
    pure (.deleted, s.pendingBody entity)

section Runtime

variable (bodyCommitment : WwdEntityId → Body → Commitment) (parent : Parent)

/-- A body together with what its verification established. Only `verifyStored` makes one. -/
structure VerifiedBody where
  entity : EntityRef
  commitment : Commitment
  body : Body
  identity : body.entity = entity
  dayValid : body.identityDayValid = true
  committed : bodyCommitment entity.entityId body = commitment

/-- Where a body comes from decides how a failed verification is reported. -/
inductive BodyOrigin where
  | overlay
  | parent
  deriving DecidableEq

/-- The error of a failed verification. -/
def BodyOrigin.invalid : BodyOrigin → String → PrecompileError
  | .overlay, message => .fatal message
  | .parent, message => .bodyReadCorruption message

/-- Verifies a stored body: it decodes as a body of the entity's kind, names the entity, and has
the expected commitment. -/
def verifyStored (entity : EntityRef) (storedBody : Body) (expected : Commitment)
    (origin : BodyOrigin) : Result (VerifiedBody bodyCommitment) :=
  if hday : storedBody.identityDayValid = true then
    if hentity : storedBody.entity = entity then
      if hcommitted : bodyCommitment entity.entityId storedBody = expected then
        .ok ⟨entity, expected, storedBody, hentity, hday, hcommitted⟩
      else .error (origin.invalid "body commitment mismatch")
    else .error (origin.invalid "body identity does not match requested")
  else .error (origin.invalid "body worldwide day does not match its WwdEntityId prefix")

variable (s : Overlay) (entity : EntityRef)

def read : Result (Option (VerifiedBody bodyCommitment)) := do
  let pending ← s.pending entity
  match pending.1 with
  | .set commitment =>
    let stored ← okOr pending.2 (.fatal "invalid pending StoredBody")
    some <$> verifyStored bodyCommitment entity stored commitment .overlay
  | .deleted => pure none
  | .untouched =>
    let leaf ← parent.readParentLeafVerified entity
    match leaf with
    | none => pure none
    | some commitment =>
      let body ← parent.get entity
      let stored ← okOr body (.bodyReadCorruption "committed body is missing from finalized parent")
      some <$> verifyStored bodyCommitment entity stored commitment .parent

def currentCommitment : Result (Option Commitment) := do
  let pending ← s.pending entity
  match pending.1 with
  | .untouched => parent.readParentLeafVerified entity
  | .set value =>
    let stored ← okOr pending.2 (.fatal "invalid pending StoredBody")
    let _ ← verifyStored bodyCommitment entity stored value .overlay
    pure (some value)
  | .deleted => pure none

/-- `require_capability_current`: a verified body can be used as long as its commitment is the
current one. -/
def requireCapabilityCurrent (current : VerifiedBody bodyCommitment) : Result Unit := do
  let actual ← currentCommitment bodyCommitment parent s current.entity
  let actual ← okOr actual (.revert "compressed entity is absent")
  throwIf (actual ≠ current.commitment)
    (.revert "verified body capability no longer matches current value")

/-- First touch of an entity: records its identity. -/
def prepareBodyTouch : Call Overlay Unit := do
  let pending ← query fun s => s.pending entity
  when (pending.1 = .untouched) <| modify fun s =>
    { s with bodyIdentity := update s.bodyIdentity entity (some entity)
             touched := s.touched ++ [entity] }

/-- Writes the pending body and commitment of a touched entity. -/
def setPendingPrepared (commitment : Commitment) (storedBody : Body) : Call Overlay Unit := do
  let identity ← reads fun s => s.bodyIdentity entity
  failIf (identity = none) (.fatal "pending Set was not prepared by first-touch logic")
  modify fun s =>
    { s with pendingBody := update s.pendingBody entity (some storedBody)
             pendingWord := update s.pendingWord entity (.set commitment) }

/-- Marks a touched entity deleted. -/
def setDeletedPrepared : Call Overlay Unit := do
  let identity ← reads fun s => s.bodyIdentity entity
  failIf (identity = none) (.fatal "pending Deleted was not prepared by first-touch logic")
  modify fun s =>
    { s with pendingBody := update s.pendingBody entity none
             pendingWord := update s.pendingWord entity .deleted }

variable (record : IndexRecord)

/-- The delta word of a record; its first touch stores the record. -/
def validateOrPrepareDelta : Call Overlay DeltaStatus := do
  let current ← reads fun s => s.indexDeltaWord record
  let stored ← reads fun s => s.indexDeltaRecord record
  if current = .neverTouched then
    failIf (stored ≠ none) (.fatal "untouched index delta has residual record")
    modify fun s =>
      { s with indexDeltaRecord := update s.indexDeltaRecord record (some record)
               touchedIndexDeltas := s.touchedIndexDeltas ++ [record] }
  else
    failIf (stored ≠ some record) (.fatal "compressed-entity index record/hash mismatch")
  pure current

def writeIndexDelta (next : DeltaStatus) : Call Overlay Unit :=
  modify fun s => { s with indexDeltaWord := update s.indexDeltaWord record next }

/-- A membership becomes current. -/
def applyIndexAdd : Call Overlay Unit := do
  let current ← validateOrPrepareDelta record
  match current with
  | .neverTouched | .noChangeTouched => writeIndexDelta record .added
  | .removed => writeIndexDelta record .noChangeTouched
  | .added => fatal "index add requested for an already-current membership"

/-- A membership stops being current. -/
def applyIndexRemove : Call Overlay Unit := do
  let current ← validateOrPrepareDelta record
  match current with
  | .neverTouched | .noChangeTouched => writeIndexDelta record .removed
  | .added => writeIndexDelta record .noChangeTouched
  | .removed => fatal "index remove requested for a non-current membership"

/-- The input check of the encoders. -/
def prepareInput (input : Body) : Result Unit :=
  throwIf (input.identityDayValid = false)
    (.revert "body worldwide day does not match its WwdEntityId prefix")

/-- Mints an entity that does not exist. -/
def mint (newBody : Body) : Call Overlay Unit := do
  ofExcept (prepareInput newBody)
  let entity := newBody.entity
  let current ← query fun s => currentCommitment bodyCommitment parent s entity
  failIf (current ≠ none) (.revert "compressed entity already exists")
  prepareBodyTouch entity
  setPendingPrepared entity (bodyCommitment entity.entityId newBody) newBody
  newBody.memberships.forM applyIndexAdd

/-- Replaces the body of an entity. -/
def update (current : VerifiedBody bodyCommitment) (newBody : Body) : Call Overlay Unit := do
  ofExcept (prepareInput newBody)
  let entity := newBody.entity
  failIf (current.entity ≠ entity)
    (.revert "compressed entity update collection or identity mismatch")
  query fun s => requireCapabilityCurrent bodyCommitment parent s current
  prepareBodyTouch entity
  setPendingPrepared entity (bodyCommitment entity.entityId newBody) newBody
  (current.body.memberships.filter fun r => decide (r ∉ newBody.memberships)).forM applyIndexRemove
  (newBody.memberships.filter fun r => decide (r ∉ current.body.memberships)).forM applyIndexAdd

def delete (current : VerifiedBody bodyCommitment) : Call Overlay Unit := do
  query fun s => requireCapabilityCurrent bodyCommitment parent s current
  prepareBodyTouch current.entity
  setDeletedPrepared current.entity
  current.body.memberships.forM applyIndexRemove

/-! ### Listing -/

def Overlay.indexDelta (key : IndexRecord) : Result (IndexRecord × DeltaStatus) := do
  throwIf (s.indexDeltaWord key = .neverTouched) (.fatal "touched index key has zero status")
  let record ← okOr (s.indexDeltaRecord key) (.fatal "compressed-entity index record is truncated")
  throwIf (record ≠ key) (.fatal "compressed-entity touched index hash mismatch")
  pure (record, s.indexDeltaWord key)

/-- The touched index records with their deltas. -/
def Overlay.indexDeltas : Result (List (IndexRecord × DeltaStatus)) := do
  throwIf (¬ s.touchedIndexDeltas.Nodup) (.fatal "duplicate compressed-entity touched index key")
  s.touchedIndexDeltas.mapM s.indexDelta

/-- The id comes after the cursor. -/
def isAfter (after : Option WwdEntityId) (id : WwdEntityId) : Bool :=
  match after with
  | none => true
  | some after => decide (after < id)

/-- The ids a query adds and removes after the cursor. -/
structure Deltas where
  /-- Ids that became members. -/
  added : Finset WwdEntityId
  /-- Ids that stopped being members. -/
  removed : Finset WwdEntityId

variable (query : QueryRef)

/-- One record of the delta scan. -/
def collectDelta (after : Option WwdEntityId) (deltas : Deltas)
    (delta : IndexRecord × DeltaStatus) : Result Deltas :=
  if recordMatchesQuery delta.1 query && isAfter after delta.1.entityId then
    match delta.2 with
    | .added => .ok { deltas with added := insert delta.1.entityId deltas.added }
    | .removed => .ok { deltas with removed := insert delta.1.entityId deltas.removed }
    | .noChangeTouched => .ok deltas
    | .neverTouched => .error (.fatal "zero index delta escaped state validation")
  else .ok deltas

def validatePageRequest (request : IdPageRequest) : Result Unit := do
  throwIf (request.limit = 0 ∨ maxIdPageLimit < request.limit)
    (.revert "page limit must be in 1..=1024")
  match query, request.after with
  | .tributeByDay day, some after =>
    throwIf (worldwideDay after ≠ day) (.revert "TributeByDay cursor has the wrong day prefix")
  | _, _ => pure ()

/-- The ids of a day query have the day as their prefix. -/
def requireDayPrefix (id : WwdEntityId) : Result Unit :=
  match query with
  | .tributeByDay day =>
    throwIf (worldwideDay id ≠ day)
      (.bodyReadCorruption "parent TributeByDay ID has the wrong day prefix")
  | _ => pure ()

/-- The ids of a parent page ascend from the cursor, with the day prefix of a day query. -/
def validateParentIds (query : QueryRef) : Option WwdEntityId → List WwdEntityId →
    Result Unit
  | _, [] => pure ()
  | previous, id :: ids => do
    throwIf (isAfter previous id = false)
      (.bodyReadCorruption "parent IDs are not strictly ascending after the cursor")
    requireDayPrefix query id
    validateParentIds query (some id) ids

def validateContinuation (page : IdPage) : Result Unit :=
  match page.nextAfter with
  | some next =>
    throwIf (page.ids.getLast? ≠ some next)
      (.bodyReadCorruption "parent next_after must equal its last returned ID")
  | none => pure ()

def validateParentPage (after : Option WwdEntityId) (limit : Nat)
    (page : IdPage) : Result Unit := do
  throwIf (limit < page.ids.length) (.bodyReadCorruption "parent page exceeds requested limit")
  validateParentIds query after page.ids
  validateContinuation page

/-- `merged_candidates`: the parent ids without the removed ones, and the added ones, ascending. -/
def mergedCandidates (parentSeen added removed : Finset WwdEntityId) : List WwdEntityId :=
  ((parentSeen \ removed) ∪ added).sort

/-- What the walk over the parent's pages has seen. -/
structure Scan where
  /-- Parent ids seen so far. -/
  parentSeen : Finset WwdEntityId
  /-- Those of them that were removed. -/
  observedRemoved : Finset WwdEntityId
  /-- The parent has no further page. -/
  parentExhausted : Bool

/-- One id of a parent page. -/
def observeId (deltas : Deltas) (scan : Scan) (id : WwdEntityId) : Result Scan := do
  throwIf (id ∈ deltas.added)
    (.bodyReadCorruption "Added ID already exists in finalized-parent index")
  throwIf (id ∈ scan.parentSeen) (.bodyReadCorruption "duplicate finalized-parent ID")
  pure { scan with
    parentSeen := insert id scan.parentSeen
    observedRemoved :=
      if id ∈ deltas.removed then insert id scan.observedRemoved else scan.observedRemoved }

/-- A removed id up to the last id of a page must have been on a page. -/
def requireNoneSkipped (deltas : Deltas) (initialAfter : Option WwdEntityId) (scan : Scan)
    (page : IdPage) : Result Unit :=
  match page.ids.getLast? with
  | some last =>
    throwIf (∃ removedId ∈ deltas.removed, isAfter initialAfter removedId = true ∧
        removedId ≤ last ∧ removedId ∉ scan.observedRemoved)
      (.bodyReadCorruption "Removed ID was skipped by the ordered finalized-parent index")
  | none => pure ()

/-- The page has reached the candidate after the result page. -/
def proofReached (deltas : Deltas) (target : Nat) (scan : Scan) (page : IdPage) : Bool :=
  match (mergedCandidates scan.parentSeen deltas.added deltas.removed)[target]?,
    page.ids.getLast? with
  | some lookahead, some last => decide (lookahead ≤ last)
  | _, _ => false

/-- The walk over the parent's pages: until the parent is exhausted or a page has reached the
candidate after the result page. -/
def scanParent (query : QueryRef) (request : IdPageRequest) (deltas : Deltas) :
    Nat → Option WwdEntityId → Scan → Result Scan
  | 0, _, _ => .error .outOfGas
  | gas + 1, cursor, scan => do
    let page ← parent.list query { after := cursor, limit := request.limit }
    validateParentPage query cursor request.limit page
    let scan ← page.ids.foldlM (observeId deltas) scan
    requireNoneSkipped deltas request.after scan page
    let scan := { scan with parentExhausted := page.nextAfter.isNone }
    if scan.parentExhausted || proofReached deltas request.limit scan page then pure scan
    else scanParent query request deltas gas page.nextAfter scan

/-- Reads a selected id and checks it against the query. -/
def readListed (id : WwdEntityId) : Result (VerifiedBody bodyCommitment) := do
  let found ← read bodyCommitment parent s (entityForQuery query id)
  let body ← okOr found (.bodyReadCorruption "listed compressed entity is canonically absent")
  throwIf (bodyMatchesQuery body.body query = false)
    (.bodyReadCorruption "listed compressed entity violates query predicate")
  pure body

structure VerifiedBodyPage where
  /-- The bodies, in ascending order of their ids. -/
  bodies : List (VerifiedBody bodyCommitment)
  /-- The cursor of the next page. -/
  nextAfter : Option WwdEntityId

/-- The cursor of the next page: the last selected id when there is more. -/
def nextCursor (hasMore : Bool) (selected : List WwdEntityId) : Result (Option WwdEntityId) :=
  if hasMore then
    some <$> okOr selected.getLast?
      (.fatal "parent continuation or merged lookahead produced an empty result page")
  else pure none

def list (gas : Nat) (s : Overlay) (query : QueryRef) (request : IdPageRequest) :
    Result (VerifiedBodyPage bodyCommitment) := do
  validatePageRequest query request
  let records ← s.indexDeltas
  let deltas ← records.foldlM (collectDelta query request.after) ⟨∅, ∅⟩
  let scan ← scanParent parent query request deltas gas request.after ⟨∅, ∅, false⟩
  throwIf (scan.parentExhausted = true ∧
      scan.observedRemoved ≠ deltas.removed.filter fun id => isAfter request.after id = true)
    (.bodyReadCorruption "Removed ID is missing from finalized-parent index")
  let candidates := mergedCandidates scan.parentSeen deltas.added deltas.removed
  let selected := candidates.take request.limit
  let hasMore := decide (request.limit < candidates.length) || !scan.parentExhausted
  let nextAfter ← nextCursor hasMore selected
  let bodies ← selected.mapM (readListed bodyCommitment parent s query)
  pure ⟨bodies, nextAfter⟩

/-- Lists a query page by page, following `next_after` from a cursor until it is `none`. -/
def listFrom (gas : Nat) (s : Overlay) (query : QueryRef) (limit : Nat) :
    Nat → Option WwdEntityId → Result (List (VerifiedBody bodyCommitment))
  | 0, _ => .error .outOfGas
  | pages + 1, after => do
    let page ← list bodyCommitment parent gas s query { after := after, limit := limit }
    match page.nextAfter with
    | none => pure page.bodies
    | some next =>
      let rest ← listFrom gas s query limit pages (some next)
      pure (page.bodies ++ rest)

end Runtime

end Rudis.CompressedEntities
