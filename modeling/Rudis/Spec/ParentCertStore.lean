import Rudis.Spec.Primitives

/-!
# `Rudis.Spec.ParentCertStore`: the certified parent proofs

`crates/blockchain/consensus/src/finalization/parent_cert_store.rs` and its writers: the reporter
(`handle_certification` of `reporter.rs`) and the finalization actor (`actor.rs`).
-/

namespace Rudis.ParentCert

/-- The exact consensus parent: a hash alone may be seen in several contexts. -/
structure ProofKey where
  epoch : Nat
  view : Nat
  blockHash : Nat
  deriving DecidableEq

/-- A finalization carries the height of its block; a notarization carries none. -/
inductive ProofKind where
  | finalization (finalizedBlockNumber : Nat)
  | certifiedNotarization

/-- A proof of a parent, as far as the store looks at it. -/
structure ProofRecord where
  formatVersion : Nat := 3
  kind : ProofKind
  proofKey : ProofKey
  /-- The age by which the record is pruned. -/
  storedAtHeight : Nat

/-- The record says that this node saw the certification itself. -/
def ProofRecord.isCertificationWitness (r : ProofRecord) : Bool :=
  r.kind matches .certifiedNotarization

inductive ProofStoreError where
  | unknownFormatVersion (version : Nat)

/-- The two tables of records, and the certifications seen locally with their age. -/
structure ProofStoreState where
  finalization : ProofKey → Option ProofRecord := fun _ => none
  certifiedNotarization : ProofKey → Option ProofRecord := fun _ => none
  seenCertificationKeys : ProofKey → Option Nat := fun _ => none

/-- Which table a record goes to. -/
inductive ProofSlot where
  | finalization
  | certifiedNotarization

/-- Writes a record over the one its key has; a certification witness is also noted as seen. -/
def putInner (s : ProofStoreState) (record : ProofRecord) (slot : ProofSlot) :
    Except ProofStoreError ProofStoreState :=
  if record.formatVersion ≠ 3 then .error (.unknownFormatVersion record.formatVersion) else
  let key := record.proofKey
  .ok <| match slot with
    | .finalization => { s with finalization := update s.finalization key record }
    | .certifiedNotarization => { s with
        seenCertificationKeys := if record.isCertificationWitness then
          update s.seenCertificationKeys key record.storedAtHeight else s.seenCertificationKeys
        certifiedNotarization := update s.certifiedNotarization key record }

/-- Notes a certification before its record is written. -/
def markLocalCertificationWitness (s : ProofStoreState) (key : ProofKey) : ProofStoreState :=
  { s with seenCertificationKeys := update s.seenCertificationKeys key key.view }

/-- Drops from every table what is older than the floor. -/
def pruneBelowHeight (s : ProofStoreState) (floor : Nat) : ProofStoreState where
  finalization key := (s.finalization key).filter (floor ≤ ·.storedAtHeight)
  certifiedNotarization key := (s.certifiedNotarization key).filter (floor ≤ ·.storedAtHeight)
  seenCertificationKeys key := (s.seenCertificationKeys key).filter (floor ≤ ·)

/-- How far below a finalized block records are kept. -/
def parentCertKeepDepth : Nat := 256

/-- What the writers do: the reporter sees a certification and queues a record of it, the actor
persists the record, the actor finalizes a block. -/
inductive Event where
  | witnessed (key : ProofKey)
  | certified (key : ProofKey)
  | finalized (key : ProofKey)

/-- The blocks have the heights that `height` says. A notarization has no block context: its view
stands in for the height. -/
def step (height : ProofKey → Nat) (s : ProofStoreState) :
    Event → Except ProofStoreError ProofStoreState
  | .witnessed key => .ok (markLocalCertificationWitness s key)
  | .certified key => putInner s
      { kind := .certifiedNotarization, proofKey := key, storedAtHeight := key.view }
      .certifiedNotarization
  | .finalized key => do
    let s ← putInner s
      { kind := .finalization (height key), proofKey := key, storedAtHeight := height key }
      .finalization
    return pruneBelowHeight s (height key - parentCertKeepDepth)

/-- The store after the events, from an empty one. -/
def run (height : ProofKey → Nat) (l : List Event) : Except ProofStoreError ProofStoreState :=
  l.foldlM (step height) {}

end Rudis.ParentCert
