import Mathlib.Data.Finmap

/-!
# `Rudis.Spec.DkgCeremony`: the canonical DKG ceremony

`crates/blockchain/consensus/src/dkg_manager/ceremony.rs`, and the part of `dkg_manager.rs` that
feeds it the finalized dealer logs. The log map is only read by key, so that it is a finite map
without an order.
-/

namespace Rudis.Dkg

/-- The types of the cryptography library and its reconstruction of the group output from recorded
logs. -/
structure Scheme where
  PublicKey : Type
  DealerLog : Type
  Info : Type
  Output : Type
  [decidableEq : DecidableEq PublicKey]
  observe : Info → (Finmap fun _ : PublicKey => DealerLog) → Except String Output

instance (S : Scheme) : DecidableEq S.PublicKey := S.decidableEq

variable (S : Scheme)

/-- The recorded logs, one for each dealer. -/
abbrev Logs := Finmap fun _ : S.PublicKey => S.DealerLog

/-- A dealer log that passed the checks of `verify_dealer_log`. -/
structure VerifiedDealerLog where
  dealer : S.PublicKey
  log : S.DealerLog

inductive DkgCeremonyPhase where
  | collecting
  | reconstructed (output : S.Output)

inductive FinalizedLogOutcome where
  | recorded (dealer : S.PublicKey) (logsLen : Nat)
  | duplicateFinalized (dealer : S.PublicKey)

inductive ReconstructOutcome where
  | alreadyReconstructed
  | reconstructed (output : S.Output)
  | pending (error : String)

structure DkgCeremony where
  info : S.Info
  finalizedDealerLogs : Logs S
  phase : DkgCeremonyPhase S

variable {S}

namespace DkgCeremony

def new (info : S.Info) : DkgCeremony S := ⟨info, ∅, .collecting⟩

variable (c : DkgCeremony S)

/-- The first log of a dealer is kept. -/
def applyFinalizedDealerLog (verified : VerifiedDealerLog S) :
    FinalizedLogOutcome S × DkgCeremony S :=
  if verified.dealer ∈ c.finalizedDealerLogs then (.duplicateFinalized verified.dealer, c)
  else
    let logs := c.finalizedDealerLogs.insert verified.dealer verified.log
    (.recorded verified.dealer logs.keys.card, { c with finalizedDealerLogs := logs })

/-- The output is frozen at the first success. -/
def tryReconstructIfNeeded : ReconstructOutcome S × DkgCeremony S :=
  match c.phase with
  | .reconstructed _ => (.alreadyReconstructed, c)
  | .collecting =>
    match S.observe c.info c.finalizedDealerLogs with
    | .ok output => (.reconstructed output, { c with phase := .reconstructed output })
    | .error error => (.pending error, c)

def output : Option S.Output :=
  match c.phase with
  | .reconstructed output => some output
  | .collecting => none

/-- `note_finalized_header_artifact_at_inner` on a dealer log that verifies: a log that is recorded
is followed by an attempt to reconstruct. -/
def noteFinalizedDealerLog (verified : VerifiedDealerLog S) : DkgCeremony S :=
  match c.applyFinalizedDealerLog verified with
  | (.duplicateFinalized _, c) => c
  | (.recorded _ _, c) => c.tryReconstructIfNeeded.2

/-- The ceremony after a replay of finalized logs. -/
def restartCeremonyWithFinalizedLogs (info : S.Info) (finalizedLogs : List (VerifiedDealerLog S)) :
    DkgCeremony S :=
  finalizedLogs.foldl noteFinalizedDealerLog (new info)

end DkgCeremony

end Rudis.Dkg
