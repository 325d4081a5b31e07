import Rudis.Proofs.BoundaryActivation
import Rudis.Proofs.Delegation
import Rudis.Proofs.OcompWindows
import Rudis.Proofs.ValidatorSet.Snapshots
import Rudis.Proofs.Rewards.Participation
import Rudis.Proofs.Lysis.Budget
import Rudis.Proofs.SlashIndicator.Evidence
import Rudis.Proofs.Oracle.Scurve
import Rudis.Proofs.Oracle.SlashWindow
import Rudis.Proofs.AgentReward.Distribution
import Rudis.Proofs.CompressedEntities.Listing
import Rudis.Proofs.PartitionRoot.Verifier
import Rudis.Proofs.Lysis.PlanTrees
import Rudis.Proofs.Credis.Ledger
import Rudis.Proofs.Desis.Supply
import Rudis.Proofs.IntexFactory.Proceeds
import Rudis.Proofs.Vote.Outcomes
import Rudis.Proofs.Gem.Scan
import Rudis.Proofs.GemFactory
import Rudis.Proofs.Time
import Rudis.Proofs.VaultRouter
import Rudis.Proofs.DkgCeremony
import Rudis.Proofs.Lysis.Root
import Rudis.Proofs.ParentCertStore
import Rudis.Spec.IntexFactory.CallSweep
