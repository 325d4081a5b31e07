import Rudis.Proofs.Desis.Calls

/-!
# `Rudis.Proofs.Desis.Supply`: the supply of an auction day is released exactly once

Every entry point moves each day along its life (`step_evolves`), so in every reachable world each
day is accounted for (`sound_run`). The theorem reads the consequences off the storage: the stages a
day passes through, where its supply is, the sets it is in, and the one moment PromisLimit is
credited for it.
-/

namespace Rudis.Desis

open Bool

open Days (ActiveSet)
open Relation (ReflTransGen)
open World (Logged)

variable (letterOf : Nat → Option Nat)

/-- Both sets are well formed and every day is accounted for. -/
structure World.Sound (w : World) : Prop where
  wf : w.WF
  days : ∀ day, (w.life day).Sound

theorem sound_genesis (total : Nat) : (World.genesis total).Sound where
  wf := ⟨ActiveSet.wf_empty, ActiveSet.wf_empty⟩
  days := fun _ => Life.sound_unknown 0

variable {w w' : World}

theorem World.Sound.evolves (h : w.Sound) (hevolves : Evolves w w') : w'.Sound :=
  ⟨hevolves.wf, fun day => (h.days day).path (hevolves.paths day)⟩

/-- A red day is briefed with no supply. -/
def Op.RedUnfunded : Op → Prop
  | .dispatchAuctionBrief _ supplyPromis _ isGreen _ _ => isGreen = false → supplyPromis = 0
  | _ => True

/-- The entry points of this module, as opposed to the other users of PromisLimit. -/
def Op.isOwn : Op → Bool
  | .promisLimit _ => false
  | _ => true

variable {op : Op}

/-- Every entry point moves each day along its life. -/
theorem evolves_call (h : w.Sound) (hred : op.RedUnfunded)
    (hown : op.isOwn = true) (hcall : Ok (op.call letterOf) w () w') : Evolves w w' := by
  cases op with
  | dispatchAuctionBrief day supplyPromis referencePrices isGreen now overflow =>
    simp only [Op.call, rules] at hcall
    obtain ⟨_, _, hbrief, -, rfl⟩ := hcall
    exact evolves_dispatchAuctionBrief h.wf hred hbrief
  | scheduleTick router now =>
    refine evolves_scheduleTick h.wf (fun d hlisted hnone => ?_) hcall
    have hunlisted := ((h.days d).unknown hnone).2
    exact absurd hlisted (by rw [show w.store.schedActive.has d = false from hunlisted]; simp)
  | tickGate router now => exact evolves_tickGate h.wf hcall
  | processBidsBatch => exact evolves_processBidsBatch h.wf hcall
  | processBidsDone => exact evolves_processBidsDone h.wf hcall
  | promisLimit => simp [Op.isOwn] at hown

theorem step_evolves (h : w.Sound) (hred : op.RedUnfunded)
    (hown : op.isOwn = true) : Evolves w (step letterOf op w) := by
  rcases Tx.checkpoint_cases (op.call letterOf) w with ⟨u, hok⟩ | hfailed
  · exact evolves_call letterOf h hred hown hok
  · rw [step, hfailed]
    exact .refl h.wf

/-- The other users of PromisLimit touch no day. -/
theorem step_promisLimit (w : World) (hown : op.isOwn = false) :
    ((step letterOf op w).WF ↔ w.WF) ∧ ∀ day, (step letterOf op w).life day = w.life day := by
  cases op with
  | promisLimit total => exact ⟨⟨fun h => ⟨h.gate, h.sched⟩, fun h => ⟨h.gate, h.sched⟩⟩, fun _ => rfl⟩
  | _ => simp [Op.isOwn] at hown

/-- Whoever acts, every day moves along its life. -/
theorem step_paths (h : w.Sound) (hred : op.RedUnfunded) :
    (step letterOf op w).Sound ∧
      ∀ day, ReflTransGen Life.Step (w.life day) ((step letterOf op w).life day) := by
  by_cases hown : op.isOwn = true
  · have hevolves := step_evolves letterOf h hred hown
    exact ⟨h.evolves hevolves, hevolves.paths⟩
  · obtain ⟨hwf, hlife⟩ := step_promisLimit letterOf w (eq_false_of_not_eq_true hown)
    exact ⟨⟨hwf.mpr h.wf, fun day => hlife day ▸ h.days day⟩, fun day => hlife day ▸ .refl⟩

/-- Every day is accounted for in every reachable world. -/
theorem sound_run {ops : List Op} {total : Nat} (hred : ∀ op ∈ ops, op.RedUnfunded) :
    (Runs.run (step letterOf) ops (.genesis total)).Sound :=
  Runs.run_inv World.Sound (fun _ _ hop hsound => (step_paths letterOf hsound hop).1)
    (Runs.along_of_forall_mem (fun op hop _ => hred op hop) _) (sound_genesis total)

/-! ### The storage of a reachable world -/

structure Placed (w : World) (day : WorldwideDay) : Prop where
  /-- A closed day holds no supply. -/
  supply : w.store.pendingSupplyPromis day ≠ 0 → (w.store.stage day).isTerminal = false
  /-- The gate lists the clearing days, each once. -/
  gate : w.store.gateActive.days.count day = if w.store.stage day = .clearing then 1 else 0
  /-- The schedule lists every open day exactly once. -/
  sched : w.store.stage day ≠ .none → (w.store.stage day).isTerminal = false →
    w.store.schedActive.days.count day = 1

theorem World.Sound.placed (h : w.Sound) (day : WorldwideDay) : Placed w day where
  supply := by
    intro hsupply
    by_contra hclosed
    exact hsupply ((h.days day).released (eq_true_of_not_eq_false hclosed)).1
  gate := by
    have hgate : w.store.gateActive.has day = true ↔ w.store.stage day = .clearing :=
      (h.days day).gate
    rw [ActiveSet.count_days h.wf.gate]
    simp only [hgate]
  sched := by
    intro hknown hopen
    have hlisted : w.store.schedActive.has day = true := ((h.days day).held hknown hopen).1
    rw [ActiveSet.count_days h.wf.sched, if_pos hlisted]

/-- The day is closed by the move from one world to the other. -/
def Closes (w w' : World) (day : WorldwideDay) : Prop :=
  (w.store.stage day).isTerminal = false ∧ (w'.store.stage day).isTerminal = true

/-- What one entry point does to a day. -/
structure Moves (w w' : World) (day : WorldwideDay) : Prop where
  stages : ReflTransGen AuctionStage.Edge (w.store.stage day) (w'.store.stage day)
  absorbing : (w.store.stage day).isTerminal = true → w'.store.stage day = w.store.stage day
  /-- PromisLimit is credited for the day at no other moment than its closing. -/
  uncredited : ¬ Closes w w' day → w'.creditsOf day = w.creditsOf day
  /-- At its closing the supply is split between what it issued and the credit, the whole of it
  going back on a cancellation. -/
  released : Closes w w' day → ∃ amount,
    w'.creditsOf day = w.creditsOf day ++ creditOf amount ∧
    w'.briefed day = w'.issued day * (w'.store.config day).promisLoadMinor + amount ∧
    (w'.store.stage day = .cancelled → amount = w'.briefed day)

theorem World.Sound.moves {day : WorldwideDay} (h : w.Sound) (h' : w'.Sound)
    (hpath : ReflTransGen Life.Step (w.life day) (w'.life day)) : Moves w w' day := by
  have hedges : ReflTransGen AuctionStage.Edge (w.store.stage day) (w'.store.stage day) :=
    Life.edges_of_path hpath
  refine ⟨hedges, fun hclosed => AuctionStage.eq_of_isTerminal hclosed hedges, fun hnot => ?_,
    fun ⟨hopen, hclosed⟩ => ?_⟩
  · by_cases hclosed : (w.store.stage day).isTerminal = true
    · exact Life.credits_eq_of_closed hclosed hpath
    · -- a day open before and after has no credit in either world
      have hopen := eq_false_of_not_eq_true hclosed
      have hopen' : (w'.store.stage day).isTerminal = false :=
        eq_false_of_not_eq_true fun hclosed' => hnot ⟨hopen, hclosed'⟩
      exact ((h'.days day).uncredited hopen').2.trans ((h.days day).uncredited hopen).2.symm
  · obtain ⟨-, amount, hcredits, hsplit⟩ := (h'.days day).released hclosed
    have hnone : w.creditsOf day = [] := ((h.days day).uncredited hopen).2
    refine ⟨amount, by rw [hnone]; exact hcredits, hsplit, fun hcancelled => ?_⟩
    have hissued := (h'.days day).unissued hcancelled
    rw [show w'.briefed day = _ from hsplit, hissued]
    simp

/-- In every run, whatever the router answers and however time passes, a day's supply is held while
the day is open and released once, when it closes. -/
theorem supply_released_once (total : Nat) (ops : List Op) (op : Op)
    (hred : ∀ o ∈ ops ++ [op], o.RedUnfunded) :
    let w := Runs.run (step letterOf) ops (.genesis total)
    let w' := step letterOf op w
    (∀ day, Placed w day ∧ Moves w w' day) ∧ (op.isOwn = true → Logged w w') := by
  intro w w'
  have hsound : w.Sound := sound_run letterOf fun o ho => hred o (List.mem_append_left _ ho)
  have hop : op.RedUnfunded := hred op (by simp)
  obtain ⟨hsound', hpaths⟩ := step_paths letterOf hsound hop
  exact ⟨fun day => ⟨hsound.placed day, hsound.moves hsound' (hpaths day)⟩,
    fun hown => (step_evolves letterOf hsound hop hown).logged⟩

section Example

def firstDay : WorldwideDay := 20260101

def midnight : Nat := 1767225600

/-- A router that answers everything, with one target chain. -/
def openRouter : Router where
  readParams := .ok ⟨21, 14, 7, 1, 1, 0⟩
  sendStageStart := fun _ _ _ _ _ _ _ => .ok ()
  sendStageClearing := fun _ => .ok ()
  targetsOf := fun _ => .ok [1]
  sendResults := fun _ _ _ _ _ => .ok ()

/-- A day with five units, of which one bid takes two, up to its clearing. -/
def auctionRun : List Op :=
  [.dispatchAuctionBrief firstDay 500000000000 [⟨840, 1000000⟩] true midnight .reject,
   .scheduleTick openRouter midnight, .scheduleTick openRouter (midnight + 86400),
   .processBidsBatch originRouterAddress firstDay 1 1 0 1 [⟨7#160, 500000, 0, 2, 840, 840⟩],
   .processBidsDone originRouterAddress firstDay 1 1 1 1,
   .scheduleTick openRouter (midnight + 172800)]

/-- The day closes at the gate, with three of its five units credited. -/
theorem supply_released_at_gate :
    let w := Runs.run (step some) auctionRun (.genesis 0)
    let w' := step some (.tickGate openRouter (midnight + 172800)) w
    Closes w w' firstDay ∧ Placed w firstDay ∧ Moves w w' firstDay ∧
      w'.creditsOf firstDay = [300000000000] := by
  have hplaced := (supply_released_once some 0 auctionRun
    (.tickGate openRouter (midnight + 172800)) (by simp [auctionRun, Op.RedUnfunded])).1 firstDay
  refine ⟨?_, hplaced.1, hplaced.2, ?_⟩
  · exact ⟨by decide +kernel, by decide +kernel⟩
  · decide +kernel

end Example

end Rudis.Desis
