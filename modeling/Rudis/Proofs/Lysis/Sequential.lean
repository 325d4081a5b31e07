import Rudis.Proofs.Lysis.Fractions

/-!
# `Rudis.Proofs.Lysis.Sequential`: what the sequential program computes

Whether a tribute can be issued does not depend on its ordinal (`Issuable`), and neither does the
action it is issued as (`actionOf`). A round of the output loop succeeds when the tribute is
issuable, its load is within the remainder and its owner's total does not overflow, and then it
moves the state to `ProgramExecution.advance` (`next_eq_ok`). `Opened` is what the input has to meet
before the first round; a program that opens fails as its output loop does
(`execute_eq_error_of_loop`).
-/

namespace Rudis.Lysis

open List
open Runs
open SortedMap

/-! ### One tribute -/

def leagueOf (o : ObservedTribute) : Nat := o.firstLeague.getD 0

def loadOf (fractions : SortedMap Nat Nat) (o : ObservedTribute) : Nat :=
  o.tribute.nominalAmountMinor * fractionOf fractions (leagueOf o) / scale

def priceOf (mandatory : Nat) (o : ObservedTribute) : Nat :=
  if o.tribute.referenceCurrency = 840 then mandatory else o.conditionalEntryPriceMinor.getD 0

def floorOf (mandatory : Nat) (o : ObservedTribute) : Nat :=
  calcFloorPrice (max o.tribute.tributePriceMinor (priceOf mandatory o))

/-- The cost of a tribute's load. -/
def costOf (mandatory : Nat) (fractions : SortedMap Nat Nat) (o : ObservedTribute) : Nat :=
  priceOf mandatory o * loadOf fractions o / scale

/-- The action a tribute is issued as, under the Nod id derived for it. -/
def actionOf (h : Hashing) (mandatory time : Nat) (fractions : SortedMap Nat Nat)
    (o : ObservedTribute) (nodId : B256) : NodAction where
  sourceTributeId := o.tribute.tributeId
  nodId := nodId
  owner := o.tribute.owner
  worldwideDay := o.tribute.worldwideDay
  leagueId := leagueOf o
  floorPriceMinor := floorOf mandatory o
  gratisLoadMinor := loadOf fractions o
  entryPriceMinor := priceOf mandatory o
  costAmountMinor := costOf mandatory fractions o
  issuanceCurrency := o.tribute.issuanceCurrency
  referenceCurrency := o.tribute.referenceCurrency
  bucketKey := h.bucketKey o.tribute.worldwideDay (floorOf mandatory o) o.tribute.referenceCurrency
  issuedAt := time

/-- The Nod id of a tribute, where one can be derived. -/
def nodIdOf (h : Hashing) (o : ObservedTribute) : B256 :=
  match deriveEntityId h o.tribute.owner o.tribute.worldwideDay with
  | .ok id => id
  | .error _ => 0

/-- Every check at a tribute's ordinal passes, the remainder and the contributors apart. -/
structure Issuable (h : Hashing) (mandatory : Nat) (fractions : SortedMap Nat Nat)
    (o : ObservedTribute) : Prop where
  load_fits : o.tribute.nominalAmountMinor * fractionOf fractions (leagueOf o) < 2 ^ 256
  load_ne_zero : loadOf fractions o ≠ 0
  price_known : o.tribute.referenceCurrency = 840 ∨ o.conditionalEntryPriceMinor ≠ none
  price_ne_zero : priceOf mandatory o ≠ 0
  second_league : o.secondLeague = some (leagueOf o)
  cost_fits : priceOf mandatory o * loadOf fractions o < 2 ^ 256
  cost_ne_zero : costOf mandatory fractions o ≠ 0
  nodId : deriveEntityId h o.tribute.owner o.tribute.worldwideDay = .ok (nodIdOf h o)
  target : o.nodTargetAvailable = true
  owner_ne_zero : o.tribute.owner ≠ 0

theorem calculateGratisLoad_eq_ok {nominal fraction ordinal load : Nat} :
    calculateGratisLoad nominal fraction ordinal = .ok load ↔
      nominal * fraction < 2 ^ 256 ∧ nominal * fraction / scale ≠ 0
        ∧ load = nominal * fraction / scale := by
  have hscale : scale ≠ 0 := by decide
  simp only [calculateGratisLoad, laws, scaledFloor_eq_ok, Tx.exists_unit, and_assoc, ↓existsAndEq,
    hscale, ne_eq, not_false_eq_true, true_and]

/-- The two differ in the error for zero only. -/
theorem calculateCost_eq_ok {price load ordinal cost : Nat} :
    calculateCost price load ordinal = .ok cost ↔
      price * load < 2 ^ 256 ∧ price * load / scale ≠ 0 ∧ cost = price * load / scale := by
  rw [← @calculateGratisLoad_eq_ok price load ordinal]
  simp only [calculateCost, calculateGratisLoad, laws]

theorem validateRequiredGratis_eq_ok {remaining load ordinal rest : Nat} :
    validateRequiredGratis remaining load ordinal = .ok rest ↔
      load ≠ 0 ∧ load ≤ remaining ∧ rest = remaining - load := by
  simp only [validateRequiredGratis, laws, not_lt, Tx.exists_unit]

variable {o : ObservedTribute}

theorem entryPriceOf_eq_ok {mandatory ordinal price : Nat} :
    entryPriceOf mandatory o ordinal = .ok price ↔
      (o.tribute.referenceCurrency = 840 ∨ o.conditionalEntryPriceMinor ≠ none)
        ∧ price = priceOf mandatory o := by
  unfold entryPriceOf priceOf
  split
  · rename_i h
    simp [h]
  · rename_i h
    cases o.conditionalEntryPriceMinor <;> simp [h, okOr, eq_comm]

/-! ### Contributors -/

/-- The owner's total can take a tribute. -/
def ContributorFits (o : ObservedTribute) (contributors : SortedMap Address Nat) : Prop :=
  o.tribute.excludeFromIntexIssuance = true
    ∨ (contributors.find? o.tribute.owner).getD 0 + o.tribute.nominalAmountMinor < 2 ^ 256

/-- The totals with a tribute counted. -/
def addContribution (o : ObservedTribute) (contributors : SortedMap Address Nat) :
    SortedMap Address Nat :=
  if o.tribute.excludeFromIntexIssuance then contributors
  else contributors.add o.tribute.owner o.tribute.nominalAmountMinor

theorem addContributor_eq_ok {contributors contributors' : SortedMap Address Nat} {ordinal : Nat} :
    addContributor contributors o.tribute ordinal = .ok contributors' ↔
      ContributorFits o contributors ∧ contributors' = addContribution o contributors := by
  unfold addContributor ContributorFits addContribution
  split
  · rename_i h
    simp [h]
  · rename_i h
    simp only [laws, checkedAdd_eq_some, h, Bool.false_eq_true, false_or]
    constructor
    · rintro ⟨total, ⟨hfit, rfl⟩, rfl⟩
      exact ⟨hfit, rfl⟩
    · rintro ⟨hfit, rfl⟩
      exact ⟨_, ⟨hfit, rfl⟩, rfl⟩

/-! ### One round -/

def observationsOf (mandatory ordinal : Nat) (o : ObservedTribute) : List SemanticObservation :=
  (if o.tribute.referenceCurrency ≠ 840 then
      [.oracle (some ordinal) o.tribute.referenceCurrency (priceOf mandatory o)]
    else [])
  ++ [.fidelity ordinal .second o.tribute.owner (leagueOf o)]

/-- The state after a tribute was issued. -/
def ProgramExecution.advance (h : Hashing) (mandatory : Nat) (o : ObservedTribute)
    (e : ProgramExecution) : ProgramExecution :=
  { e with
    nextOrdinal := e.nextOrdinal + 1
    remaining := e.remaining - loadOf e.prepared.fractions o
    nodActions := e.nodActions ++ [actionOf h mandatory e.prepared.logicalEvaluationTime
      e.prepared.fractions o (nodIdOf h o)]
    contributors := addContribution o e.contributors
    observations := e.observations ++ observationsOf mandatory e.nextOrdinal o }

/-- A round on the tribute succeeds. -/
def Admits (h : Hashing) (mandatory : Nat) (o : ObservedTribute) (e : ProgramExecution) : Prop :=
  Issuable h mandatory e.prepared.fractions o ∧ loadOf e.prepared.fractions o ≤ e.remaining
    ∧ ContributorFits o e.contributors

/-- The tributes still to be issued are the given ones. -/
structure Aligned (mandatory : Nat) (l : List ObservedTribute) (e : ProgramExecution) : Prop where
  tributes : e.prepared.tributes.drop e.nextOrdinal = l.map (·.tribute)
  leagues : e.prepared.firstLeagues.drop e.nextOrdinal = l.map leagueOf
  price : e.mandatoryEntryPrice840 = mandatory

variable {l : List ObservedTribute} {mandatory : Nat} {h : Hashing} {e : ProgramExecution}

theorem Aligned.advance (ha : Aligned mandatory (o :: l) e) :
    Aligned mandatory l (e.advance h mandatory o) where
  tributes := by
    show e.prepared.tributes.drop (e.nextOrdinal + 1) = _
    rw [← tail_drop, ha.tributes]
    rfl
  leagues := by
    show e.prepared.firstLeagues.drop (e.nextOrdinal + 1) = _
    rw [← tail_drop, ha.leagues]
    rfl
  price := ha.price

theorem Aligned.tribute (ha : Aligned mandatory (o :: l) e) :
    e.prepared.tributes[e.nextOrdinal]? = some o.tribute := by
  have h := head?_drop (l := e.prepared.tributes) (i := e.nextOrdinal)
  rw [ha.tributes] at h
  exact h.symm

theorem Aligned.league (ha : Aligned mandatory (o :: l) e) :
    e.prepared.firstLeagues.getD e.nextOrdinal 0 = leagueOf o := by
  have h := head?_drop (l := e.prepared.firstLeagues) (i := e.nextOrdinal)
  rw [ha.leagues] at h
  rw [getD_eq_getElem?_getD, ← h]
  rfl

/-- A quote succeeds on an issuable load within the remainder. -/
theorem quoteNext_eq_ok (ha : Aligned mandatory (o :: l) e) {pending : PendingNod} :
    e.quoteNext = .ok pending ↔
      (o.tribute.nominalAmountMinor * fractionOf e.prepared.fractions (leagueOf o) < 2 ^ 256
        ∧ loadOf e.prepared.fractions o ≠ 0 ∧ loadOf e.prepared.fractions o ≤ e.remaining)
      ∧ pending = ⟨e.nextOrdinal, loadOf e.prepared.fractions o,
          e.remaining - loadOf e.prepared.fractions o⟩ := by
  simp only [ProgramExecution.quoteNext, laws, ha.tribute, ha.league,
    calculateGratisLoad_eq_ok, validateRequiredGratis_eq_ok, Option.some.injEq, and_assoc,
    ↓existsAndEq, true_and, and_self_left]
  rfl

/-- A commit succeeds when the checks behind the quote pass. -/
theorem commitNext_eq_ok {e e' : ProgramExecution} (ha : Aligned mandatory (o :: l) e)
    (hprice : priceOf mandatory o ≠ 0) {second : Nat} :
    e.commitNext h ⟨e.nextOrdinal, loadOf e.prepared.fractions o,
        e.remaining - loadOf e.prepared.fractions o⟩ (priceOf mandatory o) second
        o.nodTargetAvailable = .ok e' ↔
      (leagueOf o = second ∧ priceOf mandatory o * loadOf e.prepared.fractions o < 2 ^ 256
        ∧ costOf mandatory e.prepared.fractions o ≠ 0
        ∧ deriveEntityId h o.tribute.owner o.tribute.worldwideDay = .ok (nodIdOf h o)
        ∧ o.nodTargetAvailable = true ∧ o.tribute.owner ≠ 0 ∧ ContributorFits o e.contributors)
      ∧ e' = e.advance h mandatory o := by
  have hreused : ¬ (o.tribute.referenceCurrency = 840
      ∧ priceOf mandatory o ≠ e.mandatoryEntryPrice840) := by
    rintro ⟨hcur, hne⟩
    exact hne ((if_pos hcur).trans ha.price.symm)
  simp only [ProgramExecution.commitNext, laws, ha.tribute, ha.league, validateEntryPrice,
    calculateCost_eq_ok, addContributor_eq_ok, Option.some.injEq, exists_eq_left', not_or, not_not,
    Bool.not_eq_false]
  constructor
  · rintro ⟨-, -, -, -, -, -, -, rfl, _, ⟨hfit, hne, rfl⟩, id, hid, -, ⟨htarget, howner⟩,
      _, ⟨hcontrib, rfl⟩, rfl⟩
    have hnod : nodIdOf h o = id := by
      rw [nodIdOf, hid]
    refine ⟨⟨rfl, hfit, hne, hnod ▸ hid, htarget, howner, hcontrib⟩, ?_⟩
    simp only [ProgramExecution.advance, actionOf, observationsOf, hnod, costOf, floorOf,
      append_assoc]
  · rintro ⟨⟨rfl, hfit, hne, hid, htarget, howner, hcontrib⟩, rfl⟩
    refine ⟨(), trivial, (), hprice, (), hreused, (), rfl, _, ⟨hfit, hne, rfl⟩, _, hid, (),
      ⟨htarget, howner⟩, _, ⟨hcontrib, rfl⟩, ?_⟩
    simp only [ProgramExecution.advance, actionOf, observationsOf, costOf, floorOf, append_assoc]

/-- A round succeeds exactly when the state admits the tribute, and then advances over it. -/
theorem next_eq_ok {e e' : ProgramExecution} (ha : Aligned mandatory (o :: l) e) :
    e.next h mandatory o = .ok e' ↔ Admits h mandatory o e ∧ e' = e.advance h mandatory o := by
  simp only [ProgramExecution.next, laws, quoteNext_eq_ok ha, entryPriceOf_eq_ok,
    validateEntryPrice]
  constructor
  · rintro ⟨_, ⟨⟨hfit, hne, hle⟩, rfl⟩, _, ⟨hknown, rfl⟩, -, hprice, second, hsecond, hcommit⟩
    obtain ⟨⟨rfl, hcost, hcostne, hid, htarget, howner, hcontrib⟩, rfl⟩ :=
      (commitNext_eq_ok ha hprice).mp hcommit
    exact ⟨⟨⟨hfit, hne, hknown, hprice, hsecond, hcost, hcostne, hid, htarget, howner⟩, hle,
      hcontrib⟩, rfl⟩
  · rintro ⟨⟨hi, hle, hcontrib⟩, rfl⟩
    refine ⟨_, ⟨⟨hi.load_fits, hi.load_ne_zero, hle⟩, rfl⟩, _, ⟨hi.price_known, rfl⟩, (),
      hi.price_ne_zero, _, hi.second_league, ?_⟩
    exact (commitNext_eq_ok ha hi.price_ne_zero).mpr
      ⟨⟨rfl, hi.cost_fits, hi.cost_ne_zero, hi.nodId, hi.target, hi.owner_ne_zero, hcontrib⟩, rfl⟩

/-! ### The whole program -/

def nominalsOf (l : List ObservedTribute) : List Nat := l.map (·.tribute.nominalAmountMinor)

theorem checkedNominalStep_eq_ok {total nominal ordinal total' : Nat} :
    checkedNominalStep total nominal ordinal = .ok total' ↔
      total + nominal < 2 ^ 256 ∧ total' = total + nominal := by
  rw [checkedNominalStep, okOr_eq_ok, checkedAdd_eq_some]

/-- The first pass succeeds when every league is known and the total fits. -/
theorem firstPass_eq_ok {x : List Nat × Nat} :
    firstPass l = .ok x ↔
      ((∀ o ∈ l, o.firstLeague ≠ none) ∧ (nominalsOf l).sum < 2 ^ 256)
        ∧ x = (l.map leagueOf, (nominalsOf l).sum) := by
  have hfold : ∀ (l : List ObservedTribute) (k : Nat) (leagues : List Nat) (total : Nat)
      (x : List Nat × Nat), total < 2 ^ 256 →
      ((l.zipIdx k).foldlM firstPassStep (leagues, total) = .ok x ↔
      ((∀ o ∈ l, o.firstLeague ≠ none) ∧ total + (nominalsOf l).sum < 2 ^ 256)
        ∧ x = (leagues ++ l.map leagueOf, total + (nominalsOf l).sum)) := by
    intro l
    induction l with
    | nil =>
      intro k leagues total x hlt
      have hnil : total + (nominalsOf []).sum < 2 ^ 256 := hlt
      rw [and_iff_right ⟨fun o ho => absurd ho not_mem_nil, hnil⟩]
      simp [nominalsOf]
    | cons o l ih =>
      intro k leagues total x hlt
      simp only [zipIdx_cons, foldlM_cons, firstPassStep, laws,
        checkedNominalStep_eq_ok, forall_mem_cons]
      have hsum : (nominalsOf (o :: l)).sum = o.tribute.nominalAmountMinor + (nominalsOf l).sum :=
        sum_cons
      rw [hsum]
      constructor
      · rintro ⟨_, ⟨league, hleague, _, ⟨hfit, rfl⟩, rfl⟩, hrest⟩
        obtain ⟨⟨hall, hlt'⟩, rfl⟩ := (ih _ _ _ _ hfit).mp hrest
        refine ⟨⟨⟨by simp [hleague], hall⟩, by omega⟩, ?_⟩
        rw [map_cons, append_assoc, add_assoc, leagueOf, hleague]
        rfl
      · rintro ⟨⟨⟨hsome, hall⟩, hlt'⟩, rfl⟩
        obtain ⟨league, hleague⟩ := Option.ne_none_iff_exists'.mp hsome
        have hfit : total + o.tribute.nominalAmountMinor < 2 ^ 256 := by omega
        refine ⟨_, ⟨league, hleague, _, ⟨hfit, rfl⟩, rfl⟩, (ih _ _ _ _ hfit).mpr
          ⟨⟨hall, by omega⟩, ?_⟩⟩
        rw [map_cons, append_assoc, add_assoc, leagueOf, hleague]
        rfl
  have h := hfold l 0 [] 0 x (by decide)
  rwa [zero_add, nil_append] at h

/-- The total of the second pass is the total of the first. -/
theorem totalNominal_eq_ok {tributes : List TributeInput} {total : Nat} :
    tributes.zipIdx.foldlM (fun total item =>
        checkedNominalStep total item.1.nominalAmountMinor item.2) 0 = .ok total ↔
      (tributes.map (·.nominalAmountMinor)).sum < 2 ^ 256
        ∧ total = (tributes.map (·.nominalAmountMinor)).sum := by
  have hmap : tributes.zipIdx.map (fun item => item.1.nominalAmountMinor) =
      tributes.map (·.nominalAmountMinor) := by
    nth_rewrite 2 [← zipIdx_map_fst 0 tributes]
    rw [map_map]
    rfl
  have hfold := foldlM_checkedAdd (s := total)
    (fun item : TributeInput × Nat => item.1.nominalAmountMinor)
    (fun item => ProgramError.totalNominalOverflow item.2) tributes.zipIdx
    (show 0 < 2 ^ 256 by decide)
  rwa [hmap, zero_add] at hfold

/-- The prepared program of a canonical list. -/
def preparedOf (input : ProgramInput) (fractions : SortedMap Nat Nat) : PreparedProgram :=
  let l := sortById input.tributes
  { tributes := l.map (·.tribute)
    firstLeagues := l.map leagueOf
    fractions := fractions
    totalNominal := (nominalsOf l).sum
    gratisAllocation := input.gratisAllocation
    logicalEvaluationTime := input.logicalEvaluationTime
    observations := ((l.map (·.tribute)).zip (l.map leagueOf)).zipIdx.map
      fun item => .fidelity item.2 .first item.1.1.owner item.1.2 }

/-- The state before the first round. -/
def startOf (input : ProgramInput) (fractions : SortedMap Nat Nat) (mandatory : Nat) :
    ProgramExecution :=
  { prepared := preparedOf input fractions
    mandatoryEntryPrice840 := mandatory
    nextOrdinal := 0
    remaining := input.gratisAllocation
    nodActions := []
    contributors := SortedMap.empty
    observations := (preparedOf input fractions).observations ++ [.oracle none 840 mandatory] }

theorem aligned_startOf (input : ProgramInput) (fractions : SortedMap Nat Nat) (mandatory : Nat) :
    Aligned mandatory (sortById input.tributes) (startOf input fractions mandatory) :=
  ⟨drop_zero, drop_zero, rfl⟩

/-- What the input has to meet before the first round. -/
structure Opened (h : Hashing) (input : ProgramInput) (fractions : SortedMap Nat Nat)
    (mandatory : Nat) : Prop where
  ne_nil : sortById input.tributes ≠ []
  canonical : validateCanonicalTributes h input.worldwideDay
    ((sortById input.tributes).map (·.tribute)) = .ok ()
  leagues : ∀ o ∈ sortById input.tributes, o.firstLeague ≠ none
  total_fits : (nominalsOf (sortById input.tributes)).sum < 2 ^ 256
  total_ne_zero : (nominalsOf (sortById input.tributes)).sum ≠ 0
  fractions : computeFractionMap (nominalsOf (sortById input.tributes))
    ((sortById input.tributes).map leagueOf) (nominalsOf (sortById input.tributes)).sum
    input.gratisAllocation = .ok fractions
  price : input.mandatoryEntryPrice840 = some mandatory
  price_ne_zero : mandatory ≠ 0

theorem nominals_map (l : List ObservedTribute) :
    (l.map (·.tribute)).map (·.nominalAmountMinor) = nominalsOf l := by
  rw [map_map]
  rfl

variable {input : ProgramInput}

theorem prepare_eq_ok {prepared : PreparedProgram} :
    prepare h input.worldwideDay ((sortById input.tributes).map (·.tribute))
        ((sortById input.tributes).map leagueOf) input.gratisAllocation
        input.logicalEvaluationTime = .ok prepared ↔
      ∃ fractions, (sortById input.tributes ≠ [] ∧ validateCanonicalTributes h input.worldwideDay
            ((sortById input.tributes).map (·.tribute)) = .ok ()
        ∧ (nominalsOf (sortById input.tributes)).sum < 2 ^ 256
        ∧ (nominalsOf (sortById input.tributes)).sum ≠ 0
        ∧ computeFractionMap (nominalsOf (sortById input.tributes))
            ((sortById input.tributes).map leagueOf) (nominalsOf (sortById input.tributes)).sum
            input.gratisAllocation = .ok fractions)
        ∧ prepared = preparedOf input fractions := by
  simp only [prepare, laws, totalNominal_eq_ok, nominals_map, length_map, List.isEmpty_iff,
    map_eq_nil_iff, Tx.exists_unit, and_assoc, ↓existsAndEq, exists_and_left, ne_eq, not_true_eq_false,
    not_false_eq_true, true_and]
  rfl

/-- A program that opens fails as its output loop does. -/
theorem execute_eq_error_of_loop {fractions : SortedMap Nat Nat} {error : ProgramError}
    (ho : Opened h input fractions mandatory)
    (hloop : (sortById input.tributes).foldlM (ProgramExecution.next h mandatory)
      (startOf input fractions mandatory) = .error error) : execute h input = .error error := by
  have hstart : (preparedOf input fractions).start mandatory
      = .ok (startOf input fractions mandatory) := by
    simp only [PreparedProgram.start, validateEntryPrice, laws]
    exact ⟨(), ho.price_ne_zero, rfl⟩
  have hne : ¬ ((sortById input.tributes).map (·.tribute)).isEmpty = true := by
    simpa using ho.ne_nil
  refine bind_eq_error.mpr (.inr ⟨(), throwIf_eq_ok.mpr hne, ?_⟩)
  refine bind_eq_error.mpr (.inr ⟨(), ho.canonical, ?_⟩)
  refine bind_eq_error.mpr (.inr ⟨_, firstPass_eq_ok.mpr ⟨⟨ho.leagues, ho.total_fits⟩, rfl⟩, ?_⟩)
  refine bind_eq_error.mpr (.inr ⟨(), throwIf_eq_ok.mpr ho.total_ne_zero, ?_⟩)
  refine bind_eq_error.mpr (.inr ⟨_, prepare_eq_ok.mpr ⟨fractions,
    ⟨ho.ne_nil, ho.canonical, ho.total_fits, ho.total_ne_zero, ho.fractions⟩, rfl⟩, ?_⟩)
  refine bind_eq_error.mpr (.inr ⟨_, okOr_eq_ok.mpr ho.price, ?_⟩)
  refine bind_eq_error.mpr (.inr ⟨_, hstart, ?_⟩)
  exact bind_eq_error.mpr (.inl hloop)

end Rudis.Lysis
