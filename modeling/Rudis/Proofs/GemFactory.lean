import Mathlib.Data.Nat.Pairing
import Rudis.Proofs.IntexFactory.Units
import Rudis.Spec.GemFactory

/-!
# `Rudis.Proofs.GemFactory`: two issuances in one block

The id of a position is the hash of its source series and the block number, the id of a gem the hash
of its owner, its load and the block number. So the second of two issuances in one block finds its
id taken if it parks units of the same series, or issues the same load to the same customer.
`sameBlock_iff` says that nothing else stands between two calls that each succeed alone, once the
balances and capacities cover both.
-/

namespace Rudis.GemFactory

open Tx Nat Option
open Function (Injective2)
open Intex (SeriesId SeriesRecord)
open IntexFactory.Units (World GemPosition NftSeries Parkable ok_parkIntex)

/-! ### Positions -/

section Positions
variable {generatePositionId : SeriesId → Nat → Nat} {env : IssueEnv} {caller caller' : Address}
  {series series' : SeriesId} {amount amount' id : Nat} {s s' : State} {w : World}
  {record : SeriesRecord} {data : NftSeries}

/-- The world after units of a series have been parked. -/
def parked (generatePositionId : SeriesId → Nat → Nat) (env : IssueEnv) (caller : Address)
    (series : SeriesId) (amount : Nat) (record : SeriesRecord) (w : World) : World :=
  { w with
    registry := w.registry.realize series amount .parked
    nft :=
      { w.nft with
        balanceOf := update w.nft.balanceOf series
          (update (w.nft.balanceOf series) caller (w.nft.balanceOf series caller - amount)) }
    positions := update w.positions (generatePositionId series env.blockNumber)
      (some
        { merchant := caller
          sourceIntexId := series
          remainingCapacity := record.promisLoadMinor * amount
          sourceEntryPrice := record.entryPriceMinor
          sourceFloorPrice := record.floorPriceMinor
          issuanceCurrency := record.issuanceCurrency
          referenceCurrency := record.referenceCurrency
          parkedAt := env.timestamp
          expiresAt := saturatingAdd 64 env.timestamp w.positionValidity })
    totalIntexParked := w.totalIntexParked + record.promisLoadMinor * amount }

theorem issueGemPosition_ok :
    Ok (issueGemPosition generatePositionId env caller series amount) s id s' ↔
      ∃ record data,
        Parkable generatePositionId caller series amount env.blockNumber s.world record data ∧
        id = generatePositionId series env.blockNumber ∧
        s' =
          { s with world := parked generatePositionId env caller series amount record s.world } := by
  simp only [issueGemPosition, IntexFactory.Units.issueGemPosition, rules, okOr_eq_ok,
    checkedMul_eq_some, checkedAdd_eq_some, IntexFactory.Units.onNft,
    IntexFactory.Units.onSeries, ok_zoom, ok_parkIntex, Intex.recordParkedUnits,
    Intex.ok_addRealizedUnits, ↓existsAndEq, not_le, id_eq, Bool.not_eq_true,
    isSome_eq_false_iff, isNone_iff_eq_none]
  constructor
  · rintro ⟨hcaller, record, known, hcurrency, -, hamount, ⟨data, hdata, hstate⟩, hbalance,
      hcapacity, -, _, ⟨hzero, -⟩ | ⟨-, hword, hroom, rfl⟩, hfresh, htotal, rfl, rfl⟩
    · exact absurd hzero hamount
    · rw [known, elim_some] at hroom
      exact ⟨record, data, ⟨hcaller, hamount, known, hcurrency, hdata, hstate, hbalance, hcapacity,
        hword, hroom, hfresh, htotal⟩, rfl, rfl⟩
  · rintro ⟨record, data, h, rfl, rfl⟩
    have hword := h.word
    have hroom : s.world.registry.realized series + amount ≤
        (s.world.registry.series series).elim 0 (·.issuedIntexCount) := by
      rw [h.known]
      exact h.room
    exact ⟨h.caller_ne, record, h.known, h.currency, h.caller_ne, h.amount_ne,
      ⟨data, h.listed, h.shown⟩, h.balance, h.capacity, by omega, _,
      .inr ⟨h.amount_ne, h.word, hroom, rfl⟩, h.fresh, h.total, rfl, rfl⟩

/-- Parking units of one series leaves another series parkable, as long as the total fits. -/
theorem Parkable.parked_of_ne (caller : Address) {record' : SeriesRecord} {data' : NftSeries}
    (hid : generatePositionId series env.blockNumber ≠ generatePositionId series' env.blockNumber)
    (hseries : series' ≠ series)
    (h : Parkable generatePositionId caller' series' amount' env.blockNumber w record' data')
    (htotal : w.totalIntexParked + record.promisLoadMinor * amount +
      record'.promisLoadMinor * amount' < 2 ^ 256) :
    Parkable generatePositionId caller' series' amount' env.blockNumber
      (parked generatePositionId env caller series amount record w) record' data' where
  caller_ne := h.caller_ne
  amount_ne := h.amount_ne
  known := h.known
  currency := h.currency
  listed := h.listed
  shown := h.shown
  balance := by
    show amount' ≤ update w.nft.balanceOf series _ series' caller'
    rw [update_of_ne hseries]
    exact h.balance
  capacity := h.capacity
  word := by
    have hword := h.word
    simpa [parked, Intex.SeriesStore.realized, Intex.SeriesStore.realize, hseries] using hword
  room := by
    have hroom := h.room
    simpa [parked, Intex.SeriesStore.realized, Intex.SeriesStore.realize, hseries] using hroom
  fresh := by
    show update w.positions _ _ (generatePositionId series' env.blockNumber) = none
    rw [update_of_ne (Ne.symm hid)]
    exact h.fresh
  total := htotal

end Positions

/-! ### Merchant gems -/

section Gems
variable {generateGemId : Address → Nat → Nat → Nat} {env : IssueEnv} {caller caller' : Address}
  {positionId positionId' : Nat} {owner owner' : Address} {load load' id : Nat} {s s' : State}

/-- A merchant can issue a gem of this load from the position. -/
structure Issuable (generateGemId : Address → Nat → Nat → Nat) (env : IssueEnv) (caller : Address)
    (positionId : Nat) (owner : Address) (load : Nat) (s : State) (record : GemPosition)
    (prices : GemPrices) : Prop where
  owner_ne : owner ≠ 0
  load_ne : load ≠ 0
  known : s.world.positions positionId = some record
  merchant : record.merchant = caller
  live : env.timestamp < record.expiresAt
  capacity : load ≤ record.remainingCapacity
  priced : merchantPrices env record load = .ok prices
  binned : ∃ floorBin, Gem.priceToBin prices.floor = .ok floorBin
  fresh : s.gem.gemItems (generateGemId owner load env.blockNumber) = none
  total : s.totalGemsIssued + 1 < 2 ^ 256

/-- The gem store after a new `Issued` gem has been entered. -/
def added (gemId floorBin : Nat) (item : Gem.GemData) (g : Gem.Store) : Gem.Store :=
  { g with
    totalSupply := wrappingAdd 64 g.totalSupply 1
    gemItems := update g.gemItems gemId (some item)
    ownerGemCounts :=
      update g.ownerGemCounts item.owner (wrappingAdd 32 (g.ownerGemCounts item.owner) 1)
    ownerGemIds := update g.ownerGemIds item.owner
      (update (g.ownerGemIds item.owner) (g.ownerGemCounts item.owner) gemId)
    allGemIds := g.allGemIds ++ [gemId]
    gemIndex := update g.gemIndex gemId (g.allGemIds.length % 2 ^ 32)
    unqualified := update g.unqualified item.referenceCurrency
      ((g.unqualified item.referenceCurrency).insert floorBin gemId)
    maxCallWindow := update g.maxCallWindow item.referenceCurrency
      (max (g.maxCallWindow item.referenceCurrency) item.callWindow) }

theorem addGem_ok {terms : Gem.GemParams} {blockNumber gemId : Nat} {params : Gem.GemAddParams}
    {g g' : Gem.Store} (hstate : params.initialState = .issued) :
    Ok (Gem.addGem generateGemId terms blockNumber params) g gemId g' ↔
      params.owner ≠ 0 ∧ gemId = generateGemId params.owner params.promisLoadMinor blockNumber ∧
        g.gemItems gemId = none ∧ ∃ floorBin, Gem.priceToBin params.floorPriceMinor = .ok floorBin ∧
          g' = added gemId floorBin (params.item terms) g := by
  have hissued : (params.item terms).state = .issued := hstate
  have hqualified : ¬(params.item terms).state = .qualified := by
    rw [hissued]
    decide
  simp only [Gem.addGem, Gem.addGemItem, Gem.insertUnqualified, when, if_pos hissued,
    if_neg hqualified, rules, ↓existsAndEq, Bool.not_eq_true, isSome_eq_false_iff,
    isNone_iff_eq_none]
  constructor
  · rintro ⟨howner, hfresh, floorBin, hbin, rfl, rfl⟩
    exact ⟨howner, rfl, hfresh, floorBin, hbin, rfl⟩
  · rintro ⟨howner, rfl, hfresh, floorBin, hbin, rfl⟩
    exact ⟨howner, hfresh, floorBin, hbin, rfl, rfl⟩

/-- What an issuance does to the position, the gem records and the counter. -/
structure Issued (generateGemId : Address → Nat → Nat → Nat) (env : IssueEnv) (positionId : Nat)
    (owner : Address) (load : Nat) (record : GemPosition) (s s' : State) : Prop where
  positions : s'.world.positions = update s.world.positions positionId
    (some { record with remainingCapacity := record.remainingCapacity - load })
  gems : ∃ item : Gem.GemData, item.promisLoadMinor = load ∧
    s'.gem.gemItems = update s.gem.gemItems (generateGemId owner load env.blockNumber) (some item)
  total : s'.totalGemsIssued = s.totalGemsIssued + 1

theorem issuable_of_ok
    (h : Ok (issueMerchantGem generateGemId env caller positionId owner load) s id s') :
    ∃ record prices,
      Issuable generateGemId env caller positionId owner load s record prices ∧
      id = generateGemId owner load env.blockNumber ∧
      Issued generateGemId env positionId owner load record s s' := by
  simp only [issueMerchantGem, onGem, rules, okOr_eq_ok, ok_zoom, addGem_ok, checkedSub_eq_some,
    checkedAdd_eq_some, ↓existsAndEq, not_le] at h
  obtain ⟨howner, hload, record, known, hmerchant, hlive, hcapacity, prices, hpriced, -, hfresh,
    floorBin, hbin, htotal, rfl, rfl⟩ := h
  exact ⟨record, prices, ⟨howner, hload, known, hmerchant, hlive, hcapacity, hpriced,
    ⟨floorBin, hbin⟩, hfresh, htotal⟩, rfl, ⟨rfl, ⟨_, rfl, rfl⟩, rfl⟩⟩

/-- What can be issued is issued. -/
theorem Issuable.ok {record : GemPosition} {prices : GemPrices}
    (h : Issuable generateGemId env caller positionId owner load s record prices) :
    ∃ s', Ok (issueMerchantGem generateGemId env caller positionId owner load) s
      (generateGemId owner load env.blockNumber) s' := by
  obtain ⟨floorBin, hbin⟩ := h.binned
  simp only [issueMerchantGem, onGem, rules, okOr_eq_ok, ok_zoom, addGem_ok, checkedSub_eq_some,
    checkedAdd_eq_some, ↓existsAndEq, not_le, and_true]
  exact ⟨h.owner_ne, h.load_ne, record, h.known, h.merchant, h.live, h.capacity, prices, h.priced,
    h.owner_ne, h.fresh, floorBin, hbin, h.total⟩

/-- An issuance leaves another one possible if its id is another and the capacities cover both. -/
theorem Issuable.of_issued {record record' : GemPosition} {prices' : GemPrices}
    (hid : generateGemId owner' load' env.blockNumber ≠ generateGemId owner load env.blockNumber)
    (h : Issuable generateGemId env caller' positionId' owner' load' s record' prices')
    (known : s.world.positions positionId = some record)
    (hissued : Issued generateGemId env positionId owner load record s s')
    (hcapacity : positionId = positionId' → load + load' ≤ record.remainingCapacity)
    (htotal : s.totalGemsIssued + 2 < 2 ^ 256) :
    ∃ record'',
      Issuable generateGemId env caller' positionId' owner' load' s' record'' prices' := by
  obtain ⟨item, -, hgems⟩ := hissued.gems
  have hfresh : s'.gem.gemItems (generateGemId owner' load' env.blockNumber) = none := by
    rw [hgems, update_of_ne hid]
    exact h.fresh
  have htotal' : s'.totalGemsIssued + 1 < 2 ^ 256 := by
    rw [hissued.total]
    omega
  by_cases hposition : positionId' = positionId
  · -- the same position, with the capacity the first gem left
    subst hposition
    obtain rfl : record' = record := Option.some.inj (h.known.symm.trans known)
    have hcover := hcapacity rfl
    refine ⟨{ record' with remainingCapacity := record'.remainingCapacity - load }, h.owner_ne,
      h.load_ne, ?_, h.merchant, h.live, ?_, h.priced, h.binned, hfresh, htotal'⟩
    · rw [hissued.positions, update_self]
    · show load' ≤ record'.remainingCapacity - load
      omega
  · refine ⟨record', h.owner_ne, h.load_ne, ?_, h.merchant, h.live, h.capacity, h.priced, h.binned,
      hfresh, htotal'⟩
    rw [hissued.positions, update_of_ne hposition]
    exact h.known

end Gems

/-! ### Two issuances in one block -/

/-- The second call succeeds after the first, under another id, and both have what they ask for. -/
def IssuesBoth (grant : State → Nat → Option Nat) (s : State) (first second : Call State Nat)
    (granted granted' : Nat) : Prop :=
  ∃ id id' s₁ s₂, Ok first s id s₁ ∧ Ok second s₁ id' s₂ ∧ id ≠ id' ∧
    grant s₂ id = some granted ∧ grant s₂ id' = some granted'

def capacityOf (s : State) (positionId : Nat) : Option Nat :=
  (s.world.positions positionId).map (·.remainingCapacity)

def loadOf (s : State) (gemId : Nat) : Option Nat := (s.gem.gemItems gemId).map (·.promisLoadMinor)

def loadOfUnits (s : State) (series : SeriesId) (amount : Nat) : Nat :=
  (s.world.registry.series series).elim 0 (·.promisLoadMinor) * amount

section Pairs
variable {generatePositionId : SeriesId → Nat → Nat} {generateGemId : Address → Nat → Nat → Nat}
  {env : IssueEnv} {s : State}

theorem loadOfUnits_eq {series : SeriesId} {record : SeriesRecord}
    (h : s.world.registry.series series = some record) (amount : Nat) :
    loadOfUnits s series amount = record.promisLoadMinor * amount := by
  rw [loadOfUnits, h, elim_some]

variable {caller caller' : Address}

/-- A second position of the same series is refused in the same block. -/
theorem not_issuesBoth_positions {series : SeriesId} {amount amount' granted granted' : Nat} :
    ¬IssuesBoth capacityOf s (issueGemPosition generatePositionId env caller series amount)
      (issueGemPosition generatePositionId env caller' series amount') granted granted' := by
  rintro ⟨id, id', s₁, s₂, hfirst, hsecond, hne, -, -⟩
  obtain ⟨_, _, -, rfl, -⟩ := issueGemPosition_ok.mp hfirst
  obtain ⟨_, _, -, rfl, -⟩ := issueGemPosition_ok.mp hsecond
  exact hne rfl

theorem issuesBoth_positions (hinj : Injective2 generatePositionId)
    {series series' : SeriesId} {amount amount' : Nat}
    {record record' : SeriesRecord} {data data' : NftSeries} (hseries : series' ≠ series)
    (h : Parkable generatePositionId caller series amount env.blockNumber s.world record data)
    (h' : Parkable generatePositionId caller' series' amount' env.blockNumber s.world record' data')
    (htotal : s.world.totalIntexParked + record.promisLoadMinor * amount +
      record'.promisLoadMinor * amount' < 2 ^ 256) :
    IssuesBoth capacityOf s (issueGemPosition generatePositionId env caller series amount)
      (issueGemPosition generatePositionId env caller' series' amount')
      (record.promisLoadMinor * amount) (record'.promisLoadMinor * amount') := by
  have hid : generatePositionId series env.blockNumber ≠
      generatePositionId series' env.blockNumber := fun heq => hseries (hinj heq).1.symm
  have hsecond := Parkable.parked_of_ne caller hid hseries h' htotal
  refine ⟨_, _, _, _, issueGemPosition_ok.mpr ⟨record, data, h, rfl, rfl⟩,
    issueGemPosition_ok.mpr ⟨record', data', hsecond, rfl, rfl⟩, hid, ?_, ?_⟩
  · simp [capacityOf, parked, hid]
  · simp [capacityOf, parked]

/-- A second gem of the same load for the same customer is refused in the same block. -/
theorem not_issuesBoth_gems {positionId positionId' : Nat}
    {owner : Address} {load granted granted' : Nat} :
    ¬IssuesBoth loadOf s (issueMerchantGem generateGemId env caller positionId owner load)
      (issueMerchantGem generateGemId env caller' positionId' owner load) granted granted' := by
  rintro ⟨id, id', s₁, s₂, hfirst, hsecond, hne, -, -⟩
  obtain ⟨_, _, -, rfl, -⟩ := issuable_of_ok hfirst
  obtain ⟨_, _, -, rfl, -⟩ := issuable_of_ok hsecond
  exact hne rfl

theorem issuesBoth_gems (hinj : ∀ n, Injective2 fun owner load => generateGemId owner load n)
    {positionId positionId' : Nat} {owner owner' : Address}
    {load load' : Nat} {record record' : GemPosition} {prices prices' : GemPrices}
    (hne : ¬(owner = owner' ∧ load = load'))
    (h : Issuable generateGemId env caller positionId owner load s record prices)
    (h' : Issuable generateGemId env caller' positionId' owner' load' s record' prices')
    (hcapacity : positionId = positionId' → load + load' ≤ record.remainingCapacity)
    (htotal : s.totalGemsIssued + 2 < 2 ^ 256) :
    IssuesBoth loadOf s (issueMerchantGem generateGemId env caller positionId owner load)
      (issueMerchantGem generateGemId env caller' positionId' owner' load') load load' := by
  have hid : generateGemId owner load env.blockNumber ≠
      generateGemId owner' load' env.blockNumber := fun heq => hne (hinj env.blockNumber heq)
  obtain ⟨s₁, hfirst⟩ := h.ok
  obtain ⟨r, _, hr, -, hissued⟩ := issuable_of_ok hfirst
  obtain rfl : r = record := Option.some.inj (hr.known.symm.trans h.known)
  obtain ⟨record'', h''⟩ := h'.of_issued (Ne.symm hid) h.known hissued hcapacity htotal
  obtain ⟨s₂, hsecond⟩ := h''.ok
  obtain ⟨_, _, -, -, hissued'⟩ := issuable_of_ok hsecond
  obtain ⟨item, hitem, hgems⟩ := hissued.gems
  obtain ⟨item', hitem', hgems'⟩ := hissued'.gems
  refine ⟨_, _, s₁, s₂, hfirst, hsecond, hid, ?_, ?_⟩
  · rw [loadOf, hgems', update_of_ne hid, hgems, update_self, map_some, hitem]
  · rw [loadOf, hgems', update_self, map_some, hitem']

end Pairs

/-- Two issuances in one block that each succeed alone, with balances and capacities for both, both
succeed in either order exactly if they park units of different series, or differ in the customer or
the load of the gem. -/
theorem sameBlock_iff {generatePositionId : SeriesId → Nat → Nat}
    {generateGemId : Address → Nat → Nat → Nat} (hposition : Injective2 generatePositionId)
    (hgem : ∀ n, Injective2 fun owner load => generateGemId owner load n) :
    (∀ (env : IssueEnv) (s s₁ s₂ : State) (caller caller' : Address) (series series' : SeriesId)
      (amount amount' id id' : Nat),
      Ok (issueGemPosition generatePositionId env caller series amount) s id s₁ →
      Ok (issueGemPosition generatePositionId env caller' series' amount') s id' s₂ →
      s.world.totalIntexParked + loadOfUnits s series amount + loadOfUnits s series' amount' <
        2 ^ 256 →
      (IssuesBoth capacityOf s (issueGemPosition generatePositionId env caller series amount)
          (issueGemPosition generatePositionId env caller' series' amount')
          (loadOfUnits s series amount) (loadOfUnits s series' amount') ∧
        IssuesBoth capacityOf s (issueGemPosition generatePositionId env caller' series' amount')
          (issueGemPosition generatePositionId env caller series amount)
          (loadOfUnits s series' amount') (loadOfUnits s series amount) ↔ series ≠ series')) ∧
    (∀ (env : IssueEnv) (s s₁ s₂ : State) (caller caller' : Address) (positionId positionId' : Nat)
      (owner owner' : Address) (load load' id id' : Nat),
      Ok (issueMerchantGem generateGemId env caller positionId owner load) s id s₁ →
      Ok (issueMerchantGem generateGemId env caller' positionId' owner' load') s id' s₂ →
      (positionId = positionId' → ∀ record, s.world.positions positionId = some record →
        load + load' ≤ record.remainingCapacity) → s.totalGemsIssued + 2 < 2 ^ 256 →
      (IssuesBoth loadOf s (issueMerchantGem generateGemId env caller positionId owner load)
          (issueMerchantGem generateGemId env caller' positionId' owner' load') load load' ∧
        IssuesBoth loadOf s (issueMerchantGem generateGemId env caller' positionId' owner' load')
          (issueMerchantGem generateGemId env caller positionId owner load) load' load ↔
        ¬(owner = owner' ∧ load = load'))) := by
  constructor
  · intro env s s₁ s₂ caller caller' series series' amount amount' id id' hfirst hsecond htotal
    obtain ⟨record, data, h, -, -⟩ := issueGemPosition_ok.mp hfirst
    obtain ⟨record', data', h', -, -⟩ := issueGemPosition_ok.mp hsecond
    rw [loadOfUnits_eq h.known, loadOfUnits_eq h'.known] at htotal ⊢
    constructor
    · rintro ⟨hboth, -⟩ rfl
      exact not_issuesBoth_positions hboth
    · intro hne
      exact ⟨issuesBoth_positions hposition (Ne.symm hne) h h' htotal,
        issuesBoth_positions hposition hne h' h (by omega)⟩
  · intro env s s₁ s₂ caller caller' positionId positionId' owner owner' load load' id id' hfirst
      hsecond hcapacity htotal
    obtain ⟨record, prices, h, -, -⟩ := issuable_of_ok hfirst
    obtain ⟨record', prices', h', -, -⟩ := issuable_of_ok hsecond
    constructor
    · rintro ⟨hboth, -⟩ ⟨rfl, rfl⟩
      exact not_issuesBoth_gems hboth
    · intro hne
      refine ⟨issuesBoth_gems hgem hne h h' (fun hpos => hcapacity hpos record h.known) htotal,
        issuesBoth_gems hgem (fun heq => hne ⟨heq.1.symm, heq.2.symm⟩) h' h (fun hpos => ?_) htotal⟩
      subst hpos
      have hcover := hcapacity rfl record' h'.known
      omega

/-! ### A shop with two series and one position -/

def pairPositionId (series : SeriesId) (blockNumber : Nat) : Nat :=
  pair series.toNat blockNumber

def pairGemId (owner : Address) (load blockNumber : Nat) : Nat :=
  pair (pair owner.toNat load) blockNumber

theorem injective_pairPositionId : Injective2 pairPositionId := by
  intro series series' n n' heq
  obtain ⟨hseries, hn⟩ := pair_eq_pair.mp heq
  exact ⟨BitVec.eq_of_toNat_eq hseries, hn⟩

theorem injective_pairGemId (n : Nat) : Injective2 fun owner load => pairGemId owner load n := by
  intro owner owner' load load' heq
  obtain ⟨howner, hload⟩ := pair_eq_pair.mp (pair_eq_pair.mp heq).1
  exact ⟨BitVec.eq_of_toNat_eq howner, hload⟩

def shopBlock : IssueEnv where
  blockNumber := 9
  timestamp := 6000
  chainId := 1
  genesisHash := 0
  coenRate := fun _ => .ok 2000000
  terms := ⟨2419200, 1814400, 604800, 128, 8, 31536000⟩

/-- Holders 7 and 8 have five units each of the series 1 and 2; merchant 7 has a position. -/
def shop : State where
  world :=
    { World.genesis [840] 31536000 with
      registry :=
        { series := fun id =>
            if id = 1 ∨ id = 2 then some IntexFactory.Units.tenUnits else none
          settledUnits := fun _ => 0
          parkedUnits := fun _ => 0 }
      nft :=
        { series := fun id => if id = 1 ∨ id = 2 then some ⟨.issued, 0, 1000⟩ else none
          balanceOf := fun _ holder => if holder = 7 ∨ holder = 8 then 5 else 0 }
      positions := update (fun _ => none) 1 (some
        { merchant := 7
          sourceIntexId := 3
          remainingCapacity := 100
          sourceEntryPrice := 100
          sourceFloorPrice := 110
          issuanceCurrency := 840
          referenceCurrency := 840
          parkedAt := 5000
          expiresAt := 31541000 }) }
  gem := .empty
  totalGemsIssued := 0

/-- Units of two series are parked in one block, and two customers get a gem of the same load. -/
theorem sameBlock_iff_shop :
    IssuesBoth capacityOf shop (issueGemPosition pairPositionId shopBlock 7 1 2)
        (issueGemPosition pairPositionId shopBlock 8 2 3) 6 9 ∧
      IssuesBoth loadOf shop (issueMerchantGem pairGemId shopBlock 7 1 11 60)
        (issueMerchantGem pairGemId shopBlock 7 1 12 40) 60 40 := by
  have hiff := sameBlock_iff injective_pairPositionId injective_pairGemId
  have alone : ∀ {m : Call State Nat} {id : Nat}, (m.run shop).1 = .ok id →
      Ok m shop id (m.run shop).2 := fun h => Prod.ext h rfl
  constructor
  · exact ((hiff.1 shopBlock shop _ _ 7 8 1 2 2 3 82 83 (alone (by decide +kernel))
      (alone (by decide +kernel)) (by decide)).mpr (by decide)).1
  · refine ((hiff.2 shopBlock shop _ _ 7 7 1 1 11 12 60 40 (pairGemId 11 60 9) (pairGemId 12 40 9)
      (alone (by decide +kernel)) (alone (by decide +kernel)) (fun _ record hrecord => ?_)
      (by decide)).mpr (by decide)).1
    obtain rfl := Option.some.inj hrecord
    decide

/-- Two holders park units of one series in one block, and a merchant issues the same load to one
customer twice. Each call succeeds alone and everything covers both, but the second finds its id
taken. -/
theorem sameBlock_collides :
    Injective2 pairPositionId ∧
      (Injective2 fun owner load => pairGemId owner load shopBlock.blockNumber) ∧
      ((issueGemPosition pairPositionId shopBlock 7 1 2).run shop).1 = .ok 82 ∧
      ((issueGemPosition pairPositionId shopBlock 8 1 3).run shop).1 = .ok 82 ∧
      shop.world.nft.balanceOf 1 7 = 5 ∧ shop.world.nft.balanceOf 1 8 = 5 ∧
      shop.world.totalIntexParked = 0 ∧
      ((do
        let _ ← issueGemPosition pairPositionId shopBlock 7 1 2
        issueGemPosition pairPositionId shopBlock 8 1 3).run shop).1 =
          .error (.revert "position already exists") ∧
      ((issueMerchantGem pairGemId shopBlock 7 1 11 50).run shop).1 = .ok (pairGemId 11 50 9) ∧
      capacityOf shop 1 = some 100 ∧
      ((do
        let _ ← issueMerchantGem pairGemId shopBlock 7 1 11 50
        issueMerchantGem pairGemId shopBlock 7 1 11 50).run shop).1 =
          .error (.revert "gem already exists") :=
  ⟨injective_pairPositionId, injective_pairGemId 9, by decide +kernel, by decide +kernel, rfl, rfl,
    rfl, by decide +kernel, by decide +kernel, rfl, by decide +kernel⟩

end Rudis.GemFactory
