import Rudis.Proofs.Intex.Series
import Rudis.Spec.IntexFactory.Units

/-!
# `Rudis.Proofs.IntexFactory.Units`: a unit is realized at most once

`World.tally` is what the registry knows of the units of one series, and `Tally.Step` what a call
may do to it. Every call takes each tally along such steps (`Advances`), with one exception: parking
asks the NFT contract for the state of the series and never the registry, so units of a series that
has already expired, and whose load is back in PromisLimit, can still be parked.

* `realized_iff_unexpiredParks`: settled, parked and forfeited units stay within the issued count in
  every state of a run exactly if no unit of an expired series is parked.
* `droppedNotice_parksForfeited`: a called notice is dropped, the series expires and one of its
  forfeited units is parked.
-/

namespace Rudis.IntexFactory.Units

open Intex Option
open Tx
open Relation (ReflTransGen)

/-! ### Tallies -/

/-- The units of one series. -/
structure Tally where
  record : Option SeriesRecord
  settled : Nat
  parked : Nat
  forfeited : Nat

def World.tally (w : World) (id : SeriesId) : Tally where
  record := w.registry.series id
  settled := w.registry.settledUnits id
  parked := w.registry.parkedUnits id
  forfeited := w.forfeited id

namespace Tally

def issued (t : Tally) : Nat := t.record.elim 0 (·.issuedIntexCount)

/-- What a call may do to the units of a series. -/
inductive Step (t : Tally) : Tally → Prop
  | create (r : SeriesRecord) (fresh : t.record = none) (born : r.state = .issued) :
      Step t { t with record := some r }
  | advance (r r' : SeriesRecord) (known : t.record = some r) (live : r.state ≠ .expired)
      (live' : r'.state ≠ .expired) (count : r'.issuedIntexCount = r.issuedIntexCount) :
      Step t { t with record := some r' }
  | settle (r : SeriesRecord) (units : Nat) (known : t.record = some r) (live : r.state ≠ .expired)
      (room : t.settled + units + t.parked ≤ r.issuedIntexCount) :
      Step t { t with settled := t.settled + units }
  | park (r : SeriesRecord) (units : Nat) (known : t.record = some r) (live : r.state ≠ .expired)
      (room : t.settled + (t.parked + units) ≤ r.issuedIntexCount) :
      Step t { t with parked := t.parked + units }
  | expire (r : SeriesRecord) (known : t.record = some r) (called : r.state = .called)
      (room : t.settled + t.parked ≤ r.issuedIntexCount) :
      Step t { t with
        record := some { r with state := .expired }
        forfeited := t.forfeited + (r.issuedIntexCount - t.settled - t.parked) }

/-- No unit is counted twice; nothing is forfeited before expiry, and then the whole rest. -/
structure Sound (t : Tally) : Prop where
  bound : t.settled + t.parked + t.forfeited ≤ t.issued
  live : ∀ r, t.record = some r → r.state ≠ .expired → t.forfeited = 0
  closed : ∀ r, t.record = some r → r.state = .expired →
    t.settled + t.parked + t.forfeited = r.issuedIntexCount

variable {t t' : Tally}

theorem issued_of_some {r : SeriesRecord} (h : t.record = some r) :
    t.issued = r.issuedIntexCount := by
  rw [issued, h, elim_some]

theorem Sound.step (h : t.Sound) (hstep : Step t t') : t'.Sound := by
  have hbound := h.bound
  cases hstep with
  | create r fresh born =>
    have hnone : t.issued = 0 := by rw [issued, fresh, elim_none]
    refine ⟨?_, fun _ _ _ => ?_, fun r' hr' hexpired => ?_⟩
    · show t.settled + t.parked + t.forfeited ≤ r.issuedIntexCount
      omega
    · show t.forfeited = 0
      omega
    · obtain rfl := Option.some.inj hr'
      simp [born] at hexpired
  | advance r r' known live live' count =>
    rw [issued_of_some known] at hbound
    refine ⟨?_, fun _ _ _ => h.live r known live, fun s hs hexpired => ?_⟩
    · show t.settled + t.parked + t.forfeited ≤ r'.issuedIntexCount
      omega
    · obtain rfl := Option.some.inj hs
      exact absurd hexpired live'
  | settle r units known live room =>
    have hzero := h.live r known live
    refine ⟨?_, fun _ _ _ => hzero, fun s hs hexpired => ?_⟩
    · show t.settled + units + t.parked + t.forfeited ≤ t.issued
      rw [issued_of_some known]
      omega
    · obtain rfl := Option.some.inj (known.symm.trans hs)
      exact absurd hexpired live
  | park r units known live room =>
    have hzero := h.live r known live
    refine ⟨?_, fun _ _ _ => hzero, fun s hs hexpired => ?_⟩
    · show t.settled + (t.parked + units) + t.forfeited ≤ t.issued
      rw [issued_of_some known]
      omega
    · obtain rfl := Option.some.inj (known.symm.trans hs)
      exact absurd hexpired live
  | expire r known called room =>
    have hzero := h.live r known (by simp [called])
    refine ⟨?_, fun s hs hlive => ?_, fun s hs _ => ?_⟩
    · show t.settled + t.parked + (t.forfeited + _) ≤ r.issuedIntexCount
      omega
    · obtain rfl := Option.some.inj hs
      exact absurd rfl hlive
    · obtain rfl := Option.some.inj hs
      show t.settled + t.parked + (t.forfeited + _) = r.issuedIntexCount
      omega

theorem Sound.steps (h : t.Sound) (hsteps : ReflTransGen Step t t') : t'.Sound := by
  induction hsteps with
  | refl => exact h
  | tail _ hstep ih => exact ih.step hstep

end Tally

/-! ### Calls -/

/-- Every tally is taken along steps. -/
def Advances (w w' : World) : Prop :=
  ∀ id, ReflTransGen Tally.Step (w.tally id) (w'.tally id)

section Calls

variable {w w' w'' : World} {u : Unit} {id : SeriesId}

namespace Advances

theorem refl : Advances w w := fun _ => .refl

theorem trans (h : Advances w w') (h' : Advances w' w'') : Advances w w'' :=
  fun id => (h id).trans (h' id)

/-- A call that leaves the registry and the forfeits alone. -/
theorem of_eq (hregistry : w'.registry = w.registry) (hforfeited : w'.forfeited = w.forfeited) :
    Advances w w' := by
  intro id
  have heq : w'.tally id = w.tally id := by simp only [World.tally, hregistry, hforfeited]
  rw [heq]

/-- One tally makes a step and the others stay. -/
theorem single (id : SeriesId) (hstep : Tally.Step (w.tally id) (w'.tally id))
    (hframe : ∀ d, d ≠ id → w'.tally d = w.tally d) : Advances w w' := by
  intro d
  by_cases hd : d = id
  · exact hd ▸ .single hstep
  · rw [hframe d hd]

end Advances

instance : IsPreorder World Advances where
  refl _ := .refl
  trans _ _ _ := .trans

variable {α : Type}

theorem advances_onNft {m : Call Nft α} : Keeps Advances (onNft m) :=
  .zoom fun _ _ => .of_eq rfl rfl

theorem advances_bestEffort {m : Call World α} (hm : Keeps Advances m) :
    Keeps Advances (bestEffort m) := hm.attempt.bind fun _ => .pure

variable {params r r' : SeriesRecord}

/-- The world after a registry write of one record. -/
theorem advances_record (hstep : Tally.Step (w.tally id) { w.tally id with record := some r' }) :
    Advances w { w with registry := w.registry.put id r' } := by
  refine .single id ?_ fun d hd => by simp [World.tally, SeriesStore.put, hd]
  simpa [World.tally, SeriesStore.put] using hstep

theorem advances_markQualified (h : Ok (onSeries (markQualified id)) w u w') : Advances w w' := by
  simp only [onSeries, ok_zoom, ok_markQualified] at h
  obtain ⟨_, ⟨r, known, hstate, rfl⟩, rfl⟩ := h
  exact advances_record (.advance r _ known (by simp [hstate]) (by simp) rfl)

variable {calledAt credit credit' deadline rate returned units : Nat}

theorem advances_markCalled
    (h : Ok (onSeries (markCalled id calledAt)) w u w') : Advances w w' := by
  simp only [onSeries, ok_zoom, ok_markCalled] at h
  obtain ⟨_, ⟨r, known, hstate, rfl⟩, rfl⟩ := h
  refine advances_record (.advance r _ known ?_ (by simp) rfl)
  rcases hstate with hstate | hstate <;> simp [hstate]

theorem advances_createSeries
    (h : Ok (onSeries (createSeries id params)) w u w') : Advances w w' := by
  simp only [onSeries, ok_zoom, ok_createSeries] at h
  obtain ⟨_, ⟨-, fresh, rfl⟩, rfl⟩ := h
  exact advances_record (.create _ fresh rfl)

/-- Settling needs a live series, which the settlement has checked. -/
theorem advances_recordSettledUnits
    (known : w.registry.series id = some r) (live : r.state ≠ .expired)
    (h : Ok (onSeries (recordSettledUnits id units)) w u w') : Advances w w' := by
  simp only [onSeries, ok_zoom, recordSettledUnits, ok_addRealizedUnits] at h
  obtain ⟨_, ⟨-, rfl⟩ | ⟨-, -, hroom, rfl⟩, rfl⟩ := h
  · exact .refl
  simp only [known, elim_some, SeriesStore.realized] at hroom
  refine .single id ?_ fun d hd => by simp [World.tally, SeriesStore.realize, hd]
  have hstep := Tally.Step.settle (t := w.tally id) r units known live (by
    show w.registry.settledUnits id + units + w.registry.parkedUnits id ≤ _
    omega)
  simpa [World.tally, SeriesStore.realize] using hstep

theorem advances_expireMember (h : Ok (expireMember id) w returned w') : Advances w w' := by
  simp only [expireMember, onSeries, rules, ok_zoom, ok_expireSeries] at h
  obtain ⟨_, _, ⟨_, ⟨r, known, called, room, rfl, rfl⟩, rfl⟩, _, _, ⟨-, rfl⟩, _, _, rfl, -, rfl⟩ := h
  refine .single id ?_ fun d hd => by simp [World.tally, SeriesStore.put, hd]
  have hstep := Tally.Step.expire (t := w.tally id) r known called room
  simpa [World.tally, SeriesStore.put, SeriesStore.realized, Nat.sub_sub] using hstep

theorem advances_creditMember : Keeps Advances (creditMember credit id) := by
  refine .bind (.attempt fun _ _ _ => advances_expireMember) fun r => ?_
  cases r with
  | error _ => exact .pure
  | ok _ => exact .of_readOnly Tx.readOnly_ofExcept

variable {key : GroupKey} {members : List SeriesId}

theorem advances_expireGroup : Keeps Advances (expireGroup key members) := by
  refine .bind (.foldlM fun _ _ => advances_creditMember) fun _ => .bind (.when ?_) fun _ => ?_
  · exact .bind (.zoom fun _ _ => .of_eq rfl rfl) fun _ => .pure
  · exact .modify fun _ => .of_eq rfl rfl

theorem advances_retireGroup {now : Nat} : Keeps Advances (retireGroup now key) := by
  refine .read (fun _ => rfl) fun group => ?_
  cases group with
  | none => exact .pure
  | some group =>
    refine .ite .pure (.bind advances_expireGroup.attempt fun r => ?_)
    cases r with
    | error _ => exact .modify fun _ => .of_eq rfl rfl
    | ok _ => exact .pure

/-! ### Lifecycle and settlement -/

theorem advances_issue : Keeps Advances (issue id params) :=
  .ite .pure (.bind (fun _ _ _ => advances_createSeries) fun _ => .modify fun _ => .of_eq rfl rfl)

/-- Reading a record changes nothing. -/
theorem loadSeries_same (h : Ok (onSeries (loadSeries id)) w r w') :
    w.registry.series id = some r ∧ w' = w := by
  simp only [onSeries, ok_zoom, ok_loadSeries] at h
  obtain ⟨_, ⟨known, rfl⟩, rfl⟩ := h
  exact ⟨known, rfl⟩

theorem advances_loadSeries : Keeps Advances (onSeries (loadSeries id)) :=
  fun _ _ _ h => (loadSeries_same h).2 ▸ .refl

theorem advances_tryQualifyGroup : Keeps Advances (tryQualifyGroup key rate) := by
  refine .read (fun _ => rfl) fun members => ?_
  split
  · exact .pure
  · refine .bind advances_loadSeries fun _ => .ite .pure ?_
    refine .bind (.forM fun _ _ _ _ => advances_markQualified) fun _ => ?_
    refine .read (fun _ => rfl) fun _ => .read Tx.readOnly_failIf fun _ => ?_
    exact .bind (.modify fun _ => .of_eq rfl rfl) fun _ => .modify fun _ => .of_eq rfl rfl

theorem advances_pushCalledGroup : Keeps Advances (pushCalledGroup key deadline members) :=
  .ite .pure (.read (fun _ => rfl) fun _ => .read Tx.readOnly_failIf fun _ =>
    .modify fun _ => .of_eq rfl rfl)

variable {notice : Notice}

theorem advances_enqueueNotice : Keeps Advances (enqueueNotice notice) :=
  .modify fun _ => .of_eq rfl rfl

theorem advances_tryCallGroup {breached : Bool} {now : Nat} :
    Keeps Advances (tryCallGroup key breached now) := by
  refine .read (fun _ => rfl) fun members => ?_
  split
  · exact .pure
  · refine .bind advances_loadSeries fun _ => .ite .pure (.read Tx.readOnly_failIf fun _ => ?_)
    refine .bind (.forM fun _ _ _ _ => advances_markCalled) fun _ => ?_
    refine .bind (.modify fun _ => .of_eq rfl rfl) fun _ => .bind advances_pushCalledGroup fun _ => ?_
    exact .forM fun _ => advances_enqueueNotice

theorem advances_settle {holder settler : Address} {amount now : Nat} {discharged : Result Unit}
    (h : Ok (settle id holder settler amount now discharged) w u w') : Advances w w' := by
  simp only [settle, rules] at h
  obtain ⟨-, -, r, v, hload, hstate, -, -, -, -, -, v₁, hnft, -, hrecord⟩ := h
  obtain ⟨known, rfl⟩ := loadSeries_same hload
  have hburn := hnft
  simp only [onNft, ok_zoom] at hburn
  obtain ⟨_, -, rfl⟩ := hburn
  refine (advances_onNft hnft).trans (advances_recordSettledUnits known ?_ hrecord)
  intro hexpired
  simp [hexpired] at hstate

theorem advances_deliver {now : Nat} : Keeps Advances (deliver notice now) := by
  unfold deliver
  split
  · exact .read (fun _ => rfl) fun _ => .forM fun _ => advances_bestEffort advances_onNft
  · exact .when (advances_bestEffort advances_onNft)

theorem advances_drainNotices {outcomes : List Bool} {now : Nat} :
    Keeps Advances (drainNotices outcomes now) :=
  .read (fun _ => rfl) fun _ => .bind (.forM fun _ => .when advances_deliver) fun _ =>
    .modify fun _ => .of_eq rfl rfl

end Calls

/-! ### Parking -/

section Parking

variable (generatePositionId : SeriesId → Nat → Nat)

/-- A merchant can park an amount of a series: the NFT contract still shows it `Issued` or
`Qualified`, and no counter or position is in the way. The registry's state is not asked. -/
structure Parkable (caller : Address) (id : SeriesId) (amount blockNumber : Nat) (w : World)
    (series : SeriesRecord) (data : NftSeries) : Prop where
  caller_ne : caller ≠ 0
  amount_ne : amount ≠ 0
  known : w.registry.series id = some series
  currency : series.referenceCurrency ∈ w.referenceCurrencies
  listed : w.nft.series id = some data
  shown : data.state = .issued ∨ data.state = .qualified
  balance : amount ≤ w.nft.balanceOf id caller
  capacity : series.promisLoadMinor * amount < 2 ^ 256
  word : w.registry.realized id + amount < 2 ^ 32
  room : w.registry.realized id + amount ≤ series.issuedIntexCount
  fresh : w.positions (generatePositionId id blockNumber) = none
  total : w.totalIntexParked + series.promisLoadMinor * amount < 2 ^ 256

variable {generatePositionId} {caller : Address} {id : SeriesId} {amount blockNumber now : Nat}
  {w w' : World} {u : Unit}

theorem ok_parkIntex {n n' : Nft} {units : Nat} :
    Ok (Nft.parkIntex caller id amount) n units n' ↔
      caller ≠ 0 ∧ amount ≠ 0 ∧ units = amount ∧
        (∃ data, n.series id = some data ∧ (data.state = .issued ∨ data.state = .qualified)) ∧
        amount ≤ n.balanceOf id caller ∧
        n' = { n with
          balanceOf := update n.balanceOf id
            (update (n.balanceOf id) caller (n.balanceOf id caller - amount)) } := by
  simp only [Nft.parkIntex, Nft.load, Nft.burn, Nft.setBalance, rules, okOr_eq_ok, not_lt,
    ← or_iff_not_and_not]
  constructor
  · rintro ⟨hcaller, hamount, data, hdata, hstate, hbalance, rfl, rfl⟩
    exact ⟨hcaller, hamount, rfl, ⟨data, hdata, hstate⟩, hbalance, rfl⟩
  · rintro ⟨hcaller, hamount, rfl, ⟨data, hdata, hstate⟩, hbalance, rfl⟩
    exact ⟨hcaller, hamount, data, hdata, hstate, hbalance, rfl, rfl⟩

theorem parkable_of_ok
    (h : Ok (issueGemPosition generatePositionId caller id amount blockNumber now) w u w') :
    (∃ series data, Parkable generatePositionId caller id amount blockNumber w series data) ∧
      w'.registry = w.registry.realize id amount .parked ∧ w'.forfeited = w.forfeited := by
  simp only [issueGemPosition, rules, okOr_eq_ok, checkedMul_eq_some, checkedAdd_eq_some, onNft,
    onSeries, ok_zoom, ok_parkIntex, recordParkedUnits, ok_addRealizedUnits, ↓existsAndEq,
    not_le, id_eq, Bool.not_eq_true, isSome_eq_false_iff, isNone_iff_eq_none] at h
  obtain ⟨hcaller, series, known, hcurrency, -, hamount, ⟨data, hdata, hstate⟩, hbalance, hcapacity,
    -, _, ⟨hzero, -⟩ | ⟨-, hword, hroom, rfl⟩, hfresh, htotal, rfl⟩ := h
  · exact absurd hzero hamount
  rw [known, elim_some] at hroom
  exact ⟨⟨series, data, hcaller, hamount, known, hcurrency, hdata, hstate, hbalance, hcapacity,
    hword, hroom, hfresh, htotal⟩, rfl, rfl⟩

/-- What can be parked is parked. -/
theorem Parkable.ok {series : SeriesRecord} {data : NftSeries} (now : Nat)
    (h : Parkable generatePositionId caller id amount blockNumber w series data) :
    ∃ w', Ok (issueGemPosition generatePositionId caller id amount blockNumber now) w () w' := by
  have hroom := h.room
  have hword := h.word
  simp only [issueGemPosition, rules, okOr_eq_ok, checkedMul_eq_some, checkedAdd_eq_some, onNft,
    onSeries, ok_zoom, ok_parkIntex, recordParkedUnits, ok_addRealizedUnits, ↓existsAndEq,
    not_le, id_eq, Bool.not_eq_true, isSome_eq_false_iff, isNone_iff_eq_none,
    h.known, Option.some.injEq, elim_some]
  exact ⟨h.caller_ne, h.currency, h.caller_ne, h.amount_ne, ⟨data, h.listed, h.shown⟩, h.balance,
    h.capacity, by omega, _, .inr ⟨h.amount_ne, h.word, h.room, rfl⟩, h.fresh, h.total, trivial⟩

/-- What parking does to the tallies, whatever the state of the series. -/
theorem tally_realize (hregistry : w'.registry = w.registry.realize id amount .parked)
    (hforfeited : w'.forfeited = w.forfeited) :
    w'.tally id = { w.tally id with parked := (w.tally id).parked + amount } ∧
      ∀ d, d ≠ id → w'.tally d = w.tally d := by
  refine ⟨?_, fun d hd => ?_⟩
  · simp [World.tally, hregistry, hforfeited, SeriesStore.realize]
  · simp [World.tally, hregistry, hforfeited, SeriesStore.realize, hd]

/-- Parking units of a series that has not expired is a step like the others. -/
theorem advances_issueGemPosition (hlive : ∀ r, w.registry.series id = some r → r.state ≠ .expired)
    (h : Ok (issueGemPosition generatePositionId caller id amount blockNumber now) w u w') :
    Advances w w' := by
  obtain ⟨⟨series, data, hpark⟩, hregistry, hforfeited⟩ := parkable_of_ok h
  obtain ⟨hown, hframe⟩ := tally_realize hregistry hforfeited
  refine .single id ?_ hframe
  rw [hown]
  refine .park series amount hpark.known (hlive series hpark.known) ?_
  rw [← add_assoc]
  exact hpark.room

end Parking

/-! ### Runs -/

def World.Sound (w : World) : Prop := ∀ id, (w.tally id).Sound

/-- Units settled, parked and forfeited never exceed the issued count of the series. -/
def World.RealizedOnce (w : World) (id : SeriesId) : Prop :=
  w.registry.settledUnits id + w.registry.parkedUnits id + w.forfeited id ≤
    (w.registry.series id).elim 0 (·.issuedIntexCount)

section Runs

variable (generatePositionId : SeriesId → Nat → Nat)

/-- What is parked belongs to a series the registry has not expired. -/
def Op.UnexpiredPark : Op → World → Prop
  | .issueGemPosition caller id amount blockNumber _, w => ∀ series data,
    Parkable generatePositionId caller id amount blockNumber w series data → series.state ≠ .expired
  | _, _ => True

variable {generatePositionId} {w w' : World} {u : Unit}

theorem World.Sound.advance (h : w.Sound) (hadvances : Advances w w') : w'.Sound :=
  fun id => (h id).steps (hadvances id)

theorem advances_call {op : Op} (hpark : op.UnexpiredPark generatePositionId w)
    (hok : Ok (op.call generatePositionId) w u w') : Advances w w' := by
  cases op with
  | issue id params => exact advances_issue hok
  | qualifyGroup key rate => exact advances_tryQualifyGroup hok
  | callGroup key breached now => exact advances_tryCallGroup hok
  | sweepExpiryDeadlines reached now =>
    exact Keeps.forM (fun _ => advances_retireGroup) hok
  | settle id holder settler amount now discharged => exact advances_settle hok
  | issueGemPosition caller id amount blockNumber now =>
    refine advances_issueGemPosition (fun r hr => ?_) hok
    obtain ⟨⟨series, data, hparkable⟩, -⟩ := parkable_of_ok hok
    obtain rfl := Option.some.inj (hparkable.known.symm.trans hr)
    exact hpark _ data hparkable
  | drainNotices outcomes now => exact advances_drainNotices hok
  | authorizeSettler holder id settler | promisLimit total =>
    simp only [Op.call, ok_modify] at hok
    exact .of_eq (by rw [hok]) (by rw [hok])
  | nftCreateSeries id callNoticePeriod | nftBalance id holder balance => exact advances_onNft hok

theorem sound_step (op : Op) (w : World) (hpark : op.UnexpiredPark generatePositionId w)
    (h : w.Sound) : (step generatePositionId op w).Sound := by
  rcases checkpoint_cases (op.call generatePositionId) w with ⟨_, hok⟩ | hsame
  · exact h.advance (advances_call hpark hok)
  · rw [step, hsame]
    exact h

/-- The units of an expired series are all accounted for, so one more is one too many. -/
theorem not_realizedOnce_of_expired (op : Op) (w : World)
    (hpark : ¬ op.UnexpiredPark generatePositionId w) (h : w.Sound) :
    ¬ ∀ id, (step generatePositionId op w).RealizedOnce id := by
  cases op with
  | issueGemPosition caller id amount blockNumber now =>
    simp only [Op.UnexpiredPark, not_forall, not_not] at hpark
    obtain ⟨series, data, hparkable, hexpired⟩ := hpark
    obtain ⟨w', hok⟩ := hparkable.ok now
    obtain ⟨-, hregistry, hforfeited⟩ := parkable_of_ok hok
    obtain ⟨hown, -⟩ := tally_realize hregistry hforfeited
    have hstep : step generatePositionId
        (.issueGemPosition caller id amount blockNumber now) w = w' := hok.checkpoint
    rw [hstep]
    intro honce
    have hclosed := (h id).closed series hparkable.known hexpired
    have hbound : (w'.tally id).settled + (w'.tally id).parked + (w'.tally id).forfeited ≤
        (w'.tally id).issued := honce id
    rw [hown] at hbound
    have hissued : (w.tally id).settled + ((w.tally id).parked + amount) + (w.tally id).forfeited ≤
        series.issuedIntexCount := by
      rw [← Tally.issued_of_some (t := w.tally id) hparkable.known]
      exact hbound
    have hamount := hparkable.amount_ne
    omega
  | _ => exact absurd trivial hpark

theorem sound_genesis (referenceCurrencies : List Nat) (positionValidity : Nat) :
    (World.genesis referenceCurrencies positionValidity).Sound := by
  intro id
  refine ⟨le_refl 0, fun _ h => ?_, fun _ h => ?_⟩
  · cases h
  · cases h

end Runs

/-- In a run from genesis no unit of any series is realized twice exactly if no unit is parked that
belongs to a series the registry has expired. -/
theorem realized_iff_unexpiredParks (generatePositionId : SeriesId → Nat → Nat)
    (referenceCurrencies : List Nat) (positionValidity : Nat) (ops : List Op) :
    (∀ l, l <+: ops → ∀ id, (Runs.run (step generatePositionId) l
        (World.genesis referenceCurrencies positionValidity)).RealizedOnce id) ↔
      Runs.Along (step generatePositionId) (Op.UnexpiredPark generatePositionId) ops
        (World.genesis referenceCurrencies positionValidity) :=
  Runs.along_iff_forall_prefix (Q := fun w => ∀ id, World.RealizedOnce w id)
    (fun _ h id => (h id).bound) sound_step not_realizedOnce_of_expired
    (sound_genesis referenceCurrencies positionValidity)

/-- Ten units of one series, with a load of three. -/
def tenUnits : SeriesRecord where
  issuanceCurrency := 840
  referenceCurrency := 840
  issuedIntexCount := 10
  promisLoadMinor := 3
  entryPriceMinor := 100
  floorPriceMinor := 110
  callPriceMinor := 120
  callWindow := 86400
  callThreshold := 86400
  callNoticePeriod := 1000
  issuedAt := 5000
  calledAt := 0
  state := .issued
  worldwideDay := 20260101

/-- The series is qualified and called; the called notice is dropped, so the NFT contract still
shows it `Qualified` when the registry expires it, and the merchant parks one unit. -/
def droppedNotice : List Op :=
  [.issue 1 tenUnits, .nftCreateSeries 1 1000, .nftBalance 1 7 10,
    .qualifyGroup (840, 20260101) 111, .drainNotices [true] 99000,
    .callGroup (840, 20260101) true 100000, .drainNotices [false] 100001,
    .sweepExpiryDeadlines [(840, 20260101)] 104600, .issueGemPosition 7 1 1 9 104601]

/-- All ten units are forfeited and credited, and one of them is parked as well. -/
theorem droppedNotice_parksForfeited :
    let w := Runs.run (step fun _ n => n) droppedNotice (World.genesis [840] 500)
    w.nft.series 1 = some ⟨.qualified, 0, 1000⟩ ∧ w.forfeited 1 = 10 ∧ w.promisLimit = 30 ∧
      w.registry.parkedUnits 1 = 1 ∧ w.totalIntexParked = 3 ∧ ¬ w.RealizedOnce 1 := by
  intro w
  unfold World.RealizedOnce
  decide +kernel

end Rudis.IntexFactory.Units
