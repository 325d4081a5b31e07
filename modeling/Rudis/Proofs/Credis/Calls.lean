import Rudis.Lib.SwapRemove
import Rudis.Spec.Credis

/-!
# `Rudis.Proofs.Credis.Calls`: what each call does to the ledger

One lemma per call says when it succeeds and which store it leaves. The dense active index enters
through `Store.Listed`: the list of active ids, each at the place the index gives it. Inserting and
removing an id act on that list as `concat` and `swapRemove`.
-/

namespace Rudis.Credis

open Tx

variable {s s' : Store} {id : B256} {p : Position}

@[simp] theorem checked_eq_ok {α : Type} {x : Option α} {a : α} : checked x = .ok a ↔ x = some a :=
  okOr_eq_ok

/-! ### Records -/

variable {t : Store}

@[simp] theorem ok_loadPosition :
    Ok (loadPosition id) s p t ↔ p = s.positions id ∧ p.Exists ∧ t = s := by
  simp only [loadPosition, rules]
  constructor
  · rintro ⟨hex, rfl, rfl⟩
    exact ⟨rfl, hex, rfl⟩
  · rintro ⟨rfl, hex, rfl⟩
    exact ⟨hex, rfl, rfl⟩

variable {u : Unit}

@[simp] theorem ok_createPositionRecord :
    Ok (createPositionRecord p) s u s' ↔
      ¬ (s.positions p.positionId).Exists ∧ s' = s.writePosition p := by
  simp [createPositionRecord]

@[simp] theorem ok_updatePositionRecord :
    Ok (updatePositionRecord p) s u s' ↔
      (s.positions p.positionId).Exists ∧ s' = s.writePosition p := by
  simp [updatePositionRecord]

/-! ### The active index -/

/-- The ids on the active list, in its order. -/
def Store.active (s : Store) : List B256 := s.activePositions.readAll

/-- The index gives each active id its place. -/
def Store.Listed (s : Store) : Prop := s.active.IndexedBy s.activePositionIndex

/-- The store after an id left the active list. -/
def Store.unlist (s : Store) (id : B256) (v : StorageVec B256) (index : B256 → Nat) : Store :=
  { s with activePositions := v, activePositionIndex := update index id 0 }

/-- The element at the end of the active list. -/
theorem Store.getLast?_active {last : B256}
    (h : s.activePositions.get (s.activePositions.length - 1) = some last) :
    s.active.getLast? = some last := by
  rw [List.getLast?_eq_getElem?, Store.active, StorageVec.length_readAll, ← StorageVec.get_eq, h]

/-- Removing a listed id leaves the other ids listed. -/
theorem removeActive_cases (h : Ok (removeActive id) s u s') (hs : s.Listed) (hid : id ∈ s.active) :
    ∃ v index, s' = s.unlist id v index ∧
      s'.active = s.active.swapRemove (s.activePositionIndex id) ∧ s'.Listed := by
  have hplace := hs.getElem? hid
  simp only [removeActive, rules, okOr_eq_ok, checkedSub_eq_some, ok_when] at h
  obtain ⟨-, t, hmove, rfl⟩ := h
  rcases hmove with ⟨-, hmove⟩ | ⟨hlast, ht⟩
  · -- the last id moves into the gap
    simp only [moveLastActive, rules, okOr_eq_ok] at hmove
    obtain ⟨moved, hmoved, v, hset, rfl⟩ := hmove
    have hgl := Store.getLast?_active hmoved
    have hactive : (v.pop 0).readAll = s.active.swapRemove (s.activePositionIndex id) := by
      rw [StorageVec.readAll_pop, StorageVec.set_eq_ok hset]
      simp only [List.swapRemove, hgl]
      rfl
    refine ⟨v.pop 0, _, rfl, hactive, ?_⟩
    show List.IndexedBy _ (v.pop 0).readAll
    rw [hactive]
    exact hs.swapRemove hgl hid 0
  · -- the id is itself the last one
    obtain rfl := ht.symm
    have hgl : s.active.getLast? = some id := by
      rw [List.getLast?_eq_getElem?, ← hplace, hlast, Store.active, StorageVec.length_readAll]
    have hactive : (s.activePositions.pop 0).readAll =
        s.active.swapRemove (s.activePositionIndex id) := by
      have hset : s.active.set (s.activePositionIndex id) id = s.active := by
        obtain ⟨hlt, hget⟩ := List.getElem?_eq_some_iff.mp hplace
        have hself := List.set_getElem_self hlt
        rwa [hget] at hself
      rw [StorageVec.readAll_pop, List.swapRemove, hgl]
      show s.active.dropLast = (s.active.set _ _).dropLast
      rw [hset]
    refine ⟨_, _, rfl, hactive, ?_⟩
    have hidx := hs.swapRemove hgl hid 0
    rw [update_eq_self] at hidx
    show List.IndexedBy _ (s.activePositions.pop 0).readAll
    rw [hactive]
    exact hidx

/-- A new id is listed at the end. -/
theorem insertActive_cases (h : Ok (insertActive id) s u s') (hs : s.Listed)
    (hid : id ∉ s.active) (hroom : s.activePositions.length + 1 < 2 ^ 32) :
    s'.active = s.active ++ [id] ∧ s'.Listed := by
  simp only [insertActive, ok_modify] at h
  subst h
  have hactive : (s.activePositions.push id).readAll = s.active ++ [id] :=
    StorageVec.readAll_push hroom id
  refine ⟨hactive, ?_⟩
  have hidx := hs.concat hid
  rw [Store.active, StorageVec.length_readAll] at hidx
  show List.IndexedBy _ (s.activePositions.push id).readAll
  rw [hactive]
  exact hidx

/-! ### The calls -/

def OpenPositionParams.position (params : OpenPositionParams) (id : B256) (callPrice : Nat) :
    Position where
  positionId := id
  smartAccount := params.smartAccount
  cca := params.cca
  asset := params.asset
  issuanceCurrency := params.issuanceCurrency
  referenceCurrency := params.referenceCurrency
  eoaCt := params.eoaCt
  principal := params.principal
  outstanding := params.principal
  collateral := params.collateral
  collateralLocked := params.collateral
  policyRate := params.policyRate
  entryPrice := params.entryPrice
  callPrice := callPrice
  originatedAt := params.originatedAt
  lastSettledAt := params.originatedAt
  calledAt := 0
  state := .opened

/-- What a call did with one position: its record is `p'`, the active list and the called counts
are as given. -/
structure Moved (s s' : Store) (id : B256) (p' : Position) (active : List B256)
    (counts : Address → Nat) : Prop where
  positions : s'.positions = update s.positions id p'
  active : s'.active = active
  listed : s'.Listed
  counts : s'.calledPositionCounts = counts

/-- Opening writes a new record and lists its id; the called counts stay. -/
theorem openPosition_cases {positionIdOf : B256 → Address → B256} {params : OpenPositionParams}
    (h : Ok (openPosition positionIdOf params) s id s') (hs : s.Listed)
    (hid : ¬ (s.positions id).Exists → id ∉ s.active)
    (hroom : s.activePositions.length + 1 < 2 ^ 32) :
    0 < params.principal ∧ ¬ (s.positions id).Exists ∧
      ∃ callPrice, Moved s s' id (params.position id callPrice) (s.active ++ [id])
        s.calledPositionCounts := by
  simp only [openPosition, rules, ok_createPositionRecord, ↓existsAndEq, and_true] at h
  obtain ⟨hamounts, hnew, callPrice, -, -, t₁, hindex, t₂, hglobal, hinsert, rfl⟩ := h
  simp only [appendToAddressIndex, ok_modify] at hindex
  simp only [appendToGlobalIndex, ok_modify] at hglobal
  have hins := insertActive_cases hinsert (by subst hglobal; subst hindex; exact hs)
    (by subst hglobal; subst hindex; exact hid hnew) (by subst hglobal; subst hindex; exact hroom)
  simp only [insertActive, ok_modify] at hinsert
  subst hglobal hindex
  exact ⟨by omega, hnew, callPrice, by rw [hinsert]; rfl, hins.1, hins.2, by rw [hinsert]; rfl⟩

def Position.called (p : Position) (now : Nat) : Position := { p with state := .called, calledAt := now }

def Position.voided (p : Position) : Position :=
  { p with outstanding := 0, collateralLocked := 0, state := .void }

/-- Writing a record moves nothing else. -/
theorem Moved.write (hs : s.Listed) (hkey : p.positionId = id) :
    Moved s (s.writePosition p) id p s.active s.calledPositionCounts := by
  refine ⟨?_, rfl, hs, rfl⟩
  subst hkey
  rfl

variable {counts : Address → Nat} {active : List B256}

/-- Removing the id of a written record from the active list. -/
theorem Moved.removeActive
    (h : Moved s s' id p active counts) (hr : Ok (removeActive id) s' u t) (hid : id ∈ active) :
    Moved s t id p (active.swapRemove (s'.activePositionIndex id)) counts := by
  obtain ⟨v, index, rfl, hactive, hlisted⟩ := removeActive_cases hr h.listed (h.active ▸ hid)
  exact ⟨h.positions, h.active ▸ hactive, hlisted, h.counts⟩

/-- The called counts without a position. -/
def Store.countsWithout (s : Store) (id : B256) : Address → Nat :=
  if (s.positions id).state = .called then
    update s.calledPositionCounts (s.positions id).smartAccount
      (s.calledPositionCounts (s.positions id).smartAccount - 1)
  else s.calledPositionCounts

/-- Counting one called position of an account less. -/
theorem Moved.dropCalledCount (h : Moved s s' id p active s.calledPositionCounts)
    (hcalled : (s.positions id).state = .called)
    (hd : Ok (dropCalledCount (s.positions id).smartAccount) s' u t) :
    Moved s t id p active (s.countsWithout id) := by
  simp only [Credis.dropCalledCount, ok_modify] at hd
  subst hd
  refine ⟨h.positions, h.active, h.listed, ?_⟩
  rw [Store.countsWithout, if_pos hcalled, ← h.counts]

variable {amount days now paid released : Nat}

/-- Calling an open position changes its state and counts it; another one stays. -/
theorem markCalled_cases {done : Bool} (h : Ok (markCalled id now) s done s')
    (hs : s.Listed) (hkey : (s.positions id).Exists → (s.positions id).positionId = id) :
    s' = s ∨
      ((s.positions id).Exists ∧ (s.positions id).state = .opened ∧
        Moved s s' id ((s.positions id).called now) s.active
          (update s.calledPositionCounts (s.positions id).smartAccount
            (saturatingAdd 32 (s.calledPositionCounts (s.positions id).smartAccount) 1))) := by
  simp only [markCalled, rules, ok_loadPosition, ok_ite, ok_updatePositionRecord, ↓existsAndEq] at h
  obtain ⟨hex, ⟨-, -, rfl⟩ | ⟨hopen, -, hbump, -⟩⟩ := h
  · exact .inl rfl
  · simp only [bumpCalledCount, ok_modify] at hbump
    subst hbump
    refine .inr ⟨hex, hopen, ?_⟩
    have hw := Moved.write hs (p := (s.positions id).called now) (hkey hex)
    exact ⟨hw.positions, hw.active, hw.listed, rfl⟩

/-- What a successful settlement did. -/
structure SettleOutcome (s s' : Store) (id : B256) (now : Nat) (r : Settlement) (p' : Position) : Prop where
  exists_ : (s.positions id).Exists
  live : (s.positions id).state.isTerminal = false
  interest : accruedInterest (s.positions id) now = .ok r.interest
  released : gratisReleased (s.positions id) r.principalPaid = .ok r.gratisReleased
  applied : applyPayment (s.positions id) r.principalPaid r.gratisReleased
    (elapsedDays (s.positions id) now) = .ok p'
  moved : (p'.outstanding ≠ 0 ∧ Moved s s' id p' s.active s.calledPositionCounts) ∨
    (p'.outstanding = 0 ∧ Moved s s' id p' (s.active.swapRemove (s.activePositionIndex id))
      (s.countsWithout id))

/-- A payment keeps the terms of the position. -/
theorem applyPayment_eq_ok {p' : Position} :
    applyPayment p paid released days = .ok p' ↔
      paid ≤ p.outstanding ∧ released ≤ p.collateralLocked ∧
        p' = { p with
          outstanding := p.outstanding - paid
          collateralLocked := p.collateralLocked - released
          lastSettledAt := saturatingAdd 64 p.lastSettledAt (saturatingMul 64 days secondsPerDay)
          state := if p.outstanding - paid = 0 then .settled else p.state } := by
  simp only [applyPayment, laws, checked_eq_ok, checkedSub_eq_some, and_assoc, ↓existsAndEq,
    true_and]

theorem settle_cases {r : Settlement} (h : Ok (settle id amount now) s r s')
    (hs : s.Listed) (hkey : (s.positions id).Exists → (s.positions id).positionId = id)
    (hid : (s.positions id).Exists → (s.positions id).state.isTerminal = false → id ∈ s.active) :
    ∃ p', SettleOutcome s s' id now r p' := by
  simp only [settle, rules, ok_loadPosition, ok_updatePositionRecord, ↓existsAndEq,
    checked_eq_ok, Bool.not_eq_true, not_lt] at h
  obtain ⟨hex, hlive, interest, hinterest, -, released, hreleased, p', happ, -, hclose, _, -,
    rfl, -⟩ := h
  have hkey' : p'.positionId = id := by
    obtain ⟨-, -, rfl⟩ := applyPayment_eq_ok.mp happ
    exact hkey hex
  have hw := Moved.write hs hkey'
  refine ⟨p', hex, hlive, hinterest, hreleased, happ, ?_⟩
  rcases ok_when.mp hclose with ⟨hzero, hclose⟩ | ⟨hne, rfl⟩
  · simp only [rules] at hclose
    obtain ⟨t, hremove, hdrop⟩ := hclose
    have hr := hw.removeActive hremove (hid hex hlive)
    refine .inr ⟨hzero, ?_⟩
    rcases ok_when.mp hdrop with ⟨hcalled, hdrop⟩ | ⟨hcalled, rfl⟩
    · exact hr.dropCalledCount hcalled hdrop
    · rw [Store.countsWithout, if_neg hcalled]
      exact hr
  · exact .inl ⟨hne, hw⟩

/-- Voiding empties a called position past its window and takes it off the active list. -/
theorem voidPosition_cases {r : Void} (h : Ok (voidPosition id now) s r s')
    (hs : s.Listed) (hkey : (s.positions id).Exists → (s.positions id).positionId = id)
    (hid : (s.positions id).Exists → (s.positions id).state.isTerminal = false → id ∈ s.active) :
    (s.positions id).Exists ∧ (s.positions id).state = .called ∧
      r.gratisBurned = (s.positions id).collateralLocked ∧
      Moved s s' id (s.positions id).voided
        (s.active.swapRemove (s.activePositionIndex id)) (s.countsWithout id) := by
  simp only [voidPosition, rules, ok_loadPosition, ok_updatePositionRecord, ↓existsAndEq,
    checked_eq_ok] at h
  obtain ⟨hex, hcalled, -, -, _, -, _, -, -, t, hremove, hdrop, rfl, -⟩ := h
  have hw := Moved.write hs (p := (s.positions id).voided) (hkey hex)
  have hlive : (s.positions id).state.isTerminal = false := by rw [hcalled]; rfl
  exact ⟨hex, hcalled, rfl, (hw.removeActive hremove (hid hex hlive)).dropCalledCount hcalled hdrop⟩

end Rudis.Credis
