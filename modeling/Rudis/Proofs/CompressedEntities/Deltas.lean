import Rudis.Spec.CompressedEntities

/-!
# `Rudis.Proofs.CompressedEntities.Deltas`: the delta words follow the memberships

A block starts from an empty overlay over the bodies of its parent. Two facts hold in every state
that mints, updates and deletes reach. The pending words say which body an entity has now
(`currentBody`), and each delta word is exactly the difference between the current membership of
its record and the parent's (`DeltaInv`): the four statuses are an automaton whose state is that
difference.

`DeltaInv` takes the current membership as a predicate of its own, because a call writes the new
body first and moves the records one by one after it. The step lemma is about one record
(`DeltaInv.withDelta`); the loops over the records of a body follow from it, and
`consistent_run` is the run lemma.
-/

namespace Rudis.CompressedEntities

open List
open Tx
open Runs

/-! ### The parent -/

/-- The parent serves the bodies of a finalized state: authenticated leaves are the commitments of
the bodies, and a body is that of its entity, with the day of its id. -/
structure Parent.Serves (bodyCommitment : WwdEntityId → Body → Commitment) (parent : Parent)
    (bodies : EntityRef → Option Body) : Prop where
  leaf : ∀ e, parent.readParentLeafVerified e = .ok ((bodies e).map (bodyCommitment e.entityId))
  get : ∀ e, parent.get e = .ok (bodies e)
  identity : ∀ e b, bodies e = some b → b.entity = e
  dayValid : ∀ e b, bodies e = some b → b.identityDayValid = true

def MemberOf (body : Option Body) (record : IndexRecord) : Prop :=
  ∃ b, body = some b ∧ record ∈ b.memberships

def IndexRecord.entity (record : IndexRecord) : EntityRef :=
  match record.kind with
  | .tributeByOwner | .tributeByDay => .tribute record.entityId
  | .nodByOwner | .nodAll => .nodItem record.entityId

theorem entity_of_mem_memberships {body : Body} {record : IndexRecord}
    (h : record ∈ body.memberships) : record.entity = body.entity := by
  cases body with
  | nodBucket body => simp [Body.memberships] at h
  | _ body =>
    simp only [Body.memberships, mem_cons, not_mem_nil, or_false] at h
    rcases h with rfl | rfl <;> rfl

theorem nodup_memberships (body : Body) : body.memberships.Nodup := by
  cases body <;> simp [Body.memberships]

/-! ### One delta word -/

/-- A delta word is the difference between the current and the parent's membership. -/
def DeltaHolds (status : DeltaStatus) (current parent : Prop) : Prop :=
  match status with
  | .neverTouched | .noChangeTouched => (current ↔ parent)
  | .added => current ∧ ¬ parent
  | .removed => ¬ current ∧ parent

/-- The delta words of an overlay, with the records stored for the touched ones. -/
structure DeltaInv (current parent : IndexRecord → Prop) (s : Overlay) : Prop where
  nodup : s.touchedIndexDeltas.Nodup
  touched : ∀ r, r ∈ s.touchedIndexDeltas ↔ s.indexDeltaWord r ≠ .neverTouched
  stored : ∀ r ∈ s.touchedIndexDeltas, s.indexDeltaRecord r = some r
  status : ∀ r, DeltaHolds (s.indexDeltaWord r) (current r) (parent r)

/-- The overlay after a touch of a record: its word, its stored record and the list of touched
records. -/
def Overlay.withDelta (s : Overlay) (record : IndexRecord) (next : DeltaStatus) : Overlay :=
  { s with
    indexDeltaWord := Function.update s.indexDeltaWord record next
    indexDeltaRecord := Function.update s.indexDeltaRecord record (some record)
    touchedIndexDeltas :=
      if s.indexDeltaWord record = .neverTouched then s.touchedIndexDeltas ++ [record]
      else s.touchedIndexDeltas }

section Deltas

variable {current current' parent : IndexRecord → Prop} {s s' : Overlay} {record : IndexRecord}
  {next : DeltaStatus}

/-- One record moves; the others keep their membership. -/
theorem DeltaInv.withDelta (h : DeltaInv current parent s) (hnext : next ≠ .neverTouched)
    (hholds : DeltaHolds next (current' record) (parent record))
    (hother : ∀ r, r ≠ record → (current' r ↔ current r)) :
    DeltaInv current' parent (s.withDelta record next) := by
  have hmem : ∀ r, r ∈ (s.withDelta record next).touchedIndexDeltas ↔
      r = record ∨ r ∈ s.touchedIndexDeltas := by
    intro r
    simp only [Overlay.withDelta]
    split
    · simp [or_comm]
    · rename_i hword
      have hin : record ∈ s.touchedIndexDeltas := (h.touched record).mpr hword
      exact ⟨.inr, fun hor => hor.elim (fun heq => heq ▸ hin) id⟩
  refine ⟨?_, fun r => ?_, fun r hr => ?_, fun r => ?_⟩
  · simp only [Overlay.withDelta]
    split
    · rename_i hword
      have hnew : record ∉ s.touchedIndexDeltas := fun hin => (h.touched record).mp hin hword
      rw [nodup_append]
      refine ⟨h.nodup, by simp, ?_⟩
      intro a ha b hb heq
      rw [mem_singleton] at hb
      exact hnew (hb ▸ heq ▸ ha)
    · exact h.nodup
  · rw [hmem]
    by_cases hr : r = record
    · subst hr
      simp [Overlay.withDelta, hnext]
    · simp [Overlay.withDelta, hr, h.touched r]
  · rw [hmem] at hr
    by_cases heq : r = record
    · subst heq
      simp [Overlay.withDelta]
    · simp [Overlay.withDelta, heq, h.stored r (hr.resolve_left heq)]
  · by_cases heq : r = record
    · subst heq
      simpa [Overlay.withDelta] using hholds
    · have hword := h.status r
      rw [show (s.withDelta record next).indexDeltaWord r = s.indexDeltaWord r from
        update_of_ne heq _ _]
      unfold DeltaHolds at hword ⊢
      rw [hother r heq]
      exact hword

/-- What a touch and the write after it leave. -/
theorem ok_validateOrPrepareDelta {status : DeltaStatus}
    (h : Ok (validateOrPrepareDelta record) s status s') :
    status = s.indexDeltaWord record ∧
      ∀ next, { s' with indexDeltaWord := Function.update s'.indexDeltaWord record next } =
        s.withDelta record next := by
  simp only [validateOrPrepareDelta, rules] at h
  split at h
  · rename_i hword
    simp only [rules] at h
    obtain ⟨-, rfl, rfl⟩ := h
    refine ⟨rfl, fun next => ?_⟩
    simp [Overlay.withDelta, hword]
  · rename_i hword
    simp only [rules] at h
    obtain ⟨hstored, rfl, rfl⟩ := h
    refine ⟨rfl, fun next => ?_⟩
    have hsame : Function.update s'.indexDeltaRecord record (some record) =
        s'.indexDeltaRecord := by
      rw [← hstored, update_eq_self]
    simp [Overlay.withDelta, hword, hsame]

/-- A call that moves the membership of its record to `b`. -/
def Sets (call : IndexRecord → Call Overlay Unit) (b : Prop) : Prop :=
  ∀ {current current' parent : IndexRecord → Prop} {s s' : Overlay} {record : IndexRecord},
    Ok (call record) s () s' → DeltaInv current parent s → (current record ↔ ¬ b) →
    (current' record ↔ b) → (∀ r, r ≠ record → (current' r ↔ current r)) →
    DeltaInv current' parent s' ∧ ∃ next, s' = s.withDelta record next

theorem sets_applyIndex : Sets applyIndexAdd True ∧ Sets applyIndexRemove False := by
  constructor <;>
  · intro current current' parent s s' record h hinv hold hnew hother
    simp only [applyIndexAdd, applyIndexRemove, rules] at h
    obtain ⟨status, t, hprep, h⟩ := h
    obtain ⟨rfl, hwrite⟩ := ok_validateOrPrepareDelta hprep
    have hstatus := hinv.status record
    split at h
    all_goals
      rename_i hword
      simp only [writeIndexDelta, ok_modify, fatal, ok_fail] at h
    all_goals
      subst h
      rw [hwrite]
      refine ⟨hinv.withDelta (by decide) ?_ hother, _, rfl⟩
      simp only [hword, DeltaHolds, hold, hnew, not_true_eq_false, not_false_eq_true, true_iff,
        false_iff] at hstatus ⊢
      simp [hstatus]

/-- The index writes leave the pending words, bodies and identities alone. -/
structure SameBodies (s s' : Overlay) : Prop where
  word : s'.pendingWord = s.pendingWord
  body : s'.pendingBody = s.pendingBody
  identity : s'.bodyIdentity = s.bodyIdentity

theorem SameBodies.refl (s : Overlay) : SameBodies s s := ⟨rfl, rfl, rfl⟩

theorem SameBodies.trans {s t u : Overlay} (h : SameBodies s t) (h' : SameBodies t u) :
    SameBodies s u :=
  ⟨h'.word.trans h.word, h'.body.trans h.body, h'.identity.trans h.identity⟩

theorem sameBodies_withDelta : SameBodies s (s.withDelta record next) := ⟨rfl, rfl, rfl⟩

theorem DeltaInv.congr (h : DeltaInv current parent s)
    (hcur : ∀ r, current' r ↔ current r) : DeltaInv current' parent s := by
  have heq : current' = current := funext fun r => propext (hcur r)
  exact heq ▸ h

variable {l : List IndexRecord}

/-- The loop over records that all move to `b`. -/
theorem Sets.ok_forM {call : IndexRecord → Call Overlay Unit} {b : Prop} (hcall : Sets call b)
    (h : Ok (l.forM call) s () s') (hinv : DeltaInv current parent s)
    (hnd : l.Nodup) (hold : ∀ r ∈ l, (current r ↔ ¬ b)) :
    DeltaInv (fun r => r ∈ l ∧ b ∨ r ∉ l ∧ current r) parent s' ∧ SameBodies s s' := by
  induction l generalizing s current with
  | nil =>
    simp only [forM_eq_forM, forM_nil, ok_pure] at h
    obtain ⟨-, rfl⟩ := h
    exact ⟨by simpa using hinv, .refl _⟩
  | cons a l ih =>
    simp only [forM_eq_forM, forM_cons, rules] at h
    obtain ⟨t, ha, h⟩ := h
    rw [nodup_cons] at hnd
    obtain ⟨hinv', next, rfl⟩ := @hcall current (fun r => r = a ∧ b ∨ r ≠ a ∧ current r) _ _ _ _ ha
      hinv (hold a mem_cons_self) (by simp) fun r hr => by simp [hr]
    obtain ⟨hfinal, hsame⟩ := ih h hinv' hnd.2 fun r hr => by
      have hne : r ≠ a := fun heq => hnd.1 (heq ▸ hr)
      simpa [hne] using hold r (mem_cons_of_mem _ hr)
    refine ⟨?_, sameBodies_withDelta.trans hsame⟩
    convert hfinal using 2 with r
    by_cases heq : r = a <;> by_cases hin : r ∈ l <;> simp_all

/-- The loop over the records that become current. -/
theorem ok_forM_add (h : Ok (l.forM applyIndexAdd) s () s')
    (hinv : DeltaInv current parent s) (hnd : l.Nodup) (hnot : ∀ r ∈ l, ¬ current r) :
    DeltaInv (fun r => current r ∨ r ∈ l) parent s' ∧ SameBodies s s' := by
  obtain ⟨hdeltas, hsame⟩ := Sets.ok_forM sets_applyIndex.1 h hinv hnd (by simpa using hnot)
  refine ⟨hdeltas.congr fun r => ?_, hsame⟩
  by_cases hin : r ∈ l <;> simp [hin]

/-- The loop over the records that stop being current. -/
theorem ok_forM_remove (h : Ok (l.forM applyIndexRemove) s () s')
    (hinv : DeltaInv current parent s) (hnd : l.Nodup) (hcur : ∀ r ∈ l, current r) :
    DeltaInv (fun r => current r ∧ r ∉ l) parent s' ∧ SameBodies s s' := by
  obtain ⟨hdeltas, hsame⟩ := Sets.ok_forM sets_applyIndex.2 h hinv hnd (by simpa using hcur)
  exact ⟨hdeltas.congr fun r => by simp [and_comm], hsame⟩

end Deltas

/-! ### The overlay -/

def currentBody (bodies : EntityRef → Option Body) (s : Overlay) (e : EntityRef) : Option Body :=
  match s.pendingWord e with
  | .untouched => bodies e
  | .set _ => s.pendingBody e
  | .deleted => none

section Overlay

variable (bodyCommitment : WwdEntityId → Body → Commitment) (bodies : EntityRef → Option Body)
  (known : Body → Prop)

/-- The overlay of a block in progress: pending words, bodies and identities fit together, the
pending bodies are known ones, and the delta words follow the memberships. -/
structure Overlay.Consistent (s : Overlay) : Prop where
  untouched : ∀ e, s.pendingWord e = .untouched → s.pendingBody e = none ∧ s.bodyIdentity e = none
  set : ∀ e c, s.pendingWord e = .set c → s.bodyIdentity e = some e ∧
    ∃ b, s.pendingBody e = some b ∧ b.entity = e ∧ b.identityDayValid = true ∧
      bodyCommitment e.entityId b = c ∧ known b
  deleted : ∀ e, s.pendingWord e = .deleted → s.bodyIdentity e = some e ∧ s.pendingBody e = none
  deltas : DeltaInv (fun r => MemberOf (currentBody bodies s r.entity) r)
    (fun r => MemberOf (bodies r.entity) r) s

theorem consistent_empty : Overlay.Consistent bodyCommitment bodies known .empty where
  untouched := fun _ _ => ⟨rfl, rfl⟩
  set := fun _ _ h => by simp [Overlay.empty] at h
  deleted := fun _ h => by simp [Overlay.empty] at h
  deltas := ⟨nodup_nil, fun _ => by simp [Overlay.empty], fun _ h => by
    simp [Overlay.empty] at h, fun _ => Iff.rfl⟩

variable {bodyCommitment bodies known} {parent : Parent} {s s' : Overlay} {e : EntityRef}

variable {b : Body}

section Consistent

variable (h : s.Consistent bodyCommitment bodies known)

include h

/-- Every pending record of a consistent overlay passes the checks of `pending`. -/
theorem pending_eq (e : EntityRef) : s.pending e = .ok (s.pendingWord e, s.pendingBody e) := by
  unfold Overlay.pending
  cases hword : s.pendingWord e with
  | untouched => simp [h.untouched e hword, throwIf, bind, Except.bind, pure, Except.pure]
  | set c =>
    obtain ⟨hid, b, hbody, -⟩ := h.set e c hword
    simp [hbody, hid, throwIf, bind, Except.bind, pure, Except.pure]
  | deleted => simp [h.deleted e hword, throwIf, bind, Except.bind, pure, Except.pure]

theorem currentBody_cases (hb : currentBody bodies s e = some b) :
    bodies e = some b ∨ b.entity = e ∧ b.identityDayValid = true ∧ known b := by
  unfold currentBody at hb
  split at hb
  · exact .inl hb
  · rename_i c hword
    obtain ⟨-, b', hbody, hentity, hday, -, hknown⟩ := h.set e c hword
    rw [hbody, Option.some.injEq] at hb
    exact .inr (hb ▸ ⟨hentity, hday, hknown⟩)
  · simp at hb

theorem currentBody_spec (hserves : parent.Serves bodyCommitment bodies)
    (hb : currentBody bodies s e = some b) : b.entity = e ∧ b.identityDayValid = true := by
  obtain hb | ⟨hentity, hday, -⟩ := currentBody_cases h hb
  exacts [⟨hserves.identity e b hb, hserves.dayValid e b hb⟩, ⟨hentity, hday⟩]

theorem currentCommitment_eq (hserves : parent.Serves bodyCommitment bodies) (e : EntityRef) :
    currentCommitment bodyCommitment parent s e =
      .ok ((currentBody bodies s e).map (bodyCommitment e.entityId)) := by
  unfold currentCommitment currentBody
  rw [pending_eq h]
  cases hword : s.pendingWord e with
  | untouched => exact hserves.leaf e
  | set c =>
    obtain ⟨-, b, hbody, hentity, hday, hcommit, -⟩ := h.set e c hword
    simp [hbody, okOr, verifyStored, hentity, hday, hcommit, bind, Except.bind, pure, Except.pure]
  | deleted => rfl

/-- A known body is determined by its entity and its commitment. -/
def CollisionFree (bodyCommitment : WwdEntityId → Body → Commitment) (known : Body → Prop) : Prop :=
  ∀ b b', known b → known b' → b.entity = b'.entity →
    bodyCommitment b.entity.entityId b = bodyCommitment b'.entity.entityId b' → b = b'

/-- A verified body that is still current is the current body. -/
theorem capability_current (hserves : parent.Serves bodyCommitment bodies)
    (hbodies : ∀ e b, bodies e = some b → known b) (hfree : CollisionFree bodyCommitment known)
    {current : VerifiedBody bodyCommitment} (hknown : known current.body)
    (hreq : requireCapabilityCurrent bodyCommitment parent s current = .ok ()) :
    currentBody bodies s current.entity = some current.body := by
  unfold requireCapabilityCurrent at hreq
  rw [currentCommitment_eq h hserves] at hreq
  simp only [laws, Except.ok.injEq, exists_eq_left', not_not, Option.map_eq_some_iff] at hreq
  obtain ⟨c, ⟨b, hb, rfl⟩, hcommit⟩ := hreq
  have hentity := (currentBody_spec h hserves hb).1
  have hbknown : known b := (currentBody_cases h hb).elim (hbodies _ b) (·.2.2)
  have heq : b = current.body := by
    refine hfree b current.body hbknown hknown (hentity.trans current.identity.symm) ?_
    rw [hentity, current.identity, hcommit, current.committed]
  exact heq ▸ hb

/-! ### The three calls -/

/-- The overlay after the first touch of an entity and the write of its pending word and body. -/
structure Replaced (s : Overlay) (e : EntityRef) (word : PendingWord) (body : Option Body)
    (u : Overlay) : Prop where
  word : u.pendingWord = Function.update s.pendingWord e word
  body : u.pendingBody = Function.update s.pendingBody e body
  identity : u.bodyIdentity = Function.update s.bodyIdentity e (some e)
  deltaWord : u.indexDeltaWord = s.indexDeltaWord
  deltaRecord : u.indexDeltaRecord = s.indexDeltaRecord
  deltaTouched : u.touchedIndexDeltas = s.touchedIndexDeltas

variable {t u : Overlay}

/-- The first touch records the identity; a later one finds it recorded. -/
theorem ok_prepareBodyTouch (hprep : Ok (prepareBodyTouch e) s () t) :
    ∃ touched, t = { s with bodyIdentity := Function.update s.bodyIdentity e (some e),
                            touched := touched } := by
  simp only [prepareBodyTouch, pending_eq h, Except.ok.injEq, rules] at hprep
  rw [ok_when] at hprep
  rcases hprep with ⟨-, hmod⟩ | ⟨hword, rfl⟩
  · rw [ok_modify] at hmod
    exact ⟨_, hmod⟩
  · have hid : t.bodyIdentity e = some e := by
      cases hcase : t.pendingWord e with
      | untouched => exact absurd hcase hword
      | set c => exact (h.set e c hcase).1
      | deleted => exact (h.deleted e hcase).1
    refine ⟨t.touched, ?_⟩
    rw [← hid, update_eq_self]

theorem replaced_set {c : Commitment} (hprep : Ok (prepareBodyTouch e) s () t)
    (hset : Ok (setPendingPrepared e c b) t () u) : Replaced s e (.set c) (some b) u := by
  obtain ⟨touched, rfl⟩ := ok_prepareBodyTouch h hprep
  simp only [setPendingPrepared, rules] at hset
  obtain ⟨_, _, ⟨rfl, rfl⟩, _, ⟨-, rfl⟩, rfl⟩ := hset
  exact ⟨rfl, rfl, rfl, rfl, rfl, rfl⟩

theorem replaced_deleted (hprep : Ok (prepareBodyTouch e) s () t)
    (hset : Ok (setDeletedPrepared e) t () u) : Replaced s e .deleted none u := by
  obtain ⟨touched, rfl⟩ := ok_prepareBodyTouch h hprep
  simp only [setDeletedPrepared, rules] at hset
  obtain ⟨_, _, ⟨rfl, rfl⟩, _, ⟨-, rfl⟩, rfl⟩ := hset
  exact ⟨rfl, rfl, rfl, rfl, rfl, rfl⟩

end Consistent

variable {word : PendingWord} {body : Option Body}

theorem Replaced.deltaInv {current par : IndexRecord → Prop}
    {u : Overlay} (hr : Replaced s e word body u)
    (h : DeltaInv current par s) : DeltaInv current par u := by
  constructor <;> simp only [hr.deltaTouched, hr.deltaWord, hr.deltaRecord]
  exacts [h.nodup, h.touched, h.stored, h.status]

/-- What a call wrote for its entity: a committed known body, or a deletion. -/
def ValidWrite (bodyCommitment : WwdEntityId → Body → Commitment) (known : Body → Prop)
    (e : EntityRef) (word : PendingWord) (body : Option Body) : Prop :=
  (∃ b, word = .set (bodyCommitment e.entityId b) ∧ body = some b ∧ b.entity = e ∧
    b.identityDayValid = true ∧ known b) ∨ (word = .deleted ∧ body = none)

theorem currentBody_replaced {u : Overlay}
    (hr : Replaced s e word body u) (hw : ValidWrite bodyCommitment known e word body)
    (hsame : SameBodies u s') (x : EntityRef) :
    currentBody bodies s' x = if x = e then body else currentBody bodies s x := by
  unfold currentBody
  rw [hsame.word, hsame.body, hr.word, hr.body]
  by_cases hx : x = e
  · subst hx
    rcases hw with ⟨b, rfl, rfl, -⟩ | ⟨rfl, rfl⟩ <;> simp
  · simp [hx]

/-- A call that wrote its entity and moved the records of the old and the new body leaves a
consistent overlay. -/
theorem consistent_of_replaced (h : s.Consistent bodyCommitment bodies known)
    {u : Overlay} (hr : Replaced s e word body u)
    (hw : ValidWrite bodyCommitment known e word body) (hsame : SameBodies u s')
    {current : IndexRecord → Prop}
    (hdeltas : DeltaInv current (fun r => MemberOf (bodies r.entity) r) s')
    (hcurrent : ∀ r, MemberOf (if r.entity = e then body else currentBody bodies s r.entity) r ↔
      current r) : s'.Consistent bodyCommitment bodies known := by
  have hword := hsame.word.trans hr.word
  have hbody := hsame.body.trans hr.body
  have hid := hsame.identity.trans hr.identity
  refine ⟨fun x hx => ?_, fun x c hx => ?_, fun x hx => ?_, ?_⟩
  · by_cases hxe : x = e
    · rw [hword, hxe, update_self] at hx
      rcases hw with ⟨b, rfl, -⟩ | ⟨rfl, -⟩ <;> cases hx
    · simp only [hword, hbody, hid, update_of_ne hxe] at hx ⊢
      exact h.untouched x hx
  · by_cases hxe : x = e
    · subst hxe
      simp only [hword, hbody, hid, update_self] at hx ⊢
      rcases hw with ⟨b, rfl, rfl, hentity, hday, hknown⟩ | ⟨rfl, -⟩ <;> cases hx
      exact ⟨trivial, b, rfl, hentity, hday, rfl, hknown⟩
    · simp only [hword, hbody, hid, update_of_ne hxe] at hx ⊢
      exact h.set x c hx
  · by_cases hxe : x = e
    · subst hxe
      simp only [hword, hbody, hid, update_self] at hx ⊢
      rcases hw with ⟨b, rfl, -⟩ | ⟨-, rfl⟩
      · cases hx
      · exact ⟨trivial, rfl⟩
    · simp only [hword, hbody, hid, update_of_ne hxe] at hx ⊢
      exact h.deleted x hx
  · refine hdeltas.congr fun r => ?_
    rw [currentBody_replaced hr hw hsame]
    exact hcurrent r

variable {r : IndexRecord}

theorem memberOf_some : MemberOf (some b) r ↔ r ∈ b.memberships := by
  simp [MemberOf]

theorem memberOf_current (hcurrent : currentBody bodies s e = some b) (hr : r.entity = e) :
    MemberOf (currentBody bodies s r.entity) r ↔ r ∈ b.memberships := by
  rw [hr, hcurrent, memberOf_some]

@[simp] theorem not_memberOf_none : ¬ MemberOf none r := by simp [MemberOf]

section

variable (hserves : parent.Serves bodyCommitment bodies)

include hserves

/-- A successful mint keeps the overlay consistent. -/
theorem mint_consistent (h : s.Consistent bodyCommitment bodies known) (hknown : known b)
    (hmint : Ok (mint bodyCommitment parent b) s () s') :
    s'.Consistent bodyCommitment bodies known := by
  simp only [mint, prepareInput, throwIf_eq_ok, rules] at hmint
  obtain ⟨hday, _, hcurrent, hnone, t, hprep, u, hset, hloop⟩ := hmint
  rw [currentCommitment_eq h hserves, Except.ok.injEq] at hcurrent
  subst hcurrent
  have hr := replaced_set h hprep hset
  have habsent : currentBody bodies s b.entity = none := by simpa using hnone
  obtain ⟨hdeltas, hsame⟩ := ok_forM_add hloop (hr.deltaInv h.deltas) (nodup_memberships b) (by
    intro r hmem
    rw [entity_of_mem_memberships hmem, habsent]
    exact not_memberOf_none)
  refine consistent_of_replaced h hr
    (.inl ⟨b, rfl, rfl, rfl, by simpa using hday, hknown⟩) hsame hdeltas fun r => ?_
  by_cases hre : r.entity = b.entity
  · rw [if_pos hre, hre, habsent, memberOf_some]
    simp
  · rw [if_neg hre]
    exact ⟨.inl, fun hor => hor.resolve_right fun hmem => hre (entity_of_mem_memberships hmem)⟩

variable {old : VerifiedBody bodyCommitment}

/-- A successful update with a current capability keeps the overlay consistent. -/
theorem update_consistent (hbodies : ∀ e b, bodies e = some b → known b)
    (hfree : CollisionFree bodyCommitment known)
    (h : s.Consistent bodyCommitment bodies known)
    (hold : known old.body) (hknown : known b)
    (hupdate : Ok (update bodyCommitment parent old b) s () s') :
    s'.Consistent bodyCommitment bodies known := by
  simp only [update, prepareInput, throwIf_eq_ok, rules] at hupdate
  obtain ⟨hday, hentity, hcap, t, hprep, u, hset, v, hremove, hadd⟩ := hupdate
  have hr := replaced_set h hprep hset
  have hcurrent := capability_current h hserves hbodies hfree hold hcap
  rw [hentity] at hcurrent
  have holdEntity : old.body.entity = b.entity := old.identity.trans hentity
  obtain ⟨hdeltas, hsame⟩ := ok_forM_remove hremove (hr.deltaInv h.deltas)
    ((nodup_memberships _).filter _) (by
      intro r hmem
      have hin := (mem_filter.mp hmem).1
      exact (memberOf_current hcurrent ((entity_of_mem_memberships hin).trans holdEntity)).mpr hin)
  obtain ⟨hdeltas', hsame'⟩ := ok_forM_add hadd hdeltas ((nodup_memberships _).filter _) (by
      rintro r hmem ⟨hcur, -⟩
      obtain ⟨hin, hnew⟩ := mem_filter.mp hmem
      exact (by simpa using hnew : r ∉ old.body.memberships)
        ((memberOf_current hcurrent (entity_of_mem_memberships hin)).mp hcur))
  refine consistent_of_replaced h hr
    (.inl ⟨b, rfl, rfl, rfl, by simpa using hday, hknown⟩) (hsame.trans hsame') hdeltas' fun r => ?_
  simp only [mem_filter, decide_eq_true_eq, not_and, not_not]
  by_cases hre : r.entity = b.entity
  · rw [if_pos hre, memberOf_current hcurrent hre, memberOf_some]
    constructor
    · intro hin
      by_cases hinOld : r ∈ old.body.memberships
      · exact .inl ⟨hinOld, fun _ => hin⟩
      · exact .inr ⟨hin, hinOld⟩
    · rintro (⟨hinOld, hkeep⟩ | ⟨hin, -⟩)
      · exact hkeep hinOld
      · exact hin
  · have hnotOld : r ∉ old.body.memberships := fun hin =>
      hre ((entity_of_mem_memberships hin).trans holdEntity)
    have hnotNew : r ∉ b.memberships := fun hin => hre (entity_of_mem_memberships hin)
    rw [if_neg hre]
    simp [hnotOld, hnotNew]

/-- A successful deletion with a current capability keeps the overlay consistent. -/
theorem delete_consistent (hbodies : ∀ e b, bodies e = some b → known b)
    (hfree : CollisionFree bodyCommitment known)
    (h : s.Consistent bodyCommitment bodies known)
    (hold : known old.body) (hdelete : Ok (delete bodyCommitment parent old) s () s') :
    s'.Consistent bodyCommitment bodies known := by
  simp only [delete, rules] at hdelete
  obtain ⟨hcap, t, hprep, u, hset, hremove⟩ := hdelete
  have hr := replaced_deleted h hprep hset
  have hcurrent := capability_current h hserves hbodies hfree hold hcap
  obtain ⟨hdeltas, hsame⟩ := ok_forM_remove hremove (hr.deltaInv h.deltas) (nodup_memberships _) (by
    intro r hin
    exact (memberOf_current hcurrent ((entity_of_mem_memberships hin).trans old.identity)).mpr hin)
  refine consistent_of_replaced h hr (.inr ⟨rfl, rfl⟩) hsame hdeltas fun r => ?_
  by_cases hre : r.entity = old.entity
  · rw [if_pos hre, memberOf_current hcurrent hre]
    simp
  · have hnotOld : r ∉ old.body.memberships := fun hin =>
      hre ((entity_of_mem_memberships hin).trans old.identity)
    rw [if_neg hre]
    simp [hnotOld]

/-! ### Runs -/

variable (bodyCommitment parent)

/-- A call of a block. -/
inductive Change where
  | mint (body : Body)
  | update (current : VerifiedBody bodyCommitment) (body : Body)
  | delete (current : VerifiedBody bodyCommitment)

def Change.call : Change bodyCommitment → Call Overlay Unit
  | .mint body => CompressedEntities.mint bodyCommitment parent body
  | .update current body => CompressedEntities.update bodyCommitment parent current body
  | .delete current => CompressedEntities.delete bodyCommitment parent current

/-- One call; a failed one is rolled back. -/
def Change.step (change : Change bodyCommitment) (s : Overlay) : Overlay :=
  (Tx.run (checkpoint (change.call bodyCommitment parent)) s).2

def Change.named : Change bodyCommitment → List Body
  | .mint body => [body]
  | .update current body => [current.body, body]
  | .delete current => [current.body]

/-- The bodies of the parent and of the calls of a block. -/
def KnownBody (bodies : EntityRef → Option Body) (changes : List (Change bodyCommitment))
    (b : Body) : Prop :=
  (∃ e, bodies e = some b) ∨ ∃ change ∈ changes, b ∈ change.named

variable {bodyCommitment parent}

theorem step_consistent (hbodies : ∀ e b, bodies e = some b → known b)
    (hfree : CollisionFree bodyCommitment known)
    (change : Change bodyCommitment) (hknown : ∀ b ∈ change.named, known b)
    (h : s.Consistent bodyCommitment bodies known) :
    (change.step bodyCommitment parent s).Consistent bodyCommitment bodies known := by
  unfold Change.step
  rcases checkpoint_cases (change.call bodyCommitment parent) s with ⟨⟨⟩, hok⟩ | hrun
  · cases change with
    | mint b => exact mint_consistent hserves h (hknown b (by simp [Change.named])) hok
    | update old b =>
      exact update_consistent hserves hbodies hfree h (hknown old.body (by simp [Change.named]))
        (hknown b (by simp [Change.named])) hok
    | delete old =>
      exact delete_consistent hserves hbodies hfree h (hknown old.body (by simp [Change.named])) hok
  · rw [hrun]
    exact h

/-- Every overlay a block reaches is consistent. -/
theorem consistent_run (changes : List (Change bodyCommitment))
    (hfree : CollisionFree bodyCommitment (KnownBody bodyCommitment bodies changes)) :
    (run (Change.step bodyCommitment parent) changes .empty).Consistent bodyCommitment bodies
      (KnownBody bodyCommitment bodies changes) := by
  have halong : Along (Change.step bodyCommitment parent) (fun change _ => change ∈ changes) changes
      .empty := along_of_forall_mem (fun _ hin _ => hin) _
  refine run_inv _ ?_ halong (consistent_empty _ _ _)
  intro change s hin h
  exact step_consistent hserves (fun e b hb => .inl ⟨e, hb⟩) hfree change
    (fun b hb => .inr ⟨change, hin, hb⟩) h

end

end Overlay

end Rudis.CompressedEntities
