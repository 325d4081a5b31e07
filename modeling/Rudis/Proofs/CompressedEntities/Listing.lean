import Rudis.Lib.Lists
import Rudis.Lib.Paging
import Rudis.Proofs.CompressedEntities.Deltas

/-!
# `Rudis.Proofs.CompressedEntities.Listing`: a listing returns exactly the current members

`list` merges two sources: the ids on the pages of the finalized parent, and the ids whose delta
word says that the block added or removed them. The parent's pages are any that `IsPage` allows:
strictly ascending ids after the cursor, none left out up to the last one, and a continuation
unless nothing is left.

* `collect_deltas`: the delta scan finds the ids that are members now and were not, and those
  that were and are not.
* `scanParent_spec`: the walk over the parent's pages ends, with the parent exhausted or with a
  page that has reached the candidate after the result page. Either way the first candidates are
  the first members (`selected_eq`).
* `list_spec` is one page, `listFrom_spec` the pages one after the other, and `listing_exact` the
  result for every state a block reaches.
-/

namespace Rudis.CompressedEntities

open List
open Runs

/-! ### Queries and records -/

def QueryRef.record : QueryRef → WwdEntityId → IndexRecord
  | .tributeByOwner owner, id => ⟨.tributeByOwner, .owner owner, id⟩
  | .tributeByDay day, id => ⟨.tributeByDay, .day day, id⟩
  | .nodByOwner owner, id => ⟨.nodByOwner, .owner owner, id⟩
  | .nodAll, id => ⟨.nodAll, .all, id⟩

def Satisfies (body : Option Body) (query : QueryRef) : Prop :=
  ∃ b, body = some b ∧ bodyMatchesQuery b query = true

theorem recordMatchesQuery_iff {record : IndexRecord} {query : QueryRef} :
    recordMatchesQuery record query = true ↔ record = query.record record.entityId := by
  obtain ⟨kind, partition, id⟩ := record
  cases query <;> simp [recordMatchesQuery, QueryRef.record]

theorem record_entity (query : QueryRef) (id : WwdEntityId) :
    (query.record id).entity = entityForQuery query id := by
  cases query <;> rfl

variable {b : Body}

/-- A body of the listed entity satisfies the query when it has the query's record. -/
theorem bodyMatchesQuery_iff {query : QueryRef} {id : WwdEntityId}
    (h : b.entity = entityForQuery query id) :
    bodyMatchesQuery b query = true ↔ query.record id ∈ b.memberships := by
  cases query <;> cases b <;>
    simp only [entityForQuery, Body.entity, EntityRef.tribute.injEq, EntityRef.nodItem.injEq,
      reduceCtorEq] at h <;>
    subst h <;>
    simp only [bodyMatchesQuery, QueryRef.record, Body.memberships, mem_cons,
      IndexRecord.mk.injEq, Partition.owner.injEq, Partition.day.injEq, beq_iff_eq, reduceCtorEq,
      false_and, and_true, true_and, not_mem_nil, or_false, false_or]
  all_goals exact eq_comm

/-- A tribute listed under a day has the day as the prefix of its id. -/
theorem day_of_satisfies {day : WorldwideDay} {id : WwdEntityId}
    (hentity : b.entity = entityForQuery (.tributeByDay day) id) (hvalid : b.identityDayValid = true)
    (h : bodyMatchesQuery b (.tributeByDay day) = true) : worldwideDay id = day := by
  cases b <;> simp_all [entityForQuery, Body.entity, bodyMatchesQuery, Body.identityDayValid]

/-! ### The parent's pages -/

/-- A page of the ids with a property, after a cursor. -/
structure IsPage (listed : WwdEntityId → Prop) (request : IdPageRequest) (page : IdPage) :
    Prop where
  length : page.ids.length ≤ request.limit
  ascending : page.ids.Pairwise (· < ·)
  after : ∀ id ∈ page.ids, isAfter request.after id = true
  member : ∀ id ∈ page.ids, listed id
  complete : ∀ id, listed id → isAfter request.after id = true →
    (page.nextAfter = none ∨ ∃ last, page.ids.getLast? = some last ∧ id ≤ last) → id ∈ page.ids
  next : ∀ cursor, page.nextAfter = some cursor → page.ids.getLast? = some cursor

/-- The parent returns, for each query, pages of exactly the ids whose body satisfies it. -/
def Parent.ListsExactly (parent : Parent) (bodies : EntityRef → Option Body) : Prop :=
  ∀ query request, 1 ≤ request.limit → request.limit ≤ maxIdPageLimit →
    ∃ page, parent.list query request = .ok page ∧
      IsPage (fun id => Satisfies (bodies (entityForQuery query id)) query) request page

/-! ### The ids with a property, in order -/

section Ascending

open Classical in
/-- The ids with a property, ascending. Sealed, so that no proof lists them. -/
@[irreducible] noncomputable def ascending (p : WwdEntityId → Prop) : List WwdEntityId :=
  (List.finRange (2 ^ 256)).filter fun id => decide (p id)

variable {p : WwdEntityId → Prop}

theorem mem_ascending {id : WwdEntityId} : id ∈ ascending p ↔ p id := by
  unfold ascending
  simp

theorem pairwise_ascending (p : WwdEntityId → Prop) : (ascending p).Pairwise (· < ·) := by
  unfold ascending
  exact (sortedLT_finRange _).pairwise.filter _

theorem eq_ascending {l : List WwdEntityId} (h : l.Pairwise (· < ·))
    (hmem : ∀ id, id ∈ l ↔ p id) : l = ascending p :=
  List.SortedLT.eq_of_mem_iff h.sortedLT (pairwise_ascending p).sortedLT fun id =>
    (hmem id).trans mem_ascending.symm

end Ascending

theorem isAfter_of_lt {after : Option WwdEntityId} {m id : WwdEntityId}
    (hm : isAfter after m = true) (hlt : m < id) : isAfter after id = true := by
  cases after with
  | none => rfl
  | some c =>
    simp only [isAfter, decide_eq_true_eq] at hm ⊢
    exact hm.trans hlt

theorem getLast_ge {l : List WwdEntityId} (h : l.Pairwise (· < ·)) {last : WwdEntityId}
    (hlast : l.getLast? = some last) : ∀ id ∈ l, id ≤ last := by
  obtain ⟨front, rfl⟩ := getLast?_eq_some_iff.mp hlast
  rw [pairwise_append] at h
  intro id hid
  rcases mem_append.mp hid with hid | hid
  · exact (h.2.2 id hid last (mem_singleton_self _)).le
  · exact (mem_singleton.mp hid).le

/-! ### Deltas of a query -/

section List

variable {bodyCommitment : WwdEntityId → Body → Commitment} {bodies : EntityRef → Option Body}
  {known : Body → Prop} {parent : Parent} {s : Overlay} {query : QueryRef}
  {current member : WwdEntityId → Prop} {after cursor : Option WwdEntityId} {deltas : Deltas}

theorem indexDeltas_eq {cur par : IndexRecord → Prop} (h : DeltaInv cur par s) :
    s.indexDeltas = .ok (s.touchedIndexDeltas.map fun r => (r, s.indexDeltaWord r)) := by
  have hone : ∀ r ∈ s.touchedIndexDeltas, s.indexDelta r = .ok (r, s.indexDeltaWord r) := by
    intro r hr
    have hword := (h.touched r).mp hr
    simp [Overlay.indexDelta, h.stored r hr, hword]
  unfold Overlay.indexDeltas
  rw [Except.mapM_of_forall hone]
  simp [h.nodup]

/-- The ids after the cursor that became members, and those that stopped being members. -/
structure Deltas.Exact (current member : WwdEntityId → Prop) (after : Option WwdEntityId)
    (deltas : Deltas) : Prop where
  added : ∀ id, id ∈ deltas.added ↔ isAfter after id = true ∧ current id ∧ ¬ member id
  removed : ∀ id, id ∈ deltas.removed ↔ isAfter after id = true ∧ ¬ current id ∧ member id

/-- The ids of a query whose records have a delta word. -/
def found (query : QueryRef) (after : Option WwdEntityId) (word : IndexRecord → DeltaStatus)
    (status : DeltaStatus) (l : List IndexRecord) : Finset WwdEntityId :=
  ((l.filter fun r => recordMatchesQuery r query && isAfter after r.entityId &&
    decide (word r = status)).map (·.entityId)).toFinset

variable {word : IndexRecord → DeltaStatus} {l : List IndexRecord} {id : WwdEntityId}

theorem mem_found {status : DeltaStatus} : id ∈ found query after word status l ↔
    query.record id ∈ l ∧ isAfter after id = true ∧ word (query.record id) = status := by
  have hid : (query.record id).entityId = id := by cases query <;> rfl
  simp only [found, mem_toFinset, mem_map, mem_filter, Bool.and_eq_true,
    recordMatchesQuery_iff, decide_eq_true_eq]
  constructor
  · rintro ⟨r, ⟨hr, ⟨hrec, hafter⟩, hword⟩, rfl⟩
    rw [← hrec]
    exact ⟨hr, hafter, hword⟩
  · rintro ⟨hr, hafter, hword⟩
    exact ⟨_, ⟨hr, ⟨by rw [hid], hid.symm ▸ hafter⟩, hword⟩, hid⟩

/-- The scan over the touched records collects the added and removed ids of the query. -/
theorem foldlM_collectDelta (hl : ∀ r ∈ l, word r ≠ .neverTouched) (d : Deltas) :
    (l.map fun r => (r, word r)).foldlM (collectDelta query after) d = .ok
      ⟨d.added ∪ found query after word .added l, d.removed ∪ found query after word .removed l⟩ := by
  induction l generalizing d with
  | nil => simp [found]
  | cons r l ih =>
    have hrest := ih fun r' hr' => hl r' (mem_cons_of_mem _ hr')
    have hr := hl r mem_cons_self
    rw [map_cons, foldlM_cons, collectDelta]
    by_cases hmatch : (recordMatchesQuery r query && isAfter after r.entityId) = true
    · rw [if_pos hmatch]
      cases hword : word r with
      | neverTouched => exact absurd hword hr
      | added | removed | noChangeTouched =>
        refine (hrest _).trans ?_
        simp [found, hmatch, hword]
    · rw [if_neg hmatch]
      refine (hrest _).trans ?_
      simp [found, hmatch]

def CurrentMember (bodies : EntityRef → Option Body) (s : Overlay) (query : QueryRef)
    (id : WwdEntityId) : Prop :=
  Satisfies (currentBody bodies s (entityForQuery query id)) query

def ParentMember (bodies : EntityRef → Option Body) (query : QueryRef) (id : WwdEntityId) : Prop :=
  Satisfies (bodies (entityForQuery query id)) query

variable {body : Option Body}

theorem satisfies_iff_memberOf (h : ∀ b, body = some b → b.entity = entityForQuery query id) :
    Satisfies body query ↔ MemberOf body (query.record id) := by
  constructor
  · rintro ⟨b, hb, hmatch⟩
    exact ⟨b, hb, (bodyMatchesQuery_iff (h b hb)).mp hmatch⟩
  · rintro ⟨b, hb, hmem⟩
    exact ⟨b, hb, (bodyMatchesQuery_iff (h b hb)).mpr hmem⟩

/-- The delta word of a query's record is the difference of the two memberships. -/
theorem deltaHolds_query (hserves : parent.Serves bodyCommitment bodies)
    (h : s.Consistent bodyCommitment bodies known) (query : QueryRef) (id : WwdEntityId) :
    DeltaHolds (s.indexDeltaWord (query.record id)) (CurrentMember bodies s query id)
      (ParentMember bodies query id) := by
  have hstatus := h.deltas.status (query.record id)
  rw [record_entity] at hstatus
  have hcur : CurrentMember bodies s query id ↔
      MemberOf (currentBody bodies s (entityForQuery query id)) (query.record id) :=
    satisfies_iff_memberOf fun b hb => (currentBody_spec h hserves hb).1
  have hpar : ParentMember bodies query id ↔
      MemberOf (bodies (entityForQuery query id)) (query.record id) :=
    satisfies_iff_memberOf fun b hb => hserves.identity _ b hb
  rw [propext hcur, propext hpar]
  exact hstatus

variable {ids : List WwdEntityId}

/-- The delta scan of a listing is exact. -/
theorem collect_deltas (hserves : parent.Serves bodyCommitment bodies)
    (h : s.Consistent bodyCommitment bodies known) (query : QueryRef) (after : Option WwdEntityId) :
    ∃ records deltas, s.indexDeltas = .ok records ∧
      records.foldlM (collectDelta query after) ⟨∅, ∅⟩ = .ok deltas ∧
      deltas.Exact (CurrentMember bodies s query) (ParentMember bodies query) after := by
  refine ⟨_, _, indexDeltas_eq h.deltas,
    foldlM_collectDelta (fun r hr => (h.deltas.touched r).mp hr) ⟨∅, ∅⟩,
    fun id => ?_, fun id => ?_⟩ <;>
  · have hholds := deltaHolds_query hserves h query id
    simp only [Finset.empty_union, mem_found, h.deltas.touched]
    cases hword : s.indexDeltaWord (query.record id) <;> rw [hword] at hholds <;>
      simp only [DeltaHolds] at hholds <;> simp <;> grind

/-! ### The walk over the parent's pages -/

theorem validateParentIds_ok (hasc : ids.Pairwise (· < ·))
    (hafter : ∀ id ∈ ids, isAfter cursor id = true)
    (hday : ∀ id ∈ ids, requireDayPrefix query id = .ok ()) :
    validateParentIds query cursor ids = .ok () := by
  induction ids generalizing cursor with
  | nil => rfl
  | cons id ids ih =>
    rw [pairwise_cons] at hasc
    have hrest : validateParentIds query (some id) ids = .ok () := by
      refine ih hasc.2 (fun x hx => ?_) fun x hx => hday x (mem_cons_of_mem _ hx)
      show decide (id < x) = true
      exact decide_eq_true (hasc.1 x hx)
    rw [validateParentIds, hday id mem_cons_self, hrest]
    simp [hafter id mem_cons_self]

variable {limit : Nat}

theorem validateParentPage_ok {page : IdPage}
    (hpage : IsPage member { after := cursor, limit := limit } page)
    (hday : ∀ id, member id → requireDayPrefix query id = .ok ()) :
    validateParentPage query cursor limit page = .ok () := by
  have hids : validateParentIds query cursor page.ids = .ok () :=
    validateParentIds_ok hpage.ascending hpage.after fun id hid => hday id (hpage.member id hid)
  have hcontinuation : validateContinuation page = .ok () := by
    unfold validateContinuation
    cases hnext : page.nextAfter with
    | none => rfl
    | some next => simp [hpage.next next hnext]
  have hlength : ¬ limit < page.ids.length := not_lt.mpr hpage.length
  unfold validateParentPage
  rw [hids, hcontinuation]
  simp [hlength]

/-- The loop over the ids of a page. -/
theorem foldlM_observeId (deltas : Deltas) (hadded : ∀ id ∈ ids, id ∉ deltas.added)
    (hnd : ids.Nodup) (scan : Scan) (hnew : ∀ id ∈ ids, id ∉ scan.parentSeen) :
    ∃ scan', ids.foldlM (observeId deltas) scan = .ok scan' ∧
      scan'.parentSeen = scan.parentSeen ∪ ids.toFinset ∧
      scan'.observedRemoved = scan.observedRemoved ∪ ids.toFinset ∩ deltas.removed := by
  induction ids generalizing scan with
  | nil => exact ⟨scan, rfl, by simp, by simp⟩
  | cons x ids ih =>
    rw [nodup_cons] at hnd
    rw [foldlM_cons, show observeId deltas scan x = .ok { scan with
        parentSeen := insert x scan.parentSeen
        observedRemoved := if x ∈ deltas.removed then insert x scan.observedRemoved
          else scan.observedRemoved } by
      simp [observeId, hadded x mem_cons_self, hnew x mem_cons_self]]
    obtain ⟨scan', hfold, hseen, hobserved⟩ := ih
      (fun id hid => hadded id (mem_cons_of_mem _ hid)) hnd.2 { scan with
        parentSeen := insert x scan.parentSeen
        observedRemoved := if x ∈ deltas.removed then insert x scan.observedRemoved
          else scan.observedRemoved } (by
        intro id hid hin
        rcases Finset.mem_insert.mp hin with rfl | hin
        · exact hnd.1 hid
        · exact hnew id (mem_cons_of_mem _ hid) hin)
    refine ⟨scan', hfold, ?_, ?_⟩
    · rw [hseen]
      simp
    · rw [hobserved]
      by_cases hx : x ∈ deltas.removed
      · simp [hx, Finset.insert_inter_of_mem]
      · simp [hx, Finset.insert_inter_of_notMem]

/-- What a walk has seen of the parent: the members after the initial cursor that `reached`
describes, and which of them were removed. -/
structure ScanInv (member : WwdEntityId → Prop) (after : Option WwdEntityId) (deltas : Deltas)
    (reached : WwdEntityId → Prop) (scan : Scan) : Prop where
  seen : ∀ id, id ∈ scan.parentSeen ↔ member id ∧ isAfter after id = true ∧ reached id
  observed : ∀ id, id ∈ scan.observedRemoved ↔ id ∈ deltas.removed ∧ reached id

variable {reached reached' : WwdEntityId → Prop} {scan scan' : Scan}

/-- One page moves the walk on: what was reached is what was before, and the ids of the page. -/
theorem ScanInv.page (hexact : deltas.Exact current member after)
    (h : ScanInv member after deltas reached scan)
    (hseen : scan'.parentSeen = scan.parentSeen ∪ ids.toFinset)
    (hobserved : scan'.observedRemoved = scan.observedRemoved ∪ ids.toFinset ∩ deltas.removed)
    (hreached : ∀ id, member id → isAfter after id = true → (reached' id ↔ reached id ∨ id ∈ ids))
    (hids : ∀ id ∈ ids, member id ∧ isAfter after id = true) :
    ScanInv member after deltas reached' scan' := by
  refine ⟨fun id => ?_, fun id => ?_⟩
  · rw [hseen, Finset.mem_union, mem_toFinset, h.seen]
    constructor
    · rintro (⟨hm, ha, hr⟩ | hid)
      · exact ⟨hm, ha, (hreached id hm ha).mpr (.inl hr)⟩
      · obtain ⟨hm, ha⟩ := hids id hid
        exact ⟨hm, ha, (hreached id hm ha).mpr (.inr hid)⟩
    · rintro ⟨hm, ha, hr⟩
      exact ((hreached id hm ha).mp hr).imp (fun hr => ⟨hm, ha, hr⟩) fun hid => hid
  · rw [hobserved, Finset.mem_union, Finset.mem_inter, mem_toFinset, h.observed]
    constructor
    · rintro (⟨hrem, hr⟩ | ⟨hid, hrem⟩)
      all_goals
        obtain ⟨ha, -, hm⟩ := (hexact.removed id).mp hrem
      · exact ⟨hrem, (hreached id hm ha).mpr (.inl hr)⟩
      · exact ⟨hrem, (hreached id hm ha).mpr (.inr hid)⟩
    · rintro ⟨hrem, hr⟩
      obtain ⟨ha, -, hm⟩ := (hexact.removed id).mp hrem
      exact ((hreached id hm ha).mp hr).imp (fun hr => ⟨hrem, hr⟩) fun hid => ⟨hid, hrem⟩

/-- How many pages a walk from the cursor can still read. -/
def roomAfter : Option WwdEntityId → Nat
  | none => 2 ^ 256 + 1
  | some cursor => 2 ^ 256 - cursor.val

theorem roomAfter_pos (cursor : Option WwdEntityId) : 1 ≤ roomAfter cursor := by
  cases cursor with
  | none => simp [roomAfter]
  | some cursor =>
    have := cursor.isLt
    simp only [roomAfter]
    omega

theorem roomAfter_lt {next : WwdEntityId} (h : isAfter cursor next = true) :
    roomAfter (some next) < roomAfter cursor := by
  have hlt := next.isLt
  cases cursor with
  | none =>
    simp only [roomAfter]
    omega
  | some cursor =>
    have hlt' : cursor < next := by simpa [isAfter] using h
    have hval : cursor.val < next.val := hlt'
    simp only [roomAfter]
    omega

/-- How a walk ends: with all members seen, or with a page that has reached the candidate after
the result page. -/
def ScanEnds (member : WwdEntityId → Prop) (after : Option WwdEntityId) (deltas : Deltas)
    (limit : Nat) (scan : Scan) : Prop :=
  (scan.parentExhausted = true ∧ ScanInv member after deltas (fun _ => True) scan) ∨
    (scan.parentExhausted = false ∧ ∃ last lookahead,
      ScanInv member after deltas (fun id => id ≤ last) scan ∧
      (mergedCandidates scan.parentSeen deltas.added deltas.removed)[limit]? = some lookahead ∧
      lookahead ≤ last)

/-- The walk over an exact parent ends without an error. -/
theorem scanParent_spec (parent : Parent) (query : QueryRef) (hexact : deltas.Exact current member after)
    (hlists : ∀ request : IdPageRequest, request.limit = limit →
      ∃ page, parent.list query request = .ok page ∧ IsPage member request page)
    (hday : ∀ id, member id → requireDayPrefix query id = .ok ()) (gas : Nat) (scan : Scan)
    (hgas : roomAfter cursor ≤ gas) (hcursor : ∀ id, isAfter cursor id = true → isAfter after id = true)
    (h : ScanInv member after deltas (fun id => isAfter cursor id = false) scan) :
    ∃ scan', scanParent parent query { after := after, limit := limit } deltas gas cursor scan =
      .ok scan' ∧ ScanEnds member after deltas limit scan' := by
  induction gas generalizing cursor scan with
  | zero =>
    have := roomAfter_pos cursor
    omega
  | succ gas ih =>
    obtain ⟨page, hlist, hpage⟩ := hlists { after := cursor, limit := limit } rfl
    have hids : ∀ id ∈ page.ids, member id ∧ isAfter after id = true := fun id hid =>
      ⟨hpage.member id hid, hcursor id (hpage.after id hid)⟩
    obtain ⟨scan₁, hfold, hseen, hobserved⟩ := foldlM_observeId deltas
      (fun id (hid : id ∈ page.ids) hin =>
        ((hexact.added id).mp hin).2.2 (hpage.member id hid))
      hpage.ascending.sortedLT.nodup scan (by
        intro id hid hin
        have hold := ((h.seen id).mp hin).2.2
        rw [hpage.after id hid] at hold
        exact absurd hold (by decide))
    -- Up to the last id of the page nothing is missing.
    have hlast : ∀ last, page.ids.getLast? = some last →
        ScanInv member after deltas (fun id => id ≤ last) scan₁ := by
      intro last hlast
      refine h.page hexact hseen hobserved (fun id hm ha => ?_) hids
      have hin : last ∈ page.ids := mem_of_getLast? hlast
      constructor
      · intro hle
        cases hc : isAfter cursor id with
        | false => exact .inl rfl
        | true => exact .inr (hpage.complete id hm hc (.inr ⟨last, hlast, hle⟩))
      · rintro (hc | hid)
        · exact not_lt.mp fun hlt => by simp [isAfter_of_lt (hpage.after last hin) hlt] at hc
        · exact getLast_ge hpage.ascending hlast id hid
    have hskipped : requireNoneSkipped deltas after scan₁ page = .ok () := by
      unfold requireNoneSkipped
      cases hl : page.ids.getLast? with
      | none => rfl
      | some last =>
        simp only [throwIf_eq_ok, not_exists, not_and, not_not]
        intro id hrem _ hle
        exact ((hlast last hl).observed id).mpr ⟨hrem, hle⟩
    have hvalid := validateParentPage_ok hpage hday
    cases hnext : page.nextAfter with
    | none =>
      -- The parent is exhausted, so every member has been seen.
      refine ⟨{ scan₁ with parentExhausted := true }, ?_, .inl ⟨rfl, ?_⟩⟩
      · simp only [scanParent, laws]
        exact ⟨page, hlist, (), hvalid, scan₁, hfold, (), hskipped, by rw [hnext]; rfl⟩
      have hall : ScanInv member after deltas (fun _ => True) scan₁ := by
        refine h.page hexact hseen hobserved (fun id hm ha => ?_) hids
        refine ⟨fun _ => ?_, fun _ => trivial⟩
        cases hc : isAfter cursor id with
        | false => exact .inl rfl
        | true => exact .inr (hpage.complete id hm hc (.inl hnext))
      exact ⟨hall.seen, hall.observed⟩
    | some next =>
      have hinv := hlast next (hpage.next next hnext)
      by_cases hproof : proofReached deltas limit { scan₁ with parentExhausted := false } page = true
      · refine ⟨{ scan₁ with parentExhausted := false }, ?_, .inr ⟨rfl, ?_⟩⟩
        · simp only [scanParent, laws]
          exact ⟨page, hlist, (), hvalid, scan₁, hfold, (), hskipped, by
            rw [hnext]
            exact if_pos hproof⟩
        · unfold proofReached at hproof
          rw [hpage.next next hnext] at hproof
          dsimp only at hproof
          split at hproof
          · rename_i lookahead last hlook hnl
            cases hnl
            exact ⟨next, lookahead, ⟨hinv.seen, hinv.observed⟩, hlook, by simpa using hproof⟩
          · simp at hproof
      · have hafter : isAfter cursor next = true :=
          hpage.after next (mem_of_getLast? (hpage.next next hnext))
        have hcont := @ih (some next) { scan₁ with parentExhausted := false }
          (by have := roomAfter_lt hafter; omega)
          (fun id hid => hcursor id (isAfter_of_lt hafter (by simpa [isAfter] using hid)))
          ⟨fun id => by simpa [isAfter] using hinv.seen id, fun id => by
            simpa [isAfter] using hinv.observed id⟩
        obtain ⟨scan', hscan, hends⟩ := hcont
        refine ⟨scan', ?_, hends⟩
        simp only [scanParent, laws]
        exact ⟨page, hlist, (), hvalid, scan₁, hfold, (), hskipped, by
          rw [hnext]
          exact (if_neg hproof).trans hscan⟩

/-! ### The candidates -/

/-- Up to what the walk has reached, the candidates are the current members. -/
theorem mem_candidates (hexact : deltas.Exact current member after)
    (h : ScanInv member after deltas reached scan)
    (hreached : reached id) :
    id ∈ mergedCandidates scan.parentSeen deltas.added deltas.removed ↔
      current id ∧ isAfter after id = true := by
  have hadded := hexact.added id
  have hremoved := hexact.removed id
  have hseen := h.seen id
  unfold mergedCandidates
  rw [Finset.mem_sort, Finset.mem_union, Finset.mem_sdiff, hseen, hadded, hremoved]
  grind

theorem pairwise_candidates (seen added removed : Finset WwdEntityId) :
    (mergedCandidates seen added removed).Pairwise (· < ·) :=
  (Finset.sortedLT_sort _).pairwise

/-- However the walk ended, the first candidates are the first current members, and there are more
candidates exactly when there are more members. -/
theorem selected_eq (hexact : deltas.Exact current member after)
    (hends : ScanEnds member after deltas limit scan) :
    (mergedCandidates scan.parentSeen deltas.added deltas.removed).take limit =
        (ascending fun id => current id ∧ isAfter after id = true).take limit ∧
      (decide (limit < (mergedCandidates scan.parentSeen deltas.added deltas.removed).length) ||
          !scan.parentExhausted) =
        decide (limit < (ascending fun id => current id ∧ isAfter after id = true).length) := by
  have hasc := pairwise_candidates scan.parentSeen deltas.added deltas.removed
  rcases hends with ⟨hexhausted, hinv⟩ | ⟨hexhausted, last, lookahead, hinv, hlook, hle⟩
  · have heq := eq_ascending (p := fun id => current id ∧ isAfter after id = true) hasc
      fun id => mem_candidates hexact hinv trivial
    rw [heq, hexhausted]
    simp
  · have htake := Paging.take_eq_of_agree hasc
      (pairwise_ascending fun id => current id ∧ isAfter after id = true)
      (fun id hid => (mem_candidates hexact hinv hid).trans
        (mem_ascending (p := fun id => current id ∧ isAfter after id = true)).symm) hlook hle
    obtain ⟨hlt, -⟩ := List.getElem?_eq_some_iff.mp hlook
    have hlength := congrArg List.length htake
    rw [length_take, length_take] at hlength
    constructor
    · have hprefix := congrArg (List.take limit) htake
      rwa [take_take, take_take, Nat.min_eq_left (Nat.le_succ limit)] at hprefix
    · rw [hexhausted, Bool.not_false, Bool.or_true]
      symm
      exact decide_eq_true (by omega)

/-! ### Reading the selected entities -/

/-- A read returns the current body. -/
theorem read_ok (hserves : parent.Serves bodyCommitment bodies)
    (h : s.Consistent bodyCommitment bodies known) (e : EntityRef) :
    ∃ r, read bodyCommitment parent s e = .ok r ∧ r.map (·.body) = currentBody bodies s e ∧
      ∀ v ∈ r, v.entity = e := by
  have hverify : ∀ b origin, currentBody bodies s e = some b → ∃ v, verifyStored bodyCommitment e b
      (bodyCommitment e.entityId b) origin = .ok v ∧ v.body = b ∧ v.entity = e := by
    intro b origin hb
    obtain ⟨hentity, hday⟩ := currentBody_spec h hserves hb
    unfold verifyStored
    rw [dif_pos hday, dif_pos hentity, dif_pos rfl]
    exact ⟨_, rfl, rfl, rfl⟩
  simp only [currentBody] at hverify ⊢
  simp only [read, pending_eq h, bind, Except.bind]
  cases hword : s.pendingWord e with
  | untouched =>
    simp only [hword, hserves.leaf, hserves.get] at hverify ⊢
    cases hb : bodies e with
    | none => exact ⟨none, rfl, rfl, by simp⟩
    | some b =>
      obtain ⟨v, hv, hspec⟩ := hverify b .parent hb
      exact ⟨some v, by simp [hv, okOr], by simp [hspec], by simp [hspec]⟩
  | set c =>
    obtain ⟨-, b, hbody, -, -, rfl, -⟩ := h.set e c hword
    simp only [hword, hbody] at hverify ⊢
    obtain ⟨v, hv, hspec⟩ := hverify b .overlay rfl
    exact ⟨some v, by simp [hv, okOr], by simp [hspec], by simp [hspec]⟩
  | deleted => exact ⟨none, rfl, rfl, by simp⟩

/-- The verified body a listing returns for an id. -/
structure Listed (bodyCommitment : WwdEntityId → Body → Commitment) (parent : Parent)
    (s : Overlay) (query : QueryRef) (id : WwdEntityId) (v : VerifiedBody bodyCommitment) :
    Prop where
  entity : v.entity = entityForQuery query id
  read : read bodyCommitment parent s (entityForQuery query id) = .ok (some v)
  satisfies : bodyMatchesQuery v.body query = true

theorem readListed_ok (hserves : parent.Serves bodyCommitment bodies)
    (h : s.Consistent bodyCommitment bodies known) (hid : CurrentMember bodies s query id) :
    ∃ v, readListed bodyCommitment parent s query id = .ok v ∧
      Listed bodyCommitment parent s query id v := by
  obtain ⟨b, hb, hmatch⟩ := hid
  obtain ⟨r, hread, hbody, hentity⟩ := read_ok hserves h (entityForQuery query id)
  obtain ⟨v, rfl, rfl⟩ := Option.map_eq_some_iff.mp (hbody.trans hb)
  refine ⟨v, ?_, hentity v rfl, hread, hmatch⟩
  unfold readListed
  rw [hread]
  simp [okOr, hmatch, throwIf]

/-- The ids of the bodies a listing returns. -/
theorem map_entityId_of_listed {found : List (VerifiedBody bodyCommitment)}
    (h : Forall₂ (Listed bodyCommitment parent s query) ids found) :
    found.map (fun v => v.entity.entityId) = ids := by
  induction h with
  | nil => rfl
  | cons hl _ ih =>
    rw [map_cons, ih, hl.entity]
    cases query <;> rfl

/-! ### One page, and all pages -/

theorem exists_getLast_take (hlimit : 1 ≤ limit)
    (hlt : limit < ids.length) : ∃ m, (ids.take limit).getLast? = some m := by
  have hne : ids.take limit ≠ [] := by
    intro hnil
    have hlen := congrArg List.length hnil
    rw [length_take, length_nil] at hlen
    omega
  exact ⟨_, getLast?_eq_some_getLast hne⟩

theorem nextCursor_ok (hlimit : 1 ≤ limit) : nextCursor (decide (limit < ids.length))
    (ids.take limit) = .ok (if limit < ids.length then (ids.take limit).getLast? else none) := by
  unfold nextCursor
  by_cases hlt : limit < ids.length
  · obtain ⟨m, hm⟩ := exists_getLast_take hlimit hlt
    simp [hlt, hm, okOr]
  · simp [hlt]

/-- The ids a listing from a cursor has to return. -/
noncomputable def listedIds (bodies : EntityRef → Option Body) (s : Overlay) (query : QueryRef)
    (after : Option WwdEntityId) : List WwdEntityId :=
  ascending fun id => CurrentMember bodies s query id ∧ isAfter after id = true

theorem requireDayPrefix_ok (hbody : ∀ b, body = some b →
      b.entity = entityForQuery query id ∧ b.identityDayValid = true)
    (h : Satisfies body query) : requireDayPrefix query id = .ok () := by
  obtain ⟨b, hb, hmatch⟩ := h
  obtain ⟨hentity, hvalid⟩ := hbody b hb
  unfold requireDayPrefix
  split
  · simp [day_of_satisfies hentity hvalid hmatch]
  · rfl

theorem validatePageRequest_ok (hlimit : 1 ≤ limit) (hmax : limit ≤ maxIdPageLimit)
    (hafter : ∀ c, after = some c → requireDayPrefix query c = .ok ()) :
    validatePageRequest query { after := after, limit := limit } = .ok () := by
  have hrange : ¬ (limit = 0 ∨ maxIdPageLimit < limit) := by omega
  unfold validatePageRequest
  cases after with
  | none => simp [hrange]
  | some c =>
    have hday := hafter c rfl
    cases query with
    | tributeByDay day =>
      have hprefix : worldwideDay c = day := by simpa [requireDayPrefix] using hday
      simp [hrange, hprefix]
    | tributeByOwner | nodByOwner | nodAll => simp [hrange]

variable (query after) (hserves : parent.Serves bodyCommitment bodies)
  (hlists : parent.ListsExactly bodies) (hcons : s.Consistent bodyCommitment bodies known)

include hserves hlists hcons

/-- One page of a listing: the first members after the cursor, with the last of them as the next
cursor when there are more. -/
theorem list_spec {limit gas : Nat} (hlimit : 1 ≤ limit) (hmax : limit ≤ maxIdPageLimit)
    (hgas : 2 ^ 256 + 1 ≤ gas) (hafter : ∀ c, after = some c → CurrentMember bodies s query c) :
    ∃ page, list bodyCommitment parent gas s query { after := after, limit := limit } = .ok page ∧
      Forall₂ (Listed bodyCommitment parent s query)
        ((listedIds bodies s query after).take limit) page.bodies ∧
      page.nextAfter = if limit < (listedIds bodies s query after).length then
        ((listedIds bodies s query after).take limit).getLast? else none := by
  have hdayCurrent : ∀ id, CurrentMember bodies s query id → requireDayPrefix query id = .ok () :=
    fun _ => requireDayPrefix_ok fun _ => currentBody_spec hcons hserves
  have hdayParent : ∀ id, ParentMember bodies query id → requireDayPrefix query id = .ok () :=
    fun _ => requireDayPrefix_ok fun b hb => ⟨hserves.identity _ b hb, hserves.dayValid _ b hb⟩
  obtain ⟨records, deltas, hrecords, hdeltas, hexact⟩ :=
    collect_deltas hserves hcons query after
  have hroom : roomAfter after ≤ gas := by
    cases after with
    | none => exact hgas
    | some c =>
      simp only [roomAfter]
      omega
  obtain ⟨scan, hscan, hends⟩ := scanParent_spec parent query hexact
    (fun request hrequest => hlists query request (hrequest ▸ hlimit) (hrequest ▸ hmax))
    hdayParent gas ⟨∅, ∅, false⟩ hroom (fun _ h => h)
    ⟨fun id => by cases hc : isAfter after id <;> simp, fun id => by
      constructor
      · simp
      · rintro ⟨hrem, hc⟩
        rw [((hexact.removed id).mp hrem).1] at hc
        cases hc⟩
  have hremoved : ¬ (scan.parentExhausted = true ∧ scan.observedRemoved ≠
      deltas.removed.filter fun id => isAfter after id = true) := by
    rintro ⟨hexhausted, hne⟩
    rcases hends with ⟨-, hinv⟩ | ⟨hnot, -⟩
    · refine hne (Finset.ext fun id => ?_)
      rw [hinv.observed, Finset.mem_filter]
      exact ⟨fun ⟨hrem, _⟩ => ⟨hrem, ((hexact.removed id).mp hrem).1⟩,
        fun ⟨hrem, _⟩ => ⟨hrem, trivial⟩⟩
    · rw [hexhausted] at hnot
      cases hnot
  obtain ⟨hselected, hmore⟩ := selected_eq hexact hends
  rw [← listedIds] at hselected hmore
  -- Every selected id is a current member, so it reads and satisfies the query.
  obtain ⟨found, hfound⟩ := Lists.exists_forall₂ (l := (listedIds bodies s query after).take limit)
    fun id hid => readListed_ok hserves hcons (mem_ascending.mp (mem_of_mem_take hid)).1
  have hmapM := mapM_eq_ok.mpr (hfound.imp fun _ _ h => h.1)
  refine ⟨⟨found, if limit < (listedIds bodies s query after).length then
    ((listedIds bodies s query after).take limit).getLast? else none⟩, ?_,
    hfound.imp fun _ _ h => h.2, rfl⟩
  simp only [list, laws]
  refine ⟨(), validatePageRequest_ok hlimit hmax fun c hc => hdayCurrent c (hafter c hc), records,
    hrecords, deltas, hdeltas, scan, hscan, (), hremoved, ?_⟩
  rw [hmore, hselected]
  exact ⟨_, nextCursor_ok hlimit, found, hmapM, rfl⟩

/-- Following the cursors returns the members after the first cursor. -/
theorem listFrom_spec {limit gas pages : Nat} (hlimit : 1 ≤ limit) (hmax : limit ≤ maxIdPageLimit)
    (hgas : 2 ^ 256 + 1 ≤ gas) (hafter : ∀ c, after = some c → CurrentMember bodies s query c)
    (hpages : (listedIds bodies s query after).length < pages) :
    ∃ found, listFrom bodyCommitment parent gas s query limit pages after = .ok found ∧
      Forall₂ (Listed bodyCommitment parent s query) (listedIds bodies s query after) found := by
  induction pages generalizing after with
  | zero => omega
  | succ pages ih =>
    obtain ⟨page, hpage, hbodies, hnext⟩ := list_spec query after hserves
      hlists hcons hlimit hmax hgas hafter
    rw [listFrom, hpage]
    by_cases hmore : limit < (listedIds bodies s query after).length
    · rw [if_pos hmore] at hnext
      obtain ⟨m, hm⟩ := exists_getLast_take hlimit hmore
      have hmem : CurrentMember bodies s query m ∧ isAfter after m = true :=
        mem_ascending.mp (mem_of_mem_take (mem_of_getLast? hm))
      -- The next listing starts where this page ended.
      have hrest : listedIds bodies s query (some m) = (listedIds bodies s query after).drop limit := by
        have hdrop := Paging.filter_gt_eq_drop (l := listedIds bodies s query after)
          (pairwise_ascending _) hm
        rw [← hdrop]
        symm
        refine eq_ascending ((pairwise_ascending _).filter _) fun id => ?_
        rw [mem_filter, listedIds, mem_ascending]
        simp only [isAfter, decide_eq_true_eq]
        exact ⟨fun ⟨⟨hc, _⟩, hlt⟩ => ⟨hc, hlt⟩,
          fun ⟨hc, hlt⟩ => ⟨⟨hc, isAfter_of_lt hmem.2 hlt⟩, hlt⟩⟩
      obtain ⟨found, hfound, hlisted⟩ := ih (some m)
        (fun c hc => Option.some.inj hc ▸ hmem.1) (by
          rw [hrest, length_drop]
          omega)
      refine ⟨page.bodies ++ found, ?_, ?_⟩
      · show (match page.nextAfter with
          | none => _
          | some next => _) = _
        rw [hnext, hm]
        show (listFrom bodyCommitment parent gas s query limit pages (some m) >>= _) = _
        rw [hfound]
        rfl
      · rw [hrest] at hlisted
        rw [← take_append_drop limit (listedIds bodies s query after)]
        exact rel_append hbodies hlisted
    · rw [if_neg hmore] at hnext
      refine ⟨page.bodies, ?_, ?_⟩
      · show (match page.nextAfter with
          | none => _
          | some next => _) = _
        rw [hnext]
        rfl
      · rwa [take_of_length_le (by omega)] at hbodies

end List

/-- In every overlay a block reaches, a listing over an exact parent, followed page by page,
returns the entities that read as present and satisfy the query, each once and in ascending order
of their ids. -/
theorem listing_exact {bodyCommitment : WwdEntityId → Body → Commitment} {parent : Parent}
    {bodies : EntityRef → Option Body} (hserves : parent.Serves bodyCommitment bodies)
    (hlists : parent.ListsExactly bodies) (changes : List (Change bodyCommitment))
    (hfree : CollisionFree bodyCommitment (KnownBody bodyCommitment bodies changes))
    (query : QueryRef) {limit : Nat} (hlimit : 1 ≤ limit) (hmax : limit ≤ maxIdPageLimit) :
    let s := run (Change.step bodyCommitment parent) changes .empty
    ∃ enough, ∀ gas ≥ enough, ∀ pages ≥ enough, ∃ found,
      listFrom bodyCommitment parent gas s query limit pages none = .ok found ∧
      (found.map fun v => v.entity.entityId).Pairwise (· < ·) ∧
      ∀ v, v ∈ found ↔ ∃ id, read bodyCommitment parent s (entityForQuery query id) = .ok (some v) ∧
        bodyMatchesQuery v.body query = true := by
  intro s
  have hcons : s.Consistent bodyCommitment bodies (KnownBody bodyCommitment bodies changes) :=
    consistent_run hserves changes hfree
  refine ⟨2 ^ 256 + 1 + (listedIds bodies s query none).length, fun gas hgas pages hpages => ?_⟩
  have hgas' : 2 ^ 256 + 1 ≤ gas := by omega
  have hpages' : (listedIds bodies s query none).length < pages := by omega
  obtain ⟨found, hfound, hlisted⟩ := listFrom_spec query none hserves hlists hcons hlimit hmax hgas'
    (fun c hc => by cases hc) hpages'
  have hids : ∀ v, v ∈ found → ∃ id ∈ listedIds bodies s query none,
      Listed bodyCommitment parent s query id v :=
    fun v hv => Lists.exists_of_forall₂_left hlisted.flip hv
  refine ⟨found, hfound, ?_, fun v => ⟨fun hv => ?_, ?_⟩⟩
  · rw [map_entityId_of_listed hlisted]
    exact pairwise_ascending _
  · obtain ⟨id, -, hl⟩ := hids v hv
    exact ⟨id, hl.read, hl.satisfies⟩
  · rintro ⟨id, hread, hmatch⟩
    -- The entity reads as present, so its id is listed, and the listing read the same body.
    have hmember : CurrentMember bodies s query id := by
      obtain ⟨r, hr, hbody, -⟩ := read_ok hserves hcons (entityForQuery query id)
      cases hr.symm.trans hread
      exact ⟨v.body, hbody.symm, hmatch⟩
    have hin : id ∈ listedIds bodies s query none := mem_ascending.mpr ⟨hmember, rfl⟩
    obtain ⟨w, hw, hl⟩ := Lists.exists_of_forall₂_left hlisted hin
    rw [hl.read] at hread
    cases hread
    exact hw

/-! ### A block over a parent with one tribute -/

/-- A tribute of day 5. -/
def sampleTribute (digest : B256) (owner : Address) : TributeBody where
  tributeId := fromDayAndDigest 5 digest
  owner := owner
  worldwideDay := 5
  issuanceAmountMinor := 0
  issuanceCurrency := 840
  nominalAmountMinor := 0
  referenceCurrency := 840
  tributePriceMinor := 0
  excludeFromIntexIssuance := false

/-- Alice's tribute, the one body of the parent. -/
def aliceBody : Body := .tribute (sampleTribute 1 0xA)

/-- Alice's tribute after a transfer to Bob. -/
def transferredBody : Body := .tribute (sampleTribute 1 0xB)

/-- A second tribute of Bob's. -/
def bobBody : Body := .tribute (sampleTribute 2 0xB)

def ownerCommitment (_ : WwdEntityId) : Body → Commitment
  | .tribute body => body.owner.setWidth 256
  | .nodItem body => body.owner.setWidth 256
  | .nodBucket body => body.bucketKey

/-- The bodies of the parent. -/
def aliceOnly (e : EntityRef) : Option Body := if e = aliceBody.entity then some aliceBody else none

/-- A parent that serves Alice's tribute. -/
def aliceParent : Parent where
  readParentLeafVerified := fun e => .ok ((aliceOnly e).map (ownerCommitment e.entityId))
  get := fun e => .ok (aliceOnly e)
  list := fun query request =>
    if bodyMatchesQuery aliceBody query && isAfter request.after aliceBody.entity.entityId then
      .ok ⟨[aliceBody.entity.entityId], none⟩
    else .ok ⟨[], none⟩

/-- Alice's tribute as a capability. -/
def aliceCapability : VerifiedBody ownerCommitment :=
  ⟨aliceBody.entity, 0xA, aliceBody, rfl, by decide, by decide⟩

/-- Alice's tribute goes to Bob, and Bob mints another. -/
def sampleChanges : List (Change ownerCommitment) :=
  [.update aliceCapability transferredBody, .mint bobBody]

theorem aliceOnly_eq_some {e : EntityRef} (h : aliceOnly e = some b) :
    e = aliceBody.entity ∧ b = aliceBody := by
  unfold aliceOnly at h
  split at h
  · exact ⟨‹_›, (Option.some.inj h).symm⟩
  · cases h

theorem aliceParent_serves : aliceParent.Serves ownerCommitment aliceOnly where
  leaf := fun _ => rfl
  get := fun _ => rfl
  identity := fun e b h => by
    obtain ⟨rfl, rfl⟩ := aliceOnly_eq_some h
    rfl
  dayValid := fun e b h => by
    obtain ⟨rfl, rfl⟩ := aliceOnly_eq_some h
    decide

theorem aliceParent_lists : aliceParent.ListsExactly aliceOnly := by
  intro query request hlimit _
  have honly : ∀ id, Satisfies (aliceOnly (entityForQuery query id)) query →
      id = aliceBody.entity.entityId ∧ bodyMatchesQuery aliceBody query = true := by
    rintro id ⟨b, hb, hmatch⟩
    obtain ⟨he, rfl⟩ := aliceOnly_eq_some hb
    refine ⟨?_, hmatch⟩
    have hid := congrArg EntityRef.entityId he
    cases query <;> exact hid
  by_cases hpage : (bodyMatchesQuery aliceBody query &&
      isAfter request.after aliceBody.entity.entityId) = true
  · obtain ⟨hmatch, hafter⟩ := Bool.and_eq_true_iff.mp hpage
    refine ⟨⟨[aliceBody.entity.entityId], none⟩, if_pos hpage, by simpa using hlimit,
      pairwise_singleton _ _, ?_, ?_, ?_, ?_⟩
    · simpa using hafter
    · intro id hid
      rw [mem_singleton] at hid
      subst hid
      refine ⟨aliceBody, ?_, hmatch⟩
      cases query with
      | tributeByOwner owner => rfl
      | tributeByDay day => rfl
      | nodByOwner owner | nodAll => cases hmatch
    · intro id hid _ _
      simp [(honly id hid).1]
    · intro cursor hcursor
      cases hcursor
  · refine ⟨⟨[], none⟩, if_neg hpage, Nat.zero_le _, List.Pairwise.nil, by simp, by simp, ?_, ?_⟩
    · intro id hid hafter _
      obtain ⟨rfl, hmatch⟩ := honly id hid
      exact absurd (Bool.and_eq_true_iff.mpr ⟨hmatch, hafter⟩) hpage
    · intro cursor hcursor
      cases hcursor

theorem sampleChanges_collisionFree :
    CollisionFree ownerCommitment (KnownBody ownerCommitment aliceOnly sampleChanges) := by
  have hknown : ∀ b, KnownBody ownerCommitment aliceOnly sampleChanges b →
      b = aliceBody ∨ b = transferredBody ∨ b = bobBody := by
    rintro b (⟨e, he⟩ | ⟨change, hin, hb⟩)
    · exact .inl (aliceOnly_eq_some he).2
    · simp only [sampleChanges, mem_cons, not_mem_nil, or_false] at hin
      rcases hin with rfl | rfl
      · simp only [Change.named, mem_cons, not_mem_nil, or_false] at hb
        exact hb.imp id .inl
      · simp only [Change.named, mem_cons, not_mem_nil, or_false] at hb
        exact .inr (.inr hb)
  intro b b' hb hb' hentity hcommit
  rcases hknown b hb with rfl | rfl | rfl <;> rcases hknown b' hb' with rfl | rfl | rfl
  all_goals first
    | rfl
    | exact absurd hentity (by decide)
    | exact absurd hcommit (by decide)

/-- Both calls go through, and listing Bob's tributes with one on a page is exact. -/
theorem bobs_tributes_listed :
    (run (Change.step ownerCommitment aliceParent) sampleChanges .empty).touched =
      [aliceBody.entity, bobBody.entity] ∧ ∃ enough, ∀ gas ≥ enough, ∀ pages ≥ enough, ∃ found,
      listFrom ownerCommitment aliceParent gas
          (run (Change.step ownerCommitment aliceParent) sampleChanges .empty)
          (.tributeByOwner 0xB) 1 pages none = .ok found ∧
        (found.map fun v => v.entity.entityId).Pairwise (· < ·) ∧
        ∀ v, v ∈ found ↔ ∃ id, read ownerCommitment aliceParent
            (run (Change.step ownerCommitment aliceParent) sampleChanges .empty)
            (entityForQuery (.tributeByOwner 0xB) id) = .ok (some v) ∧
          bodyMatchesQuery v.body (.tributeByOwner 0xB) = true :=
  ⟨by decide +kernel, listing_exact aliceParent_serves aliceParent_lists sampleChanges
    sampleChanges_collisionFree (.tributeByOwner 0xB) (by decide) (by decide)⟩

end Rudis.CompressedEntities
