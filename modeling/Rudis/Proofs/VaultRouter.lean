import Mathlib.Data.Set.Card
import Rudis.Lib.Sums
import Rudis.Spec.VaultRouter

/-!
# `Rudis.Proofs.VaultRouter`: the books of the cross-chain vault

A run keeps two journals: the operations that were created, each with the configuration of its
creation, and those that were completed, each with the caller and sender of the callback. The
operation table is a view of the journals (`Table`), the shares and payments are their sums
(`Balanced`), and every call keeps both. The pending counter gates reconfiguration: with nothing
pending every created operation is completed, so the peers of a pending one never change.

`crosschain_books` needs the counter to stay in its 256 bits. `pending_wraps` passes them: after
`2 ^ 256` deposits nothing is pending by the counter.
-/

namespace Rudis.VaultRouter

open List
open Tx

@[ext] structure Operation (ID : Type) where
  id : ID
  user : Address
  amount : Nat
  kind : Nat

/-- A completed operation with the caller and the sender of its callback. -/
structure Completion (ID : Type) extends Operation ID where
  caller : Address
  sender : List UInt8

/-- A created operation and the configuration then. -/
structure Creation (ID : Type) extends Operation ID where
  config : Configuration

/-- The world and the journals of a run. -/
structure State (ID E : Type) where
  world : World ID E
  created : List (Creation ID)
  completed : List (Completion ID)

section Amounts

variable {ID : Type} (p : Operation ID → Bool) (l : List (Operation ID))

def amountOf : Nat :=
  ((l.filter p).map (·.amount)).sum

def ofUser (kind : Nat) (user : Address) (o : Operation ID) : Bool :=
  o.kind = kind ∧ o.user = user

def ofKind (kind : Nat) (o : Operation ID) : Bool := o.kind = kind

/-- The transfers among the calls of the router. -/
def payments (sent : Sent ID) : List (Address × Nat) :=
  sent.filterMap fun s => match s.2.2 with
    | .transfer dst amount => some (dst, amount)
    | _ => none

def paidTo (user : Address) (sent : Sent ID) : Nat :=
  (((payments sent).filter (·.1 = user)).map (·.2)).sum

theorem amountOf_concat (o : Operation ID) :
    amountOf p (l ++ [o]) = amountOf p l + if p o then o.amount else 0 := by
  unfold amountOf
  by_cases h : p o = true <;> simp [h]

/-! ### The shares -/

/-- The shares are the completed deposits without the requested withdrawals, and what was paid
out are the completed withdrawals. -/
structure Balanced (shares : Shares) (sent : Sent ID)
    (created : List (Operation ID)) (completed : List (Operation ID)) : Prop where
  sum : ∑ user, shares.held user = shares.total
  user : ∀ user, shares.held user + amountOf (ofUser operationWithdraw user) created
    = amountOf (ofUser operationDeposit user) completed
  total : shares.total + amountOf (ofKind operationWithdraw) created
    = amountOf (ofKind operationDeposit) completed
  paid : payments sent
    = (completed.filter (ofKind operationWithdraw)).map fun o => (o.user, o.amount)
  total_lt : shares.total < 2 ^ 256

variable {shares : Shares} {sent sent' : Sent ID}
  {cs ds : List (Operation ID)} {o : Operation ID}

/-- The shares after a creation: a withdrawal takes its amount at once. -/
def Shares.create (s : Shares) (o : Operation ID) : Shares :=
  if o.kind = operationWithdraw then
    ⟨update s.held o.user (wrappingSub 256 (s.held o.user) o.amount), wrappingSub 256 s.total o.amount⟩
  else s

/-- The shares after a completion: a deposit is credited. -/
def Shares.complete (s : Shares) (o : Operation ID) : Shares :=
  if o.kind = operationDeposit then
    ⟨update s.held o.user (wrappingAdd 256 (s.held o.user) o.amount), wrappingAdd 256 s.total o.amount⟩
  else s

theorem Balanced.create (h : Balanced shares sent cs ds) (hsent : payments sent' = payments sent)
    (hshares : o.kind = operationWithdraw → o.amount ≤ shares.held o.user) :
    Balanced (shares.create o) sent' (cs ++ [o]) ds := by
  have hpaid := hsent.trans h.paid
  unfold Shares.create
  split
  · rename_i hkind
    have hlt := h.total_lt
    have hle : shares.held o.user ≤ shares.total := h.sum ▸ Sums.le_sum _ _
    have hsum := Sums.sum_update shares.held o.user (shares.held o.user - o.amount)
    have hs := h.sum
    have hshares := hshares hkind
    rw [wrappingSub_eq hshares (by omega), wrappingSub_eq (by omega) hlt]
    refine ⟨by dsimp only; omega, fun u => ?_, ?_, hpaid, by dsimp only; omega⟩
    · have hu := h.user u
      rw [amountOf_concat]
      by_cases hne : u = o.user
      · subst hne
        simp only [update_self, ofUser, hkind, and_self, decide_true, if_true]
        omega
      · simpa [ofUser, hne, Ne.symm hne] using hu
    · have ht := h.total
      simp only [amountOf_concat, ofKind, hkind, decide_true, if_true]
      omega
  · rename_i hkind
    refine ⟨h.sum, fun u => ?_, ?_, hpaid, h.total_lt⟩
    · rw [amountOf_concat, ← h.user u]
      simp [ofUser, hkind]
    · rw [amountOf_concat, ← h.total]
      simp [ofKind, hkind]

theorem Balanced.complete (h : Balanced shares sent cs ds)
    (hsent : payments sent' = payments sent ++
      if o.kind = operationWithdraw then [(o.user, o.amount)] else [])
    (hroom : o.kind = operationDeposit → shares.total + o.amount < 2 ^ 256) :
    Balanced (shares.complete o) sent' cs (ds ++ [o]) := by
  have hpaid : payments sent' = ((ds ++ [o]).filter (ofKind operationWithdraw)).map
      fun o => (o.user, o.amount) := by
    rw [hsent, h.paid, filter_append, map_append]
    by_cases hkind : o.kind = operationWithdraw <;> simp [ofKind, hkind]
  unfold Shares.complete
  split
  · rename_i hkind
    have hle : shares.held o.user ≤ shares.total := h.sum ▸ Sums.le_sum _ _
    have hsum := Sums.sum_update shares.held o.user (shares.held o.user + o.amount)
    have hs := h.sum
    have hroom := hroom hkind
    rw [wrappingAdd_eq (by omega), wrappingAdd_eq hroom]
    refine ⟨by dsimp only; omega, fun u => ?_, ?_, hpaid, hroom⟩
    · have hu := h.user u
      rw [amountOf_concat]
      by_cases hne : u = o.user
      · subst hne
        simp only [update_self, ofUser, hkind, and_self, decide_true, if_true]
        omega
      · simpa [ofUser, hne, Ne.symm hne] using hu
    · have ht := h.total
      simp only [amountOf_concat, ofKind, hkind, decide_true, if_true]
      omega
  · rename_i hkind
    refine ⟨h.sum, fun u => ?_, ?_, hpaid, h.total_lt⟩
    · rw [amountOf_concat, h.user u]
      simp [ofUser, hkind]
    · rw [amountOf_concat, h.total]
      simp [ofKind, hkind]

end Amounts

section

variable {ID E : Type} [DecidableEq ID] (X : Externals ID E)

def Op.creates (w : World ID E) : Op E → Option ID → List (Creation ID)
  | .deposit user amount _ _ _, some id =>
    (configuration w.settings).toOption.toList.map (⟨⟨id, user, amount, operationDeposit⟩, ·⟩)
  | .withdraw user amount _ _ _, some id =>
    (configuration w.settings).toOption.toList.map (⟨⟨id, user, amount, operationWithdraw⟩, ·⟩)
  | _, _ => []

def Op.completes : Op E → List (Completion ID)
  | .acknowledgement caller _ sender payload => (X.abiDecode payload).toList.map
    fun d => ⟨⟨d.2.1, d.2.2.1, d.2.2.2, operationDeposit⟩, caller, sender⟩
  | .withdrawalReturn caller _ src _ extraData => (X.abiDecode extraData).toList.map
    fun d => ⟨⟨d.2.1, d.2.2.1, d.2.2.2, operationWithdraw⟩, caller, src⟩
  | _ => []

/-- Runs a call and keeps the journals; a failed call leaves nothing behind. -/
def step (op : Op E) (st : State ID E) : State ID E :=
  match (op.call X).run st.world with
  | (.ok r, w) => ⟨w, st.created ++ op.creates st.world r, st.completed ++ op.completes X⟩
  | (.error _, _) => st

/-- No 256-bit overflow: of the pending counter when an operation is created, and of the share
sum when a deposit is completed. -/
def Op.Fits (op : Op E) (st : State ID E) : Prop :=
  ∀ r w, Ok (op.call X) st.world r w →
    (op.creates st.world r ≠ [] → st.world.operations.pending + 1 < 2 ^ 256) ∧
    ∀ c ∈ op.completes X, c.kind = operationDeposit → st.world.shares.total + c.amount < 2 ^ 256

/-! ### The table -/

/-- Which peer answers an operation. -/
def Configuration.answers (c : Configuration) (kind : Nat) : Address :=
  if kind = operationDeposit then c.messageBridge else c.tokenBridge

/-- The operation table is what the journals say. -/
structure Table (settings : Settings) (ops : Operations ID) (created : List (Creation ID))
    (completed : List (Completion ID)) : Prop where
  createdOnce : (created.map (·.id)).Nodup
  completedOnce : (completed.map (·.id)).Nodup
  status : ∀ id, ops.statuses id = if id ∈ completed.map (·.id) then statusCompleted
    else if id ∈ created.map (·.id) then statusPending else 0
  record : ∀ c ∈ created, ops.users c.id = c.user ∧
    ops.amounts c.id = c.amount ∧ ops.kinds c.id = c.kind
  /-- The peers of a pending operation are those of its creation. -/
  peers : ∀ c ∈ created, c.id ∉ completed.map (·.id) → configuration settings = .ok c.config
  authentic : ∀ d ∈ completed, ∃ c ∈ created, c.toOperation = d.toOperation ∧
    d.caller = c.config.answers d.kind ∧
    d.sender = formatEvmV1 c.config.destinationChainId c.config.remoteRouter
  count : ops.pending + completed.length = created.length
  pending_lt : ops.pending < 2 ^ 256

variable {settings : Settings} {ops : Operations ID} {created : List (Creation ID)}
  {completed : List (Completion ID)}

theorem Table.completed_subset (h : Table settings ops created completed) :
    completed.map (·.id) ⊆ created.map (·.id) := by
  intro id hid
  obtain ⟨d, hd, rfl⟩ := mem_map.mp hid
  obtain ⟨c, hc, heq, -⟩ := h.authentic d hd
  exact mem_map.mpr ⟨c, hc, congrArg Operation.id heq⟩

/-- With nothing pending every created operation is completed. -/
theorem Table.reconfigure (h : Table settings ops created completed)
    (hzero : ops.pending = 0) (settings' : Settings) : Table settings' ops created completed := by
  refine { h with peers := fun c hc hopen => absurd ?_ hopen }
  have hcount := h.count
  have hperm := (subperm_of_subset h.completedOnce h.completed_subset).perm_of_length_le
    (by simp only [length_map]; omega)
  exact hperm.mem_iff.mpr (mem_map_of_mem hc)

/-- The table with one more operation. -/
def Operations.record (ops : Operations ID) (o : Operation ID) : Operations ID where
  nonce := wrappingAdd 256 ops.nonce 1
  users := update ops.users o.id o.user
  amounts := update ops.amounts o.id o.amount
  kinds := update ops.kinds o.id o.kind
  statuses := update ops.statuses o.id statusPending
  pending := wrappingAdd 256 ops.pending 1

def Operations.complete (ops : Operations ID) (id : ID) : Operations ID :=
  { ops with
    statuses := update ops.statuses id statusCompleted
    pending := wrappingSub 256 ops.pending 1 }

theorem Table.create (h : Table settings ops created completed) {o : Operation ID}
    {config : Configuration} (hconfig : configuration settings = .ok config)
    (hfresh : ops.statuses o.id = 0) (hroom : ops.pending + 1 < 2 ^ 256) :
    Table settings (ops.record o) (created ++ [⟨o, config⟩]) completed := by
  have hnew : o.id ∉ created.map (·.id) := by
    intro hid
    rw [h.status, if_pos hid] at hfresh
    split at hfresh <;> exact absurd hfresh (by decide)
  have hopen : o.id ∉ completed.map (·.id) := fun hid => hnew (h.completed_subset hid)
  have hpending : (ops.record o).pending = ops.pending + 1 := wrappingAdd_eq hroom
  constructor
  · rw [map_append, map_singleton]
    exact nodup_append_comm.mpr (nodup_cons.mpr ⟨hnew, h.createdOnce⟩)
  · exact h.completedOnce
  · intro id
    rw [map_append, map_singleton]
    by_cases hid : id = o.id
    · subst hid
      simp [Operations.record, hopen]
    · have hother : (ops.record o).statuses id = ops.statuses id :=
        update_of_ne hid _ _
      rw [hother, h.status id]
      simp [hid]
  · intro c hc
    rcases mem_append.mp hc with hc | hc
    · have hne : c.id ≠ o.id := fun heq => hnew (heq ▸ mem_map_of_mem hc)
      simpa [Operations.record, hne] using h.record c hc
    · obtain rfl := mem_singleton.mp hc
      simp [Operations.record]
  · intro c hc hc'
    rcases mem_append.mp hc with hc | hc
    · exact h.peers c hc hc'
    · obtain rfl := mem_singleton.mp hc
      exact hconfig
  · intro d hd
    obtain ⟨c, hc, hrest⟩ := h.authentic d hd
    exact ⟨c, mem_append_left _ hc, hrest⟩
  · have hcount := h.count
    rw [hpending, length_append, length_singleton]
    omega
  · rw [hpending]
    exact hroom

/-- What a callback checks before it changes anything. -/
structure Accepts (settings : Settings) (ops : Operations ID) (d : Completion ID) : Prop where
  pending : ops.statuses d.id = statusPending
  record : ops.users d.id = d.user ∧ ops.amounts d.id = d.amount ∧
    ops.kinds d.id = d.kind
  counted : ops.pending ≠ 0
  peer : ∃ config, configuration settings = .ok config ∧ d.caller = config.answers d.kind ∧
    d.sender = formatEvmV1 config.destinationChainId config.remoteRouter

theorem Table.complete (h : Table settings ops created completed) {d : Completion ID}
    (hd : Accepts settings ops d) :
    Table settings (ops.complete d.id) created (completed ++ [d]) := by
  obtain ⟨hpending, hrecord, hpos, config, hconfig, hauth⟩ := hd
  have hstatus := h.status d.id
  rw [hpending] at hstatus
  have hopen : d.id ∉ completed.map (·.id) := by
    intro hid
    rw [if_pos hid] at hstatus
    exact absurd hstatus (by decide)
  have hmem : d.id ∈ created.map (·.id) := by
    by_contra hid
    rw [if_neg hopen, if_neg hid] at hstatus
    exact absurd hstatus (by decide)
  obtain ⟨c, hc, hid⟩ := mem_map.mp hmem
  -- the record of the table ties the callback to the creation
  have hsame : c.toOperation = d.toOperation := by
    have hkept := h.record c hc
    rw [show c.id = d.id from hid] at hkept
    exact Operation.ext hid (hkept.1.symm.trans hrecord.1) (hkept.2.1.symm.trans hrecord.2.1)
      (hkept.2.2.symm.trans hrecord.2.2)
  have hpeers : config = c.config :=
    Except.ok.inj (hconfig.symm.trans (h.peers c hc (hid ▸ hopen)))
  have hless : (ops.complete d.id).pending = ops.pending - 1 :=
    wrappingSub_eq (Nat.one_le_iff_ne_zero.mpr hpos) h.pending_lt
  constructor
  · exact h.createdOnce
  · rw [map_append, map_singleton]
    exact nodup_append_comm.mpr (nodup_cons.mpr ⟨hopen, h.completedOnce⟩)
  · intro id
    rw [map_append, map_singleton]
    by_cases hid' : id = d.id
    · subst hid'
      simp [Operations.complete]
    · have hother : (ops.complete d.id).statuses id = ops.statuses id :=
        update_of_ne hid' _ _
      rw [hother, h.status id]
      simp [hid']
  · exact h.record
  · intro c' hc' hopen'
    refine h.peers c' hc' fun hin => hopen' ?_
    rw [map_append]
    exact mem_append_left _ hin
  · intro d' hd'
    rcases mem_append.mp hd' with hd' | hd'
    · exact h.authentic d' hd'
    · obtain rfl := mem_singleton.mp hd'
      exact ⟨c, hc, hsame, hpeers ▸ hauth⟩
  · have hcount := h.count
    rw [hless, length_append, length_singleton]
    omega
  · have hlt := h.pending_lt
    rw [hless]
    omega

/-! ### Calls -/

/-- Table and shares of a state. -/
def Books (st : State ID E) : Prop :=
  Table st.world.settings st.world.operations st.created st.completed ∧
    Balanced st.world.shares st.world.sent (st.created.map (·.toOperation))
      (st.completed.map (·.toOperation))

variable {X} {w w' : World ID E} {user caller : Address} {amount value : Nat}

omit [DecidableEq ID] in
theorem ok_call {target : Address} {message : Outgoing ID} {ret : List UInt8} :
    Ok (call X target value message) w ret w' ↔
      ∃ e, X.call target value message w.outside = .ok (ret, e) ∧
        w' = { w with outside := e, sent := w.sent ++ [(target, value, message)] } := by
  simp only [call, rules, ↓existsAndEq, Prod.exists]

/-- What a call can do. -/
inductive Change (X : Externals ID E) (op : Op E) (w : World ID E) : Option ID → World ID E → Prop
  | create (o : Operation ID) (config : Configuration) (sent : Sent ID) (e : E)
      (journal : op.creates w (some o.id) = [⟨o, config⟩] ∧ op.completes X = [])
      (peers : configuration w.settings = .ok config) (fresh : w.operations.statuses o.id = 0)
      (unpaid : payments sent = payments w.sent)
      (enough : o.kind = operationWithdraw → o.amount ≤ w.shares.held o.user) :
      Change X op w (some o.id) { w with
        operations := w.operations.record o, shares := w.shares.create o, outside := e, sent := sent }
  | complete (d : Completion ID) (sent : Sent ID) (e : E)
      (journal : op.creates w none = [] ∧ op.completes X = [d])
      (accepts : Accepts w.settings w.operations d)
      (paid : payments sent = payments w.sent ++
        if d.kind = operationWithdraw then [(d.user, d.amount)] else []) :
      Change X op w none { w with
        operations := w.operations.complete d.id
        shares := w.shares.complete d.toOperation
        outside := e
        sent := sent }
  /-- The settings only change when nothing is pending. -/
  | other (settings : Settings) (e : E) (journal : op.creates w none = [] ∧ op.completes X = [])
      (gate : settings = w.settings ∨ w.operations.pending = 0) :
      Change X op w none { w with settings := settings, outside := e }

theorem change_of_ok {op : Op E} {r : Option ID} (h : Ok (op.call X) w r w') :
    Change X op w r w' := by
  cases op with obtain ⟨_, hc, rfl⟩ := ok_map.mp h
  | deposit user amount gas ackGas value =>
    simp only [deposit, validateAmount, nextOperationId, quoteFee, ensureFee, recordOperation,
      sendId, rules, ok_call, ↓existsAndEq] at hc
    obtain ⟨_, _, config, hconfig, _, _, _, hfresh, _, _, _, _, _, _, _, _, _, _, _, _, e, _, rfl,
      rfl⟩ := hc
    exact .create ⟨_, user, amount, operationDeposit⟩ config _ e
      ⟨by simp [Op.creates, hconfig, Except.toOption], rfl⟩ hconfig hfresh (by simp [payments])
      (fun h : operationDeposit = operationWithdraw => absurd h (by decide))
  | withdraw user amount gas returnGas value =>
    simp only [withdraw, validateAmount, ensureShares, nextOperationId, quoteFee, ensureFee,
      recordOperation, sendId, rules, ok_call, ↓existsAndEq, not_lt] at hc
    obtain ⟨_, _, hshares, config, hconfig, _, _, _, hfresh, _, e, _, _, _, rfl, rfl⟩ := hc
    exact .create ⟨_, user, amount, operationWithdraw⟩ config _ e
      ⟨by simp [Op.creates, hconfig, Except.toOption], rfl⟩ hconfig hfresh (by simp [payments])
      (fun _ => hshares)
  | acknowledgement caller value sender payload =>
    simp only [receiveDepositAcknowledgement, authenticateRemote, decodeCallback,
      validatePendingOperation, completeOperation, rules, ↓existsAndEq, not_or, okOr_eq_ok,
      Prod.exists] at hc
    obtain ⟨_, config, hconfig, hcaller, hsender, id, hdecode, _, _, hpending, hkind, hcount, rfl⟩ := hc
    exact .complete ⟨⟨id, _, _, operationDeposit⟩, caller, sender⟩ w.sent w.outside
      ⟨rfl, by simp [Op.completes, hdecode]⟩
      ⟨hpending, ⟨rfl, rfl, hkind⟩, hcount, config, hconfig, hcaller, hsender⟩
      (append_nil _).symm
  | withdrawalReturn caller domain src amount extraData =>
    simp only [receiveWithdrawalReturn, authenticateRemote, decodeCallback,
      validatePendingOperation, completeOperation, rules, ok_call, ↓existsAndEq, not_or,
      okOr_eq_ok, Prod.exists] at hc
    obtain ⟨config, hconfig, _, hcaller, hsender, id, hdecode, _, _, hpending, hamount, hkind, _, e,
      _, hcount, rfl⟩ := hc
    exact .complete ⟨⟨id, w.operations.users id, amount, operationWithdraw⟩, caller, src⟩ _ e
      ⟨rfl, by simp [Op.completes, hdecode]⟩
      ⟨hpending, ⟨rfl, hamount, hkind⟩, hcount, config, hconfig, hcaller, hsender⟩
      (by simp [payments])
  | setAsset sender asset tokenBridge chainId =>
    simp only [setAsset, ensureOwner, ensureNoPendingOperations, rules] at hc
    obtain ⟨_, hzero, _, _, _, rfl⟩ := hc
    exact .other _ w.outside ⟨rfl, rfl⟩ (.inr hzero)
  | setCrosschainBridge sender bridge =>
    simp only [setCrosschainBridge, ensureOwner, ensureNoPendingOperations, rules] at hc
    obtain ⟨_, hzero, rfl⟩ := hc
    exact .other _ w.outside ⟨rfl, rfl⟩ (.inr hzero)
  | setRemoteVaultRouter sender chainId router =>
    simp only [setRemoteVaultRouter, ensureOwner, ensureNoPendingOperations, rules] at hc
    obtain ⟨_, hzero, _, rfl⟩ := hc
    exact .other _ w.outside ⟨rfl, rfl⟩ (.inr hzero)
  | outside e =>
    obtain rfl := ok_modify.mp hc
    exact .other w.settings e ⟨rfl, rfl⟩ (.inl rfl)

variable {st : State ID E}

theorem books_step {op : Op E} (hfits : op.Fits X st) (h : Books st) : Books (step X op st) := by
  obtain ⟨htable, hshares⟩ := h
  unfold step
  split
  · rename_i r w' hrun
    obtain ⟨hroom, hsum⟩ := hfits r w' hrun
    cases change_of_ok hrun with
    | create o config sent e journal peers fresh unpaid enough =>
      rw [journal.1] at hroom ⊢
      rw [journal.2, append_nil]
      refine ⟨htable.create peers fresh (hroom (cons_ne_nil _ _)), ?_⟩
      rw [map_append]
      exact hshares.create unpaid enough
    | complete d sent e journal accepts paid =>
      rw [journal.2] at hsum ⊢
      rw [journal.1, append_nil]
      refine ⟨htable.complete accepts, ?_⟩
      rw [map_append]
      exact hshares.complete paid (hsum d (mem_singleton_self d))
    | other settings e journal gate =>
      rw [journal.1, journal.2, append_nil, append_nil]
      refine ⟨?_, hshares⟩
      rcases gate with rfl | hzero
      · exact htable
      · exact htable.reconfigure hzero settings
  · exact ⟨htable, hshares⟩

/-- Nothing was created yet. -/
structure State.Fresh (st : State ID E) : Prop where
  created : st.created = []
  completed : st.completed = []
  status : ∀ id, st.world.operations.statuses id = 0
  pending : st.world.operations.pending = 0
  shares : ∀ user, st.world.shares.held user = 0
  total : st.world.shares.total = 0
  sent : st.world.sent = []

theorem State.Fresh.books (h : st.Fresh) : Books st := by
  obtain ⟨⟨_, _, _, _, _, _⟩, _, _⟩ := st
  obtain ⟨rfl, rfl, hstatus, hpending, hshares, htotal, rfl⟩ := h
  constructor
  · constructor <;> simp_all
  · constructor <;> simp_all [amountOf, payments]

theorem Table.pending_ncard (h : Table settings ops created completed) :
    {id | ops.statuses id = statusPending}.Finite ∧
      ops.pending = {id | ops.statuses id = statusPending}.ncard := by
  have hset : {id | ops.statuses id = statusPending}
      = ↑((created.map (·.id)).toFinset \ (completed.map (·.id)).toFinset) := by
    ext id
    rw [Set.mem_ofPred_eq, h.status id, Finset.mem_coe, Finset.mem_sdiff, mem_toFinset,
      mem_toFinset]
    by_cases hdone : id ∈ completed.map (·.id)
    · rw [if_pos hdone]
      exact iff_of_false (by decide) fun hin => hin.2 hdone
    · rw [if_neg hdone]
      by_cases hin : id ∈ created.map (·.id)
      · rw [if_pos hin]
        exact iff_of_true rfl ⟨hin, hdone⟩
      · rw [if_neg hin]
        exact iff_of_false (by decide) fun hmem => hin hmem.1
  rw [hset]
  refine ⟨Finset.finite_toSet _, ?_⟩
  have hsub : (completed.map (·.id)).toFinset ⊆ (created.map (·.id)).toFinset := by
    intro id hid
    exact mem_toFinset.mpr (h.completed_subset (mem_toFinset.mp hid))
  have hcount := h.count
  rw [Set.ncard_coe_finset, Finset.card_sdiff_of_subset hsub, toFinset_card_of_nodup
    h.createdOnce, toFinset_card_of_nodup h.completedOnce, length_map, length_map]
  omega

theorem Books.paidTo_le (h : Books st) (user : Address) :
    paidTo user st.world.sent
      ≤ amountOf (ofUser operationWithdraw user) (st.created.map (·.toOperation)) := by
  obtain ⟨htable, hshares⟩ := h
  have hnodup : (st.completed.map (·.toOperation)).Nodup := by
    refine List.Nodup.of_map Operation.id ?_
    rw [map_map]
    exact htable.completedOnce
  have hsubset : st.completed.map (·.toOperation) ⊆ st.created.map (·.toOperation) := by
    intro o ho
    obtain ⟨d, hd, rfl⟩ := mem_map.mp ho
    obtain ⟨c, hc, heq, -⟩ := htable.authentic d hd
    exact mem_map.mpr ⟨c, hc, heq⟩
  obtain ⟨l, hperm, hsub⟩ := subperm_of_subset hnodup hsubset
  have hpaid : paidTo user st.world.sent
      = amountOf (ofUser operationWithdraw user) (st.completed.map (·.toOperation)) := by
    rw [paidTo, hshares.paid, filter_map, filter_filter, map_map]
    unfold amountOf
    congr 2
    refine filter_congr fun o _ => ?_
    simp [ofUser, ofKind, Bool.and_comm]
  rw [hpaid]
  calc amountOf (ofUser operationWithdraw user) (st.completed.map (·.toOperation))
      = amountOf (ofUser operationWithdraw user) l := ((hperm.filter _).map _).sum_eq.symm
    _ ≤ _ := ((hsub.filter _).map _).sum_le_sum fun _ _ => Nat.zero_le _

/-- In every state of a run without overflow the books are kept: the counter is the number of
operations with the status Pending, and a user is paid at most the shares they gave up. -/
theorem crosschain_books (X : Externals ID E) (st : State ID E) (hfresh : st.Fresh)
    (ops : List (Op E)) (h : Runs.Along (step X) (Op.Fits X) ops st) :
    Books (Runs.run (step X) ops st) ∧
      ({id | (Runs.run (step X) ops st).world.operations.statuses id = statusPending}.Finite ∧
        (Runs.run (step X) ops st).world.operations.pending
          = {id | (Runs.run (step X) ops st).world.operations.statuses id = statusPending}.ncard) ∧
      ∀ user, paidTo user (Runs.run (step X) ops st).world.sent
        ≤ amountOf (ofUser operationWithdraw user)
            ((Runs.run (step X) ops st).created.map (·.toOperation)) := by
  have hbooks : Books (Runs.run (step X) ops st) :=
    Runs.run_inv Books (fun _ _ => books_step) h hfresh.books
  exact ⟨hbooks, hbooks.1.pending_ncard, hbooks.paidTo_le⟩

end

/-! ### A run -/

/-- Peers that answer every call, a hash that is its input, and payloads of three bytes: the kind of
the callback, and the nonce and the kind of its operation. -/
def sample : Externals (Nat × Nat × Address × Nat × Nat) Unit where
  chainId := 1
  keccak256 := id
  abiDecode
    | [kind, nonce, operation] =>
      some (kind.toNat, (1, nonce.toNat, 5#160, operation.toNat, 1), 5#160, 1)
    | _ => none
  decodeU256 := fun _ => some 0
  decodeB256 := fun _ => some 0
  call := fun _ _ _ e => .ok ([], e)
  quote := fun _ _ _ => .ok []

/-- A configured vault without operations. -/
def start : State (Nat × Nat × Address × Nat × Nat) Unit where
  world := ⟨0, ⟨1, 2, 3, 56, fun _ => 4⟩, ⟨0, fun _ => 0, fun _ => 0, fun _ => 0, fun _ => 0, 0⟩,
    ⟨fun _ => 0, 0⟩, (), []⟩
  created := []
  completed := []

/-- One wei for user 5. -/
def depositOne : Op Unit := .deposit 5 1 0 0 0

/-- The wei of user 5 goes to the remote vault and comes back. -/
def roundTrip : List (Op Unit) :=
  [depositOne, .acknowledgement 1 0 (formatEvmV1 56 4) [2, 1, 1],
    .withdraw 5 1 0 0 0, .withdrawalReturn 3 56 (formatEvmV1 56 4) 1 [4, 2, 2]]

theorem crosschain_books_one :
    (Runs.run (step sample) (roundTrip.take 2) start).world.shares.held 5 = 1 ∧
      (Runs.run (step sample) roundTrip start).world.shares.held 5 = 0 ∧
      paidTo 5 (Runs.run (step sample) roundTrip start).world.sent = 1 ∧
      Books (Runs.run (step sample) roundTrip start) := by
  refine ⟨by decide +kernel, by decide +kernel, by decide +kernel,
    (crosschain_books sample start (by constructor <;> intros <;> rfl) _ ?_).1⟩
  have hfits : ∀ {op : Op Unit} {st}, st.world.operations.pending + 1 < 2 ^ 256 →
      ((op.completes sample).all fun c => st.world.shares.total + c.amount < 2 ^ 256) = true →
      op.Fits sample st := fun hpending htotal _ _ _ =>
    ⟨fun _ => hpending, fun c hc _ => of_decide_eq_true (all_eq_true.mp htotal c hc)⟩
  exact ⟨hfits (by decide) (by decide), hfits (by decide +kernel) (by decide +kernel),
    hfits (by decide +kernel) (by decide +kernel), hfits (by decide +kernel) (by decide +kernel),
    trivial⟩

/-- The id of the `n`-th deposit. -/
def nthId (n : Nat) : Nat × Nat × Address × Nat × Nat := (1, n % 2 ^ 256, 5, 1, 1)

/-- A deposit of the sample succeeds when its id is free. -/
theorem depositOne_ok {w : World (Nat × Nat × Address × Nat × Nat) Unit} {n : Nat}
    (hsettings : w.settings = start.world.settings) (hnonce : w.operations.nonce = n % 2 ^ 256)
    (hfree : w.operations.statuses (nthId (n + 1)) = 0) :
    ∃ w', Ok (depositOne.call sample) w (some (nthId (n + 1))) w' := by
  have hnext : wrappingAdd 256 w.operations.nonce 1 = (n + 1) % 2 ^ 256 := by
    rw [hnonce, wrappingAdd, Nat.mod_add_mod]
  have hconfig : configuration start.world.settings = .ok ⟨2, 3, 1, 56, 56, 4⟩ := by rfl
  simp only [depositOne, Op.call, ok_map]
  refine exists_comm.mp ⟨(nthId (n + 1), 0), ?_⟩
  simp only [deposit, validateAmount, nextOperationId, quoteFee, ensureFee, recordOperation,
    sendId, rules, ok_call, ↓existsAndEq, hsettings, hnext, hconfig]
  exact ⟨by decide, by decide, _, rfl, [], rfl, rfl, hfree, [], rfl, [], rfl, [], rfl, 0, rfl, [], rfl,
    rfl, trivial⟩

/-- After `n` deposits the nonce and the counter are `n` in 256 bits, and the ids from the first to
the `n`-th are pending. -/
theorem deposits_pending {n : Nat} (hn : n ≤ 2 ^ 256) :
    ∃ st, st = Runs.run (step sample) (List.replicate n depositOne) start ∧
      st.world.settings = start.world.settings ∧ st.world.operations.nonce = n % 2 ^ 256 ∧
      st.world.operations.pending = n % 2 ^ 256 ∧
      (∀ k, n < k → k ≤ 2 ^ 256 → st.world.operations.statuses (nthId k) = 0) ∧
      (0 < n → st.world.operations.statuses (nthId 1) = statusPending) := by
  induction n with
  | zero => exact ⟨start, rfl, rfl, rfl, rfl, fun _ _ _ => rfl, fun h => absurd h (by decide)⟩
  | succ n ih =>
    obtain ⟨st, hst, hsettings, hnonce, hpending, hfree, hfirst⟩ := ih (by omega)
    obtain ⟨w', hcall⟩ := depositOne_ok hsettings hnonce (hfree (n + 1) (by omega) hn)
    obtain ⟨o, hid, hops, hset⟩ : ∃ o : Operation _, o.id = nthId (n + 1) ∧
        w'.operations = st.world.operations.record o ∧ w'.settings = st.world.settings := by
      generalize hr : some (nthId (n + 1)) = r at hcall
      cases change_of_ok hcall with
      | create o => exact ⟨o, (Option.some.inj hr).symm, rfl, rfl⟩
      | complete | other => exact nomatch hr
    have hne : ∀ k, k % 2 ^ 256 ≠ (n + 1) % 2 ^ 256 → nthId k ≠ nthId (n + 1) :=
      fun k hmod heq => hmod (congrArg (·.2.1) heq)
    refine ⟨step sample depositOne st, ?_, ?_⟩
    · rw [replicate_succ', Runs.run_append, ← hst]
      rfl
    · rw [step, show (depositOne.call sample).run st.world = _ from hcall]
      dsimp only
      rw [hops]
      refine ⟨hset.trans hsettings, ?_, ?_, ?_, fun _ => ?_⟩
      · show wrappingAdd 256 st.world.operations.nonce 1 = _
        rw [hnonce, wrappingAdd, Nat.mod_add_mod]
      · show wrappingAdd 256 st.world.operations.pending 1 = _
        rw [hpending, wrappingAdd, Nat.mod_add_mod]
      · intro k hk hle
        show update st.world.operations.statuses _ _ _ = 0
        rw [hid, update_of_ne (hne k (by omega))]
        exact hfree k (by omega) hle
      · show update st.world.operations.statuses _ _ _ = _
        rw [hid]
        by_cases h0 : n = 0
        · rw [h0, update_self]
        · rw [update_of_ne (hne 1 (by omega)), hfirst (by omega)]

/-- After `2 ^ 256` deposits nothing is pending by the counter, while the first one is. -/
theorem pending_wraps : ∃ ops : List (Op Unit),
    (Runs.run (step sample) ops start).world.operations.pending = 0 ∧
      (Runs.run (step sample) ops start).world.operations.statuses (nthId 1) = statusPending := by
  obtain ⟨st, hst, -, -, hpending, -, hfirst⟩ := deposits_pending (le_refl (2 ^ 256))
  refine ⟨List.replicate (2 ^ 256) depositOne, ?_⟩
  rw [← hst, hpending]
  exact ⟨Nat.mod_self _, hfirst (Nat.two_pow_pos 256)⟩

end Rudis.VaultRouter
