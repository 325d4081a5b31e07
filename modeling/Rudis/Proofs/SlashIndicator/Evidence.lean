import Rudis.Proofs.SlashIndicator.Votes
import Rudis.Proofs.Punishment

/-!
# `Rudis.Proofs.SlashIndicator.Evidence`: whom evidence punishes

`submission_cases` says what an accepted submission has shown: two verified blocks of one key for
one round, of the kinds its entry point asks for. `Honest` is the signing discipline of the
Simplex protocol. A key that keeps it has no pair of votes that any entry point but
`submit_conflicting_vote_evidence` accepts, and that one accepts a notarize and a nullify vote of
one round, which the protocol allows (`honest_cannot_verify`). A punishment touches the punished
validator only (`Spares`), so a whole sequence of submissions spares an honest one
(`spares_of_submissions`).
-/

namespace Rudis.SlashIndicator

open List
open Tx
open ValidatorSet (ConsensusPubkey)

variable {X : Externals} {V : VoteExternals} {env : BlockEnv} {s s' : State} {u : Unit}

/-! ### What a punishment leaves alone -/

/-- A validator has been neither jailed nor slashed, and nobody was rewarded for it. -/
structure Spares (v : Address) (s s' : State) : Prop where
  registry : s'.world.validatorSet.registry = s.world.validatorSet.registry
  val : s'.world.validatorSet.val v = s.world.validatorSet.val v
  stake : s'.world.staking.stakeAmount v = s.world.staking.stakeAmount v
  /-- The withdrawals that wait in its list keep their amounts and times. -/
  withdrawals : ∀ {lists : Address → List Nat}, Staking.Queue s.world.staking lists →
    Staking.Queue s'.world.staking lists ∧
      ∀ i ∈ lists v, s'.world.staking.entries i = s.world.staking.entries i
  felonyCount : s'.store.felonyCount v = s.store.felonyCount v
  felonies : ∃ new, s'.store.felonies = s.store.felonies ++ new ∧ ∀ f ∈ new, f.validator ≠ v

namespace Spares

variable {v : Address} {s₁ s₂ s₃ : State}

theorem refl (v : Address) (s : State) : Spares v s s :=
  ⟨rfl, rfl, rfl, fun hq => ⟨hq, fun _ _ => rfl⟩, rfl, [], (append_nil _).symm,
    fun _ hf => absurd hf not_mem_nil⟩

theorem trans (h : Spares v s₁ s₂) (h' : Spares v s₂ s₃) : Spares v s₁ s₃ where
  registry := h'.registry.trans h.registry
  val := h'.val.trans h.val
  stake := h'.stake.trans h.stake
  withdrawals := fun hq => by
    obtain ⟨hq₂, hentries⟩ := h.withdrawals hq
    obtain ⟨hq₃, hentries'⟩ := h'.withdrawals hq₂
    exact ⟨hq₃, fun i hi => (hentries' i hi).trans (hentries i hi)⟩
  felonyCount := h'.felonyCount.trans h.felonyCount
  felonies := by
    obtain ⟨new, he, hne⟩ := h.felonies
    obtain ⟨new', he', hne'⟩ := h'.felonies
    exact ⟨new ++ new', by rw [he', he, append_assoc], forall_mem_append.mpr ⟨hne, hne'⟩⟩

end Spares

/-- A felony concerns the validator it names. -/
theorem applyEvidenceFelony_spares {validator submitter v : Address} (hv : v ≠ validator)
    (h : Ok (applyEvidenceFelony X env validator submitter) s u s') : Spares v s s' := by
  simp only [applyEvidenceFelony, onWorld, Staking.onValidatorSet, writeStore, ok_bind,
    ok_zoom, ok_modify, ok_reads] at h
  obtain ⟨_, _, ⟨_, ⟨vs, hjail, rfl⟩, rfl⟩, _, _, rfl, percent, _, ⟨_, rfl⟩, slashed, _,
    ⟨w', hslash, rfl⟩, rewardPercent, _, ⟨_, rfl⟩, _, t, hreward, rfl⟩ := h
  obtain ⟨hjailRegistry, hjailVal⟩ := jailValidator_frame hjail
  obtain ⟨hregistry, hval, hstake, -, hqueue⟩ := slashStake_frame hslash
  -- the reward is paid out of nothing into the submitter's balance
  have hpaid : t.world.staking = w'.staking ∧ t.world.validatorSet = w'.validatorSet ∧
      t.store.felonyCount v = s.store.felonyCount v ∧ t.store.felonies = s.store.felonies := by
    have hcount : update s.store.felonyCount validator
        (wrappingAdd 64 (s.store.felonyCount validator) 1) v = s.store.felonyCount v :=
      update_of_ne hv _ _
    obtain ⟨_, hreward⟩ | ⟨_, rfl⟩ := ok_when.mp hreward
    · simp only [Staking.onBalances, increaseBalance, ok_zoom, rules] at hreward
      obtain ⟨_, _, ⟨_, rfl⟩, _, _, ⟨_, rfl⟩, rfl⟩ := hreward
      exact ⟨rfl, rfl, hcount, rfl⟩
    · exact ⟨rfl, rfl, hcount, rfl⟩
  obtain ⟨hstaking, hvs, hcount, hfelonies⟩ := hpaid
  refine ⟨?_, ?_, ?_, fun hq => ?_, hcount, _, congrArg (· ++ _) hfelonies, fun f hf => ?_⟩
  · show t.world.validatorSet.registry = _
    rw [hvs, hregistry, hjailRegistry]
  · show t.world.validatorSet.val v = _
    rw [hvs, hval v hv, hjailVal v hv]
  · show t.world.staking.stakeAmount v = _
    rw [hstaking, hstake v hv]
  · obtain ⟨hq', hentries⟩ := hqueue hq
    show Staking.Queue t.world.staking _ ∧ ∀ i ∈ _, t.world.staking.entries i = _
    rw [hstaking]
    exact ⟨hq', fun i hi => hentries v hv i hi⟩
  · rw [mem_singleton.mp hf]
    exact hv.symm

/-- The call that ends a submission punishes the owner of the key. -/
theorem punishSigner_spares {caller v : Address} {evidenceHash pubkeyHash : B256}
    (hv : v ≠ lookupByPubkeyHash s pubkeyHash)
    (h : Ok (punishSigner X env caller evidenceHash pubkeyHash) s u s') : Spares v s s' := by
  simp only [punishSigner, writeStore, rules] at h
  obtain ⟨_, hfelony⟩ := h
  obtain ⟨hregistry, hval, hstake, hqueue, hcount, hfelonies⟩ :=
    applyEvidenceFelony_spares hv hfelony
  exact ⟨hregistry, hval, hstake, hqueue, hcount, hfelonies⟩

/-! ### What an accepted submission has shown -/

variable (X V) in
/-- The signature checks of an entry point. -/
def EntryPoint.Verified (entry : EntryPoint) (ev1 ev2 : EvidenceBlock)
    (committee : EvidenceCommittee) : Prop :=
  match entry with
  | .doubleProposal | .conflictingNotarize =>
    ev1.proposalBytes ≠ ev2.proposalBytes ∧
      ev1.verifyNotarizeSignature X V committee = .ok () ∧
      ev2.verifyNotarizeSignature X V committee = .ok ()
  | .conflictingVote => conflictingVotes X V ev1 ev2 committee = true
  | .conflictingFinalize =>
    ev1.proposalBytes ≠ ev2.proposalBytes ∧
      ev1.verifyFinalizeSignature X V committee = .ok () ∧
      ev2.verifyFinalizeSignature X V committee = .ok ()
  | .nullifyFinalize =>
    ev1.verifyNullifySignature X V committee = .ok () ∧
      ev2.verifyFinalizeSignature X V committee = .ok ()

/-- Two blocks of one key and one round, with the committee they were verified under. -/
structure Shown (entry : EntryPoint) (ev1 ev2 : EvidenceBlock) (committee : EvidenceCommittee) :
    Prop where
  signer : ev1.pubkey = ev2.pubkey
  round : ∃ round, ev1.round = .ok round ∧ ev2.round = .ok round
  verified : entry.Verified X V ev1 ev2 committee

variable {caller : Address}

theorem requireActiveSubmitter_ok (h : Ok (requireActiveSubmitter X caller) s u s') : s' = s := by
  simp only [requireActiveSubmitter, ok_bind, ok_query, ok_failIf] at h
  obtain ⟨_, _, ⟨_, rfl⟩, _, rfl⟩ := h
  rfl

theorem applyEquivocationFelony_cases {block1 block2 : List UInt8}
    {distinct : Bool} {verify1 verify2 : EvidenceBlock → EvidenceCommittee → Result Unit}
    (h : Ok (applyEquivocationFelony X V env caller block1 block2 distinct verify1 verify2)
      s u s') :
    ∃ ev1 ev2 committee evidenceHash, ev1.pubkey = ev2.pubkey ∧
      (∃ round, ev1.round = .ok round ∧ ev2.round = .ok round) ∧
      (distinct = true → ev1.proposalBytes ≠ ev2.proposalBytes) ∧
      verify1 ev1 committee = .ok () ∧ verify2 ev2 committee = .ok () ∧
      Ok (punishSigner X env caller evidenceHash (ev1.pubkeyHash X)) s () s' := by
  simp only [applyEquivocationFelony, rules] at h
  obtain ⟨_, hsubmitter, ev1, -, ev2, -, hkey, round1, hround1, round2, hround2, rfl, hdistinct, -,
    committee, -, hverify1, hverify2, hpunish⟩ := h
  obtain rfl := requireActiveSubmitter_ok hsubmitter
  refine ⟨ev1, ev2, committee, _, hkey, ⟨round1, hround1, hround2⟩, ?_, hverify1, hverify2, hpunish⟩
  intro htrue hsame
  exact hdistinct ⟨htrue, hsame⟩

/-- What an accepted submission has shown, and whom it punishes. -/
theorem submission_cases {i : Submission} (h : Ok (i.call X V) s u s') :
    ∃ ev1 ev2 committee evidenceHash, Shown (X := X) (V := V) i.entry ev1 ev2 committee ∧
      Ok (punishSigner X i.env i.caller evidenceHash (ev1.pubkeyHash X)) s () s' := by
  obtain ⟨env, entry, caller, block1, block2⟩ := i
  cases entry with
  | doubleProposal =>
    simp only [Submission.call, submitDoubleProposalEvidence, rules] at h
    obtain ⟨_, hsubmitter, ev1, -, ev2, -, hkey, hdistinct, round1, hround1, round2, hround2,
      rfl, -, committee, -, hverify1, hverify2, hpunish⟩ := h
    obtain rfl := requireActiveSubmitter_ok hsubmitter
    exact ⟨ev1, ev2, committee, _, ⟨hkey, ⟨round1, hround1, hround2⟩,
      hdistinct, hverify1, hverify2⟩, hpunish⟩
  | conflictingVote =>
    simp only [Submission.call, submitConflictingVoteEvidence, rules] at h
    obtain ⟨_, hsubmitter, ev1, -, ev2, -, hkey, round1, hround1, round2, hround2, rfl, -,
      committee, -, hvalid, hpunish⟩ := h
    obtain rfl := requireActiveSubmitter_ok hsubmitter
    exact ⟨ev1, ev2, committee, _, ⟨hkey, ⟨round1, hround1, hround2⟩,
      Bool.eq_true_of_not_eq_false hvalid⟩, hpunish⟩
  | conflictingNotarize | conflictingFinalize =>
    obtain ⟨ev1, ev2, committee, hash, hkey, hround, hdistinct, hverify1, hverify2, hpunish⟩ :=
      applyEquivocationFelony_cases h
    exact ⟨ev1, ev2, committee, hash, ⟨hkey, hround, hdistinct rfl, hverify1, hverify2⟩, hpunish⟩
  | nullifyFinalize =>
    obtain ⟨ev1, ev2, committee, hash, hkey, hround, -, hverify1, hverify2, hpunish⟩ :=
      applyEquivocationFelony_cases h
    exact ⟨ev1, ev2, committee, hash, ⟨hkey, hround, hverify1, hverify2⟩, hpunish⟩

/-! ### Honest signers -/

/-- The signing discipline of a protocol-honest key: in each round at most one notarize payload,
at most one finalize payload, and never both a nullify and a finalize. -/
structure Honest (hist : History) (pk : ConsensusPubkey) : Prop where
  notarize_unique : ∀ {c c' : EvidenceCommittee} {p p' : Proposal}, hist pk c (.notarize p) →
    hist pk c' (.notarize p') → p.round = p'.round → p = p'
  finalize_unique : ∀ {c c' : EvidenceCommittee} {p p' : Proposal}, hist pk c (.finalize p) →
    hist pk c' (.finalize p') → p.round = p'.round → p = p'
  nullify_or_finalize : ∀ {c c' : EvidenceCommittee} {r : Round} {p : Proposal},
    hist pk c (.nullify r) → hist pk c' (.finalize p) → p.round ≠ r

/-- The key has signed no notarize and nullify vote of one round. -/
def NeverNullifiesNotarized (hist : History) (pk : ConsensusPubkey) : Prop :=
  ∀ {c c' : EvidenceCommittee} {p : Proposal} {r : Round}, hist pk c (.notarize p) →
    hist pk c' (.nullify r) → p.round ≠ r

variable {hist : History} {ev1 ev2 : EvidenceBlock} {committee : EvidenceCommittee}

variable {v1 v2 vote : Vote}

/-- Two votes whose evidence is filed under one round are votes of one round. -/
theorem round_eq_of_payloads (h1 : v1.payload = ev1.proposalBytes)
    (h2 : v2.payload = ev2.proposalBytes)
    (hround : ∃ round, ev1.round = .ok round ∧ ev2.round = .ok round) : v1.round = v2.round := by
  obtain ⟨round, hr1, hr2⟩ := hround
  rw [round_of_payload h1] at hr1
  rw [round_of_payload h2, ← hr1] at hr2
  simp only [Except.ok.injEq, Prod.mk.injEq] at hr2
  exact Round.ext hr2.1.symm hr2.2.symm

theorem Vote.eq_notarize (h : vote.kind = .notarize) : ∃ p, vote = .notarize p := by
  cases vote <;> first | exact ⟨_, rfl⟩ | cases h

theorem Vote.eq_nullify (h : vote.kind = .nullify) : ∃ r, vote = .nullify r := by
  cases vote <;> first | exact ⟨_, rfl⟩ | cases h

theorem Vote.eq_finalize (h : vote.kind = .finalize) : ∃ p, vote = .finalize p := by
  cases vote <;> first | exact ⟨_, rfl⟩ | cases h

/-- A notarize and a nullify block of one round are votes the key has signed. -/
theorem notarize_and_nullify_of_verify (hU : Unforgeable X V hist ev1.pubkey)
    (hkey : ev1.pubkey = ev2.pubkey)
    (hround : ∃ round, ev1.round = .ok round ∧ ev2.round = .ok round)
    (h1 : ev1.verifyNotarizeSignature X V committee = .ok u)
    (h2 : ev2.verifyNullifySignature X V committee = .ok u) :
    ¬ NeverNullifiesNotarized hist ev1.pubkey := by
  intro hnever
  have h1 : ev1.verifyBlsSignature X V (VoteKind.ns X V .notarize committee) = .ok u := h1
  have h2 : ev2.verifyBlsSignature X V (VoteKind.ns X V .nullify committee) = .ok u := h2
  obtain ⟨c, vote, hsigned, hkind, hpayload⟩ := vote_of_verify hU h1
  obtain ⟨c', vote', hsigned', hkind', hpayload'⟩ := vote_of_verify (hkey ▸ hU) h2
  obtain ⟨p, rfl⟩ := Vote.eq_notarize hkind
  obtain ⟨r, rfl⟩ := Vote.eq_nullify hkind'
  exact hnever hsigned (hkey ▸ hsigned') (round_eq_of_payloads hpayload hpayload' hround)

/-- Two different payloads of one kind and one round are signed by no key that signs at most one. -/
theorem payload_eq_of_unique {kind : VoteKind} (hU : Unforgeable X V hist ev1.pubkey)
    (hkey : ev1.pubkey = ev2.pubkey)
    (hround : ∃ round, ev1.round = .ok round ∧ ev2.round = .ok round)
    (hunique : ∀ {c c' : EvidenceCommittee} {a b : Vote}, hist ev1.pubkey c a →
      hist ev1.pubkey c' b → a.kind = kind → b.kind = kind → a.round = b.round → a = b)
    (h1 : ev1.verifyBlsSignature X V (kind.ns X V committee) = .ok u)
    (h2 : ev2.verifyBlsSignature X V (kind.ns X V committee) = .ok u) :
    ev1.proposalBytes = ev2.proposalBytes := by
  obtain ⟨c, a, hsigned, hkind, hpayload⟩ := vote_of_verify hU h1
  obtain ⟨c', b, hsigned', hkind', hpayload'⟩ := vote_of_verify (hkey ▸ hU) h2
  have hab : a = b := hunique hsigned (hkey ▸ hsigned') hkind hkind'
    (round_eq_of_payloads hpayload hpayload' hround)
  rw [← hpayload, ← hpayload', hab]

/-- No entry point verifies a pair of votes of an honest key; the one for conflicting votes
verifies a pair only if the key has nullified a round it has notarized. -/
theorem honest_cannot_verify {entry : EntryPoint} (hU : Unforgeable X V hist ev1.pubkey)
    (hhonest : Honest hist ev1.pubkey)
    (hnever : entry = .conflictingVote → NeverNullifiesNotarized hist ev1.pubkey) :
    ¬ Shown (X := X) (V := V) entry ev1 ev2 committee := by
  rintro ⟨hkey, hround, hverified⟩
  have hnotarize : ∀ {c c' : EvidenceCommittee} {a b : Vote}, hist ev1.pubkey c a →
      hist ev1.pubkey c' b → a.kind = .notarize → b.kind = .notarize → a.round = b.round →
      a = b := by
    intro c c' a b ha hb hka hkb hr
    obtain ⟨p, rfl⟩ := Vote.eq_notarize hka
    obtain ⟨p', rfl⟩ := Vote.eq_notarize hkb
    rw [hhonest.notarize_unique ha hb hr]
  have hfinalize : ∀ {c c' : EvidenceCommittee} {a b : Vote}, hist ev1.pubkey c a →
      hist ev1.pubkey c' b → a.kind = .finalize → b.kind = .finalize → a.round = b.round →
      a = b := by
    intro c c' a b ha hb hka hkb hr
    obtain ⟨p, rfl⟩ := Vote.eq_finalize hka
    obtain ⟨p', rfl⟩ := Vote.eq_finalize hkb
    rw [hhonest.finalize_unique ha hb hr]
  cases entry with
  | doubleProposal | conflictingNotarize =>
    obtain ⟨hdistinct, h1, h2⟩ := hverified
    exact hdistinct (payload_eq_of_unique hU hkey hround hnotarize h1 h2)
  | conflictingFinalize =>
    obtain ⟨hdistinct, h1, h2⟩ := hverified
    exact hdistinct (payload_eq_of_unique hU hkey hround hfinalize h1 h2)
  | nullifyFinalize =>
    have h1 : ev1.verifyBlsSignature X V (VoteKind.ns X V .nullify committee) = .ok () :=
      hverified.1
    have h2 : ev2.verifyBlsSignature X V (VoteKind.ns X V .finalize committee) = .ok () :=
      hverified.2
    obtain ⟨c, vote, hsigned, hkind, hpayload⟩ := vote_of_verify hU h1
    obtain ⟨c', vote', hsigned', hkind', hpayload'⟩ := vote_of_verify (hkey ▸ hU) h2
    obtain ⟨r, rfl⟩ := Vote.eq_nullify hkind
    obtain ⟨p, rfl⟩ := Vote.eq_finalize hkind'
    exact hhonest.nullify_or_finalize hsigned (hkey ▸ hsigned')
      (round_eq_of_payloads hpayload hpayload' hround).symm
  | conflictingVote =>
    have hvotes : conflictingVotes X V ev1 ev2 committee = true := hverified
    simp only [conflictingVotes, Bool.or_eq_true, Bool.and_eq_true] at hvotes
    -- the code tries both orders of the two blocks
    rcases hvotes with ⟨h1, h2⟩ | ⟨h1, h2⟩
    · exact notarize_and_nullify_of_verify hU hkey hround (isOk_unit h1) (isOk_unit h2) (hnever rfl)
    · obtain ⟨round, hr1, hr2⟩ := hround
      exact notarize_and_nullify_of_verify (hkey ▸ hU) hkey.symm ⟨round, hr2, hr1⟩ (isOk_unit h2)
        (isOk_unit h1) (hkey ▸ hnever rfl)
where
  isOk_unit {x : Result Unit} (h : x.isOk = true) : x = .ok () := by
    cases x with
    | error e => cases h
    | ok a => rfl

/-! ### Sequences of submissions -/

variable (X) in
/-- Every consensus key registered for the validator satisfies `P`. -/
def KeysOf (s : State) (v : Address) (P : ConsensusPubkey → Prop) : Prop :=
  ∀ pk, lookupByPubkeyHash s (ValidatorSet.consensusPubkeyHash X pk) = v → P pk

theorem KeysOf.of_spares {v : Address} {P : ConsensusPubkey → Prop} (h : Spares v s s')
    (hkeys : KeysOf X s v P) : KeysOf X s' v P := by
  intro pk hpk
  refine hkeys pk ?_
  rw [lookupByPubkeyHash, h.registry] at hpk
  exact hpk

/-- One submission spares an honest validator. -/
theorem spares_of_submit {i : Submission} {v : Address}
    (hU : ∀ pk, Honest hist pk → Unforgeable X V hist pk) (hhonest : KeysOf X s v (Honest hist))
    (hnever : i.entry = .conflictingVote → KeysOf X s v (NeverNullifiesNotarized hist)) :
    Spares v s (submit X V i s) := by
  rcases checkpoint_cases (i.call X V) s with ⟨_, h⟩ | h
  · obtain ⟨ev1, ev2, committee, hash, hshown, hpunish⟩ := submission_cases h
    refine punishSigner_spares (fun hv => ?_) hpunish
    have hkey := hhonest ev1.pubkey hv.symm
    exact honest_cannot_verify (hU _ hkey) hkey (fun he => hnever he ev1.pubkey hv.symm) hshown
  · rw [submit, h]
    exact Spares.refl v s

/-- No sequence of submissions punishes an honest validator, whoever submits and whatever the
state it starts in, as long as conflicting-vote evidence meets no validator that has nullified a
round it has notarized. -/
theorem spares_of_submissions {v : Address} (subs : List Submission)
    (hU : ∀ pk, Honest hist pk → Unforgeable X V hist pk) (hhonest : KeysOf X s v (Honest hist))
    (hnever : (∃ i ∈ subs, i.entry = .conflictingVote) →
      KeysOf X s v (NeverNullifiesNotarized hist)) : Spares v s (Runs.run (submit X V) subs s) := by
  induction subs generalizing s with
  | nil => exact Spares.refl v s
  | cons i subs ih =>
    have hfirst : Spares v s (submit X V i s) :=
      spares_of_submit hU hhonest fun he => hnever ⟨i, mem_cons_self, he⟩
    -- a punishment registers nobody, so the validator keeps its keys
    refine hfirst.trans (ih (hhonest.of_spares hfirst) ?_)
    rintro ⟨j, hj, he⟩
    exact (hnever ⟨j, mem_cons_of_mem i hj, he⟩).of_spares hfirst

/-! ### A notarize vote and the nullify vote of its timeout -/

/-- Alice and Bob are the committee of epoch 1. -/
def sampleState : State where
  world := Runs.run (step sampleExternals) (sampleJoins alice 1 ++ sampleJoins bob 2 ++
    [(sampleEnv, .activateBoundary ⟨none, 1, ⟨[⟨alice.address, 1⟩, ⟨bob.address, 2⟩], 0, [1], 0⟩, 1,
        [alice.address, bob.address], 0, []⟩)]) (World.fresh 9 1 fun _ => 1000)
  store := ⟨0, 0, fun _ => 0, fun _ => false, []⟩

def sampleRound : Round := ⟨1, 7, by decide, by decide⟩

def sampleProposal : Proposal := ⟨sampleRound, 6, 9⟩

/-- Alice notarizes a proposal of view 7, and nullifies the view when it times out. -/
def sampleHistory : History := fun pk committee vote =>
  pk = 1 ∧ committee = [1, 2] ∧ (vote = .notarize sampleProposal ∨ vote = .nullify sampleRound)

/-- The namespaces of chain 1, under which only Alice's two votes verify. -/
def sampleVotes : VoteExternals :=
  let V : VoteExternals := ⟨fun _ => true, fun _ _ _ => false, 1⟩
  { V with blsVerify := fun pk _ message => decide (pk = 1 ∧
    (message = (Vote.notarize sampleProposal).message sampleExternals V [1, 2] ∨
      message = (Vote.nullify sampleRound).message sampleExternals V [1, 2])) }

/-- A vote of Alice as an evidence block. -/
def sampleBlock (vote : Vote) : List UInt8 := beBytes 48 1 ++ beBytes 96 0 ++ vote.payload

/-- Bob submits Alice's two votes. -/
def sampleSubmission : Submission :=
  ⟨sampleEnv, .conflictingVote, bob.address, sampleBlock (.notarize sampleProposal),
    sampleBlock (.nullify sampleRound)⟩

theorem honest_sampleHistory (pk : ConsensusPubkey) : Honest sampleHistory pk where
  notarize_unique := by
    rintro c c' p p' ⟨-, -, h | h⟩ ⟨-, -, h' | h'⟩ _
    · rw [Vote.notarize.inj h, Vote.notarize.inj h']
    · cases h'
    · cases h
    · cases h
  finalize_unique := by
    rintro c c' p p' ⟨-, -, h | h⟩ _ _ <;> cases h
  nullify_or_finalize := by
    rintro c c' r p _ ⟨-, -, h | h⟩ <;> cases h

theorem unforgeable_sampleHistory (pk : ConsensusPubkey) :
    Unforgeable sampleExternals sampleVotes sampleHistory pk := by
  intro sig kind committee payload h
  obtain ⟨rfl, h | h⟩ := of_decide_eq_true h
  · exact ⟨_, _, ⟨rfl, rfl, .inl rfl⟩, h.symm⟩
  · exact ⟨_, _, ⟨rfl, rfl, .inr rfl⟩, h.symm⟩

/-- Bob's submission jails and slashes Alice, who has kept the signing discipline, and pays
Bob. -/
theorem notarize_then_nullify_is_punished :
    (∀ pk, Honest sampleHistory pk) ∧
      (∀ pk, Unforgeable sampleExternals sampleVotes sampleHistory pk) ∧
      (submit sampleExternals sampleVotes sampleSubmission sampleState).store.felonies =
        [⟨alice.address, bob.address, 10, 1⟩] ∧
      ((submit sampleExternals sampleVotes sampleSubmission sampleState).world.validatorSet.val
        alice.address).status = ValidatorSet.statusJailed ∧
      (submit sampleExternals sampleVotes sampleSubmission sampleState).world.staking.stakeAmount
        alice.address = 190 ∧
      ¬ Spares alice.address sampleState
        (submit sampleExternals sampleVotes sampleSubmission sampleState) := by
  have hstake : (submit sampleExternals sampleVotes sampleSubmission
      sampleState).world.staking.stakeAmount alice.address = 190 := by decide +kernel
  refine ⟨honest_sampleHistory, unforgeable_sampleHistory, by decide +kernel, by decide +kernel,
    hstake, fun h => ?_⟩
  have hbefore : sampleState.world.staking.stakeAmount alice.address = 200 := by decide +kernel
  rw [h.stake, hbefore] at hstake
  exact absurd hstake (by decide)

/-- The same submission spares Bob. -/
theorem bob_is_spared :
    Spares bob.address sampleState
        (Runs.run (submit sampleExternals sampleVotes) [sampleSubmission] sampleState) ∧
      (Runs.run (submit sampleExternals sampleVotes) [sampleSubmission] sampleState).store.felonies ≠
        [] := by
  have howner : lookupByPubkeyHash sampleState
      (ValidatorSet.consensusPubkeyHash sampleExternals 1) = alice.address := by decide +kernel
  refine ⟨spares_of_submissions [sampleSubmission] (fun pk _ => unforgeable_sampleHistory pk)
    (fun pk _ => honest_sampleHistory pk) fun _ pk hpk => ?_, by decide +kernel⟩
  -- only Alice's key has signed anything
  rintro c c' p r ⟨rfl, -⟩ _
  rw [howner] at hpk
  exact absurd hpk (by decide)

end Rudis.SlashIndicator
