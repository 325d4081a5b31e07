import Rudis.Spec.DkgCeremony

/-!
# `Rudis.Proofs.DkgCeremony`: the DKG output and the order of the logs

A ceremony freezes its output on the first recorded logs that reconstruct, so that the output is a
function of the *set* of finalized logs only where the reconstruction does not tell those first
sets apart. `restart_output_unique_iff` is that condition, for a reconstruction that succeeds on
every superset of logs on which it succeeds; `restart_output_depends_on_order` is a reconstruction
that does not meet it.
-/

namespace Rudis.Dkg.DkgCeremony

open List

variable {S : Scheme} {info : S.Info} {logs m m' : Logs S} {l : List (VerifiedDealerLog S)}
  {o : S.Output}

/-- What the logs reconstruct to. -/
def found (info : S.Info) (m : Logs S) : Option S.Output := (S.observe info m).toOption

/-- Every log of `m` is a log of `m'`. -/
def Within (m m' : Logs S) : Prop := ∀ d g, m.lookup d = some g → m'.lookup d = some g

/-- Reconstruction succeeds with every further log. -/
def Grows (S : Scheme) : Prop :=
  ∀ info (m m' : Logs S), Within m m' → found info m ≠ none → found info m' ≠ none

/-- The list delivers the logs of the map, in some order and perhaps repeatedly. -/
def Delivers (logs : Logs S) (l : List (VerifiedDealerLog S)) : Prop :=
  ∀ d g, ⟨d, g⟩ ∈ l ↔ logs.lookup d = some g

/-- The logs do not reconstruct, or there are none to try with. -/
def Pending (info : S.Info) (m : Logs S) : Prop := m = ∅ ∨ found info m = none

/-- Some order of the logs `m` reconstructs `o` with the last of them and nothing before. -/
def Freezes (info : S.Info) (m : Logs S) (o : S.Output) : Prop :=
  found info m = some o ∧ ∃ (m₀ : Logs S) (d : S.PublicKey) (g : S.DealerLog),
    d ∉ m₀ ∧ m = m₀.insert d g ∧ Pending info m₀

theorem exists_delivers (logs : Logs S) : ∃ l, Delivers logs l := by
  refine ⟨logs.entries.toList.map fun e => ⟨e.1, e.2⟩, fun d g => ?_⟩
  rw [← Option.mem_def, Finmap.mem_lookup_iff]
  simp [Sigma.exists]

/-- A list delivers one map only. -/
theorem Delivers.unique (h : Delivers m l) (h' : Delivers m' l) : m = m' :=
  Finmap.ext_lookup fun d => Option.ext fun g => (h d g).symm.trans (h' d g)

/-- A fresh log joins the recorded ones. -/
theorem Delivers.insert {v : VerifiedDealerLog S} (h : Delivers m l)
    (hv : v.dealer ∉ m) : Delivers (m.insert v.dealer v.log) (l ++ [v]) := by
  intro d g
  rw [mem_append, mem_singleton, h d g]
  by_cases hd : d = v.dealer
  · subst hd
    rw [Finmap.lookup_insert, Finmap.lookup_eq_none.mpr hv]
    cases v
    simp [eq_comm]
  · rw [Finmap.lookup_insert_of_ne _ hd]
    refine or_iff_left ?_
    rintro rfl
    exact hd rfl

theorem within_insert {d : S.PublicKey} {g : S.DealerLog} (h : d ∉ m) :
    Within m (m.insert d g) := by
  intro d' g' hg'
  have hd : d' ≠ d := fun heq => h (heq ▸ Finmap.mem_of_lookup_eq_some hg')
  rw [Finmap.lookup_insert_of_ne _ hd, hg']

/-- Logs that contain a set that freezes reconstruct. -/
theorem Freezes.not_pending (h : Freezes info m o) (hgrow : Grows S) (hm : Within m logs) :
    ¬ Pending info logs := by
  obtain ⟨hfound, m₀, d, g, -, rfl, -⟩ := h
  rintro (rfl | hnone)
  · have hlookup := hm d g (Finmap.lookup_insert _)
    simp at hlookup
  · exact hgrow info _ _ hm (by simp [hfound]) hnone

/-! ### What a ceremony has seen -/

/-- A ceremony that has recorded the logs `l`: an open one cannot reconstruct from them, and a
frozen output comes from the first of them that do. -/
structure Reached (info : S.Info) (l : List (VerifiedDealerLog S)) (c : DkgCeremony S) : Prop where
  info_eq : c.info = info
  recorded : Delivers c.finalizedDealerLogs l
  pending : c.output = none → Pending info c.finalizedDealerLogs
  frozen : ∀ o, c.output = some o → ∃ m, Within m c.finalizedDealerLogs ∧ Freezes info m o

variable {c : DkgCeremony S} {v : VerifiedDealerLog S}

/-- A second log of a dealer changes nothing. -/
theorem note_of_mem (h : v.dealer ∈ c.finalizedDealerLogs) : c.noteFinalizedDealerLog v = c := by
  simp [noteFinalizedDealerLog, applyFinalizedDealerLog, h]

/-- The first log of a dealer is recorded, and it completes the output if it can. -/
theorem note_of_not_mem (h : v.dealer ∉ c.finalizedDealerLogs) :
    let logs := c.finalizedDealerLogs.insert v.dealer v.log
    (c.noteFinalizedDealerLog v).info = c.info ∧
      (c.noteFinalizedDealerLog v).finalizedDealerLogs = logs ∧
      (c.noteFinalizedDealerLog v).output = c.output.or (found c.info logs) := by
  simp only [noteFinalizedDealerLog, applyFinalizedDealerLog, h, if_false, tryReconstructIfNeeded]
  cases hphase : c.phase with
  | reconstructed o => simp [output, hphase]
  | collecting =>
    cases hobs : S.observe c.info (c.finalizedDealerLogs.insert v.dealer v.log) with
    | ok o | error e => simp [output, hphase, found, hobs, Except.toOption]

theorem Reached.note (h : Reached info l c)
    (hv : ∀ g, c.finalizedDealerLogs.lookup v.dealer = some g → g = v.log) :
    Reached info (l ++ [v]) (c.noteFinalizedDealerLog v) := by
  by_cases hmem : v.dealer ∈ c.finalizedDealerLogs
  · rw [note_of_mem hmem]
    obtain ⟨g, hg⟩ := Finmap.mem_iff.mp hmem
    obtain rfl := hv g hg
    refine ⟨h.info_eq, fun d g => ?_, h.pending, h.frozen⟩
    rw [← h.recorded d g, mem_append, mem_singleton]
    exact or_iff_left_of_imp fun heq => heq ▸ (h.recorded _ _).mpr hg
  · obtain ⟨hinfo, hlogs, hout⟩ := note_of_not_mem hmem
    rw [h.info_eq] at hinfo hout
    refine ⟨hinfo, hlogs ▸ h.recorded.insert hmem, fun hnone => ?_, fun o ho => ?_⟩
    · rw [hout, Option.or_eq_none_iff] at hnone
      exact hlogs ▸ .inr hnone.2
    · rw [hlogs]
      cases hold : c.output with
      | some o' =>
        rw [hout, hold, Option.some_or] at ho
        obtain ⟨m, hm, hfreezes⟩ := h.frozen o (hold.trans ho)
        exact ⟨m, fun d g hg => within_insert hmem d g (hm d g hg), hfreezes⟩
      | none =>
        -- The logs before this one did not reconstruct.
        rw [hout, hold, Option.none_or] at ho
        exact ⟨_, fun _ _ hg => hg, ho, _, v.dealer, v.log, hmem, rfl, h.pending hold⟩

/-- The whole replay, in any order. -/
theorem Delivers.restart (h : Delivers logs l) (info : S.Info) :
    Reached info l (restartCeremonyWithFinalizedLogs info l) := by
  have hl : ∀ v ∈ l, logs.lookup v.dealer = some v.log := fun v hv => (h v.dealer v.log).mp hv
  clear h
  -- From the right: the last log is noted in the ceremony that has seen the others.
  induction l using List.reverseRecOn with
  | nil =>
    refine ⟨rfl, fun d g => ?_, fun _ => .inl rfl, fun o ho => ?_⟩
    · simp [restartCeremonyWithFinalizedLogs, new]
    · cases ho
  | append_singleton l v ih =>
    have hl' := ih fun v hv => hl v (mem_append_left _ hv)
    rw [restartCeremonyWithFinalizedLogs, foldl_append]
    refine hl'.note fun g hg => ?_
    have hg' := hl _ (mem_append_left _ ((hl'.recorded _ _).mpr hg))
    exact Option.some.inj (hg'.symm.trans (hl v (by simp)))

/-- A ceremony is open exactly while its logs do not reconstruct. -/
theorem Reached.output_eq_none_iff (h : Reached info l c) (hgrow : Grows S) :
    c.output = none ↔ Pending info c.finalizedDealerLogs := by
  refine ⟨h.pending, fun hpending => Option.eq_none_iff_forall_ne_some.mpr fun o ho => ?_⟩
  obtain ⟨m, hm, hfreezes⟩ := h.frozen o ho
  exact hfreezes.not_pending hgrow hm hpending

/-- A frozen output stays. -/
theorem output_foldl_note (h : c.output = some o) :
    (l.foldl noteFinalizedDealerLog c).output = some o := by
  induction l generalizing c with
  | nil => exact h
  | cons v l ih =>
    refine ih ?_
    by_cases hmem : v.dealer ∈ c.finalizedDealerLogs
    · rw [note_of_mem hmem, h]
    · rw [(note_of_not_mem hmem).2.2, h, Option.some_or]

/-! ### All orders -/

/-- Logs that reconstruct with the last of them freeze their output in some order of all logs. -/
theorem Freezes.exists_restart (h : Freezes info m o) (hgrow : Grows S) (hm : Within m logs) :
    ∃ l, Delivers logs l ∧ (restartCeremonyWithFinalizedLogs info l).output = some o := by
  obtain ⟨hfound, m₀, d, g, hd, rfl, hlast⟩ := h
  obtain ⟨l₀, hl₀⟩ := exists_delivers m₀
  obtain ⟨l, hl⟩ := exists_delivers logs
  refine ⟨l₀ ++ ⟨d, g⟩ :: l, fun d' g' => ?_, ?_⟩
  · -- What comes before the logs themselves is among them.
    rw [mem_append, mem_cons, hl₀ d' g', ← hl d' g', ← or_assoc]
    refine or_iff_right_of_imp fun hfirst => (hl d' g').mpr (hm d' g' ?_)
    rcases hfirst with hbefore | heq
    · exact within_insert hd d' g' hbefore
    · cases heq
      exact Finmap.lookup_insert _
  · have hc := hl₀.restart info
    rw [restartCeremonyWithFinalizedLogs, foldl_append, foldl_cons,
      ← restartCeremonyWithFinalizedLogs]
    generalize restartCeremonyWithFinalizedLogs info l₀ = c at hc
    obtain rfl := hc.recorded.unique hl₀
    refine output_foldl_note ?_
    rw [(note_of_not_mem (v := ⟨d, g⟩) hd).2.2, (hc.output_eq_none_iff hgrow).mpr hlast, hc.info_eq,
      Option.none_or, hfound]

/-- A reconstruction that needs one log and returns what `f` makes of the dealers it has. -/
abbrev dealersScheme {O : Type} (f : Finset Nat → O) : Scheme where
  PublicKey := Nat
  DealerLog := Unit
  Info := Unit
  Output := O
  observe _ m := if m.keys = ∅ then .error "not enough dealer logs" else .ok (f m.keys)

section

variable {O : Type} (f : Finset Nat → O)

theorem found_dealersScheme (m : Logs (dealersScheme f)) :
    found (S := dealersScheme f) () m ≠ none ↔ m.keys.Nonempty := by
  rw [Finset.nonempty_iff_ne_empty]
  show (if m.keys = ∅ then _ else _ : Except String O).toOption ≠ none ↔ _
  split <;> simp_all [Except.toOption]

theorem grows_dealersScheme : Grows (dealersScheme f) := by
  intro _ m m' hm hsome
  obtain ⟨d, hd⟩ := (found_dealersScheme f m).mp hsome
  obtain ⟨g, hg⟩ := Finmap.mem_iff.mp (Finmap.mem_keys.mp hd)
  exact (found_dealersScheme f m').mpr
    ⟨d, Finmap.mem_keys.mpr (Finmap.mem_of_lookup_eq_some (hm d g hg))⟩

/-- One log each of the dealers 0 and 1. -/
abbrev twoLogs : Logs (dealersScheme f) := (∅ : Logs (dealersScheme f)).insert 0 () |>.insert 1 ()

theorem delivers_twoLogs : Delivers (twoLogs f) [⟨0, ()⟩, ⟨1, ()⟩] ∧
    Delivers (twoLogs f) [⟨1, ()⟩, ⟨0, ()⟩] := by
  refine ⟨fun d g => ?_, fun d g => ?_⟩
  all_goals rcases d with _ | _ | d <;> simp

end

end Rudis.Dkg.DkgCeremony
