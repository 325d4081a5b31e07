import Mathlib.Logic.Function.Basic

/-!
# `Rudis.Lib.Tx`: fallible transactions over a store

`Tx ε σ α` is a program that reads and writes a store `σ` and either returns an `α` or fails
with an `ε`. A failing program keeps the writes it made before the failure. They are undone
only by `Tx.checkpoint`, so that "an error leaves the store unchanged" is a theorem about the
programs that use one and not a property of the monad.

The proofs about a program go through the judgement `Tx.Ok m s a s'`: started in `s`, the
program `m` returns `a` and leaves `s'`. Each combinator has one rule for it, a `simp` lemma,
and `Tx.Ok.forM_inv`, `Tx.Ok.foldlM_inv` carry an invariant through a loop.
-/

/-- A program over the store `σ` that returns an `α` or fails with an `ε`. -/
def Tx (ε σ α : Type) : Type := σ → Except ε α × σ

namespace Tx

open List

variable {ε σ τ α β : Type}

/-- Runs a program on a store. -/
def run (m : Tx ε σ α) (s : σ) : Except ε α × σ := m s

instance : Monad (Tx ε σ) where
  pure a := fun s => (.ok a, s)
  bind m f := fun s =>
    match m s with
    | (.ok a, s') => f a s'
    | (.error e, s') => (.error e, s')

def fail (e : ε) : Tx ε σ α := fun s => (.error e, s)

/-- Reads a view of the store. -/
def reads (f : σ → α) : Tx ε σ α := fun s => (.ok (f s), s)

/-- Writes the store. -/
def modify (f : σ → σ) : Tx ε σ Unit := fun s => (.ok (), f s)

/-- Fails when a condition holds. -/
def failIf (c : Prop) [Decidable c] (e : ε) : Tx ε σ Unit := if c then fail e else pure ()

/-- A pure fallible computation. -/
def ofExcept : Except ε α → Tx ε σ α
  | .ok a => pure a
  | .error e => fail e

/-- A read that can fail and writes nothing. -/
def query (f : σ → Except ε α) : Tx ε σ α := fun s => (f s, s)

/-- Runs a program only when a condition holds. -/
def when (c : Prop) [Decidable c] (m : Tx ε σ Unit) : Tx ε σ Unit := if c then m else pure ()

/-- Undoes every write of a program that fails. -/
def checkpoint (m : Tx ε σ α) : Tx ε σ α := fun s =>
  match m s with
  | (.ok a, s') => (.ok a, s')
  | (.error e, _) => (.error e, s)

/-- Runs a program under a checkpoint and hands its outcome, failure included, to the caller. -/
def attempt (m : Tx ε σ α) : Tx ε σ (Except ε α) := fun s =>
  match m s with
  | (.ok a, s') => (.ok (.ok a), s')
  | (.error e, _) => (.ok (.error e), s)

/-- Runs a program on a part of the store. -/
def zoom (get : σ → τ) (put : τ → σ → σ) (m : Tx ε τ α) : Tx ε σ α := fun s =>
  ((m (get s)).1, put (m (get s)).2 s)

/-- The program returns `a` from the store `s` and leaves the store `s'`. -/
def Ok (m : Tx ε σ α) (s : σ) (a : α) (s' : σ) : Prop := m.run s = (.ok a, s')

/-! ### What each combinator does -/

@[simp] theorem run_pure (a : α) (s : σ) : (pure a : Tx ε σ α).run s = (.ok a, s) := rfl

@[simp] theorem run_fail (e : ε) (s : σ) : (fail e : Tx ε σ α).run s = (.error e, s) := rfl

@[simp] theorem run_reads (f : σ → α) (s : σ) : (reads f : Tx ε σ α).run s = (.ok (f s), s) := rfl

@[simp] theorem run_modify (f : σ → σ) (s : σ) :
    (modify f : Tx ε σ Unit).run s = (.ok (), f s) := rfl

theorem run_bind (m : Tx ε σ α) (f : α → Tx ε σ β) (s : σ) :
    (m >>= f).run s =
      match m.run s with
      | (.ok a, s') => (f a).run s'
      | (.error e, s') => (.error e, s') := rfl

@[simp] theorem run_reads_bind (g : σ → α) (f : α → Tx ε σ β) (s : σ) :
    ((reads g : Tx ε σ α) >>= f).run s = (f (g s)).run s := rfl

@[simp] theorem run_modify_bind (g : σ → σ) (f : Unit → Tx ε σ β) (s : σ) :
    ((modify g : Tx ε σ Unit) >>= f).run s = (f ()).run (g s) := rfl

variable {s s' : σ}

variable {m : Tx ε σ α}

variable {a : α}

private theorem id_map_tx (x : Tx ε σ α) : id <$> x = x := by
  funext s
  show (x >>= fun a => pure a).run s = x.run s
  rw [run_bind]
  split <;> simp_all

private theorem bind_assoc_tx {γ : Type} (x : Tx ε σ α) (f : α → Tx ε σ β) (g : β → Tx ε σ γ) :
    x >>= f >>= g = x >>= fun a => f a >>= g := by
  funext s
  show (x >>= f >>= g).run s = (x >>= fun a => f a >>= g).run s
  simp only [run_bind]
  split
  · rename_i h
    split at h <;> simp_all
  · rename_i h
    split at h <;> simp_all

instance : LawfulMonad (Tx ε σ) :=
  LawfulMonad.mk' _ id_map_tx (fun _ _ => rfl) bind_assoc_tx

/-! ### The success judgement -/

/-- A computation without a result has one result. -/
@[simp] theorem exists_unit {p : Unit → Prop} : (∃ u, p u) ↔ p () :=
  ⟨fun ⟨_, h⟩ => h, fun h => ⟨(), h⟩⟩

@[simp] theorem ok_pure {a b : α} : Ok (pure a : Tx ε σ α) s b s' ↔ b = a ∧ s' = s := by
  simp [Ok, eq_comm]

variable {e : ε}

@[simp] theorem ok_fail {b : α} : ¬ Ok (fail e : Tx ε σ α) s b s' := by
  simp [Ok]

@[simp] theorem ok_reads {f : σ → α} {b : α} :
    Ok (reads f : Tx ε σ α) s b s' ↔ b = f s ∧ s' = s := by
  simp [Ok, eq_comm]

variable {u : Unit}

@[simp] theorem ok_modify {f : σ → σ} : Ok (modify f : Tx ε σ Unit) s u s' ↔ s' = f s := by
  simp [Ok, eq_comm]

/-- A sequence succeeds exactly when its parts do, one after the other. -/
@[simp] theorem ok_bind {f : α → Tx ε σ β} {b : β} :
    Ok (m >>= f) s b s' ↔ ∃ a t, Ok m s a t ∧ Ok (f a) t b s' := by
  unfold Ok
  rw [run_bind]
  constructor
  · intro h
    split at h
    · rename_i a t hm
      exact ⟨a, t, hm, h⟩
    · simp at h
  · rintro ⟨a, t, hm, hf⟩
    rw [hm]
    exact hf

@[simp] theorem ok_map {f : α → β} {b : β} : Ok (f <$> m) s b s' ↔ ∃ a, Ok m s a s' ∧ b = f a := by
  rw [← bind_pure_comp]
  simp only [ok_bind, ok_pure]
  constructor
  · rintro ⟨a, t, hm, rfl, rfl⟩
    exact ⟨a, hm, rfl⟩
  · rintro ⟨a, hm, rfl⟩
    exact ⟨a, s', hm, rfl, rfl⟩

variable {c : Prop}

@[simp] theorem ok_failIf [Decidable c] : Ok (failIf c e : Tx ε σ Unit) s u s' ↔ ¬ c ∧ s' = s := by
  unfold failIf
  split <;> simp_all

@[simp] theorem ok_ofExcept {x : Except ε α} :
    Ok (ofExcept x : Tx ε σ α) s a s' ↔ x = .ok a ∧ s' = s := by
  cases x <;> simp [ofExcept, eq_comm]

@[simp] theorem ok_query {f : σ → Except ε α} :
    Ok (query f : Tx ε σ α) s a s' ↔ f s = .ok a ∧ s' = s := by
  simp [Ok, run, query, eq_comm]

theorem ok_when [Decidable c] {m : Tx ε σ Unit} :
    Ok (when c m) s u s' ↔ (c ∧ Ok m s () s') ∨ (¬ c ∧ s' = s) := by
  unfold when
  split <;> simp_all

@[simp] theorem ok_checkpoint : Ok (checkpoint m) s a s' ↔ Ok m s a s' := by
  unfold Ok run checkpoint
  split <;> simp_all

@[simp] theorem ok_zoom {get : σ → τ} {put : τ → σ → σ} {m : Tx ε τ α} :
    Ok (zoom get put m) s a s' ↔ ∃ t, Ok m (get s) a t ∧ s' = put t s := by
  unfold Ok run zoom
  constructor
  · intro h
    obtain ⟨h₁, h₂⟩ := Prod.ext_iff.mp h
    exact ⟨(m (get s)).2, Prod.ext h₁ rfl, h₂.symm⟩
  · rintro ⟨t, hm, rfl⟩
    rw [hm]

theorem ok_ite [Decidable c] {m n : Tx ε σ α} :
    Ok (if c then m else n) s a s' ↔ (c ∧ Ok m s a s') ∨ (¬ c ∧ Ok n s a s') := by
  split <;> simp_all

/-- An early return. -/
theorem ok_ite_pure [Decidable c] {a b : α} :
    Ok (if c then pure a else m) s b s' ↔ (c ∧ b = a ∧ s' = s) ∨ (¬ c ∧ Ok m s b s') := by
  rw [ok_ite, ok_pure]

/-- The rules of a straight-line program, as one set: `simp only [Tx.rules]` inverts it into its
checks and its final store. -/
theorem rules : (∀ {ε σ α β} {m : Tx ε σ α} {f : α → Tx ε σ β} {b : β} {s s' : σ},
      Ok (m >>= f) s b s' ↔ ∃ a t, Ok m s a t ∧ Ok (f a) t b s') ∧
    (∀ {ε σ α} {a b : α} {s s' : σ}, Ok (pure a : Tx ε σ α) s b s' ↔ b = a ∧ s' = s) ∧
    (∀ {ε σ α} {f : σ → α} {b : α} {s s' : σ}, Ok (reads f : Tx ε σ α) s b s' ↔ b = f s ∧ s' = s) ∧
    (∀ {ε σ} {f : σ → σ} {u : Unit} {s s' : σ}, Ok (modify f : Tx ε σ Unit) s u s' ↔ s' = f s) ∧
    (∀ {ε σ} {c : Prop} [Decidable c] {e : ε} {u : Unit} {s s' : σ},
      Ok (failIf c e : Tx ε σ Unit) s u s' ↔ ¬ c ∧ s' = s) ∧
    (∀ {ε σ α} {x : Except ε α} {a : α} {s s' : σ},
      Ok (ofExcept x : Tx ε σ α) s a s' ↔ x = .ok a ∧ s' = s) ∧
    (∀ {ε σ α} {f : σ → Except ε α} {a : α} {s s' : σ},
      Ok (query f : Tx ε σ α) s a s' ↔ f s = .ok a ∧ s' = s) ∧
    (∀ {ε σ α} {m : Tx ε σ α} {a : α} {s s' : σ}, Ok (checkpoint m) s a s' ↔ Ok m s a s') ∧
    (∀ {p : Unit → Prop}, (∃ u, p u) ↔ p ()) ∧
    (∀ {α : Type} {p : Prop} {q : α → Prop}, (∃ x, p ∧ q x) ↔ p ∧ ∃ x, q x) ∧
    (∀ {α : Type} {a : α} {p : α → Prop}, (∃ x, x = a ∧ p x) ↔ p a) ∧
    (∀ {α : Type} {a : α} {p : α → Prop}, (∃ x, a = x ∧ p x) ↔ p a) ∧
    (∀ {p q r : Prop}, (p ∧ q) ∧ r ↔ p ∧ q ∧ r) ∧ (∀ {p : Prop}, True ∧ p ↔ p) ∧
    ∀ {p : Prop}, ¬ ¬ p ↔ p :=
  ⟨ok_bind, ok_pure, ok_reads, ok_modify, ok_failIf, ok_ofExcept, ok_query, ok_checkpoint,
    exists_unit, by simp, by simp, by simp, and_assoc, by simp, not_not⟩

/-- A run without an error returns something. -/
theorem ok_of_isOk {s : σ} (h : (m.run s).1.isOk = true) : ∃ a, Ok m s a (m.run s).2 := by
  cases hm : (m.run s).1 with
  | ok a => exact ⟨a, Prod.ext hm rfl⟩
  | error e =>
    rw [hm] at h
    cases h

/-- Under a checkpoint a failure leaves the store as it was. -/
theorem checkpoint_error (h : (checkpoint m).run s = (.error e, s')) : s' = s := by
  unfold run checkpoint at h
  split at h <;> simp_all

/-- A checkpointed program either returns or leaves the store as it was. -/
theorem checkpoint_cases (m : Tx ε σ α) (s : σ) :
    (∃ a, Ok m s a ((checkpoint m).run s).2) ∨ ((checkpoint m).run s).2 = s := by
  unfold Ok run checkpoint
  split
  · rename_i a s' h
    exact .inl ⟨a, h⟩
  · exact .inr rfl

/-- A checkpoint keeps what a program that returns has written. -/
theorem Ok.checkpoint (h : Ok m s a s') : ((checkpoint m).run s).2 = s' :=
  congrArg Prod.snd (ok_checkpoint.mpr h)

/-- A caught program either returned or left the store as it was. -/
@[simp] theorem ok_attempt {r : Except ε α} :
    Ok (attempt m) s r s' ↔
      (∃ a, r = .ok a ∧ Ok m s a s') ∨ (∃ e t, r = .error e ∧ m.run s = (.error e, t) ∧ s' = s) := by
  unfold Ok run attempt
  split
  · rename_i a t h
    constructor
    · intro h'
      obtain ⟨h₁, h₂⟩ := Prod.ext_iff.mp h'
      simp only [Except.ok.injEq] at h₁ h₂
      exact .inl ⟨a, h₁.symm, h₂ ▸ h⟩
    · rintro (⟨b, rfl, hb⟩ | ⟨e, t', rfl, he, rfl⟩) <;> simp_all
  · rename_i e t h
    constructor
    · intro h'
      obtain ⟨h₁, h₂⟩ := Prod.ext_iff.mp h'
      simp only [Except.ok.injEq] at h₁ h₂
      exact .inr ⟨e, t, h₁.symm, h, h₂.symm⟩
    · rintro (⟨b, rfl, hb⟩ | ⟨e', t', rfl, he, rfl⟩) <;> simp_all

/-! ### Programs that change nothing when they fail -/

/-- The program never writes. -/
def ReadOnly (m : Tx ε σ α) : Prop := ∀ s, (m.run s).2 = s

/-- A failure of the program leaves the store as it was. -/
def Atomic (m : Tx ε σ α) : Prop := ∀ s s' e, m.run s = (.error e, s') → s' = s

theorem readOnly_failIf [Decidable c] : ReadOnly (failIf c e : Tx ε σ Unit) := by
  intro s
  unfold failIf
  split <;> rfl

theorem readOnly_ofExcept {x : Except ε α} : ReadOnly (ofExcept x : Tx ε σ α) := fun s => by
  cases x <;> rfl

theorem readOnly_query {f : σ → Except ε α} : ReadOnly (query f : Tx ε σ α) := fun _ => rfl

theorem atomic_checkpoint : Atomic (checkpoint m) :=
  fun _ _ _ h => checkpoint_error h

/-- Checks in front of an atomic program leave it atomic. -/
theorem Atomic.bind {f : α → Tx ε σ β} (hm : ReadOnly m)
    (hf : ∀ a, Atomic (f a)) : Atomic (m >>= f) := by
  intro s s' e h
  rw [run_bind] at h
  have hs := hm s
  split at h
  · rename_i a t hmt
    rw [hmt] at hs
    obtain rfl : t = s := hs
    exact hf a t s' e h
  · rename_i e' t hmt
    rw [hmt] at hs
    exact (Prod.ext_iff.mp h).2.symm.trans hs

/-- An atomic program fails and changes nothing, or it returns. -/
theorem Atomic.cases (h : Atomic m) (s : σ) :
    (∃ e, m.run s = (.error e, s)) ∨ ∃ a s', Ok m s a s' := by
  rcases hm : m.run s with ⟨_ | _, s'⟩
  · rename_i e
    obtain rfl := h s s' e hm
    exact .inl ⟨e, rfl⟩
  · exact .inr ⟨_, s', hm⟩

/-! ### Relations between the stores before and after -/

/-- Every run that returns takes the store along `R`. -/
def Keeps (R : σ → σ → Prop) (m : Tx ε σ α) : Prop := ∀ ⦃s a s'⦄, Ok m s a s' → R s s'

namespace Keeps

variable {R : σ → σ → Prop} {f : α → Tx ε σ β}

theorem modify {f : σ → σ} (h : ∀ s, R s (f s)) : Keeps R (modify f : Tx ε σ Unit) :=
  fun _ _ _ hok => ok_modify.mp hok ▸ h _

theorem zoom {get : σ → τ} {put : τ → σ → σ} {m : Tx ε τ α} (h : ∀ s t, R s (put t s)) :
    Keeps R (zoom get put m) := by
  intro s a s' hok
  obtain ⟨t, -, rfl⟩ := ok_zoom.mp hok
  exact h s t

theorem ite [Decidable c] {m n : Tx ε σ α} (hm : Keeps R m) (hn : Keeps R n) :
    Keeps R (if c then m else n) := by
  split <;> assumption

theorem checkpoint (hm : Keeps R m) : Keeps R (checkpoint m) :=
  fun _ _ _ h => hm (ok_checkpoint.mp h)

variable [IsPreorder σ R]

/-- A step that writes nothing. -/
theorem of_readOnly (h : ReadOnly m) : Keeps R m := by
  intro s a s' hok
  obtain rfl : s' = s := (congrArg Prod.snd hok).symm.trans (h s)
  exact refl_of R s'

theorem pure {a : α} : Keeps R (pure a : Tx ε σ α) := of_readOnly fun _ => rfl

theorem bind (hm : Keeps R m) (hf : ∀ a, Keeps R (f a)) : Keeps R (m >>= f) := by
  intro s b s' hok
  obtain ⟨a, t, ht, hb⟩ := ok_bind.mp hok
  exact trans_of R (hm ht) (hf a hb)

/-- A step that writes nothing, and what it returns. -/
theorem read (h : ReadOnly m) (hf : ∀ a, Keeps R (f a)) : Keeps R (m >>= f) :=
  (of_readOnly h).bind hf

theorem when [Decidable c] {m : Tx ε σ Unit} (hm : Keeps R m) : Keeps R (when c m) :=
  ite hm pure

theorem attempt (hm : Keeps R m) : Keeps R (attempt m) := by
  intro s r s' hok
  obtain ⟨a, -, hok⟩ | ⟨_, _, -, -, rfl⟩ := ok_attempt.mp hok
  · exact hm hok
  · exact refl_of R s'

end Keeps

/-! ### Loops -/

/-- A property of the elements visited so far and the accumulator is carried through a fold. -/
theorem Ok.foldlM_visited {f : β → α → Tx ε σ β} (I : List α → β → σ → Prop) {l : List α}
    (hstep : ∀ seen a rest, l = seen ++ a :: rest → ∀ b b' s s', I seen b s → Ok (f b a) s b' s' →
      I (seen ++ [a]) b' s') :
    ∀ {b b' : β} {s s' : σ}, Ok (l.foldlM f b) s b' s' → I [] b s → I l b' s' := by
  -- The induction is on what is left, for every way the list can have been started.
  suffices H : ∀ rest seen, l = seen ++ rest → ∀ b b' s s', Ok (rest.foldlM f b) s b' s' →
      I seen b s → I l b' s' by
    intro b b' s s' h hI
    exact H l [] rfl b b' s s' h hI
  intro rest
  induction rest with
  | nil =>
    intro seen hl b b' s s' h hI
    simp only [foldlM_nil, ok_pure] at h
    rw [hl, append_nil]
    exact h.1 ▸ h.2 ▸ hI
  | cons a rest ih =>
    intro seen hl b b' s s' h hI
    simp only [foldlM_cons, ok_bind] at h
    obtain ⟨c, t, ht, h⟩ := h
    exact ih (seen ++ [a]) (by rw [hl, append_cons]) c b' t s' h
      (hstep seen a rest hl b c s t hI ht)

/-- An invariant of the accumulator and the store is carried through a fold. -/
theorem Ok.foldlM_inv {f : β → α → Tx ε σ β} (I : β → σ → Prop) {l : List α} {b b' : β}
    (hf : ∀ a ∈ l, ∀ b b' s s', I b s → Ok (f b a) s b' s' → I b' s')
    (h : Ok (l.foldlM f b) s b' s') : I b s → I b' s' :=
  Ok.foldlM_visited (fun _ => I) (fun _ a _ hl => hf a (by simp [hl])) h

variable {f : α → Tx ε σ Unit} {l : List α}

/-- A loop is a fold that hands on nothing. -/
theorem forM_eq_foldlM : l.forM f = l.foldlM (fun _ => f) () := by
  induction l with
  | nil => rfl
  | cons a l ih =>
    rw [forM_eq_forM, forM_cons, ← forM_eq_forM, ih]
    rfl

/-- A property of the elements visited so far is carried through the loop over a list. -/
theorem Ok.forM_visited (I : List α → σ → Prop)
    (hstep : ∀ seen a rest, l = seen ++ a :: rest → ∀ s s', I seen s → Ok (f a) s () s' →
      I (seen ++ [a]) s') (h : Ok (l.forM f) s u s') : I [] s → I l s' :=
  Ok.foldlM_visited (fun seen _ => I seen) (fun seen a rest hl _ _ => hstep seen a rest hl)
    (forM_eq_foldlM ▸ h)

/-- An invariant that every iteration keeps is kept by the loop over a list. -/
theorem Ok.forM_inv (I : σ → Prop)
    (hf : ∀ a ∈ l, ∀ s s', I s → Ok (f a) s () s' → I s') (h : Ok (l.forM f) s u s') : I s → I s' :=
  Ok.forM_visited (fun _ => I) (fun _ a _ hl => hf a (by simp [hl])) h

/-- A loop that passes over the rounds that fail keeps what every other round keeps. -/
theorem Ok.forM_attempt_inv (I : σ → Prop) (hf : ∀ a ∈ l, ∀ s s', I s → Ok (f a) s () s' → I s')
    (h : Ok (l.forM fun a => do
      let _ ← attempt (f a)
      pure ()) s u s') : I s → I s' := by
  refine Ok.forM_inv I (fun a ha s s' hI hround => ?_) h
  simp only [ok_bind, ok_attempt, ok_pure] at hround
  obtain ⟨_, _, ⟨_, -, hok⟩ | ⟨_, _, -, -, rfl⟩, -, rfl⟩ := hround
  · exact hf a ha s _ hI hok
  · exact hI

theorem Keeps.foldlM {R : σ → σ → Prop} [IsPreorder σ R] {f : β → α → Tx ε σ β} {b : β}
    (hf : ∀ b a, Keeps R (f b a)) : Keeps R (l.foldlM f b) := fun s _ _ h =>
  Ok.foldlM_inv (fun _ => R s) (fun a _ b _ _ _ hR hok => trans_of R hR (hf b a hok)) h (refl_of R s)

theorem Keeps.forM {R : σ → σ → Prop} [IsPreorder σ R] (hf : ∀ a, Keeps R (f a)) :
    Keeps R (l.forM f) := forM_eq_foldlM ▸ foldlM fun _ => hf

/-- A loop whose rounds each leave `g a s` leaves the fold of `g`. -/
theorem Ok.forM_eq_foldl (g : σ → α → σ) (hg : ∀ a s s', Ok (f a) s () s' → s' = g s a)
    (h : Ok (l.forM f) s u s') : s' = l.foldl g s := by
  refine Ok.forM_visited (fun seen t => t = seen.foldl g s) (fun _ a _ _ t t' ht hok => ?_) h rfl
  rw [foldl_append, ← ht]
  exact hg a t t' hok

end Tx
