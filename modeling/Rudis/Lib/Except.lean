import Mathlib.Data.List.Forall2

/-!
# `Rudis.Lib.Except`: pure fallible computations

What it takes for a fallible sequence, map or filter to succeed. `throwIf` is the check that
guards a computation. Each lemma is a `simp` rule for `x = .ok a`, so that the success of a
`do` block unfolds into the success of its parts.
-/

namespace Except

open List

variable {ε α β : Type}

/-- Fails when a condition holds. -/
def throwIf (c : Prop) [Decidable c] (e : ε) : Except ε Unit := if c then .error e else .ok ()

/-- The value of an option, or the given failure. -/
def okOr (x : Option α) (e : ε) : Except ε α :=
  match x with
  | some a => .ok a
  | none => .error e

/-- Keeps the elements a fallible test accepts, in order. -/
def filterM (f : α → Except ε Bool) : List α → Except ε (List α)
  | [] => .ok []
  | a :: l => do
    let keep ← f a
    let rest ← filterM f l
    pure (if keep then a :: rest else rest)

variable {e : ε} {c : Prop}

@[simp] theorem throwIf_eq_ok [Decidable c] {u : Unit} : throwIf c e = .ok u ↔ ¬ c := by
  unfold throwIf
  split <;> simp_all

variable {a : α}

@[simp] theorem okOr_eq_ok {x : Option α} : okOr x e = .ok a ↔ x = some a := by
  cases x <;> simp [okOr]

variable {f : α → Except ε β}

variable {x : Except ε α}

/-- A sequence succeeds exactly when its parts do. -/
@[simp] theorem bind_eq_ok {b : β} : x >>= f = .ok b ↔ ∃ a, x = .ok a ∧ f a = .ok b := by
  cases x <;> simp [Bind.bind, Except.bind]

@[simp] theorem pure_eq_ok {a b : α} : (Pure.pure a : Except ε α) = .ok b ↔ b = a := by
  simp [Pure.pure, Except.pure, eq_comm]

/-- The laws of a straight-line computation, as one set. -/
theorem laws : (∀ {ε α β : Type} {x : Except ε α} {f : α → Except ε β} {b : β},
      x >>= f = .ok b ↔ ∃ a, x = .ok a ∧ f a = .ok b) ∧
    (∀ {ε α : Type} {a b : α}, (Pure.pure a : Except ε α) = .ok b ↔ b = a) ∧
    (∀ {ε : Type} {c : Prop} [Decidable c] {e : ε} {u : Unit}, throwIf c e = .ok u ↔ ¬ c) ∧
    ∀ {ε α : Type} {x : Option α} {e : ε} {a : α}, okOr x e = .ok a ↔ x = some a :=
  ⟨bind_eq_ok, pure_eq_ok, throwIf_eq_ok, okOr_eq_ok⟩

@[simp] theorem map_eq_ok {f : α → β} {b : β} : f <$> x = .ok b ↔ ∃ a, x = .ok a ∧ b = f a := by
  cases x <;> simp [Functor.map, Except.map, eq_comm]

@[simp] theorem throw_ne_ok {b : α} : (throw e : Except ε α) ≠ .ok b := by
  intro h
  cases h

variable {ε' : Type}

@[simp] theorem mapError_eq_ok {f : ε → ε'} : x.mapError f = .ok a ↔ x = .ok a := by
  cases x <;> simp [Except.mapError]

/-! ### Failures -/

theorem throwIf_eq_error [Decidable c] {e e' : ε} : throwIf c e = .error e' ↔ c ∧ e' = e := by
  unfold throwIf
  split <;> simp_all [eq_comm]

theorem okOr_eq_error {x : Option α} {e e' : ε} : okOr x e = .error e' ↔ x = none ∧ e' = e := by
  cases x <;> simp [okOr, eq_comm]

/-- A sequence fails in its first part, or in the second once the first succeeded. -/
theorem bind_eq_error : x >>= f = .error e ↔ x = .error e ∨ ∃ a, x = .ok a ∧ f a = .error e := by
  cases x <;> simp [Bind.bind, Except.bind]

theorem pure_ne_error : (Pure.pure a : Except ε α) ≠ .error e := by
  intro h
  cases h

theorem mapError_eq_error {f : ε → ε'} {e : ε'} :
    x.mapError f = .error e ↔ ∃ d, x = .error d ∧ e = f d := by
  cases x <;> simp [Except.mapError, eq_comm]

/-- A computation never fails with a certain kind of error. -/
def Avoids (bad : ε → Prop) (x : Except ε α) : Prop := ∀ e, x = .error e → ¬ bad e

section Avoids

variable {bad : ε → Prop}

theorem Avoids.pure (a : α) : Avoids bad (Pure.pure a : Except ε α) :=
  fun _ h => absurd h pure_ne_error

theorem Avoids.throwIf [Decidable c] (h : c → ¬ bad e) : Avoids bad (throwIf c e) := by
  intro e' he
  obtain ⟨hc, rfl⟩ := throwIf_eq_error.mp he
  exact h hc

theorem Avoids.okOr {x : Option α} (h : ¬ bad e) : Avoids bad (okOr x e) := by
  intro e' he
  rwa [(okOr_eq_error.mp he).2]

theorem Avoids.mapError {bad' : ε' → Prop} {f : ε → ε'}
    (h : ∀ e, ¬ bad' (f e)) : Avoids bad' (x.mapError f) := by
  intro e' he
  obtain ⟨e, -, rfl⟩ := mapError_eq_error.mp he
  exact h e

theorem Avoids.bind (hx : Avoids bad x)
    (hf : ∀ a, x = .ok a → Avoids bad (f a)) : Avoids bad (x >>= f) := by
  intro e he
  rcases bind_eq_error.mp he with he | ⟨a, ha, he⟩
  · exact hx e he
  · exact hf a ha e he

theorem Avoids.guard [Decidable c] (h : ¬ bad e)
    (hx : Avoids bad x) : Avoids bad (Except.throwIf c e >>= fun _ => x) :=
  (Avoids.throwIf fun _ => h).bind fun _ _ => hx

theorem Avoids.foldlM {f : β → α → Except ε β} (hf : ∀ b a, Avoids bad (f b a)) :
    ∀ (l : List α) (b : β), Avoids bad (l.foldlM f b) := by
  intro l
  induction l with
  | nil => exact fun b => Avoids.pure b
  | cons a l ih =>
    intro b
    rw [foldlM_cons]
    exact (hf b a).bind fun b' _ => ih b'

theorem Avoids.mapM (hf : ∀ a, Avoids bad (f a)) : ∀ l : List α, Avoids bad (l.mapM f) := by
  intro l
  induction l with
  | nil => exact Avoids.pure []
  | cons a l ih =>
    rw [mapM_cons]
    exact (hf a).bind fun _ _ => ih.bind fun _ _ => Avoids.pure _

end Avoids

/-! ### Maps and filters -/

/-- A map succeeds exactly when it succeeds on every element. -/
theorem mapM_eq_ok :
    ∀ {l : List α} {r : List β}, l.mapM f = .ok r ↔ List.Forall₂ (fun a b => f a = .ok b) l r := by
  intro l
  induction l with
  | nil =>
    intro r
    simp
  | cons a l ih =>
    intro r
    simp only [mapM_cons, bind_eq_ok, pure_eq_ok]
    constructor
    · rintro ⟨b, hb, bs, hbs, rfl⟩
      exact .cons hb (ih.mp hbs)
    · intro h
      cases h with
      | cons hb hbs => exact ⟨_, hb, _, ih.mpr hbs, rfl⟩

/-- A map whose results are known to be those of `g` succeeds exactly when each of them does. -/
theorem mapM_eq_ok_map {g : α → β} (hg : ∀ a b, f a = .ok b → b = g a) :
    ∀ {l : List α} {r : List β}, l.mapM f = .ok r ↔ r = l.map g ∧ ∀ a ∈ l, f a = .ok (g a) := by
  intro l
  induction l with
  | nil =>
    intro r
    simp
  | cons a l ih =>
    intro r
    simp only [mapM_cons, bind_eq_ok, pure_eq_ok, map_cons, forall_mem_cons]
    refine ⟨?_, ?_⟩
    · rintro ⟨b, hb, bs, hbs, rfl⟩
      obtain ⟨rfl, hrest⟩ := ih.mp hbs
      obtain rfl := hg a b hb
      exact ⟨rfl, hb, hrest⟩
    · rintro ⟨rfl, ha, hrest⟩
      exact ⟨g a, ha, l.map g, ih.mpr ⟨rfl, hrest⟩, rfl⟩

/-- A map that succeeds on every element succeeds. -/
theorem mapM_of_forall {g : α → β} {l : List α}
    (h : ∀ a ∈ l, f a = .ok (g a)) : l.mapM f = .ok (l.map g) := by
  refine mapM_eq_ok.mpr (forall₂_map_right_iff.mpr ?_)
  exact forall₂_same.mpr h

/-- A filter whose test is known keeps what the test accepts. -/
theorem filterM_of_forall {f : α → Except ε Bool} {g : α → Bool} :
    ∀ {l : List α}, (∀ a ∈ l, f a = .ok (g a)) → filterM f l = .ok (l.filter g) := by
  intro l
  induction l with
  | nil => exact fun _ => rfl
  | cons a l ih =>
    intro h
    have ha := h a mem_cons_self
    have hl := ih fun b hb => h b (mem_cons_of_mem a hb)
    cases hg : g a <;> simp [filterM, ha, hl, hg]

end Except
