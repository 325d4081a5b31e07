import Mathlib.Logic.Function.Basic

/-!
# `Rudis.Lib.Runs`: runs of a step function

A run applies a list of labels to a state, one `step` after the other. `Runs.Along` says that a
condition on the label and the state before it holds at every step of a run, and
`Runs.run_inv` is the one induction every invariant of a run goes through: a property that each
step keeps under the condition holds in the state the run ends in. Every state a run passes
through is the end of one of its own prefixes (`Runs.Along.of_append`), so a theorem about the
end of every run is a theorem about every state reached. `Runs.collect` is the history of a run.
-/

namespace Runs

variable {σ ι : Type} (step : ι → σ → σ)

/-- The state after a list of labels. -/
def run (l : List ι) (s : σ) : σ := l.foldl (fun s i => step i s) s

/-- Every step of the run meets a condition on its label and the state it starts in. -/
def Along (P : ι → σ → Prop) : List ι → σ → Prop
  | [], _ => True
  | i :: l, s => P i s ∧ Along P l (step i s)

/-- What the steps of a run contribute to a history, in order. -/
def collect {β : Type} (f : ι → σ → List β) : List ι → σ → List β
  | [], _ => []
  | i :: l, s => f i s ++ collect f l (step i s)

@[simp] theorem collect_nil {β : Type} (f : ι → σ → List β) (s : σ) : collect step f [] s = [] := rfl

@[simp] theorem collect_cons {β : Type} (f : ι → σ → List β) (i : ι) (l : List ι) (s : σ) :
    collect step f (i :: l) s = f i s ++ collect step f l (step i s) := rfl

@[simp] theorem run_cons (i : ι) (l : List ι) (s : σ) :
    run step (i :: l) s = run step l (step i s) := rfl

theorem run_append (l l' : List ι) (s : σ) :
    run step (l ++ l') s = run step l' (run step l s) := List.foldl_append

variable {step}

variable {P : ι → σ → Prop}

/-- A property that each step keeps under the condition holds at the end of the run. -/
theorem run_inv (I : σ → Prop) (hstep : ∀ i s, P i s → I s → I (step i s)) :
    ∀ {l : List ι} {s : σ}, Along step P l s → I s → I (run step l s) := by
  intro l
  induction l with
  | nil => exact fun _ hI => hI
  | cons i l ih =>
    intro s h hI
    exact ih h.2 (hstep i s h.1 hI)

/-- The condition of a run holds along each of its prefixes. -/
theorem Along.of_append :
    ∀ {l l' : List ι} {s : σ}, Along step P (l ++ l') s →
      Along step P l s ∧ Along step P l' (run step l s) := by
  intro l
  induction l with
  | nil => exact fun h => ⟨trivial, h⟩
  | cons i l ih =>
    intro l' s h
    exact ⟨⟨h.1, (ih h.2).1⟩, (ih h.2).2⟩

/-- A condition that holds of every label of a run, in every state, holds along the run. -/
theorem along_of_forall_mem :
    ∀ {l : List ι} (_ : ∀ i ∈ l, ∀ s, P i s) (s : σ), Along step P l s := by
  intro l
  induction l with
  | nil => exact fun _ _ => trivial
  | cons i l ih =>
    intro h s
    exact ⟨h i List.mem_cons_self s, ih (fun j hj => h j (List.mem_cons_of_mem i hj)) (step i s)⟩

/-- A condition that holds of every label and state holds along every run. -/
theorem along_of_forall (h : ∀ i s, P i s) (l : List ι) (s : σ) : Along step P l s :=
  along_of_forall_mem (fun i _ => h i) s

/-- A condition whose first failure breaks `Q` holds along a run exactly if `Q` holds in every state
the run reaches. -/
theorem along_iff_forall_prefix {Q I : σ → Prop} (hQ : ∀ s, I s → Q s)
    (hstep : ∀ i s, P i s → I s → I (step i s))
    (hbreak : ∀ i s, ¬ P i s → I s → ¬ Q (step i s)) :
    ∀ {l : List ι} {s : σ}, I s → ((∀ l', l' <+: l → Q (run step l' s)) ↔ Along step P l s) := by
  intro l s hI
  constructor
  · intro h
    induction l generalizing s with
    | nil => trivial
    | cons i l ih =>
      have hP : P i s := by
        by_contra hP
        exact hbreak i s hP hI (h [i] (by simp))
      refine ⟨hP, ih (hstep i s hP hI) fun l' hl' => ?_⟩
      exact h (i :: l') (List.cons_prefix_cons.mpr ⟨rfl, hl'⟩)
  · rintro h l' ⟨t, rfl⟩
    exact hQ _ (run_inv I hstep h.of_append.1 hI)

end Runs
