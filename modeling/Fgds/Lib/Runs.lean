/-!
# Runs of a system

A system takes actions that are chosen outside, one after the other; `possible` is what the
surroundings guarantee about them. A run may be restricted further, to the actions that meet
a condition in the state in which they are taken.

* `Run.inv`: the rule of invariants;
* `Run.mono`: weaker conditions have more runs;
* `System.after_along`, `System.after_not_along`: where a given list of actions ends, if all
  of them meet a condition, and if one of them does not;
* `System.Along.length_le`: how long a list of actions can be;
* `System.always_iff`: what holds at every point of a list of actions.
-/

namespace Fgds.Lib.Runs

universe u v

structure System (σ : Type u) (α : Type v) where
  init : σ
  step : σ → α → σ
  possible : σ → α → Prop

variable {σ : Type u} {α : Type v}

/-- The states that are reached by actions that meet `ok`. -/
inductive Run (S : System σ α) (ok : σ → α → Prop) : σ → Prop
  | init : Run S ok S.init
  | step {s : σ} (a : α) : Run S ok s → S.possible s a → ok s a → Run S ok (S.step s a)

variable {S : System σ α} {ok ok' : σ → α → Prop} {s : σ}

theorem Run.inv {I : σ → Prop} (h : Run S ok s) (init : I S.init)
    (step : ∀ s a, I s → S.possible s a → ok s a → I (S.step s a)) : I s := by
  induction h with
  | init => exact init
  | step a _ hp hok ih => exact step _ a ih hp hok

theorem Run.mono (h : Run S ok s) (hle : ∀ s a, ok s a → ok' s a) : Run S ok' s := by
  induction h with
  | init => exact .init
  | step a _ hp hok ih => exact .step a ih hp (hle _ a hok)

/-! ## Lists of actions -/

/-- The state after the actions. -/
def System.after (S : System σ α) : σ → List α → σ
  | s, [] => s
  | s, a :: acts => S.after (S.step s a) acts

/-- Each action meets `ok` in the state in which it is taken. -/
def System.Along (S : System σ α) (ok : σ → α → Prop) : σ → List α → Prop
  | _, [] => True
  | s, a :: acts => ok s a ∧ S.Along ok (S.step s a) acts

instance System.decidableAlong (S : System σ α) (ok : σ → α → Prop)
    [∀ s a, Decidable (ok s a)] : ∀ s acts, Decidable (S.Along ok s acts)
  | _, [] => isTrue trivial
  | s, a :: acts =>
    have := S.decidableAlong ok (S.step s a) acts
    inferInstanceAs (Decidable (_ ∧ _))

theorem System.Along.and {acts : List α} (h : S.Along ok s acts) (h' : S.Along ok' s acts) :
    S.Along (fun s a => ok s a ∧ ok' s a) s acts := by
  induction acts generalizing s with
  | nil => trivial
  | cons a acts ih => exact ⟨⟨h.1, h'.1⟩, ih h.2 h'.2⟩

theorem Run.after {acts : List α} (h : Run S ok s) (hp : S.Along S.possible s acts)
    (hok : S.Along ok s acts) : Run S ok (S.after s acts) := by
  induction acts generalizing s with
  | nil => exact h
  | cons a acts ih => exact ih (h.step a hp.1 hok.1) hp.2 hok.2

/-- An invariant that the actions meeting `ok` keep. -/
theorem System.after_along {I : σ → Prop} {acts : List α} (hI : I s)
    (step : ∀ s a, I s → ok s a → I (S.step s a)) (h : S.Along ok s acts) :
    I (S.after s acts) := by
  induction acts generalizing s with
  | nil => exact hI
  | cons a acts ih => exact ih (step s a hI h.1) h.2

/-- An action that does not meet `ok` leads to `B`, and there is no way back. -/
theorem System.after_not_along {I B : σ → Prop} {acts : List α} (hI : I s)
    (step : ∀ s a, I s → S.possible s a → ok s a → I (S.step s a))
    (leave : ∀ s a, I s → S.possible s a → ¬ ok s a → B (S.step s a))
    (stay : ∀ s a, B s → S.possible s a → B (S.step s a))
    (hp : S.Along S.possible s acts) (hok : ¬ S.Along ok s acts) : B (S.after s acts) := by
  induction acts generalizing s with
  | nil => exact absurd trivial hok
  | cons a acts ih =>
    by_cases ha : ok s a
    · exact ih (step s a hI hp.1 ha) hp.2 (fun h => hok ⟨ha, h⟩)
    · show B (S.after (S.step s a) acts)
      exact System.after_along (leave s a hI hp.1 ha) stay hp.2

/-- Actions that use something up come to an end. -/
theorem System.Along.length_le {m : σ → Nat} {acts : List α} (h : S.Along S.possible s acts)
    (step : ∀ s a, S.possible s a → m (S.step s a) < m s) :
    acts.length + m (S.after s acts) ≤ m s := by
  induction acts generalizing s with
  | nil => exact Nat.le_of_eq (Nat.zero_add _)
  | cons a acts ih =>
    have hrest := ih h.2
    have hstep := step s a h.1
    show acts.length + 1 + m (S.after (S.step s a) acts) ≤ m s
    omega

/-- `P` holds in all states from `s` on. -/
def System.Always (S : System σ α) (P : σ → Prop) : σ → List α → Prop
  | s, [] => P s
  | s, a :: acts => P s ∧ S.Always P (S.step s a) acts

/-- A property that exactly the actions meeting `ok` keep. -/
theorem System.always_iff {P : σ → Prop} {acts : List α} (hP : P s)
    (step : ∀ s a, P s → S.possible s a → (P (S.step s a) ↔ ok s a))
    (hp : S.Along S.possible s acts) : S.Always P s acts ↔ S.Along ok s acts := by
  induction acts generalizing s with
  | nil => exact iff_of_true hP trivial
  | cons a acts ih =>
    constructor
    · rintro ⟨-, halways⟩
      have hnext : P (S.step s a) := by
        cases acts with
        | nil => exact halways
        | cons b acts => exact halways.1
      exact ⟨(step s a hP hp.1).mp hnext, (ih hnext hp.2).mp halways⟩
    · rintro ⟨hok, hrest⟩
      have hnext := (step s a hP hp.1).mpr hok
      exact ⟨hP, (ih hnext hp.2).mpr hrest⟩

end Fgds.Lib.Runs
