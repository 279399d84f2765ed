import Mathlib.Data.List.Perm.Basic

/-!
# Operations that are carried out later

Operations act on a state and give an answer. `inOrder` carries out a list of them from the front.
One that is independent of those before it can be carried out first: the state in the end and the
answers are the same.
-/

namespace Fgds.Lib.Deferred

variable {σ ο ρ : Type*}

/-- What the operations do, and what they answer. -/
structure Ops (σ ο ρ : Type*) where
  effect : ο → σ → σ
  answer : ο → σ → ρ

variable (M : Ops σ ο ρ)

/-- The state after the operations, and the answer of each. -/
def Ops.inOrder : List ο → σ → σ × List (ο × ρ)
  | [], s => (s, [])
  | o :: os, s =>
    ((Ops.inOrder os (M.effect o s)).1, (o, M.answer o s) :: (Ops.inOrder os (M.effect o s)).2)

/-- Neither sees the other. -/
structure Ops.Independent (a b : ο) : Prop where
  comm : ∀ s, M.effect a (M.effect b s) = M.effect b (M.effect a s)
  left : ∀ s, M.answer a (M.effect b s) = M.answer a s
  right : ∀ s, M.answer b (M.effect a s) = M.answer b s

variable {M}

theorem Ops.Independent.symm {a b : ο} (h : M.Independent a b) : M.Independent b a :=
  ⟨fun s => (h.comm s).symm, h.right, h.left⟩

theorem inOrder_append (l r : List ο) (s : σ) :
    M.inOrder (l ++ r) s = ((M.inOrder r (M.inOrder l s).1).1,
      (M.inOrder l s).2 ++ (M.inOrder r (M.inOrder l s).1).2) := by
  induction l generalizing s with
  | nil => rfl
  | cons o l ih => simp only [List.cons_append, Ops.inOrder, ih]

/-- The last of independent operations may come first. -/
theorem inOrder_first {pre : List ο} {o : ο} (h : ∀ a ∈ pre, M.Independent a o) (post : List ο)
    (s : σ) :
    (M.inOrder (pre ++ o :: post) s).1 = (M.inOrder (pre ++ post) (M.effect o s)).1 ∧
      (M.inOrder (pre ++ o :: post) s).2.Perm
        ((o, M.answer o s) :: (M.inOrder (pre ++ post) (M.effect o s)).2) := by
  induction pre generalizing s with
  | nil => exact ⟨rfl, List.Perm.refl _⟩
  | cons a pre ih =>
    have ha := h a List.mem_cons_self
    obtain ⟨hstate, hanswers⟩ := ih (fun b hb => h b (List.mem_cons_of_mem a hb)) (M.effect a s)
    rw [← ha.comm, ha.right] at hanswers
    rw [← ha.comm] at hstate
    simp only [List.cons_append, Ops.inOrder, ha.left]
    exact ⟨hstate, (hanswers.cons _).trans (List.Perm.swap _ _ _)⟩

end Fgds.Lib.Deferred
