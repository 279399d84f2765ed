import Mathlib.Algebra.Order.Ring.Int
import Mathlib.Data.List.Count
import Mathlib.Tactic.Ring

/-!
# Ledgers of acquired resources

A run is recorded as a list of events that acquire or release a resource. The balance
of a resource is how often it was acquired minus how often it was released.

* `net_append`: balances add up;
* `Neutral`: nothing was gained or lost.
-/

namespace Fgds.Lib.Ledger

inductive Event (α : Type*) where
  | acquire (a : α)
  | release (a : α)
  deriving DecidableEq, Repr

variable {α : Type*} [DecidableEq α]

def net (es : List (Event α)) (a : α) : Int :=
  (es.count (.acquire a) : Int) - es.count (.release a)

/-- Every balance is zero. -/
def Neutral (es : List (Event α)) : Prop := ∀ a, net es a = 0

@[simp] theorem net_nil (a : α) : net [] a = 0 := by simp [net]

theorem net_append (es fs : List (Event α)) (a : α) : net (es ++ fs) a = net es a + net fs a := by
  simp only [net, List.count_append, Nat.cast_add]
  ring

@[simp] theorem net_acquire (b : α) (es : List (Event α)) (a : α) :
    net (.acquire b :: es) a = (if b = a then 1 else 0) + net es a := by
  by_cases h : b = a
  · simp [net, h]
    ring
  · simp [net, h]

@[simp] theorem net_release (b : α) (es : List (Event α)) (a : α) :
    net (.release b :: es) a = (if b = a then -1 else 0) + net es a := by
  by_cases h : b = a
  · simp [net, h]
    ring
  · simp [net, h]

/-- A resource that no event is about keeps its balance. -/
theorem net_of_unmentioned {es : List (Event α)} {a : α}
    (h : ∀ e ∈ es, e ≠ .acquire a ∧ e ≠ .release a) : net es a = 0 := by
  have hacq : es.count (.acquire a) = 0 := List.count_eq_zero.mpr fun hm => (h _ hm).1 rfl
  have hrel : es.count (.release a) = 0 := List.count_eq_zero.mpr fun hm => (h _ hm).2 rfl
  simp [net, hacq, hrel]

/-- Acquiring a list of resources and releasing them all is neutral. -/
theorem neutral_undo (l : List α) : Neutral (l.map .acquire ++ l.map .release) := by
  intro a
  rw [net_append]
  induction l with
  | nil => simp
  | cons b l ih =>
    simp only [List.map_cons, net_acquire, net_release]
    split <;> omega

/-- Without releases the balance counts. -/
theorem net_acquires (l : List α) (a : α) : net (l.map .acquire) a = l.count a := by
  induction l with
  | nil => rfl
  | cons b l ih =>
    rw [List.map_cons, net_acquire, ih, List.count_cons]
    by_cases h : b = a
    · simp [h]
      ring
    · simp [h]

/-- The parts of a ledger that is written item by item can be balanced item by item. -/
theorem net_flatMap_add {β : Type*} (l : List β) (f g h : β → List (Event α)) (a : α)
    (hsum : ∀ b ∈ l, net (f b) a + net (g b) a = net (h b) a) :
    net (l.flatMap f) a + net (l.flatMap g) a = net (l.flatMap h) a := by
  induction l with
  | nil => rfl
  | cons b l ih =>
    have hb := hsum b List.mem_cons_self
    have hl := ih fun b' hb' => hsum b' (List.mem_cons_of_mem b hb')
    simp only [List.flatMap_cons, net_append]
    omega

end Fgds.Lib.Ledger
