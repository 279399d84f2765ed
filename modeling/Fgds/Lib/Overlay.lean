import Mathlib.Data.List.Perm.Basic
import Mathlib.Tactic

/-!
# Overlaying partial stores on a memory

A store is a partial function from addresses to values. `overlayAll` performs a
list of stores one after the other. What it leaves at an address depends only on
which stores reach that address, as long as those agree: so any order will do.
-/

namespace Fgds.Lib.Overlay

variable {α β : Type*}

/-- One store: the addresses it reaches get its values, the others stay. -/
def overlay (m : α → β) (s : α → Option β) : α → β := fun x => (s x).getD (m x)

theorem overlay_some {s : α → Option β} {x : α} {v : β} (h : s x = some v) (m : α → β) :
    overlay m s x = v := by rw [overlay, h, Option.getD_some]

theorem overlay_none {s : α → Option β} {x : α} (h : s x = none) (m : α → β) :
    overlay m s x = m x := by rw [overlay, h, Option.getD_none]

def overlayAll (m : α → β) (l : List (α → Option β)) : α → β := l.foldl overlay m

@[simp] theorem overlayAll_nil (m : α → β) : overlayAll m [] = m := rfl

@[simp] theorem overlayAll_cons (m : α → β) (s : α → Option β) (l : List (α → Option β)) :
    overlayAll m (s :: l) = overlayAll (overlay m s) l := rfl

/-- Stores that reach different addresses can be exchanged. -/
theorem overlay_comm (m : α → β) {s t : α → Option β} (h : ∀ x, s x = none ∨ t x = none) :
    overlay (overlay m s) t = overlay (overlay m t) s := by
  funext x
  rcases h x with hs | ht
  · simp [overlay, hs]
  · simp [overlay, ht]

/-- An address that no store reaches keeps its value. -/
theorem overlayAll_untouched {l : List (α → Option β)} {x : α}
    (h : ∀ s ∈ l, s x = none) (m : α → β) : overlayAll m l x = m x := by
  induction l generalizing m with
  | nil => rfl
  | cons s l ih =>
    rw [overlayAll_cons, ih (fun t ht => h t (List.mem_cons_of_mem s ht))]
    simp [overlay, h s List.mem_cons_self]

/-- Once the value is right, stores that agree with it keep it right. -/
theorem overlayAll_keep {l : List (α → Option β)} {x : α} {v : β}
    (h : ∀ s ∈ l, ∀ v', s x = some v' → v' = v) {m : α → β} (hm : m x = v) :
    overlayAll m l x = v := by
  induction l generalizing m with
  | nil => exact hm
  | cons s l ih =>
    rw [overlayAll_cons]
    apply ih (fun t ht => h t (List.mem_cons_of_mem s ht))
    cases hs : s x with
    | none => simp [overlay, hs, hm]
    | some v' => simp [overlay, hs, h s List.mem_cons_self v' hs]

/-- An address reached by stores that agree holds their value. -/
theorem overlayAll_reached {l : List (α → Option β)} {x : α} {v : β}
    (h : ∀ s ∈ l, ∀ v', s x = some v' → v' = v) (hex : ∃ s ∈ l, s x = some v)
    (m : α → β) : overlayAll m l x = v := by
  induction l generalizing m with
  | nil => obtain ⟨s, hs, _⟩ := hex; cases hs
  | cons s l ih =>
    have hl : ∀ t ∈ l, ∀ v', t x = some v' → v' = v :=
      fun t ht => h t (List.mem_cons_of_mem s ht)
    obtain ⟨t, ht, hv⟩ := hex
    rw [overlayAll_cons]
    rcases List.mem_cons.mp ht with rfl | ht
    · exact overlayAll_keep hl (by simp [overlay, hv])
    · exact ih hl ⟨t, ht, hv⟩ _

/-- Stores that together write `val k` at `place k` for every `k < n`, and nothing else:
whatever their order, that is what they leave. -/
theorem overlayAll_image {l : List (α → Option β)} {n : Nat} {place : Nat → α} {val : Nat → β}
    (hinj : ∀ i < n, ∀ j < n, place i = place j → i = j)
    (hsound : ∀ s ∈ l, ∀ x v, s x = some v → ∃ k < n, x = place k ∧ v = val k)
    (hcover : ∀ k < n, ∃ s ∈ l, (s (place k)).isSome) (m : α → β) :
    (∀ k < n, overlayAll m l (place k) = val k) ∧
      ∀ x, (∀ k < n, x ≠ place k) → overlayAll m l x = m x := by
  have hagree : ∀ s ∈ l, ∀ k < n, ∀ v, s (place k) = some v → v = val k := by
    intro s hs k hk v hv
    obtain ⟨j, hj, hx, rfl⟩ := hsound s hs _ v hv
    rw [hinj k hk j hj hx]
  constructor
  · intro k hk
    obtain ⟨s, hs, hsome⟩ := hcover k hk
    obtain ⟨v, hv⟩ := Option.isSome_iff_exists.mp hsome
    refine overlayAll_reached (fun t ht v' hv' => hagree t ht k hk v' hv') ⟨s, hs, ?_⟩ m
    rw [hv, hagree s hs k hk v hv]
  · intro x hx
    apply overlayAll_untouched
    intro s hs
    cases hv : s x with
    | none => rfl
    | some v =>
      obtain ⟨k, hk, he, _⟩ := hsound s hs x v hv
      exact absurd he (hx k hk)

end Fgds.Lib.Overlay
