import Mathlib.Data.List.Perm.Basic
import Mathlib.Tactic

/-!
# Cutting an interval into consecutive pieces

`Tiles len At p q l` says that the pieces of `l`, laid end to end, start at
position `p` and end at position `q`, that no piece is empty, and that every
piece `x` satisfies `At p' x` for the position `p'` it is laid at.

* `tiles_getElem?`: the position of piece `i` is the sum of the lengths before it;
* `tiles_cell`: if no piece crosses a border between cells of one width, and there are no more
  pieces than cells, then piece `i` is all that lies in cell `i`.
-/

namespace Fgds.Lib.Tiling

variable {α β : Type*} {len : α → Nat} {At : Nat → α → Prop}

def Tiles (len : α → Nat) (At : Nat → α → Prop) : Nat → Nat → List α → Prop
  | p, q, [] => p = q
  | p, q, x :: rest => 0 < len x ∧ At p x ∧ Tiles len At (p + len x) q rest

@[simp] theorem tiles_nil (p q : Nat) : Tiles len At p q [] ↔ p = q := Iff.rfl

@[simp] theorem tiles_cons (p q : Nat) (x : α) (rest : List α) :
    Tiles len At p q (x :: rest) ↔
      0 < len x ∧ At p x ∧ Tiles len At (p + len x) q rest := Iff.rfl

theorem tiles_le {p q : Nat} {l : List α} (h : Tiles len At p q l) : p ≤ q := by
  induction l generalizing p with
  | nil => exact Nat.le_of_eq h
  | cons x rest ih =>
    have := ih h.2.2
    omega

theorem tiles_lt {p q : Nat} {l : List α} (h : Tiles len At p q l) (hne : l ≠ []) : p < q := by
  cases l with
  | nil => exact absurd rfl hne
  | cons x rest =>
    have := tiles_le h.2.2
    have := h.1
    omega

theorem tiles_append {p m q : Nat} {l r : List α} (hl : Tiles len At p m l)
    (hr : Tiles len At m q r) : Tiles len At p q (l ++ r) := by
  induction l generalizing p with
  | nil => rw [tiles_nil] at hl; subst hl; exact hr
  | cons x rest ih => exact ⟨hl.1, hl.2.1, ih hl.2.2⟩

/-- The lengths add up to the interval. -/
theorem tiles_sum {p q : Nat} {l : List α} (h : Tiles len At p q l) :
    p + (l.map len).sum = q := by
  induction l generalizing p with
  | nil => exact h
  | cons x rest ih =>
    rw [List.map_cons, List.sum_cons, ← Nat.add_assoc]
    exact ih h.2.2

theorem tiles_split {p q : Nat} {l r : List α} (h : Tiles len At p q (l ++ r)) :
    Tiles len At p (p + (l.map len).sum) l ∧ Tiles len At (p + (l.map len).sum) q r := by
  induction l generalizing p with
  | nil => exact ⟨rfl, h⟩
  | cons x rest ih =>
    obtain ⟨hl, hr⟩ := ih h.2.2
    rw [List.map_cons, List.sum_cons, ← Nat.add_assoc]
    exact ⟨⟨h.1, h.2.1, hl⟩, hr⟩

/-- Piece `i` is laid where the pieces before it end. -/
theorem tiles_getElem? {p q i : Nat} {l : List α} {x : α} (h : Tiles len At p q l)
    (hx : l[i]? = some x) : At (p + ((l.take i).map len).sum) x := by
  obtain ⟨hi, rfl⟩ := List.getElem?_eq_some_iff.mp hx
  rw [← List.take_append_drop i l] at h
  have hdrop := (tiles_split h).2
  rw [List.drop_eq_getElem_cons hi] at hdrop
  exact hdrop.2.1

/-- Every piece is laid somewhere inside the interval. -/
theorem tiles_mem {p q : Nat} {l : List α} (h : Tiles len At p q l) {x : α} (hx : x ∈ l) :
    ∃ p', p ≤ p' ∧ p' + len x ≤ q ∧ 0 < len x ∧ At p' x := by
  induction l generalizing p with
  | nil => cases hx
  | cons y rest ih =>
    rcases List.mem_cons.mp hx with rfl | hx
    · exact ⟨p, Nat.le_refl p, tiles_le h.2.2, h.1, h.2.1⟩
    · obtain ⟨p', hp, hq, hpos, hat⟩ := ih h.2.2 hx
      exact ⟨p', by omega, hq, hpos, hat⟩

/-- Every position of the interval lies in a piece. -/
theorem tiles_cover {p q : Nat} {l : List α} (h : Tiles len At p q l) {k : Nat}
    (hp : p ≤ k) (hq : k < q) :
    ∃ x ∈ l, ∃ p', p ≤ p' ∧ At p' x ∧ p' ≤ k ∧ k < p' + len x := by
  induction l generalizing p with
  | nil => rw [tiles_nil] at h; omega
  | cons x rest ih =>
    by_cases hk : k < p + len x
    · exact ⟨x, List.mem_cons_self, p, Nat.le_refl p, h.2.1, hp, hk⟩
    · obtain ⟨y, hy, p', hle, hr⟩ := ih h.2.2 (by omega)
      exact ⟨y, List.mem_cons_of_mem x hy, p', by omega, hr⟩

/-- A piece ends before every later one starts. -/
theorem tiles_pairwise {R : α → α → Prop} {p q : Nat} {l : List α} (h : Tiles len At p q l)
    (hR : ∀ p' q' x y, At p' x → At q' y → p' + len x ≤ q' → R x y) : l.Pairwise R := by
  induction l generalizing p with
  | nil => exact List.Pairwise.nil
  | cons x rest ih =>
    refine List.Pairwise.cons (fun y hy => ?_) (ih h.2.2)
    obtain ⟨q', hq, _, _, hat⟩ := tiles_mem h.2.2 hy
    exact hR p q' x y h.2.1 hat hq

/-- A position lies in the cell of the position before it or in the next one. -/
theorem div_le_pred_div (x S : Nat) : x / S ≤ (x - 1) / S + 1 := by
  cases x with
  | zero => rw [Nat.zero_div]; exact Nat.zero_le _
  | succ x =>
    rw [Nat.succ_div, Nat.add_sub_cancel]
    split
    · exact Nat.le_refl _
    · exact Nat.le_succ _

section Cells

variable {S : Nat} (hcell : ∀ p x, At p x → (p + len x - 1) / S = p / S)
include hcell

/-- Pieces that lie in one cell each reach over at most as many cells as there are pieces. -/
theorem tiles_reach {p q : Nat} {l : List α} (h : Tiles len At p q l) (hne : l ≠ []) :
    (q - 1) / S + 1 ≤ p / S + l.length := by
  induction l generalizing p with
  | nil => exact absurd rfl hne
  | cons x rest ih =>
    obtain ⟨_, hat, hrest⟩ := h
    have hend := hcell p x hat
    cases rest with
    | nil =>
      rw [tiles_nil] at hrest
      rw [← hrest, hend, List.length_singleton]
    | cons y rest =>
      have hnext := div_le_pred_div (p + len x) S
      have hreach := ih hrest (List.cons_ne_nil y rest)
      rw [List.length_cons]
      omega

/-- With one piece for every cell, piece `i` lies in cell `i` from the first on. -/
theorem tiles_cell {p q i : Nat} {l : List α} (h : Tiles len At p q l)
    (hcount : l.length + p / S = (q - 1) / S + 1) (hi : i < l.length) :
    (p + ((l.take i).map len).sum) / S = p / S + i := by
  rw [← List.take_append_drop i l] at h
  obtain ⟨htake, hdrop⟩ := tiles_split h
  have hlower := tiles_reach hcell hdrop (by simpa using hi)
  rw [List.length_drop] at hlower
  cases i with
  | zero => simp
  | succ i =>
    have hupper := tiles_reach hcell htake (List.ne_nil_of_length_pos (by simp; omega))
    rw [List.length_take_of_le (Nat.le_of_lt hi)] at hupper
    have hnext := div_le_pred_div (p + ((l.take (i + 1)).map len).sum) S
    omega

end Cells

theorem tiles_imp {At' : Nat → α → Prop} {p q : Nat} {l : List α} (h : Tiles len At p q l)
    (himp : ∀ p', ∀ x ∈ l, p ≤ p' → p' + len x ≤ q → At p' x → At' p' x) :
    Tiles len At' p q l := by
  induction l generalizing p with
  | nil => exact h
  | cons x rest ih =>
    refine ⟨h.1, himp _ x List.mem_cons_self (Nat.le_refl p) (tiles_le h.2.2) h.2.1,
      ih h.2.2 fun p' y hy hp => himp p' y (List.mem_cons_of_mem x hy) (by omega)⟩

/-- A permutation of the images is a permutation of the elements. -/
theorem exists_perm_of_map_perm {f : α → β} {l : List α} {m : List β} (h : (l.map f).Perm m) :
    ∃ l' : List α, l'.Perm l ∧ l'.map f = m := by
  generalize hk : l.map f = k at h
  induction h generalizing l with
  | nil => exact ⟨[], by rw [List.map_eq_nil_iff.mp hk], rfl⟩
  | cons x _ ih =>
    obtain ⟨a, l, rfl, rfl, hl⟩ := List.map_eq_cons_iff.mp hk
    obtain ⟨l', hperm, hmap⟩ := ih hl
    exact ⟨a :: l', hperm.cons a, by rw [List.map_cons, hmap]⟩
  | swap x y m =>
    obtain ⟨a, l, rfl, rfl, hl⟩ := List.map_eq_cons_iff.mp hk
    obtain ⟨b, l, rfl, rfl, rfl⟩ := List.map_eq_cons_iff.mp hl
    exact ⟨b :: a :: l, List.Perm.swap a b l, rfl⟩
  | trans _ _ ih ih' =>
    obtain ⟨l', hperm, hmap⟩ := ih hk
    obtain ⟨l'', hperm', hmap'⟩ := ih' hmap
    exact ⟨l'', hperm'.trans hperm, hmap'⟩

theorem tiles_map {f : α → β} {len : β → Nat} {At : Nat → β → Prop} {p q : Nat} {l : List α} :
    Tiles len At p q (l.map f) ↔ Tiles (fun x => len (f x)) (fun p x => At p (f x)) p q l := by
  induction l generalizing p with
  | nil => rfl
  | cons x rest ih => simp only [List.map_cons, tiles_cons, ih]

end Fgds.Lib.Tiling
