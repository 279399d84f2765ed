import Mathlib.Data.List.Basic
import Mathlib.Data.List.Pairwise
import Mathlib.Tactic.Common

/-!
# Exchange sort

Two nested loops: for every position, compare it with each later one and exchange the two if they
are in the wrong order. The comparison is a Boolean function, which need not tell all elements
apart.

* `exchangeSort_perm`: the result is a permutation;
* `exchangeSort_sorted`: it is sorted, if the comparison comes from a total preorder;
* `exchangeSort_eq_self`: a list in which no pair is in the wrong order stays as it is;
* `exchangeSort_map`: only the comparison looks at the elements.
-/

namespace Fgds.Lib.ExchangeSort

variable {α : Type*} (gt : α → α → Bool)

/-- Compare the positions `i` and `j`, and exchange them if they are in the wrong order. -/
def exchangeAt (i : Nat) (l : List α) (j : Nat) : List α :=
  match l[i]?, l[j]? with
  | some a, some b => if gt a b then (l.set i b).set j a else l
  | _, _ => l

/-- The inner loop, for `j` from `i + 1` on. -/
def exchangeFrom (l : List α) (i : Nat) : List α :=
  (List.range' (i + 1) (l.length - (i + 1))).foldl (exchangeAt gt i) l

/-- The outer loop. -/
def exchangeSort (l : List α) : List α := (List.range (l.length - 1)).foldl (exchangeFrom gt) l

variable {gt} {l : List α} {i j : Nat}

/-- A step does nothing or exchanges two positions. -/
theorem exchangeAt_cases (gt : α → α → Bool) (i : Nat) (l : List α) (j : Nat) :
    exchangeAt gt i l j = l ∧ (∀ a b, l[i]? = some a → l[j]? = some b → gt a b = false) ∨
    ∃ a b, l[i]? = some a ∧ l[j]? = some b ∧ gt a b = true ∧
      exchangeAt gt i l j = (l.set i b).set j a := by
  unfold exchangeAt
  cases hi : l[i]? with
  | none => exact .inl ⟨rfl, fun a b ha => by cases ha⟩
  | some a =>
    cases hj : l[j]? with
    | none => exact .inl ⟨rfl, fun a b _ hb => by cases hb⟩
    | some b =>
      cases hgt : gt a b with
      | false =>
        refine .inl ⟨by simp [hgt], fun a' b' ha hb => ?_⟩
        cases ha
        cases hb
        exact hgt
      | true => exact .inr ⟨a, b, rfl, rfl, hgt, by simp [hgt]⟩

theorem exchangeAt_perm (l : List α) : (exchangeAt gt i l j).Perm l := by
  rcases exchangeAt_cases gt i l j with ⟨heq, _⟩ | ⟨a, b, hi, hj, _, heq⟩
  · rw [heq]
  · rw [heq]
    obtain ⟨hi', rfl⟩ := List.getElem?_eq_some_iff.mp hi
    obtain ⟨hj', rfl⟩ := List.getElem?_eq_some_iff.mp hj
    exact List.set_set_perm hi' hj'

/-- The element at a position after a step was at a position that is not smaller than the first
of the two, or at the same one. -/
theorem exchangeAt_getElem? (gt : α → α → Bool) (l : List α) (hij : i < j) (q : Nat) :
    (exchangeAt gt i l j)[q]? = l[q]? ∨
      i ≤ q ∧ ((q = i ∧ (exchangeAt gt i l j)[q]? = l[j]?) ∨
        (q = j ∧ (exchangeAt gt i l j)[q]? = l[i]?)) := by
  rcases exchangeAt_cases gt i l j with ⟨heq, _⟩ | ⟨a, b, hi, hj, _, heq⟩
  · exact .inl (by rw [heq])
  · rw [heq]
    obtain ⟨hi', rfl⟩ := List.getElem?_eq_some_iff.mp hi
    obtain ⟨hj', rfl⟩ := List.getElem?_eq_some_iff.mp hj
    by_cases hqj : q = j
    · exact .inr ⟨by omega, .inr ⟨hqj, by simp [hqj, hi', hj']⟩⟩
    · by_cases hqi : q = i
      · refine .inr ⟨by omega, .inl ⟨hqi, ?_⟩⟩
        rw [List.getElem?_set_ne (Ne.symm hqj), hqi, List.getElem?_set_self hi', hj]
      · left
        rw [List.getElem?_set_ne (Ne.symm hqj), List.getElem?_set_ne (Ne.symm hqi)]

/-! ## The result is a permutation -/

theorem foldl_exchangeAt_perm (l : List α) (js : List Nat) :
    (js.foldl (exchangeAt gt i) l).Perm l := by
  induction js generalizing l with
  | nil => exact .refl l
  | cons j js ih => exact (ih _).trans (exchangeAt_perm l)

theorem foldl_exchangeFrom_perm (l : List α) (is : List Nat) :
    (is.foldl (exchangeFrom gt) l).Perm l := by
  induction is generalizing l with
  | nil => exact .refl l
  | cons i is ih => exact (ih _).trans (foldl_exchangeAt_perm l _)

theorem exchangeSort_perm (gt : α → α → Bool) (l : List α) : (exchangeSort gt l).Perm l :=
  foldl_exchangeFrom_perm l _

/-! ## The result is sorted -/

/-- The positions before `i` are in order with all later ones. -/
def Settled (gt : α → α → Bool) (l : List α) (i : Nat) : Prop :=
  ∀ p < i, ∀ q > p, ∀ a b, l[p]? = some a → l[q]? = some b → gt a b = false

/-- The position `i` is in order with the later ones before `j`. -/
def Leads (gt : α → α → Bool) (l : List α) (i j : Nat) : Prop :=
  ∀ q, i < q → q < j → ∀ a b, l[i]? = some a → l[q]? = some b → gt a b = false

theorem Settled.exchangeAt (h : Settled gt l i) (hij : i < j) :
    Settled gt (exchangeAt gt i l j) i := by
  intro p hp q hq a b ha hb
  have hsame : l[p]? = some a := by
    rcases exchangeAt_getElem? gt l hij p with hsame | ⟨hle, _⟩
    · rw [← hsame, ha]
    · omega
  rcases exchangeAt_getElem? gt l hij q with hq' | ⟨_, ⟨_, hq'⟩ | ⟨_, hq'⟩⟩
  · exact h p hp q hq a b hsame (hq' ▸ hb)
  · exact h p hp j (by omega) a b hsame (hq' ▸ hb)
  · exact h p hp i hp a b hsame (hq' ▸ hb)

section Order

variable (htrans : ∀ a b c, gt a b = false → gt b c = false → gt a c = false)
  (htotal : ∀ a b, gt a b = true → gt b a = false)

include htrans htotal

theorem Leads.exchangeAt (h : Leads gt l i j) (hij : i < j) :
    Leads gt (exchangeAt gt i l j) i (j + 1) := by
  intro q hiq hqj c d hc hd
  rcases exchangeAt_cases gt i l j with ⟨heq, hle⟩ | ⟨a, b, hi, hj, hgt, heq⟩
  · rw [heq] at hc hd
    by_cases hq : q = j
    · exact hle c d hc (hq ▸ hd)
    · exact h q hiq (by omega) c d hc hd
  · obtain ⟨hi', rfl⟩ := List.getElem?_eq_some_iff.mp hi
    obtain ⟨hj', rfl⟩ := List.getElem?_eq_some_iff.mp hj
    have hji : j ≠ i := by omega
    rw [heq, List.getElem?_set_ne hji, List.getElem?_set_self hi'] at hc
    cases hc
    by_cases hq : q = j
    · subst hq
      rw [heq, List.getElem?_set_self (by simpa using hj')] at hd
      cases hd
      exact htotal _ _ hgt
    · have hqi : i ≠ q := by omega
      rw [heq, List.getElem?_set_ne (Ne.symm hq), List.getElem?_set_ne hqi] at hd
      exact htrans _ _ _ (htotal _ _ hgt) (h q hiq (by omega) _ d hi hd)

/-- What the inner loop keeps and what it brings. -/
theorem foldl_exchangeAt_leads (m : Nat) (h : Settled gt l i) (hl : Leads gt l i j) (hij : i < j) :
    Settled gt ((List.range' j m).foldl (exchangeAt gt i) l) i ∧
      Leads gt ((List.range' j m).foldl (exchangeAt gt i) l) i (j + m) := by
  induction m generalizing l j with
  | zero => exact ⟨h, hl⟩
  | succ m ih =>
    obtain ⟨hs, hleads⟩ := ih (h.exchangeAt hij) (hl.exchangeAt htrans htotal hij) (by omega)
    refine ⟨hs, ?_⟩
    rw [show j + (m + 1) = j + 1 + m by omega]
    exact hleads

theorem Settled.exchangeFrom (h : Settled gt l i) : Settled gt (exchangeFrom gt l i) (i + 1) := by
  have hlen : (ExchangeSort.exchangeFrom gt l i).length = l.length :=
    (foldl_exchangeAt_perm l _).length_eq
  obtain ⟨hs, hleads⟩ := foldl_exchangeAt_leads htrans htotal (l.length - (i + 1)) h
    (fun q hiq hqj => by omega) (Nat.lt_succ_self i)
  intro p hp q hq a b ha hb
  rcases Nat.lt_succ_iff_lt_or_eq.mp hp with hp | rfl
  · exact hs p hp q hq a b ha hb
  · obtain ⟨hq', _⟩ := List.getElem?_eq_some_iff.mp hb
    exact hleads q hq (by omega) a b ha hb

theorem foldl_exchangeFrom_settled (m : Nat) :
    Settled gt ((List.range m).foldl (exchangeFrom gt) l) m := by
  induction m with
  | zero => exact fun p hp => by omega
  | succ m ih =>
    rw [List.range_succ, List.foldl_append]
    exact ih.exchangeFrom htrans htotal

theorem exchangeSort_sorted (l : List α) :
    (exchangeSort gt l).Pairwise fun a b => gt a b = false := by
  rw [List.pairwise_iff_getElem]
  intro p q hp hq hpq
  have hlen := (exchangeSort_perm gt l).length_eq
  exact foldl_exchangeFrom_settled htrans htotal (l.length - 1) p (by omega) q hpq _ _
    (List.getElem?_eq_getElem hp) (List.getElem?_eq_getElem hq)

end Order

/-! ## A sorted list stays -/

theorem exchangeSort_eq_self (h : l.Pairwise fun a b => gt a b = false) :
    exchangeSort gt l = l := by
  have hstep : ∀ {i j}, i < j → exchangeAt gt i l j = l := by
    intro i j hij
    rcases exchangeAt_cases gt i l j with ⟨heq, _⟩ | ⟨a, b, hi, hj, hgt, _⟩
    · exact heq
    · obtain ⟨hi', rfl⟩ := List.getElem?_eq_some_iff.mp hi
      obtain ⟨hj', rfl⟩ := List.getElem?_eq_some_iff.mp hj
      rw [List.pairwise_iff_getElem.mp h i j hi' hj' hij] at hgt
      cases hgt
  have hinner : ∀ i (js : List Nat), (∀ j ∈ js, i < j) → js.foldl (exchangeAt gt i) l = l := by
    intro i js hjs
    induction js with
    | nil => rfl
    | cons j js ih =>
      rw [List.foldl_cons, hstep (hjs j List.mem_cons_self)]
      exact ih fun j' hj' => hjs j' (List.mem_cons_of_mem j hj')
  have houter : ∀ is : List Nat, is.foldl (exchangeFrom gt) l = l := by
    intro is
    induction is with
    | nil => rfl
    | cons i is ih =>
      have hfrom : exchangeFrom gt l i = l :=
        hinner i _ fun j hj => by
          have := List.mem_range'_1.mp hj
          omega
      rw [List.foldl_cons, hfrom, ih]
  exact houter _

/-! ## Sorting images -/

section Map

variable {β : Type*} (f : β → α)

theorem exchangeAt_map (gt : α → α → Bool) (l : List β) (i j : Nat) :
    exchangeAt gt i (l.map f) j = (exchangeAt (fun a b => gt (f a) (f b)) i l j).map f := by
  unfold exchangeAt
  rw [List.getElem?_map, List.getElem?_map]
  cases l[i]? with
  | none => rfl
  | some a =>
    cases l[j]? with
    | none => rfl
    | some b =>
      cases hgt : gt (f a) (f b) with
      | false => simp [hgt]
      | true => simp [hgt, List.map_set]

theorem foldl_exchangeAt_map (gt : α → α → Bool) (l : List β) (i : Nat) (js : List Nat) :
    js.foldl (exchangeAt gt i) (l.map f) =
      (js.foldl (exchangeAt (fun a b => gt (f a) (f b)) i) l).map f := by
  induction js generalizing l with
  | nil => rfl
  | cons j js ih => rw [List.foldl_cons, List.foldl_cons, exchangeAt_map, ih]

theorem exchangeSort_map (gt : α → α → Bool) (l : List β) :
    exchangeSort gt (l.map f) = (exchangeSort (fun a b => gt (f a) (f b)) l).map f := by
  unfold exchangeSort
  rw [List.length_map]
  generalize List.range (l.length - 1) = is
  induction is generalizing l with
  | nil => rfl
  | cons i is ih =>
    rw [List.foldl_cons, List.foldl_cons, ← ih, exchangeFrom, exchangeFrom, List.length_map,
      foldl_exchangeAt_map]

end Map

end Fgds.Lib.ExchangeSort
