import Mathlib.Logic.Function.Basic

/-!
# Allocations by identity

Objects are numbered in the order in which they are allocated and never used again for
another allocation. The heap counts how often each was freed; `fault` is set when an object
is used after it was freed, or when something is freed that was never allocated. An object
that was not allocated has no kind and was not freed: this is a field of the heap.

* `Heap.alloc`, `Heap.free`, `Heap.touch`, and what each changes.
-/

namespace Fgds.Lib.Alloc

structure Heap (κ : Type*) where
  next : Nat
  kind : Nat → Option κ
  frees : Nat → Nat
  fault : Bool
  unborn : ∀ o, next ≤ o → kind o = none ∧ frees o = 0

variable {κ : Type*}

namespace Heap

def empty : Heap κ := ⟨0, fun _ => none, fun _ => 0, false, fun _ _ => ⟨rfl, rfl⟩⟩

/-- Allocate an object; its number is `h.next`. -/
def alloc (h : Heap κ) (c : κ) : Heap κ where
  next := h.next + 1
  kind := Function.update h.kind h.next (some c)
  frees := h.frees
  fault := h.fault
  unborn o ho := by
    have hne : o ≠ h.next := by omega
    rw [Function.update_of_ne hne]
    exact h.unborn o (by omega)

def free (h : Heap κ) (o : Nat) : Heap κ :=
  if ho : o < h.next then
    { h with
      frees := Function.update h.frees o (h.frees o + 1)
      unborn := fun o' ho' => by
        have hne : o' ≠ o := by omega
        rw [Function.update_of_ne hne]
        exact h.unborn o' ho' }
  else { h with fault := true }

/-- Free what a pointer points to, unless it is NULL. -/
def freeOpt (h : Heap κ) : Option Nat → Heap κ
  | none => h
  | some o => h.free o

/-- Free several objects, one after the other. -/
def freeAll (h : Heap κ) (os : List Nat) : Heap κ := os.foldl free h

/-- Read or write an object. -/
def touch (h : Heap κ) (o : Nat) : Heap κ := { h with fault := h.fault || decide (h.frees o ≠ 0) }

theorem lt_of_kind {h : Heap κ} {o : Nat} {c : κ} (hk : h.kind o = some c) : o < h.next := by
  by_contra hlt
  rw [(h.unborn o (by omega)).1] at hk
  cases hk

@[simp] theorem alloc_next (h : Heap κ) (c : κ) : (h.alloc c).next = h.next + 1 := rfl

@[simp] theorem alloc_frees (h : Heap κ) (c : κ) : (h.alloc c).frees = h.frees := rfl

theorem alloc_kind (h : Heap κ) (c : κ) (o : Nat) :
    (h.alloc c).kind o = if o = h.next then some c else h.kind o := by
  simp [alloc, Function.update_apply]

theorem alloc_kind_old {h : Heap κ} {o : Nat} {c : κ} (hk : h.kind o = some c) (d : κ) :
    (h.alloc d).kind o = some c := by
  have hne : o ≠ h.next := Nat.ne_of_lt (lt_of_kind hk)
  rw [alloc_kind, if_neg hne, hk]

@[simp] theorem free_next (h : Heap κ) (o : Nat) : (h.free o).next = h.next := by
  unfold free
  split <;> rfl

@[simp] theorem free_kind (h : Heap κ) (o : Nat) : (h.free o).kind = h.kind := by
  unfold free
  split <;> rfl

theorem free_frees {h : Heap κ} {o : Nat} (ho : o < h.next) (o' : Nat) :
    (h.free o).frees o' = if o' = o then h.frees o + 1 else h.frees o' := by
  simp [free, ho, Function.update_apply]

theorem free_fault {h : Heap κ} {o : Nat} (ho : o < h.next) : (h.free o).fault = h.fault := by
  simp [free, ho]

@[simp] theorem freeOpt_none (h : Heap κ) : h.freeOpt none = h := rfl

@[simp] theorem freeOpt_some (h : Heap κ) (o : Nat) : h.freeOpt (some o) = h.free o := rfl

@[simp] theorem freeOpt_kind (h : Heap κ) (q : Option Nat) : (h.freeOpt q).kind = h.kind := by
  cases q with
  | none => rfl
  | some o => exact free_kind h o

theorem free_frees_other (h : Heap κ) {o o' : Nat} (hne : o' ≠ o) :
    (h.free o).frees o' = h.frees o' := by
  unfold free
  split
  · simp [hne]
  · rfl

theorem free_frees_le (h : Heap κ) (o o' : Nat) : (h.free o).frees o' ≤ h.frees o' + 1 := by
  by_cases hne : o' = o
  · unfold free
    split
    · simp [hne]
    · simp
  · rw [free_frees_other h hne]
    omega

theorem le_freeOpt_frees (h : Heap κ) (q : Option Nat) (o : Nat) :
    h.frees o ≤ (h.freeOpt q).frees o := by
  cases q with
  | none => exact Nat.le_refl _
  | some a =>
    by_cases hne : o = a
    · rw [freeOpt_some, free]
      split
      · simp [hne]
      · exact Nat.le_refl _
    · exact Nat.le_of_eq (free_frees_other h hne).symm

@[simp] theorem freeAll_next (h : Heap κ) (os : List Nat) : (h.freeAll os).next = h.next := by
  induction os generalizing h with
  | nil => rfl
  | cons o os ih => exact (ih (h.free o)).trans (free_next h o)

@[simp] theorem freeAll_kind (h : Heap κ) (os : List Nat) : (h.freeAll os).kind = h.kind := by
  induction os generalizing h with
  | nil => rfl
  | cons o os ih => exact (ih (h.free o)).trans (free_kind h o)

theorem freeAll_frees_other (h : Heap κ) {os : List Nat} {o : Nat} (ho : o ∉ os) :
    (h.freeAll os).frees o = h.frees o := by
  induction os generalizing h with
  | nil => rfl
  | cons a os ih =>
    obtain ⟨hne, hrest⟩ := not_or.mp (mt List.mem_cons.mpr ho)
    exact (ih (h.free a) hrest).trans (free_frees_other h hne)

/-- Different objects are each freed once. -/
theorem freeAll_frees_le {h : Heap κ} {os : List Nat} (hos : os.Nodup) (o : Nat) :
    (h.freeAll os).frees o ≤ h.frees o + 1 := by
  induction os generalizing h with
  | nil => exact Nat.le_succ _
  | cons a os ih =>
    obtain ⟨hmem, hrest⟩ := List.nodup_cons.mp hos
    by_cases hoa : o = a
    · subst hoa
      have hself := freeAll_frees_other (h.free o) hmem
      have hle := free_frees_le h o o
      rw [freeAll, List.foldl_cons, ← freeAll]
      omega
    · have hle := ih hrest (h := h.free a)
      rwa [free_frees_other h hoa] at hle

/-- Different allocated objects are each freed once, without a fault. -/
theorem freeAll_frees {h : Heap κ} {os : List Nat} (hos : os.Nodup) (hlt : ∀ o ∈ os, o < h.next)
    (o : Nat) : (h.freeAll os).frees o = h.frees o + if o ∈ os then 1 else 0 := by
  induction os generalizing h with
  | nil => simp [freeAll]
  | cons a os ih =>
    obtain ⟨hmem, hrest⟩ := List.nodup_cons.mp hos
    have ha := hlt a List.mem_cons_self
    have htail := ih hrest (h := h.free a) fun o ho => by
      rw [free_next]
      exact hlt o (List.mem_cons_of_mem a ho)
    rw [freeAll, List.foldl_cons, ← freeAll, htail, free_frees ha]
    by_cases hoa : o = a
    · subst hoa
      simp [hmem]
    · simp [hoa]

theorem freeAll_fault {h : Heap κ} {os : List Nat} (hlt : ∀ o ∈ os, o < h.next) :
    (h.freeAll os).fault = h.fault := by
  induction os generalizing h with
  | nil => rfl
  | cons a os ih =>
    have htail := ih (h := h.free a) fun o ho => by
      rw [free_next]
      exact hlt o (List.mem_cons_of_mem a ho)
    rw [freeAll, List.foldl_cons, ← freeAll, htail, free_fault (hlt a List.mem_cons_self)]

/-- Using an object that was not freed changes nothing. -/
theorem touch_live {h : Heap κ} {o : Nat} (ho : h.frees o = 0) : h.touch o = h := by
  simp [touch, ho]

theorem touch_freed {h : Heap κ} {o : Nat} (ho : h.frees o ≠ 0) : (h.touch o).fault = true := by
  simp [touch, ho]

/-- A fault is never taken back. -/
theorem free_faulted {h : Heap κ} (hf : h.fault = true) (o : Nat) : (h.free o).fault = true := by
  unfold free
  split
  · exact hf
  · rfl

theorem freeOpt_faulted {h : Heap κ} (hf : h.fault = true) (q : Option Nat) :
    (h.freeOpt q).fault = true := by
  cases q with
  | none => exact hf
  | some o => exact free_faulted hf o

theorem touch_faulted {h : Heap κ} (hf : h.fault = true) (o : Nat) :
    (h.touch o).fault = true := by
  simp [touch, hf]

end Heap

end Fgds.Lib.Alloc
