import Fgds.Lib.Overlay
import Fgds.Lib.Tiling
import Fgds.Uring

/-!
# Host memory and files

A completed read stores file bytes at a host address, a completed write stores host
bytes in a file; the host ranges of a registered region show its GPU memory. Here is
what a list of completed operations leaves, when they are the pieces of one window:

* `reads_effect`: the window holds the file bytes, as far as the file goes, and no
  other byte changed;
* `writes_effect`: the file holds the window, and no other byte changed.

In both the operations may have been carried out in any order.
-/

namespace Fgds.Storage

open Fgds.Lib.Overlay Fgds.Lib.Tiling Fgds.Device Fgds.Uring

/-- A file; there is nothing behind its end. -/
structure File where
  size : Nat
  byte : Nat → UInt8
  zero : ∀ y, size ≤ y → byte y = 0

/-- The host memory, and the file behind each descriptor. -/
structure World where
  mem : Nat → UInt8
  files : Int → File

/-! ## Completed operations -/

/-- The bytes of memory that a read which returned `res` stores. -/
def readStore (files : Int → File) (c : Cqe) : Nat → Option UInt8 := fun x =>
  if c.sqe.addr ≤ x ∧ x < c.sqe.addr + c.res.toNat then
    some ((files c.sqe.fd).byte (c.sqe.off + (x - c.sqe.addr)))
  else none

/-- The bytes of the file that a write which returned `res` stores. -/
def writeStore (mem : Nat → UInt8) (c : Cqe) : Nat → Option UInt8 := fun y =>
  if c.sqe.off ≤ y ∧ y < c.sqe.off + c.res.toNat then
    some (mem (c.sqe.addr + (y - c.sqe.off)))
  else none

/-- A write past the end extends the file; one of no byte does not. -/
def File.write (file : File) (mem : Nat → UInt8) (c : Cqe) : File where
  size := if c.res.toNat = 0 then file.size else max file.size (c.sqe.off + c.res.toNat)
  byte := overlay file.byte (writeStore mem c)
  zero := by
    intro y hy
    have hnone : writeStore mem c y = none := by
      rw [writeStore, if_neg]
      split at hy <;> omega
    simp only [overlay, hnone, Option.getD_none]
    apply file.zero
    split at hy <;> omega

def World.apply (w : World) (c : Cqe) : World :=
  match c.sqe.opcode with
  | .read => { w with mem := overlay w.mem (readStore w.files c) }
  | .write =>
    { w with
      files := Function.update w.files c.sqe.fd ((w.files c.sqe.fd).write w.mem c) }

def World.applyAll (w : World) (log : List Cqe) : World := log.foldl World.apply w

/-- Reads change the memory only. -/
theorem applyAll_reads (w : World) {log : List Cqe} (h : ∀ c ∈ log, c.sqe.opcode = .read) :
    w.applyAll log = { w with mem := overlayAll w.mem (log.map (readStore w.files)) } := by
  induction log generalizing w with
  | nil => rfl
  | cons c log ih =>
    have hc : w.apply c = { w with mem := overlay w.mem (readStore w.files c) } := by
      simp only [World.apply, h c List.mem_cons_self]
    rw [World.applyAll, List.foldl_cons, ← World.applyAll, hc,
      ih _ fun c' hc' => h c' (List.mem_cons_of_mem c hc')]
    rfl

/-- Writes change the bytes of their file only. -/
theorem applyAll_writes (w : World) {log : List Cqe} {fd : Int}
    (h : ∀ c ∈ log, c.sqe.opcode = .write ∧ c.sqe.fd = fd) :
    (w.applyAll log).mem = w.mem ∧ (∀ g, g ≠ fd → (w.applyAll log).files g = w.files g) ∧
      ((w.applyAll log).files fd).byte =
        overlayAll (w.files fd).byte (log.map (writeStore w.mem)) := by
  induction log generalizing w with
  | nil => exact ⟨rfl, fun _ _ => rfl, rfl⟩
  | cons c log ih =>
    obtain ⟨hop, hfd⟩ := h c List.mem_cons_self
    have hc : w.apply c =
        { w with files := Function.update w.files fd ((w.files fd).write w.mem c) } := by
      simp only [World.apply, hop, hfd]
    obtain ⟨hmem, hfiles, hbyte⟩ := ih (w.apply c) fun c' hc' => h c' (List.mem_cons_of_mem c hc')
    rw [World.applyAll, List.foldl_cons, ← World.applyAll]
    rw [hc] at hmem hfiles hbyte ⊢
    refine ⟨hmem, fun g hg => ?_, ?_⟩
    · rw [hfiles g hg]
      simp [Function.update_of_ne hg]
    · rw [hbyte]
      simp [File.write]

/-- The file after the writes reaches as far as the writes do, and no further. -/
theorem applyAll_size (w : World) {log : List Cqe} {fd : Int}
    (h : ∀ c ∈ log, c.sqe.opcode = .write ∧ c.sqe.fd = fd) :
    (w.files fd).size ≤ ((w.applyAll log).files fd).size ∧
      (∀ c ∈ log, 0 < c.res.toNat →
        c.sqe.off + c.res.toNat ≤ ((w.applyAll log).files fd).size) ∧
      ∀ B, (w.files fd).size ≤ B → (∀ c ∈ log, c.sqe.off + c.res.toNat ≤ B) →
        ((w.applyAll log).files fd).size ≤ B := by
  induction log generalizing w with
  | nil => exact ⟨Nat.le_refl _, by simp, fun _ hB _ => hB⟩
  | cons c log ih =>
    obtain ⟨hop, hfd⟩ := h c List.mem_cons_self
    have hc : ((w.apply c).files fd).size = if c.res.toNat = 0 then (w.files fd).size
        else max (w.files fd).size (c.sqe.off + c.res.toNat) := by
      simp only [World.apply, hop, hfd, Function.update_self, File.write]
    obtain ⟨hle, hreach, hmost⟩ := ih (w.apply c) fun c' hc' => h c' (List.mem_cons_of_mem c hc')
    rw [World.applyAll, List.foldl_cons, ← World.applyAll]
    refine ⟨?_, fun c' hc' hpos => ?_, fun B hB hall => ?_⟩
    · split at hc <;> omega
    · rcases List.mem_cons.mp hc' with rfl | hc'
      · split at hc <;> omega
      · exact hreach c' hc' hpos
    · have hcB := hall c List.mem_cons_self
      refine hmost B ?_ fun c' hc' => hall c' (List.mem_cons_of_mem c hc')
      split at hc <;> omega

/-! ## The pieces of a window -/

section Pieces

variable {nd : MmapNode} {fd : Int} {b f : Nat}

/-- A completed read of the piece at offset `p` of a window that starts at `b`, from the
file at `f` on, the file having `S` bytes: it got what was available. A read of no
byte may have been asked for anywhere. -/
structure ReadAt (nd : MmapNode) (fd : Int) (b f S p : Nat) (c : Cqe) : Prop where
  opcode : c.sqe.opcode = .read
  fd : c.sqe.fd = fd
  addr : c.sqe.addr = nd.hostAddr p
  segment : (p + c.sqe.len - 1) / fgdsMmapSegmentSize = p / fgdsMmapSegmentSize
  res : c.res = (min c.sqe.len (S - (f + (p - b))) : Nat)
  off : 0 < c.res → c.sqe.off = f + (p - b)

/-- A completed write of such a piece, in full. -/
structure WriteAt (nd : MmapNode) (fd : Int) (b f p : Nat) (c : Cqe) : Prop where
  opcode : c.sqe.opcode = .write
  fd : c.sqe.fd = fd
  addr : c.sqe.addr = nd.hostAddr p
  segment : (p + c.sqe.len - 1) / fgdsMmapSegmentSize = p / fgdsMmapSegmentSize
  res : c.res = c.sqe.len
  off : c.sqe.off = f + (p - b)

theorem ReadAt.store {S p : Nat} {c : Cqe} (h : ReadAt nd fd b f S p c) (hp : b ≤ p)
    (files : Int → File) {x : Nat} {v : UInt8} (hv : readStore files c x = some v) :
    ∃ j, j < c.sqe.len ∧ f + (p - b) + j < S ∧ x = nd.hostAddr (p + j) ∧
      v = (files fd).byte (f + (p - b + j)) := by
  unfold readStore at hv
  split at hv
  · rename_i hx
    have hres := h.res
    have hj : x - c.sqe.addr < c.sqe.len := by omega
    refine ⟨x - c.sqe.addr, hj, by omega, ?_, ?_⟩
    · rw [← nd.hostAddr_add hj h.segment, ← h.addr]
      omega
    · rw [Option.some.injEq] at hv
      rw [← hv, h.fd, h.off (by omega), Nat.add_assoc]
  · cases hv

/-- **Reads.** The window holds the bytes of the file, as far as the file goes. -/
theorem reads_effect (hreg : nd.Registered) {n S : Nat} (hin : b + n ≤ nd.length)
    {log cs : List Cqe} (hperm : cs.Perm log)
    (ht : Tiles (fun c => c.sqe.len) (ReadAt nd fd b f S) b (b + n) cs) (w : World) :
    (w.applyAll log).files = w.files ∧
      (∀ k < min n (S - f), (w.applyAll log).mem (nd.hostAddr (b + k)) =
        (w.files fd).byte (f + k)) ∧
      ∀ x, (∀ k < min n (S - f), x ≠ nd.hostAddr (b + k)) →
        (w.applyAll log).mem x = w.mem x := by
  have hreads : ∀ c ∈ log, c.sqe.opcode = .read := by
    intro c hc
    obtain ⟨_, _, _, _, hat⟩ := tiles_mem ht (hperm.mem_iff.mpr hc)
    exact hat.opcode
  rw [applyAll_reads w hreads]
  refine ⟨rfl, overlayAll_image ?_ ?_ ?_ w.mem⟩
  · intro i hi j hj he
    have := hreg.hostAddr_inj (by omega) (by omega) he
    omega
  · intro s hs x v hv
    obtain ⟨c, hc, rfl⟩ := List.mem_map.mp hs
    obtain ⟨p, hp, hq, _, hat⟩ := tiles_mem ht (hperm.mem_iff.mpr hc)
    obtain ⟨j, hj, hS, hx, hv⟩ := hat.store hp w.files hv
    refine ⟨p - b + j, by omega, ?_, hv⟩
    rw [hx]
    congr 1
    omega
  · intro k hk
    obtain ⟨c, hc, p, hbp, hat, hp, hq⟩ := tiles_cover ht (Nat.le_add_right b k) (by omega)
    have hres := hat.res
    have hj : b + k - p < c.sqe.len := by omega
    have haddr : c.sqe.addr + (b + k - p) = nd.hostAddr (b + k) := by
      rw [hat.addr, nd.hostAddr_add hj hat.segment]
      congr 1
      omega
    refine ⟨_, List.mem_map_of_mem (hperm.mem_iff.mp hc), ?_⟩
    rw [readStore, if_pos (by omega)]
    rfl

theorem WriteAt.store {p : Nat} {c : Cqe} (h : WriteAt nd fd b f p c) (mem : Nat → UInt8)
    {y : Nat} {v : UInt8} (hv : writeStore mem c y = some v) :
    ∃ j, j < c.sqe.len ∧ y = f + (p - b + j) ∧ v = mem (nd.hostAddr (p + j)) := by
  unfold writeStore at hv
  split at hv
  · rename_i hy
    have hres := h.res
    have hoff := h.off
    have hj : y - c.sqe.off < c.sqe.len := by omega
    refine ⟨y - c.sqe.off, hj, by omega, ?_⟩
    rw [Option.some.injEq] at hv
    rw [← hv, h.addr, nd.hostAddr_add hj h.segment]
  · cases hv

/-- **Writes.** The file holds the bytes of the window, and is extended to the end of it. -/
theorem writes_effect {n : Nat} (hn : 0 < n) {log cs : List Cqe} (hperm : cs.Perm log)
    (ht : Tiles (fun c => c.sqe.len) (WriteAt nd fd b f) b (b + n) cs) (w : World) :
    (w.applyAll log).mem = w.mem ∧ (∀ g, g ≠ fd → (w.applyAll log).files g = w.files g) ∧
      ((w.applyAll log).files fd).size = max (w.files fd).size (f + n) ∧
      (∀ k < n, ((w.applyAll log).files fd).byte (f + k) = w.mem (nd.hostAddr (b + k))) ∧
      ∀ y, (∀ k < n, y ≠ f + k) → ((w.applyAll log).files fd).byte y = (w.files fd).byte y := by
  have hwrites : ∀ c ∈ log, c.sqe.opcode = .write ∧ c.sqe.fd = fd := by
    intro c hc
    obtain ⟨_, _, _, _, hat⟩ := tiles_mem ht (hperm.mem_iff.mpr hc)
    exact ⟨hat.opcode, hat.fd⟩
  obtain ⟨hmem, hfiles, hbyte⟩ := applyAll_writes w hwrites
  have hsize : ((w.applyAll log).files fd).size = max (w.files fd).size (f + n) := by
    obtain ⟨hle, hreach, hmost⟩ := applyAll_size w hwrites
    obtain ⟨c, hc, p, hbp, hat, hp, hq⟩ := tiles_cover ht (k := b + n - 1) (by omega) (by omega)
    have hres := hat.res
    have hoff := hat.off
    have hlast := hreach c (hperm.mem_iff.mp hc) (by omega)
    refine Nat.le_antisymm (hmost _ (by omega) fun c' hc' => ?_) (by omega)
    obtain ⟨p', _, hq', _, hat'⟩ := tiles_mem ht (hperm.mem_iff.mpr hc')
    have hres' := hat'.res
    have hoff' := hat'.off
    omega
  rw [hbyte]
  refine ⟨hmem, hfiles, hsize, overlayAll_image ?_ ?_ ?_ _⟩
  · intro i _ j _ he
    omega
  · intro s hs y v hv
    obtain ⟨c, hc, rfl⟩ := List.mem_map.mp hs
    obtain ⟨p, hp, hq, _, hat⟩ := tiles_mem ht (hperm.mem_iff.mpr hc)
    obtain ⟨j, hj, hy, hv⟩ := hat.store w.mem hv
    refine ⟨p - b + j, by omega, hy, ?_⟩
    rw [hv]
    congr 2
    omega
  · intro k hk
    obtain ⟨c, hc, p, hbp, hat, hp, hq⟩ := tiles_cover ht (Nat.le_add_right b k) (by omega)
    have hres := hat.res
    have hoff := hat.off
    refine ⟨_, List.mem_map_of_mem (hperm.mem_iff.mp hc), ?_⟩
    rw [writeStore, if_pos (by omega)]
    rfl

end Pieces

end Fgds.Storage
