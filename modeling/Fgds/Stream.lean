import Fgds.Async
import Fgds.Lib.Deferred
import Fgds.Lib.Runs
import Fgds.Transfer

/-!
# Streams

`fgds_read_async` and `fgds_write_async` translate the buffer at once and leave the transfer to a
host function of a CUDA stream. A stream carries out its host functions one after the other;
nothing is said about the order between streams.

* `State.step`: calls are queued, and the first of any stream is carried out;
* `copies`: a transfer as one copy between a region and a file;
* `callback_copies`, `syncCall_copies`: the callback carries out the copy, and so does the
  synchronous call;
* `streams_in_order`: when the queue is empty, memory, files and all `bytes_done` are as if the
  calls had been synchronous, if those on different streams are apart.
-/

namespace Fgds.Stream

open Fgds.Lib.CInt Fgds.Lib.Deferred Fgds.Lib.Overlay Fgds.Lib.Runs Fgds.Lib.Tiling
open Fgds.Async Fgds.Device Fgds.Pipeline Fgds.ReadWrite Fgds.Storage Fgds.Transfer Fgds.Uring
open Fgds.Xfer

/-! ## Queued calls -/

/-- A call of `fgds_read_async` or `fgds_write_async`; `slot` is the address in `bytes_done`. -/
structure Call where
  op : Opcode
  fd : Int
  buf : Nat
  nbytes : Nat
  offset : Int
  slot : Nat
  stream : Nat

/-- What `cudaLaunchHostFunc` got: the data of the callback, here beside the call it is for. -/
structure Pending where
  call : Call
  data : FgdsData

/-- `stored` are the values that callbacks left in `bytes_done`, `accepted` the calls that returned
`cudaSuccess`. -/
structure State where
  world : World
  queue : List Pending
  stored : List (Nat × Int)
  accepted : List Call

inductive Event where
  | launch (c : Call) (status : CudaError)
  | run (stream : Nat) (rw : Nat → Sqe → Int)

section Steps

variable (head : List MmapNode)

/-- A call is queued if its buffer is found and the runtime takes the host function. -/
def State.launch (s : State) (c : Call) (status : CudaError) : State :=
  match fgdsAsync head status c.fd c.op c.buf c.nbytes c.offset with
  | (.success, some data) =>
    { s with queue := s.queue ++ [⟨c, data⟩], accepted := s.accepted ++ [c] }
  | _ => s

/-- The stream carries out the first of its callbacks. -/
def State.run (s : State) (stream : Nat) (rw : Nat → Sqe → Int) : State :=
  match s.queue.find? fun p => p.call.stream == stream with
  | none => s
  | some p =>
    let done := fgdsCallback rw p.data 0
    { s with
      world := s.world.applyAll done.2
      queue := s.queue.eraseP fun p => p.call.stream == stream
      stored := s.stored ++ [(p.call.slot, done.1)] }

def State.step (s : State) : Event → State
  | .launch c status => s.launch head c status
  | .run stream rw => s.run stream rw

end Steps

/-- The call is on the base of a region that holds all of its bytes. -/
structure OnBase (head : List MmapNode) (c : Call) : Prop where
  region : ∃ nd ∈ head, c.buf = nd.gpuAddr ∧ c.nbytes ≤ nd.length
  pos : 1 ≤ c.nbytes
  offset : 0 ≤ c.offset
  offset_lt : c.offset < 2 ^ 63

/-- `pread` gets what the file has, and `pwrite` writes everything. -/
structure Served (w : World) (rw : Nat → Sqe → Int) : Prop where
  read : ∀ i q, q.opcode = .read → rw i q = available (w.files q.fd).size q
  write : ∀ i q, q.opcode = .write → rw i q = q.len

/-- Calls on a device whose registrations stay; those that it does not refuse are on the base of a
region. -/
def streams (dev : ReadyDevice) (w : World) : System State Event where
  init := ⟨w, [], [], []⟩
  step := State.step dev.head
  possible s
    | .launch c _ => fgdsDoXferAddr dev.head c.buf 0 c.nbytes = none ∨ OnBase dev.head c
    | .run _ rw => Served s.world rw

/-- Two calls that may be on different streams: they share no region that one of them reads into,
and no file that one of them writes, unless both write to ranges apart. A read and a write of one
file are not apart even if their ranges are, since the write may move the end of the file. -/
def Apart (a b : Call) : Prop :=
  match a.op, b.op with
  | .read, .read => a.buf ≠ b.buf
  | .write, .write => a.fd ≠ b.fd ∨ a.offset + a.nbytes ≤ b.offset ∨ b.offset + b.nbytes ≤ a.offset
  | .read, .write | .write, .read => a.buf ≠ b.buf ∧ a.fd ≠ b.fd

/-! ## The synchronous calls -/

def syncCall (head : List MmapNode) (k : Kernel) (ring : Ring) (c : Call) : Option IoResult :=
  match c.op with
  | .read => fgdsRead head k ring ⟨c.fd, c.buf, 0, c.nbytes, c.offset, 0⟩
  | .write => fgdsWrite head k ring ⟨c.fd, c.buf, 0, c.nbytes, c.offset, 0⟩

/-- `fgds_read` and `fgds_write` one after the other, on the kernel that each call finds: memory and
files in the end, and what the calls returned. -/
def syncCalls (head : List MmapNode) (kernel : World → Int → Kernel) :
    List Call → Ring → World → Option (World × List (Nat × Int))
  | [], _, w => some (w, [])
  | c :: cs, ring, w => do
    let res ← syncCall head (kernel w c.fd) ring c
    let rest ← syncCalls head kernel cs res.ring (w.applyAll res.log)
    some (rest.1, (c.slot, res.ret) :: rest.2)

/-! ## Copies -/

section Copies

/-- The bytes of memory that the first `n` bytes of a region get from a file, from `f` on. -/
def memStore (nd : MmapNode) (n f : Nat) (file : File) (x : Nat) : Option UInt8 :=
  let j := (List.range (min n (file.size - f))).find? fun j => nd.hostAddr j == x
  j.map fun j => file.byte (f + j)

def readCopy (nd : MmapNode) (fd : Int) (n f : Nat) (w : World) : World :=
  { w with mem := overlay w.mem (memStore nd n f (w.files fd)) }

/-- The bytes of the file that get a region. -/
def fileStore (nd : MmapNode) (n f : Nat) (mem : Nat → UInt8) (y : Nat) : Option UInt8 :=
  if f ≤ y ∧ y < f + n then some (mem (nd.hostAddr (y - f))) else none

/-- The file gets the first `n` bytes of the region from `f` on. -/
def File.copied (file : File) (nd : MmapNode) (n f : Nat) (mem : Nat → UInt8) : File where
  size := max file.size (f + n)
  byte := overlay file.byte (fileStore nd n f mem)
  zero := by
    intro y hy
    rw [overlay, fileStore, if_neg (by omega), Option.getD_none]
    exact file.zero y (by omega)

def writeCopy (nd : MmapNode) (fd : Int) (n f : Nat) (w : World) : World :=
  { w with files := Function.update w.files fd (File.copied (w.files fd) nd n f w.mem) }

/-- A call as one copy, and the count it reports. -/
def copies (head : List MmapNode) : Ops World Call Int where
  effect c w :=
    match findFgdsMmapNode head c.buf c.nbytes, c.op with
    | none, _ => w
    | some nd, .read => readCopy nd c.fd c.nbytes c.offset.toNat w
    | some nd, .write => writeCopy nd c.fd c.nbytes c.offset.toNat w
  answer c w :=
    match c.op with
    | .read => (min c.nbytes ((w.files c.fd).size - c.offset.toNat) : Nat)
    | .write => c.nbytes

end Copies

@[simp] theorem readCopy_files (nd : MmapNode) (fd : Int) (n f : Nat) (w : World) :
    (readCopy nd fd n f w).files = w.files := rfl

@[simp] theorem readCopy_mem (nd : MmapNode) (fd : Int) (n f : Nat) (w : World) :
    (readCopy nd fd n f w).mem = overlay w.mem (memStore nd n f (w.files fd)) := rfl

@[simp] theorem writeCopy_mem (nd : MmapNode) (fd : Int) (n f : Nat) (w : World) :
    (writeCopy nd fd n f w).mem = w.mem := rfl

@[simp] theorem writeCopy_files (nd : MmapNode) (fd : Int) (n f : Nat) (w : World) :
    (writeCopy nd fd n f w).files =
      Function.update w.files fd (File.copied (w.files fd) nd n f w.mem) := rfl

theorem fileStore_inside (nd : MmapNode) {n f j : Nat} (hj : j < n) (mem : Nat → UInt8) :
    fileStore nd n f mem (f + j) = some (mem (nd.hostAddr j)) := by
  rw [fileStore, if_pos (by omega), Nat.add_sub_cancel_left]

theorem fileStore_outside (nd : MmapNode) {n f y : Nat} (hy : y < f ∨ f + n ≤ y)
    (mem : Nat → UInt8) : fileStore nd n f mem y = none := if_neg (by omega)

theorem file_ext {a b : File} (hsize : a.size = b.size) (hbyte : ∀ y, a.byte y = b.byte y) :
    a = b := by
  obtain ⟨size, byte, zero⟩ := a
  obtain ⟨size', byte', zero'⟩ := b
  obtain rfl : size = size' := hsize
  obtain rfl : byte = byte' := funext hbyte
  rfl

theorem world_ext {v w : World} (hmem : ∀ x, v.mem x = w.mem x)
    (hfiles : ∀ fd, v.files fd = w.files fd) : v = w := by
  obtain ⟨mem, files⟩ := v
  obtain ⟨mem', files'⟩ := w
  obtain rfl : mem = mem' := funext hmem
  obtain rfl : files = files' := funext hfiles
  rfl

section Region

variable {nd : MmapNode} (hreg : nd.Registered) {n f : Nat} (hn : n ≤ nd.length)
include hreg hn

theorem memStore_inside {file : File} {j : Nat} (hj : j < min n (file.size - f)) :
    memStore nd n f file (nd.hostAddr j) = some (file.byte (f + j)) := by
  have hfind : (List.range (min n (file.size - f))).find?
      (fun i => nd.hostAddr i == nd.hostAddr j) = some j := by
    cases h : (List.range (min n (file.size - f))).find?
        (fun i => nd.hostAddr i == nd.hostAddr j) with
    | none =>
      have hno := List.find?_eq_none.mp h j (List.mem_range.mpr hj)
      simp at hno
    | some i =>
      have hi := List.mem_range.mp (List.mem_of_find?_eq_some h)
      have he : nd.hostAddr i = nd.hostAddr j := by simpa using List.find?_some h
      rw [hreg.hostAddr_inj (by omega) (by omega) he]
  simp [memStore, hfind]

omit hreg hn in
theorem memStore_outside {file : File} {x : Nat}
    (hx : ∀ j < min n (file.size - f), x ≠ nd.hostAddr j) : memStore nd n f file x = none := by
  have hfind : (List.range (min n (file.size - f))).find? (fun i => nd.hostAddr i == x) = none :=
    List.find?_eq_none.mpr fun i hi => by
      have hne := hx i (List.mem_range.mp hi)
      simpa using fun h => hne h.symm
  simp [memStore, hfind]

/-- Reads that cut the window are the copy. -/
theorem reads_copy {fd : Int} {log cs : List Cqe} (hperm : cs.Perm log) (w : World)
    (ht : Tiles (fun c => c.sqe.len) (ReadAt nd fd 0 f (w.files fd).size) 0 n cs) :
    w.applyAll log = readCopy nd fd n f w := by
  have ht' : Tiles (fun c => c.sqe.len) (ReadAt nd fd 0 f (w.files fd).size) 0 (0 + n) cs := by
    rwa [Nat.zero_add]
  obtain ⟨hfiles, hin, hout⟩ := reads_effect hreg (by omega) hperm ht' w
  simp only [Nat.zero_add] at hin hout
  refine world_ext (fun x => ?_) fun g => congrFun hfiles g
  by_cases hx : ∃ j < min n ((w.files fd).size - f), x = nd.hostAddr j
  · obtain ⟨j, hj, rfl⟩ := hx
    rw [hin j hj, readCopy_mem, overlay_some (memStore_inside hreg hn hj)]
  · have hno : ∀ j < min n ((w.files fd).size - f), x ≠ nd.hostAddr j :=
      fun j hj he => hx ⟨j, hj, he⟩
    rw [hout x hno, readCopy_mem, overlay_none (memStore_outside hno)]

omit hreg hn in
/-- Writes that cut the window are the copy. -/
theorem writes_copy {fd : Int} (hpos : 0 < n) {log cs : List Cqe} (hperm : cs.Perm log) (w : World)
    (ht : Tiles (fun c => c.sqe.len) (WriteAt nd fd 0 f) 0 n cs) :
    w.applyAll log = writeCopy nd fd n f w := by
  have ht' : Tiles (fun c => c.sqe.len) (WriteAt nd fd 0 f) 0 (0 + n) cs := by
    rwa [Nat.zero_add]
  obtain ⟨hmem, hother, hsize, hin, hout⟩ := writes_effect hpos hperm ht' w
  simp only [Nat.zero_add] at hin
  refine world_ext (fun x => congrFun hmem x) fun g => ?_
  by_cases hg : g = fd
  · subst hg
    rw [writeCopy_files, Function.update_self]
    refine file_ext hsize fun y => ?_
    change _ = overlay _ (fileStore nd n f w.mem) y
    by_cases hy : y < f ∨ f + n ≤ y
    · rw [overlay_none (fileStore_outside nd hy _)]
      exact hout y fun k hk => by omega
    · obtain ⟨j, rfl⟩ := Nat.exists_eq_add_of_le (show f ≤ y by omega)
      rw [overlay_some (fileStore_inside nd (by omega) _)]
      exact hin j (by omega)
  · rw [hother g hg, writeCopy_files, Function.update_of_ne hg]

end Region

/-! ## The callback and the synchronous call -/

section Carried

variable (rw : Nat → Sqe → Int) (data : FgdsData) {nd : MmapNode} (hreg : nd.Registered)
  {n f : Nat} (hn : n ≤ nd.length) (hf : f < 2 ^ 63)
include hreg hn hf

/-- The callback of a read: the offset follows the window, even behind the end of the file. -/
theorem callbackLoop_reads (hop : data.op = .read) {S : Nat}
    (hrw : ∀ i q, q.opcode = .read → q.fd = data.fd → rw i q = available S q)
    {es : List XferAddr} {p : Nat} (ht : Tiles XferAddr.nbyte (XferAddr.At nd) p n es) (i : Nat) :
    ∃ log, callbackLoop rw data 0 es i (s64 (f + p : Nat)) (min p (S - f) : Nat) =
        (((min n (S - f) : Nat) : Int), log) ∧
      Tiles (fun c => c.sqe.len) (ReadAt nd data.fd 0 f S) p n log := by
  have hlt := hreg.length_lt
  induction es generalizing p i with
  | nil =>
    rw [tiles_nil] at ht
    exact ⟨[], by rw [callbackLoop, ht], ht⟩
  | cons e es ih =>
    obtain ⟨hpos, hat, hrest⟩ := ht
    have hle := tiles_le hrest
    have hoff : u64 (s64 (f + p : Nat)) = f + p := by
      rw [u64_s64]
      exact u64_eq rfl (by omega)
    have hret : rw i ⟨data.op, data.fd, e.targetAddr, e.nbyte, f + p, 0⟩ =
        (min e.nbyte (S - (f + p)) : Nat) := hrw i _ hop rfl
    have hnext : s64 (s64 (f + p : Nat) + (e.nbyte : Nat)) = s64 (f + (p + e.nbyte) : Nat) := by
      rw [s64_s64_add, ← Nat.cast_add, Nat.add_assoc]
    have hcount := read_next (b := 0) (f := f) (S := S) (n := e.nbyte) (Nat.zero_le p)
    simp only [Nat.sub_zero] at hcount
    have hdone : s64 ((min p (S - f) : Nat) + (min e.nbyte (S - (f + p)) : Nat)) =
        (min (p + e.nbyte) (S - f) : Nat) := by
      rw [← Nat.cast_add, hcount]
      exact s64_eq (by omega) (by omega)
    obtain ⟨log, hlog, htiles⟩ := ih hrest (i + 1)
    refine ⟨⟨⟨data.op, data.fd, e.targetAddr, e.nbyte, f + p, 0⟩,
      (min e.nbyte (S - (f + p)) : Nat)⟩ :: log, ?_, hpos, ?_, htiles⟩
    · simp only [callbackLoop, hoff, hret, hnext, hdone, hlog]
    · exact ⟨hop, rfl, hat.1, hat.2, by rw [Nat.sub_zero], fun _ => by rw [Nat.sub_zero]⟩

theorem callbackLoop_writes (hop : data.op = .write)
    (hrw : ∀ i q, q.opcode = .write → rw i q = q.len) {es : List XferAddr} {p : Nat}
    (ht : Tiles XferAddr.nbyte (XferAddr.At nd) p n es) (i : Nat) :
    ∃ log, callbackLoop rw data 0 es i (s64 (f + p : Nat)) (p : Nat) = ((n : Int), log) ∧
      Tiles (fun c => c.sqe.len) (WriteAt nd data.fd 0 f) p n log := by
  have hlt := hreg.length_lt
  induction es generalizing p i with
  | nil =>
    rw [tiles_nil] at ht
    exact ⟨[], by rw [callbackLoop, ht], ht⟩
  | cons e es ih =>
    obtain ⟨hpos, hat, hrest⟩ := ht
    have hle := tiles_le hrest
    have hoff : u64 (s64 (f + p : Nat)) = f + p := by
      rw [u64_s64]
      exact u64_eq rfl (by omega)
    have hret : rw i ⟨data.op, data.fd, e.targetAddr, e.nbyte, f + p, 0⟩ = e.nbyte := hrw i _ hop
    have hnext : s64 (s64 (f + p : Nat) + (e.nbyte : Nat)) = s64 (f + (p + e.nbyte) : Nat) := by
      rw [s64_s64_add, ← Nat.cast_add, Nat.add_assoc]
    have hdone : s64 ((p : Nat) + (e.nbyte : Nat)) = (p + e.nbyte : Nat) := by
      rw [← Nat.cast_add]
      exact s64_eq (by omega) (by omega)
    obtain ⟨log, hlog, htiles⟩ := ih hrest (i + 1)
    refine ⟨⟨⟨data.op, data.fd, e.targetAddr, e.nbyte, f + p, 0⟩, e.nbyte⟩ :: log, ?_, hpos, ?_,
      htiles⟩
    · simp only [callbackLoop, hoff, hret, hnext, hdone, hlog]
    · exact ⟨hop, rfl, hat.1, hat.2, rfl, by rw [Nat.sub_zero]⟩

end Carried

section Calls

variable (dev : ReadyDevice) {c : Call} {w : World}

theorem OnBase.find (h : OnBase dev.head c) : ∃ nd ∈ dev.head, c.buf = nd.gpuAddr ∧
    c.nbytes ≤ nd.length ∧ Selects dev.head c.buf c.nbytes nd := by
  obtain ⟨nd, hnd, hbuf, hlen⟩ := h.region
  refine ⟨nd, hnd, hbuf, hlen, dev.selects hnd ?_ ?_⟩
  · rw [hbuf]
  · rw [hbuf]
    exact Nat.add_le_add_left hlen _

theorem copies_read {nd : MmapNode} (hfind : findFgdsMmapNode dev.head c.buf c.nbytes = some nd)
    (hop : c.op = .read) (w : World) :
    (copies dev.head).effect c w = readCopy nd c.fd c.nbytes c.offset.toNat w ∧
      (copies dev.head).answer c w =
        (min c.nbytes ((w.files c.fd).size - c.offset.toNat) : Nat) := by
  simp only [copies, hfind, hop, and_self]

theorem copies_write {nd : MmapNode} (hfind : findFgdsMmapNode dev.head c.buf c.nbytes = some nd)
    (hop : c.op = .write) (w : World) :
    (copies dev.head).effect c w = writeCopy nd c.fd c.nbytes c.offset.toNat w ∧
      (copies dev.head).answer c w = c.nbytes := by
  simp only [copies, hfind, hop, and_self]

/-- The callback carries out the copy. -/
theorem callback_copies (h : OnBase dev.head c) {rw : Nat → Sqe → Int} (hrw : Served w rw)
    {data : FgdsData}
    (hdata : fgdsAsync dev.head .success c.fd c.op c.buf c.nbytes c.offset =
      (.success, some data)) :
    w.applyAll (fgdsCallback rw data 0).2 = (copies dev.head).effect c w ∧
      (fgdsCallback rw data 0).1 = (copies dev.head).answer c w := by
  obtain ⟨nd, hnd, -, hlen, hsel⟩ := h.find
  have hfind := hsel c.nbytes h.pos (Nat.le_refl _)
  have hreg := dev.registered nd hnd
  obtain ⟨es, hes, ht, -⟩ := xferWindow_inside (b := 0) hreg h.pos (by omega)
  rw [Nat.zero_add] at ht
  have hx : fgdsDoXferAddr dev.head c.buf 0 c.nbytes = some es :=
    (fgdsDoXferAddr_some hfind 0).trans hes
  obtain rfl : data = ⟨c.fd, c.op, es, c.offset⟩ := by
    simp only [fgdsAsync, hx, Prod.mk.injEq, Option.some.injEq, true_and] at hdata
    exact hdata.symm
  have hlt := h.offset_lt
  have hoff : c.offset = s64 (c.offset.toNat + 0 : Nat) := by
    rw [Nat.add_zero, Int.toNat_of_nonneg h.offset, s64_eq (by have := h.offset; omega) hlt]
  cases hop : c.op with
  | read =>
    obtain ⟨log, hlog, htiles⟩ := callbackLoop_reads rw ⟨c.fd, c.op, es, c.offset⟩ hreg hlen
      (show c.offset.toNat < 2 ^ 63 by omega) hop (S := (w.files c.fd).size)
      (fun i q hq hfd => by rw [hrw.read i q hq, hfd]) ht 0
    rw [Nat.zero_min, ← hoff] at hlog
    rw [hop] at hlog
    rw [fgdsCallback, show callbackLoop rw _ 0 es 0 c.offset 0 = _ from hlog]
    obtain ⟨heffect, hanswer⟩ := copies_read dev hfind hop w
    exact ⟨(reads_copy hreg hlen (List.Perm.refl _) w htiles).trans heffect.symm, hanswer.symm⟩
  | write =>
    obtain ⟨log, hlog, htiles⟩ := callbackLoop_writes rw ⟨c.fd, c.op, es, c.offset⟩ hreg hlen
      (show c.offset.toNat < 2 ^ 63 by omega) hop hrw.write ht 0
    rw [← hoff, hop] at hlog
    rw [fgdsCallback, show callbackLoop rw _ 0 es 0 c.offset 0 = _ from hlog]
    obtain ⟨heffect, hanswer⟩ := copies_write dev hfind hop w
    exact ⟨(writes_copy h.pos (List.Perm.refl _) w htiles).trans heffect.symm, hanswer.symm⟩

/-- So does the synchronous call, on either path. -/
theorem syncCall_copies (h : OnBase dev.head c) {k : Kernel}
    (hreads : FullReads k (w.files c.fd).size) (hwrites : FullWrites k) {ring : Ring}
    (hidle : Ring.Idle ring) :
    ∃ res, syncCall dev.head k ring c = some res ∧ Ring.Idle res.ring ∧
      w.applyAll res.log = (copies dev.head).effect c w ∧
      res.ret = (copies dev.head).answer c w := by
  obtain ⟨nd, hnd, -, hlen, hsel⟩ := h.find
  have hfind := hsel c.nbytes h.pos (Nat.le_refl _)
  have hreg := dev.registered nd hnd
  have hoff : c.offset = c.offset.toNat := (Int.toNat_of_nonneg h.offset).symm
  have hlt := h.offset_lt
  let win : Window dev.head ⟨c.fd, c.buf, 0, c.nbytes, c.offset, 0⟩ :=
    ⟨nd, 0, c.nbytes, rfl, rfl, hreg, by omega, hsel⟩
  cases hop : c.op with
  | read =>
    obtain ⟨res, cs, hres, hidle', hret, hperm, htiles⟩ :=
      fgdsRead_window win hoff (by omega) h.pos hreads hidle
    rw [show win.b + win.n = c.nbytes from Nat.zero_add _] at htiles
    obtain ⟨heffect, hanswer⟩ := copies_read dev hfind hop w
    refine ⟨res, by rw [syncCall, hop]; exact hres, hidle', ?_, hret.trans hanswer.symm⟩
    exact (reads_copy hreg hlen hperm w htiles).trans heffect.symm
  | write =>
    obtain ⟨res, cs, hres, hidle', hret, hperm, htiles⟩ :=
      fgdsWrite_window win hoff (by omega) h.pos hwrites hidle
    rw [show win.b + win.n = c.nbytes from Nat.zero_add _] at htiles
    obtain ⟨heffect, hanswer⟩ := copies_write dev hfind hop w
    refine ⟨res, by rw [syncCall, hop]; exact hres, hidle', ?_, hret.trans hanswer.symm⟩
    exact (writes_copy h.pos hperm w htiles).trans heffect.symm

end Calls

/-! ## Calls that do not touch the same bytes -/

section Independence

variable {nd nd' : MmapNode} {n n' f f' : Nat} {fd fd' : Int}

theorem readCopy_comm (hreg : nd.Registered) (hreg' : nd'.Registered) (hhost : HostDisjoint nd nd')
    (hn : n ≤ nd.length) (hn' : n' ≤ nd'.length) (w : World) :
    readCopy nd fd n f (readCopy nd' fd' n' f' w) =
      readCopy nd' fd' n' f' (readCopy nd fd n f w) := by
  refine world_ext (fun x => congrFun (overlay_comm w.mem fun y => ?_) x) fun g => rfl
  by_cases hy : ∃ j < min n ((w.files fd).size - f), y = nd.hostAddr j
  · obtain ⟨j, hj, rfl⟩ := hy
    exact .inl (memStore_outside fun i hi => hostAddr_ne hreg hreg' hhost (by omega) (by omega))
  · exact .inr (memStore_outside fun j hj he => hy ⟨j, hj, he⟩)

theorem read_write_comm (hreg : nd.Registered) (hreg' : nd'.Registered)
    (hhost : HostDisjoint nd nd') (hn : n ≤ nd.length) (hn' : n' ≤ nd'.length) (hfd : fd ≠ fd')
    (w : World) :
    readCopy nd fd n f (writeCopy nd' fd' n' f' w) =
      writeCopy nd' fd' n' f' (readCopy nd fd n f w) := by
  have hmem : ∀ i < n', (readCopy nd fd n f w).mem (nd'.hostAddr i) = w.mem (nd'.hostAddr i) := by
    intro i hi
    rw [readCopy_mem]
    refine overlay_none (memStore_outside fun j hj he => ?_) _
    exact hostAddr_ne hreg hreg' hhost (by omega) (by omega) he.symm
  refine world_ext (fun x => ?_) fun g => ?_
  · simp only [readCopy_mem, writeCopy_mem, writeCopy_files, Function.update_of_ne hfd]
  · simp only [readCopy_files, writeCopy_files]
    by_cases hg : g = fd'
    · subst hg
      simp only [Function.update_self]
      refine file_ext rfl fun y => ?_
      change overlay _ (fileStore nd' n' f' _) y = overlay _ (fileStore nd' n' f' _) y
      by_cases hy : y < f' ∨ f' + n' ≤ y
      · simp only [overlay, fileStore_outside nd' hy]
      · obtain ⟨j, rfl⟩ := Nat.exists_eq_add_of_le (show f' ≤ y by omega)
        have hj : j < n' := by omega
        simp only [overlay, fileStore_inside nd' hj, hmem j hj]
    · simp only [Function.update_of_ne hg]

theorem writeCopy_comm (h : fd ≠ fd' ∨ f + n ≤ f' ∨ f' + n' ≤ f) (w : World) :
    writeCopy nd fd n f (writeCopy nd' fd' n' f' w) =
      writeCopy nd' fd' n' f' (writeCopy nd fd n f w) := by
  refine world_ext (fun x => rfl) fun g => ?_
  simp only [writeCopy_files, writeCopy_mem]
  by_cases hfd : fd = fd'
  · subst hfd
    simp only [Function.update_self, Function.update_idem]
    by_cases hg : g = fd
    · subst hg
      simp only [Function.update_self]
      refine file_ext (max_right_comm _ _ _) fun y => congrFun (overlay_comm _ fun z => ?_) y
      by_cases hz : z < f ∨ f + n ≤ z
      · exact .inr (fileStore_outside nd hz _)
      · exact .inl (fileStore_outside nd' (by omega) _)
    · simp only [Function.update_of_ne hg]
  · rw [Function.update_of_ne hfd, Function.update_of_ne (Ne.symm hfd),
      Function.update_comm (Ne.symm hfd)]

variable (dev : ReadyDevice) {a b : Call}

theorem read_write_independent (ha : OnBase dev.head a) (hb : OnBase dev.head b)
    (hra : a.op = .read) (hwb : b.op = .write) (hbuf : a.buf ≠ b.buf) (hfd : a.fd ≠ b.fd) :
    (copies dev.head).Independent a b := by
  obtain ⟨nd, hnd, hat, hlen, hsel⟩ := ha.find
  obtain ⟨nd', hnd', hat', hlen', hsel'⟩ := hb.find
  have hne : nd ≠ nd' := fun h => hbuf (by rw [hat, hat', h])
  have hhost : HostDisjoint nd nd' := dev.hostDisjoint.forall hnd hnd' hne
  have hread := copies_read dev (hsel _ ha.pos (Nat.le_refl _)) hra
  have hwrite := copies_write dev (hsel' _ hb.pos (Nat.le_refl _)) hwb
  refine ⟨fun w => ?_, fun w => ?_, fun w => ?_⟩
  · simp only [(hread _).1, (hwrite _).1]
    exact read_write_comm (dev.registered nd hnd) (dev.registered nd' hnd') hhost hlen hlen' hfd w
  · simp only [(hread _).2, (hwrite _).1, writeCopy_files, Function.update_of_ne hfd]
  · simp only [(hwrite _).2]

theorem apart_independent (ha : OnBase dev.head a) (hb : OnBase dev.head b) (h : Apart a b) :
    (copies dev.head).Independent a b := by
  obtain ⟨nd, hnd, hat, hlen, hsel⟩ := ha.find
  obtain ⟨nd', hnd', hat', hlen', hsel'⟩ := hb.find
  have hfind := hsel _ ha.pos (Nat.le_refl _)
  have hfind' := hsel' _ hb.pos (Nat.le_refl _)
  cases hopa : a.op <;> cases hopb : b.op <;> simp only [Apart, hopa, hopb] at h
  · have hne : nd ≠ nd' := fun he => h (by rw [hat, hat', he])
    have hhost : HostDisjoint nd nd' := dev.hostDisjoint.forall hnd hnd' hne
    have hread := copies_read dev hfind hopa
    have hread' := copies_read dev hfind' hopb
    refine ⟨fun w => ?_, fun w => ?_, fun w => ?_⟩
    · simp only [(hread _).1, (hread' _).1]
      exact readCopy_comm (dev.registered nd hnd) (dev.registered nd' hnd') hhost hlen hlen' w
    · simp only [(hread _).2, (hread' _).1, readCopy_files]
    · simp only [(hread' _).2, (hread _).1, readCopy_files]
  · exact read_write_independent dev ha hb hopa hopb h.1 h.2
  · exact (read_write_independent dev hb ha hopb hopa (Ne.symm h.1) (Ne.symm h.2)).symm
  · have hwrite := copies_write dev hfind hopa
    have hwrite' := copies_write dev hfind' hopb
    have hpos := ha.offset
    have hpos' := hb.offset
    refine ⟨fun w => ?_, fun w => ?_, fun w => ?_⟩
    · simp only [(hwrite _).1, (hwrite' _).1]
      exact writeCopy_comm (by omega) w
    · simp only [(hwrite _).2]
    · simp only [(hwrite' _).2]

end Independence

/-! ## Whole runs -/

section Runs

variable (dev : ReadyDevice) {w : World} {s : State}

/-- The synchronous calls carry out the copies in order. -/
theorem syncCalls_inOrder {kernel : World → Int → Kernel}
    (hreads : ∀ w fd, FullReads (kernel w fd) (w.files fd).size)
    (hwrites : ∀ w fd, FullWrites (kernel w fd)) {cs : List Call}
    (hcs : ∀ c ∈ cs, OnBase dev.head c) {ring : Ring} (hidle : Ring.Idle ring) (w : World) :
    syncCalls dev.head kernel cs ring w = some (((copies dev.head).inOrder cs w).1,
      ((copies dev.head).inOrder cs w).2.map fun p => (p.1.slot, p.2)) := by
  induction cs generalizing ring w with
  | nil => rfl
  | cons c cs ih =>
    obtain ⟨res, hres, hidle', heffect, hret⟩ := syncCall_copies dev (hcs c List.mem_cons_self)
      (hreads w c.fd) (hwrites w c.fd) hidle
    have hrest := ih (fun c' hc' => hcs c' (List.mem_cons_of_mem c hc')) hidle'
      ((copies dev.head).effect c w)
    simp only [syncCalls, hres, Option.bind_eq_bind, Option.bind_some, heffect, hrest, hret,
      Ops.inOrder, List.map_cons]

/-- The calls that are queued are still to be carried out, after those that were. -/
structure Inv (w : World) (s : State) : Prop where
  onBase : ∀ c ∈ s.accepted, OnBase dev.head c
  queued : ∀ p ∈ s.queue, p.call ∈ s.accepted ∧
    fgdsAsync dev.head .success p.call.fd p.call.op p.call.buf p.call.nbytes p.call.offset =
      (.success, some p.data)
  state : ((copies dev.head).inOrder s.accepted w).1 =
    ((copies dev.head).inOrder (s.queue.map Pending.call) s.world).1
  answers : (((copies dev.head).inOrder s.accepted w).2.map fun p => (p.1.slot, p.2)).Perm
    (s.stored ++ ((copies dev.head).inOrder (s.queue.map Pending.call) s.world).2.map
      fun p => (p.1.slot, p.2))

theorem inv_launch (h : Inv dev w s) {c : Call}
    (hc : fgdsDoXferAddr dev.head c.buf 0 c.nbytes = none ∨ OnBase dev.head c)
    (status : CudaError) : Inv dev w (s.launch dev.head c status) := by
  unfold State.launch
  split
  · rename_i data hdata
    have hstatus : fgdsAsync dev.head .success c.fd c.op c.buf c.nbytes c.offset =
        (.success, some data) := by
      rw [← hdata]
      unfold fgdsAsync at hdata ⊢
      split at hdata
      · cases hdata
      · cases hdata
        rfl
    have hbase : OnBase dev.head c := by
      rcases hc with hno | hbase
      · rw [fgdsAsync, hno] at hdata
        cases hdata
      · exact hbase
    refine ⟨fun c' hc' => ?_, fun p hp => ?_, ?_, ?_⟩
    · rcases List.mem_append.mp hc' with hold | hnew
      · exact h.onBase c' hold
      · rw [List.mem_singleton.mp hnew]
        exact hbase
    · rcases List.mem_append.mp hp with hold | hnew
      · exact ⟨List.mem_append_left _ (h.queued p hold).1, (h.queued p hold).2⟩
      · rw [List.mem_singleton.mp hnew]
        exact ⟨List.mem_append_right _ (List.mem_singleton_self c), hstatus⟩
    · simp only [List.map_append, List.map_cons, List.map_nil, inOrder_append, h.state]
    · simp only [List.map_append, List.map_cons, List.map_nil, inOrder_append, h.state,
        ← List.append_assoc]
      exact h.answers.append_right _
  · exact h

theorem inv_run (h : Inv dev w s)
    (hapart : ∀ a ∈ s.accepted, ∀ b ∈ s.accepted, a.stream ≠ b.stream → Apart a b) {stream : Nat}
    {rw : Nat → Sqe → Int} (hrw : Served s.world rw) : Inv dev w (s.run stream rw) := by
  unfold State.run
  split
  · exact h
  · rename_i p hp
    obtain ⟨hstream, pre, post, hqueue, hpre⟩ := List.find?_eq_some_iff_append.mp hp
    have hother : ∀ q ∈ pre, ¬ (q.call.stream == stream) = true := by
      intro q hq
      simpa using hpre q hq
    have herase : s.queue.eraseP (fun p => p.call.stream == stream) = pre ++ post := by
      rw [hqueue, List.eraseP_append_right _ hother,
        List.eraseP_cons_of_pos (p := fun p : Pending => p.call.stream == stream) hstream]
    have hmem : p ∈ s.queue := by simp [hqueue]
    obtain ⟨hacc, hdata⟩ := h.queued p hmem
    obtain ⟨heffect, hanswer⟩ := callback_copies dev (h.onBase _ hacc) hrw hdata
    -- the calls before it in the queue are on other streams
    have hind : ∀ a ∈ pre.map Pending.call, (copies dev.head).Independent a p.call := by
      intro a ha
      obtain ⟨q, hq, rfl⟩ := List.mem_map.mp ha
      have hqacc := (h.queued q (by simp [hqueue, hq])).1
      refine apart_independent dev (h.onBase _ hqacc) (h.onBase _ hacc)
        (hapart _ hqacc _ hacc fun he => hother q hq ?_)
      rw [he]
      exact hstream
    obtain ⟨hstate, hanswers⟩ := inOrder_first hind (post.map Pending.call) s.world
    have hcalls : s.queue.map Pending.call =
        pre.map Pending.call ++ p.call :: post.map Pending.call := by
      rw [hqueue, List.map_append, List.map_cons]
    refine ⟨h.onBase, fun q hq => h.queued q ?_, ?_, ?_⟩
    · simp only [herase] at hq
      rw [hqueue]
      exact List.mem_append.mpr ((List.mem_append.mp hq).imp_right (List.mem_cons_of_mem p))
    · simp only [herase, List.map_append, heffect]
      rw [h.state, hcalls, hstate]
    · simp only [herase, List.map_append, heffect, hanswer, List.append_assoc, List.cons_append,
        List.nil_append]
      refine h.answers.trans (List.Perm.append_left _ ?_)
      rw [hcalls]
      exact hanswers.map _

theorem accepted_step (s : State) (e : Event) {c : Call} (hc : c ∈ s.accepted) :
    c ∈ (s.step dev.head e).accepted := by
  cases e with
  | launch d status =>
    simp only [State.step, State.launch]
    split
    · exact List.mem_append_left _ hc
    · exact hc
  | run stream rw =>
    simp only [State.step, State.run]
    split <;> exact hc

theorem inv_of_run (h : Run (streams dev w) (fun _ _ => True) s)
    (hapart : ∀ a ∈ s.accepted, ∀ b ∈ s.accepted, a.stream ≠ b.stream → Apart a b) :
    Inv dev w s := by
  induction h with
  | init =>
    exact ⟨fun c hc => (by cases hc), fun p hp => (by cases hp), rfl, List.Perm.refl _⟩
  | step e _ hp _ ih =>
    have hinv := ih fun a ha b hb =>
      hapart a (accepted_step dev _ e ha) b (accepted_step dev _ e hb)
    cases e with
    | launch c status => exact inv_launch dev hinv hp status
    | run stream rw =>
      refine inv_run dev hinv (fun a ha b hb => ?_) hp
      exact hapart a (accepted_step dev _ (.run stream rw) ha) b
        (accepted_step dev _ (.run stream rw) hb)

/-- **Streams.** However the streams take turns: once everything is carried out, memory and files
are as after the synchronous calls in the order of the launches, and every `bytes_done` holds what
the synchronous call returns, if calls on different streams are apart. The calls that are accepted
are on the base of a region, and all transfers are carried out in full. -/
theorem streams_in_order (h : Run (streams dev w) (fun _ _ => True) s) (hempty : s.queue = [])
    (hapart : ∀ a ∈ s.accepted, ∀ b ∈ s.accepted, a.stream ≠ b.stream → Apart a b)
    {kernel : World → Int → Kernel}
    (hreads : ∀ w fd, FullReads (kernel w fd) (w.files fd).size)
    (hwrites : ∀ w fd, FullWrites (kernel w fd)) :
    ∃ rets, syncCalls dev.head kernel s.accepted dev.ring w = some (s.world, rets) ∧
      s.stored.Perm rets := by
  have hinv := inv_of_run dev h hapart
  have hstate := hinv.state
  have hanswers := hinv.answers
  rw [hempty] at hstate hanswers
  rw [syncCalls_inOrder dev hreads hwrites hinv.onBase dev.idle w, hstate]
  refine ⟨_, rfl, ?_⟩
  simpa [Ops.inOrder] using hanswers.symm

end Runs

/-! ## Two streams -/

def servedBy (w : World) (_ : Nat) (q : Sqe) : Int :=
  if q.opcode = .read then available (w.files q.fd).size q else q.len

theorem servedBy_served (w : World) : Served w (servedBy w) := by
  refine ⟨fun i q hq => if_pos hq, fun i q hq => ?_⟩
  rw [servedBy, if_neg (by simp [hq])]

/-- 1MB of the first region to a file, on stream 0. -/
def writeOut : Call := ⟨.write, 3, 1048576, 1048576, 0, 100, 0⟩

/-- 1MB of another file to the second region, on stream 1. -/
def readIn : Call := ⟨.read, 4, 16777216, 1048576, 0, 200, 1⟩

/-- Both streams are done in the end, the second one first. -/
theorem streams_in_order_crossed :
    ∃ s, Run (streams twoRegions (plainWorld 600000)) (fun _ _ => True) s ∧
      s.accepted = [writeOut, readIn] ∧ s.stored.map Prod.fst = [200, 100] ∧
      ∃ rets, syncCalls twoRegions.head (fun w fd => plainKernel (w.files fd).size) s.accepted
        twoRegions.ring (plainWorld 600000) = some (s.world, rets) ∧ s.stored.Perm rets := by
  have hwrite : fgdsAsync twoRegions.head .success writeOut.fd writeOut.op writeOut.buf
      writeOut.nbytes writeOut.offset =
        (.success, some ⟨3, .write, [⟨4294967296, 1048576⟩], 0⟩) := by decide +kernel
  have hread : fgdsAsync twoRegions.head .success readIn.fd readIn.op readIn.buf
      readIn.nbytes readIn.offset =
        (.success, some ⟨4, .read, [⟨8589934592, 1048576⟩], 0⟩) := by decide +kernel
  generalize hw : plainWorld 600000 = w
  let S := streams twoRegions w
  have hbase : ∀ c ∈ [writeOut, readIn], OnBase twoRegions.head c := by
    simp only [List.mem_cons, List.not_mem_nil, or_false, forall_eq_or_imp, forall_eq]
    exact ⟨⟨⟨_, List.mem_cons_self, rfl, by decide⟩, by decide, by decide, by decide⟩,
      ⟨⟨_, List.mem_cons_of_mem _ List.mem_cons_self, rfl, by decide⟩, by decide, by decide,
        by decide⟩⟩
  let s1 : State := ⟨w, [⟨writeOut, ⟨3, .write, [⟨4294967296, 1048576⟩], 0⟩⟩], [], [writeOut]⟩
  let s2 : State := ⟨w, [⟨writeOut, ⟨3, .write, [⟨4294967296, 1048576⟩], 0⟩⟩,
    ⟨readIn, ⟨4, .read, [⟨8589934592, 1048576⟩], 0⟩⟩], [], [writeOut, readIn]⟩
  have hlaunch : S.step S.init (.launch writeOut .success) = s1 := by
    simp [S, streams, State.step, State.launch, hwrite, s1]
  have hlaunch' : S.step s1 (.launch readIn .success) = s2 := by
    simp [S, streams, State.step, State.launch, hread, s1, s2]
  have hrun : Run S (fun _ _ => True) s2 := by
    rw [← hlaunch', ← hlaunch]
    refine .step _ (.step _ .init (.inr (hbase _ (by simp))) trivial) (.inr (hbase _ (by simp)))
      trivial
  let s3 := S.step s2 (.run 1 (servedBy w))
  have hrun' : Run S (fun _ _ => True) s3 :=
    Run.step (Event.run 1 (servedBy w)) hrun (servedBy_served w) trivial
  have hrun'' : Run S (fun _ _ => True) (S.step s3 (.run 0 (servedBy s3.world))) :=
    Run.step (Event.run 0 (servedBy s3.world)) hrun' (servedBy_served s3.world) trivial
  refine ⟨_, hrun'', rfl, rfl, ?_⟩
  refine streams_in_order twoRegions hrun'' rfl ?_ (fun w fd => plainKernel_reads _)
    fun w fd => plainKernel_writes _
  change ∀ a ∈ [writeOut, readIn], ∀ b ∈ [writeOut, readIn], a.stream ≠ b.stream → Apart a b
  simp [Apart, writeOut, readIn]

end Fgds.Stream
