import Mathlib.Tactic
import Fgds.Lib.CInt

/-!
# Trace replay

`benchmarks/kvcache/kvcache_reader.cc`: the two `process_all_sequences` turn the block ids of
a sequence into batches of read requests. A block that follows the first block of the last
request is merged into it. The cuFile reader starts a new batch after each submission; the
FGDS reader does not, so a batch that is full is submitted again with every further block.

* `addBlock_blocks`: what one block adds to the batch: the block itself, unless it is merged
  into a request that already has two blocks;
* `fgdsLoop_oneBatch`: one batch without such merges is read as the trace says, by both;
* `oneBatch_of_counts`: nothing else has the right number of blocks and their right sum;
* `replay_exact_iff`: the FGDS reader reads the trace, and what the cuFile reader reads, if
  and only if one batch is enough or the trace repeats one block in batches of one request;
* `replay_repeats_batch`: a full batch drops the next block and is read twice.
-/

namespace Fgds.KvReplay

open Fgds.Lib.CInt

/-! ## The readers -/

/-- `MAX_BLOCKS_SIZE` -/
def maxBlocksSize : Nat := 16 * 1024 * 1024

/-- The part of `CUfileIOParams_t` that says what is read. -/
structure Request where
  fileOffset : Int
  size : Nat
  deriving DecidableEq

section Reader

variable (blockSize maxBatchSize : Nat)

/-- The block starts one block behind the start of the request, and there is room. -/
def Merges (last : Request) (id : Nat) : Prop :=
  u64 (last.fileOffset + blockSize) = u64 (id * blockSize : Nat) ∧
    last.size + blockSize ≤ maxBlocksSize

instance (last : Request) (id : Nat) : Decidable (Merges blockSize last id) :=
  inferInstanceAs (Decidable (_ ∧ _))

def newRequest (id : Nat) : Request := ⟨s64 (u64 (id * blockSize : Nat)), blockSize⟩

/-- The requests of the batch, the last one first: `current_batch_size` is the length. A
block that is neither merged nor fits is dropped. -/
def addBlock (batch : List Request) (id : Nat) : List Request :=
  match batch with
  | last :: before =>
    if Merges blockSize last id then { last with size := last.size + blockSize } :: before
    else if batch.length < maxBatchSize then newRequest blockSize id :: batch
    else batch
  | [] => if 0 < maxBatchSize then [newRequest blockSize id] else []

/-- The batches that the FGDS reader submits for the blocks still to come. -/
def fgdsLoop (batch : List Request) : List Nat → List (List Request)
  | [] => []
  | id :: rest =>
    let batch := addBlock blockSize maxBatchSize batch id
    if batch.length = maxBatchSize ∨ rest = [] then batch.reverse :: fgdsLoop batch rest
    else fgdsLoop batch rest

/-- The cuFile reader: `current_batch_size = 0` after a submission. -/
def cuFileLoop (batch : List Request) : List Nat → List (List Request)
  | [] => []
  | id :: rest =>
    let batch := addBlock blockSize maxBatchSize batch id
    if batch.length = maxBatchSize ∨ rest = [] then batch.reverse :: cuFileLoop [] rest
    else cuFileLoop batch rest

/-- `FgdsKVCacheReader::process_all_sequences`: what is submitted, for each sequence. -/
def fgdsProcessAllSequences (sequences : List (List Nat)) : List (List (List Request)) :=
  sequences.map (fgdsLoop blockSize maxBatchSize [])

/-- `CuFileKVCacheReader::process_all_sequences` -/
def cuFileProcessAllSequences (sequences : List (List Nat)) : List (List (List Request)) :=
  sequences.map (cuFileLoop blockSize maxBatchSize [])

/-- The offsets of the blocks of a request. -/
def Request.blocks (r : Request) : List Int :=
  (List.range (r.size / blockSize)).map fun i : Nat => r.fileOffset + i * blockSize

def blocksOf (batch : List Request) : List Int := batch.flatMap (Request.blocks blockSize)

/-- The blocks that are read, with repetitions. -/
def requested (submitted : List (List Request)) : List Int := submitted.flatMap (blocksOf blockSize)

/-- The blocks of the trace. -/
def traced (ids : List Nat) : List Int := ids.map fun id : Nat => ((id * blockSize : Nat) : Int)

/-! ## Conditions -/

/-- The block is not merged into a request that has two blocks already. -/
def Clean (batch : List Request) (id : Nat) : Prop :=
  ∀ last ∈ batch.head?, Merges blockSize last id → last.size = blockSize

/-- All blocks are clean, and the batch is not full before the last of them. -/
def OneBatch (batch : List Request) : List Nat → Prop
  | [] => True
  | id :: rest =>
    let batch' := addBlock blockSize maxBatchSize batch id
    Clean blockSize batch id ∧ (rest = [] ∨ batch'.length < maxBatchSize) ∧
      OneBatch batch' rest

instance (batch : List Request) (id : Nat) : Decidable (Clean blockSize batch id) :=
  inferInstanceAs (Decidable (∀ last ∈ batch.head?, _))

instance decidableOneBatch :
    ∀ batch ids, Decidable (OneBatch blockSize maxBatchSize batch ids)
  | _, [] => isTrue trivial
  | batch, id :: rest =>
    have := decidableOneBatch (addBlock blockSize maxBatchSize batch id) rest
    inferInstanceAs (Decidable (_ ∧ _ ∧ _))

/-- What it takes: one batch is enough, or it has one request and all ids are the same. -/
def OneRead (ids : List Nat) : Prop :=
  OneBatch blockSize maxBatchSize [] ids ∨ maxBatchSize = 1 ∧ ∀ id ∈ ids, ids.head? = some id

/-- The blocks lie in a file: their offsets and ends are values of `off_t`. -/
def InFile (ids : List Nat) : Prop := ∀ id ∈ ids, (id + 1) * blockSize < 2 ^ 63

end Reader

/-! ## One block -/

section Blocks

variable {blockSize maxBatchSize : Nat}

/-- A request that starts at a block of a file and has `n + 1` blocks. -/
def Request.Aligned (blockSize : Nat) (r : Request) : Prop :=
  ∃ first n, r = ⟨(first * blockSize : Nat), (n + 1) * blockSize⟩ ∧
    (first + 1) * blockSize < 2 ^ 63

theorem newRequest_eq {id : Nat} (hid : (id + 1) * blockSize < 2 ^ 63) :
    newRequest blockSize id = ⟨(id * blockSize : Nat), blockSize⟩ := by
  have hlt : id * blockSize < 2 ^ 63 := lt_of_le_of_lt (Nat.mul_le_mul_right _ (Nat.le_succ _)) hid
  rw [newRequest, u64_eq rfl (by omega), s64_eq (by omega) (by omega)]

theorem merges_iff {first n id : Nat} (hpos : 0 < blockSize)
    (hfirst : (first + 1) * blockSize < 2 ^ 63) (hid : (id + 1) * blockSize < 2 ^ 63) :
    Merges blockSize ⟨(first * blockSize : Nat), (n + 1) * blockSize⟩ id ↔
      id = first + 1 ∧ (n + 2) * blockSize ≤ maxBlocksSize := by
  have hlt : id * blockSize < 2 ^ 63 := lt_of_le_of_lt (Nat.mul_le_mul_right _ (Nat.le_succ _)) hid
  have hsum : ((first * blockSize : Nat) : Int) + blockSize = ((first + 1) * blockSize : Nat) := by
    push_cast
    ring
  have hsize : (n + 1) * blockSize + blockSize = (n + 2) * blockSize := by ring
  rw [Merges, hsum, u64_eq rfl (by omega), u64_eq rfl (by omega), hsize]
  refine and_congr_left' ⟨fun h => ?_, fun h => by rw [h]⟩
  exact (Nat.eq_of_mul_eq_mul_right hpos h).symm

theorem blocks_aligned (hpos : 0 < blockSize) (first n : Nat) :
    Request.blocks blockSize ⟨(first * blockSize : Nat), n * blockSize⟩ =
      (List.range n).map fun i : Nat => (((first + i) * blockSize : Nat) : Int) := by
  rw [Request.blocks, Nat.mul_div_cancel _ hpos]
  refine List.map_congr_left fun i _ => ?_
  push_cast
  ring

theorem blocks_one (hpos : 0 < blockSize) (id : Nat) :
    Request.blocks blockSize ⟨(id * blockSize : Nat), blockSize⟩ =
      [((id * blockSize : Nat) : Int)] := by
  have hone := blocks_aligned hpos id 1
  rw [Nat.one_mul] at hone
  rw [hone]
  rfl

/-- The requests of a batch are aligned. -/
def Batch (blockSize : Nat) (batch : List Request) : Prop :=
  ∀ r ∈ batch, Request.Aligned blockSize r

theorem aligned_new {id : Nat} (hid : (id + 1) * blockSize < 2 ^ 63) :
    Request.Aligned blockSize (newRequest blockSize id) :=
  ⟨id, 0, by rw [newRequest_eq hid, Nat.zero_add, Nat.one_mul], hid⟩

/-- A batch that is not full takes a block in one of two ways. -/
theorem addBlock_cases (maxBatchSize : Nat) {batch : List Request} {id : Nat} (hpos : 0 < blockSize)
    (hb : Batch blockSize batch) (hid : (id + 1) * blockSize < 2 ^ 63) :
    (∃ first n before, batch = ⟨(first * blockSize : Nat), (n + 1) * blockSize⟩ :: before ∧
        id = first + 1 ∧ (first + 1) * blockSize < 2 ^ 63 ∧
        addBlock blockSize maxBatchSize batch id =
          ⟨(first * blockSize : Nat), (n + 2) * blockSize⟩ :: before ∧
        (Clean blockSize batch id ↔ n = 0)) ∨
      (addBlock blockSize maxBatchSize batch id =
          (if batch.length < maxBatchSize then newRequest blockSize id :: batch else batch) ∧
        Clean blockSize batch id) := by
  cases batch with
  | nil => exact .inr ⟨rfl, by simp [Clean]⟩
  | cons last before =>
    obtain ⟨first, n, rfl, hfirst⟩ := hb last List.mem_cons_self
    by_cases hm : Merges blockSize ⟨(first * blockSize : Nat), (n + 1) * blockSize⟩ id
    · left
      obtain ⟨hnext, -⟩ := (merges_iff hpos hfirst hid).mp hm
      have hsize : (n + 1) * blockSize + blockSize = (n + 2) * blockSize := by ring
      refine ⟨first, n, before, rfl, hnext, hfirst, ?_, ?_⟩
      · simp only [addBlock, hm, if_true, hsize]
      · simp only [Clean, List.head?_cons, Option.mem_some_iff, forall_eq', hm, true_implies]
        constructor
        · intro h
          have hone : n + 1 = 1 := Nat.eq_of_mul_eq_mul_right hpos (by rw [h, Nat.one_mul])
          omega
        · rintro rfl
          rw [Nat.zero_add, Nat.one_mul]
    · right
      refine ⟨by simp only [addBlock, hm, if_false], ?_⟩
      rintro x hx hmx
      rw [List.head?_cons, Option.mem_some_iff] at hx
      rw [← hx] at hmx
      exact absurd hmx hm

theorem Batch.addBlock {batch : List Request} {id : Nat} (hb : Batch blockSize batch)
    (hpos : 0 < blockSize) (hid : (id + 1) * blockSize < 2 ^ 63) :
    Batch blockSize (addBlock blockSize maxBatchSize batch id) := by
  rcases addBlock_cases maxBatchSize hpos hb hid with
    ⟨first, n, before, rfl, -, hfirst, hadd, -⟩ | ⟨hadd, -⟩
  · rw [hadd]
    intro r hr
    rcases List.mem_cons.mp hr with rfl | hold
    · exact ⟨first, n + 1, rfl, hfirst⟩
    · exact hb r (List.mem_cons_of_mem _ hold)
  · rw [hadd]
    split
    · intro r hr
      rcases List.mem_cons.mp hr with rfl | hold
      · exact aligned_new hid
      · exact hb r hold
    · exact hb

/-- What a block adds to a batch that is not full: the block itself, or, if it is merged
into a request of `n + 1` blocks, the block `n` further on. -/
theorem addBlock_blocks {batch : List Request} {id : Nat} (hpos : 0 < blockSize)
    (hb : Batch blockSize batch) (hid : (id + 1) * blockSize < 2 ^ 63)
    (hroom : batch.length < maxBatchSize) :
    ∃ n, (blocksOf blockSize (addBlock blockSize maxBatchSize batch id)).Perm
        ((((id + n) * blockSize : Nat) : Int) :: blocksOf blockSize batch) ∧
      (Clean blockSize batch id ↔ n = 0) := by
  rcases addBlock_cases maxBatchSize hpos hb hid with
    ⟨first, n, before, rfl, hnext, -, hadd, hclean⟩ | ⟨hadd, hclean⟩
  · refine ⟨n, ?_, hclean⟩
    have hsplit : Request.blocks blockSize ⟨(first * blockSize : Nat), (n + 2) * blockSize⟩ =
        Request.blocks blockSize ⟨(first * blockSize : Nat), (n + 1) * blockSize⟩ ++
          [(((id + n) * blockSize : Nat) : Int)] := by
      rw [blocks_aligned hpos, blocks_aligned hpos, List.range_succ, List.map_append, hnext,
        Nat.add_right_comm, Nat.add_assoc first n 1]
      rfl
    rw [hadd, blocksOf, blocksOf, List.flatMap_cons, List.flatMap_cons, hsplit]
    rw [List.append_assoc]
    exact List.perm_middle
  · refine ⟨0, ?_, by simp [hclean]⟩
    rw [hadd, if_pos hroom, blocksOf, blocksOf, List.flatMap_cons, newRequest_eq hid,
      blocks_one hpos]
    rfl

theorem length_le_blocksOf {batch : List Request} (hpos : 0 < blockSize)
    (hb : Batch blockSize batch) : batch.length ≤ (blocksOf blockSize batch).length := by
  induction batch with
  | nil => exact Nat.zero_le _
  | cons r batch ih =>
    have hrest := ih fun x hx => hb x (List.mem_cons_of_mem _ hx)
    obtain ⟨first, n, rfl, -⟩ := hb r List.mem_cons_self
    rw [blocksOf, List.flatMap_cons, List.length_append, blocks_aligned hpos, List.length_map,
      List.length_range, List.length_cons]
    rw [blocksOf] at hrest
    omega

/-- A full batch stays full, and keeps its blocks. -/
theorem addBlock_full {batch : List Request} {id : Nat} (hpos : 0 < blockSize)
    (hb : Batch blockSize batch) (hid : (id + 1) * blockSize < 2 ^ 63)
    (hfull : batch.length = maxBatchSize) :
    (addBlock blockSize maxBatchSize batch id).length = maxBatchSize ∧
      (blocksOf blockSize batch).length ≤
        (blocksOf blockSize (addBlock blockSize maxBatchSize batch id)).length := by
  rcases addBlock_cases maxBatchSize hpos hb hid with
    ⟨first, n, before, rfl, -, -, hadd, -⟩ | ⟨hadd, -⟩
  · rw [hadd]
    refine ⟨hfull, ?_⟩
    simp only [blocksOf, List.flatMap_cons, List.length_append, blocks_aligned hpos,
      List.length_map, List.length_range]
    omega
  · rw [hadd, if_neg (by omega)]
    exact ⟨hfull, Nat.le_refl _⟩

theorem addBlock_length {batch : List Request} {id : Nat} (hpos : 0 < blockSize)
    (hb : Batch blockSize batch) (hid : (id + 1) * blockSize < 2 ^ 63)
    (hroom : batch.length < maxBatchSize) :
    (addBlock blockSize maxBatchSize batch id).length ≤ maxBatchSize := by
  rcases addBlock_cases maxBatchSize hpos hb hid with
    ⟨first, n, before, rfl, -, -, hadd, -⟩ | ⟨hadd, -⟩
  · rw [hadd]
    exact Nat.le_of_lt hroom
  · rw [hadd, if_pos hroom]
    exact hroom

/-! ## One batch -/

theorem requested_cons (batch : List Request) (submitted : List (List Request)) :
    (requested blockSize (batch.reverse :: submitted)).Perm
      (blocksOf blockSize batch ++ requested blockSize submitted) := by
  rw [requested, List.flatMap_cons]
  exact ((List.reverse_perm batch).flatMap_right _).append_right _

/-- A batch with one block comes first. -/
theorem requested_one (hpos : 0 < blockSize) (id : Nat) (submitted : List (List Request)) :
    requested blockSize ([⟨(id * blockSize : Nat), blockSize⟩].reverse :: submitted) =
      ((id * blockSize : Nat) : Int) :: requested blockSize submitted := by
  rw [requested, List.flatMap_cons, List.reverse_singleton, blocksOf, List.flatMap_singleton,
    blocks_one hpos]
  rfl

theorem addBlock_first {id : Nat} (hid : (id + 1) * blockSize < 2 ^ 63) :
    addBlock blockSize 1 [] id = [⟨(id * blockSize : Nat), blockSize⟩] := by
  rw [← newRequest_eq hid]
  rfl

theorem InFile.head {id : Nat} {ids : List Nat} (h : InFile blockSize (id :: ids)) :
    (id + 1) * blockSize < 2 ^ 63 := h id List.mem_cons_self

theorem InFile.tail {id : Nat} {ids : List Nat} (h : InFile blockSize (id :: ids)) :
    InFile blockSize ids := fun x hx => h x (List.mem_cons_of_mem _ hx)

/-- Both readers submit one batch, which has the blocks of the trace. -/
theorem fgdsLoop_oneBatch {ids : List Nat} (hpos : 0 < blockSize) {batch : List Request}
    (hb : Batch blockSize batch) (hin : InFile blockSize ids) (hne : ids ≠ [])
    (hroom : batch.length < maxBatchSize) (hone : OneBatch blockSize maxBatchSize batch ids) :
    (requested blockSize (fgdsLoop blockSize maxBatchSize batch ids)).Perm
        (blocksOf blockSize batch ++ traced blockSize ids) ∧
      cuFileLoop blockSize maxBatchSize batch ids = fgdsLoop blockSize maxBatchSize batch ids := by
  induction ids generalizing batch with
  | nil => exact absurd rfl hne
  | cons id rest ih =>
    obtain ⟨hclean, hlast, hrest⟩ := hone
    have hb' : Batch blockSize (addBlock blockSize maxBatchSize batch id) :=
      hb.addBlock hpos hin.head
    obtain ⟨n, hblocks, hn⟩ := addBlock_blocks hpos hb hin.head hroom
    rw [hn.mp hclean, Nat.add_zero] at hblocks
    -- the blocks of the batch so far, with this one
    have hnow : ∀ rest',
        (blocksOf blockSize (addBlock blockSize maxBatchSize batch id) ++ rest').Perm
          (blocksOf blockSize batch ++ ((id * blockSize : Nat) : Int) :: rest') := by
      intro rest'
      exact (hblocks.append_right rest').trans List.perm_middle.symm
    cases rest with
    | nil =>
      simp only [fgdsLoop, cuFileLoop, or_true, if_true, and_true]
      exact (requested_cons _ _).trans (hnow [])
    | cons next rest =>
      have hlt := hlast.resolve_left (List.cons_ne_nil _ _)
      have hnot : ¬ ((addBlock blockSize maxBatchSize batch id).length = maxBatchSize ∨
          next :: rest = []) := by
        simp only [reduceCtorEq, or_false]
        omega
      obtain ⟨hperm, hsame⟩ := ih hb' hin.tail (List.cons_ne_nil _ _) hlt hrest
      rw [fgdsLoop, cuFileLoop, if_neg hnot, if_neg hnot]
      exact ⟨hperm.trans (hnow _), hsame⟩

/-! ## More than one batch -/

/-- A full batch is submitted with each further block. -/
theorem fgdsLoop_full {ids : List Nat} (hpos : 0 < blockSize) {batch : List Request}
    (hb : Batch blockSize batch) (hin : InFile blockSize ids)
    (hfull : batch.length = maxBatchSize) :
    ids.length * (blocksOf blockSize batch).length ≤
      (requested blockSize (fgdsLoop blockSize maxBatchSize batch ids)).length := by
  induction ids generalizing batch with
  | nil => simp
  | cons id rest ih =>
    obtain ⟨hfull', hkeep⟩ := addBlock_full hpos hb hin.head hfull
    have hrest := ih (hb.addBlock hpos hin.head) hin.tail hfull'
    have hmono : rest.length * (blocksOf blockSize batch).length ≤
        rest.length * (blocksOf blockSize (addBlock blockSize maxBatchSize batch id)).length :=
      Nat.mul_le_mul_left _ hkeep
    rw [fgdsLoop, if_pos (.inl hfull'), (requested_cons _ _).length_eq, List.length_append,
      List.length_cons, Nat.succ_mul]
    omega

/-- The block that fills the batch, and those after it. -/
theorem fgdsLoop_filled {id : Nat} {rest : List Nat} (hpos : 0 < blockSize) {batch : List Request}
    (hb : Batch blockSize batch) (hin : InFile blockSize (id :: rest))
    (hfull : (addBlock blockSize maxBatchSize batch id).length = maxBatchSize) :
    (rest.length + 1) *
        (blocksOf blockSize (addBlock blockSize maxBatchSize batch id)).length ≤
      (requested blockSize (fgdsLoop blockSize maxBatchSize batch (id :: rest))).length := by
  have hagain := fgdsLoop_full hpos (hb.addBlock hpos hin.head) hin.tail hfull
  rw [fgdsLoop, if_pos (.inl hfull), (requested_cons _ _).length_eq, List.length_append,
    Nat.succ_mul]
  omega

/-- With room for two requests, a full batch before the last block gives too many blocks,
and a block that is not clean gives a sum that is too large. -/
theorem oneBatch_of_counts {ids : List Nat} (hpos : 0 < blockSize) (htwo : 2 ≤ maxBatchSize)
    {batch : List Request} (hb : Batch blockSize batch) (hin : InFile blockSize ids)
    (hroom : batch.length < maxBatchSize)
    (hcount : (requested blockSize (fgdsLoop blockSize maxBatchSize batch ids)).length =
      (blocksOf blockSize batch).length + ids.length)
    (hsum : (requested blockSize (fgdsLoop blockSize maxBatchSize batch ids)).sum ≤
      (blocksOf blockSize batch).sum + (traced blockSize ids).sum) :
    OneBatch blockSize maxBatchSize batch ids := by
  induction ids generalizing batch with
  | nil => trivial
  | cons id rest ih =>
    have hb' : Batch blockSize (addBlock blockSize maxBatchSize batch id) :=
      hb.addBlock hpos hin.head
    obtain ⟨n, hblocks, hn⟩ := addBlock_blocks hpos hb hin.head hroom
    have hlen := hblocks.length_eq
    have hval := hblocks.sum_eq
    rw [List.length_cons] at hlen
    have hshift : (((id + n) * blockSize : Nat) : Int) =
        (id * blockSize : Nat) + n * blockSize := by
      push_cast
      ring
    rw [List.sum_cons, hshift] at hval
    simp only [traced, List.map_cons, List.sum_cons] at hsum
    -- the sum is right only if the block is
    have hzero : (n : Int) * blockSize ≤ 0 → Clean blockSize batch id := by
      intro hle
      refine hn.mpr ?_
      by_contra hne
      have : 0 < (n : Int) * blockSize := by positivity
      omega
    cases rest with
    | nil =>
      simp only [fgdsLoop, or_true, if_true] at hsum
      rw [(requested_cons _ _).sum_eq, List.sum_append] at hsum
      simp only [requested, List.flatMap_nil, List.sum_nil, List.map_nil] at hsum
      exact ⟨hzero (by omega), .inl rfl, trivial⟩
    | cons next rest =>
      by_cases hfull : (addBlock blockSize maxBatchSize batch id).length = maxBatchSize
      · -- the batch is submitted now and again with each block of `next :: rest`
        exfalso
        have hagain := fgdsLoop_filled hpos hb hin hfull
        have htotal := length_le_blocksOf hpos hb'
        have hmany : (next :: rest).length * 2 ≤ (next :: rest).length *
            (blocksOf blockSize (addBlock blockSize maxBatchSize batch id)).length :=
          Nat.mul_le_mul_left _ (by omega)
        have hsome : 0 < (next :: rest).length := Nat.succ_pos _
        have hcons : (id :: next :: rest).length = (next :: rest).length + 1 := rfl
        rw [hcount, Nat.succ_mul] at hagain
        omega
      · have hlt : (addBlock blockSize maxBatchSize batch id).length < maxBatchSize :=
          lt_of_le_of_ne (addBlock_length hpos hb hin.head hroom) hfull
        have hnot : ¬ ((addBlock blockSize maxBatchSize batch id).length = maxBatchSize ∨
            next :: rest = []) := by
          simp [hfull]
        rw [fgdsLoop, if_neg hnot] at hcount hsum
        have hnonneg : 0 ≤ (n : Int) * blockSize := by positivity
        have hone := ih hb' hin.tail hlt (by rw [hcount, hlen, List.length_cons]; omega)
          (by rw [hval]; simp only [traced]; omega)
        obtain ⟨hperm, -⟩ :=
          fgdsLoop_oneBatch hpos hb' hin.tail (List.cons_ne_nil _ _) hlt hone
        have hexact := hperm.sum_eq
        rw [List.sum_append, hval] at hexact
        simp only [traced] at hexact
        exact ⟨hzero (by omega), .inr hlt, hone⟩

/-! ## Batches of one request -/

/-- The only request is submitted with each further block: it has the right number of
blocks only if it stays as it is. -/
theorem fgdsLoop_single {ids : List Nat} (hpos : 0 < blockSize) {first : Nat}
    (hfirst : (first + 1) * blockSize < 2 ^ 63) (hin : InFile blockSize ids)
    (hcount : (requested blockSize
      (fgdsLoop blockSize 1 [⟨(first * blockSize : Nat), blockSize⟩] ids)).length = ids.length) :
    requested blockSize (fgdsLoop blockSize 1 [⟨(first * blockSize : Nat), blockSize⟩] ids) =
      List.replicate ids.length ((first * blockSize : Nat) : Int) := by
  have hb : Batch blockSize [⟨(first * blockSize : Nat), blockSize⟩] := by
    intro r hr
    rw [List.mem_singleton.mp hr]
    exact ⟨first, 0, by rw [Nat.zero_add, Nat.one_mul], hfirst⟩
  induction ids with
  | nil => rfl
  | cons id rest ih =>
    rcases addBlock_cases 1 hpos hb hin.head with
      ⟨first', n, before, -, -, -, hadd, -⟩ | ⟨hadd, -⟩
    · -- merged: from now on every submission has two blocks
      exfalso
      have hfull : (addBlock blockSize 1 [⟨(first * blockSize : Nat), blockSize⟩] id).length = 1 :=
        (addBlock_full hpos hb hin.head rfl).1
      have hagain := fgdsLoop_filled hpos hb hin hfull
      have htwo : 2 ≤ (blocksOf blockSize
          (addBlock blockSize 1 [⟨(first * blockSize : Nat), blockSize⟩] id)).length := by
        rw [hadd, blocksOf, List.flatMap_cons, List.length_append, blocks_aligned hpos,
          List.length_map, List.length_range]
        omega
      have hmany := Nat.mul_le_mul_left (rest.length + 1) htwo
      rw [hcount, List.length_cons] at hagain
      omega
    · rw [if_neg (by simp)] at hadd
      rw [fgdsLoop, hadd, if_pos (.inl rfl), requested_one hpos] at hcount ⊢
      rw [ih hin.tail (Nat.succ_injective hcount)]
      rfl

/-- With batches of one request the cuFile reader reads one block after the other. -/
theorem cuFileLoop_single {ids : List Nat} (hpos : 0 < blockSize) (hin : InFile blockSize ids) :
    requested blockSize (cuFileLoop blockSize 1 [] ids) = traced blockSize ids := by
  induction ids with
  | nil => rfl
  | cons id rest ih =>
    rw [cuFileLoop, addBlock_first hin.head, if_pos (.inl rfl), requested_one hpos, ih hin.tail]
    rfl

/-- The same block again and again is read again and again. -/
theorem fgdsLoop_repeated {ids : List Nat} (hpos : 0 < blockSize) {first : Nat}
    (hfirst : (first + 1) * blockSize < 2 ^ 63) (hsame : ∀ id ∈ ids, id = first) :
    requested blockSize (fgdsLoop blockSize 1 [⟨(first * blockSize : Nat), blockSize⟩] ids) =
      traced blockSize ids := by
  have hnot : ¬ Merges blockSize ⟨(first * blockSize : Nat), blockSize⟩ first := by
    have hiff := merges_iff (n := 0) hpos hfirst hfirst
    rw [Nat.zero_add, Nat.one_mul] at hiff
    rw [hiff]
    omega
  induction ids with
  | nil => rfl
  | cons id rest ih =>
    obtain rfl := hsame id List.mem_cons_self
    have hadd : addBlock blockSize 1 [⟨(id * blockSize : Nat), blockSize⟩] id =
        [⟨(id * blockSize : Nat), blockSize⟩] := by
      simp only [addBlock, hnot, if_false, List.length_singleton, Nat.lt_irrefl]
    rw [fgdsLoop, hadd, if_pos (.inl rfl), requested_one hpos,
      ih (fun x hx => hsame x (List.mem_cons_of_mem _ hx))]
    rfl

theorem fgds_exact_of_oneRead {ids : List Nat} (hpos : 0 < blockSize) (hmax : 1 ≤ maxBatchSize)
    (hin : InFile blockSize ids) (h : OneRead blockSize maxBatchSize ids) :
    (requested blockSize (fgdsLoop blockSize maxBatchSize [] ids)).Perm (traced blockSize ids) ∧
      (requested blockSize (cuFileLoop blockSize maxBatchSize [] ids)).Perm
        (traced blockSize ids) := by
  cases ids with
  | nil => exact ⟨.refl _, .refl _⟩
  | cons id rest =>
    rcases h with hone | ⟨rfl, hsame⟩
    · obtain ⟨hperm, heq⟩ := fgdsLoop_oneBatch hpos (by simp [Batch]) hin (List.cons_ne_nil _ _)
        hmax hone
      rw [heq]
      exact ⟨hperm, hperm⟩
    · have hrepeat : ∀ x ∈ rest, x = id := fun x hx =>
        (Option.some.inj (hsame x (List.mem_cons_of_mem _ hx))).symm
      have hrest := fgdsLoop_repeated hpos hin.head hrepeat
      rw [cuFileLoop_single hpos hin, fgdsLoop, addBlock_first hin.head, if_pos (.inl rfl),
        requested_one hpos, hrest]
      exact ⟨.refl _, .refl _⟩

theorem oneRead_of_exact {ids : List Nat} (hpos : 0 < blockSize) (hmax : 1 ≤ maxBatchSize)
    (hin : InFile blockSize ids)
    (h : (requested blockSize (fgdsLoop blockSize maxBatchSize [] ids)).Perm
      (traced blockSize ids)) : OneRead blockSize maxBatchSize ids := by
  have hcount := h.length_eq
  rw [traced, List.length_map] at hcount
  rcases Nat.eq_or_lt_of_le hmax with hone | htwo
  · right
    refine ⟨hone.symm, ?_⟩
    subst hone
    cases ids with
    | nil => simp
    | cons id rest =>
      rw [fgdsLoop, addBlock_first hin.head, if_pos (.inl rfl), requested_one hpos] at h hcount
      have hrest := fgdsLoop_single hpos hin.head hin.tail (Nat.succ_injective hcount)
      rw [hrest] at h
      intro x hx
      -- every block of the trace is among the repetitions of the first
      have hmem := h.symm.subset (List.mem_map_of_mem hx)
      have heq : ((x * blockSize : Nat) : Int) = (id * blockSize : Nat) := by
        rcases List.mem_cons.mp hmem with heq | hrep
        · exact heq
        · exact List.eq_of_mem_replicate hrep
      rw [Nat.eq_of_mul_eq_mul_right hpos (Int.ofNat.inj heq), List.head?_cons]
  · left
    refine oneBatch_of_counts hpos htwo (by simp [Batch]) hin hmax ?_ ?_
    · rw [hcount]
      simp [blocksOf]
    · rw [h.sum_eq]
      simp [blocksOf]

end Blocks

/-- For every sequence of a trace whose blocks lie in a file. -/
theorem replay_exact_iff (blockSize maxBatchSize : Nat) (hdvd : blockSize ∣ maxBlocksSize)
    (hmax : 1 ≤ maxBatchSize) {sequences : List (List Nat)} {i : Nat} {ids : List Nat}
    (hids : sequences[i]? = some ids) (hin : InFile blockSize ids)
    {fgds cuFile : List (List Request)}
    (hfgds : (fgdsProcessAllSequences blockSize maxBatchSize sequences)[i]? = some fgds)
    (hcuFile : (cuFileProcessAllSequences blockSize maxBatchSize sequences)[i]? = some cuFile) :
    ((requested blockSize fgds).Perm (traced blockSize ids) ∧
        (requested blockSize fgds).Perm (requested blockSize cuFile)) ↔
      OneRead blockSize maxBatchSize ids := by
  have hpos : 0 < blockSize := Nat.pos_of_dvd_of_pos hdvd (by decide)
  rw [fgdsProcessAllSequences, List.getElem?_map, hids] at hfgds
  rw [cuFileProcessAllSequences, List.getElem?_map, hids] at hcuFile
  obtain rfl := Option.some.inj hfgds
  obtain rfl := Option.some.inj hcuFile
  constructor
  · intro h
    exact oneRead_of_exact hpos hmax hin h.1
  · intro h
    obtain ⟨hf, hc⟩ := fgds_exact_of_oneRead hpos hmax hin h
    exact ⟨hf, hf.trans hc.symm⟩

/-- Two requests, the first of them for two blocks, fit in a batch of two. -/
theorem replay_exact_two_requests :
    (requested 16384 (fgdsLoop 16384 2 [] [5, 6, 9])).Perm (traced 16384 [5, 6, 9]) := by
  have hids : [[5, 6, 9]][0]? = some [5, 6, 9] := rfl
  have hin : InFile 16384 [5, 6, 9] := by simp [InFile]
  exact ((replay_exact_iff 16384 2 (by decide) (by decide) hids hin rfl rfl).mpr
    (.inl (by decide))).1

/-- The ids 0, 5, 9 with batches of two requests: the second block fills the batch, the
third is dropped and the batch is submitted again. -/
theorem replay_repeats_batch :
    fgdsProcessAllSequences 16384 2 [[0, 5, 9]] =
        [[[⟨0, 16384⟩, ⟨81920, 16384⟩], [⟨0, 16384⟩, ⟨81920, 16384⟩]]] ∧
      cuFileProcessAllSequences 16384 2 [[0, 5, 9]] =
        [[[⟨0, 16384⟩, ⟨81920, 16384⟩], [⟨147456, 16384⟩]]] ∧
      ¬ (requested 16384 (fgdsLoop 16384 2 [] [0, 5, 9])).Perm (traced 16384 [0, 5, 9]) := by
  decide

/-- With the ids 5, 6, 6 both readers read the blocks 5, 6, 7. -/
example : requested 16384 (fgdsLoop 16384 8 [] [5, 6, 6]) = traced 16384 [5, 6, 7] ∧
    requested 16384 (cuFileLoop 16384 8 [] [5, 6, 6]) = traced 16384 [5, 6, 7] := by
  decide

end Fgds.KvReplay
