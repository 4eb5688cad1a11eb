/-
This file models how the decoder loads a trace file, and says when a trace that was
cut off is replayed safely.

The buffer has room for the complete entries of the file, and the whole file is read
into it. So the bytes of an incomplete entry at its end are stored behind the buffer.
What is replayed are the complete entries nevertheless, and these are the first ones
that were recorded.
-/

import Drace.DetectorOutput

namespace Drace

open Bytes

/-! ### The bytes of an entry -/

/-- The kinds of entries, by their number. -/
def EntryType.all : List EntryType :=
  [.none, .memRead, .memWrite, .acquire, .release, .happensBefore, .happensAfter, .allocation,
    .free, .fork, .join, .detach, .finish, .funcEnter, .funcExit]

/-- The kind with a number. A number without a kind is treated like no kind by the decoder. -/
def EntryType.ofByte (byte : ℕ) : EntryType := EntryType.all.getD byte .none

/-- The number of a kind. -/
def EntryType.toByte (type : EntryType) : ℕ := EntryType.all.idxOf type

@[simp]
theorem EntryType.ofByte_toByte (type : EntryType) : ofByte type.toByte = type := by
  cases type <;> rfl

namespace Layout

variable (layout : Layout)

/-- The largest member of the union has four words. -/
def sizeofPayload : ℕ := 4 * layout.sizeofPtr

/-- The kind is one byte, and the union has the alignment of a word. -/
def sizeofBufferEntry : ℕ := layout.sizeofPtr + layout.sizeofPayload

end Layout

namespace Ipc.BufferEntry

variable (layout : Layout)

/-- The entry at some place of a memory. -/
def load (memory : Memory) (start : ℕ) : BufferEntry where
  type := EntryType.ofByte (memory start)
  payload place :=
    if place < layout.sizeofPayload then memory (start + layout.sizeofPtr + place) else 0

end Ipc.BufferEntry

/-! ### Streams -/

/-- A file that is open for reading. -/
structure IfStream where
  content : List UInt8
  position : ℕ
  good : Bool := true

namespace IfStream

/-- Open a file at its end. -/
def openAtEnd (content : List UInt8) : IfStream := { content, position := content.length }

def tellg (stream : IfStream) : ℕ := stream.position

def seekg (stream : IfStream) (position : ℕ) : IfStream := { stream with position }

/-- Read as many bytes as are left. The stream is good afterwards if these are as many as asked
for. -/
def read (stream : IfStream) (count : ℕ) : IfStream × List UInt8 :=
  let bytes := (stream.content.drop stream.position).take count
  ({ stream with
      position := stream.position + bytes.length
      good := stream.good && bytes.length == count }, bytes)

end IfStream

/-! ### The decoder -/

/-- What the decoder has done with a file. -/
structure Decoding where
  /-- The bytes of the buffer. -/
  capacity : ℕ := 0
  /-- The bytes stored from the begin of the buffer on. -/
  stored : ℕ := 0
  /-- The entries that are replayed. -/
  replayed : List Ipc.BufferEntry := []

/-- What lies in memory from the begin of the buffer on after bytes are stored there. -/
def bufferOf (bytes : List UInt8) : Memory := fun place => ((bytes[place]?).getD 0).toNat

-- `allocates` says whether there is memory for a vector of some length
variable (layout : Layout) (allocates : ℕ → Bool)

/-- Load the trace and replay it. A vector that cannot be allocated throws, and the decoder
ends. -/
def decode (file : List UInt8) : Decoding :=
  let inFile := IfStream.openAtEnd file
  let size := inFile.tellg
  let inFile := inFile.seekg 0
  let count := size / layout.sizeofBufferEntry % layout.sizeRange
  if count ≠ 0 ∧ allocates count = false then {}
  else
    let (inFile, bytes) := inFile.read size
    { capacity := count * layout.sizeofBufferEntry
      stored := bytes.length
      replayed :=
        if inFile.good then
          (List.range count).map fun index =>
            Ipc.BufferEntry.load layout (bufferOf bytes) (index * layout.sizeofBufferEntry)
        else [] }

/-- The bytes of one entry of the file. -/
def chunk (file : List UInt8) (index : ℕ) : List UInt8 :=
  (file.drop (index * layout.sizeofBufferEntry)).take layout.sizeofBufferEntry

/-- The complete entries of a file. -/
def completeEntries (file : List UInt8) : List Ipc.BufferEntry :=
  (List.range (file.length / layout.sizeofBufferEntry)).map fun index =>
    Ipc.BufferEntry.load layout (bufferOf (chunk layout file index)) 0

/-- No more is stored than the buffer has room for, and the complete entries of the file are
replayed. -/
def DecodesSafely (file : List UInt8) : Prop :=
  (decode layout allocates file).stored ≤ (decode layout allocates file).capacity ∧
    (decode layout allocates file).replayed = completeEntries layout file

/-- The file ends with an entry, and the vector of its entries can be allocated. -/
def WholeEntries (file : List UInt8) : Prop :=
  layout.sizeofBufferEntry ∣ file.length ∧
    file.length / layout.sizeofBufferEntry < layout.sizeRange ∧
    (file ≠ [] → allocates (file.length / layout.sizeofBufferEntry) = true)

variable {layout} {allocates} {file : List UInt8}

theorem Layout.sizeofBufferEntry_pos (layout : Layout) : 0 < layout.sizeofBufferEntry := by
  cases layout <;> decide

/-- An entry is loaded from its own bytes only. -/
theorem load_chunk (index : ℕ) :
    Ipc.BufferEntry.load layout (bufferOf (chunk layout file index)) 0 =
      Ipc.BufferEntry.load layout (bufferOf file) (index * layout.sizeofBufferEntry) := by
  have same : ∀ place < layout.sizeofBufferEntry, bufferOf (chunk layout file index) place =
      bufferOf file (index * layout.sizeofBufferEntry + place) := by
    intro place inside
    rw [bufferOf, bufferOf, chunk, List.getElem?_take_of_lt inside, List.getElem?_drop]
  have first := same 0 layout.sizeofBufferEntry_pos
  rw [Nat.add_zero] at first
  unfold Ipc.BufferEntry.load
  rw [first, Ipc.BufferEntry.mk.injEq]
  refine ⟨rfl, ?_⟩
  funext place
  split
  · next inside =>
    rw [Nat.zero_add, same _ (Nat.add_lt_add_left inside _), Nat.add_assoc]
  · rfl

/-- The whole file is read, and read completely. -/
theorem decode_eq (file : List UInt8) :
    decode layout allocates file =
      let count := file.length / layout.sizeofBufferEntry % layout.sizeRange
      if count ≠ 0 ∧ allocates count = false then {}
      else
        { capacity := count * layout.sizeofBufferEntry
          stored := file.length
          replayed := (List.range count).map fun index =>
            Ipc.BufferEntry.load layout (bufferOf (chunk layout file index)) 0 } := by
  simp only [decode, IfStream.openAtEnd, IfStream.tellg, IfStream.seekg, IfStream.read,
    List.drop_zero, List.take_length, Bool.true_and, beq_self_eq_true, if_true, load_chunk]

/-- A trace is decoded safely just where it ends with an entry and its entries can be held in
memory. -/
theorem decodesSafely_iff :
    DecodesSafely layout allocates file ↔ WholeEntries layout allocates file := by
  have positive := layout.sizeofBufferEntry_pos
  have most := Nat.div_mul_le_self file.length layout.sizeofBufferEntry
  rw [DecodesSafely, decode_eq, WholeEntries]
  constructor
  · intro safe
    dsimp only at safe
    split at safe
    · next refused =>
      -- Nothing is replayed, so there are no complete entries.
      have none := congrArg List.length safe.2
      rw [completeEntries, List.length_map, List.length_range, List.length_nil] at none
      rw [← none, Nat.zero_mod] at refused
      exact absurd rfl refused.1
    · next allocated =>
      have count := congrArg List.length safe.2
      rw [completeEntries, List.length_map, List.length_map, List.length_range,
        List.length_range] at count
      rw [count] at safe allocated
      have whole := le_antisymm safe.1 most
      refine ⟨Dvd.intro_left _ whole.symm, ?_, fun nonempty => ?_⟩
      · rw [← count]
        exact Nat.mod_lt _ (by cases layout <;> decide)
      · by_contra refused
        refine allocated ⟨fun zero => ?_, Bool.eq_false_iff.mpr refused⟩
        rw [zero, Nat.zero_mul] at whole
        exact nonempty (List.length_eq_zero_iff.mp whole)
  · rintro ⟨whole, small, allocated⟩
    dsimp only
    rw [Nat.mod_eq_of_lt small, if_neg]
    · exact ⟨(Nat.div_mul_cancel whole).ge, rfl⟩
    · rintro ⟨some, refused⟩
      have nonempty : file ≠ [] := by
        rintro rfl
        exact some (Nat.zero_div _)
      exact absurd (allocated nonempty) (Bool.eq_false_iff.mp refused)

/-- The fork of a thread, and the first byte of an access. -/
def cutInSecondEntry : List UInt8 := 9 :: List.replicate 39 0 ++ [1]

/-- The first byte of an incomplete entry is stored behind the buffer. -/
theorem stored_behind_buffer :
    ¬ ∀ (layout : Layout) (allocates : ℕ → Bool) (file : List UInt8),
      (∀ count, allocates count = true) → DecodesSafely layout allocates file := by
  intro always
  have safe := always .x64 (fun _ => true) cutInSecondEntry fun _ => rfl
  exact absurd safe.1 (by decide)

/-! ### Traces that were cut off -/

/-- Bytes that lie in memory like an entry. Those between the kind and the union may be any. -/
def IsImage (layout : Layout) (entry : Ipc.BufferEntry) (bytes : List UInt8) : Prop :=
  bytes.length = layout.sizeofBufferEntry ∧ bufferOf bytes 0 = entry.type.toByte ∧
    ∀ place < layout.sizeofPayload,
      bufferOf bytes (layout.sizeofPtr + place) = entry.payload place

/-- Nothing lies behind the union. -/
def Ipc.BufferEntry.Bounded (layout : Layout) (entry : Ipc.BufferEntry) : Prop :=
  ∀ place, layout.sizeofPayload ≤ place → entry.payload place = 0

variable {entry : Ipc.BufferEntry} {entries : List Ipc.BufferEntry} {bytes : List UInt8}
  {images : List (List UInt8)}

/-- An entry is loaded from its image. -/
theorem IsImage.load_eq (image : IsImage layout entry bytes) (bounded : entry.Bounded layout) :
    Ipc.BufferEntry.load layout (bufferOf bytes) 0 = entry := by
  obtain ⟨-, type, payload⟩ := image
  obtain ⟨entryType, memory⟩ := entry
  unfold Ipc.BufferEntry.load
  rw [type, EntryType.ofByte_toByte, Ipc.BufferEntry.mk.injEq]
  refine ⟨rfl, ?_⟩
  funext place
  split
  · next inside => rw [Nat.zero_add, payload place inside]
  · next outside => exact (bounded place (not_lt.mp outside)).symm

/-- Images one after the other are cut into their entries again. -/
theorem chunk_flatten (lengths : ∀ image ∈ images, image.length = layout.sizeofBufferEntry)
    (index : ℕ) : chunk layout images.flatten index = images.getD index [] := by
  induction images generalizing index with
  | nil => rw [chunk, List.flatten_nil, List.drop_nil, List.take_nil, List.getD_nil]
  | cons first images inductionHypothesis =>
    obtain ⟨length, lengths⟩ := List.forall_mem_cons.mp lengths
    rw [chunk, List.flatten_cons]
    cases index with
    | zero => rw [Nat.zero_mul, List.drop_zero, ← length, List.take_left, List.getD_cons_zero]
    | succ index =>
      rw [List.getD_cons_succ, ← inductionHypothesis lengths index, chunk, Nat.succ_mul,
        Nat.add_comm, ← List.drop_drop, ← length, List.drop_left]

/-- An entry before the cut is left as it is. -/
theorem chunk_take {cut index : ℕ} (before : (index + 1) * layout.sizeofBufferEntry ≤ cut) :
    chunk layout (file.take cut) index = chunk layout file index := by
  rw [Nat.succ_mul] at before
  rw [chunk, chunk, List.drop_take, List.take_take, Nat.min_eq_left (by omega)]

/-- The complete entries of a file that was cut off are the first ones that were written. -/
theorem completeEntries_take (written : List.Forall₂ (IsImage layout) entries images)
    (bounded : ∀ entry ∈ entries, entry.Bounded layout) (cut : ℕ) :
    completeEntries layout (images.flatten.take cut) =
      entries.take (cut / layout.sizeofBufferEntry) := by
  have positive := layout.sizeofBufferEntry_pos
  have same := written.length_eq
  have lengths : ∀ image ∈ images, image.length = layout.sizeofBufferEntry := by
    intro image member
    obtain ⟨index, inside, rfl⟩ := List.mem_iff_getElem.mp member
    exact (List.forall₂_iff_get.mp written).2 index (same ▸ inside) inside |>.1
  have total : images.flatten.length = entries.length * layout.sizeofBufferEntry := by
    rw [List.length_flatten, List.map_congr_left lengths, List.map_const', List.sum_replicate,
      same, smul_eq_mul]
  refine List.ext_getElem ?_ fun index inside after => ?_
  · rw [completeEntries, List.length_map, List.length_range, List.length_take, List.length_take,
      total]
    rcases Nat.le_total cut (entries.length * layout.sizeofBufferEntry) with short | long
    · rw [Nat.min_eq_left short, Nat.min_eq_left]
      rw [Nat.mul_comm] at short
      exact Nat.div_le_of_le_mul short
    · rw [Nat.min_eq_right long, Nat.mul_div_cancel _ positive, Nat.min_eq_right]
      exact (Nat.le_div_iff_mul_le positive).mpr long
  · have bounds := List.length_take ▸ after
    have before : (index + 1) * layout.sizeofBufferEntry ≤ cut :=
      (Nat.le_div_iff_mul_le positive).mp (Nat.lt_of_lt_of_le bounds (Nat.min_le_left _ _))
    have here : index < entries.length := Nat.lt_of_lt_of_le bounds (Nat.min_le_right _ _)
    have image := (List.forall₂_iff_get.mp written).2 index here (same ▸ here)
    simp only [completeEntries, List.getElem_map, List.getElem_range, List.getElem_take]
    rw [chunk_take before, chunk_flatten lengths, List.getD_eq_getElem _ _ (same ▸ here)]
    exact image.load_eq (bounded _ (List.getElem_mem here))

/-- A store into a field does not reach behind it. -/
theorem put_of_behind {field : Field} {value place : ℕ} {memory : Memory}
    (behind : field.offset + field.width ≤ place) : field.put value memory place = memory place :=
  if_neg fun inside => absurd inside.2 (not_lt.mpr behind)

/-- What is recorded stays in the union. -/
theorem bounded_record {call : Event} (recorded : TraceBinary.record layout call = some entry) :
    entry.Bounded layout := by
  intro place behind
  have kept (field : Field) (inside : field.offset + field.width ≤ layout.sizeofPayload)
      (value : ℕ) (memory : Memory) : field.put value memory place = memory place :=
    put_of_behind (inside.trans behind)
  have firstId := kept Ipc.firstId (by cases layout <;> decide)
  have childField := kept Ipc.ForkJoin.childField (by cases layout <;> decide)
  have recursiveField := kept (Ipc.Mutex.recursiveField layout) (by cases layout <;> decide)
  have writeField := kept (Ipc.Mutex.writeField layout) (by cases layout <;> decide)
  have acquireField := kept (Ipc.Mutex.acquireField layout) (by cases layout <;> decide)
  have first := kept (Ipc.word layout 1) (by cases layout <;> decide)
  have second := kept (Ipc.word layout 2) (by cases layout <;> decide)
  have third := kept (Ipc.word layout 3) (by cases layout <;> decide)
  cases call <;> cases recorded <;>
    simp only [Ipc.MemAccess.store, Ipc.Mutex.store, Ipc.HappensRelation.store, Ipc.FuncEnter.store,
      Ipc.ForkJoin.store, Ipc.DetachFinish.store, Field.putBool, Field.putInt, blank, firstId,
      childField, recursiveField, writeField, acquireField, first, second, third]

/-- A trace that was cut off replays as the first entries that were recorded. -/
theorem completeEntries_trace {calls : List Event}
    (written : List.Forall₂ (IsImage layout) (TraceBinary.trace layout calls) images) (cut : ℕ) :
    completeEntries layout (images.flatten.take cut) =
      (TraceBinary.trace layout calls).take (cut / layout.sizeofBufferEntry) := by
  refine completeEntries_take written (fun entry member => ?_) cut
  obtain ⟨call, -, recorded⟩ := List.mem_filterMap.mp member
  exact bounded_record recorded

end Drace
