/-
This file models how the resolver answers a search for symbols, and says when the
answer stays inside its message.

The answer has an array for a fixed number of addresses behind their count. The count
is cut to the size of the array before it decides how many addresses are copied, so
the copy is never cut. Which fields are written is recorded, since a write behind the
array need not change what is there.
-/

import Drace.Bytes
import Drace.ResolverLink
import Drace.ShadowState

namespace Drace

open Bytes

/-- The shared message, with the fields of its buffer that were written, oldest first. -/
structure Message where
  id : SMDataID
  buffer : Memory
  written : List Field := []

namespace Message

/-- Write a field of the buffer. -/
def put (message : Message) (field : Field) (value : ℕ) : Message :=
  { message with buffer := field.put value message.buffer, written := message.written ++ [field] }

end Message

namespace Ipc.SymbolResponse

variable (layout : Layout)

/-- `adresses.size()`. -/
def maxAdresses : ℕ := 64

/-- The member `size`, a `size_t`. -/
def sizeField : Field := ⟨0, layout.sizeofPtr⟩

/-- An element of the array `adresses`, or what lies behind the array. -/
def adress (index : ℕ) : Field := ⟨8 + 8 * index, 8⟩

/-- All of the response. -/
def whole : Field := ⟨0, 8 + 8 * maxAdresses⟩

end Ipc.SymbolResponse

open Ipc.SymbolResponse

namespace ProtocolHandler

/-- Keep the address of a symbol that is found. -/
def symbolMatchCallback (vec : List UInt64) (address : UInt64) : List UInt64 := vec ++ [address]

/-- `std::copy` to the array from an element on. -/
def copyTo (message : Message) (index : ℕ) : List UInt64 → Message
  | [] => message
  | address :: rest => copyTo (message.put (adress index) address.toNat) (index + 1) rest

variable (layout : Layout)

/-- Construct the response at the begin of the buffer, and count the addresses that fit. -/
def drafted (count : ℕ) (message : Message) : Message :=
  ({ message with id := .searchsyms }.put whole 0).put (sizeField layout) (min count maxAdresses)

/-- Answer with the symbols that the search calls back for. If it fails, nothing is answered. -/
def searchSymbols (succeeds : Bool) (symbols : List UInt64) (message : Message) : Message :=
  let symbolAddrs := symbols.foldl symbolMatchCallback []
  if succeeds then
    let response := drafted layout symbolAddrs.length message
    let copied :=
      if (sizeField layout).get response.buffer ≤ maxAdresses then symbolAddrs
      else symbolAddrs.take maxAdresses
    copyTo response 0 copied
  else message

/-- The answer has as many of the addresses as fit, in their order, and nothing behind it was
written. -/
structure AnswersInside (symbols : List UInt64) (message : Message) : Prop where
  size : (sizeField layout).get message.buffer = min symbols.length maxAdresses
  adresses : ∀ index address, index < maxAdresses → symbols[index]? = some address →
    (adress index).get message.buffer = address.toNat
  inside : ∀ field ∈ message.written, field.offset + field.width ≤ whole.width

variable {layout} {symbols : List UInt64} {message : Message} {index : ℕ}

theorem foldl_symbolMatchCallback (vec : List UInt64) :
    symbols.foldl symbolMatchCallback vec = vec ++ symbols := by
  induction symbols generalizing vec with
  | nil => rw [List.foldl_nil, List.append_nil]
  | cons address rest inductionHypothesis =>
    rw [List.foldl_cons, inductionHypothesis, symbolMatchCallback, List.append_assoc,
      List.singleton_append]

/-- The copy leaves a field that lies before it as it is. -/
theorem get_copyTo_of_before {field : Field} (before : field.offset + field.width ≤ 8 + 8 * index) :
    field.get (copyTo message index symbols).buffer = field.get message.buffer := by
  induction symbols generalizing message index with
  | nil => rfl
  | cons address rest inductionHypothesis =>
    rw [copyTo, inductionHypothesis (by omega), Message.put]
    exact Field.get_put_of_apart (Or.inl before)

/-- The copy puts the addresses into the array one after the other. -/
theorem get_copyTo (message : Message) (index : ℕ) {place : ℕ} {address : UInt64}
    (found : symbols[place]? = some address) :
    (adress (index + place)).get (copyTo message index symbols).buffer = address.toNat := by
  induction symbols generalizing message index place with
  | nil => cases found
  | cons first rest inductionHypothesis =>
    rw [copyTo]
    cases place with
    | zero =>
      obtain rfl := Option.some.inj found
      rw [get_copyTo_of_before (by simp only [adress]; omega)]
      exact Field.get_put_of_fits first.toNat_lt
    | succ place =>
      rw [Nat.add_succ, ← Nat.succ_add]
      exact inductionHypothesis _ _ found

/-- The copy writes an element of the array, or one behind it, for every address. -/
theorem written_copyTo : (copyTo message index symbols).written =
    message.written ++ (List.range symbols.length).map fun place => adress (index + place) := by
  induction symbols generalizing message index with
  | nil => exact (List.append_nil _).symm
  | cons first rest inductionHypothesis =>
    rw [copyTo, inductionHypothesis, Message.put, List.length_cons, List.range_succ_eq_map,
      List.map_cons, List.map_map, List.append_assoc, List.singleton_append]
    refine congrArg (fun places => message.written ++ adress index :: places) ?_
    refine List.map_congr_left fun place _ => ?_
    rw [Function.comp_apply, Nat.succ_add_eq_add_succ]

/-- The count is never above the size of the array, so all addresses are copied. -/
theorem searchSymbols_eq (symbols : List UInt64) (message : Message) :
    searchSymbols layout true symbols message =
      copyTo (drafted layout symbols.length message) 0 symbols := by
  have small := Nat.min_le_right symbols.length maxAdresses
  have fits : min symbols.length maxAdresses < 256 ^ (sizeField layout).width :=
    Nat.lt_of_le_of_lt small (by cases layout <;> decide)
  rw [searchSymbols, foldl_symbolMatchCallback, List.nil_append, if_pos rfl]
  simp only [drafted, Message.put, Field.get_put_of_fits fits, if_pos small]

/-- The answer to a search stays inside its message, and has what it should, just where no more
symbols are found than there is room for. -/
theorem answers_inside_iff (id : SMDataID) (buffer : Memory) :
    AnswersInside layout symbols (searchSymbols layout true symbols ⟨id, buffer, []⟩) ↔
      symbols.length ≤ maxAdresses := by
  rw [searchSymbols_eq]
  constructor
  · intro answers
    by_contra many
    have member : adress maxAdresses ∈
        (copyTo (drafted layout symbols.length ⟨id, buffer, []⟩) 0 symbols).written := by
      rw [written_copyTo]
      refine List.mem_append_right _ (List.mem_map.mpr ⟨maxAdresses, ?_, ?_⟩)
      · exact List.mem_range.mpr (not_le.mp many)
      · rw [Nat.zero_add]
    have inside : (adress maxAdresses).offset + (adress maxAdresses).width ≤ whole.width :=
      answers.inside _ member
    exact absurd inside (by decide)
  · intro room
    refine ⟨?_, ?_, ?_⟩
    · rw [get_copyTo_of_before (by cases layout <;> decide)]
      exact Field.get_put_of_fits (Nat.lt_of_le_of_lt (Nat.min_le_right _ maxAdresses)
        (by cases layout <;> decide))
    · intro index address _ found
      have stored := get_copyTo (drafted layout symbols.length ⟨id, buffer, []⟩) 0 found
      rwa [Nat.zero_add] at stored
    · intro field member
      rw [written_copyTo] at member
      rcases List.mem_append.mp member with early | copied
      · have fields : (drafted layout symbols.length ⟨id, buffer, []⟩).written =
            [whole, sizeField layout] := rfl
        rw [fields, List.mem_cons, List.mem_singleton] at early
        rcases early with rfl | rfl
        · exact le_rfl
        · cases layout <;> decide
      · obtain ⟨place, inside, rfl⟩ := List.mem_map.mp copied
        have bound := List.mem_range.mp inside
        simp only [adress, whole]
        omega

/-- The address of one more symbol than there is room for is written behind the array. -/
theorem adress_behind_array :
    ¬ ∀ (layout : Layout) (symbols : List UInt64) (id : SMDataID) (buffer : Memory),
      AnswersInside layout symbols (searchSymbols layout true symbols ⟨id, buffer, []⟩) := by
  intro always
  have answers := always .x64 (List.replicate 65 0) .searchsyms blank
  rw [searchSymbols_eq] at answers
  have last : (copyTo (drafted .x64 65 ⟨.searchsyms, blank, []⟩) 0
      (List.replicate 65 0)).written[66]? = some (adress maxAdresses) := by
    rw [written_copyTo]
    rfl
  exact absurd (answers.inside _ (List.mem_of_getElem? last)) (by decide)

end ProtocolHandler

end Drace
