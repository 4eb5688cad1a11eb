/-
This file fixes how the fields of records lie in memory.

A memory is a byte at each offset. A field is a range of offsets and holds a number,
the least significant byte first. A field gives back what was stored in it up to its
width, and a store leaves the fields apart from it as they are. So overlaid records
may share a memory: what one of them reads from the bytes of another is a number too.
-/

import Mathlib

namespace Bytes

/-- A byte at each offset. -/
abbrev Memory := ℕ → ℕ

/-- The memory that holds zero everywhere. -/
def blank : Memory := fun _ => 0

/-- The number in the bytes from an offset on, the least significant byte first. -/
def load (memory : Memory) (offset : ℕ) : ℕ → ℕ
  | 0 => 0
  | width + 1 => memory offset + 256 * load memory (offset + 1) width

/-- Replace the bytes from an offset on by those of a number. -/
def store (memory : Memory) (offset width value : ℕ) : Memory := fun place =>
  if offset ≤ place ∧ place < offset + width then value / 256 ^ (place - offset) % 256
  else memory place

variable {memory other : Memory} {offset width value : ℕ}

theorem load_congr (same : ∀ place, offset ≤ place → place < offset + width →
    memory place = other place) : load memory offset width = load other offset width := by
  induction width generalizing offset with
  | zero => rfl
  | succ width ih =>
    rw [load, load, same offset le_rfl (by omega),
      ih fun place after before => same place (by omega) (by omega)]

/-- Bytes that are those of a number make up the number, as far as they go. -/
theorem load_of_digits (digits : ∀ index < width, memory (offset + index) =
    value / 256 ^ index % 256) : load memory offset width = value % 256 ^ width := by
  induction width generalizing offset value with
  | zero => rw [load, pow_zero, Nat.mod_one]
  | succ width ih =>
    have lowest : memory offset = value % 256 := by
      have first := digits 0 (by omega)
      rwa [Nat.add_zero, pow_zero, Nat.div_one] at first
    have rest : load memory (offset + 1) width = value / 256 % 256 ^ width := by
      refine ih fun index inside => ?_
      rw [Nat.add_right_comm, Nat.add_assoc, digits (index + 1) (by omega), Nat.div_div_eq_div_mul,
        pow_succ']
    rw [load, lowest, rest, pow_succ', Nat.mod_mul]

theorem load_store : load (store memory offset width value) offset width = value % 256 ^ width := by
  refine load_of_digits fun index inside => ?_
  rw [store, if_pos ⟨by omega, by omega⟩, Nat.add_sub_cancel_left]

theorem load_blank : load blank offset width = 0 := by
  have digits : ∀ index < width, blank (offset + index) = 0 / 256 ^ index % 256 := by
    intro index _
    rw [blank, Nat.zero_div, Nat.zero_mod]
  rw [load_of_digits digits, Nat.zero_mod]

/-- A range of offsets that holds a number. -/
structure Field where
  offset : ℕ
  width : ℕ

namespace Field

/-- No offset belongs to both fields. -/
def Apart (field other : Field) : Prop :=
  field.offset + field.width ≤ other.offset ∨ other.offset + other.width ≤ field.offset

instance (field other : Field) : Decidable (field.Apart other) :=
  inferInstanceAs (Decidable (_ ∨ _))

variable (field other : Field)

/-- The number a field holds. -/
def get (memory : Memory) : ℕ := load memory field.offset field.width

/-- Store a number, as far as it fits. -/
def put (value : ℕ) (memory : Memory) : Memory := store memory field.offset field.width value

/-- The integer a field holds in two's complement. -/
def getInt (memory : Memory) : ℤ := (field.get memory : ℤ).bmod (256 ^ field.width)

/-- Store an integer in two's complement, as far as it fits. -/
def putInt (value : ℤ) (memory : Memory) : Memory :=
  field.put (value % (256 ^ field.width : ℕ)).toNat memory

/-- The truth value a field holds. -/
def getBool (memory : Memory) : Bool := field.get memory != 0

/-- Store a truth value as one or zero. -/
def putBool (value : Bool) (memory : Memory) : Memory := field.put value.toNat memory

variable {field other}

@[simp]
theorem get_blank : field.get blank = 0 := load_blank

theorem get_put : field.get (field.put value memory) = value % 256 ^ field.width := load_store

@[simp]
theorem get_put_of_fits (fits : value < 256 ^ field.width) :
    field.get (field.put value memory) = value := by
  rw [get_put, Nat.mod_eq_of_lt fits]

/-- A store leaves the fields apart from it as they are. -/
@[simp]
theorem get_put_of_apart (apart : field.Apart other) :
    field.get (other.put value memory) = field.get memory := by
  refine load_congr fun place after before => ?_
  rw [put, store, if_neg]
  rintro ⟨started, unfinished⟩
  rcases apart with left | right <;> omega

@[simp]
theorem getInt_putBool_of_apart {value : Bool} (apart : field.Apart other) :
    field.getInt (other.putBool value memory) = field.getInt memory := by
  rw [getInt, getInt, putBool, get_put_of_apart apart]

@[simp]
theorem getBool_putBool_of_apart {value : Bool} (apart : field.Apart other) :
    field.getBool (other.putBool value memory) = field.getBool memory := by
  rw [getBool, getBool, putBool, get_put_of_apart apart]

@[simp]
theorem get_putInt_of_apart {value : ℤ} (apart : field.Apart other) :
    field.get (other.putInt value memory) = field.get memory := get_put_of_apart apart

@[simp]
theorem get_putBool_of_apart {value : Bool} (apart : field.Apart other) :
    field.get (other.putBool value memory) = field.get memory := get_put_of_apart apart

/-- An integer that fits is read back from its two's complement. -/
@[simp]
theorem getInt_putInt_of_fits {value : ℤ} (least : -(256 ^ field.width : ℕ) ≤ value * 2)
    (greatest : value * 2 < (256 ^ field.width : ℕ)) :
    field.getInt (field.putInt value memory) = value := by
  have positive : 0 < 256 ^ field.width := Nat.pow_pos (by decide)
  have stored : ((value % (256 ^ field.width : ℕ)).toNat : ℤ) = value % (256 ^ field.width : ℕ) :=
    Int.toNat_of_nonneg (Int.emod_nonneg _ (by omega))
  have fits : (value % (256 ^ field.width : ℕ)).toNat < 256 ^ field.width := by
    have below := Int.emod_lt_of_pos value (b := (256 ^ field.width : ℕ)) (by omega)
    omega
  rw [getInt, putInt, get_put_of_fits fits, stored, Int.emod_bmod]
  exact Int.bmod_eq_of_le_mul_two least greatest

@[simp]
theorem getBool_putBool {value : Bool} (wide : 0 < field.width) :
    field.getBool (field.putBool value memory) = value := by
  have byte : value.toNat < 256 := by cases value <;> decide
  have fits : value.toNat < 256 ^ field.width := lt_of_lt_of_le byte (Nat.le_self_pow wide.ne' 256)
  rw [getBool, putBool, get_put_of_fits fits]
  cases value <;> rfl

end Field

end Bytes
