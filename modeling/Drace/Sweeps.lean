/-
This file counts the elements of a stream with sweeps: a sweep takes one from
every count that is not 0. A count then lies below the true number of
occurrences, by at most the number of sweeps. From this follows which elements
a threshold on the counts selects.
-/

import Mathlib

namespace Sweeps

variable {Element : Type} [DecidableEq Element]

/-- Count one more occurrence of an element. -/
def count (counts : Element → ℕ) (element : Element) : Element → ℕ :=
  Function.update counts element (counts element + 1)

/-- Take one from every count that is not 0. -/
def sweep (counts : Element → ℕ) : Element → ℕ :=
  fun element => counts element - 1

/-- The counts miss at most so many occurrences of an element of the stream. -/
def Undercounts (counts : Element → ℕ) (stream : List Element) (missed : ℕ) : Prop :=
  ∀ element, counts element ≤ stream.count element ∧
    stream.count element ≤ counts element + missed

variable {counts : Element → ℕ} {stream : List Element} {missed : ℕ}

theorem undercounts_zero : Undercounts (fun _ : Element => 0) [] 0 :=
  fun _ => ⟨Nat.zero_le _, Nat.le_refl _⟩

theorem Undercounts.count (bound : Undercounts counts stream missed) (element : Element) :
    Undercounts (count counts element) (stream ++ [element]) missed := by
  intro other
  obtain ⟨below, above⟩ := bound other
  rw [List.count_append, List.count_singleton, Sweeps.count]
  by_cases same : other = element
  · rw [same] at below above ⊢
    rw [Function.update_self, beq_self_eq_true, if_pos rfl]
    exact ⟨by omega, by omega⟩
  · have apart : (element == other) = false := beq_false_of_ne (Ne.symm same)
    rw [Function.update_of_ne same, apart, if_neg Bool.false_ne_true]
    exact ⟨below, above⟩

theorem Undercounts.sweep (bound : Undercounts counts stream missed) :
    Undercounts (sweep counts) stream (missed + 1) := by
  intro element
  obtain ⟨below, above⟩ := bound element
  rw [Sweeps.sweep]
  exact ⟨by omega, by omega⟩

/-! ### Thresholds -/

section Threshold

variable {frequency error : ℚ}

/-- With at most an error's part of the stream missed, the count of a frequent element is
positive and reaches the threshold. -/
theorem Undercounts.frequent (bound : Undercounts counts stream missed)
    (few : (missed : ℚ) ≤ error * stream.length) (apart : error < frequency)
    (element : Element) (often : frequency * stream.length ≤ stream.count element)
    (positive : 0 < frequency * stream.length) :
    0 < counts element ∧ ⌊(frequency - error) * stream.length⌋ ≤ (counts element : ℤ) := by
  have above : (stream.count element : ℚ) ≤ counts element + missed :=
    mod_cast (bound element).2
  have reached : (frequency - error) * stream.length ≤ counts element := by
    rw [sub_mul]
    linarith
  have nonempty : (0 : ℚ) < stream.length := by
    refine lt_of_le_of_ne (Nat.cast_nonneg _) fun zero => ?_
    rw [← zero, mul_zero] at positive
    exact lt_irrefl 0 positive
  constructor
  · have strict : (0 : ℚ) < (frequency - error) * stream.length :=
      mul_pos (sub_pos.mpr apart) nonempty
    exact_mod_cast strict.trans_le reached
  · exact Int.floor_le_iff.mpr (by push_cast; linarith)

/-- An element whose count reaches the threshold occurs as often. -/
theorem Undercounts.rare (bound : Undercounts counts stream missed) (element : Element)
    {threshold : ℤ} (reached : threshold ≤ counts element) :
    threshold ≤ stream.count element := by
  have below : (counts element : ℤ) ≤ stream.count element := mod_cast (bound element).1
  exact reached.trans below

end Threshold

end Sweeps
