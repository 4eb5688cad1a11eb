/-
This file says what the counter of a thread stands for.

The counter mixes the number of open scopes with a flag for a function that is not
sampled. It stands for a gate: recording is wanted while no scope is open and the
function is sampled. The operations on the counter are the operations of the gate
as long as the number of scopes stays below the flag.
-/

import Drace.Recording

namespace Drace

/-- What should switch the recording: the open scopes, and a function that is not sampled. -/
structure Gate where
  scopes : ℕ := 0
  unsampled : Bool := false
  deriving DecidableEq

namespace Gate

/-- Recording is wanted. -/
def Opened (gate : Gate) : Prop := gate.scopes = 0 ∧ gate.unsampled = false

def enter (gate : Gate) : Gate := { gate with scopes := gate.scopes + 1 }

def leave (gate : Gate) : Gate := { gate with scopes := gate.scopes - 1 }

def sample (gate : Gate) (sampled : Bool) : Gate := { gate with unsampled := !sampled }

end Gate

namespace Layout

variable (layout : Layout)

theorem flagBit_eq_two_pow : ∃ bits, layout.flagBit = 2 ^ bits := by
  cases layout with
  | x86 => exact ⟨31, by decide⟩
  | x64 => exact ⟨63, by decide⟩

theorem and_flagBit (count : ℕ) : count &&& (layout.flagBit - 1) = count % layout.flagBit := by
  obtain ⟨bits, flag⟩ := layout.flagBit_eq_two_pow
  rw [flag, Nat.and_two_pow_sub_one_eq_mod]

theorem or_flagBit {count : ℕ} (bound : count < layout.flagBit) :
    count ||| layout.flagBit = count + layout.flagBit ∧
      (count + layout.flagBit) ||| layout.flagBit = count + layout.flagBit := by
  obtain ⟨bits, flag⟩ := layout.flagBit_eq_two_pow
  rw [flag] at bound ⊢
  have sum := Nat.two_pow_add_eq_or_of_lt bound 1
  rw [Nat.mul_one, Nat.or_comm, Nat.add_comm] at sum
  refine ⟨sum.symm, ?_⟩
  rw [sum, Nat.or_assoc, Nat.or_self]

end Layout

variable {layout : Layout} {params : RuntimeConfig} {session : Session layout}
  {data : ShadowThreadState layout} {gate : Gate} {draw : ℕ}

namespace ShadowThreadState

/-- The counter of a thread stands for a gate. -/
def Counts (data : ShadowThreadState layout) (gate : Gate) : Prop :=
  gate.scopes < layout.flagBit ∧
    data.eventCnt = gate.scopes + if gate.unsampled then layout.flagBit else 0

theorem Counts.eventCnt_eq_zero (counts : data.Counts gate) : data.eventCnt = 0 ↔ gate.Opened := by
  have flag := layout.one_lt_flagBit
  rw [counts.2, Gate.Opened]
  cases gate.unsampled with
  | true => simp; omega
  | false => simp

/-- The lower bits of the counter are the open scopes. -/
theorem Counts.eventCnt_mod (counts : data.Counts gate) :
    data.eventCnt % layout.flagBit = gate.scopes := by
  rw [counts.2]
  split
  · rw [Nat.add_mod_right, Nat.mod_eq_of_lt counts.1]
  · exact Nat.mod_eq_of_lt counts.1

theorem counts_disableScope (counts : data.Counts gate) (room : gate.scopes + 1 < layout.flagBit) :
    data.disableScope.Counts gate.enter := by
  refine ⟨room, ?_⟩
  show (data.eventCnt + 1) % layout.sizeRange = gate.scopes + 1 + if gate.unsampled then _ else _
  rw [counts.2, layout.sizeRange_eq_flagBit]
  split
  · rw [Nat.mod_eq_of_lt (by omega)]
    omega
  · rw [Nat.mod_eq_of_lt (by omega)]

/-- The counter after a scope is closed. -/
def countDown (data : ShadowThreadState layout) : ℕ :=
  (data.eventCnt + (layout.sizeRange - 1)) % layout.sizeRange

theorem enableScope_eq : data.enableScope =
    { data with
      eventCnt := data.countDown
      bufPtr := if data.countDown = 0 then data.bufPtrStored else data.bufPtr } := by
  unfold enableScope countDown
  simp only
  split <;> rfl

theorem countDown_eq (counts : data.Counts gate) (inside : 0 < gate.scopes) :
    data.countDown = data.eventCnt - 1 := by
  have flag := layout.sizeRange_eq_flagBit
  have bound : data.eventCnt < layout.sizeRange ∧ 0 < data.eventCnt := by
    rw [counts.2]
    have below := counts.1
    split <;> omega
  rw [countDown, show data.eventCnt + (layout.sizeRange - 1) =
    (data.eventCnt - 1) + layout.sizeRange by omega, Nat.add_mod_right, Nat.mod_eq_of_lt (by omega)]

theorem counts_enableScope (counts : data.Counts gate) (inside : 0 < gate.scopes) :
    data.enableScope.Counts gate.leave := by
  rw [enableScope_eq]
  refine ⟨lt_of_le_of_lt (Nat.sub_le _ _) counts.1, ?_⟩
  show data.countDown = gate.scopes - 1 + _
  rw [countDown_eq counts inside, counts.2]
  exact Nat.sub_add_comm inside

end ShadowThreadState

namespace Session

/-- The decision of the sampling. -/
def sampled (session : Session layout) (draw : ℕ) : Bool := (session.sampleRef draw).1

/-- The decision moves the sampling position only. -/
theorem sampleRef_eq (session : Session layout) (draw : ℕ) : ∃ position,
    session.sampleRef draw = (session.sampled draw,
      { session with data := { session.data with samplingPos := position } }) := by
  unfold sampled sampleRef
  simp only
  split
  · exact ⟨_, rfl⟩
  · split
    · exact ⟨_, rfl⟩
    · exact ⟨_, rfl⟩

/-- The counter after the flag is set or cleared. -/
def flagged (session : Session layout) (draw : ℕ) : ℕ :=
  if session.sampled draw then session.data.eventCnt % layout.flagBit
  else session.data.eventCnt ||| layout.flagBit

/-- What the sampling decision does: it sets or clears the flag, and it disables or, if the counter
allows it, enables the detector. -/
theorem switchSampling_eq (session : Session layout) (draw : ℕ) : ∃ position,
    session.switchSampling draw =
      { session with data := { session.data with
          samplingPos := position
          eventCnt := session.flagged draw
          bufPtr :=
            if session.sampled draw then
              if session.data.eventCnt % layout.flagBit = 0 then session.data.bufPtrStored
              else session.data.bufPtr
            else 0
          bufPtrStored :=
            if session.sampled draw then session.data.bufPtrStored
              else session.data.bufPtr } } := by
  obtain ⟨position, decided⟩ := session.sampleRef_eq draw
  refine ⟨position, ?_⟩
  unfold switchSampling flagged
  rw [decided]
  cases session.sampled draw with
  | false => rfl
  | true =>
    simp only [layout.and_flagBit, if_true]
    split <;> rfl

theorem counts_switchSampling (counts : session.data.Counts gate) (draw : ℕ) :
    (session.switchSampling draw).data.Counts (gate.sample (session.sampled draw)) := by
  obtain ⟨position, same⟩ := session.switchSampling_eq draw
  refine ⟨counts.1, ?_⟩
  rw [same]
  show session.flagged draw = _
  have bound := layout.or_flagBit counts.1
  rw [flagged, counts.eventCnt_mod, Gate.sample]
  cases session.sampled draw with
  | true => rfl
  | false =>
    rw [counts.2]
    cases gate.unsampled with
    | true => simpa using bound.2
    | false => simpa using bound.1

end Session

end Drace
