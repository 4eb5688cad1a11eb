/-
This file models the lossy counting of `lossyCountingModel.hpp`, by which the
client finds the pages and the code that are accessed most. Frequency and error
are rational numbers. Counts and the total are natural numbers in place of
`size_t`, for streams of fewer than 2^64 items. Items and whole windows may be fed
in any order: the counts are swept once for every full window of the stream,
whatever the positions, so the bounds of counting with sweeps hold with the length
of the stream divided by the window size.
-/

import Drace.Table
import Drace.Sweeps

namespace Drace

/-- `LossyCountingModel`. The total and the counts of the histogram stay below 2^64. -/
structure LossyCountingModel (Element : Type) where
  frequency : ℚ
  error : ℚ
  windowSize : ℕ
  totalProcessedElements : ℕ := 0
  histogram : AList fun _ : Element => ℕ := ∅

namespace LossyCountingModel

variable {Element : Type} [DecidableEq Element]

/-- The constructor. -/
def create (frequency error : ℚ) : LossyCountingModel Element :=
  { frequency, error, windowSize := (round (1 / error)).toNat }

/-- `++(_histogram[e])`: an entry that is not there starts at 0. -/
def increment (histogram : AList fun _ : Element => ℕ) (element : Element) :
    AList fun _ : Element => ℕ :=
  histogram.insert element ((histogram.lookup element).getD 0 + 1)

/-- What the sweep leaves of one entry: the last occurrence is erased. A 0 would wrap around. -/
def decrease (frequency : ℕ) : Option ℕ :=
  if frequency = 1 then none
  else if frequency = 0 then some (2 ^ 64 - 1)
  else some (frequency - 1)

/-- `_decreaseAllFrequencies`. -/
def decreaseAllFrequencies (model : LossyCountingModel Element) : LossyCountingModel Element :=
  { model with histogram := model.histogram.filterMapValues decrease }

/-- Process a single item of the data stream. True if the sampling window was processed after
this item. -/
def processItem (model : LossyCountingModel Element) (element : Element) :
    LossyCountingModel Element × Bool :=
  let model := { model with
    histogram := increment model.histogram element
    totalProcessedElements := model.totalProcessedElements + 1 }
  if model.totalProcessedElements % model.windowSize = 0 then
    (model.decreaseAllFrequencies, true)
  else
    (model, false)

/-- The elements behind an iterator that a window takes. -/
def window (size : ℕ) (iterator : ℕ → Element) : List Element :=
  (List.range size).map iterator

/-- Process a whole window from the iterator on. The loop counts in 32 bits, so it does not end
for a larger window. -/
def processWindow (model : LossyCountingModel Element) (iterator : ℕ → Element) :
    Option (LossyCountingModel Element) :=
  if 2 ^ 32 ≤ model.windowSize then
    none
  else
    let model := { model with
      histogram := (window model.windowSize iterator).foldl increment model.histogram
      totalProcessedElements := model.totalProcessedElements + model.windowSize }
    some model.decreaseAllFrequencies

/-- `static_cast<int>`, where it is defined: the value without its fraction fits. -/
def toInt (value : ℚ) : Option ℤ :=
  let whole := if 0 ≤ value then ⌊value⌋ else ⌈value⌉
  if -2 ^ 31 ≤ whole ∧ whole < 2 ^ 31 then some whole else none

def threshold (model : LossyCountingModel Element) : Option ℤ :=
  toInt (model.frequency * model.totalProcessedElements -
    model.error * model.totalProcessedElements)

/-- `el.second >= threshold`, where the `int` is converted to `size_t`. -/
def reaches (threshold : ℤ) (entry : Σ _ : Element, ℕ) : Bool :=
  (threshold % 2 ^ 64).toNat ≤ entry.2

/-- The final histogram, with only the elements whose count is not below fN - eN. -/
def computeOutput (model : LossyCountingModel Element) : Option (List (Element × ℕ)) :=
  model.threshold.map fun threshold =>
    (model.histogram.entries.filter (reaches threshold)).map fun entry => (entry.1, entry.2)

def computeOutputKeys (model : LossyCountingModel Element) : Option (List Element) :=
  model.threshold.map fun threshold =>
    (model.histogram.entries.filter (reaches threshold)).map fun entry => entry.1

def reset (model : LossyCountingModel Element) : LossyCountingModel Element :=
  { model with histogram := ∅, totalProcessedElements := 0 }

/-! ### Runs -/

/-- A call that changes the model. -/
inductive Call (Element : Type)
  | item (element : Element)
  | window (iterator : ℕ → Element)
  | reset

/-- One call, if it returns. -/
def step (model : LossyCountingModel Element) :
    Call Element → Option (LossyCountingModel Element)
  | .item element => some (model.processItem element).1
  | .window iterator => model.processWindow iterator
  | .reset => some model.reset

/-- The calls one after the other, if all return. -/
def run (model : LossyCountingModel Element) (calls : List (Call Element)) :
    Option (LossyCountingModel Element) :=
  calls.foldlM step model

/-- The stream a model has been fed since the last reset, after one more call. -/
def feed (size : ℕ) (stream : List Element) : Call Element → List Element
  | .item element => stream ++ [element]
  | .window iterator => stream ++ window size iterator
  | .reset => []

/-- The stream since the construction or the last reset. -/
def stream (size : ℕ) (calls : List (Call Element)) : List Element :=
  calls.foldl (feed size) []

/-- The entry of an element in the histogram, or 0. -/
def counts (histogram : AList fun _ : Element => ℕ) : Element → ℕ :=
  fun element => (histogram.lookup element).getD 0

/-! ### The histogram counts with sweeps -/

/-- No entry is 0. -/
def Positive (histogram : AList fun _ : Element => ℕ) : Prop :=
  ∀ element, histogram.lookup element ≠ some 0

variable {histogram : AList fun _ : Element => ℕ}

theorem counts_increment (element : Element) :
    counts (increment histogram element) = Sweeps.count (counts histogram) element := by
  funext other
  rw [counts, increment, AList.lookup_insert_eq_ite, Sweeps.count]
  by_cases same : other = element
  · rw [if_pos same, same, Function.update_self]
    rfl
  · rw [if_neg same, Function.update_of_ne same]
    rfl

theorem Positive.increment (positive : Positive histogram) (element : Element) :
    Positive (increment histogram element) := by
  intro other
  rw [LossyCountingModel.increment, AList.lookup_insert_eq_ite]
  by_cases same : other = element
  · rw [if_pos same]
    exact fun zero => Nat.succ_ne_zero _ (Option.some.inj zero)
  · rw [if_neg same]
    exact positive other

theorem decrease_of_pos {frequency : ℕ} (positive : frequency ≠ 0) :
    decrease frequency = if frequency = 1 then none else some (frequency - 1) := by
  rw [decrease, if_neg positive]

/-- Where no entry is 0, erasing the ones and decrementing the others takes one from every
count. -/
theorem counts_decrease (positive : Positive histogram) :
    counts (histogram.filterMapValues decrease) = Sweeps.sweep (counts histogram) := by
  funext element
  rw [counts, AList.lookup_filterMapValues, Sweeps.sweep, counts]
  cases found : histogram.lookup element with
  | none => rfl
  | some frequency =>
    have nonzero : frequency ≠ 0 := fun zero => positive element (zero ▸ found)
    rw [Option.bind_some, decrease_of_pos nonzero]
    by_cases last : frequency = 1
    · rw [if_pos last, last]
      rfl
    · rw [if_neg last]
      rfl

theorem Positive.decrease (positive : Positive histogram) :
    Positive (histogram.filterMapValues decrease) := by
  intro element
  rw [AList.lookup_filterMapValues]
  cases found : histogram.lookup element with
  | none => exact (Option.some_ne_none 0).symm
  | some frequency =>
    have nonzero : frequency ≠ 0 := fun zero => positive element (zero ▸ found)
    rw [Option.bind_some, decrease_of_pos nonzero]
    by_cases last : frequency = 1
    · rw [if_pos last]
      exact (Option.some_ne_none 0).symm
    · rw [if_neg last]
      intro zero
      have left : frequency - 1 = 0 := Option.some.inj zero
      omega

/-! ### The invariant -/

/-- What holds between the model and the stream it has been fed. There were as many sweeps as there
are full windows. -/
structure Counts (model : LossyCountingModel Element) (stream : List Element) : Prop where
  total : model.totalProcessedElements = stream.length
  positive : Positive model.histogram
  bound : Sweeps.Undercounts (counts model.histogram) stream (stream.length / model.windowSize)

variable {model next : LossyCountingModel Element} {fed : List Element}

theorem counts_empty (fresh : model.histogram = ∅) (zero : model.totalProcessedElements = 0) :
    Counts model [] where
  total := zero
  positive element := by
    rw [fresh, AList.lookup_empty]
    exact (Option.some_ne_none 0).symm
  bound := by
    rw [fresh, List.length_nil, Nat.zero_div]
    exact Sweeps.undercounts_zero

/-- A run of the increments of a loop. -/
theorem foldl_increment (elements : List Element) {missed : ℕ} (positive : Positive histogram)
    (bound : Sweeps.Undercounts (counts histogram) fed missed) :
    Positive (elements.foldl increment histogram) ∧
      Sweeps.Undercounts (counts (elements.foldl increment histogram)) (fed ++ elements)
        missed := by
  induction elements generalizing histogram fed with
  | nil =>
    rw [List.append_nil]
    exact ⟨positive, bound⟩
  | cons element rest inductionHypothesis =>
    have counted := bound.count element
    rw [← counts_increment] at counted
    have later := inductionHypothesis (positive.increment element) counted
    rwa [List.append_assoc, List.singleton_append] at later

theorem Counts.processItem (exact : Counts model fed) (element : Element) :
    Counts (model.processItem element).1 (fed ++ [element]) := by
  have counted := exact.bound.count element
  rw [← counts_increment] at counted
  have longer : (fed ++ [element]).length = fed.length + 1 := List.length_append
  unfold LossyCountingModel.processItem
  simp only [exact.total]
  split
  · next full =>
    have swept := counted.sweep
    rw [← counts_decrease (exact.positive.increment element)] at swept
    refine ⟨longer.symm, (exact.positive.increment element).decrease, ?_⟩
    rw [longer]
    -- The window is full, so one more window fits into the stream.
    simp only [decreaseAllFrequencies]
    rw [Nat.succ_div_of_dvd (Nat.dvd_of_mod_eq_zero full)]
    exact swept
  · next partly =>
    refine ⟨longer.symm, exact.positive.increment element, ?_⟩
    rw [longer]
    simp only
    rw [Nat.succ_div_of_not_dvd fun full => partly (Nat.mod_eq_zero_of_dvd full)]
    exact counted

theorem Counts.processWindow (exact : Counts model fed) {iterator : ℕ → Element}
    (sized : 0 < model.windowSize) (returns : model.processWindow iterator = some next) :
    Counts next (fed ++ window model.windowSize iterator) := by
  unfold LossyCountingModel.processWindow at returns
  split at returns
  · cases returns
  · obtain ⟨positive, counted⟩ := foldl_increment (window model.windowSize iterator)
      exact.positive exact.bound
    have swept := counted.sweep
    rw [← counts_decrease positive] at swept
    have longer : (fed ++ window model.windowSize iterator).length =
        fed.length + model.windowSize := by
      rw [List.length_append, window, List.length_map, List.length_range]
    cases returns
    refine ⟨?_, positive.decrease, ?_⟩
    · rw [longer, ← exact.total]
      rfl
    · rw [longer]
      simp only [decreaseAllFrequencies]
      rw [Nat.add_div_right _ sized]
      exact swept

/-- What the constructor fixes. -/
def parameters (model : LossyCountingModel Element) : ℚ × ℚ × ℕ :=
  (model.frequency, model.error, model.windowSize)

theorem parameters_step {call : Call Element} (returns : model.step call = some next) :
    next.parameters = model.parameters := by
  cases call with
  | item element =>
    cases returns
    unfold LossyCountingModel.processItem
    simp only
    split
    · rfl
    · rfl
  | window iterator =>
    rw [step, LossyCountingModel.processWindow] at returns
    split at returns
    · cases returns
    · cases returns
      rfl
  | reset =>
    cases returns
    rfl

/-- Every call returns if the 32 bit counter of a window's loop reaches the window's size. -/
theorem isSome_run (calls : List (Call Element)) (narrow : model.windowSize < 2 ^ 32) :
    (model.run calls).isSome = true := by
  induction calls generalizing model with
  | nil => rfl
  | cons call rest inductionHypothesis =>
    obtain ⟨next, returns⟩ : ∃ next, model.step call = some next := by
      cases call with
      | item | reset => exact ⟨_, rfl⟩
      | window iterator => exact ⟨_, if_neg (Nat.not_le.mpr narrow)⟩
    have size : next.windowSize = model.windowSize :=
      congrArg (fun parameters => parameters.2.2) (parameters_step returns)
    rw [run, List.foldlM_cons, returns, Option.bind_eq_bind, Option.bind_some]
    exact inductionHypothesis (size ▸ narrow)

theorem Counts.step (exact : Counts model fed) {call : Call Element}
    (sized : 0 < model.windowSize) (returns : model.step call = some next) :
    Counts next (feed model.windowSize fed call) := by
  cases call with
  | item element =>
    cases returns
    exact exact.processItem element
  | window iterator => exact exact.processWindow sized returns
  | reset =>
    cases returns
    exact counts_empty rfl rfl

theorem Counts.run (calls : List (Call Element)) (exact : Counts model fed)
    (sized : 0 < model.windowSize) (returns : model.run calls = some next) :
    Counts next (calls.foldl (feed model.windowSize) fed) ∧
      next.parameters = model.parameters := by
  induction calls generalizing model fed with
  | nil =>
    cases returns
    exact ⟨exact, rfl⟩
  | cons call rest inductionHypothesis =>
    rw [LossyCountingModel.run, List.foldlM_cons] at returns
    obtain ⟨after, first, later⟩ := Option.bind_eq_some_iff.mp returns
    have same := parameters_step first
    have size : after.windowSize = model.windowSize :=
      congrArg (fun parameters => parameters.2.2) same
    obtain ⟨kept, parametersKept⟩ :=
      inductionHypothesis (exact.step sized first) (size ▸ sized) later
    rw [size] at kept
    exact ⟨kept, parametersKept.trans same⟩

/-! ### The output -/

theorem toInt_of_lt {value : ℚ} (nonneg : 0 ≤ value) (fits : value < 2 ^ 31) :
    toInt value = some ⌊value⌋ := by
  have below : ⌊value⌋ < 2 ^ 31 := Int.floor_lt.mpr (mod_cast fits)
  have above : 0 ≤ ⌊value⌋ := Int.floor_nonneg.mpr nonneg
  unfold toInt
  simp only [if_pos nonneg]
  exact if_pos ⟨by omega, below⟩

omit [DecidableEq Element] in
/-- The conversion to `size_t` keeps a threshold that is not negative. -/
theorem reaches_iff {threshold : ℤ} (nonneg : 0 ≤ threshold) (fits : threshold < 2 ^ 31)
    (entry : Σ _ : Element, ℕ) : reaches threshold entry = true ↔ threshold ≤ entry.2 := by
  have same : threshold % 2 ^ 64 = threshold := Int.emod_eq_of_lt nonneg (by omega)
  rw [reaches, same, decide_eq_true_iff]
  omega

omit [DecidableEq Element] in
theorem computeOutputKeys_eq :
    model.computeOutputKeys = model.computeOutput.map (List.map Prod.fst) := by
  rw [computeOutputKeys, computeOutput, Option.map_map]
  refine congrArg (Option.map · model.threshold) (funext fun threshold => ?_)
  rw [Function.comp_apply, List.map_map]
  rfl

/-- The output has the entries whose count reaches the threshold. -/
theorem mem_computeOutput_iff {threshold : ℤ} (nonneg : 0 ≤ threshold)
    (fits : threshold < 2 ^ 31) {output : List (Element × ℕ)}
    (found : model.threshold = some threshold) (computed : model.computeOutput = some output)
    (element : Element) :
    element ∈ output.map Prod.fst ↔
      element ∈ model.histogram ∧ threshold ≤ counts model.histogram element := by
  rw [computeOutput, found] at computed
  cases computed
  rw [List.map_map, List.mem_map]
  constructor
  · rintro ⟨⟨other, frequency⟩, member, same⟩
    cases same
    obtain ⟨stored, high⟩ := List.mem_filter.mp member
    have there := AList.mem_lookup_iff.mpr stored
    refine ⟨AList.lookup_isSome.mp (Option.isSome_of_eq_some there), ?_⟩
    rw [counts, Function.comp_apply, there]
    exact (reaches_iff nonneg fits _).mp high
  · rintro ⟨member, high⟩
    obtain ⟨frequency, there⟩ := AList.exists_lookup member
    rw [counts, there] at high
    exact ⟨⟨element, frequency⟩, List.mem_filter.mpr
      ⟨AList.mem_lookup_iff.mp there, (reaches_iff nonneg fits _).mpr high⟩, rfl⟩

theorem mem_of_counts_pos {element : Element} (positive : 0 < counts histogram element) :
    element ∈ histogram := by
  by_contra absent
  rw [counts, AList.lookup_eq_none.mpr absent] at positive
  exact lt_irrefl 0 positive

/-! ### The guarantee of lossy counting -/

/-- What lossy counting promises for a stream, with an error of one window. -/
structure Guarantee (model : LossyCountingModel Element) (frequency : ℚ) (size : ℕ)
    (stream : List Element) : Prop where
  total : model.totalProcessedElements = stream.length
  below : ∀ element, counts model.histogram element ≤ stream.count element
  above : ∀ element,
    stream.count element ≤ counts model.histogram element + stream.length / size
  nonzero : ∀ element, model.histogram.lookup element ≠ some 0
  output : (frequency - 1 / size) * stream.length < 2 ^ 31 →
    ∃ output, model.computeOutput = some output ∧
      model.computeOutputKeys = some (output.map Prod.fst) ∧
      (∀ element, frequency * stream.length ≤ stream.count element →
        0 < frequency * stream.length → element ∈ output.map Prod.fst) ∧
      ∀ element ∈ output.map Prod.fst,
        ⌊(frequency - 1 / size) * stream.length⌋ ≤ (stream.count element : ℤ)

omit [DecidableEq Element] in
theorem windowSize_create (frequency : ℚ) (size : ℕ) :
    (create frequency (1 / size) : LossyCountingModel Element).windowSize = size := by
  rw [create, one_div_one_div, round_natCast, Int.toNat_natCast]

theorem Counts.guarantee {frequency : ℚ} {size : ℕ} (exact : Counts model fed)
    (parameters : model.parameters = (frequency, 1 / (size : ℚ), size))
    (apart : 1 / (size : ℚ) < frequency) : Guarantee model frequency size fed := by
  have frequencyIs : model.frequency = frequency := congrArg Prod.fst parameters
  have errorIs : model.error = 1 / (size : ℚ) := congrArg (fun all => all.2.1) parameters
  have sizeIs : model.windowSize = size := congrArg (fun all => all.2.2) parameters
  have bound := sizeIs ▸ exact.bound
  refine ⟨exact.total, fun element => (bound element).1, fun element => (bound element).2,
    exact.positive, fun fits => ?_⟩
  have nonneg : (0 : ℚ) ≤ (frequency - 1 / size) * fed.length :=
    mul_nonneg (sub_nonneg.mpr apart.le) (Nat.cast_nonneg _)
  have found : model.threshold = some ⌊(frequency - 1 / size) * fed.length⌋ := by
    rw [threshold, frequencyIs, errorIs, exact.total, ← sub_mul]
    exact toInt_of_lt nonneg fits
  have selects := mem_computeOutput_iff (Int.floor_nonneg.mpr nonneg)
    (Int.floor_lt.mpr (mod_cast fits)) found
      (show model.computeOutput = some _ by rw [computeOutput, found]; rfl)
  refine ⟨_, by rw [computeOutput, found]; rfl, ?_, fun element often positive => ?_,
    fun element member => ?_⟩
  · rw [computeOutputKeys_eq, computeOutput, found]
    rfl
  · -- The windows that are full are at most the error's part of the stream.
    have few : ((fed.length / size : ℕ) : ℚ) ≤ 1 / size * fed.length := by
      rw [one_div_mul_eq_div]
      exact Nat.cast_div_le
    obtain ⟨counted, reached⟩ := bound.frequent few apart element often positive
    exact (selects element).mpr ⟨mem_of_counts_pos counted, reached⟩
  · exact bound.rare element ((selects element).mp member).2

/-- Whatever mix of items, windows and resets a model with error 1/w is fed, no count is above the
true one and none is more than one for each full window below it, and the output has every element
that is frequent in the stream and none that is rare. -/
theorem lossy_counting (frequency : ℚ) (size : ℕ) (sized : 0 < size)
    (apart : 1 / (size : ℚ) < frequency) (calls : List (Call Element))
    (model : LossyCountingModel Element)
    (returns : (create frequency (1 / size)).run calls = some model) :
    Guarantee model frequency size (stream size calls) := by
  have sizes : (create frequency (1 / size) : LossyCountingModel Element).windowSize = size :=
    windowSize_create frequency size
  obtain ⟨exact, same⟩ := Counts.run calls (counts_empty rfl rfl) (sized.trans_eq sizes.symm)
    returns
  rw [sizes] at exact
  refine exact.guarantee (same.trans ?_) apart
  rw [parameters, sizes]
  rfl

/-- A reset, items up to the middle of the first window, a window across the border, and one more
item. -/
def mixed : List (Call ℕ) :=
  [.window fun _ => 7, .reset, .item 7, .window fun index => index + 6, .item 7, .item 7]

theorem isSome_run_mixed :
    ((create (3 / 4) (1 / (2 : ℕ))).run mixed).isSome = true :=
  isSome_run mixed (by decide +kernel)

theorem lossy_counting_mixed :
    ∃ model : LossyCountingModel ℕ, (create (3 / 4) (1 / (2 : ℕ))).run mixed = some model ∧
      Guarantee model (3 / 4) 2 [7, 6, 7, 7, 7] :=
  ⟨_, (Option.some_get isSome_run_mixed).symm, lossy_counting (3 / 4) 2 (by decide) (by norm_num)
    mixed _ (Option.some_get isSome_run_mixed).symm⟩

end LossyCountingModel

end Drace
