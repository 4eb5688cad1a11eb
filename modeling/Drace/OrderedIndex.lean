/-
This file gives finite maps kept in descending order of their keys, with the
lower bound search of an ordered container.

Insertion keeps a value that is already there, as `emplace` of a standard map
does. With the keys in descending order, the lower bound of a key is the entry
with the largest key that does not exceed it. The order is part of the type, so
every lemma about the search holds of every index.
-/

import Mathlib

/-- A finite map with its keys in descending order. -/
structure OrderedIndex (Key Value : Type) [LinearOrder Key] where
  entries : List (Key × Value)
  descending : entries.Pairwise fun first second => second.1 < first.1

namespace OrderedIndex

variable {Key Value : Type} [LinearOrder Key]

/-- The entries after an insertion, which does nothing if the key is there. -/
def emplaceEntry (key : Key) (value : Value) : List (Key × Value) → List (Key × Value)
  | [] => [(key, value)]
  | entry :: rest =>
    if key < entry.1 then entry :: emplaceEntry key value rest
    else if entry.1 = key then entry :: rest
    else (key, value) :: entry :: rest

variable {key other : Key} {value : Value} {entries : List (Key × Value)}

theorem mem_emplaceEntry {entry : Key × Value} (member : entry ∈ emplaceEntry key value entries) :
    entry = (key, value) ∨ entry ∈ entries := by
  induction entries with
  | nil => exact Or.inl (List.mem_singleton.mp member)
  | cons head rest inductionHypothesis =>
    unfold emplaceEntry at member
    split at member
    · rcases List.mem_cons.mp member with rfl | later
      · exact Or.inr List.mem_cons_self
      · exact (inductionHypothesis later).imp_right (List.mem_cons_of_mem _)
    · split at member
      · exact Or.inr member
      · exact (List.mem_cons.mp member).imp_right id

theorem descending_emplaceEntry
    (descending : entries.Pairwise fun first second => second.1 < first.1) :
    (emplaceEntry key value entries).Pairwise fun first second => second.1 < first.1 := by
  induction entries with
  | nil => exact List.pairwise_singleton _ _
  | cons head rest inductionHypothesis =>
    obtain ⟨above, ordered⟩ := List.pairwise_cons.mp descending
    unfold emplaceEntry
    split
    · next below =>
      refine List.pairwise_cons.mpr ⟨fun entry member => ?_, inductionHypothesis ordered⟩
      rcases mem_emplaceEntry member with rfl | earlier
      · exact below
      · exact above entry earlier
    · next notBelow =>
      split
      · exact descending
      · next differs =>
        have headBelow : head.1 < key := lt_of_le_of_ne (not_lt.mp notBelow) differs
        refine List.pairwise_cons.mpr ⟨fun entry member => ?_, descending⟩
        rcases List.mem_cons.mp member with rfl | later
        · exact headBelow
        · exact (above entry later).trans headBelow

/-- The index without entries. -/
def empty : OrderedIndex Key Value := ⟨[], List.Pairwise.nil⟩

/-- Insert a value under a key that is not there yet. -/
def emplace (index : OrderedIndex Key Value) (key : Key) (value : Value) :
    OrderedIndex Key Value :=
  ⟨emplaceEntry key value index.entries, descending_emplaceEntry index.descending⟩

/-- The entry of the largest key that is at most the given one. -/
def lowerBound (index : OrderedIndex Key Value) (key : Key) : Option (Key × Value) :=
  index.entries.find? fun entry => entry.1 ≤ key

/-- The value stored under a key. -/
def Holds (index : OrderedIndex Key Value) (key : Key) (value : Value) : Prop :=
  (key, value) ∈ index.entries

variable {index : OrderedIndex Key Value}

@[simp]
theorem not_holds_empty : ¬ (empty : OrderedIndex Key Value).Holds key value :=
  List.not_mem_nil

/-- Each key has one value. -/
theorem Holds.unique {first second : Value} (holds : index.Holds key first)
    (also : index.Holds key second) : first = second := by
  obtain ⟨entries, descending⟩ := index
  change (key, first) ∈ entries at holds
  change (key, second) ∈ entries at also
  induction entries with
  | nil => cases holds
  | cons head rest inductionHypothesis =>
    obtain ⟨above, ordered⟩ := List.pairwise_cons.mp descending
    rcases List.mem_cons.mp holds with rfl | inRest
    · rcases List.mem_cons.mp also with same | alsoInRest
      · exact (congrArg Prod.snd same).symm
      · exact (lt_irrefl key (above _ alsoInRest)).elim
    · rcases List.mem_cons.mp also with rfl | alsoInRest
      · exact (lt_irrefl key (above _ inRest)).elim
      · exact inductionHypothesis ordered inRest alsoInRest

/-- An insertion adds its entry if the key is new, and changes nothing else. -/
theorem holds_emplace {inserted : Value} :
    (index.emplace key inserted).Holds other value ↔ index.Holds other value ∨
      other = key ∧ value = inserted ∧ ∀ earlier, ¬ index.Holds key earlier := by
  obtain ⟨entries, descending⟩ := index
  change (other, value) ∈ emplaceEntry key inserted entries ↔ (other, value) ∈ entries ∨
    other = key ∧ value = inserted ∧ ∀ earlier, (key, earlier) ∉ entries
  induction entries with
  | nil => simp [emplaceEntry]
  | cons head rest inductionHypothesis =>
    obtain ⟨above, ordered⟩ := List.pairwise_cons.mp descending
    unfold emplaceEntry
    split
    · next below =>
      have notHead (earlier : Value) : (key, earlier) ≠ head :=
        fun same => absurd (congrArg Prod.fst same ▸ below) (lt_irrefl _)
      simp only [List.mem_cons, inductionHypothesis ordered, notHead, false_or, or_assoc]
    · next notBelow =>
      split
      · next same =>
        subst same
        have present : (head.1, head.2) ∈ head :: rest := List.mem_cons_self
        exact ⟨Or.inl, fun either => either.elim id fun absent => absurd present (absent.2.2 _)⟩
      · next differs =>
        have headBelow : head.1 < key := lt_of_le_of_ne (not_lt.mp notBelow) differs
        have absent (earlier : Value) : (key, earlier) ∉ head :: rest := by
          intro member
          rcases List.mem_cons.mp member with rfl | later
          · exact lt_irrefl _ headBelow
          · exact lt_irrefl _ ((above _ later).trans headBelow)
        rw [List.mem_cons, Prod.mk.injEq, or_comm]
        exact or_congr_right ⟨fun new => ⟨new.1, new.2, absent⟩, fun new => ⟨new.1, new.2.1⟩⟩

/-- The lower bound is the entry with the largest key that is not above the given one. -/
theorem lowerBound_eq_some_iff {bound : Key} : index.lowerBound bound = some (key, value) ↔
    index.Holds key value ∧ key ≤ bound ∧
      ∀ later found, index.Holds later found → later ≤ bound → later ≤ key := by
  obtain ⟨entries, descending⟩ := index
  change entries.find? (fun entry => entry.1 ≤ bound) = some (key, value) ↔
    (key, value) ∈ entries ∧ key ≤ bound ∧
      ∀ later found, (later, found) ∈ entries → later ≤ bound → later ≤ key
  induction entries with
  | nil => simp
  | cons head rest inductionHypothesis =>
    obtain ⟨above, ordered⟩ := List.pairwise_cons.mp descending
    by_cases reached : head.1 ≤ bound
    · rw [List.find?_cons_of_pos (by simpa using reached), Option.some.injEq]
      constructor
      · rintro rfl
        refine ⟨List.mem_cons_self, reached, fun later found member _ => ?_⟩
        rcases List.mem_cons.mp member with same | member
        · exact (congrArg Prod.fst same).le
        · exact (above _ member).le
      · rintro ⟨member, _, largest⟩
        rcases List.mem_cons.mp member with same | member
        · exact same.symm
        · exact absurd (above _ member)
            (not_lt.mpr (largest head.1 head.2 List.mem_cons_self reached))
    · rw [List.find?_cons_of_neg (by simpa using reached), inductionHypothesis ordered]
      constructor
      · rintro ⟨member, below, largest⟩
        refine ⟨List.mem_cons_of_mem _ member, below, fun later found other atMost => ?_⟩
        rcases List.mem_cons.mp other with rfl | other
        · exact absurd atMost reached
        · exact largest later found other atMost
      · rintro ⟨member, below, largest⟩
        rcases List.mem_cons.mp member with rfl | member
        · exact absurd below reached
        · exact ⟨member, below, fun later found other =>
            largest later found (List.mem_cons_of_mem _ other)⟩

theorem lowerBound_eq_none_iff {bound : Key} : index.lowerBound bound = none ↔
    ∀ key value, index.Holds key value → bound < key := by
  rw [lowerBound, List.find?_eq_none]
  exact ⟨fun none key value holds => by simpa using none _ holds,
    fun all entry member => by simpa using all entry.1 entry.2 member⟩

end OrderedIndex
