/-
This file says when a translation keeps happens-before.

The entries of a history are translated one after the other, each into a list of calls,
which may be empty. The calls of an entry have to lead what the entry takes from a
carrier on to the carriers it puts to, through as many calls as it needs. Then for
entries that are translated into one call, a call happens before another one if the
entry happens before the other one. The calls may draw further edges.
-/

import Drace.Causality

namespace Causality

namespace Flow

variable {Entry Call Carrier Channel : Type} {flow : Flow Entry Carrier}
  {lower : Flow Call Channel} {history : List Entry} {calls further : List Call} {call : Call}
  {source middle target : Channel} {position : ℕ}

/-! ### Leading the past on -/

/-- What a carrier has heard of, it has heard of later. -/
theorem mem_past_extend (member : position ∈ lower.Past calls target) :
    position ∈ lower.Past (calls ++ further) target := by
  induction further using List.reverseRecOn with
  | nil => rwa [List.append_nil]
  | append_singleton further call inductionHypothesis =>
    rw [← List.append_assoc]
    exact mem_past_append.mpr (Or.inl inductionHypothesis)

/-- The calls lead what one carrier has heard of on to another one. -/
def Leads (lower : Flow Call Channel) (calls : List Call) (source target : Channel) : Prop :=
  ∀ earlier position, position ∈ lower.Past earlier source →
    position ∈ lower.Past (earlier ++ calls) target

namespace Leads

theorem refl : lower.Leads calls source source := fun _ _ member => mem_past_extend member

theorem trans (first : lower.Leads calls source middle)
    (second : lower.Leads further middle target) :
    lower.Leads (calls ++ further) source target := by
  intro earlier position member
  rw [← List.append_assoc]
  exact second _ position (first earlier position member)

/-- One of the calls takes from the one carrier and puts to the other one. -/
theorem through (member : call ∈ calls) (takes : lower.takes call source)
    (puts : lower.puts call target) : lower.Leads calls source target := by
  intro earlier position known
  obtain ⟨front, rest, rfl⟩ := List.append_of_mem member
  have before : position ∈ lower.Past (earlier ++ front) source := mem_past_extend known
  have here : position ∈ lower.Past (earlier ++ front ++ [call]) target :=
    mem_past_append.mpr (Or.inr ⟨puts, Or.inr ⟨source, takes, before⟩⟩)
  have after : position ∈ lower.Past (earlier ++ front ++ [call] ++ rest) target :=
    mem_past_extend here
  rwa [List.append_assoc, List.append_assoc, List.singleton_append] at after

end Leads

/-! ### Translations -/

/-- The calls of an entry lead what it takes on to where it puts it. -/
def Translates (flow : Flow Entry Carrier) (lower : Flow Call Channel)
    (translate : Entry → List Call) (image : Carrier → Channel) (entry : Entry) : Prop :=
  ∀ source target, flow.takes entry source → flow.puts entry target →
    lower.Leads (translate entry) (image source) (image target)

/-- The entry is translated into one call, which takes and puts what the entry does. -/
structure KeptAs (flow : Flow Entry Carrier) (lower : Flow Call Channel)
    (translate : Entry → List Call) (image : Carrier → Channel) (entry : Entry) (call : Call) :
    Prop where
  single : translate entry = [call]
  puts : ∀ carrier, flow.puts entry carrier → lower.puts call (image carrier)
  takes : ∀ carrier, flow.takes entry carrier → lower.takes call (image carrier)

/-- What an entry takes is led on through its one call. -/
theorem KeptAs.translates {translate : Entry → List Call} {image : Carrier → Channel}
    {entry : Entry} (kept : flow.KeptAs lower translate image entry call) :
    flow.Translates lower translate image entry := by
  intro source target takes puts
  rw [kept.single]
  exact .through (List.mem_singleton_self call) (kept.takes source takes) (kept.puts target puts)

/-- How many calls come before those of an entry. -/
def offset (translate : Entry → List Call) (history : List Entry) (position : ℕ) : ℕ :=
  ((history.take position).flatMap translate).length

variable {translate : Entry → List Call} {image : Carrier → Channel} {entry last : Entry}
  {carrier : Carrier} {first second : ℕ}

theorem offset_append (bound : position ≤ history.length) (rest : List Entry) :
    offset translate (history ++ rest) position = offset translate history position := by
  rw [offset, List.take_append_of_le_length bound, offset]

/-- The one call of an entry is where the calls of the entries before it end. -/
theorem getElem?_translated (found : history[position]? = some entry)
    (single : translate entry = [call]) :
    (history.flatMap translate)[offset translate history position]? = some call := by
  obtain ⟨bound, rfl⟩ := List.getElem?_eq_some_iff.mp found
  have parts : history.flatMap translate = (history.take position).flatMap translate ++
      (call :: (history.drop (position + 1)).flatMap translate) := by
    rw [← List.singleton_append, ← single, ← List.flatMap_cons, ← List.flatMap_append,
      List.cons_getElem_drop_succ, List.take_append_drop]
  rw [parts, offset, List.getElem?_append_right le_rfl, Nat.sub_self]
  rfl

/-- A carrier has heard of the call of every entry that it has heard of. -/
theorem mem_past_translated (translates : ∀ entry ∈ history,
      flow.Translates lower translate image entry)
    (found : history[position]? = some entry)
    (kept : flow.KeptAs lower translate image entry call)
    (member : position ∈ flow.Past history carrier) :
    offset translate history position ∈ lower.Past (history.flatMap translate) (image carrier) := by
  induction history using List.reverseRecOn generalizing carrier with
  | nil => cases found
  | append_singleton history last inductionHypothesis =>
    obtain ⟨before, here⟩ := List.forall_mem_append.mp translates
    have leads := here last (List.mem_singleton_self last)
    -- what was heard of before is known from the shorter history
    have earlier : ∀ carrier, position ∈ flow.Past history carrier →
        offset translate (history ++ [last]) position ∈
          lower.Past (history.flatMap translate) (image carrier) := by
      intro carrier old
      have bound := lt_length_of_mem_past old
      rw [List.getElem?_append_left bound] at found
      rw [offset_append bound.le]
      exact inductionHypothesis before found old
    rw [List.flatMap_append, List.flatMap_singleton]
    rcases mem_past_append.mp member with old | ⟨puts, rfl | ⟨taken, takes, old⟩⟩
    · exact mem_past_extend (earlier carrier old)
    · rw [List.getElem?_concat_length] at found
      obtain rfl := Option.some.inj found
      rw [kept.single, offset, List.take_left]
      exact mem_past_of_puts List.getElem?_concat_length (kept.puts carrier puts)
    · exact leads taken carrier takes puts _ _ (earlier taken old)

/-- Calls are ordered if the entries they stand for are. -/
theorem happensBefore_translated (translates : ∀ entry ∈ history,
      flow.Translates lower translate image entry)
    (foundFirst : history[first]? = some entry) (foundSecond : history[second]? = some last)
    {other : Call} (keptFirst : flow.KeptAs lower translate image entry call)
    (keptSecond : flow.KeptAs lower translate image last other)
    (ordered : flow.HappensBefore history first second) :
    lower.HappensBefore (history.flatMap translate) (offset translate history first)
      (offset translate history second) := by
  obtain ⟨front, rest, rfl, rfl⟩ : ∃ front rest, history = front ++ [last] ++ rest ∧
      front.length = second := by
    obtain ⟨bound, rfl⟩ := List.getElem?_eq_some_iff.mp foundSecond
    refine ⟨history.take second, history.drop (second + 1), ?_, List.length_take_of_le bound.le⟩
    rw [List.append_assoc, List.singleton_append, List.cons_getElem_drop_succ,
      List.take_append_drop]
  have inside : front.length < (front ++ [last]).length := by simp
  -- the second entry is the last one of the history up to it
  have less := ordered.lt
  obtain ⟨carrier, takes, heard⟩ :=
    happensBefore_last.mp ((happensBefore_append inside).mp ordered)
  rw [List.append_assoc, List.getElem?_append_left less] at foundFirst
  have known :
      offset translate front first ∈ lower.Past (front.flatMap translate) (image carrier) :=
    mem_past_translated (fun entry member => translates entry (by simp [member])) foundFirst
      keptFirst heard
  have reached : lower.HappensBefore (front.flatMap translate ++ [other])
      (offset translate front first) (front.flatMap translate).length :=
    happensBefore_last.mpr ⟨image carrier, keptSecond.takes carrier takes, known⟩
  rw [List.append_assoc, offset_append less.le, offset_append le_rfl, offset, offset,
    List.take_length, List.flatMap_append, List.flatMap_append, List.flatMap_singleton,
    keptSecond.single, ← List.append_assoc]
  exact (happensBefore_append (by simp)).mpr reached

end Flow

end Causality
