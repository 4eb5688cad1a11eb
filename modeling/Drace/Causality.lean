/-
This file develops happens-before over a finite history in general terms.

The entries of a history communicate through carriers: an entry leaves its past at
the carriers it puts to and inherits the past of the carriers it takes from. One
entry is directly before a later one when the first puts to a carrier the second
takes from, and happens-before is the transitive closure. A thread is a carrier
its own entries put to and take from, which is program order; a lock is a
carrier that releases put to and acquires take from.

A clock summarises the past of a carrier by one threshold for each thread. The
two halves of what a threshold can mean are kept apart: a view covers a history
when every stamped entry in a carrier's past lies below the threshold, and it is
justified when everything below the threshold is in the past. Each half has a
step rule that names only what the new entry puts and takes.
-/

import Mathlib

namespace Causality

/-- The entries of a history with one more at the end. -/
theorem getElem?_concat_or {Entry : Type} {history : List Entry} {entry found : Entry}
    {position : ℕ}
    (present : (history ++ [entry])[position]? = some found) :
    history[position]? = some found ∨ position = history.length ∧ found = entry := by
  have bound : position < history.length + 1 := by
    simpa using (List.getElem?_eq_some_iff.mp present).1
  rcases Nat.lt_succ_iff_lt_or_eq.mp bound with less | rfl
  · exact Or.inl (by rwa [List.getElem?_append_left less] at present)
  · rw [List.getElem?_concat_length] at present
    exact Or.inr ⟨rfl, (Option.some.inj present).symm⟩

/-- Which carriers an entry leaves its past at, and which it inherits a past from. -/
structure Flow (Entry Carrier : Type) where
  puts : Entry → Carrier → Prop
  takes : Entry → Carrier → Prop

variable {Entry Carrier Thread : Type} (flow : Flow Entry Carrier)

namespace Flow

/-- The first position hands its past to the second one directly. -/
def Edge (history : List Entry) (first second : ℕ) : Prop :=
  first < second ∧ ∃ before after carrier, history[first]? = some before ∧
    history[second]? = some after ∧ flow.puts before carrier ∧ flow.takes after carrier

/-- An edge can be checked at a given carrier. -/
theorem edge_of_carrier {history : List Entry} {first second : ℕ} (carrier : Carrier)
    (less : first < second) (passes : ∃ before ∈ history[first]?, ∃ after ∈ history[second]?,
      flow.puts before carrier ∧ flow.takes after carrier) : flow.Edge history first second := by
  obtain ⟨before, found, after, later, puts, takes⟩ := passes
  exact ⟨less, before, after, carrier, found, later, puts, takes⟩

/-- The transitive closure of the direct edges of a history. -/
def HappensBefore (history : List Entry) : ℕ → ℕ → Prop :=
  Relation.TransGen (flow.Edge history)

/-- The positions a carrier has heard of: the entries that put to it and all before them. -/
def Past (history : List Entry) (carrier : Carrier) : Set ℕ :=
  {position | ∃ last entry, history[last]? = some entry ∧ flow.puts entry carrier ∧
    (position = last ∨ flow.HappensBefore history position last)}

variable {flow} {history rest : List Entry} {entry : Entry} {carrier : Carrier}
  {first second position : ℕ}

/-! ### Happens-before when the history grows -/

theorem HappensBefore.lt (ordered : flow.HappensBefore history first second) : first < second := by
  induction ordered with
  | single edge => exact edge.1
  | tail _ edge inductionHypothesis => exact inductionHypothesis.trans edge.1

theorem edge_append (bound : second < history.length) :
    flow.Edge (history ++ rest) first second ↔ flow.Edge history first second := by
  unfold Edge
  refine and_congr_right fun less => ?_
  rw [List.getElem?_append_left bound, List.getElem?_append_left (less.trans bound)]

/-- Later entries do not change what happens before an earlier one. -/
theorem happensBefore_append (bound : second < history.length) :
    flow.HappensBefore (history ++ rest) first second ↔
      flow.HappensBefore history first second := by
  constructor
  · intro ordered
    induction ordered with
    | single edge => exact .single ((edge_append bound).mp edge)
    | tail _ edge inductionHypothesis =>
      exact (inductionHypothesis (edge.1.trans bound)).tail ((edge_append bound).mp edge)
  · intro ordered
    induction ordered with
    | single edge => exact .single ((edge_append bound).mpr edge)
    | tail _ edge inductionHypothesis =>
      exact (inductionHypothesis (edge.1.trans bound)).tail ((edge_append bound).mpr edge)

theorem mem_past_of_puts (found : history[position]? = some entry)
    (puts : flow.puts entry carrier) :
    position ∈ flow.Past history carrier := ⟨position, entry, found, puts, Or.inl rfl⟩

/-- A carrier that has heard of an entry has heard of all that happens before it. -/
theorem mem_past_of_happensBefore (ordered : flow.HappensBefore history position first)
    (member : first ∈ flow.Past history carrier) : position ∈ flow.Past history carrier := by
  obtain ⟨last, entry, found, puts, rfl | path⟩ := member
  · exact ⟨first, entry, found, puts, Or.inr ordered⟩
  · exact ⟨last, entry, found, puts, Or.inr (ordered.trans path)⟩

/-- Nothing happens before an entry that no edge leads to. -/
theorem not_happensBefore (isolated : ∀ middle, ¬ flow.Edge history middle second) :
    ¬ flow.HappensBefore history first second := by
  intro ordered
  obtain ⟨middle, _, edge⟩ := Relation.TransGen.tail'_iff.mp ordered
  exact isolated middle edge

/-- What happens before the last entry is what the carriers it takes from have heard of. -/
theorem happensBefore_last :
    flow.HappensBefore (history ++ [entry]) position history.length ↔
      ∃ carrier, flow.takes entry carrier ∧ position ∈ flow.Past history carrier := by
  constructor
  · intro ordered
    obtain ⟨middle, path, less, before, after, carrier, found, last, puts, takes⟩ :=
      Relation.TransGen.tail'_iff.mp ordered
    rw [List.getElem?_concat_length] at last
    obtain ⟨rfl⟩ := Option.some.inj last
    rw [List.getElem?_append_left less] at found
    refine ⟨carrier, takes, middle, before, found, puts, ?_⟩
    rcases Relation.reflTransGen_iff_eq_or_transGen.mp path with same | path
    · exact Or.inl same.symm
    · exact Or.inr ((happensBefore_append less).mp path)
  · rintro ⟨carrier, takes, middle, before, found, puts, path⟩
    have less : middle < history.length := (List.getElem?_eq_some_iff.mp found).1
    have edge : flow.Edge (history ++ [entry]) middle history.length :=
      ⟨less, before, entry, carrier, by rw [List.getElem?_append_left less, found],
        List.getElem?_concat_length, puts, takes⟩
    rcases path with rfl | path
    · exact .single edge
    · exact ((happensBefore_append less).mpr path).tail edge

/-- One more entry reaches the carriers it puts to, together with all it has taken. -/
theorem mem_past_append :
    position ∈ flow.Past (history ++ [entry]) carrier ↔
      position ∈ flow.Past history carrier ∨ flow.puts entry carrier ∧
        (position = history.length ∨
          ∃ source, flow.takes entry source ∧ position ∈ flow.Past history source) := by
  constructor
  · rintro ⟨last, final, found, puts, path⟩
    rcases getElem?_concat_or found with old | ⟨rfl, rfl⟩
    · have less : last < history.length := (List.getElem?_eq_some_iff.mp old).1
      exact Or.inl ⟨last, final, old, puts, path.imp_right (happensBefore_append less).mp⟩
    · exact Or.inr ⟨puts, path.imp_right happensBefore_last.mp⟩
  · rintro (⟨last, final, found, puts, path⟩ | ⟨puts, path⟩)
    · have less : last < history.length := (List.getElem?_eq_some_iff.mp found).1
      exact ⟨last, final, by rw [List.getElem?_append_left less, found], puts,
        path.imp_right (happensBefore_append less).mpr⟩
    · exact ⟨history.length, entry, List.getElem?_concat_length, puts,
        path.imp_right happensBefore_last.mpr⟩

theorem lt_length_of_mem_past (member : position ∈ flow.Past history carrier) :
    position < history.length := by
  obtain ⟨last, final, found, _, path⟩ := member
  have bound := (List.getElem?_eq_some_iff.mp found).1
  rcases path with rfl | path
  · exact bound
  · exact path.lt.trans bound

end Flow

/-! ### Clocks as thresholds -/

/-- What the clocks say at one moment: the threads they still speak about, the carriers whose
clock is kept, and the threshold each carrier has for each thread. -/
structure Snapshot (Carrier Thread : Type) where
  live : Thread → Prop
  tracked : Carrier → Prop
  view : Carrier → Thread → ℕ

/-- The position carries the stamp of a thread at a clock value. -/
def Stamped (stamp : Entry → Thread → ℕ → Prop) (history : List Entry) (position : ℕ)
    (thread : Thread) (clock : ℕ) : Prop :=
  ∃ entry, history[position]? = some entry ∧ stamp entry thread clock

variable (stamp : Entry → Thread → ℕ → Prop)

/-- Everything in the past of a kept clock is below its threshold. -/
def Covers (history : List Entry) (snapshot : Snapshot Carrier Thread) : Prop :=
  ∀ carrier position thread clock, snapshot.tracked carrier → snapshot.live thread →
    Stamped stamp history position thread clock → position ∈ flow.Past history carrier →
    clock < snapshot.view carrier thread

/-- Everything below the threshold of a kept clock is in its past. -/
def Justified (history : List Entry) (snapshot : Snapshot Carrier Thread) : Prop :=
  ∀ carrier position thread clock, snapshot.tracked carrier → snapshot.live thread →
    Stamped stamp history position thread clock → clock < snapshot.view carrier thread →
    position ∈ flow.Past history carrier

variable {flow stamp} {history : List Entry} {entry : Entry}
  {snapshot next : Snapshot Carrier Thread} {position : ℕ} {thread : Thread} {clock : ℕ}

theorem stamped_append :
    Stamped stamp (history ++ [entry]) position thread clock ↔
      Stamped stamp history position thread clock ∨
        position = history.length ∧ stamp entry thread clock := by
  constructor
  · rintro ⟨stamped, found, stampedWith⟩
    rcases getElem?_concat_or found with old | ⟨rfl, rfl⟩
    · exact Or.inl ⟨stamped, old, stampedWith⟩
    · exact Or.inr ⟨rfl, stampedWith⟩
  · rintro (⟨stamped, found, stampedWith⟩ | ⟨rfl, stampedWith⟩)
    · have less := (List.getElem?_eq_some_iff.mp found).1
      exact ⟨stamped, by rw [List.getElem?_append_left less, found], stampedWith⟩
    · exact ⟨entry, List.getElem?_concat_length, stampedWith⟩

theorem Stamped.lt_length (stamped : Stamped stamp history position thread clock) :
    position < history.length := by
  obtain ⟨_, found, _⟩ := stamped
  exact (List.getElem?_eq_some_iff.mp found).1

/-- Where the thresholds both cover and are justified, they tell exactly what a carrier has heard
of. -/
theorem Covers.lt_view_iff {carrier : Carrier} (covers : Covers flow stamp history snapshot)
    (justified : Justified flow stamp history snapshot) (tracked : snapshot.tracked carrier)
    (live : snapshot.live thread) (stamped : Stamped stamp history position thread clock) :
    clock < snapshot.view carrier thread ↔ position ∈ flow.Past history carrier :=
  ⟨justified carrier position thread clock tracked live stamped,
    covers carrier position thread clock tracked live stamped⟩

/-- What a call does to the sets of live threads and kept clocks: neither a thread nor a clock
comes to life with a past of its own. -/
structure Extends (flow : Flow Entry Carrier) (stamp : Entry → Thread → ℕ → Prop)
    (history : List Entry) (snapshot next : Snapshot Carrier Thread) : Prop where
  live : ∀ thread, next.live thread →
    snapshot.live thread ∨ ∀ position clock, ¬ Stamped stamp history position thread clock
  tracked : ∀ carrier, next.tracked carrier →
    snapshot.tracked carrier ∨ ∀ position, position ∉ flow.Past history carrier

/-- The lower bounds a call owes its clocks: no threshold drops, a carrier it puts to takes over
the thresholds of the carriers it takes from, and the call itself counts as past. -/
structure Raises (flow : Flow Entry Carrier) (stamp : Entry → Thread → ℕ → Prop) (entry : Entry)
    (snapshot next : Snapshot Carrier Thread) : Prop where
  keeps : ∀ carrier thread, next.tracked carrier → next.live thread → snapshot.tracked carrier →
    snapshot.live thread → snapshot.view carrier thread ≤ next.view carrier thread
  takesOver : ∀ carrier source thread, next.tracked carrier → next.live thread →
    snapshot.live thread → flow.puts entry carrier → flow.takes entry source →
    snapshot.tracked source ∧ snapshot.view source thread ≤ next.view carrier thread
  counts : ∀ carrier thread clock, next.tracked carrier → next.live thread →
    flow.puts entry carrier → stamp entry thread clock → clock < next.view carrier thread

/-- The upper bounds a call owes its clocks: a threshold only rises to that of a carrier the call
takes from, and counts the call itself only at the carriers it puts to. A thread's own carrier
is exempt for its own entries, since it has heard of all of them. -/
structure Limits (flow : Flow Entry Carrier) (stamp : Entry → Thread → ℕ → Prop)
    (home : Thread → Carrier) (entry : Entry) (snapshot next : Snapshot Carrier Thread) :
    Prop where
  inherits : ∀ carrier thread clock, next.tracked carrier → next.live thread →
    snapshot.live thread → carrier ≠ home thread → clock < next.view carrier thread →
    snapshot.tracked carrier ∧ clock < snapshot.view carrier thread ∨
      flow.puts entry carrier ∧ ∃ source, flow.takes entry source ∧
        (source = home thread ∨ snapshot.tracked source ∧ clock < snapshot.view source thread)
  counts : ∀ carrier thread clock, next.tracked carrier → next.live thread →
    stamp entry thread clock → clock < next.view carrier thread → flow.puts entry carrier

theorem covers_nil : Covers flow stamp [] snapshot := by
  intro carrier position thread clock _ _ stamped _
  exact absurd stamped.lt_length (Nat.not_lt_zero _)

theorem justified_nil : Justified flow stamp [] snapshot := by
  intro carrier position thread clock _ _ stamped _
  exact absurd stamped.lt_length (Nat.not_lt_zero _)

/-- The step rule for covering. -/
theorem Covers.append (covers : Covers flow stamp history snapshot)
    (extension : Extends flow stamp history snapshot next)
    (raises : Raises flow stamp entry snapshot next) :
    Covers flow stamp (history ++ [entry]) next := by
  intro carrier position thread clock tracked live stamped member
  rcases stamped_append.mp stamped with old | ⟨rfl, new⟩
  · have wasLive : snapshot.live thread :=
      (extension.live thread live).resolve_right fun fresh => fresh position clock old
    rcases Flow.mem_past_append.mp member with known | ⟨puts, rfl | ⟨source, takes, known⟩⟩
    · have wasTracked : snapshot.tracked carrier :=
        (extension.tracked carrier tracked).resolve_right fun empty => empty position known
      exact (covers carrier position thread clock wasTracked wasLive old known).trans_le
        (raises.keeps carrier thread tracked live wasTracked wasLive)
    · exact absurd old.lt_length (lt_irrefl _)
    · obtain ⟨sourceTracked, below⟩ :=
        raises.takesOver carrier source thread tracked live wasLive puts takes
      exact (covers source position thread clock sourceTracked wasLive old known).trans_le below
  · rcases Flow.mem_past_append.mp member with known | ⟨puts, _⟩
    · exact absurd (Flow.lt_length_of_mem_past known) (lt_irrefl _)
    · exact raises.counts carrier thread clock tracked live puts new

/-- The step rule for justification, where every stamped entry puts to its thread's own
carrier. -/
theorem Justified.append {home : Thread → Carrier}
    (own : ∀ entry thread clock, stamp entry thread clock → flow.puts entry (home thread))
    (justified : Justified flow stamp history snapshot)
    (extension : Extends flow stamp history snapshot next)
    (limits : Limits flow stamp home entry snapshot next) :
    Justified flow stamp (history ++ [entry]) next := by
  have atHome : ∀ position thread clock, Stamped stamp history position thread clock →
      position ∈ flow.Past history (home thread) := by
    rintro position thread clock ⟨stamped, found, stampedWith⟩
    exact Flow.mem_past_of_puts found (own _ _ _ stampedWith)
  intro carrier position thread clock tracked live stamped below
  rw [Flow.mem_past_append]
  rcases stamped_append.mp stamped with old | ⟨rfl, new⟩
  · have wasLive : snapshot.live thread :=
      (extension.live thread live).resolve_right fun fresh => fresh position clock old
    by_cases same : carrier = home thread
    · exact Or.inl (same ▸ atHome position thread clock old)
    rcases limits.inherits carrier thread clock tracked live wasLive same below with
      ⟨wasTracked, wasBelow⟩ | ⟨puts, source, takes, rfl | ⟨sourceTracked, sourceBelow⟩⟩
    · exact Or.inl (justified carrier position thread clock wasTracked wasLive old wasBelow)
    · exact Or.inr ⟨puts, Or.inr ⟨_, takes, atHome position thread clock old⟩⟩
    · exact Or.inr ⟨puts, Or.inr ⟨source, takes,
        justified source position thread clock sourceTracked wasLive old sourceBelow⟩⟩
  · exact Or.inr ⟨limits.counts carrier thread clock tracked live new below, Or.inl rfl⟩

end Causality
