/-
This file models the backtracking matcher of ECMAScript regular expressions.

A node takes a state to the states it can end in, in the order in which the matcher
tries them; the whole input matches if one of them has nothing left. Without
assertions, lookaheads and back references a node accepts the regular language it
denotes. With the assertions that the input begins or ends here, what is accepted can
be cut down to what no repetition reads more than its least number of times, since
nothing that was empty gains a letter.
-/

import Mathlib

namespace Regex

/-- A regular expression over letters. -/
inductive Node (Letter : Type)
  | empty
  | letter (accepts : Letter → Bool)
  | sequence (first second : Node Letter)
  | choice (first second : Node Letter)
  /-- The groups in the body are those from the first one on and before the end. -/
  | repeated (least : ℕ) (most : Option ℕ) (greedy : Bool) (firstGroup endGroup : ℕ)
      (body : Node Letter)
  | group (index : ℕ) (body : Node Letter)
  | backReference (index : ℕ)
  | start
  | finish
  | wordBoundary (isWord : Letter → Bool) (negated : Bool)
  | lookahead (negated : Bool) (body : Node Letter)

/-- The input before the current place, last letter first, the input from there on, and
what the groups captured. -/
structure State (Letter : Type) where
  before : List Letter
  rest : List Letter
  captures : ℕ → Option (List Letter) := fun _ => none

variable {Letter : Type}

namespace State

/-- Step over a text the rest begins with. -/
def advance (state : State Letter) (text : List Letter) : State Letter :=
  { state with
    before := text.reverse ++ state.before
    rest := state.rest.drop text.length }

/-- Undefine the groups from the first one on and before the end. -/
def forget (state : State Letter) (firstGroup endGroup : ℕ) : State Letter :=
  { state with captures := fun index =>
      if firstGroup ≤ index ∧ index < endGroup then none else state.captures index }

/-- Capture what was read since an earlier state. -/
def capture (state earlier : State Letter) (index : ℕ) : State Letter :=
  { state with captures := fun other =>
      if other = index then some (earlier.rest.take (earlier.rest.length - state.rest.length))
      else state.captures other }

@[simp] theorem forget_before (state : State Letter) (firstGroup endGroup : ℕ) :
    (state.forget firstGroup endGroup).before = state.before := rfl

@[simp] theorem forget_rest (state : State Letter) (firstGroup endGroup : ℕ) :
    (state.forget firstGroup endGroup).rest = state.rest := rfl

@[simp] theorem capture_before (state earlier : State Letter) (index : ℕ) :
    (state.capture earlier index).before = state.before := rfl

@[simp] theorem capture_rest (state earlier : State Letter) (index : ℕ) :
    (state.capture earlier index).rest = state.rest := rfl

/-- The text lies between the two states. -/
structure Reads (state : State Letter) (text : List Letter) (next : State Letter) : Prop where
  rest : state.rest = text ++ next.rest
  before : next.before = text.reverse ++ state.before

variable {state middle next : State Letter} {text other : List Letter}

theorem Reads.nothing (rest : next.rest = state.rest) (before : next.before = state.before) :
    state.Reads [] next where
  rest := rest.symm
  before := before

theorem reads_self (state : State Letter) : ∃ text, state.Reads text state :=
  ⟨[], .nothing rfl rfl⟩

theorem Reads.append (first : state.Reads text middle) (second : middle.Reads other next) :
    state.Reads (text ++ other) next where
  rest := by rw [first.rest, second.rest, List.append_assoc]
  before := by rw [second.before, first.before, List.reverse_append, List.append_assoc]

theorem reads_advance (begins : text <+: state.rest) : state.Reads text (state.advance text) := by
  obtain ⟨rest, same⟩ := begins
  refine ⟨?_, rfl⟩
  simp only [advance, ← same, List.drop_left]

theorem Reads.length_rest (reads : state.Reads text next) :
    state.rest.length = text.length + next.rest.length := by
  rw [reads.rest, List.length_append]

end State

/-- The states after between `least` and `most` iterations of a step. An iteration that may
be left out has to read something. -/
def iterations (step : State Letter → List (State Letter)) (greedy : Bool) :
    ℕ → ℕ → Option ℕ → State Letter → List (State Letter)
  | 0, least, _, state => if least = 0 then [state] else []
  | fuel + 1, least, most, state =>
    if most = some 0 then [state]
    else
      let more := (step state).flatMap fun next =>
        if least = 0 ∧ next.rest.length = state.rest.length then []
        else iterations step greedy fuel (least - 1) (most.map (· - 1)) next
      if least ≠ 0 then more
      else if greedy then more ++ [state]
      else state :: more

namespace Node

/-- The states a node can end in, those the matcher tries first at the front. -/
def run [DecidableEq Letter] : Node Letter → State Letter → List (State Letter)
  | .empty, state => [state]
  | .letter accepts, state =>
    match state.rest with
    | [] => []
    | head :: _ => if accepts head then [state.advance [head]] else []
  | .sequence first second, state => (first.run state).flatMap fun middle => second.run middle
  | .choice first second, state => first.run state ++ second.run state
  | .repeated least most greedy firstGroup endGroup body, state =>
    iterations (fun state => body.run (state.forget firstGroup endGroup)) greedy
      (least + state.rest.length) least most state
  | .group index body, state => (body.run state).map fun next => next.capture state index
  | .backReference index, state =>
    match state.captures index with
    | none => [state]
    | some text => if text <+: state.rest then [state.advance text] else []
  | .start, state => if state.before = [] then [state] else []
  | .finish, state => if state.rest = [] then [state] else []
  | .wordBoundary isWord negated, state =>
    if (state.before.head?.any isWord != state.rest.head?.any isWord) != negated then [state]
    else []
  | .lookahead negated body, state =>
    match negated, body.run state with
    | false, next :: _ => [{ state with captures := next.captures }]
    | true, [] => [state]
    | _, _ => []

/-- The node matches the whole input. -/
def accepts [DecidableEq Letter] (node : Node Letter) (text : List Letter) : Bool :=
  (node.run { before := [], rest := text }).any fun next => next.rest.isEmpty

end Node

/-! ### What one step of the matcher gives -/

/-- The states after one letter. -/
theorem Node.mem_run_letter [DecidableEq Letter] {accepts : Letter → Bool}
    {state next : State Letter} :
    next ∈ (Node.letter accepts).run state ↔
      ∃ head rest, state.rest = head :: rest ∧ accepts head ∧ next = state.advance [head] := by
  rw [run]
  cases same : state.rest with
  | nil => simp
  | cons head rest =>
    simp only [List.cons.injEq]
    split <;> simp_all

/-- The states of a repetition: none more of it, where none is needed, or an iteration and
what comes after it. -/
theorem mem_iterations_succ {step : State Letter → List (State Letter)} {greedy : Bool}
    {fuel least : ℕ} {most : Option ℕ} {state next : State Letter} :
    next ∈ iterations step greedy (fuel + 1) least most state ↔
      (least = 0 ∨ most = some 0) ∧ next = state ∨
      most ≠ some 0 ∧ ∃ middle ∈ step state,
        ¬(least = 0 ∧ middle.rest.length = state.rest.length) ∧
        next ∈ iterations step greedy fuel (least - 1) (most.map (· - 1)) middle := by
  rw [iterations]
  by_cases none : most = some 0
  · simp [none]
  · simp only [none, if_false, or_false, ne_eq, not_false_eq_true, true_and]
    by_cases optional : least = 0
    · cases greedy <;> simp [optional, or_comm]
    · simp [optional]

/-! ### A node reads what it leaves behind -/

/-- If every iteration reads a text, so do several of them. -/
theorem iterations_reads {step : State Letter → List (State Letter)} {greedy : Bool}
    (reads : ∀ state, ∀ next ∈ step state, ∃ text, state.Reads text next) (fuel least : ℕ)
    (most : Option ℕ) (state : State Letter) :
    ∀ next ∈ iterations step greedy fuel least most state, ∃ text, state.Reads text next := by
  induction fuel generalizing least most state with
  | zero =>
    intro next member
    rw [iterations] at member
    split at member
    · rw [List.mem_singleton.mp member]
      exact state.reads_self
    · exact absurd member List.not_mem_nil
  | succ fuel inductionHypothesis =>
    intro next member
    obtain ⟨-, rfl⟩ | ⟨-, middle, first, -, later⟩ := mem_iterations_succ.mp member
    · exact next.reads_self
    · obtain ⟨text, readsFirst⟩ := reads _ _ first
      obtain ⟨other, readsLater⟩ := inductionHypothesis _ _ _ _ later
      exact ⟨text ++ other, readsFirst.append readsLater⟩

/-- A node ends further on in the input. -/
theorem Node.run_reads [DecidableEq Letter] (node : Node Letter) (state : State Letter) :
    ∀ next ∈ node.run state, ∃ text, state.Reads text next := by
  induction node generalizing state with
  | empty =>
    intro next member
    rw [List.mem_singleton.mp member]
    exact state.reads_self
  | letter accepts =>
    intro next member
    rw [mem_run_letter] at member
    obtain ⟨head, rest, same, accepted, rfl⟩ := member
    exact ⟨[head], State.reads_advance (same ▸ ⟨rest, rfl⟩)⟩
  | sequence first second firstHypothesis secondHypothesis =>
    intro next member
    obtain ⟨middle, before, after⟩ := List.mem_flatMap.mp member
    obtain ⟨text, readsFirst⟩ := firstHypothesis _ _ before
    obtain ⟨other, readsSecond⟩ := secondHypothesis _ _ after
    exact ⟨text ++ other, readsFirst.append readsSecond⟩
  | choice first second firstHypothesis secondHypothesis =>
    intro next member
    obtain left | right := List.mem_append.mp member
    · exact firstHypothesis _ _ left
    · exact secondHypothesis _ _ right
  | repeated least most greedy firstGroup endGroup body inductionHypothesis =>
    refine iterations_reads (fun state next member => ?_) _ _ _ _
    obtain ⟨text, reads⟩ := inductionHypothesis _ _ member
    exact ⟨text, reads.rest, reads.before⟩
  | group index body inductionHypothesis =>
    intro next member
    obtain ⟨last, inside, rfl⟩ := List.mem_map.mp member
    obtain ⟨text, reads⟩ := inductionHypothesis _ _ inside
    exact ⟨text, reads.rest, reads.before⟩
  | backReference index =>
    intro next member
    rw [run] at member
    split at member
    · rw [List.mem_singleton.mp member]
      exact state.reads_self
    · rw [List.mem_ite_nil_right, List.mem_singleton] at member
      obtain ⟨begins, rfl⟩ := member
      exact ⟨_, State.reads_advance begins⟩
  | lookahead negated body =>
    intro next member
    simp only [run] at member
    split at member
    · rw [List.mem_singleton.mp member]
      exact ⟨[], .nothing rfl rfl⟩
    · rw [List.mem_singleton.mp member]
      exact state.reads_self
    · exact absurd member List.not_mem_nil
  | start | finish | wordBoundary isWord negated =>
    intro next member
    rw [run, List.mem_ite_nil_right, List.mem_singleton] at member
    rw [member.2]
    exact state.reads_self

/-- One round of fuel for every needed iteration and for every letter is enough: more of it
changes nothing. -/
theorem iterations_fuel {step : State Letter → List (State Letter)} {greedy : Bool}
    (reads : ∀ state, ∀ next ∈ step state, ∃ text, state.Reads text next) (fuel least : ℕ)
    (most : Option ℕ) (state : State Letter) (enough : least + state.rest.length ≤ fuel) :
    iterations step greedy (fuel + 1) least most state =
      iterations step greedy fuel least most state := by
  induction fuel generalizing least most state with
  | zero =>
    have optional : least = 0 := by omega
    have finished : state.rest.length = 0 := by omega
    rw [iterations, iterations, if_pos optional]
    have nothing : ((step state).flatMap fun next =>
        if least = 0 ∧ next.rest.length = state.rest.length then []
        else iterations step greedy 0 (least - 1) (most.map (· - 1)) next) = [] := by
      refine List.flatMap_eq_nil_iff.mpr fun next member => if_pos ⟨optional, ?_⟩
      obtain ⟨text, read⟩ := reads _ _ member
      have := read.length_rest
      omega
    rw [nothing]
    cases greedy <;> simp [optional]
  | succ fuel inductionHypothesis =>
    have same : ((step state).flatMap fun next =>
        if least = 0 ∧ next.rest.length = state.rest.length then []
        else iterations step greedy (fuel + 1) (least - 1) (most.map (· - 1)) next) =
        (step state).flatMap fun next =>
          if least = 0 ∧ next.rest.length = state.rest.length then []
          else iterations step greedy fuel (least - 1) (most.map (· - 1)) next := by
      refine List.flatMap_congr fun next member => ?_
      split
      · rfl
      · obtain ⟨text, read⟩ := reads _ _ member
        have := read.length_rest
        exact inductionHypothesis _ _ _ (by omega)
    rw [iterations, same]
    conv_rhs => rw [iterations]

/-! ### The regular nodes -/

namespace Node

/-- The node has no assertions, lookaheads and back references. -/
def Regular : Node Letter → Prop
  | .empty | .letter _ => True
  | .sequence first second | .choice first second => first.Regular ∧ second.Regular
  | .repeated least most _ _ _ body => (∀ bound ∈ most, least ≤ bound) ∧ body.Regular
  | .group _ body => body.Regular
  | .backReference _ | .start | .finish | .wordBoundary _ _ | .lookahead _ _ => False

/-- The language a regular node denotes. -/
def language : Node Letter → Language Letter
  | .empty => 1
  | .letter accepts => {text | ∃ head, accepts head ∧ text = [head]}
  | .sequence first second => first.language * second.language
  | .choice first second => first.language + second.language
  | .repeated least most _ _ _ body =>
    {text | ∃ count, least ≤ count ∧ (∀ bound ∈ most, count ≤ bound) ∧
      text ∈ body.language ^ count}
  | .group _ body => body.language
  | .backReference _ | .start | .finish | .wordBoundary _ _ | .lookahead _ _ => 0

end Node

section Repetition

variable {step : State Letter → List (State Letter)} {greedy : Bool} {accepted : Language Letter}

theorem mem_iterations_self (fuel : ℕ) (most : Option ℕ) (state : State Letter) :
    state ∈ iterations step greedy fuel 0 most state := by
  cases fuel with
  | zero => rw [iterations, if_pos rfl]; exact List.mem_singleton_self state
  | succ fuel => exact mem_iterations_succ.mpr (Or.inl ⟨Or.inl rfl, rfl⟩)

/-- What a repetition reads is so many words of what its body reads. -/
theorem iterations_sound
    (reads : ∀ state, ∀ next ∈ step state, ∃ text ∈ accepted, state.rest = text ++ next.rest)
    (fuel least : ℕ) (most : Option ℕ) (state : State Letter)
    (bounds : ∀ bound ∈ most, least ≤ bound) :
    ∀ next ∈ iterations step greedy fuel least most state,
      ∃ count, least ≤ count ∧ (∀ bound ∈ most, count ≤ bound) ∧
        ∃ text ∈ accepted ^ count, state.rest = text ++ next.rest := by
  induction fuel generalizing least most state with
  | zero =>
    intro next member
    rw [iterations] at member
    split at member
    · rename_i optional
      rw [List.mem_singleton.mp member]
      exact ⟨0, optional.le, fun _ _ => Nat.zero_le _, [], Language.nil_mem_one, rfl⟩
    · exact absurd member List.not_mem_nil
  | succ fuel inductionHypothesis =>
    intro next member
    obtain ⟨stops, rfl⟩ | ⟨more, middle, first, -, later⟩ := mem_iterations_succ.mp member
    · have optional : least ≤ 0 := stops.elim Eq.le fun none => bounds 0 none
      exact ⟨0, optional, fun _ _ => Nat.zero_le _, [], Language.nil_mem_one, rfl⟩
    · obtain ⟨text, textAccepted, readsFirst⟩ := reads _ _ first
      have boundsLater : ∀ bound ∈ most.map (· - 1), least - 1 ≤ bound := by
        rintro bound member
        obtain ⟨original, isMost, rfl⟩ := Option.mem_map.mp member
        exact Nat.sub_le_sub_right (bounds original isMost) 1
      obtain ⟨count, needed, allowed, other, otherAccepted, readsLater⟩ :=
        inductionHypothesis _ _ _ boundsLater _ later
      refine ⟨count + 1, by omega, fun bound isMost => ?_, text ++ other, ?_, ?_⟩
      · have positive : bound ≠ 0 := fun zero => more (zero ▸ isMost)
        have := allowed (bound - 1) (Option.mem_map.mpr ⟨bound, isMost, rfl⟩)
        omega
      · rw [pow_succ']
        exact Language.append_mem_mul textAccepted otherAccepted
      · rw [readsFirst, readsLater, List.append_assoc]

/-- Any allowed number of words of what the body reads can be read. Empty ones among them
that are not needed are left out. -/
theorem iterations_complete
    (reads : ∀ state, ∀ text ∈ accepted, ∀ rest, state.rest = text ++ rest →
      ∃ next ∈ step state, next.rest = rest)
    (count fuel least : ℕ) (most : Option ℕ) (state : State Letter) (text rest : List Letter)
    (enough : least + state.rest.length ≤ fuel) (needed : least ≤ count)
    (allowed : ∀ bound ∈ most, count ≤ bound) (textAccepted : text ∈ accepted ^ count)
    (same : state.rest = text ++ rest) :
    ∃ next ∈ iterations step greedy fuel least most state, next.rest = rest := by
  induction count generalizing fuel least most state text with
  | zero =>
    obtain rfl : least = 0 := Nat.le_zero.mp needed
    obtain rfl : text = [] := textAccepted
    exact ⟨state, mem_iterations_self fuel most state, same⟩
  | succ count inductionHypothesis =>
    rw [pow_succ'] at textAccepted
    obtain ⟨first, firstAccepted, later, laterAccepted, rfl⟩ := textAccepted
    have nonempty : most ≠ some 0 := fun none => absurd (allowed 0 none) (Nat.not_succ_le_zero _)
    by_cases idle : least = 0 ∧ first = []
    · obtain ⟨rfl, rfl⟩ := idle
      exact inductionHypothesis fuel 0 most state later enough (Nat.zero_le _)
        (fun bound isMost => (Nat.le_succ _).trans (allowed bound isMost)) laterAccepted same
    · rw [List.append_assoc] at same
      have shorter : state.rest.length = first.length + (later ++ rest).length := by
        rw [same, List.length_append]
      have positive : least ≠ 0 ∨ first.length ≠ 0 := by
        simpa only [List.length_eq_zero_iff, ne_eq, not_and_or] using idle
      obtain ⟨fuel, rfl⟩ : ∃ smaller, fuel = smaller + 1 := ⟨fuel - 1, by omega⟩
      obtain ⟨middle, member, middleRest⟩ := reads state first firstAccepted _ same
      have allowedLater : ∀ bound ∈ most.map (· - 1), count ≤ bound := by
        rintro bound member
        obtain ⟨original, isMost, rfl⟩ := Option.mem_map.mp member
        exact Nat.le_sub_one_of_lt (allowed original isMost)
      obtain ⟨next, found, nextRest⟩ := inductionHypothesis fuel (least - 1) (most.map (· - 1))
        middle later (by rw [middleRest]; omega) (by omega) allowedLater laterAccepted middleRest
      refine ⟨next, mem_iterations_succ.mpr (Or.inr ⟨nonempty, middle, member, ?_, found⟩),
        nextRest⟩
      rw [middleRest]
      omega

end Repetition

/-- A regular node reads the words of its language. -/
theorem Node.Regular.run_iff [DecidableEq Letter] {node : Node Letter} (regular : node.Regular)
    (state : State Letter) (rest : List Letter) :
    (∃ next ∈ node.run state, next.rest = rest) ↔
      ∃ text ∈ node.language, state.rest = text ++ rest := by
  induction node generalizing state rest with
  | empty => simp [run, language]
  | letter accepts =>
    simp only [mem_run_letter, language]
    constructor
    · rintro ⟨next, ⟨head, tail, same, accepted, rfl⟩, rfl⟩
      exact ⟨[head], ⟨head, accepted, rfl⟩, by simp [State.advance, same]⟩
    · rintro ⟨text, ⟨head, accepted, rfl⟩, same⟩
      exact ⟨_, ⟨head, rest, same, accepted, rfl⟩, by simp [State.advance, same]⟩
  | sequence first second firstHypothesis secondHypothesis =>
    constructor
    · rintro ⟨next, member, rfl⟩
      obtain ⟨middle, before, after⟩ := List.mem_flatMap.mp member
      obtain ⟨text, accepted, same⟩ := (firstHypothesis regular.1 _ _).mp ⟨middle, before, rfl⟩
      obtain ⟨other, otherAccepted, otherSame⟩ :=
        (secondHypothesis regular.2 _ _).mp ⟨next, after, rfl⟩
      refine ⟨text ++ other, Language.append_mem_mul accepted otherAccepted, ?_⟩
      rw [same, otherSame, List.append_assoc]
    · rintro ⟨_, ⟨text, accepted, other, otherAccepted, rfl⟩, same⟩
      obtain ⟨middle, before, middleRest⟩ := (firstHypothesis regular.1 state (other ++ rest)).mpr
        ⟨text, accepted, by rw [same, List.append_assoc]⟩
      obtain ⟨next, after, nextRest⟩ := (secondHypothesis regular.2 middle rest).mpr
        ⟨other, otherAccepted, middleRest⟩
      exact ⟨next, List.mem_flatMap.mpr ⟨middle, before, after⟩, nextRest⟩
  | choice first second firstHypothesis secondHypothesis =>
    simp only [run, language, List.mem_append, or_and_right, exists_or, Language.mem_add,
      firstHypothesis regular.1, secondHypothesis regular.2]
  | repeated least most greedy firstGroup endGroup body inductionHypothesis =>
    have bodyReads := fun state : State Letter =>
      inductionHypothesis regular.2 (state.forget firstGroup endGroup)
    constructor
    · rintro ⟨next, member, rfl⟩
      obtain ⟨count, needed, allowed, text, accepted, same⟩ :=
        iterations_sound (fun state next member => (bodyReads _ _).mp ⟨next, member, rfl⟩)
          _ _ _ _ regular.1 _ member
      exact ⟨text, ⟨count, needed, allowed, accepted⟩, same⟩
    · rintro ⟨text, ⟨count, needed, allowed, accepted⟩, same⟩
      exact iterations_complete
        (fun state text accepted rest same => (bodyReads _ rest).mpr ⟨text, accepted, same⟩)
        count _ least most state text rest le_rfl needed allowed accepted same
  | group index body inductionHypothesis =>
    simpa [run, language] using inductionHypothesis regular state rest
  | backReference | start | finish | wordBoundary | lookahead => exact regular.elim

/-- A regular node accepts its language. -/
theorem Node.Regular.accepts_iff [DecidableEq Letter] {node : Node Letter}
    (regular : node.Regular) (text : List Letter) :
    node.accepts text ↔ text ∈ node.language := by
  have reads := regular.run_iff { before := [], rest := text } []
  simp only [List.append_nil, exists_eq_right'] at reads
  rw [accepts, List.any_eq_true]
  simpa only [List.isEmpty_iff] using reads

/-! ### Shorter input for the same node -/

namespace Node

/-- The only assertions in the node are that the input begins or ends here, and there are no
lookaheads and back references. -/
def Local : Node Letter → Prop
  | .empty | .letter _ | .start | .finish => True
  | .sequence first second | .choice first second => first.Local ∧ second.Local
  | .repeated _ _ _ _ _ body | .group _ body => body.Local
  | .backReference _ | .wordBoundary _ _ | .lookahead _ _ => False

/-- The letters a local node needs at most. -/
def weight : Node Letter → ℕ
  | .letter _ => 1
  | .sequence first second => first.weight + second.weight
  | .choice first second => max first.weight second.weight
  | .repeated least _ _ _ _ body => least * body.weight
  | .group _ body => body.weight
  | .empty | .backReference _ | .start | .finish | .wordBoundary _ _ | .lookahead _ _ => 0

end Node

/-- A step can read the text wherever the input before and after it is empty if it was so
between the two states. -/
def Repeats (step : State Letter → List (State Letter)) (state next : State Letter)
    (text : List Letter) : Prop :=
  ∀ other rest, other.rest = text ++ rest → (state.before = [] → other.before = []) →
    (next.rest = [] → rest = []) → ∃ last ∈ step other, last.rest = rest

/-- Between the two states the step reads a text from which a short one it can read as well
is left. -/
def Shortens (step : State Letter → List (State Letter)) (state next : State Letter)
    (bound : ℕ) : Prop :=
  ∃ text short, state.Reads text next ∧ short.Sublist text ∧ short.length ≤ bound ∧
    Repeats step state next short

/-- One step after the other. -/
theorem Shortens.sequence {first second both : State Letter → List (State Letter)}
    {state middle next : State Letter} {firstBound secondBound : ℕ}
    (shortensFirst : Shortens first state middle firstBound)
    (shortensSecond : Shortens second middle next secondBound)
    (reads : ∀ state, ∀ next ∈ first state, ∃ text, state.Reads text next)
    (runs : ∀ state, ∀ middle ∈ first state, ∀ next ∈ second middle, next ∈ both state) :
    Shortens both state next (firstBound + secondBound) := by
  obtain ⟨firstText, firstShort, firstReads, firstPart, firstLength, firstRepeats⟩ := shortensFirst
  obtain ⟨secondText, secondShort, secondReads, secondPart, secondLength, secondRepeats⟩ :=
    shortensSecond
  refine ⟨firstText ++ secondText, firstShort ++ secondShort, firstReads.append secondReads,
    firstPart.append secondPart, ?_, fun other rest same before after => ?_⟩
  · rw [List.length_append]
    exact Nat.add_le_add firstLength secondLength
  · rw [List.append_assoc] at same
    have middleAfter : middle.rest = [] → secondShort ++ rest = [] := fun finished => by
      rw [secondReads.rest, List.append_eq_nil_iff] at finished
      obtain ⟨rfl, finished⟩ := finished
      rw [List.sublist_nil.mp secondPart, after finished, List.append_nil]
    obtain ⟨last, member, lastRest⟩ := firstRepeats other _ same before middleAfter
    have middleBefore : middle.before = [] → last.before = [] := fun nothing => by
      rw [firstReads.before, List.append_eq_nil_iff, List.reverse_eq_nil_iff] at nothing
      obtain ⟨rfl, nothing⟩ := nothing
      obtain ⟨text, read⟩ := reads _ _ member
      have readNothing : text = [] := by
        have length := read.length_rest
        rw [lastRest, same, List.sublist_nil.mp firstPart, List.nil_append] at length
        exact List.length_eq_zero_iff.mp (by omega)
      rw [read.before, readNothing, before nothing, List.reverse_nil, List.nil_append]
    obtain ⟨final, finalMember, finalRest⟩ := secondRepeats last rest lastRest middleBefore after
    exact ⟨final, runs _ _ member _ finalMember, finalRest⟩

/-- The same of a step that can do as much. -/
theorem Shortens.transfer {step wider : State Letter → List (State Letter)}
    {state next last : State Letter} {bound greater : ℕ}
    (shortens : Shortens step state next bound) (bounds : bound ≤ greater)
    (rest : last.rest = next.rest) (before : last.before = next.before)
    (runs : ∀ state, ∀ next ∈ step state, ∃ last ∈ wider state, last.rest = next.rest) :
    Shortens wider state last greater := by
  obtain ⟨text, short, reads, part, length, repeats⟩ := shortens
  refine ⟨text, short, ⟨rest ▸ reads.rest, before ▸ reads.before⟩, part, length.trans bounds,
    fun other tail same atStart atEnd => ?_⟩
  obtain ⟨found, member, foundRest⟩ :=
    repeats other tail same atStart fun finished => atEnd (rest ▸ finished)
  obtain ⟨final, finalMember, finalRest⟩ := runs _ _ member
  exact ⟨final, finalMember, finalRest.trans foundRest⟩

/-- A step that reads nothing, and again does so. -/
theorem Shortens.nothing {step : State Letter → List (State Letter)} {state : State Letter}
    (again : ∀ other, (state.before = [] → other.before = []) →
      (state.rest = [] → other.rest = []) → other ∈ step other) :
    Shortens step state state 0 :=
  ⟨[], [], .nothing rfl rfl, List.Sublist.refl _, le_rfl, fun other _ same before after =>
    ⟨other, again other before fun finished => same.trans (after finished), same⟩⟩

section Repetition

variable {step : State Letter → List (State Letter)} {greedy : Bool}

theorem iterations_enough
    (reads : ∀ state, ∀ next ∈ step state, ∃ text, state.Reads text next) {fuel least : ℕ}
    {most : Option ℕ} {state : State Letter} (enough : least + state.rest.length ≤ fuel) :
    iterations step greedy fuel least most state =
      iterations step greedy (least + state.rest.length) least most state := by
  induction fuel, enough using Nat.le_induction with
  | base => rfl
  | succ fuel enough inductionHypothesis =>
    rw [iterations_fuel reads fuel least most state enough, inductionHypothesis]

/-- A repetition can do with the iterations that are needed. -/
theorem iterations_shortens
    (reads : ∀ state, ∀ next ∈ step state, ∃ text, state.Reads text next) {bound : ℕ}
    (shortens : ∀ state, ∀ next ∈ step state, Shortens step state next bound) (least : ℕ)
    (most : Option ℕ) (state : State Letter) :
    ∀ next ∈ iterations step greedy (least + state.rest.length) least most state,
      Shortens (fun state => iterations step greedy (least + state.rest.length) least most state)
        state next (least * bound) := by
  induction least generalizing most state with
  | zero =>
    intro next member
    obtain ⟨text, read⟩ := iterations_reads reads _ _ _ _ _ member
    exact ⟨text, [], read, List.nil_sublist text, Nat.zero_le _, fun other rest same _ _ =>
      ⟨other, mem_iterations_self _ most other, same⟩⟩
  | succ least inductionHypothesis =>
    intro next member
    rw [Nat.succ_add] at member
    obtain ⟨stops, rfl⟩ | ⟨more, middle, first, -, later⟩ := mem_iterations_succ.mp member
    · refine (Shortens.nothing fun other _ _ => ?_).transfer (Nat.zero_le _) rfl rfl
        fun _ last found => ⟨last, found, rfl⟩
      rw [Nat.succ_add]
      exact mem_iterations_succ.mpr (Or.inl ⟨stops, rfl⟩)
    · have enough : ∀ state, ∀ middle ∈ step state,
          least + middle.rest.length ≤ least + state.rest.length := fun state middle found => by
        obtain ⟨text, read⟩ := reads _ _ found
        have := read.length_rest
        omega
      rw [Nat.add_sub_cancel, iterations_enough reads (enough _ _ first)] at later
      refine ((shortens _ _ first).sequence (inductionHypothesis _ _ _ later) reads
        fun state middle found next after => ?_).transfer (by rw [Nat.succ_mul, Nat.add_comm])
        rfl rfl fun _ last found => ⟨last, found, rfl⟩
      rw [Nat.succ_add]
      refine mem_iterations_succ.mpr (Or.inr ⟨more, middle, found, ?_, ?_⟩)
      · exact fun optional => absurd optional.1 (Nat.succ_ne_zero least)
      · rw [Nat.add_sub_cancel, iterations_enough reads (enough _ _ found)]
        exact after

end Repetition

/-- What a local node reads can be shortened to its weight. -/
theorem Node.Local.shortens [DecidableEq Letter] {node : Node Letter} (isLocal : node.Local)
    (state : State Letter) : ∀ next ∈ node.run state, Shortens node.run state next node.weight := by
  induction node generalizing state with
  | empty =>
    intro next member
    rw [List.mem_singleton.mp member]
    exact .nothing fun other _ _ => List.mem_singleton_self other
  | letter accepts =>
    intro next member
    obtain ⟨head, tail, same, accepted, rfl⟩ := mem_run_letter.mp member
    refine ⟨[head], [head], State.reads_advance (same ▸ ⟨tail, rfl⟩), List.Sublist.refl _, le_rfl,
      fun other rest otherSame _ _ => ?_⟩
    exact ⟨other.advance [head], mem_run_letter.mpr ⟨head, rest, otherSame, accepted, rfl⟩,
      by simp [State.advance, otherSame]⟩
  | sequence first second firstHypothesis secondHypothesis =>
    intro next member
    obtain ⟨middle, before, after⟩ := List.mem_flatMap.mp member
    exact (firstHypothesis isLocal.1 _ _ before).sequence (secondHypothesis isLocal.2 _ _ after)
      first.run_reads fun _ middle found next later => List.mem_flatMap.mpr ⟨middle, found, later⟩
  | choice first second firstHypothesis secondHypothesis =>
    intro next member
    obtain left | right := List.mem_append.mp member
    · exact (firstHypothesis isLocal.1 _ _ left).transfer (le_max_left _ _) rfl rfl
        fun _ last found => ⟨last, List.mem_append_left _ found, rfl⟩
    · exact (secondHypothesis isLocal.2 _ _ right).transfer (le_max_right _ _) rfl rfl
        fun _ last found => ⟨last, List.mem_append_right _ found, rfl⟩
  | repeated least most greedy firstGroup endGroup body inductionHypothesis =>
    refine iterations_shortens (fun state next member => ?_) (fun state next member => ?_)
      least most state
    · obtain ⟨text, reads⟩ := body.run_reads _ _ member
      exact ⟨text, reads.rest, reads.before⟩
    · obtain ⟨text, short, reads, part, length, repeats⟩ :=
        inductionHypothesis isLocal _ _ member
      exact ⟨text, short, ⟨reads.rest, reads.before⟩, part, length, fun other =>
        repeats (other.forget firstGroup endGroup)⟩
  | group index body inductionHypothesis =>
    intro next member
    obtain ⟨last, inside, rfl⟩ := List.mem_map.mp member
    exact (inductionHypothesis isLocal _ _ inside).transfer le_rfl rfl rfl
      fun state last found => ⟨last.capture state index, List.mem_map_of_mem found, rfl⟩
  | start =>
    intro next member
    rw [run, List.mem_ite_nil_right, List.mem_singleton] at member
    obtain ⟨atStart, rfl⟩ := member
    refine .nothing fun other before _ => ?_
    rw [run, if_pos (before atStart)]
    exact List.mem_singleton_self other
  | finish =>
    intro next member
    rw [run, List.mem_ite_nil_right, List.mem_singleton] at member
    obtain ⟨atEnd, rfl⟩ := member
    refine .nothing fun other _ after => ?_
    rw [run, if_pos (after atEnd)]
    exact List.mem_singleton_self other
  | backReference | wordBoundary | lookahead => exact isLocal.elim

/-- A text that a local node accepts has a part that it accepts and that is no longer than the
node's weight. -/
theorem Node.Local.exists_short [DecidableEq Letter] {node : Node Letter} (isLocal : node.Local)
    {text : List Letter} (accepted : node.accepts text) :
    ∃ short, short.Sublist text ∧ short.length ≤ node.weight ∧ node.accepts short := by
  obtain ⟨next, member, finished⟩ := List.any_eq_true.mp accepted
  rw [List.isEmpty_iff] at finished
  obtain ⟨read, short, reads, part, length, repeats⟩ := isLocal.shortens _ _ member
  have all : text = read := by simpa only [finished, List.append_nil] using reads.rest
  obtain ⟨last, found, lastRest⟩ := repeats { before := [], rest := short } []
    (List.append_nil short).symm (fun _ => rfl) fun _ => rfl
  exact ⟨short, all ▸ part, length,
    List.any_eq_true.mpr ⟨last, found, List.isEmpty_iff.mpr lastRest⟩⟩

end Regex
