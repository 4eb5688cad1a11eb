/-
This file proves which patterns in a file of suppressions mean what the format says.

An operator other than the dot lets a name match that has fewer letters than the format
demands, and a dot lets any letter match. So a pattern with operators does not mean what
the format says. Excepted are the patterns that count, look ahead, refer back or ask for
word boundaries: these can demand more letters than they have.
-/

import Drace.Suppressions

namespace Drace

namespace Suppression

/-! ### Patterns with operators -/

/-- The letters of a text other than asterisks. -/
def letters (text : List Char) : List Char := text.filter (· ≠ '*')

theorem letters_cons (letter : Char) (text : List Char) :
    letters (letter :: text) = if letter = '*' then letters text else letter :: letters text := by
  rw [letters, List.filter_cons]
  split <;> simp_all [letters]

theorem letters_append (first second : List Char) :
    letters (first ++ second) = letters first ++ letters second :=
  List.filter_append first second

/-- With every asterisk left out a text stands for itself. -/
theorem letters_mem_meaning (text : List Char) : letters text ∈ (text.map meaning).prod := by
  induction text with
  | nil => rfl
  | cons letter text inductionHypothesis =>
    rw [List.map_cons, List.prod_cons, letters_cons]
    split
    · rename_i asterisk
      exact ⟨[], Or.inl asterisk, _, inductionHypothesis, rfl⟩
    · exact ⟨[letter], Or.inr rfl, _, inductionHypothesis, rfl⟩

/-- What a text stands for has all its other letters in it. -/
theorem letters_sublist {text name : List Char} (member : name ∈ (text.map meaning).prod) :
    (letters text).Sublist name := by
  induction text generalizing name with
  | nil => exact List.nil_sublist name
  | cons letter text inductionHypothesis =>
    rw [List.map_cons, List.prod_cons] at member
    obtain ⟨part, stands, rest, restMember, rfl⟩ := member
    have later := inductionHypothesis restMember
    rw [letters_cons]
    split
    · exact later.trans (List.sublist_append_right part rest)
    · rename_i isLetter
      obtain rfl : part = [letter] := stands.resolve_left isLetter
      exact later.cons_cons letter

theorem letters_mem_format (pattern : List Char) : letters (core pattern) ∈ format pattern := by
  have anywhere : ∀ (anchored : Prop) [Decidable anchored],
      [] ∈ (if anchored then 1 else ⊤ : Language Char) := fun anchored _ => by
    split
    · exact Language.nil_mem_one
    · trivial
  exact ⟨_, ⟨[], anywhere _, _, letters_mem_meaning _, rfl⟩, [], anywhere _, List.append_nil _⟩

theorem format_sublist {pattern name : List Char} (member : name ∈ format pattern) :
    (letters (core pattern)).Sublist name := by
  obtain ⟨_, ⟨front, -, middle, stands, rfl⟩, back, -, rfl⟩ := member
  exact ((letters_sublist stands).trans (List.sublist_append_right front middle)).trans
    (List.sublist_append_left _ back)

theorem letters_padded (pattern : List Char) :
    letters (padded pattern) = letters (core pattern) := by
  have front : ∀ (left : Prop) [Decidable left], letters (if left then [] else ['*']) = [] :=
    fun left _ => by split <;> rfl
  rw [padded, letters_append, letters_append, front, front, List.nil_append, List.append_nil]

/-- The expression demands no more letters than the format, and fewer if there is an operator
other than the dot. -/
structure Undercuts (text : List Char) : Prop where
  atMost : Regex.demand (RaceFilter.insertDots text) ≤ 2 * (letters text).length
  less : (∃ letter ∈ letters text, Regex.isOperator letter ∧ letter ≠ '.') →
    Regex.demand (RaceFilter.insertDots text) < 2 * (letters text).length

/-- Less is demanded for a letter than the two it counts for, so less in all. -/
theorem Undercuts.of_less {text : List Char}
    (less : Regex.demand (RaceFilter.insertDots text) < 2 * (letters text).length) :
    Undercuts text where
  atMost := less.le
  less := fun _ => less

theorem demand_asterisk (expr : List Char) : Regex.demand ('*' :: expr) = Regex.demand expr := by
  rw [Regex.demand_cons (by decide), if_neg fun dot => absurd dot.1 (by decide),
    show Regex.letterDemand '*' = 0 from rfl, Nat.zero_add]

theorem Undercuts.asterisk {text : List Char} (undercuts : Undercuts text) :
    Undercuts ('*' :: text) := by
  have same : Regex.demand (RaceFilter.insertDots ('*' :: text)) =
      Regex.demand (RaceFilter.insertDots text) := by
    rw [RaceFilter.insertDots, if_pos rfl, Regex.demand_cons (by decide), if_pos ⟨rfl, rfl⟩,
      Nat.zero_add, demand_asterisk]
  refine ⟨?_, fun operator => ?_⟩ <;> rw [same, letters_cons, if_pos rfl]
  · exact undercuts.atMost
  · rw [letters_cons, if_pos rfl] at operator
    exact undercuts.less operator

theorem Undercuts.cons {text : List Char} (undercuts : Undercuts text) {letter : Char}
    (noAsterisk : letter ≠ '*') (noEscape : letter ≠ '\\') : Undercuts (letter :: text) := by
  have demands : Regex.demand (RaceFilter.insertDots (letter :: text)) =
      Regex.letterDemand letter + Regex.demand (RaceFilter.insertDots text) := by
    rw [RaceFilter.insertDots, if_neg noAsterisk, Regex.demand_cons noEscape,
      if_neg fun dot => insertDots_head text dot.2]
  have most := undercuts.atMost
  have letterMost := Regex.letterDemand_le letter
  refine ⟨?_, fun operator => ?_⟩ <;>
    rw [demands, letters_cons, if_neg noAsterisk, List.length_cons]
  · omega
  · rw [letters_cons, if_neg noAsterisk] at operator
    obtain ⟨found, member, isOperator, noDot⟩ := operator
    obtain rfl | member := List.mem_cons.mp member
    · have := Regex.letterDemand_lt isOperator noDot
      omega
    · have := undercuts.less ⟨found, member, isOperator, noDot⟩
      omega

/-- An escape counts for two letters and demands one, or none before an asterisk. -/
theorem Undercuts.escape {text : List Char} (undercuts : Undercuts text) (next : Char) :
    Undercuts ('\\' :: next :: text) := by
  have most := undercuts.atMost
  have noAsterisk : '\\' ≠ '*' := by decide
  refine .of_less ?_
  rw [RaceFilter.insertDots, if_neg noAsterisk, RaceFilter.insertDots, letters_cons,
    if_neg noAsterisk, letters_cons, List.length_cons]
  split
  · rw [Regex.demand_escape, if_pos ⟨rfl, rfl⟩, demand_asterisk]
    omega
  · rw [Regex.demand_escape, if_neg fun dot => insertDots_head text dot.2, List.length_cons]
    omega

theorem undercuts (text : List Char) : Undercuts text := by
  have nothing : Undercuts [] :=
    ⟨le_rfl, fun ⟨_, member, _⟩ => absurd member List.not_mem_nil⟩
  induction text using List.twoStepInduction with
  | nil => exact nothing
  | singleton letter =>
    by_cases asterisk : letter = '*'
    · subst asterisk
      exact nothing.asterisk
    · by_cases escape : letter = '\\'
      · subst escape
        exact .of_less (by decide)
      · exact nothing.cons asterisk escape
  | cons_cons letter next text inductionHypothesis nextHypothesis =>
    by_cases asterisk : letter = '*'
    · subst asterisk
      exact (nextHypothesis next).asterisk
    · by_cases escape : letter = '\\'
      · subst escape
        exact inductionHypothesis.escape next
      · exact (nextHypothesis next).cons asterisk escape

theorem elementary_insertDots {text : List Char} (elementary : Regex.Elementary text) :
    Regex.Elementary (RaceFilter.insertDots text) := by
  have same : ∀ text letter expr, letter ≠ '.' → RaceFilter.insertDots text = letter :: expr →
      ∃ rest, text = letter :: rest ∧ RaceFilter.insertDots rest = expr := by
    intro text letter expr noDot whole
    cases text with
    | nil => exact absurd whole nofun
    | cons first text =>
      rw [RaceFilter.insertDots] at whole
      split at whole
      · cases whole
        exact absurd rfl noDot
      · cases whole
        exact ⟨text, rfl, rfl⟩
  induction text with
  | nil => exact elementary
  | cons letter text inductionHypothesis =>
    have later := inductionHypothesis (Regex.elementary_cons.mp elementary).2
    have first : Regex.startsSpecial (RaceFilter.insertDots (letter :: text)) = false :=
      Bool.eq_false_iff.mpr fun special =>
        absurd (Regex.startsSpecial_of_rewrite (Or.inl rfl) same special)
          (Bool.eq_false_iff.mp elementary.plain)
    rw [RaceFilter.insertDots] at first ⊢
    split
    · exact Regex.elementary_cons.mpr ⟨rfl, Regex.elementary_cons.mpr ⟨rfl, later⟩⟩
    · rename_i isLetter
      rw [if_neg isLetter] at first
      exact Regex.elementary_cons.mpr ⟨first, later⟩

theorem elementary_concat {text : List Char} (elementary : Regex.Elementary text) :
    Regex.Elementary (text ++ ['*']) := by
  have same : ∀ text letter expr, letter ≠ '*' → text ++ ['*'] = letter :: expr →
      ∃ rest, text = letter :: rest ∧ rest ++ ['*'] = expr := by
    intro text letter expr noAsterisk whole
    cases text with
    | nil =>
      cases whole
      exact absurd rfl noAsterisk
    | cons first text =>
      cases whole
      exact ⟨text, rfl, rfl⟩
  induction text with
  | nil => exact Regex.elementary_cons.mpr ⟨rfl, elementary⟩
  | cons letter text inductionHypothesis =>
    have first : Regex.startsSpecial (letter :: text ++ ['*']) = false :=
      Bool.eq_false_iff.mpr fun special =>
        absurd (Regex.startsSpecial_of_rewrite (Or.inr rfl) same special)
          (Bool.eq_false_iff.mp elementary.plain)
    exact Regex.elementary_cons.mpr
      ⟨first, inductionHypothesis (Regex.elementary_cons.mp elementary).2⟩

theorem elementary_core {pattern : List Char} (elementary : Regex.Elementary pattern) :
    Regex.Elementary (core pattern) := by
  have whole := elementary.suffix (unheaded_suffix pattern)
  rw [unheaded_eq pattern] at whole
  exact whole.of_append

theorem elementary_padded {pattern : List Char} (elementary : Regex.Elementary pattern) :
    Regex.Elementary (padded pattern) := by
  have inside := elementary_core elementary
  have front : ∀ (left : Prop) [Decidable left],
      Regex.Elementary ((if left then [] else ['*']) ++ core pattern) := fun left _ => by
    split
    · exact inside
    · exact Regex.elementary_cons.mpr ⟨rfl, inside⟩
  have back : ∀ {text : List Char} (right : Prop) [Decidable right], Regex.Elementary text →
      Regex.Elementary (text ++ if right then [] else ['*']) := fun right _ elementaryText => by
    split
    · rw [List.append_nil]
      exact elementaryText
    · exact elementary_concat elementaryText
  exact back _ (front _)

/-- With any letter in place of the dots, a text without other operators matches itself. -/
theorem undotted_mem_pieces (text : List Char) :
    (letters text).map (fun letter => if letter = '.' then 'a' else letter) ∈
      ((text.map piece).map Regex.Piece.language).prod := by
  induction text with
  | nil => rfl
  | cons letter text inductionHypothesis =>
    rw [List.map_cons, List.map_cons, List.prod_cons, letters_cons, piece]
    split
    · exact ⟨[], by rintro _ ⟨⟩, _, inductionHypothesis, rfl⟩
    · rw [List.map_cons]
      split
      · exact ⟨['a'], ⟨'a', rfl, rfl⟩, _, inductionHypothesis, rfl⟩
      · exact ⟨[letter], rfl, _, inductionHypothesis, rfl⟩

theorem MeansFormat.expr {pattern : List Char} (means : MeansFormat pattern)
    (nonempty : pattern ≠ []) :
    pattern ≠ ['^'] ∧ ∀ name, Unbroken name →
      (Regex.regexMatch (RaceFilter.insertDots (padded pattern)) name = some true ↔
        name ∈ format pattern) := by
  obtain ⟨expr, normalized, matchesFormat⟩ := means
  have proper : pattern ≠ ['^'] := by
    rintro rfl
    exact absurd normalized nofun
  rw [normalizeString_eq nonempty proper, Option.some.injEq] at normalized
  subst normalized
  exact ⟨proper, matchesFormat⟩

theorem unbroken_letters {pattern : List Char} (unbroken : Unbroken pattern) :
    Unbroken (letters (core pattern)) := fun letter member =>
  unbroken letter (core_subset pattern (List.mem_of_mem_filter member))

/-- An operator other than the dot lets a name match that is too short for the format. -/
theorem MeansFormat.only_dots {pattern : List Char} (means : MeansFormat pattern)
    (nonempty : pattern ≠ []) (elementary : Regex.Elementary pattern)
    (unbroken : Unbroken pattern) :
    ∀ letter ∈ letters (core pattern), Regex.isOperator letter → letter = '.' := by
  intro letter member operator
  by_contra noDot
  obtain ⟨-, matchesFormat⟩ := means.expr nonempty
  have matched := (matchesFormat _ (unbroken_letters unbroken)).mpr (letters_mem_format pattern)
  obtain ⟨short, part, demanded, shortMatched⟩ :=
    (elementary_insertDots (elementary_padded elementary)).exists_short matched
  have shortUnbroken : Unbroken short := fun letter member =>
    unbroken_letters unbroken letter (part.subset member)
  have whole := (format_sublist ((matchesFormat short shortUnbroken).mp shortMatched)).length_le
  have less := (undercuts (padded pattern)).less
  rw [letters_padded] at less
  have := less ⟨letter, member, operator, noDot⟩
  omega

/-- If no operators but dots are left, a dot lets any letter match. -/
theorem MeansFormat.no_dot {pattern : List Char} (means : MeansFormat pattern)
    (nonempty : pattern ≠ []) (unbroken : Unbroken pattern)
    (onlyDots : ∀ letter ∈ letters (core pattern), Regex.isOperator letter → letter = '.') :
    '.' ∉ letters (core pattern) := by
  intro inside
  obtain ⟨-, matchesFormat⟩ := means.expr nonempty
  have ordinary : ∀ letter ∈ padded pattern, Regex.isOperator letter →
      letter = '*' ∨ letter = '.' := fun letter member operator => by
    by_cases asterisk : letter = '*'
    · exact Or.inl asterisk
    · exact Or.inr (onlyDots letter (List.mem_filter.mpr
        ⟨(mem_padded member).resolve_right asterisk, decide_eq_true asterisk⟩) operator)
  have undotted := undotted_mem_pieces (padded pattern)
  rw [letters_padded] at undotted
  have undottedUnbroken : Unbroken ((letters (core pattern)).map
      fun letter => if letter = '.' then 'a' else letter) := fun letter member => by
    obtain ⟨original, originalMember, rfl⟩ := List.mem_map.mp member
    split
    · rfl
    · exact unbroken_letters unbroken original originalMember
  have dotMember := (format_sublist ((matchesFormat _ undottedUnbroken).mp
    ((regexMatch_insertDots ordinary _).mpr undotted))).subset inside
  obtain ⟨original, -, same⟩ := List.mem_map.mp dotMember
  split at same
  · exact absurd same (by decide)
  · contradiction

/-- Among the elementary patterns without line breaks no others mean what the format says. -/
theorem MeansFormat.literal {pattern : List Char} (means : MeansFormat pattern)
    (nonempty : pattern ≠ []) (elementary : Regex.Elementary pattern)
    (unbroken : Unbroken pattern) : Literal pattern where
  proper := (means.expr nonempty).1
  ordinary := fun letter member operator => by
    by_contra isLetter
    have inside : letter ∈ letters (core pattern) :=
      List.mem_filter.mpr ⟨member, decide_eq_true isLetter⟩
    have onlyDots := means.only_dots nonempty elementary unbroken
    obtain rfl : letter = '.' := onlyDots letter inside operator
    exact means.no_dot nonempty unbroken onlyDots inside

/-- A pattern means what the format says if there are no operators in it, and an elementary
pattern without line breaks only then. -/
theorem means_format {pattern : List Char} (nonempty : pattern ≠ []) :
    (Literal pattern → MeansFormat pattern) ∧
      (Regex.Elementary pattern ∧ Unbroken pattern →
        (MeansFormat pattern ↔ Literal pattern)) :=
  ⟨fun literal => literal.meansFormat nonempty, fun ⟨elementary, unbroken⟩ =>
    ⟨fun means => means.literal nonempty elementary unbroken,
      fun literal => literal.meansFormat nonempty⟩⟩

/-- A function with any arguments, and a name with dots in it. -/
theorem means_format_wildcard :
    MeansFormat "std::*::function".toList ∧ ¬MeansFormat "a.b".toList :=
  ⟨(means_format (by decide)).1 (by decide), fun means =>
    absurd (((means_format (by decide)).2 ⟨by decide, by decide⟩).mp means) (by decide)⟩

/-- The dot of a name matches any letter. -/
theorem dot_matches_letter :
    "a.b".toList ≠ [] ∧ Unbroken "axb".toList ∧
      RaceFilter.normalizeString "a.b".toList = some ".*a.b.*".toList ∧
      Regex.regexMatch ".*a.b.*".toList "axb".toList = some true ∧
      "axb".toList ∉ format "a.b".toList :=
  ⟨by decide, by decide, by decide, by decide +kernel, fun member =>
    absurd ((format_sublist member).subset (show '.' ∈ _ by decide)) (by decide)⟩

end Suppression

end Drace
