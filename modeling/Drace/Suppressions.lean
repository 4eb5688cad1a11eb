/-
This file models how the file of suppressions is read, and proves which patterns in it
mean what the format says.

The names a pattern stands for are a language: an asterisk is any text, every other
letter is itself, and where the pattern is not anchored there may be anything. The
filter rewrites the pattern to a regular expression and leaves alone what is an operator
there. A pattern without such operators means what the format says, and so a file of them
suppresses the races it should.
-/

import Drace.Patterns
import Drace.RaceFilter

namespace Drace

/-! ### Reading the file -/

namespace RaceFilter

/-- Insert a dot before every asterisk. The list is what the search goes on with. -/
def insertDots : List Char → List Char
  | [] => []
  | letter :: rest =>
    if letter = '*' then '.' :: '*' :: insertDots rest else letter :: insertDots rest

/-- Put a wildcard at the beginning, if there is no `^` and no wildcard. The index of the end
gives a null character, one beyond it is undefined. -/
def wildcardAtBeginning (expr : List Char) : Option (List Char) :=
  let letter := fun index : ℕ => (expr ++ ['\x00'])[index]?
  if letter 0 = some '^' then some (expr.drop 1)
  else if letter 0 = some '.' then some expr
  else
    match letter 1 with
    | none => none
    | some second => some (if second = '*' then expr else '.' :: '*' :: expr)

/-- Put a wildcard at the end, if there is no `$` and no wildcard. The last letter of an empty
string is undefined. -/
def wildcardAtEnd (expr : List Char) : Option (List Char) :=
  match expr.getLast? with
  | none => none
  | some last =>
    some (if last = '$' then expr.dropLast else if last = '*' then expr else expr ++ ['.', '*'])

/-- Make the pattern a regular expression for whole names. -/
def normalizeString (pattern : List Char) : Option (List Char) :=
  (wildcardAtBeginning (insertDots pattern)).bind wildcardAtEnd

/-- Match a whole name against an expression. -/
def matchesName (expr : List Char) (name : String) : Bool :=
  Regex.regexMatch expr name.toList == some true

/-- The subject and the pattern of an entry. A comment has none, nor has an entry without a
colon. -/
def splitEntry (entry : List Char) : Option (List Char × List Char) :=
  if entry.head? = some '#' then none
  else match entry.span (· ≠ ':') with
    | (subject, ':' :: pattern) => some (subject, pattern)
    | _ => none

/-- Take over an entry of the file. -/
def readEntry (filter : RaceFilter) (entry : List Char) : Option RaceFilter :=
  match splitEntry entry with
  | none => some filter
  | some (subject, pattern) =>
    if subject = "race_tos".toList then
      (normalizeString pattern).map fun expr =>
        { filter with rtosList := filter.rtosList ++ [matchesName expr] }
    else if subject = "race".toList then
      (normalizeString pattern).map fun expr =>
        { filter with raceList := filter.raceList ++ [matchesName expr] }
    else some filter

/-- Read the file line by line. -/
def init (filter : RaceFilter) (content : List Char) : Option RaceFilter :=
  (content.splitOn '\n').foldlM readEntry filter

end RaceFilter

/-! ### What a pattern stands for -/

namespace Suppression

/-- A pattern without the mark that the name begins with it. -/
def unheaded (pattern : List Char) : List Char :=
  if pattern.head? = some '^' then pattern.tail else pattern

/-- A pattern without the marks that the name begins or ends with it. -/
def core (pattern : List Char) : List Char :=
  if (unheaded pattern).getLast? = some '$' then (unheaded pattern).dropLast else unheaded pattern

/-- The texts a letter of a pattern stands for. -/
def meaning (letter : Char) : Language Char := {text | letter = '*' ∨ text = [letter]}

/-- The names a pattern stands for in the suppression format. -/
def format (pattern : List Char) : Language Char :=
  (if pattern.head? = some '^' then 1 else ⊤) * ((core pattern).map meaning).prod *
    (if (unheaded pattern).getLast? = some '$' then 1 else ⊤)

/-- There is no line break in the text. -/
def Unbroken (text : List Char) : Prop := ∀ letter ∈ text, Regex.isLineTerminator letter = false

instance (text : List Char) : Decidable (Unbroken text) := List.decidableBAll _ _

/-- The filter takes the pattern for what it stands for in the format. -/
def MeansFormat (pattern : List Char) : Prop :=
  ∃ expr, RaceFilter.normalizeString pattern = some expr ∧
    ∀ name, Unbroken name → (Regex.regexMatch expr name = some true ↔ name ∈ format pattern)

/-- There is more to the pattern than an anchor, and its letters other than asterisks are no
operators of a regular expression. -/
structure Literal (pattern : List Char) : Prop where
  proper : pattern ≠ ['^']
  ordinary : ∀ letter ∈ core pattern, Regex.isOperator letter → letter = '*'

instance (pattern : List Char) : Decidable (Literal pattern) :=
  letI : Decidable (∀ letter ∈ core pattern, Regex.isOperator letter → letter = '*') :=
    List.decidableBAll _ _
  decidable_of_iff (pattern ≠ ['^'] ∧
      ∀ letter ∈ core pattern, Regex.isOperator letter → letter = '*')
    ⟨fun ⟨proper, ordinary⟩ => ⟨proper, ordinary⟩, fun literal =>
      ⟨literal.proper, literal.ordinary⟩⟩

/-! ### What the filter makes of a pattern -/

/-- The pattern with the asterisks the filter adds at its ends. -/
def padded (pattern : List Char) : List Char :=
  (if pattern.head? = some '^' ∨ (core pattern).head? = some '*' ∨ (core pattern).head? = some '.'
    then [] else ['*']) ++ core pattern ++
  (if (unheaded pattern).getLast? = some '$' ∨ (core pattern).getLast? = some '*'
    then [] else ['*'])

theorem insertDots_append (first second : List Char) :
    RaceFilter.insertDots (first ++ second) =
      RaceFilter.insertDots first ++ RaceFilter.insertDots second := by
  induction first with
  | nil => rfl
  | cons letter first inductionHypothesis =>
    rw [List.cons_append, RaceFilter.insertDots, RaceFilter.insertDots, inductionHypothesis]
    split <;> rfl

theorem insertDots_head (text : List Char) : (RaceFilter.insertDots text).head? ≠ some '*' := by
  cases text with
  | nil => exact nofun
  | cons letter text =>
    rw [RaceFilter.insertDots]
    split
    · exact fun same => absurd (Option.some.inj same) (by decide)
    · rename_i isLetter
      exact fun same => isLetter (Option.some.inj same)

theorem insertDots_getLast (text : List Char) (last : Char) :
    (RaceFilter.insertDots (text ++ [last])).getLast? = some last := by
  rw [insertDots_append, RaceFilter.insertDots, RaceFilter.insertDots, List.getLast?_append]
  split
  · rename_i asterisk
    rw [asterisk]
    rfl
  · rfl

/-- The core with the mark at its end is the pattern without the one at its beginning. -/
theorem unheaded_eq (pattern : List Char) :
    unheaded pattern =
      core pattern ++ if (unheaded pattern).getLast? = some '$' then ['$'] else [] := by
  rw [core]
  split
  · rename_i ends
    exact (List.dropLast_append_getLast? '$' ends).symm
  · rw [List.append_nil]

theorem unheaded_suffix (pattern : List Char) : unheaded pattern <:+ pattern := by
  rw [unheaded]
  split
  · exact List.tail_suffix pattern
  · exact List.suffix_refl pattern

theorem core_subset (pattern : List Char) : core pattern ⊆ pattern := by
  have corePrefix : core pattern <+: unheaded pattern := ⟨_, (unheaded_eq pattern).symm⟩
  exact List.Subset.trans corePrefix.subset (unheaded_suffix pattern).subset

theorem core_head {pattern : List Char} {letter : Char} (noAnchor : letter ≠ '$') :
    (core pattern).head? = some letter ↔ (unheaded pattern).head? = some letter := by
  rw [unheaded_eq pattern, List.head?_append]
  cases (core pattern).head? with
  | some first => rfl
  | none =>
    refine ⟨nofun, fun head => ?_⟩
    split at head
    · exact absurd (Option.some.inj head).symm noAnchor
    · exact absurd head nofun

theorem wildcardAtBeginning_eq {pattern : List Char} (nonempty : pattern ≠ []) :
    RaceFilter.wildcardAtBeginning (RaceFilter.insertDots pattern) =
      some (RaceFilter.insertDots (if pattern.head? = some '^' ∨ (core pattern).head? = some '*' ∨
        (core pattern).head? = some '.' then [] else ['*']) ++
        RaceFilter.insertDots (unheaded pattern)) := by
  obtain ⟨letter, rest, rfl⟩ := List.exists_cons_of_ne_nil nonempty
  simp only [core_head (show '*' ≠ '$' by decide), core_head (show '.' ≠ '$' by decide), unheaded,
    List.head?_cons, Option.some.injEq, List.tail_cons]
  by_cases anchored : letter = '^'
  · subst anchored
    rfl
  · simp only [anchored, if_false, false_or, List.head?_cons, Option.some.injEq]
    by_cases asterisk : letter = '*'
    · subst asterisk
      rfl
    · by_cases dot : letter = '.'
      · subst dot
        rfl
      · have second : (RaceFilter.insertDots rest ++ ['\x00'])[0]? ≠ some '*' := by
          rw [← List.head?_eq_getElem?, List.head?_append]
          cases head : (RaceFilter.insertDots rest).head? with
          | none => exact nofun
          | some first => exact fun same => insertDots_head rest (head.trans same)
        simpa [RaceFilter.wildcardAtBeginning, RaceFilter.insertDots, anchored, asterisk, dot]
          using second

theorem wildcardAtEnd_eq {pattern front : List Char} (nonempty : pattern ≠ [])
    (proper : pattern ≠ ['^']) :
    RaceFilter.wildcardAtEnd (front ++ RaceFilter.insertDots (unheaded pattern)) =
      some (front ++ RaceFilter.insertDots (core pattern) ++ RaceFilter.insertDots
        (if (unheaded pattern).getLast? = some '$' ∨ (core pattern).getLast? = some '*' then []
          else ['*'])) := by
  by_cases ends : (unheaded pattern).getLast? = some '$'
  · have whole := unheaded_eq pattern
    rw [if_pos ends] at whole
    have last : (front ++ RaceFilter.insertDots (unheaded pattern)).getLast? = some '$' := by
      rw [whole, List.getLast?_append, insertDots_getLast]
      rfl
    rw [RaceFilter.wildcardAtEnd, last, if_pos (Or.inl ends), whole, insertDots_append,
      ← List.append_assoc]
    exact congrArg some ((List.dropLast_concat ..).trans (List.append_nil _).symm)
  · have whole := unheaded_eq pattern
    rw [if_neg ends, List.append_nil] at whole
    have coreNonempty : core pattern ≠ [] := by
      intro empty
      rw [empty, unheaded] at whole
      split at whole
      · rename_i anchored
        obtain ⟨tail, rfl⟩ := List.head?_eq_some_iff.mp anchored
        exact proper (congrArg _ whole)
      · exact nonempty whole
    obtain ⟨start, last, isLast⟩ :=
      (List.eq_nil_or_concat' (core pattern)).resolve_left coreNonempty
    rw [whole, isLast, List.getLast?_concat] at ends
    have noAnchor : last ≠ '$' := fun same => ends (congrArg some same)
    have found : (front ++ RaceFilter.insertDots (core pattern)).getLast? = some last := by
      rw [isLast, List.getLast?_append, insertDots_getLast]
      rfl
    rw [RaceFilter.wildcardAtEnd, whole, found, isLast, List.getLast?_concat]
    simp only [noAnchor, if_false, Option.some.injEq, false_or]
    split
    · exact (List.append_nil _).symm
    · rfl

/-- The filter inserts dots into the padded pattern. -/
theorem normalizeString_eq {pattern : List Char} (nonempty : pattern ≠ [])
    (proper : pattern ≠ ['^']) :
    RaceFilter.normalizeString pattern = some (RaceFilter.insertDots (padded pattern)) := by
  rw [RaceFilter.normalizeString, wildcardAtBeginning_eq nonempty, Option.bind_some,
    wildcardAtEnd_eq nonempty proper, padded, insertDots_append, insertDots_append]

/-! ### Patterns without operators -/

/-- What stands in the expression for a letter of the pattern. -/
def piece (letter : Char) : Regex.Piece :=
  if letter = '*' then .anything else if letter = '.' then .dot else .letter letter

theorem insertDots_eq_render (text : List Char) :
    RaceFilter.insertDots text = (text.map piece).flatMap Regex.Piece.render := by
  induction text with
  | nil => rfl
  | cons letter text inductionHypothesis =>
    rw [RaceFilter.insertDots, List.map_cons, List.flatMap_cons, ← inductionHypothesis, piece]
    split
    · rfl
    · split
      · rename_i dot
        rw [dot]
        rfl
      · rfl

/-- A text of letters other than operators, dots and asterisks matches piece by piece. -/
theorem regexMatch_insertDots {text : List Char}
    (ordinary : ∀ letter ∈ text, Regex.isOperator letter → letter = '*' ∨ letter = '.')
    (name : List Char) :
    Regex.regexMatch (RaceFilter.insertDots text) name = some true ↔
      name ∈ ((text.map piece).map Regex.Piece.language).prod := by
  rw [insertDots_eq_render]
  refine Regex.Piece.regexMatch_render (fun part member => ?_) name
  obtain ⟨letter, inside, rfl⟩ := List.mem_map.mp member
  rw [piece]
  split
  · trivial
  · split
    · trivial
    · rename_i asterisk dot
      exact Bool.eq_false_iff.mpr fun operator =>
        (ordinary letter inside operator).elim asterisk dot

theorem meaning_asterisk : meaning '*' = ⊤ := by
  ext text
  exact ⟨fun _ => trivial, fun _ => Or.inl rfl⟩

theorem top_mul_top : (⊤ : Language Char) * ⊤ = ⊤ := by
  ext text
  exact ⟨fun _ => trivial, fun _ => ⟨[], trivial, text, trivial, rfl⟩⟩

/-- On names without line breaks the pieces match what the letters stand for. -/
theorem mem_pieces_iff {text : List Char}
    (ordinary : ∀ letter ∈ text, Regex.isOperator letter → letter = '*') {name : List Char}
    (unbroken : Unbroken name) :
    name ∈ ((text.map piece).map Regex.Piece.language).prod ↔ name ∈ (text.map meaning).prod := by
  induction text generalizing name with
  | nil => rfl
  | cons letter text inductionHypothesis =>
    obtain ⟨first, others⟩ := List.forall_mem_cons.mp ordinary
    have same : ∀ part, Unbroken part →
        (part ∈ (piece letter).language ↔ part ∈ meaning letter) := fun part partUnbroken => by
      rw [piece]
      split
      · rename_i asterisk
        exact ⟨fun _ => Or.inl asterisk, fun _ => partUnbroken⟩
      · rename_i asterisk
        split
        · rename_i dot
          exact absurd (first (dot ▸ rfl)) asterisk
        · exact ⟨Or.inr, fun stands => stands.resolve_left asterisk⟩
    simp only [List.map_cons, List.prod_cons, Language.mem_mul]
    constructor
    · rintro ⟨part, partMember, rest, restMember, rfl⟩
      obtain ⟨partUnbroken, restUnbroken⟩ := List.forall_mem_append.mp unbroken
      exact ⟨part, (same part partUnbroken).mp partMember, rest,
        (inductionHypothesis others restUnbroken).mp restMember, rfl⟩
    · rintro ⟨part, partMember, rest, restMember, rfl⟩
      obtain ⟨partUnbroken, restUnbroken⟩ := List.forall_mem_append.mp unbroken
      exact ⟨part, (same part partUnbroken).mpr partMember, rest,
        (inductionHypothesis others restUnbroken).mpr restMember, rfl⟩

/-- The added asterisks stand for what is not anchored. -/
theorem padded_meaning {pattern : List Char} (noDot : (core pattern).head? ≠ some '.') :
    ((padded pattern).map meaning).prod = format pattern := by
  have front : ∀ others : Language Char,
      (((if pattern.head? = some '^' ∨ (core pattern).head? = some '*' ∨
        (core pattern).head? = some '.' then [] else ['*']).map meaning).prod *
          ((core pattern).map meaning).prod) * others =
        ((if pattern.head? = some '^' then 1 else ⊤) * ((core pattern).map meaning).prod) *
          others := fun others => by
    by_cases anchored : pattern.head? = some '^'
    · simp [anchored]
    · by_cases asterisk : (core pattern).head? = some '*'
      · obtain ⟨rest, isCore⟩ := List.head?_eq_some_iff.mp asterisk
        simp [anchored, isCore, meaning_asterisk, ← mul_assoc, top_mul_top]
      · simp [anchored, asterisk, noDot, meaning_asterisk]
  have back : ((core pattern).map meaning).prod *
      ((if (unheaded pattern).getLast? = some '$' ∨ (core pattern).getLast? = some '*' then []
        else ['*']).map meaning).prod =
      ((core pattern).map meaning).prod *
        (if (unheaded pattern).getLast? = some '$' then 1 else ⊤) := by
    by_cases anchored : (unheaded pattern).getLast? = some '$'
    · simp [anchored]
    · by_cases asterisk : (core pattern).getLast? = some '*'
      · obtain ⟨rest, isCore⟩ := List.getLast?_eq_some_iff.mp asterisk
        simp [anchored, isCore, meaning_asterisk, mul_assoc, top_mul_top]
      · simp [anchored, asterisk, meaning_asterisk]
  rw [padded, List.map_append, List.map_append, List.prod_append, List.prod_append, front,
    mul_assoc, back, format, mul_assoc]

/-- A letter of the padded pattern is one of the core or an asterisk. -/
theorem mem_padded {pattern : List Char} {letter : Char} (member : letter ∈ padded pattern) :
    letter ∈ core pattern ∨ letter = '*' := by
  rw [padded] at member
  obtain front | back := List.mem_append.mp member
  · obtain added | inside := List.mem_append.mp front
    · split at added
      · exact absurd added List.not_mem_nil
      · exact Or.inr (List.mem_singleton.mp added)
    · exact Or.inl inside
  · split at back
    · exact absurd back List.not_mem_nil
    · exact Or.inr (List.mem_singleton.mp back)

/-- A pattern without operators means what the format says. -/
theorem Literal.meansFormat {pattern : List Char} (literal : Literal pattern)
    (nonempty : pattern ≠ []) : MeansFormat pattern := by
  refine ⟨_, normalizeString_eq nonempty literal.proper, fun name unbroken => ?_⟩
  have ordinary : ∀ letter ∈ padded pattern, Regex.isOperator letter → letter = '*' :=
    fun letter member operator =>
      (mem_padded member).elim (fun inside => literal.ordinary letter inside operator) id
  have noDot : (core pattern).head? ≠ some '.' := fun dot =>
    absurd (literal.ordinary '.' (List.mem_of_mem_head? dot) rfl) (by decide)
  rw [regexMatch_insertDots fun letter member operator =>
    Or.inl (ordinary letter member operator), mem_pieces_iff ordinary unbroken,
    padded_meaning noDot]

/-! ### What a file suppresses -/

/-- The patterns of the entries about a subject. -/
def patterns (subject : String) (entries : List (List Char)) : List (List Char) :=
  entries.filterMap fun entry => (RaceFilter.splitEntry entry).bind fun (found, pattern) =>
    if found = subject.toList then some pattern else none

/-- The names an entry with the pattern matches. -/
def test (pattern : List Char) : String → Bool := fun name =>
  (RaceFilter.normalizeString pattern).any fun expr => RaceFilter.matchesName expr name

/-- The filter has the tests of the entries besides those it had. -/
structure HasRead (filter : RaceFilter) (entries : List (List Char)) (next : RaceFilter) :
    Prop where
  rtosList : next.rtosList = filter.rtosList ++ (patterns "race_tos" entries).map test
  raceList : next.raceList = filter.raceList ++ (patterns "race" entries).map test
  addrList : next.addrList = filter.addrList

theorem patterns_nothing {entry : List Char} (noEntry : RaceFilter.splitEntry entry = none)
    (subject : String) : patterns subject [entry] = [] := by
  rw [patterns, List.filterMap_cons, noEntry]
  rfl

theorem patterns_entry {entry found pattern : List Char}
    (isEntry : RaceFilter.splitEntry entry = some (found, pattern)) (subject : String) :
    patterns subject [entry] = if found = subject.toList then [pattern] else [] := by
  rw [patterns, List.filterMap_cons, isEntry, Option.bind_some]
  by_cases same : found = subject.toList
  · simp only [if_pos same, List.filterMap_nil]
  · simp only [if_neg same, List.filterMap_nil]

theorem matchesName_eq_test {pattern expr : List Char}
    (normalized : RaceFilter.normalizeString pattern = some expr) :
    RaceFilter.matchesName expr = test pattern := by
  funext name
  rw [test, normalized, Option.any_some]

theorem readEntry_hasRead {filter next : RaceFilter} {entry : List Char}
    (read : filter.readEntry entry = some next) : HasRead filter [entry] next := by
  have same : ∀ list : List (String → Bool), list = list ++ [].map test := fun list =>
    (List.append_nil list).symm
  unfold RaceFilter.readEntry at read
  split at read
  · rename_i noEntry
    cases read
    refine ⟨?_, ?_, rfl⟩ <;> rw [patterns_nothing noEntry] <;> exact same _
  · rename_i subject pattern isEntry
    have found := patterns_entry isEntry
    split at read
    · rename_i isTos
      obtain ⟨expr, normalized, rfl⟩ := Option.map_eq_some_iff.mp read
      have noRace : "race_tos".toList ≠ "race".toList := by decide
      rw [isTos] at found
      refine ⟨?_, ?_, rfl⟩
      · rw [found, if_pos rfl, matchesName_eq_test normalized]
        rfl
      · rw [found, if_neg noRace]
        exact same _
    · rename_i noTos
      split at read
      · rename_i isRace
        obtain ⟨expr, normalized, rfl⟩ := Option.map_eq_some_iff.mp read
        refine ⟨?_, ?_, rfl⟩
        · rw [found, if_neg noTos]
          exact same _
        · rw [found, if_pos isRace, matchesName_eq_test normalized]
          rfl
      · rename_i noRace
        cases read
        refine ⟨?_, ?_, rfl⟩
        · rw [found, if_neg noTos]
          exact same _
        · rw [found, if_neg noRace]
          exact same _

theorem init_hasRead {filter next : RaceFilter} {entries : List (List Char)}
    (read : entries.foldlM RaceFilter.readEntry filter = some next) :
    HasRead filter entries next := by
  induction entries generalizing filter with
  | nil =>
    cases read
    exact ⟨(List.append_nil _).symm, (List.append_nil _).symm, rfl⟩
  | cons entry entries inductionHypothesis =>
    rw [List.foldlM_cons] at read
    obtain ⟨middle, first, others⟩ := Option.bind_eq_some_iff.mp read
    have readFirst := readEntry_hasRead first
    have readOthers := inductionHypothesis others
    have split : ∀ subject, patterns subject (entry :: entries) =
        patterns subject [entry] ++ patterns subject entries := fun subject =>
      show patterns subject ([entry] ++ entries) = _ from List.filterMap_append
    refine ⟨?_, ?_, readOthers.addrList.trans readFirst.addrList⟩
    · rw [split, List.map_append, ← List.append_assoc, ← readFirst.rtosList, readOthers.rtosList]
    · rw [split, List.map_append, ← List.append_assoc, ← readFirst.raceList, readOthers.raceList]

/-- The test of a pattern without operators tells whether the name is one it stands for. -/
theorem test_iff {pattern : List Char} (literal : Literal pattern) (nonempty : pattern ≠ [])
    {name : String} (unbroken : Unbroken name.toList) :
    test pattern name ↔ name.toList ∈ format pattern := by
  obtain ⟨expr, normalized, means⟩ := literal.meansFormat nonempty
  rw [← means name.toList unbroken, test, normalized, Option.any_some, RaceFilter.matchesName,
    beq_iff_eq]

/-- A race is suppressed by a file without operators if and only if one of its patterns stands
for the name of a function: for one on the stacks, if the entry is about all of them, and for
one on top, if it is about these. -/
theorem checkSuppress_iff {content : List Char} {entries : List (List Char)}
    (isFile : entries = content.splitOn '\n') {filter : RaceFilter}
    (read : RaceFilter.init {} content = some filter)
    (literal : ∀ pattern ∈ patterns "race" entries ++ patterns "race_tos" entries,
      Literal pattern ∧ pattern ≠ [])
    {race : DecoratedRace}
    (unbroken : ∀ symbol ∈ race.first.resolvedStack ++ race.second.resolvedStack,
      Unbroken symbol.symName.toList) :
    filter.checkSuppress race ↔
      (∃ pattern ∈ patterns "race" entries,
        ∃ symbol ∈ race.first.resolvedStack ++ race.second.resolvedStack,
          symbol.symName.toList ∈ format pattern) ∨
      (race.first.stackSize ≠ 0 ∧ race.second.stackSize ≠ 0 ∧
        ∃ pattern ∈ patterns "race_tos" entries,
          ∃ symbol, (race.first.resolvedStack.getLast? = some symbol ∨
            race.second.resolvedStack.getLast? = some symbol) ∧
            symbol.symName.toList ∈ format pattern) := by
  rw [RaceFilter.init, ← isFile] at read
  have hasRead := init_hasRead read
  have rtosList : filter.rtosList = (patterns "race_tos" entries).map test := hasRead.rtosList
  have raceList : filter.raceList = (patterns "race" entries).map test := hasRead.raceList
  have addrList : filter.addrList = [] := hasRead.addrList
  have tests : ∀ pattern ∈ patterns "race" entries ++ patterns "race_tos" entries,
      ∀ symbol ∈ race.first.resolvedStack ++ race.second.resolvedStack,
        (test pattern symbol.symName ↔ symbol.symName.toList ∈ format pattern) :=
    fun pattern member symbol onStack =>
      test_iff (literal pattern member).1 (literal pattern member).2 (unbroken symbol onStack)
  have noBlock : ∀ addr, filter.addrIsSuppressed addr = false := fun addr => by
    rw [RaceFilter.addrIsSuppressed, addrList]
    rfl
  rw [RaceFilter.checkSuppress, Bool.or_eq_true]
  refine or_congr ?_ ?_
  · rw [RaceFilter.checkRace, noBlock, noBlock, raceList]
    simp only [Bool.false_or, List.any_map, List.any_eq_true, Function.comp_apply,
      Bool.or_eq_true]
    refine exists_congr fun pattern => and_congr_right fun member => ?_
    have listed := List.mem_append_left (patterns "race_tos" entries) member
    rw [← exists_or]
    refine exists_congr fun symbol => ?_
    rw [← or_and_right, ← List.mem_append]
    exact and_congr_right fun onStack => tests pattern listed symbol onStack
  · rw [RaceFilter.checkRtos, rtosList]
    split
    · rename_i noStack
      refine iff_of_false nofun fun ⟨first, second, _⟩ => ?_
      exact noStack.elim first second
    · rename_i full
      rw [not_or] at full
      rw [and_iff_right full.1, and_iff_right full.2]
      simp only [List.any_map, List.any_eq_true, Function.comp_apply, Bool.or_eq_true,
        Option.any_eq_true]
      refine exists_congr fun pattern => and_congr_right fun member => ?_
      have listed := List.mem_append_right (patterns "race" entries) member
      rw [← exists_or]
      refine exists_congr fun symbol => ?_
      rw [← or_and_right]
      refine and_congr_right fun top => tests pattern listed symbol ?_
      rcases top with first | second
      · exact List.mem_append_left _ (List.mem_of_getLast? first)
      · exact List.mem_append_right _ (List.mem_of_getLast? second)

end Suppression

end Drace
