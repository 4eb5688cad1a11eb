/-
This file proves what two kinds of ECMAScript patterns match.

If nothing in a pattern is escaped or counted and nothing looks ahead, its node is local
and needs no more letters than the pattern has, less those that are operators. A pattern
of ordinary letters, dots and `.*` matches what it looks like.
-/

import Drace.EcmaScript

namespace Regex

/-! ### What an elementary pattern demands -/

/-- The text begins with a count, a lookahead, a back reference or a word boundary. -/
def startsSpecial : List Char → Bool
  | '{' :: _ => true
  | '(' :: '?' :: letter :: _ => letter = '=' ∨ letter = '!'
  | '\\' :: letter :: _ => letter.isDigit ∨ letter = 'b' ∨ letter = 'B'
  | _ => false

/-- There is no count, lookahead, back reference or word boundary in the text. -/
def Elementary (text : List Char) : Prop := ∀ rest ∈ text.tails, startsSpecial rest = false

instance (text : List Char) : Decidable (Elementary text) := List.decidableBAll _ _

theorem Elementary.plain {text : List Char} (elementary : Elementary text) :
    startsSpecial text = false :=
  elementary text ((List.mem_tails ..).mpr (List.suffix_refl text))

theorem Elementary.suffix {text rest : List Char} (elementary : Elementary text)
    (suffix : rest <:+ text) : Elementary rest := fun inner member =>
  elementary inner ((List.mem_tails ..).mpr (((List.mem_tails ..).mp member).trans suffix))

theorem elementary_cons {letter : Char} {text : List Char} :
    Elementary (letter :: text) ↔ startsSpecial (letter :: text) = false ∧ Elementary text := by
  rw [Elementary, List.tails_cons, List.forall_mem_cons, Elementary]

/-- Rewriting a text can only make the beginning special with dots or asterisks, and these are
not special. -/
theorem startsSpecial_of_rewrite {rewrite : List Char → List Char} {mark : Char}
    (isMark : mark = '.' ∨ mark = '*')
    (same : ∀ text letter expr, letter ≠ mark → rewrite text = letter :: expr →
      ∃ rest, text = letter :: rest ∧ rewrite rest = expr)
    {text : List Char} (special : startsSpecial (rewrite text) = true) :
    startsSpecial text = true := by
  have noMark : ∀ letter, letter ≠ '.' ∧ letter ≠ '*' → letter ≠ mark := by
    rintro letter ⟨noDot, noAsterisk⟩ rfl
    exact isMark.elim noDot noAsterisk
  unfold startsSpecial at special
  split at special
  · rename_i expr whole
    obtain ⟨rest, rfl, -⟩ := same _ _ _ (noMark _ (by decide)) whole
    rfl
  · rename_i letter expr whole
    have plain : letter ≠ '.' ∧ letter ≠ '*' :=
      ⟨by rintro rfl; exact absurd special (by decide),
        by rintro rfl; exact absurd special (by decide)⟩
    obtain ⟨first, rfl, wholeFirst⟩ := same _ _ _ (noMark _ (by decide)) whole
    obtain ⟨second, rfl, wholeSecond⟩ := same _ _ _ (noMark _ (by decide)) wholeFirst
    obtain ⟨third, rfl, -⟩ := same _ _ _ (noMark _ plain) wholeSecond
    exact special
  · rename_i letter expr whole
    have plain : letter ≠ '.' ∧ letter ≠ '*' :=
      ⟨by rintro rfl; exact absurd special (by decide),
        by rintro rfl; exact absurd special (by decide)⟩
    obtain ⟨first, rfl, wholeFirst⟩ := same _ _ _ (noMark _ (by decide)) whole
    obtain ⟨second, rfl, -⟩ := same _ _ _ (noMark _ plain) wholeFirst
    exact special
  · exact absurd special nofun

theorem startsSpecial_append {text : List Char} (special : startsSpecial text = true)
    (more : List Char) : startsSpecial (text ++ more) = true := by
  unfold startsSpecial at special
  split at special
  · rfl
  · exact special
  · exact special
  · exact absurd special nofun

theorem Elementary.of_append {text more : List Char} (elementary : Elementary (text ++ more)) :
    Elementary text := by
  intro rest member
  obtain ⟨front, rfl⟩ := (List.mem_tails ..).mp member
  rw [List.append_assoc] at elementary
  have plain := (elementary.suffix (List.suffix_append front _)).plain
  exact Bool.eq_false_iff.mpr fun special =>
    absurd (startsSpecial_append special more) (Bool.eq_false_iff.mp plain)

/-- Twice the letters a letter of a pattern can demand. A class demands one for its two
brackets. -/
def letterDemand (letter : Char) : ℕ :=
  if letter = '[' ∨ letter = ']' then 1
  else if isOperator letter ∧ letter ≠ '.' then 0
  else 2

/-- Twice the letters a pattern can demand. An escape demands one, and nothing demands any that
an asterisk stands behind. -/
def demand : List Char → ℕ
  | [] => 0
  | '\\' :: letter :: rest =>
    (if letter = '.' ∧ rest.head? = some '*' then 0 else 2) + demand rest
  | letter :: rest =>
    (if letter = '.' ∧ rest.head? = some '*' then 0 else letterDemand letter) + demand rest

theorem letterDemand_le (letter : Char) : letterDemand letter ≤ 2 := by
  rw [letterDemand]
  split
  · exact Nat.le_succ 1
  · split <;> omega

theorem letterDemand_lt {letter : Char} (operator : isOperator letter) (noDot : letter ≠ '.') :
    letterDemand letter < 2 := by
  rw [letterDemand]
  split
  · exact Nat.lt_succ_self 1
  · rw [if_pos ⟨operator, noDot⟩]
    exact Nat.zero_lt_two

theorem demand_cons {letter : Char} (noEscape : letter ≠ '\\') (rest : List Char) :
    demand (letter :: rest) =
      (if letter = '.' ∧ rest.head? = some '*' then 0 else letterDemand letter) + demand rest := by
  rw [demand]
  exact fun _ _ escape _ => noEscape escape

theorem demand_escape (letter : Char) (rest : List Char) :
    demand ('\\' :: letter :: rest) =
      (if letter = '.' ∧ rest.head? = some '*' then 0 else 2) + demand rest := by
  rw [demand]

/-- A letter more demands no less, and at most one letter more. -/
theorem demand_cons_le (letter : Char) (rest : List Char) :
    demand rest ≤ demand (letter :: rest) ∧ demand (letter :: rest) ≤ 2 + demand rest := by
  induction rest generalizing letter with
  | nil =>
    by_cases escape : letter = '\\'
    · subst escape
      decide
    · have := letterDemand_le letter
      rw [demand_cons escape]
      split <;> simp only [demand] <;> omega
  | cons next rest inductionHypothesis =>
    by_cases escape : letter = '\\'
    · obtain ⟨noLess, atMost⟩ := inductionHypothesis next
      subst escape
      rw [demand_escape]
      split
      · rename_i taken
        rw [demand_cons (taken.1 ▸ by decide), if_pos taken]
        omega
      · omega
    · have := letterDemand_le letter
      rw [demand_cons escape]
      split <;> omega

theorem demand_suffix {text rest : List Char} (suffix : rest <:+ text) :
    demand rest ≤ demand text := by
  induction text with
  | nil => rw [List.suffix_nil.mp suffix]
  | cons letter text inductionHypothesis =>
    obtain rfl | suffix := List.suffix_cons_iff.mp suffix
    · exact le_rfl
    · exact (inductionHypothesis suffix).trans (demand_cons_le letter text).1

/-- An escape other than a back reference stands for one letter. -/
theorem atomEscape_letter {letter : Char} {tail rest : List Char} {node : Node Char}
    (noDigit : letter.isDigit = false) (escape : atomEscape (letter :: tail) = some (node, rest)) :
    (∃ accepts, node = .letter accepts) ∧ rest <:+ tail ∧ (letter = '.' → rest = tail) := by
  have noDigits : (letter :: tail).span Char.isDigit = ([], letter :: tail) := by
    rw [List.span_eq_takeWhile_dropWhile, List.takeWhile_cons, List.dropWhile_cons, noDigit]
    rfl
  unfold atomEscape at escape
  rw [noDigits] at escape
  simp only at escape
  split at escape
  · rename_i accepts behind isClass
    cases escape
    obtain ⟨head, more, same, suffix⟩ := classEscape_leaves isClass
    cases same
    exact ⟨⟨accepts, rfl⟩, suffix, fun dot => absurd isClass (dot ▸ nofun)⟩
  · obtain ⟨⟨single, behind⟩, character, same⟩ := Option.map_eq_some_iff.mp escape
    cases same
    obtain ⟨head, more, same, suffix⟩ := characterEscape_leaves character
    cases same
    refine ⟨⟨_, rfl⟩, suffix, ?_⟩
    rintro rfl
    cases character
    rfl

/-- An asterisk takes back what is demanded before it. Anything else demands what it needs. -/
theorem atom_demand {input rest : List Char} {node : Node Char} (elementary : Elementary input)
    (parsed : atom input = some (node, rest)) :
    node.Local ∧ (rest.head? = some '*' ∨ 2 * node.weight + demand rest ≤ demand input) := by
  have classDemand : ∀ {tail behind : List Char}, ']' :: behind <:+ tail →
      2 * 1 + demand behind ≤ demand ('[' :: tail) := fun {tail behind} bracket => by
    have inside := demand_suffix bracket
    rw [demand_cons (by decide), if_neg fun dot => absurd dot.1 (by decide),
      show letterDemand ']' = 1 from rfl] at inside
    rw [demand_cons (by decide), if_neg fun dot => absurd dot.1 (by decide),
      show letterDemand '[' = 1 from rfl]
    omega
  unfold atom at parsed
  split at parsed
  · cases parsed
    refine ⟨trivial, or_iff_not_imp_left.mpr fun more => ?_⟩
    rw [demand_cons (by decide), if_neg fun dot => more dot.2]
    exact le_rfl
  · rename_i tail
    cases tail with
    | nil => exact absurd parsed nofun
    | cons letter tail =>
      have noDigit : letter.isDigit = false := by
        have plain := elementary.plain
        simp only [startsSpecial, decide_eq_false_iff_not, not_or, Bool.not_eq_true] at plain
        exact plain.1
      obtain ⟨⟨accepts, rfl⟩, suffix, same⟩ := atomEscape_letter noDigit parsed
      have left := demand_suffix suffix
      refine ⟨trivial, ?_⟩
      rw [demand_escape]
      split
      · rename_i taken
        rw [same taken.1]
        exact Or.inl taken.2
      · exact Or.inr (Nat.add_le_add_left left 2)
  · obtain ⟨⟨accepts, behind⟩, ranges, same⟩ := Option.map_eq_some_iff.mp parsed
    cases same
    exact ⟨trivial, Or.inr (classDemand
      ((classRanges_bracket ranges).trans (List.suffix_cons '^' _)))⟩
  · obtain ⟨⟨accepts, behind⟩, ranges, same⟩ := Option.map_eq_some_iff.mp parsed
    cases same
    exact ⟨trivial, Or.inr (classDemand (classRanges_bracket ranges))⟩
  · rename_i letter tail _ _ _ _
    split at parsed
    · exact absurd parsed nofun
    · rename_i ordinary
      cases parsed
      have noOperator : ∀ operator, isOperator operator → letter ≠ operator := by
        rintro operator isOperator rfl
        exact ordinary isOperator
      refine ⟨trivial, Or.inr ?_⟩
      have noDot : letter ≠ '.' := noOperator '.' rfl
      rw [demand_cons (noOperator _ rfl), if_neg fun dot => noDot dot.1, letterDemand,
        if_neg, if_neg fun operator => ordinary operator.1]
      · exact le_rfl
      · exact not_or.mpr ⟨noOperator _ rfl, noOperator _ rfl⟩
  · exact absurd parsed nofun

/-- What the parser returns is local, and the text it read demands what the node needs. -/
def Demands (parser : Parser) : Prop :=
  ∀ groups input node opened rest, Elementary input →
    parser groups input = some (node, opened, rest) →
      node.Local ∧ 2 * node.weight + demand rest ≤ demand input

theorem bracketed_demand {nested : Parser} (demands : Demands nested) {groups opened : ℕ}
    {input rest : List Char} {node : Node Char} (elementary : Elementary input)
    (parsed : bracketed nested groups input = some (node, opened, rest)) :
    node.Local ∧ (rest.head? = some '*' ∨ 2 * node.weight + demand rest ≤ demand input) := by
  unfold bracketed at parsed
  split at parsed
  · obtain ⟨⟨found, left⟩, isAtom, same⟩ := Option.map_eq_some_iff.mp parsed
    cases same
    exact atom_demand elementary isAtom
  · rename_i kind inside opens
    obtain ⟨⟨body, count, behind⟩, parsedBody, parsed⟩ := Option.bind_eq_some_iff.mp parsed
    have suffix := (opening_leaves opens).suffix
    obtain ⟨isLocal, bodyDemand⟩ := demands _ _ _ _ _ (elementary.suffix suffix) parsedBody
    have enclosed : ∀ index, (kind.enclose body index).Local ∧
        (kind.enclose body index).weight = body.weight := fun index => by
      have plain := elementary.plain
      unfold opening at opens
      split at opens
      case h_1 | h_4 =>
        cases opens
        exact ⟨isLocal, rfl⟩
      case h_2 | h_3 => exact absurd plain nofun
      case h_5 => exact absurd opens nofun
    simp only at parsed
    split at parsed
    · cases parsed
      refine ⟨(enclosed _).1, Or.inr ?_⟩
      rw [(enclosed _).2]
      have closing := demand_suffix (List.suffix_cons ')' rest)
      exact (Nat.add_le_add_left closing _).trans (bodyDemand.trans (demand_suffix suffix))
    · exact absurd parsed nofun

/-- A quantifier other than a count asks for no more than its node. An asterisk asks for
nothing. -/
theorem quantified_demand {node other : Node Char} {firstGroup endGroup : ℕ}
    {input rest : List Char} (isLocal : node.Local) (elementary : Elementary input)
    (parsed : quantified node firstGroup endGroup input = some (other, rest)) :
    other.Local ∧ other.weight ≤ node.weight ∧ (input.head? = some '*' → other.weight = 0) := by
  obtain ⟨⟨limits, behind⟩, limited, parsed⟩ := Option.bind_eq_some_iff.mp parsed
  have limits_spec : ∀ least most, limits = some (least, most) →
      least ≤ 1 ∧ (input.head? = some '*' → least = 0) := by
    rintro least most rfl
    unfold quantifier at limited
    split at limited
    case h_1 | h_3 =>
      cases limited
      exact ⟨Nat.zero_le 1, fun _ => rfl⟩
    case h_2 =>
      cases limited
      exact ⟨le_rfl, nofun⟩
    case h_4 => exact absurd elementary.plain nofun
    case h_5 => exact absurd limited nofun
  simp only at parsed
  split at parsed
  · cases parsed
    refine ⟨isLocal, le_rfl, fun asterisk => ?_⟩
    obtain ⟨tail, rfl⟩ := List.head?_eq_some_iff.mp asterisk
    exact absurd limited nofun
  · rename_i least most
    obtain ⟨small, optional⟩ := limits_spec least most rfl
    have lighter : least * node.weight ≤ node.weight :=
      (Nat.mul_le_mul_right _ small).trans_eq (Nat.one_mul _)
    have nothing : input.head? = some '*' → least * node.weight = 0 := fun asterisk => by
      rw [optional asterisk, Nat.zero_mul]
    split at parsed
    · cases parsed
      exact ⟨isLocal, lighter, nothing⟩
    · cases parsed
      exact ⟨isLocal, lighter, nothing⟩

theorem term_demand {nested : Parser} (suffix : LeavesSuffix nested) (demands : Demands nested)
    {groups opened : ℕ} {input rest : List Char} {node : Node Char}
    (elementary : Elementary input)
    (parsed : term nested groups input = some (node, opened, rest)) :
    node.Local ∧ 2 * node.weight + demand rest ≤ demand input := by
  unfold term at parsed
  split at parsed
  · rename_i asserted
    cases parsed
    have left := demand_suffix (assertion_leaves asserted).suffix
    unfold assertion at asserted
    split at asserted
    case h_1 | h_2 =>
      cases asserted
      exact ⟨trivial, by simpa [Node.weight] using left⟩
    case h_3 | h_4 => exact absurd elementary.plain nofun
    case h_5 => exact absurd asserted nofun
  · obtain ⟨⟨inner, count, behind⟩, inside, parsed⟩ := Option.bind_eq_some_iff.mp parsed
    obtain ⟨⟨other, behindQuantifier⟩, counted, same⟩ := Option.bind_eq_some_iff.mp parsed
    cases same
    have behindSuffix := (bracketed_leaves suffix inside).suffix
    obtain ⟨innerLocal, innerDemand⟩ := bracketed_demand demands elementary inside
    obtain ⟨isLocal, lighter, nothing⟩ :=
      quantified_demand innerLocal (elementary.suffix behindSuffix) counted
    have left := demand_suffix (quantified_suffix counted)
    refine ⟨isLocal, ?_⟩
    obtain asterisk | innerDemand := innerDemand
    · rw [nothing asterisk, Nat.mul_zero, Nat.zero_add]
      exact left.trans (demand_suffix behindSuffix)
    · exact (Nat.add_le_add (Nat.mul_le_mul_left 2 lighter) left).trans innerDemand

theorem parsers_demand (fuel : ℕ) : Demands (disjunction fuel) ∧ Demands (alternative fuel) := by
  induction fuel with
  | zero => exact ⟨fun _ _ _ _ _ _ => nofun, fun _ _ _ _ _ _ => nofun⟩
  | succ fuel inductionHypothesis =>
    obtain ⟨disjunctionDemands, alternativeDemands⟩ := inductionHypothesis
    obtain ⟨disjunctionSuffix, alternativeSuffix⟩ := parsers_leave fuel
    constructor
    · intro groups input node opened rest elementary parsed
      obtain ⟨⟨first, count, behind⟩, parsedFirst, parsed⟩ := Option.bind_eq_some_iff.mp parsed
      obtain ⟨firstLocal, firstDemand⟩ := alternativeDemands _ _ _ _ _ elementary parsedFirst
      have firstSuffix := alternativeSuffix _ _ _ _ _ parsedFirst
      simp only at parsed
      split at parsed
      · rename_i tail
        obtain ⟨⟨second, more, left⟩, parsedSecond, same⟩ := Option.bind_eq_some_iff.mp parsed
        simp only [Option.some.injEq, Prod.mk.injEq] at same
        obtain ⟨rfl, -, rfl⟩ := same
        have tailSuffix := List.suffix_cons '|' tail
        obtain ⟨secondLocal, secondDemand⟩ := disjunctionDemands _ _ _ _ _
          (elementary.suffix (tailSuffix.trans firstSuffix)) parsedSecond
        refine ⟨⟨firstLocal, secondLocal⟩, ?_⟩
        have := demand_suffix tailSuffix
        rw [Node.weight]
        omega
      · cases parsed
        exact ⟨firstLocal, firstDemand⟩
    · intro groups input node opened rest elementary parsed
      rw [alternative] at parsed
      split at parsed
      · cases parsed
        exact ⟨trivial, by simp [Node.weight]⟩
      · obtain ⟨⟨first, count, behind⟩, parsedFirst, parsed⟩ := Option.bind_eq_some_iff.mp parsed
        obtain ⟨⟨second, more, left⟩, parsedSecond, same⟩ := Option.bind_eq_some_iff.mp parsed
        cases same
        obtain ⟨firstLocal, firstDemand⟩ :=
          term_demand disjunctionSuffix disjunctionDemands elementary parsedFirst
        have firstSuffix := (term_leaves disjunctionSuffix parsedFirst).suffix
        obtain ⟨secondLocal, secondDemand⟩ := alternativeDemands _ _ _ _ _
          (elementary.suffix firstSuffix) parsedSecond
        refine ⟨⟨firstLocal, secondLocal⟩, ?_⟩
        rw [Node.weight]
        omega

/-- An elementary pattern that matches anything matches a part of it that is no longer than it
demands. -/
theorem Elementary.exists_short {pattern text : List Char} (elementary : Elementary pattern)
    (matched : regexMatch pattern text = some true) :
    ∃ short, short.Sublist text ∧ 2 * short.length ≤ demand pattern ∧
      regexMatch pattern short = some true := by
  obtain ⟨node, parsed, accepted⟩ := Option.map_eq_some_iff.mp matched
  have same := parsed
  obtain ⟨⟨whole, groups, rest⟩, disjoined, checked⟩ := Option.bind_eq_some_iff.mp parsed
  obtain ⟨-, found⟩ := Option.ite_none_right_eq_some.mp checked
  cases found
  obtain ⟨isLocal, demands⟩ := (parsers_demand _).1 _ _ _ _ _ elementary disjoined
  obtain ⟨short, part, length, shortAccepted⟩ := isLocal.exists_short accepted
  refine ⟨short, part, by omega, ?_⟩
  rw [regexMatch, same, Option.map_some, shortAccepted]

/-! ### Patterns that are what they look like -/

/-- A letter that stands for itself, a dot, or a dot with an asterisk behind it. -/
inductive Piece
  | letter (letter : Char)
  | dot
  | anything
  deriving DecidableEq

namespace Piece

def render : Piece → List Char
  | .letter single => [single]
  | .dot => ['.']
  | .anything => ['.', '*']

def Ordinary : Piece → Prop
  | .letter single => isOperator single = false
  | .dot | .anything => True

def node : Piece → Node Char
  | .letter single => .letter (· = single)
  | .dot => .letter fun letter => !isLineTerminator letter
  | .anything => .repeated 0 none true 1 1 (.letter fun letter => !isLineTerminator letter)

/-- The texts a piece matches. -/
def language : Piece → Language Char
  | .letter single => {text | text = [single]}
  | .dot => {text | ∃ letter, isLineTerminator letter = false ∧ text = [letter]}
  | .anything => {text | ∀ letter ∈ text, isLineTerminator letter = false}

theorem node_regular (piece : Piece) : piece.node.Regular := by
  cases piece with
  | letter | dot => trivial
  | anything => exact ⟨nofun, trivial⟩

theorem mem_letters_pow {accepts : Char → Bool} {count : ℕ} {text : List Char} :
    text ∈ (Node.letter accepts).language ^ count ↔
      text.length = count ∧ ∀ letter ∈ text, accepts letter := by
  induction count generalizing text with
  | zero =>
    rw [pow_zero, Language.mem_one, List.length_eq_zero_iff]
    exact ⟨fun empty => ⟨empty, empty ▸ nofun⟩, And.left⟩
  | succ count inductionHypothesis =>
    rw [pow_succ', Language.mem_mul]
    constructor
    · rintro ⟨_, ⟨head, accepted, rfl⟩, tail, member, rfl⟩
      obtain ⟨length, all⟩ := inductionHypothesis.mp member
      exact ⟨by rw [List.singleton_append, List.length_cons, length],
        List.forall_mem_cons.mpr ⟨accepted, all⟩⟩
    · rintro ⟨length, all⟩
      obtain ⟨head, tail, rfl⟩ := List.exists_cons_of_length_eq_add_one length
      obtain ⟨accepted, others⟩ := List.forall_mem_cons.mp all
      exact ⟨[head], ⟨head, accepted, rfl⟩, tail,
        inductionHypothesis.mpr ⟨Nat.succ.inj length, others⟩, rfl⟩

theorem node_language (piece : Piece) : piece.node.language = piece.language := by
  cases piece with
  | letter single =>
    ext text
    simp [node, Node.language, language]
  | dot =>
    ext text
    simp [node, Node.language, language]
  | anything =>
    ext text
    constructor
    · rintro ⟨count, -, -, member⟩
      exact fun letter inside => by simpa using (mem_letters_pow.mp member).2 letter inside
    · intro all
      exact ⟨text.length, Nat.zero_le _, by rintro _ ⟨⟩, mem_letters_pow.mpr
        ⟨rfl, fun letter inside => by simpa using all letter inside⟩⟩

/-- The node the pieces are parsed to. -/
def sequence : List Piece → Node Char
  | [] => .empty
  | piece :: pieces => .sequence piece.node (sequence pieces)

theorem sequence_regular (pieces : List Piece) : (sequence pieces).Regular := by
  induction pieces with
  | nil => trivial
  | cons piece pieces inductionHypothesis => exact ⟨piece.node_regular, inductionHypothesis⟩

theorem sequence_language (pieces : List Piece) :
    (sequence pieces).language = (pieces.map language).prod := by
  induction pieces with
  | nil => rfl
  | cons piece pieces inductionHypothesis =>
    rw [sequence, Node.language, node_language, inductionHypothesis, List.map_cons, List.prod_cons]

theorem sequence_references (pieces : List Piece) : (sequence pieces).greatestReference = 0 := by
  induction pieces with
  | nil => rfl
  | cons piece pieces inductionHypothesis =>
    rw [sequence, Node.greatestReference, inductionHypothesis]
    cases piece <;> rfl

/-- The rest does not begin with a quantifier. -/
def Unquantified (rest : List Char) : Prop := ∀ letter ∈ rest.head?, letter ∉ ['*', '+', '?', '{']

theorem quantifier_none {rest : List Char} (unquantified : Unquantified rest) :
    quantifier rest = some (none, rest) := by
  unfold quantifier
  split
  case h_5 => rfl
  all_goals exact absurd (by decide) (unquantified _ rfl)

theorem render_unquantified {pieces : List Piece} (ordinary : ∀ piece ∈ pieces, piece.Ordinary) :
    Unquantified (pieces.flatMap render) := by
  cases pieces with
  | nil => exact nofun
  | cons piece pieces =>
    have first := ordinary piece List.mem_cons_self
    intro letter head
    cases piece with
    | letter single =>
      obtain rfl : single = letter := Option.some.inj head
      have operators : ∀ letter ∈ ['*', '+', '?', '{'], isOperator letter = true :=
        List.all_eq_true.mp rfl
      exact fun quantifies => absurd (operators single quantifies) (Bool.eq_false_iff.mp first)
    | dot | anything =>
      obtain rfl : '.' = letter := Option.some.inj head
      decide

/-- A term that begins neither an assertion nor brackets nor an escape. -/
theorem term_of_atom {nested : Parser} {letter : Char} {tail rest behind : List Char}
    {inner node : Node Char} (plain : letter ∉ ['^', '$', '\\', '('])
    (isAtom : atom (letter :: tail) = some (inner, rest))
    (counted : quantified inner 1 1 rest = some (node, behind)) :
    term nested 0 (letter :: tail) = some (node, 0, behind) := by
  have noAssertion : assertion (letter :: tail) = none := by
    unfold assertion
    split
    case h_5 => rfl
    all_goals
      rename_i same
      cases same
      exact absurd (by decide) plain
  have noBracket : opening (letter :: tail) = none := by
    unfold opening
    split
    case h_5 => rfl
    all_goals
      rename_i same
      cases same
      exact absurd (by decide) plain
  simp only [term, noAssertion, bracketed, noBracket, isAtom, Option.map_some,
    Option.bind_eq_bind, Option.bind_some, counted]

theorem quantified_none {node : Node Char} {rest : List Char}
    (unquantified : Unquantified rest) : quantified node 1 1 rest = some (node, rest) := by
  rw [quantified, quantifier_none unquantified]
  rfl

theorem quantified_asterisk {node : Node Char} {rest : List Char}
    (unquantified : Unquantified rest) :
    quantified node 1 1 ('*' :: rest) = some (.repeated 0 none true 1 1 node, rest) := by
  have limited : quantifier ('*' :: rest) = some (some (0, none), rest) := rfl
  simp only [quantified, limited, Option.bind_eq_bind, Option.bind_some]
  split
  · exact absurd (by decide) (unquantified '?' rfl)
  · rfl

theorem term_render {nested : Parser} {piece : Piece} (ordinary : piece.Ordinary)
    {rest : List Char} (unquantified : Unquantified rest) :
    term nested 0 (piece.render ++ rest) = some (piece.node, 0, rest) := by
  cases piece with
  | letter single =>
    have plain : isOperator single = false := ordinary
    have isAtom : atom (single :: rest) = some (.letter (· = single), rest) := by
      unfold atom
      split
      case h_5 same =>
        cases same
        rw [if_neg (Bool.eq_false_iff.mp plain)]
      case h_6 same => exact absurd same nofun
      all_goals
        rename_i same
        cases same
        exact absurd plain nofun
    have operators : ∀ letter ∈ ['^', '$', '\\', '('], isOperator letter = true :=
      List.all_eq_true.mp rfl
    exact term_of_atom (fun operator => Bool.eq_false_iff.mp plain (operators single operator))
      isAtom (quantified_none unquantified)
  | dot => exact term_of_atom (by decide) rfl (quantified_none unquantified)
  | anything =>
    exact term_of_atom (by decide) rfl (quantified_asterisk unquantified)

theorem alternative_render {pieces : List Piece} (ordinary : ∀ piece ∈ pieces, piece.Ordinary)
    {fuel : ℕ} (enough : pieces.length < fuel) :
    alternative fuel 0 (pieces.flatMap render) = some (sequence pieces, 0, []) := by
  induction pieces generalizing fuel with
  | nil =>
    obtain ⟨fuel, rfl⟩ := Nat.exists_eq_add_one.mpr enough
    rw [alternative]
    rfl
  | cons piece pieces inductionHypothesis =>
    obtain ⟨first, others⟩ := List.forall_mem_cons.mp ordinary
    rw [List.length_cons] at enough
    obtain ⟨fuel, rfl⟩ : ∃ smaller, fuel = smaller + 1 := ⟨fuel - 1, by omega⟩
    have goesOn : ¬(piece.render ++ pieces.flatMap render = [] ∨
        (piece.render ++ pieces.flatMap render).head? = some '|' ∨
        (piece.render ++ pieces.flatMap render).head? = some ')') := by
      cases piece with
      | letter single =>
        have plain : isOperator single = false := first
        simp only [render, List.singleton_append, List.head?_cons, Option.some.injEq]
        rintro (empty | rfl | rfl)
        · exact absurd empty (List.cons_ne_nil _ _)
        · exact absurd plain (by decide)
        · exact absurd plain (by decide)
      | dot | anything => simp [render]
    rw [List.flatMap_cons, alternative, if_neg goesOn,
      term_render first (render_unquantified others)]
    simp only [Option.bind_eq_bind, Option.bind_some]
    rw [inductionHypothesis others (by omega)]
    rfl

theorem length_le_render (pieces : List Piece) :
    pieces.length ≤ (pieces.flatMap render).length := by
  induction pieces with
  | nil => exact le_rfl
  | cons piece pieces inductionHypothesis =>
    have positive : 1 ≤ piece.render.length := by cases piece <;> simp [render]
    rw [List.flatMap_cons, List.length_append, List.length_cons]
    omega

theorem parse_render {pieces : List Piece} (ordinary : ∀ piece ∈ pieces, piece.Ordinary) :
    parse (pieces.flatMap render) = some (sequence pieces) := by
  have short := length_le_render pieces
  rw [parse, disjunction, alternative_render ordinary (by omega)]
  simp [sequence_references]

/-- A pattern made of pieces matches what they match one after the other. -/
theorem regexMatch_render {pieces : List Piece} (ordinary : ∀ piece ∈ pieces, piece.Ordinary)
    (text : List Char) :
    regexMatch (pieces.flatMap render) text = some true ↔
      text ∈ (pieces.map language).prod := by
  rw [regexMatch, parse_render ordinary, Option.map_some, Option.some.injEq,
    (sequence_regular pieces).accepts_iff, sequence_language]

end Piece

end Regex
