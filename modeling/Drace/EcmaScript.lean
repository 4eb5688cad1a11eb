/-
This file models the ECMAScript grammar of regular expressions in C++, in the classic
locale.

The parser turns a pattern into a node or rejects it. It calls itself for what stands
between brackets and behind a bar, with one round of fuel for every call; two rounds for
every letter are enough.
-/

import Drace.Regex

namespace Regex

/-! ### The classes of letters -/

def isLineTerminator (letter : Char) : Bool :=
  letter = '\n' ∨ letter = '\r' ∨ letter = '\u2028' ∨ letter = '\u2029'

/-- The letters a pattern can only use as operators. -/
def isOperator (letter : Char) : Bool :=
  ['^', '$', '\\', '.', '*', '+', '?', '(', ')', '[', ']', '{', '}', '|'].contains letter

def isSpace (letter : Char) : Bool :=
  [' ', '\t', '\n', '\x0b', '\x0c', '\r'].contains letter

def isWord (letter : Char) : Bool := letter.isAlphanum || letter = '_'

def isGraph (letter : Char) : Bool := '!' ≤ letter ∧ letter ≤ '~'

def isHexDigit (letter : Char) : Bool :=
  letter.isDigit || ('a' ≤ letter ∧ letter ≤ 'f') || ('A' ≤ letter ∧ letter ≤ 'F')

/-- The classes that have a name of their own. -/
def classNamed (name : String) : Option (Char → Bool) :=
  match name with
  | "alnum" => some Char.isAlphanum
  | "alpha" => some Char.isAlpha
  | "blank" => some fun letter => letter = ' ' ∨ letter = '\t'
  | "cntrl" => some fun letter => letter.toNat < 32 ∨ letter.toNat = 127
  | "digit" | "d" => some Char.isDigit
  | "graph" => some isGraph
  | "lower" => some Char.isLower
  | "print" => some fun letter => letter = ' ' ∨ isGraph letter
  | "punct" => some fun letter => isGraph letter ∧ ¬letter.isAlphanum
  | "space" | "s" => some isSpace
  | "upper" => some Char.isUpper
  | "xdigit" => some isHexDigit
  | "w" => some isWord
  | _ => none

/-! ### Escapes -/

def hexValue (letter : Char) : ℕ :=
  if letter.isDigit then letter.toNat - '0'.toNat
  else (letter.toNat - if 'a' ≤ letter then 'a'.toNat else 'A'.toNat) + 10

def hexNumber (digits : List Char) : Char :=
  Char.ofNat (digits.foldl (fun number digit => 16 * number + hexValue digit) 0)

def decimalNumber (digits : List Char) : ℕ :=
  digits.foldl (fun number digit => 10 * number + (digit.toNat - '0'.toNat)) 0

/-- `\x` and `\u` with their digits, if so many follow. -/
def hexEscape (count : ℕ) (input : List Char) : Option (Char × List Char) :=
  if (input.take count).length = count ∧ (input.take count).all isHexDigit then
    some (hexNumber (input.take count), input.drop count)
  else none

/-- An escape that stands for one letter. -/
def characterEscape : List Char → Option (Char × List Char)
  | 'f' :: rest => some ('\x0c', rest)
  | 'n' :: rest => some ('\n', rest)
  | 'r' :: rest => some ('\r', rest)
  | 't' :: rest => some ('\t', rest)
  | 'v' :: rest => some ('\x0b', rest)
  | 'c' :: letter :: rest =>
    if letter.isAlpha then some (Char.ofNat (letter.toNat % 32), rest) else none
  | ['c'] => none
  | 'x' :: rest => (hexEscape 2 rest).or (some ('x', rest))
  | 'u' :: rest => (hexEscape 4 rest).or (some ('u', rest))
  | letter :: rest => some (letter, rest)
  | [] => none

/-- An escape that stands for a class of letters. -/
def classEscape : List Char → Option ((Char → Bool) × List Char)
  | 'd' :: rest => some (Char.isDigit, rest)
  | 'D' :: rest => some (fun letter => !letter.isDigit, rest)
  | 's' :: rest => some (isSpace, rest)
  | 'S' :: rest => some (fun letter => !isSpace letter, rest)
  | 'w' :: rest => some (isWord, rest)
  | 'W' :: rest => some (fun letter => !isWord letter, rest)
  | _ => none

/-- What follows a backslash outside of a class. -/
def atomEscape (input : List Char) : Option (Node Char × List Char) :=
  let (digits, rest) := input.span Char.isDigit
  match digits with
  | ['0'] => some (.letter (· = '\x00'), rest)
  | '0' :: _ => none
  | _ :: _ => some (.backReference (decimalNumber digits), rest)
  | [] =>
    match classEscape input with
    | some (accepts, rest) => some (.letter accepts, rest)
    | none => (characterEscape input).map fun (letter, rest) => (.letter (· = letter), rest)

/-! ### Classes -/

/-- One letter or a whole class inside of a class. -/
inductive ClassAtom
  | letter (letter : Char)
  | class (accepts : Char → Bool)

def ClassAtom.accepts : ClassAtom → Char → Bool
  | .letter single => (· = single)
  | .class accepts => accepts

/-- What follows a backslash inside of a class. -/
def classAtomEscape (input : List Char) : Option (ClassAtom × List Char) :=
  match input with
  | 'b' :: rest => some (.letter '\x08', rest)
  | '0' :: rest => if rest.head?.any Char.isDigit then none else some (.letter '\x00', rest)
  | _ =>
    if input.head?.any Char.isDigit then none
    else match classEscape input with
      | some (accepts, rest) => some (.class accepts, rest)
      | none => (characterEscape input).map fun (letter, rest) => (.letter letter, rest)

/-- A letter, an escape, a named class, or a letter that stands for its equivalents. -/
def classAtom : List Char → Option (ClassAtom × List Char)
  | '\\' :: rest => classAtomEscape rest
  | '[' :: ':' :: rest =>
    match rest.span Char.isAlphanum with
    | (name, ':' :: ']' :: rest) =>
      (classNamed (String.ofList name)).map fun accepts => (.class accepts, rest)
    | _ => none
  | '[' :: '.' :: letter :: '.' :: ']' :: rest => some (.letter letter, rest)
  | '[' :: '=' :: letter :: '=' :: ']' :: rest => some (.letter letter, rest)
  | '[' :: '.' :: _ | '[' :: '=' :: _ => none
  | letter :: rest => some (.letter letter, rest)
  | [] => none

/-- The letters and ranges up to the closing bracket. A dash right before it is a letter. -/
def classRanges : ℕ → List Char → Option ((Char → Bool) × List Char)
  | 0, _ => none
  | fuel + 1, input =>
    if input.head? = some ']' then some (fun _ => false, input.tail)
    else do
      let (first, rest) ← classAtom input
      match rest with
      | '-' :: letter :: after =>
        if letter = ']' then
          let (others, rest) ← classRanges fuel rest
          some (fun candidate => first.accepts candidate || others candidate, rest)
        else
          let (last, rest) ← classAtom (letter :: after)
          let (others, rest) ← classRanges fuel rest
          match first, last with
          | .letter low, .letter high =>
            if low ≤ high then
              some (fun candidate => (low ≤ candidate && candidate ≤ high) || others candidate,
                rest)
            else none
          | _, _ => none
      | _ =>
        let (others, rest) ← classRanges fuel rest
        some (fun candidate => first.accepts candidate || others candidate, rest)

/-! ### Terms -/

/-- The positions in the input that can be asked for. -/
def assertion : List Char → Option (Node Char × List Char)
  | '^' :: rest => some (.start, rest)
  | '$' :: rest => some (.finish, rest)
  | '\\' :: 'b' :: rest => some (.wordBoundary isWord false, rest)
  | '\\' :: 'B' :: rest => some (.wordBoundary isWord true, rest)
  | _ => none

/-- What matches without being in brackets. -/
def atom : List Char → Option (Node Char × List Char)
  | '.' :: rest => some (.letter fun letter => !isLineTerminator letter, rest)
  | '\\' :: rest => atomEscape rest
  | '[' :: '^' :: rest =>
    (classRanges (rest.length + 1) rest).map fun (accepts, rest) =>
      (.letter fun letter => !accepts letter, rest)
  | '[' :: rest =>
    (classRanges (rest.length + 1) rest).map fun (accepts, rest) => (.letter accepts, rest)
  | letter :: rest => if isOperator letter then none else some (.letter (· = letter), rest)
  | [] => none

/-- The brackets a term can be in. -/
inductive Opening
  | capturing
  | grouping
  | ahead (negated : Bool)

def opening : List Char → Option (Opening × List Char)
  | '(' :: '?' :: ':' :: rest => some (.grouping, rest)
  | '(' :: '?' :: '=' :: rest => some (.ahead false, rest)
  | '(' :: '?' :: '!' :: rest => some (.ahead true, rest)
  | '(' :: rest => some (.capturing, rest)
  | _ => none

/-- The groups the opening bracket begins. -/
def Opening.groups : Opening → ℕ
  | .capturing => 1
  | .grouping | .ahead _ => 0

def Opening.enclose (body : Node Char) (index : ℕ) : Opening → Node Char
  | .capturing => .group index body
  | .grouping => body
  | .ahead negated => .lookahead negated body

/-- The bounds between braces, behind the opening one. -/
def bounds (input : List Char) : Option ((ℕ × Option ℕ) × List Char) :=
  match input.span Char.isDigit with
  | ([], _) => none
  | (low, '}' :: rest) => some ((decimalNumber low, some (decimalNumber low)), rest)
  | (low, ',' :: '}' :: rest) => some ((decimalNumber low, none), rest)
  | (low, ',' :: rest) =>
    match rest.span Char.isDigit with
    | ([], _) => none
    | (high, '}' :: rest) =>
      if decimalNumber low ≤ decimalNumber high then
        some ((decimalNumber low, some (decimalNumber high)), rest)
      else none
    | _ => none
  | _ => none

/-- How often what stands before matches. Without a quantifier the input stays as it is. -/
def quantifier (input : List Char) : Option (Option (ℕ × Option ℕ) × List Char) :=
  match input with
  | '*' :: rest => some (some (0, none), rest)
  | '+' :: rest => some (some (1, none), rest)
  | '?' :: rest => some (some (0, some 1), rest)
  | '{' :: rest => (bounds rest).map fun (limits, rest) => (some limits, rest)
  | _ => some (none, input)

/-- A node with its quantifier. A question mark behind it makes it match as little as it can. -/
def quantified (node : Node Char) (firstGroup endGroup : ℕ) (input : List Char) :
    Option (Node Char × List Char) := do
  let (limits, rest) ← quantifier input
  match limits with
  | none => some (node, rest)
  | some (least, most) =>
    match rest with
    | '?' :: rest => some (.repeated least most false firstGroup endGroup node, rest)
    | _ => some (.repeated least most true firstGroup endGroup node, rest)

/-- What a parser returns, with the number of groups begun so far and what is left of the
input. -/
abbrev Parser := ℕ → List Char → Option (Node Char × ℕ × List Char)

/-- An atom, or a pattern in brackets. The parser for what is in brackets is given. -/
def bracketed (nested : Parser) : Parser := fun groups input =>
  match opening input with
  | none => (atom input).map fun (node, rest) => (node, groups, rest)
  | some (kind, inside) => do
    let (body, opened, rest) ← nested (groups + kind.groups) inside
    match rest with
    | ')' :: rest => some (kind.enclose body (groups + 1), opened, rest)
    | _ => none

/-- An assertion, or something else with its quantifier. -/
def term (nested : Parser) : Parser := fun groups input =>
  match assertion input with
  | some (node, rest) => some (node, groups, rest)
  | none => do
    let (node, opened, rest) ← bracketed nested groups input
    let (node, rest) ← quantified node (groups + 1) (opened + 1) rest
    some (node, opened, rest)

/-! ### Patterns -/

mutual

/-- Alternatives with bars between them. -/
def disjunction : ℕ → Parser
  | 0, _, _ => none
  | fuel + 1, groups, input => do
    let (first, groups, rest) ← alternative fuel groups input
    match rest with
    | '|' :: rest =>
      let (second, groups, rest) ← disjunction fuel groups rest
      some (.choice first second, groups, rest)
    | _ => some (first, groups, rest)

/-- Terms one after the other, up to a bar or a closing bracket. -/
def alternative : ℕ → Parser
  | 0, _, _ => none
  | fuel + 1, groups, input =>
    if input = [] ∨ input.head? = some '|' ∨ input.head? = some ')' then
      some (.empty, groups, input)
    else do
      let (first, groups, rest) ← term (disjunction fuel) groups input
      let (second, groups, rest) ← alternative fuel groups rest
      some (.sequence first second, groups, rest)

end

/-- The greatest group a node refers back to. -/
def Node.greatestReference : Node Char → ℕ
  | .backReference index => index
  | .sequence first second | .choice first second =>
    max first.greatestReference second.greatestReference
  | .repeated _ _ _ _ _ body | .group _ body | .lookahead _ body => body.greatestReference
  | .empty | .letter _ | .start | .finish | .wordBoundary _ _ => 0

/-- The node of a pattern, if it is well-formed. -/
def parse (pattern : List Char) : Option (Node Char) := do
  let (node, groups, rest) ← disjunction (2 * pattern.length + 2) 0 pattern
  if rest = [] ∧ node.greatestReference ≤ groups then some node else none

/-- Match the whole input against a pattern. A pattern that is not well-formed is an error. -/
def regexMatch (pattern text : List Char) : Option Bool :=
  (parse pattern).map fun node => node.accepts text

/-! ### What the parsers leave of the input -/

/-- The rest is what is left of the input behind its first letter or further on. -/
def Leaves (input rest : List Char) : Prop :=
  ∃ head tail, input = head :: tail ∧ rest <:+ tail

namespace Leaves

variable {input middle rest tail : List Char} {head : Char}

theorem of_suffix (suffix : rest <:+ tail) : Leaves (head :: tail) rest := ⟨head, tail, rfl, suffix⟩

theorem suffix (leaves : Leaves input rest) : rest <:+ input := by
  obtain ⟨head, tail, rfl, suffix⟩ := leaves
  exact suffix.trans (List.suffix_cons head tail)

theorem length (leaves : Leaves input rest) : rest.length < input.length := by
  obtain ⟨head, tail, rfl, suffix⟩ := leaves
  exact Nat.lt_succ_of_le suffix.length_le

theorem behind (leaves : Leaves input middle) (suffix : rest <:+ middle) : Leaves input rest := by
  obtain ⟨head, tail, rfl, inside⟩ := leaves
  exact of_suffix (suffix.trans inside)

end Leaves

theorem span_suffix (accepts : Char → Bool) (input : List Char) :
    (input.span accepts).2 <:+ input := by
  rw [List.span_eq_takeWhile_dropWhile]
  exact List.dropWhile_suffix accepts

theorem hexEscape_suffix {count : ℕ} {input rest : List Char} {letter : Char}
    (escape : hexEscape count input = some (letter, rest)) : rest <:+ input := by
  rw [hexEscape, Option.ite_none_right_eq_some] at escape
  obtain ⟨-, same⟩ := escape
  rw [Option.some.injEq, Prod.mk.injEq] at same
  rw [← same.2]
  exact List.drop_suffix count input

theorem hexEscape_or_suffix {count : ℕ} {input rest : List Char} {letter other : Char}
    (escape : (hexEscape count input).or (some (other, input)) = some (letter, rest)) :
    rest <:+ input := by
  obtain hex | ⟨-, same⟩ := Option.or_eq_some_iff.mp escape
  · exact hexEscape_suffix hex
  · cases same
    exact List.suffix_refl input

theorem characterEscape_leaves {input rest : List Char} {letter : Char}
    (escape : characterEscape input = some (letter, rest)) : Leaves input rest := by
  unfold characterEscape at escape
  split at escape
  case h_6 control tail =>
    obtain ⟨-, same⟩ := Option.ite_none_right_eq_some.mp escape
    cases same
    exact .of_suffix (List.suffix_cons control rest)
  case h_8 | h_9 => exact .of_suffix (hexEscape_or_suffix escape)
  all_goals
    cases escape
    try exact .of_suffix (List.suffix_refl rest)

theorem classEscape_leaves {input rest : List Char} {accepts : Char → Bool}
    (escape : classEscape input = some (accepts, rest)) : Leaves input rest := by
  unfold classEscape at escape
  split at escape <;> cases escape <;> exact .of_suffix (List.suffix_refl rest)

theorem atomEscape_suffix {input rest : List Char} {node : Node Char}
    (escape : atomEscape input = some (node, rest)) : rest <:+ input := by
  have behindDigits := span_suffix Char.isDigit input
  unfold atomEscape at escape
  generalize input.span Char.isDigit = digits at escape behindDigits
  simp only at escape
  split at escape
  · cases escape
    exact behindDigits
  · exact absurd escape nofun
  · cases escape
    exact behindDigits
  · split at escape
    · rename_i isClass
      cases escape
      exact (classEscape_leaves isClass).suffix
    · obtain ⟨⟨letter, tail⟩, character, same⟩ := Option.map_eq_some_iff.mp escape
      cases same
      exact (characterEscape_leaves character).suffix

theorem classAtomEscape_suffix {input rest : List Char} {read : ClassAtom}
    (escape : classAtomEscape input = some (read, rest)) : rest <:+ input := by
  unfold classAtomEscape at escape
  split at escape
  · cases escape
    exact List.suffix_cons 'b' rest
  · split at escape
    · exact absurd escape nofun
    · cases escape
      exact List.suffix_cons '0' rest
  · split at escape
    · exact absurd escape nofun
    · split at escape
      · rename_i isClass
        cases escape
        exact (classEscape_leaves isClass).suffix
      · obtain ⟨⟨letter, tail⟩, character, same⟩ := Option.map_eq_some_iff.mp escape
        cases same
        exact (characterEscape_leaves character).suffix

theorem classAtom_leaves {input rest : List Char} {read : ClassAtom}
    (parsed : classAtom input = some (read, rest)) : Leaves input rest := by
  unfold classAtom at parsed
  split at parsed
  · exact .of_suffix (classAtomEscape_suffix parsed)
  · rename_i name
    have behindName := span_suffix Char.isAlphanum name
    generalize name.span Char.isAlphanum = read at parsed behindName
    split at parsed
    · obtain ⟨accepts, -, same⟩ := Option.map_eq_some_iff.mp parsed
      cases same
      refine .of_suffix (.trans (.trans ?_ behindName) (List.suffix_cons ':' name))
      exact ⟨[':', ']'], rfl⟩
    · exact absurd parsed nofun
  · cases parsed
    exact .of_suffix ⟨['.', _, '.', ']'], rfl⟩
  · cases parsed
    exact .of_suffix ⟨['=', _, '=', ']'], rfl⟩
  · exact absurd parsed nofun
  · exact absurd parsed nofun
  · cases parsed
    exact .of_suffix (List.suffix_refl rest)
  · exact absurd parsed nofun

/-- A class ends behind a closing bracket. -/
theorem classRanges_bracket {fuel : ℕ} {input rest : List Char} {accepts : Char → Bool}
    (parsed : classRanges fuel input = some (accepts, rest)) : ']' :: rest <:+ input := by
  induction fuel generalizing input accepts with
  | zero => exact absurd parsed nofun
  | succ fuel inductionHypothesis =>
    unfold classRanges at parsed
    split at parsed
    · rename_i closes
      cases parsed
      rw [List.head?_eq_some_iff] at closes
      obtain ⟨tail, rfl⟩ := closes
      exact List.suffix_refl _
    · obtain ⟨⟨first, behindFirst⟩, readFirst, parsed⟩ := Option.bind_eq_some_iff.mp parsed
      have firstSuffix := (classAtom_leaves readFirst).suffix
      simp only at parsed
      split at parsed
      · split at parsed
        · obtain ⟨⟨others, _⟩, parsedOthers, same⟩ := Option.bind_eq_some_iff.mp parsed
          cases same
          exact (inductionHypothesis parsedOthers).trans firstSuffix
        · obtain ⟨⟨last, behindLast⟩, readLast, parsed⟩ := Option.bind_eq_some_iff.mp parsed
          obtain ⟨⟨others, _⟩, parsedOthers, parsed⟩ := Option.bind_eq_some_iff.mp parsed
          have lastSuffix := (classAtom_leaves readLast).suffix.trans (List.suffix_cons '-' _)
          simp only at parsed
          split at parsed
          · obtain ⟨-, same⟩ := Option.ite_none_right_eq_some.mp parsed
            cases same
            exact ((inductionHypothesis parsedOthers).trans lastSuffix).trans firstSuffix
          · exact absurd parsed nofun
      · obtain ⟨⟨others, _⟩, parsedOthers, same⟩ := Option.bind_eq_some_iff.mp parsed
        cases same
        exact (inductionHypothesis parsedOthers).trans firstSuffix

theorem assertion_leaves {input rest : List Char} {node : Node Char}
    (parsed : assertion input = some (node, rest)) : Leaves input rest := by
  unfold assertion at parsed
  split at parsed
  case h_1 | h_2 =>
    cases parsed
    exact .of_suffix (List.suffix_refl rest)
  case h_3 | h_4 =>
    cases parsed
    exact .of_suffix (List.suffix_cons _ rest)
  case h_5 => exact absurd parsed nofun

theorem classRanges_suffix {fuel : ℕ} {input rest : List Char} {accepts : Char → Bool}
    (parsed : classRanges fuel input = some (accepts, rest)) : rest <:+ input :=
  (List.suffix_cons ']' rest).trans (classRanges_bracket parsed)

theorem atom_leaves {input rest : List Char} {node : Node Char}
    (parsed : atom input = some (node, rest)) : Leaves input rest := by
  unfold atom at parsed
  split at parsed
  · cases parsed
    exact .of_suffix (List.suffix_refl rest)
  · exact .of_suffix (atomEscape_suffix parsed)
  · obtain ⟨⟨accepts, behind⟩, ranges, same⟩ := Option.map_eq_some_iff.mp parsed
    cases same
    exact .of_suffix ((classRanges_suffix ranges).trans (List.suffix_cons '^' _))
  · obtain ⟨⟨accepts, behind⟩, ranges, same⟩ := Option.map_eq_some_iff.mp parsed
    cases same
    exact .of_suffix (classRanges_suffix ranges)
  · split at parsed
    · exact absurd parsed nofun
    · cases parsed
      exact .of_suffix (List.suffix_refl rest)
  · exact absurd parsed nofun

theorem opening_leaves {input inside : List Char} {kind : Opening}
    (opens : opening input = some (kind, inside)) : Leaves input inside := by
  unfold opening at opens
  split at opens
  case h_1 | h_2 | h_3 =>
    cases opens
    exact .of_suffix ⟨['?', _], rfl⟩
  case h_4 =>
    cases opens
    exact .of_suffix (List.suffix_refl inside)
  case h_5 => exact absurd opens nofun

theorem bounds_suffix {input rest : List Char} {limits : ℕ × Option ℕ}
    (parsed : bounds input = some (limits, rest)) : rest <:+ input := by
  have behindLow := span_suffix Char.isDigit input
  unfold bounds at parsed
  generalize input.span Char.isDigit = low at parsed behindLow
  split at parsed
  · exact absurd parsed nofun
  · cases parsed
    exact (List.suffix_cons '}' rest).trans behindLow
  · cases parsed
    exact .trans ⟨[',', '}'], rfl⟩ behindLow
  · rename_i tail _ _
    have behindHigh := span_suffix Char.isDigit tail
    generalize tail.span Char.isDigit = high at parsed behindHigh
    split at parsed
    · exact absurd parsed nofun
    · obtain ⟨-, same⟩ := Option.ite_none_right_eq_some.mp parsed
      cases same
      exact ((List.suffix_cons '}' rest).trans behindHigh).trans
        ((List.suffix_cons ',' tail).trans behindLow)
    · exact absurd parsed nofun
  · exact absurd parsed nofun

theorem quantifier_suffix {input rest : List Char} {limits : Option (ℕ × Option ℕ)}
    (parsed : quantifier input = some (limits, rest)) : rest <:+ input := by
  unfold quantifier at parsed
  split at parsed
  case h_4 =>
    obtain ⟨⟨found, behind⟩, between, same⟩ := Option.map_eq_some_iff.mp parsed
    cases same
    exact (bounds_suffix between).trans (List.suffix_cons '{' _)
  case h_5 =>
    cases parsed
    exact List.suffix_refl _
  all_goals
    cases parsed
    exact List.suffix_cons _ _

theorem quantified_suffix {node other : Node Char} {firstGroup endGroup : ℕ}
    {input rest : List Char}
    (parsed : quantified node firstGroup endGroup input = some (other, rest)) :
    rest <:+ input := by
  obtain ⟨⟨limits, behind⟩, limited, parsed⟩ := Option.bind_eq_some_iff.mp parsed
  have limitedSuffix := quantifier_suffix limited
  simp only at parsed
  split at parsed
  · cases parsed
    exact limitedSuffix
  · split at parsed
    · cases parsed
      exact (List.suffix_cons '?' rest).trans limitedSuffix
    · cases parsed
      exact limitedSuffix

/-- The parser leaves an end of its input. -/
def LeavesSuffix (parser : Parser) : Prop :=
  ∀ groups input node opened rest, parser groups input = some (node, opened, rest) →
    rest <:+ input

theorem bracketed_leaves {nested : Parser} (suffix : LeavesSuffix nested) {groups opened : ℕ}
    {input rest : List Char} {node : Node Char}
    (parsed : bracketed nested groups input = some (node, opened, rest)) : Leaves input rest := by
  unfold bracketed at parsed
  split at parsed
  · obtain ⟨⟨found, left⟩, isAtom, same⟩ := Option.map_eq_some_iff.mp parsed
    cases same
    exact atom_leaves isAtom
  · rename_i kind inside opens
    obtain ⟨⟨body, count, behind⟩, parsedBody, parsed⟩ := Option.bind_eq_some_iff.mp parsed
    simp only at parsed
    split at parsed
    · cases parsed
      exact (opening_leaves opens).behind
        ((List.suffix_cons ')' _).trans (suffix _ _ _ _ _ parsedBody))
    · exact absurd parsed nofun

theorem term_leaves {nested : Parser} (suffix : LeavesSuffix nested) {groups opened : ℕ}
    {input rest : List Char} {node : Node Char}
    (parsed : term nested groups input = some (node, opened, rest)) : Leaves input rest := by
  unfold term at parsed
  split at parsed
  · rename_i asserted
    cases parsed
    exact assertion_leaves asserted
  · obtain ⟨⟨inner, count, behind⟩, inside, parsed⟩ := Option.bind_eq_some_iff.mp parsed
    obtain ⟨⟨other, behindQuantifier⟩, counted, same⟩ := Option.bind_eq_some_iff.mp parsed
    cases same
    exact (bracketed_leaves suffix inside).behind (quantified_suffix counted)

theorem parsers_leave (fuel : ℕ) :
    LeavesSuffix (disjunction fuel) ∧ LeavesSuffix (alternative fuel) := by
  induction fuel with
  | zero => exact ⟨nofun, nofun⟩
  | succ fuel inductionHypothesis =>
    obtain ⟨disjunctionSuffix, alternativeSuffix⟩ := inductionHypothesis
    constructor
    · intro groups input node opened rest parsed
      obtain ⟨⟨first, count, behind⟩, parsedFirst, parsed⟩ := Option.bind_eq_some_iff.mp parsed
      have firstSuffix := alternativeSuffix _ _ _ _ _ parsedFirst
      simp only at parsed
      split at parsed
      · obtain ⟨⟨second, more, left⟩, parsedSecond, same⟩ := Option.bind_eq_some_iff.mp parsed
        cases same
        exact ((disjunctionSuffix _ _ _ _ _ parsedSecond).trans (List.suffix_cons '|' _)).trans
          firstSuffix
      · cases parsed
        exact firstSuffix
    · intro groups input node opened rest parsed
      rw [alternative] at parsed
      split at parsed
      · cases parsed
        exact List.suffix_refl _
      · obtain ⟨⟨first, count, behind⟩, parsedFirst, parsed⟩ := Option.bind_eq_some_iff.mp parsed
        obtain ⟨⟨second, more, left⟩, parsedSecond, same⟩ := Option.bind_eq_some_iff.mp parsed
        cases same
        exact (alternativeSuffix _ _ _ _ _ parsedSecond).trans
          (term_leaves disjunctionSuffix parsedFirst).suffix

/-- The brackets need the inner parser for shorter input only. -/
theorem term_congr {nested other : Parser} {groups : ℕ} {input : List Char}
    (same : ∀ groups inside, inside.length < input.length →
      nested groups inside = other groups inside) :
    term nested groups input = term other groups input := by
  unfold term bracketed
  split
  · rfl
  · congr 1
    split
    · rfl
    · rename_i kind inside opens
      rw [same _ _ (opening_leaves opens).length]

/-- Two rounds of fuel for every letter are enough: more of it changes nothing. -/
theorem parsers_fuel (fuel : ℕ) :
    (∀ groups input, 2 * input.length + 2 ≤ fuel →
      disjunction (fuel + 1) groups input = disjunction fuel groups input) ∧
    ∀ groups input, 2 * input.length + 1 ≤ fuel →
      alternative (fuel + 1) groups input = alternative fuel groups input := by
  induction fuel with
  | zero =>
    exact ⟨fun _ _ enough => absurd enough (by omega), fun _ _ enough => absurd enough (by omega)⟩
  | succ fuel inductionHypothesis =>
    obtain ⟨sameDisjunction, sameAlternative⟩ := inductionHypothesis
    constructor
    · intro groups input enough
      rw [disjunction, disjunction, sameAlternative groups input (by omega)]
      refine Option.bind_congr fun ⟨first, count, behind⟩ parsedFirst => ?_
      have shorter := ((parsers_leave fuel).2 _ _ _ _ _ parsedFirst).length_le
      simp only
      split
      · rw [List.length_cons] at shorter
        rw [sameDisjunction _ _ (by omega)]
      · rfl
    · intro groups input enough
      rw [alternative, alternative]
      split
      · rfl
      · rw [term_congr fun groups inside (shorter : inside.length < input.length) =>
          sameDisjunction groups inside (by omega)]
        refine Option.bind_congr fun ⟨first, count, behind⟩ parsedFirst => ?_
        have shorter := (term_leaves (parsers_leave fuel).1 parsedFirst).length
        simp only
        rw [sameAlternative _ _ (by omega)]

theorem disjunction_enough {fuel groups : ℕ} {input : List Char}
    (enough : 2 * input.length + 2 ≤ fuel) :
    disjunction fuel groups input = disjunction (2 * input.length + 2) groups input := by
  induction fuel, enough using Nat.le_induction with
  | base => rfl
  | succ fuel enough inductionHypothesis =>
    rw [(parsers_fuel fuel).1 groups input enough, inductionHypothesis]

end Regex
