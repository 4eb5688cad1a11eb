/-
This file models the source code the report converter shows beside a stack: the
list of snippets of `SourceCodeManagement` in `ReportConverter.py`, how a request
finds or makes an entry of it, and which number the first line shown gets. A file
is shown as a whole if it is short. Of a long file 400 lines are shown around the
line of the entry, and as many from the start if that line is one of the first
200, which is where the numbers go wrong.
-/

import Drace.Machine

namespace Drace

/-! ### The files and the filter -/

/-- What the converter asks Python about paths and files. -/
structure SourceFiles (Path : Type) where
  /-- `pathlib.Path`. -/
  path : String → Path
  /-- `resolve`, which may raise an error. -/
  resolve : Path → Option Path
  isFile : Path → Bool
  str : Path → String
  readlines : Path → List String

/-- The lists of the command line, as texts. -/
structure SourceFilter where
  blacklist : List String := []
  whitelist : List String := []
  whitelisting : Bool := false

/-- `NUMBEROFCODELINES`. -/
def numberOfCodeLines : ℤ := 400

/-- One entry consists of the full file path and the line number of interest, and whether the file
is shown as a whole. -/
structure SourcefileEntry (Path : Type) where
  path : Path
  line : ℤ
  complete : Bool
deriving DecidableEq

/-- The template that is used. -/
inductive CodeTag
  | noCodeEntry
  | codeEntry
deriving DecidableEq

/-- The lines of a file that are shown for a line. -/
def codeLines {Line : Type} (sourceLineList : List Line) (line : ℤ) : List Line :=
  if numberOfCodeLines < sourceLineList.length then
    let bounds := if line ≤ numberOfCodeLines / 2 then (0, numberOfCodeLines)
      else (line - numberOfCodeLines / 2 - 1, line - numberOfCodeLines / 2 - 1 + numberOfCodeLines)
    (sourceLineList.take bounds.2.toNat).drop bounds.1.toNat
  else sourceLineList

/-- The text that names the variable with the code of an entry. -/
def strIndex (index : ℕ) : String := "code_" ++ index.repr

/-- The number behind the last underscore. -/
def codeSnippet (index : String) : Option ℕ :=
  (index.toList.splitOn '_').getLast?.bind fun number => (String.ofList number).toNat?

namespace SourceFiles

variable {Path : Type} [DecidableEq Path] (files : SourceFiles Path) (filter : SourceFilter)

/-- `_getLines`. The file may have fewer lines than the target. -/
def getLines (path : Path) (line : ℤ) : Option String :=
  let sourceLineList := files.readlines path
  if sourceLineList.length < line then none
  else some (String.join (codeLines sourceLineList line))

/-- `_returnCode` for the existence of the code alone. -/
def codeExists (fullPath : Path) (line : ℤ) : Bool :=
  match files.resolve fullPath with
  | none => false
  | some resolved =>
    let within element path := decide (String.toList element <:+: (files.str path).toList)
    files.isFile resolved && !(filter.blacklist.any (within · resolved)) &&
      (!filter.whitelisting || filter.whitelist.any (within · fullPath)) &&
      (files.getLines fullPath line).isSome

/-- `_createSourcefileEntry`. -/
def createSourcefileEntry (sourcefilelist : List (SourcefileEntry Path)) (path : Path) (line : ℤ) :
    List (SourcefileEntry Path) × ℕ :=
  let newElement := ⟨path, line, !decide (numberOfCodeLines < (files.readlines path).length)⟩
  let sourcefilelist := sourcefilelist ++ [newElement]
  (sourcefilelist, sourcefilelist.idxOf newElement)

/-- The test by which a request takes an entry that is there. -/
def serves (fullPath : Path) (line : ℤ) (item : SourcefileEntry Path) : Bool :=
  decide (item.path = fullPath) && (item.complete ||
    decide (line - numberOfCodeLines / 10 ≤ item.line ∧ item.line ≤ line + numberOfCodeLines / 10))

/-- The loop over the entries. The last entry that serves the request is taken. -/
def findEntry (sourcefilelist : List (SourcefileEntry Path)) (fullPath : Path) (line : ℤ) :
    Option ℕ :=
  sourcefilelist.foldl (fun index item =>
    if serves fullPath line item then some (sourcefilelist.idxOf item) else index) none

/-- `handleSourceCode`. -/
def handleSourceCode (sourcefilelist : List (SourcefileEntry Path)) (filename directory : String)
    (line : ℤ) : List (SourcefileEntry Path) × Option String × CodeTag :=
  let fullPath := files.path (directory ++ "/" ++ filename)
  if files.codeExists filter fullPath line then
    match findEntry sourcefilelist fullPath line with
    | some index => (sourcefilelist, some (strIndex index), .codeEntry)
    | none =>
      let created := files.createSourcefileEntry sourcefilelist fullPath line
      (created.1, some (strIndex created.2), .codeEntry)
  else (sourcefilelist, none, .noCodeEntry)

end SourceFiles

section SourceObject

variable {Path : Type}

def srcObject (sourcefilelist : List (SourcefileEntry Path)) (index : String) :
    Option (SourcefileEntry Path) :=
  (codeSnippet index).bind (sourcefilelist[·]?)

/-- `getFirstLineOfCodeSnippet`. -/
def getFirstLineOfCodeSnippet (sourcefilelist : List (SourcefileEntry Path)) (index : String) :
    Option ℤ :=
  (srcObject sourcefilelist index).map fun srcObject =>
    if srcObject.complete then 1 else srcObject.line - numberOfCodeLines / 2

end SourceObject

/-- A request for the code of a frame. -/
structure CodeRequest where
  filename : String
  directory : String
  line : ℤ

/-- The list of snippets as a machine, a call for each request. -/
def sourceCodeManagement {Path : Type} [DecidableEq Path] (files : SourceFiles Path)
    (filter : SourceFilter) :
    Machine (List (SourcefileEntry Path)) CodeRequest (Option String × CodeTag) where
  start sourcefilelist := sourcefilelist = []
  call sourcefilelist request :=
    some (files.handleSourceCode filter sourcefilelist request.filename request.directory
      request.line)

abbrev CodeStep (Path : Type) :=
  Machine.Step (List (SourcefileEntry Path)) CodeRequest (Option String × CodeTag)

/-! ### What a snippet shows -/

section Snippet

variable {Path : Type} (files : SourceFiles Path)

/-- The lines an entry shows, with their numbers in the file. -/
def SourceFiles.snippet (entry : SourcefileEntry Path) : List (String × ℕ) :=
  codeLines ((files.readlines entry.path).zipIdx 1) entry.line

theorem map_codeLines {Line Other : Type} (change : Line → Other) (lines : List Line) (line : ℤ) :
    (codeLines lines line).map change = codeLines (lines.map change) line := by
  unfold codeLines
  rw [List.length_map]
  split
  · rw [List.map_drop, List.map_take]
  · rfl

/-- The text of a snippet is made of the lines it shows. -/
theorem SourceFiles.getLines_snippet (entry : SourcefileEntry Path)
    (inside : entry.line ≤ (files.readlines entry.path).length) :
    files.getLines entry.path entry.line =
      some (String.join ((files.snippet entry).map Prod.fst)) := by
  rw [SourceFiles.getLines, snippet, map_codeLines, List.zipIdx_map_fst]
  exact if_neg (not_lt.mpr inside)

/-- The numbers of the lines an entry shows. -/
def SourceFiles.lineNumbers (entry : SourcefileEntry Path) : List ℕ :=
  (files.snippet entry).map Prod.snd

theorem take_range'_eq (start count length : ℕ) :
    (List.range' start length).take count = List.range' start (min count length) := by
  rcases Nat.le_total count length with shorter | longer
  · rw [List.take_range'_of_length_ge shorter, Nat.min_eq_left shorter]
  · rw [List.take_range'_of_length_le longer, Nat.min_eq_right longer]

variable {files} {entry : SourcefileEntry Path} {length : ℕ}

theorem SourceFiles.lineNumbers_eq (sized : (files.readlines entry.path).length = length) :
    files.lineNumbers entry = codeLines (List.range' 1 length) entry.line := by
  rw [lineNumbers, snippet, map_codeLines, List.zipIdx_map_snd, sized]

/-- A short file is shown as a whole. -/
theorem SourceFiles.lineNumbers_short (sized : (files.readlines entry.path).length = length)
    (short : length ≤ 400) : files.lineNumbers entry = List.range' 1 length := by
  rw [lineNumbers_eq sized, codeLines, if_neg]
  rw [List.length_range', numberOfCodeLines]
  omega

/-- Of a long file, 400 lines are shown from the start for a line close to it. -/
theorem SourceFiles.lineNumbers_start (sized : (files.readlines entry.path).length = length)
    (long : 400 < length) (near : entry.line ≤ 200) :
    files.lineNumbers entry = List.range' 1 400 := by
  have half : entry.line ≤ numberOfCodeLines / 2 := near
  have longer : numberOfCodeLines < (List.range' 1 length).length := by
    rw [List.length_range', numberOfCodeLines]
    omega
  have whole : numberOfCodeLines.toNat = 400 := rfl
  rw [lineNumbers_eq sized, codeLines, if_pos longer]
  simp only [if_pos half, whole]
  rw [take_range'_eq, Nat.min_eq_left long.le]
  rfl

/-- For a line further on, the lines from 200 before it are shown, and at most 199 behind it. -/
theorem SourceFiles.lineNumbers_middle (sized : (files.readlines entry.path).length = length)
    (long : 400 < length) {line : ℕ} (far : 200 < line) (here : entry.line = line) :
    files.lineNumbers entry =
      List.range' (line - 200) (min (line + 199) length - (line - 201)) := by
  have half : ¬ entry.line ≤ numberOfCodeLines / 2 := by
    rw [here, numberOfCodeLines]
    omega
  have bounds : (entry.line - numberOfCodeLines / 2 - 1).toNat = line - 201 ∧
      (entry.line - numberOfCodeLines / 2 - 1 + numberOfCodeLines).toNat = line + 199 := by
    rw [here, numberOfCodeLines]
    omega
  have longer : numberOfCodeLines < (List.range' 1 length).length := by
    rw [List.length_range', numberOfCodeLines]
    omega
  have first : 1 + (line - 201) * 1 = line - 200 := by omega
  rw [lineNumbers_eq sized, codeLines, if_pos longer]
  simp only [if_neg half, bounds]
  rw [take_range'_eq, List.drop_range', first]

/-- The first line that is shown. -/
theorem SourceFiles.head?_lineNumbers (sized : (files.readlines entry.path).length = length)
    {line : ℕ} (here : entry.line = line) (positive : 0 < line) (inside : line ≤ length) :
    (files.lineNumbers entry).head? =
      some (if 400 < length ∧ 200 < line then line - 200 else 1) := by
  by_cases long : 400 < length
  · by_cases far : 200 < line
    · rw [lineNumbers_middle sized long far here, List.head?_range', if_neg (by omega),
        if_pos ⟨long, far⟩]
    · rw [lineNumbers_start sized long (by omega), if_neg fun both => far both.2]
      rfl
  · rw [lineNumbers_short sized (by omega), List.head?_range', if_neg (by omega),
      if_neg fun both => long both.1]

/-- A line of the file is shown by the entry of a line close to it, and by each entry of a short
file. -/
theorem SourceFiles.mem_lineNumbers (sized : (files.readlines entry.path).length = length)
    {line wanted : ℕ} (here : entry.line = line) (positive : 0 < wanted) (inside : wanted ≤ length)
    (close : length ≤ 400 ∨ line ≤ wanted + 40 ∧ wanted ≤ line + 40) :
    wanted ∈ files.lineNumbers entry := by
  by_cases long : 400 < length
  · by_cases far : 200 < line
    · rw [lineNumbers_middle sized long far here, List.mem_range'_1]
      omega
    · rw [lineNumbers_start sized long (by omega), List.mem_range'_1]
      omega
  · rw [lineNumbers_short sized (by omega), List.mem_range'_1]
    omega

end Snippet

/-! ### What a request does -/

theorem codeSnippet_strIndex (index : ℕ) : codeSnippet (strIndex index) = some index := by
  have text : (strIndex index).toList = ['c', 'o', 'd', 'e'] ++ '_' :: Nat.toDigits 10 index := by
    rw [strIndex, String.toList_append, Nat.toList_repr]
    rfl
  have parts : (strIndex index).toList.splitOn '_' =
      [['c', 'o', 'd', 'e'], Nat.toDigits 10 index] := by
    rw [text, List.splitOn_append_cons_self_of_not_mem (by decide),
      List.splitOn_eq_singleton Nat.underscore_not_in_toDigits]
  have number : String.ofList (Nat.toDigits 10 index) = index.repr :=
    Nat.repr_eq_ofList_toDigits.symm
  rw [codeSnippet, parts, List.getLast?_cons_cons, List.getLast?_singleton, Option.bind_some,
    number, Nat.toNat?_repr]

section Requests

variable {Path : Type} [DecidableEq Path] {files : SourceFiles Path} {filter : SourceFilter}
  {sourcefilelist : List (SourcefileEntry Path)} {fullPath : Path} {line : ℤ}

theorem SourceFiles.serves_iff {item : SourcefileEntry Path} :
    serves fullPath line item = true ↔ item.path = fullPath ∧
      (item.complete = true ∨ line - 40 ≤ item.line ∧ item.line ≤ line + 40) := by
  simp [serves, numberOfCodeLines]

/-- The loop keeps what it has found before, unless a later entry serves as well. -/
theorem SourceFiles.foldl_serves {items : List (SourcefileEntry Path)} {found : Option ℕ} :
    (∃ item ∈ items, serves fullPath line item = true ∧
      items.foldl (fun index item =>
        if serves fullPath line item then some (sourcefilelist.idxOf item) else index) found =
          some (sourcefilelist.idxOf item)) ∨
    (∀ item ∈ items, serves fullPath line item = false) ∧
      items.foldl (fun index item =>
        if serves fullPath line item then some (sourcefilelist.idxOf item) else index) found =
          found := by
  induction items generalizing found with
  | nil => exact .inr ⟨fun item member => absurd member List.not_mem_nil, rfl⟩
  | cons item rest inductionHypothesis =>
    rw [List.foldl_cons]
    rcases inductionHypothesis with ⟨later, member, serving, result⟩ | ⟨none, result⟩
    · exact .inl ⟨later, List.mem_cons_of_mem item member, serving, result⟩
    · rw [result]
      by_cases serving : serves fullPath line item = true
      · exact .inl ⟨item, List.mem_cons_self, serving, if_pos serving⟩
      · refine .inr ⟨?_, if_neg serving⟩
        exact List.forall_mem_cons.mpr ⟨Bool.eq_false_iff.mpr serving, none⟩

theorem SourceFiles.findEntry_cases (sourcefilelist : List (SourcefileEntry Path))
    (fullPath : Path) (line : ℤ) :
    (∃ item ∈ sourcefilelist, serves fullPath line item = true ∧
      findEntry sourcefilelist fullPath line = some (sourcefilelist.idxOf item)) ∨
    (∀ item ∈ sourcefilelist, serves fullPath line item = false) ∧
      findEntry sourcefilelist fullPath line = none :=
  foldl_serves

/-- The entry a request makes if none serves it. -/
def SourceFiles.newElement (files : SourceFiles Path) (fullPath : Path) (line : ℤ) :
    SourcefileEntry Path :=
  ⟨fullPath, line, !decide (numberOfCodeLines < (files.readlines fullPath).length)⟩

theorem SourceFiles.serves_newElement :
    serves fullPath line (files.newElement fullPath line) = true :=
  serves_iff.mpr ⟨rfl, .inr ⟨sub_le_self line (by decide), le_add_of_nonneg_right (by decide)⟩⟩

theorem SourceFiles.createSourcefileEntry_eq
    (none : ∀ item ∈ sourcefilelist, serves fullPath line item = false) :
    files.createSourcefileEntry sourcefilelist fullPath line =
      (sourcefilelist ++ [files.newElement fullPath line], sourcefilelist.length) := by
  have fresh : files.newElement fullPath line ∉ sourcefilelist := by
    intro member
    have serving : serves fullPath line (files.newElement fullPath line) = true := serves_newElement
    rw [none _ member] at serving
    cases serving
  refine Prod.ext rfl ?_
  have last : (sourcefilelist ++ [files.newElement fullPath line]).idxOf
      (files.newElement fullPath line) = sourcefilelist.length := by
    rw [List.idxOf_append, if_neg fresh, List.idxOf_cons_self, Nat.zero_add]
  exact last

/-- The entry a request is given: one that serves it, or a new one if there is none. -/
inductive Given (files : SourceFiles Path) (fullPath : Path) (line : ℤ)
    (before after : List (SourcefileEntry Path)) (entry : SourcefileEntry Path) : Prop
  | reused : after = before → entry ∈ before → SourceFiles.serves fullPath line entry = true →
    Given files fullPath line before after entry
  | created : after = before ++ [entry] → entry = files.newElement fullPath line →
    (∀ item ∈ before, SourceFiles.serves fullPath line item = false) →
    Given files fullPath line before after entry

variable {request : CodeRequest} {before after : List (SourcefileEntry Path)}
  {entry : SourcefileEntry Path} {output : Option String × CodeTag}

theorem Given.serves (given : Given files fullPath line before after entry) :
    SourceFiles.serves fullPath line entry = true := by
  cases given with
  | reused _ _ serving => exact serving
  | created _ new => exact new ▸ SourceFiles.serves_newElement

/-- The path of a request. -/
def SourceFiles.requestPath (files : SourceFiles Path) (request : CodeRequest) : Path :=
  files.path (request.directory ++ "/" ++ request.filename)

/-- A request either is given an entry, whose name is put out, or there is no code for it. -/
theorem handleSourceCode_cases
    (defined : (sourceCodeManagement files filter).call before request = some (after, output)) :
    (files.codeExists filter (files.requestPath request) request.line = true ∧
      ∃ index entry, output = (some index, .codeEntry) ∧ srcObject after index = some entry ∧
        Given files (files.requestPath request) request.line before after entry) ∨
    files.codeExists filter (files.requestPath request) request.line = false ∧ after = before ∧
      output = (none, .noCodeEntry) := by
  have result := Option.some.inj defined
  unfold SourceFiles.handleSourceCode at result
  simp only at result
  split at result
  · next exists_ =>
    refine .inl ⟨exists_, ?_⟩
    rcases SourceFiles.findEntry_cases before (files.requestPath request) request.line with
      ⟨item, member, serving, found⟩ | ⟨none, found⟩
    · rw [SourceFiles.requestPath] at found
      rw [found] at result
      obtain ⟨rfl, rfl⟩ := Prod.mk.inj result
      refine ⟨_, item, rfl, ?_, .reused rfl member serving⟩
      rw [srcObject, codeSnippet_strIndex, Option.bind_some, List.getElem?_idxOf member]
    · have created : files.createSourcefileEntry before (files.requestPath request)
          request.line = _ := SourceFiles.createSourcefileEntry_eq none
      rw [SourceFiles.requestPath] at found created
      rw [found] at result
      simp only [created] at result
      obtain ⟨rfl, rfl⟩ := Prod.mk.inj result
      refine ⟨_, _, rfl, ?_, .created rfl rfl none⟩
      rw [srcObject, codeSnippet_strIndex, Option.bind_some, List.getElem?_concat_length]
  · next missing =>
    obtain ⟨rfl, rfl⟩ := Prod.mk.inj result
    exact .inr ⟨Bool.eq_false_iff.mpr missing, rfl, rfl⟩

/-! ### The numbers of the lines -/

/-- What is kept of an entry: it is for a line of its file, and it says whether the file is
short. -/
structure Sound (files : SourceFiles Path) (entry : SourcefileEntry Path) : Prop where
  positive : 0 < entry.line
  inside : entry.line ≤ (files.readlines entry.path).length
  complete : entry.complete = true ↔ (files.readlines entry.path).length ≤ 400

omit [DecidableEq Path] in
/-- There is no code for a line behind the end of the file. -/
theorem le_length_of_codeExists (code : files.codeExists filter fullPath line = true) :
    line ≤ (files.readlines fullPath).length := by
  unfold SourceFiles.codeExists at code
  split at code
  · cases code
  · have found := (Bool.and_eq_true .. ▸ code).2
    by_contra outside
    rw [SourceFiles.getLines, if_pos (not_le.mp outside)] at found
    cases found

omit [DecidableEq Path] in
theorem newElement_sound (positive : 0 < line)
    (code : files.codeExists filter fullPath line = true) :
    Sound files (files.newElement fullPath line) where
  positive := positive
  inside := le_length_of_codeExists code
  complete := by
    have whole : (files.newElement fullPath line).complete = true ↔
        ¬ numberOfCodeLines < (files.readlines fullPath).length := by
      rw [SourceFiles.newElement, Bool.not_eq_true', decide_eq_false_iff_not]
    rw [whole, numberOfCodeLines, not_lt]
    exact Nat.cast_le_ofNat

/-- What holds of every entry a request may make holds of every entry of the list. -/
theorem entries_of_reaches {condition : CodeStep Path → Prop} {holds : SourcefileEntry Path → Prop}
    {past : List (CodeStep Path)}
    (made : ∀ step : CodeStep Path, condition step →
      files.codeExists filter (files.requestPath step.event) step.event.line = true →
      (∀ item ∈ step.pre,
        SourceFiles.serves (files.requestPath step.event) step.event.line item = false) →
      holds (files.newElement (files.requestPath step.event) step.event.line))
    (reaches : (sourceCodeManagement files filter).Reaches past sourcefilelist)
    (always : ∀ step ∈ past, condition step) : ∀ entry ∈ sourcefilelist, holds entry := by
  refine reaches.induct (fun _ sourcefilelist => ∀ entry ∈ sourcefilelist, holds entry) ?_ ?_
    (Machine.always_iff_forall_mem.mpr always)
  · rintro state rfl entry member
    exact absurd member List.not_mem_nil
  · intro past before request after output _ defined meets earlier
    rcases handleSourceCode_cases defined with ⟨code, index, entry, -, -, given⟩ | ⟨-, rfl, -⟩
    · cases given with
      | reused same => exact same ▸ earlier
      | created same new none =>
        rw [same, new]
        refine List.forall_mem_append.mpr ⟨earlier, List.forall_mem_singleton.mpr ?_⟩
        exact made ⟨before, request, after, output⟩ meets code none
    · exact earlier

theorem sound_of_reaches {past : List (CodeStep Path)}
    (reaches : (sourceCodeManagement files filter).Reaches past sourcefilelist)
    (inside : ∀ step ∈ past, 0 < step.event.line) :
    ∀ entry ∈ sourcefilelist, Sound files entry :=
  entries_of_reaches (fun _ positive code _ => newElement_sound positive code) reaches inside

/-- The entry a request is given is for the file of the request, which is short or has the two
lines close to each other. -/
theorem Given.close (given : Given files fullPath line before after entry)
    (sound : Sound files entry) :
    entry.path = fullPath ∧ ((files.readlines fullPath).length ≤ 400 ∨
      line - 40 ≤ entry.line ∧ entry.line ≤ line + 40) := by
  obtain ⟨rfl, whole | near⟩ := SourceFiles.serves_iff.mp given.serves
  · exact ⟨rfl, .inl (sound.complete.mp whole)⟩
  · exact ⟨rfl, .inr near⟩

/-- The line a request is for is shown by the entry it is given. -/
theorem Given.contains (given : Given files fullPath line before after entry)
    (sound : Sound files entry) (positive : 0 < line)
    (inside : line ≤ (files.readlines fullPath).length) :
    line.toNat ∈ files.lineNumbers entry := by
  obtain ⟨rfl, close⟩ := given.close sound
  have places : entry.line = entry.line.toNat := (Int.toNat_of_nonneg sound.positive.le).symm
  refine SourceFiles.mem_lineNumbers rfl places ?_ ?_ ?_
  · omega
  · omega
  · rcases close with short | near
    · exact .inl short
    · exact .inr (by omega)

omit [DecidableEq Path] in
/-- The number the converter gives to the first line of a snippet is that of the line in the file
unless the entry is for one of the first lines of a long file. -/
theorem firstLine_iff {entry : SourcefileEntry Path} (sound : Sound files entry) :
    (files.lineNumbers entry).head?.map Nat.cast =
        some (if entry.complete then 1 else entry.line - numberOfCodeLines / 2) ↔
      (files.readlines entry.path).length ≤ 400 ∨ 200 < entry.line := by
  have positive := sound.positive
  have inside := sound.inside
  have places : entry.line = entry.line.toNat := (Int.toNat_of_nonneg positive.le).symm
  rw [SourceFiles.head?_lineNumbers rfl places (by omega) (by omega), Option.map_some,
    Option.some_inj]
  by_cases short : (files.readlines entry.path).length ≤ 400
  · rw [if_pos (sound.complete.mpr short), if_neg (by omega)]
    exact ⟨fun _ => .inl short, fun _ => rfl⟩
  · have partly : ¬ entry.complete = true := fun whole => short (sound.complete.mp whole)
    rw [if_neg partly, numberOfCodeLines]
    by_cases far : 200 < entry.line
    · rw [if_pos (by omega)]
      omega
    · rw [if_neg (by omega)]
      omega

/-- The converter numbers the snippet of a request right: of the lines whose text is returned, the
first one has the number it is given, and one is the line of the request. -/
def ShownRight (files : SourceFiles Path) (step : CodeStep Path) : Prop :=
  ∀ index, step.output.1 = some index → ∃ entry, srcObject step.post index = some entry ∧
    files.getLines entry.path entry.line =
      some (String.join ((files.snippet entry).map Prod.fst)) ∧
    (files.lineNumbers entry).head?.map Nat.cast = getFirstLineOfCodeSnippet step.post index ∧
    ∃ number ∈ files.lineNumbers entry, (number : ℤ) = step.event.line

/-- A request for one of the first 200 lines of a long file finds an entry for a later line. -/
def Numberable (files : SourceFiles Path) (filter : SourceFilter) (step : CodeStep Path) : Prop :=
  files.codeExists filter (files.requestPath step.event) step.event.line = true →
    (files.readlines (files.requestPath step.event)).length ≤ 400 ∨ 200 < step.event.line ∨
    ∃ entry ∈ step.pre, entry.path = files.requestPath step.event ∧ 200 < entry.line ∧
      entry.line ≤ step.event.line + 40

variable {past : List (CodeStep Path)} {step : CodeStep Path}

omit [DecidableEq Path] in
/-- A request that is given an entry is numbered right if the entry is of a short file or for a line
behind the first ones. -/
theorem numbered_iff_of_given {index : String} {entry : SourcefileEntry Path}
    (output : step.output.1 = some index) (object : srcObject step.post index = some entry)
    (sound : Sound files entry)
    (contains : step.event.line.toNat ∈ files.lineNumbers entry) (positive : 0 < step.event.line) :
    ShownRight files step ↔ (files.readlines entry.path).length ≤ 400 ∨ 200 < entry.line := by
  rw [← firstLine_iff sound]
  have first : getFirstLineOfCodeSnippet step.post index =
      some (if entry.complete then 1 else entry.line - numberOfCodeLines / 2) := by
    rw [getFirstLineOfCodeSnippet, object, Option.map_some]
  constructor
  · intro numbered
    obtain ⟨other, there, -, same, -⟩ := numbered index output
    obtain rfl := Option.some.inj (object.symm.trans there)
    exact same.trans first
  · intro same other put
    obtain rfl := Option.some.inj (output.symm.trans put)
    exact ⟨entry, object, files.getLines_snippet entry sound.inside, same.trans first.symm, _,
      contains, Int.toNat_of_nonneg positive.le⟩

/-- An entry that a numberable request makes is for a line behind the first ones, since one of the
later lines close to it would have served the request. -/
theorem Numberable.far (able : Numberable files filter step)
    (code : files.codeExists filter (files.requestPath step.event) step.event.line = true)
    (none : ∀ item ∈ step.pre,
      SourceFiles.serves (files.requestPath step.event) step.event.line item = false) :
    (files.readlines (files.requestPath step.event)).length ≤ 400 ∨ 200 < step.event.line := by
  rcases able code with short | behind | ⟨item, member, same, later, near⟩
  · exact .inl short
  · exact .inr behind
  · refine .inr ?_
    by_contra early
    have first : step.event.line ≤ 200 := not_lt.mp early
    have serving :
        SourceFiles.serves (files.requestPath step.event) step.event.line item = true :=
      SourceFiles.serves_iff.mpr ⟨same, .inr ⟨by omega, near⟩⟩
    rw [none item member] at serving
    cases serving

/-- While the requests are numberable, every entry of a long file is for a line behind the first
ones. -/
theorem far_of_reaches
    (reaches : (sourceCodeManagement files filter).Reaches past sourcefilelist)
    (numberable : ∀ step ∈ past, Numberable files filter step) : ∀ entry ∈ sourcefilelist,
      (files.readlines entry.path).length ≤ 400 ∨ 200 < entry.line :=
  entries_of_reaches (fun _ able code none => able.far code none) reaches numberable

/-- After numberable requests, a request is numbered right if and only if it is numberable. -/
theorem numbered_iff_numberable {front : List (CodeStep Path)}
    (reaches : (sourceCodeManagement files filter).Reaches front step.pre)
    (defined : (sourceCodeManagement files filter).call step.pre step.event =
      some (step.post, step.output))
    (inside : ∀ step ∈ front, 0 < step.event.line) (positive : 0 < step.event.line)
    (numberable : ∀ step ∈ front, Numberable files filter step) :
    ShownRight files step ↔ Numberable files filter step := by
  have sound := sound_of_reaches reaches inside
  have far := far_of_reaches reaches numberable
  rcases handleSourceCode_cases defined with
    ⟨code, index, entry, output, object, given⟩ | ⟨missing, -, output⟩
  · have here : Sound files entry := by
      cases given with
      | reused _ member => exact sound entry member
      | created _ new => exact new ▸ newElement_sound positive code
    have contains := given.contains here positive (le_length_of_codeExists code)
    obtain ⟨path, close⟩ := given.close here
    rw [numbered_iff_of_given (congrArg Prod.fst output) object here contains positive]
    cases given with
    | reused _ member serving =>
      refine ⟨fun right _ => ?_, fun _ => far entry member⟩
      rcases close with short | near
      · exact .inl short
      · rcases right with short | behind
        · exact .inl (path ▸ short)
        · exact .inr (.inr ⟨entry, member, path, behind, near.2⟩)
    | created _ new none =>
      subst new
      exact ⟨fun right _ => right.imp_right .inl, fun able => able.far code none⟩
  · refine ⟨fun _ code => ?_, fun _ index put => ?_⟩
    · rw [missing] at code
      cases code
    · rw [output] at put
      cases put

/-- In a run of requests for lines of files, every snippet is numbered right if and only if each
request for one of the first 200 lines of a long file finds an entry for a later line. -/
theorem snippets_numbered_iff
    (reaches : (sourceCodeManagement files filter).Reaches past sourcefilelist)
    (inside : ∀ step ∈ past, 0 < step.event.line) :
    (∀ step ∈ past, ShownRight files step) ↔ ∀ step ∈ past, Numberable files filter step := by
  rw [← Machine.always_iff_forall_mem, ← Machine.always_iff_forall_mem]
  refine Machine.always_iff_always fun front step initial able => ?_
  obtain ⟨before, defined⟩ := reaches.step initial
  have members : ∀ early ∈ front, early ∈ past := fun early member =>
    initial.subset (List.mem_append_left _ member)
  exact numbered_iff_numberable before defined (fun early member => inside early (members _ member))
    (inside step (initial.subset (List.mem_append_right _ (List.mem_singleton_self _))))
    (Machine.always_iff_forall_mem.mp able)

end Requests

/-! ### Two runs -/

/-- A file with 401 lines, whatever its path. -/
def longFile : SourceFiles String where
  path := id
  resolve := some
  isFile _ := true
  str := id
  readlines _ := List.replicate 401 "\n"

/-- What one request leads to. -/
def requested (sourcefilelist : List (SourcefileEntry String)) (request : CodeRequest) :
    CodeStep String :=
  let result := longFile.handleSourceCode {} sourcefilelist request.filename request.directory
    request.line
  ⟨sourcefilelist, request, result.1, result.2⟩

theorem call_requested (sourcefilelist : List (SourcefileEntry String)) (request : CodeRequest) :
    (sourceCodeManagement longFile {}).call sourcefilelist request =
      some ((requested sourcefilelist request).post, (requested sourcefilelist request).output) :=
  rfl

theorem reaches_first (first : CodeRequest) :
    (sourceCodeManagement longFile {}).Reaches [requested [] first] (requested [] first).post :=
  .call (.start rfl) (call_requested [] first)

theorem reaches_second (first second : CodeRequest) :
    (sourceCodeManagement longFile {}).Reaches
      [requested [] first, requested (requested [] first).post second]
      (requested (requested [] first).post second).post :=
  .call (reaches_first first) (call_requested _ second)

/-- A line in the middle of the file, and then one of the first lines close to it. -/
theorem snippets_numbered_iff_reused :
    let past := [requested [] ⟨"main.cpp", "src", 210⟩,
      requested (requested [] ⟨"main.cpp", "src", 210⟩).post ⟨"main.cpp", "src", 180⟩]
    (∀ step ∈ past, ShownRight longFile step) ↔ ∀ step ∈ past, Numberable longFile {} step :=
  snippets_numbered_iff (reaches_second _ _)
    (by simp [requested])

/-- The first line of a long file is shown as line -199. -/
theorem early_line_misnumbered :
    ¬ ∀ (past : List (CodeStep String)) (sourcefilelist : List (SourcefileEntry String)),
      (sourceCodeManagement longFile {}).Reaches past sourcefilelist →
        (∀ step ∈ past, 0 < step.event.line ∧
          step.event.line ≤ (longFile.readlines (longFile.requestPath step.event)).length) →
        ∀ step ∈ past, ShownRight longFile step := by
  intro all
  let step := requested [] ⟨"main.cpp", "src", 1⟩
  have numbered := all [step] step.post (reaches_first _)
    (List.forall_mem_singleton.mpr (by decide +kernel)) step (List.mem_singleton_self step)
  have start : (sourceCodeManagement longFile {}).Reaches [] step.pre := .start rfl
  have none : ∀ step ∈ ([] : List (CodeStep String)), Numberable longFile {} step :=
    List.forall_mem_nil _
  have numberable : Numberable longFile {} step :=
    (numbered_iff_numberable start (call_requested _ _) (List.forall_mem_nil _)
      (by decide +kernel) none).mp numbered
  have code : longFile.codeExists {} (longFile.requestPath step.event) step.event.line = true := by
    decide +kernel
  rcases numberable code with short | behind | ⟨entry, member, -⟩
  · exact absurd short (by decide +kernel)
  · exact absurd behind (by decide +kernel)
  · exact absurd member List.not_mem_nil

end Drace
