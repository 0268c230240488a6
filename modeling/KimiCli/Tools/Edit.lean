import KimiCli.Tools.LineEndings

/-!
# The Edit tool

`EditTool.execution` replaces the one occurrence of a text in a file, or all of them.  It counts
occurrences that do not overlap, so that a second one inside the first goes unnoticed; and in a
CRLF file it writes all line ends anew, so that a CR at the end of the replacement is lost when a
line end follows.  Otherwise it changes the occurrences and nothing else (`execution_law_iff`).
-/

namespace KimiCli

structure EditInput where
  path : String
  old_string : Text
  new_string : Text
  replace_all : Option Bool := none
  nonempty : old_string ≠ []

/-- What reading the file throws. -/
structure ReadError where
  code : Option String
  message : String

/-- The result of the tool, and what it has written. -/
structure EditExecution where
  isError : Bool
  output : String
  written : Option Text

namespace EditTool

def replaceOnceLiteral (content oldString newString : Text) : Text :=
  match indexOf content oldString 0 with
  | none => content
  | some index =>
    slice content 0 index ++ newString ++ sliceFrom content (index + oldString.length : ℕ)

/-- The loop that counts occurrences from `pos` on. -/
def countOccurrences (content oldString : Text) (nonempty : oldString ≠ []) (pos : ℕ) : ℕ :=
  if pos < content.length then
    match _found : indexOf content oldString pos with
    | none => 0
    | some idx => countOccurrences content oldString nonempty (idx + oldString.length) + 1
  else 0
termination_by content.length - pos
decreasing_by
  obtain ⟨le, -, -⟩ := indexOf_eq_some _found
  have := List.length_pos_of_ne_nil nonempty
  omega

def fail (output : String) : EditExecution := ⟨true, output, none⟩

def notFound (path : String) : EditExecution :=
  fail (s!"old_string not found in {path}, the file contents may be out of date. " ++
    "Please use the Read Tool to reload the content.\n")

/-- Without `replace_all`. -/
def editOnce (args : EditInput) (raw : Text) : EditExecution :=
  let modelView := toModelTextView raw
  let content := modelView.text
  let count := countOccurrences content args.old_string args.nonempty 0
  if count = 0 then notFound args.path
  else if 1 < count then
    fail (s!"old_string is not unique in {args.path} (found {count} occurrences). " ++
      "To replace every occurrence, set replace_all=true. To replace only one occurrence, " ++
      "include more surrounding context in old_string.")
  else
    let newContent := replaceOnceLiteral content args.old_string args.new_string
    { isError := false
      output := s!"Replaced 1 occurrence in {args.path}"
      written := materializeModelText newContent modelView.lineEndingStyle }

/-- With `replace_all`. -/
def editAll (args : EditInput) (raw : Text) : EditExecution :=
  let modelView := toModelTextView raw
  let content := modelView.text
  let parts := split args.old_string content
  let replacementCount := parts.length - 1
  if replacementCount = 0 then notFound args.path
  else
    let newContent := Substrings.join args.new_string parts
    { isError := false
      output := s!"Replaced {replacementCount} occurrences in {args.path}"
      written := materializeModelText newContent modelView.lineEndingStyle }

def execution (args : EditInput) (read : Except ReadError Text) : EditExecution :=
  if args.old_string = args.new_string then
    fail "No changes to make: old_string and new_string are exactly the same."
  else match read with
    | .error error =>
      if error.code = some "EISDIR" then fail s!"{args.path} is not a file."
      else fail error.message
    | .ok raw => if args.replace_all.getD false then editAll args raw else editOnce args raw

/-! ## The law -/

/-- The text occurs at one position of the model's view, and nothing but this is replaced. -/
def ReplacedOnce (raw old new written : Text) : Prop :=
  let view := toModelTextView raw
  let rawText := inStyle view.lineEndingStyle
  ∃ p, (∀ q, Substrings.Occurs view.text old q ↔ q = p) ∧
    let before := rawText (view.text.take p)
    let after := rawText (view.text.drop (p + old.length))
    raw = before ++ rawText old ++ after ∧ written = before ++ rawText new ++ after

/-- The occurrences that are found from left to right, none inside another, are replaced, and
nothing else. -/
def ReplacedAll (raw old new written : Text) : Prop :=
  let view := toModelTextView raw
  let rawText := inStyle view.lineEndingStyle
  ∃ parts, Substrings.Cuts old view.text parts ∧ 1 < parts.length ∧
    raw = Substrings.join (rawText old) (parts.map rawText) ∧
    written = Substrings.join (rawText new) (parts.map rawText)

def Law (args : EditInput) (read : Except ReadError Text) (result : EditExecution) : Prop :=
  (result.isError = true → result.written = none) ∧
    (result.isError = false → ∃ raw written, read = .ok raw ∧ result.written = some written ∧
      if args.replace_all.getD false then
        ReplacedAll raw args.old_string args.new_string written
      else ReplacedOnce raw args.old_string args.new_string written)

/-- No second occurrence begins inside the one that is found, and in a CRLF file no CR at the end
of the replacement comes to stand before a line end. -/
def Plain (args : EditInput) (raw : Text) : Prop :=
  let view := toModelTextView raw
  let old := args.old_string
  old ≠ args.new_string →
    if args.replace_all.getD false then
      ∀ parts, Substrings.Cuts old view.text parts →
        view.lineEndingStyle = .crlf → ¬ Merges args.new_string parts
    else
      ∀ p, Substrings.First view.text old p →
        (∀ q, p + old.length ≤ q → ¬ Substrings.Occurs view.text old q) →
        (∀ q, p < q → q < p + old.length → ¬ Substrings.Occurs view.text old q) ∧
          (view.lineEndingStyle = .crlf →
            ¬ Merge args.new_string (view.text.drop (p + old.length)))

variable {content raw old new written : Text} {p pos : ℕ} {parts : List Text}

/-! ## Counting -/

theorem countOccurrences_none (nonempty : old ≠ []) (none : indexOf content old pos = none) :
    countOccurrences content old nonempty pos = 0 := by
  rw [countOccurrences]
  split
  case isFalse => rfl
  case isTrue =>
    split
    case h_1 => rfl
    case h_2 found => exact nomatch none.symm.trans found

theorem countOccurrences_some (nonempty : old ≠ []) (found : indexOf content old pos = some p) :
    countOccurrences content old nonempty pos =
      countOccurrences content old nonempty (p + old.length) + 1 := by
  obtain ⟨le, here, -⟩ := indexOf_eq_some found
  have inside : pos < content.length := by
    have := here.length_le
    have := List.length_pos_of_ne_nil nonempty
    rw [List.length_drop] at *
    omega
  rw [countOccurrences, if_pos inside]
  split
  case h_1 none => exact nomatch none.symm.trans found
  case h_2 q found' =>
    cases found'.symm.trans found
    rfl

theorem countOccurrences_eq_zero (nonempty : old ≠ []) :
    countOccurrences content old nonempty pos = 0 ↔
      ∀ q, pos ≤ q → ¬ Substrings.Occurs content old q := by
  rcases found : indexOf content old pos with _ | p
  · exact iff_of_true (countOccurrences_none nonempty found) (indexOf_eq_none nonempty found)
  · rw [countOccurrences_some nonempty found]
    obtain ⟨le, here, -⟩ := indexOf_eq_some found
    exact iff_of_false (Nat.succ_ne_zero _) fun none => none p le here

theorem replaceOnceLiteral_some (found : indexOf content old 0 = some p) :
    replaceOnceLiteral content old new =
      content.take p ++ new ++ content.drop (p + old.length) := by
  rw [replaceOnceLiteral, found]
  dsimp only
  rw [sliceFrom_natCast, slice, List.drop_zero]

/-! ## What is written -/

/-- The file, and what is written for it, around the occurrences. -/
theorem written_iff (new : Text)
    (cuts : Substrings.Cuts old (toModelTextView raw).text parts) :
    let style := (toModelTextView raw).lineEndingStyle
    raw = Substrings.join (inStyle style old) (parts.map (inStyle style)) ∧
      (materializeModelText (Substrings.join new parts) style =
          Substrings.join (inStyle style new) (parts.map (inStyle style)) ↔
        (style = .crlf → ¬ Merges new parts)) := by
  obtain ⟨whole, clean⟩ := inStyle_toModelTextView raw
  have parts_clean (crlf : (toModelTextView raw).lineEndingStyle = .crlf) :
      ∀ part ∈ parts, cr ∉ part := fun part mem inside =>
    clean crlf (cuts.join_eq ▸ Substrings.mem_join mem inside)
  refine ⟨?_, ?_⟩
  · refine whole.symm.trans ?_
    rw [← cuts.join_eq]
    refine (inStyle_join_iff old parts_clean).2 fun crlf => not_merges_of_clean ?_
    rw [cuts.join_eq]
    exact clean crlf
  · rw [materializeModelText_eq]
    exact inStyle_join_iff new parts_clean

theorem cuts_two (first : Substrings.First content old p)
    (later : ∀ q, p + old.length ≤ q → ¬ Substrings.Occurs content old q) :
    Substrings.Cuts old content [content.take p, content.drop (p + old.length)] :=
  .cut first (.last fun q here =>
    later _ (Nat.le_add_right _ q) ((Substrings.occurs_drop _).1 here))

/-- One occurrence that the count has found: what is written is right unless there is another
inside it, or a CR is lost. -/
theorem replacedOnce_iff (first : Substrings.First (toModelTextView raw).text old p)
    (later : ∀ q, p + old.length ≤ q → ¬ Substrings.Occurs (toModelTextView raw).text old q) :
    let view := toModelTextView raw
    ReplacedOnce raw old new (materializeModelText
        (view.text.take p ++ new ++ view.text.drop (p + old.length)) view.lineEndingStyle) ↔
      (∀ q, p < q → q < p + old.length → ¬ Substrings.Occurs view.text old q) ∧
        (view.lineEndingStyle = .crlf → ¬ Merge new (view.text.drop (p + old.length))) := by
  intro view
  obtain ⟨before, after⟩ := written_iff new (cuts_two first later)
  have merges : Merges new [view.text.take p, view.text.drop (p + old.length)] ↔
    Merge new (view.text.drop (p + old.length)) := iff_of_eq (or_false _)
  rw [merges] at after
  constructor
  · rintro ⟨q, only, -, written⟩
    obtain rfl := (only p).1 first.1
    refine ⟨fun r lt _ here => ?_, after.1 written⟩
    exact absurd ((only r).1 here) (Nat.ne_of_gt lt)
  · rintro ⟨inside, apart⟩
    refine ⟨p, fun q => ⟨fun here => ?_, fun same => same ▸ first.1⟩, before, after.2 apart⟩
    rcases Nat.lt_trichotomy q p with lt | same | lt
    · exact absurd here (first.2 q lt)
    · exact same
    · by_cases le : p + old.length ≤ q
      · exact absurd here (later q le)
      · exact absurd here (inside q lt (Nat.lt_of_not_le le))

theorem law_fail (args : EditInput) (read : Except ReadError Text) (output : String) :
    Law args read (fail output) :=
  ⟨fun _ => rfl, fun success => nomatch success⟩

theorem law_success {args : EditInput} {output : String} :
    Law args (.ok raw) ⟨false, output, some written⟩ ↔
      if args.replace_all.getD false then ReplacedAll raw args.old_string args.new_string written
      else ReplacedOnce raw args.old_string args.new_string written := by
  constructor
  · rintro ⟨-, success⟩
    obtain ⟨_, _, same, same', replaced⟩ := success rfl
    obtain rfl := Except.ok.inj same
    cases same'
    exact replaced
  · intro replaced
    exact ⟨fun error => (nomatch error), fun _ => ⟨raw, written, rfl, rfl, replaced⟩⟩

theorem law_editOnce_iff {args : EditInput} (different : args.old_string ≠ args.new_string)
    (once : args.replace_all.getD false = false) :
    Law args (.ok raw) (editOnce args raw) ↔ Plain args raw := by
  have plain : Plain args raw ↔ ∀ p, Substrings.First (toModelTextView raw).text args.old_string p →
      (∀ q, p + args.old_string.length ≤ q →
        ¬ Substrings.Occurs (toModelTextView raw).text args.old_string q) →
      (∀ q, p < q → q < p + args.old_string.length →
        ¬ Substrings.Occurs (toModelTextView raw).text args.old_string q) ∧
      ((toModelTextView raw).lineEndingStyle = .crlf → ¬ Merge args.new_string
        ((toModelTextView raw).text.drop (p + args.old_string.length))) := by
    rw [Plain, once]
    exact forall_prop_of_true different
  rw [plain, editOnce]
  rcases found : indexOf (toModelTextView raw).text args.old_string 0 with _ | p
  · rw [if_pos (countOccurrences_none args.nonempty found)]
    refine iff_of_true (law_fail _ _ _) fun p first => ?_
    exact absurd first.1 (indexOf_eq_none args.nonempty found p (Nat.zero_le p))
  · have first := first_of_indexOf found
    rw [countOccurrences_some args.nonempty found, if_neg (Nat.succ_ne_zero _)]
    by_cases later : ∀ q, p + args.old_string.length ≤ q →
        ¬ Substrings.Occurs (toModelTextView raw).text args.old_string q
    · have zero := (countOccurrences_eq_zero args.nonempty).2 later
      rw [zero, if_neg (Nat.lt_irrefl 1), replaceOnceLiteral_some found, law_success, once]
      rw [if_neg Bool.false_ne_true]
      refine (replacedOnce_iff first later).trans ?_
      constructor
      · intro kept q first'
        obtain rfl := first.unique first'
        exact fun _ => kept
      · exact fun kept => kept p first later
    · have more := (countOccurrences_eq_zero args.nonempty).not.2 later
      rw [if_pos (Nat.succ_lt_succ (Nat.pos_of_ne_zero more))]
      refine iff_of_true (law_fail _ _ _) fun q first' later' => ?_
      obtain rfl := first.unique first'
      exact absurd later' later

theorem law_editAll_iff {args : EditInput} (different : args.old_string ≠ args.new_string)
    (all : args.replace_all.getD false = true) :
    Law args (.ok raw) (editAll args raw) ↔ Plain args raw := by
  have cuts := cuts_split args.nonempty (toModelTextView raw).text
  have plain : Plain args raw ↔ ((toModelTextView raw).lineEndingStyle = .crlf →
      ¬ Merges args.new_string (split args.old_string (toModelTextView raw).text)) := by
    rw [Plain, all]
    refine (forall_prop_of_true different).trans ⟨fun every => every _ cuts, ?_⟩
    intro apart parts cuts'
    exact cuts.unique cuts' ▸ apart
  obtain ⟨before, after⟩ := written_iff args.new_string cuts
  rw [plain, editAll, ← after]
  split
  case isTrue one =>
    refine iff_of_true (law_fail _ _ _) (after.2 fun _ => ?_)
    obtain ⟨part, eq⟩ := List.length_eq_one_iff.1 (Nat.le_antisymm (Nat.le_of_sub_eq_zero one)
      (List.length_pos_of_ne_nil cuts.ne_nil))
    rw [eq]
    exact id
  case isFalse more =>
    rw [law_success, all, if_pos rfl]
    constructor
    · rintro ⟨parts, cuts', -, -, written⟩
      exact cuts.unique cuts' ▸ written
    · exact fun written => ⟨_, cuts, Nat.lt_of_sub_ne_zero more, before, written⟩

/-- The tool does what it says exactly when the input is plain. -/
theorem execution_law_iff (args : EditInput) (read : Except ReadError Text) :
    Law args read (execution args read) ↔ ∀ raw, read = .ok raw → Plain args raw := by
  unfold execution
  split
  case isTrue same =>
    exact iff_of_true (law_fail _ _ _) fun _ _ different => absurd same different
  case isFalse different =>
    cases read with
    | error =>
      refine iff_of_true ?_ fun _ ok => nomatch ok
      dsimp only
      split <;> exact law_fail _ _ _
    | ok raw =>
      have plain : (∀ raw', (Except.ok raw : Except ReadError Text) = .ok raw' →
          Plain args raw') ↔ Plain args raw :=
        ⟨fun every => every raw rfl, fun plain raw' same => Except.ok.inj same ▸ plain⟩
      rw [plain]
      dsimp only
      split
      case isTrue all => exact law_editAll_iff different all
      case isFalse once => exact law_editOnce_iff different (Bool.eq_false_iff.2 once)

/-- In a CRLF file the replacement ends with a CR, and a line end follows. -/
def carriageReturn : EditInput where
  path := "notes.txt"
  old_string := units "a"
  new_string := units "b\r"
  nonempty := by decide

/-- The line end loses its LF: what is written is `b` and CRLF. -/
theorem carriageReturn_lost :
    (execution carriageReturn (.ok (units "a\r\n"))).written = some (units "b\r\n") ∧
      ¬ Law carriageReturn (.ok (units "a\r\n"))
        (execution carriageReturn (.ok (units "a\r\n"))) := by
  refine ⟨by decide +kernel, ?_⟩
  have text : (toModelTextView (units "a\r\n")).text = units "a\n" := by decide +kernel
  have style : (toModelTextView (units "a\r\n")).lineEndingStyle = .crlf := by decide +kernel
  have different : carriageReturn.old_string ≠ carriageReturn.new_string := by decide
  have once : execution carriageReturn (.ok (units "a\r\n")) =
      editOnce carriageReturn (units "a\r\n") := by
    rw [execution, if_neg different]
    rfl
  rw [once, law_editOnce_iff different rfl]
  intro plain
  have found : indexOf (units "a\n") (units "a") 0 = some 0 := by decide +kernel
  have later : countOccurrences (units "a\n") (units "a") carriageReturn.nonempty 1 = 0 := by
    decide +kernel
  refine (plain different 0 (text ▸ first_of_indexOf found) ?_).2 style ?_
  · exact text ▸ (countOccurrences_eq_zero _).1 later
  · rw [text]
    exact ⟨by decide, by decide⟩

/-- The second occurrence begins inside the first, and the tool does not see it. -/
example : (execution ⟨"notes.txt", units "aa", units "b", none, by decide⟩
    (.ok (units "aaa"))).written = some (units "ba") := by decide +kernel

end EditTool

end KimiCli
