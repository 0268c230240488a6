import KimiCli.Js.Text

/-!
# Matching a rule's argument

`tools/support/rule-match.ts` and `path-glob-match.ts`, with the part of
`tools/policies/path-access.ts` that makes a path canonical, on strings as lists of characters.
The packages `picomatch` and `pathe` are parameters.
-/

namespace KimiCli

/-- `value.startsWith(start)`. -/
def startsWith (value start : List Char) : Bool := start.isPrefixOf value

inductive PathClass
  | posix | win32
  deriving DecidableEq

/-- The functions of `pathe` that are used. -/
structure Pathe where
  isAbsolute : List Char → Bool
  normalize : List Char → List Char
  resolve : List Char → List Char → List Char
  join : List Char → List Char → List Char
  /-- `parse(path).root`. -/
  root : List Char → List Char

/-! ## Literal patterns -/

def GLOB_LITERAL_SPECIAL : List Char :=
  ['\\', '*', '?', '[', ']', '{', '}', '(', ')', '!', '+', '@', '|']

def escapeRuleSubjectLiteral (subject : List Char) : List Char :=
  subject.flatMap fun c => if c ∈ GLOB_LITERAL_SPECIAL then ['\\', c] else [c]

def literalRulePattern (toolName subject : List Char) : List Char :=
  toolName ++ '(' :: (escapeRuleSubjectLiteral subject ++ [')'])

/-! ## Canonical paths -/

inductive PathSecurityCode
  | PATH_OUTSIDE_WORKSPACE | PATH_SENSITIVE | PATH_INVALID

structure PathSecurityError where
  code : PathSecurityCode
  rawPath : List Char
  canonicalPath : List Char
  message : String

/-- `/[A-Za-z]/`. -/
def isDriveLetter (c : Char) : Bool := ('A' ≤ c && c ≤ 'Z') || ('a' ≤ c && c ≤ 'z')

def isWin32DriveRelative : List Char → Bool
  | drive :: ':' :: rest =>
    isDriveLetter drive && (match rest with
      | [] => true
      | c :: _ => c ≠ '\\' && c ≠ '/')
  | _ => false

/-- `path.slice(start.length)` if it is a drive letter, and `/` or the end behind it. -/
def driveBehind (path start : List Char) : Option (List Char) :=
  if startsWith path start then
    match path.drop start.length with
    | drive :: rest =>
      if isDriveLetter drive ∧ (rest = [] ∨ rest.head? = some '/') then
        some (drive.toUpper :: ':' :: (if rest = [] then ['/'] else rest))
      else none
    | [] => none
  else none

def normalizeUserPath (path : List Char) (pathClass : PathClass) : List Char :=
  if pathClass ≠ .win32 then path
  else if path = ['/'] then ['/']
  else if startsWith path ['/', '/'] then path
  else
    match driveBehind path "/cygdrive/".toList with
    | some path => path
    | none => (driveBehind path ['/']).getD path

section

variable (pathe : Pathe)

def canonicalizePath (path cwd : List Char) (pathClass : PathClass) :
    Except PathSecurityError (List Char) :=
  let invalid (canonicalPath : List Char) (message : String) : PathSecurityError :=
    { code := .PATH_INVALID, rawPath := path, canonicalPath, message }
  if path = [] then .error (invalid path "Path cannot be empty")
  else
    let normalizedPath := normalizeUserPath path pathClass
    if pathClass = .win32 ∧ isWin32DriveRelative normalizedPath then
      .error (invalid normalizedPath
        (s!"\"{String.ofList path}\" is a drive-relative Windows path. " ++
          "Use an absolute path like C:\\path or a path relative to the working directory."))
    else if !pathe.isAbsolute normalizedPath ∧ !pathe.isAbsolute cwd then
      .error (invalid normalizedPath
        (s!"Cannot resolve \"{String.ofList path}\" against " ++
          s!"non-absolute cwd \"{String.ofList cwd}\"."))
    else
      .ok (pathe.normalize (if pathe.isAbsolute normalizedPath then normalizedPath
        else pathe.resolve cwd normalizedPath))

/-! ## Glob matching -/

structure PermissionPathMatchOptions where
  cwd : Option (List Char) := none
  pathClass : Option PathClass := none
  homeDir : Option (List Char) := none
  caseInsensitivePaths : Option Bool := none

def stripLeadingDotSlash (value : List Char) : List Char :=
  if startsWith value ['.', '/'] then value.drop 2 else value

def stripLeadingDotPath (value : List Char) (pathClass : PathClass) : List Char :=
  if startsWith value ['.', '/'] then value.drop 2
  else if pathClass = .win32 ∧ startsWith value ['.', '\\'] then value.drop 2
  else value

/-- `value.replaceAll('\\', '/')`. -/
def withSlashes (value : List Char) : List Char := value.map fun c => if c = '\\' then '/' else c

/-- The variants are a set; repetitions do not matter. -/
def addPathVariant (variants : List (List Char)) (value : List Char) (pathClass : PathClass) :
    List (List Char) :=
  variants ++ value :: (if pathClass = .win32 then [withSlashes value] else [])

/-- `expandUserPath` of `path-glob-match.ts`. -/
def expandUserPath (value : List Char) (pathClass : PathClass) (homeDir : Option (List Char)) :
    List Char :=
  match homeDir with
  | none => value
  | some homeDir =>
    if value = ['~'] then homeDir
    else if startsWith value ['~', '/'] ∨ (pathClass = .win32 ∧ startsWith value ['~', '\\']) then
      pathe.join homeDir (value.drop 2)
    else value

def defaultCwdForPath (value : List Char) : Option (List Char) :=
  if pathe.isAbsolute value then some (pathe.root value) else none

def canonicalizePathPattern (value : List Char) (pathClass : PathClass)
    (pathOptions : PermissionPathMatchOptions) : Option (List Char) :=
  let expanded := expandUserPath pathe value pathClass pathOptions.homeDir
  match pathOptions.cwd <|> defaultCwdForPath pathe expanded with
  | none => none
  | some cwd => (canonicalizePath pathe expanded cwd pathClass).toOption

def pathVariants (value : List Char) (pathClass : PathClass)
    (pathOptions : PermissionPathMatchOptions) : List (List Char) :=
  let variants := addPathVariant [] value pathClass
  let variants := addPathVariant variants (stripLeadingDotPath value pathClass) pathClass
  match canonicalizePathPattern pathe value pathClass pathOptions with
  | some canonical => addPathVariant variants canonical pathClass
  | none => variants

/-- A Windows drive, a UNC path or a backslash. -/
def looksLikeWin32 (candidate : List Char) : Bool :=
  (match candidate with
    | drive :: ':' :: rest =>
      isDriveLetter drive && (match rest with
        | [] => true
        | c :: _ => c = '\\' || c = '/')
    | _ => false) || startsWith candidate ['\\', '\\'] || candidate.contains '\\'

def pathMatchSemantics (value pattern : List Char) (pathOptions : PermissionPathMatchOptions) :
    PathClass :=
  pathOptions.pathClass.getD
    (if [value, pattern].any looksLikeWin32 then .win32 else .posix)

/-- `picomatch.isMatch(value, pattern, { nocase })`, with `nocase` as the first argument.  It
throws on an empty pattern, which only the command `./` leaves; the results exclude that. -/
abbrev Picomatch := Bool → List Char → List Char → Bool

variable (isMatch : Picomatch)

def globMatch (value pattern : List Char) (nocase : Bool) : Bool :=
  if isMatch nocase value pattern then true
  else
    let normalizedValue := stripLeadingDotSlash value
    let normalizedPattern := stripLeadingDotSlash pattern
    if normalizedValue = value ∧ normalizedPattern = pattern then false
    else isMatch nocase normalizedValue normalizedPattern

def pathGlobMatch (value pattern : List Char) (pathOptions : PermissionPathMatchOptions) : Bool :=
  let pathClass := pathMatchSemantics value pattern pathOptions
  let nocase := pathOptions.caseInsensitivePaths.getD true
  if globMatch isMatch value pattern nocase then true
  else
    (pathVariants pathe value pathClass pathOptions).any fun valueVariant =>
      (pathVariants pathe pattern pathClass pathOptions).any fun patternVariant =>
        globMatch isMatch valueVariant patternVariant nocase

def matchRuleSubjects (ruleArgs : List Char) (subjects : List (List Char))
    (matchesPositivePattern : List Char → List Char → Bool) : Bool :=
  if ruleArgs.length = 0 then true
  else
    let negated := startsWith ruleArgs ['!']
    let positivePattern := if negated then ruleArgs.drop 1 else ruleArgs
    let hit := subjects.any fun subject => matchesPositivePattern positivePattern subject
    if negated then !hit else hit

def matchesGlobRuleSubject (ruleArgs subject : List Char) : Bool :=
  matchRuleSubjects ruleArgs [subject] fun pattern value => globMatch isMatch value pattern false

def matchesPathRuleSubject (ruleArgs subject : List Char)
    (options : PermissionPathMatchOptions) : Bool :=
  matchRuleSubjects ruleArgs [subject] fun pattern value =>
    pathGlobMatch pathe isMatch value pattern options

end

/-! ## What is assumed of the packages -/

/-- A pattern whose glob characters are all escaped matches exactly the literal string, up to
letter case if `nocase` is set; `canonicalize` is what an `i` regular expression compares. -/
def MatchesLiterally (canonicalize : Char → Char) (isMatch : Picomatch) : Prop :=
  ∀ nocase value subject, subject ≠ [] →
    (isMatch nocase value (escapeRuleSubjectLiteral subject) = true ↔
      if nocase then value.map canonicalize = subject.map canonicalize else value = subject)

/-- No character of the string is one that globs give a meaning to. -/
def IsLiteral (value : List Char) : Prop := ∀ c ∈ value, c ∉ GLOB_LITERAL_SPECIAL

/-- What `pathe` documents: an absolute path begins with a slash or a drive; normal paths have
forward slashes only, no new characters other than these, and are normal. -/
structure Pathe.Laws (pathe : Pathe) : Prop where
  head : ∀ path, pathe.isAbsolute path = true → ∃ c rest, path = c :: rest ∧ c ≠ '.' ∧ c ≠ '~'
  drive : ∀ drive rest, isDriveLetter drive = true →
    pathe.isAbsolute (drive :: ':' :: '/' :: rest) = true
  resolve : ∀ cwd path, pathe.isAbsolute cwd = true →
    pathe.isAbsolute (pathe.resolve cwd path) = true
  normalize : ∀ path, pathe.isAbsolute path = true → pathe.isAbsolute (pathe.normalize path) = true
  slashes : ∀ path, '\\' ∉ pathe.normalize path
  literal : ∀ path, IsLiteral path → IsLiteral (pathe.normalize path)
  idempotent : ∀ path, pathe.normalize (pathe.normalize path) = pathe.normalize path

/-! ## Literal patterns match themselves -/

section

variable {pathe : Pathe} {isMatch : Picomatch} {canonicalize : Char → Char}
  {value subject path cwd : List Char} {pathClass : PathClass}

theorem escape_literal (literal : IsLiteral subject) :
    escapeRuleSubjectLiteral subject = subject := by
  induction subject with
  | nil => rfl
  | cons c subject ih =>
    have rest := ih fun c mem => literal c (List.mem_cons_of_mem _ mem)
    unfold escapeRuleSubjectLiteral at rest ⊢
    rw [List.flatMap_cons, rest, if_neg (literal c (List.mem_cons_self ..))]
    rfl

theorem escape_cons (c : Char) (subject : List Char) : escapeRuleSubjectLiteral (c :: subject) =
    (if c ∈ GLOB_LITERAL_SPECIAL then ['\\', c] else [c]) ++ escapeRuleSubjectLiteral subject :=
  List.flatMap_cons

theorem escape_ne_nil (some : subject ≠ []) : escapeRuleSubjectLiteral subject ≠ [] := by
  rcases subject with - | ⟨c, subject⟩
  · exact absurd rfl some
  · rw [escape_cons]
    split <;> simp

theorem escape_not_negated (subject : List Char) :
    startsWith (escapeRuleSubjectLiteral subject) ['!'] = false := by
  rcases subject with - | ⟨c, subject⟩
  · rfl
  · rw [escape_cons]
    split
    case isTrue => rfl
    case isFalse plain =>
      have other : ('!' == c) = false := by
        refine beq_eq_false_iff_ne.2 fun same => plain ?_
        rw [← same]
        decide
      simp [startsWith, List.isPrefixOf, other]

theorem matchRuleSubjects_literal (some : subject ≠ []) (f : List Char → List Char → Bool) :
    matchRuleSubjects (escapeRuleSubjectLiteral subject) [value] f =
      f (escapeRuleSubjectLiteral subject) value := by
  rw [matchRuleSubjects, if_neg (by simpa using escape_ne_nil some)]
  simp [escape_not_negated]

theorem strip_other (other : ∀ rest, value ≠ '.' :: '/' :: rest) :
    stripLeadingDotSlash value = value := by
  rw [stripLeadingDotSlash, if_neg]
  intro dots
  obtain ⟨rest, eq⟩ := List.isPrefixOf_iff_prefix.1 dots
  exact other rest eq.symm

theorem escape_eq_cons {c : Char} {rest : List Char} (plain : c ≠ '\\')
    (eq : escapeRuleSubjectLiteral subject = c :: rest) :
    ∃ more, subject = c :: more ∧ escapeRuleSubjectLiteral more = rest := by
  rcases subject with - | ⟨d, subject⟩
  · cases eq
  · rw [escape_cons] at eq
    split at eq
    · exact absurd (List.cons.inj eq).1.symm plain
    · obtain ⟨rfl, more⟩ := List.cons.inj eq
      exact ⟨subject, rfl, more⟩

theorem strip_escape (subject : List Char) :
    stripLeadingDotSlash (escapeRuleSubjectLiteral subject) =
      escapeRuleSubjectLiteral (stripLeadingDotSlash subject) := by
  by_cases dots : ∃ rest, subject = '.' :: '/' :: rest
  · obtain ⟨rest, rfl⟩ := dots
    rfl
  · rw [not_exists] at dots
    rw [strip_other dots, strip_other fun rest eq => ?_]
    obtain ⟨more, rfl, tail⟩ := escape_eq_cons (by decide) eq
    obtain ⟨more, rfl, -⟩ := escape_eq_cons (by decide) tail
    exact dots more rfl

/-- A command matches the literal pattern of another one if they are the same up to a leading
`./`. -/
theorem globMatch_literal (picomatch : MatchesLiterally canonicalize isMatch)
    (some : stripLeadingDotSlash subject ≠ []) :
    globMatch isMatch value (escapeRuleSubjectLiteral subject) false = true ↔
      stripLeadingDotSlash value = stripLeadingDotSlash subject := by
  have nonempty : subject ≠ [] := by
    rintro rfl
    exact some rfl
  have whole := picomatch false value subject nonempty
  have stripped := picomatch false (stripLeadingDotSlash value) (stripLeadingDotSlash subject) some
  rw [if_neg Bool.false_ne_true] at whole stripped
  unfold globMatch
  dsimp only
  rw [strip_escape]
  split
  case isTrue same => exact iff_of_true rfl (congrArg _ (whole.1 same))
  case isFalse differs =>
    split
    case isTrue unchanged =>
      have kept : stripLeadingDotSlash subject = subject := by
        refine strip_other fun rest eq => ?_
        have length := congrArg List.length unchanged.2
        rw [eq] at length
        change (escapeRuleSubjectLiteral rest).length =
          (escapeRuleSubjectLiteral rest).length + 1 + 1 at length
        omega
      refine iff_of_false Bool.false_ne_true fun same => differs (whole.2 ?_)
      rw [← unchanged.1, same, kept]
    case isFalse => exact stripped

/-! ## Literal paths -/

theorem Pathe.Laws.strip (laws : pathe.Laws) (absolute : pathe.isAbsolute path = true) :
    stripLeadingDotSlash path = path := by
  obtain ⟨c, rest, rfl, dot, -⟩ := laws.head path absolute
  exact strip_other fun rest eq => dot (List.cons.inj eq).1

theorem globMatch_absolute (picomatch : MatchesLiterally canonicalize isMatch)
    (laws : pathe.Laws) (absolute : pathe.isAbsolute value = true)
    (absolute' : pathe.isAbsolute path = true) (literal : IsLiteral path) :
    globMatch isMatch value path true = true ↔
      value.map canonicalize = path.map canonicalize := by
  have nonempty : path ≠ [] := by
    obtain ⟨c, rest, rfl, -⟩ := laws.head path absolute'
    exact List.cons_ne_nil c rest
  have whole := picomatch true value path nonempty
  rw [escape_literal literal, if_pos rfl] at whole
  unfold globMatch
  split
  case isTrue same => exact iff_of_true rfl (whole.1 same)
  case isFalse differs =>
    rw [laws.strip absolute, laws.strip absolute', if_pos ⟨rfl, rfl⟩]
    exact iff_of_false Bool.false_ne_true fun same => differs (whole.2 same)

/-- A path that `canonicalizePath` has returned. -/
structure Canonical (pathe : Pathe) (pathClass : PathClass) (path : List Char) : Prop where
  made : ∃ given cwd, canonicalizePath pathe given cwd pathClass = .ok path

theorem canonicalizePath_ok (laws : pathe.Laws) {canonical : List Char}
    (ok : canonicalizePath pathe path cwd pathClass = .ok canonical) :
    ∃ absolute, pathe.isAbsolute absolute = true ∧ canonical = pathe.normalize absolute ∧
      (pathe.isAbsolute (normalizeUserPath path pathClass) = true →
        absolute = normalizeUserPath path pathClass) := by
  unfold canonicalizePath at ok
  dsimp only at ok
  split at ok
  · cases ok
  split at ok
  · cases ok
  split at ok
  · cases ok
  case isFalse based =>
    obtain rfl := Except.ok.inj ok
    by_cases absolute : pathe.isAbsolute (normalizeUserPath path pathClass) = true
    · rw [if_pos absolute]
      exact ⟨_, absolute, rfl, fun _ => rfl⟩
    · rw [if_neg absolute]
      have cwdAbsolute : pathe.isAbsolute cwd = true := by simpa [absolute] using based
      exact ⟨_, laws.resolve _ _ cwdAbsolute, rfl, fun here => absurd here absolute⟩

theorem Canonical.absolute (laws : pathe.Laws) (canonical : Canonical pathe pathClass path) :
    pathe.isAbsolute path = true ∧ '\\' ∉ path ∧ pathe.normalize path = path := by
  obtain ⟨given, cwd, ok⟩ := canonical.made
  obtain ⟨before, absolute, rfl, -⟩ := canonicalizePath_ok laws ok
  exact ⟨laws.normalize _ absolute, laws.slashes _, laws.idempotent _⟩

theorem isDriveLetter_toUpper {c : Char} (letter : isDriveLetter c = true) :
    isDriveLetter c.toUpper = true ∧ c.toUpper ∉ GLOB_LITERAL_SPECIAL := by
  have small : c.toNat < 128 := by
    simp only [isDriveLetter, Bool.or_eq_true, Bool.and_eq_true, decide_eq_true_eq, Char.le_def,
      UInt32.le_iff_toNat_le] at letter
    change c.val.toNat < 128
    have z : 'z'.val.toNat = 122 := rfl
    have upper : 'Z'.val.toNat = 90 := rfl
    omega
  have all : ∀ n < 128, isDriveLetter (Char.ofNat n) = true →
      isDriveLetter (Char.ofNat n).toUpper = true ∧
        (Char.ofNat n).toUpper ∉ GLOB_LITERAL_SPECIAL := by
    decide
  have result := all c.toNat small
  rw [Char.ofNat_toNat] at result
  exact result letter

theorem driveBehind_some (laws : pathe.Laws) {start found : List Char}
    (eq : driveBehind path start = some found) :
    pathe.isAbsolute found = true ∧ (IsLiteral path → IsLiteral found) := by
  unfold driveBehind at eq
  split at eq
  case isFalse => cases eq
  case isTrue =>
    split at eq
    case h_2 => cases eq
    case h_1 drive rest behind =>
      split at eq
      case isFalse => cases eq
      case isTrue letter =>
        cases eq
        obtain ⟨upper, plain⟩ := isDriveLetter_toUpper letter.1
        have slash : ∃ more, (if rest = [] then ['/'] else rest) = '/' :: more ∧
            ∀ c ∈ more, c ∈ path := by
          rcases rest with - | ⟨c, more⟩
          · exact ⟨[], rfl, fun c mem => nomatch mem⟩
          · have first : c = '/' := by simpa using letter.2
            refine ⟨more, by simp [first], fun c mem => ?_⟩
            refine List.mem_of_mem_drop (i := start.length) (behind ▸ ?_)
            exact List.mem_cons_of_mem _ (List.mem_cons_of_mem _ mem)
        obtain ⟨more, eq', inside⟩ := slash
        rw [eq']
        refine ⟨laws.drive _ _ upper, fun literal c mem => ?_⟩
        simp only [List.mem_cons] at mem
        rcases mem with rfl | rfl | rfl | mem
        · exact plain
        · decide
        · decide
        · exact literal c (inside c mem)

theorem normalizeUserPath_absolute (laws : pathe.Laws) (absolute : pathe.isAbsolute path = true) :
    pathe.isAbsolute (normalizeUserPath path pathClass) = true ∧
      (IsLiteral path → IsLiteral (normalizeUserPath path pathClass)) := by
  unfold normalizeUserPath
  split
  · exact ⟨absolute, id⟩
  split
  case isTrue root => exact ⟨root ▸ absolute, fun literal => root ▸ literal⟩
  split
  · exact ⟨absolute, id⟩
  split
  case h_1 found eq => exact driveBehind_some laws eq
  case h_2 =>
    rcases eq : driveBehind path ['/'] with - | found
    · exact ⟨absolute, id⟩
    · exact driveBehind_some laws eq

theorem mem_pathVariants (laws : pathe.Laws) (canonical : Canonical pathe pathClass path)
    (options : PermissionPathMatchOptions) {variant : List Char}
    (mem : variant ∈ pathVariants pathe path pathClass options) :
    pathe.isAbsolute variant = true ∧ (pathClass = .posix → variant = path) ∧
      (IsLiteral path → IsLiteral variant) := by
  obtain ⟨absolute, slashes, normal⟩ := canonical.absolute laws
  obtain ⟨c, rest, eq, dot, tilde⟩ := laws.head path absolute
  have same {value : List Char} (slashes : '\\' ∉ value) : withSlashes value = value := by
    refine (List.map_congr_left fun c mem => ?_).trans (List.map_id _)
    rw [if_neg]
    · rfl
    · rintro rfl
      exact slashes mem
  have added {variants : List (List Char)} {value : List Char} (slashes : '\\' ∉ value)
      (mem : variant ∈ addPathVariant variants value pathClass) :
      variant ∈ variants ∨ variant = value := by
    rw [addPathVariant, same slashes] at mem
    rcases List.mem_append.1 mem with old | new
    · exact .inl old
    · rcases List.mem_cons.1 new with rfl | again
      · exact .inr rfl
      · split at again
        · exact .inr (List.mem_singleton.1 again)
        · cases again
  have stripped : stripLeadingDotPath path pathClass = path := by
    have noDot (d : Char) : startsWith path ['.', d] = false := by
      simp [eq, startsWith, List.isPrefixOf, dot.symm]
    simp [stripLeadingDotPath, noDot]
  have expanded : expandUserPath pathe path pathClass options.homeDir = path := by
    unfold expandUserPath
    split
    · rfl
    · rw [if_neg, if_neg]
      · simp [eq, startsWith, List.isPrefixOf, tilde.symm]
      · rw [eq]
        exact fun same => tilde (List.cons.inj same).1
  have itself : pathe.isAbsolute path = true ∧ (pathClass = .posix → path = path) ∧
      (IsLiteral path → IsLiteral path) := ⟨absolute, fun _ => rfl, id⟩
  have plain (mem : variant ∈ addPathVariant (addPathVariant [] path pathClass)
      (stripLeadingDotPath path pathClass) pathClass) : variant = path := by
    rw [stripped] at mem
    rcases added slashes mem with old | rfl
    · rcases added slashes old with none | rfl
      · cases none
      · rfl
    · rfl
  unfold pathVariants at mem
  dsimp only at mem
  split at mem
  case h_2 => exact plain mem ▸ itself
  case h_1 made found =>
    unfold canonicalizePathPattern at found
    dsimp only at found
    rw [expanded] at found
    split at found
    case h_1 => cases found
    case h_2 dir _ =>
      rcases ok : canonicalizePath pathe path dir pathClass with error | made'
      · rw [ok] at found
        cases found
      · rw [ok] at found
        obtain rfl : made' = made := Option.some.inj found
        obtain ⟨before, absolute', rfl, kept⟩ := canonicalizePath_ok laws ok
        have user : pathe.isAbsolute (normalizeUserPath path pathClass) = true ∧
            (IsLiteral path → IsLiteral (normalizeUserPath path pathClass)) :=
          normalizeUserPath_absolute laws absolute
        obtain ⟨userAbsolute, userLiteral⟩ := user
        rcases added (laws.slashes _) mem with old | rfl
        · exact plain old ▸ itself
        · refine ⟨laws.normalize _ absolute', fun posix => ?_, fun literal => ?_⟩
          · rw [kept userAbsolute, posix]
            exact normal
          · rw [kept userAbsolute]
            exact laws.literal _ (userLiteral literal)

/-- A path matches the literal pattern of another one if they have variants that are the same up to
letter case. -/
theorem pathGlobMatch_literal (picomatch : MatchesLiterally canonicalize isMatch)
    (laws : pathe.Laws) (canonical : Canonical pathe pathClass value)
    (canonical' : Canonical pathe pathClass path) (literal : IsLiteral path)
    (cwd homeDir : Option (List Char)) :
    let options := { cwd, pathClass := some pathClass, homeDir }
    pathGlobMatch pathe isMatch value path options = true ↔
      ∃ valueVariant ∈ pathVariants pathe value pathClass options,
        ∃ patternVariant ∈ pathVariants pathe path pathClass options,
          valueVariant.map canonicalize = patternVariant.map canonicalize := by
  intro options
  have itself (path : List Char) : path ∈ pathVariants pathe path pathClass options := by
    unfold pathVariants addPathVariant
    dsimp only
    split <;> simp
  have glob {v p : List Char} (mem : v ∈ pathVariants pathe value pathClass options)
      (mem' : p ∈ pathVariants pathe path pathClass options) :
      globMatch isMatch v p true = true ↔ v.map canonicalize = p.map canonicalize := by
    obtain ⟨absolute, -, -⟩ := mem_pathVariants laws canonical options mem
    obtain ⟨absolute', -, literal'⟩ := mem_pathVariants laws canonical' options mem'
    exact globMatch_absolute picomatch laws absolute absolute' (literal' literal)
  change (if globMatch isMatch value path true = true then true else
    (pathVariants pathe value pathClass options).any fun v =>
      (pathVariants pathe path pathClass options).any fun p => globMatch isMatch v p true) =
        true ↔ _
  split
  case isTrue same =>
    exact iff_of_true rfl ⟨value, itself value, path, itself path,
      (glob (itself value) (itself path)).1 same⟩
  case isFalse =>
    simp only [List.any_eq_true]
    constructor
    · rintro ⟨v, mem, p, mem', same⟩
      exact ⟨v, mem, p, mem', (glob mem mem').1 same⟩
    · rintro ⟨v, mem, p, mem', same⟩
      exact ⟨v, mem, p, mem', (glob mem mem').2 same⟩

end

end KimiCli
