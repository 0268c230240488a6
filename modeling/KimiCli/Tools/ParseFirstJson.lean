import KimiCli.Js.JsonGrammar

/-!
# The first JSON value of a text

`parseFirstJson` reads the JSON at the start of what a command prints, whatever is printed after it.
It looks for the end of an object or an array by counting one kind of brackets outside of strings.
-/

namespace KimiCli.ParseFirstJson

open JsonGrammar

variable {α : Type*}

def trimStart (text : List UInt16) : List UInt16 := text.dropWhile isJsSpaceUnit

/-- What the walk over the characters keeps track of. -/
structure Walk where
  depth : ℤ := 0
  inString : Bool := false
  escape : Bool := false

/-- One character of the walk; `none` where the depth is back at zero. -/
def Walk.step (openChar closeChar : UInt16) (walk : Walk) (c : UInt16) : Option Walk :=
  if walk.inString then
    if walk.escape then some { walk with escape := false }
    else if c = ascii '\\' then some { walk with escape := true }
    else if c = ascii '"' then some { walk with inString := false }
    else some walk
  else if c = ascii '"' then some { walk with inString := true }
  else if c = openChar then some { walk with depth := walk.depth + 1 }
  else if c = closeChar then
    if walk.depth - 1 = 0 then none else some { walk with depth := walk.depth - 1 }
  else some walk

/-- Where the walk from the index `i` returns to depth zero: the end of the candidate. -/
def candidateEnd (openChar closeChar : UInt16) : Walk → List UInt16 → ℕ → Option ℕ
  | _, [], _ => none
  | walk, c :: rest, i =>
    match walk.step openChar closeChar c with
    | some next => candidateEnd openChar closeChar next rest (i + 1)
    | none => some (i + 1)

def closeOf (openChar : UInt16) : UInt16 := if openChar = ascii '{' then ascii '}' else ascii ']'

/-- `parse` is `JSON.parse`, which throws where this is `none`. -/
def parseFirstJson (parse : List UInt16 → Option α) (text : List UInt16) : Option α :=
  match trimStart text with
  | [] => none
  | first :: rest =>
    match parse (first :: rest) with
    | some value => some value
    | none =>
      if first ≠ ascii '{' ∧ first ≠ ascii '[' then none
      else
        match candidateEnd first (closeOf first) {} (first :: rest) 0 with
        | some stop => parse ((first :: rest).take stop)
        | none => none

/-- The text is an object or an array. -/
def IsContainer (text : List UInt16) : Prop :=
  Derives .value text ∧ ∃ openChar ∈ [ascii '{', ascii '['], text.head? = some openChar

/-- After white space, the text begins with a JSON value. -/
def BeginsWithJson (text : List UInt16) : Prop :=
  ∃ value rest, Derives .value value ∧ trimStart text = value ++ rest

/-! ## The walk inside of the brackets -/

section Walk

variable {openChar : UInt16}

/-- The walk over a whole text, as long as the depth does not return to zero. -/
def run (openChar : UInt16) : Walk → List UInt16 → Option Walk :=
  List.foldlM (Walk.step openChar (closeOf openChar))

theorem run_cons {walk : Walk} {c : UInt16} {cs : List UInt16} : run openChar walk (c :: cs) =
    (walk.step openChar (closeOf openChar) c).bind fun next => run openChar next cs := rfl

theorem run_append {walk : Walk} {cs ds : List UInt16} : run openChar walk (cs ++ ds) =
    (run openChar walk cs).bind fun next => run openChar next ds :=
  List.foldlM_append

theorem candidateEnd_append {walk next : Walk} {cs ds : List UInt16} {i : ℕ}
    (inside : run openChar walk cs = some next) :
    candidateEnd openChar (closeOf openChar) walk (cs ++ ds) i =
      candidateEnd openChar (closeOf openChar) next ds (i + cs.length) := by
  induction cs generalizing walk i with
  | nil =>
    cases inside
    rfl
  | cons c cs ih =>
    rw [run_cons, Option.bind_eq_some_iff] at inside
    obtain ⟨middle, step, inside⟩ := inside
    simp only [List.cons_append, candidateEnd, step]
    rw [ih inside, List.length_cons, Nat.add_assoc, Nat.add_comm 1]

/-- Within brackets the text closes what it opens, and nothing before. -/
def Keeps (openChar : UInt16) (cs : List UInt16) : Prop :=
  ∀ depth : ℤ, 0 < depth → run openChar { depth } cs = some { depth }

theorem Keeps.nil : Keeps openChar [] := fun _ _ => rfl

theorem Keeps.append {cs ds : List UInt16} (first : Keeps openChar cs)
    (second : Keeps openChar ds) : Keeps openChar (cs ++ ds) := by
  intro depth pos
  rw [run_append, first depth pos, Option.bind_some, second depth pos]

/-- A character that the walk takes no notice of outside of strings. -/
def IsPlain (openChar c : UInt16) : Prop := c ∉ [ascii '"', openChar, closeOf openChar]

instance (openChar c : UInt16) : Decidable (IsPlain openChar c) :=
  inferInstanceAs (Decidable (c ∉ [ascii '"', openChar, closeOf openChar]))

theorem Keeps.cons {c : UInt16} {cs : List UInt16} (plain : IsPlain openChar c)
    (rest : Keeps openChar cs) : Keeps openChar (c :: cs) := by
  intro depth pos
  simp only [IsPlain, List.mem_cons, List.not_mem_nil, or_false, not_or] at plain
  have stays : Walk.step openChar (closeOf openChar) { depth } c = some { depth } := by
    simp only [Walk.step, plain, if_false, Bool.false_eq_true]
  rw [run_cons, stays, Option.bind_some, rest depth pos]

theorem Keeps.of_plain {cs : List UInt16} (plain : ∀ c ∈ cs, IsPlain openChar c) :
    Keeps openChar cs := by
  induction cs with
  | nil => exact .nil
  | cons c cs ih =>
    have here := List.forall_mem_cons.1 plain
    exact .cons here.1 (ih here.2)

theorem run_inner {inner : List UInt16} (valid : Inner inner) (depth : ℤ) :
    run openChar { depth, inString := true } inner = some { depth, inString := true } := by
  have skips {c : UInt16} (backslash : c ≠ ascii '\\') (quote : c ≠ ascii '"') :
      Walk.step openChar (closeOf openChar) { depth, inString := true } c =
        some { depth, inString := true } := by
    simp only [Walk.step, backslash, quote, if_true, if_false, Bool.false_eq_true]
  induction valid with
  | nil => rfl
  | char _ quote backslash _ ih =>
    rw [run_cons, skips backslash quote]
    exact ih
  | escape _ _ ih => exact ih
  | unicode _ hex _ ih =>
    have digits : ∀ {cs : List UInt16}, (∀ c ∈ cs, isHexUnit c = true) →
        run openChar { depth, inString := true } cs = some { depth, inString := true } := by
      intro cs hex
      induction cs with
      | nil => rfl
      | cons c cs more =>
        have here := List.forall_mem_cons.1 hex
        rw [run_cons, skips]
        · exact more here.2
        · rintro rfl
          exact absurd here.1 (by decide)
        · rintro rfl
          exact absurd here.1 (by decide)
    change run openChar { depth, inString := true } (_ ++ _) = _
    rw [run_append, digits hex]
    exact ih

theorem Keeps.quoted {inner : List UInt16} (valid : Inner inner) :
    Keeps openChar (quoted inner) := by
  intro depth pos
  have opens : Walk.step openChar (closeOf openChar) { depth } (ascii '"') =
      some { depth, inString := true } := by
    simp only [Walk.step, if_true, if_false, Bool.false_eq_true]
  rw [JsonGrammar.quoted, run_cons, opens, Option.bind_some, run_append, run_inner valid]
  rfl

/-! ## The parts of a JSON text -/

variable (bracket : openChar ∈ [ascii '{', ascii '['])

include bracket

theorem Keeps.enclose {cs : List UInt16} {first : UInt16}
    (opens : first ∈ [ascii '{', ascii '[']) (inside : Keeps openChar cs) :
    Keeps openChar (first :: (cs ++ [closeOf first])) := by
  by_cases same : first = openChar
  · subst same
    intro depth pos
    have opened : Walk.step first (closeOf first) { depth } first =
        some { depth := depth + 1 } := by
      have quote : first ≠ ascii '"' := by
        rintro rfl
        exact absurd opens (by decide)
      simp only [Walk.step, quote, if_true, if_false, Bool.false_eq_true]
    have closed : Walk.step first (closeOf first) { depth := depth + 1 } (closeOf first) =
        some { depth } := by
      have quote : closeOf first ≠ ascii '"' ∧ closeOf first ≠ first := by
        rcases List.mem_cons.1 opens with rfl | opens
        · decide
        · obtain rfl := List.mem_singleton.1 opens
          decide
      have back : depth + 1 - 1 = depth := Int.add_sub_cancel depth 1
      have stays : depth ≠ 0 := by omega
      simp only [Walk.step, quote, if_true, if_false, Bool.false_eq_true, back, stays]
    rw [run_cons, opened, Option.bind_some, run_append, inside _ (by omega), Option.bind_some,
      run_cons, closed]
    rfl
  · have plain : IsPlain openChar first ∧ IsPlain openChar (closeOf first) := by
      revert same
      simp only [List.mem_cons, List.not_mem_nil, or_false] at bracket opens
      rcases bracket with rfl | rfl <;> rcases opens with rfl | rfl <;> decide
    exact .cons plain.1 (inside.append (.cons plain.2 .nil))

theorem isPlain_of_not_mem {c : UInt16}
    (other : c ∉ [ascii '"', ascii '{', ascii '}', ascii '[', ascii ']']) : IsPlain openChar c := by
  simp only [List.mem_cons, List.not_mem_nil, or_false, not_or] at bracket other
  rw [IsPlain]
  rcases bracket with rfl | rfl <;>
    simp only [List.mem_cons, List.not_mem_nil, or_false, not_or, closeOf] <;>
    exact ⟨other.1, by tauto, by first | exact other.2.2.1 | exact other.2.2.2.2⟩

theorem Keeps.of_others {cs : List UInt16}
    (others : (cs.all fun c =>
      decide (c ∉ [ascii '"', ascii '{', ascii '}', ascii '[', ascii ']'])) = true) :
    Keeps openChar cs :=
  .of_plain fun c mem =>
    isPlain_of_not_mem bracket (of_decide_eq_true (List.all_eq_true.1 others c mem))

theorem Keeps.space {ws : List UInt16} (space : IsSpace ws) : Keeps openChar ws := by
  refine .of_plain fun c mem => isPlain_of_not_mem bracket fun odd => ?_
  have here := space c mem
  simp only [List.mem_cons, List.not_mem_nil, or_false] at odd
  rcases odd with rfl | rfl | rfl | rfl | rfl <;> exact absurd here (by decide)

theorem Keeps.digits {ds : List UInt16} (digits : IsDigits ds) : Keeps openChar ds := by
  refine .of_plain fun c mem => isPlain_of_not_mem bracket fun odd => ?_
  have here := digits.2 c mem
  simp only [List.mem_cons, List.not_mem_nil, or_false] at odd
  rcases odd with rfl | rfl | rfl | rfl | rfl <;> exact absurd here (by decide)

theorem Keeps.number {text : List UInt16} (number : IsNumber text) : Keeps openChar text := by
  obtain ⟨minus, int, frac, exp, sign, integer, fraction, exponent, rfl⟩ := number
  refine (((Keeps.of_others bracket ?_).append (.digits bracket integer.1)).append ?_).append ?_
  · simp only [List.mem_cons, List.not_mem_nil, or_false] at sign
    rcases sign with rfl | rfl <;> decide
  · rcases fraction with rfl | ⟨ds, digits, rfl⟩
    · exact .nil
    · exact .cons (isPlain_of_not_mem bracket (by decide)) (.digits bracket digits)
  · rcases exponent with rfl | ⟨e, sign, ds, letter, sign', digits, rfl⟩
    · exact .nil
    · refine .cons (isPlain_of_not_mem bracket ?_)
        ((Keeps.of_others bracket ?_).append (.digits bracket digits))
      · simp only [List.mem_cons, List.not_mem_nil, or_false] at letter
        rcases letter with rfl | rfl <;> decide
      · simp only [List.mem_cons, List.not_mem_nil, or_false] at sign'
        rcases sign' with rfl | rfl | rfl <;> decide

/-- Within brackets, every part of a JSON text closes what it opens. -/
theorem keeps_of_derives {part : Part} {text : List UInt16} (valid : Derives part text) :
    Keeps openChar text := by
  have space {ws : List UInt16} (space : IsSpace ws) : Keeps openChar ws := .space bracket space
  have mark {c : UInt16} (other : c ∈ [ascii ',', ascii ':']) : IsPlain openChar c := by
    refine isPlain_of_not_mem bracket ?_
    simp only [List.mem_cons, List.not_mem_nil, or_false] at other
    rcases other with rfl | rfl <;> decide
  induction valid with
  | literal word =>
    refine .of_others bracket ?_
    simp only [List.mem_cons, List.not_mem_nil, or_false] at word
    rcases word with rfl | rfl | rfl <;> decide
  | number valid => exact .number bracket valid
  | string valid => exact .quoted valid
  | emptyArray ws | emptyObject ws => exact (space ws).enclose bracket (by decide)
  | array _ ih | object _ ih => exact ih.enclose bracket (by decide)
  | element before _ after ih => exact ((space before).append ih).append (space after)
  | moreElements before _ after _ ih rest =>
    exact (((space before).append ih).append (space after)).append (.cons (mark (by decide)) rest)
  | member before key between before' _ after ih =>
    exact (((space before).append (.quoted key)).append (space between)).append
      (.cons (mark (by decide)) (((space before').append ih).append (space after)))
  | moreMembers before key between before' _ after _ ih rest =>
    exact (((space before).append (.quoted key)).append (space between)).append
      (.cons (mark (by decide)) ((((space before').append ih).append (space after)).append
        (.cons (mark (by decide)) rest)))

theorem candidateEnd_container {inner : List UInt16} (inside : Keeps openChar inner)
    (rest : List UInt16) :
    candidateEnd openChar (closeOf openChar) {}
      (openChar :: (inner ++ closeOf openChar :: rest)) 0 = some (inner.length + 2) := by
  have distinct : openChar ≠ ascii '"' ∧ closeOf openChar ≠ ascii '"' ∧
      closeOf openChar ≠ openChar := by
    simp only [List.mem_cons, List.not_mem_nil, or_false] at bracket
    rcases bracket with rfl | rfl <;> decide
  have opened : Walk.step openChar (closeOf openChar) {} openChar = some { depth := 1 } := by
    simp only [Walk.step, distinct.1, if_true, if_false, Bool.false_eq_true, Int.zero_add]
  have closed : Walk.step openChar (closeOf openChar) { depth := 1 } (closeOf openChar) = none := by
    simp only [Walk.step, distinct, if_true, if_false, Bool.false_eq_true, Int.sub_self]
  simp only [candidateEnd, opened]
  rw [candidateEnd_append (inside 1 (by omega))]
  simp only [candidateEnd, closed]
  rw [Nat.zero_add, Nat.add_comm 1, Nat.add_assoc]

end Walk

/-! ## Objects and arrays at the start of a text -/

theorem not_mem_space {c : UInt16} {ws : List UInt16} (space : IsSpace ws)
    (visible : isSpace c = false) : c ∉ ws := by
  intro mem
  rw [space c mem] at visible
  cases visible

theorem head_ne_of_digits {ds rest : List UInt16} {c : UInt16} (digits : IsDigits ds)
    (other : isDigitUnit c = false) : (ds ++ rest).head? ≠ some c := by
  obtain ⟨some, digits⟩ := digits
  cases ds with
  | nil => exact absurd rfl some
  | cons d =>
    intro same
    obtain rfl := Option.some.inj same
    rw [digits d List.mem_cons_self] at other
    cases other

theorem IsContainer.shape {text : List UInt16} (container : IsContainer text) :
    ∃ openChar ∈ [ascii '{', ascii '['], ∃ inner, Keeps openChar inner ∧
      text = openChar :: (inner ++ [closeOf openChar]) := by
  obtain ⟨valid, openChar, bracket, first⟩ := container
  have whole {inner : List UInt16} {c : UInt16} (opens : c ∈ [ascii '{', ascii '['])
      (inside : ∀ openChar ∈ [ascii '{', ascii '['], Keeps openChar inner) :
      ∃ openChar ∈ [ascii '{', ascii '['], ∃ inner', Keeps openChar inner' ∧
        c :: (inner ++ [closeOf c]) = openChar :: (inner' ++ [closeOf openChar]) :=
    ⟨c, opens, inner, inside c opens, rfl⟩
  cases valid with
  | literal word =>
    simp only [List.mem_cons, List.not_mem_nil, or_false] at word bracket
    rcases word with rfl | rfl | rfl <;> rcases bracket with rfl | rfl <;>
      exact absurd first (by decide)
  | number number =>
    obtain ⟨minus, int, frac, exp, sign, integer, -, -, rfl⟩ := number
    simp only [List.mem_cons, List.not_mem_nil, or_false] at sign bracket
    rw [List.append_assoc, List.append_assoc] at first
    rcases sign with rfl | rfl
    · rw [List.nil_append] at first
      refine absurd first (head_ne_of_digits integer.1 ?_)
      rcases bracket with rfl | rfl <;> decide
    · rcases bracket with rfl | rfl <;> exact absurd (Option.some.inj first) (by decide)
  | string =>
    simp only [List.mem_cons, List.not_mem_nil, or_false] at bracket
    rcases bracket with rfl | rfl <;> exact absurd (Option.some.inj first) (by decide)
  | emptyArray space | emptyObject space =>
    exact whole (by decide) fun _ bracket => .space bracket space
  | array valid | object valid =>
    exact whole (by decide) fun _ bracket => keeps_of_derives bracket valid

theorem isSpace_of_bracket {openChar : UInt16} (bracket : openChar ∈ [ascii '{', ascii '[']) :
    isSpace openChar = false ∧ isJsSpaceUnit openChar = false := by
  simp only [List.mem_cons, List.not_mem_nil, or_false] at bracket
  rcases bracket with rfl | rfl <;> decide

theorem isJsSpaceUnit_of_isSpace {c : UInt16} (space : isSpace c = true) :
    isJsSpaceUnit c = true := by
  simp only [isSpace, Bool.or_eq_true, decide_eq_true_eq] at space
  rcases space with ((rfl | rfl) | rfl) | rfl <;> decide

theorem candidateEnd_of_container {text : List UInt16} {openChar : UInt16}
    (container : IsContainer text) (first : text.head? = some openChar) (rest : List UInt16) :
    candidateEnd openChar (closeOf openChar) {} (text ++ rest) 0 = some text.length := by
  obtain ⟨openChar', bracket, inner, inside, rfl⟩ := container.shape
  cases first
  have ends := candidateEnd_container bracket inside rest
  rw [List.cons_append, List.append_assoc]
  refine ends.trans (congrArg some ?_)
  rw [List.length_cons, List.length_append, List.length_singleton]

theorem trimStart_container {space text rest : List UInt16}
    (spaces : ∀ c ∈ space, isJsSpaceUnit c = true) (container : IsContainer text) :
    trimStart (space ++ text ++ rest) = text ++ rest := by
  obtain ⟨openChar, bracket, inner, -, rfl⟩ := container.shape
  rw [trimStart, List.append_assoc, List.dropWhile_append_of_pos spaces, List.cons_append,
    List.dropWhile_cons_of_neg]
  rw [(isSpace_of_bracket bracket).2]
  exact Bool.false_ne_true

theorem value_of_document {text : List UInt16} (document : IsDocument text)
    (trimmed : ∀ c, text.head? = some c → isJsSpaceUnit c = false) :
    ∃ value after, Derives .value value ∧ IsSpace after ∧ text = value ++ after := by
  obtain ⟨before, value, after, space, valid, space', rfl⟩ := document
  cases before with
  | nil => exact ⟨value, after, valid, space', rfl⟩
  | cons c =>
    have visible := trimmed c rfl
    rw [isJsSpaceUnit_of_isSpace (space c List.mem_cons_self)] at visible
    cases visible

theorem trimStart_head {text : List UInt16} {c : UInt16} (first : (trimStart text).head? = some c) :
    isJsSpaceUnit c = false := by
  have := List.head?_dropWhile_not isJsSpaceUnit text
  rw [trimStart] at first
  rw [first] at this
  simpa using this

theorem space_of_document {text rest : List UInt16} (container : IsContainer text)
    (document : IsDocument (text ++ rest)) : IsSpace rest := by
  obtain ⟨valid, openChar, bracket, first⟩ := container
  have starts : (text ++ rest).head? = some openChar := by
    rw [List.head?_append, first]
    rfl
  obtain ⟨value, after, valid', space, whole⟩ := value_of_document document (by
    intro c first'
    rw [starts] at first'
    cases first'
    exact (isSpace_of_bracket bracket).2)
  have first' : value.head? = some openChar := by
    rw [whole, List.head?_append] at starts
    cases value with
    | cons => exact starts
    | nil =>
      have mem := List.mem_of_mem_head? starts
      exact absurd mem (not_mem_space space (isSpace_of_bracket bracket).1)
  have ends := candidateEnd_of_container ⟨valid, openChar, bracket, first⟩ first rest
  have ends' := candidateEnd_of_container ⟨valid', openChar, bracket, first'⟩ first' after
  rw [← whole, ends] at ends'
  obtain ⟨-, rfl⟩ := List.append_inj whole (Option.some.inj ends')
  exact space

/-! ## The first value -/

/-- `parse` is assumed to accept exactly JSON. -/
theorem parseFirstJson_spec {parse : List UInt16 → Option α}
    (accepts : ∀ text, (∃ v, parse text = some v) ↔ IsDocument text) :
    (∀ space spelling w, (∀ c ∈ space, isJsSpaceUnit c = true) → IsContainer spelling →
      ¬ IsDocument (spelling ++ w) →
      ∃ v, parse spelling = some v ∧ parseFirstJson parse (space ++ spelling ++ w) = some v) ∧
    ∀ text, ¬ BeginsWithJson text → parseFirstJson parse text = none := by
  constructor
  · intro space spelling w spaces container notJson
    obtain ⟨v, parsed⟩ := (accepts spelling).2 ⟨[], spelling, [], by simp [IsSpace],
      container.1, by simp [IsSpace], (List.append_nil _).symm⟩
    refine ⟨v, parsed, ?_⟩
    have refused : parse (spelling ++ w) = none := by
      rw [Option.eq_none_iff_forall_ne_some]
      exact fun v parsed => notJson ((accepts _).1 ⟨v, parsed⟩)
    have ⟨_, openChar, bracket, first⟩ := container
    have ends := candidateEnd_of_container container first w
    obtain ⟨rest, rfl⟩ : ∃ rest, spelling = openChar :: rest := by
      cases spelling with
      | nil => cases first
      | cons c rest => exact ⟨rest, by rw [Option.some.inj first]⟩
    have isOpen : ¬ (openChar ≠ ascii '{' ∧ openChar ≠ ascii '[') := by
      simp only [List.mem_cons, List.not_mem_nil, or_false] at bracket
      tauto
    rw [parseFirstJson, trimStart_container spaces container]
    rw [List.cons_append] at refused ends ⊢
    simp only [refused, if_neg isOpen, ends]
    rw [← List.cons_append, List.take_left, parsed]
  · intro text bare
    have none_of {p q : List UInt16} (whole : trimStart text = p ++ q) : parse p = none := by
      rw [Option.eq_none_iff_forall_ne_some]
      intro v parsed
      obtain ⟨value, after, valid, -, rfl⟩ := value_of_document ((accepts p).1 ⟨v, parsed⟩) (by
        intro c first
        have first' : (trimStart text).head? = some c := by
          rw [whole, List.head?_append, first]
          rfl
        exact trimStart_head first')
      exact bare ⟨value, after ++ q, valid, by rw [whole, List.append_assoc]⟩
    rw [parseFirstJson]
    rcases trimmed : trimStart text with _ | ⟨first, rest⟩
    · rfl
    · have refused : parse (first :: rest) = none :=
        none_of (trimmed.trans (List.append_nil _).symm)
      simp only [refused]
      split
      · rfl
      · split
        case h_1 stop _ => exact none_of (trimmed.trans (List.take_append_drop stop _).symm)
        case h_2 => rfl

open Classical in
/-- A parser that gives back the text that it accepts. -/
noncomputable def acceptedText (text : List UInt16) : Option (List UInt16) :=
  if IsDocument text then some text else none

theorem acceptedText_accepts (text : List UInt16) :
    (∃ v, acceptedText text = some v) ↔ IsDocument text := by
  rw [acceptedText]
  split
  case isTrue document => exact iff_of_true ⟨text, rfl⟩ document
  case isFalse refused => exact iff_of_false (by rintro ⟨_, ⟨⟩⟩) refused

/-- A string with a bracket in it, and a hint after the value. -/
theorem value_before_hint :
    parseFirstJson acceptedText (" \x7b\"a\":\"\x7d[\"\x7d [hint]".toList.map ascii) =
      some ("\x7b\"a\":\"\x7d[\"\x7d".toList.map ascii) := by
  have none : IsSpace [] := List.forall_mem_nil _
  have key : Inner ([ascii 'a']) := .char (by decide) (by decide) (by decide) .nil
  have text : Inner ([ascii '}', ascii '[']) :=
    .char (by decide) (by decide) (by decide) (.char (by decide) (by decide) (by decide) .nil)
  have container : IsContainer ("\x7b\"a\":\"\x7d[\"\x7d".toList.map ascii) :=
    ⟨.object (.member none key none none (.string text) none), ascii '{', by decide, rfl⟩
  have more : ¬ IsDocument ("\x7b\"a\":\"\x7d[\"\x7d".toList.map ascii ++
      " [hint]".toList.map ascii) := by
    intro document
    have space := space_of_document container document (ascii 'h') (by decide)
    exact absurd space (by decide)
  obtain ⟨v, parsed, found⟩ := (parseFirstJson_spec acceptedText_accepts).1
    [ascii ' '] _ _ (List.forall_mem_singleton.2 (by decide)) container more
  rw [acceptedText, if_pos ((acceptedText_accepts _).1 ⟨v, parsed⟩)] at parsed
  rw [parsed]
  exact found

end KimiCli.ParseFirstJson
