import KimiCli.Skill.Arguments
import Mathlib.Data.Nat.Find

/-!
# The body of a skill, read once

What the placeholders of a body are, and what it stands for when all of them are replaced at once.
The passes over the growing text come to the same as long as no value that is put in makes a
placeholder or hides one.
-/

namespace KimiCli.Skill

/-! ## Placeholders -/

inductive Placeholder where
  /-- `$name`, for the name at this index. -/
  | name (index : ℕ)
  /-- `$ARGUMENTS[index]` -/
  | item (index : ℕ)
  /-- `$index` -/
  | number (index : ℕ)
  /-- `$ARGUMENTS` -/
  | all
  | skillDir
  | sessionId

/-- The text of a placeholder, where `rest` stands behind it. -/
inductive Occurs (names : List (List UInt16)) :
    Placeholder → List UInt16 → List UInt16 → Prop
  | name {index : ℕ} {name rest : List UInt16} (named : names[index]? = some name)
      (ends : ∀ c ∈ rest.head?, c ≠ ascii '[' ∧ isWord c = false) :
    Occurs names (.name index) (ascii '$' :: name) rest
  | item {digits rest : List UInt16} (nonempty : digits ≠ [])
      (digit : ∀ c ∈ digits, isDigitUnit c = true) :
    Occurs names (.item (parseInt digits)) (units "$ARGUMENTS[" ++ (digits ++ units "]")) rest
  | number {digits rest : List UInt16} (nonempty : digits ≠ [])
      (digit : ∀ c ∈ digits, isDigitUnit c = true) (ends : ∀ c ∈ rest.head?, isWord c = false) :
    Occurs names (.number (parseInt digits)) (ascii '$' :: digits) rest
  | all {rest : List UInt16} : Occurs names .all (units "$ARGUMENTS") rest
  | skillDir {rest : List UInt16} :
    Occurs names .skillDir (units "$\x7bKIMI_SKILL_DIR\x7d") rest
  | sessionId {rest : List UInt16} :
    Occurs names .sessionId (units "$\x7bKIMI_SESSION_ID\x7d") rest

namespace Placeholder

/-- Which of the placeholders comes first where several begin, and which is replaced first. -/
def turn (names : List (List UInt16)) : Placeholder → ℕ
  | name index => index
  | item _ => names.length
  | number _ => names.length + 1
  | all => names.length + 2
  | skillDir => names.length + 3
  | sessionId => names.length + 4

def isArgument : Placeholder → Bool
  | skillDir | sessionId => false
  | _ => true

/-- Its value is given to the host as a replacement string. -/
def isString : Placeholder → Bool
  | item _ | number _ => false
  | _ => true

/-- What it stands for. -/
def text (rawArgs : List UInt16) (context : SkillExpandContext) : Placeholder → List UInt16
  | name index | item index | number index => (tokenizeArgs rawArgs).getD index []
  | all => rawArgs
  | skillDir => context.skillDir
  | sessionId => context.sessionId.getD []

end Placeholder

def escapeMarkup (text : List UInt16) : List UInt16 :=
  text.flatMap fun c =>
    if c = ascii '<' then units "&lt;" else if c = ascii '>' then units "&gt;" else [c]

/-- Markup is escaped in the arguments; the directory and the session are put in as they are. -/
def Placeholder.value (rawArgs : List UInt16) (context : SkillExpandContext) (p : Placeholder) :
    List UInt16 :=
  if p.isArgument then escapeMarkup (p.text rawArgs context) else p.text rawArgs context

/-! ## The expansion at once -/

inductive Segment where
  | char (c : UInt16)
  | hole (p : Placeholder) (matched : List UInt16)

/-- The body, read from left to right. -/
inductive Reading (names : List (List UInt16)) : List UInt16 → List Segment → Prop
  | nil : Reading names [] []
  | char {c : UInt16} {rest : List UInt16} {segments : List Segment}
      (none : ∀ p matched after, c :: rest = matched ++ after → ¬ Occurs names p matched after)
      (more : Reading names rest segments) : Reading names (c :: rest) (.char c :: segments)
  | hole {p : Placeholder} {text matched rest : List UInt16} {segments : List Segment}
      (whole : text = matched ++ rest) (here : Occurs names p matched rest)
      (first : ∀ q matched' after, text = matched' ++ after → Occurs names q matched' after →
        p.turn names ≤ q.turn names)
      (more : Reading names rest segments) : Reading names text (.hole p matched :: segments)

/-- The text with the placeholders for which `now` holds replaced. -/
def fill (value : Placeholder → List UInt16) (now : Placeholder → Bool)
    (segments : List Segment) : List UInt16 :=
  segments.flatMap fun
    | .char c => [c]
    | .hole p matched => if now p then value p else matched

/-- The placeholders of the body. -/
def holes (segments : List Segment) : List Placeholder :=
  segments.filterMap fun
    | .char _ => none
    | .hole p _ => some p

/-- Every placeholder is replaced by its value, and the arguments come after the body if it has no
placeholder for them. -/
def expandOnce (value : Placeholder → List UInt16) (rawArgs : List UInt16)
    (segments : List Segment) : List UInt16 :=
  let content := fill value (fun _ => true) segments
  if (holes segments).any Placeholder.isArgument = false ∧ rawArgs ≠ [] then
    content ++ (units "\n\nARGUMENTS: " ++ escapeMarkup rawArgs)
  else content

/-! ## Bodies and arguments that are kept apart -/

variable (names : List (List UInt16))

/-- No placeholder contains the character. -/
def Separates (c : UInt16) : Prop :=
  isWord c = false ∧ c ∉ units "$[]\x7b\x7d" ∧ ∀ name ∈ names, c ∉ name

instance : DecidablePred (Separates names) := fun _ => inferInstanceAs (Decidable (_ ∧ _ ∧ _))

/-- A separator comes before any placeholder that is replaced earlier than at this turn. -/
def Shielded (turn : ℕ) : List Segment → Prop
  | [] => True
  | .char c :: rest => Separates names c ∨ Shielded turn rest
  | .hole p _ :: rest => turn ≤ p.turn names ∧ Shielded turn rest

instance Shielded.decide (turn : ℕ) :
    ∀ segments : List Segment, Decidable (Shielded names turn segments)
  | [] => .isTrue trivial
  | .char _ :: rest => @instDecidableOr _ _ _ (Shielded.decide turn rest)
  | .hole _ _ :: rest => @instDecidableAnd _ _ _ (Shielded.decide turn rest)

/-- Between a `$` and a later placeholder that is replaced earlier stands a separator. -/
def Apart : List Segment → Prop
  | [] => True
  | .char c :: rest => (c = ascii '$' → Shielded names (names.length + 5) rest) ∧ Apart rest
  | .hole p _ :: rest => Shielded names (p.turn names) rest ∧ Apart rest

instance Apart.decide : ∀ segments : List Segment, Decidable (Apart names segments)
  | [] => .isTrue trivial
  | .char _ :: rest => @instDecidableAnd _ _ _ (Apart.decide rest)
  | .hole _ _ :: rest => @instDecidableAnd _ _ _ (Apart.decide rest)

/-- At no `$` of the text begins a placeholder that is replaced after this turn, whatever stands
behind the text. -/
def Inert (turn : ℕ) (text : List UInt16) : Prop :=
  ∀ before after, text = before ++ ascii '$' :: after →
    ∀ more p matched rest, ascii '$' :: (after ++ more) = matched ++ rest → turn < p.turn names →
      ¬ Occurs names p matched rest

/-- The host finds nothing to interpret in a replacement string. -/
abbrev IsLiteral (replacement : List UInt16) : Prop :=
  [ascii '$', ascii '&', ascii '\x60', ascii '\''].all
    (fun d => decide (¬ [ascii '$', d] <:+: replacement)) = true

/-- What keeps the passes out of each other's way: the placeholders of the body are apart, no value
begins a placeholder of a later pass or holds a pattern for the host, and the values of the
arguments show. -/
structure Undisturbed (rawArgs : List UInt16) (context : SkillExpandContext)
    (body : List UInt16) (segments : List Segment) : Prop where
  names : ∀ name ∈ context.argumentNames, ascii '$' ∉ name
  apart : Apart context.argumentNames segments
  inert : ∀ p ∈ holes segments,
    Inert context.argumentNames (p.turn context.argumentNames) (p.value rawArgs context)
  literal : ∀ p ∈ holes segments, p.isString = true → IsLiteral (p.value rawArgs context)
  shows : (holes segments).any Placeholder.isArgument = true →
    fill (Placeholder.value rawArgs context) Placeholder.isArgument segments ≠ body

variable {names} {p q : Placeholder} {matched rest text text' : List UInt16}
  {segments : List Segment} {k : ℕ}

/-! ## Where placeholders occur -/

theorem isWord_of_digit {c : UInt16} (digit : isDigitUnit c = true) : isWord c = true := by
  rw [isWord, digit, Bool.true_or, Bool.true_or, Bool.true_or]

theorem Occurs.head (here : Occurs names p matched rest) : ∃ more, matched = ascii '$' :: more := by
  cases here <;> exact ⟨_, rfl⟩

theorem Occurs.turn_lt (here : Occurs names p matched rest) : p.turn names < names.length + 5 := by
  cases here with
  | name named _ =>
    obtain ⟨lt, -⟩ := List.getElem?_eq_some_iff.1 named
    exact Nat.lt_add_right 5 lt
  | _ => simp only [Placeholder.turn]; omega

theorem Occurs.isArgument_iff (here : Occurs names p matched rest) :
    p.turn names < names.length + 3 ↔ p.isArgument = true := by
  cases here with
  | name named _ =>
    obtain ⟨lt, -⟩ := List.getElem?_eq_some_iff.1 named
    exact iff_of_true (Nat.lt_add_right 3 lt) rfl
  | _ => simp [Placeholder.turn, Placeholder.isArgument]

/-- Only the next character behind a placeholder counts. -/
theorem Occurs.congr (here : Occurs names p matched rest) {rest' : List UInt16}
    (same : rest'.head? = rest.head?) : Occurs names p matched rest' := by
  cases here with
  | name named ends => exact .name named (same ▸ ends)
  | item nonempty digit => exact .item nonempty digit
  | number nonempty digit ends => exact .number nonempty digit (same ▸ ends)
  | all => exact .all
  | skillDir => exact .skillDir
  | sessionId => exact .sessionId

theorem Occurs.not_separates (here : Occurs names p matched rest) :
    ∀ c ∈ matched, ¬ Separates names c := by
  have known {text : List UInt16} (all : ∀ c ∈ text, isWord c = true ∨ c ∈ units "$[]\x7b\x7d") :
      ∀ c ∈ text, ¬ Separates names c := by
    rintro c mem ⟨noWord, other, -⟩
    rcases all c mem with word | special
    · rw [word] at noWord
      cases noWord
    · exact other special
  have shown {text : List UInt16}
      (all : (text.all fun c => isWord c || decide (c ∈ units "$[]\x7b\x7d")) = true) :
      ∀ c ∈ text, ¬ Separates names c := known (by simpa using all)
  cases here with
  | name named _ =>
    intro c mem
    rcases List.mem_cons.1 mem with rfl | mem
    · exact shown (by decide) _ (List.mem_singleton_self (ascii '$'))
    · exact fun separates => separates.2.2 _ (List.mem_of_getElem? named) mem
  | item _ digit =>
    intro c mem
    rcases List.mem_append.1 mem with mem | mem
    · exact shown (by decide) c mem
    rcases List.mem_append.1 mem with mem | mem
    · exact known (fun c mem => .inl (isWord_of_digit (digit c mem))) c mem
    · exact shown (by decide) c mem
  | number _ digit _ =>
    intro c mem
    rcases List.mem_cons.1 mem with rfl | mem
    · exact shown (by decide) _ (List.mem_singleton_self (ascii '$'))
    · exact known (fun c mem => .inl (isWord_of_digit (digit c mem))) c mem
  | _ => exact shown (by decide)

theorem Occurs.not_mem_tail (plain : ∀ name ∈ names, ascii '$' ∉ name)
    (here : Occurs names p matched rest) : ascii '$' ∉ matched.tail := by
  have digits {digits : List UInt16} (digit : ∀ c ∈ digits, isDigitUnit c = true) :
      ascii '$' ∉ digits := fun mem => absurd (digit _ mem) (by decide)
  cases here with
  | name named _ => exact plain _ (List.mem_of_getElem? named)
  | item _ digit =>
    change ascii '$' ∉ units "ARGUMENTS[" ++ (_ ++ units "]")
    rw [List.mem_append, List.mem_append, not_or, not_or]
    exact ⟨by decide, digits digit, by decide⟩
  | number _ digit _ => exact digits digit
  | _ => decide

/-- Up to a separator the texts are the same. -/
inductive Agree (names : List (List UInt16)) : List UInt16 → List UInt16 → Prop
  | same (text : List UInt16) : Agree names text text
  | stop {c : UInt16} {rest rest' : List UInt16} (separates : Separates names c) :
    Agree names (c :: rest) (c :: rest')
  | cons (c : UInt16) {rest rest' : List UInt16} (more : Agree names rest rest') :
    Agree names (c :: rest) (c :: rest')

theorem Agree.symm (agree : Agree names text text') : Agree names text' text := by
  induction agree with
  | same text => exact .same text
  | stop separates => exact .stop separates
  | cons c _ ih => exact .cons c ih

theorem Agree.append (agree : Agree names text text') (shown : List UInt16) :
    Agree names (shown ++ text) (shown ++ text') := by
  induction shown with
  | nil => exact agree
  | cons c shown ih => exact .cons c ih

theorem Agree.head (agree : Agree names text text') : text'.head? = text.head? := by
  cases agree <;> rfl

/-- A placeholder reaches no separator, so that it occurs in both texts. -/
theorem Agree.occurs (agree : Agree names (matched ++ rest) text')
    (here : Occurs names p matched rest) :
    ∃ rest', text' = matched ++ rest' ∧ Occurs names p matched rest' := by
  suffices inside : (∀ c ∈ matched, ¬ Separates names c) →
      ∃ rest', text' = matched ++ rest' ∧ rest'.head? = rest.head? by
    obtain ⟨rest', whole, same⟩ := inside here.not_separates
    exact ⟨rest', whole, here.congr same⟩
  clear here
  intro inner
  induction matched generalizing text' with
  | nil => exact ⟨text', rfl, agree.head⟩
  | cons c matched ih =>
    cases agree with
    | same => exact ⟨rest, rfl, rfl⟩
    | stop separates => exact absurd separates (inner c List.mem_cons_self)
    | cons _ more =>
      obtain ⟨rest', rfl, same⟩ := ih more fun c mem => inner c (List.mem_cons_of_mem _ mem)
      exact ⟨rest', rfl, same⟩

theorem takeWhile_digits {digits : List UInt16} (digit : ∀ c ∈ digits, isDigitUnit c = true)
    (ends : ∀ c ∈ rest.head?, isDigitUnit c = false) :
    (digits ++ rest).takeWhile isDigitUnit = digits := by
  rw [List.takeWhile_append_of_pos digit]
  cases rest with
  | nil => exact List.append_nil _
  | cons c rest => rw [List.takeWhile_cons_of_neg (by simp [ends c rfl]), List.append_nil]

theorem not_digit {o : Option UInt16} (ends : ∀ c ∈ o, isWord c = false) :
    ∀ c ∈ o, isDigitUnit c = false := fun c mem =>
  Bool.eq_false_iff.2 fun digit => absurd (isWord_of_digit digit) (by simp [ends c mem])

theorem bracket_ends (rest : List UInt16) :
    ∀ c ∈ (units "]" ++ rest).head?, isDigitUnit c = false := by
  intro c mem
  cases mem
  decide

/-! ## The reading of a body -/

theorem exists_reading (names : List (List UInt16)) (body : List UInt16) :
    ∃ segments, Reading names body segments := by
  classical
  induction length : body.length using Nat.strong_induction_on generalizing body with
  | _ n ih =>
    by_cases some : ∃ k p matched rest, body = matched ++ rest ∧ Occurs names p matched rest ∧
        p.turn names = k
    · obtain ⟨p, matched, rest, whole, here, turn⟩ := Nat.find_spec some
      have shorter : rest.length < n := by
        obtain ⟨more, rfl⟩ := here.head
        rw [← length, whole, List.length_append, List.length_cons]
        omega
      obtain ⟨segments, more⟩ := ih _ shorter rest rfl
      refine ⟨_, .hole whole here (fun q matched' after eq here' => ?_) more⟩
      rw [turn]
      exact Nat.find_min' some ⟨q, matched', after, eq, here', rfl⟩
    · cases body with
      | nil => exact ⟨[], .nil⟩
      | cons c rest =>
        obtain ⟨segments, more⟩ :=
          ih rest.length (by rw [← length]; exact Nat.lt_succ_self _) rest rfl
        exact ⟨_, .char (fun p matched after eq here => some ⟨_, p, matched, after, eq, here, rfl⟩)
          more⟩

/-! ## One pass -/

variable {value : Placeholder → List UInt16} {pass : Pass}

variable {before rawArgs : List UInt16} {context : SkillExpandContext}

theorem getSubstitution_literal {matched after : List UInt16} :
    ∀ {replacement : List UInt16}, IsLiteral replacement →
      getSubstitution matched before after replacement = replacement
  | [], _ => rfl
  | [_], _ => rfl
  | c :: d :: rest, literal => by
    have clean {e : UInt16} (mem : e ∈ [ascii '$', ascii '&', ascii '\x60', ascii '\'']) :
        ¬ [ascii '$', e] <:+: c :: d :: rest := of_decide_eq_true (List.all_eq_true.1 literal e mem)
    have more : IsLiteral (d :: rest) :=
      List.all_eq_true.2 fun e mem => decide_eq_true fun inside =>
        clean mem (inside.trans (List.suffix_cons c (d :: rest)).isInfix)
    rw [getSubstitution, getSubstitution_literal more]
    split
    case isTrue same =>
      subst same
      have plain {e : UInt16} (mem : e ∈ [ascii '$', ascii '&', ascii '\x60', ascii '\'']) :
          d ≠ e := by
        rintro rfl
        exact clean mem (List.prefix_append [ascii '$', d] rest).isInfix
      rw [if_neg (plain (by decide)), if_neg (plain (by decide)), if_neg (plain (by decide)),
        if_neg (plain (by decide))]
    case isFalse => rfl

theorem Pass.scan_skip {matched rest : List UInt16} :
    pass.scan before matched.length (matched ++ rest) = pass.scan (before ++ matched) 0 rest := by
  induction matched generalizing before with
  | nil => rw [List.append_nil]; rfl
  | cons c matched ih =>
    rw [List.length_cons, List.cons_append, scan, ih, List.append_assoc, List.singleton_append]

/-- A part of the text in which nothing is found stays as it is. -/
theorem Pass.scan_quiet {shown rest : List UInt16}
    (quiet : ∀ i < shown.length, pass.find (shown.drop i ++ rest) = none) :
    pass.scan before 0 (shown ++ rest) = shown ++ pass.scan (before ++ shown) 0 rest := by
  induction shown generalizing before with
  | nil => rw [List.append_nil]; rfl
  | cons c shown ih =>
    have here : pass.find (c :: (shown ++ rest)) = none := quiet 0 (Nat.succ_pos _)
    rw [List.cons_append, scan]
    simp only [here]
    rw [ih fun i lt => quiet (i + 1) (Nat.succ_lt_succ lt), List.append_assoc,
      List.singleton_append, List.cons_append]

theorem Pass.scan_found {matched rest : List UInt16}
    (found : pass.find (matched ++ rest) = some matched.length)
    (literal : pass.template = true → IsLiteral (pass.value matched)) :
    pass.scan before 0 (matched ++ rest) =
      pass.value matched ++ pass.scan (before ++ matched) 0 rest := by
  cases matched with
  | nil => exact absurd (pass.pos found) (Nat.lt_irrefl 0)
  | cons c matched =>
    have put (after : List UInt16) :
        pass.put (c :: matched) before after = pass.value (c :: matched) := by
      rw [put]
      split
      case isTrue template => exact getSubstitution_literal (literal template)
      case isFalse => rfl
    rw [List.cons_append] at found ⊢
    rw [scan]
    simp only [found]
    rw [← List.cons_append, List.take_left, put, List.length_cons, Nat.add_sub_cancel, scan_skip,
      List.append_assoc, List.singleton_append]

/-- The pass finds the placeholders of this turn, and puts in their values. -/
structure Serves (names : List (List UInt16)) (value : Placeholder → List UInt16) (k : ℕ)
    (pass : Pass) : Prop where
  find_iff : ∀ text n, pass.find text = some n ↔ ∃ p matched rest, p.turn names = k ∧
    Occurs names p matched rest ∧ text = matched ++ rest ∧ matched.length = n
  value : ∀ p matched rest, p.turn names = k → Occurs names p matched rest →
    pass.value matched = value p
  template : ∀ p matched rest, p.turn names = k → Occurs names p matched rest →
    pass.template = p.isString

theorem Serves.find_none (serves : Serves names value k pass)
    (never : ∀ p matched rest, text = matched ++ rest → Occurs names p matched rest →
      p.turn names ≠ k) : pass.find text = none := by
  refine Option.eq_none_iff_forall_not_mem.2 fun n found => ?_
  obtain ⟨p, matched, rest, turn, here, whole, -⟩ := (serves.find_iff text n).1 found
  exact never p matched rest whole here turn

/-- The text after the first `k` passes: the placeholders of later ones stand as they are. -/
abbrev stage (names : List (List UInt16)) (value : Placeholder → List UInt16) (k : ℕ) :
    List Segment → List UInt16 :=
  fill value fun p => p.turn names < k

theorem stage_hole : stage names value k (.hole p matched :: segments) =
    (if p.turn names < k then value p else matched) ++ stage names value k segments := by
  simp only [stage, fill, List.flatMap_cons, decide_eq_true_eq]

theorem fill_none {now : Placeholder → Bool} (reading : Reading names text segments)
    (none : ∀ p ∈ holes segments, now p = false) : fill value now segments = text := by
  induction reading with
  | nil => rfl
  | @char c _ _ _ _ ih => exact congrArg (c :: ·) (ih none)
  | @hole p _ matched _ _ whole _ _ _ ih =>
    rw [fill, List.flatMap_cons, whole]
    refine congrArg₂ (· ++ ·) (if_neg ?_) (ih fun p mem => none p (List.mem_cons_of_mem _ mem))
    rw [none p List.mem_cons_self]
    exact Bool.false_ne_true

theorem Reading.occurs (reading : Reading names text segments) :
    ∀ p ∈ holes segments, ∃ matched rest, Occurs names p matched rest := by
  induction reading with
  | nil => exact fun _ no => nomatch no
  | char _ _ ih => exact ih
  | hole _ here _ _ ih => exact List.forall_mem_cons.2 ⟨⟨_, _, here⟩, ih⟩

/-- Where a separator comes first, the text is as in the body up to there. -/
theorem agree_of_shielded (value : Placeholder → List UInt16) {turn : ℕ}
    (reading : Reading names text segments)
    (shielded : Shielded names turn segments) (le : k ≤ turn) :
    Agree names (stage names value k segments) text := by
  induction reading with
  | nil => exact .same []
  | char _ _ ih =>
    rcases shielded with separates | shielded
    · exact .stop separates
    · exact .cons _ (ih shielded)
  | @hole p _ matched _ _ whole _ _ _ ih =>
    have later : ¬ p.turn names < k := Nat.not_lt.2 (Nat.le_trans le shielded.1)
    rw [stage_hole, if_neg later, whole]
    exact (ih shielded.2).append matched

/-- Nothing is found behind the first character of a placeholder. -/
theorem Serves.find_tail (serves : Serves names value k pass)
    (plain : ∀ name ∈ names, ascii '$' ∉ name) (here : Occurs names p matched rest)
    {i : ℕ} (lt : i + 1 < matched.length) (behind : List UInt16) :
    pass.find (matched.drop (i + 1) ++ behind) = none := by
  refine serves.find_none fun q matched' after whole here' _ => here.not_mem_tail plain ?_
  obtain ⟨more, rfl⟩ := here'.head
  rw [← List.drop_one, List.mem_drop_iff_getElem]
  rw [List.drop_eq_getElem_cons lt, List.cons_append, List.cons_append] at whole
  exact ⟨i, by omega, by rw [← (List.cons.inj whole).1]; congr 1; omega⟩

/-- The pass of a turn leads from one stage to the next. -/
theorem Serves.scan_stage (serves : Serves names value k pass) (le : k ≤ names.length + 5)
    (plain : ∀ name ∈ names, ascii '$' ∉ name) (reading : Reading names text segments)
    (apart : Apart names segments)
    (inert : ∀ p ∈ holes segments, Inert names (p.turn names) (value p))
    (literal : ∀ p ∈ holes segments, p.isString = true → IsLiteral (value p))
    (before : List UInt16) :
    pass.scan before 0 (stage names value k segments) = stage names value (k + 1) segments := by
  induction reading generalizing before with
  | nil => rfl
  | @char c rest segments none more ih =>
    change pass.scan before 0 ([c] ++ stage names value k segments) =
      [c] ++ stage names value (k + 1) segments
    rw [Pass.scan_quiet, ih apart.2 inert literal]
    intro i lt
    obtain rfl : i = 0 := Nat.lt_one_iff.1 lt
    refine serves.find_none fun p matched after whole here _ => ?_
    obtain ⟨tail, rfl⟩ := here.head
    obtain rfl : c = ascii '$' := (List.cons.inj whole).1
    have agree : Agree names (ascii '$' :: stage names value k segments) (ascii '$' :: rest) :=
      .cons _ (agree_of_shielded value more (apart.1 rfl) le)
    rw [show ascii '$' :: stage names value k segments = _ from whole] at agree
    obtain ⟨after', same, here'⟩ := agree.occurs here
    exact none p _ after' same here'
  | @hole p text matched rest segments whole here first more ih =>
    have rest' := ih apart.2 (fun p mem => inert p (List.mem_cons_of_mem _ mem))
      fun p mem => literal p (List.mem_cons_of_mem _ mem)
    rw [stage_hole, stage_hole]
    rcases Nat.lt_trichotomy (p.turn names) k with earlier | own | later
    · rw [if_pos earlier, if_pos (Nat.lt_succ_of_lt earlier)]
      refine (Pass.scan_quiet fun i lt => ?_).trans (congrArg _ (rest' _))
      refine serves.find_none fun q matched' after eq here' turn => ?_
      obtain ⟨tail, rfl⟩ := here'.head
      rw [List.drop_eq_getElem_cons lt, List.cons_append] at eq
      have split : value p = (value p).take i ++ ascii '$' :: (value p).drop (i + 1) := by
        rw [← (List.cons.inj eq).1, ← List.drop_eq_getElem_cons lt, List.take_append_drop]
      rw [(List.cons.inj eq).1] at eq
      exact inert p List.mem_cons_self _ _ split _ q _ after eq (turn ▸ earlier) here'
    · subst own
      rw [if_neg (Nat.lt_irrefl _), if_pos (Nat.lt_succ_self _)]
      have agree : Agree names (matched ++ rest) (matched ++ stage names value (p.turn names)
          segments) := ((agree_of_shielded value more apart.1 le_rfl).append matched).symm
      obtain ⟨after, same, here'⟩ := agree.occurs here
      have same' := serves.value p matched rest rfl here
      rw [Pass.scan_found ((serves.find_iff _ _).2 ⟨p, matched, after, rfl, here', same, rfl⟩)
        (fun template => ?_), same', rest']
      rw [same']
      exact literal p List.mem_cons_self
        ((serves.template p matched rest rfl here).symm.trans template)
    · rw [if_neg (Nat.lt_asymm later), if_neg (Nat.not_lt.2 later)]
      refine (Pass.scan_quiet fun i lt => ?_).trans (congrArg _ (rest' _))
      cases i with
      | succ i => exact serves.find_tail plain here lt _
      | zero =>
        refine serves.find_none fun q matched' after eq here' turn => ?_
        have agree : Agree names _ (matched ++ rest) :=
          (agree_of_shielded value more apart.1 (Nat.le_of_lt later)).append matched
        rw [List.drop_zero] at eq
        rw [eq] at agree
        obtain ⟨after', same, here''⟩ := agree.occurs here'
        have le := first q matched' after' (whole.trans same) here''
        omega

/-! ## The passes -/

theorem escapeXmlTags_eq (text : List UInt16) : escapeXmlTags text = escapeMarkup text := by
  rw [escapeXmlTags, escapeMarkup, List.flatMap_assoc]
  refine List.flatMap_congr fun c _ => ?_
  split
  · rfl
  · exact List.append_nil _

theorem Serves.of_find
    (sound : ∀ text n, pass.find text = some n → ∃ p matched rest, p.turn names = k ∧
      Occurs names p matched rest ∧ text = matched ++ rest ∧ matched.length = n)
    (complete : ∀ p matched rest, p.turn names = k → Occurs names p matched rest →
      pass.find (matched ++ rest) = some matched.length ∧ pass.value matched = value p ∧
        pass.template = p.isString) : Serves names value k pass where
  find_iff text n := by
    refine ⟨sound text n, ?_⟩
    rintro ⟨p, matched, rest, turn, here, rfl, rfl⟩
    exact (complete p matched rest turn here).1
  value p matched rest turn here := (complete p matched rest turn here).2.1
  template p matched rest turn here := (complete p matched rest turn here).2.2

theorem serves_named {index : ℕ} {name : List UInt16} (named : names[index]? = some name) :
    Serves names value index (.named name (value (.name index))) := by
  obtain ⟨lt, -⟩ := List.getElem?_eq_some_iff.1 named
  refine .of_find (fun text n found => ?_) fun p matched rest turn here => ?_
  · dsimp only [Pass.named] at found
    split at found
    case isFalse => cases found
    case isTrue begins =>
      obtain ⟨⟨rest, rfl⟩, ends⟩ := begins
      rw [show ((ascii '$' :: name) ++ rest).drop (name.length + 1) = rest from List.drop_left,
        Option.all_eq_true] at ends
      refine ⟨.name index, _, rest, rfl, .name named fun c mem => ?_, rfl, Option.some.inj found⟩
      simpa using ends c mem
  · cases here with
    | @name index' name' _ named' ends =>
      obtain rfl : index' = index := turn
      rw [named] at named'
      cases named'
      refine ⟨if_pos ⟨List.prefix_append _ _, ?_⟩, rfl, rfl⟩
      rw [show ((ascii '$' :: name) ++ rest).drop (name.length + 1) = rest from List.drop_left,
        Option.all_eq_true]
      simpa using ends
    | _ => simp only [Placeholder.turn] at turn; omega

/-- What the digits are that a text begins with. -/
theorem takeWhile_cases (behind : List UInt16) : ∃ digits after, behind = digits ++ after ∧
    behind.takeWhile isDigitUnit = digits ∧ ∀ c ∈ digits, isDigitUnit c = true := by
  obtain ⟨after, whole⟩ := List.takeWhile_prefix (l := behind) isDigitUnit
  exact ⟨_, after, whole.symm, rfl, fun c mem => List.mem_takeWhile_imp mem⟩

theorem serves_indexed :
    Serves names (Placeholder.value rawArgs context) names.length
      (indexed (tokenizeArgs rawArgs)) := by
  have behindBracket (behind : List UInt16) :
      (units "$ARGUMENTS[" ++ behind).drop 11 = behind := List.drop_left' rfl
  refine .of_find (fun text n found => ?_) fun p matched rest turn here => ?_
  · dsimp only [indexed] at found
    split at found
    case isFalse => cases found
    case isTrue begins =>
      obtain ⟨⟨behind, rfl⟩, nonempty, close⟩ := begins
      obtain ⟨digits, after, rfl, same, digit⟩ := takeWhile_cases behind
      rw [behindBracket, same] at nonempty found
      rw [behindBracket, same, ← List.drop_drop, behindBracket, List.drop_left] at close
      obtain ⟨rest, rfl⟩ := List.head?_eq_some_iff.1 close
      refine ⟨_, _, rest, rfl, .item nonempty digit, ?_, ?_⟩
      · rw [List.append_assoc, List.append_assoc]
        rfl
      · rw [← Option.some.inj found, List.length_append, List.length_append]
        change 11 + (digits.length + 1) = 12 + digits.length
        omega
  · cases here with
    | name named _ =>
      obtain ⟨lt, -⟩ := List.getElem?_eq_some_iff.1 named
      exact absurd turn (Nat.ne_of_lt lt)
    | @item digits _ nonempty digit =>
      have same := takeWhile_digits digit (bracket_ends rest)
      have own := takeWhile_digits digit (bracket_ends [])
      rw [List.append_nil] at own
      refine ⟨?_, ?_, rfl⟩
      · dsimp only [indexed]
        rw [List.append_assoc, List.append_assoc, behindBracket, same, ← List.drop_drop,
          behindBracket, List.drop_left, if_pos ⟨List.prefix_append _ _, nonempty, rfl⟩,
          List.length_append, List.length_append]
        refine congrArg some ?_
        change 12 + digits.length = 11 + (digits.length + 1)
        omega
      · dsimp only [indexed]
        rw [behindBracket, own]
        exact escapeXmlTags_eq _
    | _ => simp only [Placeholder.turn] at turn; omega

theorem serves_numbered :
    Serves names (Placeholder.value rawArgs context) (names.length + 1)
      (numbered (tokenizeArgs rawArgs)) := by
  refine .of_find (fun text n found => ?_) fun p matched rest turn here => ?_
  · dsimp only [numbered] at found
    split at found
    case isFalse => cases found
    case isTrue begins =>
      obtain ⟨⟨behind, rfl⟩, nonempty, ends⟩ := begins
      obtain ⟨digits, after, rfl, same, digit⟩ := takeWhile_cases behind
      change (digits ++ after).takeWhile isDigitUnit ≠ [] at nonempty
      rw [← List.drop_drop] at ends
      change ((digits ++ after).drop ((digits ++ after).takeWhile isDigitUnit).length).head?.all _
        at ends
      rw [same, List.drop_left, Option.all_eq_true] at ends
      rw [same] at nonempty
      refine ⟨_, _, after, rfl,
        .number nonempty digit fun c mem => by simpa using ends c mem, rfl, ?_⟩
      rw [← Option.some.inj found]
      change digits.length + 1 = 1 + ((digits ++ after).takeWhile isDigitUnit).length
      rw [same, Nat.add_comm]
  · cases here with
    | name named _ =>
      obtain ⟨lt, -⟩ := List.getElem?_eq_some_iff.1 named
      simp only [Placeholder.turn] at turn
      omega
    | @number digits _ nonempty digit ends =>
      have same : ((ascii '$' :: digits ++ rest).drop 1).takeWhile isDigitUnit = digits :=
        takeWhile_digits digit (not_digit ends)
      have ends' : (((ascii '$' :: digits ++ rest).drop (1 + digits.length)).head?.all
          fun c => !isWord c) = true := by
        rw [← List.drop_drop]
        change ((digits ++ rest).drop digits.length).head?.all _ = true
        rw [List.drop_left, Option.all_eq_true]
        simpa using ends
      refine ⟨?_, escapeXmlTags_eq _, rfl⟩
      dsimp only [numbered]
      rw [same, if_pos ⟨List.prefix_append [ascii '$'] _, nonempty, ends'⟩, Nat.add_comm]
      rfl
    | _ => simp only [Placeholder.turn] at turn; omega

/-- Of the last three turns there is one placeholder each, with one text. -/
theorem serves_literal {v search : List UInt16} (turn : p.turn names = k)
    (late : names.length + 2 ≤ k) (occurs : ∀ rest, Occurs names p (ascii '$' :: search) rest)
    (string : p.isString = true) (same : value p = v) :
    Serves names value k (.literal (ascii '$') search v) := by
  refine .of_find (fun text n found => ?_) fun q matched rest turn' here => ?_
  · dsimp only [Pass.literal] at found
    split at found
    case isFalse => cases found
    case isTrue begins =>
      obtain ⟨rest, rfl⟩ := begins
      exact ⟨p, _, rest, turn, occurs rest, rfl, Option.some.inj found⟩
  · have only : q = p ∧ matched = ascii '$' :: search := by
      rw [← turn] at turn' late
      have there := occurs rest
      generalize ascii '$' :: search = shown at there
      cases there with
      | name named _ =>
        obtain ⟨lt, -⟩ := List.getElem?_eq_some_iff.1 named
        simp only [Placeholder.turn] at late
        omega
      | item => simp only [Placeholder.turn] at late; omega
      | number => simp only [Placeholder.turn] at late; omega
      | _ =>
        cases here with
        | name named _ =>
          obtain ⟨lt, -⟩ := List.getElem?_eq_some_iff.1 named
          simp only [Placeholder.turn] at turn'
          omega
        | _ => first | (exfalso; simp only [Placeholder.turn] at turn'; omega) | exact ⟨rfl, rfl⟩
    obtain ⟨rfl, rfl⟩ := only
    exact ⟨if_pos (List.prefix_append _ _), same.symm, string.symm⟩

theorem serves (here : (argumentPasses rawArgs context ++ contextPasses context)[k]? = some pass) :
    k < context.argumentNames.length + 5 ∧
      Serves context.argumentNames (Placeholder.value rawArgs context) k pass := by
  rw [argumentPasses, List.append_assoc] at here
  by_cases lt : k < context.argumentNames.length
  · rw [List.getElem?_append_left (by rw [List.length_mapIdx]; exact lt), List.getElem?_mapIdx]
      at here
    obtain ⟨name, named, rfl⟩ := Option.map_eq_some_iff.1 here
    rw [escapeXmlTags_eq]
    exact ⟨by omega, serves_named named⟩
  · obtain ⟨j, rfl⟩ := Nat.exists_eq_add_of_le (Nat.not_lt.1 lt)
    rw [List.getElem?_append_right (by rw [List.length_mapIdx]; omega), List.length_mapIdx,
      Nat.add_sub_cancel_left] at here
    rcases j with _ | _ | _ | _ | _ | j
    · cases here
      exact ⟨by omega, serves_indexed⟩
    · cases here
      exact ⟨by omega, serves_numbered⟩
    · cases here
      exact ⟨by omega, serves_literal rfl (by omega) (fun _ => .all) rfl (escapeXmlTags_eq _).symm⟩
    · cases here
      exact ⟨by omega, serves_literal rfl (by omega) (fun _ => .skillDir) rfl rfl⟩
    · cases here
      exact ⟨by omega, serves_literal rfl (by omega) (fun _ => .sessionId) rfl rfl⟩
    · cases here

/-! ## All passes -/

/-- Some of the passes, in turn, lead from the stage before them to the stage after them. -/
theorem replaceInTurn_stage {passes : List Pass} {stages : ℕ → List UInt16}
    (each : ∀ k pass, passes[k]? = some pass → pass.replaceAll (stages k) = stages (k + 1)) :
    ∀ before now after : List Pass, passes = before ++ now ++ after →
      replaceInTurn now (stages before.length) = stages (before.length + now.length) := by
  intro before now
  induction now generalizing before with
  | nil => exact fun _ _ => rfl
  | cons pass now ih =>
    intro after whole
    have here : passes[before.length]? = some pass := by
      rw [whole, List.append_assoc, List.cons_append, List.getElem?_append_right le_rfl,
        Nat.sub_self, List.getElem?_cons_zero]
    have whole' : passes = before ++ [pass] ++ now ++ after := by
      rw [whole, List.append_assoc, List.append_assoc, List.append_assoc]
      rfl
    have rest := ih _ _ whole'
    rw [List.length_append, List.length_singleton] at rest
    rw [replaceInTurn, List.foldl_cons, each _ _ here, List.length_cons, Nat.add_comm now.length,
      ← Nat.add_assoc]
    exact rest

theorem fill_congr {now now' : Placeholder → Bool}
    (same : ∀ p ∈ holes segments, now p = now' p) :
    fill value now segments = fill value now' segments := by
  refine List.flatMap_congr fun segment mem => ?_
  cases segment with
  | char c => rfl
  | hole p matched => simp only [same p (List.mem_filterMap.2 ⟨_, mem, rfl⟩)]

/-- Every body can be read; and unless the values disturb the passes, the expansion replaces all the
placeholders of the body at once. -/
theorem expandSkillParameters_eq (body rawArgs : List UInt16) (context : SkillExpandContext) :
    (∃ segments, Reading context.argumentNames body segments) ∧
    ∀ segments, Reading context.argumentNames body segments →
      Undisturbed rawArgs context body segments →
      expandSkillParameters body rawArgs context =
        expandOnce (Placeholder.value rawArgs context) rawArgs segments := by
  refine ⟨exists_reading context.argumentNames body, fun segments reading undisturbed => ?_⟩
  obtain ⟨plain, apart, inert, literal, shows⟩ := undisturbed
  let stages (k : ℕ) := stage context.argumentNames (Placeholder.value rawArgs context) k segments
  have each (k : ℕ) (pass : Pass)
      (here : (argumentPasses rawArgs context ++ contextPasses context)[k]? = some pass) :
      pass.replaceAll (stages k) = stages (k + 1) := by
    obtain ⟨lt, serves⟩ := serves here
    exact serves.scan_stage (Nat.le_of_lt lt) plain reading apart inert literal []
  have start : stages 0 = body := fill_none reading fun _ _ => rfl
  have first := replaceInTurn_stage each [] (argumentPasses rawArgs context)
    (contextPasses context) rfl
  have second := replaceInTurn_stage each (argumentPasses rawArgs context)
    (contextPasses context) [] (List.append_nil _).symm
  have count : (argumentPasses rawArgs context).length = context.argumentNames.length + 3 := by
    simp [argumentPasses]
  have filled : stages (context.argumentNames.length + 3) =
      fill (Placeholder.value rawArgs context) Placeholder.isArgument segments :=
    fill_congr fun p mem => by
      obtain ⟨matched, rest, here⟩ := reading.occurs p mem
      exact Bool.eq_iff_iff.2 (decide_eq_true_iff.trans here.isArgument_iff)
  have full : stages (context.argumentNames.length + 3 + 2) =
      fill (Placeholder.value rawArgs context) (fun _ => true) segments :=
    fill_congr fun p mem => by
      obtain ⟨matched, rest, here⟩ := reading.occurs p mem
      exact decide_eq_true here.turn_lt
  rw [List.length_nil, start, Nat.zero_add, count, filled] at first
  rw [count, filled, show (contextPasses context).length = 2 from rfl, full] at second
  simp only [expandSkillParameters, expandOnce]
  rw [first, second, argumentsLine, escapeXmlTags_eq]
  refine if_congr (and_congr ?_ List.length_pos_iff) rfl rfl
  rw [ne_eq, not_not]
  cases marked : (holes segments).any Placeholder.isArgument with
  | true => exact iff_of_false (shows marked) (by decide)
  | false =>
    refine iff_of_true (fill_none reading fun p mem => ?_) rfl
    exact Bool.eq_false_iff.2 (List.any_eq_false.1 marked p mem)

/-! ## Sample bodies -/

theorem Reading.append_plain {shown : List UInt16} (plain : ascii '$' ∉ shown)
    (reading : Reading names text segments) :
    Reading names (shown ++ text) (shown.map .char ++ segments) := by
  induction shown with
  | nil => exact reading
  | cons c shown ih =>
    rw [List.mem_cons, not_or] at plain
    refine .char (fun p matched after whole here => ?_) (ih plain.2)
    obtain ⟨more, rfl⟩ := here.head
    exact plain.1 (List.cons.inj whole).1.symm

/-- What may begin at a `$` depends on the character behind it. -/
theorem Occurs.next {c : UInt16} {behind : List UInt16} (here : Occurs names p matched rest)
    (whole : ascii '$' :: c :: behind = matched ++ rest) :
    (∃ name ∈ names, name <+: c :: behind) ∨ c = ascii 'A' ∨
      (isDigitUnit c = true ∧ names.length < p.turn names) ∨
        (c = ascii '\x7b' ∧ names.length + 3 ≤ p.turn names) := by
  have next {more : List UInt16} (whole : ascii '$' :: c :: behind = ascii '$' :: more ++ rest) :
      c :: behind = more ++ rest := (List.cons.inj whole).2
  cases here with
  | name named _ => exact .inl ⟨_, List.mem_of_getElem? named, _, (next whole).symm⟩
  | number nonempty digit _ =>
    obtain ⟨d, digits, rfl⟩ := List.exists_cons_of_ne_nil nonempty
    obtain rfl : c = d := (List.cons.inj (next whole)).1
    exact .inr (.inr (.inl ⟨digit c List.mem_cons_self, Nat.lt_succ_self _⟩))
  | item => exact .inr (.inl (List.cons.inj (List.cons.inj whole).2).1)
  | all => exact .inr (.inl (List.cons.inj (List.cons.inj whole).2).1)
  | skillDir => exact .inr (.inr (.inr ⟨(List.cons.inj (List.cons.inj whole).2).1, le_rfl⟩))
  | sessionId =>
    exact .inr (.inr (.inr ⟨(List.cons.inj (List.cons.inj whole).2).1, Nat.le_succ _⟩))

/-- The values as they would be with all markup escaped. -/
def claimed (rawArgs : List UInt16) (context : SkillExpandContext) (p : Placeholder) :
    List UInt16 :=
  escapeMarkup (p.text rawArgs context)

/-- The value of the directory is not escaped, and a string that the host reads a pattern in is not
put in as it stands. -/
theorem not_one_literal_substitution :
    (∃ segments, Reading [] (units "$\x7bKIMI_SKILL_DIR\x7d") segments ∧
      expandSkillParameters (units "$\x7bKIMI_SKILL_DIR\x7d") [] { skillDir := units "a<b" } ≠
        expandOnce (claimed [] { skillDir := units "a<b" }) [] segments) ∧
    ∃ segments, Reading [units "x"] (units "$x!") segments ∧
      expandSkillParameters (units "$x!") (units "$&")
          { skillDir := [], argumentNames := [units "x"] } ≠
        expandOnce (claimed (units "$&") { skillDir := [], argumentNames := [units "x"] })
          (units "$&") segments := by
  refine ⟨⟨[.hole .skillDir _], .hole rfl .skillDir (fun q matched after whole here => ?_) .nil,
    by decide +kernel⟩, ⟨_, .hole rfl (.name rfl (by rintro c ⟨⟩; decide))
      (fun _ _ _ _ _ => Nat.zero_le _)
      (Reading.append_plain (by decide : ascii '$' ∉ units "!") .nil), by decide +kernel⟩⟩
  rcases here.next whole with ⟨name, no, -⟩ | no | no | ⟨-, le⟩
  · cases no
  · exact absurd no (by decide)
  · exact absurd no.1 (by decide)
  · exact le

def namedContext : SkillExpandContext := { skillDir := [], argumentNames := [units "from"] }

def namedSegments : List Segment :=
  (units "cp ").map .char ++ .hole (.name 0) (units "$from") ::
    ((units " to ").map .char ++ [.hole (.number 1) (units "$1")])

theorem reading_named : Reading [units "from"] (units "cp $from to $1") namedSegments := by
  have one : Occurs [units "from"] (.number (parseInt (units "1"))) (units "$1") [] :=
    .number (by decide) (List.all_eq_true.1 (by decide)) fun _ no => nomatch no
  have last : Reading [units "from"] (units "$1") [.hole (.number 1) (units "$1")] := by
    refine .hole rfl one (fun q matched after whole here => ?_) .nil
    rcases here.next whole with ⟨name, mem, same⟩ | no | ⟨-, lt⟩ | no
    · rw [List.mem_singleton.1 mem] at same
      exact absurd same (by decide)
    · exact absurd no (by decide)
    · exact lt
    · exact absurd no.1 (by decide)
  exact Reading.append_plain (by decide : ascii '$' ∉ units "cp ")
    (.hole rfl (.name rfl (by rintro c ⟨⟩; decide)) (fun _ _ _ _ _ => Nat.zero_le _)
      (Reading.append_plain (by decide : ascii '$' ∉ units " to ") last))

/-- The dollar sign in `$b` begins no placeholder. -/
theorem inert_named : ∀ p ∈ holes namedSegments,
    Inert [units "from"] (p.turn [units "from"]) (p.value (units "a $b") namedContext) := by
  intro p mem before after split more q matched rest whole later here
  have known : p = .name 0 ∨ p = .number 1 := by simpa [holes, namedSegments] using mem
  rcases known with rfl | rfl
  · exact absurd (split ▸ List.mem_append_right _ List.mem_cons_self)
      (by decide +kernel : ascii '$' ∉ Placeholder.value (units "a $b") namedContext (.name 0))
  · rw [show Placeholder.value (units "a $b") namedContext (.number 1) = [ascii '$', ascii 'b'] by
      decide +kernel] at split
    rcases before with _ | ⟨d, _ | ⟨d', before⟩⟩
    · obtain rfl := (List.cons.inj split).2
      rcases here.next whole with ⟨name, mem, same⟩ | no | no | no
      · rw [List.mem_singleton.1 mem] at same
        obtain ⟨behind, eq⟩ := same
        exact absurd (List.cons.inj eq).1 (by decide)
      · exact absurd no (by decide)
      · exact absurd no.1 (by decide)
      · exact absurd no.1 (by decide)
    · exact absurd (List.cons.inj (List.cons.inj split).2).1 (by decide)
    · cases (List.append_eq_nil_iff.1 (List.cons.inj (List.cons.inj split).2).2.symm).2

/-- A token with a dollar sign is put in as it is. -/
theorem expand_named :
    expandSkillParameters (units "cp $from to $1") (units "a $b") namedContext =
        expandOnce (Placeholder.value (units "a $b") namedContext) (units "a $b") namedSegments ∧
      expandOnce (Placeholder.value (units "a $b") namedContext) (units "a $b") namedSegments =
        units "cp a to $b" :=
  ⟨(expandSkillParameters_eq _ _ _).2 _ reading_named ⟨by decide, by decide +kernel, inert_named,
    by decide +kernel, by decide +kernel⟩, by decide +kernel⟩

end KimiCli.Skill
