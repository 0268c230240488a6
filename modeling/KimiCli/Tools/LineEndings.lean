import KimiCli.Js.Units

/-!
# Line endings of files

The model sees a file whose line ends are all CRLF with LF alone, and what it writes there gets
CRLF again; any other file it sees as it is.  `toModelTextView` is undone by
`materializeModelText` (`rawText_view`), which works on a text part by part unless it puts a CR
before a LF (`toCrlf_append`).
-/

namespace KimiCli

abbrev Text := List UInt16

def cr : UInt16 := 13

def lf : UInt16 := 10

inductive LineEndingStyle
  | lf
  | crlf
  | mixed
  deriving DecidableEq

/-- The marks that the loop of `detectLineEndingStyle` sets. -/
structure LineEndMarks where
  hasCrLf : Bool := false
  hasLf : Bool := false
  hasLoneCr : Bool := false

def scanLineEnds (marks : LineEndMarks) : Text → LineEndMarks
  | [] => marks
  | c :: rest =>
    if c = cr then
      if rest.head? = some lf then scanLineEnds { marks with hasCrLf := true } rest.tail
      else scanLineEnds { marks with hasLoneCr := true } rest
    else if c = lf then scanLineEnds { marks with hasLf := true } rest
    else scanLineEnds marks rest
termination_by text => text.length
decreasing_by
  all_goals
    simp only [List.length_cons, List.length_tail]
    omega

def detectLineEndingStyle (text : Text) : LineEndingStyle :=
  let marks := scanLineEnds {} text
  if marks.hasLoneCr || (marks.hasCrLf && marks.hasLf) then .mixed
  else if marks.hasCrLf then .crlf
  else .lf

structure ModelTextView where
  text : Text
  lineEndingStyle : LineEndingStyle

def toModelTextView (raw : Text) : ModelTextView :=
  let lineEndingStyle := detectLineEndingStyle raw
  if lineEndingStyle ≠ .crlf then ⟨raw, lineEndingStyle⟩
  else ⟨replaceAll raw [cr, lf] [lf], lineEndingStyle⟩

def materializeModelText (text : Text) (lineEndingStyle : LineEndingStyle) : Text :=
  if lineEndingStyle ≠ .crlf then text
  else replaceAll (replaceAll text [cr, lf] [lf]) [lf] [cr, lf]

/-! ## Writing every line end as CRLF -/

/-- Every CRLF becomes LF. -/
def collapse : Text → Text
  | [] => []
  | c :: rest => if c = cr ∧ rest.head? = some lf then collapse rest else c :: collapse rest

/-- Every LF becomes CRLF. -/
def widen (text : Text) : Text := text.flatMap fun c => if c = lf then [cr, lf] else [c]

/-- Every line end becomes CRLF. -/
def toCrlf (text : Text) : Text := widen (collapse text)

theorem lf_ne_cr : lf ≠ cr := by decide

variable {text : Text}

theorem collapse_cons {c : UInt16} (other : ¬ (c = cr ∧ text.head? = some lf)) :
    collapse (c :: text) = c :: collapse text := by
  rw [collapse, if_neg other]

theorem collapse_crlf (text : Text) : collapse (cr :: lf :: text) = lf :: collapse text := by
  rw [collapse, if_pos ⟨rfl, rfl⟩, collapse_cons fun both => lf_ne_cr both.1]

theorem replaceAll_crlf (text : Text) : replaceAll text [cr, lf] [lf] = collapse text := by
  have nonempty : [cr, lf] ≠ [] := List.cons_ne_nil _ _
  induction text with
  | nil => exact replaceAll_nil nonempty _
  | cons c text ih =>
    by_cases both : c = cr ∧ text.head? = some lf
    · obtain ⟨rfl, head⟩ := both
      obtain ⟨rest, rfl⟩ := List.head?_eq_some_iff.1 head
      have other : ¬ [cr, lf] <+: lf :: rest := fun here =>
        lf_ne_cr (List.cons_prefix_cons.1 here).1.symm
      rw [replaceAll_cons nonempty other, collapse_cons fun both => lf_ne_cr both.1] at ih
      rw [collapse_crlf, ← ih]
      exact replaceAll_search nonempty rest [lf]
    · have other : ¬ [cr, lf] <+: c :: text := by
        intro here
        obtain ⟨same, rest, rfl⟩ := List.cons_prefix_cons.1 here
        exact both ⟨same.symm, rfl⟩
      rw [replaceAll_cons nonempty other, ih, collapse_cons both]

theorem widen_cons (c : UInt16) (text : Text) :
    widen (c :: text) = (if c = lf then [cr, lf] else [c]) ++ widen text := List.flatMap_cons

theorem replaceAll_lf (text : Text) : replaceAll text [lf] [cr, lf] = widen text := by
  have nonempty : [lf] ≠ [] := List.cons_ne_nil _ _
  induction text with
  | nil => exact replaceAll_nil nonempty _
  | cons c text ih =>
    rw [widen_cons, ← ih]
    by_cases same : c = lf
    · rw [if_pos same, same]
      exact replaceAll_search nonempty text [cr, lf]
    · have other : ¬ [lf] <+: c :: text := fun here =>
        same (List.cons_prefix_cons.1 here).1.symm
      rw [if_neg same, replaceAll_cons nonempty other]
      rfl

theorem toCrlf_cr (head : text.head? = some lf) :
    toCrlf (cr :: text) = toCrlf text := by
  rw [toCrlf, collapse, if_pos ⟨rfl, head⟩, toCrlf]

theorem toCrlf_cons {c : UInt16} (other : ¬ (c = cr ∧ text.head? = some lf)) :
    toCrlf (c :: text) = (if c = lf then [cr, lf] else [c]) ++ toCrlf text := by
  rw [toCrlf, collapse_cons other, widen_cons, toCrlf]

theorem collapse_of_not_mem (clean : cr ∉ text) : collapse text = text := by
  induction text with
  | nil => rfl
  | cons c text ih =>
    have other : ¬ (c = cr ∧ text.head? = some lf) := fun both => clean (both.1 ▸ .head _)
    rw [collapse_cons other, ih fun mem => clean (.tail _ mem)]

/-- A text with its line ends in the style of a file. -/
def inStyle (lineEndingStyle : LineEndingStyle) (text : Text) : Text :=
  if lineEndingStyle = .crlf then toCrlf text else text

theorem materializeModelText_eq (text : Text) (style : LineEndingStyle) :
    materializeModelText text style = inStyle style text := by
  rw [materializeModelText, inStyle, replaceAll_crlf, replaceAll_lf, toCrlf]
  by_cases same : style = .crlf
  · rw [if_neg (not_not.2 same), if_pos same]
  · rw [if_pos same, if_neg same]

/-! ## Reading a file -/

theorem scanLineEnds_mono (marks : LineEndMarks) (text : Text) :
    (marks.hasLoneCr = true → (scanLineEnds marks text).hasLoneCr = true) ∧
      (marks.hasLf = true → (scanLineEnds marks text).hasLf = true) := by
  fun_induction scanLineEnds marks text with
  | case1 => exact ⟨id, id⟩
  | case2 _ _ _ ih => exact ih
  | case3 _ _ _ ih => exact ⟨fun _ => ih.1 rfl, ih.2⟩
  | case4 _ _ _ ih => exact ⟨ih.1, fun _ => ih.2 rfl⟩
  | case5 _ _ _ _ _ ih => exact ih

/-- Without a lone CR or LF every LF of the view stands for a CRLF. -/
theorem scanLineEnds_pure (marks : LineEndMarks) (text : Text)
    (noCr : (scanLineEnds marks text).hasLoneCr = false)
    (noLf : (scanLineEnds marks text).hasLf = false) :
    toCrlf text = text ∧ cr ∉ collapse text := by
  fun_induction scanLineEnds marks text with
  | case1 => exact ⟨rfl, List.not_mem_nil⟩
  | case2 marks rest head ih =>
    obtain ⟨rest, rfl⟩ := List.head?_eq_some_iff.1 head
    obtain ⟨same, clean⟩ := ih noCr noLf
    rw [toCrlf, collapse_crlf, widen_cons, if_pos rfl]
    refine ⟨?_, fun mem => (List.mem_cons.1 mem).elim lf_ne_cr.symm clean⟩
    rw [← toCrlf, List.tail_cons] at *
    exact congrArg ([cr, lf] ++ ·) same
  | case3 marks rest _ ih =>
    rw [(scanLineEnds_mono _ rest).1 rfl] at noCr
    cases noCr
  | case4 marks rest _ ih =>
    rw [(scanLineEnds_mono _ rest).2 rfl] at noLf
    cases noLf
  | case5 marks c rest notCr notLf ih =>
    obtain ⟨same, clean⟩ := ih noCr noLf
    rw [toCrlf, collapse_cons fun both => notCr both.1, widen_cons, if_neg notLf]
    exact ⟨congrArg ([c] ++ ·) same, fun mem => (List.mem_cons.1 mem).elim (Ne.symm notCr) clean⟩

theorem inStyle_toModelTextView (raw : Text) :
    let view := toModelTextView raw
    inStyle view.lineEndingStyle view.text = raw ∧
      (view.lineEndingStyle = .crlf → cr ∉ view.text) := by
  dsimp only
  rw [toModelTextView]
  by_cases crlf : detectLineEndingStyle raw = .crlf
  · rw [if_neg (not_not.2 crlf)]
    have marks : (scanLineEnds {} raw).hasLoneCr = false ∧ (scanLineEnds {} raw).hasLf = false := by
      rw [detectLineEndingStyle] at crlf
      revert crlf
      rcases scanLineEnds {} raw with ⟨_ | _, _ | _, _ | _⟩ <;> decide
    obtain ⟨same, clean⟩ := scanLineEnds_pure {} raw marks.1 marks.2
    rw [inStyle, if_pos crlf, replaceAll_crlf]
    refine ⟨?_, fun _ => clean⟩
    rw [toCrlf, collapse_of_not_mem clean]
    exact same
  · rw [if_pos crlf, inStyle, if_neg crlf]
    exact ⟨rfl, fun same => absurd same crlf⟩

/-! ## Texts put together -/

/-- The end of one text and the beginning of the next are a CRLF together. -/
def Merge (front back : Text) : Prop := front.getLast? = some cr ∧ back.head? = some lf

instance (front back : Text) : Decidable (Merge front back) :=
  inferInstanceAs (Decidable (_ ∧ _))

theorem merge_cons (c d : UInt16) (front back : Text) :
    Merge (c :: d :: front) back ↔ Merge (d :: front) back := by
  rw [Merge, Merge, List.getLast?_cons_cons]

theorem toCrlf_append : ∀ {front back : Text}, ¬ Merge front back →
    toCrlf (front ++ back) = toCrlf front ++ toCrlf back
  | [], back, _ => rfl
  | [c], back, apart => by
    have other : ¬ (c = cr ∧ back.head? = some lf) := fun both =>
      apart ⟨congrArg some both.1, both.2⟩
    have alone : ¬ (c = cr ∧ ([] : Text).head? = some lf) := fun both => nomatch both.2
    rw [List.singleton_append, toCrlf_cons other, toCrlf_cons alone]
    exact congrArg (· ++ toCrlf back) (List.append_nil _).symm
  | c :: d :: front, back, apart => by
    have rest := toCrlf_append ((merge_cons c d front back).not.1 apart)
    rw [List.cons_append]
    by_cases both : c = cr ∧ d = lf
    · obtain ⟨rfl, rfl⟩ := both
      rw [toCrlf_cr rfl, toCrlf_cr rfl, rest]
    · have other : ¬ (c = cr ∧ some d = some lf) := fun h => both ⟨h.1, Option.some.inj h.2⟩
      rw [toCrlf_cons other, toCrlf_cons other, rest, List.append_assoc]

theorem length_toCrlf_append : ∀ {front back : Text}, Merge front back →
    (toCrlf (front ++ back)).length + 1 = (toCrlf front).length + (toCrlf back).length
  | [c], back, merge => by
    obtain rfl : c = cr := Option.some.inj merge.1
    rw [List.singleton_append, toCrlf_cr merge.2, Nat.add_comm]
    rfl
  | c :: d :: front, back, merge => by
    have rest := length_toCrlf_append ((merge_cons c d front back).1 merge)
    rw [List.cons_append]
    by_cases both : c = cr ∧ d = lf
    · obtain ⟨rfl, rfl⟩ := both
      rw [toCrlf_cr rfl, toCrlf_cr rfl, rest]
    · have other : ¬ (c = cr ∧ some d = some lf) := fun h => both ⟨h.1, Option.some.inj h.2⟩
      rw [toCrlf_cons other, toCrlf_cons other, List.length_append, List.length_append]
      omega

theorem toCrlf_append_of_clean {front : Text} (clean : cr ∉ front) (back : Text) :
    toCrlf (front ++ back) = toCrlf front ++ toCrlf back :=
  toCrlf_append fun merge => clean (List.mem_of_getLast? merge.1)

theorem length_toCrlf_append_le (front back : Text) :
    (toCrlf (front ++ back)).length ≤ (toCrlf front).length + (toCrlf back).length := by
  by_cases merge : Merge front back
  · exact Nat.le_of_succ_le (length_toCrlf_append merge).le
  · rw [toCrlf_append merge, List.length_append]

/-- Somewhere the separator and what follows it are a CRLF together. -/
def Merges (sep : Text) : List Text → Prop
  | _ :: part :: parts =>
    Merge sep (Substrings.join sep (part :: parts)) ∨ Merges sep (part :: parts)
  | _ => False

theorem length_toCrlf_join_le (sep : Text) : ∀ parts : List Text,
    (toCrlf (Substrings.join sep parts)).length ≤
      (Substrings.join (toCrlf sep) (parts.map toCrlf)).length
  | [] => Nat.le_refl _
  | [_] => Nat.le_refl _
  | part :: next :: parts => by
    have rest := length_toCrlf_join_le sep (next :: parts)
    have first := length_toCrlf_append_le (part ++ sep) (Substrings.join sep (next :: parts))
    have second := length_toCrlf_append_le part sep
    simp only [Substrings.join, List.map_cons, List.length_append] at rest first second ⊢
    omega

/-- Parts without CR: the join is written part by part unless something merges. -/
theorem toCrlf_join_iff (sep : Text) : ∀ parts : List Text, (∀ part ∈ parts, cr ∉ part) →
    (toCrlf (Substrings.join sep parts) = Substrings.join (toCrlf sep) (parts.map toCrlf) ↔
      ¬ Merges sep parts)
  | [], _ => iff_of_true rfl id
  | [_], _ => iff_of_true rfl id
  | part :: next :: parts, clean => by
    have rest := toCrlf_join_iff sep (next :: parts) fun p mem => clean p (.tail _ mem)
    have le := length_toCrlf_join_le sep (next :: parts)
    have joined : Substrings.join (toCrlf sep) ((part :: next :: parts).map toCrlf) =
      toCrlf part ++ toCrlf sep ++ Substrings.join (toCrlf sep) ((next :: parts).map toCrlf) := rfl
    rw [Merges, not_or, ← rest, joined, Substrings.join_cons _ (List.cons_ne_nil _ _),
      List.append_assoc, List.append_assoc, toCrlf_append_of_clean (clean part (.head _)),
      List.append_cancel_left_eq]
    by_cases merge : Merge sep (Substrings.join sep (next :: parts))
    · have shorter := length_toCrlf_append merge
      refine iff_of_false (fun same => ?_) fun both => both.1 merge
      rw [same, List.length_append] at shorter
      omega
    · rw [toCrlf_append merge, List.append_cancel_left_eq]
      exact (and_iff_right merge).symm

theorem not_merges_of_clean {sep : Text} : ∀ {parts : List Text},
    cr ∉ Substrings.join sep parts → ¬ Merges sep parts
  | [], _ => id
  | [_], _ => id
  | part :: next :: parts, clean => by
    rw [Substrings.join_cons _ (List.cons_ne_nil _ _), List.mem_append, List.mem_append, not_or,
      not_or] at clean
    rintro (merge | rest)
    · exact clean.1.2 (List.mem_of_getLast? merge.1)
    · exact not_merges_of_clean clean.2 rest

theorem inStyle_join_iff {style : LineEndingStyle} (sep : Text) {parts : List Text}
    (clean : style = .crlf → ∀ part ∈ parts, cr ∉ part) :
    inStyle style (Substrings.join sep parts) =
        Substrings.join (inStyle style sep) (parts.map (inStyle style)) ↔
      (style = .crlf → ¬ Merges sep parts) := by
  by_cases crlf : style = .crlf
  · have same : inStyle style = toCrlf := funext fun text => if_pos crlf
    rw [same, toCrlf_join_iff sep parts (clean crlf)]
    exact ⟨fun apart _ => apart, fun apart => apart crlf⟩
  · have same : inStyle style = id := funext fun text => if_neg crlf
    rw [same, List.map_id]
    exact iff_of_true rfl fun is => absurd is crlf

end KimiCli
