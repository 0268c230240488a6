import Mathlib.Data.List.TakeWhile
import Mathlib.Tactic.Common

/-!
# Reading a command line of the POSIX shell

Token recognition, quote removal and assignment prefixes for lists of simple commands joined by
`&&`.  What would need an expansion, a redirection or a compound command is not read.  Every
character of a word remembers whether it was quoted, because only unquoted ones make a reserved
word or an assignment.
-/

namespace ShellReader

/-- The characters of a word, each with whether it was quoted. -/
abbrev Word := List (Char × Bool)

inductive Token
  | word (word : Word)
  | and

inductive Mode
  | unquoted | single | double

/-- Characters that stand for themselves outside quotes wherever they are. -/
def isPlain (c : Char) : Bool := !" \t\n'\"\\$\x60&|;<>()#*?[]\x7b\x7d~!".toList.contains c

def flush : Option Word → List Token
  | none => []
  | some word => [.word word]

/-- The tokens of a text, `current` being the word that has begun. -/
def lex : Mode → Option Word → List Char → Option (List Token)
  | .unquoted, current, [] => some (flush current)
  | .unquoted, current, ' ' :: cs => (lex .unquoted none cs).map (flush current ++ ·)
  | .unquoted, current, '\'' :: cs => lex .single (some (current.getD [])) cs
  | .unquoted, current, '"' :: cs => lex .double (some (current.getD [])) cs
  | .unquoted, current, '&' :: '&' :: cs =>
    (lex .unquoted none cs).map (flush current ++ .and :: ·)
  | .unquoted, current, c :: cs =>
    if isPlain c then lex .unquoted (some (current.getD [] ++ [(c, false)])) cs else none
  | .single, current, '\'' :: cs => lex .unquoted current cs
  | .single, current, c :: cs => lex .single (some (current.getD [] ++ [(c, true)])) cs
  | .double, current, '"' :: cs => lex .unquoted current cs
  | .double, current, c :: cs =>
    if ['$', '\x60', '\\'].contains c then none
    else lex .double (some (current.getD [] ++ [(c, true)])) cs
  | .single, _, [] | .double, _, [] => none

/-- The text of a word after quote removal. -/
def Word.text (word : Word) : List Char := word.map Prod.fst

def reservedWords : List (List Char) :=
  ["!", "\x7b", "\x7d", "case", "do", "done", "elif", "else", "esac", "fi", "for", "if", "in",
    "then", "until", "while"].map String.toList

/-- A reserved word none of whose characters is quoted. -/
def Word.isReserved (word : Word) : Bool :=
  word.all (!·.2) && reservedWords.contains word.text

/-- `[A-Za-z_][A-Za-z0-9_]*`. -/
def isName : List Char → Bool
  | [] => false
  | c :: cs => (c.isAlpha || c = '_') && cs.all fun d => d.isAlphanum || d = '_'

/-- The name and the value of a word of the form `NAME=value` with `NAME=` unquoted. -/
def Word.asAssignment (word : Word) : Option (List Char × List Char) :=
  let name := word.takeWhile (· ≠ ('=', false))
  match word.dropWhile (· ≠ ('=', false)) with
  | [] => none
  | _ :: value =>
    if name.all (!·.2) && isName (Word.text name) then some (Word.text name, Word.text value)
    else none

structure SimpleCommand where
  assignments : List (List Char × List Char)
  words : List (List Char)
  deriving DecidableEq

/-- The assignments before the first word that is none, and the words from there on. -/
def peel : List Word → SimpleCommand
  | [] => ⟨[], []⟩
  | word :: words =>
    match word.asAssignment with
    | some assignment =>
      ⟨assignment :: (peel words).assignments, (peel words).words⟩
    | none => ⟨[], (word :: words).map Word.text⟩

def simpleCommand : List Word → Option SimpleCommand
  | [] => none
  | word :: words => if word.isReserved then none else some (peel (word :: words))

/-- The words of each command of a list. -/
def splitAnd : List Token → List (List Word)
  | [] => [[]]
  | .and :: tokens => [] :: splitAnd tokens
  | .word word :: tokens =>
    match splitAnd tokens with
    | [] => [[word]]
    | command :: commands => (word :: command) :: commands

/-- The directory that `cd` changes to.  A hyphen at its start makes an operand an option, or the
directory that was left last. -/
def cdDirectory : List (List Char) → Option (List Char)
  | [_, directory] => if directory.head? = some '-' then none else some directory
  | _ => none

/-- The commands that are run one after the other, each if the one before succeeds. -/
def commandsOf (text : List Char) : Option (List SimpleCommand) :=
  (lex .unquoted none text).bind fun tokens => (splitAnd tokens).mapM simpleCommand

variable {current : Option Word} {word : Word} {words : List Word} {text rest : List Char}
  {c : Char}

/-! ## Tokens -/

theorem lex_plain (plain : isPlain c = true) :
    lex .unquoted current (c :: rest) =
      lex .unquoted (some (current.getD [] ++ [(c, false)])) rest := by
  have ne (d : Char) (special : isPlain d = false) : c ≠ d := fun same =>
    Bool.false_ne_true (special.symm.trans (same ▸ plain))
  rw [lex, if_pos plain]
  · exact ne ' ' rfl
  · exact ne '\'' rfl
  · exact ne '"' rfl
  · exact fun _ same => absurd same (ne '&' rfl)

theorem lex_single (other : c ≠ '\'') :
    lex .single current (c :: rest) =
      lex .single (some (current.getD [] ++ [(c, true)])) rest := by
  rw [lex]
  exact other

theorem lex_open (current : Option Word) (rest : List Char) :
    lex .unquoted current ('\'' :: rest) = lex .single (some (current.getD [])) rest := rfl

theorem lex_close (current : Option Word) (rest : List Char) :
    lex .single current ('\'' :: rest) = lex .unquoted current rest := rfl

theorem lex_plains (plain : ∀ c ∈ text, isPlain c = true) (word : Word) :
    lex .unquoted (some word) (text ++ rest) =
      lex .unquoted (some (word ++ text.map (·, false))) rest := by
  induction text generalizing word with
  | nil => rw [List.map_nil, List.append_nil, List.nil_append]
  | cons c text ih =>
    rw [List.cons_append, lex_plain (plain c List.mem_cons_self),
      ih fun d mem => plain d (List.mem_cons_of_mem _ mem)]
    rw [Option.getD_some, List.append_assoc, List.map_cons]
    rfl

/-- A single quote inside single quotes, put between double quotes. -/
def requote (text : List Char) : List Char :=
  text.flatMap fun c => if c = '\'' then ['\'', '"', '\'', '"', '\''] else [c]

theorem lex_requote (text : List Char) (word : Word) :
    lex .single (some word) (requote text ++ '\'' :: rest) =
      lex .unquoted (some (word ++ text.map (·, true))) rest := by
  induction text generalizing word with
  | nil => rw [List.map_nil, List.append_nil, requote, List.flatMap_nil, List.nil_append,
      lex_close]
  | cons c text ih =>
    rw [requote, List.flatMap_cons, List.append_assoc, ← requote, List.map_cons]
    by_cases quote : c = '\''
    · rw [if_pos quote, quote]
      show lex .single (some (word ++ [('\'', true)])) (requote text ++ '\'' :: rest) = _
      rw [ih, List.append_assoc]
      rfl
    · rw [if_neg quote]
      rw [List.singleton_append, lex_single quote, ih, Option.getD_some, List.append_assoc]
      rfl

/-- The text is read as the characters of `word`, whatever word it continues. -/
def Spells (text : List Char) (word : Word) : Prop :=
  ∀ current rest, lex .unquoted current (text ++ rest) =
    lex .unquoted (some (current.getD [] ++ word)) rest

theorem Spells.append {text' : List Char} {word' : Word} (spells : Spells text word)
    (spells' : Spells text' word') : Spells (text ++ text') (word ++ word') := by
  intro current rest
  rw [List.append_assoc, spells, spells', Option.getD_some, List.append_assoc]

theorem spells_plain (nonempty : text ≠ []) (plain : ∀ c ∈ text, isPlain c = true) :
    Spells text (text.map (·, false)) := by
  intro current rest
  obtain ⟨c, cs, rfl⟩ := List.exists_cons_of_ne_nil nonempty
  rw [List.cons_append, lex_plain (plain c List.mem_cons_self),
    lex_plains fun d mem => plain d (List.mem_cons_of_mem _ mem), List.append_assoc]
  rfl

theorem spells_quoted (text : List Char) :
    Spells ('\'' :: (requote text ++ ['\''])) (text.map (·, true)) := by
  intro current rest
  rw [List.cons_append, List.append_assoc, lex_open]
  exact lex_requote text _

theorem Spells.lex_end (spells : Spells text word) :
    lex .unquoted none text = some [.word word] := by
  have all := spells none []
  rwa [List.append_nil] at all

theorem Spells.lex_blank (spells : Spells text word) (rest : List Char) :
    lex .unquoted none (text ++ ' ' :: rest) = (lex .unquoted none rest).map (.word word :: ·) := by
  rw [spells]
  rfl

theorem lex_blank (rest : List Char) :
    lex .unquoted none (' ' :: rest) = lex .unquoted none rest := by
  change (lex .unquoted none rest).map ([] ++ ·) = _
  exact Option.map_id_apply

theorem lex_and (rest : List Char) :
    lex .unquoted none ('&' :: '&' :: rest) = (lex .unquoted none rest).map (.and :: ·) := rfl

/-! ## Commands -/

theorem splitAnd_words (words : List Word) : splitAnd (words.map .word) = [words] := by
  induction words with
  | nil => rfl
  | cons word words ih => rw [List.map_cons, splitAnd, ih]

theorem splitAnd_words_and (words : List Word) (tokens : List Token) :
    splitAnd (words.map .word ++ .and :: tokens) = words :: splitAnd tokens := by
  induction words with
  | nil => rfl
  | cons word words ih => rw [List.map_cons, List.cons_append, splitAnd, ih]

theorem mapM_simpleCommand (words : List Word) :
    [words].mapM simpleCommand = (simpleCommand words).map fun command => [command] := by
  rw [List.mapM_cons, List.mapM_nil]
  cases simpleCommand words <;> rfl

theorem asAssignment_eq_none (quoted : ('=', false) ∉ word) : word.asAssignment = none := by
  have rest : word.dropWhile (· ≠ ('=', false)) = [] := by
    rw [List.dropWhile_eq_nil_iff]
    rintro c mem
    exact decide_eq_true fun same => quoted (same ▸ mem)
  rw [Word.asAssignment, rest]

theorem asAssignment_append {name : List Char} (clear : '=' ∉ name) (value : Word) :
    Word.asAssignment (name.map (·, false) ++ ('=', false) :: value) =
      if isName name then some (name, value.text) else none := by
  have before : ∀ c ∈ name.map (·, false), decide (c ≠ ('=', false)) = true := by
    intro c mem
    obtain ⟨d, inside, rfl⟩ := List.mem_map.1 mem
    rw [decide_eq_true_eq]
    rintro same
    cases (Prod.mk.inj same).1
    exact clear inside
  have taken : (name.map (·, false) ++ ('=', false) :: value).takeWhile (· ≠ ('=', false)) =
      name.map (·, false) := by
    rw [List.takeWhile_append_of_pos before, List.takeWhile_cons_of_neg (by decide),
      List.append_nil]
  have dropped : (name.map (·, false) ++ ('=', false) :: value).dropWhile (· ≠ ('=', false)) =
      ('=', false) :: value := by
    rw [List.dropWhile_append_of_pos before, List.dropWhile_cons_of_neg (by decide)]
  have unquoted : (name.map (·, false)).all (fun c : Char × Bool => !c.2) = true := by
    rw [List.all_map, List.all_eq_true]
    exact fun _ _ => rfl
  have text : Word.text (name.map (·, false)) = name := by
    rw [Word.text, List.map_map]
    exact List.map_id name
  unfold Word.asAssignment
  dsimp only
  rw [taken, dropped, unquoted, Bool.true_and, text]

end ShellReader
