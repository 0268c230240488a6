import KimiCli.Js.Json
import KimiCli.Lib.ShellReader
import KimiCli.Lib.Substrings
import Mathlib.Data.List.Forall2

/-!
# The command string of a remote process

`shellQuote` and `_buildExecCommand` of `kaos/src/ssh.ts`: one string for the remote shell that is
to change the directory, set the environment and run the program.
-/

namespace KimiCli

open ShellReader

/-- `[A-Za-z0-9_./:=@%^,+-]`. -/
def isSafeChar (c : Char) : Bool := c.isAlphanum || "_./:=@%^,+-".toList.contains c

/-- The test for strings that are safe as they are. -/
def isSafe (arg : List Char) : Bool := !arg.isEmpty && arg.all isSafeChar

def shellQuote (arg : List Char) : List Char :=
  if arg = [] then ['\'', '\'']
  else if isSafe arg then arg
  else
    let escaped := arg.flatMap fun c => if c = '\'' then ['\'', '"', '\'', '"', '\''] else [c]
    '\'' :: (escaped ++ ['\''])

/-- `/^[A-Za-z_][A-Za-z0-9_]*$/`. -/
def isVariableName : List Char → Bool
  | [] => false
  | c :: cs => (c.isAlpha || c = '_') && cs.all fun d => d.isAlphanum || d = '_'

/-- One assignment of the prefix, or the text of the `KaosValueError`. -/
def assignment (entry : List Char × List Char) : Except String (List Char) :=
  if isVariableName entry.1 then .ok (entry.1 ++ '=' :: shellQuote entry.2)
  else
    .error ("SSHKaos.execWithEnv(): invalid env variable name " ++
      String.ofList (Json.quote (String.ofList entry.1)))

def buildExecCommand (args : List (List Char)) (cwd : List Char)
    (env : Option (List (List Char × List Char))) : Except String (List Char) := do
  let command := Substrings.join [' '] (args.map shellQuote)
  let assignments ← (env.getD []).mapM assignment
  let command :=
    if assignments = [] then command else Substrings.join [' '] assignments ++ ' ' :: command
  pure <|
    if cwd = [] then command
    else "cd ".toList ++ shellQuote cwd ++ " && ".toList ++ command

/-! ## What the remote shell should do -/

/-- The shell reads a change to the directory, if one is given, and then one command with just these
arguments and this environment. -/
structure Runs (command : List Char) (args : List (List Char)) (cwd : List Char)
    (env : List (List Char × List Char)) : Prop where
  reads : commandsOf command = some
    ((if cwd = [] then [] else [⟨[], ["cd".toList, cwd]⟩]) ++ [⟨env, args⟩])
  changes : cwd ≠ [] → cdDirectory ["cd".toList, cwd] = some cwd

/-- The argument is left unquoted and has the form of an assignment. -/
def looksLikeAssignment (arg : List Char) : Bool :=
  isSafe arg && arg.contains '=' && isVariableName (arg.takeWhile (· ≠ '='))

/-- The argument is left unquoted and is a word of the shell's grammar. -/
def looksReserved (arg : List Char) : Bool := isSafe arg && reservedWords.contains arg

/-! ## Quoting -/

/-- The word that the shell reads for a quoted argument. -/
def quotedWord (arg : List Char) : Word := arg.map (·, !isSafe arg)

theorem isVariableName_eq (name : List Char) : isVariableName name = isName name := by
  cases name <;> rfl

theorem isPlain_of_isSafeChar {c : Char} (safe : isSafeChar c = true) : isPlain c = true := by
  have special : " \t\n'\"\\$\x60&|;<>()#*?[]\x7b\x7d~!".toList.all fun d => !isSafeChar d := by
    decide
  rw [isPlain, Bool.not_eq_true', ← Bool.not_eq_true, List.contains_iff_mem]
  intro inside
  have not_safe := List.all_eq_true.1 special c inside
  rw [safe] at not_safe
  exact Bool.false_ne_true not_safe

theorem spells_shellQuote (arg : List Char) : Spells (shellQuote arg) (quotedWord arg) := by
  unfold shellQuote quotedWord
  by_cases empty : arg = []
  · rw [if_pos empty, empty]
    exact spells_quoted []
  · rw [if_neg empty]
    by_cases safe : isSafe arg = true
    · rw [if_pos safe, safe]
      have chars := (Bool.and_eq_true_iff.1 safe).2
      exact spells_plain empty fun c mem =>
        isPlain_of_isSafeChar (List.all_eq_true.1 chars c mem)
    · rw [if_neg safe, Bool.eq_false_iff.2 safe]
      exact spells_quoted arg

theorem quotedWord_text (arg : List Char) : (quotedWord arg).text = arg := by
  rw [quotedWord, Word.text, List.map_map]
  exact List.map_id arg

/-- The word that the shell reads for an assignment of the prefix. -/
def assignmentWord (entry : List Char × List Char) : Word :=
  entry.1.map (·, false) ++ ('=', false) :: quotedWord entry.2

section

variable {entry : List Char × List Char} {env : List (List Char × List Char)}
  {arg : List Char}

theorem isSafeChar_of_isVariableName (valid : isVariableName arg = true) :
    ∀ c ∈ arg, isSafeChar c = true ∧ c ≠ '=' := by
  have letter {c : Char} (ok : (c.isAlphanum || c = '_') = true) :
      isSafeChar c = true ∧ c ≠ '=' := by
    refine ⟨?_, ?_⟩
    · rcases Bool.or_eq_true_iff.1 ok with alnum | underscore
      · rw [isSafeChar, alnum, Bool.true_or]
      · rw [of_decide_eq_true underscore]
        decide
    · rintro rfl
      exact absurd ok (by decide)
  cases arg with
  | nil => exact fun _ mem => absurd mem List.not_mem_nil
  | cons =>
    obtain ⟨head, tail⟩ := Bool.and_eq_true_iff.1 valid
    intro c mem
    rcases List.mem_cons.1 mem with rfl | mem
    · refine letter ?_
      rcases Bool.or_eq_true_iff.1 head with alpha | underscore
      · rw [Char.isAlphanum, alpha, Bool.true_or, Bool.true_or]
      · rw [underscore, Bool.or_true]
    · exact letter (List.all_eq_true.1 tail c mem)

theorem spells_assignment (valid : isVariableName entry.1 = true) :
    Spells (entry.1 ++ '=' :: shellQuote entry.2) (assignmentWord entry) := by
  have nonempty : entry.1 ≠ [] := by
    intro empty
    rw [empty] at valid
    exact Bool.false_ne_true valid
  have name := spells_plain nonempty fun c mem =>
    isPlain_of_isSafeChar (isSafeChar_of_isVariableName valid c mem).1
  have equals : Spells ['='] [('=', false)] :=
    spells_plain (List.cons_ne_nil _ _) (List.all_eq_true.1 (by decide))
  exact name.append (equals.append (spells_shellQuote entry.2))

theorem asAssignment_assignmentWord (valid : isVariableName entry.1 = true) :
    (assignmentWord entry).asAssignment = some entry := by
  have clear : '=' ∉ entry.1 := fun mem => (isSafeChar_of_isVariableName valid '=' mem).2 rfl
  rw [assignmentWord, asAssignment_append clear, ← isVariableName_eq, valid, if_pos rfl,
    quotedWord_text]

theorem asAssignment_quotedWord (arg : List Char) :
    ((quotedWord arg).asAssignment).isSome = looksLikeAssignment arg := by
  unfold looksLikeAssignment
  by_cases form : isSafe arg = true ∧ '=' ∈ arg
  · obtain ⟨safe, mem⟩ := form
    have clear : '=' ∉ arg.takeWhile (· ≠ '=') := fun inside =>
      absurd (List.mem_takeWhile_imp inside) (by decide)
    have rest : ∃ value, arg.dropWhile (· ≠ '=') = '=' :: value := by
      cases after : arg.dropWhile (· ≠ '=') with
      | nil => exact absurd (List.dropWhile_eq_nil_iff.1 after '=' mem) (by decide)
      | cons c value =>
        have first := List.head?_dropWhile_not (fun c : Char => decide (c ≠ '=')) arg
        rw [after] at first
        have same : c = '=' := by simpa using first
        exact ⟨value, by rw [same]⟩
    obtain ⟨value, after⟩ := rest
    have split : arg = arg.takeWhile (· ≠ '=') ++ '=' :: value := by
      rw [← after, List.takeWhile_append_dropWhile]
    have word : quotedWord arg = (arg.takeWhile (· ≠ '=')).map (·, false) ++
        ('=', false) :: value.map (·, false) := by
      rw [quotedWord, safe]
      conv_lhs => rw [split]
      rw [List.map_append]
      rfl
    have inside : arg.contains '=' = true := List.contains_iff_mem.2 mem
    rw [word, asAssignment_append clear, ← isVariableName_eq, safe, inside]
    split
    case isTrue valid => rw [valid]; rfl
    case isFalse invalid => rw [Bool.eq_false_iff.2 invalid]; rfl
  · have none : ('=', false) ∉ quotedWord arg := by
      intro mem
      obtain ⟨c, inside, same⟩ := List.mem_map.1 mem
      obtain ⟨rfl, safe⟩ := Prod.mk.inj same
      exact form ⟨by simpa using safe, inside⟩
    have bare : (isSafe arg && arg.contains '=') = false := by
      rw [Bool.eq_false_iff, Ne, Bool.and_eq_true_iff, List.contains_iff_mem]
      exact form
    rw [asAssignment_eq_none none, bare]
    rfl

theorem isReserved_quotedWord (arg : List Char) :
    (quotedWord arg).isReserved = looksReserved arg := by
  rw [Word.isReserved, quotedWord_text, looksReserved]
  by_cases empty : arg = []
  · rw [empty]
    decide
  · have unquoted : (quotedWord arg).all (!·.2) = isSafe arg := by
      rw [quotedWord, List.all_map]
      cases isSafe arg with
      | true => exact List.all_eq_true.2 fun _ _ => rfl
      | false => exact List.all_eq_false.2 ⟨arg.head empty, List.head_mem empty, Bool.false_ne_true⟩
    rw [unquoted]

/-! ## The whole command -/

theorem lex_join {texts : List (List Char)} {words : List Word}
    (spells : List.Forall₂ Spells texts words) (nonempty : texts ≠ []) (rest : List Char) :
    lex .unquoted none (Substrings.join [' '] texts) = some (words.map .word) ∧
      lex .unquoted none (Substrings.join [' '] texts ++ ' ' :: rest) =
        (lex .unquoted none rest).map (words.map .word ++ ·) := by
  induction spells with
  | nil => exact absurd rfl nonempty
  | @cons text word texts words first others ih =>
    cases others with
    | nil => exact ⟨first.lex_end, first.lex_blank rest⟩
    | cons =>
      obtain ⟨whole, before⟩ := ih (List.cons_ne_nil _ _)
      rw [Substrings.join_cons _ (List.cons_ne_nil _ _), List.append_assoc, List.append_assoc,
        List.singleton_append]
      constructor
      · rw [first.lex_blank, whole]
        rfl
      · rw [List.cons_append, first.lex_blank, before,
          Option.map_map]
        rfl

theorem spells_args (args : List (List Char)) :
    List.Forall₂ Spells (args.map shellQuote) (args.map quotedWord) := by
  rw [List.forall₂_map_left_iff, List.forall₂_map_right_iff]
  exact List.forall₂_same.2 fun arg _ => spells_shellQuote arg

theorem spells_env (valid : ∀ entry ∈ env, isVariableName entry.1 = true) :
    List.Forall₂ Spells (env.map fun entry => entry.1 ++ '=' :: shellQuote entry.2)
      (env.map assignmentWord) := by
  rw [List.forall₂_map_left_iff, List.forall₂_map_right_iff]
  exact List.forall₂_same.2 fun entry mem => spells_assignment (valid entry mem)

theorem mapM_assignment (valid : ∀ entry ∈ env, isVariableName entry.1 = true) :
    env.mapM assignment = .ok (env.map fun entry => entry.1 ++ '=' :: shellQuote entry.2) := by
  induction env with
  | nil => rfl
  | cons entry env ih =>
    rw [List.mapM_cons, assignment, if_pos (valid entry List.mem_cons_self),
      ih fun e mem => valid e (List.mem_cons_of_mem _ mem)]
    rfl

theorem peel_env (valid : ∀ entry ∈ env, isVariableName entry.1 = true) (words : List Word) :
    peel (env.map assignmentWord ++ words) =
      ⟨env ++ (peel words).assignments, (peel words).words⟩ := by
  induction env with
  | nil => rfl
  | cons entry env ih =>
    rw [List.map_cons, List.cons_append, peel,
      asAssignment_assignmentWord (valid entry List.mem_cons_self),
      ih fun e mem => valid e (List.mem_cons_of_mem _ mem)]
    rfl

theorem peel_args (program : List Char) (arguments : List (List Char)) :
    peel ((program :: arguments).map quotedWord) = ⟨[], program :: arguments⟩ ↔
      looksLikeAssignment program = false := by
  rw [← asAssignment_quotedWord, List.map_cons, peel]
  cases found : (quotedWord program).asAssignment with
  | none =>
    refine iff_of_true ?_ rfl
    rw [← List.map_cons, List.map_map]
    refine congrArg (SimpleCommand.mk []) ?_
    exact (List.map_congr_left fun arg _ => quotedWord_text arg).trans (List.map_id _)
  | some =>
    refine iff_of_false (fun same => ?_) fun none => Bool.false_ne_true none.symm
    exact List.cons_ne_nil _ _ (congrArg SimpleCommand.assignments same)

theorem isReserved_assignmentWord (entry : List Char × List Char) :
    (assignmentWord entry).isReserved = false := by
  have bare : reservedWords.all (fun word => !word.contains '=') = true := by decide
  have equals : '=' ∈ (assignmentWord entry).text := by
    rw [assignmentWord, Word.text, List.map_append]
    exact List.mem_append_right _ List.mem_cons_self
  rw [Word.isReserved, Bool.and_eq_false_iff]
  refine .inr (Bool.eq_false_iff.2 fun reserved => ?_)
  have none := List.all_eq_true.1 bare _ (List.contains_iff_mem.1 reserved)
  rw [List.contains_iff_mem.2 equals] at none
  exact Bool.false_ne_true none

/-- The words of the command proper are read as the environment and the arguments where the first
argument is neither an assignment nor, after no assignment, reserved. -/
theorem simpleCommand_iff (valid : ∀ entry ∈ env, isVariableName entry.1 = true)
    (program : List Char) (arguments : List (List Char)) :
    simpleCommand (env.map assignmentWord ++ (program :: arguments).map quotedWord) =
        some ⟨env, program :: arguments⟩ ↔
      looksLikeAssignment program = false ∧ (env = [] → looksReserved program = false) := by
  have peeled : peel (env.map assignmentWord ++ (program :: arguments).map quotedWord) =
      ⟨env, program :: arguments⟩ ↔ looksLikeAssignment program = false := by
    rw [peel_env valid, ← peel_args program arguments]
    constructor
    · intro same
      generalize peel ((program :: arguments).map quotedWord) = command at same ⊢
      obtain ⟨assignments, words⟩ := command
      obtain ⟨none, rfl⟩ := SimpleCommand.mk.inj same
      exact congrArg (SimpleCommand.mk · _) (List.append_right_eq_self.1 none)
    · intro same
      rw [same, List.append_nil]
  cases env with
  | nil =>
    rw [← peeled, List.map_nil, List.nil_append, List.map_cons, simpleCommand,
      isReserved_quotedWord]
    cases looksReserved program with
    | true => simp
    | false => simp
  | cons =>
    rw [← peeled, List.map_cons, List.cons_append, simpleCommand, isReserved_assignmentWord]
    simp

theorem lex_args (program : List Char) (arguments : List (List Char)) :
    lex .unquoted none (Substrings.join [' '] ((program :: arguments).map shellQuote)) =
      some (((program :: arguments).map quotedWord).map .word) :=
  (lex_join (spells_args (program :: arguments)) (List.cons_ne_nil _ _) []).1

theorem lex_buildExecCommand {env : Option (List (List Char × List Char))}
    (valid : ∀ entry ∈ env.getD [], isVariableName entry.1 = true) (program : List Char)
    (arguments : List (List Char)) (cwd : List Char) :
    ∃ command,
      buildExecCommand (program :: arguments) cwd env = .ok (
        if cwd = [] then command else "cd ".toList ++ shellQuote cwd ++ " && ".toList ++ command) ∧
      lex .unquoted none command = some (((env.getD []).map assignmentWord ++
        (program :: arguments).map quotedWord).map .word) := by
  rw [buildExecCommand, mapM_assignment valid]
  generalize env.getD [] = env at valid ⊢
  cases env with
  | nil => exact ⟨_, rfl, lex_args program arguments⟩
  | cons entry env =>
    refine ⟨_, rfl, ?_⟩
    have nonempty : (entry :: env).map (fun entry => entry.1 ++ '=' :: shellQuote entry.2) ≠ [] :=
      List.cons_ne_nil _ _
    rw [if_neg nonempty, (lex_join (spells_env valid) nonempty _).2, lex_args]
    exact congrArg some List.map_append.symm

theorem lex_cd (cwd command : List Char) :
    lex .unquoted none ("cd ".toList ++ shellQuote cwd ++ " && ".toList ++ command) =
      (lex .unquoted none command).map fun tokens =>
        [quotedWord "cd".toList, quotedWord cwd].map .word ++ .and :: tokens := by
  have cd : Spells ['c', 'd'] (quotedWord "cd".toList) := spells_shellQuote "cd".toList
  show lex .unquoted none
    (['c', 'd'] ++ ' ' :: (shellQuote cwd ++ [' ', '&', '&', ' '] ++ command)) = _
  rw [cd.lex_blank, List.append_assoc]
  show ((lex .unquoted none
    (shellQuote cwd ++ ' ' :: ('&' :: '&' :: ' ' :: command))).map _) = _
  rw [(spells_shellQuote cwd).lex_blank, lex_and, lex_blank, Option.map_map, Option.map_map]
  rfl

theorem simpleCommand_cd (cwd : List Char) :
    simpleCommand [quotedWord "cd".toList, quotedWord cwd] = some ⟨[], ["cd".toList, cwd]⟩ := by
  have plain : looksLikeAssignment "cd".toList = false ∧
      (([] : List (List Char × List Char)) = [] → looksReserved "cd".toList = false) :=
    ⟨by decide, fun _ => by decide⟩
  have valid : ∀ entry ∈ ([] : List (List Char × List Char)), isVariableName entry.1 = true :=
    fun _ mem => absurd mem List.not_mem_nil
  exact (simpleCommand_iff valid "cd".toList [cwd]).2 plain

/-- The remote shell does what it should if and only if the directory does not begin with a hyphen
and the program is neither an unquoted assignment nor, without an environment, an unquoted reserved
word. -/
theorem runs_iff (program : List Char) (arguments : List (List Char)) (cwd : List Char)
    (env : Option (List (List Char × List Char)))
    (valid : ∀ entry ∈ env.getD [], isVariableName entry.1 = true) :
    (∃ command, buildExecCommand (program :: arguments) cwd env = .ok command ∧
      Runs command (program :: arguments) cwd (env.getD [])) ↔
    cwd.head? ≠ some '-' ∧ looksLikeAssignment program = false ∧
      (env.getD [] = [] → looksReserved program = false) := by
  obtain ⟨command, built, tokens⟩ := lex_buildExecCommand valid program arguments cwd
  have read_iff := simpleCommand_iff valid program arguments
  rw [built, ← read_iff]
  by_cases empty : cwd = []
  · have read_eq : commandsOf command = (simpleCommand ((env.getD []).map assignmentWord ++
        (program :: arguments).map quotedWord)).map fun run => [run] := by
      rw [commandsOf, tokens, Option.bind_some, splitAnd_words, mapM_simpleCommand]
    rw [if_pos empty, empty]
    constructor
    · rintro ⟨_, same, reads, -⟩
      cases same
      rw [if_pos rfl, List.nil_append, read_eq] at reads
      obtain ⟨run, found, same⟩ := Option.map_eq_some_iff.1 reads
      exact ⟨nofun, (List.cons.inj same).1 ▸ found⟩
    · rintro ⟨-, found⟩
      refine ⟨command, rfl, ?_, absurd rfl⟩
      rw [if_pos rfl, read_eq, found]
      rfl
  · have read_eq : commandsOf ("cd ".toList ++ shellQuote cwd ++ " && ".toList ++ command) =
        (simpleCommand ((env.getD []).map assignmentWord ++
          (program :: arguments).map quotedWord)).map fun run =>
            [⟨[], ["cd".toList, cwd]⟩, run] := by
      rw [commandsOf, lex_cd, tokens, Option.map_some, Option.bind_some, splitAnd_words_and,
        splitAnd_words, List.mapM_cons, simpleCommand_cd, mapM_simpleCommand]
      generalize simpleCommand _ = run
      cases run <;> rfl
    rw [if_neg empty]
    constructor
    · rintro ⟨_, same, reads, changes⟩
      cases same
      rw [if_neg empty, read_eq] at reads
      obtain ⟨run, found, same⟩ := Option.map_eq_some_iff.1 reads
      refine ⟨fun hyphen => ?_, (List.cons.inj (List.cons.inj same).2).1 ▸ found⟩
      have refused := changes empty
      rw [cdDirectory, if_pos hyphen] at refused
      exact nomatch refused
    · rintro ⟨clear, found⟩
      refine ⟨_, rfl, ?_, fun _ => if_neg clear⟩
      rw [if_neg empty, read_eq, found]
      rfl

end

/-- A program whose name begins like an assignment is not run. -/
theorem assignment_not_run :
    ¬∀ (program : List Char) (arguments : List (List Char)) (cwd : List Char)
      (env : Option (List (List Char × List Char))),
      (∀ entry ∈ env.getD [], isVariableName entry.1 = true) →
      ∃ command, buildExecCommand (program :: arguments) cwd env = .ok command ∧
        Runs command (program :: arguments) cwd (env.getD []) := by
  intro all
  obtain ⟨command, built, reads, -⟩ :=
    all "PATH=/tmp".toList ["ls".toList] "/srv".toList none fun _ mem =>
      absurd mem List.not_mem_nil
  cases built
  exact absurd reads (by decide)

theorem runs_quoted :
    ∃ command, buildExecCommand ["echo".toList, "it's; $HOME".toList] "/a b".toList
        (some [("LANG".toList, "C".toList)]) = .ok command ∧
      Runs command ["echo".toList, "it's; $HOME".toList] "/a b".toList
        [("LANG".toList, "C".toList)] :=
  (runs_iff "echo".toList ["it's; $HOME".toList] "/a b".toList
    (some [("LANG".toList, "C".toList)]) fun entry mem => by
      rw [Option.getD_some, List.mem_singleton] at mem
      rw [mem]
      decide).2 ⟨by decide, by decide, fun none => absurd none (List.cons_ne_nil _ _)⟩

end KimiCli
