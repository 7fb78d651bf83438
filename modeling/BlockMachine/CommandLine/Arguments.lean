import BlockMachine.Machine.Run

/-! What the arguments of the program ask for. They are read from left to right, and the first
one that settles the matter, as a request for help does or a mistake, ends the reading. -/
namespace BlockMachine.CommandLine

def limitVariable : String := "INBOX_OUTBOX_MAX_STEPS"

def limitBound : Nat := Nat.pow 2 64

inductive Command where
  | list
  | describe (puzzle : String)
  | run (puzzle program : String) (limit : Nat) (stepwise : Bool)
  deriving DecidableEq, Repr

inductive UsageError where
  | missingCommand
  | unknownCommand (word : String)
  | unexpectedArgument (argument : String)
  | missingArgument (name : String)
  | missingValue (option : String)
  | repeatedOption (option : String)
  | invalidValue (option value : String)
  deriving DecidableEq, Repr

def UsageError.message : UsageError → String
  | missingCommand => "a command is required: list, show or run"
  | unknownCommand w => s!"there's no command called `{w}`"
  | unexpectedArgument a => s!"unexpected argument `{a}`"
  | missingArgument name => s!"the argument {name} is missing"
  | missingValue o => s!"`{o}` needs a value"
  | repeatedOption o => s!"`{o}` can be given only once"
  | invalidValue o v => s!"`{v}` is no value for `{o}`"

inductive Ending where
  | help
  | version
  | misuse (e : UsageError)
  deriving DecidableEq, Repr

structure Request where
  verbosity : Nat
  command : Command
  deriving DecidableEq, Repr

inductive Argument where
  /-- Two dashes alone: only words follow. -/
  | escape
  | long (name : String) (value : Option String)
  | short (letters : List Char)
  | word (text : String)
  deriving DecidableEq, Repr

def Argument.ofText (text : String) : Argument :=
  match text.toList with
  | ['-', '-'] => .escape
  | '-' :: '-' :: rest =>
    let name := String.ofList (rest.takeWhile (· ≠ '='))
    match rest.dropWhile (· ≠ '=') with
    | [] => .long name none
    | _ :: value => .long name (some (String.ofList value))
  | '-' :: c :: rest => .short (c :: rest)
  | _ => .word text

def readLimit? (text : String) : Option Nat :=
  let digits := match text.toList with
    | '+' :: rest => rest
    | letters => letters
  if digits ≠ [] ∧ digits.all Char.isDigit then
    let n := Nat.ofDigitChars 10 digits 0
    if n < limitBound then some n else none
  else none

def limitOf (source text : String) : Except Ending Nat :=
  match readLimit? text with
  | some n => .ok n
  | none => .error (.misuse (.invalidValue source text))

/-- Letters after one dash. Each `v` asks for more logging; `V` is known before the command
only. -/
def readLetters (beforeCommand : Bool) (verbosity : Nat) : List Char → Except Ending Nat
  | [] => .ok verbosity
  | 'v' :: rest => readLetters beforeCommand (verbosity + 1) rest
  | 'h' :: _ => .error .help
  | c :: _ =>
    if c = 'V' ∧ beforeCommand then .error .version
    else .error (.misuse (.unexpectedArgument ("-" ++ c.toString)))

inductive Verb where
  | list | describe | run
  deriving DecidableEq, Repr

namespace Verb

def ofWord? : String → Option Verb
  | "list" => some list
  | "show" => some describe
  | "run" => some run
  | _ => none

def arity : Verb → Nat
  | list => 0
  | describe => 1
  | run => 2

end Verb

structure Details where
  verbosity : Nat
  words : List String := []
  limit : Option Nat := none
  stepwise : Bool := false
  deriving DecidableEq, Repr

namespace Details

def addWord (v : Verb) (d : Details) (word : String) : Except Ending Details :=
  if v.arity ≤ d.words.length then .error (.misuse (.unexpectedArgument word))
  else if d.words.length = 1 ∧ word = "" then .error (.misuse (.invalidValue "PROGRAM" word))
  else .ok { d with words := d.words ++ [word] }

def setLimit (d : Details) (text : String) : Except Ending Details :=
  if d.limit.isSome then .error (.misuse (.repeatedOption "--max-steps"))
  else do return { d with limit := some (← limitOf "--max-steps" text) }

def setStepwise (d : Details) : Except Ending Details :=
  if d.stepwise then .error (.misuse (.repeatedOption "--step"))
  else .ok { d with stepwise := true }

def addLong (v : Verb) (d : Details) (name : String) (value : Option String) :
    Except Ending Details :=
  match name, value with
  | "verbose", none => .ok { d with verbosity := d.verbosity + 1 }
  | "help", none => .error .help
  | "step", none =>
    if v = .run then d.setStepwise else .error (.misuse (.unexpectedArgument "--step"))
  | "max-steps", some text =>
    if v = .run then d.setLimit text else .error (.misuse (.unexpectedArgument "--max-steps"))
  | _, _ => .error (.misuse (.unexpectedArgument ("--" ++ name)))

def read (v : Verb) (d : Details) : List String → Except Ending Details
  | [] => .ok d
  | text :: rest =>
    match Argument.ofText text with
    | .escape => rest.foldlM (addWord v) d
    | .word w => do read v (← d.addWord v w) rest
    | .short letters => do
      read v { d with verbosity := ← readLetters false d.verbosity letters } rest
    | .long name value =>
      if v = .run ∧ name = "max-steps" ∧ value = none then
        match rest with
        | [] => .error (.misuse (.missingValue text))
        | next :: rest =>
          match Argument.ofText next with
          | .word w => do read v (← d.setLimit w) rest
          | _ => .error (.misuse (.missingValue text))
      else do read v (← d.addLong v name value) rest

def command (v : Verb) (preset : Option String) (d : Details) : Except Ending Command :=
  match v, d.words with
  | .list, _ => .ok .list
  | .describe, [puzzle] => .ok (.describe puzzle)
  | .describe, _ => .error (.misuse (.missingArgument "PUZZLE"))
  | .run, [puzzle, program] => do
    let limit ← match d.limit, preset with
      | some n, _ => pure n
      | none, some text => limitOf limitVariable text
      | none, none => pure Machine.defaultBudget
    return .run puzzle program limit d.stepwise
  | .run, [_] => .error (.misuse (.missingArgument "PROGRAM"))
  | .run, _ => .error (.misuse (.missingArgument "PUZZLE"))

end Details

def readHelp : List String → Ending
  | [] => .help
  | word :: rest =>
    if rest = [] ∧ ((Verb.ofWord? word).isSome ∨ word = "help") then .help
    else .misuse (.unknownCommand word)

def readFrom (preset : Option String) (verbosity : Nat) : List String → Except Ending Request
  | [] => .error (.misuse .missingCommand)
  | text :: rest =>
    match Argument.ofText text with
    | .escape => .error (.misuse (.unexpectedArgument text))
    | .word w =>
      match Verb.ofWord? w with
      | some v => do
        let details ← Details.read v { verbosity } rest
        return ⟨details.verbosity, ← details.command v preset⟩
      | none =>
        if w = "help" then .error (readHelp rest) else .error (.misuse (.unknownCommand w))
    | .short letters => do readFrom preset (← readLetters true verbosity letters) rest
    | .long "verbose" none => readFrom preset (verbosity + 1) rest
    | .long "help" none => .error .help
    | .long "version" none => .error .version
    | .long _ _ => .error (.misuse (.unexpectedArgument text))

def readArguments (preset : Option String) (arguments : List String) : Except Ending Request :=
  readFrom preset 0 arguments

end BlockMachine.CommandLine
