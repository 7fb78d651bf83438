import BlockMachine.CommandLine.Arguments
import BlockMachine.Session
import BlockMachine.Source.Compile
import BlockMachine.Text.Column

namespace BlockMachine.CommandLine

open Text

structure Response where
  exitCode : Nat
  stdout : String
  stderr : String := ""
  deriving DecidableEq, Repr

def lines (texts : List String) : String := String.join (texts.map (· ++ "\n"))

namespace Response

def done (stdout : String) : Response := ⟨0, stdout, ""⟩

def failed (stdout : String) (messages : List String) : Response := ⟨1, stdout, lines messages⟩

def misused (e : UsageError) : Response := ⟨2, "", lines [e.message]⟩

end Response

def versionText : String := lines ["inbox_outbox 0.1.0"]

def helpText : String :=
  lines ["Usage: inbox-outbox [-v] list",
    "       inbox-outbox [-v] show PUZZLE",
    "       inbox-outbox [-v] run PUZZLE PROGRAM [--max-steps N] [--step]"]

def catalogText (puzzles : List Puzzle) : String :=
  lines (puzzles.map fun p => padRight 12 p.id ++ " " ++ p.name)

def puzzleText (p : Puzzle) : String :=
  lines <|
    [p.name, "", p.description, "inbox:    " ++ bracketed p.initialInbox,
      "expected: " ++ bracketed p.expectedOutbox] ++
    (p.par.map fun n => s!"par:      {n} steps").toList ++
    (p.hint.map fun h => "hint:     " ++ h).toList

def stateRow (s : Session) : String :=
  let current := (s.current?.map Instruction.text).getD "-"
  let accumulator := (s.state.accumulator.map toString).getD "-"
  "#" ++ padRight 5 (toString s.state.stepCount) ++
    " pc " ++ padRight 3 (toString s.state.pc) ++
    " " ++ padRight 24 current ++
    " acc " ++ padRight 6 accumulator ++
    " in " ++ bracketed s.state.inbox ++
    " out " ++ bracketed s.state.outbox ++
    " mem " ++ bracketed s.cells

def verdictText (s : Session) : String :=
  lines [s.verdict.message,
    s!"steps: {s.state.stepCount}, memory cells used: {s.state.memory.used}"]

def conclude (rows : String) (answer : Except Overflow Bool) (s : Session) : Response :=
  match answer with
  | .error e => .failed rows [e.message]
  | .ok _ =>
    if s.succeeded then .done (rows ++ verdictText s) else .failed (rows ++ verdictText s) []

def execute (stepwise : Bool) (s : Session) : Response :=
  if stepwise then
    let walk := s.walk
    conclude (lines (walk.seen.map stateRow)) walk.answer walk.last
  else
    let (answer, last) := s.run
    conclude "" answer last

def diagnostics : Source.CompileError → List String
  | .unreadable e => [s!"{e.span.start}..{e.span.stop}: {e.fault.message}"]
  | .malformed errors =>
    errors.map fun e => s!"{e.span.start}..{e.span.stop}: {e.fault.message}"

/-- The text is decoded before the puzzle is looked up, and compiled after that. -/
def runFile (puzzle program : String) (limit : Nat) (stepwise : Bool)
    (contents : Option ByteArray) : Response :=
  match contents.bind String.fromUTF8? with
  | none => .failed "" [s!"couldn't read {program}"]
  | some source =>
    match Session.ofId? puzzle with
    | none => .failed "" [Catalog.unknownMessage puzzle]
    | some session =>
      match Source.compile source with
      | .error e => .failed "" (diagnostics e ++ [e.message])
      | .ok blocks => execute stepwise ((session.withMaxSteps limit).setBlocks blocks)

def Command.file? : Command → Option String
  | run _ program _ _ => some program
  | _ => none

def Command.response (read : String → Option ByteArray) : Command → Response
  | list => .done (catalogText Catalog.puzzles)
  | describe id =>
    match Catalog.find? id with
    | none => .failed "" [Catalog.unknownMessage id]
    | some p => .done (puzzleText p)
  | run puzzle program limit stepwise => runFile puzzle program limit stepwise (read program)

def respond (read : String → Option ByteArray) : Except Ending Request → Response
  | .ok request => request.command.response read
  | .error .help => .done helpText
  | .error .version => .done versionText
  | .error (.misuse e) => .misused e

end BlockMachine.CommandLine
