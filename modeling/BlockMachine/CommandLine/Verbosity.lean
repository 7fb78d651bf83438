namespace BlockMachine.CommandLine

inductive LogLevel where
  | warn | info | debug | trace
  deriving DecidableEq, Repr

namespace LogLevel

def ofCount : Nat → LogLevel
  | 0 => warn
  | 1 => info
  | 2 => debug
  | _ => trace

def name : LogLevel → String
  | warn => "warn"
  | info => "info"
  | debug => "debug"
  | trace => "trace"

end LogLevel

end BlockMachine.CommandLine
