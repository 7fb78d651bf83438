namespace BlockMachine

structure Puzzle where
  id : String := ""
  name : String := ""
  description : String := ""
  initialInbox : List Int := []
  expectedOutbox : List Int := []
  memorySize : Nat := 0
  par : Option Nat := none
  hint : Option String := none
  deriving DecidableEq, Repr

def Puzzle.isSolvedBy (p : Puzzle) (outbox : List Int) : Bool := p.expectedOutbox == outbox

end BlockMachine
