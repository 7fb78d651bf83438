import BlockMachine.Puzzle

namespace BlockMachine.Catalog

def helloWorld : Puzzle where
  id := "hello-world"
  name := "Hello World"
  description := "Copy each item from INBOX to OUTBOX"
  initialInbox := [1, 2, 3]
  expectedOutbox := [1, 2, 3]
  memorySize := 5
  par := some 9
  hint := some "Use INBOX and OUTBOX blocks in sequence"

def addOne : Puzzle where
  id := "add-one"
  name := "Add One"
  description := "Read a number, add 1, and output it"
  initialInbox := [5]
  expectedOutbox := [6]
  memorySize := 5
  par := some 12
  hint := some "Use ADD block after reading input"

def sumAll : Puzzle where
  id := "sum-all"
  name := "Sum All"
  description := "Read all numbers and output their sum"
  initialInbox := [1, 2, 3, 4, 5]
  expectedOutbox := [15]
  memorySize := 5
  par := some 30
  hint := some "You'll need a loop using JUMP blocks"

def negate : Puzzle where
  id := "negate"
  name := "Negate"
  description := "Read a number and output its negative"
  initialInbox := [7]
  expectedOutbox := [-7]
  memorySize := 5
  par := some 15
  hint := some "SUB from zero"

def puzzles : List Puzzle := [helloWorld, addOne, sumAll, negate]

def find? (id : String) : Option Puzzle := puzzles.find? (·.id == id)

def unknownMessage (id : String) : String := s!"there's no puzzle called `{id}`"

end BlockMachine.Catalog
