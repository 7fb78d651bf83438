import BlockMachine.Proofs.Machine.Steps
import BlockMachine.Proofs.Program.Addressing

namespace BlockMachine

namespace Machine

variable {m : Machine}

/-- Zero less the least number is one too large, though neither of the two is. -/
example : (after 3 (fresh (.ofList [⟨0, .inbox, none⟩, ⟨1, .copyTo 7, none⟩,
    ⟨2, .copyFrom 0, none⟩, ⟨3, .sub 7, none⟩]) 9 [-9223372036854775808])).step.1 =
      .error ⟨.sub, 3, 0, -9223372036854775808⟩ := by cbv

end Machine

end BlockMachine
