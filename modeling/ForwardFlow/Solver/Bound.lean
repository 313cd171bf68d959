import ForwardFlow.Program.Body

namespace ForwardFlow

/-- Enough visits for any policy if no lattice value of the analysis can rise more than `height` times: each block is
pending at first, and each rise at a block makes its successors pending again. -/
def Body.visitBound (body : Body) (height : Nat) : Nat := body.blocks.size + (height + 1) * body.edgeCount

end ForwardFlow
