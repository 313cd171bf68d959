import ForwardFlow.SideTable
import ForwardFlow.Program.Body

namespace ForwardFlow

/-- A sequence of blocks, and the position of each block in it. -/
structure BlockOrder where
  blocks : Table .position Block
  place : SideTable .block (Option Position)

namespace BlockOrder

def ofList (l : List Block) : BlockOrder :=
  let blocks : Table .position Block := .ofList l
  ⟨blocks, blocks.toPairs.foldl (fun place (p, b) => place.set b (some p)) ∅⟩

def toList (order : BlockOrder) : List Block := order.blocks.toList

def position? (order : BlockOrder) (b : Block) : Option Position := order.place.get b

def contains (order : BlockOrder) (b : Block) : Bool := (order.position? b).isSome

/-- The number of a block's position. Blocks outside the order come after all others. -/
def rank (order : BlockOrder) (b : Block) : Nat := (order.position? b).elim order.blocks.size Index.number

end BlockOrder

end ForwardFlow
