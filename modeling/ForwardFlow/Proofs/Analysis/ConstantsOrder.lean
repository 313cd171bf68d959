import ForwardFlow.Proofs.Analysis.ConstantsSound

namespace ForwardFlow.Constants

variable {m n : Constants}

theorem operand_le_operand (below : m ≤ n) (o : Operand) : m.operand o ≤ n.operand o := by
  cases o with
  | lit literal => cases literal <;> exact le_rfl
  | var v =>
    dsimp only [operand]
    cases found : m.get? v with
    | none => exact Flat.bottom_le _
    | some a =>
      obtain ⟨b, found', le⟩ := below v a found
      rw [found']
      exact le

theorem eval_le_eval (below : m ≤ n) (source : Expr) : m.eval source ≤ n.eval source := by
  cases source with
  | use o => exact operand_le_operand below o
  | not o => exact le_rfl
  | call callee args => exact le_rfl
  | binary op l r =>
    have left : m.operand l ≤ n.operand l := operand_le_operand below l
    have right : m.operand r ≤ n.operand r := operand_le_operand below r
    dsimp only [eval]
    generalize m.operand l = a, n.operand l = a', m.operand r = b, n.operand r = b' at left right
    -- Where the right operand is missing, nothing comes out, whatever stands on the left.
    obtain rfl | rfl | rfl := right
    · cases a <;> exact Flat.bottom_le _
    · obtain rfl | rfl | rfl := left
      · exact Flat.bottom_le _
      · exact Flat.le_top _
      · cases a with
        | bottom => exact le_rfl
        | value _ => exact Flat.le_top _
        | top => exact Flat.le_top _
    · obtain rfl | rfl | rfl := left
      · exact Flat.bottom_le _
      · cases b with
        | bottom => cases a <;> exact Flat.bottom_le _
        | value _ => exact Flat.le_top _
        | top => exact Flat.le_top _
      · exact le_rfl

theorem act_mono (types : Var → Option Ty) (e : Element) : Monotone (act types e) := by
  intro m n below
  obtain ⟨target, source, writes⟩ | ⟨v, rfl⟩ | ⟨idle, inScope⟩ := e.writes_or_ends_or_idle
  · rw [act_of_write writes, act_of_write writes]
    split
    · exact Pointwise.insert_le_insert below (eval_le_eval below source)
    · exact below
  · exact Pointwise.erase_le_erase below
  · rw [act_of_idle idle inScope, act_of_idle idle inScope]
    exact below

end ForwardFlow.Constants
