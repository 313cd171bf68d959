import ForwardFlow.Proofs.Graph.Search
import ForwardFlow.Proofs.Solver.Input

namespace ForwardFlow

namespace Policy

theorem mem_insertByRank {order : BlockOrder} {b c : Block} {pending : List Block} :
    c ∈ insertByRank order b pending ↔ c = b ∨ c ∈ pending := by
  induction pending with
  | nil => simp [insertByRank]
  | cons d pending ih =>
    unfold insertByRank
    split
    · simp
    · simp [ih, or_left_comm]

theorem mem_enqueue {policy : Policy} {order : BlockOrder} {b c : Block} {pending : List Block} :
    c ∈ policy.enqueue order pending b ↔ c = b ∨ c ∈ pending := by
  unfold enqueue
  split
  · rename_i mem
    exact ⟨Or.inr, fun either => either.elim (· ▸ mem) id⟩
  · cases policy with
    | reversePostorder => exact mem_insertByRank
    | fifo => simp [or_comm]

theorem mem_foldl_enqueue {policy : Policy} {order : BlockOrder} {c : Block} {blocks pending : List Block} :
    c ∈ blocks.foldl (policy.enqueue order) pending ↔ c ∈ blocks ∨ c ∈ pending := by
  induction blocks generalizing pending with
  | nil => simp
  | cons b blocks ih => simp [ih, mem_enqueue, or_left_comm, or_assoc]

end Policy

theorem Exits.getElem?_insert {L : Type} (exits : Exits L) (b c : Block) (s : State L) :
    (exits.insert b s)[c]? = if b = c then some s else exits[c]? := by
  simp [Std.ExtTreeMap.getElem?_insert]

namespace Problem

variable {L : Type} [JoinLattice L]

/-- The state a visit would leave at the end of a block, from the state at its start. -/
def exitFrom (p : Problem L) (b : Block) (s : State L) : State L := p.pass.transferAll s (p.body.elements b)

theorem isNew_eq_false {exits : Exits L} {b : Block} {s : State L} :
    isNew exits b s = false ↔ ∃ old, exits[b]? = some old ∧ JoinLattice.equals old.lattice s.lattice = true := by
  unfold isNew
  cases exits[b]? with
  | none => simp
  | some old => simp

/-- All that a visit can do. A block no state arrives at is passed over; otherwise the state at its end is replaced, and
its successors become pending if the state is new. -/
theorem visit_cases (p : Problem L) (order : BlockOrder) (progress : Progress L) (b : Block) :
    (p.input progress.exits b = none ∧ p.visit order progress b = progress) ∨
      ∃ s, p.input progress.exits b = some s ∧
        (p.visit order progress b).exits = progress.exits.insert b (p.exitFrom b s) ∧
        ∀ c, c ∈ (p.visit order progress b).pending ↔
          c ∈ progress.pending ∨ isNew progress.exits b (p.exitFrom b s) = true ∧ c ∈ p.body.succs b := by
  unfold visit exitFrom
  cases p.input progress.exits b with
  | none => exact Or.inl ⟨rfl, rfl⟩
  | some s =>
    refine Or.inr ⟨s, rfl, rfl, fun c => ?_⟩
    dsimp only
    split
    · rename_i new
      rw [Policy.mem_foldl_enqueue, or_comm]
      simp [new]
    · rename_i old
      simp [old]

theorem visit_of_input (p : Problem L) (order : BlockOrder) (progress : Progress L) {b : Block} {s : State L}
    (arrived : p.input progress.exits b = some s) : p.visit order progress b =
      { exits := progress.exits.insert b (p.exitFrom b s)
        pending := if isNew progress.exits b (p.exitFrom b s) then
            (p.body.succs b).foldl (p.policy.enqueue order) progress.pending
          else progress.pending
        trail := progress.trail ++ [b] } := by
  rw [visit, arrived]
  rfl

inductive Stage (p : Problem L) : Progress L → Prop
  | start : Stage p { pending := p.order.toList }
  | next {progress b rest} : Stage p progress → progress.pending = b :: rest →
      Stage p (p.visit p.order { progress with pending := rest } b)

theorem Stage.of_iterate {p : Problem L} {steps : Nat} {progress last : Progress L} (stage : p.Stage progress)
    (done : p.iterate p.order steps progress = some last) : p.Stage last ∧ last.pending = [] := by
  induction steps generalizing progress with
  | zero =>
    simp only [iterate, Option.ite_none_right_eq_some, List.isEmpty_iff] at done
    obtain ⟨idle, same⟩ := done
    cases same
    exact ⟨stage, idle⟩
  | succ steps ih =>
    unfold iterate at done
    split at done
    · rename_i idle
      cases done
      exact ⟨stage, idle⟩
    · rename_i b rest pending
      exact ih (stage.next pending) done

/-- A run that has a result has checked its problem, and its last stage has nothing pending. -/
theorem solve_eq_ok {p : Problem L} {steps : Nat} {solution : Solution L} (run : p.solve steps = .ok solution) :
    p.error? = none ∧ ∃ last, p.Stage last ∧ last.pending = [] ∧ solution = ⟨last.exits, last.trail⟩ := by
  unfold solve at run
  split at run
  · cases run
  · rename_i fine
    dsimp only at run
    split at run
    · rename_i last done
      cases run
      obtain ⟨stage, idle⟩ := Stage.start.of_iterate done
      exact ⟨fine, last, stage, idle, rfl⟩
    · cases run

theorem exists_solution (p : Problem L) (steps : Nat) (test : Solution L → Bool)
    (passes : (p.solve steps).toOption.any test = true) :
    ∃ solution, p.solve steps = .ok solution ∧ test solution = true := by
  cases result : p.solve steps with
  | error e =>
    rw [result] at passes
    cases passes
  | ok solution =>
    rw [result] at passes
    exact ⟨solution, rfl, passes⟩

omit [JoinLattice L] in
theorem consistent_of_error? {p : Problem L} (fine : p.error? = none) : p.body.Consistent := by
  obtain ⟨graph, _⟩ := Option.or_eq_none_iff.mp fine
  exact Body.consistent_of_graphError? (Option.map_eq_none_iff.mp graph)

omit [JoinLattice L] in
theorem mem_order {p : Problem L} (ok : p.body.Consistent) {b : Block} : b ∈ p.order.toList ↔ p.body.Reaches b :=
  ok.mem_reversePostorder

end Problem

end ForwardFlow
