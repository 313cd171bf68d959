import ForwardFlow.Proofs.Solver.OnePass

namespace ForwardFlow

namespace Body

open scoped Classical in
/-- Two bodies have the same entry, and the blocks that can be reached have the same elements in both, the same
successors, and the same predecessors but for those that cannot be reached. Other blocks may differ in every way. -/
structure SameReachable (body other : Body) : Prop where
  entry : other.entry = body.entry
  elements : ∀ {b}, body.Reaches b → other.elements b = body.elements b
  succs : ∀ {b}, body.Reaches b → other.succs b = body.succs b
  preds : ∀ {b}, body.Reaches b → (other.preds b).filter (body.Reaches ·) = (body.preds b).filter (body.Reaches ·)

namespace SameReachable

variable {body other : Body} {b : Block}

theorem reaches_iff (same : body.SameReachable other) : other.Reaches b ↔ body.Reaches b := by
  constructor
  · intro reach
    refine reach.closed (same.entry ▸ body.reaches_entry) fun a c _ here edge => ?_
    exact here.succ (same.succs here ▸ edge)
  · intro reach
    refine reach.closed (same.entry ▸ other.reaches_entry) fun a c reach here edge => ?_
    exact here.succ ((same.succs reach).symm ▸ edge)

open scoped Classical in
theorem symm (same : body.SameReachable other) : other.SameReachable body where
  entry := same.entry.symm
  elements reach := (same.elements (same.reaches_iff.mp reach)).symm
  succs reach := (same.succs (same.reaches_iff.mp reach)).symm
  preds reach := by
    have filter (l : List Block) : l.filter (other.Reaches ·) = l.filter (body.Reaches ·) :=
      List.filter_congr fun a _ => decide_eq_decide.mpr same.reaches_iff
    rw [filter, filter, same.preds (same.reaches_iff.mp reach)]

/-- A depth-first search does not look at blocks that cannot be reached, and is not cut off in either body. -/
theorem reversePostorder_eq (same : body.SameReachable other) (ok : body.Consistent) (ok' : other.Consistent) :
    other.reversePostorder = body.reversePostorder := by
  have inside : ∀ a ∈ body.reversePostorder, ∀ c ∈ body.succs a, c ∈ body.reversePostorder := fun a mem c edge =>
    ok.mem_reversePostorder.mpr ((ok.mem_reversePostorder.mp mem).succ edge)
  have agree : ∀ a ∈ body.reversePostorder, other.succs a = body.succs a := fun a mem =>
    same.succs (ok.mem_reversePostorder.mp mem)
  have entry : body.entry ∈ body.reversePostorder := ok.mem_reversePostorder.mpr body.reaches_entry
  have room : Search.missing body.reversePostorder ∅ ≤ body.blocks.size :=
    List.countP_le_length.trans ok.length_reversePostorder_le
  have room' : Search.missing body.reversePostorder ∅ ≤ other.blocks.size := by
    have fewer : body.reversePostorder ⊆ other.reversePostorder := fun a mem =>
      ok'.mem_reversePostorder.mpr (same.reaches_iff.mpr (ok.mem_reversePostorder.mp mem))
    have length := (ok.nodup_reversePostorder.subperm fewer).length_le
    exact List.countP_le_length.trans (length.trans ok'.length_reversePostorder_le)
  rw [reversePostorder, same.entry]
  exact congrArg Search.finished (Search.visit_congr inside agree entry room room')

end SameReachable

open scoped Classical in
/-- The blocks that can be reached are those of the reverse postorder, so whether two bodies agree on them can be
checked. -/
theorem Consistent.sameReachable {body other : Body} (ok : body.Consistent) (entry : other.entry = body.entry)
    (agree : ∀ b ∈ body.reversePostorder, other.elements b = body.elements b ∧ other.succs b = body.succs b ∧
      (other.preds b).filter (· ∈ body.reversePostorder) = (body.preds b).filter (· ∈ body.reversePostorder)) :
    body.SameReachable other where
  entry := entry
  elements reach := (agree _ (ok.mem_reversePostorder.mpr reach)).1
  succs reach := (agree _ (ok.mem_reversePostorder.mpr reach)).2.1
  preds reach := by
    have filter (l : List Block) : l.filter (body.Reaches ·) = l.filter (· ∈ body.reversePostorder) :=
      List.filter_congr fun a _ => decide_eq_decide.mpr ok.mem_reversePostorder.symm
    rw [filter, filter, (agree _ (ok.mem_reversePostorder.mpr reach)).2.2]

/-- The fork with other blocks beside it, which go round in a loop and lead into one of the two ways. -/
def forkBeside : Body where
  name := "fork"
  vars := .ofList [⟨"x", .int⟩, ⟨"y", .int⟩]
  entry := .slot 0
  blocks := .ofList [
    { elements := [.stmt (.assign (.slot 0) (.call "read" []))], succs := [.slot 1, .slot 2] },
    { elements := [.stmt (.assign (.slot 1) (.use (.var (.slot 0))))], preds := [.slot 3, .slot 0]
      succs := [.slot 4, .slot 4] },
    { elements := [.stmt (.assign (.slot 1) (.use (.lit (.int 7))))], preds := [.slot 0], succs := [.slot 4] },
    { elements := [.stmt (.assign (.slot 0) (.use (.lit (.int 1))))], preds := [.slot 5]
      succs := [.slot 1, .slot 5] },
    { elements := [.stmt (.eval (.use (.var (.slot 1))))], preds := [.slot 1, .slot 1, .slot 2] },
    { preds := [.slot 3], succs := [.slot 3] }]

end Body

namespace Problem

variable {L : Type} [JoinLattice L] {p : Problem L} {other : Body} {exits : Exits L} {b : Block}

/-- At the start of a reachable block, nothing arrives from a block that cannot be reached, as long as none was
visited. -/
theorem input_with_body (same : p.body.SameReachable other) (reach : p.body.Reaches b)
    (visited : ∀ c s, exits[c]? = some s → p.body.Reaches c) :
    ({ p with body := other } : Problem L).input exits b = p.input exits b := by
  classical
  have reachable (l : List Block) : (l.filter (p.body.Reaches ·)).filterMap (fun q => exits[q]?) =
      l.filterMap fun q => exits[q]? := by
    rw [List.filterMap_filter]
    refine List.filterMap_congr fun c _ => ?_
    cases found : exits[c]? with
    | none => exact ite_self none
    | some s => exact if_pos (decide_eq_true (visited c s found))
  have states : ({ p with body := other } : Problem L).meetingStates exits b = p.meetingStates exits b := by
    rw [meetingStates, meetingStates, same.entry, ← reachable (other.preds b), same.preds reach, reachable]
    rfl
  rw [input_eq_joinAll, input_eq_joinAll, states]

section Run

variable (same : p.body.SameReachable other) (ok : p.body.Consistent) (ok' : other.Consistent)

include same ok

/-- A visit finds and does the same in both bodies. -/
theorem Stage.visit_with_body {progress : Progress L} {rest : List Block} (stage : p.Stage progress)
    (pending : progress.pending = b :: rest) :
    ({ p with body := other } : Problem L).visit p.order { progress with pending := rest } b =
      p.visit p.order { progress with pending := rest } b := by
  obtain ⟨waiting, visited⟩ := stage.reaches ok
  have reach := waiting b (pending ▸ List.mem_cons_self)
  unfold visit
  rw [input_with_body same reach visited, same.elements reach, same.succs reach]

theorem Stage.iterate_with_body {steps : Nat} {progress : Progress L} (stage : p.Stage progress) :
    ({ p with body := other } : Problem L).iterate p.order steps progress = p.iterate p.order steps progress := by
  induction steps generalizing progress with
  | zero => rfl
  | succ steps ih =>
    cases pending : progress.pending with
    | nil => simp only [iterate, pending]
    | cons b rest =>
      simp only [iterate, pending]
      rw [stage.visit_with_body same ok pending, ih (stage.next pending)]

include ok'

omit [JoinLattice L] in
theorem order_with_body : ({ p with body := other } : Problem L).order = p.order :=
  congrArg BlockOrder.ofList (same.reversePostorder_eq ok ok')

theorem Stage.with_body {progress : Progress L} (stage : p.Stage progress) :
    ({ p with body := other } : Problem L).Stage progress := by
  have order := order_with_body (p := p) same ok ok'
  induction stage with
  | start => exact order ▸ .start
  | @next progress b rest stage pending ih =>
    have next := Stage.next ih pending
    rw [order, stage.visit_with_body same ok pending] at next
    exact next

end Run

theorem replay_with_body (same : p.body.SameReachable other) (ok : p.body.Consistent) (ok' : other.Consistent)
    (visited : ∀ c s, exits[c]? = some s → p.body.Reaches c) :
    ({ p with body := other } : Problem L).replay exits = p.replay exits := by
  unfold replay
  rw [order_with_body same ok ok']
  have views : ({ p with body := other } : Problem L).viewsFrom = p.viewsFrom := funext₂ (viewsFrom_congr rfl)
  refine List.flatMap_congr fun b mem => ?_
  have reach := (mem_order ok).mp mem
  simp only [blockViews, input_with_body same reach visited, same.elements reach, views]

/-- Blocks that cannot be reached have no influence. In two bodies that agree on the others, a run goes through the same
stages, makes the same visits, finds the same at the end of every block, and shows an observer the same. -/
theorem solve_with_body (same : p.body.SameReachable other) (fine : p.error? = none)
    (fine' : ({ p with body := other } : Problem L).error? = none) :
    (∀ progress, ({ p with body := other } : Problem L).Stage progress ↔ p.Stage progress) ∧
    ∀ steps, ({ p with body := other } : Problem L).solve steps = p.solve steps ∧
      ∀ observer, ({ p with body := other } : Problem L).observe steps observer = p.observe steps observer := by
  have ok := consistent_of_error? fine
  have ok' : other.Consistent := consistent_of_error? fine'
  have solve (steps : Nat) : ({ p with body := other } : Problem L).solve steps = p.solve steps := by
    have order := order_with_body same ok ok'
    have run : ({ p with body := other } : Problem L).iterate p.order steps { pending := p.order.toList } =
        p.iterate p.order steps { pending := p.order.toList } := Stage.start.iterate_with_body same ok
    simp only [Problem.solve, fine, fine', order, run]
  refine ⟨fun progress => ⟨fun stage => ?_, fun stage => stage.with_body same ok ok'⟩,
    fun steps => ⟨solve steps, fun observer => ?_⟩⟩
  · have back := stage.with_body same.symm ok' ok
    exact back
  · unfold observe
    rw [solve]
    cases run : p.solve steps with
    | error e => rfl
    | ok solution =>
      have replay := replay_with_body same ok ok' fun c s => reaches_of_visited run
      dsimp only
      rw [replay]

/-- What cannot be reached beside the fork does not show in a run. -/
theorem solve_with_body_fork :
    let p : Problem (Pointwise Var (MaySet String)) :=
      { body := .fork, pass := { analysis := .factsSeen, models := [.returns "read" (.int 3)] }, policy := .fifo }
    Body.fork.SameReachable .forkBeside ∧
      ∃ solution, p.solve 4 = .ok solution ∧ ({ p with body := .forkBeside } : Problem _).solve 4 = .ok solution := by
  intro p
  have fine : p.error? = none := by decide +kernel
  have fine' : ({ p with body := .forkBeside } : Problem _).error? = none := by decide +kernel
  have same : Body.fork.SameReachable .forkBeside :=
    (consistent_of_error? fine).sameReachable rfl (by decide +kernel)
  obtain ⟨solution, run, _⟩ := exists_solution p 4 (fun _ => true) (by decide +kernel)
  exact ⟨same, solution, run, ((solve_with_body same fine fine').2 4).1.trans run⟩

end Problem

end ForwardFlow
