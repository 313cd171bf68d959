import ForwardFlow.Analysis.Samples
import ForwardFlow.Proofs.Solver.Arrival
import ForwardFlow.Proofs.Solver.Replay
import ForwardFlow.Proofs.Solver.Settled

namespace ForwardFlow

theorem Policy.foldl_enqueue_eq_self {policy : Policy} {order : BlockOrder} {blocks pending : List Block}
    (waiting : ∀ c ∈ blocks, c ∈ pending) : blocks.foldl (policy.enqueue order) pending = pending := by
  induction blocks with
  | nil => rfl
  | cons b blocks ih =>
    have first : policy.enqueue order pending b = pending := if_pos (waiting b List.mem_cons_self)
    rw [List.foldl_cons, first]
    exact ih fun c mem => waiting c (List.mem_cons_of_mem b mem)

/-- The join of some states, from the first one to the last. -/
def Pass.joinAll {L : Type} [JoinLattice L] (pass : Pass L) : List (State L) → Option (State L)
  | [] => none
  | s :: rest => some (rest.foldl pass.join s)

namespace Problem

variable {L : Type} [JoinLattice L] {p : Problem L}

omit [JoinLattice L] in
/-- The states that meet at the start of a block: the initial one if the block is the entry, and those at the ends of
its visited predecessors in listed order. -/
def meetingStates (p : Problem L) (exits : Exits L) (b : Block) : List (State L) :=
  (if b = p.body.entry then [p.initial] else []) ++ (p.body.preds b).filterMap fun q => exits[q]?

theorem foldl_joinExit_eq_joinAll (exits : Exits L) (preds : List Block) (joined : Option (State L)) :
    preds.foldl (p.joinExit exits) joined = p.pass.joinAll (joined.toList ++ preds.filterMap fun q => exits[q]?) := by
  induction preds generalizing joined with
  | nil => cases joined <;> rfl
  | cons q preds ih =>
    rw [List.foldl_cons, ih]
    cases atQ : exits[q]? with
    | none => rw [joinExit_of_none atQ, List.filterMap_cons_none atQ]
    | some u =>
      rw [List.filterMap_cons_some atQ]
      cases joined with
      | none => rw [joinExit_none_of_some atQ]; rfl
      | some s => rw [joinExit_some_of_some atQ]; rfl

theorem input_eq_joinAll (exits : Exits L) (b : Block) :
    p.input exits b = p.pass.joinAll (p.meetingStates exits b) := by
  rw [input, foldl_joinExit_eq_joinAll, meetingStates]
  split <;> rfl

/-- The states that one visit to each of some blocks leaves at their ends. -/
def sweep (p : Problem L) (blocks : List Block) : Exits L :=
  blocks.foldl (fun exits b => (p.input exits b).elim exits fun s => exits.insert b (p.exitFrom b s)) ∅

theorem sweep_snoc (p : Problem L) (blocks : List Block) {b : Block} {s : State L}
    (arrived : p.input (p.sweep blocks) b = some s) :
    p.sweep (blocks ++ [b]) = (p.sweep blocks).insert b (p.exitFrom b s) := by
  rw [sweep, List.foldl_append, List.foldl_cons, List.foldl_nil, ← sweep, arrived, Option.elim_some]

variable {progress : Progress L} {b : Block} {rest : List Block}

/-- The visits a run has made tell all that it has found out. -/
theorem Stage.exits_eq_sweep (ok : p.body.Consistent) (stage : p.Stage progress) :
    progress.exits = p.sweep progress.trail := by
  induction stage with
  | start => rfl
  | @next progress a rest stage pending ih =>
    obtain ⟨s, arrived⟩ := stage.exists_input ok pending
    rw [p.visit_of_input p.order { progress with pending := rest } arrived]
    dsimp only
    rw [p.sweep_snoc progress.trail (ih ▸ arrived), ih]

theorem Stage.mem_trail (ok : p.body.Consistent) (stage : p.Stage progress) {t : State L}
    (found : progress.exits[b]? = some t) : b ∈ progress.trail := by
  induction stage generalizing t with
  | start => simp at found
  | @next progress a rest stage pending ih =>
    obtain ⟨s, arrived⟩ := stage.exists_input ok pending
    rw [p.visit_of_input p.order { progress with pending := rest } arrived] at found ⊢
    dsimp only at found ⊢
    rw [Exits.getElem?_insert] at found
    split at found
    · rename_i here
      exact List.mem_append_right _ (List.mem_singleton.mpr here.symm)
    · exact List.mem_append_left _ (ih found)

section Acyclic

variable (ok : p.body.Consistent) (acyclic : p.body.Acyclic)

include ok acyclic

/-- Without cycles, a visit makes no block pending that is not pending already: all successors of the block come later
in reverse postorder. -/
theorem Stage.visit_of_split (stage : p.Stage progress) (pending : progress.pending = b :: rest)
    (split : progress.trail ++ progress.pending = p.body.reversePostorder) :
    ∃ s, p.visit p.order { progress with pending := rest } b =
      ⟨progress.exits.insert b (p.exitFrom b s), rest, progress.trail ++ [b]⟩ := by
  obtain ⟨s, arrived⟩ := stage.exists_input ok pending
  rw [pending] at split
  have waiting : ∀ c ∈ p.body.succs b, c ∈ rest := fun c edge => acyclic.mem_later ok split.symm edge
  refine ⟨s, ?_⟩
  rw [p.visit_of_input p.order { progress with pending := rest } arrived]
  dsimp only
  rw [Policy.foldl_enqueue_eq_self waiting, ite_self]

/-- The visits made and the pending blocks are always the whole order. -/
theorem Stage.trail_append_pending (stage : p.Stage progress) :
    progress.trail ++ progress.pending = p.body.reversePostorder := by
  induction stage with
  | start => rfl
  | @next progress a rest stage pending ih =>
    obtain ⟨s, visit⟩ := stage.visit_of_split ok acyclic pending ih
    rw [visit, List.append_assoc, List.singleton_append, ← pending, ih]

theorem Stage.exists_iterate_of_length {steps : Nat} (stage : p.Stage progress)
    (enough : progress.pending.length ≤ steps) : ∃ last, p.iterate p.order steps progress = some last := by
  induction steps generalizing progress with
  | zero =>
    have idle := List.length_eq_zero_iff.mp (Nat.le_zero.mp enough)
    exact ⟨progress, by simp only [iterate, idle, List.isEmpty_nil, if_true]⟩
  | succ steps ih =>
    cases pending : progress.pending with
    | nil => exact ⟨progress, by simp only [iterate, pending]⟩
    | cons b rest =>
      obtain ⟨s, visit⟩ := stage.visit_of_split ok acyclic pending (stage.trail_append_pending ok acyclic)
      rw [pending, List.length_cons] at enough
      obtain ⟨last, done⟩ := ih (stage.next pending) (by rw [visit]; exact Nat.le_of_succ_le_succ enough)
      exact ⟨last, by simp only [iterate, pending, done]⟩

/-- No block is visited twice, so nothing changes behind the back of the lattice. -/
theorem not_drifts_of_acyclic {E : State L → State L → Prop} (a : Block) : ¬p.Drifts E a := by
  rintro ⟨progress, rest, old, _, stage, pending, found, _⟩
  have distinct := ok.nodup_reversePostorder
  rw [← stage.trail_append_pending ok acyclic, pending] at distinct
  exact (List.nodup_append.mp distinct).2.2 a (stage.mem_trail ok found) a List.mem_cons_self rfl

end Acyclic

theorem solve_of_acyclic (fine : p.error? = none) (acyclic : p.body.Acyclic) {steps : Nat}
    (enough : p.body.reversePostorder.length ≤ steps) :
    p.solve steps = .ok ⟨p.sweep p.body.reversePostorder, p.body.reversePostorder⟩ := by
  have ok := consistent_of_error? fine
  obtain ⟨last, done⟩ := Stage.start.exists_iterate_of_length ok acyclic enough
  obtain ⟨stage, idle⟩ := Stage.start.of_iterate done
  have all : last.trail = p.body.reversePostorder := by
    rw [← stage.trail_append_pending ok acyclic, idle, List.append_nil]
  simp only [solve, fine, done, stage.exits_eq_sweep ok, all]

theorem settled_of_acyclic (acyclic : p.body.Acyclic) {steps : Nat} {solution : Solution L}
    (run : p.solve steps = .ok solution) (reach : p.body.Reaches b) : p.Settled Eq solution.exits b := by
  obtain ⟨fine, last, stage, idle, rfl⟩ := solve_eq_ok run
  have ok := consistent_of_error? fine
  obtain ⟨t, found⟩ := stage.visited_of_idle ok idle reach
  obtain settled | ⟨a, _, drifts⟩ := stage.settled_or_drifts ok Pass.respects_eq rfl found (by simp [idle])
  · exact settled
  · exact absurd drifts (not_drifts_of_acyclic ok acyclic a)

omit [JoinLattice L] in
/-- What is seen inside a block depends on the pass, and on nothing else of the problem. -/
theorem viewsFrom_congr {q : Problem L} (same : q.pass = p.pass) (s : State L) (elements : List Element) :
    q.viewsFrom s elements = p.viewsFrom s elements := by
  induction elements generalizing s with
  | nil => rfl
  | cons e elements ih => rw [viewsFrom, viewsFrom, same, ih]

theorem blockViews_with_policy (p : Problem L) (policy : Policy) (exits : Exits L) :
    ({ p with policy } : Problem L).blockViews exits = p.blockViews exits := by
  funext b
  have input : ({ p with policy } : Problem L).input exits b = p.input exits b := rfl
  have views : ({ p with policy } : Problem L).viewsFrom = p.viewsFrom := funext₂ (viewsFrom_congr rfl)
  simp only [blockViews, input, views]

/-- The replay does not depend on the policy. -/
theorem replay_with_policy (p : Problem L) (policy : Policy) (exits : Exits L) :
    ({ p with policy } : Problem L).replay exits = p.replay exits := by
  rw [replay, blockViews_with_policy]
  rfl

/-- Without cycles, a run makes one visit to each reachable block, in reverse postorder, and both policies find the
same. Whatever the analysis does, what is found at the end of a block is what its elements make of the states that meet
at its start, and it is the last that an observer is shown of the block. -/
theorem solve_acyclic (fine : p.error? = none) (acyclic : p.body.Acyclic) :
    p.body.reversePostorder.Nodup ∧ (∀ b, b ∈ p.body.reversePostorder ↔ p.body.Reaches b) ∧
    ∃ solution : Solution L,
      (∀ policy steps, p.body.reversePostorder.length ≤ steps →
        ({ p with policy } : Problem L).solve steps = .ok solution) ∧
      solution.trail = p.body.reversePostorder ∧ solution.visits = p.body.reversePostorder.length ∧
      (∀ b, (∃ t, solution.exits[b]? = some t) ↔ p.body.Reaches b) ∧
      (∀ b, p.body.Reaches b → ∃ s, p.pass.joinAll (p.meetingStates solution.exits b) = some s ∧
        solution.exits[b]? = some (p.pass.transferAll s (p.body.elements b)) ∧
        (p.blockViews solution.exits b).map View.element = p.body.elements b ∧
        ∀ view ∈ (p.blockViews solution.exits b).getLast?, solution.exits[b]? = some view.state) ∧
      ∀ policy steps observer, p.body.reversePostorder.length ≤ steps →
        observer.Accepts (p.replay solution.exits) →
        ({ p with policy } : Problem L).observe steps observer =
          (p.body.reversePostorder.flatMap (p.blockViews solution.exits), .ok solution) := by
  have ok := consistent_of_error? fine
  have runs (policy : Policy) (steps : Nat) (enough : p.body.reversePostorder.length ≤ steps) :
      ({ p with policy } : Problem L).solve steps =
        .ok ⟨p.sweep p.body.reversePostorder, p.body.reversePostorder⟩ :=
    solve_of_acyclic (p := { p with policy }) fine acyclic enough
  have run := runs p.policy _ le_rfl
  refine ⟨ok.nodup_reversePostorder, fun b => ok.mem_reversePostorder, _, runs, rfl, rfl, fun b => ?_, ?_, ?_⟩
  · exact ⟨fun ⟨t, found⟩ => reaches_of_visited run found, visited_of_reaches run⟩
  · intro b reach
    obtain ⟨s, t, arrived, found, settled⟩ := settled_of_acyclic acyclic run reach
    rw [← settled] at found
    rw [blockViews_of_input arrived found]
    refine ⟨s, (input_eq_joinAll _ b).symm.trans arrived, found, p.map_element_viewsFrom s _, fun view last => ?_⟩
    rw [state_of_getLast?_viewsFrom last]
    exact found
  · intro policy steps observer enough accepts
    rw [← blockViews_with_policy p policy]
    exact observe_eq_of_accepts (runs policy steps enough) (p.replay_with_policy policy _ ▸ accepts)

/-- An analysis that keeps what is known of the variables, with a merger that prefers what was found first, visits four
blocks of the fork under either policy. -/
theorem solve_acyclic_fork :
    let pass : Pass (Pointwise Var (MaySet String)) :=
      { analysis := { Analysis.factsSeen with merge := Merger.left }, models := [.returns "read" (.int 3)] }
    ∃ solution : Solution (Pointwise Var (MaySet String)),
      (∀ policy, Problem.solve { body := .fork, pass, policy } 4 = .ok solution) ∧ solution.visits = 4 := by
  intro pass
  have length : Body.fork.reversePostorder.length = 4 := by decide +kernel
  obtain ⟨_, _, solution, runs, _, visits, _⟩ :=
    solve_acyclic (p := { body := .fork, pass }) (by decide +kernel) Body.fork_acyclic
  exact ⟨solution, fun policy => runs policy 4 length.le, visits.trans length⟩

end Problem

end ForwardFlow
