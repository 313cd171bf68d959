import ForwardFlow.Analysis.Constants
import ForwardFlow.Proofs.Graph.Postorder
import ForwardFlow.Proofs.Solver.Visited

namespace ForwardFlow

namespace Policy

variable {policy : Policy} {order : BlockOrder} {test : Block → Bool} {b : Block} {pending blocks : List Block}

theorem filter_insertByRank (fails : test b = false) :
    (insertByRank order b pending).filter test = pending.filter test := by
  induction pending with
  | nil => simp [insertByRank, fails]
  | cons c pending ih =>
    unfold insertByRank
    split
    · rw [List.filter_cons_of_neg (by simp [fails])]
    · rw [List.filter_cons, List.filter_cons, ih]

theorem filter_enqueue (known : b ∈ pending ∨ test b = false) :
    (policy.enqueue order pending b).filter test = pending.filter test := by
  unfold enqueue
  split
  · rfl
  · rename_i new
    have fails := known.resolve_left new
    cases policy with
    | reversePostorder => exact filter_insertByRank fails
    | fifo => simp [fails]

/-- Whatever the policy, blocks that are made pending do not change the order of the others. -/
theorem filter_foldl_enqueue (known : ∀ c ∈ blocks, c ∈ pending ∨ test c = false) :
    (blocks.foldl (policy.enqueue order) pending).filter test = pending.filter test := by
  induction blocks generalizing pending with
  | nil => rfl
  | cons b blocks ih =>
    have first : (policy.enqueue order pending b).filter test = pending.filter test :=
      filter_enqueue (known b List.mem_cons_self)
    rw [List.foldl_cons, ← first]
    refine ih fun c mem => (known c (List.mem_cons_of_mem b mem)).imp_left fun waiting => ?_
    exact mem_enqueue.mpr (Or.inr waiting)

end Policy

/-- Whether a block still waits for its first visit. -/
def Exits.unvisited {L : Type} (exits : Exits L) (b : Block) : Bool := exits[b]?.isNone

theorem Exits.unvisited_insert {L : Type} (exits : Exits L) (a b : Block) (s : State L) :
    unvisited (exits.insert a s) b = (a != b && exits.unvisited b) := by
  unfold unvisited
  rw [getElem?_insert]
  by_cases same : a = b <;> simp [same]

namespace Problem

variable {L : Type} [JoinLattice L] {p : Problem L} {progress : Progress L} {b : Block} {rest : List Block}

omit [JoinLattice L] in
/-- When the blocks that wait for their first visit still stand in their original order, something meets at the first of
them: the block it was found from stands before it, and so was visited. -/
theorem exists_meets_of_first (ok : p.body.Consistent) {exits : Exits L}
    (waiting : (b :: rest).filter exits.unvisited = p.order.toList.filter exits.unvisited) (reach : p.body.Reaches b)
    (new : exits.unvisited b = true) : ∃ t, p.Meets exits b t := by
  by_cases entry : b = p.body.entry
  · exact ⟨p.initial, Or.inl ⟨entry, rfl⟩⟩
  obtain ⟨a, before, edge⟩ := ok.exists_earlier reach entry
  cases atA : exits[a]? with
  | some u => exact ⟨u, Or.inr ⟨a, ok.mem_preds_iff.mpr edge, atA⟩⟩
  | none =>
    have new' : exits.unvisited a = true := by rw [Exits.unvisited, atA, Option.isNone_none]
    have distinct : (p.order.toList.filter exits.unvisited).Nodup := ok.nodup_reversePostorder.filter _
    have both : [a, b].Sublist (p.order.toList.filter exits.unvisited) := by
      have kept := before.filter exits.unvisited
      rwa [List.filter_cons_of_pos new', List.filter_cons_of_pos new, List.filter_nil] at kept
    rw [← waiting, List.filter_cons_of_pos new] at distinct both
    have later : b ∈ rest.filter exits.unvisited := by
      cases both with
      | cons _ behind => exact behind.subset (List.mem_cons_of_mem a List.mem_cons_self)
      | cons_cons _ behind => exact List.singleton_sublist.mp behind
    exact absurd later (List.nodup_cons.mp distinct).1

theorem Stage.exists_input_of_filter (ok : p.body.Consistent) (stage : p.Stage progress)
    (waiting : progress.pending.filter progress.exits.unvisited = p.order.toList.filter progress.exits.unvisited)
    (pending : progress.pending = b :: rest) : ∃ s, p.input progress.exits b = some s := by
  have meets : ∃ t, p.Meets progress.exits b t := by
    cases new : progress.exits.unvisited b with
    | true =>
      have reach := (stage.reaches ok).1 b (pending ▸ List.mem_cons_self)
      exact exists_meets_of_first ok (pending ▸ waiting) reach new
    | false =>
      obtain ⟨t, found⟩ := Option.isSome_iff_exists.mp (Option.isNone_eq_false_iff.mp new)
      exact stage.meets_of_visited found
  obtain ⟨t, meets⟩ := meets
  exact exists_input_of_meets meets

/-- Under either policy, the blocks that wait for their first visit stand in reverse postorder among the pending ones: a
block that is made pending again comes between them, but was visited before. -/
theorem Stage.filter_pending (ok : p.body.Consistent) (stage : p.Stage progress) :
    progress.pending.filter progress.exits.unvisited = p.order.toList.filter progress.exits.unvisited := by
  induction stage with
  | start => rfl
  | @next progress a rest stage pending ih =>
    obtain ⟨s, arrived⟩ := stage.exists_input_of_filter ok ih pending
    rw [p.visit_of_input p.order { progress with pending := rest } arrived]
    dsimp only
    have now := Exits.unvisited_insert progress.exits a (s := p.exitFrom a s)
    generalize Exits.unvisited (progress.exits.insert a (p.exitFrom a s)) = unvisited at now ⊢
    have visited : unvisited a = false := by rw [now, bne_self_eq_false, Bool.false_and]
    have fewer (l : List Block) : l.filter unvisited = (l.filter progress.exits.unvisited).filter unvisited := by
      rw [List.filter_filter]
      refine List.filter_congr fun b _ => ?_
      rw [now, Bool.and_assoc, Bool.and_self]
    have others : rest.filter unvisited = p.order.toList.filter unvisited := by
      rw [fewer p.order.toList, ← ih, ← fewer, pending, List.filter_cons_of_neg (by simp [visited])]
    split
    · rw [← others]
      refine Policy.filter_foldl_enqueue fun c edge => ?_
      cases new : unvisited c with
      | false => exact Or.inr rfl
      | true =>
        have reach := ((stage.reaches ok).1 a (pending ▸ List.mem_cons_self)).succ edge
        have listed := List.mem_filter.mpr ⟨(mem_order ok).mpr reach, new⟩
        exact Or.inl (List.mem_filter.mp (others ▸ listed)).1
    · exact others

/-- A state arrives at every block that is taken up. -/
theorem Stage.exists_input (ok : p.body.Consistent) (stage : p.Stage progress)
    (pending : progress.pending = b :: rest) : ∃ s, p.input progress.exits b = some s :=
  stage.exists_input_of_filter ok (stage.filter_pending ok) pending

/-- Every block that is taken up is reachable and has a state arrive at it, also when a run does not come to its end.
At its end the visited blocks are the reachable ones, and the replay passes none of them over. -/
theorem visited_iff_reaches (fine : p.error? = none) :
    (∀ progress b rest, p.Stage progress → progress.pending = b :: rest →
      p.body.Reaches b ∧ ∃ s, p.input progress.exits b = some s) ∧
    ∀ steps solution, p.solve steps = .ok solution →
      (∀ b, (∃ t, solution.exits[b]? = some t) ↔ p.body.Reaches b) ∧
      ∀ b ∈ p.order.toList, ∃ s t, p.input solution.exits b = some s ∧ solution.exits[b]? = some t ∧
        p.blockViews solution.exits b = p.viewsFrom s (p.body.elements b) := by
  have ok := consistent_of_error? fine
  constructor
  · intro progress b rest stage pending
    exact ⟨(stage.reaches ok).1 b (pending ▸ List.mem_cons_self), stage.exists_input ok pending⟩
  · intro steps solution run
    refine ⟨fun b => ⟨fun ⟨t, found⟩ => reaches_of_visited run found, visited_of_reaches run⟩, fun b listed => ?_⟩
    obtain ⟨s, t, arrived, found⟩ := exists_input_of_reaches run ((mem_order ok).mp listed)
    exact ⟨s, t, arrived, found, blockViews_of_input arrived found⟩

/-- Oldest first, each of the four blocks of the loop that counts is visited. -/
theorem visited_iff_reaches_countingLoop : ∃ solution,
    Problem.solve { body := .countingLoop, pass := { analysis := Analysis.constants }, policy := .fifo } 20 =
        .ok solution ∧
      ∀ b, (∃ t, solution.exits[b]? = some t) ↔ Body.countingLoop.Reaches b := by
  obtain ⟨solution, run, _⟩ := exists_solution
    { body := .countingLoop, pass := { analysis := Analysis.constants }, policy := .fifo } 20 (fun _ => true)
    (by decide +kernel)
  have visited := (visited_iff_reaches (solve_eq_ok run).1).2 20 solution run
  exact ⟨solution, run, visited.1⟩

end Problem

end ForwardFlow
