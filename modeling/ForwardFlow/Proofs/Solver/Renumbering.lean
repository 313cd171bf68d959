import ForwardFlow.Proofs.Graph.Renumbering
import ForwardFlow.Proofs.Program.BuiltText
import ForwardFlow.Proofs.Program.Checked
import ForwardFlow.Proofs.Solver.OnePass

namespace ForwardFlow

variable {σ : Equiv.Perm Block}

namespace Policy

variable {policy : Policy} {order order' : BlockOrder} {b : Block} {pending : List Block}

section Rank

variable (rank : ∀ b, order'.rank (σ b) = order.rank b)

include rank

theorem insertByRank_map : insertByRank order' (σ b) (pending.map σ) = (insertByRank order b pending).map σ := by
  induction pending with
  | nil => rfl
  | cons c pending ih =>
    rw [List.map_cons, insertByRank, insertByRank, rank, rank]
    split
    · rfl
    · rw [ih, List.map_cons]

theorem enqueue_map : policy.enqueue order' (pending.map σ) (σ b) = (policy.enqueue order pending b).map σ := by
  unfold enqueue
  by_cases waiting : b ∈ pending
  · rw [if_pos waiting, if_pos (List.mem_map_of_mem waiting)]
  · rw [if_neg waiting, if_neg (mt (List.mem_map_of_injective σ.injective).mp waiting)]
    cases policy with
    | reversePostorder => exact insertByRank_map rank
    | fifo =>
      dsimp only
      rw [List.map_append, List.map_singleton]

theorem foldl_enqueue_map {blocks : List Block} :
    (blocks.map σ).foldl (policy.enqueue order') (pending.map σ) =
      (blocks.foldl (policy.enqueue order) pending).map σ := by
  induction blocks generalizing pending with
  | nil => rfl
  | cons b blocks ih => rw [List.map_cons, List.foldl_cons, enqueue_map rank, ih, List.foldl_cons]

end Rank

end Policy

variable {L : Type}

/-- What was found at the end of each block is found under its other number. -/
def Exits.Renumbered (σ : Equiv.Perm Block) (exits others : Exits L) : Prop := ∀ b, others[σ b]? = exits[b]?

theorem Exits.Renumbered.insert {exits others : Exits L} (same : exits.Renumbered σ others) (b : Block)
    (s : State L) : Renumbered σ (exits.insert b s) (others.insert (σ b) s) := by
  intro c
  simp only [getElem?_insert, same c, EmbeddingLike.apply_eq_iff_eq]

/-- Two runs have come equally far, if the blocks of the first go by other numbers in the second. -/
structure Progress.Renumbered (σ : Equiv.Perm Block) (progress next : Progress L) : Prop where
  exits : progress.exits.Renumbered σ next.exits
  pending : next.pending = progress.pending.map σ
  trail : next.trail = progress.trail.map σ

/-- Two solutions were found by the same visits and are the same, if the blocks of the first go by other numbers in the
second. -/
structure Solution.Renumbered (σ : Equiv.Perm Block) (solution other : Solution L) : Prop where
  exits : solution.exits.Renumbered σ other.exits
  trail : other.trail = solution.trail.map σ

theorem Solution.Renumbered.visits_eq {solution other : Solution L} (same : solution.Renumbered σ other) :
    other.visits = solution.visits := by
  rw [visits, visits, same.trail, List.length_map]

/-- The same error, or results that are alike. -/
inductive SameOutcome {α β : Type} (alike : α → β → Prop) : Except RunError α → Except RunError β → Prop
  | error (e : RunError) : SameOutcome alike (.error e) (.error e)
  | ok {a : α} {b : β} (same : alike a b) : SameOutcome alike (.ok a) (.ok b)

theorem SameOutcome.map {α β γ δ : Type} {alike : α → β → Prop} {alike' : γ → δ → Prop} {f : α → γ} {g : β → δ}
    (kept : ∀ a b, alike a b → alike' (f a) (g b)) {x : Except RunError α} {y : Except RunError β}
    (same : SameOutcome alike x y) : SameOutcome alike' (x.map f) (y.map g) := by
  cases same with
  | error e => exact .error e
  | ok same => exact .ok (kept _ _ same)

variable [JoinLattice L]

namespace Problem

variable {p : Problem L} {other : Body} {exits others : Exits L}

section

variable (same : p.body.RenumberedBy σ other)

include same

theorem input_renumbered (alike : exits.Renumbered σ others) (b : Block) :
    ({ p with body := other } : Problem L).input others (σ b) = p.input exits b := by
  have joinExit (joined : Option (State L)) (q : Block) :
      ({ p with body := other } : Problem L).joinExit others joined (σ q) = p.joinExit exits joined q := by
    simp only [Problem.joinExit, alike q]
  have seed : (if σ b = other.entry then some ({ p with body := other } : Problem L).initial else none) =
      if b = p.body.entry then some p.initial else none := by
    simp only [same.entry, EmbeddingLike.apply_eq_iff_eq]
    rfl
  simp only [input, same.preds, List.foldl_map, joinExit, seed]

theorem visit_renumbered {order order' : BlockOrder} (rank : ∀ b, order'.rank (σ b) = order.rank b)
    {progress next : Progress L} (alike : progress.Renumbered σ next) (b : Block) :
    (p.visit order progress b).Renumbered σ (({ p with body := other } : Problem L).visit order' next (σ b)) := by
  have new (s : State L) : isNew next.exits (σ b) s = isNew progress.exits b s := by
    simp only [isNew, alike.exits b]
  unfold visit
  rw [input_renumbered same alike.exits]
  cases p.input progress.exits b with
  | none => exact alike
  | some s =>
    dsimp only
    rw [same.elements, same.succs, new, alike.pending, alike.trail]
    refine ⟨alike.exits.insert b _, ?_, by rw [List.map_append, List.map_singleton]⟩
    dsimp only
    -- A successor is put where its rank says, and the ranks are the old ones.
    split
    · exact Policy.foldl_enqueue_map rank
    · rfl

theorem iterate_renumbered {order order' : BlockOrder} (rank : ∀ b, order'.rank (σ b) = order.rank b) (steps : Nat)
    {progress next : Progress L} (alike : progress.Renumbered σ next) :
    Option.Rel (Progress.Renumbered σ) (p.iterate order steps progress)
      (({ p with body := other } : Problem L).iterate order' steps next) := by
  induction steps generalizing progress next with
  | zero =>
    simp only [iterate, alike.pending, List.isEmpty_map]
    split
    · exact .some alike
    · exact .none
  | succ steps ih =>
    unfold iterate
    rw [alike.pending]
    cases progress.pending with
    | nil => exact .some alike
    | cons b rest =>
      have behind : Progress.Renumbered σ { progress with pending := rest } { next with pending := rest.map σ } :=
        ⟨alike.exits, rfl, alike.trail⟩
      exact ih (visit_renumbered same rank behind b)

omit [JoinLattice L] in
theorem error?_renumbered (fine : p.error? = none) : ({ p with body := other } : Problem L).error? = none := by
  have uses := (Option.or_eq_none_iff.mp fine).2
  have graph := (same.consistent (consistent_of_error? fine)).graphError?_eq_none
  refine Option.or_eq_none_iff.mpr ⟨Option.map_eq_none_iff.mpr graph, ?_⟩
  rw [Knowledge.bodyError?_eq_none_iff] at uses ⊢
  intro b e mem
  obtain ⟨b, rfl⟩ := σ.surjective b
  exact uses b e (same.elements b ▸ mem)

omit [JoinLattice L] in
theorem toList_order_renumbered : ({ p with body := other } : Problem L).order.toList = p.order.toList.map σ :=
  same.reversePostorder_eq

omit [JoinLattice L] in
theorem rank_renumbered (fine : p.error? = none) (b : Block) :
    ({ p with body := other } : Problem L).order.rank (σ b) = p.order.rank b := by
  rw [order, same.reversePostorder_eq]
  exact BlockOrder.rank_map (consistent_of_error? fine).nodup_reversePostorder b

/-- A run of an accepted problem does not look at the numbers of the blocks. -/
theorem sameOutcome_solve (fine : p.error? = none) (steps : Nat) :
    SameOutcome (Solution.Renumbered σ) (p.solve steps) (({ p with body := other } : Problem L).solve steps) := by
  have start : Progress.Renumbered σ ({ pending := p.order.toList } : Progress L)
      { pending := ({ p with body := other } : Problem L).order.toList } :=
    ⟨fun b => rfl, toList_order_renumbered same, rfl⟩
  have run := iterate_renumbered same (rank_renumbered same fine) steps start
  unfold Problem.solve
  rw [fine, error?_renumbered same fine]
  dsimp only
  generalize p.iterate p.order steps _ = one at run ⊢
  generalize ({ p with body := other } : Problem L).iterate _ steps _ = two at run ⊢
  cases run with
  | none => exact .error _
  | some done => exact .ok ⟨done.exits, done.trail⟩

theorem blockViews_renumbered (alike : exits.Renumbered σ others) (b : Block) :
    ({ p with body := other } : Problem L).blockViews others (σ b) = p.blockViews exits b := by
  have views : ({ p with body := other } : Problem L).viewsFrom = p.viewsFrom := funext₂ (viewsFrom_congr rfl)
  simp only [blockViews, alike b, input_renumbered same alike, same.elements, views]

theorem replay_renumbered (alike : exits.Renumbered σ others) :
    ({ p with body := other } : Problem L).replay others = p.replay exits := by
  simp only [replay, toList_order_renumbered same, List.flatMap_map, blockViews_renumbered same alike]

end

end Problem

end ForwardFlow
