import ForwardFlow.Proofs.Graph.Postorder
import ForwardFlow.Proofs.Graph.Stack
import ForwardFlow.Proofs.Results

namespace ForwardFlow

/-- A depth-first search, which takes the blocks of a list in turn. A block that was visited before is passed over. Any
other block is visited, the search goes on with its successors, and after them the block is finished. A search leads
from the blocks visited before it to those visited after it, and finishes some in a certain order, the first one
first. -/
inductive DepthFirst (succs : Block → List Block) :
    Std.ExtTreeSet Block → List Block → Std.ExtTreeSet Block → List Block → Prop
  | nil {visited} : DepthFirst succs visited [] visited []
  | pass {visited b rest after order} : b ∈ visited → DepthFirst succs visited rest after order →
      DepthFirst succs visited (b :: rest) after order
  | visit {visited b rest inside after inner order} : b ∉ visited →
      DepthFirst succs (visited.insert b) (succs b) inside inner → DepthFirst succs inside rest after order →
      DepthFirst succs visited (b :: rest) after (inner ++ b :: order)

namespace DepthFirst

variable {succs : Block → List Block} {visited after : Std.ExtTreeSet Block} {roots order : List Block}

/-- Nothing is left to choice. -/
theorem unique {after' : Std.ExtTreeSet Block} {order' : List Block} (one : DepthFirst succs visited roots after order)
    (two : DepthFirst succs visited roots after' order') : after = after' ∧ order = order' := by
  induction one generalizing after' order' with
  | nil =>
    cases two
    exact ⟨rfl, rfl⟩
  | pass old _ ih =>
    cases two with
    | pass _ rest => exact ih rest
    | visit new _ _ => exact absurd old new
  | visit new _ _ ihInner ihRest =>
    cases two with
    | pass old _ => exact absurd old new
    | visit _ inner rest =>
      obtain ⟨rfl, rfl⟩ := ihInner inner
      obtain ⟨rfl, rfl⟩ := ihRest rest
      exact ⟨rfl, rfl⟩

theorem mono (search : DepthFirst succs visited roots after order) : ∀ b ∈ visited, b ∈ after := by
  induction search with
  | nil => exact fun _ mem => mem
  | pass _ _ ih => exact ih
  | visit _ _ _ ihInner ihRest =>
    exact fun c mem => ihRest c (ihInner c (Std.ExtTreeSet.mem_insert.mpr (Or.inr mem)))

theorem of_visited (old : ∀ b ∈ roots, b ∈ visited) : DepthFirst succs visited roots visited [] := by
  induction roots with
  | nil => exact .nil
  | cons b roots ih => exact .pass (old b List.mem_cons_self) (ih fun c mem => old c (List.mem_cons_of_mem b mem))

theorem append {later order' : List Block} {last : Std.ExtTreeSet Block}
    (one : DepthFirst succs visited roots after order) (two : DepthFirst succs after later last order') :
    DepthFirst succs visited (roots ++ later) last (order ++ order') := by
  induction one with
  | nil => exact two
  | pass old _ ih => exact .pass old (ih two)
  | visit new inner _ _ ih =>
    rw [List.append_assoc, List.cons_append]
    exact .visit new inner (ih two)

end DepthFirst

namespace Search

variable {succs : Block → List Block}

/-- Between its two states, a search took the roots in turn. -/
def TakesInTurn (succs : Block → List Block) (roots : List Block) (s t : Search) : Prop :=
  ∃ order, DepthFirst succs s.entered roots t.entered order ∧ t.finished = order.reverse ++ s.finished

theorem takesInTurn_tracks : Tracks succs (TakesInTurn succs) where
  mono := fun ⟨_, search, _⟩ => search.mono
  refl entered := ⟨[], .of_visited entered, rfl⟩
  trans := fun ⟨order, search, finished⟩ ⟨order', search', finished'⟩ =>
    ⟨order ++ order', search.append search', by rw [finished', finished, List.reverse_append, List.append_assoc]⟩
  enclose {s t b} new := fun ⟨order, search, finished⟩ =>
    ⟨order ++ [b], .visit new search .nil, by
      rw [finished, List.reverse_append, List.reverse_singleton, List.singleton_append, List.cons_append]⟩

end Search

namespace StackSearch

variable {body : Body} {s t : StackSearch} {pushed : List Block} {b : Block}

theorem eq_of_enter (enters : s.enter body b = .ok t) : ∃ entered,
    s.entered.set? b true = some entered ∧ t = { s with entered, stack := (b, body.succs b) :: s.stack } := by
  obtain ⟨entered, noted, rest⟩ := bind_eq_ok.mp enters
  obtain ⟨d, found, same⟩ := bind_eq_ok.mp rest
  cases same
  exact ⟨entered, Table.write_eq_ok.mp noted, by rw [Body.succs_of_get? (Table.read_eq_ok.mp found)]⟩

/-- All that a step can do: it finishes the top block, or looks at its next successor, which it passes over if it was
entered before, and enters otherwise. -/
theorem step_cases (busy : s.stack ≠ []) (step : s.step body = .ok t) :
    (∃ a below, s.stack = (a, []) :: below ∧ t = { s with stack := below, finished := a :: s.finished }) ∨
    ∃ a b later below, s.stack = (a, b :: later) :: below ∧
      (s.entered.get? b = some true ∧ t = { s with stack := (a, later) :: below } ∨
        s.entered.get? b = some false ∧ ∃ entered, s.entered.set? b true = some entered ∧
          t = { s with entered, stack := (b, body.succs b) :: (a, later) :: below }) := by
  obtain ⟨entered, stack, finished⟩ := s
  match stack with
  | [] => exact absurd rfl busy
  | (a, []) :: below =>
    cases step
    exact .inl ⟨a, below, rfl, rfl⟩
  | (a, b :: later) :: below =>
    refine .inr ⟨a, b, later, below, rfl, ?_⟩
    obtain ⟨old, noted, rest⟩ := bind_eq_ok.mp step
    have known := Table.read_eq_ok.mp noted
    cases old with
    | true =>
      cases rest
      exact .inl ⟨known, rfl⟩
    | false => exact .inr ⟨known, eq_of_enter rest⟩

/-- The blocks whose frames stand on top of what was the height of a stack, the top one first. -/
def newFrames (s t : StackSearch) : List Block := (t.stack.take (t.stack.length - s.stack.length)).map Prod.fst

/-- The stages of the loop, each beside the blocks that were put on the stack to come there, the first one first. -/
inductive Stage (body : Body) : List Block → StackSearch → Prop
  | start {s : StackSearch} : enter body { entered := .ofIndices body.blocks.size fun _ => false } body.entry = .ok s →
      Stage body [body.entry] s
  | next {pushed : List Block} {s t : StackSearch} : Stage body pushed s → s.stack ≠ [] → s.step body = .ok t →
      Stage body (pushed ++ s.newFrames t) t

/-- No block was put on the stack twice, since all of them are noted as entered, and each block on the stack stands
beside the successors from some place on. -/
structure Orderly (body : Body) (pushed : List Block) (s : StackSearch) : Prop where
  distinct : pushed.Nodup
  noted : ∀ b ∈ pushed, s.entered.get? b = some true
  frames : ∀ frame ∈ s.stack, ∃ n, frame.2 = (body.succs frame.1).drop n

theorem Orderly.enter {entered : Table .block Bool} (orderly : Orderly body pushed s)
    (unnoted : s.entered.get? b ≠ some true) (set : s.entered.set? b true = some entered) :
    Orderly body (pushed ++ [b]) { s with entered, stack := (b, body.succs b) :: s.stack } where
  distinct := by
    refine List.nodup_append.mpr ⟨orderly.distinct, List.pairwise_singleton _ b, ?_⟩
    rintro c before _ single rfl
    exact unnoted (List.mem_singleton.mp single ▸ orderly.noted c before)
  noted c mem := by
    rw [Table.get?_set? set]
    split
    · rfl
    · rename_i other
      obtain before | single := List.mem_append.mp mem
      · exact orderly.noted c before
      · exact absurd (List.mem_singleton.mp single).symm other
  frames frame mem := by
    obtain rfl | below := List.mem_cons.mp mem
    · exact ⟨0, rfl⟩
    · exact orderly.frames frame below

theorem Stage.orderly (stage : Stage body pushed s) : Orderly body pushed s := by
  induction stage with
  | @start s enters =>
    obtain ⟨entered, set, rfl⟩ := eq_of_enter enters
    have fresh : Orderly body [] { entered := .ofIndices body.blocks.size fun _ => false } :=
      ⟨.nil, by simp, by simp⟩
    refine fresh.enter ?_ set
    rw [Table.get?_ofIndices]
    split <;> simp
  | @next pushed s t _ busy step ih =>
    obtain ⟨a, below, atTop, rfl⟩ | ⟨a, b, later, below, atTop, rest⟩ := step_cases busy step
    · have frames := ih.frames
      rw [atTop] at frames
      simp only [newFrames, atTop, List.length_cons, Nat.sub_eq_zero_of_le (Nat.le_succ _), List.take_zero,
        List.map_nil, List.append_nil]
      exact ⟨ih.distinct, ih.noted, fun frame mem => frames frame (List.mem_cons_of_mem _ mem)⟩
    -- Whether or not the successor is entered, the frame under it is left with those behind.
    · have ahead : Orderly body pushed { s with stack := (a, later) :: below } := by
        refine ⟨ih.distinct, ih.noted, fun frame mem => ?_⟩
        have frames := ih.frames
        rw [atTop] at frames
        obtain rfl | under := List.mem_cons.mp mem
        · obtain ⟨n, left⟩ := frames _ List.mem_cons_self
          exact ⟨n + 1, by rw [← List.tail_drop, ← left, List.tail_cons]⟩
        · exact frames frame (List.mem_cons_of_mem _ under)
      obtain ⟨_, rfl⟩ | ⟨unnoted, entered, set, rfl⟩ := rest
      · simpa [newFrames, atTop] using ahead
      · have more := ahead.enter (b := b) (by simp [unnoted]) set
        simpa [newFrames, atTop] using more

theorem Stage.exists_of_run {steps : Nat} {done : StackSearch} (stage : Stage body pushed s)
    (ran : run body steps s = .ok done) : ∃ pushed, Stage body pushed done ∧ done.stack = [] := by
  induction steps generalizing s pushed with
  | zero =>
    unfold run at ran
    split at ran
    · rename_i idle
      cases ran
      exact ⟨pushed, stage, List.isEmpty_iff.mp idle⟩
    · cases ran
  | succ steps ih =>
    unfold run at ran
    split at ran
    · rename_i idle
      cases ran
      exact ⟨pushed, stage, List.isEmpty_iff.mp idle⟩
    · rename_i busy
      obtain ⟨t, step, rest⟩ := bind_eq_ok.mp ran
      exact ih (stage.next (fun idle => busy (List.isEmpty_iff.mpr idle)) step) rest

end StackSearch

namespace Body

variable {body : Body}

/-- The search with its own stack is the depth-first search. If the entry and the successors of all blocks exist, its
loop comes to an end with an empty stack, and has then finished the blocks in the order in which the depth-first search
from the entry does, which is one and no other. What it returns is that order reversed. On its way it puts no block on
the stack twice, and each block on the stack stands beside its successors from some place on. -/
theorem stackPostorder_depthFirst (entry : body.blocks.contains body.entry = true)
    (closed : ∀ {a b}, b ∈ body.succs a → body.blocks.contains b = true) :
    ∃ order, (∃ visited, DepthFirst body.succs ∅ [body.entry] visited order) ∧
      (∀ visited order', DepthFirst body.succs ∅ [body.entry] visited order' → order' = order) ∧
      body.stackPostorder = .ok order.reverse ∧
      (∃ pushed done, StackSearch.Stage body pushed done ∧ done.stack = [] ∧ done.finished = order.reverse) ∧
      ∀ pushed s, StackSearch.Stage body pushed s →
        pushed.Nodup ∧ ∀ frame ∈ s.stack, ∃ n, frame.2 = (body.succs frame.1).drop n := by
  obtain ⟨order, search, finished⟩ := Search.takesInTurn_tracks.visit (succs_subset_indices closed) body.blocks.size {}
    body.entry (Table.mem_indices.mpr entry) (body.missing_indices_le _)
  have result : body.stackPostorder = .ok order.reverse := by
    rw [stackPostorder_eq entry closed, reversePostorder, finished, List.append_nil]
  refine ⟨order, ⟨_, search⟩, fun _ _ other => (other.unique search).2, result, ?_, fun pushed s stage => ?_⟩
  · obtain ⟨start, enters, rest⟩ := bind_eq_ok.mp result
    obtain ⟨done, ran, same⟩ := bind_eq_ok.mp rest
    obtain ⟨pushed, stage, idle⟩ := (StackSearch.Stage.start enters).exists_of_run ran
    exact ⟨pushed, done, stage, idle, Except.ok.inj same⟩
  · exact ⟨stage.orderly.distinct, stage.orderly.frames⟩

/-- In the fork, the block where the two ways meet is finished first. It is led to three times, and visited once. -/
theorem stackPostorder_depthFirst_fork : ∃ visited,
    DepthFirst fork.succs ∅ [.slot 0] visited [.slot 4, .slot 1, .slot 2, .slot 0] ∧
      fork.stackPostorder = .ok [.slot 0, .slot 2, .slot 1, .slot 4] := by
  have ok : fork.Consistent := consistent_of_graphError? (by decide)
  obtain ⟨order, ⟨visited, search⟩, _, result, _⟩ := stackPostorder_depthFirst ok.entry_mem ok.succ_mem
  have known : fork.stackPostorder = .ok [.slot 0, .slot 2, .slot 1, .slot 4] := by decide +kernel
  have reversed : order.reverse = [.slot 0, .slot 2, .slot 1, .slot 4] := Except.ok.inj (result.symm.trans known)
  have same : order = [.slot 4, .slot 1, .slot 2, .slot 0] := List.reverse_injective reversed
  exact ⟨visited, same ▸ search, known⟩

end Body

end ForwardFlow
