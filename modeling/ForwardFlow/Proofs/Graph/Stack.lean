import Mathlib.Algebra.Order.BigOperators.Group.List
import Mathlib.Algebra.Order.Ring.Nat
import ForwardFlow.Graph.Stack
import ForwardFlow.Proofs.Graph.Search

namespace ForwardFlow

namespace Search

variable {succs : Block → List Block} {depth : Nat}

/-- Goes on with a search that is inside the visits to some blocks, the one entered last first, each beside those of its
successors that are still to be looked at. -/
def resume (succs : Block → List Block) (depth : Nat) : List (Block × List Block) → Search → Search
  | [], s => s
  | (b, later) :: below, s =>
    let inner := later.foldl (visit succs depth) s
    resume succs depth below { inner with finished := b :: inner.finished }

/-- To look at a successor that was entered before changes nothing. -/
theorem resume_of_mem {s : Search} {a b : Block} {later : List Block} {below : List (Block × List Block)}
    (entered : b ∈ s.entered) :
    resume succs depth ((a, b :: later) :: below) s = resume succs depth ((a, later) :: below) s := by
  simp only [resume, List.foldl_cons, visit_of_mem entered]

section Room

variable {blocks : List Block} (inside : ∀ a ∈ blocks, ∀ b ∈ succs a, b ∈ blocks) {s : Search} {b : Block}

include inside

/-- A visit with depth enough may look at the successors with as much depth. -/
theorem visit_of_room (mem : b ∈ blocks) (new : b ∉ s.entered) (room : missing blocks s.entered ≤ depth) :
    visit succs depth s b = resume succs depth [(b, succs b)] { s with entered := s.entered.insert b } := by
  have less := missing_insert mem new
  obtain ⟨depth, rfl⟩ : ∃ n, depth = n + 1 := ⟨depth - 1, by omega⟩
  have inner : (succs b).foldl (visit succs depth) { s with entered := s.entered.insert b } =
      (succs b).foldl (visit succs (depth + 1)) { s with entered := s.entered.insert b } :=
    foldl_visit_congr inside (fun _ _ => rfl) (inside b mem) (by dsimp only; omega) (by dsimp only; omega)
  rw [visit_of_notMem new, inner]
  rfl

/-- To look at another successor is to visit it, inside the visits that have begun. -/
theorem resume_of_notMem (mem : b ∈ blocks) (new : b ∉ s.entered) (room : missing blocks s.entered ≤ depth)
    {a : Block} (later : List Block) (below : List (Block × List Block)) :
    resume succs depth ((a, b :: later) :: below) s =
      resume succs depth ((b, succs b) :: (a, later) :: below) { s with entered := s.entered.insert b } := by
  simp only [resume, List.foldl_cons, visit_of_room inside mem new room]

end Room

/-- The steps that the visits to the blocks not entered will take: one to finish each of them, and one for each of its
successors. -/
def ahead (succs : Block → List Block) (blocks : List Block) (entered : Std.ExtTreeSet Block) : Nat :=
  (blocks.map fun b => if b ∈ entered then 0 else (succs b).length + 1).sum

theorem ahead_insert (succs : Block → List Block) {blocks : List Block} {entered : Std.ExtTreeSet Block} {b : Block}
    (mem : b ∈ blocks) (new : b ∉ entered) :
    ahead succs blocks (entered.insert b) + ((succs b).length + 1) ≤ ahead succs blocks entered := by
  have fewer (l : List Block) : ahead succs l (entered.insert b) ≤ ahead succs l entered := by
    refine List.sum_le_sum fun c _ => ?_
    by_cases old : c ∈ entered <;> by_cases same : b = c <;> simp [old, same]
  obtain ⟨front, back, rfl⟩ := List.append_of_mem mem
  have first := fewer front
  have last := fewer back
  unfold ahead at *
  simp only [List.map_append, List.map_cons, List.sum_append, List.sum_cons, Std.ExtTreeSet.mem_insert_self, if_true,
    new, if_false]
  omega

end Search

namespace StackSearch

variable {body : Body}

/-- A search with its own stack has come as far as one without: it has noted the same blocks as entered and finished,
and what it has still to look at are blocks of the body. -/
structure Follows (body : Body) (s : StackSearch) (t : Search) : Prop where
  entered : ∀ b, body.blocks.contains b = true → s.entered.get? b = some (decide (b ∈ t.entered))
  finished : s.finished = t.finished
  inside : ∀ frame ∈ s.stack, ∀ b ∈ frame.2, body.blocks.contains b = true

/-- The steps a search may still have to take. -/
def work (body : Body) (s : StackSearch) (t : Search) : Nat :=
  (s.stack.map fun frame => frame.2.length + 1).sum + Search.ahead body.succs body.blocks.indices t.entered

/-- The search that remains to be done, without the stack. -/
def rest (body : Body) (s : StackSearch) (t : Search) : Search :=
  Search.resume body.succs body.blocks.size s.stack t

section Step

variable (closed : ∀ {a b}, b ∈ body.succs a → body.blocks.contains b = true)

include closed

theorem Follows.exists_enter {s : StackSearch} {t : Search} {b : Block} (follows : Follows body s t)
    (inside : body.blocks.contains b = true) :
    ∃ s', s.enter body b = .ok s' ∧ s'.stack = (b, body.succs b) :: s.stack ∧
      Follows body s' { t with entered := t.entered.insert b } := by
  obtain ⟨d, found⟩ := Table.exists_get? inside
  have noted : s.entered.contains b = true := by
    rw [Table.contains_eq_isSome_get?, follows.entered b inside, Option.isSome_some]
  obtain ⟨entered, set⟩ := Table.exists_set? noted true
  refine ⟨{ s with entered, stack := (b, d.succs) :: s.stack }, ?_, by rw [Body.succs_of_get? found], ?_⟩
  · simp only [enter, Table.write, Table.read, set, found]
    rfl
  · refine ⟨fun c within => ?_, follows.finished, fun frame mem c listed => ?_⟩
    · dsimp only
      rw [Table.get?_set? set, follows.entered c within]
      by_cases same : b = c <;> simp [same]
    · obtain rfl | below := List.mem_cons.mp mem
      · exact closed (Body.succs_of_get? found ▸ listed)
      · exact follows.inside frame below c listed

/-- A step stays inside the tables, comes nearer to the end and leaves the same to be done. -/
theorem Follows.exists_step {s : StackSearch} {t : Search} (follows : Follows body s t) (busy : s.stack ≠ []) :
    ∃ s' t', s.step body = .ok s' ∧ Follows body s' t' ∧ work body s' t' < work body s t ∧
      rest body s' t' = rest body s t := by
  obtain ⟨entered, stack, finished⟩ := s
  match stack with
  | [] => exact absurd rfl busy
  | (b, []) :: below =>
    refine ⟨⟨entered, below, b :: finished⟩, { t with finished := b :: t.finished }, rfl, ?_, ?_, rfl⟩
    · exact ⟨follows.entered, congrArg (b :: ·) follows.finished,
        fun frame mem => follows.inside frame (List.mem_cons_of_mem _ mem)⟩
    · simp only [work, List.map_cons, List.sum_cons, List.length_nil]
      omega
  | (a, b :: later) :: below =>
    have inside := follows.inside _ List.mem_cons_self b List.mem_cons_self
    have ahead : Follows body ⟨entered, (a, later) :: below, finished⟩ t := by
      refine ⟨follows.entered, follows.finished, fun frame mem c listed => ?_⟩
      obtain rfl | under := List.mem_cons.mp mem
      · exact follows.inside _ List.mem_cons_self c (List.mem_cons_of_mem b listed)
      · exact follows.inside frame (List.mem_cons_of_mem _ under) c listed
    have look : step body ⟨entered, (a, b :: later) :: below, finished⟩ =
        if b ∈ t.entered then .ok ⟨entered, (a, later) :: below, finished⟩
        else enter body ⟨entered, (a, later) :: below, finished⟩ b := by
      have here := follows.entered b inside
      dsimp only at here
      simp only [step, Table.read, here]
      by_cases old : b ∈ t.entered <;> simp [old] <;> rfl
    by_cases old : b ∈ t.entered
    · refine ⟨_, t, look.trans (if_pos old), ahead, ?_, (Search.resume_of_mem old).symm⟩
      simp only [work, List.map_cons, List.sum_cons, List.length_cons]
      omega
    · obtain ⟨s', done, stack, follows'⟩ := ahead.exists_enter closed inside
      have listed := Table.mem_indices.mpr inside
      have less := Search.ahead_insert body.succs listed old
      have same := Search.resume_of_notMem (a := a) (Body.succs_subset_indices closed) listed old
        (body.missing_indices_le t.entered)
      refine ⟨s', _, look.trans ((if_neg old).trans done), follows', ?_, ?_⟩
      · simp only [work, stack, List.map_cons, List.sum_cons, List.length_cons]
        omega
      · rw [rest, stack]
        exact (same later below).symm

/-- With steps enough, a search comes to its end and has finished what the search without a stack finishes. -/
theorem Follows.exists_run {steps : Nat} {s : StackSearch} {t : Search} (follows : Follows body s t)
    (enough : work body s t ≤ steps) :
    ∃ done, run body steps s = .ok done ∧ done.finished = (rest body s t).finished := by
  induction steps generalizing s t with
  | zero =>
    have idle : s.stack = [] := by
      cases stack : s.stack with
      | nil => rfl
      | cons frame below =>
        simp only [work, stack, List.map_cons, List.sum_cons] at enough
        omega
    refine ⟨s, by simp [run, idle], ?_⟩
    rw [rest, idle]
    exact follows.finished
  | succ steps ih =>
    by_cases idle : s.stack = []
    · refine ⟨s, by simp [run, idle], ?_⟩
      rw [rest, idle]
      exact follows.finished
    · obtain ⟨s', t', step, follows', less, same⟩ := follows.exists_step closed idle
      obtain ⟨done, run, finished⟩ := ih follows' (by omega)
      refine ⟨done, ?_, by rw [finished, same]⟩
      rw [StackSearch.run, if_neg (by simp [idle]), step]
      exact run

end Step

end StackSearch

namespace Body

/-- The search with its own stack looks into no table in vain and takes no more steps than allowed: it always gives the
reverse postorder. -/
theorem stackPostorder_eq {body : Body} (entry : body.blocks.contains body.entry = true)
    (closed : ∀ {a b}, b ∈ body.succs a → body.blocks.contains b = true) :
    body.stackPostorder = .ok body.reversePostorder := by
  have nothing : StackSearch.Follows body { entered := .ofIndices body.blocks.size fun _ => false } {} := by
    refine ⟨fun b inside => ?_, rfl, by simp⟩
    dsimp only
    rw [Table.get?_ofIndices, if_pos inside]
    simp
  obtain ⟨start, entered, stack, follows⟩ := nothing.exists_enter closed entry
  have listed := Table.mem_indices.mpr entry
  have new : body.entry ∉ (∅ : Std.ExtTreeSet Block) := by simp
  have all : Search.ahead body.succs body.blocks.indices ∅ = body.searchSteps := by
    simp [Search.ahead, searchSteps, edgeCount, ← flatMap_succs, List.length_flatMap, List.sum_map_add, Nat.add_comm]
  have enough : start.work body { entered := Std.ExtTreeSet.insert ∅ body.entry } ≤ body.searchSteps := by
    have less := Search.ahead_insert body.succs listed new
    simp only [StackSearch.work, stack, List.map_cons, List.map_nil, List.sum_cons, List.sum_nil]
    omega
  obtain ⟨done, run, finished⟩ := follows.exists_run closed enough
  have whole := Search.visit_of_room (s := {}) (succs_subset_indices closed) listed new (body.missing_indices_le ∅)
  rw [StackSearch.rest, stack] at finished
  simp only [stackPostorder, entered, bind, Except.bind, run]
  rw [reversePostorder, whole]
  exact congrArg Except.ok finished

end Body

end ForwardFlow
