import ForwardFlow.Proofs.Graph.Search

namespace ForwardFlow

namespace Search

/-- How the blocks that visits to some roots have finished stand in the list. Each is a root, or a successor of a block
that stands before it. An edge that leads towards the front closes a cycle. -/
structure Arranges (succs : Block → List Block) (roots : List Block) (s t : Search) : Prop extends
    Covers succs roots s t where
  parent : ∀ found, t.finished = found ++ s.finished →
    ∀ b ∈ found, b ∈ roots ∨ ∃ a, [a, b].Sublist found ∧ b ∈ succs a
  back : ∀ found, t.finished = found ++ s.finished →
    found.Pairwise fun b a => b ∈ succs a → Relation.ReflTransGen (fun a c => c ∈ succs a) b a

variable {succs : Block → List Block}

theorem Covers.mem_found {roots found : List Block} {s t : Search} (covers : Covers succs roots s t)
    (eq : t.finished = found ++ s.finished) {b : Block} : b ∈ found ↔ b ∈ t.entered ∧ b ∉ s.entered := by
  obtain ⟨found', eq', _, mem⟩ := covers.finished
  rw [List.append_cancel_right (eq.symm.trans eq'), mem]

theorem Arranges.refl {s : Search} {roots : List Block} (entered : ∀ b ∈ roots, b ∈ s.entered) :
    Arranges succs roots s s where
  toCovers := .refl entered
  parent found eq := by
    rw [List.self_eq_append_left.mp eq]
    simp
  back found eq := by
    rw [List.self_eq_append_left.mp eq]
    exact .nil

theorem Arranges.trans {first later : List Block} {s t u : Search} (one : Arranges succs first s t)
    (two : Arranges succs later t u) : Arranges succs (first ++ later) s u := by
  obtain ⟨early, eqEarly, _, _⟩ := one.finished
  obtain ⟨late, eqLate, _, _⟩ := two.finished
  have all {found : List Block} (eq : u.finished = found ++ s.finished) : found = late ++ early := by
    rw [eqLate, eqEarly, ← List.append_assoc] at eq
    exact (List.append_cancel_right eq).symm
  refine ⟨one.toCovers.trans two.toCovers, fun found eq b mem => ?_, fun found eq => ?_⟩
  · rw [all eq] at mem ⊢
    obtain mem | mem := List.mem_append.mp mem
    · obtain root | ⟨a, before, edge⟩ := two.parent late eqLate b mem
      · exact Or.inl (List.mem_append_right _ root)
      · exact Or.inr ⟨a, before.trans (List.sublist_append_left late early), edge⟩
    · obtain root | ⟨a, before, edge⟩ := one.parent early eqEarly b mem
      · exact Or.inl (List.mem_append_left _ root)
      · exact Or.inr ⟨a, before.trans (List.sublist_append_right late early), edge⟩
  · rw [all eq, List.pairwise_append]
    refine ⟨two.back late eqLate, one.back early eqEarly, fun b inLate a inEarly edge => ?_⟩
    -- The earlier visits entered all successors of the blocks they finished.
    obtain ⟨entered, new⟩ := (one.mem_found eqEarly).mp inEarly
    exact absurd (one.closed a entered new b edge) ((two.mem_found eqLate).mp inLate).2

theorem Arranges.enclose {s t : Search} {b : Block} (new : b ∉ s.entered)
    (inner : Arranges succs (succs b) { s with entered := s.entered.insert b } t) :
    Arranges succs [b] s { t with finished := b :: t.finished } := by
  obtain ⟨inside, eqInside, _, mem⟩ := inner.finished
  have all {found : List Block} (eq : b :: t.finished = found ++ s.finished) : found = b :: inside := by
    rw [eqInside, ← List.cons_append] at eq
    exact (List.append_cancel_right eq).symm
  refine ⟨inner.toCovers.enclose new, fun found eq c listed => ?_, fun found eq => ?_⟩
  · rw [all eq] at listed ⊢
    obtain rfl | listed := List.mem_cons.mp listed
    · exact Or.inl (List.mem_singleton_self c)
    · obtain edge | ⟨a, before, edge⟩ := inner.parent inside eqInside c listed
      · exact Or.inr ⟨b, (List.singleton_sublist.mpr listed).cons_cons b, edge⟩
      · exact Or.inr ⟨a, before.cons b, edge⟩
  · rw [all eq, List.pairwise_cons]
    refine ⟨fun a listed _ => ?_, inner.back inside eqInside⟩
    -- Whatever is finished between entering and finishing `b` lies behind a successor of `b`.
    obtain ⟨entered, other⟩ := (mem a).mp listed
    obtain ⟨r, edge, led⟩ := inner.behind a entered other
    exact .head edge led

theorem arranges_tracks : Tracks succs (Arranges succs) :=
  ⟨fun arranges => arranges.mono, .refl, .trans, .enclose⟩

end Search

namespace Body

variable {body : Body} {a b : Block}

theorem Consistent.search_arranges (ok : body.Consistent) :
    Search.Arranges body.succs [body.entry] {} (Search.visit body.succs body.blocks.size {} body.entry) :=
  ok.search_tracks Search.arranges_tracks

theorem Consistent.head?_reversePostorder (ok : body.Consistent) :
    body.reversePostorder.head? = some body.entry := by
  have some : 0 < body.blocks.indices.length := List.length_pos_of_mem (Table.mem_indices.mpr ok.entry_mem)
  obtain ⟨depth, size⟩ : ∃ n, body.blocks.size = n + 1 := ⟨body.blocks.size - 1, by simp at some; omega⟩
  rw [reversePostorder, size, Search.visit_of_notMem (by simp), List.head?_cons]

/-- A reachable block other than the entry is a successor of a block that stands before it. -/
theorem Consistent.exists_earlier (ok : body.Consistent) (reach : body.Reaches b) (other : b ≠ body.entry) :
    ∃ a, [a, b].Sublist body.reversePostorder ∧ b ∈ body.succs a := by
  have listed := ok.mem_reversePostorder.mpr reach
  obtain root | earlier := ok.search_arranges.parent _ (List.append_nil _).symm b listed
  · exact absurd (List.mem_singleton.mp root) other
  · exact earlier

/-- From a block to one before it an edge leads only if a path leads back. -/
theorem Consistent.pairwise_reversePostorder (ok : body.Consistent) :
    body.reversePostorder.Pairwise fun b a => b ∈ body.succs a →
      Relation.ReflTransGen (fun a c => c ∈ body.succs a) b a :=
  ok.search_arranges.back _ (List.append_nil _).symm

/-- No path leads from a reachable block back to it. -/
def Acyclic (body : Body) : Prop :=
  ∀ b, body.Reaches b → ¬Relation.TransGen (fun a c => c ∈ body.succs a) b b

/-- Without cycles, all edges lead forward. -/
theorem Acyclic.mem_later (acyclic : body.Acyclic) (ok : body.Consistent) {earlier later : List Block}
    (order : body.reversePostorder = earlier ++ a :: later) (edge : b ∈ body.succs a) : b ∈ later := by
  have reach : body.Reaches a := ok.mem_reversePostorder.mp (order ▸ List.mem_append_right _ List.mem_cons_self)
  have listed := ok.mem_reversePostorder.mpr (reach.succ edge)
  rw [order, List.mem_append, List.mem_cons] at listed
  obtain before | rfl | behind := listed
  · have pairs := ok.pairwise_reversePostorder
    rw [order, List.pairwise_append] at pairs
    have led := pairs.2.2 b before a List.mem_cons_self edge
    exact absurd (.head' edge led) (acyclic a reach)
  · exact absurd (.single edge) (acyclic b reach)
  · exact behind

theorem acyclic_of_forward (forward : ∀ block ∈ body.blocks.toPairs, ∀ c ∈ block.2.succs, block.1.number < c.number) :
    body.Acyclic := by
  have lt {a c : Block} (led : Relation.TransGen (fun a c => c ∈ body.succs a) a c) : a.number < c.number := by
    refine Relation.TransGen.trans_induction_on led (fun edge => ?_) fun _ _ one two => Nat.lt_trans one two
    obtain ⟨d, found, inside⟩ := get?_of_mem_succs edge
    exact forward _ (Table.mem_toPairs.mpr found) _ inside
  exact fun b _ cycle => Nat.lt_irrefl _ (lt cycle)

/-- Two ways that part and meet again, one of them along two edges at once. A block that cannot be reached leads there
too. -/
def fork : Body where
  name := "fork"
  vars := .ofList [⟨"x", .int⟩, ⟨"y", .int⟩]
  entry := .slot 0
  blocks := .ofList [
    { elements := [.stmt (.assign (.slot 0) (.call "read" []))], succs := [.slot 1, .slot 2] },
    { elements := [.stmt (.assign (.slot 1) (.use (.var (.slot 0))))], preds := [.slot 0]
      succs := [.slot 4, .slot 4] },
    { elements := [.stmt (.assign (.slot 1) (.use (.lit (.int 7))))], preds := [.slot 0], succs := [.slot 4] },
    { succs := [.slot 4] },
    { elements := [.stmt (.eval (.use (.var (.slot 1))))], preds := [.slot 3, .slot 1, .slot 1, .slot 2] }]

theorem fork_acyclic : fork.Acyclic := acyclic_of_forward (by decide)

end Body

end ForwardFlow
