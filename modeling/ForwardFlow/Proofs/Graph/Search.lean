import Mathlib.Data.List.Perm.Subperm
import Mathlib.Logic.Relation
import ForwardFlow.Graph.Search
import ForwardFlow.Proofs.Graph.Consistency
import ForwardFlow.Proofs.Graph.Path

namespace ForwardFlow

namespace Search

/-- What visits to some roots have done to a search: they entered only blocks that lie behind a root, they finished
whatever they entered, and no edge leads from there to a block that was not entered. -/
structure Covers (succs : Block → List Block) (roots : List Block) (s t : Search) : Prop where
  mono : ∀ b ∈ s.entered, b ∈ t.entered
  entered : ∀ b ∈ roots, b ∈ t.entered
  closed : ∀ b ∈ t.entered, b ∉ s.entered → ∀ c ∈ succs b, c ∈ t.entered
  behind : ∀ b ∈ t.entered, b ∉ s.entered → ∃ r ∈ roots, Relation.ReflTransGen (fun a c => c ∈ succs a) r b
  finished : ∃ found, t.finished = found ++ s.finished ∧ found.Nodup ∧ ∀ b, b ∈ found ↔ b ∈ t.entered ∧ b ∉ s.entered

variable {succs : Block → List Block}

theorem Covers.refl {s : Search} {roots : List Block} (entered : ∀ b ∈ roots, b ∈ s.entered) :
    Covers succs roots s s where
  mono _ mem := mem
  entered := entered
  closed _ mem new := absurd mem new
  behind _ mem new := absurd mem new
  finished := ⟨[], rfl, .nil, by simp⟩

theorem Covers.trans {first later : List Block} {s t u : Search} (one : Covers succs first s t)
    (two : Covers succs later t u) : Covers succs (first ++ later) s u where
  mono b mem := two.mono b (one.mono b mem)
  entered b mem := by
    rcases List.mem_append.mp mem with mem | mem
    · exact two.mono b (one.entered b mem)
    · exact two.entered b mem
  closed b mem new c edge := by
    by_cases early : b ∈ t.entered
    · exact two.mono c (one.closed b early new c edge)
    · exact two.closed b mem early c edge
  behind b mem new := by
    by_cases early : b ∈ t.entered
    · obtain ⟨r, root, led⟩ := one.behind b early new
      exact ⟨r, List.mem_append_left later root, led⟩
    · obtain ⟨r, root, led⟩ := two.behind b mem early
      exact ⟨r, List.mem_append_right first root, led⟩
  finished := by
    obtain ⟨found, eq, nodup, mem⟩ := one.finished
    obtain ⟨found', eq', nodup', mem'⟩ := two.finished
    refine ⟨found' ++ found, by rw [eq', eq, List.append_assoc], ?_, fun b => ?_⟩
    · refine List.nodup_append.mpr ⟨nodup', nodup, ?_⟩
      rintro b late _ early rfl
      exact ((mem' b).mp late).2 ((mem b).mp early).1
    · rw [List.mem_append, mem, mem']
      constructor
      · rintro (⟨inU, outT⟩ | ⟨inT, outS⟩)
        · exact ⟨inU, fun inS => outT (one.mono b inS)⟩
        · exact ⟨two.mono b inT, outS⟩
      · rintro ⟨inU, outS⟩
        by_cases inT : b ∈ t.entered
        · exact Or.inr ⟨inT, outS⟩
        · exact Or.inl ⟨inU, inT⟩

/-- Entering a block, visiting its successors and finishing it is a visit to the block. -/
theorem Covers.enclose {s t : Search} {b : Block} (new : b ∉ s.entered)
    (inner : Covers succs (succs b) { s with entered := s.entered.insert b } t) :
    Covers succs [b] s { t with finished := b :: t.finished } where
  mono c mem := inner.mono c (Std.ExtTreeSet.mem_insert.mpr (Or.inr mem))
  entered c mem := by
    rw [List.mem_singleton.mp mem]
    exact inner.mono b Std.ExtTreeSet.mem_insert_self
  closed c mem new' d edge := by
    by_cases same : c = b
    · exact inner.entered d (same ▸ edge)
    · exact inner.closed c mem (by simp [new', Ne.symm same]) d edge
  behind c mem new' := by
    refine ⟨b, List.mem_singleton_self b, ?_⟩
    by_cases same : c = b
    · rw [same]
    · obtain ⟨r, root, led⟩ := inner.behind c mem (by simp [new', Ne.symm same])
      exact .head root led
  finished := by
    obtain ⟨found, eq, nodup, mem⟩ := inner.finished
    have start : b ∈ t.entered := inner.mono b Std.ExtTreeSet.mem_insert_self
    refine ⟨b :: found, by rw [eq, List.cons_append], List.nodup_cons.mpr ⟨?_, nodup⟩, fun c => ?_⟩
    · exact fun again => ((mem b).mp again).2 Std.ExtTreeSet.mem_insert_self
    · by_cases same : c = b
      · simp [same, new, start]
      · simp [mem, same, Ne.symm same]

/-- How many of some blocks are not in a set. -/
def missing (blocks : List Block) (entered : Std.ExtTreeSet Block) : Nat := blocks.countP (· ∉ entered)

theorem missing_mono {blocks : List Block} {fewer more : Std.ExtTreeSet Block} (mono : ∀ b ∈ fewer, b ∈ more) :
    missing blocks more ≤ missing blocks fewer := by
  refine List.countP_mono_left fun b _ out => ?_
  simp only [decide_eq_true_eq] at out ⊢
  exact fun mem => out (mono b mem)

theorem missing_insert {blocks : List Block} {entered : Std.ExtTreeSet Block} {b : Block} (inside : b ∈ blocks)
    (new : b ∉ entered) : missing blocks (entered.insert b) < missing blocks entered := by
  obtain ⟨front, back, rfl⟩ := List.append_of_mem inside
  have mono (c : Block) (mem : c ∈ entered) : c ∈ entered.insert b := Std.ExtTreeSet.mem_insert.mpr (Or.inr mem)
  have first : missing front (entered.insert b) ≤ missing front entered := missing_mono mono
  have last : missing back (entered.insert b) ≤ missing back entered := missing_mono mono
  unfold missing at *
  rw [List.countP_append, List.countP_append, List.countP_cons_of_neg (by simp),
    List.countP_cons_of_pos (by simpa using new)]
  omega

/-- A relation between the roots of visits and the search before and after them: it holds where nothing is entered,
passes on from visit to visit, and passes from the visits to the successors of a block to the visit to the block. -/
structure Tracks (succs : Block → List Block) (R : List Block → Search → Search → Prop) : Prop where
  mono {roots s t} : R roots s t → ∀ b ∈ s.entered, b ∈ t.entered
  refl {roots s} : (∀ b ∈ roots, b ∈ s.entered) → R roots s s
  trans {first later s t u} : R first s t → R later t u → R (first ++ later) s u
  enclose {s t b} : b ∉ s.entered → R (succs b) { s with entered := s.entered.insert b } t →
    R [b] s { t with finished := b :: t.finished }

theorem covers_tracks : Tracks succs (Covers succs) := ⟨Covers.mono, .refl, .trans, .enclose⟩

/-- A search that is allowed as much depth as there are blocks left is never cut off. The induction is on the depth, and
every block that is entered leaves one block less. -/
theorem Tracks.visit {R : List Block → Search → Search → Prop} (tracks : Tracks succs R) {blocks : List Block}
    (inside : ∀ a ∈ blocks, ∀ b ∈ succs a, b ∈ blocks) (depth : Nat) (s : Search) (b : Block) (mem : b ∈ blocks)
    (room : missing blocks s.entered ≤ depth) : R [b] s (Search.visit succs depth s b) := by
  induction depth generalizing s b with
  | zero =>
    have all := List.countP_eq_zero.mp (Nat.le_zero.mp room) b mem
    refine tracks.refl fun c single => ?_
    rw [List.mem_singleton.mp single]
    simpa using all
  | succ depth ih =>
    have fold (l : List Block) (within : ∀ c ∈ l, c ∈ blocks) (t : Search) (room : missing blocks t.entered ≤ depth) :
        R l t (l.foldl (Search.visit succs depth) t) := by
      induction l generalizing t with
      | nil => exact tracks.refl (by simp)
      | cons c l later =>
        have first := ih t c (within c List.mem_cons_self) room
        have rest := later (fun d mem => within d (List.mem_cons_of_mem c mem)) _
          (Nat.le_trans (missing_mono (tracks.mono first)) room)
        exact tracks.trans first rest
    rw [Search.visit]
    split
    · rename_i entered
      refine tracks.refl fun c single => ?_
      rw [List.mem_singleton.mp single]
      exact entered
    · rename_i new
      have less := missing_insert mem new
      exact tracks.enclose new (fold (succs b) (inside b mem) _ (Nat.le_of_lt_succ (Nat.lt_of_lt_of_le less room)))

theorem visit_of_mem {depth : Nat} {s : Search} {b : Block} (entered : b ∈ s.entered) : visit succs depth s b = s := by
  cases depth with
  | zero => rfl
  | succ depth => rw [visit, if_pos entered]

theorem visit_of_notMem {depth : Nat} {s : Search} {b : Block} (new : b ∉ s.entered) :
    visit succs (depth + 1) s b =
      let inner := (succs b).foldl (visit succs depth) { s with entered := s.entered.insert b }
      { inner with finished := b :: inner.finished } := by
  rw [visit, if_neg new]

section Depth

variable {succs' : Block → List Block} {blocks : List Block} (inside : ∀ a ∈ blocks, ∀ b ∈ succs a, b ∈ blocks)

include inside

theorem missing_visit_le {depth : Nat} {s : Search} {b : Block} (mem : b ∈ blocks)
    (room : missing blocks s.entered ≤ depth) :
    missing blocks (visit succs depth s b).entered ≤ missing blocks s.entered :=
  missing_mono (covers_tracks.visit inside depth s b mem room).mono

theorem foldl_visit_eq {depth depth' : Nat} {s : Search} {l : List Block}
    (each : ∀ t, ∀ b ∈ blocks, missing blocks t.entered ≤ depth → missing blocks t.entered ≤ depth' →
      visit succs' depth' t b = visit succs depth t b)
    (within : ∀ b ∈ l, b ∈ blocks) (room : missing blocks s.entered ≤ depth)
    (room' : missing blocks s.entered ≤ depth') :
    l.foldl (visit succs' depth') s = l.foldl (visit succs depth) s := by
  induction l generalizing s with
  | nil => rfl
  | cons b l ih =>
    have here := within b List.mem_cons_self
    have left := missing_visit_le inside here room
    rw [List.foldl_cons, List.foldl_cons, each s b here room room']
    exact ih (fun c mem => within c (List.mem_cons_of_mem b mem)) (by omega) (by omega)

variable (same : ∀ a ∈ blocks, succs' a = succs a)

include same

/-- A search knows no more of the successors than those of the blocks it enters, and once it is allowed as much depth as
there are blocks left, more depth makes no difference. -/
theorem visit_congr {depth depth' : Nat} {s : Search} {b : Block} (mem : b ∈ blocks)
    (room : missing blocks s.entered ≤ depth) (room' : missing blocks s.entered ≤ depth') :
    visit succs' depth' s b = visit succs depth s b := by
  induction depth generalizing depth' s b with
  | zero =>
    have all := List.countP_eq_zero.mp (Nat.le_zero.mp room) b mem
    have entered : b ∈ s.entered := by simpa using all
    rw [visit_of_mem entered, visit_of_mem entered]
  | succ depth ih =>
    by_cases entered : b ∈ s.entered
    · rw [visit_of_mem entered, visit_of_mem entered]
    have less := missing_insert mem entered
    obtain ⟨depth', rfl⟩ : ∃ n, depth' = n + 1 := ⟨depth' - 1, by omega⟩
    have inner : (succs b).foldl (visit succs' depth') { s with entered := s.entered.insert b } =
        (succs b).foldl (visit succs depth) { s with entered := s.entered.insert b } :=
      foldl_visit_eq inside (fun t c mem => @ih depth' t c mem) (inside b mem) (by dsimp only; omega)
        (by dsimp only; omega)
    rw [visit_of_notMem entered, visit_of_notMem entered, same b mem, inner]

theorem foldl_visit_congr {depth depth' : Nat} {s : Search} {l : List Block} (within : ∀ b ∈ l, b ∈ blocks)
    (room : missing blocks s.entered ≤ depth) (room' : missing blocks s.entered ≤ depth') :
    l.foldl (visit succs' depth') s = l.foldl (visit succs depth) s :=
  foldl_visit_eq inside (fun _ _ mem => visit_congr inside same mem) within room room'

end Depth

end Search

namespace Body

theorem succs_subset_indices {body : Body} (closed : ∀ {a b}, b ∈ body.succs a → body.blocks.contains b = true) :
    ∀ a ∈ body.blocks.indices, ∀ b ∈ body.succs a, b ∈ body.blocks.indices := fun _ _ _ edge =>
  Table.mem_indices.mpr (closed edge)

theorem missing_indices_le (body : Body) (entered : Std.ExtTreeSet Block) :
    Search.missing body.blocks.indices entered ≤ body.blocks.size :=
  body.blocks.length_indices ▸ List.countP_le_length

theorem Consistent.search_tracks {body : Body} (ok : body.Consistent) {R : List Block → Search → Search → Prop}
    (tracks : Search.Tracks body.succs R) :
    R [body.entry] {} (Search.visit body.succs body.blocks.size {} body.entry) :=
  tracks.visit (succs_subset_indices ok.succ_mem) _ _ _ (Table.mem_indices.mpr ok.entry_mem)
    (body.missing_indices_le _)

theorem Consistent.search_covers {body : Body} (ok : body.Consistent) :
    Search.Covers body.succs [body.entry] {} (Search.visit body.succs body.blocks.size {} body.entry) :=
  ok.search_tracks Search.covers_tracks

theorem reaches_of_leads {body : Body} {a b : Block} (reach : body.Reaches a)
    (led : Relation.ReflTransGen (fun a c => c ∈ body.succs a) a b) : body.Reaches b := by
  induction led with
  | refl => exact reach
  | tail _ edge ih => exact ih.succ edge

/-- The reverse postorder lists the blocks that some path leads to, and no other. -/
theorem Consistent.mem_reversePostorder {body : Body} (ok : body.Consistent) {b : Block} :
    b ∈ body.reversePostorder ↔ body.Reaches b := by
  have search := ok.search_covers
  obtain ⟨found, eq, _, mem⟩ := search.finished
  have listed : b ∈ body.reversePostorder ↔ b ∈ found := by
    rw [reversePostorder, eq, List.append_nil]
  rw [listed, mem]
  constructor
  · rintro ⟨entered, new⟩
    obtain ⟨r, root, led⟩ := search.behind b entered new
    exact reaches_of_leads (List.mem_singleton.mp root ▸ body.reaches_entry) led
  · intro reach
    refine ⟨?_, by simp⟩
    refine reach.closed (search.entered _ (List.mem_singleton_self _)) fun a c _ entered edge => ?_
    exact search.closed a entered (by simp) c edge

theorem Consistent.nodup_reversePostorder {body : Body} (ok : body.Consistent) : body.reversePostorder.Nodup := by
  obtain ⟨found, eq, nodup, _⟩ := ok.search_covers.finished
  rw [reversePostorder, eq, List.append_nil]
  exact nodup

theorem Reaches.contains {body : Body} {b : Block} (ok : body.Consistent) (reach : body.Reaches b) :
    body.blocks.contains b = true :=
  reach.closed ok.entry_mem fun _ _ _ _ edge => ok.succ_mem edge

theorem Consistent.length_reversePostorder_le {body : Body} (ok : body.Consistent) :
    body.reversePostorder.length ≤ body.blocks.size := by
  have inside : body.reversePostorder ⊆ body.blocks.indices := fun b mem =>
    Table.mem_indices.mpr ((ok.mem_reversePostorder.mp mem).contains ok)
  exact body.blocks.length_indices ▸ (ok.nodup_reversePostorder.subperm inside).length_le

end Body

end ForwardFlow
