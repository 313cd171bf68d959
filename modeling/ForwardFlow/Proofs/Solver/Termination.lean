import Mathlib.Algebra.BigOperators.Ring.List
import Mathlib.Algebra.Order.BigOperators.Group.List
import ForwardFlow.Proofs.Lattice.Height
import ForwardFlow.Proofs.Solver.Ascent

namespace ForwardFlow

namespace Policy

theorem length_insertByRank {order : BlockOrder} {b : Block} {pending : List Block} :
    (insertByRank order b pending).length = pending.length + 1 := by
  induction pending with
  | nil => rfl
  | cons c pending ih =>
    unfold insertByRank
    split
    · rfl
    · rw [List.length_cons, ih, List.length_cons]

theorem length_enqueue_le {policy : Policy} {order : BlockOrder} {b : Block} {pending : List Block} :
    (policy.enqueue order pending b).length ≤ pending.length + 1 := by
  unfold enqueue
  split
  · exact Nat.le_succ _
  · cases policy with
    | reversePostorder => exact length_insertByRank.le
    | fifo => exact List.length_append.le

theorem length_foldl_enqueue_le {policy : Policy} {order : BlockOrder} {blocks pending : List Block} :
    (blocks.foldl (policy.enqueue order) pending).length ≤ pending.length + blocks.length := by
  induction blocks generalizing pending with
  | nil => exact le_rfl
  | cons b blocks ih =>
    have first : (policy.enqueue order pending b).length ≤ pending.length + 1 := length_enqueue_le
    have rest := @ih (policy.enqueue order pending b)
    rw [List.foldl_cons, List.length_cons]
    omega

end Policy

variable {L : Type}

/-- How high the value at the end of a block has risen. A block that was not visited lies below all values. -/
def Exits.level (rank : L → Nat) (exits : Exits L) (b : Block) : Nat := exits[b]?.elim 0 fun t => rank t.lattice + 1

/-- The number of edges that leave some blocks, each counted as often as it is listed. -/
def Body.edgesFrom (body : Body) (blocks : List Block) : Nat := (blocks.flatMap body.succs).length

namespace Problem

/-- How often the edges that leave reachable blocks can have passed something on: once for each level risen. -/
def passedOn (p : Problem L) (rank : L → Nat) (exits : Exits L) : Nat :=
  (p.order.toList.map fun b => exits.level rank b * (p.body.succs b).length).sum

variable {p : Problem L} {rank : L → Nat} {exits others : Exits L} {h : Nat}

theorem passedOn_le (bounded : ∀ (b : Block) (t : State L), exits[b]? = some t → rank t.lattice ≤ h) :
    p.passedOn rank exits ≤ (h + 1) * p.body.edgesFrom p.order.toList := by
  have level (b : Block) : exits.level rank b ≤ h + 1 := by
    unfold Exits.level
    cases found : exits[b]? with
    | none => exact Nat.zero_le _
    | some t => exact Nat.succ_le_succ (bounded b t found)
  rw [Body.edgesFrom, List.length_flatMap, ← List.sum_map_mul_left]
  exact List.sum_le_sum fun b _ => Nat.mul_le_mul_right _ (level b)

/-- Levels that do not fall pass on what they did before, and the rise at one block its successors as well. -/
theorem passedOn_add_le {a : Block} {rise : Nat} (listed : a ∈ p.order.toList)
    (level : ∀ b, exits.level rank b ≤ others.level rank b)
    (here : exits.level rank a + rise ≤ others.level rank a) :
    p.passedOn rank exits + rise * (p.body.succs a).length ≤ p.passedOn rank others := by
  unfold passedOn
  rw [← List.sum_map_erase _ listed, ← List.sum_map_erase (fun b => others.level rank b * _) listed]
  have rest := List.sum_le_sum (l := p.order.toList.erase a)
    (f := fun b => exits.level rank b * (p.body.succs b).length)
    (g := fun b => others.level rank b * (p.body.succs b).length) fun b _ => Nat.mul_le_mul_right _ (level b)
  have first := Nat.mul_le_mul_right (p.body.succs a).length here
  rw [Nat.add_mul] at first
  omega

variable [JoinLattice L] {progress last : Progress L} {steps : Nat}

theorem iterate_of_le {order : BlockOrder} {more : Nat} (enough : steps ≤ more)
    (done : p.iterate order steps progress = some last) : p.iterate order more progress = some last := by
  induction steps generalizing progress more with
  | zero =>
    simp only [iterate, Option.ite_none_right_eq_some, List.isEmpty_iff, Option.some.injEq] at done
    obtain ⟨idle, rfl⟩ := done
    cases more with
    | zero => simp only [iterate, idle, List.isEmpty_nil, if_true]
    | succ more => simp only [iterate, idle]
  | succ steps ih =>
    obtain ⟨more, rfl⟩ : ∃ n, more = n + 1 := ⟨more - 1, by omega⟩
    unfold iterate at done ⊢
    split at done
    · exact done
    · exact ih (Nat.le_of_succ_le_succ enough) done

/-- What a visit adds to the pending blocks and to the visits made. -/
theorem visit_lengths (p : Problem L) (order : BlockOrder) (progress : Progress L) (b : Block) :
    (p.visit order progress b).trail.length ≤ progress.trail.length + 1 ∧
      ∀ s, p.input progress.exits b = some s → (p.visit order progress b).pending.length ≤
        progress.pending.length +
          (if isNew progress.exits b (p.exitFrom b s) then 1 else 0) * (p.body.succs b).length := by
  unfold visit exitFrom
  cases p.input progress.exits b with
  | none => exact ⟨Nat.le_succ _, fun s arrived => by cases arrived⟩
  | some s =>
    refine ⟨List.length_append.le, fun t arrived => ?_⟩
    cases arrived
    dsimp only
    split
    · rw [Nat.one_mul]
      exact Policy.length_foldl_enqueue_le
    · exact Nat.le_add_right _ _

variable [PartialOrder L] [LawfulJoin L] [LawfulEquals L] {K : Knowledge → Prop} {act : Element → L → L}

/-- A state that is new at the end of a block stands a level higher than the one before it. -/
theorem Stage.level_add_le (acts : p.pass.ActsBy K act) (mono : ∀ e, Monotone (act e)) (start : K p.start)
    (ok : p.body.Consistent) (grows : ∀ a b, p.Records a → p.Records b → a < b → rank a < rank b)
    (stage : p.Stage progress) {b : Block} {s : State L} (arrived : p.input progress.exits b = some s)
    (recorded : p.Records (p.exitFrom b s).lattice) :
    progress.exits.level rank b + (if isNew progress.exits b (p.exitFrom b s) then 1 else 0) ≤
      rank (p.exitFrom b s).lattice + 1 := by
  cases new : isNew progress.exits b (p.exitFrom b s) with
  | false =>
    obtain ⟨old, atB, equal⟩ := isNew_eq_false.mp new
    rw [Exits.level, atB, Option.elim_some, LawfulEquals.equals_iff.mp equal]
    exact le_rfl
  | true =>
    rw [if_pos rfl]
    unfold Exits.level
    cases atB : progress.exits[b]? with
    | none => exact Nat.succ_le_succ (Nat.zero_le _)
    | some old =>
      obtain ⟨s', arrived', le⟩ := stage.ascends acts mono start ok b old atB
      cases arrived.symm.trans arrived'
      have differ : old.lattice ≠ (p.exitFrom b s).lattice := by
        intro same
        have known := isNew_eq_false.mpr ⟨old, atB, LawfulEquals.equals_iff.mpr same⟩
        rw [new] at known
        cases known
      have higher := grows _ _ (stage.records atB) recorded (lt_of_le_of_ne le differ)
      exact Nat.succ_le_succ higher

/-- Each step of a run takes one block from the pending ones, and what it makes pending has been passed on over
edges. -/
theorem Stage.pending_add_passedOn_lt (acts : p.pass.ActsBy K act) (mono : ∀ e, Monotone (act e)) (start : K p.start)
    (ok : p.body.Consistent) (grows : ∀ a b, p.Records a → p.Records b → a < b → rank a < rank b)
    (stage : p.Stage progress) {b : Block} {rest : List Block} (pending : progress.pending = b :: rest)
    {next : Progress L} (visit : p.visit p.order { progress with pending := rest } b = next) :
    next.pending.length + p.passedOn rank progress.exits < progress.pending.length + p.passedOn rank next.exits := by
  have length : progress.pending.length = rest.length + 1 := by rw [pending, List.length_cons]
  have later : p.Stage next := visit ▸ stage.next pending
  obtain ⟨_, same⟩ | ⟨s, arrived, exits, _⟩ := p.visit_cases p.order { progress with pending := rest } b
  · rw [← visit, same]
    dsimp only
    omega
  · have more := (p.visit_lengths p.order { progress with pending := rest } b).2 s arrived
    rw [visit] at exits more
    have atB : next.exits[b]? = some (p.exitFrom b s) := by rw [exits, Exits.getElem?_insert, if_pos rfl]
    have rise := stage.level_add_le acts mono start ok grows arrived (later.records atB)
    have level (c : Block) : next.exits.level rank c =
        if b = c then rank (p.exitFrom b s).lattice + 1 else progress.exits.level rank c := by
      rw [Exits.level, exits, Exits.getElem?_insert]
      split <;> rfl
    have rises (c : Block) : progress.exits.level rank c ≤ next.exits.level rank c := by
      rw [level]
      split
      · rename_i here
        exact here ▸ Nat.le_of_add_right_le rise
      · exact le_rfl
    have listed : b ∈ p.order.toList := (mem_order ok).mpr ((stage.reaches ok).1 b (pending ▸ List.mem_cons_self))
    have total := passedOn_add_le listed rises ((level b).trans (if_pos rfl) ▸ rise)
    dsimp only at more
    omega

theorem Stage.exists_iterate (acts : p.pass.ActsBy K act) (mono : ∀ e, Monotone (act e)) (start : K p.start)
    (ok : p.body.Consistent) (grows : ∀ a b, p.Records a → p.Records b → a < b → rank a < rank b)
    (bounded : ∀ a, p.Records a → rank a ≤ h) (stage : p.Stage progress)
    (enough : progress.pending.length + (h + 1) * p.body.edgesFrom p.order.toList ≤
      steps + p.passedOn rank progress.exits) :
    ∃ last, p.iterate p.order steps progress = some last ∧ last.trail.length ≤ progress.trail.length + steps := by
  have most {progress : Progress L} (stage : p.Stage progress) :
      p.passedOn rank progress.exits ≤ (h + 1) * p.body.edgesFrom p.order.toList :=
    passedOn_le fun b t found => bounded _ (stage.records found)
  induction steps generalizing progress with
  | zero =>
    have idle : progress.pending = [] := List.length_eq_zero_iff.mp (by have := most stage; omega)
    exact ⟨progress, by simp only [iterate, idle, List.isEmpty_nil, if_true], le_rfl⟩
  | succ steps ih =>
    cases pending : progress.pending with
    | nil => exact ⟨progress, by simp only [iterate, pending], Nat.le_add_right _ _⟩
    | cons b rest =>
      have less := stage.pending_add_passedOn_lt acts mono start ok grows pending rfl
      obtain ⟨last, done, made⟩ := ih (stage.next pending) (by omega)
      have one := (p.visit_lengths p.order { progress with pending := rest } b).1
      refine ⟨last, by simp only [iterate, pending, done], ?_⟩
      dsimp only at one
      omega

/-- A run comes to its end by itself. With `h` levels above the lowest, it makes at most one visit for each reachable
block and `h + 1` for each edge that leaves one, and it needs no more steps than that. -/
def SolvedWithin (p : Problem L) (h : Nat) : Prop :=
  ∃ (blocks : List Block) (solution : Solution L), blocks.Nodup ∧ (∀ b, b ∈ blocks ↔ p.body.Reaches b) ∧
    (∀ steps, blocks.length + (h + 1) * p.body.edgesFrom blocks ≤ steps → p.solve steps = .ok solution) ∧
    solution.visits ≤ blocks.length + (h + 1) * p.body.edgesFrom blocks

theorem solvedWithin_of_height (acts : p.pass.ActsBy K act) (mono : ∀ e, Monotone (act e)) (start : K p.start)
    (fine : p.error? = none) (height : HeightAtMost p.Records h) : p.SolvedWithin h := by
  have ok := consistent_of_error? fine
  obtain ⟨rank, bounded, grows⟩ := height.exists_rank
  have enough : p.order.toList.length + (h + 1) * p.body.edgesFrom p.order.toList ≤
      p.order.toList.length + (h + 1) * p.body.edgesFrom p.order.toList + p.passedOn rank ∅ := Nat.le_add_right _ _
  obtain ⟨last, done, made⟩ := Stage.start.exists_iterate acts mono start ok grows bounded enough
  refine ⟨p.order.toList, ⟨last.exits, last.trail⟩, ok.nodup_reversePostorder, fun b => mem_order ok, ?_, ?_⟩
  · intro steps enough
    simp only [solve, fine, iterate_of_le enough done]
  · exact made.trans (Nat.zero_add _).le

end Problem

end ForwardFlow
