import ForwardFlow.Proofs.Graph.Order
import ForwardFlow.Proofs.Solver.Stage
import ForwardFlow.Solver.Worklist

namespace ForwardFlow

namespace Policy

variable {order : BlockOrder} {b : Block} {pending : List Block}

/-- Inserting a block where it belongs keeps the list ordered by position. -/
theorem pairwise_insertByRank (other : ∀ c ∈ pending, order.rank b ≠ order.rank c)
    (sorted : pending.Pairwise fun c d => order.rank c < order.rank d) :
    (insertByRank order b pending).Pairwise fun c d => order.rank c < order.rank d := by
  induction pending with
  | nil => exact List.pairwise_singleton _ b
  | cons c pending ih =>
    obtain ⟨first, rest⟩ := List.pairwise_cons.mp sorted
    unfold insertByRank
    split
    · rename_i before
      refine List.pairwise_cons.mpr ⟨fun d mem => ?_, sorted⟩
      obtain rfl | later := List.mem_cons.mp mem
      · exact before
      · exact Nat.lt_trans before (first d later)
    · rename_i behind
      have differ := other c List.mem_cons_self
      refine List.pairwise_cons.mpr ⟨fun d mem => ?_, ih (fun d mem => other d (List.mem_cons_of_mem c mem)) rest⟩
      obtain rfl | later := mem_insertByRank.mp mem
      · omega
      · exact first d later

theorem insertByRank_eq_append (before : ∀ c ∈ pending, order.rank c < order.rank b) :
    insertByRank order b pending = pending ++ [b] := by
  induction pending with
  | nil => rfl
  | cons c pending ih =>
    have first := before c List.mem_cons_self
    rw [insertByRank, if_neg (by omega), ih fun d mem => before d (List.mem_cons_of_mem c mem), List.cons_append]

/-- Blocks that come in the order of their positions are appended under either policy. -/
theorem foldl_enqueue_eq_append {policy : Policy} {blocks : List Block}
    (sorted : (pending ++ blocks).Pairwise fun b c => order.rank b < order.rank c) :
    blocks.foldl (policy.enqueue order) pending = pending ++ blocks := by
  induction blocks generalizing pending with
  | nil => exact (List.append_nil _).symm
  | cons b blocks ih =>
    have before : ∀ c ∈ pending, order.rank c < order.rank b := fun c mem =>
      (List.pairwise_append.mp sorted).2.2 c mem b List.mem_cons_self
    have new : b ∉ pending := fun mem => Nat.lt_irrefl _ (before b mem)
    have first : policy.enqueue order pending b = pending ++ [b] := by
      refine (if_neg new).trans ?_
      cases policy with
      | reversePostorder => exact insertByRank_eq_append before
      | fifo => rfl
    rw [List.foldl_cons, first, ih (by simpa using sorted), List.append_assoc, List.singleton_append]

end Policy

namespace Worklist

/-- The worklist holds the blocks of a list, in the order in which it will give them out. -/
inductive Lists (order : BlockOrder) : Policy → Worklist → List Block → Prop
  | positions {pending : Std.ExtTreeSet Position} {list : List Block}
    (mem : ∀ p, p ∈ pending ↔ ∃ b ∈ list, order.position? b = some p)
    (placed : ∀ b ∈ list, ∃ n, order.position? b = some (.slot n))
    (sorted : list.Pairwise fun b c => order.rank b < order.rank c) :
    Lists order .reversePostorder (.positions pending) list
  | queue {waiting : List Block} {members : Std.ExtTreeSet Block} (mem : ∀ b, b ∈ members ↔ b ∈ waiting)
    (distinct : waiting.Nodup) : Lists order .fifo (.queue waiting members) waiting

variable {order : BlockOrder} {policy : Policy} {worklist : Worklist} {b : Block} {pending blocks : List Block}

theorem lists_empty : Lists order policy (.empty policy) [] := by
  cases policy with
  | reversePostorder => exact .positions (by simp) (by simp) .nil
  | fifo => exact .queue (by simp) .nil

theorem Lists.push (lists : Lists order policy worklist pending) (numbered : order.Numbered)
    (inside : b ∈ order.toList) : Lists order policy (worklist.push order b) (policy.enqueue order pending b) := by
  obtain ⟨n, atB⟩ := numbered.exists_position inside
  cases lists with
  | @positions set _ mem placed sorted =>
    simp only [Worklist.push, atB, Policy.enqueue]
    have mem' (p : Position) : p ∈ set.insert (.slot n) ↔ ∃ c, (c = b ∨ c ∈ pending) ∧ order.position? c = some p := by
      simp only [Std.ExtTreeSet.mem_insert, Std.LawfulEqCmp.compare_eq_iff_eq, mem, or_and_right, exists_or,
        exists_eq_left, atB, Option.some.injEq]
    split
    · rename_i waits
      refine .positions (fun p => ?_) placed sorted
      rw [mem']
      refine exists_congr fun c => and_congr_left fun _ => or_iff_right_of_imp ?_
      rintro rfl
      exact waits
    · rename_i new
      refine .positions (fun p => ?_) (fun c mem => ?_) (Policy.pairwise_insertByRank (fun c mem same => ?_) sorted)
      · simp only [mem', Policy.mem_insertByRank]
      · obtain rfl | old := Policy.mem_insertByRank.mp mem
        · exact ⟨n, atB⟩
        · exact placed c old
      · obtain ⟨m, atC⟩ := placed c mem
        exact new (numbered.rank_inj atB atC same ▸ mem)
  | @queue _ members mem distinct =>
    simp only [Worklist.push, Policy.enqueue, mem]
    split
    · exact .queue mem distinct
    · rename_i new
      refine .queue (fun c => ?_) (List.nodup_append.mpr ⟨distinct, List.pairwise_singleton _ b, ?_⟩)
      · rw [Std.ExtTreeSet.mem_insert, Std.LawfulEqCmp.compare_eq_iff_eq, mem, List.mem_append, List.mem_singleton,
          or_comm, eq_comm (a := b)]
      · rintro c waits d single rfl
        exact new (List.mem_singleton.mp single ▸ waits)

theorem Lists.foldl_push (lists : Lists order policy worklist pending) (numbered : order.Numbered)
    (inside : ∀ b ∈ blocks, b ∈ order.toList) :
    Lists order policy (blocks.foldl (Worklist.push order) worklist)
      (blocks.foldl (policy.enqueue order) pending) := by
  induction blocks generalizing worklist pending with
  | nil => exact lists
  | cons b blocks ih =>
    exact ih (lists.push numbered (inside b List.mem_cons_self)) fun c mem => inside c (List.mem_cons_of_mem b mem)

theorem Lists.pop_nil (lists : Lists order policy worklist []) : worklist.pop order = .ok none := by
  cases lists with
  | @positions set _ mem =>
    have nothing : set = ∅ := Std.ExtTreeSet.ext_mem fun p => by simp [mem]
    simp only [pop, nothing, Std.ExtTreeSet.min?_empty]
  | queue => rfl

theorem Lists.pop_cons (lists : Lists order policy worklist (b :: pending)) (numbered : order.Numbered) :
    ∃ rest, worklist.pop order = .ok (some (b, rest)) ∧ Lists order policy rest pending := by
  cases lists with
  | @positions set _ mem placed sorted =>
    obtain ⟨n, atB⟩ := placed b List.mem_cons_self
    obtain ⟨first, sorted⟩ := List.pairwise_cons.mp sorted
    have least : set.min? = some (.slot n) := by
      refine Std.ExtTreeSet.min?_eq_some_iff_mem_and_forall.mpr ⟨(mem _).mpr ⟨b, List.mem_cons_self, atB⟩, ?_⟩
      intro p inside
      obtain ⟨c, listed, atC⟩ := (mem p).mp inside
      obtain ⟨m, atC'⟩ := placed c listed
      cases atC.symm.trans atC'
      have le : order.rank b ≤ order.rank c := by
        obtain rfl | later := List.mem_cons.mp listed
        · exact Nat.le_refl _
        · exact Nat.le_of_lt (first c later)
      rw [BlockOrder.rank_of_position? atB, BlockOrder.rank_of_position? atC] at le
      rw [Index.compare_slot]
      exact Nat.isLE_compare.mpr le
    have found := numbered.position?_iff.mp atB
    refine ⟨.positions (set.erase (.slot n)), ?_, .positions (fun p => ?_)
      (fun c listed => placed c (List.mem_cons_of_mem b listed)) sorted⟩
    · simp only [Worklist.pop, least, Table.read, found]
      rfl
    · rw [Std.ExtTreeSet.mem_erase, mem]
      constructor
      · rintro ⟨other, c, listed, atC⟩
        obtain rfl | later := List.mem_cons.mp listed
        · rw [Option.some.inj (atB.symm.trans atC)] at other
          exact absurd Std.compare_self other
        · exact ⟨c, later, atC⟩
      · rintro ⟨c, later, atC⟩
        refine ⟨fun same => ?_, c, List.mem_cons_of_mem b later, atC⟩
        cases Std.LawfulEqCmp.compare_eq_iff_eq.mp same
        have less := first c later
        rw [BlockOrder.rank_of_position? atB, BlockOrder.rank_of_position? atC] at less
        exact absurd less (Nat.lt_irrefl _)
  | @queue _ members mem distinct =>
    obtain ⟨new, distinct⟩ := List.nodup_cons.mp distinct
    refine ⟨.queue pending (members.erase b), rfl, .queue (fun c => ?_) distinct⟩
    rw [Std.ExtTreeSet.mem_erase, Ne, Std.LawfulEqCmp.compare_eq_iff_eq, mem, List.mem_cons]
    constructor
    · rintro ⟨other, same | later⟩
      · exact absurd same.symm other
      · exact later
    · exact fun later => ⟨fun same => new (same ▸ later), Or.inr later⟩

end Worklist

end ForwardFlow
