import Mathlib.Algebra.Order.BigOperators.Group.Finset
import ForwardFlow.Proofs.Analysis.ConstantsOrder
import ForwardFlow.Proofs.Knowledge.Declared
import ForwardFlow.Proofs.Lattice.Height
import ForwardFlow.Proofs.Solver.Ascent

namespace ForwardFlow

namespace MustSet

variable {s t : MustSet Var} {vars : List Var}

/-- A set rises each time it loses an element. -/
def missing (vars : List Var) (s : MustSet Var) : Finset Var := vars.toFinset.filter (· ∉ s.elems)

theorem card_missing_le (vars : List Var) (s : MustSet Var) : (s.missing vars).card ≤ vars.length :=
  (Finset.card_filter_le _ _).trans vars.toFinset_card_le

theorem card_missing_lt (declared : ∀ x ∈ s.elems, x ∈ vars) (below : s < t) :
    (s.missing vars).card < (t.missing vars).card := by
  refine Finset.card_lt_card (Finset.ssubset_iff_of_subset ?_ |>.mpr ?_)
  · intro x mem
    obtain ⟨inside, other⟩ := Finset.mem_filter.mp mem
    exact Finset.mem_filter.mpr ⟨inside, fun there => other (below.le x there)⟩
  · obtain ⟨x, here, other⟩ : ∃ x ∈ s.elems, x ∉ t.elems := by
      by_contra none
      exact below.not_ge fun x here => not_not.mp fun other => none ⟨x, here, other⟩
    refine ⟨x, Finset.mem_filter.mpr ⟨List.mem_toFinset.mpr (declared x here), other⟩, fun mem => ?_⟩
    exact (Finset.mem_filter.mp mem).2 here

end MustSet

namespace Constants

variable {m n : Constants} {vars : List Var}

/-- How high the constants of some variables stand together. -/
def levels (vars : List Var) (m : Constants) : Nat := ∑ x ∈ vars.toFinset, (m.get? x).elim 0 Flat.level

theorem levels_le (vars : List Var) (m : Constants) : m.levels vars ≤ 3 * vars.length := by
  have each (x : Var) : (m.get? x).elim 0 Flat.level ≤ 3 := by
    cases m.get? x with
    | none => exact Nat.zero_le 3
    | some a => exact a.level_le_three
  calc m.levels vars ≤ vars.toFinset.card * 3 := Finset.sum_le_card_nsmul _ _ 3 fun x _ => each x
    _ ≤ vars.length * 3 := Nat.mul_le_mul_right 3 vars.toFinset_card_le
    _ = 3 * vars.length := Nat.mul_comm _ _

theorem level_le_level (below : m ≤ n) (x : Var) : (m.get? x).elim 0 Flat.level ≤ (n.get? x).elim 0 Flat.level := by
  cases found : m.get? x with
  | none => exact Nat.zero_le _
  | some a =>
    obtain ⟨b, found', le⟩ := below x a found
    rw [found']
    exact Flat.level_mono le

theorem level_lt_level (below : m ≤ n) {x : Var} (differ : m.get? x ≠ n.get? x) :
    (m.get? x).elim 0 Flat.level < (n.get? x).elim 0 Flat.level := by
  cases found : m.get? x with
  | none =>
    obtain ⟨b, found'⟩ := Option.ne_none_iff_exists'.mp (found ▸ differ).symm
    rw [found']
    exact b.level_pos
  | some a =>
    obtain ⟨b, found', le⟩ := below x a found
    rw [found']
    refine Flat.level_lt_level (lt_of_le_of_ne le fun same => differ ?_)
    rw [found, found', same]

theorem levels_lt (declared : ∀ x a, n.get? x = some a → x ∈ vars) (below : m < n) : m.levels vars < n.levels vars := by
  obtain ⟨x, differ⟩ : ∃ x, m.get? x ≠ n.get? x := by
    by_contra none
    exact below.ne (Pointwise.ext_get? fun x => not_not.mp fun differ => none ⟨x, differ⟩)
  have inside : x ∈ vars := by
    cases found : n.get? x with
    | some b => exact declared x b found
    | none =>
      obtain ⟨a, found'⟩ := Option.ne_none_iff_exists'.mp (found ▸ differ)
      obtain ⟨b, found'', _⟩ := below.le x a found'
      cases found.symm.trans found''
  exact Finset.sum_lt_sum (fun x _ => level_le_level below.le x)
    ⟨x, List.mem_toFinset.mpr inside, level_lt_level below.le differ⟩

end Constants

namespace Problem

/-- The sets of assigned variables a run can come to have declared variables only. -/
theorem Attainable.declared {p : Problem (MustSet Var)} (empty : p.pass.analysis.initial = ∅) (fine : p.error? = none)
    {s : MustSet Var} (attainable : p.Attainable Element.assign s) : ∀ x ∈ s.elems, x ∈ p.start.declared := by
  induction attainable with
  | initial =>
    rw [empty]
    exact fun x mem => absurd mem Std.ExtTreeSet.not_mem_empty
  | act _ inside _ ih =>
    intro x mem
    obtain writes | ⟨old, _⟩ := mem_assign.mp mem
    · exact Knowledge.declared_of_write (Option.or_eq_none_iff.mp fine).2 inside writes
    · exact ih x old
  | join _ _ left _ => exact fun x mem => left x (MustSet.mem_join.mp mem).1

theorem height_assigned {p : Problem (MustSet Var)} {models : List Model}
    (pass : p.pass = { analysis := Analysis.assigned, models }) (fine : p.error? = none) :
    HeightAtMost p.Records p.start.declared.length := by
  have acts : p.pass.ActsBy (fun _ => True) Element.assign := pass ▸ assigned_acts models
  refine heightAtMost_of_rank (fun s => (s.missing p.start.declared).card) (fun s _ => s.card_missing_le _) ?_
  intro s t recorded _ below
  have attainable := recorded.attainable acts trivial (consistent_of_error? fine)
  exact MustSet.card_missing_lt (attainable.declared (congrArg (·.analysis.initial) pass) fine) below

/-- The constants a run can come to are of integer variables only. -/
theorem Attainable.int {p : Problem Constants} {types : Var → Option Ty} (empty : p.pass.analysis.initial = ∅)
    {m : Constants} (attainable : p.Attainable (Constants.act types) m) :
    ∀ x a, m.get? x = some a → types x = some .int := by
  induction attainable with
  | initial =>
    rw [empty]
    intro x a found
    cases (Std.ExtTreeMap.getElem?_empty (α := Var) (β := Flat Int64)).symm.trans found
  | act _ _ _ ih =>
    intro x a found
    obtain ⟨b, old⟩ | ⟨int, _⟩ := Constants.exists_get?_of_act found
    · exact ih x b old
    · exact int
  | join _ _ left right =>
    intro x a found
    obtain ⟨b, old⟩ | ⟨b, old⟩ := Pointwise.exists_get?_of_join found
    · exact left x b old
    · exact right x b old

theorem height_constants {p : Problem Constants} {models : List Model}
    (pass : p.pass = { analysis := Analysis.constants, models }) (keeps : ∀ model ∈ models, model.KeepsTypes)
    (fine : p.error? = none) : HeightAtMost p.Records (3 * p.start.declaredInts.length) := by
  have acts := pass ▸ Pass.constants_acts_with p.start.ty? keeps
  refine heightAtMost_of_rank (fun m => m.levels p.start.declaredInts) (fun m _ => m.levels_le _) ?_
  intro m n _ recorded below
  have attainable := recorded.attainable acts (fun _ => rfl) (consistent_of_error? fine)
  have int := attainable.int (congrArg (·.analysis.initial) pass)
  exact Constants.levels_lt (fun x a found => Knowledge.mem_declaredInts.mpr (int x a found)) below

end Problem

end ForwardFlow
