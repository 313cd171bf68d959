import ForwardFlow.Proofs.Lattice.Flat
import ForwardFlow.Proofs.Lattice.MaySet
import ForwardFlow.Proofs.Lattice.MustSet
import ForwardFlow.Proofs.Lattice.Pointwise

namespace ForwardFlow

/-- The effect of several operations one after the other is a change if one of them is. -/
theorem Effect.foldl_or_eq_changed_iff {β : Type} (part : β → Effect) (parts : List β) (before : Effect) :
    parts.foldl (fun effect b => effect.or (part b)) before = .changed ↔
      before = .changed ∨ ∃ b ∈ parts, part b = .changed := by
  have or_eq_changed_iff (a b : Effect) : a.or b = .changed ↔ a = .changed ∨ b = .changed := by
    cases a <;> cases b <;> decide
  induction parts generalizing before with
  | nil => simp
  | cons b parts ih => simp only [List.foldl_cons, ih, or_eq_changed_iff, List.mem_cons, exists_eq_or_imp, or_assoc]

instance {α : Type} [DecidableEq α] : LawfulEffect (Flat α) where
  effect_eq_changed_iff {s t} := by
    match s, t with
    | .bottom, .bottom | .value _, .bottom | .top, .bottom | .top, .value _ | .top, .top =>
      exact iff_of_false (fun changed => nomatch changed) (absurd rfl)
    | .bottom, .value _ | .bottom, .top | .value _, .top => exact iff_of_true rfl fun same => nomatch same
    | .value a, .value b =>
      show (if a = b then Effect.unchanged else .changed) = .changed ↔
        (if a = b then Flat.value a else .top) ≠ .value a
      split
      · exact iff_of_false (fun changed => nomatch changed) (absurd rfl)
      · exact iff_of_true rfl fun same => nomatch same

section Sets

variable {α : Type} [Ord α] [Std.TransOrd α] [Std.LawfulEqOrd α]

/-- A set inside a set of the same size is that set. -/
theorem eq_of_subset_of_size_eq {s t : Std.ExtTreeSet α} (inside : ∀ a ∈ s, a ∈ t) (size : s.size = t.size) :
    s = t := by
  have meet : t ∩ s = s := by
    refine Std.ExtTreeSet.ext_mem fun a => ?_
    rw [Std.ExtTreeSet.mem_inter_iff, and_iff_right_of_imp (inside a)]
  have split : (t \ s).size + (t ∩ s).size = t.size := Std.ExtTreeSet.size_diff_add_size_inter_eq_size_left
  have nothing : t \ s = ∅ := Std.ExtTreeSet.eq_empty_iff_size_eq_zero.mpr (by rw [meet] at split; omega)
  refine Std.ExtTreeSet.ext_mem fun a => ⟨inside a, fun there => ?_⟩
  by_contra missing
  have left : a ∈ t \ s := Std.ExtTreeSet.mem_diff_iff.mpr ⟨there, missing⟩
  rw [nothing] at left
  exact Std.ExtTreeSet.not_mem_empty left

instance : LawfulEffect (MaySet α) where
  effect_eq_changed_iff {s t} := by
    have grows (same : (s.join t).elems.size = s.elems.size) : s.join t = s :=
      congrArg MaySet.mk (eq_of_subset_of_size_eq (fun a mem => MaySet.mem_join.mpr (Or.inl mem)) same.symm).symm
    have report : s.effect t = .changed ↔ (s.join t).elems.size ≠ s.elems.size := by
      rw [MaySet.effect, Effect.ofBool_eq_changed_iff, bne_iff_ne]
    exact report.trans ⟨fun size same => size (congrArg (·.elems.size) same), fun differ size => differ (grows size)⟩

instance : LawfulEffect (MustSet α) where
  effect_eq_changed_iff {s t} := by
    have shrinks (same : (s.join t).elems.size = s.elems.size) : s.join t = s :=
      congrArg MustSet.mk (eq_of_subset_of_size_eq (fun a mem => (MustSet.mem_join.mp mem).1) same)
    have report : s.effect t = .changed ↔ (s.join t).elems.size ≠ s.elems.size := by
      rw [MustSet.effect, Effect.ofBool_eq_changed_iff, bne_iff_ne]
    exact report.trans ⟨fun size same => size (congrArg (·.elems.size) same), fun differ size => differ (shrinks size)⟩

end Sets

namespace Pointwise

variable {κ α : Type} [Ord κ] [Std.TransOrd κ] [Std.LawfulEqOrd κ] [JoinLattice α]

/-- The effect of a value joined into what may be missing. -/
def effectInto (mine : Option α) (theirs : α) : Effect :=
  match mine with
  | some a => JoinLattice.effect a theirs
  | none => .changed

theorem effectInto_eq_changed_iff [LawfulEffect α] {mine : Option α} {theirs : α} :
    effectInto mine theirs = .changed ↔ some (joinInto mine theirs) ≠ mine := by
  cases mine with
  | none => simp [effectInto]
  | some a => simp [effectInto, joinInto, LawfulEffect.effect_eq_changed_iff]

theorem effect_eq_changed_iff_exists {m n : Pointwise κ α} :
    m.effect n = .changed ↔ ∃ k theirs, n.get? k = some theirs ∧ effectInto (m.get? k) theirs = .changed := by
  have parts : m.effect n = n.entries.toList.foldl
      (fun effect entry => effect.or (effectInto (m.get? entry.1) entry.2)) .unchanged := rfl
  rw [parts, Effect.foldl_or_eq_changed_iff]
  simp only [reduceCtorEq, false_or, Prod.exists, Std.ExtTreeMap.mem_toList_iff_getElem?_eq_some]
  rfl

/-- A join changes a map where it changes what the map has for some key. -/
theorem join_ne_iff_exists {m n : Pointwise κ α} :
    m.join n ≠ m ↔ ∃ k theirs, n.get? k = some theirs ∧ some (joinInto (m.get? k) theirs) ≠ m.get? k := by
  constructor
  · intro differ
    by_contra none
    refine differ (ext_get? fun k => ?_)
    rw [get?_join]
    cases found : n.get? k with
    | none => rfl
    | some theirs => exact not_not.mp fun other => none ⟨k, theirs, found, other⟩
  · rintro ⟨k, theirs, found, other⟩ same
    refine other ?_
    calc some (joinInto (m.get? k) theirs) = (m.join n).get? k := by rw [get?_join, found]; rfl
      _ = m.get? k := by rw [same]

instance [DecidableEq α] [LawfulEffect α] : LawfulEffect (Pointwise κ α) where
  effect_eq_changed_iff := by
    refine effect_eq_changed_iff_exists.trans (Iff.trans ?_ join_ne_iff_exists.symm)
    simp only [effectInto_eq_changed_iff]

end Pointwise

end ForwardFlow
