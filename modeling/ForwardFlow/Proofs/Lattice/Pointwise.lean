import ForwardFlow.Lattice.Pointwise
import ForwardFlow.Proofs.Lattice.Lawful

namespace ForwardFlow.Pointwise

variable {κ α : Type} [Ord κ] [Std.TransOrd κ] {m n u : Pointwise κ α} {k l : κ} {a b : α}

section Order

variable [PartialOrder α]

/-- A map lies below another one that has its keys, and for each of them a value that is not lower. -/
instance : Preorder (Pointwise κ α) where
  le m n := ∀ k a, m.get? k = some a → ∃ b, n.get? k = some b ∧ a ≤ b
  le_refl _ _ a found := ⟨a, found, le_rfl⟩
  le_trans _ _ _ one two k a found := by
    obtain ⟨b, found, low⟩ := one k a found
    obtain ⟨c, found, high⟩ := two k b found
    exact ⟨c, found, low.trans high⟩

theorem get?_of_le_of_le (one : m ≤ n) (two : n ≤ m) (found : m.get? k = some a) : n.get? k = some a := by
  obtain ⟨b, found', low⟩ := one k a found
  obtain ⟨c, found'', high⟩ := two k b found'
  cases found.symm.trans found''
  rw [found', le_antisymm high low]

end Order

variable [Std.LawfulEqOrd κ]

theorem get?_insert [DecidableEq κ] : (m.insert k a).get? l = if k = l then some a else m.get? l := by
  simp [insert, get?, Std.ExtTreeMap.getElem?_insert]

theorem get?_erase [DecidableEq κ] : (m.erase k).get? l = if k = l then none else m.get? l := by
  simp [erase, get?, Std.ExtTreeMap.getElem?_erase]

/-- A join has no keys of its own. -/
theorem exists_get?_of_join [JoinLattice α] (found : (m.join n).get? k = some a) :
    (∃ b, m.get? k = some b) ∨ ∃ b, n.get? k = some b := by
  rw [get?_join] at found
  cases atN : n.get? k with
  | some b => exact .inr ⟨b, rfl⟩
  | none =>
    rw [atN] at found
    exact .inl ⟨a, found⟩

instance [JoinLattice α] [DecidableEq α] : LawfulEquals (Pointwise κ α) where
  equals_iff := decide_eq_true_iff

variable [PartialOrder α]

instance : PartialOrder (Pointwise κ α) where
  le_antisymm _ _ one two :=
    ext_get? fun _ => Option.ext fun _ => ⟨get?_of_le_of_le one two, get?_of_le_of_le two one⟩

theorem insert_le_insert [DecidableEq κ] (below : m ≤ n) (le : a ≤ b) : m.insert k a ≤ n.insert k b := by
  intro l c found
  rw [get?_insert] at found ⊢
  split at found
  · rename_i here
    cases found
    exact ⟨b, if_pos here, le⟩
  · rename_i other
    rw [if_neg other]
    exact below l c found

theorem erase_le_erase [DecidableEq κ] (below : m ≤ n) : m.erase k ≤ n.erase k := by
  intro l c found
  rw [get?_erase] at found ⊢
  split at found
  · cases found
  · rename_i other
    rw [if_neg other]
    exact below l c found

variable [JoinLattice α] [LawfulJoin α]

theorem left_le_join (m n : Pointwise κ α) : m ≤ m.join n := by
  intro k a found
  rw [get?_join, found]
  cases n.get? k with
  | none => exact ⟨a, rfl, le_rfl⟩
  | some b => exact ⟨_, rfl, le_join_left a b⟩

theorem right_le_join (m n : Pointwise κ α) : n ≤ m.join n := by
  intro k b found
  rw [get?_join, found]
  cases m.get? k with
  | none => exact ⟨b, rfl, le_rfl⟩
  | some a => exact ⟨_, rfl, le_join_right a b⟩

theorem join_le_of_le (left : m ≤ u) (right : n ≤ u) : m.join n ≤ u := by
  intro k c found
  rw [get?_join] at found
  cases atN : n.get? k with
  | none =>
    rw [atN] at found
    exact left k c found
  | some b =>
    obtain ⟨d, above, high⟩ := right k b atN
    cases atM : m.get? k with
    | none =>
      rw [atN, atM] at found
      cases found
      exact ⟨d, above, high⟩
    | some a =>
      obtain ⟨d', above', low⟩ := left k a atM
      cases above.symm.trans above'
      rw [atN, atM] at found
      cases found
      exact ⟨d, above, join_le low high⟩

instance [DecidableEq α] : LawfulJoin (Pointwise κ α) where
  isLUB_join m n := by
    constructor
    · rintro u (rfl | rfl)
      · exact left_le_join u n
      · exact right_le_join m u
    · intro u upper
      exact join_le_of_le (upper (Set.mem_insert m {n})) (upper (Set.mem_insert_of_mem m (Set.mem_singleton n)))

end ForwardFlow.Pointwise
