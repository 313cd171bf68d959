import ForwardFlow.Graph.Order

namespace ForwardFlow.BlockOrder

/-- Each block of the order has the position at which it stands. -/
structure Numbered (order : BlockOrder) : Prop where
  position?_iff : ∀ {b p}, order.position? b = some p ↔ order.blocks.get? p = some b

theorem get_foldl_set {pairs : List (Position × Block)} (distinct : (pairs.map Prod.snd).Nodup)
    {place : SideTable .block (Option Position)} {b : Block} {p : Position} :
    (pairs.foldl (fun place (p, b) => place.set b (some p)) place).get b = some p ↔
      (p, b) ∈ pairs ∨ b ∉ pairs.map Prod.snd ∧ place.get b = some p := by
  induction pairs generalizing place with
  | nil => simp
  | cons pair pairs ih =>
    obtain ⟨q, c⟩ := pair
    rw [List.map_cons, List.nodup_cons] at distinct
    rw [List.foldl_cons, ih distinct.2, SideTable.get_set]
    by_cases same : c = b
    · subst same
      have absent : (p, c) ∉ pairs := fun mem => distinct.1 (List.mem_map.mpr ⟨_, mem, rfl⟩)
      simp [absent, distinct.1, eq_comm]
    · simp [same, Ne.symm same]

/-- In a list without repetition, every block stands at one position. -/
theorem numbered_ofList {l : List Block} (distinct : l.Nodup) : (ofList l).Numbered := by
  refine ⟨fun {b p} => ?_⟩
  have blocks : (Table.ofList l : Table .position Block).toPairs.map Prod.snd = l := Table.map_snd_toPairs _
  rw [position?, ofList, get_foldl_set (by rwa [blocks]), Table.mem_toPairs, SideTable.get_empty]
  simp

variable {order : BlockOrder} {b c : Block}

theorem rank_of_position? {p : Position} (placed : order.position? b = some p) : order.rank b = p.number := by
  rw [rank, placed, Option.elim_some]

namespace Numbered

variable (numbered : order.Numbered)

include numbered

theorem exists_position (mem : b ∈ order.toList) : ∃ n, order.position? b = some (.slot n) := by
  obtain ⟨n, found⟩ := List.getElem?_of_mem mem
  exact ⟨n, numbered.position?_iff.mpr ((Table.get?_slot _ n).trans found)⟩

theorem rank_inj {m n : Nat} (atB : order.position? b = some (.slot m)) (atC : order.position? c = some (.slot n))
    (same : order.rank b = order.rank c) : b = c := by
  rw [rank_of_position? atB, rank_of_position? atC] at same
  cases same
  exact Option.some.inj ((numbered.position?_iff.mp atB).symm.trans (numbered.position?_iff.mp atC))

theorem pairwise_rank : order.toList.Pairwise fun b c => order.rank b < order.rank c := by
  have rank {n : Nat} (inside : n < order.toList.length) : order.rank order.toList[n] = n := by
    have found : order.blocks.get? (.slot n) = some order.toList[n] :=
      (Table.get?_slot _ n).trans (List.getElem?_eq_getElem inside)
    exact rank_of_position? (numbered.position?_iff.mpr found)
  rw [List.pairwise_iff_getElem]
  intro m n _ _ less
  rwa [rank, rank]

theorem getElem?_rank (mem : b ∈ order.toList) : order.toList[order.rank b]? = some b := by
  obtain ⟨n, placed⟩ := numbered.exists_position mem
  rw [rank_of_position? placed, Index.number, toList, ← Table.get?_slot]
  exact numbered.position?_iff.mp placed

/-- What holds of all pairs in the list holds of a block and one of higher rank. -/
theorem rel_of_rank_lt {R : Block → Block → Prop} (pairs : order.toList.Pairwise R) (memB : b ∈ order.toList)
    (memC : c ∈ order.toList) (less : order.rank b < order.rank c) : R b c := by
  obtain ⟨shortB, atB⟩ := List.getElem?_eq_some_iff.mp (numbered.getElem?_rank memB)
  obtain ⟨shortC, atC⟩ := List.getElem?_eq_some_iff.mp (numbered.getElem?_rank memC)
  have related := List.pairwise_iff_getElem.mp pairs _ _ shortB shortC less
  rwa [atB, atC] at related

theorem position?_eq_none_iff : order.position? b = none ↔ b ∉ order.toList := by
  rw [Option.eq_none_iff_forall_ne_some]
  refine ⟨fun nowhere mem => ?_, fun absent p placed => ?_⟩
  · obtain ⟨n, placed⟩ := numbered.exists_position mem
    exact nowhere _ placed
  · obtain ⟨n, rfl⟩ : ∃ n, p = .slot n := by
      cases p with
      | slot n => exact ⟨n, rfl⟩
      | invalid => cases numbered.position?_iff.mp placed
    refine absent (List.mem_of_getElem? (i := n) ?_)
    rw [toList, ← Table.get?_slot]
    exact numbered.position?_iff.mp placed

end Numbered

end ForwardFlow.BlockOrder
