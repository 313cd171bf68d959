import ForwardFlow.Knowledge.Join

namespace ForwardFlow

/-- A merger that decides by the type and the two facts alone, and leaves the joined knowledge as it is. -/
def Merger.Picks (merger : Merger) (pick : Ty → Fact → Fact → Option Fact) : Prop :=
  ∀ ty a b joined, merger ty a b joined = (pick ty a b, joined)

theorem Merger.strict_picks : Merger.strict.Picks fun _ _ _ => none := fun _ _ _ _ => rfl

theorem Merger.ranges_picks : Merger.ranges.Picks fun ty a b => if ty = .int then around? a b else none :=
  fun _ _ _ _ => rfl

namespace Knowledge

variable {merger : Merger} {pick : Ty → Fact → Fact → Option Fact} {k l joined : Knowledge} {v w : Var} {a : Fact}

theorem fact?_update (k : Knowledge) (v w : Var) (fact : Option Fact) :
    (k.update v fact).fact? w = if v = w then fact else k.fact? w := by
  cases fact with
  | some fact => exact fact?_learn k v w fact
  | none => exact fact?_forget k v w

theorem ty?_update (k : Knowledge) (v w : Var) (fact : Option Fact) : (k.update v fact).ty? w = k.ty? w := by
  cases fact <;> rfl

theorem ty?_apply (k : Knowledge) (e : Element) (v : Var) : (k.apply e).ty? v = k.ty? v := by
  cases e with
  | scopeEnd w => rfl
  | init target source => exact ty?_update ..
  | stmt s =>
    cases s with
    | assign target source => exact ty?_update ..
    | _ => rfl

/-- What a join knows of a variable of which the left side knows a fact. -/
def factWith? (pick : Ty → Fact → Fact → Option Fact) (k l : Knowledge) (v : Var) (a : Fact) : Option Fact :=
  (l.fact? v).bind fun b => if a = b then some a else (k.ty? v).bind fun ty => pick ty a b

theorem joinFact_eq (picks : merger.Picks pick) :
    joinFact merger k l joined v a = (factWith? pick k l v a).elim joined (joined.learn v) := by
  unfold joinFact factWith?
  cases l.fact? v with
  | none => rfl
  | some b =>
    dsimp only [Option.bind_some]
    split
    · rfl
    · cases k.ty? v with
      | none => rfl
      | some ty =>
        dsimp only [Option.bind_some]
        rw [picks]
        cases pick ty a b <;> rfl

theorem ty?_joinFact (picks : merger.Picks pick) : (joinFact merger k l joined v a).ty? w = joined.ty? w := by
  rw [joinFact_eq picks]
  cases factWith? pick k l v a <;> rfl

theorem fact?_joinFact_of_ne (picks : merger.Picks pick) (other : v ≠ w) :
    (joinFact merger k l joined v a).fact? w = joined.fact? w := by
  rw [joinFact_eq picks]
  cases factWith? pick k l v a with
  | none => rfl
  | some fact => exact (fact?_learn joined v w fact).trans (if_neg other)

theorem fact?_joinFact_self (picks : merger.Picks pick) (unknown : joined.fact? v = none) :
    (joinFact merger k l joined v a).fact? v = factWith? pick k l v a := by
  rw [joinFact_eq picks]
  cases factWith? pick k l v a with
  | none => exact unknown
  | some fact => exact (fact?_learn joined v v fact).trans (if_pos rfl)

section Fold

variable {facts : List (Var × Fact)}

theorem ty?_foldl_joinFact (picks : merger.Picks pick) :
    (facts.foldl (fun joined (v, a) => joinFact merger k l joined v a) joined).ty? w = joined.ty? w := by
  refine List.foldlRecOn (motive := fun m : Knowledge => m.ty? w = joined.ty? w) facts _ rfl ?_
  intro m same (v, a) _
  exact (ty?_joinFact picks).trans same

theorem fact?_foldl_joinFact_of_ne (picks : merger.Picks pick) (other : ∀ entry ∈ facts, entry.1 ≠ w) :
    (facts.foldl (fun joined (v, a) => joinFact merger k l joined v a) joined).fact? w = joined.fact? w := by
  refine List.foldlRecOn (motive := fun m : Knowledge => m.fact? w = joined.fact? w) facts _ rfl ?_
  intro m same (v, a) mem
  exact (fact?_joinFact_of_ne picks (other (v, a) mem)).trans same

theorem fact?_foldl_joinFact_of_mem (picks : merger.Picks pick) (distinct : facts.Pairwise fun a b => a.1 ≠ b.1)
    (unknown : joined.fact? v = none) (mem : (v, a) ∈ facts) :
    (facts.foldl (fun joined (v, a) => joinFact merger k l joined v a) joined).fact? v = factWith? pick k l v a := by
  induction facts generalizing joined with
  | nil => cases mem
  | cons entry facts ih =>
    obtain ⟨apart, distinct⟩ := List.pairwise_cons.mp distinct
    rw [List.foldl_cons]
    -- The entry of `v` comes first, and no later one is about `v`; or else it is still to come.
    rcases List.mem_cons.mp mem with rfl | later
    · rw [fact?_foldl_joinFact_of_ne picks fun other inside => (apart other inside).symm]
      exact fact?_joinFact_self picks unknown
    · refine ih distinct ?_ later
      rw [fact?_joinFact_of_ne picks (apart (v, a) later)]
      exact unknown

end Fold

theorem ty?_join (picks : merger.Picks pick) (k l : Knowledge) (v : Var) : (k.join merger l).ty? v = k.ty? v :=
  ty?_foldl_joinFact picks

/-- A join knows of a variable what both sides know, or else what the merger makes of the two facts. -/
theorem fact?_join (picks : merger.Picks pick) (k l : Knowledge) (v : Var) :
    (k.join merger l).fact? v = (k.fact? v).bind (factWith? pick k l v) := by
  have distinct : k.toList.Pairwise fun a b => a.1 ≠ b.1 :=
    Std.ExtTreeMap.distinct_keys_toList.imp fun differ same => differ (Std.LawfulEqOrd.compare_eq_iff_eq.mpr same)
  have unknown : ({ decls := k.decls } : Knowledge).fact? v = none := Std.ExtTreeMap.getElem?_empty
  cases known : k.fact? v with
  | none =>
    have absent : ∀ entry ∈ k.toList, entry.1 ≠ v := by
      rintro ⟨w, a⟩ mem rfl
      have known' : k.fact? w = some a := Std.ExtTreeMap.mem_toList_iff_getElem?_eq_some.mp mem
      rw [known] at known'
      cases known'
    exact (fact?_foldl_joinFact_of_ne picks absent).trans unknown
  | some a =>
    have mem : (v, a) ∈ k.toList := Std.ExtTreeMap.mem_toList_iff_getElem?_eq_some.mpr known
    exact fact?_foldl_joinFact_of_mem picks distinct unknown mem

/-- A fact that a join knows is known on both sides, or was picked for two that differ. -/
theorem fact?_join_cases (picks : merger.Picks pick) {fact : Fact} (known : (k.join merger l).fact? v = some fact) :
    k.fact? v = some fact ∧ l.fact? v = some fact ∨
      ∃ a b ty, k.fact? v = some a ∧ l.fact? v = some b ∧ a ≠ b ∧ k.ty? v = some ty ∧ pick ty a b = some fact := by
  rw [fact?_join picks] at known
  obtain ⟨a, atK, rest⟩ := Option.bind_eq_some_iff.mp known
  obtain ⟨b, atL, picked⟩ := Option.bind_eq_some_iff.mp rest
  split at picked
  · rename_i same
    subst same
    cases picked
    exact .inl ⟨atK, atL⟩
  · rename_i differ
    obtain ⟨ty, declared, picked⟩ := Option.bind_eq_some_iff.mp picked
    exact .inr ⟨a, b, ty, atK, atL, differ, declared, picked⟩

end Knowledge

end ForwardFlow
