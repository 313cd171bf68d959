import Mathlib.Data.List.Perm.Basic
import ForwardFlow.Proofs.Knowledge.Sound

namespace ForwardFlow

namespace Merger

/-- The order does not matter in which facts that differ are merged. A merged fact takes on no more from the facts it
was made of, nor from itself. -/
structure Orderless (pick : Fact → Fact → Option Fact) : Prop where
  comm (a b : Fact) : pick a b = pick b a
  assoc (a b c : Fact) : ((pick a b).bind fun d => pick d c) = (pick b c).bind fun d => pick a d
  absorb (a b : Fact) : ((pick a b).bind fun d => pick a d) = pick a b
  keep {a b c : Fact} : pick a b = some c → pick c c = some c

theorem orderless_none : Orderless fun _ _ => none where
  comm _ _ := rfl
  assoc _ _ _ := rfl
  absorb _ _ := rfl
  keep picked := nomatch picked

section Around

variable {a b fact : Fact} {x y : Int64 × Int64}

theorem max_comm (a b : Int64) : max a b = max b a :=
  Int64.le_antisymm (Std.max_le_iff.mpr ⟨Std.right_le_max, Std.left_le_max⟩)
    (Std.max_le_iff.mpr ⟨Std.right_le_max, Std.left_le_max⟩)

/-- The fact that a pair of bounds stands for. -/
def within (x : Int64 × Int64) : Fact := .range x.1 x.2

@[simp] theorem bounds?_within (x : Int64 × Int64) : bounds? (within x) = some x := rfl

/-- The bounds around two pairs of bounds. -/
def enclose (x y : Int64 × Int64) : Int64 × Int64 := (min x.1 y.1, max x.2 y.2)

theorem enclose_comm (x y : Int64 × Int64) : enclose x y = enclose y x :=
  Prod.ext (@Std.Commutative.comm _ min _ x.1 y.1) (max_comm x.2 y.2)

theorem enclose_assoc (x y z : Int64 × Int64) : enclose (enclose x y) z = enclose x (enclose y z) :=
  Prod.ext (@Std.Associative.assoc _ min _ x.1 y.1 z.1) (@Std.Associative.assoc _ max _ x.2 y.2 z.2)

theorem enclose_self (x : Int64 × Int64) : enclose x x = x := Prod.ext Std.min_self Std.max_self

theorem around?_eq (a b : Fact) :
    around? a b = (bounds? a).bind fun x => (bounds? b).map fun y => within (enclose x y) := by
  unfold around?
  cases bounds? a <;> cases bounds? b <;> rfl

theorem orderless_around? : Orderless around? where
  comm a b := by
    cases left : bounds? a <;> cases right : bounds? b <;> simp [around?_eq, left, right, enclose_comm]
  assoc a b c := by
    cases left : bounds? a <;> cases mid : bounds? b <;> cases right : bounds? c <;>
      simp [around?_eq, left, mid, right, enclose_assoc]
  absorb a b := by
    cases left : bounds? a <;> cases right : bounds? b <;>
      simp [around?_eq, left, right, ← enclose_assoc, enclose_self]
  keep {a b c} picked := by
    cases left : bounds? a <;> cases right : bounds? b <;> simp [around?_eq, left, right] at picked
    subst picked
    simp [around?_eq, enclose_self]

end Around

/-- What the facts on two sides come to. -/
def combine (pick : Fact → Fact → Option Fact) (x y : Option Fact) : Option Fact :=
  x.bind fun a => y.bind fun b => if a = b then some a else pick a b

section Combine

variable {pick : Fact → Fact → Option Fact}

theorem combine_self (x : Option Fact) : combine pick x x = x := by
  cases x with
  | none => rfl
  | some a => exact if_pos rfl

theorem combine_of_ne {a b : Fact} (differ : a ≠ b) : combine pick (some a) (some b) = pick a b := if_neg differ

namespace Orderless

theorem combine_comm (orderless : Orderless pick) (x y : Option Fact) : combine pick x y = combine pick y x := by
  cases x with
  | none => cases y <;> rfl
  | some a =>
    cases y with
    | none => rfl
    | some b =>
      by_cases same : a = b
      · rw [same]
      · calc combine pick (some a) (some b) = pick a b := if_neg same
          _ = pick b a := orderless.comm a b
          _ = combine pick (some b) (some a) := (if_neg (Ne.symm same)).symm

/-- A merged fact is merged with any other, were it the same one. -/
theorem combine_pick (orderless : Orderless pick) (a b c : Fact) :
    combine pick (pick a b) (some c) = (pick a b).bind fun d => pick d c := by
  cases picked : pick a b with
  | none => rfl
  | some d =>
    by_cases same : d = c
    · rw [← same, combine_self]
      exact (orderless.keep picked).symm
    · exact combine_of_ne same

theorem combine_absorb (orderless : Orderless pick) (a b : Fact) : combine pick (some a) (pick a b) = pick a b := by
  rw [orderless.combine_comm, orderless.combine_pick]
  simp only [orderless.comm _ a, orderless.absorb]

theorem combine_assoc (orderless : Orderless pick) (x y z : Option Fact) :
    combine pick (combine pick x y) z = combine pick x (combine pick y z) := by
  match x, y, z with
  | none, _, _ => rfl
  | some a, none, _ => rfl
  | some a, some b, none =>
    rw [orderless.combine_comm _ none, orderless.combine_comm (some b) none]
    rfl
  | some a, some b, some c =>
    by_cases first : a = b
    · subst first
      rw [combine_self]
      by_cases last : a = c
      · rw [last, combine_self, combine_self]
      · rw [combine_of_ne last, orderless.combine_absorb]
    · by_cases last : b = c
      · rw [← last, combine_self, combine_of_ne first, orderless.comm a b, orderless.combine_comm,
          orderless.combine_absorb]
      · rw [combine_of_ne first, combine_of_ne last, orderless.combine_pick, orderless.combine_comm (some a),
          orderless.combine_pick, orderless.assoc]
        simp only [orderless.comm a]

end Orderless

end Combine

end Merger

namespace Knowledge

variable {merger : Merger} {pick : Ty → Fact → Fact → Option Fact} {k l m : Knowledge} {ks ls : List Knowledge}

theorem ext_lookup (types : ∀ v, k.ty? v = l.ty? v) (facts : ∀ v, k.fact? v = l.fact? v) : k = l := by
  have decls : k.decls = l.decls := Std.ExtTreeMap.ext_getElem? types
  have facts : k.facts = l.facts := Std.ExtTreeMap.ext_getElem? facts
  cases k
  cases l
  exact congrArg₂ mk decls facts

theorem ty?_eq_of_decls (same : k.decls = l.decls) (v : Var) : k.ty? v = l.ty? v := congrArg (·[v]?) same

/-- What a merger picks for a variable that may be declared. -/
def pickFor (pick : Ty → Fact → Fact → Option Fact) (ty : Option Ty) (a b : Fact) : Option Fact :=
  ty.bind fun ty => pick ty a b

theorem orderless_pickFor (orderless : ∀ ty, Merger.Orderless (pick ty)) (ty : Option Ty) :
    Merger.Orderless (pickFor pick ty) := by
  cases ty with
  | none => exact Merger.orderless_none
  | some ty => exact orderless ty

theorem fact?_join_eq_combine (picks : merger.Picks pick) (k l : Knowledge) (v : Var) :
    (k.join merger l).fact? v = Merger.combine (pickFor pick (k.ty? v)) (k.fact? v) (l.fact? v) :=
  fact?_join picks k l v

theorem join_self (picks : merger.Picks pick) (k : Knowledge) : k.join merger k = k := by
  refine ext_lookup (ty?_join picks k k) fun v => ?_
  rw [fact?_join_eq_combine picks, Merger.combine_self]

section Orderless

variable (picks : merger.Picks pick) (orderless : ∀ ty, Merger.Orderless (pick ty))

include picks orderless

theorem join_comm (same : k.decls = l.decls) : k.join merger l = l.join merger k := by
  refine ext_lookup (fun v => ?_) fun v => ?_
  · rw [ty?_join picks, ty?_join picks, ty?_eq_of_decls same]
  · rw [fact?_join_eq_combine picks, fact?_join_eq_combine picks, ty?_eq_of_decls same,
      (orderless_pickFor orderless _).combine_comm]

theorem join_assoc (same : k.decls = l.decls) (m : Knowledge) :
    (k.join merger l).join merger m = k.join merger (l.join merger m) := by
  refine ext_lookup (fun v => ?_) fun v => ?_
  · rw [ty?_join picks, ty?_join picks, ty?_join picks]
  · simp only [fact?_join_eq_combine picks, ty?_join picks, ty?_eq_of_decls same]
    exact (orderless_pickFor orderless _).combine_assoc ..

/-- Two states that are joined into a third one may come in either order, whatever they declare. -/
theorem join_right_comm (m k l : Knowledge) :
    (m.join merger k).join merger l = (m.join merger l).join merger k := by
  refine ext_lookup (fun v => ?_) fun v => ?_
  · simp only [ty?_join picks]
  · have law := orderless_pickFor orderless (m.ty? v)
    simp only [fact?_join_eq_combine picks, ty?_join picks]
    rw [law.combine_assoc, law.combine_assoc, law.combine_comm (k.fact? v)]

end Orderless

/-- The join of some states, from the first one to the last. -/
def joinAll (merger : Merger) : List Knowledge → Option Knowledge
  | [] => none
  | k :: rest => some (rest.foldl (join merger) k)

theorem joinAll_perm (picks : merger.Picks pick) (orderless : ∀ ty, Merger.Orderless (pick ty)) (perm : ks.Perm ls)
    (same : ∀ k ∈ ks, ∀ l ∈ ks, k.decls = l.decls) : joinAll merger ks = joinAll merger ls := by
  have step : RightCommutative (join merger) := ⟨join_right_comm picks orderless⟩
  induction perm with
  | nil => rfl
  | cons k perm _ => exact congrArg some (perm.foldl_eq k)
  | swap k l rest =>
    have first : l.join merger k = k.join merger l :=
      join_comm picks orderless (same l List.mem_cons_self k (List.mem_cons_of_mem l List.mem_cons_self))
    exact congrArg (fun m => some (rest.foldl (join merger) m)) first
  | trans one _ ih ih' =>
    exact (ih same).trans (ih' fun k memK l memL => same k (one.mem_iff.mpr memK) l (one.mem_iff.mpr memL))

theorem equivalent_of_eq (same : k = l) : k.equivalent l = true := decide_eq_true (congrArg facts same)

/-- The mergers of the library's own analyses: facts that differ are forgotten, or integers keep the bounds around
them. -/
theorem exists_pick (own : merger = .strict ∨ merger = .ranges) :
    ∃ pick, merger.Picks pick ∧ (∀ ty, Merger.Orderless (pick ty)) ∧ Merger.Widens pick := by
  obtain rfl | rfl := own
  · exact ⟨_, Merger.strict_picks, fun _ => Merger.orderless_none, Merger.widens_strict⟩
  · refine ⟨_, Merger.ranges_picks, fun ty => ?_, Merger.widens_ranges⟩
    split
    · exact Merger.orderless_around?
    · exact Merger.orderless_none

/-- Where paths meet, it does not matter in which order their states are joined, nor how often, and what holds on one of
the paths still holds. This is so with the mergers of the library's own analyses, for states with the same
declarations. -/
theorem join_any_order (own : merger = .strict ∨ merger = .ranges) :
    (∀ k : Knowledge, (k.join merger k).equivalent k = true) ∧
    (∀ k l : Knowledge, k.decls = l.decls → (k.join merger l).equivalent (l.join merger k) = true) ∧
    (∀ k l m : Knowledge, k.decls = l.decls → l.decls = m.decls →
      ((k.join merger l).join merger m).equivalent (k.join merger (l.join merger m)) = true) ∧
    (∀ (k l : Knowledge) (ks ls : List Knowledge), (∀ m ∈ k :: ks, m.decls = k.decls) → (k :: ks).Perm (l :: ls) →
      (ks.foldl (join merger) k).equivalent (ls.foldl (join merger) l) = true) ∧
    ∀ (k l : Knowledge) (store : Store), k.decls = l.decls → k.Holds store ∨ l.Holds store →
      (k.join merger l).Holds store := by
  obtain ⟨pick, picks, orderless, widens⟩ := exists_pick own
  refine ⟨fun k => equivalent_of_eq (join_self picks k),
    fun k l same => equivalent_of_eq (join_comm picks orderless same),
    fun k l m same _ => equivalent_of_eq (join_assoc picks orderless same m), fun k l ks ls same perm => ?_,
    fun k l store _ either => join_holds picks widens either⟩
  have all : joinAll merger (k :: ks) = joinAll merger (l :: ls) :=
    joinAll_perm picks orderless perm fun m mem n mem' => (same m mem).trans (same n mem').symm
  exact equivalent_of_eq (Option.some.inj all)

/-- A point, the bounds that hold just that point, and bounds that hold nothing come to the same in both orders, and the
point is not lost. -/
theorem join_any_order_bounds :
    let known (fact : Fact) : Knowledge := (Knowledge.empty.declare (.slot 0) .int).learn (.slot 0) fact
    let store : Store := Function.update Store.empty (.slot 0) (some (.int 3))
    (known (.int 3)).Holds store ∧
      ([known (.range 3 3), known (.range 7 5)].foldl (join .ranges) (known (.int 3))).equivalent
        ([known (.int 3), known (.range 3 3)].foldl (join .ranges) (known (.range 7 5))) = true ∧
      ((known (.range 7 5)).join .ranges (known (.int 3))).Holds store := by
  intro known store
  have unknown : (Knowledge.empty.declare (.slot 0) .int).Holds .empty :=
    holds_of_unknown fun x => Std.ExtTreeMap.getElem?_empty
  have holds : (known (.int 3)).Holds store := by
    show (Knowledge.update _ (.slot 0) (some (.int 3))).Holds _
    refine unknown.update fun fact point => ⟨.int 3, rfl, ?_⟩
    cases point
    rfl
  obtain ⟨_, _, _, folds, sound⟩ := join_any_order (.inr rfl)
  refine ⟨holds, folds _ _ _ _ ?_ ?_, sound _ _ store rfl (.inr holds)⟩
  · intro m mem
    simp only [List.mem_cons, List.not_mem_nil, or_false] at mem
    obtain rfl | rfl | rfl := mem <;> rfl
  · show ([known (.int 3), known (.range 3 3)] ++ [known (.range 7 5)]).Perm _
    exact List.perm_append_comm

end Knowledge

end ForwardFlow
