import Mathlib.Data.List.Nodup
import ForwardFlow.Proofs.Engine.Worklist
import ForwardFlow.Proofs.Graph.CheckedOrder
import ForwardFlow.Proofs.Lasting
import ForwardFlow.Proofs.Results

namespace ForwardFlow

namespace Worklist

inductive Call
  | push (b : Block)
  | pop
deriving DecidableEq, Repr

/-- A call that was made, and what it gave out. -/
inductive Move
  | push (b : Block)
  | pop (given : Option Block)
deriving DecidableEq, Repr

def Move.call : Move → Call
  | .push b => .push b
  | .pop _ => .pop

/-- A worklist, and what has been done with it since it was empty. -/
structure Course where
  history : List Move := []
  worklist : Worklist

def Course.make (order : BlockOrder) (course : Course) : Call → Except Fault Course
  | .push b => .ok ⟨course.history ++ [.push b], course.worklist.push order b⟩
  | .pop => do
    match ← course.worklist.pop order with
    | none => return { course with history := course.history ++ [.pop none] }
    | some (b, rest) => return ⟨course.history ++ [.pop (some b)], rest⟩

/-- Makes calls one after another, of a worklist that is empty at first. -/
def Course.ofCalls (order : BlockOrder) (policy : Policy) (calls : List Call) : Except Fault Course :=
  calls.foldlM (Course.make order) { worklist := .empty policy }

/-- A block is pending once it was pushed, until it is given out. -/
def Pending (history : List Move) (b : Block) : Prop := Lasting (· = .push b) (.pop (some b)) history

/-- At some moment one block was pending and another was not, and the one has not been given out since. -/
def PendingLonger (history : List Move) (b c : Block) : Prop :=
  ∃ before after, history = before ++ after ∧ Pending before b ∧ ¬Pending before c ∧ .pop (some b) ∉ after

end Worklist

namespace Policy

/-- Whether a policy gives out one pending block before another. -/
def Prefers (order : BlockOrder) (history : List Worklist.Move) : Policy → Block → Block → Prop
  | .reversePostorder, b, c => order.rank b < order.rank c
  | .fifo, b, c => Worklist.PendingLonger history b c

/-- What has to be given out next: the pending block that the policy prefers to all others, or nothing if none is
pending. -/
def Due (order : BlockOrder) (history : List Worklist.Move) (policy : Policy) : Option Block → Prop
  | none => ∀ b, ¬Worklist.Pending history b
  | some b => Worklist.Pending history b ∧
      ∀ c, Worklist.Pending history c → c ≠ b → policy.Prefers order history b c

end Policy

namespace Worklist

variable {history : List Move} {m : Move} {b c : Block}

theorem pending_push : Pending (history ++ [.push c]) b ↔ b = c ∨ Pending history b := by
  simp [Pending, lasting_snoc, eq_comm]

theorem pending_pop_some : Pending (history ++ [.pop (some c)]) b ↔ Pending history b ∧ b ≠ c := by
  simp [Pending, lasting_snoc]

theorem pending_pop_none : Pending (history ++ [.pop none]) b ↔ Pending history b := by
  simp [Pending, lasting_snoc]

theorem PendingLonger.snoc (longer : PendingLonger history b c) (other : .pop (some b) ≠ m) :
    PendingLonger (history ++ [m]) b c := by
  obtain ⟨before, after, rfl, one, two, kept⟩ := longer
  refine ⟨before, after ++ [m], List.append_assoc .., one, two, ?_⟩
  simp only [List.mem_append, List.mem_singleton, not_or]
  exact ⟨kept, other⟩

/-- The block that was pushed last is pending for the shortest time. -/
theorem Pending.longer (waits : Pending history b) (new : ¬Pending history c) :
    PendingLonger (history ++ [.push c]) b c :=
  ⟨history, [.push c], rfl, waits, new, by simp⟩

theorem PendingLonger.asymm (longer : PendingLonger history b c) : ¬PendingLonger history c b := by
  obtain ⟨before, after, rfl, waits, absent, kept⟩ := longer
  rintro ⟨before', after', same, waits', absent', kept'⟩
  obtain ⟨between, rfl, rfl⟩ | ⟨between, rfl, rfl⟩ := List.append_eq_append_iff.mp same
  · exact absent' (lasting_append.mpr (.inr ⟨waits, fun mem => kept (List.mem_append_left _ mem)⟩))
  · exact absent (lasting_append.mpr (.inr ⟨waits', fun mem => kept' (List.mem_append_left _ mem)⟩))

end Worklist

namespace Policy

variable {order : BlockOrder} {policy : Policy} {history : List Worklist.Move} {b c : Block}

theorem Prefers.asymm (prefers : policy.Prefers order history b c) : ¬policy.Prefers order history c b := by
  cases policy with
  | reversePostorder => exact Nat.lt_asymm prefers
  | fifo => exact Worklist.PendingLonger.asymm prefers

theorem Due.unique {one two : Option Block} (dueOne : policy.Due order history one)
    (dueTwo : policy.Due order history two) : one = two := by
  match one, two with
  | none, none => rfl
  | none, some b => exact absurd dueTwo.1 (dueOne b)
  | some b, none => exact absurd dueOne.1 (dueTwo b)
  | some b, some c =>
    by_contra differ
    have other : b ≠ c := fun same => differ (congrArg some same)
    exact (dueOne.2 c dueTwo.1 other.symm).asymm (dueTwo.2 b dueOne.1 other)

end Policy

namespace Worklist

variable {order : BlockOrder} {policy : Policy} {w : Worklist} {course : Course} {m : Move} {b : Block}
  {pending : List Block}

/-- The pending blocks as a worklist keeps them. -/
def blocks (order : BlockOrder) : Worklist → List Block
  | .positions pending => pending.toList.filterMap order.blocks.get?
  | .queue waiting _ => waiting

/-- Positions are those of blocks, and a queue has the set of its members beside it. -/
def Agrees (order : BlockOrder) : Policy → Worklist → Prop
  | .reversePostorder, .positions pending => ∀ p ∈ pending, ∃ b, order.position? b = some p
  | .fifo, .queue waiting members => ∀ b, b ∈ members ↔ b ∈ waiting
  | _, _ => False

namespace Lists

theorem nodup (lists : Lists order policy w pending) : pending.Nodup := by
  cases lists with
  | positions _ _ sorted => exact sorted.imp fun less => ne_of_apply_ne order.rank (Nat.ne_of_lt less)
  | queue _ distinct => exact distinct

theorem sorted (lists : Lists order .reversePostorder w pending) :
    pending.Pairwise fun b c => order.rank b < order.rank c := by
  cases lists with
  | positions _ _ sorted => exact sorted

theorem agrees (lists : Lists order policy w pending) : Agrees order policy w := by
  cases lists with
  | positions mem _ _ =>
    intro p inside
    obtain ⟨b, _, atB⟩ := (mem p).mp inside
    exact ⟨b, atB⟩
  | queue mem _ => exact mem

theorem mem_blocks (lists : Lists order policy w pending) (numbered : order.Numbered) :
    b ∈ w.blocks order ↔ b ∈ pending := by
  cases lists with
  | positions mem placed _ =>
    simp only [blocks, List.mem_filterMap, Std.ExtTreeSet.mem_toList, mem, ← numbered.position?_iff]
    constructor
    · rintro ⟨p, ⟨c, listed, atC⟩, atB⟩
      have found := numbered.position?_iff.mp atB
      rw [numbered.position?_iff.mp atC] at found
      cases found
      exact listed
    · intro listed
      obtain ⟨n, atB⟩ := placed b listed
      exact ⟨_, ⟨b, listed, atB⟩, atB⟩
  | queue _ _ => rfl

theorem nodup_blocks (lists : Lists order policy w pending) (numbered : order.Numbered) :
    (w.blocks order).Nodup := by
  cases lists with
  | @positions set _ _ _ _ =>
    have distinct : set.toList.Nodup := Std.ExtTreeSet.distinct_toList.imp fun differ same =>
      differ (Std.LawfulEqCmp.compare_eq_iff_eq.mpr same)
    refine distinct.filterMap fun p q b atP atQ => ?_
    exact Option.some.inj ((numbered.position?_iff.mpr atP).symm.trans (numbered.position?_iff.mpr atQ))
  | queue _ distinct => exact distinct

end Lists

/-- The blocks of a list are those that are pending, in the order in which the policy prefers them, and what was given
out so far was due. -/
structure Course.Holds (order : BlockOrder) (policy : Policy) (course : Course) (pending : List Block) : Prop where
  lists : Lists order policy course.worklist pending
  mem : ∀ b, b ∈ pending ↔ Pending course.history b
  sorted : pending.Pairwise (policy.Prefers order course.history)
  given : ∀ before given after, course.history = before ++ .pop given :: after → policy.Due order before given

namespace Course

theorem Holds.due (holds : course.Holds order policy pending) : policy.Due order course.history pending.head? := by
  cases pending with
  | nil => exact fun b waits => List.not_mem_nil ((holds.mem b).mpr waits)
  | cons b pending =>
    refine ⟨(holds.mem b).mp List.mem_cons_self, fun c waits other => ?_⟩
    obtain same | later := List.mem_cons.mp ((holds.mem c).mpr waits)
    · exact absurd same other
    · exact (List.pairwise_cons.mp holds.sorted).1 c later

theorem Holds.given_snoc (holds : course.Holds order policy pending)
    (last : ∀ given, m = .pop given → policy.Due order course.history given) {before after : List Move}
    {given : Option Block} (same : course.history ++ [m] = before ++ .pop given :: after) :
    policy.Due order before given := by
  obtain ⟨rfl, one, -⟩ | ⟨rest, -, earlier⟩ := snoc_eq_append_cons_iff.mp same
  · exact last given one
  · exact holds.given before given rest earlier

theorem holds_empty : Holds order policy { worklist := .empty policy } [] where
  lists := lists_empty
  mem b := iff_of_false List.not_mem_nil not_lasting_nil
  sorted := .nil
  given before given after same := by simp at same

theorem Holds.push (holds : course.Holds order policy pending) (numbered : order.Numbered)
    (inside : b ∈ order.toList) :
    Holds order policy ⟨course.history ++ [.push b], course.worklist.push order b⟩
      (policy.enqueue order pending b) := by
  have lists := holds.lists.push numbered inside
  refine ⟨lists, fun c => ?_, ?_, fun _ _ _ => holds.given_snoc (by simp)⟩
  · rw [Policy.mem_enqueue, pending_push, holds.mem]
  · cases policy with
    | reversePostorder => exact lists.sorted
    | fifo =>
      have old : pending.Pairwise (PendingLonger (course.history ++ [.push b])) :=
        holds.sorted.imp fun longer => longer.snoc (by simp)
      unfold Policy.enqueue
      split
      · exact old
      -- A block that was not pending goes to the end, where all others have been pending longer.
      · rename_i new
        refine List.pairwise_append.mpr ⟨old, List.pairwise_singleton _ b, fun c waits d single => ?_⟩
        cases List.mem_singleton.mp single
        exact Pending.longer ((holds.mem c).mp waits) fun waits => new ((holds.mem b).mpr waits)

theorem Holds.pop_nil (holds : course.Holds order policy []) :
    Holds order policy ⟨course.history ++ [.pop none], course.worklist⟩ [] where
  lists := holds.lists
  mem b := by rw [pending_pop_none, holds.mem]
  sorted := .nil
  given _ _ _ := holds.given_snoc fun given same => by cases same; exact holds.due

theorem Holds.pop_cons (holds : course.Holds order policy (b :: pending)) (lists : Lists order policy w pending) :
    Holds order policy ⟨course.history ++ [.pop (some b)], w⟩ pending where
  lists := lists
  mem c := by
    have new := (List.nodup_cons.mp holds.lists.nodup).1
    rw [pending_pop_some, ← holds.mem, List.mem_cons]
    constructor
    · exact fun later => ⟨.inr later, fun same => new (same ▸ later)⟩
    · exact fun ⟨either, other⟩ => either.resolve_left other
  sorted := by
    have sorted := (List.pairwise_cons.mp holds.sorted).2
    cases policy with
    | reversePostorder => exact sorted
    | fifo =>
      -- No block that is left is the one given out, so what has been pending longer still has.
      refine sorted.imp_of_mem fun {c d} mem _ longer => longer.snoc fun same => ?_
      cases same
      exact (List.nodup_cons.mp holds.lists.nodup).1 mem
  given _ _ _ := holds.given_snoc fun given same => by cases same; exact holds.due

/-- What a pop gives out is the first block of the list. -/
theorem Holds.pop (holds : course.Holds order policy pending) (numbered : order.Numbered) :
    (course.worklist.pop order).map (·.map Prod.fst) = .ok pending.head? ∧
    ∃ next rest, course.make order .pop = .ok next ∧ next.Holds order policy rest ∧
      next.history = course.history ++ [.pop pending.head?] := by
  cases pending with
  | nil =>
    have nothing := holds.lists.pop_nil
    exact ⟨congrArg _ nothing, _, [], bind_eq_ok.mpr ⟨_, nothing, rfl⟩, holds.pop_nil, rfl⟩
  | cons b pending =>
    obtain ⟨w, popped, lists⟩ := holds.lists.pop_cons numbered
    exact ⟨congrArg _ popped, _, pending, bind_eq_ok.mpr ⟨_, popped, rfl⟩, holds.pop_cons lists, rfl⟩

theorem Holds.make (holds : course.Holds order policy pending) (numbered : order.Numbered) {call : Call}
    (inside : ∀ b, call = .push b → b ∈ order.toList) : ∃ next rest, course.make order call = .ok next ∧
      next.Holds order policy rest ∧ next.history.map Move.call = course.history.map Move.call ++ [call] := by
  cases call with
  | push b => exact ⟨_, _, rfl, holds.push numbered (inside b rfl), by simp [Move.call]⟩
  | pop =>
    obtain ⟨next, rest, made, holds, history⟩ := (holds.pop numbered).2
    exact ⟨next, rest, made, holds, by simp [history, Move.call]⟩

/-- No call fails. The history shows the calls, and there is a list of the blocks that are pending after them. -/
theorem exists_holds (numbered : order.Numbered) {calls : List Call}
    (inside : ∀ b, .push b ∈ calls → b ∈ order.toList) :
    ∃ course pending, ofCalls order policy calls = .ok course ∧ course.history.map Move.call = calls ∧
      course.Holds order policy pending := by
  induction calls using List.reverseRecOn with
  | nil => exact ⟨_, [], rfl, rfl, holds_empty⟩
  | append_singleton calls call ih =>
    obtain ⟨course, pending, made, called, holds⟩ := ih fun b mem => inside b (List.mem_append_left _ mem)
    obtain ⟨next, rest, last, holds, history⟩ :=
      holds.make numbered fun b same => inside b (List.mem_append_right _ (List.mem_singleton.mpr same.symm))
    refine ⟨next, rest, ?_, by rw [history, called], holds⟩
    rw [ofCalls, List.foldlM_append]
    exact bind_eq_ok.mpr ⟨course, made, bind_eq_ok.mpr ⟨next, last, rfl⟩⟩

/-- What a worklist does after any calls. It keeps the pending blocks, each once, and gives out next what is due, as it
did before. A block that was pushed is given out later or is still kept, and between two moments at which a block is
given out it is pushed again. -/
structure Faithful (order : BlockOrder) (policy : Policy) (course : Course) : Prop where
  keeps : ∀ b, b ∈ course.worklist.blocks order ↔ Pending course.history b
  distinct : (course.worklist.blocks order).Nodup
  agrees : Agrees order policy course.worklist
  gives : ∃ given, (course.worklist.pop order).map (·.map Prod.fst) = .ok given ∧
    ∀ other, policy.Due order course.history other ↔ other = given
  given : ∀ before given after, course.history = before ++ .pop given :: after → policy.Due order before given
  kept : ∀ before b after, course.history = before ++ .push b :: after →
    .pop (some b) ∈ after ∨ b ∈ course.worklist.blocks order
  once : ∀ before b between after,
    course.history = before ++ .pop (some b) :: between ++ .pop (some b) :: after → .push b ∈ between

theorem Holds.faithful (holds : course.Holds order policy pending) (numbered : order.Numbered) :
    course.Faithful order policy := by
  have keeps (b : Block) : b ∈ course.worklist.blocks order ↔ Pending course.history b :=
    (holds.lists.mem_blocks numbered).trans (holds.mem b)
  refine ⟨keeps, holds.lists.nodup_blocks numbered, holds.lists.agrees,
    ⟨_, (holds.pop numbered).1, fun other => ?_⟩, holds.given, fun before b after same => ?_,
    fun before b between after same => ?_⟩
  · exact ⟨fun due => Policy.Due.unique due holds.due, fun same => same ▸ holds.due⟩
  · by_cases out : .pop (some b) ∈ after
    · exact .inl out
    · exact .inr ((keeps b).mpr ⟨before, _, after, same, rfl, out⟩)
  · obtain again | ⟨-, kept⟩ := lasting_append.mp (holds.given _ _ _ same).1
    · obtain ⟨move, mem, rfl⟩ := again.exists_mem
      exact (List.mem_cons.mp mem).resolve_left nofun
    · exact absurd List.mem_cons_self kept

/-- Under either policy, a worklist is a set of pending blocks. Whatever reachable blocks are pushed, and however often
a block is taken out between, the pending blocks are those that were pushed since they were last given out. The next
one to be given out is the first in the order or the one that has been pending for the longest time, and none is given
out only if none is pending. -/
theorem faithful_of_checkedOrder {body : Body} (checked : body.checkedOrder = .ok order) (policy : Policy)
    (calls : List Call) (reach : ∀ b, .push b ∈ calls → body.Reaches b) :
    ∃ course, ofCalls order policy calls = .ok course ∧ course.history.map Move.call = calls ∧
      course.Faithful order policy := by
  have fine := Body.exists_checkedOrder_iff.mp ⟨order, checked⟩
  have ok := Body.consistent_of_graphError? fine
  cases (Body.checkedOrder_of_graphError? fine).symm.trans checked
  have numbered := BlockOrder.numbered_ofList ok.nodup_reversePostorder
  obtain ⟨course, pending, made, called, holds⟩ :=
    exists_holds numbered fun b mem => ok.mem_reversePostorder.mpr (reach b mem)
  exact ⟨course, made, called, holds.faithful numbered⟩

/-- Where the ways of the fork meet is pushed before one of the two ways, which comes first in the order. -/
theorem faithful_of_checkedOrder_fork : ∃ order, Body.fork.checkedOrder = .ok order ∧
    ∀ policy, ∃ course, ofCalls order policy [.push (.slot 4), .push (.slot 1), .pop] = .ok course ∧
      course.history = [.push (.slot 4), .push (.slot 1), .pop (some (.slot (if policy = .fifo then 4 else 1)))] ∧
      course.Faithful order policy := by
  have fine : Body.fork.graphError? = none := by decide
  have ok := Body.consistent_of_graphError? fine
  have known (policy : Policy) : (ofCalls (.ofList Body.fork.reversePostorder) policy
      [.push (.slot 4), .push (.slot 1), .pop]).map Course.history =
        .ok [.push (.slot 4), .push (.slot 1), .pop (some (.slot (if policy = .fifo then 4 else 1)))] := by
    cases policy <;> cbv
  have checked := Body.checkedOrder_of_graphError? fine
  refine ⟨_, checked, fun policy => ?_⟩
  have reach (b : Block) (mem : .push b ∈ [Call.push (.slot 4), .push (.slot 1), .pop]) : Body.fork.Reaches b := by
    obtain rfl | rfl : b = .slot 4 ∨ b = .slot 1 := by simpa using mem
    all_goals exact ok.mem_reversePostorder.mp (by decide +kernel)
  obtain ⟨course, made, -, faithful⟩ := faithful_of_checkedOrder checked policy _ reach
  have shown := known policy
  rw [made] at shown
  exact ⟨course, made, Except.ok.inj shown, faithful⟩

end Course

end Worklist

end ForwardFlow
