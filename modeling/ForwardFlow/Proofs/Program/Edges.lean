import ForwardFlow.Program.Outline
import ForwardFlow.Proofs.Graph.Consistency

namespace ForwardFlow

section Table

variable {kind : Kind} {α : Type} {t u : Table kind α} {i j : Index kind} {a : α} {f : α → α}

theorem Table.get?_push (t : Table kind α) (a : α) (i : Index kind) :
    (t.push a).1.get? i = if .slot t.size = i then some a else t.get? i := by
  cases i with
  | invalid => simp [get?]
  | slot n => simp [push, get?, size, Array.getElem?_push, eq_comm]

/-- A change of one entry needs the entry, and leaves the others alone. -/
theorem Table.exists_of_modify? (done : t.modify? i f = some u) :
    ∃ a, t.get? i = some a ∧ ∀ j, u.get? j = if i = j then some (f a) else t.get? j := by
  obtain ⟨a, found, set⟩ := Option.bind_eq_some_iff.mp done
  exact ⟨a, found, Table.get?_set? set⟩

end Table

namespace Body

/-- A body as it is built: from a new one, by adding variables, blocks and edges, filling and naming blocks, and
choosing the entry. Blocks that do not exist are refused, except as the entry. -/
inductive Built : Body → Prop
  | new (name : String) : Built (.new name)
  | addVar {body : Body} (decl : VarDecl) : Built body → Built (body.addVar decl).1
  | addBlock {body : Body} : Built body → Built body.addBlock.1
  | addEdge {body next : Body} (a b : Block) : Built body → body.addEdge a b = .ok next → Built next
  | pushElement {body next : Body} (b : Block) (e : Element) :
    Built body → body.pushElement? b e = some next → Built next
  | setLabel {body next : Body} (b : Block) (label : Option String) :
    Built body → body.setLabel? b label = some next → Built next
  | setEntry {body : Body} (b : Block) : Built body → Built { body with entry := b }

/-- Both ends of each edge exist, and each edge is listed as often where it starts as where it ends. -/
structure Mirrored (body : Body) : Prop where
  succ_mem : ∀ {a b}, b ∈ body.succs a → body.blocks.contains b = true
  pred_mem : ∀ {a b}, a ∈ body.preds b → body.blocks.contains a = true
  count_eq : ∀ a b, (body.succs a).count b = (body.preds b).count a

theorem Mirrored.consistent {body : Body} (mirrored : body.Mirrored)
    (entry : body.blocks.contains body.entry = true) : body.Consistent :=
  ⟨entry, mirrored.succ_mem, mirrored.pred_mem, mirrored.count_eq⟩

variable {body next : Body} {a b : Block}

theorem Mirrored.of_same (mirrored : body.Mirrored) (succs : ∀ b, next.succs b = body.succs b)
    (preds : ∀ b, next.preds b = body.preds b)
    (contains : ∀ b, body.blocks.contains b = true → next.blocks.contains b = true) : next.Mirrored where
  succ_mem mem := contains _ (mirrored.succ_mem (succs _ ▸ mem))
  pred_mem mem := contains _ (mirrored.pred_mem (preds _ ▸ mem))
  count_eq a b := by rw [succs, preds, mirrored.count_eq]

/-- All that a change of one block can do. -/
theorem exists_of_modify? {f : BlockDef → BlockDef} (done : body.modify? b f = some next) :
    ∃ d, body.blocks.get? b = some d ∧
      ∀ c, next.blocks.get? c = if b = c then some (f d) else body.blocks.get? c := by
  obtain ⟨blocks, changed, same⟩ := Option.map_eq_some_iff.mp done
  cases same
  exact Table.exists_of_modify? changed

theorem contains_of_modify? {f : BlockDef → BlockDef} (done : body.modify? b f = some next) (c : Block) :
    next.blocks.contains c = body.blocks.contains c := by
  obtain ⟨d, found, entries⟩ := exists_of_modify? done
  rw [Table.contains_eq_isSome_get?, Table.contains_eq_isSome_get?, entries]
  split
  · rename_i here
    rw [← here, found]
    rfl
  · rfl

theorem entry_of_modify? {f : BlockDef → BlockDef} (done : body.modify? b f = some next) : next.entry = body.entry := by
  obtain ⟨_, _, rfl⟩ := Option.map_eq_some_iff.mp done
  rfl

/-- What a change of one block does to a list that each block has. -/
theorem elim_of_modify? {β : Type} {list : BlockDef → List β} {f : BlockDef → BlockDef} (g : List β → List β)
    (done : body.modify? b f = some next) (acts : ∀ d, list (f d) = g (list d)) (c : Block) :
    (next.blocks.get? c).elim [] list =
      if b = c then g ((body.blocks.get? c).elim [] list) else (body.blocks.get? c).elim [] list := by
  obtain ⟨d, found, entries⟩ := exists_of_modify? done
  rw [entries]
  split
  · rename_i here
    rw [← here, found, Option.elim_some, Option.elim_some, acts]
  · rfl

theorem Mirrored.of_modify? {f : BlockDef → BlockDef} (mirrored : body.Mirrored) (done : body.modify? b f = some next)
    (succs : ∀ d, (f d).succs = d.succs) (preds : ∀ d, (f d).preds = d.preds) : next.Mirrored :=
  mirrored.of_same (fun c => (elim_of_modify? id done succs c).trans (ite_self _))
    (fun c => (elim_of_modify? id done preds c).trans (ite_self _))
    fun c inside => (contains_of_modify? done c).trans inside

/-- A new edge is noted at both of its ends, and nowhere else. -/
theorem addEdge_edges (done : body.addEdge a b = .ok next) :
    body.blocks.contains a = true ∧ body.blocks.contains b = true ∧
    (∀ c, next.blocks.contains c = body.blocks.contains c) ∧
    (∀ c, next.succs c = if a = c then body.succs c ++ [b] else body.succs c) ∧
    ∀ c, next.preds c = if b = c then body.preds c ++ [a] else body.preds c := by
  unfold addEdge at done
  split at done
  · cases done
  rename_i started first
  split at done
  · cases done
  rename_i last second
  cases done
  obtain ⟨_, start, _⟩ := exists_of_modify? first
  obtain ⟨_, target, _⟩ := exists_of_modify? second
  have kept := contains_of_modify? first
  refine ⟨contains_of_get? start, kept b ▸ contains_of_get? target, fun c => ?_, fun c => ?_, fun c => ?_⟩
  · rw [contains_of_modify? second, kept]
  · have succs : next.succs c = started.succs c :=
      (elim_of_modify? id second (fun _ => rfl) c).trans (ite_self _)
    exact succs.trans (elim_of_modify? (· ++ [b]) first (fun _ => rfl) c)
  · have preds : started.preds c = body.preds c :=
      (elim_of_modify? id first (fun _ => rfl) c).trans (ite_self _)
    rw [← preds]
    exact elim_of_modify? (· ++ [a]) second (fun _ => rfl) c

theorem entry_addEdge (done : body.addEdge a b = .ok next) : next.entry = body.entry := by
  unfold addEdge at done
  split at done
  · cases done
  rename_i started first
  split at done
  · cases done
  rename_i last second
  cases done
  exact (entry_of_modify? second).trans (entry_of_modify? first)

theorem Mirrored.addEdge (mirrored : body.Mirrored) (done : body.addEdge a b = .ok next) : next.Mirrored := by
  obtain ⟨start, target, contains, succs, preds⟩ := addEdge_edges done
  refine ⟨fun {c d} mem => ?_, fun {c d} mem => ?_, fun c d => ?_⟩
  · rw [contains]
    rw [succs] at mem
    split at mem
    · obtain old | new := List.mem_append.mp mem
      · exact mirrored.succ_mem old
      · exact List.mem_singleton.mp new ▸ target
    · exact mirrored.succ_mem mem
  · rw [contains]
    rw [preds] at mem
    split at mem
    · obtain old | new := List.mem_append.mp mem
      · exact mirrored.pred_mem old
      · exact List.mem_singleton.mp new ▸ start
    · exact mirrored.pred_mem mem
  · have old := mirrored.count_eq c d
    rw [succs, preds]
    by_cases one : a = c <;> by_cases two : b = d <;> simp [one, two, old, List.count_append]

theorem mirrored_new (name : String) : (new name).Mirrored := by
  have noEdge (b : Block) : (new name).succs b = [] ∧ (new name).preds b = [] := by
    obtain (_ | n) | _ := b <;> exact ⟨rfl, rfl⟩
  refine ⟨fun mem => ?_, fun mem => ?_, fun a b => ?_⟩
  · rw [(noEdge _).1] at mem
    cases mem
  · rw [(noEdge _).2] at mem
    cases mem
  · rw [(noEdge a).1, (noEdge b).2]
    rfl

theorem get?_addBlock (body : Body) (c : Block) : body.addBlock.1.blocks.get? c =
    if .slot body.blocks.size = c then some {} else body.blocks.get? c := Table.get?_push body.blocks {} c

theorem elim_addBlock {β : Type} {list : BlockDef → List β} (empty : list {} = []) (c : Block) :
    (body.addBlock.1.blocks.get? c).elim [] list = (body.blocks.get? c).elim [] list := by
  rw [get?_addBlock]
  split
  · rename_i here
    have fresh : body.blocks.get? c = none := by
      rw [← here, Table.get?_slot, List.getElem?_eq_none_iff]
      exact Nat.le_of_eq Array.length_toList
    rw [fresh]
    exact empty
  · rfl

theorem contains_addBlock {c : Block} (inside : body.blocks.contains c = true) :
    body.addBlock.1.blocks.contains c = true := by
  rw [Table.contains_eq_isSome_get?] at inside ⊢
  rw [get?_addBlock]
  split
  · rfl
  · exact inside

theorem Mirrored.addBlock (mirrored : body.Mirrored) : body.addBlock.1.Mirrored :=
  mirrored.of_same (elim_addBlock rfl) (elim_addBlock rfl) fun _ => contains_addBlock

/-- Whatever is built, each edge stands in both lists. -/
theorem Built.mirrored (built : body.Built) : body.Mirrored := by
  induction built with
  | new name => exact mirrored_new name
  | addVar _ _ ih => exact ih.of_same (fun _ => rfl) (fun _ => rfl) fun _ inside => inside
  | addBlock _ ih => exact ih.addBlock
  | addEdge _ _ _ done ih => exact ih.addEdge done
  | pushElement _ _ _ done ih => exact ih.of_modify? done (fun _ => rfl) fun _ => rfl
  | setLabel _ _ _ done ih => exact ih.of_modify? done (fun _ => rfl) fun _ => rfl
  | setEntry _ _ ih => exact ih.of_same (fun _ => rfl) (fun _ => rfl) fun _ inside => inside

end Body

end ForwardFlow
