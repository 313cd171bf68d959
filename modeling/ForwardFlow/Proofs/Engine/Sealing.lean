import ForwardFlow.Proofs.Engine.Recorded
import ForwardFlow.Proofs.Graph.Consistency
import ForwardFlow.Proofs.Solver.Stage
import ForwardFlow.Solver.Engine

namespace ForwardFlow

open Recorded

theorem mapM_map_of_inverse {α β ε : Type} {f : α → β} {g : β → Except ε α} (inverse : ∀ a, g (f a) = .ok a)
    (l : List α) : (l.map f).mapM g = .ok l := by
  induction l with
  | nil => rfl
  | cons a l ih =>
    rw [List.map_cons, List.mapM_cons, inverse, ih]
    rfl

namespace Engine

variable {ι : Type} [DecidableEq ι] [Catalogue ι] {i : ι}

/-- A state as the engine holds it, with its lattice value under the tag. -/
def sealState (i : ι) (s : State (Catalogue.Carrier i)) : State (Sealed ι) := ⟨⟨i, s.lattice⟩, s.known⟩

def sealView (i : ι) (view : View (Catalogue.Carrier i)) : View (Sealed ι) := ⟨view.element, sealState i view.state⟩

theorem openState_sealState (s : State (Catalogue.Carrier i)) : openState i (sealState i s) = .ok s := by
  simp [openState, sealState]

theorem openView_sealView (view : View (Catalogue.Carrier i)) : openView i (sealView i view) = .ok view := by
  simp [openView, sealView, openState_sealState]

/-- The table of a body's blocks in which the engine keeps some states. -/
def sealExits (body : Body) (exits : Exits (Catalogue.Carrier i)) : ExitTable (Sealed ι) :=
  .ofIndices body.blocks.size fun b => exits[b]?.map (sealState i)

section Table

variable {body : Body} {exits : Exits (Catalogue.Carrier i)} {b : Block}

theorem read_sealExits (inside : body.blocks.contains b = true) :
    (sealExits body exits).read b = .ok (exits[b]?.map (sealState i)) := by
  rw [Table.read, sealExits, Table.get?_ofIndices, if_pos inside]

theorem write_sealExits (inside : body.blocks.contains b = true) (s : State (Catalogue.Carrier i)) :
    (sealExits body exits).write b (some (sealState i s)) = .ok (sealExits body (exits.insert b s)) := by
  have held : (sealExits body exits).contains b = true := by
    rw [Table.contains_eq_isSome_get?, sealExits, Table.get?_ofIndices, if_pos inside, Option.isSome_some]
  obtain ⟨table, set⟩ := Table.exists_set? held (some (sealState i s))
  have same : table = sealExits body (exits.insert b s) := by
    refine Table.ext_get? fun c => ?_
    rw [Table.get?_set? set, sealExits, sealExits, Table.get?_ofIndices, Table.get?_ofIndices, Exits.getElem?_insert]
    by_cases here : b = c
    · subst here
      simp [inside]
    · simp [here]
  rw [Table.write, set, same]

/-- One who knows the tag can open the whole table. -/
theorem openExits_sealExits :
    openExits i (sealExits body exits) = .ok (.ofIndices body.blocks.size fun b => exits[b]?) := by
  have one (exit : Option (State (Catalogue.Carrier i))) : openExit i (exit.map (sealState i)) = .ok exit := by
    cases exit with
    | none => rfl
    | some s => rw [Option.map_some, openExit, openState_sealState, Except.map]
  have table : (sealExits body exits).toList =
      ((List.range body.blocks.size).map fun n => exits[(Index.slot n : Block)]?).map (Option.map (sealState i)) := by
    rw [List.map_map]
    rfl
  rw [openExits, table, mapM_map_of_inverse one]
  rfl

end Table

section Problem

variable (p : Problem (Catalogue.Carrier i))

theorem gives_join (s t : State (Catalogue.Carrier i)) :
    (join p (sealState i s) (sealState i t)).Gives (sealState i (p.pass.join s t)) := by
  have lattice : (sealState i s).lattice.joinAs i (sealState i t).lattice =
      .ok (⟨i, JoinLattice.join s.lattice t.lattice⟩, JoinLattice.effect s.lattice t.lattice) := by
    simp only [Sealed.joinAs, sealState, Sealed.openAs_mk]
    rfl
  rw [join, lattice, checked_ok, pure_bind]
  exact (gives_joinM (fun ty a b joined => ⟨rfl, rfl⟩) s.known t.known).bind (gives_pure _)

theorem gives_joinExit {exits : Exits (Catalogue.Carrier i)} {q : Block} (inside : p.body.blocks.contains q = true)
    (joined : Option (State (Catalogue.Carrier i))) :
    (joinExit p (sealExits p.body exits) (joined.map (sealState i)) q).Gives
      ((p.joinExit exits joined q).map (sealState i)) := by
  rw [joinExit, read_sealExits inside, checked_ok, pure_bind, Problem.joinExit]
  cases exits[q]? with
  | none => exact gives_pure _
  | some exit =>
    cases joined with
    | none => exact gives_pure _
    | some s => exact (gives_join p s exit).bind (gives_pure _)

/-- What arrives at the start of a block is under the tag. -/
theorem gives_input (ok : p.body.Consistent) (exits : Exits (Catalogue.Carrier i)) {b : Block}
    (inside : p.body.blocks.contains b = true) :
    (input p (sealExits p.body exits) b).Gives ((p.input exits b).map (sealState i)) := by
  obtain ⟨d, found⟩ := Table.exists_get? inside
  have seed : (if b = p.body.entry then some (initial p) else none) =
      (if b = p.body.entry then some p.initial else none).map (sealState i) := by
    split <;> rfl
  have preds : p.body.preds b = d.preds := Body.preds_of_get? found
  rw [input, Table.read, found, checked_ok, pure_bind, Problem.input, seed, preds]
  exact gives_foldlM _ (fun joined q mem => gives_joinExit p (ok.pred_mem (preds ▸ mem)) joined) _

theorem gives_runModel (e : Element) (known : Knowledge) (model : Model) :
    (runModel e known model : Recorded (Sealed ι) Knowledge).Gives (model e known).2 := ⟨rfl, rfl⟩

theorem gives_elementHook (e : Element) (s : State (Catalogue.Carrier i)) :
    (elementHook p e s).Gives (p.pass.elementHook e s) := by
  unfold elementHook Pass.elementHook
  split <;> exact ⟨rfl, rfl⟩

theorem gives_stmtHook (e : Element) (s : State (Catalogue.Carrier i)) :
    (stmtHook p e s).Gives (p.pass.stmtHook e s) := by
  unfold stmtHook Pass.stmtHook
  cases e.stmt? with
  | none => exact gives_pure s
  | some stmt =>
    dsimp only
    split <;> exact ⟨rfl, rfl⟩

theorem gives_transfer (s : State (Catalogue.Carrier i)) (e : Element) :
    (transfer p (sealState i s) e).Gives (sealState i (p.pass.transfer s e)) := by
  have models : (p.pass.models.foldlM (runModel e) (p.pass.builtin s.known e) : Recorded (Sealed ι) Knowledge).Gives
      (p.pass.transferKnown s.known e) := gives_foldlM id (fun known model _ => gives_runModel e known model) _
  have lattice : (sealState i s).lattice.openAs i = .ok s.lattice := Sealed.openAs_mk i s.lattice
  refine models.bind ?_
  rw [lattice, checked_ok, pure_bind]
  exact (gives_elementHook p e _).bind ((gives_stmtHook p e _).bind (gives_pure _))

theorem gives_transferAll (s : State (Catalogue.Carrier i)) (elements : List Element) :
    (elements.foldlM (transfer p) (sealState i s)).Gives (sealState i (p.pass.transferAll s elements)) :=
  gives_foldlM (sealState i) (fun s e _ => gives_transfer p s e) s

theorem isNew_seal (exits : Exits (Catalogue.Carrier i)) (b : Block) (s : State (Catalogue.Carrier i)) :
    isNew i (exits[b]?.map (sealState i)) (sealState i s) = .ok (Problem.isNew exits b s) := by
  unfold Problem.isNew
  cases exits[b]? with
  | none => rfl
  | some old =>
    simp only [isNew, Option.map_some, Sealed.equalAs, sealState, Sealed.openAs_mk]
    rfl

end Problem

end Engine

end ForwardFlow
