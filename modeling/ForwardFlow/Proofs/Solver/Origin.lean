import ForwardFlow.Proofs.Solver.Ascent

namespace ForwardFlow

variable {L : Type} [JoinLattice L] {K : Knowledge → Prop} {act : Element → L → L} {P : L → Prop}
  {Q : List Element → Prop}

/-- Where a lattice value has the property `P`, it has it from a path along elements with the property `Q`: a join has
it from one of its sides, and an element that leaves a value with the property completes such a path, if the value
before it comes from one. -/
structure Pass.Originates (pass : Pass L) (act : Element → L → L) (P : L → Prop) (Q : List Element → Prop) : Prop where
  initial : P pass.analysis.initial → Q []
  join : ∀ a b, P (JoinLattice.join a b) → P a ∨ P b
  act : ∀ e a before, (P a → Q before) → P (act e a) → Q (before ++ [e])

namespace Pass.Originates

theorem actAll {pass : Pass L} (origin : pass.Originates act P Q) {elements before : List Element} {a : L}
    (early : P a → Q before) (holds : P (Pass.actAll act elements a)) : Q (before ++ elements) := by
  induction elements generalizing a before with
  | nil =>
    rw [List.append_nil]
    exact early holds
  | cons e elements ih =>
    have rest := ih (origin.act e a before early) holds
    rwa [List.append_assoc, List.singleton_append] at rest

variable {p : Problem L} {exits : Exits L} {b : Block} {s : State L}

theorem exists_path_of_input (origin : p.pass.Originates act P Q) (ok : p.body.Consistent)
    (exit : ∀ q t, exits[q]? = some t → ∃ before, p.body.Path before q ∧
      (P t.lattice → Q (p.body.elementsOf (before ++ [q]))))
    (arrived : p.input exits b = some s) :
    ∃ before, p.body.Path before b ∧ (P s.lattice → Q (p.body.elementsOf before)) := by
  refine Problem.input_induct (P := fun s => ∃ before, p.body.Path before b ∧
    (P s.lattice → Q (p.body.elementsOf before))) ?_ arrived ?_
  · rintro s t ⟨left, pathLeft, fromLeft⟩ ⟨right, pathRight, fromRight⟩
    -- One path has to do for the join, whether or not it has the property: that of a side from which it comes.
    by_cases here : P s.lattice
    · exact ⟨left, pathLeft, fun _ => fromLeft here⟩
    · exact ⟨right, pathRight, fun holds => fromRight ((origin.join _ _ holds).resolve_left here)⟩
  · rintro t (⟨rfl, rfl⟩ | ⟨q, edge, atQ⟩)
    · exact ⟨[], .entry, origin.initial⟩
    · obtain ⟨before, path, comes⟩ := exit q t atQ
      exact ⟨before ++ [q], path.edge (ok.mem_preds_iff.mp edge), comes⟩

theorem exists_path_of_exit (origin : p.pass.Originates act P Q) (acts : p.pass.ActsBy K act) (start : K p.start)
    (ok : p.body.Consistent) {progress : Progress L} (stage : p.Stage progress) :
    ∀ b t, progress.exits[b]? = some t →
      ∃ before, p.body.Path before b ∧ (P t.lattice → Q (p.body.elementsOf (before ++ [b]))) := by
  intro b t found
  refine (stage.exits_induct (P := fun b t => K t.known ∧ ∃ before, p.body.Path before b ∧
    (P t.lattice → Q (p.body.elementsOf (before ++ [b])))) ok ?_ b t found).2
  intro exits old b s _ arrived
  have known := Problem.known_input acts start (fun q u atQ => (old q u atQ).2.1) arrived
  refine ⟨acts.known_transferAll known _, ?_⟩
  obtain ⟨before, path, early⟩ := origin.exists_path_of_input ok (fun q t atQ => (old q t atQ).2.2) arrived
  refine ⟨before, path, fun holds => ?_⟩
  rw [Problem.exitFrom, acts.lattice_transferAll known] at holds
  rw [Body.elementsOf_snoc]
  exact origin.actAll early holds

end Pass.Originates

end ForwardFlow
