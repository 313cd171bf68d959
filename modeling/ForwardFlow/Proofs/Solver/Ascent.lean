import ForwardFlow.Proofs.Solver.LeastSolution

namespace ForwardFlow

variable {L : Type}

/-- Wherever one table has a state, so has the other one, and its lattice value is not lower. -/
def Exits.Below [LE L] (exits others : Exits L) : Prop :=
  ∀ (b : Block) (t : State L), exits[b]? = some t → ∃ u, others[b]? = some u ∧ t.lattice ≤ u.lattice

theorem Exits.below_insert [Preorder L] {exits : Exits L} {a : Block} {s : State L}
    (rises : ∀ old, exits[a]? = some old → old.lattice ≤ s.lattice) : exits.Below (exits.insert a s) := by
  intro b t found
  rw [getElem?_insert]
  split
  · rename_i here
    subst here
    exact ⟨s, rfl, rises t found⟩
  · exact ⟨t, found, le_rfl⟩

namespace Problem

variable [JoinLattice L] {p : Problem L} {K : Knowledge → Prop} {act : Element → L → L} {exits others : Exits L}
  {progress : Progress L} {b : Block} {s : State L}

theorem known_input (acts : p.pass.ActsBy K act) (start : K p.start)
    (known : ∀ (q : Block) (u : State L), exits[q]? = some u → K u.known) (arrived : p.input exits b = some s) :
    K s.known := by
  refine input_induct (P := fun s => K s.known) (fun s t => acts.join s.known t.known) arrived fun t meets => ?_
  obtain ⟨_, rfl⟩ | ⟨q, _, atQ⟩ := meets
  · exact start
  · exact known q t atQ

theorem Stage.known (acts : p.pass.ActsBy K act) (start : K p.start) (ok : p.body.Consistent)
    (stage : p.Stage progress) : ∀ (b : Block) (t : State L), progress.exits[b]? = some t → K t.known := by
  refine stage.exits_induct (P := fun _ t => K t.known) ok fun exits old b s _ arrived => ?_
  exact acts.known_transferAll (known_input acts start (fun q u atQ => (old q u atQ).2) arrived) _

/-- The lattice values that stand at the end of some block at some stage of a run. -/
def Records (p : Problem L) (a : L) : Prop :=
  ∃ (progress : Progress L) (b : Block) (t : State L), p.Stage progress ∧ progress.exits[b]? = some t ∧ t.lattice = a

theorem Stage.records (stage : p.Stage progress) {t : State L} (found : progress.exits[b]? = some t) :
    p.Records t.lattice := ⟨progress, b, t, stage, found, rfl⟩

/-- The lattice values a run can come to: the initial one, what the elements of reachable blocks make of others, and
their joins. -/
inductive Attainable (p : Problem L) (act : Element → L → L) : L → Prop
  | initial : Attainable p act p.pass.analysis.initial
  | act {b e a} : p.body.Reaches b → e ∈ p.body.elements b → Attainable p act a → Attainable p act (act e a)
  | join {a b} : Attainable p act a → Attainable p act b → Attainable p act (JoinLattice.join a b)

theorem Attainable.actAll {a : L} (start : p.Attainable act a) (reach : p.body.Reaches b) :
    p.Attainable act (Pass.actAll act (p.body.elements b) a) :=
  List.foldlRecOn (motive := p.Attainable act) _ _ start fun _ here _ mem => here.act reach mem

theorem Records.attainable (acts : p.pass.ActsBy K act) (start : K p.start) (ok : p.body.Consistent) {a : L}
    (recorded : p.Records a) : p.Attainable act a := by
  obtain ⟨progress, b, t, stage, found, rfl⟩ := recorded
  refine (stage.exits_induct (P := fun _ t => K t.known ∧ p.Attainable act t.lattice) ok ?_ b t found).2
  intro exits old b s reach arrived
  have known : K s.known := known_input acts start (fun q u atQ => (old q u atQ).2.1) arrived
  refine ⟨acts.known_transferAll known _, ?_⟩
  rw [exitFrom, acts.lattice_transferAll known]
  refine Attainable.actAll ?_ reach
  refine input_induct (P := fun u => p.Attainable act u.lattice) (fun _ _ => .join) arrived fun t meets => ?_
  obtain ⟨_, rfl⟩ | ⟨q, _, atQ⟩ := meets
  · exact .initial
  · exact (old q t atQ).2.2

variable [PartialOrder L]

omit [JoinLattice L] in
theorem exitFrom_mono (acts : p.pass.ActsBy K act) (mono : ∀ e, Monotone (act e)) {t : State L} (known : K s.known)
    (known' : K t.known) (le : s.lattice ≤ t.lattice) : (p.exitFrom b s).lattice ≤ (p.exitFrom b t).lattice := by
  rw [exitFrom, exitFrom, acts.lattice_transferAll known, acts.lattice_transferAll known']
  exact actAll_mono mono _ le

variable [LawfulJoin L]

theorem input_below (below : exits.Below others) (arrived : p.input exits b = some s) :
    ∃ t, p.input others b = some t ∧ s.lattice ≤ t.lattice := by
  have higher (u : State L) (meets : p.Meets exits b u) : ∃ v, p.Meets others b v ∧ u.lattice ≤ v.lattice := by
    obtain ⟨entry, rfl⟩ | ⟨q, edge, atQ⟩ := meets
    · exact ⟨p.initial, Or.inl ⟨entry, rfl⟩, le_rfl⟩
    · obtain ⟨v, atQ', le⟩ := below q u atQ
      exact ⟨v, Or.inr ⟨q, edge, atQ'⟩, le⟩
  obtain ⟨u, meets⟩ := meets_of_input arrived
  obtain ⟨v, meets', _⟩ := higher u meets
  obtain ⟨t, arrived'⟩ := exists_input_of_meets meets'
  refine ⟨t, arrived', (isLUB_input arrived).2 ?_⟩
  rintro _ ⟨u, meets, rfl⟩
  obtain ⟨v, meets', le⟩ := higher u meets
  exact le.trans ((isLUB_input arrived').1 ⟨v, meets', rfl⟩)

/-- A state at the end of a block is overwritten, not joined. Still its value never falls: since the block was visited,
the values at the ends of its predecessors have only risen, so another visit starts from a higher value. -/
theorem Stage.ascends (acts : p.pass.ActsBy K act) (mono : ∀ e, Monotone (act e)) (start : K p.start)
    (ok : p.body.Consistent) (stage : p.Stage progress) (b : Block) (t : State L)
    (found : progress.exits[b]? = some t) :
    ∃ s, p.input progress.exits b = some s ∧ t.lattice ≤ (p.exitFrom b s).lattice := by
  induction stage generalizing b t with
  | start => simp at found
  | @next progress a rest stage pending ih =>
    have inputs := fun {b s} => known_input acts start (stage.known acts start ok) (b := b) (s := s)
    have inputs' := fun {b s} => known_input acts start ((stage.next pending).known acts start ok) (b := b) (s := s)
    obtain ⟨_, same⟩ | ⟨s, arrived, exits, _⟩ := p.visit_cases p.order { progress with pending := rest } a
    · rw [same] at found ⊢
      exact ih b t found
    · rw [exits] at found inputs' ⊢
      have below : progress.exits.Below (progress.exits.insert a (p.exitFrom a s)) := by
        refine Exits.below_insert fun old atA => ?_
        obtain ⟨s', arrived', le⟩ := ih a old atA
        cases arrived.symm.trans arrived'
        exact le
      have early : ∃ s', p.input progress.exits b = some s' ∧ t.lattice ≤ (p.exitFrom b s').lattice := by
        rw [Exits.getElem?_insert] at found
        split at found
        · rename_i here
          subst here
          cases found
          exact ⟨s, arrived, le_rfl⟩
        · exact ih b t found
      obtain ⟨s', before, le⟩ := early
      obtain ⟨s'', after, higher⟩ := input_below below before
      exact ⟨s'', after, le.trans (exitFrom_mono acts mono (inputs before) (inputs' after) higher)⟩

/-- No visit of a run lowers the lattice value at the end of a block. -/
def Ascends (p : Problem L) : Prop :=
  ∀ progress b rest, p.Stage progress → progress.pending = b :: rest →
    progress.exits.Below (p.visit p.order { progress with pending := rest } b).exits

theorem ascends (acts : p.pass.ActsBy K act) (mono : ∀ e, Monotone (act e)) (start : K p.start)
    (ok : p.body.Consistent) : p.Ascends := by
  intro progress b rest stage _
  obtain ⟨_, same⟩ | ⟨s, arrived, exits, _⟩ := p.visit_cases p.order { progress with pending := rest } b
  · rw [same]
    exact fun b t found => ⟨t, found, le_rfl⟩
  · rw [exits]
    refine Exits.below_insert fun old atB => ?_
    obtain ⟨s', arrived', le⟩ := stage.ascends acts mono start ok b old atB
    cases arrived.symm.trans arrived'
    exact le

end Problem

end ForwardFlow
