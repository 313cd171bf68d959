import ForwardFlow.Analysis.Basic

namespace ForwardFlow.Pass

variable {L : Type} {pass : Pass L}

theorem transferAll_induct {I : State L → Prop} (transfer : ∀ s e, I s → I (pass.transfer s e)) {s : State L}
    (start : I s) (elements : List Element) : I (pass.transferAll s elements) :=
  List.foldlRecOn (motive := I) elements pass.transfer start fun s inv e _ => transfer s e inv

/-- Each element changes the lattice value by a function of that value alone, as long as what is known of the store has
a property `K`, and nothing in a run destroys the property. `K` holds of anything for hooks that do not look at the
knowledge; for hooks that look at the declared types it says what these are. -/
structure ActsBy (pass : Pass L) (K : Knowledge → Prop) (act : Element → L → L) : Prop where
  lattice : ∀ s e, K s.known → (pass.transfer s e).lattice = act e s.lattice
  known : ∀ s e, K s.known → K (pass.transfer s e).known
  join : ∀ k l, K k → K l → K (k.join pass.analysis.merge l)

def actAll (act : Element → L → L) (elements : List Element) (a : L) : L := elements.foldl (fun a e => act e a) a

variable {K : Knowledge → Prop} {act : Element → L → L} {s : State L}

theorem ActsBy.known_transferAll (acts : pass.ActsBy K act) (inv : K s.known) (elements : List Element) :
    K (pass.transferAll s elements).known :=
  transferAll_induct (I := fun s => K s.known) acts.known inv elements

theorem ActsBy.lattice_transferAll (acts : pass.ActsBy K act) (inv : K s.known) (elements : List Element) :
    (pass.transferAll s elements).lattice = actAll act elements s.lattice := by
  induction elements generalizing s with
  | nil => rfl
  | cons e elements ih =>
    have rest := ih (acts.known s e inv)
    rw [acts.lattice s e inv] at rest
    exact rest

variable [JoinLattice L]

/-- A relation between states that makes no difference later: it passes through joins and elements. It need not be
reflexive, so that it can also say of both states what is true throughout a run. -/
structure Respects (pass : Pass L) (E : State L → State L → Prop) : Prop where
  symm : ∀ s t, E s t → E t s
  trans : ∀ s t u, E s t → E t u → E s u
  join : ∀ s s' t t', E s s' → E t t' → E (pass.join s t) (pass.join s' t')
  transfer : ∀ s t e, E s t → E (pass.transfer s e) (pass.transfer t e)

theorem Respects.transferAll {E : State L → State L → Prop} (resp : pass.Respects E) {s t : State L} (same : E s t)
    (elements : List Element) : E (pass.transferAll s elements) (pass.transferAll t elements) :=
  List.foldl_rel (r := E) same fun e _ s t same => resp.transfer s t e same

theorem respects_eq : pass.Respects Eq where
  symm _ _ same := same.symm
  trans _ _ _ one two := one.trans two
  join _ _ _ _ one two := by rw [one, two]
  transfer _ _ _ same := by rw [same]

theorem ActsBy.respects (acts : pass.ActsBy K act) :
    pass.Respects fun s t => K s.known ∧ K t.known ∧ s.lattice = t.lattice where
  symm _ _ := fun ⟨one, two, same⟩ => ⟨two, one, same.symm⟩
  trans _ _ _ := fun ⟨one, _, same⟩ ⟨_, two, again⟩ => ⟨one, two, same.trans again⟩
  join _ _ _ _ := fun ⟨one, two, same⟩ ⟨one', two', same'⟩ =>
    ⟨acts.join _ _ one one', acts.join _ _ two two', by simp only [Pass.join, same, same']⟩
  transfer s t e := fun ⟨one, two, same⟩ =>
    ⟨acts.known s e one, acts.known t e two, by rw [acts.lattice s e one, acts.lattice t e two, same]⟩

end ForwardFlow.Pass
