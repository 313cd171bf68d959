import ForwardFlow.Program.Body

namespace ForwardFlow

/-- A path along successor edges from the entry to the start of a block, given by the blocks gone through before it,
the entry first. The path may come through a block any number of times. -/
inductive Body.Path (body : Body) : List Block → Block → Prop
  | entry : Path body [] body.entry
  | edge {before a b} : Path body before a → b ∈ body.succs a → Path body (before ++ [a]) b

def Body.Reaches (body : Body) (b : Block) : Prop := ∃ before, body.Path before b

def Body.elementsOf (body : Body) (blocks : List Block) : List Element := blocks.flatMap body.elements

theorem Body.elementsOf_snoc (body : Body) (before : List Block) (a : Block) :
    body.elementsOf (before ++ [a]) = body.elementsOf before ++ body.elements a := by
  simp only [elementsOf, List.flatMap_append, List.flatMap_cons, List.flatMap_nil, List.append_nil]

theorem Body.Path.reaches {body : Body} {before : List Block} {b : Block} (path : body.Path before b) :
    body.Reaches b := ⟨before, path⟩

theorem Body.Path.reaches_of_mem {body : Body} {before : List Block} {a b : Block} (path : body.Path before b)
    (mem : a ∈ before) : body.Reaches a := by
  induction path with
  | entry => cases mem
  | edge path _ ih =>
    rcases List.mem_append.mp mem with early | last
    · exact ih early
    · cases List.mem_singleton.mp last
      exact path.reaches

theorem Body.reaches_entry (body : Body) : body.Reaches body.entry := ⟨[], .entry⟩

theorem Body.Reaches.succ {body : Body} {a b : Block} (reach : body.Reaches a) (edge : b ∈ body.succs a) :
    body.Reaches b := by
  obtain ⟨before, path⟩ := reach
  exact ⟨before ++ [a], path.edge edge⟩

/-- What holds of the entry and passes along edges holds of every reachable block. -/
theorem Body.Reaches.closed {body : Body} {P : Block → Prop} {b : Block} (reach : body.Reaches b)
    (entry : P body.entry) (edge : ∀ a c, body.Reaches a → P a → c ∈ body.succs a → P c) : P b := by
  obtain ⟨before, path⟩ := reach
  induction path with
  | entry => exact entry
  | edge path succ ih => exact edge _ _ path.reaches ih succ

/-- Sets a variable to zero, and then goes round a loop that adds one to it. -/
def Body.countingLoop : Body where
  name := "count"
  vars := .ofList [⟨"i", .int⟩]
  entry := .slot 0
  blocks := .ofList [
    { elements := [.stmt (.assign (.slot 0) (.use (.lit (.int 0))))], succs := [.slot 1] },
    { preds := [.slot 0, .slot 2], succs := [.slot 2, .slot 3] },
    { elements := [.stmt (.assign (.slot 0) (.binary .add (.var (.slot 0)) (.lit (.int 1))))]
      preds := [.slot 1], succs := [.slot 1] },
    { preds := [.slot 1] }]

theorem Body.countingLoop_path : countingLoop.Path [.slot 0, .slot 1, .slot 2, .slot 1] (.slot 2) := by
  have first : countingLoop.Path [.slot 0] (.slot 1) := Path.entry.edge (by decide)
  have once : countingLoop.Path [.slot 0, .slot 1] (.slot 2) := first.edge (by decide)
  have again : countingLoop.Path [.slot 0, .slot 1, .slot 2] (.slot 1) := once.edge (by decide)
  exact again.edge (by decide)

/-- Steps along elements, one after another, from one configuration to another. -/
inductive Along {σ : Type} (step : Element → σ → σ → Prop) : List Element → σ → σ → Prop
  | nil {c} : Along step [] c c
  | cons {e elements c c' c''} : step e c c' → Along step elements c' c'' → Along step (e :: elements) c c''

theorem along_append {σ : Type} {step : Element → σ → σ → Prop} {front back : List Element} {c c' : σ} :
    Along step (front ++ back) c c' ↔ ∃ mid, Along step front c mid ∧ Along step back mid c' := by
  constructor
  · intro along
    induction front generalizing c with
    | nil => exact ⟨c, .nil, along⟩
    | cons e front ih =>
      cases along with
      | cons first rest =>
        obtain ⟨mid, here, later⟩ := ih rest
        exact ⟨mid, .cons first here, later⟩
  · rintro ⟨mid, here, later⟩
    induction here with
    | nil => exact later
    | cons first _ ih => exact .cons first (ih later)

/-- Going along elements, they pile up. -/
theorem along_elements (front elements : List Element) :
    Along (fun e passed passed' => passed' = passed ++ [e]) elements front (front ++ elements) := by
  induction elements generalizing front with
  | nil =>
    rw [List.append_nil]
    exact .nil
  | cons e elements ih =>
    have rest := ih (front ++ [e])
    rw [List.append_assoc, List.singleton_append] at rest
    exact .cons rfl rest

end ForwardFlow
