import Mathlib.Data.List.Forall2
import ForwardFlow.Fault

namespace ForwardFlow

variable {ε α β : Type}

theorem bind_eq_ok {x : Except ε α} {f : α → Except ε β} {b : β} :
    (x >>= f) = .ok b ↔ ∃ a, x = .ok a ∧ f a = .ok b := by
  cases x with
  | error e =>
    constructor
    · intro impossible
      cases impossible
    · rintro ⟨_, impossible, _⟩
      cases impossible
  | ok a =>
    constructor
    · exact fun result => ⟨a, rfl, result⟩
    · rintro ⟨_, same, result⟩
      cases same
      exact result

theorem map_eq_ok {x : Except ε α} {f : α → β} {b : β} : x.map f = .ok b ↔ ∃ a, x = .ok a ∧ f a = b := by
  cases x with
  | error e => simp [Except.map]
  | ok a => simp [Except.map]

theorem mapM_eq_ok {f : α → Except ε β} {l : List α} {results : List β} :
    l.mapM f = .ok results ↔ List.Forall₂ (fun a b => f a = .ok b) l results := by
  constructor
  · intro done
    induction l generalizing results with
    | nil =>
      cases done
      exact .nil
    | cons a l ih =>
      rw [List.mapM_cons] at done
      obtain ⟨b, first, rest⟩ := bind_eq_ok.mp done
      obtain ⟨later, others, same⟩ := bind_eq_ok.mp rest
      cases same
      exact .cons first (ih others)
  · intro all
    induction all with
    | nil => rfl
    | cons first _ ih =>
      rw [List.mapM_cons, first, ih]
      rfl

theorem mapM_map_eq_ok {f : β → Except ε α} {g : α → β} {l : List α} (each : ∀ a ∈ l, f (g a) = .ok a) :
    (l.map g).mapM f = .ok l := by
  rw [mapM_eq_ok, List.forall₂_map_left_iff]
  exact List.forall₂_same.mpr each

theorem exists_of_mapM {f : α → Except ε β} {l : List α} {results : List β} (done : l.mapM f = .ok results) {b : β}
    (mem : b ∈ results) : ∃ a ∈ l, f a = .ok b := by
  have all := mapM_eq_ok.mp done
  clear done
  induction all with
  | nil => cases mem
  | @cons a _ l _ first _ ih =>
    obtain rfl | later := List.mem_cons.mp mem
    · exact ⟨a, List.mem_cons_self, first⟩
    · obtain ⟨a', inside, found⟩ := ih later
      exact ⟨a', List.mem_cons_of_mem a inside, found⟩

theorem Table.read_eq_ok {kind : Kind} {t : Table kind α} {i : Index kind} {a : α} :
    t.read i = .ok a ↔ t.get? i = some a := by
  unfold read
  cases t.get? i <;> simp

theorem Table.write_eq_ok {kind : Kind} {t u : Table kind α} {i : Index kind} {a : α} :
    t.write i a = .ok u ↔ t.set? i a = some u := by
  unfold write
  cases t.set? i a <;> simp

end ForwardFlow
