import ForwardFlow.Index

namespace ForwardFlow

/-- A table gives one entry to each of its slots, which are numbered from 0 without a gap. -/
structure Table (kind : Kind) (α : Type) where
  entries : Array α
deriving DecidableEq, Repr

namespace Table

variable {kind : Kind} {α β : Type}

def empty : Table kind α := ⟨#[]⟩

instance : EmptyCollection (Table kind α) := ⟨empty⟩

instance : Inhabited (Table kind α) := ⟨empty⟩

def ofList (l : List α) : Table kind α := ⟨l.toArray⟩

def toList (t : Table kind α) : List α := t.entries.toList

/-- The table of a given size in which each entry is a function of its index. -/
def ofIndices (size : Nat) (f : Index kind → α) : Table kind α :=
  ofList ((List.range size).map fun n => f (.slot n))

def size (t : Table kind α) : Nat := t.entries.size

def isEmpty (t : Table kind α) : Bool := t.size == 0

def indices (t : Table kind α) : List (Index kind) := (List.range t.size).map .slot

/-- Every index of the table beside its entry, in order. -/
def toPairs (t : Table kind α) : List (Index kind × α) := t.indices.zip t.toList

def get? (t : Table kind α) : Index kind → Option α
  | .slot n => t.entries[n]?
  | .invalid => none

def contains (t : Table kind α) : Index kind → Bool
  | .slot n => n < t.size
  | .invalid => false

/-- Appends an entry; the second component is its index. -/
def push (t : Table kind α) (a : α) : Table kind α × Index kind :=
  (⟨t.entries.push a⟩, .slot t.size)

/-- Replaces one entry; an index outside the table is refused. -/
def set? (t : Table kind α) (i : Index kind) (a : α) : Option (Table kind α) :=
  match i with
  | .slot n => if n < t.size then some ⟨t.entries.setIfInBounds n a⟩ else none
  | .invalid => none

def modify? (t : Table kind α) (i : Index kind) (f : α → α) : Option (Table kind α) :=
  (t.get? i).bind fun a => t.set? i (f a)

def map (f : α → β) (t : Table kind α) : Table kind β := ⟨t.entries.map f⟩

/-- The index of the first entry that passes a test. -/
def find? (t : Table kind α) (p : α → Bool) : Option (Index kind) :=
  (t.toList.findIdx? p).map .slot

@[simp] theorem toList_ofList (l : List α) : (ofList l : Table kind α).toList = l := rfl

@[simp] theorem size_ofList (l : List α) : (ofList l : Table kind α).size = l.length := rfl

theorem get?_slot (t : Table kind α) (n : Nat) : t.get? (.slot n) = t.toList[n]? := by
  simp only [get?, toList, Array.getElem?_toList]

theorem contains_eq_isSome_get? (t : Table kind α) (i : Index kind) : t.contains i = (t.get? i).isSome := by
  cases i with
  | slot n =>
    rw [Bool.eq_iff_iff, contains, decide_eq_true_iff, size, get?, isSome_getElem?]
  | invalid => rfl

/-- Tables of one size have the same indices. -/
theorem contains_congr {t : Table kind α} {u : Table kind β} (size : u.size = t.size) (i : Index kind) :
    u.contains i = t.contains i := by
  cases i with
  | slot n => rw [contains, contains, size]
  | invalid => rfl

theorem exists_get? {t : Table kind α} {i : Index kind} (inside : t.contains i = true) : ∃ a, t.get? i = some a := by
  rwa [contains_eq_isSome_get?, Option.isSome_iff_exists] at inside

theorem ext_get? {t u : Table kind α} (same : ∀ i, t.get? i = u.get? i) : t = u := by
  obtain ⟨entries⟩ := t
  obtain ⟨entries'⟩ := u
  exact congrArg mk (Array.ext_getElem? fun n => same (.slot n))

theorem exists_set? {t : Table kind α} {i : Index kind} (inside : t.contains i = true) (a : α) :
    ∃ u, t.set? i a = some u := by
  cases i with
  | slot n => exact ⟨_, if_pos (of_decide_eq_true inside)⟩
  | invalid => cases inside

theorem get?_set? {t u : Table kind α} {i : Index kind} {a : α} (set : t.set? i a = some u) (j : Index kind) :
    u.get? j = if i = j then some a else t.get? j := by
  match i, j with
  | .slot n, .slot m =>
    obtain ⟨short, same⟩ := Option.ite_none_right_eq_some.mp set
    cases same
    simp only [get?, Index.slot.injEq, Array.getElem?_setIfInBounds]
    split
    · exact if_pos short
    · rfl
  | .slot n, .invalid => rfl
  | .invalid, _ => cases set

theorem get?_ofIndices (t : Table kind β) (f : Index kind → α) (i : Index kind) :
    (ofIndices t.size f).get? i = if t.contains i then some (f i) else none := by
  cases i with
  | slot n => by_cases inside : n < t.size <;> simp [ofIndices, ofList, get?, contains, inside]
  | invalid => rfl

theorem mem_indices {t : Table kind α} {i : Index kind} : i ∈ t.indices ↔ t.contains i = true := by
  cases i with
  | slot n => simp [indices, contains]
  | invalid => simp [indices, contains]

theorem toPairs_eq (t : Table kind α) : t.toPairs = t.toList.zipIdx.map fun (a, n) => (.slot n, a) := by
  rw [toPairs, indices, List.zipIdx_eq_zip_range', size, ← Array.length_toList, ← toList, List.range_eq_range']
  generalize t.toList = l
  generalize 0 = start
  induction l generalizing start with
  | nil => rfl
  | cons a l ih => simpa [List.range'_succ] using ih (start + 1)

theorem map_fst_toPairs (t : Table kind α) : t.toPairs.map Prod.fst = t.indices :=
  List.map_fst_zip (by simp [indices, toList, size])

theorem map_snd_toPairs (t : Table kind α) : t.toPairs.map Prod.snd = t.toList :=
  List.map_snd_zip (by simp [indices, toList, size])

@[simp] theorem length_indices (t : Table kind α) : t.indices.length = t.size := by
  rw [indices, List.length_map, List.length_range]

theorem nodup_indices (t : Table kind α) : t.indices.Nodup := by
  rw [indices, List.Nodup, List.pairwise_map]
  exact List.nodup_range.imp fun ne eq => ne (Index.slot.inj eq)

theorem mem_toPairs {t : Table kind α} {i : Index kind} {a : α} : (i, a) ∈ t.toPairs ↔ t.get? i = some a := by
  cases i with
  | slot n =>
    simp only [toPairs_eq, get?_slot, List.mem_map, Prod.exists, Prod.mk.injEq, List.mem_zipIdx_iff_getElem?]
    constructor
    · rintro ⟨b, m, found, same, rfl⟩
      cases same
      exact found
    · exact fun found => ⟨a, n, found, rfl, rfl⟩
  | invalid => simp [toPairs_eq, get?]

end Table

end ForwardFlow
