import ForwardFlow.Proofs.Knowledge.Sound
import ForwardFlow.Proofs.Program.Uses

namespace ForwardFlow

/-- No operator gives bounds. -/
theorem Fact.binary?_ne_range {op : BinOp} {a b : Fact} {low high : Int64} :
    binary? op a b ≠ some (.range low high) := by
  intro result
  cases a with
  | range _ _ => cases op <;> cases result
  | bool m => cases b <;> cases op <;> cases result
  | int m =>
    cases b with
    | range _ _ => cases op <;> cases result
    | bool _ => cases op <;> cases result
    | int n =>
      cases op with
      | add | sub | mul =>
        obtain ⟨_, _, same⟩ := Option.map_eq_some_iff.mp result
        cases same
      | _ => cases result

namespace Merger

/-- Between two bounds lies more than one integer. -/
theorem min_lt_max {alow ahigh blow bhigh low high : Int64} (least : low = alow ∨ low = blow)
    (most : high = ahigh ∨ high = bhigh) (less : low < high) : min alow blow < max ahigh bhigh := by
  have below : min alow blow ≤ low := by
    obtain rfl | rfl := least
    · exact Std.min_le_left
    · exact Std.min_le_right
  have above : high ≤ max ahigh bhigh := by
    obtain rfl | rfl := most
    · exact Std.left_le_max
    · exact Std.right_le_max
  exact Int64.lt_of_le_of_lt below (Int64.lt_of_lt_of_le less above)

/-- The least range around two facts that differ is a proper one, if the bounds they give are proper. -/
theorem exists_around? {a b fact : Fact} (differ : a ≠ b) (left : ∀ low high, a = .range low high → low < high)
    (right : ∀ low high, b = .range low high → low < high) (around : around? a b = some fact) :
    ∃ low high, fact = .range low high ∧ low < high := by
  match a, b, around with
  | .range low high, .int n, rfl => exact ⟨_, _, rfl, min_lt_max (.inl rfl) (.inl rfl) (left low high rfl)⟩
  | .range low high, .range _ _, rfl => exact ⟨_, _, rfl, min_lt_max (.inl rfl) (.inl rfl) (left low high rfl)⟩
  | .int n, .range low high, rfl => exact ⟨_, _, rfl, min_lt_max (.inr rfl) (.inr rfl) (right low high rfl)⟩
  | .int m, .int n, rfl =>
    obtain less | less := Int64.lt_or_lt_of_ne fun same => differ (congrArg Fact.int same)
    · exact ⟨_, _, rfl, min_lt_max (.inl rfl) (.inr rfl) less⟩
    · exact ⟨_, _, rfl, min_lt_max (.inr rfl) (.inl rfl) less⟩

end Merger

namespace Knowledge

variable {k l : Knowledge}

theorem decls_ext (same : ∀ v, k.ty? v = l.ty? v) : k.decls = l.decls := Std.ExtTreeMap.ext_getElem? same

/-- A fact that is known after an element was known before, or is that of an expression that was written. -/
theorem fact?_apply {e : Element} {v : Var} {fact : Fact} (known : (k.apply e).fact? v = some fact) :
    k.fact? v = some fact ∨ ∃ source, e.write? = some (v, source) ∧ k.eval? source = some fact := by
  obtain ⟨target, source, writes⟩ | ⟨w, rfl⟩ | ⟨idle, inScope⟩ := e.writes_or_ends_or_idle
  · rw [apply_of_write writes, fact?_update] at known
    split at known
    · rename_i here
      exact .inr ⟨source, here ▸ writes, known⟩
    · exact .inl known
  · rw [apply, fact?_forget] at known
    split at known
    · cases known
    · exact .inl known
  · rw [apply_of_idle idle inScope] at known
    exact .inl known

/-- Bounds come from a plain use of a variable, and from nowhere else. -/
theorem exists_of_eval?_range {source : Expr} {low high : Int64} (known : k.eval? source = some (.range low high)) :
    ∃ v, k.fact? v = some (.range low high) := by
  cases source with
  | use o =>
    cases o with
    | lit c => cases c <;> cases known
    | var v => exact ⟨v, known⟩
  | not o =>
    obtain ⟨a, _, result⟩ := Option.bind_eq_some_iff.mp known
    cases a <;> cases result
  | binary op l r =>
    obtain ⟨a, _, rest⟩ := Option.bind_eq_some_iff.mp known
    obtain ⟨b, _, result⟩ := Option.bind_eq_some_iff.mp rest
    exact absurd result Fact.binary?_ne_range
  | call => cases known

/-- The knowledge declares the variables of a body and no others, knows only integers and truth values, and has only
bounds of a certain kind. -/
structure Fits (k : Knowledge) (body : Body) (Bounds : Int64 → Int64 → Prop) : Prop where
  decls : k.decls = (ofBody body).decls
  allowed : ∀ v fact, k.fact? v = some fact → k.Allows v
  bounds : ∀ v low high, k.fact? v = some (.range low high) → Bounds low high

section Fits

variable {body : Body} {Bounds : Int64 → Int64 → Prop}

theorem fits_ofBody : (ofBody body).Fits body Bounds := by
  refine ⟨rfl, fun v fact known => ?_, fun v low high known => ?_⟩ <;> cases (fact?_ofBody body v).symm.trans known

theorem Fits.ty?_eq (fits : k.Fits body Bounds) (v : Var) : k.ty? v = body.ty? v := by
  rw [ty?, fits.decls]
  exact ty?_ofBody body v

/-- An element that writes only what it may keeps the knowledge as it should be. -/
theorem Fits.apply (fits : k.Fits body Bounds) {e : Element} (writes : ∀ v, e.target? = some v → k.Allows v) :
    (k.apply e).Fits body Bounds := by
  refine ⟨(decls_ext (ty?_apply k e)).trans fits.decls, fun v fact known => ?_, fun v low high known => ?_⟩
  · rw [Allows, ty?_apply]
    obtain old | ⟨source, written, _⟩ := fact?_apply known
    · exact fits.allowed v fact old
    · exact writes v (congrArg (Option.map Prod.fst) written)
  · obtain old | ⟨source, _, value⟩ := fact?_apply known
    · exact fits.bounds v low high old
    · obtain ⟨w, copied⟩ := exists_of_eval?_range value
      exact fits.bounds w low high copied

/-- A join keeps the knowledge as it should be, if the merger gives only bounds of that kind. -/
theorem Fits.join {merger : Merger} {pick : Ty → Fact → Fact → Option Fact} (picks : merger.Picks pick)
    (merges : ∀ ty a b low high, a ≠ b → (∀ low high, a = .range low high → Bounds low high) →
      (∀ low high, b = .range low high → Bounds low high) → pick ty a b = some (.range low high) → Bounds low high)
    (left : k.Fits body Bounds) (right : l.Fits body Bounds) : (k.join merger l).Fits body Bounds := by
  refine ⟨(decls_ext (ty?_join picks k l)).trans left.decls, fun v fact known => ?_, fun v low high known => ?_⟩
  · rw [Allows, ty?_join picks]
    obtain ⟨atK, _⟩ | ⟨a, _, _, atK, _⟩ := fact?_join_cases picks known
    · exact left.allowed v fact atK
    · exact left.allowed v a atK
  · obtain ⟨atK, _⟩ | ⟨a, b, ty, atK, atL, differ, _, picked⟩ := fact?_join_cases picks known
    · exact left.bounds v low high atK
    · refine merges ty a b low high differ (fun low high same => ?_) (fun low high same => ?_) picked
      · exact left.bounds v low high (same ▸ atK)
      · exact right.bounds v low high (same ▸ atL)

end Fits

end Knowledge

end ForwardFlow
