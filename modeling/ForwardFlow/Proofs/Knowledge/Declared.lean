import ForwardFlow.Proofs.Program.Checked

namespace ForwardFlow

namespace Knowledge

variable {k : Knowledge} {v : Var}

/-- The variables that are declared, each once. -/
def declared (k : Knowledge) : List Var := k.decls.keys

/-- The declared integer variables. -/
def declaredInts (k : Knowledge) : List Var := k.declared.filter fun v => decide (k.ty? v = some .int)

theorem mem_declared : v ∈ k.declared ↔ ∃ ty, k.ty? v = some ty := by
  rw [declared, Std.ExtTreeMap.mem_keys, ← Std.ExtTreeMap.isSome_getElem?_iff_mem, Option.isSome_iff_exists]
  rfl

theorem nodup_declared (k : Knowledge) : k.declared.Nodup := Std.ExtTreeMap.nodup_keys

theorem mem_declaredInts : v ∈ k.declaredInts ↔ k.ty? v = some .int := by
  rw [declaredInts, List.mem_filter, decide_eq_true_iff, mem_declared]
  exact ⟨And.right, fun int => ⟨⟨_, int⟩, int⟩⟩

theorem nodup_declaredInts (k : Knowledge) : k.declaredInts.Nodup := k.nodup_declared.filter _

theorem declared_ofBody (body : Body) : (ofBody body).declared.Perm body.vars.indices := by
  refine (List.perm_ext_iff_of_nodup (nodup_declared _) body.vars.nodup_indices).mpr fun v => ?_
  rw [mem_declared, ty?_ofBody, Table.mem_indices, Table.contains_eq_isSome_get?, Option.isSome_iff_exists]
  simp only [Option.map_eq_some_iff]
  exact ⟨fun ⟨_, decl, found, _⟩ => ⟨decl, found⟩, fun ⟨decl, found⟩ => ⟨decl.ty, decl, found, rfl⟩⟩

theorem length_declared_ofBody (body : Body) : (ofBody body).declared.length = body.vars.size :=
  (declared_ofBody body).length_eq.trans body.vars.length_indices

theorem declaredInts_ofBody (body : Body) :
    (ofBody body).declaredInts.Perm ((body.vars.toPairs.filter fun (_, decl) => decl.ty = .int).map Prod.fst) := by
  have distinct : (body.vars.toPairs.map Prod.fst).Nodup := body.vars.map_fst_toPairs ▸ body.vars.nodup_indices
  have distinct' := distinct.sublist (List.filter_sublist (p := fun (_, decl) => decide (decl.ty = .int)).map Prod.fst)
  refine (List.perm_ext_iff_of_nodup (nodup_declaredInts _) distinct').mpr fun v => ?_
  simp only [mem_declaredInts, ty?_ofBody, Option.map_eq_some_iff, List.mem_map, List.mem_filter, decide_eq_true_iff,
    Prod.exists, Table.mem_toPairs]
  constructor
  · rintro ⟨decl, found, int⟩
    exact ⟨v, decl, ⟨found, int⟩, rfl⟩
  · rintro ⟨_, decl, ⟨found, int⟩, rfl⟩
    exact ⟨decl, found, int⟩

theorem length_declaredInts_ofBody (body : Body) :
    (ofBody body).declaredInts.length = (body.vars.toList.filter fun decl => decl.ty = .int).length := by
  rw [(declaredInts_ofBody body).length_eq, List.length_map, ← Table.map_snd_toPairs, List.filter_map, List.length_map]
  rfl

/-- A run that is not refused only writes declared variables. -/
theorem declared_of_write {body : Body} (fine : k.bodyError? body = none) {b : Block} {e : Element}
    (mem : e ∈ body.elements b) (target : e.target? = some v) : v ∈ k.declared := by
  have allowed := bodyError?_eq_none_iff.mp fine b e mem v (Element.mem_vars_of_target? target)
  obtain ⟨ty, found, _⟩ := refusal?_eq_none_iff.mp allowed
  exact mem_declared.mpr ⟨ty, found⟩

end Knowledge

end ForwardFlow
