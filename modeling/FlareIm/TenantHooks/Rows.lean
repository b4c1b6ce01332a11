import FlareIm.TenantHooks.Lists

namespace FlareIm.TenantHooks

variable {Value : Type} {decoders : Decoders Value} {tenant : String}
  {rows : List (HookConfigRow Value)} {table table' : List (HookConfigRow Value)}

section Rows

def HookConfigRow.isOf (tenant : Option String) (row : HookConfigRow Value) : Bool :=
  row.tenantId = tenant

-- The rows that a tenant's hooks come from.
def HookConfigRow.concerns (tenant : String) (row : HookConfigRow Value) : Bool :=
  row.tenantId = none || row.tenantId = some tenant

theorem fetchRows_filter (p : HookConfigRow Value → Bool) :
    (fetchRows table).filter p = fetchRows (table.filter p) := by
  unfold fetchRows
  rw [Sorted.filter_sortBy, List.filter_filter, List.filter_filter]
  congr 1
  apply List.filter_congr
  intro row _
  exact Bool.and_comm ..

theorem filter_isOf_concerns {owner : Option String} (h : owner = none ∨ owner = some tenant) :
    (table.filter (·.concerns tenant)).filter (·.isOf owner) = table.filter (·.isOf owner) := by
  rw [List.filter_filter]
  apply List.filter_congr
  intro row _
  unfold HookConfigRow.isOf HookConfigRow.concerns
  rcases h with rfl | rfl
  · cases hr : row.tenantId with
    | none | some other => simp
  · cases hr : row.tenantId with
    | none => simp
    | some other => by_cases ho : other = tenant <;> simp [ho]

theorem fetchRows_isOf (h : table.filter (·.concerns tenant) = table'.filter (·.concerns tenant))
    {owner : Option String} (ho : owner = none ∨ owner = some tenant) :
    (fetchRows table).filter (·.isOf owner) = (fetchRows table').filter (·.isOf owner) := by
  rw [fetchRows_filter, fetchRows_filter, ← filter_isOf_concerns ho, h, filter_isOf_concerns ho]

end Rows

section Loading

theorem addAll_global (loaded : TenantHookRows) : (loaded.addAll decoders rows).map (·.global) =
      pushRows decoders loaded.global (rows.filter (·.isOf none)) := by
  induction rows generalizing loaded with
  | nil => rfl
  | cons row rows ih =>
    unfold TenantHookRows.addAll TenantHookRows.add
    cases ho : row.tenantId with
    | none =>
      rw [List.filter_cons_of_pos (by simp [HookConfigRow.isOf, ho]), pushRows]
      cases hp : pushRow decoders loaded.global row with
      | error error => rfl
      | ok global => exact ih _
    | some owner =>
      rw [List.filter_cons_of_neg (by simp [HookConfigRow.isOf, ho])]
      by_cases hf : owner ∈ loaded.failedTenants
      · simp only [hf, if_true]
        exact ih loaded
      · simp only [hf, if_false]
        cases hp : pushRow decoders ((loaded.tenants owner).getD {}) row with
        | error error | ok bucket => exact ih _

-- The rows of a tenant are read as if they were alone. One that cannot be read fails them all.
theorem addAll_tenant {loaded after : TenantHookRows}
    (h : loaded.addAll decoders rows = .ok after) :
    (tenant ∈ loaded.failedTenants → tenant ∈ after.failedTenants) ∧
      (tenant ∉ loaded.failedTenants →
        match pushRows decoders ((loaded.tenants tenant).getD {})
          (rows.filter (·.isOf (some tenant))) with
        | .error _ => tenant ∈ after.failedTenants
        | .ok config => tenant ∉ after.failedTenants ∧ after.tenants tenant =
            if rows.filter (·.isOf (some tenant)) = [] then loaded.tenants tenant
            else some config) := by
  induction rows generalizing loaded with
  | nil =>
    obtain rfl := Except.ok.inj h
    exact ⟨id, fun hno => ⟨hno, rfl⟩⟩
  | cons row rows ih =>
    unfold TenantHookRows.addAll TenantHookRows.add at h
    cases ho : row.tenantId with
    | none =>
      simp only [ho] at h
      rw [List.filter_cons_of_neg (by simp [HookConfigRow.isOf, ho])]
      cases hp : pushRow decoders loaded.global row with
      | error error => simp [hp] at h
      | ok global =>
        simp only [hp] at h
        exact @ih { loaded with global } h
    | some owner =>
      simp only [ho] at h
      by_cases hs : owner = tenant
      · subst hs
        rw [List.filter_cons_of_pos (by simp [HookConfigRow.isOf, ho]), pushRows]
        by_cases hf : owner ∈ loaded.failedTenants
        · simp only [hf, if_true] at h
          exact ⟨(ih h).1, fun hno => absurd hf hno⟩
        · simp only [hf, if_false] at h
          refine ⟨fun hin => absurd hin hf, fun _ => ?_⟩
          cases hp : pushRow decoders ((loaded.tenants owner).getD {}) row with
          | error error =>
            simp only [hp] at h ⊢
            exact (ih h).1 List.mem_cons_self
          | ok bucket =>
            simp only [hp] at h ⊢
            have hr := (ih h).2 hf
            simp only [Function.update_self, Option.getD_some] at hr
            cases hro : pushRows decoders bucket (rows.filter (·.isOf (some owner))) with
            | error error =>
              rw [hro] at hr
              exact hr
            | ok config =>
              rw [hro] at hr
              refine ⟨hr.1, hr.2.trans ?_⟩
              rw [if_neg (List.cons_ne_nil row _)]
              by_cases hn : rows.filter (·.isOf (some owner)) = []
              · rw [hn, pushRows, Except.ok.injEq] at hro
                rw [if_pos hn, hro]
              · rw [if_neg hn]
      · rw [List.filter_cons_of_neg (by simpa [HookConfigRow.isOf, ho] using hs)]
        have hne : tenant ≠ owner := fun heq => hs heq.symm
        by_cases hf : owner ∈ loaded.failedTenants
        · simp only [hf, if_true] at h
          exact ih h
        · simp only [hf, if_false] at h
          cases hp : pushRow decoders ((loaded.tenants owner).getD {}) row with
          | error error =>
            simp only [hp] at h
            have hr := ih h
            simp only [List.mem_cons, hne, false_or, Function.update_of_ne hne] at hr
            exact hr
          | ok bucket =>
            simp only [hp] at h
            have hr := ih h
            simp only [Function.update_of_ne hne] at hr
            exact hr

end Loading

end FlareIm.TenantHooks
