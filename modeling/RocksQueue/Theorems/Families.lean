import RocksQueue.Lib.AssocLists
import RocksQueue.Theorems.Provision

/-! # The families of each tenant

What the steps on the database do to the three families of one tenant: writing back those of another tenant,
creating or dropping them, and touching `__system__` leave them alone. -/

namespace RocksQueue

variable {R : Type} {db db' : Database R} {tenant other name : String} {t : TenantDb}

/-- The names of the families of two tenants are apart. -/
theorem cfNames_apart (h : tenant ≠ other) (hname : name ∈ cfNames tenant) : name ∉ cfNames other :=
  fun hother => h (cfNames_unique hname hother)

/-- The three families of a tenant are apart. -/
theorem cfNames_distinct (tenant : String) : cfPending tenant ≠ cfInflight tenant ∧ cfPending tenant ≠ cfDlq tenant ∧
    cfInflight tenant ≠ cfDlq tenant := by
  have hnodup := cfNames_nodup tenant
  simp only [cfNames, List.nodup_cons, List.mem_cons, List.not_mem_nil, or_false, not_or] at hnodup
  exact ⟨hnodup.1.1, hnodup.1.2, hnodup.2.1⟩

theorem tenantDb?_eq_some : db.tenantDb? tenant = some t ↔ db.cfs.lookup (cfPending tenant) = some t.pending ∧
    db.cfs.lookup (cfInflight tenant) = some t.inflight ∧ db.cfs.lookup (cfDlq tenant) = some t.dlq := by
  unfold Database.tenantDb?
  split
  · rename_i pending inflight dlq hpending hinflight hdlq
    simp only [hpending, hinflight, hdlq, Option.some.injEq]
    constructor
    · rintro rfl
      exact ⟨rfl, rfl, rfl⟩
    · rintro ⟨rfl, rfl, rfl⟩
      rfl
  · rename_i hnot
    constructor
    · intro h
      cases h
    · rintro ⟨hpending, hinflight, hdlq⟩
      exact absurd hdlq (hnot _ _ _ hpending hinflight)

/-- The families of a tenant are read by their names only. -/
theorem tenantDb?_congr (h : ∀ name ∈ cfNames tenant, db'.cfs.lookup name = db.cfs.lookup name) :
    db'.tenantDb? tenant = db.tenantDb? tenant := by
  have hpending := h (cfPending tenant) (by simp [cfNames])
  have hinflight := h (cfInflight tenant) (by simp [cfNames])
  have hdlq := h (cfDlq tenant) (by simp [cfNames])
  simp only [Database.tenantDb?, hpending, hinflight, hdlq]

theorem lookup_setTenantDb_of_ne (h : tenant ≠ other) (hname : name ∈ cfNames other) :
    (db.setTenantDb tenant t).cfs.lookup name = db.cfs.lookup name := by
  have hnot : name ∉ cfNames tenant := cfNames_apart h.symm hname
  simp only [cfNames, List.mem_cons, List.not_mem_nil, or_false, not_or] at hnot
  simp [Database.setTenantDb, hnot]

theorem tenantDb?_setTenantDb_self : (db.setTenantDb tenant t).tenantDb? tenant = some t := by
  obtain ⟨h₁, h₂, h₃⟩ := cfNames_distinct tenant
  rw [tenantDb?_eq_some]
  simp [Database.setTenantDb, h₁, h₂, h₃]

theorem tenantDb?_setTenantDb :
    (db.setTenantDb tenant t).tenantDb? other = if other = tenant then some t else db.tenantDb? other := by
  split
  · rename_i h
    rw [h, tenantDb?_setTenantDb_self]
  · rename_i h
    exact tenantDb?_congr fun name hname => lookup_setTenantDb_of_ne (Ne.symm h) hname

/-! ## A tenant that may lack families -/

theorem someTenantDb_eq (h : db.tenantDb? tenant = some t) : db.someTenantDb tenant = t := by
  obtain ⟨h₁, h₂, h₃⟩ := tenantDb?_eq_some.mp h
  rw [Database.someTenantDb, h₁, h₂, h₃]
  rfl

@[simp] theorem mem_putSomeTenantDb : name ∈ (db.putSomeTenantDb tenant t).cfs ↔ name ∈ db.cfs := by
  simp only [Database.putSomeTenantDb, AList.mem_modify]

theorem lookup_putSomeTenantDb_of_ne (h : tenant ≠ other) (hname : name ∈ cfNames other) :
    (db.putSomeTenantDb tenant t).cfs.lookup name = db.cfs.lookup name := by
  have hnot : name ∉ cfNames tenant := cfNames_apart h.symm hname
  simp only [cfNames, List.mem_cons, List.not_mem_nil, or_false, not_or] at hnot
  simp [Database.putSomeTenantDb, AList.lookup_modify, hnot]

theorem tenantDb?_putSomeTenantDb_self :
    (db.putSomeTenantDb tenant t).tenantDb? tenant = (db.tenantDb? tenant).map fun _ => t := by
  obtain ⟨h₁, h₂, h₃⟩ := cfNames_distinct tenant
  simp only [Database.tenantDb?, Database.putSomeTenantDb, AList.lookup_modify, h₁, h₂, h₃, h₁.symm, h₂.symm, h₃.symm,
    if_true, if_false]
  cases db.cfs.lookup (cfPending tenant) <;> cases db.cfs.lookup (cfInflight tenant) <;>
    cases db.cfs.lookup (cfDlq tenant) <;> rfl

theorem tenantDb?_putSomeTenantDb : (db.putSomeTenantDb tenant t).tenantDb? other =
    if other = tenant then (db.tenantDb? tenant).map fun _ => t else db.tenantDb? other := by
  split
  · rename_i h
    rw [h, tenantDb?_putSomeTenantDb_self]
  · rename_i h
    exact tenantDb?_congr fun name hname => lookup_putSomeTenantDb_of_ne (Ne.symm h) hname

@[simp] theorem system_putSomeTenantDb : (db.putSomeTenantDb tenant t).system = db.system := rfl

@[simp] theorem system_setTenantDb : (db.setTenantDb tenant t).system = db.system := rfl

end RocksQueue
