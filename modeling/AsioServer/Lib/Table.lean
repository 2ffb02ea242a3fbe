import Mathlib.Data.List.Nodup
import Mathlib.Tactic.Common

/-!
# Tables with a primary key

A table is a list of rows no two of which agree on the key, so that a row is
named by its key: `find` picks it, `insert` refuses a second one, `modify`
changes it in place. The laws say what each operation does to `find` and to
membership, and nothing else about the list matters to a user of the table.
-/

universe u v

structure Table (ρ : Type u) {κ : Type v} (key : ρ → κ) where
  rows : List ρ
  nodup : (rows.map key).Nodup

namespace Table

variable {ρ : Type u} {κ : Type v} {key : ρ → κ}

def empty : Table ρ key := ⟨[], List.nodup_nil⟩

/-- Two rows with one key are one row. -/
theorem eq_of_key (t : Table ρ key) {r s : ρ} (hr : r ∈ t.rows) (hs : s ∈ t.rows)
    (h : key r = key s) : r = s :=
  List.inj_on_of_nodup_map t.nodup hr hs h

variable [DecidableEq κ]

def find (t : Table ρ key) (k : κ) : Option ρ := t.rows.find? fun r => key r = k

theorem find_eq_some {t : Table ρ key} {k : κ} {r : ρ} :
    t.find k = some r ↔ r ∈ t.rows ∧ key r = k := by
  constructor
  · intro h
    exact ⟨List.mem_of_find?_eq_some h, by simpa using List.find?_some h⟩
  · rintro ⟨hmem, hkey⟩
    cases h : t.find k with
    | none =>
        have hne := List.find?_eq_none.mp h r hmem
        simp [hkey] at hne
    | some s =>
        have hs : key s = k := by simpa using List.find?_some h
        rw [t.eq_of_key (List.mem_of_find?_eq_some h) hmem (hs.trans hkey.symm)]

theorem find_eq_none {t : Table ρ key} {k : κ} :
    t.find k = none ↔ ∀ r ∈ t.rows, key r ≠ k := by
  simp [find, List.find?_eq_none]

theorem find_self {t : Table ρ key} {r : ρ} (h : r ∈ t.rows) : t.find (key r) = some r :=
  find_eq_some.mpr ⟨h, rfl⟩

/-- A new row, unless its key is taken. -/
def insert (t : Table ρ key) (r : ρ) : Option (Table ρ key) :=
  if h : ∀ s ∈ t.rows, key s ≠ key r then
    some
      { rows := t.rows ++ [r]
        nodup := by
          rw [List.map_append, List.nodup_append]
          refine ⟨t.nodup, List.nodup_singleton _, ?_⟩
          intro k hk k' hk'
          obtain ⟨s, hs, rfl⟩ := List.mem_map.mp hk
          rw [List.map_singleton, List.mem_singleton] at hk'
          rw [hk']
          exact h s hs }
  else none

theorem insert_eq_some {t t' : Table ρ key} {r : ρ} (h : t.insert r = some t') :
    t'.rows = t.rows ++ [r] ∧ ∀ s ∈ t.rows, key s ≠ key r := by
  rw [insert] at h
  split at h
  · next hfresh => cases h; exact ⟨rfl, hfresh⟩
  · cases h

theorem find_insert {t t' : Table ρ key} {r : ρ} (h : t.insert r = some t') (k : κ) :
    t'.find k = if k = key r then some r else t.find k := by
  obtain ⟨hrows, hfresh⟩ := insert_eq_some h
  by_cases hk : k = key r
  · rw [if_pos hk, hk]
    exact find_self (by rw [hrows]; simp)
  · rw [if_neg hk]
    have hne : ¬ key r = k := fun heq => hk heq.symm
    simp [find, hrows, List.find?_append, hne]

/-- A change of rows that keeps their keys. -/
theorem keys_change (rows : List ρ) (k : κ) {f : ρ → ρ} (hf : ∀ r, key (f r) = key r) :
    (rows.map fun r => if key r = k then f r else r).map key = rows.map key := by
  rw [List.map_map]
  refine List.map_congr_left fun r _ => ?_
  show key (if key r = k then f r else r) = key r
  split
  · exact hf r
  · rfl

/-- The row with a key, changed; its key stays. -/
def modify (t : Table ρ key) (k : κ) (f : ρ → ρ) (hf : ∀ r, key (f r) = key r) :
    Table ρ key where
  rows := t.rows.map fun r => if key r = k then f r else r
  nodup := by
    rw [keys_change t.rows k hf]
    exact t.nodup

variable {t : Table ρ key} {k : κ} {f : ρ → ρ} {hf : ∀ r, key (f r) = key r}

theorem mem_modify {s : ρ} :
    s ∈ (t.modify k f hf).rows ↔ ∃ r ∈ t.rows, s = if key r = k then f r else r := by
  simp [modify, eq_comm]

theorem find_modify (j : κ) :
    (t.modify k f hf).find j = if j = k then (t.find k).map f else t.find j := by
  cases h : t.find j with
  | none =>
      have hnone : (t.modify k f hf).find j = none := by
        rw [find_eq_none] at h ⊢
        intro s hs
        obtain ⟨r, hr, rfl⟩ := mem_modify.mp hs
        split
        · rw [hf]; exact h r hr
        · exact h r hr
      by_cases hjk : j = k
      · rw [hnone, if_pos hjk, ← hjk, h]; rfl
      · rw [hnone, if_neg hjk]
  | some r =>
      obtain ⟨hmem, hkey⟩ := find_eq_some.mp h
      by_cases hjk : j = k
      · rw [if_pos hjk, ← hjk, h]
        refine find_eq_some.mpr ⟨mem_modify.mpr ⟨r, hmem, ?_⟩, (hf r).trans hkey⟩
        rw [if_pos hkey]
      · rw [if_neg hjk]
        refine find_eq_some.mpr ⟨mem_modify.mpr ⟨r, hmem, ?_⟩, hkey⟩
        rw [if_neg (hkey ▸ hjk)]

end Table
