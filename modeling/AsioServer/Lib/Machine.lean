import Mathlib.Data.List.Basic
import Mathlib.Tactic.Common

/-!
# Runs of a machine

A machine is a partial step function on states, labelled by what happens: a
label that is not enabled, or after which the program is gone, has no
successor. A run is a list of labels.

Two kinds of statement are made about runs, and each is an induction done once
here. An invariant holds of every state a run reaches (`exec_invariant`), also
when it is kept only by the steps that meet some condition
(`exec_invariant_of`). And where a condition on a step is exactly what it
takes to keep a property, the runs along which the property always holds are
exactly those whose steps all meet it (`always_iff_meets`).
-/

namespace Machine

variable {σ α : Type*}

/-- The state a run ends in, if every label of it can happen. -/
def exec (step : σ → α → Option σ) : σ → List α → Option σ
  | s, [] => some s
  | s, a :: as => (step s a).bind fun s' => exec step s' as

variable {step : σ → α → Option σ}

@[simp] theorem exec_nil (s : σ) : exec step s [] = some s := rfl

theorem exec_cons {s s' : σ} {a : α} {as : List α} :
    exec step s (a :: as) = some s' ↔
      ∃ t, step s a = some t ∧ exec step t as = some s' := by
  rw [exec, Option.bind_eq_some_iff]

theorem exec_append {s s' : σ} {as bs : List α} :
    exec step s (as ++ bs) = some s' ↔
      ∃ t, exec step s as = some t ∧ exec step t bs = some s' := by
  induction as generalizing s with
  | nil => simp
  | cons a as ih =>
      rw [List.cons_append, exec_cons]
      constructor
      · rintro ⟨t, ht, h⟩
        obtain ⟨u, hu, h'⟩ := ih.mp h
        exact ⟨u, exec_cons.mpr ⟨t, ht, hu⟩, h'⟩
      · rintro ⟨u, hu, h'⟩
        obtain ⟨t, ht, h⟩ := exec_cons.mp hu
        exact ⟨t, ht, ih.mpr ⟨u, h, h'⟩⟩

theorem exec_singleton {s s' : σ} {a : α} :
    exec step s [a] = some s' ↔ step s a = some s' := by
  simp [exec_cons]

/-- The last step of a run. -/
theorem exec_snoc {s s' : σ} {as : List α} {a : α} :
    exec step s (as ++ [a]) = some s' ↔
      ∃ t, exec step s as = some t ∧ step t a = some s' := by
  simp only [exec_append, exec_singleton]

/-- What every step keeps, every run keeps. -/
theorem exec_invariant {I : σ → Prop}
    (hstep : ∀ s a s', I s → step s a = some s' → I s') {as : List α} :
    ∀ {s s' : σ}, I s → exec step s as = some s' → I s' := by
  induction as with
  | nil => intro s s' hI h; cases h; exact hI
  | cons a as ih =>
      intro s s' hI h
      obtain ⟨t, ht, h⟩ := exec_cons.mp h
      exact ih (hstep s a t hI ht) h

/-- What every step with a permitted label keeps, every run of permitted
labels keeps. -/
theorem exec_invariant_of {I : σ → Prop} {L : α → Prop}
    (hstep : ∀ s a s', I s → L a → step s a = some s' → I s')
    {as : List α} :
    ∀ {s s' : σ}, I s → (∀ a ∈ as, L a) → exec step s as = some s' →
      I s' := by
  induction as with
  | nil => intro s s' hI _ h; cases h; exact hI
  | cons a as ih =>
      intro s s' hI ha h
      obtain ⟨t, ht, h⟩ := exec_cons.mp h
      exact ih (hstep s a t hI (ha a List.mem_cons_self) ht)
        (fun b hb => ha b (List.mem_cons_of_mem _ hb)) h

/-! ## Bounded runs -/

section Measure

variable {I : σ → Prop} {L : α → Prop} {m : σ → Nat}

/-- A run whose steps all lower a measure is no longer than the measure says. -/
theorem exec_length_le (hkeep : ∀ s a s', I s → L a → step s a = some s' → I s')
    (hless : ∀ s a s', I s → L a → step s a = some s' → m s' < m s) {as : List α} :
    ∀ {s s' : σ}, I s → (∀ a ∈ as, L a) → exec step s as = some s' →
      as.length + m s' ≤ m s := by
  induction as with
  | nil => intro s s' _ _ h; cases h; simp
  | cons a as ih =>
      intro s s' hI ha h
      obtain ⟨t, ht, h⟩ := exec_cons.mp h
      have hfirst := ha a List.mem_cons_self
      have hrest := ih (hkeep s a t hI hfirst ht) (fun b hb => ha b (List.mem_cons_of_mem _ hb)) h
      have hlt := hless s a t hI hfirst ht
      rw [List.length_cons]
      omega

end Measure

/-! ## Properties of all the states of a run -/

/-- `P` holds of every state the run goes through, the first included. -/
def Always (step : σ → α → Option σ) (P : σ → Prop) : σ → List α → Prop
  | s, [] => P s
  | s, a :: as => P s ∧ ∀ s', step s a = some s' → Always step P s' as

/-- Every step the run takes meets `C`. -/
def Meets (step : σ → α → Option σ) (C : σ → α → Prop) : σ → List α → Prop
  | _, [] => True
  | s, a :: as => ∀ s', step s a = some s' → C s a ∧ Meets step C s' as

theorem always_head {P : σ → Prop} {s : σ} {as : List α}
    (h : Always step P s as) : P s := by
  cases as with
  | nil => exact h
  | cons a as => exact h.1

/-- `Always` says what it should: the property holds of the end of every
initial part of the run. -/
theorem always_iff {P : σ → Prop} {s : σ} {as : List α} :
    Always step P s as ↔
      ∀ pre post s', as = pre ++ post → exec step s pre = some s' → P s' := by
  induction as generalizing s with
  | nil =>
      constructor
      · intro h pre post s' hsplit hrun
        obtain ⟨rfl, rfl⟩ := List.append_eq_nil_iff.mp hsplit.symm
        cases hrun
        exact h
      · intro h
        exact h [] [] s rfl rfl
  | cons a as ih =>
      constructor
      · intro h pre post s' hsplit hrun
        cases pre with
        | nil => cases hrun; exact h.1
        | cons b pre =>
            obtain ⟨rfl, rfl⟩ := List.cons.inj hsplit
            obtain ⟨t, ht, hrun⟩ := exec_cons.mp hrun
            exact ih.mp (h.2 t ht) pre post s' rfl hrun
      · intro h
        refine ⟨h [] (a :: as) s rfl rfl, fun t ht => ih.mpr ?_⟩
        intro pre post s' hsplit hrun
        exact h (a :: pre) post s' (by rw [hsplit, List.cons_append])
          (exec_cons.mpr ⟨t, ht, hrun⟩)

theorem meets_and {C D : σ → α → Prop} {as : List α} :
    ∀ {s : σ}, Meets step C s as ∧ Meets step D s as ↔
      Meets step (fun s a => C s a ∧ D s a) s as := by
  induction as with
  | nil => exact ⟨fun _ => trivial, fun _ => ⟨trivial, trivial⟩⟩
  | cons a as ih =>
      intro s
      constructor
      · rintro ⟨hC, hD⟩ t ht
        exact ⟨⟨(hC t ht).1, (hD t ht).1⟩, ih.mp ⟨(hC t ht).2, (hD t ht).2⟩⟩
      · intro h
        exact ⟨fun t ht => ⟨(h t ht).1.1, (ih.mpr (h t ht).2).1⟩,
          fun t ht => ⟨(h t ht).1.2, (ih.mpr (h t ht).2).2⟩⟩

/-- What every step that meets `C` keeps, and what follows from it, holds in
every state of a run whose steps all meet `C`. -/
theorem always_of_meets {I P : σ → Prop} {C : σ → α → Prop}
    (hI : ∀ s a s', I s → C s a → step s a = some s' → I s')
    (hP : ∀ s, I s → P s) {as : List α} :
    ∀ {s : σ}, I s → Meets step C s as → Always step P s as := by
  induction as with
  | nil => intro s hIs _; exact hP s hIs
  | cons a as ih =>
      intro s hIs h
      refine ⟨hP s hIs, fun t ht => ?_⟩
      obtain ⟨hC, hrest⟩ := h t ht
      exact ih (hI s a t hIs hC ht) hrest

/-- Where meeting `C` is exactly what it takes a step to keep `P`, the runs
along which `P` always holds are those whose steps all meet `C`. `I` is what
both directions may use of the states reached, and is kept as long as `P` is. -/
theorem always_iff_meets {I P : σ → Prop} {C : σ → α → Prop}
    {L : α → Prop}
    (hI : ∀ s a s', I s → P s → P s' → L a → step s a = some s' → I s')
    (hP : ∀ s a s', I s → P s → L a → step s a = some s' →
      (P s' ↔ C s a)) {as : List α} :
    ∀ {s : σ}, I s → P s → (∀ a ∈ as, L a) →
      (Always step P s as ↔ Meets step C s as) := by
  induction as with
  | nil => intro s _ hPs _; exact ⟨fun _ => trivial, fun _ => hPs⟩
  | cons a as ih =>
      intro s hIs hPs hlab
      have ha := hlab a List.mem_cons_self
      have hrest := fun b hb => hlab b (List.mem_cons_of_mem a hb)
      constructor
      · intro h t ht
        have hPt := always_head (h.2 t ht)
        exact ⟨(hP s a t hIs hPs ha ht).mp hPt,
          (ih (hI s a t hIs hPs hPt ha ht) hPt hrest).mp (h.2 t ht)⟩
      · intro h
        refine ⟨hPs, fun t ht => ?_⟩
        have hPt := (hP s a t hIs hPs ha ht).mpr (h t ht).1
        exact (ih (hI s a t hIs hPs hPt ha ht) hPt hrest).mpr (h t ht).2

end Machine
