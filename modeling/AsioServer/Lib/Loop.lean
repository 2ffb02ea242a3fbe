import Mathlib.Data.List.Basic
import Mathlib.Tactic.Common

/-!
# Loops that may not end

The body of a loop goes round again from another state or leaves with a result.
`run` grants it a number of rounds, and `Leaves` says that some number is
enough; by `Leaves.unique` the number does not matter.

Two rules are about whole loops. What every round keeps holds where the loop
leaves (`Leaves.rule`), and a loop whose rounds make something smaller leaves
(`exists_leaves`), after no more rounds than that (`Leaves.run`). A body that
may also fail is one that leaves with its failure (`orFail`).
-/

namespace Loop

variable {σ ρ : Type*}

/-- The result, if the loop leaves within so many rounds. -/
def run (body : σ → σ ⊕ ρ) : Nat → σ → Option ρ
  | 0, _ => none
  | n + 1, s =>
      match body s with
      | .inl s' => run body n s'
      | .inr r => some r

def Leaves (body : σ → σ ⊕ ρ) (s : σ) (r : ρ) : Prop := ∃ n, run body n s = some r

variable {body : σ → σ ⊕ ρ}

theorem run_again {s s' : σ} (h : body s = .inl s') (n : Nat) :
    run body (n + 1) s = run body n s' := by
  rw [run, h]

theorem run_leave {s : σ} {r : ρ} (h : body s = .inr r) (n : Nat) :
    run body (n + 1) s = some r := by
  rw [run, h]

theorem leaves_again {s s' : σ} (h : body s = .inl s') {r : ρ} :
    Leaves body s r ↔ Leaves body s' r := by
  constructor
  · rintro ⟨n, hn⟩
    cases n with
    | zero => cases hn
    | succ n =>
        rw [run_again h] at hn
        exact ⟨n, hn⟩
  · rintro ⟨n, hn⟩
    refine ⟨n + 1, ?_⟩
    rw [run_again h]
    exact hn

theorem leaves_leave {s : σ} {r r' : ρ} (h : body s = .inr r) : Leaves body s r' ↔ r' = r := by
  constructor
  · rintro ⟨n, hn⟩
    cases n with
    | zero => cases hn
    | succ n =>
        rw [run_leave h] at hn
        exact (Option.some.inj hn).symm
  · rintro rfl
    exact ⟨1, run_leave h 0⟩

/-- What every round keeps holds in the state the loop leaves from. -/
theorem Leaves.rule {I : σ → Prop} (hstep : ∀ s s', I s → body s = .inl s' → I s') {s : σ}
    {r : ρ} (h : Leaves body s r) (hI : I s) : ∃ s', I s' ∧ body s' = .inr r := by
  obtain ⟨n, hn⟩ := h
  induction n generalizing s with
  | zero => cases hn
  | succ n ih =>
      cases hbody : body s with
      | inl s' =>
          rw [run_again hbody] at hn
          exact ih (hstep s s' hI hbody) hn
      | inr r' =>
          rw [run_leave hbody] at hn
          cases hn
          exact ⟨s, hI, hbody⟩

theorem Leaves.unique {s : σ} {r r' : ρ} (h : Leaves body s r) (h' : Leaves body s r') :
    r = r' := by
  obtain ⟨n, hn⟩ := h
  induction n generalizing s with
  | zero => cases hn
  | succ n ih =>
      cases hbody : body s with
      | inl s' =>
          rw [run_again hbody] at hn
          exact ih ((leaves_again hbody).mp h') hn
      | inr r₀ =>
          rw [run_leave hbody] at hn
          cases hn
          exact ((leaves_leave hbody).mp h').symm

/-- If every round makes `μ` smaller, more rounds than that are enough. -/
theorem exists_run {I : σ → Prop} (μ : σ → Nat)
    (hstep : ∀ s s', I s → body s = .inl s' → I s' ∧ μ s' < μ s) {s : σ} (hI : I s) {n : Nat}
    (hn : μ s < n) : ∃ r, run body n s = some r := by
  induction n generalizing s with
  | zero => omega
  | succ n ih =>
      cases hbody : body s with
      | inl s' =>
          obtain ⟨hI', hlt⟩ := hstep s s' hI hbody
          rw [run_again hbody]
          exact ih hI' (by omega)
      | inr r => exact ⟨r, run_leave hbody n⟩

/-- A loop leaves if every round makes `μ` smaller. -/
theorem exists_leaves {I : σ → Prop} (μ : σ → Nat)
    (hstep : ∀ s s', I s → body s = .inl s' → I s' ∧ μ s' < μ s) {s : σ} (hI : I s) :
    ∃ r, Leaves body s r := by
  obtain ⟨r, hr⟩ := exists_run μ hstep hI (Nat.lt_succ_self (μ s))
  exact ⟨r, _, hr⟩

/-- So many rounds give the result that some number of rounds gives. -/
theorem Leaves.run {I : σ → Prop} (μ : σ → Nat)
    (hstep : ∀ s s', I s → body s = .inl s' → I s' ∧ μ s' < μ s) {s : σ} (hI : I s) {n : Nat}
    (hn : μ s < n) {r : ρ} (h : Leaves body s r) : run body n s = some r := by
  obtain ⟨r', hr'⟩ := exists_run μ hstep hI hn
  have hr : Leaves body s r' := ⟨n, hr'⟩
  rw [hr', hr.unique h]

/-! ## Rounds that may fail -/

section

variable {ε : Type*}

/-- The loop leaves with the failure. -/
def orFail (body : σ → Except ε (σ ⊕ ρ)) (s : σ) : σ ⊕ Except ε ρ :=
  match body s with
  | .ok (.inl s') => .inl s'
  | .ok (.inr r) => .inr (.ok r)
  | .error e => .inr (.error e)

variable {body : σ → Except ε (σ ⊕ ρ)} {s : σ}

theorem orFail_again {s' : σ} : orFail body s = .inl s' ↔ body s = .ok (.inl s') := by
  unfold orFail
  split <;> simp_all

theorem orFail_leave {r : ρ} : orFail body s = .inr (.ok r) ↔ body s = .ok (.inr r) := by
  unfold orFail
  split <;> simp_all

end

end Loop
