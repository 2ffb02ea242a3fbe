import AsioServer.Lib.Replace

/-!
# Scanning from left to right

A `Scanner` goes through a list with a state and marks some of the elements, by
the state in front of them. Two pieces are `Alike` to it if from every state both
lead to the same one and have as many marks. A replacement of a piece by one that
is alike goes unnoticed wherever it is made (`all_alike`, `seq_alike`).
-/

structure Scanner (σ α : Type*) where
  step : σ → α → σ
  marked : σ → α → Bool

namespace Scanner

variable {σ α : Type*} (S : Scanner σ α)

def run (q : σ) (s : List α) : σ := s.foldl S.step q

/-- The number of marks. -/
def count : σ → List α → Nat
  | _, [] => 0
  | q, c :: s => (if S.marked q c then 1 else 0) + count (S.step q c) s

theorem run_append (q : σ) (s t : List α) : S.run q (s ++ t) = S.run (S.run q s) t :=
  List.foldl_append

theorem count_append (q : σ) (s t : List α) :
    S.count q (s ++ t) = S.count q s + S.count (S.run q s) t := by
  induction s generalizing q with
  | nil => exact (Nat.zero_add _).symm
  | cons c s ih =>
      rw [List.cons_append, count, ih, count, Nat.add_assoc]
      rfl

def Alike (s t : List α) : Prop := ∀ q, S.run q s = S.run q t ∧ S.count q s = S.count q t

variable {S}

theorem Alike.refl (s : List α) : S.Alike s s := fun _ => ⟨rfl, rfl⟩

theorem Alike.trans {s t u : List α} (h : S.Alike s t) (h' : S.Alike t u) : S.Alike s u :=
  fun q => ⟨(h q).1.trans (h' q).1, (h q).2.trans (h' q).2⟩

theorem Alike.append {s s' t t' : List α} (h : S.Alike s s') (h' : S.Alike t t') :
    S.Alike (s ++ t) (s' ++ t') := fun q => by
  rw [run_append, run_append, count_append, count_append, (h q).1, (h q).2]
  exact ⟨(h' _).1, by rw [(h' _).2]⟩

variable [DecidableEq α]

theorem all_alike {old new : List α} (hold : old ≠ []) (h : S.Alike old new) (s : List α) :
    S.Alike s (Replace.all old new s) := by
  induction s using Replace.occurrence_induction hold with
  | nil => exact .refl []
  | skip c s hpre ih =>
      rw [Replace.all_cons hold hpre]
      exact (Alike.refl [c]).append ih
  | hit t ih =>
      rw [Replace.all_append hold]
      exact h.append ih

theorem seq_alike {rules : List (List α × List α)}
    (h : ∀ rule ∈ rules, rule.1 ≠ [] ∧ S.Alike rule.1 rule.2) (s : List α) :
    S.Alike s (Replace.seq rules s) := by
  induction rules generalizing s with
  | nil => exact .refl s
  | cons rule rules ih =>
      rw [List.forall_mem_cons] at h
      obtain ⟨⟨hold, halike⟩, hrest⟩ := h
      exact (all_alike hold halike s).trans (ih hrest _)

end Scanner
