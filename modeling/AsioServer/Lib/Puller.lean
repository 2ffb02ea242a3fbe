import Mathlib.Data.List.Basic
import Mathlib.Tactic.Common

/-!
# Readers that ask for what they need

A `Puller` says how many symbols it needs next and what it makes of them; it may
need none, but not for ever. `run` feeds it a stream until it is starved or has
stopped. What it makes of a stream does not depend on how the stream is cut:
`run_append` reads the second part behind what the first part left.
-/

/-- A state that needs no symbols makes the rank smaller; one that asks for nothing at all has
stopped. -/
structure Puller (σ α ε : Type*) where
  need : σ → Option Nat
  next : σ → List α → σ × List ε
  rank : σ → Nat
  rank_lt : ∀ {s}, need s = some 0 → rank (next s []).1 < rank s

namespace Puller

variable {σ α ε : Type*}

/-- Where a run stands: the state, what is left of the stream, and what was handed on. -/
structure Pulled (σ α ε : Type*) where
  state : σ
  rest : List α
  out : List ε

/-- More was handed on before. -/
def Pulled.prepend (out : List ε) (r : Pulled σ α ε) : Pulled σ α ε :=
  { r with out := out ++ r.out }

@[simp] theorem Pulled.prepend_state (out : List ε) (r : Pulled σ α ε) :
    (r.prepend out).state = r.state := rfl

@[simp] theorem Pulled.prepend_rest (out : List ε) (r : Pulled σ α ε) :
    (r.prepend out).rest = r.rest := rfl

@[simp] theorem Pulled.prepend_out (out : List ε) (r : Pulled σ α ε) :
    (r.prepend out).out = out ++ r.out := rfl

theorem Pulled.prepend_nil (r : Pulled σ α ε) : r.prepend [] = r := rfl

theorem Pulled.prepend_prepend (out out' : List ε) (r : Pulled σ α ε) :
    (r.prepend out').prepend out = r.prepend (out ++ out') := by
  rw [prepend, prepend, prepend, List.append_assoc]

def run (P : Puller σ α ε) (s : σ) (xs : List α) : Pulled σ α ε :=
  match _h : P.need s with
  | none => ⟨s, xs, []⟩
  | some n =>
      if _hn : n ≤ xs.length then
        (P.run (P.next s (xs.take n)).1 (xs.drop n)).prepend (P.next s (xs.take n)).2
      else ⟨s, xs, []⟩
termination_by (xs.length, P.rank s)
decreasing_by
  cases n with
  | zero => exact Prod.Lex.right _ (P.rank_lt _h)
  | succ n => exact Prod.Lex.left _ _ (by rw [List.length_drop]; omega)

/-- Stopped, or starved. -/
def Idle (P : Puller σ α ε) (s : σ) (xs : List α) : Prop :=
  ∀ n, P.need s = some n → xs.length < n

variable {P : Puller σ α ε}

theorem idle_of_none {s : σ} (h : P.need s = none) (xs : List α) : P.Idle s xs := fun n hn => by
  rw [h] at hn
  cases hn

theorem run_idle {s : σ} {xs : List α} (h : P.Idle s xs) : P.run s xs = ⟨s, xs, []⟩ := by
  rw [run]
  split
  · rfl
  · next n hneed => exact dif_neg (Nat.not_le.mpr (h n hneed))

theorem run_next {s : σ} {n : Nat} (h : P.need s = some n) {xs : List α} (hn : n ≤ xs.length) :
    P.run s xs = (P.run (P.next s (xs.take n)).1 (xs.drop n)).prepend
      (P.next s (xs.take n)).2 := by
  conv_lhs => rw [run]
  split
  · next hneed =>
      rw [h] at hneed
      cases hneed
  · next m hneed =>
      obtain rfl : n = m := Option.some.inj (h.symm.trans hneed)
      exact dif_pos hn

/-- The symbols it needs next, and more behind them. -/
theorem run_cons {s s' : σ} {xs : List α} {out : List ε} (h : P.need s = some xs.length)
    (hnext : P.next s xs = (s', out)) (ys : List α) :
    P.run s (xs ++ ys) = (P.run s' ys).prepend out := by
  rw [run_next h (by simp), List.take_left', List.drop_left', hnext] <;> rfl

/-- Along a run: a state that goes no further, or one that reads on. -/
theorem run_induction (P : Puller σ α ε) {motive : σ → List α → Prop}
    (idle : ∀ s xs, P.Idle s xs → motive s xs)
    (next : ∀ s xs n, P.need s = some n → n ≤ xs.length →
      motive (P.next s (xs.take n)).1 (xs.drop n) → motive s xs)
    (s : σ) (xs : List α) : motive s xs := by
  induction s, xs using Puller.run.induct P with
  | case1 s xs hnone => exact idle s xs (idle_of_none hnone xs)
  | case2 s xs n hneed hn ih => exact next s xs n hneed hn ih
  | case3 s xs n hneed hn =>
      refine idle s xs fun m hm => ?_
      obtain rfl : n = m := Option.some.inj (hneed.symm.trans hm)
      exact Nat.not_le.mp hn

/-- A stream in two parts. -/
theorem run_append (s : σ) (xs ys : List α) :
    P.run s (xs ++ ys) =
      (P.run (P.run s xs).state ((P.run s xs).rest ++ ys)).prepend (P.run s xs).out := by
  induction s, xs using P.run_induction with
  | idle s xs h => rw [run_idle h, Pulled.prepend_nil]
  | next s xs n hneed hn ih =>
      have htake : (xs ++ ys).take n = xs.take n := List.take_append_of_le_length hn
      have hdrop : (xs ++ ys).drop n = xs.drop n ++ ys := List.drop_append_of_le_length hn
      rw [run_next hneed (Nat.le_trans hn (by simp)), htake, hdrop, ih, run_next hneed hn,
        Pulled.prepend_prepend]
      rfl

/-- What has been handed on of a part is the beginning of what is handed on of the whole. -/
theorem out_begins (s : σ) (xs ys : List α) : (P.run s xs).out <+: (P.run s (xs ++ ys)).out := by
  rw [run_append]
  exact List.prefix_append _ _

/-- What every step keeps, and hands on, a run keeps and hands on. -/
theorem run_invariant {I : σ → Prop} {E : ε → Prop}
    (hnext : ∀ s xs, I s → P.need s = some xs.length →
      I (P.next s xs).1 ∧ ∀ e ∈ (P.next s xs).2, E e)
    {s : σ} (hI : I s) (xs : List α) :
    I (P.run s xs).state ∧ ∀ e ∈ (P.run s xs).out, E e := by
  induction s, xs using P.run_induction with
  | idle s xs h =>
      rw [run_idle h]
      exact ⟨hI, fun e he => by cases he⟩
  | next s xs n hneed hn ih =>
      have hlen : P.need s = some (xs.take n).length := by rw [List.length_take_of_le hn, hneed]
      obtain ⟨hkept, hout⟩ := hnext s (xs.take n) hI hlen
      obtain ⟨hlast, hrest⟩ := ih hkept
      rw [run_next hneed hn]
      refine ⟨hlast, fun e he => ?_⟩
      rcases List.mem_append.mp he with he | he
      · exact hout e he
      · exact hrest e he

/-- After what only a step that stops hands on, as the last of it, nothing is handed on. -/
theorem out_last {L : ε → Prop}
    (hnext : ∀ s xs before e after, P.need s = some xs.length →
      (P.next s xs).2 = before ++ e :: after → L e →
        after = [] ∧ P.need (P.next s xs).1 = none)
    {s : σ} {xs : List α} {before after : List ε} {e : ε}
    (h : (P.run s xs).out = before ++ e :: after) (he : L e) : after = [] := by
  induction s, xs using P.run_induction generalizing before after with
  | idle s xs hidle =>
      rw [run_idle hidle] at h
      cases before <;> cases h
  | next s xs n hneed hn ih =>
      rw [run_next hneed hn, Pulled.prepend_out, List.append_eq_append_iff] at h
      rcases h with ⟨c, -, hout⟩ | ⟨c, hstep, hout⟩
      · exact ih hout
      · cases c with
        | nil => exact ih (show _ = [] ++ e :: after from hout.symm)
        | cons e' c =>
            obtain ⟨rfl, rfl⟩ := List.cons.inj hout
            have hlen : P.need s = some (xs.take n).length := by
              rw [List.length_take_of_le hn, hneed]
            obtain ⟨rfl, hnone⟩ := hnext s _ before e c hlen hstep he
            rw [run_idle (idle_of_none hnone _)]
            rfl

end Puller
