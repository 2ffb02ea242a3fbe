import Mathlib.Algebra.Ring.Nat
import AsioServer.Lib.Replace

/-!
# Rewriting with one rule

The leftmost occurrence of a list is replaced by another, again and again, also
in what a replacement has put there. This may go on for ever, even if the new
list does not contain the old one: `ab → bbaa` turns `aab` into `bbaabaa`, which
contains `aab`.

It does end if the new list is not the longer one (`steps_end`). If it is shorter
every step shortens the text. If both are of a length they differ in some place,
and read as a binary number, with a one for each element that is the old one of
that place, the text becomes smaller.
-/

namespace Rewrite

open Replace (first first_eq_some first_eq_none first_isSome)

variable {α : Type*} [DecidableEq α]

/-- The text after so many replacements, or all that can be made. -/
def steps (old new : List α) : Nat → List α → List α
  | 0, s => s
  | n + 1, s =>
      match first old s with
      | none => s
      | some (a, b) => steps old new n (a ++ new ++ b)

variable {old new s : List α}

theorem steps_of_absent (h : ¬ old <:+: s) (n : Nat) : steps old new n s = s := by
  cases n with
  | zero => rfl
  | succ n => rw [steps, first_eq_none.mpr h]

theorem steps_first {a b : List α} (h : first old s = some (a, b)) (n : Nat) :
    steps old new (n + 1) s = steps old new n (a ++ new ++ b) := by
  rw [steps, h]

theorem steps_add (m n : Nat) (s : List α) :
    steps old new (m + n) s = steps old new n (steps old new m s) := by
  induction m generalizing s with
  | zero => rw [Nat.zero_add, steps]
  | succ m ih =>
      cases hs : first old s with
      | none =>
          have hnot := first_eq_none.mp hs
          rw [steps_of_absent hnot, steps_of_absent hnot, steps_of_absent hnot]
      | some ab =>
          obtain ⟨a, b⟩ := ab
          rw [steps_first hs, Nat.succ_add, steps_first hs, ih]

theorem length_first (new : List α) {a b : List α} (h : first old s = some (a, b)) :
    (a ++ new ++ b).length + old.length = s.length + new.length := by
  rw [(first_eq_some.mp h).1]
  simp only [List.length_append]
  omega

/-- Every replacement that is made adds the difference. -/
theorem exists_count (old new : List α) (n : Nat) (s : List α) :
    ∃ m ≤ n, steps old new m s = steps old new n s ∧
      (steps old new n s).length + m * old.length = s.length + m * new.length := by
  induction n generalizing s with
  | zero => exact ⟨0, Nat.le_refl _, rfl, by rw [steps, Nat.zero_mul, Nat.zero_mul]⟩
  | succ n ih =>
      cases hs : first old s with
      | none =>
          refine ⟨0, Nat.zero_le _, ?_, ?_⟩
          · rw [steps_of_absent (first_eq_none.mp hs) (n + 1), steps]
          · rw [steps_of_absent (first_eq_none.mp hs), Nat.zero_mul, Nat.zero_mul]
      | some ab =>
          obtain ⟨a, b⟩ := ab
          obtain ⟨m, hm, hsame, hlen⟩ := ih (a ++ new ++ b)
          have hfirst := length_first new hs
          refine ⟨m + 1, Nat.succ_le_succ hm, ?_, ?_⟩
          · rw [steps_first hs, steps_first hs, hsame]
          · rw [steps_first hs, Nat.succ_mul, Nat.succ_mul]
            omega

theorem length_steps_le (hle : new.length ≤ old.length) (n : Nat) (s : List α) :
    (steps old new n s).length ≤ s.length := by
  induction n generalizing s with
  | zero => exact Nat.le_refl _
  | succ n ih =>
      cases hs : first old s with
      | none => rw [steps_of_absent (first_eq_none.mp hs)]
      | some ab =>
          obtain ⟨a, b⟩ := ab
          have hfirst := length_first new hs
          have hrest := ih (a ++ new ++ b)
          rw [steps_first hs]
          omega

/-! ## Rules that do not lengthen -/

/-- The text as a binary number, the first element first. -/
def weight (x : α) : List α → Nat
  | [] => 0
  | c :: s => (if c = x then 2 ^ s.length else 0) + weight x s

theorem weight_lt (x : α) (s : List α) : weight x s < 2 ^ s.length := by
  induction s with
  | nil => exact Nat.one_pos
  | cons c s ih =>
      rw [weight, List.length_cons, Nat.pow_succ]
      split <;> omega

theorem weight_append (x : α) (s t : List α) :
    weight x (s ++ t) = weight x s * 2 ^ t.length + weight x t := by
  induction s with
  | nil => rw [List.nil_append, weight, Nat.zero_mul, Nat.zero_add]
  | cons c s ih =>
      rw [List.cons_append, weight, weight, ih, List.length_append, Nat.pow_add, Nat.add_mul]
      split <;> omega

/-- Lists of one length are the same or differ in a first place. -/
theorem exists_first_difference {u v : List α} (hlen : u.length = v.length) (hne : u ≠ v) :
    ∃ p x y u' v', x ≠ y ∧ u = p ++ x :: u' ∧ v = p ++ y :: v' ∧ u'.length = v'.length := by
  induction u generalizing v with
  | nil => exact absurd (List.eq_nil_of_length_eq_zero hlen.symm).symm hne
  | cons c u ih =>
      cases v with
      | nil => cases hlen
      | cons d v =>
          by_cases hcd : c = d
          · subst hcd
            obtain ⟨p, x, y, u', v', hxy, hu, hv, hrest⟩ :=
              ih (Nat.succ.inj hlen) fun h => hne (by rw [h])
            exact ⟨c :: p, x, y, u', v', hxy, by rw [hu]; rfl, by rw [hv]; rfl, hrest⟩
          · exact ⟨[], c, d, u, v, hcd, rfl, rfl, Nat.succ.inj hlen⟩

/-- The first place in which the new list differs decides. -/
theorem weight_replaced {p u' v' : List α} {x y : α} (hxy : x ≠ y)
    (hlen : u'.length = v'.length) (a b : List α) :
    weight x (a ++ (p ++ y :: v') ++ b) < weight x (a ++ (p ++ x :: u') ++ b) := by
  have hsplit : ∀ z w, a ++ (p ++ z :: w) ++ b = (a ++ p) ++ z :: (w ++ b) := fun z w => by
    simp only [List.append_assoc, List.cons_append]
  have hlen' : (v' ++ b).length = (u' ++ b).length := by
    rw [List.length_append, List.length_append, hlen]
  have hlt := weight_lt x (v' ++ b)
  rw [hsplit, hsplit, weight_append x (a ++ p) (y :: (v' ++ b)),
    weight_append x (a ++ p) (x :: (u' ++ b)), weight, weight, if_neg (Ne.symm hxy), if_pos rfl,
    List.length_cons, List.length_cons, hlen']
  rw [hlen'] at hlt
  omega

/-- Every step makes a number smaller, and so one is the last. -/
theorem steps_end_of_measure (μ : List α → Nat)
    (h : ∀ s a b, first old s = some (a, b) → μ (a ++ new ++ b) < μ s) (s : List α) :
    ∃ n, ¬ old <:+: steps old new n s := by
  induction hn : μ s using Nat.strongRecOn generalizing s with
  | _ n ih =>
      cases hs : first old s with
      | none => exact ⟨0, first_eq_none.mp hs⟩
      | some ab =>
          obtain ⟨a, b⟩ := ab
          have hlt := h s a b hs
          obtain ⟨k, hk⟩ := ih (μ (a ++ new ++ b)) (by omega) (a ++ new ++ b) rfl
          refine ⟨k + 1, ?_⟩
          rw [steps_first hs]
          exact hk

theorem steps_end (hle : new.length ≤ old.length) (hne : old ≠ new) (s : List α) :
    ∃ n, ¬ old <:+: steps old new n s := by
  rcases Nat.lt_or_eq_of_le hle with hlt | hlen
  · refine steps_end_of_measure List.length (fun t a b ht => ?_) s
    have hfirst := length_first new ht
    omega
  · obtain ⟨p, x, y, u', v', hxy, hu, hv, hrest⟩ := exists_first_difference hlen.symm hne
    refine steps_end_of_measure (weight x) (fun t a b ht => ?_) s
    rw [(first_eq_some.mp ht).1, hu, hv]
    exact weight_replaced hxy hrest a b

/-! ## A rule that does not end -/

section Endless

variable {x y : α}

theorem first_xxy (hxy : x ≠ y) (k m : Nat) :
    first [x, y] (List.replicate k y ++ ([x, x, y] ++ List.replicate m x)) =
      some (List.replicate k y ++ [x], List.replicate m x) := by
  have hskip : x ∉ List.replicate k y := fun hmem => hxy (List.eq_of_mem_replicate hmem)
  have hnot : ¬ [x, y] <+: x :: ([x, y] ++ List.replicate m x) := by
    simp [List.cons_prefix_cons, Ne.symm hxy]
  rw [Replace.first_skip hskip, List.cons_append, Replace.first_cons hnot, Replace.first_append]
  rfl

theorem first_xyyxx (hxy : x ≠ y) (k m : Nat) :
    first [x, y] (List.replicate k y ++ ([x, y, y, x, x] ++ List.replicate m x)) =
      some (List.replicate k y, [y, x, x] ++ List.replicate m x) := by
  have hskip : x ∉ List.replicate k y := fun hmem => hxy (List.eq_of_mem_replicate hmem)
  rw [Replace.first_skip hskip, show [x, y, y, x, x] ++ List.replicate m x =
    [x, y] ++ ([y, x, x] ++ List.replicate m x) from rfl, Replace.first_append, Option.map_some]
  simp

/-- `xxy` becomes `xyyxx`, and that `yyxxyxx`: the start again, between letters
that take no part. -/
theorem endless (hxy : x ≠ y) (n k m : Nat) :
    [x, y] <:+: steps [x, y] [y, y, x, x] n
        (List.replicate k y ++ ([x, x, y] ++ List.replicate m x)) ∧
      [x, y] <:+: steps [x, y] [y, y, x, x] n
        (List.replicate k y ++ ([x, y, y, x, x] ++ List.replicate m x)) := by
  have hnext₁ : ∀ k m, List.replicate k y ++ [x] ++ [y, y, x, x] ++ List.replicate m x =
      List.replicate k y ++ ([x, y, y, x, x] ++ List.replicate m x) := fun k m => by
    simp
  have hnext₂ : ∀ k m, List.replicate k y ++ [y, y, x, x] ++ ([y, x, x] ++ List.replicate m x) =
      List.replicate (k + 2) y ++ ([x, x, y] ++ List.replicate (m + 2) x) := fun k m => by
    rw [List.replicate_add, Nat.add_comm m 2, List.replicate_add]
    simp
  induction n generalizing k m with
  | zero =>
      exact ⟨⟨_, _, (first_eq_some.mp (first_xxy hxy k m)).1.symm⟩,
        ⟨_, _, (first_eq_some.mp (first_xyyxx hxy k m)).1.symm⟩⟩
  | succ n ih =>
      rw [steps_first (first_xxy hxy k m), hnext₁, steps_first (first_xyyxx hxy k m), hnext₂]
      exact ⟨(ih k m).2, (ih (k + 2) (m + 2)).1⟩

end Endless

end Rewrite
