import Mathlib.Algebra.Ring.Nat
import AsioServer.Lib.Replace

/-!
# Splitting at a separator

The separator is a list of its own, which may overlap with itself and with what
stands around it. `Pieces` says what the pieces of a list are: joined with the
separator they give it back, none of them contains the separator, and each ends
where the separator first occurs in what is left. They are the only ones
(`Pieces.unique`), and `Splits` is the induction that goes with them.
-/

namespace Split

open Replace (first first_eq_some first_eq_none first_isSome)

variable {α : Type*} [DecidableEq α]

structure Pieces (sep s : List α) (ps : List (List α)) : Prop where
  nonempty : ps ≠ []
  joined : sep.intercalate ps = s
  absent : ∀ p ∈ ps, ¬ sep <:+: p
  leftmost : ∀ front p rest, ps = front ++ p :: rest → rest ≠ [] →
    first sep (sep.intercalate (p :: rest)) = some (p, sep.intercalate rest)

/-- The pieces, one after the other. -/
inductive Splits (sep : List α) : List α → List (List α) → Prop
  | last {s : List α} (h : ¬ sep <:+: s) : Splits sep s [s]
  | piece {s a b : List α} {ps : List (List α)} (h : first sep s = some (a, b))
      (rest : Splits sep b ps) : Splits sep s (a :: ps)

variable {sep s : List α} {ps qs : List (List α)}

theorem exists_splits (hsep : sep ≠ []) (s : List α) : ∃ ps, Splits sep s ps := by
  have hpos := List.length_pos_iff.mpr hsep
  induction hn : s.length using Nat.strongRecOn generalizing s with
  | _ n ih =>
      cases hs : first sep s with
      | none => exact ⟨[s], .last (first_eq_none.mp hs)⟩
      | some ab =>
          obtain ⟨a, b⟩ := ab
          have hlen := congrArg List.length (first_eq_some.mp hs).1
          simp only [List.length_append] at hlen
          obtain ⟨ps, hps⟩ := ih b.length (by omega) b rfl
          exact ⟨a :: ps, .piece hs hps⟩

theorem Splits.unique (h : Splits sep s ps) (h' : Splits sep s qs) : ps = qs := by
  induction h generalizing qs with
  | last hnot =>
      cases h' with
      | last => rfl
      | piece hs => exact absurd ⟨_, _, (first_eq_some.mp hs).1.symm⟩ hnot
  | piece hs _ ih =>
      cases h' with
      | last hnot => exact absurd ⟨_, _, (first_eq_some.mp hs).1.symm⟩ hnot
      | piece hs' hrest =>
          rw [hs] at hs'
          cases hs'
          rw [ih hrest]

theorem Splits.ne_nil (h : Splits sep s ps) : ps ≠ [] := by
  cases h <;> exact List.cons_ne_nil _ _

theorem Splits.joined (h : Splits sep s ps) : sep.intercalate ps = s := by
  induction h with
  | last => exact List.intercalate_singleton
  | piece hs hrest ih =>
      rw [List.intercalate_cons_of_ne_nil hrest.ne_nil, ih]
      exact (first_eq_some.mp hs).1.symm

/-- In front of its leftmost occurrence the separator does not occur. -/
theorem absent_before (hsep : sep ≠ []) {a b : List α} (h : first sep s = some (a, b)) :
    ¬ sep <:+: a := by
  rintro ⟨a', b', ha⟩
  obtain ⟨hs, hmin⟩ := first_eq_some.mp h
  have hpos := List.length_pos_iff.mpr hsep
  have hle := hmin a' (b' ++ sep ++ b) (by rw [hs, ← ha]; simp only [List.append_assoc])
  rw [← ha] at hle
  simp only [List.length_append] at hle
  omega

theorem Splits.absent (hsep : sep ≠ []) (h : Splits sep s ps) : ∀ p ∈ ps, ¬ sep <:+: p := by
  induction h with
  | last hnot =>
      intro p hp
      rw [List.mem_singleton.mp hp]
      exact hnot
  | piece hs _ ih => exact List.forall_mem_cons.mpr ⟨absent_before hsep hs, ih⟩

theorem Splits.part (h : Splits sep s ps) : ∀ p ∈ ps, p <:+: s := by
  induction h with
  | last =>
      intro p hp
      obtain rfl := List.mem_singleton.mp hp
      exact List.infix_refl _
  | piece hs _ ih =>
      rw [(first_eq_some.mp hs).1, List.append_assoc]
      refine List.forall_mem_cons.mpr ⟨(List.prefix_append _ _).isInfix, fun p hp => ?_⟩
      exact (ih p hp).trans ⟨_, [], by rw [List.append_nil, List.append_assoc]⟩

theorem Splits.leftmost (h : Splits sep s ps) {front rest : List (List α)} {p : List α}
    (hps : ps = front ++ p :: rest) (hrest : rest ≠ []) :
    first sep (sep.intercalate (p :: rest)) = some (p, sep.intercalate rest) := by
  induction h generalizing front with
  | last => cases front <;> simp_all
  | piece hs ht ih =>
      cases front with
      | nil =>
          obtain ⟨rfl, rfl⟩ := List.cons.inj hps
          rw [(Splits.piece hs ht).joined, ht.joined]
          exact hs
      | cons q front => exact ih (List.cons.inj hps).2

theorem Splits.pieces (hsep : sep ≠ []) (h : Splits sep s ps) : Pieces sep s ps where
  nonempty := h.ne_nil
  joined := h.joined
  absent := h.absent hsep
  leftmost _ _ _ hps hrest := h.leftmost hps hrest

theorem Pieces.splits (h : Pieces sep s ps) : Splits sep s ps := by
  induction ps generalizing s with
  | nil => exact absurd rfl h.nonempty
  | cons p ps ih =>
      rw [← h.joined]
      by_cases hps : ps = []
      · subst hps
        rw [List.intercalate_singleton]
        exact .last (h.absent p List.mem_cons_self)
      · refine .piece (h.leftmost [] p ps rfl hps) (ih ?_)
        exact
          { nonempty := hps
            joined := rfl
            absent := fun q hq => h.absent q (List.mem_cons_of_mem p hq)
            leftmost := fun front q rest heq => h.leftmost (p :: front) q rest (by rw [heq]; rfl) }

theorem Pieces.unique (h : Pieces sep s ps) (h' : Pieces sep s qs) : ps = qs :=
  h.splits.unique h'.splits

omit [DecidableEq α] in
theorem length_intercalate (sep : List α) (ps : List (List α)) (p : List α) :
    (sep.intercalate (ps ++ [p])).length =
      (ps.map fun q => q.length + sep.length).sum + p.length := by
  induction ps with
  | nil => simp
  | cons q ps ih =>
      rw [List.cons_append, List.intercalate_cons_of_ne_nil (by simp), List.length_append,
        List.length_append, ih, List.map_cons, List.sum_cons]
      omega

end Split
