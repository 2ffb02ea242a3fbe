import AsioServer.Lib.Replace

/-!
# Patterns with stars

A star stands for any list, and every other element of a pattern for itself, up
to a relation. Cut at its stars, a pattern is a list of pieces; the first has to
start the text and the last to end it. Between them it is enough to look for
each piece at the leftmost place behind the one before: `rest_longest` says that
this leaves the most, and `matches_iff_rest` that what is left decides the match.
-/

namespace Wildcard

variable {α β : Type*}

/-- The pattern stands for the text. -/
inductive Matches (star : α) (r : α → β → Prop) : List α → List β → Prop
  | nil : Matches star r [] []
  | star (pre : List β) {p : List α} {s : List β} (h : Matches star r p s) :
      Matches star r (star :: p) (pre ++ s)
  | cons {c : α} {d : β} {p : List α} {s : List β} (hc : c ≠ star) (hr : r c d)
      (h : Matches star r p s) : Matches star r (c :: p) (d :: s)

section Inversion

variable {star : α} {r : α → β → Prop}

theorem matches_nil_iff {s : List β} : Matches star r [] s ↔ s = [] := by
  constructor
  · intro h
    cases h
    rfl
  · rintro rfl
    exact .nil

theorem matches_star_iff {p : List α} {s : List β} :
    Matches star r (star :: p) s ↔ ∃ pre t, s = pre ++ t ∧ Matches star r p t := by
  constructor
  · intro h
    cases h with
    | star pre h => exact ⟨pre, _, rfl, h⟩
    | cons hc => exact absurd rfl hc
  · rintro ⟨pre, t, rfl, h⟩
    exact .star pre h

theorem matches_cons_iff {c : α} (hc : c ≠ star) {p : List α} {s : List β} :
    Matches star r (c :: p) s ↔ ∃ d t, s = d :: t ∧ r c d ∧ Matches star r p t := by
  constructor
  · intro h
    cases h with
    | star => exact absurd rfl hc
    | cons _ hr h => exact ⟨_, _, rfl, hr, h⟩
  · rintro ⟨d, t, rfl, hr, h⟩
    exact .cons hc hr h

end Inversion

/-- Elements are compared by what a function makes of them: the same as to
compare what it makes of the whole. -/
theorem matches_map_iff {star : α} {f : α → α} (hstar : ∀ c, f c = star ↔ c = star)
    {p s : List α} :
    Matches star (fun c d => f c = f d) p s ↔ Matches star Eq (p.map f) (s.map f) := by
  induction p generalizing s with
  | nil => rw [List.map_nil, matches_nil_iff, matches_nil_iff, List.map_eq_nil_iff]
  | cons c p ih =>
      by_cases hc : c = star
      · rw [hc, List.map_cons, (hstar star).mpr rfl, matches_star_iff, matches_star_iff]
        constructor
        · rintro ⟨pre, t, rfl, h⟩
          exact ⟨pre.map f, t.map f, List.map_append, ih.mp h⟩
        · rintro ⟨pre, t, hs, h⟩
          obtain ⟨pre', t', rfl, -, rfl⟩ := List.map_eq_append_iff.mp hs
          exact ⟨pre', t', rfl, ih.mpr h⟩
      · rw [List.map_cons, matches_cons_iff hc, matches_cons_iff fun h => hc ((hstar c).mp h)]
        constructor
        · rintro ⟨d, t, rfl, hr, h⟩
          exact ⟨f d, t.map f, rfl, hr, ih.mp h⟩
        · rintro ⟨d, t, hs, hr, h⟩
          obtain ⟨d', t', rfl, rfl, rfl⟩ := List.map_eq_cons_iff.mp hs
          exact ⟨d', t', rfl, hr, ih.mpr h⟩

theorem exists_last {star : α} {p : List α} (hp : star ∈ p) :
    ∃ front last, p = front ++ star :: last ∧ star ∉ last := by
  obtain ⟨as, bs, hrev, hnot⟩ := List.eq_append_cons_of_mem (List.mem_reverse.mpr hp)
  refine ⟨bs.reverse, as.reverse, ?_, fun h => hnot (List.mem_reverse.mp h)⟩
  rw [← List.reverse_reverse p, hrev]
  simp only [List.reverse_append, List.reverse_cons, List.append_assoc, List.singleton_append]

/-- The pieces stand in this order in `t`, and `t'` is left. -/
def Leaves : List (List α) → List α → List α → Prop
  | [], t, t' => t = t'
  | piece :: pieces, t, t' => ∃ pre u, t = pre ++ (piece ++ u) ∧ Leaves pieces u t'

theorem leaves_append {pieces pieces' : List (List α)} {t t' : List α} :
    Leaves (pieces ++ pieces') t t' ↔ ∃ u, Leaves pieces t u ∧ Leaves pieces' u t' := by
  induction pieces generalizing t with
  | nil => exact ⟨fun h => ⟨t, rfl, h⟩, fun ⟨u, hu, h⟩ => by rw [show t = u from hu]; exact h⟩
  | cons piece pieces ih =>
      constructor
      · rintro ⟨pre, v, ht, h⟩
        obtain ⟨u, hu, h'⟩ := ih.mp h
        exact ⟨u, ⟨pre, v, ht, hu⟩, h'⟩
      · rintro ⟨u, ⟨pre, v, ht, hu⟩, h'⟩
        exact ⟨pre, v, ht, ih.mpr ⟨u, hu, h'⟩⟩

variable [DecidableEq α]

/-- What is left of a text behind the pieces, each at the leftmost place. -/
def rest : List (List α) → List α → Option (List α)
  | [], t => some t
  | piece :: pieces, t =>
      match Replace.first piece t with
      | none => none
      | some (_, t') => rest pieces t'

theorem rest_leaves {pieces : List (List α)} {t u : List α} (h : rest pieces t = some u) :
    Leaves pieces t u := by
  induction pieces generalizing t with
  | nil => exact Option.some.inj h
  | cons piece pieces ih =>
      unfold rest at h
      split at h
      · cases h
      · next a b hfirst =>
          obtain ⟨ht, -⟩ := Replace.first_eq_some.mp hfirst
          exact ⟨a, b, by rw [ht, List.append_assoc], ih h⟩

/-- The leftmost places leave the most. -/
theorem rest_longest {pieces : List (List α)} {t t' x : List α} (h : Leaves pieces t t') :
    ∃ u, rest pieces (x ++ t) = some u ∧ t' <:+ u := by
  induction pieces generalizing t x with
  | nil => exact ⟨x ++ t, rfl, by rw [h]; exact List.suffix_append x t'⟩
  | cons piece pieces ih =>
      obtain ⟨pre, u, rfl, hleaves⟩ := h
      have hin : piece <:+: x ++ (pre ++ (piece ++ u)) :=
        ⟨x ++ pre, u, by simp only [List.append_assoc]⟩
      obtain ⟨a, b, hfirst⟩ := Replace.first_isSome hin
      obtain ⟨ht, hmin⟩ := Replace.first_eq_some.mp hfirst
      have hle : a.length ≤ (x ++ pre).length :=
        hmin (x ++ pre) u (by simp only [List.append_assoc])
      have hlen : u.length ≤ b.length := by
        have h := congrArg List.length ht
        simp only [List.length_append] at h hle
        omega
      -- what is left behind the leftmost place ends in what is left behind this one
      have hends : u <:+ b :=
        List.suffix_of_suffix_length_le
          (⟨x ++ (pre ++ piece), by simp only [List.append_assoc]⟩ :
            u <:+ x ++ (pre ++ (piece ++ u)))
          ⟨a ++ piece, ht.symm⟩ hlen
      obtain ⟨y, rfl⟩ := hends
      rw [rest, hfirst]
      exact ih hleaves

/-! ## A pattern and its pieces -/

theorem splitOn_star_cons (star : α) (p : List α) :
    (star :: p).splitOn star = [] :: p.splitOn star := by
  rw [List.splitOn_cons_eq_if_modifyHead, if_pos (beq_self_eq_true star)]

theorem splitOn_cons {star c : α} (hc : c ≠ star) {p q : List α} {qs : List (List α)}
    (hp : p.splitOn star = q :: qs) : (c :: p).splitOn star = (c :: q) :: qs := by
  rw [List.splitOn_cons_eq_if_modifyHead, if_neg (by rw [beq_iff_eq]; exact hc), hp]
  rfl

theorem exists_splitOn (star : α) (p : List α) : ∃ q qs, p.splitOn star = q :: qs :=
  List.exists_cons_of_ne_nil (List.splitOn_ne_nil star p)

theorem head_splitOn {star : α} {p q : List α} {qs : List (List α)}
    (hp : p.splitOn star = q :: qs) : q <+: p := by
  induction p generalizing q qs with
  | nil =>
      rw [List.splitOn_nil] at hp
      cases hp
      exact List.prefix_refl []
  | cons c p ih =>
      obtain ⟨q', qs', hp'⟩ := exists_splitOn star p
      by_cases hc : c = star
      · rw [hc, splitOn_star_cons] at hp
        cases hp
        exact List.nil_prefix
      · rw [splitOn_cons hc hp'] at hp
        cases hp
        exact List.cons_prefix_cons.mpr ⟨rfl, ih hp'⟩

theorem infix_of_mem_splitOn {star : α} {p q : List α} (hq : q ∈ p.splitOn star) : q <:+: p := by
  induction p with
  | nil =>
      rw [List.splitOn_nil, List.mem_singleton] at hq
      subst hq
      exact List.infix_refl []
  | cons c p ih =>
      obtain ⟨q', qs', hp'⟩ := exists_splitOn star p
      by_cases hc : c = star
      · rw [hc, splitOn_star_cons, List.mem_cons] at hq
        rcases hq with rfl | hq
        · exact List.nil_infix
        · exact List.infix_cons (ih hq)
      · have hwhole := splitOn_cons hc hp'
        rw [hwhole, List.mem_cons] at hq
        rcases hq with rfl | hq
        · exact (head_splitOn hwhole).isInfix
        · refine List.infix_cons (ih ?_)
          rw [hp']
          exact List.mem_cons_of_mem q' hq

/-- The first piece starts the text, and nothing is left behind the last. -/
theorem matches_iff_leaves {star : α} {p s q : List α} {qs : List (List α)}
    (hp : p.splitOn star = q :: qs) :
    Matches star Eq p s ↔ ∃ t, s = q ++ t ∧ Leaves qs t [] := by
  induction p generalizing s q qs with
  | nil =>
      rw [List.splitOn_nil] at hp
      cases hp
      rw [matches_nil_iff]
      exact ⟨fun h => ⟨[], h, rfl⟩, fun ⟨t, hs, ht⟩ => hs.trans ht⟩
  | cons c p ih =>
      obtain ⟨q', qs', hp'⟩ := exists_splitOn star p
      by_cases hc : c = star
      · rw [hc, splitOn_star_cons, hp'] at hp
        cases hp
        rw [hc, matches_star_iff]
        constructor
        · rintro ⟨pre, t, rfl, h⟩
          obtain ⟨u, rfl, hu⟩ := (ih hp').mp h
          exact ⟨_, rfl, pre, u, rfl, hu⟩
        · rintro ⟨t, rfl, pre, u, rfl, hu⟩
          exact ⟨pre, _, rfl, (ih hp').mpr ⟨u, rfl, hu⟩⟩
      · rw [splitOn_cons hc hp'] at hp
        cases hp
        rw [matches_cons_iff hc]
        constructor
        · rintro ⟨d, t, rfl, rfl, h⟩
          obtain ⟨u, rfl, hu⟩ := (ih hp').mp h
          exact ⟨u, rfl, hu⟩
        · rintro ⟨u, rfl, hu⟩
          exact ⟨c, _, rfl, rfl, (ih hp').mpr ⟨u, rfl, hu⟩⟩

/-- With a star in it: the first piece starts the text, and the last ends what
the others leave. -/
theorem matches_iff_rest {star : α} {p s q last : List α} {qs : List (List α)}
    (hp : p.splitOn star = q :: (qs ++ [last])) :
    Matches star Eq p s ↔ ∃ t u, s = q ++ t ∧ rest qs t = some u ∧ last <:+ u := by
  rw [matches_iff_leaves hp]
  constructor
  · rintro ⟨t, hs, hleaves⟩
    obtain ⟨u, hu, pre, v, huv, hv⟩ := leaves_append.mp hleaves
    obtain ⟨w, hrest, hends⟩ := rest_longest (x := []) hu
    refine ⟨t, w, hs, hrest, List.IsSuffix.trans ⟨pre, ?_⟩ hends⟩
    rw [huv, show v = [] from hv, List.append_nil]
  · rintro ⟨t, u, hs, hrest, pre, hu⟩
    exact ⟨t, hs, leaves_append.mpr ⟨u, rest_leaves hrest, pre, [],
      by rw [List.append_nil]; exact hu.symm, rfl⟩⟩

theorem matches_iff_eq {star : α} {p s : List α} (hp : star ∉ p) : Matches star Eq p s ↔ p = s := by
  rw [matches_iff_leaves (List.splitOn_eq_singleton hp)]
  constructor
  · rintro ⟨t, hs, ht⟩
    rw [hs, show t = [] from ht, List.append_nil]
  · rintro rfl
    exact ⟨[], (List.append_nil p).symm, rfl⟩

/-- Every element that separates is one before the elements are changed. -/
theorem splitOn_map {sep : α} {f : α → α} (hsep : ∀ c, f c = sep ↔ c = sep) (s : List α) :
    (s.map f).splitOn sep = (s.splitOn sep).map (List.map f) := by
  induction s with
  | nil => rfl
  | cons c s ih =>
      obtain ⟨q, qs, hs⟩ := exists_splitOn sep s
      rw [hs, List.map_cons] at ih
      by_cases hc : c = sep
      · rw [hc, List.map_cons, (hsep sep).mpr rfl, splitOn_star_cons, splitOn_star_cons, ih, hs]
        rfl
      · rw [List.map_cons, splitOn_cons (fun h => hc ((hsep c).mp h)) ih, splitOn_cons hc hs]
        rfl

end Wildcard
