import Mathlib.Data.List.Basic
import Mathlib.Data.Nat.Find
import Mathlib.Tactic.Common

/-!
# Replacing a sublist

`first` finds the leftmost occurrence of a pattern and `all` replaces one
occurrence after the other, each found behind the one before. A list is a
pattern and a rest, an element that starts no occurrence and a rest, or empty;
`all` has one equation for each (`all_append`, `all_cons`, `all_nil`), and
`occurrence_induction` is the induction that goes with them.

Two kinds of fact follow. Whether another pattern occurs is the same before and
after, if neither the old piece nor the new one can be part of an occurrence
beyond a common end (`infix_all_iff`). And what a replacement adds it never
takes away again, so a sequence of replacements of which none takes away what
one before it adds is the identity only on lists that have none of the patterns
(`seq_eq_self_iff`).
-/

namespace Replace

variable {α : Type*} [DecidableEq α]

/-- What stands before and behind the leftmost occurrence. -/
def first (pat s : List α) : Option (List α × List α) := s.dropInfix? pat

theorem first_eq_some {pat s a b : List α} :
    first pat s = some (a, b) ↔
      s = a ++ pat ++ b ∧ ∀ a' b', s = a' ++ pat ++ b' → a.length ≤ a'.length := by
  rw [first, List.dropInfix?_eq_some_iff]
  simp only [beq_iff_eq, exists_eq_right, ge_iff_le]
  exact and_congr_right fun _ =>
    ⟨fun h a' b' hs => h a' pat b' hs rfl, fun h a' pat' b' hs heq => h a' b' (heq ▸ hs)⟩

/-- An occurrence somewhere gives a leftmost one. -/
theorem first_isSome {pat s : List α} (h : pat <:+: s) : ∃ a b, first pat s = some (a, b) := by
  classical
  obtain ⟨a, b, hs⟩ := h
  have hex : ∃ n a b, s = a ++ pat ++ b ∧ a.length = n := ⟨a.length, a, b, hs.symm, rfl⟩
  obtain ⟨a, b, hs, hlen⟩ := Nat.find_spec hex
  refine ⟨a, b, first_eq_some.mpr ⟨hs, fun a' b' hs' => ?_⟩⟩
  rw [hlen]
  exact Nat.find_min' hex ⟨a', b', hs', rfl⟩

theorem first_eq_none {pat s : List α} : first pat s = none ↔ ¬ pat <:+: s := by
  constructor
  · intro hnone hin
    obtain ⟨a, b, hsome⟩ := first_isSome hin
    rw [hnone] at hsome
    cases hsome
  · intro hnot
    cases h : first pat s with
    | none => rfl
    | some ab =>
        obtain ⟨a, b⟩ := ab
        exact absurd ⟨a, b, (first_eq_some.mp h).1.symm⟩ hnot

/-- Does a pattern occur somewhere? -/
def occurs (pat s : List α) : Bool := (first pat s).isSome

theorem occurs_iff {pat s : List α} : occurs pat s = true ↔ pat <:+: s := by
  constructor
  · intro h
    obtain ⟨⟨a, b⟩, hsome⟩ := Option.isSome_iff_exists.mp h
    exact ⟨a, b, (first_eq_some.mp hsome).1.symm⟩
  · intro h
    obtain ⟨a, b, hsome⟩ := first_isSome h
    rw [occurs, hsome]
    rfl

theorem first_append (pat t : List α) : first pat (pat ++ t) = some ([], t) :=
  first_eq_some.mpr ⟨rfl, fun _ _ _ => Nat.zero_le _⟩

theorem first_cons {pat s : List α} {c : α} (h : ¬ pat <+: c :: s) :
    first pat (c :: s) = (first pat s).map (Prod.map (c :: ·) id) := by
  cases hs : first pat s with
  | none =>
      rw [Option.map_none, first_eq_none, List.infix_cons_iff]
      exact fun hin => hin.elim h (first_eq_none.mp hs)
  | some ab =>
      obtain ⟨a, b⟩ := ab
      obtain ⟨hs, hmin⟩ := first_eq_some.mp hs
      refine first_eq_some.mpr ⟨by rw [hs]; rfl, fun a' b' hs' => ?_⟩
      cases a' with
      | nil => exact absurd ⟨b', hs'.symm⟩ h
      | cons d a' =>
          have hle := hmin a' b' (List.cons.inj hs').2
          simpa using hle

/-- Elements that differ from the first of the pattern. -/
theorem first_skip {x : α} {pat ds : List α} (h : x ∉ ds) (t : List α) :
    first (x :: pat) (ds ++ t) = (first (x :: pat) t).map (Prod.map (ds ++ ·) id) := by
  induction ds with
  | nil =>
      rw [List.nil_append]
      cases first (x :: pat) t with
      | none => rfl
      | some ab => rfl
  | cons d ds ih =>
      rw [List.mem_cons, not_or] at h
      have hnot : ¬ x :: pat <+: d :: (ds ++ t) := fun hpre =>
        h.1 (List.cons_prefix_cons.mp hpre).1
      rw [List.cons_append, first_cons hnot, ih h.2, Option.map_map]
      rfl

/-! ## All occurrences -/

/-- At most so many occurrences are replaced. -/
def loop (old new : List α) : Nat → List α → List α
  | 0, s => s
  | n + 1, s =>
      match first old s with
      | none => s
      | some (a, b) => a ++ new ++ loop old new n b

/-- All occurrences, from left to right. -/
def all (old new s : List α) : List α := loop old new s.length s

variable {old new : List α}

/-- The number of rounds does not matter once it covers the list. -/
theorem loop_eq (hold : old ≠ []) : ∀ {n m : Nat} {s : List α}, s.length ≤ n → s.length ≤ m →
    loop old new n s = loop old new m s := by
  have hshort : ∀ {s a b : List α}, first old s = some (a, b) → b.length < s.length := by
    intro s a b h
    have hpos := List.length_pos_iff.mpr hold
    rw [(first_eq_some.mp h).1]
    simp only [List.length_append]
    omega
  have hzero : ∀ {n : Nat}, loop old new n [] = [] := by
    intro n
    cases n with
    | zero => rfl
    | succ n =>
        have hnone : first old [] = none :=
          first_eq_none.mpr fun h => hold (List.infix_nil.mp h)
        rw [loop, hnone]
  intro n
  induction n with
  | zero =>
      intro m s hn _
      obtain rfl := List.length_eq_zero_iff.mp (Nat.le_zero.mp hn)
      rw [hzero, hzero]
  | succ n ih =>
      intro m s hn hm
      cases m with
      | zero =>
          obtain rfl := List.length_eq_zero_iff.mp (Nat.le_zero.mp hm)
          rw [hzero, hzero]
      | succ m =>
          cases hfirst : first old s with
          | none => rw [loop, loop, hfirst]
          | some ab =>
              obtain ⟨a, b⟩ := ab
              have hlt := hshort hfirst
              rw [loop, loop, hfirst]
              show a ++ new ++ _ = a ++ new ++ _
              rw [ih (m := m) (by omega) (by omega)]

theorem all_of_absent {s : List α} (h : ¬ old <:+: s) : all old new s = s := by
  rw [all]
  cases s.length with
  | zero => rfl
  | succ n => rw [loop, first_eq_none.mpr h]

/-- The leftmost occurrence and what is replaced behind it. -/
theorem all_of_first (hold : old ≠ []) {s a b : List α} (h : first old s = some (a, b)) :
    all old new s = a ++ new ++ all old new b := by
  obtain ⟨hs, -⟩ := first_eq_some.mp h
  have hpos := List.length_pos_iff.mpr hold
  have hlen : b.length < s.length := by
    rw [hs]
    simp only [List.length_append]
    omega
  rw [all, all, loop_eq hold (m := (s.length - 1) + 1) (Nat.le_refl _) (by omega), loop, h]
  show a ++ new ++ _ = a ++ new ++ _
  rw [loop_eq hold (by omega) (Nat.le_refl b.length)]

@[simp] theorem all_nil : all old new ([] : List α) = [] := rfl

theorem all_append (hold : old ≠ []) (t : List α) :
    all old new (old ++ t) = new ++ all old new t :=
  all_of_first hold (first_append old t)

theorem all_cons (hold : old ≠ []) {c : α} {s : List α} (h : ¬ old <+: c :: s) :
    all old new (c :: s) = c :: all old new s := by
  cases hs : first old s with
  | none =>
      have hnot := first_eq_none.mp hs
      rw [all_of_absent hnot, all_of_absent fun hin => ?_]
      exact (List.infix_cons_iff.mp hin).elim h hnot
  | some ab =>
      obtain ⟨a, b⟩ := ab
      have hcons : first old (c :: s) = some (c :: a, b) := by
        rw [first_cons h, hs]
        rfl
      rw [all_of_first hold hs, all_of_first hold hcons]
      rfl

/-- Elements that differ from the first of the pattern. -/
theorem all_skip {x : α} {ds : List α} (h : x ∉ ds) (t : List α) :
    all (x :: old) new (ds ++ t) = ds ++ all (x :: old) new t := by
  induction ds with
  | nil => rfl
  | cons d ds ih =>
      rw [List.mem_cons, not_or] at h
      have hnot : ¬ x :: old <+: d :: (ds ++ t) := fun hpre =>
        h.1 (List.cons_prefix_cons.mp hpre).1
      rw [List.cons_append, all_cons (List.cons_ne_nil x old) hnot, ih h.2, List.cons_append]

/-- Every list is empty, an element that starts no occurrence, or an
occurrence, and a rest. -/
theorem occurrence_induction (hold : old ≠ []) {P : List α → Prop} (nil : P [])
    (skip : ∀ c s, ¬ old <+: c :: s → P s → P (c :: s)) (hit : ∀ t, P t → P (old ++ t)) :
    ∀ s, P s := by
  have hpos := List.length_pos_iff.mpr hold
  intro s
  induction hn : s.length using Nat.strongRecOn generalizing s with
  | _ n ih =>
      by_cases hpre : old <+: s
      · obtain ⟨t, rfl⟩ := hpre
        rw [List.length_append] at hn
        exact hit t (ih t.length (by omega) t rfl)
      · cases s with
        | nil => exact nil
        | cons c s =>
            rw [List.length_cons] at hn
            exact skip c s hpre (ih s.length (by omega) s rfl)

omit [DecidableEq α] in
/-- An occurrence ends before an element it does not contain. -/
theorem prefix_of_cut {sep : α} (hsep : sep ∉ old) {s t : List α} (h : old <+: s ++ sep :: t) :
    old <+: s := by
  obtain ⟨u, hu⟩ := h
  rcases List.append_eq_append_iff.mp hu with ⟨v, rfl, -⟩ | ⟨v, rfl, hv⟩
  · exact List.prefix_append old v
  · cases v with
    | nil => simp
    | cons d v =>
        refine absurd ?_ hsep
        rw [(List.cons.inj hv).1]
        simp

/-- An element that no occurrence contains cuts the list in two. -/
theorem all_cut (hold : old ≠ []) {sep : α} (hsep : sep ∉ old) (s t : List α) :
    all old new (s ++ sep :: t) = all old new s ++ sep :: all old new t := by
  induction s using occurrence_induction hold with
  | nil =>
      have hnot : ¬ old <+: sep :: t := fun hpre =>
        hold (List.prefix_nil.mp (prefix_of_cut hsep (s := []) hpre))
      rw [List.nil_append, all_cons hold hnot, all_nil, List.nil_append]
  | skip c s hpre ih =>
      have hnot : ¬ old <+: c :: (s ++ sep :: t) := fun hlong =>
        hpre (prefix_of_cut hsep (s := c :: s) hlong)
      rw [List.cons_append, all_cons hold hnot, ih, all_cons hold hpre, List.cons_append]
  | hit u ih =>
      rw [List.append_assoc, all_append hold, ih, all_append hold, List.append_assoc]

/-! ## What is added -/

/-- An element the new piece has at least as often as the old one. -/
theorem count_le_all (hold : old ≠ []) {c : α} (hc : old.count c ≤ new.count c) (s : List α) :
    s.count c ≤ (all old new s).count c := by
  induction s using occurrence_induction hold with
  | nil => simp
  | skip d s hpre ih =>
      rw [all_cons hold hpre, List.count_cons, List.count_cons]
      omega
  | hit t ih =>
      rw [all_append hold, List.count_append, List.count_append]
      omega

/-- An element both pieces have equally often. -/
theorem count_all (hold : old ≠ []) {c : α} (hc : old.count c = new.count c) (s : List α) :
    (all old new s).count c = s.count c := by
  induction s using occurrence_induction hold with
  | nil => rfl
  | skip d s hpre ih => rw [all_cons hold hpre, List.count_cons, List.count_cons, ih]
  | hit t ih => rw [all_append hold, List.count_append, List.count_append, ih, hc]

/-- An element the new piece has more often. -/
theorem count_lt_all (hold : old ≠ []) {c : α} (hc : old.count c < new.count c) {s : List α}
    (hin : old <:+: s) : s.count c < (all old new s).count c := by
  obtain ⟨a, b, hfirst⟩ := first_isSome hin
  have hle := count_le_all hold (Nat.le_of_lt hc) b
  rw [all_of_first hold hfirst, (first_eq_some.mp hfirst).1]
  simp only [List.count_append]
  omega

/-- A new piece that is not shorter makes nothing shorter. -/
theorem length_le_all (hold : old ≠ []) (hle : old.length ≤ new.length) (s : List α) :
    s.length ≤ (all old new s).length := by
  induction s using occurrence_induction hold with
  | nil => exact Nat.zero_le _
  | skip c s hpre ih =>
      rw [all_cons hold hpre, List.length_cons, List.length_cons]
      omega
  | hit t ih =>
      rw [all_append hold, List.length_append, List.length_append]
      omega

/-- A list grows at most as the pieces do. -/
theorem length_all_le (hold : old ≠ []) {m : Nat} (hpos : 1 ≤ m)
    (hle : new.length ≤ m * old.length) (s : List α) : (all old new s).length ≤ m * s.length := by
  induction s using occurrence_induction hold with
  | nil => exact Nat.zero_le _
  | skip c s hpre ih =>
      rw [all_cons hold hpre, List.length_cons, List.length_cons, Nat.mul_add]
      omega
  | hit t ih =>
      rw [all_append hold, List.length_append, List.length_append, Nat.mul_add]
      omega

/-- After one replacement a list is not longer than before or in the end. -/
theorem length_first_le (hold : old ≠ []) {s a b : List α} (hs : first old s = some (a, b)) :
    (a ++ new ++ b).length ≤ max s.length (all old new s).length := by
  have hlen := congrArg List.length (first_eq_some.mp hs).1
  have hall : (all old new s).length = (a ++ new ++ all old new b).length := by
    rw [all_of_first hold hs]
  simp only [List.length_append] at hlen hall ⊢
  rcases Nat.le_total new.length old.length with hle | hle
  · omega
  · have hrest := length_le_all hold hle b
    omega

/-! ## Other patterns -/

/-- Between a list and what follows it, a pattern occurs on one side or across
the end of what stands between, if this neither ends the pattern with a part of
its own nor lies within it, nor the other way round. -/
structure Apart (pat m : List α) : Prop where
  ends : ∀ k < m.length, ¬ m.take (k + 1) <:+ pat
  within : ¬ m <:+: pat
  around : ¬ pat <:+: m

omit [DecidableEq α] in
theorem infix_between {pat a m b : List α} (h : Apart pat m) :
    pat <:+: a ++ (m ++ b) ↔
      pat <:+: a ∨ pat <:+: b ∨ ∃ k, pat.take k <:+ m ∧ pat.drop k <+: b := by
  constructor
  · rintro ⟨u, v, huv⟩
    rw [List.append_assoc] at huv
    rcases List.append_eq_append_iff.mp huv with ⟨c, rfl, hc⟩ | ⟨c, rfl, hc⟩
    · rcases List.append_eq_append_iff.mp hc with ⟨d, rfl, -⟩ | ⟨d, rfl, hd⟩
      · exact Or.inl ⟨u, d, List.append_assoc u pat d⟩
      · -- `m` starts in front of the end of the pattern: it ends the pattern, or lies within it.
        rcases List.append_eq_append_iff.mp hd with ⟨e, rfl, -⟩ | ⟨e, rfl, -⟩
        · exact absurd ⟨c, e, List.append_assoc c m e⟩ h.within
        · cases d with
          | nil => exact Or.inl ⟨u, [], by simp⟩
          | cons x d =>
              refine absurd (List.suffix_append c (x :: d)) ?_
              have hlt : d.length < (x :: d ++ e).length := by
                rw [List.length_append, List.length_cons]
                omega
              simpa using h.ends d.length hlt
    · rcases List.append_eq_append_iff.mp hc with ⟨d, rfl, rfl⟩ | ⟨d, rfl, hd⟩
      · exact Or.inr (Or.inl ⟨d, v, List.append_assoc d pat v⟩)
      · rcases List.append_eq_append_iff.mp hd with ⟨e, rfl, -⟩ | ⟨e, rfl, rfl⟩
        · exact absurd ⟨c, e, List.append_assoc c pat e⟩ h.around
        · refine Or.inr (Or.inr ⟨d.length, ?_, ?_⟩)
          · simp
          · simp
  · rintro (⟨u, v, rfl⟩ | ⟨u, v, rfl⟩ | ⟨k, ⟨u, hu⟩, ⟨v, hv⟩⟩)
    · exact ⟨u, v ++ (m ++ b), by simp⟩
    · exact ⟨a ++ (m ++ u), v, by simp⟩
    · refine ⟨a ++ u, v, ?_⟩
      calc a ++ u ++ pat ++ v = a ++ u ++ (pat.take k ++ pat.drop k) ++ v := by
            rw [List.take_append_drop]
        _ = a ++ ((u ++ pat.take k) ++ (pat.drop k ++ v)) := by simp only [List.append_assoc]
        _ = a ++ (m ++ b) := by rw [hu, hv]

/-- Two pieces that end in the same parts of a pattern. -/
structure Alike (pat old new : List α) : Prop where
  oldApart : Apart pat old
  newApart : Apart pat new
  ends : ∀ k ≤ pat.length, pat.take k <:+ old ↔ pat.take k <:+ new

theorem apart_iff {pat m : List α} :
    ((List.range m.length).all (fun k => !(m.take (k + 1)).isSuffixOf pat) &&
      (first m pat).isNone && (first pat m).isNone) = true ↔ Apart pat m := by
  simp only [Bool.and_eq_true, List.all_eq_true, List.mem_range, Option.isNone_iff_eq_none,
    first_eq_none, Bool.not_eq_true', ← Bool.not_eq_true, List.isSuffixOf_iff_suffix]
  exact ⟨fun h => ⟨h.1.1, h.1.2, h.2⟩, fun h => ⟨⟨h.ends, h.within⟩, h.around⟩⟩

instance (pat m : List α) : Decidable (Apart pat m) := decidable_of_iff _ apart_iff

theorem alike_iff {pat old new : List α} :
    (decide (Apart pat old) && decide (Apart pat new) &&
      (List.range (pat.length + 1)).all fun k =>
        (pat.take k).isSuffixOf old == (pat.take k).isSuffixOf new) = true ↔
      Alike pat old new := by
  simp only [Bool.and_eq_true, List.all_eq_true, List.mem_range, decide_eq_true_eq,
    Nat.lt_succ_iff, beq_iff_eq]
  have hiff : ∀ k, (pat.take k).isSuffixOf old = (pat.take k).isSuffixOf new ↔
      (pat.take k <:+ old ↔ pat.take k <:+ new) := fun k => by
    rw [← List.isSuffixOf_iff_suffix, ← List.isSuffixOf_iff_suffix, Bool.eq_iff_iff]
  simp only [hiff]
  exact ⟨fun h => ⟨h.1.1, h.1.2, h.2⟩, fun h => ⟨⟨h.oldApart, h.newApart⟩, h.ends⟩⟩

instance (pat old new : List α) : Decidable (Alike pat old new) := decidable_of_iff _ alike_iff

omit [DecidableEq α] in
/-- Pieces that have no element in common with a pattern. -/
theorem Apart.of_disjoint {pat m : List α} (hpat : pat ≠ []) (hm : m ≠ [])
    (h : ∀ c ∈ m, c ∉ pat) : Apart pat m where
  ends := by
    intro k _ hsuf
    cases m with
    | nil => exact hm rfl
    | cons c m =>
        refine h c List.mem_cons_self (hsuf.subset ?_)
        rw [List.take_succ_cons]
        exact List.mem_cons_self
  within := fun hin => by
    obtain ⟨c, hc⟩ := List.exists_mem_of_ne_nil m hm
    exact h c hc (hin.subset hc)
  around := fun hin => by
    obtain ⟨c, hc⟩ := List.exists_mem_of_ne_nil pat hpat
    exact h c (hin.subset hc) hc

omit [DecidableEq α] in
theorem Alike.of_disjoint {pat : List α} (hpat : pat ≠ []) (hold : old ≠ []) (hnew : new ≠ [])
    (holdpat : ∀ c ∈ old, c ∉ pat) (hnewpat : ∀ c ∈ new, c ∉ pat) : Alike pat old new where
  oldApart := .of_disjoint hpat hold holdpat
  newApart := .of_disjoint hpat hnew hnewpat
  ends := by
    intro k _
    cases k with
    | zero => simp
    | succ k =>
        cases pat with
        | nil => exact absurd rfl hpat
        | cons c pat =>
            rw [List.take_succ_cons]
            have hc : ∀ m : List α, (∀ d ∈ m, d ∉ c :: pat) → ¬ c :: pat.take k <:+ m :=
              fun m hm hsuf => hm c (hsuf.subset List.mem_cons_self) List.mem_cons_self
            exact iff_of_false (hc old holdpat) (hc new hnewpat)

theorem infix_all_iff (hold : old ≠ []) {pat : List α} (h : Alike pat old new) (s : List α) :
    pat <:+: all old new s ↔ pat <:+: s := by
  -- The pattern may begin in what was replaced before.
  have hfront : ∀ a, pat <:+: a ++ all old new s ↔ pat <:+: a ++ s := by
    induction s using occurrence_induction hold with
    | nil => simp
    | skip c s hpre ih =>
        intro a
        rw [all_cons hold hpre]
        simpa using ih (a ++ [c])
    | hit t ih =>
        intro a
        rw [all_append hold, ← List.append_assoc, ih, List.append_assoc, infix_between h.oldApart,
          infix_between h.newApart]
        refine or_congr Iff.rfl (or_congr Iff.rfl ?_)
        refine exists_congr fun k => and_congr_left fun _ => ?_
        rcases Nat.le_total k pat.length with hk | hk
        · exact (h.ends k hk).symm
        · have hall := h.ends pat.length (Nat.le_refl _)
          rw [List.take_length] at hall
          rw [List.take_of_length_le hk]
          exact hall.symm
  exact hfront []

/-! ## Several replacements -/

/-- One rule after the other, each for all occurrences. -/
def seq (rules : List (List α × List α)) (s : List α) : List α :=
  rules.foldl (fun s rule => all rule.1 rule.2 s) s

theorem seq_append (rules rules' : List (List α × List α)) (s : List α) :
    seq (rules ++ rules') s = seq rules' (seq rules s) := List.foldl_append

theorem seq_cons (rule : List α × List α) (rules : List (List α × List α)) (s : List α) :
    seq (rule :: rules) s = seq rules (all rule.1 rule.2 s) := rfl

theorem seq_of_absent {rules : List (List α × List α)} {s : List α}
    (h : ∀ rule ∈ rules, ¬ rule.1 <:+: s) : seq rules s = s := by
  induction rules with
  | nil => rfl
  | cons rule rules ih =>
      rw [seq_cons, all_of_absent (h rule List.mem_cons_self),
        ih fun r hr => h r (List.mem_cons_of_mem _ hr)]

theorem seq_cut {rules : List (List α × List α)} {sep : α}
    (h : ∀ rule ∈ rules, rule.1 ≠ [] ∧ sep ∉ rule.1) (s t : List α) :
    seq rules (s ++ sep :: t) = seq rules s ++ sep :: seq rules t := by
  induction rules generalizing s t with
  | nil => rfl
  | cons rule rules ih =>
      obtain ⟨hold, hsep⟩ := h rule List.mem_cons_self
      rw [seq_cons, all_cut hold hsep, ih fun r hr => h r (List.mem_cons_of_mem _ hr), seq_cons,
        seq_cons]

theorem infix_seq_iff {rules : List (List α × List α)} {pat : List α}
    (h : ∀ rule ∈ rules, rule.1 ≠ [] ∧ Alike pat rule.1 rule.2) (s : List α) :
    pat <:+: seq rules s ↔ pat <:+: s := by
  induction rules generalizing s with
  | nil => rfl
  | cons rule rules ih =>
      obtain ⟨hold, halike⟩ := h rule List.mem_cons_self
      rw [seq_cons, ih fun r hr => h r (List.mem_cons_of_mem _ hr), infix_all_iff hold halike]

/-- No rule takes this element away. -/
theorem count_le_seq {rules : List (List α × List α)} {c : α}
    (h : ∀ rule ∈ rules, rule.1 ≠ [] ∧ rule.1.count c ≤ rule.2.count c) (s : List α) :
    s.count c ≤ (seq rules s).count c := by
  induction rules generalizing s with
  | nil => exact Nat.le_refl _
  | cons rule rules ih =>
      obtain ⟨hold, hle⟩ := h rule List.mem_cons_self
      have hrest := ih (fun r hr => h r (List.mem_cons_of_mem _ hr)) (all rule.1 rule.2 s)
      exact Nat.le_trans (count_le_all hold hle s) hrest

/-- No rule adds this element or takes it away. -/
theorem count_seq {rules : List (List α × List α)} {c : α}
    (h : ∀ rule ∈ rules, rule.1 ≠ [] ∧ rule.1.count c = rule.2.count c) (s : List α) :
    (seq rules s).count c = s.count c := by
  induction rules generalizing s with
  | nil => rfl
  | cons rule rules ih =>
      obtain ⟨hold, heq⟩ := h rule List.mem_cons_self
      rw [seq_cons, ih fun r hr => h r (List.mem_cons_of_mem _ hr), count_all hold heq]

/-- Each rule adds an element that no later one takes away. -/
def Irreversible : List (List α × List α) → Prop
  | [] => True
  | rule :: rules =>
      (rule.1 ≠ [] ∧ ∃ c, rule.1.count c < rule.2.count c ∧
        ∀ later ∈ rules, later.1.count c ≤ later.2.count c) ∧ Irreversible rules

theorem Irreversible.ne_nil {rules : List (List α × List α)} (h : Irreversible rules) :
    ∀ rule ∈ rules, rule.1 ≠ [] := by
  induction rules with
  | nil => exact fun rule hmem => by cases hmem
  | cons rule rules ih => exact List.forall_mem_cons.mpr ⟨h.1.1, ih h.2⟩

theorem Irreversible.sublist {rules rules' : List (List α × List α)} (h : Irreversible rules)
    (hsub : rules'.Sublist rules) : Irreversible rules' := by
  induction hsub with
  | slnil => trivial
  | cons rule _ ih => exact ih h.2
  | cons_cons rule hsub ih =>
      obtain ⟨⟨hold, c, hlt, hlater⟩, hrest⟩ := h
      exact ⟨⟨hold, c, hlt, fun later hmem => hlater later (hsub.subset hmem)⟩, ih hrest⟩

theorem seq_eq_self_iff {rules : List (List α × List α)} (h : Irreversible rules) (s : List α) :
    seq rules s = s ↔ ∀ rule ∈ rules, ¬ rule.1 <:+: s := by
  refine ⟨fun heq => ?_, seq_of_absent⟩
  induction rules with
  | nil => exact fun rule hmem => by cases hmem
  | cons rule rules ih =>
      obtain ⟨⟨hold, c, hlt, hlater⟩, hrest⟩ := h
      have habsent : ¬ rule.1 <:+: s := by
        intro hin
        have hmore := count_lt_all hold hlt hin
        have hkept := count_le_seq
          (fun r hr => ⟨hrest.ne_nil r hr, hlater r hr⟩) (all rule.1 rule.2 s)
        rw [← seq_cons, heq] at hkept
        omega
      rw [seq_cons, all_of_absent habsent] at heq
      exact List.forall_mem_cons.mpr ⟨habsent, ih hrest heq⟩

end Replace
