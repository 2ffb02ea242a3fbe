import Mathlib.Data.List.Basic
import Mathlib.Tactic.Common

/-!
# Lines and records

A line goes up to its end, which belongs to it, or to that of the text. It is
read at once (`piece`) or, if it is too long, in parts: reading one takes the
part off the first line of the text (`lines_piece`), and `chunks` are all of
them. A record goes up to the first line at which one ends, and lines behind the
last of those belong to none.
-/

namespace Lines

variable {α : Type*}

/-! ## Lines -/

section

variable [DecidableEq α]

def lines (nl : α) : List α → List (List α)
  | [] => []
  | c :: s =>
      if c = nl then [c] :: lines nl s
      else
        match lines nl s with
        | [] => [[c]]
        | l :: ls => (c :: l) :: ls

/-- The first line, but no more than so many characters of it. -/
def piece (nl : α) : Nat → List α → List α
  | 0, _ => []
  | _ + 1, [] => []
  | n + 1, c :: s => if c = nl then [c] else c :: piece nl n s

variable {nl : α} {s l : List α} {ls : List (List α)} {n : Nat}

theorem lines_ne_nil (h : l ∈ lines nl s) : l ≠ [] := by
  induction s generalizing l with
  | nil => exact absurd h List.not_mem_nil
  | cons c s ih =>
      rw [lines] at h
      split at h
      · rcases List.mem_cons.mp h with rfl | hmem
        · exact List.cons_ne_nil _ _
        · exact ih hmem
      · split at h
        · rw [List.mem_singleton.mp h]
          exact List.cons_ne_nil _ _
        · next hs =>
            rcases List.mem_cons.mp h with rfl | hmem
            · exact List.cons_ne_nil _ _
            · exact ih (hs ▸ List.mem_cons_of_mem _ hmem)

theorem lines_flatten (nl : α) (s : List α) : (lines nl s).flatten = s := by
  induction s with
  | nil => rfl
  | cons c s ih =>
      rw [lines]
      split
      · rw [List.flatten_cons, ih, List.singleton_append]
      · split
        · next hs =>
            rw [hs] at ih
            rw [← ih]
            rfl
        · next hs =>
            rw [hs] at ih
            rw [← ih]
            rfl

/-- What is left when a part of the first line has been read. -/
theorem lines_piece (h : lines nl s = l :: ls) (hn : 0 < n) :
    piece nl n s = l.take n ∧
      lines nl (s.drop (l.take n).length) = if l.length ≤ n then ls else l.drop n :: ls := by
  induction s generalizing l ls n with
  | nil => cases h
  | cons c s ih =>
      obtain ⟨m, rfl⟩ : ∃ m, n = m + 1 := ⟨n - 1, by omega⟩
      rw [lines] at h
      rw [piece]
      split at h
      · next hc =>
          cases h
          rw [if_pos hc]
          exact ⟨by rw [List.take_succ_cons, List.take_nil], by simp⟩
      · next hc =>
          rw [if_neg hc]
          split at h
          · next hs =>
              have hnil : s = [] := by
                rw [← lines_flatten nl s, hs]
                rfl
              cases h
              cases m <;> exact ⟨by rw [hnil]; rfl, by rw [hnil]; rfl⟩
          · next l' ls' hs =>
              cases h
              have hpos : 0 < l'.length :=
                List.length_pos_iff.mpr (lines_ne_nil (hs ▸ List.mem_cons_self))
              rw [List.take_succ_cons, List.length_cons, List.drop_succ_cons, List.length_cons,
                List.drop_succ_cons]
              cases m with
              | zero =>
                  rw [if_neg (by omega)]
                  exact ⟨by rw [piece, List.take_zero], hs⟩
              | succ m =>
                  obtain ⟨hpiece, hrest⟩ := ih hs (Nat.succ_pos m)
                  rw [hpiece, hrest]
                  refine ⟨rfl, ?_⟩
                  simp only [Nat.add_le_add_iff_right]

theorem eq_nil_of_lines (h : lines nl s = []) : s = [] := by
  rw [← lines_flatten nl s, h]
  rfl

/-- A text is its first line and the text of the others. -/
theorem lines_cons (h : lines nl s = l :: ls) : s = l ++ ls.flatten ∧ lines nl ls.flatten = ls := by
  have hs : s = l ++ ls.flatten := by
    rw [← lines_flatten nl s, h, List.flatten_cons]
  have hpos : 0 < l.length := List.length_pos_iff.mpr (lines_ne_nil (h ▸ List.mem_cons_self))
  have hrest := (lines_piece h hpos).2
  rw [List.take_length, if_pos (Nat.le_refl _)] at hrest
  refine ⟨hs, ?_⟩
  conv_rhs => rw [← hrest, hs, List.drop_left]

theorem lines_flatten_suffix {front behind : List (List α)} (h : lines nl s = front ++ behind) :
    lines nl behind.flatten = behind := by
  induction front generalizing s with
  | nil =>
      rw [List.nil_append] at h
      rw [← h, lines_flatten]
  | cons l front ih => exact ih (lines_cons h).2

end

/-! ## Long lines -/

/-- A list in parts of so many elements. The last part may have fewer. -/
def chunks (n : Nat) (l : List α) : List (List α) :=
  if l = [] ∨ n = 0 then [] else l.take n :: chunks n (l.drop n)
termination_by l.length
decreasing_by
  have := List.length_pos_iff.mpr (fun h => ‹¬ (l = [] ∨ n = 0)› (.inl h))
  rw [List.length_drop]
  omega

theorem chunks_nil (n : Nat) : chunks n ([] : List α) = [] := by
  rw [chunks, if_pos (.inl rfl)]

theorem chunks_cons {n : Nat} {l : List α} (hl : l ≠ []) (hn : 0 < n) :
    chunks n l = l.take n :: chunks n (l.drop n) := by
  rw [chunks, if_neg (by simp only [hl, false_or]; omega)]

theorem chunks_flatten {n : Nat} (hn : 0 < n) (l : List α) : (chunks n l).flatten = l := by
  induction hlen : l.length using Nat.strongRecOn generalizing l with
  | _ k ih =>
      by_cases hl : l = []
      · rw [hl, chunks_nil, List.flatten_nil]
      · have hpos := List.length_pos_iff.mpr hl
        have hrest := ih (l.drop n).length (by rw [List.length_drop]; omega) (l.drop n) rfl
        rw [chunks_cons hl hn, List.flatten_cons, hrest, List.take_append_drop]

theorem length_le_of_mem_chunks {n : Nat} {l p : List α} (h : p ∈ chunks n l) : p.length ≤ n := by
  induction hlen : l.length using Nat.strongRecOn generalizing l with
  | _ k ih =>
      by_cases hstop : l = [] ∨ n = 0
      · rw [chunks, if_pos hstop] at h
        exact absurd h List.not_mem_nil
      · obtain ⟨hl, hn⟩ := not_or.mp hstop
        have hpos := List.length_pos_iff.mpr hl
        rw [chunks_cons hl (by omega)] at h
        rcases List.mem_cons.mp h with rfl | hmem
        · exact List.length_take_le _ _
        · exact ih (l.drop n).length (by rw [List.length_drop]; omega) hmem rfl

/-! ## Records -/

/-- The records in some lines, the first of which continue one that has begun. -/
def records (ends : List α → Bool) : List α → List (List α) → List (List α)
  | _, [] => []
  | acc, l :: ls =>
      if ends l then (acc ++ l) :: records ends [] ls else records ends (acc ++ l) ls

section

variable {ends : List α → Bool} {acc r : List α} {ls rs : List (List α)}

theorem records_eq_nil : records ends acc ls = [] ↔ ∀ l ∈ ls, ends l = false := by
  induction ls generalizing acc with
  | nil => exact iff_of_true rfl (List.forall_mem_nil _)
  | cons l ls ih =>
      rw [records, List.forall_mem_cons]
      cases ends l with
      | true => simp
      | false => simp [ih]

/-- A record that was begun is part of the first one. -/
theorem le_of_records (h : records ends acc ls = r :: rs) : acc.length ≤ r.length := by
  induction ls generalizing acc with
  | nil => cases h
  | cons l ls ih =>
      rw [records] at h
      split at h
      · cases h
        rw [List.length_append]
        exact Nat.le_add_right _ _
      · have hle := ih h
        rw [List.length_append] at hle
        omega

/-- The records are all there is up to the end of the last one. -/
theorem records_flatten (ends : List α → Bool) (ls : List (List α)) :
    ∃ front behind, ls = front ++ behind ∧ (records ends [] ls).flatten = front.flatten ∧
      records ends [] behind = [] := by
  have hacc : ∀ (ls : List (List α)) (acc : List α), (records ends acc ls = [] ∨
      ∃ front behind, ls = front ++ behind ∧
        (records ends acc ls).flatten = acc ++ front.flatten ∧ records ends [] behind = []) := by
    intro ls
    induction ls with
    | nil => exact fun _ => .inl rfl
    | cons l ls ih =>
        intro acc
        rw [records]
        split
        · right
          rcases ih [] with hnone | ⟨front, behind, rfl, hflat, hnone⟩
          · refine ⟨[l], ls, rfl, ?_, hnone⟩
            rw [hnone, List.flatten_singleton, List.flatten_singleton]
          · refine ⟨l :: front, behind, rfl, ?_, hnone⟩
            rw [List.flatten_cons, hflat, List.nil_append, List.flatten_cons, List.append_assoc]
        · rcases ih (acc ++ l) with hnone | ⟨front, behind, rfl, hflat, hnone⟩
          · exact .inl hnone
          · refine .inr ⟨l :: front, behind, rfl, ?_, hnone⟩
            rw [hflat, List.flatten_cons, List.append_assoc]
  rcases hacc ls [] with hnone | ⟨front, behind, hls, hflat, hnone⟩
  · exact ⟨[], ls, rfl, by rw [hnone, List.flatten_nil], hnone⟩
  · exact ⟨front, behind, hls, hflat, hnone⟩

end

end Lines
