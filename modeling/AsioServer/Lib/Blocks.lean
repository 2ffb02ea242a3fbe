import AsioServer.Lib.Replace

/-!
# Blocks that begin with a mark

A list cut in front of every mark: each block begins with one and holds no other.
A pattern of that shape occurs where a block begins with it and nowhere else, so
its leftmost occurrence is the first such block.
-/

namespace Blocks

open Replace (first first_cons first_skip first_append prefix_of_cut)

variable {α : Type*} {x : α} {p b c : List α} {bs front : List (List α)}

/-- The blocks, each behind its mark. -/
def text (x : α) (bs : List (List α)) : List α := bs.flatMap (x :: ·)

@[simp] theorem text_nil : text x [] = [] := rfl

@[simp] theorem text_cons : text x (b :: bs) = x :: (b ++ text x bs) := rfl

theorem text_append (bs cs : List (List α)) : text x (bs ++ cs) = text x bs ++ text x cs :=
  List.flatMap_append

theorem prefix_append_text (hp : x ∉ p) (h : p <+: b ++ text x bs) : p <+: b := by
  cases bs with
  | nil => rwa [text_nil, List.append_nil] at h
  | cons c bs => exact prefix_of_cut hp h

/-- What stands in front of the first element with a property. -/
theorem exists_leftmost {β : Type*} {bs : List β} {P : β → Prop} (h : ∃ b ∈ bs, P b) :
    ∃ front b behind, bs = front ++ b :: behind ∧ (∀ c ∈ front, ¬ P c) ∧ P b := by
  induction bs with
  | nil =>
      obtain ⟨b, hb, -⟩ := h
      cases hb
  | cons c bs ih =>
      by_cases hc : P c
      · exact ⟨[], c, bs, rfl, List.forall_mem_nil _, hc⟩
      · obtain ⟨b, hb, hP⟩ := h
        have hin : b ∈ bs := (List.mem_cons.mp hb).resolve_left fun heq => hc (heq ▸ hP)
        obtain ⟨front, d, behind, rfl, hfront, hd⟩ := ih ⟨b, hin, hP⟩
        exact ⟨c :: front, d, behind, rfl, List.forall_mem_cons.mpr ⟨hc, hfront⟩, hd⟩

variable [DecidableEq α]

theorem first_pass (hp : x ∉ p) (hb : x ∉ b) (hnot : ¬ p <+: b) (bs : List (List α)) :
    first (x :: p) (text x (b :: bs)) =
      (first (x :: p) (text x bs)).map (Prod.map ((x :: b) ++ ·) id) := by
  have hhere : ¬ x :: p <+: x :: (b ++ text x bs) := fun h =>
    hnot (prefix_append_text hp (List.cons_prefix_cons.mp h).2)
  rw [text_cons, first_cons hhere, first_skip hb, Option.map_map]
  rfl

theorem first_at (front : List (List α)) (hp : x ∉ p)
    (hfront : ∀ b ∈ front, x ∉ b ∧ ¬ p <+: b) (c : List α) (bs : List (List α)) :
    first (x :: p) (text x (front ++ (p ++ c) :: bs)) = some (text x front, c ++ text x bs) := by
  induction front with
  | nil =>
      have hhead := first_append (x :: p) (c ++ text x bs)
      rwa [← List.append_assoc, List.cons_append] at hhead
  | cons b front ih =>
      rw [List.forall_mem_cons] at hfront
      rw [List.cons_append, first_pass hp hfront.1.1 hfront.1.2, ih hfront.2]
      rfl

theorem first_none (hp : x ∉ p) (hbs : ∀ b ∈ bs, x ∉ b ∧ ¬ p <+: b) :
    first (x :: p) (text x bs) = none := by
  induction bs with
  | nil => exact Replace.first_eq_none.mpr fun h => List.cons_ne_nil x p (List.infix_nil.mp h)
  | cons b bs ih =>
      rw [List.forall_mem_cons] at hbs
      rw [first_pass hp hbs.1.1 hbs.1.2, ih hbs.2, Option.map_none]

end Blocks
