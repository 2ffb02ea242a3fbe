import Mathlib.Data.List.Basic
import Mathlib.Data.List.Nodup
import Mathlib.Tactic.Common

/-!
# Handles

A library that hands out handles sees a log of what its user does with them:
a handle is opened, passed to a function, closed. Where the user keeps a handle
in a variable that may be empty, the empty handle can be passed too, and only
closing it is harmless.

`Disciplined log live` says that the log is that of a careful user who has the
handles `live` open at its end: a handle is opened once, and used and closed
only while it is open. What that means for the log as a whole is read off it:
no empty handle was used (`no_null`), the open handles are those that were
opened and not closed (`mem_live`), and a handle that is no longer open was
closed exactly once (`closed_once`).
-/

namespace Handles

inductive Use (ι : Type*) where
  | opened (h : ι)
  | used (h : Option ι)
  | closed (h : Option ι)
  deriving DecidableEq

variable {ι : Type*} [DecidableEq ι]

inductive Disciplined : List (Use ι) → List ι → Prop where
  | nil : Disciplined [] []
  | opened {log : List (Use ι)} {live : List ι} {h : ι} (before : Disciplined log live)
      (fresh : Use.opened h ∉ log) : Disciplined (log ++ [.opened h]) (h :: live)
  | used {log : List (Use ι)} {live : List ι} {h : ι} (before : Disciplined log live)
      (isOpen : h ∈ live) : Disciplined (log ++ [.used (some h)]) live
  | closed {log : List (Use ι)} {live : List ι} {h : ι} (before : Disciplined log live)
      (isOpen : h ∈ live) : Disciplined (log ++ [.closed (some h)]) (live.erase h)
  | closedNull {log : List (Use ι)} {live : List ι} (before : Disciplined log live) :
      Disciplined (log ++ [.closed none]) live

variable {log : List (Use ι)} {live : List ι} {h : ι}

theorem no_null (hd : Disciplined log live) : Use.used none ∉ log := by
  induction hd with
  | nil => exact List.not_mem_nil
  | opened before fresh ih | used before isOpen ih | closed before isOpen ih
  | closedNull before ih => simpa using ih

theorem opened_of_live (hd : Disciplined log live) (hlive : h ∈ live) :
    Use.opened h ∈ log := by
  induction hd with
  | nil => exact absurd hlive List.not_mem_nil
  | opened before fresh ih =>
      rcases List.mem_cons.mp hlive with rfl | hlive
      · exact List.mem_append_right _ (List.mem_singleton_self _)
      · exact List.mem_append_left _ (ih hlive)
  | used before isOpen ih | closedNull before ih => exact List.mem_append_left _ (ih hlive)
  | closed before isOpen ih => exact List.mem_append_left _ (ih (List.mem_of_mem_erase hlive))

theorem live_nodup (hd : Disciplined log live) : live.Nodup := by
  induction hd with
  | nil => exact List.nodup_nil
  | opened before fresh ih =>
      exact List.nodup_cons.mpr ⟨fun hlive => fresh (opened_of_live before hlive), ih⟩
  | used before isOpen ih | closedNull before ih => exact ih
  | closed before isOpen ih => exact ih.erase _

/-- How often a handle was closed: once, if it was opened and is not open. -/
theorem count_closed (hd : Disciplined log live) (h : ι) :
    log.count (.closed (some h)) = if Use.opened h ∈ log ∧ h ∉ live then 1 else 0 := by
  induction hd with
  | nil => rfl
  | @opened log live h' before fresh ih =>
      rw [List.count_append, ih]
      by_cases heq : h = h'
      · subst heq
        simp [fresh]
      · simp [heq]
  | used before isOpen ih | closedNull before ih =>
      rw [List.count_append, ih]
      simp
  | @closed log live h' before isOpen ih =>
      have hnodup := live_nodup before
      rw [List.count_append, ih]
      by_cases heq : h = h'
      · subst heq
        simp [isOpen, opened_of_live before isOpen, hnodup.mem_erase_iff]
      · simp [Ne.symm heq, List.mem_erase_of_ne heq]

/-- The open handles are those that were opened and not closed. -/
theorem mem_live (hd : Disciplined log live) :
    h ∈ live ↔ Use.opened h ∈ log ∧ Use.closed (some h) ∉ log := by
  have hcount := count_closed hd h
  rw [← List.count_eq_zero, hcount]
  constructor
  · intro hlive
    exact ⟨opened_of_live hd hlive, if_neg fun hgone => hgone.2 hlive⟩
  · rintro ⟨hopened, hzero⟩
    by_contra hgone
    rw [if_pos ⟨hopened, hgone⟩] at hzero
    cases hzero

/-- A handle that is no longer open was closed once. -/
theorem closed_once (hd : Disciplined log live) (hopened : Use.opened h ∈ log)
    (hgone : h ∉ live) : log.count (.closed (some h)) = 1 := by
  rw [count_closed hd, if_pos ⟨hopened, hgone⟩]

end Handles
