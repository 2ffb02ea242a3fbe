import AsioServer.Proofs.Strings
import AsioServer.Ref.File

/-!
# When the loop of `COPY` ends

Whatever `read` answers is added to the count, and the loop ends when the count is
the size. If from some point on `read` answers the same, which is 0 at the end of
the file and -1 after an error, then either the count has met the size by then, or
it stands above the size and every error takes one off.
-/

namespace AsioServer.Public

/-- The count after so many answers. -/
def total (r : Nat → Int) : Nat → Int
  | 0 => 0
  | n + 1 => total r n + r n

/-- In the first rounds no `int` overflows and the buffer has room. -/
def Sound (r : Nat → Int) (size : Int) (n : Nat) : Prop :=
  ∀ m < n, InInt (size - total r m) ∧ r m ≤ 5000 ∧ InInt (total r (m + 1))

/-- The loop ends with these answers, whatever the source holds and `write` answers. -/
def CopyLoopEnds (r : Nat → Int) (size : Int) : Prop :=
  ∀ write source, ∃ copied,
    Loop.Leaves (copyRound (fun round _ _ => r round) write source size) .init (.ok copied)

section

variable {r : Nat → Int} {size : Int} {write : Nat → Nat → Int} {source : Bytes}

theorem copyRound_sound (write : Nat → Nat → Int) (source : Bytes) {s : CopyState}
    (hrest : InInt (size - s.totalBytes))
    (hbuffer : r s.round ≤ 5000) (htotal : InInt (s.totalBytes + r s.round)) :
    ∃ offset copied, copyRound (fun round _ _ => r round) write source size s =
      if s.totalBytes + r s.round = size then .inr (.ok copied)
      else .inl ⟨s.round + 1, s.totalBytes + r s.round, offset, copied⟩ := by
  unfold copyRound
  rw [if_neg (not_not.mpr hrest)]
  dsimp only
  rw [if_neg (Int.not_lt.mpr hbuffer), if_neg (not_not.mpr htotal)]
  exact ⟨_, _, rfl⟩

/-- A round that does not end in a fault is sound. -/
theorem copyRound_inv {s : CopyState} {res : CopyState ⊕ Except Fault Bytes}
    (h : copyRound (fun round _ _ => r round) write source size s = res)
    (hres : ∀ f, res ≠ .inr (.error f)) :
    InInt (size - s.totalBytes) ∧ r s.round ≤ 5000 ∧ InInt (s.totalBytes + r s.round) := by
  unfold copyRound at h
  split at h
  · exact absurd h.symm (hres _)
  · next hrest =>
      dsimp only at h
      split at h
      · exact absurd h.symm (hres _)
      · next hbuffer =>
          split at h
          · exact absurd h.symm (hres _)
          · next htotal => exact ⟨not_not.mp hrest, Int.not_lt.mp hbuffer, not_not.mp htotal⟩

theorem leaves_of_reaches {s : CopyState} (hs : s.totalBytes = total r s.round) {k : Nat}
    (hsound : ∀ m, s.round ≤ m → m ≤ s.round + k →
      InInt (size - total r m) ∧ r m ≤ 5000 ∧ InInt (total r (m + 1)))
    (hend : total r (s.round + k + 1) = size) :
    ∃ copied,
      Loop.Leaves (copyRound (fun round _ _ => r round) write source size) s (.ok copied) := by
  induction k generalizing s with
  | zero =>
      obtain ⟨hrest, hbuffer, htotal⟩ := hsound s.round (Nat.le_refl _) (Nat.le_refl _)
      rw [total, ← hs] at htotal
      rw [← hs] at hrest
      obtain ⟨offset, copied, hround⟩ :=
        copyRound_sound write source hrest hbuffer htotal
      rw [Nat.add_zero, total, ← hs] at hend
      rw [if_pos hend] at hround
      exact ⟨copied, (Loop.leaves_leave hround).mpr rfl⟩
  | succ k ih =>
      obtain ⟨hrest, hbuffer, htotal⟩ := hsound s.round (Nat.le_refl _) (Nat.le_add_right _ _)
      rw [total, ← hs] at htotal
      rw [← hs] at hrest
      obtain ⟨offset, copied, hround⟩ :=
        copyRound_sound write source hrest hbuffer htotal
      split at hround
      · exact ⟨copied, (Loop.leaves_leave hround).mpr rfl⟩
      · have hnext : s.totalBytes + r s.round = total r (s.round + 1) := by rw [total, hs]
        rw [hnext] at hround
        obtain ⟨final, hleaves⟩ := ih (s := ⟨s.round + 1, total r (s.round + 1), offset, copied⟩)
          rfl (fun m hm hm' => hsound m (by dsimp only at hm; omega) (by dsimp only at hm'; omega))
          (by rw [← hend]; exact congrArg (total r) (by dsimp only; omega))
        exact ⟨final, (Loop.leaves_again hround).mpr hleaves⟩

theorem reaches_of_leaves {s : CopyState} (hs : s.totalBytes = total r s.round) {copied : Bytes}
    {n : Nat}
    (h : Loop.run (copyRound (fun round _ _ => r round) write source size) n s =
      some (.ok copied)) :
    ∃ k, total r (s.round + k + 1) = size ∧ ∀ m, s.round ≤ m → m ≤ s.round + k →
      InInt (size - total r m) ∧ r m ≤ 5000 ∧ InInt (total r (m + 1)) := by
  induction n generalizing s with
  | zero => cases h
  | succ n ih =>
      have hround : ∀ res,
          copyRound (fun round _ _ => r round) write source size s = res →
            (∀ f, res ≠ .inr (.error f)) → InInt (size - total r s.round) ∧ r s.round ≤ 5000 ∧
              InInt (total r (s.round + 1)) ∧ ∃ offset copied, res =
                if total r (s.round + 1) = size then .inr (.ok copied)
                else .inl ⟨s.round + 1, total r (s.round + 1), offset, copied⟩ := by
        intro res hres hok
        obtain ⟨hrest, hbuffer, htotal⟩ := copyRound_inv hres hok
        obtain ⟨offset, copied, heq⟩ :=
          copyRound_sound write source hrest hbuffer htotal
        rw [hres, hs] at heq
        rw [hs] at hrest htotal
        exact ⟨hrest, hbuffer, htotal, offset, copied, heq⟩
      cases hbody : copyRound (fun round _ _ => r round) write source size s with
      | inr res =>
          rw [Loop.run_leave hbody, Option.some.injEq] at h
          rw [h] at hbody
          obtain ⟨hrest, hbuffer, htotal, offset, copied', heq⟩ := hround _ hbody nofun
          split at heq
          · next hend =>
              refine ⟨0, hend, fun m hm hm' => ?_⟩
              obtain rfl : m = s.round := by omega
              exact ⟨hrest, hbuffer, htotal⟩
          · cases heq
      | inl s' =>
          rw [Loop.run_again hbody] at h
          obtain ⟨hrest, hbuffer, htotal, offset, copied', heq⟩ := hround _ hbody nofun
          split at heq
          · cases heq
          · cases heq
            obtain ⟨k, hend, hsound⟩ := ih rfl h
            refine ⟨k + 1, ?_, fun m hm hm' => ?_⟩
            · rw [← hend]
              exact congrArg (total r) (by dsimp only; omega)
            · rcases Nat.eq_or_lt_of_le hm with rfl | hlt
              · exact ⟨hrest, hbuffer, htotal⟩
              · exact hsound m hlt (by dsimp only; omega)

/-- The loop ends if the count meets the size before anything overflows. -/
theorem ends_iff_reaches :
    CopyLoopEnds r size ↔ ∃ n, 1 ≤ n ∧ total r n = size ∧ Sound r size n := by
  constructor
  · intro h
    obtain ⟨copied, n, hrun⟩ := h (fun _ _ => 0) []
    obtain ⟨k, hend, hsound⟩ := reaches_of_leaves rfl hrun
    refine ⟨k + 1, Nat.le_add_left 1 k, ?_, fun m hm => hsound m (Nat.zero_le m) ?_⟩
    · rw [← hend]
      exact congrArg (total r) (by show k + 1 = 0 + k + 1; omega)
    · show m ≤ 0 + k
      omega
  · rintro ⟨n, hpos, hend, hsound⟩ write source
    obtain ⟨k, rfl⟩ : ∃ k, n = k + 1 := ⟨n - 1, by omega⟩
    refine leaves_of_reaches (k := k) rfl (fun m _ hm => hsound m ?_) ?_
    · have hle : m ≤ 0 + k := hm
      omega
    · rw [← hend]
      exact congrArg (total r) (by show 0 + k + 1 = k + 1; omega)

/-! ## Answers that stay the same -/

theorem total_tail {N : Nat} {c : Int} (htail : ∀ n, N ≤ n → r n = c) (k : Nat) :
    total r (N + k) = total r N + k * c := by
  induction k with
  | zero => simp
  | succ k ih =>
      rw [← Nat.add_assoc, total, ih, htail (N + k) (Nat.le_add_right N k), Int.natCast_succ,
        Int.add_mul, Int.one_mul, Int.add_assoc]

theorem Sound.mono {n m : Nat} (h : Sound r size n) (hle : m ≤ n) : Sound r size m :=
  fun i hi => h i (Nat.lt_of_lt_of_le hi hle)

theorem Sound.inInt {n : Nat} (h : Sound r size n) : InInt (total r n) := by
  cases n with
  | zero =>
      show InInt 0
      decide
  | succ n => exact (h n (Nat.lt_succ_self n)).2.2

/-- Errors take the count down to the size. -/
theorem Sound.down {N : Nat} (hsize : InInt size) (htail : ∀ n, N ≤ n → r n = -1)
    (h : Sound r size N) (hdiff : InInt (size - total r N)) {k : Nat}
    (hk : (k : Int) ≤ total r N - size) : Sound r size (N + k) := by
  intro m hm
  rcases Nat.lt_or_ge m N with hlt | hge
  · exact h m hlt
  · obtain ⟨i, rfl⟩ := Nat.exists_eq_add_of_le hge
    have hnow := total_tail htail i
    have hnext := total_tail htail (i + 1)
    have hN := h.inInt
    rw [htail (N + i) hge, hnow, Nat.add_assoc, hnext]
    unfold InInt at *
    omega

end

theorem copyLoop_ends_iff {r : Nat → Int} {size : Int} {N : Nat} {c : Int} (hsize : InInt size)
    (hc : c = 0 ∨ c = -1) (htail : ∀ n, N ≤ n → r n = c) :
    CopyLoopEnds r size ↔
      (∃ n, 1 ≤ n ∧ n ≤ N + 1 ∧ total r n = size ∧ Sound r size n) ∨
        (c = -1 ∧ size < total r N ∧ InInt (size - total r N) ∧ Sound r size N) := by
  rw [ends_iff_reaches]
  constructor
  · rintro ⟨n, hpos, hend, hsound⟩
    by_cases hn : n ≤ N + 1
    · exact Or.inl ⟨n, hpos, hn, hend, hsound⟩
    · obtain ⟨k, rfl⟩ := Nat.exists_eq_add_of_le (show N ≤ n by omega)
      have hsum := total_tail htail k
      rw [hend] at hsum
      rcases hc with rfl | rfl
      · have hone := total_tail htail 1
        refine Or.inl ⟨N + 1, by omega, Nat.le_refl _, ?_, hsound.mono (by omega)⟩
        rw [hone]
        omega
      · refine Or.inr ⟨rfl, by omega, (hsound N (by omega)).1, hsound.mono (by omega)⟩
  · rintro (⟨n, hpos, -, hend, hsound⟩ | ⟨rfl, hlt, hdiff, hsound⟩)
    · exact ⟨n, hpos, hend, hsound⟩
    · obtain ⟨k, hk⟩ := Int.eq_ofNat_of_zero_le (show 0 ≤ total r N - size by omega)
      have hsum := total_tail htail k
      refine ⟨N + k, by omega, by omega, hsound.down hsize htail hdiff (by omega)⟩

/-- Two reads that make up the size, and the end of the file. -/
theorem copyLoop_ends_iff_two_reads :
    CopyLoopEnds (fun n => if n = 0 then 3 else if n = 1 then 7 else 0) 10 := by
  refine (copyLoop_ends_iff (N := 2) (by decide) (Or.inl rfl) fun n hn => ?_).mpr
    (Or.inl ⟨2, by decide, by decide, by decide, ?_⟩)
  · rw [if_neg (by omega), if_neg (by omega)]
  · unfold Sound
    decide

/-- A file that has become empty. -/
theorem shrunk_file_no_end : ¬ CopyLoopEnds (fun _ => 0) 10 := by
  intro h
  obtain ⟨n, -, hend, -⟩ := ends_iff_reaches.mp h
  have hzero := total_tail (r := fun _ => 0) (N := 0) (fun _ _ => rfl) n
  rw [Nat.zero_add, hend, Int.mul_zero] at hzero
  cases hzero

end AsioServer.Public
