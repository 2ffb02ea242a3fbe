import Mathlib.Algebra.Ring.Nat
import AsioServer.Proofs.Strings
import AsioServer.Ref.Time

/-!
# What `strtotime` makes of a text

`PickNumber` takes the digits of the whole text, and only then they are counted. So a
text is refused, or its digits are the fields of a time, as long as they fit in the
array of 21 bytes. All lengths are taken as an `int`, and of a text that is longer than
one has room for only a part is reached.
-/

namespace AsioServer

/-! ## Digits -/

theorem filter_of_all {p : UInt8 → Bool} {chr : UInt8} (h : p chr = false) {s : Bytes}
    (hs : ∀ c ∈ s, c = chr) : s.filter p = [] :=
  List.filter_eq_nil_iff.mpr fun c hc => by
    rw [hs c hc, h]
    exact Bool.false_ne_true

theorem filter_dropWhile {p : UInt8 → Bool} {chr : UInt8} (h : p chr = false) (s : Bytes) :
    (s.dropWhile (· == chr)).filter p = s.filter p := by
  have hnone : (s.takeWhile (· == chr)).filter p = [] :=
    filter_of_all h fun c hc => by
      have heq := List.mem_takeWhile_imp hc
      exact beq_iff_eq.mp heq
  calc (s.dropWhile (· == chr)).filter p
      = (s.takeWhile (· == chr) ++ s.dropWhile (· == chr)).filter p := by
        rw [List.filter_append, hnone, List.nil_append]
    _ = s.filter p := by rw [List.takeWhile_append_dropWhile]

/-- Digits stand for less than one more digit could. -/
theorem digitsValue_lt {ds : Bytes} (hds : ∀ c ∈ ds, isDigit c = true) :
    digitsValue ds < 10 ^ ds.length := by
  induction ds using List.reverseRecOn with
  | nil => exact Nat.one_pos
  | append_singleton ds c ih =>
      have hc := (isDigit_iff.mp (hds c (List.mem_append_right ds (List.mem_singleton.mpr rfl)))).2
      have hlt := ih fun c hc => hds c (List.mem_append_left _ hc)
      have hvalue : digitsValue (ds ++ [c]) = 10 * digitsValue ds + (c.toNat - 48) := by
        rw [digitsValue, List.foldl_append]
        rfl
      rw [hvalue, List.length_append, List.length_singleton, Nat.pow_succ]
      omega

namespace Public

/-! ## `PickNumber` -/

/-- More characters than an `int` counts are not skipped. -/
theorem skipLoop_fault {chr : UInt8} (s : Bytes) {i : Nat} (hi : i < 2147483648)
    (h : 2147483648 ≤ i + (s.takeWhile (· == chr)).length) :
    skipLoop chr (s ++ [0]) i = .error .outOfBounds := by
  induction s generalizing i with
  | nil =>
      rw [List.takeWhile_nil, List.length_nil] at h
      omega
  | cons c s ih =>
      rw [List.cons_append, skipLoop, if_neg (by omega)]
      by_cases hc : c = chr
      · have htake : (c :: s).takeWhile (· == chr) = c :: s.takeWhile (· == chr) :=
          List.takeWhile_cons_of_pos (beq_iff_eq.mpr hc)
        rw [htake, List.length_cons] at h
        rw [if_pos hc]
        by_cases hlast : i + 1 = 2147483648
        · have hneg : int ((i : Int) + 1) < 0 := by
            rw [show (i : Int) + 1 = 2147483648 by omega]
            decide
          cases s with
          | nil => rw [List.nil_append, skipLoop, if_pos hneg]
          | cons d s => rw [List.cons_append, skipLoop, if_pos hneg]
        · have hnext : int ((i : Int) + 1) = ((i + 1 : Nat) : Int) := int_eq (by omega) (by omega)
          rw [hnext, ih (by omega) (by omega)]
      · have htake : (c :: s).takeWhile (· == chr) = [] :=
          List.takeWhile_cons_of_neg fun h => hc (beq_iff_eq.mp h)
        rw [htake, List.length_nil] at h
        omega

/-- `DeleteRChar` leaves the string, or cuts characters off the part it looks at. -/
theorem cutLoop_cases (chr : UInt8) (n : Nat) (s : Bytes) :
    cutLoop chr n s = s ∨ ∃ k, s.take n = cutLoop chr n s ++ List.replicate k chr := by
  induction n generalizing s with
  | zero => exact .inl rfl
  | succ n ih =>
      rw [cutLoop]
      by_cases hc : s[n]? = some chr
      · have hsplit : s.take (n + 1) = s.take n ++ [chr] := by
          rw [List.take_add_one, hc]
          rfl
        rw [if_neg (not_not.mpr hc), hsplit]
        rcases ih (s.take n) with hsame | ⟨k, hcut⟩
        · exact .inr ⟨1, by rw [hsame, List.replicate_one]⟩
        · rw [List.take_take, Nat.min_self] at hcut
          refine .inr ⟨k + 1, ?_⟩
          rw [List.replicate_succ', ← List.append_assoc, ← hcut]
      · rw [if_pos hc]
        exact .inl rfl

/-- The part of a string that an `int` counts. -/
def counted (s : Bytes) : Bytes := s.take (int s.length).toNat

theorem counted_of_lt {s : Bytes} (h : s.length < 2147483648) : counted s = s := by
  rw [counted, int_eq (by omega) (by omega), Int.toNat_natCast, List.take_length]

theorem counted_begins (s : Bytes) : counted s <+: s := List.take_prefix _ _

/-- What `DeleteRChar` cuts off is not missed where it is not looked for. -/
theorem filter_deleteRChar {p : UInt8 → Bool} {chr : UInt8} (h : p chr = false) (s : Bytes) :
    (counted (deleteRChar s chr)).filter p = (counted s).filter p := by
  rcases cutLoop_cases chr (int s.length).toNat s with hsame | ⟨k, hcut⟩
  · rw [deleteRChar, hsame]
  · have hint := int_natCast_le s.length
    have hlen := congrArg List.length hcut
    rw [List.length_take, List.length_append] at hlen
    have hshort : (deleteRChar s chr).length < 2147483648 := by
      rw [deleteRChar]
      omega
    rw [counted_of_lt hshort, counted, hcut, List.filter_append,
      filter_of_all h fun c => List.eq_of_mem_replicate, List.append_nil, deleteRChar]

theorem isDigit_space : isDigit 32 = false := rfl

/-- The digits `PickNumber` comes upon when it has skipped the leading spaces. -/
def reached (s : Bytes) : Bytes := (counted (s.dropWhile (· == 32))).filter isDigit

theorem reached_digits (s : Bytes) : ∀ c ∈ reached s, isDigit c = true :=
  fun _ hc => (List.mem_filter.mp hc).2

/-- They are the first digits of the text. -/
theorem reached_begins (s : Bytes) : reached s <+: s.filter isDigit := by
  rw [← filter_dropWhile isDigit_space s]
  exact (counted_begins (s.dropWhile (· == 32))).filter isDigit

theorem reached_of_lt {s : Bytes} (h : s.length < 2147483648) : reached s = s.filter isDigit := by
  have hle := (List.dropWhile_suffix (· == 32) (l := s)).length_le
  rw [reached, counted_of_lt (Nat.lt_of_le_of_lt hle h), filter_dropWhile isDigit_space]

variable {src dest : Bytes}

theorem pickNumber_reached (hlead : ((cStr src).takeWhile (· == 32)).length < 2147483648) :
    pickNumber src dest false false = copyInto dest 0 (reached (cStr src) ++ [0]) := by
  have hpicks : picks false false = isDigit := by
    funext c
    rfl
  have hleft := deleteLChar_eq (show (32 : UInt8) ≠ 0 by decide) (nul_notMem_cStr src) hlead
  have hright := filter_deleteRChar isDigit_space
    ((cStr src).dropWhile (· == 32))
  have htrim : deleteLRChar (cStr src) 32 =
      .ok (deleteRChar ((cStr src).dropWhile (· == 32)) 32) := ok_bind hleft _
  rw [pickNumber, ok_bind htrim]
  dsimp only
  rw [hpicks]
  exact congrArg (fun ds => copyInto dest 0 (ds ++ [0])) hright

theorem pickNumber_fault (hlead : 2147483648 ≤ ((cStr src).takeWhile (· == 32)).length)
    (bsigned bdot : Bool) : pickNumber src dest bsigned bdot = .error .outOfBounds := by
  have hne : cStr src ≠ [] := by
    intro hnil
    rw [hnil, List.takeWhile_nil, List.length_nil] at hlead
    omega
  have hskip : skipLoop 32 (cStr src ++ [0]) 0 = .error .outOfBounds :=
    skipLoop_fault (cStr src) (Nat.zero_lt_succ _) (by rwa [Nat.zero_add])
  have htrim : deleteLRChar (cStr src) 32 = .error .outOfBounds := by
    rw [deleteLRChar, deleteLChar, if_neg hne, hskip]
    rfl
  rw [pickNumber, htrim]
  rfl

/-! ## The six slices -/

/-- A number in the middle of the digits. -/
theorem timeField_slice {strtime ds : Bytes} (h : Holds strtime ds)
    (hds : ∀ c ∈ ds, isDigit c = true) {off w : Nat} (hoff : off ≤ ds.length) (hw : w ≤ 9) :
    timeField strtime off w = .ok (digitsValue ((ds.drop off).take w) : Int) := by
  have hdrop : Holds (strtime.drop off) (ds.drop off) := by
    have hlen : (ds.take off).length = off := by
      rw [List.length_take]
      omega
    rw [← List.take_append_drop off ds] at h
    have hrest := h.drop
    rwa [hlen] at hrest
  have hzeros := @Libc.strncpy_zeros [] (strtime.drop off) (w + 1) w (Nat.lt_succ_self w)
  rw [List.append_nil, hdrop.cStr] at hzeros
  obtain ⟨array, hcopy, -, hholds⟩ := hzeros
  have hslice : ∀ c ∈ (ds.drop off).take w, isDigit c = true := fun c hc =>
    hds c (List.mem_of_mem_drop (List.mem_of_mem_take hc))
  have hlt : digitsValue ((ds.drop off).take w) < 2147483648 := by
    calc digitsValue ((ds.drop off).take w)
        < 10 ^ ((ds.drop off).take w).length := digitsValue_lt hslice
      _ ≤ 10 ^ 9 := Nat.pow_le_pow_right (by decide) (Nat.le_trans (List.length_take_le _ _) hw)
      _ < 2147483648 := by decide
  rw [timeField, ok_bind hcopy, Libc.atoi_digits hholds.cStr hslice hlt]
  rfl

/-- What fourteen digits say, in their order. -/
def stampOf (ds : Bytes) : Tm where
  tmYear := digitsValue (ds.take 4) - 1900
  tmMon := digitsValue ((ds.drop 4).take 2) - 1
  tmMday := digitsValue ((ds.drop 6).take 2)
  tmHour := digitsValue ((ds.drop 8).take 2)
  tmMin := digitsValue ((ds.drop 10).take 2)
  tmSec := digitsValue ((ds.drop 12).take 2)

section

variable {stime s : Bytes} (mktime : Tm → Int)

/-- The digits reached are those of a time, or not. -/
theorem strtotimeWith_reached (h : Holds stime s)
    (hlead : (s.takeWhile (· == 32)).length < 2147483648) (hfit : (reached s).length ≤ 20) :
    strtotimeWith mktime stime =
      .ok (if (reached s).length = 14 then mktime (stampOf (reached s)) else -1) := by
  have hnul : 0 ∉ reached s := fun h0 => absurd (reached_digits s 0 h0) (by decide)
  have hroom : (reached s).length < (List.replicate 21 (0 : UInt8)).length := by
    rw [List.length_replicate]
    omega
  obtain ⟨strtime, hcopy, -, hholds⟩ := copyInto_front hnul hroom
  have hpick : pickNumber stime (List.replicate 21 0) false false = .ok strtime := by
    rw [pickNumber_reached (h.cStr.symm ▸ hlead), h.cStr, hcopy]
  rw [strtotimeWith, ok_bind hpick, ok_bind hholds.strlen]
  by_cases hlen : (reached s).length = 14
  · have hslice : ∀ {off w : Nat}, off ≤ 14 → w ≤ 9 → timeField strtime off w =
        .ok (digitsValue (((reached s).drop off).take w) : Int) := fun hoff hw =>
      timeField_slice hholds (reached_digits s) (by omega) hw
    rw [if_neg (not_not.mpr hlen), if_pos hlen]
    rw [ok_bind (hslice (by decide) (by decide)), ok_bind (hslice (by decide) (by decide)),
      ok_bind (hslice (by decide) (by decide)), ok_bind (hslice (by decide) (by decide)),
      ok_bind (hslice (by decide) (by decide)), ok_bind (hslice (by decide) (by decide))]
    rfl
  · rw [if_pos hlen, if_neg hlen]
    rfl

/-- More leading spaces than an `int` counts, or more digits than `strtime` has room for. -/
theorem strtotimeWith_fault (h : Holds stime s)
    (hbad : 2147483648 ≤ (s.takeWhile (· == 32)).length ∨ 20 < (reached s).length) :
    strtotimeWith mktime stime = .error .outOfBounds := by
  have hpick : pickNumber stime (List.replicate 21 0) false false = .error .outOfBounds := by
    rcases Nat.lt_or_ge (s.takeWhile (· == 32)).length 2147483648 with hlead | hlead
    · rw [pickNumber_reached (h.cStr.symm ▸ hlead), h.cStr]
      refine if_neg ?_
      rw [List.length_append, List.length_singleton, List.length_replicate]
      omega
    · exact pickNumber_fault (h.cStr.symm ▸ hlead) false false
  rw [strtotimeWith, hpick]
  rfl

end

/-- The call returns, having written nothing outside its arrays: -1 unless the text has fourteen
digits, and else what `mktime` makes of the fields these give. -/
def RejectsSafely (stime : Bytes) : Prop :=
  ∀ mktime : Tm → Int, strtotimeWith mktime stime =
    .ok (if ((cStr stime).filter isDigit).length = 14 then
      mktime (stampOf ((cStr stime).filter isDigit)) else -1)

/-- An `int` counts the leading spaces, `strtime` has room for the digits reached, and these are
fourteen exactly if those of the whole text are. -/
def FitsStrtime (s : Bytes) : Prop :=
  (s.takeWhile (· == 32)).length < 2147483648 ∧ (reached s).length ≤ 20 ∧
    ((reached s).length = 14 ↔ (s.filter isDigit).length = 14)

theorem strtotime_rejects_iff {stime s : Bytes} (h : Holds stime s) :
    (RejectsSafely stime ↔ FitsStrtime s) ∧
      (s.length < 2147483648 → (RejectsSafely stime ↔ (s.filter isDigit).length ≤ 20)) := by
  have hiff : RejectsSafely stime ↔ FitsStrtime s := by
    unfold RejectsSafely
    rw [h.cStr]
    constructor
    · intro hsafe
      by_cases hbad : 2147483648 ≤ (s.takeWhile (· == 32)).length ∨ 20 < (reached s).length
      · have hzero := hsafe fun _ => 0
        rw [strtotimeWith_fault _ h hbad] at hzero
        cases hzero
      · obtain ⟨hlead, hfit⟩ := not_or.mp hbad
        have hzero := hsafe fun _ => 0
        rw [strtotimeWith_reached _ h (by omega) (by omega)] at hzero
        have hvalue := Except.ok.inj hzero
        refine ⟨by omega, by omega, ?_⟩
        -- of 0 and -1 the same one is returned
        split at hvalue <;> split at hvalue <;> simp_all
    · rintro ⟨hlead, hfit, hsame⟩ mktime
      rw [strtotimeWith_reached mktime h hlead hfit]
      by_cases hlen : (reached s).length = 14
      · have heq : reached s = s.filter isDigit :=
          (reached_begins s).eq_of_length (hlen.trans (hsame.mp hlen).symm)
        rw [heq]
      · rw [if_neg hlen, if_neg fun h14 => hlen (hsame.mpr h14)]
  refine ⟨hiff, fun hlt => hiff.trans ?_⟩
  have hlead := (List.takeWhile_prefix (· == 32) (l := s)).length_le
  unfold FitsStrtime
  rw [reached_of_lt hlt]
  exact ⟨fun h => h.2.1, fun hfit => ⟨by omega, hfit, Iff.rfl⟩⟩

theorem strtotime_rejects_iff_slashes :
    Holds (ascii "2024/02/29T23.59.05" ++ [0]) (ascii "2024/02/29T23.59.05") ∧
      RejectsSafely (ascii "2024/02/29T23.59.05" ++ [0]) := by
  have h : Holds (ascii "2024/02/29T23.59.05" ++ [0]) (ascii "2024/02/29T23.59.05") :=
    ⟨by decide, _, rfl⟩
  exact ⟨h, ((strtotime_rejects_iff h).2 (by decide)).mpr (by decide)⟩

/-- A digit too many to be followed by a NUL. -/
theorem digits_overflow_strtime :
    Holds (ascii "123456789012345678901" ++ [0]) (ascii "123456789012345678901") ∧
      strtotime (ascii "123456789012345678901" ++ [0]) = .error .outOfBounds ∧
      ¬ RejectsSafely (ascii "123456789012345678901" ++ [0]) := by
  have h : Holds (ascii "123456789012345678901" ++ [0]) (ascii "123456789012345678901") :=
    ⟨by decide, _, rfl⟩
  have hfault : strtotime (ascii "123456789012345678901" ++ [0]) = .error .outOfBounds := by
    decide
  refine ⟨h, hfault, fun hsafe => ?_⟩
  have hreturns := hsafe Libc.mktime
  rw [← strtotime, hfault] at hreturns
  cases hreturns

end Public

end AsioServer
