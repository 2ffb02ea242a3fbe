import Mathlib.Data.List.DropRight
import AsioServer.Proofs.Codec
import AsioServer.Ref.Strings

/-!
# What the bounded string functions leave

An array holds a string if a NUL stands behind it. Each of the copying functions
leaves an array of the same length that holds what fits of the text it should.
-/

namespace AsioServer

/-- The string in an array. -/
def Holds (array s : Bytes) : Prop := 0 ∉ s ∧ ∃ rest, array = s ++ 0 :: rest

theorem cStr_append {s : Bytes} (h : 0 ∉ s) (rest : Bytes) : cStr (s ++ 0 :: rest) = s := by
  have hne : ∀ c ∈ s, (c != 0) = true := fun c hc => by
    rw [bne_iff_ne]
    exact fun h0 => h (h0 ▸ hc)
  rw [cStr, List.takeWhile_append_of_pos hne, List.takeWhile_cons_of_neg (by simp),
    List.append_nil]

theorem cStr_zeros {s : Bytes} (h : 0 ∉ s) (n : Nat) : cStr (s ++ List.replicate n 0) = s := by
  cases n with
  | zero => rw [List.replicate_zero, List.append_nil, cStr_of_nulFree h]
  | succ n => rw [List.replicate_succ, cStr_append h]

theorem Holds.cStr {array s : Bytes} (h : Holds array s) : cStr array = s := by
  obtain ⟨hnul, rest, rfl⟩ := h
  exact cStr_append hnul rest

theorem Holds.length_lt {array s : Bytes} (h : Holds array s) : s.length < array.length := by
  obtain ⟨-, rest, rfl⟩ := h
  rw [List.length_append, List.length_cons]
  omega

theorem Holds.strlen {array s : Bytes} (h : Holds array s) : strlen array = .ok s.length := by
  have hcStr := h.cStr
  obtain ⟨-, rest, rfl⟩ := h
  rw [AsioServer.strlen, if_pos (by simp), hcStr]

/-- The length of a string is known where there is one. -/
theorem holds_of_strlen {array : Bytes} {n : Nat} (h : strlen array = .ok n) :
    Holds array (cStr array) ∧ n = (cStr array).length := by
  unfold strlen at h
  split at h
  · next hmem =>
      cases h
      refine ⟨⟨nul_notMem_cStr array, ?_⟩, rfl⟩
      have hsplit := List.takeWhile_append_dropWhile (p := (· != 0)) (l := array)
      cases hrest : array.dropWhile (· != 0) with
      | nil =>
          rw [hrest, List.append_nil] at hsplit
          rw [← hsplit] at hmem
          exact absurd hmem (nul_notMem_cStr array)
      | cons c rest =>
          have hne : array.dropWhile (· != 0) ≠ [] := by
            rw [hrest]
            exact List.cons_ne_nil _ _
          have hc := List.head_dropWhile_not (· != 0) hne
          simp only [hrest, List.head_cons, bne_eq_false_iff_eq] at hc
          rw [hrest, hc] at hsplit
          exact ⟨rest, hsplit.symm⟩
  · cases h

/-- What follows in the array a part of its string. -/
theorem Holds.drop {array a t : Bytes} (h : Holds array (a ++ t)) :
    Holds (array.drop a.length) t := by
  obtain ⟨hnul, rest, rfl⟩ := h
  refine ⟨fun hmem => hnul (List.mem_append_right a hmem), rest, ?_⟩
  rw [List.append_assoc, List.drop_left]

theorem Holds.string {array a t : Bytes} (h : Holds array (a ++ t)) :
    Libc.string array a.length = .ok t := by
  have hdrop := h.drop
  rw [Libc.string, if_pos, hdrop.cStr]
  obtain ⟨-, rest, hrest⟩ := hdrop
  rw [hrest]
  simp

theorem nul_notMem_take {s : Bytes} (h : 0 ∉ s) (n : Nat) : 0 ∉ s.take n :=
  fun hmem => h (List.mem_of_mem_take hmem)

theorem nul_notMem_append {s t : Bytes} (hs : 0 ∉ s) (ht : 0 ∉ t) : 0 ∉ s ++ t :=
  fun hmem => (List.mem_append.mp hmem).elim hs ht

theorem copyInto_length {env env' src : Bytes} {off : Nat} (h : copyInto env off src = .ok env') :
    env'.length = env.length ∧ off + src.length ≤ env.length := by
  unfold copyInto at h
  split at h
  · next hfit =>
      cases h
      refine ⟨?_, hfit⟩
      rw [List.length_append, List.length_append, List.length_take, List.length_drop]
      omega
  · cases h

theorem copyInto_fault {env src : Bytes} {off : Nat} {f : Fault}
    (h : copyInto env off src = .error f) : f = .outOfBounds := by
  unfold copyInto at h
  split at h
  · cases h
  · exact (Except.error.inj h).symm

/-- A string and its terminator, copied behind what is there. -/
theorem copyInto_holds {array a t : Bytes} (ha : array.take a.length = a) (hnul : 0 ∉ a ++ t)
    (hfit : a.length + t.length < array.length) :
    ∃ array', copyInto array a.length (t ++ [0]) = .ok array' ∧ array'.length = array.length ∧
      Holds array' (a ++ t) := by
  have hlen : a.length + (t ++ [0]).length ≤ array.length := by
    rw [List.length_append, List.length_singleton]
    omega
  refine ⟨_, if_pos hlen, ?_, hnul, array.drop (a.length + (t ++ [0]).length), ?_⟩
  · rw [List.length_append, List.length_append, List.length_take, List.length_drop]
    omega
  · rw [ha]
    simp only [List.append_assoc, List.singleton_append]

theorem copyInto_front {array t : Bytes} (hnul : 0 ∉ t) (hfit : t.length < array.length) :
    ∃ array', copyInto array 0 (t ++ [0]) = .ok array' ∧ array'.length = array.length ∧
      Holds array' t :=
  copyInto_holds (a := []) rfl hnul (by rw [List.length_nil]; omega)

/-- A NUL written behind the string, or where it ends. -/
theorem Holds.terminate {array s : Bytes} (h : Holds array s) {i : Nat} (hi : s.length ≤ i)
    (hlt : i < array.length) :
    ∃ array', copyInto array i [0] = .ok array' ∧ array'.length = array.length ∧
      Holds array' s := by
  have hfit : i + [(0 : UInt8)].length ≤ array.length := by
    rw [List.length_singleton]
    exact hlt
  have hcopy : copyInto array i [0] =
      .ok (array.take i ++ [0] ++ array.drop (i + [(0 : UInt8)].length)) := if_pos hfit
  refine ⟨_, hcopy, (copyInto_length hcopy).1, h.1, ?_⟩
  obtain ⟨hnul, rest, rfl⟩ := h
  obtain ⟨k, rfl⟩ := Nat.exists_eq_add_of_le hi
  rw [List.take_length_add_append, List.append_assoc, List.append_assoc]
  cases k with
  | zero => exact ⟨_, rfl⟩
  | succ k => exact ⟨_, rfl⟩

/-- A text in front of zeros. -/
theorem holds_zeros {s : Bytes} (hnul : 0 ∉ s) {n : Nat} (hpos : 0 < n) (rest : Bytes) :
    Holds (s ++ (List.replicate n 0 ++ rest)) s := by
  obtain ⟨m, rfl⟩ : ∃ m, n = m + 1 := ⟨n - 1, by omega⟩
  rw [List.replicate_succ, List.cons_append]
  exact ⟨hnul, _, rfl⟩

theorem Holds.take {array s : Bytes} (h : Holds array s) : array.take s.length = s := by
  obtain ⟨-, rest, rfl⟩ := h
  rw [List.take_left]

theorem sizeT_pred {destlen : Nat} (hpos : 1 ≤ destlen) (hlt : destlen < 18446744073709551616) :
    sizeT ((destlen : Int) - 1) = destlen - 1 := by
  unfold sizeT
  omega

theorem int_natCast_le (n : Nat) : int n ≤ n ∧ int n < 2147483648 := by
  have hlt := Int.bmod_lt (x := n) (m := 4294967296) (by decide)
  have hge := Int.le_bmod (x := n) (m := 4294967296) (by decide)
  have hmod := Int.bmod_emod (x := n) (m := 4294967296)
  unfold int
  omega

theorem isDigit_iff {c : UInt8} : isDigit c = true ↔ 48 ≤ c.toNat ∧ c.toNat ≤ 57 := by
  rw [isDigit, Bool.and_eq_true, decide_eq_true_eq, decide_eq_true_eq, UInt8.le_iff_toNat_le,
    UInt8.le_iff_toNat_le]
  rfl

/-- Neither white space nor a sign stands in front of a digit. -/
theorem number_digits {ds : Bytes} (hds : ∀ c ∈ ds, isDigit c = true) :
    ds.dropWhile isSpace = ds ∧ takeSign ds = (1, ds) := by
  cases ds with
  | nil => exact ⟨rfl, rfl⟩
  | cons c ds =>
      have hc := isDigit_iff.mp (hds c List.mem_cons_self)
      constructor
      · refine List.dropWhile_cons_of_neg ?_
        rw [isSpace, Bool.or_eq_true, Bool.and_eq_true, beq_iff_eq, decide_eq_true_eq,
          decide_eq_true_eq, UInt8.le_iff_toNat_le, UInt8.le_iff_toNat_le, ← UInt8.toNat_inj]
        have h32 : (32 : UInt8).toNat = 32 := rfl
        have h13 : (13 : UInt8).toNat = 13 := rfl
        omega
      · unfold takeSign
        split
        · next heq =>
            cases heq
            exact absurd hc (by decide)
        · next heq =>
            cases heq
            exact absurd hc (by decide)
        · rfl

namespace Libc

theorem memset_eq {dest : Bytes} {n : Nat} (h : n ≤ dest.length) :
    memset dest n = .ok (List.replicate n 0 ++ dest.drop n) ∧
      (List.replicate n (0 : UInt8) ++ dest.drop n).length = dest.length := by
  refine ⟨if_pos h, ?_⟩
  rw [List.length_append, List.length_replicate, List.length_drop]
  omega

theorem strcpy_holds {dest src : Bytes} (hfit : (cStr src).length < dest.length) :
    ∃ dest', strcpy dest src = .ok dest' ∧ dest'.length = dest.length ∧ Holds dest' (cStr src) :=
  copyInto_front (nul_notMem_cStr src) hfit

theorem strcpy_inv {dest src dest' : Bytes} (h : strcpy dest src = .ok dest') :
    Holds dest' (cStr src) := by
  have hfit := (copyInto_length h).2
  rw [List.length_append, List.length_singleton] at hfit
  obtain ⟨dest₁, hcopy, -, hholds⟩ := strcpy_holds (show (cStr src).length < dest.length by omega)
  rw [h] at hcopy
  cases hcopy
  exact hholds

/-- Into an array of zeros that is longer than what is copied. -/
theorem strncpy_zeros {tail src : Bytes} {destlen n : Nat} (hn : n < destlen) :
    ∃ dest', strncpy (List.replicate destlen 0 ++ tail) 0 src n = .ok dest' ∧
      dest'.length = (List.replicate destlen (0 : UInt8) ++ tail).length ∧
      Holds dest' ((cStr src).take n) := by
  have hlen : ((cStr src).take n ++ List.replicate (n - (cStr src).length) 0).length = n := by
    rw [List.length_append, List.length_take, List.length_replicate]
    omega
  have hfit : 0 + n ≤ (List.replicate destlen (0 : UInt8) ++ tail).length := by
    rw [List.length_append, List.length_replicate]
    omega
  refine ⟨_, (if_pos hfit).trans (if_pos (by rw [hlen]; exact hfit)), ?_,
    nul_notMem_take (nul_notMem_cStr src) n, ?_⟩
  · rw [List.length_append, List.length_append, List.length_take, List.length_drop, hlen]
    omega
  · have hrest : ∃ m, destlen - n = m + 1 := ⟨destlen - n - 1, by omega⟩
    obtain ⟨m, hm⟩ := hrest
    have hdrop : (List.replicate destlen (0 : UInt8) ++ tail).drop n =
        0 :: (List.replicate m 0 ++ tail) := by
      rw [List.drop_append_of_le_length (by rw [List.length_replicate]; omega),
        List.drop_replicate, hm, List.replicate_succ, List.cons_append]
    rw [List.take_zero, List.nil_append, hlen, Nat.zero_add, hdrop]
    cases hz : n - (cStr src).length with
    | zero => exact ⟨_, by rw [List.replicate_zero, List.append_nil]⟩
    | succ k => exact ⟨_, by rw [List.replicate_succ, List.append_assoc, List.cons_append]⟩

/-- An array of zeros takes what has room in it, if need be without a terminator. -/
theorem strncpy_zeros_inv {destlen n : Nat} {src dest : Bytes}
    (h : strncpy (List.replicate destlen 0) 0 src n = .ok dest) :
    dest.length = destlen ∧ cStr dest = (cStr src).take n := by
  unfold strncpy at h
  split at h
  · next hfit =>
      have hlen := (copyInto_length h).1
      rw [List.length_replicate] at hlen
      refine ⟨hlen, ?_⟩
      unfold copyInto at h
      split at h
      · cases h
        rw [List.take_zero, List.nil_append, List.drop_replicate, List.append_assoc,
          ← List.replicate_add]
        exact cStr_zeros (nul_notMem_take (nul_notMem_cStr src) n) _
      · cases h
  · cases h

theorem strcat_holds {dest s src : Bytes} (h : Holds dest s)
    (hfit : s.length + (cStr src).length < dest.length) :
    ∃ dest', strcat dest src = .ok dest' ∧ dest'.length = dest.length ∧
      Holds dest' (s ++ cStr src) := by
  rw [strcat, ok_bind h.strlen]
  exact copyInto_holds h.take (nul_notMem_append h.1 (nul_notMem_cStr src)) hfit

theorem strncat_holds {dest s : Bytes} (src : Bytes) (n : Nat) (h : Holds dest s)
    (hfit : s.length + ((cStr src).take n).length < dest.length) :
    ∃ dest', strncat dest src n = .ok dest' ∧ dest'.length = dest.length ∧
      Holds dest' (s ++ (cStr src).take n) := by
  rw [strncat, ok_bind h.strlen]
  exact copyInto_holds h.take (nul_notMem_append h.1 (nul_notMem_take (nul_notMem_cStr src) n)) hfit

theorem strcat_inv {dest src dest' : Bytes} (h : strcat dest src = .ok dest') :
    dest'.length = dest.length ∧ Holds dest' (cStr dest ++ cStr src) := by
  obtain ⟨n, hn, hcopy⟩ := bind_eq_ok.mp h
  obtain ⟨hholds, rfl⟩ := holds_of_strlen hn
  obtain ⟨hlen, hfit⟩ := copyInto_length hcopy
  rw [List.length_append, List.length_singleton] at hfit
  obtain ⟨dest₁, hcopy₁, -, hholds₁⟩ :=
    copyInto_holds hholds.take (nul_notMem_append hholds.1 (nul_notMem_cStr src)) (by omega)
  rw [hcopy] at hcopy₁
  cases hcopy₁
  exact ⟨hlen, hholds₁⟩

theorem strncpy_fault {dest src : Bytes} {off n : Nat} {f : Fault}
    (h : strncpy dest off src n = .error f) : f = .outOfBounds := by
  unfold strncpy at h
  split at h
  · exact copyInto_fault h
  · exact (Except.error.inj h).symm

theorem strcat_fault {dest src : Bytes} {f : Fault} (h : strcat dest src = .error f) :
    f = .outOfBounds := by
  rcases bind_eq_error.mp h with h | ⟨n, -, h⟩
  · unfold strlen at h
    split at h
    · cases h
    · exact (Except.error.inj h).symm
  · exact copyInto_fault h

theorem atoi_digits {array ds : Bytes} (h : cStr array = ds) (hds : ∀ c ∈ ds, isDigit c = true)
    (hlt : digitsValue ds < 2147483648) : atoi array = digitsValue ds := by
  obtain ⟨hspace, hsign⟩ := number_digits hds
  have htake : ds.takeWhile isDigit = ds := List.takeWhile_eq_self_iff.mpr hds
  unfold atoi
  rw [h, hspace, hsign]
  dsimp only
  rw [htake, Int.one_mul, Int.min_eq_right (by omega), Int.max_eq_right (by omega)]
  exact int_eq (by omega) (by omega)

end Libc

namespace Public

theorem strncpy_holds {dest : Bytes} {destlen : Nat} (src : Bytes) (n : Nat) (hpos : 1 ≤ destlen)
    (hdest : destlen ≤ dest.length) (hlt : destlen < 18446744073709551616) :
    ∃ dest', strncpy dest destlen src n = .ok dest' ∧ dest'.length = dest.length ∧
      Holds dest' (((cStr src).take n).take (destlen - 1)) := by
  obtain ⟨hset, hlen⟩ := Libc.memset_eq hdest
  rw [strncpy, ok_bind hset, sizeT_pred hpos hlt, List.take_take]
  rw [← hlen]
  by_cases hn : n > destlen - 1
  · rw [if_pos hn, Nat.min_eq_left (by omega)]
    exact Libc.strncpy_zeros (by omega)
  · rw [if_neg hn, Nat.min_eq_right (by omega)]
    exact Libc.strncpy_zeros (by omega)

theorem strcpy_holds {dest : Bytes} {destlen : Nat} (src : Bytes) (hpos : 1 ≤ destlen)
    (hdest : destlen ≤ dest.length) (hlt : destlen < 18446744073709551616) :
    ∃ dest', strcpy dest destlen src = .ok dest' ∧ dest'.length = dest.length ∧
      Holds dest' ((cStr src).take (destlen - 1)) := by
  obtain ⟨hset, hlen⟩ := Libc.memset_eq hdest
  rw [strcpy, ok_bind hset, sizeT_pred hpos hlt]
  rw [← hlen]
  by_cases hlong : (cStr src).length > destlen - 1
  · rw [if_pos hlong]
    exact Libc.strncpy_zeros (by omega)
  · rw [if_neg hlong, List.take_of_length_le (by omega)]
    exact Libc.strcpy_holds (by rw [hlen]; omega)

/-- What there is room for behind a string. -/
theorem take_room {s : Bytes} {destlen : Nat} (hs : s.length < destlen) (t : Bytes) :
    (s ++ t).take (destlen - 1) = s ++ t.take (destlen - 1 - s.length) := by
  rw [List.take_append, List.take_of_length_le (by omega)]

/-- What `STRCAT` and `STRNCAT` do where there is not enough room. -/
theorem fill_holds {dest s : Bytes} {destlen : Nat} (src : Bytes) (h : Holds dest s)
    (hs : s.length < destlen) (hdest : destlen ≤ dest.length)
    (hlt : destlen < 18446744073709551616) :
    ∃ dest', (do
      let dest ← Libc.strncat dest src (destlen - 1 - s.length)
      copyInto dest (sizeT ((destlen : Int) - 1)) [0]) = .ok dest' ∧ dest'.length = dest.length ∧
      Holds dest' ((s ++ cStr src).take (destlen - 1)) := by
  have hshort : ((cStr src).take (destlen - 1 - s.length)).length ≤ destlen - 1 - s.length := by
    rw [List.length_take]
    omega
  obtain ⟨dest₁, hcat, hlen₁, hholds₁⟩ :=
    Libc.strncat_holds src (destlen - 1 - s.length) h (by omega)
  rw [ok_bind hcat, sizeT_pred (by omega) hlt, take_room hs, ← hlen₁]
  exact hholds₁.terminate (by rw [List.length_append]; omega) (by omega)

theorem strcat_holds {dest s : Bytes} {destlen : Nat} (src : Bytes) (h : Holds dest s)
    (hs : s.length < destlen) (hdest : destlen ≤ dest.length) (hlt : destlen ≤ 4294967296) :
    ∃ dest', strcat dest destlen src = .ok dest' ∧ dest'.length = dest.length ∧
      Holds dest' ((s ++ cStr src).take (destlen - 1)) := by
  have hleft : sizeT ((destlen : Int) - 1 - s.length) % 4294967296 = destlen - 1 - s.length := by
    unfold sizeT
    omega
  rw [strcat, ok_bind h.strlen]
  dsimp only
  rw [hleft]
  by_cases hmore : (cStr src).length > destlen - 1 - s.length
  · rw [if_pos hmore]
    exact fill_holds src h hs hdest (by omega)
  · rw [if_neg hmore, List.take_of_length_le (by rw [List.length_append]; omega)]
    exact Libc.strcat_holds h (by omega)

theorem strncat_holds {dest s : Bytes} {destlen : Nat} (src : Bytes) (n : Nat) (h : Holds dest s)
    (hs : s.length < destlen) (hdest : destlen ≤ dest.length)
    (hlt : destlen < 18446744073709551616) :
    ∃ dest', strncat dest destlen src n = .ok dest' ∧ dest'.length = dest.length ∧
      Holds dest' ((s ++ (cStr src).take n).take (destlen - 1)) := by
  have hleft : sizeT ((destlen : Int) - 1 - s.length) = destlen - 1 - s.length := by
    unfold sizeT
    omega
  rw [strncat, ok_bind h.strlen]
  dsimp only
  rw [hleft]
  by_cases hmore : n > destlen - 1 - s.length
  · have htext : (s ++ (cStr src).take n).take (destlen - 1) =
        (s ++ cStr src).take (destlen - 1) := by
      rw [take_room hs, take_room hs, List.take_take, Nat.min_eq_left (by omega)]
    rw [if_pos hmore, htext]
    exact fill_holds src h hs hdest hlt
  · have hshort : ((cStr src).take n).length ≤ n := by
      rw [List.length_take]
      omega
    rw [if_neg hmore, List.take_of_length_le (by rw [List.length_append]; omega)]
    exact Libc.strncat_holds src n h (by omega)

/-! ## Characters cut off -/

/-- A string without the given characters at its ends. -/
def trim (chr : UInt8) (s : Bytes) : Bytes := (s.dropWhile (· == chr)).rdropWhile (· == chr)

theorem skipLoop_eq {chr : UInt8} (hchr : chr ≠ 0) (s : Bytes) {i : Nat}
    (h : i + (s.takeWhile (· == chr)).length < 2147483648) :
    skipLoop chr (s ++ [0]) i = .ok ((i + (s.takeWhile (· == chr)).length : Nat) : Int) := by
  induction s generalizing i with
  | nil => rw [List.nil_append, skipLoop, if_neg (by omega), if_neg (Ne.symm hchr)]; rfl
  | cons c s ih =>
      rw [List.cons_append, skipLoop, if_neg (by omega)]
      by_cases hc : c = chr
      · have htake : (c :: s).takeWhile (· == chr) = c :: s.takeWhile (· == chr) :=
          List.takeWhile_cons_of_pos (beq_iff_eq.mpr hc)
        rw [htake, List.length_cons] at h ⊢
        have hnext : int ((i : Int) + 1) = ((i + 1 : Nat) : Int) := int_eq (by omega) (by omega)
        rw [if_pos hc, hnext, ih (by omega), Nat.add_assoc, Nat.add_comm 1]
      · have htake : (c :: s).takeWhile (· == chr) = [] :=
          List.takeWhile_cons_of_neg fun h => hc (beq_iff_eq.mp h)
        rw [htake, if_neg hc]
        rfl

theorem deleteLChar_eq {chr : UInt8} (hchr : chr ≠ 0) {s : Bytes} (hnul : 0 ∉ s)
    (h : (s.takeWhile (· == chr)).length < 2147483648) :
    deleteLChar s chr = .ok (s.dropWhile (· == chr)) := by
  unfold deleteLChar
  split
  · next hnil => rw [hnil, List.dropWhile_nil]
  · have hskip := skipLoop_eq hchr s (i := 0) (by omega)
    have hsplit : s ++ [0] = s.takeWhile (· == chr) ++ (s.dropWhile (· == chr) ++ [0]) := by
      rw [← List.append_assoc, List.takeWhile_append_dropWhile]
    have hnul' : 0 ∉ s.dropWhile (· == chr) := fun hmem =>
      hnul ((List.dropWhile_suffix _).subset hmem)
    rw [Nat.zero_add] at hskip
    refine (ok_bind hskip _).trans ?_
    rw [Int.toNat_natCast, hsplit, List.drop_left]
    exact congrArg Except.ok (cStr_append hnul' [])

theorem cutLoop_eq (chr : UInt8) (s : Bytes) :
    cutLoop chr s.length s = s.rdropWhile (· == chr) := by
  induction s using List.reverseRecOn with
  | nil => rfl
  | append_singleton s c ih =>
      rw [List.length_append, List.length_singleton, cutLoop, List.getElem?_concat_length]
      by_cases hc : c = chr
      · rw [if_neg (by rw [hc]; exact fun h => h rfl), List.take_left, ih,
          List.rdropWhile_concat_pos (· == chr) s c (beq_iff_eq.mpr hc)]
      · rw [if_pos (fun h => hc (Option.some.inj h)),
          List.rdropWhile_concat_neg (· == chr) s c fun h => hc (beq_iff_eq.mp h)]

theorem deleteRChar_eq {chr : UInt8} {s : Bytes} (h : s.length < 2147483648) :
    deleteRChar s chr = s.rdropWhile (· == chr) := by
  rw [deleteRChar, int_eq (by omega) (by omega), Int.toNat_natCast, cutLoop_eq]

theorem deleteLRChar_eq {chr : UInt8} (hchr : chr ≠ 0) {s : Bytes} (hnul : 0 ∉ s)
    (h : s.length < 2147483648) : deleteLRChar s chr = .ok (trim chr s) := by
  have hlead : (s.takeWhile (· == chr)).length ≤ s.length := (List.takeWhile_prefix _).length_le
  have hrest : (s.dropWhile (· == chr)).length ≤ s.length := (List.dropWhile_suffix _).length_le
  refine (ok_bind (deleteLChar_eq hchr hnul (by omega)) _).trans ?_
  rw [deleteRChar_eq (by omega)]
  rfl

/-! ## `UpdateStr` -/

theorem ilen_bounds (str : Bytes) : 1000 ≤ ilen str ∧ ilen str < 2147483648 := by
  have hint : int (10 * str.length) < 2147483648 := by
    have h := Int.bmod_lt (x := 10 * str.length) (m := 4294967296) (by decide)
    unfold int
    omega
  unfold ilen
  dsimp only
  split <;> omega

theorem take_take_append {α : Type} (s t : List α) (n : Nat) :
    (s.take n ++ t).take n = (s ++ t).take n := by
  rw [List.take_append, List.take_append, List.take_take, Nat.min_self]
  rcases Nat.le_total s.length n with hle | hle
  · rw [List.take_of_length_le hle]
  · rw [List.length_take, Nat.min_eq_left hle, Nat.sub_self, Nat.sub_eq_zero_of_le hle]

/-- The strings that a text with one part replaced is put together from. -/
theorem replaced_parts {str a b str1 : Bytes} (h : Holds str (a ++ str1 ++ b)) :
    (cStr str).take a.length = a ∧ cStr (str.drop (a.length + str1.length)) = b := by
  have hdrop := h.drop
  rw [List.length_append] at hdrop
  rw [h.cStr, List.append_assoc, List.take_left]
  exact ⟨rfl, hdrop.cStr⟩

/-- The replacement, as far as `strTemp` has room for it. -/
theorem replaced_holds {ilen : Nat} {str a b str1 str2 : Bytes} (hpos : 1 ≤ ilen)
    (hlt : ilen ≤ 4294967296) (hroom : ((a ++ str2 ++ b).take (ilen - 1)).length < str.length)
    (h : Holds str (a ++ str1 ++ b)) (hnul : 0 ∉ str2) :
    ∃ str', replaced ilen str str1 str2 a.length = .ok str' ∧ str'.length = str.length ∧
      Holds str' ((a ++ str2 ++ b).take (ilen - 1)) := by
  have hzeros : (List.replicate ilen (0 : UInt8)).length = ilen := List.length_replicate
  obtain ⟨hfront, hbehind⟩ := replaced_parts h
  obtain ⟨t₁, ht₁, hlen₁, hholds₁⟩ :=
    strncpy_holds str a.length hpos (Nat.le_of_eq hzeros.symm) (by omega)
  rw [hfront] at hholds₁
  obtain ⟨t₂, ht₂, hlen₂, hholds₂⟩ :=
    strcat_holds str2 hholds₁ (by rw [List.length_take]; omega) (by omega) hlt
  rw [cStr_of_nulFree hnul, take_take_append] at hholds₂
  obtain ⟨t₃, ht₃, hlen₃, hholds₃⟩ :=
    strcat_holds (str.drop (a.length + str1.length)) hholds₂ (by rw [List.length_take]; omega)
      (by omega) hlt
  rw [hbehind, take_take_append] at hholds₃
  obtain ⟨str', hcopy, hlen, hholds⟩ :=
    Libc.strcpy_holds (show (cStr t₃).length < str.length by rwa [hholds₃.cStr])
  rw [hholds₃.cStr] at hholds
  refine ⟨str', ?_, hlen, hholds⟩
  rw [replaced, ok_bind ht₁, ok_bind ht₂, ok_bind ht₃, hcopy]

end Public

end AsioServer
