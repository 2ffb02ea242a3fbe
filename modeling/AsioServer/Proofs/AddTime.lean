import Mathlib.Algebra.Ring.Nat
import AsioServer.Proofs.StrToTime
import AsioServer.Ref.Time
import AsioServer.Spec.Parameters

/-!
# Shifted times

A text in the default format stands for one instant, and `strtotime` finds it: the
digits that are left of the text are those of its fields. So a shift takes the
text of an instant to that of another, as long as neither the instant nor one
between two shifts is the -1 that says that there is none: 1969-12-31 23:59:59.
-/

namespace AsioServer

open Libc (epoch mktime localtime)

/-! ## Instants -/

/-- The fields are those of a second of some day. -/
structure Tm.Valid (tm : Tm) : Prop where
  mon : 0 ≤ tm.tmMon
  mday : 0 ≤ tm.tmMday
  date : (Calendar.Date.mk (tm.tmYear + 1900) tm.tmMon.toNat tm.tmMday.toNat).Valid
  hour : 0 ≤ tm.tmHour ∧ tm.tmHour < 24
  min : 0 ≤ tm.tmMin ∧ tm.tmMin < 60
  sec : 0 ≤ tm.tmSec ∧ tm.tmSec < 60

/-- The year of an instant has four digits. -/
def FourDigits (timer : Int) : Prop :=
  0 ≤ (Calendar.ofDay (timer / 86400 + epoch)).year ∧
    (Calendar.ofDay (timer / 86400 + epoch)).year ≤ 9999

instance (timer : Int) : Decidable (FourDigits timer) := inferInstanceAs (Decidable (_ ∧ _))

theorem mktime_valid {tm : Tm} (h : tm.Valid) :
    mktime tm / 86400 + epoch =
        Calendar.dayOf (tm.tmYear + 1900) tm.tmMon.toNat tm.tmMday.toNat ∧
      mktime tm % 86400 = tm.tmHour * 3600 + tm.tmMin * 60 + tm.tmSec := by
  obtain ⟨hmon, hmday, ⟨hmonth, -⟩, hhour, hmin, hsec⟩ := h
  have hle : tm.tmMon.toNat ≤ 11 := hmonth
  have hyear : tm.tmYear + 1900 + tm.tmMon / 12 = tm.tmYear + 1900 := by omega
  have hrem : tm.tmMon % 12 = tm.tmMon := by omega
  have hday : ((tm.tmMday.toNat : Nat) : Int) = tm.tmMday := Int.toNat_of_nonneg hmday
  rw [mktime, hyear, hrem, hday]
  omega

theorem localtime_mktime {tm : Tm} (h : tm.Valid) (hint : InInt tm.tmYear) :
    localtime (mktime tm) = some tm := by
  obtain ⟨hday, hsecs⟩ := mktime_valid h
  have hdate := Calendar.ofDay_dayOf h.date
  dsimp only at hdate
  obtain ⟨hmon, hmday, -, hhour, hmin, hsec⟩ := h
  rw [localtime, hday, hsecs, hdate]
  dsimp only
  rw [if_pos (by rwa [Int.add_sub_cancel])]
  refine congrArg some (Tm.mk.injEq .. ▸ ⟨?_, ?_, ?_, ?_, ?_, ?_⟩) <;> omega

theorem mktime_localtime {timer : Int} {tm : Tm} (h : localtime timer = some tm) :
    mktime tm = timer ∧ tm.Valid ∧
      tm.tmYear + 1900 = (Calendar.ofDay (timer / 86400 + epoch)).year := by
  obtain ⟨hnum, hvalid⟩ := Calendar.dayOf_ofDay (timer / 86400 + epoch)
  unfold localtime at h
  dsimp only at h
  split at h
  · cases h
    have hmonth := hvalid.1
    refine ⟨?_, ⟨Int.natCast_nonneg _, Int.natCast_nonneg _, ?_, ?_, ?_, ?_⟩, ?_⟩
    · have hyear : (Calendar.ofDay (timer / 86400 + epoch)).year - 1900 + 1900 +
          ((Calendar.ofDay (timer / 86400 + epoch)).month : Int) / 12 =
            (Calendar.ofDay (timer / 86400 + epoch)).year := by omega
      have hrem : (((Calendar.ofDay (timer / 86400 + epoch)).month : Int) % 12).toNat =
          (Calendar.ofDay (timer / 86400 + epoch)).month := by omega
      rw [mktime]
      dsimp only
      rw [hyear, hrem, hnum]
      omega
    · dsimp only
      rw [Int.sub_add_cancel, Int.toNat_natCast, Int.toNat_natCast]
      exact hvalid
    · dsimp only
      omega
    · dsimp only
      omega
    · dsimp only
      omega
    · dsimp only
      omega
  · cases h

theorem localtime_fourDigits {timer : Int} (h : FourDigits timer) :
    ∃ tm, localtime timer = some tm := by
  obtain ⟨h₁, h₂⟩ := h
  refine ⟨_, if_pos ?_⟩
  unfold InInt
  omega

/-! ## Digits -/

theorem digitsValue_zeros (n : Nat) (ds : Bytes) :
    digitsValue (List.replicate n 48 ++ ds) = digitsValue ds := by
  have hzero : digitsValue (List.replicate n 48) = 0 := by
    induction n with
    | zero => rfl
    | succ n ih => exact ih
  rw [digitsValue_append, hzero]
  rfl

/-- Digits that write a number in a field of their own. -/
structure Field (ds : Bytes) (w n : Nat) : Prop where
  length : ds.length = w
  digits : ∀ c ∈ ds, isDigit c = true
  value : digitsValue ds = n

/-- The field behind so many digits. -/
theorem Field.slice {a b : Bytes} {off w n : Nat} (h : Field b w n) (ha : a.length = off)
    (c : Bytes) : digitsValue (((a ++ (b ++ c)).drop off).take w) = n := by
  rw [← ha, List.drop_left, ← h.length, List.take_left, h.value]

namespace Public

theorem unsigned0_field {w n : Nat} {x : Int} (hx : x = n) (hpos : 0 < w) (hlt : n < 10 ^ w)
    (huint : n < 4294967296) : Field (unsigned0 w x) w n := by
  have hmod : x % 4294967296 = (n : Int) := by omega
  have hshort : (decimal n).length ≤ w := by
    rw [decimal_eq, List.length_map]
    exact (Nat.length_toDigits_le_iff (by decide) hpos).mpr hlt
  unfold unsigned0
  dsimp only
  rw [hmod]
  refine ⟨?_, fun c hc => ?_, ?_⟩
  · rw [List.length_append, List.length_replicate]
    omega
  · rcases List.mem_append.mp hc with hzero | hdec
    · rw [List.eq_of_mem_replicate hzero]
      rfl
    · exact isDigit_of_mem_decimal hdec
  · rw [digitsValue_zeros, digitsValue_decimal]

/-! ## The default format -/

/-- The text of a time in the default format. -/
def stamp (tm : Tm) : Bytes :=
  unsigned0 4 (tm.tmYear + 1900) ++ 45 :: unsigned0 2 (tm.tmMon + 1) ++
    45 :: unsigned0 2 tm.tmMday ++ 32 :: unsigned0 2 tm.tmHour ++ 58 :: unsigned0 2 tm.tmMin ++
    58 :: unsigned0 2 tm.tmSec

example : stamp ⟨124, 1, 29, 23, 59, 5⟩ = ascii "2024-02-29 23:59:05" := by decide

/-- The six fields of a time with a year of four digits. -/
structure Fields (tm : Tm) (yyyy mm dd hh mi ss : Nat) : Prop where
  year : Field (unsigned0 4 (tm.tmYear + 1900)) 4 yyyy
  mon : Field (unsigned0 2 (tm.tmMon + 1)) 2 mm
  mday : Field (unsigned0 2 tm.tmMday) 2 dd
  hour : Field (unsigned0 2 tm.tmHour) 2 hh
  min : Field (unsigned0 2 tm.tmMin) 2 mi
  sec : Field (unsigned0 2 tm.tmSec) 2 ss
  eq : tm = ⟨yyyy - 1900, mm - 1, dd, hh, mi, ss⟩
  small : yyyy < 10000 ∧ mm < 100 ∧ dd < 100 ∧ hh < 100 ∧ mi < 100 ∧ ss < 100

theorem fields_of_valid {tm : Tm} (h : tm.Valid) (h₁ : 0 ≤ tm.tmYear + 1900)
    (h₂ : tm.tmYear + 1900 ≤ 9999) :
    Fields tm (tm.tmYear + 1900).toNat (tm.tmMon + 1).toNat tm.tmMday.toNat tm.tmHour.toNat
      tm.tmMin.toNat tm.tmSec.toNat := by
  have hday : tm.tmMday.toNat ≤ 31 := by
    have hmonth : ∀ lp : Bool, ∀ m ≤ 11,
        Calendar.monthStart lp (m + 1) ≤ Calendar.monthStart lp m + 31 := by decide
    have hlast := h.date.2.2
    have hbound := hmonth (Calendar.leap (tm.tmYear + 1900)) _ h.date.1
    dsimp only at hlast hbound
    omega
  obtain ⟨hmon, hmday, ⟨hmonth, hfirst, -⟩, hhour, hmin, hsec⟩ := h
  dsimp only at hmonth hfirst
  refine ⟨?_, ?_, ?_, ?_, ?_, ?_, ?_, ?_⟩
  · exact unsigned0_field (by omega) (by decide) (by omega) (by omega)
  · exact unsigned0_field (by omega) (by decide) (by omega) (by omega)
  · exact unsigned0_field (by omega) (by decide) (by omega) (by omega)
  · exact unsigned0_field (by omega) (by decide) (by omega) (by omega)
  · exact unsigned0_field (by omega) (by decide) (by omega) (by omega)
  · exact unsigned0_field (by omega) (by decide) (by omega) (by omega)
  · refine Tm.mk.injEq .. ▸ ⟨?_, ?_, ?_, ?_, ?_, ?_⟩ <;> omega
  · omega

section

variable {tm : Tm} {yyyy mm dd hh mi ss : Nat}

/-- What is left of the text is the fields in their order. -/
theorem Fields.filter_stamp (h : Fields tm yyyy mm dd hh mi ss) :
    (stamp tm).filter isDigit = unsigned0 4 (tm.tmYear + 1900) ++ (unsigned0 2 (tm.tmMon + 1) ++
      (unsigned0 2 tm.tmMday ++ (unsigned0 2 tm.tmHour ++ (unsigned0 2 tm.tmMin ++
        unsigned0 2 tm.tmSec)))) := by
  have h45 : isDigit 45 = false := rfl
  have h32 : isDigit 32 = false := rfl
  have h58 : isDigit 58 = false := rfl
  simp only [stamp, List.filter_append, List.filter_cons, h45, h32, h58, Bool.false_eq_true,
    if_false, List.filter_eq_self.mpr h.year.digits, List.filter_eq_self.mpr h.mon.digits,
    List.filter_eq_self.mpr h.mday.digits, List.filter_eq_self.mpr h.hour.digits,
    List.filter_eq_self.mpr h.min.digits, List.filter_eq_self.mpr h.sec.digits, List.append_assoc]

theorem Fields.length_stamp (h : Fields tm yyyy mm dd hh mi ss) : (stamp tm).length = 19 := by
  simp only [stamp, List.length_append, List.length_cons, h.year.length, h.mon.length,
    h.mday.length, h.hour.length, h.min.length, h.sec.length]

theorem Fields.nul_notMem (h : Fields tm yyyy mm dd hh mi ss) : 0 ∉ stamp tm := by
  have hdigits : ∀ {ds : Bytes} {w n : Nat}, Field ds w n → 0 ∉ ds := fun hds h0 =>
    absurd (hds.digits 0 h0) (by decide)
  have hne : ∀ {c : UInt8} {ds : Bytes} {w n : Nat}, c ≠ 0 → Field ds w n → 0 ∉ c :: ds :=
    fun hc hds h0 => (List.mem_cons.mp h0).elim (fun h => hc h.symm) (hdigits hds)
  refine nul_notMem_append (nul_notMem_append (nul_notMem_append (nul_notMem_append
    (nul_notMem_append (hdigits h.year) ?_) ?_) ?_) ?_) ?_
  · exact hne (by decide) h.mon
  · exact hne (by decide) h.mday
  · exact hne (by decide) h.hour
  · exact hne (by decide) h.min
  · exact hne (by decide) h.sec

/-- What is left of the text says the time. -/
theorem Fields.stampOf_stamp (h : Fields tm yyyy mm dd hh mi ss) :
    stampOf ((stamp tm).filter isDigit) = tm := by
  have hlen : (unsigned0 4 (tm.tmYear + 1900) ++ unsigned0 2 (tm.tmMon + 1)).length = 6 := by
    rw [List.length_append, h.year.length, h.mon.length]
  have hlen₈ : (unsigned0 4 (tm.tmYear + 1900) ++ unsigned0 2 (tm.tmMon + 1) ++
      unsigned0 2 tm.tmMday).length = 8 := by rw [List.length_append, hlen, h.mday.length]
  have hlen₁₀ : (unsigned0 4 (tm.tmYear + 1900) ++ unsigned0 2 (tm.tmMon + 1) ++
      unsigned0 2 tm.tmMday ++ unsigned0 2 tm.tmHour).length = 10 := by
    rw [List.length_append, hlen₈, h.hour.length]
  have hlen₁₂ : (unsigned0 4 (tm.tmYear + 1900) ++ unsigned0 2 (tm.tmMon + 1) ++
      unsigned0 2 tm.tmMday ++ unsigned0 2 tm.tmHour ++ unsigned0 2 tm.tmMin).length = 12 := by
    rw [List.length_append, hlen₁₀, h.min.length]
  have hmday := h.mday.slice hlen
  have hhour := h.hour.slice hlen₈
  have hmin := h.min.slice hlen₁₀
  have hsec := h.sec.slice hlen₁₂ []
  simp only [List.append_assoc, List.append_nil] at hmday hhour hmin hsec
  refine Eq.trans ?_ h.eq.symm
  rw [h.filter_stamp, stampOf, List.take_left' h.year.length, h.year.value,
    h.mon.slice h.year.length, hmday, hhour, hmin, hsec]

theorem Fields.strtotime_stamp (h : Fields tm yyyy mm dd hh mi ss) {stime : Bytes}
    (hs : Holds stime (stamp tm)) : strtotime stime = .ok (mktime tm) := by
  have hlen := h.length_stamp
  have hshort : (stamp tm).length < 2147483648 := by omega
  have hlead := (List.takeWhile_prefix (· == 32) (l := stamp tm)).length_le
  have hdigits : (reached (stamp tm)).length = 14 := by
    rw [reached_of_lt hshort, h.filter_stamp]
    simp only [List.length_append, h.year.length, h.mon.length, h.mday.length, h.hour.length,
      h.min.length, h.sec.length]
  rw [strtotime, strtotimeWith_reached mktime hs (by omega) (by omega), if_pos hdigits,
    reached_of_lt hshort, h.stampOf_stamp]

theorem Fields.timetostr_stamp (h : Fields tm yyyy mm dd hh mi ss) {ltime : Int} {stime : Bytes}
    (hlocal : localtime ltime = some tm) (hroom : 20 ≤ stime.length) :
    ∃ stime', timetostr ltime stime none = .ok stime' ∧ stime'.length = stime.length ∧
      Holds stime' (stamp tm) := by
  have hlen := h.length_stamp
  have hnil : ([] : Bytes).length < stime.length := by
    rw [List.length_nil]
    omega
  obtain ⟨stime₁, hclear, hlen₁, -⟩ := copyInto_front List.not_mem_nil hnil
  have htext : timeText tm none = some (20, stamp tm) := rfl
  have htake : (stamp tm).take (20 - 1) = stamp tm := List.take_of_length_le (by omega)
  have hfit : (stamp tm).length < stime₁.length := by omega
  obtain ⟨stime', hcopy, hlen', hholds⟩ := copyInto_front h.nul_notMem hfit
  rw [List.nil_append] at hclear
  refine ⟨stime', ?_, hlen'.trans hlen₁, hholds⟩
  rw [timetostr, ok_bind hclear, hlocal]
  dsimp only
  rw [htext]
  dsimp only
  rw [htake, hcopy]

end

/-- The array holds the text of a second of a year with four digits. -/
structure TimeText (stime : Bytes) (tm : Tm) : Prop where
  valid : tm.Valid
  year : 0 ≤ tm.tmYear + 1900 ∧ tm.tmYear + 1900 ≤ 9999
  holds : Holds stime (stamp tm)

theorem TimeText.strtotime {stime : Bytes} {tm : Tm} (h : TimeText stime tm) :
    strtotime stime = .ok (mktime tm) :=
  (fields_of_valid h.valid h.year.1 h.year.2).strtotime_stamp h.holds

/-- A shift from any instant but the one that says that there is none. -/
theorem addTime_shift {inStime outStime : Bytes} {tm : Tm} {timetvl : Int}
    (h : TimeText inStime tm) (hne : mktime tm ≠ -1) (hyear : FourDigits (mktime tm + timetvl))
    (hroom : 20 ≤ outStime.length) :
    ∃ out tm', addTime inStime outStime timetvl none = .ok (true, out) ∧
      out.length = outStime.length ∧ TimeText out tm' ∧ mktime tm' = mktime tm + timetvl := by
  have hnil : ([] : Bytes).length < outStime.length := by
    rw [List.length_nil]
    omega
  obtain ⟨out₁, hclear, hlen₁, -⟩ := copyInto_front List.not_mem_nil hnil
  rw [List.nil_append] at hclear
  obtain ⟨tm', hlocal⟩ := localtime_fourDigits hyear
  obtain ⟨hmktime, hvalid, hyear'⟩ := mktime_localtime hlocal
  have hfour : 0 ≤ tm'.tmYear + 1900 ∧ tm'.tmYear + 1900 ≤ 9999 := by
    rw [hyear']
    exact hyear
  obtain ⟨out, htext, hlen, hholds⟩ :=
    (fields_of_valid hvalid hfour.1 hfour.2).timetostr_stamp hlocal (by rw [hlen₁]; exact hroom)
  refine ⟨out, tm', ?_, hlen.trans hlen₁, ⟨hvalid, hfour, hholds⟩, hmktime⟩
  rw [addTime, ok_bind h.strtotime, ok_bind hclear, if_neg hne, ok_bind htext]
  rfl

theorem addTime_sentinel {inStime outStime : Bytes} {tm : Tm} (h : TimeText inStime tm)
    (heq : mktime tm = -1) (hroom : 20 ≤ outStime.length) (timetvl : Int) :
    ∃ out, addTime inStime outStime timetvl none = .ok (false, out) := by
  have hnil : ([] : Bytes).length < outStime.length := by
    rw [List.length_nil]
    omega
  obtain ⟨out, hclear, -, -⟩ := copyInto_front List.not_mem_nil hnil
  rw [List.nil_append] at hclear
  refine ⟨out, ?_⟩
  rw [addTime, ok_bind h.strtotime, ok_bind hclear, if_pos heq]
  rfl

/-- An instant has one text. -/
theorem TimeText.unique {s t : Bytes} {tm tm' : Tm} (h : TimeText s tm) (h' : TimeText t tm')
    (heq : mktime tm = mktime tm') : tm = tm' := by
  have hint : ∀ {y : Int}, 0 ≤ y + 1900 ∧ y + 1900 ≤ 9999 → InInt y := fun hy => by
    unfold InInt
    omega
  have hlocal := localtime_mktime h.valid (hint h.year)
  rw [heq, localtime_mktime h'.valid (hint h'.year)] at hlocal
  exact (Option.some.inj hlocal).symm

/-! ## Shifts one after the other -/

/-- Two shifts, the second from what the first has written, do what their sum does. Each
array may be one that was used before. -/
def ShiftsCompose (s t : Bytes) (a b : Int) : Prop :=
  ∃ t', addTime s t a none = .ok (true, t') ∧ t'.length = t.length ∧
    ∀ u : Bytes, 20 ≤ u.length → ∃ u', addTime t' u b none = .ok (true, u') ∧
      (InInt (a + b) → ∀ v : Bytes, 20 ≤ v.length →
        ∃ v', addTime s v (a + b) none = .ok (true, v') ∧ cStr v' = cStr u')

/-- A shift by nothing gives the text back. -/
def ShiftsBack (s t : Bytes) : Prop :=
  ∃ t', addTime s t 0 none = .ok (true, t') ∧ cStr t' = cStr s

theorem shiftsCompose_iff {s t : Bytes} {tm : Tm} {a b : Int} (h : TimeText s tm)
    (ha : FourDigits (mktime tm + a)) (hb : FourDigits (mktime tm + a + b))
    (hroom : 20 ≤ t.length) :
    ShiftsCompose s t a b ↔ mktime tm ≠ -1 ∧ mktime tm + a ≠ -1 := by
  constructor
  · rintro ⟨t', hshift, hlen, hnext⟩
    by_cases hne : mktime tm = -1
    · obtain ⟨out, hfail⟩ := addTime_sentinel h hne hroom a
      rw [hfail] at hshift
      cases hshift
    · refine ⟨hne, fun heq => ?_⟩
      obtain ⟨out, tm', hout, -, htext, hinstant⟩ := addTime_shift h hne ha hroom
      rw [hout] at hshift
      cases hshift
      obtain ⟨u', hu, -⟩ := hnext t hroom
      obtain ⟨out', hfail⟩ := addTime_sentinel htext (hinstant.trans heq) hroom b
      rw [hfail] at hu
      cases hu
  · rintro ⟨hne, hne'⟩
    obtain ⟨t', tm₁, ht, hlen, htext₁, hinstant₁⟩ := addTime_shift h hne ha hroom
    refine ⟨t', ht, hlen, fun u hu => ?_⟩
    rw [← hinstant₁] at hb hne'
    obtain ⟨u', tm₂, hu', -, htext₂, hinstant₂⟩ := addTime_shift htext₁ hne' hb hu
    refine ⟨u', hu', fun _ v hv => ?_⟩
    have hsum : mktime tm + (a + b) = mktime tm₁ + b := by
      rw [hinstant₁, Int.add_assoc]
    obtain ⟨v', tm₃, hv', -, htext₃, hinstant₃⟩ := addTime_shift h hne (hsum ▸ hb) hv
    refine ⟨v', hv', ?_⟩
    rw [htext₃.holds.cStr, htext₂.holds.cStr,
      htext₃.unique htext₂ (hinstant₃.trans (hsum.trans hinstant₂.symm))]

theorem TimeText.fourDigits {s : Bytes} {tm : Tm} (h : TimeText s tm) :
    FourDigits (mktime tm) := by
  have hdate := Calendar.ofDay_dayOf h.valid.date
  dsimp only at hdate
  have hday : (tm.tmMday.toNat : Int) = tm.tmMday := Int.toNat_of_nonneg h.valid.mday
  rw [FourDigits, (mktime_valid h.valid).1, hdate]
  exact h.year

theorem shiftsBack_iff {s t : Bytes} {tm : Tm} (h : TimeText s tm)
    (hroom : 20 ≤ t.length) : ShiftsBack s t ↔ mktime tm ≠ -1 := by
  constructor
  · rintro ⟨t', hshift, -⟩ heq
    obtain ⟨out, hfail⟩ := addTime_sentinel h heq hroom 0
    rw [hfail] at hshift
    cases hshift
  · intro hne
    obtain ⟨t', tm', ht, -, htext, hinstant⟩ :=
      addTime_shift h hne (by rw [Int.add_zero]; exact h.fourDigits) hroom
    rw [Int.add_zero] at hinstant
    exact ⟨t', ht, by rw [htext.holds.cStr, h.holds.cStr, htext.unique h hinstant]⟩

/-- Shifts compose, and a shift by nothing does nothing, as long as no text that is read
stands for the last second of 1969. -/
theorem addTime_composes_iff {s t : Bytes} {tm : Tm} {a b : Int} (hvalid : tm.Valid)
    (hyear : 0 ≤ tm.tmYear + 1900 ∧ tm.tmYear + 1900 ≤ 9999) (hs : Holds s (stamp tm))
    (ha : FourDigits (mktime tm + a)) (hb : FourDigits (mktime tm + a + b))
    (hroom : 20 ≤ t.length) :
    (ShiftsCompose s t a b ↔ mktime tm ≠ -1 ∧ mktime tm + a ≠ -1) ∧
      (ShiftsBack s t ↔ mktime tm ≠ -1) :=
  ⟨shiftsCompose_iff ⟨hvalid, hyear, hs⟩ ha hb hroom, shiftsBack_iff ⟨hvalid, hyear, hs⟩ hroom⟩

/-- In one buffer, an hour ahead and half an hour back. -/
theorem addTime_composes_iff_newYear :
    ShiftsCompose (ascii "2023-12-31 23:30:00" ++ [0]) (ascii "2023-12-31 23:30:00" ++ [0])
      3600 (-1800) :=
  have hvalid : (⟨123, 11, 31, 23, 30, 0⟩ : Tm).Valid :=
    ⟨by decide, by decide, by decide, by decide, by decide, by decide⟩
  have hs : Holds (ascii "2023-12-31 23:30:00" ++ [0]) (stamp ⟨123, 11, 31, 23, 30, 0⟩) :=
    ⟨by decide, [], by decide⟩
  (addTime_composes_iff hvalid (by decide) hs (by decide +kernel) (by decide +kernel)
    (by decide)).1.mpr (by decide)

/-- A second back from the epoch and one ahead again: what the first shift writes, the second
takes for no time at all. -/
theorem epoch_not_back :
    TimeText (ascii "1970-01-01 00:00:00" ++ [0]) ⟨70, 0, 1, 0, 0, 0⟩ ∧ FourDigits (0 + -1) ∧
      FourDigits (0 + -1 + 1) ∧
      ¬ ShiftsCompose (ascii "1970-01-01 00:00:00" ++ [0]) (List.replicate 20 0) (-1) 1 := by
  have htext : TimeText (ascii "1970-01-01 00:00:00" ++ [0]) ⟨70, 0, 1, 0, 0, 0⟩ :=
    ⟨⟨by decide, by decide, by decide, by decide, by decide, by decide⟩, by decide, by decide, [],
      by decide⟩
  refine ⟨htext, by decide +kernel, by decide +kernel, fun h => ?_⟩
  have hback := (shiftsCompose_iff htext (by decide +kernel) (by decide +kernel) (by decide)).mp h
  exact absurd hback.2 (by decide)

end Public

end AsioServer
