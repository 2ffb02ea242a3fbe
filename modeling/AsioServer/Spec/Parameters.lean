import AsioServer.Ref.SqlLexer
import AsioServer.Ref.SqlText

/-!
# Texts with numbered parameters

A text is read from left to right: a colon with digits behind it is a parameter,
with all the digits that follow, and every other character stands for itself.
`ParamText n` says of a text that its parameters are numbers from 1 to `n`,
written without leading zeros. Such a text is empty, a character
that is no parameter and a rest, or a parameter and a rest that does not
continue its number, and `ParamText.induction` is the induction over that.
-/

namespace AsioServer

/-! ## Decimal numbers -/

theorem digitsValue_append (ds ds' : Bytes) :
    digitsValue (ds ++ ds') = ds'.foldl (fun n c => 10 * n + (c.toNat - 48)) (digitsValue ds) :=
  List.foldl_append

theorem le_foldl_digits (ds : Bytes) (n : Nat) :
    n ≤ ds.foldl (fun n c => 10 * n + (c.toNat - 48)) n := by
  induction ds generalizing n with
  | nil => exact Nat.le_refl n
  | cons c ds ih =>
      have h := ih (10 * n + (c.toNat - 48))
      rw [List.foldl_cons]
      omega

theorem decimal_eq (n : Nat) : decimal n = (Nat.toDigits 10 n).map Char.toUInt8 := by
  show (n.repr.toList).map _ = _
  rw [Nat.toList_repr]

theorem toUInt8_toNat {c : Char} (h : c.isDigit) : c.toUInt8.toNat = c.toNat := by
  have hle := (Char.isDigit_iff_toNat.mp h).2
  have h9 : '9'.toNat = 57 := rfl
  show c.toNat % 256 = c.toNat
  omega

theorem isDigit_toUInt8 {c : Char} (h : c.isDigit) : isDigit c.toUInt8 = true := by
  obtain ⟨hge, hle⟩ := Char.isDigit_iff_toNat.mp h
  have h0 : '0'.toNat = 48 := rfl
  have h9 : '9'.toNat = 57 := rfl
  have hnat := toUInt8_toNat h
  simp only [isDigit, Bool.and_eq_true, decide_eq_true_eq, UInt8.le_iff_toNat_le, hnat]
  exact ⟨by rw [h0] at hge; exact hge, by rw [h9] at hle; exact hle⟩

theorem isDigit_of_mem_decimal {n : Nat} {c : UInt8} (h : c ∈ decimal n) : isDigit c = true := by
  rw [decimal_eq] at h
  obtain ⟨d, hd, rfl⟩ := List.mem_map.mp h
  exact isDigit_toUInt8 (Nat.isDigit_of_mem_toDigits (by decide) (by decide) hd)

theorem decimal_ne_nil (n : Nat) : decimal n ≠ [] := by
  rw [decimal_eq]
  exact fun h => Nat.toDigits_ne_nil (List.map_eq_nil_iff.mp h)

theorem digitsValue_decimal (n : Nat) : digitsValue (decimal n) = n := by
  have hmap : ∀ (cs : List Char), (∀ c ∈ cs, c.isDigit) → ∀ m : Nat,
      (cs.map Char.toUInt8).foldl (fun n c => 10 * n + (c.toNat - 48)) m =
        Nat.ofDigitChars 10 cs m := by
    intro cs
    induction cs with
    | nil => intro _ m; rfl
    | cons c cs ih =>
        intro h m
        have hc := toUInt8_toNat (h c List.mem_cons_self)
        rw [List.map_cons, List.foldl_cons, hc, ih (fun d hd => h d (List.mem_cons_of_mem _ hd)),
          Nat.ofDigitChars_cons]
        rfl
  rw [decimal_eq, digitsValue, hmap _ fun c hc =>
    Nat.isDigit_of_mem_toDigits (by decide) (by decide) hc]
  exact Nat.ofDigitChars_ten_toDigits

/-- The number that begins another one is not larger. -/
theorem le_of_decimal_begins {m n : Nat} (h : decimal m <+: decimal n) : m ≤ n := by
  obtain ⟨ds, hds⟩ := h
  calc m = digitsValue (decimal m) := (digitsValue_decimal m).symm
    _ ≤ digitsValue (decimal m ++ ds) := by
        rw [digitsValue_append]
        exact le_foldl_digits ds _
    _ = n := by rw [hds, digitsValue_decimal]

/-- All digits in front of something that does not begin with one. -/
theorem takeWhile_digits {ds rest : Bytes} (hds : ∀ c ∈ ds, isDigit c = true)
    (hrest : rest.takeWhile isDigit = []) : (ds ++ rest).takeWhile isDigit = ds := by
  rw [List.takeWhile_append_of_pos hds, hrest, List.append_nil]

/-! ## Parameters -/

inductive Tok where
  | chr (c : UInt8)
  | param (k : Nat)
  deriving DecidableEq

def colon : UInt8 := 58

def Tok.text : Tok → Bytes
  | .chr c => [c]
  | .param k => colon :: decimal k

/-- What MySQL is to see of it. -/
def Tok.mark : Tok → UInt8
  | .chr c => c
  | .param _ => questionMark

def tokens : Bytes → List Tok
  | [] => []
  | c :: s =>
      if c = colon ∧ s.takeWhile isDigit ≠ [] then
        .param (digitsValue (s.takeWhile isDigit)) ::
          (tokens s).drop (s.takeWhile isDigit).length
      else .chr c :: tokens s

example : tokens (ascii "a:12,:b") =
    [.chr 97, .param 12, .chr 44, .chr 58, .chr 98] := by
  decide

/-- Every colon with digits behind it starts a parameter. -/
def ParamText (n : Nat) (s : Bytes) : Prop :=
  ∀ before rest, s = before ++ colon :: rest → rest.takeWhile isDigit ≠ [] →
    ∃ k : Nat, 1 ≤ k ∧ k ≤ n ∧ rest.takeWhile isDigit = decimal k

theorem tokens_chr {c : UInt8} {s : Bytes} (h : c = colon → s.takeWhile isDigit = []) :
    tokens (c :: s) = .chr c :: tokens s := by
  rw [tokens, if_neg fun hc => hc.2 (h hc.1)]

theorem tokens_digits {ds : Bytes} (hds : ∀ c ∈ ds, isDigit c = true) (rest : Bytes) :
    tokens (ds ++ rest) = ds.map .chr ++ tokens rest := by
  induction ds with
  | nil => rfl
  | cons c ds ih =>
      have hc : c ≠ colon := by
        rintro rfl
        exact absurd (hds colon List.mem_cons_self) (by decide)
      rw [List.cons_append, tokens_chr fun h => absurd h hc,
        ih fun d hd => hds d (List.mem_cons_of_mem _ hd)]
      rfl

theorem tokens_param {k : Nat} {rest : Bytes} (hrest : rest.takeWhile isDigit = []) :
    tokens (colon :: (decimal k ++ rest)) = .param k :: tokens rest := by
  have hrun := takeWhile_digits (fun _ h => isDigit_of_mem_decimal (n := k) h) hrest
  rw [tokens, hrun, if_pos ⟨rfl, decimal_ne_nil k⟩, digitsValue_decimal,
    tokens_digits fun _ h => isDigit_of_mem_decimal h, List.drop_left' (List.length_map ..)]

theorem ParamText.nil {n : Nat} : ParamText n [] := fun before rest h => by cases before <;> cases h

theorem ParamText.cons {n : Nat} {c : UInt8} {s : Bytes}
    (hc : c = colon → s.takeWhile isDigit ≠ [] →
      ∃ k : Nat, 1 ≤ k ∧ k ≤ n ∧ s.takeWhile isDigit = decimal k)
    (h : ParamText n s) : ParamText n (c :: s) := by
  intro before rest hs
  cases before with
  | nil =>
      obtain ⟨rfl, rfl⟩ := List.cons.inj hs
      exact hc rfl
  | cons d before => exact h before rest (List.cons.inj hs).2

theorem ParamText.tail {n : Nat} {c : UInt8} {s : Bytes} (h : ParamText n (c :: s)) :
    ParamText n s := by
  intro before rest hs
  exact h (c :: before) rest (by rw [hs, List.cons_append])

theorem ParamText.drop {n : Nat} {s t : Bytes} (h : ParamText n (s ++ t)) : ParamText n t := by
  intro before rest ht
  exact h (s ++ before) rest (by rw [ht, List.append_assoc])

/-- Such a text is empty, a character or a parameter and a rest. -/
theorem ParamText.induction {n : Nat} {P : ∀ s, ParamText n s → Prop} (nil : ∀ h, P [] h)
    (chr : ∀ c s (h : ParamText n (c :: s)), (c = colon → s.takeWhile isDigit = []) →
      P s h.tail → P (c :: s) h)
    (param : ∀ (k : Nat) rest (h : ParamText n (colon :: (decimal k ++ rest))), 1 ≤ k →
      k ≤ n → rest.takeWhile isDigit = [] → P rest h.tail.drop → P _ h) :
    ∀ s h, P s h := by
  intro s
  induction hlen : s.length using Nat.strongRecOn generalizing s with
  | _ len ih =>
      intro h
      cases s with
      | nil => exact nil h
      | cons c s =>
          rw [List.length_cons] at hlen
          by_cases hc : c = colon → s.takeWhile isDigit = []
          · exact chr c s h hc (ih s.length (by omega) s rfl h.tail)
          · obtain ⟨rfl, hrun⟩ := Classical.not_imp.mp hc
            obtain ⟨k, hpos, hle, hk⟩ := h [] s rfl hrun
            have hstop : (s.dropWhile isDigit).takeWhile isDigit = [] :=
              List.takeWhile_eq_nil_iff.mpr (List.dropWhile_get_zero_not isDigit s)
            obtain ⟨rest, rfl, hrest⟩ : ∃ rest, s = decimal k ++ rest ∧
                rest.takeWhile isDigit = [] :=
              ⟨_, by rw [← hk, List.takeWhile_append_dropWhile], hstop⟩
            have hdec := List.length_pos_iff.mpr (decimal_ne_nil k)
            rw [List.length_append] at hlen
            exact param k rest h hpos hle hrest (ih rest.length (by omega) rest rfl h.tail.drop)

/-- The tokens are the text. -/
theorem ParamText.text {n : Nat} {s : Bytes} (h : ParamText n s) :
    (tokens s).flatMap Tok.text = s := by
  induction s, h using ParamText.induction with
  | nil => rfl
  | chr c s _ hc ih =>
      rw [tokens_chr hc, List.flatMap_cons, ih]
      rfl
  | param k rest _ _ _ hrest ih =>
      rw [tokens_param hrest, List.flatMap_cons, ih]
      rfl

theorem ParamText.mono {m n : Nat} (hle : m ≤ n) {s : Bytes} (h : ParamText m s) :
    ParamText n s := by
  intro before rest hs hrun
  obtain ⟨k, hpos, hk, hdec⟩ := h before rest hs hrun
  exact ⟨k, hpos, Nat.le_trans hk hle, hdec⟩

/-- A check of `ParamText`. -/
def checkParams (n : Nat) : Bytes → Bool
  | [] => true
  | c :: s =>
      (c != colon || s.takeWhile isDigit == [] ||
        (List.range n).any fun k => s.takeWhile isDigit == decimal (k + 1 : Nat)) &&
      checkParams n s

theorem paramText_of_check {n : Nat} {s : Bytes} (h : checkParams n s = true) : ParamText n s := by
  induction s with
  | nil => exact .nil
  | cons c s ih =>
      rw [checkParams, Bool.and_eq_true] at h
      refine .cons (fun hcolon hdigits => ?_) (ih h.2)
      have hfirst := h.1
      simp only [Bool.or_eq_true, bne_iff_ne, beq_iff_eq, List.any_eq_true, List.mem_range]
        at hfirst
      rcases hfirst with (hc | hnone) | ⟨k, hk, hdec⟩
      · exact absurd hcolon hc
      · exact absurd hnone hdigits
      · exact ⟨k + 1, Nat.le_add_left 1 k, hk, hdec⟩

end AsioServer
