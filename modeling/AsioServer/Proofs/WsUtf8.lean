import AsioServer.Lib.Utf8
import AsioServer.Ref.Ws

/-!
# The UTF-8 check

The check of the library tests the bits of each byte; a text is code points
written out. The tests are read as ranges once, and after that a character of
either side is one of the other (`isValidUTF8_encodeChar`, `first_char`).
-/

namespace AsioServer.Ws

open Utf8 (IsScalar encodeChar encode)

/-! ## The tests, as ranges -/

/-- The upper bits of a byte. -/
theorem and_upper {n k : Nat} (hn : n < 2 ^ 8) (hk : k ≤ 8) :
    n &&& (2 ^ 8 - 2 ^ k) = n / 2 ^ k * 2 ^ k := by
  refine Nat.eq_of_testBit_eq fun i => ?_
  have hpos := Nat.two_pow_pos k
  have hmask : 2 ^ 8 - 2 ^ k = 2 ^ 8 - ((2 ^ k - 1) + 1) := by rw [Nat.sub_add_cancel hpos]
  have hlow : 2 ^ k - 1 < 2 ^ 8 :=
    Nat.lt_of_lt_of_le (Nat.sub_one_lt hpos.ne') (Nat.pow_le_pow_right (by decide) hk)
  rw [Nat.testBit_and, hmask, Nat.testBit_two_pow_sub_succ hlow, Nat.testBit_two_pow_sub_one,
    Nat.testBit_mul_two_pow, Nat.testBit_div_two_pow]
  by_cases hi : k ≤ i
  · by_cases hlt : i < 8
    · simp [hi, hlt, Nat.sub_add_cancel hi]
    · have hzero : n.testBit i = false :=
        Nat.testBit_lt_two_pow
          (Nat.lt_of_lt_of_le hn (Nat.pow_le_pow_right (by decide) (Nat.not_lt.mp hlt)))
      simp [hi, hlt, hzero, Nat.sub_add_cancel hi]
  · simp [hi]
    omega

theorem test_upper {b mask value : UInt8} {k v : Nat} (hk : k ≤ 8)
    (hmask : mask.toNat = 2 ^ 8 - 2 ^ k) (hvalue : value.toNat = v) :
    b &&& mask = value ↔ b.toNat / 2 ^ k * 2 ^ k = v := by
  rw [← UInt8.toNat_inj, UInt8.toNat_and, hmask, and_upper b.toNat_lt hk, hvalue]

theorem test_one (b : UInt8) : b &&& 0x80 = 0 ↔ b.toNat < 0x80 :=
  (test_upper (k := 7) (v := 0) (by decide) rfl rfl).trans (by omega)

theorem test_two (b : UInt8) : b &&& 0xe0 = 0xc0 ↔ 0xC0 ≤ b.toNat ∧ b.toNat < 0xE0 :=
  (test_upper (k := 5) (v := 0xC0) (by decide) rfl rfl).trans (by omega)

theorem test_three (b : UInt8) : b &&& 0xf0 = 0xe0 ↔ 0xE0 ≤ b.toNat ∧ b.toNat < 0xF0 :=
  (test_upper (k := 4) (v := 0xE0) (by decide) rfl rfl).trans (by omega)

theorem test_four (b : UInt8) : b &&& 0xf8 = 0xf0 ↔ 0xF0 ≤ b.toNat ∧ b.toNat < 0xF8 :=
  (test_upper (k := 3) (v := 0xF0) (by decide) rfl rfl).trans (by omega)

theorem test_next (b : UInt8) : b &&& 0xc0 = 0x80 ↔ 0x80 ≤ b.toNat ∧ b.toNat < 0xC0 :=
  (test_upper (k := 6) (v := 0x80) (by decide) rfl rfl).trans (by omega)

theorem test_overlong_two (b : UInt8) : b &&& 0xfe = 0xc0 ↔ 0xC0 ≤ b.toNat ∧ b.toNat < 0xC2 :=
  (test_upper (k := 1) (v := 0xC0) (by decide) rfl rfl).trans (by omega)

theorem test_overlong_three (b : UInt8) : b &&& 0xe0 = 0x80 ↔ 0x80 ≤ b.toNat ∧ b.toNat < 0xA0 :=
  (test_upper (k := 5) (v := 0x80) (by decide) rfl rfl).trans (by omega)

theorem test_surrogate (b : UInt8) : b &&& 0xe0 = 0xa0 ↔ 0xA0 ≤ b.toNat ∧ b.toNat < 0xC0 :=
  (test_upper (k := 5) (v := 0xA0) (by decide) rfl rfl).trans (by omega)

theorem test_overlong_four (b : UInt8) : b &&& 0xf0 = 0x80 ↔ 0x80 ≤ b.toNat ∧ b.toNat < 0x90 :=
  (test_upper (k := 4) (v := 0x80) (by decide) rfl rfl).trans (by omega)

theorem ofNat_of_toNat {b : UInt8} {n : Nat} (h : n = b.toNat) : UInt8.ofNat n = b := by
  rw [h, UInt8.ofNat_toNat]

/-! ## A character at the front -/

/-- A byte behind the first. -/
def Next (b : UInt8) : Prop := 0x80 ≤ b.toNat ∧ b.toNat < 0xC0

/-- The bytes of one character. -/
inductive Written : Bytes → Prop
  | one {b : UInt8} (h : b.toNat < 0x80) : Written [b]
  | two {b₀ b₁ : UInt8} (h₀ : 0xC2 ≤ b₀.toNat ∧ b₀.toNat < 0xE0) (h₁ : Next b₁) : Written [b₀, b₁]
  | three {b₀ b₁ b₂ : UInt8} (h₀ : 0xE0 ≤ b₀.toNat ∧ b₀.toNat < 0xF0) (h₁ : Next b₁) (h₂ : Next b₂)
      (hlong : b₀.toNat = 0xE0 → 0xA0 ≤ b₁.toNat) (hsurrogate : b₀.toNat = 0xED → b₁.toNat < 0xA0) :
      Written [b₀, b₁, b₂]
  | four {b₀ b₁ b₂ b₃ : UInt8} (h₀ : 0xF0 ≤ b₀.toNat ∧ b₀.toNat < 0xF5) (h₁ : Next b₁)
      (h₂ : Next b₂) (h₃ : Next b₃) (hlong : b₀.toNat = 0xF0 → 0x90 ≤ b₁.toNat)
      (hbeyond : b₀.toNat = 0xF4 → b₁.toNat < 0x90) : Written [b₀, b₁, b₂, b₃]

theorem byte {n : Nat} (h : n < 256) : (UInt8.ofNat n).toNat = n := Utf8.toNat_byte h

theorem written_encodeChar {c : Nat} (hc : IsScalar c) : Written (encodeChar c) := by
  have hlast : (UInt8.ofNat (0x80 + c % 64)).toNat = 0x80 + c % 64 := byte (by omega)
  have hmid : (UInt8.ofNat (0x80 + c / 64 % 64)).toNat = 0x80 + c / 64 % 64 := byte (by omega)
  have hhigh : (UInt8.ofNat (0x80 + c / 4096 % 64)).toNat = 0x80 + c / 4096 % 64 :=
    byte (by omega)
  unfold IsScalar at hc
  unfold encodeChar
  split
  · exact .one (by rw [byte (by omega)]; assumption)
  · split
    · have hfirst : (UInt8.ofNat (0xC0 + c / 64)).toNat = 0xC0 + c / 64 := byte (by omega)
      exact .two (by omega) ⟨by omega, by omega⟩
    · split
      · have hfirst : (UInt8.ofNat (0xE0 + c / 4096)).toNat = 0xE0 + c / 4096 := byte (by omega)
        exact .three (by omega) ⟨by omega, by omega⟩ ⟨by omega, by omega⟩ (by omega) (by omega)
      · have hfirst : (UInt8.ofNat (0xF0 + c / 262144)).toNat = 0xF0 + c / 262144 :=
          byte (by omega)
        exact .four (by omega) ⟨by omega, by omega⟩ ⟨by omega, by omega⟩ ⟨by omega, by omega⟩
          (by omega) (by omega)

/-- Its code point. -/
theorem Written.encodes {bs : Bytes} (h : Written bs) : ∃ c, IsScalar c ∧ encodeChar c = bs := by
  cases h with
  | @one b h =>
      refine ⟨b.toNat, Or.inl (by omega), ?_⟩
      rw [encodeChar, if_pos h, UInt8.ofNat_toNat]
  | @two b₀ b₁ h₀ h₁ =>
      obtain ⟨hlo, hhi⟩ := h₁
      refine ⟨(b₀.toNat - 0xC0) * 64 + (b₁.toNat - 0x80), Or.inl (by omega), ?_⟩
      rw [encodeChar, if_neg (by omega), if_pos (by omega), ofNat_of_toNat (b := b₀) (by omega),
        ofNat_of_toNat (b := b₁) (by omega)]
  | @three b₀ b₁ b₂ h₀ h₁ h₂ hlong hsurrogate =>
      obtain ⟨hlo₁, hhi₁⟩ := h₁
      obtain ⟨hlo₂, hhi₂⟩ := h₂
      refine ⟨(b₀.toNat - 0xE0) * 4096 + (b₁.toNat - 0x80) * 64 + (b₂.toNat - 0x80), ?_, ?_⟩
      · unfold IsScalar
        omega
      · rw [encodeChar, if_neg (by omega), if_neg (by omega), if_pos (by omega),
          ofNat_of_toNat (b := b₀) (by omega), ofNat_of_toNat (b := b₁) (by omega),
          ofNat_of_toNat (b := b₂) (by omega)]
  | @four b₀ b₁ b₂ b₃ h₀ h₁ h₂ h₃ hlong hbeyond =>
      obtain ⟨hlo₁, hhi₁⟩ := h₁
      obtain ⟨hlo₂, hhi₂⟩ := h₂
      obtain ⟨hlo₃, hhi₃⟩ := h₃
      refine ⟨(b₀.toNat - 0xF0) * 262144 + (b₁.toNat - 0x80) * 4096 + (b₂.toNat - 0x80) * 64 +
        (b₃.toNat - 0x80), Or.inr (by omega), ?_⟩
      rw [encodeChar, if_neg (by omega), if_neg (by omega), if_neg (by omega),
        ofNat_of_toNat (b := b₀) (by omega), ofNat_of_toNat (b := b₁) (by omega),
        ofNat_of_toNat (b := b₂) (by omega), ofNat_of_toNat (b := b₃) (by omega)]

/-! ## The check -/

theorem byte_iff (b n : UInt8) : b = n ↔ b.toNat = n.toNat := UInt8.toNat_inj.symm

theorem refused_two (b₀ b₁ : UInt8) (h₀ : 0xC0 ≤ b₀.toNat) :
    (b₁ &&& 0xc0 ≠ 0x80 ∨ b₀ &&& 0xfe = 0xc0) ↔ ¬ (0xC2 ≤ b₀.toNat ∧ Next b₁) := by
  rw [ne_eq, test_next, test_overlong_two, Next]
  omega

theorem refused_three (b₀ b₁ b₂ : UInt8) :
    (b₁ &&& 0xc0 ≠ 0x80 ∨ b₂ &&& 0xc0 ≠ 0x80 ∨ (b₀ = 0xe0 ∧ b₁ &&& 0xe0 = 0x80) ∨
        (b₀ = 0xed ∧ b₁ &&& 0xe0 = 0xa0)) ↔
      ¬ (Next b₁ ∧ Next b₂ ∧ (b₀.toNat = 0xE0 → 0xA0 ≤ b₁.toNat) ∧
        (b₀.toNat = 0xED → b₁.toNat < 0xA0)) := by
  have h₁ : b₀ = 0xe0 ↔ b₀.toNat = 0xE0 := byte_iff b₀ 0xe0
  have h₂ : b₀ = 0xed ↔ b₀.toNat = 0xED := byte_iff b₀ 0xed
  rw [ne_eq, ne_eq, test_next, test_next, test_overlong_three, test_surrogate, h₁, h₂, Next, Next]
  omega

theorem refused_four (b₀ b₁ b₂ b₃ : UInt8) :
    (b₁ &&& 0xc0 ≠ 0x80 ∨ b₂ &&& 0xc0 ≠ 0x80 ∨ b₃ &&& 0xc0 ≠ 0x80 ∨
        (b₀ = 0xf0 ∧ b₁ &&& 0xf0 = 0x80) ∨ (b₀ = 0xf4 ∧ 0x8f < b₁) ∨ 0xf4 < b₀) ↔
      ¬ (b₀.toNat < 0xF5 ∧ Next b₁ ∧ Next b₂ ∧ Next b₃ ∧ (b₀.toNat = 0xF0 → 0x90 ≤ b₁.toNat) ∧
        (b₀.toNat = 0xF4 → b₁.toNat < 0x90)) := by
  have h₁ : b₀ = 0xf0 ↔ b₀.toNat = 0xF0 := byte_iff b₀ 0xf0
  have h₂ : b₀ = 0xf4 ↔ b₀.toNat = 0xF4 := byte_iff b₀ 0xf4
  have h₃ : 0x8f < b₁ ↔ 0x8F < b₁.toNat := UInt8.lt_iff_toNat_lt
  have h₄ : 0xf4 < b₀ ↔ 0xF4 < b₀.toNat := UInt8.lt_iff_toNat_lt
  rw [ne_eq, ne_eq, ne_eq, test_next, test_next, test_next, test_overlong_four, h₁, h₂, h₃, h₄,
    Next, Next, Next]
  omega

/-- The check passes over a character. -/
theorem Written.passed {bs : Bytes} (h : Written bs) (rest : Bytes) :
    isValidUTF8 (bs ++ rest) = isValidUTF8 rest := by
  cases h with
  | @one b h =>
      rw [List.singleton_append, isValidUTF8.eq_def]
      exact if_pos ((test_one b).mpr h)
  | @two b₀ b₁ h₀ h₁ =>
      have hone : ¬ b₀ &&& 0x80 = 0 := mt (test_one b₀).mp (by omega)
      rw [List.cons_append, List.singleton_append, isValidUTF8.eq_def]
      dsimp only
      rw [if_neg hone, if_pos ((test_two b₀).mpr (by omega))]
      exact if_neg fun hbad => (refused_two b₀ b₁ (by omega)).mp hbad ⟨h₀.1, h₁⟩
  | @three b₀ b₁ b₂ h₀ h₁ h₂ hlong hsurrogate =>
      have hone : ¬ b₀ &&& 0x80 = 0 := mt (test_one b₀).mp (by omega)
      have htwo : ¬ b₀ &&& 0xe0 = 0xc0 := mt (test_two b₀).mp (by omega)
      rw [List.cons_append, List.cons_append, List.singleton_append, isValidUTF8.eq_def]
      dsimp only
      rw [if_neg hone, if_neg htwo, if_pos ((test_three b₀).mpr h₀)]
      exact if_neg fun hbad => (refused_three b₀ b₁ b₂).mp hbad ⟨h₁, h₂, hlong, hsurrogate⟩
  | @four b₀ b₁ b₂ b₃ h₀ h₁ h₂ h₃ hlong hbeyond =>
      have hone : ¬ b₀ &&& 0x80 = 0 := mt (test_one b₀).mp (by omega)
      have htwo : ¬ b₀ &&& 0xe0 = 0xc0 := mt (test_two b₀).mp (by omega)
      have hthree : ¬ b₀ &&& 0xf0 = 0xe0 := mt (test_three b₀).mp (by omega)
      rw [List.cons_append, List.cons_append, List.cons_append, List.singleton_append,
        isValidUTF8.eq_def]
      dsimp only
      rw [if_neg hone, if_neg htwo, if_neg hthree, if_pos ((test_four b₀).mpr (by omega))]
      exact if_neg fun hbad => (refused_four b₀ b₁ b₂ b₃).mp hbad
        ⟨h₀.2, h₁, h₂, h₃, hlong, hbeyond⟩

/-- What the check passes over first is a character. -/
theorem first_written {b₀ : UInt8} {s : Bytes} (h : isValidUTF8 (b₀ :: s) = true) :
    ∃ bs rest, b₀ :: s = bs ++ rest ∧ Written bs ∧ isValidUTF8 rest = true := by
  rw [isValidUTF8.eq_def] at h
  dsimp only at h
  split at h
  · next hone => exact ⟨[b₀], s, rfl, .one ((test_one b₀).mp hone), h⟩
  split at h
  · next htwo =>
      obtain ⟨hlo, hhi⟩ := (test_two b₀).mp htwo
      rcases s with _ | ⟨b₁, rest⟩
      · cases h
      dsimp only at h
      split at h
      · cases h
      · next hgood =>
          obtain ⟨hlong, h₁⟩ := not_not.mp (mt (refused_two b₀ b₁ hlo).mpr hgood)
          exact ⟨[b₀, b₁], rest, rfl, .two ⟨hlong, hhi⟩ h₁, h⟩
  split at h
  · next hthree =>
      rcases s with _ | ⟨b₁, _ | ⟨b₂, rest⟩⟩
      · cases h
      · cases h
      dsimp only at h
      split at h
      · cases h
      · next hgood =>
          obtain ⟨h₁, h₂, hlong, hsurrogate⟩ :=
            not_not.mp (mt (refused_three b₀ b₁ b₂).mpr hgood)
          exact ⟨[b₀, b₁, b₂], rest, rfl, .three ((test_three b₀).mp hthree) h₁ h₂ hlong hsurrogate,
            h⟩
  split at h
  · next hfour =>
      rcases s with _ | ⟨b₁, _ | ⟨b₂, _ | ⟨b₃, rest⟩⟩⟩
      · cases h
      · cases h
      · cases h
      dsimp only at h
      split at h
      · cases h
      · next hgood =>
          obtain ⟨hhi, h₁, h₂, h₃, hlong, hbeyond⟩ :=
            not_not.mp (mt (refused_four b₀ b₁ b₂ b₃).mpr hgood)
          exact ⟨[b₀, b₁, b₂, b₃], rest, rfl,
            .four ⟨((test_four b₀).mp hfour).1, hhi⟩ h₁ h₂ h₃ hlong hbeyond, h⟩
  · cases h

theorem Written.length_pos {bs : Bytes} (h : Written bs) : 0 < bs.length := by
  cases h <;> exact Nat.succ_pos _

/-- A text: code points written out. -/
def IsUtf8 (s : Bytes) : Prop := ∃ cs, (∀ c ∈ cs, IsScalar c) ∧ s = encode cs

theorem isValidUTF8_encode {cs : List Nat} (hcs : ∀ c ∈ cs, IsScalar c) :
    isValidUTF8 (encode cs) = true := by
  induction cs with
  | nil => rfl
  | cons c cs ih =>
      rw [List.forall_mem_cons] at hcs
      show isValidUTF8 (encodeChar c ++ encode cs) = true
      rw [(written_encodeChar hcs.1).passed, ih hcs.2]

theorem isUtf8_of_valid (s : Bytes) (h : isValidUTF8 s = true) : IsUtf8 s := by
  induction hn : s.length using Nat.strongRecOn generalizing s with
  | ind n ih =>
      cases s with
      | nil => exact ⟨[], fun c hc => (by cases hc), rfl⟩
      | cons b s =>
          obtain ⟨bs, rest, hsplit, hbs, hrest⟩ := first_written h
          have hlt : rest.length < n := by
            rw [← hn, hsplit, List.length_append]
            have := hbs.length_pos
            omega
          obtain ⟨c, hc, hchar⟩ := hbs.encodes
          obtain ⟨cs, hcs, htext⟩ := ih rest.length hlt rest hrest rfl
          refine ⟨c :: cs, List.forall_mem_cons.mpr ⟨hc, hcs⟩, ?_⟩
          rw [hsplit, htext, ← hchar]
          rfl

theorem isValidUTF8_iff (s : Bytes) : isValidUTF8 s = true ↔ IsUtf8 s := by
  refine ⟨isUtf8_of_valid s, ?_⟩
  rintro ⟨cs, hcs, rfl⟩
  exact isValidUTF8_encode hcs

/-- The check accepts the texts and nothing else, with the function of Node, where that does what
it is documented to do, or without it. -/
theorem checkUTF8_texts (isUtf8 : Option (Bytes → Bool)) (s : Bytes)
    (hnode : ∀ node, isUtf8 = some node → (node s = true ↔ IsUtf8 s)) :
    checkUTF8 isUtf8 s = true ↔ IsUtf8 s := by
  unfold checkUTF8
  cases isUtf8 with
  | none => exact isValidUTF8_iff s
  | some node =>
      dsimp only
      split
      · exact isValidUTF8_iff s
      · exact hnode node rfl

/-- Half of a surrogate pair, behind 24 letters. -/
theorem checkUTF8_surrogate :
    ¬ IsUtf8 (List.replicate 24 0x61 ++ [0xED, 0xA0, 0x80]) := fun h => by
  have hcheck := (checkUTF8_texts (some isValidUTF8) _ fun node hnode => by
    cases hnode
    exact isValidUTF8_iff _).mpr h
  revert hcheck
  decide

end AsioServer.Ws
