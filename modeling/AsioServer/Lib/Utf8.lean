import Mathlib.Data.List.Basic
import Mathlib.Tactic.Common

/-!
# Reading bytes as UTF-8

`encode` writes scalar values, and `decode` reads any bytes: a sequence that is
not UTF-8 becomes a replacement character, and the byte that shows it is read
again as the first of another. `text` is what a reader makes of a whole text, of
which a byte order mark at the start is no part.

Two facts are used of it. A byte below 128 always stands for itself, so such
bytes are neither lost nor made up (`ascii_text`). And writing what was read
gives the bytes back exactly when they are the UTF-8 of a text
(`encode_text_iff`).
-/

namespace Utf8

def IsScalar (c : Nat) : Prop := c < 0xD800 ∨ 0xE000 ≤ c ∧ c < 0x110000

def encodeChar (c : Nat) : List UInt8 :=
  if c < 0x80 then [.ofNat c]
  else if c < 0x800 then [.ofNat (0xC0 + c / 64), .ofNat (0x80 + c % 64)]
  else if c < 0x10000 then
    [.ofNat (0xE0 + c / 4096), .ofNat (0x80 + c / 64 % 64), .ofNat (0x80 + c % 64)]
  else
    [.ofNat (0xF0 + c / 262144), .ofNat (0x80 + c / 4096 % 64), .ofNat (0x80 + c / 64 % 64),
      .ofNat (0x80 + c % 64)]

def encode (cs : List Nat) : List UInt8 := cs.flatMap encodeChar

def replacement : Nat := 0xFFFD

def byteOrderMark : Nat := 0xFEFF

/-- Between characters, or inside one: so many bytes are to follow the next one,
which lies between two bounds. -/
inductive State where
  | start
  | inside (more code lo hi : Nat)

/-- The first byte of a character. -/
def lead (b : Nat) : List Nat × State :=
  if b < 0x80 then ([b], .start)
  else if 0xC2 ≤ b ∧ b ≤ 0xDF then ([], .inside 0 (b - 0xC0) 0x80 0xBF)
  else if 0xE0 ≤ b ∧ b ≤ 0xEF then
    ([], .inside 1 (b - 0xE0) (if b = 0xE0 then 0xA0 else 0x80) (if b = 0xED then 0x9F else 0xBF))
  else if 0xF0 ≤ b ∧ b ≤ 0xF4 then
    ([], .inside 2 (b - 0xF0) (if b = 0xF0 then 0x90 else 0x80) (if b = 0xF4 then 0x8F else 0xBF))
  else ([replacement], .start)

def step : State → Nat → List Nat × State
  | .start, b => lead b
  | .inside more code lo hi, b =>
      if lo ≤ b ∧ b ≤ hi then
        match more with
        | 0 => ([code * 64 + (b - 0x80)], .start)
        | more + 1 => ([], .inside more (code * 64 + (b - 0x80)) 0x80 0xBF)
      else (replacement :: (lead b).1, (lead b).2)

/-- The characters read from this state on. -/
def decodeFrom : State → List UInt8 → List Nat
  | .start, [] => []
  | .inside .., [] => [replacement]
  | st, b :: bs => (step st b.toNat).1 ++ decodeFrom (step st b.toNat).2 bs

def decode (bs : List UInt8) : List Nat := decodeFrom .start bs

/-- A text without the byte order mark at its start. -/
def text (bs : List UInt8) : List Nat :=
  match decode bs with
  | [] => []
  | c :: cs => if c = byteOrderMark then cs else c :: cs

example : text [0xEF, 0xBB, 0xBF, 0x61, 0xC3, 0xA9, 0xE0, 0x62] =
    [0x61, 0xE9, replacement, 0x62] := by
  decide

/-! ## What is read -/

theorem decodeFrom_cons (st : State) (b : UInt8) (bs : List UInt8) :
    decodeFrom st (b :: bs) = (step st b.toNat).1 ++ decodeFrom (step st b.toNat).2 bs := by
  cases st <;> rfl

/-- How many characters so many further bytes tell apart. -/
def room : Nat → Nat
  | 0 => 1
  | more + 1 => 64 * room more

/-- All that a character begun so can become is a scalar value of its own length. -/
def State.Good : State → Prop
  | .start => True
  | .inside more code lo hi => 0x80 ≤ lo ∧ hi ≤ 0xBF ∧
      (0x80 ≤ (code * 64 + (lo - 0x80)) * room more ∧
          (code * 64 + (hi - 0x80) + 1) * room more ≤ 0xD800 ∨
        0xE000 ≤ (code * 64 + (lo - 0x80)) * room more ∧
          (code * 64 + (hi - 0x80) + 1) * room more ≤ 0x110000)

theorem State.start_good : State.Good .start := trivial

/-- A character outside ASCII. -/
def Beyond (c : Nat) : Prop := 0x80 ≤ c ∧ IsScalar c

theorem replacement_beyond : Beyond replacement :=
  ⟨by decide, Or.inr ⟨by decide, by decide⟩⟩

theorem lead_spec (b : Nat) (hb : b < 256) :
    (lead b).2.Good ∧
      (b < 0x80 ∧ (lead b).1 = [b] ∨ 0x80 ≤ b ∧ ∀ c ∈ (lead b).1, Beyond c) := by
  unfold lead
  split
  · next h => exact ⟨trivial, Or.inl ⟨h, rfl⟩⟩
  split
  · next h hrange =>
      refine ⟨⟨by omega, by omega, Or.inl ?_⟩, Or.inr ⟨by omega, fun c hc => by cases hc⟩⟩
      simp only [room]
      omega
  split
  · next h _ hrange =>
      refine ⟨⟨by split <;> omega, by split <;> omega, ?_⟩,
        Or.inr ⟨by omega, fun c hc => by cases hc⟩⟩
      simp only [room]
      split <;> split <;> omega
  split
  · next h _ _ hrange =>
      refine ⟨⟨by split <;> omega, by split <;> omega, ?_⟩,
        Or.inr ⟨by omega, fun c hc => by cases hc⟩⟩
      simp only [room]
      split <;> split <;> omega
  · next h _ _ _ =>
      refine ⟨trivial, Or.inr ⟨by omega, fun c hc => ?_⟩⟩
      rw [List.mem_singleton.mp hc]
      exact replacement_beyond

/-- A byte of ASCII is read as itself, whatever stands before it, and no other
byte leaves a character of ASCII. -/
theorem step_spec {st : State} (hst : st.Good) (b : Nat) (hb : b < 256) :
    (step st b).2.Good ∧ ∃ out, (∀ c ∈ out, Beyond c) ∧
      (b < 0x80 ∧ (step st b).1 = out ++ [b] ∨ 0x80 ≤ b ∧ (step st b).1 = out) := by
  obtain ⟨hgood, hlead⟩ := lead_spec b hb
  cases st with
  | start =>
      refine ⟨hgood, ?_⟩
      rcases hlead with ⟨hlt, hone⟩ | ⟨hge, hall⟩
      · exact ⟨[], (fun c hc => by cases hc), Or.inl ⟨hlt, hone⟩⟩
      · exact ⟨_, hall, Or.inr ⟨hge, rfl⟩⟩
  | inside more code lo hi =>
      obtain ⟨hlo, hhi, hrange⟩ := hst
      by_cases hin : lo ≤ b ∧ b ≤ hi
      · cases more with
        | zero =>
            rw [step, if_pos hin]
            refine ⟨trivial, _, fun c hc => ?_, Or.inr ⟨by omega, rfl⟩⟩
            rw [List.mem_singleton.mp hc]
            simp only [room, Nat.mul_one] at hrange
            unfold Beyond IsScalar
            omega
        | succ more =>
            rw [step, if_pos hin]
            refine ⟨⟨Nat.le_refl _, Nat.le_refl _, ?_⟩, [], (fun c hc => by cases hc),
              Or.inr ⟨by omega, rfl⟩⟩
            have hlow : (code * 64 + (lo - 0x80)) * room (more + 1) ≤
                ((code * 64 + (b - 0x80)) * 64 + (0x80 - 0x80)) * room more := by
              rw [room, ← Nat.mul_assoc]
              exact Nat.mul_le_mul_right _ (by omega)
            have hhigh : ((code * 64 + (b - 0x80)) * 64 + (0xBF - 0x80) + 1) * room more ≤
                (code * 64 + (hi - 0x80) + 1) * room (more + 1) := by
              rw [room, ← Nat.mul_assoc]
              exact Nat.mul_le_mul_right _ (by omega)
            omega
      · have hstep :
            step (.inside more code lo hi) b = (replacement :: (lead b).1, (lead b).2) := by
          cases more <;> exact if_neg hin
        rw [hstep]
        refine ⟨hgood, ?_⟩
        rcases hlead with ⟨hlt, hone⟩ | ⟨hge, hall⟩
        · refine ⟨[replacement], fun c hc => ?_, Or.inl ⟨hlt, by rw [hone]; rfl⟩⟩
          rw [List.mem_singleton.mp hc]
          exact replacement_beyond
        · exact ⟨_, List.forall_mem_cons.mpr ⟨replacement_beyond, hall⟩, Or.inr ⟨hge, rfl⟩⟩

/-- How many characters of ASCII there are. -/
def asciiCount (cs : List Nat) : Nat := cs.countP (· < 0x80)

def asciiBytes (bs : List UInt8) : Nat := asciiCount (bs.map UInt8.toNat)

theorem asciiCount_append (cs cs' : List Nat) :
    asciiCount (cs ++ cs') = asciiCount cs + asciiCount cs' := List.countP_append

theorem asciiBytes_append (bs bs' : List UInt8) :
    asciiBytes (bs ++ bs') = asciiBytes bs + asciiBytes bs' := by
  rw [asciiBytes, List.map_append, asciiCount_append]
  rfl

theorem asciiBytes_cons (b : UInt8) (bs : List UInt8) :
    asciiBytes (b :: bs) = asciiCount [b.toNat] + asciiBytes bs :=
  asciiCount_append [b.toNat] (bs.map UInt8.toNat)

/-- Bytes that add no ASCII do not start with a byte of it. -/
theorem ascii_lost {b : UInt8} {bs bs' : List UInt8}
    (h : asciiBytes (bs ++ b :: bs') = asciiBytes bs) : ¬ b.toNat < 0x80 := by
  intro hlt
  have hone : asciiCount [b.toNat] = 1 := List.countP_eq_length.mpr fun c hc => by
    rw [List.mem_singleton.mp hc]
    exact decide_eq_true hlt
  rw [asciiBytes_append, asciiBytes_cons, hone] at h
  omega

theorem asciiCount_beyond {cs : List Nat} (h : ∀ c ∈ cs, Beyond c) : asciiCount cs = 0 := by
  rw [asciiCount, List.countP_eq_zero]
  intro c hc
  have := (h c hc).1
  rw [decide_eq_true_eq]
  omega

theorem decodeFrom_ascii {st : State} (hst : st.Good) (bs : List UInt8) :
    asciiCount (decodeFrom st bs) = asciiBytes bs := by
  induction bs generalizing st with
  | nil => cases st <;> rfl
  | cons b bs ih =>
      obtain ⟨hgood, out, hout, hread⟩ := step_spec hst b.toNat b.toNat_lt
      rw [decodeFrom_cons, asciiCount_append, ih hgood, asciiBytes_cons]
      rcases hread with ⟨hlt, hstep⟩ | ⟨hge, hstep⟩
      · rw [hstep, asciiCount_append, asciiCount_beyond hout, Nat.zero_add]
      · have hnone : asciiCount [b.toNat] = 0 := by
          rw [asciiCount, List.countP_eq_zero]
          intro c hc
          rw [List.mem_singleton.mp hc, decide_eq_true_eq]
          omega
        rw [hstep, asciiCount_beyond hout, hnone]

theorem decodeFrom_scalar {st : State} (hst : st.Good) (bs : List UInt8) :
    ∀ c ∈ decodeFrom st bs, IsScalar c := by
  induction bs generalizing st with
  | nil =>
      intro c hc
      cases st with
      | start => cases hc
      | inside => rw [List.mem_singleton.mp hc]; exact replacement_beyond.2
  | cons b bs ih =>
      obtain ⟨hgood, out, hout, hread⟩ := step_spec hst b.toNat b.toNat_lt
      intro c hc
      rw [decodeFrom_cons, List.mem_append] at hc
      rcases hc with hc | hc
      · rcases hread with ⟨hlt, hstep⟩ | ⟨-, hstep⟩
        · rw [hstep, List.mem_append] at hc
          rcases hc with hc | hc
          · exact (hout c hc).2
          · rw [List.mem_singleton.mp hc]
            exact Or.inl (by omega)
        · rw [hstep] at hc
          exact (hout c hc).2
      · exact ih hgood c hc

/-- A text holds a character of ASCII for each such byte. -/
theorem ascii_text (bs : List UInt8) : asciiCount (text bs) = asciiBytes bs := by
  have hall : asciiCount (decode bs) = asciiBytes bs := decodeFrom_ascii State.start_good bs
  unfold text
  split
  · next h => rw [← hall, h]
  · next c cs h =>
      rw [← hall, h]
      split
      · next hmark => rw [hmark, asciiCount, asciiCount, List.countP_cons_of_neg (by decide)]
      · rfl

theorem text_scalar (bs : List UInt8) : ∀ c ∈ text bs, IsScalar c := by
  have hall : ∀ c ∈ decode bs, IsScalar c := decodeFrom_scalar State.start_good bs
  unfold text
  split
  · exact fun c hc => by cases hc
  · next h =>
      rw [h] at hall
      split
      · exact fun c hc => hall c (List.mem_cons_of_mem _ hc)
      · exact hall

/-! ## What was written -/

theorem toNat_byte {n : Nat} (h : n < 256) : (UInt8.ofNat n).toNat = n := by
  rw [UInt8.toNat_ofNat']
  exact Nat.mod_eq_of_lt h

theorem lead_one {b : Nat} (h : b < 0x80) : lead b = ([b], .start) := if_pos h

theorem lead_two {b : Nat} (hlo : 0xC2 ≤ b) (hhi : b ≤ 0xDF) :
    lead b = ([], .inside 0 (b - 0xC0) 0x80 0xBF) := by
  rw [lead, if_neg (by omega), if_pos ⟨hlo, hhi⟩]

theorem lead_three {b : Nat} (hlo : 0xE0 ≤ b) (hhi : b ≤ 0xEF) :
    lead b = ([], .inside 1 (b - 0xE0) (if b = 0xE0 then 0xA0 else 0x80)
      (if b = 0xED then 0x9F else 0xBF)) := by
  rw [lead, if_neg (by omega), if_neg (by omega), if_pos ⟨hlo, hhi⟩]

theorem lead_four {b : Nat} (hlo : 0xF0 ≤ b) (hhi : b ≤ 0xF4) :
    lead b = ([], .inside 2 (b - 0xF0) (if b = 0xF0 then 0x90 else 0x80)
      (if b = 0xF4 then 0x8F else 0xBF)) := by
  rw [lead, if_neg (by omega), if_neg (by omega), if_neg (by omega), if_pos ⟨hlo, hhi⟩]

theorem step_last {code lo hi b : Nat} (hlo : lo ≤ b) (hhi : b ≤ hi) :
    step (.inside 0 code lo hi) b = ([code * 64 + (b - 0x80)], .start) := if_pos ⟨hlo, hhi⟩

theorem step_more {more code lo hi b : Nat} (hlo : lo ≤ b) (hhi : b ≤ hi) :
    step (.inside (more + 1) code lo hi) b =
      ([], .inside more (code * 64 + (b - 0x80)) 0x80 0xBF) := if_pos ⟨hlo, hhi⟩

/-- A character written is read back, and the reader is between characters again. -/
theorem decodeFrom_encodeChar {c : Nat} (hc : IsScalar c) (bs : List UInt8) :
    decodeFrom .start (encodeChar c ++ bs) = c :: decodeFrom .start bs := by
  have hstart : ∀ b, step .start b = lead b := fun _ => rfl
  have hlast : 0x80 + c % 64 < 256 := by omega
  have hmid : 0x80 + c / 64 % 64 < 256 := by omega
  unfold IsScalar at hc
  unfold encodeChar
  split
  · next h =>
      rw [List.singleton_append, decodeFrom_cons, toNat_byte (by omega), hstart, lead_one h]
      rfl
  split
  · next h =>
      rw [List.cons_append, decodeFrom_cons, toNat_byte (by omega), hstart,
        lead_two (by omega) (by omega), List.singleton_append, decodeFrom_cons, toNat_byte hlast,
        step_last (by omega) (by omega)]
      have hwhole : (0xC0 + c / 64 - 0xC0) * 64 + (0x80 + c % 64 - 0x80) = c := by omega
      rw [hwhole]
      rfl
  split
  · next h =>
      rw [List.cons_append, decodeFrom_cons, toNat_byte (by omega), hstart,
        lead_three (by omega) (by omega), List.cons_append, decodeFrom_cons, toNat_byte hmid,
        step_more (by split <;> omega) (by split <;> omega), List.singleton_append,
        decodeFrom_cons, toNat_byte hlast, step_last (by omega) (by omega)]
      have hwhole : ((0xE0 + c / 4096 - 0xE0) * 64 + (0x80 + c / 64 % 64 - 0x80)) * 64 +
          (0x80 + c % 64 - 0x80) = c := by omega
      rw [hwhole]
      rfl
  · next h =>
      rw [List.cons_append, decodeFrom_cons, toNat_byte (by omega), hstart,
        lead_four (by omega) (by omega), List.cons_append, decodeFrom_cons,
        toNat_byte (by omega), step_more (by split <;> omega) (by split <;> omega),
        List.cons_append, decodeFrom_cons, toNat_byte hmid,
        step_more (by omega) (by omega), List.singleton_append,
        decodeFrom_cons, toNat_byte hlast, step_last (by omega) (by omega)]
      have hwhole : (((0xF0 + c / 262144 - 0xF0) * 64 + (0x80 + c / 4096 % 64 - 0x80)) * 64 +
          (0x80 + c / 64 % 64 - 0x80)) * 64 + (0x80 + c % 64 - 0x80) = c := by omega
      rw [hwhole]
      rfl

theorem decode_encode {cs : List Nat} (hcs : ∀ c ∈ cs, IsScalar c) : decode (encode cs) = cs := by
  induction cs with
  | nil => rfl
  | cons c cs ih =>
      rw [List.forall_mem_cons] at hcs
      rw [encode, List.flatMap_cons, decode, decodeFrom_encodeChar hcs.1]
      exact congrArg (c :: ·) (ih hcs.2)

theorem ascii_encode {cs : List Nat} (hcs : ∀ c ∈ cs, IsScalar c) :
    asciiBytes (encode cs) = asciiCount cs := by
  rw [← decodeFrom_ascii State.start_good, ← decode, decode_encode hcs]

/-- If what was read of `bs` is written as `bs'`, the two have as many bytes of ASCII. -/
theorem ascii_of_encode_text {bs bs' : List UInt8} (h : encode (text bs) = bs') :
    asciiBytes bs = asciiBytes bs' := by
  rw [← h, ascii_encode (text_scalar bs), ascii_text]

/-- The bytes of a text that has no byte order mark at its start. -/
def IsText (bs : List UInt8) : Prop :=
  ∃ cs, (∀ c ∈ cs, IsScalar c) ∧ cs.head? ≠ some byteOrderMark ∧ bs = encode cs

theorem encode_text_iff (bs : List UInt8) : encode (text bs) = bs ↔ IsText bs := by
  constructor
  · intro h
    refine ⟨text bs, text_scalar bs, ?_, h.symm⟩
    have hread : decode bs = text bs := by
      conv_lhs => rw [← h]
      exact decode_encode (text_scalar bs)
    intro hmark
    rw [text, hread] at hmark
    split at hmark
    · cases hmark
    · next c cs hcs =>
        -- a mark that was dropped cannot be there still
        have hmark' : c = byteOrderMark := by
          split at hmark
          · next h => exact h
          · exact Option.some.inj hmark
        have hdrop : text bs = cs := by
          rw [text, hread, hcs]
          exact if_pos hmark'
        exact absurd (hcs.symm.trans hdrop) (List.cons_ne_self c cs)
  · rintro ⟨cs, hcs, hmark, rfl⟩
    have htext : text (encode cs) = cs := by
      rw [text, decode_encode hcs]
      cases cs with
      | nil => rfl
      | cons c cs => exact if_neg fun h => hmark (congrArg some h)
    rw [htext]

end Utf8
