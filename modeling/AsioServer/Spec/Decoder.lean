import AsioServer.Lib.Framing
import AsioServer.Ref.Memory
import AsioServer.Ref.Const

/-!
# The wire format

A frame is a 2-byte signed id, a 2-byte length and that many payload bytes,
both header fields in network order. A header with an id or a length above
`MAX_LENGTH` ends the stream: nothing behind it is a frame. Lengths are counted
as the sender writes them, from 0 to 65535.
-/

namespace AsioServer

open Framing

/-- A decoded message: its id and its payload. -/
abbrev Message := Int × Bytes

/-- The frame of a message. -/
def encode (msg : Message) : Bytes :=
  beBytes msg.1 ++ beBytes msg.2.length ++ msg.2

theorem length_encode (msg : Message) : (encode msg).length = headTotalLen + msg.2.length := by
  rw [encode, List.length_append]
  rfl

/-- What the bytes at the head of a stream amount to. -/
def frameHead : Bytes → Head UInt8 Message
  | a :: b :: c :: d :: rest =>
      if short (beNat a b) > maxLength ∨ beNat c d > maxLength then .bad
      else if rest.length < beNat c d then .more
      else .frame (short (beNat a b), rest.take (beNat c d)) (rest.drop (beNat c d))
  | _ => .more

theorem frameHead_cons (a b c d : UInt8) (rest : Bytes) :
    frameHead (a :: b :: c :: d :: rest) =
      if short (beNat a b) > maxLength ∨ beNat c d > maxLength then .bad
      else if rest.length < beNat c d then .more
      else .frame (short (beNat a b), rest.take (beNat c d)) (rest.drop (beNat c d)) :=
  rfl

/-- Fewer than four bytes, or a whole header and what follows it. -/
theorem short_or_header (xs : Bytes) :
    xs.length < headTotalLen ∨ ∃ a b c d rest, xs = a :: b :: c :: d :: rest := by
  rcases xs with _ | ⟨a, _ | ⟨b, _ | ⟨c, _ | ⟨d, rest⟩⟩⟩⟩
  case cons.cons.cons.cons => exact Or.inr ⟨a, b, c, d, rest, rfl⟩
  all_goals exact Or.inl (by simp [headTotalLen])

theorem frameHead_short {xs : Bytes} (h : xs.length < headTotalLen) :
    frameHead xs = .more := by
  unfold headTotalLen at h
  rcases xs with _ | ⟨a, _ | ⟨b, _ | ⟨c, _ | ⟨d, rest⟩⟩⟩⟩
  case cons.cons.cons.cons => simp only [List.length_cons] at h; omega
  all_goals rfl

/-- A verdict takes a whole header. -/
theorem header_of_ne_more {xs : Bytes} (h : frameHead xs ≠ .more) :
    ∃ a b c d rest, xs = a :: b :: c :: d :: rest :=
  (short_or_header xs).resolve_left fun hlt => h (frameHead_short hlt)

theorem frameHead_frame_lt {xs rest : Bytes} {msg : Message}
    (h : frameHead xs = .frame msg rest) : rest.length < xs.length := by
  have hne : frameHead xs ≠ .more := by simp [h]
  obtain ⟨a, b, c, d, tl, rfl⟩ := header_of_ne_more hne
  rw [frameHead_cons] at h
  split at h
  · cases h
  · split at h
    · cases h
    · injection h with _ hrest
      rw [← hrest, List.length_drop]
      simp only [List.length_cons]
      omega

theorem frameHead_frame_append {xs rest : Bytes} {msg : Message}
    (h : frameHead xs = .frame msg rest) (ys : Bytes) :
    frameHead (xs ++ ys) = .frame msg (rest ++ ys) := by
  have hne : frameHead xs ≠ .more := by simp [h]
  obtain ⟨a, b, c, d, tl, rfl⟩ := header_of_ne_more hne
  simp only [List.cons_append]
  rw [frameHead_cons] at h ⊢
  split at h
  · cases h
  · next hok =>
      rw [if_neg hok]
      split at h
      · cases h
      · next hlen =>
          injection h with hmsg hrest
          rw [if_neg (by rw [List.length_append]; omega),
            List.take_append_of_le_length (by omega),
            List.drop_append_of_le_length (by omega), hmsg, hrest]

theorem frameHead_bad_append {xs : Bytes} (h : frameHead xs = .bad) (ys : Bytes) :
    frameHead (xs ++ ys) = .bad := by
  have hne : frameHead xs ≠ .more := by simp [h]
  obtain ⟨a, b, c, d, tl, rfl⟩ := header_of_ne_more hne
  simp only [List.cons_append]
  rw [frameHead_cons] at h ⊢
  split at h
  · next hbad => rw [if_pos hbad]
  · split at h <;> cases h

/-- The wire format as a grammar. -/
def wire : Grammar UInt8 Message where
  head := frameHead
  frame_lt := frameHead_frame_lt
  frame_append := frameHead_frame_append
  bad_append := frameHead_bad_append

@[simp] theorem wire_head (xs : Bytes) : wire.head xs = frameHead xs := rfl

/-- The length field of the header a stream starts with, if it starts with
one, is not negative as a signed 16-bit value. -/
def LenNonneg (xs : Bytes) : Prop :=
  ∀ a b c d rest, xs = a :: b :: c :: d :: rest → beNat c d < 32768

theorem lenNonneg_of_append (xs ys : Bytes) (h : LenNonneg (xs ++ ys)) :
    LenNonneg xs := by
  rintro a b c d rest rfl
  exact h a b c d (rest ++ ys) rfl

/-- Every header met by a left-to-right decode has such a length. -/
def LensNonneg (xs : Bytes) : Prop := ∀ x ∈ wire.heads xs, LenNonneg x

end AsioServer
