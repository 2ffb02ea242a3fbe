import Mathlib.Data.List.Basic
import Mathlib.Data.List.Infix
import Mathlib.Tactic.Common

/-!
# Frames cut out of a stream

A `Grammar` says what the bytes at the head of a stream amount to: not yet a
frame, a frame and the bytes behind it, or bytes no frame can start with. Its
two laws are what makes a stream readable in pieces: a frame consumes
something, and a verdict once given survives any bytes that arrive later.

From these alone the decoder of a whole stream is defined, and `decode_append`
says what it does with a stream that arrives in two parts: the second part is
decoded behind the undecoded tail of the first. `Receiver` packages what a
program that reads chunk by chunk has to satisfy for one chunk. `feedAll_out`,
`feedAll_state` and `feedAll_length` carry it to any number of them: whatever
the cut, what is handed on are the messages of the whole stream, and what is
kept back between two chunks is the undecoded tail of the part that arrived.
-/

namespace Framing

variable {α μ ν σ : Type*}

/-- What the symbols at the head of a stream amount to. -/
inductive Head (α μ : Type*) where
  | more
  | bad
  | frame (msg : μ) (rest : List α)

/-- A verdict on the head of every stream, stable under more input. -/
structure Grammar (α μ : Type*) where
  head : List α → Head α μ
  frame_lt : ∀ {xs msg rest}, head xs = .frame msg rest → rest.length < xs.length
  frame_append : ∀ {xs msg rest}, head xs = .frame msg rest →
    ∀ ys, head (xs ++ ys) = .frame msg (rest ++ ys)
  bad_append : ∀ {xs}, head xs = .bad → ∀ ys, head (xs ++ ys) = .bad

/-- The frames of a stream, what is left behind the last of them, and whether
the left part is refused. -/
structure Decoded (α μ : Type*) where
  msgs : List μ
  tail : List α
  bad : Bool

/-- One more frame in front of a decoded stream. -/
def Decoded.cons (msg : μ) (d : Decoded α μ) : Decoded α μ :=
  { d with msgs := msg :: d.msgs }

@[simp] theorem Decoded.cons_msgs (msg : μ) (d : Decoded α μ) :
    (d.cons msg).msgs = msg :: d.msgs := rfl

@[simp] theorem Decoded.cons_tail (msg : μ) (d : Decoded α μ) :
    (d.cons msg).tail = d.tail := rfl

@[simp] theorem Decoded.cons_bad (msg : μ) (d : Decoded α μ) :
    (d.cons msg).bad = d.bad := rfl

/-- The reference decoder: frames are taken from the left until the head of
the stream is no frame. -/
def Grammar.decode (g : Grammar α μ) (xs : List α) : Decoded α μ :=
  match _h : g.head xs with
  | .more => ⟨[], xs, false⟩
  | .bad => ⟨[], xs, true⟩
  | .frame msg rest => (g.decode rest).cons msg
termination_by xs.length
decreasing_by exact g.frame_lt _h

/-- The streams at whose head the decoder looks, in order. -/
def Grammar.heads (g : Grammar α μ) (xs : List α) : List (List α) :=
  match _h : g.head xs with
  | .more => [xs]
  | .bad => [xs]
  | .frame _ rest => xs :: g.heads rest
termination_by xs.length
decreasing_by exact g.frame_lt _h

variable {g : Grammar α μ}

theorem decode_more {xs : List α} (h : g.head xs = .more) :
    g.decode xs = ⟨[], xs, false⟩ := by
  rw [Grammar.decode]
  split <;> simp_all

theorem decode_bad {xs : List α} (h : g.head xs = .bad) :
    g.decode xs = ⟨[], xs, true⟩ := by
  rw [Grammar.decode]
  split <;> simp_all

theorem decode_frame {xs rest : List α} {msg : μ}
    (h : g.head xs = .frame msg rest) :
    g.decode xs = (g.decode rest).cons msg := by
  rw [Grammar.decode]
  split <;> simp_all

theorem heads_stop {xs : List α} (h : ∀ msg rest, g.head xs ≠ .frame msg rest) :
    g.heads xs = [xs] := by
  rw [Grammar.heads]
  split
  · rfl
  · rfl
  · next hf => exact absurd hf (h _ _)

theorem heads_frame {xs rest : List α} {msg : μ}
    (h : g.head xs = .frame msg rest) : g.heads xs = xs :: g.heads rest := by
  rw [Grammar.heads]
  split <;> simp_all

/-- Induction along the decoder: a stream whose head is no frame, or a frame
in front of a stream the statement is known of. -/
theorem Grammar.decode_induction (g : Grammar α μ) {P : List α → Prop}
    (more : ∀ xs, g.head xs = .more → P xs)
    (bad : ∀ xs, g.head xs = .bad → P xs)
    (frame : ∀ xs msg rest, g.head xs = .frame msg rest → P rest → P xs)
    (xs : List α) : P xs := by
  induction hn : xs.length using Nat.strong_induction_on generalizing xs with
  | _ n ih =>
      cases h : g.head xs with
      | more => exact more xs h
      | bad => exact bad xs h
      | frame msg rest =>
          have hlt := g.frame_lt h
          exact frame xs msg rest h (ih rest.length (by omega) rest rfl)

theorem mem_heads_self (g : Grammar α μ) (xs : List α) : xs ∈ g.heads xs := by
  cases h : g.head xs with
  | more => rw [heads_stop (by simp [h])]; simp
  | bad => rw [heads_stop (by simp [h])]; simp
  | frame msg rest => rw [heads_frame h]; simp

/-- The undecoded tail of a stream that was not refused is not yet a frame. -/
theorem head_tail (xs : List α) (h : (g.decode xs).bad = false) :
    g.head (g.decode xs).tail = .more := by
  induction xs using g.decode_induction with
  | more xs hm => rw [decode_more hm]; exact hm
  | bad xs hb => rw [decode_bad hb] at h; cases h
  | frame xs msg rest hf ih => rw [decode_frame hf] at h ⊢; exact ih h

/-- A stream in two parts: the second is decoded behind the tail of the
first. -/
theorem decode_append (xs ys : List α) (h : (g.decode xs).bad = false) :
    g.decode (xs ++ ys) =
      let d := g.decode ((g.decode xs).tail ++ ys)
      ⟨(g.decode xs).msgs ++ d.msgs, d.tail, d.bad⟩ := by
  induction xs using g.decode_induction with
  | more xs hm => rw [decode_more hm]; rfl
  | bad xs hb => rw [decode_bad hb] at h; cases h
  | frame xs msg rest hf ih =>
      rw [decode_frame hf] at h ⊢
      rw [decode_frame (g.frame_append hf ys), ih h]
      rfl

/-- A refused stream stays refused, and no later input adds a frame. -/
theorem decode_append_bad (xs ys : List α) (h : (g.decode xs).bad = true) :
    g.decode (xs ++ ys) =
      ⟨(g.decode xs).msgs, (g.decode xs).tail ++ ys, true⟩ := by
  induction xs using g.decode_induction with
  | more xs hm => rw [decode_more hm] at h; cases h
  | bad xs hb => rw [decode_bad hb, decode_bad (g.bad_append hb ys)]
  | frame xs msg rest hf ih =>
      rw [decode_frame hf] at h ⊢
      rw [decode_frame (g.frame_append hf ys), ih h]
      rfl

/-- The messages of a part come first among those of the whole. -/
theorem decode_msgs_append (xs ys : List α) :
    (g.decode xs).msgs <+: (g.decode (xs ++ ys)).msgs := by
  cases h : (g.decode xs).bad with
  | true =>
      rw [decode_append_bad xs ys h]
  | false =>
      rw [decode_append xs ys h]
      exact List.prefix_append _ _

/-- A property of heads that a longer stream passes on to a shorter one holds
of the heads of a prefix. -/
theorem heads_of_append {P : List α → Prop}
    (hP : ∀ xs ys, P (xs ++ ys) → P xs) (xs ys : List α)
    (h : ∀ x ∈ g.heads (xs ++ ys), P x) : ∀ x ∈ g.heads xs, P x := by
  induction xs using g.decode_induction with
  | more xs hm | bad xs hm =>
      rw [heads_stop (by simp [hm])]
      simpa using hP xs ys (h _ (mem_heads_self g _))
  | frame xs msg rest hf ih =>
      rw [heads_frame (g.frame_append hf ys)] at h
      rw [heads_frame hf]
      intro x hx
      rcases List.mem_cons.mp hx with rfl | hx
      · exact hP x ys (h _ List.mem_cons_self)
      · exact ih (fun y hy => h y (List.mem_cons_of_mem _ hy)) x hx

/-- And the heads met behind the tail of the first part are heads of the
whole. -/
theorem heads_tail_append {P : List α → Prop} (xs ys : List α)
    (hb : (g.decode xs).bad = false) (h : ∀ x ∈ g.heads (xs ++ ys), P x) :
    ∀ x ∈ g.heads ((g.decode xs).tail ++ ys), P x := by
  induction xs using g.decode_induction with
  | more xs hm => rw [decode_more hm]; exact h
  | bad xs hm => rw [decode_bad hm] at hb; cases hb
  | frame xs msg rest hf ih =>
      rw [decode_frame hf] at hb ⊢
      rw [heads_frame (g.frame_append hf ys)] at h
      exact ih hb (fun y hy => h y (List.mem_cons_of_mem _ hy))

/-! ## Encoders -/

/-- An encoder the grammar reads back, whatever follows the frame. -/
def Reads (g : Grammar α μ) (msg : μ) (frame : List α) : Prop :=
  ∀ ys, g.head (frame ++ ys) = .frame msg ys

/-- A stream of encoded messages decodes to the messages, with nothing left
over. -/
theorem decode_encoded (hnil : g.head [] = .more) {msgs : List μ}
    {frames : List (List α)} (h : List.Forall₂ (Reads g) msgs frames) :
    g.decode frames.flatten = ⟨msgs, [], false⟩ := by
  induction h with
  | nil => exact decode_more hnil
  | cons hmsg _ ih => rw [List.flatten_cons, decode_frame (hmsg _), ih]; rfl

/-- What one delivery did: the state left behind, what was handed on, and
whether the program goes on reading. -/
structure Fed (σ ν : Type*) where
  state : σ
  out : List ν
  live : Bool

/-- What a program that is handed chunks has to satisfy for one of them.
`Inv s held` says that in state `s` exactly the symbols `held` are kept back,
`Stop s` what is left of a program that met a refused head, and `emit` what is
handed on for a frame. `Ok` restricts the heads that may be met and `Chunk` the
chunks. -/
structure Receiver (g : Grammar α μ) (recv : σ → List α → Fed σ ν) (emit : μ → ν)
    (Inv : σ → List α → Prop) (Stop : σ → Prop) (Ok Chunk : List α → Prop) :
    Prop where
  deliver : ∀ s held c, Inv s held → g.head held = .more → Chunk c →
    (∀ x ∈ g.heads (held ++ c), Ok x) →
    (recv s c).out = (g.decode (held ++ c)).msgs.map emit ∧
      (recv s c).live = !(g.decode (held ++ c)).bad ∧
      ((g.decode (held ++ c)).bad = false →
        Inv (recv s c).state (g.decode (held ++ c)).tail) ∧
      ((g.decode (held ++ c)).bad = true → Stop (recv s c).state)

/-- The deliveries of a run, one for each chunk until the program stops
reading. -/
def feedAll (recv : σ → List α → Fed σ ν) : σ → List (List α) → List (Fed σ ν)
  | _, [] => []
  | s, c :: cs =>
      recv s c :: if (recv s c).live then feedAll recv (recv s c).state cs else []

variable {recv : σ → List α → Fed σ ν} {emit : μ → ν} {Inv : σ → List α → Prop}
  {Stop : σ → Prop} {Ok Chunk : List α → Prop}

theorem mem_feedAll {cs : List (List α)} :
    ∀ {s : σ} {f : Fed σ ν}, f ∈ feedAll recv s cs → ∃ t c, f = recv t c := by
  induction cs with
  | nil => intro s f hf; cases hf
  | cons c cs ih =>
      intro s f hf
      rw [feedAll] at hf
      rcases List.mem_cons.mp hf with rfl | hf
      · exact ⟨s, c, rfl⟩
      · split at hf
        · exact ih hf
        · cases hf

/-- What a run hands on does not depend on the cut. -/
theorem feedAll_out (hr : Receiver g recv emit Inv Stop Ok Chunk)
    (hOk : ∀ xs ys, Ok (xs ++ ys) → Ok xs) {cs : List (List α)} :
    ∀ {s : σ} {held : List α}, Inv s held → g.head held = .more →
    (∀ c ∈ cs, Chunk c) → (∀ x ∈ g.heads (held ++ cs.flatten), Ok x) →
    (feedAll recv s cs).flatMap Fed.out =
      (g.decode (held ++ cs.flatten)).msgs.map emit := by
  induction cs with
  | nil =>
      intro s held _ hm _ _
      simp [feedAll, decode_more hm]
  | cons c cs ih =>
      intro s held hI hm hc hok
      rw [List.flatten_cons, ← List.append_assoc] at hok ⊢
      obtain ⟨hout, hlive, hInv, -⟩ := hr.deliver s held c hI hm
        (hc c List.mem_cons_self) (heads_of_append hOk _ _ hok)
      cases hb : (g.decode (held ++ c)).bad with
      | true =>
          rw [decode_append_bad _ _ hb]
          simp [feedAll, hlive, hb, hout]
      | false =>
          have htail := ih (hInv hb) (head_tail _ hb)
            (fun d hd => hc d (List.mem_cons_of_mem _ hd))
            (heads_tail_append _ _ hb hok)
          rw [decode_append _ _ hb]
          simp [feedAll, hlive, hb, hout, htail]

/-- Each delivery of a run leaves the program with exactly the undecoded tail
of what arrived so far, or stops it at the first refused head. -/
theorem feedAll_state (hr : Receiver g recv emit Inv Stop Ok Chunk)
    (hOk : ∀ xs ys, Ok (xs ++ ys) → Ok xs) {cs : List (List α)} :
    ∀ {s : σ} {held : List α}, Inv s held → g.head held = .more →
    (∀ c ∈ cs, Chunk c) → (∀ x ∈ g.heads (held ++ cs.flatten), Ok x) →
    ∀ k f, (feedAll recv s cs)[k]? = some f →
      ((g.decode (held ++ (cs.take (k + 1)).flatten)).bad = false →
        Inv f.state (g.decode (held ++ (cs.take (k + 1)).flatten)).tail) ∧
      ((g.decode (held ++ (cs.take (k + 1)).flatten)).bad = true →
        Stop f.state ∧ (feedAll recv s cs).length = k + 1) := by
  induction cs with
  | nil => intro s held _ _ _ _ k f hf; simp [feedAll] at hf
  | cons c cs ih =>
      intro s held hI hm hc hok k f hf
      rw [List.flatten_cons, ← List.append_assoc] at hok
      obtain ⟨-, hlive, hInv, hStop⟩ := hr.deliver s held c hI hm
        (hc c List.mem_cons_self) (heads_of_append hOk _ _ hok)
      rw [List.take_succ_cons, List.flatten_cons, ← List.append_assoc]
      cases k with
      | zero =>
          obtain rfl : recv s c = f := by simpa [feedAll] using hf
          simp only [List.take_zero, List.flatten_nil, List.append_nil]
          exact ⟨hInv, fun hb => ⟨hStop hb, by simp [feedAll, hlive, hb]⟩⟩
      | succ k =>
          cases hb : (g.decode (held ++ c)).bad with
          | true => simp [feedAll, hlive, hb] at hf
          | false =>
              have hf' : (feedAll recv (recv s c).state cs)[k]? = some f := by
                simpa [feedAll, hlive, hb] using hf
              have h := ih (hInv hb) (head_tail _ hb)
                (fun d hd => hc d (List.mem_cons_of_mem _ hd))
                (heads_tail_append _ _ hb hok) k f hf'
              rw [decode_append _ _ hb]
              simpa [feedAll, hlive, hb] using h

/-- Without a refused head every chunk is delivered. -/
theorem feedAll_length (hr : Receiver g recv emit Inv Stop Ok Chunk)
    (hOk : ∀ xs ys, Ok (xs ++ ys) → Ok xs) {cs : List (List α)} :
    ∀ {s : σ} {held : List α}, Inv s held → g.head held = .more →
    (∀ c ∈ cs, Chunk c) → (∀ x ∈ g.heads (held ++ cs.flatten), Ok x) →
    (g.decode (held ++ cs.flatten)).bad = false →
    (feedAll recv s cs).length = cs.length := by
  induction cs with
  | nil => intros; rfl
  | cons c cs ih =>
      intro s held hI hm hc hok hgood
      rw [List.flatten_cons, ← List.append_assoc] at hok hgood
      obtain ⟨-, hlive, hInv, -⟩ := hr.deliver s held c hI hm
        (hc c List.mem_cons_self) (heads_of_append hOk _ _ hok)
      cases hb : (g.decode (held ++ c)).bad with
      | true => rw [decode_append_bad _ _ hb] at hgood; cases hgood
      | false =>
          rw [decode_append _ _ hb] at hgood
          have h := ih (hInv hb) (head_tail _ hb)
            (fun d hd => hc d (List.mem_cons_of_mem _ hd))
            (heads_tail_append _ _ hb hok) hgood
          simp [feedAll, hlive, hb, h]

end Framing
