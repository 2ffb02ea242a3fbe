import AsioServer.Ref.Json

/-!
# `vsnprintf`

The conversions that occur in the sources: `%%`, `%s` of a `char*` and `%d` of
an `int`. A conversion that finds no argument of its type reads one that was
never passed. What stands between a percent sign and a character that makes no
conversion with it, and a percent sign at the end, are not defined either, and
count as the same fault.
-/

namespace AsioServer

/-- An argument behind the format: for a `char*` the memory it leads to. -/
inductive Arg where
  | int (n : Int)
  | str (s : Bytes)
  deriving DecidableEq

def percent : UInt8 := 37

/-- What the conversion with this character prints, and the arguments left. -/
def conversion (conv : UInt8) (args : List Arg) : Except Fault (Bytes × List Arg) :=
  if conv = percent then .ok ([percent], args)
  else
    match args with
    | .str s :: args => if conv = 115 then .ok (cStr s, args) else .error .indeterminate
    | .int n :: args => if conv = 100 then .ok (decimal n, args) else .error .indeterminate
    | [] => .error .indeterminate

/-- The whole text of a format. -/
def printf : Bytes → List Arg → Except Fault Bytes
  | [], _ => .ok []
  | [c], _ => if c = percent then .error .indeterminate else .ok [c]
  | c :: conv :: fmt, args =>
      if c = percent then
        (conversion conv args).bind fun printed => (printf fmt printed.2).map (printed.1 ++ ·)
      else (printf (conv :: fmt) args).map (c :: ·)

/-- `vsnprintf(dest, size, fmt, ap)`: the string it leaves in `dest`. -/
def vsnprintf (size : Nat) (fmt : Bytes) (args : List Arg) : Except Fault Bytes :=
  (printf (cStr fmt) args).map (·.take (size - 1))

example : vsnprintf 6 (ascii "%d%%:%s") [.int 12, .str (ascii "abc")] = .ok (ascii "12%:a") := by
  decide

/-! ## Texts without a percent sign -/

theorem map_eq_ok {α β : Type} {x : Except Fault α} {f : α → β} {b : β} :
    x.map f = .ok b ↔ ∃ a, x = .ok a ∧ f a = b := by
  cases x <;> simp [Except.map]

theorem printf_cons {c : UInt8} (hc : c ≠ percent) (fmt : Bytes) (args : List Arg) :
    printf (c :: fmt) args = (printf fmt args).map (c :: ·) := by
  cases fmt with
  | nil => simp [printf, hc, Except.map]
  | cons conv fmt => rw [printf, if_neg hc]

theorem printf_percent (conv : UInt8) (fmt : Bytes) (args : List Arg) :
    printf (percent :: conv :: fmt) args =
      (conversion conv args).bind fun printed => (printf fmt printed.2).map (printed.1 ++ ·) := by
  rw [printf, if_pos rfl]

theorem printf_percent_percent (fmt : Bytes) (args : List Arg) :
    printf (percent :: percent :: fmt) args = (printf fmt args).map (percent :: ·) := by
  rw [printf_percent]
  unfold conversion
  rfl

theorem printf_percent_s (fmt s : Bytes) (args : List Arg) :
    printf (percent :: 115 :: fmt) (.str s :: args) = (printf fmt args).map (cStr s ++ ·) := by
  rw [printf_percent]
  rfl

/-- Without a percent sign a format is its own text. -/
theorem printf_plain {fmt : Bytes} (h : percent ∉ fmt) (args : List Arg) :
    printf fmt args = .ok fmt := by
  induction fmt with
  | nil => rfl
  | cons c fmt ih =>
      rw [List.mem_cons, not_or] at h
      rw [printf_cons (Ne.symm h.1), ih h.2]
      rfl

/-- Without arguments nothing gets longer, and a percent sign costs a
character. -/
theorem printf_length : ∀ {fmt text : Bytes}, printf fmt [] = .ok text →
    text.length ≤ fmt.length ∧ (percent ∈ fmt → text.length < fmt.length)
  | [], text, h => by
      cases h
      exact ⟨Nat.zero_le _, fun hmem => by cases hmem⟩
  | [c], text, h => by
      by_cases hc : c = percent
      · rw [printf, if_pos hc] at h
        cases h
      · rw [printf, if_neg hc] at h
        cases h
        exact ⟨Nat.le_refl _, fun hmem => absurd (List.mem_singleton.mp hmem) (Ne.symm hc)⟩
  | c :: conv :: fmt, text, h => by
      by_cases hc : c = percent
      · subst hc
        rw [printf_percent] at h
        obtain ⟨printed, hconv, h⟩ := bind_eq_ok.mp h
        unfold conversion at hconv
        split at hconv
        · cases hconv
          obtain ⟨rest, hrest, rfl⟩ := map_eq_ok.mp h
          have hle := (printf_length hrest).1
          simp only [List.length_append, List.length_cons, List.length_nil]
          exact ⟨by omega, fun _ => by omega⟩
        · cases hconv
      · rw [printf_cons hc] at h
        obtain ⟨rest, hrest, rfl⟩ := map_eq_ok.mp h
        obtain ⟨hle, hlt⟩ := printf_length hrest
        simp only [List.length_cons] at hle hlt ⊢
        refine ⟨by omega, fun hmem => ?_⟩
        have := hlt ((List.mem_cons.mp hmem).resolve_left (Ne.symm hc))
        omega

/-- What is left of a text fits its array. -/
theorem vsnprintf_length {size : Nat} {fmt text : Bytes} {args : List Arg}
    (h : vsnprintf size fmt args = .ok text) : text.length ≤ size - 1 := by
  obtain ⟨full, -, rfl⟩ := map_eq_ok.mp h
  exact List.length_take_le (size - 1) full

end AsioServer
