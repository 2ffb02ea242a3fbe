import AsioServer.Ref.SqlText

/-!
# A text that is formatted again

`connection::execute` has a text formatted three times and
`sqlstatement::execute` twice, each time but the first without arguments. A text
without a percent sign comes out of that as it went in. With one it does not:
what is left of `%%` is taken for the start of a conversion, and so is a percent
sign that came in with an argument.
-/

namespace AsioServer

/-! ## Formats of strings -/

/-- A piece of a format that takes strings only. -/
inductive Piece where
  | lit (c : UInt8)
  /-- `%%` -/
  | percent
  /-- `%s` -/
  | str
  deriving DecidableEq

def Piece.text : Piece → Bytes
  | .lit c => [c]
  | .percent => [AsioServer.percent, AsioServer.percent]
  | .str => [AsioServer.percent, 115]

/-- A literal character is no percent sign and does not end the string. -/
def Piece.Valid : Piece → Prop
  | .lit c => c ≠ AsioServer.percent ∧ c ≠ 0
  | .percent | .str => True

def formatOf (pieces : List Piece) : Bytes := pieces.flatMap Piece.text

theorem cStr_formatOf {pieces : List Piece} (h : ∀ p ∈ pieces, p.Valid) :
    cStr (formatOf pieces) = formatOf pieces := by
  refine cStr_of_nulFree fun hnul => ?_
  obtain ⟨p, hp, hc⟩ := List.mem_flatMap.mp hnul
  have hvalid := h p hp
  cases p with
  | lit d => exact hvalid.2 (List.mem_singleton.mp hc).symm
  | percent | str => revert hc; decide

/-- No `%%` in the format, and no percent sign in an argument it takes. -/
def PercentFree (pieces : List Piece) (args : List Bytes) : Prop :=
  Piece.percent ∉ pieces ∧ ∀ s ∈ args.take (pieces.count .str), percent ∉ cStr s

/-- With an argument for each `%s` the text is defined, and it has a percent
sign only from a `%%` or from such an argument. -/
theorem printf_formatOf {pieces : List Piece} (h : ∀ p ∈ pieces, p.Valid) :
    ∀ args : List Bytes, pieces.count .str ≤ args.length →
      ∃ text, printf (formatOf pieces) (args.map .str) = .ok text ∧ 0 ∉ text ∧
        (percent ∉ text ↔ PercentFree pieces args) := by
  unfold PercentFree
  induction pieces with
  | nil =>
      intro args _
      exact ⟨[], rfl, by simp, by simp⟩
  | cons p pieces ih =>
      have ih := ih fun q hq => h q (List.mem_cons_of_mem _ hq)
      intro args hargs
      cases p with
      | lit c =>
          obtain ⟨hc, hc0⟩ := h (.lit c) List.mem_cons_self
          rw [List.count_cons_of_ne (by simp)] at hargs ⊢
          obtain ⟨text, htext, hnul, hiff⟩ := ih args hargs
          refine ⟨c :: text, ?_, by simp [hnul, Ne.symm hc0], ?_⟩
          · show printf (c :: formatOf pieces) _ = _
            rw [printf_cons hc, htext]
            rfl
          · simpa [Ne.symm hc] using hiff
      | percent =>
          rw [List.count_cons_of_ne (by simp)] at hargs ⊢
          obtain ⟨text, htext, hnul, -⟩ := ih args hargs
          refine ⟨percent :: text, ?_, by simp [hnul, percent], by simp⟩
          show printf (percent :: percent :: formatOf pieces) _ = _
          rw [printf_percent_percent, htext]
          rfl
      | str =>
          rw [List.count_cons_self] at hargs ⊢
          cases args with
          | nil => simp at hargs
          | cons s args =>
              obtain ⟨text, htext, hnul, hiff⟩ := ih args (by simpa using hargs)
              refine ⟨cStr s ++ text, ?_, by simp [hnul, nul_notMem_cStr], ?_⟩
              · show printf (percent :: 115 :: formatOf pieces) (.str s :: args.map .str) = _
                rw [printf_percent_s, htext]
                rfl
              · rw [List.mem_append, not_or, hiff, List.take_succ_cons, List.forall_mem_cons]
                simp only [List.mem_cons, reduceCtorEq, false_or]
                exact and_left_comm

/-! ## Formatting again -/

/-- A text that fits, formatted without arguments, comes out as it is exactly
when it has no percent sign. -/
theorem vsnprintf_again {text : Bytes} (hlen : text.length < sqlSize) (hnul : 0 ∉ text) :
    vsnprintf sqlSize text [] = .ok text ↔ percent ∉ text := by
  rw [vsnprintf, cStr_of_nulFree hnul, map_eq_ok]
  constructor
  · rintro ⟨text', hprintf, htake⟩ hmem
    have hlt := (printf_length hprintf).2 hmem
    have hle := congrArg List.length htake
    rw [List.length_take] at hle
    omega
  · intro hmem
    exact ⟨text, printf_plain hmem [], List.take_of_length_le (by omega)⟩

theorem Sqlstatement.formatExecute_eq {fmt text : Bytes} {args : List Arg}
    (htext : vsnprintf sqlSize fmt args = .ok text) :
    Sqlstatement.formatExecute fmt args = vsnprintf sqlSize text [] := by
  unfold Sqlstatement.formatExecute Sqlstatement.formatPrepare
  rw [htext]
  rfl

theorem Connection.formatExecute_eq {fmt text : Bytes} {args : List Arg}
    (htext : vsnprintf sqlSize fmt args = .ok text) :
    Connection.formatExecute fmt args = Sqlstatement.formatExecute text [] := by
  unfold Connection.formatExecute
  rw [htext]
  rfl

/-- Formatting twice more gives the text back exactly when formatting once more
does. -/
theorem formatExecute_again {text : Bytes} (hlen : text.length < sqlSize) (hnul : 0 ∉ text) :
    Sqlstatement.formatExecute text [] = .ok text ↔ percent ∉ text := by
  constructor
  · intro htwice
    by_contra hmem
    -- What is left of a text with a percent sign is shorter, also after the next time.
    cases honce : vsnprintf sqlSize text [] with
    | error f =>
        rw [Sqlstatement.formatExecute, honce] at htwice
        cases htwice
    | ok once =>
        rw [Sqlstatement.formatExecute_eq honce] at htwice
        obtain ⟨once', hprintf, htake⟩ := map_eq_ok.mp honce
        rw [cStr_of_nulFree hnul] at hprintf
        obtain ⟨text', hprintf', htake'⟩ := map_eq_ok.mp htwice
        have hlt := (printf_length hprintf).2 hmem
        have hle := (printf_length hprintf').1
        have hcStr := (List.takeWhile_sublist (· != 0) (l := once)).length_le
        have hfirst := congrArg List.length htake
        have hsecond := congrArg List.length htake'
        rw [List.length_take] at hfirst hsecond
        rw [cStr] at hle
        omega
  · intro hmem
    have honce := (vsnprintf_again hlen hnul).mpr hmem
    rw [Sqlstatement.formatExecute_eq honce, honce]

/-- The text of a statement reaches its translation as formatted exactly when
the format has no `%%` and no argument it takes has a percent sign, through
`connection::execute` as through `sqlstatement::execute`. -/
theorem formatted_once_iff (pieces : List Piece) (args : List Bytes)
    (h : ∀ p ∈ pieces, p.Valid) (hargs : pieces.count .str ≤ args.length) :
    ∃ text, printf (formatOf pieces) (args.map .str) = .ok text ∧
      (text.length < sqlSize →
        (Connection.formatExecute (formatOf pieces) (args.map .str) = .ok text ↔
          PercentFree pieces args) ∧
        (Sqlstatement.formatExecute (formatOf pieces) (args.map .str) = .ok text ↔
          PercentFree pieces args)) := by
  obtain ⟨text, htext, hnul, hiff⟩ := printf_formatOf h args hargs
  refine ⟨text, htext, fun hlen => ?_⟩
  have hfirst : vsnprintf sqlSize (formatOf pieces) (args.map .str) = .ok text := by
    rw [vsnprintf, cStr_formatOf h, htext]
    exact congrArg Except.ok (List.take_of_length_le (by omega))
  constructor
  · rw [Connection.formatExecute_eq hfirst, formatExecute_again hlen hnul, hiff]
  · rw [Sqlstatement.formatExecute_eq hfirst, vsnprintf_again hlen hnul, hiff]

theorem formatted_once_iff_name :
    ∃ text, printf (formatOf [.lit 61, .str]) [.str (ascii "a")] = .ok text ∧
      (text.length < sqlSize →
        (Connection.formatExecute (formatOf [.lit 61, .str]) [.str (ascii "a")] = .ok text ↔
          PercentFree [.lit 61, .str] [ascii "a"]) ∧
        (Sqlstatement.formatExecute (formatOf [.lit 61, .str]) [.str (ascii "a")] = .ok text ↔
          PercentFree [.lit 61, .str] [ascii "a"])) :=
  formatted_once_iff [.lit 61, .str] [ascii "a"]
    (fun p hp => by
      rcases List.mem_cons.mp hp with rfl | hp
      · exact ⟨by decide, by decide⟩
      · obtain rfl := List.mem_singleton.mp hp
        trivial)
    (by decide)

/-- The percent sign of an argument. -/
theorem not_formatted_once :
    ¬ ∀ (pieces : List Piece) (args : List Bytes), (∀ p ∈ pieces, p.Valid) →
      pieces.count .str ≤ args.length →
      ∃ text, printf (formatOf pieces) (args.map .str) = .ok text ∧
        (text.length < sqlSize →
          Connection.formatExecute (formatOf pieces) (args.map .str) = .ok text ∧
          Sqlstatement.formatExecute (formatOf pieces) (args.map .str) = .ok text) := by
  intro hall
  obtain ⟨text, htext, honce⟩ := hall [.str] [ascii "5%"]
    (fun p hp => by
      obtain rfl := List.mem_singleton.mp hp
      trivial)
    (by decide)
  have hval : text = ascii "5%" := (Except.ok.inj htext).symm
  subst hval
  have hagain := (honce (by decide)).2
  revert hagain
  decide

end AsioServer
