import AsioServer.Proofs.Placeholders

/-!
# What the translation does to a string literal

No replacement touches a quote, so a literal is translated as if it stood alone,
but for the two replacements that are left out where the whole text has
`str_to_date` or `sysdate()`. And each replacement adds a character that none
after it takes away, so a literal comes out as it went in only if none of the
replacements finds anything in it.
-/

namespace AsioServer

def quote : UInt8 := 39

/-- The literal that opens behind as many quotes is the same. -/
def LiteralKept (pre lit out : Bytes) : Prop :=
  ∃ pre' post', out = pre' ++ quote :: (lit ++ quote :: post') ∧
    pre'.count quote = pre.count quote

/-- No replacement finds anything in a literal of this text. -/
structure NothingReplaced (sql lit : Bytes) : Prop where
  param : ∀ k : Nat, 1 ≤ k → k ≤ maxParams → ¬ colon :: decimal k <:+: lit
  toDate : ¬ ascii "str_to_date" <:+: sql → ¬ ascii "to_date" <:+: lit
  toChar : ¬ ascii "to_char" <:+: lit
  dateTime : ¬ ascii "yyyy-mm-dd hh24:mi:ss" <:+: lit
  timeStamp : ¬ ascii "yyyymmddhh24miss" <:+: lit
  sysdate : ¬ ascii "sysdate()" <:+: sql → ¬ ascii "sysdate" <:+: lit

/-! ## The rules -/

theorem forall_mem_unless {α : Type} (c : Bool) {a : α} {p : α → Prop} :
    (∀ x ∈ if c then [] else [a], p x) ↔ (¬ c → p a) := by
  cases c <;> simp

theorem nothingReplaced_iff {sql lit : Bytes} :
    (∀ rule ∈ translationRules sql, ¬ rule.1 <:+: lit) ↔ NothingReplaced sql lit := by
  unfold translationRules oracleRules dateRules
  simp only [List.forall_mem_append, forall_mem_unless, List.forall_mem_cons, List.not_mem_nil,
    false_implies, implies_true, and_true, mem_parameterRules]
  rw [Replace.occurs_iff, Replace.occurs_iff]
  constructor
  · rintro ⟨hparam, ⟨hdate, hchar, htime, hstamp⟩, hsys⟩
    exact ⟨fun k hpos hle => hparam _ ⟨k, hpos, hle, rfl⟩, hdate, hchar, htime, hstamp, hsys⟩
  · rintro ⟨hparam, hdate, hchar, htime, hstamp, hsys⟩
    refine ⟨?_, ⟨hdate, hchar, htime, hstamp⟩, hsys⟩
    rintro rule ⟨k, hpos, hle, rfl⟩
    exact hparam k hpos hle

/-- A property of the five rules and of all parameters. -/
theorem translationRules_induction {sql : Bytes} {p : Bytes × Bytes → Prop}
    (hparam : ∀ k : Nat, p (colon :: decimal k, [questionMark]))
    (horacle : ∀ rule ∈ [toDateRule, toCharRule, dateTimeRule, timeStampRule, sysdateRule],
      p rule) : ∀ rule ∈ translationRules sql, p rule := by
  intro rule hrule
  rcases List.mem_append.mp hrule with h | h
  · obtain ⟨k, -, -, rfl⟩ := mem_parameterRules.mp h
    exact hparam k
  · exact horacle rule ((oracleRules_sublist _ _).subset h)

/-- No rule has anything to do with quotes. -/
theorem translationRules_quote (sql : Bytes) :
    ∀ rule ∈ translationRules sql, rule.1 ≠ [] ∧ quote ∉ rule.1 ∧ quote ∉ rule.2 :=
  translationRules_induction
    (fun k => ⟨List.cons_ne_nil _ _, notMem_parameter (by decide) (by decide) k,
      show quote ∉ [questionMark] by decide⟩)
    (by decide)

theorem oracle_irreversible :
    Replace.Irreversible [toDateRule, toCharRule, dateTimeRule, timeStampRule, sysdateRule] :=
  ⟨⟨by decide, 114, by decide, by decide⟩,
    ⟨by decide, 102, by decide, by decide⟩,
    ⟨by decide, 37, by decide, by decide⟩,
    ⟨by decide, 37, by decide, by decide⟩,
    ⟨by decide, 40, by decide, by decide⟩, trivial⟩

theorem parameters_irreversible {rules : List (Bytes × Bytes)} (h : Replace.Irreversible rules)
    (hmark : ∀ rule ∈ rules, rule.1.count questionMark ≤ rule.2.count questionMark) :
    ∀ ii : Nat, Replace.Irreversible (parameterRules ii ++ rules)
  | 0 => h
  | ii + 1 => by
      have hnone : ∀ k : Nat, (colon :: decimal k).count questionMark = 0 := fun k =>
        List.count_eq_zero.mpr (notMem_parameter (by decide) (by decide) k)
      refine ⟨⟨List.cons_ne_nil _ _, questionMark, ?_, ?_⟩, parameters_irreversible h hmark ii⟩
      · rw [hnone]
        exact Nat.one_pos
      · intro later hlater
        rcases List.mem_append.mp hlater with hparam | hrule
        · obtain ⟨k, -, -, rfl⟩ := mem_parameterRules.mp hparam
          rw [hnone]
          exact Nat.zero_le _
        · exact hmark later hrule

theorem translationRules_irreversible (sql : Bytes) :
    Replace.Irreversible (translationRules sql) := by
  have hsub := oracleRules_sublist (Replace.occurs (ascii "str_to_date") sql)
    (Replace.occurs (ascii "sysdate()") sql)
  refine parameters_irreversible (oracle_irreversible.sublist hsub) (fun rule hrule => ?_) maxParams
  have hall : ∀ rule ∈ [toDateRule, toCharRule, dateTimeRule, timeStampRule, sysdateRule],
      rule.1.count questionMark ≤ rule.2.count questionMark := by decide
  exact hall rule (hsub.subset hrule)

/-! ## Literals -/

/-- The same number of quotes in front of one cuts a text at the same place. -/
theorem cut_inj {a b s t : Bytes} (h : a ++ quote :: s = b ++ quote :: t)
    (hcount : a.count quote = b.count quote) : a = b ∧ s = t := by
  have hmore : ∀ {a b s t : Bytes}, a ++ quote :: s = b ++ quote :: t →
      a.count quote = b.count quote → a.length ≤ b.length → a = b ∧ s = t := by
    intro a b s t h hcount hlen
    obtain ⟨c, rfl⟩ := List.prefix_of_prefix_length_le ⟨_, h⟩ ⟨_, rfl⟩ hlen
    rw [List.append_assoc] at h
    have h := List.append_cancel_left h
    cases c with
    | nil => exact ⟨(List.append_nil a).symm, (List.cons.inj h).2⟩
    | cons d c =>
        rw [List.count_append, ← (List.cons.inj h).1, List.count_cons_self] at hcount
        omega
  rcases Nat.le_total a.length b.length with hle | hle
  · exact hmore h hcount hle
  · obtain ⟨hb, ht⟩ := hmore h.symm hcount.symm hle
    exact ⟨hb.symm, ht.symm⟩

theorem literal_kept_iff_fixed {sql pre lit post out : Bytes}
    (hsql : sql = pre ++ quote :: (lit ++ quote :: post)) (h : translate sql = .ok out) :
    LiteralKept pre lit out ↔ Replace.seq (translationRules sql) lit = lit := by
  have hcut := Replace.seq_cut (fun rule hrule =>
    ⟨(translationRules_quote sql rule hrule).1, (translationRules_quote sql rule hrule).2.1⟩)
  have hcount : ∀ s, (Replace.seq (translationRules sql) s).count quote = s.count quote :=
    Replace.count_seq fun rule hrule => by
      obtain ⟨hne, hold, hnew⟩ := translationRules_quote sql rule hrule
      exact ⟨hne, by rw [List.count_eq_zero.mpr hold, List.count_eq_zero.mpr hnew]⟩
  have hout := translate_ok h
  generalize translationRules sql = rules at hcut hcount hout ⊢
  rw [hsql, hcut, hcut] at hout
  constructor
  · rintro ⟨pre', post', hkept, hpre⟩
    have hfront := cut_inj (hkept.symm.trans hout) (by rw [hpre, hcount])
    exact (cut_inj hfront.2 (hcount lit).symm).1.symm
  · intro hfixed
    rw [hfixed] at hout
    exact ⟨_, _, hout, hcount pre⟩

/-- A string literal comes out as it went in exactly when no replacement finds
anything in it. -/
theorem literal_kept_iff (sql pre lit post out : Bytes)
    (hsql : sql = pre ++ quote :: (lit ++ quote :: post)) (h : translate sql = .ok out) :
    LiteralKept pre lit out ↔ NothingReplaced sql lit := by
  rw [literal_kept_iff_fixed hsql h, Replace.seq_eq_self_iff (translationRules_irreversible sql),
    nothingReplaced_iff]

/-- A clock time has a parameter in it. -/
theorem translate_clock : translate (ascii "'12:30'") = .ok (ascii "'12?'") := by
  have hplain : ∀ {c : UInt8} {s : Bytes}, c ≠ colon → ParamText maxParams s →
      ParamText maxParams (c :: s) := fun hc h => h.cons fun hcolon => absurd hcolon hc
  have htext : ParamText maxParams (ascii "'12:30'") :=
    hplain (by decide) <| hplain (by decide) <| hplain (by decide) <|
      .cons (fun _ _ => ⟨30, by decide, by decide, by decide⟩) <|
      hplain (by decide) <| hplain (by decide) <| hplain (by decide) .nil
  unfold translate
  rw [placeholders_eq htext (by decide)]
  decide

theorem literal_kept_iff_clock :
    LiteralKept [] (ascii "12:30") (ascii "'12?'") ↔
      NothingReplaced (ascii "'12:30'") (ascii "12:30") :=
  literal_kept_iff _ [] _ [] _ (by decide) translate_clock

theorem literal_not_kept :
    ¬ ∀ sql pre lit post out : Bytes, sql = pre ++ quote :: (lit ++ quote :: post) →
      lit ≠ ascii "yyyy-mm-dd hh24:mi:ss" → lit ≠ ascii "yyyymmddhh24miss" →
      translate sql = .ok out → LiteralKept pre lit out := by
  intro hall
  obtain ⟨pre', post', hout, hpre⟩ := hall (ascii "'12:30'") [] (ascii "12:30") [] _ (by decide)
    (by decide) (by decide) translate_clock
  -- The text ends in front of the second quote of such a literal.
  have hlen := congrArg List.length hout
  simp only [List.length_append, List.length_cons] at hlen
  have h₁ : (ascii "'12?'").length = 5 := by decide
  have h₂ : (ascii "12:30").length = 5 := by decide
  omega

end AsioServer
