import AsioServer.Spec.Parameters

/-!
# What the translation of a statement replaces

`MY__UpdateStr` is `Replace.all`, as long as each text it assembles fits its
arrays, which a text that does not grow always does. So a translation that
returns has made its replacements one after the other, `translationRules`: those
of the loop over the parameters, and those of names and date formats. Which of
these are made is decided on texts that are partly translated already, but
nothing before changes the answer, so it can be read off the text at first.
-/

namespace AsioServer

/-! ## `MY__UpdateStr` -/

theorem updateLoop_cases (room : Nat) (str1 str2 : Bytes) :
    ∀ (rounds : Nat) (head tail : Bytes),
      updateLoop room str1 str2 rounds head tail =
          .ok (head ++ Replace.loop str1 str2 rounds tail) ∨
        updateLoop room str1 str2 rounds head tail = .error .outOfBounds
  | 0, head, tail => Or.inl rfl
  | rounds + 1, head, tail => by
      rw [updateLoop, Replace.loop, strstr]
      cases Replace.first str1 tail with
      | none => exact Or.inl rfl
      | some ab =>
          obtain ⟨before, behind⟩ := ab
          dsimp only
          split
          · have h := updateLoop_cases room str1 str2 rounds (head ++ before ++ str2) behind
            simpa only [List.append_assoc] using h
          · exact Or.inr rfl

/-- What `MY__UpdateStr` leaves has all occurrences replaced. -/
theorem updateStr_ok {size : Nat} {str str1 str2 out : Bytes}
    (h : updateStr size str str1 str2 = .ok out) : out = Replace.all str1 str2 str := by
  unfold updateStr at h
  split at h
  · next hnil =>
      cases h
      rw [hnil, Replace.all_nil]
  · rcases updateLoop_cases (min size (max 1000 (str.length * 10))) str1 str2 str.length []
      str with hok | herr
    · rw [hok] at h
      exact (Except.ok.inj h).symm
    · rw [herr] at h
      cases h

theorem updateLoop_shrinks {room : Nat} {str1 str2 : Bytes} (hle : str2.length ≤ str1.length) :
    ∀ (rounds : Nat) (head tail : Bytes), (head ++ tail).length < room →
      ∃ out, updateLoop room str1 str2 rounds head tail = .ok out
  | 0, head, tail, _ => ⟨_, rfl⟩
  | rounds + 1, head, tail, hroom => by
      rw [updateLoop, strstr]
      cases hfirst : Replace.first str1 tail with
      | none => exact ⟨_, rfl⟩
      | some ab =>
          obtain ⟨before, behind⟩ := ab
          have htail := congrArg List.length (Replace.first_eq_some.mp hfirst).1
          simp only [List.length_append] at hroom htail
          have hfits : (head ++ before ++ str2 ++ behind).length < room := by
            simp only [List.length_append]
            omega
          dsimp only
          rw [if_pos hfits]
          exact updateLoop_shrinks hle rounds _ _ hfits

/-- A replacement that is not longer than what it replaces always fits. -/
theorem updateStr_shrinks {size : Nat} {str str1 str2 : Bytes} (hle : str2.length ≤ str1.length)
    (hsize : str.length < size) :
    updateStr size str str1 str2 = .ok (Replace.all str1 str2 str) := by
  have hreturns : ∃ out, updateStr size str str1 str2 = .ok out := by
    unfold updateStr
    split
    · exact ⟨_, rfl⟩
    · next hne =>
        have hpos := List.length_pos_iff.mpr hne
        exact updateLoop_shrinks hle _ _ _ (by simp only [List.nil_append]; omega)
  obtain ⟨out, hout⟩ := hreturns
  rw [hout, updateStr_ok hout]

/-! ## Rules -/

/-- The rules one after the other, as long as the text fits `m_sql`. -/
def updateAll : List (Bytes × Bytes) → Bytes → Except Fault Bytes
  | [], sql => .ok sql
  | rule :: rules, sql => updateStr mSqlSize sql rule.1 rule.2 >>= updateAll rules

theorem updateAll_append (rules rules' : List (Bytes × Bytes)) (sql : Bytes) :
    updateAll (rules ++ rules') sql = updateAll rules sql >>= updateAll rules' := by
  induction rules generalizing sql with
  | nil => rfl
  | cons rule rules ih =>
      rw [List.cons_append, updateAll, updateAll]
      cases updateStr mSqlSize sql rule.1 rule.2 with
      | error e => rfl
      | ok sql₁ => exact ih sql₁

theorem updateAll_ok {rules : List (Bytes × Bytes)} {sql out : Bytes}
    (h : updateAll rules sql = .ok out) : out = Replace.seq rules sql := by
  induction rules generalizing sql with
  | nil => exact (Except.ok.inj h).symm
  | cons rule rules ih =>
      obtain ⟨sql₁, h₁, h⟩ := bind_eq_ok.mp h
      rw [ih h, updateStr_ok h₁, Replace.seq_cons]

/-! ## The parameters -/

theorem parameter_eq {ii : Nat} (h : ii ≤ maxParams) :
    parameter ii = .ok (colon :: decimal ii) := by
  have hlen : (decimal ii).length ≤ 3 := by
    rw [decimal_eq, List.length_map]
    unfold maxParams at h
    exact (Nat.length_toDigits_le_iff (by decide) (by decide)).mpr (by omega)
  have hprintf : printf (cStr (ascii ":%d")) [.int ii] = .ok (colon :: decimal ii) := by
    show printf (colon :: [percent, 100]) [.int ii] = _
    rw [printf_cons (by decide), printf_percent]
    show Except.ok (colon :: (decimal ii ++ [])) = _
    rw [List.append_nil]
  rw [parameter, vsnprintf, hprintf]
  refine congrArg Except.ok (List.take_of_length_le ?_)
  rw [List.length_cons]
  omega

/-- The replacements of the loop, down from this number. -/
def parameterRules : Nat → List (Bytes × Bytes)
  | 0 => []
  | ii + 1 => (colon :: decimal (ii + 1 : Nat), [questionMark]) :: parameterRules ii

theorem mem_parameterRules {rule : Bytes × Bytes} : ∀ {ii : Nat}, rule ∈ parameterRules ii ↔
    ∃ k : Nat, 1 ≤ k ∧ k ≤ ii ∧ rule = (colon :: decimal k, [questionMark])
  | 0 => by
      simp only [parameterRules, List.not_mem_nil, false_iff]
      rintro ⟨k, hpos, hle, -⟩
      omega
  | ii + 1 => by
      rw [parameterRules, List.mem_cons, mem_parameterRules]
      constructor
      · rintro (rfl | ⟨k, hpos, hle, rfl⟩)
        · exact ⟨ii + 1, by omega, Nat.le_refl _, rfl⟩
        · exact ⟨k, hpos, by omega, rfl⟩
      · rintro ⟨k, hpos, hle, rfl⟩
        rcases Nat.lt_or_eq_of_le hle with hlt | rfl
        · exact Or.inr ⟨k, hpos, by omega, rfl⟩
        · exact Or.inl rfl

/-- What is no colon and no digit is in no parameter. -/
theorem notMem_parameter {c : UInt8} (hc : c ≠ colon) (hdigit : isDigit c = false) (k : Nat) :
    c ∉ colon :: decimal k := by
  intro hmem
  rcases List.mem_cons.mp hmem with rfl | h
  · exact hc rfl
  · rw [isDigit_of_mem_decimal h] at hdigit
    cases hdigit

theorem placeholdersFrom_succ {ii : Nat} (h : ii + 1 ≤ maxParams) (sql : Bytes) :
    placeholdersFrom (ii + 1) sql =
      (updateStr mSqlSize sql (colon :: decimal (ii + 1 : Nat)) [questionMark]).bind
        (placeholdersFrom ii) := by
  rw [placeholdersFrom, parameter_eq h]
  rfl

theorem placeholdersFrom_eq : ∀ {ii : Nat}, ii ≤ maxParams → ∀ sql : Bytes,
    placeholdersFrom ii sql = updateAll (parameterRules ii) sql
  | 0, _, _ => rfl
  | ii + 1, hii, sql => by
      rw [placeholdersFrom_succ hii, parameterRules, updateAll]
      exact congrArg _ (funext fun sql₁ => placeholdersFrom_eq (by omega) sql₁)

/-! ## The names and date formats -/

def toDateRule : Bytes × Bytes := (ascii "to_date", ascii "str_to_date")

def toCharRule : Bytes × Bytes := (ascii "to_char", ascii "date_format")

def dateTimeRule : Bytes × Bytes := (ascii "yyyy-mm-dd hh24:mi:ss", ascii "%Y-%m-%d %H:%i:%s")

def timeStampRule : Bytes × Bytes := (ascii "yyyymmddhh24miss", ascii "%Y%m%d%H%i%s")

def sysdateRule : Bytes × Bytes := (ascii "sysdate", ascii "sysdate()")

/-- The replacements before the last one, in a text that has `str_to_date`
already or has not. -/
def dateRules (strToDate : Bool) : List (Bytes × Bytes) :=
  (if strToDate then [] else [toDateRule]) ++ [toCharRule, dateTimeRule, timeStampRule]

def oracleRules (strToDate sysdate : Bool) : List (Bytes × Bytes) :=
  dateRules strToDate ++ if sysdate then [] else [sysdateRule]

theorem oracleRules_sublist (strToDate sysdate : Bool) :
    (oracleRules strToDate sysdate).Sublist
      [toDateRule, toCharRule, dateTimeRule, timeStampRule, sysdateRule] := by
  revert strToDate sysdate
  decide +kernel

/-- None of the replacements before the last brings `sysdate()` about or takes
it away. -/
theorem sysdate_dateRules (strToDate : Bool) :
    ∀ rule ∈ dateRules strToDate,
      rule.1 ≠ [] ∧ Replace.Alike (ascii "sysdate()") rule.1 rule.2 := by
  revert strToDate
  decide +kernel

theorem updateUnless_eq (sql guard str1 str2 : Bytes) :
    updateUnless sql guard str1 str2 =
      updateAll (if Replace.occurs guard sql then [] else [(str1, str2)]) sql := by
  unfold updateUnless strstr Replace.occurs
  cases Replace.first guard sql with
  | some ab => rfl
  | none =>
      show updateStr mSqlSize sql str1 str2 = (updateStr mSqlSize sql str1 str2).bind .ok
      cases updateStr mSqlSize sql str1 str2 <;> rfl

theorem oracleNames_eq (sql : Bytes) :
    oracleNames sql = updateAll (oracleRules (Replace.occurs (ascii "str_to_date") sql)
      (Replace.occurs (ascii "sysdate()") sql)) sql := by
  have hdates : oracleNames sql =
      updateAll (dateRules (Replace.occurs (ascii "str_to_date") sql)) sql >>= fun sql₄ =>
        updateUnless sql₄ (ascii "sysdate()") (ascii "sysdate") (ascii "sysdate()") := by
    have hfirst := updateUnless_eq sql (ascii "str_to_date") (ascii "to_date")
      (ascii "str_to_date")
    have hrest : ∀ sql, updateAll [toCharRule, dateTimeRule, timeStampRule] sql =
        updateStr mSqlSize sql (ascii "to_char") (ascii "date_format") >>= fun sql =>
        updateStr mSqlSize sql (ascii "yyyy-mm-dd hh24:mi:ss") (ascii "%Y-%m-%d %H:%i:%s") >>=
        fun sql => updateStr mSqlSize sql (ascii "yyyymmddhh24miss") (ascii "%Y%m%d%H%i%s") :=
      fun sql => by
        simp only [updateAll, toCharRule, dateTimeRule, timeStampRule]
        exact congrArg _ (funext fun _ => congrArg _ (funext fun _ => bind_pure _))
    rw [dateRules, updateAll_append, toDateRule, ← hfirst, oracleNames]
    simp only [hrest, bind_assoc]
  rw [hdates, oracleRules, updateAll_append]
  cases h : updateAll (dateRules (Replace.occurs (ascii "str_to_date") sql)) sql with
  | error e => rfl
  | ok sql₄ =>
      have hguard :
          Replace.occurs (ascii "sysdate()") sql₄ = Replace.occurs (ascii "sysdate()") sql := by
        rw [Bool.eq_iff_iff, Replace.occurs_iff, Replace.occurs_iff, updateAll_ok h,
          Replace.infix_seq_iff (sysdate_dateRules _)]
      show updateUnless sql₄ _ _ _ = _
      rw [updateUnless_eq, hguard]
      rfl

/-! ## The whole translation -/

/-- All replacements made in a text. -/
def translationRules (sql : Bytes) : List (Bytes × Bytes) :=
  parameterRules maxParams ++
    oracleRules (Replace.occurs (ascii "str_to_date") sql) (Replace.occurs (ascii "sysdate()") sql)

/-- A name without colons, question marks and digits occurs after the
parameters are replaced where it does before. -/
theorem occurs_parameterRules {pat : Bytes} (hpat : pat ≠ []) (hmark : questionMark ∉ pat)
    (hcolon : colon ∉ pat) (hdigit : pat.any isDigit = false) (ii : Nat) (s : Bytes) :
    Replace.occurs pat (Replace.seq (parameterRules ii) s) = Replace.occurs pat s := by
  rw [Bool.eq_iff_iff, Replace.occurs_iff, Replace.occurs_iff]
  refine Replace.infix_seq_iff (fun rule hrule => ?_) s
  obtain ⟨k, -, -, rfl⟩ := mem_parameterRules.mp hrule
  refine ⟨List.cons_ne_nil _ _, .of_disjoint hpat (List.cons_ne_nil _ _) (List.cons_ne_nil _ _)
    (fun c hc hmem => ?_) fun c hc => ?_⟩
  · have hne : c ≠ colon := fun h => hcolon (h ▸ hmem)
    have hnot : isDigit c = false := Bool.not_eq_true _ ▸ List.any_eq_false.mp hdigit c hmem
    exact notMem_parameter hne hnot k hc
  · rwa [List.mem_singleton.mp hc]

theorem translate_eq (sql : Bytes) : translate sql = updateAll (translationRules sql) sql := by
  rw [translationRules, updateAll_append, ← placeholdersFrom_eq (Nat.le_refl _)]
  show (placeholdersFrom maxParams sql).bind oracleNames = _
  cases h : placeholdersFrom maxParams sql with
  | error e => rfl
  | ok sql₁ =>
      rw [placeholdersFrom_eq (Nat.le_refl _)] at h
      have hdate : Replace.occurs (ascii "str_to_date") sql₁ =
          Replace.occurs (ascii "str_to_date") sql := by
        rw [updateAll_ok h]
        exact occurs_parameterRules (by decide) (by decide) (by decide) (by decide) maxParams sql
      have hsysdate : Replace.occurs (ascii "sysdate()") sql₁ =
          Replace.occurs (ascii "sysdate()") sql := by
        rw [updateAll_ok h]
        exact occurs_parameterRules (by decide) (by decide) (by decide) (by decide) maxParams sql
      show oracleNames sql₁ = updateAll _ sql₁
      rw [oracleNames_eq, hdate, hsysdate]

theorem translate_ok {sql out : Bytes} (h : translate sql = .ok out) :
    out = Replace.seq (translationRules sql) sql :=
  updateAll_ok (translate_eq sql ▸ h)

/-! ## When the text fits -/

theorem updateLoop_length {size room : Nat} {str1 str2 : Bytes} (hle : room ≤ size) :
    ∀ (rounds : Nat) (head tail out : Bytes), (head ++ tail).length < size →
      updateLoop room str1 str2 rounds head tail = .ok out → out.length < size
  | 0, head, tail, out, hsize, h => by
      rwa [← Except.ok.inj h]
  | rounds + 1, head, tail, out, hsize, h => by
      rw [updateLoop] at h
      split at h
      · rwa [← Except.ok.inj h]
      · split at h
        · next hroom => exact updateLoop_length hle rounds _ _ out (Nat.lt_of_lt_of_le hroom hle) h
        · cases h

/-- Of texts that grow each one fits if the last one does. -/
theorem updateLoop_grows {room : Nat} {str1 str2 : Bytes} (hne : str1 ≠ [])
    (hle : str1.length ≤ str2.length) :
    ∀ (rounds : Nat) (head tail : Bytes), tail.length ≤ rounds →
      (head ++ Replace.all str1 str2 tail).length < room →
      ∃ out, updateLoop room str1 str2 rounds head tail = .ok out
  | 0, head, tail, _, _ => ⟨_, rfl⟩
  | rounds + 1, head, tail, hrounds, hroom => by
      rw [updateLoop, strstr]
      cases hfirst : Replace.first str1 tail with
      | none => exact ⟨_, rfl⟩
      | some ab =>
          obtain ⟨before, behind⟩ := ab
          have hpos := List.length_pos_iff.mpr hne
          have htail := congrArg List.length (Replace.first_eq_some.mp hfirst).1
          have hrest := Replace.length_le_all hne hle behind
          rw [Replace.all_of_first hne hfirst] at hroom
          simp only [List.length_append] at hroom htail
          dsimp only
          rw [if_pos (by simp only [List.length_append]; omega)]
          exact updateLoop_grows hne hle rounds _ _ (by omega)
            (by simp only [List.length_append]; omega)

/-- A rule that shortens a text, or makes it at most twice as long. -/
def Modest (rule : Bytes × Bytes) : Prop :=
  rule.1 ≠ [] ∧ (rule.2.length ≤ rule.1.length ∨
    rule.1.length ≤ rule.2.length ∧ rule.2.length ≤ 2 * rule.1.length)

instance : DecidablePred Modest := fun _ => inferInstanceAs (Decidable (_ ∧ _))

theorem updateStr_eq {size : Nat} {str : Bytes} {rule : Bytes × Bytes} (hrule : Modest rule)
    (hsize : str.length < size) :
    updateStr size str rule.1 rule.2 =
      if (Replace.all rule.1 rule.2 str).length < size then .ok (Replace.all rule.1 rule.2 str)
      else .error .outOfBounds := by
  obtain ⟨hne, hmodest⟩ := hrule
  have hshort : ∀ out, updateStr size str rule.1 rule.2 = .ok out → out.length < size := by
    intro out h
    unfold updateStr at h
    split at h
    · rwa [← Except.ok.inj h]
    · exact updateLoop_length (Nat.min_le_left _ _) _ [] str out hsize h
  have hcases : (∃ out, updateStr size str rule.1 rule.2 = .ok out) ∨
      updateStr size str rule.1 rule.2 = .error .outOfBounds := by
    unfold updateStr
    split
    · exact .inl ⟨_, rfl⟩
    · exact (updateLoop_cases _ _ _ _ _ _).imp_left fun h => ⟨_, h⟩
  have hfits : (Replace.all rule.1 rule.2 str).length < size →
      ∃ out, updateStr size str rule.1 rule.2 = .ok out := by
    intro hlt
    rcases hmodest with hle | ⟨hle, htwice⟩
    · exact ⟨_, updateStr_shrinks hle hsize⟩
    · unfold updateStr
      split
      · exact ⟨_, rfl⟩
      · next hstr =>
          have hpos := List.length_pos_iff.mpr hstr
          have hdouble := Replace.length_all_le hne (by decide : 1 ≤ 2) htwice str
          refine updateLoop_grows hne hle _ _ _ (Nat.le_refl _) ?_
          rw [List.nil_append]
          omega
  split
  · next hlt =>
      obtain ⟨out, hout⟩ := hfits hlt
      rw [hout, updateStr_ok hout]
  · next hge =>
      refine hcases.resolve_left fun ⟨out, hout⟩ => hge ?_
      rw [← updateStr_ok hout]
      exact hshort out hout

theorem updateAll_ok_iff {rules : List (Bytes × Bytes)} (hrules : ∀ rule ∈ rules, Modest rule)
    {sql : Bytes} (hsql : sql.length < mSqlSize) :
    (∃ out, updateAll rules sql = .ok out) ↔
      ∀ done, done <+: rules → (Replace.seq done sql).length < mSqlSize := by
  induction rules generalizing sql with
  | nil =>
      refine iff_of_true ⟨sql, rfl⟩ fun done hdone => ?_
      rwa [List.prefix_nil.mp hdone]
  | cons rule rules ih =>
      obtain ⟨hrule, hrest⟩ := List.forall_mem_cons.mp hrules
      rw [updateAll, updateStr_eq hrule hsql]
      constructor
      · rintro ⟨out, hout⟩ done hdone
        split at hout
        · next hlt =>
            rcases List.prefix_cons_iff.mp hdone with rfl | ⟨done', rfl, hdone'⟩
            · exact hsql
            · exact (ih hrest hlt).mp ⟨out, hout⟩ done' hdone'
        · cases hout
      · intro h
        have hlt : (Replace.all rule.1 rule.2 sql).length < mSqlSize :=
          h [rule] (List.prefix_append [rule] rules)
        rw [if_pos hlt]
        exact (ih hrest hlt).mpr fun done hdone =>
          h (rule :: done) (List.cons_prefix_cons.mpr ⟨rfl, hdone⟩)

theorem modest_translationRules (sql : Bytes) : ∀ rule ∈ translationRules sql, Modest rule := by
  intro rule hrule
  rcases List.mem_append.mp hrule with hparam | hname
  · obtain ⟨k, -, -, rfl⟩ := mem_parameterRules.mp hparam
    exact ⟨List.cons_ne_nil _ _, .inl (Nat.le_add_left 1 _)⟩
  · have hall : ∀ rule ∈ [toDateRule, toCharRule, dateTimeRule, timeStampRule, sysdateRule],
        Modest rule := by decide +kernel
    exact hall rule ((oracleRules_sublist _ _).subset hname)

/-- The translation returns if the text fits `m_sql` after every replacement. -/
theorem translate_ok_iff {sql : Bytes} (hsql : sql.length < mSqlSize) :
    (∃ out, translate sql = .ok out) ↔
      ∀ done, done <+: translationRules sql → (Replace.seq done sql).length < mSqlSize := by
  rw [translate_eq]
  exact updateAll_ok_iff (modest_translationRules sql) hsql

end AsioServer
