import AsioServer.Lib.Scanner
import AsioServer.Proofs.Translation
import AsioServer.Spec.Markers

/-!
# The translation keeps the parameters

Each parameter and each question mark that MySQL would see in the text is one it
sees in the translated text, and there are no others. Two scanners go along with
MySQL's lexer: one marks a question mark where it is a parameter and a digit
behind a colon there, the other marks only the latter. To the first the text does
not change at all, and to the second nothing is left once all numbers are
replaced.
-/

namespace AsioServer

/-- The lexer takes a number behind a colon as it takes a question mark, and each name and date
format as the one put in its place: none of them opens or closes anything. -/
structure SqlLexer.Blind (L : SqlLexer) : Prop where
  number : ∀ (k : Nat) q, L.run q (colon :: decimal k) = L.step q questionMark
  name : ∀ rule ∈ [toDateRule, toCharRule, dateTimeRule, timeStampRule, sysdateRule],
    ∀ q, L.run q rule.1 = L.run q rule.2

namespace SqlLexer

variable (L : SqlLexer)

/-! ## Two scanners -/

/-- The lexer's state, and whether a colon stands in front that may begin a parameter. -/
def colonStep (q : L.State × Bool) (c : UInt8) : L.State × Bool :=
  (L.step q.1 c, L.live q.1 && c == colon)

def numbers : Scanner (L.State × Bool) UInt8 := ⟨L.colonStep, fun q c => q.2 && isDigit c⟩

def all : Scanner (L.State × Bool) UInt8 :=
  ⟨L.colonStep, fun q c => (q.2 && isDigit c) || (L.live q.1 && c == questionMark)⟩

theorem all_count (q : L.State × Bool) (s : Bytes) :
    L.all.count q s = L.numbers.count q s + L.params q.1 s := by
  induction s generalizing q with
  | nil => rfl
  | cons c s ih =>
      have hone : (if (q.2 && isDigit c) || (L.live q.1 && c == questionMark) then 1 else 0) =
          (if q.2 && isDigit c then 1 else 0) +
            (if L.live q.1 && c == questionMark then 1 else 0) := by
        by_cases hc : c = questionMark
        · subst hc
          simp [show isDigit questionMark = false by decide]
        · simp [hc]
      have hrest := ih (L.colonStep q c)
      rw [Scanner.count, Scanner.count, params]
      show (if (q.2 && isDigit c) || (L.live q.1 && c == questionMark) then 1 else 0) +
        L.all.count (L.colonStep q c) s = (if q.2 && isDigit c then 1 else 0) +
          L.numbers.count (L.colonStep q c) s + _
      rw [hone, hrest]
      show _ = _ + (_ + L.params (L.colonStep q c).1 s)
      omega

/-- A number is marked at its first digit. -/
theorem length_marksFrom (q : L.State) (b : Bool) (s : Bytes) :
    L.all.count (q, b) s =
      (L.marksFrom q s).length + if b = true ∧ s.takeWhile isDigit ≠ [] then 1 else 0 := by
  induction s generalizing q b with
  | nil => simp [Scanner.count, marksFrom]
  | cons c s ih =>
      have hone : (if (b && isDigit c) || (L.live q && c == questionMark) then 1 else 0) +
          (if (L.live q && c == colon) = true ∧ s.takeWhile isDigit ≠ [] then 1 else 0) =
          (L.markAt q c s).toList.length +
            if b = true ∧ (c :: s).takeWhile isDigit ≠ [] then 1 else 0 := by
        unfold markAt
        by_cases hmark : c = questionMark
        · subst hmark
          cases L.live q <;> simp [show isDigit questionMark = false by decide,
            show questionMark ≠ colon by decide]
        · by_cases hcolon : c = colon
          · subst hcolon
            cases L.live q <;> simp [show isDigit colon = false by decide,
              show colon ≠ questionMark by decide]
            split <;> rfl
          · cases hdigit : isDigit c <;> simp [hmark, hcolon, hdigit]
      rw [Scanner.count, marksFrom, List.length_append]
      show (if (b && isDigit c) || (L.live q && c == questionMark) then 1 else 0) +
        L.all.count (L.step q c, L.live q && c == colon) s = _
      rw [ih]
      omega

theorem run_colonStep {s : Bytes} (hne : s ≠ []) (hlast : s.getLast? ≠ some colon)
    (q : L.State × Bool) : s.foldl L.colonStep q = (L.run q.1 s, false) := by
  have hfst : ∀ (s : Bytes) (q : L.State × Bool),
      (s.foldl L.colonStep q).1 = L.run q.1 s := by
    intro s
    induction s with
    | nil => exact fun _ => rfl
    | cons c s ih => exact fun q => ih _
  refine Prod.ext (hfst s q) ?_
  obtain ⟨s, c, rfl⟩ := List.eq_nil_or_concat s |>.resolve_left hne
  rw [List.concat_eq_append, List.getLast?_concat, Ne, Option.some_inj] at hlast
  rw [List.concat_eq_append, List.foldl_append]
  exact Bool.and_eq_false_imp.mpr fun _ => beq_eq_false_iff_ne.mpr hlast

/-! ## Names and numbers -/

/-- A piece without question marks in which no digit follows a colon, also one right in front,
and which does not end with one. -/
def Plain (s : Bytes) : Prop :=
  s ≠ [] ∧ s.getLast? ≠ some colon ∧ questionMark ∉ s ∧
    List.IsChain (fun c d => c = colon → isDigit d = false) (colon :: s)

instance : DecidablePred Plain := fun _ => inferInstanceAs (Decidable (_ ∧ _))

theorem count_plain {s : Bytes} {c₀ : UInt8} {q : L.State × Bool} (hmark : questionMark ∉ s)
    (hchain : List.IsChain (fun c d => c = colon → isDigit d = false) (c₀ :: s))
    (hb : q.2 = true → c₀ = colon) : L.all.count q s = 0 ∧ L.numbers.count q s = 0 := by
  induction s generalizing q c₀ with
  | nil => exact ⟨rfl, rfl⟩
  | cons c s ih =>
      rw [List.mem_cons, not_or] at hmark
      rw [List.isChain_cons_cons] at hchain
      have hdigit : (q.2 && isDigit c) = false := by
        cases hq : q.2 with
        | false => rfl
        | true => rw [hchain.1 (hb hq), Bool.and_false]
      have hquestion : (c == questionMark) = false := beq_eq_false_iff_ne.mpr (Ne.symm hmark.1)
      have hrest := ih (q := L.colonStep q c) hmark.2 hchain.2 fun h =>
        eq_of_beq (Bool.and_eq_true_iff.mp h).2
      rw [Scanner.count, Scanner.count]
      show (if (q.2 && isDigit c) || (L.live q.1 && c == questionMark) then 1 else 0) +
          L.all.count (L.colonStep q c) s = 0 ∧
        (if q.2 && isDigit c then 1 else 0) + L.numbers.count (L.colonStep q c) s = 0
      rw [hrest.1, hrest.2, hdigit, hquestion, Bool.and_false]
      exact ⟨rfl, rfl⟩

variable {L}

theorem Blind.alike_name (h : L.Blind) :
    ∀ rule ∈ [toDateRule, toCharRule, dateTimeRule, timeStampRule, sysdateRule],
      L.all.Alike rule.1 rule.2 ∧ L.numbers.Alike rule.1 rule.2 := by
  have hplain : ∀ rule ∈ [toDateRule, toCharRule, dateTimeRule, timeStampRule, sysdateRule],
      Plain rule.1 ∧ Plain rule.2 := by decide +kernel
  intro rule hrule
  obtain ⟨⟨hne, hlast, hmark, hchain⟩, hne', hlast', hmark', hchain'⟩ := hplain rule hrule
  have hrun : ∀ q : L.State × Bool,
      rule.1.foldl L.colonStep q = rule.2.foldl L.colonStep q := fun q => by
    rw [L.run_colonStep hne hlast, L.run_colonStep hne' hlast', h.name rule hrule]
  have hcount : ∀ q : L.State × Bool, L.all.count q rule.1 = L.all.count q rule.2 ∧
      L.numbers.count q rule.1 = L.numbers.count q rule.2 := fun q => by
    obtain ⟨hall, hnumbers⟩ := L.count_plain (q := q) hmark hchain fun _ => rfl
    obtain ⟨hall', hnumbers'⟩ := L.count_plain (q := q) hmark' hchain' fun _ => rfl
    exact ⟨hall.trans hall'.symm, hnumbers.trans hnumbers'.symm⟩
  exact ⟨fun q => ⟨hrun q, (hcount q).1⟩, fun q => ⟨hrun q, (hcount q).2⟩⟩

theorem marksFrom_digits {ds : Bytes} (hds : ∀ c ∈ ds, isDigit c = true) (q : L.State) :
    L.marksFrom q ds = [] := by
  induction ds generalizing q with
  | nil => rfl
  | cons c ds ih =>
      obtain ⟨hc, hds⟩ := List.forall_mem_cons.mp hds
      have hmark : c ≠ questionMark := by
        rintro rfl
        cases hc
      have hcolon : ¬ (c = colon ∧ ds.takeWhile isDigit ≠ []) := by
        rintro ⟨rfl, -⟩
        cases hc
      rw [marksFrom, ih hds, markAt, if_neg hmark, if_neg hcolon, ite_self]
      rfl

/-- A number is marked where the question mark is that takes its place. -/
theorem Blind.alike_number (h : L.Blind) (k : Nat) :
    L.all.Alike (colon :: decimal k) [questionMark] := by
  rintro ⟨q, b⟩
  have hdigits : ∀ c ∈ decimal k, isDigit c = true := fun c => isDigit_of_mem_decimal
  constructor
  · have hlast : (decimal k).getLast? ≠ some colon := fun heq =>
      absurd (hdigits colon (List.mem_of_getLast? heq)) (by decide)
    have hrun := L.run_colonStep (decimal_ne_nil k) hlast (L.colonStep (q, b) colon)
    have hone := L.run_colonStep (s := [questionMark]) (List.cons_ne_nil _ _) (by decide) (q, b)
    exact hrun.trans ((congrArg (Prod.mk · false) (h.number k q)).trans hone.symm)
  · have hrun : (decimal k).takeWhile isDigit = decimal k := List.takeWhile_eq_self_iff.mpr hdigits
    have hnumber : L.markAt q colon (decimal k) =
        if L.live q then some (.param (digitsValue (decimal k))) else none := by
      have hdec : colon = colon ∧ decimal k ≠ [] := ⟨rfl, decimal_ne_nil k⟩
      rw [markAt, if_neg (show colon ≠ questionMark by decide), hrun, if_pos hdec]
    have hquestion : L.markAt q questionMark [] =
        if L.live q then some (.chr questionMark) else none := by
      rw [markAt, if_pos (Eq.refl questionMark)]
    rw [length_marksFrom, length_marksFrom, marksFrom, hnumber, marksFrom_digits hdigits,
      marksFrom, hquestion, marksFrom]
    cases L.live q
    · rfl
    · rfl

/-! ## No number is left -/

theorem takeWhile_all {ii : Nat} (s : Bytes) :
    (Replace.all (colon :: decimal ii) [questionMark] s).takeWhile isDigit =
      s.takeWhile isDigit := by
  induction s using Replace.occurrence_induction (List.cons_ne_nil colon (decimal ii)) with
  | nil => rfl
  | skip c s hpre ih =>
      rw [Replace.all_cons (List.cons_ne_nil _ _) hpre, List.takeWhile_cons, List.takeWhile_cons,
        ih]
  | hit t ih =>
      rw [Replace.all_append (List.cons_ne_nil _ _)]
      rfl

/-- One replacement takes the largest number out. -/
theorem ParamsFrom.all (h : L.Blind) {ii : Nat} {s : Bytes} {q : L.State}
    (hs : L.ParamsFrom (ii + 1) q s) :
    L.ParamsFrom ii q (Replace.all (colon :: decimal (ii + 1 : Nat)) [questionMark] s) := by
  have hne : colon :: decimal (ii + 1 : Nat) ≠ [] := List.cons_ne_nil _ _
  induction s using Replace.occurrence_induction hne generalizing q with
  | nil => exact .nil
  | skip c s hpre ih =>
      obtain ⟨hfirst, hrest⟩ := paramsFrom_cons.mp hs
      rw [Replace.all_cons hne hpre]
      refine paramsFrom_cons.mpr ⟨fun hc hlive => ?_, ih hrest⟩
      rw [takeWhile_all]
      intro hdigits
      obtain ⟨k, hpos, hle, hk⟩ := hfirst hc hlive hdigits
      -- The largest one would be an occurrence.
      have hlt : k ≠ ii + 1 := by
        rintro rfl
        exact hpre (List.cons_prefix_cons.mpr ⟨hc.symm, hk ▸ List.takeWhile_prefix _⟩)
      exact ⟨k, hpos, by omega, hk⟩
  | hit t ih =>
      rw [Replace.all_append hne, List.singleton_append]
      refine paramsFrom_cons.mpr ⟨fun hc => absurd hc (by decide), ?_⟩
      have hrest := ih hs.drop
      rwa [h.number] at hrest

theorem ParamsFrom.seq (h : L.Blind) {q : L.State} : ∀ {ii : Nat} {s : Bytes},
    L.ParamsFrom ii q s → L.ParamsFrom 0 q (Replace.seq (parameterRules ii) s)
  | 0, _, hs => hs
  | ii + 1, s, hs => by
      rw [parameterRules, Replace.seq_cons]
      exact ParamsFrom.seq h (hs.all h)

theorem ParamsFrom.numbers_eq_zero {q : L.State} {b : Bool} {s : Bytes}
    (hs : L.ParamsFrom 0 q s) (hb : b = true → s.takeWhile isDigit = []) :
    L.numbers.count (q, b) s = 0 := by
  induction s generalizing q b with
  | nil => rfl
  | cons c s ih =>
      obtain ⟨hfirst, hrest⟩ := paramsFrom_cons.mp hs
      have hmark : (b && isDigit c) = false := by
        cases b with
        | false => rfl
        | true =>
            exact Bool.not_eq_true _ ▸ (List.takeWhile_eq_nil_iff.mp (hb rfl) (Nat.succ_pos _))
      have hcount := ih (b := L.live q && c == colon) hrest fun h => by
        obtain ⟨hlive, hc⟩ := Bool.and_eq_true_iff.mp h
        by_contra hdigits
        obtain ⟨k, hpos, hle, -⟩ := hfirst (eq_of_beq hc) hlive hdigits
        omega
      rw [Scanner.count]
      show (if b && isDigit c then 1 else 0) +
        L.numbers.count (L.step q c, L.live q && c == colon) s = 0
      rw [hmark, hcount]
      rfl

/-! ## The translated text -/

theorem paramCount_translate (h : L.Blind) {s sql : Bytes} (hs : L.Params maxParams s)
    (hsql : translate s = .ok sql) : L.paramCount sql = (L.marks s).length := by
  have hnumbers : L.all.Alike s (Replace.seq (parameterRules maxParams) s) :=
    Scanner.seq_alike (fun rule hrule => by
      obtain ⟨k, -, -, rfl⟩ := mem_parameterRules.mp hrule
      exact ⟨List.cons_ne_nil _ _, h.alike_number k⟩) s
  have hnames : ∀ rule ∈ oracleRules (Replace.occurs (ascii "str_to_date") s)
      (Replace.occurs (ascii "sysdate()") s),
      rule.1 ≠ [] ∧ L.all.Alike rule.1 rule.2 ∧ L.numbers.Alike rule.1 rule.2 := fun rule hrule =>
    ⟨(show ∀ rule ∈ [toDateRule, toCharRule, dateTimeRule, timeStampRule, sysdateRule],
        rule.1 ≠ [] by decide) rule ((oracleRules_sublist _ _).subset hrule),
      h.alike_name rule ((oracleRules_sublist _ _).subset hrule)⟩
  have hall : L.all.Alike s sql := by
    rw [translate_ok hsql, translationRules, Replace.seq_append]
    exact hnumbers.trans (Scanner.seq_alike (fun rule hrule =>
      ⟨(hnames rule hrule).1, (hnames rule hrule).2.1⟩) _)
  have hnone : L.numbers.count (L.start, false) sql = 0 := by
    rw [translate_ok hsql, translationRules, Replace.seq_append,
      ← (Scanner.seq_alike (fun rule hrule => ⟨(hnames rule hrule).1, (hnames rule hrule).2.2⟩) _
        _).2]
    exact (hs.seq h).numbers_eq_zero fun h => by cases h
  have hcount := (hall (L.start, false)).2
  rw [length_marksFrom, all_count, hnone] at hcount
  rw [paramCount, marks]
  simpa using hcount.symm

end SqlLexer

/-! ## The default mode -/

/-- No state behind a colon is left at a digit. -/
theorem SqlState.next_digit (p : SqlState) {c : UInt8} (hc : isDigit c = true) :
    (p.next colon).next c = p.next colon := by
  have hne : c ≠ 39 ∧ c ≠ 34 ∧ c ≠ 96 ∧ c ≠ 35 ∧ c ≠ 45 ∧ c ≠ 47 ∧ c ≠ 92 ∧ c ≠ 10 ∧ c ≠ 42 := by
    refine ⟨?_, ?_, ?_, ?_, ?_, ?_, ?_, ?_, ?_⟩ <;> rintro rfl <;> cases hc
  have hopens : SqlState.opens c = .plain := by simp [SqlState.opens, hne]
  have hquote : ∀ q : SqlQuote, SqlState.next (.quoted q) c = .quoted q := fun q => by
    cases q <;> simp [SqlState.next, SqlQuote.char, hne]
  have hline : SqlState.next .line c = .line := by simp [SqlState.next, hne]
  have hcomment : SqlState.next .comment c = .comment := by simp [SqlState.next, hne]
  cases p with
  | plain | dash | dashes | slash => exact hopens
  | quoted q => cases q <;> exact hquote _
  | escaped q => exact hquote q
  | line => exact hline
  | comment | star => exact hcomment

theorem mysqlLexer_blind : mysqlLexer.Blind where
  number := by
    intro k p
    have hdigits : ∀ ds : Bytes, (∀ c ∈ ds, isDigit c = true) →
        ds.foldl SqlState.next (SqlState.next p colon) = SqlState.next p colon := by
      intro ds hds
      induction ds with
      | nil => rfl
      | cons c ds ih =>
          obtain ⟨hc, hds⟩ := List.forall_mem_cons.mp hds
          rw [List.foldl_cons, SqlState.next_digit p hc, ih hds]
    have hsame : SqlState.next p colon = SqlState.next p questionMark := by
      cases p with
      | quoted q => cases q <;> rfl
      | _ => rfl
    exact (hdigits _ fun c => isDigit_of_mem_decimal).trans hsame
  name := by
    intro rule hrule p
    have hsame : ∀ rule ∈ [toDateRule, toCharRule, dateTimeRule, timeStampRule, sysdateRule],
        rule.1.foldl SqlState.next p = rule.2.foldl SqlState.next p := by
      cases p with
      | quoted q | escaped q => cases q <;> decide +kernel
      | _ => decide +kernel
    exact hsame rule hrule

end AsioServer
