import AsioServer.Proofs.Strings
import AsioServer.Ref.LoginEnv
import AsioServer.Spec.Parameters

/-!
# What `setdbopt` leaves in `m_env`

The function fills members of a memory of zeros, one after the other, with texts that
have no zeros in them (`fill`). Where no text is longer than its member, each stays in
its own (`fill_member`); and whatever the lengths, a byte is still zero at the end
exactly if no text has reached it (`fill_zero`).
-/

namespace AsioServer.Mysql

open LoginEnv (ip port user pass dbname)

/-! ## The text of the parameters -/

/-- Complete fields, each with its comma, and what stands behind the last of them. -/
def connText (fs : List Bytes) (tail : Bytes) : Bytes := fs.foldr (fun f rest => f ++ 44 :: rest) tail

theorem exists_connText (s : Bytes) :
    ∃ fs tail, s = connText fs tail ∧ (∀ f ∈ fs, 44 ∉ f) ∧ 44 ∉ tail := by
  induction s with
  | nil => exact ⟨[], [], rfl, List.forall_mem_nil _, List.not_mem_nil⟩
  | cons c s ih =>
      obtain ⟨fs, tail, rfl, hfs, htail⟩ := ih
      by_cases hc : c = 44
      · subst hc
        exact ⟨[] :: fs, tail, rfl, List.forall_mem_cons.mpr ⟨List.not_mem_nil, hfs⟩, htail⟩
      · have hcons : ∀ {t : Bytes}, 44 ∉ t → 44 ∉ c :: t := fun ht hmem =>
          (List.mem_cons.mp hmem).elim (fun h => hc h.symm) ht
        cases fs with
        | nil => exact ⟨[], c :: tail, rfl, List.forall_mem_nil _, hcons htail⟩
        | cons f fs =>
            rw [List.forall_mem_cons] at hfs
            exact ⟨(c :: f) :: fs, tail, rfl, List.forall_mem_cons.mpr ⟨hcons hfs.1, hfs.2⟩, htail⟩

section

variable {fs : List Bytes} {tail : Bytes}

theorem splitOn_connText (hfs : ∀ f ∈ fs, 44 ∉ f) (htail : 44 ∉ tail) :
    (connText fs tail).splitOn 44 = fs ++ [tail] := by
  induction fs with
  | nil => exact List.splitOn_eq_singleton htail
  | cons f fs ih =>
      rw [List.forall_mem_cons] at hfs
      rw [connText, List.foldr_cons, List.splitOn_append_cons_self_of_not_mem hfs.1,
        List.cons_append]
      exact congrArg (f :: ·) (ih hfs.2)

theorem count_connText (hfs : ∀ f ∈ fs, 44 ∉ f) (htail : 44 ∉ tail) :
    (connText fs tail).count 44 = fs.length := by
  induction fs with
  | nil => exact List.count_eq_zero.mpr htail
  | cons f fs ih =>
      rw [List.forall_mem_cons] at hfs
      rw [connText, List.foldr_cons, List.count_append, List.count_eq_zero.mpr hfs.1,
        List.count_cons_self, List.length_cons, Nat.zero_add]
      exact congrArg (· + 1) (ih hfs.2)

theorem nul_notMem_connText : 0 ∉ connText fs tail ↔ (∀ f ∈ fs, 0 ∉ f) ∧ 0 ∉ tail := by
  induction fs with
  | nil => simp [connText]
  | cons f fs ih =>
      have hcons : connText (f :: fs) tail = f ++ 44 :: connText fs tail := rfl
      rw [hcons, List.mem_append, List.mem_cons, List.forall_mem_cons, not_or, not_or, ih]
      simp [and_assoc]

end

theorem strstr_comma {text : Bytes} (h : 44 ∉ text) (rest : Bytes) :
    strstr (text ++ 44 :: rest) (ascii ",") = some (text, rest) := by
  refine Replace.first_eq_some.mpr ⟨by rw [List.append_assoc]; rfl, fun a b heq => ?_⟩
  by_contra hlt
  have hat := congrArg (·[a.length]?) heq
  have hcomma : ascii "," = [44] := rfl
  simp only [hcomma, List.append_assoc, List.getElem?_append_left (Nat.not_le.mp hlt),
    List.getElem?_append_right (Nat.le_refl _), Nat.sub_self, List.singleton_append,
    List.getElem?_cons_zero] at hat
  exact h (List.mem_of_getElem? hat)

theorem strstr_noComma {s : Bytes} (h : 44 ∉ s) : strstr s (ascii ",") = none :=
  Replace.first_eq_none.mpr fun ⟨_, _, hs⟩ => h (by
    rw [← hs]
    exact List.mem_append_left _ (List.mem_append_right _ List.mem_cons_self))

/-! ## Members filled one after the other -/

/-- The texts are copied to where their members begin. -/
def fill : List (Member × Bytes) → Bytes → Except Fault Bytes
  | [], env => .ok env
  | (m, f) :: mfs, env => do fill mfs (← copyInto env m.offset f)

theorem strncpy_front {text : Bytes} (h : 0 ∉ text) (env rest : Bytes) (off : Nat) :
    Libc.strncpy env off (text ++ rest) text.length = copyInto env off text := by
  have hcStr : cStr (text ++ rest) = text ++ cStr rest := by
    have hne : ∀ c ∈ text, (c != 0) = true := fun c hc => by
      rw [bne_iff_ne]
      exact fun h0 => h (h0 ▸ hc)
    exact List.takeWhile_append_of_pos hne
  have hlong : text.length - (text ++ cStr rest).length = 0 := by
    rw [List.length_append]
    omega
  rw [Libc.strncpy, hcStr, List.take_left, hlong, List.replicate_zero, List.append_nil]
  by_cases hfit : off + text.length ≤ env.length
  · rw [if_pos hfit]
  · rw [if_neg hfit, copyInto, if_neg hfit]

theorem cutFields_connText {ms : List Member} {fs : List Bytes} {tail : Bytes}
    (hle : fs.length ≤ ms.length) (hfs : ∀ f ∈ fs, 44 ∉ f ∧ 0 ∉ f) (htail : 44 ∉ tail)
    (env : Bytes) :
    cutFields ms env (connText fs tail) = (fill (ms.zip fs) env).map fun env =>
      (env, if fs.length = ms.length then some tail else none) := by
  induction ms generalizing fs env with
  | nil =>
      rw [List.eq_nil_of_length_eq_zero (Nat.le_zero.mp hle)]
      rfl
  | cons m ms ih =>
      cases fs with
      | nil =>
          have hcut : cutField m env tail = .ok (env, none) := by
            rw [cutField, strstr_noComma htail]
          exact ok_bind hcut _
      | cons f fs =>
          rw [List.forall_mem_cons] at hfs
          rw [List.length_cons, List.length_cons, Nat.add_le_add_iff_right] at hle
          have hcut : cutField m env (connText (f :: fs) tail) =
              (copyInto env m.offset f).map fun env => (env, some (connText fs tail)) := by
            have hcons : connText (f :: fs) tail = f ++ 44 :: connText fs tail := rfl
            rw [cutField, hcons, strstr_comma hfs.1.1]
            dsimp only
            rw [strncpy_front hfs.1.2]
            cases copyInto env m.offset f <;> rfl
          rw [cutFields, hcut, List.zip_cons_cons, fill]
          cases hcopy : copyInto env m.offset f with
          | error e => rfl
          | ok env' =>
              refine (ih hle hfs.2 env').trans ?_
              simp only [List.length_cons, Nat.add_right_cancel_iff]
              rfl

theorem copyInto_get {env env' src : Bytes} {off : Nat} (h : copyInto env off src = .ok env')
    (i : Nat) :
    env'[i]? = if off ≤ i ∧ i < off + src.length then src[i - off]? else env[i]? := by
  unfold copyInto at h
  split at h
  · next hfit =>
      cases h
      have htake : (env.take off).length = off := by
        rw [List.length_take]
        omega
      rw [List.append_assoc]
      by_cases hlow : i < off
      · rw [if_neg (by omega), List.getElem?_append_left (by omega), List.getElem?_take_of_lt hlow]
      · rw [List.getElem?_append_right (by omega), htake]
        by_cases hin : i - off < src.length
        · rw [if_pos (by omega), List.getElem?_append_left hin]
        · rw [if_neg (by omega), List.getElem?_append_right (by omega), List.getElem?_drop]
          congr 1
          omega
  · cases h

/-- A member a copy does not reach keeps what it holds. -/
theorem bytes_of_apart {m : Member} {env env' src : Bytes} {off : Nat}
    (h : copyInto env off src = .ok env')
    (happart : off + src.length ≤ m.offset ∨ m.offset + m.size ≤ off) :
    m.bytes env' = m.bytes env := by
  refine List.ext_getElem? fun i => ?_
  rw [Member.bytes, Member.bytes, List.getElem?_take, List.getElem?_take]
  split
  · rw [List.getElem?_drop, List.getElem?_drop, copyInto_get h, if_neg (by omega)]
  · rfl

/-- What a copy leaves of its own member. -/
theorem bytes_of_copy {m : Member} {env env' src : Bytes}
    (h : copyInto env m.offset src = .ok env') (hfit : src.length ≤ m.size) :
    m.bytes env' = src ++ (m.bytes env).drop src.length := by
  refine List.ext_getElem? fun i => ?_
  rw [Member.bytes, Member.bytes, List.getElem?_take, List.getElem?_append, List.getElem?_drop,
    List.getElem?_drop, copyInto_get h]
  by_cases hi : i < src.length
  · rw [if_pos (by omega), if_pos (by omega), if_pos hi, Nat.add_sub_cancel_left]
  · rw [if_neg hi, List.getElem?_take, List.getElem?_drop]
    by_cases hm : i < m.size
    · rw [if_pos hm, if_neg (by omega), if_pos (by omega)]
      congr 1
      omega
    · rw [if_neg hm, if_neg (by omega)]

section

variable {mfs : List (Member × Bytes)} {env env' : Bytes}

theorem fill_isOk :
    (∃ env', fill mfs env = .ok env') ↔ ∀ mf ∈ mfs, mf.1.offset + mf.2.length ≤ env.length := by
  induction mfs generalizing env with
  | nil => exact iff_of_true ⟨env, rfl⟩ (List.forall_mem_nil _)
  | cons mf mfs ih =>
      rw [List.forall_mem_cons]
      constructor
      · rintro ⟨env', h⟩
        obtain ⟨env₁, hcopy, hfill⟩ := bind_eq_ok.mp h
        obtain ⟨hlen, hfit⟩ := copyInto_length hcopy
        exact ⟨hfit, hlen ▸ ih.mp ⟨env', hfill⟩⟩
      · rintro ⟨hfit, hrest⟩
        have hcopy : copyInto env mf.1.offset mf.2 = .ok _ := if_pos hfit
        obtain ⟨env', hfill⟩ := ih.mpr ((copyInto_length hcopy).1.symm ▸ hrest)
        exact ⟨env', (ok_bind hcopy _).trans hfill⟩

theorem fill_frame {m : Member} (h : fill mfs env = .ok env')
    (happart : ∀ mf ∈ mfs, mf.1.offset + mf.2.length ≤ m.offset ∨ m.offset + m.size ≤ mf.1.offset) :
    m.bytes env' = m.bytes env := by
  induction mfs generalizing env with
  | nil =>
      cases h
      rfl
  | cons mf mfs ih =>
      rw [List.forall_mem_cons] at happart
      obtain ⟨env₁, hcopy, hfill⟩ := bind_eq_ok.mp h
      rw [ih hfill happart.2, bytes_of_apart hcopy happart.1]

/-- No byte belongs to two members. -/
def Apart (m m' : Member) : Prop := m.offset + m.size ≤ m'.offset ∨ m'.offset + m'.size ≤ m.offset

instance (m m' : Member) : Decidable (Apart m m') := inferInstanceAs (Decidable (_ ∨ _))

/-- Texts that fit stay in their members. -/
theorem fill_member (h : fill mfs env = .ok env') (hapart : mfs.Pairwise fun p q => Apart p.1 q.1)
    (hfit : ∀ mf ∈ mfs, mf.2.length ≤ mf.1.size) :
    ∀ mf ∈ mfs, mf.1.bytes env' = mf.2 ++ (mf.1.bytes env).drop mf.2.length := by
  induction mfs generalizing env with
  | nil => exact List.forall_mem_nil _
  | cons mf mfs ih =>
      rw [List.pairwise_cons] at hapart
      rw [List.forall_mem_cons] at hfit ⊢
      obtain ⟨env₁, hcopy, hfill⟩ := bind_eq_ok.mp h
      constructor
      · rw [fill_frame hfill fun q hq => ?_, bytes_of_copy hcopy hfit.1]
        have hq' := hapart.1 q hq
        have hlen := hfit.2 q hq
        unfold Apart at hq'
        omega
      · intro q hq
        have hq' := hapart.1 q hq
        have hlen := hfit.1
        have hframe : q.1.bytes env₁ = q.1.bytes env := bytes_of_apart hcopy (by
          unfold Apart at hq'
          omega)
        rw [ih hfill hapart.2 hfit.2 q hq, hframe]

/-- A byte is zero if it was and no text has reached it. -/
theorem fill_zero (hnul : ∀ mf ∈ mfs, 0 ∉ mf.2) (h : fill mfs env = .ok env') (i : Nat) :
    env'[i]? = some 0 ↔ env[i]? = some 0 ∧
      ∀ mf ∈ mfs, ¬ (mf.1.offset ≤ i ∧ i < mf.1.offset + mf.2.length) := by
  induction mfs generalizing env with
  | nil =>
      cases h
      simp
  | cons mf mfs ih =>
      rw [List.forall_mem_cons] at hnul
      obtain ⟨env₁, hcopy, hfill⟩ := bind_eq_ok.mp h
      rw [ih hnul.2 hfill, copyInto_get hcopy, List.forall_mem_cons]
      by_cases hin : mf.1.offset ≤ i ∧ i < mf.1.offset + mf.2.length
      · have hne : mf.2[i - mf.1.offset]? ≠ some 0 := fun h0 => hnul.1 (List.mem_of_getElem? h0)
        rw [if_pos hin]
        exact iff_of_false (fun h => hne h.1) fun h => h.2.1 hin
      · rw [if_neg hin]
        simp only [hin, not_false_eq_true, true_and]

end

/-! ## `setdbopt` -/

/-- `m_env` when the copies begin. -/
def zeros : Bytes := List.replicate LoginEnv.size 0

theorem fill_append (mfs : List (Member × Bytes)) (m : Member) (f env : Bytes) :
    fill (mfs ++ [(m, f)]) env = fill mfs env >>= fun env => copyInto env m.offset f := by
  induction mfs generalizing env with
  | nil =>
      show (copyInto env m.offset f >>= fun env => .ok env) = copyInto env m.offset f
      cases copyInto env m.offset f <;> rfl
  | cons mf mfs ih =>
      rw [List.cons_append, fill, fill]
      cases copyInto env mf.1.offset mf.2 with
      | error e => rfl
      | ok env' => exact ih env'

section

variable {mEnv : Bytes} {fs : List Bytes} {tail : Bytes}

theorem memset_zeros (hlen : mEnv.length = LoginEnv.size) :
    Libc.memset mEnv LoginEnv.size = .ok zeros := by
  rw [(Libc.memset_eq (Nat.le_of_eq hlen.symm)).1, List.drop_of_length_le (Nat.le_of_eq hlen),
    List.append_nil]
  rfl

/-- Too few commas: the members of the complete fields are filled. -/
theorem setdbopt_few (hlen : mEnv.length = LoginEnv.size) (hfs : ∀ f ∈ fs, 44 ∉ f ∧ 0 ∉ f)
    (htail : 44 ∉ tail ∧ 0 ∉ tail) (hfew : fs.length < 4) :
    setdbopt mEnv (connText fs tail) = fill ([ip, user, pass, dbname].zip fs) zeros := by
  have hnul : 0 ∉ connText fs tail :=
    nul_notMem_connText.mpr ⟨fun f hf => (hfs f hf).2, htail.2⟩
  have hcut : cutFields [ip, user, pass, dbname] zeros (connText fs tail) = _ :=
    cutFields_connText (Nat.le_of_lt hfew) hfs htail.1 zeros
  have hnot : ¬ fs.length = [ip, user, pass, dbname].length := Nat.ne_of_lt hfew
  rw [setdbopt, ok_bind (memset_zeros hlen), cStr_of_nulFree hnul, hcut, if_neg hnot]
  cases fill ([ip, user, pass, dbname].zip fs) zeros <;> rfl

/-- Four commas: the port is filled last. -/
theorem setdbopt_all (hlen : mEnv.length = LoginEnv.size) (hfs : ∀ f ∈ fs, 44 ∉ f ∧ 0 ∉ f)
    (htail : 44 ∉ tail ∧ 0 ∉ tail) (hall : fs.length = 4) :
    setdbopt mEnv (connText fs tail) =
      fill ([ip, user, pass, dbname].zip fs ++ [(port, intBytes (Libc.atoi tail))]) zeros := by
  have hnul : 0 ∉ connText fs tail :=
    nul_notMem_connText.mpr ⟨fun f hf => (hfs f hf).2, htail.2⟩
  have hcut : cutFields [ip, user, pass, dbname] zeros (connText fs tail) = _ :=
    cutFields_connText (Nat.le_of_eq hall) hfs htail.1 zeros
  have hsame : fs.length = [ip, user, pass, dbname].length := hall
  rw [setdbopt, ok_bind (memset_zeros hlen), cStr_of_nulFree hnul, hcut, if_pos hsame, fill_append]
  cases fill ([ip, user, pass, dbname].zip fs) zeros <;> rfl

end

/-! ## All five fields -/

/-- What a connection string is made of. -/
structure Login where
  ip : Bytes
  user : Bytes
  pass : Bytes
  dbname : Bytes
  port : Nat
  plain : ∀ f ∈ [ip, user, pass, dbname], f ≠ [] ∧ 44 ∉ f ∧ 0 ∉ f
  port_le : port ≤ 65535

/-- `"ip,user,pass,dbname,port"`. -/
def Login.connstr (l : Login) : Bytes :=
  l.ip ++ 44 :: (l.user ++ 44 :: (l.pass ++ 44 :: (l.dbname ++ 44 :: decimal l.port)))

/-- Every member holds its value, and a terminator of its own behind it. -/
def RoundTrips (mEnv : Bytes) (l : Login) : Prop :=
  ∃ env, setdbopt mEnv l.connstr = .ok env ∧ Holds (ip.bytes env) l.ip ∧
    Holds (user.bytes env) l.user ∧ Holds (pass.bytes env) l.pass ∧
    Holds (dbname.bytes env) l.dbname ∧ bytesInt (port.bytes env) = l.port

theorem bytesInt_intBytes {n : Nat} (h : n ≤ 65535) : bytesInt (intBytes n) = n := by
  have hbytes : intBytes n = [UInt8.ofNat (n % 256), UInt8.ofNat (n / 256), 0, 0] := by
    have h₀ : ((n : Int) / 2 ^ 0 % 256).toNat = n % 256 := by omega
    have h₁ : ((n : Int) / 2 ^ 8 % 256).toNat = n / 256 := by omega
    have h₂ : ((n : Int) / 2 ^ 16 % 256).toNat = 0 := by omega
    have h₃ : ((n : Int) / 2 ^ 24 % 256).toNat = 0 := by omega
    simp only [intBytes, List.map_cons, List.map_nil, h₀, h₁, h₂, h₃]
    rfl
  have hvalue : [UInt8.ofNat (n % 256), UInt8.ofNat (n / 256), 0, 0].foldr
      (fun c k => c.toNat + 256 * k) 0 = n := by
    simp only [List.foldr_cons, List.foldr_nil, UInt8.toNat_ofNat']
    have hzero : (0 : UInt8).toNat = 0 := rfl
    omega
  rw [hbytes, bytesInt, hvalue]
  exact int_eq (by omega) (by omega)

theorem atoi_decimal {n : Nat} (h : n ≤ 65535) : Libc.atoi (decimal n) = n := by
  have hdigits : ∀ c ∈ decimal n, isDigit c = true := fun _ => isDigit_of_mem_decimal
  have hnul : 0 ∉ decimal n := fun h0 => absurd (hdigits 0 h0) (by decide)
  have hvalue := digitsValue_decimal n
  rw [Libc.atoi_digits (cStr_of_nulFree hnul) hdigits (by omega), hvalue]

theorem zeros_bytes {m : Member} (h : m.offset + m.size ≤ LoginEnv.size) :
    m.bytes zeros = List.replicate m.size 0 := by
  rw [Member.bytes, zeros, List.drop_replicate, List.take_replicate]
  congr 1
  omega

/-- A text that is shorter than its member is there with a terminator. -/
theorem holds_of_zeros {m : Member} {env f : Bytes} (hnul : 0 ∉ f) (hlt : f.length < m.size)
    (h : m.bytes env = f ++ (List.replicate m.size 0).drop f.length) : Holds (m.bytes env) f := by
  have hzeros := holds_zeros hnul (show 0 < m.size - f.length by omega) []
  rwa [List.append_nil, ← List.drop_replicate, ← h] at hzeros

/-- The members and what is to stand in them. -/
def fieldsOf (l : Login) : List (Member × Bytes) :=
  [(ip, l.ip), (user, l.user), (pass, l.pass), (dbname, l.dbname), (port, intBytes l.port)]

theorem setdbopt_connstr {mEnv : Bytes} (hlen : mEnv.length = LoginEnv.size) (l : Login) :
    setdbopt mEnv l.connstr = fill (fieldsOf l) zeros := by
  have hplain : ∀ f ∈ [l.ip, l.user, l.pass, l.dbname], 44 ∉ f ∧ 0 ∉ f :=
    fun f hf => (l.plain f hf).2
  have hdigits : ∀ c ∈ decimal l.port, isDigit c = true := fun _ => isDigit_of_mem_decimal
  have htail : 44 ∉ decimal l.port ∧ 0 ∉ decimal l.port :=
    ⟨fun h => absurd (hdigits 44 h) (by decide), fun h => absurd (hdigits 0 h) (by decide)⟩
  have hset : setdbopt mEnv l.connstr = fill [(ip, l.ip), (user, l.user), (pass, l.pass),
      (dbname, l.dbname), (port, intBytes (Libc.atoi (decimal l.port)))] zeros :=
    setdbopt_all hlen hplain htail rfl
  rw [hset, atoi_decimal l.port_le]
  rfl

theorem fieldsOf_apart (l : Login) : (fieldsOf l).Pairwise fun p q => Apart p.1 q.1 := by
  simp only [fieldsOf, List.pairwise_cons, List.forall_mem_cons]
  refine ⟨?_, ?_, ?_, ?_, ?_, List.Pairwise.nil⟩
  · exact ⟨by decide, by decide, by decide, by decide, List.forall_mem_nil _⟩
  · exact ⟨by decide, by decide, by decide, List.forall_mem_nil _⟩
  · exact ⟨by decide, by decide, List.forall_mem_nil _⟩
  · exact ⟨by decide, List.forall_mem_nil _⟩
  · exact List.forall_mem_nil _

theorem fieldsOf_le {l : Login} (h₁ : l.ip.length ≤ 31) (h₂ : l.user.length ≤ 31)
    (h₃ : l.pass.length ≤ 31) (h₄ : l.dbname.length ≤ 50) :
    ∀ mf ∈ fieldsOf l, mf.2.length ≤ mf.1.size ∧ mf.1.offset + mf.1.size ≤ LoginEnv.size := by
  simp only [fieldsOf, List.forall_mem_cons]
  refine ⟨⟨?_, by decide⟩, ⟨?_, by decide⟩, ⟨?_, by decide⟩, ⟨?_, by decide⟩,
    ⟨Nat.le_refl 4, by decide⟩, List.forall_mem_nil _⟩
  · exact Nat.le_succ_of_le h₁
  · exact Nat.le_succ_of_le h₂
  · exact Nat.le_succ_of_le h₃
  · exact Nat.le_succ_of_le h₄

theorem roundTrips_iff {mEnv : Bytes} (hlen : mEnv.length = LoginEnv.size) (l : Login) :
    RoundTrips mEnv l ↔ l.ip.length ≤ 31 ∧ l.user.length ≤ 31 ∧ l.pass.length ≤ 31 ∧
      l.dbname.length ≤ 50 := by
  have hsize : ∀ (m : Member) (env f : Bytes), Holds (m.bytes env) f → f.length < m.size :=
    fun m env f h => Nat.lt_of_lt_of_le h.length_lt (List.length_take_le _ _)
  constructor
  · rintro ⟨env, -, hip, huser, hpass, hdbname, -⟩
    have h₁ : l.ip.length < 32 := hsize _ _ _ hip
    have h₂ : l.user.length < 32 := hsize _ _ _ huser
    have h₃ : l.pass.length < 32 := hsize _ _ _ hpass
    have h₄ : l.dbname.length < 51 := hsize _ _ _ hdbname
    omega
  · rintro ⟨h₁, h₂, h₃, h₄⟩
    have hle := fieldsOf_le h₁ h₂ h₃ h₄
    have hzeros : zeros.length = LoginEnv.size := List.length_replicate
    obtain ⟨env, hfill⟩ : ∃ env, fill (fieldsOf l) zeros = .ok env :=
      fill_isOk.mpr fun mf hmf => by
        have hmf' := hle mf hmf
        omega
    have hmember := fill_member hfill (fieldsOf_apart l) fun mf hmf => (hle mf hmf).1
    have hbytes : ∀ mf ∈ fieldsOf l,
        mf.1.bytes env = mf.2 ++ (List.replicate mf.1.size 0).drop mf.2.length := fun mf hmf => by
      rw [hmember mf hmf, zeros_bytes (hle mf hmf).2]
    simp only [fieldsOf, List.forall_mem_cons] at hbytes
    obtain ⟨hip, huser, hpass, hdbname, hport, -⟩ := hbytes
    have hplain := l.plain
    simp only [List.forall_mem_cons] at hplain
    obtain ⟨⟨-, -, hn₁⟩, ⟨-, -, hn₂⟩, ⟨-, -, hn₃⟩, ⟨-, -, hn₄⟩, -⟩ := hplain
    refine ⟨env, (setdbopt_connstr hlen l).trans hfill, ?_, ?_, ?_, ?_, ?_⟩
    · exact holds_of_zeros hn₁ (Nat.lt_succ_of_le h₁) hip
    · exact holds_of_zeros hn₂ (Nat.lt_succ_of_le h₂) huser
    · exact holds_of_zeros hn₃ (Nat.lt_succ_of_le h₃) hpass
    · exact holds_of_zeros hn₄ (Nat.lt_succ_of_le h₄) hdbname
    · have hfull : (List.replicate port.size (0 : UInt8)).drop (intBytes l.port).length = [] := rfl
      rw [hport, hfull, List.append_nil, bytesInt_intBytes l.port_le]

/-! ## Fewer commas -/

/-- The fields with a comma behind them. -/
def completeFields (connstr : Bytes) : List Bytes := (connstr.splitOn 44).dropLast

/-- The members behind that of the last complete field are zero. -/
def RestZero (mEnv connstr : Bytes) : Prop :=
  ∃ env, setdbopt mEnv connstr = .ok env ∧
    ∀ m ∈ [ip, user, pass, dbname, port].drop (completeFields connstr).length,
      m.bytes env = List.replicate m.size 0

/-- No field reaches into a member that is to be zero: behind `ip` that is the port. -/
def RestFits : List Bytes → Prop
  | [] => True
  | [ipText] => ipText.length ≤ 32
  | [ipText, userText] => ipText.length ≤ 32 ∧ userText.length ≤ 32
  | [ipText, userText, passText] =>
      ipText.length ≤ 32 ∧ userText.length ≤ 64 ∧ passText.length ≤ 32
  | _ => True

instance : DecidablePred RestFits := fun fs =>
  match fs with
  | [] => inferInstanceAs (Decidable True)
  | [_] => inferInstanceAs (Decidable (_ ≤ _))
  | [_, _] => inferInstanceAs (Decidable (_ ∧ _))
  | [_, _, _] => inferInstanceAs (Decidable (_ ∧ _ ∧ _))
  | _ :: _ :: _ :: _ :: _ => inferInstanceAs (Decidable True)

/-- A member is zero if no text has reached it. -/
theorem member_zero {mfs : List (Member × Bytes)} {env : Bytes} {m : Member}
    (hnul : ∀ mf ∈ mfs, 0 ∉ mf.2) (hfill : fill mfs zeros = .ok env)
    (hin : m.offset + m.size ≤ LoginEnv.size) (hpos : 0 < m.size) :
    m.bytes env = List.replicate m.size 0 ↔ ∀ mf ∈ mfs, mf.2.length = 0 ∨
      mf.1.offset + mf.2.length ≤ m.offset ∨ m.offset + m.size ≤ mf.1.offset := by
  have hbyte : ∀ i < LoginEnv.size, zeros[i]? = some 0 := fun i hi => by
    rw [zeros, List.getElem?_replicate, if_pos hi]
  constructor
  · intro hzero mf hmf
    by_contra hnot
    have hat : (m.bytes env)[max mf.1.offset m.offset - m.offset]? = some 0 := by
      rw [hzero, List.getElem?_replicate, if_pos (by omega)]
    rw [Member.bytes, List.getElem?_take_of_lt (by omega), List.getElem?_drop,
      fill_zero hnul hfill] at hat
    exact hat.2 mf hmf (by omega)
  · intro hout
    refine List.ext_getElem? fun i => ?_
    rw [Member.bytes, List.getElem?_take, List.getElem?_replicate, List.getElem?_drop]
    split
    · next hi =>
        refine (fill_zero hnul hfill _).mpr ⟨hbyte _ (by omega), fun mf hmf hcover => ?_⟩
        have hmf' := hout mf hmf
        omega
    · rfl

/-- Some members are zero if the texts stay in `m_env` and reach none of them. -/
theorem fill_rest {mfs : List (Member × Bytes)} {ms : List Member} (hnul : ∀ mf ∈ mfs, 0 ∉ mf.2)
    (hms : ∀ m ∈ ms, m.offset + m.size ≤ LoginEnv.size ∧ 0 < m.size) :
    (∃ env, fill mfs zeros = .ok env ∧ ∀ m ∈ ms, m.bytes env = List.replicate m.size 0) ↔
      (∀ mf ∈ mfs, mf.1.offset + mf.2.length ≤ LoginEnv.size) ∧
        ∀ m ∈ ms, ∀ mf ∈ mfs, mf.2.length = 0 ∨
          mf.1.offset + mf.2.length ≤ m.offset ∨ m.offset + m.size ≤ mf.1.offset := by
  have hok : (∃ env, fill mfs zeros = .ok env) ↔
      ∀ mf ∈ mfs, mf.1.offset + mf.2.length ≤ LoginEnv.size := by
    rw [fill_isOk, zeros, List.length_replicate]
  rw [← hok]
  constructor
  · rintro ⟨env, hfill, hzero⟩
    exact ⟨⟨env, hfill⟩, fun m hm =>
      (member_zero hnul hfill (hms m hm).1 (hms m hm).2).mp (hzero m hm)⟩
  · rintro ⟨⟨env, hfill⟩, hout⟩
    exact ⟨env, hfill, fun m hm =>
      (member_zero hnul hfill (hms m hm).1 (hms m hm).2).mpr (hout m hm)⟩

theorem restZero_iff {mEnv : Bytes} (hlen : mEnv.length = LoginEnv.size) {connstr : Bytes}
    (hnul : 0 ∉ connstr) (hfew : connstr.count 44 < 4) :
    RestZero mEnv connstr ↔ RestFits (completeFields connstr) := by
  obtain ⟨fs, tail, rfl, hfs, htail⟩ := exists_connText connstr
  rw [count_connText hfs htail] at hfew
  obtain ⟨hnul₁, hnul₂⟩ := nul_notMem_connText.mp hnul
  have hfields : completeFields (connText fs tail) = fs := by
    rw [completeFields, splitOn_connText hfs htail, List.dropLast_concat]
  have hset := setdbopt_few hlen (fun f hf => ⟨hfs f hf, hnul₁ f hf⟩) ⟨htail, hnul₂⟩ hfew
  have hzip : ∀ mf ∈ [ip, user, pass, dbname].zip fs, 0 ∉ mf.2 := fun mf hmf =>
    hnul₁ _ (List.of_mem_zip hmf).2
  have hms : ∀ m ∈ [ip, user, pass, dbname, port].drop fs.length,
      m.offset + m.size ≤ LoginEnv.size ∧ 0 < m.size := fun m hm =>
    (show ∀ m ∈ [ip, user, pass, dbname, port], m.offset + m.size ≤ LoginEnv.size ∧ 0 < m.size by
      simp only [List.forall_mem_cons]; decide) m (List.mem_of_mem_drop hm)
  rw [RestZero, hfields, hset, fill_rest hzip hms]
  -- behind each number of fields, the arithmetic of the offsets
  match fs, hfew with
  | [], _ =>
      rw [List.zip_nil_right]
      exact iff_of_true ⟨List.forall_mem_nil _, fun _ _ => List.forall_mem_nil _⟩ trivial
  | [a], _ =>
      simp only [RestFits, List.zip_cons_cons, List.zip_nil_right, List.length_cons, List.length_nil,
        List.drop_succ_cons, List.drop_zero, List.forall_mem_cons, List.not_mem_nil, false_implies,
        implies_true, and_true, ip, port, user, LoginEnv.pass, dbname, LoginEnv.size]
      omega
  | [a, b], _ =>
      simp only [RestFits, List.zip_cons_cons, List.zip_nil_right, List.length_cons, List.length_nil,
        List.drop_succ_cons, List.drop_zero, List.forall_mem_cons, List.not_mem_nil, false_implies,
        implies_true, and_true, ip, port, user, LoginEnv.pass, dbname, LoginEnv.size]
      omega
  | [a, b, c], _ =>
      simp only [RestFits, List.zip_cons_cons, List.zip_nil_right, List.length_cons, List.length_nil,
        List.drop_succ_cons, List.drop_zero, List.forall_mem_cons, List.not_mem_nil, false_implies,
        implies_true, and_true, ip, port, user, LoginEnv.pass, dbname, LoginEnv.size]
      omega

/-- A connection string round-trips exactly if each text leaves room for its terminator, and
what is not given is zero exactly if what is given does not reach it. -/
theorem setdbopt_right_iff {mEnv : Bytes} (hlen : mEnv.length = LoginEnv.size) :
    (∀ l : Login, RoundTrips mEnv l ↔ l.ip.length ≤ 31 ∧ l.user.length ≤ 31 ∧
      l.pass.length ≤ 31 ∧ l.dbname.length ≤ 50) ∧
    ∀ connstr : Bytes, 0 ∉ connstr → connstr.count 44 < 4 →
      (RestZero mEnv connstr ↔ RestFits (completeFields connstr)) :=
  ⟨roundTrips_iff hlen, fun _ => restZero_iff hlen⟩

theorem setdbopt_right_iff_chat :
    RoundTrips (List.replicate 152 1) ⟨ascii "127.0.0.1", ascii "root", ascii "secret",
      ascii "chat", 3306, by decide, by decide⟩ ∧
      RestZero (List.replicate 152 1) (ascii "127.0.0.1,root") :=
  have hlen : (List.replicate 152 (1 : UInt8)).length = LoginEnv.size := List.length_replicate
  ⟨((setdbopt_right_iff hlen).1 _).mpr (by decide),
    ((setdbopt_right_iff hlen).2 (ascii "127.0.0.1,root") (by decide) (by decide)).mpr (by decide)⟩

/-- A name of 32 bytes. -/
def longUser : Login :=
  ⟨ascii "127.0.0.1", List.replicate 32 117, ascii "secret", ascii "chat", 3306, by decide,
    by decide⟩

/-- The name fills its member, and the string that begins there goes on with the password. -/
theorem longUser_runs_on :
    (setdbopt (List.replicate 152 0) longUser.connstr).map
        (fun env => cStr (env.drop user.offset)) =
      .ok (longUser.user ++ longUser.pass) ∧
      ¬ RoundTrips (List.replicate 152 0) longUser := by
  refine ⟨by decide +kernel, fun h => ?_⟩
  have hfits := (roundTrips_iff List.length_replicate longUser).mp h
  exact absurd hfits.2.1 (by decide)

end AsioServer.Mysql
