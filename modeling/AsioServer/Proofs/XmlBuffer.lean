import AsioServer.Lib.Blocks
import AsioServer.Proofs.Strings
import AsioServer.Ref.Xml

/-!
# What `GetXMLBuffer` finds

A text of fields is cut in front of every `<`, and a tag is found where a block
begins with the 49 bytes there is room for. So the right tags are found if no tag
in front begins like the start tag, and the start tag does not itself begin like
the end tag. Where the value is cut out depends on the whole name, as an `int`.
-/

namespace AsioServer.Public

/-! ## Tags -/

/-- `<body>`. -/
def tag (body : Bytes) : Bytes := 60 :: (body ++ [62])

/-- What an end tag has between its brackets. -/
def slashed (name : Bytes) : Bytes := 47 :: name

def tags (names : List Bytes) : List Bytes :=
  names.flatMap fun name => [tag name, tag (slashed name)]

def xmlText (fields : List (Bytes × Bytes)) : Bytes :=
  fields.flatMap fun field => tag field.1 ++ field.2 ++ tag (slashed field.1)

/-- What there is room for of a tag. -/
def sought (body : Bytes) : Bytes := (tag body).take 49

/-- A text without brackets. -/
def Plain (name : Bytes) : Prop := 60 ∉ name ∧ 62 ∉ name ∧ 0 ∉ name

/-- `sought` behind its `<`. -/
def front (body : Bytes) : Bytes := (body ++ [62]).take 48

theorem sought_eq (body : Bytes) : sought body = 60 :: front body := rfl

theorem slashed_plain {name : Bytes} (h : Plain name) : Plain (slashed name) := by
  obtain ⟨h60, h62, h0⟩ := h
  unfold slashed
  refine ⟨?_, ?_, ?_⟩ <;> rw [List.mem_cons, not_or]
  · exact ⟨by decide, h60⟩
  · exact ⟨by decide, h62⟩
  · exact ⟨by decide, h0⟩

theorem lt_notMem_front {body : Bytes} (h : Plain body) : 60 ∉ front body := fun hmem => by
  rcases List.mem_append.mp (List.mem_of_mem_take hmem) with hin | hin
  · exact h.1 hin
  · exact absurd (List.mem_singleton.mp hin) (by decide)

/-- A tag ends where its bracket is. -/
theorem front_begins {body name : Bytes} (h : Plain body) (v : Bytes) :
    front body <+: name ++ 62 :: v ↔ front body <+: name ++ [62] := by
  have hname : name ++ [62] <+: name ++ 62 :: v := (List.prefix_append_right_inj name).mpr ⟨v, rfl⟩
  refine ⟨fun hpre => ?_, fun hpre => hpre.trans hname⟩
  rcases List.prefix_or_prefix_of_prefix hpre hname with hle | hge
  · exact hle
  · have hbody : name ++ [62] <+: body ++ [62] := hge.trans (List.take_prefix 48 _)
    rcases List.prefix_concat_iff.mp hbody with heq | hin
    · have hfront : front body <+: name ++ [62] := by
        rw [heq]
        exact List.take_prefix 48 _
      exact hfront
    · exact absurd (hin.subset (List.mem_append_right name (List.mem_singleton_self 62))) h.2.1

theorem sought_begins {body name : Bytes} :
    sought body <+: tag name ↔ front body <+: name ++ [62] := by
  rw [sought_eq, tag, List.cons_prefix_cons, and_iff_right rfl]

theorem snprintf_start (name : Bytes) (hnul : 0 ∉ name) :
    snprintf 51 50 (ascii "<%s>") [.str name] = .ok (sought name) := by
  have hprintf : printf (cStr (ascii "<%s>")) [.str name] = .ok (tag name) := by
    show (printf (percent :: 115 :: [62]) [.str name]).map ((60 : UInt8) :: ·) = _
    rw [printf_percent_s, cStr_of_nulFree hnul]
    rfl
  show (printf (cStr (ascii "<%s>")) [.str name]).map (·.take 49) = _
  rw [hprintf]
  rfl

theorem snprintf_end (name : Bytes) (hnul : 0 ∉ name) :
    snprintf 51 50 (ascii "</%s>") [.str name] = .ok (sought (slashed name)) := by
  have hprintf : printf (cStr (ascii "</%s>")) [.str name] = .ok (tag (slashed name)) := by
    show ((printf (percent :: 115 :: [62]) [.str name]).map ((47 : UInt8) :: ·)).map
      ((60 : UInt8) :: ·) = _
    rw [printf_percent_s, cStr_of_nulFree hnul]
    rfl
  show (printf (cStr (ascii "</%s>")) [.str name]).map (·.take 49) = _
  rw [hprintf]
  rfl

/-! ## Blocks -/

/-- The tags of a text, each with what stands between it and the next. -/
def entries (fields : List (Bytes × Bytes)) : List (Bytes × Bytes) :=
  fields.flatMap fun field => [field, (slashed field.1, [])]

def entryText (es : List (Bytes × Bytes)) : Bytes :=
  Blocks.text 60 (es.map fun e => e.1 ++ 62 :: e.2)

/-- Names without brackets and values without a `<`. -/
def Wellformed (es : List (Bytes × Bytes)) : Prop := ∀ e ∈ es, Plain e.1 ∧ 60 ∉ e.2

theorem xmlText_eq (fields : List (Bytes × Bytes)) :
    xmlText fields = entryText (entries fields) := by
  unfold xmlText entryText entries Blocks.text
  rw [List.flatMap_map, List.flatMap_assoc]
  refine congrArg (List.flatMap · fields) (funext fun field => ?_)
  simp [tag]

theorem tags_eq (fields : List (Bytes × Bytes)) :
    tags (fields.map Prod.fst) = (entries fields).map fun e => tag e.1 := by
  unfold tags entries
  rw [List.flatMap_map, List.map_flatMap]
  rfl

theorem entries_append (fields fields' : List (Bytes × Bytes)) :
    entries (fields ++ fields') = entries fields ++ entries fields' := List.flatMap_append

theorem entries_cons (field : Bytes × Bytes) (fields : List (Bytes × Bytes)) :
    entries (field :: fields) = field :: (slashed field.1, []) :: entries fields := rfl

theorem entries_wellformed {fields : List (Bytes × Bytes)} (h : Wellformed fields) :
    Wellformed (entries fields) := by
  intro e he
  obtain ⟨field, hfield, he⟩ := List.mem_flatMap.mp he
  rcases List.mem_pair.mp he with rfl | rfl
  · exact h _ hfield
  · exact ⟨slashed_plain (h field hfield).1, List.not_mem_nil⟩

theorem entryText_append (es es' : List (Bytes × Bytes)) :
    entryText (es ++ es') = entryText es ++ entryText es' := by
  rw [entryText, List.map_append, Blocks.text_append]
  rfl

theorem entryText_cons (e : Bytes × Bytes) (es : List (Bytes × Bytes)) :
    entryText (e :: es) = tag e.1 ++ e.2 ++ entryText es := by
  simp [entryText, tag]

theorem entry_notMem {e : Bytes × Bytes} (h : Plain e.1 ∧ 60 ∉ e.2) : 60 ∉ e.1 ++ 62 :: e.2 := by
  rw [List.mem_append, List.mem_cons, not_or, not_or]
  exact ⟨h.1.1, by decide, h.2⟩

/-- No tag begins with what is looked for. -/
theorem strstr_none {body : Bytes} (hbody : Plain body) {es : List (Bytes × Bytes)}
    (hes : Wellformed es) (h : ∀ e ∈ es, ¬ sought body <+: tag e.1) :
    strstr (entryText es) (sought body) = none := by
  refine Blocks.first_none (lt_notMem_front hbody) fun b hb => ?_
  obtain ⟨e, he, rfl⟩ := List.mem_map.mp hb
  refine ⟨entry_notMem (hes e he), fun hpre => h e he ?_⟩
  exact sought_begins.mpr ((front_begins hbody e.2).mp hpre)

/-- The first tag that begins with what is looked for. -/
theorem strstr_at {body : Bytes} (hbody : Plain body) (es : List (Bytes × Bytes))
    (e : Bytes × Bytes) (es' : List (Bytes × Bytes)) (hes : Wellformed es)
    (h : ∀ e ∈ es, ¬ sought body <+: tag e.1)
    (hhere : sought body <+: tag e.1) :
    ∃ behind, strstr (entryText (es ++ e :: es')) (sought body) = some (entryText es, behind) := by
  obtain ⟨c, hc⟩ := (front_begins hbody e.2).mpr (sought_begins.mp hhere)
  have hat := Blocks.first_at (es.map fun e => e.1 ++ 62 :: e.2) (lt_notMem_front hbody)
    (fun b hb => ?_) c (es'.map fun e => e.1 ++ 62 :: e.2)
  · rw [hc] at hat
    refine ⟨c ++ entryText es', ?_⟩
    rw [entryText, List.map_append]
    exact hat
  · obtain ⟨d, hd, rfl⟩ := List.mem_map.mp hb
    refine ⟨entry_notMem (hes d hd), fun hpre => h d hd ?_⟩
    exact sought_begins.mpr ((front_begins hbody d.2).mp hpre)

/-! ## The copy -/

theorem copyInto_zero {array src : Bytes} (h : src.length ≤ array.length) :
    copyInto array 0 src = .ok (src ++ array.drop src.length) := by
  rw [copyInto, if_pos (by omega), List.take_zero, List.nil_append, Nat.zero_add]

theorem copyInto_fits {array src array' : Bytes} {off : Nat}
    (h : copyInto array off src = .ok array') :
    off + src.length ≤ array.length ∧ array'.length = array.length := by
  unfold copyInto at h
  split at h
  · next hfits =>
      cases h
      refine ⟨hfits, ?_⟩
      rw [List.length_append, List.length_append, List.length_take, List.length_drop]
      omega
  · cases h

theorem trimValue_holds {array s : Bytes} (h : Holds array s) (hlt : s.length < 2147483648) :
    ∃ array', trimValue array = .ok array' ∧ Holds array' (trim 32 s) := by
  have hsub : trim 32 s <:+: s := by
    exact (List.rdropWhile_prefix (· == (32 : UInt8)) _).isInfix.trans
      (List.dropWhile_suffix (· == (32 : UInt8))).isInfix
  have hle := hsub.length_le
  have hroom := h.length_lt
  have hnul : 0 ∉ trim 32 s := fun hmem => h.1 (hsub.subset hmem)
  have hlen : (trim 32 s ++ List.replicate (s.length + 1 - (trim 32 s).length) 0).length =
      s.length + 1 := by
    rw [List.length_append, List.length_replicate]
    omega
  have hzeros : s.length + 1 - (trim 32 s).length = s.length - (trim 32 s).length + 1 := by omega
  refine ⟨_, (ok_bind (deleteLRChar_eq (show (32 : UInt8) ≠ 0 by decide) ?_ ?_) _).trans
    (copyInto_zero ?_), hnul, ?_⟩
  · rw [h.cStr]
    exact h.1
  · rwa [h.cStr]
  · rw [h.cStr, hlen]
    exact hroom
  · rw [h.cStr, hzeros, List.replicate_succ, List.append_assoc, List.cons_append]
    exact ⟨_, rfl⟩

theorem copyValue_holds (src : Bytes) {array : Bytes} {len : Nat} (hroom : len < array.length)
    (hlt : len < 2147483648) :
    ∃ array', copyValue array src len = .ok array' ∧
      Holds array' (trim 32 ((cStr src).take len)) := by
  obtain ⟨text, zeros, htext, hzeros⟩ : ∃ text zeros, (cStr src).take len = text ∧
      List.replicate (len - (cStr src).length) (0 : UInt8) = zeros := ⟨_, _, rfl, rfl⟩
  have hlen : (text ++ zeros).length = len := by
    rw [← htext, ← hzeros, List.length_append, List.length_take, List.length_replicate]
    omega
  have hsize : sizeT len = len := sizeT_natCast (by omega)
  have hcopy : Libc.strncpy array 0 src (sizeT len) = .ok (text ++ zeros ++ array.drop len) := by
    rw [hsize, Libc.strncpy, if_pos (by omega), htext, hzeros, copyInto_zero (by omega), hlen]
  have hterm : terminate (text ++ zeros ++ array.drop len) len =
      .ok (text ++ zeros ++ 0 :: array.drop (len + 1)) := by
    have hfits : len + [(0 : UInt8)].length ≤ (text ++ zeros ++ array.drop len).length := by
      rw [List.length_append, hlen, List.length_drop, List.length_singleton]
      omega
    rw [terminate, if_pos (by omega), Int.toNat_natCast, copyInto, if_pos hfits, ← hlen,
      List.take_left, List.drop_append, List.drop_drop, List.append_assoc]
    simp
  have hholds : Holds (text ++ zeros ++ 0 :: array.drop (len + 1)) text := by
    refine ⟨by rw [← htext]; exact nul_notMem_take (nul_notMem_cStr src) len, ?_⟩
    rw [← hzeros]
    cases len - (cStr src).length with
    | zero => exact ⟨_, by rw [List.replicate_zero, List.append_nil]⟩
    | succ k => exact ⟨_, by rw [List.replicate_succ, List.append_assoc, List.cons_append]⟩
  have hshort : text.length ≤ len := by
    rw [← hlen, List.length_append]
    omega
  obtain ⟨array', htrim, hholds'⟩ := trimValue_holds hholds (by omega)
  refine ⟨array', ?_, ?_⟩
  · rw [copyValue, ok_bind hcopy, ok_bind hterm, htrim]
  · rw [htext]
    exact hholds'

/-- A copy that ends is that of some number of bytes. -/
theorem copyValue_inv {array src array' : Bytes} {len : Int} (hlt : len < 2147483648)
    (h : copyValue array src len = .ok array') :
    ∃ n : Nat, len = n ∧ cStr array' = trim 32 ((cStr src).take n) := by
  obtain ⟨array₁, hcopy, h₁⟩ := bind_eq_ok.mp h
  obtain ⟨array₂, hterm, -⟩ := bind_eq_ok.mp h₁
  unfold terminate at hterm
  unfold Libc.strncpy at hcopy
  split at hterm
  · next hpos =>
      split at hcopy
      · obtain ⟨n, rfl⟩ := Int.eq_ofNat_of_zero_le hpos
        obtain ⟨hfits, -⟩ := copyInto_fits hterm
        rw [Int.toNat_natCast, List.length_singleton, (copyInto_fits hcopy).2] at hfits
        obtain ⟨array₃, heq, hholds⟩ :=
          copyValue_holds src (show n < array.length by omega) (by omega)
        rw [h] at heq
        cases heq
        exact ⟨n, rfl, hholds.cStr⟩
      · cases hcopy
  · cases hterm

/-! ## The call -/

variable {text name value array : Bytes} {ilen : Int}

theorem cleared_ok (hilen : ilen < 2147483647) (hroom : 0 < ilen → ilen < value.length) :
    ∃ array, cleared value ilen = .ok array ∧ array.length = value.length := by
  unfold cleared
  split
  · next hpos =>
      have hlt := hroom hpos
      have hint : int (ilen + 1) = ilen + 1 := int_eq (by omega) (by omega)
      have hsize : sizeT (ilen + 1) ≤ value.length := by
        unfold sizeT
        omega
      rw [hint, Libc.memset, if_pos hsize]
      refine ⟨_, rfl, ?_⟩
      rw [List.length_append, List.length_replicate, List.length_drop]
      omega
  · exact ⟨value, rfl, rfl⟩

theorem cleared_overflow (h : value.length < 9223372036854775808) :
    cleared value 2147483647 = .error .outOfBounds := by
  have hsize : ¬ sizeT (int (2147483647 + 1)) ≤ value.length := by
    have hbig : sizeT (int (2147483647 + 1)) = 18446744071562067968 := by decide
    omega
  rw [cleared, if_pos (by decide), Libc.memset, if_neg hsize]

theorem getXMLBuffer_cleared (hnul : 0 ∉ name) (hset : cleared value ilen = .ok array) :
    getXMLBuffer text name value ilen =
      match strstr text (sought name) with
      | none => .ok (false, array)
      | some (start, _) =>
          match strstr (text.drop start.length) (sought (slashed name)) with
          | none => .ok (false, array)
          | some (between, _) => do
              let src ← textAt text (start.length + int name.length + 2)
              let value ← copyValue array src (copyLen between.length (int name.length) ilen)
              return (true, value) := by
  rw [getXMLBuffer, ok_bind hset]
  dsimp only
  rw [ok_bind (snprintf_start name hnul), ok_bind (snprintf_end name hnul)]
  rfl

theorem getXMLBuffer_none (hnul : 0 ∉ name) (hset : cleared value ilen = .ok array)
    (h : strstr text (sought name) = none) :
    getXMLBuffer text name value ilen = .ok (false, array) := by
  rw [getXMLBuffer_cleared hnul hset, h]

variable {start between b₁ b₂ : Bytes}

theorem getXMLBuffer_unended (hnul : 0 ∉ name) (hset : cleared value ilen = .ok array)
    (h₁ : strstr text (sought name) = some (start, b₁))
    (h₂ : strstr (text.drop start.length) (sought (slashed name)) = none) :
    getXMLBuffer text name value ilen = .ok (false, array) := by
  rw [getXMLBuffer_cleared hnul hset, h₁]
  dsimp only
  rw [h₂]

theorem getXMLBuffer_some (hnul : 0 ∉ name) (hset : cleared value ilen = .ok array)
    (h₁ : strstr text (sought name) = some (start, b₁))
    (h₂ : strstr (text.drop start.length) (sought (slashed name)) = some (between, b₂)) :
    getXMLBuffer text name value ilen = (do
      let src ← textAt text (start.length + int name.length + 2)
      let value ← copyValue array src (copyLen between.length (int name.length) ilen)
      return (true, value)) := by
  rw [getXMLBuffer_cleared hnul hset, h₁]
  dsimp only
  rw [h₂]

/-! ## Every list of fields -/

/-- A text with these names, and values that hold no tag. -/
def Written (names : List Bytes) (fields : List (Bytes × Bytes)) : Prop :=
  fields.map Prod.fst = names ∧ ∀ field ∈ fields, 60 ∉ field.2 ∧ 0 ∉ field.2

/-- The value as far as it is asked for. -/
def cut (v : Bytes) (ilen : Int) : Bytes := if ilen = 0 then v else v.take ilen.toNat

/-- Whatever the values, the call returns that of the name, or says that there is none. -/
structure FindsRight (names : List Bytes) (name : Bytes) (ilen : Int) : Prop where
  found : ∀ fields, Written names fields → ∀ v, (name, v) ∈ fields → v.length < 2147483648 →
    ∀ value, ilen < value.length → (ilen = 0 → v.length < value.length) →
      ∃ array, getXMLBuffer (xmlText fields) name value ilen = .ok (true, array) ∧
        Holds array (trim 32 (cut v ilen))
  absent : name ∉ names → ∀ fields, Written names fields → ∀ value, ilen < value.length →
    ∃ array, getXMLBuffer (xmlText fields) name value ilen = .ok (false, array)

/-- The tags of the name are the first that begin with what there is room for, and its
length and the number of bytes asked for are lengths an `int` has room for. -/
structure ToldApart (names : List Bytes) (name : Bytes) (ilen : Int) : Prop where
  asked : ilen ≠ 2147483647
  length : name ∈ names → name.length < 2147483648
  start : ∀ before behind, names = before ++ name :: behind →
    ∀ t ∈ tags before, ¬ sought name <+: t
  ends : name ∈ names → ¬ sought (slashed name) <+: tag name
  absent : name ∉ names → ∀ before t behind, tags names = before ++ t :: behind →
    (∀ u ∈ before, ¬ sought name <+: u) → sought name <+: t →
      ∀ u ∈ t :: behind, ¬ sought (slashed name) <+: u

section

variable {names : List Bytes} {fields : List (Bytes × Bytes)}

theorem Written.wellformed (h : Written names fields) (hnames : ∀ n ∈ names, Plain n) :
    Wellformed fields := fun field hfield =>
  ⟨hnames field.1 (h.1 ▸ List.mem_map_of_mem hfield), (h.2 field hfield).1⟩

theorem drop_entryText (es es' : List (Bytes × Bytes)) :
    (entryText (es ++ es')).drop (entryText es).length = entryText es' := by
  rw [entryText_append, List.drop_left]

theorem textAt_append (a b : Bytes) : textAt (a ++ b) a.length = .ok b := by
  rw [textAt, if_pos ⟨by omega, by rw [List.length_append]; omega⟩, Int.toNat_natCast,
    List.drop_left]

/-- What is copied once the right tags are found. -/
theorem copyLen_cut {v : Bytes} (hlt : v.length < 2147483648) (hv : 0 ∉ v) (hpos : 0 ≤ ilen)
    (hroom : ilen < array.length) (hall : ilen = 0 → v.length < array.length) (n : Nat)
    (rest : Bytes) :
    ∃ len : Nat, copyLen (n + 2 + v.length) n ilen = len ∧ len < array.length ∧
      len < 2147483648 ∧ (cStr (v ++ rest)).take len = cut v ilen := by
  have hvalue : int (((n + 2 + v.length : Nat) : Int) - n - 2) = v.length := by
    rw [int_eq (by omega) (by omega)]
    omega
  have hcStr : cStr (v ++ rest) = v ++ cStr rest := by
    refine List.takeWhile_append_of_pos fun c hc => ?_
    rw [bne_iff_ne]
    exact fun h0 => hv (h0 ▸ hc)
  unfold copyLen cut
  dsimp only
  rw [hvalue, hcStr]
  by_cases hle : (v.length : Int) ≤ ilen ∨ ilen = 0
  · rw [if_pos hle]
    refine ⟨v.length, rfl, by omega, hlt, ?_⟩
    rw [List.take_left]
    split
    · rfl
    · rw [List.take_of_length_le (by omega)]
  · rw [if_neg hle, if_neg (by omega)]
    refine ⟨ilen.toNat, by omega, by omega, by omega, ?_⟩
    rw [List.take_append_of_le_length (by omega)]

theorem found_of_toldApart (hnames : ∀ n ∈ names, Plain n) (hpos : 0 ≤ ilen)
    (hint : ilen < 2147483648) (h : ToldApart names name ilen) (hfields : Written names fields)
    {v : Bytes} (hv : (name, v) ∈ fields) (hlt : v.length < 2147483648)
    (hroom : ilen < value.length) (hall : ilen = 0 → v.length < value.length) :
    ∃ array, getXMLBuffer (xmlText fields) name value ilen = .ok (true, array) ∧
      Holds array (trim 32 (cut v ilen)) := by
  have hwf := entries_wellformed (hfields.wellformed hnames)
  have hvnul := (hfields.2 _ hv).2
  obtain ⟨A, B, rfl⟩ := List.append_of_mem hv
  have hsplit : names = A.map Prod.fst ++ name :: B.map Prod.fst := by
    rw [← hfields.1, List.map_append, List.map_cons]
  have hmem : name ∈ names := hsplit ▸ List.mem_append_right _ List.mem_cons_self
  have hname := hnames name hmem
  rw [xmlText_eq]
  rw [entries_append, entries_cons] at hwf ⊢
  have hstart : ∀ e ∈ entries A, ¬ sought name <+: tag e.1 := fun e he => by
    refine h.start _ _ hsplit (tag e.1) ?_
    rw [tags_eq]
    exact List.mem_map_of_mem he
  have hends : ∀ e ∈ [(name, v)], ¬ sought (slashed name) <+: tag e.1 := fun e he => by
    rw [List.mem_singleton.mp he]
    exact h.ends hmem
  obtain ⟨b₁, hS⟩ := strstr_at hname (entries A) (name, v) ((slashed name, []) :: entries B)
    (fun e he => hwf e (List.mem_append_left _ he)) hstart (List.take_prefix 49 _)
  obtain ⟨b₂, hE⟩ := strstr_at (slashed_plain hname) [(name, v)] (slashed name, []) (entries B)
    (fun e he =>
      hwf e (List.mem_append_right _ (List.mem_cons.mpr (.inl (List.mem_singleton.mp he)))))
    hends (List.take_prefix 49 _)
  rw [List.singleton_append, ← drop_entryText (entries A)] at hE
  have hasked := h.asked
  have hlength := h.length hmem
  obtain ⟨array, hset, hlen⟩ :=
    cleared_ok (show ilen < 2147483647 by omega) (fun _ => hroom)
  rw [← hlen] at hroom hall
  have hnameLen : int name.length = name.length := int_eq (by omega) (by omega)
  have hbetween : (entryText [(name, v)]).length = name.length + 2 + v.length := by
    rw [entryText_cons]
    simp only [tag, entryText, List.map_nil, Blocks.text_nil, List.append_nil, List.length_append,
      List.length_cons, List.length_nil]
  obtain ⟨len, hcopyLen, hfits, hshort, hcut⟩ := copyLen_cut hlt hvnul hpos hroom hall name.length
    (entryText ((slashed name, []) :: entries B))
  have htext : entryText (entries A ++ (name, v) :: (slashed name, []) :: entries B) =
      entryText (entries A) ++ tag name ++ (v ++ entryText ((slashed name, []) :: entries B)) := by
    rw [entryText_append, entryText_cons]
    simp only [List.append_assoc]
  have hplace : ((entryText (entries A)).length : Int) + name.length + 2 =
      ((entryText (entries A) ++ tag name).length : Int) := by
    simp only [tag, List.length_append, List.length_cons, List.length_nil]
    omega
  obtain ⟨array', hcopy, hholds⟩ := copyValue_holds
    (v ++ entryText ((slashed name, []) :: entries B)) hfits hshort
  refine ⟨array', ?_, hcut ▸ hholds⟩
  rw [getXMLBuffer_some hname.2.2 hset hS hE, hnameLen, hbetween, hcopyLen, hplace, htext,
    ok_bind (textAt_append _ _), ok_bind hcopy]
  rfl

/-- What is found of the tags: no start tag, a start tag with no end tag behind it, or both. -/
theorem absent_of_toldApart (hnames : ∀ n ∈ names, Plain n) (hname : Plain name)
    (hint : ilen < 2147483648) (h : ToldApart names name ilen) (hnot : name ∉ names)
    (hfields : Written names fields) (hroom : ilen < value.length) :
    ∃ array, getXMLBuffer (xmlText fields) name value ilen = .ok (false, array) := by
  have hwf := entries_wellformed (hfields.wellformed hnames)
  have htags : tags names = (entries fields).map fun e => tag e.1 := by rw [← hfields.1, tags_eq]
  have hasked := h.asked
  obtain ⟨array, hset, -⟩ := cleared_ok (show ilen < 2147483647 by omega) (fun _ => hroom)
  refine ⟨array, ?_⟩
  rw [xmlText_eq]
  by_cases hany : ∃ e ∈ entries fields, sought name <+: tag e.1
  · obtain ⟨A, e, B, heq, hbefore, he⟩ := Blocks.exists_leftmost hany
    rw [heq] at hwf htags ⊢
    obtain ⟨b₁, hS⟩ :=
      strstr_at hname _ _ _ (fun e he => hwf e (List.mem_append_left _ he)) hbefore he
    have hrest := h.absent hnot _ _ _ (by rw [htags, List.map_append, List.map_cons])
      (List.forall_mem_map.mpr hbefore) he
    have hE := strstr_none (slashed_plain hname)
      (fun e he => hwf e (List.mem_append_right _ he))
      (fun d hd => hrest _ (List.mem_map_of_mem (f := fun e => tag e.1) hd))
    rw [← drop_entryText A] at hE
    exact getXMLBuffer_unended hname.2.2 hset hS hE
  · have hS := strstr_none hname hwf fun e he hpre => hany ⟨e, he, hpre⟩
    exact getXMLBuffer_none hname.2.2 hset hS

/-! ## Where the value comes from -/

theorem copyLen_lt (hint : ilen < 2147483648) (between : Nat) (n : Int) :
    copyLen between n ilen < 2147483648 := by
  have hlt := Int.bmod_lt (x := between - n - 2) (m := 4294967296) (by decide)
  unfold copyLen int
  dsimp only
  split <;> omega

theorem getXMLBuffer_inv (hnul : 0 ∉ name) (hint : ilen < 2147483648)
    (h : getXMLBuffer text name value ilen = .ok (true, array)) :
    ∃ start b₁ between b₂, strstr text (sought name) = some (start, b₁) ∧
      strstr (text.drop start.length) (sought (slashed name)) = some (between, b₂) ∧
      0 ≤ start.length + int name.length + 2 ∧
      ∃ n : Nat, copyLen between.length (int name.length) ilen = n ∧
        cStr array =
          trim 32 ((cStr (text.drop (start.length + int name.length + 2).toNat)).take n) := by
  obtain ⟨array₁, hset, -⟩ := bind_eq_ok.mp h
  rw [getXMLBuffer_cleared hnul hset] at h
  cases hS : strstr text (sought name) with
  | none =>
      rw [hS] at h
      cases h
  | some ab =>
      obtain ⟨start, b₁⟩ := ab
      rw [hS] at h
      dsimp only at h
      cases hE : strstr (text.drop start.length) (sought (slashed name)) with
      | none =>
          rw [hE] at h
          cases h
      | some cd =>
          obtain ⟨between, b₂⟩ := cd
          rw [hE] at h
          obtain ⟨src, hsrc, h⟩ := bind_eq_ok.mp h
          obtain ⟨array₂, hcopy, h⟩ := bind_eq_ok.mp h
          cases h
          obtain ⟨n, hn, hcStr⟩ := copyValue_inv (copyLen_lt hint _ _) hcopy
          unfold textAt at hsrc
          split at hsrc
          · next hplace =>
              rw [← Except.ok.inj hsrc] at hcStr
              exact ⟨start, b₁, between, b₂, rfl, hE, hplace.1, n, hn, hcStr⟩
          · cases hsrc

/-- What begins with a byte that is no space is not cut off from there. -/
theorem trim_cons_ne_nil {c : UInt8} (hc : c ≠ 32) (s : Bytes) : trim 32 (c :: s) ≠ [] := by
  intro h
  have hc' : (c == (32 : UInt8)) = false := beq_eq_false_iff_ne.mpr hc
  rw [trim, List.dropWhile_cons_of_neg (by rw [hc']; decide), List.rdropWhile_eq_nil_iff] at h
  exact hc (beq_iff_eq.mp (h c List.mem_cons_self))

/-- The first byte that is no space is that of any text in front, if it has one. -/
theorem trim_first {s w t : Bytes} {c y : UInt8} (hs : s <+: w ++ t) (hc : c ∈ w) (hne : c ≠ 32)
    (h : trim 32 s = [y]) : (w.dropWhile (· == 32)).head? = some y := by
  obtain ⟨r, hr⟩ := hs
  have hpre : [y] <+: s.dropWhile (· == 32) := h ▸ List.rdropWhile_prefix _ _
  obtain ⟨q, hq⟩ := hpre
  have hw : w.dropWhile (· == 32) ≠ [] := fun hnil =>
    hne (beq_iff_eq.mp (List.dropWhile_eq_nil_iff.mp hnil c hc))
  have hdrop := congrArg (List.dropWhile (· == (32 : UInt8))) hr
  rw [List.dropWhile_append, List.dropWhile_append, ← hq, if_neg (by simp),
    if_neg (by simpa using hw)] at hdrop
  have hhead := congrArg List.head? hdrop
  rw [List.head?_append_of_ne_nil _ hw] at hhead
  exact hhead.symm

/-- Fields with these names, of which only the middle one has a value. -/
def oneValue (before : List Bytes) (name : Bytes) (behind : List Bytes) (v : Bytes) :
    List (Bytes × Bytes) :=
  before.map (·, []) ++ (name, v) :: behind.map (·, [])

/-- What such a text has in front of the value. -/
def inFront (before : List Bytes) (name : Bytes) : Bytes :=
  entryText (entries (before.map (·, []))) ++ tag name

variable {before behind : List Bytes} {v : Bytes}

theorem oneValue_written (hsplit : names = before ++ name :: behind) (h60 : 60 ∉ v) (h0 : 0 ∉ v) :
    Written names (oneValue before name behind v) := by
  constructor
  · simp [oneValue, hsplit, Function.comp_def]
  · intro field hfield
    simp only [oneValue, List.mem_append, List.mem_cons, List.mem_map] at hfield
    rcases hfield with ⟨_, -, rfl⟩ | rfl | ⟨_, -, rfl⟩
    · exact ⟨List.not_mem_nil, List.not_mem_nil⟩
    · exact ⟨h60, h0⟩
    · exact ⟨List.not_mem_nil, List.not_mem_nil⟩

theorem wellformed_empty (h : ∀ n ∈ before, Plain n) :
    Wellformed (entries (before.map (·, []))) := by
  refine entries_wellformed fun e he => ?_
  obtain ⟨n, hn, rfl⟩ := List.mem_map.mp he
  exact ⟨h n hn, List.not_mem_nil⟩

theorem tags_empty (before : List Bytes) :
    tags before = (entries (before.map (·, []))).map fun e => tag e.1 := by
  rw [← tags_eq, List.map_map, Function.comp_def, List.map_id']

theorem oneValue_entries (before : List Bytes) (name : Bytes) (behind : List Bytes) (v : Bytes) :
    xmlText (oneValue before name behind v) = entryText (entries (before.map (·, [])) ++
      (name, v) :: (slashed name, []) :: entries (behind.map (·, []))) := by
  rw [xmlText_eq, oneValue, entries_append, entries_cons]

theorem xmlText_oneValue (before : List Bytes) (name : Bytes) (behind : List Bytes) (v : Bytes) :
    xmlText (oneValue before name behind v) =
      inFront before name ++
        (v ++ entryText ((slashed name, []) :: entries (behind.map (·, [])))) := by
  rw [oneValue_entries, entryText_append, entryText_cons, inFront]
  simp only [List.append_assoc]

/-- A call that returns the value, a text of at most one byte. -/
theorem FindsRight.call (h : FindsRight names name ilen) (hint : ilen < 2147483648)
    (hpos : 0 ≤ ilen)
    (hname : Plain name) (hsplit : names = before ++ name :: behind)
    (hv : 60 ∉ v ∧ 0 ∉ v ∧ v.length ≤ 1) :
    ∃ start b₁ between b₂,
      strstr (xmlText (oneValue before name behind v)) (sought name) = some (start, b₁) ∧
      strstr ((xmlText (oneValue before name behind v)).drop start.length) (sought (slashed name)) =
        some (between, b₂) ∧
      0 ≤ start.length + int name.length + 2 ∧
      ∃ n : Nat, copyLen between.length (int name.length) ilen = n ∧
        trim 32 v = trim 32 ((cStr ((xmlText (oneValue before name behind v)).drop
          (start.length + int name.length + 2).toNat)).take n) := by
  have hlen : (List.replicate (ilen.toNat + 2) (0 : UInt8)).length = ilen.toNat + 2 :=
    List.length_replicate
  obtain ⟨array, hcall, hholds⟩ := h.found _ (oneValue_written hsplit hv.1 hv.2.1) v
    (List.mem_append_right _ List.mem_cons_self) (by omega) (List.replicate (ilen.toNat + 2) 0)
    (by omega) (by omega)
  have hcut : cut v ilen = v := by
    unfold cut
    split
    · rfl
    · exact List.take_of_length_le (by omega)
  obtain ⟨start, b₁, between, b₂, hS, hE, hplace, n, hn, hcStr⟩ :=
    getXMLBuffer_inv hname.2.2 hint hcall
  rw [hholds.cStr, hcut] at hcStr
  exact ⟨start, b₁, between, b₂, hS, hE, hplace, n, hn, hcStr⟩

theorem cStr_take_begins (s : Bytes) (n : Nat) : (cStr s).take n <+: s :=
  (List.take_prefix n _).trans (List.takeWhile_prefix _)

/-- Where the value is taken from is not in front of it. -/
theorem FindsRight.place (h : FindsRight names name ilen) (hint : ilen < 2147483648)
    (hpos : 0 ≤ ilen) (hname : Plain name) (hsplit : names = before ++ name :: behind)
    (start : Bytes)
    (hstart : ∀ v, 60 ∉ v → ∃ b,
      strstr (xmlText (oneValue before name behind v)) (sought name) = some (start, b)) :
    ((inFront before name).length : Int) ≤ start.length + int name.length + 2 := by
  refine Int.not_lt.mp fun hlt => ?_
  -- the byte that comes first is the same whatever the value
  have hfirst : ∀ c : UInt8, c ≠ 60 → c ≠ 0 → c ≠ 32 →
      (((inFront before name).drop (start.length + int name.length + 2).toNat).dropWhile
        (· == 32)).head? = some c := by
    intro c h60 h0 h32
    have hv : 60 ∉ [c] ∧ 0 ∉ [c] ∧ [c].length ≤ 1 :=
      ⟨fun hmem => h60 (List.mem_singleton.mp hmem).symm,
        fun hmem => h0 (List.mem_singleton.mp hmem).symm, Nat.le_refl 1⟩
    obtain ⟨start', b₁, between, b₂, hS, hE, hplace, n, hn, hcStr⟩ :=
      h.call hint hpos hname hsplit hv
    obtain ⟨b, hb⟩ := hstart [c] hv.1
    rw [hb] at hS
    cases hS
    have hone : trim 32 [c] = [c] := by
      have hc : (c == (32 : UInt8)) = false := beq_eq_false_iff_ne.mpr h32
      simp [trim, List.rdropWhile, hc]
    rw [hone, xmlText_oneValue, List.drop_append_of_le_length (by omega)] at hcStr
    refine trim_first (cStr_take_begins _ n) (c := 62) ?_ (by decide) hcStr.symm
    have hlast : (inFront before name).drop (start.length + int name.length + 2).toNat ≠ [] :=
      fun hnil => by
        rw [List.drop_eq_nil_iff] at hnil
        omega
    have h62 : inFront before name =
        entryText (entries (before.map (·, []))) ++ (60 :: name) ++ [62] := by
      simp [inFront, tag]
    rw [h62] at hlast hlt ⊢
    rw [List.drop_append_of_le_length]
    · exact List.mem_append_right _ (List.mem_singleton_self 62)
    · rw [List.length_append, List.length_singleton] at hlt
      omega
  have h120 := hfirst 120 (by decide) (by decide) (by decide)
  rw [hfirst 121 (by decide) (by decide) (by decide)] at h120
  cases h120

/-- No tag in front begins like that of the name. -/
theorem FindsRight.first (h : FindsRight names name ilen) (hnames : ∀ n ∈ names, Plain n)
    (hint : ilen < 2147483648) (hpos : 0 ≤ ilen) (hsplit : names = before ++ name :: behind) :
    (∀ t ∈ tags before, ¬ sought name <+: t) ∧ name.length < 2147483648 := by
  have hname := hnames name (hsplit ▸ List.mem_append_right _ List.mem_cons_self)
  have hwf := wellformed_empty fun n hn => hnames n (hsplit ▸ List.mem_append_left _ hn)
  have htext := oneValue_entries before name behind
  have hfront : (inFront before name).length =
      (entryText (entries (before.map (·, [])))).length + (name.length + 2) := by
    rw [inFront, List.length_append]
    simp [tag]
  have hle := int_natCast_le name.length
  by_cases hany : ∃ e ∈ entries (before.map (·, [])), sought name <+: tag e.1
  · exfalso
    obtain ⟨A, e, B, heq, hA, he⟩ := Blocks.exists_leftmost hany
    rw [heq] at hwf htext hfront
    have hplace := h.place hint hpos hname hsplit (entryText A) fun v _ => by
      rw [htext, List.append_assoc, List.cons_append]
      exact strstr_at hname A e _ (fun e he => hwf e (List.mem_append_left _ he)) hA he
    rw [hfront, entryText_append, entryText_cons] at hplace
    simp only [tag, List.length_append, List.length_cons] at hplace
    omega
  · have hA : ∀ e ∈ entries (before.map (·, [])), ¬ sought name <+: tag e.1 :=
      fun e he hpre => hany ⟨e, he, hpre⟩
    have hplace := h.place hint hpos hname hsplit _ fun v _ => by
      rw [htext]
      exact strstr_at hname _ _ _ hwf hA (List.take_prefix 49 _)
    rw [hfront] at hplace
    refine ⟨fun t ht => ?_, by omega⟩
    rw [tags_empty] at ht
    obtain ⟨e, he, rfl⟩ := List.mem_map.mp ht
    exact hA e he

/-- The start tag does not begin like the end tag: nothing would stand between them. -/
theorem FindsRight.last (h : FindsRight names name ilen) (hnames : ∀ n ∈ names, Plain n)
    (hint : ilen < 2147483648) (hpos : 0 ≤ ilen) (hsplit : names = before ++ name :: behind) :
    ¬ sought (slashed name) <+: tag name := by
  intro hends
  obtain ⟨hbefore, hshort⟩ := h.first hnames hint hpos hsplit
  have hname := hnames name (hsplit ▸ List.mem_append_right _ List.mem_cons_self)
  have hnameLen : int name.length = name.length := int_eq (by omega) (by omega)
  have hwf := wellformed_empty fun n hn => hnames n (hsplit ▸ List.mem_append_left _ hn)
  have hA : ∀ e ∈ entries (before.map (·, [])), ¬ sought name <+: tag e.1 := fun e he => by
    refine hbefore _ ?_
    rw [tags_empty]
    exact List.mem_map_of_mem he
  -- as many bytes are copied, whatever the value
  have hcall : ∀ v : Bytes, 60 ∉ v ∧ 0 ∉ v ∧ v.length ≤ 1 → ∃ n : Nat,
      copyLen 0 name.length ilen = n ∧
        trim 32 v = trim 32 ((cStr (v ++ entryText ((slashed name, []) ::
          entries (behind.map (·, []))))).take n) := by
    intro v hv
    obtain ⟨start, b₁, between, b₂, hS, hE, -, n, hn, hcStr⟩ := h.call hint hpos hname hsplit hv
    obtain ⟨c, hc⟩ := strstr_at hname _ (name, v)
      ((slashed name, []) :: entries (behind.map (·, []))) hwf hA (List.take_prefix 49 _)
    obtain ⟨d, hd⟩ := strstr_at (slashed_plain hname) [] (name, v)
      ((slashed name, []) :: entries (behind.map (·, []))) (List.forall_mem_nil _)
      (List.forall_mem_nil _) hends
    rw [oneValue_entries, hc] at hS
    cases hS
    rw [oneValue_entries, drop_entryText, ← List.nil_append ((name, v) :: _), hd] at hE
    cases hE
    have hplace : (((entryText (entries (before.map (·, [])))).length : Int) + int name.length +
        2).toNat = (inFront before name).length := by
      rw [hnameLen, inFront, List.length_append]
      simp only [tag, List.length_append, List.length_cons, List.length_nil]
      omega
    rw [hplace, xmlText_oneValue, List.drop_left] at hcStr
    rw [hnameLen] at hn
    exact ⟨n, hn, hcStr⟩
  obtain ⟨n, hn, hnone⟩ := hcall [] ⟨List.not_mem_nil, List.not_mem_nil, Nat.zero_le _⟩
  obtain ⟨m, hm, hone⟩ := hcall [120] ⟨by decide, by decide, Nat.le_refl 1⟩
  obtain rfl : m = n := by omega
  cases m with
  | zero => exact absurd hone (by rw [List.take_zero]; exact trim_cons_ne_nil (by decide) [])
  | succ m => exact trim_cons_ne_nil (by decide) _ hnone.symm

theorem written_empty (names : List Bytes) : Written names (names.map (·, [])) := by
  refine ⟨?_, fun field hfield => ?_⟩
  · rw [List.map_map, Function.comp_def, List.map_id']
  · obtain ⟨n, -, rfl⟩ := List.mem_map.mp hfield
    exact ⟨List.not_mem_nil, List.not_mem_nil⟩

/-- `ilen + 1` overflows. -/
theorem FindsRight.asked (h : FindsRight names name ilen) : ilen ≠ 2147483647 := by
  rintro rfl
  have hlen : (List.replicate 2147483648 (0 : UInt8)).length = 2147483648 := List.length_replicate
  have hfault : ∀ text, getXMLBuffer text name (List.replicate 2147483648 0) 2147483647 =
      .error .outOfBounds := fun text => by
    rw [getXMLBuffer, cleared_overflow (by omega)]
    rfl
  by_cases hmem : name ∈ names
  · obtain ⟨array, hcall, -⟩ := h.found _ (written_empty names) [] (List.mem_map_of_mem hmem)
      (by decide) (List.replicate 2147483648 0) (by omega) (by omega)
    rw [hfault] at hcall
    cases hcall
  · obtain ⟨array, hcall⟩ :=
      h.absent hmem _ (written_empty names) (List.replicate 2147483648 0) (by omega)
    rw [hfault] at hcall
    cases hcall

theorem FindsRight.none (h : FindsRight names name ilen) (hnames : ∀ n ∈ names, Plain n)
    (hname : Plain name) (hint : ilen < 2147483648) (hpos : 0 ≤ ilen) (hnot : name ∉ names)
    {t : Bytes} {before behind : List Bytes} (htags : tags names = before ++ t :: behind)
    (hbefore : ∀ u ∈ before, ¬ sought name <+: u) (ht : sought name <+: t) :
    ∀ u ∈ t :: behind, ¬ sought (slashed name) <+: u := by
  intro u hu hends
  have hwf := wellformed_empty hnames
  rw [tags_empty, List.map_eq_append_iff] at htags
  obtain ⟨A, C, heq, rfl, hC⟩ := htags
  obtain ⟨e, B, rfl, rfl, rfl⟩ := List.map_eq_cons_iff.mp hC
  rw [heq] at hwf
  obtain ⟨b₁, hS⟩ := strstr_at hname A e B (fun d hd => hwf d (List.mem_append_left _ hd))
    (fun d hd => hbefore _ (List.mem_map_of_mem hd)) ht
  rw [← List.map_cons (f := fun e : Bytes × Bytes => tag e.1), List.mem_map] at hu
  obtain ⟨d, hd, rfl⟩ := hu
  obtain ⟨A', d', B', heq', hA', hd'⟩ :=
    Blocks.exists_leftmost (P := fun e => sought (slashed name) <+: tag e.1) ⟨d, hd, hends⟩
  obtain ⟨b₂, hE⟩ := strstr_at (slashed_plain hname) A' d' B'
    (fun c hc => hwf c (List.mem_append_right _ (heq' ▸ List.mem_append_left _ hc))) hA' hd'
  rw [← heq', ← drop_entryText A] at hE
  have hlen : (List.replicate (ilen.toNat + 1) (0 : UInt8)).length = ilen.toNat + 1 :=
    List.length_replicate
  obtain ⟨array, hcall⟩ := h.absent hnot _ (written_empty names)
    (List.replicate (ilen.toNat + 1) 0) (by omega)
  rw [xmlText_eq, heq] at hcall
  obtain ⟨array₁, hset, -⟩ := bind_eq_ok.mp hcall
  rw [getXMLBuffer_some hname.2.2 hset hS hE] at hcall
  obtain ⟨src, -, hcall⟩ := bind_eq_ok.mp hcall
  obtain ⟨array₂, -, hcall⟩ := bind_eq_ok.mp hcall
  cases hcall

end

theorem getXMLBuffer_right_iff {names : List Bytes} {name : Bytes} {ilen : Int}
    (hnames : ∀ n ∈ names, Plain n) (hname : Plain name) (hpos : 0 ≤ ilen)
    (hint : ilen < 2147483648) : FindsRight names name ilen ↔ ToldApart names name ilen := by
  constructor
  · intro h
    refine ⟨h.asked, fun hmem => ?_, fun before behind hsplit => ?_, fun hmem => ?_,
      fun hnot before t behind htags hbefore ht => ?_⟩
    · obtain ⟨before, behind, hsplit⟩ := List.append_of_mem hmem
      exact (h.first hnames hint hpos hsplit).2
    · exact (h.first hnames hint hpos hsplit).1
    · obtain ⟨before, behind, hsplit⟩ := List.append_of_mem hmem
      exact h.last hnames hint hpos hsplit
    · exact h.none hnames hname hint hpos hnot htags hbefore ht
  · intro h
    refine ⟨fun fields hfields v hv hlt value hroom hall => ?_,
      fun hnot fields hfields value hroom => ?_⟩
    · exact found_of_toldApart hnames hpos hint h hfields hv hlt hroom hall
    · exact absent_of_toldApart hnames hname hint h hnot hfields hroom

theorem tag_begins {a b : Bytes} (hb : Plain b) (h : tag a <+: tag b) : a = b := by
  rcases List.prefix_concat_iff.mp (List.cons_prefix_cons.mp h).2 with heq | hin
  · exact List.append_cancel_right heq
  · exact absurd (hin.subset (List.mem_append_right a (List.mem_singleton_self 62))) hb.2.1

theorem sought_of_short {body : Bytes} (h : body.length ≤ 47) : sought body = tag body := by
  refine List.take_of_length_le ?_
  rw [tag, List.length_cons, List.length_append, List.length_singleton]
  omega

/-- Both tags fit, and no end tag is a start tag. -/
theorem toldApart_of_short {names : List Bytes} {name : Bytes} {ilen : Int} (hnodup : names.Nodup)
    (hnames : ∀ n ∈ names, Plain n) (hname : Plain name) (hshort : name.length ≤ 46)
    (hslash : name.head? ≠ some 47) (hasked : ilen ≠ 2147483647) : ToldApart names name ilen := by
  have hS : sought name = tag name := sought_of_short (by omega)
  have hE : sought (slashed name) = tag (slashed name) :=
    sought_of_short (by rw [slashed, List.length_cons]; omega)
  -- the only tag that begins with the start tag
  have honly : ∀ ns : List Bytes, (∀ n ∈ ns, Plain n) → name ∉ ns →
      ∀ t ∈ tags ns, ¬ sought name <+: t := by
    intro ns hns hnot t ht hpre
    rw [hS] at hpre
    obtain ⟨n, hn, ht⟩ := List.mem_flatMap.mp ht
    rcases List.mem_pair.mp ht with rfl | rfl
    · exact hnot (tag_begins (hns n hn) hpre ▸ hn)
    · exact hslash (by rw [tag_begins (slashed_plain (hns n hn)) hpre]; rfl)
  refine ⟨hasked, fun _ => by omega, fun before behind hsplit => ?_, fun _ hpre => ?_, ?_⟩
  · rw [hsplit] at hnodup hnames
    refine honly before (fun n hn => hnames n (List.mem_append_left _ hn)) fun hmem => ?_
    exact (List.nodup_append.mp hnodup).2.2 name hmem name List.mem_cons_self rfl
  · rw [hE] at hpre
    have hlen := congrArg List.length (tag_begins hname hpre)
    rw [slashed, List.length_cons] at hlen
    omega
  · intro hnot before t behind htags _ ht
    refine absurd ht (honly names hnames hnot t ?_)
    rw [htags]
    exact List.mem_append_right _ List.mem_cons_self

theorem getXMLBuffer_right_iff_names :
    FindsRight [ascii "filename", ascii "mtime", ascii "size"] (ascii "mtime") 4 := by
  have hplain : ∀ n ∈ [ascii "filename", ascii "mtime", ascii "size"], Plain n := by
    unfold Plain
    decide
  have hname : Plain (ascii "mtime") := hplain _ (by decide)
  exact (getXMLBuffer_right_iff hplain hname (by decide) (by decide)).mpr
    (toldApart_of_short (by decide) hplain hname (by decide) (by decide) (by decide))

/-- A name of 48 bytes, and one that begins with it in front. -/
theorem same_beginning_not_found : ¬ ∃ array,
    getXMLBuffer (xmlText [(List.replicate 49 97, ascii "1"), (List.replicate 48 97, ascii "2")])
      (List.replicate 48 97) (List.replicate 10 0) 0 = .ok (true, array) ∧
        cStr array = ascii "2" := by
  have hcall : getXMLBuffer
      (xmlText [(List.replicate 49 97, ascii "1"), (List.replicate 48 97, ascii "2")])
      (List.replicate 48 97) (List.replicate 10 0) 0 =
        .ok (true, ascii ">1" ++ List.replicate 8 0) := by
    decide +kernel
  rintro ⟨array, h, hcStr⟩
  rw [hcall] at h
  cases h
  exact absurd hcStr (by decide)

end AsioServer.Public
