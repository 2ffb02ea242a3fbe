import AsioServer.Lib.Split
import AsioServer.Proofs.UpdateStr
import AsioServer.Ref.Dir

/-!
# Path names

`SNPRINTF` joins a directory and a name with two slashes, and `UpdateStr` makes
one slash of every run of them. As long as nothing is cut off the path of an
entry is the path of its directory, a slash and its name, and different entries
of a tree have different paths.
-/

namespace AsioServer

def slash : UInt8 := 47

/-- One slash for every run of them. -/
def squeeze : Bytes → Bytes :=
  List.foldr (fun c t => if c = slash ∧ t.head? = some slash then t else c :: t) []

/-- The path of an entry. -/
def childPath (dirName name : Bytes) : Bytes := squeeze (dirName ++ slash :: name)

@[simp] theorem squeeze_nil : squeeze [] = [] := rfl

theorem squeeze_cons (c : UInt8) (s : Bytes) :
    squeeze (c :: s) =
      if c = slash ∧ (squeeze s).head? = some slash then squeeze s else c :: squeeze s := rfl

theorem squeeze_append (s : Bytes) {t t' : Bytes} (h : squeeze t = squeeze t') :
    squeeze (s ++ t) = squeeze (s ++ t') := by
  rw [squeeze, List.foldr_append, List.foldr_append]
  exact congrArg (fun u => List.foldr _ u s) h

theorem head_squeeze_slash (s : Bytes) : (squeeze (slash :: s)).head? = some slash := by
  rw [squeeze_cons]
  split
  · next h => exact h.2
  · rfl

/-- A pair of slashes counts as one. -/
theorem squeeze_pair (a b : Bytes) :
    squeeze (a ++ slash :: slash :: b) = squeeze (a ++ slash :: b) := by
  refine squeeze_append a ?_
  rw [squeeze_cons slash (slash :: b), if_pos ⟨rfl, head_squeeze_slash b⟩]

theorem squeeze_of_absent {s : Bytes} (h : ¬ [slash, slash] <:+: s) : squeeze s = s := by
  induction s with
  | nil => rfl
  | cons c s ih =>
      rw [List.infix_cons_iff, not_or] at h
      rw [squeeze_cons, ih h.2, if_neg]
      rintro ⟨rfl, hhead⟩
      obtain ⟨t, rfl⟩ : ∃ t, s = slash :: t := by
        cases s with
        | nil => cases hhead
        | cons d t => exact ⟨t, by rw [Option.some.inj hhead]⟩
      exact h.1 ⟨t, rfl⟩

theorem squeeze_name {name : Bytes} (h : slash ∉ name) (t : Bytes) :
    squeeze (name ++ t) = name ++ squeeze t := by
  induction name with
  | nil => rfl
  | cons c name ih =>
      rw [List.mem_cons, not_or] at h
      rw [List.cons_append, squeeze_cons, if_neg fun hc => h.1 hc.1.symm, ih h.2, List.cons_append]

/-- What has no slash keeps those in front of it from those behind it. -/
theorem squeeze_around (s : Bytes) {name : Bytes} (h : slash ∉ name) (hne : name ≠ [])
    (t : Bytes) : squeeze (s ++ (name ++ t)) = squeeze s ++ (name ++ squeeze t) := by
  induction s with
  | nil => exact squeeze_name h t
  | cons c s ih =>
      have hhead : (squeeze s ++ (name ++ squeeze t)).head? = some slash ↔
          (squeeze s).head? = some slash := by
        cases hs : squeeze s with
        | nil =>
            obtain ⟨d, name, rfl⟩ := List.exists_cons_of_ne_nil hne
            rw [List.mem_cons, not_or] at h
            simpa using fun heq => h.1 heq.symm
        | cons d u => simp
      rw [List.cons_append, squeeze_cons, squeeze_cons, ih]
      by_cases hc : c = slash ∧ (squeeze s).head? = some slash
      · rw [if_pos hc, if_pos ⟨hc.1, hhead.mpr hc.2⟩]
      · rw [if_neg hc, if_neg fun h' => hc ⟨h'.1, hhead.mp h'.2⟩, List.cons_append]

theorem squeeze_squeeze_append (s t : Bytes) : squeeze (squeeze s ++ t) = squeeze (s ++ t) := by
  induction s with
  | nil => rfl
  | cons c s ih =>
      by_cases hc : c = slash ∧ (squeeze s).head? = some slash
      · obtain ⟨u, hu⟩ : ∃ u, squeeze s = slash :: u := by
          cases hs : squeeze s with
          | nil => rw [hs] at hc; cases hc.2
          | cons d u => rw [hs] at hc; exact ⟨u, by rw [Option.some.inj hc.2]⟩
        have hhead : (squeeze (s ++ t)).head? = some slash := by
          rw [← ih, hu]
          exact head_squeeze_slash (u ++ t)
        rw [squeeze_cons, if_pos hc, ih, List.cons_append, squeeze_cons c, if_pos ⟨hc.1, hhead⟩]
      · rw [squeeze_cons, if_neg hc, List.cons_append, List.cons_append, squeeze_cons, squeeze_cons c,
          ih]

/-! ## Paths of entries -/

/-- A name a directory can have among its visible entries. -/
structure Named (name : Bytes) : Prop where
  nonempty : name ≠ []
  visible : name.head? ≠ some 46
  slash : slash ∉ name
  nul : 0 ∉ name

theorem childPath_eq (dirName : Bytes) {name : Bytes} (h : Named name) :
    childPath dirName name = squeeze (dirName ++ [slash]) ++ name := by
  have haround := squeeze_around (dirName ++ [slash]) h.slash h.nonempty []
  rw [squeeze_nil, List.append_nil, List.append_assoc, List.singleton_append] at haround
  exact haround

/-- The names on the way to an entry, joined by slashes, behind the path of the top. -/
theorem path_eq {comps : List Bytes} (hne : comps ≠ []) (h : ∀ c ∈ comps, Named c) (top : Bytes) :
    comps.foldl childPath top = squeeze (top ++ [slash]) ++ [slash].intercalate comps := by
  induction comps generalizing top with
  | nil => exact absurd rfl hne
  | cons c comps ih =>
      rw [List.forall_mem_cons] at h
      rw [List.foldl_cons]
      by_cases hnil : comps = []
      · subst hnil
        rw [List.foldl_nil, List.intercalate_singleton, childPath_eq top h.1]
      · have hsplit : top ++ slash :: c ++ [slash] = top ++ [slash] ++ (c ++ [slash]) := by simp
        have hone : squeeze [slash] = [slash] := rfl
        rw [ih hnil h.2, List.intercalate_cons_of_ne_nil hnil, childPath, squeeze_squeeze_append,
          hsplit, squeeze_around _ h.1.slash h.1.nonempty, hone]
        simp only [List.append_assoc]

theorem pieces_of_names {comps : List Bytes} (hne : comps ≠ []) (h : ∀ c ∈ comps, slash ∉ c) :
    Split.Pieces [slash] ([slash].intercalate comps) comps where
  nonempty := hne
  joined := rfl
  absent p hp hin := h p hp (hin.subset (List.mem_singleton_self slash))
  leftmost front p rest hcomps hrest := by
    have hp : slash ∉ p := h p (hcomps ▸ List.mem_append_right front List.mem_cons_self)
    rw [List.intercalate_cons_of_ne_nil hrest, List.append_assoc, Replace.first_skip hp,
      Replace.first_append]
    simp

theorem path_injective {comps comps' : List Bytes} (hne : comps ≠ []) (hne' : comps' ≠ [])
    (h : ∀ c ∈ comps, Named c) (h' : ∀ c ∈ comps', Named c) {top : Bytes}
    (heq : comps.foldl childPath top = comps'.foldl childPath top) : comps = comps' := by
  rw [path_eq hne h, path_eq hne' h'] at heq
  have hpieces := pieces_of_names hne fun c hc => (h c hc).slash
  rw [List.append_cancel_left heq] at hpieces
  exact hpieces.unique (pieces_of_names hne' fun c hc => (h' c hc).slash)

/-! ## `strTempFileName` -/

/-- As many rounds as there are bytes are enough. -/
theorem run_squeeze {ilen : Nat} (hpos : 1 ≤ ilen) (hlt : ilen ≤ 4294967296) {n : Nat}
    {str s : Bytes} {k : Nat} (hroom : ilen ≤ str.length) (h : Holds str s) (hlen : s.length < ilen)
    (hn : s.length ≤ n) :
    ∃ str', Loop.run (Public.updateRound ilen [slash, slash] [slash] true) (n + 1) (str, k) =
      some (.ok str') ∧ Holds str' (squeeze s) := by
  induction n generalizing str s k with
  | zero =>
      obtain rfl := List.length_eq_zero_iff.mp (Nat.le_zero.mp hn)
      have hnot : ¬ [slash, slash] <:+: ([] : Bytes) := by simp
      exact ⟨str, Loop.run_leave (Public.updateRound_absent h hnot) 0, h⟩
  | succ n ih =>
      cases hfirst : Replace.first [slash, slash] s with
      | none =>
          have hnot := Replace.first_eq_none.mp hfirst
          refine ⟨str, Loop.run_leave (Public.updateRound_absent h hnot) _, ?_⟩
          rw [squeeze_of_absent hnot]
          exact h
      | some ab =>
          obtain ⟨a, b⟩ := ab
          obtain ⟨str', k', hround, hlen', hholds⟩ :=
            Public.updateRound_first (k := k) hpos hlt hroom h (show 0 ∉ [slash] by decide) hfirst
          have hshort := Rewrite.length_first [slash] hfirst
          simp only [List.length_cons, List.length_nil] at hshort
          rw [List.take_of_length_le (by omega)] at hholds
          obtain ⟨final, hrun, hfinal⟩ :=
            ih (k := k') (hlen' ▸ hroom) hholds (by omega) (by omega)
          have hsame : squeeze (a ++ [slash] ++ b) = squeeze s := by
            rw [(Replace.first_eq_some.mp hfirst).1, List.append_assoc, List.append_assoc]
            exact (squeeze_pair a b).symm
          exact ⟨final, (Loop.run_again hround _).trans hrun, hsame ▸ hfinal⟩

theorem snprintf_child {dirName name : Bytes} (hdir : 0 ∉ dirName) (hname : 0 ∉ name)
    (hshort : dirName.length + 1 + name.length ≤ 298) :
    Public.snprintf 3001 300 (ascii "%s//%s") [.str dirName, .str name] =
      .ok (dirName ++ slash :: slash :: name) := by
  have hprintf : printf (cStr (ascii "%s//%s")) [.str dirName, .str name] =
      .ok (dirName ++ slash :: slash :: name) := by
    show printf (percent :: 115 :: [slash, slash, percent, 115]) [.str dirName, .str name] = _
    rw [printf_percent_s, printf_cons (by decide), printf_cons (by decide), printf_percent_s,
      cStr_of_nulFree hdir, cStr_of_nulFree hname]
    show Except.ok (dirName ++ slash :: slash :: (name ++ [])) = _
    rw [List.append_nil]
  show (printf (cStr (ascii "%s//%s")) [.str dirName, .str name]).map (·.take 299) = _
  rw [hprintf]
  refine congrArg Except.ok (List.take_of_length_le ?_)
  rw [List.length_append, List.length_cons, List.length_cons]
  omega

/-- The path, if the array has room for it with two slashes. -/
theorem tempFileName_eq {dirName name : Bytes} (hdir : 0 ∉ dirName) (h : Named name)
    (hshort : dirName.length + 1 + name.length ≤ 298) :
    CDir.tempFileName dirName name = some (.ok (childPath dirName name)) := by
  obtain ⟨str, hstr, hlen, hlong⟩ : ∃ str : Bytes, dirName ++ slash :: slash :: name = str ∧
      str.length ≤ 299 ∧ 2 ≤ str.length := by
    refine ⟨_, rfl, ?_, ?_⟩ <;>
      rw [List.length_append, List.length_cons, List.length_cons] <;> omega
  have hnul : 0 ∉ str := by
    rw [← hstr]
    refine nul_notMem_append hdir ?_
    rw [List.mem_cons, List.mem_cons, not_or, not_or]
    exact ⟨by decide, by decide, h.nul⟩
  have hholds : Holds (str ++ List.replicate (3001 - str.length) 0) str := by
    have hzeros := holds_zeros hnul (show 0 < 3001 - str.length by omega) []
    rwa [List.append_nil] at hzeros
  have hbounds := Public.ilen_bounds str
  have hsmall : Public.ilen str ≤ 3001 := by
    have hint : int (10 * str.length) = 10 * str.length := int_eq (by omega) (by omega)
    unfold Public.ilen
    dsimp only
    rw [hint]
    split <;> omega
  have hfit : str.length < Public.ilen str := by omega
  have hroom : Public.ilen str ≤ (str ++ List.replicate (3001 - str.length) 0).length := by
    rw [List.length_append, List.length_replicate]
    omega
  obtain ⟨final, hrun, hfinal⟩ :=
    run_squeeze (k := 0) (by omega) (by omega) hroom hholds hfit (Nat.le_refl str.length)
  have hupdate : Public.updateStr (str.length + 1) (str ++ List.replicate (3001 - str.length) 0)
      (ascii "//") (ascii "/") true = some (.ok final) := by
    have hne : str ≠ [] := fun hnil => by rw [hnil] at hlong; cases hlong
    have hguard : strstr (ascii "/") (ascii "//") = none := by decide
    unfold Public.updateStr
    rw [hholds.cStr, if_neg hne, hguard, if_neg (by decide)]
    exact hrun
  unfold CDir.tempFileName
  rw [snprintf_child hdir h.nul hshort, hstr]
  dsimp only
  rw [hupdate]
  show some (Except.ok (cStr final)) = _
  rw [hfinal.cStr, ← hstr]
  exact congrArg (fun p => some (Except.ok p)) (squeeze_pair dirName name)

/-! ## The name of a temporary file -/

namespace Public

def tmpName (filename : Bytes) : Bytes := (filename ++ ascii ".tmp").take 299

theorem snprintf_tmp (filename : Bytes) :
    snprintf 301 300 (ascii "%s.tmp") [.str filename] = .ok (tmpName (cStr filename)) := by
  have hprintf : printf (cStr (ascii "%s.tmp")) [.str filename] =
      .ok (cStr filename ++ ascii ".tmp") := by
    show printf (percent :: 115 :: ascii ".tmp") [.str filename] = _
    rw [printf_percent_s]
    rfl
  show (printf (cStr (ascii "%s.tmp")) [.str filename]).map (·.take 299) = _
  rw [hprintf]
  rfl

theorem tmpName_length (filename : Bytes) :
    (tmpName filename).length = min 299 (filename.length + 4) := by
  rw [tmpName, List.length_take, List.length_append]
  rfl

/-- Cut to 299 bytes, it can be the name itself. -/
theorem tmpName_eq_iff {filename : Bytes} :
    tmpName filename = filename ↔ filename.length = 299 := by
  have hlen := tmpName_length filename
  constructor
  · intro h
    rw [h] at hlen
    omega
  · intro h
    rw [tmpName, ← h, List.take_left]

end Public

end AsioServer
