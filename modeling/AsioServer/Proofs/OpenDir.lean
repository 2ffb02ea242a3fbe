import AsioServer.Proofs.Paths

/-!
# What `OpenDir` collects

The list is one for all levels, and its length is looked at only after a name has
been added. The directory in which it becomes full is left, but those above it go
on: each of them adds what it still finds, and each directory below them a name.
So the limit is kept if nothing is found outside the directory in which it is
reached, and what is collected are files as far as only files are found.
-/

namespace AsioServer

open CDir

/-- The entries of a directory, in the order in which they are read. -/
inductive Dir where
  | nil
  | hidden (name : Bytes) (rest : Dir)
  | file (name : Bytes) (regular : Bool) (rest : Dir)
  | dir (name : Bytes) (readable : Bool) (sub rest : Dir)

namespace Dir

def names : Dir → List Bytes
  | nil => []
  | hidden name rest | file name _ rest | dir name _ _ rest => name :: rest.names

def depth : Dir → Nat
  | nil => 0
  | hidden _ rest | file _ _ rest => rest.depth
  | dir _ _ sub rest => max (sub.depth + 1) rest.depth

/-- The system calls show the tree below a directory. -/
def Shown (sys : System) (dirName : Bytes) : Dir → Prop
  | nil => True
  | hidden name rest => name.head? = some 46 ∧ rest.Shown sys dirName
  | file name regular rest =>
      Named name ∧ name ∉ rest.names ∧
        sys.stat (childPath dirName name) = some (if regular then .regular else .special) ∧
          rest.Shown sys dirName
  | dir name readable sub rest =>
      Named name ∧ name ∉ rest.names ∧ sys.stat (childPath dirName name) = some .directory ∧
        sys.opendir (childPath dirName name) = (if readable then some sub.names else none) ∧
          sub.Shown sys (childPath dirName name) ∧ rest.Shown sys dirName

/-- The paths that are looked at have at most 298 bytes. -/
def Short (child : Bool) (dirName : Bytes) : Dir → Prop
  | nil => True
  | hidden _ rest => rest.Short child dirName
  | file name _ rest => dirName.length + 1 + name.length ≤ 298 ∧ rest.Short child dirName
  | dir name _ sub rest =>
      dirName.length + 1 + name.length ≤ 298 ∧
        (child = true → sub.Short child (childPath dirName name)) ∧ rest.Short child dirName

end Dir

/-- What is found: the directories on the way to it, its name, and whether it is a file. -/
structure Item where
  dir : List Bytes
  name : Bytes
  regular : Bool

namespace Item

def comps (item : Item) : List Bytes := item.dir ++ [item.name]

def path (top : Bytes) (item : Item) : Bytes := item.comps.foldl childPath top

end Item

/-- All visible entries that are no directory and match, as far down as is searched. -/
def walk (q : Search) (c : List Bytes) : Dir → List Item
  | .nil => []
  | .hidden _ rest => walk q c rest
  | .file name regular rest =>
      (if matchStr name (cStr q.inMatchStr) = .ok true then [⟨c, name, regular⟩] else []) ++
        walk q c rest
  | .dir name _ sub rest =>
      (if q.bAndChild then walk q (c ++ [name]) sub else []) ++ walk q c rest

/-! ## A list with a limit -/

/-- What is found behind the `k`-th is in its directory or below it. -/
def Together (k : Nat) (items : List Item) : Prop :=
  ∀ m, items[k - 1]? = some m → ∀ item ∈ items.drop k, m.dir <+: item.dir

/-- What a search adds to the names it begins with. -/
structure Adds (limit : Nat) (top : Bytes) (names : List Bytes) (items : List Item)
    (added : List Bytes) : Prop where
  all : names.length + items.length < limit → added = items.map (Item.path top)
  full : names.length < limit → limit ≤ names.length + items.length →
    ∃ extra, added = (items.take (limit - names.length)).map (Item.path top) ++ extra ∧
      (extra = [] ↔ Together (limit - names.length) items)
  beyond : limit ≤ names.length → (added = [] ↔ items = [])

section

variable {limit : Nat} {top : Bytes} {names added added' : List Bytes} {items items' : List Item}

theorem adds_nil : Adds limit top names [] [] where
  all _ := rfl
  full hlt hle := absurd hlt (Nat.not_lt.mpr hle)
  beyond _ := ⟨fun _ => rfl, fun _ => rfl⟩

theorem adds_one (item : Item) (h : names.length + 1 < limit) :
    Adds limit top names [item] [item.path top] where
  all _ := rfl
  full _ hle := absurd h (Nat.not_lt.mpr hle)
  beyond hle := absurd hle (by omega)

/-- The last name there is room for, and what is not looked at any more. -/
theorem adds_last (item : Item) (h : limit ≤ names.length + 1)
    (hitems : ∀ item' ∈ items, item.dir <+: item'.dir) :
    Adds limit top names (item :: items) [item.path top] where
  all hlt := by
    rw [List.length_cons] at hlt
    omega
  full hlt _ := by
    have hk : limit - names.length = 1 := by omega
    rw [hk]
    refine ⟨[], rfl, ⟨fun _ m hm => ?_, fun _ => rfl⟩⟩
    cases hm
    exact hitems
  beyond _ := iff_of_false (List.cons_ne_nil _ _) (List.cons_ne_nil _ _)

theorem together_append_right {k : Nat} (h : items.length < k) :
    Together k (items ++ items') ↔ Together (k - items.length) items' := by
  unfold Together
  rw [List.getElem?_append_right (by omega), List.drop_append,
    List.drop_of_length_le (Nat.le_of_lt h), List.nil_append, Nat.sub_right_comm]

theorem together_append_left {k : Nat} (hpos : 1 ≤ k) (h : k ≤ items.length)
    (hapart : ∀ item ∈ items, ∀ item' ∈ items', ¬ item.dir <+: item'.dir) :
    Together k (items ++ items') ↔ Together k items ∧ items' = [] := by
  unfold Together
  rw [List.getElem?_append_left (by omega), List.drop_append_of_le_length h]
  constructor
  · intro hall
    obtain ⟨m, hm⟩ : ∃ m, items[k - 1]? = some m :=
      ⟨_, List.getElem?_eq_getElem (by omega)⟩
    refine ⟨fun m hm item hitem => hall m hm item (List.mem_append_left _ hitem), ?_⟩
    refine List.eq_nil_iff_forall_not_mem.mpr fun item' hitem' => ?_
    exact hapart m (List.mem_of_getElem? hm) item' hitem'
      (hall m hm item' (List.mem_append_right _ hitem'))
  · rintro ⟨hall, rfl⟩
    rw [List.append_nil]
    exact hall

/-- One search after the other. Once the list is full, what is found by the second lies
outside the directories of the first. -/
theorem Adds.append (h : Adds limit top names items added)
    (h' : Adds limit top (names ++ added) items' added')
    (hapart : limit ≤ names.length + items.length →
      ∀ item ∈ items, ∀ item' ∈ items', ¬ item.dir <+: item'.dir) :
    Adds limit top names (items ++ items') (added ++ added') where
  all hlt := by
    rw [List.length_append] at hlt
    have hadded := h.all (by omega)
    rw [h'.all (by rw [List.length_append, hadded, List.length_map]; omega), hadded,
      List.map_append]
  full hlt hle := by
    rw [List.length_append] at hle
    rcases Nat.lt_or_ge (names.length + items.length) limit with hroom | hfull
    · have hadded := h.all hroom
      have hlen : (names ++ added).length = names.length + items.length := by
        rw [List.length_append, hadded, List.length_map]
      obtain ⟨extra, hextra, hiff⟩ := h'.full (by omega) (by omega)
      refine ⟨extra, ?_, ?_⟩
      · have htake : items.take (limit - names.length) = items :=
          List.take_of_length_le (by omega)
        rw [hextra, hlen, hadded, List.take_append, htake, List.map_append, List.append_assoc,
          Nat.sub_sub]
      · rw [hiff, hlen, together_append_right (by omega), Nat.sub_sub]
    · obtain ⟨extra, hextra, hiff⟩ := h.full hlt hfull
      have hlen : limit ≤ (names ++ added).length := by
        rw [List.length_append, hextra, List.length_append, List.length_map, List.length_take]
        omega
      refine ⟨extra ++ added', ?_, ?_⟩
      · rw [hextra, List.take_append_of_le_length (by omega), List.append_assoc]
      · rw [List.append_eq_nil_iff, hiff, h'.beyond hlen,
          together_append_left (by omega) (by omega) (hapart hfull)]
  beyond hle := by
    rw [List.append_eq_nil_iff, List.append_eq_nil_iff, h.beyond hle,
      h'.beyond (by rw [List.length_append]; omega)]

end

/-! ## The tree -/

section

variable {q : Search} {c : List Bytes} {top : Bytes}

theorem comps_of_walk {d : Dir} {dirName : Bytes} (hshown : d.Shown q.sys dirName) {item : Item}
    (h : item ∈ walk q c d) :
    c <+: item.dir ∧ ∃ name ∈ d.names, ∃ more,
      item.comps = c ++ name :: more ∧ ∀ n ∈ name :: more, Named n := by
  induction d generalizing c dirName with
  | nil => cases h
  | hidden name rest ih =>
      obtain ⟨hdir, n, hn, more, hcomps, hnamed⟩ := ih hshown.2 h
      exact ⟨hdir, n, List.mem_cons_of_mem name hn, more, hcomps, hnamed⟩
  | file name regular rest ih =>
      obtain ⟨hname, -, -, hrest⟩ := hshown
      rw [walk, List.mem_append] at h
      rcases h with h | h
      · split at h
        · rw [List.mem_singleton.mp h]
          refine ⟨List.prefix_refl c, name, List.mem_cons_self, [], rfl, ?_⟩
          exact List.forall_mem_singleton.mpr hname
        · cases h
      · obtain ⟨hdir, n, hn, more, hcomps, hnamed⟩ := ih hrest h
        exact ⟨hdir, n, List.mem_cons_of_mem name hn, more, hcomps, hnamed⟩
  | dir name readable sub rest ihsub ih =>
      obtain ⟨hname, -, -, -, hsub, hrest⟩ := hshown
      rw [walk, List.mem_append] at h
      rcases h with h | h
      · split at h
        · obtain ⟨hdir, n, -, more, hcomps, hnamed⟩ := ihsub hsub h
          refine ⟨(List.prefix_append c [name]).trans hdir, name, List.mem_cons_self, n :: more, ?_,
            List.forall_mem_cons.mpr ⟨hname, hnamed⟩⟩
          rw [hcomps, List.append_assoc, List.singleton_append]
        · cases h
      · obtain ⟨hdir, n, hn, more, hcomps, hnamed⟩ := ih hrest h
        exact ⟨hdir, n, List.mem_cons_of_mem name hn, more, hcomps, hnamed⟩

/-- What is below an entry is not below one behind it, nor beside it. -/
theorem apart_of_walk {sub rest : Dir} {dirName dirName' name : Bytes}
    (hsub : sub.Shown q.sys dirName') (hrest : rest.Shown q.sys dirName)
    (hname : name ∉ rest.names) {item item' : Item} (h : item ∈ walk q (c ++ [name]) sub)
    (h' : item' ∈ walk q c rest) : ¬ c ++ [name] <+: item'.comps ∧ ¬ item.dir <+: item'.dir := by
  obtain ⟨hdir, -⟩ := comps_of_walk hsub h
  obtain ⟨-, n, hn, more, hcomps, -⟩ := comps_of_walk hrest h'
  have hnot : ¬ c ++ [name] <+: item'.comps := by
    rw [hcomps, List.prefix_append_right_inj, List.cons_prefix_cons]
    exact fun hpre => hname (hpre.1 ▸ hn)
  exact ⟨hnot, fun hpre => hnot ((hdir.trans hpre).trans (List.prefix_append _ _))⟩

theorem walk_nodup {d : Dir} {dirName : Bytes} (hshown : d.Shown q.sys dirName) :
    ((walk q c d).map Item.comps).Nodup := by
  induction d generalizing c dirName with
  | nil => exact List.nodup_nil
  | hidden name rest ih => exact ih hshown.2
  | file name regular rest ih =>
      obtain ⟨-, hnot, -, hrest⟩ := hshown
      rw [walk]
      split
      · rw [List.singleton_append, List.map_cons, List.nodup_cons]
        refine ⟨fun hmem => ?_, ih hrest⟩
        obtain ⟨item, hitem, heq⟩ := List.mem_map.mp hmem
        obtain ⟨-, n, hn, more, hcomps, -⟩ := comps_of_walk hrest hitem
        rw [hcomps] at heq
        have hsame : n = name := (List.cons.inj (List.append_cancel_left heq)).1
        exact hnot (hsame ▸ hn)
      · exact ih hrest
  | dir name readable sub rest ihsub ih =>
      obtain ⟨-, hnot, -, -, hsub, hrest⟩ := hshown
      rw [walk, List.map_append]
      refine List.nodup_append.mpr ⟨?_, ih hrest, ?_⟩
      · split
        · exact ihsub hsub
        · exact List.nodup_nil
      · rintro p hp p' hp' rfl
        obtain ⟨item', hitem', rfl⟩ := List.mem_map.mp hp'
        obtain ⟨item, hitem, heq⟩ := List.mem_map.mp hp
        split at hitem
        · obtain ⟨hdir, -⟩ := comps_of_walk hsub hitem
          refine (apart_of_walk hsub hrest hnot hitem hitem').1 ?_
          rw [← heq]
          exact hdir.trans (List.prefix_append _ _)
        · cases hitem

theorem path_of_walk {d : Dir} {dirName : Bytes} (hshown : d.Shown q.sys dirName)
    {item item' : Item}
    (h : item ∈ walk q [] d) (h' : item' ∈ walk q [] d) (heq : item.path top = item'.path top) :
    item = item' := by
  obtain ⟨-, n, -, more, hcomps, hnamed⟩ := comps_of_walk hshown h
  obtain ⟨-, n', -, more', hcomps', hnamed'⟩ := comps_of_walk hshown h'
  refine List.inj_on_of_nodup_map (walk_nodup hshown) h h' ?_
  rw [List.nil_append] at hcomps hcomps'
  unfold Item.path at heq
  rw [hcomps, hcomps'] at heq ⊢
  exact path_injective (List.cons_ne_nil _ _) (List.cons_ne_nil _ _) hnamed hnamed' heq

/-! ## The search -/

theorem nul_notMem_squeeze {s : Bytes} (h : 0 ∉ s) : 0 ∉ squeeze s := by
  induction s with
  | nil => exact h
  | cons c s ih =>
      rw [List.mem_cons, not_or] at h
      rw [squeeze_cons]
      split
      · exact ih h.2
      · exact List.not_mem_cons_of_ne_of_not_mem h.1 (ih h.2)

theorem nul_notMem_childPath {dirName name : Bytes} (hdir : 0 ∉ dirName) (h : Named name) :
    0 ∉ childPath dirName name := by
  refine nul_notMem_squeeze (nul_notMem_append hdir ?_)
  exact List.not_mem_cons_of_ne_of_not_mem (by decide) h.nul

theorem foldl_childPath (c : List Bytes) (top name : Bytes) :
    (c ++ [name]).foldl childPath top = childPath (c.foldl childPath top) name := by
  rw [List.foldl_append, List.foldl_cons, List.foldl_nil]

/-- An entry that is no directory. -/
theorem readdirLoop_file {child : Visit} {dirName name : Bytes} {rest : List Bytes} {mode : Mode}
    {filestat : Option Mode} {names : List Bytes} (hnul : 0 ∉ dirName) (hname : Named name)
    (hlen : dirName.length + 1 + name.length ≤ 298)
    (hstat : q.sys.stat (childPath dirName name) = some mode) (hmode : mode ≠ .directory) :
    readdirLoop q child dirName (name :: rest) filestat names =
      match matchStr name (cStr q.inMatchStr) with
      | .error f => some (.error f)
      | .ok false => readdirLoop q child dirName rest (some mode) names
      | .ok true =>
          if q.inMaxCount ≤ (names ++ [childPath dirName name]).length then
            some (.ok (true, names ++ [childPath dirName name]))
          else readdirLoop q child dirName rest (some mode) (names ++ [childPath dirName name]) := by
  rw [readdirLoop, if_neg hname.visible, tempFileName_eq hnul hname hlen]
  dsimp only
  rw [hstat]
  cases mode with
  | directory => exact absurd rfl hmode
  | regular => rfl
  | special => rfl

theorem readdirLoop_dir {child : Visit} {dirName name : Bytes} {rest : List Bytes}
    {filestat : Option Mode} {names : List Bytes} (hnul : 0 ∉ dirName) (hname : Named name)
    (hlen : dirName.length + 1 + name.length ≤ 298)
    (hstat : q.sys.stat (childPath dirName name) = some .directory) :
    readdirLoop q child dirName (name :: rest) filestat names =
      if q.bAndChild then
        match child (childPath dirName name) names with
        | some (.ok (true, names)) => readdirLoop q child dirName rest (some .directory) names
        | failed => failed
      else readdirLoop q child dirName rest (some .directory) names := by
  rw [readdirLoop, if_neg hname.visible, tempFileName_eq hnul hname hlen]
  dsimp only
  rw [hstat]
  rfl

/-- What follows on an entry that is no directory, in a search that ends well. -/
theorem readdirLoop_file_inv {child : Visit} {dirName name : Bytes} {rest : List Bytes}
    {regular : Bool} {filestat : Option Mode} {names names' : List Bytes} (hnul : 0 ∉ dirName)
    (hname : Named name) (hlen : dirName.length + 1 + name.length ≤ 298)
    (hstat : q.sys.stat (childPath dirName name) = some (if regular then .regular else .special))
    (h : readdirLoop q child dirName (name :: rest) filestat names = some (.ok (true, names'))) :
    (matchStr name (cStr q.inMatchStr) ≠ .ok true ∧ ∃ filestat,
      readdirLoop q child dirName rest filestat names = some (.ok (true, names'))) ∨
    (matchStr name (cStr q.inMatchStr) = .ok true ∧ q.inMaxCount ≤ names.length + 1 ∧
      names' = names ++ [childPath dirName name]) ∨
    (matchStr name (cStr q.inMatchStr) = .ok true ∧ names.length + 1 < q.inMaxCount ∧
      ∃ filestat, readdirLoop q child dirName rest filestat (names ++ [childPath dirName name]) =
        some (.ok (true, names'))) := by
  have hmode : (if regular then Mode.regular else Mode.special) ≠ .directory := by
    cases regular <;> decide
  rw [readdirLoop_file hnul hname hlen hstat hmode, List.length_append, List.length_singleton] at h
  cases hmatch : matchStr name (cStr q.inMatchStr) with
  | error f =>
      rw [hmatch] at h
      cases h
  | ok found =>
      rw [hmatch] at h
      cases found with
      | false => exact Or.inl ⟨by decide, _, h⟩
      | true =>
          dsimp only at h
          split at h
          · next hfull =>
              cases h
              exact Or.inr (Or.inl ⟨rfl, hfull, rfl⟩)
          · next hroom => exact Or.inr (Or.inr ⟨rfl, Nat.lt_of_not_le hroom, _, h⟩)

/-- What follows on a directory, in a search that ends well. -/
theorem readdirLoop_dir_inv {levels : Nat} {dirName name : Bytes} {rest entries : List Bytes}
    {readable : Bool} {filestat : Option Mode} {names names' : List Bytes} (hnul : 0 ∉ dirName)
    (hname : Named name) (hlen : dirName.length + 1 + name.length ≤ 298)
    (hstat : q.sys.stat (childPath dirName name) = some .directory)
    (hopen : q.sys.opendir (childPath dirName name) = if readable then some entries else none)
    (h : readdirLoop q (visit q levels) dirName (name :: rest) filestat names =
      some (.ok (true, names'))) :
    (q.bAndChild = false ∧ readdirLoop q (visit q levels) dirName rest (some .directory) names =
      some (.ok (true, names'))) ∨
    (q.bAndChild = true ∧ ∃ below names₁,
      readdirLoop q (visit q below) (childPath dirName name) entries none names =
        some (.ok (true, names₁)) ∧
      readdirLoop q (visit q levels) dirName rest (some .directory) names₁ =
        some (.ok (true, names'))) := by
  rw [readdirLoop_dir hnul hname hlen hstat] at h
  cases hchild : q.bAndChild with
  | false =>
      rw [hchild] at h
      exact Or.inl ⟨rfl, h⟩
  | true =>
      rw [hchild, if_pos rfl] at h
      split at h
      · next names₁ hvisit =>
          cases levels with
          | zero => cases hvisit
          | succ below =>
              rw [visit, hopen] at hvisit
              cases readable with
              | false => cases hvisit
              | true => exact Or.inr ⟨rfl, below, names₁, hvisit, h⟩
      · next hfailed => exact absurd h (hfailed names')

/-- A search that ends well adds what it should. -/
theorem readdirLoop_adds {d : Dir} {levels : Nat} {dirName : Bytes} {filestat : Option Mode}
    {names names' : List Bytes} (hpath : c.foldl childPath top = dirName) (hnul : 0 ∉ dirName)
    (hshown : d.Shown q.sys dirName) (hshort : d.Short q.bAndChild dirName)
    (h : readdirLoop q (visit q levels) dirName d.names filestat names =
      some (.ok (true, names'))) :
    ∃ added, names' = names ++ added ∧ Adds q.inMaxCount top names (walk q c d) added := by
  induction d generalizing c levels dirName filestat names names' with
  | nil =>
      cases h
      exact ⟨[], (List.append_nil names).symm, adds_nil⟩
  | hidden name rest ih =>
      rw [Dir.names, readdirLoop, if_pos hshown.1] at h
      exact ih hpath hnul hshown.2 hshort h
  | file name regular rest ih =>
      obtain ⟨hname, -, hstat, hrest⟩ := hshown
      obtain ⟨hlen, hshort⟩ := hshort
      have hitem : childPath dirName name = Item.path top ⟨c, name, regular⟩ := by
        rw [Item.path, Item.comps, foldl_childPath, hpath]
      rw [walk]
      rcases readdirLoop_file_inv hnul hname hlen hstat h with
        ⟨hmatch, _, h⟩ | ⟨hmatch, hfull, rfl⟩ | ⟨hmatch, hroom, _, h⟩
      · rw [if_neg hmatch]
        exact ih hpath hnul hrest hshort h
      · rw [if_pos hmatch, hitem]
        refine ⟨_, rfl, adds_last _ hfull fun item' hitem' => ?_⟩
        exact (comps_of_walk hrest hitem').1
      · rw [if_pos hmatch]
        rw [hitem] at h
        obtain ⟨added, rfl, hadds⟩ := ih hpath hnul hrest hshort h
        refine ⟨_, List.append_assoc _ _ _, (adds_one _ hroom).append hadds ?_⟩
        rw [List.length_singleton]
        omega
  | dir name readable sub rest ihsub ih =>
      obtain ⟨hname, hnot, hstat, hopen, hsub, hrest⟩ := hshown
      obtain ⟨hlen, hshortsub, hshort⟩ := hshort
      rw [walk]
      rcases readdirLoop_dir_inv hnul hname hlen hstat hopen h with
        ⟨hchild, h⟩ | ⟨hchild, below, names₁, hvisit, h⟩
      · rw [hchild, if_neg (by decide)]
        exact ih hpath hnul hrest hshort h
      · have hsubpath : (c ++ [name]).foldl childPath top = childPath dirName name := by
          rw [foldl_childPath, hpath]
        obtain ⟨added₁, rfl, hadds₁⟩ :=
          ihsub hsubpath (nul_notMem_childPath hnul hname) hsub (hshortsub hchild) hvisit
        obtain ⟨added₂, rfl, hadds₂⟩ := ih hpath hnul hrest hshort h
        rw [if_pos hchild]
        refine ⟨_, List.append_assoc _ _ _, hadds₁.append hadds₂ fun _ => ?_⟩
        exact fun item hitem item' hitem' => (apart_of_walk hsub hrest hnot hitem hitem').2

/-- With as many levels as the tree has, the search ends. -/
theorem readdirLoop_runs {d : Dir} {levels : Nat} {dirName : Bytes} {filestat : Option Mode}
    {names : List Bytes} (hdepth : d.depth ≤ levels) (hnul : 0 ∉ dirName)
    (hshown : d.Shown q.sys dirName) (hshort : d.Short q.bAndChild dirName) :
    ∃ r, readdirLoop q (visit q levels) dirName d.names filestat names = some r := by
  induction d generalizing levels dirName filestat names with
  | nil => exact ⟨_, rfl⟩
  | hidden name rest ih =>
      rw [Dir.names, readdirLoop, if_pos hshown.1]
      exact ih hdepth hnul hshown.2 hshort
  | file name regular rest ih =>
      obtain ⟨hname, -, hstat, hrest⟩ := hshown
      obtain ⟨hlen, hshort⟩ := hshort
      have hmode : (if regular then Mode.regular else Mode.special) ≠ .directory := by
        cases regular <;> decide
      rw [Dir.names, readdirLoop_file hnul hname hlen hstat hmode]
      cases matchStr name (cStr q.inMatchStr) with
      | error f => exact ⟨_, rfl⟩
      | ok found =>
          cases found with
          | false => exact ih hdepth hnul hrest hshort
          | true =>
              dsimp only
              split
              · exact ⟨_, rfl⟩
              · exact ih hdepth hnul hrest hshort
  | dir name readable sub rest ihsub ih =>
      obtain ⟨hname, -, hstat, hopen, hsub, hrest⟩ := hshown
      obtain ⟨hlen, hshortsub, hshort⟩ := hshort
      rw [Dir.depth] at hdepth
      rw [Dir.names, readdirLoop_dir hnul hname hlen hstat]
      split
      · next hchild =>
          obtain ⟨r, hr⟩ : ∃ r, visit q levels (childPath dirName name) names = some r := by
            obtain ⟨levels, rfl⟩ : ∃ l, levels = l + 1 := ⟨levels - 1, by omega⟩
            rw [visit, hopen]
            cases readable with
            | false => exact ⟨_, rfl⟩
            | true =>
                exact ihsub (by omega) (nul_notMem_childPath hnul hname) hsub (hshortsub hchild)
          rw [hr]
          split
          · exact ih (by omega) hnul hrest hshort
          · exact ⟨r, rfl⟩
      · exact ih (by omega) hnul hrest hshort

/-! ## The whole call -/

/-- The names are paths of different files of the tree, no more than asked for, and all there
are if they are fewer. -/
structure Collects (q : Search) (top : Bytes) (d : Dir) (names : List Bytes) : Prop where
  most : names.length ≤ q.inMaxCount
  different : names.Nodup
  files : ∀ p ∈ names, ∃ item ∈ walk q [] d, item.regular = true ∧ item.path top = p
  complete : names.length < q.inMaxCount →
    ∀ item ∈ walk q [] d, item.regular = true → item.path top ∈ names

/-- Of what is found, the first are files, and none lies outside the directory of the last
there is room for. -/
structure KeepsLimit (q : Search) (d : Dir) : Prop where
  regular : ∀ item ∈ (walk q [] d).take q.inMaxCount, item.regular = true
  together : Together q.inMaxCount (walk q [] d)

theorem Collects.perm {d : Dir} {names names' : List Bytes} (hperm : names.Perm names')
    (h : Collects q top d names) : Collects q top d names' where
  most := hperm.length_eq ▸ h.most
  different := hperm.nodup_iff.mp h.different
  files p hp := h.files p (hperm.mem_iff.mpr hp)
  complete hlt item hitem hregular :=
    hperm.mem_iff.mp (h.complete (hperm.length_eq ▸ hlt) item hitem hregular)

/-- What a search leaves that begins with no names. -/
theorem Adds.from_none {limit : Nat} {items : List Item} {added : List Bytes} (hpos : 1 ≤ limit)
    (h : Adds limit top [] items added) :
    ∃ extra, added = (items.take limit).map (Item.path top) ++ extra ∧
      (extra = [] ↔ Together limit items) := by
  rcases Nat.lt_or_ge items.length limit with hlt | hle
  · refine ⟨[], ?_, iff_of_true rfl fun m hm => ?_⟩
    · rw [List.append_nil, List.take_of_length_le (Nat.le_of_lt hlt)]
      exact h.all (by rw [List.length_nil]; omega)
    · rw [List.getElem?_eq_none (by omega)] at hm
      cases hm
  · exact h.full hpos (by rw [List.length_nil]; omega)

theorem collects_iff {d : Dir} (hshown : d.Shown q.sys top) (hpos : 1 ≤ q.inMaxCount)
    {added : List Bytes} (h : Adds q.inMaxCount top [] (walk q [] d) added) :
    Collects q top d added ↔ KeepsLimit q d := by
  obtain ⟨extra, rfl, hextra⟩ := h.from_none hpos
  have hsub : ∀ item ∈ (walk q [] d).take q.inMaxCount, item ∈ walk q [] d := fun _ h =>
    List.mem_of_mem_take h
  constructor
  · intro hcollects
    refine ⟨fun item hitem => ?_, hextra.mp ?_⟩
    · obtain ⟨item', hitem', hregular, heq⟩ :=
        hcollects.files (item.path top) (List.mem_append_left _ (List.mem_map_of_mem hitem))
      rw [path_of_walk hshown (hsub item hitem) hitem' heq.symm]
      exact hregular
    · rcases Nat.lt_or_ge (walk q [] d).length q.inMaxCount with hlt | hle
      · refine hextra.mpr fun m hm => ?_
        rw [List.getElem?_eq_none (by omega)] at hm
        cases hm
      · have hmost := hcollects.most
        rw [List.length_append, List.length_map, List.length_take, Nat.min_eq_left hle] at hmost
        exact List.eq_nil_of_length_eq_zero (by omega)
  · intro hkeeps
    rw [hextra.mpr hkeeps.together, List.append_nil]
    have hnodup : ((walk q [] d).take q.inMaxCount).Nodup :=
      ((walk_nodup hshown).of_map _).sublist (List.take_sublist _ _)
    refine ⟨?_, hnodup.map_on fun item hitem item' hitem' heq => ?_, fun p hp => ?_,
      fun hlt item hitem _ => ?_⟩
    · rw [List.length_map]
      exact List.length_take_le _ _
    · exact path_of_walk hshown (hsub item hitem) (hsub item' hitem') heq
    · obtain ⟨item, hitem, rfl⟩ := List.mem_map.mp hp
      exact ⟨item, hsub item hitem, hkeeps.regular item hitem, rfl⟩
    · rw [List.length_map, List.length_take] at hlt
      rw [List.take_of_length_le (by omega)]
      exact List.mem_map_of_mem hitem

theorem openDir_runs {d : Dir} (hnul : 0 ∉ top) (hopen : q.sys.opendir top = some d.names)
    (hshown : d.Shown q.sys top) (hshort : d.Short q.bAndChild top) (bSort : Bool) :
    ∃ r, openDir q (d.depth + 1) top bSort = some r := by
  unfold openDir
  split
  · exact ⟨_, rfl⟩
  · obtain ⟨r, hr⟩ : ∃ r, readdirLoop q (visit q d.depth) top d.names none [] = some r :=
      readdirLoop_runs (Nat.le_refl d.depth) hnul hshown hshort
    rw [visit, hopen]
    dsimp only
    rw [hr]
    split
    · exact ⟨_, rfl⟩
    · exact ⟨r, rfl⟩

end

theorem openDir_collects_iff {q : Search} {top : Bytes} {d : Dir} {levels : Nat} {bSort : Bool}
    {names : List Bytes} (hpos : 1 ≤ q.inMaxCount) (hnul : 0 ∉ top)
    (hopen : q.sys.opendir top = some d.names) (hshown : d.Shown q.sys top)
    (hshort : d.Short q.bAndChild top)
    (hrun : openDir q levels top bSort = some (.ok (true, names))) :
    Collects q top d names ↔ KeepsLimit q d := by
  unfold openDir at hrun
  split at hrun
  · cases hrun
  · cases levels with
    | zero => cases hrun
    | succ levels =>
        rw [visit, hopen] at hrun
        dsimp only at hrun
        split at hrun
        · next bRet names₁ hloop =>
            simp only [Option.some.injEq, Except.ok.injEq, Prod.mk.injEq] at hrun
            obtain ⟨rfl, rfl⟩ := hrun
            obtain ⟨added, rfl, hadds⟩ := readdirLoop_adds (c := []) rfl hnul hshown hshort hloop
            rw [← collects_iff hshown hpos hadds]
            have hperm : (if bSort then names₁.mergeSort fun a b => decide (a ≤ b) else names₁).Perm
                names₁ := by
              split
              · exact List.mergeSort_perm _ _
              · exact List.Perm.refl _
            exact ⟨Collects.perm hperm, Collects.perm hperm.symm⟩
        · next hfailed => exact absurd hrun (hfailed true names)

/-- A directory `d` with a file `a`, and a file `b` beside it. -/
def twoFiles : Dir :=
  .dir (ascii "d") true (.file (ascii "a") true .nil) (.file (ascii "b") true .nil)

def twoFilesSystem : System where
  access _ := true
  mkdir _ := true
  opendir p :=
    if p = ascii "/t" then some [ascii "d", ascii "b"]
    else if p = ascii "/t/d" then some [ascii "a"] else none
  stat p := some (if p = ascii "/t/d" then .directory else .regular)

theorem twoFiles_shown :
    twoFilesSystem.opendir (ascii "/t") = some twoFiles.names ∧
      twoFiles.Shown twoFilesSystem (ascii "/t") ∧ twoFiles.Short true (ascii "/t") := by
  have hnamed : ∀ c : UInt8, c ≠ 46 → c ≠ 47 → c ≠ 0 → Named [c] := fun c h46 h47 h0 =>
    ⟨List.cons_ne_nil c [], fun h => h46 (Option.some.inj h),
      fun h => h47 (List.mem_singleton.mp h).symm, fun h => h0 (List.mem_singleton.mp h).symm⟩
  refine ⟨by decide, ⟨hnamed 100 (by decide) (by decide) (by decide), by decide, by decide,
    by decide, ⟨hnamed 97 (by decide) (by decide) (by decide), by decide, by decide, trivial⟩,
    ⟨hnamed 98 (by decide) (by decide) (by decide), by decide, by decide, trivial⟩⟩, ?_⟩
  exact ⟨by decide, fun _ => ⟨by decide, trivial⟩, by decide, trivial⟩

theorem openDir_collects_iff_twoFiles :
    Collects ⟨twoFilesSystem, ascii "*", 2, true⟩ (ascii "/t") twoFiles
      [ascii "/t/d/a", ascii "/t/b"] := by
  obtain ⟨hopen, hshown, hshort⟩ := twoFiles_shown
  have hwalk : walk ⟨twoFilesSystem, ascii "*", 2, true⟩ [] twoFiles =
      [⟨[ascii "d"], ascii "a", true⟩, ⟨[], ascii "b", true⟩] := rfl
  have hrun : openDir ⟨twoFilesSystem, ascii "*", 2, true⟩ 2 (ascii "/t") false =
      some (.ok (true, [ascii "/t/d/a", ascii "/t/b"])) := by
    decide +kernel
  refine (openDir_collects_iff (by decide) (by decide) hopen hshown hshort hrun).mpr ⟨?_, ?_⟩
  · rw [hwalk]
    decide
  · rw [hwalk]
    exact fun m _ item hitem => by cases hitem

/-- The file below fills the list, and the one beside is added all the same. -/
theorem two_names_for_one :
    openDir ⟨twoFilesSystem, ascii "*", 1, true⟩ 2 (ascii "/t") false =
        some (.ok (true, [ascii "/t/d/a", ascii "/t/b"])) ∧
      ¬ Collects ⟨twoFilesSystem, ascii "*", 1, true⟩ (ascii "/t") twoFiles
        [ascii "/t/d/a", ascii "/t/b"] := by
  refine ⟨by decide +kernel, fun h => ?_⟩
  exact absurd h.most (by decide)

end AsioServer
