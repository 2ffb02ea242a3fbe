import AsioServer.Lib.Machine
import AsioServer.Ref.CPActive

/-!
# Places in the table of heartbeats

Two invariants over all interleavings. `Locked` is about the semaphore: it is zero
while a process sets it up or has taken it, and no more than one process does. So a
place that was found free stays free until it is written. `Placed` says whose the
places are: a process that has one finds its own pid there, or a record that is still
free and that it is about to write. Two processes with one place would both be about
to write it, and only one of them has the semaphore.

The scan for the own pid needs no lock: a record with the pid of a live process is
written and cleared by nobody else.
-/

namespace AsioServer

/-- The semaphore is being set up, or is taken. -/
def ActivePc.critical : ActivePc → Bool
  | .semctl | .find _ | .write _ | .v _ => true
  | .idle | .semget | .semCreate | .semAgain | .shmget | .scan _ | .p => false

structure Locked (s : ActiveState) : Prop where
  le : ∀ value, s.sem = some value → value ≤ 1
  zero : ∀ p a, s.procs p = some a → a.pc.critical = true → s.sem = some 0
  one : ∀ p q a b, s.procs p = some a → s.procs q = some b → a.pc.critical = true →
    b.pc.critical = true → p = q

namespace ActiveProc

/-- What a process knows of itself. -/
structure Sound (pid : Int) (a : ActiveProc) : Prop where
  pos : 0 < pid
  own : a.pc ≠ .idle → a.stprocinfo.pid = pid
  write : ∀ k, a.pc = .write k → a.mPos = some k
  added : a.returned = some true → a.pc = .idle
  place : a.pc = .v true ∨ a.returned = some true → a.mPos.isSome = true

/-- The place of a process has its own record, or is free and about to be written. -/
def Placed (shm : Nat → StProcinfo) (pid : Int) (a : ActiveProc) : Prop :=
  ∀ k, a.mPos = some k →
    k < maxNump ∧ ((shm k).pid = pid ∨ (shm k).pid = 0 ∧ a.pc = .write k)

end ActiveProc

structure Slots (s : ActiveState) : Prop where
  sound : ∀ p a, s.procs p = some a → a.Sound p
  placed : ∀ p a, s.procs p = some a → a.Placed s.shm p

/-! ## One process -/

namespace ActiveProc

/-- What a step of a call can do, to the semaphore, the table and the process. -/
inductive NextStep (a : ActiveProc) (sem : Option Nat) (shm : Nat → StProcinfo) :
    Option Nat → (Nat → StProcinfo) → ActiveProc → Prop
  /-- The call goes on. -/
  | goOn {b : ActiveProc} (hrun : a.pc ≠ .idle) (hfrom : ∀ k, a.pc ≠ .write k)
      (hto : ∀ k, b.pc ≠ .write k) (hadded : b.pc ≠ .v true)
      (hcrit : b.pc.critical = true → a.pc.critical = true) (hpos : b.mPos = a.mPos)
      (hpid : b.stprocinfo.pid = a.stprocinfo.pid) (hret : b.returned = a.returned) :
      NextStep a sem shm sem shm b
  /-- A system call has failed. -/
  | fail (hfrom : ∀ k, a.pc ≠ .write k) : NextStep a sem shm sem shm (a.ret false)
  | semCreate (hfrom : a.pc = .semCreate) (hsem : sem = none) :
      NextStep a sem shm (some 0) shm { a with mSem := true, pc := .semctl }
  | semctl (hfrom : a.pc = .semctl) : NextStep a sem shm (some 1) shm (a.goto .shmget)
  | own {ii : Nat} (hfrom : a.pc = .scan ii) (hlt : ii < maxNump)
      (hown : (shm ii).pid = a.stprocinfo.pid) :
      NextStep a sem shm sem shm { a with mPos := some ii, pc := .p }
  | p {value : Nat} {pc : ActivePc} (hfrom : a.pc = .p) (hsem : sem = some (value + 1))
      (hto : pc = .find 0 ∨ ∃ pos, pc = .write pos ∧ a.mPos = some pos) :
      NextStep a sem shm (some value) shm (a.goto pc)
  | free {ii : Nat} (hfrom : a.pc = .find ii) (hlt : ii < maxNump) (hfree : (shm ii).pid = 0) :
      NextStep a sem shm sem shm { a with mPos := some ii, pc := .write ii }
  | write {pos : Nat} (hfrom : a.pc = .write pos) :
      NextStep a sem shm sem (Function.update shm pos a.stprocinfo) (a.goto (.v true))
  | v {res : Bool} (hfrom : a.pc = .v res) :
      NextStep a sem shm (sem.map (· + 1)) shm (a.ret res)

variable {sem sem' : Option Nat} {shm shm' : Nat → StProcinfo} {a a' : ActiveProc} {ok : Bool}
  {now : Int}

theorem next_inv (h : a.next sem shm ok now = some (sem', shm', a')) :
    NextStep a sem shm sem' shm' a' := by
  unfold next at h
  cases hpc : a.pc with
  | idle =>
      rw [hpc] at h
      cases h
  | semget | semAgain | shmget =>
      rw [hpc] at h
      dsimp only at h
      repeat' split at h
      all_goals
        cases h
        first
          | exact .fail (by simp [hpc])
          | exact .goOn (by simp [hpc]) (by simp [hpc]) (by simp [goto]) (by simp [goto])
              (by simp [goto, ActivePc.critical]) rfl rfl rfl
  | semCreate =>
      rw [hpc] at h
      dsimp only at h
      repeat' split at h
      · cases h
        exact .goOn (by simp [hpc]) (by simp [hpc]) (by simp [goto]) (by simp [goto])
          (by simp [goto, ActivePc.critical]) rfl rfl rfl
      · cases h
        exact .semCreate hpc rfl
      · cases h
        exact .fail (by simp [hpc])
  | semctl =>
      rw [hpc] at h
      dsimp only at h
      split at h
      · cases h
        exact .semctl hpc
      · cases h
        exact .fail (by simp [hpc])
  | scan ii | find ii =>
      rw [hpc] at h
      dsimp only at h
      repeat' split at h
      · next hlt hfound =>
          cases h
          first
            | exact .own hpc hlt hfound
            | exact .free hpc hlt hfound
      all_goals
        cases h
        exact .goOn (by simp [hpc]) (by simp [hpc]) (by simp [goto]) (by simp [goto])
          (by simp [hpc, goto, ActivePc.critical]) rfl rfl rfl
  | p =>
      rw [hpc] at h
      dsimp only at h
      split at h
      · split at h
        · cases h
          exact .p hpc rfl (Or.inl rfl)
        · next pos hpos =>
            cases h
            exact .p hpc rfl (Or.inr ⟨pos, rfl, hpos⟩)
      · cases h
  | write pos =>
      rw [hpc] at h
      cases h
      exact .write hpc
  | v res =>
      rw [hpc] at h
      cases h
      exact .v hpc

/-- What a step does to the semaphore: nothing, or the process is the only one that is at it. -/
theorem next_sem (hle : ∀ value, sem = some value → value ≤ 1)
    (hzero : a.pc.critical = true → sem = some 0)
    (h : a.next sem shm ok now = some (sem', shm', a')) :
    (sem' = sem ∧ (a'.pc.critical = true → a.pc.critical = true)) ∨
      ((a.pc.critical = true ∨ sem ≠ some 0) ∧ (∀ value, sem' = some value → value ≤ 1) ∧
        (a'.pc.critical = true → sem' = some 0)) := by
  cases next_inv h with
  | goOn _ _ _ _ hcrit _ _ _ => exact Or.inl ⟨rfl, hcrit⟩
  | fail => exact Or.inl ⟨rfl, by simp [ActivePc.critical, ret]⟩
  | semCreate _ hsem => exact Or.inr ⟨Or.inr (by simp [hsem]), by simp, fun _ => rfl⟩
  | semctl hfrom =>
      exact Or.inr ⟨Or.inl (by rw [hfrom]; rfl), by simp, by simp [ActivePc.critical, goto]⟩
  | own => exact Or.inl ⟨rfl, by simp [ActivePc.critical]⟩
  | @p value _ hfrom hsem _ =>
      have hvalue : value = 0 := by
        have hone := hle _ hsem
        omega
      subst hvalue
      exact Or.inr ⟨Or.inr (by simp [hsem]), by simp, fun _ => rfl⟩
  | free hfrom => exact Or.inl ⟨rfl, fun _ => by rw [hfrom]; rfl⟩
  | write hfrom => exact Or.inl ⟨rfl, fun _ => by rw [hfrom]; rfl⟩
  | v hfrom =>
      have hcrit : a.pc.critical = true := by
        rw [hfrom]
        rfl
      rw [hzero hcrit]
      exact Or.inr ⟨Or.inl hcrit, by simp, by simp [ActivePc.critical, ret]⟩

section

variable {pid : Int}

/-- A step of a running call, that leaves the pid of the record as it is. -/
theorem Sound.move (h : a.Sound pid) (hrun : a.pc ≠ .idle)
    (hpid : a'.stprocinfo.pid = a.stprocinfo.pid) (hret : a'.returned = a.returned)
    (hwrite : ∀ k, a'.pc = .write k → a'.mPos = some k)
    (hplace : a'.pc = .v true → a'.mPos.isSome = true) : a'.Sound pid where
  pos := h.pos
  own _ := hpid.trans (h.own hrun)
  write := hwrite
  added hadded := absurd (h.added (hret ▸ hadded)) hrun
  place := fun hdone => hdone.elim hplace fun hadded =>
    absurd (h.added (hret ▸ hadded)) hrun

theorem Sound.new (hpos : 0 < pid) : new.Sound pid where
  pos := hpos
  own hrun := absurd rfl hrun
  write _ hpc := by cases hpc
  added hadded := by cases hadded
  place hdone := by rcases hdone with hv | hadded <;> contradiction

theorem Sound.ret (h : a.Sound pid) {res : Bool} (hres : res = true → a.mPos.isSome = true) :
    (a.ret res).Sound pid where
  pos := h.pos
  own hrun := absurd rfl hrun
  write _ hpc := by cases hpc
  added _ := rfl
  place := fun hdone => hdone.elim (fun hpc => by cases hpc) fun hadded =>
    hres (Option.some.inj hadded)

theorem next_sound (hs : a.Sound pid) (h : a.next sem shm ok now = some (sem', shm', a')) :
    a'.Sound pid := by
  cases next_inv h with
  | goOn hrun _ hto hadded _ _ hpid hret =>
      exact hs.move hrun hpid hret (fun k hk => absurd hk (hto k)) fun hv => absurd hv hadded
  | fail => exact hs.ret fun hres => by cases hres
  | semCreate hfrom | semctl hfrom | own hfrom =>
      exact hs.move (by simp [hfrom]) rfl rfl (by simp [goto]) (by simp [goto])
  | p hfrom _ hto =>
      refine hs.move (by simp [hfrom]) rfl rfl (fun k hk => ?_) fun hv => ?_
      · rcases hto with rfl | ⟨pos, rfl, hpos⟩
        · cases hk
        · cases hk
          exact hpos
      · rcases hto with rfl | ⟨pos, rfl, -⟩ <;> cases hv
  | free hfrom =>
      refine hs.move (by simp [hfrom]) rfl rfl (fun k hk => ?_) (by simp)
      cases hk
      rfl
  | @write pos hfrom =>
      refine hs.move (by simp [hfrom]) rfl rfl (by simp [goto]) fun _ => ?_
      show a.mPos.isSome = true
      rw [hs.write pos hfrom]
      rfl
  | v hfrom => exact hs.ret fun hres => hs.place (Or.inl (by rw [hfrom, hres]))

/-- Outside of a write the place is the process's own. -/
theorem Placed.keep (h : a.Placed shm pid) (hfrom : ∀ k, a.pc ≠ .write k)
    (hpos : a'.mPos = a.mPos) : a'.Placed shm pid := fun k hk => by
  obtain ⟨hlt, hown | ⟨-, hwrite⟩⟩ := h k (hpos ▸ hk)
  · exact ⟨hlt, Or.inl hown⟩
  · exact absurd hwrite (hfrom k)

/-- A step writes no place but the own one, and keeps what is so of it. -/
theorem next_placed (hs : a.Sound pid) (hplaced : a.Placed shm pid)
    (h : a.next sem shm ok now = some (sem', shm', a')) :
    a'.Placed shm' pid ∧
      (shm' = shm ∨ ∃ k r, a.mPos = some k ∧ shm' = Function.update shm k r) := by
  cases next_inv h with
  | goOn _ hfrom _ _ _ hpos _ _ => exact ⟨hplaced.keep hfrom hpos, Or.inl rfl⟩
  | fail hfrom => exact ⟨hplaced.keep hfrom rfl, Or.inl rfl⟩
  | semCreate hfrom | semctl hfrom | p hfrom | v hfrom =>
      exact ⟨hplaced.keep (by simp [hfrom]) rfl, Or.inl rfl⟩
  | own hfrom hlt hown =>
      refine ⟨fun k hk => ?_, Or.inl rfl⟩
      cases hk
      exact ⟨hlt, Or.inl (hown.trans (hs.own (by simp [hfrom])))⟩
  | free hfrom hlt hfree =>
      refine ⟨fun k hk => ?_, Or.inl rfl⟩
      cases hk
      exact ⟨hlt, Or.inr ⟨hfree, rfl⟩⟩
  | @write pos hfrom =>
      have hpos := hs.write pos hfrom
      refine ⟨fun k hk => ?_, Or.inr ⟨pos, _, hpos, rfl⟩⟩
      obtain rfl : pos = k := Option.some.inj (hpos.symm.trans hk)
      rw [Function.update_self]
      exact ⟨(hplaced pos hpos).1, Or.inl (hs.own (by simp [hfrom]))⟩

end

end ActiveProc

/-! ## All processes -/

section

variable {s s' : ActiveState} {p : Int} {x : Option ActiveProc} {sem : Option Nat}
  {shm : Nat → StProcinfo}

/-- A process after one of them has changed, or is gone. -/
theorem procs_update {procs : Int → Option ActiveProc} {q : Int} {b : ActiveProc}
    (h : Function.update procs p x q = some b) :
    q = p ∧ x = some b ∨ q ≠ p ∧ procs q = some b := by
  by_cases hq : q = p
  · rw [hq, Function.update_self] at h
    exact Or.inl ⟨hq, h⟩
  · rw [Function.update_of_ne hq] at h
    exact Or.inr ⟨hq, h⟩

/-- A process changes, or is gone, without coming near the semaphore. -/
theorem Locked.set_quiet (h : Locked s)
    (hx : ∀ a', x = some a' → a'.pc.critical = true →
      ∃ a, s.procs p = some a ∧ a.pc.critical = true) :
    Locked ⟨s.sem, shm, Function.update s.procs p x⟩ := by
  have hback : ∀ q b, Function.update s.procs p x q = some b → b.pc.critical = true →
      ∃ a, s.procs q = some a ∧ a.pc.critical = true := by
    intro q b hb hcrit
    rcases procs_update hb with ⟨rfl, hx'⟩ | ⟨-, hb'⟩
    · exact hx b hx' hcrit
    · exact ⟨b, hb', hcrit⟩
  refine ⟨h.le, fun q b hb hcrit => ?_, fun q r b c hb hc hcritb hcritc => ?_⟩
  · obtain ⟨a, ha, hcrita⟩ := hback q b hb hcrit
    exact h.zero q a ha hcrita
  · obtain ⟨a, ha, hcrita⟩ := hback q b hb hcritb
    obtain ⟨a', ha', hcrita'⟩ := hback r c hc hcritc
    exact h.one q r a a' ha ha' hcrita hcrita'

/-- A process changes, or is gone, that has the semaphore to itself. -/
theorem Locked.set_alone
    (hothers : ∀ q b, q ≠ p → s.procs q = some b → b.pc.critical ≠ true)
    (hle : ∀ value, sem = some value → value ≤ 1)
    (hx : ∀ a', x = some a' → a'.pc.critical = true → sem = some 0) :
    Locked ⟨sem, shm, Function.update s.procs p x⟩ := by
  have honly : ∀ q b, Function.update s.procs p x q = some b → b.pc.critical = true →
      q = p ∧ x = some b := by
    intro q b hb hcrit
    rcases procs_update hb with hp | ⟨hq, hb'⟩
    · exact hp
    · exact absurd hcrit (hothers q b hq hb')
  refine ⟨hle, fun q b hb hcrit => ?_, fun q r b c hb hc hcritb hcritc => ?_⟩
  · exact hx b (honly q b hb hcrit).2 hcrit
  · rw [(honly q b hb hcritb).1, (honly r c hc hcritc).1]

theorem Locked.others (h : Locked s) {a : ActiveProc} (ha : s.procs p = some a)
    (halone : a.pc.critical = true ∨ s.sem ≠ some 0) :
    ∀ q b, q ≠ p → s.procs q = some b → b.pc.critical ≠ true := fun q b hq hb hcrit =>
  halone.elim (fun hcrita => hq (h.one q p b a hb ha hcrit hcrita)) fun hsem =>
    hsem (h.zero q b hb hcrit)

theorem opStep_locked (h : Locked s) {a : ActiveProc} (ha : s.procs p = some a) {op : ActiveOp}
    (hstep : s.opStep p a op = some s') : Locked s' := by
  cases op with
  | addPInfo timeout pname =>
      rw [ActiveState.opStep] at hstep
      repeat' split at hstep
      all_goals cases hstep
      all_goals
        exact h.set_quiet fun a' ha' hcrit => by
          cases ha'
          cases hcrit
  | next ok now =>
      rw [ActiveState.opStep] at hstep
      split at hstep
      · cases hstep
      · next sem shm a' hnext =>
          cases hstep
          rcases ActiveProc.next_sem h.le (h.zero p a ha) hnext with
            ⟨rfl, hcrit⟩ | ⟨halone, hle, hzero⟩
          · exact h.set_quiet fun b hb hcritb => by
              cases hb
              exact ⟨a, ha, hcrit hcritb⟩
          · exact .set_alone (h.others ha halone) hle fun b hb hcritb => by
              cases hb
              exact hzero hcritb
  | uptATime now =>
      rw [ActiveState.opStep] at hstep
      repeat' split at hstep
      all_goals cases hstep
      · exact h
      · exact ⟨h.le, h.zero, h.one⟩
  | destroy =>
      rw [ActiveState.opStep] at hstep
      repeat' split at hstep
      all_goals cases hstep
      all_goals exact h.set_quiet fun a' ha' _ => by cases ha'
  | crash =>
      cases hstep
      cases hundo : a.pc.undo with
      | zero =>
          have hsem : s.sem.map (· + 0) = s.sem := by cases s.sem <;> rfl
          rw [ActiveState.set, hsem]
          exact h.set_quiet fun a' ha' _ => by cases ha'
      | succ n =>
          have hcrit : a.pc.critical = true ∧ n = 0 := by
            cases hpc : a.pc <;> rw [hpc, ActivePc.undo] at hundo <;> cases hundo <;>
              exact ⟨rfl, rfl⟩
          refine .set_alone (h.others ha (Or.inl hcrit.1)) (fun value hvalue => ?_)
            fun a' ha' _ => by cases ha'
          rw [h.zero p a ha hcrit.1, hcrit.2] at hvalue
          cases hvalue
          exact Nat.le_refl _

/-- Two processes with one place: no other way is left than that both are about to write it. -/
theorem Slots.apart (hl : Locked s) (h : Slots s) {p q : Int} {a b : ActiveProc}
    (ha : s.procs p = some a) (hb : s.procs q = some b) {k : Nat} (hka : a.mPos = some k)
    (hkb : b.mPos = some k) : p = q := by
  have hp := (h.sound p a ha).pos
  have hq := (h.sound q b hb).pos
  rcases (h.placed p a ha k hka).2 with hown | ⟨hfree, hwrite⟩
  · rcases (h.placed q b hb k hkb).2 with hown' | ⟨hfree', -⟩
    · exact hown.symm.trans hown'
    · omega
  · rcases (h.placed q b hb k hkb).2 with hown' | ⟨-, hwrite'⟩
    · omega
    · exact hl.one p q a b ha hb (by rw [hwrite]; rfl) (by rw [hwrite']; rfl)

/-- A process changes, or is gone, and writes at most its own place. -/
theorem Slots.set (hl : Locked s) (h : Slots s)
    (hx : ∀ a', x = some a' → a'.Sound p ∧ a'.Placed shm p)
    (hshm : shm = s.shm ∨ ∃ a k r, s.procs p = some a ∧ a.mPos = some k ∧
      shm = Function.update s.shm k r) :
    Slots ⟨sem, shm, Function.update s.procs p x⟩ := by
  refine ⟨fun q b hb => ?_, fun q b hb => ?_⟩
  · rcases procs_update hb with ⟨rfl, hx'⟩ | ⟨-, hb'⟩
    · exact (hx b hx').1
    · exact h.sound q b hb'
  · rcases procs_update hb with ⟨rfl, hx'⟩ | ⟨hq, hb'⟩
    · exact (hx b hx').2
    · have hplaced := h.placed q b hb'
      rcases hshm with rfl | ⟨a, k, r, ha, hka, rfl⟩
      · exact hplaced
      · intro k' hk'
        have hne : k' ≠ k := fun heq => hq (h.apart hl hb' ha hk' (heq ▸ hka))
        dsimp only
        rw [Function.update_of_ne hne]
        exact hplaced k' hk'

theorem opStep_slots (hl : Locked s) (h : Slots s) {a : ActiveProc} (ha : s.procs p = some a)
    {op : ActiveOp} (hstep : s.opStep p a op = some s') : Slots s' := by
  have hsound := h.sound p a ha
  have hplaced := h.placed p a ha
  cases op with
  | addPInfo timeout pname =>
      rw [ActiveState.opStep] at hstep
      repeat' split at hstep
      all_goals cases hstep
      · next hidle hpos =>
          refine h.set (s := s) hl (fun a' ha' => ?_) (Or.inl rfl)
          cases ha'
          exact ⟨hsound.ret fun _ => hpos, hplaced.keep (by simp [hidle]) rfl⟩
      · next hidle hpos hsem =>
          refine h.set (s := s) hl (fun a' ha' => ?_) (Or.inl rfl)
          cases ha'
          exact ⟨hsound.ret (fun hres => by cases hres), hplaced.keep (by simp [hidle]) rfl⟩
      · next hidle hpos hsem =>
          refine h.set (s := s) hl (fun a' ha' => ?_) (Or.inl rfl)
          cases ha'
          have hreturned : a.returned ≠ some true := fun hadded =>
            hpos (hsound.place (Or.inr hadded))
          refine ⟨⟨hsound.pos, fun _ => rfl, fun k hk => ?_, fun hadded => absurd hadded hreturned,
            fun hdone => ?_⟩, hplaced.keep (by simp [hidle]) rfl⟩
          · cases hk
          · rcases hdone with hv | hadded
            · cases hv
            · exact absurd hadded hreturned
  | next ok now =>
      rw [ActiveState.opStep] at hstep
      split at hstep
      · cases hstep
      · next sem shm a' hnext =>
          cases hstep
          obtain ⟨hplaced', hshm⟩ := ActiveProc.next_placed hsound hplaced hnext
          refine h.set (s := s) hl (fun b hb => ?_) ?_
          · cases hb
            exact ⟨ActiveProc.next_sound hsound hnext, hplaced'⟩
          · exact hshm.imp_right fun ⟨k, r, hk, hr⟩ => ⟨a, k, r, ha, hk, hr⟩
  | uptATime now =>
      rw [ActiveState.opStep] at hstep
      repeat' split at hstep
      all_goals cases hstep
      · exact h
      · next pos hpos =>
          refine ⟨h.sound, fun q b hb k hk => ?_⟩
          have hpid : (Function.update s.shm pos { s.shm pos with atime := now } k).pid =
              (s.shm k).pid := by
            by_cases hkp : k = pos
            · rw [hkp, Function.update_self]
            · rw [Function.update_of_ne hkp]
          dsimp only
          rw [hpid]
          exact h.placed q b hb k hk
  | destroy =>
      rw [ActiveState.opStep] at hstep
      repeat' split at hstep
      all_goals cases hstep
      · exact h.set (s := s) hl (fun a' ha' => by cases ha') (Or.inl rfl)
      · next pos hpos =>
          exact h.set (s := s) hl (fun a' ha' => by cases ha')
            (Or.inr ⟨a, pos, .zero, ha, hpos, rfl⟩)
  | crash =>
      cases hstep
      exact h.set (s := s) hl (fun a' ha' => by cases ha') (Or.inl rfl)

end

/-! ## All runs -/

theorem start_locked (shm : Nat → StProcinfo) : Locked (.start shm) where
  le _ h := by cases h
  zero _ _ h := by cases h
  one _ _ _ _ h := by cases h

theorem start_slots (shm : Nat → StProcinfo) : Slots (.start shm) where
  sound _ _ h := by cases h
  placed _ _ h := by cases h

theorem activeStep_inv {s s' : ActiveState} {e : ActiveEvent} (h : Locked s ∧ Slots s)
    (hstep : activeStep s e = some s') : Locked s' ∧ Slots s' := by
  obtain ⟨hl, hs⟩ := h
  cases e with
  | start pid =>
      rw [activeStep] at hstep
      split at hstep
      · next hpid =>
          cases hstep
          refine ⟨hl.set_quiet fun a ha hcrit => ?_,
            hs.set (s := s) hl (fun a ha => ?_) (Or.inl rfl)⟩
          · cases ha
            cases hcrit
          · cases ha
            exact ⟨.new hpid.1, fun k hk => by cases hk⟩
      · cases hstep
  | run pid op =>
      rw [activeStep] at hstep
      split at hstep
      · cases hstep
      · next a ha => exact ⟨opStep_locked hl ha hstep, opStep_slots hl hs ha hstep⟩

/-- In every state of every run, each process that has been added stands in the table with its
own pid, at a place that no other process has. -/
theorem heartbeats_exclusive {shm : Nat → StProcinfo} {run : List ActiveEvent} {s : ActiveState}
    (h : Machine.exec activeStep (.start shm) run = some s) :
    (∀ p a, s.procs p = some a → a.returned = some true →
      ∃ k < maxNump, a.mPos = some k ∧ (s.shm k).pid = p) ∧
    ∀ p q a b, s.procs p = some a → s.procs q = some b → a.returned = some true →
      b.returned = some true → a.mPos = b.mPos → p = q := by
  obtain ⟨hl, hs⟩ := Machine.exec_invariant (I := fun s => Locked s ∧ Slots s)
    (fun _ _ _ hI hstep => activeStep_inv hI hstep) ⟨start_locked shm, start_slots shm⟩ h
  have hplace : ∀ p a, s.procs p = some a → a.returned = some true →
      ∃ k < maxNump, a.mPos = some k ∧ (s.shm k).pid = p := by
    intro p a ha hadded
    have hsound := hs.sound p a ha
    obtain ⟨k, hk⟩ := Option.isSome_iff_exists.mp (hsound.place (Or.inr hadded))
    obtain ⟨hlt, hown | ⟨-, hwrite⟩⟩ := hs.placed p a ha k hk
    · exact ⟨k, hlt, hk, hown⟩
    · rw [hsound.added hadded] at hwrite
      cases hwrite
  refine ⟨hplace, fun p q a b ha hb hadded _ heq => ?_⟩
  obtain ⟨k, -, hk, -⟩ := hplace p a ha hadded
  exact hs.apart hl ha hb hk (heq ▸ hk)

/-- A process finds a record with its pid, and one comes while the first has the semaphore. -/
def twoAdded : List ActiveEvent :=
  [.start 7, .run 7 (.addPInfo 30 none), .start 8, .run 8 (.addPInfo 30 none)] ++
    List.replicate 6 (.run 7 (.next true 0)) ++ List.replicate 4 (.run 8 (.next true 0)) ++
    List.replicate 2 (.run 7 (.next true 0)) ++ List.replicate 3 (.run 8 (.next true 0))

theorem heartbeats_exclusive_two :
    ∃ s, Machine.exec activeStep (.start fun k => { StProcinfo.zero with pid := k + 7 }) twoAdded =
        some s ∧
      ∃ a b, s.procs 7 = some a ∧ s.procs 8 = some b ∧ a.mPos ≠ b.mPos := by
  obtain ⟨s, hrun, a, b, ha, hb, hadded, hadded'⟩ :
      ∃ s, Machine.exec activeStep (.start fun k => { StProcinfo.zero with pid := k + 7 })
        twoAdded = some s ∧ ∃ a b, s.procs 7 = some a ∧ s.procs 8 = some b ∧
          a.returned = some true ∧ b.returned = some true := ⟨_, rfl, _, _, rfl, rfl, rfl, rfl⟩
  have h := heartbeats_exclusive hrun
  exact ⟨s, hrun, a, b, ha, hb,
    fun heq => absurd (h.2 7 8 a b ha hb hadded hadded' heq) (by decide)⟩

end AsioServer
