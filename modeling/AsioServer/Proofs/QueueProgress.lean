import Mathlib.Algebra.BigOperators.Group.Finset.Piecewise
import Mathlib.Algebra.Order.BigOperators.Group.Finset
import AsioServer.Proofs.LogicQueue

/-!
# The logic queue comes to rest

Left to themselves, the threads of the logic queue take a bounded number of
steps, in whatever order they take them. The measure counts what is left to do:
six points of the worker for a message in the queue, the way a poster still has
to go, its message and the wake-up it may cause included, and the same for the
destructor.

Where nothing moves, no poster is in the middle of a post, and the worker is
done or asleep. If the destructor has not set the flag every message has been
dispatched, those that a poster was about to push included; if it has, either
all threads are through or the worker sleeps and the destructor waits for it.
-/

namespace AsioServer

/-- The steps of the threads themselves: nobody posts anew, and nothing wakes the
worker without a notification. -/
def LogicAction.Moves : LogicAction → Prop
  | .poster _ | .worker | .destructor => True
  | .post _ _ | .spuriousWakeUp => False

/-! ## The measure -/

def PosterPc.work : PosterPc → Nat
  | .idle => 0
  | .notify => 5
  | .pushed _ => 6
  | .push _ => 13
  | .lock _ => 14

def WorkerPc.work : WorkerPc → Nat
  | .blocked | .pop | .drainPop | .done => 0
  | .wait | .dispatch | .drain => 1
  | .decide => 2
  | .test => 3
  | .lock | .woken => 4
  | .unlock => 5

def DestructorPc.work : DestructorPc → Nat
  | .joined => 0
  | .join => 1
  | .notify => 6
  | .running => 7

/-- What is left to do, if the first `k` posters are the only ones at work. -/
def LogicState.work (k : Nat) (s : LogicState) : Nat :=
  6 * s.msgQue.length + s.worker.work + ∑ i ∈ Finset.range k, (s.posters i).work +
    s.destructor.work

/-- What is left to do once poster `i` has moved and nothing else of `t` counts. -/
theorem work_setPoster {k i : Nat} (hi : i < k) {s t : LogicState}
    (hposters : t.posters = s.posters) (pc : PosterPc) :
    (t.setPoster i pc).work k + (s.posters i).work = t.work k + pc.work := by
  have hmem : i ∈ Finset.range k := Finset.mem_range.mpr hi
  have hothers : ∑ j ∈ Finset.range k \ {i}, ((t.setPoster i pc).posters j).work =
      ∑ j ∈ Finset.range k \ {i}, (t.posters j).work := by
    refine Finset.sum_congr rfl fun j hj => ?_
    rw [setPoster_other t pc (by simpa using (Finset.mem_sdiff.mp hj).2)]
  have hafter := Finset.sum_eq_add_sum_sdiff_singleton_of_mem hmem
    fun j => ((t.setPoster i pc).posters j).work
  have hbefore := Finset.sum_eq_add_sum_sdiff_singleton_of_mem hmem fun j => (t.posters j).work
  rw [hothers, setPoster_same] at hafter
  have hkept : (t.setPoster i pc).work k = 6 * t.msgQue.length + t.worker.work +
      ∑ j ∈ Finset.range k, ((t.setPoster i pc).posters j).work + t.destructor.work := rfl
  rw [hkept, LogicState.work, hafter, hbefore, ← hposters]
  omega

/-- A notification wakes the worker at most. -/
theorem work_notifyOne (k : Nat) (s : LogicState) : s.notifyOne.work k ≤ s.work k + 4 := by
  have hworker : s.notifyOne.worker.work ≤ s.worker.work + 4 := by
    rw [LogicState.notifyOne]
    show WorkerPc.work (if _ then _ else _) ≤ _
    split
    · exact Nat.le_add_left 4 _
    · exact Nat.le_add_right _ 4
  simp only [LogicState.work]
  have hrest : s.notifyOne.msgQue = s.msgQue ∧ s.notifyOne.posters = s.posters ∧
      s.notifyOne.destructor = s.destructor := ⟨rfl, rfl, rfl⟩
  rw [hrest.1, hrest.2.1, hrest.2.2]
  omega

/-! ## Steps -/

/-- What a step of a poster can do. -/
inductive PosterStep (s : LogicState) (i : Nat) : LogicState → Prop
  | take {msg : LogicNode} (hfrom : s.posters i = .lock msg) (hfree : s.owner = none) :
      PosterStep s i ({ s with owner := some (.poster i) }.setPoster i (.push msg))
  | push {msg : LogicNode} (hfrom : s.posters i = .push msg) :
      PosterStep s i
        ({ s with msgQue := s.msgQue ++ [msg], pushed := s.pushed ++ [msg] }.setPoster i
          (.pushed ((s.msgQue ++ [msg]).length == 1)))
  | release {first : Bool} (hfrom : s.posters i = .pushed first) :
      PosterStep s i
        ({ s with owner := none }.setPoster i (if first then .notify else .idle))
  | notify (hfrom : s.posters i = .notify) : PosterStep s i (s.notifyOne.setPoster i .idle)

theorem posterStep_inv {s s' : LogicState} {i : Nat} (hstep : posterStep s i = some s') :
    PosterStep s i s' := by
  rw [posterStep] at hstep
  cases hpc : s.posters i with
  | idle => rw [hpc] at hstep; cases hstep
  | lock msg =>
      simp only [hpc] at hstep
      split at hstep
      · next hfree =>
          cases hstep
          exact .take hpc hfree
      · cases hstep
  | push msg =>
      simp only [hpc] at hstep
      cases hstep
      exact .push hpc
  | pushed first =>
      simp only [hpc] at hstep
      cases hstep
      exact .release hpc
  | notify =>
      simp only [hpc] at hstep
      cases hstep
      exact .notify hpc

theorem PosterStep.work_lt {s s' : LogicState} {i k : Nat} (hstep : PosterStep s i s')
    (hi : i < k) : s'.work k < s.work k := by
  cases hstep with
  | @take msg hfrom hfree =>
      have hset := work_setPoster hi (s := s) (t := { s with owner := some (.poster i) }) rfl
        (.push msg)
      have hsame : LogicState.work k { s with owner := some (.poster i) } = s.work k := rfl
      rw [hfrom, hsame] at hset
      simp only [PosterPc.work] at hset
      omega
  | @push msg hfrom =>
      have hset := work_setPoster hi (s := s)
        (t := { s with msgQue := s.msgQue ++ [msg], pushed := s.pushed ++ [msg] }) rfl
        (.pushed ((s.msgQue ++ [msg]).length == 1))
      have hmore : LogicState.work k
          { s with msgQue := s.msgQue ++ [msg], pushed := s.pushed ++ [msg] } = s.work k + 6 := by
        simp only [LogicState.work, List.length_append, List.length_singleton]
        omega
      rw [hfrom, hmore] at hset
      simp only [PosterPc.work] at hset
      omega
  | @release first hfrom =>
      have hset := work_setPoster hi (s := s) (t := { s with owner := none }) rfl
        (if first then .notify else .idle)
      have hsame : LogicState.work k { s with owner := none } = s.work k := rfl
      have hless : (if first then PosterPc.notify else .idle).work ≤ 5 := by
        cases first <;> simp [PosterPc.work]
      rw [hfrom, hsame, show (PosterPc.pushed first).work = 6 from rfl] at hset
      omega
  | notify hfrom =>
      have hset := work_setPoster hi (s := s) (t := s.notifyOne) rfl .idle
      have hwoken := work_notifyOne k s
      rw [hfrom] at hset
      simp only [PosterPc.work] at hset
      omega

/-- The worker moves on and leaves the queue as it is. -/
theorem work_move {k : Nat} {s s' : LogicState} (hque : s'.msgQue = s.msgQue)
    (hposters : s'.posters = s.posters) (hdestructor : s'.destructor = s.destructor)
    (hless : s'.worker.work < s.worker.work) : s'.work k < s.work k := by
  simp only [LogicState.work, hque, hposters, hdestructor]
  omega

/-- Or pops a message. -/
theorem work_popFront {k : Nat} {s : LogicState} {pc : WorkerPc} (hque : s.msgQue ≠ [])
    (hless : pc.work < s.worker.work + 6) : (s.popFront pc).work k < s.work k := by
  cases hq : s.msgQue with
  | nil => exact absurd hq hque
  | cons msg rest =>
      rw [popFront_cons hq]
      simp only [LogicState.work, hq, List.length_cons]
      omega

theorem WorkerStep.work_lt {s s' : LogicState} {k : Nat} (hstep : WorkerStep s s')
    (h : Flow s) : s'.work k < s.work k := by
  cases hstep with
  | take hfrom =>
      refine work_move rfl rfl rfl ?_
      rcases hfrom with hw | hw <;> simp [hw, WorkerPc.work]
  | wait hfrom | decide hfrom | block hfrom | drain hfrom | dispatch hfrom =>
      exact work_move rfl rfl rfl (by simp [hfrom, WorkerPc.work])
  | overrun hfrom hque => exact absurd hque (h.loaded (by rw [hfrom]; rfl))
  | drop hfrom hque =>
      refine work_popFront (by rw [hque]; exact List.cons_ne_nil _ _) ?_
      rcases hfrom with ⟨hw, rfl⟩ | ⟨hw, rfl⟩ <;> simp [hw, WorkerPc.work]
  | call hfrom =>
      refine work_move rfl rfl rfl ?_
      rcases hfrom with ⟨hw, rfl⟩ | ⟨hw, rfl⟩ <;> simp [hw, WorkerPc.work]
  | pop hfrom =>
      have hloads : s.worker.loads = true := by
        rcases hfrom with ⟨hw, -⟩ | ⟨hw, -⟩ <;> rw [hw] <;> rfl
      refine work_popFront (h.loaded hloads) ?_
      rcases hfrom with ⟨hw, rfl⟩ | ⟨hw, rfl⟩ <;> simp [hw, WorkerPc.work]
  | release hfrom =>
      refine work_move rfl rfl rfl ?_
      rcases hfrom with ⟨hw, rfl⟩ | ⟨hw, rfl⟩ <;> simp [hw, WorkerPc.work]

theorem destructorStep_work_lt {s s' : LogicState} {k : Nat}
    (hstep : destructorStep s = some s') : s'.work k < s.work k := by
  rw [destructorStep] at hstep
  cases hd : s.destructor with
  | running =>
      simp only [hd] at hstep
      cases hstep
      simp [LogicState.work, hd, DestructorPc.work]
  | notify =>
      simp only [hd] at hstep
      cases hstep
      have hwoken := work_notifyOne k s
      have hjoin : LogicState.work k { s.notifyOne with destructor := .join } + 6 =
          s.notifyOne.work k + 1 := by
        simp only [LogicState.work, show s.notifyOne.destructor = .notify from hd,
          DestructorPc.work]
      show LogicState.work k { s.notifyOne with destructor := .join } < s.work k
      omega
  | join =>
      simp only [hd] at hstep
      split at hstep
      · cases hstep
        simp [LogicState.work, hd, DestructorPc.work]
      · cases hstep
  | joined => simp only [hd] at hstep; cases hstep

/-! ## What the threads leave as it is -/

theorem PosterStep.posters {s s' : LogicState} {i : Nat} (hstep : PosterStep s i s') :
    ∃ pc, s'.posters = Function.update s.posters i pc := by
  cases hstep with
  | take | push | release | notify => exact ⟨_, rfl⟩

theorem popFront_keeps (s : LogicState) (pc : WorkerPc) :
    (s.popFront pc).posters = s.posters ∧ (s.popFront pc).pushed = s.pushed ∧
      (s.popFront pc).bStop = s.bStop := by
  rw [LogicState.popFront]
  split <;> exact ⟨rfl, rfl, rfl⟩

theorem WorkerStep.keeps {s s' : LogicState} (hstep : WorkerStep s s') :
    s'.posters = s.posters ∧ s'.pushed = s.pushed ∧ s'.bStop = s.bStop := by
  cases hstep with
  | drop => exact popFront_keeps s _
  | pop => exact popFront_keeps s _
  | take | wait | decide | block | drain | dispatch | overrun | call | release =>
      exact ⟨rfl, rfl, rfl⟩

theorem destructorStep_keeps {s s' : LogicState} (hstep : destructorStep s = some s') :
    s'.posters = s.posters ∧ s'.pushed = s.pushed ∧
      (s.destructor = .running ∧ s'.bStop = true ∨ s'.bStop = s.bStop) := by
  rw [destructorStep] at hstep
  cases hd : s.destructor with
  | running =>
      simp only [hd] at hstep
      cases hstep
      exact ⟨rfl, rfl, Or.inl ⟨rfl, rfl⟩⟩
  | notify =>
      simp only [hd] at hstep
      cases hstep
      exact ⟨rfl, rfl, Or.inr rfl⟩
  | join =>
      simp only [hd] at hstep
      split at hstep
      · cases hstep
        exact ⟨rfl, rfl, Or.inr rfl⟩
      · cases hstep
  | joined => simp only [hd] at hstep; cases hstep

/-! ## Finitely many posters -/

/-- From the `k`-th on the posters are not at work. -/
def IdleFrom (k : Nat) (s : LogicState) : Prop := ∀ i, k ≤ i → s.posters i = .idle

theorem IdleFrom.update {k i : Nat} {s s' : LogicState} (h : IdleFrom k s) {pc : PosterPc}
    (hposters : s'.posters = Function.update s.posters i pc) : IdleFrom (max k (i + 1)) s' := by
  intro j hj
  rw [hposters, Function.update_of_ne (by omega)]
  exact h j (by omega)

theorem exec_idleFrom {actions : List LogicAction} {s : LogicState}
    (hrun : Machine.exec logicStep LogicState.start actions = some s) : ∃ k, IdleFrom k s := by
  refine Machine.exec_invariant (I := fun s => ∃ k, IdleFrom k s) ?_ ⟨0, fun _ _ => rfl⟩ hrun
  rintro s a s' ⟨k, h⟩ hstep
  cases a with
  | post i msg =>
      rw [logicStep] at hstep
      split at hstep
      · cases hstep
        exact ⟨_, h.update rfl⟩
      · cases hstep
  | poster i =>
      obtain ⟨pc, hpc⟩ := (posterStep_inv hstep).posters
      exact ⟨_, h.update hpc⟩
  | worker =>
      have hkeep := (workerStep_inv hstep).keeps.1
      exact ⟨k, fun i hi => by rw [hkeep]; exact h i hi⟩
  | spuriousWakeUp =>
      rw [logicStep] at hstep
      split at hstep
      · cases hstep
        exact ⟨k, h⟩
      · cases hstep
  | destructor =>
      have hkeep := (destructorStep_keeps hstep).1
      exact ⟨k, fun i hi => by rw [hkeep]; exact h i hi⟩

/-- A poster that moves is one at work. -/
theorem IdleFrom.lt {k i : Nat} {s s' : LogicState} (h : IdleFrom k s)
    (hstep : posterStep s i = some s') : i < k := by
  refine Nat.lt_of_not_le fun hk => ?_
  rw [posterStep, h i hk] at hstep
  cases hstep

theorem IdleFrom.moves {k : Nat} {s s' : LogicState} {a : LogicAction} (h : IdleFrom k s)
    (ha : a.Moves) (hstep : logicStep s a = some s') : IdleFrom k s' := by
  cases a with
  | post i msg => cases ha
  | spuriousWakeUp => cases ha
  | poster i =>
      have hi := h.lt hstep
      obtain ⟨pc, hpc⟩ := (posterStep_inv hstep).posters
      have hkept := h.update hpc
      rwa [Nat.max_eq_left hi] at hkept
  | worker =>
      intro i hi
      rw [(workerStep_inv hstep).keeps.1]
      exact h i hi
  | destructor =>
      intro i hi
      rw [(destructorStep_keeps hstep).1]
      exact h i hi

/-! ## Nothing held is lost -/

/-- The message a poster has still to push. -/
def PosterPc.message : PosterPc → Option LogicNode
  | .lock msg | .push msg => some msg
  | .idle | .pushed _ | .notify => none

/-- What was queued or held in `s₀` is so in `s`, or has been queued. -/
structure Handed (s₀ s : LogicState) : Prop where
  pushed : s₀.pushed <+: s.pushed
  held : ∀ i msg, (s₀.posters i).message = some msg →
    (s.posters i).message = some msg ∨ msg ∈ s.pushed

theorem Handed.refl (s : LogicState) : Handed s s :=
  ⟨List.prefix_rfl, fun _ _ h => Or.inl h⟩

/-- Poster `i` moves: what it held it holds still, or has pushed. -/
theorem Handed.update {s₀ s s' : LogicState} {i : Nat} {pc : PosterPc} (h : Handed s₀ s)
    (hposters : s'.posters = Function.update s.posters i pc) (hpushed : s.pushed <+: s'.pushed)
    (hself : ∀ msg, (s.posters i).message = some msg → pc.message = some msg ∨ msg ∈ s'.pushed) :
    Handed s₀ s' where
  pushed := h.pushed.trans hpushed
  held j msg hj := by
    rw [hposters]
    rcases h.held j msg hj with hheld | hmem
    · by_cases hji : j = i
      · subst hji
        rw [Function.update_self]
        exact hself msg hheld
      · rw [Function.update_of_ne hji]
        exact Or.inl hheld
    · exact Or.inr (hpushed.subset hmem)

theorem Handed.poster {s₀ s s' : LogicState} {i : Nat} (h : Handed s₀ s)
    (hstep : PosterStep s i s') : Handed s₀ s' := by
  cases hstep with
  | take hfrom =>
      refine h.update rfl List.prefix_rfl fun msg hmsg => Or.inl ?_
      rwa [hfrom] at hmsg
  | @push held hfrom =>
      refine h.update rfl (List.prefix_append _ _) fun msg hmsg => Or.inr ?_
      rw [hfrom] at hmsg
      cases hmsg
      exact List.mem_append_right _ (List.mem_singleton_self _)
  | release hfrom | notify hfrom =>
      refine h.update rfl List.prefix_rfl fun msg hmsg => ?_
      rw [hfrom] at hmsg
      cases hmsg

theorem Handed.same {s₀ s s' : LogicState} (h : Handed s₀ s) (hposters : s'.posters = s.posters)
    (hpushed : s'.pushed = s.pushed) : Handed s₀ s' where
  pushed := by rw [hpushed]; exact h.pushed
  held := by rw [hposters, hpushed]; exact h.held

/-! ## Rest -/

/-- Nothing moves inside the critical section without being able to leave it. -/
theorem workerStep_isSome {s : LogicState} (h : s.worker.holds = true) :
    (workerStep s).isSome := by
  rw [workerStep]
  cases hw : s.worker with
  | lock | blocked | woken | done => rw [hw] at h; cases h
  | test => simp only; split <;> rfl
  | dispatch | drain =>
      simp only
      split
      · rfl
      · split <;> rfl
  | wait | decide | pop | unlock | drainPop => rfl

/-- Where neither a poster nor the worker can move. -/
structure AtRest (s : LogicState) : Prop where
  idle : ∀ i, s.posters i = .idle
  worker : s.worker = .blocked ∨ s.worker = .done

theorem atRest_of_stuck {s : LogicState} (h : Mutex s)
    (hposters : ∀ i, logicStep s (.poster i) = none) (hworker : logicStep s .worker = none) :
    AtRest s := by
  have hposters : ∀ i, posterStep s i = none := hposters
  have hworker : workerStep s = none := hworker
  have hfree : s.owner = none := by
    cases howner : s.owner with
    | none => rfl
    | some t =>
        cases t with
        | worker =>
            have hsome := workerStep_isSome (h.worker.mpr howner)
            rw [hworker] at hsome
            cases hsome
        | poster i =>
            have hholds := (h.poster i).mpr howner
            have hstuck := hposters i
            rw [posterStep] at hstuck
            cases hpc : s.posters i with
            | idle | lock | notify => rw [hpc] at hholds; cases hholds
            | push | pushed => simp only [hpc] at hstuck; cases hstuck
  refine ⟨fun i => ?_, ?_⟩
  · have hstuck := hposters i
    rw [posterStep] at hstuck
    cases hpc : s.posters i with
    | idle => rfl
    | lock msg => simp [hpc, hfree] at hstuck
    | push | pushed | notify => simp only [hpc] at hstuck; cases hstuck
  · cases hw : s.worker with
    | blocked => exact Or.inl rfl
    | done => exact Or.inr rfl
    | lock | woken => rw [workerStep, hw] at hworker; simp [hfree] at hworker
    | test | wait | decide | dispatch | pop | unlock | drain | drainPop =>
        have hsome := workerStep_isSome (s := s) (by rw [hw]; rfl)
        rw [hworker] at hsome
        cases hsome

/-! ## The destructor -/

/-- The worker has left its loop, or is about to. -/
def WorkerPc.drains : WorkerPc → Bool
  | .drain | .drainPop | .done => true
  | .lock | .test | .wait | .blocked | .woken | .decide | .dispatch | .pop | .unlock => false

/-- What the flag stands for. -/
structure Flagged (s : LogicState) : Prop where
  stopped : s.destructor ≠ .running → s.bStop = true
  drains : s.worker.drains = true → s.bStop = true
  joined : s.destructor = .joined → s.worker = .done

theorem Flagged.same {s s' : LogicState} (h : Flagged s) (hstop : s'.bStop = s.bStop)
    (hdestructor : s'.destructor = s.destructor) (hworker : s'.worker = s.worker) :
    Flagged s' := by
  refine ⟨?_, ?_, ?_⟩
  · rw [hstop, hdestructor]; exact h.stopped
  · rw [hstop, hworker]; exact h.drains
  · rw [hdestructor, hworker]; exact h.joined

theorem Flagged.notifyOne {s : LogicState} (h : Flagged s) : Flagged s.notifyOne := by
  by_cases hb : s.worker = .blocked
  · have hn : s.notifyOne = { s with worker := .woken } := by
      rw [LogicState.notifyOne, if_pos hb]
    rw [hn]
    refine ⟨h.stopped, fun hd => (by cases hd), fun hj => ?_⟩
    have hdone := h.joined hj
    rw [hb] at hdone
    cases hdone
  · have hn : s.notifyOne = s := by rw [LogicState.notifyOne, if_neg hb]
    rw [hn]
    exact h

theorem PosterStep.flagged {s s' : LogicState} {i : Nat} (hstep : PosterStep s i s')
    (h : Flagged s) : Flagged s' := by
  cases hstep with
  | take | push | release => exact h.same rfl rfl rfl
  | notify => exact h.notifyOne.same rfl rfl rfl

theorem popFront_worker (s : LogicState) (pc : WorkerPc) :
    (s.popFront pc).worker = pc ∨ (s.popFront pc).worker = s.worker := by
  rw [LogicState.popFront]
  split
  · exact Or.inr rfl
  · exact Or.inl rfl

/-- The worker starts to drain where it has read the flag. -/
theorem workerStep_drains {s s' : LogicState} (hstep : workerStep s = some s')
    (h : s'.worker.drains = true) : s.worker.drains = true ∨ s.bStop = true := by
  cases workerStep_inv hstep with
  | take | wait | decide | block | dispatch => cases h
  | overrun => cases h
  | drain hfrom =>
      rw [workerStep, hfrom] at hstep
      have hworker := congrArg LogicState.worker (Option.some.inj hstep)
      refine Or.inr (Classical.byContradiction fun hstop => ?_)
      rw [show (if s.bStop then WorkerPc.drain else .dispatch) = .dispatch from if_neg hstop]
        at hworker
      cases hworker
  | @drop msg rest pc hfrom =>
      rcases hfrom with ⟨hw, rfl⟩ | ⟨hw, rfl⟩
      · rcases popFront_worker s .unlock with hpc | hpc <;>
          rw [hpc] at h <;> simp [hw, WorkerPc.drains] at h
      · exact Or.inl (by rw [hw]; rfl)
  | call hfrom =>
      rcases hfrom with ⟨hw, rfl⟩ | ⟨hw, rfl⟩
      · cases h
      · exact Or.inl (by rw [hw]; rfl)
  | @pop pc hfrom =>
      rcases hfrom with ⟨hw, rfl⟩ | ⟨hw, rfl⟩
      · rcases popFront_worker s .unlock with hpc | hpc <;>
          rw [hpc] at h <;> simp [hw, WorkerPc.drains] at h
      · exact Or.inl (by rw [hw]; rfl)
  | release hfrom =>
      rcases hfrom with ⟨hw, rfl⟩ | ⟨hw, rfl⟩
      · cases h
      · exact Or.inl (by rw [hw]; rfl)

theorem workerStep_destructor {s s' : LogicState} (hstep : WorkerStep s s') :
    s'.destructor = s.destructor := by
  have hpop : ∀ pc, (s.popFront pc).destructor = s.destructor := by
    intro pc
    rw [LogicState.popFront]
    split <;> rfl
  cases hstep with
  | drop | pop => exact hpop _
  | take | wait | decide | block | drain | dispatch | overrun | call | release => rfl

theorem workerStep_flagged {s s' : LogicState} (h : Flagged s)
    (hstep : workerStep s = some s') : Flagged s' := by
  have hinv := workerStep_inv hstep
  have hstop := hinv.keeps.2.2
  have hdestructor := workerStep_destructor hinv
  refine ⟨?_, fun hd => ?_, fun hj => ?_⟩
  · rw [hstop, hdestructor]
    exact h.stopped
  · rw [hstop]
    exact (workerStep_drains hstep hd).elim h.drains id
  · rw [hdestructor] at hj
    rw [workerStep, h.joined hj] at hstep
    cases hstep

theorem destructorStep_flagged {s s' : LogicState} (h : Flagged s)
    (hstep : destructorStep s = some s') : Flagged s' := by
  rw [destructorStep] at hstep
  cases hd : s.destructor with
  | running =>
      simp only [hd] at hstep
      cases hstep
      exact ⟨fun _ => rfl, fun _ => rfl, fun hj => by cases hj⟩
  | notify =>
      simp only [hd] at hstep
      cases hstep
      have hn := h.notifyOne
      exact ⟨fun _ => hn.stopped (by show s.destructor ≠ _; rw [hd]; exact fun hr => by cases hr),
        hn.drains, fun hj => by cases hj⟩
  | join =>
      simp only [hd] at hstep
      split at hstep
      · next hdone =>
          cases hstep
          exact ⟨fun _ => h.stopped (by rw [hd]; exact fun hr => by cases hr), h.drains,
            fun _ => hdone⟩
      · cases hstep
  | joined => simp only [hd] at hstep; cases hstep

theorem logicStep_flagged {s s' : LogicState} {a : LogicAction} (h : Flagged s)
    (hstep : logicStep s a = some s') : Flagged s' := by
  cases a with
  | post i msg =>
      rw [logicStep] at hstep
      split at hstep
      · cases hstep
        exact h.same rfl rfl rfl
      · cases hstep
  | poster i => exact (posterStep_inv hstep).flagged h
  | worker => exact workerStep_flagged h hstep
  | spuriousWakeUp =>
      rw [logicStep] at hstep
      split at hstep
      · next hb =>
          cases hstep
          refine ⟨h.stopped, fun hd => (by cases hd), fun hj => ?_⟩
          have hdone := h.joined hj
          rw [hb] at hdone
          cases hdone
      · cases hstep
  | destructor => exact destructorStep_flagged h hstep

/-! ## Runs -/

theorem work_le {k : Nat} (s : LogicState) :
    s.work k ≤ 6 * s.msgQue.length + 14 * k + 12 := by
  have hworker : s.worker.work ≤ 5 := by cases s.worker <;> simp [WorkerPc.work]
  have hdestructor : s.destructor.work ≤ 7 := by cases s.destructor <;> simp [DestructorPc.work]
  have hposters : ∑ i ∈ Finset.range k, (s.posters i).work ≤ k * 14 := by
    have hle := Finset.sum_le_card_nsmul (Finset.range k) (fun i => (s.posters i).work) 14
      fun i _ => by cases s.posters i <;> simp [PosterPc.work]
    simpa using hle
  rw [LogicState.work]
  omega

/-- What every step of the threads keeps of a state reached. -/
structure Settling (k : Nat) (s₀ s : LogicState) : Prop where
  mutex : Mutex s
  flow : Flow s
  flagged : Flagged s
  idleFrom : IdleFrom k s
  handed : Handed s₀ s

theorem logicStep_settling {k : Nat} {s₀ s s' : LogicState} {a : LogicAction}
    (h : Settling k s₀ s) (ha : a.Moves) (hstep : logicStep s a = some s') :
    Settling k s₀ s' where
  mutex := (logicStep_inv ⟨h.mutex, h.flow⟩ hstep).1
  flow := (logicStep_inv ⟨h.mutex, h.flow⟩ hstep).2
  flagged := logicStep_flagged h.flagged hstep
  idleFrom := h.idleFrom.moves ha hstep
  handed := by
    cases a with
    | post => cases ha
    | spuriousWakeUp => cases ha
    | poster i => exact h.handed.poster (posterStep_inv hstep)
    | worker =>
        have hkeep := (workerStep_inv hstep).keeps
        exact h.handed.same hkeep.1 hkeep.2.1
    | destructor =>
        have hkeep := destructorStep_keeps hstep
        exact h.handed.same hkeep.1 hkeep.2.1

theorem logicStep_work_lt {k : Nat} {s₀ s s' : LogicState} {a : LogicAction}
    (h : Settling k s₀ s) (ha : a.Moves) (hstep : logicStep s a = some s') :
    s'.work k < s.work k := by
  cases a with
  | post => cases ha
  | spuriousWakeUp => cases ha
  | poster i => exact (posterStep_inv hstep).work_lt (h.idleFrom.lt hstep)
  | worker => exact (workerStep_inv hstep).work_lt h.flow
  | destructor => exact destructorStep_work_lt hstep

/-- A worker asleep among idle posters has dispatched everything. -/
theorem Settling.served {k : Nat} {s₀ s : LogicState} (h : Settling k s₀ s) (hrest : AtRest s)
    (hblocked : s.worker = .blocked) :
    s.popped = s.pushed ∧ s.calls = dispatch s.pushed ∧ s₀.pushed <+: s.pushed ∧
      ∀ i msg, (s₀.posters i).message = some msg → msg ∈ s.pushed := by
  have hempty : s.msgQue = [] := by
    by_contra hque
    obtain ⟨i, hi⟩ := h.flow.awake hblocked hque
    rw [hrest.idle i] at hi
    cases hi
  have hpopped : s.popped = s.pushed := by
    rw [h.flow.conserved, hempty, List.append_nil]
  refine ⟨hpopped, ?_, h.handed.pushed, fun i msg hmsg => ?_⟩
  · rw [← hpopped]
    exact h.flow.calls_eq (by rw [hblocked]; rfl)
  · rcases h.handed.held i msg hmsg with hheld | hmem
    · rw [hrest.idle i] at hheld
      cases hheld
    · exact hmem

/-- How the threads go on from `s` when they are left to themselves. -/
structure ComesToRest (s : LogicState) : Prop where
  bounded : ∃ k, IdleFrom k s ∧ ∀ more s', (∀ a ∈ more, a.Moves) →
    Machine.exec logicStep s more = some s' →
    more.length ≤ 6 * s.msgQue.length + 14 * k + 12
  served : ∀ more s', (∀ a ∈ more, a.Moves) → Machine.exec logicStep s more = some s' →
    (∀ i, logicStep s' (.poster i) = none) → logicStep s' .worker = none → s'.bStop = false →
    s'.worker = .blocked ∧ s'.popped = s'.pushed ∧ s'.calls = dispatch s'.pushed ∧
      s.pushed <+: s'.pushed ∧ ∀ i msg, (s.posters i).message = some msg → msg ∈ s'.pushed
  ended : ∀ more s', (∀ a ∈ more, a.Moves) → Machine.exec logicStep s more = some s' →
    (∀ a, a.Moves → logicStep s' a = none) →
    s'.worker = .done ∧ s'.destructor = .joined ∨ s'.worker = .blocked ∧ s'.destructor = .join

/-- From every state reached, and whatever the order in which the threads are scheduled, they
come to rest: all messages have been dispatched, or the destructor has joined the worker, or
waits for it in vain. -/
theorem logicQueue_comes_to_rest (actions : List LogicAction) (s : LogicState)
    (hrun : Machine.exec logicStep LogicState.start actions = some s) : ComesToRest s := by
  obtain ⟨hmutex, hflow⟩ := exec_inv hrun
  obtain ⟨k, hidle⟩ := exec_idleFrom hrun
  have hflagged : Flagged s :=
    Machine.exec_invariant (fun _ _ _ h hstep => logicStep_flagged h hstep)
      ⟨fun hr => absurd rfl hr, fun hd => (by cases hd), fun hj => by cases hj⟩ hrun
  have hstart : Settling k s s := ⟨hmutex, hflow, hflagged, hidle, .refl s⟩
  have hsettling : ∀ {more s'}, (∀ a ∈ more, a.Moves) →
      Machine.exec logicStep s more = some s' → Settling k s s' := fun hmore hrun' =>
    Machine.exec_invariant_of (I := Settling k s) (L := LogicAction.Moves)
      (fun _ _ _ h ha hstep => logicStep_settling h ha hstep) hstart hmore hrun'
  refine ⟨⟨k, hidle, fun more s' hmore hrun' => ?_⟩, ?_, ?_⟩
  · have hlength := Machine.exec_length_le (I := Settling k s) (L := LogicAction.Moves)
      (fun _ _ _ h ha hstep => logicStep_settling h ha hstep)
      (fun _ _ _ h ha hstep => logicStep_work_lt h ha hstep) hstart hmore hrun'
    have hbound := work_le (k := k) s
    omega
  · intro more s' hmore hrun' hposters hworker hrunning
    have h := hsettling hmore hrun'
    have hrest := atRest_of_stuck h.mutex hposters hworker
    have hblocked : s'.worker = .blocked := hrest.worker.resolve_right fun hdone => by
      rw [h.flagged.drains (by rw [hdone]; rfl)] at hrunning
      cases hrunning
    exact ⟨hblocked, h.served hrest hblocked⟩
  · intro more s' hmore hrun' hstuck
    have h := hsettling hmore hrun'
    have hrest := atRest_of_stuck h.mutex (fun i => hstuck (.poster i) trivial)
      (hstuck .worker trivial)
    have hdestructor : destructorStep s' = none := hstuck .destructor trivial
    rw [destructorStep] at hdestructor
    cases hd : s'.destructor with
    | running | notify => simp only [hd] at hdestructor; cases hdestructor
    | joined => exact Or.inl ⟨h.flagged.joined hd, rfl⟩
    | join =>
        refine Or.inr ⟨hrest.worker.resolve_right fun hdone => ?_, rfl⟩
        simp only [hd, hdone, if_true] at hdestructor
        cases hdestructor

/-- A poster holds a message while the worker falls asleep; it is pushed, and the worker
dispatches it and sleeps again. -/
theorem logicQueue_comes_to_rest_served :
    ∃ s s', Machine.exec logicStep LogicState.start
        [.worker, .post 0 (emptyNode .first msgHelloWord), .worker, .worker] = some s ∧
      Machine.exec logicStep s
        [.poster 0, .poster 0, .poster 0, .poster 0, .worker, .worker, .worker, .worker, .worker,
          .worker, .worker, .worker, .worker] = some s' ∧
      emptyNode .first msgHelloWord ∈ s'.pushed ∧ s'.calls = dispatch s'.pushed := by
  obtain ⟨s, s', hrun, hmore, hposters, hworker, hrunning, hheld⟩ : ∃ s s',
      Machine.exec logicStep LogicState.start
        [.worker, .post 0 (emptyNode .first msgHelloWord), .worker, .worker] = some s ∧
      Machine.exec logicStep s
        [.poster 0, .poster 0, .poster 0, .poster 0, .worker, .worker, .worker, .worker, .worker,
          .worker, .worker, .worker, .worker] = some s' ∧
      (∀ i, s'.posters i = .idle) ∧ logicStep s' .worker = none ∧ s'.bStop = false ∧
      s.posters 0 = .lock (emptyNode .first msgHelloWord) := by
    refine ⟨_, _, rfl, rfl, fun i => ?_, rfl, rfl, rfl⟩
    cases i <;> rfl
  obtain ⟨-, -, hcalls, -, hpushed⟩ :=
    (logicQueue_comes_to_rest _ s hrun).served _ s' (by simp [LogicAction.Moves]) hmore
      (fun i => by rw [logicStep, posterStep, hposters i]) hworker hrunning
  exact ⟨s, s', hrun, hmore, hpushed 0 _ (by rw [hheld]; rfl), hcalls⟩

end AsioServer
