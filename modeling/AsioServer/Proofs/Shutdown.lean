import AsioServer.Proofs.LogicQueue

/-!
# The destructor and a worker that goes to sleep

`~LogicSystem` sets `_b_stop` and notifies without taking `_mutex`. The worker
tests `_b_stop` under the mutex and then waits, and between the two the
notification reaches nobody: it is lost, and a worker that saw `_b_stop` unset
sleeps behind it.

That window is all there is to it. Once `_b_stop` is set no test sends the
worker to sleep, and a worker that is asleep is woken, so a destructor that
notifies while the worker stands anywhere else finds it awake for good
(`Warned`). And in the window the next step of the worker is the sleep nobody
ends (`window_missed`).
-/

namespace AsioServer

/-- The `notify_one` of the destructor is issued. -/
def DestructorPc.notified : DestructorPc → Bool
  | .join | .joined => true
  | .running | .notify => false

/-- The worker sleeps, or is about to without another test. -/
def WorkerPc.sleeps : WorkerPc → Bool
  | .wait | .blocked => true
  | .lock | .test | .woken | .decide | .dispatch | .pop | .unlock | .drain | .drainPop
  | .done => false

/-- The worker sleeps, and neither the destructor nor a poster will wake it. -/
structure Missed (s : LogicState) : Prop where
  notified : s.destructor.notified = true
  blocked : s.worker = .blocked
  quiet : ∀ i, (s.posters i).owes = false

/-- The destructor does not notify between the worker's test and its sleep. -/
def NotifiesOutsideWindow (s : LogicState) : LogicAction → Prop
  | .destructor => s.destructor = .notify → s.worker ≠ .wait
  | .post _ _ | .poster _ | .worker | .spuriousWakeUp => True

/-- What holds from the first statement of the destructor on. -/
structure Warned (s : LogicState) : Prop where
  stopped : s.destructor ≠ .running → s.bStop = true
  awake : s.destructor.notified = true → s.worker.sleeps = false

theorem start_warned : Warned LogicState.start :=
  ⟨fun h => absurd rfl h, fun h => by cases h⟩

theorem Warned.not_missed {s : LogicState} (h : Warned s) : ¬ Missed s := by
  intro hm
  have hawake := h.awake hm.notified
  rw [hm.blocked] at hawake
  cases hawake

/-- A step of the worker or of a poster that puts no one to sleep. -/
theorem Warned.move {s s' : LogicState} (h : Warned s) (hdes : s'.destructor = s.destructor)
    (hstop : s'.bStop = s.bStop)
    (hworker : s'.worker = s.worker ∨ s'.worker.sleeps = false) : Warned s' := by
  refine ⟨fun hd => ?_, fun hn => ?_⟩
  · rw [hstop]
    exact h.stopped (by rwa [hdes] at hd)
  · rcases hworker with hw | hw
    · rw [hw]
      exact h.awake (by rwa [hdes] at hn)
    · exact hw

theorem notifyOne_woken (s : LogicState) :
    s.notifyOne.worker = s.worker ∨ s.notifyOne.worker.sleeps = false := by
  rw [LogicState.notifyOne]
  show (if _ then _ else _) = _ ∨ WorkerPc.sleeps (if _ then _ else _) = false
  split
  · exact Or.inr rfl
  · exact Or.inl rfl

theorem posterStep_warned {s s' : LogicState} {i : Nat} (h : Warned s)
    (hstep : posterStep s i = some s') : Warned s' := by
  rw [posterStep] at hstep
  cases hpc : s.posters i with
  | idle => rw [hpc] at hstep; cases hstep
  | lock msg =>
      simp only [hpc] at hstep
      split at hstep
      · cases hstep
        exact h.move rfl rfl (Or.inl rfl)
      · cases hstep
  | push msg =>
      simp only [hpc] at hstep
      cases hstep
      exact h.move rfl rfl (Or.inl rfl)
  | pushed first =>
      simp only [hpc] at hstep
      cases hstep
      exact h.move rfl rfl (Or.inl rfl)
  | notify =>
      simp only [hpc] at hstep
      cases hstep
      exact h.move rfl rfl (notifyOne_woken s)

/-- A pop moves the worker on, if there is something to pop. -/
theorem Warned.popFront {s : LogicState} {pc : WorkerPc} (h : Warned s)
    (hpc : pc.sleeps = false) : Warned (s.popFront pc) := by
  unfold LogicState.popFront
  split
  · exact h.move rfl rfl (Or.inl rfl)
  · exact h.move rfl rfl (Or.inr hpc)

/-- The test is where the worker looks at `_b_stop`, and the only way to the
sleep. -/
theorem workerStep_warned {s s' : LogicState} (h : Warned s)
    (hstep : workerStep s = some s') : Warned s' := by
  cases workerStep_inv hstep with
  | take | decide | drain | dispatch | overrun => exact h.move rfl rfl (Or.inr rfl)
  | wait _ _ hrunning =>
      have hquiet : s.destructor.notified ≠ true := by
        intro hn
        have hstop := h.stopped (by intro hd; rw [hd] at hn; cases hn)
        rw [hrunning] at hstop
        cases hstop
      exact ⟨h.stopped, fun hn => absurd hn hquiet⟩
  | block hfrom =>
      refine ⟨h.stopped, fun hn => ?_⟩
      have hawake := h.awake hn
      rw [hfrom] at hawake
      cases hawake
  | drop hfrom | pop hfrom => rcases hfrom with ⟨-, rfl⟩ | ⟨-, rfl⟩ <;> exact h.popFront rfl
  | call hfrom | release hfrom =>
      rcases hfrom with ⟨-, rfl⟩ | ⟨-, rfl⟩ <;> exact h.move rfl rfl (Or.inr rfl)

/-- Outside the window a notification leaves nobody asleep. -/
theorem destructorStep_warned {s s' : LogicState} (h : Warned s)
    (houtside : s.destructor = .notify → s.worker ≠ .wait)
    (hstep : destructorStep s = some s') : Warned s' := by
  rw [destructorStep] at hstep
  cases hd : s.destructor with
  | running =>
      simp only [hd] at hstep
      cases hstep
      exact ⟨fun _ => rfl, fun hn => by cases hn⟩
  | notify =>
      simp only [hd] at hstep
      cases hstep
      refine ⟨fun _ => h.stopped (by rw [hd]; decide), fun _ => ?_⟩
      show s.notifyOne.worker.sleeps = false
      rcases notifyOne_woken s with hw | hw
      · have hblocked := notifyOne_worker s
        rw [hw] at hblocked ⊢
        have hwait := houtside hd
        cases hpc : s.worker with
        | wait => exact absurd hpc hwait
        | blocked => exact absurd hpc hblocked
        | lock | test | woken | decide | dispatch | pop | unlock | drain | drainPop | done => rfl
      · exact hw
  | join =>
      simp only [hd] at hstep
      split at hstep
      · next hdone =>
          cases hstep
          refine ⟨fun _ => h.stopped (by rw [hd]; decide), fun _ => ?_⟩
          show s.worker.sleeps = false
          rw [hdone]
          rfl
      · cases hstep
  | joined => simp only [hd] at hstep; cases hstep

theorem logicStep_warned {s s' : LogicState} {a : LogicAction} (h : Warned s)
    (houtside : NotifiesOutsideWindow s a) (hstep : logicStep s a = some s') : Warned s' := by
  cases a with
  | post i msg =>
      simp only [logicStep] at hstep
      split at hstep
      · cases hstep
        exact h.move rfl rfl (Or.inl rfl)
      · cases hstep
  | poster i => exact posterStep_warned h hstep
  | worker => exact workerStep_warned h hstep
  | spuriousWakeUp =>
      simp only [logicStep] at hstep
      split at hstep
      · cases hstep
        exact h.move rfl rfl (Or.inr rfl)
      · cases hstep
  | destructor => exact destructorStep_warned h houtside hstep

/-- A notification in the window, with no other on its way, is missed. -/
theorem window_missed {s : LogicState} (hworker : s.worker = .wait)
    (hdes : s.destructor = .notify) (hquiet : ∀ i, (s.posters i).owes = false) :
    ∃ s', Machine.exec logicStep s [.destructor, .worker] = some s' ∧ Missed s' := by
  have hnotify : s.notifyOne = s := by
    rw [LogicState.notifyOne, if_neg (by rw [hworker]; decide)]
  have hdestructor : logicStep s .destructor = some { s with destructor := .join } := by
    simp only [logicStep, destructorStep, hdes, hnotify]
  have hsleep : logicStep { s with destructor := .join } .worker =
      some { s with destructor := .join, owner := none, worker := .blocked } := by
    simp only [logicStep, workerStep, hworker]
  exact ⟨_, Machine.exec_cons.mpr ⟨_, hdestructor, Machine.exec_singleton.mpr hsleep⟩,
    rfl, rfl, hquiet⟩

/-- A run in which the destructor never notifies in the window misses the worker
in no state; and wherever a run gets to where it does, with no other
notification on its way, the worker's next step is missed. -/
theorem shutdown_not_missed (actions : List LogicAction) :
    (Machine.Meets logicStep NotifiesOutsideWindow LogicState.start actions →
      Machine.Always logicStep (fun s => ¬ Missed s) LogicState.start actions) ∧
    ∀ s, Machine.exec logicStep LogicState.start actions = some s →
      s.worker = .wait → s.destructor = .notify → (∀ i, (s.posters i).owes = false) →
      ∃ s', Machine.exec logicStep s [.destructor, .worker] = some s' ∧ Missed s' := by
  constructor
  · intro hmeets
    exact Machine.always_of_meets (fun _ _ _ h hC hstep => logicStep_warned h hC hstep)
      (fun _ h => h.not_missed) start_warned hmeets
  · intro s _ hworker hdes hquiet
    exact window_missed hworker hdes hquiet

/-- The destructor runs while the worker is between its first test and its
sleep. -/
theorem shutdown_missed :
    ¬ ∀ actions, Machine.Always logicStep (fun s => ¬ Missed s) LogicState.start actions := by
  intro hall
  obtain ⟨s, hrun, hmissed⟩ : ∃ s, Machine.exec logicStep LogicState.start
      [.worker, .worker, .destructor, .destructor, .worker] = some s ∧ Missed s :=
    ⟨_, rfl, rfl, rfl, fun _ => rfl⟩
  exact Machine.always_iff.mp (hall _) _ [] s (List.append_nil _).symm hrun hmissed

end AsioServer
