import AsioServer.Lib.Machine
import AsioServer.Ref.LogicQueue

/-!
# The logic queue dispatches in order and does not sleep on work

Two invariants over all interleavings. `Mutex` says that a thread stands at a
point inside the critical section exactly when it owns the mutex; from it comes
that no poster pushes between the worker's test of the queue and its going to
sleep. `Flow` says where the messages are: those pushed are those popped and
those in the queue, and the callbacks called are the ones registered for the
messages taken.

`Flow.awake` is the absence of a lost wake-up, in the form that every step
keeps: a worker that is blocked with messages in the queue has a notification
coming. It holds because the worker blocks on an empty queue only, because the
push that ends the emptiness sees a queue of one element, and because a poster
stops owing its notification only by waking a blocked worker.
-/

namespace AsioServer

/-! ## Invariants -/

/-- Points inside the critical section. -/
def WorkerPc.holds : WorkerPc → Bool
  | .test | .wait | .decide | .dispatch | .pop | .unlock | .drain | .drainPop => true
  | .lock | .blocked | .woken | .done => false

def PosterPc.holds : PosterPc → Bool
  | .push _ | .pushed _ => true
  | .idle | .lock _ | .notify => false

/-- The poster has a `notify_one` to issue. -/
def PosterPc.owes : PosterPc → Bool
  | .pushed first => first
  | .notify => true
  | .idle | .lock _ | .push _ => false

/-- The callback of the front message was called, and the message not popped. -/
def WorkerPc.carries : WorkerPc → Bool
  | .pop | .drainPop => true
  | _ => false

/-- The worker goes on with `front()` or `pop()`. -/
def WorkerPc.loads : WorkerPc → Bool
  | .dispatch | .pop | .drainPop => true
  | _ => false

/-- The messages taken from the queue. -/
def LogicState.taken (s : LogicState) : List LogicNode :=
  s.popped ++ if s.worker.carries then s.msgQue.head?.toList else []

/-- The calls that messages stand for: none, if no callback is registered. -/
def dispatch (msgs : List LogicNode) : List (CallBack × LogicNode) :=
  msgs.filterMap fun msg =>
    (findCallBack msg.recvnode.msgId).map fun callBack => (callBack, msg)

structure Mutex (s : LogicState) : Prop where
  worker : s.worker.holds = true ↔ s.owner = some .worker
  poster : ∀ i, (s.posters i).holds = true ↔ s.owner = some (.poster i)

structure Flow (s : LogicState) : Prop where
  faultless : s.fault = none
  conserved : s.pushed = s.popped ++ s.msgQue
  dispatched : s.calls = dispatch s.taken
  waiting : s.worker = .wait → s.msgQue = []
  decided : s.worker = .decide → s.msgQue = [] → s.bStop = true
  loaded : s.worker.loads = true → s.msgQue ≠ []
  awake : s.worker = .blocked → s.msgQue ≠ [] → ∃ i, (s.posters i).owes = true

theorem start_mutex : Mutex LogicState.start :=
  ⟨by simp [LogicState.start, WorkerPc.holds],
    fun i => by simp [LogicState.start, PosterPc.holds]⟩

theorem start_flow : Flow LogicState.start where
  faultless := rfl
  conserved := rfl
  dispatched := rfl
  waiting h := by cases h
  decided h := by cases h
  loaded h := by cases h
  awake h := by cases h

theorem dispatch_append (xs ys : List LogicNode) :
    dispatch (xs ++ ys) = dispatch xs ++ dispatch ys := List.filterMap_append

/-! ## Posters -/

theorem setPoster_same (s : LogicState) (i : Nat) (pc : PosterPc) :
    (s.setPoster i pc).posters i = pc := by simp [LogicState.setPoster]

theorem setPoster_other (s : LogicState) {i j : Nat} (pc : PosterPc) (h : j ≠ i) :
    (s.setPoster i pc).posters j = s.posters j := by simp [LogicState.setPoster, h]

/-- A poster that moves without owing less keeps the notifications owed. -/
theorem owes_setPoster {s : LogicState} {i : Nat} {pc : PosterPc}
    (h : ∃ j, (s.posters j).owes = true)
    (hi : (s.posters i).owes = true → pc.owes = true) :
    ∃ j, ((s.setPoster i pc).posters j).owes = true := by
  obtain ⟨j, hj⟩ := h
  by_cases hji : j = i
  · subst hji
    exact ⟨j, by rw [setPoster_same]; exact hi hj⟩
  · exact ⟨j, by rw [setPoster_other s pc hji]; exact hj⟩

/-- A move of one poster that takes or releases the mutex, or neither. -/
theorem Mutex.setPoster {s : LogicState} {i : Nat} {pc : PosterPc} (h : Mutex s)
    {owner : Option Thread} (hi : pc.holds = true ↔ owner = some (.poster i))
    (hother : ∀ t, t ≠ .poster i → (s.owner = some t ↔ owner = some t)) :
    Mutex ({ s with owner := owner }.setPoster i pc) := by
  refine ⟨?_, fun j => ?_⟩
  · exact h.worker.trans (hother .worker (by simp))
  · by_cases hji : j = i
    · subst hji
      rw [setPoster_same]
      exact hi
    · rw [setPoster_other _ pc hji]
      exact (h.poster j).trans (hother (.poster j) (by simpa using hji))

/-- Where a poster stands says nothing about the data, only about what it
owes. -/
theorem Flow.setPoster {s : LogicState} {i : Nat} {pc : PosterPc} (h : Flow s)
    {owner : Option Thread} (hi : (s.posters i).owes = true → pc.owes = true) :
    Flow ({ s with owner := owner }.setPoster i pc) where
  faultless := h.faultless
  conserved := h.conserved
  dispatched := h.dispatched
  waiting := h.waiting
  decided := h.decided
  loaded := h.loaded
  awake hb hq := owes_setPoster (s := { s with owner := owner }) (h.awake hb hq) hi

/-- A push. The mutex keeps the worker out, and the queue of one element makes
the poster owe a notification. -/
theorem Flow.push {s : LogicState} {i : Nat} {msg : LogicNode} (h : Flow s)
    (hout : s.worker.holds = false) (hpc : s.posters i = .push msg) :
    Flow ({ s with msgQue := s.msgQue ++ [msg], pushed := s.pushed ++ [msg] }.setPoster i
      (.pushed ((s.msgQue ++ [msg]).length == 1))) where
  faultless := h.faultless
  conserved := by
    show s.pushed ++ [msg] = s.popped ++ (s.msgQue ++ [msg])
    rw [h.conserved, List.append_assoc]
  dispatched := by
    have hcarries : s.worker.carries = false := by
      cases hw : s.worker <;> simp_all [WorkerPc.holds, WorkerPc.carries]
    have htaken := h.dispatched
    simpa [LogicState.taken, LogicState.setPoster, hcarries] using htaken
  waiting hw := by
    have hw' : s.worker = .wait := hw
    rw [hw'] at hout
    cases hout
  decided hw := by
    have hw' : s.worker = .decide := hw
    rw [hw'] at hout
    cases hout
  loaded _ := by simp [LogicState.setPoster]
  awake hb _ := by
    by_cases hq : s.msgQue = []
    · refine ⟨i, ?_⟩
      rw [setPoster_same, hq]
      rfl
    · refine owes_setPoster (h.awake hb hq) ?_
      show (s.posters i).owes = true → _
      rw [hpc]
      exact fun ho => by cases ho

/-- A notification: nobody who is blocked stays so. -/
theorem Flow.notifyOne {s : LogicState} (h : Flow s) : Flow s.notifyOne := by
  by_cases hb : s.worker = .blocked
  · have hn : s.notifyOne = { s with worker := .woken } := by
      rw [LogicState.notifyOne, if_pos hb]
    rw [hn]
    refine ⟨h.faultless, h.conserved, ?_, ?_, ?_, ?_, ?_⟩
    · have htaken := h.dispatched
      simpa [LogicState.taken, hb, WorkerPc.carries] using htaken
    all_goals intro hw; cases hw
  · have hn : s.notifyOne = s := by rw [LogicState.notifyOne, if_neg hb]
    rw [hn]
    exact h

theorem Mutex.notifyOne {s : LogicState} (h : Mutex s) : Mutex s.notifyOne := by
  refine ⟨?_, h.poster⟩
  rw [LogicState.notifyOne]
  show WorkerPc.holds (if _ then _ else _) = true ↔ _
  split
  · next hb =>
      have hw := h.worker
      rw [hb] at hw
      exact hw
  · exact h.worker

theorem notifyOne_worker (s : LogicState) : s.notifyOne.worker ≠ .blocked := by
  rw [LogicState.notifyOne]
  show (if _ then _ else _) ≠ WorkerPc.blocked
  split
  · exact fun h => by cases h
  · assumption

theorem posterStep_mutex {s s' : LogicState} {i : Nat} (h : Mutex s)
    (hstep : posterStep s i = some s') : Mutex s' := by
  have hposter := h.poster i
  rw [posterStep] at hstep
  cases hpc : s.posters i with
  | idle => rw [hpc] at hstep; cases hstep
  | lock msg =>
      simp only [hpc] at hstep
      split at hstep
      · next hfree =>
          cases hstep
          refine h.setPoster (by simp [PosterPc.holds]) fun t ht => ?_
          rw [hfree]
          simp [Ne.symm ht]
      · cases hstep
  | push msg =>
      simp only [hpc] at hstep
      cases hstep
      rw [hpc] at hposter
      have h' : Mutex { s with msgQue := s.msgQue ++ [msg], pushed := s.pushed ++ [msg] } :=
        ⟨h.worker, h.poster⟩
      exact h'.setPoster hposter fun _ _ => Iff.rfl
  | pushed first =>
      simp only [hpc] at hstep
      cases hstep
      have howner : s.owner = some (.poster i) := hposter.mp (by rw [hpc]; rfl)
      refine h.setPoster ?_ fun t ht => ?_
      · cases first <;> simp [PosterPc.holds]
      · rw [howner]
        simp [Ne.symm ht]
  | notify =>
      simp only [hpc] at hstep
      cases hstep
      rw [hpc] at hposter
      exact h.notifyOne.setPoster hposter fun _ _ => Iff.rfl

theorem posterStep_flow {s s' : LogicState} {i : Nat} (hm : Mutex s) (h : Flow s)
    (hstep : posterStep s i = some s') : Flow s' := by
  have hposter := hm.poster i
  rw [posterStep] at hstep
  cases hpc : s.posters i with
  | idle => rw [hpc] at hstep; cases hstep
  | lock msg =>
      simp only [hpc] at hstep
      split at hstep
      · cases hstep
        exact h.setPoster (by rw [hpc]; exact fun ho => by cases ho)
      · cases hstep
  | push msg =>
      simp only [hpc] at hstep
      cases hstep
      refine h.push ?_ hpc
      have howner : s.owner = some (.poster i) := hposter.mp (by rw [hpc]; rfl)
      refine eq_false_of_ne_true fun hw => ?_
      rw [hm.worker.mp hw] at howner
      cases howner
  | pushed first =>
      simp only [hpc] at hstep
      cases hstep
      refine h.setPoster ?_
      rw [hpc]
      cases first <;> simp [PosterPc.owes]
  | notify =>
      simp only [hpc] at hstep
      cases hstep
      have hn := h.notifyOne
      exact
        { faultless := hn.faultless
          conserved := hn.conserved
          dispatched := hn.dispatched
          waiting := hn.waiting
          decided := hn.decided
          loaded := hn.loaded
          awake := fun hb => absurd hb (notifyOne_worker s) }

/-! ## The worker -/

theorem popFront_cons {s : LogicState} {msg : LogicNode} {rest : List LogicNode}
    (hque : s.msgQue = msg :: rest) (pc : WorkerPc) :
    s.popFront pc =
      { s with msgQue := rest, popped := s.popped ++ [msg], worker := pc } := by
  rw [LogicState.popFront, hque]

theorem Flow.calls_eq {s : LogicState} (h : Flow s) (hfresh : s.worker.carries = false) :
    s.calls = dispatch s.popped := by
  simpa [LogicState.taken, hfresh] using h.dispatched

/-- The message taken leaves the queue. -/
theorem Flow.popFront {s : LogicState} {msg : LogicNode} {rest : List LogicNode}
    {pc : WorkerPc} (h : Flow s) (hque : s.msgQue = msg :: rest)
    (hcalls : s.calls = dispatch (s.popped ++ [msg]))
    (hpc : pc = .unlock ∨ pc = .drain) : Flow (s.popFront pc) := by
  rw [popFront_cons hque]
  have hconserved := h.conserved
  rw [hque] at hconserved
  have hcarries : pc.carries = false := by rcases hpc with rfl | rfl <;> rfl
  refine ⟨h.faultless, ?_, ?_, ?_, ?_, ?_, ?_⟩
  · simpa using hconserved
  · simpa [LogicState.taken, hcarries] using hcalls
  all_goals
    intro hw
    rcases hpc with rfl | rfl <;> cases hw

/-- The callback registered for the front message is called. -/
theorem Flow.call {s : LogicState} {msg : LogicNode} {rest : List LogicNode}
    {callBack : CallBack} {pc : WorkerPc} (h : Flow s) (hque : s.msgQue = msg :: rest)
    (hfresh : s.worker.carries = false)
    (hfind : findCallBack msg.recvnode.msgId = some callBack)
    (hpc : pc = .pop ∨ pc = .drainPop) :
    Flow { s with calls := s.calls ++ [(callBack, msg)], worker := pc } := by
  have hcarries : pc.carries = true := by rcases hpc with rfl | rfl <;> rfl
  have hcalls := h.calls_eq hfresh
  refine ⟨h.faultless, h.conserved, ?_, ?_, ?_, ?_, ?_⟩
  · show s.calls ++ [(callBack, msg)] = dispatch (s.popped ++ if pc.carries then _ else _)
    rw [hcarries, if_pos rfl, hque, dispatch_append, ← hcalls]
    simp [dispatch, hfind]
  · intro hw; rcases hpc with rfl | rfl <;> cases hw
  · intro hw; rcases hpc with rfl | rfl <;> cases hw
  · intro _
    show s.msgQue ≠ []
    rw [hque]
    exact List.cons_ne_nil _ _
  · intro hw; rcases hpc with rfl | rfl <;> cases hw

/-- Both copies of the dispatch code: a message without a callback is popped at
once. -/
theorem Flow.dropped {s : LogicState} {msg : LogicNode} {rest : List LogicNode}
    {pc : WorkerPc} (h : Flow s) (hque : s.msgQue = msg :: rest)
    (hfresh : s.worker.carries = false)
    (hfind : findCallBack msg.recvnode.msgId = none)
    (hpc : pc = .unlock ∨ pc = .drain) : Flow (s.popFront pc) := by
  refine h.popFront hque ?_ hpc
  rw [dispatch_append, h.calls_eq hfresh]
  simp [dispatch, hfind]

/-- And a message whose callback was called is popped behind it. -/
theorem Flow.finished {s : LogicState} {pc : WorkerPc} (h : Flow s)
    (hcarries : s.worker.carries = true) (hloads : s.worker.loads = true)
    (hpc : pc = .unlock ∨ pc = .drain) : Flow (s.popFront pc) := by
  cases hque : s.msgQue with
  | nil => exact absurd hque (h.loaded hloads)
  | cons msg rest =>
      refine h.popFront hque ?_ hpc
      simpa [LogicState.taken, hcarries, hque] using h.dispatched

/-- A move of the worker that leaves the queue alone, to a point where the queue
is as it has to be there. -/
theorem Flow.moveTo {s : LogicState} {pc : WorkerPc} {owner : Option Thread} (h : Flow s)
    (hfresh : s.worker.carries = false) (hcarries : pc.carries = false)
    (hwaiting : pc = .wait → s.msgQue = [])
    (hdecided : pc = .decide → s.msgQue = [] → s.bStop = true)
    (hloaded : pc.loads = true → s.msgQue ≠ [])
    (hawake : pc = .blocked → s.msgQue ≠ [] → ∃ i, (s.posters i).owes = true) :
    Flow { s with owner := owner, worker := pc } where
  faultless := h.faultless
  conserved := h.conserved
  dispatched := by simpa [LogicState.taken, hcarries] using h.calls_eq hfresh
  waiting := hwaiting
  decided := hdecided
  loaded := hloaded
  awake := hawake

/-- To a point where nothing is known of it. -/
theorem Flow.move {s : LogicState} {pc : WorkerPc} (h : Flow s)
    {owner : Option Thread} (hfresh : s.worker.carries = false)
    (hpc : pc = .lock ∨ pc = .test ∨ pc = .drain ∨ pc = .done ∨ pc = .woken) :
    Flow { s with owner := owner, worker := pc } := by
  have hcarries : pc.carries = false := by
    rcases hpc with rfl | rfl | rfl | rfl | rfl <;> rfl
  refine h.moveTo hfresh hcarries ?_ ?_ ?_ ?_
  all_goals
    intro hw
    rcases hpc with rfl | rfl | rfl | rfl | rfl <;> cases hw

/-- What a step of the worker can do. -/
inductive WorkerStep (s : LogicState) : LogicState → Prop
  | take (hfrom : s.worker = .lock ∨ s.worker = .woken) (hfree : s.owner = none) :
      WorkerStep s { s with owner := some .worker, worker := .test }
  | wait (hfrom : s.worker = .test) (hque : s.msgQue = []) (hrunning : s.bStop = false) :
      WorkerStep s { s with worker := .wait }
  | decide (hfrom : s.worker = .test) (hwork : s.msgQue = [] → s.bStop = true) :
      WorkerStep s { s with worker := .decide }
  | block (hfrom : s.worker = .wait) : WorkerStep s { s with owner := none, worker := .blocked }
  | drain (hfrom : s.worker = .decide) : WorkerStep s { s with worker := .drain }
  | dispatch (hfrom : s.worker = .decide) (hrunning : s.bStop = false) :
      WorkerStep s { s with worker := .dispatch }
  /-- `front` of an empty queue. -/
  | overrun (hfrom : s.worker = .dispatch) (hque : s.msgQue = []) :
      WorkerStep s { s with worker := .dispatch, fault := some .outOfBounds }
  | drop {msg : LogicNode} {rest : List LogicNode} {pc : WorkerPc}
      (hfrom : s.worker = .dispatch ∧ pc = .unlock ∨ s.worker = .drain ∧ pc = .drain)
      (hque : s.msgQue = msg :: rest) (hfind : findCallBack msg.recvnode.msgId = none) :
      WorkerStep s (s.popFront pc)
  | call {msg : LogicNode} {rest : List LogicNode} {callBack : CallBack} {pc : WorkerPc}
      (hfrom : s.worker = .dispatch ∧ pc = .pop ∨ s.worker = .drain ∧ pc = .drainPop)
      (hque : s.msgQue = msg :: rest) (hfind : findCallBack msg.recvnode.msgId = some callBack) :
      WorkerStep s { s with calls := s.calls ++ [(callBack, msg)], worker := pc }
  | pop {pc : WorkerPc}
      (hfrom : s.worker = .pop ∧ pc = .unlock ∨ s.worker = .drainPop ∧ pc = .drain) :
      WorkerStep s (s.popFront pc)
  | release {pc : WorkerPc}
      (hfrom : s.worker = .unlock ∧ pc = .lock ∨ s.worker = .drain ∧ pc = .done) :
      WorkerStep s { s with owner := none, worker := pc }

theorem workerStep_inv {s s' : LogicState} (hstep : workerStep s = some s') : WorkerStep s s' := by
  rw [workerStep] at hstep
  cases hw : s.worker with
  | lock =>
      simp only [hw] at hstep
      split at hstep
      · next hfree =>
          cases hstep
          exact .take (Or.inl hw) hfree
      · cases hstep
  | woken =>
      simp only [hw] at hstep
      split at hstep
      · next hfree =>
          cases hstep
          exact .take (Or.inr hw) hfree
      · cases hstep
  | test =>
      simp only [hw] at hstep
      split at hstep
      · next hcond =>
          cases hstep
          simp only [Bool.and_eq_true, List.isEmpty_iff, Bool.not_eq_true'] at hcond
          exact .wait hw hcond.1 hcond.2
      · next hcond =>
          cases hstep
          exact .decide hw fun hque => by simpa [hque] using hcond
  | wait =>
      simp only [hw] at hstep
      cases hstep
      exact .block hw
  | blocked | done =>
      simp only [hw] at hstep
      cases hstep
  | decide =>
      simp only [hw] at hstep
      by_cases hstop : s.bStop = true
      · rw [if_pos hstop] at hstep
        cases hstep
        exact .drain hw
      · rw [if_neg hstop] at hstep
        cases hstep
        exact .dispatch hw (eq_false_of_ne_true hstop)
  | dispatch =>
      simp only [hw] at hstep
      cases hque : s.msgQue with
      | nil =>
          have hhead : s.msgQue.head? = none := by rw [hque]; rfl
          simp only [hhead] at hstep
          cases hstep
          exact .overrun hw hque
      | cons msg rest =>
          have hhead : s.msgQue.head? = some msg := by rw [hque]; rfl
          simp only [hhead] at hstep
          split at hstep
          · next hfind =>
              cases hstep
              exact .drop (Or.inl ⟨hw, rfl⟩) hque hfind
          · next callBack hfind =>
              cases hstep
              exact .call (Or.inl ⟨hw, rfl⟩) hque hfind
  | drain =>
      simp only [hw] at hstep
      cases hque : s.msgQue with
      | nil =>
          have hhead : s.msgQue.head? = none := by rw [hque]; rfl
          simp only [hhead] at hstep
          cases hstep
          exact .release (Or.inr ⟨hw, rfl⟩)
      | cons msg rest =>
          have hhead : s.msgQue.head? = some msg := by rw [hque]; rfl
          simp only [hhead] at hstep
          split at hstep
          · next hfind =>
              cases hstep
              exact .drop (Or.inr ⟨hw, rfl⟩) hque hfind
          · next callBack hfind =>
              cases hstep
              exact .call (Or.inr ⟨hw, rfl⟩) hque hfind
  | pop =>
      simp only [hw] at hstep
      cases hstep
      exact .pop (Or.inl ⟨hw, rfl⟩)
  | drainPop =>
      simp only [hw] at hstep
      cases hstep
      exact .pop (Or.inr ⟨hw, rfl⟩)
  | unlock =>
      simp only [hw] at hstep
      cases hstep
      exact .release (Or.inl ⟨hw, rfl⟩)

theorem workerStep_flow {s s' : LogicState} (h : Flow s)
    (hstep : workerStep s = some s') : Flow s' := by
  cases workerStep_inv hstep with
  | take hfrom =>
      have hfresh : s.worker.carries = false := by rcases hfrom with hw | hw <;> rw [hw] <;> rfl
      exact h.move hfresh (by simp)
  | wait hfrom hque =>
      refine h.moveTo (by rw [hfrom]; rfl) rfl (fun _ => hque) ?_ ?_ ?_
      all_goals intro hpc; cases hpc
  | decide hfrom hwork =>
      refine h.moveTo (by rw [hfrom]; rfl) rfl ?_ (fun _ => hwork) ?_ ?_
      all_goals intro hpc; cases hpc
  | block hfrom =>
      refine h.moveTo (by rw [hfrom]; rfl) rfl ?_ ?_ ?_ fun _ hque => ?_
      · intro hpc; cases hpc
      · intro hpc; cases hpc
      · intro hpc; cases hpc
      · -- Nobody pushed since the test.
        exact absurd (h.waiting hfrom) hque
  | drain hfrom => exact h.move (by rw [hfrom]; rfl) (by simp)
  | dispatch hfrom hrunning =>
      -- The test was left because of a message.
      refine h.moveTo (by rw [hfrom]; rfl) rfl ?_ ?_ (fun _ hque => ?_) ?_
      · intro hpc; cases hpc
      · intro hpc; cases hpc
      · exact absurd (h.decided hfrom hque) (by rw [hrunning]; exact Bool.false_ne_true)
      · intro hpc; cases hpc
  | overrun hfrom hque => exact absurd hque (h.loaded (by rw [hfrom]; rfl))
  | drop hfrom hque hfind =>
      rcases hfrom with ⟨hw, rfl⟩ | ⟨hw, rfl⟩
      · exact h.dropped hque (by rw [hw]; rfl) hfind (Or.inl rfl)
      · exact h.dropped hque (by rw [hw]; rfl) hfind (Or.inr rfl)
  | call hfrom hque hfind =>
      rcases hfrom with ⟨hw, rfl⟩ | ⟨hw, rfl⟩
      · exact h.call hque (by rw [hw]; rfl) hfind (Or.inl rfl)
      · exact h.call hque (by rw [hw]; rfl) hfind (Or.inr rfl)
  | pop hfrom =>
      rcases hfrom with ⟨hw, rfl⟩ | ⟨hw, rfl⟩
      · exact h.finished (by rw [hw]; rfl) (by rw [hw]; rfl) (Or.inl rfl)
      · exact h.finished (by rw [hw]; rfl) (by rw [hw]; rfl) (Or.inr rfl)
  | release hfrom =>
      rcases hfrom with ⟨hw, rfl⟩ | ⟨hw, rfl⟩
      · exact h.move (by rw [hw]; rfl) (by simp)
      · exact h.move (by rw [hw]; rfl) (by simp)

/-- A move of the worker to a point whose hold on the mutex is that of the
owner it leaves. -/
theorem Mutex.move {s : LogicState} {pc : WorkerPc} (h : Mutex s) {owner : Option Thread}
    (hpc : pc.holds = true ↔ owner = some .worker)
    (hother : ∀ i, s.owner = some (.poster i) ↔ owner = some (.poster i)) :
    Mutex { s with owner := owner, worker := pc } :=
  ⟨hpc, fun i => (h.poster i).trans (hother i)⟩

/-- A move inside the critical section. -/
theorem Mutex.within {s s' : LogicState} (h : Mutex s) (hw : s.worker.holds = true)
    (hw' : s'.worker.holds = true) (howner : s'.owner = s.owner)
    (hposters : s'.posters = s.posters) : Mutex s' :=
  ⟨by rw [howner]; exact ⟨fun _ => h.worker.mp hw, fun _ => hw'⟩,
    fun i => by rw [howner, hposters]; exact h.poster i⟩

theorem popFront_within {s : LogicState} {pc : WorkerPc} (h : Mutex s)
    (hw : s.worker.holds = true) (hpc : pc.holds = true) : Mutex (s.popFront pc) := by
  cases hque : s.msgQue with
  | nil =>
      rw [LogicState.popFront, hque]
      exact h.within hw hw rfl rfl
  | cons msg rest =>
      rw [popFront_cons hque]
      exact h.within hw hpc rfl rfl

theorem workerStep_mutex {s s' : LogicState} (h : Mutex s)
    (hstep : workerStep s = some s') : Mutex s' := by
  cases workerStep_inv hstep with
  | take hfrom hfree => exact h.move (by simp [WorkerPc.holds]) fun i => by rw [hfree]; simp
  | wait hfrom | decide hfrom | drain hfrom | dispatch hfrom =>
      exact h.within (by rw [hfrom]; rfl) rfl rfl rfl
  | block hfrom =>
      have howner : s.owner = some .worker := h.worker.mp (by rw [hfrom]; rfl)
      exact h.move (by simp [WorkerPc.holds]) fun i => by rw [howner]; simp
  | overrun hfrom => exact h.within (by rw [hfrom]; rfl) rfl rfl rfl
  | drop hfrom =>
      rcases hfrom with ⟨hw, rfl⟩ | ⟨hw, rfl⟩ <;> exact popFront_within h (by rw [hw]; rfl) rfl
  | call hfrom =>
      rcases hfrom with ⟨hw, rfl⟩ | ⟨hw, rfl⟩ <;> exact h.within (by rw [hw]; rfl) rfl rfl rfl
  | pop hfrom =>
      rcases hfrom with ⟨hw, rfl⟩ | ⟨hw, rfl⟩ <;> exact popFront_within h (by rw [hw]; rfl) rfl
  | release hfrom =>
      have howner : s.owner = some .worker := h.worker.mp (by
        rcases hfrom with ⟨hw, -⟩ | ⟨hw, -⟩ <;> rw [hw] <;> rfl)
      refine h.move ?_ fun i => by rw [howner]; simp
      rcases hfrom with ⟨-, rfl⟩ | ⟨-, rfl⟩ <;> simp [WorkerPc.holds]

/-! ## Runs -/

theorem destructorStep_inv {s s' : LogicState} (hm : Mutex s) (h : Flow s)
    (hstep : destructorStep s = some s') : Mutex s' ∧ Flow s' := by
  rw [destructorStep] at hstep
  cases hd : s.destructor with
  | running =>
      simp only [hd] at hstep
      cases hstep
      exact ⟨⟨hm.worker, hm.poster⟩, h.faultless, h.conserved, h.dispatched, h.waiting,
        fun _ _ => rfl, h.loaded, h.awake⟩
  | notify =>
      simp only [hd] at hstep
      cases hstep
      have hm' := hm.notifyOne
      have h' := h.notifyOne
      exact ⟨⟨hm'.worker, hm'.poster⟩, h'.faultless, h'.conserved, h'.dispatched, h'.waiting,
        h'.decided, h'.loaded, h'.awake⟩
  | join =>
      simp only [hd] at hstep
      split at hstep
      · cases hstep
        exact ⟨⟨hm.worker, hm.poster⟩, h.faultless, h.conserved, h.dispatched, h.waiting,
          h.decided, h.loaded, h.awake⟩
      · cases hstep
  | joined => simp only [hd] at hstep; cases hstep

theorem logicStep_inv {s s' : LogicState} {a : LogicAction} (h : Mutex s ∧ Flow s)
    (hstep : logicStep s a = some s') : Mutex s' ∧ Flow s' := by
  obtain ⟨hm, h⟩ := h
  cases a with
  | post i msg =>
      have hposter := hm.poster i
      rw [logicStep] at hstep
      split at hstep
      · next hpc =>
          cases hstep
          rw [hpc] at hposter
          exact ⟨hm.setPoster hposter fun _ _ => Iff.rfl,
            h.setPoster (by rw [hpc]; exact fun ho => by cases ho)⟩
      · cases hstep
  | poster i => exact ⟨posterStep_mutex hm hstep, posterStep_flow hm h hstep⟩
  | worker => exact ⟨workerStep_mutex hm hstep, workerStep_flow h hstep⟩
  | spuriousWakeUp =>
      rw [logicStep] at hstep
      split at hstep
      · next hb =>
          cases hstep
          have hout : s.worker.holds = false := by rw [hb]; rfl
          refine ⟨hm.move (by rw [← hm.worker, hout]; rfl) fun _ => Iff.rfl,
            h.move (by rw [hb]; rfl) (by simp)⟩
      · cases hstep
  | destructor => exact destructorStep_inv hm h hstep

theorem exec_inv {actions : List LogicAction} {s : LogicState}
    (hrun : Machine.exec logicStep LogicState.start actions = some s) :
    Mutex s ∧ Flow s :=
  Machine.exec_invariant (fun _ _ _ h hstep => logicStep_inv h hstep)
    ⟨start_mutex, start_flow⟩ hrun

/-- What every interleaving keeps: the messages taken are the first of those
pushed, their callbacks were called in that order and once each, and as long as
the worker sleeps on a message somebody has still to notify it. -/
theorem logicQueue_in_order (actions : List LogicAction) (s : LogicState)
    (hrun : Machine.exec logicStep LogicState.start actions = some s) :
    s.fault = none ∧ s.taken <+: s.pushed ∧ s.pushed = s.popped ++ s.msgQue ∧
      s.calls = dispatch s.taken ∧
      ¬ (s.bStop = false ∧ s.msgQue ≠ [] ∧ s.worker = .blocked ∧
        ∀ i, (s.posters i).owes = false) := by
  obtain ⟨-, h⟩ := exec_inv hrun
  refine ⟨h.faultless, ?_, h.conserved, h.dispatched, ?_⟩
  · rw [LogicState.taken, h.conserved]
    refine (List.prefix_append_right_inj s.popped).mpr ?_
    split
    · cases s.msgQue with
      | nil => exact List.prefix_rfl
      | cons msg rest => exact ⟨rest, rfl⟩
    · exact List.nil_prefix
  · rintro ⟨-, hque, hblocked, hnone⟩
    obtain ⟨i, hi⟩ := h.awake hblocked hque
    rw [hnone i] at hi
    cases hi

/-- The worker blocks, a message is pushed, and the notification wakes it. -/
theorem logicQueue_in_order_wakeUp :
    ∃ s, Machine.exec logicStep LogicState.start
        [.worker, .worker, .worker, .post 0 (emptyNode .first msgHelloWord), .poster 0, .poster 0,
          .poster 0, .poster 0, .worker, .worker, .worker, .worker] = some s ∧
      s.taken = [emptyNode .first msgHelloWord] ∧
      s.taken <+: s.pushed ∧ s.calls = dispatch s.taken := by
  obtain ⟨s, hrun, htaken⟩ : ∃ s, Machine.exec logicStep LogicState.start
      [.worker, .worker, .worker, .post 0 (emptyNode .first msgHelloWord), .poster 0, .poster 0,
        .poster 0, .poster 0, .worker, .worker, .worker, .worker] = some s ∧
      s.taken = [emptyNode .first msgHelloWord] := ⟨_, rfl, rfl⟩
  have h := logicQueue_in_order _ s hrun
  exact ⟨s, hrun, htaken, h.2.1, h.2.2.2.1⟩

end AsioServer
