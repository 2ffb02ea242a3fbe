import Mathlib.Data.List.Induction
import Mathlib.Logic.Function.Basic
import AsioServer.Lib.Machine

/-!
# Exclusive accounts

What a login service is for: an account is registered once, under an id and
with credentials; it is taken by one owner at a time, who shows its
credentials; and it is given back by a logout. `step` accepts an event if the
service may report it, so the histories of a correct service are those `step`
can run through.

Three facts about any such history: an account taken twice was given back in
between (`exclusive`), it is owned exactly if the last event about it took it
(`owner_iff_last`), and whoever took it showed the credentials of its one
registration (`authenticated`).
-/

namespace Accounts

variable {ι κ σ : Type*}

structure Account (κ σ : Type*) where
  credentials : κ
  owner : Option σ

inductive Event (ι κ σ : Type*) where
  | registered (id : ι) (c : κ)
  | loggedIn (id : ι) (owner : σ) (c : κ)
  | loggedOut (id : ι)

/-- The account an event is about. -/
def Event.account : Event ι κ σ → ι
  | .registered id _ | .loggedIn id _ _ | .loggedOut id => id

variable [DecidableEq ι] [DecidableEq κ]

def step (accounts : ι → Option (Account κ σ)) :
    Event ι κ σ → Option (ι → Option (Account κ σ))
  | .registered id c =>
      match accounts id with
      | none => some (Function.update accounts id (some ⟨c, none⟩))
      | some _ => none
  | .loggedIn id owner c =>
      match accounts id with
      | some ⟨c', none⟩ =>
          if c = c' then some (Function.update accounts id (some ⟨c', some owner⟩)) else none
      | _ => none
  | .loggedOut id =>
      some (Function.update accounts id ((accounts id).map fun a => { a with owner := none }))

/-- No account yet. -/
def start : ι → Option (Account κ σ) := fun _ => none

/-- The last event about an account. -/
def last (id : ι) (events : List (Event ι κ σ)) : Option (Event ι κ σ) :=
  events.reverse.find? fun e => e.account = id

omit [DecidableEq κ] in
theorem last_snoc (id : ι) (events : List (Event ι κ σ)) (e : Event ι κ σ) :
    last id (events ++ [e]) = if e.account = id then some e else last id events := by
  rw [last, List.reverse_append, List.reverse_singleton, List.singleton_append, List.find?_cons]
  split <;> simp_all [last]

variable {accounts accounts' : ι → Option (Account κ σ)} {events : List (Event ι κ σ)}
  {e : Event ι κ σ} {id : ι}

theorem step_registered {c : κ} (fresh : accounts id = none) :
    step accounts (.registered id c) =
      some (Function.update accounts id (some ⟨c, none⟩)) := by
  rw [step, fresh]

theorem step_loggedIn {owner : σ} {c : κ} (free : accounts id = some ⟨c, none⟩) :
    step accounts (.loggedIn id owner c) =
      some (Function.update accounts id (some ⟨c, some owner⟩)) := by
  simp only [step, free, if_pos]

/-- What an accepted event makes of an account, and what it needed. -/
inductive Change (accounts : ι → Option (Account κ σ)) (id : ι) :
    Event ι κ σ → Option (Account κ σ) → Prop where
  | other {e : Event ι κ σ} (other : e.account ≠ id) : Change accounts id e (accounts id)
  | registered {c : κ} (fresh : accounts id = none) :
      Change accounts id (.registered id c) (some ⟨c, none⟩)
  | loggedIn {owner : σ} {c : κ} (free : accounts id = some ⟨c, none⟩) :
      Change accounts id (.loggedIn id owner c) (some ⟨c, some owner⟩)
  | loggedOut : Change accounts id (.loggedOut id)
      ((accounts id).map fun a => { a with owner := none })

theorem step_change (h : step accounts e = some accounts') (id : ι) :
    Change accounts id e (accounts' id) := by
  by_cases he : e.account = id
  · subst he
    cases e with
    | registered id c =>
        rw [step] at h
        split at h
        · next hnone =>
            cases h
            rw [Event.account, Function.update_self]
            exact .registered hnone
        · cases h
    | loggedIn id owner c =>
        rw [step] at h
        split at h
        · next c' hsome =>
            split at h
            · next hc =>
                cases h
                subst hc
                rw [Event.account, Function.update_self]
                exact .loggedIn hsome
            · cases h
        · cases h
    | loggedOut id =>
        cases h
        rw [Event.account, Function.update_self]
        exact .loggedOut
  · have hkept : accounts' id = accounts id := by
      have hne : id ≠ e.account := fun heq => he heq.symm
      cases e with
      | registered id' c =>
          rw [step] at h
          split at h
          · cases h; exact Function.update_of_ne hne _ _
          · cases h
      | loggedIn id' owner c =>
          rw [step] at h
          split at h
          · split at h
            · cases h; exact Function.update_of_ne hne _ _
            · cases h
          · cases h
      | loggedOut id' => cases h; exact Function.update_of_ne hne _ _
    rw [hkept]
    exact .other he

/-! ## Histories -/

/-- An account that is owned stays so until it is given back. -/
theorem owner_kept {owner : σ} {c : κ} :
    ∀ {events : List (Event ι κ σ)} {accounts : ι → Option (Account κ σ)},
      Machine.exec step accounts events = some accounts' →
      accounts id = some ⟨c, some owner⟩ → Event.loggedOut id ∉ events →
      accounts' id = some ⟨c, some owner⟩ := by
  intro events
  induction events with
  | nil => intro accounts h howned _; cases h; exact howned
  | cons e events ih =>
      intro accounts h howned hout
      obtain ⟨next, hstep, h⟩ := Machine.exec_cons.mp h
      refine ih h ?_ fun hmem => hout (List.mem_cons_of_mem e hmem)
      have hchange := step_change hstep id
      generalize next id = now at hchange
      cases hchange with
      | other => exact howned
      | registered fresh => rw [howned] at fresh; cases fresh
      | loggedIn free => rw [howned] at free; cases free
      | loggedOut => exact absurd List.mem_cons_self hout

/-- Between two logins to an account it is given back. -/
theorem exclusive {start : ι → Option (Account κ σ)} {before between after : List (Event ι κ σ)}
    {owner owner' : σ} {c c' : κ}
    (h : Machine.exec step start (before ++ .loggedIn id owner c ::
      (between ++ .loggedIn id owner' c' :: after)) = some accounts) :
    Event.loggedOut id ∈ between := by
  by_contra hout
  obtain ⟨s₁, -, h⟩ := Machine.exec_append.mp h
  obtain ⟨s₂, hlogin, h⟩ := Machine.exec_cons.mp h
  obtain ⟨s₃, hbetween, h⟩ := Machine.exec_append.mp h
  obtain ⟨s₄, hagain, -⟩ := Machine.exec_cons.mp h
  have howned : s₂ id = some ⟨c, some owner⟩ := by
    have hchange := step_change hlogin id
    generalize s₂ id = now at hchange
    cases hchange with
    | other other => exact absurd rfl other
    | loggedIn free => rfl
  have hstill := owner_kept hbetween howned hout
  have hchange := step_change hagain id
  generalize s₄ id = now at hchange
  cases hchange with
  | other other => exact absurd rfl other
  | loggedIn free => rw [hstill] at free; cases free

/-- The owner of an account, and the last event about it. -/
theorem owner_iff_last (h : Machine.exec step start events = some accounts) (id : ι) :
    ∀ a, accounts id = some a →
      ∀ owner, a.owner = some owner ↔ ∃ c, last id events = some (.loggedIn id owner c) := by
  induction events using List.reverseRecOn generalizing accounts with
  | nil => cases h; intro a ha; cases ha
  | append_singleton events e ih =>
      obtain ⟨before, hbefore, hstep⟩ := Machine.exec_snoc.mp h
      have hold := ih hbefore
      have hchange := step_change hstep id
      generalize accounts id = now at hchange
      intro a ha owner
      rw [last_snoc]
      cases hchange with
      | other other => rw [if_neg other]; exact hold a ha owner
      | registered fresh => cases ha; simp [Event.account]
      | loggedIn free => cases ha; simp [Event.account]
      | loggedOut =>
          obtain ⟨b, hb, rfl⟩ := Option.map_eq_some_iff.mp ha
          simp [Event.account]

/-- Who holds an account after a history: the owner of the last login, if nothing else
has happened to it since. -/
def holder (id : ι) (events : List (Event ι κ σ)) : Option σ :=
  match last id events with
  | some (.loggedIn _ owner _) => some owner
  | _ => none

theorem holder_eq (h : Machine.exec step start events = some accounts) (id : ι) :
    holder id events = (accounts id).bind Account.owner := by
  induction events using List.reverseRecOn generalizing accounts with
  | nil => cases h; rfl
  | append_singleton events e ih =>
      obtain ⟨before, hbefore, hstep⟩ := Machine.exec_snoc.mp h
      have hchange := step_change hstep id
      generalize accounts id = now at hchange
      cases hchange with
      | other other =>
          have hold := ih hbefore
          rwa [holder, last_snoc, if_neg other]
      | registered fresh => simp [holder, last_snoc, Event.account]
      | loggedIn free => simp [holder, last_snoc, Event.account]
      | loggedOut => cases hold : before id <;> simp [holder, last_snoc, Event.account]

/-- An account is there if it was registered, with these credentials and no
others. -/
theorem registered_iff (h : Machine.exec step start events = some accounts) (id : ι) (c : κ) :
    Event.registered id c ∈ events ↔ ∃ a, accounts id = some a ∧ a.credentials = c := by
  induction events using List.reverseRecOn generalizing accounts with
  | nil => cases h; simp [start]
  | append_singleton events e ih =>
      obtain ⟨before, hbefore, hstep⟩ := Machine.exec_snoc.mp h
      have hold := ih hbefore
      have hchange := step_change hstep id
      rw [List.mem_append, List.mem_singleton, hold]
      generalize accounts id = now at hchange
      cases hchange with
      | other other =>
          refine or_iff_left fun heq => other ?_
          rw [← heq]
          rfl
      | registered fresh => simp [fresh, eq_comm]
      | loggedIn free => simp [free]
      | loggedOut => cases before id <;> simp

/-- Whoever logged in showed the credentials of the one registration. -/
theorem authenticated {before after : List (Event ι κ σ)} {owner : σ} {c : κ}
    (h : Machine.exec step start (before ++ .loggedIn id owner c :: after) = some accounts) :
    Event.registered id c ∈ before ∧
      ∀ c', Event.registered id c' ∈ before ++ .loggedIn id owner c :: after → c' = c := by
  obtain ⟨s₁, hbefore, hrest⟩ := Machine.exec_append.mp h
  obtain ⟨s₂, hlogin, -⟩ := Machine.exec_cons.mp hrest
  have hmem : Event.registered id c ∈ before := by
    have hchange := step_change hlogin id
    generalize s₂ id = now at hchange
    rw [registered_iff hbefore]
    cases hchange with
    | other other => exact absurd rfl other
    | loggedIn free => exact ⟨_, free, rfl⟩
  refine ⟨hmem, fun c' hc' => ?_⟩
  obtain ⟨a, ha, hac⟩ := (registered_iff h id c').mp hc'
  obtain ⟨b, hb, hbc⟩ := (registered_iff h id c).mp (List.mem_append_left _ hmem)
  obtain rfl := Option.some.inj (ha.symm.trans hb)
  exact hac.symm.trans hbc

end Accounts
