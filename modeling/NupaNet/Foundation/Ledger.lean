import NupaNet.Foundation.Run

/-!
# Resources held by a sequence of events

A straight-line owner acquires, releases and uses resources; `Event.perform`
fails on a release or a use of what is not held and on a second acquisition.
Beside the owner run users: each is active while one resource is held and may
then touch others at any moment.  `sound` checks the events once, in order;
`faultless_iff_sound` says that this check decides every interleaving.
-/

namespace NupaNet.Foundation

variable {ρ : Type*} [DecidableEq ρ]

inductive Event (ρ : Type*) where
  | acquire (r : ρ)
  | release (r : ρ)
  | use (r : ρ)
  deriving DecidableEq, Repr

structure User (ρ : Type*) where
  alive : ρ
  uses : List ρ

def Event.perform (held : List ρ) : Event ρ → Option (List ρ)
  | .acquire r => if r ∈ held then none else some (r :: held)
  | .release r => if r ∈ held then some (held.erase r) else none
  | .use r => if r ∈ held then some held else none

def performAll : List (Event ρ) → List ρ → Option (List ρ)
  | [], held => some held
  | e :: rest, held => (e.perform held).bind (performAll rest)

def User.fine (held : List ρ) (u : User ρ) : Bool :=
  decide (u.alive ∈ held → ∀ r ∈ u.uses, r ∈ held)

def sound (users : List (User ρ)) : List (Event ρ) → List ρ → Bool
  | [], held => users.all (User.fine held)
  | e :: rest, held => users.all (User.fine held) && match e.perform held with
    | none => false
    | some held' => sound users rest held'

/-! ## What a sequence of events leaves -/

/-- From `held` the events go through, and leave `rest`, in some order. -/
def Leaves (events : List (Event ρ)) (held rest : List ρ) : Prop :=
  ∃ out, performAll events held = some out ∧ out.Perm rest

private theorem Event.perform_perm {e : Event ρ} {held held' out : List ρ} (h : held.Perm held')
    (hout : e.perform held = some out) : ∃ out', e.perform held' = some out' ∧ out.Perm out' := by
  cases e with
  | acquire r =>
      simp only [perform] at hout ⊢
      split at hout
      · cases hout
      · next hfresh =>
          cases hout
          rw [if_neg (by rwa [← h.mem_iff])]
          exact ⟨_, rfl, h.cons r⟩
  | release r =>
      simp only [perform] at hout ⊢
      split at hout
      · next hheld =>
          cases hout
          rw [if_pos (h.mem_iff.mp hheld)]
          exact ⟨_, rfl, h.erase r⟩
      · cases hout
  | use r =>
      simp only [perform] at hout ⊢
      split at hout
      · next hheld =>
          cases hout
          rw [if_pos (h.mem_iff.mp hheld)]
          exact ⟨_, rfl, h⟩
      · cases hout

private theorem performAll_perm {events : List (Event ρ)} {held held' out : List ρ}
    (h : held.Perm held')
    (hout : performAll events held = some out) :
    ∃ out', performAll events held' = some out' ∧ out.Perm out' := by
  induction events generalizing held held' with
  | nil =>
      cases hout
      exact ⟨held', rfl, h⟩
  | cons e rest ih =>
      obtain ⟨mid, hmid, hrest⟩ := Option.bind_eq_some_iff.mp hout
      obtain ⟨mid', hmid', hperm⟩ := Event.perform_perm h hmid
      obtain ⟨out', hout', hperm'⟩ := ih hperm hrest
      exact ⟨out', by simp [performAll, hmid', hout'], hperm'⟩

theorem performAll_append (events more : List (Event ρ)) (held : List ρ) :
    performAll (events ++ more) held = (performAll events held).bind (performAll more) := by
  induction events generalizing held with
  | nil => rfl
  | cons e rest ih =>
      simp only [List.cons_append, performAll, Option.bind_assoc]
      congr 1
      funext mid
      exact ih mid

namespace Leaves

variable {events more : List (Event ρ)} {held held' mid rest rest' : List ρ}

theorem nil (held : List ρ) : Leaves [] held held := ⟨held, rfl, .refl _⟩

theorem perm (h : Leaves events held rest) (hheld : held.Perm held') (hrest : rest.Perm rest') :
    Leaves events held' rest' := by
  obtain ⟨out, hout, hperm⟩ := h
  obtain ⟨out', hout', hperm'⟩ := performAll_perm hheld hout
  exact ⟨out', hout', hperm'.symm.trans (hperm.trans hrest)⟩

theorem append (h : Leaves events held mid) (hmore : Leaves more mid rest) :
    Leaves (events ++ more) held rest := by
  obtain ⟨out, hout, hperm⟩ := h
  obtain ⟨out', hout', hperm'⟩ := hmore.perm hperm.symm (.refl rest)
  exact ⟨out', by rw [performAll_append, hout, Option.bind_some, hout'], hperm'⟩

theorem acquire {r : ρ} (h : r ∉ held) : Leaves [.acquire r] held (r :: held) :=
  ⟨r :: held, by simp [performAll, Event.perform, h], .refl _⟩

theorem release (r : ρ) (rest : List ρ) : Leaves [.release r] (r :: rest) rest :=
  ⟨rest, by simp [performAll, Event.perform], .refl _⟩

theorem use {r : ρ} (h : r ∈ held) : Leaves [.use r] held held :=
  ⟨held, by simp [performAll, Event.perform, h], .refl _⟩

theorem acquireAll {rs : List ρ} (hnodup : rs.Nodup) (hfresh : ∀ r ∈ rs, r ∉ held) :
    Leaves (rs.map .acquire) held (rs ++ held) := by
  induction rs generalizing held with
  | nil => exact nil held
  | cons r rs ih =>
      obtain ⟨hnew, hnodup⟩ := List.nodup_cons.mp hnodup
      have hrest : ∀ r' ∈ rs, r' ∉ r :: held := by
        intro r' hmem hin
        rcases List.mem_cons.mp hin with rfl | hin
        · exact hnew hmem
        · exact hfresh r' (List.mem_cons_of_mem r hmem) hin
      have hfirst : Leaves [.acquire r] held (r :: held) :=
        acquire (hfresh r List.mem_cons_self)
      exact (hfirst.append (ih hnodup hrest)).perm (.refl _) List.perm_middle

theorem releaseAll (rs rest : List ρ) : Leaves (rs.map .release) (rs ++ rest) rest := by
  induction rs with
  | nil => exact nil rest
  | cons r rs ih => exact (release r (rs ++ rest)).append ih

end Leaves

/-! ## Several owners -/

section Owners

variable {ι : Type*} [DecidableEq ι]

def Event.subject : Event ρ → ρ
  | .acquire r | .release r | .use r => r

def eventsOf (owner : ρ → ι) (i : ι) (events : List (Event ρ)) : List (Event ρ) :=
  events.filter fun e => owner e.subject = i

def heldBy (owner : ρ → ι) (i : ι) (held : List ρ) : List ρ := held.filter fun r => owner r = i

variable {owner : ρ → ι} {e : Event ρ} {events : List (Event ρ)} {held mid : List ρ} {i : ι}

omit [DecidableEq ρ] in
theorem mem_heldBy_self {r : ρ} : r ∈ heldBy owner (owner r) held ↔ r ∈ held := by
  simp [heldBy]

/-- An event needs and changes only what its owner holds. -/
theorem Event.perform_heldBy (owner : ρ → ι) (e : Event ρ) (held : List ρ) :
    e.perform (heldBy owner (owner e.subject) held) =
      (e.perform held).map (heldBy owner (owner e.subject)) := by
  cases e with
  | acquire r =>
      simp only [perform, subject, mem_heldBy_self]
      split
      · rfl
      · simp [heldBy]
  | release r =>
      simp only [perform, subject, mem_heldBy_self]
      split
      · simp only [heldBy, List.erase_filter, Option.map_some]
      · rfl
  | use r =>
      simp only [perform, subject, mem_heldBy_self]
      split <;> rfl

private theorem Event.perform_others (h : e.perform held = some mid)
    (hother : owner e.subject ≠ i) :
    heldBy owner i mid = heldBy owner i held := by
  cases e with
  | acquire r =>
      simp only [perform, subject] at h hother
      split at h
      · cases h
      · cases h
        exact List.filter_cons_of_neg (by simpa using hother)
  | release r =>
      simp only [perform, subject] at h hother
      split at h
      · cases h
        rw [heldBy, ← List.erase_filter]
        exact List.erase_of_not_mem (by simpa using fun _ => hother)
      · cases h
  | use r =>
      simp only [perform] at h
      split at h <;> cases h
      rfl

private theorem performAll_eventsOf_cons (h : e.perform held = some mid) (rest : List (Event ρ))
    (i : ι) :
    performAll (eventsOf owner i (e :: rest)) (heldBy owner i held) =
      performAll (eventsOf owner i rest) (heldBy owner i mid) := by
  by_cases hown : owner e.subject = i
  · have hfirst := e.perform_heldBy owner held
    rw [hown, h, Option.map_some] at hfirst
    rw [eventsOf, List.filter_cons_of_pos (by simpa using hown), performAll, hfirst]
    rfl
  · rw [eventsOf, List.filter_cons_of_neg (by simpa using hown), Event.perform_others h hown]
    rfl

/-- An interleaving goes wrong exactly when the events of some owner do so by themselves. -/
theorem performAll_none_iff (owner : ρ → ι) :
    performAll events held = none ↔
      ∃ i, performAll (eventsOf owner i events) (heldBy owner i held) = none := by
  induction events generalizing held with
  | nil => simp [performAll, eventsOf]
  | cons e rest ih =>
      cases hfirst : e.perform held with
      | none =>
          refine ⟨fun _ => ⟨owner e.subject, ?_⟩, fun _ => by simp [performAll, hfirst]⟩
          have hown := e.perform_heldBy owner held
          rw [hfirst, Option.map_none] at hown
          rw [eventsOf, List.filter_cons_of_pos (by simp), performAll, hown, Option.bind_none]
      | some mid =>
          rw [performAll, hfirst, Option.bind_some, ih]
          exact exists_congr fun i => by rw [performAll_eventsOf_cons hfirst]

theorem performAll_eventsOf {out : List ρ} (h : performAll events held = some out) (i : ι) :
    performAll (eventsOf owner i events) (heldBy owner i held) = some (heldBy owner i out) := by
  induction events generalizing held with
  | nil =>
      cases h
      rfl
  | cons e rest ih =>
      obtain ⟨mid, hmid, hrest⟩ := Option.bind_eq_some_iff.mp h
      rw [performAll_eventsOf_cons hmid]
      exact ih hrest

private theorem Event.perform_nodup {held' : List ρ} (h : e.perform held = some held')
    (distinct : held.Nodup) : held'.Nodup := by
  cases e with
  | acquire r =>
      simp only [perform] at h
      split at h
      · cases h
      · next hfresh =>
          cases h
          exact List.nodup_cons.mpr ⟨hfresh, distinct⟩
  | release r =>
      simp only [perform] at h
      split at h
      · cases h
        exact distinct.erase r
      · cases h
  | use r =>
      simp only [perform] at h
      split at h <;> cases h
      exact distinct

theorem performAll_nodup {out : List ρ} (h : performAll events held = some out)
    (distinct : held.Nodup) : out.Nodup := by
  induction events generalizing held with
  | nil =>
      cases h
      exact distinct
  | cons e rest ih =>
      obtain ⟨mid, hmid, hrest⟩ := Option.bind_eq_some_iff.mp h
      exact ih hrest (Event.perform_nodup hmid distinct)

end Owners

/-! ## The owner and the users together -/

structure Ledger (ρ : Type*) where
  pending : List (Event ρ)
  held : List ρ
  fault : Bool

inductive Turn where
  | owner
  | user (i : Nat)
  deriving DecidableEq, Repr

namespace Ledger

def start (events : List (Event ρ)) (held : List ρ) : Ledger ρ := ⟨events, held, false⟩

def step (users : List (User ρ)) (s : Ledger ρ) : Turn → Option (Ledger ρ)
  | .owner =>
      match s.pending with
      | [] => none
      | e :: rest =>
          match e.perform s.held with
          | none => some { s with pending := rest, fault := true }
          | some held => some { s with pending := rest, held := held }
  | .user i =>
      match users[i]? with
      | none => none
      | some u =>
          if u.alive ∈ s.held then some { s with fault := s.fault || !u.fine s.held } else none

variable {users : List (User ρ)} {events : List (Event ρ)} {held : List ρ}

private theorem step_sound {s t : Ledger ρ} {turn : Turn}
    (h : s.fault = false ∧ sound users s.pending s.held = true ∧
      performAll s.pending s.held = performAll events held)
    (hs : step users s turn = some t) :
    t.fault = false ∧ sound users t.pending t.held = true ∧
      performAll t.pending t.held = performAll events held := by
  obtain ⟨hfault, hsound, hall⟩ := h
  cases turn with
  | owner =>
      simp only [step] at hs
      split at hs
      · cases hs
      · next e rest hpending =>
          rw [hpending] at hsound hall
          simp only [sound, Bool.and_eq_true] at hsound
          cases hperform : e.perform s.held with
          | none => simp [hperform] at hsound
          | some held' =>
              simp only [hperform] at hs hsound
              simp only [performAll, hperform, Option.bind_some] at hall
              cases hs
              exact ⟨hfault, hsound.2, hall⟩
  | user i =>
      simp only [step] at hs
      split at hs
      · cases hs
      · next u hu =>
          split at hs
          · cases hs
            have husers : users.all (User.fine s.held) = true := by
              cases hpending : s.pending <;> simp_all [sound]
            have hfine := List.all_eq_true.mp husers u (List.mem_of_getElem? hu)
            exact ⟨by simp [hfault, hfine], hsound, hall⟩
          · cases hs

private theorem user_faults (events : List (Event ρ)) (h : users.all (User.fine held) = false) :
    ∃ turn t, step users (start events held) turn = some t ∧ t.fault = true := by
  obtain ⟨u, hu, hbad⟩ := List.all_eq_false.mp h
  obtain ⟨i, hi⟩ := List.mem_iff_getElem?.mp hu
  have hnot : u.fine held = false := Bool.eq_false_iff.mpr hbad
  have halive : u.alive ∈ held := by
    by_contra habsent
    exact hbad (decide_eq_true fun hmem => absurd hmem habsent)
  exact ⟨.user i, ⟨events, held, true⟩, by simp [step, start, hi, halive, hnot], rfl⟩

private theorem faults_of_not_sound (h : sound users events held = false) :
    ∃ turns t, Runs (step users) Any (start events held) turns t ∧ t.fault = true := by
  induction events generalizing held with
  | nil =>
      obtain ⟨turn, t, hstep, hfault⟩ := user_faults [] h
      exact ⟨[turn], t, .next trivial hstep (.refl t), hfault⟩
  | cons e rest ih =>
      simp only [sound, Bool.and_eq_false_iff] at h
      rcases h with hbad | h
      · obtain ⟨turn, t, hstep, hfault⟩ := user_faults (e :: rest) hbad
        exact ⟨[turn], t, .next trivial hstep (.refl t), hfault⟩
      · cases hperform : e.perform held with
        | none =>
            refine ⟨[.owner], ⟨rest, held, true⟩, .next trivial ?_ (.refl _), rfl⟩
            simp [step, start, hperform]
        | some held' =>
            simp only [hperform] at h
            obtain ⟨turns, t, hrun, hfault⟩ := ih h
            refine ⟨.owner :: turns, t, .next trivial ?_ hrun, hfault⟩
            simp [step, start, hperform]

theorem faultless_iff_sound :
    (∀ turns t, Runs (step users) Any (start events held) turns t → t.fault = false) ↔
      sound users events held = true := by
  constructor
  · intro hall
    by_contra hbad
    obtain ⟨turns, t, hrun, hfault⟩ := faults_of_not_sound (Bool.eq_false_iff.mpr hbad)
    rw [hall turns t hrun] at hfault
    cases hfault
  · intro hsound turns t hrun
    exact (hrun.invariant (fun h _ hs => step_sound h hs) ⟨rfl, hsound, rfl⟩).1

/-- Where the events are sound, a run that is through with them holds what they leave. -/
theorem held_of_sound (h : sound users events held = true) {turns : List Turn} {t : Ledger ρ}
    (run : Runs (step users) Any (start events held) turns t) (hdone : t.pending = []) :
    performAll events held = some t.held := by
  have hinv := (run.invariant (fun h _ hs => step_sound h hs) ⟨rfl, h, rfl⟩).2.2
  rw [hdone] at hinv
  exact hinv.symm

theorem completes (h : sound users events held = true) :
    ∃ turns t, Runs (step users) Any (start events held) turns t ∧ t.pending = [] := by
  induction events generalizing held with
  | nil => exact ⟨[], _, .refl _, rfl⟩
  | cons e rest ih =>
      simp only [sound, Bool.and_eq_true] at h
      cases hperform : e.perform held with
      | none => simp [hperform] at h
      | some held' =>
          simp only [hperform] at h
          obtain ⟨turns, t, hrun, hdone⟩ := ih h.2
          refine ⟨.owner :: turns, t, .next trivial ?_ hrun, hdone⟩
          simp [step, start, hperform]

end Ledger

end NupaNet.Foundation
