import NupaNet.Foundation.Run
import NupaNet.Ring.Receiver

/-!
# The NAPI contract of `nupanet_poll`

The loop of `nupanet_poll` sees the ring only through its attempts: what
`nupa_data_available` and `xdma_receive_data` return in one round.  `nupanetPoll`
is the function of those attempts; every run of the receive thread, over a
shared memory that changes arbitrarily between its steps, computes it.
-/

namespace NupaNet.Ring

open NupaNet.Foundation

/-- One round of the loop: no packet is ready, no buffer for the payload, no `sk_buff` for it
(`skb_put_data` then dereferences NULL), or a frame passed up. -/
inductive Attempt where
  | empty
  | noBuffer
  | noSkb
  | frame
  deriving DecidableEq, Repr

/-! ## The call as a function -/

/-- The attempts end while the descriptor at the tail stays `PACKET_FREEZING`: the call spins and
has no result. -/
def pollLoop (budget : Int) : List Attempt → Nat → Option Nat
  | [], _ => none
  | .empty :: _, workDone => some workDone
  | .noBuffer :: _, workDone => some workDone
  | .noSkb :: _, _ => none
  | .frame :: rest, workDone =>
      if budget < (workDone + 1 : Nat) then some (workDone + 1)
      else pollLoop budget rest (workDone + 1)

def pollFinish (budget : Int) (workDone : Nat) : PollReturn :=
  if (workDone : Int) = budget then ⟨budget, false, workDone⟩ else ⟨workDone, true, workDone⟩

def nupanetPoll (holdIcCtl : Bool) (budget : Int) (attempts : List Attempt) : Option PollReturn :=
  if holdIcCtl then some ⟨0, false, 0⟩
  else (pollLoop budget attempts 0).map (pollFinish budget)

/-! ## The thread computes it -/

def pollStep (r : Receiver) (x : Shm × RecvEnv) : Option Receiver :=
  (Receiver.step x.1 x.2 r).map Prod.snd

/-- The attempt that a step of the receive thread brings to its end. -/
def Receiver.attempt (r : Receiver) (x : Shm × RecvEnv) : Option Attempt :=
  match r.pc with
  | .loadTail head => if head = x.1.area.info.tail then some .empty else none
  | .testInit tail => if (x.1.area.desc tail).status = .packetInit then some .empty else none
  | .testReleased tail =>
      if (x.1.area.desc tail).status = .packetReleased then some .empty else none
  | .transfer _ _ _ =>
      if !x.2.bufOk then some .noBuffer else if !x.2.skbOk then some .noSkb else none
  | .groReceive _ _ => some .frame
  | _ => none

def attemptsOf : Receiver → List (Shm × RecvEnv) → List Attempt
  | _, [] => []
  | r, x :: xs => (r.attempt x).toList ++ match pollStep r x with
    | some r' => attemptsOf r' xs
    | none => []

inductive PollMoves (r : Receiver) (x : Shm × RecvEnv) : Receiver → Prop where
  | inside {r' : Receiver} : r.attempt x = none → r'.budget = r.budget →
      r'.workDone = r.workDone → r'.pc ≠ .idle → r'.pc ≠ .oops → PollMoves r x r'
  | give (how : Attempt) : how = .empty ∨ how = .noBuffer → r.attempt x = some how →
      PollMoves r x r.leave
  | crash : r.attempt x = some .noSkb → PollMoves r x (r.goto .oops)
  | full : r.attempt x = some .frame → r.budget < (r.workDone + 1 : Nat) →
      PollMoves r x { r with workDone := r.workDone + 1 }.leave
  | again : r.attempt x = some .frame → ¬ r.budget < (r.workDone + 1 : Nat) →
      PollMoves r x { r with pc := .loadHead, workDone := r.workDone + 1 }

theorem PollMoves.goto {r : Receiver} {x : Shm × RecvEnv} (pc : PollPc)
    (hnone : r.attempt x = none) (hidle : pc ≠ .idle) (hoops : pc ≠ .oops) :
    PollMoves r x (r.goto pc) :=
  .inside hnone rfl rfl hidle hoops

private theorem pollStep_moves {r r' : Receiver} {x : Shm × RecvEnv} (h : pollStep r x = some r') :
    PollMoves r x r' := by
  obtain ⟨⟨m, t⟩, hstep, rfl⟩ := Option.map_eq_some_iff.mp h
  cases Receiver.step_moves hstep with
  | loadHead hpc | unfrozen hpc | settled hpc | unsettled hpc | storeTail hpc | loadTotalLen hpc
  | storeTotalLen hpc | loadOffset hpc | loadLength hpc | storeReleased hpc =>
      exact .goto _ (by simp [Receiver.attempt, hpc]) (by simp) (by simp)
  | spin hpc =>
      exact .inside (by simp [Receiver.attempt, hpc]) rfl rfl (by simp [hpc]) (by simp [hpc])
  | empty hpc hguard | init hpc hguard | released hpc hguard =>
      exact .give .empty (.inl rfl) (by simp [Receiver.attempt, hpc, hguard])
  | loadTail hpc hguard | notInit hpc hguard | changed hpc hguard =>
      exact .goto _ (by simp [Receiver.attempt, hpc, hguard]) (by simp) (by simp)
  | noBuffer hpc hbuf => exact .give .noBuffer (.inr rfl) (by simp [Receiver.attempt, hpc, hbuf])
  | noSkb hpc hbuf hskb => exact .crash (by simp [Receiver.attempt, hpc, hbuf, hskb])
  | transfer hpc hbuf hskb =>
      exact .goto _ (by simp [Receiver.attempt, hpc, hbuf, hskb]) (by simp) (by simp)
  | full hpc hfull => exact .full (by simp [Receiver.attempt, hpc]) hfull
  | again hpc hroom => exact .again (by simp [Receiver.attempt, hpc]) hroom

private theorem exec_stuck {r r' : Receiver} {xs : List (Shm × RecvEnv)}
    (h : r.pc = .idle ∨ r.pc = .oops)
    (hexec : exec pollStep r xs = some r') : r' = r ∧ xs = [] := by
  cases xs with
  | nil => exact ⟨(Option.some.inj hexec).symm, rfl⟩
  | cons x xs => rcases h with h | h <;> simp [exec, pollStep, Receiver.step, h] at hexec

private theorem leave_last (r : Receiver) :
    r.leave.last = some (pollFinish r.budget r.workDone) := by
  simp only [Receiver.leave, pollFinish]
  split <;> rfl

/-- A run of the thread that is inside the loop ends with what the function returns for the
attempts it made, and crashes only where the function has no result. -/
private theorem exec_pollLoop {r r' : Receiver} {xs : List (Shm × RecvEnv)} (hbusy : r.pc ≠ .idle)
    (hlive : r.pc ≠ .oops) (h : exec pollStep r xs = some r') :
    (r'.pc = .idle →
      r'.last = (pollLoop r.budget (attemptsOf r xs) r.workDone).map (pollFinish r.budget)) ∧
    (r'.pc = .oops → pollLoop r.budget (attemptsOf r xs) r.workDone = none) := by
  induction xs generalizing r with
  | nil =>
      obtain rfl := Option.some.inj h
      exact ⟨fun hidle => absurd hidle hbusy, fun hoops => absurd hoops hlive⟩
  | cons x xs ih =>
      obtain ⟨t, hstep, hrest⟩ := Option.bind_eq_some_iff.mp h
      have hattempts : attemptsOf r (x :: xs) = (r.attempt x).toList ++ attemptsOf t xs := by
        simp [attemptsOf, hstep]
      rw [hattempts]
      cases pollStep_moves hstep with
      | inside hnone hbudget hwork hidle hoops =>
          have hthen := ih hidle hoops hrest
          rw [hbudget, hwork] at hthen
          simpa [hnone] using hthen
      | give how hhow hattempt =>
          obtain ⟨rfl, rfl⟩ := exec_stuck (.inl rfl) hrest
          rw [hattempt]
          refine ⟨fun _ => ?_, nofun⟩
          rw [leave_last]
          rcases hhow with rfl | rfl <;> rfl
      | crash hattempt =>
          obtain ⟨rfl, rfl⟩ := exec_stuck (.inr rfl) hrest
          rw [hattempt]
          exact ⟨nofun, fun _ => rfl⟩
      | full hattempt hfull =>
          obtain ⟨rfl, rfl⟩ := exec_stuck (.inl rfl) hrest
          rw [hattempt]
          refine ⟨fun _ => ?_, nofun⟩
          have hloop (rest : List Attempt) : pollLoop r.budget (.frame :: rest) r.workDone =
              some (r.workDone + 1) := if_pos hfull
          simp [leave_last, hloop]
      | again hattempt hroom =>
          have hthen := ih (by simp) (by simp) hrest
          have hloop (rest : List Attempt) : pollLoop r.budget (.frame :: rest) r.workDone =
              pollLoop r.budget rest (r.workDone + 1) := if_neg hroom
          simpa [hattempt, hloop] using hthen

/-- Entered from rest, over memories that change at will, the thread returns what `nupanetPoll`
returns for the attempts it makes. -/
theorem exec_nupanetPoll {r r' : Receiver} {xs : List (Shm × RecvEnv)} (holdIcCtl : Bool)
    (budget : Int) (hrest : r.pc = .idle)
    (h : exec pollStep (r.poll holdIcCtl budget) xs = some r') :
    (r'.pc = .idle → r'.last =
      nupanetPoll holdIcCtl budget (attemptsOf (r.poll holdIcCtl budget) xs)) ∧
    (r'.pc = .oops →
      nupanetPoll holdIcCtl budget (attemptsOf (r.poll holdIcCtl budget) xs) = none) := by
  cases holdIcCtl with
  | true =>
      obtain ⟨rfl, rfl⟩ := exec_stuck (r := r.poll true budget) (.inl hrest) h
      exact ⟨fun _ => rfl, fun hoops => by simp [Receiver.poll, hrest] at hoops⟩
  | false =>
      obtain ⟨hidle, hoops⟩ := exec_pollLoop (r := r.poll false budget) nofun nofun h
      refine ⟨hidle, fun hcrash => ?_⟩
      rw [nupanetPoll, if_neg nofun, Option.map_eq_none_iff]
      exact hoops hcrash

/-! ## The contract -/

structure NapiContract (budget : Int) (ret : PollReturn) : Prop where
  delivered_le : (ret.delivered : Int) ≤ budget
  value_eq : ret.value = ret.delivered
  completed_iff : ret.completed = true ↔ ret.value < budget

def MeetsContract (budget : Int) : Option PollReturn → Prop
  | none => False
  | some ret => NapiContract budget ret

/-- Within the first `budget + 1` attempts one ends the loop, and those before it pass up their
frames. -/
def EndsInBudget (budget : Int) (attempts : List Attempt) : Prop :=
  ∃ k : Nat, (k : Int) ≤ budget ∧ (∀ i < k, attempts[i]? = some .frame) ∧
    (attempts[k]? = some .empty ∨ attempts[k]? = some .noBuffer)

private theorem pollFinish_contract {budget : Int} {workDone : Nat} :
    NapiContract budget (pollFinish budget workDone) ↔ (workDone : Int) ≤ budget := by
  constructor
  · intro h
    have hle := h.delivered_le
    simp only [pollFinish] at hle
    split at hle <;> exact hle
  · intro hle
    simp only [pollFinish]
    split
    · next heq => exact ⟨hle, heq.symm, by simp⟩
    · next hne =>
        refine ⟨hle, rfl, ?_⟩
        have : (workDone : Int) < budget := lt_of_le_of_ne hle hne
        simpa using this

private theorem endsInBudget_frame {budget : Int} {rest : List Attempt} :
    EndsInBudget budget (.frame :: rest) ↔ EndsInBudget (budget - 1) rest := by
  constructor
  · rintro ⟨k, hle, hframes, hend⟩
    cases k with
    | zero => simp at hend
    | succ k =>
        refine ⟨k, by omega, fun i hi => ?_, by simpa using hend⟩
        simpa using hframes (i + 1) (by omega)
  · rintro ⟨k, hle, hframes, hend⟩
    refine ⟨k + 1, by omega, fun i hi => ?_, by simpa using hend⟩
    cases i with
    | zero => rfl
    | succ i => simpa using hframes i (by omega)

private theorem pollLoop_contract {budget : Int} {attempts : List Attempt} {workDone : Nat}
    (hle : (workDone : Int) ≤ budget) :
    MeetsContract budget ((pollLoop budget attempts workDone).map (pollFinish budget)) ↔
      EndsInBudget (budget - workDone) attempts := by
  induction attempts generalizing workDone with
  | nil =>
      constructor
      · exact False.elim
      · rintro ⟨k, -, -, hend⟩
        simp at hend
  | cons first rest ih =>
      cases first with
      | empty | noBuffer =>
          simp only [pollLoop, Option.map_some, MeetsContract, pollFinish_contract]
          exact ⟨fun _ => ⟨0, by omega, nofun, by simp⟩, fun _ => hle⟩
      | noSkb =>
          constructor
          · exact False.elim
          · rintro ⟨k, -, hframes, hend⟩
            cases k with
            | zero => simp at hend
            | succ k => simpa using hframes 0 (by omega)
      | frame =>
          rw [endsInBudget_frame]
          by_cases hfull : budget < (workDone + 1 : Nat)
          · rw [pollLoop, if_pos hfull]
            simp only [Option.map_some, MeetsContract, pollFinish_contract]
            constructor
            · intro hle'
              omega
            · rintro ⟨k, hk, -, -⟩
              omega
          · rw [pollLoop, if_neg hfull, ih (by omega)]
            have hleft : budget - (workDone + 1 : Nat) = budget - workDone - 1 := by omega
            rw [hleft]

/-- The contract is met exactly when the call is not held back, or has no budget, and the ring
does not offer more frames than the budget before an attempt ends the loop. -/
theorem nupanetPoll_contract_iff (holdIcCtl : Bool) (budget : Nat) (attempts : List Attempt) :
    MeetsContract budget (nupanetPoll holdIcCtl budget attempts) ↔
      holdIcCtl = true ∧ budget = 0 ∨ holdIcCtl = false ∧ EndsInBudget budget attempts := by
  cases holdIcCtl with
  | true =>
      change NapiContract budget ⟨0, false, 0⟩ ↔ _
      constructor
      · intro h
        have hnot := h.completed_iff
        simp only [Bool.false_eq_true, false_iff] at hnot
        exact .inl ⟨rfl, by omega⟩
      · rintro (⟨-, rfl⟩ | ⟨hfalse, -⟩)
        · exact ⟨Int.le_refl 0, rfl, by simp⟩
        · cases hfalse
  | false =>
      have hloop := @pollLoop_contract budget attempts 0 (by omega)
      simpa [nupanetPoll] using hloop

/-- With one frame more than the budget waiting, and with the device held, the call breaks the
contract: it returns 65 of 64, or 0 without `napi_complete_done`. -/
theorem nupanetPoll_breaks_contract :
    nupanetPoll false 64 (List.replicate 65 .frame) = some ⟨65, true, 65⟩ ∧
      ¬ MeetsContract 64 (nupanetPoll false 64 (List.replicate 65 .frame)) ∧
      nupanetPoll true 64 [.empty] = some ⟨0, false, 0⟩ ∧
      ¬ MeetsContract 64 (nupanetPoll true 64 [.empty]) := by
  have hover : nupanetPoll false 64 (List.replicate 65 .frame) = some ⟨65, true, 65⟩ := by
    decide
  have hheld : nupanetPoll true 64 [.empty] = some ⟨0, false, 0⟩ := rfl
  refine ⟨hover, fun h => ?_, hheld, fun h => ?_⟩
  · rw [hover] at h
    exact absurd h.delivered_le (by decide)
  · rw [hheld] at h
    exact absurd h.completed_iff (by decide)

end NupaNet.Ring
