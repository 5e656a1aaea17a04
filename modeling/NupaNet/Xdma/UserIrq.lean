import Mathlib.Data.List.Nodup
import Mathlib.Logic.Function.Basic
import NupaNet.Foundation.Refinement
import NupaNet.Xdma.Dispatch

/-!
# User interrupts

The calls of `libxdma_api.h` for user interrupts with the handlers of both
interrupt modes, over words and the loops that shift a bit through them.  They
refine a system that knows only sources: which handler each has, whether it was
asked for, whether it is on, and whom an interrupt calls.
-/

namespace NupaNet.Xdma

open NupaNet.Foundation

inductive UserService (η : Type*) where
  | called (user : Nat) (handler : η)
  | woken (user : Nat)
  deriving DecidableEq, Repr

/-- `handler` with its `dev`, and `events_irq`. -/
structure XdmaUserIrq (η : Type*) where
  handler : Option η
  eventsIrq : Bool
  deriving DecidableEq, Repr

/-- The fields of `struct xdma_dev` about user interrupts, the register `user_int_enable`, whether
the lines are requested, and the services so far. -/
structure UserIrqs (η : Type*) where
  userIrq : Nat → XdmaUserIrq η
  maskIrqUser : U32
  userIntEnable : U32
  offline : Bool
  linesUp : Bool
  services : List (UserService η)

inductive UserAct (η : Type*) where
  | register (mask : U32) (handler : Option η)
  | enable (mask : U32)
  | disable (mask : U32)
  | offline
  | online (granted : Bool)
  | isr (asserted : U32)
  | userIrq (user : Nat)
  deriving DecidableEq, Repr

namespace UserIrqs

variable {η : Type*}

def start : UserIrqs η := ⟨fun _ => ⟨none, false⟩, 0, 0, false, true, []⟩

def registerLoop (handler : Option η) : Nat → Nat → U32 → UserIrqs η → UserIrqs η
  | 0, _, _, s => s
  | left + 1, i, mask, s =>
      if mask = 0 then s
      else
        let bit : U32 := 1#32 <<< i
        if bit &&& mask = 0 then registerLoop handler left (i + 1) mask s
        else
          registerLoop handler left (i + 1) (mask &&& ~~~bit)
            { s with
              userIrq := Function.update s.userIrq i { s.userIrq i with handler := handler } }

def userIrqService (s : UserIrqs η) (user : Nat) : UserIrqs η :=
  match (s.userIrq user).handler with
  | some handler => { s with services := s.services ++ [.called user handler] }
  | none =>
      if (s.userIrq user).eventsIrq then s
      else
        { s with
          userIrq := Function.update s.userIrq user { s.userIrq user with eventsIrq := true }
          services := s.services ++ [.woken user] }

def isrLoop : Nat → Nat → U32 → U32 → UserIrqs η → UserIrqs η
  | 0, _, _, _, s => s
  | left + 1, user, mask, userIrq, s =>
      if userIrq = 0 then s
      else if userIrq &&& mask ≠ 0 then
        isrLoop left (user + 1) (mask <<< 1) (userIrq &&& ~~~mask) (s.userIrqService user)
      else isrLoop left (user + 1) (mask <<< 1) userIrq s

/-- The device shows a request of the sources that are asserted and enabled. -/
def step (pollMode msixEnabled : Bool) (userMax : Nat) (s : UserIrqs η) :
    UserAct η → Option (UserIrqs η)
  | .register mask handler => some (registerLoop handler userMax 0 mask s)
  | .enable mask => some { s with
      maskIrqUser := s.maskIrqUser ||| mask
      userIntEnable := s.userIntEnable ||| mask }
  | .disable mask => some { s with
      maskIrqUser := s.maskIrqUser &&& ~~~mask
      userIntEnable := s.userIntEnable &&& ~~~mask }
  | .offline => some { s with
      offline := true
      userIntEnable := s.userIntEnable &&& ~~~BitVec.allOnes 32
      linesUp := false }
  | .online granted =>
      if pollMode then some { s with offline := false }
      else some { s with
        linesUp := s.linesUp || granted
        userIntEnable := s.userIntEnable ||| s.maskIrqUser
        offline := false }
  | .isr asserted =>
      if !msixEnabled && s.linesUp then
        let userIrq := asserted &&& s.userIntEnable
        some (if userIrq = 0 then s else isrLoop userMax 0 1#32 userIrq s)
      else none
  | .userIrq user =>
      if msixEnabled && s.linesUp && decide (user < userMax) && s.userIntEnable.getLsbD user then
        some (s.userIrqService user)
      else none

end UserIrqs

/-! ## Sources -/

/-- The same without words: what holds of each source. -/
structure Sources (η : Type*) where
  handler : Nat → Option η
  event : Nat → Bool
  asked : Nat → Bool
  on : Nat → Bool
  linesUp : Bool
  services : List (UserService η)

inductive SourceAct (η : Type*) where
  | register (set : Nat → Bool) (handler : Option η)
  | enable (set : Nat → Bool)
  | disable (set : Nat → Bool)
  | offline
  | online (granted : Bool)
  | interrupt (set : Nat → Bool)

namespace Sources

variable {η : Type*}

def start : Sources η := ⟨fun _ => none, fun _ => false, fun _ => false, fun _ => false, true, []⟩

def serve (s : Sources η) (i : Nat) : Sources η :=
  match s.handler i with
  | some handler => { s with services := s.services ++ [.called i handler] }
  | none =>
      if s.event i then s
      else { s with
        event := Function.update s.event i true
        services := s.services ++ [.woken i] }

def step (pollMode : Bool) (userMax : Nat) (s : Sources η) : SourceAct η → Option (Sources η)
  | .register set handler =>
      some { s with handler := fun i => if i < userMax ∧ set i then handler else s.handler i }
  | .enable set => some { s with
      asked := fun i => s.asked i || set i
      on := fun i => s.on i || set i }
  | .disable set => some { s with
      asked := fun i => s.asked i && !set i
      on := fun i => s.on i && !set i }
  | .offline => some { s with on := fun _ => false, linesUp := false }
  | .online granted =>
      if pollMode then some s
      else some { s with
        linesUp := s.linesUp || granted
        on := fun i => s.on i || s.asked i }
  | .interrupt set =>
      if s.linesUp then
        some (((List.range userMax).filter fun i => set i && s.on i).foldl serve s)
      else none

end Sources

namespace UserIrqs

variable {η : Type*}

def sources (s : UserIrqs η) : Sources η where
  handler := fun i => (s.userIrq i).handler
  event := fun i => (s.userIrq i).eventsIrq
  asked := s.maskIrqUser.getLsbD
  on := s.userIntEnable.getLsbD
  linesUp := s.linesUp
  services := s.services

end UserIrqs

/-- With bits above 31 no source is meant. -/
def UserAct.source {η : Type*} : UserAct η → SourceAct η
  | .register mask handler => .register mask.getLsbD handler
  | .enable mask => .enable mask.getLsbD
  | .disable mask => .disable mask.getLsbD
  | .offline => .offline
  | .online granted => .online granted
  | .isr asserted => .interrupt asserted.getLsbD
  | .userIrq user => .interrupt fun i => decide (i = user)

/-! ## The loops -/

namespace UserIrqs

variable {η : Type*} {s : UserIrqs η} {left i : Nat}

private theorem shiftLeft_eq_twoPow (i : Nat) : (1#32 <<< i : U32) = BitVec.twoPow 32 i :=
  (BitVec.twoPow_eq 32 i).symm

private theorem clear_above {mask : U32} {j : Nat} (hj : i < j) :
    (mask &&& ~~~BitVec.twoPow 32 i).getLsbD j = mask.getLsbD j := by
  rw [BitVec.getLsbD_and, BitVec.getLsbD_not, BitVec.getLsbD_twoPow]
  by_cases hlt : j < 32
  · have hne : i ≠ j := by omega
    simp [hlt, hne]
  · rw [BitVec.getLsbD_of_ge mask j (by omega), Bool.false_and]

private theorem registerLoop_succ (handler : Option η) (left : Nat) {mask : U32} (hi : i < 32) :
    registerLoop handler (left + 1) i mask s =
      if mask = 0 then s
      else if mask.getLsbD i = true then
        registerLoop handler left (i + 1) (mask &&& ~~~BitVec.twoPow 32 i)
          { s with userIrq := Function.update s.userIrq i { s.userIrq i with handler := handler } }
      else registerLoop handler left (i + 1) mask s := by
  rw [registerLoop, shiftLeft_eq_twoPow]
  by_cases hbit : mask.getLsbD i = true
  · have hset := (EngineTable.twoPow_and_ne_zero hi mask).mpr hbit
    simp only [if_neg hset, if_pos hbit]
  · have hclear : BitVec.twoPow 32 i &&& mask = 0 := by
      by_contra hset
      exact hbit ((EngineTable.twoPow_and_ne_zero hi mask).mp hset)
    simp only [if_pos hclear, if_neg hbit]

private theorem registerLoop_userIrq (handler : Option η) {mask : U32} (hleft : i + left ≤ 32)
    (j : Nat) :
    (registerLoop handler left i mask s).userIrq j =
      ⟨if i ≤ j ∧ j < i + left ∧ mask.getLsbD j = true then handler else (s.userIrq j).handler,
        (s.userIrq j).eventsIrq⟩ := by
  induction left generalizing i mask s with
  | zero =>
      rw [if_neg (by omega)]
      rfl
  | succ left ih =>
      rw [registerLoop_succ handler left (by omega)]
      by_cases hzero : mask = 0
      · simp [hzero]
      · rw [if_neg hzero]
        by_cases hbit : mask.getLsbD i = true
        · rw [if_pos hbit, ih (by omega)]
          by_cases hj : j = i
          · subst hj
            rw [if_neg (by omega), if_pos ⟨by omega, by omega, hbit⟩]
            simp only [Function.update_self]
          · simp only [Function.update_of_ne hj]
            by_cases hin : i + 1 ≤ j
            · simp only [clear_above (show i < j by omega), hin, show i ≤ j by omega, true_and,
                show i + 1 + left = i + (left + 1) by omega]
            · rw [if_neg (by omega), if_neg (by omega)]
        · rw [if_neg hbit, ih (by omega)]
          by_cases hj : j = i
          · subst hj
            rw [if_neg (by omega), if_neg (by simp [hbit])]
          · by_cases hin : i + 1 ≤ j
            · simp only [hin, show i ≤ j by omega, true_and,
                show i + 1 + left = i + (left + 1) by omega]
            · rw [if_neg (by omega), if_neg (by omega)]

private theorem registerLoop_rest (handler : Option η) {mask : U32} :
    let t := registerLoop handler left i mask s
    t.maskIrqUser = s.maskIrqUser ∧ t.userIntEnable = s.userIntEnable ∧ t.offline = s.offline ∧
      t.linesUp = s.linesUp ∧ t.services = s.services := by
  induction left generalizing i mask s with
  | zero => exact ⟨rfl, rfl, rfl, rfl, rfl⟩
  | succ left ih =>
      simp only [registerLoop]
      split
      · exact ⟨rfl, rfl, rfl, rfl, rfl⟩
      · split
        · exact ih
        · exact ih

private theorem sources_userIrqService (s : UserIrqs η) (user : Nat) :
    (s.userIrqService user).sources = s.sources.serve user := by
  cases hhandler : (s.userIrq user).handler with
  | some handler => simp only [userIrqService, Sources.serve, sources, hhandler]
  | none =>
      cases hevent : (s.userIrq user).eventsIrq with
      | true => simp [userIrqService, Sources.serve, sources, hhandler, hevent]
      | false =>
          have hsame : (fun i => (Function.update s.userIrq user ⟨none, true⟩ i).handler) =
              fun i => (s.userIrq i).handler := by
            funext i
            by_cases hi : i = user
            · subst hi
              simp [hhandler]
            · simp [Function.update_of_ne hi]
          have hmarked : (fun i => (Function.update s.userIrq user ⟨none, true⟩ i).eventsIrq) =
              Function.update (fun i => (s.userIrq i).eventsIrq) user true := by
            funext i
            by_cases hi : i = user
            · subst hi
              simp
            · simp [Function.update_of_ne hi]
          simp [userIrqService, Sources.serve, sources, hhandler, hevent, hsame, hmarked]

private theorem sources_isrLoop {user : Nat} {w : U32} (hleft : user + left ≤ 32) :
    (isrLoop left user (BitVec.twoPow 32 user) w s).sources =
      ((List.range' user left).filter w.getLsbD).foldl Sources.serve s.sources := by
  induction left generalizing user w s with
  | zero => rfl
  | succ left ih =>
      have hshift : BitVec.twoPow 32 user <<< 1 = BitVec.twoPow 32 (user + 1) := by
        rw [BitVec.twoPow_eq, BitVec.twoPow_eq, BitVec.shiftLeft_add]
      rw [isrLoop, hshift]
      split
      · next hzero =>
          have hnone : (List.range' user (left + 1)).filter w.getLsbD = [] :=
            List.filter_eq_nil_iff.mpr fun j _ => by simp [hzero]
          rw [hnone]
          rfl
      · rw [List.range'_succ]
        split
        · next hset =>
            rw [BitVec.and_comm] at hset
            have hbit := (EngineTable.twoPow_and_ne_zero (by omega) w).mp hset
            have hrest : (List.range' (user + 1) left).filter
                (w &&& ~~~BitVec.twoPow 32 user).getLsbD =
                  (List.range' (user + 1) left).filter w.getLsbD := by
              refine List.filter_congr fun j hj => ?_
              rw [clear_above (by have := (List.mem_range'_1.mp hj).1; omega)]
            rw [ih (by omega), hrest, List.filter_cons_of_pos hbit, List.foldl_cons,
              sources_userIrqService]
        · next hclear =>
            rw [BitVec.and_comm] at hclear
            have hbit : ¬ w.getLsbD user = true := fun hset =>
              hclear ((EngineTable.twoPow_and_ne_zero (by omega) w).mpr hset)
            rw [ih (by omega), List.filter_cons_of_neg hbit]

/-! ## Refinement -/

private theorem sources_registerLoop (handler : Option η) {mask : U32} {userMax : Nat}
    (hmax : userMax ≤ 32) :
    (registerLoop handler userMax 0 mask s).sources =
      { s.sources with
        handler := fun i =>
          if i < userMax ∧ mask.getLsbD i = true then handler else s.sources.handler i } := by
  obtain ⟨hmask, henable, -, hlines, hservices⟩ :=
    @registerLoop_rest _ s userMax 0 handler mask
  have huser : ∀ j, (registerLoop handler userMax 0 mask s).userIrq j =
      ⟨if j < userMax ∧ mask.getLsbD j = true then handler else (s.userIrq j).handler,
        (s.userIrq j).eventsIrq⟩ := by
    intro j
    rw [registerLoop_userIrq handler (by omega)]
    simp
  simp only [sources, hmask, henable, hlines, hservices, huser]

/-- The words agree: what is on was asked for, and while the device is not offline, in interrupt
mode, all that was asked for is on. -/
structure Masks (pollMode : Bool) (s : UserIrqs η) : Prop where
  asked : ∀ i, s.userIntEnable.getLsbD i = true → s.maskIrqUser.getLsbD i = true
  level : pollMode = false → s.offline = false → s.userIntEnable = s.maskIrqUser

private theorem masks_start (pollMode : Bool) : Masks pollMode (start : UserIrqs η) :=
  ⟨fun _ h => h, fun _ _ => rfl⟩

private theorem masks_of_eq {pollMode : Bool} {s t : UserIrqs η} (h : Masks pollMode s)
    (hmask : t.maskIrqUser = s.maskIrqUser) (henable : t.userIntEnable = s.userIntEnable)
    (hoffline : t.offline = s.offline) : Masks pollMode t := by
  refine ⟨?_, fun hpoll hon => ?_⟩
  · rw [hmask, henable]
    exact h.asked
  · rw [hmask, henable]
    exact h.level hpoll (hoffline ▸ hon)

private theorem userIrqService_rest (s : UserIrqs η) (user : Nat) :
    let t := s.userIrqService user
    t.maskIrqUser = s.maskIrqUser ∧ t.userIntEnable = s.userIntEnable ∧ t.offline = s.offline := by
  simp only [userIrqService]
  split
  · exact ⟨rfl, rfl, rfl⟩
  · split <;> exact ⟨rfl, rfl, rfl⟩

private theorem isrLoop_rest {user : Nat} {mask w : U32} :
    let t := isrLoop left user mask w s
    t.maskIrqUser = s.maskIrqUser ∧ t.userIntEnable = s.userIntEnable ∧ t.offline = s.offline := by
  induction left generalizing user mask w s with
  | zero => exact ⟨rfl, rfl, rfl⟩
  | succ left ih =>
      simp only [isrLoop]
      split
      · exact ⟨rfl, rfl, rfl⟩
      · split
        · obtain ⟨hmask, henable, hoffline⟩ := userIrqService_rest s user
          obtain ⟨hmask', henable', hoffline'⟩ :=
            @ih (s.userIrqService user) (user + 1) (mask <<< 1) (w &&& ~~~mask)
          exact ⟨hmask'.trans hmask, henable'.trans henable, hoffline'.trans hoffline⟩
        · exact ih

theorem Masks.step {pollMode msixEnabled : Bool} {userMax : Nat} {s t : UserIrqs η}
    {a : UserAct η} (h : Masks pollMode s)
    (hs : s.step pollMode msixEnabled userMax a = some t) : Masks pollMode t := by
  cases a with
  | register mask handler =>
      cases hs
      obtain ⟨hmask, henable, hoffline, -⟩ := @registerLoop_rest _ s userMax 0 handler mask
      exact masks_of_eq h hmask henable hoffline
  | enable mask =>
      cases hs
      refine ⟨fun i hi => ?_, fun hpoll hon => ?_⟩
      · rw [BitVec.getLsbD_or, Bool.or_eq_true] at hi ⊢
        exact hi.imp_left (h.asked i)
      · simp only [h.level hpoll hon]
  | disable mask =>
      cases hs
      refine ⟨fun i hi => ?_, fun hpoll hon => ?_⟩
      · rw [BitVec.getLsbD_and, Bool.and_eq_true] at hi ⊢
        exact ⟨h.asked i hi.1, hi.2⟩
      · simp only [h.level hpoll hon]
  | offline =>
      cases hs
      refine ⟨fun i hi => ?_, fun _ hon => by cases hon⟩
      simp at hi
  | online granted =>
      simp only [UserIrqs.step] at hs
      split at hs
      · next hpoll =>
          cases hs
          exact ⟨h.asked, fun hnot => by rw [hpoll] at hnot; cases hnot⟩
      · cases hs
        have hall : s.userIntEnable ||| s.maskIrqUser = s.maskIrqUser := by
          apply BitVec.eq_of_getLsbD_eq
          intro i _
          rw [BitVec.getLsbD_or]
          cases hon : s.userIntEnable.getLsbD i with
          | false => exact Bool.false_or _
          | true => rw [h.asked i hon, Bool.true_or]
        refine ⟨fun i hi => ?_, fun _ _ => hall⟩
        rwa [hall] at hi
  | isr asserted =>
      simp only [UserIrqs.step] at hs
      split at hs
      · split at hs
        · cases hs
          exact h
        · cases hs
          obtain ⟨hmask, henable, hoffline⟩ :=
            @isrLoop_rest _ s userMax 0 1#32 (asserted &&& s.userIntEnable)
          exact masks_of_eq h hmask henable hoffline
      · cases hs
  | userIrq user =>
      simp only [UserIrqs.step] at hs
      split at hs
      · cases hs
        obtain ⟨hmask, henable, hoffline⟩ := userIrqService_rest s user
        exact masks_of_eq h hmask henable hoffline
      · cases hs

private theorem getLsbD_and_not (x mask : U32) (i : Nat) :
    (x &&& ~~~mask).getLsbD i = (x.getLsbD i && !mask.getLsbD i) := by
  rw [BitVec.getLsbD_and, BitVec.getLsbD_not]
  by_cases hi : i < 32
  · simp [hi]
  · rw [BitVec.getLsbD_of_ge x i (by omega), Bool.false_and, Bool.false_and]

private theorem sources_isr (s : UserIrqs η) (asserted : U32) {userMax : Nat}
    (hmax : userMax ≤ 32) :
    (if asserted &&& s.userIntEnable = 0 then s
      else isrLoop userMax 0 1#32 (asserted &&& s.userIntEnable) s).sources =
      ((List.range userMax).filter fun i =>
        asserted.getLsbD i && s.sources.on i).foldl Sources.serve s.sources := by
  have hbits : (fun i => asserted.getLsbD i && s.sources.on i) =
      (asserted &&& s.userIntEnable).getLsbD := by
    funext i
    exact BitVec.getLsbD_and.symm
  rw [hbits]
  split
  · next hzero =>
      have hnone : (List.range userMax).filter (asserted &&& s.userIntEnable).getLsbD = [] :=
        List.filter_eq_nil_iff.mpr fun j _ => by simp [hzero]
      rw [hnone]
      rfl
  · have hone : 1#32 = BitVec.twoPow 32 0 := rfl
    rw [hone, sources_isrLoop (by omega), List.range_eq_range']

private theorem sources_userIrq (s : UserIrqs η) {user userMax : Nat} (hlt : user < userMax)
    (hon : s.userIntEnable.getLsbD user = true) :
    (s.userIrqService user).sources =
      ((List.range userMax).filter fun i =>
        decide (i = user) && s.sources.on i).foldl Sources.serve s.sources := by
  have honly : ((List.range userMax).filter fun i => decide (i = user) && s.sources.on i) =
      [user] := by
    have hsame : (fun i => decide (i = user) && s.sources.on i) = fun i => decide (i = user) := by
      funext i
      by_cases hi : i = user
      · subst hi
        simp [sources, hon]
      · simp [hi]
    rw [hsame, List.filter_eq, List.count_eq_one_of_mem List.nodup_range (List.mem_range.mpr hlt)]
    rfl
  rw [honly, List.foldl_cons, List.foldl_nil, sources_userIrqService]

private theorem step_sources {pollMode msixEnabled : Bool} {userMax : Nat} {s t : UserIrqs η}
    {a : UserAct η} (hmax : userMax ≤ 16) (hs : s.step pollMode msixEnabled userMax a = some t) :
    s.sources.step pollMode userMax a.source = some t.sources := by
  cases a with
  | register mask handler =>
      cases hs
      rw [sources_registerLoop handler (by omega)]
      rfl
  | enable mask =>
      cases hs
      simp [UserAct.source, Sources.step, sources, funext_iff]
  | disable mask =>
      cases hs
      simp only [UserAct.source, Sources.step, sources, Option.some.injEq, Sources.mk.injEq,
        funext_iff, getLsbD_and_not, implies_true, and_self]
  | offline =>
      cases hs
      simp [UserAct.source, Sources.step, sources, funext_iff]
  | online granted =>
      simp only [UserIrqs.step] at hs
      split at hs
      · next hpoll =>
          cases hs
          simp [UserAct.source, Sources.step, hpoll, sources]
      · next hpoll =>
          cases hs
          simp [UserAct.source, Sources.step, hpoll, sources, funext_iff]
  | isr asserted =>
      simp only [UserIrqs.step] at hs
      split at hs
      · next hup =>
          have hlines : s.sources.linesUp = true := (Bool.and_eq_true_iff.mp hup).2
          obtain rfl := Option.some.inj hs
          rw [sources_isr s asserted (by omega)]
          exact if_pos hlines
      · cases hs
  | userIrq user =>
      simp only [UserIrqs.step] at hs
      split at hs
      · next hup =>
          simp only [Bool.and_eq_true, decide_eq_true_eq] at hup
          obtain ⟨⟨⟨-, hlines⟩, hlt⟩, hon⟩ := hup
          obtain rfl := Option.some.inj hs
          rw [sources_userIrq s hlt hon]
          exact if_pos hlines
      · cases hs

private theorem refines_sources {pollMode msixEnabled : Bool} {userMax : Nat}
    (hmax : userMax ≤ 16) :
    Refines (UserIrqs.step pollMode msixEnabled userMax) Any (Sources.step pollMode userMax)
      (fun _ : UserIrqs η => True) sources (fun _ a => some a.source) where
  keep _ _ _ := True.intro
  silent _ _ _ h := by cases h
  visible _ _ hs h := by
    obtain rfl := Option.some.inj h
    exact step_sources hmax hs

end UserIrqs

/-- Every run of calls, resets and interrupts is a run of the sources with the same calls: the
handlers that are called, in this order, are those that the sources call.  No source is on that
was not asked for; and in interrupt mode, while the device is not offline, all that were asked
for are on. -/
theorem user_irqs_refine {η : Type*} {pollMode msixEnabled : Bool} {userMax : Nat}
    (hmax : userMax ≤ 16) {as : List (UserAct η)} {s : UserIrqs η}
    (run : Runs (UserIrqs.step pollMode msixEnabled userMax) Any UserIrqs.start as s) :
    Runs (Sources.step pollMode userMax) Any Sources.start (as.map UserAct.source) s.sources ∧
      (∀ i, s.sources.on i = true → s.sources.asked i = true) ∧
      (pollMode = false → s.offline = false → s.sources.on = s.sources.asked) := by
  have hruns := (UserIrqs.refines_sources hmax).runs run True.intro
  have hstart : (UserIrqs.start : UserIrqs η).sources = Sources.start := by
    simp [UserIrqs.start, UserIrqs.sources, Sources.start, funext_iff]
  rw [trace_map run, hstart] at hruns
  have hmasks := run.invariant (fun h _ hs => UserIrqs.Masks.step h hs)
    (UserIrqs.masks_start pollMode)
  exact ⟨hruns, hmasks.asked, fun hpoll hon => congrArg BitVec.getLsbD (hmasks.level hpoll hon)⟩

theorem user_irqs_refine_reset :
    ∃ s : UserIrqs Nat, Runs (UserIrqs.step false false 4) Any UserIrqs.start
        [.register 0xa#32 (some 7), .enable 0x6#32, .offline, .online true, .isr 0xf#32] s ∧
      s.services = [.called 1 7, .woken 2] ∧ s.sources.on = s.sources.asked := by
  have hexec : (exec (UserIrqs.step false false 4) (UserIrqs.start : UserIrqs Nat)
      [.register 0xa#32 (some 7), .enable 0x6#32, .offline, .online true, .isr 0xf#32]).map
        (fun s => (s.services, s.offline)) = some ([.called 1 7, .woken 2], false) := by
    decide +kernel
  obtain ⟨s, hs, hobs⟩ := Option.map_eq_some_iff.mp hexec
  have hrun := runs_of_exec hs
  exact ⟨s, hrun, congrArg Prod.fst hobs,
    (user_irqs_refine (by decide) hrun).2.2 rfl (congrArg Prod.snd hobs)⟩

end NupaNet.Xdma
