import NupaNet.Xdma.Channel
import NupaNet.Xdma.Dispatch

/-!
# A device with its interrupts

All engines of a device, each with the calls that use it, together with the
registers that mask interrupts, the deferred work of the engines, the interrupt
handlers and the life-cycle calls.  A handler is two steps, the write that masks
and the `schedule_work` of each engine it found, so that work can run between
them; `engine_service_work` is three, because a handler does not wait for
`engine->lock`.  The PCI core makes one life-cycle call at a time.
-/

namespace NupaNet.Xdma

open NupaNet.Foundation

/-- `serviced` stands between `engine_service` and the write that re-enables the interrupt; the
work then holds `engine->lock`. -/
inductive WorkPhase where
  | idle
  | started
  | serviced
  deriving DecidableEq, Repr

/-- A life-cycle call under way, with the engines its loops have not reached. -/
inductive LifeCall where
  | none
  | offline (remaining : List EngineId) (masked : Bool)
  | online (remaining : List EngineId)
  deriving DecidableEq, Repr

/-- `down` remembers that `xdma_device_offline` has returned and `xdma_device_online` has not been
called; no code reads it. -/
structure Board where
  table : EngineTable
  msixEnabled : Bool
  channel : EngineId → Channel
  chEnable : U32
  engMask : EngineId → U32
  queued : EngineId → Bool
  work : EngineId → WorkPhase
  isr : List EngineId
  call : LifeCall
  down : Bool

namespace Board

/-- The engine's error interrupts, and outside poll mode its completion interrupts. -/
def interruptEnableMaskValue (pollMode : Bool) : U32 :=
  1#32 <<< 3 ||| 1#32 <<< 4 ||| 0x1F#32 <<< 9 ||| 0x1F#32 <<< 19 |||
    if pollMode then 0#32 else 1#32 <<< 1 ||| 1#32 <<< 2

def engines (t : EngineTable) : List EngineId :=
  (List.range (t.channelMax .toDevice)).map (Direction.toDevice, ·) ++
    (List.range (t.channelMax .fromDevice)).map (Direction.fromDevice, ·)

def start (pollMode msixEnabled : Bool) (found : Direction → Nat → Option Bool)
    (engine : EngineId → XdmaEngine) : Board where
  table := EngineTable.probeEngines found
  msixEnabled := msixEnabled
  channel := fun e => Channel.start (engine e)
  chEnable := if pollMode then 0 else BitVec.allOnes 32
  engMask := fun _ => interruptEnableMaskValue pollMode
  queued := fun _ => false
  work := fun _ => .idle
  isr := []
  call := .none
  down := false

inductive Act where
  | submit (e : EngineId) (a : Xdma.Act)
  | pollService (e : EngineId) (descWriteback : U32) (reads : Reads)
  | irq (chIrq : U32)
  | channelIrq (e : EngineId)
  | schedule (e : EngineId)
  | workStart (e : EngineId)
  | workService (e : EngineId) (reads : Reads)
  | workReenable (e : EngineId)
  | offlineBegin
  | offlineEngine
  | offlineMask
  | offlineReturn
  | onlineBegin
  | onlineEngine
  | onlineReturn

end Board

def Act.caller : Act → Bool
  | .enter _ _ _ | .build | .finish | .check | .queue _ | .inspect _ | .release => true
  | .service _ _ | .offlineFlag | .offlineEngine | .onlineEngine | .onlineFlag => false

def Act.takesLock : Act → Bool
  | .queue _ | .inspect _ => true
  | _ => false

namespace Board

def setChannel (s : Board) (e : EngineId) (c : Channel) : Board :=
  { s with channel := Function.update s.channel e c }

def setEngine (s : Board) (e : EngineId) (engine : XdmaEngine) : Board :=
  s.setChannel e ((s.channel e).withEngine engine)

def setFlag (s : Board) (offline : Bool) : Board :=
  { s with channel := fun e => { s.channel e with offline } }

def unlocked (s : Board) (e : EngineId) : Prop := s.work e ≠ .serviced

instance (s : Board) (e : EngineId) : Decidable (s.unlocked e) :=
  inferInstanceAs (Decidable (_ ≠ _))

def reenable (pollMode : Bool) (s : Board) (e : EngineId) : Board :=
  if s.msixEnabled then
    { s with
      engMask := Function.update s.engMask e (s.engMask e ||| interruptEnableMaskValue pollMode) }
  else { s with chEnable := s.chEnable ||| s.table.bit e }

def step (pollMode : Bool) (s : Board) : Act → Option Board
  | .submit e a =>
      if a.caller ∧ (a.takesLock → s.unlocked e) then
        ((s.channel e).step pollMode a).map (s.setChannel e)
      else none
  | .pollService e descWriteback reads =>
      if pollMode ∧ s.unlocked e then
        some (s.setEngine e (engineService pollMode (s.channel e).engine descWriteback reads))
      else none
  | .irq chIrq =>
      -- one line for all engines: its handler does not interrupt itself
      if s.msixEnabled = false ∧ s.isr = [] then
        some { s with chEnable := s.chEnable &&& ~~~chIrq, isr := s.table.xdmaIsr chIrq }
      else none
  | .channelIrq e =>
      if s.msixEnabled = true ∧ s.table.Exists e ∧ e ∉ s.isr then
        some { s with
          engMask :=
            Function.update s.engMask e (s.engMask e &&& ~~~interruptEnableMaskValue pollMode)
          isr := e :: s.isr }
      else none
  | .schedule e =>
      if e ∈ s.isr then
        some { s with isr := s.isr.erase e, queued := Function.update s.queued e true }
      else none
  | .workStart e =>
      if s.queued e ∧ s.work e = .idle then
        some { s with
          queued := Function.update s.queued e false
          work := Function.update s.work e .started }
      else none
  | .workService e reads =>
      if s.work e = .started then
        some { s.setChannel e ((s.channel e).afterService pollMode 0 reads) with
          work := Function.update s.work e .serviced }
      else none
  | .workReenable e =>
      if s.work e = .serviced then
        some { s.reenable pollMode e with work := Function.update s.work e .idle }
      else none
  | .offlineBegin =>
      if s.call = .none then
        some { s.setFlag true with call := .offline (engines s.table) false }
      else none
  | .offlineEngine =>
      match s.call with
      | .offline (e :: remaining) false =>
          if s.unlocked e then
            some { s.setEngine e (engineOffline pollMode (s.channel e).engine) with
              call := .offline remaining false }
          else none
      | _ => none
  | .offlineMask =>
      if s.call = .offline [] false then
        some { s with chEnable := s.chEnable &&& ~~~BitVec.allOnes 32, call := .offline [] true }
      else none
  | .offlineReturn =>
      if s.call = .offline [] true then some { s with call := .none, down := true } else none
  | .onlineBegin =>
      if s.call = .none then
        some { s with call := .online (engines s.table), down := false }
      else none
  | .onlineEngine =>
      match s.call with
      | .online (e :: remaining) =>
          if s.unlocked e then
            some { s.setEngine e (engineOnline (s.channel e).engine) with
              engMask := Function.update s.engMask e (interruptEnableMaskValue pollMode)
              call := .online remaining }
          else none
      | _ => none
  | .onlineReturn =>
      if s.call = .online [] then
        some { s.setFlag false with
          chEnable := if pollMode then s.chEnable else s.chEnable ||| BitVec.allOnes 32
          call := .none }
      else none

/-! ## What a step does -/

def afterIrq (s : Board) (chIrq : U32) : Board :=
  { s with chEnable := s.chEnable &&& ~~~chIrq, isr := s.table.xdmaIsr chIrq }

inductive Moves (pollMode : Bool) (s : Board) : Act → Board → Prop where
  | submit {e : EngineId} {a : Xdma.Act} {c : Channel} : a.caller = true →
      Channel.Moves pollMode (s.channel e) a c → Moves pollMode s (.submit e a) (s.setChannel e c)
  | pollService {e : EngineId} {descWriteback : U32} {reads : Reads} : pollMode = true →
      Moves pollMode s (.pollService e descWriteback reads)
        (s.setEngine e (engineService pollMode (s.channel e).engine descWriteback reads))
  | irq {chIrq : U32} : s.msixEnabled = false → s.isr = [] →
      Moves pollMode s (.irq chIrq) (s.afterIrq chIrq)
  | channelIrq {e : EngineId} : s.msixEnabled = true → s.table.Exists e →
      Moves pollMode s (.channelIrq e)
        { s with
          engMask :=
            Function.update s.engMask e (s.engMask e &&& ~~~interruptEnableMaskValue pollMode)
          isr := e :: s.isr }
  | schedule {e : EngineId} : e ∈ s.isr →
      Moves pollMode s (.schedule e)
        { s with isr := s.isr.erase e, queued := Function.update s.queued e true }
  | workStart {e : EngineId} : s.queued e = true → s.work e = .idle →
      Moves pollMode s (.workStart e)
        { s with
          queued := Function.update s.queued e false
          work := Function.update s.work e .started }
  | workService {e : EngineId} {reads : Reads} : s.work e = .started →
      Moves pollMode s (.workService e reads)
        { s.setChannel e ((s.channel e).afterService pollMode 0 reads) with
          work := Function.update s.work e .serviced }
  | workReenable {e : EngineId} : s.work e = .serviced →
      Moves pollMode s (.workReenable e)
        { s.reenable pollMode e with work := Function.update s.work e .idle }
  | offlineBegin : s.call = .none →
      Moves pollMode s .offlineBegin
        { s.setFlag true with call := .offline (engines s.table) false }
  | offlineEngine {e : EngineId} {remaining : List EngineId} :
      s.call = .offline (e :: remaining) false →
      Moves pollMode s .offlineEngine
        { s.setEngine e (engineOffline pollMode (s.channel e).engine) with
          call := .offline remaining false }
  | offlineMask : s.call = .offline [] false →
      Moves pollMode s .offlineMask
        { s with chEnable := s.chEnable &&& ~~~BitVec.allOnes 32, call := .offline [] true }
  | offlineReturn : s.call = .offline [] true →
      Moves pollMode s .offlineReturn { s with call := .none, down := true }
  | onlineBegin : s.call = .none →
      Moves pollMode s .onlineBegin { s with call := .online (engines s.table), down := false }
  | onlineEngine {e : EngineId} {remaining : List EngineId} : s.call = .online (e :: remaining) →
      Moves pollMode s .onlineEngine
        { s.setEngine e (engineOnline (s.channel e).engine) with
          engMask := Function.update s.engMask e (interruptEnableMaskValue pollMode)
          call := .online remaining }
  | onlineReturn : s.call = .online [] →
      Moves pollMode s .onlineReturn
        { s.setFlag false with
          chEnable := if pollMode then s.chEnable else s.chEnable ||| BitVec.allOnes 32
          call := .none }

theorem step_moves {pollMode : Bool} {s t : Board} {a : Act} (h : s.step pollMode a = some t) :
    Moves pollMode s a t := by
  cases a with
  | submit e a =>
      obtain ⟨⟨hcaller, -⟩, hsome⟩ := Option.ite_none_right_eq_some.mp h
      obtain ⟨c, hc, rfl⟩ := Option.map_eq_some_iff.mp hsome
      exact .submit hcaller (Channel.moves_of_step hc)
  | pollService e descWriteback reads =>
      simp only [step] at h
      obtain ⟨⟨hpoll, -⟩, hsome⟩ := Option.ite_none_right_eq_some.mp h
      cases hsome
      exact .pollService hpoll
  | irq chIrq =>
      obtain ⟨⟨hmsi, hfree⟩, hsome⟩ := Option.ite_none_right_eq_some.mp h
      cases hsome
      exact .irq hmsi hfree
  | channelIrq e =>
      obtain ⟨⟨hmsix, hexists, -⟩, hsome⟩ := Option.ite_none_right_eq_some.mp h
      cases hsome
      exact .channelIrq hmsix hexists
  | schedule e =>
      obtain ⟨hmem, hsome⟩ := Option.ite_none_right_eq_some.mp h
      cases hsome
      exact .schedule hmem
  | workStart e =>
      obtain ⟨⟨hqueued, hidle⟩, hsome⟩ := Option.ite_none_right_eq_some.mp h
      cases hsome
      exact .workStart hqueued hidle
  | workService e reads =>
      obtain ⟨hstarted, hsome⟩ := Option.ite_none_right_eq_some.mp h
      cases hsome
      exact .workService hstarted
  | workReenable e =>
      obtain ⟨hserviced, hsome⟩ := Option.ite_none_right_eq_some.mp h
      cases hsome
      exact .workReenable hserviced
  | offlineBegin =>
      obtain ⟨hcall, hsome⟩ := Option.ite_none_right_eq_some.mp h
      cases hsome
      exact .offlineBegin hcall
  | offlineEngine =>
      simp only [step] at h
      split at h
      · next e remaining hcall =>
          obtain ⟨-, hsome⟩ := Option.ite_none_right_eq_some.mp h
          cases hsome
          exact .offlineEngine hcall
      · cases h
  | offlineMask =>
      obtain ⟨hcall, hsome⟩ := Option.ite_none_right_eq_some.mp h
      cases hsome
      exact .offlineMask hcall
  | offlineReturn =>
      obtain ⟨hcall, hsome⟩ := Option.ite_none_right_eq_some.mp h
      cases hsome
      exact .offlineReturn hcall
  | onlineBegin =>
      obtain ⟨hcall, hsome⟩ := Option.ite_none_right_eq_some.mp h
      cases hsome
      exact .onlineBegin hcall
  | onlineEngine =>
      simp only [step] at h
      split at h
      · next e remaining hcall =>
          obtain ⟨-, hsome⟩ := Option.ite_none_right_eq_some.mp h
          cases hsome
          exact .onlineEngine hcall
      · cases h
  | onlineReturn =>
      obtain ⟨hcall, hsome⟩ := Option.ite_none_right_eq_some.mp h
      cases hsome
      exact .onlineReturn hcall

end Board

end NupaNet.Xdma
