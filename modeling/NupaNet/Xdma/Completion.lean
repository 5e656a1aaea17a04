import NupaNet.Xdma.Blocking

/-!
# What a completed transfer says about the hardware

The hardware counts the descriptors it completes: the count is zeroed when RUN
is set and goes up while RUN stays set, and `completed` is the history of these
completions, each with the transfer whose chain was started and the position in
that chain.  In interrupt mode `engine_service` infers completion from the count
alone and credits it to the transfer at the head of the queue.  The inference is
right as long as the run that is counted is the run of that transfer: this is
what the invariant says.  Nothing is assumed of the status words: a service may
find the engine busy or idle, with or without error bits, at any count, so a
descriptor that completes while a service runs is progress made before it.
-/

namespace NupaNet.Xdma

open NupaNet.Foundation

structure Hardware where
  count : Nat
  completed : List (Nat × Nat)

/-- What the hardware makes of the register writes between two states of the driver. -/
def Hardware.after (hw : Hardware) (engine engine' : XdmaEngine) : Hardware :=
  { hw with count := if engine'.regs.starts = engine.regs.starts then hw.count else 0 }

structure Device where
  channel : Channel
  hw : Hardware

namespace Device

def engine (d : Device) : XdmaEngine := d.channel.engine

inductive Act
  | progress
  | driver (a : Xdma.Act)

/-- `progress` completes the next descriptor of the chain that was started. -/
def step (d : Device) : Act → Option Device
  | .progress =>
      if d.engine.regs.control &&& xdmaCtrlRunStop ≠ 0 then
        some { d with
          hw :=
            { count := d.hw.count + 1
              completed := d.hw.completed ++ [(d.engine.regs.startedFor, d.hw.count)] } }
      else none
  | .driver a =>
      (d.channel.step false a).map fun channel =>
        { channel, hw := d.hw.after d.engine channel.engine }

/-- Services come from the interrupt work and read the hardware's count; the identifier is
valid. -/
def reads (d : Device) : Act → Bool
  | .driver (.service descWriteback reads) =>
      descWriteback = 0 ∧ reads.completedDescCount = BitVec.ofNat 32 d.hw.count
  | .driver (.inspect reads) => engineRegDump reads.identifier
  | _ => true

def start (engine : XdmaEngine) : Device where
  channel := Channel.start engine
  hw := { count := 0, completed := [] }

end Device

structure FreshEngine (engine : XdmaEngine) : Prop extends IdleEngine engine where
  blank : ∀ r, (engine.tfer r).state = .new ∧ (engine.tfer r).descNum = 0

/-! ## The history of an engine -/

structure Truthful (engine : XdmaEngine) (hw : Hardware) : Prop where
  recorded : ∀ i < hw.count, (engine.regs.startedFor, i) ∈ hw.completed
  completed : ∀ r, (engine.tfer r).state = .completed →
    ∀ i < (engine.tfer r).descNum, ((engine.tfer r).serial, i) ∈ hw.completed
  small : ∀ r, (engine.tfer r).descNum < 2 ^ 32

namespace Truthful

variable {engine engine' : XdmaEngine} {hw : Hardware}

theorem progress (truthful : Truthful engine hw) :
    Truthful engine
      { count := hw.count + 1
        completed := hw.completed ++ [(engine.regs.startedFor, hw.count)] } where
  recorded i hi := by
    rcases Nat.lt_succ_iff_lt_or_eq.mp hi with hold | rfl
    · exact List.mem_append_left _ (truthful.recorded i hold)
    · exact List.mem_append_right _ (List.mem_singleton.mpr rfl)
  completed r hr i hi := List.mem_append_left _ (truthful.completed r hr i hi)
  small := truthful.small

private theorem same_run (truthful : Truthful engine hw)
    (starts : engine'.regs.starts = engine.regs.starts)
    (startedFor : engine'.regs.startedFor = engine.regs.startedFor)
    (completed : ∀ r, (engine'.tfer r).state = .completed →
      ∀ i < (engine'.tfer r).descNum, ((engine'.tfer r).serial, i) ∈ hw.completed)
    (small : ∀ r, (engine'.tfer r).descNum < 2 ^ 32) :
    Truthful engine' (hw.after engine engine') where
  recorded := by
    rw [Hardware.after, if_pos starts, startedFor]
    exact truthful.recorded
  completed := completed
  small := small

theorem of_undisturbed (truthful : Truthful engine hw)
    (undisturbed : Undisturbed engine engine') : Truthful engine' (hw.after engine engine') := by
  refine truthful.same_run undisturbed.starts undisturbed.startedFor ?_ ?_
  · rw [undisturbed.tfer]
    exact truthful.completed
  · rw [undisturbed.tfer]
    exact truthful.small

theorem update (truthful : Truthful engine hw) {r : Nat} {transfer : XdmaTransfer}
    (tfer : engine'.tfer = Function.update engine.tfer r transfer)
    (state : transfer.state ≠ .completed) (descNum : transfer.descNum < 2 ^ 32) :
    (∀ k, (engine'.tfer k).state = .completed →
        ∀ i < (engine'.tfer k).descNum, ((engine'.tfer k).serial, i) ∈ hw.completed) ∧
      ∀ k, (engine'.tfer k).descNum < 2 ^ 32 := by
  rw [tfer]
  constructor
  · intro k hk
    by_cases hkr : k = r
    · subst hkr
      rw [Function.update_self] at hk
      exact absurd hk state
    · rw [Function.update_of_ne hkr] at hk ⊢
      exact truthful.completed k hk
  · intro k
    by_cases hkr : k = r
    · subst hkr
      rwa [Function.update_self]
    · rw [Function.update_of_ne hkr]
      exact truthful.small k

/-- A service that reads the count of the run of transfer `r` completes it only if the
hardware has completed all its descriptors. -/
theorem of_settled (truthful : Truthful engine hw) {r : Nat}
    (settled : Settled engine engine' r (BitVec.ofNat 32 hw.count))
    (run : (engine.tfer r).serial = engine.regs.startedFor) :
    Truthful engine' (hw.after engine engine') := by
  refine truthful.same_run settled.starts settled.startedFor ?_ ?_
  · intro k hk i hi
    by_cases hkr : k = r
    · subst hkr
      rcases settled.verdict with ⟨-, hcount⟩ | hfailed
      · have hle : (engine.tfer k).descNum ≤ hw.count := by
          have hcmp := BitVec.le_def.mp hcount
          rw [XdmaTransfer.descNum32, BitVec.toNat_ofNat, BitVec.toNat_ofNat,
            Nat.mod_eq_of_lt (truthful.small k)] at hcmp
          exact hcmp.trans (Nat.mod_le _ _)
        rw [settled.descNum] at hi
        rw [settled.serial, run]
        exact truthful.recorded i (by omega)
      · simp [hfailed] at hk
    · rw [settled.others k hkr] at hk hi ⊢
      exact truthful.completed k hk i hi
  · intro k
    by_cases hkr : k = r
    · subst hkr
      rw [settled.descNum]
      exact truthful.small k
    · rw [settled.others k hkr]
      exact truthful.small k

private theorem of_built (truthful : Truthful engine hw) {r : Nat} {transfer : XdmaTransfer}
    (tfer : engine'.tfer = Function.update engine.tfer r transfer)
    (regs : engine'.regs = engine.regs) (state : transfer.state = .new)
    (descNum : transfer.descNum < 2 ^ 32) : Truthful engine' (hw.after engine engine') := by
  obtain ⟨hcompleted, hsmall⟩ := truthful.update tfer (by simp [state]) descNum
  exact truthful.same_run (congrArg EngineRegs.starts regs) (congrArg EngineRegs.startedFor regs)
    hcompleted hsmall

theorem of_started (truthful : Truthful engine hw) {r : Nat} (started : Started engine engine' r) :
    Truthful engine' (hw.after engine engine') := by
  obtain ⟨hcompleted, hsmall⟩ := truthful.update started.tfer nofun (truthful.small r)
  have hcount : (hw.after engine engine').count = 0 := by
    rw [Hardware.after]
    exact if_neg (by rw [started.starts]; omega)
  exact ⟨fun i hi => by omega, hcompleted, hsmall⟩

private theorem of_aborted (truthful : Truthful engine hw) {r : Nat}
    (aborted : Aborted engine engine' r) :
    Truthful engine' (hw.after engine engine') := by
  obtain ⟨hcompleted, hsmall⟩ := truthful.update aborted.tfer nofun (truthful.small r)
  exact truthful.same_run aborted.starts aborted.startedFor hcompleted hsmall

end Truthful

/-! ## The device -/

/-- A queued transfer on a running engine is the one that the engine was started for. -/
structure DeviceInv (d : Device) : Prop where
  inv : ChannelInv d.channel
  truthful : Truthful d.engine d.hw
  owned : d.channel.phase = .queued → d.engine.running = true →
    d.engine.descDequeued = 0 ∧ d.channel.xfer.serial = d.engine.regs.startedFor

theorem DeviceInv.start {engine : XdmaEngine} (fresh : FreshEngine engine) :
    DeviceInv (Device.start engine) where
  inv := .start fresh.toIdleEngine
  truthful :=
    { recorded := nofun
      completed := fun r hr => by
        have hnew := (fresh.blank r).1
        change (engine.tfer r).state = .completed at hr
        simp [hnew] at hr
      small := fun r => by
        change (engine.tfer r).descNum < 2 ^ 32
        rw [(fresh.blank r).2]
        decide }
  owned := nofun

namespace DeviceInv

variable {d : Device} {channel : Channel}

theorem progress (dinv : DeviceInv d) :
    DeviceInv { d with
      hw :=
        { count := d.hw.count + 1
          completed := d.hw.completed ++ [(d.engine.regs.startedFor, d.hw.count)] } } where
  inv := dinv.inv
  truthful := dinv.truthful.progress
  owned := dinv.owned

theorem of_undisturbed (dinv : DeviceInv d) (inv : ChannelInv channel)
    (undisturbed : Undisturbed d.engine channel.engine)
    (phase : channel.phase = .queued →
      d.channel.phase = .queued ∧ channel.request = d.channel.request) :
    DeviceInv { channel, hw := d.hw.after d.engine channel.engine } where
  inv := inv
  truthful := dinv.truthful.of_undisturbed undisturbed
  owned hqueued hrunning := by
    obtain ⟨hwas, hrequest⟩ := phase hqueued
    obtain ⟨hdequeued, hserial⟩ := dinv.owned hwas (undisturbed.running hrunning)
    refine ⟨undisturbed.dequeued.trans hdequeued, ?_⟩
    change (channel.engine.tfer channel.request).serial = channel.engine.regs.startedFor
    rw [undisturbed.tfer, hrequest, undisturbed.startedFor]
    exact hserial

private theorem of_truthful (inv : ChannelInv channel)
    (truthful : Truthful channel.engine (d.hw.after d.engine channel.engine))
    (phase : channel.phase ≠ .queued) :
    DeviceInv { channel, hw := d.hw.after d.engine channel.engine } where
  inv := inv
  truthful := truthful
  owned h := absurd h phase

theorem of_started (dinv : DeviceInv d) (inv : ChannelInv channel)
    (started : Started d.engine channel.engine d.channel.request)
    (request : channel.request = d.channel.request) :
    DeviceInv { channel, hw := d.hw.after d.engine channel.engine } where
  inv := inv
  truthful := dinv.truthful.of_started started
  owned _ _ := by
    refine ⟨started.dequeued, ?_⟩
    change (channel.engine.tfer channel.request).serial = channel.engine.regs.startedFor
    rw [started.tfer, request, Function.update_self, started.startedFor]

theorem of_settled (dinv : DeviceInv d) (inv : ChannelInv channel)
    (queued : d.channel.phase = .queued) (running : d.engine.running = true) {reads : Reads}
    (count : reads.completedDescCount = BitVec.ofNat 32 d.hw.count)
    (settled : Settled d.engine channel.engine d.channel.request
      (serviceCount 0 reads - d.engine.descDequeued)) :
    DeviceInv { channel, hw := d.hw.after d.engine channel.engine } := by
  obtain ⟨hdequeued, hserial⟩ := dinv.owned queued running
  have hcount : serviceCount 0 reads - d.engine.descDequeued = BitVec.ofNat 32 d.hw.count := by
    rw [hdequeued, serviceCount, if_pos (by decide), count]
    exact BitVec.sub_zero _
  rw [hcount] at settled
  refine ⟨inv, dinv.truthful.of_settled settled hserial, fun _ hstill => ?_⟩
  exact absurd (settled.stopped.symm.trans hstill) (by decide)

theorem driver (dinv : DeviceInv d) {a : Act} (reads : d.reads (.driver a) = true)
    (move : Channel.Moves false d.channel a channel) :
    DeviceInv { channel, hw := d.hw.after d.engine channel.engine } := by
  have hvalid : ∀ regs, a = .inspect regs →
      d.channel.xfer.state = .completed ∨ d.channel.xfer.state = .failed ∨
        engineRegDump regs.identifier = true := by
    rintro regs rfl
    exact .inr (.inr reads)
  have inv := dinv.inv.moves hvalid move
  cases dinv.inv.effect hvalid move with
  | undisturbed hsame hphase => exact dinv.of_undisturbed inv hsame hphase
  | built _ hstate hsmall htfer hregs _ hphase =>
      exact of_truthful inv (dinv.truthful.of_built htfer hregs hstate hsmall) hphase
  | started _ _ hstarted hrequest _ => exact dinv.of_started inv hstarted hrequest
  | aborted _ haborted hphase =>
      exact of_truthful inv (dinv.truthful.of_aborted haborted) hphase
  | settled hservice hrunning hqueued _ hsettled _ =>
      subst hservice
      obtain ⟨rfl, hcount⟩ := of_decide_eq_true reads
      exact dinv.of_settled inv hqueued hrunning hcount hsettled

end DeviceInv

/-- Whatever the order of calls, aborts, services and hardware progress: a transfer is in state
`TRANSFER_STATE_COMPLETED` only if the hardware has completed each of its descriptors. -/
theorem completed_only_by_hardware (engine : XdmaEngine) (fresh : FreshEngine engine)
    (as : List Device.Act) (d : Device)
    (run : Runs Device.step (fun d a => d.reads a = true) (Device.start engine) as d) (r : Nat)
    (completed : (d.engine.tfer r).state = .completed) :
    ∀ i < (d.engine.tfer r).descNum, ((d.engine.tfer r).serial, i) ∈ d.hw.completed := by
  have dinv : DeviceInv d := by
    refine run.invariant (P := DeviceInv) ?_ (.start fresh)
    intro d a d' dinv ok hstep
    cases a with
    | progress =>
        obtain ⟨-, heq⟩ := Option.ite_none_right_eq_some.mp hstep
        exact Option.some.inj heq ▸ dinv.progress
    | driver a =>
        obtain ⟨channel, hchannel, rfl⟩ := Option.map_eq_some_iff.mp hstep
        exact dinv.driver ok (Channel.moves_of_step hchannel)
  exact dinv.truthful.completed r completed

theorem idleEngine_fresh (dir : Direction) (descIdx : Nat) :
    FreshEngine (idleEngine dir descIdx) :=
  { idleEngine_idle dir descIdx with blank := fun _ => ⟨rfl, rfl⟩ }

/-- A transfer is aborted too early; the interrupt work of that run is late and meets the next
transfer, which the hardware then completes. -/
def lateService : List Device.Act :=
  submitted.map .driver ++ [.driver (.inspect busyReads), .driver .release] ++
    submitted.map .driver ++ [.driver (.service 0 busyReads), .progress,
      .driver (.service 0 { busyReads with statusRc := 6, completedDescCount := 1 })]

theorem completed_after_late_service :
    ∃ d, Runs Device.step (fun d a => d.reads a = true)
        (Device.start (idleEngine .toDevice 0x7ff)) lateService d ∧
      (d.engine.tfer 1).state = .completed ∧ (d.engine.tfer 1).descNum = 1 ∧
      ∀ i < (d.engine.tfer 1).descNum, ((d.engine.tfer 1).serial, i) ∈ d.hw.completed := by
  have h : (exec (guarded Device.step Device.reads)
      (Device.start (idleEngine .toDevice 0x7ff)) lateService).map
        (fun d => ((d.engine.tfer 1).state, (d.engine.tfer 1).descNum)) =
      some (.completed, 1) := by
    decide +kernel
  obtain ⟨d, hexec, hobs⟩ := Option.map_eq_some_iff.mp h
  have hrun := runs_of_guarded hexec
  obtain ⟨hstate, hdesc⟩ := Prod.mk.inj hobs
  exact ⟨d, hrun, hstate, hdesc,
    completed_only_by_hardware _ (idleEngine_fresh .toDevice 0x7ff) _ d hrun 1 hstate⟩

end NupaNet.Xdma
