import NupaNet.Xdma.Completion

/-!
# What a failed transfer says about the hardware

`engine_service` fails the transfer at the head of the queue when it finds a
count below `desc_num`, without asking whether the engine is still busy.  In the
hardware's own terms an engine interrupts when it completes a descriptor whose
control word asks for it, when it raises an error bit, or when it stops, and
`transfer_init` asks for an interrupt at the last descriptor only.  So a service
that an interrupt of the current run has scheduled finds the chain completed or
the hardware at fault.  A service that an earlier run has left behind may find a
transfer half done that is making progress, and an error bit that it has left
unread is still there for the next.
-/

namespace NupaNet.Xdma

open NupaNet.Foundation

/-! ## The descriptors that interrupt -/

/-- The bits of a descriptor at which the hardware interrupts. -/
def descFlags : U32 := xdmaDescStopped ||| xdmaDescCompleted

def LastFlagged (chain : List XdmaDesc) : Prop :=
  ∀ i (h : i < chain.length),
    chain[i].control &&& descFlags = if i + 1 = chain.length then descFlags else 0

private theorem getLsbD_descFlags {i : Nat} (h : 2 ≤ i) : descFlags.getLsbD i = false := by
  have hlt : 3 < 2 ^ i := Nat.lt_of_lt_of_le (by decide) (Nat.pow_le_pow_right (by decide) h)
  rw [show descFlags = BitVec.ofNat 32 3 from rfl, BitVec.getLsbD_ofNat,
    Nat.testBit_lt_two_pow hlt, Bool.and_false]

private theorem xdmaDescAdjacent_flags (desc : XdmaDesc) (nextAdjacent : U32) :
    (xdmaDescAdjacent desc nextAdjacent).control &&& descFlags = desc.control &&& descFlags := by
  apply BitVec.eq_of_getLsbD_eq
  intro i _
  by_cases hlow : i < 2
  · have hcases : i = 0 ∨ i = 1 := by omega
    rcases hcases with rfl | rfl <;>
      simp [xdmaDescAdjacent, descFlags, xdmaDescStopped, xdmaDescCompleted]
  · simp [getLsbD_descFlags (Nat.le_of_not_lt hlow)]

private theorem xdmaDescSet_control (desc : XdmaDesc) (host endpoint : U64) (len : U32)
    (dir : Direction) : (xdmaDescSet desc host endpoint len dir).control = desc.control := by
  cases dir <;> rfl

section Kept

variable {γ : Type*} {field : XdmaDesc → γ}
  (set : ∀ desc host endpoint len dir, field (xdmaDescSet desc host endpoint len dir) = field desc)
  (src : ∀ (desc : XdmaDesc) lo hi,
    field { desc with srcAddrLo := lo, srcAddrHi := hi } = field desc)

include set src

private theorem buildStep_kept (engine : XdmaEngine) (descVirt j : Nat) (build : Build)
    (sdesc : Extent) (k : Nat) :
    field ((buildStep engine descVirt j build sdesc).desc k) = field (build.desc k) := by
  simp only [buildStep]
  by_cases hk : k = descVirt + j
  · subst hk
    split
    · simp only [modifyAt_same]
      rw [src, set]
    · simp only [modifyAt_same]
      rw [set]
  · split <;> simp only [modifyAt_ne hk]

theorem transferBuild_kept (engine : XdmaEngine) (descVirt j : Nat) (build : Build)
    (sdescs : List Extent) (k : Nat) :
    field ((transferBuild engine descVirt j build sdescs).desc k) = field (build.desc k) := by
  induction sdescs generalizing j build with
  | nil => rfl
  | cons sdesc rest ih =>
      unfold transferBuild
      rw [ih, buildStep_kept set src]

end Kept

theorem transferBuild_control (engine : XdmaEngine) (descVirt j : Nat) (build : Build)
    (sdescs : List Extent) (k : Nat) :
    ((transferBuild engine descVirt j build sdescs).desc k).control = (build.desc k).control :=
  transferBuild_kept xdmaDescSet_control (fun _ _ _ => rfl) engine descVirt j build sdescs k

theorem transferDescInit_control (desc : Nat → XdmaDesc) (descVirt : Nat) (descBus : U64)
    {count i : Nat} (h : i < count) :
    (transferDescInit desc descVirt descBus count (descVirt + i)).control = descMagic := by
  unfold transferDescInit
  by_cases hlast : i = count - 1
  · subst hlast
    rw [modifyAt_same]
  · rw [modifyAt_ne (by omega), modifyRange_inside (by omega)]

/-- Without flush on end-of-packet, `transfer_init` asks for one interrupt, at the end. -/
private theorem transferInit_lastFlagged {engine : XdmaEngine} (flush : engine.eopFlush = false)
    (req : XdmaRequestCb) :
    LastFlagged (transferDescs (transferInit engine req).1 (transferInit engine req).2.2) := by
  intro i hi
  have hlt : i < transferCount engine req := by simpa [transferDescs, transferInit] using hi
  simp only [transferDescs, transferInit, List.getElem_map, List.getElem_range, List.length_map,
    List.length_range, flush, Bool.false_eq_true, if_false]
  rw [modifyRange_inside hlt, setAdjacent, xdmaDescAdjacent_flags]
  by_cases hlast : i + 1 = transferCount engine req
  · rw [if_pos hlast, show transferCount engine req - 1 = i by omega, modifyAt_same,
      xdmaDescControlSet, if_neg (by decide)]
    simp only [transferBuild_control, transferDescInit_control _ _ _ hlt]
    decide
  · rw [if_neg hlast, modifyAt_ne (by omega), transferBuild_control,
      transferDescInit_control _ _ _ hlt]
    decide

/-! ## The engine, its interrupts and its work -/

/-- The hardware has the chain of its run, BUSY and the error bits of its status; `request` is an
interrupt that it has asserted and `queued` the work item that a handler has scheduled, each with
the number of the run it was raised in.  `excused` is the history of transfers in whose run an
error bit rose or BUSY fell before the last descriptor, `cutShort` that of transfers under which a
service stopped the engine with descriptors left; no code reads them. -/
structure Wired where
  device : Device
  chain : List XdmaDesc
  busy : Bool
  error : Bool
  request : Option Nat
  queued : Option Nat
  excused : List Nat
  cutShort : List Nat

namespace Wired

def engine (w : Wired) : XdmaEngine := w.device.engine

def starts (w : Wired) : Nat := w.engine.regs.starts

def startedFor (w : Wired) : Nat := w.engine.regs.startedFor

/-- The descriptors that the hardware finds behind the first-descriptor registers. -/
def headChain (engine : XdmaEngine) : List XdmaDesc :=
  match engine.transferList with
  | [] => []
  | head :: _ => transferDescs engine (engine.tfer head)

/-- What the hardware makes of a step of the driver: it begins a run when RUN is set, with the
error bits it still has, and is idle once RUN is cleared. -/
def follow (w : Wired) (device : Device) : Wired :=
  if device.engine.regs.starts = w.starts then
    { w with
      device
      busy := w.busy && decide device.engine.RunSet }
  else
    { w with
      device
      chain := headChain device.engine
      busy := true }

/-- A fault of the hardware with descriptors left excuses the transfer of the run. -/
def blamed (w : Wired) : List Nat :=
  if w.device.hw.count < w.chain.length then w.startedFor :: w.excused else w.excused

inductive Act
  | progress
  | error
  | idle
  | stopped
  | irq
  | work (reads : Reads)
  | driver (a : Xdma.Act)

def step (w : Wired) : Act → Option Wired
  | .progress =>
      match w.chain[w.device.hw.count]? with
      | none => none
      | some desc =>
          if w.busy then
            (w.device.step .progress).map fun device =>
              { w with
                device
                busy := decide (desc.control &&& xdmaDescStopped = 0)
                request := if desc.control &&& descFlags ≠ 0 then some w.starts else w.request }
          else none
  | .error =>
      if w.engine.RunSet then
        some { w with error := true, request := some w.starts, excused := w.blamed }
      else none
  | .idle =>
      if w.engine.RunSet ∧ w.busy then
        some { w with busy := false, request := some w.starts, excused := w.blamed }
      else none
  | .stopped => if w.engine.RunSet then none else some { w with request := some w.starts }
  | .irq => w.request.map fun run => { w with request := none, queued := some run }
  | .work reads =>
      if w.queued.isSome then
        (w.device.step (.driver (.service 0 reads))).map fun device =>
          { w.follow device with
            error := w.error && decide (reads.statusRc &&& xdmaStatErrMask w.engine.dir = 0)
            queued := none
            cutShort :=
              if w.engine.running ∧ device.engine.running = false ∧
                  w.device.hw.count < w.chain.length then
                w.startedFor :: w.cutShort
              else w.cutShort }
      else none
  | .driver a => (w.device.step (.driver a)).map w.follow

/-- A service reads the hardware's count; its status is as old or older, so BUSY may have fallen
and an error bit risen since.  The identifier is valid, and services come from the work. -/
def reads (w : Wired) : Act → Bool
  | .work reads =>
      reads.completedDescCount = BitVec.ofNat 32 w.device.hw.count ∧
        (reads.statusRc &&& xdmaStatBusy = 0 → w.busy = false) ∧
        (reads.statusRc &&& xdmaStatErrMask w.engine.dir ≠ 0 → w.error = true)
  | .driver (.service _ _) => false
  | .driver (.inspect reads) => engineRegDump reads.identifier
  | _ => true

/-- A service that meets a running engine with descriptors completed comes after a fault in its
run, or reads no error bit and was scheduled by an interrupt of its run or finds every descriptor
of the transfer completed. -/
def serviceDue (w : Wired) : Act → Bool
  | .work reads =>
      w.engine.running = false ∨ w.device.hw.count = 0 ∨ w.startedFor ∈ w.excused ∨
        reads.statusRc &&& xdmaStatErrMask w.engine.dir = 0 ∧
          (w.queued = some w.starts ∨ w.device.channel.xfer.descNum ≤ w.device.hw.count)
  | _ => true

def start (engine : XdmaEngine) : Wired where
  device := Device.start engine
  chain := []
  busy := false
  error := false
  request := none
  queued := none
  excused := []
  cutShort := []

end Wired

/-! ## What a service of the interrupt work finds -/

section Service

variable {engine : XdmaEngine} {r : Nat} {reads : Reads}

private theorem engineServiceStatus_zero (pollMode : Bool) (running : engine.running = true) :
    engineServiceStatus pollMode engine 0 reads =
      if reads.statusRc &&& xdmaStatBusy = 0 then
        xdmaEngineStop pollMode { engine with status := reads.statusRc }
      else { engine with status := reads.statusRc } := by
  simp [engineServiceStatus, running]

private theorem engineServiceStatus_zero_status (pollMode : Bool) (running : engine.running = true)
    (reads : Reads) :
    (engineServiceStatus pollMode engine 0 reads).status = reads.statusRc ∧
      (engineServiceStatus pollMode engine 0 reads).dir = engine.dir := by
  rw [engineServiceStatus_zero pollMode running]
  split <;> exact ⟨rfl, rfl⟩

private theorem engineService_waits_stop (pollMode : Bool) (running : engine.running = true)
    (none_done : reads.completedDescCount = 0) :
    (engineService pollMode engine 0 reads).running = false ∧
        reads.statusRc &&& xdmaStatBusy = 0 ∨
      (engineService pollMode engine 0 reads).running = true ∧
        (engineService pollMode engine 0 reads).regs = engine.regs := by
  have hcount : serviceCount 0 reads = 0 := by
    rw [serviceCount, if_pos (by decide), none_done]
  rw [engineService, if_neg (by simp [running])]
  simp only [hcount, if_true, engineServiceStatus_zero pollMode running]
  split
  · next hidle => exact .inl ⟨rfl, hidle⟩
  · exact .inr ⟨running, rfl⟩

private theorem serviceTransfers_failed_iff (pollMode : Bool) (list : engine.transferList = [r])
    (flush : engine.eopFlush = false) {descCompleted : U32} (eopSeen : Bool)
    (within : descCompleted ≤ (engine.tfer r).descNum32) :
    ((engineServiceFinalTransfer pollMode
        (engineServiceTransferList engine.transferList engine descCompleted).1
        (engineServiceTransferList engine.transferList engine descCompleted).2 eopSeen).tfer
      r).state = .failed ↔
      engine.status &&& xdmaStatErrMask engine.dir ≠ 0 ∨
        descCompleted < (engine.tfer r).descNum32 := by
  rw [list]
  unfold engineServiceTransferList
  rw [if_neg fun hpassed => BitVec.not_lt.mpr within hpassed.2]
  unfold engineServiceFinalTransfer
  simp only [flush, Bool.false_eq_true, if_false]
  by_cases herror : engine.status &&& xdmaStatErrMask engine.dir ≠ 0
  · rw [if_pos herror]
    simp only [engineErrHandle, xdmaEngineStop, setTransfer, Function.update_self, true_iff]
    exact .inl herror
  · rw [if_neg herror]
    by_cases hshort : descCompleted < (engine.tfer r).descNum32
    · simp only [if_pos hshort, setTransfer, Function.update_self, true_iff]
      exact .inr hshort
    · simp only [if_neg hshort, setTransfer, Function.update_self, reduceCtorEq, false_iff]
      exact not_or.mpr ⟨herror, hshort⟩

private theorem engineServiceResume_tfer (pollMode : Bool) (empty : engine.transferList = [])
    (status : U32) : (engineServiceResume pollMode engine status).tfer = engine.tfer := by
  unfold engineServiceResume
  split
  · rw [if_neg (not_not.mpr empty)]
    split <;> rfl
  · rfl

/-- A service fails the transfer on an error bit, and on a count below its descriptors. -/
private theorem engineService_failed_iff (pollMode : Bool) (running : engine.running = true)
    (list : engine.transferList = [r]) (flush : engine.eopFlush = false)
    (some_done : serviceCount 0 reads ≠ 0)
    (within : serviceCount 0 reads - engine.descDequeued ≤ (engine.tfer r).descNum32) :
    ((engineService pollMode engine 0 reads).tfer r).state = .failed ↔
      reads.statusRc &&& xdmaStatErrMask engine.dir ≠ 0 ∨
        serviceCount 0 reads - engine.descDequeued < (engine.tfer r).descNum32 := by
  have hstatus := engineServiceStatus_undisturbed pollMode engine 0 reads
  obtain ⟨hread, hdir⟩ := engineServiceStatus_zero_status pollMode running reads
  have hlist := hstatus.list.trans list
  have hflush := hstatus.flush.trans flush
  have hemptied := serviceTransfers_emptied pollMode hlist hflush
    (serviceCount 0 reads - engine.descDequeued) reads.eopSeen
  have hfailed := serviceTransfers_failed_iff pollMode hlist hflush reads.eopSeen
    (by rw [hstatus.tfer]; exact within)
  rw [hread, hdir, hstatus.tfer] at hfailed
  rw [engineService, if_neg (by simp [running])]
  simp only [some_done, if_false, hstatus.dequeued]
  rw [if_neg (by rw [hemptied.flush, hflush]; decide),
    engineServiceResume_tfer pollMode hemptied.list]
  exact hfailed

end Service

private theorem transferQueue_begins (pollMode : Bool) {engine : XdmaEngine} (r : Nat)
    (admitted : engine.shutdown.request = false) (list : engine.transferList = [])
    (idle : engine.running = false) (status : U32) :
    (transferQueue pollMode engine r status).1.RunSet ∧
      Wired.headChain (transferQueue pollMode engine r status).1 =
        transferDescs engine (engine.tfer r) := by
  rw [transferQueue, if_neg (by simp [admitted])]
  simp only [setTransfer, idle, Bool.false_eq_true, if_false]
  constructor
  · simp only [XdmaEngine.RunSet, engineStart, Bool.false_eq_true, if_false, list,
      List.nil_append, Option.getD_some]
    cases pollMode <;> cases engine.nonIncrAddr <;> decide
  · simp [Wired.headChain, engineStart, list, transferDescs]

private theorem engineOnline_runSet {engine : XdmaEngine} (set : engine.RunSet) :
    (engineOnline engine).RunSet := by
  have hmask : ~~~xdmaCtrlNonIncrAddr &&& xdmaCtrlRunStop = xdmaCtrlRunStop := by decide
  rw [XdmaEngine.RunSet, engineOnline, BitVec.and_assoc, hmask]
  exact set

/-! ## The invariant -/

namespace Wired

def Over (w : Wired) : Prop := w.chain.length ≤ w.device.hw.count ∨ w.startedFor ∈ w.excused

structure Live (w : Wired) : Prop where
  run : w.engine.RunSet
  length : w.chain.length = w.device.channel.xfer.descNum
  flagged : LastFlagged w.chain
  within : w.device.hw.count ≤ w.chain.length
  busy : w.busy = true → w.device.hw.count < w.chain.length
  idle : w.busy = false → w.Over
  request : w.request = some w.starts → w.Over
  queued : w.queued = some w.starts → w.Over

/-- No transfer has failed, and none was cut short, that the hardware does not excuse. -/
structure Excused (w : Wired) : Prop where
  failed : ∀ r, (w.engine.tfer r).state = .failed → (w.engine.tfer r).serial ∈ w.excused
  cutShort : ∀ serial ∈ w.cutShort, serial ∈ w.excused

structure Inv (w : Wired) : Prop where
  dinv : DeviceInv w.device
  built : w.device.channel.phase = .built ∨ w.device.channel.phase = .admitted →
    LastFlagged (transferDescs w.engine w.device.channel.xfer)
  live : w.engine.running = true → Live w
  request : ∀ run, w.request = some run → run ≤ w.starts
  queued : ∀ run, w.queued = some run → run ≤ w.starts
  excused : Excused w

theorem inv_start {engine : XdmaEngine} (fresh : FreshEngine engine) : Inv (start engine) where
  dinv := .start fresh
  built := by simp [start, Device.start, Channel.start]
  live h := by
    have hidle : (start engine).engine.running = false := fresh.idle
    cases hidle.symm.trans h
  request := nofun
  queued := nofun
  excused :=
    { failed := fun r hr => by
        have hnew := (fresh.blank r).1
        change (engine.tfer r).state = .failed at hr
        simp [hnew] at hr
      cutShort := nofun }

private theorem excused_follow (w : Wired) (d : Device) : (w.follow d).excused = w.excused := by
  unfold follow
  split <;> rfl

private theorem subset_blamed (w : Wired) : w.excused ⊆ w.blamed := by
  intro serial hserial
  unfold blamed
  split
  · exact List.mem_cons_of_mem _ hserial
  · exact hserial

private theorem over_blamed (w : Wired) :
    w.chain.length ≤ w.device.hw.count ∨ w.startedFor ∈ w.blamed := by
  by_cases hleft : w.device.hw.count < w.chain.length
  · refine .inr ?_
    rw [blamed, if_pos hleft]
    exact List.mem_cons_self
  · exact .inl (Nat.le_of_not_lt hleft)

/-! ### The driver -/

structure Keeps (d d' : Device) : Prop where
  starts : d'.engine.regs.starts = d.engine.regs.starts
  startedFor : d'.engine.regs.startedFor = d.engine.regs.startedFor
  count : d'.hw.count = d.hw.count
  live : d'.engine.running = true → d.engine.running = true ∧
    (d.engine.RunSet → d'.engine.RunSet) ∧ d'.channel.xfer.descNum = d.channel.xfer.descNum

private theorem Keeps.of_starts {d : Device} {channel : Channel}
    (starts : channel.engine.regs.starts = d.engine.regs.starts)
    (startedFor : channel.engine.regs.startedFor = d.engine.regs.startedFor)
    (live : channel.engine.running = true → d.engine.running = true ∧
      (d.engine.RunSet → channel.engine.RunSet) ∧ channel.xfer.descNum = d.channel.xfer.descNum) :
    Keeps d { channel, hw := d.hw.after d.engine channel.engine } where
  starts := starts
  startedFor := startedFor
  count := by rw [Hardware.after, if_pos starts]
  live := live

namespace Inv

variable {w : Wired}

theorem keeps (inv : Inv w) {d : Device} (keeps : Keeps w.device d) (dinv : DeviceInv d)
    (built : d.channel.phase = .built ∨ d.channel.phase = .admitted →
      LastFlagged (transferDescs d.engine d.channel.xfer))
    (failed : ∀ r, (d.engine.tfer r).state = .failed → (d.engine.tfer r).serial ∈ w.excused) :
    Inv (w.follow d) := by
  have hfollow : w.follow d =
      { w with device := d, busy := w.busy && decide d.engine.RunSet } := if_pos keeps.starts
  have hover : w.Over → Over { w with device := d, busy := w.busy && decide d.engine.RunSet } := by
    rintro (hthrough | hexcused)
    · exact .inl (keeps.count ▸ hthrough)
    · refine .inr ?_
      change d.engine.regs.startedFor ∈ w.excused
      rw [keeps.startedFor]
      exact hexcused
  rw [hfollow]
  refine ⟨dinv, built, fun hrunning => ?_, ?_, ?_, ⟨failed, inv.excused.cutShort⟩⟩
  · obtain ⟨hwas, hrun, hdesc⟩ := keeps.live hrunning
    have hlive := inv.live hwas
    have hset : d.engine.RunSet := hrun hlive.run
    exact
      { run := hset
        length := hlive.length.trans hdesc.symm
        flagged := hlive.flagged
        within := keeps.count ▸ hlive.within
        busy := fun hbusy => by
          have hbusy' : w.busy = true := by simpa [hset] using hbusy
          exact keeps.count ▸ hlive.busy hbusy'
        idle := fun hidle => hover (hlive.idle (by simpa [hset] using hidle))
        request := fun hrequest =>
          hover (hlive.request (hrequest.trans (congrArg some keeps.starts)))
        queued := fun hqueued =>
          hover (hlive.queued (hqueued.trans (congrArg some keeps.starts))) }
  · intro run hrun
    exact (inv.request run hrun).trans (Nat.le_of_eq keeps.starts.symm)
  · intro run hrun
    exact (inv.queued run hrun).trans (Nat.le_of_eq keeps.starts.symm)

theorem begins (inv : Inv w) {d : Device} (dinv : DeviceInv d)
    (starts : d.engine.regs.starts = w.starts + 1) (count : d.hw.count = 0)
    (set : d.engine.RunSet) (queued : d.channel.phase = .queued)
    (length : (headChain d.engine).length = d.channel.xfer.descNum)
    (flagged : LastFlagged (headChain d.engine))
    (failed : ∀ r, (d.engine.tfer r).state = .failed → (d.engine.tfer r).serial ∈ w.excused) :
    Inv (w.follow d) := by
  have hne : d.engine.regs.starts ≠ w.starts := by omega
  have hpos : 0 < (headChain d.engine).length := by
    rw [length]
    exact Nat.pos_of_ne_zero (dinv.inv.descNum (.inr queued))
  have hfollow : w.follow d =
      { w with device := d, chain := headChain d.engine, busy := true } := if_neg hne
  have hnew (run : Nat) (hle : run ≤ w.starts) : run ≠ d.engine.regs.starts := by omega
  refine
    { dinv := by rw [hfollow]; exact dinv
      built := by rw [hfollow]; simp [queued]
      live := fun _ => ?_
      request := fun run hrun => ?_
      queued := fun run hrun => ?_
      excused := by rw [hfollow]; exact ⟨failed, inv.excused.cutShort⟩ }
  · rw [hfollow]
    exact
      { run := set
        length := length
        flagged := flagged
        within := count ▸ Nat.zero_le _
        busy := fun _ => by
          change d.hw.count < _
          rw [count]
          exact hpos
        idle := nofun
        request := fun hrequest => absurd rfl (hnew _ (inv.request _ hrequest))
        queued := fun hqueued => absurd rfl (hnew _ (inv.queued _ hqueued)) }
  · rw [hfollow] at hrun ⊢
    exact (inv.request run hrun).trans (by change w.starts ≤ d.engine.regs.starts; omega)
  · rw [hfollow] at hrun ⊢
    exact (inv.queued run hrun).trans (by change w.starts ≤ d.engine.regs.starts; omega)

private theorem not_running (inv : Inv w) (phase : w.device.channel.phase ≠ .queued) :
    w.device.channel.engine.running = false :=
  (inv.dinv.inv.quiet phase).2

private theorem keeps_idle (inv : Inv w) {channel : Channel}
    (dinv : DeviceInv { channel, hw := w.device.hw.after w.engine channel.engine })
    (starts : channel.engine.regs.starts = w.starts)
    (startedFor : channel.engine.regs.startedFor = w.startedFor)
    (idle : channel.engine.running = false)
    (built : channel.phase = .built ∨ channel.phase = .admitted →
      LastFlagged (transferDescs channel.engine channel.xfer))
    (failed : ∀ r, (channel.engine.tfer r).state = .failed →
      (channel.engine.tfer r).serial ∈ w.excused) :
    Inv (w.follow { channel, hw := w.device.hw.after w.engine channel.engine }) := by
  refine inv.keeps (.of_starts starts startedFor fun hrunning => ?_) dinv built failed
  cases idle.symm.trans hrunning

private theorem failed_update (inv : Inv w) {engine : XdmaEngine} {r : Nat}
    {transfer : XdmaTransfer}
    (tfer : engine.tfer = Function.update w.engine.tfer r transfer)
    (state : transfer.state ≠ .failed) (k : Nat) (failed : (engine.tfer k).state = .failed) :
    (engine.tfer k).serial ∈ w.excused := by
  rw [tfer] at failed ⊢
  by_cases hk : k = r
  · subst hk
    rw [Function.update_self] at failed
    exact absurd failed state
  · rw [Function.update_of_ne hk] at failed ⊢
    exact inv.excused.failed k failed

private theorem failed_undisturbed (inv : Inv w) {engine : XdmaEngine}
    (undisturbed : Undisturbed w.engine engine) (k : Nat)
    (failed : (engine.tfer k).state = .failed) : (engine.tfer k).serial ∈ w.excused := by
  rw [undisturbed.tfer] at failed ⊢
  exact inv.excused.failed k failed

theorem queue (inv : Inv w) (admitted : w.device.channel.phase = .admitted) (status : U32)
    (dinv : DeviceInv
      { channel := w.device.channel.afterQueue false status
        hw := w.device.hw.after w.engine (w.device.channel.afterQueue false status).engine }) :
    Inv (w.follow
      { channel := w.device.channel.afterQueue false status
        hw := w.device.hw.after w.engine (w.device.channel.afterQueue false status).engine }) := by
  obtain ⟨hlist, hidle⟩ := inv.dinv.inv.quiet (by simp [admitted])
  cases hshut : w.device.channel.engine.shutdown.request with
  | true =>
      have hrefuse : w.device.channel.afterQueue false status = w.device.channel.refuse := by
        rw [Channel.afterQueue, transferQueue_refuses false w.device.channel.request hshut]
        rfl
      rw [hrefuse] at dinv ⊢
      refine inv.keeps_idle dinv rfl rfl hidle (fun hphase => ?_) inv.excused.failed
      rcases hphase with hphase | hphase <;> cases hphase
  | false =>
      obtain ⟨hstarted, hrv⟩ :=
        transferQueue_starts false w.device.channel.request hshut hlist hidle status
      obtain ⟨hset, hchain⟩ :=
        transferQueue_begins false w.device.channel.request hshut hlist hidle status
      have hafter : w.device.channel.afterQueue false status =
          { w.device.channel.withEngine
              (transferQueue false w.device.channel.engine w.device.channel.request status).1 with
            phase := .queued, served := false } := by
        rw [Channel.afterQueue, if_neg (by simp [hrv])]
      rw [hafter] at dinv ⊢
      have hdesc : (Channel.xfer
          { w.device.channel.withEngine
              (transferQueue false w.device.channel.engine w.device.channel.request status).1 with
            phase := .queued, served := false }).descNum = w.device.channel.xfer.descNum := by
        change ((transferQueue false w.device.channel.engine w.device.channel.request
          status).1.tfer w.device.channel.request).descNum = _
        rw [hstarted.tfer, Function.update_self]
        rfl
      apply inv.begins dinv hstarted.starts ?_ hset rfl
      · rw [hdesc]
        exact (congrArg List.length hchain).trans (by simp [transferDescs, Channel.xfer])
      · have hbuilt := inv.built (.inr admitted)
        exact hchain ▸ hbuilt
      · exact inv.failed_update hstarted.tfer (by simp)
      · refine if_neg fun hsame => ?_
        have hnext := hstarted.starts
        exact Nat.succ_ne_self _ (hnext.symm.trans hsame)

theorem driver (inv : Inv w) {a : Xdma.Act} (reads : w.reads (.driver a) = true)
    {channel : Channel} (move : Channel.Moves false w.device.channel a channel) :
    Inv (w.follow { channel, hw := w.device.hw.after w.engine channel.engine }) := by
  have hreads : w.device.reads (.driver a) = true := by
    cases a with
    | service => cases reads
    | inspect => exact reads
    | _ => rfl
  have dinv := inv.dinv.driver hreads move
  have hfailed := inv.excused.failed
  cases move with
  | enter free =>
      exact inv.keeps_idle dinv rfl rfl (inv.not_running (by simp [free])) nofun hfailed
  | build top =>
      have htfer : w.device.channel.afterBuild.engine.tfer = Function.update w.engine.tfer
          w.device.channel.request
          { w.device.channel.submit.build.2 with serial := w.device.channel.serials } := rfl
      refine inv.keeps_idle dinv rfl rfl (inv.not_running (by simp [top])) (fun _ => ?_)
        (inv.failed_update htfer nofun)
      have hxfer : w.device.channel.afterBuild.xfer =
          { w.device.channel.submit.build.2 with serial := w.device.channel.serials } := by
        rw [Channel.xfer, htfer]
        exact Function.update_self ..
      rw [hxfer]
      exact transferInit_lastFlagged inv.dinv.inv.flush w.device.channel.submit.req
  | finish top =>
      exact inv.keeps_idle dinv rfl rfl (inv.not_running (by simp [top])) nofun hfailed
  | refuse built =>
      exact inv.keeps_idle dinv rfl rfl (inv.not_running (by simp [built])) nofun hfailed
  | check built =>
      refine inv.keeps_idle dinv rfl rfl (inv.not_running (by simp [built])) (fun _ => ?_) hfailed
      exact inv.built (.inl built)
  | queue admitted => exact inv.queue admitted _ dinv
  | @inspect regs queued =>
      rcases inv.dinv.inv.queued queued with hpending | hdecided
      · obtain ⟨haborted, -⟩ := inspectTransfer_aborts false hpending.state hpending.list
          (inv.dinv.inv.descNum (.inr queued)) reads
        exact inv.keeps_idle dinv haborted.starts haborted.startedFor haborted.stopped nofun
          (inv.failed_update haborted.tfer nofun)
      · have hsame : (inspectTransfer false w.device.channel.engine w.device.channel.request
            regs).1 = w.device.channel.engine := by
          rcases hdecided.state with hstate | hstate
          · rw [inspectTransfer_completed false regs hstate]
          · rw [inspectTransfer_failed false regs hstate]
        have hengine : (w.device.channel.afterInspect false regs).engine = w.engine := hsame
        refine inv.keeps_idle dinv ?_ ?_ ?_ nofun ?_
        · rw [hengine]
          rfl
        · rw [hengine]
          rfl
        · rw [hengine]
          exact hdecided.idle
        · rw [hengine]
          exact hfailed
  | @release outcome settled =>
      have hsettled := w.device.channel.afterRelease_undisturbed outcome
      have hidle := hsettled.idle (inv.not_running (by simp [settled]))
      refine inv.keeps_idle dinv hsettled.starts hsettled.startedFor hidle ?_
        (inv.failed_undisturbed hsettled)
      rcases w.device.channel.afterRelease_phase outcome with h | h <;> simp [h]
  | service => cases reads
  | offlineFlag | onlineFlag =>
      exact inv.keeps (.of_starts rfl rfl fun h => ⟨h, id, rfl⟩) dinv inv.built hfailed
  | offlineEngine => exact inv.keeps_idle dinv rfl rfl rfl inv.built hfailed
  | onlineEngine =>
      refine inv.keeps (.of_starts rfl rfl fun h => ⟨h, fun hset => ?_, rfl⟩) dinv inv.built hfailed
      exact engineOnline_runSet hset

/-! ### The work -/

private theorem of_work (inv : Inv w) {error : Bool} {cutShort : List Nat}
    (hcut : ∀ serial ∈ cutShort, serial ∈ w.excused) :
    Inv { w with error, queued := none, cutShort } :=
  { inv with
    live := fun hrunning => { inv.live hrunning with queued := nofun }
    queued := nofun
    excused := ⟨inv.excused.failed, hcut⟩ }

private theorem due_excused (inv : Inv w) (running : w.engine.running = true) {reads : Reads}
    (due : w.serviceDue (.work reads) = true) (some_done : w.device.hw.count ≠ 0)
    (fails : reads.statusRc &&& xdmaStatErrMask w.engine.dir ≠ 0 ∨
      w.device.hw.count < w.chain.length) : w.startedFor ∈ w.excused := by
  have hlive := inv.live running
  rcases of_decide_eq_true due with hidle | hzero | hexcused | ⟨hclean, hwhy⟩
  · cases hidle.symm.trans running
  · exact absurd hzero some_done
  · exact hexcused
  · have hleft := fails.resolve_left (not_not.mpr hclean)
    rcases hwhy with hqueued | hall
    · exact (hlive.queued hqueued).resolve_left (Nat.not_le_of_lt hleft)
    · rw [← hlive.length] at hall
      exact absurd hall (Nat.not_le_of_lt hleft)

def serviced (w : Wired) (reads : Reads) : Device where
  channel := w.device.channel.afterService false 0 reads
  hw := w.device.hw.after w.engine (w.device.channel.afterService false 0 reads).engine

private theorem step_work {reads : Reads} {w' : Wired} (h : w.step (.work reads) = some w') :
    w' = { w.follow (serviced w reads) with
      error := w.error && decide (reads.statusRc &&& xdmaStatErrMask w.engine.dir = 0)
      queued := none
      cutShort :=
        if w.engine.running ∧ (serviced w reads).engine.running = false ∧
            w.device.hw.count < w.chain.length then
          w.startedFor :: w.cutShort
        else w.cutShort } := by
  obtain ⟨-, hmap⟩ := Option.ite_none_right_eq_some.mp h
  obtain ⟨device, hdevice, rfl⟩ := Option.map_eq_some_iff.mp hmap
  obtain rfl : serviced w reads = device := Option.some.inj hdevice
  rfl

private theorem work_waits (inv : Inv w) (running : w.engine.running = true) {reads : Reads}
    (dinv : DeviceInv (serviced w reads))
    (busy : reads.statusRc &&& xdmaStatBusy = 0 → w.busy = false)
    (none_done : reads.completedDescCount = 0) :
    Inv (w.follow (serviced w reads)) ∧
      ((serviced w reads).engine.running = false → w.device.hw.count < w.chain.length →
        w.startedFor ∈ w.excused) := by
  have hcount : serviceCount 0 reads = 0 := by
    rw [serviceCount, if_pos (by decide), none_done]
  have hsame : Undisturbed w.engine (serviced w reads).engine := engineService_waits false hcount
  have hstop := engineService_waits_stop false running none_done
  obtain ⟨hqueued, -⟩ := inv.dinv.inv.pending_of_running running
  constructor
  · refine inv.keeps (.of_starts hsame.starts hsame.startedFor fun hstill => ?_) dinv ?_
      (inv.failed_undisturbed hsame)
    · refine ⟨running, fun hset => ?_, ?_⟩
      · rcases hstop with ⟨hstopped, -⟩ | ⟨-, hregs⟩
        · cases hstopped.symm.trans hstill
        · have hcontrol : (serviced w reads).engine.regs = w.engine.regs := hregs
          rw [XdmaEngine.RunSet] at hset ⊢
          exact hcontrol ▸ hset
      · exact congrArg XdmaTransfer.descNum (congrFun hsame.tfer w.device.channel.request)
    · rintro (hphase | hphase)
      · cases hqueued.symm.trans hphase
      · cases hqueued.symm.trans hphase
  · intro hstopped hleft
    rcases hstop with ⟨-, hidle⟩ | ⟨hstill, -⟩
    · exact ((inv.live running).idle (busy hidle)).resolve_left (Nat.not_le_of_lt hleft)
    · cases hstopped.symm.trans hstill

private theorem serviced_failed_iff (inv : Inv w) (running : w.engine.running = true)
    {reads : Reads}
    (count : reads.completedDescCount = BitVec.ofNat 32 w.device.hw.count)
    (some_done : w.device.hw.count ≠ 0) :
    serviceCount 0 reads ≠ 0 ∧
      (((serviced w reads).engine.tfer w.device.channel.request).state = .failed ↔
        reads.statusRc &&& xdmaStatErrMask w.engine.dir ≠ 0 ∨
          w.device.hw.count < w.chain.length) := by
  obtain ⟨hqueued, hpending⟩ := inv.dinv.inv.pending_of_running running
  obtain ⟨hdequeued, -⟩ := inv.dinv.owned hqueued running
  have hlive := inv.live running
  have hdesc : w.chain.length = (w.engine.tfer w.device.channel.request).descNum := hlive.length
  have hsmall : (w.engine.tfer w.device.channel.request).descNum < 2 ^ 32 :=
    inv.dinv.truthful.small w.device.channel.request
  have hwithin := hlive.within
  have hzero : w.engine.descDequeued = 0#32 := hdequeued
  have hcount : serviceCount 0 reads = BitVec.ofNat 32 w.device.hw.count := by
    rw [serviceCount, if_pos (by decide), count]
  have hdone : (BitVec.ofNat 32 w.device.hw.count).toNat = w.device.hw.count := by
    rw [BitVec.toNat_ofNat, Nat.mod_eq_of_lt (by omega)]
  have hnum : ((w.engine.tfer w.device.channel.request).descNum32).toNat = w.chain.length := by
    rw [XdmaTransfer.descNum32, BitVec.toNat_ofNat, Nat.mod_eq_of_lt hsmall, hdesc]
  have hservice : serviceCount 0 reads ≠ 0 := by
    rw [hcount]
    intro hnone
    have hnat := congrArg BitVec.toNat hnone
    rw [hdone] at hnat
    exact some_done hnat
  refine ⟨hservice, ?_⟩
  have hiff := engineService_failed_iff false running hpending.list
    inv.dinv.inv.flush hservice (by
      rw [hcount]
      rw [hzero, BitVec.sub_zero, BitVec.le_def, hdone, hnum]
      exact hwithin)
  rw [hcount] at hiff
  change _ ↔ _ ∨ _ - w.engine.descDequeued <
    (w.engine.tfer w.device.channel.request).descNum32 at hiff
  rw [hzero, BitVec.sub_zero, BitVec.lt_def, hdone, hnum] at hiff
  exact hiff

private theorem serviced_serial (inv : Inv w) (running : w.engine.running = true) {reads : Reads}
    (some_done : serviceCount 0 reads ≠ 0) :
    ((serviced w reads).engine.tfer w.device.channel.request).serial = w.startedFor := by
  obtain ⟨hqueued, hpending⟩ := inv.dinv.inv.pending_of_running running
  obtain ⟨-, hserial⟩ := inv.dinv.owned hqueued running
  have hsettled := engineService_settles false running hpending.list inv.dinv.inv.flush some_done
  exact hsettled.serial.trans hserial

private theorem work_settles (inv : Inv w) (running : w.engine.running = true) {reads : Reads}
    (due : w.serviceDue (.work reads) = true) (dinv : DeviceInv (serviced w reads))
    (count : reads.completedDescCount = BitVec.ofNat 32 w.device.hw.count)
    (some_done : w.device.hw.count ≠ 0) :
    Inv (w.follow (serviced w reads)) ∧
      ((serviced w reads).engine.running = false → w.device.hw.count < w.chain.length →
        w.startedFor ∈ w.excused) := by
  obtain ⟨hqueued, hpending⟩ := inv.dinv.inv.pending_of_running running
  obtain ⟨hservice, hfails⟩ := inv.serviced_failed_iff running count some_done
  have hsettled := engineService_settles false running hpending.list inv.dinv.inv.flush hservice
  refine ⟨?_, fun _ hleft => inv.due_excused running due some_done (.inr hleft)⟩
  refine inv.keeps_idle dinv hsettled.starts hsettled.startedFor hsettled.stopped ?_ ?_
  · rintro (hphase | hphase)
    · cases hqueued.symm.trans hphase
    · cases hqueued.symm.trans hphase
  · intro k hk
    by_cases hreq : k = w.device.channel.request
    · subst hreq
      have hexcused := inv.due_excused running due some_done (hfails.mp hk)
      exact inv.serviced_serial running hservice ▸ hexcused
    · have hother : (serviced w reads).engine.tfer k = w.engine.tfer k := hsettled.others k hreq
      change ((serviced w reads).engine.tfer k).state = .failed at hk
      change ((serviced w reads).engine.tfer k).serial ∈ w.excused
      rw [hother] at hk ⊢
      exact inv.excused.failed k hk

private theorem not_due_fails (inv : Inv w) {reads : Reads} (hreads : w.reads (.work reads) = true)
    (undue : ¬ w.serviceDue (.work reads) = true) :
    ∃ r, ((serviced w reads).engine.tfer r).state = .failed ∧
      ((serviced w reads).engine.tfer r).serial ∉ w.excused := by
  obtain ⟨hcount, -⟩ := of_decide_eq_true hreads
  rw [serviceDue, decide_eq_true_iff, not_or, not_or, not_or] at undue
  obtain ⟨hrunning, hsome, hexcused, hwhy⟩ := undue
  rw [Bool.not_eq_false] at hrunning
  obtain ⟨hservice, hfails⟩ := inv.serviced_failed_iff hrunning hcount hsome
  refine ⟨w.device.channel.request, hfails.mpr ?_, ?_⟩
  · by_contra hnot
    rw [not_or, not_not, Nat.not_lt, (inv.live hrunning).length] at hnot
    exact hwhy ⟨hnot.1, .inr hnot.2⟩
  · rwa [inv.serviced_serial hrunning hservice]

theorem work (inv : Inv w) {reads : Reads} (hreads : w.reads (.work reads) = true)
    (due : w.serviceDue (.work reads) = true) (dinv : DeviceInv (serviced w reads)) :
    Inv (w.follow (serviced w reads)) ∧
      (w.engine.running = true → (serviced w reads).engine.running = false →
        w.device.hw.count < w.chain.length → w.startedFor ∈ w.excused) := by
  obtain ⟨hcount, hbusy, -⟩ := of_decide_eq_true hreads
  cases hrunning : w.engine.running with
  | false =>
      have hsame : Undisturbed w.engine (serviced w reads).engine :=
        engineService_idle false hrunning 0 reads
      refine ⟨?_, nofun⟩
      refine inv.keeps_idle dinv hsame.starts hsame.startedFor (hsame.idle hrunning) ?_
        (inv.failed_undisturbed hsame)
      intro hphase
      have hdescs : transferDescs (serviced w reads).engine (serviced w reads).channel.xfer =
          transferDescs w.engine w.device.channel.xfer := by
        have hengine : (serviced w reads).engine =
            { w.device.channel.engine with status := reads.statusRc } := if_pos hrunning
        simp only [transferDescs, Channel.xfer]
        rw [show (serviced w reads).channel.engine = (serviced w reads).engine from rfl, hengine]
        rfl
      exact hdescs ▸ inv.built hphase
  | true =>
      by_cases hnone : w.device.hw.count = 0
      · obtain ⟨hinv, hcut⟩ := inv.work_waits hrunning dinv hbusy (by rw [hcount, hnone]; rfl)
        exact ⟨hinv, fun _ => hcut⟩
      · obtain ⟨hinv, hcut⟩ := inv.work_settles hrunning due dinv hcount hnone
        exact ⟨hinv, fun _ => hcut⟩

/-! ### The hardware -/

theorem progress (inv : Inv w) {desc : XdmaDesc}
    (next : w.chain[w.device.hw.count]? = some desc) {device : Device}
    (hstep : w.device.step .progress = some device) :
    Inv { w with
      device
      busy := decide (desc.control &&& xdmaDescStopped = 0)
      request := if desc.control &&& descFlags ≠ 0 then some w.starts else w.request } := by
  obtain ⟨-, heq⟩ := Option.ite_none_right_eq_some.mp hstep
  cases heq
  obtain ⟨hlt, hdesc⟩ := List.getElem?_eq_some_iff.mp next
  refine ⟨inv.dinv.progress, inv.built, fun hrunning => ?_, fun run hrun => ?_, inv.queued,
    ⟨inv.excused.failed, inv.excused.cutShort⟩⟩
  · have hlive := inv.live hrunning
    have hflags := hlive.flagged w.device.hw.count hlt
    have hstops : desc.control &&& xdmaDescStopped =
        desc.control &&& descFlags &&& xdmaDescStopped := by
      rw [BitVec.and_assoc]
      rfl
    rw [hdesc] at hflags
    have hover : w.Over → w.chain.length ≤ w.device.hw.count + 1 ∨ w.startedFor ∈ w.excused :=
      Or.imp_left fun h => Nat.le_succ_of_le h
    by_cases hlast : w.device.hw.count + 1 = w.chain.length
    · rw [if_pos hlast] at hflags
      have hthrough : w.chain.length ≤ w.device.hw.count + 1 := Nat.le_of_eq hlast.symm
      exact
        { hlive with
          within := hlt
          busy := fun h => by
            rw [hstops, hflags] at h
            cases h
          idle := fun _ => .inl hthrough
          request := fun _ => .inl hthrough
          queued := fun _ => .inl hthrough }
    · rw [if_neg hlast] at hflags
      exact
        { hlive with
          within := hlt
          busy := fun _ => Nat.lt_of_le_of_ne hlt hlast
          idle := fun h => by
            rw [hstops, hflags] at h
            cases h
          request := fun h => by
            have hrequest : (if desc.control &&& descFlags ≠ 0 then some w.starts
                else w.request) = some w.starts := h
            rw [if_neg (not_not.mpr hflags)] at hrequest
            exact hover (hlive.request hrequest)
          queued := fun h => hover (hlive.queued h) }
  · change (if desc.control &&& descFlags ≠ 0 then some w.starts else w.request) = some run at hrun
    split at hrun
    · exact Nat.le_of_eq (Option.some.inj hrun).symm
    · exact inv.request run hrun

theorem fault (inv : Inv w) {busy error : Bool} (hbusy : busy = true → w.busy = true) :
    Inv { w with busy, error, request := some w.starts, excused := w.blamed } :=
  { inv with
    live := fun hrunning =>
      { inv.live hrunning with
        busy := fun h => (inv.live hrunning).busy (hbusy h)
        idle := fun _ => w.over_blamed
        request := fun _ => w.over_blamed
        queued := fun _ => w.over_blamed }
    request := fun _ hrun => Nat.le_of_eq (Option.some.inj hrun).symm
    excused :=
      { failed := fun r hr => w.subset_blamed (inv.excused.failed r hr)
        cutShort := fun serial h => w.subset_blamed (inv.excused.cutShort serial h) } }

theorem stopped (inv : Inv w) (cleared : ¬ w.engine.RunSet) :
    Inv { w with request := some w.starts } :=
  { inv with
    live := fun hrunning => absurd (inv.live hrunning).run cleared
    request := fun _ hrun => Nat.le_of_eq (Option.some.inj hrun).symm
    excused := ⟨inv.excused.failed, inv.excused.cutShort⟩ }

theorem irq (inv : Inv w) {run : Nat} (request : w.request = some run) :
    Inv { w with request := none, queued := some run } :=
  { inv with
    live := fun hrunning =>
      { inv.live hrunning with
        request := nofun
        queued := fun h => (inv.live hrunning).request (request.trans h) }
    request := nofun
    queued := fun run' hrun => inv.request run' (request.trans hrun)
    excused := ⟨inv.excused.failed, inv.excused.cutShort⟩ }

theorem step (inv : Inv w) {a : Act} {w' : Wired} (hreads : w.reads a = true)
    (due : w.serviceDue a = true) (hstep : w.step a = some w') : Inv w' := by
  cases a with
  | progress =>
      simp only [Wired.step] at hstep
      split at hstep
      · cases hstep
      · next desc hnext =>
          obtain ⟨-, hmap⟩ := Option.ite_none_right_eq_some.mp hstep
          obtain ⟨device, hdevice, rfl⟩ := Option.map_eq_some_iff.mp hmap
          exact inv.progress hnext hdevice
  | error =>
      obtain ⟨-, heq⟩ := Option.ite_none_right_eq_some.mp hstep
      cases heq
      exact inv.fault id
  | idle =>
      obtain ⟨-, heq⟩ := Option.ite_none_right_eq_some.mp hstep
      cases heq
      exact inv.fault nofun
  | stopped =>
      obtain ⟨hcleared, heq⟩ := Option.ite_none_left_eq_some.mp hstep
      cases heq
      exact inv.stopped hcleared
  | irq =>
      obtain ⟨run, hrun, rfl⟩ := Option.map_eq_some_iff.mp hstep
      exact inv.irq hrun
  | work reads =>
      obtain rfl := step_work hstep
      have hdinv := inv.dinv.driver (a := .service 0 reads)
        (by
          obtain ⟨hcount, -⟩ := of_decide_eq_true hreads
          exact decide_eq_true ⟨rfl, hcount⟩)
        (Channel.moves_of_step rfl)
      obtain ⟨hinv, hcut⟩ := inv.work hreads due hdinv
      refine hinv.of_work fun serial hserial => ?_
      rw [w.excused_follow]
      split at hserial
      · next hshort =>
          rcases List.mem_cons.mp hserial with rfl | hserial
          · exact hcut hshort.1 hshort.2.1 hshort.2.2
          · exact inv.excused.cutShort serial hserial
      · exact inv.excused.cutShort serial hserial
  | driver a =>
      obtain ⟨device, hdevice, rfl⟩ := Option.map_eq_some_iff.mp hstep
      obtain ⟨channel, hchannel, rfl⟩ := Option.map_eq_some_iff.mp hdevice
      exact inv.driver hreads (Channel.moves_of_step hchannel)

end Inv

/-! ## The result -/

theorem Inv.breaks {w w' : Wired} (inv : Inv w) {a : Act} (hreads : w.reads a = true)
    (undue : ¬ w.serviceDue a = true) (hstep : w.step a = some w') : ¬ Excused w' := by
  cases a with
  | progress | error | idle | stopped | irq | driver => exact absurd rfl undue
  | work reads =>
      obtain rfl := Inv.step_work hstep
      obtain ⟨r, hfailed, hmem⟩ := inv.not_due_fails hreads undue
      intro excused
      have hengine : (w.follow (Inv.serviced w reads)).engine = (Inv.serviced w reads).engine := by
        unfold follow
        split <;> rfl
      have hin := excused.failed r (by
        change ((w.follow (Inv.serviced w reads)).engine.tfer r).state = _
        rwa [hengine])
      change ((w.follow (Inv.serviced w reads)).engine.tfer r).serial ∈
        (w.follow (Inv.serviced w reads)).excused at hin
      rw [hengine, w.excused_follow] at hin
      exact hmem hin

/-- Throughout a run a transfer fails, or has the engine stopped under it with descriptors left,
only after a fault of the hardware in its run, exactly when the services of the run are all due. -/
theorem failed_only_by_hardware (engine : XdmaEngine) (fresh : FreshEngine engine)
    (as : List Act) (w : Wired)
    (run : Runs step (fun w a => w.reads a = true) (start engine) as w) :
    Throughout step Excused (start engine) as ↔
      Runs step (fun w a => w.serviceDue a = true) (start engine) as w :=
  run.throughout_iff_good Inv.excused (fun inv hreads due hstep => inv.step hreads due hstep)
    (fun inv hreads undue hstep => inv.breaks hreads undue hstep) (inv_start fresh)

def twoSegments : List Extent := [⟨0x7000, 0x40⟩, ⟨0x9000, 0x40⟩]

def submittedTwo : List Act :=
  [.driver (.enter 0xfffffff 0x2000 twoSegments), .driver .build, .driver .check,
    .driver (.queue 1)]

def oneDone : Reads := { busyReads with completedDescCount := 1 }

/-- The hardware stops after the first of two descriptors, and the work of its interrupt fails
the transfer. -/
theorem failed_after_idle :
    ∃ w, Runs step (fun w a => w.reads a = true) (start (idleEngine .toDevice 0))
        (submittedTwo ++ [.progress, .idle, .irq, .work { oneDone with statusRc := 0 }]) w ∧
      (w.engine.tfer 0).state = .failed ∧
      Throughout step Excused (start (idleEngine .toDevice 0))
        (submittedTwo ++ [.progress, .idle, .irq, .work { oneDone with statusRc := 0 }]) := by
  have hexec : (exec (guarded step fun w a => w.reads a && w.serviceDue a)
      (start (idleEngine .toDevice 0))
      (submittedTwo ++ [.progress, .idle, .irq, .work { oneDone with statusRc := 0 }])).map
        (fun w => (w.engine.tfer 0).state) = some .failed := by
    decide +kernel
  obtain ⟨w, hw, hfailed⟩ := Option.map_eq_some_iff.mp hexec
  have hrun := runs_of_guarded hw
  have hreads := hrun.mono fun _ _ h => (Bool.and_eq_true_iff.mp h).1
  have hdue := hrun.mono fun _ _ h => (Bool.and_eq_true_iff.mp h).2
  exact ⟨w, hreads, hfailed,
    (failed_only_by_hardware _ (idleEngine_fresh .toDevice 0) _ w hreads).mpr hdue⟩

/-- A transfer is completed by the hardware and aborted by its call before the work of the
interrupt runs; the work then meets the next transfer, busy and half done. -/
def leftOver : List Act :=
  submitted.map .driver ++
    [.progress, .irq, .driver (.inspect busyReads), .driver .release] ++ submittedTwo ++
      [.progress, .work oneDone]

theorem left_over_work_fails_transfer :
    ∃ w, Runs step (fun w a => w.reads a = true) (start (idleEngine .toDevice 0)) leftOver w ∧
      (w.engine.tfer 1).state = .failed ∧ (w.engine.tfer 1).descNum = 2 ∧
      w.engine.running = false ∧ w.excused = [] ∧ oneDone.statusRc &&& xdmaStatBusy ≠ 0 ∧
      ¬ Excused w := by
  have hexec : (exec (guarded step reads) (start (idleEngine .toDevice 0)) leftOver).map
      (fun w => ((w.engine.tfer 1).state, (w.engine.tfer 1).descNum, w.engine.running,
        w.excused)) = some (.failed, 2, false, []) := by
    decide +kernel
  obtain ⟨w, hw, hobs⟩ := Option.map_eq_some_iff.mp hexec
  simp only [Prod.mk.injEq] at hobs
  obtain ⟨hfailed, hdesc, hidle, hexcused⟩ := hobs
  refine ⟨w, runs_of_guarded hw, hfailed, hdesc, hidle, hexcused, by decide, fun h => ?_⟩
  have hmem := h.failed 1 hfailed
  rw [hexcused] at hmem
  cases hmem

end Wired

end NupaNet.Xdma
