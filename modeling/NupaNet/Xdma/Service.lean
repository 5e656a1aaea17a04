import NupaNet.Xdma.Transfer

/-!
# Starting, servicing and stopping an engine

The functions of this file run under `engine->lock`.  A transfer is put on the
queue by `transfer_queue`, which starts an idle engine; it leaves the queue in
`engine_service`, which compares the hardware's count of completed descriptors
with the transfer at the head, or in `transfer_abort`.  What the code reads from
the device is an argument (`Reads`), so nothing is assumed here about the values.
-/

namespace NupaNet.Xdma

open NupaNet.Foundation

/-! ## Registers -/

/-- What one call reads from the device: the identifier, the status without and with the
clearing read, the completed descriptor count, and from the writeback area whether a result
carries the end-of-packet bit and how many bytes were written. -/
structure Reads where
  identifier : U32
  status : U32
  statusRc : U32
  completedDescCount : U32
  eopSeen : Bool
  written : Nat
deriving DecidableEq, Repr

def xdmaCtrlRunStop : U32 := 1#32

def XdmaEngine.RunSet (engine : XdmaEngine) : Prop := engine.regs.control &&& xdmaCtrlRunStop ≠ 0

instance (engine : XdmaEngine) : Decidable engine.RunSet := inferInstanceAs (Decidable (_ ≠ _))

def xdmaCtrlNonIncrAddr : U32 := 1#32 <<< 25

def ctrlEnable (pollMode : Bool) : U32 :=
  1#32 <<< 3 ||| 1#32 <<< 4 ||| 0x1F#32 <<< 9 ||| 0x1F#32 <<< 19 |||
    if pollMode then 1#32 <<< 26 else 1#32 <<< 1 ||| 1#32 <<< 2

def xdmaStatBusy : U32 := 1#32

def xdmaStatCommonErrMask : U32 := 1#32 <<< 3 ||| 1#32 <<< 4 ||| 1#32 <<< 5

def xdmaStatDescErrMask : U32 := 0x1F#32 <<< 19

def xdmaStatErrMask : Direction → U32
  | .toDevice =>
      xdmaStatCommonErrMask ||| xdmaStatDescErrMask ||| 0x1F#32 <<< 9 ||| 0x3#32 <<< 14
  | .fromDevice => xdmaStatCommonErrMask ||| xdmaStatDescErrMask ||| 0x3#32 <<< 9

def blockIdMask : U32 := 0xFFF00000#32

def blockIdHead : U32 := 0x1FC00000#32

def engineRegDump (identifier : U32) : Bool := identifier &&& blockIdMask = blockIdHead

/-! ## Start and stop -/

variable (pollMode : Bool)

def xdmaEngineStop (engine : XdmaEngine) : XdmaEngine :=
  { engine with
    regs := { engine.regs with control := ctrlEnable pollMode }
    running := false }

/-- `engine_start` on the head of the queue, with `engine_start_mode_config`; `status` is read
back last. -/
def engineStart (engine : XdmaEngine) (status : U32) : Option XdmaEngine :=
  if engine.running then none
  else
    match engine.transferList with
    | [] => none
    | head :: _ =>
        let transfer := engine.tfer head
        some
          { engine with
            shutdown := ⟨false, false⟩
            descDequeued := 0
            regs :=
              { control := xdmaCtrlRunStop ||| ctrlEnable pollMode |||
                  if engine.nonIncrAddr then xdmaCtrlNonIncrAddr else 0
                firstDescLo := pciDmaL transfer.descBus
                firstDescHi := pciDmaH transfer.descBus
                firstDescAdjacent := xdmaGetNextAdj (BitVec.ofNat 32 transfer.descAdjacent)
                  (pciDmaL transfer.descBus)
                starts := engine.regs.starts + 1
                startedFor := transfer.serial }
            status
            running := true }

/-! ## `engine_service` -/

def setTransfer (engine : XdmaEngine) (r : Nat) (transfer : XdmaTransfer) : XdmaEngine :=
  { engine with tfer := Function.update engine.tfer r transfer }

def XdmaTransfer.descNum32 (transfer : XdmaTransfer) : U32 := BitVec.ofNat 32 transfer.descNum

/-- The loop over all but the last transfer, along the queue. -/
def engineServiceTransferList : List Nat → XdmaEngine → U32 → XdmaEngine × U32
  | [], engine, descCompleted => ({ engine with transferList := [] }, descCompleted)
  | head :: rest, engine, descCompleted =>
      let transfer := engine.tfer head
      if ¬ transfer.cyclic ∧ transfer.descNum32 < descCompleted then
        engineServiceTransferList rest
          { setTransfer engine head { transfer with state := .completed } with
            descDequeued := engine.descDequeued + transfer.descNum32 }
          (descCompleted - transfer.descNum32)
      else ({ engine with transferList := head :: rest }, descCompleted)

def engineErrHandle (engine : XdmaEngine) (r : Nat) : XdmaEngine :=
  xdmaEngineStop pollMode (setTransfer engine r { engine.tfer r with state := .failed })

def engineServiceFinalTransfer (engine : XdmaEngine) (descCompleted : U32) (eopSeen : Bool) :
    XdmaEngine :=
  match engine.transferList with
  | [] => engine
  | head :: rest =>
      let transfer := engine.tfer head
      if engine.status &&& xdmaStatErrMask engine.dir ≠ 0 then
        { engineErrHandle pollMode engine head with transferList := rest }
      else if descCompleted < transfer.descNum32 then
        if engine.eopFlush then
          let transfer :=
            { transfer with
              descCmpl := transfer.descCmpl + descCompleted.toNat
              eopRcved := transfer.eopRcved || eopSeen }
          if transfer.eopRcved = false then setTransfer engine head transfer
          else
            { xdmaEngineStop pollMode
                (setTransfer engine head { transfer with state := .completed }) with
              descDequeued := engine.descDequeued + BitVec.ofNat 32 transfer.descCmpl
              transferList := rest }
        else
          { setTransfer engine head
              { transfer with state := .failed, descCmpl := descCompleted.toNat } with
            descDequeued := engine.descDequeued + transfer.descNum32
            transferList := rest }
      else
        { setTransfer engine head
            { transfer with state := .completed, descCmpl := transfer.descNum } with
          descDequeued := engine.descDequeued + transfer.descNum32
          transferList := rest }

def engineServiceResume (engine : XdmaEngine) (status : U32) : XdmaEngine :=
  if engine.running = false then
    if engine.transferList ≠ [] then (engineStart pollMode engine status).getD engine
    else if engine.shutdown.request then
      { engine with shutdown := { engine.shutdown with idle := true } }
    else engine
  else if engine.transferList = [] then xdmaEngineStop pollMode engine
  else engine

def wbCountMask : U32 := 0x00ffffff#32

def wbErrMask : U32 := 0x80000000#32

/-- The descriptor count that a service works with: the writeback's, else the register's. -/
def serviceCount (descWriteback : U32) (reads : Reads) : U32 :=
  if descWriteback &&& wbCountMask = 0 then reads.completedDescCount
  else descWriteback &&& wbCountMask

/-- The first half: the status, and the shutdown of an engine that is no longer busy. -/
def engineServiceStatus (engine : XdmaEngine) (descWriteback : U32) (reads : Reads) :
    XdmaEngine :=
  let read :=
    if descWriteback &&& wbCountMask = 0 ∨ descWriteback &&& wbErrMask ≠ 0 then
      { engine with status := reads.statusRc }
    else engine
  if (read.running ∧ read.status &&& xdmaStatBusy = 0) ∨
      (¬ read.eopFlush ∧ descWriteback &&& wbCountMask ≠ 0) then
    xdmaEngineStop pollMode read
  else read

def engineService (engine : XdmaEngine) (descWriteback : U32) (reads : Reads) : XdmaEngine :=
  if engine.running = false then { engine with status := reads.statusRc }
  else
    let engine := engineServiceStatus pollMode engine descWriteback reads
    let descCount := serviceCount descWriteback reads
    if descCount = 0 then engine
    else
      let listed := engineServiceTransferList engine.transferList engine
        (descCount - engine.descDequeued)
      let final := engineServiceFinalTransfer pollMode listed.1 listed.2 reads.eopSeen
      if final.eopFlush then final else engineServiceResume pollMode final reads.status

/-! ## Queueing and aborting -/

/-- The checks that `transfer_queue` makes before it takes the lock. -/
def transferQueueCheck (offline : Bool) (transfer : XdmaTransfer) : Int :=
  if transfer.descNum = 0 then -22 else if offline then -16 else 0

def transferQueue (engine : XdmaEngine) (r : Nat) (status : U32) : XdmaEngine × Int :=
  if engine.shutdown.request then (engine, -16)
  else
    let queued :=
      { setTransfer engine r { engine.tfer r with state := .submitted } with
        transferList := engine.transferList ++ [r] }
    if queued.running then (queued, 0)
    else ((engineStart pollMode queued status).getD queued, 0)

def transferAbort (engine : XdmaEngine) (r : Nat) : XdmaEngine × Int :=
  let transfer := engine.tfer r
  if transfer.descNum = 0 then (engine, -22)
  else
    let unlinked :=
      if engine.transferList.head? = some r then
        { engine with transferList := engine.transferList.tail }
      else engine
    if transfer.state = .submitted then
      (setTransfer unlinked r { transfer with state := .aborted }, 0)
    else (unlinked, 0)

/-- The `switch` of `xdma_xfer_submit`, under the lock. -/
def inspectTransfer (engine : XdmaEngine) (r : Nat) (reads : Reads) : XdmaEngine × TransferState :=
  match (engine.tfer r).state with
  | .completed => (engine, .completed)
  | .failed => (engine, .failed)
  | state =>
      if engineRegDump reads.identifier then
        let aborted := transferAbort { engine with status := reads.status } r
        if aborted.2 < 0 then (aborted.1, state) else (xdmaEngineStop pollMode aborted.1, state)
      else (engine, state)

/-! ## Taking the device down and up -/

def engineOffline (engine : XdmaEngine) : XdmaEngine :=
  xdmaEngineStop pollMode { engine with shutdown := { engine.shutdown with request := true } }

def engineOnline (engine : XdmaEngine) : XdmaEngine :=
  { engine with
    regs := { engine.regs with control := engine.regs.control &&& ~~~xdmaCtrlNonIncrAddr }
    shutdown := { engine.shutdown with request := false } }

/-! ## What a service does to a queue of one

`desc_lock` admits one transfer at a time, so these are the cases that occur.
-/

structure Undisturbed (engine engine' : XdmaEngine) : Prop where
  list : engine'.transferList = engine.transferList
  tfer : engine'.tfer = engine.tfer
  flush : engine'.eopFlush = engine.eopFlush
  ring : engine'.descMax = engine.descMax
  dequeued : engine'.descDequeued = engine.descDequeued
  starts : engine'.regs.starts = engine.regs.starts
  startedFor : engine'.regs.startedFor = engine.regs.startedFor
  running : engine'.running = true → engine.running = true

theorem Undisturbed.refl (engine : XdmaEngine) : Undisturbed engine engine :=
  ⟨rfl, rfl, rfl, rfl, rfl, rfl, rfl, id⟩

theorem Undisturbed.idle {engine engine' : XdmaEngine} (undisturbed : Undisturbed engine engine')
    (h : engine.running = false) : engine'.running = false := by
  cases hrunning : engine'.running with
  | true => simpa [h] using undisturbed.running hrunning
  | false => rfl

/-- `engine'` has an empty queue after transfer `r` was completed or failed on
`descCompleted` descriptors. -/
structure Emptied (engine engine' : XdmaEngine) (r : Nat) (descCompleted : U32) : Prop where
  list : engine'.transferList = []
  flush : engine'.eopFlush = engine.eopFlush
  ring : engine'.descMax = engine.descMax
  starts : engine'.regs.starts = engine.regs.starts
  startedFor : engine'.regs.startedFor = engine.regs.startedFor
  others : ∀ k, k ≠ r → engine'.tfer k = engine.tfer k
  serial : (engine'.tfer r).serial = (engine.tfer r).serial
  descNum : (engine'.tfer r).descNum = (engine.tfer r).descNum
  verdict :
    (engine'.tfer r).state = .completed ∧ (engine.tfer r).descNum32 ≤ descCompleted ∨
      (engine'.tfer r).state = .failed

structure Settled (engine engine' : XdmaEngine) (r : Nat) (descCompleted : U32) : Prop
    extends Emptied engine engine' r descCompleted where
  stopped : engine'.running = false

section One

variable {pollMode : Bool} {engine : XdmaEngine} {r : Nat}

theorem engineOffline_undisturbed (pollMode : Bool) (engine : XdmaEngine) :
    Undisturbed engine (engineOffline pollMode engine) := by
  constructor <;> simp [engineOffline, xdmaEngineStop]

theorem engineOnline_undisturbed (engine : XdmaEngine) :
    Undisturbed engine (engineOnline engine) := by
  constructor <;> simp [engineOnline]

theorem engineServiceStatus_undisturbed (pollMode : Bool) (engine : XdmaEngine)
    (descWriteback : U32) (reads : Reads) :
    Undisturbed engine (engineServiceStatus pollMode engine descWriteback reads) := by
  unfold engineServiceStatus
  simp only
  split <;> split <;> constructor <;> simp [xdmaEngineStop]

theorem engineService_idle (pollMode : Bool) (idle : engine.running = false)
    (descWriteback : U32) (reads : Reads) :
    Undisturbed engine (engineService pollMode engine descWriteback reads) := by
  rw [engineService, if_pos idle]
  constructor <;> simp

theorem engineService_waits (pollMode : Bool) {descWriteback : U32} {reads : Reads}
    (none_done : serviceCount descWriteback reads = 0) :
    Undisturbed engine (engineService pollMode engine descWriteback reads) := by
  unfold engineService
  split
  · constructor <;> simp
  · simp only [none_done, if_true]
    exact engineServiceStatus_undisturbed ..

theorem Emptied.of_update {engine' : XdmaEngine} {transfer : XdmaTransfer} {descCompleted : U32}
    (list : engine'.transferList = []) (flush : engine'.eopFlush = engine.eopFlush)
    (ring : engine'.descMax = engine.descMax)
    (starts : engine'.regs.starts = engine.regs.starts)
    (startedFor : engine'.regs.startedFor = engine.regs.startedFor)
    (tfer : engine'.tfer = Function.update engine.tfer r transfer)
    (serial : transfer.serial = (engine.tfer r).serial)
    (descNum : transfer.descNum = (engine.tfer r).descNum)
    (verdict :
      transfer.state = .completed ∧ (engine.tfer r).descNum32 ≤ descCompleted ∨
        transfer.state = .failed) :
    Emptied engine engine' r descCompleted where
  list := list
  flush := flush
  ring := ring
  starts := starts
  startedFor := startedFor
  others k hk := by rw [tfer, Function.update_of_ne hk]
  serial := by rw [tfer, Function.update_self, serial]
  descNum := by rw [tfer, Function.update_self, descNum]
  verdict := by rwa [tfer, Function.update_self]

theorem serviceTransfers_emptied (pollMode : Bool) (list : engine.transferList = [r])
    (flush : engine.eopFlush = false) (descCompleted : U32) (eopSeen : Bool) :
    Emptied engine
      (engineServiceFinalTransfer pollMode
        (engineServiceTransferList engine.transferList engine descCompleted).1
        (engineServiceTransferList engine.transferList engine descCompleted).2 eopSeen)
      r descCompleted := by
  rw [list]
  unfold engineServiceTransferList
  by_cases hpassed : ¬ (engine.tfer r).cyclic ∧ (engine.tfer r).descNum32 < descCompleted
  · rw [if_pos hpassed]
    exact .of_update rfl rfl rfl rfl rfl rfl rfl rfl (.inl ⟨rfl, BitVec.le_of_lt hpassed.2⟩)
  · rw [if_neg hpassed]
    have hflush : ¬ engine.eopFlush = true := by simp [flush]
    unfold engineServiceFinalTransfer
    simp only [if_neg hflush]
    split
    · exact .of_update rfl rfl rfl rfl rfl rfl rfl rfl (.inr rfl)
    · split
      · exact .of_update rfl rfl rfl rfl rfl rfl rfl rfl (.inr rfl)
      · next hreached =>
          exact .of_update rfl rfl rfl rfl rfl rfl rfl rfl
            (.inl ⟨rfl, BitVec.not_lt.mp hreached⟩)

private theorem engineServiceResume_settled {engine' : XdmaEngine} {descCompleted : U32}
    (status : U32)
    (emptied : Emptied engine engine' r descCompleted) :
    Settled engine (engineServiceResume pollMode engine' status) r descCompleted := by
  unfold engineServiceResume
  by_cases hidle : engine'.running = false
  · rw [if_pos hidle, if_neg (not_not.mpr emptied.list)]
    split
    · exact { emptied with stopped := hidle }
    · exact { emptied with stopped := hidle }
  · rw [if_neg hidle, if_pos emptied.list]
    exact { emptied with stopped := rfl }

theorem Emptied.of_undisturbed {before engine' : XdmaEngine} {descCompleted : U32}
    (emptied : Emptied engine engine' r descCompleted) (undisturbed : Undisturbed before engine) :
    Emptied before engine' r descCompleted where
  list := emptied.list
  flush := emptied.flush.trans undisturbed.flush
  ring := emptied.ring.trans undisturbed.ring
  starts := emptied.starts.trans undisturbed.starts
  startedFor := emptied.startedFor.trans undisturbed.startedFor
  others := undisturbed.tfer ▸ emptied.others
  serial := undisturbed.tfer ▸ emptied.serial
  descNum := undisturbed.tfer ▸ emptied.descNum
  verdict := undisturbed.tfer ▸ emptied.verdict

theorem engineService_settles (pollMode : Bool) {descWriteback : U32} {reads : Reads}
    (running : engine.running = true) (list : engine.transferList = [r])
    (flush : engine.eopFlush = false) (some_done : serviceCount descWriteback reads ≠ 0) :
    Settled engine (engineService pollMode engine descWriteback reads) r
      (serviceCount descWriteback reads - engine.descDequeued) := by
  have hstatus := engineServiceStatus_undisturbed pollMode engine descWriteback reads
  have hflush := hstatus.flush.trans flush
  have hemptied := (serviceTransfers_emptied pollMode (hstatus.list.trans list) hflush
    (serviceCount descWriteback reads - engine.descDequeued) reads.eopSeen).of_undisturbed hstatus
  rw [engineService, if_neg (by simp [running])]
  simp only [some_done, if_false, hstatus.dequeued]
  rw [if_neg (by simp [hemptied.flush, flush])]
  exact engineServiceResume_settled _ hemptied

/-! ## Queueing and aborting on a queue of at most one -/

theorem transferQueue_refuses (pollMode : Bool) (r : Nat)
    (shut : engine.shutdown.request = true) (status : U32) :
    transferQueue pollMode engine r status = (engine, -16) := by
  rw [transferQueue, if_pos shut]

structure Started (engine engine' : XdmaEngine) (r : Nat) : Prop where
  list : engine'.transferList = [r]
  running : engine'.running = true
  flush : engine'.eopFlush = engine.eopFlush
  ring : engine'.descMax = engine.descMax
  dequeued : engine'.descDequeued = 0
  starts : engine'.regs.starts = engine.regs.starts + 1
  startedFor : engine'.regs.startedFor = (engine.tfer r).serial
  tfer : engine'.tfer =
    Function.update engine.tfer r { engine.tfer r with state := .submitted }

theorem transferQueue_starts (pollMode : Bool) (r : Nat)
    (admitted : engine.shutdown.request = false) (list : engine.transferList = [])
    (idle : engine.running = false) (status : U32) :
    Started engine (transferQueue pollMode engine r status).1 r ∧
      (transferQueue pollMode engine r status).2 = 0 := by
  rw [transferQueue, if_neg (by simp [admitted])]
  simp only [setTransfer, idle, Bool.false_eq_true, if_false]
  constructor
  · constructor <;> simp [engineStart, list]
  · trivial

theorem inspectTransfer_completed (pollMode : Bool) (reads : Reads)
    (state : (engine.tfer r).state = .completed) :
    inspectTransfer pollMode engine r reads = (engine, .completed) := by
  rw [inspectTransfer, state]

theorem inspectTransfer_failed (pollMode : Bool) (reads : Reads)
    (state : (engine.tfer r).state = .failed) :
    inspectTransfer pollMode engine r reads = (engine, .failed) := by
  rw [inspectTransfer, state]

structure Aborted (engine engine' : XdmaEngine) (r : Nat) : Prop where
  list : engine'.transferList = []
  stopped : engine'.running = false
  flush : engine'.eopFlush = engine.eopFlush
  ring : engine'.descMax = engine.descMax
  starts : engine'.regs.starts = engine.regs.starts
  startedFor : engine'.regs.startedFor = engine.regs.startedFor
  tfer : engine'.tfer = Function.update engine.tfer r { engine.tfer r with state := .aborted }

theorem inspectTransfer_aborts (pollMode : Bool) {reads : Reads}
    (state : (engine.tfer r).state = .submitted)
    (list : engine.transferList = [r]) (descNum : (engine.tfer r).descNum ≠ 0)
    (valid : engineRegDump reads.identifier = true) :
    Aborted engine (inspectTransfer pollMode engine r reads).1 r ∧
      (inspectTransfer pollMode engine r reads).2 = .submitted := by
  rw [inspectTransfer, state]
  simp only [valid, if_true, transferAbort, descNum, if_false, list, List.head?_cons, state]
  constructor
  · constructor <;> simp [xdmaEngineStop, setTransfer]
  · rfl

end One

end NupaNet.Xdma
