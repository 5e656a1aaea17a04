import NupaNet.Foundation.Ledger

/-!
# Probing and removing a device

`probe_one` and `remove_one` as the sequences of what they acquire, release and
dereference, for every outcome of the calls they make.  The pointers that the
clean-up looks at (`adapter->xdev`, `napi->thread`, the fields of the debug
device) are kept beside the sequence, because `adapter_free` is one routine for
all the failure points.
-/

namespace NupaNet.Adapter

open NupaNet.Foundation

/-- The debug character device is made of five: its number, its class, its node, its buffer and
the `cdev` that makes its operations reachable. -/
inductive Resource where
  | netDevice
  | xdmaHandle
  | shmMapping
  | debugRegion
  | debugClass
  | debugNode
  | debugBuf
  | debugCdev
  | napi
  | registeredNetdev
  | pollThread
  deriving DecidableEq, Repr

/-- What runs beside the probe and the removal: the polling thread with the NAPI poll it
schedules, `nupanet_xmit_frame` of a registered netdev, and the file operations of the debug
device. -/
def users : List (User Resource) :=
  [⟨.pollThread, [.netDevice, .napi, .shmMapping, .xdmaHandle]⟩,
    ⟨.registeredNetdev, [.netDevice, .shmMapping, .xdmaHandle]⟩,
    ⟨.debugCdev, [.netDevice, .shmMapping, .xdmaHandle]⟩]

/-! ## The debug device -/

/-- A pointer as `class_create` and `device_create` return it.  On failure that is `.err`, an
`ERR_PTR`, which is not NULL. -/
inductive Ptr where
  | null
  | err
  | valid
  deriving DecidableEq, Repr

structure DebugEnv where
  allocChrdevRegion : Bool
  classCreate : Ptr
  deviceCreate : Ptr
  kcalloc : Bool
  cdevAdd : Bool
  deriving DecidableEq, Repr

/-- The fields of the debug device; `node` says whether its device node exists. -/
structure DebugPtrs where
  buf : Bool
  «class» : Ptr
  node : Bool
  deriving DecidableEq, Repr

def DebugPtrs.zero : DebugPtrs := ⟨false, .null, false⟩

/-- `device_create` looks at the class before anything else. -/
def deviceCreate (env : DebugEnv) : Ptr :=
  if env.classCreate = .valid then env.deviceCreate else .err

/-- `device_destroy` searches the class, also one that is an `ERR_PTR`, for the node and does
nothing if there is none; `class_destroy` tests for `ERR_PTR`. -/
def freeResource (debug : DebugPtrs) : List (Event Resource) :=
  (if debug.buf then [.release .debugBuf] else []) ++
    if debug.class ≠ .null then
      [.use .debugClass] ++ (if debug.node then [.release .debugNode] else []) ++
        (if debug.class = .valid then [.release .debugClass] else []) ++ [.release .debugRegion]
    else []

/-- The fields keep their values when the creation fails. -/
def createDebugCdev (env : DebugEnv) : List (Event Resource) × DebugPtrs :=
  if env.allocChrdevRegion = false then ([], .zero)
  else
    let region : List (Event Resource) := [.acquire .debugRegion]
    if env.classCreate = .null then (region ++ freeResource .zero, .zero)
    else
      let debug : DebugPtrs := ⟨false, env.classCreate, deviceCreate env = .valid⟩
      let noded := region ++ (if env.classCreate = .valid then [.acquire .debugClass] else []) ++
        if debug.node then [.acquire .debugNode] else []
      if deviceCreate env = .null then (noded ++ freeResource debug, { debug with node := false })
      else if env.kcalloc = false then (noded ++ freeResource debug, { debug with node := false })
      else
        let buffered := noded ++ [.acquire .debugBuf]
        let debug := { debug with buf := true }
        if env.cdevAdd = false then (buffered ++ freeResource debug, { debug with node := false })
        else (buffered ++ [.acquire .debugCdev], debug)

def deleteDebugCdev (debug : DebugPtrs) : List (Event Resource) := freeResource debug

/-! ## The adapter -/

structure AdapterPtrs where
  xdev : Option Nat
  thread : Bool
  debug : DebugPtrs
  deriving DecidableEq, Repr

def AdapterPtrs.zero : AdapterPtrs := ⟨none, false, .zero⟩

def xdmaDeviceClose (devHndl : Option Nat) : List (Event Resource) :=
  match devHndl with
  | none => []
  | some _ => [.release .xdmaHandle]

def netifNapiDel (thread : Bool) : List (Event Resource) :=
  (if thread then [.release .pollThread] else []) ++ [.release .napi]

def adapterFree (adapter : AdapterPtrs) : List (Event Resource) :=
  [.use .netDevice] ++ xdmaDeviceClose adapter.xdev ++ netifNapiDel adapter.thread ++
    [.use .shmMapping, .release .shmMapping, .release .registeredNetdev, .release .netDevice]

/-- What the calls of `probe_one` return.  Handles are pointers; `0` stands for no error. -/
structure ProbeEnv where
  allocEtherdev : Bool
  xdmaDeviceOpen : Option Nat
  userMax : Nat
  h2cChannelMax : Nat
  c2hChannelMax : Nat
  xdmaUserIsrEnable : Int
  xdevFindByPdev : Option Nat
  pciIoremapWcBar : Bool
  debug : DebugEnv
  registerNetdev : Int
  kthreadRun : Bool
  deriving DecidableEq, Repr

def maxUserIrq : Nat := 16
def xdmaChannelNumMax : Nat := 4

/-- From `adapter->xdev = hndl` on. -/
def probeAttach (env : ProbeEnv) (hndl : Nat) : List (Event Resource) × Option AdapterPtrs :=
  let debug := createDebugCdev env.debug
  let adapter : AdapterPtrs := ⟨some hndl, false, debug.2⟩
  -- the mapping is not tested before `adapter_info_init` clears the INFO area
  let attached := [.use .xdmaHandle] ++
    (if env.pciIoremapWcBar then [.acquire .shmMapping] else []) ++ debug.1 ++
    [.use .shmMapping, .acquire .napi]
  if env.registerNetdev ≠ 0 then (attached ++ adapterFree adapter, none)
  else
    (attached ++ [.acquire .registeredNetdev, .use .napi] ++
      (if env.kthreadRun then [.acquire .pollThread] else []),
      some { adapter with thread := true })

/-- The checks between `xdma_device_open` and `adapter->xdev = hndl`. -/
def probeChecks (env : ProbeEnv) (hndl : Nat) : Bool :=
  decide (env.userMax ≤ maxUserIrq) && decide (env.h2cChannelMax ≤ xdmaChannelNumMax) &&
    decide (env.c2hChannelMax ≤ xdmaChannelNumMax) &&
    (decide (env.userMax = 0) || decide (env.xdmaUserIsrEnable = 0)) &&
    decide (env.xdevFindByPdev = some hndl)

def probeOne (env : ProbeEnv) : List (Event Resource) × Option AdapterPtrs :=
  if !env.allocEtherdev then ([], none)
  else match env.xdmaDeviceOpen with
    | none => (.acquire .netDevice :: adapterFree .zero, none)
    | some hndl =>
        let opened := [.acquire .netDevice, .acquire .xdmaHandle]
        if !probeChecks env hndl then (opened ++ adapterFree .zero, none)
        else (opened ++ (probeAttach env hndl).1, (probeAttach env hndl).2)

def removeOne (adapter : AdapterPtrs) : List (Event Resource) :=
  [.use .netDevice] ++ deleteDebugCdev adapter.debug ++ adapterFree adapter

def deviceLife (env : ProbeEnv) (removed : Bool) : List (Event Resource) :=
  (probeOne env).1 ++ match (probeOne env).2 with
    | some adapter => if removed then removeOne adapter else []
    | none => []

def staysBound (env : ProbeEnv) (removed : Bool) : Bool := (probeOne env).2.isSome && !removed

/-! ## Balance -/

/-- In every interleaving with the users nothing is released or used that is not held, nothing is
acquired twice, and a device that is not bound in the end has left nothing behind. -/
def LifeBalanced (env : ProbeEnv) (removed : Bool) : Prop :=
  ∀ turns s, Runs (Ledger.step users) Any (Ledger.start (deviceLife env removed) []) turns s →
    s.fault = false ∧ (s.pending = [] → staysBound env removed = false → s.held = [])

/-- `create_debug_cdev` has gone on with the `ERR_PTR` of `class_create` and meets a failure that
it looks at. -/
def DebugEnv.FreesErrPtr (env : DebugEnv) : Prop :=
  env.allocChrdevRegion = true ∧ env.classCreate = .err ∧
    (env.kcalloc = false ∨ env.cdevAdd = false)

instance (env : DebugEnv) : Decidable env.FreesErrPtr := inferInstanceAs (Decidable (_ ∧ _))

/-- The probe succeeds, and nothing that it does not look at has gone wrong for good. -/
structure ProbeSound (env : ProbeEnv) : Prop where
  allocated : env.allocEtherdev = true
  opened : ∃ hndl, env.xdmaDeviceOpen = some hndl ∧ probeChecks env hndl = true
  mapped : env.pciIoremapWcBar = true
  debug : ¬ env.debug.FreesErrPtr
  registered : env.registerNetdev = 0

private theorem lifeBalanced_iff_sound (env : ProbeEnv) (removed : Bool) :
    LifeBalanced env removed ↔ sound users (deviceLife env removed) [] = true ∧
      (staysBound env removed = false → performAll (deviceLife env removed) [] = some []) := by
  constructor
  · intro h
    have hsound := Ledger.faultless_iff_sound.mp fun turns s hrun => (h turns s hrun).1
    refine ⟨hsound, fun hgone => ?_⟩
    obtain ⟨turns, s, hrun, hdone⟩ := Ledger.completes hsound
    rw [Ledger.held_of_sound hsound hrun hdone, (h turns s hrun).2 hdone hgone]
  · rintro ⟨hsound, hempty⟩ turns s hrun
    refine ⟨Ledger.faultless_iff_sound.mpr hsound turns s hrun, fun hdone hgone => ?_⟩
    have hheld := Ledger.held_of_sound hsound hrun hdone
    rw [hempty hgone] at hheld
    exact (Option.some.inj hheld).symm

def opened : List (Event Resource) := [.acquire .netDevice, .acquire .xdmaHandle]

private theorem probeOne_attached {env : ProbeEnv} {hndl : Nat} (halloc : env.allocEtherdev = true)
    (hopen : env.xdmaDeviceOpen = some hndl) (hchecks : probeChecks env hndl = true) :
    probeOne env = (opened ++ (probeAttach env hndl).1, (probeAttach env hndl).2) := by
  simp [probeOne, halloc, hopen, hchecks, opened]

private theorem attach_failed (env : ProbeEnv) (hndl : Nat) (herr : env.registerNetdev ≠ 0) :
    (probeAttach env hndl).2 = none ∧
      sound users (opened ++ (probeAttach env hndl).1) [] = false := by
  simp only [probeAttach, if_pos herr]
  refine ⟨trivial, ?_⟩
  cases env.pciIoremapWcBar <;> obtain ⟨region, cls, node, buf, add⟩ := env.debug <;>
    cases region <;> cases cls <;> cases node <;> cases buf <;> cases add <;> rfl

private theorem attach_bound (env : ProbeEnv) (hndl : Nat) (hok : env.registerNetdev = 0) :
    (probeAttach env hndl).2 = some ⟨some hndl, true, (createDebugCdev env.debug).2⟩ ∧
      (sound users (opened ++ (probeAttach env hndl).1) [] = true ↔
        env.pciIoremapWcBar = true ∧ ¬ env.debug.FreesErrPtr) := by
  have hregistered : ¬ env.registerNetdev ≠ 0 := not_not.mpr hok
  simp only [probeAttach, if_neg hregistered]
  refine ⟨trivial, ?_⟩
  cases env.pciIoremapWcBar <;> cases env.kthreadRun <;>
    obtain ⟨region, cls, node, buf, add⟩ := env.debug <;>
    cases region <;> cases cls <;> cases node <;> cases buf <;> cases add <;> decide

private theorem removal_unsound (env : ProbeEnv) (hndl : Nat) (hok : env.registerNetdev = 0) :
    sound users (opened ++ (probeAttach env hndl).1 ++
      removeOne ⟨some hndl, true, (createDebugCdev env.debug).2⟩) [] = false := by
  have hregistered : ¬ env.registerNetdev ≠ 0 := not_not.mpr hok
  simp only [probeAttach, if_neg hregistered]
  cases env.pciIoremapWcBar <;> cases env.kthreadRun <;>
    obtain ⟨region, cls, node, buf, add⟩ := env.debug <;>
    cases region <;> cases cls <;> cases node <;> cases buf <;> cases add <;> rfl

private theorem early_failure_unsound {env : ProbeEnv} (halloc : env.allocEtherdev = true)
    (hfail : ∀ hndl, env.xdmaDeviceOpen = some hndl → probeChecks env hndl = false)
    (removed : Bool) : sound users (deviceLife env removed) [] = false := by
  cases hopen : env.xdmaDeviceOpen with
  | none =>
      simp only [deviceLife, probeOne, halloc, hopen]
      rfl
  | some hndl =>
      simp only [deviceLife, probeOne, halloc, hopen, hfail hndl hopen]
      rfl

/-- Probing and removing are balanced exactly when nothing was allocated, or when the probe is
sound and the device stays. -/
theorem lifeBalanced_iff (env : ProbeEnv) (removed : Bool) :
    LifeBalanced env removed ↔
      env.allocEtherdev = false ∨ ProbeSound env ∧ removed = false := by
  rw [lifeBalanced_iff_sound]
  cases halloc : env.allocEtherdev with
  | false => simp [deviceLife, probeOne, halloc, performAll, sound, users, User.fine]
  | true =>
      have hunsound (h : sound users (deviceLife env removed) [] = false)
          (hnot : ProbeSound env → removed = true) :
          (sound users (deviceLife env removed) [] = true ∧
            (staysBound env removed = false → performAll (deviceLife env removed) [] = some [])) ↔
            true = false ∨ ProbeSound env ∧ removed = false := by
        have hno : ¬ (ProbeSound env ∧ removed = false) := by
          rintro ⟨hall, hstays⟩
          rw [hnot hall] at hstays
          cases hstays
        simp [h, hno]
      by_cases hopened : ∃ hndl, env.xdmaDeviceOpen = some hndl ∧ probeChecks env hndl = true
      · obtain ⟨hndl, hopen, hchecks⟩ := hopened
        have hprobe := probeOne_attached halloc hopen hchecks
        by_cases hreg : env.registerNetdev = 0
        · obtain ⟨hbound, hsound⟩ := attach_bound env hndl hreg
          cases removed with
          | true =>
              refine hunsound ?_ fun _ => rfl
              simpa [deviceLife, hprobe, hbound] using removal_unsound env hndl hreg
          | false =>
              have hlife : deviceLife env false = opened ++ (probeAttach env hndl).1 := by
                simp [deviceLife, hprobe, hbound]
              have hstays : staysBound env false = true := by
                simp [staysBound, hprobe, hbound]
              rw [hlife, hstays, hsound]
              constructor
              · rintro ⟨⟨hmapped, hdebug⟩, -⟩
                exact .inr ⟨⟨halloc, ⟨hndl, hopen, hchecks⟩, hmapped, hdebug, hreg⟩, rfl⟩
              · rintro (hfalse | ⟨hall, -⟩)
                · cases hfalse
                · exact ⟨⟨hall.mapped, hall.debug⟩, fun hbound => by cases hbound⟩
        · obtain ⟨hgone, hbad⟩ := attach_failed env hndl hreg
          refine hunsound ?_ fun hall => absurd hall.registered hreg
          simpa [deviceLife, hprobe, hgone] using hbad
      · refine hunsound (early_failure_unsound halloc (fun hndl hopen => ?_) removed) fun hall =>
          absurd hall.opened hopened
        rw [← Bool.not_eq_true]
        exact fun hchecks => hopened ⟨hndl, hopen, hchecks⟩

def smoothEnv : ProbeEnv where
  allocEtherdev := true
  xdmaDeviceOpen := some 1
  userMax := 16
  h2cChannelMax := 1
  c2hChannelMax := 1
  xdmaUserIsrEnable := 0
  xdevFindByPdev := some 1
  pciIoremapWcBar := true
  debug := ⟨true, .valid, .valid, true, true⟩
  registerNetdev := 0
  kthreadRun := true

/-- A failed `xdma_device_open` clears and unmaps a mapping that was never made, a failed
`xdma_user_isr_enable` keeps the handle, and a removal after a smooth probe closes the handle
under the polling thread and keeps the `cdev`. -/
theorem failed_probe_unbalanced :
    ¬ LifeBalanced { smoothEnv with xdmaDeviceOpen := none } false ∧
      ¬ LifeBalanced { smoothEnv with xdmaUserIsrEnable := -22 } false ∧
      ¬ LifeBalanced smoothEnv true := by
  simp only [lifeBalanced_iff_sound]
  decide

end NupaNet.Adapter
