import Mathlib.Data.List.Nodup
import NupaNet.Foundation.Ledger
import NupaNet.Xdma.Bars
import NupaNet.Xdma.Dispatch

/-!
# What opening a device acquires

`xdma_device_open` and `xdma_device_close` as the sequences of what they
acquire, release and touch, for every answer of the kernel and of the device:
each BAR, each engine and each of an engine's three allocations.  The lines of
`irq_setup` are the subject of `Lines`, the threads of `Thread.Registry`.
-/

namespace NupaNet.Xdma

open NupaNet.Foundation

inductive DeviceResource where
  | xdev
  | listEntry
  | pciEnable
  | regions
  | bar (i : Nat)
  | desc (e : EngineId)
  | writeback (e : EngineId)
  | result (e : EngineId)
  | msi
  deriving DecidableEq, Repr

structure EngineEnv where
  streaming : Bool
  desc : Bool
  writeback : Bool
  result : Bool
  deriving DecidableEq, Repr

/-- What `enable_msi_msix` arrives at. -/
inductive MsiOutcome where
  | msix
  | msi
  | legacy
  | refused
  deriving DecidableEq, Repr

/-- What the calls of `xdma_device_open` return; `configBarNum` is `XDMA_CONFIG_BAR_NUM` where the
driver is built with it. -/
structure OpenEnv where
  pollMode : Bool
  configBarNum : Option (Fin xdmaBarNum)
  kzalloc : Bool
  xdevListAdd : Bool
  pciEnableDevice : Bool
  pciRequestRegions : Bool
  bars : BarEnv
  setDmaMask : Bool
  h2cChannelMax : Nat
  c2hChannelMax : Nat
  engine : EngineId → Option EngineEnv
  enableMsiMsix : MsiOutcome
  irqSetup : Bool

/-! ## Engines -/

structure EngineMem where
  desc : Bool
  writeback : Bool
  result : Bool
  deriving DecidableEq, Repr

def engineFreeResource (e : EngineId) (mem : EngineMem) : List (Event DeviceResource) :=
  (if mem.writeback then [.release (.writeback e)] else []) ++
    (if mem.desc then [.release (.desc e)] else []) ++
    if mem.result then [.release (.result e)] else []

def engineAllocResource (pollMode : Bool) (e : EngineId) (env : EngineEnv) :
    List (Event DeviceResource) × Option EngineMem :=
  if !env.desc then (engineFreeResource e ⟨false, false, false⟩, none)
  else if pollMode && !env.writeback then
    ([.acquire (.desc e)] ++ engineFreeResource e ⟨true, false, false⟩, none)
  else
    let got := [.acquire (.desc e)] ++ if pollMode then [.acquire (.writeback e)] else []
    if env.streaming && e.1 == .fromDevice then
      if !env.result then (got ++ engineFreeResource e ⟨true, pollMode, false⟩, none)
      else (got ++ [.acquire (.result e)], some ⟨true, pollMode, true⟩)
    else (got, some ⟨true, pollMode, false⟩)

def probeEngineLoop (env : OpenEnv) (configBar : Nat) (dir : Direction) :
    Nat → Nat → List (Event DeviceResource) × List (EngineId × EngineMem)
  | 0, _ => ([], [])
  | left + 1, i =>
      match env.engine (dir, i) with
      | none => ([.use (.bar configBar)], [])
      | some engine =>
          let out := engineAllocResource env.pollMode (dir, i) engine
          match out.2 with
          | none => (.use (.bar configBar) :: out.1, [])
          | some mem =>
              let rest := probeEngineLoop env configBar dir left (i + 1)
              ([.use (.bar configBar)] ++ out.1 ++ [.use (.bar configBar)] ++ rest.1,
                ((dir, i), mem) :: rest.2)

/-- `engine_destroy` of every engine counted, after its registers are written. -/
def removeEngines (configBar : Nat) (engines : List (EngineId × EngineMem)) :
    List (Event DeviceResource) :=
  engines.flatMap fun engine =>
    .use (.bar configBar) :: engineFreeResource engine.1 engine.2

/-! ## BARs -/

def mappedBars (x : XdevBars) : List DeviceResource :=
  ((List.range xdmaBarNum).filter x.bar).map .bar

/-- What `map_bars` maps, and unmaps again when it fails; and the device it leaves. -/
def openMapBars (env : OpenEnv) : List (Event DeviceResource) × XdevBars × Bool :=
  match env.configBarNum with
  | none =>
      let mapped := mappedBars (mapBarsLoop env.bars xdmaBarNum 0 XdevBars.alloc [] 0).1
      let out := mapBars env.bars XdevBars.alloc
      (mapped.map .acquire ++ if out.2 then [] else mapped.map .release, out)
  | some n =>
      let out := mapConfigBar env.bars n XdevBars.alloc
      -- `return -EINVAL` leaves the BAR mapped
      ((mappedBars out.1).map .acquire, out)

/-! ## Opening and closing -/

structure OpenXdev where
  bars : XdevBars
  engines : List (EngineId × EngineMem)
  gotRegions : Bool
  regionsInUse : Bool
  msiEnabled : Bool

def OpenXdev.configBar (x : OpenXdev) : Nat := x.bars.configBarIdx.toNat

/-- The labels of the error path, each with those below it. -/
def errEnable : List (Event DeviceResource) := [.release .listEntry, .release .xdev]

def errRegions (regionsInUse : Bool) : List (Event DeviceResource) :=
  (if regionsInUse then [] else [.release .pciEnable]) ++ errEnable

def errMap (gotRegions regionsInUse : Bool) : List (Event DeviceResource) :=
  (if gotRegions then [.release .regions] else []) ++ errRegions regionsInUse

def errMask (x : OpenXdev) : List (Event DeviceResource) :=
  (mappedBars x.bars).map .release ++ errMap x.gotRegions x.regionsInUse

def errEngines (x : OpenXdev) : List (Event DeviceResource) :=
  removeEngines x.configBar x.engines ++ errMask x

def errMsix (x : OpenXdev) : List (Event DeviceResource) :=
  (if x.msiEnabled then [.release .msi] else []) ++ errEngines x

def channelBound (channelMax : Nat) : Nat :=
  if channelMax = 0 ∨ xdmaChannelNumMax < channelMax then xdmaChannelNumMax else channelMax

/-- From `set_dma_mask` on, with the BARs mapped. -/
def openEngines (env : OpenEnv) (x : OpenXdev) : List (Event DeviceResource) × Option OpenXdev :=
  if !env.setDmaMask then (errMask x, none)
  else
    let h2c := probeEngineLoop env x.configBar .toDevice (channelBound env.h2cChannelMax) 0
    let c2h := probeEngineLoop env x.configBar .fromDevice (channelBound env.c2hChannelMax) 0
    let x := { x with engines := h2c.2 ++ c2h.2 }
    let probed := [.use (.bar x.configBar)] ++ h2c.1 ++ c2h.1
    match env.enableMsiMsix with
    | .refused => (probed ++ errEngines x, none)
    | outcome =>
        let x := { x with msiEnabled := outcome != .legacy }
        let enabled := probed ++ if x.msiEnabled then [.acquire .msi] else []
        if !env.irqSetup then (enabled ++ errMsix x, none)
        else (enabled ++ [.use (.bar x.configBar)], some x)

def xdmaDeviceOpen (env : OpenEnv) : List (Event DeviceResource) × Option OpenXdev :=
  if !env.kzalloc then ([], none)
  else if !env.xdevListAdd then ([.acquire .xdev, .release .xdev], none)
  else if !env.pciEnableDevice then ([.acquire .xdev, .acquire .listEntry] ++ errEnable, none)
  else
    let enabled := [.acquire .xdev, .acquire .listEntry, .acquire .pciEnable]
    if !env.pciRequestRegions then (enabled ++ errRegions true, none)
    else
      let mapped := openMapBars env
      let got := enabled ++ [.acquire .regions] ++ mapped.1
      if !mapped.2.2 then (got ++ errMap true false, none)
      else
        let out := openEngines env ⟨mapped.2.1, [], true, false, false⟩
        (got ++ out.1, out.2)

def xdmaDeviceClose (x : OpenXdev) : List (Event DeviceResource) :=
  [.use (.bar x.configBar)] ++ (if x.msiEnabled then [.release .msi] else []) ++
    removeEngines x.configBar x.engines ++ (mappedBars x.bars).map .release ++
    (if x.gotRegions then [.release .regions] else []) ++
    (if x.regionsInUse then [] else [.release .pciEnable]) ++
    [.release .listEntry, .release .xdev]

/-! ## Engines hold what they allocated -/

def engineMem (engine : EngineId × EngineMem) : List DeviceResource :=
  (if engine.2.writeback then [.writeback engine.1] else []) ++
    (if engine.2.desc then [.desc engine.1] else []) ++
    if engine.2.result then [.result engine.1] else []

def enginesMem (engines : List (EngineId × EngineMem)) : List DeviceResource :=
  engines.flatMap engineMem

private theorem engineFreeResource_leaves (e : EngineId) (mem : EngineMem)
    (rest : List DeviceResource) :
    Leaves (engineFreeResource e mem) (engineMem (e, mem) ++ rest) rest := by
  have hsame : engineFreeResource e mem = (engineMem (e, mem)).map .release := by
    obtain ⟨desc, writeback, result⟩ := mem
    cases desc <;> cases writeback <;> cases result <;> rfl
  rw [hsame]
  exact Leaves.releaseAll _ _

private theorem removeEngines_leaves {configBar : Nat} (engines : List (EngineId × EngineMem))
    {rest : List DeviceResource} (hbar : .bar configBar ∈ rest) :
    Leaves (removeEngines configBar engines) (enginesMem engines ++ rest) rest := by
  induction engines with
  | nil => exact Leaves.nil rest
  | cons engine engines ih =>
      have huse : Leaves [.use (.bar configBar)]
          (engineMem engine ++ (enginesMem engines ++ rest))
          (engineMem engine ++ (enginesMem engines ++ rest)) :=
        Leaves.use (List.mem_append_right _ (List.mem_append_right _ hbar))
      have hfirst := huse.append (engineFreeResource_leaves engine.1 engine.2 _)
      have hall := hfirst.append ih
      simp only [removeEngines, enginesMem, List.flatMap_cons, List.append_assoc]
      exact hall

section

variable {dir : Direction} {held : List DeviceResource} {i : Nat}

def Unheld (e : EngineId) (held : List DeviceResource) : Prop :=
  .desc e ∉ held ∧ .writeback e ∉ held ∧ .result e ∉ held

private theorem acquire_engine {e : EngineId} (h : Unheld e held) (writeback : Bool) :
    Leaves ([.acquire (.desc e)] ++ if writeback then [.acquire (.writeback e)] else []) held
      (engineMem (e, ⟨true, writeback, false⟩) ++ held) := by
  obtain ⟨hdesc, hwb, -⟩ := h
  cases writeback with
  | true =>
      have hsecond : DeviceResource.writeback e ∉ .desc e :: held := by simp [hwb]
      exact (Leaves.acquire hdesc).append (Leaves.acquire hsecond)
  | false => exact (Leaves.acquire hdesc).append (Leaves.nil _)

private theorem engineAllocResource_leaves (pollMode : Bool) {e : EngineId} (env : EngineEnv)
    (h : Unheld e held) :
    let out := engineAllocResource pollMode e env
    Leaves out.1 held ((out.2.map fun mem => engineMem (e, mem)).getD [] ++ held) := by
  simp only [engineAllocResource]
  split
  · exact engineFreeResource_leaves e ⟨false, false, false⟩ held
  · split
    · exact (acquire_engine h false).append (engineFreeResource_leaves e ⟨true, false, false⟩ held)
    · split
      · split
        · exact (acquire_engine h pollMode).append
            (engineFreeResource_leaves e ⟨true, pollMode, false⟩ held)
        · have hresult : DeviceResource.result e ∉
              engineMem (e, ⟨true, pollMode, false⟩) ++ held := by
            cases pollMode <;> simp [engineMem, h.2.2]
          refine ((acquire_engine h pollMode).append (Leaves.acquire hresult)).perm (.refl _) ?_
          cases pollMode <;> simp [engineMem]
          · exact List.Perm.swap _ _ _
          · exact (List.Perm.swap _ _ _).trans ((List.Perm.swap _ _ _).cons _)
      · exact acquire_engine h pollMode

private theorem mem_engineMem {r : DeviceResource} {engine : EngineId × EngineMem}
    (h : r ∈ engineMem engine) :
    r = .writeback engine.1 ∨ r = .desc engine.1 ∨ r = .result engine.1 := by
  simp only [engineMem, List.mem_append] at h
  rcases h with (h | h) | h <;> split at h <;> simp_all

private theorem Unheld.engineMem {e : EngineId} (h : Unheld e held) {engine : EngineId × EngineMem}
    (hne : engine.1 ≠ e) : Unheld e (engineMem engine ++ held) := by
  have hother : ∀ r, r ∈ Xdma.engineMem engine →
      r ≠ .desc e ∧ r ≠ .writeback e ∧ r ≠ .result e := by
    intro r hr
    rcases mem_engineMem hr with rfl | rfl | rfl <;> simp [hne]
  obtain ⟨hdesc, hwb, hresult⟩ := h
  refine ⟨fun hmem => ?_, fun hmem => ?_, fun hmem => ?_⟩
  · exact (List.mem_append.mp hmem).elim (fun hin => (hother _ hin).1 rfl) hdesc
  · exact (List.mem_append.mp hmem).elim (fun hin => (hother _ hin).2.1 rfl) hwb
  · exact (List.mem_append.mp hmem).elim (fun hin => (hother _ hin).2.2 rfl) hresult

private theorem Unheld.enginesMem {e : EngineId} (h : Unheld e held)
    {engines : List (EngineId × EngineMem)}
    (hne : ∀ engine ∈ engines, engine.1 ≠ e) : Unheld e (enginesMem engines ++ held) := by
  induction engines with
  | nil => exact h
  | cons engine engines ih =>
      rw [Xdma.enginesMem, List.flatMap_cons, List.append_assoc]
      exact (ih fun other hmem => hne other (List.mem_cons_of_mem engine hmem)).engineMem
        (hne engine List.mem_cons_self)

private theorem probeEngineLoop_leaves (env : OpenEnv) (left : Nat) {configBar : Nat}
    (hbar : .bar configBar ∈ held) (hfresh : ∀ j, i ≤ j → Unheld (dir, j) held) :
    let out := probeEngineLoop env configBar dir left i
    Leaves out.1 held (enginesMem out.2 ++ held) ∧ ∀ engine ∈ out.2, engine.1.1 = dir := by
  induction left generalizing i held with
  | zero => exact ⟨Leaves.nil held, by simp [probeEngineLoop]⟩
  | succ left ih =>
      simp only [probeEngineLoop]
      split
      · exact ⟨Leaves.use hbar, by simp⟩
      · next engine _ =>
          have halloc := engineAllocResource_leaves env.pollMode engine (hfresh i (Nat.le_refl i))
          generalize engineAllocResource env.pollMode (dir, i) engine = out at *
          obtain ⟨events, mem⟩ := out
          cases mem with
          | none => exact ⟨(Leaves.use hbar).append halloc, by simp⟩
          | some mem =>
              have hbar' : .bar configBar ∈ engineMem ((dir, i), mem) ++ held :=
                List.mem_append_right _ hbar
              have hfresh' : ∀ j, i + 1 ≤ j →
                  Unheld (dir, j) (engineMem ((dir, i), mem) ++ held) := by
                intro j hj
                refine (hfresh j (by omega)).engineMem fun heq => ?_
                have := congrArg Prod.snd heq
                simp only at this
                omega
              obtain ⟨hrest, hdirs⟩ := ih hbar' hfresh'
              have hfirst := ((Leaves.use hbar).append halloc).append (Leaves.use hbar')
              have hall := hfirst.append hrest
              refine ⟨hall.perm (.refl _) ?_, fun engine hmem => ?_⟩
              · simp only [enginesMem, List.flatMap_cons, List.append_assoc]
                exact List.perm_append_comm_assoc _ _ _
              · rcases List.mem_cons.mp hmem with rfl | hmem
                · rfl
                · exact hdirs engine hmem

end

/-! ## BARs -/

private theorem mappedBars_nodup (x : XdevBars) : (mappedBars x).Nodup :=
  List.Nodup.map (fun _ _ h => DeviceResource.bar.inj h) (List.nodup_range.filter _)

private theorem mem_mappedBars {x : XdevBars} {r : DeviceResource} :
    r ∈ mappedBars x ↔ ∃ i < xdmaBarNum, x.bar i = true ∧ r = .bar i := by
  simp only [mappedBars, List.mem_map, List.mem_filter, List.mem_range]
  constructor
  · rintro ⟨i, ⟨hi, hbar⟩, rfl⟩
    exact ⟨i, hi, hbar, rfl⟩
  · rintro ⟨i, hi, hbar, rfl⟩
    exact ⟨i, ⟨hi, hbar⟩, rfl⟩

private theorem mappedBars_unmapBars (x : XdevBars) : mappedBars (unmapBars x) = [] := by
  refine List.eq_nil_iff_forall_not_mem.mpr fun r hr => ?_
  obtain ⟨i, hi, hbar, -⟩ := mem_mappedBars.mp hr
  rw [unmapBars_bar x hi] at hbar
  cases hbar

private theorem mapBars_mapped (env : BarEnv) :
    let x := (mapBarsLoop env xdmaBarNum 0 XdevBars.alloc [] 0).1
    let out := mapBars env XdevBars.alloc
    mappedBars out.1 = if out.2 then mappedBars x else [] := by
  simp only [mapBars]
  split
  · exact mappedBars_unmapBars _
  · split
    · exact mappedBars_unmapBars _
    · simp [mappedBars, identifyBars_bar]

private theorem openMapBars_leaves (env : OpenEnv) {held : List DeviceResource}
    (hfresh : ∀ i, .bar i ∉ held) :
    Leaves (openMapBars env).1 held (mappedBars (openMapBars env).2.1 ++ held) := by
  have hacquire : ∀ x, Leaves ((mappedBars x).map .acquire) held (mappedBars x ++ held) := by
    intro x
    refine Leaves.acquireAll (mappedBars_nodup x) fun r hr => ?_
    obtain ⟨i, -, -, rfl⟩ := mem_mappedBars.mp hr
    exact hfresh i
  simp only [openMapBars]
  split
  · have hmapped := mapBars_mapped env.bars
    simp only at hmapped
    rw [hmapped]
    split
    · exact (hacquire _).append (Leaves.nil _)
    · exact (hacquire _).append (Leaves.releaseAll _ _)
  · exact hacquire _

private theorem openMapBars_configBar (env : OpenEnv) (hok : (openMapBars env).2.2 = true) :
    .bar (openMapBars env).2.1.configBarIdx.toNat ∈ mappedBars (openMapBars env).2.1 := by
  cases hnum : env.configBarNum with
  | none =>
      simp only [openMapBars, hnum] at hok ⊢
      rcases mapBars_cases env.bars with ⟨-, -, pos, hident⟩ | ⟨hfail, -⟩
      · obtain ⟨c, hc, hpos, -⟩ := hident.config
        have hmem := List.mem_of_getElem? hpos
        rw [hc, Int.toNat_natCast]
        exact mem_mappedBars.mpr
          ⟨c, (BarEnv.mem_presentBelow.mp hmem).1, (hident.bar c).mpr hmem, rfl⟩
      · rw [hok] at hfail
        cases hfail
  | some n =>
      simp only [openMapBars, hnum, mapConfigBar] at hok ⊢
      rcases mapSingleBar_cases env.bars XdevBars.alloc n with ⟨-, hout⟩ | ⟨-, -, hout⟩ |
        ⟨-, -, len, -, -, hout⟩
      · simp [hout] at hok
      · simp [hout] at hok
      · rw [hout] at hok ⊢
        split at hok
        · cases hok
        · next hpos =>
            split at hok
            · cases hok
            · next hconfig =>
                rw [if_neg hpos, if_neg hconfig]
                exact mem_mappedBars.mpr ⟨n, n.isLt, by simp, rfl⟩

/-! ## The error path -/

def baseHeld : List DeviceResource := [.regions, .pciEnable, .listEntry, .xdev]

private theorem errMap_leaves (rest : List DeviceResource) :
    Leaves (errMap true false) (baseHeld ++ rest) rest :=
  Leaves.releaseAll baseHeld rest

private theorem errMask_leaves {x : OpenXdev} (hgot : x.gotRegions = true)
    (huse : x.regionsInUse = false) : Leaves (errMask x) (mappedBars x.bars ++ baseHeld) [] := by
  rw [errMask, hgot, huse]
  exact (Leaves.releaseAll _ _).append (errMap_leaves [])

private theorem errEngines_leaves {x : OpenXdev} (hgot : x.gotRegions = true)
    (huse : x.regionsInUse = false) (hbar : .bar x.configBar ∈ mappedBars x.bars) :
    Leaves (errEngines x) (enginesMem x.engines ++ (mappedBars x.bars ++ baseHeld)) [] :=
  (removeEngines_leaves x.engines (List.mem_append_left _ hbar)).append (errMask_leaves hgot huse)

/-- What the device holds once it is open. -/
def OpenXdev.inventory (x : OpenXdev) : List DeviceResource :=
  (if x.msiEnabled then [.msi] else []) ++
    (enginesMem x.engines ++ (mappedBars x.bars ++ baseHeld))

private theorem errMsix_leaves {x : OpenXdev} (hgot : x.gotRegions = true)
    (huse : x.regionsInUse = false) (hbar : .bar x.configBar ∈ mappedBars x.bars) :
    Leaves (errMsix x) x.inventory [] := by
  rw [errMsix, OpenXdev.inventory]
  cases x.msiEnabled with
  | true => exact (Leaves.release _ _).append (errEngines_leaves hgot huse hbar)
  | false => exact (Leaves.nil _).append (errEngines_leaves hgot huse hbar)

private theorem xdmaDeviceClose_leaves {x : OpenXdev} (hgot : x.gotRegions = true)
    (huse : x.regionsInUse = false) (hbar : .bar x.configBar ∈ mappedBars x.bars) :
    Leaves (xdmaDeviceClose x) x.inventory [] := by
  have hsame : xdmaDeviceClose x = [.use (.bar x.configBar)] ++ errMsix x := by
    simp only [xdmaDeviceClose, errMsix, errEngines, errMask, errMap, errRegions, errEnable,
      List.append_assoc]
  have hheld : .bar x.configBar ∈ x.inventory :=
    List.mem_append_right _ (List.mem_append_right _ (List.mem_append_left _ hbar))
  rw [hsame]
  exact (Leaves.use hheld).append (errMsix_leaves hgot huse hbar)

/-! ## Opening -/

private theorem unheld_mapped (x : XdevBars) (e : EngineId) :
    Unheld e (mappedBars x ++ baseHeld) := by
  refine ⟨fun h => ?_, fun h => ?_, fun h => ?_⟩ <;>
    rcases List.mem_append.mp h with h | h <;>
    first
    | obtain ⟨i, -, -, hi⟩ := mem_mappedBars.mp h
      cases hi
    | simp [baseHeld] at h

private theorem not_mem_msi (x : OpenXdev) :
    DeviceResource.msi ∉ enginesMem x.engines ++ (mappedBars x.bars ++ baseHeld) := by
  intro h
  rcases List.mem_append.mp h with h | h
  · obtain ⟨engine, -, hmem⟩ := List.mem_flatMap.mp h
    rcases mem_engineMem hmem with h | h | h <;> cases h
  · rcases List.mem_append.mp h with h | h
    · obtain ⟨i, -, -, hi⟩ := mem_mappedBars.mp h
      cases hi
    · simp [baseHeld] at h

private theorem probe_leaves (env : OpenEnv) {configBar : Nat} {x : XdevBars}
    (hbar : .bar configBar ∈ mappedBars x) :
    let h2c := probeEngineLoop env configBar .toDevice (channelBound env.h2cChannelMax) 0
    let c2h := probeEngineLoop env configBar .fromDevice (channelBound env.c2hChannelMax) 0
    Leaves ([.use (.bar configBar)] ++ h2c.1 ++ c2h.1) (mappedBars x ++ baseHeld)
      (enginesMem (h2c.2 ++ c2h.2) ++ (mappedBars x ++ baseHeld)) := by
  have hheld : .bar configBar ∈ mappedBars x ++ baseHeld := List.mem_append_left _ hbar
  have hfirst : ∀ j, 0 ≤ j → Unheld (.toDevice, j) (mappedBars x ++ baseHeld) :=
    fun j _ => unheld_mapped x (.toDevice, j)
  obtain ⟨hh2c, hdirs⟩ :=
    probeEngineLoop_leaves env (channelBound env.h2cChannelMax) hheld hfirst
  have hother : ∀ j, 0 ≤ j → Unheld (.fromDevice, j) (enginesMem
      (probeEngineLoop env configBar .toDevice (channelBound env.h2cChannelMax) 0).2 ++
        (mappedBars x ++ baseHeld)) := by
    intro j _
    refine (unheld_mapped x (.fromDevice, j)).enginesMem fun engine hmem heq => ?_
    have hdir := hdirs engine hmem
    rw [heq] at hdir
    cases hdir
  obtain ⟨hc2h, -⟩ := probeEngineLoop_leaves env (channelBound env.c2hChannelMax)
    (List.mem_append_right _ hheld) hother
  refine (((Leaves.use hheld).append hh2c).append hc2h).perm (.refl _) ?_
  simp only [enginesMem, List.flatMap_append, List.append_assoc]
  exact List.perm_append_comm_assoc _ _ _

private theorem openEngines_leaves (env : OpenEnv) {x : OpenXdev} (hgot : x.gotRegions = true)
    (huse : x.regionsInUse = false) (hbar : .bar x.configBar ∈ mappedBars x.bars) :
    let out := openEngines env x
    (out.2 = none → Leaves out.1 (mappedBars x.bars ++ baseHeld) []) ∧
      ∀ x', out.2 = some x' →
        Leaves (out.1 ++ xdmaDeviceClose x') (mappedBars x.bars ++ baseHeld) [] := by
  have hprobe := probe_leaves env hbar
  simp only [openEngines]
  split
  · exact ⟨fun _ => errMask_leaves hgot huse, fun x' h => by cases h⟩
  · split
    · exact ⟨fun _ => hprobe.append (errEngines_leaves hgot huse hbar), fun x' h => by cases h⟩
    · let x' : OpenXdev := { x with
        engines :=
          (probeEngineLoop env x.configBar .toDevice (channelBound env.h2cChannelMax) 0).2 ++
            (probeEngineLoop env x.configBar .fromDevice (channelBound env.c2hChannelMax) 0).2
        msiEnabled := env.enableMsiMsix != .legacy }
      have hmsi : Leaves (if x'.msiEnabled then [.acquire .msi] else [])
          (enginesMem x'.engines ++ (mappedBars x'.bars ++ baseHeld)) x'.inventory := by
        rw [OpenXdev.inventory]
        cases x'.msiEnabled with
        | true => exact Leaves.acquire (not_mem_msi x')
        | false => exact Leaves.nil _
      have hopen := hprobe.append hmsi
      split
      · exact ⟨fun _ => hopen.append (errMsix_leaves hgot huse hbar), fun y h => by cases h⟩
      · refine ⟨(fun h => by cases h), fun y h => ?_⟩
        obtain rfl := Option.some.inj h
        have hheld : .bar x'.configBar ∈ x'.inventory :=
          List.mem_append_right _ (List.mem_append_right _ (List.mem_append_left _ hbar))
        exact (hopen.append (Leaves.use hheld)).append (xdmaDeviceClose_leaves hgot huse hbar)

/-- Built for one BAR, a driver that finds another in its place leaves it mapped. -/
def leftBar (env : OpenEnv) : List DeviceResource :=
  match env.configBarNum with
  | none => []
  | some n =>
      if env.bars.Present n && env.bars.iomap n && !isConfigBar env.bars n then [.bar n] else []

/-- What a failed `xdma_device_open` leaves behind: the device enabled, where its regions are in
use, or the BAR above. -/
def openLeft (env : OpenEnv) : List DeviceResource :=
  if env.kzalloc && env.xdevListAdd && env.pciEnableDevice then
    if env.pciRequestRegions then leftBar env else [.pciEnable]
  else []

private theorem mappedBars_one (n : Fin xdmaBarNum) (mapped : Bool) :
    mappedBars { XdevBars.alloc with bar := Function.update XdevBars.alloc.bar n mapped } =
      if mapped then [.bar n] else [] := by
  revert n mapped
  decide

private theorem mappedBars_failed (env : OpenEnv) (hfail : (openMapBars env).2.2 = false) :
    mappedBars (openMapBars env).2.1 = leftBar env := by
  cases hnum : env.configBarNum with
  | none =>
      simp only [openMapBars, leftBar, hnum] at hfail ⊢
      rw [mapBars_mapped, hfail]
      rfl
  | some n =>
      simp only [openMapBars, leftBar, hnum, mapConfigBar] at hfail ⊢
      rcases mapSingleBar_cases env.bars XdevBars.alloc n with ⟨habsent, hout⟩ |
        ⟨hpresent, hmap, hout⟩ | ⟨hpresent, hmap, len, hlen, -, hout⟩
      · rw [hout, if_pos (Int.le_refl 0), habsent, Bool.false_and, Bool.false_and]
        exact mappedBars_one n false
      · rw [hout, if_pos (by simp), hmap, Bool.and_false, Bool.false_and]
        exact mappedBars_one n false
      · have hpos : ¬ (len : Int) ≤ 0 := by omega
        rw [hout] at hfail ⊢
        rw [if_neg hpos] at hfail ⊢
        split at hfail
        · next hconfig =>
            rw [if_pos hconfig, hpresent, hmap, hconfig]
            exact mappedBars_one n true
        · cases hfail

private theorem leftBar_mapped (env : OpenEnv) (hok : (openMapBars env).2.2 = true) :
    leftBar env = [] := by
  cases hnum : env.configBarNum with
  | none => simp only [leftBar, hnum]
  | some n =>
      simp only [openMapBars, hnum, mapConfigBar] at hok
      split at hok
      · cases hok
      · split at hok
        · cases hok
        · next hconfig =>
            have htrue : isConfigBar env.bars n = true := by simpa using hconfig
            simp [leftBar, hnum, htrue]

/-- Whatever the kernel and the device answer: `xdma_device_open` touches and releases only what
it holds, a failed one leaves `openLeft`, and an opened device that is closed leaves nothing. -/
theorem open_balanced (env : OpenEnv) :
    let out := xdmaDeviceOpen env
    (out.2 = none → Leaves out.1 [] (openLeft env)) ∧
      ∀ x, out.2 = some x → Leaves (out.1 ++ xdmaDeviceClose x) [] [] := by
  have hbase : Leaves [.acquire .xdev, .acquire .listEntry, .acquire .pciEnable,
      .acquire .regions] [] baseHeld := ⟨baseHeld, by decide, .refl _⟩
  have hfresh : ∀ i, .bar i ∉ baseHeld := by simp [baseHeld]
  have hmapped := hbase.append (openMapBars_leaves env hfresh)
  simp only [xdmaDeviceOpen, openLeft]
  cases env.kzalloc with
  | false => exact ⟨fun _ => Leaves.nil [], fun x h => by cases h⟩
  | true =>
      cases env.xdevListAdd with
      | false => exact ⟨fun _ => ⟨[], rfl, .refl _⟩, fun x h => by cases h⟩
      | true =>
          cases env.pciEnableDevice with
          | false => exact ⟨fun _ => ⟨[], rfl, .refl _⟩, fun x h => by cases h⟩
          | true =>
              cases env.pciRequestRegions with
              | false =>
                  exact ⟨fun _ => ⟨[.pciEnable], rfl, .refl _⟩, fun x h => by cases h⟩
              | true =>
                  cases hok : (openMapBars env).2.2 with
                  | false =>
                      refine ⟨fun _ => ?_, fun x h => by cases h⟩
                      rw [mappedBars_failed env hok] at hmapped
                      exact (hmapped.perm (.refl _) List.perm_append_comm).append
                        (errMap_leaves (leftBar env))
                  | true =>
                      have hbar := openMapBars_configBar env hok
                      have hopen := openEngines_leaves env
                        (x := ⟨(openMapBars env).2.1, [], true, false, false⟩) rfl rfl hbar
                      refine ⟨fun hnone => ?_, fun x hx => ?_⟩
                      · rw [leftBar_mapped env hok]
                        exact hmapped.append (hopen.1 hnone)
                      · have hall := hmapped.append (hopen.2 x hx)
                        rw [← List.append_assoc] at hall
                        exact hall

end NupaNet.Xdma
