import NupaNet.Foundation.Fields
import NupaNet.Xdma.Dispatch
import NupaNet.Xdma.Lines

/-!
# Interrupt vectors of the device and lines of the kernel

`irq_setup` requests one line per engine and per user interrupt, and
`prog_irq_msix_channel` and `prog_irq_msix_user` tell the device over which
vector each of them is to be raised.  The two are numbered by different loops;
the file compares them over the life of a device.
-/

namespace NupaNet.Xdma

open NupaNet.Foundation

/-- `user_msi_vector` and `channel_msi_vector`: four sources to a word. -/
structure VectorRegs where
  user : Nat → U32
  channel : Nat → U32

/-- The inner loop of `prog_irq_msix_*`, `left` fields short of a word. -/
def packVectors (max : Nat) : Nat → Nat → Nat → U32 → U32 × Nat
  | 0, i, _, val => (val, i)
  | left + 1, i, shift, val =>
      if i < max then
        packVectors max left (i + 1) (shift + 8) (val ||| (BitVec.ofNat 32 i &&& 0x1f#32) <<< shift)
      else (val, i)

/-- The outer loop: word `j` from vector `i` on.  Every turn takes at least one vector, so `max`
turns are enough. -/
def progVectors (clear : Bool) (max : Nat) : Nat → Nat → Nat → (Nat → U32) → Nat → U32
  | 0, _, _, regs => regs
  | turns + 1, j, i, regs =>
      if i < max then
        let out := if clear then (0#32, i + 4) else packVectors max 4 i 0 0#32
        progVectors clear max turns (j + 1) out.2 (Function.update regs j out.1)
      else regs

def progIrqMsixChannel (cfg : IrqConfig) (clear : Bool) (regs : VectorRegs) : VectorRegs :=
  let max := cfg.c2hChannelMax + cfg.h2cChannelMax
  { regs with channel := progVectors clear max max 0 0 regs.channel }

def progIrqMsixUser (cfg : IrqConfig) (clear : Bool) (regs : VectorRegs) : VectorRegs :=
  let i := cfg.c2hChannelMax + cfg.h2cChannelMax
  let max := i + cfg.userMax
  { regs with user := progVectors clear max max 0 i regs.user }

/-- The words that `irq_legacy_setup` writes when the pin is not INTA: 0x2080 to 0x208C, 0x20A0
and 0x20A4. -/
def progLegacy (pin : Nat) (regs : VectorRegs) : VectorRegs :=
  let val : U32 := BitVec.ofNat 32 (pin - 1)
  let w := val <<< 24 ||| val <<< 16 ||| val <<< 8 ||| val
  { user := fun j => if j < 4 then w else regs.user j
    channel := fun j => if j < 2 then w else regs.channel j }

def irqSetupRegs (fails : Nat → Bool) (x : XdevIrq) (s : Irqs) (regs : VectorRegs) : VectorRegs :=
  match x.cfg.mode with
  | .msix =>
      if (irqSetup fails x s).2.2 then
        progIrqMsixUser x.cfg false (progIrqMsixChannel x.cfg false regs)
      else regs
  | .msi => regs
  | .legacy => if 1 < x.cfg.interruptPin then progLegacy x.cfg.interruptPin regs else regs

def irqTeardownRegs (x : XdevIrq) (regs : VectorRegs) : VectorRegs :=
  match x.cfg.mode with
  | .msix => progIrqMsixUser x.cfg true (progIrqMsixChannel x.cfg true regs)
  | .msi | .legacy => regs

structure RoutedLife where
  life : IrqLife
  regs : VectorRegs

namespace RoutedLife

def start (regs : VectorRegs) : RoutedLife := ⟨IrqLife.start, regs⟩

def regsAfter (pollMode : Bool) (s : RoutedLife) : LifeEvent → VectorRegs
  | .open cfg fails => irqSetupRegs fails (XdevIrq.alloc cfg) s.life.irqs s.regs
  | .offline | .close => (s.life.xdev.map fun x => irqTeardownRegs x s.regs).getD s.regs
  | .online fails =>
      if pollMode then s.regs
      else (s.life.xdev.map fun x => irqSetupRegs fails x s.life.irqs s.regs).getD s.regs

def step (pollMode : Bool) (s : RoutedLife) (e : LifeEvent) : Option RoutedLife :=
  (s.life.step pollMode e).map fun life => ⟨life, s.regsAfter pollMode e⟩

end RoutedLife

/-! ## What the loops write -/

private theorem packVectors_field {max left i m k : Nat} {val : U32} (hm : m + left ≤ 4)
    (hk : k < 4) :
    byteField (packVectors max left i (8 * m) val).1 k = byteField val k |||
      if m ≤ k ∧ k < m + left ∧ i + (k - m) < max then
        BitVec.ofNat 32 (i + (k - m)) &&& 0x1f#32
      else 0#32 := by
  induction left generalizing i m val with
  | zero =>
      rw [if_neg (by omega)]
      simp [packVectors]
  | succ left ih =>
      rw [packVectors]
      split
      · next hi =>
          rw [show 8 * m + 8 = 8 * (m + 1) by omega, ih (by omega), byteField_or,
            byteField_shiftLeft _ hk, BitVec.or_assoc]
          congr 1
          by_cases hkm : k = m
          · subst hkm
            rw [if_pos rfl, if_neg (by omega), if_pos ⟨by omega, by omega, by omega⟩]
            simp
          · rw [if_neg hkm, BitVec.zero_or]
            by_cases hin : m + 1 ≤ k ∧ k < m + 1 + left ∧ i + 1 + (k - (m + 1)) < max
            · rw [if_pos hin, if_pos (by omega), show i + 1 + (k - (m + 1)) = i + (k - m) by omega]
            · rw [if_neg hin, if_neg (by omega)]
      · next hi =>
          rw [if_neg (by omega)]
          simp

private theorem packVectors_next {max left i shift : Nat} {val : U32} (hi : i ≤ max) :
    (packVectors max left i shift val).2 = min (i + left) max := by
  induction left generalizing i shift val with
  | zero =>
      simp only [packVectors]
      omega
  | succ left ih =>
      rw [packVectors]
      split
      · rw [ih (by omega)]
        omega
      · omega

def vectorWord (clear : Bool) (max i : Nat) : U32 :=
  if clear then 0#32 else (packVectors max 4 i 0 0#32).1

private theorem progVectors_word {clear : Bool} {max turns j i w : Nat} {regs : Nat → U32}
    (hturns : max ≤ i + turns) :
    progVectors clear max turns j i regs w =
      if j ≤ w ∧ i + 4 * (w - j) < max then vectorWord clear max (i + 4 * (w - j))
      else regs w := by
  induction turns generalizing j i regs with
  | zero =>
      rw [if_neg (by omega)]
      rfl
  | succ turns ih =>
      rw [progVectors]
      split
      · next hi =>
          have hnext : (if clear then (0#32, i + 4) else packVectors max 4 i 0 0#32).2 = i + 4 ∨
              max ≤ i + 4 ∧
                (if clear then (0#32, i + 4) else packVectors max 4 i 0 0#32).2 = max := by
            cases clear with
            | true => exact .inl rfl
            | false =>
                simp only [Bool.false_eq_true, if_false, packVectors_next (Nat.le_of_lt hi)]
                omega
          have hword : (if clear then (0#32, i + 4) else packVectors max 4 i 0 0#32).1 =
              vectorWord clear max i := by
            cases clear <;> rfl
          generalize (if clear then (0#32, i + 4) else packVectors max 4 i 0 0#32) = out at *
          rw [ih (by omega), hword]
          by_cases hj : w = j
          · subst hj
            rw [if_neg (by omega), Function.update_self, if_pos ⟨by omega, by omega⟩,
              Nat.sub_self, Nat.mul_zero, Nat.add_zero]
          · rw [Function.update_of_ne hj]
            by_cases hin : j + 1 ≤ w ∧ out.2 + 4 * (w - (j + 1)) < max
            · have hout : out.2 = i + 4 := by omega
              rw [if_pos hin, if_pos (by omega), hout,
                show i + 4 + 4 * (w - (j + 1)) = i + 4 * (w - j) by omega]
            · rw [if_neg hin, if_neg (by omega)]
      · rw [if_neg (by omega)]

def vectorOf (regs : Nat → U32) (src : Nat) : Nat := (byteField (regs (src / 4)) (src % 4)).toNat

private theorem vectorOf_progVectors {max turns first src : Nat} {regs : Nat → U32}
    (hturns : max ≤ first + turns) (hsrc : first + src < max) (hmax : max ≤ 32) :
    vectorOf (progVectors false max turns 0 first regs) src = first + src := by
  have hpos : first + 4 * (src / 4) + (src % 4 - 0) = first + src := by omega
  rw [vectorOf, progVectors_word hturns, Nat.sub_zero, if_pos ⟨by omega, by omega⟩, vectorWord,
    if_neg (by decide)]
  have hfield := @packVectors_field max 4 (first + 4 * (src / 4)) 0 (src % 4) 0#32 (by omega)
    (by omega)
  rw [Nat.mul_zero] at hfield
  rw [hfield, hpos, if_pos ⟨by omega, by omega, hsrc⟩, byteField_zero, BitVec.zero_or,
    ofNat_and_low5 (by omega), BitVec.toNat_ofNat]
  exact Nat.mod_eq_of_lt (by omega)

private theorem vectorOf_progLegacy {pin : Nat} {regs : VectorRegs} (hpin : pin ≤ 4) :
    (∀ n < 8, vectorOf (progLegacy pin regs).channel n = pin - 1) ∧
      ∀ i < 16, vectorOf (progLegacy pin regs).user i = pin - 1 := by
  have hfield : ∀ k < 4, (byteField (BitVec.ofNat 32 (pin - 1) <<< 24 |||
      BitVec.ofNat 32 (pin - 1) <<< 16 ||| BitVec.ofNat 32 (pin - 1) <<< 8 |||
        BitVec.ofNat 32 (pin - 1)) k).toNat = pin - 1 := by
    revert pin
    decide
  constructor
  · intro n hn
    simp only [vectorOf, progLegacy, if_pos (show n / 4 < 2 by omega)]
    exact hfield _ (by omega)
  · intro i hi
    simp only [vectorOf, progLegacy, if_pos (show i / 4 < 4 by omega)]
    exact hfield _ (by omega)

/-! ## Programmed while the lines are up -/

/-- What `xdma_device_open` makes of its arguments, and the pins that PCI has. -/
structure Sized (cfg : IrqConfig) : Prop where
  h2c : cfg.h2cChannelMax ≤ 4
  c2h : cfg.c2hChannelMax ≤ 4
  user : cfg.userMax ≤ 16
  pin : cfg.interruptPin ≤ 4

/-- Every source is raised over the vector of its own number; without MSI-X, over the pin. -/
structure Programmed (cfg : IrqConfig) (regs : VectorRegs) : Prop where
  channel : cfg.mode = .msix → ∀ n < cfg.h2cChannelMax + cfg.c2hChannelMax,
    vectorOf regs.channel n = n
  user : cfg.mode = .msix → ∀ i < cfg.userMax,
    vectorOf regs.user i = cfg.h2cChannelMax + cfg.c2hChannelMax + i
  legacy : cfg.mode = .legacy → 1 < cfg.interruptPin →
    (∀ n < 8, vectorOf regs.channel n = cfg.interruptPin - 1) ∧
      ∀ i < 16, vectorOf regs.user i = cfg.interruptPin - 1

private theorem programmed_msix {cfg : IrqConfig} (hsized : Sized cfg) (hmode : cfg.mode = .msix)
    (regs : VectorRegs) :
    Programmed cfg (progIrqMsixUser cfg false (progIrqMsixChannel cfg false regs)) := by
  have hh2c := hsized.h2c
  have hc2h := hsized.c2h
  have huser := hsized.user
  refine ⟨fun _ n hn => ?_, fun _ i hi => ?_, fun hlegacy => ?_⟩
  · have hvector := @vectorOf_progVectors (cfg.c2hChannelMax + cfg.h2cChannelMax)
      (cfg.c2hChannelMax + cfg.h2cChannelMax) 0 n regs.channel (by omega) (by omega) (by omega)
    rwa [Nat.zero_add] at hvector
  · rw [Nat.add_comm cfg.h2cChannelMax]
    exact vectorOf_progVectors (by omega) (by omega) (by omega)
  · rw [hmode] at hlegacy
    cases hlegacy

private theorem programmed_irqSetupRegs {fails : Nat → Bool} {x : XdevIrq} {s : Irqs}
    {regs : VectorRegs}
    (hsized : Sized x.cfg) (hok : (irqSetup fails x s).2.2 = true) :
    Programmed x.cfg (irqSetupRegs fails x s regs) := by
  cases hmode : x.cfg.mode with
  | msix =>
      simp only [irqSetupRegs, hmode, if_pos hok]
      exact programmed_msix hsized hmode regs
  | msi =>
      refine ⟨?_, ?_, ?_⟩ <;> intro h <;> rw [hmode] at h <;> cases h
  | legacy =>
      refine ⟨fun h => ?_, fun h => ?_, fun _ hpin => ?_⟩
      · rw [hmode] at h
        cases h
      · rw [hmode] at h
        cases h
      · simp only [irqSetupRegs, hmode, if_pos hpin]
        exact vectorOf_progLegacy hsized.pin

private theorem Programmed.irqSetupRegs {fails : Nat → Bool} {x : XdevIrq} {s : Irqs}
    {regs : VectorRegs}
    (h : Programmed x.cfg regs) (hsized : Sized x.cfg) :
    Programmed x.cfg (irqSetupRegs fails x s regs) := by
  by_cases hok : (irqSetup fails x s).2.2 = true
  · exact programmed_irqSetupRegs hsized hok
  · cases hmode : x.cfg.mode with
    | msix =>
        simp only [Xdma.irqSetupRegs, hmode, if_neg hok]
        exact h
    | msi =>
        simp only [Xdma.irqSetupRegs, hmode]
        exact h
    | legacy =>
        simp only [Xdma.irqSetupRegs, hmode]
        split
        · refine ⟨fun hm => ?_, fun hm => ?_, fun _ _ => vectorOf_progLegacy hsized.pin⟩
          · rw [hmode] at hm
            cases hm
          · rw [hmode] at hm
            cases hm
        · exact h

private theorem irqSetup_cfg (fails : Nat → Bool) (x : XdevIrq) (s : Irqs) :
    (irqSetup fails x s).1.cfg = x.cfg := by
  cases hmode : x.cfg.mode with
  | msix =>
      simp only [irqSetup, hmode]
      split <;> rfl
  | msi =>
      simp only [irqSetup, hmode, irqLineSetup]
      split <;> rfl
  | legacy =>
      simp only [irqSetup, hmode, irqLineSetup]
      split
      · rfl
      · split <;> rfl

namespace RoutedLife

def Ok (pollMode : Bool) (s : RoutedLife) (e : LifeEvent) : Prop :=
  LifeOk pollMode s.life e ∧ ∀ cfg fails, e = .open cfg fails → Sized cfg

structure Inv (s : RoutedLife) : Prop where
  life : LifeInv s.life
  sized : ∀ x, s.life.xdev = some x → Sized x.cfg
  programmed : ∀ x, s.life.xdev = some x → s.life.irqs.held ≠ [] → Programmed x.cfg s.regs

theorem inv_start (regs : VectorRegs) : Inv (start regs) where
  life := lifeInv_start
  sized x hx := by cases hx
  programmed x hx := by cases hx

theorem Inv.step {pollMode : Bool} {s t : RoutedLife} {e : LifeEvent} (h : Inv s)
    (hok : Ok pollMode s e) (hs : s.step pollMode e = some t) : Inv t := by
  obtain ⟨life, hlife, rfl⟩ := Option.map_eq_some_iff.mp hs
  have hinv : LifeInv life := h.life.step hok.1 hlife
  cases e with
  | «open» cfg fails =>
      have hsized := hok.2 cfg fails rfl
      simp only [IrqLife.step] at hlife
      split at hlife
      · cases hlife
      · split at hlife
        · next hgranted =>
            cases hlife
            have hcfg : (irqSetup fails (XdevIrq.alloc cfg) s.life.irqs).1.cfg = cfg :=
              irqSetup_cfg fails (XdevIrq.alloc cfg) s.life.irqs
            refine ⟨hinv, fun x hx => ?_, fun x hx _ => ?_⟩
            · obtain rfl := Option.some.inj hx
              rwa [hcfg]
            · obtain rfl := Option.some.inj hx
              rw [hcfg]
              exact programmed_irqSetupRegs (x := XdevIrq.alloc cfg) hsized hgranted
        · cases hlife
          exact ⟨hinv, (fun x hx => by cases hx), fun x hx => by cases hx⟩
  | offline =>
      obtain ⟨x, hx, rfl⟩ := Option.map_eq_some_iff.mp hlife
      have hdown := (irqTeardown_up ((h.life.upOrDown x hx).resolve_left hok.1)).1
      exact ⟨hinv, h.sized, fun _ _ hheld => absurd hdown hheld⟩
  | online fails =>
      obtain ⟨x, hx, hlife⟩ := Option.map_eq_some_iff.mp hlife
      cases pollMode with
      | true =>
          obtain rfl : s.life = life := hlife
          exact h
      | false =>
          obtain rfl : IrqLife.mk (some (irqSetup fails x s.life.irqs).1)
            (irqSetup fails x s.life.irqs).2.1 = life := hlife
          have hcfg := irqSetup_cfg fails x s.life.irqs
          have hregs : s.regsAfter false (.online fails) =
              irqSetupRegs fails x s.life.irqs s.regs := by
            simp [regsAfter, hx]
          refine ⟨hinv, fun x' hx' => ?_, fun x' hx' hheld => ?_⟩
          · obtain rfl := Option.some.inj hx'
            rw [hcfg]
            exact h.sized x hx
          · obtain rfl := Option.some.inj hx'
            rw [hcfg, hregs]
            by_cases hdown : s.life.irqs.held = []
            · have hcond := hok.1 rfl x hx
              rw [if_pos hdown] at hcond
              rcases (irqSetup_down hdown hcond).held with ⟨hgranted, -⟩ | ⟨-, hnone⟩
              · exact programmed_irqSetupRegs (h.sized x hx) hgranted
              · exact absurd hnone hheld
            · exact (h.programmed x hx hdown).irqSetupRegs (h.sized x hx)
  | close =>
      obtain ⟨x, hx, rfl⟩ := Option.map_eq_some_iff.mp hlife
      exact ⟨hinv, (fun x hx => by cases hx), fun x hx => by cases hx⟩

end RoutedLife

/-! ## The line of a vector -/

namespace IrqConfig

variable (cfg : IrqConfig)

def cookieAt (v : Nat) : Cookie :=
  if v < cfg.h2cChannelMax then .h2c v
  else if v < cfg.h2cChannelMax + cfg.c2hChannelMax then .c2h (v - cfg.h2cChannelMax)
  else .user (v - (cfg.h2cChannelMax + cfg.c2hChannelMax))

private theorem msix_lines : cfg.channelLines ++ cfg.userLines =
    (List.range (cfg.h2cChannelMax + cfg.c2hChannelMax + cfg.userMax)).map fun v =>
      (⟨cfg.pciIrqVector v, cfg.cookieAt v⟩ : Line) := by
  rw [List.range_add, List.range_add, List.map_append, List.map_append, List.map_map,
    List.map_map]
  have hh2c : cfg.h2cLines = (List.range cfg.h2cChannelMax).map fun v =>
      (⟨cfg.pciIrqVector v, cfg.cookieAt v⟩ : Line) := by
    refine List.map_congr_left fun v hv => ?_
    rw [cookieAt, if_pos (List.mem_range.mp hv)]
  rw [channelLines, hh2c]
  congr 1
  · congr 1
    refine List.map_congr_left fun i hi => ?_
    have hlt := List.mem_range.mp hi
    simp only [Function.comp_apply, cookieAt]
    rw [if_neg (by omega), if_pos (by omega), Nat.add_sub_cancel_left]
  · refine List.map_congr_left fun i hi => ?_
    simp only [Function.comp_apply, cookieAt]
    rw [if_neg (by omega), if_neg (by omega), Nat.add_sub_cancel_left]

end IrqConfig

def cookiesOn (cfg : IrqConfig) (held : List Line) (v : Nat) : List Cookie :=
  (held.filter fun line => line.vector = cfg.pciIrqVector v).map Line.cookie

private theorem Up.cookiesOn {x : XdevIrq} {held : List Line} (h : Up x held)
    (hmode : x.cfg.mode = .msix) {v : Nat}
    (hv : v < x.cfg.h2cChannelMax + x.cfg.c2hChannelMax + x.cfg.userMax) :
    cookiesOn x.cfg held v = [x.cfg.cookieAt v] := by
  have hlines : held.Perm (x.cfg.channelLines ++ x.cfg.userLines) := by
    have hperm := h.perm
    rwa [IrqConfig.lines, hmode] at hperm
  rw [x.cfg.msix_lines] at hlines
  have hfilter := (hlines.filter fun line => line.vector = x.cfg.pciIrqVector v).map Line.cookie
  have hentry : ((fun line : Line => decide (line.vector = x.cfg.pciIrqVector v)) ∘ fun v =>
      (⟨x.cfg.pciIrqVector v, x.cfg.cookieAt v⟩ : Line)) = fun i => decide (i = v) := by
    funext i
    simp [x.cfg.vector_inj.eq_iff]
  rw [List.filter_map, hentry, List.filter_eq, List.count_eq_one_of_mem List.nodup_range
    (List.mem_range.mpr hv)] at hfilter
  exact List.perm_singleton.mp hfilter

/-! ## The bits of the engines -/

namespace EngineTable

/-- The probe of the H2C engines ended at one that was found and could not be set up: its bit is
given away, but it is not counted. -/
def HalfProbed (found : Direction → Nat → Option Bool) : Prop :=
  (probeEngines found).channelMax .toDevice < xdmaChannelNumMax ∧
    found .toDevice ((probeEngines found).channelMax .toDevice) = some false

instance (found : Direction → Nat → Option Bool) : Decidable (HalfProbed found) :=
  inferInstanceAs (Decidable (_ ∧ _))

private theorem probeLoop_enginesNum (dir : Direction) (found : Nat → Option Bool) (left i : Nat)
    (t : EngineTable) :
    let out := probeLoop dir found left i t
    out.1.enginesNum = t.enginesNum + (out.2 - i) +
      if out.2 < i + left ∧ found out.2 = some false then 1 else 0 := by
  induction left generalizing i t with
  | zero => simp [probeLoop]
  | succ left ih =>
      cases hfound : found i with
      | none => simp [probeLoop, hfound]
      | some ok =>
          cases ok with
          | false =>
              simp [probeLoop, hfound, engineInit]
          | true =>
              have hle := (probeLoop_probed dir found left (i + 1) (t.engineInit dir i)).le
              have hrest := ih (i + 1) (t.engineInit dir i)
              have hnum : (t.engineInit dir i).enginesNum = t.enginesNum + 1 := rfl
              simp only [probeLoop, hfound]
              simp only [hnum] at hrest
              rw [hrest, show i + 1 + left = i + (left + 1) by omega]
              omega

private theorem probeFirst_enginesNum (found : Nat → Option Bool) :
    let t := empty.probeDirection .toDevice found
    t.enginesNum = t.channelMax .toDevice +
      if t.channelMax .toDevice < xdmaChannelNumMax ∧
        found (t.channelMax .toDevice) = some false then 1 else 0 := by
  have hloop := probeLoop_enginesNum .toDevice found 4 0 empty
  simp only [probeDirection, show empty.channelMax .toDevice = 4 from rfl, Function.update_self,
    xdmaChannelNumMax]
  simpa [show empty.enginesNum = 0 from rfl] using hloop

private theorem probeEngines_channelMax (found : Direction → Nat → Option Bool) :
    (probeEngines found).channelMax .toDevice =
      (empty.probeDirection .toDevice (found .toDevice)).channelMax .toDevice := by
  rw [probeEngines]
  generalize empty.probeDirection .toDevice (found .toDevice) = half
  have hloop := probeLoop_probed .fromDevice (found .fromDevice) (half.channelMax .fromDevice) 0
    half
  simp only [probeDirection]
  rw [Function.update_of_ne (by decide), hloop.channelMax]

private theorem probeEngines_bits (found : Direction → Nat → Option Bool) :
    let t := probeEngines found
    (∀ i < t.channelMax .toDevice, t.bit (.toDevice, i) = BitVec.twoPow 32 i) ∧
      ∀ i < t.channelMax .fromDevice, t.bit (.fromDevice, i) =
        BitVec.twoPow 32 (t.channelMax .toDevice + (if HalfProbed found then 1 else 0) + i) := by
  obtain ⟨-, -, hmax, hfirst⟩ := probeFirst (found .toDevice)
  have hnum := probeFirst_enginesNum (found .toDevice)
  rw [← probeEngines_channelMax found] at hfirst
  simp only [← probeEngines_channelMax found] at hnum
  have htable : probeEngines found = (empty.probeDirection .toDevice
    (found .toDevice)).probeDirection .fromDevice (found .fromDevice) := rfl
  generalize empty.probeDirection .toDevice (found .toDevice) = half at *
  have hloop := probeLoop_probed .fromDevice (found .fromDevice) 4 0 half
  rw [probeDirection, hmax] at htable
  have hengines : (probeEngines found).engine =
      (probeLoop .fromDevice (found .fromDevice) 4 0 half).1.engine := by rw [htable]
  have hcount : (probeEngines found).channelMax .fromDevice =
      (probeLoop .fromDevice (found .fromDevice) 4 0 half).2 := by
    simp [htable]
  simp only [bit, hengines]
  refine ⟨fun i hi => ?_, fun i hi => ?_⟩
  · rw [hloop.otherEngine .toDevice (by decide), (hfirst i hi).1]
  · rw [hcount] at hi
    rw [hloop.engine i (Nat.zero_le i) hi, hnum, Nat.sub_zero]
    rfl

end EngineTable

/-! ## Where interrupts arrive -/

namespace RoutedLife

def Arrives (s : RoutedLife) (cfg : IrqConfig) (bit : U32) (cookie : Cookie) : Prop :=
  ∃ n < 32, bit = BitVec.twoPow 32 n ∧
    cookiesOn cfg s.life.irqs.held (vectorOf s.regs.channel n) = [cookie]

/-- Every user interrupt and every H2C engine is raised over its own line; so is every C2H engine,
unless an H2C engine was found and could not be set up.  Then a C2H engine is raised over the
line of the next one. -/
structure Routed (s : RoutedLife) (cfg : IrqConfig) (found : Direction → Nat → Option Bool) :
    Prop where
  user : ∀ i < cfg.userMax,
    cookiesOn cfg s.life.irqs.held (vectorOf s.regs.user i) = [.user i]
  h2c : ∀ i < cfg.h2cChannelMax,
    s.Arrives cfg ((EngineTable.probeEngines found).bit (.toDevice, i)) (.h2c i)
  c2h : ¬ EngineTable.HalfProbed found → ∀ i < cfg.c2hChannelMax,
    s.Arrives cfg ((EngineTable.probeEngines found).bit (.fromDevice, i)) (.c2h i)
  shifted : EngineTable.HalfProbed found → ∀ i, i + 1 < cfg.c2hChannelMax →
    s.Arrives cfg ((EngineTable.probeEngines found).bit (.fromDevice, i)) (.c2h (i + 1))

theorem Inv.routed {s : RoutedLife} {x : XdevIrq} {found : Direction → Nat → Option Bool}
    (h : Inv s) (hx : s.life.xdev = some x) (hheld : s.life.irqs.held ≠ [])
    (hmode : x.cfg.mode = .msix)
    (hh2c : x.cfg.h2cChannelMax = (EngineTable.probeEngines found).channelMax .toDevice)
    (hc2h : x.cfg.c2hChannelMax = (EngineTable.probeEngines found).channelMax .fromDevice) :
    s.Routed x.cfg found := by
  have hsized := h.sized x hx
  have hprog := h.programmed x hx hheld
  have hup := (h.life.upOrDown x hx).resolve_left hheld
  have hfirst := hsized.h2c
  have hsecond := hsized.c2h
  obtain ⟨hto, hfrom⟩ := EngineTable.probeEngines_bits found
  rw [← hh2c] at hto hfrom
  rw [← hc2h] at hfrom
  have hengine : ∀ n, n < x.cfg.h2cChannelMax + x.cfg.c2hChannelMax →
      cookiesOn x.cfg s.life.irqs.held (vectorOf s.regs.channel n) = [x.cfg.cookieAt n] := by
    intro n hn
    rw [hprog.channel hmode n hn]
    exact hup.cookiesOn hmode (by omega)
  refine ⟨fun i hi => ?_, fun i hi => ?_, fun hwhole i hi => ?_, fun hhalf i hi => ?_⟩
  · rw [hprog.user hmode i hi, hup.cookiesOn hmode (by omega), IrqConfig.cookieAt,
      if_neg (by omega), if_neg (by omega), Nat.add_sub_cancel_left]
  · refine ⟨i, by omega, hto i hi, ?_⟩
    rw [hengine i (by omega), IrqConfig.cookieAt, if_pos hi]
  · have hbit := hfrom i hi
    rw [if_neg hwhole, Nat.add_zero] at hbit
    refine ⟨_, by omega, hbit, ?_⟩
    rw [hengine _ (by omega), IrqConfig.cookieAt, if_neg (by omega), if_pos (by omega),
      Nat.add_sub_cancel_left]
  · have hbit := hfrom i (by omega)
    rw [if_pos hhalf] at hbit
    refine ⟨_, by omega, hbit, ?_⟩
    rw [hengine _ (by omega), IrqConfig.cookieAt, if_neg (by omega), if_pos (by omega),
      show x.cfg.h2cChannelMax + 1 + i - x.cfg.h2cChannelMax = i + 1 by omega]

end RoutedLife

/-- In every life of a device whose set-ups request all lines or none, while they are up: with MSI-X
every source is raised over the line that was requested for it, up to the shift after an engine
that was given up; with a legacy interrupt every source is raised over the device's pin. -/
theorem vectors_routed (pollMode : Bool) {regs : VectorRegs} {es : List LifeEvent}
    {s : RoutedLife} {x : XdevIrq} {found : Direction → Nat → Option Bool}
    (run : Runs (RoutedLife.step pollMode) (RoutedLife.Ok pollMode) (RoutedLife.start regs) es s)
    (hx : s.life.xdev = some x) (hheld : s.life.irqs.held ≠ [])
    (hh2c : x.cfg.h2cChannelMax = (EngineTable.probeEngines found).channelMax .toDevice)
    (hc2h : x.cfg.c2hChannelMax = (EngineTable.probeEngines found).channelMax .fromDevice) :
    (x.cfg.mode = .msix → s.Routed x.cfg found) ∧
      (x.cfg.mode = .legacy → 1 < x.cfg.interruptPin →
        (∀ n < 8, vectorOf s.regs.channel n = x.cfg.interruptPin - 1) ∧
          ∀ i < 16, vectorOf s.regs.user i = x.cfg.interruptPin - 1) := by
  have hinv := run.invariant (fun h hok hs => RoutedLife.Inv.step h hok hs)
    (RoutedLife.inv_start regs)
  exact ⟨fun hmode => hinv.routed hx hheld hmode hh2c hc2h,
    (hinv.programmed x hx hheld).legacy⟩

def halfPair : Direction → Nat → Option Bool
  | .toDevice, _ => some false
  | .fromDevice, i => if i < 2 then some true else none

def halfPairConfig : IrqConfig :=
  { smallConfig .msix with
    h2cChannelMax := 0
    c2hChannelMax := 2
    userMax := 16
    userMax_pos := Nat.succ_pos 15 }

theorem vectors_routed_halfPair :
    ∃ s x, Runs (RoutedLife.step false) (RoutedLife.Ok false)
        (RoutedLife.start ⟨fun _ => 0, fun _ => 0⟩)
        [.open halfPairConfig neverFails, .offline, .online neverFails] s ∧
      s.life.xdev = some x ∧ EngineTable.HalfProbed halfPair ∧
      cookiesOn x.cfg s.life.irqs.held (vectorOf s.regs.user 15) = [.user 15] ∧
      s.Arrives x.cfg ((EngineTable.probeEngines halfPair).bit (.fromDevice, 0)) (.c2h 1) := by
  have hgrant : NoPartialGrant halfPairConfig neverFails := fun _ _ => .inr fun _ _ => rfl
  have hsized : Sized halfPairConfig := by constructor <;> decide
  have hrun : ∃ s, Runs (RoutedLife.step false) (RoutedLife.Ok false)
      (RoutedLife.start ⟨fun _ => 0, fun _ => 0⟩)
      [.open halfPairConfig neverFails, .offline, .online neverFails] s ∧
        ∃ x, s.life.xdev = some x ∧ x.cfg = halfPairConfig ∧ s.life.irqs.held ≠ [] := by
    refine ⟨_, .next ⟨hgrant, ?_⟩ rfl (.next ⟨?_, ?_⟩ rfl (.next ⟨?_, ?_⟩ rfl (.refl _))), _,
      rfl, rfl, List.cons_ne_nil _ _⟩
    · intro cfg fails h
      cases h
      exact hsized
    · exact List.cons_ne_nil _ _
    · intro cfg fails h
      cases h
    · intro _ x hx
      obtain rfl := Option.some.inj hx
      exact hgrant
    · intro cfg fails h
      cases h
  obtain ⟨s, run, x, hx, hcfg, hheld⟩ := hrun
  have hrouted : s.Routed x.cfg halfPair :=
    (vectors_routed false run hx hheld (by rw [hcfg]; decide) (by rw [hcfg]; decide)).1
      (by rw [hcfg]; rfl)
  have hhalf : EngineTable.HalfProbed halfPair := by decide
  refine ⟨s, x, run, hx, hhalf, hrouted.user 15 ?_, hrouted.shifted hhalf 0 ?_⟩
  · rw [hcfg]
    decide
  · rw [hcfg]
    decide

end NupaNet.Xdma
