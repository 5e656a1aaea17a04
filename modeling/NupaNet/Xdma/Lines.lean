import Mathlib.Data.List.Nodup
import Mathlib.Data.List.TakeWhile
import Mathlib.Logic.Function.Basic
import NupaNet.Foundation.Run

/-!
# Interrupt lines over the life of a device

`irq_setup` and `irq_teardown` with the calls that reach them: `xdma_device_open`
from the probe, `xdma_device_offline` and `xdma_device_online` from the error and
reset callbacks, `xdma_device_close` from the removal.  A line is a vector
together with the cookie it was requested for, as `free_irq` names it.
-/

namespace NupaNet.Xdma

open NupaNet.Foundation

inductive Cookie where
  | h2c (i : Nat)
  | c2h (i : Nat)
  | user (i : Nat)
  | xdev
  deriving DecidableEq, Repr

structure Line where
  vector : Nat
  cookie : Cookie
  deriving DecidableEq, Repr

inductive IrqMode where
  | msix
  | msi
  | legacy
  deriving DecidableEq, Repr

/-- What the probe finds: the mode `enable_msi_msix` arrives at, the engines, and the interrupt
numbers of the kernel.  Linux numbers are never 0, and those of different MSI-X entries differ;
`xdma_device_open` sets a `user_max` of 0 to `MAX_USER_IRQ`. -/
structure IrqConfig where
  mode : IrqMode
  h2cChannelMax : Nat
  c2hChannelMax : Nat
  userMax : Nat
  interruptPin : Nat
  pdevIrq : Nat
  pciIrqVector : Nat → Nat
  userMax_pos : 0 < userMax
  vector_pos : ∀ j, 0 < pciIrqVector j
  vector_inj : Function.Injective pciIrqVector

namespace IrqConfig

def h2cLines (cfg : IrqConfig) : List Line :=
  (List.range cfg.h2cChannelMax).map fun i => ⟨cfg.pciIrqVector i, .h2c i⟩

def c2hLines (cfg : IrqConfig) : List Line :=
  (List.range cfg.c2hChannelMax).map fun i =>
    ⟨cfg.pciIrqVector (cfg.h2cChannelMax + i), .c2h i⟩

def channelLines (cfg : IrqConfig) : List Line := cfg.h2cLines ++ cfg.c2hLines

def userLines (cfg : IrqConfig) : List Line :=
  (List.range cfg.userMax).map fun i =>
    ⟨cfg.pciIrqVector (cfg.h2cChannelMax + cfg.c2hChannelMax + i), .user i⟩

def lines (cfg : IrqConfig) : List Line :=
  match cfg.mode with
  | .msix => cfg.channelLines ++ cfg.userLines
  | .msi | .legacy => [⟨cfg.pdevIrq, .xdev⟩]

end IrqConfig

/-! ## The kernel's table -/

/-- The lines requested by this driver, and whether a `free_irq` has named one that was not. -/
structure Irqs where
  held : List Line
  badFree : Bool

namespace Irqs

/-- A vector that is in use is refused unless both requests share it. -/
def requestIrq (s : Irqs) (shared fails : Bool) (line : Line) : Option Irqs :=
  if fails || !shared && decide (line.vector ∈ s.held.map Line.vector) then none
  else some { s with held := line :: s.held }

def freeIrq (s : Irqs) (line : Line) : Irqs :=
  if line ∈ s.held then { s with held := s.held.erase line } else { s with badFree := true }

def freeAll (s : Irqs) (lines : List Line) : Irqs := lines.foldl freeIrq s

/-- Requests the lines in turn; `fails` says which request the kernel refuses, counted from `k`.
Returns the lines granted and whether all were. -/
def requestAll (fails : Nat → Bool) : Nat → List Line → Irqs → Irqs × List Line × Bool
  | _, [], s => (s, [], true)
  | k, line :: rest, s =>
      match s.requestIrq false (fails k) line with
      | none => (s, [], false)
      | some s' =>
          let out := requestAll fails (k + 1) rest s'
          (out.1, line :: out.2.1, out.2.2)

end Irqs

/-! ## Set-up and teardown -/

structure XdevIrq where
  cfg : IrqConfig
  irqLine : Int
  msixIrqLine : Cookie → Nat

def XdevIrq.alloc (cfg : IrqConfig) : XdevIrq := ⟨cfg, -1, fun _ => 0⟩

/-- `engine->msix_irq_line` of the engines whose request was granted. -/
def noteLines (msixIrqLine : Cookie → Nat) (granted : List Line) : Cookie → Nat :=
  granted.foldl (fun f line => Function.update f line.cookie line.vector) msixIrqLine

def irqMsixChannelSetup (fails : Nat → Bool) (x : XdevIrq) (s : Irqs) : XdevIrq × Irqs × Bool :=
  let out := Irqs.requestAll fails 0 x.cfg.channelLines s
  ({ x with msixIrqLine := noteLines x.msixIrqLine out.2.1 }, out.1, out.2.2)

def irqMsixUserSetup (fails : Nat → Bool) (x : XdevIrq) (s : Irqs) : Irqs × Bool :=
  let out := Irqs.requestAll fails x.cfg.channelLines.length x.cfg.userLines s
  if out.2.2 then (out.1, true) else (out.1.freeAll out.2.1.reverse, false)

/-- `irq_msi_setup`, and the last lines of `irq_legacy_setup`: `irq_line` is set before the
request. -/
def irqLineSetup (shared fails : Bool) (x : XdevIrq) (s : Irqs) : XdevIrq × Irqs × Bool :=
  let x' := { x with irqLine := (x.cfg.pdevIrq : Int) }
  match s.requestIrq shared fails ⟨x.cfg.pdevIrq, .xdev⟩ with
  | none => (x', s, false)
  | some s' => (x', s', true)

def irqSetup (fails : Nat → Bool) (x : XdevIrq) (s : Irqs) : XdevIrq × Irqs × Bool :=
  match x.cfg.mode with
  | .msix =>
      let channel := irqMsixChannelSetup fails x s
      if !channel.2.2 then channel
      else (channel.1, irqMsixUserSetup fails channel.1 channel.2.1)
  | .msi => irqLineSetup false (fails 0) x s
  | .legacy => if x.cfg.interruptPin = 0 then (x, s, false) else irqLineSetup true (fails 0) x s

/-- The engines of one direction up to the first without a line. -/
def notedLines (x : XdevIrq) (cookie : Nat → Cookie) (channelMax : Nat) : List Line :=
  ((List.range channelMax).map fun i => ⟨x.msixIrqLine (cookie i), cookie i⟩).takeWhile
    fun line => line.vector ≠ 0

def irqMsixChannelTeardown (x : XdevIrq) (s : Irqs) : Irqs :=
  (s.freeAll (notedLines x .h2c x.cfg.h2cChannelMax)).freeAll
    (notedLines x .c2h x.cfg.c2hChannelMax)

def irqTeardown (x : XdevIrq) (s : Irqs) : Irqs :=
  match x.cfg.mode with
  | .msix => (irqMsixChannelTeardown x s).freeAll x.cfg.userLines
  | .msi | .legacy =>
      if x.irqLine ≠ -1 then s.freeIrq ⟨x.irqLine.toNat, .xdev⟩ else s

/-! ## The life of a device -/

structure IrqLife where
  xdev : Option XdevIrq
  irqs : Irqs

inductive LifeEvent where
  | «open» (cfg : IrqConfig) (fails : Nat → Bool)
  | offline
  | online (fails : Nat → Bool)
  | close

namespace IrqLife

def start : IrqLife := ⟨none, ⟨[], false⟩⟩

def step (pollMode : Bool) (s : IrqLife) : LifeEvent → Option IrqLife
  | .open cfg fails =>
      match s.xdev with
      | some _ => none
      | none =>
          let out := irqSetup fails (XdevIrq.alloc cfg) s.irqs
          -- the error path disables MSI-X and frees the device; it frees no line
          if out.2.2 then some ⟨some out.1, out.2.1⟩ else some ⟨none, out.2.1⟩
  | .offline => s.xdev.map fun x => { s with irqs := irqTeardown x s.irqs }
  | .online fails => s.xdev.map fun x =>
      if pollMode then s
      else
        let out := irqSetup fails x s.irqs
        ⟨some out.1, out.2.1⟩
  | .close => s.xdev.map fun x => ⟨none, irqTeardown x s.irqs⟩

end IrqLife

/-- No line was freed that was not requested, and without a device none is requested. -/
structure LinesBalanced (s : IrqLife) : Prop where
  frees : s.irqs.badFree = false
  closed : s.xdev = none → s.irqs.held = []

/-- With MSI-X and at least one engine, the first request is refused or none is.  Only then does
`irq_setup` keep all lines or none. -/
def NoPartialGrant (cfg : IrqConfig) (fails : Nat → Bool) : Prop :=
  cfg.mode = .msix → cfg.channelLines ≠ [] →
    fails 0 = true ∨ ∀ k < cfg.channelLines.length + cfg.userLines.length, fails k = false

/-- Lines are torn down only while they are requested, and set up again only while they are not,
or in a mode in which the kernel refuses a second request. -/
def LifeOk (pollMode : Bool) (s : IrqLife) : LifeEvent → Prop
  | .open cfg fails => NoPartialGrant cfg fails
  | .offline => s.irqs.held ≠ []
  | .online fails => pollMode = false → ∀ x, s.xdev = some x →
      if s.irqs.held = [] then NoPartialGrant x.cfg fails
      else x.cfg.mode ≠ .legacy ∨ fails 0 = true
  | .close => s.irqs.held ≠ []

/-! ## Requests and frees -/

namespace Irqs

private theorem requestIrq_some {s s' : Irqs} {shared fails : Bool} {line : Line}
    (h : s.requestIrq shared fails line = some s') :
    s' = { s with held := line :: s.held } := by
  simp only [requestIrq] at h
  split at h
  · cases h
  · exact (Option.some.inj h).symm

private theorem requestIrq_refused {s : Irqs} {fails : Bool} {line : Line}
    (h : fails = true ∨ line.vector ∈ s.held.map Line.vector) :
    s.requestIrq false fails line = none := by
  rcases h with h | h <;> simp [requestIrq, h]

private theorem requestIrq_granted {s : Irqs} {line : Line}
    (h : line.vector ∉ s.held.map Line.vector) :
    s.requestIrq false false line = some { s with held := line :: s.held } := by
  simp [requestIrq, h]

private theorem freeAll_perm {s : Irqs} {lines rest : List Line} (h : s.held.Perm (lines ++ rest)) :
    (s.freeAll lines).held.Perm rest ∧ (s.freeAll lines).badFree = s.badFree := by
  induction lines generalizing s with
  | nil => exact ⟨h, rfl⟩
  | cons line lines ih =>
      have hmem : line ∈ s.held := h.mem_iff.mpr List.mem_cons_self
      have hfree : s.freeIrq line = { s with held := s.held.erase line } := if_pos hmem
      have herase : (s.held.erase line).Perm (lines ++ rest) := by
        have := h.erase line
        rwa [List.cons_append, List.erase_cons_head] at this
      simp only [freeAll, List.foldl_cons, hfree]
      exact ih herase

private theorem requestAll_perm (fails : Nat → Bool) (k : Nat) (lines : List Line) (s : Irqs) :
    let out := requestAll fails k lines s
    out.1.badFree = s.badFree ∧ out.1.held.Perm (out.2.1 ++ s.held) ∧
      (out.2.2 = true → out.2.1 = lines) := by
  induction lines generalizing k s with
  | nil => exact ⟨rfl, .refl _, fun _ => rfl⟩
  | cons line lines ih =>
      simp only [requestAll]
      split
      · exact ⟨rfl, .refl _, nofun⟩
      · next s' hs =>
          obtain rfl := requestIrq_some hs
          obtain ⟨hbad, hperm, hall⟩ := ih (k + 1) { s with held := line :: s.held }
          refine ⟨hbad, hperm.trans List.perm_middle, fun hok => ?_⟩
          rw [hall hok]

private theorem requestAll_refused {fails : Nat → Bool} {k : Nat} {line : Line} {lines : List Line}
    {s : Irqs} (h : fails k = true ∨ line.vector ∈ s.held.map Line.vector) :
    requestAll fails k (line :: lines) s = (s, [], false) := by
  simp [requestAll, requestIrq_refused h]

private theorem requestAll_granted {fails : Nat → Bool} {k : Nat} {lines : List Line} {s : Irqs}
    (hfails : ∀ i < lines.length, fails (k + i) = false)
    (hfresh : (lines.map Line.vector ++ s.held.map Line.vector).Nodup) :
    (requestAll fails k lines s).2.2 = true := by
  induction lines generalizing k s with
  | nil => rfl
  | cons line lines ih =>
      have hfirst : fails k = false := hfails 0 (by simp)
      simp only [List.map_cons, List.cons_append, List.nodup_cons, List.mem_append,
        not_or] at hfresh
      obtain ⟨⟨hnew, hfree⟩, hrest⟩ := hfresh
      simp only [requestAll, hfirst, requestIrq_granted hfree]
      refine ih (fun i hi => ?_) ?_
      · have := hfails (i + 1) (by simpa using hi)
        rwa [show k + (i + 1) = k + 1 + i by omega] at this
      · simp only [List.map_cons]
        refine List.perm_middle.nodup_iff.mpr (List.nodup_cons.mpr ⟨?_, hrest⟩)
        rw [List.mem_append, not_or]
        exact ⟨hnew, hfree⟩

end Irqs

/-! ## The lines of a configuration -/

namespace IrqConfig

variable (cfg : IrqConfig)

private theorem msix_vectors : (cfg.channelLines ++ cfg.userLines).map Line.vector =
    (List.range (cfg.h2cChannelMax + cfg.c2hChannelMax + cfg.userMax)).map
      cfg.pciIrqVector := by
  simp [channelLines, h2cLines, c2hLines, userLines, List.range_add, Function.comp_def]

private theorem msix_vectors_nodup :
    ((cfg.channelLines ++ cfg.userLines).map Line.vector).Nodup := by
  rw [msix_vectors]
  exact List.Nodup.map cfg.vector_inj List.nodup_range

private theorem userLines_ne_nil : cfg.userLines ≠ [] := by
  have hpos := cfg.userMax_pos
  rw [userLines, Ne, List.map_eq_nil_iff, List.range_eq_nil]
  omega

private theorem channel_vector {line : Line} (h : line ∈ cfg.channelLines) :
    (∃ i < cfg.h2cChannelMax, line = ⟨cfg.pciIrqVector i, .h2c i⟩) ∨
      ∃ i < cfg.c2hChannelMax, line = ⟨cfg.pciIrqVector (cfg.h2cChannelMax + i), .c2h i⟩ := by
  simp only [channelLines, h2cLines, c2hLines, List.mem_append, List.mem_map, List.mem_range] at h
  rcases h with ⟨i, hi, rfl⟩ | ⟨i, hi, rfl⟩
  · exact .inl ⟨i, hi, rfl⟩
  · exact .inr ⟨i, hi, rfl⟩

private theorem channel_vector_unique {line other : Line} (h : line ∈ cfg.channelLines)
    (h' : other ∈ cfg.channelLines) (heq : other.cookie = line.cookie) :
    other.vector = line.vector := by
  rcases cfg.channel_vector h with ⟨i, -, rfl⟩ | ⟨i, -, rfl⟩ <;>
    rcases cfg.channel_vector h' with ⟨j, -, rfl⟩ | ⟨j, -, rfl⟩ <;>
    simp_all

end IrqConfig

private theorem noteLines_eq {f : Cookie → Nat} {granted : List Line} {cookie : Cookie}
    {vector : Nat}
    (hsame : ∀ line ∈ granted, line.cookie = cookie → line.vector = vector)
    (hsome : f cookie = vector ∨ ∃ line ∈ granted, line.cookie = cookie) :
    noteLines f granted cookie = vector := by
  induction granted generalizing f with
  | nil =>
      rcases hsome with hold | ⟨line, hmem, -⟩
      · exact hold
      · cases hmem
  | cons line rest ih =>
      refine ih (fun other hmem => hsame other (List.mem_cons_of_mem _ hmem)) ?_
      change Function.update f line.cookie line.vector cookie = vector ∨ _
      by_cases hcookie : line.cookie = cookie
      · refine .inl ?_
        rw [hcookie, Function.update_self]
        exact hsame line List.mem_cons_self hcookie
      · rcases hsome with hold | ⟨other, hmem, hother⟩
        · exact .inl (by rwa [Function.update_of_ne (Ne.symm hcookie)])
        · rcases List.mem_cons.mp hmem with rfl | hmem
          · exact absurd hother hcookie
          · exact .inr ⟨other, hmem, hother⟩

/-! ## Lines that are up -/

structure Up (x : XdevIrq) (held : List Line) : Prop where
  perm : held.Perm x.cfg.lines
  engines : x.cfg.mode = .msix →
    ∀ line ∈ x.cfg.channelLines, x.msixIrqLine line.cookie = line.vector
  device : x.cfg.mode ≠ .msix → x.irqLine = x.cfg.pdevIrq

private theorem notedLines_eq {x : XdevIrq} {cookie : Nat → Cookie} {channelMax : Nat} (base : Nat)
    (h : ∀ i < channelMax, x.msixIrqLine (cookie i) = x.cfg.pciIrqVector (base + i)) :
    notedLines x cookie channelMax =
      (List.range channelMax).map fun i => ⟨x.cfg.pciIrqVector (base + i), cookie i⟩ := by
  have hmap : ((List.range channelMax).map fun i =>
      (⟨x.msixIrqLine (cookie i), cookie i⟩ : Line)) =
        (List.range channelMax).map fun i => ⟨x.cfg.pciIrqVector (base + i), cookie i⟩ := by
    refine List.map_congr_left fun i hi => ?_
    rw [h i (List.mem_range.mp hi)]
  rw [notedLines, hmap, List.takeWhile_eq_self_iff]
  intro line hline
  obtain ⟨i, -, rfl⟩ := List.mem_map.mp hline
  exact decide_eq_true (Nat.ne_of_gt (x.cfg.vector_pos (base + i)))

theorem irqTeardown_up {x : XdevIrq} {s : Irqs} (h : Up x s.held) :
    (irqTeardown x s).held = [] ∧ (irqTeardown x s).badFree = s.badFree := by
  have hperm := h.perm
  cases hmode : x.cfg.mode with
  | msix =>
      have hengines := h.engines hmode
      have hh2c : notedLines x .h2c x.cfg.h2cChannelMax = x.cfg.h2cLines := by
        refine (notedLines_eq 0 fun i hi => ?_).trans (by simp [IrqConfig.h2cLines])
        have hline : (⟨x.cfg.pciIrqVector i, .h2c i⟩ : Line) ∈ x.cfg.channelLines := by
          simp [IrqConfig.channelLines, IrqConfig.h2cLines, hi]
        rw [Nat.zero_add]
        exact hengines _ hline
      have hc2h : notedLines x .c2h x.cfg.c2hChannelMax = x.cfg.c2hLines := by
        refine notedLines_eq x.cfg.h2cChannelMax fun i hi => ?_
        have hline : (⟨x.cfg.pciIrqVector (x.cfg.h2cChannelMax + i), .c2h i⟩ : Line) ∈
            x.cfg.channelLines := by
          simp [IrqConfig.channelLines, IrqConfig.c2hLines, hi]
        exact hengines _ hline
      simp only [IrqConfig.lines, hmode, IrqConfig.channelLines, List.append_assoc] at hperm
      simp only [irqTeardown, hmode, irqMsixChannelTeardown, hh2c, hc2h]
      obtain ⟨hrest, hbad⟩ := Irqs.freeAll_perm hperm
      obtain ⟨husers, hbad'⟩ := Irqs.freeAll_perm hrest
      rw [← List.append_nil x.cfg.userLines] at husers
      obtain ⟨hnone, hbad''⟩ := Irqs.freeAll_perm husers
      exact ⟨hnone.eq_nil, hbad''.trans (hbad'.trans hbad)⟩
  | msi | legacy =>
      have hline := h.device (by rw [hmode]; exact nofun)
      simp only [IrqConfig.lines, hmode] at hperm
      have hone : s.held.Perm ([⟨x.cfg.pdevIrq, .xdev⟩] ++ []) := by simpa using hperm
      obtain ⟨hnone, hbad⟩ := Irqs.freeAll_perm hone
      have hset : x.irqLine ≠ -1 := by
        rw [hline]
        omega
      have hteardown : irqTeardown x s = s.freeIrq ⟨x.cfg.pdevIrq, .xdev⟩ := by
        simp only [irqTeardown, hmode]
        rw [if_pos hset, hline, Int.toNat_natCast]
      rw [hteardown]
      exact ⟨hnone.eq_nil, hbad⟩

/-! ## Set-up -/

structure AllOrNone (x : XdevIrq) (s : Irqs) (out : XdevIrq × Irqs × Bool) : Prop where
  cfg : out.1.cfg = x.cfg
  badFree : out.2.1.badFree = s.badFree
  held : out.2.2 = true ∧ Up out.1 out.2.1.held ∨ out.2.2 = false ∧ out.2.1.held = []

private theorem irqLineSetup_cases (shared fails : Bool) (x : XdevIrq) (s : Irqs) :
    let line : Line := ⟨x.cfg.pdevIrq, .xdev⟩
    irqLineSetup shared fails x s = ({ x with irqLine := x.cfg.pdevIrq }, s, false) ∧
        (fails = true ∨ shared = false ∧ line.vector ∈ s.held.map Line.vector) ∨
      irqLineSetup shared fails x s =
        ({ x with irqLine := x.cfg.pdevIrq }, { s with held := line :: s.held }, true) ∧
        fails = false := by
  simp only [irqLineSetup, Irqs.requestIrq]
  cases fails <;> cases shared <;> by_cases hheld : x.cfg.pdevIrq ∈ s.held.map Line.vector <;>
    simp [hheld]

private theorem irqLineSetup_down {shared fails : Bool} {x : XdevIrq} {s : Irqs}
    (hdown : s.held = [])
    (hmode : x.cfg.mode = .msi ∨ x.cfg.mode = .legacy) :
    AllOrNone x s (irqLineSetup shared fails x s) := by
  rcases irqLineSetup_cases shared fails x s with ⟨hout, -⟩ | ⟨hout, -⟩
  · rw [hout]
    exact ⟨rfl, rfl, .inr ⟨rfl, hdown⟩⟩
  · rw [hout]
    refine ⟨rfl, rfl, .inl ⟨rfl, ?_, fun hmsix => ?_, fun _ => rfl⟩⟩
    · rcases hmode with hmode | hmode <;> simp [IrqConfig.lines, hmode, hdown]
    · rcases hmode with hmode | hmode <;> cases hmode.symm.trans hmsix

private theorem noteLines_channel (cfg : IrqConfig) (f : Cookie → Nat) {line : Line}
    (h : line ∈ cfg.channelLines) : noteLines f cfg.channelLines line.cookie = line.vector :=
  noteLines_eq (fun _ hmem hcookie => cfg.channel_vector_unique h hmem hcookie)
    (.inr ⟨line, h, rfl⟩)

/-- The user lines are requested over the channel lines: they come in all, or they go. -/
private theorem irqMsixUserSetup_cases (fails : Nat → Bool) (x : XdevIrq) (s : Irqs) :
    let out := irqMsixUserSetup fails x s
    out.1.badFree = s.badFree ∧
      (out.2 = true ∧ out.1.held.Perm (x.cfg.userLines ++ s.held) ∨
        out.2 = false ∧ out.1.held.Perm s.held) := by
  obtain ⟨hbad, hperm, hall⟩ :=
    Irqs.requestAll_perm fails x.cfg.channelLines.length x.cfg.userLines s
  simp only [irqMsixUserSetup]
  split
  · next hok =>
      rw [hall hok] at hperm
      exact ⟨hbad, .inl ⟨rfl, hperm⟩⟩
  · have hreverse := hperm.trans ((List.reverse_perm _).symm.append_right s.held)
    obtain ⟨hrest, hbad'⟩ := Irqs.freeAll_perm hreverse
    exact ⟨hbad'.trans hbad, .inr ⟨rfl, hrest⟩⟩

private theorem channelSetup_all_or_none {fails : Nat → Bool} {cfg : IrqConfig} {s : Irqs}
    (hdown : s.held = []) (hmode : cfg.mode = .msix) (hgrant : NoPartialGrant cfg fails)
    (hfail : (Irqs.requestAll fails 0 cfg.channelLines s).2.2 = false) :
    (Irqs.requestAll fails 0 cfg.channelLines s).1 = s := by
  have hnodup := cfg.msix_vectors_nodup
  rw [List.map_append] at hnodup
  cases hlines : cfg.channelLines with
  | nil =>
      rw [hlines] at hfail
      cases hfail
  | cons line lines =>
      rcases hgrant hmode (by simp [hlines]) with hfirst | hnone
      · rw [Irqs.requestAll_refused (.inl hfirst)]
      · have hok : (Irqs.requestAll fails 0 cfg.channelLines s).2.2 = true := by
          refine Irqs.requestAll_granted (fun i hi => hnone _ (by omega)) ?_
          simpa [hdown] using hnodup.of_append_left
        rw [hfail] at hok
        cases hok

private theorem userSetup_granted {fails : Nat → Bool} {x : XdevIrq} {s : Irqs}
    (hheld : s.held.Perm x.cfg.channelLines)
    (hfails : ∀ k < x.cfg.channelLines.length + x.cfg.userLines.length, fails k = false) :
    (irqMsixUserSetup fails x s).2 = true := by
  have hok : (Irqs.requestAll fails x.cfg.channelLines.length x.cfg.userLines s).2.2 = true := by
    refine Irqs.requestAll_granted (fun i hi => hfails _ (by omega)) ?_
    have hperm := (hheld.map Line.vector).append_left (x.cfg.userLines.map Line.vector)
    rw [hperm.nodup_iff, List.perm_append_comm.nodup_iff, ← List.map_append]
    exact x.cfg.msix_vectors_nodup
  simp [irqMsixUserSetup, hok]

private theorem irqSetup_msix {fails : Nat → Bool} {x : XdevIrq} {s s' : Irqs} {granted : List Line}
    {ok : Bool} (hmode : x.cfg.mode = .msix)
    (hout : Irqs.requestAll fails 0 x.cfg.channelLines s = (s', granted, ok)) :
    irqSetup fails x s =
      let x' := { x with msixIrqLine := noteLines x.msixIrqLine granted }
      if ok then (x', irqMsixUserSetup fails x' s') else (x', s', false) := by
  cases ok <;> simp [irqSetup, hmode, irqMsixChannelSetup, hout]

private theorem irqSetup_msix_down {fails : Nat → Bool} {x : XdevIrq} {s : Irqs}
    (hdown : s.held = [])
    (hmode : x.cfg.mode = .msix) (hgrant : NoPartialGrant x.cfg fails) :
    AllOrNone x s (irqSetup fails x s) := by
  have hreq := Irqs.requestAll_perm fails 0 x.cfg.channelLines s
  have hnone := channelSetup_all_or_none hdown hmode hgrant
  rcases hout : Irqs.requestAll fails 0 x.cfg.channelLines s with ⟨s', granted, ok⟩
  rw [hout] at hreq hnone
  rw [irqSetup_msix hmode hout]
  obtain ⟨hbad, hperm, hall⟩ := hreq
  cases ok with
  | false =>
      obtain rfl : s' = s := hnone rfl
      exact ⟨rfl, rfl, .inr ⟨rfl, hdown⟩⟩
  | true =>
      obtain rfl : granted = x.cfg.channelLines := hall rfl
      change s'.held.Perm (x.cfg.channelLines ++ s.held) at hperm
      rw [hdown, List.append_nil] at hperm
      let x' : XdevIrq := { x with msixIrqLine := noteLines x.msixIrqLine x.cfg.channelLines }
      change AllOrNone x s (x', irqMsixUserSetup fails x' s')
      obtain ⟨hbad', huser⟩ := irqMsixUserSetup_cases fails x' s'
      refine ⟨rfl, hbad'.trans hbad, ?_⟩
      rcases huser with ⟨hok, husers⟩ | ⟨hfail, hrest⟩
      · refine .inl ⟨hok, ?_, fun _ line hline => noteLines_channel x.cfg _ hline, fun hnot =>
          absurd hmode hnot⟩
        have hlines : x'.cfg.lines = x.cfg.channelLines ++ x.cfg.userLines := by
          simp [x', IrqConfig.lines, hmode]
        rw [hlines]
        exact husers.trans ((hperm.append_left _).trans List.perm_append_comm)
      · refine .inr ⟨hfail, ?_⟩
        by_cases hchannels : x.cfg.channelLines = []
        · rw [hchannels] at hperm
          exact (hrest.trans hperm).eq_nil
        · rcases hgrant hmode hchannels with hfirst | hall
          · obtain ⟨line, lines, hlines⟩ := List.exists_cons_of_ne_nil hchannels
            rw [hlines, Irqs.requestAll_refused (.inl hfirst)] at hout
            cases hout
          · rw [userSetup_granted (x := x') hperm hall] at hfail
            cases hfail

theorem irqSetup_down {fails : Nat → Bool} {x : XdevIrq} {s : Irqs} (hdown : s.held = [])
    (hgrant : NoPartialGrant x.cfg fails) :
    AllOrNone x s (irqSetup fails x s) := by
  cases hmode : x.cfg.mode with
  | msix => exact irqSetup_msix_down hdown hmode hgrant
  | msi =>
      simp only [irqSetup, hmode]
      exact irqLineSetup_down hdown (.inl hmode)
  | legacy =>
      simp only [irqSetup, hmode]
      split
      · exact ⟨rfl, rfl, .inr ⟨rfl, hdown⟩⟩
      · exact irqLineSetup_down hdown (.inr hmode)

private theorem irqLineSetup_refused {shared fails : Bool} {x : XdevIrq} {s : Irqs}
    (h : Up x s.held)
    (hmode : x.cfg.mode ≠ .msix) (hrefused : shared = false ∨ fails = true) :
    irqLineSetup shared fails x s = (x, s, false) := by
  have hmem : x.cfg.pdevIrq ∈ s.held.map Line.vector := by
    refine (h.perm.map Line.vector).mem_iff.mpr ?_
    cases hcfg : x.cfg.mode with
    | msix => exact absurd hcfg hmode
    | msi | legacy => simp [IrqConfig.lines, hcfg]
  have hsame : { x with irqLine := (x.cfg.pdevIrq : Int) } = x := by
    rw [← h.device hmode]
  have hnone : s.requestIrq shared fails ⟨x.cfg.pdevIrq, .xdev⟩ = none := by
    rcases hrefused with rfl | rfl
    · exact Irqs.requestIrq_refused (.inr hmem)
    · simp [Irqs.requestIrq]
  simp [irqLineSetup, hnone, hsame]

private theorem irqMsixUserSetup_refused {fails : Nat → Bool} {x : XdevIrq} {s : Irqs}
    (h : ∀ line ∈ x.cfg.userLines, line.vector ∈ s.held.map Line.vector) :
    irqMsixUserSetup fails x s = (s, false) := by
  obtain ⟨line, lines, hlines⟩ := List.exists_cons_of_ne_nil x.cfg.userLines_ne_nil
  have hrefused : Irqs.requestAll fails x.cfg.channelLines.length x.cfg.userLines s =
      (s, [], false) := by
    rw [hlines]
    exact Irqs.requestAll_refused (.inr (h line (by simp [hlines])))
  simp only [irqMsixUserSetup, hrefused]
  rfl

/-- While the lines are up the kernel refuses the first request. -/
private theorem irqSetup_up {fails : Nat → Bool} {x : XdevIrq} {s : Irqs} (h : Up x s.held)
    (hmode : x.cfg.mode ≠ .legacy ∨ fails 0 = true) :
    (irqSetup fails x s).1 = x ∧ (irqSetup fails x s).2.1 = s := by
  cases hcfg : x.cfg.mode with
  | msix =>
      have hmem : ∀ line ∈ x.cfg.channelLines ++ x.cfg.userLines,
          line.vector ∈ s.held.map Line.vector := by
        intro line hline
        have hlines : x.cfg.lines = x.cfg.channelLines ++ x.cfg.userLines := by
          simp [IrqConfig.lines, hcfg]
        rw [← hlines, ← h.perm.mem_iff] at hline
        exact List.mem_map_of_mem hline
      cases hchannels : x.cfg.channelLines with
      | cons line lines =>
          have hout : Irqs.requestAll fails 0 x.cfg.channelLines s = (s, [], false) := by
            rw [hchannels]
            exact Irqs.requestAll_refused (.inr (hmem line (by simp [hchannels])))
          rw [irqSetup_msix hcfg hout]
          exact ⟨rfl, rfl⟩
      | nil =>
          have hout : Irqs.requestAll fails 0 x.cfg.channelLines s = (s, [], true) := by
            rw [hchannels]
            rfl
          have husers : irqMsixUserSetup fails x s = (s, false) :=
            irqMsixUserSetup_refused fun line hline => hmem line (List.mem_append_right _ hline)
          rw [irqSetup_msix hcfg hout]
          exact ⟨rfl, congrArg Prod.fst husers⟩
  | msi =>
      simp only [irqSetup, hcfg, irqLineSetup_refused h (by rw [hcfg]; exact nofun) (.inl rfl)]
      exact ⟨trivial, trivial⟩
  | legacy =>
      have hfails : fails 0 = true := by simpa [hcfg] using hmode
      simp only [irqSetup, hcfg]
      split
      · exact ⟨rfl, rfl⟩
      · rw [irqLineSetup_refused h (by rw [hcfg]; exact nofun) (.inr hfails)]
        exact ⟨rfl, rfl⟩

/-! ## Runs -/

structure LifeInv (s : IrqLife) : Prop where
  frees : s.irqs.badFree = false
  closed : s.xdev = none → s.irqs.held = []
  upOrDown : ∀ x, s.xdev = some x → s.irqs.held = [] ∨ Up x s.irqs.held

theorem lifeInv_start : LifeInv IrqLife.start := ⟨rfl, fun _ => rfl, nofun⟩

theorem LifeInv.step {pollMode : Bool} {s t : IrqLife} {e : LifeEvent} (h : LifeInv s)
    (hok : LifeOk pollMode s e) (hs : s.step pollMode e = some t) : LifeInv t := by
  cases e with
  | «open» cfg fails =>
      simp only [IrqLife.step] at hs
      split at hs
      · cases hs
      · next hnone =>
          obtain ⟨-, hbad, hends⟩ :=
            irqSetup_down (x := XdevIrq.alloc cfg) (h.closed hnone) hok
          rw [h.frees] at hbad
          rcases hends with ⟨hgranted, hup⟩ | ⟨hrefused, hdown⟩
          · rw [if_pos hgranted] at hs
            cases hs
            refine ⟨hbad, nofun, fun x hx => ?_⟩
            obtain rfl := Option.some.inj hx
            exact .inr hup
          · rw [if_neg (by simp [hrefused])] at hs
            cases hs
            exact ⟨hbad, fun _ => hdown, nofun⟩
  | offline =>
      obtain ⟨x, hx, rfl⟩ := Option.map_eq_some_iff.mp hs
      have hup := (h.upOrDown x hx).resolve_left hok
      obtain ⟨hdown, hbad⟩ := irqTeardown_up hup
      exact ⟨hbad.trans h.frees, fun _ => hdown, fun _ _ => .inl hdown⟩
  | online fails =>
      obtain ⟨x, hx, hs⟩ := Option.map_eq_some_iff.mp hs
      cases pollMode with
      | true =>
          obtain rfl : s = t := hs
          exact h
      | false =>
          have hcond := hok rfl x hx
          obtain rfl : IrqLife.mk (some (irqSetup fails x s.irqs).1)
            (irqSetup fails x s.irqs).2.1 = t := hs
          by_cases hdown : s.irqs.held = []
          · rw [if_pos hdown] at hcond
            obtain ⟨-, hbad, hends⟩ := irqSetup_down hdown hcond
            refine ⟨hbad.trans h.frees, nofun, fun x' hx' => ?_⟩
            obtain rfl := Option.some.inj hx'
            exact hends.symm.imp And.right And.right
          · rw [if_neg hdown] at hcond
            have hup := (h.upOrDown x hx).resolve_left hdown
            obtain ⟨hsame, hirqs⟩ := irqSetup_up hup hcond
            rw [hsame, hirqs]
            refine ⟨h.frees, nofun, fun x' hx' => ?_⟩
            obtain rfl := Option.some.inj hx'
            exact .inr hup
  | close =>
      obtain ⟨x, hx, rfl⟩ := Option.map_eq_some_iff.mp hs
      have hup := (h.upOrDown x hx).resolve_left hok
      obtain ⟨hdown, hbad⟩ := irqTeardown_up hup
      exact ⟨hbad.trans h.frees, fun _ => hdown, nofun⟩

/-- In every life whose teardowns meet requested lines and whose set-ups are all or nothing, no
line is freed that is not requested, and none outlives its device. -/
theorem lines_balanced (pollMode : Bool) {es : List LifeEvent} {s : IrqLife}
    (run : Runs (IrqLife.step pollMode) (LifeOk pollMode) IrqLife.start es s) :
    LinesBalanced s := by
  have hinv := run.invariant (fun h hok hs => LifeInv.step h hok hs) lifeInv_start
  exact ⟨hinv.frees, hinv.closed⟩

def smallConfig (mode : IrqMode) : IrqConfig where
  mode := mode
  h2cChannelMax := 1
  c2hChannelMax := 1
  userMax := 1
  interruptPin := 1
  pdevIrq := 16
  pciIrqVector := fun j => 32 + j
  userMax_pos := Nat.zero_lt_one
  vector_pos := fun j => by omega
  vector_inj := fun i j h => by simpa using h

def neverFails : Nat → Bool := fun _ => false

theorem lines_balanced_reset :
    ∃ s, Runs (IrqLife.step false) (LifeOk false) IrqLife.start
        [.open (smallConfig .msix) neverFails, .offline, .online neverFails, .close] s ∧
      LinesBalanced s := by
  have hgrant : NoPartialGrant (smallConfig .msix) neverFails := fun _ _ => .inr fun _ _ => rfl
  have hreset : ∃ s, Runs (IrqLife.step false) (LifeOk false) IrqLife.start
      [.open (smallConfig .msix) neverFails, .offline, .online neverFails, .close] s := by
    refine ⟨_, .next hgrant rfl (.next ?_ rfl (.next ?_ rfl (.next ?_ rfl (.refl _))))⟩
    · exact List.cons_ne_nil _ _
    · intro _ x hx
      obtain rfl := Option.some.inj hx
      exact hgrant
    · exact List.cons_ne_nil _ _
  obtain ⟨s, hrun⟩ := hreset
  exact ⟨s, hrun, lines_balanced false hrun⟩

def IrqLife.observe (s : IrqLife) : Bool × List Line × Bool :=
  (s.xdev.isNone, s.irqs.held, s.irqs.badFree)

private theorem not_balanced_of_observe {s : IrqLife} {gone bad : Bool} {held : List Line}
    (h : s.observe = (gone, held, bad)) (hbad : bad = true ∨ gone = true ∧ held ≠ []) :
    ¬ LinesBalanced s := by
  simp only [IrqLife.observe, Prod.mk.injEq] at h
  obtain ⟨rfl, rfl, rfl⟩ := h
  intro hbal
  rcases hbad with hbad | ⟨hgone, hheld⟩
  · rw [hbal.frees] at hbad
    cases hbad
  · exact hheld (hbal.closed (Option.isNone_iff_eq_none.mp hgone))

/-- A removal after `error_detected` frees the line twice; so does one after a reset in poll
mode; and a user line that is refused leaves the engines' lines behind. -/
theorem lines_unbalanced :
    (∃ s, Runs (IrqLife.step false) Any IrqLife.start
        [.open (smallConfig .msi) neverFails, .offline, .close] s ∧ ¬ LinesBalanced s) ∧
      (∃ s, Runs (IrqLife.step true) Any IrqLife.start
        [.open (smallConfig .msi) neverFails, .offline, .online neverFails, .close] s ∧
          ¬ LinesBalanced s) ∧
      ∃ s, Runs (IrqLife.step false) Any IrqLife.start
        [.open (smallConfig .msix) fun k => k = 2] s ∧ ¬ LinesBalanced s := by
  have hremoved : (exec (IrqLife.step false) IrqLife.start
      [.open (smallConfig .msi) neverFails, .offline, .close]).map IrqLife.observe =
        some (true, [], true) := by
    decide +kernel
  have hpolled : (exec (IrqLife.step true) IrqLife.start
      [.open (smallConfig .msi) neverFails, .offline, .online neverFails, .close]).map
        IrqLife.observe = some (true, [], true) := by
    decide +kernel
  have hrefused : (exec (IrqLife.step false) IrqLife.start
      [.open (smallConfig .msix) fun k => k = 2]).map IrqLife.observe =
        some (true, [⟨33, .c2h 0⟩, ⟨32, .h2c 0⟩], false) := by
    decide +kernel
  obtain ⟨s, hs, hobs⟩ := Option.map_eq_some_iff.mp hremoved
  obtain ⟨t, ht, hobs'⟩ := Option.map_eq_some_iff.mp hpolled
  obtain ⟨u, hu, hobs''⟩ := Option.map_eq_some_iff.mp hrefused
  exact ⟨⟨s, runs_of_exec hs, not_balanced_of_observe hobs (.inl rfl)⟩,
    ⟨t, runs_of_exec ht, not_balanced_of_observe hobs' (.inl rfl)⟩,
    ⟨u, runs_of_exec hu, not_balanced_of_observe hobs'' (.inr ⟨rfl, List.cons_ne_nil _ _⟩)⟩⟩

end NupaNet.Xdma
