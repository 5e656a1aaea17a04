import NupaNet.Xdma.Descriptor

/-!
# Interrupt bits and their engines

`probe_engines` fills the two engine arrays and gives every engine it initialises
the next free bit of the channel interrupt registers.  `xdma_isr` finds the
engines of a request word by walking the arrays with those bits.  The result of
the file is that it finds exactly the engines whose bit was requested.
-/

namespace NupaNet.Xdma

def xdmaEngIrqNum : Nat := 1

def xdmaChannelNumMax : Nat := 4

/-- `irq_bitmask`, and whether `magic` is `MAGIC_ENGINE`. -/
structure EngineIrq where
  irqBitmask : U32
  magic : Bool
  deriving DecidableEq, Repr

/-- The fields of `struct xdma_dev` that the probe sets and the handlers read, each array and
mask by direction. -/
structure EngineTable where
  engine : Direction → Nat → EngineIrq
  channelMax : Direction → Nat
  maskIrq : Direction → U32
  enginesNum : Nat

abbrev EngineId := Direction × Nat

/-! ## Probing -/

namespace EngineTable

def empty : EngineTable where
  engine := fun _ _ => ⟨0, false⟩
  channelMax := fun _ => xdmaChannelNumMax
  maskIrq := fun _ => 0
  enginesNum := 0

def engineInit (t : EngineTable) (dir : Direction) (channel : Nat) : EngineTable :=
  let irqBitmask : U32 := (1#32 <<< xdmaEngIrqNum - 1#32) <<< (t.enginesNum * xdmaEngIrqNum)
  { t with
    engine := Function.update t.engine dir
      (Function.update (t.engine dir) channel ⟨irqBitmask, true⟩)
    maskIrq := Function.update t.maskIrq dir (t.maskIrq dir ||| irqBitmask)
    enginesNum := t.enginesNum + 1 }

/-- The loop over the channels of one direction.  `found` answers `none` where the identifier
does not match, and else whether the rest of `engine_init` succeeds; the bit is given away
before that is known. -/
def probeLoop (dir : Direction) (found : Nat → Option Bool) :
    Nat → Nat → EngineTable → EngineTable × Nat
  | 0, i, t => (t, i)
  | left + 1, i, t =>
      match found i with
      | none => (t, i)
      | some false => (t.engineInit dir i, i)
      | some true => probeLoop dir found left (i + 1) (t.engineInit dir i)

def probeDirection (dir : Direction) (found : Nat → Option Bool) (t : EngineTable) :
    EngineTable :=
  let out := probeLoop dir found (t.channelMax dir) 0 t
  { out.1 with channelMax := Function.update out.1.channelMax dir out.2 }

def probeEngines (found : Direction → Nat → Option Bool) : EngineTable :=
  (empty.probeDirection .toDevice (found .toDevice)).probeDirection .fromDevice
    (found .fromDevice)

def Exists (t : EngineTable) (e : EngineId) : Prop := e.2 < t.channelMax e.1

instance (t : EngineTable) (e : EngineId) : Decidable (t.Exists e) :=
  inferInstanceAs (Decidable (_ < _))

def bit (t : EngineTable) (e : EngineId) : U32 := (t.engine e.1 e.2).irqBitmask

/-! ## The handler -/

/-- One of the two loops of `xdma_isr`: the channels whose work it schedules. -/
def dispatch (engine : Nat → EngineIrq) : List Nat → U32 → List Nat
  | [], _ => []
  | channel :: rest, mask =>
      if mask = 0 then []
      else if (engine channel).irqBitmask &&& mask ≠ 0 ∧ (engine channel).magic = true then
        channel :: dispatch engine rest (mask &&& ~~~(engine channel).irqBitmask)
      else dispatch engine rest mask

def dispatchDirection (t : EngineTable) (chIrq : U32) (dir : Direction) : List EngineId :=
  (dispatch (t.engine dir) (List.range (t.channelMax dir)) (chIrq &&& t.maskIrq dir)).map
    fun channel => (dir, channel)

def xdmaIsr (t : EngineTable) (chIrq : U32) : List EngineId :=
  t.dispatchDirection chIrq .toDevice ++ t.dispatchDirection chIrq .fromDevice

/-! ## The bits that the probe gives away -/

private theorem irqBitmask_eq (n : Nat) :
    (1#32 <<< xdmaEngIrqNum - 1#32) <<< (n * xdmaEngIrqNum) = BitVec.twoPow 32 n := by
  rw [xdmaEngIrqNum, Nat.mul_one, BitVec.twoPow_eq]
  rfl

section

variable (t : EngineTable) (dir : Direction) (i : Nat)

private theorem engineInit_same :
    (t.engineInit dir i).engine dir i = ⟨BitVec.twoPow 32 t.enginesNum, true⟩ := by
  simp [engineInit, irqBitmask_eq]

private theorem engineInit_ne {k : Nat} (h : k ≠ i) :
    (t.engineInit dir i).engine dir k = t.engine dir k := by
  simp [engineInit, h]

private theorem engineInit_other {other : Direction} (h : other ≠ dir) :
    (t.engineInit dir i).engine other = t.engine other ∧
      (t.engineInit dir i).maskIrq other = t.maskIrq other := by
  simp [engineInit, h]

private theorem engineInit_mask :
    (t.engineInit dir i).maskIrq dir = t.maskIrq dir ||| BitVec.twoPow 32 t.enginesNum := by
  simp [engineInit, irqBitmask_eq]

end

/-- What the loop of one direction leaves: consecutive bits from `t.enginesNum` on, and nothing
of the other direction. -/
structure Probed (dir : Direction) (left i : Nat) (t : EngineTable) (out : EngineTable × Nat) :
    Prop where
  le : i ≤ out.2
  bound : out.2 ≤ i + left
  numLo : t.enginesNum + (out.2 - i) ≤ out.1.enginesNum
  numHi : out.1.enginesNum ≤ t.enginesNum + left
  engine : ∀ k, i ≤ k → k < out.2 →
    out.1.engine dir k = ⟨BitVec.twoPow 32 (t.enginesNum + (k - i)), true⟩
  mask : ∀ k, i ≤ k → k < out.2 → t.enginesNum + (k - i) < 32 →
    (out.1.maskIrq dir).getLsbD (t.enginesNum + (k - i)) = true
  before : ∀ k < i, out.1.engine dir k = t.engine dir k
  masked : ∀ n, (t.maskIrq dir).getLsbD n = true → (out.1.maskIrq dir).getLsbD n = true
  otherEngine : ∀ other ≠ dir, out.1.engine other = t.engine other
  otherMask : ∀ other ≠ dir, out.1.maskIrq other = t.maskIrq other
  channelMax : out.1.channelMax = t.channelMax

private theorem probed_stop (dir : Direction) (left i : Nat) (t : EngineTable) :
    Probed dir left i t (t, i) where
  le := Nat.le_refl i
  bound := by simp
  numLo := by simp
  numHi := by simp
  engine k hle hlt := absurd hlt (by simpa using hle)
  mask k hle hlt := absurd hlt (by simpa using hle)
  before _ _ := rfl
  masked _ h := h
  otherEngine _ _ := rfl
  otherMask _ _ := rfl
  channelMax := rfl

theorem probeLoop_probed (dir : Direction) (found : Nat → Option Bool) (left i : Nat)
    (t : EngineTable) : Probed dir left i t (probeLoop dir found left i t) := by
  induction left generalizing i t with
  | zero => exact probed_stop dir 0 i t
  | succ left ih =>
      cases hfound : found i with
      | none =>
          simp only [probeLoop, hfound]
          exact probed_stop dir (left + 1) i t
      | some ok =>
          have hmask : ∀ n, (t.maskIrq dir).getLsbD n = true →
              ((t.engineInit dir i).maskIrq dir).getLsbD n = true := by
            intro n hn
            simp [engineInit_mask, hn]
          cases ok with
          | false =>
              simp only [probeLoop, hfound]
              exact
                { probed_stop dir (left + 1) i (t.engineInit dir i) with
                  numLo := by simp [engineInit]
                  numHi := by
                    change t.enginesNum + 1 ≤ _
                    omega
                  engine := fun k hle hlt => absurd hlt (by simpa using hle)
                  mask := fun k hle hlt => absurd hlt (by simpa using hle)
                  before := fun k hk => engineInit_ne t dir i (Nat.ne_of_lt hk)
                  masked := hmask
                  otherEngine := fun _ h => (engineInit_other t dir i h).1
                  otherMask := fun _ h => (engineInit_other t dir i h).2 }
          | true =>
              simp only [probeLoop, hfound]
              have hrest := ih (i + 1) (t.engineInit dir i)
              have hnum : (t.engineInit dir i).enginesNum = t.enginesNum + 1 := rfl
              have hle := hrest.le
              have hbound := hrest.bound
              have hlo := hrest.numLo
              have hhi := hrest.numHi
              rw [hnum] at hlo hhi
              refine
                { le := by omega
                  bound := by omega
                  numLo := by omega
                  numHi := by omega
                  engine := fun k hk hlt => ?_
                  mask := fun k hk hlt hn => ?_
                  before := fun k hk => ?_
                  masked := fun n hn => hrest.masked n (hmask n hn)
                  otherEngine := fun other h =>
                    (hrest.otherEngine other h).trans (engineInit_other t dir i h).1
                  otherMask := fun other h =>
                    (hrest.otherMask other h).trans (engineInit_other t dir i h).2
                  channelMax := hrest.channelMax }
              · rcases Nat.eq_or_lt_of_le hk with rfl | hk
                · rw [hrest.before i (Nat.lt_succ_self i), engineInit_same, Nat.sub_self,
                    Nat.add_zero]
                · rw [hrest.engine k hk hlt, hnum, show t.enginesNum + 1 + (k - (i + 1)) =
                    t.enginesNum + (k - i) by omega]
              · rcases Nat.eq_or_lt_of_le hk with rfl | hk
                · rw [Nat.sub_self, Nat.add_zero] at hn ⊢
                  refine hrest.masked _ ?_
                  simp [engineInit_mask, hn]
                · have hbit := hrest.mask k hk hlt (by rw [hnum]; omega)
                  rwa [hnum, show t.enginesNum + 1 + (k - (i + 1)) =
                    t.enginesNum + (k - i) by omega] at hbit
              · rw [hrest.before k (by omega), engineInit_ne t dir i (Nat.ne_of_lt hk)]

structure Numbered (t : EngineTable) (num : EngineId → Nat) : Prop where
  lt : ∀ e, t.Exists e → num e < 32
  engine : ∀ e, t.Exists e → t.engine e.1 e.2 = ⟨BitVec.twoPow 32 (num e), true⟩
  mask : ∀ e, t.Exists e → (t.maskIrq e.1).getLsbD (num e) = true
  inj : ∀ e e', t.Exists e → t.Exists e' → num e = num e' → e = e'

theorem probeFirst (found : Nat → Option Bool) :
    let t := empty.probeDirection .toDevice found
    t.channelMax .toDevice ≤ t.enginesNum ∧ t.enginesNum ≤ 4 ∧ t.channelMax .fromDevice = 4 ∧
      ∀ k < t.channelMax .toDevice, t.engine .toDevice k = ⟨BitVec.twoPow 32 k, true⟩ ∧
        (t.maskIrq .toDevice).getLsbD k = true := by
  have hloop := probeLoop_probed .toDevice found 4 0 empty
  have hempty : empty.enginesNum = 0 := rfl
  have hlo := hloop.numLo
  have hhi := hloop.numHi
  have hbound := hloop.bound
  simp only [probeDirection, show empty.channelMax .toDevice = 4 from rfl, Function.update_self]
  rw [hempty] at hlo hhi
  refine ⟨by omega, by omega, ?_, fun k hk => ⟨?_, ?_⟩⟩
  · rw [Function.update_of_ne (by decide), hloop.channelMax]
    rfl
  · rw [hloop.engine k (Nat.zero_le k) hk, hempty, Nat.zero_add, Nat.sub_zero]
  · have hbit := hloop.mask k (Nat.zero_le k) hk (by omega)
    rwa [hempty, Nat.zero_add, Nat.sub_zero] at hbit

theorem probeEngines_numbered (found : Direction → Nat → Option Bool) :
    ∃ num, Numbered (probeEngines found) num := by
  rw [probeEngines]
  obtain ⟨hle, hfour, hmax, hfirst⟩ := probeFirst (found .toDevice)
  generalize empty.probeDirection .toDevice (found .toDevice) = half at *
  have hloop := probeLoop_probed .fromDevice (found .fromDevice) 4 0 half
  rw [probeDirection, hmax]
  generalize probeLoop .fromDevice (found .fromDevice) 4 0 half = out at *
  have hbound := hloop.bound
  have hto : out.1.channelMax .toDevice = half.channelMax .toDevice := by rw [hloop.channelMax]
  have hengine := hloop.otherEngine .toDevice (by decide)
  have hmask := hloop.otherMask .toDevice (by decide)
  refine ⟨fun e => if e.1 = .toDevice then e.2 else half.enginesNum + e.2, ?_, ?_, ?_, ?_⟩
  · rintro ⟨dir, k⟩ hk
    cases dir <;> simp [Exists, hto] at hk ⊢ <;> omega
  · rintro ⟨dir, k⟩ hk
    cases dir with
    | toDevice =>
        simp only [Exists, ne_eq, reduceCtorEq, not_false_eq_true, Function.update_of_ne, hto] at hk
        rw [hengine]
        exact (hfirst k hk).1
    | fromDevice =>
        simp only [Exists, Function.update_self] at hk
        simpa using hloop.engine k (Nat.zero_le k) hk
  · rintro ⟨dir, k⟩ hk
    cases dir with
    | toDevice =>
        simp only [Exists, ne_eq, reduceCtorEq, not_false_eq_true, Function.update_of_ne, hto] at hk
        rw [hmask]
        exact (hfirst k hk).2
    | fromDevice =>
        simp only [Exists, Function.update_self] at hk
        have hbit := hloop.mask k (Nat.zero_le k) hk (by omega)
        rwa [Nat.sub_zero] at hbit
  · rintro ⟨dir, k⟩ ⟨dir', k'⟩ hk hk' heq
    cases dir <;> cases dir' <;> simp [Exists, hto] at hk hk' heq ⊢ <;> omega

/-! ## Exactly the requested engines -/

theorem twoPow_and_ne_zero {n : Nat} (hn : n < 32) (mask : U32) :
    BitVec.twoPow 32 n &&& mask ≠ 0 ↔ mask.getLsbD n = true := by
  rw [BitVec.twoPow_and]
  split
  · next hbit =>
      refine ⟨fun _ => hbit, fun _ hzero => ?_⟩
      have hself := congrArg (fun x : U32 => x.getLsbD n) hzero
      simp [hn] at hself
  · next hbit => simp [hbit]

private theorem mem_dispatch {engine : Nat → EngineIrq} {num : Nat → Nat} {channels : List Nat}
    (hengine : ∀ c ∈ channels, engine c = ⟨BitVec.twoPow 32 (num c), true⟩)
    (hlt : ∀ c ∈ channels, num c < 32)
    (hinj : ∀ c ∈ channels, ∀ c' ∈ channels, num c = num c' → c = c')
    (hnodup : channels.Nodup) (mask : U32) (c : Nat) :
    c ∈ dispatch engine channels mask ↔ c ∈ channels ∧ mask.getLsbD (num c) = true := by
  induction channels generalizing mask with
  | nil => simp [dispatch]
  | cons first rest ih =>
      have hfirst := hengine first List.mem_cons_self
      obtain ⟨hnew, hrest⟩ := List.nodup_cons.mp hnodup
      have ih := ih (fun c hc => hengine c (List.mem_cons_of_mem _ hc))
        (fun c hc => hlt c (List.mem_cons_of_mem _ hc))
        (fun c hc c' hc' => hinj c (List.mem_cons_of_mem _ hc) c' (List.mem_cons_of_mem _ hc'))
        hrest
      have hbit := twoPow_and_ne_zero (hlt first List.mem_cons_self) mask
      simp only [dispatch, hfirst]
      split
      · next hzero => simp [hzero]
      · split
        · next hset =>
            rw [List.mem_cons, List.mem_cons, ih]
            constructor
            · rintro (rfl | ⟨hmem, hc⟩)
              · exact ⟨.inl rfl, hbit.mp hset.1⟩
              · rw [BitVec.getLsbD_and, Bool.and_eq_true] at hc
                exact ⟨.inr hmem, hc.1⟩
            · rintro ⟨rfl | hmem, hc⟩
              · exact .inl rfl
              · refine .inr ⟨hmem, ?_⟩
                -- clearing the bit of `first` leaves every other engine's bit
                have hne : num c ≠ num first := fun heq =>
                  hnew (hinj c (List.mem_cons_of_mem _ hmem) first List.mem_cons_self heq ▸ hmem)
                simp [hc, hne, hlt c (List.mem_cons_of_mem _ hmem)]
        · next hclear =>
            rw [ih, List.mem_cons]
            constructor
            · rintro ⟨hmem, hc⟩
              exact ⟨.inr hmem, hc⟩
            · rintro ⟨rfl | hmem, hc⟩
              · exact absurd ⟨hbit.mpr hc, trivial⟩ hclear
              · exact ⟨hmem, hc⟩

theorem Numbered.mem_xdmaIsr {t : EngineTable} {num : EngineId → Nat} (h : Numbered t num)
    (chIrq : U32) (e : EngineId) :
    e ∈ t.xdmaIsr chIrq ↔ t.Exists e ∧ chIrq.getLsbD (num e) = true := by
  have hdir (dir : Direction) (k : Nat) :
      k ∈ dispatch (t.engine dir) (List.range (t.channelMax dir)) (chIrq &&& t.maskIrq dir) ↔
        t.Exists (dir, k) ∧ chIrq.getLsbD (num (dir, k)) = true := by
    have hexists : ∀ c ∈ List.range (t.channelMax dir), t.Exists (dir, c) :=
      fun c hc => List.mem_range.mp hc
    have hmem := mem_dispatch (fun c hc => h.engine (dir, c) (hexists c hc))
      (fun c hc => h.lt (dir, c) (hexists c hc)) (fun c hc c' hc' heq =>
        congrArg Prod.snd (h.inj _ _ (hexists c hc) (hexists c' hc') heq)) List.nodup_range
    rw [hmem, List.mem_range, BitVec.getLsbD_and, Bool.and_eq_true]
    exact ⟨fun ⟨hk, hc, _⟩ => ⟨hk, hc⟩, fun ⟨hk, hc⟩ => ⟨hk, hc, h.mask _ hk⟩⟩
  obtain ⟨dir, k⟩ := e
  simp only [xdmaIsr, dispatchDirection, List.mem_append, List.mem_map]
  cases dir <;> simp [hdir]

theorem Numbered.bit_and_ne_zero {t : EngineTable} {num : EngineId → Nat} (h : Numbered t num)
    {e : EngineId} (he : t.Exists e) (mask : U32) :
    t.bit e &&& mask ≠ 0 ↔ mask.getLsbD (num e) = true := by
  rw [bit, h.engine e he]
  exact twoPow_and_ne_zero (h.lt e he) mask

end EngineTable

end NupaNet.Xdma
