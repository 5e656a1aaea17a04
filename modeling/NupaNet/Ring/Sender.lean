import NupaNet.Ring.Layout

/-!
# The transmit path

`nupanet_xmit_frame`, with `fetch_packet_desc` and `xdma_send_data` inside it,
as a thread that performs one shared-memory access or one DMA at a time.  The
constructors of `Sender` are its program points; each names the access that
comes next and carries the locals that are still live.  Loads that only feed a
debug print are left out.
-/

namespace NupaNet.Ring

open NupaNet.Foundation

structure Skb where
  data : Memory
  headlen : Nat

namespace Skb

def frame (skb : Skb) : List UInt8 := block skb.data 0 skb.headlen

def destMac (skb : Skb) (k : Nat) : UInt8 := skb.data k

@[simp] theorem frame_length (skb : Skb) : skb.frame.length = skb.headlen := by
  simp [frame]

end Skb

/-! ## Choosing the destination -/

/-- Reads `mac_addr[5]` through a `char`, which is signed on x86. -/
def macAddrToHostId (macAddr : Nat → UInt8) : CInt :=
  (macAddr 5).toBitVec.signExtend 32

def macAddrValid (_macAddr : Nat → UInt8) : Bool := true

def isMulticastEtherAddr (macAddr : Nat → UInt8) : Bool :=
  macAddr 0 &&& 1 = 1

def isBroadcastEtherAddr (macAddr : Nat → UInt8) : Bool :=
  (List.range 6).all fun k => macAddr k = 0xff

def firstOtherAgent (hostId : CInt) : CInt :=
  (((List.range maxAgentNum).map (BitVec.ofNat 32)).find? (· ≠ hostId)).getD 0

def xmitDstId (hostId : CInt) (skb : Skb) : CInt :=
  if isBroadcastEtherAddr skb.destMac || isMulticastEtherAddr skb.destMac then
    firstOtherAgent hostId
  else
    macAddrToHostId skb.destMac

/-- The `dst_id` of the `fetch_packet_desc` call, or `none` when the frame is dropped before it. -/
def xmitTarget (hostId : CInt) (holdIcCtl : Bool) (skb : Skb) : Option CInt :=
  if holdIcCtl then none
  else if !macAddrValid (fun k => skb.data (k + 6)) || !macAddrValid skb.destMac then none
  else if descMaxDmaSize < skb.headlen then none
  else some (xmitDstId hostId skb)

/-! ## The thread -/

/-- Result and effect of one `xdma_transfer_data` call: the returned count or
error, and which bytes of the range were moved. -/
structure Dma where
  res : Int
  moved : Nat → Bool

def Dma.Complete (dma : Dma) (len : Nat) : Prop :=
  dma.res = len ∧ ∀ k < len, dma.moved k = true

instance (dma : Dma) (len : Nat) : Decidable (dma.Complete len) :=
  inferInstanceAs (Decidable (_ ∧ _))

def Dma.full (len : Nat) : Dma := ⟨len, fun _ => true⟩

/-- What the environment decides at a step of the sender: the indeterminate
initial value of the local `total_len`, whether `kmalloc` succeeds, and the
DMA. -/
structure SendEnv where
  totalLen : CInt
  bufOk : Bool
  dma : Dma

structure Call where
  dst : CInt
  skb : Skb

inductive Sender where
  | idle
  | loadHead (c : Call)
  | loadTail (c : Call) (head : CInt)
  | loadReady (c : Call) (head tail : CInt)
  | loadTotalLen (c : Call) (head : CInt)
  | storeTotalLen (c : Call) (head totalLen : CInt)
  | storeFreezing (c : Call) (head : CInt)
  | storeLength (c : Call) (head : CInt)
  | storeHead (c : Call) (head : CInt)
  | loadPos (c : Call) (head : CInt)
  | storeOffset (c : Call) (head pos : CInt)
  | loadOffset (c : Call) (head : CInt)
  | sendLoadOffset (c : Call) (head : CInt)
  | sendLoadLength (c : Call) (head offset : CInt)
  | transfer (c : Call) (head offset length : CInt)
  | storeSettled (c : Call) (head : CInt)
  | bug
  | oops (c : Call) (head : CInt)

structure Shm where
  area : InfoArea
  dev : Memory

namespace Shm

def store (m : Shm) (s : Store) : Shm := { m with area := m.area.store s }

@[simp] theorem store_area (m : Shm) (s : Store) : (m.store s).area = m.area.store s := rfl
@[simp] theorem store_dev (m : Shm) (s : Store) : (m.store s).dev = m.dev := rfl

end Shm

namespace Sender

def xmitFrame (hostId : CInt) (holdIcCtl : Bool) (skb : Skb) : Sender :=
  match xmitTarget hostId holdIcCtl skb with
  | none => .idle
  | some dst => if (2 : CInt).sle dst then .bug else .loadHead ⟨dst, skb⟩

/-- The capacity test of `fetch_packet_desc`, on its own uninitialised `total_len`. -/
def fits (totalLen : CInt) : Bool := (totalLen + 2048).sle 131072

def full (head tail : CInt) : Bool := (head + 1) &&& (64 - 1) = tail

def step (m : Shm) (env : SendEnv) : Sender → Option (Shm × Sender)
  | .idle => none
  | .loadHead c => some (m, .loadTail c m.area.info.head)
  | .loadTail c head => some (m, .loadReady c head m.area.info.tail)
  | .loadReady c head tail =>
      -- not ready, capacity and ring-full all return NULL; the frame is dropped
      if !m.area.info.ready then some (m, .idle)
      else if !fits env.totalLen then some (m, .idle)
      else if full head tail then some (m, .idle)
      else some (m, .loadTotalLen c head)
  | .loadTotalLen c head => some (m, .storeTotalLen c head m.area.info.totalLen)
  | .storeTotalLen c head totalLen =>
      some (m.store (.totalLen (totalLen + BitVec.ofNat 32 c.skb.headlen)),
        .storeFreezing c head)
  | .storeFreezing c head => some (m.store (.status head .packetFreezing), .storeLength c head)
  | .storeLength c head =>
      some (m.store (.length head (BitVec.ofNat 32 c.skb.headlen)), .storeHead c head)
  | .storeHead c head => some (m.store (.head ((head + 1).srem 64)), .loadPos c head)
  | .loadPos c head => some (m, .storeOffset c head (m.area.desc head).pos)
  | .storeOffset c head pos =>
      some (m.store (.offset head (131072 * c.dst + pos * 2048)), .loadOffset c head)
  | .loadOffset c head => some (m, .sendLoadOffset c head)
  | .sendLoadOffset c head => some (m, .sendLoadLength c head (m.area.desc head).offset)
  | .sendLoadLength c head offset =>
      some (m, .transfer c head offset (m.area.desc head).length)
  | .transfer c head offset length =>
      -- the copy into an unchecked `kmalloc` buffer; the result of the DMA is dropped
      if !env.bufOk then some (m, .oops c head)
      else some ({ m with
          dev := overlay m.dev (devAddr offset) length.toNat env.dma.moved c.skb.data },
        .storeSettled c head)
  | .storeSettled _ head => some (m.store (.status head .packetSettled), .idle)
  | .bug => none
  | .oops _ _ => none

/-- The tests of `fetch_packet_desc`: the frame is dropped, or it has passed all three. -/
theorem step_loadReady {m m' : Shm} {env : SendEnv} {c : Call} {head tail : CInt} {s' : Sender}
    (h : step m env (.loadReady c head tail) = some (m', s')) :
    m' = m ∧ (s' = .idle ∨
      m.area.info.ready = true ∧ fits env.totalLen = true ∧ full head tail = false ∧
        s' = .loadTotalLen c head) := by
  simp only [step] at h
  split at h
  · cases h
    exact ⟨rfl, .inl rfl⟩
  · next hready =>
      split at h
      · cases h
        exact ⟨rfl, .inl rfl⟩
      · next hfits =>
          split at h
          · cases h
            exact ⟨rfl, .inl rfl⟩
          · next hfull =>
              cases h
              exact ⟨rfl, .inr ⟨by simpa using hready, by simpa using hfits,
                Bool.eq_false_iff.mpr hfull, rfl⟩⟩

theorem step_transfer {m m' : Shm} {env : SendEnv} {c : Call} {head offset length : CInt}
    {s' : Sender} (h : step m env (.transfer c head offset length) = some (m', s')) :
    (m' = m ∧ s' = .oops c head) ∨
      (m' = { m with
          dev := overlay m.dev (devAddr offset) length.toNat env.dma.moved c.skb.data } ∧
        s' = .storeSettled c head) := by
  simp only [step] at h
  split at h <;> cases h
  · exact .inl ⟨rfl, rfl⟩
  · exact .inr ⟨rfl, rfl⟩

def fetching : Sender → Bool
  | .loadHead _ | .loadTail _ _ | .loadReady _ _ _ | .loadTotalLen _ _
  | .storeTotalLen _ _ _ | .storeFreezing _ _ | .storeLength _ _ | .storeHead _ _
  | .loadPos _ _ | .storeOffset _ _ _ => true
  | _ => false

/-- The descriptor held between the return of `fetch_packet_desc` and the
`PACKET_SETTLED` store. -/
def inFlight : Sender → Option CInt
  | .loadOffset _ head | .sendLoadOffset _ head | .sendLoadLength _ head _
  | .transfer _ head _ _ | .storeSettled _ head | .oops _ head => some head
  | _ => none

def returns : Sender → Option (Call × CInt)
  | .storeOffset c head _ => some (c, head)
  | _ => none

def publishes : Sender → Bool
  | .storeHead _ _ => true
  | _ => false

end Sender

end NupaNet.Ring
