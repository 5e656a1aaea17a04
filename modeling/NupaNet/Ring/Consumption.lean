import NupaNet.Ring.Accounting

/-!
# One iteration of the poll loop

`nupa_data_available`, `xdma_receive_data` and the `PACKET_RELEASED` store as one
function on the shared memory.  The tail and the byte count are committed before
the part that can fail, and nothing takes them back.

The tail is the index of a slot, 0..63.  At -1 the word in the place of the
status is `ready`, 0 or 1, so that nothing is taken there either.
-/

namespace NupaNet.Ring

open NupaNet.Foundation

/-! ## The calls -/

/-- What the environment decides in one iteration: the outcomes of `napi_alloc_skb` and of the
`kmalloc` of the buffer, where the buffer lies in its page and what it holds, and in
`xdma_transfer_data` the outcomes of `kzalloc`, `sg_alloc_table` and `xdma_xfer_submit`. -/
structure ReceiveEnv where
  skbOk : Bool
  bufOk : Bool
  bufOffset : Nat
  buf : Memory
  sgtOk : Bool
  tableOk : Bool
  submit : Dma

namespace ReceiveEnv

def nothing (res : Int) : Dma := ⟨res, fun _ => false⟩

/-- The transfer is not turned away before its scatter table is built: `length > PAGE_SIZE`
compares as `unsigned long`. -/
def Accepted (env : ReceiveEnv) (length : CInt) : Prop :=
  (length.signExtend 64).toNat ≤ 4096 ∧ (env.bufOffset + length.toNat + 4095) / 4096 ≠ 0

instance (env : ReceiveEnv) (length : CInt) : Decidable (env.Accepted length) :=
  inferInstanceAs (Decidable (_ ∧ _))

/-- No result when the table could not be allocated: `sg_alloc_table` clears it unchecked. -/
def xdmaTransferData (env : ReceiveEnv) (length : CInt) : Option Dma :=
  if ¬ env.Accepted length then some (nothing (-22))
  else if !env.sgtOk then none
  else if !env.tableOk then some (nothing (-12))
  else some env.submit

def received (env : ReceiveEnv) (dma : Dma) (dev : Memory) (offset length : CInt) :
    List UInt8 :=
  block (overlay env.buf 0 length.toNat dma.moved fun k => dev (devAddr offset + k)) 0
    length.toNat

/-- No result when the call faults, `some none` when it returns NULL. -/
def xdmaReceiveData (env : ReceiveEnv) (m : Shm) (index : CInt) : Option (Option (List UInt8)) :=
  let desc := m.area.desc index
  if !env.bufOk then some none
  else match env.xdmaTransferData desc.length with
    | none => none
    | some dma =>
        -- the result of the transfer is not looked at
        if !env.skbOk then none
        else some (some (env.received dma m.dev desc.offset desc.length))

end ReceiveEnv

inductive Iteration where
  | spinning
  | leaving
  | faulting
  | delivering (skb : List UInt8)
  deriving DecidableEq

def pollIteration (env : ReceiveEnv) (m : Shm) : Shm × Iteration :=
  match nupaDataAvailable m.area with
  | none => (m, .spinning)
  | some (area, none) => ({ m with area := area }, .leaving)
  | some (area, some tail) =>
      let m' := { m with area := area }
      match env.xdmaReceiveData m' tail with
      | none => (m', .faulting)
      | some none => (m', .leaving)
      | some (some skb) => (m'.store (.status tail .packetReleased), .delivering skb)

/-! ## What an iteration does -/

def Taking (area : InfoArea) : Prop :=
  area.info.head ≠ area.info.tail ∧ (area.desc area.info.tail).status = .packetSettled

instance (area : InfoArea) : Decidable (Taking area) := inferInstanceAs (Decidable (_ ∧ _))

def InfoArea.afterTake (area : InfoArea) : InfoArea :=
  area.storeAll [.tail ((area.info.tail + 1).srem 64), .totalLen (area.info.totalLen - 2048)]

private theorem nupaDataAvailable_of_taking {area : InfoArea} (h : Taking area) :
    nupaDataAvailable area = some (area.afterTake, some area.info.tail) := by
  obtain ⟨hsome, hsettled⟩ := h
  simp only [nupaDataAvailable, if_neg hsome, hsettled]
  rfl

def Iteration.after (m : Shm) (tail : CInt) : Option (Option (List UInt8)) → Shm × Iteration
  | none => (m, .faulting)
  | some none => (m, .leaving)
  | some (some skb) => (m.store (.status tail .packetReleased), .delivering skb)

private theorem pollIteration_of_taking {env : ReceiveEnv} {m : Shm} (h : Taking m.area) :
    pollIteration env m = Iteration.after { m with area := m.area.afterTake } m.area.info.tail
      (env.xdmaReceiveData m m.area.info.tail) := by
  have hread : env.xdmaReceiveData { m with area := m.area.afterTake } m.area.info.tail =
      env.xdmaReceiveData m m.area.info.tail := rfl
  simp only [pollIteration, nupaDataAvailable_of_taking h, hread]
  cases env.xdmaReceiveData m m.area.info.tail with
  | none => rfl
  | some skb => cases skb <;> rfl

private theorem pollIteration_of_not_taking (env : ReceiveEnv) {m : Shm} (h : ¬ Taking m.area) :
    pollIteration env m = (m, .spinning) ∨ pollIteration env m = (m, .leaving) := by
  cases havail : nupaDataAvailable m.area with
  | none =>
      left
      simp only [pollIteration, havail]
  | some out =>
      obtain ⟨area, got⟩ := out
      cases got with
      | none =>
          right
          obtain ⟨rfl, -⟩ := idle_of_nupaDataAvailable havail
          simp only [pollIteration, havail]
      | some tail =>
          obtain ⟨hsome, hsettled, -⟩ := taken_of_nupaDataAvailable havail
          exact absurd ⟨hsome, hsettled⟩ h

/-! ## The iteration as steps of the receiver -/

def ReceiveEnv.toRecvEnv (env : ReceiveEnv) (dma : Dma) : RecvEnv where
  skbOk := env.skbOk
  bufOk := env.bufOk
  buf := env.buf
  dma := dma

def Iteration.receiver (r : Receiver) (tail : CInt) : Iteration → Receiver
  | .spinning => r.goto .loadHead
  | .leaving => r.leave
  | .faulting => r.goto .oops
  | .delivering skb => r.goto (.groReceive tail skb)

private theorem exec_xdmaReceiveData {env : ReceiveEnv} {m : Shm} (r : Receiver) (tail : CInt)
    {dma : Dma}
    (hdma : env.xdmaTransferData (m.area.desc tail).length = some dma) :
    ∃ n, exec receiverStep (m, r.goto (.loadOffset tail))
        (List.replicate n (env.toRecvEnv dma)) =
      some ((Iteration.after m tail (env.xdmaReceiveData m tail)).1,
        (Iteration.after m tail (env.xdmaReceiveData m tail)).2.receiver r tail) := by
  cases hbuf : env.bufOk with
  | false =>
      refine ⟨3, ?_⟩
      simp [exec, receiverStep, Receiver.step, Receiver.goto, Receiver.leave, List.replicate,
        ReceiveEnv.xdmaReceiveData, ReceiveEnv.toRecvEnv, Iteration.after, Iteration.receiver,
        hbuf]
  | true =>
      cases hskb : env.skbOk with
      | false =>
          refine ⟨3, ?_⟩
          simp [exec, receiverStep, Receiver.step, Receiver.goto, List.replicate,
            ReceiveEnv.xdmaReceiveData, ReceiveEnv.toRecvEnv, Iteration.after,
            Iteration.receiver, hbuf, hskb, hdma]
      | true =>
          refine ⟨4, ?_⟩
          simp [exec, receiverStep, Receiver.step, Receiver.goto, List.replicate,
            ReceiveEnv.xdmaReceiveData, ReceiveEnv.toRecvEnv, ReceiveEnv.received,
            Iteration.after, Iteration.receiver, hbuf, hskb, hdma]

/-- An iteration that takes a descriptor is a run of the receiver, unless the scatter table could
not be allocated. -/
theorem exec_pollIteration {env : ReceiveEnv} {m : Shm} (r : Receiver) {dma : Dma}
    (hdma : env.xdmaTransferData (m.area.desc m.area.info.tail).length = some dma)
    (htaking : Taking m.area) :
    ∃ n, exec receiverStep (m, r.goto .loadHead) (List.replicate n (env.toRecvEnv dma)) =
      some ((pollIteration env m).1, (pollIteration env m).2.receiver r m.area.info.tail) := by
  have havail := nupaDataAvailable_of_taking htaking
  obtain ⟨n, hn⟩ := exec_nupaDataAvailable m r (env.toRecvEnv dma) havail
  obtain ⟨k, hk⟩ := exec_xdmaReceiveData (m := { m with area := m.area.afterTake }) r
    m.area.info.tail hdma
  refine ⟨n + k, ?_⟩
  rw [List.replicate_add, exec_append, hn, Option.bind_some, pollIteration_of_taking htaking]
  exact hk

/-! ## Consumed exactly when delivered -/

def tailFrame (m : Shm) : List UInt8 :=
  let desc := m.area.desc m.area.info.tail
  block m.dev (devAddr desc.offset) desc.length.toNat

/-- Either the frame is delivered and its descriptor consumed and released, or the tail, the byte
count and the descriptor are as before. -/
def Iteration.Consumes (m m' : Shm) : Iteration → Prop
  | .delivering skb => skb = tailFrame m ∧
      m'.area.info.tail = (m.area.info.tail + 1).srem 64 ∧
      (m'.area.desc m.area.info.tail).status = .packetReleased
  | .spinning | .leaving | .faulting => m'.area.info.tail = m.area.info.tail ∧
      m'.area.info.totalLen = m.area.info.totalLen ∧
      m'.area.desc m.area.info.tail = m.area.desc m.area.info.tail

/-- Both buffers and the scatter table are there, and each byte of the frame was moved by the
transfer or stood in the fresh buffer anyhow. -/
structure ReceiveEnv.Succeeds (env : ReceiveEnv) (m : Shm) (desc : PacketDesc) : Prop where
  buf : env.bufOk = true
  skb : env.skbOk = true
  sgt : env.Accepted desc.length → env.sgtOk = true
  bytes : ∀ k < desc.length.toNat,
    (env.Accepted desc.length ∧ env.tableOk = true ∧ env.submit.moved k = true) ∨
      env.buf k = m.dev (devAddr desc.offset + k)

private theorem received_eq_iff {env : ReceiveEnv} {dma : Dma} {dev : Memory}
    {offset length : CInt} :
    env.received dma dev offset length = block dev (devAddr offset) length.toNat ↔
      ∀ k < length.toNat, dma.moved k = true ∨ env.buf k = dev (devAddr offset + k) := by
  have hbyte : ∀ k < length.toNat,
      overlay env.buf 0 length.toNat dma.moved (fun k => dev (devAddr offset + k)) k =
        if dma.moved k = true then dev (devAddr offset + k) else env.buf k := by
    intro k hk
    simp [overlay, hk]
  simp only [ReceiveEnv.received, block, Nat.zero_add, List.map_inj_left, List.mem_range]
  refine forall₂_congr fun k hk => ?_
  rw [hbyte k hk]
  cases dma.moved k <;> simp

private theorem xdmaTransferData_eq_none_iff {env : ReceiveEnv} {length : CInt} :
    env.xdmaTransferData length = none ↔ env.Accepted length ∧ env.sgtOk = false := by
  unfold ReceiveEnv.xdmaTransferData
  by_cases haccepted : env.Accepted length
  · cases env.sgtOk <;> cases env.tableOk <;> simp [haccepted]
  · simp [haccepted]

private theorem moved_of_xdmaTransferData {env : ReceiveEnv} {length : CInt} {dma : Dma}
    (h : env.xdmaTransferData length = some dma) (k : Nat) :
    dma.moved k = true ↔
      env.Accepted length ∧ env.tableOk = true ∧ env.submit.moved k = true := by
  unfold ReceiveEnv.xdmaTransferData at h
  split at h
  · next hrefused =>
      cases h
      simp [ReceiveEnv.nothing, hrefused]
  next haccepted =>
    rw [not_not] at haccepted
    split at h
    · cases h
    split at h
    · next htable =>
        cases h
        rw [Bool.not_eq_true'] at htable
        simp [ReceiveEnv.nothing, htable]
    · next htable =>
        cases h
        rw [Bool.not_eq_true, Bool.not_eq_false'] at htable
        simp [haccepted, htable]

private theorem xdmaReceiveData_eq_iff {env : ReceiveEnv} {m : Shm} {index : CInt} :
    env.xdmaReceiveData m index = some (some (block m.dev (devAddr (m.area.desc index).offset)
        (m.area.desc index).length.toNat)) ↔ env.Succeeds m (m.area.desc index) := by
  cases hbuf : env.bufOk with
  | false =>
      refine iff_of_false ?_ fun h => ?_
      · simp [ReceiveEnv.xdmaReceiveData, hbuf]
      · rw [h.buf] at hbuf
        cases hbuf
  | true =>
      cases hdma : env.xdmaTransferData (m.area.desc index).length with
      | none =>
          obtain ⟨haccepted, hsgt⟩ := xdmaTransferData_eq_none_iff.mp hdma
          refine iff_of_false ?_ fun h => ?_
          · simp [ReceiveEnv.xdmaReceiveData, hbuf, hdma]
          · rw [h.sgt haccepted] at hsgt
            cases hsgt
      | some dma =>
          have hsgt : env.Accepted (m.area.desc index).length → env.sgtOk = true := by
            intro haccepted
            by_contra hsgt
            have hnone := xdmaTransferData_eq_none_iff.mpr
              ⟨haccepted, Bool.eq_false_iff.mpr hsgt⟩
            rw [hdma] at hnone
            cases hnone
          cases hskb : env.skbOk with
          | false =>
              refine iff_of_false ?_ fun h => ?_
              · simp [ReceiveEnv.xdmaReceiveData, hbuf, hdma, hskb]
              · rw [h.skb] at hskb
                cases hskb
          | true =>
              have hdata : env.xdmaReceiveData m index = some (some (env.received dma m.dev
                  (m.area.desc index).offset (m.area.desc index).length)) := by
                simp [ReceiveEnv.xdmaReceiveData, hbuf, hdma, hskb]
              rw [hdata, Option.some_inj, Option.some_inj, received_eq_iff]
              simp only [moved_of_xdmaTransferData hdma]
              exact ⟨fun hbytes => ⟨hbuf, hskb, hsgt, hbytes⟩, fun h => h.bytes⟩

private theorem after_consumes_iff {m : Shm} {result : Option (Option (List UInt8))} :
    (Iteration.after { m with area := m.area.afterTake } m.area.info.tail result).2.Consumes m
        (Iteration.after { m with area := m.area.afterTake } m.area.info.tail result).1 ↔
      result = some (some (tailFrame m)) := by
  have hcount : m.area.afterTake.info.totalLen ≠ m.area.info.totalLen := by
    change m.area.info.totalLen - 2048 ≠ m.area.info.totalLen
    bv_omega
  cases result with
  | none => simp [Iteration.after, Iteration.Consumes, hcount]
  | some skb =>
      cases skb with
      | none => simp [Iteration.after, Iteration.Consumes, hcount]
      | some skb =>
          have htail : m.area.afterTake.info.tail = (m.area.info.tail + 1).srem 64 := rfl
          simp [Iteration.after, Iteration.Consumes, InfoArea.store, InfoArea.modifyDesc, htail]

private theorem consumes_iff_of_taking (env : ReceiveEnv) {m : Shm} (h : Taking m.area) :
    (pollIteration env m).2.Consumes m (pollIteration env m).1 ↔
      env.Succeeds m (m.area.desc m.area.info.tail) := by
  rw [pollIteration_of_taking h, after_consumes_iff]
  exact xdmaReceiveData_eq_iff

/-- The descriptor is consumed exactly when its frame is delivered, as long as a descriptor that
is taken meets no failure. -/
theorem pollIteration_consumes_iff (env : ReceiveEnv) (m : Shm) :
    (pollIteration env m).2.Consumes m (pollIteration env m).1 ↔
      (Taking m.area → env.Succeeds m (m.area.desc m.area.info.tail)) := by
  by_cases htaking : Taking m.area
  · rw [consumes_iff_of_taking env htaking, forall_prop_of_true htaking]
  · obtain h | h := pollIteration_of_not_taking env htaking
    · rw [h, forall_prop_of_false htaking]
      exact iff_of_true ⟨rfl, rfl, rfl⟩ trivial
    · rw [h, forall_prop_of_false htaking]
      exact iff_of_true ⟨rfl, rfl, rfl⟩ trivial

def oneSettled : Shm where
  area :=
    { info := ⟨1, 1, 0, 14, true⟩
      desc := fun k => if k = 0 then ⟨0, 131072, 14, .packetSettled⟩ else ⟨k, 0, 0, .packetInit⟩ }
  dev := fun _ => 0x5a

def receiveEnv (skbOk bufOk : Bool) (submit : Dma) : ReceiveEnv where
  skbOk := skbOk
  bufOk := bufOk
  bufOffset := 0
  buf := fun _ => 0
  sgtOk := true
  tableOk := true
  submit := submit

def takeOne (skbOk bufOk : Bool) (submit : Dma) : Shm × Iteration :=
  pollIteration (receiveEnv skbOk bufOk submit) oneSettled

/-- Without a buffer the tail has moved over the frame, and the next iteration finds the ring
empty; without an skb the call faults behind the moved tail; and after a failed DMA the content
of the fresh buffer is passed up. -/
theorem taken_frame_lost :
    (takeOne true false (Dma.full 14)).2 = .leaving ∧
      (takeOne true false (Dma.full 14)).1.area.info.tail = 1 ∧
      (pollIteration (receiveEnv true true (Dma.full 14))
        (takeOne true false (Dma.full 14)).1).2 = .leaving ∧
      ¬ (takeOne true false (Dma.full 14)).2.Consumes oneSettled
        (takeOne true false (Dma.full 14)).1 ∧
      (takeOne false true (Dma.full 14)).2 = .faulting ∧
      ¬ (takeOne false true (Dma.full 14)).2.Consumes oneSettled
        (takeOne false true (Dma.full 14)).1 ∧
      (takeOne true true ⟨-5, fun _ => false⟩).2 = .delivering (List.replicate 14 0) ∧
      ¬ (takeOne true true ⟨-5, fun _ => false⟩).2.Consumes oneSettled
        (takeOne true true ⟨-5, fun _ => false⟩).1 := by
  have htaking : Taking oneSettled.area := by decide +kernel
  refine ⟨by decide +kernel, by decide +kernel, by decide +kernel, fun h => ?_,
    by decide +kernel, fun h => ?_, by decide +kernel, fun h => ?_⟩
  · have hbuf := ((consumes_iff_of_taking (receiveEnv true false (Dma.full 14)) htaking).mp h).buf
    cases hbuf
  · have hskb := ((consumes_iff_of_taking (receiveEnv false true (Dma.full 14)) htaking).mp h).skb
    cases hskb
  · have hsucceeds := (consumes_iff_of_taking (receiveEnv true true ⟨-5, fun _ => false⟩)
      htaking).mp h
    have hbyte := hsucceeds.bytes 0 (by decide +kernel)
    revert hbyte
    decide +kernel

end NupaNet.Ring
