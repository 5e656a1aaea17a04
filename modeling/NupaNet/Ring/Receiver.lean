import NupaNet.Ring.Sender

/-!
# The receive path

`nupanet_poll`, with `nupa_data_available` and `xdma_receive_data` inside its
loop, as a thread in the same style as the sender.  The tail is advanced and
the byte count is refunded before the payload is read; the descriptor is
released after it.
-/

namespace NupaNet.Ring

open NupaNet.Foundation

/-- What the environment decides at a step of the receiver: the outcomes of
`napi_alloc_skb` and `kmalloc`, what the fresh buffer holds, and the DMA. -/
structure RecvEnv where
  skbOk : Bool
  bufOk : Bool
  buf : Memory
  dma : Dma

inductive PollPc where
  | idle
  | loadHead
  | loadTail (head : CInt)
  | spin (tail : CInt)
  | testSettled (tail : CInt)
  | testInit (tail : CInt)
  | testReleased (tail : CInt)
  | storeTail (tail : CInt)
  | loadTotalLen (tail : CInt)
  | storeTotalLen (tail totalLen : CInt)
  | loadOffset (tail : CInt)
  | loadLength (tail offset : CInt)
  | transfer (tail offset length : CInt)
  | storeReleased (tail : CInt) (skb : List UInt8)
  | groReceive (tail : CInt) (skb : List UInt8)
  | oops
  deriving DecidableEq

/-- How a `nupanet_poll` call ended: its value, whether it called
`napi_complete_done`, and how many packets it passed up. -/
structure PollReturn where
  value : Int
  completed : Bool
  delivered : Nat
  deriving DecidableEq, Repr

structure Receiver where
  pc : PollPc
  budget : Int
  workDone : Nat
  last : Option PollReturn

namespace Receiver

/-- Entry of `nupanet_poll`; with `hold_ic_ctl` set it returns `NETDEV_TX_OK` at once. -/
def poll (r : Receiver) (holdIcCtl : Bool) (budget : Int) : Receiver :=
  if holdIcCtl then { r with last := some ⟨0, false, 0⟩ }
  else { r with pc := .loadHead, budget := budget, workDone := 0 }

def leave (r : Receiver) : Receiver :=
  { r with
    pc := .idle
    last :=
      if (r.workDone : Int) = r.budget then some ⟨r.budget, false, r.workDone⟩
      else some ⟨r.workDone, true, r.workDone⟩ }

def goto (r : Receiver) (pc : PollPc) : Receiver := { r with pc := pc }

def step (m : Shm) (env : RecvEnv) (r : Receiver) : Option (Shm × Receiver) :=
  match r.pc with
  | .idle => none
  | .loadHead => some (m, r.goto (.loadTail m.area.info.head))
  | .loadTail head =>
      if head = m.area.info.tail then some (m, r.leave)
      else some (m, r.goto (.spin m.area.info.tail))
  | .spin tail =>
      if (m.area.desc tail).status = .packetFreezing then some (m, r)
      else some (m, r.goto (.testSettled tail))
  | .testSettled tail =>
      if (m.area.desc tail).status = .packetSettled then some (m, r.goto (.storeTail tail))
      else some (m, r.goto (.testInit tail))
  | .testInit tail =>
      if (m.area.desc tail).status = .packetInit then some (m, r.leave)
      else some (m, r.goto (.testReleased tail))
  | .testReleased tail =>
      -- a status seen as none of the three makes the function return the descriptor
      if (m.area.desc tail).status = .packetReleased then some (m, r.leave)
      else some (m, r.goto (.loadOffset tail))
  | .storeTail tail =>
      some (m.store (.tail ((tail + 1).srem 64)), r.goto (.loadTotalLen tail))
  | .loadTotalLen tail => some (m, r.goto (.storeTotalLen tail m.area.info.totalLen))
  | .storeTotalLen tail totalLen =>
      some (m.store (.totalLen (totalLen - 2048)), r.goto (.loadOffset tail))
  | .loadOffset tail => some (m, r.goto (.loadLength tail (m.area.desc tail).offset))
  | .loadLength tail offset =>
      some (m, r.goto (.transfer tail offset (m.area.desc tail).length))
  | .transfer tail offset length =>
      -- no buffer: NULL, and the loop ends; no skb: `skb_put_data` on NULL
      if !env.bufOk then some (m, r.leave)
      else if !env.skbOk then some (m, r.goto .oops)
      else some (m, r.goto (.storeReleased tail
        (block (overlay env.buf 0 length.toNat env.dma.moved
          (fun k => m.dev (devAddr offset + k))) 0 length.toNat)))
  | .storeReleased tail skb =>
      some (m.store (.status tail .packetReleased), r.goto (.groReceive tail skb))
  | .groReceive _ _ =>
      let r' := { r with workDone := r.workDone + 1 }
      if r.budget < (r'.workDone : Int) then some (m, r'.leave)
      else some (m, r'.goto .loadHead)
  | .oops => none

inductive Moves (m : Shm) (env : RecvEnv) (r : Receiver) : Shm → Receiver → Prop where
  | loadHead : r.pc = .loadHead → Moves m env r m (r.goto (.loadTail m.area.info.head))
  | empty {head : CInt} : r.pc = .loadTail head → head = m.area.info.tail →
      Moves m env r m r.leave
  | loadTail {head : CInt} : r.pc = .loadTail head → head ≠ m.area.info.tail →
      Moves m env r m (r.goto (.spin m.area.info.tail))
  | spin {tail : CInt} : r.pc = .spin tail → (m.area.desc tail).status = .packetFreezing →
      Moves m env r m r
  | unfrozen {tail : CInt} : r.pc = .spin tail → (m.area.desc tail).status ≠ .packetFreezing →
      Moves m env r m (r.goto (.testSettled tail))
  | settled {tail : CInt} : r.pc = .testSettled tail →
      (m.area.desc tail).status = .packetSettled → Moves m env r m (r.goto (.storeTail tail))
  | unsettled {tail : CInt} : r.pc = .testSettled tail →
      (m.area.desc tail).status ≠ .packetSettled → Moves m env r m (r.goto (.testInit tail))
  | init {tail : CInt} : r.pc = .testInit tail → (m.area.desc tail).status = .packetInit →
      Moves m env r m r.leave
  | notInit {tail : CInt} : r.pc = .testInit tail → (m.area.desc tail).status ≠ .packetInit →
      Moves m env r m (r.goto (.testReleased tail))
  | released {tail : CInt} : r.pc = .testReleased tail →
      (m.area.desc tail).status = .packetReleased → Moves m env r m r.leave
  | changed {tail : CInt} : r.pc = .testReleased tail →
      (m.area.desc tail).status ≠ .packetReleased → Moves m env r m (r.goto (.loadOffset tail))
  | storeTail {tail : CInt} : r.pc = .storeTail tail →
      Moves m env r (m.store (.tail ((tail + 1).srem 64))) (r.goto (.loadTotalLen tail))
  | loadTotalLen {tail : CInt} : r.pc = .loadTotalLen tail →
      Moves m env r m (r.goto (.storeTotalLen tail m.area.info.totalLen))
  | storeTotalLen {tail totalLen : CInt} : r.pc = .storeTotalLen tail totalLen →
      Moves m env r (m.store (.totalLen (totalLen - 2048))) (r.goto (.loadOffset tail))
  | loadOffset {tail : CInt} : r.pc = .loadOffset tail →
      Moves m env r m (r.goto (.loadLength tail (m.area.desc tail).offset))
  | loadLength {tail offset : CInt} : r.pc = .loadLength tail offset →
      Moves m env r m (r.goto (.transfer tail offset (m.area.desc tail).length))
  | noBuffer {tail offset length : CInt} : r.pc = .transfer tail offset length →
      env.bufOk = false → Moves m env r m r.leave
  | noSkb {tail offset length : CInt} : r.pc = .transfer tail offset length →
      env.bufOk = true → env.skbOk = false → Moves m env r m (r.goto .oops)
  | transfer {tail offset length : CInt} : r.pc = .transfer tail offset length →
      env.bufOk = true → env.skbOk = true →
      Moves m env r m (r.goto (.storeReleased tail
        (block (overlay env.buf 0 length.toNat env.dma.moved
          (fun k => m.dev (devAddr offset + k))) 0 length.toNat)))
  | storeReleased {tail : CInt} {skb : List UInt8} : r.pc = .storeReleased tail skb →
      Moves m env r (m.store (.status tail .packetReleased)) (r.goto (.groReceive tail skb))
  | full {tail : CInt} {skb : List UInt8} : r.pc = .groReceive tail skb →
      r.budget < (r.workDone + 1 : Nat) →
      Moves m env r m { r with workDone := r.workDone + 1 }.leave
  | again {tail : CInt} {skb : List UInt8} : r.pc = .groReceive tail skb →
      ¬ r.budget < (r.workDone + 1 : Nat) →
      Moves m env r m { r with pc := .loadHead, workDone := r.workDone + 1 }

theorem step_moves {m m' : Shm} {env : RecvEnv} {r r' : Receiver}
    (h : r.step m env = some (m', r')) : Moves m env r m' r' := by
  cases hpc : r.pc with
  | idle | oops =>
      simp only [step, hpc] at h
      cases h
  | loadHead =>
      simp only [step, hpc] at h
      cases h
      exact .loadHead hpc
  | loadTail head =>
      simp only [step, hpc] at h
      split at h
      · next hempty =>
          cases h
          exact .empty hpc hempty
      · next hsome =>
          cases h
          exact .loadTail hpc hsome
  | spin tail =>
      simp only [step, hpc] at h
      split at h
      · next hfreezing =>
          cases h
          exact .spin hpc hfreezing
      · next hfree =>
          cases h
          exact .unfrozen hpc hfree
  | testSettled tail =>
      simp only [step, hpc] at h
      split at h
      · next hsettled =>
          cases h
          exact .settled hpc hsettled
      · next hnot =>
          cases h
          exact .unsettled hpc hnot
  | testInit tail =>
      simp only [step, hpc] at h
      split at h
      · next hinit =>
          cases h
          exact .init hpc hinit
      · next hnot =>
          cases h
          exact .notInit hpc hnot
  | testReleased tail =>
      simp only [step, hpc] at h
      split at h
      · next hreleased =>
          cases h
          exact .released hpc hreleased
      · next hnot =>
          cases h
          exact .changed hpc hnot
  | storeTail tail =>
      simp only [step, hpc] at h
      cases h
      exact .storeTail hpc
  | loadTotalLen tail =>
      simp only [step, hpc] at h
      cases h
      exact .loadTotalLen hpc
  | storeTotalLen tail totalLen =>
      simp only [step, hpc] at h
      cases h
      exact .storeTotalLen hpc
  | loadOffset tail =>
      simp only [step, hpc] at h
      cases h
      exact .loadOffset hpc
  | loadLength tail offset =>
      simp only [step, hpc] at h
      cases h
      exact .loadLength hpc
  | transfer tail offset length =>
      simp only [step, hpc, Bool.not_eq_true'] at h
      split at h
      · next hbuf =>
          cases h
          exact .noBuffer hpc hbuf
      · next hbuf =>
          rw [Bool.not_eq_false] at hbuf
          split at h
          · next hskb =>
              cases h
              exact .noSkb hpc hbuf hskb
          · next hskb =>
              cases h
              exact .transfer hpc hbuf (Bool.not_eq_false _ ▸ hskb)
  | storeReleased tail skb =>
      simp only [step, hpc] at h
      cases h
      exact .storeReleased hpc
  | groReceive tail skb =>
      simp only [step, hpc] at h
      split at h
      · next hfull =>
          cases h
          exact .full hpc hfull
      · next hroom =>
          cases h
          exact .again hpc hroom

/-- The slot the receiver holds between its store of `info->tail` and its
`PACKET_RELEASED` store. -/
def holding (r : Receiver) : Option CInt :=
  match r.pc with
  | .loadTotalLen tail | .storeTotalLen tail _ | .loadOffset tail | .loadLength tail _
  | .transfer tail _ _ | .storeReleased tail _ => some tail
  | _ => none

def takes (r : Receiver) : Bool :=
  match r.pc with
  | .storeTail _ => true
  | _ => false

def delivers (r : Receiver) : Option (List UInt8) :=
  match r.pc with
  | .groReceive _ skb => some skb
  | _ => none

end Receiver

end NupaNet.Ring
