import NupaNet.Adapter.Pages
import NupaNet.Foundation.Ledger

/-!
# The memory of the packet path

What `nupanet_xmit_frame` and one round of `nupanet_poll` are given, allocate,
free and hand on, for every outcome of their allocations.  A call uses an
allocation it has not looked at as if it held it.  Several returns forget a
frame, and `xdma_transfer_data` frees its scatter table on none; what stays
behind is stated call by call, for any number of calls at once.
-/

namespace NupaNet.Adapter

open NupaNet.Foundation NupaNet.Xdma NupaNet.Ring

inductive Block where
  | skb
  | buf
  | sgt
  | sgl
  deriving DecidableEq, Repr

/-- A block of a call; the calls are numbered. -/
abbrev CallBlock := Nat × Block

/-! ## The calls -/

def xdmaTransferBlocks (i : Nat) (allocs : Allocs) (buf : U64) (length : CInt) :
    List (Event CallBlock) :=
  if BitVec.ofNat 64 pageSize < length.signExtend 64 then []
  else
    (if allocs.sgt then [.acquire (i, .sgt)] else []) ++
      if pagesNr buf length = 0 then []
      else
        .use (i, .sgt) ::
          if allocs.table then
            [.acquire (i, .sgl), .use (i, .sgl), .use (i, .buf), .use (i, .sgt)]
          else []

def xdmaSendBlocks (i : Nat) (allocs : Allocs) (length : CInt) : List (Event CallBlock) :=
  match allocs.buf with
  | none => [.use (i, .buf)]
  | some buf =>
      [.acquire (i, .buf), .use (i, .skb), .use (i, .buf)] ++
        xdmaTransferBlocks i allocs buf length ++ [.release (i, .buf)]

/-- With `desc`, whether `fetch_packet_desc` has a descriptor for the frame. -/
def nupanetXmitBlocks (i : Nat) (holdIcCtl : Bool) (headlen : Nat) (desc : Bool)
    (allocs : Allocs) : List (Event CallBlock) :=
  [.acquire (i, .skb), .use (i, .skb)] ++
    if holdIcCtl then []
    else if descMaxDmaSize < headlen ∨ desc = false then [.release (i, .skb)]
    else xdmaSendBlocks i allocs (BitVec.ofNat 32 headlen) ++ [.release (i, .skb)]

def xdmaReceiveBlocks (i : Nat) (skbOk : Bool) (length : CInt) (allocs : Allocs) :
    List (Event CallBlock) :=
  (if skbOk then [.acquire (i, .skb)] else []) ++
    match allocs.buf with
    | none => []
    | some buf =>
        [.acquire (i, .buf)] ++ xdmaTransferBlocks i allocs buf length ++
          [.use (i, .skb), .use (i, .buf), .release (i, .buf)]

/-- A round that has found a descriptor; `napi_gro_receive` takes the frame over. -/
def nupanetPollBlocks (i : Nat) (skbOk : Bool) (length : CInt) (allocs : Allocs) :
    List (Event CallBlock) :=
  xdmaReceiveBlocks i skbOk length allocs ++
    if allocs.buf.isSome then [.use (i, .skb), .release (i, .skb)] else []

inductive PacketCall where
  | xmit (holdIcCtl : Bool) (headlen : Nat) (desc : Bool) (allocs : Allocs)
  | poll (skbOk : Bool) (length : CInt) (allocs : Allocs)

namespace PacketCall

def blocks (i : Nat) : PacketCall → List (Event CallBlock)
  | .xmit holdIcCtl headlen desc allocs => nupanetXmitBlocks i holdIcCtl headlen desc allocs
  | .poll skbOk length allocs => nupanetPollBlocks i skbOk length allocs

/-! ## What a call needs and what it leaves -/

/-- The table of a call, and the entries of the table. -/
def transferLeft (allocs : Allocs) (buf : U64) (length : CInt) : List Block :=
  if BitVec.ofNat 64 pageSize < length.signExtend 64 then []
  else
    (if allocs.sgt then [.sgt] else []) ++
      if pagesNr buf length ≠ 0 ∧ allocs.table then [.sgl] else []

/-- No allocation fails that the call does not look at. -/
def Checked : PacketCall → Prop
  | .xmit holdIcCtl headlen desc allocs =>
      holdIcCtl = false → headlen ≤ descMaxDmaSize → desc = true →
        ∃ buf, allocs.buf = some buf ∧
          xdmaTransferTable allocs buf (BitVec.ofNat 32 headlen) ≠ .faults
  | .poll skbOk length allocs =>
      ∀ buf, allocs.buf = some buf → skbOk = true ∧ xdmaTransferTable allocs buf length ≠ .faults

def left : PacketCall → List Block
  | .xmit holdIcCtl headlen desc allocs =>
      if holdIcCtl then [.skb]
      else if descMaxDmaSize < headlen ∨ desc = false then []
      else transferLeft allocs (allocs.buf.getD 0) (BitVec.ofNat 32 headlen)
  | .poll skbOk length allocs =>
      match allocs.buf with
      | none => if skbOk then [.skb] else []
      | some buf => transferLeft allocs buf length

end PacketCall

private theorem transferTable_faults_iff (allocs : Allocs) (buf : U64) (length : CInt) :
    xdmaTransferTable allocs buf length = .faults ↔
      ¬ BitVec.ofNat 64 pageSize < length.signExtend 64 ∧ pagesNr buf length ≠ 0 ∧
        allocs.sgt = false := by
  unfold xdmaTransferTable
  by_cases hlong : BitVec.ofNat 64 pageSize < length.signExtend 64
  · simp [hlong]
  · by_cases hzero : pagesNr buf length = 0
    · simp only [hlong, hzero, if_true, if_false]
      simp
    · cases hsgt : allocs.sgt with
      | false => simp only [hlong, hzero, if_true, if_false, ne_eq, not_false_eq_true, and_self]
      | true =>
          cases htable : allocs.table <;>
            simp only [hlong, hzero, Bool.true_eq_false, if_true, if_false, reduceCtorEq, and_false]

private theorem xdmaTransferBlocks_leaves (i : Nat) {allocs : Allocs} {buf : U64} {length : CInt}
    {held : List CallBlock} (hbuf : (i, .buf) ∈ held) (hsgt : (i, .sgt) ∉ held)
    (hsgl : (i, .sgl) ∉ held) (fine : xdmaTransferTable allocs buf length ≠ .faults) :
    Leaves (xdmaTransferBlocks i allocs buf length) held
      ((PacketCall.transferLeft allocs buf length).map (i, ·) ++ held) := by
  rw [Ne, transferTable_faults_iff] at fine
  unfold xdmaTransferBlocks PacketCall.transferLeft
  by_cases hlong : BitVec.ofNat 64 pageSize < length.signExtend 64
  · simp only [hlong, if_true]
    exact Leaves.nil held
  · simp only [hlong, if_false]
    by_cases hzero : pagesNr buf length = 0
    · simp only [hzero, if_true, ne_eq, not_true_eq_false, false_and, if_false, List.append_nil]
      cases allocs.sgt with
      | false => exact Leaves.nil held
      | true => exact Leaves.acquire hsgt
    · have hgot : allocs.sgt = true := by
        by_contra hnone
        exact fine ⟨hlong, hzero, Bool.eq_false_iff.mpr hnone⟩
      simp only [hzero, hgot, if_true, if_false, ne_eq, not_false_eq_true, true_and]
      cases htable : allocs.table with
      | false =>
          exact (Leaves.acquire hsgt).append (Leaves.use List.mem_cons_self)
      | true =>
          refine ⟨(i, .sgl) :: (i, .sgt) :: held, ?_, List.Perm.swap ..⟩
          simp [performAll, Event.perform, hbuf, hsgt, hsgl]

private theorem xdmaTransferBlocks_faults (i : Nat) {allocs : Allocs} {buf : U64} {length : CInt}
    {held : List CallBlock} (hsgt : (i, .sgt) ∉ held)
    (faults : xdmaTransferTable allocs buf length = .faults) :
    performAll (xdmaTransferBlocks i allocs buf length) held = none := by
  obtain ⟨hlong, hzero, hnone⟩ := (transferTable_faults_iff allocs buf length).mp faults
  simp only [xdmaTransferBlocks, hlong, hzero, hnone, Bool.false_eq_true, if_false,
    List.nil_append, performAll, Event.perform, hsgt, Option.bind_none]

namespace PacketCall

private theorem skb_not_left {allocs : Allocs} {buf : U64} {length : CInt} :
    .skb ∉ transferLeft allocs buf length := by
  unfold transferLeft
  split
  · simp
  · simp only [List.mem_append, not_or]
    constructor <;> split <;> simp

section

variable (i : Nat) {allocs : Allocs} {buf : U64} {length : CInt}

private theorem held_comm (left : List CallBlock) :
    ((i, .buf) :: (i, .skb) :: left).Perm (left ++ [(i, .buf), (i, .skb)]) :=
  show ([(i, Block.buf), (i, Block.skb)] ++ left).Perm _ from List.perm_append_comm

private theorem send_leaves (hbuf : allocs.buf = some buf)
    (fine : xdmaTransferTable allocs buf length ≠ .faults) :
    Leaves (xdmaSendBlocks i allocs length) [(i, .skb)]
      ((i, .skb) :: (transferLeft allocs buf length).map (i, ·)) := by
  have hcopy : Leaves [.acquire (i, .buf), .use (i, .skb), .use (i, .buf)]
      [((i, .skb) : CallBlock)] [(i, .buf), (i, .skb)] :=
    ⟨_, by simp [performAll, Event.perform], .refl _⟩
  have htransfer : Leaves (xdmaTransferBlocks i allocs buf length) [(i, .buf), (i, .skb)]
      ((transferLeft allocs buf length).map (i, ·) ++ [(i, .buf), (i, .skb)]) :=
    xdmaTransferBlocks_leaves i (by simp) (by simp) (by simp) fine
  have hfree := Leaves.release (i, .buf) ((i, .skb) :: (transferLeft allocs buf length).map (i, ·))
  unfold xdmaSendBlocks
  rw [hbuf]
  exact (hcopy.append htransfer).append (hfree.perm (held_comm i _) (.refl _))

private theorem send_faults (faults : ∀ buf, allocs.buf = some buf →
      xdmaTransferTable allocs buf length = .faults) :
    performAll (xdmaSendBlocks i allocs length) [(i, .skb)] = none := by
  unfold xdmaSendBlocks
  cases hbuf : allocs.buf with
  | none => simp [performAll, Event.perform]
  | some buf =>
      have hcopy : performAll [.acquire (i, .buf), .use (i, .skb), .use (i, .buf)]
          [((i, .skb) : CallBlock)] = some [(i, .buf), (i, .skb)] := by
        simp [performAll, Event.perform]
      have htransfer : performAll (xdmaTransferBlocks i allocs buf length)
          [(i, .buf), (i, .skb)] = none :=
        xdmaTransferBlocks_faults i (by simp) (faults buf hbuf)
      simp only [performAll_append, hcopy, htransfer, Option.bind_some, Option.bind_none]

private theorem receive_leaves (hbuf : allocs.buf = some buf)
    (fine : xdmaTransferTable allocs buf length ≠ .faults) :
    Leaves (nupanetPollBlocks i true length allocs) []
      ((transferLeft allocs buf length).map (i, ·)) := by
  have hget : Leaves ([.acquire (i, .skb)] ++ [.acquire (i, .buf)]) ([] : List CallBlock)
      [(i, .buf), (i, .skb)] :=
    ⟨_, by simp [performAll, Event.perform], .refl _⟩
  have htransfer : Leaves (xdmaTransferBlocks i allocs buf length) [(i, .buf), (i, .skb)]
      ((transferLeft allocs buf length).map (i, ·) ++ [(i, .buf), (i, .skb)]) :=
    xdmaTransferBlocks_leaves i (by simp) (by simp) (by simp) fine
  have hrest : Leaves ([.use (i, .skb), .use (i, .buf), .release (i, .buf)] ++
      [.use (i, .skb), .release (i, .skb)])
      ((i, .buf) :: (i, .skb) :: (transferLeft allocs buf length).map (i, ·))
      ((transferLeft allocs buf length).map (i, ·)) :=
    ⟨_, by simp [performAll, Event.perform], .refl _⟩
  have hall := (hget.append htransfer).append (hrest.perm (held_comm i _) (.refl _))
  simpa only [nupanetPollBlocks, xdmaReceiveBlocks, hbuf, if_true, Option.isSome_some,
    List.append_assoc] using hall

private theorem receive_faults {skbOk : Bool} (hbuf : allocs.buf = some buf)
    (faults : ¬ (skbOk = true ∧ xdmaTransferTable allocs buf length ≠ .faults)) :
    performAll (nupanetPollBlocks i skbOk length allocs) [] = none := by
  simp only [nupanetPollBlocks, xdmaReceiveBlocks, hbuf, Option.isSome_some, if_true,
    performAll_append, Option.bind_assoc]
  by_cases hfine : xdmaTransferTable allocs buf length ≠ .faults
  · -- the frame is used although there is none
    have hnone : skbOk = false := by
      by_contra hskb
      exact faults ⟨by simpa using hskb, hfine⟩
    subst hnone
    have hleaves : Leaves (xdmaTransferBlocks i allocs buf length) [(i, .buf)]
        ((transferLeft allocs buf length).map (i, ·) ++ [(i, .buf)]) :=
      xdmaTransferBlocks_leaves i List.mem_cons_self (by simp) (by simp) hfine
    obtain ⟨out, hout, hperm⟩ := hleaves
    have hskb : ((i, .skb) : CallBlock) ∉ out := by
      rw [hperm.mem_iff]
      simpa using skb_not_left
    simp [performAll, Event.perform, hout, hskb]
  · rw [not_not] at hfine
    have htransfer : ∀ held : List CallBlock, (i, .sgt) ∉ held →
        performAll (xdmaTransferBlocks i allocs buf length) held = none :=
      fun held hsgt => xdmaTransferBlocks_faults i hsgt hfine
    cases skbOk <;> simp [performAll, Event.perform, htransfer]

end

variable {call : PacketCall}

private theorem blocks_leaves (i : Nat) (h : call.Checked) :
    Leaves (call.blocks i) [] (call.left.map (i, ·)) := by
  cases call with
  | xmit holdIcCtl headlen desc allocs =>
      have hgiven : Leaves [.acquire (i, .skb), .use (i, .skb)] ([] : List CallBlock)
          [(i, .skb)] := ⟨_, by simp [performAll, Event.perform], .refl _⟩
      simp only [blocks, nupanetXmitBlocks, left]
      cases holdIcCtl with
      | true => exact hgiven.append (Leaves.nil _)
      | false =>
          by_cases hdrop : descMaxDmaSize < headlen ∨ desc = false
          · simp only [hdrop, Bool.false_eq_true, if_true, if_false]
            exact hgiven.append (Leaves.release _ _)
          · rw [not_or, Nat.not_lt, Bool.not_eq_false] at hdrop
            obtain ⟨buf, hbuf, hfine⟩ := h rfl hdrop.1 hdrop.2
            have hsent := send_leaves i hbuf hfine
            have hfree := Leaves.release (i, Block.skb)
              ((transferLeft allocs buf (BitVec.ofNat 32 headlen)).map (i, ·))
            simp only [Nat.not_lt.mpr hdrop.1, hdrop.2, Bool.true_eq_false, Bool.false_eq_true,
              or_self, if_false, hbuf, Option.getD_some]
            exact hgiven.append (hsent.append hfree)
  | poll skbOk length allocs =>
      cases hbuf : allocs.buf with
      | none =>
          simp only [blocks, left, nupanetPollBlocks, xdmaReceiveBlocks, hbuf]
          cases skbOk with
          | false => exact Leaves.nil _
          | true => exact Leaves.acquire List.not_mem_nil
      | some buf =>
          obtain ⟨rfl, hfine⟩ := h buf hbuf
          simp only [blocks, left, hbuf]
          exact receive_leaves i hbuf hfine

private theorem blocks_faults (i : Nat) (h : ¬ call.Checked) :
    performAll (call.blocks i) [] = none := by
  cases call with
  | xmit holdIcCtl headlen desc allocs =>
      simp only [Checked, not_forall, not_exists, not_and, not_not] at h
      obtain ⟨rfl, hshort, rfl, hfaults⟩ := h
      have hgiven : performAll [.acquire (i, .skb), .use (i, .skb)] ([] : List CallBlock) =
          some [(i, .skb)] := by simp [performAll, Event.perform]
      simp only [blocks, nupanetXmitBlocks, Nat.not_lt.mpr hshort, Bool.true_eq_false,
        Bool.false_eq_true, or_self, if_false, performAll_append, hgiven, Option.bind_some,
        send_faults i hfaults, Option.bind_none]
  | poll skbOk length allocs =>
      simp only [Checked, not_forall] at h
      obtain ⟨buf, hbuf, hfaults⟩ := h
      exact receive_faults i hbuf hfaults

end PacketCall

/-! ## Any number of calls at once -/

/-- The events of the calls, each in its order, merged in any way. -/
def Interleaves (calls : List PacketCall) (events : List (Event CallBlock)) : Prop :=
  ∀ i, eventsOf Prod.fst i events = (calls[i]?.map (PacketCall.blocks i)).getD []

/-- However the calls interleave: a block is used or freed that the call does not hold exactly
when an allocation fails that one of them goes on without, and otherwise each call leaves its own
blocks behind, and nothing else. -/
theorem packet_memory_exact {calls : List PacketCall} {events : List (Event CallBlock)}
    (merged : Interleaves calls events) :
    (performAll events [] = none ↔ ∃ call ∈ calls, ¬ call.Checked) ∧
      ∀ out, performAll events [] = some out → out.Nodup ∧
        ∀ i block, (i, block) ∈ out ↔ ∃ call, calls[i]? = some call ∧ block ∈ call.left := by
  have hnone : performAll events [] = none ↔ ∃ call ∈ calls, ¬ call.Checked := by
    rw [performAll_none_iff Prod.fst]
    constructor
    · rintro ⟨i, hi⟩
      rw [merged i] at hi
      cases hcall : calls[i]? with
      | none => simp [hcall, performAll, heldBy] at hi
      | some call =>
          refine ⟨call, List.mem_of_getElem? hcall, fun hchecked => ?_⟩
          obtain ⟨out, hout, -⟩ := PacketCall.blocks_leaves i hchecked
          rw [hcall] at hi
          exact absurd (hi.symm.trans hout) (by simp)
    · rintro ⟨call, hmem, hunchecked⟩
      obtain ⟨i, hcall⟩ := List.mem_iff_getElem?.mp hmem
      refine ⟨i, ?_⟩
      rw [merged i, hcall]
      exact PacketCall.blocks_faults i hunchecked
  refine ⟨hnone, fun out hout => ⟨performAll_nodup hout List.nodup_nil, fun i block => ?_⟩⟩
  have hown : performAll (eventsOf Prod.fst i events) [] = some (heldBy Prod.fst i out) :=
    performAll_eventsOf hout i
  have hmem : (i, block) ∈ out ↔ (i, block) ∈ heldBy Prod.fst i out := mem_heldBy_self.symm
  rw [merged i] at hown
  cases hcall : calls[i]? with
  | none =>
      rw [hcall] at hown
      rw [hmem, ← Option.some.inj hown]
      simp
  | some call =>
      have hchecked : call.Checked := by
        by_contra hunchecked
        have hfault := hnone.mpr ⟨call, List.mem_of_getElem? hcall, hunchecked⟩
        exact absurd (hfault.symm.trans hout) (by simp)
      obtain ⟨out', hout', hperm⟩ := PacketCall.blocks_leaves i hchecked
      rw [hcall] at hown
      obtain rfl := Option.some.inj (hout'.symm.trans hown)
      rw [hmem, hperm.mem_iff]
      simp

def sentAndReceived : List PacketCall :=
  [.xmit false 14 true (allGranted 0x10ff8), .poll true 14 (allGranted 0x20000)]

def crossed : List (Event CallBlock) :=
  (nupanetXmitBlocks 0 false 14 true (allGranted 0x10ff8)).take 8 ++
    nupanetPollBlocks 1 true 14 (allGranted 0x20000) ++
      (nupanetXmitBlocks 0 false 14 true (allGranted 0x10ff8)).drop 8

theorem packet_memory_exact_crossed :
    ∃ out, performAll crossed [] = some out ∧ out.Nodup ∧
      ∀ i block, (i, block) ∈ out ↔
        ∃ call, sentAndReceived[i]? = some call ∧ block ∈ call.left := by
  have hmerged : Interleaves sentAndReceived crossed := by
    intro i
    rcases i with _ | _ | i
    · decide
    · decide
    · refine List.filter_eq_nil_iff.mpr fun e hmem => ?_
      have hsmall : ∀ e ∈ crossed, e.subject.1 < 2 := by decide
      have hlt := hsmall e hmem
      simp only [decide_eq_true_eq]
      omega
  obtain ⟨out, hout⟩ := Option.isSome_iff_exists.mp (by decide : (performAll crossed []).isSome)
  exact ⟨out, hout, (packet_memory_exact hmerged).2 out hout⟩

end NupaNet.Adapter
