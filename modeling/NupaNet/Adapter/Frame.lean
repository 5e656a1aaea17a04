import NupaNet.Adapter.Pages

/-!
# The transfer of a frame

`xdma_send_data` copies a frame into a fresh buffer and has it written,
`xdma_receive_data` has a fresh buffer read and copies it out; between buffer
and device both go through `xdma_transfer_data`, which hands the pages of the
buffer to `xdma_xfer_submit`.  To the rings a call is an `overlay`: whatever
becomes of the transfers it is cut into, it has moved the first so many bytes of
the frame and no other.
-/

namespace NupaNet.Adapter

open NupaNet.Foundation NupaNet.Xdma NupaNet.Ring

/-! ## The calls -/

structure TransferEnv where
  dma : DmaEnv
  allocs : Allocs
  offline : Bool

inductive TransferData where
  | faults
  | hangs
  | returned (res : Int) (moved : List (U64 × U64)) (engine : XdmaEngine)

def direction (isWrite : Bool) : Direction := if isWrite then .toDevice else .fromDevice

def xdmaTransferData (env : TransferEnv) (engine : XdmaEngine) (offset length : CInt) (buf : U64)
    (isWrite : Bool) : TransferData :=
  match xdmaTransferTable env.allocs buf length with
  | .refused res => .returned res [] engine
  | .faults => .faults
  | .filled loop =>
      let sgl := env.dma.mapSg loop.entries
      match xdmaXferSubmit env.allocs.request env.dma.descBlenMax env.offline engine
          (direction isWrite) (offset.signExtend 64) sgl env.dma.outcomes with
      | .returned res log engine' =>
          .returned (BitVec.ofInt 32 res).toInt (movedPairs env.dma.partialMove log) engine'
      | _ => .hangs

inductive SendData where
  | faults (mem : Memories)
  | hangs
  | returned (ret : Int) (moved : Nat) (mem : Memories) (engine : XdmaEngine)

/-- A `kmalloc` that fails is not looked at: the `memcpy` goes to NULL. -/
def xdmaSendData (env : TransferEnv) (engine : XdmaEngine) (mem : Memories)
    (offset length : CInt) (skb : Skb) : SendData :=
  match env.allocs.buf with
  | none => .faults mem
  | some buf =>
      let filled := mem.fill env.dma.mapping buf (block skb.data 0 length.toNat)
      match xdmaTransferData env engine offset length buf true with
      | .returned ret moved engine' =>
          .returned ret moved.length (filled.movePairs .toDevice moved) engine'
      | .faults => .faults filled
      | .hangs => .hangs

inductive ReceiveData where
  | null
  | faults (mem : Memories) (engine : XdmaEngine)
  | hangs
  | returned (res : Int) (moved : Nat) (skb : List UInt8) (mem : Memories) (engine : XdmaEngine)

/-- Neither the result of the transfer nor that of `napi_alloc_skb` is looked at. -/
def xdmaReceiveData (env : TransferEnv) (skbOk : Bool) (engine : XdmaEngine) (mem : Memories)
    (offset length : CInt) : ReceiveData :=
  match env.allocs.buf with
  | none => .null
  | some buf =>
      match xdmaTransferData env engine offset length buf false with
      | .returned res moved engine' =>
          let read := mem.movePairs .fromDevice moved
          if skbOk then
            .returned res moved.length (read.load env.dma.mapping buf length.toNat) read engine'
          else .faults read engine'
      | .faults => .faults mem engine
      | .hangs => .hangs

structure TransferEnv.Completes (env : TransferEnv) : Prop where
  dma : env.dma.Completes
  allocs : ∃ buf, env.allocs.Granted buf
  online : env.offline = false

/-! ## The engine after a submission -/

/-- An engine of direction `dir` that takes memory-mapped transfers. -/
structure Serves (dir : Direction) (engine : XdmaEngine) : Prop where
  mm : MemoryMapped engine
  dir : engine.dir = dir

section Engine

variable {dir : Direction} {outcomes : Nat → Outcome}

theorem Serves.settle {s : SubmitState} (h : Serves dir s.engine) (outcome : Outcome) :
    Serves dir (s.build.1.settle s.build.2 outcome).engine := by
  have hmm : MemoryMapped s.build.1.engine := transferInit_memoryMapped s.req h.mm
  have hbuilt : Serves dir s.build.1.engine := ⟨hmm, h.dir⟩
  have hreleased : Serves dir (transferDestroy
      { s.build.1.engine with descUsed := s.build.1.engine.descUsed - s.build.2.descNum }
      s.build.2) := ⟨⟨hmm.mapped, hmm.incrementing, hmm.slot⟩, h.dir⟩
  cases outcome with
  | refused => exact hbuilt
  | failed | timedOut => exact hreleased
  | completed written =>
      simp only [SubmitState.settle]
      split <;> exact hreleased

theorem Serves.submitLoop {s last : SubmitState} {rv : Int} (h : Serves dir s.engine) (fuel : Nat)
    (hloop : submitLoop outcomes fuel s = some (last, rv)) : Serves dir last.engine := by
  induction fuel generalizing s with
  | zero =>
      rw [Xdma.submitLoop] at hloop
      split at hloop
      · cases hloop
        exact h
      · cases hloop
  | succ fuel ih =>
      rw [Xdma.submitLoop] at hloop
      split at hloop
      · cases hloop
        exact h
      · simp only at hloop
        split at hloop
        · cases hloop
          exact h.settle _
        · exact ih (h.settle _) hloop

theorem Serves.submit {alloc : U32 → Bool} {descBlenMax : U32} {offline : Bool}
    {engine engine' : XdmaEngine} {epAddr : U64} {sgl : List Extent} {ret : Int}
    {log : List Submitted} {dir' : Direction} (h : Serves dir engine)
    (hcall : xdmaXferSubmit alloc descBlenMax offline engine dir' epAddr sgl outcomes =
      .returned ret log engine') : Serves dir engine' := by
  unfold xdmaXferSubmit at hcall
  split at hcall
  · cases hcall
    exact h
  split at hcall
  · cases hcall
    exact h
  split at hcall
  · cases hcall
    exact h
  cases hreq : xdmaInitRequest alloc descBlenMax sgl epAddr with
  | null =>
      simp only [hreq] at hcall
      cases hcall
      exact h
  | overrun | divideError | stuck =>
      simp only [hreq] at hcall
      cases hcall
  | ready req =>
      simp only [hreq] at hcall
      cases hloop : Xdma.submitLoop outcomes req.swDescCnt
          { engine, req, nents := req.swDescCnt, done := 0, log := [] } with
      | none =>
          simp only [hloop] at hcall
          cases hcall
      | some result =>
          simp only [hloop] at hcall
          cases hcall
          exact Serves.submitLoop h _ hloop

end Engine

/-! ## What a submission has moved -/

section Moved

variable {dir : Direction} {epAddr : U64} {sgl : List Extent} {outcomes : Nat → Outcome}

private theorem movedPairs_front {ret : Int} {log : List Submitted}
    (correct : CopyCorrect dir epAddr sgl outcomes ret log) (partialMove : Nat) :
    movedPairs partialMove log <+: copyPairs dir epAddr (hostBytes sgl) := by
  rcases correct.verdict with ⟨hall, hpairs, -⟩ | ⟨before, last, rfl, hbefore, hlast, -⟩
  · rw [movedPairs_completed partialMove hall, hpairs]
  · have hpairs := correct.pairs
    rw [logPairs_append] at hpairs
    have hsplit : movedPairs partialMove (before ++ [last]) =
        movedPairs partialMove before ++ movedPairs partialMove [last] := by
      simp only [movedPairs, List.flatMap_append]
    rw [hsplit, movedPairs_completed partialMove hbefore]
    refine List.IsPrefix.trans ?_ hpairs
    rw [List.prefix_append_right_inj]
    cases houtcome : last.outcome with
    | completed written => exact absurd (houtcome ▸ trivial) hlast
    | failed | timedOut | refused =>
        simp only [movedPairs, List.flatMap_cons, List.flatMap_nil, List.append_nil, houtcome]
        exact List.take_prefix _ _

variable {alloc : U32 → Bool} {descBlenMax : U32}

private theorem xdmaInitRequest_refused (epAddr : U64) (limit : descBlenMax ≠ 0)
    (mapped : MappedSgl sgl)
    (few : sgl.length < 2 ^ 31)
    (none_left : alloc (requestSize (BitVec.ofNat 32 (descsCounted descBlenMax sgl))) = false) :
    xdmaInitRequest alloc descBlenMax sgl epAddr = .null := by
  obtain ⟨extra, hextra, hmax⟩ :=
    Option.map_eq_some_iff.mp (extraDescs_counted limit mapped few)
  simp only [xdmaInitRequest, hextra, hmax, none_left, if_true]

private theorem requestFits_page (limit : descBlenMax ≠ 0) (bytes : byteCount sgl ≤ pageSize)
    (entries : sgl.length ≤ pageSize + 1) : RequestFits descBlenMax sgl := by
  have hextra := extraSum_le limit sgl
  have hneeded := descsNeeded_le_counted limit sgl
  rw [show pageSize = 4096 from rfl] at *
  have hbound : descsCounted descBlenMax sgl ≤ 8193 := by
    rw [descsCounted]
    omega
  refine ⟨by omega, ?_⟩
  rw [sizeofXdmaRequestCb, sizeofSwDesc, Nat.mod_eq_of_lt (by omega)]
  omega

/-- A submission of at most a page returns, with a front of its bytes moved; all of them if
nothing went wrong. -/
private theorem xdmaXferSubmit_front (alloc : U32 → Bool) (limit : descBlenMax ≠ 0) (offline : Bool)
    {engine : XdmaEngine} (serves : Serves dir engine) (epAddr : U64) (sgl : List Extent)
    (bytes : byteCount sgl ≤ pageSize) (entries : sgl.length ≤ pageSize + 1)
    (outcomes : Nat → Outcome) (partialMove : Nat) :
    ∃ ret log engine',
      xdmaXferSubmit alloc descBlenMax offline engine dir epAddr sgl outcomes =
        .returned ret log engine' ∧ Serves dir engine' ∧
      movedPairs partialMove log <+: copyPairs dir epAddr (hostBytes sgl) ∧
      (offline = false → sgl ≠ [] → (∀ size, alloc size = true) → (∀ i, (outcomes i).Completed) →
        ret = byteCount sgl ∧
          movedPairs partialMove log = copyPairs dir epAddr (hostBytes sgl)) := by
  obtain ⟨mm, rfl⟩ := serves
  by_cases hoffline : offline = true
  · exact ⟨-16, [], engine, by rw [xdmaXferSubmit, if_pos hoffline], ⟨mm, rfl⟩,
      List.nil_prefix, fun h => by simp [hoffline] at h⟩
  rw [Bool.not_eq_true] at hoffline
  subst hoffline
  by_cases hnone : sgl = []
  · exact ⟨-5, [], engine, by rw [xdmaXferSubmit, if_neg (by simp), if_neg (by simp),
      if_pos hnone], ⟨mm, rfl⟩, List.nil_prefix, fun _ h => absurd hnone h⟩
  have hpage : pageSize < 2 ^ 31 - 1 := by decide
  have hmapped : MappedSgl sgl := ⟨hnone, by omega, by omega⟩
  have hfits := requestFits_page limit bytes entries
  by_cases hroom : alloc (requestSize (BitVec.ofNat 32 (descsCounted descBlenMax sgl))) = true
  · have hcopies := copies_of_fits limit hmapped mm epAddr outcomes hfits hroom
    cases hcall : xdmaXferSubmit alloc descBlenMax false engine engine.dir epAddr sgl outcomes with
    | overrun | divideError | hangs =>
        rw [hcall] at hcopies
        exact hcopies.elim
    | returned ret log engine' =>
        rw [hcall] at hcopies
        have hserves : Serves engine.dir engine' := Serves.submit ⟨mm, rfl⟩ hcall
        refine ⟨ret, log, engine', rfl, hserves, movedPairs_front hcopies partialMove, ?_⟩
        intro _ _ _ hcompleted
        obtain ⟨hall, hpairs⟩ := copyCorrect_all hcopies hcompleted
        refine ⟨?_, by rw [movedPairs_completed partialMove hall, hpairs]⟩
        rcases hcopies.verdict with ⟨-, -, hret⟩ | ⟨before, last, hlog, -, hlast, -⟩
        · exact hret
        · exact absurd (hall last (by simp [hlog])) hlast
  · have hnull := xdmaInitRequest_refused epAddr limit hmapped (by omega)
      (Bool.eq_false_iff.mpr hroom)
    refine ⟨-12, [], engine, ?_, ⟨mm, rfl⟩, List.nil_prefix, ?_⟩
    · rw [xdmaXferSubmit_eq hnone, hnull]
    · intro _ _ hall
      exact absurd (hall _) hroom

end Moved

/-! ## One call of `xdma_transfer_data` -/

private theorem xdmaTransferTable_cases (allocs : Allocs) (buf : U64) {length : CInt}
    (short : length.toNat ≤ pageSize) :
    (∃ res, xdmaTransferTable allocs buf length = .refused res ∧
        (allocs.table = true → length.toNat = 0)) ∨
      xdmaTransferTable allocs buf length = .faults ∧ allocs.sgt = false ∨
      ∃ loop, xdmaTransferTable allocs buf length = .filled loop ∧
        loop.entries = setPages (pagesNr buf length).toNat buf length := by
  have hsmall : length.toNat < 2 ^ 31 := Nat.lt_of_le_of_lt short (by decide)
  have hsign : length.msb = false := by
    rw [BitVec.msb_eq_false_iff_two_mul_lt]
    omega
  have hshort : ¬ BitVec.ofNat 64 pageSize < length.signExtend 64 := by
    rw [not_long_iff, BitVec.signExtend_eq_setWidth_of_msb_false hsign, BitVec.toNat_setWidth]
    exact (Nat.mod_le _ _).trans short
  unfold xdmaTransferTable
  by_cases hzero : pagesNr buf length = 0
  · refine .inl ⟨-22, by simp only [hshort, hzero, if_true, if_false], fun _ => ?_⟩
    have hnone := (pagesNr_eq_zero_iff buf hsmall).mp hzero
    rw [show pageSize = 4096 from rfl] at *
    omega
  · cases hsgt : allocs.sgt with
    | false => exact .inr (.inl ⟨by simp only [hshort, hzero, if_true, if_false], rfl⟩)
    | true =>
        cases htable : allocs.table with
        | false =>
            refine .inl ⟨-12, ?_, fun h => by cases h⟩
            simp only [hshort, hzero, Bool.true_eq_false, if_true, if_false]
        | true =>
            refine .inr (.inr ⟨PageLoop.run (pagesNr buf length).toNat ⟨[], buf, length⟩, ?_, ?_⟩)
            · simp only [hshort, hzero, Bool.true_eq_false, if_false]
            · rw [PageLoop.run_entries, List.nil_append]

section Transfer

variable {env : TransferEnv} {engine : XdmaEngine} {length : CInt} {isWrite : Bool}

def TransferEnv.hosts (env : TransferEnv) (buf : U64) (length : CInt) : List U64 :=
  (bufBytes buf length.toNat).map env.dma.mapping.busAddr

def TransferEnv.fresh (env : TransferEnv) (mem : Memories) (length : CInt) : Memory :=
  fun k => mem.host ((env.hosts (env.allocs.buf.getD 0) length).getD k 0)

private theorem TransferEnv.hosts_length (env : TransferEnv) (buf : U64) (length : CInt) :
    (env.hosts buf length).length = length.toNat := by
  rw [hosts, List.length_map, bufBytes_length]

/-- A call for at most a page faults for want of a table, or returns with a front of the buffer
moved; with all of it if nothing went wrong. -/
private theorem xdmaTransferData_front (limit : env.dma.descBlenMax ≠ 0)
    (serves : Serves (direction isWrite) engine) (short : length.toNat ≤ pageSize)
    (offset : CInt) (buf : U64) :
    xdmaTransferData env engine offset length buf isWrite = .faults ∧ env.allocs.sgt = false ∨
      ∃ res moved engine',
        xdmaTransferData env engine offset length buf isWrite = .returned res moved engine' ∧
        Serves (direction isWrite) engine' ∧
        moved <+: copyPairs (direction isWrite) (offset.signExtend 64) (env.hosts buf length) ∧
        (env.Completes →
          moved = copyPairs (direction isWrite) (offset.signExtend 64) (env.hosts buf length) ∧
          (0 < length.toNat → res = length.toNat)) := by
  have hpage : pageSize < 2 ^ 31 - 1 := by decide
  obtain ⟨hbytes, -, hentries⟩ :=
    mapSg_pages env.dma.mapping buf (by omega : length.toNat < 2 ^ 31)
  rw [BitVec.ofNat_toNat, BitVec.setWidth_eq] at hbytes hentries
  change _ = env.hosts buf length at hbytes
  unfold xdmaTransferData
  rcases xdmaTransferTable_cases env.allocs buf short with
    ⟨res, htable, hwhy⟩ | ⟨htable, hsgt⟩ | ⟨loop, htable, hloop⟩
  · refine .inr ⟨res, [], engine, by simp only [htable], serves, List.nil_prefix,
      fun completes => ?_⟩
    obtain ⟨buf', hgranted⟩ := completes.allocs
    have hnone := hwhy hgranted.table
    refine ⟨?_, fun hpos => by omega⟩
    rw [List.length_eq_zero_iff.mp ((env.hosts_length buf length).trans hnone)]
    rfl
  · exact .inl ⟨by simp only [htable], hsgt⟩
  · simp only [htable, hloop]
    refine .inr ?_
    cases hmap : env.dma.mapSgOk with
    | false =>
        obtain ⟨ret, log, engine', hcall, hserves, hfront, -⟩ :=
          xdmaXferSubmit_front env.allocs.request limit env.offline serves (offset.signExtend 64)
            [] (Nat.zero_le _) (Nat.zero_le _) env.dma.outcomes env.dma.partialMove
        simp only [DmaEnv.mapSg_failed hmap, hcall]
        refine ⟨_, _, engine', rfl, hserves, ?_, fun completes => ?_⟩
        · rw [List.prefix_nil.mp hfront]
          exact List.nil_prefix
        · exact absurd (hmap.symm.trans completes.dma.mapped) (by decide)
    | true =>
        generalize hsgl : env.dma.mapping.mapSg
          (setPages (pagesNr buf length).toNat buf length) = sgl at hbytes hentries
        have hcount : byteCount sgl = length.toNat := by
          rw [← hostBytes_length, hbytes, env.hosts_length]
        obtain ⟨ret, log, engine', hcall, hserves, hfront, hfull⟩ :=
          xdmaXferSubmit_front env.allocs.request limit env.offline serves (offset.signExtend 64)
            sgl (by omega) (by omega) env.dma.outcomes env.dma.partialMove
        rw [hbytes] at hfront hfull
        simp only [DmaEnv.mapSg_ok hmap, hsgl, hcall]
        refine ⟨_, _, engine', rfl, hserves, hfront, fun completes => ?_⟩
        obtain ⟨buf', hgranted⟩ := completes.allocs
        by_cases hnone : length.toNat = 0
        · have hempty : env.hosts buf length = [] :=
            List.length_eq_zero_iff.mp ((env.hosts_length buf length).trans hnone)
          rw [hempty] at hfront ⊢
          exact ⟨List.prefix_nil.mp hfront, fun hpos => by omega⟩
        · have hsome : sgl ≠ [] := by
            rintro rfl
            exact hnone hcount.symm
          obtain ⟨hret, hmoved⟩ := hfull completes.online hsome hgranted.request
            completes.dma.outcomes
          refine ⟨hmoved, fun _ => ?_⟩
          rw [hret, hcount]
          exact BitVec.toInt_ofInt_eq_self (by decide) (by omega) (by omega)

end Transfer

/-! ## The memories after a call -/

def bytesOf (dev : U64 → UInt8) : Memory :=
  fun a => if a < 2 ^ 64 then dev (BitVec.ofNat 64 a) else 0

private theorem bytesOf_within {dev : U64 → UInt8} {base k : Nat} (within : base + k < 2 ^ 64) :
    bytesOf dev (base + k) = dev (BitVec.ofNat 64 base + BitVec.ofNat 64 k) := by
  rw [bytesOf, if_pos within, BitVec.ofNat_add]

private theorem copyPairs_front {dir : Direction} {epAddr : U64} {hosts : List U64}
    {moved : List (U64 × U64)} (front : moved <+: copyPairs dir epAddr hosts) :
    moved.length ≤ hosts.length ∧ moved = copyPairs dir epAddr (hosts.take moved.length) := by
  constructor
  · exact front.length_le.trans_eq (copyPairs_length dir epAddr hosts)
  · have hle := front.length_le.trans_eq (copyPairs_length dir epAddr hosts)
    have hfront := List.prefix_iff_eq_take.mp front
    conv_rhs at hfront => rw [← List.take_append_drop moved.length hosts, copyPairs_append]
    rwa [List.take_left'] at hfront
    rw [copyPairs_length, List.length_take, Nat.min_eq_left hle]

section Memories

variable (mem : Memories)

private theorem bytesOf_write (base : Nat) (hosts : List U64)
    (within : base + hosts.length ≤ 2 ^ 64)
    (few : hosts.length < 2 ^ 32) (a : Nat) :
    bytesOf (mem.movePairs .toDevice (copyPairs .toDevice (BitVec.ofNat 64 base) hosts)).dev a =
      if base ≤ a ∧ a < base + hosts.length then mem.host (hosts.getD (a - base) 0)
      else bytesOf mem.dev a := by
  obtain ⟨hkeys, hvalues⟩ := write_pairs mem (BitVec.ofNat 64 base) hosts
  have hstored := map_scatter mem.dev (hkeys ▸ bufBytes_nodup (BitVec.ofNat 64 base) few)
  rw [hkeys, hvalues] at hstored
  rw [mem.movePairs_toDevice]
  split
  · next h =>
      obtain ⟨k, rfl⟩ := Nat.exists_eq_add_of_le h.1
      have hk : k < hosts.length := by omega
      have hcell := congrArg (fun values => values[k]?) hstored
      simp only [List.getElem?_map, bufBytes, List.getElem?_range hk, Option.map_some,
        List.getElem?_eq_getElem hk, Option.some.injEq] at hcell
      rw [bytesOf_within (by omega), Nat.add_sub_cancel_left, List.getD_eq_getElem?_getD,
        List.getElem?_eq_getElem hk, Option.getD_some]
      exact hcell
  · next h =>
      unfold bytesOf
      split
      · next hsmall =>
          refine scatter_outside (hkeys ▸ fun hmem => h ?_)
          obtain ⟨k, hk, heq⟩ := List.mem_map.mp hmem
          rw [List.mem_range] at hk
          rw [← BitVec.ofNat_add] at heq
          have hval := congrArg BitVec.toNat heq
          simp only [BitVec.toNat_ofNat] at hval
          omega
      · rfl

variable {base : Nat} {hosts : List U64} {moved : List (U64 × U64)}

private theorem write_front {data : Memory} (holds : hosts.map mem.host = block data 0 hosts.length)
    (front : moved <+: copyPairs .toDevice (BitVec.ofNat 64 base) hosts)
    (within : base + hosts.length ≤ 2 ^ 64) (few : hosts.length < 2 ^ 32) :
    bytesOf (mem.movePairs .toDevice moved).dev =
      overlay (bytesOf mem.dev) base hosts.length (fun k => k < moved.length) data := by
  obtain ⟨hle, hmoved⟩ := copyPairs_front front
  have hlength : (hosts.take moved.length).length = moved.length := by
    rw [List.length_take, Nat.min_eq_left hle]
  funext a
  conv_lhs => rw [hmoved]
  rw [bytesOf_write mem base _ (by omega) (by omega) a, overlay, hlength]
  by_cases hin : base ≤ a ∧ a < base + moved.length
  · obtain ⟨k, rfl⟩ := Nat.exists_eq_add_of_le hin.1
    have hk : k < hosts.length := by omega
    have hbyte : mem.host hosts[k] = data k := by
      have hbytes := congrArg (fun bytes => bytes[k]?) holds
      simpa [block, hk] using hbytes
    rw [if_pos hin, if_pos ⟨hin.1, by omega, decide_eq_true (by omega)⟩,
      Nat.add_sub_cancel_left, List.getD_eq_getElem?_getD,
      List.getElem?_take_of_lt (by omega), List.getElem?_eq_getElem hk, Option.getD_some]
    exact hbyte
  · rw [if_neg hin, if_neg]
    rintro ⟨hlo, -, hmoved⟩
    have hlt := of_decide_eq_true hmoved
    exact hin ⟨hlo, by omega⟩

private theorem read_front (distinct : hosts.Nodup)
    (front : moved <+: copyPairs .fromDevice (BitVec.ofNat 64 base) hosts)
    (within : base + hosts.length ≤ 2 ^ 64) :
    hosts.map (mem.movePairs .fromDevice moved).host =
      block (overlay (fun k => mem.host (hosts.getD k 0)) 0 hosts.length
        (fun k => k < moved.length) fun k => bytesOf mem.dev (base + k)) 0 hosts.length := by
  obtain ⟨hle, hmoved⟩ := copyPairs_front front
  obtain ⟨hkeys, hvalues⟩ := read_pairs mem (BitVec.ofNat 64 base) (hosts.take moved.length)
  have hstored := map_scatter mem.host (hkeys ▸ distinct.sublist (List.take_sublist _ hosts))
  rw [hkeys, hvalues, ← hmoved, List.length_take, Nat.min_eq_left hle] at hstored
  rw [mem.movePairs_fromDevice]
  rw [← hmoved] at hkeys
  refine List.ext_getElem (by simp) fun k hk _ => ?_
  rw [List.length_map] at hk
  have hfresh : hosts.getD k 0 = hosts[k] := by
    rw [List.getD_eq_getElem?_getD, List.getElem?_eq_getElem hk, Option.getD_some]
  simp only [List.getElem_map, block, List.getElem_range, overlay, Nat.zero_add, Nat.zero_le,
    hk, Nat.sub_zero, true_and, decide_eq_true_eq, hfresh]
  split
  · next hfront =>
      have hcell := congrArg (fun values => values[k]?) hstored
      simp only [List.getElem?_map, bufBytes, List.getElem?_range hfront, Option.map_some,
        List.getElem?_take_of_lt hfront, List.getElem?_eq_getElem hk, Option.some.injEq] at hcell
      rw [bytesOf_within (by omega)]
      exact hcell
  · next hkept =>
      refine scatter_outside fun hmem => hkept ?_
      rw [hkeys] at hmem
      obtain ⟨i, hi, heq⟩ := List.mem_take_iff_getElem.mp hmem
      have hsame := (distinct.getElem_inj_iff).mp heq
      omega

end Memories

/-! ## A frame sent, a frame received -/

private theorem signExtend_devAddr (offset : CInt) :
    offset.signExtend 64 = BitVec.ofNat 64 (devAddr offset) := by
  rw [devAddr, BitVec.ofNat_toNat, BitVec.setWidth_eq]

section Frame

variable {env : TransferEnv} {engine : XdmaEngine} {offset length : CInt}

/-- To the rings a call that returns is an `overlay` of the device by the first bytes of the
frame. -/
theorem xdmaSendData_overlay (limit : env.dma.descBlenMax ≠ 0)
    (serves : Serves .toDevice engine) (mem : Memories) (skb : Skb)
    (short : length.toNat ≤ pageSize) (within : devAddr offset + length.toNat ≤ 2 ^ 64) :
    (∃ mem', xdmaSendData env engine mem offset length skb = .faults mem' ∧
        mem'.dev = mem.dev ∧ ¬ env.Completes) ∨
      ∃ ret moved mem' engine',
        xdmaSendData env engine mem offset length skb = .returned ret moved mem' engine' ∧
        Serves .toDevice engine' ∧
        bytesOf mem'.dev = overlay (bytesOf mem.dev) (devAddr offset) length.toNat
          (fun k => k < moved) skb.data ∧
        (env.Completes → moved = length.toNat ∧ (0 < length.toNat → ret = length.toNat)) := by
  have hpage : pageSize < 2 ^ 31 - 1 := by decide
  unfold xdmaSendData
  cases hbuf : env.allocs.buf with
  | none =>
      refine .inl ⟨mem, rfl, rfl, fun completes => ?_⟩
      obtain ⟨buf, hgranted⟩ := completes.allocs
      exact absurd (hbuf.symm.trans hgranted.buf) (by simp)
  | some buf =>
      have hserves : Serves (direction true) engine := serves
      have hfill := fill_host env.dma.mapping mem buf (block skb.data 0 length.toNat)
        (by rw [block_length]; omega)
      rw [block_length] at hfill
      simp only
      generalize hfilled : mem.fill env.dma.mapping buf (block skb.data 0 length.toNat) = filled
        at hfill
      have hdev : filled.dev = mem.dev := by
        rw [← hfilled]
        rfl
      rcases xdmaTransferData_front limit hserves short offset buf with
        ⟨hcall, hsgt⟩ | ⟨ret, moved, engine', hcall, hserves', hfront, hfull⟩
      · refine .inl ⟨filled, by simp only [hcall], hdev, fun completes => ?_⟩
        obtain ⟨buf', hgranted⟩ := completes.allocs
        exact absurd (hsgt.symm.trans hgranted.sgt) (by decide)
      · refine .inr ⟨ret, moved.length, filled.movePairs .toDevice moved, engine',
          by simp only [hcall], hserves', ?_, ?_⟩
        · rw [signExtend_devAddr] at hfront
          have holds : (env.hosts buf length).map filled.host =
              block skb.data 0 (env.hosts buf length).length := by rwa [env.hosts_length]
          have hlay := write_front filled holds hfront (by rwa [env.hosts_length])
            (by rw [env.hosts_length]; omega)
          rwa [env.hosts_length, hdev] at hlay
        · intro completes
          obtain ⟨hall, hret⟩ := hfull completes
          refine ⟨?_, hret⟩
          rw [hall, copyPairs_length, env.hosts_length]

theorem xdmaReceiveData_overlay (limit : env.dma.descBlenMax ≠ 0)
    (serves : Serves .fromDevice engine) (skbOk : Bool) (mem : Memories)
    (short : length.toNat ≤ pageSize) (within : devAddr offset + length.toNat ≤ 2 ^ 64) :
    xdmaReceiveData env skbOk engine mem offset length = .null ∧ ¬ env.Completes ∨
      (∃ mem' engine', xdmaReceiveData env skbOk engine mem offset length = .faults mem' engine' ∧
        Serves .fromDevice engine' ∧ mem'.dev = mem.dev ∧ ¬ (skbOk = true ∧ env.Completes)) ∨
      ∃ res moved skb mem' engine',
        xdmaReceiveData env skbOk engine mem offset length = .returned res moved skb mem' engine' ∧
        Serves .fromDevice engine' ∧ mem'.dev = mem.dev ∧
        skb = block (overlay (env.fresh mem length) 0 length.toNat (fun k => k < moved)
          fun k => bytesOf mem.dev (devAddr offset + k)) 0 length.toNat ∧
        (env.Completes → moved = length.toNat ∧ (0 < length.toNat → res = length.toNat)) := by
  have hpage : pageSize < 2 ^ 31 - 1 := by decide
  unfold xdmaReceiveData
  cases hbuf : env.allocs.buf with
  | none =>
      refine .inl ⟨rfl, fun completes => ?_⟩
      obtain ⟨buf, hgranted⟩ := completes.allocs
      exact absurd (hbuf.symm.trans hgranted.buf) (by simp)
  | some buf =>
      refine .inr ?_
      have hserves : Serves (direction false) engine := serves
      simp only
      rcases xdmaTransferData_front limit hserves short offset buf with
        ⟨hcall, hsgt⟩ | ⟨res, moved, engine', hcall, hserves', hfront, hfull⟩
      · refine .inl ⟨mem, engine, by simp only [hcall], serves, rfl, fun h => ?_⟩
        obtain ⟨buf', hgranted⟩ := h.2.allocs
        exact absurd (hsgt.symm.trans hgranted.sgt) (by decide)
      · have hdev : (mem.movePairs .fromDevice moved).dev = mem.dev := by
          rw [mem.movePairs_fromDevice]
        cases skbOk with
        | false =>
            refine .inl ⟨mem.movePairs .fromDevice moved, engine', ?_, hserves', hdev,
              fun h => by cases h.1⟩
            simp only [hcall, Bool.false_eq_true, if_false]
        | true =>
            refine .inr ⟨res, moved.length,
              (mem.movePairs .fromDevice moved).load env.dma.mapping buf length.toNat,
              mem.movePairs .fromDevice moved, engine', by simp only [hcall, if_true], hserves',
              hdev, ?_, fun completes => ?_⟩
            · rw [signExtend_devAddr] at hfront
              have hdistinct : (env.hosts buf length).Nodup :=
                busAddr_nodup env.dma.mapping buf (by omega)
              have hlay := read_front mem hdistinct hfront (by rwa [env.hosts_length])
              rw [env.hosts_length] at hlay
              have hfresh : env.fresh mem length =
                  fun k => mem.host ((env.hosts buf length).getD k 0) := by
                unfold TransferEnv.fresh
                rw [hbuf, Option.getD_some]
              rw [hfresh, ← hlay, TransferEnv.hosts, List.map_map]
              rfl
            · obtain ⟨hall, hret⟩ := hfull completes
              refine ⟨?_, hret⟩
              rw [hall, copyPairs_length, env.hosts_length]

end Frame

end NupaNet.Adapter
