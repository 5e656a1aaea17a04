import NupaNet.Xdma.Aperture

/-!
# The transfers of an aperture call

When the ring ends before the scatter list, `xdma_xfer_aperture` goes on with a
next transfer.  It remembers the number of the entry and the offset in it, but
its pointer to the table stays on the first entry, and it finds its place in the
window by masking the number of bytes moved with `aperture - 1`.  The transfers
together move the list through the window when every one that resumes does so
inside the first entry and at a place where the mask is a remainder.
-/

namespace NupaNet.Xdma

open NupaNet.Foundation

/-! ## The descriptors of a transfer -/

/-- What a descriptor moves: all but its link and its control word. -/
def XdmaDesc.moves (desc : XdmaDesc) : U32 × U64 × U64 := (desc.bytes, desc.srcAddr, desc.dstAddr)

private theorem bytePairs_of_moves {d d' : XdmaDesc} (h : d'.moves = d.moves) :
    d'.bytePairs = d.bytePairs := by
  simp only [XdmaDesc.moves, Prod.mk.injEq] at h
  exact bytePairs_congr h.1 h.2.1 h.2.2

theorem inWindow_of_moves {d d' : XdmaDesc} (h : d'.moves = d.moves) (dir : Direction)
    (epAddr : U64) (a : Nat) : d'.InWindow dir epAddr a ↔ d.InWindow dir epAddr a := by
  simp only [XdmaDesc.moves, Prod.mk.injEq] at h
  cases dir <;> simp only [XdmaDesc.InWindow, XdmaDesc.endpoint, h]

private theorem linkTransfer_moves (desc : Nat → XdmaDesc) (descVirt : Nat) (descBus : U64)
    (descCnt k : Nat) : (linkTransfer desc descVirt descBus descCnt k).moves = (desc k).moves := by
  have hadjacent : ∀ i slot, (setAdjacent descCnt i slot).moves = slot.moves := fun _ _ => rfl
  have hlinks : ∀ (i : Nat) (slot : XdmaDesc), XdmaDesc.moves
      { slot with
        nextLo := pciDmaL (descBus + BitVec.ofNat 64 (sizeofXdmaDesc * (i + 1)))
        nextHi := pciDmaH (descBus + BitVec.ofNat 64 (sizeofXdmaDesc * (i + 1)))
        control := descMagic } = slot.moves := fun _ _ => rfl
  unfold linkTransfer
  simp only
  rw [modifyRange_kept hadjacent, ← modifyRange_kept hlinks desc descVirt (descCnt - 1) k]
  by_cases hlast : k = descVirt + (descCnt - 1)
  · subst hlast
    rw [modifyAt_same]
    rfl
  · rw [modifyAt_ne hlast]

section Descs

variable (descBlenMax : U32) (sgMax : Nat) (engine : XdmaEngine) (req : ApertureReq)

def apertureDescs : List XdmaDesc :=
  transferDescs (apertureTransfer descBlenMax sgMax engine req).1
    (apertureTransfer descBlenMax sgMax engine req).2.2

private theorem apertureDescs_length :
    (apertureDescs descBlenMax sgMax engine req).length =
      (apertureFill descBlenMax sgMax engine req).1.descIdx - engine.descIdx := by
  rw [apertureDescs, transferDescs, List.length_map, List.length_range]
  rfl

theorem apertureDescs_pairs :
    let f := (apertureFill descBlenMax sgMax engine req).1
    (apertureDescs descBlenMax sgMax engine req).flatMap XdmaDesc.bytePairs =
      (List.range' engine.descIdx (f.descIdx - engine.descIdx)).flatMap fun k =>
        (f.desc k).bytePairs := by
  intro f
  rw [apertureDescs, transferDescs, List.flatMap_map, List.range'_eq_map_range, List.flatMap_map]
  refine List.flatMap_congr fun i _ => ?_
  exact bytePairs_of_moves (linkTransfer_moves ..)

private theorem mem_apertureDescs {desc : XdmaDesc}
    (h : desc ∈ apertureDescs descBlenMax sgMax engine req) :
    ∃ k, engine.descIdx ≤ k ∧ k < (apertureFill descBlenMax sgMax engine req).1.descIdx ∧
      desc.moves = ((apertureFill descBlenMax sgMax engine req).1.desc k).moves := by
  obtain ⟨i, hi, rfl⟩ := List.mem_map.mp h
  rw [List.mem_range] at hi
  change i < (apertureFill descBlenMax sgMax engine req).1.descIdx - engine.descIdx at hi
  exact ⟨engine.descIdx + i, by omega, by omega, linkTransfer_moves ..⟩

theorem apertureDescs_mem {k : Nat} (lower : engine.descIdx ≤ k)
    (upper : k < (apertureFill descBlenMax sgMax engine req).1.descIdx) :
    ∃ desc ∈ apertureDescs descBlenMax sgMax engine req,
      desc.moves = ((apertureFill descBlenMax sgMax engine req).1.desc k).moves := by
  obtain ⟨i, rfl⟩ := Nat.exists_eq_add_of_le lower
  refine ⟨_, List.mem_map.mpr ⟨i, List.mem_range.mpr ?_, rfl⟩, linkTransfer_moves ..⟩
  change i < (apertureFill descBlenMax sgMax engine req).1.descIdx - engine.descIdx
  omega

end Descs

/-! ## Rounds -/

namespace ApertureState

def next (descBlenMax : U32) (sgMax : Nat) (s : ApertureState) (outcome : Outcome) :
    ApertureState :=
  let built := apertureTransfer descBlenMax sgMax s.engine s.req
  { s with engine := built.1, req := built.2.1 }.settle built.2.2 outcome

def descCnt (descBlenMax : U32) (sgMax : Nat) (s : ApertureState) : Nat :=
  (apertureFill descBlenMax sgMax s.engine s.req).1.descIdx - s.engine.descIdx

theorem settle_log (s : ApertureState) (xfer : XdmaTransfer) (outcome : Outcome) :
    (s.settle xfer outcome).log = s.log ++ [⟨transferDescs s.engine xfer, outcome⟩] := by
  cases outcome <;> rfl

private theorem next_log (descBlenMax : U32) (sgMax : Nat) (s : ApertureState) (outcome : Outcome) :
    (s.next descBlenMax sgMax outcome).log =
      s.log ++ [⟨apertureDescs descBlenMax sgMax s.engine s.req, outcome⟩] :=
  settle_log ..

end ApertureState

section Loop

variable {descBlenMax : U32} {sgMax : Nat} {outcomes : Nat → Outcome} {s : ApertureState}

private theorem apertureLoop_done (done : ¬ s.req.offset < s.req.totalLen) (fuel : Nat) :
    apertureLoop descBlenMax sgMax outcomes fuel s = .returned (s.ret 0) s.log s.engine := by
  unfold apertureLoop
  rw [if_neg done]

private theorem apertureLoop_round (more : s.req.offset < s.req.totalLen)
    (completed : (outcomes s.log.length).Completed) (fuel : Nat) :
    apertureLoop descBlenMax sgMax outcomes (fuel + 1) s =
      if s.descCnt descBlenMax sgMax = 0 then .overrun
      else apertureLoop descBlenMax sgMax outcomes fuel
        (s.next descBlenMax sgMax (outcomes s.log.length)) := by
  obtain ⟨written, houtcome⟩ := completed.exists_written
  have hgoes : ¬ (outcomes s.log.length).rv < 0 := by
    simp [houtcome, Outcome.rv]
  rw [apertureLoop, if_pos more]
  simp only
  rw [if_neg hgoes]
  rfl

private theorem apertureLoop_log {fuel : Nat} {ret : Int} {log : List Submitted}
    {engine' : XdmaEngine}
    (completed : ∀ i, (outcomes i).Completed)
    (h : apertureLoop descBlenMax sgMax outcomes fuel s = .returned ret log engine') :
    s.log <+: log := by
  induction fuel generalizing s with
  | zero =>
      by_cases hmore : s.req.offset < s.req.totalLen
      · rw [apertureLoop, if_pos hmore] at h
        cases h
      · rw [apertureLoop_done hmore] at h
        cases h
        exact List.prefix_rfl
  | succ fuel ih =>
      by_cases hmore : s.req.offset < s.req.totalLen
      · rw [apertureLoop_round hmore (completed _)] at h
        split at h
        · cases h
        · have hrest := ih h
          rw [ApertureState.next_log] at hrest
          exact (List.prefix_append _ _).trans hrest
      · rw [apertureLoop_done hmore] at h
        cases h
        exact List.prefix_rfl

theorem apertureLoop_returned {fuel : Nat} {ret : Int} {log : List Submitted}
    {engine' : XdmaEngine} (completed : ∀ i, (outcomes i).Completed)
    (more : s.req.offset < s.req.totalLen)
    (h : apertureLoop descBlenMax sgMax outcomes fuel s = .returned ret log engine') :
    ∃ fuel', fuel = fuel' + 1 ∧ s.descCnt descBlenMax sgMax ≠ 0 ∧
      apertureLoop descBlenMax sgMax outcomes fuel'
        (s.next descBlenMax sgMax (outcomes s.log.length)) = .returned ret log engine' ∧
      s.log ++ [⟨apertureDescs descBlenMax sgMax s.engine s.req, outcomes s.log.length⟩] <+:
        log := by
  cases fuel with
  | zero =>
      rw [apertureLoop, if_pos more] at h
      cases h
  | succ fuel =>
      rw [apertureLoop_round more (completed _)] at h
      split at h
      next => cases h
      next hfilled =>
        have hlog := apertureLoop_log completed h
        rw [ApertureState.next_log] at hlog
        exact ⟨fuel, rfl, hfilled, h, hlog⟩

end Loop

/-! ## Calls -/

/-- The arguments of a call, with what it uses of the engine and of the module. -/
structure ApertureCall where
  dir : Direction
  epAddr : U64
  aperture : U32
  descBlenMax : U32
  descMax : Nat
  sgl : List Extent

namespace ApertureCall

variable (c : ApertureCall)

def width : Nat := c.aperture.toNat

def limit : Nat := min c.aperture.toNat c.descBlenMax.toNat

def hosts : List U64 := hostBytes c.sgl

def piecesAt (j : Nat) : List Piece := piecesFrom c.width c.limit j j c.sgl

def pieces : List Piece :=
  cutRuns c.width c.limit 0 (c.sgl.map fun sg => sg.len.toNat)

structure Admissible : Prop where
  opened : c.aperture ≠ 0
  limited : c.descBlenMax ≠ 0
  space : c.epAddr.toNat + c.aperture.toNat < 2 ^ 64
  nonempty : c.sgl ≠ []
  total : byteCount c.sgl < 2 ^ 32

end ApertureCall

theorem ApertureCall.Admissible.spans {c : ApertureCall} (admissible : c.Admissible) :
    (apertureWindow c.dir c.epAddr c.aperture c.descBlenMax).Spans c.width c.limit :=
  apertureWindow_spans admissible.opened admissible.limited admissible.space

/-- `j` bytes have been moved, by completed transfers. -/
structure Underway (c : ApertureCall) (j : Nat) (s : ApertureState) : Prop where
  dir : s.engine.dir = c.dir
  ring : s.engine.descMax = c.descMax
  slot : s.engine.descIdx < c.descMax
  epAddr : s.req.epAddr = c.epAddr
  aperture : s.req.aperture = c.aperture
  totalLen : s.req.totalLen.toNat = byteCount c.sgl
  table : s.req.sg = c.sgl
  offset : s.req.offset.toNat = j
  le : j ≤ byteCount c.sgl
  moved : logPairs s.log = windowPairs c.dir c.epAddr c.width 0 (c.hosts.take j)
  filled : ∀ submitted ∈ s.log, submitted.descs ≠ []
  inside : ∀ submitted ∈ s.log, ∀ desc ∈ submitted.descs,
    desc.InWindow c.dir c.epAddr c.width
  account : s.done = j

/-- The next transfer goes on in the first entry, at the right place of the window. -/
structure InPlace (c : ApertureCall) (j : Nat) (req : ApertureReq) : Prop where
  idx : req.sgIdx = 0
  offset : req.sgOffset.toNat = j
  first : ∀ sg ∈ c.sgl.head?, j < sg.len.toNat ∨ j = 0
  masked : j &&& (c.width - 1) = j % c.width

section Round

variable {c : ApertureCall} {j : Nat} {s : ApertureState} (admissible : c.Admissible)

include admissible

private theorem Underway.mask_toNat (underway : Underway c j s) :
    (s.req.offset &&& (s.req.aperture - 1)).toNat = j &&& (c.width - 1) := by
  have hpos : 0 < c.aperture.toNat := toNat_pos admissible.opened
  rw [BitVec.toNat_and, underway.offset, underway.aperture]
  congr 1
  rw [ApertureCall.width]
  bv_omega

theorem Underway.startFill_epAddr (underway : Underway c j s) :
    (startFill s.engine s.req).epAddr = c.epAddr + BitVec.ofNat 64 (j &&& (c.width - 1)) := by
  rw [← underway.mask_toNat admissible, BitVec.ofNat_toNat]
  simp only [startFill, underway.epAddr]

omit admissible in
theorem Underway.apertureFill_eq (underway : Underway c j s) :
    apertureFill c.descBlenMax c.sgl.length s.engine s.req =
      fillSegments (apertureWindow c.dir c.epAddr c.aperture c.descBlenMax) c.sgl.length c.descMax
        c.sgl s.req.sgIdx (startFill s.engine s.req) := by
  simp only [apertureFill, underway.dir, underway.epAddr, underway.aperture, underway.ring,
    underway.table]

theorem Underway.pass (underway : Underway c j s) (inPlace : InPlace c j s.req) :
    let fill := apertureFill c.descBlenMax c.sgl.length s.engine s.req
    let taken := (c.piecesAt j).take (c.descMax - s.engine.descIdx)
    let w := apertureWindow c.dir c.epAddr c.aperture c.descBlenMax
    ((∀ piece ∈ taken, Unwrapped w c.width piece) →
      Filled w c.width j ((c.hosts.drop j).take (pieceBytes taken)) (startFill s.engine s.req)
        fill.1 ∧
      fill.1.descIdx = s.engine.descIdx + taken.length ∧
      ((c.piecesAt j).length ≤ c.descMax - s.engine.descIdx ∨
        Stopped c.sgl (j + pieceBytes taken) fill.2 fill.1.sgOffset.toNat)) ∧
    (¬ (∀ piece ∈ taken, Unwrapped w c.width piece) →
      Crossed w c.width (startFill s.engine s.req) fill.1) := by
  have hplaced : EpAt (apertureWindow c.dir c.epAddr c.aperture c.descBlenMax) c.width j
      (startFill s.engine s.req).epAddr := by
    left
    rw [← inPlace.masked]
    exact underway.startFill_epAddr admissible
  obtain ⟨hgood, hbad⟩ := fillSegments_spec admissible.spans c.sgl.length c.descMax c.sgl
    (Nat.zero_add _).le underway.slot.le hplaced inPlace.offset inPlace.first
  have hfill := underway.apertureFill_eq
  rw [inPlace.idx] at hfill
  simp only [hfill]
  refine ⟨fun hunwrapped => ?_, hbad⟩
  obtain ⟨hfilled, hidx, hstop⟩ := hgood hunwrapped
  refine ⟨hfilled, hidx, hstop.imp_right ?_⟩
  rintro ⟨k, hk, hstopped⟩
  rw [hk, Nat.zero_add]
  exact hstopped

theorem InPlace.piecesAt_bytes (inPlace : InPlace c j s.req) :
    pieceBytes (c.piecesAt j) = byteCount c.sgl - j :=
  piecesFrom_bytes admissible.spans.pos admissible.spans.some j inPlace.first

theorem InPlace.taken (inPlace : InPlace c j s.req) (more : j < byteCount c.sgl) {room : Nat}
    (some : 0 < room) :
    (c.piecesAt j).take room ≠ [] ∧
      pieceBytes ((c.piecesAt j).take room) ≤ byteCount c.sgl - j := by
  have hall := inPlace.piecesAt_bytes admissible
  refine ⟨fun hnone => ?_, ?_⟩
  · rcases List.take_eq_nil_iff.mp hnone with hfull | hempty
    · omega
    · rw [hempty] at hall
      change 0 = _ at hall
      omega
  · have hsplit := congrArg pieceBytes (List.take_append_drop room (c.piecesAt j))
    rw [pieceBytes_append, hall] at hsplit
    omega

theorem Underway.extend (underway : Underway c j s) {n : Nat} (le : n ≤ byteCount c.sgl - j)
    (some : 0 < s.descCnt c.descBlenMax c.sgl.length) (written : Nat)
    (filled : Filled (apertureWindow c.dir c.epAddr c.aperture c.descBlenMax) c.width j
      ((c.hosts.drop j).take n) (startFill s.engine s.req)
      (apertureFill c.descBlenMax c.sgl.length s.engine s.req).1) :
    Underway c (j + n) (s.next c.descBlenMax c.sgl.length (.completed written)) := by
  have hslot := underway.slot
  have hle := underway.le
  have htotal := admissible.total
  have hmoved : ((c.hosts.drop j).take n).length = n := by
    rw [List.length_take, List.length_drop, ApertureCall.hosts, hostBytes_length]
    omega
  have hoffset := filled.offset
  have hlen := filled.len
  rw [hmoved] at hoffset hlen
  have hlog := s.next_log c.descBlenMax c.sgl.length (.completed written)
  refine ⟨underway.dir, underway.ring, ?_, underway.epAddr, underway.aperture,
    underway.totalLen, underway.table, ?_, by omega, ?_, ?_, ?_, ?_⟩
  · rw [← underway.ring] at hslot ⊢
    exact Nat.mod_lt _ (by omega)
  · have hj := underway.offset
    change (apertureFill c.descBlenMax c.sgl.length s.engine s.req).1.offset.toNat = _
    rw [hoffset, BitVec.toNat_add, BitVec.toNat_ofNat]
    simp only [startFill, hj]
    omega
  · have hfirst : (c.hosts.take j).length = j := by
      rw [List.length_take, ApertureCall.hosts, hostBytes_length]
      exact Nat.min_eq_left underway.le
    rw [hlog, logPairs_append, underway.moved, List.take_add, windowPairs_append, hfirst,
      Nat.zero_add]
    exact congrArg _ ((apertureDescs_pairs ..).trans filled.pairs)
  · rw [hlog, List.forall_mem_append]
    refine ⟨underway.filled, fun submitted hmem => ?_⟩
    rw [List.mem_singleton] at hmem
    subst hmem
    rw [← List.length_pos_iff, apertureDescs_length]
    exact some
  · rw [hlog, List.forall_mem_append]
    refine ⟨underway.inside, fun submitted hmem desc hdesc => ?_⟩
    rw [List.mem_singleton] at hmem
    subst hmem
    obtain ⟨k, hlower, hupper, hmoves⟩ := mem_apertureDescs _ _ _ _ hdesc
    rw [inWindow_of_moves hmoves]
    exact filled.inside k hlower hupper
  · have haccount := underway.account
    change s.done + ((apertureFill c.descBlenMax c.sgl.length s.engine s.req).1.len.toNat : Int) = _
    rw [hlen, show (startFill s.engine s.req).len = 0#32 from rfl, BitVec.zero_add,
      BitVec.toNat_ofNat]
    omega

theorem Underway.round (underway : Underway c j s) (inPlace : InPlace c j s.req)
    (more : j < byteCount c.sgl) (written : Nat)
    (unwrapped : ∀ piece ∈ (c.piecesAt j).take (c.descMax - s.engine.descIdx),
      Unwrapped (apertureWindow c.dir c.epAddr c.aperture c.descBlenMax) c.width piece) :
    let taken := (c.piecesAt j).take (c.descMax - s.engine.descIdx)
    let after := s.next c.descBlenMax c.sgl.length (.completed written)
    taken ≠ [] ∧ s.descCnt c.descBlenMax c.sgl.length = taken.length ∧
      Underway c (j + pieceBytes taken) after ∧
      after.engine.descIdx = (s.engine.descIdx + taken.length) % c.descMax ∧
      ((c.piecesAt j).length ≤ c.descMax - s.engine.descIdx ∨
        Stopped c.sgl (j + pieceBytes taken) after.req.sgIdx after.req.sgOffset.toNat) := by
  intro taken after
  have hslot := underway.slot
  obtain ⟨hfilled, hidx, hstop⟩ := (underway.pass admissible inPlace).1 unwrapped
  obtain ⟨hsome, hle⟩ := inPlace.taken admissible more
    (show 0 < c.descMax - s.engine.descIdx by omega)
  have hcount : s.descCnt c.descBlenMax c.sgl.length = taken.length := by
    rw [ApertureState.descCnt, hidx, Nat.add_sub_cancel_left]
  have hpositive : 0 < s.descCnt c.descBlenMax c.sgl.length := by
    rw [hcount]
    exact List.length_pos_of_ne_nil hsome
  refine ⟨hsome, hcount, underway.extend admissible hle hpositive written hfilled, ?_, hstop⟩
  rw [← hcount, ← underway.ring]
  rfl

end Round

/-! ## Calls that resume in place -/

namespace ApertureCall

variable (c : ApertureCall)

/-- A transfer may go on after `j` bytes: in the first entry, and where the mask is a remainder. -/
structure ResumesAt (j : Nat) : Prop where
  first : ∀ sg ∈ c.sgl.head?, j < sg.len.toNat
  masked : j &&& (c.width - 1) = j % c.width

/-- What is asked of the pieces that are left, when the next transfer has `room` slots and those
after it have the ring. -/
structure Safe (pieces : List Piece) (room : Nat) : Prop where
  unwrapped : ∀ piece ∈ pieces,
    Unwrapped (apertureWindow c.dir c.epAddr c.aperture c.descBlenMax) c.width piece
  resumes : ∀ t piece, pieces[room + t * c.descMax]? = some piece → c.ResumesAt piece.start

theorem safe_split (pieces : List Piece) (room : Nat) :
    c.Safe pieces room ↔
      (∀ piece ∈ pieces.take room,
        Unwrapped (apertureWindow c.dir c.epAddr c.aperture c.descBlenMax) c.width piece) ∧
      (∀ piece, pieces[room]? = some piece → c.ResumesAt piece.start) ∧
      c.Safe (pieces.drop room) c.descMax := by
  have hnext : ∀ t, (pieces.drop room)[c.descMax + t * c.descMax]? =
      pieces[room + (t + 1) * c.descMax]? := by
    intro t
    rw [List.getElem?_drop, Nat.succ_mul, Nat.add_comm c.descMax]
  constructor
  · intro safe
    refine ⟨fun piece hmem => safe.unwrapped piece (List.mem_of_mem_take hmem), ?_, ?_, ?_⟩
    · intro piece hpiece
      exact safe.resumes 0 piece (by rwa [Nat.zero_mul, Nat.add_zero])
    · intro piece hmem
      exact safe.unwrapped piece (List.mem_of_mem_drop hmem)
    · intro t piece hpiece
      rw [hnext] at hpiece
      exact safe.resumes (t + 1) piece hpiece
  · rintro ⟨htaken, hresumes, hrest⟩
    refine ⟨?_, ?_⟩
    · rw [← List.take_append_drop room pieces, List.forall_mem_append]
      exact ⟨htaken, hrest.unwrapped⟩
    · intro t piece hpiece
      cases t with
      | zero =>
          rw [Nat.zero_mul, Nat.add_zero] at hpiece
          exact hresumes piece hpiece
      | succ t =>
          rw [← hnext] at hpiece
          exact hrest.resumes t piece hpiece

theorem pieces_eq : c.pieces = c.piecesAt 0 := (piecesFrom_zero ..).symm

end ApertureCall

section Resumed

variable {c : ApertureCall} {j room : Nat} (admissible : c.Admissible)

include admissible

private theorem ApertureCall.piecesAt_drop
    (inFirst : ∀ sg ∈ c.sgl.head?, j + pieceBytes ((c.piecesAt j).take room) < sg.len.toNat) :
    c.piecesAt (j + pieceBytes ((c.piecesAt j).take room)) = (c.piecesAt j).drop room := by
  have hpos := admissible.spans.pos
  have hlimit := admissible.spans.some
  unfold ApertureCall.piecesAt at *
  obtain ⟨sg, rest, hsgl⟩ := List.exists_cons_of_ne_nil admissible.nonempty
  rw [hsgl] at inFirst ⊢
  have hinside := inFirst sg rfl
  simp only [piecesFrom] at hinside ⊢
  have hshort : room ≤ (cutRun c.width c.limit j (sg.len.toNat - j)).length := by
    by_contra hlong
    rw [List.take_append, List.take_of_length_le (by omega), pieceBytes_append,
      cutRun_bytes hpos hlimit] at hinside
    omega
  rw [List.take_append_of_le_length hshort] at hinside ⊢
  rw [List.drop_append_of_le_length hshort, (cutRun_drop hpos hlimit room _ _).2, Nat.sub_sub]
  congr 2
  omega

private theorem ApertureCall.piecesAt_consecutive (inFirst : ∀ sg ∈ c.sgl.head?, j ≤ sg.len.toNat) :
    Consecutive j (c.piecesAt j) := by
  have hpos := admissible.spans.pos
  have hlimit := admissible.spans.some
  unfold ApertureCall.piecesAt
  obtain ⟨sg, rest, hsgl⟩ := List.exists_cons_of_ne_nil admissible.nonempty
  rw [hsgl] at inFirst ⊢
  have hle := inFirst sg rfl
  refine (cutRun_consecutive hpos hlimit j _).append ?_
  rw [cutRun_bytes hpos hlimit]
  exact cutRuns_consecutive hpos hlimit _ _

omit admissible in
private theorem Stopped.in_first {i y : Nat} (stopped : Stopped c.sgl j i y)
    (resumes : c.ResumesAt j) :
    i = 0 ∧ y = j := by
  obtain ⟨before, seg, rest, hsgl, hi, htotal, -⟩ := stopped
  cases before with
  | nil =>
      rw [List.length_nil] at hi
      rw [show byteCount [] = 0 from rfl, Nat.zero_add] at htotal
      exact ⟨hi, htotal.symm⟩
  | cons first before =>
      have hinside := resumes.first first (by rw [hsgl]; rfl)
      have hcount : byteCount (first :: before) = first.len.toNat + byteCount before := rfl
      omega

theorem ApertureCall.piecesAt_len_pos (j : Nat) : ∀ piece ∈ c.piecesAt j, 0 < piece.len := by
  have hpos := admissible.spans.pos
  have hlimit := admissible.spans.some
  unfold ApertureCall.piecesAt
  cases c.sgl with
  | nil =>
      intro piece hmem
      cases hmem
  | cons sg rest =>
      rw [piecesFrom, List.forall_mem_append]
      exact ⟨cutRun_len_pos hpos hlimit _ _, cutRuns_len_pos hpos hlimit _ _⟩

private theorem InPlace.next_piece {s : ApertureState} (inPlace : InPlace c j s.req)
    (some : 0 < room)
    (longer : room < (c.piecesAt j).length) :
    ∃ piece, (c.piecesAt j)[room]? = Option.some piece ∧
      piece.start = j + pieceBytes ((c.piecesAt j).take room) ∧
      j < piece.start ∧ piece.start < byteCount c.sgl := by
  have hbytes := inPlace.piecesAt_bytes admissible
  have hpositive := ApertureCall.piecesAt_len_pos admissible j
  have hconsecutive := ApertureCall.piecesAt_consecutive admissible
    (show ∀ sg ∈ c.sgl.head?, j ≤ sg.len.toNat from fun sg hmem => by
      have hin := inPlace.first sg hmem
      omega)
  have hstart := hconsecutive.start_eq (List.getElem?_eq_getElem longer)
  have htaken := pieceBytes_pos (fun piece hmem => hpositive piece (List.mem_of_mem_take hmem))
    (show (c.piecesAt j).take room ≠ [] from fun hnone => by
      have hlength := congrArg List.length hnone
      rw [List.length_take_of_le longer.le, List.length_nil] at hlength
      omega)
  have hleft := pieceBytes_pos (fun piece hmem => hpositive piece (List.mem_of_mem_drop hmem))
    (show (c.piecesAt j).drop room ≠ [] from fun hnone =>
      Nat.not_le.mpr longer (List.drop_eq_nil_iff.mp hnone))
  rw [← List.take_append_drop room (c.piecesAt j), pieceBytes_append] at hbytes
  exact ⟨_, List.getElem?_eq_getElem longer, hstart, by omega, by omega⟩

end Resumed

/-- What a call is for: it returns the total length, and its transfers, none of them empty, move
the bytes of the list in order through the window, without a descriptor that crosses its end. -/
structure Windowed (c : ApertureCall) (ret : Int) (log : List Submitted) : Prop where
  ret : ret = byteCount c.sgl
  moved : logPairs log = windowPairs c.dir c.epAddr c.width 0 c.hosts
  filled : ∀ submitted ∈ log, submitted.descs ≠ []
  inside : ∀ submitted ∈ log, ∀ desc ∈ submitted.descs, desc.InWindow c.dir c.epAddr c.width

section Run

variable {c : ApertureCall} {j : Nat} {s : ApertureState} {outcomes : Nat → Outcome}

theorem Underway.round_partial (admissible : c.Admissible) (underway : Underway c j s)
    (inPlace : InPlace c j s.req) (more : j < byteCount c.sgl) (written : Nat)
    (unwrapped : ∀ piece ∈ (c.piecesAt j).take (c.descMax - s.engine.descIdx),
      Unwrapped (apertureWindow c.dir c.epAddr c.aperture c.descBlenMax) c.width piece)
    (longer : c.descMax - s.engine.descIdx < (c.piecesAt j).length) :
    let after := s.next c.descBlenMax c.sgl.length (.completed written)
    ∃ piece, (c.piecesAt j)[c.descMax - s.engine.descIdx]? = some piece ∧
      0 < piece.start ∧ piece.start < byteCount c.sgl ∧
      Underway c piece.start after ∧ after.engine.descIdx = 0 ∧
      Stopped c.sgl piece.start after.req.sgIdx after.req.sgOffset.toNat ∧
      (c.ResumesAt piece.start → InPlace c piece.start after.req ∧
        c.piecesAt piece.start = (c.piecesAt j).drop (c.descMax - s.engine.descIdx)) := by
  intro after
  have hslot := underway.slot
  obtain ⟨-, -, hnext, hidx, hstop⟩ := underway.round admissible inPlace more written unwrapped
  obtain ⟨piece, hpiece, hstart, hlater, hmore⟩ := inPlace.next_piece admissible
    (Nat.sub_pos_of_lt hslot) longer
  have hstopped := hstop.resolve_left (Nat.not_le.mpr longer)
  rw [List.length_take_of_le longer.le, Nat.add_sub_cancel' hslot.le, Nat.mod_self] at hidx
  rw [← hstart] at hnext hstopped
  refine ⟨piece, hpiece, by omega, hmore, hnext, hidx, hstopped, fun hresumes => ?_⟩
  obtain ⟨hfirst, hoffset⟩ := hstopped.in_first hresumes
  refine ⟨⟨hfirst, hoffset, fun sg hmem => .inl (hresumes.first sg hmem), hresumes.masked⟩, ?_⟩
  rw [hstart]
  exact ApertureCall.piecesAt_drop admissible (fun sg hmem => hstart ▸ hresumes.first sg hmem)

theorem Underway.more_iff (underway : Underway c j s) :
    s.req.offset < s.req.totalLen ↔ j < byteCount c.sgl := by
  rw [BitVec.lt_def, underway.offset, underway.totalLen]

theorem Underway.windowed (underway : Underway c j s) (all : ¬ j < byteCount c.sgl) :
    Windowed c (s.ret 0) s.log := by
  have hj : j = byteCount c.sgl := Nat.le_antisymm underway.le (Nat.le_of_not_lt all)
  refine ⟨?_, ?_, underway.filled, underway.inside⟩
  · rw [← hj, ApertureState.ret, underway.account]
    split <;> omega
  · rw [underway.moved, List.take_of_length_le]
    rw [ApertureCall.hosts, hostBytes_length]
    exact hj.ge

theorem apertureLoop_windowed (admissible : c.Admissible)
    (completed : ∀ i, (outcomes i).Completed) (fuel : Nat) (underway : Underway c j s)
    (inPlace : InPlace c j s.req) (enough : (c.piecesAt j).length ≤ fuel)
    (safe : c.Safe (c.piecesAt j) (c.descMax - s.engine.descIdx)) :
    ∃ ret log engine',
      apertureLoop c.descBlenMax c.sgl.length outcomes fuel s = .returned ret log engine' ∧
        Windowed c ret log := by
  induction fuel generalizing j s with
  | zero =>
      have hbytes := inPlace.piecesAt_bytes admissible
      rw [List.length_eq_zero_iff.mp (Nat.le_zero.mp enough)] at hbytes
      change 0 = _ at hbytes
      have hall : ¬ j < byteCount c.sgl := by omega
      exact ⟨_, _, _, apertureLoop_done (fun h => hall (underway.more_iff.mp h)) 0,
        underway.windowed hall⟩
  | succ fuel ih =>
      by_cases hmore : j < byteCount c.sgl
      · obtain ⟨written, houtcome⟩ := (completed s.log.length).exists_written
        obtain ⟨hunwrapped, hresumes, hrest⟩ := (c.safe_split _ _).mp safe
        obtain ⟨hsome, hcount, hnext, -, -⟩ :=
          underway.round admissible inPlace hmore written hunwrapped
        have hslot := underway.slot
        have hpositive := List.length_pos_of_ne_nil hsome
        rw [apertureLoop_round (underway.more_iff.mpr hmore) (completed _), if_neg (by omega),
          houtcome]
        rcases Nat.lt_or_ge (c.descMax - s.engine.descIdx) (c.piecesAt j).length with hlong | hshort
        · obtain ⟨piece, hpiece, -, -, hnext, hidx, -, hagain⟩ :=
            underway.round_partial admissible inPlace hmore written hunwrapped hlong
          obtain ⟨hplace, hpieces⟩ := hagain (hresumes piece hpiece)
          apply ih hnext hplace
          · rw [hpieces, List.length_drop]
            omega
          · rw [hpieces, hidx, Nat.sub_zero]
            exact hrest
        · have hbytes := inPlace.piecesAt_bytes admissible
          rw [List.take_of_length_le hshort, hbytes] at hnext
          have hall : ¬ j + (byteCount c.sgl - j) < byteCount c.sgl := by omega
          exact ⟨_, _, _, apertureLoop_done (fun h => hall (hnext.more_iff.mp h)) fuel,
            hnext.windowed hall⟩
      · exact ⟨_, _, _, apertureLoop_done (fun h => hmore (underway.more_iff.mp h)) _,
          underway.windowed hmore⟩

end Run

end NupaNet.Xdma
