import NupaNet.Xdma.Resume

/-!
# The addresses of an aperture call

A transfer that resumes in another entry, or where the mask is not the remainder,
gives its first byte a wrong address: it reads or writes at the first entry, or at
another place of the window.  A descriptor whose sum of address and length wraps is
not cut at the end of the window.  So a call through a list without shared bytes is
right in the cases of `Resume.lean` only.
-/

namespace NupaNet.Xdma

open NupaNet.Foundation

/-! ## The first descriptor of a transfer -/

/-- The first slot that is filled moves the byte at `addr` first. -/
structure Opens (w : Window) (addr epAddr : U64) (f f' : Fill) : Prop where
  idx : f.descIdx < f'.descIdx
  pair : (f'.desc f.descIdx).bytePairs.head? = some (orient w.dir addr epAddr)

theorem Opens.later {w : Window} {addr epAddr : U64} {f f' f'' : Fill}
    (opens : Opens w addr epAddr f f') (grows : f'.Grows f'') : Opens w addr epAddr f f'' where
  idx := Nat.lt_of_lt_of_le opens.idx grows.idx
  pair := by rw [grows.kept _ opens.idx, opens.pair]

section First

variable {w : Window} {a m : Nat} (spans : w.Spans a m)

include spans

private theorem nextPiece_len_pos {tlen : U32} {j : Nat} {epAddr : U64} (placed : EpAt w a j epAddr)
    (some : tlen ≠ 0) : 0 < (nextPiece w tlen epAddr).2.toNat := by
  have hpos := toNat_pos some
  have hlimit := spans.some
  rw [nextPiece_len spans tlen placed]
  split
  · exact cutLen_pos spans.pos hlimit j hpos
  · omega

private theorem fillSegment_opens {room : Nat} (free : 0 < room) (addr : U64) {tlen : U32}
    (some : tlen ≠ 0)
    {f : Fill} {p : Nat} (place : p < a) (at_p : f.epAddr = w.epAddr + BitVec.ofNat 64 p) :
    Opens w addr f.epAddr f (fillSegment w room addr tlen f).1 := by
  have hplaced : EpAt w a p f.epAddr := by
    left
    rw [Nat.mod_eq_of_lt place, at_p]
  have hplace := nextPiece_epAddr spans tlen hplaced
  have hlen := nextPiece_len_pos spans hplaced some
  rw [Nat.mod_eq_of_lt place, ← at_p] at hplace
  obtain ⟨room, rfl⟩ : ∃ n, room = n + 1 := ⟨room - 1, by omega⟩
  rw [fillSegment, if_neg some]
  have hstep : Opens w addr f.epAddr f (fillStep w addr (nextPiece w tlen f.epAddr) f) := by
    refine ⟨Nat.lt_succ_self _, ?_⟩
    simp only [fillStep, modifyAt_same]
    rw [xdmaDescSet_bytePairs, hplace, List.head?_map, List.head?_range, if_neg (by omega)]
    simp
  exact hstep.later (fillSegment_grows w room _ _ _)

variable {sg : Extent} {sgMax descMax i p : Nat} {f : Fill}

private theorem fillSegments_opens (rest : List Extent) (entry : i < sgMax)
    (free : f.descIdx < descMax)
    (left : sg.len ≠ f.sgOffset) (place : p < a) (at_p : f.epAddr = w.epAddr + BitVec.ofNat 64 p) :
    Opens w (sg.addr + f.sgOffset.setWidth 64) f.epAddr f
      (fillSegments w sgMax descMax (sg :: rest) i f).1 := by
  have hleft : sg.len - f.sgOffset ≠ 0 := by
    intro hzero
    apply left
    bv_omega
  have hopens := fillSegment_opens spans (Nat.sub_pos_of_lt free)
    (sg.addr + f.sgOffset.setWidth 64) hleft place at_p
  rw [fillSegments_cons, if_pos ⟨entry, free⟩]
  simp only
  split
  · have hrest := fillSegments_grows w sgMax descMax rest (i + 1)
      { (fillSegment w (descMax - f.descIdx) (sg.addr + f.sgOffset.setWidth 64)
          (sg.len - f.sgOffset) f).1 with sgOffset := 0 }
    exact hopens.later ⟨hrest.idx, hrest.kept⟩
  · exact hopens

end First

private theorem fillSegments_skip (w : Window) {sgMax descMax i : Nat} {sg : Extent}
    (rest : List Extent)
    {f : Fill} (entry : i < sgMax) (free : f.descIdx < descMax) (done : sg.len = f.sgOffset) :
    fillSegments w sgMax descMax (sg :: rest) i f =
      fillSegments w sgMax descMax rest (i + 1) { f with sgOffset := 0 } := by
  have hnone : ∀ room addr, fillSegment w room addr 0 f = (f, 0) := by
    intro room addr
    cases room with
    | zero => rfl
    | succ room => rw [fillSegment, if_pos rfl]
  rw [fillSegments_cons, if_pos ⟨entry, free⟩, done, show f.sgOffset - f.sgOffset = 0 by simp]
  simp only [hnone, if_true]

/-! ## A transfer out of place -/

private theorem orient_inj {dir : Direction} {host host' endpoint endpoint' : U64}
    (h : orient dir host endpoint = orient dir host' endpoint') :
    host = host' ∧ endpoint = endpoint' := by
  cases dir with
  | toDevice =>
      cases h
      exact ⟨rfl, rfl⟩
  | fromDevice =>
      cases h
      exact ⟨rfl, rfl⟩

private theorem windowPairs_at (dir : Direction) (epAddr : U64) (a j : Nat) (hosts : List U64)
    (k : Nat) :
    (windowPairs dir epAddr a j hosts)[k]? =
      hosts[k]?.map fun host => orient dir host (epAddr + BitVec.ofNat 64 ((j + k) % a)) := by
  rw [windowPairs, List.getElem?_mapIdx]

section Misplaced

variable {c : ApertureCall} {j : Nat} {s : ApertureState}

private theorem Underway.first_move (underway : Underway c j s) {log : List Submitted}
    {outcome : Outcome}
    (moved : logPairs log = windowPairs c.dir c.epAddr c.width 0 c.hosts)
    (submitted : s.log ++ [⟨apertureDescs c.descBlenMax c.sgl.length s.engine s.req, outcome⟩] <+: log)
    {addr epAddr : U64}
    (opens : Opens (apertureWindow c.dir c.epAddr c.aperture c.descBlenMax) addr epAddr
      (startFill s.engine s.req) (apertureFill c.descBlenMax c.sgl.length s.engine s.req).1) :
    c.hosts[j]? = some addr ∧ epAddr = c.epAddr + BitVec.ofNat 64 (j % c.width) := by
  obtain ⟨later, hlog⟩ := submitted
  have hlength : (logPairs s.log).length = j := by
    rw [underway.moved, windowPairs_length, List.length_take, ApertureCall.hosts, hostBytes_length]
    exact Nat.min_eq_left underway.le
  have hfirst : ((apertureDescs c.descBlenMax c.sgl.length s.engine s.req).flatMap
      XdmaDesc.bytePairs).head? = some (orient c.dir addr epAddr) := by
    obtain ⟨n, hn⟩ : ∃ n, (apertureFill c.descBlenMax c.sgl.length s.engine s.req).1.descIdx -
        s.engine.descIdx = n + 1 := Nat.exists_eq_add_one_of_ne_zero (Nat.sub_ne_zero_of_lt opens.idx)
    rw [apertureDescs_pairs, hn, List.range'_succ, List.flatMap_cons, List.head?_append]
    exact congrArg (Option.or · _) opens.pair
  have hpair : (logPairs log)[j]? = some (orient c.dir addr epAddr) := by
    rw [← hlog, logPairs, List.flatMap_append]
    change (logPairs _ ++ _)[j]? = _
    rw [logPairs_append, List.append_assoc, List.getElem?_append_right hlength.le, hlength,
      Nat.sub_self, ← List.head?_eq_getElem?, List.head?_append, hfirst]
    rfl
  rw [moved, windowPairs_at, Option.map_eq_some_iff] at hpair
  obtain ⟨host, hhost, horient⟩ := hpair
  obtain ⟨rfl, hendpoint⟩ := orient_inj horient
  rw [Nat.zero_add] at hendpoint
  exact ⟨hhost, hendpoint.symm⟩

private theorem ApertureCall.hosts_at {seg : Extent} {after : List Extent} (before : List Extent)
    (table : c.sgl = before ++ seg :: after) {y : Nat} (inside : y < seg.len.toNat) :
    c.hosts[byteCount before + y]? = some (seg.addr + BitVec.ofNat 64 y) := by
  have hseg : y < seg.bytes.length := by rwa [Extent.bytes_length]
  rw [ApertureCall.hosts, table, hostBytes_append,
    List.getElem?_append_right (by rw [hostBytes_length]; omega), hostBytes_length,
    Nat.add_sub_cancel_left, hostBytes, List.flatMap_cons, List.getElem?_append_left hseg]
  simp [Extent.bytes, inside]

private theorem ApertureCall.hosts_inj (distinct : c.hosts.Nodup) {k : Nat} {host : U64}
    (at_j : c.hosts[j]? = some host) (at_k : c.hosts[k]? = some host) : j = k := by
  obtain ⟨hj, -⟩ := List.getElem?_eq_some_iff.mp at_j
  exact (List.getElem?_inj hj distinct).mp (at_j.trans at_k.symm)

variable (admissible : c.Admissible) (underway : Underway c j s)

include admissible underway

private theorem Underway.opens_first {sg : Extent} {rest : List Extent} (table : c.sgl = sg :: rest)
    (entry : s.req.sgIdx < c.sgl.length) (left : sg.len ≠ s.req.sgOffset) :
    Opens (apertureWindow c.dir c.epAddr c.aperture c.descBlenMax)
      (sg.addr + s.req.sgOffset.setWidth 64) (c.epAddr + BitVec.ofNat 64 (j &&& (c.width - 1)))
      (startFill s.engine s.req) (apertureFill c.descBlenMax c.sgl.length s.engine s.req).1 := by
  have hpos := admissible.spans.pos
  have hmask : j &&& (c.width - 1) ≤ c.width - 1 := Nat.and_le_right
  have hepAddr := underway.startFill_epAddr admissible
  rw [underway.apertureFill_eq, ← hepAddr]
  nth_rewrite 2 [table]
  exact fillSegments_opens admissible.spans rest entry underway.slot left
    (show j &&& (c.width - 1) < c.width by omega) hepAddr

private theorem Underway.opens_second {sg second : Extent} {rest : List Extent}
    (table : c.sgl = sg :: second :: rest) (entry : s.req.sgIdx < c.sgl.length)
    (done : sg.len = s.req.sgOffset) (some : second.len ≠ 0)
    (filled : s.descCnt c.descBlenMax c.sgl.length ≠ 0) :
    Opens (apertureWindow c.dir c.epAddr c.aperture c.descBlenMax) second.addr
      (c.epAddr + BitVec.ofNat 64 (j &&& (c.width - 1)))
      (startFill s.engine s.req) (apertureFill c.descBlenMax c.sgl.length s.engine s.req).1 := by
  have hpos := admissible.spans.pos
  have hmask : j &&& (c.width - 1) ≤ c.width - 1 := Nat.and_le_right
  have hepAddr := underway.startFill_epAddr admissible
  have hfill : apertureFill c.descBlenMax c.sgl.length s.engine s.req =
      fillSegments (apertureWindow c.dir c.epAddr c.aperture c.descBlenMax) c.sgl.length c.descMax
        (second :: rest) (s.req.sgIdx + 1) { startFill s.engine s.req with sgOffset := 0 } := by
    rw [underway.apertureFill_eq]
    nth_rewrite 2 [table]
    exact fillSegments_skip _ _ entry underway.slot done
  by_cases hentry : s.req.sgIdx + 1 < c.sgl.length
  · have hopens := fillSegments_opens admissible.spans rest hentry
      (f := { startFill s.engine s.req with sgOffset := 0 }) underway.slot some
      (show j &&& (c.width - 1) < c.width by omega) hepAddr
    rw [← hfill] at hopens
    rw [← hepAddr]
    refine ⟨hopens.idx, ?_⟩
    rw [← BitVec.add_zero second.addr]
    exact hopens.pair
  · rw [fillSegments_cons, if_neg (fun h => hentry h.1)] at hfill
    rw [ApertureState.descCnt, hfill] at filled
    exact absurd (Nat.sub_self _) filled

variable (filled : s.descCnt c.descBlenMax c.sgl.length ≠ 0) {log : List Submitted}
  {outcome : Outcome} (moved : logPairs log = windowPairs c.dir c.epAddr c.width 0 c.hosts)
  (submitted :
    s.log ++ [⟨apertureDescs c.descBlenMax c.sgl.length s.engine s.req, outcome⟩] <+: log)

include moved submitted

theorem Underway.masked {sg : Extent} {rest : List Extent} (table : c.sgl = sg :: rest)
    (entry : s.req.sgIdx < c.sgl.length) (left : sg.len ≠ s.req.sgOffset) :
    j &&& (c.width - 1) = j % c.width := by
  have hpos := admissible.spans.pos
  have hword := admissible.spans.word
  have hmask : j &&& (c.width - 1) ≤ c.width - 1 := Nat.and_le_right
  have hmod := Nat.mod_lt j hpos
  have hopens := underway.opens_first admissible table entry left
  obtain ⟨-, hendpoint⟩ := underway.first_move moved submitted hopens
  have hsame := congrArg BitVec.toNat ((BitVec.add_right_inj _).mp hendpoint)
  rw [BitVec.toNat_ofNat, BitVec.toNat_ofNat] at hsame
  omega

include filled

/-- A transfer that goes on in a later entry starts at the first or at the second, whose bytes have
been moved. -/
private theorem Underway.not_later (nonzero : ∀ sg ∈ c.sgl, sg.len ≠ 0) (distinct : c.hosts.Nodup)
    {first seg : Extent} {before after : List Extent}
    (table : c.sgl = (first :: before) ++ seg :: after)
    (entry : s.req.sgIdx = (first :: before).length)
    (at_j : j = byteCount (first :: before) + s.req.sgOffset.toNat)
    (inside : s.req.sgOffset.toNat < seg.len.toNat ∨ s.req.sgOffset.toNat = 0) : False := by
  have hfirst := toNat_pos (nonzero first (by simp [table]))
  have hseg := toNat_pos (nonzero seg (by simp [table]))
  have hcount : byteCount (first :: before) = first.len.toNat + byteCount before := rfl
  have hentry : s.req.sgIdx < c.sgl.length := by
    rw [entry, table, List.length_append]
    exact Nat.lt_add_of_pos_right (Nat.succ_pos _)
  by_cases hdone : first.len = s.req.sgOffset
  · obtain ⟨second, rest, hrest⟩ := List.exists_cons_of_ne_nil
      (show before ++ seg :: after ≠ [] by simp)
    have htable : c.sgl = [first] ++ second :: rest := by rw [table, ← hrest]; rfl
    have hsecond := nonzero second (by simp [htable])
    have hopens := underway.opens_second admissible htable hentry hdone hsecond filled
    obtain ⟨hwrong, -⟩ := underway.first_move moved submitted hopens
    have hright := c.hosts_at [first] htable (toNat_pos hsecond)
    rw [show BitVec.ofNat 64 0 = 0#64 from rfl, BitVec.add_zero] at hright
    have hequal := ApertureCall.hosts_inj distinct hwrong hright
    have hsingle : byteCount [first] = first.len.toNat := rfl
    rw [← hdone] at at_j
    omega
  · have hopens := underway.opens_first admissible table hentry hdone
    obtain ⟨hwrong, -⟩ := underway.first_move moved submitted hopens
    have hright := c.hosts_at _ table (show s.req.sgOffset.toNat < seg.len.toNat by omega)
    rw [← at_j, hwrong] at hright
    have hsame : first.addr = seg.addr := by
      rw [BitVec.ofNat_toNat, Option.some.injEq] at hright
      exact (BitVec.add_left_inj _).mp hright
    have hstart := c.hosts_at [] table hfirst
    have hlater := c.hosts_at _ table hseg
    rw [← hsame] at hlater
    have hequal := ApertureCall.hosts_inj distinct hstart hlater
    change 0 = _ at hequal
    omega

private theorem Underway.resumesAt (some : 0 < j)
    (stopped : Stopped c.sgl j s.req.sgIdx s.req.sgOffset.toNat)
    (nonzero : ∀ sg ∈ c.sgl, sg.len ≠ 0) (distinct : c.hosts.Nodup) : c.ResumesAt j := by
  obtain ⟨before, seg, after, hsgl, hidx, hj, hoffset⟩ := stopped
  cases before with
  | nil =>
      rw [show byteCount [] = 0 from rfl, Nat.zero_add] at hj
      have hentry : s.req.sgIdx < c.sgl.length := by
        rw [hsgl, hidx]
        exact Nat.succ_pos _
      refine ⟨?_, underway.masked admissible moved submitted hsgl hentry (by bv_omega)⟩
      rw [hsgl]
      rintro sg hmem
      obtain rfl : seg = sg := by simpa using hmem
      omega
  | cons first before =>
      exact (underway.not_later admissible filled moved submitted nonzero distinct hsgl hidx hj
        hoffset).elim

end Misplaced

/-! ## Right calls -/

section Right

variable {c : ApertureCall} {j : Nat} {s : ApertureState} {outcomes : Nat → Outcome}

private theorem ApertureCall.safe_nil (c : ApertureCall) (room : Nat) : c.Safe [] room where
  unwrapped := by
    intro piece hmem
    cases hmem
  resumes := by
    intro t piece hpiece
    rw [List.getElem?_nil] at hpiece
    cases hpiece

private theorem InPlace.piecesAt_nil (admissible : c.Admissible) (inPlace : InPlace c j s.req)
    (all : ¬ j < byteCount c.sgl) : c.piecesAt j = [] := by
  by_contra hsome
  have hpositive := pieceBytes_pos (ApertureCall.piecesAt_len_pos admissible j) hsome
  rw [inPlace.piecesAt_bytes admissible] at hpositive
  omega

theorem Underway.unwrapped (admissible : c.Admissible) (underway : Underway c j s)
    (inPlace : InPlace c j s.req)
    (inside : ∀ desc ∈ apertureDescs c.descBlenMax c.sgl.length s.engine s.req,
      desc.InWindow c.dir c.epAddr c.width) :
    ∀ piece ∈ (c.piecesAt j).take (c.descMax - s.engine.descIdx),
      Unwrapped (apertureWindow c.dir c.epAddr c.aperture c.descBlenMax) c.width piece := by
  by_contra hwraps
  obtain ⟨k, hlower, hupper, hcrosses⟩ := (underway.pass admissible inPlace).2 hwraps
  obtain ⟨desc, hmem, hmoves⟩ := apertureDescs_mem _ _ _ _ hlower hupper
  apply hcrosses
  rw [← inWindow_of_moves hmoves]
  exact inside desc hmem

theorem Windowed.safe (admissible : c.Admissible) (completed : ∀ i, (outcomes i).Completed)
    (nonzero : ∀ sg ∈ c.sgl, sg.len ≠ 0) (distinct : c.hosts.Nodup) {fuel : Nat} {ret : Int}
    {log : List Submitted} {engine' : XdmaEngine} (windowed : Windowed c ret log)
    (underway : Underway c j s) (inPlace : InPlace c j s.req)
    (h : apertureLoop c.descBlenMax c.sgl.length outcomes fuel s = .returned ret log engine') :
    c.Safe (c.piecesAt j) (c.descMax - s.engine.descIdx) := by
  induction fuel generalizing j s with
  | zero =>
      have hall : ¬ j < byteCount c.sgl := by
        intro hmore
        obtain ⟨fuel', hfuel, -⟩ :=
          apertureLoop_returned completed (underway.more_iff.mpr hmore) h
        cases hfuel
      rw [inPlace.piecesAt_nil admissible hall]
      exact c.safe_nil _
  | succ fuel ih =>
      by_cases hmore : j < byteCount c.sgl
      · obtain ⟨fuel', hfuel, -, hloop, hlog⟩ :=
          apertureLoop_returned completed (underway.more_iff.mpr hmore) h
        obtain rfl : fuel = fuel' := Nat.succ.inj hfuel
        obtain ⟨written, houtcome⟩ := (completed s.log.length).exists_written
        rw [houtcome] at hloop hlog
        have hunwrapped := underway.unwrapped admissible inPlace
          (windowed.inside _ (hlog.subset (List.mem_append_right _ (List.mem_singleton.mpr rfl))))
        rw [ApertureCall.safe_split]
        rcases Nat.lt_or_ge (c.descMax - s.engine.descIdx) (c.piecesAt j).length with hlong | hshort
        · obtain ⟨piece, hpiece, hsome, hleft, hnext, hidx, hstopped, hagain⟩ :=
            underway.round_partial admissible inPlace hmore written hunwrapped hlong
          obtain ⟨-, -, hfilled, -, hlog'⟩ :=
            apertureLoop_returned completed (hnext.more_iff.mpr hleft) hloop
          have hresumes := hnext.resumesAt admissible hfilled windowed.moved hlog' hsome hstopped
            nonzero distinct
          obtain ⟨hplace, hpieces⟩ := hagain hresumes
          have hrest := ih hnext hplace hloop
          rw [hpieces, hidx, Nat.sub_zero] at hrest
          refine ⟨hunwrapped, ?_, hrest⟩
          rw [hpiece]
          rintro piece' ⟨⟩
          exact hresumes
        · refine ⟨hunwrapped, ?_, ?_⟩
          · rw [List.getElem?_eq_none hshort]
            intro piece hpiece
            cases hpiece
          · rw [List.drop_eq_nil_iff.mpr hshort]
            exact c.safe_nil _
      · rw [inPlace.piecesAt_nil admissible hmore]
        exact c.safe_nil _

end Right

/-- The call returns, and what it has done is what it is for. -/
def ApertureCall.Correct (c : ApertureCall) (engine : XdmaEngine) (outcomes : Nat → Outcome) :
    Prop :=
  ∃ fuel ret log engine',
    xdmaXferAperture true c.descBlenMax false engine c.dir c.epAddr c.aperture c.sgl outcomes fuel =
      .returned ret log engine' ∧ Windowed c ret log

private theorem totalLen_toNat {sgl : List Extent} {start : U32}
    (total : start.toNat + byteCount sgl < 2 ^ 32) :
    (sgl.foldl (fun total sg => total + sg.len) start).toNat = start.toNat + byteCount sgl := by
  induction sgl generalizing start with
  | nil => rfl
  | cons sg rest ih =>
      have hcount : byteCount (sg :: rest) = sg.len.toNat + byteCount rest := rfl
      have hsum : (start + sg.len).toNat = start.toNat + sg.len.toNat := by bv_omega
      rw [List.foldl_cons, ih (by omega), hsum]
      omega

def apertureStart (engine : XdmaEngine) (epAddr : U64) (aperture : U32) (sgl : List Extent) :
    ApertureState where
  engine
  req :=
    { epAddr
      aperture
      totalLen := sgl.foldl (fun total sg => total + sg.len) 0
      offset := 0
      sg := sgl
      sgIdx := 0
      sgOffset := 0 }
  done := 0
  log := []

section Call

variable {c : ApertureCall} (admissible : c.Admissible) {engine : XdmaEngine}
  (dir : engine.dir = c.dir) (ring : engine.descMax = c.descMax)
  (slot : engine.descIdx < engine.descMax)

include admissible dir

include ring slot in
theorem Underway.start : Underway c 0 (apertureStart engine c.epAddr c.aperture c.sgl) where
  dir := dir
  ring := ring
  slot := ring ▸ slot
  epAddr := rfl
  aperture := rfl
  totalLen := by
    have htotal := admissible.total
    exact (totalLen_toNat (by simpa using htotal)).trans (by simp)
  table := rfl
  offset := rfl
  le := Nat.zero_le _
  moved := by simp [apertureStart, logPairs, windowPairs]
  filled := by
    intro submitted hmem
    cases hmem
  inside := by
    intro submitted hmem
    cases hmem
  account := rfl

omit admissible dir in
theorem InPlace.start (c : ApertureCall) (engine : XdmaEngine) :
    InPlace c 0 (apertureStart engine c.epAddr c.aperture c.sgl).req where
  idx := rfl
  offset := rfl
  first := fun _ _ => .inr rfl
  masked := by simp

variable (memoryMapped : engine.streaming = false) {outcomes : Nat → Outcome}

include memoryMapped

private theorem xdmaXferAperture_loop (outcomes : Nat → Outcome) (fuel : Nat) :
    xdmaXferAperture true c.descBlenMax false engine c.dir c.epAddr c.aperture c.sgl outcomes fuel =
      apertureLoop c.descBlenMax c.sgl.length outcomes fuel
        (apertureStart engine c.epAddr c.aperture c.sgl) := by
  have hnonempty := admissible.nonempty
  simp [xdmaXferAperture, dir, memoryMapped, hnonempty, apertureStart]

variable (completed : ∀ i, (outcomes i).Completed)

include ring slot completed

theorem ApertureCall.Safe.correct (safe : c.Safe c.pieces (engine.descMax - engine.descIdx)) :
    c.Correct engine outcomes := by
  rw [c.pieces_eq, ring] at safe
  obtain ⟨ret, log, engine', hloop, hwindowed⟩ := apertureLoop_windowed admissible completed
    (c.piecesAt 0).length (Underway.start admissible dir ring slot) (InPlace.start c engine)
    (Nat.le_refl _) safe
  refine ⟨(c.piecesAt 0).length, ret, log, engine', ?_, hwindowed⟩
  rw [xdmaXferAperture_loop admissible dir memoryMapped, hloop]

theorem ApertureCall.Correct.safe (nonzero : ∀ sg ∈ c.sgl, sg.len ≠ 0) (distinct : c.hosts.Nodup)
    (correct : c.Correct engine outcomes) : c.Safe c.pieces (engine.descMax - engine.descIdx) := by
  obtain ⟨fuel, ret, log, engine', hcall, hwindowed⟩ := correct
  rw [xdmaXferAperture_loop admissible dir memoryMapped] at hcall
  rw [c.pieces_eq, ring]
  exact hwindowed.safe admissible completed nonzero distinct
    (Underway.start admissible dir ring slot) (InPlace.start c engine) hcall

end Call

/-- The call is right when no piece wraps and each transfer resumes in place; for a list without
empty entries whose bytes are distinct, only then. -/
theorem xdmaXferAperture_correct_iff (c : ApertureCall) (engine : XdmaEngine)
    (outcomes : Nat → Outcome) (admissible : c.Admissible) (memoryMapped : engine.streaming = false)
    (dir : engine.dir = c.dir) (ring : engine.descMax = c.descMax)
    (slot : engine.descIdx < engine.descMax) (completed : ∀ i, (outcomes i).Completed) :
    (c.Safe c.pieces (engine.descMax - engine.descIdx) → c.Correct engine outcomes) ∧
      ((∀ sg ∈ c.sgl, sg.len ≠ 0) → c.hosts.Nodup → c.Correct engine outcomes →
        c.Safe c.pieces (engine.descMax - engine.descIdx)) := by
  constructor
  · intro safe
    exact safe.correct admissible dir ring slot memoryMapped completed
  · intro nonzero distinct correct
    exact correct.safe admissible dir ring slot memoryMapped completed nonzero distinct

theorem aperture_resumed_in_place :
    let c : ApertureCall := ⟨.toDevice, 0x100, 4, 0x1000, 0x800, [⟨0x7000, 8⟩]⟩
    c.Safe c.pieces 1 ∧ c.Correct (idleEngine .toDevice 0x7ff) (fun _ => .completed 0) := by
  intro c
  have hpieces : c.pieces = [⟨0, 4, 4⟩, ⟨4, 4, 4⟩] := by decide
  have hsafe : c.Safe c.pieces 1 := by
    rw [hpieces]
    refine ⟨by decide, fun t piece hpiece => ?_⟩
    cases t with
    | zero =>
        obtain rfl : (⟨4, 4, 4⟩ : Piece) = piece := Option.some.inj hpiece
        exact ⟨by decide, by decide⟩
    | succ t =>
        have hlarge : 2 ≤ 1 + (t + 1) * c.descMax := by
          have hring : c.descMax = 0x800 := rfl
          rw [hring]
          omega
        rw [List.getElem?_eq_none hlarge] at hpiece
        cases hpiece
  refine ⟨hsafe, ?_⟩
  exact (xdmaXferAperture_correct_iff c (idleEngine .toDevice 0x7ff) (fun _ => .completed 0)
    ⟨by decide, by decide, by decide, by decide, by decide⟩ rfl rfl rfl (by decide)
    (fun _ => trivial)).1 hsafe

/-- Two entries, of which the second begins with the ring; a window of three bytes; and a window
at the top of the address space, in which the second entry begins. -/
theorem aperture_misaddressed :
    let second : ApertureCall :=
      ⟨.toDevice, 0x100, 2, 0x1000, 0x800, [⟨0x7000, 2⟩, ⟨0x9000, 2⟩]⟩
    let odd : ApertureCall := ⟨.toDevice, 0x100, 3, 0x1000, 0x800, [⟨0x7000, 6⟩]⟩
    let top : ApertureCall :=
      ⟨.toDevice, 0xfffffffffffffff8, 7, 0x1000, 0x800, [⟨0x7000, 4⟩, ⟨0x9000, 7⟩]⟩
    let outcomes : Nat → Outcome := fun _ => .completed 0
    (second.Admissible ∧ ¬ second.Correct (idleEngine .toDevice 0x7ff) outcomes) ∧
      (odd.Admissible ∧ ¬ odd.Correct (idleEngine .toDevice 0x7ff) outcomes) ∧
      (top.Admissible ∧ ¬ top.Correct (idleEngine .toDevice 0) outcomes) := by
  intro second odd top outcomes
  have hcompleted : ∀ i, (outcomes i).Completed := fun _ => trivial
  have hsecond : second.Admissible := ⟨by decide, by decide, by decide, by decide, by decide⟩
  have hodd : odd.Admissible := ⟨by decide, by decide, by decide, by decide, by decide⟩
  have htop : top.Admissible := ⟨by decide, by decide, by decide, by decide, by decide⟩
  refine ⟨⟨hsecond, fun correct => ?_⟩, ⟨hodd, fun correct => ?_⟩, ⟨htop, fun correct => ?_⟩⟩
  · have hsafe := correct.safe hsecond rfl rfl (by decide) rfl hcompleted (by decide) (by decide)
    have hresumes := hsafe.resumes 0 ⟨2, 2, 2⟩ (by decide)
    exact absurd (hresumes.first _ rfl) (by decide)
  · have hsafe := correct.safe hodd rfl rfl (by decide) rfl hcompleted (by decide) (by decide)
    have hresumes := hsafe.resumes 0 ⟨3, 3, 3⟩ (by decide)
    exact absurd hresumes.masked (by decide)
  · have hsafe := correct.safe htop rfl rfl (by decide) rfl hcompleted (by decide) (by decide)
    exact absurd (hsafe.unwrapped ⟨4, 7, 3⟩ (by decide)) (by decide)

end NupaNet.Xdma
