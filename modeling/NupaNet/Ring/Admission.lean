import NupaNet.Ring.Accounting

/-!
# Admission of a packet

What `fetch_packet_desc` decides and what it leaves of the shared memory, over
every state of the shared words and every value the uninitialised local
`total_len` may hold.  The capacity test reads that local where the byte count
of the destination is meant.

The descriptor is found by pointer arithmetic on `info->head`, so here the
shared memory is the words of the BAR window by their addresses: a head outside
0..63 reaches other words than those of a slot.  With a head in that range the
call is the one on the records of its area.
-/

namespace NupaNet.Ring

/-! ## The shared memory by addresses -/

/-- Words by their distance in bytes from the window; those of the driver are all aligned. -/
abbrev Window := Int → CInt

def Word.address (dst : Fin 2) (w : Word) : Int := infoSize * (dst : Nat) + w.byteOffset

/-- A slot of the area has an index of 0..63. -/
def Word.Real : Word → Prop
  | .hostId | .head | .tail | .totalLen | .ready => True
  | .pos index | .offset index | .length index | .status index => index.toNat < maxDescNum

def PacketDescStatus.code : PacketDescStatus → CInt
  | .packetInit => 0
  | .packetFreezing => 1
  | .packetSettled => 2
  | .packetReleased => 3

/-- What a store makes of the word it meets; `ready` is the low byte of its word. -/
def Store.put (old : CInt) : Store → CInt
  | .hostId value | .head value | .tail value | .totalLen value => value
  | .pos _ value | .offset _ value | .length _ value => value
  | .status _ value => value.code
  | .ready value => old &&& 0xffffff00 ||| if value then 1 else 0

namespace Window

def get (shm : Window) (dst : Fin 2) (w : Word) : CInt := shm (w.address dst)

def ready (shm : Window) (dst : Fin 2) : Bool := (shm.get dst .ready).setWidth 8 ≠ 0

def store (shm : Window) (dst : Fin 2) (s : Store) : Window :=
  Function.update shm (s.word.address dst) (s.put (shm.get dst s.word))

def storeAll (shm : Window) (dst : Fin 2) (stores : List Store) : Window :=
  stores.foldl (fun shm s => shm.store dst s) shm

end Window

/-- `fetch_packet_desc` past its `BUG_ON(dst_id >= MAX_AGENT_NUM)`; `totalLen` is the
indeterminate initial value of the local `total_len`. -/
def fetchPacketDescAt (shm : Window) (dst : Fin 2) (length totalLen : CInt) :
    Window × Option CInt :=
  let head := shm.get dst .head
  if !shm.ready dst then (shm, none)
  else if !Sender.fits totalLen then (shm, none)
  else if Sender.full head (shm.get dst .tail) then (shm, none)
  else
    let charged := shm.storeAll dst [.totalLen (shm.get dst .totalLen + length),
      .status head .packetFreezing, .length head length, .head ((head + 1).srem 64)]
    (charged.store dst
      (.offset head (131072 * BitVec.ofNat 32 dst + charged.get dst (.pos head) * 2048)), some head)

/-- `info->head`, `info->total_len` and the status, length and offset of the slot at the head. -/
def charges (head : CInt) : List Word :=
  [.head, .totalLen, .status head, .length head, .offset head]

/-- `info->total_len + DESC_MAX_DMA_SIZE > AGENT_TOTAL_DMA_SIZE`, in `int` arithmetic. -/
def overCapacity (shm : Window) (dst : Fin 2) : Bool := !Sender.fits (shm.get dst .totalLen)

/-- The last field is about every word of both areas, where the head is that of a slot. -/
structure Admission (shm shm' : Window) (dst : Fin 2) (result : Option CInt) : Prop where
  refused : result = none ↔ shm.ready dst = false ∨
    Sender.full (shm.get dst .head) (shm.get dst .tail) = true ∨ overCapacity shm dst = true
  unchanged : result = none → shm' = shm
  slot : ∀ index, result = some index → index = shm.get dst .head ∧
    ∀ a, (∀ w ∈ charges index, w.address dst ≠ a) → shm' a = shm a
  fields : ∀ index, result = some index → index.toNat < maxDescNum → ∀ host (w : Word), w.Real →
    (host = dst → w ∉ charges index) → shm'.get host w = shm.get host w

/-- What `total_len` holds on entry decides as the byte count of the destination would. -/
def LocalAgrees (shm : Window) (dst : Fin 2) (totalLen : CInt) : Prop :=
  shm.ready dst = true → Sender.full (shm.get dst .head) (shm.get dst .tail) = false →
    Sender.fits totalLen = Sender.fits (shm.get dst .totalLen)

instance (shm : Window) (dst : Fin 2) (totalLen : CInt) :
    Decidable (LocalAgrees shm dst totalLen) :=
  inferInstanceAs (Decidable (_ → _ → _))

/-! ## Addresses -/

def Word.place : Word → Nat
  | .hostId => 0
  | .head => 4
  | .tail => 8
  | .totalLen => 12
  | .ready => 16
  | .pos index => 20 + 16 * index.toNat
  | .offset index => 20 + 16 * index.toNat + 4
  | .length index => 20 + 16 * index.toNat + 8
  | .status index => 20 + 16 * index.toNat + 12

private theorem Word.byteOffset_eq {w : Word} (real : w.Real) : w.byteOffset = w.place := by
  cases w with
  | hostId | head | tail | totalLen | ready => rfl
  | pos index | offset index | length index | status index =>
      have hindex : index.toNat < 64 := real
      simp only [byteOffset, place, sizeofPacketsInfo, sizeofPacketDesc]
      rw [BitVec.toInt_eq_toNat_of_lt (by omega)]
      omega

private theorem Word.place_lt {w : Word} (real : w.Real) : w.place < infoSize := by
  cases w with
  | hostId | head | tail | totalLen | ready => decide
  | pos index | offset index | length index | status index =>
      have hindex : index.toNat < 64 := real
      simp only [place, infoSize_eq]
      omega

private theorem Word.place_inj {w w' : Word} (same : w.place = w'.place) : w = w' := by
  cases w <;> cases w' <;> simp only [place] at same
  all_goals first
    | rfl
    | omega
    | exact congrArg _ (BitVec.eq_of_toNat_eq (by omega))

private theorem Word.address_inj {dst dst' : Fin 2} {w w' : Word} (real : w.Real) (real' : w'.Real)
    (same : w.address dst = w'.address dst') : dst = dst' ∧ w = w' := by
  have hw := place_lt real
  have hw' := place_lt real'
  rw [address, address, byteOffset_eq real, byteOffset_eq real'] at same
  rw [infoSize_eq] at same hw hw'
  have hdst : dst = dst' := Fin.ext (by omega)
  subst hdst
  exact ⟨rfl, place_inj (by omega)⟩

namespace Window

private theorem store_apply_ne (shm : Window) {dst : Fin 2} {s : Store} {a : Int}
    (h : s.word.address dst ≠ a) : shm.store dst s a = shm a :=
  Function.update_of_ne (Ne.symm h) _ shm

private theorem storeAll_apply_ne {dst : Fin 2} {stores : List Store} {a : Int}
    (h : ∀ s ∈ stores, s.word.address dst ≠ a) (shm : Window) :
    shm.storeAll dst stores a = shm a := by
  induction stores generalizing shm with
  | nil => rfl
  | cons s rest ih =>
      obtain ⟨hs, hrest⟩ := List.forall_mem_cons.mp h
      exact (ih hrest _).trans (store_apply_ne shm hs)

private theorem get_store (shm : Window) (dst : Fin 2) {s : Store} {w : Word} (store : s.word.Real)
    (real : w.Real) : (shm.store dst s).get dst w =
      if w = s.word then s.put (shm.get dst w) else shm.get dst w := by
  by_cases h : w = s.word
  · subst h
    rw [if_pos rfl]
    exact Function.update_self ..
  · rw [if_neg h]
    exact store_apply_ne shm fun heq => h (Word.address_inj store real heq).2.symm

end Window

/-! ## One call -/

section Call

variable (shm : Window) (dst : Fin 2) (length totalLen : CInt)

private theorem fetchPacketDescAt_none_iff :
    (fetchPacketDescAt shm dst length totalLen).2 = none ↔ shm.ready dst = false ∨
      Sender.full (shm.get dst .head) (shm.get dst .tail) = true ∨
        Sender.fits totalLen = false := by
  unfold fetchPacketDescAt
  by_cases hready : shm.ready dst = true
  · by_cases hfits : Sender.fits totalLen = true
    · by_cases hfull : Sender.full (shm.get dst .head) (shm.get dst .tail) = true
      · simp [hready, hfits, hfull]
      · simp [hready, hfits, hfull]
    · simp [hready, hfits]
  · simp [hready]

variable {shm dst length totalLen}

private theorem fetchPacketDescAt_unchanged
    (h : (fetchPacketDescAt shm dst length totalLen).2 = none) :
    (fetchPacketDescAt shm dst length totalLen).1 = shm := by
  unfold fetchPacketDescAt at h ⊢
  simp only at h ⊢
  split
  · rfl
  split
  · rfl
  split
  · rfl
  · next hready hfits hfull =>
      rw [if_neg hready, if_neg hfits, if_neg hfull] at h
      cases h

private theorem fetchPacketDescAt_slot {index : CInt}
    (h : (fetchPacketDescAt shm dst length totalLen).2 = some index) :
    index = shm.get dst .head ∧ ∀ a, (∀ w ∈ charges index, w.address dst ≠ a) →
      (fetchPacketDescAt shm dst length totalLen).1 a = shm a := by
  unfold fetchPacketDescAt at h ⊢
  simp only at h ⊢
  split at h
  · cases h
  split at h
  · cases h
  split at h
  · cases h
  next hready hfits hfull =>
  cases h
  refine ⟨rfl, fun a ha => ?_⟩
  simp only [charges, List.forall_mem_cons] at ha
  obtain ⟨hhead, htotal, hstatus, hlength, hoffset, -⟩ := ha
  rw [if_neg hready, if_neg hfits, if_neg hfull]
  refine (Window.store_apply_ne _ hoffset).trans (Window.storeAll_apply_ne ?_ shm)
  simp only [List.forall_mem_cons]
  exact ⟨htotal, hstatus, hlength, hhead, nofun⟩

private theorem fetchPacketDescAt_fields {index : CInt}
    (h : (fetchPacketDescAt shm dst length totalLen).2 = some index)
    (real : index.toNat < maxDescNum) {host : Fin 2} {w : Word} (word : w.Real)
    (other : host = dst → w ∉ charges index) :
    (fetchPacketDescAt shm dst length totalLen).1.get host w = shm.get host w := by
  refine (fetchPacketDescAt_slot h).2 _ fun charged hmem heq => ?_
  have hreal : charged.Real := by
    simp only [charges, List.mem_cons, List.not_mem_nil, or_false] at hmem
    rcases hmem with rfl | rfl | rfl | rfl | rfl
    · trivial
    · trivial
    · exact real
    · exact real
    · exact real
  obtain ⟨hhost, rfl⟩ := Word.address_inj hreal word heq
  exact other hhost.symm hmem

private theorem refused_iff_localAgrees (shm : Window) (dst : Fin 2) (length totalLen : CInt) :
    ((fetchPacketDescAt shm dst length totalLen).2 = none ↔ shm.ready dst = false ∨
      Sender.full (shm.get dst .head) (shm.get dst .tail) = true ∨
      overCapacity shm dst = true) ↔ LocalAgrees shm dst totalLen := by
  have hnone := fetchPacketDescAt_none_iff shm dst length totalLen
  constructor
  · intro h hready hfull
    have hboth := hnone.symm.trans h
    rw [hready, hfull, overCapacity] at hboth
    cases hlocal : Sender.fits totalLen <;>
      cases hshared : Sender.fits (shm.get dst .totalLen)
    · rfl
    · simp [hlocal, hshared] at hboth
    · simp [hlocal, hshared] at hboth
    · rfl
  · intro h
    refine hnone.trans ?_
    by_cases hready : shm.ready dst = true
    · by_cases hfull : Sender.full (shm.get dst .head) (shm.get dst .tail) = true
      · simp [hfull]
      · rw [h hready (Bool.eq_false_iff.mpr hfull), overCapacity, Bool.not_eq_true']
    · simp [Bool.eq_false_iff.mpr hready]

end Call

/-- The decision is the one of the shared state exactly when the local happens to agree with it. -/
theorem fetchPacketDesc_admission_iff (shm : Window) (dst : Fin 2) (length totalLen : CInt) :
    Admission shm (fetchPacketDescAt shm dst length totalLen).1 dst
        (fetchPacketDescAt shm dst length totalLen).2 ↔
      LocalAgrees shm dst totalLen := by
  constructor
  · intro h
    exact (refused_iff_localAgrees shm dst length totalLen).mp h.refused
  · intro h
    exact ⟨(refused_iff_localAgrees shm dst length totalLen).mpr h, fetchPacketDescAt_unchanged,
      fun _ => fetchPacketDescAt_slot,
      fun _ hsome real _ _ word other => fetchPacketDescAt_fields hsome real word other⟩

/-- One value of the local fits and another does not, so the decision is independent of it only
where it is not consulted. -/
theorem localAgrees_forall_iff (shm : Window) (dst : Fin 2) :
    (∀ totalLen, LocalAgrees shm dst totalLen) ↔
      shm.ready dst = false ∨ Sender.full (shm.get dst .head) (shm.get dst .tail) = true := by
  constructor
  · intro h
    by_contra hneither
    rw [not_or, Bool.not_eq_false, Bool.not_eq_true] at hneither
    obtain ⟨hready, hfull⟩ := hneither
    have hfits : Sender.fits 0 = Sender.fits 131072 :=
      (h 0 hready hfull).trans (h 131072 hready hfull).symm
    revert hfits
    decide
  · rintro (hready | hfull) totalLen hready' hfull'
    · rw [hready] at hready'
      cases hready'
    · rw [hfull] at hfull'
      cases hfull'

def readyWindow (dst : Fin 2) (totalLen : CInt) : Window := fun a =>
  if a = Word.ready.address dst then 1 else if a = Word.totalLen.address dst then totalLen else 0

/-- With an empty ring the packet is refused when the local holds 131072, and with a full data
area it is admitted when the local holds 0. -/
theorem stale_local_decides :
    (fetchPacketDescAt (readyWindow 1 0) 1 14 131072).2 = none ∧
      ¬ Admission (readyWindow 1 0) (fetchPacketDescAt (readyWindow 1 0) 1 14 131072).1 1
        (fetchPacketDescAt (readyWindow 1 0) 1 14 131072).2 ∧
      (fetchPacketDescAt (readyWindow 1 131072) 1 14 0).2 = some 0 ∧
      ¬ Admission (readyWindow 1 131072) (fetchPacketDescAt (readyWindow 1 131072) 1 14 0).1 1
        (fetchPacketDescAt (readyWindow 1 131072) 1 14 0).2 := by
  refine ⟨by decide +kernel, fun h => ?_, by decide +kernel, fun h => ?_⟩
  · have hrefused := h.refused.mp (by decide +kernel)
    revert hrefused
    decide +kernel
  · have hadmitted := h.refused.mpr (by decide +kernel)
    revert hadmitted
    decide +kernel

/-! ## The records of an area

The rings take an area for its two records; at the slots 0..63 that is what its
words say. -/

def PacketDescStatus.ofCode (word : CInt) : PacketDescStatus :=
  if word = 1 then .packetFreezing
  else if word = 2 then .packetSettled
  else if word = 3 then .packetReleased
  else .packetInit

private theorem PacketDescStatus.ofCode_code (status : PacketDescStatus) :
    ofCode status.code = status := by
  cases status <;> rfl

def Window.area (shm : Window) (dst : Fin 2) : InfoArea where
  info := ⟨shm.get dst .hostId, shm.get dst .head, shm.get dst .tail, shm.get dst .totalLen,
    shm.ready dst⟩
  desc := fun k => ⟨shm.get dst (.pos k), shm.get dst (.offset k), shm.get dst (.length k),
    .ofCode (shm.get dst (.status k))⟩

structure InfoArea.SameSlots (area area' : InfoArea) : Prop where
  info : area.info = area'.info
  desc : ∀ k : CInt, k.toNat < maxDescNum → area.desc k = area'.desc k

namespace InfoArea.SameSlots

variable {area area' area'' : InfoArea}

theorem refl (area : InfoArea) : SameSlots area area := ⟨rfl, fun _ _ => rfl⟩

theorem trans (h : SameSlots area area') (h' : SameSlots area' area'') : SameSlots area area'' :=
  ⟨h.info.trans h'.info, fun k real => (h.desc k real).trans (h'.desc k real)⟩

theorem store (h : SameSlots area area') (s : Store) :
    SameSlots (area.store s) (area'.store s) := by
  refine ⟨?_, fun k real => ?_⟩
  · cases s <;> simp [InfoArea.store, h.info]
  · by_cases hk : s.index = some k
    · have hdesc := h.desc k real
      cases s with
      | hostId | head | tail | totalLen | ready => cases hk
      | pos index value | offset index value | length index value | status index value =>
          cases hk
          simp [InfoArea.store, hdesc]
    · rw [store_desc area hk, store_desc area' hk, h.desc k real]

end InfoArea.SameSlots

private theorem Window.ready_store (shm : Window) (dst : Fin 2) {s : Store} (store : s.word.Real) :
    (shm.store dst s).ready dst = ((shm.area dst).store s).info.ready := by
  rw [Window.ready, get_store shm dst store (w := .ready) trivial]
  cases s with
  | ready value =>
      simp only [Store.word, Store.put, InfoArea.store, if_true]
      have hlow : (shm.get dst .ready &&& 0xffffff00 ||| if value then 1 else 0).setWidth 8 =
          if value then (1 : BitVec 8) else 0 := by
        have hmask : (0xffffff00 : CInt).setWidth 8 = 0 := by decide
        rw [BitVec.setWidth_or, BitVec.setWidth_and, hmask]
        cases value <;> simp
      rw [hlow]
      cases value <;> decide
  | hostId | head | tail | totalLen | pos | offset | length | status =>
      simp only [Store.word, reduceCtorEq, if_false]
      rfl

private theorem Window.area_store (shm : Window) (dst : Fin 2) {s : Store} (store : s.word.Real) :
    ((shm.store dst s).area dst).SameSlots ((shm.area dst).store s) := by
  have hget {w : Word} (real : w.Real) := get_store shm dst store real
  refine ⟨?_, fun k real => ?_⟩
  · have hready := shm.ready_store dst store
    simp only [Window.area]
    rw [hready, hget (w := .hostId) trivial, hget (w := .head) trivial, hget (w := .tail) trivial,
      hget (w := .totalLen) trivial]
    cases s <;> rfl
  · simp only [Window.area]
    rw [hget (w := .pos k) real, hget (w := .offset k) real, hget (w := .length k) real,
      hget (w := .status k) real]
    by_cases hk : s.index = some k
    · cases s with
      | hostId | head | tail | totalLen | ready => cases hk
      | pos index value | offset index value | length index value | status index value =>
          cases hk
          simp [Store.word, Store.put, InfoArea.store, PacketDescStatus.ofCode_code]
    · rw [InfoArea.store_desc _ hk]
      cases s with
      | hostId | head | tail | totalLen | ready => rfl
      | pos index value | offset index value | length index value | status index value =>
          have hne : k ≠ index := fun heq => hk (congrArg some heq.symm)
          simp [Store.word, hne]

private theorem Window.area_storeAll {dst : Fin 2} {stores : List Store}
    (real : ∀ s ∈ stores, s.word.Real) (shm : Window) {area : InfoArea}
    (same : (shm.area dst).SameSlots area) :
    ((shm.storeAll dst stores).area dst).SameSlots (area.storeAll stores) := by
  induction stores generalizing shm area with
  | nil => exact same
  | cons s rest ih =>
      obtain ⟨hs, hrest⟩ := List.forall_mem_cons.mp real
      exact ih hrest _ ((shm.area_store dst hs).trans (same.store s))

/-- With a head in 0..63 the call on the words is the one on the records. -/
theorem fetchPacketDescAt_area (shm : Window) (dst : Fin 2) (length totalLen : CInt)
    (real : (shm.get dst .head).toNat < maxDescNum) :
    (fetchPacketDescAt shm dst length totalLen).2 =
        (fetchPacketDesc (shm.area dst) (BitVec.ofNat 32 dst) length totalLen).2 ∧
      ((fetchPacketDescAt shm dst length totalLen).1.area dst).SameSlots
        (fetchPacketDesc (shm.area dst) (BitVec.ofNat 32 dst) length totalLen).1 := by
  have hready : (shm.area dst).info.ready = shm.ready dst := rfl
  have hhead : (shm.area dst).info.head = shm.get dst .head := rfl
  have htail : (shm.area dst).info.tail = shm.get dst .tail := rfl
  unfold fetchPacketDescAt fetchPacketDesc
  simp only [hready, hhead, htail]
  split
  · exact ⟨rfl, .refl _⟩
  split
  · exact ⟨rfl, .refl _⟩
  split
  · exact ⟨rfl, .refl _⟩
  · refine ⟨rfl, ?_⟩
    have hcharges : ∀ s ∈ [Store.totalLen (shm.get dst .totalLen + length),
        .status (shm.get dst .head) .packetFreezing, .length (shm.get dst .head) length,
        .head ((shm.get dst .head + 1).srem 64)], s.word.Real := by
      simp only [List.forall_mem_cons]
      exact ⟨trivial, real, real, trivial, nofun⟩
    have hcharged := Window.area_storeAll hcharges shm (.refl (shm.area dst))
    have hpos := congrArg PacketDesc.pos (hcharged.desc _ real)
    refine (Window.area_store _ dst (s := .offset _ _) real).trans ?_
    simp only [Window.area] at hpos
    rw [hpos]
    exact hcharged.store _

end NupaNet.Ring
