import NupaNet.Ring.Layout

/-!
# Setting up and clearing an INFO area

`adapter_info_init` and the clearing part of `adapter_free` are straight-line
sequences of stores to the owner's area.  They are given as the list of those
stores in program order, a `memset` word by word, so that other hosts can move
between any two of them.
-/

namespace NupaNet.Ring

def memsetInfo : List Store :=
  [Word.hostId, .head, .tail, .totalLen, .ready].map Word.zero

def memsetDesc (index : CInt) : List Store :=
  [Word.pos index, .offset index, .length index, .status index].map Word.zero

def memsetDescs : List Store :=
  (List.range maxDescNum).flatMap fun i => memsetDesc (BitVec.ofNat 32 i)

/-- The `memset` of `adapter_free`, and the first one of `adapter_info_init`. -/
def memsetArea : List Store := memsetInfo ++ memsetDescs

def posStores : List Store :=
  (List.range maxDescNum).map fun i => .pos (BitVec.ofNat 32 i) (BitVec.ofNat 32 i)

/-- Ends with the descriptors; `info->ready` is stored before them. -/
def adapterInfoInit (hostId : CInt) : List Store :=
  memsetArea ++ [.tail 0, .head 0, .ready true, .hostId hostId] ++ memsetDescs ++ posStores

namespace InfoArea

def storeAll (area : InfoArea) (stores : List Store) : InfoArea :=
  stores.foldl store area

@[simp] theorem storeAll_nil (area : InfoArea) : area.storeAll [] = area := rfl

@[simp] theorem storeAll_cons (area : InfoArea) (s : Store) (stores : List Store) :
    area.storeAll (s :: stores) = (area.store s).storeAll stores := rfl

@[simp] theorem storeAll_append (area : InfoArea) (first second : List Store) :
    area.storeAll (first ++ second) = (area.storeAll first).storeAll second :=
  List.foldl_append

private theorem memsetDesc_info (area : InfoArea) (index : CInt) :
    (area.storeAll (memsetDesc index)).info = area.info := rfl

private theorem memsetDesc_desc (area : InfoArea) (index other : CInt) :
    (area.storeAll (memsetDesc index)).desc other =
      if other = index then ⟨0, 0, 0, .packetInit⟩ else area.desc other := by
  by_cases h : other = index
  · subst h
    simp [memsetDesc, Word.zero, store]
  · simp [memsetDesc, Word.zero, store, modifyDesc_ne, h]

end InfoArea

def descAt (area : InfoArea) (i : Nat) : PacketDesc := area.desc (BitVec.ofNat 32 i)

private theorem index_ne {i j : Nat} (hi : i < 64) (hj : j < 64) (h : i ≠ j) :
    BitVec.ofNat 32 i ≠ BitVec.ofNat 32 j := by
  intro heq
  have hval := congrArg BitVec.toNat heq
  simp only [BitVec.toNat_ofNat] at hval
  omega

private theorem memsetDescs_upto (area : InfoArea) (n : Nat) (hn : n ≤ 64) :
    let cleared := area.storeAll
      ((List.range n).flatMap fun i => memsetDesc (BitVec.ofNat 32 i))
    cleared.info = area.info ∧ ∀ i < n, descAt cleared i = ⟨0, 0, 0, .packetInit⟩ := by
  induction n with
  | zero => simp
  | succ n ih =>
      obtain ⟨hinfo, hdesc⟩ := ih (by omega)
      simp only [List.range_succ, List.flatMap_append, List.flatMap_cons, List.flatMap_nil,
        List.append_nil, InfoArea.storeAll_append]
      refine ⟨by rw [InfoArea.memsetDesc_info, hinfo], fun i hi => ?_⟩
      rw [descAt, InfoArea.memsetDesc_desc]
      split
      · rfl
      · next hne =>
          refine hdesc i ?_
          have : i ≠ n := fun h => hne (by rw [h])
          omega

private theorem posStores_upto (area : InfoArea) (n : Nat) (hn : n ≤ 64) :
    let numbered := area.storeAll
      ((List.range n).map fun i => .pos (BitVec.ofNat 32 i) (BitVec.ofNat 32 i))
    numbered.info = area.info ∧
      (∀ i < n, descAt numbered i = { descAt area i with pos := BitVec.ofNat 32 i }) ∧
      ∀ i, n ≤ i → i < 64 → descAt numbered i = descAt area i := by
  induction n with
  | zero => simp
  | succ n ih =>
      obtain ⟨hinfo, hbelow, habove⟩ := ih (by omega)
      simp only [List.range_succ, List.map_append, List.map_cons, List.map_nil,
        InfoArea.storeAll_append, InfoArea.storeAll_cons, InfoArea.storeAll_nil, InfoArea.store]
      refine ⟨by rw [InfoArea.modifyDesc_info, hinfo], fun i hi => ?_, fun i hle hlt => ?_⟩
      · by_cases h : i = n
        · subst h
          have hold := habove i (Nat.le_refl i) (by omega)
          simp only [descAt, InfoArea.modifyDesc_same] at hold ⊢
          rw [hold]
        · rw [descAt, InfoArea.modifyDesc_ne _ _ (index_ne (by omega) (by omega) h)]
          exact hbelow i (by omega)
      · rw [descAt, InfoArea.modifyDesc_ne _ _ (index_ne hlt (by omega) (by omega))]
        exact habove i (by omega) hlt

theorem memsetDescs_info (area : InfoArea) : (area.storeAll memsetDescs).info = area.info :=
  (memsetDescs_upto area 64 (Nat.le_refl 64)).1

structure Initialised (area : InfoArea) : Prop where
  ready : area.info.ready = true
  head : area.info.head = 0
  tail : area.info.tail = 0
  desc : ∀ i < maxDescNum, descAt area i = ⟨BitVec.ofNat 32 i, 0, 0, .packetInit⟩

theorem adapterInfoInit_info (area : InfoArea) (hostId : CInt) :
    (area.storeAll (adapterInfoInit hostId)).info = ⟨hostId, 0, 0, 0, true⟩ := by
  have hpos : ∀ start : InfoArea, (start.storeAll posStores).info = start.info := fun start =>
    (posStores_upto start 64 (Nat.le_refl 64)).1
  rw [adapterInfoInit, memsetArea]
  simp only [InfoArea.storeAll_append, hpos, memsetDescs_info]
  rw [InfoArea.storeAll_cons, InfoArea.storeAll_cons, InfoArea.storeAll_cons,
    InfoArea.storeAll_cons, InfoArea.storeAll_nil]
  simp only [InfoArea.store, memsetDescs_info]
  rfl

theorem adapterInfoInit_initialised (area : InfoArea) (hostId : CInt) :
    Initialised (area.storeAll (adapterInfoInit hostId)) := by
  have hinfo := adapterInfoInit_info area hostId
  refine ⟨by rw [hinfo], by rw [hinfo], by rw [hinfo], fun i hi => ?_⟩
  simp only [adapterInfoInit, InfoArea.storeAll_append]
  generalize ((area.storeAll memsetArea).storeAll
    [.tail 0, .head 0, .ready true, .hostId hostId]) = start
  obtain ⟨-, hzero⟩ := memsetDescs_upto start 64 (Nat.le_refl 64)
  obtain ⟨-, hpos, -⟩ := posStores_upto (start.storeAll memsetDescs) 64 (Nat.le_refl 64)
  exact (hpos i hi).trans (by rw [show descAt (start.storeAll memsetDescs) i = _ from hzero i hi])

private theorem mem_memsetDescs {st : Store} (h : st ∈ memsetDescs) : ∃ k, st.index = some k := by
  simp only [memsetDescs, List.mem_flatMap, memsetDesc, List.mem_map] at h
  obtain ⟨i, -, w, hw, rfl⟩ := h
  simp only [List.mem_cons, List.not_mem_nil, or_false] at hw
  rcases hw with rfl | rfl | rfl | rfl <;> exact ⟨_, rfl⟩

theorem adapterInfoInit_cases {hostId : CInt} {st : Store} (h : st ∈ adapterInfoInit hostId) :
    (∃ k, st.index = some k) ∨ st = .head 0 ∨ st = .tail 0 ∨ st = .totalLen 0 ∨
      (∃ v, st = .ready v) ∨ ∃ v, st = .hostId v := by
  simp only [adapterInfoInit, memsetArea, List.mem_append] at h
  rcases h with (((h | h) | h) | h) | h
  · simp only [memsetInfo, List.map_cons, List.map_nil, List.mem_cons, List.not_mem_nil,
      or_false] at h
    rcases h with rfl | rfl | rfl | rfl | rfl <;> simp [Word.zero]
  · exact .inl (mem_memsetDescs h)
  · simp only [List.mem_cons, List.not_mem_nil, or_false] at h
    rcases h with rfl | rfl | rfl | rfl <;> simp
  · exact .inl (mem_memsetDescs h)
  · simp only [posStores, List.mem_map] at h
    obtain ⟨i, -, rfl⟩ := h
    exact .inl ⟨_, rfl⟩

theorem mem_adapterInfoInit_of_mem_memsetArea {hostId : CInt} {st : Store} (h : st ∈ memsetArea) :
    st ∈ adapterInfoInit hostId := by
  simp only [adapterInfoInit, List.mem_append]
  exact .inl (.inl (.inl h))

end NupaNet.Ring
