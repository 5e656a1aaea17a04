import NupaNet.Ring.Delivery
import NupaNet.Ring.Routing

/-!
# Publishing an initialised area

`adapter_info_init` runs on one host while another host may already be sending
to the area.  The flag `info->ready` is stored before the descriptors are
cleared and numbered, so a sender that sees it in between works on descriptors
that are about to be overwritten.  While no sender loads the flag in that
window, every sender finds the area as the whole sequence of stores leaves it.
-/

namespace NupaNet.Ring

open NupaNet.Foundation

/-- An area under initialisation, with the stores that are still to come and one sender.
`written` are the descriptors whose status the sender has stored. -/
structure InitRing where
  area : InfoArea
  dev : Memory
  pending : List Store
  sender : Sender
  written : List CInt

inductive InitAct where
  | init
  | xmit (holdIcCtl : Bool) (skb : Skb)
  | send (env : SendEnv)

namespace InitRing

def freezes : Sender → Option CInt
  | .storeFreezing _ head => some head
  | _ => none

def step (hostId dst : CInt) (s : InitRing) : InitAct → Option InitRing
  | .init =>
      match s.pending with
      | [] => none
      | st :: rest => some { s with area := s.area.store st, pending := rest }
  | .xmit holdIcCtl skb =>
      match s.sender with
      | .idle =>
          match xmitTarget hostId holdIcCtl skb with
          | none => some s
          | some target =>
              if target = dst then some { s with sender := Sender.xmitFrame hostId holdIcCtl skb }
              else none
      | _ => none
  | .send env =>
      (Sender.step ⟨s.area, s.dev⟩ env s.sender).map fun p =>
        { s with
          area := p.1.area
          dev := p.1.dev
          sender := p.2
          written := s.written ++ (freezes s.sender).toList }

def start (d : Fin 2) (dev : Memory) : InitRing where
  area := zeroArea
  dev := dev
  pending := adapterInfoInit (BitVec.ofNat 32 d.val)
  sender := .idle
  written := []

/-- The step does not load `info->ready` as true while stores of the initialisation are to come. -/
def readyLoadOk (s : InitRing) : InitAct → Bool
  | .send _ =>
      match s.sender with
      | .loadReady _ _ _ => !s.area.info.ready || s.pending.isEmpty
      | _ => true
  | _ => true

/-- The descriptor that the sender has been given is numbered and has its offset, and what the
sender wrote to descriptors is not overwritten by the rest of the initialisation. -/
structure Published (d : Nat) (s : InitRing) : Prop where
  given : ∀ k, s.sender.inFlight = some k → ∃ i < maxDescNum, k = BitVec.ofNat 32 i ∧
    (s.area.desc k).pos = BitVec.ofNat 32 i ∧
    (s.area.desc k).offset = BitVec.ofNat 32 (agentTotalDmaSize * d + i * descMaxDmaSize)
  kept : ∀ st ∈ s.pending, ∀ k ∈ s.written,
    st.word ≠ .status k ∧ st.word ≠ .length k ∧ st.word ≠ .offset k

end InitRing

/-! ## Before the last store -/

def Sender.Early (d : Nat) : Sender → Prop
  | .idle => True
  | .loadHead c => Fits d c
  | .loadTail c head | .loadReady c head _ => Fits d c ∧ head = 0
  | _ => False

theorem Sender.Early.bounded {d : Nat} {s : Sender} (h : s.Early d) (area : InfoArea) :
    s.Bounded d area := by
  cases s with
  | idle => trivial
  | loadHead c => exact h
  | loadTail c head | loadReady c head tail => exact ⟨h.1, 0, h.2⟩
  | _ => exact h.elim

private theorem adapterInfoInit_head {hostId : CInt} {st : Store} (h : st ∈ adapterInfoInit hostId)
    {area : InfoArea} (hhead : area.info.head = 0) : (area.store st).info.head = 0 := by
  rcases adapterInfoInit_cases h with ⟨k, hk⟩ | rfl | rfl | rfl | ⟨v, rfl⟩ | ⟨v, rfl⟩
  · rw [area.store_info hk]
    exact hhead
  · rfl
  · exact hhead
  · exact hhead
  · exact hhead
  · exact hhead

/-! ## The invariant -/

structure InitRing.Inv (d : Fin 2) (s : InitRing) : Prop where
  done : ∃ stores, stores ++ s.pending = adapterInfoInit (BitVec.ofNat 32 d.val) ∧
    (s.pending ≠ [] → s.area = zeroArea.storeAll stores)
  early : s.pending ≠ [] → s.area.info.head = 0 ∧ s.sender.Early d.val ∧ s.written = []
  late : s.pending = [] → AreaBounds s.area ∧ s.sender.Bounded d.val s.area

namespace InitRing

variable {d : Fin 2} {s s' : InitRing}

theorem inv_start (dev : Memory) : (InitRing.start d dev).Inv d where
  done := ⟨[], rfl, fun _ => rfl⟩
  early := fun _ => ⟨rfl, trivial, rfl⟩
  late := by
    intro h
    simp [start, adapterInfoInit, memsetArea, memsetInfo] at h

theorem Inv.init {st : Store} {rest : List Store} (h : s.Inv d) (hp : s.pending = st :: rest) :
    Inv d { s with area := s.area.store st, pending := rest } := by
  obtain ⟨stores, happ, harea⟩ := h.done
  have hne : s.pending ≠ [] := by
    rw [hp]
    exact List.cons_ne_nil _ _
  obtain ⟨hhead, hearly, hwritten⟩ := h.early hne
  have hmem : st ∈ adapterInfoInit (BitVec.ofNat 32 d.val) := by
    rw [← happ, hp]
    simp
  have harea' : s.area.store st = zeroArea.storeAll (stores ++ [st]) := by
    rw [harea hne]
    simp
  have happ' : stores ++ [st] ++ rest = adapterInfoInit (BitVec.ofNat 32 d.val) := by
    rw [← happ, hp]
    simp
  refine ⟨⟨stores ++ [st], happ', fun _ => harea'⟩, ?_, ?_⟩
  · intro _
    exact ⟨adapterInfoInit_head hmem hhead, hearly, hwritten⟩
  · intro hrest
    simp only at hrest
    rw [hrest, List.append_nil] at happ'
    have hinit : Initialised (s.area.store st) := by
      rw [harea', happ']
      exact adapterInfoInit_initialised zeroArea (BitVec.ofNat 32 d.val)
    exact ⟨areaBounds_of_initialised hinit, hearly.bounded _⟩

theorem Early.step {m m' : Shm} {env : SendEnv} {t t' : Sender} (h : t.Early d.val)
    (hhead : m.area.info.head = 0)
    (hready : ∀ c head tail, t = .loadReady c head tail → m.area.info.ready = false)
    (hs : t.step m env = some (m', t')) : m' = m ∧ t'.Early d.val ∧ freezes t = none := by
  cases t with
  | idle => cases hs
  | loadHead c =>
      cases hs
      exact ⟨rfl, ⟨h, hhead⟩, rfl⟩
  | loadTail c head =>
      cases hs
      exact ⟨rfl, h, rfl⟩
  | loadReady c head tail =>
      simp only [Sender.step, hready c head tail rfl] at hs
      cases hs
      exact ⟨rfl, trivial, rfl⟩
  | _ => exact h.elim

theorem Inv.send {env : SendEnv} {m : Shm} {t : Sender} (h : s.Inv d)
    (hok : s.readyLoadOk (.send env) = true)
    (hs : Sender.step ⟨s.area, s.dev⟩ env s.sender = some (m, t)) :
    Inv d { s with
      area := m.area
      dev := m.dev
      sender := t
      written := s.written ++ (freezes s.sender).toList } := by
  obtain ⟨stores, happ, harea⟩ := h.done
  by_cases hne : s.pending = []
  · obtain ⟨hbounds, hsender⟩ := h.late hne
    obtain ⟨hstore, hsender'⟩ := hsender.step hbounds hs
    refine ⟨⟨stores, happ, fun hp => absurd hne hp⟩, fun hp => absurd hne hp, fun _ => ⟨?_, hsender'⟩⟩
    rcases hstore with hsame | ⟨st, hst, hsame⟩
    · exact hsame ▸ hbounds
    · exact hsame ▸ hbounds.store hst
  · obtain ⟨hhead, hearly, hwritten⟩ := h.early hne
    have hready : ∀ c head tail, s.sender = .loadReady c head tail → s.area.info.ready = false := by
      intro c head tail hpc
      simpa [readyLoadOk, hpc, hne] using hok
    obtain ⟨rfl, hearly', hfreezes⟩ := Early.step hearly hhead hready hs
    refine ⟨⟨stores, happ, harea⟩, fun _ => ⟨hhead, hearly', ?_⟩, fun hp => absurd hp hne⟩
    simp [hwritten, hfreezes]

theorem Inv.xmit {hostId : CInt} {hold : Bool} {skb : Skb} (h : s.Inv d)
    (htarget : xmitTarget hostId hold skb = some (BitVec.ofNat 32 d.val)) :
    Inv d { s with sender := Sender.xmitFrame hostId hold skb } := by
  have hfits : Sender.Fits d.val ⟨BitVec.ofNat 32 d.val, skb⟩ := ⟨rfl, xmitTarget_fits htarget⟩
  rw [xmitFrame_of_target d.isLt htarget]
  refine ⟨h.done, fun hp => ?_, fun hp => ?_⟩
  · obtain ⟨hhead, -, hwritten⟩ := h.early hp
    exact ⟨hhead, hfits, hwritten⟩
  · obtain ⟨hbounds, -⟩ := h.late hp
    exact ⟨hbounds, hfits⟩

theorem Inv.step {hostId : CInt} {a : InitAct} (h : s.Inv d) (hok : s.readyLoadOk a = true)
    (hs : InitRing.step hostId (BitVec.ofNat 32 d.val) s a = some s') : s'.Inv d := by
  cases a with
  | init =>
      simp only [InitRing.step] at hs
      split at hs
      · cases hs
      · next st rest hp =>
          cases hs
          exact h.init hp
  | xmit hold skb =>
      simp only [InitRing.step] at hs
      split at hs
      · split at hs
        · cases hs
          exact h
        · next target htarget =>
            split at hs
            · next heq =>
                subst heq
                cases hs
                exact h.xmit htarget
            · cases hs
      · cases hs
  | send env =>
      simp only [InitRing.step, Option.map_eq_some_iff] at hs
      obtain ⟨⟨m, t⟩, hstep, rfl⟩ := hs
      exact h.send hok hstep

theorem Inv.published (h : s.Inv d) : Published d.val s where
  given := by
    intro k hk
    by_cases hp : s.pending = []
    · obtain ⟨hbounds, hsender⟩ := h.late hp
      have hslot : ∃ n, k = slot n ∧
          (s.area.desc k).offset = BitVec.ofNat 32 (blockBase d.val n) := by
        cases hpc : s.sender with
        | loadOffset c head | sendLoadOffset c head | storeSettled c head | oops c head =>
            rw [hpc] at hk hsender
            cases hk
            exact hsender.2
        | sendLoadLength c head offset | transfer c head offset length =>
            rw [hpc] at hk hsender
            cases hk
            obtain ⟨-, n, hslot, hoffset, -⟩ := hsender
            exact ⟨n, hslot, hoffset⟩
        | _ =>
            rw [hpc] at hk
            cases hk
      obtain ⟨n, rfl, hoffset⟩ := hslot
      exact ⟨n % 64, Nat.mod_lt _ (by decide), rfl, hbounds.pos n, hoffset⟩
    · obtain ⟨-, hearly, -⟩ := h.early hp
      cases hpc : s.sender with
      | idle | loadHead c | loadTail c head | loadReady c head tail =>
          rw [hpc] at hk
          cases hk
      | _ =>
          rw [hpc] at hearly
          exact hearly.elim
  kept := by
    intro st hst k hk
    have hp : s.pending ≠ [] := List.ne_nil_of_mem hst
    obtain ⟨-, -, hwritten⟩ := h.early hp
    rw [hwritten] at hk
    cases hk

end InitRing

/-! ## Main results -/

/-- In every interleaving in which no sender loads `info->ready` between its store and the last
store of the initialisation, descriptors are obtained initialised for good. -/
theorem published_of_readyLoadOk {d : Fin 2} {hostId : CInt} {dev : Memory} {as : List InitAct}
    {s : InitRing}
    (run : Runs (InitRing.step hostId (BitVec.ofNat 32 d.val))
      (fun s a => s.readyLoadOk a = true) (InitRing.start d dev) as s) :
    InitRing.Published d.val s := by
  have hinv : s.Inv d := by
    refine run.invariant (P := fun s => s.Inv d) ?_ (InitRing.inv_start dev)
    intro s a t h hok hs
    exact h.step hok hs
  exact hinv.published

theorem published_after_init :
    ∃ as s, Runs (InitRing.step 1 0) (fun s a => s.readyLoadOk a = true)
        (InitRing.start 0 fun _ => 0) as s ∧
      s.sender.inFlight = some 0 ∧ InitRing.Published 0 s := by
  have hexec : (exec (guarded (InitRing.step 1 0) InitRing.readyLoadOk)
      (InitRing.start 0 fun _ => 0)
      (List.replicate 585 .init ++
        .xmit false sampleSkb :: List.replicate 10 (.send ⟨0, true, Dma.full 14⟩))).map
        (fun s => s.sender.inFlight) = some (some 0) := by
    decide +kernel
  obtain ⟨s, hs, hgiven⟩ := Option.map_eq_some_iff.mp hexec
  have hrun := runs_of_guarded hs
  exact ⟨_, s, hrun, hgiven, published_of_readyLoadOk (d := 0) hrun⟩

/-- With the owner stopped right after its store of `info->ready`, the second frame gets
descriptor 1 with the block of descriptor 0. -/
theorem early_ready_not_published :
    ∃ as s, Runs (InitRing.step 1 0) Any (InitRing.start 0 fun _ => 0) as s ∧
      ¬ InitRing.Published 0 s := by
  have hexec : (exec (InitRing.step 1 0) (InitRing.start 0 fun _ => 0)
      (List.replicate 264 .init ++
        (.xmit false sampleSkb :: List.replicate 15 (.send ⟨0, true, Dma.full 14⟩)) ++
        .xmit false sampleSkb :: List.replicate 10 (.send ⟨0, true, Dma.full 14⟩))).map
        (fun s => (s.sender.inFlight, (s.area.desc 1).pos)) = some (some 1, 0) := by
    decide +kernel
  obtain ⟨s, hs, hobs⟩ := Option.map_eq_some_iff.mp hexec
  simp only [Prod.mk.injEq] at hobs
  refine ⟨_, s, runs_of_exec hs, fun hpub => ?_⟩
  obtain ⟨i, hi, hk, hpos, -⟩ := hpub.given 1 hobs.1
  rw [hobs.2, ← hk] at hpos
  exact absurd hpos (by decide)

end NupaNet.Ring
