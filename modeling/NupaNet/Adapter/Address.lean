import NupaNet.Foundation.Run
import NupaNet.Ring.Sender

/-!
# The addresses of several adapters

`nupanet_set_mac` keeps the address in a buffer that is static to the function
and lets `netdev->dev_addr` point to it, so all adapters of one kernel share
six bytes.  The state is that buffer with the registered adapters, and a call of
`probe_one` or of `ndo_set_mac_address` is one action.
-/

namespace NupaNet.Adapter

open NupaNet.Foundation
open NupaNet.Ring

def deviceIdToHostId (devId : CInt) : BitVec 8 := ((devId.sshiftRight 8) &&& 0xf).setWidth 8

structure PciDev where
  device : BitVec 16
  deriving DecidableEq, Repr

/-- The device numbers of `pci_ids`. -/
def pciIds : List (BitVec 16) := [0x9048, 0x9148]

namespace PciDev

def hostIdByte (pdev : PciDev) : BitVec 8 := deviceIdToHostId (pdev.device.setWidth 32)

def hostId (pdev : PciDev) : CInt := pdev.hostIdByte.signExtend 32

end PciDev

/-- Where `netdev->dev_addr` points: to the storage of the `net_device`, as `alloc_etherdev`
leaves it, or to the buffer of `nupanet_set_mac`. -/
inductive DevAddr where
  | own
  | setMacBuffer
  deriving DecidableEq, Repr

structure Netdev where
  parent : PciDev
  hostId : CInt
  devAddr : DevAddr
  deriving DecidableEq, Repr

structure Kernel where
  macAddr : Nat → UInt8
  registered : List Netdev

inductive AddressCall where
  | probe (pdev : PciDev)
  | setMacAddress (i : Nat)
  deriving DecidableEq, Repr

def defaultBaseMacAddr (k : Nat) : UInt8 := [0xfc, 0xaf, 0xac, 0x00, 0x00, 0x00].getD k 0

namespace Kernel

def boot : Kernel := ⟨defaultBaseMacAddr, []⟩

/-- The bytes a netdev's `dev_addr` stands for; `alloc_etherdev` zeroes its own storage. -/
def addrOf (s : Kernel) (netdev : Netdev) : Nat → UInt8 :=
  match netdev.devAddr with
  | .own => fun _ => 0
  | .setMacBuffer => s.macAddr

/-- The `sockaddr` that the caller passes is not looked at. -/
def nupanetSetMac (s : Kernel) (netdev : Netdev) : Kernel × Netdev :=
  ({ s with macAddr := Function.update s.macAddr 5 ⟨netdev.parent.hostIdByte⟩ },
    { netdev with devAddr := .setMacBuffer })

def step (s : Kernel) : AddressCall → Option Kernel
  | .probe pdev =>
      -- `BUG_ON(host_id >= MAX_AGENT_NUM)` in `adapter_info_init`
      if (2 : CInt).sle pdev.hostId then none
      else
        let out := s.nupanetSetMac ⟨pdev, pdev.hostId, .own⟩
        some { out.1 with registered := out.1.registered ++ [out.2] }
  | .setMacAddress i =>
      s.registered[i]?.map fun netdev =>
        let out := s.nupanetSetMac netdev
        { out.1 with registered := out.1.registered.set i out.2 }

end Kernel

/-- A frame for the adapter's address goes to the ring that the adapter polls, whichever host
sends it. -/
def RoutedTo (s : Kernel) (netdev : Netdev) : Prop :=
  ∀ (sender : CInt) (skb : Skb), (∀ k < 6, skb.destMac k = s.addrOf netdev k) →
    xmitDstId sender skb = netdev.hostId

structure OwnsAddress (s : Kernel) (netdev : Netdev) : Prop where
  lastByte : ((s.addrOf netdev 5).toNat : Int) = netdev.hostId.toInt
  routed : RoutedTo s netdev

def AddressesKept (s : Kernel) : Prop := ∀ netdev ∈ s.registered, OwnsAddress s netdev

/-- The device of the call has the host id of every adapter registered so far. -/
def SameHostId (s : Kernel) : AddressCall → Prop
  | .probe pdev => ∀ netdev ∈ s.registered, netdev.hostId = pdev.hostId
  | .setMacAddress i => ∀ mover ∈ s.registered[i]?, ∀ netdev ∈ s.registered,
      netdev.hostId = mover.hostId

/-! ## What every state has -/

structure KernelInv (s : Kernel) : Prop where
  base : ∀ k < 5, s.macAddr k = defaultBaseMacAddr k
  shared : ∀ netdev ∈ s.registered, netdev.devAddr = .setMacBuffer
  hostId : ∀ netdev ∈ s.registered, netdev.hostId = netdev.parent.hostId

private theorem kernelInv_boot : KernelInv Kernel.boot where
  base := fun _ _ => rfl
  shared := nofun
  hostId := nofun

private theorem KernelInv.step_cases {s t : Kernel} {a : AddressCall} (h : KernelInv s)
    (hs : s.step a = some t) :
    ∃ mover : PciDev, t.macAddr = Function.update s.macAddr 5 ⟨mover.hostIdByte⟩ ∧
      (∀ netdev ∈ t.registered,
        netdev.devAddr = .setMacBuffer ∧ netdev.hostId = netdev.parent.hostId) ∧
      (SameHostId s a ↔ ∀ netdev ∈ t.registered, netdev.hostId = mover.hostId) := by
  cases a with
  | probe pdev =>
      simp only [Kernel.step] at hs
      split at hs
      · cases hs
      · cases hs
        refine ⟨pdev, rfl, fun netdev hmem => ?_, ?_⟩
        · rcases List.mem_append.mp hmem with hold | hnew
          · exact ⟨h.shared netdev hold, h.hostId netdev hold⟩
          · obtain rfl := List.mem_singleton.mp hnew
            exact ⟨rfl, rfl⟩
        · simp [SameHostId, Kernel.nupanetSetMac, or_imp, forall_and]
  | setMacAddress i =>
      simp only [Kernel.step, Option.map_eq_some_iff] at hs
      obtain ⟨netdev, hget, rfl⟩ := hs
      have hmem : netdev ∈ s.registered := List.mem_of_getElem? hget
      obtain ⟨hi, hat⟩ := List.getElem?_eq_some_iff.mp hget
      -- the adapter already points to the buffer, so only the buffer changes
      have hsame : s.registered.set i { netdev with devAddr := .setMacBuffer } = s.registered := by
        have hself : { netdev with devAddr := .setMacBuffer } = netdev := by
          rw [← h.shared netdev hmem]
        rw [hself, ← hat, List.set_getElem_self]
      refine ⟨netdev.parent, rfl, ?_, ?_⟩
      · simp only [Kernel.nupanetSetMac, hsame]
        exact fun other hother => ⟨h.shared other hother, h.hostId other hother⟩
      · simp only [Kernel.nupanetSetMac, hsame]
        simp only [SameHostId, hget, Option.mem_some_iff, forall_eq', h.hostId netdev hmem]

theorem KernelInv.step {s t : Kernel} {a : AddressCall} (h : KernelInv s)
    (hs : s.step a = some t) : KernelInv t := by
  obtain ⟨mover, hmac, hnetdevs, -⟩ := h.step_cases hs
  refine ⟨fun k hk => ?_, fun netdev hmem => (hnetdevs netdev hmem).1,
    fun netdev hmem => (hnetdevs netdev hmem).2⟩
  have hne : k ≠ 5 := by omega
  rw [hmac, Function.update_of_ne hne]
  exact h.base k hk

/-! ## Owning the shared bytes -/

private theorem hostIdByte_lt (pdev : PciDev) : pdev.hostIdByte.toNat < 16 := by
  rw [PciDev.hostIdByte, deviceIdToHostId, BitVec.toNat_setWidth, BitVec.toNat_and]
  have hle : ((pdev.device.setWidth 32).sshiftRight 8).toNat &&& (0xf : CInt).toNat ≤ 15 :=
    Nat.and_le_right
  omega

private theorem toNat_eq_signExtend_toInt {b : BitVec 8} (h : b.toNat < 16) :
    (b.toNat : Int) = (b.signExtend 32).toInt := by
  have hall : ∀ k : Fin 16, ((BitVec.ofNat 8 k.val).toNat : Int) =
      ((BitVec.ofNat 8 k.val).signExtend 32).toInt := by
    decide
  simpa using hall ⟨b.toNat, h⟩

private theorem KernelInv.xmitDstId_shared {s : Kernel} (h : KernelInv s) (sender : CInt)
    (skb : Skb)
    (haddr : ∀ k < 6, skb.destMac k = s.macAddr k) :
    xmitDstId sender skb = (s.macAddr 5).toBitVec.signExtend 32 := by
  have hfirst : skb.destMac 0 = 0xfc := by
    rw [haddr 0 (by omega), h.base 0 (by omega)]
    rfl
  have hmulti : isMulticastEtherAddr skb.destMac = false := by
    rw [isMulticastEtherAddr, hfirst]
    decide
  have hbroad : isBroadcastEtherAddr skb.destMac = false := by
    refine List.all_eq_false.mpr ⟨0, by simp, ?_⟩
    simp [hfirst]
  rw [xmitDstId, hmulti, hbroad, Bool.or_self, if_neg Bool.false_ne_true, macAddrToHostId,
    haddr 5 (by omega)]

private theorem KernelInv.owns_iff {s : Kernel} (h : KernelInv s) {pdev : PciDev}
    (hlast : s.macAddr 5 = ⟨pdev.hostIdByte⟩) {netdev : Netdev} (hmem : netdev ∈ s.registered) :
    OwnsAddress s netdev ↔ netdev.hostId = pdev.hostId := by
  have haddr : s.addrOf netdev = s.macAddr := by
    rw [Kernel.addrOf, h.shared netdev hmem]
  constructor
  · intro howns
    have hsent := h.xmitDstId_shared 0 ⟨s.macAddr, 14⟩ fun _ _ => rfl
    rw [← howns.routed 0 ⟨s.macAddr, 14⟩ fun k _ => by rw [haddr]; rfl, hsent, hlast]
    rfl
  · intro hhost
    refine ⟨?_, fun sender skb hdest => ?_⟩
    · rw [haddr, hlast, hhost]
      exact toNat_eq_signExtend_toInt (hostIdByte_lt pdev)
    · rw [haddr] at hdest
      rw [h.xmitDstId_shared sender skb hdest, hlast, hhost]
      rfl

private theorem KernelInv.kept_step {s t : Kernel} {a : AddressCall} (h : KernelInv s)
    (hs : s.step a = some t) : AddressesKept t ↔ SameHostId s a := by
  obtain ⟨mover, hmac, -, hsame⟩ := h.step_cases hs
  have hlast : t.macAddr 5 = ⟨mover.hostIdByte⟩ := by
    rw [hmac, Function.update_self]
  rw [hsame]
  exact forall₂_congr fun netdev hmem => (h.step hs).owns_iff hlast hmem

/-- Every adapter keeps its own address throughout exactly when all the calls are for devices of
one host id. -/
theorem addressesKept_iff {as : List AddressCall} {s : Kernel}
    (run : Runs Kernel.step Any Kernel.boot as s) :
    Throughout Kernel.step AddressesKept Kernel.boot as ↔
      Runs Kernel.step SameHostId Kernel.boot as s :=
  run.throughout_iff (I := KernelInv) (fun h _ hs => h.step hs) (fun h _ _ hs => h.kept_step hs)
    kernelInv_boot nofun

instance (s : Kernel) (a : AddressCall) : Decidable (SameHostId s a) := by
  cases a <;> unfold SameHostId <;> infer_instance

theorem addressesKept_one_host :
    Throughout Kernel.step AddressesKept Kernel.boot
      [.probe ⟨0x9148⟩, .probe ⟨0x9148⟩, .setMacAddress 0] := by
  have hexec : (exec (guarded Kernel.step fun s a => decide (SameHostId s a)) Kernel.boot
      [.probe ⟨0x9148⟩, .probe ⟨0x9148⟩, .setMacAddress 0]).isSome = true := by
    decide +kernel
  obtain ⟨s, hs⟩ := Option.isSome_iff_exists.mp hexec
  have hrun : Runs Kernel.step SameHostId Kernel.boot
      [.probe ⟨0x9148⟩, .probe ⟨0x9148⟩, .setMacAddress 0] s :=
    (runs_of_guarded hs).mono fun _ _ h => of_decide_eq_true h
  exact (addressesKept_iff (hrun.mono fun _ _ _ => trivial)).mpr hrun

/-- The two devices of the driver's table in one machine: the second probe moves the address of
the first adapter, whose frames now go to the other ring. -/
theorem second_probe_moves_address :
    ∃ s, Runs Kernel.step Any Kernel.boot (pciIds.map fun device => .probe ⟨device⟩) s ∧
      s.registered.map (fun netdev => (netdev.hostId, s.addrOf netdev 5)) = [(0, 1), (1, 1)] ∧
      ¬ AddressesKept s := by
  have hexec : (exec Kernel.step Kernel.boot (pciIds.map fun device => .probe ⟨device⟩)).map
      (fun s => s.registered.map fun netdev => (netdev.hostId, s.addrOf netdev 5)) =
        some [(0, 1), (1, 1)] := by
    decide +kernel
  obtain ⟨s, hs, hobs⟩ := Option.map_eq_some_iff.mp hexec
  refine ⟨s, runs_of_exec hs, hobs, fun hkept => ?_⟩
  have hfirst : ((0 : CInt), (1 : UInt8)) ∈
      s.registered.map fun netdev => (netdev.hostId, s.addrOf netdev 5) := by
    rw [hobs]
    exact List.mem_cons_self
  obtain ⟨netdev, hmem, hpair⟩ := List.mem_map.mp hfirst
  obtain ⟨hhost, hlast⟩ := Prod.mk.inj hpair
  have hbyte := (hkept netdev hmem).lastByte
  rw [hhost, hlast] at hbyte
  exact absurd hbyte (by decide)

end NupaNet.Adapter
