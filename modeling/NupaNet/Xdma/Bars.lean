import Mathlib.Logic.Function.Basic
import Mathlib.Data.List.Basic
import NupaNet.Xdma.Descriptor

/-!
# The BARs of a device

`map_bars` maps every BAR that is present, finds among them the one with the
registers of the DMA core, and takes the position of that BAR for the sign of
which of the others are the user logic and the bypass.  The network driver keeps
its rings in the user BAR.
-/

namespace NupaNet.Xdma

def xdmaBarNum : Nat := 6
def xdmaBarSize : Nat := 0x8000
def irqBlockId : U32 := 0x1fc20000#32
def configBlockId : U32 := 0x1fc30000#32
def intMax : Nat := 0x7fffffff

/-- What the kernel and the device answer: the length of each BAR, whether `pci_iomap` succeeds,
and the two identifiers at `XDMA_OFS_INT_CTRL` and `XDMA_OFS_CONFIG`. -/
structure BarEnv where
  resourceLen : Nat → Nat
  iomap : Nat → Bool
  irqId : Nat → U32
  cfgId : Nat → U32

/-- The fields of `struct xdma_dev` about BARs. -/
structure XdevBars where
  bar : Nat → Bool
  configBarIdx : Int
  userBarIdx : Int
  bypassBarIdx : Int

/-- As `alloc_dev_instance` leaves them. -/
def XdevBars.alloc : XdevBars := ⟨fun _ => false, -1, -1, -1⟩

def unmapBars (x : XdevBars) : XdevBars :=
  { x with bar := fun i => if i < xdmaBarNum then false else x.bar i }

/-- The length mapped, 0 for a BAR that is absent and -1 for one that could not be mapped. -/
def mapSingleBar (env : BarEnv) (x : XdevBars) (idx : Nat) : XdevBars × Int :=
  let barLen := env.resourceLen idx
  if barLen = 0 then ({ x with bar := Function.update x.bar idx false }, 0)
  else
    let mapLen := if barLen > intMax then intMax else barLen
    let x := { x with bar := Function.update x.bar idx (env.iomap idx) }
    if env.iomap idx then (x, mapLen) else (x, -1)

def isConfigBar (env : BarEnv) (idx : Nat) : Bool :=
  let mask : U32 := 0xffff0000#32
  decide (env.irqId idx &&& mask = irqBlockId) && decide (env.cfgId idx &&& mask = configBlockId)

def identifyBars (x : XdevBars) (barIdList : List Nat) (configBarPos : Nat) : XdevBars :=
  let numBars := barIdList.length
  match numBars with
  | 1 => x
  | 2 =>
      if configBarPos = 0 then { x with bypassBarIdx := barIdList.getD 1 0 }
      else if configBarPos = 1 then { x with userBarIdx := barIdList.getD 0 0 }
      else x
  | 3 | 4 =>
      if configBarPos = 1 ∨ configBarPos = 2 then
        { x with
          userBarIdx := barIdList.getD 0 0
          bypassBarIdx := barIdList.getD (numBars - 1) 0 }
      else x
  | _ => x

/-- The loop of `map_bars` from BAR `i` on: the device, `bar_id_list` and `config_bar_pos`, and
whether every BAR could be mapped. -/
def mapBarsLoop (env : BarEnv) : Nat → Nat → XdevBars → List Nat → Nat →
    XdevBars × List Nat × Nat × Bool
  | 0, _, x, ids, pos => (x, ids, pos, true)
  | left + 1, i, x, ids, pos =>
      let out := mapSingleBar env x i
      if out.2 = 0 then mapBarsLoop env left (i + 1) out.1 ids pos
      else if out.2 < 0 then (out.1, ids, pos, false)
      else if (xdmaBarSize : Int) ≤ out.2 ∧ out.1.configBarIdx < 0 ∧ isConfigBar env i = true then
        mapBarsLoop env left (i + 1) { out.1 with configBarIdx := i } (ids ++ [i]) ids.length
      else mapBarsLoop env left (i + 1) out.1 (ids ++ [i]) pos

def mapBars (env : BarEnv) (x : XdevBars) : XdevBars × Bool :=
  let out := mapBarsLoop env xdmaBarNum 0 x [] 0
  if !out.2.2.2 then (unmapBars out.1, false)
  else if out.1.configBarIdx < 0 then (unmapBars out.1, false)
  else (identifyBars out.1 out.2.1 out.2.2.1, true)

/-- `map_bars` built with `XDMA_CONFIG_BAR_NUM`. -/
def mapConfigBar (env : BarEnv) (configBarNum : Nat) (x : XdevBars) : XdevBars × Bool :=
  let out := mapSingleBar env x configBarNum
  if out.2 ≤ 0 then (out.1, false)
  else if isConfigBar env configBarNum = false then (out.1, false)
  else ({ out.1 with configBarIdx := configBarNum }, true)

/-! ## The BARs that are there -/

namespace BarEnv

def Present (env : BarEnv) (i : Nat) : Bool := env.resourceLen i != 0

def presentBelow (env : BarEnv) (n : Nat) : List Nat := (List.range n).filter env.Present

def present (env : BarEnv) : List Nat := env.presentBelow xdmaBarNum

/-- Large enough for the registers of the core, with its identifiers. -/
def Config (env : BarEnv) (i : Nat) : Bool :=
  decide (xdmaBarSize ≤ env.resourceLen i) && isConfigBar env i

private theorem presentBelow_succ (env : BarEnv) (n : Nat) :
    env.presentBelow (n + 1) =
      env.presentBelow n ++ if env.Present n then [n] else [] := by
  simp only [presentBelow, List.range_succ, List.filter_append, List.filter_cons, List.filter_nil]

theorem mem_presentBelow {env : BarEnv} {n i : Nat} :
    i ∈ env.presentBelow n ↔ i < n ∧ env.Present i = true := by
  simp [presentBelow]

end BarEnv

/-! ## The loop -/

structure MapInv (env : BarEnv) (i : Nat) (x : XdevBars) (ids : List Nat) (pos : Nat) : Prop where
  bar : ∀ j, x.bar j = true ↔ j ∈ env.presentBelow i
  listed : ids = env.presentBelow i
  roles : x.userBarIdx = -1 ∧ x.bypassBarIdx = -1
  iomap : ∀ j ∈ env.presentBelow i, env.iomap j = true
  config : x.configBarIdx = -1 ∧ (∀ j ∈ ids, env.Config j = false) ∨
    ∃ c : Nat, x.configBarIdx = c ∧ ids[pos]? = some c ∧ env.Config c = true ∧
      ∀ j ∈ ids.take pos, env.Config j = false

private theorem mapInv_start (env : BarEnv) : MapInv env 0 XdevBars.alloc [] 0 where
  bar j := by simp [XdevBars.alloc, BarEnv.presentBelow]
  listed := rfl
  roles := ⟨rfl, rfl⟩
  iomap j hj := by simp [BarEnv.presentBelow] at hj
  config := .inl ⟨rfl, by simp⟩

theorem mapSingleBar_cases (env : BarEnv) (x : XdevBars) (i : Nat) :
    env.Present i = false ∧
        mapSingleBar env x i = ({ x with bar := Function.update x.bar i false }, 0) ∨
      env.Present i = true ∧ env.iomap i = false ∧
        mapSingleBar env x i = ({ x with bar := Function.update x.bar i false }, -1) ∨
      env.Present i = true ∧ env.iomap i = true ∧ ∃ len : Nat, 0 < len ∧
        (xdmaBarSize ≤ len ↔ xdmaBarSize ≤ env.resourceLen i) ∧
        mapSingleBar env x i = ({ x with bar := Function.update x.bar i true }, (len : Int)) := by
  simp only [mapSingleBar, BarEnv.Present]
  by_cases hlen : env.resourceLen i = 0
  · exact .inl ⟨by simp [hlen], by simp [hlen]⟩
  · cases hmap : env.iomap i with
    | false => exact .inr (.inl ⟨by simp [hlen], rfl, by simp [hlen]⟩)
    | true =>
        refine .inr (.inr ⟨by simp [hlen], rfl,
          if env.resourceLen i > intMax then intMax else env.resourceLen i, ?_, ?_, ?_⟩)
        · split
          · decide
          · omega
        · split
          · next hbig =>
              simp only [intMax, xdmaBarSize] at hbig ⊢
              omega
          · rfl
        · simp [hlen]

section

variable {env : BarEnv} {i pos : Nat} {x : XdevBars} {ids : List Nat}

private theorem MapInv.absent (h : MapInv env i x ids pos) (habsent : env.Present i = false) :
    MapInv env (i + 1) { x with bar := Function.update x.bar i false } ids pos := by
  have hsame : env.presentBelow (i + 1) = env.presentBelow i := by
    simp [env.presentBelow_succ, habsent]
  refine ⟨fun j => ?_, h.listed.trans hsame.symm, h.roles, ?_, h.config⟩
  · rw [hsame]
    by_cases hj : j = i
    · subst hj
      simp [BarEnv.mem_presentBelow]
    · simp only [Function.update_of_ne hj]
      exact h.bar j
  · rw [hsame]
    exact h.iomap

private theorem MapInv.present_bar (h : MapInv env i x ids pos) (hpresent : env.Present i = true)
    (j : Nat) :
    Function.update x.bar i true j = true ↔ j ∈ env.presentBelow (i + 1) := by
  by_cases hj : j = i
  · subst hj
    simp [BarEnv.mem_presentBelow, hpresent]
  · rw [Function.update_of_ne hj, h.bar, env.presentBelow_succ, hpresent]
    simp [hj]

private theorem MapInv.present_iomap (h : MapInv env i x ids pos) (hpresent : env.Present i = true)
    (hmap : env.iomap i = true) (j : Nat) (hj : j ∈ env.presentBelow (i + 1)) :
    env.iomap j = true := by
  rw [env.presentBelow_succ, hpresent] at hj
  rcases List.mem_append.mp hj with hj | hj
  · exact h.iomap j hj
  · rw [if_pos rfl, List.mem_singleton] at hj
    rwa [hj]

private theorem MapInv.present_ids (h : MapInv env i x ids pos) (hpresent : env.Present i = true) :
    ids ++ [i] = env.presentBelow (i + 1) := by
  rw [env.presentBelow_succ, hpresent, if_pos rfl, h.listed]

theorem MapInv.found (h : MapInv env i x ids pos) (hpresent : env.Present i = true)
    (hmap : env.iomap i = true) (hnone : x.configBarIdx < 0) (hconfig : env.Config i = true) :
    MapInv env (i + 1)
      { x with bar := Function.update x.bar i true, configBarIdx := i } (ids ++ [i])
      ids.length where
  bar := h.present_bar hpresent
  listed := h.present_ids hpresent
  roles := h.roles
  iomap := h.present_iomap hpresent hmap
  config := by
    rcases h.config with ⟨-, hbefore⟩ | ⟨c, hc, -⟩
    · exact .inr ⟨i, rfl, by simp, hconfig, by simpa using hbefore⟩
    · omega

theorem MapInv.other (h : MapInv env i x ids pos) (hpresent : env.Present i = true)
    (hmap : env.iomap i = true) (hnot : ¬ (x.configBarIdx < 0 ∧ env.Config i = true)) :
    MapInv env (i + 1) { x with bar := Function.update x.bar i true } (ids ++ [i]) pos where
  bar := h.present_bar hpresent
  listed := h.present_ids hpresent
  roles := h.roles
  iomap := h.present_iomap hpresent hmap
  config := by
    rcases h.config with ⟨hnone, hbefore⟩ | ⟨c, hc, hpos, hcfg, hbefore⟩
    · refine .inl ⟨hnone, fun j hj => ?_⟩
      rcases List.mem_append.mp hj with hj | hj
      · exact hbefore j hj
      · rw [List.mem_singleton.mp hj]
        exact Bool.eq_false_iff.mpr fun hconfig => hnot ⟨by omega, hconfig⟩
    · have hlt : pos < ids.length := (List.getElem?_eq_some_iff.mp hpos).1
      refine .inr ⟨c, hc, ?_, hcfg, ?_⟩
      · rwa [List.getElem?_append_left hlt]
      · rwa [List.take_append_of_le_length (Nat.le_of_lt hlt)]

end

private theorem mapBarsLoop_inv (env : BarEnv) (left : Nat) {i pos : Nat} {x : XdevBars}
    {ids : List Nat}
    (h : MapInv env i x ids pos) :
    let out := mapBarsLoop env left i x ids pos
    out.2.2.2 = true ∧ MapInv env (i + left) out.1 out.2.1 out.2.2.1 ∨
      out.2.2.2 = false ∧ ∃ j ∈ env.presentBelow (i + left), env.iomap j = false := by
  induction left generalizing i pos x ids with
  | zero => exact .inl ⟨rfl, h⟩
  | succ left ih =>
      rw [show i + (left + 1) = i + 1 + left by omega]
      simp only [mapBarsLoop]
      rcases mapSingleBar_cases env x i with ⟨habsent, hout⟩ | ⟨hpresent, hmap, hout⟩ |
        ⟨hpresent, hmap, len, hlen, hsize, hout⟩
      · rw [hout, if_pos rfl]
        exact ih (h.absent habsent)
      · rw [hout, if_neg (by simp), if_pos (by simp)]
        exact .inr ⟨rfl, i, BarEnv.mem_presentBelow.mpr ⟨by omega, hpresent⟩, hmap⟩
      · rw [hout, if_neg (by simp; omega), if_neg (by simp)]
        have hconfig : ((xdmaBarSize : Int) ≤ (len : Int) ∧ x.configBarIdx < 0 ∧
            isConfigBar env i = true) ↔ x.configBarIdx < 0 ∧ env.Config i = true := by
          rw [Int.ofNat_le, hsize, BarEnv.Config, Bool.and_eq_true, decide_eq_true_eq]
          exact and_left_comm
        split
        · next hfound =>
            obtain ⟨hnone, hcfg⟩ := hconfig.mp hfound
            exact ih (h.found hpresent hmap hnone hcfg)
        · next hother => exact ih (h.other hpresent hmap (mt hconfig.mpr hother))

/-! ## What is identified -/

/-- All present BARs are mapped, the BAR of the core is the first with its identifiers, and its
position decides about the others: `n` BARs are present, and it is number `pos` of them. -/
structure Identified (env : BarEnv) (x : XdevBars) (n pos : Nat) : Prop where
  bar : ∀ i, x.bar i = true ↔ i ∈ env.present
  count : n = env.present.length
  config : ∃ c : Nat, x.configBarIdx = c ∧ env.present[pos]? = some c ∧ env.Config c = true ∧
    ∀ j ∈ env.present.take pos, env.Config j = false
  user : if n ≤ 4 ∧ 0 < pos ∧ pos < 3 then ∃ u : Nat, env.present[0]? = some u ∧ x.userBarIdx = u
    else x.userBarIdx = -1
  bypass : if n = 2 ∧ pos = 0 ∨ (n = 3 ∨ n = 4) ∧ (pos = 1 ∨ pos = 2) then
      ∃ b : Nat, env.present[n - 1]? = some b ∧ x.bypassBarIdx = b
    else x.bypassBarIdx = -1

theorem identifyBars_bar (x : XdevBars) (ids : List Nat) (pos : Nat) :
    (identifyBars x ids pos).bar = x.bar := by
  simp only [identifyBars]
  split <;> (try split) <;> (try split) <;> rfl

private theorem identifyBars_configBarIdx (x : XdevBars) (ids : List Nat) (pos : Nat) :
    (identifyBars x ids pos).configBarIdx = x.configBarIdx := by
  simp only [identifyBars]
  split <;> (try split) <;> (try split) <;> rfl

private theorem identifyBars_userBarIdx (x : XdevBars) {ids : List Nat} {pos : Nat}
    (hpos : pos < ids.length) :
    (identifyBars x ids pos).userBarIdx =
      if ids.length ≤ 4 ∧ 0 < pos ∧ pos < 3 then (ids.getD 0 0 : Int) else x.userBarIdx := by
  simp only [identifyBars]
  split
  · rw [if_neg (by omega)]
  · split
    · rw [if_neg (by omega)]
    · rw [if_pos (by omega), if_pos (by omega)]
  · split
    · rw [if_pos (by omega)]
    · rw [if_neg (by omega)]
  · split
    · rw [if_pos (by omega)]
    · rw [if_neg (by omega)]
  · next hone htwo hthree hfour =>
      have hmany : 4 < ids.length := by
        have hne : ids.length ≠ 1 ∧ ids.length ≠ 2 ∧ ids.length ≠ 3 ∧ ids.length ≠ 4 :=
          ⟨hone, htwo, hthree, hfour⟩
        omega
      rw [if_neg (by omega)]

private theorem identifyBars_bypassBarIdx (x : XdevBars) {ids : List Nat} {pos : Nat}
    (hpos : pos < ids.length) :
    (identifyBars x ids pos).bypassBarIdx =
      if ids.length = 2 ∧ pos = 0 ∨ (ids.length = 3 ∨ ids.length = 4) ∧ (pos = 1 ∨ pos = 2) then
        (ids.getD (ids.length - 1) 0 : Int)
      else x.bypassBarIdx := by
  simp only [identifyBars]
  split
  · rw [if_neg (by omega)]
  · next hn =>
      split
      · rw [if_pos (by omega), hn]
      · rw [if_pos (by omega), if_neg (by omega)]
  · next hn =>
      split
      · rw [if_pos (by omega)]
      · rw [if_neg (by omega)]
  · next hn =>
      split
      · rw [if_pos (by omega)]
      · rw [if_neg (by omega)]
  · next hone htwo hthree hfour =>
      have hne : ids.length ≠ 2 ∧ ids.length ≠ 3 ∧ ids.length ≠ 4 := ⟨htwo, hthree, hfour⟩
      rw [if_neg (by omega)]

theorem getElem?_eq_some_getD {ids : List Nat} {k : Nat} (h : k < ids.length) :
    ids[k]? = some (ids.getD k 0) := by
  simp [h]

private theorem MapInv.identified {env : BarEnv} {x : XdevBars} {ids : List Nat} {pos : Nat}
    (h : MapInv env xdmaBarNum x ids pos) (hconfig : 0 ≤ x.configBarIdx) :
    Identified env (identifyBars x ids pos) ids.length pos := by
  have hids : ids = env.present := h.listed
  have hpos : pos < ids.length := by
    rcases h.config with ⟨hnone, -⟩ | ⟨c, -, hc, -⟩
    · omega
    · exact (List.getElem?_eq_some_iff.mp hc).1
  refine ⟨fun i => ?_, by rw [hids], ?_, ?_, ?_⟩
  · rw [identifyBars_bar]
    exact h.bar i
  · rw [identifyBars_configBarIdx, ← hids]
    rcases h.config with ⟨hnone, -⟩ | hfound
    · omega
    · exact hfound
  · rw [identifyBars_userBarIdx x hpos, h.roles.1, ← hids]
    split
    · exact ⟨_, getElem?_eq_some_getD (by omega), rfl⟩
    · rfl
  · rw [identifyBars_bypassBarIdx x hpos, h.roles.2, ← hids]
    split
    · exact ⟨_, getElem?_eq_some_getD (by omega), rfl⟩
    · rfl

theorem Identified.distinct {env : BarEnv} {x : XdevBars} {n pos : Nat}
    (h : Identified env x n pos) :
    x.userBarIdx ≠ x.configBarIdx ∧
      (x.bypassBarIdx = x.configBarIdx ↔ n = 3 ∧ pos = 2) := by
  obtain ⟨c, hc, hpos, -, -⟩ := h.config
  have hnodup : env.present.Nodup := List.nodup_range.filter _
  have hlt : pos < n := by
    rw [h.count]
    exact (List.getElem?_eq_some_iff.mp hpos).1
  have hsame : ∀ k b : Nat, env.present[k]? = some b → ((b : Int) = x.configBarIdx ↔ k = pos) := by
    intro k b hb
    rw [hc, Int.natCast_inj]
    constructor
    · rintro rfl
      have hk := (List.getElem?_eq_some_iff.mp hb).1
      exact (List.getElem?_inj hk hnodup).mp (hb.trans hpos.symm)
    · rintro rfl
      exact Option.some.inj (hb.symm.trans hpos)
  constructor
  · have huser := h.user
    split at huser
    · obtain ⟨u, hu, hidx⟩ := huser
      rw [hidx, ne_eq, hsame 0 u hu]
      omega
    · omega
  · have hbypass := h.bypass
    split at hbypass
    · obtain ⟨b, hb, hidx⟩ := hbypass
      rw [hidx, hsame _ b hb]
      omega
    · omega

theorem unmapBars_bar (x : XdevBars) {i : Nat} (h : i < xdmaBarNum) :
    (unmapBars x).bar i = false := if_pos h

theorem mapBars_cases (env : BarEnv) :
    let out := mapBars env XdevBars.alloc
    (out.2 = true ∧ (∀ i ∈ env.present, env.iomap i = true) ∧
        ∃ pos, Identified env out.1 env.present.length pos) ∨
      out.2 = false ∧ (∀ i < xdmaBarNum, out.1.bar i = false) ∧
        ((∃ i ∈ env.present, env.iomap i = false) ∨ ∀ i ∈ env.present, env.Config i = false) := by
  have hloop := mapBarsLoop_inv env xdmaBarNum (mapInv_start env)
  rw [Nat.zero_add] at hloop
  simp only [mapBars]
  generalize mapBarsLoop env xdmaBarNum 0 XdevBars.alloc [] 0 = out at *
  obtain ⟨x, ids, pos, ok⟩ := out
  rcases hloop with ⟨hok, hinv⟩ | ⟨hok, hrefused⟩
  · obtain rfl : ok = true := hok
    change MapInv env xdmaBarNum x ids pos at hinv
    have hids : ids = env.present := hinv.listed
    simp only [Bool.not_true, Bool.false_eq_true, if_false]
    by_cases hnone : x.configBarIdx < 0
    · rw [if_pos hnone]
      refine .inr ⟨rfl, fun i hi => unmapBars_bar x hi, .inr ?_⟩
      rcases hinv.config with ⟨-, hall⟩ | ⟨c, hc, -⟩
      · rwa [← hids]
      · omega
    · rw [if_neg hnone]
      have hident := hinv.identified (by omega)
      exact .inl ⟨rfl, hinv.iomap, pos, by rwa [← hids]⟩
  · obtain rfl : ok = false := hok
    exact .inr ⟨rfl, fun i hi => unmapBars_bar x hi, .inl hrefused⟩

/-- `map_bars` succeeds exactly when every present BAR can be mapped and one of them is the
core's.  It then keeps the present BARs mapped, and names the first BAR of the core and the BARs
around it; else it leaves none mapped. -/
theorem map_bars_exact (env : BarEnv) :
    let out := mapBars env XdevBars.alloc
    (out.2 = true ↔ (∀ i ∈ env.present, env.iomap i = true) ∧
        ∃ i ∈ env.present, env.Config i = true) ∧
      (out.2 = false → ∀ i < xdmaBarNum, out.1.bar i = false) ∧
      (out.2 = true → ∃ pos, Identified env out.1 env.present.length pos ∧
        out.1.userBarIdx ≠ out.1.configBarIdx ∧
        (out.1.bypassBarIdx = out.1.configBarIdx ↔ env.present.length = 3 ∧ pos = 2)) := by
  rcases mapBars_cases env with ⟨hok, hmap, pos, hident⟩ | ⟨hok, hnone, hwhy⟩
  · obtain ⟨c, -, hpos, hconfig, -⟩ := hident.config
    refine ⟨⟨fun _ => ⟨hmap, c, List.mem_of_getElem? hpos, hconfig⟩, fun _ => hok⟩, ?_,
      fun _ => ⟨pos, hident, hident.distinct⟩⟩
    intro hfail
    rw [hok] at hfail
    cases hfail
  · refine ⟨⟨fun htrue => ?_, ?_⟩, fun _ => hnone, fun htrue => ?_⟩
    · rw [hok] at htrue
      cases htrue
    · rintro ⟨hmap, c, hc, hconfig⟩
      rcases hwhy with ⟨i, hi, hrefused⟩ | hall
      · rw [hmap i hi] at hrefused
        cases hrefused
      · rw [hall c hc] at hconfig
        cases hconfig
    · rw [hok] at htrue
      cases htrue

end NupaNet.Xdma
