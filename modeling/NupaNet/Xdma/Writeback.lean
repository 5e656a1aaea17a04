import NupaNet.Xdma.Completion

/-!
# Completion by writeback

In poll mode the hardware writes its descriptor count, with an error bit, to one
word of host memory for each engine.  A thread waits for that word to reach the
count it expects: it reads the word, clears it, and then takes the lock and
services the engine with what it has read.  Neither `engine_start` nor the abort
path touches the word.  The result of the file is that a transfer is completed
only on a writeback of its own run, as long as no run begins over a left-over
writeback that covers it.
-/

namespace NupaNet.Xdma

open NupaNet.Foundation

/-- A write of the hardware to the poll location, with the transfer of its run. -/
structure Writeback where
  serial : Nat
  value : U32
  deriving DecidableEq, Repr

/-- The poll thread in `engine_service_poll`: it waits for a count, has read the location and not
yet cleared it, or has left the loop with a value to service. -/
inductive PollThread where
  | idle
  | polling (expectedWb : U32)
  | read (expectedWb : U32) (descWb : Writeback)
  | service (descWb : Writeback)
  deriving DecidableEq, Repr

def PollThread.held : PollThread → Option Writeback
  | .read _ descWb | .service descWb => some descWb
  | .idle | .polling _ => none

/-- `written` is the history of writebacks and `completedBy` names the writeback on which a
transfer was last completed; no code reads them. -/
structure Polled where
  channel : Channel
  cell : Writeback
  thread : PollThread
  written : List Writeback
  completedBy : Nat → Option Writeback

namespace Polled

def engine (p : Polled) : XdmaEngine := p.channel.engine

inductive Act
  | writeback (value : U32)
  | pick (stray : U32)
  | timeout
  | read
  | clear (timedOut : Bool)
  | service (reads : Reads)
  | driver (a : Xdma.Act)

/-- `xdma_thread_cmpl_status_proc` takes the entry behind the list head for a transfer without
testing whether the list is empty; `stray` is what it then finds. -/
def expectedWb (engine : XdmaEngine) (stray : U32) : U32 :=
  match engine.transferList with
  | [] => stray
  | head :: _ => BitVec.ofNat 32 (engine.tfer head).descCmplTh

def afterClear (expectedWb : U32) (descWb : Writeback) (timedOut : Bool) : PollThread :=
  if descWb.value &&& wbErrMask ≠ 0 then .service descWb
  else if expectedWb ≤ descWb.value then .service descWb
  else if timedOut then
    if expectedWb < descWb.value &&& wbCountMask then
      .service { descWb with value := expectedWb ||| wbErrMask }
    else .service descWb
  else .polling expectedWb

def afterService (p : Polled) (descWb : Writeback) (reads : Reads) : Polled :=
  let channel := p.channel.afterService true descWb.value reads
  { p with
    channel
    thread := .idle
    completedBy := fun r =>
      if r ∈ p.engine.transferList ∧ (channel.engine.tfer r).state = .completed then some descWb
      else p.completedBy r }

def step (p : Polled) : Act → Option Polled
  | .writeback value =>
      if p.engine.RunSet then
        let wb : Writeback := ⟨p.engine.regs.startedFor, value⟩
        some { p with cell := wb, written := wb :: p.written }
      else none
  | .pick stray =>
      if p.thread = .idle then
        let expected := expectedWb p.engine stray
        some { p with thread := if expected = 0 then .idle else .polling expected }
      else none
  | .timeout =>
      match p.thread with
      | .polling _ => if p.cell.value = 0 then some { p with thread := .idle } else none
      | _ => none
  | .read =>
      match p.thread with
      | .polling expected =>
          some { p with
            thread := if p.cell.value = 0 then .polling expected else .read expected p.cell }
      | _ => none
  | .clear timedOut =>
      match p.thread with
      | .read expected descWb =>
          some { p with
            cell := { p.cell with value := 0 }
            thread := afterClear expected descWb timedOut }
      | _ => none
  | .service reads =>
      match p.thread with
      | .service descWb => some (p.afterService descWb reads)
      | _ => none
  | .driver a => (p.channel.step true a).map fun channel => { p with channel }

/-- Services come from the poll thread.  A writeback of the current run that has no count reports
an error, on which the hardware has stopped counting. -/
def reads (p : Polled) : Act → Bool
  | .service reads =>
      match p.thread with
      | .service descWb =>
          descWb.serial = p.engine.regs.startedFor → descWb.value &&& wbCountMask = 0 →
            reads.completedDescCount = 0
      | _ => true
  | .driver (.service _ _) => false
  | .driver (.inspect reads) => engineRegDump reads.identifier
  | _ => true

/-- A value that completes no transfer of `descNum` descriptors. -/
def Harmless (value : U32) (descNum : Nat) : Prop :=
  value &&& wbCountMask ≠ 0 ∧ (value &&& wbCountMask).toNat < descNum

instance (value : U32) (descNum : Nat) : Decidable (Harmless value descNum) :=
  inferInstanceAs (Decidable (_ ∧ _))

/-- A transfer is queued on an engine that accepts it only if what the poll location and the
thread still hold is nothing, or a count that falls short of the transfer. -/
def startsClean (p : Polled) : Act → Bool
  | .driver (.queue _) =>
      p.engine.shutdown.request = true ∨
        (p.cell.value = 0 ∨ Harmless p.cell.value p.channel.xfer.descNum) ∧
          ∀ descWb ∈ p.thread.held, Harmless descWb.value p.channel.xfer.descNum
  | _ => true

def start (engine : XdmaEngine) : Polled where
  channel := Channel.start engine
  cell := ⟨0, 0⟩
  thread := .idle
  written := []
  completedBy := fun _ => none

/-- The transfer was completed on a writeback that the hardware made in its own run and that
covers its descriptors. -/
def OnOwnWriteback (p : Polled) (r : Nat) : Prop :=
  ∃ descWb, p.completedBy r = some descWb ∧ descWb ∈ p.written ∧
    descWb.serial = (p.engine.tfer r).serial ∧
    (p.engine.tfer r).descNum ≤ (descWb.value &&& wbCountMask).toNat

/-! ## The invariant -/

def Sound (p : Polled) (descWb : Writeback) : Prop :=
  descWb ∈ p.written ∧ (p.engine.running = true →
    descWb.serial = p.engine.regs.startedFor ∨ Harmless descWb.value p.channel.xfer.descNum)

structure Inv (p : Polled) : Prop where
  inv : ChannelInv p.channel
  small : ∀ r, (p.engine.tfer r).descNum < 2 ^ 32
  owned : p.engine.running = true →
    p.engine.descDequeued = 0 ∧ p.channel.xfer.serial = p.engine.regs.startedFor
  cell : p.cell.value ≠ 0 → Sound p p.cell
  thread : ∀ descWb ∈ p.thread.held, descWb.value ≠ 0 ∧ Sound p descWb
  completed : ∀ r, (p.engine.tfer r).state = .completed → OnOwnWriteback p r

theorem inv_start {engine : XdmaEngine} (fresh : FreshEngine engine) : Inv (start engine) where
  inv := .start fresh.toIdleEngine
  small r := by
    change (engine.tfer r).descNum < 2 ^ 32
    rw [(fresh.blank r).2]
    decide
  owned h := by
    have hidle : (start engine).engine.running = false := fresh.idle
    cases hidle.symm.trans h
  cell h := absurd rfl h
  thread := nofun
  completed r hr := by
    have hnew : ((start engine).engine.tfer r).state = .new := (fresh.blank r).1
    cases hnew.symm.trans hr

theorem OnOwnWriteback.congr {p : Polled} {channel : Channel} {r : Nat} (h : OnOwnWriteback p r)
    (same : channel.engine.tfer r = p.engine.tfer r) : OnOwnWriteback { p with channel } r := by
  obtain ⟨descWb, hby, hwritten, hserial, hcovers⟩ := h
  exact ⟨descWb, hby, hwritten, hserial.trans (congrArg _ same.symm),
    (congrArg XdmaTransfer.descNum same).trans_le hcovers⟩

theorem Sound.of_idle {p : Polled} {channel : Channel} {descWb : Writeback}
    (sound : Sound p descWb) (idle : channel.engine.running = false) :
    Sound { p with channel } descWb := by
  refine ⟨sound.1, fun hrunning => ?_⟩
  cases idle.symm.trans hrunning

namespace Inv

variable {p : Polled} {channel : Channel}

/-! ### The driver -/

theorem of_idle (inv : Inv p) (inv' : ChannelInv channel) (idle : channel.engine.running = false)
    (small : ∀ r, (channel.engine.tfer r).descNum < 2 ^ 32)
    (completed : ∀ r, (channel.engine.tfer r).state = .completed →
      OnOwnWriteback { p with channel } r) : Inv { p with channel } where
  inv := inv'
  small := small
  owned h := by cases idle.symm.trans h
  cell h := (inv.cell h).of_idle idle
  thread descWb h := ⟨(inv.thread descWb h).1, (inv.thread descWb h).2.of_idle idle⟩
  completed := completed

theorem of_undisturbed (inv : Inv p) (inv' : ChannelInv channel)
    (undisturbed : Undisturbed p.engine channel.engine)
    (phase : channel.phase = .queued →
      p.channel.phase = .queued ∧ channel.request = p.channel.request) :
    Inv { p with channel } := by
  have hxfer : channel.engine.running = true → channel.xfer = p.channel.xfer := by
    intro hrunning
    obtain ⟨-, hrequest⟩ := phase (inv'.pending_of_running hrunning).1
    rw [Channel.xfer, undisturbed.tfer, hrequest]
    rfl
  have hsound {descWb : Writeback} (h : Sound p descWb) : Sound { p with channel } descWb := by
    refine ⟨h.1, fun hrunning => ?_⟩
    change descWb.serial = channel.engine.regs.startedFor ∨
      Harmless descWb.value channel.xfer.descNum
    rw [hxfer hrunning, undisturbed.startedFor]
    exact h.2 (undisturbed.running hrunning)
  refine
    { inv := inv'
      small := ?_
      owned := fun hrunning => ?_
      cell := fun h => hsound (inv.cell h)
      thread := fun descWb h => ⟨(inv.thread descWb h).1, hsound (inv.thread descWb h).2⟩
      completed := ?_ }
  · change ∀ r, (channel.engine.tfer r).descNum < 2 ^ 32
    rw [undisturbed.tfer]
    exact inv.small
  · obtain ⟨hdequeued, hserial⟩ := inv.owned (undisturbed.running hrunning)
    refine ⟨undisturbed.dequeued.trans hdequeued, ?_⟩
    change channel.xfer.serial = channel.engine.regs.startedFor
    rw [hxfer hrunning, undisturbed.startedFor]
    exact hserial
  · intro r hr
    have hsame : channel.engine.tfer r = p.engine.tfer r := congrFun undisturbed.tfer r
    exact (inv.completed r (hsame ▸ hr)).congr hsame

theorem update (inv : Inv p) {r : Nat} {transfer : XdmaTransfer}
    (tfer : channel.engine.tfer = Function.update p.engine.tfer r transfer)
    (state : transfer.state ≠ .completed) (descNum : transfer.descNum < 2 ^ 32) :
    (∀ k, (channel.engine.tfer k).descNum < 2 ^ 32) ∧
      ∀ k, (channel.engine.tfer k).state = .completed → OnOwnWriteback { p with channel } k := by
  constructor
  · intro k
    rw [tfer]
    by_cases hk : k = r
    · subst hk
      rwa [Function.update_self]
    · rw [Function.update_of_ne hk]
      exact inv.small k
  · intro k hk
    have hkr : k ≠ r := by
      rintro rfl
      rw [tfer, Function.update_self] at hk
      exact state hk
    have hsame : channel.engine.tfer k = p.engine.tfer k := by
      rw [tfer, Function.update_of_ne hkr]
    exact (inv.completed k (hsame ▸ hk)).congr hsame

theorem of_started (inv : Inv p) (inv' : ChannelInv channel)
    (started : Started p.engine channel.engine p.channel.request)
    (request : channel.request = p.channel.request)
    (cell : p.cell.value = 0 ∨ Harmless p.cell.value p.channel.xfer.descNum)
    (thread : ∀ descWb ∈ p.thread.held, Harmless descWb.value p.channel.xfer.descNum) :
    Inv { p with channel } := by
  obtain ⟨hsmall, hcompleted⟩ := inv.update started.tfer nofun (inv.small p.channel.request)
  have hxfer : channel.xfer = { p.channel.xfer with state := .submitted } := by
    rw [Channel.xfer, started.tfer, request, Function.update_self]
    rfl
  refine
    { inv := inv'
      small := hsmall
      owned := fun _ => ⟨started.dequeued, ?_⟩
      cell := fun hcell => ⟨(inv.cell hcell).1, fun _ => .inr ?_⟩
      thread := fun descWb h => ⟨(inv.thread descWb h).1, (inv.thread descWb h).2.1,
        fun _ => .inr ?_⟩
      completed := hcompleted }
  · change channel.xfer.serial = channel.engine.regs.startedFor
    rw [hxfer, started.startedFor]
    rfl
  · change Harmless p.cell.value channel.xfer.descNum
    rw [hxfer]
    exact cell.resolve_left hcell
  · change Harmless descWb.value channel.xfer.descNum
    rw [hxfer]
    exact thread descWb h

theorem driver (inv : Inv p) {a : Xdma.Act} (reads : p.reads (.driver a) = true)
    (clean : p.startsClean (.driver a) = true) (move : Channel.Moves true p.channel a channel) :
    Inv { p with channel } := by
  have hvalid : ∀ regs, a = .inspect regs →
      p.channel.xfer.state = .completed ∨ p.channel.xfer.state = .failed ∨
        engineRegDump regs.identifier = true := by
    rintro regs rfl
    exact .inr (.inr reads)
  have inv' := inv.inv.moves hvalid move
  cases inv.inv.effect hvalid move with
  | undisturbed hsame hphase => exact inv.of_undisturbed inv' hsame hphase
  | built _ hstate hsmall htfer _ hidle _ =>
      obtain ⟨hsmall, hcompleted⟩ := inv.update htfer (by simp [hstate]) hsmall
      exact inv.of_idle inv' hidle hsmall hcompleted
  | started hqueue hadmitted hstarted hrequest _ =>
      subst hqueue
      rcases of_decide_eq_true clean with hshut | ⟨hcell, hthread⟩
      · cases hadmitted.symm.trans hshut
      · exact inv.of_started inv' hstarted hrequest hcell hthread
  | aborted _ haborted _ =>
      obtain ⟨hsmall, hcompleted⟩ :=
        inv.update haborted.tfer nofun (inv.small p.channel.request)
      exact inv.of_idle inv' haborted.stopped hsmall hcompleted
  | settled hservice => subst hservice; cases reads

/-! ### The poll thread -/

private theorem afterClear_held {expected : U32} {descWb descWb' : Writeback} {timedOut : Bool}
    (h : descWb' ∈ (afterClear expected descWb timedOut).held) : descWb' = descWb := by
  unfold afterClear at h
  split at h
  · exact (Option.some.inj h).symm
  · split at h
    · exact (Option.some.inj h).symm
    · next hbelow =>
        split at h
        · split at h
          · next habove =>
              -- a masked count is no larger than the value, so the clamp is never taken
              refine absurd habove fun hlt => hbelow ?_
              have hle : (descWb.value &&& wbCountMask).toNat ≤ descWb.value.toNat := by
                rw [BitVec.toNat_and]
                exact Nat.and_le_left
              exact BitVec.le_def.mpr (Nat.le_of_lt (Nat.lt_of_lt_of_le hlt hle))
          · exact (Option.some.inj h).symm
        · cases h

private theorem of_poll (inv : Inv p) {cell : Writeback} {thread : PollThread}
    {written : List Writeback}
    (grow : p.written ⊆ written)
    (hcell : cell.value ≠ 0 →
      cell = p.cell ∨ cell ∈ written ∧ cell.serial = p.engine.regs.startedFor)
    (hthread : ∀ descWb ∈ thread.held,
      descWb ∈ p.thread.held ∨ descWb = p.cell ∧ descWb.value ≠ 0) :
    Inv { p with cell, thread, written } := by
  have hsound {descWb : Writeback} (h : Sound p descWb) :
      Sound { p with cell, thread, written } descWb := ⟨grow h.1, h.2⟩
  refine
    { inv := inv.inv
      small := inv.small
      owned := inv.owned
      cell := fun hvalue => ?_
      thread := fun descWb hheld => ?_
      completed := fun r hr => ?_ }
  · rcases hcell hvalue with rfl | ⟨hwritten, hserial⟩
    · exact hsound (inv.cell hvalue)
    · exact ⟨hwritten, fun _ => .inl hserial⟩
  · rcases hthread descWb hheld with hheld | ⟨rfl, hvalue⟩
    · exact ⟨(inv.thread descWb hheld).1, hsound (inv.thread descWb hheld).2⟩
    · exact ⟨hvalue, hsound (inv.cell hvalue)⟩
  · obtain ⟨descWb, hby, hwritten, hrest⟩ := inv.completed r hr
    exact ⟨descWb, hby, grow hwritten, hrest⟩

private theorem serviceCount_of_sound {descWb : Writeback} (sound : Sound p descWb)
    (running : p.engine.running = true) {reads : Reads}
    (count : descWb.serial = p.engine.regs.startedFor → descWb.value &&& wbCountMask = 0 →
      reads.completedDescCount = 0)
    (some_done : serviceCount descWb.value reads ≠ 0) :
    serviceCount descWb.value reads = descWb.value &&& wbCountMask ∧
      (p.channel.xfer.descNum ≤ (descWb.value &&& wbCountMask).toNat →
        descWb.serial = p.engine.regs.startedFor) := by
  rcases sound.2 running with hown | ⟨hcount, hshort⟩
  · refine ⟨if_neg fun hzero => some_done ?_, fun _ => hown⟩
    rw [serviceCount, if_pos hzero]
    exact count hown hzero
  · exact ⟨if_neg hcount, fun hcovers => absurd hcovers (Nat.not_le_of_lt hshort)⟩

theorem of_settled (inv : Inv p) {descWb : Writeback} {reads : Reads}
    (inv' : ChannelInv (p.channel.afterService true descWb.value reads))
    (sound : Sound p descWb) (running : p.engine.running = true)
    (count : descWb.serial = p.engine.regs.startedFor → descWb.value &&& wbCountMask = 0 →
      reads.completedDescCount = 0)
    (some_done : serviceCount descWb.value reads ≠ 0)
    (settled : Settled p.engine (p.channel.afterService true descWb.value reads).engine
      p.channel.request (serviceCount descWb.value reads - p.engine.descDequeued)) :
    Inv (p.afterService descWb reads) := by
  obtain ⟨hcount, hown⟩ := serviceCount_of_sound sound running count some_done
  obtain ⟨hdequeued, hserial⟩ := inv.owned running
  obtain ⟨-, hpending⟩ := inv.inv.pending_of_running running
  have hsmall := inv.small p.channel.request
  have hzero : p.engine.descDequeued = 0#32 := hdequeued
  rw [hcount, hzero, BitVec.sub_zero] at settled
  have hidle : (p.afterService descWb reads).engine.running = false := settled.stopped
  refine
    { inv := inv'
      small := fun r => ?_
      owned := fun h => by cases hidle.symm.trans h
      cell := fun h => ⟨(inv.cell h).1, fun hrun => by cases hidle.symm.trans hrun⟩
      thread := nofun
      completed := fun r hr => ?_ }
  · by_cases hreq : r = p.channel.request
    · subst hreq
      exact settled.descNum.trans_lt hsmall
    · have hother := settled.others r hreq
      exact (congrArg XdmaTransfer.descNum hother).trans_lt (inv.small r)
  · by_cases hreq : r = p.channel.request
    · subst hreq
      have hlisted : p.channel.request ∈ p.engine.transferList := by
        rw [show p.engine.transferList = [p.channel.request] from hpending.list]
        exact List.mem_singleton_self _
      rcases settled.verdict with ⟨-, hreached⟩ | hfailed
      · have hcovers : p.channel.xfer.descNum ≤ (descWb.value &&& wbCountMask).toNat := by
          have hle := BitVec.le_def.mp hreached
          rwa [XdmaTransfer.descNum32, BitVec.toNat_ofNat, Nat.mod_eq_of_lt hsmall] at hle
        refine ⟨descWb, if_pos ⟨hlisted, hr⟩, sound.1, ?_, ?_⟩
        · exact (hown hcovers).trans (settled.serial.trans hserial).symm
        · exact settled.descNum.trans_le hcovers
      · cases hfailed.symm.trans hr
    · have hother : (p.afterService descWb reads).engine.tfer r = p.engine.tfer r :=
        settled.others r hreq
      obtain ⟨descWb', hby, hwritten, hserial', hcovers⟩ := inv.completed r (hother ▸ hr)
      refine ⟨descWb', ?_, hwritten, ?_, ?_⟩
      · refine (if_neg ?_).trans hby
        rintro ⟨hlisted, -⟩
        rw [show p.engine.transferList = [p.channel.request] from hpending.list,
          List.mem_singleton] at hlisted
        exact hreq hlisted
      · rw [hother]
        exact hserial'
      · rw [hother]
        exact hcovers

theorem service (inv : Inv p) {descWb : Writeback} (thread : p.thread = .service descWb)
    {reads : Reads} (hreads : p.reads (.service reads) = true) :
    Inv (p.afterService descWb reads) := by
  have hcount : descWb.serial = p.engine.regs.startedFor → descWb.value &&& wbCountMask = 0 →
      reads.completedDescCount = 0 := by
    rw [Polled.reads, thread] at hreads
    exact of_decide_eq_true hreads
  obtain ⟨hvalue, hsound⟩ := inv.thread descWb (by rw [thread]; rfl)
  have inv' : ChannelInv (p.channel.afterService true descWb.value reads) :=
    inv.inv.afterService descWb.value reads
  have heffect : Effect p.channel (.service descWb.value reads)
      (p.channel.afterService true descWb.value reads) :=
    inv.inv.effect_service descWb.value reads
  cases heffect with
  | built hbuild => cases hbuild
  | started hqueue => cases hqueue
  | aborted hinspect => cases hinspect
  | undisturbed hsame hphase =>
      have hby : (p.afterService descWb reads).completedBy = p.completedBy := by
        funext r
        refine if_neg ?_
        rintro ⟨hlisted, hstate⟩
        rw [hsame.tfer] at hstate
        cases (inv.inv.listed_submitted hlisted).symm.trans hstate
      have hafter : p.afterService descWb reads =
          { p with
            channel := p.channel.afterService true descWb.value reads, thread := .idle } := by
        rw [← hby]
        rfl
      rw [hafter]
      exact (inv.of_undisturbed inv' hsame hphase).of_poll (List.Subset.refl _)
        (fun _ => .inl rfl) nofun
  | settled hservice hrunning hqueued hsome hsettled hrequest =>
      cases hservice
      exact inv.of_settled inv' hsound hrunning hcount hsome hsettled

theorem step (inv : Inv p) {a : Act} {p' : Polled} (hreads : p.reads a = true)
    (clean : p.startsClean a = true) (hstep : p.step a = some p') : Inv p' := by
  cases a with
  | writeback value =>
      obtain ⟨-, heq⟩ := Option.ite_none_right_eq_some.mp hstep
      cases heq
      exact inv.of_poll (List.subset_cons_self _ _) (fun _ => .inr ⟨List.mem_cons_self, rfl⟩)
        fun _ => .inl
  | pick stray =>
      obtain ⟨-, heq⟩ := Option.ite_none_right_eq_some.mp hstep
      cases heq
      refine inv.of_poll (List.Subset.refl _) (fun _ => .inl rfl) fun descWb hheld => ?_
      split at hheld <;> cases hheld
  | timeout =>
      simp only [Polled.step] at hstep
      split at hstep
      · obtain ⟨-, heq⟩ := Option.ite_none_right_eq_some.mp hstep
        cases heq
        exact inv.of_poll (List.Subset.refl _) (fun _ => .inl rfl) nofun
      · cases hstep
  | read =>
      simp only [Polled.step] at hstep
      split at hstep
      · cases hstep
        refine inv.of_poll (List.Subset.refl _) (fun _ => .inl rfl) fun descWb hheld => ?_
        split at hheld
        · cases hheld
        · next hvalue =>
            obtain rfl := Option.some.inj hheld
            exact .inr ⟨rfl, hvalue⟩
      · cases hstep
  | clear timedOut =>
      simp only [Polled.step] at hstep
      split at hstep
      · next expected descWb hthread =>
          cases hstep
          refine inv.of_poll (List.Subset.refl _) (fun h => absurd rfl h) fun descWb' hheld => ?_
          obtain rfl := afterClear_held hheld
          exact .inl (by rw [hthread]; rfl)
      · cases hstep
  | service reads =>
      simp only [Polled.step] at hstep
      split at hstep
      · next descWb hthread =>
          cases hstep
          exact inv.service hthread hreads
      · cases hstep
  | driver a =>
      obtain ⟨channel, hchannel, rfl⟩ := Option.map_eq_some_iff.mp hstep
      exact inv.driver hreads clean (Channel.moves_of_step hchannel)

end Inv

/-! ## The result -/

/-- In every run in which each transfer that starts the engine starts clean, a transfer is in
state `TRANSFER_STATE_COMPLETED` only because of a writeback that the hardware made in its run
and that covers all its descriptors. -/
theorem completed_on_own_writeback (engine : XdmaEngine) (fresh : FreshEngine engine)
    (as : List Act) (p : Polled)
    (run : Runs step (fun p a => p.reads a = true ∧ p.startsClean a = true) (start engine) as p)
    (r : Nat) (completed : (p.engine.tfer r).state = .completed) : OnOwnWriteback p r := by
  have inv : Inv p := run.invariant (P := Inv)
    (fun inv hok hstep => inv.step hok.1 hok.2 hstep) (inv_start fresh)
  exact inv.completed r completed

def pollOnce : List Act := [.pick 0, .read, .clear false, .service busyReads]

theorem completed_on_writeback_of_run :
    ∃ p, Runs step (fun p a => p.reads a = true ∧ p.startsClean a = true)
        (start (idleEngine .toDevice 0))
        (submitted.map .driver ++ [.writeback 1] ++ pollOnce) p ∧
      (p.engine.tfer 0).state = .completed ∧ OnOwnWriteback p 0 := by
  have hexec : (exec (guarded step fun p a => p.reads a && p.startsClean a)
      (start (idleEngine .toDevice 0))
      (submitted.map .driver ++ [.writeback 1] ++ pollOnce)).map
        (fun p => (p.engine.tfer 0).state) = some .completed := by
    decide +kernel
  obtain ⟨p, hp, hcompleted⟩ := Option.map_eq_some_iff.mp hexec
  have hrun : Runs step (fun p a => p.reads a = true ∧ p.startsClean a = true)
      (start (idleEngine .toDevice 0))
      (submitted.map .driver ++ [.writeback 1] ++ pollOnce) p :=
    (runs_of_guarded hp).mono fun _ _ h => Bool.and_eq_true_iff.mp h
  exact ⟨p, hrun, hcompleted, completed_on_own_writeback _ (idleEngine_fresh .toDevice 0) _ p hrun
    0 hcompleted⟩

/-- The hardware completes a transfer, whose call aborts it before the thread has looked; the next
transfer, on which the hardware has done nothing, is completed by the old writeback. -/
def leftUnread : List Act :=
  submitted.map .driver ++
    [.writeback 1, .driver (.inspect busyReads), .driver .release] ++ submitted.map .driver ++
      pollOnce

theorem unread_writeback_completes_next :
    ∃ p, Runs step (fun p a => p.reads a = true) (start (idleEngine .toDevice 0)) leftUnread p ∧
      (p.engine.tfer 0).state = .aborted ∧ (p.engine.tfer 1).state = .completed ∧
      p.written = [⟨(p.engine.tfer 0).serial, 1⟩] ∧
      (p.engine.tfer 0).serial ≠ (p.engine.tfer 1).serial ∧ ¬ OnOwnWriteback p 1 := by
  have hexec : (exec (guarded step reads) (start (idleEngine .toDevice 0)) leftUnread).map
      (fun p => ((p.engine.tfer 0).state, (p.engine.tfer 1).state, p.written,
        (p.engine.tfer 0).serial, (p.engine.tfer 1).serial)) =
          some (.aborted, .completed, [⟨0, 1⟩], 0, 1) := by
    decide +kernel
  obtain ⟨p, hp, hobs⟩ := Option.map_eq_some_iff.mp hexec
  simp only [Prod.mk.injEq] at hobs
  obtain ⟨haborted, hcompleted, hwritten, hfirst, hsecond⟩ := hobs
  refine ⟨p, runs_of_guarded hp, haborted, hcompleted, by rw [hwritten, hfirst],
    by rw [hfirst, hsecond]; decide, ?_⟩
  rintro ⟨descWb, -, hmem, hserial, -⟩
  rw [hwritten, List.mem_singleton] at hmem
  rw [hmem, hsecond] at hserial
  cases hserial

end Polled

end NupaNet.Xdma
