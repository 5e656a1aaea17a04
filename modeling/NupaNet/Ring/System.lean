import NupaNet.Foundation.Run
import NupaNet.Ring.Receiver

/-!
# One ring with its threads

A ring is the INFO area of a destination, the hosts that send to it and the
polling thread of its owner.  The remaining fields are ghost: the calls of
`fetch_packet_desc` that returned a descriptor, in order, the numbers of stores
of `info->head` and `info->tail`, and the buffers passed to `napi_gro_receive`
with the number of the packet each was read for.  An action names the thread
that moves and what the environment decides there; a frame for another ring is
no action of this one.
-/

namespace NupaNet.Ring

open NupaNet.Foundation

structure Returned where
  desc : CInt
  frame : List UInt8
  deriving DecidableEq

structure PacketRing (ι : Type) where
  area : InfoArea
  sender : ι → Sender
  receiver : Receiver
  sent : List Returned
  published : Nat
  taken : Nat
  delivered : List (Nat × List UInt8)

inductive Act (ι : Type) where
  | xmit (i : ι) (holdIcCtl : Bool) (skb : Skb)
  | send (i : ι) (env : SendEnv)
  | poll (holdIcCtl : Bool) (budget : Int)
  | recv (env : RecvEnv)

namespace PacketRing

variable {ι : Type} [DecidableEq ι]

def setSender (r : PacketRing ι) (i : ι) (s : Sender) : PacketRing ι :=
  { r with sender := Function.update r.sender i s }

def afterSend (r : PacketRing ι) (i : ι) (area : InfoArea) (s : Sender) : PacketRing ι :=
  { r with
    area := area
    sender := Function.update r.sender i s
    sent := r.sent ++ ((r.sender i).returns.map fun p => ⟨p.2, p.1.skb.frame⟩).toList
    published := r.published + if (r.sender i).publishes then 1 else 0 }

def afterRecv (r : PacketRing ι) (area : InfoArea) (receiver : Receiver) : PacketRing ι :=
  { r with
    area := area
    receiver := receiver
    taken := r.taken + if r.receiver.takes then 1 else 0
    delivered := r.delivered ++
      (r.receiver.delivers.map fun skb => (r.taken - 1, skb)).toList }

section

variable {r : PacketRing ι} {i j : ι} {area : InfoArea} {s : Sender} {n : Nat} {e : Returned}

@[simp] theorem setSender_self : (r.setSender i s).sender i = s := Function.update_self ..

theorem setSender_of_ne (hj : j ≠ i) : (r.setSender i s).sender j = r.sender j :=
  Function.update_of_ne hj ..

@[simp] theorem afterSend_self : (r.afterSend i area s).sender i = s := Function.update_self ..

theorem afterSend_of_ne (hj : j ≠ i) : (r.afterSend i area s).sender j = r.sender j :=
  Function.update_of_ne hj ..

theorem sent_le_afterSend : r.sent.length ≤ (r.afterSend i area s).sent.length := by
  simp [afterSend]

theorem afterSend_sent_kept (he : r.sent[n]? = some e) :
    (r.afterSend i area s).sent[n]? = some e := by
  rw [afterSend, List.getElem?_append_left (List.getElem?_eq_some_iff.mp he).1]
  exact he

/-- An entry of the log is an old one or the one that the step returns. -/
theorem afterSend_sent_cases (he : (r.afterSend i area s).sent[n]? = some e) :
    r.sent[n]? = some e ∨ n = r.sent.length ∧
      ∃ p, (r.sender i).returns = some p ∧ e = ⟨p.2, p.1.skb.frame⟩ := by
  have hlt := (List.getElem?_eq_some_iff.mp he).1
  by_cases hold : n < r.sent.length
  · rw [afterSend, List.getElem?_append_left hold] at he
    exact .inl he
  · cases hret : (r.sender i).returns with
    | none =>
        simp only [afterSend, hret, Option.map_none, Option.toList_none, List.append_nil] at hlt
        exact absurd hlt hold
    | some p =>
        simp only [afterSend, hret, Option.map_some, Option.toList_some, List.length_append,
          List.length_singleton] at hlt he
        obtain rfl : n = r.sent.length := by omega
        rw [List.getElem?_concat_length, Option.some.injEq] at he
        exact .inr ⟨rfl, p, rfl, he.symm⟩

end

def step (hostOf : ι → CInt) (dst : CInt) (s : PacketRing ι × Memory) :
    Act ι → Option (PacketRing ι × Memory)
  | .xmit i holdIcCtl skb =>
      match s.1.sender i with
      | .idle =>
          match xmitTarget (hostOf i) holdIcCtl skb with
          | none => some s
          | some target =>
              if target = dst then
                some (s.1.setSender i (Sender.xmitFrame (hostOf i) holdIcCtl skb), s.2)
              else none
      | _ => none
  | .send i env =>
      (Sender.step ⟨s.1.area, s.2⟩ env (s.1.sender i)).map fun p =>
        (s.1.afterSend i p.1.area p.2, p.1.dev)
  | .poll holdIcCtl budget =>
      if s.1.receiver.pc = .idle then
        some ({ s.1 with receiver := s.1.receiver.poll holdIcCtl budget }, s.2)
      else none
  | .recv env =>
      (Receiver.step ⟨s.1.area, s.2⟩ env s.1.receiver).map fun p =>
        (s.1.afterRecv p.1.area p.2, p.1.dev)

/-- What a step can do, with its guard: a frame that goes nowhere, a frame for this ring, and
the moves of the threads. -/
inductive Moves (hostOf : ι → CInt) (dst : CInt) (s : PacketRing ι × Memory) :
    Act ι → PacketRing ι × Memory → Prop where
  | drop {i : ι} {holdIcCtl : Bool} {skb : Skb} : s.1.sender i = .idle →
      xmitTarget (hostOf i) holdIcCtl skb = none →
      Moves hostOf dst s (.xmit i holdIcCtl skb) s
  | xmit {i : ι} {holdIcCtl : Bool} {skb : Skb} : s.1.sender i = .idle →
      xmitTarget (hostOf i) holdIcCtl skb = some dst →
      Moves hostOf dst s (.xmit i holdIcCtl skb)
        (s.1.setSender i (Sender.xmitFrame (hostOf i) holdIcCtl skb), s.2)
  | send {i : ι} {env : SendEnv} {m : Shm} {t : Sender} :
      Sender.step ⟨s.1.area, s.2⟩ env (s.1.sender i) = some (m, t) →
      Moves hostOf dst s (.send i env) (s.1.afterSend i m.area t, m.dev)
  | poll {holdIcCtl : Bool} {budget : Int} : s.1.receiver.pc = .idle →
      Moves hostOf dst s (.poll holdIcCtl budget)
        ({ s.1 with receiver := s.1.receiver.poll holdIcCtl budget }, s.2)
  | recv {env : RecvEnv} {m : Shm} {rc : Receiver} :
      Receiver.step ⟨s.1.area, s.2⟩ env s.1.receiver = some (m, rc) →
      Moves hostOf dst s (.recv env) (s.1.afterRecv m.area rc, m.dev)

theorem step_moves {hostOf : ι → CInt} {dst : CInt} {s s' : PacketRing ι × Memory} {a : Act ι}
    (h : step hostOf dst s a = some s') : Moves hostOf dst s a s' := by
  cases a with
  | xmit i hold skb =>
      simp only [step] at h
      split at h
      · next hidle =>
          split at h
          · next htarget =>
              cases h
              exact .drop hidle htarget
          · next target htarget =>
              split at h
              · next heq =>
                  subst heq
                  cases h
                  exact .xmit hidle htarget
              · cases h
      · cases h
  | send i env =>
      simp only [step, Option.map_eq_some_iff] at h
      obtain ⟨⟨m, t⟩, hstep, rfl⟩ := h
      exact .send hstep
  | poll hold budget =>
      simp only [step] at h
      split at h
      · next hidle =>
          cases h
          exact .poll hidle
      · cases h
  | recv env =>
      simp only [step, Option.map_eq_some_iff] at h
      obtain ⟨⟨m, rc⟩, hstep, rfl⟩ := h
      exact .recv hstep

def fresh (area : InfoArea) : PacketRing ι where
  area := area
  sender := fun _ => .idle
  receiver := ⟨.idle, 0, 0, none⟩
  sent := []
  published := 0
  taken := 0
  delivered := []

end PacketRing

end NupaNet.Ring
