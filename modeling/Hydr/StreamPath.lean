import Mathlib
import Hydr.QuicStream
import Hydr.StreamEnding

/-!
# The path of a proxied connection

A connection passes through one stream for each hop, over WebSocket or over QUIC. At
every node between two hops `handle_stream` opens the next stream, acknowledges the
incoming one and then copies both ways with `copy_bidirectional`, which shuts a writer
down at the end of what it reads.
-/

set_option autoImplicit false

namespace Hydr.Stream
open Transition

theorem Flow.step_inn (s t : Flow Bytes) (a : Act Bytes) (ho : Opening s)
    (hst : s.step a = some t) (x : Bool) :
    ((t.half x).inn.delivered = (s.half x).inn.delivered ∧
      (t.half x).inn.appRead = (s.half x).inn.appRead) ∨
    (s.half x).Idle ∨ ∃ closed b f, Receiver.Moves closed (s.half x).inn b (t.half x).inn f := by
  have hsame : ∀ h : Half Bytes, h.inn = (s.half x).inn → h.inn.delivered = (s.half x).inn.delivered ∧
      h.inn.appRead = (s.half x).inn.appRead := fun h he => by rw [he]; exact ⟨rfl,rfl⟩
  cases moves_of_step s t a hst with
  | ask | ship | pend | reply => exact Or.inl ⟨rfl,rfl⟩
  | register y hl =>
    rcases eq_or_ne x y with rfl | hne
    · refine Or.inr (Or.inl ?_)
      cases x with
      | false => exact absurd hl ho.asking
      | true => exact (ho.registering hl).1
    · exact Or.inl (hsame _ (by simp [hne]))
  | handle y offer f rest hw hl =>
    rcases Bool.eq_or_eq_not x y with rfl | rfl
    · cases f with
      | openStream => cases offer <;> exact Or.inl ⟨rfl,rfl⟩
      | ack ok =>
        simp only [handleFrame]
        split_ifs with hx
        · cases x with
          | false => exact Or.inr (Or.inl (ack_idle s ho ok rest hw))
          | true => simp at hx
        · exact Or.inl ⟨rfl,rfl⟩
        · exact Or.inl ⟨rfl,rfl⟩
      | data c =>
        left
        simp only [handleFrame, setHalf_half, Function.update_self, Half.deliver]
        split_ifs
        · unfold Receiver.deliver
          split
          · rename_i hwr
            exact ⟨rfl,rfl⟩
          · exact ⟨rfl,rfl⟩
          · exact ⟨rfl,rfl⟩
        · exact ⟨rfl,rfl⟩
      | credit n =>
        left
        have hi := (Half.credit_tables (s.half x) n).2.2.1
        simp only [handleFrame]
        split_ifs <;> exact hsame _ (by simpa using hi)
      | close => exact Or.inl (hsame _ (by simp [handleFrame, Half.close]))
    · rw [handleFrame_other]
      exact Or.inl ⟨rfl,rfl⟩
  | notify y =>
    rcases eq_or_ne x y with rfl | hne
    · exact Or.inl (hsame _ (by simp))
    · exact Or.inl (hsame _ (by simp [hne]))
  | send y b out f =>
    rcases eq_or_ne x y with rfl | hne
    · exact Or.inl (hsame _ (by simp))
    · exact Or.inl (hsame _ (by simp [hne]))
  | recv y b inn f _ hm =>
    rcases eq_or_ne x y with rfl | hne
    · exact Or.inr (Or.inr ⟨_,b,f,by simpa using hm⟩)
    · exact Or.inl (hsame _ (by simp [hne]))
  | endLoop y =>
    rcases eq_or_ne x y with rfl | hne
    · exact Or.inl (hsame _ (by simp [Half.orphan]))
    · exact Or.inl (hsame _ (by simp [hne]))

theorem Receiver.moves_delivered (closed : Bool) (r t : Receiver Bytes) (a : RecvAct)
    (f : Option (StreamFrame Bytes)) (hm : Receiver.Moves closed r a t f) :
    r.delivered <+: t.delivered ∧ r.appRead ≤ t.appRead := by
  cases hm with
  | recv c chan hw => exact ⟨by simp [delivered, hw, Writer.part],le_rfl⟩
  | write c i k hw =>
    refine ⟨?_,le_rfl⟩
    simp only [delivered, hw, Writer.part]
    exact (List.prefix_append_right_inj _).mpr (List.take_prefix_take_left (Nat.le_add_right i k))
  | finish c hw => exact ⟨by simp [delivered, hw, Writer.part, Chunk.size],le_rfl⟩
  | fail c i hw => exact ⟨by simp [delivered, hw, Writer.part],le_rfl⟩
  | shutdown hw => exact ⟨by simp [delivered, hw, Writer.part],le_rfl⟩
  | keep | miss | giveBack => exact ⟨List.prefix_refl _,Nat.le_add_right _ _⟩
  | park | drop => exact ⟨List.prefix_refl _,le_rfl⟩

namespace Flow

def Admitted (s : Flow Bytes) : Prop :=
  (s.half true).Born ∨ s.loop true = .register ∨ .ack true ∈ s.cmds true

theorem admitted_back (s t : Flow Bytes) (hb : (t.half true).Born → (s.half true).Born)
    (hl : t.loop true = .register → s.loop true = .register)
    (hc : .ack true ∈ t.cmds true → .ack true ∈ s.cmds true) (h : t.Admitted) : s.Admitted :=
  h.imp hb (Or.imp hl hc)

theorem emit_admitted (s : Flow Bytes) (x : Bool) (f : Option (StreamFrame Bytes))
    (hf : f ≠ some (.ack true)) (h : (s.emit x f).Admitted) : s.Admitted := by
  refine admitted_back s (s.emit x f) id id (fun hc => ?_) h
  rcases Bool.eq_or_eq_not x true with rfl | rfl
  · rw [emit_cmds, Function.update_self, List.mem_append, Option.mem_toList] at hc
    exact hc.resolve_right hf
  · simpa using hc

/-- Only an acceptance starts the registration of the acceptor. -/
theorem step_admitted (s t : Flow Bytes) (a : Act Bytes) (hst : s.step a = some t)
    (h : t.Admitted) : s.Admitted ∨ a = .reply true := by
  have hset : ∀ (u : Flow Bytes) y l, u.loop y ≠ .register → l ≠ .register →
      (u.setLoop y l).loop true = .register → u.loop true = .register :=
    fun u y l hu hl => (setLoop_same u y l true .register hu hl).mp
  cases moves_of_step s t a hst with
  | ask => exact Or.inl (emit_admitted { s with stage := .opening } false _ (by simp) h)
  | ship y f cmds hc hl =>
    left
    rcases h with hb | hr | hm
    · exact Or.inl hb
    · rcases Bool.eq_or_eq_not y true with rfl | rfl
      · rw [setLoop_loop, Function.update_self, afterShip_register] at hr
        exact Or.inr (Or.inr (by rw [hc, hr]; exact List.mem_cons_self ..))
      · exact Or.inr (Or.inl (by simpa using hr))
    · rcases Bool.eq_or_eq_not y true with rfl | rfl
      · refine Or.inr (Or.inr ?_)
        rw [hc]
        exact List.mem_cons_of_mem _ (by simpa using hm)
      · exact Or.inr (Or.inr (by simpa using hm))
  | pend y hl =>
    left
    refine admitted_back s _ ?_ ?_ ?_ h
    · exact id
    · exact hset { s with pending := true } y .free (by simp [hl]) (by simp)
    · exact id
  | register y hl =>
    left
    cases y with
    | true => exact Or.inr (Or.inl hl)
    | false =>
      refine admitted_back s _ ?_ ?_ ?_ h
      · simp
      · simp
      · exact id
  | handle y offer f rest hw hl =>
    left
    refine admitted_back s _ (fun hb => ?_) (fun hr => ?_) (fun hm => ?_) h
    · rcases handleFrame_out { s with wire := Function.update s.wire (!y) rest } y offer f true with
        ⟨hp,-⟩ | ⟨rfl,hy,-⟩
      · rwa [Half.Born, hp] at hb
      · cases hy
    · exact (handleFrame_loop { s with wire := Function.update s.wire (!y) rest } y offer f true hl
        .register (Or.inr rfl)).mp hr
    · rcases handleFrame_cmds { s with wire := Function.update s.wire (!y) rest } y offer f true with
        hc | hc
      · rwa [hc] at hm
      · rw [hc, List.mem_cons] at hm
        exact hm.resolve_left (by simp)
  | notify y hl =>
    left
    refine admitted_back s _ ?_ ?_ ?_ h
    · exact (setHalf_born s y { s.half y with out := (s.half y).out.notify } Iff.rfl true).mp
    · exact hset (s.setHalf y _) y .free (by simp [hl]) (by simp)
    · exact id
  | reply ok hs ha =>
    cases ok with
    | true => exact Or.inr rfl
    | false => exact Or.inl (emit_admitted { s with stage := .replied } true _ (by simp) h)
  | send y b out f ha hm =>
    left
    have hf : f ≠ some (.ack true) := by
      rcases Sender.moves_emit _ _ _ _ hm with rfl | ⟨c,rfl⟩ | rfl <;> simp
    have hs := emit_admitted _ y f hf h
    refine admitted_back s _ ?_ ?_ ?_ hs
    · have hb := (not_congr (Sender.moves_born _ _ _ _ hm)).symm
      exact (setHalf_born s y { s.half y with out := out } hb true).mp
    · exact id
    · exact id
  | recv y b inn f ha hm =>
    left
    have hf : f ≠ some (.ack true) := by
      rcases Receiver.moves_emit _ _ _ _ _ hm with rfl | ⟨n,rfl⟩ <;> simp
    have hs := emit_admitted _ y f hf h
    refine admitted_back s _ ?_ ?_ ?_ hs
    · exact (setHalf_born s y { s.half y with inn := inn } Iff.rfl true).mp
    · exact id
    · exact id
  | endLoop y hl =>
    left
    refine admitted_back s _ ?_ ?_ (fun hm => ?_) h
    · exact (setHalf_born s y (s.half y).orphan Iff.rfl true).mp
    · exact hset ({ s with cmds := Function.update s.cmds y [] }.setHalf y (s.half y).orphan) y .ended
        (by simp [hl]) (by simp)
    · rcases Bool.eq_or_eq_not y true with rfl | rfl
      · simp at hm
      · simpa using hm

end Flow

namespace Session

theorem flow_received (s : Session) (h : s.Sound) (a : Act Bytes) (f : Flow Bytes)
    (hf : s.flow.step a = some f) (x : Bool) :
    s.received x <+: (f.half x).inn.delivered.take (f.half x).inn.appRead := by
  rcases Flow.step_inn _ _ _ h.flow.progress.bounded.opening hf x with ⟨hd,hr⟩ | hi | ⟨c,b,g,hm⟩
  · rw [hd, hr]
    exact List.prefix_refl _
  · rw [received, hi.inn]
    exact List.nil_prefix
  · obtain ⟨⟨rest,hd⟩,hr⟩ := Receiver.moves_delivered _ _ _ _ _ hm
    have hlen := (h.filled x).length
    have hle : (s.flow.half x).inn.appRead ≤ (s.flow.half x).inn.delivered.length := by omega
    have htake : ((s.flow.half x).inn.delivered++rest).take (s.flow.half x).inn.appRead =
        (s.flow.half x).inn.delivered.take (s.flow.half x).inn.appRead :=
      List.take_append_of_le_length hle
    rw [received, ← hd, ← htake]
    exact List.take_prefix_take_left hr

theorem received_ahead (s : Session) (h : s.Sound) (x : Bool) : s.received x <+: s.wrote (!x) := by
  have hd := s.flow.delivered_ahead h.flow (!x)
  rw [Bool.not_not] at hd
  exact (List.take_prefix _ _).trans (hd.trans (h.read (!x)))

/-- With every loop that ended owing nothing, an end-of-file shows only after the
StreamClose was handled. -/
theorem closeSeen_of_eof (s : Session) (h : s.Sound) (hset : s.Settled) (x : Bool) (he : s.Eof x) :
    (s.flow.half x).closeSeen = true := by
  obtain ⟨hd,-,he⟩ := he
  cases ha : s.flow.alive x with
  | false =>
    refine (hset x ha ?_).resolve_right (by simp [hd])
    rcases he with ⟨hb,-⟩ | ⟨hh,-⟩
    · exact Or.inl hb
    · exact hh
  | true =>
    rcases he with ⟨hb,hw⟩ | ⟨-,-,hdead⟩
    · by_contra hn
      exact ((h.flow.served x).present (h.flow.listed x ha hb (by simpa using hn))).2 hw
    · rw [ha] at hdead
      cases hdead

/-- A StreamClose has been handled only where both sides are registered. -/
theorem born_of_eof (s : Session) (h : s.Sound) (x : Bool) (he : s.Eof x)
    (hc : (s.flow.half x).closeSeen = true) :
    (s.flow.half x).Born ∧ (s.flow.half x).inn.writer = .shut := by
  rcases he.2.2 with hb | ⟨hh,hb,hdead⟩
  · exact hb
  · obtain ⟨rfl,-⟩ := hh.resolve_left hb
    have hborn : (s.flow.half false).Born := by
      simp [Half.Born, h.flow.closing.done false (Or.inl hc)]
    rcases h.flow.registration.opener hborn with hb' | hl
    · exact absurd hb' hb
    · simp [Flow.alive, hl] at hdead

theorem eof_whole (s : Session) (h : s.Sound) (hset : s.Settled) (x : Bool) (he : s.Eof x) :
    s.closed (!x) = true ∧ s.received x = s.wrote (!x) := by
  have hc := s.closeSeen_of_eof h hset x he
  have hfin : s.Finished (!x) := h.ended (!x) (Or.inl (by rwa [Bool.not_not]))
  have hall := (s.flow.delivered_whole h.flow (!x) (by rwa [Bool.not_not])
    (by rw [Bool.not_not]; exact he.1)).2
  rw [Bool.not_not] at hall
  have hlen := (h.filled x).length
  rw [he.2.1, Nat.add_zero] at hlen
  refine ⟨hfin.1,?_⟩
  rw [received, ← hlen, List.take_length, hall (s.born_of_eof h x he hc).2, hfin.2]

def puts (a : AppAct) (x : Bool) : Bytes :=
  match a with
  | .write y bytes => if x = y then bytes else []
  | _ => []

def closes (a : AppAct) (x : Bool) : Bool :=
  match a with
  | .close y => x == y
  | _ => false

def answers : AppAct → Bool
  | .flow a => accepts a
  | _ => false

def settles (s : Session) : AppAct → Bool
  | .flow (.endLoop x) =>
    !decide (s.Holds x) || (s.flow.half x).closeSeen || (s.flow.half x).inn.dropped
  | _ => true

theorem settles_sure (s : Session) (a : AppAct) (h : s.settles a = true) : s.Settles a := by
  rintro x rfl hh
  simpa [settles, hh] using h

structure Carried (s : Session) : Prop where
  sound : s.Sound
  admitted : s.flow.Admitted → s.accepted = true

theorem init_carried : Carried init where
  sound := init_sound
  admitted h := by simp [init, Flow.Admitted, Flow.init, Half.Born, Half.absent, Sender.absent] at h

theorem step_carried (s : Session) (a : AppAct) (t : Session) (h : s.Carried)
    (hst : s.step a = some t) : t.Carried := by
  refine ⟨step_sound s t a h.sound hst,fun hadm => ?_⟩
  cases moves_of_step s t a hst with
  | write | close => exact h.admitted hadm
  | flow a f hr hf =>
    rcases Flow.step_admitted _ _ _ hf hadm with hs | rfl
    · simp [h.admitted hs]
    · simp [accepts]

theorem step_wrote (s : Session) (a : AppAct) (t : Session) (x : Bool) (hst : s.step a = some t) :
    t.wrote x = s.wrote x++puts a x := by
  cases moves_of_step s t a hst with
  | write y bytes =>
    rcases eq_or_ne x y with rfl | hne
    · simp [puts]
    · simp [puts, hne]
  | close | flow => exact (List.append_nil _).symm

theorem step_closed (s : Session) (a : AppAct) (t : Session) (x : Bool) (hst : s.step a = some t) :
    t.closed x = (s.closed x || closes a x) := by
  cases moves_of_step s t a hst with
  | close y =>
    rcases eq_or_ne x y with rfl | hne
    · simp [closes]
    · simp [closes, hne]
  | write | flow => exact (Bool.or_false _).symm

theorem closed_puts (s : Session) (a : AppAct) (t : Session) (x : Bool) (hc : s.closed x = true)
    (hst : s.step a = some t) : puts a x = [] := by
  cases moves_of_step s t a hst with
  | write y bytes hh hy =>
    refine if_neg ?_
    rintro rfl
    rw [hc] at hy
    cases hy
  | close | flow => rfl

theorem step_received (s : Session) (a : AppAct) (t : Session) (x : Bool) (h : s.Sound)
    (hst : s.step a = some t) : s.received x <+: t.received x := by
  cases moves_of_step s t a hst with
  | write | close => exact List.prefix_refl _
  | flow a f hr hf => exact s.flow_received h a f hf x

theorem step_accepted (s : Session) (a : AppAct) (t : Session) (hst : s.step a = some t)
    (h : t.accepted = true) : s.accepted = true ∨ answers a = true := by
  cases moves_of_step s t a hst with
  | write | close => exact Or.inl h
  | flow a f => exact Bool.or_eq_true_iff.mp h

theorem step_opened (s : Session) (a : AppAct) (t : Session) (h : s.Sound) (hst : s.step a = some t)
    (hb : (s.flow.half false).Born) : (t.flow.half false).Born := by
  cases moves_of_step s t a hst with
  | write | close => exact hb
  | flow a f hr hf => exact Flow.step_born _ _ _ h.flow.progress.bounded.opening hf false hb

theorem opened_accepted (s : Session) (h : s.Carried) (hb : (s.flow.half false).Born) :
    s.accepted = true := by
  apply h.admitted
  rcases h.sound.flow.registration.opener hb with ht | hl
  · exact Or.inl ht
  · exact Or.inr (Or.inl hl)

instance (h : Half Bytes) : Decidable h.Born := inferInstanceAs (Decidable (_ ≠ _))

def segment : Segment UInt8 where
  State := Session
  Act := AppAct
  Initial s := s = init
  step := step
  put := wrote
  got := received
  closed := closed
  ended s x := decide (s.Eof x)
  accepted := accepted
  opened s := decide (s.flow.half false).Born
  puts := puts
  closes := closes
  accepts := answers
  Sound := Carried
  Settled := Settled
  sure := settles
  initial_put := by rintro _ x rfl; rfl
  initial_closed := by rintro _ x rfl; rfl
  initial_accepted := by rintro _ rfl; rfl
  initial_sound := by rintro _ rfl; exact init_carried
  initial_settled := by rintro _ rfl; exact init_settled
  step_sound := step_carried
  step_settled s a t _ hset hsure hst := step_settled s t a hset (s.settles_sure a hsure) hst
  step_put s a t x _ := step_wrote s a t x
  step_got s a t x h hst := step_received s a t x h.sound hst
  step_closed := step_closed
  step_accepted := step_accepted
  step_opened s a t h hst hb :=
    decide_eq_true (step_opened s a t h.sound hst (of_decide_eq_true hb))
  closed_puts := closed_puts
  got_put s x h := s.received_ahead h.sound x
  opened_accepted s h hb := s.opened_accepted h (of_decide_eq_true hb)
  ended_whole s x h hset he := s.eof_whole h.sound hset x (of_decide_eq_true he)

end Session
end Hydr.Stream

namespace Hydr
open Transition Hydr.Stream Quic

abbrev hop (quic : Segment UInt8) : Segment UInt8 := Session.segment.sum (BiStream.segment quic)

section
variable (quic : Segment UInt8) (acts : List (ℕ × (hop quic).Act)) (row path : List (hop quic).State)
  (hi : ∀ s ∈ row, (hop quic).Initial s) (hr : run (hop quic).pathStep acts row = some path)
  (s t : (hop quic).State) (hs : s ∈ path.head?) (ht : t ∈ path.getLast?)

include hi hr hs ht in
/-- Whatever the hops, their number and the order of the steps: what comes out at one
end of a connection is what went in at the other, as far as it has come. -/
theorem path_delivers : (hop quic).got t true <+: (hop quic).put s false ∧
    (hop quic).got s false <+: (hop quic).put t true :=
  Segment.delivered_ahead hi hr s t hs ht

include hi hr in
/-- Whoever is told that a connection is open has it open and accepted at every node from
there on to the target. -/
theorem path_accepted (before after : List (hop quic).State) (hp : path = before++s::after)
    (ho : (hop quic).opened s = true) :
    ∀ t ∈ s::after, (hop quic).opened t = true ∧ (hop quic).accepted t = true :=
  Segment.opened_throughout hi hr before after s hp ho

include hi hr hs ht in
/-- Where no loop ends and no relay closes before its time, the end of a connection is
the end of what went in at its other end. -/
theorem path_complete (hc : (hop quic).Complete acts row) :
    ((hop quic).ended t true = true →
      (hop quic).closed s false = true ∧ (hop quic).got t true = (hop quic).put s false) ∧
    ((hop quic).ended s false = true →
      (hop quic).closed t true = true ∧ (hop quic).got s false = (hop quic).put t true) :=
  Segment.ended_complete hi hc hr s t hs ht

end

abbrev reliableHop : Segment UInt8 := hop (Reliable.segment UInt8)

def webSocket (acts : List AppAct) : List (ℕ × reliableHop.Act) := acts.map fun a => (0,.inl a)

def overQuic (acts : List (BiAct (Reliable.segment UInt8))) : List (ℕ × reliableHop.Act) :=
  acts.map fun a => (1,.inr a)

def twoHops : List reliableHop.State := [.inl .init,.inr (BiStream.openBi Reliable.init)]

theorem twoHops_initial : ∀ s ∈ twoHops, reliableHop.Initial s := by
  intro s hs
  rcases List.mem_cons.mp hs with rfl | hs
  · rfl
  · obtain rfl := List.mem_singleton.mp hs
    exact ⟨Reliable.init,rfl,rfl⟩

def opensNext : List (ℕ × reliableHop.Act) :=
  let request : Request := ⟨⟨.domain (Address.utf8 ['a']) 80⟩,by decide,['a'],rfl⟩
  let answer : Answer := ⟨.ok,by decide,trivial⟩
  webSocket (([.ask,.ship false,.bind false,.handle true .accept] : List (Act Bytes)).map .flow)++
  overQuic [.openStream request,.front (.put false (writeLenPrefixed request.1.encode)),
    .front (.take true (writeLenPrefixed request.1.encode).length),.acceptStream,.ack answer,
    .front (.put true (writeLenPrefixed answer.1.encode)),
    .front (.take false (writeLenPrefixed answer.1.encode).length),.opened]++
  webSocket (([.reply true,.ship true,.bind true,.handle false .accept] :
    List (Act Bytes)).map .flow)

def passesOn : List (ℕ × reliableHop.Act) :=
  webSocket (.write false [7,8]::Session.sent [7,8]++Session.closing++Session.readOut 2)++
  overQuic [.user (.put false [7,8]),.user (.finish false),.user (.take true 2)]

theorem passed_on : ∃ path s t, run reliableHop.pathStep (opensNext++passesOn) twoHops = some path ∧
    path.head? = some s ∧ path.getLast? = some t ∧ reliableHop.opened s = true ∧
    reliableHop.got t true = [7,8] ∧ reliableHop.ended t true = true := by
  have hd : ((run reliableHop.pathStep (opensNext++passesOn) twoHops).bind fun path =>
      path.head?.bind fun s => path.getLast?.map fun t => decide (reliableHop.opened s = true ∧
        reliableHop.got t true = [7,8] ∧ reliableHop.ended t true = true)) = some true := by
    decide +kernel
  obtain ⟨path,hr,hd⟩ := Option.bind_eq_some_iff.mp hd
  obtain ⟨s,hs,hd⟩ := Option.bind_eq_some_iff.mp hd
  obtain ⟨t,ht,hd⟩ := Option.map_eq_some_iff.mp hd
  obtain ⟨ho,hg,he⟩ := of_decide_eq_true hd
  exact ⟨path,s,t,hr,hs,ht,ho,hg,he⟩

theorem two_bytes_delivered : ∃ path s t,
    run reliableHop.pathStep (opensNext++passesOn) twoHops = some path ∧
    path.head? = some s ∧ path.getLast? = some t ∧ [7,8] <+: reliableHop.put s false := by
  obtain ⟨path,s,t,hr,hs,ht,-,hg,-⟩ := passed_on
  refine ⟨path,s,t,hr,hs,ht,?_⟩
  rw [← hg]
  exact (path_delivers _ _ _ _ twoHops_initial hr s t hs ht).1

theorem two_hops_accepted : ∃ path,
    run reliableHop.pathStep (opensNext++passesOn) twoHops = some path ∧
    ∀ t ∈ path, reliableHop.opened t = true ∧ reliableHop.accepted t = true := by
  obtain ⟨path,s,t,hr,hs,-,ho,-⟩ := passed_on
  obtain ⟨after,rfl⟩ := List.head?_eq_some_iff.mp hs
  exact ⟨s::after,hr,path_accepted _ _ _ _ twoHops_initial hr s [] after rfl ho⟩

theorem two_bytes_complete : ∃ path s t,
    run reliableHop.pathStep (opensNext++passesOn) twoHops = some path ∧
    path.head? = some s ∧ path.getLast? = some t ∧ reliableHop.closed s false = true ∧
    reliableHop.put s false = [7,8] := by
  obtain ⟨path,s,t,hr,hs,ht,-,hg,he⟩ := passed_on
  have hc : reliableHop.Complete (opensNext++passesOn) twoHops := by decide +kernel
  obtain ⟨hcl,hp⟩ := (path_complete _ _ _ _ twoHops_initial hr s t hs ht hc).1 he
  exact ⟨path,s,t,hr,hs,ht,hcl,hp.symm.trans hg⟩

end Hydr
