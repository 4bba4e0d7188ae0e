import Mathlib
import Hydr.WsAuthentication
import Hydr.WsDeadlock

/-!
# The end of a run loop

A loop ends on a socket that fails, on the command of a handle's `close`, and
on a message that it cannot accept. The frame that the tunnel's `close` queues
is an ordinary one: it takes stream 0 out of the tables and no loop ends on it.
-/

set_option autoImplicit false

namespace Hydr.Ws
open Message Varint Hydr.Stream Transition

namespace Endpoint

def Rejects (b3 : Blake3) (e : Endpoint) : WsMessage → Prop
  | .binary bytes =>
    match (inbound b3 bytes e.obfuscation).1 with
    | .frame bytes => ∃ err, Frame.decode bytes = .error err
    | .drop => False
    | .close => True
  | _ => False

def Stops (b3 : Blake3) (e : Endpoint) : Act → Prop
  | .stop => True
  | .push => e.writing = false
  | .take => e.cmds.head? = some .close
  | .receive _ msg => e.Rejects b3 msg
  | _ => False

def sendDatagram (e : Endpoint) : Result Unit := if e.alive then .ok () else .error .streamClosed

variable (b3 : Blake3) (q : Queues)

@[simp] theorem endLoop_alive (e : Endpoint) : e.endLoop.alive = false := rfl

theorem control_of_dead (e : Endpoint) (he : e.alive = false) (c : Control) (hc : e.control = c) :
    c = .ended := by
  subst hc
  unfold alive at he
  split at he
  · assumption
  · cases he

theorem alive_of_select (e : Endpoint) (hc : e.control = .select) : e.alive = true := by
  rw [alive, hc]

theorem alive_congr {e t : Endpoint} (h : t.control = e.control) : t.alive = e.alive := by
  rw [alive, alive, h]

/-- No frame that decodes ends the loop. -/
theorem handleFrame_goes (e : Endpoint) (validate : AuthRequest → Result AuthResponse) (f : Frame)
    (hc : e.control = .select) : (e.handleFrame validate f).alive = true := by
  have he := alive_of_select e hc
  cases hk : kind f.frameType with
  | authRequest =>
    simp only [handleFrame, hk, handleAuthRequest]
    split
    · split <;> rfl
    · exact he
  | authResponse =>
    simp only [handleFrame, hk, handleAuthResponse]
    split
    · exact he
    · split
      · split <;> exact he
      · exact he
  | openStream =>
    simp only [handleFrame, hk, handleOpenStream]
    split
    · rfl
    · split
      · rfl
      · exact he
  | openStreamAck =>
    simp only [handleFrame, hk, handleOpenStreamAck]
    split
    · split
      · split <;> exact he
      · exact he
    · exact he
  | streamCredit =>
    simp only [handleFrame, hk, handleStreamCredit]
    split
    · split
      · split
        · rfl
        · exact he
      · exact he
    · exact he
  | datagram =>
    simp only [handleFrame, hk, handleDatagram]
    split
    · exact he
    · split
      · rfl
      · exact he
  | streamData | streamClose | other =>
    simp only [handleFrame, hk]
    exact he
  | ping =>
    simp only [handleFrame, hk]
    rfl

/-- The messages that the loop survives are those that it does not reject. -/
theorem receive_alive (e : Endpoint) (validate : AuthRequest → Result AuthResponse) (msg : WsMessage)
    (hc : e.control = .select) :
    (e.receive b3 q validate msg).alive = true ↔ ¬e.Rejects b3 msg := by
  have he := alive_of_select e hc
  cases msg with
  | binary bytes =>
    simp only [receive, Rejects]
    cases (inbound b3 bytes e.obfuscation).1 with
    | frame payload =>
      dsimp only
      cases hd : Frame.decode payload with
      | ok p =>
        have hg := handleFrame_goes { e with obfuscation := (inbound b3 bytes e.obfuscation).2 }
          validate p.1 hc
        refine ⟨fun _ hr => ?_,fun _ => hg⟩
        obtain ⟨err,h⟩ := hr
        cases h
      | error err => simp
    | drop => exact ⟨fun _ h => h,fun _ => he⟩
    | close => simp
  | ping payload =>
    simp only [receive, Rejects, not_false_eq_true, iff_true]
    split <;> exact he
  | other => simpa [receive, Rejects] using he

theorem step_alive_iff (e t : Endpoint) (a : Act) (h : e.step b3 q a = some t) :
    t.alive = true ↔ e.alive = true ∧ ¬e.Stops b3 a := by
  have hk : t.control = e.control → ¬e.Stops b3 a →
      (t.alive = true ↔ e.alive = true ∧ ¬e.Stops b3 a) := fun ht hs => by
    rw [alive_congr ht, and_iff_left hs]
  have hg : e.control ≠ .ended → t.alive = true → ¬e.Stops b3 a →
      (t.alive = true ↔ e.alive = true ∧ ¬e.Stops b3 a) := fun hc ht hs => by
    have he : e.alive = true := by
      unfold alive
      split
      · contradiction
      · rfl
    exact ⟨fun _ => ⟨he,hs⟩,fun _ => ht⟩
  cases moves_of_step b3 q e t a h with
  | take c cmds hc hq =>
    have hn : e.control ≠ .ended := by rw [hc]; simp
    cases c with
    | close => simp [command, Stops, hq]
    | sendFrame f => exact hg hn rfl (by simp [Stops, hq])
    | openStream id address => exact hg hn rfl (by simp [Stops, hq])
    | replyOpen id ack => exact hg hn rfl (by simp [Stops, hq])
  | pushFail f after hc hw => simp [Stops, hw]
  | push f after hc hw => exact hg (by rw [hc]; simp) rfl (by simp [Stops, hw])
  | finish after hc => exact hg (by rw [hc]; simp) rfl (by simp [Stops])
  | receive validate msg hc =>
    rw [receive_alive b3 q e validate msg hc, Stops, and_iff_right (alive_of_select e hc)]
  | lose event hc | emit event hc | notify id hc | tick hc =>
    exact hg (by rw [hc]; simp) rfl (by simp [Stops])
  | stop hc => simp [Stops]
  | send id b out f => exact hk (by cases f <;> rfl) (by simp [Stops])
  | recv id b inn f => exact hk (by cases f <;> rfl) (by simp [Stops])
  | openStream | openStreamAs | authenticate | replyOpen | closeTunnel | enter | sendDatagram
  | closeHandle | nextEvent | writerTake | write | writePong | writerFail =>
    exact hk rfl (by simp [Stops])

theorem dead_of_stops (e t : Endpoint) (a : Act) (h : e.step b3 q a = some t)
    (hs : e.Stops b3 a) : t.alive = false := by
  rw [Bool.eq_false_iff, Ne, step_alive_iff b3 q e t a h]
  exact fun ht => ht.2 hs

/-- An ended loop does not start again. -/
theorem stays_dead (e t : Endpoint) (a : Act) (h : e.step b3 q a = some t)
    (he : e.alive = false) : t.alive = false := by
  rw [Bool.eq_false_iff, Ne, step_alive_iff b3 q e t a h, he]
  exact fun ht => Bool.false_ne_true ht.1

theorem handedOver_client (e : Endpoint) (ha : e.auth = false) :
    e.handedOver = true ↔ ∃ resp, e.authResponse = .sent (.ok resp) ∧ resp.status = statusOk := by
  unfold handedOver
  rw [ha]
  cases e.authResponse with
  | sent r => cases r <;> simp
  | _ => simp

theorem endLoop_handedOver (e : Endpoint) : e.endLoop.handedOver = e.handedOver := by
  rw [Bool.eq_iff_iff]
  cases ha : e.auth with
  | true =>
    rw [handedOver_server e.endLoop ha, handedOver_server e ha, endLoop_serverAuthDone]
    cases e.serverAuthDone <;> simp [Oneshot.dropped]
  | false =>
    rw [handedOver_client e.endLoop ha, handedOver_client e ha, endLoop_authResponse]
    cases e.authResponse <;> simp [Oneshot.send]

theorem judged_handedOver (e : Endpoint) (id : ℕ) (req : AuthRequest) (resp : Result AuthResponse)
    (ha : e.auth = true) (hh : e.handedOver = true) : (e.judged id req resp).handedOver = true := by
  obtain ⟨r,hs⟩ := (handedOver_server e ha).mp hh
  have hj := judged_gate e id req resp
  refine (handedOver_server _ ((congrArg Gate.auth hj).trans ha)).mpr ⟨r,?_⟩
  refine (congrArg Gate.serverAuthDone hj).trans ?_
  simp [Gate.judged, gate, hs, Oneshot.send]

/-- A tunnel that was handed over is not taken back. -/
theorem handleFrame_handedOver (e : Endpoint) (validate : AuthRequest → Result AuthResponse)
    (f : Frame) (hh : e.handedOver = true) : (e.handleFrame validate f).handedOver = true := by
  cases hk : kind f.frameType with
  | authRequest =>
    simp only [handleFrame, hk, handleAuthRequest]
    split
    · rename_i ha
      split
      · exact judged_handedOver e _ _ _ ha hh
      · exact hh
    · exact hh
  | authResponse =>
    simp only [handleFrame, hk, handleAuthResponse]
    split
    · rename_i hr
      cases ha : e.auth with
      | true =>
        have hs := (handedOver_server e ha).mp hh
        refine (handedOver_server _ ?_).mpr ?_
        · rfl
        · exact hs
      | false =>
        obtain ⟨resp,hs,-⟩ := (handedOver_client e ha).mp hh
        cases hr.symm.trans hs
    · split
      · split <;> exact hh
      · exact hh
  | openStream =>
    simp only [handleFrame, hk, handleOpenStream]
    split
    · exact hh
    · split <;> exact hh
  | openStreamAck =>
    simp only [handleFrame, hk, handleOpenStreamAck]
    split
    · split
      · split <;> exact hh
      · exact hh
    · exact hh
  | streamCredit =>
    simp only [handleFrame, hk, handleStreamCredit]
    split
    · split
      · split <;> exact hh
      · exact hh
    · exact hh
  | datagram =>
    simp only [handleFrame, hk, handleDatagram]
    split
    · exact hh
    · split <;> exact hh
  | streamData | streamClose | ping | other =>
    simp only [handleFrame, hk]
    exact hh

/-- The tunnel goes out only from a loop that goes on, and it stays out. -/
theorem step_handed (e t : Endpoint) (a : Act) (h : e.step b3 q a = some t) :
    t.handedOver = e.handedOver ∨ t.alive = true ∧ (e.handedOver = true → t.handedOver = true) := by
  cases moves_of_step b3 q e t a h with
  | take c => cases c <;> first | exact Or.inl rfl | exact Or.inl (endLoop_handedOver _)
  | pushFail | stop => exact Or.inl (endLoop_handedOver e)
  | finish after => exact Or.inl (by cases after <;> rfl)
  | receive validate msg hc =>
    rcases receive_cases b3 q e validate msg with ⟨f,ob,-,ht⟩ | ⟨-,⟨ob,ht⟩ | ⟨ob,frames,ht⟩⟩
    · rw [ht]
      exact Or.inr ⟨handleFrame_goes _ validate f hc,
        fun hh => handleFrame_handedOver { e with obfuscation := ob } validate f hh⟩
    · rw [ht]
      exact Or.inl (endLoop_handedOver _)
    · rw [ht]
      exact Or.inl rfl
  | send id b out f => exact Or.inl (by cases f <;> rfl)
  | recv id b inn f => exact Or.inl (by cases f <;> rfl)
  | openStream | openStreamAs | authenticate | replyOpen | closeTunnel | enter | sendDatagram
  | closeHandle | nextEvent | push | lose | emit | notify | tick | writerTake | write
  | writePong | writerFail => exact Or.inl rfl

structure Silent (e t : Endpoint) : Prop where
  alive : t.alive = false
  opened : t.opened = e.opened
  events : t.events <:+ e.events

theorem step_silent (e t : Endpoint) (a : Act) (h : e.step b3 q a = some t)
    (he : e.alive = false) : e.Silent t := by
  have ht : t.alive = false := stays_dead b3 q e t a h he
  have hn : ∀ c, e.control = c → c = .ended := control_of_dead e he
  cases moves_of_step b3 q e t a h with
  | nextEvent event events hev hh => exact ⟨ht,rfl,⟨[event],hev.symm⟩⟩
  | take c cmds hc => cases hn _ hc
  | pushFail f after hc | push f after hc | finish after hc | receive validate msg hc
  | lose event hc | emit event hc | notify id hc | tick hc | stop hc => cases hn _ hc
  | send id b out f => exact ⟨ht,by cases f <;> rfl,by cases f <;> exact List.suffix_refl _⟩
  | recv id b inn f => exact ⟨ht,by cases f <;> rfl,by cases f <;> exact List.suffix_refl _⟩
  | openStream | openStreamAs | authenticate | replyOpen | closeTunnel | enter | sendDatagram
  | closeHandle | writerTake | write | writePong | writerFail =>
    exact ⟨ht,rfl,List.suffix_refl _⟩

end Endpoint
end Hydr.Ws
