import Mathlib
import Hydr.Library.Transition
import Hydr.WsLoop

/-!
# Two ends and the wires between them

Each direction of the connection is an ordered, reliable wire that holds a
bounded number of messages. A writer whose wire is full keeps the message in
its hand; a loop takes the next message only when it is back at its `select!`.
-/

set_option autoImplicit false

namespace Hydr.Ws
open Message Hydr.Stream Transition

/-- The client is end `false`; `wire x` holds what end `x` has sent. -/
structure Link where
  ends : Bool → Endpoint
  wire : Bool → List WsMessage

inductive LinkAct where
  | own (x : Bool) (a : Act)
  | write (x : Bool) (salt : Obfuscator.Salt)
  | deliver (x : Bool) (validate : AuthRequest → Result AuthResponse)

def Act.isOwn : Act → Bool
  | .receive _ _ => false
  | .write _ => false
  | _ => true

def OutMsg.message (b3 : Blake3) (salt : Obfuscator.Salt) (ob : Option Obfuscator) :
    OutMsg → WsMessage
  | .frame f => .binary (outbound b3 salt f ob).1
  | .wsPong _ => .other

namespace Link

def init (auth : AuthRequest) (mux : Bool) (ob : Bool → Option Obfuscator) : Link where
  ends
    | false => .client auth (ob false)
    | true => .server mux (ob true)
  wire _ := []

@[simps] def setEnd (l : Link) (x : Bool) (e : Endpoint) : Link :=
  { l with ends := Function.update l.ends x e }

@[simps] def setWire (l : Link) (x : Bool) (ms : List WsMessage) : Link :=
  { l with wire := Function.update l.wire x ms }

def step (b3 : Blake3) (q : Queues) (cap : Bool → ℕ) (l : Link) : LinkAct → Option Link
  | .own x a => if a.isOwn then ((l.ends x).step b3 q a).map (l.setEnd x) else none
  | .write x salt =>
    match (l.ends x).hand with
    | some m =>
      if (l.wire x).length < cap x then
        ((l.ends x).step b3 q (.write salt)).map fun e =>
          (l.setEnd x e).setWire x (l.wire x++[m.message b3 salt (l.ends x).obfuscation])
      else none
    | none => none
  | .deliver x validate =>
    match l.wire (!x) with
    | msg::rest =>
      ((l.ends x).step b3 q (.receive validate msg)).map fun e =>
        (l.setEnd x e).setWire (!x) rest
    | [] => none

inductive Moves (b3 : Blake3) (q : Queues) (cap : Bool → ℕ) (l : Link) : LinkAct → Link → Prop where
  | own (x : Bool) (a : Act) (e : Endpoint) (ha : a.isOwn = true)
      (he : (l.ends x).step b3 q a = some e) : Moves b3 q cap l (.own x a) (l.setEnd x e)
  | write (x : Bool) (salt : Obfuscator.Salt) (m : OutMsg) (e : Endpoint)
      (hh : (l.ends x).hand = some m) (hw : (l.wire x).length < cap x)
      (he : (l.ends x).step b3 q (.write salt) = some e) :
    Moves b3 q cap l (.write x salt)
      ((l.setEnd x e).setWire x (l.wire x++[m.message b3 salt (l.ends x).obfuscation]))
  | deliver (x : Bool) (validate : AuthRequest → Result AuthResponse) (msg : WsMessage)
      (rest : List WsMessage) (e : Endpoint) (hw : l.wire (!x) = msg::rest)
      (he : (l.ends x).step b3 q (.receive validate msg) = some e) :
    Moves b3 q cap l (.deliver x validate) ((l.setEnd x e).setWire (!x) rest)

theorem moves_of_step (b3 : Blake3) (q : Queues) (cap : Bool → ℕ) (l k : Link) (a : LinkAct)
    (h : l.step b3 q cap a = some k) : Moves b3 q cap l a k := by
  cases a with
  | own x a =>
    simp only [step] at h
    split_ifs at h with ha
    obtain ⟨e,he,rfl⟩ := Option.map_eq_some_iff.mp h
    exact .own x a e ha he
  | write x salt =>
    simp only [step] at h
    split at h
    · rename_i m hh
      split_ifs at h with hw
      obtain ⟨e,he,rfl⟩ := Option.map_eq_some_iff.mp h
      exact .write x salt m e hh hw he
    · cases h
  | deliver x validate =>
    simp only [step] at h
    split at h
    · rename_i msg rest hw
      obtain ⟨e,he,rfl⟩ := Option.map_eq_some_iff.mp h
      exact .deliver x validate msg rest e hw he
    · cases h

end Link
end Hydr.Ws
