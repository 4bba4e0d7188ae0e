import Mathlib
import Hydr.Socks5

/-!
# The SOCKS5 entry is closed without the credentials

With a username configured, a request is read only after the greeting and the
configured credentials, in this order, at the start of the stream; and nothing
is opened before a request has been read.
-/

set_option autoImplicit false

namespace Hydr.Socks5
open Dialogue Message

def Greets (input rest : Bytes) : Prop :=
  ∃ (n : UInt8) (methods : Bytes), input = 5::n::(methods++rest) ∧ methods.length = n.toNat ∧
    methodUserpass ∈ methods

def Presents (user pass input rest : Bytes) : Prop :=
  ∃ n m : UInt8, input = 1::n::(user++m::(pass++rest)) ∧ user.length = n.toNat ∧
    pass.length = m.toNat

def Authenticates (user pass input rest : Bytes) : Prop :=
  ∃ mid, Greets input mid ∧ Presents user pass mid rest

theorem pair_of_length (head : Bytes) (h : head.length = 2) :
    head = [head.getD 0 0,head.getD 1 0] := by
  match head, h with
  | [_,_], _ => rfl

/-- The only method ever selected is the wanted one, and the peer offered it. -/
theorem negotiateMethod_some (p q : Peer Opening) (m : UInt8)
    (h : run (negotiateMethod true) p = (.ok (some m),q)) :
    m = methodUserpass ∧ Greets p.input q.input := by
  obtain ⟨head,q1,hr,h⟩ := (run_bind_ok _ _ _ _ _).mp h
  obtain ⟨hp,hl⟩ := run_readExact_ok _ _ _ _ _ hr
  rw [pair_of_length head hl] at hp
  simp only [if_true] at h
  split_ifs at h with h5 hn
  · exact absurd h (run_throw_ok _ _ _ _)
  · exact absurd h (run_throw_ok _ _ _ _)
  · obtain ⟨methods,q2,hr,h⟩ := (run_bind_ok _ _ _ _ _).mp h
    obtain ⟨hm,hlm⟩ := run_readExact_ok _ _ _ _ _ hr
    split_ifs at h with hw
    · obtain ⟨_,q3,hr,h⟩ := (run_bind_ok _ _ _ _ _).mp h
      obtain ⟨he,rfl⟩ := (run_pure_ok _ _ _ _).mp h
      have hi := (run_writeAll_ok _ _ _ _ hr).1
      rw [not_not.mp h5] at hp
      exact ⟨(Option.some.inj he).symm,head.getD 1 0,methods,by rw [hp, hm, hi]; rfl,hlm,hw⟩
    · obtain ⟨-,q3,-,h⟩ := (run_bind_ok _ _ _ _ _).mp h
      obtain ⟨he,-⟩ := (run_pure_ok _ _ _ _).mp h
      cases he

theorem verifyUserpass_true (user pass : Bytes) (p q : Peer Opening)
    (h : run (verifyUserpass user pass) p = (.ok true,q)) :
    Presents user pass p.input q.input := by
  obtain ⟨head,q1,hr,h⟩ := (run_bind_ok _ _ _ _ _).mp h
  obtain ⟨hp,hl⟩ := run_readExact_ok _ _ _ _ _ hr
  rw [pair_of_length head hl] at hp
  dsimp only at h
  split_ifs at h with h1 hu
  · exact absurd h (run_throw_ok _ _ _ _)
  · exact absurd h (run_throw_ok _ _ _ _)
  · obtain ⟨name,q2,hr,h⟩ := (run_bind_ok _ _ _ _ _).mp h
    obtain ⟨hn,hln⟩ := run_readExact_ok _ _ _ _ _ hr
    obtain ⟨m,q3,hr,h⟩ := (run_bind_ok _ _ _ _ _).mp h
    have hm := run_readByte_ok _ _ _ _ hr
    split_ifs at h with hp'
    · exact absurd h (run_throw_ok _ _ _ _)
    · obtain ⟨word,q4,hr,h⟩ := (run_bind_ok _ _ _ _ _).mp h
      obtain ⟨hw,hlw⟩ := run_readExact_ok _ _ _ _ _ hr
      obtain ⟨_,q5,hr,h⟩ := (run_bind_ok _ _ _ _ _).mp h
      obtain ⟨hok,rfl⟩ := (run_pure_ok _ _ _ _).mp h
      have hi := (run_writeAll_ok _ _ _ _ hr).1
      rw [Bool.and_eq_true, ctEq_iff, ctEq_iff] at hok
      rw [hok.1] at hn hln
      rw [hok.2] at hw hlw
      rw [not_not.mp h1] at hp
      exact ⟨head.getD 1 0,m,by rw [hp, hn, hm, hw, hi]; rfl,hln,hlw⟩

theorem login_ok (user : Bytes) (password : Option Bytes) (p q : Peer Opening)
    (h : run (login ⟨some user,password⟩) p = (.ok (),q)) :
    Authenticates user (password.getD []) p.input q.input := by
  obtain ⟨method,q1,hr,h⟩ := (run_bind_ok _ _ _ _ _).mp h
  cases method with
  | none => exact absurd h (run_throw_ok _ _ _ _)
  | some m =>
    obtain ⟨rfl,hg⟩ := negotiateMethod_some p q1 m hr
    dsimp only at h
    rw [if_pos rfl] at h
    obtain ⟨ok,q2,hr,h⟩ := (run_bind_ok _ _ _ _ _).mp h
    cases ok with
    | false => exact absurd h (run_throw_ok _ _ _ _)
    | true =>
      obtain ⟨-,rfl⟩ := (run_pure_ok _ _ _ _).mp h
      exact ⟨q1.input,hg,verifyUserpass_true user _ q1 q2 hr⟩

theorem negotiateMethod_quiet (requireAuth : Bool) : Quiet (negotiateMethod requireAuth) := by
  refine (quiet_readExact _ _).bind fun head => ?_
  dsimp only
  by_cases h5 : head.getD 0 0 ≠ 5
  · rw [if_pos h5]
    exact quiet_throw _
  rw [if_neg h5]
  by_cases hn : (head.getD 1 0).toNat = 0 ∨ 32 < (head.getD 1 0).toNat
  · rw [if_pos hn]
    exact quiet_throw _
  · rw [if_neg hn]
    refine (quiet_readExact _ _).bind fun methods => ?_
    split_ifs <;> exact (quiet_writeAll _ _).bind fun _ => quiet_pure _

theorem verifyUserpass_quiet (user pass : Bytes) : Quiet (verifyUserpass user pass) := by
  refine (quiet_readExact _ _).bind fun head => ?_
  dsimp only
  split_ifs
  · exact quiet_throw _
  · exact quiet_throw _
  · refine (quiet_readExact _ _).bind fun name => (quiet_readByte _).bind fun m => ?_
    split_ifs
    · exact quiet_throw _
    · exact (quiet_readExact _ _).bind fun word => (quiet_writeAll _ _).bind fun _ => quiet_pure _

theorem login_quiet (config : Config) : Quiet (login config) := by
  refine (negotiateMethod_quiet _).bind fun method => ?_
  cases method with
  | none => exact quiet_throw _
  | some m =>
    dsimp only
    split_ifs
    · refine (verifyUserpass_quiet _ _).bind fun ok => ?_
      split_ifs
      · exact quiet_pure _
      · exact quiet_throw _
    · exact quiet_pure _

/-- Whatever bytes a local peer sends, and whichever writes to it fail: with a
username configured, a request is read only if the stream began with the
greeting and the configured credentials, and otherwise nothing is opened. -/
theorem socks5_fail_closed (user : Bytes) (password : Option Bytes)
    (openStreamResilient : Address → Result Unit) (associate : Result Unit) (p : Peer Opening) :
    (∀ q, run (login ⟨some user,password⟩) p = (.ok (),q) →
      Authenticates user (password.getD []) p.input q.input) ∧
    ((¬∃ rest, Authenticates user (password.getD []) p.input rest) →
      (run (handleConn ⟨some user,password⟩ openStreamResilient associate) p).2.effects =
        p.effects) := by
  refine ⟨login_ok user password p,fun hno => ?_⟩
  have hq := login_quiet ⟨some user,password⟩ p
  unfold handleConn
  rw [run_bind]
  rcases hl : run (login ⟨some user,password⟩) p with ⟨r,q⟩
  rw [hl] at hq
  cases r with
  | error e => exact hq
  | ok u => exact absurd ⟨q.input,login_ok user password p q hl⟩ hno

def visitor : Peer Opening where
  input := [5,1,2,1,1,97,1,98,5,1,0,1,10,0,0,1,0,80]
  output := []
  writes := []
  effects := []

theorem visitor_needs_password :
    (∃ q, run (login ⟨some (ascii "a"),some (ascii "b")⟩) visitor = (.ok (),q) ∧
      Authenticates (ascii "a") (ascii "b") visitor.input q.input) ∧
    (run (handleConn ⟨some (ascii "a"),some (ascii "c")⟩ (fun _ => .ok ()) (.ok ()))
      visitor).2.effects = [] := by
  refine ⟨⟨_,rfl,(socks5_fail_closed (ascii "a") (some (ascii "b")) (fun _ => .ok ()) (.ok ())
      visitor).1 _ rfl⟩,
    (socks5_fail_closed (ascii "a") (some (ascii "c")) (fun _ => .ok ()) (.ok ()) visitor).2 ?_⟩
  rintro ⟨rest,mid,⟨n,methods,hi,hl,-⟩,⟨a,b,hm,-,-⟩⟩
  simp only [visitor, List.cons.injEq, true_and] at hi
  obtain ⟨rfl,hi⟩ := hi
  obtain ⟨x,rfl⟩ := List.length_eq_one_iff.mp hl
  rw [List.singleton_append, List.cons.injEq] at hi
  have h98 : (98 : UInt8) = 99 := by simpa [ascii] using congrArg (fun l => l.getD 4 0) (hi.2.trans hm)
  exact absurd h98 (by decide)

end Hydr.Socks5
