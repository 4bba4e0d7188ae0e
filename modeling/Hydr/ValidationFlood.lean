import Mathlib
import Hydr.NonceHistory

/-!
# Requests without the proof leave no trace

The three checks before the cache decide without it and write nothing. So of
two histories of validation, one of which has any number of unproved requests
more than the other, every other request gets the same answer in both.
-/

set_option autoImplicit false

namespace Hydr.Server
open Message

abbrev Call := ℕ × AuthRequest

def replies (b3 : Blake3) : Server → List Call → List (Result AuthResponse)
  | _, [] => []
  | srv, (now,req)::calls =>
    (validate b3 now srv req).1::replies b3 (validate b3 now srv req).2 calls

def validated (b3 : Blake3) (srv : Server) (calls : List Call) : Server :=
  calls.foldl (fun srv call => (validate b3 call.1 srv call.2).2) srv

def Unproved (b3 : Blake3) (srv : Server) (req : AuthRequest) : Prop :=
  req.version ≠ protocolVersion ∨ req.clientNonce.length < 8 ∨
    req.authProof ≠ computeAuthProof b3 srv.password req.clientNonce

instance (b3 : Blake3) (srv : Server) (req : AuthRequest) : Decidable (srv.Unproved b3 req) :=
  inferInstanceAs (Decidable (_ ∨ _))

theorem unproved_iff (b3 : Blake3) (srv : Server) (req : AuthRequest) :
    srv.Unproved b3 req ↔ ¬srv.Proves b3 req := by
  simp only [Unproved, Proves, not_and_or, not_le, ne_eq]

theorem nonceSeen_password (srv : Server) (now : ℕ) (nonce : Bytes) :
    (srv.nonceSeen now nonce).2.password = srv.password := rfl

theorem validate_password (b3 : Blake3) (now : ℕ) (srv : Server) (req : AuthRequest) :
    (validate b3 now srv req).2.password = srv.password := by
  by_cases h : srv.Proves b3 req
  · rw [validate_proves b3 now srv req h, nonceSeen_password]
  · obtain ⟨r,-,he⟩ := validate_unproved b3 now srv req h
    rw [he]

def kept {α : Type*} (xs : List α) (marks : List Bool) : List α :=
  ((xs.zip marks).filter Prod.snd).map Prod.fst

@[simp] theorem kept_keep {α : Type*} (x : α) (xs : List α) (marks : List Bool) :
    kept (x::xs) (true::marks) = x::kept xs marks := rfl

@[simp] theorem kept_delete {α : Type*} (x : α) (xs : List α) (marks : List Bool) :
    kept (x::xs) (false::marks) = kept xs marks := rfl

/-- Deleting unproved requests from a history changes neither the answers to
the others nor the server that they leave behind. -/
theorem unproved_invisible (b3 : Blake3) (srv : Server) (calls : List Call) (marks : List Bool)
    (hl : marks.length = calls.length)
    (hd : ∀ p ∈ calls.zip marks, p.2 = false → srv.Unproved b3 p.1.2) :
    replies b3 srv (kept calls marks) = kept (replies b3 srv calls) marks ∧
      validated b3 srv (kept calls marks) = validated b3 srv calls := by
  induction calls generalizing srv marks with
  | nil => simp [kept, replies, validated]
  | cons call calls ih =>
    cases marks with
    | nil => simp at hl
    | cons mark marks =>
      have hp := validate_password b3 call.1 srv call.2
      have hu : ∀ p ∈ calls.zip marks, p.2 = false →
          (validate b3 call.1 srv call.2).2.Unproved b3 p.1.2 := by
        intro p hm hf
        have := hd p (List.mem_cons_of_mem _ hm) hf
        rwa [Unproved, hp]
      obtain ⟨hr,hv⟩ := ih (validate b3 call.1 srv call.2).2 marks (by simpa using hl) hu
      cases mark with
      | true =>
        rw [kept_keep, replies, replies, kept_keep, hr]
        exact ⟨rfl,hv⟩
      | false =>
        have hn := (unproved_iff b3 srv call.2).mp (hd (call,false) (List.mem_cons_self ..) rfl)
        obtain ⟨r,-,he⟩ := validate_unproved b3 call.1 srv call.2 hn
        rw [he] at hr hv
        rw [kept_delete, replies, kept_delete, he]
        refine ⟨hr,hv.trans ?_⟩
        rw [validated, validated, List.foldl_cons, he]

/-- A junk request before a genuine one, and the history without it. -/
theorem junk_invisible :
    replies copyHash ⟨[1],0,.new 1⟩
        (kept [(0,⟨2,0,[],[],0,0,[]⟩),(1,.newPassword copyHash [1] 0 0 (List.replicate 8 0))]
          [false,true]) =
      kept (replies copyHash ⟨[1],0,.new 1⟩
        [(0,⟨2,0,[],[],0,0,[]⟩),(1,.newPassword copyHash [1] 0 0 (List.replicate 8 0))])
        [false,true] :=
  (unproved_invisible copyHash ⟨[1],0,.new 1⟩ _ [false,true] rfl (by decide)).1

def proved (b3 : Blake3) (srv : Server) (calls : List Call) : List NonceCache.Entry :=
  (calls.filter fun call => srv.Proves b3 call.2).map fun call => (call.2.clientNonce,call.1)

theorem validated_concat (b3 : Blake3) (srv : Server) (calls : List Call) (call : Call) :
    validated b3 srv (calls++[call]) =
      (validate b3 call.1 (validated b3 srv calls) call.2).2 := by
  rw [validated, List.foldl_append]
  rfl

theorem validated_password (b3 : Blake3) (srv : Server) (calls : List Call) :
    (validated b3 srv calls).password = srv.password := by
  induction calls using List.reverseRecOn with
  | nil => rfl
  | append_singleton calls call ih => rw [validated_concat, validate_password, ih]

theorem validated_history (b3 : Blake3) (password : Bytes) (ccRx cap : ℕ) (calls : List Call) :
    (validated b3 ⟨password,ccRx,.new cap⟩ calls).replayNonces =
      (NonceCache.history cap (proved b3 ⟨password,ccRx,.new cap⟩ calls)).1 := by
  induction calls using List.reverseRecOn with
  | nil => rfl
  | append_singleton calls call ih =>
    have hp := validated_password b3 ⟨password,ccRx,.new cap⟩ calls
    have hi : (validated b3 ⟨password,ccRx,.new cap⟩ calls).Proves b3 call.2 ↔
        (⟨password,ccRx,.new cap⟩ : Server).Proves b3 call.2 := by rw [Proves, hp, Proves]
    rw [validated_concat]
    by_cases h : (⟨password,ccRx,.new cap⟩ : Server).Proves b3 call.2
    · rw [validate_proves b3 call.1 _ call.2 (hi.mpr h)]
      simp only [proved, List.filter_append, List.filter_cons, h, decide_true, if_true,
        List.filter_nil, List.map_append, List.map_cons, List.map_nil, NonceCache.history,
        List.foldl_append, List.foldl_cons, List.foldl_nil]
      simp only [nonceSeen, ih]
      rfl
    · obtain ⟨r,-,he⟩ := validate_unproved b3 call.1 _ call.2 (mt hi.mp h)
      rw [he, ih]
      simp [proved, h]

/-- Whatever came before, a genuine request is refused only if the same nonce
was accepted from a genuine one, within the lifetime and the capacity. -/
theorem genuine_refused_iff (b3 : Blake3) (password : Bytes) (ccRx cap : ℕ) (calls : List Call)
    (now : ℕ) (req : AuthRequest) (hs : (calls++[(now,req)]).Pairwise fun a b => a.1 ≤ b.1)
    (hp : (⟨password,ccRx,.new cap⟩ : Server).Proves b3 req) :
    (validate b3 now (validated b3 ⟨password,ccRx,.new cap⟩ calls) req).1 ≠
        .ok (.ok (validated b3 ⟨password,ccRx,.new cap⟩ calls).ccRx featureUdp) ↔
      ∃ before t after,
        (NonceCache.history cap (proved b3 ⟨password,ccRx,.new cap⟩ calls)).2 =
          before++(req.clientNonce,t)::after ∧ req.clientNonce ∉ NonceCache.keys after ∧
        now-t < NonceCache.replayTtl ∧ after.length < cap := by
  have hv := validated_password b3 ⟨password,ccRx,.new cap⟩ calls
  have hq : (validated b3 ⟨password,ccRx,.new cap⟩ calls).Proves b3 req := by
    rwa [Proves, hv]
  have ho : NonceCache.Sorted
      (proved b3 ⟨password,ccRx,.new cap⟩ calls++[(req.clientNonce,now)]) := by
    have hf : NonceCache.Sorted (proved b3 ⟨password,ccRx,.new cap⟩ (calls++[(now,req)])) :=
      List.pairwise_map.mpr (hs.sublist List.filter_sublist)
    simpa [proved, hp] using hf
  rw [← NonceCache.insert_refuses_iff cap _ req.clientNonce now ho,
    validate_proves b3 now _ req hq, validated_history]
  have hi := NonceCache.insert_accepts
    (NonceCache.history cap (proved b3 ⟨password,ccRx,.new cap⟩ calls)).1 req.clientNonce now
  rw [← Bool.not_eq_true, hi, not_not]
  split_ifs with h
  · refine iff_of_true ?_ h
    intro he
    have := congrArg AuthResponse.status (Except.ok.inj he)
    simp [AuthResponse.errorWithCode, AuthResponse.ok, statusErr, statusOk] at this
  · exact iff_of_false (fun hn => hn rfl) h

end Hydr.Server
