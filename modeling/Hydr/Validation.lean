import Mathlib
import Hydr.Message

/-!
# Password validation and the nonce cache

The cache holds used client nonces in insertion order, with a lifetime and a
capacity; the oldest entries leave first. Validation consults it last, so a
request without the password's proof never reaches it. Instants are
nanoseconds and saturate on subtraction, as the clock of the source does.
-/

set_option autoImplicit false

namespace Hydr
open Message

structure NonceCache where
  set : Finset Bytes
  order : List (Bytes × ℕ)
  cap : ℕ

namespace NonceCache

def replayCacheMax : ℕ := 8192

def replayTtl : ℕ := 600*10^9

def new (cap : ℕ) : NonceCache := ⟨∅,[],cap⟩

def dropExpired (now : ℕ) : List (Bytes × ℕ) → Finset Bytes → Finset Bytes × List (Bytes × ℕ)
  | [], set => (set,[])
  | (old,t)::order, set =>
    if now-t < replayTtl then (set,(old,t)::order) else dropExpired now order (set.erase old)

def evictExpired (c : NonceCache) (now : ℕ) : NonceCache :=
  let (set,order) := dropExpired now c.order c.set
  { c with set := set, order := order }

def dropOver (cap : ℕ) : List (Bytes × ℕ) → Finset Bytes → Finset Bytes × List (Bytes × ℕ)
  | [], set => (set,[])
  | (old,t)::order, set =>
    if cap < ((old,t)::order).length then dropOver cap order (set.erase old)
    else (set,(old,t)::order)

def insert (c : NonceCache) (nonce : Bytes) (now : ℕ) : Bool × NonceCache :=
  let c := c.evictExpired now
  if nonce ∈ c.set then (false,c)
  else
    let (set,order) := dropOver c.cap (c.order++[(nonce,now)]) (Insert.insert nonce c.set)
    (true,{ c with set := set, order := order })

def Seen (c : NonceCache) (nonce : Bytes) (now : ℕ) : Prop := nonce ∈ (c.evictExpired now).set

instance (c : NonceCache) (nonce : Bytes) (now : ℕ) : Decidable (c.Seen nonce now) :=
  inferInstanceAs (Decidable (_ ∈ _))

theorem insert_accepts (c : NonceCache) (nonce : Bytes) (now : ℕ) :
    (c.insert nonce now).1 = true ↔ ¬c.Seen nonce now := by
  unfold insert Seen
  by_cases h : nonce ∈ (c.evictExpired now).set <;> simp [h]

end NonceCache

structure Server where
  password : Bytes
  ccRx : ℕ
  replayNonces : NonceCache

namespace Server

def nonceSeen (srv : Server) (now : ℕ) (nonce : Bytes) : Bool × Server :=
  let (fresh,cache) := srv.replayNonces.insert nonce now
  (fresh,{ srv with replayNonces := cache })

def validate (b3 : Blake3) (now : ℕ) (srv : Server) (req : AuthRequest) :
    Result AuthResponse × Server :=
  if req.version ≠ protocolVersion then
    (.ok (.errorWithCode errUnsupported (ascii "unsupported protocol version")),srv)
  else if req.clientNonce.length < 8 then
    (.ok (.errorWithCode errProtocol (ascii "client nonce too short")),srv)
  else if ¬ctEq (computeAuthProof b3 srv.password req.clientNonce) req.authProof then
    (.ok (.errorWithCode errBadCredentials (ascii "invalid credentials")),srv)
  else
    let (fresh,srv) := srv.nonceSeen now req.clientNonce
    if ¬fresh then (.ok (.errorWithCode errProtocol (ascii "replay detected")),srv)
    else (.ok (.ok srv.ccRx featureUdp),srv)

def Proves (b3 : Blake3) (srv : Server) (req : AuthRequest) : Prop :=
  req.version = protocolVersion ∧ 8 ≤ req.clientNonce.length ∧
    req.authProof = computeAuthProof b3 srv.password req.clientNonce

instance (b3 : Blake3) (srv : Server) (req : AuthRequest) : Decidable (srv.Proves b3 req) :=
  inferInstanceAs (Decidable (_ ∧ _))

def Admits (b3 : Blake3) (now : ℕ) (srv : Server) (req : AuthRequest) : Prop :=
  srv.Proves b3 req ∧ ¬srv.replayNonces.Seen req.clientNonce now

def refusals : List (UInt8 × Bytes) :=
  [(errUnsupported,ascii "unsupported protocol version"),
    (errProtocol,ascii "client nonce too short"),
    (errBadCredentials,ascii "invalid credentials"),
    (errProtocol,ascii "replay detected")]

theorem validate_proves (b3 : Blake3) (now : ℕ) (srv : Server) (req : AuthRequest)
    (h : srv.Proves b3 req) :
    validate b3 now srv req =
      (if srv.replayNonces.Seen req.clientNonce now
        then .ok (.errorWithCode errProtocol (ascii "replay detected"))
        else .ok (.ok srv.ccRx featureUdp),
      (srv.nonceSeen now req.clientNonce).2) := by
  obtain ⟨hv,hn,hp⟩ := h
  have hc : ctEq (computeAuthProof b3 srv.password req.clientNonce) req.authProof = true :=
    (ctEq_iff _ _).mpr hp.symm
  have hi := NonceCache.insert_accepts srv.replayNonces req.clientNonce now
  unfold validate
  rw [if_neg (not_not.mpr hv), if_neg (by omega), if_neg (not_not.mpr hc)]
  by_cases hs : srv.replayNonces.Seen req.clientNonce now
  · simp [nonceSeen, hs, Bool.eq_false_iff.mpr (mt hi.mp (not_not.mpr hs))]
  · simp [nonceSeen, hs, hi.mpr hs]

/-- Without the proof the answer is a refusal and the server is as before. -/
theorem validate_unproved (b3 : Blake3) (now : ℕ) (srv : Server) (req : AuthRequest)
    (h : ¬srv.Proves b3 req) :
    ∃ r ∈ refusals, validate b3 now srv req = (.ok (.errorWithCode r.1 r.2),srv) := by
  by_cases hv : req.version = protocolVersion
  · by_cases hn : req.clientNonce.length < 8
    · refine ⟨_,List.mem_cons_of_mem _ (List.mem_cons_self ..),?_⟩
      rw [validate, if_neg (not_not.mpr hv), if_pos hn]
    · have hc : ¬ctEq (computeAuthProof b3 srv.password req.clientNonce) req.authProof :=
        fun hc => h ⟨hv,by omega,((ctEq_iff _ _).mp hc).symm⟩
      refine ⟨_,List.mem_cons_of_mem _ (List.mem_cons_of_mem _ (List.mem_cons_self ..)),?_⟩
      rw [validate, if_neg (not_not.mpr hv), if_neg hn, if_pos hc]
  · refine ⟨_,List.mem_cons_self ..,?_⟩
    rw [validate, if_pos hv]

/-- Validation always answers: with the server's parameters when it admits the
request, with one of the refusals otherwise. -/
theorem validate_answers (b3 : Blake3) (now : ℕ) (srv : Server) (req : AuthRequest) :
    (srv.Admits b3 now req ∧ (validate b3 now srv req).1 = .ok (.ok srv.ccRx featureUdp)) ∨
    (¬srv.Admits b3 now req ∧
      ∃ r ∈ refusals, (validate b3 now srv req).1 = .ok (.errorWithCode r.1 r.2)) := by
  by_cases h : srv.Proves b3 req
  · rw [validate_proves b3 now srv req h]
    by_cases hs : srv.replayNonces.Seen req.clientNonce now
    · refine Or.inr ⟨fun ha => ha.2 hs,(errProtocol,ascii "replay detected"),?_,by rw [if_pos hs]⟩
      simp [refusals]
    · exact Or.inl ⟨⟨h,hs⟩,by rw [if_neg hs]⟩
  · obtain ⟨r,hr,he⟩ := validate_unproved b3 now srv req h
    exact Or.inr ⟨fun ha => h ha.1,r,hr,by rw [he]⟩

theorem validate_status (b3 : Blake3) (now : ℕ) (srv : Server) (req : AuthRequest)
    (resp : AuthResponse) (h : (validate b3 now srv req).1 = .ok resp) :
    resp.status = statusOk ↔ srv.Admits b3 now req := by
  rcases validate_answers b3 now srv req with ⟨ha,he⟩ | ⟨ha,r,-,he⟩ <;>
    obtain rfl := Except.ok.inj (he.symm.trans h)
  · exact iff_of_true rfl ha
  · exact iff_of_false (by simp [AuthResponse.errorWithCode, statusErr, statusOk]) ha

end Server
end Hydr
