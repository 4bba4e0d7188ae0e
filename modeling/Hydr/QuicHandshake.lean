import Mathlib
import Hydr.Validation

/-!
# The handshake over QUIC

One bidirectional stream carries the request and the response, each behind a
varint length. The connection itself is healthy here: what one side writes the
other side reads, and a side that gives up leaves the other with a read error.
The server serves whomever it answered; the client leaves on an error status.
-/

set_option autoImplicit false

namespace Hydr.Quic
open Message Varint

def readExact (n : ℕ) (recv : Bytes) : Result (Bytes × Bytes) :=
  if recv.length < n then .error .io else .ok (recv.take n,recv.drop n)

def readVarint : Bytes → Result (ℕ × Bytes)
  | [] => .error .io
  | first::recv => do
    let len := 1 <<< (first >>> 6).toNat
    let (more,recv) ← readExact (len-1) recv
    let (v,_) ← decodeVarint (first::more)
    return (v,recv)

def readMessage {T : Type} (decode : Bytes → Result (T × ℕ)) (recv : Bytes) :
    Result (T × Bytes) := do
  let (len,recv) ← readVarint recv
  let (buf,recv) ← readExact len recv
  let (msg,_) ← decode buf
  return (msg,recv)

def writeVarint (v : ℕ) : Bytes := encodeVarint v

def writeLenPrefixed (buf : Bytes) : Bytes := writeVarint buf.length ++ buf

theorem readExact_append (a b : Bytes) : readExact a.length (a++b) = .ok (a,b) := by
  simp [readExact]

/-- The two top bits of the first byte are the length of the encoding. -/
theorem encodeVarint_head (v : ℕ) (first : UInt8) (more : Bytes)
    (he : encodeVarint v = first::more) : 1 <<< (first >>> 6).toNat = more.length+1 := by
  have hd := decode_encode v []
  have hl := congrArg List.length he
  rw [List.append_nil, he] at hd
  rw [encodeVarint_length, List.length_cons] at hl
  simp only [decodeVarint] at hd
  by_cases hs : (first::more).length < 1 <<< (first >>> 6).toNat
  · rw [if_pos hs] at hd; cases hd
  · rw [if_neg hs] at hd
    exact (congrArg Prod.snd (Except.ok.inj hd)).trans hl

theorem encodeVarint_cons (v : ℕ) : ∃ first more, encodeVarint v = first::more := by
  cases he : encodeVarint v with
  | nil => exact absurd (congrArg List.length he) (by have := encodeVarintLen_pos v; simp; omega)
  | cons first more => exact ⟨first,more,rfl⟩

/-- Reading takes the bytes of the varint and leaves the rest. -/
theorem readVarint_write (v : ℕ) (rest : Bytes) :
    readVarint (writeVarint v++rest) = .ok (v%2^62,rest) := by
  have hd := decode_encode v []
  obtain ⟨first,more,he⟩ := encodeVarint_cons v
  rw [List.append_nil, he] at hd
  have hm : 1 <<< (first >>> 6).toNat-1 = more.length := by
    rw [encodeVarint_head v first more he]
    rfl
  simp only [writeVarint, he, List.cons_append, readVarint, hm, readExact_append, hd, bind,
    Except.bind, pure, Except.pure]

theorem readMessage_write {T : Type} (decode : Bytes → Result (T × ℕ)) (buf rest : Bytes) (m : T)
    (n : ℕ) (hl : buf.length < 2^62) (hd : decode buf = .ok (m,n)) :
    readMessage decode (writeLenPrefixed buf++rest) = .ok (m,rest) := by
  simp only [readMessage, writeLenPrefixed, List.append_assoc, readVarint_write,
    Nat.mod_eq_of_lt hl, readExact_append, hd, bind, Except.bind, pure, Except.pure]

variable {σ : Type}

abbrev Validator (σ : Type) : Type := σ → AuthRequest → Result AuthResponse × σ

def serverHandshake (validate : Validator σ) (s : σ) (recv : Bytes) :
    Bytes × Result AuthRequest × σ :=
  match readMessage AuthRequest.decode recv with
  | .error e => ([],.error e,s)
  | .ok (req,_) =>
    match validate s req with
    | (.error e,s) => ([],.error e,s)
    | (.ok resp,s) => (writeLenPrefixed resp.encode,.ok req,s)

def clientRequest (auth : AuthRequest) : Bytes := writeLenPrefixed auth.encode

def clientHandshake (recv : Bytes) : Result Unit := do
  let (resp,_) ← readMessage AuthResponse.decode recv
  if resp.status = statusErr then .error (.message (Address.fromUtf8Lossy resp.message)) else .ok ()

def presented (auth : AuthRequest) : Result AuthRequest :=
  (readMessage AuthRequest.decode (clientRequest auth)).map Prod.fst

def verdict (validate : Validator σ) (s : σ) (auth : AuthRequest) : Option (Result AuthResponse) :=
  match presented auth with
  | .error _ => none
  | .ok req => some (validate s req).1

def serverSide (validate : Validator σ) (s : σ) (auth : AuthRequest) : Result AuthRequest :=
  (serverHandshake validate s (clientRequest auth)).2.1

def clientSide (validate : Validator σ) (s : σ) (auth : AuthRequest) : Result Unit :=
  clientHandshake (serverHandshake validate s (clientRequest auth)).1

def Granted (v : Option (Result AuthResponse)) : Prop :=
  ∃ resp, v = some (.ok resp) ∧ resp.status = statusOk

def Agrees (validate : Validator σ) (s : σ) (auth : AuthRequest) : Prop :=
  ((serverSide validate s auth).isOk ↔ Granted (verdict validate s auth)) ∧
  ((serverSide validate s auth).isOk ↔ (clientSide validate s auth).isOk)

def RefusesByError (validate : Validator σ) (s : σ) (auth : AuthRequest) : Prop :=
  ∀ resp, verdict validate s auth = some (.ok resp) → resp.status = statusOk

def Deliverable (validate : Validator σ) (s : σ) : Prop :=
  ∀ req resp, (validate s req).1 = .ok resp → resp.Encodable ∧ resp.encode.length < 2^62

/-- The nonce and the other fields come through; the two varints keep 62 bits. -/
theorem presented_eq (auth : AuthRequest) (h : auth.Encodable) (hl : auth.encode.length < 2^62) :
    presented auth = .ok auth.received := by
  have hd := AuthRequest.decode_encode auth [] h
  rw [List.append_nil] at hd
  have hr := readMessage_write AuthRequest.decode auth.encode [] auth.received _ hl hd
  rw [List.append_nil] at hr
  rw [presented, clientRequest, hr]
  rfl

theorem clientHandshake_reply (resp : AuthResponse) (h : resp.Encodable)
    (hl : resp.encode.length < 2^62) :
    (clientHandshake (writeLenPrefixed resp.encode)).isOk ↔ resp.status ≠ statusErr := by
  have hd := AuthResponse.decode_encode resp [] h
  rw [List.append_nil] at hd
  have hr := readMessage_write AuthResponse.decode resp.encode [] resp.received _ hl hd
  rw [List.append_nil] at hr
  simp only [clientHandshake, hr, bind, Except.bind, AuthResponse.received]
  by_cases hs : resp.status = statusErr <;> simp [hs, Except.isOk, Except.toBool]

section Sides

variable (validate : Validator σ) (s : σ) (auth : AuthRequest)

/-- Nothing readable arrives: no verdict and no tunnel on either side. -/
theorem unreadable (e : Error) (h : presented auth = .error e) :
    verdict validate s auth = none ∧ (serverSide validate s auth).isOk = false ∧
      (clientSide validate s auth).isOk = false := by
  have hr : readMessage AuthRequest.decode (clientRequest auth) = .error e := by
    cases hm : readMessage AuthRequest.decode (clientRequest auth) with
    | error => rw [presented, hm] at h; exact congrArg _ (Except.error.inj h)
    | ok => rw [presented, hm] at h; cases h
  rw [verdict, h, serverSide, clientSide, serverHandshake, hr]
  exact ⟨rfl,rfl,rfl⟩

theorem serverHandshake_presented (req : AuthRequest) (h : presented auth = .ok req) :
    serverHandshake validate s (clientRequest auth) =
      match validate s req with
      | (.error e,s) => ([],.error e,s)
      | (.ok resp,s) => (writeLenPrefixed resp.encode,.ok req,s) := by
  cases hm : readMessage AuthRequest.decode (clientRequest auth) with
  | error => rw [presented, hm] at h; cases h
  | ok p =>
    rw [presented, hm] at h
    obtain rfl := Except.ok.inj h
    rw [serverHandshake, hm]

/-- The validator fails: the connection is dropped before any answer. -/
theorem refused (req : AuthRequest) (e : Error) (h : presented auth = .ok req)
    (hv : (validate s req).1 = .error e) :
    verdict validate s auth = some (.error e) ∧ (serverSide validate s auth).isOk = false ∧
      (clientSide validate s auth).isOk = false := by
  have hp : validate s req = (.error e,(validate s req).2) := Prod.ext hv rfl
  rw [verdict, h, serverSide, clientSide, serverHandshake_presented validate s auth req h, hp]
  exact ⟨congrArg some hv,rfl,rfl⟩

/-- The validator answers: the server has its tunnel whatever the answer says. -/
theorem answered (hd : Deliverable validate s) (req : AuthRequest) (resp : AuthResponse)
    (h : presented auth = .ok req) (hv : (validate s req).1 = .ok resp) :
    verdict validate s auth = some (.ok resp) ∧ (serverSide validate s auth).isOk = true ∧
      ((clientSide validate s auth).isOk ↔ resp.status ≠ statusErr) := by
  have hp : validate s req = (.ok resp,(validate s req).2) := Prod.ext hv rfl
  have hc := clientHandshake_reply resp (hd req resp hv).1 (hd req resp hv).2
  rw [verdict, h, serverSide, clientSide, serverHandshake_presented validate s auth req h, hp]
  exact ⟨congrArg some hv,rfl,hc⟩

theorem agrees_iff (hd : Deliverable validate s) :
    Agrees validate s auth ↔ RefusesByError validate s auth := by
  unfold Agrees RefusesByError Granted
  cases hp : presented auth with
  | error e =>
    obtain ⟨hv,hs,hc⟩ := unreadable validate s auth e hp
    simp [hv, hs, hc]
  | ok req =>
    cases hr : (validate s req).1 with
    | error e =>
      obtain ⟨hv,hs,hc⟩ := refused validate s auth req e hp hr
      simp [hv, hs, hc]
    | ok resp =>
      obtain ⟨hv,hs,hc⟩ := answered validate s auth hd req resp hp hr
      rw [hv, hs, hc]
      constructor
      · rintro ⟨hg,-⟩ r hr'
        obtain ⟨r',hr'',hk⟩ := hg.mp rfl
        exact Except.ok.inj (Option.some.inj (hr'.symm.trans hr'')) ▸ hk
      · intro hk
        have hs := hk resp rfl
        exact ⟨iff_of_true rfl ⟨resp,rfl,hs⟩,iff_of_true rfl (by rw [hs]; decide)⟩

end Sides

/-- The texts of the server's own refusals are short. -/
theorem validate_deliverable (b3 : Blake3) (now : ℕ) (srv : Server) :
    Deliverable (Server.validate b3 now) srv := by
  have hshort : ∀ r ∈ Server.refusals, r.2.length < 64 := by decide
  intro req resp h
  have hm : resp.message.length < 64 ∧ resp.padding = [] := by
    rcases Server.validate_answers b3 now srv req with ⟨-,he⟩ | ⟨-,r,hr,he⟩ <;>
      obtain rfl := Except.ok.inj (he.symm.trans h)
    · exact ⟨by simp [AuthResponse.ok],rfl⟩
    · exact ⟨hshort r hr,rfl⟩
  refine ⟨⟨by omega,by simp [hm.2]⟩,?_⟩
  have h1 := encodeVarintLen_le resp.message.length
  have h2 := encodeVarintLen_le resp.serverCcRx
  have h3 := encodeVarintLen_le resp.padding.length
  simp only [AuthResponse.encode, List.length_append, encodeVarint_length, List.length_cons,
    List.length_nil]
  simp only [hm.2, List.length_nil] at h3 ⊢
  omega

/-- The two ends agree exactly when no refusal is given as an answer; over the
server's own validator, which always answers, exactly when it admits the request. -/
theorem handshake_agreement_iff (validate : Validator σ) (s : σ) (hd : Deliverable validate s)
    (b3 : Blake3) (now : ℕ) (srv : Server) (auth : AuthRequest) :
    (Agrees validate s auth ↔ RefusesByError validate s auth) ∧
    (Agrees (Server.validate b3 now) srv auth ↔
      ∀ req, presented auth = .ok req → srv.Admits b3 now req) := by
  refine ⟨agrees_iff validate s auth hd,?_⟩
  rw [agrees_iff _ _ _ (validate_deliverable b3 now srv)]
  unfold RefusesByError verdict
  cases presented auth with
  | error => simp
  | ok req =>
    rcases Server.validate_answers b3 now srv req with ⟨ha,he⟩ | ⟨ha,r,-,he⟩
    · simp [he, ha, AuthResponse.ok]
    · simp [he, ha, AuthResponse.errorWithCode, statusErr, statusOk]

def openServer : Server := ⟨[],0,.new NonceCache.replayCacheMax⟩

def unproved : AuthRequest := ⟨protocolVersion,authPassword,List.replicate 8 0,[],0,0,[]⟩

theorem handshake_agreement_iff_unproved :
    (Agrees (Server.validate copyHash 0) openServer unproved ↔
      RefusesByError (Server.validate copyHash 0) openServer unproved) ∧
    (Agrees (Server.validate copyHash 0) openServer unproved ↔
      ∀ req, presented unproved = .ok req → openServer.Admits copyHash 0 req) :=
  handshake_agreement_iff _ _ (validate_deliverable copyHash 0 openServer) copyHash 0 openServer unproved

/-- The server answers that the credentials are invalid and serves the peer. -/
theorem refused_is_served :
    ¬∀ (b3 : Blake3) (now : ℕ) (srv : Server) (auth : AuthRequest),
      Agrees (Server.validate b3 now) srv auth := by
  intro h
  have hu : ¬openServer.Proves copyHash unproved := by decide
  have hp : presented unproved = .ok unproved.received :=
    presented_eq unproved ⟨by decide,by decide,by decide⟩ (by decide)
  obtain ⟨r,-,hr⟩ := Server.validate_unproved copyHash 0 openServer unproved.received hu
  have ha := (agrees_iff _ _ _ (validate_deliverable copyHash 0 openServer)).mp
    (h copyHash 0 openServer unproved)
  have hs := ha (.errorWithCode r.1 r.2) (by
    rw [verdict, hp]
    exact congrArg some (congrArg Prod.fst hr))
  simp [AuthResponse.errorWithCode, statusErr, statusOk] at hs

end Hydr.Quic
