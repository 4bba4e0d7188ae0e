import Mathlib
import Hydr.QuicHandshake
import Hydr.WsAuthentication
import Hydr.Library.Transition

/-!
# Attempts and proofs

The limiter counts connections where they are accepted; the validator weighs
proofs where the connections are served, over QUIC once in the handshake, over
WebSocket for every request that its loop hears. The record of the proofs that
were weighed says what the limit is meant for.
-/

set_option autoImplicit false

namespace Hydr.RateLimit
open Message Ws Transition
open Address (IpAddr)

def authWindow : ℕ := 60*10^9
def authMaxPerIp : ℕ := 30

def counts (now t : ℕ) : Bool := now-t < authWindow

abbrev Attempts : Type := IpAddr → List ℕ

def rateAllow (m : Attempts) (ip : IpAddr) (now : ℕ) : Bool × Attempts :=
  let v := (m ip).filter (counts now)
  if authMaxPerIp ≤ v.length then (false,Function.update m ip v)
  else (true,Function.update m ip (v++[now]))

inductive Link where
  | quic (waiting : Bool)
  | ws (e : Endpoint)

structure Conn where
  ip : IpAddr
  admitted : ℕ
  link : Link

structure Weighing where
  conn : ℕ
  ip : IpAddr
  admitted : ℕ
  instant : ℕ

structure State where
  now : ℕ
  server : Server
  attempts : Attempts
  conns : List Conn
  weighed : List Weighing

def init (server : Server) : State where
  now := 0
  server := server
  attempts _ := []
  conns := []
  weighed := []

inductive Act where
  | wait (d : ℕ)
  | acceptQuic (ip : IpAddr)
  | acceptWs (ip : IpAddr)
  | handshake (c : ℕ) (recv : Bytes)
  | ws (c : ℕ) (a : Ws.Act)

def under (validate : AuthRequest → Result AuthResponse) : Ws.Act → Ws.Act
  | .receive _ msg => .receive validate msg
  | a => a

def Weighs (req : AuthRequest) : Prop :=
  req.version = protocolVersion ∧ 8 ≤ req.clientNonce.length

instance (req : AuthRequest) : Decidable (Weighs req) := inferInstanceAs (Decidable (_ ∧ _))

namespace State

def accept (s : State) (ip : IpAddr) (link : Link) : State :=
  let (allowed,attempts) := rateAllow s.attempts ip s.now
  { s with
    attempts := attempts
    conns := if allowed then s.conns++[⟨ip,s.now,link⟩] else s.conns }

def serve (b3 : Blake3) (s : State) (c : ℕ) (conn : Conn) (link : Link)
    (req : Option AuthRequest) : State :=
  { s with
    conns := s.conns.set c { conn with link := link }
    server := (req.map fun req => (s.server.validate b3 s.now req).2).getD s.server
    weighed := s.weighed++
      ((req.filter fun req => Weighs req).map fun _ => ⟨c,conn.ip,conn.admitted,s.now⟩).toList }

variable (b3 : Blake3) (q : Queues)

def attend (s : State) : Act → Option (ℕ × Conn × Link × Option AuthRequest)
  | .handshake c recv =>
    match s.conns[c]? with
    | some ⟨ip,admitted,.quic true⟩ =>
      some (c,⟨ip,admitted,.quic true⟩,.quic false,
        (Quic.readMessage AuthRequest.decode recv).toOption.map Prod.fst)
    | _ => none
  | .ws c a =>
    match s.conns[c]? with
    | some ⟨ip,admitted,.ws e⟩ =>
      let a := under (fun req => (s.server.validate b3 s.now req).1) a
      (e.step b3 q a).map fun t => (c,⟨ip,admitted,.ws e⟩,.ws t,(e.asked b3 a).map fun v => v.2.1)
    | _ => none
  | _ => none

/-- The obfuscation key is the listener's; it does not multiplex. -/
def step (key : Option Bytes) (s : State) (a : Act) : Option State :=
  match a with
  | .wait d => some { s with now := s.now+d }
  | .acceptQuic ip => some (s.accept ip (.quic true))
  | .acceptWs ip => some (s.accept ip (.ws (.server false (key.map (Obfuscator.new b3)))))
  | a => (s.attend b3 q a).map fun (c,conn,link,req) => s.serve b3 c conn link req

def within (ip : IpAddr) (start : ℕ) (v : Weighing) : Bool :=
  v.ip = ip ∧ start ≤ v.instant ∧ v.instant < start+authWindow

def Limited (s : State) : Prop := ∀ ip start,
  (s.weighed.filter (within ip start)).length ≤ authMaxPerIp

/-- A proof is weighed only as the first of its connection, and only while all
connections whose proofs were weighed within the window were also accepted
within it. -/
def Counted (s : State) (a : Act) : Prop := ∀ c conn link req,
  s.attend b3 q a = some (c,conn,link,some req) → Weighs req →
    (∀ v ∈ s.weighed, v.conn ≠ c) ∧ counts s.now conn.admitted ∧
      ∀ v ∈ s.weighed, v.ip = conn.ip → counts s.now v.instant → counts s.now v.admitted

def admissions (s : State) : List (IpAddr × ℕ) := s.conns.map fun c => (c.ip,c.admitted)

structure Sound (s : State) : Prop where
  attempts : ∀ ip, (s.attempts ip).filter (counts s.now) =
    ((s.admissions.filter fun p => p.1 = ip).map Prod.snd).filter (counts s.now)
  capped : ∀ ip, (s.attempts ip).length ≤ authMaxPerIp
  distinct : (s.weighed.map Weighing.conn).Nodup
  known : ∀ v ∈ s.weighed, s.admissions[v.conn]? = some (v.ip,v.admitted)
  past : ∀ v ∈ s.weighed, v.instant ≤ s.now
  limited : s.Limited

theorem counts_earlier {now later t : ℕ} (h : now ≤ later) (hc : counts later t = true) :
    counts now t = true := by
  simp only [counts, decide_eq_true_eq] at hc ⊢
  omega

theorem filter_later {now later : ℕ} (h : now ≤ later) (l : List ℕ) :
    (l.filter (counts now)).filter (counts later) = l.filter (counts later) := by
  rw [List.filter_filter]
  congr 1
  ext t
  rw [Bool.eq_iff_iff, Bool.and_eq_true]
  exact ⟨fun ht => ht.1,fun ht => ⟨ht,counts_earlier h ht⟩⟩

theorem rateAllow_counts (m : Attempts) (ip : IpAddr) (now : ℕ) (k : IpAddr) :
    ((rateAllow m ip now).2 k).filter (counts now) =
      (m k).filter (counts now)++if k = ip ∧ (rateAllow m ip now).1 then [now] else [] := by
  have hc : counts now now = true := by simp [counts, authWindow]
  by_cases hf : authMaxPerIp ≤ ((m ip).filter (counts now)).length
  · rw [rateAllow, if_pos hf]
    by_cases hk : k = ip
    · subst hk
      simp [filter_later le_rfl]
    · simp [hk]
  · rw [rateAllow, if_neg hf]
    by_cases hk : k = ip
    · subst hk
      simp [filter_later le_rfl, hc]
    · simp [hk]

theorem rateAllow_capped (m : Attempts) (ip : IpAddr) (now : ℕ)
    (h : ∀ k, (m k).length ≤ authMaxPerIp) (k : IpAddr) :
    ((rateAllow m ip now).2 k).length ≤ authMaxPerIp := by
  by_cases hk : k = ip
  · subst hk
    by_cases hf : authMaxPerIp ≤ ((m k).filter (counts now)).length
    · rw [rateAllow, if_pos hf]
      simpa using (List.length_filter_le ..).trans (h k)
    · rw [rateAllow, if_neg hf]
      simp only [Function.update_self, List.length_append, List.length_singleton]
      omega
  · have hu : (rateAllow m ip now).2 k = m k := by
      unfold rateAllow
      dsimp only
      split <;> exact Function.update_of_ne hk ..
    rw [hu]
    exact h k

theorem init_sound (server : Server) : (init server).Sound where
  attempts ip := rfl
  capped ip := Nat.zero_le _
  distinct := List.nodup_nil
  known := by simp [init]
  past := by simp [init]
  limited ip start := Nat.zero_le _

/-- Positions of distinct elements with a property are as few as the elements. -/
theorem length_le_of_positions {α : Type} (l : List α) (p : α → Bool) (is : List ℕ)
    (hn : is.Nodup) (h : ∀ i ∈ is, ∃ a, l[i]? = some a ∧ p a = true) :
    is.length ≤ (l.filter p).length := by
  have hs : is ⊆ (l.zipIdx.filter fun x => p x.1).map Prod.snd := by
    intro i hi
    obtain ⟨a,ha,hp⟩ := h i hi
    refine List.mem_map.mpr ⟨(a,i),List.mem_filter.mpr ⟨?_,hp⟩,rfl⟩
    exact List.mem_zipIdx_iff_getElem?.mpr ha
  have hl : ((l.zipIdx.filter fun x => p x.1).map Prod.fst) = l.filter p := by
    calc (l.zipIdx.filter (p ∘ Prod.fst)).map Prod.fst = (l.zipIdx.map Prod.fst).filter p :=
          List.filter_map.symm
      _ = l.filter p := by rw [List.zipIdx_map_fst]
  calc is.length ≤ ((l.zipIdx.filter fun x => p x.1).map Prod.snd).length :=
        (hn.subperm hs).length_le
    _ = ((l.zipIdx.filter fun x => p x.1).map Prod.fst).length := by simp
    _ = (l.filter p).length := by rw [hl]

/-- The connections of an address accepted within the window are few. -/
theorem Sound.admitted_le {s : State} (h : s.Sound) (ip : IpAddr) :
    (s.admissions.filter fun p => p.1 = ip ∧ counts s.now p.2).length ≤ authMaxPerIp := by
  have he : (s.admissions.filter fun p => p.1 = ip ∧ counts s.now p.2).length =
      (((s.admissions.filter fun p => p.1 = ip).map Prod.snd).filter (counts s.now)).length := by
    rw [List.filter_map, List.length_map, List.filter_filter]
    congr 2
    ext p
    simp [Bool.and_comm]
  rw [he, ← h.attempts ip]
  exact (List.length_filter_le ..).trans (h.capped ip)

theorem accept_admissions (s : State) (ip : IpAddr) (link : Link) :
    (s.accept ip link).admissions =
      s.admissions++if (rateAllow s.attempts ip s.now).1 then [(ip,s.now)] else [] := by
  rw [admissions, accept]
  cases h : (rateAllow s.attempts ip s.now).1 <;> simp [h, admissions]

theorem accept_sound (s : State) (h : s.Sound) (ip : IpAddr) (link : Link) :
    (s.accept ip link).Sound := by
  have ha := accept_admissions s ip link
  have hc : counts s.now s.now = true := by simp [counts, authWindow]
  refine ⟨fun k => ?_,fun k => rateAllow_capped s.attempts ip s.now h.capped k,h.distinct,?_,h.past,
    h.limited⟩
  · show ((rateAllow s.attempts ip s.now).2 k).filter (counts s.now) =
      ((((s.accept ip link).admissions).filter fun p => p.1 = k).map Prod.snd).filter (counts s.now)
    rw [ha, rateAllow_counts, h.attempts k, List.filter_append, List.map_append, List.filter_append]
    congr 1
    by_cases hk : k = ip <;> cases (rateAllow s.attempts ip s.now).1 <;>
      simp [hk, hc, eq_comm]
  · intro v hv
    have hv := h.known v hv
    rw [ha, List.getElem?_append_left (List.getElem?_eq_some_iff.mp hv).1, hv]

theorem serve_admissions (s : State) (c : ℕ) (conn : Conn) (link : Link)
    (req : Option AuthRequest) (hc : s.conns[c]? = some conn) :
    (s.serve b3 c conn link req).admissions = s.admissions := by
  rw [admissions, serve, List.map_set, admissions]
  apply List.ext_getElem?
  intro i
  rw [List.getElem?_set]
  split_ifs with hi hl
  · subst hi
    simp [hc]
  · subst hi
    simpa using hl
  · rfl

theorem weigh_limited (s : State) (h : s.Sound) (c : ℕ) (ip : IpAddr) (admitted : ℕ)
    (hc : s.admissions[c]? = some (ip,admitted)) (hf : ∀ v ∈ s.weighed, v.conn ≠ c)
    (ha : counts s.now admitted = true)
    (hw : ∀ v ∈ s.weighed, v.ip = ip → counts s.now v.instant = true →
      counts s.now v.admitted = true) (k : IpAddr) (start : ℕ) :
    ((s.weighed++[Weighing.mk c ip admitted s.now]).filter (within k start)).length ≤ authMaxPerIp := by
  by_cases hin : ip = k ∧ start ≤ s.now ∧ s.now < start+authWindow
  · obtain ⟨rfl,hs,hl⟩ := hin
    set late := (s.weighed++[Weighing.mk c ip admitted s.now]).filter (within ip start)
    have hd : (late.map Weighing.conn).Nodup := by
      apply List.Nodup.sublist (List.filter_sublist.map _)
      rw [List.map_append]
      refine h.distinct.append (List.nodup_singleton _) (List.disjoint_singleton.mpr ?_)
      rintro hm
      obtain ⟨v,hv,he⟩ := List.mem_map.mp hm
      exact hf v hv he
    have hp : ∀ i ∈ late.map Weighing.conn, ∃ a, s.admissions[i]? = some a ∧
        decide (a.1 = ip ∧ counts s.now a.2) = true := by
      intro i hi
      obtain ⟨v,hv,rfl⟩ := List.mem_map.mp hi
      obtain ⟨hv,hq⟩ := List.mem_filter.mp hv
      simp only [within, decide_eq_true_eq] at hq
      rcases List.mem_append.mp hv with hv | hv
      · have hn : counts s.now v.instant = true := by
          simp only [counts, decide_eq_true_eq]
          omega
        exact ⟨_,h.known v hv,by simpa [hq.1] using hw v hv hq.1 hn⟩
      · rw [List.mem_singleton.mp hv]
        exact ⟨_,hc,by simpa using ha⟩
    calc late.length = (late.map Weighing.conn).length := by simp
      _ ≤ _ := length_le_of_positions s.admissions _ _ hd hp
      _ ≤ authMaxPerIp := h.admitted_le ip
  · rw [List.filter_append, List.filter_cons_of_neg (by simpa [within] using hin), List.filter_nil,
      List.append_nil]
    exact h.limited k start

theorem serve_sound (s : State) (h : s.Sound) (c : ℕ) (conn : Conn) (link : Link)
    (req : Option AuthRequest) (hc : s.conns[c]? = some conn)
    (hw : ∀ r, req = some r → Weighs r → (∀ v ∈ s.weighed, v.conn ≠ c) ∧
      counts s.now conn.admitted ∧
      ∀ v ∈ s.weighed, v.ip = conn.ip → counts s.now v.instant → counts s.now v.admitted) :
    (s.serve b3 c conn link req).Sound := by
  have ha := serve_admissions b3 s c conn link req hc
  have hm : s.admissions[c]? = some (conn.ip,conn.admitted) := by simp [admissions, hc]
  by_cases hr : ∃ r, req = some r ∧ Weighs r
  · obtain ⟨r,rfl,hr⟩ := hr
    obtain ⟨hf,hn,hl⟩ := hw r rfl hr
    have he : (s.serve b3 c conn link (some r)).weighed =
        s.weighed++[⟨c,conn.ip,conn.admitted,s.now⟩] := by simp [serve, hr]
    refine ⟨by rw [ha]; exact h.attempts,h.capped,?_,?_,?_,?_⟩
    · rw [he, List.map_append]
      refine h.distinct.append (List.nodup_singleton _) (List.disjoint_singleton.mpr ?_)
      rintro hv
      obtain ⟨v,hv,he⟩ := List.mem_map.mp hv
      exact hf v hv he
    · rw [ha, he]
      intro v hv
      rcases List.mem_append.mp hv with hv | hv
      · exact h.known v hv
      · rw [List.mem_singleton.mp hv]
        exact hm
    · rw [he]
      intro v hv
      rcases List.mem_append.mp hv with hv | hv
      · exact h.past v hv
      · rw [List.mem_singleton.mp hv]
        exact le_refl s.now
    · unfold Limited
      rw [he]
      exact weigh_limited s h c conn.ip conn.admitted hm hf hn hl
  · have he : (s.serve b3 c conn link req).weighed = s.weighed := by
      cases req with
      | none => simp [serve]
      | some r => simp [serve, show ¬Weighs r from fun hw => hr ⟨r,rfl,hw⟩]
    refine ⟨by rw [ha]; exact h.attempts,h.capped,by rw [he]; exact h.distinct,?_,?_,?_⟩
    · rw [ha, he]; exact h.known
    · rw [he]; exact h.past
    · unfold Limited
      rw [he]
      exact h.limited

theorem attend_conn (s : State) (a : Act) (c : ℕ) (conn : Conn) (link : Link)
    (req : Option AuthRequest) (h : s.attend b3 q a = some (c,conn,link,req)) :
    s.conns[c]? = some conn := by
  cases a with
  | handshake k recv =>
    simp only [attend] at h
    split at h
    · rename_i hk
      cases h
      exact hk
    · cases h
  | ws k a =>
    simp only [attend] at h
    split at h
    · rename_i hk
      obtain ⟨t,-,he⟩ := Option.map_eq_some_iff.mp h
      cases he
      exact hk
    · cases h
  | wait | acceptQuic | acceptWs => cases h

theorem step_sound (key : Option Bytes) (s : State) (a : Act) (t : State) (h : s.Sound)
    (hc : s.Counted b3 q a) (hs : s.step b3 q key a = some t) : t.Sound := by
  have hserve : ∀ r, s.attend b3 q a = some r → t = s.serve b3 r.1 r.2.1 r.2.2.1 r.2.2.2 →
      t.Sound := by
    rintro ⟨c,conn,link,req⟩ hr rfl
    refine serve_sound b3 s h c conn link req (attend_conn b3 q s a c conn link req hr) ?_
    rintro r rfl hw
    exact hc c conn link r hr hw
  cases a with
  | wait d =>
    cases hs
    refine ⟨fun ip => ?_,h.capped,h.distinct,h.known,fun v hv => ?_,h.limited⟩
    · have hd : s.now ≤ s.now+d := Nat.le_add_right ..
      calc (s.attempts ip).filter (counts (s.now+d))
          = ((s.attempts ip).filter (counts s.now)).filter (counts (s.now+d)) :=
            (filter_later hd _).symm
        _ = _ := by rw [h.attempts ip, filter_later hd]; rfl
    · exact (h.past v hv).trans (Nat.le_add_right ..)
  | acceptQuic ip => cases hs; exact accept_sound s h ip _
  | acceptWs ip => cases hs; exact accept_sound s h ip _
  | handshake c recv =>
    obtain ⟨r,hr,he⟩ := Option.map_eq_some_iff.mp hs
    exact hserve r hr he.symm
  | ws c a =>
    obtain ⟨r,hr,he⟩ := Option.map_eq_some_iff.mp hs
    exact hserve r hr he.symm

/-- In every run whose proofs are all counted the limit holds at every instant. -/
theorem limited_of_counted (key : Option Bytes) (server : Server) (acts : List Act) (s : State)
    (hr : run (step b3 q key) acts (init server) = some s)
    (hc : Meets (step b3 q key) (Counted b3 q) acts (init server)) : s.Limited :=
  (run_preserves_where (fun s a t h hc hs => step_sound b3 q key s a t h hc hs) acts _ s hc hr
    (init_sound server)).limited

def guess : Act := .ws 0 (.receive (fun _ => .error .io)
  (.binary (Frame.encode ⟨0,Frame.frameAuthRequest,Endpoint.emptyProof.encode⟩)))

def peer : IpAddr := .v4 (.replicate 4 0)

theorem first_counted (s : State) (a : Act) (hw : s.weighed = [])
    (hc : ∀ conn ∈ s.conns, conn.admitted = s.now) : s.Counted b3 q a := by
  intro c conn link req h _
  have hm := hc conn (List.mem_of_getElem? (attend_conn b3 q s a c conn link _ h))
  rw [hw]
  exact ⟨by simp,by simp [hm, counts, authWindow],by simp⟩

theorem one_guess_limited : ∃ s,
    run (step copyHash Queues.source none) [.acceptWs peer,guess] (init Endpoint.exampleServer) =
      some s ∧ s.weighed.length = 1 ∧ s.Limited := by
  have hr : ((run (step copyHash Queues.source none) [.acceptWs peer,guess]
      (init Endpoint.exampleServer)).map fun s => decide (s.weighed.length = 1)) = some true := by
    decide +kernel
  obtain ⟨s,hs,hd⟩ := Option.map_eq_some_iff.mp hr
  refine ⟨s,hs,of_decide_eq_true hd,
    limited_of_counted copyHash Queues.source none Endpoint.exampleServer _ s hs ⟨?_,?_⟩⟩
  · exact first_counted _ _ _ _ rfl (by simp [init])
  · intro t ht
    cases ht
    refine ⟨first_counted _ _ _ _ rfl ?_,fun _ _ => trivial⟩
    intro conn hc
    obtain rfl : conn = _ := List.mem_singleton.mp hc
    rfl

def guessing (n : ℕ) : List Act :=
  .acceptWs peer::(List.replicate n [guess,.ws 0 .push,.ws 0 .finish]).flatten

theorem guessing_runs :
    ((run (step copyHash Queues.source none) (guessing 31) (init Endpoint.exampleServer)).map
      fun s => decide ((s.weighed.filter (within peer 0)).length = 31)) = some true := by
  decide +kernel

/-- Thirty-one proofs of one address are weighed at one instant. -/
theorem guessing_unlimited : ∃ acts s,
    run (step copyHash Queues.source none) acts (init Endpoint.exampleServer) = some s ∧
      ¬s.Limited := by
  obtain ⟨s,hr,hd⟩ := Option.map_eq_some_iff.mp guessing_runs
  refine ⟨guessing 31,s,hr,fun hl => ?_⟩
  have h := hl peer 0
  rw [of_decide_eq_true hd] at h
  exact absurd h (by decide)

end State
end Hydr.RateLimit
