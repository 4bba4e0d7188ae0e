import Mathlib
import Hydr.QuicHandshake
import Hydr.Library.Transition

/-!
# The events of a QUIC tunnel

`next_event` races the acceptance of a stream against the receipt of a
datagram, and drops the one that loses. A stream belongs to the future that
accepted it while its first message is read, piece by piece; it is lost with
that future. The connection itself stays up, and its own two queues lose
nothing.
-/

set_option autoImplicit false

namespace Hydr.Quic
open Message Varint Transition

def awaits : Bytes → Bool
  | [] => true
  | first::more =>
    let len := 1 <<< (first >>> 6).toNat
    more.length < len-1 ||
      match decodeVarint (first::more.take (len-1)) with
      | .ok (v,_) => (more.drop (len-1)).length < v
      | .error _ => false

inductive Event where
  | stream (id : ℕ) (address : Address)
  | datagram (dg : Datagram)
  deriving DecidableEq

/-- A connection after the handshake, with the event loop that it feeds. The
streams are numbered as they arrive; `held` is the one that the pending
`accept_stream` has taken. -/
structure Tunnel where
  opened : ℕ
  waiting : List ℕ
  bytes : ℕ → Bytes
  datagrams : List Bytes
  held : Option ℕ
  ended : Bool
  yielded : List Event
  /-- The datagrams that have arrived, in order. -/
  received : List Bytes

def Tunnel.init : Tunnel where
  opened := 0
  waiting := []
  bytes _ := []
  datagrams := []
  held := none
  ended := false
  yielded := []
  received := []

inductive Act where
  | open
  | arrive (id : ℕ) (bytes : Bytes)
  | datagram (bytes : Bytes)
  | poll (datagramFirst : Bool)

namespace Tunnel

/-- The datagram branch, if it is ready; the other future is dropped. -/
def recvDatagram (s : Tunnel) : Option Tunnel :=
  match s.datagrams with
  | [] => none
  | data::datagrams =>
    some (match Datagram.decode data with
      | .ok (dg,_) => { s with
          datagrams := datagrams
          held := none
          yielded := s.yielded++[.datagram dg] }
      | .error _ => { s with datagrams := datagrams, held := none, ended := true })

def acceptBi (s : Tunnel) : Tunnel :=
  match s.held, s.waiting with
  | none, id::waiting => { s with held := some id, waiting := waiting }
  | _, _ => s

def acceptStream (s : Tunnel) : Bool × Tunnel :=
  let s := s.acceptBi
  match s.held with
  | none => (false,s)
  | some id =>
    if awaits (s.bytes id) then (false,s)
    else
      match readMessage OpenStream.decode (s.bytes id) with
      | .ok (req,_) =>
        (true,{ s with held := none, yielded := s.yielded++[.stream id req.address] })
      | .error _ => (true,{ s with held := none, ended := true })

/-- One poll of `next_event`, in the order that `select!` picks. -/
def nextEvent (s : Tunnel) (datagramFirst : Bool) : Tunnel :=
  if datagramFirst then s.recvDatagram.getD s.acceptStream.2
  else
    match s.acceptStream with
    | (true,t) => t
    | (false,t) => t.recvDatagram.getD t

def step (s : Tunnel) : Act → Option Tunnel
  | .open => some { s with opened := s.opened+1, waiting := s.waiting++[s.opened] }
  | .arrive id bytes =>
    if id < s.opened then some { s with bytes := Function.update s.bytes id (s.bytes id++bytes) }
    else none
  | .datagram bytes => some { s with
      datagrams := s.datagrams++[bytes]
      received := s.received++[bytes] }
  | .poll datagramFirst => if s.ended then none else some (s.nextEvent datagramFirst)

end Tunnel

def Begins (recv : Bytes) : Prop := ∃ buf m n rest more, OpenStream.decode buf = .ok (m,n) ∧
  buf.length < 2^62 ∧ recv++more = writeLenPrefixed buf++rest

theorem readMessage_prefixed {T : Type} (decode : Bytes → Result (T × ℕ)) (buf rest : Bytes)
    (hl : buf.length < 2^62) :
    readMessage decode (writeLenPrefixed buf++rest) =
      (decode buf).map fun p => (p.1,rest) := by
  simp only [readMessage, writeLenPrefixed, List.append_assoc, readVarint_write,
    Nat.mod_eq_of_lt hl, readExact_append, bind, Except.bind, pure, Except.pure]
  cases decode buf <;> rfl

/-- The readers wait exactly until the whole message is there. -/
theorem awaits_iff (buf rest recv more : Bytes) (hl : buf.length < 2^62)
    (h : recv++more = writeLenPrefixed buf++rest) :
    awaits recv = true ↔ recv.length < (writeLenPrefixed buf).length := by
  obtain ⟨first,tail,he⟩ := encodeVarint_cons buf.length
  have hd := decode_encode buf.length []
  rw [List.append_nil, he, Nat.mod_eq_of_lt hl] at hd
  have hlen : (writeLenPrefixed buf).length = tail.length+1+buf.length := by
    rw [writeLenPrefixed, writeVarint, he]
    simp only [List.cons_append, List.length_cons, List.length_append]
    omega
  rw [writeLenPrefixed, writeVarint, he] at h
  rw [hlen]
  cases recv with
  | nil => simp [awaits]
  | cons b recv =>
    simp only [List.cons_append, List.append_assoc, List.cons.injEq] at h
    obtain ⟨rfl,h⟩ := h
    have hm : 1 <<< (b >>> 6).toNat-1 = tail.length := by
      rw [encodeVarint_head _ b tail he]
      rfl
    simp only [awaits, hm]
    rcases Nat.lt_or_ge recv.length tail.length with hs | hs
    · simp only [hs, decide_true, Bool.true_or, List.length_cons, true_iff]
      omega
    · have ht : recv.take tail.length = tail := by
        have := congrArg (List.take tail.length) h
        rwa [List.take_append_of_le_length hs, List.take_append_of_le_length le_rfl,
          List.take_length] at this
      rw [ht, hd]
      simp only [List.length_drop, List.length_cons, Bool.or_eq_true, decide_eq_true_eq]
      omega

theorem begins_reads (recv : Bytes) (h : Begins recv) (hw : awaits recv = false) :
    ∃ req rest, readMessage OpenStream.decode recv = .ok (req,rest) := by
  obtain ⟨buf,m,n,rest,more,hd,hl,he⟩ := h
  have hn : (writeLenPrefixed buf).length ≤ recv.length := by
    by_contra hn
    rw [(awaits_iff buf rest recv more hl he).mpr (not_le.mp hn)] at hw
    cases hw
  obtain ⟨tail,rfl⟩ : ∃ tail, recv = writeLenPrefixed buf++tail := by
    obtain ⟨t,ht⟩ | ⟨t,ht⟩ := List.append_eq_append_iff.mp he
    · have hz := congrArg List.length ht.1
      rw [List.length_append] at hz
      obtain rfl : t = [] := List.length_eq_zero_iff.mp (by omega)
      exact ⟨[],by simpa using ht.1.symm⟩
    · exact ⟨t,ht.1⟩
  exact ⟨m,tail,by rw [readMessage_prefixed _ _ _ hl, hd]; rfl⟩

def streams : List Event → List ℕ
  | [] => []
  | .stream id _::events => id::streams events
  | .datagram _::events => streams events

def messages : List Event → List Datagram
  | [] => []
  | .stream _ _::events => messages events
  | .datagram dg::events => dg::messages events

@[simp] theorem streams_append (a b : List Event) : streams (a++b) = streams a++streams b := by
  induction a with
  | nil => rfl
  | cons e a ih => cases e <;> simp [streams, ih]

@[simp] theorem messages_append (a b : List Event) : messages (a++b) = messages a++messages b := by
  induction a with
  | nil => rfl
  | cons e a ih => cases e <;> simp [messages, ih]

def decoded (data : Bytes) : Option Datagram := (Datagram.decode data).toOption.map Prod.fst

namespace Tunnel

def front (s : Tunnel) : Option ℕ := s.held.or s.waiting.head?

def behind (s : Tunnel) : List ℕ := if s.held.isSome then s.waiting else s.waiting.tail

def Lossless (s : Tunnel) : Prop :=
  streams s.yielded++(s.held.toList++s.waiting) = List.range s.opened ∧
    messages s.yielded++s.datagrams.filterMap decoded =
      s.received.filterMap decoded

def Due (s : Tunnel) : Prop :=
  s.datagrams ≠ [] ∨ ∃ id, s.front = some id ∧ awaits (s.bytes id) = false

def WellFormed (s : Tunnel) (a : Act) : Prop :=
  (∀ id bytes, a = .arrive id bytes → Begins (s.bytes id++bytes)) ∧
    ∀ data, a = .datagram data → ∃ dg, decoded data = some dg

def Delivers (s : Tunnel) (a : Act) : Prop := ∀ t, s.step a = some t → t.Lossless ∧
  ∀ first, a = .poll first → s.Due → t.yielded.length = s.yielded.length+1

/-- The datagram branch wins over a stream that was taken and is not complete,
or is not looked at. -/
def Overtakes (s : Tunnel) (datagramFirst : Bool) : Prop :=
  s.datagrams ≠ [] ∧ if datagramFirst then s.held ≠ none
    else ∃ id, s.front = some id ∧ awaits (s.bytes id) = true

def Patient (s : Tunnel) (a : Act) : Prop := ∀ first, a = .poll first → ¬s.Overtakes first

instance (s : Tunnel) (datagramFirst : Bool) : Decidable (s.Overtakes datagramFirst) :=
  have : Decidable (∃ id, s.front = some id ∧ awaits (s.bytes id) = true) :=
    inferInstanceAs (Decidable (∃ id ∈ s.front, awaits (s.bytes id) = true))
  inferInstanceAs (Decidable (_ ∧ if datagramFirst then _ else _))

instance (s : Tunnel) : DecidablePred s.Patient
  | .poll first => decidable_of_iff (¬s.Overtakes first) (by simp [Patient])
  | .open | .arrive .. | .datagram _ => isTrue (by simp [Patient])

structure Sound (s : Tunnel) : Prop where
  lossless : s.Lossless
  begins : ∀ id, Begins (s.bytes id)
  datagrams : ∀ data ∈ s.datagrams, ∃ dg, decoded data = some dg
  running : s.ended = false

theorem acceptBi_eq (s : Tunnel) :
    s.acceptBi = { s with held := s.front, waiting := s.behind } := by
  unfold acceptBi front behind
  rcases s with ⟨_,_ | ⟨id,waiting⟩,_,_,_ | id,_,_,_⟩ <;> rfl

theorem front_behind (s : Tunnel) : s.front.toList++s.behind = s.held.toList++s.waiting := by
  unfold front behind
  rcases s with ⟨_,_ | ⟨id,waiting⟩,_,_,_ | id,_,_,_⟩ <;> rfl

theorem acceptStream_waits (s : Tunnel)
    (hw : ∀ id, s.front = some id → awaits (s.bytes id) = true) :
    s.acceptStream = (false,{ s with held := s.front, waiting := s.behind }) := by
  unfold acceptStream
  rw [acceptBi_eq]
  cases hf : s.front with
  | none => rfl
  | some id => simp [hw id hf]

theorem acceptStream_yields (s : Tunnel) (id : ℕ) (hf : s.front = some id)
    (hb : Begins (s.bytes id)) (hw : awaits (s.bytes id) = false) :
    ∃ address, s.acceptStream = (true,{ s with
      held := none
      waiting := s.behind
      yielded := s.yielded++[.stream id address] }) := by
  obtain ⟨req,rest,hr⟩ := begins_reads _ hb hw
  refine ⟨req.address,?_⟩
  unfold acceptStream
  rw [acceptBi_eq]
  simp [hf, hw, hr]

theorem recvDatagram_yields (s : Tunnel) (data : Bytes) (datagrams : List Bytes) (dg : Datagram)
    (hs : s.datagrams = data::datagrams) (hd : decoded data = some dg) :
    s.recvDatagram = some { s with
      datagrams := datagrams
      held := none
      yielded := s.yielded++[.datagram dg] } := by
  unfold recvDatagram
  rw [hs]
  cases hp : Datagram.decode data with
  | error _ => simp [decoded, hp, Except.toOption] at hd
  | ok p =>
    obtain rfl : p.1 = dg := by simpa [decoded, hp, Except.toOption] using hd
    dsimp only
    rw [hp]

/-- The ways a poll can end on a sound tunnel: a stream, a datagram, nothing. -/
theorem nextEvent_cases (s : Tunnel) (h : s.Sound) (first : Bool) :
    (∃ id address, s.front = some id ∧ awaits (s.bytes id) = false ∧
      (first = true → s.datagrams = []) ∧
      s.nextEvent first = { s with
        held := none
        waiting := s.behind
        yielded := s.yielded++[.stream id address] }) ∨
    (∃ data datagrams dg, s.datagrams = data::datagrams ∧ decoded data = some dg ∧
      (first = false → ∀ id, s.front = some id → awaits (s.bytes id) = true) ∧
      s.nextEvent first = { s with
        datagrams := datagrams
        held := none
        waiting := if first then s.waiting else s.behind
        yielded := s.yielded++[.datagram dg] }) ∨
    (s.datagrams = [] ∧ (∀ id, s.front = some id → awaits (s.bytes id) = true) ∧
      s.nextEvent first = { s with held := s.front, waiting := s.behind }) := by
  have hnone : s.datagrams = [] → s.recvDatagram = none := fun hd => by rw [recvDatagram, hd]
  cases hd : s.datagrams with
  | nil =>
    by_cases hw : ∀ id, s.front = some id → awaits (s.bytes id) = true
    · refine Or.inr (Or.inr ⟨rfl,hw,?_⟩)
      have hn : ({ s with held := s.front, waiting := s.behind } : Tunnel).recvDatagram = none := by
        rw [recvDatagram, hd]
      cases first with
      | true => simp [nextEvent, acceptStream_waits s hw, hnone hd, hd]
      | false =>
        simp only [nextEvent, Bool.false_eq_true, if_false, acceptStream_waits s hw, hn,
          Option.getD_none]
        rw [hd]
    · simp only [not_forall, Bool.not_eq_true] at hw
      obtain ⟨id,hf,hw⟩ := hw
      obtain ⟨address,ha⟩ := acceptStream_yields s id hf (h.begins id) hw
      refine Or.inl ⟨id,address,hf,hw,fun _ => rfl,?_⟩
      cases first <;> simp [nextEvent, ha, hnone hd, hd]
  | cons data datagrams =>
    obtain ⟨dg,hg⟩ := h.datagrams data (hd ▸ List.mem_cons_self ..)
    cases first with
    | true =>
      refine Or.inr (Or.inl ⟨data,datagrams,dg,rfl,hg,by simp,?_⟩)
      simp [nextEvent, recvDatagram_yields s data datagrams dg hd hg]
    | false =>
      by_cases hw : ∀ id, s.front = some id → awaits (s.bytes id) = true
      · refine Or.inr (Or.inl ⟨data,datagrams,dg,rfl,hg,fun _ => hw,?_⟩)
        have hr := recvDatagram_yields { s with held := s.front, waiting := s.behind } data
          datagrams dg hd hg
        simp [nextEvent, acceptStream_waits s hw, hr]
      · simp only [not_forall, Bool.not_eq_true] at hw
        obtain ⟨id,hf,hw⟩ := hw
        obtain ⟨address,ha⟩ := acceptStream_yields s id hf (h.begins id) hw
        refine Or.inl ⟨id,address,hf,hw,by simp,?_⟩
        simp [nextEvent, ha, hd]

theorem init_sound : init.Sound where
  lossless := ⟨rfl,rfl⟩
  begins id := ⟨(OpenStream.mk (.domain [97] 80)).encode,⟨.domain [97] 80⟩,_,[],_,rfl,by decide,rfl⟩
  datagrams := by simp [init]
  running := rfl

theorem arrival_lossless (s t : Tunnel) (a : Act) (h : s.Sound) (ha : ∀ first, a ≠ .poll first)
    (hs : s.step a = some t) : t.Lossless := by
  obtain ⟨hl,hd⟩ := h.lossless
  cases a with
  | «open» =>
    cases hs
    refine ⟨?_,hd⟩
    rw [List.range_succ, ← hl]
    simp [List.append_assoc]
  | arrive id bytes =>
    simp only [step] at hs
    split_ifs at hs
    cases hs
    exact ⟨hl,hd⟩
  | datagram data =>
    cases hs
    refine ⟨hl,?_⟩
    show messages s.yielded++(s.datagrams++[data]).filterMap decoded =
      (s.received++[data]).filterMap decoded
    rw [List.filterMap_append, List.filterMap_append, ← List.append_assoc, hd]
  | poll first => exact absurd rfl (ha first)

/-- A poll loses nothing exactly when nothing is overtaken. -/
theorem poll_lossless_iff (s : Tunnel) (h : s.Sound) (first : Bool) :
    (s.nextEvent first).Lossless ↔ ¬s.Overtakes first := by
  obtain ⟨hl,hd⟩ := h.lossless
  have hlost : ∀ (o : Option ℕ) (ids : List ℕ),
      streams s.yielded++(o.toList++ids) = List.range s.opened →
      (streams s.yielded++ids = List.range s.opened ↔ o = none) := by
    intro o ids ho
    rw [← ho]
    cases o <;> simp
  rcases nextEvent_cases s h first with
    ⟨id,address,hf,hw,hn,ht⟩ | ⟨data,datagrams,dg,hs,hg,hw,ht⟩ | ⟨hn,hw,ht⟩
  · have hb := front_behind s
    rw [hf] at hb
    rw [ht]
    refine iff_of_true ⟨?_,by simpa [messages] using hd⟩ ?_
    · rw [← hl, ← hb]
      simp [streams]
    · rintro ⟨hne,ho⟩
      cases first with
      | true => exact hne (hn rfl)
      | false =>
        obtain ⟨k,hk,ha⟩ := ho
        obtain rfl : id = k := Option.some.inj (hf.symm.trans hk)
        simp [hw] at ha
  · have hm : messages (s.yielded++[Event.datagram dg])++datagrams.filterMap decoded =
        s.received.filterMap decoded := by
      rw [← hd, hs, messages_append, List.filterMap_cons_some hg]
      simp [messages]
    have hy : streams (s.yielded++[Event.datagram dg]) = streams s.yielded := by simp [streams]
    rw [ht]
    simp only [Lossless, hm, hy, and_true, Option.toList_none, List.nil_append, Overtakes, hs]
    cases first with
    | true =>
      simp only [if_true, hlost s.held s.waiting hl]
      simp
    | false =>
      have hb := hlost s.front s.behind (by rw [front_behind, hl])
      simp only [if_false, Bool.false_eq_true, hb]
      cases hf : s.front with
      | none => simp
      | some id => simp [hw rfl id hf]
  · rw [ht]
    refine iff_of_true ⟨?_,hd⟩ fun ho => ho.1 hn
    show _++(s.front.toList++s.behind) = _
    rw [front_behind, hl]

theorem poll_due (s : Tunnel) (h : s.Sound) (first : Bool) (hd : s.Due) :
    (s.nextEvent first).yielded.length = s.yielded.length+1 := by
  rcases nextEvent_cases s h first with
    ⟨id,address,-,-,-,ht⟩ | ⟨data,datagrams,dg,-,-,-,ht⟩ | ⟨hn,hw,-⟩
  · simp [ht]
  · simp [ht]
  · rcases hd with hd | ⟨id,hf,ha⟩
    · exact absurd hn hd
    · rw [hw id hf] at ha
      cases ha

theorem delivers_iff (s : Tunnel) (a : Act) (h : s.Sound) : s.Delivers a ↔ s.Patient a := by
  cases a with
  | poll first =>
    have hs : s.step (.poll first) = some (s.nextEvent first) := by simp [step, h.running]
    constructor
    · rintro hd k hk
      cases hk
      exact (poll_lossless_iff s h first).mp (hd _ hs).1
    · intro hp t ht
      cases hs.symm.trans ht
      refine ⟨(poll_lossless_iff s h first).mpr (hp first rfl),fun k hk hd => ?_⟩
      exact poll_due s h first hd
  | «open» | arrive | datagram =>
    exact iff_of_true (fun t ht => ⟨arrival_lossless s t _ h (by simp) ht,by simp⟩) (by simp [Patient])

theorem step_sound (s : Tunnel) (a : Act) (t : Tunnel) (h : s.Sound)
    (hc : s.WellFormed a ∧ s.Delivers a) (hs : s.step a = some t) : t.Sound := by
  obtain ⟨⟨hb,hg⟩,hd⟩ := hc
  have hl := (hd t hs).1
  cases a with
  | «open» =>
    cases hs
    exact ⟨hl,h.begins,h.datagrams,h.running⟩
  | arrive id bytes =>
    simp only [step] at hs
    split_ifs at hs
    cases hs
    refine ⟨hl,fun k => ?_,h.datagrams,h.running⟩
    show Begins (Function.update s.bytes id (s.bytes id++bytes) k)
    by_cases hk : k = id
    · subst hk
      rw [Function.update_self]
      exact hb k bytes rfl
    · rw [Function.update_of_ne hk]
      exact h.begins k
  | datagram data =>
    cases hs
    refine ⟨hl,h.begins,fun d hm => ?_,h.running⟩
    rcases List.mem_append.mp hm with hm | hm
    · exact h.datagrams d hm
    · rw [List.mem_singleton.mp hm]
      exact hg data rfl
  | poll first =>
    obtain rfl : s.nextEvent first = t := by simpa [step, h.running] using hs
    rcases nextEvent_cases s h first with
      ⟨id,address,-,-,-,ht⟩ | ⟨data,datagrams,dg,hm,-,-,ht⟩ | ⟨-,-,ht⟩
    · rw [ht] at hl ⊢
      exact ⟨hl,h.begins,h.datagrams,h.running⟩
    · rw [ht] at hl ⊢
      exact ⟨hl,h.begins,fun d hd => h.datagrams d (hm ▸ List.mem_cons_of_mem _ hd),h.running⟩
    · rw [ht] at hl ⊢
      exact ⟨hl,h.begins,h.datagrams,h.running⟩

/-- On a run of well-formed arrivals nothing is lost, and polls yield what is
due, if and only if no datagram overtakes a stream that was taken. -/
theorem delivers_iff_patient (acts : List Act) (hw : Meets step WellFormed acts init) :
    Meets step Delivers acts init ↔ Meets step Patient acts init := by
  have h := meets_iff_along (fun s a t hi hc hs => step_sound s a t hi hc hs)
    (D := fun s a => s.WellFormed a ∧ s.Patient a)
    (fun s a hi => and_congr_right fun _ => delivers_iff s a hi) acts init init_sound
  simpa [meets_and, hw] using h

def body : Bytes := (OpenStream.mk (.domain [97] 80)).encode

def opening : Bytes := writeLenPrefixed body

theorem opening_begins (more rest : Bytes) (h : more++rest = opening) : Begins more :=
  ⟨body,⟨.domain [97] 80⟩,_,[],rest,rfl,by decide,by rw [h, opening, List.append_nil]⟩

def seven : Bytes := (Datagram.new 1 (.domain [97] 80) [7]).encode

theorem wellFormed_arrive {s : Tunnel} {id : ℕ} {bytes : Bytes} (h : Begins (s.bytes id++bytes)) :
    s.WellFormed (.arrive id bytes) := by
  refine ⟨?_,by simp⟩
  rintro _ _ ⟨⟩
  exact h

theorem wellFormed_seven (s : Tunnel) : s.WellFormed (.datagram seven) := by
  refine ⟨by simp,?_⟩
  rintro _ ⟨⟩
  exact ⟨Datagram.new 1 (.domain [97] 80) [7],by decide⟩

def pieces : List Act :=
  [.open,.arrive 0 (opening.take 1),.poll false,.arrive 0 (opening.drop 1),.datagram seven,
    .poll false,.poll true]

theorem pieces_deliver : Meets step Delivers pieces init := by
  have hw : Meets step WellFormed pieces init :=
    meets_cons rfl (by simp [WellFormed]) <|
    meets_cons rfl (wellFormed_arrive (opening_begins _ (opening.drop 1) (by decide))) <|
    meets_cons rfl (by simp [WellFormed]) <|
    meets_cons rfl (wellFormed_arrive (opening_begins _ [] (by decide))) <|
    meets_cons rfl (wellFormed_seven _) <| meets_cons rfl (by simp [WellFormed]) <|
    meets_cons rfl (by simp [WellFormed]) trivial
  exact (delivers_iff_patient pieces hw).mpr (by decide +kernel)

def interrupted : List Act :=
  [.open,.arrive 0 (opening.take 1),.poll false,.datagram seven,.poll true,
    .arrive 0 (opening.drop 1),.poll false]

/-- The datagram wins, and the stream is neither yielded nor anywhere else. -/
theorem interrupted_stream_lost : ∃ acts s, Meets step WellFormed acts init ∧
    run step acts init = some s ∧ s.opened = 1 ∧ streams s.yielded = [] ∧ s.held = none ∧
    s.waiting = [] ∧ ¬s.Lossless := by
  have hd : ((run step interrupted init).map fun s => decide (s.opened = 1 ∧
      streams s.yielded = [] ∧ s.held = none ∧ s.waiting = [])) = some true := by decide +kernel
  obtain ⟨s,hr,hs⟩ := Option.map_eq_some_iff.mp hd
  obtain ⟨ho,hy,hh,hw⟩ := of_decide_eq_true hs
  have hwf : Meets step WellFormed interrupted init :=
    meets_cons rfl (by simp [WellFormed]) <|
    meets_cons rfl (wellFormed_arrive (opening_begins _ (opening.drop 1) (by decide))) <|
    meets_cons rfl (by simp [WellFormed]) <| meets_cons rfl (wellFormed_seven _) <|
    meets_cons rfl (by simp [WellFormed]) <|
    meets_cons rfl (wellFormed_arrive (opening_begins _ [] (by decide))) <|
    meets_cons rfl (by simp [WellFormed]) trivial
  refine ⟨interrupted,s,hwf,hr,ho,hy,hh,hw,fun hl => ?_⟩
  have := hl.1
  simp [ho, hy, hh, hw] at this

end Tunnel
end Hydr.Quic
