import Mathlib
import Hydr.Library.Path
import Hydr.QuicFraming

/-!
# A stream over QUIC

The bytes of a stream over QUIC go through a bidirectional stream of the library.
`open_stream` writes its request in front of them and waits for the acknowledgement;
`accept_stream` reads the request and `ack` writes the answer. What the library is
relied on for is that it is a segment itself.
-/

set_option autoImplicit false

namespace Hydr.Quic
open Message

theorem readExact_more (n : ℕ) (recv more buf rest : Bytes)
    (h : readExact n recv = .ok (buf,rest)) : readExact n (recv++more) = .ok (buf,rest++more) := by
  unfold readExact at h ⊢
  split_ifs at h with hn
  cases h
  rw [if_neg (by rw [List.length_append]; omega), List.take_append_of_le_length (by omega),
    List.drop_append_of_le_length (by omega)]

theorem readVarint_more (recv more rest : Bytes) (v : ℕ) (h : readVarint recv = .ok (v,rest)) :
    readVarint (recv++more) = .ok (v,rest++more) := by
  cases recv with
  | nil => cases h
  | cons first recv =>
    obtain ⟨⟨buf,rest'⟩,hr,h⟩ := ok_of_bind h
    obtain ⟨p,hd,h⟩ := ok_of_bind h
    cases h
    have hr := readExact_more _ recv more buf rest hr
    simp only [List.cons_append, readVarint, hr, hd, bind, Except.bind, pure, Except.pure]

/-- More bytes behind a message do not change it. -/
theorem readMessage_more {T : Type} (decode : Bytes → Result (T × ℕ)) (recv more rest : Bytes)
    (m : T) (h : readMessage decode recv = .ok (m,rest)) :
    readMessage decode (recv++more) = .ok (m,rest++more) := by
  obtain ⟨⟨len,recv'⟩,hv,h⟩ := ok_of_bind h
  obtain ⟨⟨buf,rest'⟩,hr,h⟩ := ok_of_bind h
  obtain ⟨p,hd,h⟩ := ok_of_bind h
  cases h
  have hv := readVarint_more recv more recv' len hv
  have hr := readExact_more len recv' more buf rest hr
  simp only [readMessage, hv, hr, hd, bind, Except.bind, pure, Except.pure]

/-- A message that can be read of a stream that begins with a written one is that
one, and all of it was there. -/
theorem read_in_front {T : Type} (decode : Bytes → Result (T × ℕ)) (buf recv rest : Bytes) (m m' : T)
    (hl : buf.length < 2^62) (hd : decode buf = .ok (m,buf.length))
    (hf : recv <+: writeLenPrefixed buf ∨ writeLenPrefixed buf <+: recv)
    (hr : readMessage decode recv = .ok (m',rest)) :
    m' = m ∧ recv = writeLenPrefixed buf++rest := by
  rcases hf with ⟨more,hm⟩ | ⟨tail,rfl⟩
  · have hw := readMessage_write decode buf [] m buf.length hl hd
    rw [List.append_nil, ← hm, readMessage_more decode recv more rest m' hr] at hw
    obtain ⟨rfl,he⟩ := Prod.mk.inj (Except.ok.inj hw)
    obtain ⟨rfl,rfl⟩ := List.append_eq_nil_iff.mp he
    rw [List.append_nil] at hm ⊢
    exact ⟨rfl,hm⟩
  · rw [readMessage_write decode buf tail m buf.length hl hd] at hr
    obtain ⟨rfl,rfl⟩ := Prod.mk.inj (Except.ok.inj hr)
    exact ⟨rfl,rfl⟩

abbrev Request : Type := { m : OpenStream // (ControlMessage.openStream m).Fits }

abbrev Answer : Type := { m : OpenStreamAck // (ControlMessage.openStreamAck m).Fits }

/-- A stream of the library, with what each side writes in front of the bytes of its
user and how much of what a side took was in front. -/
structure BiStream (quic : Segment UInt8) where
  raw : quic.State
  front : Bool → Bytes
  mark : Bool → Option ℕ
  accepted : Bool

inductive BiAct (quic : Segment UInt8) where
  | openStream (m : Request)
  | acceptStream
  | ack (m : Answer)
  | opened
  | front (a : quic.Act)
  | user (a : quic.Act)

namespace BiStream

variable {quic : Segment UInt8}

def ready (s : BiStream quic) : Bool → Bool
  | false => (s.mark false).isSome
  | true => s.accepted

def due (s : BiStream quic) (x : Bool) : Bytes := (s.front x).drop (quic.put s.raw x).length

def step (s : BiStream quic) : BiAct quic → Option (BiStream quic)
  | .openStream m =>
    if s.front false = [] then
      some { s with front := Function.update s.front false (writeLenPrefixed m.1.encode) }
    else none
  | .acceptStream =>
    match s.mark true, readMessage OpenStream.decode (quic.got s.raw true) with
    | none, .ok (_,rest) => some { s with
        mark := Function.update s.mark true (some ((quic.got s.raw true).length-rest.length)) }
    | _, _ => none
  | .ack m =>
    if (s.mark true).isSome ∧ s.front true = [] then some { s with
      front := Function.update s.front true (writeLenPrefixed m.1.encode)
      accepted := m.1.status != statusErr }
    else none
  | .opened =>
    match s.mark false, readMessage OpenStreamAck.decode (quic.got s.raw false) with
    | none, .ok (ack,rest) =>
      if ack.status = statusErr then none else some { s with
        mark := Function.update s.mark false (some ((quic.got s.raw false).length-rest.length)) }
    | _, _ => none
  | .front a =>
    if ∀ x, quic.puts a x <+: s.due x then (quic.step s.raw a).map fun raw => { s with raw := raw }
    else none
  | .user a =>
    if ∀ x, quic.puts a x = [] ∨ s.ready x = true ∧ s.due x = [] then
      (quic.step s.raw a).map fun raw => { s with raw := raw }
    else none

def put (s : BiStream quic) (x : Bool) : Bytes := (quic.put s.raw x).drop (s.front x).length

def got (s : BiStream quic) (x : Bool) : Bytes :=
  match s.mark x with
  | none => []
  | some n => (quic.got s.raw x).drop n

def puts (a : BiAct quic) (x : Bool) : Bytes :=
  match a with
  | .user a => quic.puts a x
  | _ => []

def closes (a : BiAct quic) (x : Bool) : Bool :=
  match a with
  | .front a | .user a => quic.closes a x
  | _ => false

def accepts : BiAct quic → Bool
  | .ack m => m.1.status != statusErr
  | _ => false

def sure (s : BiStream quic) : BiAct quic → Bool
  | .front a | .user a => quic.sure s.raw a
  | _ => true

inductive Moves (s : BiStream quic) : BiAct quic → BiStream quic → Prop where
  | openStream (m : Request) (hf : s.front false = []) :
    Moves s (.openStream m)
      { s with front := Function.update s.front false (writeLenPrefixed m.1.encode) }
  | acceptStream (m : OpenStream) (rest : Bytes) (hm : s.mark true = none)
      (hr : readMessage OpenStream.decode (quic.got s.raw true) = .ok (m,rest)) :
    Moves s .acceptStream { s with
      mark := Function.update s.mark true (some ((quic.got s.raw true).length-rest.length)) }
  | ack (m : Answer) (hm : (s.mark true).isSome) (hf : s.front true = []) :
    Moves s (.ack m) { s with
      front := Function.update s.front true (writeLenPrefixed m.1.encode)
      accepted := m.1.status != statusErr }
  | opened (m : OpenStreamAck) (rest : Bytes) (hm : s.mark false = none)
      (hr : readMessage OpenStreamAck.decode (quic.got s.raw false) = .ok (m,rest))
      (hs : m.status ≠ statusErr) :
    Moves s .opened { s with
      mark := Function.update s.mark false (some ((quic.got s.raw false).length-rest.length)) }
  | front (a : quic.Act) (raw : quic.State) (hp : ∀ x, quic.puts a x <+: s.due x)
      (hr : quic.step s.raw a = some raw) : Moves s (.front a) { s with raw := raw }
  | user (a : quic.Act) (raw : quic.State)
      (hp : ∀ x, quic.puts a x = [] ∨ s.ready x = true ∧ s.due x = [])
      (hr : quic.step s.raw a = some raw) : Moves s (.user a) { s with raw := raw }

theorem moves_of_step (s t : BiStream quic) (a : BiAct quic) (h : s.step a = some t) :
    Moves s a t := by
  cases a with
  | openStream m =>
    simp only [step] at h
    split_ifs at h with hf
    cases h
    exact .openStream m hf
  | acceptStream =>
    simp only [step] at h
    split at h
    · rename_i m rest hm hr
      cases h
      exact .acceptStream m rest hm hr
    · cases h
  | ack m =>
    simp only [step] at h
    split_ifs at h with hm
    cases h
    exact .ack m hm.1 hm.2
  | opened =>
    simp only [step] at h
    split at h
    · rename_i m rest hm hr
      split_ifs at h with hs
      cases h
      exact .opened m rest hm hr hs
    · cases h
  | front a =>
    simp only [step] at h
    split_ifs at h with hp
    obtain ⟨raw,hr,rfl⟩ := Option.map_eq_some_iff.mp h
    exact .front a raw hp hr
  | user a =>
    simp only [step] at h
    split_ifs at h with hp
    obtain ⟨raw,hr,rfl⟩ := Option.map_eq_some_iff.mp h
    exact .user a raw hp hr

structure Sound (s : BiStream quic) : Prop where
  raw : quic.Sound s.raw
  first : ∀ x, quic.put s.raw x <+: s.front x ∨
    s.front x <+: quic.put s.raw x ∧ s.ready x = true
  request : s.front false = [] ∨ ∃ m : Request, s.front false = writeLenPrefixed m.1.encode
  answer : s.front true = [] ∧ s.accepted = false ∨
    ∃ m : Answer, s.front true = writeLenPrefixed m.1.encode ∧
      s.accepted = (m.1.status != statusErr)
  asked : s.front true ≠ [] → (s.mark true).isSome
  marked : ∀ x n, s.mark x = some n → n = (s.front (!x)).length ∧ s.front (!x) ≠ [] ∧
    s.front (!x) <+: quic.got s.raw x
  answered : (s.mark false).isSome → s.accepted = true

theorem writeLenPrefixed_ne_nil (buf : Bytes) : writeLenPrefixed buf ≠ [] := by
  obtain ⟨first,more,he⟩ := encodeVarint_cons buf.length
  rw [writeLenPrefixed, writeVarint, he]
  simp

theorem Sound.ready_front {s : BiStream quic} (h : s.Sound) (x : Bool) (hr : s.ready x = true) :
    s.front x ≠ [] := by
  have hacc : s.accepted = true → s.front true ≠ [] := by
    intro ha
    rcases h.answer with ⟨-,hn⟩ | ⟨m,hm,-⟩
    · rw [ha] at hn
      cases hn
    · rw [hm]
      exact writeLenPrefixed_ne_nil _
  cases x with
  | true => exact hacc hr
  | false =>
    obtain ⟨n,hn⟩ := Option.isSome_iff_exists.mp (h.asked (hacc (h.answered hr)))
    exact (h.marked true n hn).2.1

theorem Sound.unwritten {s : BiStream quic} (h : s.Sound) (x : Bool) (hf : s.front x = []) :
    quic.put s.raw x = [] := by
  rcases h.first x with hp | ⟨-,hr⟩
  · rwa [hf, List.prefix_nil] at hp
  · exact absurd hf (h.ready_front x hr)

/-- What has arrived is a part of what is written in front, or goes beyond it. -/
theorem Sound.arrived {s : BiStream quic} (h : s.Sound) (x : Bool) :
    quic.got s.raw x <+: s.front (!x) ∨ s.front (!x) <+: quic.got s.raw x := by
  have hg := quic.got_put s.raw x h.raw
  rcases h.first (!x) with hp | ⟨hp,-⟩
  · exact Or.inl (hg.trans hp)
  · exact List.prefix_or_prefix_of_prefix hg hp

theorem Sound.read {s : BiStream quic} (h : s.Sound) {T : Type} (decode : Bytes → Result (T × ℕ))
    (x : Bool) (m : T) (rest : Bytes) (hr : readMessage decode (quic.got s.raw x) = .ok (m,rest)) :
    s.front (!x) ≠ [] := by
  intro hf
  have hg := quic.got_put s.raw x h.raw
  rw [h.unwritten _ hf, List.prefix_nil] at hg
  rw [hg] at hr
  cases hr

theorem Sound.read_request {s : BiStream quic} (h : s.Sound) (m : OpenStream) (rest : Bytes)
    (hr : readMessage OpenStream.decode (quic.got s.raw true) = .ok (m,rest)) :
    quic.got s.raw true = s.front false++rest := by
  obtain ⟨⟨m',hl,hv⟩,hm⟩ := h.request.resolve_left (h.read _ true m rest hr)
  have hd := m'.decode_encode [] (Address.encodable_of_length m'.address hl)
  rw [List.append_nil, Address.received_text _ hv] at hd
  have ha := h.arrived true
  rw [Bool.not_true, hm] at ha
  rw [hm]
  exact (read_in_front _ _ _ rest m' m hl hd ha hr).2

theorem Sound.read_answer {s : BiStream quic} (h : s.Sound) (m : OpenStreamAck) (rest : Bytes)
    (hr : readMessage OpenStreamAck.decode (quic.got s.raw false) = .ok (m,rest)) :
    quic.got s.raw false = s.front true++rest ∧ s.accepted = (m.status != statusErr) := by
  obtain ⟨⟨m',hl,_⟩,hm,hs⟩ := h.answer.resolve_left fun hn => h.read _ false m rest hr hn.1
  have hk : m'.message.length < 2^62 := by
    have hl : m'.encode.length < 2^62 := hl
    simp only [OpenStreamAck.encode, List.length_append] at hl
    omega
  have hd := m'.decode_encode [] hk
  rw [List.append_nil] at hd
  have ha := h.arrived false
  rw [Bool.not_false, hm] at ha
  obtain ⟨rfl,he⟩ := read_in_front _ _ _ rest m' m hl hd ha hr
  exact ⟨by rw [hm]; exact he,hs⟩

theorem Sound.wrote {s : BiStream quic} (h : s.Sound) (x : Bool) (more : Bytes)
    (hp : more <+: s.due x ∨ s.ready x = true ∧ s.due x = []) :
    quic.put s.raw x++more <+: s.front x ∨
      s.front x <+: quic.put s.raw x++more ∧ s.ready x = true := by
  rcases h.first x with hf | ⟨hf,hr⟩
  · rcases hp with hp | ⟨hr,hd⟩
    · exact Or.inl (Segment.extend hf hp)
    · have he := hf.eq_of_length_le (List.drop_eq_nil_iff.mp hd)
      rw [he]
      exact Or.inr ⟨List.prefix_append _ _,hr⟩
  · exact Or.inr ⟨hf.trans (List.prefix_append _ _),hr⟩

theorem raw_sound (s : BiStream quic) (a : quic.Act) (raw : quic.State) (h : s.Sound)
    (hp : ∀ x, quic.puts a x <+: s.due x ∨ s.ready x = true ∧ s.due x = [])
    (hr : quic.step s.raw a = some raw) : Sound { s with raw := raw } where
  raw := quic.step_sound _ _ _ h.raw hr
  first x := by
    rw [quic.step_put _ _ _ x h.raw hr]
    exact h.wrote x _ (hp x)
  request := h.request
  answer := h.answer
  asked := h.asked
  marked x n hm := by
    obtain ⟨hn,hf,hg⟩ := h.marked x n hm
    exact ⟨hn,hf,hg.trans (quic.step_got _ _ _ x h.raw hr)⟩
  answered := h.answered

theorem step_sound (s : BiStream quic) (a : BiAct quic) (t : BiStream quic) (h : s.Sound)
    (hst : s.step a = some t) : t.Sound := by
  cases moves_of_step s t a hst with
  | openStream m hf =>
    have hm : s.mark true = none := by
      by_contra hn
      obtain ⟨n,hn⟩ := Option.ne_none_iff_exists'.mp hn
      exact (h.marked true n hn).2.1 hf
    refine ⟨h.raw,fun x => ?_,Or.inr ⟨m,by simp⟩,h.answer,h.asked,fun x n hn => ?_,h.answered⟩
    · cases x with
      | true => exact h.first true
      | false =>
        rw [h.unwritten false hf]
        exact Or.inl List.nil_prefix
    · cases x with
      | true => rw [hm] at hn; cases hn
      | false => exact h.marked false n hn
  | acceptStream m rest hm hr =>
    have hg := h.read_request m rest hr
    refine ⟨h.raw,h.first,h.request,h.answer,fun _ => by simp,fun x n hn => ?_,h.answered⟩
    cases x with
    | false => exact h.marked false n hn
    | true =>
      simp only [Function.update_self, Option.some.injEq] at hn
      refine ⟨?_,h.read _ true m rest hr,⟨rest,hg.symm⟩⟩
      rw [← hn, hg, List.length_append, Nat.add_sub_cancel]
      rfl
  | ack m hm hf =>
    have hacc : s.accepted = false := by
      rcases h.answer with ⟨-,ha⟩ | ⟨m',hm',-⟩
      · exact ha
      · exact absurd (hm'.symm.trans hf) (writeLenPrefixed_ne_nil _)
    have hmark : s.mark false = none := by
      by_contra hn
      have ha := h.answered (Option.isSome_iff_ne_none.mpr hn)
      rw [hacc] at ha
      cases ha
    refine ⟨h.raw,fun x => ?_,h.request,Or.inr ⟨m,by simp,rfl⟩,fun _ => hm,fun x n hn => ?_,?_⟩
    · cases x with
      | false => exact h.first false
      | true =>
        rw [h.unwritten true hf]
        exact Or.inl List.nil_prefix
    · cases x with
      | true => exact h.marked true n hn
      | false => rw [hmark] at hn; cases hn
    · simp [hmark]
  | opened m rest hm hr hs =>
    obtain ⟨hg,hacc⟩ := h.read_answer m rest hr
    refine ⟨h.raw,fun x => ?_,h.request,h.answer,h.asked,fun x n hn => ?_,fun _ => ?_⟩
    · cases x with
      | true => exact h.first true
      | false => exact (h.first false).imp id fun hf => ⟨hf.1,by simp [ready]⟩
    · cases x with
      | true => exact h.marked true n hn
      | false =>
        simp only [Function.update_self, Option.some.injEq] at hn
        refine ⟨?_,h.read _ false m rest hr,⟨rest,hg.symm⟩⟩
        rw [← hn, hg, List.length_append, Nat.add_sub_cancel]
        rfl
    · rw [hacc]
      simpa using hs
  | front a raw hp hr => exact raw_sound s a raw h (fun x => Or.inl (hp x)) hr
  | user a raw hp hr =>
    refine raw_sound s a raw h (fun x => (hp x).imp (fun he => ?_) id) hr
    rw [he]
    exact List.nil_prefix

def openBi (raw : quic.State) : BiStream quic := ⟨raw,fun _ => [],fun _ => none,false⟩

theorem openBi_sound (raw : quic.State) (h : quic.Initial raw) : (openBi raw).Sound where
  raw := quic.initial_sound raw h
  first x := by
    rw [openBi, quic.initial_put raw x h]
    exact Or.inl List.nil_prefix
  request := Or.inl rfl
  answer := Or.inl ⟨rfl,rfl⟩
  asked hn := absurd rfl hn
  marked x n hn := by cases hn
  answered hn := by cases hn

theorem put_raw (s : BiStream quic) (a : quic.Act) (raw : quic.State) (x : Bool) (h : s.Sound)
    (hr : quic.step s.raw a = some raw) :
    put { s with raw := raw } x = (quic.put s.raw x++quic.puts a x).drop (s.front x).length := by
  rw [put, quic.step_put _ _ _ x h.raw hr]

theorem step_put (s : BiStream quic) (a : BiAct quic) (t : BiStream quic) (x : Bool) (h : s.Sound)
    (hst : s.step a = some t) : t.put x = s.put x++puts a x := by
  have hfront : ∀ y front, s.front y = [] →
      put { s with front := Function.update s.front y front } x = s.put x := by
    intro y front hy
    rcases eq_or_ne x y with rfl | hne
    · simp [put, h.unwritten x hy]
    · simp [put, hne]
  cases moves_of_step s t a hst with
  | openStream m hf => exact (hfront false _ hf).trans (List.append_nil _).symm
  | ack m hm hf => exact (hfront true _ hf).trans (List.append_nil _).symm
  | acceptStream | opened => exact (List.append_nil _).symm
  | front a raw hp hr =>
    refine Eq.trans ?_ (List.append_nil _).symm
    rw [put_raw s a raw x h hr, put]
    have hd := hp x
    rw [due] at hd
    have hlen := hd.length_le
    rw [List.length_drop] at hlen
    by_cases hle : (quic.put s.raw x).length ≤ (s.front x).length
    · rw [List.drop_eq_nil_iff.mpr (by rw [List.length_append]; omega), List.drop_eq_nil_iff.mpr hle]
    · rw [List.length_eq_zero_iff.mp (show (quic.puts a x).length = 0 by omega), List.append_nil]
  | user a raw hp hr =>
    rw [put_raw s a raw x h hr, puts, put]
    rcases hp x with he | ⟨-,hd⟩
    · rw [he, List.append_nil, List.append_nil]
    · exact List.drop_append_of_le_length (List.drop_eq_nil_iff.mp hd)

theorem got_raw (s : BiStream quic) (raw : quic.State) (x : Bool)
    (h : quic.got s.raw x <+: quic.got raw x) : s.got x <+: got { s with raw := raw } x := by
  unfold got
  cases hm : s.mark x with
  | none => exact List.nil_prefix
  | some n => exact h.drop n

theorem got_mark (s : BiStream quic) (x y : Bool) (n : ℕ) (h : s.mark y = none) :
    s.got x <+: got { s with mark := Function.update s.mark y (some n) } x := by
  unfold got
  rcases eq_or_ne x y with rfl | hne
  · rw [h]
    exact List.nil_prefix
  · simp [hne]

theorem step_got (s : BiStream quic) (a : BiAct quic) (t : BiStream quic) (x : Bool) (h : s.Sound)
    (hst : s.step a = some t) : s.got x <+: t.got x := by
  cases moves_of_step s t a hst with
  | openStream | ack => exact List.prefix_refl _
  | acceptStream m rest hm hr => exact got_mark s x true _ hm
  | opened m rest hm hr hs => exact got_mark s x false _ hm
  | front a raw hp hr | user a raw hp hr =>
    exact got_raw s raw x (quic.step_got _ _ _ x h.raw hr)

theorem got_put (s : BiStream quic) (x : Bool) (h : s.Sound) : s.got x <+: s.put (!x) := by
  unfold got
  split
  · exact List.nil_prefix
  · rename_i n hn
    rw [(h.marked x n hn).1]
    exact (quic.got_put s.raw x h.raw).drop _

theorem step_settled (s : BiStream quic) (a : BiAct quic) (t : BiStream quic) (h : s.Sound)
    (hset : quic.Settled s.raw) (hsure : s.sure a = true) (hst : s.step a = some t) :
    quic.Settled t.raw := by
  cases moves_of_step s t a hst with
  | openStream | acceptStream | ack | opened => exact hset
  | front a raw hp hr | user a raw hp hr => exact quic.step_settled _ _ _ h.raw hset hsure hr

theorem step_closed (s : BiStream quic) (a : BiAct quic) (t : BiStream quic) (x : Bool)
    (hst : s.step a = some t) :
    quic.closed t.raw x = (quic.closed s.raw x || closes a x) := by
  cases moves_of_step s t a hst with
  | openStream | acceptStream | ack | opened => exact (Bool.or_false _).symm
  | front a raw hp hr | user a raw hp hr => exact quic.step_closed _ _ _ x hr

theorem closed_puts (s : BiStream quic) (a : BiAct quic) (t : BiStream quic) (x : Bool)
    (hc : quic.closed s.raw x = true) (hst : s.step a = some t) : puts a x = [] := by
  cases moves_of_step s t a hst with
  | openStream | acceptStream | ack | opened | front => rfl
  | user a raw hp hr => exact quic.closed_puts _ _ _ x hc hr

theorem step_accepted (s : BiStream quic) (a : BiAct quic) (t : BiStream quic)
    (hst : s.step a = some t) (h : t.accepted = true) : s.accepted = true ∨ accepts a = true := by
  cases moves_of_step s t a hst with
  | ack m => exact Or.inr h
  | openStream | acceptStream | opened | front | user => exact Or.inl h

theorem step_opened (s : BiStream quic) (a : BiAct quic) (t : BiStream quic)
    (hst : s.step a = some t) (h : (s.mark false).isSome = true) : (t.mark false).isSome = true := by
  cases moves_of_step s t a hst with
  | opened => simp
  | openStream | acceptStream | ack | front | user => exact h

/-- The end of the stream is the end of what the user behind the message put in. -/
theorem ended_whole (s : BiStream quic) (x : Bool) (h : s.Sound) (hset : quic.Settled s.raw)
    (he : ((s.mark x).isSome && quic.ended s.raw x) = true) :
    quic.closed s.raw (!x) = true ∧ s.got x = s.put (!x) := by
  rw [Bool.and_eq_true] at he
  obtain ⟨n,hn⟩ := Option.isSome_iff_exists.mp he.1
  obtain ⟨hc,hg⟩ := quic.ended_whole s.raw x h.raw hset he.2
  refine ⟨hc,?_⟩
  rw [got, hn, put, ← (h.marked x n hn).1, hg]

def segment (quic : Segment UInt8) : Segment UInt8 where
  State := BiStream quic
  Act := BiAct quic
  Initial s := ∃ raw, quic.Initial raw ∧ s = openBi raw
  step := step
  put := put
  got := got
  closed s := quic.closed s.raw
  ended s x := (s.mark x).isSome && quic.ended s.raw x
  accepted := accepted
  opened s := (s.mark false).isSome
  puts := puts
  closes := closes
  accepts := accepts
  Sound := Sound
  Settled s := quic.Settled s.raw
  sure := sure
  initial_put := by
    rintro _ x ⟨raw,h,rfl⟩
    exact quic.initial_put raw x h
  initial_closed := by
    rintro _ x ⟨raw,h,rfl⟩
    exact quic.initial_closed raw x h
  initial_accepted := by
    rintro _ ⟨raw,-,rfl⟩
    rfl
  initial_sound := by
    rintro _ ⟨raw,h,rfl⟩
    exact openBi_sound raw h
  initial_settled := by
    rintro _ ⟨raw,h,rfl⟩
    exact quic.initial_settled raw h
  step_sound := step_sound
  step_settled := step_settled
  step_put := step_put
  step_got := step_got
  step_closed := step_closed
  step_accepted := step_accepted
  step_opened s a t _ := step_opened s a t
  closed_puts := closed_puts
  got_put := got_put
  opened_accepted s h := h.answered
  ended_whole := ended_whole

end BiStream
end Hydr.Quic
