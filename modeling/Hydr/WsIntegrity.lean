import Mathlib
import Hydr.WsChannel
import Hydr.WsDeadlock
import Hydr.WsStrand

/-!
# The streams of a connection

Every run of two ends is, for each stream that one of them opens, a run of the
flow of that stream. What the flows guarantee therefore holds of the ends: what
is written into the duplex of a stream is what was read for it on the other
side, whatever else the connection carries.
-/

set_option autoImplicit false

namespace Hydr.Ws
open Message Varint Hydr.Stream Transition

theorem honest_decoded (f g : Frame) (n : ℕ) (h : Honest f) (hd : Frame.decode f.encode = .ok (g,n)) :
    g.streamId < 2^62 ∧ (∀ id, frameOf id g = frameOf id f) ∧
      (kind g.frameType = .openStreamAck → ∃ ack : OpenStreamAck, g.body = ack.encode ∧
        ack.message.length < 2^62) := by
  rcases Frame.decode_any f with ⟨err,he⟩ | ⟨m,he⟩
  · rw [he] at hd
    cases hd
  rw [he] at hd
  cases hd
  refine ⟨Nat.mod_lt _ (Nat.two_pow_pos 62),fun id => ?_,fun hk => ?_⟩
  · cases hc : (kind f.frameType).concerns with
    | false =>
      rw [frameOf_unconcerned id f hc]
      exact frameOf_unconcerned id _ hc
    | true =>
      rw [Nat.mod_eq_of_lt (h.low hc)]
      by_cases hk : kind f.frameType = .openStream
      · simp [frameOf, hk]
      · rw [Nat.mod_eq_of_lt (h.short hc hk), List.take_length]
  · have hk : kind f.frameType = .openStreamAck := hk
    have hs := h.short (by simp [hk, Kind.concerns]) (by simp [hk])
    obtain ⟨ack,ha⟩ := h.ack hk
    refine ⟨ack,?_,?_⟩
    · rw [← ha, Nat.mod_eq_of_lt hs, List.take_length]
    · rw [ha] at hs
      refine lt_of_le_of_lt ?_ hs
      simp only [OpenStreamAck.encode, List.length_append]
      omega

def Act.opens : Act → Bool
  | .openStream _ => true
  | _ => false

namespace Endpoint

theorem command_keeps (e : Endpoint) (c : Cmd) :
    (e.command c).obfuscation = e.obfuscation ∧ (e.command c).nextStreamId = e.nextStreamId := by
  cases c <;> exact ⟨rfl,rfl⟩

theorem after_keeps (e : Endpoint) (a : After) :
    (e.after a).obfuscation = e.obfuscation ∧ (e.after a).nextStreamId = e.nextStreamId := by
  cases a <;> exact ⟨rfl,rfl⟩

theorem queueTask_keeps (e : Endpoint) (i : ℕ) (f : Option (StreamFrame Bytes)) :
    (e.queueTask i f).obfuscation = e.obfuscation ∧
      (e.queueTask i f).nextStreamId = e.nextStreamId := by
  cases f <;> exact ⟨rfl,rfl⟩

/-- Only the writer and the loop touch the obfuscator, and only `open_stream`
takes an id. -/
theorem own_keeps (b3 : Blake3) (q : Queues) (e t : Endpoint) (a : Act) (ha : a.isOwn = true)
    (hst : e.step b3 q a = some t) : t.obfuscation = e.obfuscation ∧
      (a.opens = false → t.nextStreamId = e.nextStreamId) := by
  cases moves_of_step b3 q e t a hst with
  | openStream address => exact ⟨rfl,fun hn => by cases hn⟩
  | take c cmds => exact ⟨(command_keeps _ c).1,fun _ => (command_keeps _ c).2⟩
  | finish after => exact ⟨(after_keeps e after).1,fun _ => (after_keeps e after).2⟩
  | send i b out f => exact ⟨(queueTask_keeps _ i f).1,fun _ => (queueTask_keeps _ i f).2⟩
  | recv i b inn f => exact ⟨(queueTask_keeps _ i f).1,fun _ => (queueTask_keeps _ i f).2⟩
  | receive | write | writePong => cases ha
  | _ => exact ⟨rfl,fun _ => rfl⟩

end Endpoint

namespace Link

structure Carries (b3 : Blake3) (o : Bool) (key : Option Obfuscator) (n : Bool → ℕ)
    (fs : Bool → List Frame) (l : Link) : Prop where
  channel : ∀ x, Channel b3 key l x (n x) (fs x)
  honest : ∀ x, ∀ f ∈ fs x, Honest f
  tame : ∀ x, (l.ends x).Tame
  accepting : (l.ends (!o)).nextStreamId = 0

def strand (o : Bool) (id : ℕ) (key : Option Obfuscator) (n : Bool → ℕ) (fs : Bool → List Frame)
    (l : Link) : Strand where
  view x := (l.ends (x ^^ o)).view id
  wire x := (fs (x ^^ o)).filterMap (frameOf id)
  deaf x := key.isSome && decide (2^64 ≤ n (!(x ^^ o)))

section
variable (o : Bool) (id : ℕ) (key : Option Obfuscator) (n : Bool → ℕ) (fs : Bool → List Frame)
  (l : Link) (x : Bool)

theorem strand_setEnd (e : Endpoint) : strand o id key n fs (l.setEnd x e) =
    (strand o id key n fs l).setView (x ^^ o) (e.view id) := by
  simp only [strand, Strand.setView, Strand.mk.injEq, and_true]
  funext y
  cases x <;> cases o <;> cases y <;> simp

theorem strand_fs (gs : List Frame) : strand o id key n (Function.update fs x gs) l =
    (strand o id key n fs l).setWire (x ^^ o) (gs.filterMap (frameOf id)) := by
  simp only [strand, Strand.setWire, Strand.mk.injEq, and_true, true_and]
  funext y
  cases x <;> cases o <;> cases y <;> simp

theorem strand_number (k : ℕ) : strand o id key (Function.update n (!x) k) fs l =
    (strand o id key n fs l).setDeaf (x ^^ o) (key.isSome && decide (2^64 ≤ k)) := by
  simp only [strand, Strand.setDeaf, Strand.mk.injEq, true_and]
  funext y
  cases x <;> cases o <;> cases y <;> simp

theorem strand_view : (strand o id key n fs l).view (x ^^ o) = (l.ends x).view id := by
  simp [strand]

theorem strand_wire : (strand o id key n fs l).wire (x ^^ o) = (fs x).filterMap (frameOf id) := by
  simp [strand]

theorem strand_deaf : (strand o id key n fs l).deaf (x ^^ o) =
    (key.isSome && decide (2^64 ≤ n (!x))) := by
  simp [strand]

theorem taken_strand (e : Endpoint) (rest : List WsMessage) (f : Frame) (gs : List Frame)
    (hfs : fs (!x) = f::gs) : strand o id key (Function.update n (!x) (n (!x)+1))
      (Function.update fs (!x) gs) ((l.setEnd x e).setWire (!x) rest) =
    (((strand o id key n fs l).setView (x ^^ o) (e.view id)).setWire (!(x ^^ o))
      (gs.filterMap (frameOf id))).setDeaf (x ^^ o)
        (key.isSome && decide (2^64 ≤ n (!x)+1)) ∧
    (strand o id key n fs l).wire (!(x ^^ o)) =
      (frameOf id f).toList++gs.filterMap (frameOf id) := by
  have hx : (!(x ^^ o)) = ((!x) ^^ o) := by cases x <;> cases o <;> rfl
  constructor
  · rw [strand_number, strand_fs, hx, show strand o id key n fs ((l.setEnd x e).setWire (!x) rest) =
      strand o id key n fs (l.setEnd x e) from rfl, strand_setEnd]
  · rw [hx, strand_wire, hfs]
    cases hf : frameOf id f <;> simp [hf]

end

def OpensFrom (o : Bool) (l : Link) : LinkAct → Prop
  | .own x a => a.Tame (l.ends x) ∧ (a.opens = true → x = o)
  | _ => True

instance (o : Bool) (l : Link) : DecidablePred (OpensFrom o l)
  | .own x a => inferInstanceAs (Decidable (a.Tame (l.ends x) ∧ (a.opens = true → x = o)))
  | .write _ _ | .deliver _ _ => instDecidableTrue

theorem setEnd_tame (l : Link) (x : Bool) (e : Endpoint) (h : ∀ y, (l.ends y).Tame) (he : e.Tame)
    (y : Bool) : ((l.setEnd x e).ends y).Tame := by
  rcases eq_or_ne y x with rfl | hne
  · simpa using he
  · simpa [hne] using h y

theorem setEnd_accepting (o : Bool) (l : Link) (x : Bool) (e : Endpoint)
    (h : (l.ends (!o)).nextStreamId = 0)
    (he : x = !o → e.nextStreamId = (l.ends x).nextStreamId) :
    ((l.setEnd x e).ends (!o)).nextStreamId = 0 := by
  rcases eq_or_ne x (!o) with rfl | hne
  · simpa [h] using he rfl
  · simpa [hne.symm] using h

section
variable {b3 : Blake3} {q : Queues} {o : Bool} {key : Option Obfuscator} {n : Bool → ℕ}
  {fs : Bool → List Frame} {l : Link} (h : Carries b3 o key n fs l) (id : ℕ) (x : Bool)
include h

theorem own_carries (a : Act) (e : Endpoint) (ha : a.isOwn = true)
    (he : (l.ends x).step b3 q a = some e) (hc : OpensFrom o l (.own x a)) (hid : id ≠ 0)
    (hcr : ((l.ends x).half id).inn.pending+((l.ends x).half id).inn.duplex < 2^62) :
    Carries b3 o key n fs (l.setEnd x e) ∧
      Strand.Moves (strand o id key n fs l) (strand o id key n fs (l.setEnd x e)) := by
  obtain ⟨hob,hnext⟩ := Endpoint.own_keeps b3 q (l.ends x) e a ha he
  have hquiet : x = !o → e.nextStreamId = (l.ends x).nextStreamId := by
    rintro rfl
    apply hnext
    by_contra hopen
    simpa using hc.2 (by simpa using hopen)
  refine ⟨⟨own_wired h.channel x e hob,h.honest,?_,setEnd_accepting o l x e h.accepting hquiet⟩,?_⟩
  · exact setEnd_tame l x e h.tame (Endpoint.step_tame b3 q _ e a (h.tame x) ha hc.1 he)
  · rw [strand_setEnd]
    apply Strand.Moves.own
    · rw [strand_view]
      exact Endpoint.step_moves b3 q _ e a id (h.tame x) ha hc.1 hid hcr he
    · intro hx
      have hne : x = !o := by cases x <;> cases o <;> simp_all
      rw [strand_view, Endpoint.view, Endpoint.view, hquiet hne]

theorem write_carries (salt : Obfuscator.Salt) (m : OutMsg) (e : Endpoint)
    (hh : (l.ends x).hand = some m) (he : (l.ends x).step b3 q (.write salt) = some e) :
    ∃ gs, Carries b3 o key n gs ((l.setEnd x e).setWire x
        (l.wire x++[m.message b3 salt (l.ends x).obfuscation])) ∧
      Strand.Moves (strand o id key n fs l) (strand o id key n gs (l.setEnd x e)) := by
  have htame := h.tame x
  cases Endpoint.moves_of_step b3 q _ e _ he with
  | write _ f hf =>
    obtain rfl : m = .frame f := Option.some.inj (hh.symm.trans hf)
    have hunsent : (l.ends x).unsent = f::(l.ends x).frames.filterMap OutMsg.sent := by
      simp [Endpoint.unsent, hh, OutMsg.sent]
    refine ⟨Function.update fs x (fs x++[f]),⟨write_wired h.channel x _ salt f rfl,
      fun y g hg => ?_,?_,?_⟩,?_⟩
    · rcases eq_or_ne y x with rfl | hne
      · rw [Function.update_self] at hg
        rcases List.mem_append.mp hg with hg | hg
        · exact h.honest y g hg
        · rw [List.mem_singleton.mp hg]
          exact htame.unsent f (by simp [hunsent])
      · rw [Function.update_of_ne hne] at hg
        exact h.honest y g hg
    · apply setEnd_tame l x _ h.tame
      refine ⟨htame.idle,htame.buffered,htame.control,htame.cmds,htame.callers,htame.unanswered,
        fun g hg => htame.unsent g ?_⟩
      rw [hunsent]
      exact List.mem_cons_of_mem _ hg
    · exact setEnd_accepting o l x _ h.accepting fun _ => rfl
    · have hv : ({ l.ends x with
          hand := none
          obfuscation := (outbound b3 salt f (l.ends x).obfuscation).2 } : Endpoint).view id =
          { (l.ends x).view id with
            unsent := ((l.ends x).frames.filterMap OutMsg.sent).filterMap (frameOf id) } := rfl
      rw [strand_setEnd, strand_fs, hv]
      have hu : ((l.ends x).view id).unsent = (frameOf id f).toList++
          ((l.ends x).frames.filterMap OutMsg.sent).filterMap (frameOf id) := by
        rw [Endpoint.view, hunsent]
        cases hf : frameOf id f <;> simp [hf]
      cases hf : frameOf id f with
      | none =>
        rw [hf, Option.toList_none, List.nil_append] at hu
        rw [← hu, List.filterMap_append, List.filterMap_cons_none hf, List.filterMap_nil,
          List.append_nil, ← strand_wire o id key n fs l x, Strand.setWire_self,
          ← strand_view o id key n fs l x, Strand.setView_self]
        exact .same
      | some g =>
        rw [hf, Option.toList_some, List.singleton_append, ← strand_view o id key n fs l x] at hu
        have hm := Strand.Moves.write (x ^^ o) g _ hu
        rw [strand_view, strand_wire] at hm
        rw [List.filterMap_append, List.filterMap_cons_some hf, List.filterMap_nil]
        exact hm
  | writePong _ payload hf =>
    obtain rfl : m = .wsPong payload := Option.some.inj (hh.symm.trans hf)
    have hunsent : (l.ends x).unsent = (l.ends x).frames.filterMap OutMsg.sent := by
      rw [Endpoint.unsent, hh]
      rfl
    refine ⟨fs,⟨pong_wired h.channel x _ rfl,h.honest,?_,?_⟩,?_⟩
    · apply setEnd_tame l x _ h.tame
      refine ⟨htame.idle,htame.buffered,htame.control,htame.cmds,htame.callers,htame.unanswered,
        fun g hg => htame.unsent g ?_⟩
      rwa [hunsent]
    · exact setEnd_accepting o l x _ h.accepting fun _ => rfl
    · have hv : ({ l.ends x with hand := none } : Endpoint).view id = (l.ends x).view id := by
        simp only [Endpoint.view, hunsent]
        rfl
      rw [strand_setEnd, hv, ← strand_view o id key n fs l x, Strand.setView_self]
      exact .same

theorem taken_carries (e : Endpoint) (rest : List WsMessage) (f : Frame) (gs : List Frame)
    (hfs : fs (!x) = f::gs) (hcoded : Coded b3 key (n (!x)+1) rest gs)
    (hseal : ∀ m, Seals key m (l.ends x).obfuscation → Seals key m e.obfuscation)
    (hopen : Opens key (n (!x)+1) e.obfuscation) (ht : e.Tame)
    (hnext : e.nextStreamId = (l.ends x).nextStreamId) :
    Carries b3 o key (Function.update n (!x) (n (!x)+1)) (Function.update fs (!x) gs)
      ((l.setEnd x e).setWire (!x) rest) where
  channel := taken_wired h.channel x e rest f gs hfs hcoded hseal hopen
  honest y g hg := by
    rcases eq_or_ne y (!x) with rfl | hne
    · rw [Function.update_self] at hg
      exact h.honest (!x) g (by rw [hfs]; exact List.mem_cons_of_mem _ hg)
    · rw [Function.update_of_ne hne] at hg
      exact h.honest y g hg
  tame := setEnd_tame l x e h.tame ht
  accepting := setEnd_accepting o l x e h.accepting fun _ => hnext

/-- A frame that is opened is handled as every stream hears it; one that does
not decode ends the loop. -/
theorem opened_carries (validate : AuthRequest → Result AuthResponse) (rest : List WsMessage)
    (f : Frame) (gs : List Frame) (ob : Option Obfuscator) (e : Endpoint) (hid : id ≠ 0)
    (hc : (l.ends x).control = .select) (hfs : fs (!x) = f::gs)
    (hcoded : Coded b3 key (n (!x)+1) rest gs) (hlow : key.isSome = true → n (!x) < 2^64)
    (hopen : Opens key (n (!x)+1) ob)
    (hseal : ∀ m, Seals key m (l.ends x).obfuscation → Seals key m ob)
    (hok : ∀ g m, Frame.decode f.encode = .ok (g,m) →
      e = ({ l.ends x with obfuscation := ob } : Endpoint).handleFrame validate g)
    (herr : ∀ err, Frame.decode f.encode = .error err →
      e = ({ l.ends x with obfuscation := ob } : Endpoint).endLoop) :
    ∃ k gs, Carries b3 o key k gs ((l.setEnd x e).setWire (!x) rest) ∧
      Strand.Moves (strand o id key n fs l)
        (strand o id key k gs ((l.setEnd x e).setWire (!x) rest)) := by
  set t : Endpoint := { l.ends x with obfuscation := ob } with ht
  have htame : t.Tame := by
    have hx := h.tame x
    exact ⟨hx.idle,hx.buffered,hx.control,hx.cmds,hx.callers,hx.unanswered,hx.unsent⟩
  have hview : t.view id = (strand o id key n fs l).view (x ^^ o) :=
    (strand_view o id key n fs l x).symm
  have hfree : ((strand o id key n fs l).view (x ^^ o)).loop = .free := by
    rw [strand_view]
    simp [Endpoint.view, hc, Control.loop]
  have hears : (strand o id key n fs l).deaf (x ^^ o) = false := by
    rw [strand_deaf]
    cases key with
    | none => rfl
    | some k => simpa using hlow rfl
  obtain ⟨hstrand,hwire⟩ := taken_strand o id key n fs l x e rest f gs hfs
  cases hd : Frame.decode f.encode with
  | error err =>
    obtain rfl : e = t.endLoop := herr err hd
    refine ⟨_,_,taken_carries h x _ rest f gs hfs hcoded hseal hopen
      (Endpoint.endLoop_tame t htame) rfl,?_⟩
    rw [hstrand]
    apply Strand.Moves.fail
    · rw [← hview]
      rw [← hview] at hfree
      exact Endpoint.endLoop_moves t id hfree (by simp [ht, hc, Control.offer])
    · intro _
      rw [← hview]
      rfl
    · rfl
  | ok p =>
    obtain ⟨g,m⟩ := p
    obtain ⟨hg,hframe,hack⟩ := honest_decoded f g m (h.honest (!x) f (by simp [hfs])) hd
    obtain rfl : e = t.handleFrame validate g := hok g m hd
    have hk := Endpoint.handleFrame_keeps t validate g
    refine ⟨_,_,taken_carries h x _ rest f gs hfs hcoded ?_ ?_
      (Endpoint.handleFrame_tame t htame validate g hg) hk.nextStreamId,?_⟩
    · rw [hk.obfuscation]
      exact hseal
    · rw [hk.obfuscation]
      exact hopen
    · rw [hstrand]
      apply Strand.Moves.hear (x ^^ o) (frameOf id f) _ _ _ hwire hears hfree
      rw [← hview, ← hframe id]
      exact Endpoint.handleFrame_hears t id validate hc hid g hack

theorem deliver_carries (validate : AuthRequest → Result AuthResponse) (msg : WsMessage)
    (rest : List WsMessage) (e : Endpoint) (hid : id ≠ 0) (hw : l.wire (!x) = msg::rest)
    (he : (l.ends x).step b3 q (.receive validate msg) = some e) :
    ∃ k gs, Carries b3 o key k gs ((l.setEnd x e).setWire (!x) rest) ∧
      Strand.Moves (strand o id key n fs l)
        (strand o id key k gs ((l.setEnd x e).setWire (!x) rest)) := by
  have hch := h.channel (!x)
  have hcoded := hch.coded
  have hopens := hch.opens
  rw [hw] at hcoded
  rw [Bool.not_not] at hopens
  cases Endpoint.moves_of_step b3 q _ e _ he with
  | receive _ _ hc =>
  cases msg with
  | ping payload => exact hcoded.elim
  | other =>
    have hwired := skipped_wired h.channel x (l.ends x) rest hw rfl
    have hself : l.setEnd x (l.ends x) = l := by simp [setEnd]
    rw [hself] at hwired
    rw [Endpoint.receive, hself]
    exact ⟨n,fs,⟨hwired,h.honest,h.tame,h.accepting⟩,.same⟩
  | binary bytes =>
    cases hfs : fs (!x) with
    | nil =>
      rw [hfs] at hcoded
      exact hcoded.elim
    | cons f gs =>
      rw [hfs] at hcoded
      rcases inbound_codes b3 key _ _ f bytes hopens hcoded.1 with
        ⟨ob,hin,hlow,hopen,hseal⟩ | ⟨hsome,hwrap,hin,hopen⟩
      · apply opened_carries h id x validate rest f gs ob _ hid hc hfs hcoded.2 hlow hopen hseal
        · intro g m hd
          simp only [Endpoint.receive, hin, hd]
        · intro err hd
          simp only [Endpoint.receive, hin, hd]
      · have hself : (l.ends x).receive b3 q validate (.binary bytes) = l.ends x := by
          simp only [Endpoint.receive, hin]
        rw [hself]
        refine ⟨_,_,taken_carries h x _ rest f gs hfs hcoded.2 (fun _ hm => hm) hopen
          (h.tame x) rfl,?_⟩
        obtain ⟨hstrand,-⟩ := taken_strand o id key n fs l x (l.ends x) rest f gs hfs
        rw [hstrand, ← strand_view o id key n fs l x, Strand.setView_self, hsome,
          decide_eq_true (hwrap.trans (Nat.le_succ _))]
        exact .miss _ _

end

def Follows (b3 : Blake3) (o : Bool) (id : ℕ) (key : Option Obfuscator) (l : Link)
    (s : Flow Bytes) : Prop :=
  Flow.Sound s ∧ ∃ n fs, Carries b3 o key n fs l ∧ Strand.Simulates (strand o id key n fs l) s

theorem server_tame (mux : Bool) (ob : Option Obfuscator) : (Endpoint.server mux ob).Tame where
  idle _ _ := ⟨rfl,rfl,rfl,rfl⟩
  buffered _ := by simp [Endpoint.server, Half.Buffered, Half.absent, Sender.absent, Sender.kept,
    Forwarder.hand, Pump.hand]
  control := trivial
  cmds := by simp [Endpoint.server]
  callers := by simp [Endpoint.server]
  unanswered := by simp [Endpoint.server, Endpoint.unanswered, Control.offer]
  unsent := by simp [Endpoint.server, Endpoint.unsent]

theorem client_tame (auth : AuthRequest) (ob : Option Obfuscator) :
    (Endpoint.client auth ob).Tame where
  idle _ _ := ⟨rfl,rfl,rfl,rfl⟩
  buffered _ := by simp [Endpoint.client, Half.Buffered, Half.absent, Sender.absent, Sender.kept,
    Forwarder.hand, Pump.hand]
  control := trivial
  cmds := by simp [Endpoint.client]
  callers c hc := by
    have hu : (kind Frame.frameAuthRequest).concerns = false := by decide
    rw [List.mem_singleton.mp hc]
    exact ⟨⟨honest_unconcerned _ hu,by simp,by simp⟩,Or.inl rfl⟩
  unanswered := by simp [Endpoint.client, Endpoint.unanswered, Control.offer]
  unsent := by simp [Endpoint.client, Endpoint.unsent]

theorem init_follows (b3 : Blake3) (auth : AuthRequest) (mux : Bool) (psk : Option Bytes)
    (o : Bool) (id : ℕ) (hid : 0 < id) : Follows b3 o id (psk.map (Obfuscator.new b3))
      (init auth mux fun _ => psk.map (Obfuscator.new b3)) Flow.init := by
  set key := psk.map (Obfuscator.new b3) with hkey
  have hview : ∀ x, ((init auth mux fun _ => key).ends x).view id =
      ⟨.absent,.free,[],[],true,false,0,false,0⟩ := by
    rintro (_ | _) <;>
      simp [init, Endpoint.view, Endpoint.client, Endpoint.server, Endpoint.queued, Endpoint.unsent,
        Endpoint.unanswered, Control.loop, Control.held, Control.offer, Cmd.asks, Cmd.replies,
        hid.ne']
  refine ⟨Flow.init_sound,fun _ => 0,fun _ => [],
    ⟨init_wired b3 auth mux psk,(fun _ _ hf => by cases hf),?_,?_⟩,?_⟩
  · rintro (_ | _)
    · exact client_tame auth key
    · exact server_tame mux key
  · cases o <;> rfl
  · have hs : ∀ x, (strand o id key (fun _ => 0) (fun _ => []) (init auth mux fun _ => key)).view x =
        ⟨.absent,.free,[],[],true,false,0,false,0⟩ := fun x => hview (x ^^ o)
    constructor
    · exact fun x => by rw [hs]; rfl
    · exact fun x => by rw [hs]; rfl
    · exact fun x => by rw [hs]; rfl
    · exact fun x _ _ => ⟨[],by rw [hs]; rfl,fun _ => rfl⟩
    · exact fun _ => by rw [hs]; rfl
    · exact fun hl => by cases hl
    · exact ⟨by simp [hs, Flow.init],by simp [hs],by simp [hs],by simp [hs],by simp [hs]⟩

/-- A credit is less than what fits the window. -/
theorem reader_bounded (s : Flow Bytes) (h : Flow.Progress s) (x : Bool) :
    (s.half x).inn.pending+(s.half x).inn.duplex < recvWindow+bufLen := by
  have hread := (h.counted x).read
  have hret := h.returned x
  have hproc := h.bounded.metered.processed x
  have hgrant := h.bounded.metered.granted (!x)
  have hdue := h.bounded.balanced (!x)
  obtain ⟨henq,hwin,-,-,-⟩ := h.bounded.windowed (!x)
  simp only [Flow.due, Receiver.stock, Bool.not_not] at hdue
  omega

/-- One step of a connection is a step of the flow of each of its streams, or none. -/
theorem step_follows (b3 : Blake3) (q : Queues) (cap : Bool → ℕ) (o : Bool) (id : ℕ) (hid : id ≠ 0)
    (key : Option Obfuscator) (l k : Link) (a : LinkAct) (s : Flow Bytes)
    (h : Follows b3 o id key l s) (hc : OpensFrom o l a) (hst : l.step b3 q cap a = some k) :
    ∃ t, Stutter Flow.step s t ∧ Follows b3 o id key k t := by
  obtain ⟨hsound,n,fs,hcar,hsim⟩ := h
  have hstrand : ∀ m gs, Carries b3 o key m gs k →
      Strand.Moves (strand o id key n fs l) (strand o id key m gs k) →
      ∃ t, Stutter Flow.step s t ∧ Follows b3 o id key k t := by
    intro m gs hk hm
    obtain ⟨t,ht,hs⟩ := Strand.step_simulates hsim hsound.progress.bounded.opening hm
    exact ⟨t,ht,ht.preserves Flow.step_sound s t hsound,m,gs,hk,hs⟩
  cases moves_of_step b3 q cap l k a hst with
  | own x a e ha he =>
    have hhalf : s.half (x ^^ o) = (l.ends x).half id := by
      rw [hsim.half, strand_view]
      rfl
    have hcr : ((l.ends x).half id).inn.pending+((l.ends x).half id).inn.duplex < 2^62 := by
      rw [← hhalf]
      exact (reader_bounded s hsound.progress _).trans (by decide)
    obtain ⟨hk,hm⟩ := own_carries hcar id x a e ha he hc hid hcr
    exact hstrand n fs hk hm
  | write x salt m e hh hw he =>
    obtain ⟨gs,hk,hm⟩ := write_carries hcar id x salt m e hh he
    exact hstrand n gs hk hm
  | deliver x validate msg rest e hw he =>
    obtain ⟨m,gs,hk,hm⟩ := deliver_carries hcar id x validate msg rest e hid hw he
    exact hstrand m gs hk hm

/-- Every run of a connection is, for each stream that one end opens, a run of
the flow of that stream. -/
theorem run_follows (b3 : Blake3) (q : Queues) (cap : Bool → ℕ) (auth : AuthRequest) (mux : Bool)
    (psk : Option Bytes) (o : Bool) (id : ℕ) (hid : 0 < id) (as : List LinkAct) (l : Link)
    (hm : Meets (step b3 q cap) (OpensFrom o) as
      (init auth mux fun _ => psk.map (Obfuscator.new b3)))
    (hr : run (step b3 q cap) as (init auth mux fun _ => psk.map (Obfuscator.new b3)) = some l) :
    ∃ bs s, run Flow.step bs Flow.init = some s ∧
      Follows b3 o id (psk.map (Obfuscator.new b3)) l s :=
  run_simulates (fun l a k s h hc hst => step_follows b3 q cap o id hid.ne' _ l k a s h hc hst)
    as _ l _ hm hr (init_follows b3 auth mux psk o id hid)

def Brings (b3 : Blake3) (l : Link) (x : Bool) (id : ℕ) : Prop :=
  ∃ bytes rest payload ob f n, l.wire x = .binary bytes::rest ∧
    inbound b3 bytes (l.ends (!x)).obfuscation = (.frame payload,ob) ∧
    Frame.decode payload = .ok (f,n) ∧ kind f.frameType = .streamData ∧ f.streamId = id

/-- A stream is registered when the loop takes a StreamData of it. -/
theorem follows_listed (b3 : Blake3) (o : Bool) (id : ℕ) (key : Option Obfuscator) (l : Link)
    (s : Flow Bytes) (h : Follows b3 o id key l s) (x : Bool)
    (hc : (l.ends (!x)).control = .select) (hb : l.Brings b3 x id) :
    ((l.ends (!x)).half id).streams = true := by
  obtain ⟨hsound,n,fs,hcar,hsim⟩ := h
  obtain ⟨bytes,rest,payload,ob,g,m,hw,hin,hd,hk,hi⟩ := hb
  have hch := hcar.channel x
  have hcoded := hch.coded
  rw [hw] at hcoded
  cases hfs : fs x with
  | nil =>
    rw [hfs] at hcoded
    exact hcoded.elim
  | cons f gs =>
    rw [hfs] at hcoded
    rcases inbound_codes b3 key _ _ f bytes hch.opens hcoded.1 with
      ⟨ob',hin',hlow,-,-⟩ | ⟨-,-,hin',-⟩
    · obtain ⟨rfl,rfl⟩ : f.encode = payload ∧ ob' = ob := by
        rw [hin'] at hin
        cases hin
        exact ⟨rfl,rfl⟩
      obtain ⟨-,hframe,-⟩ := honest_decoded f g m (hcar.honest x f (by simp [hfs])) hd
      have hdata : frameOf id f = some (.data g.body) := by
        rw [← hframe id, frameOf, if_pos hi, hk]
      have hdeaf : (strand o id key n fs l).deaf ((!x) ^^ o) = false := by
        rw [strand_deaf, Bool.not_not]
        cases key with
        | none => rfl
        | some k => simpa using hlow rfl
      have hx : (!((!x) ^^ o)) = (x ^^ o) := by cases x <;> cases o <;> rfl
      have hfree : s.loop ((!x) ^^ o) = .free := by
        rw [hsim.loop, strand_view]
        simp [Endpoint.view, hc, Control.loop]
      have hal : s.alive ((!x) ^^ o) = true := by
        rw [Flow.alive, hfree]
        rfl
      obtain ⟨lost,he,-⟩ := hsim.wire (x ^^ o) (by rw [← hx, Bool.not_not]; exact hdeaf)
        (by rw [← hx, Bool.not_not]; exact hal)
      rw [strand_wire, hfs, List.filterMap_cons_some hdata, List.cons_append, List.cons_append] at he
      have hstreams := Flow.data_listed s hsound.progress.bounded.opening hsound.registration
        hsound.closing hsound.shaped hsound.listed ((!x) ^^ o) _ _ (by rw [hx]; exact he) hfree
      rw [hsim.half, strand_view] at hstreams
      exact hstreams
    · rw [hin'] at hin
      cases hin

/-- What is written into the duplex of a stream is a prefix of what was read for
it at the other end; once the StreamClose has been processed it is all of that
before the duplex is shut; and the stream is registered before its first data. -/
theorem stream_integrity (b3 : Blake3) (q : Queues) (cap : Bool → ℕ) (auth : AuthRequest)
    (mux : Bool) (psk : Option Bytes) (o : Bool) (as : List LinkAct) (l : Link)
    (hm : Meets (step b3 q cap) (OpensFrom o) as
      (init auth mux fun _ => psk.map (Obfuscator.new b3)))
    (hr : run (step b3 q cap) as (init auth mux fun _ => psk.map (Obfuscator.new b3)) = some l)
    (id : ℕ) (hid : 0 < id) (x : Bool) :
    ((l.ends (!x)).half id).inn.delivered <+: ((l.ends x).half id).out.taken.flatten ∧
      (((l.ends (!x)).half id).closeSeen = true → ((l.ends (!x)).half id).inn.dropped = false →
        ((l.ends (!x)).half id).inn.delivered++((l.ends (!x)).half id).inn.held =
            ((l.ends x).half id).out.taken.flatten ∧
          (((l.ends (!x)).half id).inn.writer = .shut →
            ((l.ends (!x)).half id).inn.delivered = ((l.ends x).half id).out.taken.flatten)) ∧
      ((l.ends (!x)).control = .select → l.Brings b3 x id →
        ((l.ends (!x)).half id).streams = true) := by
  obtain ⟨bs,s,-,hf⟩ := run_follows b3 q cap auth mux psk o id hid as l hm hr
  have hhalf : ∀ y, s.half (y ^^ o) = (l.ends y).half id := by
    intro y
    obtain ⟨-,n,fs,-,hsim⟩ := hf
    rw [hsim.half, strand_view]
    rfl
  have hx : ((!x) ^^ o) = !(x ^^ o) := by cases x <;> cases o <;> rfl
  have hahead := Flow.delivered_ahead s hf.1 (x ^^ o)
  have hwhole := Flow.delivered_whole s hf.1 (x ^^ o)
  rw [← hx, hhalf, hhalf] at hahead hwhole
  exact ⟨hahead,hwhole,fun hc hb => follows_listed b3 o id _ l s hf x hc hb⟩

def transferred : List LinkAct :=
  settled++pumped false++shipped false++[.deliver true Endpoint.exampleValidator]++
    ([.recv,.write 1,.finish] : List RecvAct).map (fun a => .own true (.recv 1 a))++
    ([.check,.stop,.finish,.drained,.close true] : List (SendAct Bytes)).map
      (fun a => .own false (.send 1 a))++[.own false .take]++shipped false++
    [.deliver true Endpoint.exampleValidator,.own true (.recv 1 .shutdown)]

theorem transferred_whole : ∃ l, run (step copyHash ⟨1,1,1⟩ fun _ => 1) transferred
    (init exampleAuth false fun _ => (some [1]).map (Obfuscator.new copyHash)) = some l ∧
      ((l.ends true).half 1).inn.delivered = [7] ∧
      ((l.ends false).half 1).out.taken.flatten = [7] := by
  have hm : Meets (step copyHash ⟨1,1,1⟩ fun _ => 1) (OpensFrom false) transferred
      (init exampleAuth false fun _ => (some [1]).map (Obfuscator.new copyHash)) := by
    decide +kernel
  have hd : ((run (step copyHash ⟨1,1,1⟩ fun _ => 1) transferred
      (init exampleAuth false fun _ => (some [1]).map (Obfuscator.new copyHash))).map fun l =>
        decide (((l.ends true).half 1).closeSeen = true ∧ ((l.ends true).half 1).inn.dropped = false ∧
          ((l.ends true).half 1).inn.delivered = [7] ∧ ((l.ends true).half 1).inn.held = [])) =
      some true := by decide +kernel
  obtain ⟨l,hr,hl⟩ := Option.map_eq_some_iff.mp hd
  obtain ⟨hseen,hdrop,hdel,hheld⟩ := of_decide_eq_true hl
  have hwhole := (stream_integrity copyHash ⟨1,1,1⟩ (fun _ => 1) exampleAuth false (some [1]) false
    transferred l hm hr 1 (by decide) false).2.1 hseen hdrop
  refine ⟨l,hr,hdel,?_⟩
  rw [← hwhole.1]
  exact congrArg₂ _ hdel hheld

end Link
end Hydr.Ws
