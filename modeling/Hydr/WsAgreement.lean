import Mathlib
import Hydr.WsBooks
import Hydr.WsIntegrity

/-!
# The two ends agree on the streams they open

Whatever the order of the calls, of the replies and of everything else on a
connection without sessions, the books of either opener stay balanced. A call
that succeeds was offered once, under its own id and address, and accepted; one
that is refused fails with the refusal; no acknowledgement comes before its
entry, and none resolves another call.
-/

set_option autoImplicit false

namespace Hydr.Ws
open Message Varint Hydr.Stream Transition

/-- Streams are opened with `open_stream` and below `2 ^ 62`; the frames that
open and answer them fit the limit on a body. -/
def Act.Short (e : Endpoint) : Act → Prop
  | .openStream address => e.nextStreamId+1 < 2^62 ∧ Sendable address
  | .openStreamAs _ _ => False
  | .replyOpen _ ack => ack.encode.length ≤ Frame.maxBodyLen
  | _ => True

instance (e : Endpoint) : DecidablePred (Act.Short e)
  | .openStream address => inferInstanceAs (Decidable (e.nextStreamId+1 < 2^62 ∧ Sendable address))
  | .replyOpen _ ack => inferInstanceAs (Decidable (ack.encode.length ≤ Frame.maxBodyLen))
  | .openStreamAs _ _ => instDecidableFalse
  | .authenticate _ _ | .closeTunnel | .enter _ | .sendDatagram _ | .closeHandle | .nextEvent
  | .take | .push | .finish | .receive _ _ | .emit _ | .notify | .tick | .stop | .writerTake
  | .write _ | .writerFail | .send _ _ | .recv _ _ => instDecidableTrue

theorem Act.Short.tame (e : Endpoint) (a : Act) (h : a.Short e) : a.Tame e := by
  cases a with
  | openStream address => exact h.1
  | openStreamAs => exact h
  | replyOpen id ack => exact lt_of_le_of_lt h (by decide)
  | _ => trivial

theorem Act.Short.ledger (e : Endpoint) (a : Act) (h : a.Short e) :
    e.ledger.Short a.call a.reply := by
  refine ⟨fun address ha => ?_,fun p hp => ?_⟩
  · cases a with
    | openStream =>
      cases ha
      exact h
    | _ => cases ha
  · cases a with
    | replyOpen id ack =>
      cases hp
      exact h
    | _ => cases hp

def LinkAct.call (x : Bool) : LinkAct → Option Address
  | .own y a => if y = x then a.call else none
  | _ => none

def LinkAct.reply (x : Bool) : LinkAct → Option (ℕ × OpenStreamAck)
  | .own y a => if y = x then a.reply else none
  | _ => none

def LinkAct.delivers (x : Bool) : LinkAct → Bool
  | .deliver y _ => y == x
  | _ => false

def called (x : Bool) (as : List LinkAct) : List (ℕ × Address) :=
  (as.filterMap (LinkAct.call x)).mapIdx fun i address => (i+1,address)

def replied (x : Bool) (as : List LinkAct) : List (ℕ × OpenStreamAck) :=
  as.filterMap (LinkAct.reply x)

theorem called_append (x : Bool) (as : List LinkAct) (a : LinkAct) : called x (as++[a]) =
    called x as++((a.call x).map ((called x as).length+1,·)).toList := by
  cases ha : a.call x <;> simp [called, ha]

theorem replied_append (x : Bool) (as : List LinkAct) (a : LinkAct) :
    replied x (as++[a]) = replied x as++(a.reply x).toList := by
  cases ha : a.reply x <;> simp [replied, ha]

namespace Endpoint

/-- A loop at its `select!` has no call in its hand: the frames of those that wait
are not on the wire. -/
theorem select_calls (e : Endpoint) (hc : e.control = .select) (hf : ∀ f ∈ e.outbox, Apt f) :
    ∀ id ∈ e.calls, id ∈ (e.outbox.filterMap askOf).map Prod.fst := by
  intro id hid
  have hnone : Control.select.call = [] := rfl
  rw [calls, hc, hnone, Multiset.coe_nil, add_zero] at hid
  obtain ⟨c,hm,hcall⟩ := (Multiset.mem_filterMap _ _).mp hid
  cases c with
  | openStream i address =>
    cases hcall
    have hmem : openFrame id address ∈ e.outbox := by
      apply Multiset.mem_add.mpr
      exact Or.inr ((Multiset.mem_filterMap _ _).mpr ⟨_,hm,rfl⟩)
    obtain ⟨-,-,hone⟩ := hf _ hmem (openFrame_opening id address)
    rw [ackOf_openFrame, Option.isNone_none] at hone
    obtain ⟨p,hp⟩ := Option.isSome_iff_exists.mp hone
    have hid : p.1 = id := askOf_id _ p hp
    rw [← hid]
    exact Multiset.mem_map_of_mem _ ((Multiset.mem_filterMap _ _).mpr ⟨_,hmem,hp⟩)
  | sendFrame | replyOpen | close => cases hcall

theorem write_ledger (e : Endpoint) (f : Frame) (ob : Option Obfuscator) (fs : List Frame)
    (hh : e.hand = some (.frame f)) :
    ({ e with hand := none, obfuscation := ob } : Endpoint).ledger.carry
        (((fs++[f] : List Frame) : Multiset Frame).filter Opening) =
      e.ledger.carry ((fs : Multiset Frame).filter Opening) := by
  have hu : e.outgoing = {f}+({ e with hand := none, obfuscation := ob } : Endpoint).outgoing := by
    simp [outgoing, unsent, hh, OutMsg.sent, Multiset.singleton_add]
  refine Ledger.ext rfl rfl rfl ?_ rfl rfl rfl rfl rfl rfl
  show outbox _+_ = outbox e+_
  rw [outbox, outbox, hu, ← Multiset.coe_add, Multiset.coe_singleton, Multiset.filter_add,
    Multiset.filter_add]
  show _+e.backlog.filterMap Cmd.opening+_ = _
  abel

theorem pong_ledger (e : Endpoint) (payload : Bytes) (hh : e.hand = some (.wsPong payload)) :
    ({ e with hand := none } : Endpoint).ledger = e.ledger := by
  have hu : ({ e with hand := none } : Endpoint).unsent = e.unsent := by
    simp [unsent, hh, OutMsg.sent, List.filterMap_cons]
  refine Ledger.ext rfl rfl rfl ?_ rfl rfl rfl rfl rfl rfl
  show outbox _ = outbox e
  rw [outbox, outbox, outgoing, hu]
  rfl

theorem opened_ledger (e t : Endpoint) (validate : AuthRequest → Result AuthResponse) (f : Frame)
    (ob : Option Obfuscator) (hc : e.control = .select) (hs : e.sessions = none) (hf : Apt f)
    (hok : ∀ g n, Frame.decode f.encode = .ok (g,n) →
      t = ({ e with obfuscation := ob } : Endpoint).handleFrame validate g)
    (herr : ∀ err, Frame.decode f.encode = .error err →
      t = ({ e with obfuscation := ob } : Endpoint).endLoop) :
    t.obfuscation = ob ∧ (Opening f ∧ t.ledger = e.ledger.hear f ∨
      ¬Opening f ∧ Ledger.Moves e.ledger none none t.ledger) := by
  have hhear : ∀ g, (({ e with obfuscation := ob } : Endpoint).handleFrame validate g).ledger =
      e.ledger.hear g := fun g => handleFrame_ledger { e with obfuscation := ob } validate g hc hs
  cases hd : Frame.decode f.encode with
  | error err =>
    obtain rfl := herr err hd
    refine ⟨rfl,Or.inr ⟨fun ho => ?_,?_⟩⟩
    · obtain ⟨n,hd'⟩ := apt_decoded f hf ho
      rw [hd] at hd'
      cases hd'
    · exact endLoop_ledger_moves { e with obfuscation := ob } (by simp [alive, hc])
        (by simp [hc, Control.ask])
  | ok p =>
    obtain rfl := hok p.1 p.2 hd
    refine ⟨(handleFrame_keeps _ validate p.1).obfuscation,?_⟩
    rw [hhear]
    by_cases ho : Opening f
    · obtain ⟨n,hd'⟩ := apt_decoded f hf ho
      rw [hd] at hd'
      cases hd'
      exact Or.inl ⟨ho,rfl⟩
    · exact Or.inr ⟨ho,.of_eq (hear_unconcerned p.1 _ (decoded_not_opening f p.1 p.2 ho hd))⟩

end Endpoint

namespace Link

def page (fs : Bool → List Frame) (l : Link) (x : Bool) : Ledger :=
  (l.ends x).ledger.carry ((fs x : Multiset Frame).filter Opening)

structure Balanced (b3 : Blake3) (key : Option Obfuscator) (o : Bool) (as : List LinkAct)
    (n : Bool → ℕ) (fs : Bool → List Frame) (heard : Multiset (ℕ × OpenStreamAck))
    (lost : Finset ℕ) (l : Link) : Prop where
  wired : Wired b3 key n fs l
  plain : ∀ x, (l.ends x).sessions = none
  taken : n (!o) ≤ as.countP (LinkAct.delivers o)
  books : Books (called o as) (replied (!o) as) heard lost (key.isSome = true → n (!o) ≤ 2^64)
    (page fs l o) (page fs l (!o))

def Kept (b3 : Blake3) (key : Option Obfuscator) (o : Bool) (as : List LinkAct) (l : Link) : Prop :=
  ∃ n fs heard lost, Balanced b3 key o as n fs heard lost l

def Short (l : Link) : LinkAct → Prop
  | .own x a => a.Short (l.ends x)
  | _ => True

instance (l : Link) : DecidablePred (Short l)
  | .own x a => inferInstanceAs (Decidable (a.Short (l.ends x)))
  | .write _ _ | .deliver _ _ => instDecidableTrue

theorem page_other (fs : Bool → List Frame) (l : Link) (x : Bool) (e : Endpoint) :
    page fs (l.setEnd x e) (!x) = page fs l (!x) := by
  rw [page, page, setEnd_ends, update_other]

theorem page_other' (fs : Bool → List Frame) (l : Link) (x : Bool) (e : Endpoint) :
    page fs (l.setEnd (!x) e) x = page fs l x := by
  rw [page, page, setEnd_ends, update_other']

theorem page_self (fs : Bool → List Frame) (l : Link) (x : Bool) (e : Endpoint) :
    page fs (l.setEnd x e) x = e.ledger.carry ((fs x : Multiset Frame).filter Opening) := by
  rw [page, setEnd_ends, Function.update_self]

section
variable {fs fs' : Bool → List Frame} {l k : Link} {y : Bool} {f : Frame} {gs : List Frame}

variable (fs) in
/-- An end that has not moved, with the frames of it that are still on the wire. -/
theorem page_rest (hback : fs' y = gs) (hend : k.ends y = l.ends y) :
    page fs' k y = { page fs l y with
      outbox := (l.ends y).outbox+(gs : Multiset Frame).filter Opening } := by
  rw [page, hback, hend]
  rfl

theorem page_outbox (hfs : fs y = gs) :
    (page fs l y).outbox = (l.ends y).outbox+(gs : Multiset Frame).filter Opening := by
  rw [← hfs]
  rfl

theorem page_front (hfs : fs y = f::gs) (ho : Opening f) : (page fs l y).outbox =
    f ::ₘ ((l.ends y).outbox+(gs : Multiset Frame).filter Opening) := by
  rw [page_outbox hfs, ← Multiset.cons_coe, Multiset.filter_cons_of_pos _ ho, Multiset.add_cons]

theorem page_shrinks (hfs : fs y = f::gs) :
    (l.ends y).outbox+(gs : Multiset Frame).filter Opening ≤ (page fs l y).outbox := by
  rw [page_outbox hfs]
  exact add_le_add le_rfl (Multiset.filter_le_filter _ (List.sublist_cons_self f gs).subperm)

theorem page_quiet (hfs : fs y = f::gs) (hback : fs' y = gs) (hend : k.ends y = l.ends y)
    (ho : ¬Opening f) : page fs' k y = page fs l y := by
  rw [page_rest fs hback hend, ← Multiset.filter_cons_of_neg _ ho,
    Multiset.cons_coe, ← page_outbox hfs]

theorem page_same (hout : fs' y = fs y) (he : (k.ends y).ledger = (l.ends y).ledger) :
    page fs' k y = page fs l y := by
  rw [page, page, he, hout]

theorem page_hears (hout : fs' y = fs y) (he : (k.ends y).ledger = (l.ends y).ledger.hear f) :
    page fs' k y = (page fs l y).hear f := by
  rw [page, page, he, hout, Ledger.hear_carry]

theorem page_moves (hout : fs' y = fs y)
    (he : Ledger.Moves (l.ends y).ledger none none (k.ends y).ledger) :
    Ledger.Moves (page fs l y) none none (page fs' k y) := by
  rw [page, page, hout]
  exact he.carry _

end

theorem page_calls (fs : Bool → List Frame) (l : Link) (x : Bool) (hc : (l.ends x).control = .select)
    (hf : ∀ f ∈ (page fs l x).outbox, Apt f) : ∀ id ∈ (page fs l x).calls,
      id ∈ ((page fs l x).outbox.filterMap askOf).map Prod.fst := by
  have hle : (l.ends x).outbox ≤ (page fs l x).outbox := Multiset.le_add_right _ _
  intro id hid
  exact Multiset.mem_of_le (Multiset.map_le_map (Multiset.filterMap_le_filterMap _ hle))
    (Endpoint.select_calls _ hc (fun f hm => hf f (Multiset.mem_of_le hle hm)) id hid)

theorem step_plain (b3 : Blake3) (q : Queues) (e t : Endpoint) (a : Act)
    (hst : e.step b3 q a = some t) (hs : e.sessions = none) : t.sessions = none := by
  rcases Endpoint.step_sessions b3 q e t a hst with ht | ⟨id,req,resp,-,-,ht⟩ <;> simp [ht, hs]

theorem setEnd_plain (l : Link) (x : Bool) (e : Endpoint) (h : ∀ y, (l.ends y).sessions = none)
    (he : e.sessions = none) (y : Bool) : ((l.setEnd x e).ends y).sessions = none := by
  rcases eq_or_ne y x with rfl | hne
  · simpa using he
  · simpa [hne] using h y

section
variable {b3 : Blake3} {q : Queues} {key : Option Obfuscator} {o : Bool} {as : List LinkAct}
  {n : Bool → ℕ} {fs : Bool → List Frame} {heard : Multiset (ℕ × OpenStreamAck)} {lost : Finset ℕ}
  {l : Link} (h : Balanced b3 key o as n fs heard lost l) (x : Bool) (e : Endpoint)
include h

/-- A step that neither calls, replies nor delivers leaves the history as it is. -/
theorem kept_quiet (a : LinkAct) (hc : a.call o = none) (hr : a.reply (!o) = none)
    (heard' : Multiset (ℕ × OpenStreamAck)) (lost' : Finset ℕ) {k : Link} {m : Bool → ℕ}
    {gs : Bool → List Frame} (hw : Wired b3 key m gs k) (hp : ∀ y, (k.ends y).sessions = none)
    (hm : m (!o) ≤ n (!o)+if a.delivers o then 1 else 0)
    (hb : Books (called o as) (replied (!o) as) heard' lost' (key.isSome = true → m (!o) ≤ 2^64)
      (page gs k o) (page gs k (!o))) : Kept b3 key o (as++[a]) k := by
  refine ⟨m,gs,heard',lost',hw,hp,?_,?_⟩
  · rw [List.countP_append, List.countP_singleton]
    exact hm.trans (Nat.add_le_add_right h.taken _)
  · rw [called_append, replied_append, hc, hr]
    simpa using hb

theorem own_kept (a : Act) (ha : a.isOwn = true) (hst : (l.ends x).step b3 q a = some e)
    (hs : a.Short (l.ends x)) : Kept b3 key o (as++[.own x a]) (l.setEnd x e) := by
  have hm := (Endpoint.step_ledger b3 q _ e a ha hs.tame hst).carry
    ((fs x : Multiset Frame).filter Opening)
  have hw := own_wired h.wired x e (Endpoint.own_keeps b3 q _ e a ha hst).1
  have hp := setEnd_plain l x e h.plain (step_plain b3 q _ e a hst (h.plain x))
  have ht : n (!o) ≤ (as++[LinkAct.own x a]).countP (LinkAct.delivers o) :=
    h.taken.trans (by simp)
  have hn : (called o as).length = (page fs l o).next := by
    simpa using congrArg List.length h.books.numbered
  rcases Bool.eq_or_eq_not x o with rfl | rfl
  · obtain ⟨lost',hb⟩ := h.books.opener_moves _ _ _ hm hs.ledger
    refine ⟨n,fs,heard,lost',hw,hp,ht,?_⟩
    rw [called_append, replied_append, page_other, page_self, hn]
    simpa [LinkAct.call, LinkAct.reply] using hb
  · have hb := h.books.acceptor_moves _ _ _ hm hs.ledger
    refine ⟨n,fs,heard,lost,hw,hp,ht,?_⟩
    rw [called_append, replied_append, page_other', page_self, ← Multiset.coe_add]
    simpa [LinkAct.call, LinkAct.reply] using hb

theorem write_kept (salt : Obfuscator.Salt) (m : OutMsg) (hh : (l.ends x).hand = some m)
    (hst : (l.ends x).step b3 q (.write salt) = some e) :
    Kept b3 key o (as++[.write x salt]) ((l.setEnd x e).setWire x
      (l.wire x++[m.message b3 salt (l.ends x).obfuscation])) := by
  have hp := setEnd_plain l x e h.plain (step_plain b3 q _ e _ hst (h.plain x))
  cases Endpoint.moves_of_step b3 q _ e _ hst with
  | write _ f hf =>
    obtain rfl : m = .frame f := Option.some.inj (hh.symm.trans hf)
    have hl := Endpoint.write_ledger (l.ends x) f (outbound b3 salt f (l.ends x).obfuscation).2
      (fs x) hf
    have hpage : ∀ y, page (Function.update fs x (fs x++[f])) ((l.setEnd x { l.ends x with
        hand := none, obfuscation := (outbound b3 salt f (l.ends x).obfuscation).2 }).setWire x
          (l.wire x++[(OutMsg.frame f).message b3 salt (l.ends x).obfuscation])) y =
        page fs l y := by
      intro y
      rcases eq_or_ne y x with rfl | hne
      · simpa [page] using hl
      · simp [page, hne]
    refine kept_quiet h _ rfl rfl heard lost (write_wired h.wired x _ salt f rfl) hp
      (Nat.le_add_right _ _) ?_
    rw [hpage, hpage]
    exact h.books
  | writePong _ payload hf =>
    obtain rfl : m = .wsPong payload := Option.some.inj (hh.symm.trans hf)
    have hl := Endpoint.pong_ledger (l.ends x) payload hf
    have hpage : ∀ y, page fs ((l.setEnd x { l.ends x with hand := none }).setWire x
        (l.wire x++[(OutMsg.wsPong payload).message b3 salt (l.ends x).obfuscation])) y =
        page fs l y := by
      intro y
      rcases eq_or_ne y x with rfl | hne
      · simp [page, hl]
      · simp [page, hne]
    refine kept_quiet h _ rfl rfl heard lost (pong_wired h.wired x _ rfl) hp
      (Nat.le_add_right _ _) ?_
    rw [hpage, hpage]
    exact h.books

theorem opener_kept (validate : AuthRequest → Result AuthResponse) (f : Frame) (gs : List Frame)
    (hfs : fs (!o) = f::gs) {k : Link} {m : Bool → ℕ} {fs' : Bool → List Frame}
    (hw : Wired b3 key m fs' k) (hp : ∀ y, (k.ends y).sessions = none) (hm : m (!o) = n (!o)+1)
    (hout : fs' o = fs o) (hback : fs' (!o) = gs) (hend : k.ends (!o) = l.ends (!o))
    (hsel : (l.ends o).control = .select)
    (hcase : (Opening f ∧ (k.ends o).ledger = (l.ends o).ledger.hear f) ∨
      (¬Opening f ∧ Ledger.Moves (l.ends o).ledger none none (k.ends o).ledger) ∨
      ((k.ends o).ledger = (l.ends o).ledger ∧ key.isSome = true ∧ 2^64 ≤ n (!o))) :
    Kept b3 key o (as++[.deliver o validate]) k := by
  have hrest := page_rest fs hback hend
  have hdone : m (!o) ≤ n (!o)+if (LinkAct.deliver o validate).delivers o then 1 else 0 := by
    simp [hm, LinkAct.delivers]
  have hweak : (key.isSome = true → m (!o) ≤ 2^64) → key.isSome = true → n (!o) ≤ 2^64 := by
    intro hb hk
    have := hb hk
    omega
  rcases hcase with ⟨ho,he⟩ | ⟨ho,he⟩ | ⟨he,hk,hn⟩
  · have halive : (page fs l o).alive = true := by
      simp [page, Ledger.carry, Endpoint.ledger, Endpoint.alive, hsel]
    have hb := h.books.opener_hears f _ (page_front hfs ho) ho halive
      (page_calls fs l o hsel h.books.opener.outbox)
    refine kept_quiet h _ rfl rfl (heard+((ackOf f).toList : Multiset (ℕ × OpenStreamAck))) lost hw
      hp hdone ?_
    rw [page_hears hout he, hrest]
    exact hb.weaken _ hweak
  · obtain ⟨lost',hb⟩ := h.books.opener_moves _ _ _ (page_moves hout he) (Ledger.short_none _)
    refine kept_quiet h _ rfl rfl heard lost' hw hp hdone ?_
    rw [page_quiet hfs hback hend ho]
    simp only [Option.map_none, Option.toList_none, List.append_nil] at hb
    exact hb.weaken _ hweak
  · have hb := h.books.acceptor_drops _ (page_shrinks hfs)
    refine kept_quiet h _ rfl rfl heard lost hw hp hdone ?_
    rw [page_same hout he, hrest]
    refine hb.weaken _ fun hb => ?_
    have := hb hk
    omega

theorem acceptor_kept (validate : AuthRequest → Result AuthResponse) (f : Frame) (gs : List Frame)
    (hfs : fs o = f::gs) {k : Link} {m : Bool → ℕ} {fs' : Bool → List Frame}
    (hw : Wired b3 key m fs' k) (hp : ∀ y, (k.ends y).sessions = none) (hm : m (!o) = n (!o))
    (hout : fs' (!o) = fs (!o)) (hback : fs' o = gs) (hend : k.ends o = l.ends o)
    (hcase : (Opening f ∧ (k.ends (!o)).ledger = (l.ends (!o)).ledger.hear f) ∨
      (¬Opening f ∧ Ledger.Moves (l.ends (!o)).ledger none none (k.ends (!o)).ledger) ∨
      (k.ends (!o)).ledger = (l.ends (!o)).ledger) :
    Kept b3 key o (as++[.deliver (!o) validate]) k := by
  have hrest := page_rest fs hback hend
  have hdone : m (!o) ≤ n (!o)+if (LinkAct.deliver (!o) validate).delivers o then 1 else 0 := by
    simp [hm]
  rcases hcase with ⟨ho,he⟩ | ⟨ho,he⟩ | he
  · have hb := h.books.acceptor_hears f _ (page_front hfs ho) ho
    refine kept_quiet h _ rfl rfl heard lost hw hp hdone ?_
    rw [page_hears hout he, hrest, hm]
    exact hb
  · have hb := h.books.acceptor_moves _ _ _ (page_moves hout he) (Ledger.short_none _)
    refine kept_quiet h _ rfl rfl heard lost hw hp hdone ?_
    rw [page_quiet hfs hback hend ho, hm]
    simpa using hb
  · have hb := h.books.opener_drops _ (page_shrinks hfs)
    refine kept_quiet h _ rfl rfl heard lost hw hp hdone ?_
    rw [page_same hout he, hrest, hm]
    exact hb

theorem wire_apt (f : Frame) (hf : f ∈ fs x) : Apt f := by
  by_cases ho : Opening f
  · have hmem : f ∈ (page fs l x).outbox :=
      Multiset.mem_add.mpr (Or.inr (Multiset.mem_filter.mpr ⟨hf,ho⟩))
    rcases Bool.eq_or_eq_not x o with rfl | rfl
    · exact h.books.opener.outbox f hmem
    · exact h.books.acceptor.outbox f hmem
  · exact fun hn => absurd hn ho

theorem deliver_kept (validate : AuthRequest → Result AuthResponse) (msg : WsMessage)
    (rest : List WsMessage) (hw : l.wire (!x) = msg::rest)
    (hst : (l.ends x).step b3 q (.receive validate msg) = some e) :
    Kept b3 key o (as++[.deliver x validate]) ((l.setEnd x e).setWire (!x) rest) := by
  have hp := setEnd_plain l x e h.plain (step_plain b3 q _ e _ hst (h.plain x))
  have hcoded := (h.wired (!x)).coded
  have hopens := (h.wired (!x)).opens
  rw [hw] at hcoded
  rw [Bool.not_not] at hopens
  cases Endpoint.moves_of_step b3 q _ e _ hst with
  | receive _ _ hc =>
  cases msg with
  | ping payload => exact hcoded.elim
  | other =>
    refine kept_quiet h _ rfl rfl heard lost (skipped_wired h.wired x _ rest hw rfl) hp
      (Nat.le_add_right _ _) ?_
    have hpage : ∀ y, page fs ((l.setEnd x (l.ends x)).setWire (!x) rest) y = page fs l y := by
      intro y
      simp [page]
    show Books _ _ _ _ _ (page fs ((l.setEnd x (l.ends x)).setWire (!x) rest) o)
      (page fs ((l.setEnd x (l.ends x)).setWire (!x) rest) (!o))
    rw [hpage, hpage]
    exact h.books
  | binary bytes =>
    cases hfs : fs (!x) with
    | nil =>
      rw [hfs] at hcoded
      exact hcoded.elim
    | cons f gs =>
      rw [hfs] at hcoded
      set e := (l.ends x).receive b3 q validate (.binary bytes) with he
      have hcase : ∃ ob, e.obfuscation = ob ∧ Opens key (n (!x)+1) ob ∧
          (∀ m, Seals key m (l.ends x).obfuscation → Seals key m ob) ∧
          ((Opening f ∧ e.ledger = (l.ends x).ledger.hear f) ∨
            (¬Opening f ∧ Ledger.Moves (l.ends x).ledger none none e.ledger) ∨
            (e.ledger = (l.ends x).ledger ∧ key.isSome = true ∧ 2^64 ≤ n (!x))) := by
        rcases inbound_codes b3 key _ _ f bytes hopens hcoded.1 with
          ⟨ob,hin,-,hopen,hseal⟩ | ⟨hsome,hwrap,hin,hopen⟩
        · obtain ⟨hob,hl⟩ := Endpoint.opened_ledger (l.ends x) e validate f ob hc (h.plain x)
            (wire_apt h (!x) f (by simp [hfs])) (fun g m hd => by simp only [he, Endpoint.receive, hin, hd])
            (fun err hd => by simp only [he, Endpoint.receive, hin, hd])
          exact ⟨ob,hob,hopen,hseal,hl.imp_right Or.inl⟩
        · have hself : e = l.ends x := by simp only [he, Endpoint.receive, hin]
          exact ⟨_,by rw [hself],hopen,fun _ => id,Or.inr (Or.inr ⟨by rw [hself],hsome,hwrap⟩)⟩
      obtain ⟨ob,rfl,hopen,hseal,hcase⟩ := hcase
      have hwired := taken_wired h.wired x e rest f gs hfs hcoded.2 hseal hopen
      rcases Bool.eq_or_eq_not x o with rfl | rfl
      · exact opener_kept h validate f gs hfs hwired hp (by simp) (by simp) (by simp) (by simp) hc
          (by simpa using hcase)
      · rw [Bool.not_not] at *
        exact acceptor_kept h validate f gs hfs hwired hp (by simp) (by simp) (by simp) (by simp)
          (by simpa using hcase.imp_right (Or.imp_right And.left))

theorem step_kept (cap : Bool → ℕ) (k : Link) (a : LinkAct) (hs : Short l a)
    (hst : l.step b3 q cap a = some k) : Kept b3 key o (as++[a]) k := by
  cases moves_of_step b3 q cap l k a hst with
  | own x a e ha he => exact own_kept h x e a ha he hs
  | write x salt m e hh hw he => exact write_kept h x e salt m hh he
  | deliver x validate msg rest e hw he => exact deliver_kept h x e validate msg rest hw he

end

theorem client_ledger (auth : AuthRequest) (ob : Option Obfuscator) :
    (Endpoint.client auth ob).ledger = ⟨true,true,0,0,0,∅,fun _ => [],0,0,0⟩ := by
  have hn : ¬Opening ⟨0,Frame.frameAuthRequest,auth.encode⟩ :=
    not_opening _ (by simp [Kind.concerns])
  have hback : (Endpoint.client auth ob).backlog =
      {.sendFrame ⟨0,Frame.frameAuthRequest,auth.encode⟩} := rfl
  refine Ledger.ext rfl rfl rfl ?_ ?_ rfl rfl rfl rfl rfl
  · show Endpoint.outbox _ = 0
    have hnone : (Cmd.sendFrame ⟨0,Frame.frameAuthRequest,auth.encode⟩).opening = none := by
      rw [Cmd.opening, if_neg hn]
    rw [Endpoint.outbox, hback, ← Multiset.cons_zero, Multiset.filterMap_cons_none _ _ hnone]
    rfl
  · show Endpoint.calls _ = 0
    rw [Endpoint.calls, hback, ← Multiset.cons_zero, Multiset.filterMap_cons_none _ _ rfl]
    rfl

theorem server_ledger (ob : Option Obfuscator) :
    (Endpoint.server false ob).ledger = ⟨true,true,0,0,0,∅,fun _ => [],0,0,0⟩ := rfl

theorem init_kept (b3 : Blake3) (auth : AuthRequest) (psk : Option Bytes) (o : Bool) :
    Kept b3 (psk.map (Obfuscator.new b3)) o []
      (init auth false fun _ => psk.map (Obfuscator.new b3)) := by
  set key := psk.map (Obfuscator.new b3)
  have hpage : ∀ x, page (fun _ => []) (init auth false fun _ => key) x =
      ⟨true,true,0,0,0,∅,fun _ => [],0,0,0⟩ := by
    rintro (_ | _)
    · exact congrArg (Ledger.carry · 0) (client_ledger auth key)
    · exact congrArg (Ledger.carry · 0) (server_ledger key)
  have hfit : Ledger.Fit ⟨true,true,0,0,0,∅,fun _ => [],0,0,0⟩ :=
    ⟨fun f hf => absurd hf (Multiset.notMem_zero f),fun p hp => absurd hp (Multiset.notMem_zero p),
      fun i hi => absurd hi (Multiset.notMem_zero i)⟩
  refine ⟨fun _ => 0,fun _ => [],0,∅,init_wired b3 auth false psk,?_,Nat.zero_le _,?_⟩
  · rintro (_ | _) <;> rfl
  · rw [hpage, hpage]
    exact ⟨hfit,hfit,rfl,le_rfl,rfl,le_rfl,fun _ _ _ _ => rfl,fun _ => rfl,fun _ => rfl,
      fun _ hid => absurd hid (Finset.notMem_empty _),fun _ => rfl⟩

/-- The books are kept along every run. -/
theorem run_kept (b3 : Blake3) (q : Queues) (cap : Bool → ℕ) (auth : AuthRequest)
    (psk : Option Bytes) (o : Bool) (as : List LinkAct) (l : Link)
    (hm : Meets (step b3 q cap) Short as (init auth false fun _ => psk.map (Obfuscator.new b3)))
    (hr : run (step b3 q cap) as (init auth false fun _ => psk.map (Obfuscator.new b3)) = some l) :
    Kept b3 (psk.map (Obfuscator.new b3)) o as l := by
  apply run_records (fun as l a k h hs hst => ?_) as _ l hm hr (init_kept b3 auth psk o)
  obtain ⟨n,fs,heard,lost,hb⟩ := h
  exact step_kept hb cap k a hs hst

def hearing (b3 : Blake3) (l : Link) (x : Bool) : Option Frame :=
  (l.wire (!x)).head?.bind (hears b3 (l.ends x).obfuscation)

def UnderWay (b3 : Blake3) (key : Option Obfuscator) (l : Link) (x : Bool) (id : ℕ)
    (ack : OpenStreamAck) : Prop :=
  ∃ f, ackOf f = some (id,ack) ∧
    (f ∈ (l.ends x).outbox ∨ ∃ n fs, Coded b3 key n (l.wire x) fs ∧ f ∈ fs)

/-- One of the two ends is gone, or the writer of the end that answers, or the
end that opens has taken all the numbers of an obfuscated connection. -/
def Broken (key : Option Obfuscator) (o : Bool) (as : List LinkAct) (l : Link) : Prop :=
  (l.ends o).alive = false ∨ (l.ends (!o)).alive = false ∨ (l.ends (!o)).writing = false ∨
    key.isSome = true ∧ 2^64 < as.countP (LinkAct.delivers o)

structure Agree (b3 : Blake3) (q : Queues) (cap : Bool → ℕ) (key : Option Obfuscator) (o : Bool)
    (as : List LinkAct) (l : Link) (id : ℕ) : Prop where
  /-- A call is told at most once. -/
  once : ((l.ends o).opened id).length ≤ 1
  /-- A call that succeeds was offered in one event, as it was made, and accepted. -/
  accepted : .ok () ∈ (l.ends o).opened id → ∃ address ack, (id,address) ∈ called o as ∧
    ((l.ends (!o)).yielded++(l.ends (!o)).events).filter (·.offer = [id]) =
      [.incomingOpen id address] ∧
    (replied (!o) as).filter (·.1 = id) = [(id,ack)] ∧ ack.status = statusOk
  /-- A call that fails was refused, or the connection has ended. -/
  failed : ∀ err, .error err ∈ (l.ends o).opened id →
    (∃ ack, (replied (!o) as).filter (·.1 = id) = [(id,ack)] ∧ ack.status ≠ statusOk ∧
      err = .message (Address.fromUtf8Lossy ack.message)) ∨
    err = .streamClosed ∧ (l.ends o).control = .ended
  /-- A reply is what the call is told, or on its way, unless the way is broken. -/
  answered : ∀ ack, (id,ack) ∈ replied (!o) as →
    (l.ends o).opened id = [outcome ack] ∨ l.UnderWay b3 key (!o) id ack ∨ Broken key o as l
  /-- An acknowledgement finds its entry and no answer yet, and tells no other call. -/
  timely : ∀ validate k f, l.step b3 q cap (.deliver o validate) = some k →
    l.hearing b3 o = some f → kind f.frameType = .openStreamAck → f.streamId = id →
      id ∈ (l.ends o).pending ∧ (l.ends o).opened id = [] ∧ ∃ ack, (id,ack) ∈ replied (!o) as ∧
        (k.ends o).opened = Function.update (l.ends o).opened id [outcome ack]

theorem filter_offer (events : List WsEvent) (id : ℕ) : events.filter (·.offer = [id]) =
    ((events.filterMap WsEvent.ask).filter (·.1 = id)).map fun p => .incomingOpen p.1 p.2 := by
  induction events with
  | nil => rfl
  | cons event events ih =>
    cases event with
    | datagram dg =>
      have ho : (WsEvent.datagram dg).offer = [] := rfl
      simpa [ho, List.filterMap_cons] using ih
    | incomingOpen i address =>
      have ho : (WsEvent.incomingOpen i address).offer = [i] := rfl
      rcases eq_or_ne i id with rfl | hi
      · simp [ho, ih]
      · simp [ho, hi, ih]

/-- The frame that is about to be heard, if it opens a stream, is the next one on the wire. -/
theorem hearing_wired {b3 : Blake3} {key : Option Obfuscator} {n : Bool → ℕ}
    {fs : Bool → List Frame} {l : Link} (h : Wired b3 key n fs l) (x : Bool)
    (hapt : ∀ f ∈ fs (!x), Apt f) (f : Frame) (hf : l.hearing b3 x = some f) (ho : Opening f) :
    f ∈ fs (!x) := by
  have hcoded := (h (!x)).coded
  have hopens := (h (!x)).opens
  rw [Bool.not_not] at hopens
  obtain ⟨msg,hmsg,hheard⟩ := Option.bind_eq_some_iff.mp hf
  obtain ⟨rest,hw⟩ := List.head?_eq_some_iff.mp hmsg
  rw [hw] at hcoded
  cases msg with
  | ping | other => cases hheard
  | binary bytes =>
    cases hfs : fs (!x) with
    | nil =>
      rw [hfs] at hcoded
      exact hcoded.elim
    | cons g gs =>
      rw [hfs] at hcoded
      rcases inbound_codes b3 key _ _ g bytes hopens hcoded.1 with ⟨ob,hin,-⟩ | ⟨-,-,hin,-⟩
      · simp only [hears, hin] at hheard
        obtain ⟨⟨i,m⟩,hd,rfl⟩ := Option.map_eq_some_iff.mp hheard
        have hd : Frame.decode g.encode = .ok (i,m) := by
          cases hg : Frame.decode g.encode <;> simp_all [Except.toOption]
        have hg : Opening g := by
          by_contra hn
          exact decoded_not_opening g i m hn hd ho
        obtain ⟨k,hk⟩ := apt_decoded g (hapt g (by simp [hfs])) hg
        rw [hk] at hd
        cases hd
        exact List.mem_cons_self
      · simp only [hears, hin] at hheard
        cases hheard

section
variable {b3 : Blake3} {key : Option Obfuscator} {o : Bool} {as : List LinkAct} {n : Bool → ℕ}
  {fs : Bool → List Frame} {heard : Multiset (ℕ × OpenStreamAck)} {lost : Finset ℕ} {l : Link}
  (h : Balanced b3 key o as n fs heard lost l) (id : ℕ)
include h

theorem once_of_balanced : ((l.ends o).opened id).length ≤ 1 := by
  by_cases hm : id ∈ heard.map Prod.fst
  · obtain ⟨⟨i,ack⟩,hmem,rfl⟩ := Multiset.mem_map.mp hm
    exact (congrArg List.length (h.books.opened_of_heard i ack hmem)).le
  · have ho := h.books.opened_of_unheard id hm
    have hlen : (page fs l o).opened id = (l.ends o).opened id := rfl
    rw [← hlen, ho]
    split_ifs <;> simp

/-- What a call is told is the answer to its only offer, or the end. -/
theorem told_of_balanced (r : Result Unit) (hr : r ∈ (l.ends o).opened id) :
    (∃ address ack, (id,address) ∈ called o as ∧
      ((l.ends (!o)).yielded++(l.ends (!o)).events).filter (·.offer = [id]) =
        [.incomingOpen id address] ∧
      (replied (!o) as).filter (·.1 = id) = [(id,ack)] ∧ r = outcome ack) ∨
    r = .error .streamClosed ∧ (l.ends o).control = .ended := by
  have hr : r ∈ (page fs l o).opened id := hr
  by_cases hm : id ∈ heard.map Prod.fst
  · left
    obtain ⟨⟨i,ack⟩,hmem,rfl⟩ := Multiset.mem_map.mp hm
    rw [h.books.opened_of_heard i ack hmem, List.mem_singleton] at hr
    have hrep : (i,ack) ∈ (replied (!o) as : Multiset (ℕ × OpenStreamAck)) :=
      Multiset.mem_of_le h.books.acks (Multiset.mem_add.mpr (Or.inr hmem))
    obtain ⟨address,hcalled,htaken,hqueued,honly⟩ := h.books.called_of_replied i ack hrep
    refine ⟨address,ack,hcalled,?_,Multiset.coe_eq_singleton.mp honly,hr⟩
    have ht : ((l.ends (!o)).yielded.filterMap WsEvent.ask).filter (·.1 = i) = [(i,address)] :=
      Multiset.coe_eq_singleton.mp htaken
    have he : ((l.ends (!o)).events.filterMap WsEvent.ask).filter (·.1 = i) = [] := by
      refine (Multiset.coe_eq_zero _).mp (Multiset.le_zero.mp (le_trans ?_ hqueued.le))
      exact Multiset.filter_le_filter _ (Multiset.le_add_left _ _)
    rw [filter_offer, List.filterMap_append, List.filter_append, ht, he]
    rfl
  · right
    rw [h.books.opened_of_unheard id hm] at hr
    split_ifs at hr with hl
    · refine ⟨List.mem_singleton.mp hr,?_⟩
      have hdead : (l.ends o).alive = false := by
        by_contra ha
        have hlost := h.books.alive (by simpa [page, Ledger.carry, Endpoint.ledger] using ha)
        rw [hlost] at hl
        exact Finset.notMem_empty id hl
      unfold Endpoint.alive at hdead
      split at hdead
      · assumption
      · cases hdead
    · cases hr

/-- A reply that was not heard is on its way, if nothing is broken. -/
theorem answered_of_balanced (ack : OpenStreamAck) (hr : (id,ack) ∈ replied (!o) as) :
    (l.ends o).opened id = [outcome ack] ∨ l.UnderWay b3 key (!o) id ack ∨ Broken key o as l := by
  by_cases hb : Broken key o as l
  · exact Or.inr (Or.inr hb)
  · simp only [Broken, not_or, not_and, not_lt, Bool.not_eq_false] at hb
    obtain ⟨hg,hk,hw,hcount⟩ := hb
    have hkept := h.books.kept (fun hs => h.taken.trans (hcount hs)) hg hk hw
    have hmem : (id,ack) ∈ (replied (!o) as : Multiset (ℕ × OpenStreamAck)) := hr
    rw [← hkept, Multiset.mem_add] at hmem
    rcases hmem with hway | hheard
    · right
      left
      obtain ⟨f,hf,hack⟩ := (Multiset.mem_filterMap _ _).mp hway
      refine ⟨f,hack,?_⟩
      rcases Multiset.mem_add.mp hf with hf | hf
      · exact Or.inl hf
      · exact Or.inr ⟨_,_,(h.wired (!o)).coded,(Multiset.mem_filter.mp hf).1⟩
    · left
      exact h.books.opened_of_heard id ack hheard

/-- An acknowledgement is heard by a loop that waits for it. -/
theorem timely_of_balanced {q : Queues} {cap : Bool → ℕ}
    (validate : AuthRequest → Result AuthResponse) (k : Link) (f : Frame)
    (hst : l.step b3 q cap (.deliver o validate) = some k) (hf : l.hearing b3 o = some f)
    (hk : kind f.frameType = .openStreamAck) (hid : f.streamId = id) :
    id ∈ (l.ends o).pending ∧ (l.ends o).opened id = [] ∧ ∃ ack, (id,ack) ∈ replied (!o) as ∧
      (k.ends o).opened = Function.update (l.ends o).opened id [outcome ack] := by
  subst hid
  have hwire := hearing_wired h.wired o (wire_apt h (!o)) f hf (Or.inr hk)
  obtain ⟨ack,hack,hout⟩ := ackOf_apt f (wire_apt h (!o) f hwire) hk
  have hway : (f.streamId,ack) ∈ (page fs l (!o)).outbox.filterMap ackOf := by
    refine (Multiset.mem_filterMap _ _).mpr ⟨f,?_,hack⟩
    exact Multiset.mem_add.mpr (Or.inr (Multiset.mem_filter.mpr ⟨hwire,Or.inr hk⟩))
  have hrep : (f.streamId,ack) ∈ (replied (!o) as : Multiset (ℕ × OpenStreamAck)) :=
    Multiset.mem_of_le h.books.acks (Multiset.mem_add.mpr (Or.inl hway))
  cases moves_of_step b3 q cap l k _ hst with
  | deliver _ _ msg rest e hw he =>
  have hheard : hears b3 (l.ends o).obfuscation msg = some f := by
    rw [hearing, hw] at hf
    exact hf
  cases Endpoint.moves_of_step b3 q _ e _ he with
  | receive _ _ hc =>
  have halive : (page fs l o).alive = true := by
    simp [page, Ledger.carry, Endpoint.ledger, Endpoint.alive, hc]
  have hpend : f.streamId ∈ (page fs l o).pending := by
    apply h.books.pending_of_ack halive ?_ _ (Multiset.mem_map.mpr ⟨_,hway,rfl⟩)
    exact page_calls fs l o hc h.books.opener.outbox
  have hfresh : (l.ends o).opened f.streamId = [] := by
    have ho := h.books.opened_of_unheard f.streamId (h.books.pending_unheard halive _ hpend)
    rw [h.books.alive halive, if_neg (Finset.notMem_empty _)] at ho
    exact ho
  refine ⟨hpend,hfresh,ack,hrep,?_⟩
  rw [setWire_ends, setEnd_ends, Function.update_self]
  rcases Endpoint.receive_cases b3 q (l.ends o) validate msg with ⟨g,ob,hg,ht⟩ | ⟨hn,-⟩
  · obtain rfl : g = f := Option.some.inj (hg.symm.trans hheard)
    have hl := Endpoint.handleFrame_ledger { l.ends o with obfuscation := ob } validate g hc
      (h.plain o)
    rw [ht]
    refine (congrArg Ledger.opened hl).trans ?_
    have hp : g.streamId ∈ ({ l.ends o with obfuscation := ob } : Endpoint).ledger.pending := hpend
    simp only [Ledger.hear, hk, if_pos hp, hout]
    show Function.update (l.ends o).opened g.streamId ((l.ends o).opened g.streamId++[_]) = _
    rw [hfresh]
    rfl
  · rw [hn] at hheard
    cases hheard

end

/-- In every run of two ends without sessions, whatever else they do, the two
agree on every stream that one of them opens. -/
theorem open_agreement (b3 : Blake3) (q : Queues) (cap : Bool → ℕ) (auth : AuthRequest)
    (psk : Option Bytes) (as : List LinkAct) (l : Link)
    (hm : Meets (step b3 q cap) Short as (init auth false fun _ => psk.map (Obfuscator.new b3)))
    (hr : run (step b3 q cap) as (init auth false fun _ => psk.map (Obfuscator.new b3)) = some l)
    (o : Bool) :
    (called o as).map Prod.fst = List.range' 1 (l.ends o).nextStreamId ∧
      ∀ id, Agree b3 q cap (psk.map (Obfuscator.new b3)) o as l id := by
  obtain ⟨n,fs,heard,lost,h⟩ := run_kept b3 q cap auth psk o as l hm hr
  refine ⟨h.books.numbered,fun id => ⟨once_of_balanced h id,fun hok => ?_,fun err herr => ?_,
    answered_of_balanced h id,timely_of_balanced h id⟩⟩
  · rcases told_of_balanced h id _ hok with ⟨address,ack,hcalled,hoffer,honly,hout⟩ | ⟨hn,-⟩
    · refine ⟨address,ack,hcalled,hoffer,honly,?_⟩
      by_contra hbad
      rw [outcome, if_neg hbad] at hout
      cases hout
    · cases hn
  · rcases told_of_balanced h id _ herr with ⟨address,ack,-,-,honly,hout⟩ | ⟨he,hend⟩
    · left
      refine ⟨ack,honly,?_⟩
      by_cases hok : ack.status = statusOk
      · rw [outcome, if_pos hok] at hout
        cases hout
      · rw [outcome, if_neg hok] at hout
        exact ⟨hok,Except.error.inj hout⟩
    · exact Or.inr ⟨Except.error.inj he,hend⟩

def crossed : List LinkAct :=
  List.flatten [settled.take 12,
    [.own false (.openStream (.domain [97] 80)),.own false (.openStream (.domain [98] 80)),
      .own false (.enter (.openStream 2 (.domain [98] 80))),.own false .take],
    shipped false,
    [.deliver true Endpoint.exampleValidator,.own true (.emit false),.own true .nextEvent,
      .own false (.enter (.openStream 1 (.domain [97] 80))),.own false .take],
    shipped false,
    [.deliver true Endpoint.exampleValidator,.own true (.emit false),.own true .nextEvent,
      .own true (.replyOpen 1 .ok),.own true (.replyOpen 2 Endpoint.refusal),
      .own true (.enter (.replyOpen 2 Endpoint.refusal)),.own true .take],
    shipped true,
    [.deliver false Endpoint.exampleValidator,.own true (.enter (.replyOpen 1 .ok)),
      .own true .take],
    shipped true,
    [.deliver false Endpoint.exampleValidator]]

theorem crossed_agreement : ∃ l, run (step copyHash ⟨1,1,1⟩ fun _ => 1) crossed
    (init exampleAuth false fun _ => (some [1]).map (Obfuscator.new copyHash)) = some l ∧
      (∃ address, (1,address) ∈ called false crossed ∧
        ((l.ends true).yielded++(l.ends true).events).filter (·.offer = [1]) =
          [.incomingOpen 1 address]) ∧
      ∃ ack, (replied true crossed).filter (·.1 = 2) = [(2,ack)] ∧ ack.status ≠ statusOk := by
  have hm : Meets (step copyHash ⟨1,1,1⟩ fun _ => 1) Short crossed
      (init exampleAuth false fun _ => (some [1]).map (Obfuscator.new copyHash)) := by
    decide +kernel
  have hd : ((run (step copyHash ⟨1,1,1⟩ fun _ => 1) crossed
      (init exampleAuth false fun _ => (some [1]).map (Obfuscator.new copyHash))).map fun l =>
        decide ((l.ends false).alive = true ∧ (l.ends false).opened 1 = [.ok ()] ∧
          (l.ends false).opened 2 = [outcome Endpoint.refusal])) = some true := by decide +kernel
  obtain ⟨l,hr,hl⟩ := Option.map_eq_some_iff.mp hd
  obtain ⟨halive,hone,htwo⟩ := of_decide_eq_true hl
  have hagree := (open_agreement copyHash ⟨1,1,1⟩ (fun _ => 1) exampleAuth (some [1]) crossed l hm
    hr false).2
  refine ⟨l,hr,?_,?_⟩
  · obtain ⟨address,ack,hcalled,hoffer,-⟩ := (hagree 1).accepted (by simp [hone])
    exact ⟨address,hcalled,hoffer⟩
  · rcases (hagree 2).failed _ (by rw [htwo]; exact List.mem_singleton.mpr rfl) with
      ⟨ack,honly,hbad,-⟩ | ⟨-,hend⟩
    · exact ⟨ack,honly,hbad⟩
    · rw [Endpoint.alive, hend] at halive
      cases halive

end Link
end Hydr.Ws
