import Mathlib
import Hydr.Library.Table
import Hydr.WsLedger

/-!
# The books of the streams that are being opened

What one end has asked for and what the other has answered, balanced against
what is on the way. Every OpenStream, offer and event stands for one call, every
acknowledgement for one reply, and a call is on its way, pending or answered.
The frames of an end count until the other end has heard them.
-/

set_option autoImplicit false

namespace Hydr.Ws
open Message Varint

def askOf (f : Frame) : Option (ℕ × Address) :=
  if kind f.frameType = .openStream then
    (OpenStream.decode f.body).toOption.map fun p => (f.streamId,p.1.address)
  else none

def ackOf (f : Frame) : Option (ℕ × OpenStreamAck) :=
  if kind f.frameType = .openStreamAck then
    (OpenStreamAck.decode f.body).toOption.map fun p => (f.streamId,p.1)
  else none

def Sendable (address : Address) : Prop :=
  address.received = address ∧ (OpenStream.mk address).encode.length ≤ Frame.maxBodyLen

instance (address : Address) : Decidable (Sendable address) := inferInstanceAs (Decidable (_ ∧ _))

def Apt (f : Frame) : Prop :=
  Opening f → f.streamId < 2^62 ∧ f.body.length ≤ Frame.maxBodyLen ∧
    (askOf f).isSome = (ackOf f).isNone

theorem sendable_decoded (address : Address) (h : Sendable address) :
    ∃ n, OpenStream.decode (OpenStream.mk address).encode = .ok (⟨address⟩,n) := by
  have hs : address.Encodable := by
    cases address with
    | ip => trivial
    | domain host port =>
      have hl := h.2
      simp only [OpenStream.encode, Address.encode, Frame.maxBodyLen, List.cons_append,
        List.length_cons, List.length_append] at hl
      show host.length < 2^62
      omega
  have hd := Address.decode_encode address [] hs
  rw [List.append_nil, h.1] at hd
  exact ⟨address.encode.length,by
    simp [OpenStream.decode, OpenStream.encode, hd, bind, Except.bind, pure, Except.pure]⟩

theorem askOf_openFrame (id : ℕ) (address : Address) (h : Sendable address) :
    askOf (openFrame id address) = some (id,address) := by
  obtain ⟨n,hd⟩ := sendable_decoded address h
  simp [askOf, openFrame, hd, Except.toOption]

@[simp] theorem askOf_ackFrame (id : ℕ) (ack : OpenStreamAck) : askOf (ackFrame id ack) = none := by
  simp [askOf, ackFrame]

@[simp] theorem ackOf_openFrame (id : ℕ) (address : Address) :
    ackOf (openFrame id address) = none := by
  simp [ackOf, openFrame]

theorem ackOf_ackFrame (id : ℕ) (ack : OpenStreamAck)
    (h : ack.encode.length ≤ Frame.maxBodyLen) : ackOf (ackFrame id ack) = some (id,ack) := by
  have hm : ack.message.length < 2^62 := by
    simp only [OpenStreamAck.encode, List.length_append, Frame.maxBodyLen] at h
    omega
  have hd := OpenStreamAck.decode_encode ack [] hm
  rw [List.append_nil] at hd
  simp [ackOf, ackFrame, hd, Except.toOption]

theorem openFrame_apt (id : ℕ) (address : Address) (hi : id < 2^62) (h : Sendable address) :
    Apt (openFrame id address) :=
  fun _ => ⟨hi,h.2,by rw [askOf_openFrame id address h, ackOf_openFrame]; rfl⟩

theorem ackFrame_apt (id : ℕ) (ack : OpenStreamAck) (hi : id < 2^62)
    (h : ack.encode.length ≤ Frame.maxBodyLen) : Apt (ackFrame id ack) :=
  fun _ => ⟨hi,h,by rw [ackOf_ackFrame id ack h, askOf_ackFrame]; rfl⟩

theorem askOf_id (f : Frame) (p : ℕ × Address) (h : askOf f = some p) : p.1 = f.streamId := by
  unfold askOf at h
  split_ifs at h
  obtain ⟨r,-,rfl⟩ := Option.map_eq_some_iff.mp h
  rfl

theorem ackOf_apt (f : Frame) (h : Apt f) (hk : kind f.frameType = .openStreamAck) :
    ∃ ack, ackOf f = some (f.streamId,ack) ∧ outcomeOf f.body = outcome ack := by
  have hask : askOf f = none := by simp [askOf, hk]
  obtain ⟨-,-,hone⟩ := h (Or.inr hk)
  rw [hask] at hone
  simp only [ackOf, hk, if_true, outcomeOf] at hone ⊢
  cases hd : OpenStreamAck.decode f.body with
  | error err => simp [hd, Except.toOption] at hone
  | ok p => exact ⟨p.1,rfl,rfl⟩

/-- A frame that opens a stream comes off the wire as it was put on. -/
theorem apt_decoded (f : Frame) (h : Apt f) (ho : Opening f) :
    ∃ n, Frame.decode f.encode = .ok (f,n) := by
  obtain ⟨hi,hl,-⟩ := h ho
  have hd := Frame.decode_encode f [] hl
  rw [List.append_nil] at hd
  have hr : f.received = f := by rw [Frame.received, Nat.mod_eq_of_lt hi]
  exact ⟨_,hr ▸ hd⟩

/-- Any other frame stays another. -/
theorem decoded_not_opening (f g : Frame) (n : ℕ) (ho : ¬Opening f)
    (hd : Frame.decode f.encode = .ok (g,n)) : ¬Opening g := by
  rcases Frame.decode_any f with ⟨err,he⟩ | ⟨m,he⟩
  · rw [he] at hd
    cases hd
  · rw [he] at hd
    cases hd
    exact ho

namespace Ledger

structure Fit (g : Ledger) : Prop where
  outbox : ∀ f ∈ g.outbox, Apt f
  incoming : ∀ p ∈ g.incoming, p.1 < 2^62
  offers : ∀ id ∈ g.offers, id < 2^62

def Short (g : Ledger) (call : Option Address) (reply : Option (ℕ × OpenStreamAck)) : Prop :=
  (∀ address ∈ call, g.next+1 < 2^62 ∧ Sendable address) ∧
    ∀ p ∈ reply, p.2.encode.length ≤ Frame.maxBodyLen

theorem short_none (g : Ledger) : g.Short none none := by simp [Short]

theorem moves_fit (g g' : Ledger) (call : Option Address) (reply : Option (ℕ × OpenStreamAck))
    (h : Moves g call reply g') (hs : g.Short call reply) (hf : g.Fit) : g'.Fit := by
  obtain ⟨ho,hi,hr⟩ := hf
  cases h with
  | same => exact ⟨ho,hi,hr⟩
  | call address =>
    obtain ⟨hn,ha⟩ := hs.1 address rfl
    refine ⟨fun f hf => ?_,hi,hr⟩
    rcases Multiset.mem_cons.mp hf with rfl | hf
    · exact openFrame_apt _ _ hn ha
    · exact ho f hf
  | reply id ack hid =>
    refine ⟨fun f hf => ?_,hi,fun i hi => hr i (Multiset.mem_of_mem_erase hi)⟩
    rcases Multiset.mem_cons.mp hf with rfl | hf
    · exact ackFrame_apt _ _ (hr id hid) (hs.2 _ rfl)
    · exact ho f hf
  | pend id rest => exact ⟨ho,hi,hr⟩
  | take ask rest he =>
    have hmem : ∀ p, p = ask ∨ p ∈ rest → p.1 < 2^62 := by
      intro p hp
      apply hi
      rw [he]
      exact Multiset.mem_cons.mpr hp
    refine ⟨ho,fun p hp => hmem p (Or.inr hp),fun i hi => ?_⟩
    rcases Multiset.mem_cons.mp hi with rfl | hi
    · exact hmem ask (Or.inl rfl)
    · exact hr i hi
  | lose rest hle => exact ⟨ho,fun p hp => hi p (Multiset.mem_of_le hle hp),hr⟩
  | fail kept hle => exact ⟨fun f hf => ho f (Multiset.mem_of_le hle hf),hi,hr⟩
  | close kept calls ha hle => exact ⟨fun f hf => ho f (Multiset.mem_of_le hle hf),hi,hr⟩

theorem hear_ask (g : Ledger) (f : Frame) :
    (g.hear f).incoming = ((askOf f).toList : Multiset (ℕ × Address))+g.incoming := by
  unfold hear askOf
  cases hk : kind f.frameType with
  | openStream =>
    simp only [if_true]
    cases OpenStream.decode f.body <;> simp [Except.toOption]
  | openStreamAck =>
    simp only [reduceCtorEq, if_false]
    split_ifs <;> simp
  | _ => simp

structure Spares (g g' : Ledger) : Prop where
  alive : g'.alive = g.alive
  writing : g'.writing = g.writing
  next : g'.next = g.next
  outbox : g'.outbox = g.outbox
  calls : g'.calls = g.calls
  taken : g'.taken = g.taken
  offers : g'.offers = g.offers

theorem hear_spares (g : Ledger) (f : Frame) : Spares g (g.hear f) := by
  unfold hear
  split
  · split <;> constructor <;> rfl
  · split <;> constructor <;> rfl
  · constructor <;> rfl

theorem hear_fit (g : Ledger) (f : Frame) (hf : g.Fit) (ho : Opening f) (ha : Apt f) :
    (g.hear f).Fit := by
  have hs := hear_spares g f
  refine ⟨by rw [hs.outbox]; exact hf.outbox,fun p hp => ?_,by rw [hs.offers]; exact hf.offers⟩
  rw [hear_ask, Multiset.mem_add] at hp
  rcases hp with hp | hp
  · rw [Multiset.mem_coe, Option.mem_toList] at hp
    rw [askOf_id f p hp]
    exact (ha ho).1
  · exact hf.incoming p hp

end Ledger

/-- The books of the end `g` that opens and the end `k` that accepts. The calls
are numbered from one; `heard` are the answers that the opener has taken, `lost`
the calls that were still waiting at its end. The replies are `whole` as long as
nothing has been lost on their way. -/
structure Books (called : List (ℕ × Address)) (replied heard : Multiset (ℕ × OpenStreamAck))
    (lost : Finset ℕ) (whole : Prop) (g k : Ledger) : Prop where
  opener : g.Fit
  acceptor : k.Fit
  numbered : called.map Prod.fst = List.range' 1 g.next
  asks : g.outbox.filterMap askOf+(k.incoming+k.taken) ≤ called
  due : k.offers+replied.map Prod.fst = k.taken.map Prod.fst
  acks : k.outbox.filterMap ackOf+heard ≤ replied
  kept : whole → g.alive = true → k.alive = true → k.writing = true →
    k.outbox.filterMap ackOf+heard = replied
  waits : g.alive = true → g.calls+g.pending.val+heard.map Prod.fst = (called.map Prod.fst : List ℕ)
  opened : ∀ id, (g.opened id : Multiset (Result Unit)) =
    (heard.filter (·.1 = id)).map (outcome ·.2)+if id ∈ lost then {.error .streamClosed} else 0
  unheard : ∀ id ∈ lost, id ∉ heard.map Prod.fst
  alive : g.alive = true → lost = ∅

namespace Books

variable {called : List (ℕ × Address)} {replied heard : Multiset (ℕ × OpenStreamAck)}
  {lost : Finset ℕ} {whole : Prop} {g k : Ledger}

section
variable (h : Books called replied heard lost whole g k)
include h

theorem called_nodup : (called.map Prod.fst).Nodup := by
  rw [h.numbered]
  exact List.nodup_range'

/-- No id is asked for, offered or taken twice. -/
theorem asks_nodup :
    ((g.outbox.filterMap askOf).map Prod.fst+(k.incoming+k.taken).map Prod.fst).Nodup := by
  rw [← Multiset.map_add]
  have hle := Multiset.map_le_map (f := Prod.fst) h.asks
  exact Multiset.nodup_of_le hle (Multiset.coe_nodup.mpr h.called_nodup)

theorem taken_nodup : (k.taken.map Prod.fst).Nodup := by
  refine Multiset.nodup_of_le ?_ h.asks_nodup
  rw [Multiset.map_add, ← add_assoc]
  exact Multiset.le_add_left _ _

theorem replied_le : replied.map Prod.fst ≤ k.taken.map Prod.fst := by
  rw [← h.due]
  exact Multiset.le_add_left _ _

theorem acks_nodup :
    ((k.outbox.filterMap ackOf).map Prod.fst+heard.map Prod.fst).Nodup := by
  rw [← Multiset.map_add]
  exact Multiset.nodup_of_le ((Multiset.map_le_map h.acks).trans h.replied_le) h.taken_nodup

/-- Who waits for an answer has not been answered. -/
theorem pending_unheard (ha : g.alive = true) (id : ℕ) (hid : id ∈ g.pending) :
    id ∉ heard.map Prod.fst := by
  have hn : (g.pending.val+heard.map Prod.fst).Nodup := by
    refine Multiset.nodup_of_le (Multiset.le_add_left _ g.calls) ?_
    rw [← add_assoc, h.waits ha]
    exact Multiset.coe_nodup.mpr h.called_nodup
  exact Multiset.disjoint_left.mp (Multiset.nodup_add.mp hn).2.2 hid

/-- An acknowledgement on its way is for a call that is pending: it has neither
come too early nor come before. -/
theorem pending_of_ack (ha : g.alive = true)
    (hc : ∀ id ∈ g.calls, id ∈ (g.outbox.filterMap askOf).map Prod.fst) (id : ℕ)
    (hid : id ∈ (k.outbox.filterMap ackOf).map Prod.fst) : id ∈ g.pending := by
  have htaken : id ∈ k.taken.map Prod.fst := by
    apply Multiset.mem_of_le ((Multiset.map_le_map h.acks).trans h.replied_le)
    rw [Multiset.map_add]
    exact Multiset.mem_add.mpr (Or.inl hid)
  have hcalled : id ∈ ((called.map Prod.fst : List ℕ) : Multiset ℕ) := by
    have hle := Multiset.map_le_map (f := Prod.fst) h.asks
    apply Multiset.mem_of_le hle
    rw [Multiset.map_add, Multiset.map_add]
    exact Multiset.mem_add.mpr (Or.inr (Multiset.mem_add.mpr (Or.inr htaken)))
  rw [← h.waits ha, Multiset.mem_add, Multiset.mem_add] at hcalled
  rcases hcalled with (hcall | hpend) | hheard
  · exfalso
    have hd := Multiset.disjoint_left.mp (Multiset.nodup_add.mp h.asks_nodup).2.2 (hc id hcall)
    apply hd
    rw [Multiset.map_add]
    exact Multiset.mem_add.mpr (Or.inr htaken)
  · exact hpend
  · exact absurd hheard (Multiset.disjoint_left.mp (Multiset.nodup_add.mp h.acks_nodup).2.2 hid)

theorem heard_nodup : (heard.map Prod.fst).Nodup := (Multiset.nodup_add.mp h.acks_nodup).2.1

theorem replied_nodup : (replied.map Prod.fst).Nodup :=
  Multiset.nodup_of_le h.replied_le h.taken_nodup

/-- An answer that was heard is all that its caller is told. -/
theorem opened_of_heard (id : ℕ) (ack : OpenStreamAck) (hm : (id,ack) ∈ heard) :
    g.opened id = [outcome ack] := by
  have hl : id ∉ lost := fun hl => h.unheard id hl (Multiset.mem_map.mpr ⟨_,hm,rfl⟩)
  have ho := h.opened id
  rw [Table.filter_key heard id ack h.heard_nodup hm, if_neg hl, add_zero,
    Multiset.map_singleton, Multiset.coe_eq_singleton] at ho
  exact ho

theorem opened_of_unheard (id : ℕ) (hm : id ∉ heard.map Prod.fst) :
    g.opened id = if id ∈ lost then [.error .streamClosed] else [] := by
  have ho := h.opened id
  rw [Table.filter_key_none heard id hm, Multiset.map_zero, zero_add] at ho
  split_ifs with hl
  · rwa [if_pos hl, Multiset.coe_eq_singleton] at ho
  · rwa [if_neg hl, Multiset.coe_eq_zero] at ho

/-- A reply answers an offer that was taken, and that a call asked for. -/
theorem called_of_replied (id : ℕ) (ack : OpenStreamAck) (hm : (id,ack) ∈ replied) :
    ∃ address, (id,address) ∈ called ∧ k.taken.filter (·.1 = id) = {(id,address)} ∧
      k.incoming.filter (·.1 = id) = 0 ∧ replied.filter (·.1 = id) = {(id,ack)} := by
  have hid : id ∈ k.taken.map Prod.fst :=
    Multiset.mem_of_le h.replied_le (Multiset.mem_map.mpr ⟨_,hm,rfl⟩)
  obtain ⟨⟨i,address⟩,hmem,rfl⟩ := Multiset.mem_map.mp hid
  refine ⟨address,?_,Table.filter_key _ _ _ h.taken_nodup hmem,Table.filter_key_none _ _ ?_,
    Table.filter_key _ _ _ h.replied_nodup hm⟩
  · exact Multiset.mem_of_le h.asks
      (Multiset.mem_add.mpr (Or.inr (Multiset.mem_add.mpr (Or.inr hmem))))
  · have hn := (Multiset.nodup_add.mp h.asks_nodup).2.1
    rw [Multiset.map_add] at hn
    exact fun hi => Multiset.disjoint_left.mp (Multiset.nodup_add.mp hn).2.2 hi hid

/-- Frames of the opener that never arrive leave the books in order. -/
theorem opener_drops (rest : Multiset Frame) (hr : rest ≤ g.outbox) :
    Books called replied heard lost whole { g with outbox := rest } k where
  opener := ⟨fun f hf => h.opener.outbox f (Multiset.mem_of_le hr hf),h.opener.incoming,h.opener.offers⟩
  acceptor := h.acceptor
  numbered := h.numbered
  asks := (add_le_add (Multiset.filterMap_le_filterMap _ hr) le_rfl).trans h.asks
  due := h.due
  acks := h.acks
  kept := h.kept
  waits := h.waits
  opened := h.opened
  unheard := h.unheard
  alive := h.alive

/-- Those of the acceptor do too, but then something is lost. -/
theorem acceptor_drops (rest : Multiset Frame) (hr : rest ≤ k.outbox) :
    Books called replied heard lost False g { k with outbox := rest } where
  opener := h.opener
  acceptor :=
    ⟨fun f hf => h.acceptor.outbox f (Multiset.mem_of_le hr hf),h.acceptor.incoming,h.acceptor.offers⟩
  numbered := h.numbered
  asks := h.asks
  due := h.due
  acks := (add_le_add (Multiset.filterMap_le_filterMap _ hr) le_rfl).trans h.acks
  kept := False.elim
  waits := h.waits
  opened := h.opened
  unheard := h.unheard
  alive := h.alive

theorem weaken (w : Prop) (hw : w → whole) : Books called replied heard lost w g k :=
  { h with kept := fun hk => h.kept (hw hk) }

/-- The opener's own steps: a call is numbered, the end tells those who wait. -/
theorem opener_moves (call : Option Address) (reply : Option (ℕ × OpenStreamAck)) (g' : Ledger)
    (hm : Ledger.Moves g call reply g') (hs : g.Short call reply) :
    ∃ lost', Books (called++(call.map (g.next+1,·)).toList) replied heard lost' whole g' k := by
  have hfit := Ledger.moves_fit g g' call reply hm hs h.opener
  cases hm with
  | same =>
    refine ⟨lost,?_⟩
    simpa using h
  | call address =>
    have hask := askOf_openFrame (g.next+1) address (hs.1 address rfl).2
    refine ⟨lost,?_⟩
    simp only [Option.map_some, Option.toList_some]
    refine { h with opener := hfit, numbered := ?_, asks := ?_, waits := fun ha => ?_ }
    · rw [List.map_append, h.numbered, List.range'_1_concat, Nat.add_comm 1]
      rfl
    · rw [Multiset.filterMap_cons_some _ _ _ hask, ← Multiset.coe_add, Multiset.coe_singleton,
        Multiset.cons_add, ← Multiset.singleton_add, add_comm]
      exact add_le_add h.asks le_rfl
    · rw [Multiset.cons_add, Multiset.cons_add, h.waits ha, List.map_append, ← Multiset.coe_add,
        ← Multiset.singleton_add]
      exact add_comm ..
  | reply id ack ho =>
    refine ⟨lost,?_⟩
    simp only [Option.map_none, Option.toList_none, List.append_nil]
    refine { h with opener := hfit, asks := ?_ }
    rw [Multiset.filterMap_cons_none _ _ (askOf_ackFrame id ack)]
    exact h.asks
  | pend id rest hc =>
    refine ⟨lost,?_⟩
    simp only [Option.map_none, Option.toList_none, List.append_nil]
    refine { h with opener := hfit, waits := fun ha => ?_ }
    have hw := h.waits ha
    have hn : (g.calls+g.pending.val).Nodup := by
      refine Multiset.nodup_of_le (Multiset.le_add_right _ (heard.map Prod.fst)) ?_
      rw [hw]
      exact Multiset.coe_nodup.mpr h.called_nodup
    rw [hc, Multiset.cons_add, Multiset.nodup_cons, Multiset.mem_add, not_or] at hn
    show rest+(insert id g.pending).val+heard.map Prod.fst = _
    rw [Finset.insert_val_of_notMem hn.1.2, ← hw, hc, Multiset.add_cons, Multiset.cons_add,
      Multiset.cons_add, Multiset.cons_add]
  | take ask rest hi =>
    refine ⟨lost,?_⟩
    simp only [Option.map_none, Option.toList_none, List.append_nil]
    exact { h with opener := hfit }
  | lose rest hr =>
    refine ⟨lost,?_⟩
    simp only [Option.map_none, Option.toList_none, List.append_nil]
    exact { h with opener := hfit }
  | fail kept hk =>
    refine ⟨lost,?_⟩
    simp only [Option.map_none, Option.toList_none, List.append_nil]
    exact { h.opener_drops kept hk with opener := hfit }
  | close kept calls ha hk =>
    have hl := h.alive ha
    refine ⟨g.pending,?_⟩
    simp only [Option.map_none, Option.toList_none, List.append_nil]
    refine { h.opener_drops kept hk with
      opener := hfit
      kept := fun _ hn => by cases hn
      waits := fun hn => by cases hn
      opened := fun id => ?_
      unheard := fun id hid => ?_
      alive := fun hn => by cases hn }
    · have ho := h.opened id
      rw [hl, if_neg (Finset.notMem_empty id), add_zero] at ho
      simp only [Ledger.close]
      split_ifs
      · rw [← Multiset.coe_add, ho]
        rfl
      · rw [ho, add_zero]
    · exact h.pending_unheard ha id hid

theorem acceptor_moves (call : Option Address) (reply : Option (ℕ × OpenStreamAck)) (k' : Ledger)
    (hm : Ledger.Moves k call reply k') (hs : k.Short call reply) :
    Books called (replied+(reply.toList : Multiset (ℕ × OpenStreamAck))) heard lost whole g k' := by
  have hfit := Ledger.moves_fit k k' call reply hm hs h.acceptor
  cases hm with
  | same => simpa using h
  | call address =>
    have hask := ackOf_openFrame (k.next+1) address
    simp only [Option.toList_none, Multiset.coe_nil, add_zero]
    refine { h with acceptor := hfit, acks := ?_, kept := ?_ }
    · rw [Multiset.filterMap_cons_none _ _ hask]
      exact h.acks
    · rw [Multiset.filterMap_cons_none _ _ hask]
      exact h.kept
  | reply id ack ho =>
    have hack := ackOf_ackFrame id ack (hs.2 _ rfl)
    simp only [Option.toList_some, Multiset.coe_singleton]
    refine { h with acceptor := hfit, due := ?_, acks := ?_, kept := ?_ }
    · show k.offers.erase id+(replied+{(id,ack)}).map Prod.fst = _
      rw [← h.due, Multiset.map_add, Multiset.map_singleton, ← add_assoc,
        add_comm _ ({id} : Multiset ℕ), Multiset.singleton_add, ← Multiset.cons_add,
        Multiset.cons_erase ho]
    · rw [Multiset.filterMap_cons_some _ _ _ hack, Multiset.cons_add, ← Multiset.singleton_add,
        add_comm]
      exact add_le_add h.acks le_rfl
    · intro hw hg hk hr
      rw [Multiset.filterMap_cons_some _ _ _ hack, Multiset.cons_add, h.kept hw hg hk hr,
        ← Multiset.singleton_add, add_comm]
  | pend id rest hc =>
    simp only [Option.toList_none, Multiset.coe_nil, add_zero]
    exact { h with acceptor := hfit }
  | take ask rest hi =>
    simp only [Option.toList_none, Multiset.coe_nil, add_zero]
    refine { h with acceptor := hfit, asks := ?_, due := ?_ }
    · have ha := h.asks
      rw [hi, Multiset.cons_add, ← Multiset.add_cons] at ha
      exact ha
    · rw [Multiset.cons_add, h.due, Multiset.map_cons]
  | lose rest hr =>
    simp only [Option.toList_none, Multiset.coe_nil, add_zero]
    exact { h with
      acceptor := hfit
      asks := (add_le_add le_rfl (add_le_add hr le_rfl)).trans h.asks }
  | fail kept hk =>
    simp only [Option.toList_none, Multiset.coe_nil, add_zero]
    exact { h.acceptor_drops kept hk with
      acceptor := hfit
      kept := fun _ _ _ hn => by cases hn }
  | close kept calls ha hk =>
    simp only [Option.toList_none, Multiset.coe_nil, add_zero]
    exact { h.acceptor_drops kept hk with
      acceptor := hfit
      kept := fun _ _ hn => by cases hn }

/-- The acceptor hears a frame of the opener: what it asks for is an offer. -/
theorem acceptor_hears (f : Frame) (rest : Multiset Frame) (hf : g.outbox = f ::ₘ rest)
    (ho : Opening f) : Books called replied heard lost whole { g with outbox := rest } (k.hear f) := by
  have hs := Ledger.hear_spares k f
  have hapt : Apt f := h.opener.outbox f (by rw [hf]; exact Multiset.mem_cons_self f rest)
  have hdrop := h.opener_drops rest (by rw [hf]; exact Multiset.le_cons_self rest f)
  refine { hdrop with
    acceptor := Ledger.hear_fit k f h.acceptor ho hapt
    asks := ?_
    due := by rw [hs.offers, hs.taken]; exact h.due
    acks := by rw [hs.outbox]; exact h.acks
    kept := by rw [hs.outbox, hs.alive, hs.writing]; exact h.kept }
  have ha := h.asks
  rw [hf, Multiset.filterMap_cons] at ha
  rw [Ledger.hear_ask, hs.taken]
  refine le_trans (le_of_eq ?_) ha
  cases askOf f <;> simp

/-- The opener hears a frame of the acceptor: an acknowledgement is the answer to
the call that it names. -/
theorem opener_hears (f : Frame) (rest : Multiset Frame) (hf : k.outbox = f ::ₘ rest)
    (ho : Opening f) (ha : g.alive = true)
    (hc : ∀ id ∈ g.calls, id ∈ (g.outbox.filterMap askOf).map Prod.fst) :
    Books called replied (heard+((ackOf f).toList : Multiset (ℕ × OpenStreamAck))) lost whole
      (g.hear f) { k with outbox := rest } := by
  have hs := Ledger.hear_spares g f
  have hmem : f ∈ k.outbox := by
    rw [hf]
    exact Multiset.mem_cons_self f rest
  have hapt : Apt f := h.acceptor.outbox f hmem
  have hfit := Ledger.hear_fit g f h.opener ho hapt
  have hrest : ∀ i ∈ rest, Apt i := fun i hi => h.acceptor.outbox i (by
    rw [hf]
    exact Multiset.mem_cons_of_mem hi)
  have hk : Ledger.Fit { k with outbox := rest } := ⟨hrest,h.acceptor.incoming,h.acceptor.offers⟩
  rcases ho with ho | ho
  · have hack : ackOf f = none := by simp [ackOf, ho]
    have hacks : k.outbox.filterMap ackOf = rest.filterMap ackOf := by
      rw [hf, Multiset.filterMap_cons_none _ _ hack]
    have hpend : (g.hear f).pending = g.pending ∧ (g.hear f).opened = g.opened := by
      simp only [Ledger.hear, ho]
      split <;> exact ⟨rfl,rfl⟩
    rw [hack, Option.toList_none, Multiset.coe_nil, add_zero]
    exact {
      opener := hfit
      acceptor := hk
      numbered := by rw [hs.next]; exact h.numbered
      asks := by rw [hs.outbox]; exact h.asks
      due := h.due
      acks := by rw [← hacks]; exact h.acks
      kept := by rw [hs.alive, ← hacks]; exact h.kept
      waits := by rw [hs.alive, hs.calls, hpend.1]; exact h.waits
      opened := by rw [hpend.2]; exact h.opened
      unheard := h.unheard
      alive := by rw [hs.alive]; exact h.alive }
  · obtain ⟨ack,hack,hout⟩ := ackOf_apt f hapt ho
    have hacks : k.outbox.filterMap ackOf = (f.streamId,ack) ::ₘ rest.filterMap ackOf := by
      rw [hf, Multiset.filterMap_cons_some _ _ _ hack]
    have hpend : f.streamId ∈ g.pending := by
      apply h.pending_of_ack ha hc
      rw [hacks, Multiset.map_cons]
      exact Multiset.mem_cons_self _ _
    have hhear : g.hear f = { g with
        pending := g.pending.erase f.streamId
        opened := Function.update g.opened f.streamId (g.opened f.streamId++[outcome ack]) } := by
      simp only [Ledger.hear, ho, if_pos hpend, hout]
    have hl := h.alive ha
    have hmove : ∀ s : Multiset (ℕ × OpenStreamAck),
        rest.filterMap ackOf+(s+{(f.streamId,ack)}) = k.outbox.filterMap ackOf+s := by
      intro s
      rw [hacks, Multiset.cons_add, ← add_assoc, add_comm _ {_}, Multiset.singleton_add]
    rw [hack, Option.toList_some, Multiset.coe_singleton]
    refine {
      opener := hfit
      acceptor := hk
      numbered := by rw [hs.next]; exact h.numbered
      asks := by rw [hs.outbox]; exact h.asks
      due := h.due
      acks := by rw [hmove]; exact h.acks
      kept := by rw [hs.alive, hmove]; exact h.kept
      waits := fun _ => ?_
      opened := fun id => ?_
      unheard := fun id hid => by simp [hl] at hid
      alive := fun _ => hl }
    · rw [hs.calls, hhear, ← h.waits ha]
      show g.calls+(g.pending.erase f.streamId).val+(heard+{(f.streamId,ack)}).map Prod.fst = _
      rw [Finset.erase_val, Multiset.map_add, Multiset.map_singleton, ← add_assoc,
        add_comm _ ({f.streamId} : Multiset ℕ), Multiset.singleton_add, ← Multiset.cons_add,
        ← Multiset.add_cons, Multiset.cons_erase hpend]
    · have hid := h.opened id
      rw [hl, if_neg (Finset.notMem_empty id), add_zero] at hid ⊢
      rw [hhear]
      rcases eq_or_ne id f.streamId with rfl | hne
      · simp [hid, ← Multiset.coe_add, Multiset.filter_singleton]
      · simp [hid, hne, hne.symm, Multiset.filter_singleton]

end

end Books
end Hydr.Ws
