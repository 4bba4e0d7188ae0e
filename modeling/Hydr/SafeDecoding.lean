import Mathlib
import Hydr.Frame
import Hydr.Library.Checked
import Hydr.Library.PrefixExact

/-!
# Decoders that never leave their buffer

The decoders once more, with every index, slice and sum of the source that could
stop the program. On a slice none of them does, although the lengths are the
peer's, and each decoder is decided by exactly the bytes that it reports as read.
-/

set_option autoImplicit false

namespace Hydr
open BigEndian Varint Message

abbrev Guarded (α : Type) : Type := Checked Error α

def usizeLimit : ℕ := 2^64

def usizeAdd (a b : ℕ) : Guarded ℕ := Checked.add usizeLimit a b

/-- No allocation has more than `isize::MAX` bytes. -/
structure Slice where
  bytes : Bytes
  short : bytes.length < 2^63

structure Follows {T : Type} (checked : Bytes → Guarded (T × ℕ))
    (decode : Bytes → Result (T × ℕ)) : Prop where
  returns : ∀ b : Slice, Checked.Returns (checked b.bytes) (decode b.bytes)
  exact : PrefixExact .unexpectedEof decode

namespace Varint
open PrefixExact

def shiftIn (v : UInt64) (b : UInt8) : UInt64 := (v <<< 8) ||| b.toUInt64

def decodeVarintChecked (buf : Bytes) : Guarded (ℕ × ℕ) :=
  match buf.head? with
  | none => throw .unexpectedEof
  | some first =>
    let len := 1 <<< (first >>> 6).toNat
    if buf.length < len then throw .unexpectedEof
    else do
      let tail ← Checked.slice buf 1 len
      return ((tail.foldl shiftIn (first &&& 0x3f).toUInt64).toNat,len)

theorem shiftIn_toNat (v : UInt64) (b : UInt8) (h : v.toNat < 2^56) :
    (shiftIn v b).toNat = accumulate v.toNat b := by
  have hm : v.toNat <<< 8%18446744073709551616 = v.toNat <<< 8 :=
    Nat.mod_eq_of_lt (by rw [Nat.shiftLeft_eq]; omega)
  rw [shiftIn, UInt64.toNat_or, UInt64.toNat_shiftLeft, accumulate]
  simp [hm]

/-- Eight bytes less two bits fit into a word, so no shift loses a bit. -/
theorem foldl_shiftIn (tail : Bytes) (v : UInt64) (h : (v.toNat+1)*256^tail.length ≤ 2^64) :
    (tail.foldl shiftIn v).toNat = tail.foldl accumulate v.toNat := by
  induction tail generalizing v with
  | nil => rfl
  | cons b tail ih =>
    have hp : 0 < 256^tail.length := by positivity
    rw [List.length_cons, pow_succ] at h
    have hv : (v.toNat+1)*256 ≤ 2^64 := by nlinarith
    have hs := shiftIn_toNat v b (by omega)
    have hb := b.toNat_lt
    have hn : (accumulate v.toNat b+1)*256^tail.length ≤ 2^64 := by
      calc (accumulate v.toNat b+1)*256^tail.length ≤ (v.toNat+1)*256*256^tail.length :=
            Nat.mul_le_mul_right _ (by rw [accumulate_eq]; omega)
        _ = (v.toNat+1)*(256^tail.length*256) := by ring
        _ ≤ 2^64 := h
    rw [List.foldl_cons, List.foldl_cons, ih _ (by rw [hs]; exact hn), hs]

theorem class_bounds : ∀ b : UInt8, 1 ≤ 1 <<< (b >>> 6).toNat ∧ 1 <<< (b >>> 6).toNat ≤ 8 ∧
    (b &&& 0x3f).toNat < 64 ∧ (b &&& 0x3f).toUInt64.toNat = (b &&& 0x3f).toNat := by
  decide +kernel

theorem fold_bound (first : UInt8) (tail : Bytes)
    (h : tail.length ≤ 1 <<< (first >>> 6).toNat-1) :
    ((first &&& 0x3f).toNat+1)*256^tail.length ≤ 2^62 := by
  obtain ⟨-,h8,hf,-⟩ := class_bounds first
  calc ((first &&& 0x3f).toNat+1)*256^tail.length ≤ 64*256^7 :=
        Nat.mul_le_mul hf (Nat.pow_le_pow_right (by omega) (by omega))
    _ ≤ 2^62 := by norm_num

theorem decodeVarint_lt {buf : Bytes} {v used : ℕ} (h : decodeVarint buf = .ok (v,used)) :
    v < 2^62 := by
  cases buf with
  | nil => cases h
  | cons first rest =>
    rw [decodeVarint] at h
    split at h
    · cases h
    · cases h
      exact (foldl_accumulate_lt _ _).trans_le (fold_bound first _ (List.length_take_le _ _))

def varintParser : Parser UInt8 Error ℕ :=
  seq (item .unexpectedEof) fun first =>
    seq (items .unexpectedEof (1 <<< (first >>> 6).toNat-1)) fun tail =>
      ret (tail.toList.foldl accumulate (first &&& 0x3f).toNat)

theorem decodeVarint_exact : PrefixExact Error.unexpectedEof decodeVarint := by
  have hs : decodeVarint = varintParser := by
    funext buf
    rw [varintParser]
    cases buf with
    | nil => rfl
    | cons first rest =>
      have h1 := (class_bounds first).1
      rw [seq_item]
      by_cases hl : 1 <<< (first >>> 6).toNat-1 ≤ rest.length
      · rw [decodeVarint, if_neg (by rw [List.length_cons]; omega)]
        rw [seq_of_ok (items_of_le hl)]
        simp only [ret, Except.map, Nat.add_zero, Nat.add_sub_of_le h1]
        rfl
      · rw [decodeVarint, if_pos (by rw [List.length_cons]; omega)]
        rw [seq_of_error (items_of_lt (Nat.lt_of_not_le hl))]
        rfl
  rw [hs]
  exact seq_exact item_exact fun first => seq_exact (items_exact _) fun tail => ret_exact _

theorem decodeVarint_returns (buf : Bytes) :
    Checked.Returns (decodeVarintChecked buf) (decodeVarint buf) := by
  cases buf with
  | nil => exact Checked.returns_throw _
  | cons first rest =>
    obtain ⟨h1,-,-,hf⟩ := class_bounds first
    refine Checked.returns_ite (fun _ => Checked.returns_throw _) fun hl => ?_
    refine Checked.returns_step (Checked.returns_slice h1 (Nat.le_of_not_lt hl)) ?_
    have hb := fold_bound first (rest.take (1 <<< (first >>> 6).toNat-1)) (List.length_take_le _ _)
    have hn := foldl_shiftIn (rest.take (1 <<< (first >>> 6).toNat-1)) (first &&& 0x3f).toUInt64
      (by rw [hf]; exact hb.trans (by norm_num))
    rw [hf] at hn
    rw [← hn]
    exact Checked.returns_pure _

end Varint

namespace Message.Reader
open PrefixExact

def u8Checked (rd : Reader) : Guarded (UInt8 × Reader) :=
  match rd.buf[rd.pos]? with
  | none => throw .unexpectedEof
  | some b => do
    let pos ← usizeAdd rd.pos 1
    return (b,⟨rd.buf,pos⟩)

def varintChecked (rd : Reader) : Guarded (ℕ × Reader) := do
  let rest ← Checked.suffix rd.buf rd.pos
  let (v,used) ← decodeVarintChecked rest
  let pos ← usizeAdd rd.pos used
  return (v,⟨rd.buf,pos⟩)

def takeChecked (len : ℕ) (rd : Reader) : Guarded (Bytes × Reader) := do
  let stop ← usizeAdd rd.pos len
  if rd.buf.length < stop then throw .unexpectedEof
  else do
    let out ← Checked.slice rd.buf rd.pos stop
    return (out,⟨rd.buf,stop⟩)

def bytesChecked (rd : Reader) : Guarded (Bytes × Reader) := do
  let (len,rd) ← rd.varintChecked
  takeChecked len rd

def Inside (rd : Reader) : Prop := rd.pos ≤ rd.buf.length ∧ rd.buf.length < 2^63

variable {α β σ : Type} {out : Reader → σ}

structure Reads (out : Reader → σ) (checked : Reader → Guarded (α × σ))
    (step : Reader → Result (α × σ)) : Prop where
  exact : ∃ p : Parser UInt8 Error α, PrefixExact .unexpectedEof p ∧
    ∀ rd, step rd = (p (rd.buf.drop rd.pos)).map fun r => (r.1,out ⟨rd.buf,rd.pos+r.2⟩)
  safe : ∀ rd, rd.Inside → Checked.Returns (checked rd) (step rd)

theorem Reads.inside {checked : Reader → Guarded (α × Reader)}
    {step : Reader → Result (α × Reader)} (h : Reads id checked step) {rd rd' : Reader} {v : α}
    (hi : rd.Inside) (hs : step rd = .ok (v,rd')) : rd'.Inside := by
  obtain ⟨p,hp,he⟩ := h.exact
  rw [he] at hs
  cases hd : p (rd.buf.drop rd.pos) with
  | error e =>
    rw [hd] at hs
    cases hs
  | ok r =>
    rw [hd] at hs
    cases hs
    have hw := hp.within _ _ _ hd
    rw [List.length_drop] at hw
    have hb := hi.1
    exact ⟨show rd.pos+r.2 ≤ rd.buf.length by omega,hi.2⟩

theorem reads_bind {checked : Reader → Guarded (α × Reader)}
    {step : Reader → Result (α × Reader)} {checkedRest : α → Reader → Guarded (β × σ)}
    {rest : α → Reader → Result (β × σ)} (h : Reads id checked step)
    (hr : ∀ v, Reads out (checkedRest v) (rest v)) :
    Reads out (fun rd => do let (v,rd) ← checked rd; checkedRest v rd)
      (fun rd => do let (v,rd) ← step rd; rest v rd) where
  exact := by
    obtain ⟨p,hp,hs⟩ := h.exact
    choose q hq hk using fun v => (hr v).exact
    refine ⟨seq p q,seq_exact hp hq,fun rd => ?_⟩
    rw [hs]
    cases hd : p (rd.buf.drop rd.pos) with
    | error e =>
      rw [seq_of_error hd]
      rfl
    | ok r =>
      show rest r.1 ⟨rd.buf,rd.pos+r.2⟩ = _
      rw [hk, seq_of_ok (v := r.1) (n := r.2) hd, List.drop_drop]
      cases q r.1 (rd.buf.drop (rd.pos+r.2)) with
      | error e => rfl
      | ok w => simp only [Except.map, Nat.add_assoc]
  safe rd hi := Checked.returns_bind (h.safe rd hi) fun a ha => (hr a.1).safe a.2 (h.inside hi ha)

theorem reads_ret (v : β) : Reads Reader.pos (fun rd => pure (v,rd.pos))
    (fun rd => pure (v,rd.pos)) where
  exact := ⟨ret v,ret_exact v,fun _ => rfl⟩
  safe _ _ := Checked.returns_pure _

theorem u8_reads : Reads id u8Checked u8 where
  exact := by
    refine ⟨item .unexpectedEof,item_exact,fun rd => ?_⟩
    have hh : rd.buf[rd.pos]? = (rd.buf.drop rd.pos).head? := (List.head?_drop ..).symm
    rw [u8, hh]
    cases rd.buf.drop rd.pos <;> rfl
  safe rd hi := by
    unfold u8Checked u8
    cases hb : rd.buf[rd.pos]? with
    | none => exact Checked.returns_throw _
    | some b =>
      have hl := hi.2
      obtain ⟨hp,-⟩ := List.getElem?_eq_some_iff.mp hb
      exact Checked.returns_step (Checked.returns_add (by unfold usizeLimit; omega))
        (Checked.returns_pure _)

theorem varint_reads : Reads id varintChecked varint where
  exact := by
    refine ⟨decodeVarint,decodeVarint_exact,fun rd => ?_⟩
    rw [varint]
    cases decodeVarint (rd.buf.drop rd.pos) <;> rfl
  safe rd hi := by
    obtain ⟨hp,hl⟩ := hi
    refine Checked.returns_step (Checked.returns_suffix hp) ?_
    refine Checked.returns_bind (decodeVarint_returns _) ?_
    intro a ha
    have hw := decodeVarint_exact.within _ a.1 a.2 ha
    rw [List.length_drop] at hw
    exact Checked.returns_step (Checked.returns_add (by unfold usizeLimit; omega))
      (Checked.returns_pure _)

theorem varint_lt {rd rd' : Reader} {v : ℕ} (h : rd.varint = .ok (v,rd')) : v < 2^62 := by
  rw [varint] at h
  cases hd : decodeVarint (rd.buf.drop rd.pos) with
  | error e =>
    rw [hd] at h
    cases h
  | ok r =>
    rw [hd] at h
    cases h
    exact decodeVarint_lt hd

theorem takeChecked_returns (len : ℕ) (rd : Reader) (hi : rd.Inside) (hl : len < 2^62) :
    Checked.Returns (takeChecked len rd) (if rd.buf.length < rd.pos+len then .error .unexpectedEof
      else .ok ((rd.buf.drop rd.pos).take len,⟨rd.buf,rd.pos+len⟩)) := by
  obtain ⟨hp,hb⟩ := hi
  refine Checked.returns_step (Checked.returns_add (by unfold usizeLimit; omega)) ?_
  refine Checked.returns_ite (fun _ => Checked.returns_throw _) fun hn => ?_
  have hs := Checked.returns_slice (ε := Error) (Nat.le_add_right rd.pos len) (Nat.le_of_not_lt hn)
  rw [Nat.add_sub_cancel_left] at hs
  exact Checked.returns_step hs (Checked.returns_pure _)

theorem bytes_reads : Reads id bytesChecked bytes where
  exact := by
    refine ⟨seq decodeVarint fun len => seq (items .unexpectedEof len) fun out => ret out.toList,
      seq_exact decodeVarint_exact fun len => seq_exact (items_exact len) fun out => ret_exact _,
      fun rd => ?_⟩
    rw [bytes, varint]
    cases hd : decodeVarint (rd.buf.drop rd.pos) with
    | error e =>
      rw [seq_of_error hd]
      rfl
    | ok r =>
      rw [seq_of_ok (v := r.1) (n := r.2) hd, List.drop_drop]
      have hw := decodeVarint_exact.within _ r.1 r.2 hd
      have hp : 0 < (rd.buf.drop rd.pos).length := by
        refine List.length_pos_of_ne_nil fun hn => ?_
        rw [hn] at hd
        cases hd
      rw [List.length_drop] at hw hp
      show (if rd.buf.length < rd.pos+r.2+r.1 then _ else _) = _
      by_cases hl : r.1 ≤ (rd.buf.drop (rd.pos+r.2)).length
      · rw [seq_of_ok (items_of_le hl)]
        rw [List.length_drop] at hl
        rw [if_neg (by omega)]
        simp only [ret, Except.map, Nat.add_zero, Nat.add_assoc]
        rfl
      · rw [seq_of_error (items_of_lt (Nat.lt_of_not_le hl))]
        rw [List.length_drop] at hl
        rw [if_pos (by omega)]
        rfl
  safe rd hi := by
    refine Checked.returns_bind (varint_reads.safe rd hi) ?_
    intro a ha
    exact takeChecked_returns a.1 a.2 (varint_reads.inside hi ha) (varint_lt ha)

theorem Reads.follows {checked : Reader → Guarded (α × ℕ)} {step : Reader → Result (α × ℕ)}
    (h : Reads Reader.pos checked step) :
    Follows (fun buf => checked (new buf)) (fun buf => step (new buf)) where
  returns b := h.safe (new b.bytes) ⟨Nat.zero_le _,b.short⟩
  exact := by
    obtain ⟨p,hp,hs⟩ := h.exact
    have he : (fun buf => step (new buf)) = p := by
      funext buf
      rw [hs]
      show (p buf).map (fun r => (r.1,0+r.2)) = p buf
      cases p buf <;> simp [Except.map]
    rw [he]
    exact hp

end Message.Reader

namespace Address
open PrefixExact

def portOf (hi lo : UInt8) : UInt16 := UInt16.ofNat (ofBytes [hi,lo])

def ipChecked (n : ℕ) (addr : List.Vector UInt8 n → IpAddr) (buf : Bytes) : Guarded (Address × ℕ) :=
  if buf.length < n+3 then throw .unexpectedEof
  else do
    let source ← Checked.slice buf 1 (n+1)
    let octets ← Checked.copyArray n source
    let hi ← Checked.index buf (n+1)
    let lo ← Checked.index buf (n+2)
    return (.ip (addr octets) (portOf hi lo),n+3)

def domainChecked (buf : Bytes) : Guarded (Address × ℕ) := do
  let rest ← Checked.suffix buf 1
  let (len,used) ← decodeVarintChecked rest
  let start ← usizeAdd 1 used
  let stop ← usizeAdd start len
  let total ← usizeAdd stop 2
  if buf.length < total then throw .unexpectedEof
  else do
    let host ← Checked.slice buf start stop
    let hi ← Checked.index buf stop
    let next ← usizeAdd stop 1
    let lo ← Checked.index buf next
    return (.domain (fromUtf8Lossy host) (portOf hi lo),total)

def decodeChecked (buf : Bytes) : Guarded (Address × ℕ) :=
  match buf.head? with
  | none => throw .unexpectedEof
  | some ty =>
    if ty = 0x01 then ipChecked 4 .v4 buf
    else if ty = 0x02 then ipChecked 16 .v6 buf
    else if ty = 0x03 then domainChecked buf
    else throw (.invalidData "bad address type")

def ipParser (n : ℕ) (addr : List.Vector UInt8 n → IpAddr) : Parser UInt8 Error Address :=
  seq (items .unexpectedEof n) fun octets =>
    seq (items .unexpectedEof 2) fun port => ret (.ip (addr octets) (readPort port.toList))

def domainParser : Parser UInt8 Error Address :=
  seq decodeVarint fun len => seq (items .unexpectedEof len) fun host =>
    seq (items .unexpectedEof 2) fun port =>
      ret (.domain (fromUtf8Lossy host.toList) (readPort port.toList))

def parser : Parser UInt8 Error Address :=
  seq (item .unexpectedEof) fun ty =>
    if ty = 0x01 then ipParser 4 .v4
    else if ty = 0x02 then ipParser 16 .v6
    else if ty = 0x03 then domainParser
    else fail (.invalidData "bad address type")

theorem readPort_take (buf : Bytes) : readPort (buf.take 2) = readPort buf := by
  rw [readPort, readPort, List.take_take, Nat.min_self]

theorem ipParser_eq (n : ℕ) (addr : List.Vector UInt8 n → IpAddr) (rest : Bytes) :
    ipParser n addr rest = if h : n+2 ≤ rest.length then
      .ok (.ip (addr (readOctets n rest (by omega))) (readPort (rest.drop n)),n+2)
    else .error .unexpectedEof := by
  rw [ipParser, items_items]
  by_cases h : n+2 ≤ rest.length
  · rw [dif_pos h, dif_pos h, ← readPort_take (rest.drop n)]
    rfl
  · rw [dif_neg h, dif_neg h]

theorem domainParser_eq (rest : Bytes) :
    domainParser rest = decodeVarint rest >>= fun r =>
      if rest.length < r.2+r.1+2 then .error .unexpectedEof
      else .ok (.domain (fromUtf8Lossy ((rest.drop r.2).take r.1))
        (readPort (rest.drop (r.2+r.1))),r.2+r.1+2) := by
  rw [domainParser]
  cases hd : decodeVarint rest with
  | error e =>
    rw [seq_of_error hd]
    rfl
  | ok r =>
    have hw := decodeVarint_exact.within _ r.1 r.2 hd
    rw [seq_of_ok (v := r.1) (n := r.2) hd, items_items]
    show _ = if rest.length < r.2+r.1+2 then _ else _
    by_cases hl : rest.length < r.2+r.1+2
    · rw [dif_neg (by rw [List.length_drop]; omega), if_pos hl]
      rfl
    · rw [dif_pos (by rw [List.length_drop]; omega), if_neg hl, ← List.drop_drop,
        ← readPort_take ((rest.drop r.2).drop r.1)]
      simp only [Except.map, Nat.add_assoc]
      rfl

theorem decode_eq : decode = parser := by
  funext buf
  cases buf with
  | nil => rfl
  | cons ty rest =>
    rw [parser, seq_item, decode]
    by_cases h1 : ty = 0x01
    · rw [if_pos h1, if_pos h1, ipParser_eq]
      split <;> rfl
    rw [if_neg h1, if_neg h1]
    by_cases h2 : ty = 0x02
    · rw [if_pos h2, if_pos h2, ipParser_eq]
      split <;> rfl
    rw [if_neg h2, if_neg h2]
    by_cases h3 : ty = 0x03
    · rw [if_pos h3, if_pos h3, domainParser_eq]
      cases decodeVarint rest with
      | error e => rfl
      | ok r =>
        have hd (i : ℕ) : (ty::rest).drop (1+i) = rest.drop i := by
          rw [Nat.add_comm, List.drop_succ_cons]
        show (if rest.length+1 < 1+r.2+r.1+2 then _ else _) =
          Except.map _ (if rest.length < r.2+r.1+2 then _ else _)
        by_cases hl : rest.length < r.2+r.1+2
        · rw [if_pos (by omega), if_pos hl]
          rfl
        · rw [if_neg (by omega), if_neg hl, Nat.add_assoc 1, hd, hd, Nat.add_assoc 1]
          rfl
    · rw [if_neg h3, if_neg h3]
      rfl

theorem decode_exact : PrefixExact Error.unexpectedEof decode := by
  have hip (n : ℕ) (addr : List.Vector UInt8 n → IpAddr) :
      PrefixExact Error.unexpectedEof (ipParser n addr) :=
    seq_exact (items_exact n) fun _ => seq_exact (items_exact 2) fun _ => ret_exact _
  have hdomain : PrefixExact Error.unexpectedEof domainParser :=
    seq_exact decodeVarint_exact fun len => seq_exact (items_exact len) fun _ =>
      seq_exact (items_exact 2) fun _ => ret_exact _
  rw [decode_eq]
  exact seq_exact item_exact fun ty => ite_exact (hip 4 _) (ite_exact (hip 16 _)
    (ite_exact hdomain (fail_exact _)))

theorem readPort_eq {buf : Bytes} {i : ℕ} {hi lo : UInt8} (h1 : buf[i]? = some hi)
    (h2 : buf[i+1]? = some lo) : readPort (buf.drop i) = portOf hi lo := by
  obtain ⟨l1,h1⟩ := List.getElem?_eq_some_iff.mp h1
  obtain ⟨l2,h2⟩ := List.getElem?_eq_some_iff.mp h2
  rw [List.drop_eq_getElem_cons l1, List.drop_eq_getElem_cons l2, h1, h2]
  rfl

theorem exists_item {b : Bytes} {i : ℕ} (h : i < b.length) : ∃ x, b[i]? = some x :=
  ⟨_,List.getElem?_eq_getElem h⟩

theorem ipChecked_returns (n : ℕ) (addr : List.Vector UInt8 n → IpAddr) (ty : UInt8)
    (rest : Bytes) : Checked.Returns (ipChecked n addr (ty::rest))
      (if h : n+2 ≤ rest.length then
        .ok (.ip (addr (readOctets n rest (by omega))) (readPort (rest.drop n)),n+3)
      else .error .unexpectedEof) := by
  have hc : (ty::rest).length = rest.length+1 := List.length_cons
  by_cases hl : n+2 ≤ rest.length
  · rw [ipChecked, if_neg (by omega), dif_pos hl]
    obtain ⟨hi,hhi⟩ := exists_item (b := ty::rest) (i := n+1) (by omega)
    obtain ⟨lo,hlo⟩ := exists_item (b := ty::rest) (i := n+2) (by omega)
    have hs : Checked.Returns (Checked.slice (ty::rest) 1 (n+1) : Guarded Bytes)
        (.ok (rest.take n)) := Checked.returns_slice (by omega) (by omega)
    refine Checked.returns_step hs ?_
    refine Checked.returns_step (Checked.returns_copyArray (by rw [List.length_take]; omega)) ?_
    refine Checked.returns_step (Checked.returns_index hhi) ?_
    refine Checked.returns_step (Checked.returns_index hlo) ?_
    have hp := readPort_eq hhi hlo
    rw [List.drop_succ_cons] at hp
    rw [hp]
    exact Checked.returns_pure _
  · rw [ipChecked, if_pos (by omega), dif_neg hl]
    exact Checked.returns_throw _

theorem domainChecked_returns (ty : UInt8) (rest : Bytes) (hb : (ty::rest).length < 2^63) :
    Checked.Returns (domainChecked (ty::rest)) (decodeVarint rest >>= fun r =>
      if (ty::rest).length < 1+r.2+r.1+2 then .error .unexpectedEof
      else .ok (.domain (fromUtf8Lossy (((ty::rest).drop (1+r.2)).take r.1))
        (readPort ((ty::rest).drop (1+r.2+r.1))),1+r.2+r.1+2)) := by
  have hc : (ty::rest).length = rest.length+1 := List.length_cons
  refine Checked.returns_step (Checked.returns_suffix (by omega)) ?_
  refine Checked.returns_bind (decodeVarint_returns _) fun r hr => ?_
  have hu := decodeVarint_exact.within _ r.1 r.2 hr
  have hv := decodeVarint_lt hr
  change r.2 ≤ rest.length at hu
  refine Checked.returns_step (Checked.returns_add (by unfold usizeLimit; omega)) ?_
  refine Checked.returns_step (Checked.returns_add (by unfold usizeLimit; omega)) ?_
  refine Checked.returns_step (Checked.returns_add (by unfold usizeLimit; omega)) ?_
  refine Checked.returns_ite (fun _ => Checked.returns_throw _) fun hn => ?_
  obtain ⟨hi,hhi⟩ := exists_item (b := ty::rest) (i := 1+r.2+r.1) (by omega)
  obtain ⟨lo,hlo⟩ := exists_item (b := ty::rest) (i := 1+r.2+r.1+1) (by omega)
  have hs := Checked.returns_slice (ε := Error) (b := ty::rest) (Nat.le_add_right (1+r.2) r.1)
    (by omega)
  rw [Nat.add_sub_cancel_left] at hs
  refine Checked.returns_step hs ?_
  refine Checked.returns_step (Checked.returns_index hhi) ?_
  refine Checked.returns_step (Checked.returns_add (by unfold usizeLimit; omega)) ?_
  refine Checked.returns_step (Checked.returns_index hlo) ?_
  rw [readPort_eq hhi hlo]
  exact Checked.returns_pure _

theorem decode_returns (buf : Bytes) (hb : buf.length < 2^63) :
    Checked.Returns (decodeChecked buf) (decode buf) := by
  cases buf with
  | nil => exact Checked.returns_throw _
  | cons ty rest =>
    refine Checked.returns_ite (fun _ => ipChecked_returns 4 .v4 ty rest) fun _ => ?_
    refine Checked.returns_ite (fun _ => ipChecked_returns 16 .v6 ty rest) fun _ => ?_
    exact Checked.returns_ite (fun _ => domainChecked_returns ty rest hb)
      fun _ => Checked.returns_throw _

end Address

namespace Message
open Reader

def AuthRequest.decodeChecked (buf : Bytes) : Guarded (AuthRequest × ℕ) := do
  let (version,rd) ← (Reader.new buf).varintChecked
  let (authMethod,rd) ← rd.u8Checked
  let (clientNonce,rd) ← rd.bytesChecked
  let (authProof,rd) ← rd.bytesChecked
  let (ccRx,rd) ← rd.varintChecked
  let (features,rd) ← rd.u8Checked
  let (padding,rd) ← rd.bytesChecked
  return (⟨version,authMethod,clientNonce,authProof,ccRx,features,padding⟩,rd.pos)

def AuthResponse.decodeChecked (buf : Bytes) : Guarded (AuthResponse × ℕ) := do
  let (status,rd) ← (Reader.new buf).u8Checked
  let (errorCode,rd) ← rd.u8Checked
  let (message,rd) ← rd.bytesChecked
  let (serverCcRx,rd) ← rd.varintChecked
  let (serverFeatures,rd) ← rd.u8Checked
  let (padding,rd) ← rd.bytesChecked
  return (⟨status,errorCode,message,serverCcRx,serverFeatures,padding⟩,rd.pos)

def OpenStream.decodeChecked (buf : Bytes) : Guarded (OpenStream × ℕ) := do
  let (address,used) ← Address.decodeChecked buf
  return (⟨address⟩,used)

def OpenStreamAck.decodeChecked (buf : Bytes) : Guarded (OpenStreamAck × ℕ) := do
  let (status,rd) ← (Reader.new buf).u8Checked
  let (errorCode,rd) ← rd.u8Checked
  let (message,rd) ← rd.bytesChecked
  return (⟨status,errorCode,message⟩,rd.pos)

theorem AuthRequest.follows : Follows AuthRequest.decodeChecked AuthRequest.decode := by
  have h := reads_bind varint_reads fun version => reads_bind u8_reads fun authMethod =>
    reads_bind bytes_reads fun clientNonce => reads_bind bytes_reads fun authProof =>
    reads_bind varint_reads fun ccRx => reads_bind u8_reads fun features =>
    reads_bind bytes_reads fun padding =>
      reads_ret (AuthRequest.mk version authMethod clientNonce authProof ccRx features padding)
  exact h.follows

theorem AuthResponse.follows : Follows AuthResponse.decodeChecked AuthResponse.decode := by
  have h := reads_bind u8_reads fun status => reads_bind u8_reads fun errorCode =>
    reads_bind bytes_reads fun message => reads_bind varint_reads fun serverCcRx =>
    reads_bind u8_reads fun serverFeatures => reads_bind bytes_reads fun padding =>
      reads_ret (AuthResponse.mk status errorCode message serverCcRx serverFeatures padding)
  exact h.follows

theorem OpenStreamAck.follows : Follows OpenStreamAck.decodeChecked OpenStreamAck.decode := by
  have h := reads_bind u8_reads fun status => reads_bind u8_reads fun errorCode =>
    reads_bind bytes_reads fun message => reads_ret (OpenStreamAck.mk status errorCode message)
  exact h.follows

theorem OpenStream.follows : Follows OpenStream.decodeChecked OpenStream.decode where
  returns b := Checked.returns_bind (Address.decode_returns b.bytes b.short)
    fun _ _ => Checked.returns_pure _
  exact := by
    have hs : OpenStream.decode = PrefixExact.seq Address.decode fun address =>
        PrefixExact.ret ⟨address⟩ := by
      funext buf
      rw [OpenStream.decode, PrefixExact.seq]
      cases Address.decode buf <;> rfl
    rw [hs]
    exact PrefixExact.seq_exact Address.decode_exact fun _ => PrefixExact.ret_exact _

end Message

namespace Frame

def bodyChecked (streamId : ℕ) (frameType : UInt8) (buf : Bytes) (pos bodyLen : ℕ) :
    Guarded (Frame × ℕ) :=
  if maxBodyLen < bodyLen then throw (.invalidData "frame body too large")
  else if usizeLimit ≤ pos+bodyLen then throw (.invalidData "frame length overflow")
  else if buf.length < pos+bodyLen then throw .unexpectedEof
  else do
    let body ← Checked.slice buf pos (pos+bodyLen)
    return (⟨streamId,frameType,body⟩,pos+bodyLen)

def decodeChecked (buf : Bytes) : Guarded (Frame × ℕ) := do
  let (streamId,used) ← decodeVarintChecked buf
  match buf[used]? with
  | none => throw .unexpectedEof
  | some frameType => do
    let pos ← usizeAdd used 1
    let rest ← Checked.suffix buf pos
    let (bodyLen,used) ← decodeVarintChecked rest
    let pos ← usizeAdd pos used
    bodyChecked streamId frameType buf pos bodyLen

open PrefixExact

def parser : Parser UInt8 Error Frame :=
  seq decodeVarint fun streamId => seq (item .unexpectedEof) fun frameType =>
    seq decodeVarint fun bodyLen =>
      if maxBodyLen < bodyLen then fail (.invalidData "frame body too large")
      else seq (items .unexpectedEof bodyLen) fun body => ret ⟨streamId,frameType,body.toList⟩

theorem decode_eq : decode = parser := by
  funext buf
  rw [parser, decode]
  cases hd : decodeVarint buf with
  | error e =>
    rw [seq_of_error hd]
    rfl
  | ok a =>
    have hw := decodeVarint_exact.within _ a.1 a.2 hd
    have hh : buf[a.2]? = (buf.drop a.2).head? := (List.head?_drop ..).symm
    have hr : buf.drop (a.2+1) = (buf.drop a.2).tail := List.tail_drop.symm
    have hl : (buf.drop a.2).length = buf.length-a.2 := List.length_drop
    rw [seq_of_ok (v := a.1) (n := a.2) hd]
    simp only [bind, Except.bind, hh, hr]
    cases hq : buf.drop a.2 with
    | nil => rfl
    | cons frameType rest =>
      rw [hq, List.length_cons] at hl
      simp only [List.head?_cons, List.tail_cons, seq_item]
      cases hs : decodeVarint rest with
      | error e =>
        rw [seq_of_error hs]
        rfl
      | ok b =>
        have hb := decodeVarint_exact.within _ b.1 b.2 hs
        have hx : buf.drop (a.2+1+b.2) = rest.drop b.2 := by
          rw [← List.drop_drop, hr, hq, List.tail_cons]
        rw [seq_of_ok (v := b.1) (n := b.2) hs]
        dsimp only
        by_cases hm : maxBodyLen < b.1
        · rw [if_pos hm, if_pos hm]
          rfl
        rw [if_neg hm, if_neg hm, hx]
        by_cases hn : b.1 ≤ (rest.drop b.2).length
        · rw [seq_of_ok (items_of_le hn)]
          rw [List.length_drop] at hn
          rw [if_neg (by omega)]
          simp only [ret, Except.map, Nat.add_zero, Nat.add_assoc]
          rfl
        · rw [seq_of_error (items_of_lt (Nat.lt_of_not_le hn))]
          rw [List.length_drop] at hn
          rw [if_pos (by omega)]
          rfl

theorem decode_exact : PrefixExact Error.unexpectedEof decode := by
  rw [decode_eq]
  exact seq_exact decodeVarint_exact fun streamId => seq_exact item_exact fun frameType =>
    seq_exact decodeVarint_exact fun bodyLen => ite_exact (fail_exact _)
      (seq_exact (items_exact bodyLen) fun body => ret_exact _)

theorem bodyChecked_returns (streamId : ℕ) (frameType : UInt8) (buf : Bytes) (pos bodyLen : ℕ)
    (hp : pos ≤ buf.length) (hb : buf.length < 2^63) :
    Checked.Returns (bodyChecked streamId frameType buf pos bodyLen)
      (if maxBodyLen < bodyLen then .error (.invalidData "frame body too large")
      else if buf.length < pos+bodyLen then .error .unexpectedEof
      else .ok (⟨streamId,frameType,(buf.drop pos).take bodyLen⟩,pos+bodyLen)) := by
  refine Checked.returns_ite (fun _ => Checked.returns_throw _) fun hm => ?_
  unfold maxBodyLen at hm
  rw [if_neg (show ¬usizeLimit ≤ pos+bodyLen by unfold usizeLimit; omega)]
  refine Checked.returns_ite (fun _ => Checked.returns_throw _) fun hn => ?_
  have hs := Checked.returns_slice (ε := Error) (Nat.le_add_right pos bodyLen)
    (Nat.le_of_not_lt hn)
  rw [Nat.add_sub_cancel_left] at hs
  exact Checked.returns_step hs (Checked.returns_pure _)

theorem decode_returns (buf : Bytes) (hb : buf.length < 2^63) :
    Checked.Returns (decodeChecked buf) (decode buf) := by
  refine Checked.returns_bind (decodeVarint_returns buf) fun a ha => ?_
  cases hf : buf[a.2]? with
  | none =>
    simp only [hf]
    exact Checked.returns_throw _
  | some frameType =>
    simp only [hf]
    obtain ⟨hp,-⟩ := List.getElem?_eq_some_iff.mp hf
    refine Checked.returns_step (Checked.returns_add (by unfold usizeLimit; omega)) ?_
    refine Checked.returns_step (Checked.returns_suffix (by omega)) ?_
    refine Checked.returns_bind (decodeVarint_returns _) fun b hb' => ?_
    have hw := decodeVarint_exact.within _ b.1 b.2 hb'
    rw [List.length_drop] at hw
    refine Checked.returns_step (Checked.returns_add (by unfold usizeLimit; omega)) ?_
    exact bodyChecked_returns _ _ _ _ _ (by omega) hb

end Frame

structure SafeExact {T : Type} (decode : Bytes → Guarded (T × ℕ)) : Prop where
  safe : ∀ b : Slice, ∃ r, Checked.Returns (decode b.bytes) r
  within : ∀ (b : Slice) v n, Checked.Returns (decode b.bytes) (.ok (v,n)) → n ≤ b.bytes.length
  longer : ∀ (b c : Slice) v n, Checked.Returns (decode b.bytes) (.ok (v,n)) →
    b.bytes.take n <+: c.bytes → Checked.Returns (decode c.bytes) (.ok (v,n))
  shorter : ∀ (b : Slice) v n, Checked.Returns (decode b.bytes) (.ok (v,n)) →
    ∀ k < n, Checked.Returns (decode (b.bytes.take k)) (.error .unexpectedEof)

theorem Follows.safeExact {T : Type} {checked : Bytes → Guarded (T × ℕ)}
    {decode : Bytes → Result (T × ℕ)} (h : Follows checked decode) : SafeExact checked := by
  have hr (b : Slice) (r : Result (T × ℕ)) :
      Checked.Returns (checked b.bytes) r ↔ decode b.bytes = r :=
    Checked.returns_iff (h.returns b)
  constructor
  · intro b
    exact ⟨_,h.returns b⟩
  · intro b v n hv
    exact h.exact.within _ v n ((hr b _).mp hv)
  · intro b c v n hv hc
    obtain ⟨rest,hc⟩ := hc
    rw [hr, ← hc]
    exact h.exact.longer _ v n rest ((hr b _).mp hv)
  · intro b v n hv k hk
    have hl : (b.bytes.take k).length < 2^63 :=
      lt_of_le_of_lt (List.length_take_le' k b.bytes) b.short
    exact (hr ⟨b.bytes.take k,hl⟩ _).mpr (h.exact.shorter _ v n k ((hr b _).mp hv) hk)

/-- Every decoder of the wire format. -/
theorem decoders_safe_exact :
    SafeExact decodeVarintChecked ∧ SafeExact Address.decodeChecked ∧
    SafeExact AuthRequest.decodeChecked ∧ SafeExact AuthResponse.decodeChecked ∧
    SafeExact OpenStream.decodeChecked ∧ SafeExact OpenStreamAck.decodeChecked ∧
    SafeExact Frame.decodeChecked := by
  have hv : Follows decodeVarintChecked decodeVarint :=
    ⟨fun b => decodeVarint_returns b.bytes,decodeVarint_exact⟩
  have ha : Follows Address.decodeChecked Address.decode :=
    ⟨fun b => Address.decode_returns b.bytes b.short,Address.decode_exact⟩
  have hf : Follows Frame.decodeChecked Frame.decode :=
    ⟨fun b => Frame.decode_returns b.bytes b.short,Frame.decode_exact⟩
  exact ⟨hv.safeExact,ha.safeExact,AuthRequest.follows.safeExact,AuthResponse.follows.safeExact,
    OpenStream.follows.safeExact,OpenStreamAck.follows.safeExact,hf.safeExact⟩

end Hydr
