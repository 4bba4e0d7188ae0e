import Mathlib
import Hydr.Utf8
import Hydr.Library.Checked
import Hydr.Library.Hexadecimal

/-!
# The pinned fingerprint as a text

A pin is compared with the hash of a certificate, and it is configured as a
text. The reader drops the colons, tests the bytes of what is left and then reads
them in pairs, with a number parser that would itself take a sign. What it
accepts is exactly what is written for the pin, but for colons and case.
-/

set_option autoImplicit false

namespace Hydr.Fingerprint
open Address (utf8 fromUtf8Lossy fromUtf8Lossy_utf8)
open Hexadecimal

abbrev Pin := List.Vector UInt8 32

def formatByte (b : UInt8) : List Char := (Nat.toDigits 16 b.toNat).leftpad 2 '0'

def hexEncode (bytes : Bytes) : List Char := bytes.foldl (fun s b => s++formatByte b) []

def fingerprintHex (bytes : Pin) : List Char := hexEncode bytes.toList

def isAsciiHexdigit (b : UInt8) : Bool :=
  (0x30 ≤ b && b ≤ 0x39) || (0x61 ≤ b && b ≤ 0x66) || (0x41 ≤ b && b ≤ 0x46)

def toDigit (b : UInt8) : Option ℕ :=
  if 0x30 ≤ b ∧ b ≤ 0x39 then some (b.toNat-0x30)
  else if 0x61 ≤ b ∧ b ≤ 0x66 then some (b.toNat-0x61+10)
  else if 0x41 ≤ b ∧ b ≤ 0x46 then some (b.toNat-0x41+10)
  else none

def pushDigit (result : ℕ) (b : UInt8) : Option ℕ :=
  if result*16 < 256 then
    (toDigit b).bind fun x => if result*16+x < 256 then some (result*16+x) else none
  else none

/-- `u8::from_str_radix` for the radix sixteen: a plus may stand before the digits. -/
def fromStrRadix (src : Bytes) : Option UInt8 :=
  match src with
  | [] => none
  | first::rest =>
    if rest = [] ∧ (first = 0x2b ∨ first = 0x2d) then none
    else ((if first = 0x2b then rest else src).foldlM pushDigit 0).map UInt8.ofNat

def fromUtf8 (bytes : Bytes) : Option Bytes :=
  if fromUtf8Lossy bytes = bytes then some bytes else none

def chunksOfTwo : Bytes → List Bytes
  | [] => []
  | [a] => [[a]]
  | a::b::rest => [a,b]::chunksOfTwo rest

def readChunk (chunk : Bytes) : Option UInt8 := (fromUtf8 chunk).bind fromStrRadix

def fill : List Bytes → ℕ → Pin → Checked Unit Pin
  | [], _, out => pure out
  | chunk::chunks, i, out => do
    let byte ← Checked.ofOption () (readChunk chunk)
    let out ← Checked.assign out i byte
    fill chunks (i+1) out

def clean (s : List Char) : List Char := s.filter (· ≠ ':')

def parseFingerprint (s : List Char) : Checked Unit Pin :=
  let bytes := utf8 (clean s)
  if bytes.length ≠ 64 ∨ bytes.all isAsciiHexdigit = false then throw ()
  else fill (chunksOfTwo bytes) 0 (.replicate 32 0)

theorem formatByte_eq : ∀ b : UInt8, formatByte b = digits b := by
  decide +kernel

theorem hexEncode_eq (bytes : Bytes) : hexEncode bytes = encode bytes := by
  have hs : ∀ s, bytes.foldl (fun s b => s++formatByte b) s = s++encode bytes := by
    induction bytes with
    | nil => intro s; exact (List.append_nil s).symm
    | cons b bytes ih =>
      intro s
      rw [List.foldl_cons, ih, formatByte_eq, List.append_assoc]
      rfl
  exact hs []

theorem fingerprintHex_injective : Function.Injective fingerprintHex := by
  intro a b h
  rw [fingerprintHex, fingerprintHex, hexEncode_eq, hexEncode_eq] at h
  exact List.Vector.toList_injective (encode_injective h)

theorem length_fingerprintHex (fp : Pin) : (fingerprintHex fp).length = 64 := by
  rw [fingerprintHex, hexEncode_eq, length_encode, fp.toList_length]

def asciiByte (c : Char) : UInt8 := UInt8.ofNat c.toNat

theorem utf8EncodeChar_ascii {c : Char} (h : c.toNat < 128) :
    String.utf8EncodeChar c = [asciiByte c] := by
  have hv : c.val.toNat ≤ 127 := Nat.le_of_lt_succ h
  unfold String.utf8EncodeChar
  dsimp only
  rw [if_pos hv]
  rfl

theorem hexdigit_digit : ∀ n < 128, isAsciiHexdigit (asciiByte (Char.ofNat n)) = true ↔
    IsDigit (Char.ofNat n) := by
  decide

theorem isAsciiHexdigit_lt : ∀ b : UInt8, isAsciiHexdigit b = true → b.toNat < 128 := by
  decide +kernel

/-- Past ASCII the first byte is a lead byte. -/
theorem wide_byte (c : Char) (hc : 128 ≤ c.toNat) :
    ∃ b ∈ String.utf8EncodeChar c, 128 ≤ b.toNat := by
  have hv : 128 ≤ c.val.toNat := hc
  have hn : ∀ n, 128 ≤ n → n < 256 → 128 ≤ (UInt8.ofNat n).toNat := fun n h1 h2 => by
    rwa [UInt8.toNat_ofNat', Nat.mod_eq_of_lt h2]
  unfold String.utf8EncodeChar
  dsimp only
  rw [if_neg (by omega)]
  split_ifs
  · exact ⟨_,List.mem_cons_self,hn _ (by omega) (by omega)⟩
  · exact ⟨_,List.mem_cons_self,hn _ (by omega) (by omega)⟩
  · exact ⟨_,List.mem_cons_self,hn _ (by omega) (by omega)⟩

/-- Only a digit is encoded in digits: any other character has a byte that is none. -/
theorem all_hexdigit_char (c : Char) :
    (String.utf8EncodeChar c).all isAsciiHexdigit = true ↔ IsDigit c := by
  by_cases hc : c.toNat < 128
  · have hd := hexdigit_digit c.toNat hc
    rw [Char.ofNat_toNat] at hd
    rw [utf8EncodeChar_ascii hc, List.all_cons, List.all_nil, Bool.and_true, hd]
  · constructor
    · intro h
      obtain ⟨b,hm,hb⟩ := wide_byte c (Nat.le_of_not_lt hc)
      have hl := isAsciiHexdigit_lt b (List.all_eq_true.mp h b hm)
      omega
    · intro h
      exact absurd h.toNat_lt hc

theorem all_hexdigit (text : List Char) :
    (utf8 text).all isAsciiHexdigit = true ↔ ∀ c ∈ text, IsDigit c := by
  rw [utf8, List.all_flatMap, List.all_eq_true]
  exact forall₂_congr fun c _ => all_hexdigit_char c

theorem utf8_digits {text : List Char} (h : ∀ c ∈ text, IsDigit c) :
    utf8 text = text.map asciiByte := by
  induction text with
  | nil => rfl
  | cons c text ih =>
    have hs := ih fun d hd => h d (List.mem_cons_of_mem c hd)
    calc utf8 (c::text) = String.utf8EncodeChar c++utf8 text := List.flatMap_cons
      _ = (c::text).map asciiByte := by
        rw [utf8EncodeChar_ascii (h c List.mem_cons_self).toNat_lt, hs]
        rfl

theorem toDigit_digit {c : Char} (hc : IsDigit c) : toDigit (asciiByte c) = some (value c) :=
  ascii_cases (P := fun c => toDigit (asciiByte c) = some (value c)) (by decide) hc

/-- A digit is no sign, so the number parser reads both bytes of a pair as digits. -/
theorem digit_not_plus {c : Char} (hc : IsDigit c) : asciiByte c ≠ 0x2b :=
  ascii_cases (P := fun c => asciiByte c ≠ 0x2b) (by decide) hc

theorem pushDigit_digit {c : Char} (hc : IsDigit c) (result : ℕ) (hr : result < 16) :
    pushDigit result (asciiByte c) = some (result*16+value c) := by
  have hv := hc.value_lt
  rw [pushDigit, if_pos (by omega), toDigit_digit hc, Option.bind_some, if_pos (by omega)]

theorem readChunk_digits {hi lo : Char} (hh : IsDigit hi) (hl : IsDigit lo) :
    readChunk [asciiByte hi,asciiByte lo] = some (byte hi lo) := by
  have hu : utf8 [hi,lo] = [asciiByte hi,asciiByte lo] := by
    refine utf8_digits fun c hc => ?_
    rcases List.mem_pair.mp hc with rfl | rfl
    · exact hh
    · exact hl
  have ht : fromUtf8 [asciiByte hi,asciiByte lo] = some [asciiByte hi,asciiByte lo] := by
    rw [fromUtf8, if_pos (by rw [← hu, fromUtf8Lossy_utf8])]
  have h1 := pushDigit_digit hh 0 (by omega)
  have h2 := pushDigit_digit hl (value hi) hh.value_lt
  rw [Nat.zero_mul, Nat.zero_add] at h1
  rw [readChunk, ht, Option.bind_some, fromStrRadix, if_neg (by simp),
    if_neg (digit_not_plus hh)]
  simp only [List.foldlM_cons, List.foldlM_nil, h1, h2, Option.bind_eq_bind, Option.bind_some]
  rfl

theorem readChunks_digits (text : List Char) (he : 2 ∣ text.length)
    (h : ∀ c ∈ text, IsDigit c) :
    (chunksOfTwo (text.map asciiByte)).map readChunk = (decode text).map some := by
  induction text using List.twoStepInduction with
  | nil => rfl
  | singleton c => simp at he
  | cons_cons hi lo text ih _ =>
    have he : 2 ∣ text.length := (Nat.dvd_add_left (Nat.dvd_refl 2)).mp he
    have hs := ih he fun c hc => h c (List.mem_cons_of_mem _ (List.mem_cons_of_mem _ hc))
    have hp := readChunk_digits (h hi (by simp)) (h lo (by simp))
    rw [decode, List.map_cons, List.map_cons, List.map_cons, chunksOfTwo, List.map_cons, hs, hp]

theorem fill_returns (chunks : List Bytes) (bytes : Bytes) (i : ℕ) (out : Pin)
    (hr : chunks.map readChunk = bytes.map some) (hi : i+bytes.length ≤ 32) :
    ∃ fp, Checked.Returns (fill chunks i out) (.ok fp) ∧
      fp.toList.take (i+bytes.length) = out.toList.take i++bytes := by
  induction chunks generalizing bytes i out with
  | nil =>
    obtain rfl : bytes = [] := List.map_eq_nil_iff.mp hr.symm
    exact ⟨out,Checked.returns_pure out,by simp⟩
  | cons chunk chunks ih =>
    cases bytes with
    | nil => cases hr
    | cons b bytes =>
      obtain ⟨hb,hr⟩ := List.cons.inj hr
      rw [List.length_cons] at hi
      obtain ⟨fp,hf,ht⟩ := ih bytes (i+1) (out.set ⟨i,by omega⟩ b) hr (by omega)
      refine ⟨fp,?_,?_⟩
      · exact Checked.returns_step (Checked.returns_ofOption () hb)
          (Checked.returns_step (Checked.returns_assign out b (by omega)) hf)
      · have hl : i < out.toList.length := by rw [out.toList_length]; omega
        have hs : (out.toList.set i b).take (i+1) = out.toList.take i++[b] := by
          rw [List.take_succ_eq_append_getElem (by rwa [List.length_set]), List.getElem_set_self,
            List.take_set_of_le (le_refl i)]
        rw [List.length_cons, show i+(bytes.length+1) = i+1+bytes.length by omega, ht,
          List.Vector.toList_set, hs, List.append_assoc]
        rfl

def WellFormed (s : List Char) : Prop := (clean s).length = 64 ∧ ∀ c ∈ clean s, IsDigit c

theorem tests_iff (s : List Char) :
    ((utf8 (clean s)).length ≠ 64 ∨ (utf8 (clean s)).all isAsciiHexdigit = false) ↔
      ¬WellFormed s := by
  rw [WellFormed, ← all_hexdigit, not_and_or, Bool.not_eq_true]
  by_cases h : (utf8 (clean s)).all isAsciiHexdigit = true
  · rw [h, utf8_digits ((all_hexdigit _).mp h), List.length_map]
  · simp [h]

theorem parse_wellFormed {s : List Char} (h : WellFormed s) :
    ∃ fp, Checked.Returns (parseFingerprint s) (.ok fp) ∧
      (clean s).map lower = fingerprintHex fp := by
  have he : 2 ∣ (clean s).length := ⟨32,h.1⟩
  have hd := encode_decode (clean s) he h.2
  have hl : (decode (clean s)).length = 32 := by
    have hn := congrArg List.length hd
    rw [length_encode, List.length_map, h.1] at hn
    omega
  have hr := readChunks_digits (clean s) he h.2
  rw [← utf8_digits h.2] at hr
  obtain ⟨fp,hf,ht⟩ := fill_returns _ _ 0 (.replicate 32 0) hr (by omega)
  refine ⟨fp,?_,?_⟩
  · rw [parseFingerprint, if_neg fun hn => (tests_iff s).mp hn h]
    exact hf
  · have hb : fp.toList = decode (clean s) := by
      have hw : fp.toList.take (0+(decode (clean s)).length) = fp.toList :=
        List.take_of_length_le (by rw [fp.toList_length, hl])
      rw [← hw, ht]
      rfl
    rw [fingerprintHex, hexEncode_eq, hb, hd]

theorem parse_malformed {s : List Char} (h : ¬WellFormed s) :
    Checked.Returns (parseFingerprint s) (.error ()) := by
  rw [parseFingerprint, if_pos ((tests_iff s).mpr h)]
  exact Checked.returns_throw ()

/-- What is written for a pin is well formed, whatever case it is in. -/
theorem wellFormed_of_lower {s : List Char} {fp : Pin}
    (h : (clean s).map lower = fingerprintHex fp) : WellFormed s := by
  constructor
  · rw [← length_fingerprintHex fp, ← h, List.length_map]
  · intro c hc
    have hm : lower c ∈ fingerprintHex fp := h ▸ List.mem_map_of_mem hc
    rw [fingerprintHex, hexEncode_eq] at hm
    obtain ⟨n,hn,he⟩ := mem_encode hm
    exact isDigit_of_lower (he ▸ isDigit_digitChar n hn)

theorem parse_iff (s : List Char) (fp : Pin) :
    Checked.Returns (parseFingerprint s) (.ok fp) ↔ (clean s).map lower = fingerprintHex fp := by
  by_cases hw : WellFormed s
  · obtain ⟨gp,hg,hs⟩ := parse_wellFormed hw
    rw [Checked.returns_iff hg, hs, fingerprintHex_injective.eq_iff, Except.ok.injEq]
  · constructor
    · intro h
      cases (Checked.returns_iff (parse_malformed hw)).mp h
    · intro h
      exact absurd (wellFormed_of_lower h) hw

inductive Spells : List Char → List Char → Prop
  | nil : Spells [] []
  | colon {s text : List Char} (h : Spells s text) : Spells (':'::s) text
  | same {s text : List Char} (c : Char) (h : Spells s text) : Spells (c::s) (c::text)
  | upper {s text : List Char} (c : Char) (h : Spells s text) : Spells (upper c::s) (c::text)

theorem lower_clean_cons {c d : Char} (s : List Char) (hn : c ≠ ':') (hl : lower c = d) :
    (clean (c::s)).map lower = d::(clean s).map lower := by
  rw [clean, List.filter_cons_of_pos (by simpa using hn), List.map_cons, hl, clean]

theorem digitChar_not_colon : ∀ n < 16, Nat.digitChar n ≠ ':' ∧ upper (Nat.digitChar n) ≠ ':' := by
  decide

theorem Spells.lower_clean {s text : List Char} (h : Spells s text)
    (hd : ∀ c ∈ text, ∃ n < 16, c = Nat.digitChar n) : (clean s).map lower = text := by
  induction h with
  | nil => rfl
  | @colon s text h ih =>
    calc (clean (':'::s)).map lower = (clean s).map lower := rfl
      _ = text := ih hd
  | @same s text c h ih =>
    obtain ⟨n,hn,rfl⟩ := hd c List.mem_cons_self
    rw [lower_clean_cons s (digitChar_not_colon n hn).1 (lower_digitChar n hn),
      ih fun c hc => hd c (List.mem_cons_of_mem _ hc)]
  | @upper s text c h ih =>
    obtain ⟨n,hn,rfl⟩ := hd c List.mem_cons_self
    rw [lower_clean_cons s (digitChar_not_colon n hn).2 (lower_upper_digitChar n hn),
      ih fun c hc => hd c (List.mem_cons_of_mem _ hc)]

theorem parse_spells {s : List Char} {fp : Pin} (h : Spells s (fingerprintHex fp)) :
    Checked.Returns (parseFingerprint s) (.ok fp) := by
  refine (parse_iff s fp).mpr (h.lower_clean fun c hc => ?_)
  rw [fingerprintHex, hexEncode_eq] at hc
  exact mem_encode hc

theorem parse_other {s : List Char} (h : ∀ fp, (clean s).map lower ≠ fingerprintHex fp) :
    Checked.Returns (parseFingerprint s) (.error ()) := by
  refine parse_malformed fun hw => ?_
  obtain ⟨fp,-,hs⟩ := parse_wellFormed hw
  exact h fp hs

/-- A pin is read from the texts that spell it, and from no others: texts that
clean to the same digits give one pin, and what cleans to no pin's digits is refused. -/
theorem fingerprint_exact (s : List Char) (fp : Pin) :
    (Checked.Returns (parseFingerprint s) (.ok fp) ↔
      (clean s).map lower = fingerprintHex fp) ∧
    (Spells s (fingerprintHex fp) → Checked.Returns (parseFingerprint s) (.ok fp)) ∧
    (∀ t gp, (clean s).map lower = (clean t).map lower →
      Checked.Returns (parseFingerprint s) (.ok fp) →
      Checked.Returns (parseFingerprint t) (.ok gp) → fp = gp) ∧
    ((∀ gp, (clean s).map lower ≠ fingerprintHex gp) →
      Checked.Returns (parseFingerprint s) (.error ())) := by
  refine ⟨parse_iff s fp,parse_spells,?_,parse_other⟩
  intro t gp he hs ht
  refine fingerprintHex_injective ?_
  calc fingerprintHex fp = (clean s).map lower := ((parse_iff s fp).mp hs).symm
    _ = (clean t).map lower := he
    _ = fingerprintHex gp := (parse_iff t gp).mp ht

end Hydr.Fingerprint
