import Mathlib

/-!
# Hexadecimal texts

A byte is written as two digits, the high half first. The letters are read in
either case, and what was read is the byte whose digits are the lower case ones.
-/

set_option autoImplicit false

namespace Hexadecimal

def IsDigit (c : Char) : Prop := ('0' ≤ c ∧ c ≤ '9') ∨ ('a' ≤ c ∧ c ≤ 'f') ∨ ('A' ≤ c ∧ c ≤ 'F')

instance (c : Char) : Decidable (IsDigit c) :=
  inferInstanceAs (Decidable (_ ∨ _ ∨ _))

def lower (c : Char) : Char := if 'A' ≤ c ∧ c ≤ 'F' then Char.ofNat (c.toNat+32) else c

def upper (c : Char) : Char := if 'a' ≤ c ∧ c ≤ 'f' then Char.ofNat (c.toNat-32) else c

def value (c : Char) : ℕ :=
  if c ≤ '9' then c.toNat-48 else if c ≤ 'F' then c.toNat-55 else c.toNat-87

def byte (hi lo : Char) : UInt8 := UInt8.ofNat (value hi*16+value lo)

def digits (b : UInt8) : List Char := [Nat.digitChar (b.toNat/16),Nat.digitChar (b.toNat%16)]

def encode (bytes : List UInt8) : List Char := bytes.flatMap digits

def decode : List Char → List UInt8
  | hi::lo::text => byte hi lo::decode text
  | _ => []

/-- What is to be shown of a digit is shown of all of ASCII. -/
theorem ascii_cases {P : Char → Prop} (h : ∀ n < 128, IsDigit (Char.ofNat n) → P (Char.ofNat n))
    {c : Char} (hc : IsDigit c) : P c := by
  have hn : c.toNat < 128 := by
    have h9 : ('9' : Char).toNat = 57 := rfl
    have hf : ('f' : Char).toNat = 102 := rfl
    have hF : ('F' : Char).toNat = 70 := rfl
    have hle : ∀ d : Char, c ≤ d → c.toNat ≤ d.toNat := fun d hd => UInt32.le_iff_toNat_le.mp hd
    rcases hc with ⟨-,hc⟩ | ⟨-,hc⟩ | ⟨-,hc⟩ <;> have := hle _ hc <;> omega
  have hs := h c.toNat hn
  rw [Char.ofNat_toNat] at hs
  exact hs hc

theorem IsDigit.toNat_lt {c : Char} (hc : IsDigit c) : c.toNat < 128 :=
  ascii_cases (P := fun c => c.toNat < 128) (by decide) hc

theorem IsDigit.value_lt {c : Char} (hc : IsDigit c) : value c < 16 :=
  ascii_cases (P := fun c => value c < 16) (by decide) hc

theorem digitChar_value {c : Char} (hc : IsDigit c) : Nat.digitChar (value c) = lower c :=
  ascii_cases (P := fun c => Nat.digitChar (value c) = lower c) (by decide) hc

theorem isDigit_digitChar : ∀ n < 16, IsDigit (Nat.digitChar n) := by
  decide

theorem value_digitChar : ∀ n < 16, value (Nat.digitChar n) = n := by
  decide

theorem isDigit_of_lower {c : Char} (h : IsDigit (lower c)) : IsDigit c := by
  by_cases hc : 'A' ≤ c ∧ c ≤ 'F'
  · exact Or.inr (Or.inr hc)
  · rwa [lower, if_neg hc] at h

theorem lower_digitChar : ∀ n < 16, lower (Nat.digitChar n) = Nat.digitChar n := by
  decide

theorem lower_upper_digitChar :
    ∀ n < 16, lower (upper (Nat.digitChar n)) = Nat.digitChar n := by
  decide

theorem halves_lt (b : UInt8) : b.toNat/16 < 16 ∧ b.toNat%16 < 16 := by
  have hb := b.toNat_lt
  omega

theorem byte_digits (b : UInt8) :
    byte (Nat.digitChar (b.toNat/16)) (Nat.digitChar (b.toNat%16)) = b := by
  obtain ⟨hh,hl⟩ := halves_lt b
  rw [byte, value_digitChar _ hh, value_digitChar _ hl, Nat.div_add_mod', UInt8.ofNat_toNat]

theorem byte_toNat {hi lo : Char} (hh : IsDigit hi) (hl : IsDigit lo) :
    (byte hi lo).toNat = value hi*16+value lo := by
  have h1 := hh.value_lt
  have h2 := hl.value_lt
  rw [byte, UInt8.toNat_ofNat', Nat.mod_eq_of_lt (by omega)]

theorem digits_byte {hi lo : Char} (hh : IsDigit hi) (hl : IsDigit lo) :
    digits (byte hi lo) = [lower hi,lower lo] := by
  have h2 := hl.value_lt
  have hd : (value hi*16+value lo)/16 = value hi := by omega
  have hm : (value hi*16+value lo)%16 = value lo := by omega
  rw [digits, byte_toNat hh hl, hd, hm, digitChar_value hh, digitChar_value hl]

theorem decode_encode (bytes : List UInt8) : decode (encode bytes) = bytes := by
  induction bytes with
  | nil => rfl
  | cons b bytes ih =>
    calc decode (encode (b::bytes))
        = byte (Nat.digitChar (b.toNat/16)) (Nat.digitChar (b.toNat%16))::decode (encode bytes) :=
          rfl
      _ = b::bytes := by rw [byte_digits, ih]

theorem encode_injective : Function.Injective encode :=
  Function.LeftInverse.injective decode_encode

/-- Digits in whole pairs read as the bytes that they are written for. -/
theorem encode_decode (text : List Char) (he : 2 ∣ text.length) (hd : ∀ c ∈ text, IsDigit c) :
    encode (decode text) = text.map lower := by
  induction text using List.twoStepInduction with
  | nil => rfl
  | singleton c => simp at he
  | cons_cons hi lo text ih _ =>
    have he : 2 ∣ text.length := (Nat.dvd_add_left (Nat.dvd_refl 2)).mp he
    have hs := ih he fun c hc => hd c (List.mem_cons_of_mem _ (List.mem_cons_of_mem _ hc))
    have hp := digits_byte (hd hi (by simp)) (hd lo (by simp))
    calc encode (decode (hi::lo::text)) = digits (byte hi lo)++encode (decode text) := rfl
      _ = (hi::lo::text).map lower := by rw [hp, hs]; rfl

theorem length_encode (bytes : List UInt8) : (encode bytes).length = 2*bytes.length := by
  induction bytes with
  | nil => rfl
  | cons b bytes ih =>
    calc (encode (b::bytes)).length = (encode bytes).length+2 := rfl
      _ = 2*(b::bytes).length := by rw [ih, List.length_cons]; omega

theorem mem_encode {bytes : List UInt8} {c : Char} (h : c ∈ encode bytes) :
    ∃ n < 16, c = Nat.digitChar n := by
  obtain ⟨b,-,hc⟩ := List.mem_flatMap.mp h
  obtain ⟨hh,hl⟩ := halves_lt b
  rcases List.mem_pair.mp hc with rfl | rfl
  · exact ⟨_,hh,rfl⟩
  · exact ⟨_,hl,rfl⟩

end Hexadecimal
