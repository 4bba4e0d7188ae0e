import Mathlib
import Hydr.Address

/-!
# UTF-8 texts and the lossy conversion

The conversion decides byte by byte; a text is a list of characters in their
standard encoding. It leaves a byte string as it is exactly when the string is
such an encoding, for every piece it replaces is not a character.
-/

set_option autoImplicit false

namespace Hydr.Address

def utf8 (text : List Char) : Bytes := text.flatMap String.utf8EncodeChar

theorem charWidth_eq (b : UInt8) : charWidth b =
    if b.toNat < 0x80 then 1
    else if 0xc2 ≤ b.toNat ∧ b.toNat ≤ 0xdf then 2
    else if 0xe0 ≤ b.toNat ∧ b.toNat ≤ 0xef then 3
    else if 0xf0 ≤ b.toNat ∧ b.toNat ≤ 0xf4 then 4
    else 0 := by
  simp only [charWidth, UInt8.lt_iff_toNat_lt, UInt8.le_iff_toNat_le]
  rfl

theorem continues_iff : ∀ b : UInt8, continues b = true ↔ 0x80 ≤ b.toNat ∧ b.toNat ≤ 0xbf := by
  decide +kernel

theorem secondOk_iff (b c : UInt8) : secondOk b c = true ↔
    (if b.toNat = 0xe0 then 0xa0 else if b.toNat = 0xf0 then 0x90 else 0x80) ≤ c.toNat ∧
    c.toNat ≤ (if b.toNat = 0xed then 0x9f else if b.toNat = 0xf4 then 0x8f else 0xbf) := by
  have h : ∀ n : UInt8, b = n ↔ b.toNat = n.toNat := fun n => UInt8.toNat_inj.symm
  simp only [secondOk, h]
  have h1 : (0xe0 : UInt8).toNat = 0xe0 := rfl
  have h2 : (0xed : UInt8).toNat = 0xed := rfl
  have h3 : (0xf0 : UInt8).toNat = 0xf0 := rfl
  have h4 : (0xf4 : UInt8).toNat = 0xf4 := rfl
  simp only [h1, h2, h3, h4]
  split_ifs <;>
    simp only [Bool.and_eq_true, decide_eq_true_eq, UInt8.le_iff_toNat_le] <;> first | omega | rfl

section
variable (b c d e : UInt8) (rest : Bytes)

theorem headChar_two (hb : 0xc2 ≤ b.toNat ∧ b.toNat ≤ 0xdf) (hc : continues c = true) :
    headChar b (c::rest) = (true,2) := by
  have hw : charWidth b = 2 := by rw [charWidth_eq, if_neg (by omega), if_pos hb]
  simp [headChar, hw, hc]

theorem headChar_three (hb : 0xe0 ≤ b.toNat ∧ b.toNat ≤ 0xef) (hc : secondOk b c = true)
    (hd : continues d = true) : headChar b (c::d::rest) = (true,3) := by
  have hw : charWidth b = 3 := by
    rw [charWidth_eq, if_neg (by omega), if_neg (by omega), if_pos hb]
  simp [headChar, hw, hc, hd]

theorem headChar_four (hb : 0xf0 ≤ b.toNat ∧ b.toNat ≤ 0xf4) (hc : secondOk b c = true)
    (hd : continues d = true) (he : continues e = true) :
    headChar b (c::d::e::rest) = (true,4) := by
  have hw : charWidth b = 4 := by
    rw [charWidth_eq, if_neg (by omega), if_neg (by omega), if_neg (by omega), if_pos hb]
  simp [headChar, hw, hc, hd, he]

end

theorem headChar_encode (ch : Char) (rest : Bytes) :
    ∃ b tail, String.utf8EncodeChar ch = b::tail ∧
      headChar b (tail++rest) = (true,tail.length+1) := by
  have hv : ch.val.toNat < 0xd800 ∨ 0xdfff < ch.val.toNat ∧ ch.val.toNat < 0x110000 := ch.valid
  unfold String.utf8EncodeChar
  dsimp only
  generalize ch.val.toNat = v at hv
  have hn : ∀ n, n < 256 → (UInt8.ofNat n).toNat = n := fun n h => by
    rw [UInt8.toNat_ofNat', Nat.mod_eq_of_lt h]
  have hc : ∀ n, continues (UInt8.ofNat (n%64+128)) = true := fun n => by
    rw [continues_iff, hn _ (by omega)]
    omega
  split_ifs with h1 h2 h3
  · refine ⟨_,_,rfl,?_⟩
    simp only [headChar, charWidth_eq, hn v (by omega)]
    rw [if_pos (by omega)]
    rfl
  · refine ⟨_,_,rfl,headChar_two _ _ _ ?_ (hc v)⟩
    rw [hn _ (by omega)]
    omega
  · refine ⟨_,_,rfl,headChar_three _ _ _ _ ?_ ?_ (hc v)⟩
    · rw [hn _ (by omega)]
      omega
    · rw [secondOk_iff, hn _ (by omega), hn _ (by omega)]
      split_ifs <;> omega
  · refine ⟨_,_,rfl,headChar_four _ _ _ _ _ ?_ ?_ (hc _) (hc v)⟩
    · rw [hn _ (by omega)]
      omega
    · rw [secondOk_iff, hn _ (by omega), hn _ (by omega)]
      split_ifs <;> omega

theorem exists_char (v : ℕ) (h : v < 0xd800 ∨ 0xdfff < v ∧ v < 0x110000) :
    ∃ ch : Char, ch.val.toNat = v := by
  have hv : (UInt32.ofNat v).toNat = v := by
    rw [UInt32.toNat_ofNat', Nat.mod_eq_of_lt (by omega)]
  exact ⟨⟨UInt32.ofNat v,by rw [UInt32.isValidChar, hv]; exact h⟩,hv⟩

/-- A byte that is read past the end continues no character. -/
theorem read_inside (rest : Bytes) (i : ℕ) (p : UInt8 → Bool) (h0 : p 0 = false)
    (h : p (rest.getD i 0) = true) : ∃ c, rest[i]? = some c ∧ p c = true := by
  rw [List.getD_eq_getElem?_getD] at h
  cases hc : rest[i]? with
  | none => rw [hc, Option.getD_none, h0] at h; cases h
  | some c => exact ⟨c,rfl,by rwa [hc] at h⟩

theorem charWidth_class (b : UInt8) :
    (charWidth b = 1 → b.toNat < 0x80) ∧
    (charWidth b = 2 → 0xc2 ≤ b.toNat ∧ b.toNat ≤ 0xdf) ∧
    (charWidth b = 3 → 0xe0 ≤ b.toNat ∧ b.toNat ≤ 0xef) ∧
    (charWidth b = 4 → 0xf0 ≤ b.toNat ∧ b.toNat ≤ 0xf4) := by
  rw [charWidth_eq]
  split_ifs <;> simp only [OfNat.ofNat_ne_one, false_imp_iff, true_imp_iff, and_true,
    true_and] <;> omega

/-- What a head that is taken as it is looks like, by its width. -/
theorem headChar_cases (b : UInt8) (rest : Bytes) (n : ℕ) (h : headChar b rest = (true,n)) :
    (n = 1 ∧ b.toNat < 0x80) ∨
    (∃ c r, rest = c::r ∧ n = 2 ∧ (0xc2 ≤ b.toNat ∧ b.toNat ≤ 0xdf) ∧ continues c = true) ∨
    (∃ c d r, rest = c::d::r ∧ n = 3 ∧ (0xe0 ≤ b.toNat ∧ b.toNat ≤ 0xef) ∧
      secondOk b c = true ∧ continues d = true) ∨
    ∃ c d e r, rest = c::d::e::r ∧ n = 4 ∧ (0xf0 ≤ b.toNat ∧ b.toNat ≤ 0xf4) ∧
      secondOk b c = true ∧ continues d = true ∧ continues e = true := by
  have h2 : secondOk b 0 = false := by
    rw [Bool.eq_false_iff, ne_eq, secondOk_iff]
    split_ifs <;> simp
  obtain ⟨hw1,hw2,hw3,hw4⟩ := charWidth_class b
  unfold headChar at h
  split at h
  · rename_i hb
    cases h
    exact Or.inl ⟨rfl,hw1 hb⟩
  · rename_i hb
    by_cases hc : continues (rest.getD 0 0) = true
    · rw [if_pos hc] at h
      obtain ⟨c,hr,hc⟩ := read_inside rest 0 continues rfl hc
      match rest, hr with
      | c::r, rfl => cases h; exact Or.inr (Or.inl ⟨c,r,rfl,rfl,hw2 hb,hc⟩)
    · rw [if_neg hc] at h
      cases h
  · rename_i hb
    cases hs : secondOk b (rest.getD 0 0) with
    | false => rw [hs] at h; cases h
    | true =>
      by_cases hd : continues (rest.getD 1 0) = true
      · rw [hs, if_pos hd] at h
        obtain ⟨c,hr,hc⟩ := read_inside rest 0 (secondOk b) h2 hs
        obtain ⟨d,hr',hd⟩ := read_inside rest 1 continues rfl hd
        match rest, hr, hr' with
        | c::d::r, rfl, rfl =>
          cases h
          exact Or.inr (Or.inr (Or.inl ⟨c,d,r,rfl,rfl,hw3 hb,hc,hd⟩))
      · rw [hs, if_neg hd] at h
        cases h
  · rename_i hb
    cases hs : secondOk b (rest.getD 0 0) with
    | false => rw [hs] at h; cases h
    | true =>
      cases hd : continues (rest.getD 1 0) with
      | false => rw [hs, hd] at h; cases h
      | true =>
        by_cases he : continues (rest.getD 2 0) = true
        · rw [hs, hd, if_pos he] at h
          obtain ⟨c,hr,hc⟩ := read_inside rest 0 (secondOk b) h2 hs
          obtain ⟨d,hr',hd⟩ := read_inside rest 1 continues rfl hd
          obtain ⟨e,hr'',he⟩ := read_inside rest 2 continues rfl he
          match rest, hr, hr', hr'' with
          | c::d::e::r, rfl, rfl, rfl =>
            cases h
            exact Or.inr (Or.inr (Or.inr ⟨c,d,e,r,rfl,rfl,hw4 hb,hc,hd,he⟩))
        · rw [hs, hd, if_neg he] at h
          cases h
  · cases h

theorem ofNat_eq (b : UInt8) (n : ℕ) (h : n = b.toNat) : UInt8.ofNat n = b := by
  rw [h, UInt8.ofNat_toNat]

theorem encodes_one (b : UInt8) (hb : b.toNat < 0x80) :
    ∃ ch, String.utf8EncodeChar ch = [b] := by
  obtain ⟨ch,hv⟩ := exists_char b.toNat (by omega)
  refine ⟨ch,?_⟩
  unfold String.utf8EncodeChar
  dsimp only
  rw [hv, if_pos (by omega), ofNat_eq b _ rfl]

theorem encodes_two (b c : UInt8) (hb : 0xc2 ≤ b.toNat ∧ b.toNat ≤ 0xdf)
    (hc : continues c = true) : ∃ ch, String.utf8EncodeChar ch = [b,c] := by
  rw [continues_iff] at hc
  obtain ⟨ch,hv⟩ := exists_char ((b.toNat-192)*64+(c.toNat-128)) (by omega)
  refine ⟨ch,?_⟩
  unfold String.utf8EncodeChar
  dsimp only
  rw [hv, if_neg (by omega), if_pos (by omega), ofNat_eq b _ (by omega), ofNat_eq c _ (by omega)]

theorem encodes_three (b c d : UInt8) (hb : 0xe0 ≤ b.toNat ∧ b.toNat ≤ 0xef)
    (hc : secondOk b c = true) (hd : continues d = true) :
    ∃ ch, String.utf8EncodeChar ch = [b,c,d] := by
  rw [secondOk_iff] at hc
  rw [continues_iff] at hd
  have hl : 0x80 ≤ c.toNat ∧ c.toNat ≤ 0xbf ∧ (b.toNat = 0xe0 → 0xa0 ≤ c.toNat) ∧
      (b.toNat = 0xed → c.toNat ≤ 0x9f) := by
    split_ifs at hc <;> omega
  obtain ⟨ch,hv⟩ := exists_char ((b.toNat-224)*4096+(c.toNat-128)*64+(d.toNat-128)) (by omega)
  refine ⟨ch,?_⟩
  unfold String.utf8EncodeChar
  dsimp only
  rw [hv, if_neg (by omega), if_neg (by omega), if_pos (by omega), ofNat_eq b _ (by omega),
    ofNat_eq c _ (by omega), ofNat_eq d _ (by omega)]

theorem encodes_four (b c d e : UInt8) (hb : 0xf0 ≤ b.toNat ∧ b.toNat ≤ 0xf4)
    (hc : secondOk b c = true) (hd : continues d = true) (he : continues e = true) :
    ∃ ch, String.utf8EncodeChar ch = [b,c,d,e] := by
  rw [secondOk_iff] at hc
  rw [continues_iff] at hd he
  have hl : 0x80 ≤ c.toNat ∧ c.toNat ≤ 0xbf ∧ (b.toNat = 0xf0 → 0x90 ≤ c.toNat) ∧
      (b.toNat = 0xf4 → c.toNat ≤ 0x8f) := by
    split_ifs at hc <;> omega
  obtain ⟨ch,hv⟩ := exists_char
    ((b.toNat-240)*262144+(c.toNat-128)*4096+(d.toNat-128)*64+(e.toNat-128)) (by omega)
  refine ⟨ch,?_⟩
  unfold String.utf8EncodeChar
  dsimp only
  rw [hv, if_neg (by omega), if_neg (by omega), if_neg (by omega), ofNat_eq b _ (by omega),
    ofNat_eq c _ (by omega), ofNat_eq d _ (by omega), ofNat_eq e _ (by omega)]

/-- A head that is taken as it is encodes a character. -/
theorem encode_of_headChar (b : UInt8) (rest : Bytes) (n : ℕ) (h : headChar b rest = (true,n)) :
    ∃ ch, String.utf8EncodeChar ch = (b::rest).take n := by
  rcases headChar_cases b rest n h with ⟨rfl,hb⟩ | ⟨c,r,rfl,rfl,hb,hc⟩ |
    ⟨c,d,r,rfl,rfl,hb,hc,hd⟩ | ⟨c,d,e,r,rfl,rfl,hb,hc,hd,he⟩
  · exact encodes_one b hb
  · exact encodes_two b c hb hc
  · exact encodes_three b c d hb hc hd
  · exact encodes_four b c d e hb hc hd he

theorem lossyFuel_utf8 (text : List Char) (fuel : ℕ) (h : (utf8 text).length ≤ fuel) :
    lossyFuel fuel (utf8 text) = utf8 text := by
  induction text generalizing fuel with
  | nil => cases fuel <;> rfl
  | cons ch text ih =>
    obtain ⟨b,tail,he,hh⟩ := headChar_encode ch (utf8 text)
    have hu : utf8 (ch::text) = b::(tail++utf8 text) := by simp [utf8, he]
    rw [hu, List.length_cons, List.length_append] at h
    obtain ⟨fuel,rfl⟩ : ∃ n, fuel = n+1 := ⟨fuel-1,by omega⟩
    simp only [hu, lossyFuel, hh, if_true, List.take_succ_cons, List.drop_succ_cons,
      List.take_left, List.drop_left, ih fuel (by omega), List.cons_append]

/-- The conversion is the identity on texts. -/
theorem fromUtf8Lossy_utf8 (text : List Char) : fromUtf8Lossy (utf8 text) = utf8 text :=
  lossyFuel_utf8 text _ le_rfl

/-- The replacement is a character itself, so it never stands for itself. -/
theorem headChar_replacement (rest : Bytes) :
    headChar 0xef (0xbf::0xbd::rest) = (true,3) :=
  headChar_three 0xef 0xbf 0xbd rest (by decide) (by decide) (by decide)

theorem utf8_of_lossyFuel (fuel : ℕ) (bytes : Bytes) (hf : bytes.length ≤ fuel)
    (h : lossyFuel fuel bytes = bytes) : ∃ text, bytes = utf8 text := by
  induction fuel generalizing bytes with
  | zero => exact ⟨[],List.length_eq_zero_iff.mp (Nat.le_zero.mp hf)⟩
  | succ fuel ih =>
    match bytes with
    | [] => exact ⟨[],rfl⟩
    | b::rest =>
      rcases hh : headChar b rest with ⟨valid,n⟩
      simp only [lossyFuel, hh] at h
      cases valid with
      | false =>
        simp only [Bool.false_eq_true, if_false, replacement, List.cons_append, List.nil_append,
          List.cons.injEq] at h
        rw [← h.1, ← h.2, headChar_replacement] at hh
        cases hh
      | true =>
        obtain ⟨ch,hch⟩ := encode_of_headChar b rest n hh
        have hn : 1 ≤ n := by
          rcases headChar_cases b rest n hh with ⟨rfl,-⟩ | ⟨_,_,-,rfl,-⟩ | ⟨_,_,_,-,rfl,-⟩ |
            ⟨_,_,_,_,-,rfl,-⟩ <;> omega
        have hd : lossyFuel fuel ((b::rest).drop n) = (b::rest).drop n := by
          rw [if_pos rfl] at h
          exact List.append_cancel_left (h.trans (List.take_append_drop n (b::rest)).symm)
        rw [List.length_cons] at hf
        obtain ⟨text,ht⟩ := ih _ (by rw [List.length_drop, List.length_cons]; omega) hd
        refine ⟨ch::text,?_⟩
        rw [utf8, List.flatMap_cons, ← utf8, hch, ← ht, List.take_append_drop]

theorem fromUtf8Lossy_eq_iff (bytes : Bytes) :
    fromUtf8Lossy bytes = bytes ↔ ∃ text, bytes = utf8 text := by
  constructor
  · exact utf8_of_lossyFuel _ bytes le_rfl
  · rintro ⟨text,rfl⟩
    exact fromUtf8Lossy_utf8 text

theorem headChar_pos (b : UInt8) (rest : Bytes) : 1 ≤ (headChar b rest).2 := by
  unfold headChar
  repeat' split
  all_goals decide

/-- A piece is replaced by three bytes at most, and it has one at least. -/
theorem lossyFuel_length (fuel : ℕ) (bytes : Bytes) :
    (lossyFuel fuel bytes).length ≤ 3*bytes.length := by
  induction fuel generalizing bytes with
  | zero => exact Nat.zero_le _
  | succ fuel ih =>
    match bytes with
    | [] => exact Nat.zero_le _
    | b::rest =>
      have hn := headChar_pos b rest
      rcases hh : headChar b rest with ⟨valid,n⟩
      rw [hh] at hn
      have hd := ih ((b::rest).drop n)
      simp only [List.length_drop, List.length_cons] at hd ⊢ hn
      simp only [lossyFuel, hh, List.length_append]
      have hp : (if valid then (b::rest).take n else replacement).length ≤
          3*min n (rest.length+1) := by
        cases valid with
        | true => simp only [if_true, List.length_take, List.length_cons]; omega
        | false => simp only [Bool.false_eq_true, if_false, replacement, List.length_cons,
            List.length_nil]; omega
      omega

/-- Whatever goes in, a text comes out. -/
theorem lossyFuel_text (fuel : ℕ) (bytes : Bytes) : ∃ text, lossyFuel fuel bytes = utf8 text := by
  induction fuel generalizing bytes with
  | zero => exact ⟨[],rfl⟩
  | succ fuel ih =>
    match bytes with
    | [] => exact ⟨[],rfl⟩
    | b::rest =>
      rcases hh : headChar b rest with ⟨valid,n⟩
      obtain ⟨text,ht⟩ := ih ((b::rest).drop n)
      have hp : ∃ ch, String.utf8EncodeChar ch =
          if valid then (b::rest).take n else replacement := by
        cases valid with
        | true => exact encode_of_headChar b rest n hh
        | false => exact encodes_three 0xef 0xbf 0xbd (by decide) (by decide) (by decide)
      obtain ⟨ch,hch⟩ := hp
      refine ⟨ch::text,?_⟩
      simp only [lossyFuel, hh, ht, ← hch, utf8, List.flatMap_cons]

theorem fromUtf8Lossy_idem (bytes : Bytes) :
    fromUtf8Lossy (fromUtf8Lossy bytes) = fromUtf8Lossy bytes := by
  obtain ⟨text,ht⟩ := lossyFuel_text bytes.length bytes
  rw [show fromUtf8Lossy bytes = utf8 text from ht, fromUtf8Lossy_utf8]

end Hydr.Address
