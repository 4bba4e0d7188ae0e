import Mathlib

/-!
# Parsers that are decided by what they read

A parser takes a value off the front of its input and says how many items that
took. It is exact when those items alone decide the value: nothing behind them
is looked at, and with any of them missing the input is too short.
-/

set_option autoImplicit false

namespace PrefixExact

variable {α β γ ε : Type}

abbrev Parser (α ε β : Type) : Type := List α → Except ε (β × ℕ)

def ret (v : β) : Parser α ε β := fun _ => .ok (v,0)

def fail (e : ε) : Parser α ε β := fun _ => .error e

def item (eof : ε) : Parser α ε α
  | [] => .error eof
  | a::_ => .ok (a,1)

def items (eof : ε) (n : ℕ) : Parser α ε (List.Vector α n) := fun b =>
  if h : n ≤ b.length then .ok (⟨b.take n,List.length_take_of_le h⟩,n) else .error eof

def seq (p : Parser α ε β) (q : β → Parser α ε γ) : Parser α ε γ := fun b =>
  match p b with
  | .error e => .error e
  | .ok (v,n) =>
    match q v (b.drop n) with
    | .error e => .error e
    | .ok (w,m) => .ok (w,n+m)

end PrefixExact

structure PrefixExact {α β ε : Type} (eof : ε) (p : PrefixExact.Parser α ε β) : Prop where
  within : ∀ b v n, p b = .ok (v,n) → n ≤ b.length
  longer : ∀ b v n rest, p b = .ok (v,n) → p (b.take n++rest) = .ok (v,n)
  shorter : ∀ b v n k, p b = .ok (v,n) → k < n → p (b.take k) = .error eof

namespace PrefixExact

variable {α β γ ε : Type} {eof : ε}

theorem ret_exact (v : β) : PrefixExact eof (ret v : Parser α ε β) where
  within b w n h := by
    cases h
    exact Nat.zero_le _
  longer b w n rest h := by
    cases h
    rfl
  shorter b w n k h hk := by
    cases h
    exact absurd hk (Nat.not_lt_zero k)

theorem fail_exact (e : ε) : PrefixExact eof (fail e : Parser α ε β) where
  within b w n h := by cases h
  longer b w n rest h := by cases h
  shorter b w n k h hk := by cases h

theorem items_of_le {n : ℕ} {b : List α} (h : n ≤ b.length) :
    items eof n b = .ok (⟨b.take n,List.length_take_of_le h⟩,n) := dif_pos h

theorem items_of_lt {n : ℕ} {b : List α} (h : b.length < n) : items eof n b = .error eof :=
  dif_neg (Nat.not_le.mpr h)

theorem items_ok {n : ℕ} {b : List α} {v : List.Vector α n} {m : ℕ}
    (h : items eof n b = .ok (v,m)) : n ≤ b.length ∧ v.toList = b.take n ∧ m = n := by
  by_cases hn : n ≤ b.length
  · rw [items_of_le hn] at h
    cases h
    exact ⟨hn,rfl,rfl⟩
  · rw [items_of_lt (Nat.lt_of_not_le hn)] at h
    cases h

theorem items_exact (n : ℕ) : PrefixExact eof (items eof n : Parser α ε (List.Vector α n)) where
  within b v m h := by
    obtain ⟨hl,-,rfl⟩ := items_ok h
    exact hl
  longer b v m rest h := by
    obtain ⟨hl,hv,rfl⟩ := items_ok h
    have ht : (b.take m).length = m := List.length_take_of_le hl
    rw [items_of_le (by rw [List.length_append, ht]; omega)]
    congr 2
    exact Subtype.ext ((List.take_left' ht).trans hv.symm)
  shorter b v m k h hk := by
    obtain ⟨hl,-,rfl⟩ := items_ok h
    exact items_of_lt (by rw [List.length_take]; omega)

theorem item_exact : PrefixExact eof (item eof : Parser α ε α) where
  within b v n h := by
    cases b with
    | nil => cases h
    | cons a b =>
      cases h
      exact Nat.le_add_left 1 _
  longer b v n rest h := by
    cases b with
    | nil => cases h
    | cons a b =>
      cases h
      rfl
  shorter b v n k h hk := by
    cases b with
    | nil => cases h
    | cons a b =>
      cases h
      obtain rfl : k = 0 := by omega
      rfl

theorem seq_ok {p : Parser α ε β} {q : β → Parser α ε γ} {b : List α} {w : γ} {j : ℕ}
    (h : seq p q b = .ok (w,j)) :
    ∃ v n m, p b = .ok (v,n) ∧ q v (b.drop n) = .ok (w,m) ∧ j = n+m := by
  rw [seq] at h
  split at h
  · cases h
  · rename_i v n hp
    split at h
    · cases h
    · rename_i w' m hq
      cases h
      exact ⟨v,n,m,hp,hq,rfl⟩

theorem seq_of_ok {p : Parser α ε β} {q : β → Parser α ε γ} {b : List α} {v : β} {n : ℕ}
    (h : p b = .ok (v,n)) :
    seq p q b = (q v (b.drop n)).map fun r => (r.1,n+r.2) := by
  simp only [seq, h]
  cases q v (b.drop n) <;> rfl

theorem seq_of_error {p : Parser α ε β} {q : β → Parser α ε γ} {b : List α} {e : ε}
    (h : p b = .error e) : seq p q b = .error e := by simp only [seq, h]

theorem seq_item (q : α → Parser α ε γ) (a : α) (b : List α) :
    seq (item eof) q (a::b) = (q a b).map fun r => (r.1,1+r.2) := seq_of_ok rfl

/-- The first parser reads to a point, and what the second makes of the rest is
decided by the items behind it. -/
theorem seq_exact {p : Parser α ε β} {q : β → Parser α ε γ} (hp : PrefixExact eof p)
    (hq : ∀ v, PrefixExact eof (q v)) : PrefixExact eof (seq p q) where
  within b w j h := by
    obtain ⟨v,n,m,h1,h2,rfl⟩ := seq_ok h
    have hn := hp.within b v n h1
    have hm := (hq v).within _ w m h2
    rw [List.length_drop] at hm
    omega
  longer b w j rest h := by
    obtain ⟨v,n,m,h1,h2,rfl⟩ := seq_ok h
    have hn := hp.within b v n h1
    have hs : b.take (n+m)++rest = b.take n++((b.drop n).take m++rest) := by
      rw [List.take_add, List.append_assoc]
    have hd : (b.take n++((b.drop n).take m++rest)).drop n = (b.drop n).take m++rest :=
      List.drop_left' (List.length_take_of_le hn)
    rw [hs, seq_of_ok (hp.longer b v n _ h1), hd, (hq v).longer _ w m rest h2]
    rfl
  shorter b w j k h hk := by
    obtain ⟨v,n,m,h1,h2,rfl⟩ := seq_ok h
    by_cases hkn : k < n
    · exact seq_of_error (hp.shorter b v n k h1 hkn)
    · have hs : b.take k = b.take n++(b.drop n).take (k-n) := by
        rw [← List.take_add, Nat.add_sub_of_le (Nat.le_of_not_lt hkn)]
      have hd : (b.take n++(b.drop n).take (k-n)).drop n = (b.drop n).take (k-n) :=
        List.drop_left' (List.length_take_of_le (hp.within b v n h1))
      rw [hs, seq_of_ok (hp.longer b v n _ h1), hd,
        (hq v).shorter _ w m (k-n) h2 (by omega)]
      rfl

theorem items_items (n m : ℕ) (f : List.Vector α n → List.Vector α m → γ) (b : List α) :
    seq (items eof n) (fun u => seq (items eof m) fun w => ret (f u w)) b =
      if h : n+m ≤ b.length then
        .ok (f ⟨b.take n,List.length_take_of_le (by omega)⟩
          ⟨(b.drop n).take m,List.length_take_of_le (by rw [List.length_drop]; omega)⟩,n+m)
      else .error eof := by
  by_cases hn : n ≤ b.length
  · rw [seq_of_ok (items_of_le hn)]
    by_cases hm : n+m ≤ b.length
    · rw [seq_of_ok (items_of_le (by rw [List.length_drop]; omega)), dif_pos hm]
      rfl
    · rw [seq_of_error (items_of_lt (by rw [List.length_drop]; omega)), dif_neg hm]
      rfl
  · rw [seq_of_error (items_of_lt (Nat.lt_of_not_le hn)), dif_neg (by omega)]

theorem ite_exact {c : Prop} [Decidable c] {p q : Parser α ε β} (hp : PrefixExact eof p)
    (hq : PrefixExact eof q) : PrefixExact eof (if c then p else q) := by
  by_cases h : c
  · rwa [if_pos h]
  · rwa [if_neg h]

end PrefixExact
