import Mathlib
import Hydr.Socks5Login

/-!
# The username and password message, byte by byte

What stands at the front of the stream decides the sub-negotiation. A message of
the grammar is taken as a whole and answered, whatever it says; anything else is
an error, and the peer hears nothing.
-/

set_option autoImplicit false

namespace Hydr.Socks5
open Dialogue Message

def Carries (name word input rest : Bytes) : Prop := Presents name word input rest ∧ name ≠ []

def Unheard (p q : Peer Opening) : Prop := q.output = p.output ∧ q.writes = p.writes

def answer (ok : Bool) : Conn Bool := do
  writeAll .io [1,if ok then 0 else 1]
  return ok

def matching (user pass name word : Bytes) : Bool := ctEq name user && ctEq word pass

theorem matching_iff (user pass name word : Bytes) :
    matching user pass name word = true ↔ name = user ∧ word = pass := by
  rw [matching, Bool.and_eq_true, ctEq_iff, ctEq_iff]

def Fields (ulen : ℕ) (name word input rest : Bytes) : Prop := name.length = ulen ∧
  ∃ m : UInt8, input = name++m::(word++rest) ∧ word.length = m.toNat

theorem carries_cons (name word rest : Bytes) (a n : UInt8) (input : Bytes) :
    Carries name word (a::n::input) rest ↔
      a = 1 ∧ n.toNat ≠ 0 ∧ Fields n.toNat name word input rest := by
  constructor
  · rintro ⟨⟨k,m,hi,hn,hw⟩,hne⟩
    obtain ⟨ha,ht⟩ := List.cons.inj hi
    obtain ⟨rfl,hf⟩ := List.cons.inj ht
    refine ⟨ha,fun hz => hne ?_,hn,m,hf,hw⟩
    rw [hz] at hn
    exact List.length_eq_zero_iff.mp hn
  · rintro ⟨rfl,hz,hn,m,rfl,hw⟩
    refine ⟨⟨n,m,rfl,hn,hw⟩,?_⟩
    rintro rfl
    exact hz hn.symm

theorem carries_long {name word input rest : Bytes} (h : Carries name word input rest) :
    ∃ a n input', input = a::n::input' := by
  obtain ⟨⟨n,m,hi,-⟩,-⟩ := h
  exact ⟨1,n,_,hi⟩

variable (user pass : Bytes)

def readFields (ulen : ℕ) : Conn Bool := do
  let name ← readExact .io ulen
  let plenBuf ← readByte .io
  let plen := plenBuf.toNat
  if 255 < plen then throw (.invalidData "bad password length")
  else do
    let word ← readExact .io plen
    answer (matching user pass name word)

def readMessage (version n : UInt8) : Conn Bool :=
  if version ≠ 1 then throw (.invalidData "bad userpass version")
  else if n.toNat = 0 ∨ 255 < n.toNat then throw (.invalidData "bad username length")
  else readFields user pass n.toNat

theorem verifyUserpass_eq : verifyUserpass user pass =
    readExact .io 2 >>= fun head => readMessage user pass (head.getD 0 0) (head.getD 1 0) := rfl

theorem readFields_cases (ulen : ℕ) (p : Peer Opening) :
    (∃ name word rest, Fields ulen name word p.input rest ∧
      run (readFields user pass ulen) p =
        run (answer (matching user pass name word)) { p with input := rest }) ∨
    (∃ e q, run (readFields user pass ulen) p = (.error e,q) ∧ Unheard p q ∧
      ∀ name word rest, ¬Fields ulen name word p.input rest) := by
  have hname : run (readFields user pass ulen) p = _ := run_bind _ _ p
  by_cases hl : p.input.length < ulen
  · rw [run_readExact_of_lt _ _ _ hl] at hname
    refine Or.inr ⟨_,_,hname,⟨rfl,rfl⟩,?_⟩
    rintro name word rest ⟨rfl,m,hi,-⟩
    rw [hi, List.length_append] at hl
    omega
  have hl := Nat.le_of_not_lt hl
  rw [run_readExact_of_le _ _ _ hl] at hname
  have ht : (p.input.take ulen).length = ulen := List.length_take_of_le hl
  have hfields (name word rest : Bytes) : Fields ulen name word p.input rest ↔
      name = p.input.take ulen ∧ ∃ m : UInt8, p.input.drop ulen = m::(word++rest) ∧
        word.length = m.toNat := by
    constructor
    · rintro ⟨rfl,m,hi,hw⟩
      exact ⟨by rw [hi, List.take_left],m,by rw [hi, List.drop_left],hw⟩
    · rintro ⟨rfl,m,hi,hw⟩
      exact ⟨ht,m,by rw [← hi, List.take_append_drop],hw⟩
  cases hd : p.input.drop ulen with
  | nil =>
    have hbyte := hname.trans (run_bind _ _ _)
    rw [hd] at hbyte
    refine Or.inr ⟨_,_,hbyte,⟨rfl,rfl⟩,?_⟩
    intro name word rest hf
    obtain ⟨-,m,hi,-⟩ := (hfields name word rest).mp hf
    rw [hd] at hi
    cases hi
  | cons m left =>
    have hbyte := hname.trans (run_bind _ _ _)
    rw [hd, run_readByte_cons] at hbyte
    have hm := m.toNat_lt
    dsimp only at hbyte
    rw [if_neg (show ¬255 < m.toNat by omega)] at hbyte
    have hword := hbyte.trans (run_bind _ _ _)
    by_cases hs : left.length < m.toNat
    · rw [run_readExact_of_lt _ _ _ hs] at hword
      refine Or.inr ⟨_,_,hword,⟨rfl,rfl⟩,?_⟩
      intro name word rest hf
      obtain ⟨-,k,hi,hw⟩ := (hfields name word rest).mp hf
      rw [hd] at hi
      obtain ⟨rfl,rfl⟩ := List.cons.inj hi
      rw [List.length_append, hw] at hs
      omega
    · have hs := Nat.le_of_not_lt hs
      rw [run_readExact_of_le _ _ _ hs] at hword
      refine Or.inl ⟨p.input.take ulen,left.take m.toNat,left.drop m.toNat,?_,hword⟩
      rw [hfields, hd, List.take_append_drop]
      exact ⟨rfl,m,rfl,List.length_take_of_le hs⟩

theorem verifyUserpass_cases (p : Peer Opening) :
    (∃ name word rest, Carries name word p.input rest ∧
      run (verifyUserpass user pass) p =
        run (answer (matching user pass name word)) { p with input := rest }) ∨
    (∃ e q, run (verifyUserpass user pass) p = (.error e,q) ∧ Unheard p q ∧
      ∀ name word rest, ¬Carries name word p.input rest) := by
  have hhead : run (verifyUserpass user pass) p = _ :=
    (congrArg (run · p) (verifyUserpass_eq user pass)).trans (run_bind _ _ p)
  by_cases h2 : p.input.length < 2
  · rw [run_readExact_of_lt _ _ _ h2] at hhead
    refine Or.inr ⟨_,_,hhead,⟨rfl,rfl⟩,?_⟩
    intro name word rest hc
    obtain ⟨a,n,input,hi⟩ := carries_long hc
    rw [hi] at h2
    simp at h2
  rw [run_readExact_of_le _ _ _ (Nat.le_of_not_lt h2)] at hhead
  obtain ⟨a,n,input,hp⟩ : ∃ a n input, p.input = a::n::input := by
    cases hi : p.input with
    | nil => simp [hi] at h2
    | cons a input =>
      cases input with
      | nil => simp [hi] at h2
      | cons n input => exact ⟨a,n,input,rfl⟩
  simp only [hp] at hhead ⊢
  have hrun : run (verifyUserpass user pass) p =
      run (readMessage user pass a n) { p with input := input } := hhead
  rw [hrun, readMessage]
  by_cases ha : a = 1
  · by_cases hn : n.toNat = 0
    · rw [if_neg (not_not.mpr ha), if_pos (Or.inl hn)]
      refine Or.inr ⟨_,_,rfl,⟨rfl,rfl⟩,fun name word rest hc => ?_⟩
      exact ((carries_cons ..).mp hc).2.1 hn
    · have hlt := n.toNat_lt
      rw [if_neg (not_not.mpr ha), if_neg (by omega)]
      rcases readFields_cases user pass n.toNat { p with input := input } with
        ⟨name,word,rest,hf,hr⟩ | ⟨e,q,hr,hu,hf⟩
      · exact Or.inl ⟨name,word,rest,(carries_cons ..).mpr ⟨ha,hn,hf⟩,hr⟩
      · refine Or.inr ⟨e,q,hr,hu,fun name word rest hc => ?_⟩
        exact hf name word rest ((carries_cons ..).mp hc).2.2
  · rw [if_pos ha]
    refine Or.inr ⟨_,_,rfl,⟨rfl,rfl⟩,fun name word rest hc => ?_⟩
    exact ha ((carries_cons ..).mp hc).1

theorem run_answer (ok : Bool) (p : Peer Opening) : run (answer ok) p =
    if p.writes.headD true then
      (.ok ok,{ p with output := p.output++[1,if ok then 0 else 1], writes := p.writes.tail })
    else (.error .io,{ p with writes := p.writes.tail }) := by
  rw [answer, run_bind]
  by_cases hw : p.writes.headD true = true
  · simp only [run, writeAll, if_pos hw]
    rfl
  · simp only [run, writeAll, if_neg hw]

theorem carries_unique {name word input rest name' word' rest' : Bytes}
    (h : Carries name word input rest) (h' : Carries name' word' input rest') :
    name = name' ∧ word = word' := by
  obtain ⟨a,n,input,rfl⟩ := carries_long h
  obtain ⟨-,-,hn,m,rfl,hw⟩ := (carries_cons ..).mp h
  obtain ⟨-,-,hn',m',hi,hw'⟩ := (carries_cons ..).mp h'
  obtain ⟨hname,ht⟩ := List.append_inj hi (hn.trans hn'.symm)
  obtain ⟨rfl,hl⟩ := List.cons.inj ht
  exact ⟨hname,(List.append_inj hl (hw.trans hw'.symm)).1⟩

/-- The answer is true exactly for the configured credentials, where it can be
written. Whatever is answered, one message was taken and the peer told so; an
error leaves the peer unheard and has no message in front of it, unless it is the
write itself that fails. -/
theorem userpass_exact (p : Peer Opening) :
    ((run (verifyUserpass user pass) p).1 = .ok true ↔
      p.writes.headD true = true ∧ ∃ rest, Carries user pass p.input rest) ∧
    (∀ ok q, run (verifyUserpass user pass) p = (.ok ok,q) →
      ∃ name word, Carries name word p.input q.input ∧ (ok = true ↔ name = user ∧ word = pass) ∧
        q.output = p.output++[1,if ok then 0 else 1]) ∧
    ∀ e q, run (verifyUserpass user pass) p = (.error e,q) →
      Unheard p q ∧ (∀ name word rest, ¬Carries name word p.input rest) ∨
        p.writes.headD true = false ∧ ∃ name word rest, Carries name word p.input rest := by
  rcases verifyUserpass_cases user pass p with ⟨name,word,rest,hc,hr⟩ | ⟨e,q,hr,hu,hc⟩
  · have hm := matching_iff user pass name word
    rw [run_answer] at hr
    dsimp only at hr
    by_cases hw : p.writes.headD true = true
    · rw [if_pos hw] at hr
      rw [hr]
      refine ⟨⟨fun h => ?_,?_⟩,?_,?_⟩
      · obtain ⟨rfl,rfl⟩ := hm.mp (Except.ok.inj h)
        exact ⟨hw,rest,hc⟩
      · rintro ⟨-,rest',hc'⟩
        rw [hm.mpr (carries_unique hc hc')]
      · intro ok q he
        obtain ⟨rfl,rfl⟩ : matching user pass name word = ok ∧ _ = q := by simpa using he
        exact ⟨name,word,hc,hm,rfl⟩
      · intro e q he
        cases he
    · rw [if_neg hw] at hr
      rw [hr]
      refine ⟨⟨fun h => (by cases h),fun h => absurd h.1 hw⟩,fun ok q he => (by cases he),?_⟩
      exact fun e q _ => Or.inr ⟨Bool.eq_false_iff.mpr hw,name,word,rest,hc⟩
  · rw [hr]
    refine ⟨⟨fun h => (by cases h),?_⟩,fun ok q he => (by cases he),?_⟩
    · rintro ⟨-,rest,h⟩
      exact absurd h (hc user pass rest)
    · intro e' q' he
      cases he
      exact Or.inl ⟨hu,hc⟩

def caller : Peer Opening := ⟨[1,1,97,1,98,5],[],[],[]⟩

theorem caller_accepted : (run (verifyUserpass [97] [98]) caller).1 = .ok true :=
  (userpass_exact [97] [98] caller).1.mpr ⟨rfl,[5],⟨1,1,rfl,rfl,rfl⟩,by decide⟩

end Hydr.Socks5
