import Mathlib

/-!
# Talking to a peer over a byte stream

Code that reads from a peer, writes to it and acts on its behalf, and gives up
at the first failure. The peer is the bytes it will send before it goes silent,
and the outcomes of the writes to it; what was done for it is recorded.
-/

set_option autoImplicit false

namespace Dialogue

structure Peer (ω : Type) where
  input : List UInt8
  output : List UInt8
  writes : List Bool
  effects : List ω

abbrev Talk (ε ω α : Type) : Type := ExceptT ε (StateM (Peer ω)) α

variable {ε ω α β : Type}

def run (x : Talk ε ω α) (p : Peer ω) : Except ε α × Peer ω := x p

def readExact (eof : ε) (n : ℕ) : Talk ε ω (List UInt8) := fun p =>
  if n ≤ p.input.length then (.ok (p.input.take n),{ p with input := p.input.drop n })
  else (.error eof,{ p with input := [] })

def readByte (eof : ε) : Talk ε ω UInt8 := fun p =>
  match p.input with
  | b::rest => (.ok b,{ p with input := rest })
  | [] => (.error eof,p)

def writeAll (broken : ε) (bytes : List UInt8) : Talk ε ω Unit := fun p =>
  if p.writes.headD true then
    (.ok (),{ p with output := p.output++bytes, writes := p.writes.tail })
  else (.error broken,{ p with writes := p.writes.tail })

def act (w : ω) : Talk ε ω Unit := fun p => (.ok (),{ p with effects := p.effects++[w] })

def attempt (x : Talk ε ω α) : Talk ε ω Unit := fun p => (.ok (),(run x p).2)

theorem run_bind (x : Talk ε ω α) (f : α → Talk ε ω β) (p : Peer ω) :
    run (x >>= f) p = match run x p with
      | (.ok a,q) => run (f a) q
      | (.error e,q) => (.error e,q) := by
  have hx : run (x >>= f) p =
      (ExceptT.bindCont f (run x p).1 : StateM (Peer ω) (Except ε β)) (run x p).2 := rfl
  rw [hx]
  rcases run x p with ⟨r,q⟩
  cases r <;> rfl

theorem run_bind_ok (x : Talk ε ω α) (f : α → Talk ε ω β) (p q : Peer ω) (b : β) :
    run (x >>= f) p = (.ok b,q) ↔ ∃ a m, run x p = (.ok a,m) ∧ run (f a) m = (.ok b,q) := by
  rw [run_bind]
  rcases run x p with ⟨r | a,m⟩
  · simp
  · simp

theorem run_pure_ok (a b : α) (p q : Peer ω) :
    run (pure a : Talk ε ω α) p = (.ok b,q) ↔ a = b ∧ p = q := by
  change ((Except.ok a : Except ε α),p) = _ ↔ _
  simp

theorem run_throw_ok (e : ε) (p q : Peer ω) (a : α) :
    ¬run (throw e : Talk ε ω α) p = (.ok a,q) := by
  change ¬((Except.error e : Except ε α),p) = _
  simp

/-- What a read took stood in front of what is left. -/
theorem run_readExact_ok (eof : ε) (n : ℕ) (p q : Peer ω) (bytes : List UInt8)
    (h : run (readExact eof n) p = (.ok bytes,q)) :
    p.input = bytes++q.input ∧ bytes.length = n := by
  simp only [run, readExact] at h
  split_ifs at h with hn
  · obtain ⟨rfl,rfl⟩ : p.input.take n = bytes ∧ { p with input := p.input.drop n } = q := by
      simpa using h
    exact ⟨(List.take_append_drop n p.input).symm,by simp [hn]⟩
  · simp at h

theorem run_readByte_ok (eof : ε) (p q : Peer ω) (b : UInt8)
    (h : run (readByte eof) p = (.ok b,q)) : p.input = b::q.input := by
  simp only [run, readByte] at h
  split at h
  · rename_i c rest hp
    obtain ⟨rfl,rfl⟩ : c = b ∧ { p with input := rest } = q := by simpa using h
    exact hp
  · simp at h

theorem run_writeAll_ok (broken : ε) (bytes : List UInt8) (p q : Peer ω)
    (h : run (writeAll broken bytes) p = (.ok (),q)) :
    q.input = p.input ∧ q.output = p.output++bytes := by
  simp only [run, writeAll] at h
  split_ifs at h
  · obtain rfl : { p with output := p.output++bytes, writes := p.writes.tail } = q := by
      simpa using h
    exact ⟨rfl,rfl⟩
  · simp at h

theorem run_readExact_of_le (eof : ε) (n : ℕ) (p : Peer ω) (h : n ≤ p.input.length) :
    run (readExact eof n) p = (.ok (p.input.take n),{ p with input := p.input.drop n }) := by
  simp only [run, readExact, if_pos h]

theorem run_readExact_of_lt (eof : ε) (n : ℕ) (p : Peer ω) (h : p.input.length < n) :
    run (readExact eof n) p = (.error eof,{ p with input := [] }) := by
  simp only [run, readExact, if_neg (Nat.not_le.mpr h)]

/-- A peer that sends enough bytes has those taken that were asked for. -/
theorem run_readExact_append (eof : ε) (n : ℕ) (bytes rest : List UInt8) (p : Peer ω)
    (h : bytes.length = n) :
    run (readExact eof n) { p with input := bytes++rest } =
      (.ok bytes,{ p with input := rest }) := by
  simp [run, readExact, ← h]

theorem run_readByte_cons (eof : ε) (b : UInt8) (rest : List UInt8) (p : Peer ω) :
    run (readByte eof) { p with input := b::rest } = (.ok b,{ p with input := rest }) := rfl

def Quiet (x : Talk ε ω α) : Prop := ∀ p, (run x p).2.effects = p.effects

theorem Quiet.bind {x : Talk ε ω α} {f : α → Talk ε ω β} (hx : Quiet x) (hf : ∀ a, Quiet (f a)) :
    Quiet (x >>= f) := by
  intro p
  have h := hx p
  rw [run_bind]
  rcases hr : run x p with ⟨r,q⟩
  rw [hr] at h
  cases r with
  | error e => exact h
  | ok a => exact (hf a q).trans h

theorem quiet_pure (a : α) : Quiet (pure a : Talk ε ω α) := fun _ => rfl

theorem quiet_throw (e : ε) : Quiet (throw e : Talk ε ω α) := fun _ => rfl

theorem quiet_readExact (eof : ε) (n : ℕ) : Quiet (readExact eof n : Talk ε ω _) := by
  intro p
  simp only [run, readExact]
  split_ifs <;> rfl

theorem quiet_readByte (eof : ε) : Quiet (readByte eof : Talk ε ω _) := by
  intro p
  simp only [run, readByte]
  split <;> rfl

theorem quiet_writeAll (broken : ε) (bytes : List UInt8) :
    Quiet (writeAll broken bytes : Talk ε ω _) := by
  intro p
  simp only [run, writeAll]
  split_ifs <;> rfl

end Dialogue
