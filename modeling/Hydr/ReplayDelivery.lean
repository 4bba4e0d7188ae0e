import Mathlib
import Hydr.Obfuscation
import Hydr.ReplayWindow

/-!
# An obfuscated channel that delivers as it likes

One obfuscator encrypts, another one with the same key opens the messages, in
any order and any number of times. A message uncovers its own place in the
sending order, so the receiver answers as its filter does for that place.
-/

set_option autoImplicit false

namespace Hydr.Obfuscator
open Mealy ReplayFilter

variable (b3 : Blake3)

def send (ob : Obfuscator) (m : Salt × Bytes) : Bytes × Obfuscator := ob.encrypt b3 m.1 m.2

def deliver (messages : List Bytes) (ob : Obfuscator) (i : ℕ) : DecryptOutcome × Obfuscator :=
  ob.decryptOutcome b3 (messages.getD i [])

def isOk : DecryptOutcome → Bool
  | .ok _ => true
  | _ => false

theorem after_send (ob : Obfuscator) (ms : List (Salt × Bytes)) :
    SameKey (after (send b3) ob ms) ob ∧
      (after (send b3) ob ms).sendSeq%2^64 = (ob.sendSeq+ms.length)%2^64 := by
  induction ms generalizing ob with
  | nil => exact ⟨⟨rfl,rfl⟩,rfl⟩
  | cons m ms ih =>
    obtain ⟨hk,hs⟩ := ih (send b3 ob m).2
    refine ⟨hk,hs.trans ?_⟩
    change ((ob.sendSeq+1)%2^64+ms.length)%2^64 = _
    rw [Nat.mod_add_mod, List.length_cons, Nat.add_right_comm, Nat.add_assoc]

/-- The message of an index is the one sealed with it. -/
theorem sent_message (key : Bytes) (ms : List (Salt × Bytes)) (i : ℕ) (hi : i < ms.length) :
    ∃ seq, seq%2^64 = i%2^64 ∧ (answers (send b3) (new b3 key) ms).getD i [] =
      (new b3 key).sealed b3 seq (ms.get ⟨i,hi⟩).1 (ms.get ⟨i,hi⟩).2 := by
  obtain ⟨hk,hs⟩ := after_send b3 (new b3 key) (ms.take i)
  rw [List.length_take_of_le hi.le] at hs
  refine ⟨_,hs.trans (by rw [new, Nat.zero_add]),?_⟩
  rw [List.getD_eq_getElem?_getD, answers_getElem?, List.getElem?_eq_getElem hi]
  exact sealed_congr hk _ _ _

section Receive

variable {b3} {key : Bytes} {ms : List (Salt × Bytes)} (h : ms.length ≤ 2^64)

structure Received (b3 : Blake3) (key : Bytes) (taken : List ℕ) (ob : Obfuscator) : Prop where
  sameKey : SameKey ob (new b3 key)
  tracks : Tracks 65536 taken ob.recv

theorem new_received : Received b3 key [] (new b3 key) :=
  ⟨⟨rfl,rfl⟩,new_tracks 65536⟩

include h

/-- A delivery is answered by the filter for the message's place. -/
theorem deliver_eq (ob : Obfuscator) (hk : SameKey ob (new b3 key)) (i : ℕ) (hi : i < ms.length) :
    deliver b3 (answers (send b3) (new b3 key) ms) ob i =
      if (ob.recv.observe i).1 then
        (.ok (ms.get ⟨i,hi⟩).2,{ ob with recv := (ob.recv.observe i).2 })
      else (.replay,ob) := by
  obtain ⟨seq,hseq,hm⟩ := sent_message b3 key ms i hi
  rw [← sealed_congr hk] at hm
  have hv := sealed_verifies b3 ob seq (ms.get ⟨i,hi⟩).1 (ms.get ⟨i,hi⟩).2
  have hq : ob.seqOf b3 (ob.sealed b3 seq (ms.get ⟨i,hi⟩).1 (ms.get ⟨i,hi⟩).2) = i := by
    rw [sealed_seq, hseq, Nat.mod_eq_of_lt (hi.trans_le h)]
  rw [deliver, hm]
  by_cases hs : ob.recv.Stale i
  · rw [decrypt_stale b3 ob _ hv (by rwa [hq]), observe_stale ob.recv i hs]
    rfl
  · rw [decrypt_fresh b3 ob _ hv (by rwa [hq]), sealed_payload, hq, observe_fresh ob.recv i hs]
    rfl

theorem Received.deliver {taken : List ℕ} {ob : Obfuscator} (hr : Received b3 key taken ob) (i : ℕ)
    (hi : i < ms.length) :
    Received b3 key
      (if isOk (Obfuscator.deliver b3 (answers (send b3) (new b3 key) ms) ob i).1 then taken++[i]
        else taken)
      (Obfuscator.deliver b3 (answers (send b3) (new b3 key) ms) ob i).2 := by
  have ht := hr.tracks.observe i
  rw [deliver_eq h ob hr.sameKey i hi]
  cases ho : (ob.recv.observe i).1 with
  | true =>
    rw [ho] at ht
    exact ⟨hr.sameKey,ht⟩
  | false => exact hr

theorem Received.answer {taken : List ℕ} {ob : Obfuscator} (hr : Received b3 key taken ob) (i : ℕ)
    (hi : i < ms.length) :
    (Obfuscator.deliver b3 (answers (send b3) (new b3 key) ms) ob i).1 =
      if Window.Admits (edge 65536) taken i then .ok (ms.get ⟨i,hi⟩).2 else .replay := by
  rw [deliver_eq h ob hr.sameKey i hi, hr.tracks.observe_eq]
  by_cases ha : Window.Admits (edge 65536) taken i
  · rw [decide_eq_true ha, if_pos rfl, if_pos ha]
  · rw [decide_eq_false ha, if_neg ha]
    rfl

omit h in
def channel (b3 : Blake3) (key : Bytes) (ms : List (Salt × Bytes)) (ob : Obfuscator)
    (i : Fin ms.length) : DecryptOutcome × Obfuscator :=
  deliver b3 (answers (send b3) (new b3 key) ms) ob i

def opened (b3 : Blake3) (key : Bytes) (ms : List (Salt × Bytes)) (ds : List (Fin ms.length)) :
    List (Fin ms.length) :=
  taken (channel b3 key ms) isOk (new b3 key) ds

theorem after_received (ds : List (Fin ms.length)) :
    Received b3 key ((opened b3 key ms ds).map Fin.val) (after (channel b3 key ms) (new b3 key) ds) := by
  have hp := after_preserves (channel b3 key ms)
    (I := fun l ob => Received b3 key (l.map Fin.val) ob) isOk ?_ (new b3 key) ds [] new_received
  · rwa [List.nil_append] at hp
  · intro l ob i hr
    have hd := hr.deliver h i i.isLt
    unfold channel
    split_ifs at hd ⊢
    · rwa [List.map_append]
    · exact hd

omit h in
/-- The edge says that the largest index taken is at most a window ahead. -/
theorem admits_iff (l : List (Fin ms.length)) (i : Fin ms.length) :
    Window.Admits (edge 65536) (l.map Fin.val) i ↔ i ∉ l ∧ ∀ j ∈ l, j.val ≤ i.val+65536 := by
  rw [Window.Admits, List.mem_map_of_injective Fin.val_injective, edge, Nat.sub_le_iff_le_add,
    Window.largest_le_iff, List.forall_mem_map]

theorem in_order (l ds : List (Fin ms.length)) (ob : Obfuscator)
    (hr : Received b3 key (l.map Fin.val) ob) (hl : ∀ j ∈ l, ∀ i ∈ ds, j < i)
    (hd : ds.Pairwise (· < ·)) :
    answers (channel b3 key ms) ob ds = ds.map fun i => .ok (ms.get i).2 := by
  induction ds generalizing l ob with
  | nil => rfl
  | cons i ds ih =>
    rw [List.pairwise_cons] at hd
    have hi : Window.Admits (edge 65536) (l.map Fin.val) i := by
      apply Window.admits_of_above _ fun _ => Nat.sub_le ..
      exact List.forall_mem_map.mpr fun j hj => hl j hj i (List.mem_cons_self ..)
    have ha : (channel b3 key ms ob i).1 = .ok (ms.get i).2 :=
      (hr.answer h i i.isLt).trans (if_pos hi)
    have hn : Received b3 key ((l++[i]).map Fin.val) (channel b3 key ms ob i).2 := by
      have hn := hr.deliver h i i.isLt
      rw [← channel, ha, isOk, if_pos rfl] at hn
      rwa [List.map_append]
    rw [answers, ha, List.map_cons, ih (l++[i]) _ hn (fun j hj k hk => ?_) hd.2]
    rcases List.mem_append.mp hj with hj | hj
    · exact hl j hj k (List.mem_cons_of_mem _ hk)
    · obtain rfl := List.mem_singleton.mp hj
      exact hd.1 k hk

end Receive

/-- After any deliveries, the message of an index is opened to its payload if it
was not opened before and no index opened is more than a window ahead of it, and
is answered as a replay otherwise; so messages delivered in order are all opened,
whichever of them are lost. -/
theorem delivery_spec (b3 : Blake3) (key : Bytes) (ms : List (Salt × Bytes)) (h : ms.length < 2^64)
    (ds : List (Fin ms.length)) :
    (∀ i, (channel b3 key ms (after (channel b3 key ms) (new b3 key) ds) i).1 =
      if i ∉ opened b3 key ms ds ∧ ∀ j ∈ opened b3 key ms ds, j.val ≤ i.val+65536 then
        .ok (ms.get i).2
      else .replay) ∧
    (ds.Pairwise (· < ·) →
      answers (channel b3 key ms) (new b3 key) ds = ds.map fun i => .ok (ms.get i).2) := by
  constructor
  · intro i
    rw [channel, (after_received h.le ds).answer h.le i i.isLt]
    simp only [admits_iff]
  · exact in_order h.le [] ds _ new_received fun _ hj => absurd hj List.not_mem_nil

/-- Two messages, delivered in order. -/
theorem two_delivered :
    answers (channel copyHash [1] [(.replicate saltLen 0,[7]),(.replicate saltLen 1,[8])])
      (new copyHash [1]) [0,1] = [.ok [7],.ok [8]] :=
  (delivery_spec copyHash [1] _ (by decide) [0,1]).2 (by decide)

end Hydr.Obfuscator
