import Mathlib
import Hydr.Validation
import Hydr.Library.Recent

/-!
# What the nonce cache remembers

The record of the insertions that were accepted says what the cache is for. The
cache keeps the part of the record that is recent: the last entries up to its
capacity, less those whose lifetime is over. Set and queue hold the same nonces
throughout.
-/

set_option autoImplicit false

namespace Hydr.NonceCache
open Recent

abbrev Entry := Bytes × ℕ

def keys (order : List Entry) : List Bytes := order.map Prod.fst

def fresh (now : ℕ) (e : Entry) : Bool := now-e.2 < replayTtl

def Sorted (order : List Entry) : Prop := order.Pairwise fun a b => a.2 ≤ b.2

structure InStep (c : NonceCache) : Prop where
  set : c.set = (keys c.order).toFinset
  nodup : (keys c.order).Nodup
  sorted : Sorted c.order
  bound : c.order.length ≤ c.cap

theorem upward_fresh {order : List Entry} (h : Sorted order) (now : ℕ) :
    Upward (fresh now) order := by
  apply List.Pairwise.imp _ h
  intro a b hab ha
  simp only [fresh, decide_eq_true_eq] at ha ⊢
  omega

theorem keys_sublist {a b : List Entry} (h : a.Sublist b) : (keys a).Sublist (keys b) := h.map _

theorem erase_front (e : Entry) (order : List Entry) (h : (keys (e::order)).Nodup) :
    (keys (e::order)).toFinset.erase e.1 = (keys order).toFinset := by
  have hn : e.1 ∉ keys order := (List.nodup_cons.mp h).1
  have hc : (keys (e::order)).toFinset = Insert.insert e.1 (keys order).toFinset :=
    List.toFinset_cons
  rw [hc, Finset.erase_insert (mt List.mem_toFinset.mp hn)]

theorem nodup_concat (order : List Entry) (e : Entry) (h : (keys order).Nodup)
    (he : e.1 ∉ keys order) : (keys (order++[e])).Nodup := by
  rw [keys, List.map_append]
  exact h.append (List.nodup_singleton _) (List.disjoint_singleton.mpr he)

theorem dropExpired_eq (now : ℕ) (order : List Entry) (hn : (keys order).Nodup)
    (hs : Sorted order) :
    dropExpired now order (keys order).toFinset =
      ((keys (order.filter (fresh now))).toFinset,order.filter (fresh now)) := by
  induction order with
  | nil => rfl
  | cons e order ih =>
    by_cases he : now-e.2 < replayTtl
    · have hf : fresh now e = true := by simpa [fresh] using he
      rw [dropExpired, if_pos he, filter_eq_self_of_head (upward_fresh hs now) hf]
    · have hf : ¬fresh now e = true := by simpa [fresh] using he
      rw [dropExpired, if_neg he, erase_front e order hn, List.filter_cons_of_neg hf,
        ih (List.nodup_cons.mp hn).2 (List.pairwise_cons.mp hs).2]

theorem dropOver_eq (cap : ℕ) (order : List Entry) (hn : (keys order).Nodup) :
    dropOver cap order (keys order).toFinset =
      ((keys (order.rtake cap)).toFinset,order.rtake cap) := by
  induction order with
  | nil => simp [dropOver]
  | cons e order ih =>
    by_cases he : cap < (e::order).length
    · rw [dropOver, if_pos he, erase_front e order hn, ih (List.nodup_cons.mp hn).2,
        rtake_cons (by simpa using Nat.le_of_lt_succ he)]
    · rw [dropOver, if_neg he, rtake_of_length_le (not_lt.mp he)]

theorem evictExpired_eq (c : NonceCache) (h : c.InStep) (now : ℕ) :
    c.evictExpired now = { c with
      set := (keys (c.order.filter (fresh now))).toFinset
      order := c.order.filter (fresh now) } := by
  unfold evictExpired
  rw [h.set, dropExpired_eq now c.order h.nodup h.sorted]

theorem evictExpired_inStep (c : NonceCache) (h : c.InStep) (now : ℕ) :
    (c.evictExpired now).InStep := by
  have hl : (c.order.filter (fresh now)).Sublist c.order := List.filter_sublist
  rw [evictExpired_eq c h]
  exact ⟨rfl,h.nodup.sublist (keys_sublist hl),h.sorted.sublist hl,hl.length_le.trans h.bound⟩

theorem seen_iff (c : NonceCache) (h : c.InStep) (nonce : Bytes) (now : ℕ) :
    c.Seen nonce now ↔ ∃ e ∈ c.order.filter (fresh now), e.1 = nonce := by
  rw [Seen, evictExpired_eq c h]
  simp only [keys, List.mem_toFinset, List.mem_map]

theorem insert_seen (c : NonceCache) (nonce : Bytes) (now : ℕ) (hs : c.Seen nonce now) :
    c.insert nonce now = (false,c.evictExpired now) := if_pos hs

def pushed (c : NonceCache) (nonce : Bytes) (now : ℕ) : List Entry :=
  (c.order.filter (fresh now)++[(nonce,now)]).rtake c.cap

theorem pushed_nodup (c : NonceCache) (h : c.InStep) (nonce : Bytes) (now : ℕ)
    (hs : ¬c.Seen nonce now) : (keys (c.order.filter (fresh now)++[(nonce,now)])).Nodup := by
  apply nodup_concat _ _ (h.nodup.sublist (keys_sublist List.filter_sublist))
  intro hm
  exact hs ((seen_iff c h nonce now).mpr (List.mem_map.mp hm))

theorem insert_unseen (c : NonceCache) (h : c.InStep) (nonce : Bytes) (now : ℕ)
    (hs : ¬c.Seen nonce now) :
    c.insert nonce now =
      (true,{ c with
        set := (keys (c.pushed nonce now)).toFinset
        order := c.pushed nonce now }) := by
  have he := evictExpired_eq c h now
  have hk : Insert.insert nonce (keys (c.order.filter (fresh now))).toFinset =
      (keys (c.order.filter (fresh now)++[(nonce,now)])).toFinset := by
    ext k
    simp [keys]
  unfold Seen at hs
  unfold insert
  rw [he] at hs ⊢
  dsimp only at hs ⊢
  rw [if_neg hs, hk, dropOver_eq _ _ (pushed_nodup c h nonce now ?_)]
  · rfl
  · rwa [Seen, he]

theorem insert_inStep (c : NonceCache) (h : c.InStep) (nonce : Bytes) (now : ℕ)
    (hl : ∀ e ∈ c.order, e.2 ≤ now) : (c.insert nonce now).2.InStep := by
  by_cases hs : c.Seen nonce now
  · rw [insert_seen c nonce now hs]
    exact evictExpired_inStep c h now
  · rw [insert_unseen c h nonce now hs]
    have hf : (c.order.filter (fresh now)).Sublist c.order := List.filter_sublist
    have hr := rtake_sublist (c.order.filter (fresh now)++[(nonce,now)]) c.cap
    have ho : Sorted (c.order.filter (fresh now)++[(nonce,now)]) := by
      refine List.pairwise_append.mpr ⟨h.sorted.sublist hf,List.pairwise_singleton _ _,?_⟩
      intro e he x hx
      rw [List.mem_singleton.mp hx]
      exact hl e (hf.subset he)
    exact ⟨rfl,(pushed_nodup c h nonce now hs).sublist (keys_sublist hr),ho.sublist hr,
      (length_rtake _ _).trans_le (min_le_left _ _)⟩

def record (h : NonceCache × List Entry) (call : Entry) : NonceCache × List Entry :=
  let (accepted,c) := h.1.insert call.1 call.2
  (c,if accepted then h.2++[call] else h.2)

def history (cap : ℕ) (calls : List Entry) : NonceCache × List Entry :=
  calls.foldl record (new cap,[])

structure Remembers (cap last : ℕ) (h : NonceCache × List Entry) : Prop where
  capacity : h.1.cap = cap
  inStep : h.1.InStep
  sorted : Sorted h.2
  past : ∀ e ∈ h.2, e.2 ≤ last
  order : h.1.order = (h.2.rtake cap).filter (fresh last)

theorem new_remembers (cap last : ℕ) : Remembers cap last (new cap,[]) where
  capacity := rfl
  inStep := ⟨rfl,List.nodup_nil,List.Pairwise.nil,Nat.zero_le _⟩
  sorted := List.Pairwise.nil
  past := by simp
  order := by simp [new]

/-- Later, what is still fresh is the recent part for the later time. -/
theorem Remembers.filter {cap last : ℕ} {h : NonceCache × List Entry} (hr : Remembers cap last h)
    {now : ℕ} (hn : last ≤ now) :
    h.1.order.filter (fresh now) = (h.2.rtake cap).filter (fresh now) := by
  rw [hr.order, List.filter_filter]
  congr 1
  ext e
  rw [Bool.eq_iff_iff]
  simp only [fresh, Bool.and_eq_true, decide_eq_true_eq]
  omega

theorem record_remembers {cap last : ℕ} {h : NonceCache × List Entry} (hr : Remembers cap last h)
    (call : Entry) (hn : last ≤ call.2) : Remembers cap call.2 (record h call) := by
  have hp : ∀ e ∈ h.1.order, e.2 ≤ call.2 := by
    intro e he
    rw [hr.order] at he
    exact (hr.past e ((rtake_sublist _ _).subset (List.mem_of_mem_filter he))).trans hn
  have hi := insert_inStep h.1 hr.inStep call.1 call.2 hp
  have hb : ∀ e ∈ h.2, e.2 ≤ call.2 := fun e he => (hr.past e he).trans hn
  unfold record
  by_cases hs : h.1.Seen call.1 call.2
  · rw [insert_seen _ _ _ hs] at hi ⊢
    rw [evictExpired_eq h.1 hr.inStep] at hi ⊢
    exact ⟨hr.capacity,hi,hr.sorted,hb,hr.filter hn⟩
  · rw [insert_unseen _ hr.inStep _ _ hs] at hi ⊢
    refine ⟨hr.capacity,hi,?_,?_,?_⟩
    · refine List.pairwise_append.mpr ⟨hr.sorted,List.pairwise_singleton _ _,?_⟩
      intro e he x hx
      rw [List.mem_singleton.mp hx]
      exact hb e he
    · intro e he
      rcases List.mem_append.mp he with he | he
      · exact hb e he
      · rw [List.mem_singleton.mp he]
    · have hf : fresh call.2 call = true := by simp [fresh, replayTtl]
      show (h.1.order.filter (fresh call.2)++[call]).rtake h.1.cap = _
      rw [hr.filter hn, hr.capacity]
      exact rtake_filter_concat (upward_fresh hr.sorted call.2) hf cap

theorem history_remembers (cap : ℕ) (calls : List Entry) (hs : Sorted calls) :
    ∃ last, (∀ now, (∀ e ∈ calls, e.2 ≤ now) → last ≤ now) ∧
      Remembers cap last (history cap calls) := by
  induction calls using List.reverseRecOn with
  | nil => exact ⟨0,fun _ _ => Nat.zero_le _,new_remembers cap 0⟩
  | append_singleton calls call ih =>
    obtain ⟨hs,-,hc⟩ := List.pairwise_append.mp hs
    obtain ⟨last,hl,hr⟩ := ih hs
    have hn : last ≤ call.2 := hl call.2 fun e he => hc e he call (List.mem_singleton_self call)
    refine ⟨call.2,fun now h => h call (by simp),?_⟩
    rw [history, List.foldl_append]
    exact record_remembers hr call hn

theorem insert_refuses_iff (cap : ℕ) (calls : List Entry) (nonce : Bytes) (now : ℕ)
    (hs : Sorted (calls++[(nonce,now)])) :
    ((history cap calls).1.insert nonce now).1 = false ↔
      ∃ before t after, (history cap calls).2 = before++(nonce,t)::after ∧ nonce ∉ keys after ∧
        now-t < replayTtl ∧ after.length < cap := by
  obtain ⟨hs,-,hc⟩ := List.pairwise_append.mp hs
  obtain ⟨last,hl,hr⟩ := history_remembers cap calls hs
  have hn : last ≤ now := hl now fun e he => hc e he (nonce,now) (List.mem_singleton_self _)
  have hf : ((history cap calls).1.insert nonce now).1 = false ↔
      (history cap calls).1.Seen nonce now := by
    rw [← not_iff_not, Bool.not_eq_false]
    exact insert_accepts ..
  rw [hf, seen_iff _ hr.inStep, hr.filter hn, mem_recent_iff (upward_fresh hr.sorted now)]
  constructor
  · rintro ⟨before,e,after,he,hk,ha,hp,hl⟩
    refine ⟨before,e.2,after,by rw [he, ← hk],?_,by simpa [fresh] using hp,hl⟩
    intro hm
    obtain ⟨b,hb,hbk⟩ := List.mem_map.mp hm
    exact ha b hb hbk
  · rintro ⟨before,t,after,he,ha,hp,hl⟩
    refine ⟨before,(nonce,t),after,he,rfl,?_,by simpa [fresh] using hp,hl⟩
    intro b hb hk
    exact ha (List.mem_map.mpr ⟨b,hb,hk⟩)

/-- After calls at times that never go back, a nonce is refused if and only if
its last acceptance is within the lifetime and among the last `cap`; and every
call leaves the set and the queue in step. -/
theorem insert_meaning (cap : ℕ) (calls : List Entry) (nonce : Bytes) (now : ℕ)
    (hs : Sorted (calls++[(nonce,now)])) :
    (((history cap calls).1.insert nonce now).1 = false ↔
      ∃ before t after, (history cap calls).2 = before++(nonce,t)::after ∧ nonce ∉ keys after ∧
        now-t < replayTtl ∧ after.length < cap) ∧
    ((history cap calls).1.insert nonce now).2.InStep ∧
    ((history cap calls).1.insert nonce now).2.cap = cap := by
  obtain ⟨last,-,hr⟩ := history_remembers cap (calls++[(nonce,now)]) hs
  rw [history, List.foldl_append] at hr
  exact ⟨insert_refuses_iff cap calls nonce now hs,hr.inStep,hr.capacity⟩

theorem repeated_nonce_refused : ((history 2 [([1],0)]).1.insert [1] 5).1 = false :=
  (insert_meaning 2 [([1],0)] [1] 5 (by simp [Sorted])).1.mpr
    ⟨[],0,[],by decide,by decide,by decide,by decide⟩

end Hydr.NonceCache
