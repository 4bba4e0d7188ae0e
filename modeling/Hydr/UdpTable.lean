import Mathlib
import Hydr.Library.Table
import Hydr.UdpIsolation

/-!
# The session table of an exit node

Between two locked sections the table, the counters per address, the gauge and
the owners agree, and the caps hold. Each section either opens one session,
refreshes one, or removes some; what it does to the count of an address and to
the number of sessions is the same.
-/

set_option autoImplicit false

namespace Hydr.Udp
open Transition Address

def UdpManager.owned (m : UdpManager) (a : IpAddr) : ℕ :=
  m.sessions.entries.countP fun e => e.2.owner = a

structure Tabled (maxSessions maxPerIp : ℕ) (m : UdpManager) : Prop where
  maxSessions_eq : m.maxSessions = maxSessions
  maxPerIp_eq : m.maxPerIp = maxPerIp
  owner : ∀ key ses, m.sessions.lookup key = some ses → ses.owner = key.1
  counts : ∀ a, m.perIp.lookup a = if m.owned a = 0 then none else some (m.owned a)
  total : m.sessions.entries.length ≤ maxSessions
  each : ∀ a, m.owned a ≤ maxPerIp
  gauge : m.sessionsCurrent = m.sessions.entries.length

theorem decrementPerIp_lookup (perIp : AList (fun _ : IpAddr => ℕ)) (ip a : IpAddr) (n : ℕ)
    (h : perIp.lookup ip = some n) : (decrementPerIp perIp ip).lookup a =
      if a = ip then if n-1 = 0 then none else some (n-1) else perIp.lookup a := by
  unfold decrementPerIp
  simp only [h]
  split_ifs with hn ha ha
  · rw [ha, AList.lookup_erase]
  · exact AList.lookup_erase_ne ha
  · rw [ha, AList.lookup_insert]
  · exact AList.lookup_insert_ne ha

namespace Tabled

variable {maxSessions maxPerIp : ℕ} {m : UdpManager} (h : Tabled maxSessions maxPerIp m)
include h

theorem counted (a : IpAddr) : (m.perIp.lookup a).getD 0 = m.owned a := by
  rw [h.counts a]
  split_ifs with h0
  · exact h0.symm
  · rfl

theorem refresh (key : SessionKey) (ses : UdpSession) (now : ℕ)
    (hs : m.sessions.lookup key = some ses) :
    Tabled maxSessions maxPerIp
      { m with sessions := m.sessions.insert key { ses with lastActive := now } } := by
  have ho : ∀ a, (m.sessions.insert key { ses with lastActive := now }).entries.countP
      (fun e => e.2.owner = a) = m.owned a := fun a =>
    Table.countP_insert_same _ m.sessions key ses { ses with lastActive := now } hs rfl
  have hl := Table.length_insert_same m.sessions key ses { ses with lastActive := now } hs
  refine ⟨h.maxSessions_eq,h.maxPerIp_eq,fun k s hk => ?_,fun a => ?_,?_,fun a => ?_,?_⟩
  · rcases Table.lookup_insert_cases hk with ⟨rfl,rfl⟩ | ⟨-,hk⟩
    · exact h.owner k ses hs
    · exact h.owner k s hk
  · simp only [UdpManager.owned, ho]
    exact h.counts a
  · exact hl.trans_le h.total
  · exact (ho a).trans_le (h.each a)
  · exact h.gauge.trans hl.symm

theorem create (ip : IpAddr) (sid : UInt32) (now socket : ℕ) (hm : maxSessions < 2^64)
    (hs : m.sessions.lookup (ip,sid) = none) (ht : m.sessions.entries.length < m.maxSessions)
    (hp : m.owned ip < m.maxPerIp) :
    Tabled maxSessions maxPerIp { m with
      sessions := m.sessions.insert (ip,sid) ⟨socket,now,ip⟩
      perIp := m.perIp.insert ip ((m.perIp.lookup ip).getD 0+1)
      sessionsCurrent := (m.sessionsCurrent+1)%2^64 } := by
  have ho : ∀ a, (m.sessions.insert (ip,sid) ⟨socket,now,ip⟩).entries.countP
      (fun e => e.2.owner = a) = m.owned a+if ip = a then 1 else 0 := by
    intro a
    rw [Table.countP_insert_new _ m.sessions _ _ hs]
    simp [UdpManager.owned]
  have hl := Table.length_insert_new m.sessions (ip,sid) ⟨socket,now,ip⟩ hs
  have hms := h.maxSessions_eq
  have hmp := h.maxPerIp_eq
  refine ⟨hms,hmp,fun k s hk => ?_,fun a => ?_,?_,fun a => ?_,?_⟩
  · rcases Table.lookup_insert_cases hk with ⟨rfl,rfl⟩ | ⟨-,hk⟩
    · rfl
    · exact h.owner k s hk
  · simp only [UdpManager.owned, ho, h.counted]
    rcases eq_or_ne a ip with rfl | hne
    · simp
    · simp only [AList.lookup_insert_ne hne, if_neg hne.symm, Nat.add_zero]
      exact h.counts a
  · simp only [hl]
    omega
  · have ha := h.each a
    simp only [UdpManager.owned, ho]
    simp only [UdpManager.owned] at ha hp
    split_ifs with hi
    · subst hi
      omega
    · omega
  · simp only [hl, h.gauge]
    exact Nat.mod_eq_of_lt (by omega)

theorem removeSession (key : SessionKey) (hm : maxSessions < 2^64) :
    Tabled maxSessions maxPerIp (m.removeSession key).2 ∧
      (m.removeSession key).2.sessionsCurrent+(m.removeSession key).1.length =
        m.sessionsCurrent := by
  unfold UdpManager.removeSession
  cases hs : m.sessions.lookup key with
  | none => exact ⟨h,rfl⟩
  | some s =>
    have hl := Table.length_erase m.sessions key s hs
    have hc : ∀ a, (m.sessions.erase key).entries.countP (fun e => e.2.owner = a)+
        (if s.owner = a then 1 else 0) = m.owned a := by
      intro a
      simpa [UdpManager.owned] using
        Table.countP_erase (fun e => decide (e.2.owner = a)) m.sessions key s hs
    have ht := h.total
    have hg : (m.sessionsCurrent+2^64-1)%2^64 = (m.sessions.erase key).entries.length := by
      rw [h.gauge, ← hl, show ∀ n, n+1+2^64-1 = n+2^64 by omega, Nat.add_mod_right]
      exact Nat.mod_eq_of_lt (by omega)
    have hp : m.perIp.lookup s.owner = some (m.owned s.owner) := by
      have := hc s.owner
      rw [if_pos rfl] at this
      rw [h.counts, if_neg (by omega)]
    refine ⟨⟨h.maxSessions_eq,h.maxPerIp_eq,fun k t hk => ?_,fun a => ?_,?_,fun a => ?_,hg⟩,?_⟩
    · exact h.owner k t (Table.lookup_of_erase hk)
    · have ha := hc a
      simp only [UdpManager.owned, decrementPerIp_lookup _ _ a _ hp, h.counts a]
      simp only [UdpManager.owned] at ha
      rcases eq_or_ne a s.owner with rfl | hne
      · rw [if_pos rfl] at ha
        simp only [if_true, ← ha, Nat.add_sub_cancel]
        rfl
      · rw [if_neg hne.symm, Nat.add_zero] at ha
        simp only [if_neg hne, ha]
        rfl
    · simp only
      omega
    · have ha := hc a
      have he := h.each a
      simp only [UdpManager.owned] at ha he ⊢
      omega
    · change (m.sessionsCurrent+2^64-1)%2^64+1 = m.sessionsCurrent
      rw [hg, h.gauge, hl]

theorem removeAll (keys : List SessionKey) (hm : maxSessions < 2^64) :
    Tabled maxSessions maxPerIp (UdpManager.removeAll keys m).2 ∧
      (UdpManager.removeAll keys m).2.sessionsCurrent+(UdpManager.removeAll keys m).1.length =
        m.sessionsCurrent := by
  induction keys generalizing m with
  | nil => exact ⟨h,rfl⟩
  | cons key keys ih =>
    obtain ⟨hr,hg⟩ := h.removeSession key hm
    obtain ⟨ha,hs⟩ := ih hr
    refine ⟨ha,?_⟩
    simp only [UdpManager.removeAll, List.length_append]
    omega

theorem acquire (ip : IpAddr) (sid : UInt32) (now : ℕ) (bound : Option ℕ)
    (hm : maxSessions < 2^64) :
    Tabled maxSessions maxPerIp (m.acquire ip sid now bound).2 := by
  unfold UdpManager.acquire
  cases hs : m.sessions.lookup (ip,sid) with
  | some ses => exact h.refresh (ip,sid) ses now hs
  | none =>
    dsimp only
    split_ifs with ht hp
    · exact h
    · exact h
    · cases bound with
      | none => exact h
      | some socket =>
        rw [h.counted] at hp
        exact h.create ip sid now socket hm hs (by omega) (by omega)

end Tabled

theorem withLimits_tabled (maxSessions maxPerIp : ℕ) :
    Tabled (UdpManager.withLimits maxSessions maxPerIp).maxSessions
      (UdpManager.withLimits maxSessions maxPerIp).maxPerIp
      (.withLimits maxSessions maxPerIp) :=
  ⟨rfl,rfl,fun _ _ h => (by cases h),fun _ => rfl,Nat.zero_le _,fun _ => Nat.zero_le _,rfl⟩

namespace UdpManager

/-- A call that finds no session leaves the others; one that finds its session
keeps the socket and the owner. -/
theorem acquire_keeps (m : UdpManager) (ip : IpAddr) (sid : UInt32) (now : ℕ) (bound : Option ℕ)
    (key : SessionKey) (ses : UdpSession) (hs : m.sessions.lookup key = some ses) :
    ∃ t, (m.acquire ip sid now bound).2.sessions.lookup key = some t ∧ t.socket = ses.socket ∧
      t.owner = ses.owner := by
  rcases acquire_cases m ip sid now bound with ⟨s,hl,ha⟩ | ⟨socket,hl,-,ha⟩ | ⟨e,-,ha⟩ <;> rw [ha]
  · rcases eq_or_ne key (ip,sid) with rfl | hne
    · obtain rfl := Option.some.inj (hl.symm.trans hs)
      exact ⟨_,AList.lookup_insert _,rfl,rfl⟩
    · exact ⟨ses,(AList.lookup_insert_ne hne).trans hs,rfl,rfl⟩
  · have hne : key ≠ (ip,sid) := by
      rintro rfl
      rw [hl] at hs
      cases hs
    exact ⟨ses,(AList.lookup_insert_ne hne).trans hs,rfl,rfl⟩
  · exact ⟨ses,hs,rfl,rfl⟩

theorem lookup_removeSession (m : UdpManager) (key k : SessionKey) :
    (m.removeSession key).2.sessions.lookup k =
      if k = key then none else m.sessions.lookup k := by
  unfold removeSession
  cases hs : m.sessions.lookup key with
  | none =>
    split_ifs with hk
    · exact hk ▸ hs
    · rfl
  | some s =>
    split_ifs with hk
    · rw [hk, AList.lookup_erase]
    · exact AList.lookup_erase_ne hk

theorem lookup_removeAll (keys : List SessionKey) (m : UdpManager) (k : SessionKey) :
    (removeAll keys m).2.sessions.lookup k =
      if k ∈ keys then none else m.sessions.lookup k := by
  induction keys generalizing m with
  | nil => simp [removeAll]
  | cons key keys ih =>
    simp only [removeAll, ih, lookup_removeSession, List.mem_cons]
    split_ifs <;> simp_all

theorem mem_stale (m : UdpManager) (now : ℕ) (key : SessionKey) :
    key ∈ m.stale now ↔
      ∃ ses, m.sessions.lookup key = some ses ∧ sessionTimeout < now-ses.lastActive := by
  simp only [stale, List.mem_map, List.mem_filter, decide_eq_true_eq]
  constructor
  · rintro ⟨⟨k,ses⟩,⟨he,hs⟩,rfl⟩
    exact ⟨ses,AList.mem_lookup_iff.mpr he,hs⟩
  · rintro ⟨ses,hl,hs⟩
    exact ⟨⟨key,ses⟩,⟨AList.mem_lookup_iff.mp hl,hs⟩,rfl⟩

/-- A sweep removes the sessions idle for longer than the timeout, and no other. -/
theorem lookup_sweep (m : UdpManager) (now : ℕ) (key : SessionKey) :
    (m.sweep now).2.sessions.lookup key =
      (m.sessions.lookup key).filter fun ses => now-ses.lastActive ≤ sessionTimeout := by
  rw [sweep, lookup_removeAll]
  cases hl : m.sessions.lookup key with
  | none => simp
  | some ses =>
    have hk := m.mem_stale now key
    simp only [hl, Option.some.injEq, exists_eq_left'] at hk
    simp only [hk, Option.filter_some, decide_eq_true_eq]
    split_ifs <;> first | rfl | omega

end UdpManager

variable {T : Type}

theorem remove_manager (s : State T) (c : ℕ) (call : Call T) :
    (s.remove c call).manager = (s.manager.removeSession call.key).2 :=
  (notify_frame _ _).2.1

theorem sweep_manager (s : State T) (now : ℕ) : (s.sweep now).manager = (s.manager.sweep now).2 :=
  (notify_frame _ _).2.1

theorem step_tabled (ip : T → IpAddr) (maxSessions maxPerIp : ℕ) (hm : maxSessions < 2^64)
    (s : State T) (a : Act T) (t : State T) (h : Tabled maxSessions maxPerIp s.manager)
    (hst : step ip s a = some t) : Tabled maxSessions maxPerIp t.manager := by
  cases moves_of_step ip s t a hst with
  | forward c u dg now bind =>
    have ha := h.acquire (ip u) dg.sessionId now (if bind then some s.nextSocket else none) hm
    unfold State.forward
    dsimp only
    split
    · rename_i e m he
      rwa [he] at ha
    · rename_i socket created m he
      rw [he] at ha
      split_ifs <;> exact ha
  | resolve c l call =>
    obtain ⟨r,he | ⟨phase,he⟩⟩ := resolve_quiet s c call l <;> rw [he] <;> exact h
  | sendTo c ok call target => cases ok <;> exact h
  | remove c call =>
    rw [remove_manager]
    exact (h.removeSession call.key hm).1
  | sweep now =>
    rw [sweep_manager]
    exact (h.removeAll _ hm).1
  | receive | stop | socketError => exact h

/-- Whatever the limits and the interleaving: the table agrees with its counters,
the caps hold, no decrement of the gauge wraps around, no call replaces a
session, and a sweep removes exactly the sessions that are too old. -/
theorem session_table_invariant (ip : T → IpAddr) (maxSessions maxPerIp : UInt64)
    (as : List (Act T)) (s : State T)
    (hr : run (step ip) as (.init maxSessions.toNat maxPerIp.toNat) = some s) :
    Tabled (UdpManager.withLimits maxSessions.toNat maxPerIp.toNat).maxSessions
        (UdpManager.withLimits maxSessions.toNat maxPerIp.toNat).maxPerIp s.manager ∧
      (∀ key, (s.manager.removeSession key).2.sessionsCurrent+
        (s.manager.removeSession key).1.length = s.manager.sessionsCurrent) ∧
      (∀ now, (s.manager.sweep now).2.sessionsCurrent+(s.manager.sweep now).1.length =
        s.manager.sessionsCurrent) ∧
      (∀ (upstream : T) sid now bound key ses, s.manager.sessions.lookup key = some ses →
        ∃ t, (s.manager.acquire (ip upstream) sid now bound).2.sessions.lookup key = some t ∧
          t.socket = ses.socket ∧ t.owner = ses.owner) ∧
      ∀ now key, (s.manager.sweep now).2.sessions.lookup key =
        (s.manager.sessions.lookup key).filter fun ses => now-ses.lastActive ≤ sessionTimeout := by
  have hm : (UdpManager.withLimits maxSessions.toNat maxPerIp.toNat).maxSessions < 2^64 := by
    have := maxSessions.toNat_lt
    simp only [UdpManager.withLimits, defaultMaxUdpSessions]
    split_ifs <;> omega
  have h : Tabled _ _ s.manager := run_preserves (I := fun s : State T => Tabled _ _ s.manager)
    (step_tabled ip _ _ hm) as _ s hr (withLimits_tabled maxSessions.toNat maxPerIp.toNat)
  exact ⟨h,fun key => (h.removeSession key hm).2,fun now => (h.removeAll _ hm).2,
    fun upstream => s.manager.acquire_keeps (ip upstream),s.manager.lookup_sweep⟩

/-- One session per address allowed: the second call of an address is refused. -/
theorem capped_table_invariant :
    ∃ s : State Bool, run (step fun _ => natAddr)
        [.forward 0 false natDatagram 0 true,.forward 1 false { natDatagram with sessionId := 8 } 1 true]
        (.init (4096 : UInt64).toNat (1 : UInt64).toNat) = some s ∧
      s.manager.sessionsCurrent = s.manager.sessions.entries.length ∧
      s.manager.perIp.lookup natAddr = some 1 := by
  have hr : ∃ s : State Bool, run (step fun _ => natAddr)
      [.forward 0 false natDatagram 0 true,.forward 1 false { natDatagram with sessionId := 8 } 1 true]
      (.init (4096 : UInt64).toNat (1 : UInt64).toNat) = some s ∧
      s.manager.perIp.lookup natAddr = some 1 := ⟨_,rfl,by decide⟩
  obtain ⟨s,hr,hp⟩ := hr
  exact ⟨s,hr,(session_table_invariant (fun _ => natAddr) 4096 1 _ s hr).1.gauge,hp⟩

end Hydr.Udp
