import Mathlib
import Hydr.Library.Table
import Hydr.ClientReconnect

/-!
# One tunnel, and one reconnect for a failure

The handle follows the tunnel as long as the handles are written in the order
in which the tunnels were stored. A tunnel is replaced for its own failure as
long as the decision to reconnect is taken while it is still stored, by one
task at a time. The reconnect lock gives both among the openings; the datagram
loop and the sampling of the generation do not.
-/

set_option autoImplicit false

namespace Hydr.Reconnect.Client
open Transition

def Quiet (s : Client) : Prop := ∀ p, s.phase p = none

def OneTunnel (s : Client) : Prop := s.Quiet → s.handle = s.tunnel

/-- A handle is written only while its tunnel is still stored, or while the
reconnect that stored the present one has yet to write its own. -/
def InOrder (s : Client) (a : Act) : Prop := ∀ p f h, a = .write p →
  s.phase p = some (f,.writing h) →
    h = s.tunnel ∨ ∃ k g, k ≠ p ∧ s.phase k = some (g,.writing s.tunnel)

def Follows (v : View) : Prop :=
  v.handle = v.tunnel ∨ ∃ p f, v.phase p = some (f,.writing v.tunnel)

theorem init_follows : Follows init.view := Or.inl rfl

theorem step_follows (s : Client) (a : Act) (t : Client) (hi : Follows s.view)
    (hc : s.InOrder a) (h : s.step a = some t) : Follows t.view := by
  have hv := changes_of_step s t a h
  have hkeep : ∀ p x, (∀ g, s.phase p ≠ some (g,.writing s.tunnel)) →
      s.handle = s.tunnel ∨ ∃ k f, Function.update s.phase p x k = some (f,.writing s.tunnel) := by
    intro p x hp
    rcases hi with he | ⟨k,f,hk⟩
    · exact Or.inl he
    · have hne : k ≠ p := fun he => hp f (he ▸ hk)
      exact Or.inr ⟨k,f,by rw [Function.update_of_ne hne]; exact hk⟩
  generalize t.view = v at hv
  cases hv with
  | stays => exact hi
  | decides _ p f hd hp => exact hkeep p _ (by simp [hp])
  | returns _ p f ph hp hn => exact hkeep p _ (by simp [hp, hn])
  | connects p f hp => exact hkeep p _ (by simp [hp])
  | stores p f new hp => exact Or.inr ⟨p,f,by simp⟩
  | writes p f new hp =>
    rcases hc p f new rfl hp with he | ⟨k,g,hk,hg⟩
    · exact Or.inl he
    · exact Or.inr ⟨k,g,(Function.update_of_ne hk ..).trans hg⟩

theorem follows_oneTunnel (s : Client) (h : Follows s.view) : s.OneTunnel := by
  intro hq
  rcases h with he | ⟨p,f,hp⟩
  · exact he
  · exact absurd ((hq p).symm.trans hp) nofun

/-- In every run that writes its handles in order, the handle belongs to the
stored tunnel whenever no reconnect is in progress. -/
theorem one_tunnel_of_inOrder (acts : List Act) (s : Client) (hr : run step acts init = some s)
    (hc : Meets step InOrder acts init) : s.OneTunnel :=
  follows_oneTunnel s
    (run_preserves_where (fun s a t => step_follows s a t) acts _ s hc hr init_follows)

/-- Two openings lose tunnel 0, and one of them replaces it while the other waits for
the lock. The loop loses the new tunnel before its handle is written, and replaces it. -/
def inTurn : List Act :=
  [.call 0,.call 1,.lost 0,.lost 1,.sample 0,.sample 1,.lock 0,.check 0,.connect (some 0),
    .store (some 0),.lockTunnel,.broken,.wake,.connect none,.store none,.write (some 0),
    .count (some 0),.lock 1,.check 1,.retry 1,.write none,.count none,.retry 0]

theorem inOrder_of_ne {s : Client} {a : Act} (h : ∀ p, a ≠ .write p) : s.InOrder a :=
  fun p _ _ he _ => absurd he (h p)

theorem inOrder_idle (as : List Act) (s : Client) (h : ∀ a ∈ as, ∀ p, a ≠ .write p) :
    Meets step InOrder as s :=
  meets_mono (fun _ _ h => inOrder_of_ne h) as s (meets_of_forall as s h)

theorem inTurn_inOrder : Meets step InOrder inTurn init := by
  refine meets_append (inTurn.take 15) (inTurn.drop 15) _ _ (inOrder_idle _ _ (by simp [inTurn])) rfl
    (meets_cons rfl ?_ ?_)
  · intro p f h he hp
    cases he
    cases hp
    exact Or.inr ⟨none,1,by simp,rfl⟩
  refine meets_append [_,_,_,_] _ _ _ (inOrder_idle _ _ (by simp)) rfl (meets_cons rfl ?_ ?_)
  · intro p f h he hp
    cases he
    cases hp
    exact Or.inl rfl
  · exact inOrder_idle _ _ (by simp)

theorem inTurn_one_tunnel : ∃ s, run step inTurn init = some s ∧ s.tunnel = 2 ∧ s.OneTunnel :=
  ⟨_,rfl,rfl,one_tunnel_of_inOrder inTurn _ rfl inTurn_inOrder⟩

def crossing : List Act :=
  [.lockTunnel,.broken,.wake,.call 0,.lost 0,.sample 0,.lock 0,.check 0,.connect none,
    .connect (some 0),.store none,.store (some 0),.write (some 0),.count (some 0),.write none,
    .count none]

/-- Datagrams go out on one tunnel and replies are awaited on another. -/
theorem crossing_splits : ∃ acts s, run step acts init = some s ∧ s.Quiet ∧ ¬s.OneTunnel := by
  have hq : ∀ s, run step crossing init = some s → s.Quiet := by
    intro s hs
    cases hs
    intro p
    match p with
    | none => rfl
    | some 0 => rfl
    | some (_+1) => rfl
  exact ⟨crossing,_,rfl,hq _ rfl,fun h => absurd (h (hq _ rfl)) (by decide)⟩

def Deduplicated (s : Client) : Prop :=
  (∀ r ∈ s.replacements, r.failed = r.replaced) ∧ (s.replacements.map Replacement.failed).Nodup

def Pending (s : Client) (p : Option ℕ) : Prop :=
  ∃ f ph, s.phase p = some (f,ph) ∧ (ph = .connecting ∨ ∃ new, ph = .storing new)

/-- A task decides to reconnect only while the tunnel that failed is stored, and
stores a tunnel only when no other task has decided and not yet stored. -/
def Serialised (s : Client) (a : Act) : Prop :=
  (∀ p f, s.decides a = some (p,f) → f = s.tunnel) ∧
  ∀ p, a = .store p → ∀ k, k ≠ p → ¬s.Pending k

def Fit (v : View) (f : ℕ) : Phase → Prop
  | .connecting => f = v.tunnel
  | .storing new => f = v.tunnel ∧ new ≠ v.tunnel ∧ new < v.connected ∧
      ∀ r ∈ v.replacements, r.replaced ≠ new
  | _ => True

structure Orderly (v : View) : Prop where
  fit : ∀ p f ph, v.phase p = some (f,ph) → Fit v f ph
  own : ∀ r ∈ v.replacements, r.failed = r.replaced
  distinct : (v.replacements.map Replacement.replaced).Nodup
  past : ∀ r ∈ v.replacements, r.replaced ≠ v.tunnel ∧ r.replaced < v.connected
  stored : v.tunnel < v.connected

theorem init_orderly : Orderly init.view where
  fit p f ph h := by cases p <;> simp [view, init, phase] at h
  own := by simp [view, init]
  distinct := List.nodup_nil
  past := by simp [view, init]
  stored := Nat.one_pos

theorem phase_update {P : ℕ → Phase → Prop} {phase : Option ℕ → Option (ℕ × Phase)}
    {p : Option ℕ} {x : Option (ℕ × Phase)} (ho : ∀ k f ph, k ≠ p → phase k = some (f,ph) → P f ph)
    (hp : ∀ f ph, x = some (f,ph) → P f ph) (k : Option ℕ) (f : ℕ) (ph : Phase)
    (h : Function.update phase p x k = some (f,ph)) : P f ph := by
  rcases Table.update_cases h with ⟨-,hx⟩ | ⟨hk,hold⟩
  · exact hp f ph hx
  · exact ho k f ph hk hold

theorem step_orderly (s : Client) (a : Act) (t : Client) (hi : Orderly s.view)
    (hc : s.Serialised a) (h : s.step a = some t) : Orderly t.view := by
  have hv := changes_of_step s t a h
  generalize t.view = v at hv
  cases hv with
  | stays => exact hi
  | decides _ p f hd hp =>
    refine ⟨phase_update (P := Fit s.view) (fun k g ph _ => hi.fit k g ph) ?_,hi.own,hi.distinct,
      hi.past,hi.stored⟩
    intro g ph he
    cases he
    exact hc.1 p f hd
  | returns _ p f ph hp hn =>
    exact ⟨phase_update (P := Fit s.view) (fun k g ph _ => hi.fit k g ph) nofun,hi.own,hi.distinct,
      hi.past,hi.stored⟩
  | connects p f hp =>
    have hf := hi.fit p f _ hp
    refine ⟨phase_update (P := Fit { s.view with connected := s.connected+1 }) ?_ ?_,hi.own,
      hi.distinct,fun r hr => ⟨(hi.past r hr).1,Nat.lt_succ_of_lt (hi.past r hr).2⟩,
      Nat.lt_succ_of_lt hi.stored⟩
    · intro k g ph _ hk
      have hg := hi.fit k g ph hk
      cases ph with
      | storing new => exact ⟨hg.1,hg.2.1,Nat.lt_succ_of_lt hg.2.2.1,hg.2.2.2⟩
      | connecting | writing | counting => exact hg
    · intro g ph he
      cases he
      exact ⟨hf,(Nat.ne_of_lt hi.stored).symm,Nat.lt_succ_self _,
        fun r hr => Nat.ne_of_lt (hi.past r hr).2⟩
  | stores p f new hp =>
    obtain ⟨hf,hn,hl,hr⟩ := hi.fit p f _ hp
    refine ⟨phase_update (P := Fit _) ?_ ?_,?_,?_,?_,hl⟩
    · intro k g ph hk hg
      have hd := hc.2 p rfl k hk
      cases ph with
      | connecting => exact absurd ⟨g,_,hg,Or.inl rfl⟩ hd
      | storing m => exact absurd ⟨g,_,hg,Or.inr ⟨m,rfl⟩⟩ hd
      | writing | counting => trivial
    · intro g ph he
      cases he
      trivial
    · intro r hm
      rcases List.mem_append.mp hm with hm | hm
      · exact hi.own r hm
      · rw [List.mem_singleton.mp hm]
        exact hf
    · show ((s.replacements++[Replacement.mk p f s.tunnel]).map Replacement.replaced).Nodup
      rw [List.map_append]
      refine hi.distinct.append (List.nodup_singleton _) (List.disjoint_singleton.mpr ?_)
      intro hm
      obtain ⟨r,hm,he⟩ := List.mem_map.mp hm
      exact (hi.past r hm).1 he
    · intro r hm
      rcases List.mem_append.mp hm with hm | hm
      · exact ⟨hr r hm,(hi.past r hm).2⟩
      · rw [List.mem_singleton.mp hm]
        exact ⟨hn.symm,hi.stored⟩
  | writes p f new hp =>
    refine ⟨phase_update (P := Fit { s.view with handle := new }) ?_ ?_,hi.own,hi.distinct,hi.past,
      hi.stored⟩
    · intro k g ph _ hk
      have hg := hi.fit k g ph hk
      cases ph <;> exact hg
    · intro g ph he
      cases he
      trivial

theorem orderly_deduplicated (s : Client) (h : Orderly s.view) : s.Deduplicated := by
  refine ⟨h.own,?_⟩
  have he : s.replacements.map Replacement.failed = s.replacements.map Replacement.replaced :=
    List.map_congr_left h.own
  rw [he]
  exact h.distinct

/-- In every serialised run a tunnel is replaced only by a task that saw it
fail, and one failure leads to one reconnect. -/
theorem deduplicated_of_serialised (acts : List Act) (s : Client)
    (hr : run step acts init = some s) (hc : Meets step Serialised acts init) : s.Deduplicated :=
  orderly_deduplicated s
    (run_preserves_where (fun s a t => step_orderly s a t) acts _ s hc hr init_orderly)

theorem serialised_idle (as : List Act) (s : Client)
    (h : ∀ a ∈ as, a ≠ .wake ∧ (∀ t, a ≠ .check t) ∧ ∀ p, a ≠ .store p) :
    Meets step Serialised as s := by
  refine meets_mono (fun s a h => ⟨fun p f hd => ?_,fun p he => absurd he (h.2.2 p)⟩) as s
    (meets_of_forall as s h)
  cases a with
  | wake => exact absurd rfl h.1
  | check t => exact absurd rfl (h.2.1 t)
  | _ => cases hd

theorem serialised_decides {s : Client} {a : Act} (hd : ∀ p f, s.decides a = some (p,f) → f = s.tunnel)
    (h : ∀ p, a ≠ .store p) : s.Serialised a :=
  ⟨hd,fun p he => absurd he (h p)⟩

theorem serialised_store {s : Client} {p : Option ℕ} (h : ∀ k, k ≠ p → ¬s.Pending k) :
    s.Serialised (.store p) := by
  refine ⟨nofun,fun q he => ?_⟩
  cases he
  exact h

theorem inTurn_serialised : Meets step Serialised inTurn init := by
  refine meets_append [_,_,_,_,_,_,_] _ _ _ (serialised_idle _ _ (by simp)) rfl
    (meets_cons rfl (serialised_decides ?_ (by simp)) ?_)
  · rintro p f ⟨⟩
    rfl
  refine meets_append [_] _ _ _ (serialised_idle _ _ (by simp)) rfl
    (meets_cons rfl (serialised_store ?_) ?_)
  · rintro (_ | _ | _ | k) hk ⟨f,ph,hf,-⟩
    · cases hf
    · exact hk rfl
    · cases hf
    · cases hf
  refine meets_append [_,_] _ _ _ (serialised_idle _ _ (by simp)) rfl
    (meets_cons rfl (serialised_decides ?_ (by simp)) ?_)
  · rintro p f ⟨⟩
    rfl
  refine meets_append [_] _ _ _ (serialised_idle _ _ (by simp)) rfl
    (meets_cons rfl (serialised_store ?_) ?_)
  · rintro (_ | _ | _ | k) hk ⟨f,ph,hf,hph⟩
    · exact hk rfl
    · cases hf
      simp at hph
    · cases hf
    · cases hf
  refine meets_append [_,_,_] _ _ _ (serialised_idle _ _ (by simp)) rfl
    (meets_cons rfl (serialised_decides ?_ (by simp)) ?_)
  · rintro p f ⟨⟩
  exact serialised_idle _ _ (by simp)

theorem inTurn_deduplicated : ∃ s, run step inTurn init = some s ∧
    s.replacements = [⟨some 0,0,0⟩,⟨none,1,1⟩] ∧ s.Deduplicated :=
  ⟨_,rfl,rfl,deduplicated_of_serialised inTurn _ rfl inTurn_serialised⟩

def oversleeping : List Act :=
  [.lockTunnel,.broken,.call 0,.lost 0,.sample 0,.lock 0,.check 0,.connect (some 0),
    .store (some 0),.write (some 0),.count (some 0),.wake,.connect none,.store none]

/-- The loop saw tunnel 0 fail and replaces tunnel 1. -/
theorem healthy_tunnel_replaced : ∃ acts s, run step acts init = some s ∧
    ⟨none,0,1⟩ ∈ s.replacements ∧ ¬s.Deduplicated :=
  ⟨oversleeping,_,rfl,by decide,fun h => absurd (h.1 ⟨none,0,1⟩ (by decide)) (by decide)⟩

end Hydr.Reconnect.Client
