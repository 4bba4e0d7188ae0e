import Mathlib
import Hydr.Library.Row

/-!
# Segments of a path

A segment carries elements both ways between its two sides. A path is a row of
segments, with a relay between any two: what the relay takes out of one it puts into
the other, and it accepts on its left only what has been opened on its right. What is
asked of a segment is what a relay and the users at the two ends can rely on; what
they can rely on then holds from end to end.
-/

set_option autoImplicit false

/-- Side `false` opens the segment, side `true` accepts it. -/
structure Segment (β : Type) where
  State : Type
  Act : Type
  Initial : State → Prop
  step : State → Act → Option State
  /-- What a side has put in and what it has taken out. -/
  put : State → Bool → List β
  got : State → Bool → List β
  /-- A side puts in no more; a side has seen the end of what comes. -/
  closed : State → Bool → Bool
  ended : State → Bool → Bool
  accepted : State → Bool
  opened : State → Bool
  /-- What the user of a side does by an act. -/
  puts : Act → Bool → List β
  closes : Act → Bool → Bool
  accepts : Act → Bool
  /-- What every run keeps, and what a run keeps whose acts are all sure. -/
  Sound : State → Prop
  Settled : State → Prop
  sure : State → Act → Bool
  initial_put (s : State) (x : Bool) : Initial s → put s x = []
  initial_closed (s : State) (x : Bool) : Initial s → closed s x = false
  initial_accepted (s : State) : Initial s → accepted s = false
  initial_sound (s : State) : Initial s → Sound s
  initial_settled (s : State) : Initial s → Settled s
  step_sound (s : State) (a : Act) (t : State) : Sound s → step s a = some t → Sound t
  step_settled (s : State) (a : Act) (t : State) :
    Sound s → Settled s → sure s a = true → step s a = some t → Settled t
  step_put (s : State) (a : Act) (t : State) (x : Bool) :
    Sound s → step s a = some t → put t x = put s x++puts a x
  step_got (s : State) (a : Act) (t : State) (x : Bool) :
    Sound s → step s a = some t → got s x <+: got t x
  step_closed (s : State) (a : Act) (t : State) (x : Bool) :
    step s a = some t → closed t x = (closed s x || closes a x)
  step_accepted (s : State) (a : Act) (t : State) :
    step s a = some t → accepted t = true → accepted s = true ∨ accepts a = true
  step_opened (s : State) (a : Act) (t : State) :
    Sound s → step s a = some t → opened s = true → opened t = true
  closed_puts (s : State) (a : Act) (t : State) (x : Bool) :
    closed s x = true → step s a = some t → puts a x = []
  got_put (s : State) (x : Bool) : Sound s → got s x <+: put s (!x)
  opened_accepted (s : State) : Sound s → opened s = true → accepted s = true
  /-- The end is the end of what the other side has put in. -/
  ended_whole (s : State) (x : Bool) : Sound s → Settled s → ended s x = true →
    closed s (!x) = true ∧ got s x = put s (!x)

namespace Segment

theorem extend {β : Type} {xs ys zs : List β} (h : xs <+: zs) (hy : ys <+: zs.drop xs.length) :
    xs++ys <+: zs := by
  obtain ⟨rest,rfl⟩ := h
  rw [List.drop_left] at hy
  exact (List.prefix_append_right_inj _).mpr hy

variable {β : Type} (S : Segment β)

def Copies (x : Bool) (u v : S.State) (a : S.Act) : Prop :=
  S.puts a x <+: (S.got u (!x)).drop (S.put v x).length

def Orderly (x : Bool) (u v : S.State) (a : S.Act) : Prop :=
  S.closes a x = true → S.ended u (!x) = true ∧ S.put v x = S.got u (!x)

def Answers (r : S.State) (a : S.Act) : Prop := S.accepts a = true → S.opened r = true

def Relays (p : Option S.State) (s : S.State) (n : Option S.State) (a : S.Act) : Prop :=
  (∀ l ∈ p, S.Copies false l s a) ∧ ∀ r ∈ n, S.Copies true r s a ∧ S.Answers r a

def Whole (p : Option S.State) (s : S.State) (n : Option S.State) (a : S.Act) : Prop :=
  S.sure s a = true ∧ (∀ l ∈ p, S.Orderly false l s a) ∧ ∀ r ∈ n, S.Orderly true r s a

section
variable [DecidableEq β]

instance (x : Bool) (u v : S.State) (a : S.Act) : Decidable (S.Copies x u v a) :=
  inferInstanceAs (Decidable (_ <+: _))

instance (x : Bool) (u v : S.State) (a : S.Act) : Decidable (S.Orderly x u v a) :=
  inferInstanceAs (Decidable (_ → _))

instance (r : S.State) (a : S.Act) : Decidable (S.Answers r a) :=
  inferInstanceAs (Decidable (_ → _))

instance (p : Option S.State) (s : S.State) (n : Option S.State) (a : S.Act) :
    Decidable (S.Relays p s n a) := inferInstanceAs (Decidable (_ ∧ _))

instance (p : Option S.State) (s : S.State) (n : Option S.State) (a : S.Act) :
    Decidable (S.Whole p s n a) := inferInstanceAs (Decidable (_ ∧ _))

end

def Fed (x : Bool) (u v : S.State) : Prop := S.put v x <+: S.got u (!x)

def Sealed (x : Bool) (u v : S.State) : Prop := S.closed v x = true →
  S.closed u x = true ∧ S.got u (!x) = S.put u x ∧ S.put v x = S.got u (!x)

theorem fed_down {x : Bool} {u v t : S.State} {a : S.Act} (h : S.Fed x u v)
    (hv : S.Sound v) (hc : S.Copies x u v a) (hst : S.step v a = some t) : S.Fed x u t := by
  unfold Fed
  rw [S.step_put v a t x hv hst]
  exact extend h hc

theorem fed_up {x : Bool} {u v t : S.State} {a : S.Act} (h : S.Fed x u v) (hs : S.Sound u)
    (hst : S.step u a = some t) : S.Fed x t v :=
  h.trans (S.step_got u a t (!x) hs hst)

theorem sealed_down {x : Bool} {u v t : S.State} {a : S.Act} (h : S.Sealed x u v)
    (hu : S.Sound u) (hset : S.Settled u) (hv : S.Sound v) (hc : S.Copies x u v a)
    (ho : S.Orderly x u v a) (hst : S.step v a = some t) : S.Sealed x u t := by
  intro hcl
  rw [S.step_closed v a t x hst, Bool.or_eq_true] at hcl
  rw [S.step_put v a t x hv hst]
  rcases hcl with hcl | hcl
  · rw [S.closed_puts v a t x hcl hst, List.append_nil]
    exact h hcl
  · obtain ⟨he,hp⟩ := ho hcl
    obtain ⟨hclosed,hgot⟩ := S.ended_whole u (!x) hu hset he
    rw [Bool.not_not] at hclosed hgot
    rw [Copies, hp, List.drop_length, List.prefix_nil] at hc
    rw [hc, List.append_nil]
    exact ⟨hclosed,hgot,hp⟩

theorem sealed_up {x : Bool} {u v t : S.State} {a : S.Act} (h : S.Sealed x u v)
    (hu : S.Sound u) (hst : S.step u a = some t) : S.Sealed x t v := by
  intro hcl
  obtain ⟨hclosed,hgot,hput⟩ := h hcl
  have hp : S.put t x = S.put u x := by
    rw [S.step_put u a t x hu hst, S.closed_puts u a t x hclosed hst, List.append_nil]
  have hgt : S.got t (!x) = S.put t x := by
    have hup := S.got_put t (!x) (S.step_sound u a t hu hst)
    rw [Bool.not_not] at hup
    refine hup.eq_of_length_le ?_
    rw [hp, ← hgot]
    exact (S.step_got u a t (!x) hu hst).length_le
  refine ⟨?_,hgt,?_⟩
  · rw [S.step_closed u a t x hst, hclosed]
    rfl
  · rw [hput, hgot, hgt, hp]

structure Joined (l r : S.State) : Prop where
  there : S.Fed false l r
  back : S.Fed true r l
  answered : S.accepted l = true → S.opened r = true

structure Closed (l r : S.State) : Prop where
  joined : S.Joined l r
  there : S.Sealed false l r
  back : S.Sealed true r l

theorem relays_joined (p : Option S.State) (s : S.State) (n : Option S.State) (a : S.Act)
    (t : S.State) (h : Row.Fits S.Sound S.Joined p s n) (ha : S.Relays p s n a)
    (hst : S.step s a = some t) : Row.Fits S.Sound S.Joined p t n where
  self := S.step_sound s a t h.self hst
  left l hl := by
    obtain ⟨hs,hj⟩ := h.left l hl
    exact ⟨hs,S.fed_down hj.there h.self (ha.1 l hl) hst,S.fed_up hj.back h.self hst,
      fun hacc => S.step_opened s a t h.self hst (hj.answered hacc)⟩
  right r hr := by
    obtain ⟨hs,hj⟩ := h.right r hr
    obtain ⟨hc,ho⟩ := ha.2 r hr
    refine ⟨hs,S.fed_up hj.there h.self hst,S.fed_down hj.back h.self hc hst,fun hacc => ?_⟩
    rcases S.step_accepted s a t hst hacc with hacc | hacc
    · exact hj.answered hacc
    · exact ho hacc

theorem relays_closed (p : Option S.State) (s : S.State) (n : Option S.State) (a : S.Act)
    (t : S.State) (h : Row.Fits (fun s => S.Sound s ∧ S.Settled s) S.Closed p s n)
    (ha : S.Relays p s n a ∧ S.Whole p s n a) (hst : S.step s a = some t) :
    Row.Fits (fun s => S.Sound s ∧ S.Settled s) S.Closed p t n := by
  obtain ⟨ha,hsure,hwl,hwr⟩ := ha
  have hj : Row.Fits S.Sound S.Joined p t n := by
    refine S.relays_joined p s n a t ⟨h.self.1,fun l hl => ?_,fun r hr => ?_⟩ ha hst
    · exact ⟨(h.left l hl).1.1,(h.left l hl).2.joined⟩
    · exact ⟨(h.right r hr).1.1,(h.right r hr).2.joined⟩
  refine ⟨⟨hj.self,S.step_settled s a t h.self.1 h.self.2 hsure hst⟩,fun l hl => ?_,fun r hr => ?_⟩
  · obtain ⟨hs,hc⟩ := h.left l hl
    exact ⟨hs,(hj.left l hl).2,S.sealed_down hc.there hs.1 hs.2 h.self.1 (ha.1 l hl) (hwl l hl) hst,
      S.sealed_up hc.back h.self.1 hst⟩
  · obtain ⟨hs,hc⟩ := h.right r hr
    exact ⟨hs,(hj.right r hr).2,S.sealed_up hc.there h.self.1 hst,
      S.sealed_down hc.back hs.1 hs.2 h.self.1 (ha.2 r hr).1 (hwr r hr) hst⟩

variable {S}

theorem joined_of_initial (l r : S.State) (hl : S.Initial l) (hr : S.Initial r) : S.Joined l r where
  there := by
    rw [Fed, S.initial_put r false hr]
    exact List.nil_prefix
  back := by
    rw [Fed, S.initial_put l true hl]
    exact List.nil_prefix
  answered h := by
    rw [S.initial_accepted l hl] at h
    cases h

theorem closed_of_initial (l r : S.State) (hl : S.Initial l) (hr : S.Initial r) : S.Closed l r where
  joined := joined_of_initial l r hl hr
  there h := by
    rw [S.initial_closed r false hr] at h
    cases h
  back h := by
    rw [S.initial_closed l true hl] at h
    cases h

end Segment
