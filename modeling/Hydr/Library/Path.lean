import Mathlib
import Hydr.Library.Segment

/-!
# Paths of segments

A path is as good as its segments: what comes out at one end is what went in at the
other, as far as it has come; the path is open only if every segment is; and an end
that is seen at the far side is the end of all that went in. The segments of one path
may be of two kinds.
-/

set_option autoImplicit false

namespace Segment
open Transition

theorem ends_of_linked {β : Type} {S : Segment β} {path : List S.State} {I : S.State → Prop} {J T : S.State → S.State → Prop}
    (h : Row.Linked I J none path) (hrefl : ∀ s, T s s) (htrans : ∀ a b c, T a b → T b c → T a c)
    (hJ : ∀ l r, I l → I r → J l r → T l r) (s t : S.State) (hs : s ∈ path.head?)
    (ht : t ∈ path.getLast?) : T s t ∧ I s ∧ I t := by
  cases path with
  | nil => cases hs
  | cons r rest =>
    cases hs
    obtain rfl : (s::rest).getLast (List.cons_ne_nil _ _) = t := by
      rw [List.getLast?_eq_some_getLast (List.cons_ne_nil _ _)] at ht
      exact Option.some.inj ht
    exact ⟨h.ends hrefl htrans hJ rest none s,h.1.self,
      h.all _ none _ (List.getLast_mem _)⟩

section
variable {β : Type} [DecidableEq β] (S : Segment β)

abbrev pathStep (row : List S.State) (a : ℕ × S.Act) : Option (List S.State) :=
  Row.step S.step S.Relays row a

abbrev Complete (as : List (ℕ × S.Act)) (row : List S.State) : Prop :=
  Meets S.pathStep (fun row a => Row.At S.Whole none row a.1 a.2) as row

variable {S} {as : List (ℕ × S.Act)} {row path : List S.State}

theorem path_joined (hi : ∀ s ∈ row, S.Initial s) (hr : run S.pathStep as row = some path) :
    Row.Linked S.Sound S.Joined none path :=
  Row.run_linked S.relays_joined as row path hr
    (Row.linked_of_alike S.initial_sound joined_of_initial row none nofun hi)

theorem path_closed (hi : ∀ s ∈ row, S.Initial s) (hc : S.Complete as row)
    (hr : run S.pathStep as row = some path) :
    Row.Linked (fun s => S.Sound s ∧ S.Settled s) S.Closed none path :=
  Row.run_linked_where S.relays_closed as row path hc hr
    (Row.linked_of_alike (fun s h => ⟨S.initial_sound s h,S.initial_settled s h⟩)
      closed_of_initial row none nofun hi)

/-- What has been taken out at either end is what was put in at the other, as far as
it has come. -/
theorem delivered_ahead (hi : ∀ s ∈ row, S.Initial s) (hr : run S.pathStep as row = some path)
    (s t : S.State) (hs : s ∈ path.head?) (ht : t ∈ path.getLast?) :
    S.got t true <+: S.put s false ∧ S.got s false <+: S.put t true := by
  have hl := path_joined hi hr
  constructor
  · obtain ⟨h,-,hI⟩ := ends_of_linked hl (T := fun l r => S.put r false <+: S.put l false)
      (fun _ => List.prefix_refl _) (fun _ _ _ h k => k.trans h)
      (fun l r hl _ hj => hj.there.trans (S.got_put l true hl)) s t hs ht
    exact (S.got_put t true hI).trans h
  · obtain ⟨h,hI,-⟩ := ends_of_linked hl (T := fun l r => S.put l true <+: S.put r true)
      (fun _ => List.prefix_refl _) (fun _ _ _ h k => h.trans k)
      (fun l r _ hr hj => hj.back.trans (S.got_put r false hr)) s t hs ht
    exact (S.got_put s false hI).trans h

/-- Behind a segment that is open every segment is open and accepted. -/
theorem opened_throughout (hi : ∀ s ∈ row, S.Initial s) (hr : run S.pathStep as row = some path)
    (before after : List S.State) (s : S.State) (hp : path = before++s::after)
    (ho : S.opened s = true) : ∀ t ∈ s::after, S.opened t = true ∧ S.accepted t = true := by
  have hl := path_joined hi hr
  rw [hp] at hl
  obtain ⟨q,hl⟩ := hl.suffix before (s::after)
  have hopen : ∀ t ∈ s::after, S.opened t = true :=
    hl.spread (P := fun s => S.opened s = true)
      (fun l r hsl _ hj ho => hj.answered (S.opened_accepted l hsl ho)) after q s ho
  intro t ht
  exact ⟨hopen t ht,S.opened_accepted t (hl.all _ q t ht) (hopen t ht)⟩

/-- Whoever sees the end at one end of the path has everything that was put in at the
other. -/
theorem ended_complete (hi : ∀ s ∈ row, S.Initial s) (hc : S.Complete as row)
    (hr : run S.pathStep as row = some path) (s t : S.State) (hs : s ∈ path.head?)
    (ht : t ∈ path.getLast?) :
    (S.ended t true = true → S.closed s false = true ∧ S.got t true = S.put s false) ∧
      (S.ended s false = true → S.closed t true = true ∧ S.got s false = S.put t true) := by
  have hl := path_closed hi hc hr
  constructor
  · intro he
    obtain ⟨h,-,hI⟩ := ends_of_linked hl
      (T := fun l r => S.closed r false = true → S.closed l false = true ∧
        S.put r false = S.put l false)
      (fun _ hc => ⟨hc,rfl⟩)
      (fun _ _ _ h k hc => ⟨(h (k hc).1).1,(k hc).2.trans (h (k hc).1).2⟩)
      (fun l r _ _ hj hc => ⟨(hj.there hc).1,(hj.there hc).2.2.trans (hj.there hc).2.1⟩) s t hs ht
    obtain ⟨hclosed,hgot⟩ := S.ended_whole t true hI.1 hI.2 he
    exact ⟨(h hclosed).1,hgot.trans (h hclosed).2⟩
  · intro he
    obtain ⟨h,hI,-⟩ := ends_of_linked hl
      (T := fun l r => S.closed l true = true → S.closed r true = true ∧
        S.put l true = S.put r true)
      (fun _ hc => ⟨hc,rfl⟩)
      (fun _ _ _ h k hc => ⟨(k (h hc).1).1,(h hc).2.trans (k (h hc).1).2⟩)
      (fun l r _ _ hj hc => ⟨(hj.back hc).1,(hj.back hc).2.2.trans (hj.back hc).2.1⟩) s t hs ht
    obtain ⟨hclosed,hgot⟩ := S.ended_whole s false hI.1 hI.2 he
    exact ⟨(h hclosed).1,hgot.trans (h hclosed).2⟩

end

section
variable {β : Type} (A B : Segment β)

def sumStep : A.State ⊕ B.State → A.Act ⊕ B.Act → Option (A.State ⊕ B.State)
  | .inl s, .inl a => (A.step s a).map .inl
  | .inr s, .inr a => (B.step s a).map .inr
  | _, _ => none

variable {A B} in
/-- A step of either kind of segment. -/
theorem sumStep_cases {P : A.State ⊕ B.State → A.Act ⊕ B.Act → A.State ⊕ B.State → Prop}
    (hA : ∀ s a t, A.step s a = some t → P (.inl s) (.inl a) (.inl t))
    (hB : ∀ s a t, B.step s a = some t → P (.inr s) (.inr a) (.inr t)) (s : A.State ⊕ B.State)
    (a : A.Act ⊕ B.Act) (t : A.State ⊕ B.State) (h : sumStep A B s a = some t) : P s a t := by
  rcases s with s | s <;> rcases a with a | a
  · obtain ⟨t,ht,rfl⟩ := Option.map_eq_some_iff.mp h
    exact hA s a t ht
  · cases h
  · cases h
  · obtain ⟨t,ht,rfl⟩ := Option.map_eq_some_iff.mp h
    exact hB s a t ht

def sum : Segment β where
  State := A.State ⊕ B.State
  Act := A.Act ⊕ B.Act
  Initial := Sum.elim A.Initial B.Initial
  step := sumStep A B
  put := Sum.elim A.put B.put
  got := Sum.elim A.got B.got
  closed := Sum.elim A.closed B.closed
  ended := Sum.elim A.ended B.ended
  accepted := Sum.elim A.accepted B.accepted
  opened := Sum.elim A.opened B.opened
  puts := Sum.elim A.puts B.puts
  closes := Sum.elim A.closes B.closes
  accepts := Sum.elim A.accepts B.accepts
  Sound := Sum.elim A.Sound B.Sound
  Settled := Sum.elim A.Settled B.Settled
  sure
    | .inl s, .inl a => A.sure s a
    | .inr s, .inr a => B.sure s a
    | _, _ => true
  initial_put := Sum.rec A.initial_put B.initial_put
  initial_closed := Sum.rec A.initial_closed B.initial_closed
  initial_accepted := Sum.rec A.initial_accepted B.initial_accepted
  initial_sound := Sum.rec A.initial_sound B.initial_sound
  initial_settled := Sum.rec A.initial_settled B.initial_settled
  step_sound s a t hs h := sumStep_cases
    (P := fun s _ t => Sum.elim A.Sound B.Sound s → Sum.elim A.Sound B.Sound t)
    (fun s a t ht hs => A.step_sound s a t hs ht) (fun s a t ht hs => B.step_sound s a t hs ht)
    s a t h hs
  step_settled s a t hs hset hsure h := by
    rcases s with s | s <;> rcases a with a | a
    · obtain ⟨t,ht,rfl⟩ := Option.map_eq_some_iff.mp h
      exact A.step_settled s a t hs hset hsure ht
    · cases h
    · cases h
    · obtain ⟨t,ht,rfl⟩ := Option.map_eq_some_iff.mp h
      exact B.step_settled s a t hs hset hsure ht
  step_put s a t x hs h := sumStep_cases
    (P := fun s a t => Sum.elim A.Sound B.Sound s →
      Sum.elim A.put B.put t x = Sum.elim A.put B.put s x++Sum.elim A.puts B.puts a x)
    (fun s a t ht hs => A.step_put s a t x hs ht) (fun s a t ht hs => B.step_put s a t x hs ht)
    s a t h hs
  step_got s a t x hs h := sumStep_cases
    (P := fun s _ t => Sum.elim A.Sound B.Sound s →
      Sum.elim A.got B.got s x <+: Sum.elim A.got B.got t x)
    (fun s a t ht hs => A.step_got s a t x hs ht) (fun s a t ht hs => B.step_got s a t x hs ht)
    s a t h hs
  step_closed s a t x h := sumStep_cases
    (P := fun s a t => Sum.elim A.closed B.closed t x =
      (Sum.elim A.closed B.closed s x || Sum.elim A.closes B.closes a x))
    (fun s a t => A.step_closed s a t x) (fun s a t => B.step_closed s a t x) s a t h
  step_accepted s a t h := sumStep_cases
    (P := fun s a t => Sum.elim A.accepted B.accepted t = true →
      Sum.elim A.accepted B.accepted s = true ∨ Sum.elim A.accepts B.accepts a = true)
    A.step_accepted B.step_accepted s a t h
  step_opened s a t hs h := sumStep_cases
    (P := fun s _ t => Sum.elim A.Sound B.Sound s → Sum.elim A.opened B.opened s = true →
      Sum.elim A.opened B.opened t = true)
    (fun s a t ht hs => A.step_opened s a t hs ht) (fun s a t ht hs => B.step_opened s a t hs ht)
    s a t h hs
  closed_puts s a t x hc h := sumStep_cases
    (P := fun s a _ => Sum.elim A.closed B.closed s x = true → Sum.elim A.puts B.puts a x = [])
    (fun s a t ht hc => A.closed_puts s a t x hc ht) (fun s a t ht hc => B.closed_puts s a t x hc ht)
    s a t h hc
  got_put := Sum.rec A.got_put B.got_put
  opened_accepted := Sum.rec A.opened_accepted B.opened_accepted
  ended_whole := Sum.rec A.ended_whole B.ended_whole

end

end Segment

structure Reliable (β : Type) where
  sent : Bool → List β
  taken : Bool → ℕ
  finished : Bool → Bool
  accepted : Bool
  opened : Bool

inductive ReliableAct (β : Type) where
  | put (x : Bool) (elements : List β)
  | take (x : Bool) (n : ℕ)
  | finish (x : Bool)
  | accept
  | opened

namespace Reliable

variable {β : Type}

def init : Reliable β := ⟨fun _ => [],fun _ => 0,fun _ => false,false,false⟩

def step (s : Reliable β) : ReliableAct β → Option (Reliable β)
  | .put x elements =>
    if s.finished x then none
    else some { s with sent := Function.update s.sent x (s.sent x++elements) }
  | .take x n =>
    if s.taken x+n ≤ (s.sent (!x)).length then
      some { s with taken := Function.update s.taken x (s.taken x+n) }
    else none
  | .finish x => some { s with finished := Function.update s.finished x true }
  | .accept => some { s with accepted := true }
  | .opened => if s.accepted then some { s with opened := true } else none

structure Sound (s : Reliable β) : Prop where
  taken : ∀ x, s.taken x ≤ (s.sent (!x)).length
  opened : s.opened = true → s.accepted = true

theorem step_sound (s : Reliable β) (a : ReliableAct β) (t : Reliable β) (h : s.Sound)
    (hst : s.step a = some t) : t.Sound := by
  cases a with
  | put x elements =>
    simp only [step] at hst
    split_ifs at hst
    cases hst
    refine ⟨fun y => (h.taken y).trans ?_,h.opened⟩
    rcases eq_or_ne (!y) x with rfl | hne
    · simp
    · simp [hne]
  | take x n =>
    simp only [step] at hst
    split_ifs at hst with hn
    cases hst
    refine ⟨fun y => ?_,h.opened⟩
    rcases eq_or_ne y x with rfl | hne
    · simpa using hn
    · simpa [hne] using h.taken y
  | finish x =>
    cases hst
    exact ⟨h.taken,h.opened⟩
  | accept =>
    cases hst
    exact ⟨h.taken,fun _ => rfl⟩
  | opened =>
    simp only [step] at hst
    split_ifs at hst with hacc
    cases hst
    exact ⟨h.taken,fun _ => hacc⟩

def puts (a : ReliableAct β) (x : Bool) : List β :=
  match a with
  | .put y elements => if x = y then elements else []
  | _ => []

def closes (a : ReliableAct β) (x : Bool) : Bool :=
  match a with
  | .finish y => x == y
  | _ => false

def accepts : ReliableAct β → Bool
  | .accept => true
  | _ => false

structure Steps (s : Reliable β) (a : ReliableAct β) (t : Reliable β) : Prop where
  sent : ∀ x, t.sent x = s.sent x++puts a x
  taken : ∀ x, s.taken x ≤ t.taken x
  finished : ∀ x, t.finished x = (s.finished x || closes a x)
  accepted : t.accepted = true → s.accepted = true ∨ accepts a = true
  opened : s.opened = true → t.opened = true
  silent : ∀ x, s.finished x = true → puts a x = []

theorem steps_of_step (s : Reliable β) (a : ReliableAct β) (t : Reliable β)
    (hst : s.step a = some t) : Steps s a t := by
  cases a with
  | put y elements =>
    simp only [step] at hst
    split_ifs at hst with hy
    cases hst
    refine ⟨fun x => ?_,fun _ => le_rfl,fun x => (Bool.or_false _).symm,Or.inl,id,fun x hx => ?_⟩
    · rcases eq_or_ne x y with rfl | hne
      · simp [puts]
      · simp [puts, hne]
    · exact if_neg (by rintro rfl; exact hy hx)
  | take y n =>
    simp only [step] at hst
    split_ifs at hst
    cases hst
    refine ⟨fun x => (List.append_nil _).symm,fun x => ?_,fun x => (Bool.or_false _).symm,Or.inl,id,
      fun _ _ => rfl⟩
    rcases eq_or_ne x y with rfl | hne
    · simp
    · simp [hne]
  | finish y =>
    cases hst
    refine ⟨fun x => (List.append_nil _).symm,fun _ => le_rfl,fun x => ?_,Or.inl,id,fun _ _ => rfl⟩
    rcases eq_or_ne x y with rfl | hne
    · simp [closes]
    · simp [closes, hne]
  | accept =>
    cases hst
    exact ⟨fun x => (List.append_nil _).symm,fun _ => le_rfl,fun x => (Bool.or_false _).symm,
      fun _ => Or.inr rfl,id,fun _ _ => rfl⟩
  | opened =>
    simp only [step] at hst
    split_ifs at hst
    cases hst
    exact ⟨fun x => (List.append_nil _).symm,fun _ => le_rfl,fun x => (Bool.or_false _).symm,Or.inl,
      fun _ => rfl,fun _ _ => rfl⟩

theorem got_grows (s : Reliable β) (a : ReliableAct β) (t : Reliable β) (x : Bool) (h : s.Sound)
    (hst : s.step a = some t) :
    (s.sent (!x)).take (s.taken x) <+: (t.sent (!x)).take (t.taken x) := by
  have hs := steps_of_step s a t hst
  rw [hs.sent, ← List.take_append_of_le_length (h.taken x)]
  exact List.take_prefix_take_left (hs.taken x)

def segment (β : Type) : Segment β where
  State := Reliable β
  Act := ReliableAct β
  Initial s := s = .init
  step := step
  put := sent
  got s x := (s.sent (!x)).take (s.taken x)
  closed := finished
  ended s x := s.finished (!x) && s.taken x == (s.sent (!x)).length
  accepted := accepted
  opened := opened
  puts := puts
  closes := closes
  accepts := accepts
  Sound := Sound
  Settled _ := True
  sure _ _ := true
  initial_put := by rintro _ x rfl; rfl
  initial_closed := by rintro _ x rfl; rfl
  initial_accepted := by rintro _ rfl; rfl
  initial_sound := by rintro _ rfl; exact ⟨fun _ => le_rfl,nofun⟩
  initial_settled _ _ := trivial
  step_sound := step_sound
  step_settled _ _ _ _ _ _ _ := trivial
  step_put s a t x _ h := (steps_of_step s a t h).sent x
  step_got := got_grows
  step_closed s a t x h := (steps_of_step s a t h).finished x
  step_accepted s a t h := (steps_of_step s a t h).accepted
  step_opened s a t _ h := (steps_of_step s a t h).opened
  closed_puts s a t x hc h := (steps_of_step s a t h).silent x hc
  got_put _ _ _ := List.take_prefix _ _
  opened_accepted _ hs := hs.opened
  ended_whole s x _ _ he := by
    rw [Bool.and_eq_true, beq_iff_eq] at he
    exact ⟨he.1,by rw [he.2, List.take_length]⟩

end Reliable
