import Mathlib
import Hydr.WsView

/-!
# One stream across a connection

A strand is what one stream sees of both ends and of the wires between them.
Side `false` is the end that opens streams. Every step of a strand is a step of
the flow of the stream, or none: frames that a writer lost with its socket stay
in the flow, behind all that still arrives.
-/

set_option autoImplicit false

namespace Hydr.Ws
open Hydr.Stream Transition

/-- A side is deaf once it refuses every frame that it is sent. -/
structure Strand where
  view : Bool → View
  wire : Bool → List (StreamFrame Bytes)
  deaf : Bool → Bool

namespace Strand

@[simps] def setView (d : Strand) (x : Bool) (v : View) : Strand :=
  { d with view := Function.update d.view x v }

@[simps] def setWire (d : Strand) (x : Bool) (l : List (StreamFrame Bytes)) : Strand :=
  { d with wire := Function.update d.wire x l }

@[simps] def setDeaf (d : Strand) (x : Bool) (b : Bool) : Strand :=
  { d with deaf := Function.update d.deaf x b }

@[simp] theorem setView_self (d : Strand) (x : Bool) : d.setView x (d.view x) = d := by
  simp [setView]

@[simp] theorem setWire_self (d : Strand) (x : Bool) : d.setWire x (d.wire x) = d := by
  simp [setWire]

inductive Moves (d : Strand) : Strand → Prop where
  | same : Moves d d
  | own (x : Bool) (v : View) (hm : View.Moves (d.view x) v)
      (hr : x = true → v.reached = (d.view x).reached) : Moves d (d.setView x v)
  | write (x : Bool) (f : StreamFrame Bytes) (rest : List (StreamFrame Bytes))
      (hu : (d.view x).unsent = f::rest) :
    Moves d ((d.setView x { d.view x with unsent := rest }).setWire x (d.wire x++[f]))
  | hear (x : Bool) (f : Option (StreamFrame Bytes)) (rest : List (StreamFrame Bytes)) (v : View)
      (b : Bool) (hw : d.wire (!x) = f.toList++rest) (hd : d.deaf x = false)
      (hl : (d.view x).loop = .free) (hh : View.Hears (d.view x) f v) :
    Moves d (((d.setView x v).setWire (!x) rest).setDeaf x b)
  | miss (x : Bool) (rest : List (StreamFrame Bytes)) :
    Moves d ((d.setWire (!x) rest).setDeaf x true)
  | fail (x : Bool) (v : View) (rest : List (StreamFrame Bytes)) (b : Bool)
      (hm : View.Moves (d.view x) v) (hr : x = true → v.reached = (d.view x).reached)
      (he : v.loop = .ended) :
    Moves d (((d.setView x v).setWire (!x) rest).setDeaf x b)

structure Asked (d : Strand) (s : Flow Bytes) : Prop where
  fresh : (d.view false).reached = false → s.stage = .fresh ∧ (d.view false).asks = 0
  asking : (d.view false).asks ≠ 0 → s.stage = .fresh ∧ (d.view false).asks = 1
  offered : (d.view true).offers ≤ if s.stage = .offered then 1 else 0
  opener : (d.view false).offers = 0
  acceptor : (d.view true).asks = 0 ∧ (d.view true).reached = false

structure Simulates (d : Strand) (s : Flow Bytes) : Prop where
  half : ∀ x, s.half x = (d.view x).half
  loop : ∀ x, s.loop x = (d.view x).loop
  cmds : ∀ x, s.cmds x = (d.view x).queued
  wire : ∀ x, d.deaf (!x) = false → s.alive (!x) = true → ∃ lost,
    s.wire x = d.wire x++(d.view x).unsent++lost ∧ ((d.view x).writing = true → lost = [])
  pending : s.alive false = true → s.pending = (d.view false).pending
  bound : s.loop true ≠ .pend
  asked : Asked d s

theorem update_view {β : Type} (p : View → β) (g : Bool → β) (view : Bool → View)
    (h : ∀ y, g y = p (view y)) (x : Bool) (v : View) (y : Bool) :
    Function.update g x (p v) y = p (Function.update view x v y) := by
  rcases eq_or_ne y x with rfl | hne
  · simp
  · simpa [hne] using h y

theorem Asked.frame {d : Strand} {s : Flow Bytes} (h : Asked d s) (t : Flow Bytes) (x : Bool)
    (v : View) (hs : t.stage = s.stage) (ha : v.asks = (d.view x).asks)
    (hr : v.reached = (d.view x).reached) (ho : v.offers = (d.view x).offers) :
    Asked (d.setView x v) t := by
  have hview : ∀ y, ((d.setView x v).view y).asks = (d.view y).asks ∧
      ((d.setView x v).view y).reached = (d.view y).reached ∧
      ((d.setView x v).view y).offers = (d.view y).offers := by
    intro y
    rcases eq_or_ne y x with rfl | hne
    · simpa using ⟨ha,hr,ho⟩
    · simp [hne]
  obtain ⟨hfa,hfr,hfo⟩ := hview false
  obtain ⟨hta,htr,hto⟩ := hview true
  exact ⟨by rw [hfr, hfa, hs]; exact h.fresh,by rw [hfa, hs]; exact h.asking,
    by rw [hto, hs]; exact h.offered,by rw [hfo]; exact h.opener,by rw [hta, htr]; exact h.acceptor⟩

/-- Once the stream has been asked for, only the offers matter. -/
theorem Asked.advance {d : Strand} {s : Flow Bytes} (h : Asked d s) (t : Flow Bytes) (x : Bool)
    (v : View) (hs : s.stage ≠ .fresh) (ha : v.asks = (d.view x).asks)
    (hr : v.reached = (d.view x).reached)
    (ho : ((d.setView x v).view true).offers ≤ if t.stage = .offered then 1 else 0)
    (hop : ((d.setView x v).view false).offers = 0) : Asked (d.setView x v) t := by
  have hview : ∀ y, ((d.setView x v).view y).asks = (d.view y).asks ∧
      ((d.setView x v).view y).reached = (d.view y).reached := by
    intro y
    rcases eq_or_ne y x with rfl | hne
    · simpa using ⟨ha,hr⟩
    · simp [hne]
  refine ⟨fun hf => ?_,fun hn => ?_,ho,hop,?_⟩
  · rw [(hview false).2] at hf
    exact absurd (h.fresh hf).1 hs
  · rw [(hview false).1] at hn
    exact absurd (h.asking hn).1 hs
  · rw [(hview true).1, (hview true).2]
    exact h.acceptor

theorem Simulates.side {d : Strand} {s t : Flow Bytes} (h : Simulates d s) (x : Bool) (v : View)
    (hhalf : t.half = Function.update s.half x v.half)
    (hloop : t.loop = Function.update s.loop x v.loop)
    (hcmds : t.cmds = Function.update s.cmds x v.queued)
    (hlive : v.loop ≠ .ended → s.loop x ≠ .ended)
    (hwire : ∀ lost, s.wire x = d.wire x++(d.view x).unsent++lost →
      ((d.view x).writing = true → lost = []) →
      ∃ lost', t.wire x = d.wire x++v.unsent++lost' ∧ (v.writing = true → lost' = []))
    (hother : t.wire (!x) = s.wire (!x))
    (hpend : t.alive false = true → t.pending = ((d.setView x v).view false).pending)
    (hbound : x = true → v.loop ≠ .pend) (hasked : Asked (d.setView x v) t) :
    Simulates (d.setView x v) t where
  half y := by
    rw [hhalf]
    exact update_view View.half s.half d.view h.half x v y
  loop y := by
    rw [hloop]
    exact update_view View.loop s.loop d.view h.loop x v y
  cmds y := by
    rw [hcmds]
    exact update_view View.queued s.cmds d.view h.cmds x v y
  wire y hd ha := by
    have hs : s.alive (!y) = true := by
      rcases Bool.eq_or_eq_not y x with rfl | rfl
      · simpa [Flow.alive, hloop] using ha
      · simp only [Flow.alive, hloop, Bool.not_not, Function.update_self, bne_iff_ne] at ha ⊢
        exact hlive ha
    obtain ⟨lost,he,hl⟩ := h.wire y hd hs
    rcases Bool.eq_or_eq_not y x with rfl | rfl
    · simpa using hwire lost he hl
    · rw [hother]
      exact ⟨lost,by simpa using he,by simpa using hl⟩
  pending := hpend
  bound := by
    rw [hloop]
    cases x with
    | true => simpa using hbound rfl
    | false => simpa using h.bound
  asked := hasked

section
variable {d : Strand} {s : Flow Bytes} (h : Simulates d s) (x : Bool)
include h

theorem Simulates.half_self : s.half = Function.update s.half x (d.view x).half := by
  rw [← h.half, Function.update_eq_self]

theorem Simulates.loop_self : s.loop = Function.update s.loop x (d.view x).loop := by
  rw [← h.loop, Function.update_eq_self]

theorem Simulates.cmds_self : s.cmds = Function.update s.cmds x (d.view x).queued := by
  rw [← h.cmds, Function.update_eq_self]

theorem still_simulates (v : View) (hh : v.half = (d.view x).half) (hl : v.loop = (d.view x).loop)
    (hq : v.queued = (d.view x).queued) (hp : v.pending = (d.view x).pending)
    (hw : v.unsent = (d.view x).unsent ∧ v.writing = (d.view x).writing ∨
      v.unsent = [] ∧ v.writing = false)
    (ha : Asked (d.setView x v) s) : Simulates (d.setView x v) s := by
  apply h.side x v
  · rw [hh]
    exact h.half_self x
  · rw [hl]
    exact h.loop_self x
  · rw [hq]
    exact h.cmds_self x
  · rw [hl, h.loop]
    exact id
  · intro lost he hlost
    rcases hw with ⟨hu,hwr⟩ | ⟨hu,hwr⟩
    · exact ⟨lost,by rw [hu, he],by rw [hwr]; exact hlost⟩
    · exact ⟨(d.view x).unsent++lost,by simp [hu, he],by simp [hwr]⟩
  · rfl
  · intro hal
    rw [h.pending hal]
    rcases eq_or_ne false x with rfl | hne
    · simp [hp]
    · simp [hne]
  · rintro rfl
    rw [hl, ← h.loop]
    exact h.bound
  · exact ha

theorem ship_simulates (ho : Flow.Opening s) (f : StreamFrame Bytes)
    (rest : List (StreamFrame Bytes)) (hq : (d.view x).queued = f::rest)
    (hl : (d.view x).loop = .free) (hw : (d.view x).writing = true) :
    ∃ t, s.step (.ship x) = some t ∧ Simulates (d.setView x { d.view x with
      queued := rest
      unsent := (d.view x).unsent++[f]
      loop := Flow.afterShip f }) t := by
  have hc : s.cmds x = f::rest := (h.cmds x).trans hq
  have hfree : s.loop x = .free := (h.loop x).trans hl
  refine ⟨_,by simp only [Flow.step, hc, hfree, if_true]; rfl,?_⟩
  apply h.side x
  · exact h.half_self x
  · rfl
  · rfl
  · rw [hfree]
    simp
  · intro lost he hlost
    obtain rfl := hlost hw
    exact ⟨[],by simp [he],fun _ => rfl⟩
  · simp
  · intro hal
    have hpend : s.pending = (d.view false).pending := by
      apply h.pending
      rcases eq_or_ne false x with rfl | hne
      · simp [Flow.alive, hfree]
      · simpa [Flow.alive, hne] using hal
    rcases eq_or_ne false x with rfl | hne
    · simpa using hpend
    · simpa [hne] using hpend
  · rintro rfl hp
    have hopen : f = .openStream := by
      rcases f with _ | (_ | _) | _ | _ | _ <;> first | rfl | cases hp
    have h0 := ho.opens true
    rw [Flow.pipe, hc, hopen, List.countP_append, List.countP_cons_of_pos rfl] at h0
    simp at h0
  · exact h.asked.frame _ x _ rfl rfl rfl rfl

theorem ask_simulates (ha : 0 < (d.view false).asks) (hl : (d.view false).loop ≠ .ended) :
    ∃ t, s.step .ask = some t ∧ Simulates (d.setView false { d.view false with
      asks := (d.view false).asks-1
      queued := (d.view false).queued++[.openStream] }) t := by
  obtain ⟨hfresh,hone⟩ := h.asked.asking (by omega)
  have hreach : (d.view false).reached = true := by
    by_contra hr
    have h0 := (h.asked.fresh (by simpa using hr)).2
    omega
  have hal : s.alive false = true := by simpa [Flow.alive, h.loop] using hl
  refine ⟨_,by simp only [Flow.step, hfresh, hal, and_self, if_true]; rfl,?_⟩
  apply h.side false
  · exact h.half_self false
  · exact h.loop_self false
  · simp [Flow.emit, h.cmds]
  · exact fun _ => by simpa [h.loop] using hl
  · exact fun lost he hlost => ⟨lost,he,hlost⟩
  · rfl
  · exact fun _ => by simpa using h.pending hal
  · simp
  · refine ⟨?_,?_,?_,?_,?_⟩
    · simp [hreach]
    · simp [hone]
    · simpa [hfresh] using h.asked.offered
    · simpa using h.asked.opener
    · simpa using h.asked.acceptor

theorem reply_simulates (ok : Bool) (ho : 0 < (d.view true).offers)
    (hl : (d.view true).loop ≠ .ended) :
    ∃ t, s.step (.reply ok) = some t ∧ Simulates (d.setView true { d.view true with
      offers := (d.view true).offers-1
      queued := (d.view true).queued++[.ack ok] }) t := by
  have hoff := h.asked.offered
  have hs : s.stage = .offered := by
    by_contra hn
    rw [if_neg hn] at hoff
    omega
  rw [if_pos hs] at hoff
  have hal : s.alive true = true := by simpa [Flow.alive, h.loop] using hl
  refine ⟨_,by simp only [Flow.step, hs, hal, and_self, if_true]; rfl,?_⟩
  apply h.side true
  · exact h.half_self true
  · exact h.loop_self true
  · simp [Flow.emit, h.cmds]
  · exact fun _ => by simpa [h.loop] using hl
  · exact fun lost he hlost => ⟨lost,he,hlost⟩
  · rfl
  · exact fun hf => by simpa using h.pending hf
  · exact fun _ => by simpa [h.loop] using h.bound
  · refine ⟨fun hr => ?_,fun hn => ?_,?_,?_,?_⟩
    · have hf := (h.asked.fresh (by simpa using hr)).1
      rw [hs] at hf
      cases hf
    · have hf := (h.asked.asking (by simpa using hn)).1
      rw [hs] at hf
      cases hf
    · simp only [setView_view, Function.update_self]
      omega
    · simpa using h.asked.opener
    · simpa using h.asked.acceptor

theorem pend_simulates (hl : (d.view x).loop = .pend) :
    ∃ t, s.step (.bind x) = some t ∧
      Simulates (d.setView x { d.view x with loop := .free, pending := true }) t := by
  have hp : s.loop x = .pend := (h.loop x).trans hl
  have hx : x = false := by
    by_contra hn
    rw [Bool.not_eq_false] at hn
    exact h.bound (hn ▸ hp)
  subst hx
  refine ⟨_,by simp only [Flow.step, hp]; rfl,?_⟩
  apply h.side false
  · exact h.half_self false
  · rfl
  · exact h.cmds_self false
  · rw [hp]
    simp
  · exact fun lost he hlost => ⟨lost,he,hlost⟩
  · rfl
  · exact fun _ => by simp
  · simp
  · exact h.asked.frame _ false _ rfl rfl rfl rfl

theorem half_simulates (t : Flow Bytes) (g : Half Bytes) (l : Loop)
    (fs : List (StreamFrame Bytes)) (hl : l ≠ .ended → s.loop x ≠ .ended)
    (hb : x = true → l ≠ .pend) (hhalf : t.half = Function.update s.half x g)
    (hloop : t.loop = Function.update s.loop x l)
    (hcmds : t.cmds = Function.update s.cmds x (s.cmds x++fs)) (hwire : t.wire = s.wire)
    (hstage : t.stage = s.stage) (hpend : t.pending = s.pending) :
    Simulates (d.setView x { d.view x with
      half := g
      loop := l
      queued := (d.view x).queued++fs }) t := by
  apply h.side x
  · exact hhalf
  · exact hloop
  · rw [hcmds, h.cmds]
  · exact hl
  · intro lost he hlost
    exact ⟨lost,by rw [hwire, he],hlost⟩
  · rw [hwire]
  · intro hal
    rw [hpend, h.pending]
    · rcases eq_or_ne false x with rfl | hne
      · simp
      · simp [hne]
    · rcases eq_or_ne false x with rfl | hne
      · rw [Flow.alive, hloop, Function.update_self, bne_iff_ne] at hal
        simpa [Flow.alive] using hl hal
      · simpa [Flow.alive, hloop, hne] using hal
  · exact hb
  · exact h.asked.frame t x _ hstage rfl rfl rfl

theorem register_simulates (hl : (d.view x).loop = .register) :
    ∃ t, s.step (.bind x) = some t ∧
      Simulates (d.setView x { d.view x with loop := .free, half := .register }) t := by
  have hp : s.loop x = .register := (h.loop x).trans hl
  refine ⟨_,by simp only [Flow.step, hp]; rfl,?_⟩
  have hs := half_simulates h x ((s.setHalf x .register).setLoop x .free) .register .free []
    (fun _ => by simp [hp]) (by simp) rfl rfl
    (by rw [List.append_nil, Function.update_eq_self]; rfl) rfl rfl rfl
  simpa using hs

theorem notify_simulates (hl : (d.view x).loop = .granting) :
    ∃ t, s.step (.notify x) = some t ∧ Simulates (d.setView x { d.view x with
      loop := .free
      half := { (d.view x).half with out := (d.view x).half.out.notify } }) t := by
  have hp : s.loop x = .granting := (h.loop x).trans hl
  refine ⟨_,by simp only [Flow.step, hp]; rfl,?_⟩
  have hs := half_simulates h x
    ((s.setHalf x { s.half x with out := (s.half x).out.notify }).setLoop x .free)
    { s.half x with out := (s.half x).out.notify } .free []
    (fun _ => by simp [hp]) (by simp) rfl rfl
    (by rw [List.append_nil, Function.update_eq_self]; rfl) rfl rfl rfl
  simpa [h.half] using hs

theorem send_simulates (a : SendAct Bytes) (out : Sender Bytes) (f : Option (StreamFrame Bytes))
    (ha : a.admits ((d.view x).loop != .ended) = true)
    (hm : (d.view x).half.out.step a = some (out,f)) :
    ∃ t, s.step (.send x a) = some t ∧ Simulates (d.setView x { d.view x with
      half := { (d.view x).half with out := out }
      queued := (d.view x).queued++f.toList }) t := by
  rw [← h.loop] at ha
  rw [← h.half] at hm ⊢
  refine ⟨_,by simp only [Flow.step, Flow.alive, ha, hm, if_true]; rfl,?_⟩
  have hs := half_simulates h x ((s.setHalf x { s.half x with out := out }).emit x f)
    { s.half x with out := out } (d.view x).loop f.toList
    (by rw [h.loop]; exact id) (by rintro rfl; rw [← h.loop]; exact h.bound)
    rfl (h.loop_self x) rfl rfl rfl rfl
  exact hs

theorem recv_simulates (a : RecvAct) (inn : Receiver Bytes) (f : Option (StreamFrame Bytes))
    (ha : a.admits ((d.view x).loop != .ended) = true)
    (hm : (d.view x).half.inn.step (!(d.view x).half.streams) a = some (inn,f)) :
    ∃ t, s.step (.recv x a) = some t ∧ Simulates (d.setView x { d.view x with
      half := { (d.view x).half with inn := inn }
      queued := (d.view x).queued++f.toList }) t := by
  rw [← h.loop] at ha
  rw [← h.half] at hm ⊢
  refine ⟨_,by simp only [Flow.step, Flow.alive, ha, hm, if_true]; rfl,?_⟩
  have hs := half_simulates h x ((s.setHalf x { s.half x with inn := inn }).emit x f)
    { s.half x with inn := inn } (d.view x).loop f.toList
    (by rw [h.loop]; exact id) (by rintro rfl; rw [← h.loop]; exact h.bound)
    rfl (h.loop_self x) rfl rfl rfl rfl
  exact hs

theorem endLoop_simulates (hl : (d.view x).loop = .free) :
    ∃ t, s.step (.endLoop x) = some t ∧ Simulates (d.setView x { d.view x with
      half := (d.view x).half.orphan
      loop := .ended
      queued := []
      pending := false }) t := by
  have hp : s.loop x = .free := (h.loop x).trans hl
  refine ⟨_,by simp only [Flow.step, hp, if_true]; rfl,?_⟩
  apply h.side x
  · rw [← h.half]
    rfl
  · rfl
  · rfl
  · exact fun hn => absurd rfl hn
  · exact fun lost he hlost => ⟨lost,he,hlost⟩
  · rfl
  · intro hal
    rcases eq_or_ne false x with rfl | hne
    · simp [Flow.alive] at hal
    · have hs : s.alive false = true := by simpa [Flow.alive, hne] using hal
      simpa [hne] using h.pending hs
  · simp
  · exact h.asked.frame _ x _ rfl rfl rfl rfl

/-- A step of one side is a step of the flow, or none. -/
theorem own_simulates (ho : Flow.Opening s) (v : View) (hm : View.Moves (d.view x) v)
    (hr : x = true → v.reached = (d.view x).reached) :
    ∃ t, Stutter Flow.step s t ∧ Simulates (d.setView x v) t := by
  have hstep : ∀ a v, (∃ t, s.step a = some t ∧ Simulates (d.setView x v) t) →
      ∃ t, Stutter Flow.step s t ∧ Simulates (d.setView x v) t :=
    fun a _ ⟨t,ht,hs⟩ => ⟨t,.step a ht,hs⟩
  cases hm with
  | same =>
    exact ⟨s,.refl,still_simulates h x _ rfl rfl rfl rfl (Or.inl ⟨rfl,rfl⟩)
      (h.asked.frame s x _ rfl rfl rfl rfl)⟩
  | forget k hk =>
    refine ⟨s,.refl,still_simulates h x _ rfl rfl rfl rfl (Or.inl ⟨rfl,rfl⟩) ?_⟩
    have ha := h.asked
    cases x with
    | true =>
      exact ⟨by simpa using ha.fresh,by simpa using ha.asking,by simpa using hk.trans ha.offered,
        by simpa using ha.opener,by simpa using ha.acceptor⟩
    | false =>
      have h0 : k = 0 := by
        have hf := ha.opener
        omega
      exact ⟨by simpa using ha.fresh,by simpa using ha.asking,by simpa using ha.offered,
        by simpa using h0,by simpa using ha.acceptor⟩
  | reserve hreach =>
    refine ⟨s,.refl,still_simulates h x _ rfl rfl rfl rfl (Or.inl ⟨rfl,rfl⟩) ?_⟩
    cases x with
    | true =>
      have ht := hr rfl
      rw [hreach] at ht
      cases ht
    | false =>
      obtain ⟨hs,h0⟩ := h.asked.fresh hreach
      exact ⟨by simp,by simp [hs, h0],by simpa [hs] using h.asked.offered,
        by simpa using h.asked.opener,by simpa using h.asked.acceptor⟩
  | ask ha hl =>
    cases x with
    | true => exact absurd h.asked.acceptor.1 (by omega)
    | false => exact hstep _ _ (ask_simulates h ha hl)
  | reply ok hpos hl =>
    cases x with
    | true => exact hstep _ _ (reply_simulates h ok hpos hl)
    | false => exact absurd h.asked.opener (by omega)
  | ship f rest hq hl hw => exact hstep _ _ (ship_simulates h x ho f rest hq hl hw)
  | pend hl => exact hstep _ _ (pend_simulates h x hl)
  | register hl => exact hstep _ _ (register_simulates h x hl)
  | notify hl => exact hstep _ _ (notify_simulates h x hl)
  | send a out f ha hm => exact hstep _ _ (send_simulates h x a out f ha hm)
  | recv a inn f ha hm => exact hstep _ _ (recv_simulates h x a inn f ha hm)
  | endLoop hl => exact hstep _ _ (endLoop_simulates h x hl)
  | writerFail =>
    exact ⟨s,.refl,still_simulates h x _ rfl rfl rfl rfl (Or.inr ⟨rfl,rfl⟩)
      (h.asked.frame s x _ rfl rfl rfl rfl)⟩

theorem unheard_simulates (rest : List (StreamFrame Bytes)) (b : Bool)
    (hd : b = true ∨ s.alive x = false) :
    Simulates ((d.setWire (!x) rest).setDeaf x b) s where
  half := h.half
  loop := h.loop
  cmds := h.cmds
  wire y hy ha := by
    rcases Bool.eq_or_eq_not y x with rfl | rfl
    · obtain ⟨lost,he,hl⟩ := h.wire y (by simpa using hy) ha
      exact ⟨lost,by simpa using he,hl⟩
    · rw [Bool.not_not] at ha
      rcases hd with hd | hd
      · simp [hd] at hy
      · rw [hd] at ha
        cases ha
  pending := h.pending
  bound := h.bound
  asked := ⟨h.asked.fresh,h.asked.asking,h.asked.offered,h.asked.opener,h.asked.acceptor⟩

theorem write_simulates (f : StreamFrame Bytes) (rest : List (StreamFrame Bytes))
    (hu : (d.view x).unsent = f::rest) :
    Simulates ((d.setView x { d.view x with unsent := rest }).setWire x (d.wire x++[f])) s where
  half y := by
    rw [h.half_self x]
    exact update_view View.half s.half d.view h.half x { d.view x with unsent := rest } y
  loop y := by
    rw [h.loop_self x]
    exact update_view View.loop s.loop d.view h.loop x { d.view x with unsent := rest } y
  cmds y := by
    rw [h.cmds_self x]
    exact update_view View.queued s.cmds d.view h.cmds x { d.view x with unsent := rest } y
  wire y hy ha := by
    obtain ⟨lost,he,hl⟩ := h.wire y hy ha
    rcases eq_or_ne y x with rfl | hne
    · exact ⟨lost,by simp [he, hu],by simpa using hl⟩
    · exact ⟨lost,by simpa [hne] using he,by simpa [hne] using hl⟩
  pending ha := by
    rw [h.pending ha]
    rcases eq_or_ne false x with rfl | hne
    · simp
    · simp [hne]
  bound := h.bound
  asked := by
    have hf := h.asked.frame s x { d.view x with unsent := rest } rfl rfl rfl rfl
    exact ⟨hf.fresh,hf.asking,hf.offered,hf.opener,hf.acceptor⟩

theorem Simulates.taken (t : Flow Bytes) (v : View) (rest tail : List (StreamFrame Bytes))
    (b : Bool) (hl : (d.view x).loop = .free)
    (htail : ∃ lost, tail = rest++(d.view (!x)).unsent++lost ∧
      ((d.view (!x)).writing = true → lost = []))
    (hu : v.unsent = (d.view x).unsent) (hwr : v.writing = (d.view x).writing)
    (hhalf : t.half = Function.update s.half x v.half)
    (hloop : t.loop = Function.update s.loop x v.loop)
    (hcmds : t.cmds = Function.update s.cmds x v.queued)
    (hwire : t.wire = Function.update s.wire (!x) tail)
    (hpend : t.pending = ((d.setView x v).view false).pending ∨
      t.pending = s.pending ∧ v.pending = (d.view x).pending)
    (hbound : x = true → v.loop ≠ .pend) (hasked : Asked (d.setView x v) t) :
    Simulates (((d.setView x v).setWire (!x) rest).setDeaf x b) t where
  half y := by
    rw [hhalf]
    exact update_view View.half s.half d.view h.half x v y
  loop y := by
    rw [hloop]
    exact update_view View.loop s.loop d.view h.loop x v y
  cmds y := by
    rw [hcmds]
    exact update_view View.queued s.cmds d.view h.cmds x v y
  wire y hy ha := by
    rcases Bool.eq_or_eq_not y x with rfl | rfl
    · have hs : s.alive (!y) = true := by simpa [Flow.alive, hloop] using ha
      obtain ⟨lost,he,hlost⟩ := h.wire y (by simpa using hy) hs
      exact ⟨lost,by simpa [hwire, hu] using he,by simpa [hwr] using hlost⟩
    · obtain ⟨lost,he,hlost⟩ := htail
      exact ⟨lost,by simp [hwire, he],by simpa using hlost⟩
  pending ha := by
    rcases hpend with hp | ⟨hp,hvp⟩
    · simpa using hp
    · rw [hp, h.pending]
      · rcases eq_or_ne false x with rfl | hne
        · simp [hvp]
        · simp [hne]
      · rcases eq_or_ne false x with rfl | hne
        · simp [Flow.alive, h.loop, hl]
        · simpa [Flow.alive, hloop, hne] using ha
  bound := by
    rw [hloop]
    cases x with
    | true => simpa using hbound rfl
    | false => simpa using h.bound
  asked := ⟨hasked.fresh,hasked.asking,hasked.offered,hasked.opener,hasked.acceptor⟩

/-- An OpenStream comes to the side that accepts, which has not been offered it. -/
theorem open_arrives (ho : Flow.Opening s) (tail : List (StreamFrame Bytes))
    (hw : s.wire (!x) = .openStream::tail) :
    x = true ∧ s.stage = .opening ∧ (d.view true).offers = 0 := by
  have h0 := ho.opens (!x)
  rw [Flow.pipe, hw, List.cons_append, List.countP_cons_of_pos rfl] at h0
  split_ifs at h0 with hs
  · refine ⟨by simpa using hs.1,hs.2,?_⟩
    have hoff := h.asked.offered
    rw [hs.2] at hoff
    simpa using hoff
  · omega

omit h in
/-- An acknowledgement comes to the side that opened the stream. -/
theorem ack_arrives (ho : Flow.Opening s) (ok : Bool) (tail : List (StreamFrame Bytes))
    (hw : s.wire (!x) = .ack ok::tail) : x = false ∧ s.stage = .replied := by
  have h0 := ho.acks (!x)
  rw [Flow.pipe, hw, List.cons_append, List.countP_cons_of_pos rfl] at h0
  split_ifs at h0 with hs
  · exact ⟨by simpa using hs.1,hs.2⟩
  · omega

/-- A side that hears a frame of the stream handles it as the flow does. -/
theorem hear_simulates (ho : Flow.Opening s) (g : StreamFrame Bytes)
    (rest : List (StreamFrame Bytes)) (v : View) (b : Bool) (hw : d.wire (!x) = g::rest)
    (hd : d.deaf x = false) (hl : (d.view x).loop = .free)
    (hh : View.Hears (d.view x) (some g) v) :
    ∃ offer t, s.step (.handle x offer) = some t ∧
      Simulates (((d.setView x v).setWire (!x) rest).setDeaf x b) t := by
  have hfree : s.loop x = .free := (h.loop x).trans hl
  obtain ⟨lost,he,hlost⟩ := h.wire (!x) (by rwa [Bool.not_not])
    (by simp [Flow.alive, hfree])
  rw [hw, List.cons_append, List.cons_append] at he
  have htail : ∃ lost', rest++(d.view (!x)).unsent++lost = rest++(d.view (!x)).unsent++lost' ∧
      ((d.view (!x)).writing = true → lost' = []) := ⟨lost,rfl,hlost⟩
  have hstep : ∀ offer, s.step (.handle x offer) = some ({ s with
      wire := Function.update s.wire (!x) (rest++(d.view (!x)).unsent++lost) }.handleFrame x offer
        g) := by
    intro offer
    simp only [Flow.step, he, hfree, if_true]
  have hb : x = true → (d.view x).loop ≠ .pend := fun _ => by simp [hl]
  cases hh with
  | refuse =>
    obtain ⟨rfl,hs,h0⟩ := open_arrives h x ho _ he
    refine ⟨.reject,_,hstep _,h.taken true _ _ rest _ b hl htail rfl rfl (h.half_self true)
      (h.loop_self true) ?_ rfl (Or.inr ⟨rfl,rfl⟩) hb (h.asked.advance _ true _ (by simp [hs]) rfl
        rfl ?_ ?_)⟩
    · simp [Flow.handleFrame, h.cmds]
    · simp [h0]
    · simpa using h.asked.opener
  | offer =>
    obtain ⟨rfl,hs,h0⟩ := open_arrives h x ho _ he
    refine ⟨.accept,_,hstep _,h.taken true _ _ rest _ b hl htail rfl rfl (h.half_self true)
      (h.loop_self true) (h.cmds_self true) rfl (Or.inr ⟨rfl,rfl⟩) hb
      (h.asked.advance _ true _ (by simp [hs]) rfl rfl ?_ ?_)⟩
    · simp [Flow.handleFrame, h0]
    · simpa using h.asked.opener
  | ignore =>
    obtain ⟨rfl,hs,h0⟩ := open_arrives h x ho _ he
    refine ⟨.ignore,_,hstep _,h.taken true _ _ rest _ b hl htail rfl rfl (h.half_self true)
      (h.loop_self true) (h.cmds_self true) rfl (Or.inr ⟨rfl,rfl⟩) hb
      (h.asked.advance _ true _ (by simp [hs]) rfl rfl ?_ ?_)⟩
    · simp [h0]
    · simpa using h.asked.opener
  | ack ok hp =>
    obtain ⟨rfl,hs⟩ := ack_arrives x ho ok _ he
    have hpend : s.pending = true := by rw [h.pending (by simp [Flow.alive, hfree]), hp]
    have h0 : (d.view true).offers = 0 := by simpa [hs] using h.asked.offered
    have hf := fun offer =>
      (hstep offer).trans (congrArg some (Flow.handleFrame_expected _ offer ok hpend))
    refine ⟨.ignore,_,hf .ignore,h.taken false _ _ rest _ b hl htail rfl rfl ?_ (h.loop_self false)
      (h.cmds_self false) rfl (Or.inl (by simp)) (by simp) (h.asked.advance _ false _ (by simp [hs]) rfl
        rfl ?_ ?_)⟩
    · rw [← h.half]
      rfl
    · simp [h0]
    · simpa using h.asked.opener
  | stray ok hp =>
    obtain ⟨rfl,hs⟩ := ack_arrives x ho ok _ he
    have hpend : s.pending = false := by rw [h.pending (by simp [Flow.alive, hfree]), hp]
    have h0 : (d.view true).offers = 0 := by simpa [hs] using h.asked.offered
    have hf := fun offer =>
      (hstep offer).trans (congrArg some (Flow.handleFrame_stray _ offer ok hpend))
    refine ⟨.ignore,_,hf .ignore,h.taken false _ _ rest _ b hl htail rfl rfl (h.half_self false)
      (h.loop_self false) (h.cmds_self false) rfl (Or.inr ⟨rfl,rfl⟩) (by simp)
      (h.asked.advance _ false _ (by simp [hs]) rfl rfl ?_ ?_)⟩
    · simp [h0]
    · simpa using h.asked.opener
  | data c =>
    refine ⟨.ignore,_,hstep _,h.taken x _ _ rest _ b hl htail rfl rfl ?_ (h.loop_self x)
      (h.cmds_self x) rfl (Or.inr ⟨rfl,rfl⟩) hb (h.asked.frame _ x _ rfl rfl rfl rfl)⟩
    rw [← h.half]
    rfl
  | close =>
    refine ⟨.ignore,_,hstep _,h.taken x _ _ rest _ b hl htail rfl rfl ?_ (h.loop_self x)
      (h.cmds_self x) rfl (Or.inr ⟨rfl,rfl⟩) hb (h.asked.frame _ x _ rfl rfl rfl rfl)⟩
    rw [← h.half]
    rfl
  | credit n =>
    cases hcr : (d.view x).half.credits with
    | true =>
      have hf := fun offer => (hstep offer).trans (congrArg some
        (Flow.handleFrame_granting _ x offer n ((congrArg Half.credits (h.half x)).trans hcr)))
      refine ⟨.ignore,_,hf .ignore,h.taken x _ _ rest _ b hl htail rfl rfl ?_ rfl
        (h.cmds_self x) rfl (Or.inr ⟨rfl,rfl⟩) (by simp) (h.asked.frame _ x _ rfl rfl rfl rfl)⟩
      rw [← h.half]
      rfl
    | false =>
      have hf := fun offer => (hstep offer).trans (congrArg some
        (Flow.handleFrame_unlisted _ x offer n ((congrArg Half.credits (h.half x)).trans hcr)))
      refine ⟨.ignore,_,hf .ignore,h.taken x _ _ rest _ b hl htail rfl rfl ?_ (h.loop_self x)
        (h.cmds_self x) rfl (Or.inr ⟨rfl,rfl⟩) hb (h.asked.frame _ x _ rfl rfl rfl rfl)⟩
      rw [← h.half]
      rfl

/-- A side may turn deaf at any time. -/
theorem deafen_simulates (b : Bool) (hd : d.deaf x = false) : Simulates (d.setDeaf x b) s where
  half := h.half
  loop := h.loop
  cmds := h.cmds
  wire y hy ha := by
    apply h.wire y _ ha
    rcases eq_or_ne (!y) x with rfl | hne
    · exact hd
    · simpa [hne] using hy
  pending := h.pending
  bound := h.bound
  asked := ⟨h.asked.fresh,h.asked.asking,h.asked.offered,h.asked.opener,h.asked.acceptor⟩

end

/-- Every step of a strand is a step of the flow, or none. -/
theorem step_simulates {d e : Strand} {s : Flow Bytes} (h : Simulates d s) (ho : Flow.Opening s)
    (hm : Moves d e) : ∃ t, Stutter Flow.step s t ∧ Simulates e t := by
  cases hm with
  | same => exact ⟨s,.refl,h⟩
  | own x v hm hr => exact own_simulates h x ho v hm hr
  | write x f rest hu => exact ⟨s,.refl,write_simulates h x f rest hu⟩
  | hear x f rest v b hw hd hl hh =>
    cases f with
    | some g =>
      obtain ⟨offer,t,ht,hs⟩ := hear_simulates h x ho g rest v b hw hd hl hh
      exact ⟨t,.step _ ht,hs⟩
    | none =>
      cases hh
      obtain rfl : d.wire (!x) = rest := hw
      have hself : (d.setView x (d.view x)).setWire (!x) (d.wire (!x)) = d := by simp
      rw [hself]
      exact ⟨s,.refl,deafen_simulates h x b hd⟩
  | miss x rest => exact ⟨s,.refl,unheard_simulates h x rest true (Or.inl rfl)⟩
  | fail x v rest b hm hr he =>
    obtain ⟨t,ht,hs⟩ := own_simulates h x ho v hm hr
    have hal : t.alive x = false := by simp [Flow.alive, hs.loop, he]
    exact ⟨t,ht,unheard_simulates hs x rest b (Or.inr hal)⟩

end Strand
end Hydr.Ws
