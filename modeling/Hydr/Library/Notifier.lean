import Mathlib

/-!
# Futures that a notification wakes

A task that waits for a notification creates a future, enables it and awaits it.
A notification of all waiters wakes every future that has been enabled by then.
Nothing else is relied on: a future that is merely created may be woken or not.
-/

set_option autoImplicit false

structure Notifier where
  State : Type
  Future : Type
  notified : State → Future × State
  enable : Future → State → State
  notifyWaiters : State → State
  /-- An await of the future would return at once. -/
  woken : Future → State → Bool
  Created : Future → State → Prop
  Enabled : Future → State → Prop
  created_notified (s : State) : Created (notified s).1 (notified s).2
  created_notifyWaiters (f : Future) (s : State) : Created f s → Created f (notifyWaiters s)
  enabled_enable (f : Future) (s : State) : Created f s → Enabled f (enable f s)
  enabled_notifyWaiters (f : Future) (s : State) : Enabled f s → Enabled f (notifyWaiters s)
  woken_notifyWaiters (f : Future) (s : State) : Enabled f s → woken f (notifyWaiters s) = true

namespace Notifier

def counting : Notifier where
  State := ℕ
  Future := ℕ
  notified s := (s,s)
  enable _ s := s
  notifyWaiters s := s+1
  woken f s := f < s
  Created f s := f ≤ s
  Enabled f s := f ≤ s
  created_notified _ := le_rfl
  created_notifyWaiters _ _ h := Nat.le_succ_of_le h
  enabled_enable _ _ h := h
  enabled_notifyWaiters _ _ h := Nat.le_succ_of_le h
  woken_notifyWaiters _ _ h := decide_eq_true (Nat.lt_succ_of_le h)

def flag : Notifier where
  State := Bool
  Future := Unit
  notified _ := ((),false)
  enable _ s := s
  notifyWaiters _ := true
  woken _ s := s
  Created _ _ := True
  Enabled _ _ := True
  created_notified _ := trivial
  created_notifyWaiters _ _ h := h
  enabled_enable _ _ h := h
  enabled_notifyWaiters _ _ h := h
  woken_notifyWaiters _ _ _ := rfl

end Notifier
