import Mathlib

/-!
# Counting the entries of an association list

How many entries satisfy a predicate after an entry has been added, replaced
or removed. Each operation changes the count by what it says about one entry.
Entries in no order are found by their key, too, and what a lookup finds after an
operation is the new entry or an old one.
-/

set_option autoImplicit false

namespace Table

variable {κ ν : Type*} [DecidableEq κ]

/-- An entry that a lookup finds stands in front of the rest. -/
theorem entries_perm (s : AList (fun _ : κ => ν)) (k : κ) (v : ν) (h : s.lookup k = some v) :
    s.entries.Perm (⟨k,v⟩::(s.erase k).entries) := by
  have hk : k ∈ s.entries.keys := AList.mem_keys.mp (AList.lookup_isSome.mp (by simp [h]))
  obtain ⟨b,l,r,hl,he,hr⟩ := List.exists_of_kerase hk
  have hb : s.lookup k = some b := AList.mem_lookup_iff.mpr (by rw [he]; simp)
  obtain rfl : v = b := Option.some.inj (h.symm.trans hb)
  rw [show (s.erase k).entries = l++r from hr, he]
  exact List.perm_middle

theorem lookup_insert_cases {s : AList (fun _ : κ => ν)} {k c : κ} {u v : ν}
    (h : (s.insert c v).lookup k = some u) : k = c ∧ u = v ∨ k ≠ c ∧ s.lookup k = some u := by
  by_cases he : k = c
  · subst he
    exact Or.inl ⟨rfl,(Option.some.inj ((AList.lookup_insert _).symm.trans h)).symm⟩
  · exact Or.inr ⟨he,(AList.lookup_insert_ne he).symm.trans h⟩

theorem lookup_of_erase {s : AList (fun _ : κ => ν)} {k c : κ} {u : ν}
    (h : (s.erase c).lookup k = some u) : s.lookup k = some u := by
  by_cases he : k = c
  · subst he
    rw [AList.lookup_erase] at h
    cases h
  · exact (AList.lookup_erase_ne he).symm.trans h

theorem update_cases {f : κ → ν} {k c : κ} {u v : ν} (h : Function.update f c v k = u) :
    k = c ∧ v = u ∨ k ≠ c ∧ f k = u := by
  by_cases he : k = c
  · subst he
    exact Or.inl ⟨rfl,(Function.update_self ..).symm.trans h⟩
  · exact Or.inr ⟨he,(Function.update_of_ne he ..).symm.trans h⟩

variable (p : (_ : κ) × ν → Bool)

theorem countP_erase (s : AList (fun _ : κ => ν)) (k : κ) (v : ν) (h : s.lookup k = some v) :
    (s.erase k).entries.countP p+(if p ⟨k,v⟩ then 1 else 0) = s.entries.countP p := by
  rw [(entries_perm s k v h).countP_eq p, List.countP_cons]

theorem countP_insert (s : AList (fun _ : κ => ν)) (k : κ) (v : ν) :
    (s.insert k v).entries.countP p =
      (s.erase k).entries.countP p+(if p ⟨k,v⟩ then 1 else 0) := by
  rw [AList.entries_insert, List.countP_cons]
  rfl

theorem countP_insert_new (s : AList (fun _ : κ => ν)) (k : κ) (v : ν) (h : s.lookup k = none) :
    (s.insert k v).entries.countP p = s.entries.countP p+(if p ⟨k,v⟩ then 1 else 0) := by
  rw [AList.entries_insert_of_notMem (AList.lookup_eq_none.mp h), List.countP_cons]

theorem countP_insert_same (s : AList (fun _ : κ => ν)) (k : κ) (v w : ν)
    (h : s.lookup k = some v) (hp : p ⟨k,w⟩ = p ⟨k,v⟩) :
    (s.insert k w).entries.countP p = s.entries.countP p := by
  rw [countP_insert, hp, countP_erase p s k v h]

theorem length_erase (s : AList (fun _ : κ => ν)) (k : κ) (v : ν) (h : s.lookup k = some v) :
    (s.erase k).entries.length+1 = s.entries.length := by
  simp [(entries_perm s k v h).length_eq]

theorem length_insert_new (s : AList (fun _ : κ => ν)) (k : κ) (v : ν) (h : s.lookup k = none) :
    (s.insert k v).entries.length = s.entries.length+1 := by
  rw [AList.entries_insert_of_notMem (AList.lookup_eq_none.mp h), List.length_cons]

theorem length_insert_same (s : AList (fun _ : κ => ν)) (k : κ) (v w : ν)
    (h : s.lookup k = some v) : (s.insert k w).entries.length = s.entries.length := by
  rw [AList.entries_insert, List.length_cons]
  exact length_erase s k v h

theorem filter_key_none (s : Multiset (κ × ν)) (k : κ) (h : k ∉ s.map Prod.fst) :
    s.filter (·.1 = k) = 0 := by
  rw [Multiset.filter_eq_nil]
  intro p hp hk
  exact h (Multiset.mem_map.mpr ⟨p,hp,hk⟩)

theorem filter_key (s : Multiset (κ × ν)) (k : κ) (v : ν) (h : (s.map Prod.fst).Nodup)
    (hm : (k,v) ∈ s) : s.filter (·.1 = k) = {(k,v)} := by
  obtain ⟨t,rfl⟩ := Multiset.exists_cons_of_mem hm
  rw [Multiset.map_cons, Multiset.nodup_cons] at h
  rw [Multiset.filter_cons_of_pos t (by rfl), filter_key_none t k h.1]
  rfl

end Table
