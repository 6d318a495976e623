import Mathlib.Tactic.Common

/-!
# Maps sorted by their keys

A `std::map` as the list of its entries in the order in which it is iterated: the keys go up
strictly, so each occurs once. Assigning to a key changes the value of its entry, or puts a new one
in its place in the order.

## Main definitions

- `SortedMap κ α` — the entries, with their order as a field
- `SortedMap.assign` — `m[key] = value`
-/

/-- The entries of a map, in the order of their keys. -/
structure SortedMap (κ α : Type*) [LT κ] where
  entries : List (κ × α)
  sorted : entries.Pairwise fun a b => a.1 < b.1

namespace SortedMap

variable {κ α : Type*} [LT κ]

theorem ne_of_key_lt [Std.Irrefl (· < · : κ → κ → Prop)] {a b : κ} (h : a < b) : b ≠ a := by
  rintro rfl
  exact Std.Irrefl.irrefl _ h

variable [DecidableLT κ] [DecidableEq κ]

def empty : SortedMap κ α := ⟨[], List.Pairwise.nil⟩

/-- The entries after `m[key] = value`. -/
def assignEntries (key : κ) (value : α) : List (κ × α) → List (κ × α)
  | [] => [(key, value)]
  | entry :: entries =>
    if key = entry.1 then (key, value) :: entries
    else if key < entry.1 then (key, value) :: entry :: entries
    else entry :: assignEntries key value entries

theorem mem_assignEntries_imp {key : κ} {value : α} {entries : List (κ × α)} {e : κ × α}
    (h : e ∈ assignEntries key value entries) : e = (key, value) ∨ e ∈ entries := by
  induction entries with
  | nil => exact .inl (List.mem_singleton.mp h)
  | cons entry entries ih =>
    rw [assignEntries] at h
    split at h
    · exact (List.mem_cons.mp h).imp_right (List.mem_cons_of_mem _)
    · split at h
      · exact List.mem_cons.mp h
      · obtain rfl | h := List.mem_cons.mp h
        · exact .inr List.mem_cons_self
        · exact (ih h).imp_right (List.mem_cons_of_mem _)

variable [Trans (· < · : κ → κ → Prop) (· < ·) (· < ·)]

theorem mem_assignEntries [Std.Irrefl (· < · : κ → κ → Prop)] {entries : List (κ × α)}
    (h : entries.Pairwise fun a b => a.1 < b.1) {key : κ} {value : α} {k : κ} {v : α} :
    (k, v) ∈ assignEntries key value entries ↔
      k = key ∧ v = value ∨ k ≠ key ∧ (k, v) ∈ entries := by
  induction entries with
  | nil => simp [assignEntries]
  | cons entry entries ih =>
    obtain ⟨hfirst, hrest⟩ := List.pairwise_cons.mp h
    rw [assignEntries]
    split
    · next heq =>
      have hkept : (k, v) ∈ entries ↔ k ≠ key ∧ (k, v) ∈ entry :: entries := by
        constructor
        · exact fun hmem => ⟨heq ▸ ne_of_key_lt (hfirst _ hmem), List.mem_cons_of_mem _ hmem⟩
        · rintro ⟨hne, hmem⟩
          refine (List.mem_cons.mp hmem).resolve_left ?_
          rintro rfl
          exact hne heq.symm
      rw [List.mem_cons, Prod.mk.injEq, hkept]
    · next hne =>
      split
      · next hlt =>
        have hkept : (k, v) ∈ entry :: entries ↔ k ≠ key ∧ (k, v) ∈ entry :: entries := by
          refine ⟨fun hmem => ⟨?_, hmem⟩, And.right⟩
          obtain rfl | hmem := List.mem_cons.mp hmem
          · exact ne_of_key_lt hlt
          · exact ne_of_key_lt (Trans.trans hlt (hfirst _ hmem))
        rw [List.mem_cons, Prod.mk.injEq, ← hkept]
      · rw [List.mem_cons, List.mem_cons, ih hrest]
        constructor
        · rintro (rfl | hnew | hold)
          · exact .inr ⟨Ne.symm hne, .inl rfl⟩
          · exact .inl hnew
          · exact .inr ⟨hold.1, .inr hold.2⟩
        · rintro (hnew | ⟨hk, heq | hmem⟩)
          · exact .inr (.inl hnew)
          · exact .inl heq
          · exact .inr (.inr ⟨hk, hmem⟩)

variable [Std.Trichotomous (· < · : κ → κ → Prop)]

theorem sorted_assignEntries {entries : List (κ × α)}
    (h : entries.Pairwise fun a b => a.1 < b.1) (key : κ) (value : α) :
    (assignEntries key value entries).Pairwise fun a b => a.1 < b.1 := by
  induction entries with
  | nil => exact List.pairwise_singleton _ _
  | cons entry entries ih =>
    obtain ⟨hfirst, hrest⟩ := List.pairwise_cons.mp h
    rw [assignEntries]
    split
    · next heq => exact List.pairwise_cons.mpr ⟨fun e he => heq ▸ hfirst e he, hrest⟩
    · next hne =>
      split
      · next hlt =>
        refine List.pairwise_cons.mpr ⟨fun e he => ?_, h⟩
        obtain rfl | he := List.mem_cons.mp he
        · exact hlt
        · exact Trans.trans hlt (hfirst e he)
      · next hge =>
        refine List.pairwise_cons.mpr ⟨fun e he => ?_, ih hrest⟩
        obtain rfl | he := mem_assignEntries_imp he
        · -- neither equal nor in front, so behind
          by_contra hn
          exact hne (Std.Trichotomous.trichotomous _ _ hge hn)
        · exact hfirst e he

/-- `m[key] = value` -/
def assign (m : SortedMap κ α) (key : κ) (value : α) : SortedMap κ α :=
  ⟨assignEntries key value m.entries, sorted_assignEntries m.sorted key value⟩

/-- **Assignment**: the key has the new value, and the other entries are kept. -/
theorem mem_assign [Std.Irrefl (· < · : κ → κ → Prop)] {m : SortedMap κ α} {key : κ} {value : α}
    {k : κ} {v : α} :
    (k, v) ∈ (m.assign key value).entries ↔
      k = key ∧ v = value ∨ k ≠ key ∧ (k, v) ∈ m.entries :=
  mem_assignEntries m.sorted

/-! ## Looking up keys -/

omit [DecidableLT κ] [DecidableEq κ] [Trans (· < · : κ → κ → Prop) (· < ·) (· < ·)]
  [Std.Trichotomous (· < · : κ → κ → Prop)] in
/-- No two entries have one key. -/
theorem nodup_keys [Std.Irrefl (· < · : κ → κ → Prop)] (m : SortedMap κ α) :
    (m.entries.map Prod.fst).Nodup :=
  List.pairwise_map.mpr (m.sorted.imp fun h => (ne_of_key_lt h).symm)

end SortedMap

namespace SortedMap

variable {κ α β : Type*} [BEq κ] [LawfulBEq κ]

theorem mem_of_lookup_eq_some {entries : List (κ × α)} {key : κ} {value : α}
    (h : entries.lookup key = some value) : (key, value) ∈ entries := by
  obtain ⟨front, back, rfl, -⟩ := List.lookup_eq_some_iff.mp h
  exact List.mem_append_right _ List.mem_cons_self

variable [DecidableEq κ]

/-- Where the entry of a key brings something, the entries bring one element if and only if that
    entry alone does. -/
theorem flatMap_eq_iff {entries : List (κ × α)} (hkeys : (entries.map Prod.fst).Nodup)
    {f : κ × α → List β} {key : κ} {x : β} (hf : ∀ value, f (key, value) ≠ []) :
    entries.flatMap f = (if (entries.lookup key).isNone then [] else [x]) ↔
      ∀ entry ∈ entries, f entry = if entry.1 = key then [x] else [] := by
  induction entries with
  | nil => simp
  | cons entry entries ih =>
    obtain ⟨name, value⟩ := entry
    rw [List.map_cons, List.nodup_cons] at hkeys
    obtain ⟨hfirst, hkeys⟩ := hkeys
    rw [List.forall_mem_cons, ← ih hkeys, List.flatMap_cons]
    by_cases hname : name = key
    · subst hname
      have hnone : entries.lookup name = none := by
        refine List.lookup_eq_none_iff.mpr fun e he => bne_iff_ne.mpr fun h => ?_
        exact hfirst (List.mem_map.mpr ⟨e, he, h.symm⟩)
      have hsome : ((name, value) :: entries).lookup name = some value := by simp
      rw [hnone, hsome, if_pos rfl]
      simp [List.append_eq_singleton_iff, hf value]
    · have hlookup : ((name, value) :: entries).lookup key = entries.lookup key := by
        rw [List.lookup_cons, beq_eq_false_iff_ne.mpr (Ne.symm hname)]
      rw [hlookup, if_neg hname]
      cases hv : entries.lookup key with
      | none => simp
      | some v =>
        have hne : entries.flatMap f ≠ [] := fun h =>
          hf v (List.flatMap_eq_nil_iff.mp h _ (mem_of_lookup_eq_some hv))
        simp [List.append_eq_singleton_iff, hne]

end SortedMap
