import Std.Data.TreeMap.Lemmas
import Mathlib.Data.List.Basic

/-!
# Maps into a growing list

A list to which items are only added, and a map from a key of the items to places in the list. An
item whose key the map already has is added to the list only.

* `Indexes.snoc`: adding an item.
* `Indexes.congr`: a change of the items that leaves their keys alone.
* `Indexes.find`: what the map has is in the list.
-/

variable {α κ : Type} [Ord κ]

/-- `m` has the keys of `xs`, each with a place of `xs` where an item has it. -/
structure Indexes (key : α → κ) (xs : List α) (m : Std.TreeMap κ Nat) : Prop where
  sound : ∀ (k : κ) (i : Nat), m[k]? = some i → (xs.map key)[i]? = some k
  complete : ∀ k ∈ xs.map key, k ∈ m

namespace Indexes

variable {key : α → κ} {xs ys : List α} {m : Std.TreeMap κ Nat}

theorem congr (h : Indexes key xs m) (hkey : ys.map key = xs.map key) : Indexes key ys m := by
  constructor <;> rw [hkey]
  · exact h.sound
  · exact h.complete

/-- A change of one item. -/
theorem modify (h : Indexes key xs m) (i : Nat) {f : α → α} (hf : ∀ x, key (f x) = key x) :
    Indexes key (xs.modify i f) m := by
  refine h.congr (List.ext_getElem? fun j => ?_)
  rw [List.getElem?_map, List.getElem?_map, List.getElem?_modify]
  cases xs[j]? with
  | none => rfl
  | some x =>
    show some (key (if i = j then f x else x)) = some (key x)
    split
    · rw [hf]
    · rfl

variable [Std.TransOrd κ]

/-- What a map has stays when another item is added. -/
theorem insertIfNew_some [Std.LawfulEqOrd κ] {β : Type} {m : Std.TreeMap κ β} {k : κ} {v v' : β}
    (k' : κ) (h : m[k]? = some v) : (m.insertIfNew k' v')[k]? = some v := by
  rw [Std.TreeMap.getElem?_insertIfNew, if_neg]
  · exact h
  · rintro ⟨hcmp, hnot⟩
    obtain rfl := Std.LawfulEqCmp.eq_of_compare hcmp
    rw [Std.TreeMap.getElem?_eq_none hnot] at h
    cases h

theorem nil : Indexes key [] ∅ where
  sound := by simp
  complete := by simp

theorem snoc [Std.LawfulEqOrd κ] (h : Indexes key xs m) (x : α) :
    Indexes key (xs ++ [x]) (m.insertIfNew (key x) xs.length) where
  sound k i hi := by
    rw [List.map_append, List.map_singleton]
    rw [Std.TreeMap.getElem?_insertIfNew] at hi
    split at hi
    · next hx =>
      obtain rfl := Std.LawfulEqCmp.eq_of_compare hx.1
      obtain rfl := Option.some.inj hi
      simp
    · have := h.sound k i hi
      rw [List.getElem?_append_left (List.getElem?_eq_some_iff.mp this).1]
      exact this
  complete k hk := by
    rw [Std.TreeMap.mem_insertIfNew]
    rw [List.map_append, List.map_singleton, List.mem_append, List.mem_singleton] at hk
    rcases hk with hk | rfl
    · exact .inr (h.complete k hk)
    · exact .inl Std.ReflCmp.compare_self

theorem mem_iff (h : Indexes key xs m) (k : κ) : k ∈ m ↔ k ∈ xs.map key := by
  refine ⟨fun hk => ?_, h.complete k⟩
  exact List.mem_of_getElem? (h.sound k m[k] (Std.TreeMap.getElem?_eq_some_getElem hk))

theorem find (h : Indexes key xs m) {k : κ} (hk : k ∈ m) :
    ∃ i x, m[k]? = some i ∧ xs[i]? = some x ∧ key x = k := by
  have hi := Std.TreeMap.getElem?_eq_some_getElem hk
  have := h.sound _ _ hi
  rw [List.getElem?_map, Option.map_eq_some_iff] at this
  obtain ⟨x, hx, hkey⟩ := this
  exact ⟨m[k], x, hi, hx, hkey⟩

end Indexes
