import Odb.Utils.RangeMapSpec

/-!
# `RangeMap` after any sequence of `set` calls

* `lastSet`: the plain map from keys to values that a range map stands for, the value of the last
  call whose interval holds the key.
* `get_setAll`: `get` computes it, and no key of `set` wraps around.
* `IsRun`: a maximal run of equal value. `setAll_canonical`: the ranges of a map are its maximal
  runs, in key order, and depend on the values only.
-/

namespace Odb.RangeMap

open Pieces

variable {T : Type}

/-- The arguments of one call of `set`. -/
structure SetCall (T : Type) where
  low : UInt64
  high : UInt64
  val : T

/-- The call is one that the assertions of `set` let pass. -/
def SetCall.Valid (minKey maxKey : UInt64) (c : SetCall T) : Prop :=
  minKey ≤ c.low ∧ c.low ≤ c.high ∧ c.high ≤ maxKey

instance (minKey maxKey : UInt64) (c : SetCall T) : Decidable (c.Valid minKey maxKey) :=
  inferInstanceAs (Decidable (_ ∧ _ ∧ _))

/-- The interval of the call holds `k`. -/
def SetCall.Covers (c : SetCall T) (k : UInt64) : Prop := c.low ≤ k ∧ k ≤ c.high

instance (c : SetCall T) (k : UInt64) : Decidable (c.Covers k) :=
  inferInstanceAs (Decidable (_ ∧ _))

/-- The calls, one after the other. -/
def setAll [DecidableEq T] (m : RangeMap T) : List (SetCall T) → Except Fault (RangeMap T)
  | [] => .ok m
  | c :: cs => do
    let m ← m.set c.low c.high c.val
    m.setAll cs

/-- The value of the last call whose interval holds `k`, or the initial value. -/
def lastSet (v₀ : T) (calls : List (SetCall T)) (k : UInt64) : T :=
  ((calls.filter fun c => c.Covers k).getLast?.map (·.val)).getD v₀

theorem lastSet_cons (v₀ : T) (c : SetCall T) (cs : List (SetCall T)) (k : UInt64) :
    lastSet v₀ (c :: cs) k = lastSet (if c.Covers k then c.val else v₀) cs k := by
  unfold lastSet
  rw [List.filter_cons]
  by_cases h : c.Covers k
  · rw [if_pos (by simpa using h), if_pos h, List.getLast?_cons]
    cases hl : (cs.filter fun c => c.Covers k).getLast? with
    | none => simp
    | some d => simp
  · rw [if_neg (by simpa using h), if_neg h]

theorem new_value {minKey maxKey k : UInt64} (v₀ : T) (hk : minKey ≤ k) :
    valueAt (new minKey maxKey v₀).ranges k = some v₀ := by
  simp [new, valueAt_cons, hk]

section Run

variable [DecidableEq T]

/-- A run of `setAll`: every call returns, the invariant and the bounds stay, and the map becomes
that of the last calls. -/
theorem setAll_spec {m : RangeMap T} (hm : m.WF) (f : UInt64 → T)
    (hf : ∀ k, m.minKey ≤ k → k ≤ m.maxKey → valueAt m.ranges k = some (f k))
    (calls : List (SetCall T)) (hc : ∀ c ∈ calls, c.Valid m.minKey m.maxKey) :
    ∃ m', m.setAll calls = .ok m' ∧ m'.WF ∧ m'.minKey = m.minKey ∧ m'.maxKey = m.maxKey ∧
      ∀ k, m.minKey ≤ k → k ≤ m.maxKey →
        valueAt m'.ranges k = some (lastSet (f k) calls k) := by
  induction calls generalizing m f with
  | nil => exact ⟨m, rfl, hm, rfl, rfl, hf⟩
  | cons c cs ih =>
    obtain ⟨h1, h2, h3⟩ := hc c List.mem_cons_self
    obtain ⟨m₁, e, hwf, hmin, hmax, hv⟩ := set_spec hm c.val h1 h2 h3
    obtain ⟨m', e', hwf', hmin', hmax', hv'⟩ := ih hwf (fun k => if c.Covers k then c.val else f k)
      (fun k hk1 hk2 => by
        rw [hmin] at hk1
        rw [hmax] at hk2
        rw [hv k hk2, hf k hk1 hk2]
        by_cases hck : c.Covers k
        · rw [if_pos (show c.low ≤ k ∧ k ≤ c.high from hck), if_pos hck]
        · rw [if_neg (show ¬ (c.low ≤ k ∧ k ≤ c.high) from hck), if_neg hck])
      (fun d hd => by rw [hmin, hmax]; exact hc d (List.mem_cons_of_mem _ hd))
    refine ⟨m', ?_, hwf', hmin'.trans hmin, hmax'.trans hmax, fun k hk1 hk2 => ?_⟩
    · rw [setAll, e, ok_bind, e']
    · rw [lastSet_cons]
      exact hv' k (hmin ▸ hk1) (hmax ▸ hk2)

/-- `get(k)` is the value of the last `set` whose interval holds `k`, or the initial value, after
any sequence of valid calls. The key after an interval is a successor without wrap. -/
theorem get_setAll {minKey maxKey : UInt64} (h : minKey ≤ maxKey) (v₀ : T)
    (calls : List (SetCall T)) (hc : ∀ c ∈ calls, c.Valid minKey maxKey) :
    ∃ m, (new minKey maxKey v₀).setAll calls = .ok m ∧
      (∀ k, minKey ≤ k → k ≤ maxKey → m.get k = .ok (lastSet v₀ calls k)) ∧
      ∀ c ∈ calls, ∀ next, m.afterKey c.high = some next → next.toNat = c.high.toNat + 1 := by
  obtain ⟨m, e, hwf, hmin, hmax, hv⟩ := setAll_spec (wf_new h v₀) (fun _ => v₀)
    (fun k hk _ => new_value v₀ hk) calls hc
  refine ⟨m, e, fun k h1 h2 => ?_, fun c hcm next hn => ?_⟩
  · exact get_eq hwf (by rw [hmin]; exact h1) (by rw [hmax]; exact h2) (hv k h1 h2)
  · unfold afterKey at hn
    split at hn
    · rename_i hne
      cases hn
      have hle : c.high ≤ m.maxKey := by rw [hmax]; exact (hc c hcm).2.2
      exact Word.toNat_add_one (lt_of_le_of_ne hle hne)
    · cases hn

theorem get_setAll_top : ∃ m, (new 5 (-1) (0 : Int)).setAll [⟨7, -1, 1⟩, ⟨5, 9, 2⟩] = .ok m ∧
    (∀ k : UInt64, 5 ≤ k → k ≤ -1 → m.get k = .ok (lastSet 0 [⟨7, -1, 1⟩, ⟨5, 9, 2⟩] k)) ∧
    ∀ c ∈ ([⟨7, -1, 1⟩, ⟨5, 9, 2⟩] : List (SetCall Int)), ∀ next,
      m.afterKey c.high = some next → next.toNat = c.high.toNat + 1 :=
  get_setAll (by decide) 0 _ (by decide)

end Run

/-! ## The ranges of a map -/

/-- The range `r` is a maximal run of equal value of `m`. -/
structure IsRun (m : RangeMap T) (r : Range T) : Prop where
  low_le : r.low ≤ r.high
  min_le : m.minKey ≤ r.low
  le_max : r.high ≤ m.maxKey
  get_eq : ∀ k, r.low ≤ k → k ≤ r.high → m.get k = .ok r.val
  before : m.minKey < r.low → m.get (r.low - 1) ≠ .ok r.val
  after : r.high < m.maxKey → m.get (r.high + 1) ≠ .ok r.val

theorem WF.min_le_mem {m : RangeMap T} (hm : m.WF) {n : Node T} (hn : n ∈ m.ranges) :
    m.minKey ≤ n.begKey := by
  have hh := hm.head
  have hs := hm.canon.sorted
  cases hr : m.ranges with
  | nil => rw [hr] at hn; cases hn
  | cons p rs =>
    rw [hr] at hh hn hs
    have hp : p.begKey = m.minKey := by simpa using hh
    rw [← hp]
    rcases List.mem_cons.mp hn with rfl | hn
    · exact le_refl _
    · exact le_of_lt ((sorted_cons.mp hs).1 n hn)

/-- The node before `n` holds the key before it, with another value. -/
theorem get_before {m : RangeMap T} (hm : m.WF) {pre post : List (Node T)} {n : Node T}
    (he : m.ranges = pre ++ n :: post) (h : m.minKey < n.begKey) :
    m.get (n.begKey - 1) ≠ .ok n.val := by
  have hc := hm.canon
  have hh := hm.head
  rw [he] at hc hh
  rcases List.eq_nil_or_concat' pre with rfl | ⟨pre, p, rfl⟩
  · have : n.begKey = m.minKey := by simpa using hh
    exact absurd h (by rw [this]; exact lt_irrefl _)
  · simp only [List.append_assoc, List.singleton_append] at hc he
    obtain ⟨-, h2, -⟩ := hc.sorted.of_append
    obtain ⟨h3, h4⟩ := sorted_cons.mp h2
    have hpn := h3 n List.mem_cons_self
    have hlt := (Word.le_sub_one_iff hpn (n.begKey - 1)).mp (le_refl _)
    have hv : valueAt m.ranges (n.begKey - 1) = some p.val := by
      rw [he]
      refine valueAt_mid ((Word.le_sub_one_iff hpn _).mpr hpn) fun q hq => ?_
      rcases List.mem_cons.mp hq with rfl | hq
      · exact hlt
      · exact lt_trans hlt ((sorted_cons.mp h4).1 q hq)
    rw [get_eq hm ((Word.le_sub_one_iff hpn _).mpr h)
      (le_trans (le_of_lt hlt) (hm.le_max n (by rw [he]; simp))) hv]
    exact fun h => hc.ne (Except.ok.inj h)

/-- The node after `n` begins right after its last key, with another value. -/
theorem endKey_cons {m : RangeMap T} (hm : m.WF) {pre post : List (Node T)} {n q : Node T}
    (he : m.ranges = pre ++ n :: q :: post) :
    m.endKey (q :: post) < q.begKey ∧ q.begKey.toNat = (m.endKey (q :: post)).toNat + 1 ∧
      m.endKey (q :: post) + 1 = q.begKey := by
  have hs := hm.canon.sorted
  rw [he] at hs
  obtain ⟨-, h2, -⟩ := hs.of_append
  have hnq := (sorted_cons.mp h2).1 q List.mem_cons_self
  have hlt : m.endKey (q :: post) < q.begKey := (Word.le_sub_one_iff hnq _).mp (le_refl _)
  have hsub : (m.endKey (q :: post)).toNat = q.begKey.toNat - 1 := Word.toNat_sub_one hnq
  have hnat := UInt64.lt_iff_toNat_lt.mp hlt
  refine ⟨hlt, by omega, UInt64.toNat_inj.mp ?_⟩
  rw [Word.toNat_add_one hlt]
  omega

/-- The range of a node is a maximal run. -/
theorem isRun_mid {m : RangeMap T} (hm : m.WF) {pre post : List (Node T)} {n : Node T}
    (he : m.ranges = pre ++ n :: post) : m.IsRun ⟨n.begKey, m.endKey post, n.val⟩ where
  low_le := (endKey_le hm he).1
  min_le := hm.min_le_mem (by rw [he]; simp)
  le_max := (endKey_le hm he).2
  get_eq k h1 h2 := by
    have hk := le_trans h2 (endKey_le hm he).2
    refine get_eq hm (le_trans (hm.min_le_mem (by rw [he]; simp)) h1) hk ?_
    rw [he]
    exact valueAt_mid h1 ((le_endKey_iff hm he hk).mp h2)
  before := get_before hm he
  after h := by
    cases post with
    | nil => exact absurd h (lt_irrefl _)
    | cons q post =>
      obtain ⟨-, -, e⟩ := endKey_cons hm he
      have hc := hm.canon
      have hq : q ∈ m.ranges := by rw [he]; simp
      have hv : valueAt m.ranges q.begKey = some q.val := by
        have he' : m.ranges = (pre ++ [n]) ++ q :: post := by rw [he]; simp
        rw [he'] at hc ⊢
        exact valueAt_mid (le_refl _) (sorted_cons.mp hc.sorted.of_append.2.1).1
      rw [he] at hc
      show m.get (m.endKey (q :: post) + 1) ≠ .ok n.val
      rw [e, get_eq hm (hm.min_le_mem hq) (hm.le_max q hq) hv]
      exact fun h => hc.ne (Except.ok.inj h).symm

/-- The ranges of the nodes, in key order. -/
def rangeList (m : RangeMap T) : List (Node T) → List (Range T)
  | [] => []
  | n :: post => ⟨n.begKey, m.endKey post, n.val⟩ :: m.rangeList post

theorem length_rangeList (m : RangeMap T) (rs : List (Node T)) :
    (m.rangeList rs).length = rs.length := by
  induction rs with
  | nil => rfl
  | cons n rs ih => simp [rangeList, ih]

/-- `operator[](i)` is the `i`-th range. -/
theorem getRange_eq {m : RangeMap T} {i : Nat} (h : i < (m.rangeList m.ranges).length) :
    m.getRange i = .ok ((m.rangeList m.ranges)[i]) := by
  have hl : i < m.ranges.length := by rwa [length_rangeList] at h
  unfold getRange
  rw [assertThat_pos (show i < m.size from hl), ok_bind]
  suffices ∀ (pre post : List (Node T)) (j : Nat) (hj : j < (m.rangeList post).length),
      m.ranges = pre ++ post → m.rangeAt (pre.length + j) = .ok ((m.rangeList post)[j]) by
    simpa using this [] m.ranges i h rfl
  intro pre post
  induction post generalizing pre with
  | nil => intro j hj; exact absurd hj (Nat.not_lt_zero _)
  | cons n post ih =>
    intro j hj he
    cases j with
    | zero => exact rangeAt_mid he
    | succ j =>
      have := ih (pre ++ [n]) j (by simpa [rangeList] using hj) (by rw [he]; simp)
      simp only [List.length_append, List.length_singleton] at this
      rw [show pre.length + (j + 1) = pre.length + 1 + j by omega, this]
      rfl

/-- Consecutive ranges: the second begins right after the first ends. -/
def Range.Adjacent (r s : Range T) : Prop := r.high < s.low ∧ s.low.toNat = r.high.toNat + 1

theorem rangeList_partition {m : RangeMap T} (hm : m.WF) (pre post : List (Node T)) (n : Node T)
    (he : m.ranges = pre ++ n :: post) :
    (m.rangeList (n :: post)).IsChain Range.Adjacent ∧
      (m.rangeList (n :: post)).getLast?.map (·.high) = some m.maxKey ∧
      ∀ r ∈ m.rangeList (n :: post), m.IsRun r := by
  induction post generalizing pre n with
  | nil =>
    refine ⟨.singleton _, rfl, fun r hr => ?_⟩
    rw [List.mem_singleton.mp hr]
    exact isRun_mid hm he
  | cons q post ih =>
    obtain ⟨h1, h2, h3⟩ := ih (pre ++ [n]) q (by rw [he]; simp)
    obtain ⟨e1, e2, -⟩ := endKey_cons hm he
    refine ⟨List.isChain_cons_cons.mpr ⟨⟨e1, e2⟩, h1⟩, ?_, fun r hr => ?_⟩
    · rw [rangeList, rangeList, List.getLast?_cons_cons]
      exact h2
    · rcases List.mem_cons.mp hr with rfl | hr
      · exact isRun_mid hm he
      · exact h3 r hr

/-- Two maps over the same bounds with the same values are the same. -/
theorem WF.unique {m m' : RangeMap T} (hm : m.WF) (hm' : m'.WF) (hmin : m'.minKey = m.minKey)
    (hmax : m'.maxKey = m.maxKey)
    (h : ∀ k, m.minKey ≤ k → k ≤ m.maxKey → m'.get k = m.get k) : m' = m := by
  have hv : ∀ k, m.minKey ≤ k → k ≤ m.maxKey → valueAt m'.ranges k = valueAt m.ranges k := by
    intro k h1 h2
    obtain ⟨v, hg, hv⟩ := get_spec hm h1 h2
    obtain ⟨v', hg', hv'⟩ := get_spec hm' (hmin ▸ h1) (hmax ▸ h2)
    rw [h k h1 h2, hg] at hg'
    rw [hv, hv', Except.ok.inj hg']
  have hr : m'.ranges = m.ranges := Canonical.unique hm'.canon hm.canon
    (fun p hp => hv _ (hmin ▸ hm'.min_le_mem hp) (hmax ▸ hm'.le_max p hp))
    (fun p hp => hv _ (hm.min_le_mem hp) (hm.le_max p hp))
  cases m; cases m'
  simp_all

/-- After any sequence of valid calls, the nodes are canonical, `operator[]` gives the maximal
runs in key order, `range_of` the run of its key, and another history with the same values the same
ranges. -/
theorem setAll_canonical [DecidableEq T] {minKey maxKey : UInt64} (h : minKey ≤ maxKey) (v₀ : T)
    (calls : List (SetCall T)) (hc : ∀ c ∈ calls, c.Valid minKey maxKey) :
    ∃ m, (new minKey maxKey v₀).setAll calls = .ok m ∧
      (m.ranges.head?.map (·.begKey) = some minKey ∧
        m.ranges.Pairwise (fun p q => p.begKey < q.begKey) ∧
        (∀ n ∈ m.ranges, n.begKey ≤ maxKey) ∧ m.ranges.IsChain fun p q => p.val ≠ q.val) ∧
      (∃ rs : List (Range T), rs.length = m.size ∧
        (∀ i (hi : i < rs.length), m.getRange i = .ok rs[i]) ∧
        rs.head?.map (·.low) = some minKey ∧ rs.getLast?.map (·.high) = some maxKey ∧
        rs.IsChain Range.Adjacent ∧ ∀ r ∈ rs, m.IsRun r) ∧
      (∀ k, minKey ≤ k → k ≤ maxKey →
        ∃ r, m.rangeOf k = .ok r ∧ r.low ≤ k ∧ k ≤ r.high ∧ m.IsRun r) ∧
      ∀ (v₁ : T) (calls' : List (SetCall T)), (∀ c ∈ calls', c.Valid minKey maxKey) →
        ∀ m', (new minKey maxKey v₁).setAll calls' = .ok m' →
          (∀ k, minKey ≤ k → k ≤ maxKey → m'.get k = m.get k) →
          m'.size = m.size ∧ ∀ i, m'.getRange i = m.getRange i := by
  obtain ⟨m, e, hwf, hmin, hmax, -⟩ := setAll_spec (wf_new h v₀) (fun _ => v₀)
    (fun k hk _ => new_value v₀ hk) calls hc
  change m.minKey = minKey at hmin
  change m.maxKey = maxKey at hmax
  refine ⟨m, e, ⟨hmin ▸ hwf.head, hwf.canon.sorted, hmax ▸ hwf.le_max, hwf.canon.differ⟩,
    ⟨m.rangeList m.ranges, length_rangeList m _, fun i hi => getRange_eq hi, ?_⟩, ?_, ?_⟩
  · have hh := hwf.head
    cases hr : m.ranges with
    | nil => rw [hr] at hh; cases hh
    | cons n rs =>
      obtain ⟨h1, h2, h3⟩ := rangeList_partition hwf [] rs n hr
      rw [hr] at hh
      exact ⟨hmin ▸ hh, hmax ▸ h2, h1, h3⟩
  · intro k h1 h2
    obtain ⟨pre, n, post, he, hr, hn, hk⟩ := rangeOf_spec hwf (hmin.symm ▸ h1) (hmax.symm ▸ h2)
    exact ⟨_, hr, hn, hk, isRun_mid hwf he⟩
  · intro v₁ calls' hc' m' e' hget
    obtain ⟨m'', e'', hwf', hmin', hmax', -⟩ := setAll_spec (wf_new h v₁) (fun _ => v₁)
      (fun k hk _ => new_value v₁ hk) calls' hc'
    rw [e'] at e''
    cases e''
    obtain rfl := hwf.unique hwf' (hmin'.trans hmin.symm) (hmax'.trans hmax.symm)
      fun k h1 h2 => hget k (hmin ▸ h1) (hmax ▸ h2)
    exact ⟨rfl, fun _ => rfl⟩

theorem setAll_canonical_two : ∃ m, (new 0 9 (0 : Int)).setAll [⟨2, 5, 1⟩, ⟨4, 9, 1⟩] = .ok m ∧
    ∀ k : UInt64, 0 ≤ k → k ≤ 9 →
      ∃ r, m.rangeOf k = .ok r ∧ r.low ≤ k ∧ k ≤ r.high ∧ m.IsRun r := by
  have hle : (0 : UInt64) ≤ 9 := by decide
  obtain ⟨m, e, -, -, h, -⟩ := setAll_canonical hle (0 : Int) [⟨2, 5, 1⟩, ⟨4, 9, 1⟩] (by decide)
  exact ⟨m, e, h⟩

end Odb.RangeMap
