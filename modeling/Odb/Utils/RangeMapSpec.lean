import Odb.Utils.RangeMap

/-!
# What `RangeMap` computes

A range map stands for the piecewise constant map of its nodes (`Pieces.valueAt`). `WF` is the
invariant of the class: the nodes are canonical, begin at `minKey`, and none begins after `maxKey`.

* `findNode_mid`, `cutAt_spec`, `fill_mid`, `fix_eq`: what each helper does to a well formed vector.
* `set_spec`: `set` keeps `WF` and changes the map on the interval it is given, and nowhere else.
* `get_spec`, `rangeAt_mid`, `rangeOf_spec`: what the lookups give on a well formed map.
-/

namespace Odb.RangeMap

open Pieces

variable {T : Type}

/-- The representation invariant. -/
structure WF (m : RangeMap T) : Prop where
  canon : Canonical m.ranges
  head : m.ranges.head?.map (·.begKey) = some m.minKey
  le_max : ∀ n ∈ m.ranges, n.begKey ≤ m.maxKey

/-! ## The helpers -/

theorem findNodeFrom_eq {key : UInt64} {mid post : List (Node T)} (it : Nat)
    (h1 : ∀ n ∈ mid, n.begKey ≤ key) (h2 : ∀ n ∈ post, key < n.begKey) :
    findNodeFrom key it (mid ++ post) = it + mid.length := by
  induction mid generalizing it with
  | nil =>
    cases post with
    | nil => rfl
    | cons n post =>
      simp [findNodeFrom, not_le_of_gt (h2 n List.mem_cons_self)]
  | cons n mid ih =>
    rw [List.cons_append, findNodeFrom, if_pos (h1 n List.mem_cons_self),
      ih _ fun x hx => h1 x (List.mem_cons_of_mem _ hx), List.length_cons]
    omega

/-- `_find_node(key)` is the node of `key`: the last one that begins at or before it. -/
theorem findNode_mid {key : UInt64} {pre post : List (Node T)} {n : Node T}
    (hs : Sorted (pre ++ n :: post)) (h1 : n.begKey ≤ key) (h2 : ∀ q ∈ post, key < q.begKey) :
    findNode (pre ++ n :: post) key = pre.length := by
  obtain ⟨-, -, h3⟩ := hs.of_append
  cases pre with
  | nil => simpa [findNode] using findNodeFrom_eq 0 (fun q hq => absurd hq List.not_mem_nil) h2
  | cons p pre =>
    have hpre : ∀ q ∈ pre ++ [n], q.begKey ≤ key := by
      intro q hq
      rcases List.mem_append.mp hq with hq | hq
      · exact le_trans (le_of_lt (h3 q (List.mem_cons_of_mem _ hq) n List.mem_cons_self)) h1
      · rw [List.mem_singleton.mp hq]; exact h1
    have := findNodeFrom_eq 0 hpre h2
    rw [List.append_assoc] at this
    simpa [findNode] using this

/-- A key at or after the first node lies in one of the nodes. -/
theorem exists_node {rs : List (Node T)} {k₀ key : UInt64} (hs : Sorted rs)
    (hh : rs.head?.map (·.begKey) = some k₀) (hk : k₀ ≤ key) :
    ∃ pre n post, rs = pre ++ n :: post ∧ n.begKey ≤ key ∧ ∀ q ∈ post, key < q.begKey := by
  induction rs generalizing k₀ with
  | nil => cases hh
  | cons p rs ih =>
    obtain rfl : p.begKey = k₀ := by simpa using hh
    cases rs with
    | nil => exact ⟨[], p, [], rfl, hk, fun q hq => absurd hq List.not_mem_nil⟩
    | cons q rs =>
      obtain ⟨hp, hqs⟩ := sorted_cons.mp hs
      by_cases hq : q.begKey ≤ key
      · obtain ⟨pre, n, post, he, h1, h2⟩ := ih hqs rfl hq
        exact ⟨p :: pre, n, post, by rw [he]; rfl, h1, h2⟩
      · refine ⟨[], p, q :: rs, rfl, hk, fun r hr => ?_⟩
        rcases List.mem_cons.mp hr with rfl | hr
        · exact lt_of_not_ge hq
        · exact lt_trans (lt_of_not_ge hq) ((sorted_cons.mp hqs).1 r hr)

private theorem insertIdx_mid {α : Type} (pre post : List α) (a c : α) :
    (pre ++ a :: post).insertIdx (pre.length + 1) c = pre ++ a :: c :: post := by
  induction pre with
  | nil => rfl
  | cons p pre ih => rw [List.cons_append, List.length_cons, List.insertIdx_succ_cons, ih]; rfl

private theorem modify_mid {α : Type} (pre post : List α) (a : α) (f : α → α) :
    (pre ++ a :: post).modify pre.length f = pre ++ f a :: post := by
  induction pre with
  | nil => rfl
  | cons p pre ih => rw [List.cons_append, List.length_cons, List.modify_succ_cons, ih]; rfl

theorem nodeAt_mid (pre post : List (Node T)) (n : Node T) :
    nodeAt (pre ++ n :: post) pre.length = .ok n := by
  simp [nodeAt]

/-- `cutAt` gives a vector of the same map with a node that begins at `key`, and its index. -/
theorem cutAt_spec {rs : List (Node T)} {k₀ key : UInt64} (hs : Sorted rs)
    (hh : rs.head?.map (·.begKey) = some k₀) (hk : k₀ ≤ key) :
    ∃ pre n post, cutAt rs key = .ok (pre ++ n :: post, pre.length) ∧ n.begKey = key ∧
      Sorted (pre ++ n :: post) ∧ (pre ++ n :: post).head?.map (·.begKey) = some k₀ ∧
      (∀ k, valueAt (pre ++ n :: post) k = valueAt rs k) ∧
      (∀ x ∈ rs, x ∈ pre ++ n :: post) ∧ ∀ x ∈ pre ++ n :: post, x ∈ rs ∨ x.begKey = key := by
  obtain ⟨pre, n, post, rfl, h1, h2⟩ := exists_node hs hh hk
  have hf := findNode_mid hs h1 h2
  by_cases hn : n.begKey = key
  · refine ⟨pre, n, post, ?_, hn, hs, hh, fun _ => rfl, fun _ h => h, fun _ h => .inl h⟩
    simp [cutAt, hf, nodeAt_mid, hn, bind, Except.bind, pure, Except.pure]
  · -- The node begins before `key`: a node for `key` is inserted after it.
    have hlt : n.begKey < key := lt_of_le_of_ne h1 hn
    refine ⟨pre ++ [n], ⟨key, n.val⟩, post, ?_, rfl, ?_, ?_, ?_, ?_, ?_⟩
    · simp [cutAt, hf, nodeAt_mid, hn, bind, Except.bind, pure, Except.pure, insertIdx_mid]
    · simpa using sorted_split hs hlt h2
    · cases pre <;> simpa using hh
    · intro k
      simpa using valueAt_split pre post h1 k
    · intro x hx
      simp only [List.mem_append, List.mem_cons] at hx ⊢
      grind
    · intro x hx
      simp only [List.mem_append, List.mem_cons] at hx ⊢
      grind

theorem fillLoop_mid (val : T) (pre mid post : List (Node T)) :
    fillLoop val mid.length pre.length (pre ++ (mid ++ post)) =
      pre ++ (mid.map (Piece.withVal val) ++ post) := by
  induction mid generalizing pre with
  | nil => rfl
  | cons n mid ih =>
    have hm : (pre ++ (n :: mid ++ post)).modify pre.length (Piece.withVal val) =
        (pre ++ [n.withVal val]) ++ (mid ++ post) := by
      rw [List.cons_append, modify_mid, List.append_assoc]
      rfl
    rw [List.length_cons, fillLoop, hm]
    have := ih (pre ++ [n.withVal val])
    rw [List.length_append] at this
    simpa using this

theorem fill_mid (val : T) (pre mid post : List (Node T)) :
    fill (pre ++ (mid ++ post)) pre.length (pre.length + mid.length) val =
      .ok (pre ++ (mid.map (Piece.withVal val) ++ post)) := by
  rw [fill, if_pos ⟨by omega, by simp only [List.length_append]; omega⟩, Nat.add_sub_cancel_left, fillLoop_mid]

/-- The loop of `_fix` at the node `cur` merges it and the nodes after it. -/
theorem fixLoop_eq [DecidableEq T] (pre : List (Node T)) (cur : Node T) (post : List (Node T))
    (fuel : Nat) (hf : post.length < fuel) :
    fixLoop fuel pre.length (pre ++ cur :: post) = pre ++ coalesceFrom cur post := by
  induction post generalizing pre cur fuel with
  | nil =>
    obtain ⟨fuel, rfl⟩ : ∃ f, fuel = f + 1 := ⟨fuel - 1, by omega⟩
    simp [fixLoop, coalesceFrom]
  | cons next post ih =>
    simp only [List.length_cons] at hf
    obtain ⟨fuel, rfl⟩ : ∃ f, fuel = f + 1 := ⟨fuel - 1, by omega⟩
    have h1 : (pre ++ cur :: next :: post)[pre.length]? = some cur := by simp
    have h2 : (pre ++ cur :: next :: post)[pre.length + 1]? = some next := by simp
    rw [fixLoop, h1, h2, coalesceFrom]
    simp only
    split
    · have he : (pre ++ cur :: next :: post).eraseIdx (pre.length + 1) = pre ++ cur :: post := by
        simp [List.eraseIdx_append_of_length_le]
      rw [he, ih pre cur fuel (by omega)]
    · have := ih (pre ++ [cur]) next fuel (by omega)
      rw [List.length_append] at this
      simpa using this

theorem fix_eq [DecidableEq T] (rs : List (Node T)) : fix rs = coalesce rs := by
  cases rs with
  | nil => rfl
  | cons n rs => exact fixLoop_eq [] n rs _ (by simp)

/-! ## `set` -/

theorem wf_new {minKey maxKey : UInt64} (h : minKey ≤ maxKey) (val : T) :
    (new minKey maxKey val).WF where
  canon := ⟨List.pairwise_singleton _ _, .singleton _⟩
  head := rfl
  le_max n hn := by rw [List.mem_singleton.mp hn]; exact h

theorem WF.min_le {m : RangeMap T} (h : m.WF) : m.minKey ≤ m.maxKey := by
  have hh := h.head
  cases hr : m.ranges with
  | nil => rw [hr] at hh; cases hh
  | cons n rs =>
    rw [hr] at hh
    have hn : n.begKey = m.minKey := by simpa using hh
    rw [← hn]
    exact h.le_max n (by rw [hr]; exact List.mem_cons_self)

/-- A node of a sorted vector that begins at `key` is the one that `_find_node(key)` gives. -/
theorem findNode_beg {key : UInt64} {pre post : List (Node T)} {n : Node T}
    (hs : Sorted (pre ++ n :: post)) (h : n.begKey = key) :
    findNode (pre ++ n :: post) key = pre.length := by
  obtain ⟨-, h2, -⟩ := hs.of_append
  exact findNode_mid hs (le_of_eq h) (by rw [← h]; exact (sorted_cons.mp h2).1)

/-- `set`, from the results of its two cuts and its loop. -/
private theorem set_run [DecidableEq T] {m : RangeMap T} {low high : UInt64} {val : T}
    {rs₁ rs₂ rs₃ : List (Node T)} {i hi : Nat} (h1 : m.minKey ≤ low) (h2 : low ≤ high)
    (h3 : high ≤ m.maxKey) (e1 : cutAt m.ranges low = .ok (rs₁, i))
    (e2 : (match m.afterKey high with
      | some next => cutAt rs₁ next
      | none => pure (rs₁, rs₁.length)) = .ok (rs₂, hi))
    (e3 : fill rs₂ (findNode rs₂ low) hi val = .ok rs₃) :
    m.set low high val = .ok { m with ranges := coalesce rs₃ } := by
  unfold RangeMap.set
  rw [assertThat_pos h1, assertThat_pos h2, assertThat_pos h3, e1]
  simp only [ok_bind]
  cases ha : m.afterKey high with
  | some next =>
    rw [ha] at e2
    simp only [e2, ok_bind, e3, fix_eq]
    rfl
  | none =>
    rw [ha] at e2
    cases e2
    simp only [pure, Except.pure, ok_bind, e3, fix_eq]

/-- The vector that `set` fills: `pre` before `low`, `n :: mid` from `low` to `high`, and `post`
from the key after `high` on. -/
theorem set_eq [DecidableEq T] {m : RangeMap T} (hm : m.WF) {low high : UInt64} (val : T)
    (h1 : m.minKey ≤ low) (h2 : low ≤ high) (h3 : high ≤ m.maxKey) :
    ∃ pre n mid post, m.set low high val =
        .ok { m with ranges := coalesce (pre ++ ((n :: mid).map (Piece.withVal val) ++ post)) } ∧
      n.begKey = low ∧ Sorted (pre ++ (n :: mid ++ post)) ∧
      (pre ++ (n :: mid ++ post)).head?.map (·.begKey) = some m.minKey ∧
      (∀ k, valueAt (pre ++ (n :: mid ++ post)) k = valueAt m.ranges k) ∧
      (∀ x ∈ pre ++ (n :: mid ++ post), x.begKey ≤ m.maxKey) ∧
      ∀ k ≤ m.maxKey, (∀ q ∈ post, k < q.begKey) ↔ k ≤ high := by
  obtain ⟨pre, n, post, e1, hn, hs, hh, hv, -, hmem⟩ := cutAt_spec hm.canon.sorted hm.head h1
  have hmax : ∀ x ∈ pre ++ n :: post, x.begKey ≤ m.maxKey := fun x hx =>
    (hmem x hx).elim (hm.le_max x) fun e => by rw [e]; exact le_trans h2 h3
  by_cases hhi : high = m.maxKey
  · -- The loop runs to the end of the vector.
    have hf := fill_mid val pre (n :: post) []
    rw [List.append_nil, List.append_nil, ← List.length_append] at hf
    refine ⟨pre, n, post, [], ?_, hn, by simpa using hs, by simpa using hh, by simpa using hv,
      by simpa using hmax, fun k hk => ⟨fun _ => hhi ▸ hk, fun _ q hq => absurd hq List.not_mem_nil⟩⟩
    rw [List.append_nil]
    have ha : m.afterKey high = none := if_neg fun h => h hhi
    exact set_run h1 h2 h3 e1 (by rw [ha]; rfl) (by rw [findNode_beg hs hn]; exact hf)
  · -- The loop runs to the node of `high + 1`, which the second cut provides.
    have hlt : high < m.maxKey := lt_of_le_of_ne h3 hhi
    obtain ⟨pre₂, n₂, post₂, e2, hn₂, hs₂, hh₂, hv₂, hsub, hmem₂⟩ :=
      cutAt_spec hs hh (le_trans (le_trans h1 h2) (le_of_lt (Word.lt_add_one hlt)))
    obtain ⟨-, hs₂', hsep⟩ := hs₂.of_append
    -- The node of `low` lies before it.
    have hin : n ∈ pre₂ := by
      have hlow : n.begKey < n₂.begKey := by
        rw [hn, hn₂]
        exact lt_of_le_of_lt h2 (Word.lt_add_one hlt)
      rcases List.mem_append.mp (hsub n (by simp)) with h | h
      · exact h
      rcases List.mem_cons.mp h with rfl | h
      · exact absurd hlow (lt_irrefl _)
      · exact absurd hlow (not_lt_of_gt ((sorted_cons.mp hs₂').1 n h))
    obtain ⟨a, b, rfl⟩ := List.append_of_mem hin
    rw [List.append_assoc] at hs₂ hh₂ hv₂ hmem₂ e2
    refine ⟨a, n, b, n₂ :: post₂, ?_, hn, hs₂, hh₂, fun k => (hv₂ k).trans (hv k), ?_, ?_⟩
    · have hf := fill_mid val a (n :: b) (n₂ :: post₂)
      rw [← List.length_append] at hf
      have ha : m.afterKey high = some (high + 1) := if_pos hhi
      exact set_run h1 h2 h3 e1 (by rw [ha]; exact e2)
        ((congrArg (fill _ · _ val) (findNode_beg hs₂ hn)).trans hf)
    · intro x hx
      rcases hmem₂ x hx with hx | hx
      · exact hmax x hx
      · rw [hx]; exact Word.add_one_le hlt
    · intro k _
      rw [← Word.lt_add_one_iff hlt k, ← hn₂]
      constructor
      · exact fun h => h n₂ List.mem_cons_self
      · intro hk q hq
        rcases List.mem_cons.mp hq with rfl | hq
        · exact hk
        · exact lt_trans hk ((sorted_cons.mp hs₂').1 q hq)

/-- `set` on a valid interval returns, keeps the invariant and the bounds, and changes the map on
the interval only. -/
theorem set_spec [DecidableEq T] {m : RangeMap T} (hm : m.WF) {low high : UInt64} (val : T)
    (h1 : m.minKey ≤ low) (h2 : low ≤ high) (h3 : high ≤ m.maxKey) :
    ∃ m', m.set low high val = .ok m' ∧ m'.WF ∧ m'.minKey = m.minKey ∧ m'.maxKey = m.maxKey ∧
      ∀ k ≤ m.maxKey, valueAt m'.ranges k =
        if low ≤ k ∧ k ≤ high then some val else valueAt m.ranges k := by
  obtain ⟨pre, n, mid, post, he, hn, hs, hh, hv, hmax, hpost⟩ := set_eq hm val h1 h2 h3
  -- The filled vector has the first keys of the one before the loop.
  have hkeys : (pre ++ ((n :: mid).map (Piece.withVal val) ++ post)).map (·.begKey) =
      (pre ++ (n :: mid ++ post)).map (·.begKey) := by
    simp [Function.comp_def]
  have hs' : Sorted (pre ++ ((n :: mid).map (Piece.withVal val) ++ post)) := by
    have := List.pairwise_map.mpr hs
    rw [← hkeys] at this
    exact List.pairwise_map.mp this
  refine ⟨_, he, ⟨canonical_coalesce hs', ?_, ?_⟩, rfl, rfl, fun k hk => ?_⟩
  · rw [coalesce_head?, ← List.head?_map, hkeys, List.head?_map]
    exact hh
  · intro x hx
    have hx' := List.mem_map_of_mem (f := (·.begKey)) ((coalesce_sublist _).subset hx)
    rw [hkeys] at hx'
    obtain ⟨y, hy, hyx⟩ := List.mem_map.mp hx'
    rw [← hyx]
    exact hmax y hy
  · show valueAt (coalesce _) k = _
    rw [valueAt_coalesce hs', valueAt_fill val hs k, hv k, hn]
    simp only [hpost k hk]

/-! ## The lookups -/

/-- `get(key)` is the value of the map at `key`. -/
theorem get_spec {m : RangeMap T} (hm : m.WF) {key : UInt64} (h1 : m.minKey ≤ key)
    (h2 : key ≤ m.maxKey) : ∃ v, m.get key = .ok v ∧ valueAt m.ranges key = some v := by
  obtain ⟨pre, n, post, he, hn, hp⟩ := exists_node hm.canon.sorted hm.head h1
  have hs := hm.canon.sorted
  rw [he] at hs
  refine ⟨n.val, ?_, by rw [he]; exact valueAt_mid hn hp⟩
  unfold RangeMap.get
  rw [assertThat_pos h1, assertThat_pos h2, he, findNode_mid hs hn hp, nodeAt_mid]
  rfl

theorem get_eq {m : RangeMap T} (hm : m.WF) {key : UInt64} {v : T} (h1 : m.minKey ≤ key)
    (h2 : key ≤ m.maxKey) (hv : valueAt m.ranges key = some v) : m.get key = .ok v := by
  obtain ⟨w, hw, hv'⟩ := get_spec hm h1 h2
  rw [hv'] at hv
  cases hv
  exact hw

/-- `set` in terms of `get`. -/
theorem get_set [DecidableEq T] {m : RangeMap T} (hm : m.WF) {low high : UInt64} (val : T)
    (h1 : m.minKey ≤ low) (h2 : low ≤ high) (h3 : high ≤ m.maxKey) :
    ∃ m', m.set low high val = .ok m' ∧ m'.WF ∧ m'.minKey = m.minKey ∧ m'.maxKey = m.maxKey ∧
      ∀ k, m.minKey ≤ k → k ≤ m.maxKey →
        m'.get k = if low ≤ k ∧ k ≤ high then .ok val else m.get k := by
  obtain ⟨m', hset, hm', hmin, hmax, hval⟩ := set_spec hm val h1 h2 h3
  refine ⟨m', hset, hm', hmin, hmax, fun k hk hk' => ?_⟩
  obtain ⟨v, hv, hv'⟩ := get_spec hm hk hk'
  obtain ⟨w, hw, hw'⟩ := get_spec hm' (hmin.symm ▸ hk) (hmax.symm ▸ hk')
  rw [hval k hk', hv'] at hw'
  rw [hw, hv]
  split at hw' <;> simp_all

/-- A call of `set` that returns keeps the map well formed. -/
theorem set_ok [DecidableEq T] {m m' : RangeMap T} (hm : m.WF) {low high : UInt64} {val : T}
    (h : m.set low high val = .ok m') : m'.WF ∧ m'.minKey = m.minKey ∧ m'.maxKey = m.maxKey := by
  have hcond : m.minKey ≤ low ∧ high ≤ m.maxKey ∧ low ≤ high := by
    unfold RangeMap.set assertThat at h
    by_cases h1 : m.minKey ≤ low <;> by_cases h2 : high ≤ m.maxKey <;>
      by_cases h3 : low ≤ high <;> simp [h1, h2, h3] at h ⊢
  obtain ⟨m'', hset, hm'', hmin, hmax, -⟩ := set_spec hm val hcond.1 hcond.2.2 hcond.2.1
  rw [h] at hset
  cases hset
  exact ⟨hm'', hmin, hmax⟩

/-- `set` does not accept an empty interval. -/
theorem set_empty [DecidableEq T] {m : RangeMap T} {low high : UInt64} (val : T)
    (h : high < low) : m.set low high val = .error .assertFail := by
  unfold RangeMap.set
  by_cases h1 : m.minKey ≤ low
  · by_cases h2 : high ≤ m.maxKey
    · rw [assertThat_pos h1, assertThat_pos h2, assertThat, if_neg (not_le.mpr h)]
      rfl
    · rw [assertThat_pos h1, assertThat, if_neg h2]
      rfl
  · rw [assertThat, if_neg h1]
    rfl

/-- The last key of the node before `post`. -/
def endKey (m : RangeMap T) (post : List (Node T)) : UInt64 :=
  match post.head? with
  | none => m.maxKey
  | some next => next.begKey - 1

theorem rangeAt_mid {m : RangeMap T} {pre post : List (Node T)} {n : Node T}
    (he : m.ranges = pre ++ n :: post) :
    m.rangeAt pre.length = .ok ⟨n.begKey, m.endKey post, n.val⟩ := by
  have hnext : (pre ++ n :: post)[pre.length + 1]? = post.head? := by
    rw [List.getElem?_append_right (by omega), Nat.add_sub_cancel_left]
    simp [List.head?_eq_getElem?]
  unfold rangeAt endKey
  rw [he, nodeAt_mid, ok_bind, hnext]
  rfl

/-- The keys of the node `n` are those that lie in no other node. -/
theorem le_endKey_iff {m : RangeMap T} (hm : m.WF) {pre post : List (Node T)} {n : Node T}
    (he : m.ranges = pre ++ n :: post) {k : UInt64} (hk : k ≤ m.maxKey) :
    k ≤ m.endKey post ↔ ∀ q ∈ post, k < q.begKey := by
  unfold endKey
  cases post with
  | nil => exact ⟨fun _ q hq => absurd hq List.not_mem_nil, fun _ => hk⟩
  | cons q post =>
    have hs := hm.canon.sorted
    rw [he] at hs
    obtain ⟨-, h2, -⟩ := hs.of_append
    obtain ⟨h3, h4⟩ := sorted_cons.mp h2
    simp only [List.head?_cons]
    rw [Word.le_sub_one_iff (h3 q List.mem_cons_self)]
    constructor
    · intro hkq r hr
      rcases List.mem_cons.mp hr with rfl | hr
      · exact hkq
      · exact lt_trans hkq ((sorted_cons.mp h4).1 r hr)
    · exact fun h => h q List.mem_cons_self

theorem endKey_le {m : RangeMap T} (hm : m.WF) {pre post : List (Node T)} {n : Node T}
    (he : m.ranges = pre ++ n :: post) : n.begKey ≤ m.endKey post ∧ m.endKey post ≤ m.maxKey := by
  have hs := hm.canon.sorted
  rw [he] at hs
  obtain ⟨-, h2, -⟩ := hs.of_append
  refine ⟨(le_endKey_iff hm he (hm.le_max n (by rw [he]; simp))).mpr (sorted_cons.mp h2).1, ?_⟩
  unfold endKey
  cases post with
  | nil => exact le_refl _
  | cons q post =>
    have hq := hm.le_max q (by rw [he]; simp)
    have hlt := (sorted_cons.mp h2).1 q List.mem_cons_self
    exact le_trans (le_of_lt ((Word.le_sub_one_iff hlt _).mp (le_refl _))) hq

/-- `range_of(key)` is the range of the node that holds `key`. -/
theorem rangeOf_spec {m : RangeMap T} (hm : m.WF) {key : UInt64} (h1 : m.minKey ≤ key)
    (h2 : key ≤ m.maxKey) :
    ∃ pre n post, m.ranges = pre ++ n :: post ∧
      m.rangeOf key = .ok ⟨n.begKey, m.endKey post, n.val⟩ ∧
      n.begKey ≤ key ∧ key ≤ m.endKey post := by
  obtain ⟨pre, n, post, he, hn, hp⟩ := exists_node hm.canon.sorted hm.head h1
  have hs := hm.canon.sorted
  rw [he] at hs
  refine ⟨pre, n, post, he, ?_, hn, (le_endKey_iff hm he h2).mpr hp⟩
  unfold rangeOf
  rw [assertThat_pos h1, assertThat_pos h2, he, findNode_mid hs hn hp]
  exact rangeAt_mid he

/-- `range_of` does not accept a key beyond the last. -/
theorem rangeOf_beyond {m : RangeMap T} {key : UInt64} (h : m.maxKey < key) :
    m.rangeOf key = .error .assertFail := by
  unfold rangeOf
  by_cases h1 : m.minKey ≤ key
  · rw [assertThat_pos h1, ok_bind, assertThat, if_neg (not_le.mpr h)]
    rfl
  · rw [assertThat, if_neg h1]
    rfl

end Odb.RangeMap
