import Odb.Fault
import Odb.Lib.Pieces
import Odb.Lib.Word

/-!
# `RangeMap` (`utils/range-map.hh`)

A map over the keys `minKey..maxKey` that stores only the ranges of equal value: a vector of nodes,
each the first key of its range and the value. An iterator into the vector is an index.
-/

namespace Odb

open Pieces

/-- `RangeMap::Node`. -/
abbrev RangeMap.Node (T : Type) := Piece UInt64 T

structure RangeMap (T : Type) where
  minKey : UInt64
  maxKey : UInt64
  ranges : List (RangeMap.Node T)
deriving DecidableEq, Repr

namespace RangeMap

/-- `RangeMap::Range`: the keys `low..high`, all with the value `val`. -/
structure Range (T : Type) where
  low : UInt64
  high : UInt64
  val : T
deriving DecidableEq, Repr

variable {T : Type}

/-- The constructor `RangeMap(min_key, max_key, val)`. -/
def new (minKey maxKey : UInt64) (val : T) : RangeMap T := ⟨minKey, maxKey, [⟨minKey, val⟩]⟩

def size (m : RangeMap T) : Nat := m.ranges.length

/-- The loop of `_find_node`, with `it` at the node before the list. -/
def findNodeFrom (key : UInt64) (it : Nat) : List (Node T) → Nat
  | [] => it
  | next :: rest => if next.begKey ≤ key then findNodeFrom key (it + 1) rest else it

/-- `_find_node(key)`. -/
def findNode (rs : List (Node T)) (key : UInt64) : Nat := findNodeFrom key 0 rs.tail

/-- `*it`. -/
def nodeAt (rs : List (Node T)) (it : Nat) : Except Fault (Node T) :=
  match rs[it]? with
  | some n => .ok n
  | none => .error .undefined

/-- `get(key)`. -/
def get (m : RangeMap T) (key : UInt64) : Except Fault T := do
  assertThat (m.minKey ≤ key)
  assertThat (key ≤ m.maxKey)
  let n ← nodeAt m.ranges (findNode m.ranges key)
  return n.val

/-- The two halves of `set` that look up the node of `key` and cut it in half if it begins
before `key`: the vector after it, and the iterator to the node that begins at `key`. -/
def cutAt (rs : List (Node T)) (key : UInt64) : Except Fault (List (Node T) × Nat) := do
  let it := findNode rs key
  let n ← nodeAt rs it
  if n.begKey ≠ key then return (rs.insertIdx (it + 1) ⟨key, n.val⟩, it + 1)
  else return (rs, it)

/-- `n` rounds of `for (auto it = low_it; it != high_it; ++it) it->val = val;`. -/
def fillLoop (val : T) : Nat → Nat → List (Node T) → List (Node T)
  | 0, _, rs => rs
  | n + 1, it, rs => fillLoop val n (it + 1) (rs.modify it (Piece.withVal val))

/-- The loop of `set` from `lowIt` to `highIt`. It runs past the vector if `highIt` lies before. -/
def fill (rs : List (Node T)) (lowIt highIt : Nat) (val : T) : Except Fault (List (Node T)) :=
  if lowIt ≤ highIt ∧ highIt ≤ rs.length then .ok (fillLoop val (highIt - lowIt) lowIt rs)
  else .error .undefined

/-- The loop of `_fix` at `idx`. Every round makes `size() - idx` smaller, so that the first
`size()` rounds (`fuel`) reach its end. -/
def fixLoop [DecidableEq T] : Nat → Nat → List (Node T) → List (Node T)
  | 0, _, rs => rs
  | fuel + 1, idx, rs =>
    match rs[idx]?, rs[idx + 1]? with
    | some cur, some next =>
      if cur.val = next.val then fixLoop fuel idx (rs.eraseIdx (idx + 1))
      else fixLoop fuel (idx + 1) rs
    | _, _ => rs

/-- `_fix()`. -/
def fix [DecidableEq T] (rs : List (Node T)) : List (Node T) := fixLoop rs.length 0 rs

/-- The key after `high`, if the map has one: `maxKey` is a special case. -/
def afterKey (m : RangeMap T) (high : UInt64) : Option UInt64 :=
  if high ≠ m.maxKey then some (high + 1) else none

/-- `set(low, high, val)`. -/
def set [DecidableEq T] (m : RangeMap T) (low high : UInt64) (val : T) :
    Except Fault (RangeMap T) := do
  assertThat (m.minKey ≤ low)
  assertThat (high ≤ m.maxKey)
  assertThat (low ≤ high)
  let (rs, _) ← cutAt m.ranges low
  let (rs, highIt) ← match m.afterKey high with
    | some next => cutAt rs next
    | none => pure (rs, rs.length)
  let rs ← fill rs (findNode rs low) highIt val
  return { m with ranges := fix rs }

/-- The range of the node at `it`. -/
def rangeAt (m : RangeMap T) (it : Nat) : Except Fault (Range T) := do
  let n ← nodeAt m.ranges it
  let endKey := match m.ranges[it + 1]? with
    | none => m.maxKey
    | some next => next.begKey - 1
  return ⟨n.begKey, endKey, n.val⟩

/-- `range_of(key)`. -/
def rangeOf (m : RangeMap T) (key : UInt64) : Except Fault (Range T) := do
  assertThat (m.minKey ≤ key)
  assertThat (key ≤ m.maxKey)
  m.rangeAt (findNode m.ranges key)

/-- `operator[](i)`. -/
def getRange (m : RangeMap T) (i : Nat) : Except Fault (Range T) := do
  assertThat (i < m.size)
  m.rangeAt i

end RangeMap

end Odb
