import Mathlib.Algebra.Ring.Int.Defs
import Mathlib.Algebra.GroupWithZero.Nat
import Mathlib.Data.List.Induction
import Mathlib.Data.List.TakeWhile

/-!
# `std::stoll`

The conversion of the C++ standard library: blanks, one sign, in base 16 one prefix `0x`, then
digits, as many as there are. A string is its bytes.

* `stoll_eq_all`: the strings that are consumed to their end, and what they denote.
-/

namespace Stoll

/-- `isspace(c)` in the C locale. -/
def isSpace (c : UInt8) : Bool := c = 32 ∨ 9 ≤ c ∧ c ≤ 13

/-- The value of a digit or a letter, 36 for anything else. -/
def digitVal (c : UInt8) : Nat :=
  if 48 ≤ c ∧ c ≤ 57 then c.toNat - 48
  else if 97 ≤ c ∧ c ≤ 122 then c.toNat - 87
  else if 65 ≤ c ∧ c ≤ 90 then c.toNat - 55
  else 36

def isDigit (base : Nat) (c : UInt8) : Bool := digitVal c < base

/-- The number with the given digits. -/
def value (base : Nat) (ds : List UInt8) : Nat := ds.foldl (fun n c => base * n + digitVal c) 0

/-- A number is less than the first one that needs a digit more. -/
theorem value_lt {base : Nat} {ds : List UInt8} (hds : ∀ c ∈ ds, digitVal c < base) :
    value base ds < base ^ ds.length := by
  induction ds using List.reverseRecOn with
  | nil => exact Nat.one_pos
  | append_singleton ds c ih =>
    rw [List.forall_mem_append, List.forall_mem_singleton] at hds
    have hlt := Nat.mul_le_mul_left base (Nat.succ_le_iff.mpr (ih hds.1))
    rw [value, List.foldl_append, List.foldl_cons, List.foldl_nil, List.length_append,
      List.length_singleton, Nat.pow_succ, Nat.mul_comm (base ^ _)]
    rw [value, Nat.succ_eq_add_one, Nat.mul_add, Nat.mul_one] at hlt
    omega

/-- Whether a sign is `-`, and what follows the sign. -/
def takeSign : List UInt8 → Bool × List UInt8
  | [] => (false, [])
  | c :: s => if c = 43 then (false, s) else if c = 45 then (true, s) else (false, c :: s)

/-- What follows the prefix `0x` of a hexadecimal number. -/
def dropHex (base : Nat) : List UInt8 → List UInt8
  | c :: x :: d :: s =>
    if base = 16 ∧ c = 48 ∧ (x = 120 ∨ x = 88) ∧ isDigit 16 d then d :: s else c :: x :: d :: s
  | s => s

def signed (neg : Bool) (m : Nat) : Int := if neg then -m else m

/-- The range of `long long`. -/
def InRange (v : Int) : Prop := -2 ^ 63 ≤ v ∧ v < 2 ^ 63

instance (v : Int) : Decidable (InRange v) := inferInstanceAs (Decidable (_ ∧ _))

/-- `std::stoll(s, &len, base)`: the number and `len`, or `none` for an exception. -/
def stoll (s : List UInt8) (base : Nat) : Option (Int × Nat) :=
  let (neg, s₁) := takeSign (s.dropWhile isSpace)
  let s₂ := dropHex base s₁
  let ds := s₂.takeWhile (isDigit base)
  let v := signed neg (value base ds)
  if ds = [] ∨ ¬ InRange v then none else some (v, s.length - (s₂.dropWhile (isDigit base)).length)

/-! ## The strings that are consumed to their end -/

/-- One or more digits. -/
def Digits (base : Nat) (ds : List UInt8) : Prop := ds ≠ [] ∧ ∀ c ∈ ds, isDigit base c = true

/-- What may precede the digits. -/
inductive Pad (base : Nat) : Bool → List UInt8 → Prop where
  | mk {neg : Bool} {blanks sgn pre : List UInt8} :
    (∀ c ∈ blanks, isSpace c = true) →
    (sgn = [] ∧ neg = false ∨ sgn = [43] ∧ neg = false ∨ sgn = [45] ∧ neg = true) →
    (pre = [] ∨ base = 16 ∧ (pre = [48, 120] ∨ pre = [48, 88])) →
    Pad base neg (blanks ++ (sgn ++ pre))

theorem isDigit_not {base : Nat} (hb : base ≤ 16) {c : UInt8} (h : isDigit base c = true) :
    isSpace c = false ∧ c ≠ 43 ∧ c ≠ 45 ∧ c ≠ 120 ∧ c ≠ 88 := by
  have hlt : digitVal c < 16 := Nat.lt_of_lt_of_le (of_decide_eq_true h) hb
  refine ⟨?_, ?_, ?_, ?_, ?_⟩
  · by_contra hs
    have hs : isSpace c = true := by simpa using hs
    have hs : c = 32 ∨ 9 ≤ c ∧ c ≤ 13 := of_decide_eq_true hs
    have hsp : c.toNat ≤ 32 := by
      rcases hs with rfl | ⟨-, hle⟩
      · decide
      · exact Nat.le_trans (UInt8.le_iff_toNat_le.mp hle) (by decide)
    have h48 : ¬ 48 ≤ c := fun hle => by
      have : 48 ≤ c.toNat := UInt8.le_iff_toNat_le.mp hle
      omega
    have h65 : ¬ 65 ≤ c := fun hle => by
      have : 65 ≤ c.toNat := UInt8.le_iff_toNat_le.mp hle
      omega
    have h97 : ¬ 97 ≤ c := fun hle => by
      have : 97 ≤ c.toNat := UInt8.le_iff_toNat_le.mp hle
      omega
    simp [digitVal, h48, h65, h97] at hlt
  all_goals
    rintro rfl
    revert hlt
    decide

theorem takeSign_split (s : List UInt8) : ∃ sgn, s = sgn ++ (takeSign s).2 ∧
    (sgn = [] ∧ (takeSign s).1 = false ∨ sgn = [43] ∧ (takeSign s).1 = false ∨
      sgn = [45] ∧ (takeSign s).1 = true) := by
  obtain _ | ⟨c, s⟩ := s
  · exact ⟨[], rfl, .inl ⟨rfl, rfl⟩⟩
  simp only [takeSign]
  by_cases hplus : c = 43
  · rw [if_pos hplus]
    exact ⟨[c], rfl, .inr (.inl ⟨by rw [hplus], rfl⟩)⟩
  by_cases hminus : c = 45
  · rw [if_neg hplus, if_pos hminus]
    exact ⟨[c], rfl, .inr (.inr ⟨by rw [hminus], rfl⟩)⟩
  · rw [if_neg hplus, if_neg hminus]
    exact ⟨[], rfl, .inl ⟨rfl, rfl⟩⟩

theorem dropHex_split (base : Nat) (s : List UInt8) : ∃ pre, s = pre ++ dropHex base s ∧
    (pre = [] ∨ base = 16 ∧ (pre = [48, 120] ∨ pre = [48, 88])) := by
  unfold dropHex
  split
  · split
    · next h =>
      obtain ⟨hbase, rfl, rfl | rfl, -⟩ := h
      · exact ⟨[48, 120], rfl, .inr ⟨hbase, .inl rfl⟩⟩
      · exact ⟨[48, 88], rfl, .inr ⟨hbase, .inr rfl⟩⟩
    · exact ⟨[], rfl, .inl rfl⟩
  · exact ⟨[], rfl, .inl rfl⟩

/-- The number read off blanks, a sign, a prefix and digits. -/
theorem stoll_pad {base : Nat} (hb : base ≤ 16) {neg : Bool} {pad ds : List UInt8}
    (hpad : Pad base neg pad) (hds : Digits base ds)
    (hv : InRange (signed neg (value base ds))) :
    stoll (pad ++ ds) base = some (signed neg (value base ds), (pad ++ ds).length) := by
  obtain ⟨hne, hall⟩ := hds
  obtain @⟨blanks, sgn, pre, hblanks, hsgn, hpre⟩ := hpad
  obtain ⟨d, ds', rfl⟩ := List.exists_cons_of_ne_nil hne
  obtain ⟨hdspace, hplus, hminus, hx, hX⟩ := isDigit_not hb (hall d (by simp))
  -- neither the prefix nor the first digit is a blank or a sign
  obtain ⟨c, t, hw, hcspace, hcplus, hcminus⟩ : ∃ c t, pre ++ d :: ds' = c :: t ∧
      isSpace c = false ∧ c ≠ 43 ∧ c ≠ 45 := by
    rcases hpre with rfl | ⟨-, rfl | rfl⟩
    · exact ⟨d, ds', rfl, hdspace, hplus, hminus⟩
    · exact ⟨48, 120 :: d :: ds', rfl, by decide⟩
    · exact ⟨48, 88 :: d :: ds', rfl, by decide⟩
  have hsign : takeSign (sgn ++ (c :: t)) = (neg, c :: t) := by
    rcases hsgn with ⟨rfl, rfl⟩ | ⟨rfl, rfl⟩ | ⟨rfl, rfl⟩
    · simp [takeSign, hcplus, hcminus]
    · rfl
    · rfl
  have hspace : (blanks ++ (sgn ++ (c :: t))).dropWhile isSpace = sgn ++ (c :: t) := by
    rw [List.dropWhile_append_of_pos hblanks]
    rcases hsgn with ⟨rfl, -⟩ | ⟨rfl, -⟩ | ⟨rfl, -⟩
    · exact List.dropWhile_cons_of_neg (by simp [hcspace])
    · rfl
    · rfl
  have hhex : dropHex base (c :: t) = d :: ds' := by
    rw [← hw]
    rcases hpre with rfl | ⟨rfl, rfl | rfl⟩
    · rcases ds' with _ | ⟨e, _ | ⟨f, ds'⟩⟩
      · rfl
      · rfl
      · obtain ⟨-, -, -, hx, hX⟩ := isDigit_not hb (hall e (by simp))
        exact if_neg fun h => h.2.2.1.elim hx hX
    · exact if_pos ⟨rfl, rfl, .inl rfl, hall d (by simp)⟩
    · exact if_pos ⟨rfl, rfl, .inr rfl, hall d (by simp)⟩
  have htake : (d :: ds').takeWhile (isDigit base) = d :: ds' := List.takeWhile_eq_self_iff.mpr hall
  have hdrop : (d :: ds').dropWhile (isDigit base) = [] := List.dropWhile_eq_nil_iff.mpr hall
  unfold stoll
  rw [List.append_assoc, List.append_assoc, hw, hspace, hsign]
  simp only [hhex, htake, hdrop]
  rw [if_neg (by simp [hv])]
  rfl

/-- A string is consumed to its end and denotes `v` when it is blanks, a sign, a prefix, and digits
of `v`. -/
theorem stoll_eq_all {base : Nat} (hb : base ≤ 16) {s : List UInt8} {v : Int} :
    stoll s base = some (v, s.length) ↔ ∃ neg pad ds, s = pad ++ ds ∧ Pad base neg pad ∧
      Digits base ds ∧ v = signed neg (value base ds) ∧ InRange v := by
  refine ⟨fun h => ?_, ?_⟩
  · obtain ⟨sgn, hs₁, hsgn⟩ := takeSign_split (s.dropWhile isSpace)
    obtain ⟨pre, hs₂, hpre⟩ := dropHex_split base (takeSign (s.dropWhile isSpace)).2
    unfold stoll at h
    rcases hsign : takeSign (s.dropWhile isSpace) with ⟨neg, s₁⟩
    rw [hsign] at hs₁ hs₂ hsgn h
    simp only at hs₁ hs₂ hsgn h
    split at h
    · cases h
    next hok =>
    rw [not_or, Decidable.not_not] at hok
    obtain ⟨hv, hlen⟩ := Prod.mk.inj (Option.some.inj h)
    have hsplit := @List.takeWhile_append_dropWhile _ isSpace s
    have hdigits := @List.takeWhile_append_dropWhile _ (isDigit base) (dropHex base s₁)
    -- nothing is left after the digits
    have hrest : (dropHex base s₁).dropWhile (isDigit base) = [] := by
      have hpos : 0 < ((dropHex base s₁).takeWhile (isDigit base)).length :=
        List.length_pos_iff.mpr hok.1
      have h₁ := congrArg List.length hsplit
      have h₂ := congrArg List.length hdigits
      have h₃ := congrArg List.length hs₁
      have h₄ := congrArg List.length hs₂
      simp only [List.length_append] at h₁ h₂ h₃ h₄
      apply List.length_eq_zero_iff.mp
      omega
    rw [hrest, List.append_nil] at hdigits
    rw [hdigits] at hok hv
    refine ⟨neg, s.takeWhile isSpace ++ (sgn ++ pre), dropHex base s₁, ?_,
      .mk (fun c hc => List.mem_takeWhile_imp hc) hsgn hpre, ⟨hok.1, fun c hc => ?_⟩, hv.symm,
      hv ▸ hok.2⟩
    · rw [List.append_assoc, List.append_assoc, ← hs₂, ← hs₁, hsplit]
    · exact List.mem_takeWhile_imp (hdigits.symm ▸ hc)
  · rintro ⟨neg, pad, ds, rfl, hpad, hds, rfl, hv⟩
    exact stoll_pad hb hpad hds hv

end Stoll
