import Odb.Fault
import Odb.Lib.Stoll

/-!
# Integer literals of the command line (`mess/simple-cli-client.cc`)

* `Denotes`: the literals that the syntax has, and what they mean.
* `Negated`, `Padded`: the strings on which `parse_int` differs: a negative number loses its sign,
  and what `std::stoll` accepts before the digits is accepted after the sign and the prefix too.
* `parseInt_iff`: it agrees with the syntax on all others.
-/

namespace Odb

open Stoll

/-- The base that a prefix selects, and the string that `stoll` is given. -/
def radix (s : Bytes) : Nat × Bytes :=
  if [48, 120] <+: s then (16, s.drop 2)
  else if [48, 98] <+: s then (2, s.drop 2)
  else if s.head? = some 48 then (8, s)
  else (10, s)

/-- `parse_int(str, is_signed)`. -/
def parseInt (str : Bytes) (isSigned : Bool) : Except Fault Int :=
  if str.head? = some 45 ∧ isSigned = false then
    .error (.vmError (lit "Cannot parse `" ++ str ++ lit "' as an integer: must be unsigned"))
  else
    let sign := false -- also for a string that starts with `-`
    let (base, intStr) := radix (if str.head? = some 45 then str.tail else str)
    match stoll intStr base with
    | some (res, len) =>
      if len = intStr.length then .ok (if sign then -res else res)
      else .error (.vmError (lit "Cannot parse `" ++ str ++ lit "' as an integer"))
    | none => .error (.vmError (lit "Cannot parse `" ++ str ++ lit "' as an integer"))

/-! ## The syntax -/

/-- A literal without a sign, and its value. -/
inductive Literal : Bytes → Nat → Prop where
  | hex {ds : Bytes} : Digits 16 ds → Literal (48 :: 120 :: ds) (value 16 ds)
  | bin {ds : Bytes} : Digits 2 ds → Literal (48 :: 98 :: ds) (value 2 ds)
  | oct {ds : Bytes} : (∀ c ∈ ds, isDigit 8 c = true) → Literal (48 :: ds) (value 8 ds)
  | dec {ds : Bytes} : Digits 10 ds → ds.head? ≠ some 48 → Literal ds (value 10 ds)

/-- The strings that the syntax has for an integer, signed or not, and their values. -/
inductive Denotes (isSigned : Bool) : Bytes → Int → Prop where
  | pos {s : Bytes} {m : Nat} : Literal s m → m < 2 ^ 63 → Denotes isSigned s m
  | neg {s : Bytes} {m : Nat} :
    isSigned = true → Literal s m → m < 2 ^ 63 → Denotes isSigned (45 :: s) (-m)

/-- `parse_int` accepts what the syntax has, with its value, and throws a `VMApi::Error` for every
other string. -/
def FollowsSyntax (str : Bytes) (isSigned : Bool) : Prop :=
  (∀ v, parseInt str isSigned = .ok v ↔ Denotes isSigned str v) ∧
    ∀ e, parseInt str isSigned = .error e → ∃ msg, e = .vmError msg

/-- A `-` before a literal that is not zero. -/
def Negated (str : Bytes) (isSigned : Bool) : Prop :=
  isSigned = true ∧ ∃ s m, str = 45 :: s ∧ Literal s m ∧ m ≠ 0 ∧ m < 2 ^ 63

/-- What follows a sign that is allowed. -/
inductive Unsigned (isSigned : Bool) : Bytes → Bytes → Prop where
  | plain {s : Bytes} : s.head? ≠ some 45 → Unsigned isSigned s s
  | minus {s : Bytes} : isSigned = true → Unsigned isSigned (45 :: s) s

/-- Blanks, a sign, or a second `0x`, before digits that follow the sign and the prefix. -/
def Padded (str : Bytes) (isSigned : Bool) : Prop :=
  ∃ s, Unsigned isSigned str s ∧ ∃ neg pad ds, (radix s).2 = pad ++ ds ∧ pad ≠ [] ∧
    Pad (radix s).1 neg pad ∧ Digits (radix s).1 ds ∧ InRange (signed neg (value (radix s).1 ds))

/-! ## Strings and their prefixes -/

theorem radix_le (s : Bytes) : (radix s).1 ≤ 16 := by
  unfold radix
  repeat' split
  all_goals simp

theorem value_zero (base : Nat) (ds : Bytes) : value base (48 :: ds) = value base ds := by
  unfold value
  rw [List.foldl_cons]
  rfl

/-- A literal is digits after its prefix. -/
theorem literal_iff {s : Bytes} {m : Nat} :
    Literal s m ↔ Digits (radix s).1 (radix s).2 ∧ m = value (radix s).1 (radix s).2 := by
  refine ⟨fun h => ?_, ?_⟩
  · cases h with
    | hex h => exact ⟨h, rfl⟩
    | bin h => exact ⟨h, rfl⟩
    | @oct ds h =>
      have hx : ¬ [48, 120] <+: 48 :: ds := fun hp => by
        obtain ⟨t, rfl⟩ := (List.prefix_cons_inj _).mp hp
        exact absurd (h 120 (by simp)) (by decide)
      have hb : ¬ [48, 98] <+: 48 :: ds := fun hp => by
        obtain ⟨t, rfl⟩ := (List.prefix_cons_inj _).mp hp
        exact absurd (h 98 (by simp)) (by decide)
      rw [radix, if_neg hx, if_neg hb, if_pos (List.head?_cons)]
      exact ⟨⟨List.cons_ne_nil _ _, List.forall_mem_cons.mpr ⟨rfl, h⟩⟩, (value_zero 8 ds).symm⟩
    | dec h hzero =>
      have hp (c : UInt8) : ¬ [48, c] <+: s := fun hp => by
        obtain ⟨t, rfl⟩ := hp
        exact hzero rfl
      rw [radix, if_neg (hp 120), if_neg (hp 98), if_neg hzero]
      exact ⟨h, rfl⟩
  · rintro ⟨h, rfl⟩
    unfold radix at h ⊢
    by_cases hx : [48, 120] <+: s
    · rw [if_pos hx] at h ⊢
      obtain ⟨t, rfl⟩ := hx
      exact .hex h
    rw [if_neg hx] at h ⊢
    by_cases hb : [48, 98] <+: s
    · rw [if_pos hb] at h ⊢
      obtain ⟨t, rfl⟩ := hb
      exact .bin h
    rw [if_neg hb] at h ⊢
    by_cases hz : s.head? = some 48
    · rw [if_pos hz] at h ⊢
      obtain ⟨ds, rfl⟩ := List.head?_eq_some_iff.mp hz
      rw [value_zero]
      exact .oct fun c hc => h.2 c (by simp [hc])
    · rw [if_neg hz] at h ⊢
      exact .dec h hz

/-- What may precede digits is no digits. -/
theorem pad_not_digits {base : Nat} (hb : base ≤ 16) {neg : Bool} {pad ds : Bytes}
    (hpad : Pad base neg pad) (hne : pad ≠ []) : ¬ Digits base (pad ++ ds) := by
  rintro ⟨-, hall⟩
  have hpads : ∀ c ∈ pad, isSpace c = false ∧ c ≠ 43 ∧ c ≠ 45 ∧ c ≠ 120 ∧ c ≠ 88 :=
    fun c hc => isDigit_not hb (hall c (List.mem_append_left _ hc))
  obtain @⟨blanks, sgn, pre, hblanks, hsgn, hpre⟩ := hpad
  obtain _ | ⟨c, blanks⟩ := blanks
  · rcases hsgn with ⟨rfl, -⟩ | ⟨rfl, -⟩ | ⟨rfl, -⟩
    · rcases hpre with rfl | ⟨-, rfl | rfl⟩
      · exact hne rfl
      · exact (hpads 120 (by simp)).2.2.2.1 rfl
      · exact (hpads 88 (by simp)).2.2.2.2 rfl
    · exact (hpads 43 (by simp)).2.1 rfl
    · exact (hpads 45 (by simp)).2.2.1 rfl
  · have := hblanks c (by simp)
    rw [(hpads c (by simp)).1] at this
    cases this

/-- What `parse_int` accepts: an allowed sign, a prefix, and what `stoll` accepts. -/
theorem parseInt_ok {str : Bytes} {isSigned : Bool} {v : Int} :
    parseInt str isSigned = .ok v ↔ ∃ s, Unsigned isSigned str s ∧ ∃ neg pad ds,
      (radix s).2 = pad ++ ds ∧ Pad (radix s).1 neg pad ∧ Digits (radix s).1 ds ∧
        v = signed neg (value (radix s).1 ds) ∧ InRange v := by
  have hbody (s : Bytes) (e : Fault) :
      (match stoll (radix s).2 (radix s).1 with
        | some (res, len) => if len = (radix s).2.length then .ok res else .error e
        | none => .error e) = Except.ok v ↔
      ∃ neg pad ds, (radix s).2 = pad ++ ds ∧ Pad (radix s).1 neg pad ∧ Digits (radix s).1 ds ∧
        v = signed neg (value (radix s).1 ds) ∧ InRange v := by
    rw [← stoll_eq_all (radix_le s)]
    rcases stoll (radix s).2 (radix s).1 with _ | ⟨res, len⟩
    · simp
    · by_cases hlen : len = (radix s).2.length <;> simp [hlen]
  unfold parseInt
  by_cases hminus : str.head? = some 45
  · obtain ⟨s, rfl⟩ := List.head?_eq_some_iff.mp hminus
    cases isSigned with
    | false =>
      rw [if_pos ⟨hminus, rfl⟩]
      refine ⟨fun h => (by cases h), ?_⟩
      rintro ⟨s', hs | hs, -⟩
      · exact absurd hminus hs
      · cases hs
    | true =>
      rw [if_neg (fun h => by cases h.2), if_pos hminus]
      refine (hbody s _).trans ⟨fun h => ⟨s, .minus rfl, h⟩, ?_⟩
      rintro ⟨s', hs | -, h⟩
      · exact absurd hminus hs
      · exact h
  · rw [if_neg (fun h => hminus h.1), if_neg hminus]
    refine (hbody str _).trans ⟨fun h => ⟨str, .plain hminus, h⟩, ?_⟩
    rintro ⟨s', hs | -, h⟩
    · exact h
    · exact absurd rfl hminus

theorem pad_nil {base : Nat} {neg : Bool} {pad : Bytes} (h : Pad base neg pad) (hp : pad = []) :
    neg = false := by
  obtain ⟨-, ⟨-, h⟩ | ⟨-, h⟩ | ⟨rfl, -⟩, -⟩ := h
  · exact h
  · exact h
  · simp at hp

theorem Unsigned.unique {isSigned : Bool} {str s s' : Bytes} (h : Unsigned isSigned str s)
    (h' : Unsigned isSigned str s') : s = s' := by
  cases h with
  | plain h =>
    cases h' with
    | plain => rfl
    | minus => exact absurd rfl h
  | minus =>
    cases h' with
    | plain h' => exact absurd rfl h'
    | minus => rfl

/-- Every failure of `parse_int` is a `VMApi::Error`. -/
theorem parseInt_error {str : Bytes} {isSigned : Bool} {e : Fault}
    (h : parseInt str isSigned = .error e) : ∃ msg, e = .vmError msg := by
  unfold parseInt at h
  by_cases hminus : str.head? = some 45 ∧ isSigned = false
  · rw [if_pos hminus] at h
    cases h
    exact ⟨_, rfl⟩
  rw [if_neg hminus] at h
  generalize radix (if str.head? = some 45 then str.tail else str) = r at h
  simp only at h
  rcases hr : stoll r.2 r.1 with _ | ⟨res, len⟩ <;> simp only [hr] at h
  · cases h
    exact ⟨_, rfl⟩
  by_cases hlen : len = r.2.length
  · rw [if_pos hlen] at h
    cases h
  · rw [if_neg hlen] at h
    cases h
    exact ⟨_, rfl⟩

/-- A literal does not start with a sign. -/
theorem literal_head {s : Bytes} {m : Nat} (h : Literal s m) : s.head? ≠ some 45 := by
  intro hs
  obtain ⟨t, rfl⟩ := List.head?_eq_some_iff.mp hs
  obtain ⟨⟨-, hall⟩, -⟩ := literal_iff.mp h
  exact absurd (hall 45 (by simp [radix])) (by simp [radix, isDigit, digitVal])

/-- A literal after an allowed sign. -/
theorem denotes_iff {str : Bytes} {isSigned : Bool} {v : Int} :
    Denotes isSigned str v ↔ ∃ s m, Unsigned isSigned str s ∧ Literal s m ∧ m < 2 ^ 63 ∧
      v = if str = s then (m : Int) else -m := by
  refine ⟨fun h => ?_, ?_⟩
  · cases h with
    | pos h hm => exact ⟨str, _, .plain (literal_head h), h, hm, (if_pos rfl).symm⟩
    | neg hs h hm => exact ⟨_, _, .minus hs, h, hm, (if_neg (List.cons_ne_self _ _)).symm⟩
  · rintro ⟨s, m, hs, h, hm, rfl⟩
    cases hs with
    | plain =>
      rw [if_pos rfl]
      exact .pos h hm
    | minus hs =>
      rw [if_neg (List.cons_ne_self _ _)]
      exact .neg hs h hm

/-- `parse_int` reads a literal without its sign. -/
theorem parseInt_literal {str s : Bytes} {isSigned : Bool} {m : Nat}
    (hs : Unsigned isSigned str s) (h : Literal s m) (hm : m < 2 ^ 63) :
    parseInt str isSigned = .ok m := by
  obtain ⟨hds, rfl⟩ := literal_iff.mp h
  refine parseInt_ok.mpr ⟨s, hs, false, [], _, rfl, ?_, hds, rfl, ?_⟩
  · exact @Pad.mk _ _ [] [] [] (List.forall_mem_nil _) (.inl ⟨rfl, rfl⟩) (.inl rfl)
  · unfold InRange
    omega

/-- `parse_int` agrees with the syntax on a string if and only if the string has no `-` before a
literal other than zero, and nothing that only `stoll` accepts before its digits. -/
theorem parseInt_iff (str : Bytes) (isSigned : Bool) :
    FollowsSyntax str isSigned ↔ ¬ Negated str isSigned ∧ ¬ Padded str isSigned := by
  refine ⟨fun ⟨h, _⟩ => ⟨?_, ?_⟩, fun ⟨hneg, hpad⟩ => ⟨fun v => ?_, fun e he => ?_⟩⟩
  · rintro ⟨hs, s, m, rfl, hlit, hne, hm⟩
    obtain ⟨s', m', hs', hlit', -, hv⟩ :=
      denotes_iff.mp ((h m).mp (parseInt_literal (.minus hs) hlit hm))
    cases hs' with
    | plain hs' => exact hs' rfl
    | minus =>
      rw [if_neg (List.cons_ne_self _ _)] at hv
      omega
  · rintro ⟨s, hs, neg, pad, ds, hsplit, hne, hpad, hds, hv⟩
    have hok := parseInt_ok.mpr ⟨s, hs, neg, pad, ds, hsplit, hpad, hds, rfl, hv⟩
    obtain ⟨s', m, hs', hlit, -, -⟩ := denotes_iff.mp ((h _).mp hok)
    obtain rfl := hs.unique hs'
    have := (literal_iff.mp hlit).1
    rw [hsplit] at this
    exact pad_not_digits (radix_le s) hpad hne this
  · rw [denotes_iff]
    refine ⟨fun h => ?_, ?_⟩
    · obtain ⟨s, hs, neg, pad, ds, hsplit, hp, hds, rfl, hv⟩ := parseInt_ok.mp h
      -- nothing precedes the digits
      have hnil : pad = [] := by
        by_contra hne
        exact hpad ⟨s, hs, neg, pad, ds, hsplit, hne, hp, hds, hv⟩
      obtain rfl := pad_nil hp hnil
      rw [hnil, List.nil_append] at hsplit
      rw [← hsplit] at hds hv ⊢
      have hm : value (radix s).1 (radix s).2 < 2 ^ 63 := by
        have := hv.2
        unfold signed at this
        simp at this
        omega
      refine ⟨s, _, hs, literal_iff.mpr ⟨hds, rfl⟩, hm, ?_⟩
      cases hs with
      | plain => exact (if_pos rfl).symm
      | minus hs =>
        have hzero : value (radix s).1 (radix s).2 = 0 := by
          by_contra hne
          exact hneg ⟨hs, s, _, rfl, literal_iff.mpr ⟨hds, rfl⟩, hne, hm⟩
        rw [if_neg (List.cons_ne_self _ _), hzero]
        rfl
    · rintro ⟨s, m, hs, hlit, hm, rfl⟩
      rw [parseInt_literal hs hlit hm]
      cases hs with
      | plain => rw [if_pos rfl]
      | minus hs =>
        have hzero : m = 0 := by
          by_contra hne
          exact hneg ⟨hs, s, m, rfl, hlit, hne, hm⟩
        rw [if_neg (List.cons_ne_self _ _), hzero]
        rfl
  · exact parseInt_error he

/-- `-5` is read as 5. -/
theorem parseInt_minus_five : ¬ FollowsSyntax [45, 53] true := by
  intro h
  have hlit : Literal [53] 5 :=
    .dec ⟨List.cons_ne_nil _ _, List.forall_mem_singleton.mpr (by decide)⟩ (by decide)
  have hrun : parseInt [45, 53] true = .ok 5 := rfl
  have := (h.1 (-5)).mpr (.neg rfl hlit (by decide))
  rw [hrun] at this
  exact absurd (Except.ok.inj this) (by decide)

end Odb
