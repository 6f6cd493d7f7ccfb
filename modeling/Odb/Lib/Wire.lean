import Mathlib.Algebra.GroupWithZero.Nat
import Mathlib.Data.List.Forall2
import Odb.Lib.Prog

/-!
# Writers and readers that agree

A writer is a program on the list of the items written so far, a reader one on the list of the
items not yet read. `Carries w r a b`: whatever was written before, `w` appends a fixed word and
returns `a`; on this word, whatever follows it, `r` returns `b` and reads the word exactly.

* `Carries.ret`, `Carries.bind`, `Carries.each`: the relation composes along sequences and lists.
* `Breaks w r a E`: as `Carries`, but on the word `r` fails with something in `E`.
* `carries_put_take`: a word of known length.
* `carries_le`: a number of `n` bytes, the lowest first.
* `Takes e r n f`: `r` reads `n` items and returns `f` of them, or fails with `e` where fewer are left.
* `Ends e r Q`: `r` fails with `e` or returns something in `Q`.
-/

namespace Prog

variable {ε β α γ α' γ' : Type}

/-- `w` appends a word and returns `a`; `r` reads back this word and returns `b`. -/
def Carries (w : Prog ε (List β) α) (r : Prog ε (List β) γ) (a : α) (b : γ) : Prop :=
  ∃ word, (∀ out, w.on out = (.ok a, out ++ word)) ∧ ∀ rest, r.on (word ++ rest) = (.ok b, rest)

namespace Carries

variable {w : Prog ε (List β) α} {r : Prog ε (List β) γ} {a : α} {b : γ}

/-- Nothing is written and nothing read. -/
theorem ret (a : α) (b : γ) :
    Carries (pure a : Prog ε (List β) α) (pure b : Prog ε (List β) γ) a b :=
  ⟨[], fun out => by simp, fun rest => rfl⟩

theorem bind {f : α → Prog ε (List β) α'} {g : γ → Prog ε (List β) γ'} {a' : α'} {b' : γ'}
    (h : Carries w r a b) (h' : Carries (f a) (g b) a' b') :
    Carries (w >>= f) (r >>= g) a' b' := by
  obtain ⟨u, hw, hr⟩ := h
  obtain ⟨v, hf, hg⟩ := h'
  refine ⟨u ++ v, fun out => ?_, fun rest => ?_⟩
  · rw [on_bind_ok (hw out), hf, List.append_assoc]
  · rw [List.append_assoc, on_bind_ok (hr (v ++ rest)), hg]

/-- A step of the writer alone that writes nothing. -/
theorem write_ok {c : Except ε α'} {f : α' → Prog ε (List β) α} {x : α'} (hc : c = .ok x)
    (h : Carries (f x) r a b) : Carries (lift c >>= f) r a b := by
  obtain ⟨u, hw, hr⟩ := h
  refine ⟨u, fun out => ?_, hr⟩
  rw [hc, on_bind_ok (on_lift _ _), hw]

/-- A step of the reader alone that reads nothing. -/
theorem read_ok {c : Except ε γ'} {g : γ' → Prog ε (List β) γ} {x : γ'} (hc : c = .ok x)
    (h : Carries w (g x) a b) : Carries w (lift c >>= g) a b := by
  obtain ⟨u, hw, hr⟩ := h
  refine ⟨u, hw, fun rest => ?_⟩
  rw [hc, on_bind_ok (on_lift _ _), hr]

/-- The results after a function of them. -/
theorem map (f : α → α') (g : γ → γ') (h : Carries w r a b) :
    Carries (f <$> w) (g <$> r) (f a) (g b) := by
  rw [map_eq_pure_bind, map_eq_pure_bind]
  exact h.bind (ret _ _)

/-- The last item of a sequence: the reader returns a function of it. -/
theorem last (g : γ → γ') (h : Carries w r a b) :
    Carries w (r >>= fun x => pure (g x)) a (g b) := by
  have := h.map id g
  rwa [id_map, map_eq_pure_bind] at this

/-- The last item of a sequence: the writer returns something else. -/
theorem returning (x : α') (h : Carries w r a b) : Carries (w >>= fun _ => pure x) r x b := by
  have := h.map (fun _ => x) id
  rwa [id_map, map_eq_pure_bind] at this

/-- A list written item by item and read item by item, each onto an old value. -/
theorem each {put : α → Prog ε (List β) PUnit} {get : γ → Prog ε (List β) γ'} {new : α → γ → γ'}
    {xs : List α} {olds : List γ}
    (h : List.Forall₂ (fun x y => Carries (put x) (get y) ⟨⟩ (new x y)) xs olds) :
    Carries (xs.forM put) (olds.mapM get) ⟨⟩ (List.zipWith new xs olds) := by
  induction h with
  | nil => exact ret _ _
  | cons hx _ ih =>
    rw [List.mapM_cons]
    exact hx.bind (ih.last (_ :: ·))

/-- As `each`, where every item is read exactly. -/
theorem each_exact {put : α → Prog ε (List β) PUnit} {get : γ → Prog ε (List β) α} {xs : List α}
    {olds : List γ} (h : List.Forall₂ (fun x y => Carries (put x) (get y) ⟨⟩ x) xs olds) :
    Carries (xs.forM put) (olds.mapM get) ⟨⟩ xs := by
  have hfst : List.zipWith (fun x _ => x) xs olds = xs :=
    List.map_zip_eq_zipWith (f := Prod.fst) ▸ List.map_fst_zip (Nat.le_of_eq h.length_eq)
  have := each h
  rwa [hfst] at this

end Carries

/-- Lists of one length are related item by item by what relates any two items. -/
theorem forall₂_of_length {R : α → γ → Prop} {xs : List α} {ys : List γ}
    (hlen : xs.length = ys.length) (h : ∀ x ∈ xs, ∀ y, R x y) : List.Forall₂ R xs ys :=
  List.forall₂_iff_zip.mpr ⟨hlen, fun hxy => h _ (List.of_mem_zip hxy).1 _⟩

/-! ## Words that are refused -/

/-- `w` appends a word and returns `a`; on this word `r` fails with something in `E`. -/
def Breaks (w : Prog ε (List β) α) (r : Prog ε (List β) γ) (a : α) (E : ε → Prop) : Prop :=
  ∃ word, (∀ out, w.on out = (.ok a, out ++ word)) ∧
    ∀ rest, ∃ e, E e ∧ ∃ rest', r.on (word ++ rest) = (.error e, rest')

namespace Breaks

variable {w : Prog ε (List β) α} {r : Prog ε (List β) γ} {a : α} {E : ε → Prop}

/-- The reader fails before it reads anything of the word. -/
theorem of_error {c : Except ε γ'} {g : γ' → Prog ε (List β) γ} {r' : Prog ε (List β) α'} {b : α'}
    {e : ε} (hc : c = .error e) (he : E e) (h : Carries w r' a b) : Breaks w (lift c >>= g) a E := by
  obtain ⟨u, hw, -⟩ := h
  refine ⟨u, hw, fun rest => ⟨e, he, u ++ rest, ?_⟩⟩
  rw [hc, lift_error, throw_bind]
  rfl

/-- Both sides agree on a first part, and the reader fails on the second. -/
theorem after {f : α → Prog ε (List β) α'} {g : γ → Prog ε (List β) γ'} {a' : α'} {b : γ}
    (h : Carries w r a b) (h' : Breaks (f a) (g b) a' E) : Breaks (w >>= f) (r >>= g) a' E := by
  obtain ⟨u, hw, hr⟩ := h
  obtain ⟨v, hf, hg⟩ := h'
  refine ⟨u ++ v, fun out => ?_, fun rest => ?_⟩
  · rw [on_bind_ok (hw out), hf, List.append_assoc]
  · rw [List.append_assoc, on_bind_ok (hr (v ++ rest))]
    exact hg rest

/-- What would follow in the reader is not reached. -/
theorem last {g : γ → Prog ε (List β) γ'} (f : α → α') (h : Breaks w r a E) :
    Breaks (w >>= fun x => pure (f x)) (r >>= g) (f a) E := by
  obtain ⟨u, hw, hr⟩ := h
  refine ⟨u, fun out => by rw [on_bind_ok (hw out), on_pure], fun rest => ?_⟩
  obtain ⟨e, he, rest', hrest⟩ := hr rest
  exact ⟨e, he, rest', on_bind_error hrest _⟩

theorem write_ok {c : Except ε α'} {f : α' → Prog ε (List β) α} {x : α'} (hc : c = .ok x)
    (h : Breaks (f x) r a E) : Breaks (lift c >>= f) r a E := by
  obtain ⟨u, hw, hr⟩ := h
  refine ⟨u, fun out => ?_, hr⟩
  rw [hc, on_bind_ok (on_lift _ _), hw]

theorem read_ok {c : Except ε γ'} {g : γ' → Prog ε (List β) γ} {x : γ'} (hc : c = .ok x)
    (h : Breaks w (g x) a E) : Breaks w (lift c >>= g) a E := by
  rwa [hc, lift_ok, pure_bind]

theorem mono {E' : ε → Prop} (h : Breaks w r a E) (hE : ∀ e, E e → E' e) : Breaks w r a E' := by
  obtain ⟨u, hw, hr⟩ := h
  refine ⟨u, hw, fun rest => ?_⟩
  obtain ⟨e, he, hrest⟩ := hr rest
  exact ⟨e, hE e he, hrest⟩

theorem not_carries {a' : α} {b : γ} (h : Breaks w r a E) : ¬ Carries w r a' b := by
  rintro ⟨v, hv, hread⟩
  obtain ⟨u, hu, hr⟩ := h
  have hword : v = u := List.append_cancel_left (Prod.mk.inj ((hv []).symm.trans (hu []))).2
  obtain ⟨e, -, rest', hrest⟩ := hr []
  rw [← hword, hread] at hrest
  cases hrest

end Breaks

/-! ## Words -/

/-- Appends a word. -/
def put (word : List β) : Prog ε (List β) PUnit := modify (· ++ word)

/-- Reads the next `n` items, or fails with `e` where fewer are left. -/
def take (e : ε) (n : Nat) : Prog ε (List β) (List β) := of fun xs =>
  if n ≤ xs.length then (.ok (xs.take n), xs.drop n) else (.error e, xs)

@[simp] theorem on_put (word out : List β) :
    (put word : Prog ε (List β) PUnit).on out = (.ok ⟨⟩, out ++ word) := rfl

theorem forM_put (f : α → List β) (xs : List α) :
    xs.forM (fun x => (put (f x) : Prog ε (List β) PUnit)) = put (xs.map f).flatten := by
  induction xs with
  | nil =>
    apply ext
    intro out
    rw [List.map_nil, List.flatten_nil, on_put, List.append_nil]
    rfl
  | cons x xs ih =>
    apply ext
    intro out
    show (put (f x) >>= fun _ => xs.forM fun x => put (f x)).on out = _
    rw [ih, on_bind_ok (on_put _ _), on_put, on_put, List.map_cons, List.flatten_cons,
      List.append_assoc]

theorem carries_put_take (e : ε) {n : Nat} {word : List β} (h : word.length = n) :
    Carries (put word) (take e n) ⟨⟩ word := by
  refine ⟨word, fun out => rfl, fun rest => ?_⟩
  subst h
  simp [take]

/-! ## Readers of known lengths -/

/-- `r` reads `n` items and returns `f` of them; where fewer are left it fails with `e`. -/
def Takes (e : ε) (r : Prog ε (List β) α) (n : Nat) (f : List β → α) : Prop :=
  ∀ xs, (n ≤ xs.length → r.on xs = (.ok (f (xs.take n)), xs.drop n)) ∧
    (xs.length < n → ∃ ys, r.on xs = (.error e, ys))

/-- On the items `xs`, `r` fails with `e` or returns something in `Q`. -/
def Ends (e : ε) (r : Prog ε (List β) α) (Q : α → Prop) (xs : List β) : Prop :=
  Outcome (fun a _ => Q a) (fun e' _ => e' = e) (r.on xs)

/-- The results of `f` on `k` words of `n` items each. -/
def words (f : List β → α) (n : Nat) : Nat → List β → List α
  | 0, _ => []
  | k + 1, xs => f (xs.take n) :: words f n k (xs.drop n)

@[simp] theorem length_words (f : List β → α) (n k : Nat) (xs : List β) :
    (words f n k xs).length = k := by
  induction k generalizing xs with
  | zero => rfl
  | succ k ih => rw [words, List.length_cons, ih]

/-- The words are those of the items that hold them. -/
theorem words_take (f : List β → α) {n k m : Nat} (h : k * n ≤ m) (xs : List β) :
    words f n k (xs.take m) = words f n k xs := by
  induction k generalizing xs m with
  | zero => rfl
  | succ k ih =>
    have hle : n + k * n ≤ m := by rwa [Nat.succ_mul, Nat.add_comm] at h
    have hdrop : (xs.take m).drop n = (xs.drop n).take (m - n) := List.drop_take ..
    rw [words, words, List.take_take, Nat.min_eq_left (by omega), hdrop, ih (by omega)]

namespace Takes

variable {e : ε} {r : Prog ε (List β) α} {n : Nat} {f : List β → α}

theorem take (e : ε) (n : Nat) : Takes e (take e n : Prog ε (List β) (List β)) n id := by
  refine fun xs => ⟨fun h => if_pos h, fun h => ⟨xs, if_neg (Nat.not_le_of_lt h)⟩⟩

theorem map (g : α → α') (h : Takes e r n f) : Takes e (g <$> r) n (g ∘ f) := by
  refine fun xs => ⟨fun hle => ?_, fun hlt => ?_⟩
  · rw [on_map, (h xs).1 hle]
    rfl
  · obtain ⟨ys, hys⟩ := (h xs).2 hlt
    exact ⟨ys, by rw [on_map, hys]; rfl⟩

/-- A list of items read one by one. -/
theorem each {get : γ → Prog ε (List β) α} (olds : List γ) (h : ∀ y, Takes e (get y) n f) :
    Takes e (olds.mapM get) (olds.length * n) (words f n olds.length) := by
  induction olds with
  | nil =>
    refine fun xs => ⟨fun _ => ?_, fun hlt => absurd hlt (by simp)⟩
    rw [List.length_nil, Nat.zero_mul]
    rfl
  | cons y olds ih =>
    intro xs
    rw [List.mapM_cons, List.length_cons, Nat.succ_mul, Nat.add_comm]
    by_cases hn : n ≤ xs.length
    · rw [on_bind_ok ((h y xs).1 hn)]
      have hdrop : (xs.drop n).length = xs.length - n := List.length_drop
      refine ⟨fun hle => ?_, fun hlt => ?_⟩
      · rw [on_bind_ok ((ih (xs.drop n)).1 (by omega)), on_pure, List.drop_drop, words,
          List.take_take, Nat.min_eq_left (by omega), List.drop_take, Nat.add_sub_cancel_left]
      · obtain ⟨ys, hys⟩ := (ih (xs.drop n)).2 (by omega)
        exact ⟨ys, on_bind_error hys _⟩
    · obtain ⟨ys, hys⟩ := (h y xs).2 (Nat.lt_of_not_le hn)
      exact ⟨fun hle => absurd hle (by omega), fun _ => ⟨ys, on_bind_error hys _⟩⟩

end Takes

section Ends

variable {e : ε} {r : Prog ε (List β) α} {n : Nat} {f : List β → α} {g : α → Prog ε (List β) α'}
  {Q : α' → Prop} {xs : List β}

/-- After `n` items, what follows counts. -/
theorem Takes.ends_bind (h : Takes e r n f) :
    Ends e (r >>= g) Q xs ↔ (n ≤ xs.length → Ends e (g (f (xs.take n))) Q (xs.drop n)) := by
  unfold Ends
  by_cases hn : n ≤ xs.length
  · rw [on_bind_ok ((h xs).1 hn), forall_prop_of_true hn]
  · obtain ⟨ys, hys⟩ := (h xs).2 (Nat.lt_of_not_le hn)
    rw [on_bind_error hys]
    exact iff_of_true rfl fun hle => absurd hle hn

theorem ends_pure {a : α'} : Ends e (pure a : Prog ε (List β) α') Q xs ↔ Q a := Iff.rfl

theorem ends_lift_ok {c : Except ε α} {a : α} (h : c = .ok a) :
    Ends e (lift c >>= g) Q xs ↔ Ends e (g a) Q xs := by
  rw [h, lift_ok, pure_bind]

theorem not_ends_lift {c : Except ε α} {e' : ε} (h : c = .error e') (hne : e' ≠ e) :
    ¬ Ends e (lift c >>= g) Q xs := by
  rw [h, lift_error, throw_bind]
  exact hne

end Ends

end Prog

/-! ## Numbers -/

namespace Wire

/-- The `n` lowest bytes of `x`, the lowest first. -/
def leBytes : Nat → Nat → List UInt8
  | 0, _ => []
  | n + 1, x => x.toUInt8 :: leBytes n (x / 256)

/-- The number with the given bytes, the lowest first. -/
def leNat : List UInt8 → Nat
  | [] => 0
  | b :: bs => b.toNat + 256 * leNat bs

@[simp] theorem length_leBytes (n x : Nat) : (leBytes n x).length = n := by
  induction n generalizing x with
  | zero => rfl
  | succ n ih => rw [leBytes, List.length_cons, ih]

theorem leNat_leBytes {n x : Nat} (h : x < 256 ^ n) : leNat (leBytes n x) = x := by
  induction n generalizing x with
  | zero =>
    have : x < 1 := h
    rw [leBytes, leNat]
    omega
  | succ n ih =>
    have hx : x / 256 < 256 ^ n := Nat.div_lt_of_lt_mul (by rwa [Nat.pow_succ, Nat.mul_comm] at h)
    have hb : x.toUInt8.toNat = x % 256 := UInt8.toNat_ofNat'
    rw [leBytes, leNat, ih hx, hb]
    omega

/-- A number of `n` bytes. -/
theorem carries_le {ε : Type} (e : ε) {n x : Nat} (h : x < 256 ^ n) :
    Prog.Carries (Prog.put (leBytes n x)) (leNat <$> Prog.take e n) ⟨⟩ x := by
  have := (Prog.carries_put_take e (length_leBytes n x)).map id leNat
  rwa [id_map, leNat_leBytes h] at this

end Wire
