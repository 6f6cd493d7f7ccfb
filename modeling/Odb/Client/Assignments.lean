import Odb.Client.Lookups
import Odb.Client.RegValues
import Odb.Server.TypedMemory

/-!
# `sreg` assigns each value to its own register

A `sreg` command has pairs of a register and a value, any of them given in several ways and
registers repeated. Every value goes through a `double`.

* `Floats.KeepsLarge`, `encode_eq_iff`: when a number keeps its bytes on the way.
* `SregArgs`, `lastOf`: the pairs of a command, and the number that a register gets last.
* `cmdSreg_on`: the command is a `set_regs` with the bytes of the numbers.
* `cmdPreg_shows`: what `preg` prints of registers with known values.
* `assignsEach_iff`: when a `sreg` that succeeds has assigned each value.
-/

namespace Odb

open Prog Wire

/-- A number beyond those that a `double` has without exception stays there. -/
def Floats.KeepsLarge (F : Floats) : Prop :=
  ∀ {n m}, Stoll.InRange n → F.trunc (F.ofInt n) = some m →
    (2 ^ 53 ≤ n → 2 ^ 53 ≤ m) ∧ (n ≤ -2 ^ 53 → m ≤ -2 ^ 53)

theorem exact_of_le {n : Int} (h : n.natAbs < 2 ^ 53) : Exact n := ⟨n, 0, h, by simp⟩

namespace TypeDesc

theorem encode_inj {ty : TypeDesc} {m n : Int} :
    ty.encode m = ty.encode n ↔ m % 2 ^ (8 * ty.size) = n % 2 ^ (8 * ty.size) := by
  unfold encode
  constructor
  · intro h
    have h := congrArg leNat h
    rw [leNat_leBytes (ty.emod_lt m), leNat_leBytes (ty.emod_lt n)] at h
    have hpos : (0 : Int) < 2 ^ (8 * ty.size) := Int.pow_pos (by decide)
    have := Int.emod_nonneg m hpos.ne'
    have := Int.emod_nonneg n hpos.ne'
    omega
  · intro h
    rw [h]

/-- The bytes that are stored for a number are its own exactly if a `double` has it. -/
theorem encode_eq_iff {F : Floats} (hF : F.Lawful) (hlarge : F.KeepsLarge) {ty : TypeDesc}
    (hty : ty.isFloat = false) {m n : Int} (hn : Stoll.InRange n)
    (hm : F.trunc (F.ofInt n) = some m) (hrange : ty.InRange m) :
    ty.encode m = ty.encode n ↔ Exact n := by
  constructor
  · intro h
    have hmod := encode_inj.mp h
    by_contra hexact
    -- such a number is large, so the type has 64 bits and the number is in its range
    have hbig : 2 ^ 53 ≤ n ∨ n ≤ -2 ^ 53 := by
      by_contra hsmall
      exact hexact (exact_of_le (by omega))
    obtain ⟨hup, hdown⟩ := hlarge hn hm
    have hne : m ≠ n := by
      rintro rfl
      exact hexact (hF.rounded hn hm)
    unfold Stoll.InRange at hn
    unfold InRange at hrange
    cases ty <;> simp [isSigned, size, isFloat] at hrange hmod hty <;> omega
  · intro hexact
    obtain rfl := Option.some.inj (hm.symm.trans (hF.exact hn hexact))
    rfl

end TypeDesc

/-! ## Registers with known values -/

section Values

variable {V : Type} {api : VMApi V} {T : RegTable} {values : V → VmReg → Bytes}

/-- The registers that `cur` has a value for have this value. -/
def HasVals (values : V → VmReg → Bytes) (cur : VmReg → Bytes) (vm : V) : Prop :=
  ∀ id, cur id = [] ∨ values vm id = cur id

/-- It is the value that `cur` has for the register, if it has one. -/
def IsVal (cur : VmReg → Bytes) (id : VmReg) (val : Bytes) : Prop := cur id = [] ∨ val = cur id

theorem VMApi.Stores.hasVals (hvm : api.Stores T values) (cur : VmReg → Bytes) :
    api.HasRegs T (HasVals values cur) (IsVal cur) where
  known infos h hd := by
    obtain ⟨vm', hget, hcur⟩ := (hvm.answers _).known infos rfl hd
    exact ⟨vm', hget, fun id => hcur ▸ h id⟩
  unknown infos h hd := by
    obtain ⟨msg, vm', hget, hcur⟩ := (hvm.answers _).unknown infos rfl hd
    exact ⟨msg, vm', hget, fun id => hcur ▸ h id⟩
  value {id _ _} old h hd hold := by
    obtain ⟨val, vm', hget, hlen, rfl, hcur⟩ := (hvm.answers _).value old rfl hd hold
    exact ⟨_, vm', hget, hlen, h id, fun id => hcur ▸ h id⟩
  found h hfind := by
    obtain ⟨vm', hrun, hcur⟩ := (hvm.answers _).found rfl hfind
    exact ⟨vm', hrun, fun id => hcur ▸ h id⟩
  notFound h hfind := by
    obtain ⟨msg, vm', hrun, hcur⟩ := (hvm.answers _).notFound rfl hfind
    exact ⟨msg, vm', hrun, fun id => hcur ▸ h id⟩

theorem VMApi.Stores.tracksVals (hvm : api.Stores T values) :
    api.TracksRegs T (HasVals values) IsVal where
  answers := hvm.hasVals
  set {cur id buf _ _} h hhas hlen hset id' := by
    rw [hvm.set hhas hlen hset]
    by_cases hid : id' = id
    · subst hid
      rw [Function.update_self, Function.update_self]
      exact .inr rfl
    · rw [Function.update_of_ne hid, Function.update_of_ne hid]
      exact h id'
  hit cur id val := .inr (Function.update_self id val cur).symm
  miss cur id val id' val' hne h := by
    rw [IsVal, Function.update_of_ne hne]
    exact h

theorem VMApi.Stores.hasValues (hvm : api.Stores T values) (cur : VmReg → Bytes) :
    api.HasRegs T (fun vm => values vm = cur) fun _ _ => True where
  known infos h hd := (hvm.answers cur).known infos h hd
  unknown infos h hd := (hvm.answers cur).unknown infos h hd
  value old h hd hold := by
    obtain ⟨val, vm', hget, hlen, -, hcur⟩ := (hvm.answers cur).value old h hd hold
    exact ⟨val, vm', hget, hlen, trivial, hcur⟩
  found h hfind := (hvm.answers cur).found h hfind
  notFound h hfind := (hvm.answers cur).notFound h hfind

theorem VMApi.Stores.tracksValues (hvm : api.Stores T values) :
    api.TracksRegs T (fun cur vm => values vm = cur) fun _ _ _ => True where
  answers := hvm.hasValues
  set := hvm.tracks.set
  hit _ _ _ := trivial
  miss _ _ _ _ _ _ _ := trivial

end Values

namespace SimpleCLIClient

open DBClient

/-! ## The arguments -/

section Arguments

variable {F : Floats} {T : RegTable} {S : SymDict} {ty : TypeDesc} {tyName : Bytes}
  {args : List (Bytes × Bytes)} {rows : List (VmReg × Int)}

/-- The argument designates the register: by its id, or by the name that the VM reports for it. -/
def Designates (T : RegTable) (d : Bytes) (id : VmReg) : Prop := ∃ r, rReg d = .ok r ∧ r.Is T id

/-- The value is the number: a literal, or a symbol at this address by its id or its name. -/
def Denotes (F : Floats) (S : SymDict) (s : Bytes) (n : Int) : Prop :=
  ∃ v, rValue F s = .ok v ∧ v.Is S n

/-- The arguments of a `sreg` for registers of the size of the type, each with the number that is
given for it. -/
structure SregArgs (F : Floats) (T : RegTable) (S : SymDict) (ty : TypeDesc) (tyName : Bytes)
    (args : List (Bytes × Bytes)) (rows : List (VmReg × Int)) : Prop where
  parse : TypeDesc.parse tyName = .ok ty
  int : ty.isFloat = false
  count : args.length < 2 ^ 16
  pairs : List.Forall₂ (fun a row => Designates T a.1 row.1 ∧ Denotes F S a.2 row.2) args rows
  regs : ∀ row ∈ rows, T.Has row.1 ∧ (T.size row.1).toNat = ty.size

/-- The words of pairs. -/
def pairWords (args : List (Bytes × Bytes)) : List Bytes := args.flatMap fun a => [a.1, a.2]

/-- The number that the register gets last. -/
def lastOf (rows : List (VmReg × Int)) (id : VmReg) : Option Int :=
  (rows.reverse.find? (·.1 = id)).map Prod.snd

/-- The number is converted to a `double` and then to the type, without undefined behaviour. -/
def Storable (F : Floats) (ty : TypeDesc) (n : Int) : Prop :=
  ∃ m, F.trunc (F.ofInt n) = some m ∧ ty.InRange m

/-- The bytes that are stored for it. -/
def storedBytes (F : Floats) (ty : TypeDesc) (n : Int) : Bytes :=
  ty.encode ((F.trunc (F.ofInt n)).getD 0)

theorem pairs_pairWords (args : List (Bytes × Bytes)) : pairs (pairWords args) = args := by
  induction args with
  | nil => rfl
  | cons a args ih => exact congrArg (a :: ·) ih

theorem length_pairWords (args : List (Bytes × Bytes)) :
    (pairWords args).length = 2 * args.length := by
  induction args with
  | nil => rfl
  | cons a args ih =>
    rw [show pairWords (a :: args) = a.1 :: a.2 :: pairWords args from rfl, List.length_cons,
      List.length_cons, ih, List.length_cons]
    omega

theorem rValue_ival {s : Bytes} {n : Int} (h : rValue F s = .ok (.ival n)) :
    parseInt s true = .ok n := by
  unfold rValue at h
  split at h
  · split at h
    · rcases hid : parseInt s.tail false with e | k <;> rw [hid] at h <;> cases h
    · cases h
  · rcases hparse : parseInt s true with e | k <;> rw [hparse] at h
    · rcases hd : parseDouble F s with e | d <;> rw [hd] at h <;> cases h
    · cases h
      rfl

theorem Denotes.inRange {s : Bytes} {n : Int} (h : Denotes F S s n) : Stoll.InRange n := by
  have hat {id : VmSym} (h : S.At id n) : Stoll.InRange n := by
    obtain ⟨y, -, hsmall, rfl⟩ := h
    exact inRange_small hsmall
  obtain ⟨v, hv, his⟩ := h
  rcases v with n' | d | name | id
  · obtain rfl : n' = n := his
    obtain ⟨-, -, -, -, -, -, -, -, -, hrange⟩ := parseInt_ok.mp (rValue_ival hv)
    exact hrange
  · exact his.elim
  · obtain ⟨id, -, h⟩ := his
    exact hat h
  · exact hat his

/-- A register keeps the last of the bytes that are stored in it. -/
theorem store_last {bytes : Int → Bytes} {cur : VmReg → Bytes}
    (h : ∀ row ∈ rows, (bytes row.2).length = (T.size row.1).toNat) (id : VmReg) :
    T.store cur (rows.map fun row => (row.1, bytes row.2)) id =
      (lastOf rows id).elim (cur id) bytes := by
  induction rows using List.reverseRecOn with
  | nil => rfl
  | append_singleton rows row ih =>
    rw [List.forall_mem_append, List.forall_mem_singleton] at h
    have ih := ih h.1
    rw [List.map_append, RegTable.store, List.foldl_append]
    show Function.update (T.store cur _) row.1 ((bytes row.2).take (T.size row.1).toNat) id = _
    rw [← h.2, List.take_length, lastOf, List.reverse_append]
    by_cases hid : row.1 = id
    · subst hid
      simp
    · rw [Function.update_of_ne (Ne.symm hid), ih]
      simp [lastOf, hid]

/-! ## Storing the values -/

theorem loadVal_storable (hty : ty.isFloat = false) {n : Int} (h : Storable F ty n) :
    loadVal F (.ival n) ty = .ok (storedBytes F ty n) := by
  obtain ⟨m, hm, hrange⟩ := h
  rw [loadVal_int hty, storedBytes, hm]
  exact if_pos hrange

theorem loadVal_not_storable (hty : ty.isFloat = false) {n : Int} (h : ¬ Storable F ty n) :
    loadVal F (.ival n) ty = .error .undefined := by
  rw [loadVal_int hty]
  rcases hm : F.trunc (F.ofInt n) with _ | m
  · rfl
  · exact if_neg fun hrange => h ⟨m, hm, hrange⟩

theorem loads_ok (hty : ty.isFloat = false) (h : ∀ row ∈ rows, Storable F ty row.2) :
    ((rows.map Prod.snd).map ValueVariant.ival).mapM (fun val => loadVal F val ty) =
      .ok (rows.map fun row => storedBytes F ty row.2) := by
  rw [mapM_eq_ok, List.forall₂_map_left_iff, List.forall₂_map_left_iff, List.forall₂_map_right_iff,
    List.forall₂_same]
  exact fun row hrow => loadVal_storable hty (h row hrow)

theorem loads_undefined (hty : ty.isFloat = false) (h : ¬ ∀ row ∈ rows, Storable F ty row.2) :
    ((rows.map Prod.snd).map ValueVariant.ival).mapM (fun val => loadVal F val ty) =
      .error .undefined := by
  rcases hrun : ((rows.map Prod.snd).map ValueVariant.ival).mapM (fun val => loadVal F val ty)
    with e | bufs
  · obtain ⟨v, hv, he⟩ := mapM_eq_error hrun
    rw [List.map_map] at hv
    obtain ⟨row, -, rfl⟩ := List.mem_map.mp hv
    have he : loadVal F (.ival row.2) ty = .error e := he
    by_cases hrow : Storable F ty row.2
    · rw [loadVal_storable hty hrow] at he
      cases he
    · exact congrArg _ (Except.error.inj (he.symm.trans (loadVal_not_storable hty hrow)))
  · refine absurd (fun row hrow => ?_) h
    have hv : (.ival row.2 : ValueVariant F.Double) ∈ (rows.map Prod.snd).map .ival :=
      List.mem_map_of_mem (List.mem_map_of_mem hrow)
    obtain ⟨buf, -, hbuf⟩ := forall₂_mem_left (mapM_eq_ok.mp hrun) hv
    by_contra hno
    rw [loadVal_not_storable hty hno] at hbuf
    cases hbuf

end Arguments

/-! ## The command -/

section Command

variable {F : Floats} {V : Type} {api : VMApi V} {T : RegTable} {S : SymDict} {P : V → Prop}
  {R : VmReg → Bytes → Prop} {w w' : World (Debugger V)} {ty : TypeDesc} {tyName name : Bytes}
  {args : List (Bytes × Bytes)} {rows : List (VmReg × Int)}

/-- What `sreg` asks for before it stores the values. -/
def lookups {σ : Type} (F : Floats) (impl : DBClientImpl σ) (args : List (Bytes × Bytes)) :
    ClientM σ Unit := do
  let args ← Prog.lift (args.mapM fun (reg, val) => do return (← rReg reg, ← rValue F val))
  let _ ← resolveRegs impl (args.map Prod.fst)
  let _ ← resolveVals impl (args.map Prod.snd)

theorem SregArgs.read (h : SregArgs F T S ty tyName args rows) :
    ∃ regs vals, args.mapM (fun (reg, val) => do return (← rReg reg, ← rValue F val)) =
        .ok (regs.zip vals) ∧ regs.length = vals.length ∧
      List.Forall₂ (fun r id => r.Is T id) regs (rows.map Prod.fst) ∧
      List.Forall₂ (fun v n => v.Is S n) vals (rows.map Prod.snd) := by
  have hpairs := h.pairs
  clear h
  induction hpairs with
  | nil => exact ⟨[], [], rfl, rfl, .nil, .nil⟩
  | @cons a row args rows hpair _ ih =>
    obtain ⟨⟨r, hr, hreg⟩, v, hv, hval⟩ := hpair
    obtain ⟨regs, vals, hrun, hlen, hregs, hvals⟩ := ih
    refine ⟨r :: regs, v :: vals, ?_, congrArg Nat.succ hlen, .cons hreg hregs, .cons hval hvals⟩
    rw [List.mapM_cons, hrun]
    simp only [hr, hv]
    rfl

theorem buffers_eq {n len : Nat} (h : len * n ≤ maxBytes) :
    buffers n len = .ok (List.replicate n (List.replicate len 0)) := by
  unfold buffers
  rw [resize, if_pos h, ok_bind]
  refine congrArg Except.ok (List.eq_replicate_iff.mpr ⟨by simp, ?_⟩)
  rw [List.forall_mem_map]
  intro i hi
  have hi : i < n := List.mem_range.mp hi
  have hle : len * i + len ≤ len * n := by
    rw [← Nat.mul_succ]
    exact Nat.mul_le_mul_left len hi
  simp
  omega

theorem buffers_ok {n len : Nat} (h : len * n ≤ maxBytes) :
    ∃ bufs, buffers n len = .ok bufs ∧ bufs.length = n ∧ ∀ buf ∈ bufs, buf.length = len := by
  refine ⟨_, buffers_eq h, List.length_replicate, fun buf hbuf => ?_⟩
  rw [List.eq_of_mem_replicate hbuf, List.length_replicate]

theorem fits_of_size {id : VmReg} (h : (T.size id).toNat = ty.size) : T.Fits id := by
  intro d hd
  rw [← RegTable.size_eq hd, h]
  exact le_trans ty.size_le (by decide)

theorem SregArgs.has_fits (h : SregArgs F T S ty tyName args rows) {row : VmReg × Int}
    (hrow : row ∈ rows) : T.Has row.1 ∧ T.Fits row.1 :=
  ⟨(h.regs row hrow).1, fits_of_size (h.regs row hrow).2⟩

/-- After what it asks for, the command stores the numbers and sets the registers. -/
theorem cmdSreg_on (name : Bytes) (hvm : api.HasRegs T P R) (hsyms : api.HasSyms S P)
    (hargs : SregArgs F T S ty tyName args rows) (hne : args ≠ []) (hw : Serves T S P R w) :
    Serves T S P R ((lookups F (VMSide.impl api) args).on w).2 ∧
    (cmdSreg F (VMSide.impl api) (name :: tyName :: pairWords args)).on w = (do
      let bufs ← Prog.lift (((rows.map Prod.snd).map ValueVariant.ival).mapM fun val =>
        loadVal F val ty)
      setRegs (VMSide.impl api) (rows.map Prod.fst) bufs [ty.size.toUInt64, 0]
      return [] : ClientM (Debugger V) Bytes).on ((lookups F (VMSide.impl api) args).on w).2 := by
  obtain ⟨regs, vals, hread, hlen, hregs, hvals⟩ := hargs.read
  have hids : ∀ id ∈ rows.map Prod.fst, T.Has id ∧ T.Fits id :=
    List.forall_mem_map.mpr fun row hrow => hargs.has_fits hrow
  have hcount : args.length = rows.length := hargs.pairs.length_eq
  -- the registers, then the values
  have hresolve := resolveRegs_serves (S := S) hvm hregs hids w hw
  rcases hrun₁ : (resolveRegs (VMSide.impl api) regs).on w with ⟨e | ids, w₁⟩ <;>
    rw [hrun₁] at hresolve
  · exact hresolve.elim
  obtain ⟨hw₁, rfl⟩ := hresolve
  have hresolve := resolveVals_serves hsyms hvals w₁ hw₁
  rcases hrun₂ : (resolveVals (VMSide.impl api) vals).on w₁ with ⟨e | vv, w₂⟩ <;>
    rw [hrun₂] at hresolve
  · exact hresolve.elim
  obtain ⟨hw₂, rfl⟩ := hresolve
  have hlookups : (lookups F (VMSide.impl api) args).on w = (.ok (), w₂) := by
    unfold lookups
    rw [hread, lift_ok, pure_bind, List.map_fst_zip hlen.le, List.map_snd_zip hlen.ge,
      on_bind_ok hrun₁, on_bind_ok hrun₂]
    rfl
  rw [hlookups]
  refine ⟨hw₂, ?_⟩
  have hwords : ¬ ((name :: tyName :: pairWords args).length < 4 ∨
      (name :: tyName :: pairWords args).length % 2 ≠ 0) := by
    have := List.length_pos_iff.mpr hne
    rw [List.length_cons, List.length_cons, length_pairWords]
    omega
  obtain ⟨bufs, hbufs, -⟩ := @buffers_ok (rows.map Prod.fst).length ty.size (by
    rw [List.length_map, ← hcount]
    exact le_trans (Nat.mul_le_mul ty.size_le hargs.count.le) (by decide))
  unfold cmdSreg
  rw [if_neg hwords]
  show (Prog.lift (TypeDesc.parse tyName) >>= _ : ClientM (Debugger V) Bytes).on w = _
  rw [hargs.parse, lift_ok, pure_bind,
    show (name :: tyName :: pairWords args).drop 2 = pairWords args from rfl, pairs_pairWords,
    hread, lift_ok, pure_bind, List.map_fst_zip hlen.le, List.map_snd_zip hlen.ge, on_bind_ok hrun₁,
    on_bind_ok hrun₂, hbufs, lift_ok, pure_bind]

end Command

/-! ## What the command does -/

section Effect

variable {V : Type} {api : VMApi V} {T : RegTable} {values : V → VmReg → Bytes}
  {w w' : World (Debugger V)} {ids : List VmReg} {bufs : List Bytes}

/-- One size for all registers. -/
theorem sizedArgs_uniform {size : Nat} (hsize : size < 2 ^ 64) (hlen : bufs.length = ids.length)
    (hids : ∀ id ∈ ids, (T.size id).toNat = size) (hbufs : ∀ buf ∈ bufs, buf.length = size) :
    SizedArgs T ids bufs [size.toUInt64, 0] := by
  intro p hp
  have hi : p.2 < ids.length := List.snd_lt_of_mem_zipIdx hp
  have hb : p.2 < bufs.length := hlen ▸ hi
  have hnat : size.toUInt64.toNat = size := toNat_toUInt64 hsize
  refine ⟨size.toUInt64, bufs[p.2], ?_, List.getElem?_eq_getElem hb, ?_, fun _ => ?_⟩
  · unfold regSize
    split
    · rfl
    · obtain hzero : p.2 = 0 := by omega
      rw [hzero]
      rfl
  · rw [hnat, hbufs _ (List.getElem_mem hb)]
  · rw [← UInt64.toNat_inj, hnat, hids p.1 (List.fst_mem_of_mem_zipIdx hp)]

variable {F : Floats} {P : V → Prop} {R : VmReg → Bytes → Prop} {ty : TypeDesc}
  {tyName name : Bytes} {ds : List Bytes}

theorem printVal_int (hty : ty.isFloat = false) {buf : Bytes} (hlen : buf.length = ty.size) :
    printVal F buf ty = .ok (decInt (ty.decode buf)) := by
  unfold printVal
  rw [if_pos hlen.ge, List.take_of_length_le hlen.le]
  cases ty with
  | f32 | f64 => cases hty
  | _ => rfl

/-- What `preg` prints of registers with these bytes. -/
def shownRegs (ty : TypeDesc) (bytes : VmReg → Bytes) (ds : List Bytes) (ids : List VmReg) :
    Bytes :=
  concat (List.zipWith (fun d id => d ++ lit ": " ++ decInt (ty.decode (bytes id)) ++ lit "\n")
    ds ids)

theorem printRegs_ok (hty : ty.isFloat = false) {bytes : VmReg → Bytes}
    (hlen : ds.length = ids.length) (hbytes : ∀ id ∈ ids, (bytes id).length = ty.size) :
    (ds.zip (ids.map bytes)).mapM (fun (name, buf) => do
      return name ++ lit ": " ++ (← printVal F buf ty) ++ lit "\n") =
      .ok (List.zipWith (fun d id => d ++ lit ": " ++ decInt (ty.decode (bytes id)) ++ lit "\n")
        ds ids) := by
  induction ds generalizing ids with
  | nil => rfl
  | cons d ds ih =>
    obtain _ | ⟨id, ids⟩ := ids
    · cases hlen
    rw [List.forall_mem_cons] at hbytes
    rw [List.map_cons, List.zip_cons_cons, List.mapM_cons, ih (Nat.succ.inj hlen) hbytes.2]
    simp only [printVal_int hty hbytes.1]
    rfl

theorem designated (hds : List.Forall₂ (Designates T) ds ids) :
    ∃ regs, ds.mapM rReg = .ok regs ∧ List.Forall₂ (fun r id => r.Is T id) regs ids := by
  induction hds with
  | nil => exact ⟨[], rfl, .nil⟩
  | cons hd _ ih =>
    obtain ⟨r, hr, hreg⟩ := hd
    obtain ⟨regs, hrun, hregs⟩ := ih
    exact ⟨r :: regs, by rw [List.mapM_cons, hr, ok_bind, hrun]; rfl, .cons hreg hregs⟩

theorem valuesFit_of_size {c : DBClient} (hcount : ids.length < 2 ^ 16)
    (hids : ∀ id ∈ ids, (T.size id).toNat = ty.size) : ValuesFit T c ids where
  nonempty id hid _ hzero := by
    have hsize := hids id hid
    rw [hzero] at hsize
    exact ty.size_pos.ne hsize
  total := by
    have hle : ∀ n ∈ (ids.filter (c.cached · = [])).map fun id => (T.size id).toNat, n ≤ ty.size :=
      List.forall_mem_map.mpr fun id hid => (hids id (List.mem_of_mem_filter hid)).le
    refine (List.sum_le_card_nsmul _ _ hle).trans ?_
    rw [List.length_map]
    have hfilter := List.length_filter_le (fun id => decide (c.cached id = [])) ids
    have hmul := Nat.mul_le_mul (hfilter.trans hcount.le) ty.size_le
    exact hmul.trans (by decide)

/-- The registers have the values that the client and the VM have for them: `preg` prints them. -/
theorem cmdPreg_shows (hvm : api.HasRegs T P R) (hw : Ready T P (fun _ => True) R w)
    (hname : TypeDesc.parse tyName = .ok ty) (hty : ty.isFloat = false) (hne : ds ≠ [])
    (hcount : ds.length < 2 ^ 16) (hds : List.Forall₂ (Designates T) ds ids)
    (hids : ∀ id ∈ ids, T.Has id ∧ (T.size id).toNat = ty.size) {bytes : VmReg → Bytes}
    (hval : ∀ id ∈ ids, ∀ val, R id val → val = bytes id) :
    ∃ w', (cmdPreg F (VMSide.impl api) (name :: tyName :: ds)).on w =
      (.ok (shownRegs ty bytes ds ids), w') := by
  obtain ⟨regs, hread, hregs⟩ := designated hds
  have hlen : ds.length = ids.length := hds.length_eq
  -- the symbols that the debugger has loaded do not matter
  have hserves : Serves T ⟨fun id => w.impl.mapSyms[id]?, fun _ => none⟩ P R w :=
    ⟨hw, fun _ _ h => h⟩
  have hresolve := resolveRegs_serves hvm hregs
    (fun id hid => ⟨(hids id hid).1, fits_of_size (hids id hid).2⟩) w hserves
  rcases hrun₁ : (resolveRegs (VMSide.impl api) regs).on w with ⟨e | ids', w₁⟩ <;>
    rw [hrun₁] at hresolve
  · exact hresolve.elim
  obtain ⟨⟨hw₁, -⟩, rfl⟩ := hresolve
  obtain ⟨bufs, hbufs, hbuflen, hsizes⟩ := @buffers_ok ids'.length ty.size (by
    rw [← hlen]
    exact le_trans (Nat.mul_le_mul ty.size_le hcount.le) (by decide))
  have hget := getRegs_yields hvm hw₁ (sizedArgs_uniform (lt_of_le_of_lt ty.size_le (by decide))
    hbuflen (fun id hid => (hids id hid).2) hsizes) (fun _ _ => trivial) w₁ rfl
  rcases hrun₂ : (getRegs (VMSide.impl api) ids' bufs [ty.size.toUInt64, 0]).on w₁
    with ⟨e | outs, w₂⟩ <;> rw [hrun₂] at hget
  · exact absurd (fun id hid => (hids id hid).1)
      (hget.2 (valuesFit_of_size (hlen ▸ hcount) fun id hid => (hids id hid).2)).1
  obtain ⟨-, ⟨rows, rfl, hrows⟩, -⟩ := hget
  have hbytes : ∀ id ∈ ids', (bytes id).length = ty.size := by
    intro id hid
    obtain ⟨i, hi, rfl⟩ := List.getElem_of_mem hid
    obtain ⟨row, -, val, buf, hR, -, hvlen, -⟩ :=
      forall₂_mem_left hrows (List.mk_mem_zipIdx_iff_getElem?.mpr (List.getElem?_eq_getElem hi))
    obtain rfl := hval _ hid val hR
    rw [hvlen, (hids _ hid).2]
  -- every value fills its buffer
  have hout : rows ++ bufs.drop ids'.length = ids'.map bytes := by
    have hrows : List.Forall₂ (fun p row => row = bytes p.1) ids'.zipIdx rows := by
      have hmem : ∀ p ∈ ids'.zipIdx, p.1 ∈ ids' := fun p => List.fst_mem_of_mem_zipIdx
      refine ((List.forall₂_and_left _ _).mpr ⟨hmem, hrows⟩).imp fun p row hrow => ?_
      obtain ⟨hid, val, buf, hR, hbuf, -, rfl⟩ := hrow
      obtain rfl := hval _ hid val hR
      rw [hbytes _ hid, ← hsizes _ (List.mem_of_getElem? hbuf), List.drop_length, List.append_nil]
    rw [← hbuflen, List.drop_length, List.append_nil, ← List.zipIdx_map_fst 0 ids', List.map_map,
      ← List.forall₂_eq_eq_eq, List.forall₂_map_right_iff]
    exact hrows.flip
  rw [hout] at hrun₂
  have hwords : ¬ (name :: tyName :: ds).length < 3 := by
    have := List.length_pos_iff.mpr hne
    rw [List.length_cons, List.length_cons]
    omega
  refine ⟨w₂, ?_⟩
  unfold cmdPreg
  rw [if_neg hwords]
  show (Prog.lift (TypeDesc.parse tyName) >>= _ : ClientM (Debugger V) Bytes).on w = _
  rw [hname, lift_ok, pure_bind, show (name :: tyName :: ds).drop 2 = ds from rfl, hread, lift_ok,
    pure_bind, on_bind_ok hrun₁, hbufs, lift_ok, pure_bind, on_bind_ok hrun₂,
    printRegs_ok hty hlen hbytes]
  rfl

end Effect

/-! ## Each value in its register -/

section Assigned

variable (F : Floats) {V : Type} (api : VMApi V) (T : RegTable) (values : V → VmReg → Bytes)
  (ty : TypeDesc) (rows : List (VmReg × Int))

/-- The registers of the pairs have the last number that is given for them, all others what they
had. -/
def Assigned (vm vm' : V) : Prop :=
  ∀ id, values vm' id = (lastOf rows id).elim (values vm id) ty.encode

/-- `preg` with a type of the same size shows these numbers, of any of the registers. -/
def Shown (w : World (Debugger V)) : Prop :=
  ∀ (name tyName : Bytes) (shownAs : TypeDesc) (ds : List Bytes) (ids : List VmReg),
    TypeDesc.parse tyName = .ok shownAs → shownAs.isFloat = false → shownAs.size = ty.size →
    ds ≠ [] → ds.length < 2 ^ 16 → List.Forall₂ (Designates T) ds ids →
    (∀ id ∈ ids, id ∈ rows.map Prod.fst) →
    ∃ w', (cmdPreg F (VMSide.impl api) (name :: tyName :: ds)).on w =
      (.ok (shownRegs shownAs (fun id => (lastOf rows id).elim [] ty.encode) ds ids), w')

/-- The command returns, and then every value is in its register. -/
def AssignsEach (words : List Bytes) (w : World (Debugger V)) : Prop :=
  ∃ out w', (cmdSreg F (VMSide.impl api) words).on w = (.ok out, w') ∧
    Assigned values ty rows w.impl.vm w'.impl.vm ∧ Shown F api T ty rows w'

variable {F api T values ty rows} {S : SymDict} {w : World (Debugger V)} {tyName name : Bytes}
  {args : List (Bytes × Bytes)}

theorem lastOf_mem {id : VmReg} {n : Int} (h : lastOf rows id = some n) : (id, n) ∈ rows := by
  obtain ⟨row, hfind, rfl⟩ := Option.map_eq_some_iff.mp h
  obtain rfl : row.1 = id := by simpa using List.find?_some hfind
  exact List.mem_reverse.mp (List.mem_of_find?_eq_some hfind)

theorem lastOf_isSome {id : VmReg} (h : id ∈ rows.map Prod.fst) : ∃ n, lastOf rows id = some n := by
  obtain ⟨row, hrow, rfl⟩ := List.mem_map.mp h
  rcases hfind : rows.reverse.find? (·.1 = row.1) with _ | last
  · have := List.find?_eq_none.mp hfind row (List.mem_reverse.mpr hrow)
    simp at this
  · exact ⟨last.2, by rw [lastOf, hfind]; rfl⟩

theorem length_storedBytes (n : Int) : (storedBytes F ty n).length = ty.size := ty.length_encode _

/-- The command has stored the bytes of the numbers. -/
theorem cmdSreg_spec (name : Bytes) {P : (VmReg → Bytes) → V → Prop}
    {R : (VmReg → Bytes) → VmReg → Bytes → Prop}
    (hvm : api.TracksRegs T P R) (cur : VmReg → Bytes) (hsyms : api.HasSyms S (P cur))
    (hw : Serves T S (P cur) (R cur) w) (hargs : SregArgs F T S ty tyName args rows)
    (hne : args ≠ []) (hstorable : ∀ row ∈ rows, Storable F ty row.2) :
    Spec (· = w) (cmdSreg F (VMSide.impl api) (name :: tyName :: pairWords args))
      (fun _ w' => ∃ cur', (∀ id, cur' id = (lastOf rows id).elim (cur id) (storedBytes F ty)) ∧
        Ready T (P cur') (fun _ => True) (R cur') w')
      fun e _ => Caught e := by
  rintro _ rfl
  obtain ⟨hw', hrun⟩ := cmdSreg_on name (hvm.answers cur) hsyms hargs hne hw
  rw [hrun, loads_ok hargs.int hstorable, lift_ok, pure_bind]
  generalize ((lookups F (VMSide.impl api) args).on _).2 = w₁ at hw' ⊢
  have hids : ∀ id ∈ rows.map Prod.fst, T.Fits id ∧ (T.size id).toNat = ty.size :=
    List.forall_mem_map.mpr fun row hrow => ⟨(hargs.has_fits hrow).2, (hargs.regs row hrow).2⟩
  have hlen : (rows.map fun row => storedBytes F ty row.2).length = (rows.map Prod.fst).length := by
    rw [List.length_map, List.length_map]
  have hset := setRegs_spec hvm cur hw'.1 (sizedArgs_uniform (lt_of_le_of_lt ty.size_le (by decide))
    hlen (fun id hid => (hids id hid).2)
    (List.forall_mem_map.mpr fun row _ => length_storedBytes _)) (fun _ _ => trivial) w₁ rfl
  rcases hout : (setRegs (VMSide.impl api) (rows.map Prod.fst)
    (rows.map fun row => storedBytes F ty row.2) [ty.size.toUInt64, 0]).on w₁ with ⟨e | u, w₂⟩ <;>
    rw [hout] at hset
  · rw [on_bind_error hout]
    exact (hset fun id hid => (hids id hid).1).1
  · rw [on_bind_ok hout]
    refine ⟨_, fun id => ?_, hset.2⟩
    rw [← zip_eq_rowsOf hlen.ge, ← hlen, List.take_length, List.zip_map', store_last]
    intro row hrow
    rw [length_storedBytes, (hargs.regs row hrow).2]

/-- Registers with the bytes of numbers are shown by `preg`. -/
theorem shown_of_known (hvm : api.Stores T values) {cur : VmReg → Bytes}
    (hcur : ∀ id n, lastOf rows id = some n → cur id = ty.encode n)
    (hargs : SregArgs F T S ty tyName args rows)
    (hw : Ready T (HasVals values cur) (fun _ => True) (IsVal cur) w) :
    Shown F api T ty rows w := by
  intro name tyName shownAs ds ids hname hint hsize hne hcount hds hids
  refine cmdPreg_shows (hvm.hasVals cur) hw hname hint hne hcount hds (fun id hid => ?_)
    fun id hid val hval => ?_
  · obtain ⟨row, hrow, rfl⟩ := List.mem_map.mp (hids id hid)
    rw [hsize]
    exact hargs.regs row hrow
  · obtain ⟨n, hn⟩ := lastOf_isSome (hids id hid)
    have hbytes := hcur id n hn
    rw [hn]
    refine (hval.resolve_left fun hnil => ?_).trans hbytes
    have hlen := congrArg List.length (hbytes.symm.trans hnil)
    rw [TypeDesc.length_encode] at hlen
    exact ty.size_pos.ne' hlen

/-- If the values are storable, the command returns and has stored their bytes, in the VM and in the
cache; or it throws. -/
theorem cmdSreg_stores (name : Bytes) (hvm : api.Stores T values)
    (hsyms : ∀ cur, api.HasSyms S fun vm => values vm = cur) (hw : Sound T w)
    (hdb : w.impl.SymsOf S) (hargs : SregArgs F T S ty tyName args rows) (hne : args ≠ [])
    (hstorable : ∀ row ∈ rows, Storable F ty row.2) :
    Spec (· = w) (cmdSreg F (VMSide.impl api) (name :: tyName :: pairWords args))
      (fun _ w' =>
        (∀ id, values w'.impl.vm id =
          (lastOf rows id).elim (values w.impl.vm id) (storedBytes F ty)) ∧
        ∃ cur, (∀ id, cur id = (lastOf rows id).elim [] (storedBytes F ty)) ∧
          Ready T (HasVals values cur) (fun _ => True) (IsVal cur) w')
      fun e _ => Caught e := by
  rintro w rfl
  -- what the VM has, and what both sides know of it
  have hvals := cmdSreg_spec name hvm.tracksValues (values w.impl.vm) (hsyms _)
    ⟨⟨hw.stopped, hw.server.with_vm rfl, hw.cache⟩, hdb⟩ hargs hne hstorable w rfl
  have hcache : CacheOf T (fun _ => True) (IsVal fun _ => []) w.client :=
    { hw.cache with
      vals := fun pos inf hinf hval =>
        have h := hw.cache.vals pos inf hinf hval
        ⟨h.1, h.2.1, .inl rfl⟩ }
  have hall : api.HasSyms S (HasVals values fun _ => []) := by
    constructor
    · intro id y vm _ hy
      obtain ⟨vm', hget, -⟩ := (hsyms _).infos rfl hy
      exact ⟨vm', hget, fun _ => .inl rfl⟩
    · intro name id vm _ hname
      obtain ⟨vm', hget, -⟩ := (hsyms _).found rfl hname
      exact ⟨vm', hget, fun _ => .inl rfl⟩
  have hknown := cmdSreg_spec name hvm.tracksVals (fun _ => []) hall
    ⟨⟨hw.stopped, hw.server.with_vm fun _ => .inl rfl, hcache⟩, hdb⟩ hargs hne hstorable w rfl
  rcases hrun : (cmdSreg F (VMSide.impl api) (name :: tyName :: pairWords args)).on w
    with ⟨e | out, w'⟩ <;> rw [hrun] at hvals hknown
  · exact hvals
  · obtain ⟨cur, hcur, hw'⟩ := hvals
    refine ⟨fun id => ?_, hknown⟩
    rw [hw'.server.vm]
    exact hcur id

theorem SregArgs.inRange (hargs : SregArgs F T S ty tyName args rows) {row : VmReg × Int}
    (hrow : row ∈ rows) : Stoll.InRange row.2 := by
  obtain ⟨a, -, -, hden⟩ := forall₂_mem_right hargs.pairs hrow
  exact hden.inRange

/-- A storable number has its own bytes exactly if a `double` has it. -/
theorem storedBytes_eq_iff (hF : F.Lawful) (hlarge : F.KeepsLarge)
    (hargs : SregArgs F T S ty tyName args rows) {row : VmReg × Int} (hrow : row ∈ rows)
    (h : Storable F ty row.2) : storedBytes F ty row.2 = ty.encode row.2 ↔ Exact row.2 := by
  obtain ⟨m, hm, hrange⟩ := h
  rw [storedBytes, hm]
  exact TypeDesc.encode_eq_iff hF hlarge hargs.int (hargs.inRange hrow) hm hrange

section Runs

variable (hvm : api.Stores T values) (hsyms : ∀ cur, api.HasSyms S fun vm => values vm = cur)
  (hw : Sound T w) (hdb : w.impl.SymsOf S) (hargs : SregArgs F T S ty tyName args rows)
include hvm hsyms hw hdb hargs

/-- A number that is not storable is undefined behaviour. -/
theorem cmdSreg_undefined (name : Bytes) (hne : args ≠ [])
    (h : ¬ ∀ row ∈ rows, Storable F ty row.2) :
    ((cmdSreg F (VMSide.impl api) (name :: tyName :: pairWords args)).on w).1 =
      .error .undefined := by
  have hw' : Serves T S (fun vm => values vm = values w.impl.vm) (fun _ _ => True) w :=
    ⟨⟨hw.stopped, hw.server.with_vm rfl, hw.cache⟩, hdb⟩
  rw [(cmdSreg_on name (hvm.hasValues _) (hsyms _) hargs hne hw').2,
    loads_undefined hargs.int h]
  rfl

theorem assignsEach_of_exact (hF : F.Lawful) (hlarge : F.KeepsLarge) (hne : args ≠ [])
    (hsucc : ∀ msg, ((cmdSreg F (VMSide.impl api) (name :: tyName :: pairWords args)).on w).1 ≠
      .error (.vmError msg))
    (hstorable : ∀ row ∈ rows, Storable F ty row.2)
    (hexact : ∀ id n, lastOf rows id = some n → Exact n) :
    AssignsEach F api T values ty rows (name :: tyName :: pairWords args) w := by
  have hbytes (id : VmReg) (n : Int) (hn : lastOf rows id = some n) :
      storedBytes F ty n = ty.encode n :=
    (storedBytes_eq_iff hF hlarge hargs (lastOf_mem hn) (hstorable _ (lastOf_mem hn))).mpr
      (hexact id n hn)
  have hspec := cmdSreg_stores name hvm hsyms hw hdb hargs hne hstorable w rfl
  rcases hrun : (cmdSreg F (VMSide.impl api) (name :: tyName :: pairWords args)).on w
    with ⟨e | out, w'⟩ <;> rw [hrun] at hspec hsucc
  · obtain ⟨msg⟩ | _ | _ := e
    · exact absurd rfl (hsucc msg)
    all_goals exact hspec.elim
  · obtain ⟨hvals, cur, hcur, hw'⟩ := hspec
    refine ⟨out, w', hrun, fun id => ?_, shown_of_known hvm (fun id n hn => ?_) hargs hw'⟩
    · rw [hvals]
      rcases hn : lastOf rows id with _ | n
      · rfl
      · exact hbytes id n hn
    · rw [hcur, hn]
      exact hbytes id n hn

theorem AssignsEach.exact (hF : F.Lawful) (hlarge : F.KeepsLarge) (hne : args ≠ [])
    (h : AssignsEach F api T values ty rows (name :: tyName :: pairWords args) w) :
    (∀ row ∈ rows, Storable F ty row.2) ∧ ∀ id n, lastOf rows id = some n → Exact n := by
  obtain ⟨out, w', hrun, hassigned, -⟩ := h
  have hstorable : ∀ row ∈ rows, Storable F ty row.2 := by
    by_contra hno
    have hund := cmdSreg_undefined hvm hsyms hw hdb hargs name hne hno
    rw [hrun] at hund
    cases hund
  refine ⟨hstorable, fun id n hn => ?_⟩
  have hspec := cmdSreg_stores name hvm hsyms hw hdb hargs hne hstorable w rfl
  rw [hrun] at hspec
  have hbytes := (hspec.1 id).symm.trans (hassigned id)
  rw [hn] at hbytes
  exact (storedBytes_eq_iff hF hlarge hargs (lastOf_mem hn) (hstorable _ (lastOf_mem hn))).mp hbytes

/-- A `sreg` that does not throw has assigned each value to its register exactly if every number is
one of the type when a `double` has rounded it, and the last one of each register is not rounded. -/
theorem assignsEach_iff (hF : F.Lawful) (hlarge : F.KeepsLarge)
    (hsucc : ∀ msg, ((cmdSreg F (VMSide.impl api) (name :: tyName :: pairWords args)).on w).1 ≠
      .error (.vmError msg)) :
    AssignsEach F api T values ty rows (name :: tyName :: pairWords args) w ↔
      (∀ row ∈ rows, Storable F ty row.2) ∧ ∀ id n, lastOf rows id = some n → Exact n := by
  have hne : args ≠ [] := by
    rintro rfl
    exact hsucc _ rfl
  exact ⟨fun h => h.exact hvm hsyms hw hdb hargs hF hlarge hne,
    fun h => assignsEach_of_exact hvm hsyms hw hdb hargs hF hlarge hne hsucc h.1 h.2⟩

end Runs

end Assigned

/-! ### Registers of 8 bytes -/

theorem truncated_neg (n : Int) : truncated (-n) = -truncated n := by
  rw [truncated, truncated, Int.natAbs_neg, Int.neg_tdiv, Int.neg_mul]

/-- A power of two that is below the number stays below it. -/
theorem le_truncated {a : Nat} (h : 2 ^ 53 ≤ a) : (2 : Int) ^ 53 ≤ truncated a := by
  have hne : a ≠ 0 := by omega
  have hlog : 53 ≤ a.log2 := (Nat.le_log2 hne).mpr h
  obtain ⟨k, hk⟩ := Nat.exists_eq_add_of_le hlog
  have hself := Nat.log2_self_le hne
  have hquot : 2 ^ 52 ≤ a / 2 ^ (a.log2 - 52) := by
    rw [Nat.le_div_iff_mul_le (Nat.two_pow_pos _), ← Nat.pow_add]
    exact le_trans (Nat.pow_le_pow_right (by decide) (by omega)) hself
  have hpow : 2 ^ 1 ≤ 2 ^ (a.log2 - 52) := Nat.pow_le_pow_right (by decide) (by omega)
  have htrunc : truncated a = (a / 2 ^ (a.log2 - 52) * 2 ^ (a.log2 - 52) : Nat) := by
    rw [truncated, Int.natAbs_natCast]
    norm_cast
  rw [htrunc]
  exact_mod_cast Nat.mul_le_mul hquot hpow

theorem integral_keepsLarge : integral.KeepsLarge := by
  intro n m _ h
  obtain rfl : truncated n = m := Option.some.inj h
  refine ⟨fun hn => ?_, fun hn => ?_⟩
  · obtain ⟨a, rfl⟩ := Int.eq_ofNat_of_zero_le (show 0 ≤ n by omega)
    exact le_truncated (by omega)
  · obtain ⟨a, ha⟩ := Int.eq_ofNat_of_zero_le (show 0 ≤ -n by omega)
    obtain rfl : n = -(a : Int) := by omega
    have := le_truncated (a := a) (by omega)
    rw [truncated_neg]
    omega

/-- Two registers of 8 bytes, called `r1` and `r2`. -/
def wideRegs : RegTable where
  info idx :=
    if idx = 1 then some ⟨lit "r1", 8, .general⟩
    else if idx = 2 then some ⟨lit "r2", 8, .general⟩ else none
  find name := if name = lit "r1" then some 1 else if name = lit "r2" then some 2 else none

/-- What is in them. -/
abbrev WideRegs := VmReg → { val : Bytes // val.length = 8 }

/-- A VM with these registers. -/
def wide : VMApi WideRegs where
  getVmInfos vm := (.ok { Debugger.noInfos with memorySize := 100 }, vm)
  getUpdateInfos vm := (.ok ⟨.ok, 4⟩, vm)
  getReg idx infos valOnly vm :=
    (wideRegs.info idx).elim (.error [], vm) fun d =>
      (.ok (if valOnly then { infos with val := (vm idx).1 } else d.infos idx infos.val), vm)
  setReg idx newVal vm :=
    if h : (wideRegs.info idx).isSome ∧ 8 ≤ newVal.length then
      (.ok (), Function.update vm idx ⟨newVal.take 8, by simp [h.2]⟩)
    else (.error [], vm)
  findRegId name vm := (wideRegs.find name).elim (.error [], vm) fun id => (.ok id, vm)
  readMem _ _ vm := (.error [], vm)
  writeMem _ _ _ vm := (.error [], vm)
  getSymbols _ _ vm := (.error [], vm)
  getSymbInfos _ vm := (.error [], vm)
  findSymId _ vm := (.error [], vm)
  getCodeText _ vm := (.error [], vm)

/-- The values of the registers. -/
def wideVals (vm : WideRegs) (id : VmReg) : Bytes :=
  if (wideRegs.info id).isSome then (vm id).1 else []

/-- It has no symbols. -/
def noSyms : SymDict := ⟨fun _ => none, fun _ => none⟩

theorem wideRegs_size {id : VmReg} {d : RegDesc} (h : wideRegs.info id = some d) : d.size = 8 := by
  unfold wideRegs at h
  dsimp only at h
  split_ifs at h <;> cases h <;> rfl

theorem wideVals_of_info {id : VmReg} {d : RegDesc} (h : wideRegs.info id = some d) (vm : WideRegs) :
    wideVals vm id = (vm id).1 := by
  rw [wideVals, h]
  rfl

theorem wide_hasRegs (cur : VmReg → Bytes) :
    wide.HasRegs wideRegs (fun vm => wideVals vm = cur) fun id val => val = cur id where
  known {id d vm} infos hcur h := by
    refine ⟨vm, ?_, hcur⟩
    simp only [wide, h]
    rfl
  unknown {id vm} infos hcur h := by
    refine ⟨[], vm, ?_, hcur⟩
    simp only [wide, h]
    rfl
  value {id d vm} old hcur h _ := by
    refine ⟨(vm id).1, vm, ?_, ?_, ?_, hcur⟩
    · simp only [wide, h]
      rfl
    · rw [(vm id).2, wideRegs_size h]
      rfl
    · rw [← hcur, wideVals_of_info h]
  found {name id vm} hcur h := by
    refine ⟨vm, ?_, hcur⟩
    simp only [wide, h]
    rfl
  notFound {name vm} hcur h := by
    refine ⟨[], vm, ?_, hcur⟩
    simp only [wide, h]
    rfl

theorem wide_setReg {id : VmReg} {buf : Bytes} {vm vm' : WideRegs} {r : Except Bytes Unit}
    (hhas : wideRegs.Has id) (hlen : (wideRegs.size id).toNat ≤ buf.length)
    (hset : wide.setReg id buf vm = (r, vm')) :
    r = .ok () ∧ wideVals vm' = Function.update (wideVals vm) id (buf.take 8) := by
  obtain ⟨d, hd⟩ := Option.isSome_iff_exists.mp hhas
  have hlen : 8 ≤ buf.length := by
    rwa [RegTable.size, hd, Option.elim_some, wideRegs_size hd] at hlen
  obtain ⟨rfl, rfl⟩ := Prod.mk.inj ((dif_pos ⟨hhas, hlen⟩).symm.trans hset)
  refine ⟨rfl, ?_⟩
  funext id'
  by_cases hid : id' = id
  · subst hid
    rw [wideVals_of_info hd, Function.update_self, Function.update_self]
  · rw [Function.update_of_ne hid, wideVals, wideVals, Function.update_of_ne hid]

theorem wide_stores : wide.Stores wideRegs wideVals where
  answers := wide_hasRegs
  set {id buf vm vm'} hhas hlen hset := by
    obtain ⟨d, hd⟩ := Option.isSome_iff_exists.mp hhas
    rw [RegTable.size, hd, Option.elim_some, wideRegs_size hd]
    exact (wide_setReg hhas hlen hset).2
  refused hhas hlen hset := absurd (wide_setReg hhas hlen hset).1 (by simp)

/-- A client that is connected to it, the registers 0. -/
def wideClient : World (Debugger WideRegs) :=
  ⟨{ new Serial.blank with state := .vmStopped }, .new (fun _ => ⟨List.replicate 8 0, rfl⟩) 0⟩

theorem wideClient_sound : Sound wideRegs wideClient where
  stopped := rfl
  server := ⟨trivial, fun id infos h => by simp [wideClient, Debugger.new] at h,
    fun name id h => by simp [wideClient, Debugger.new] at h⟩
  cache := (cacheOf_new _).with _ _ _

theorem wide_hasSyms (cur : VmReg → Bytes) :
    wide.HasSyms noSyms fun vm => wideVals vm = cur where
  infos _ h := nomatch h
  found _ h := nomatch h

/-- Each is found under its own name only. -/
theorem wideRegs_owned (id : VmReg) {d : RegDesc} (h : wideRegs.info id = some d) :
    wideRegs.Owned (fun _ => True) d.name ∧ wideRegs.find d.name = some id := by
  have hother (id' : VmReg) (d' : RegDesc) (h' : wideRegs.info id' = some d') :
      wideRegs.find d'.name = some id' := by
    unfold wideRegs at h' ⊢
    dsimp only at h' ⊢
    split_ifs at h' with h1 h2 <;> cases h'
    · rw [h1]
      rfl
    · rw [h2]
      rfl
  have hfind := hother id d h
  refine ⟨⟨fun id' d' _ hd' hname => hname ▸ hother id' d' hd', fun id' d' hf hd' => ?_⟩, hfind⟩
  obtain rfl := Option.some.inj (hf.symm.trans hfind)
  rw [Option.some.inj (hd'.symm.trans h)]

/-- Both registers, by id and by name, each set twice. -/
def fourArgs : List (Bytes × Bytes) :=
  [(lit "%1", lit "5"), (lit "%r2", lit "7"), (lit "%r1", lit "1"), (lit "%2", lit "16")]

/-- What they get. -/
def fourRows : List (VmReg × Int) := [(1, 5), (2, 7), (1, 1), (2, 16)]

theorem fourArgs_rows :
    SregArgs integral wideRegs noSyms .u64 (lit "u64") fourArgs fourRows where
  parse := rfl
  int := rfl
  count := by decide
  pairs := by
    have h5 : Denotes integral noSyms (lit "5") 5 :=
      ⟨_, rValue_small (.dec ⟨nofun, by decide +kernel⟩ (by decide)) (by decide), rfl⟩
    have h7 : Denotes integral noSyms (lit "7") 7 :=
      ⟨_, rValue_small (.dec ⟨nofun, by decide +kernel⟩ (by decide)) (by decide), rfl⟩
    have h1 : Denotes integral noSyms (lit "1") 1 := ⟨_, rValue_small literal_one (by decide), rfl⟩
    have h16 : Denotes integral noSyms (lit "16") 16 :=
      ⟨_, rValue_small literal_sixteen (by decide), rfl⟩
    have hr2 : Designates wideRegs (lit "%r2") 2 :=
      ⟨.regName ⟨lit "r2", by decide⟩, rfl, wideRegs_owned 2 rfl⟩
    have hr1 : Designates wideRegs (lit "%r1") 1 :=
      ⟨.regName ⟨lit "r1", by decide⟩, rfl, wideRegs_owned 1 rfl⟩
    exact .cons ⟨⟨.regId 1, rfl, rfl⟩, h5⟩ (.cons ⟨hr2, h7⟩ (.cons ⟨hr1, h1⟩
      (.cons ⟨⟨.regId 2, rfl, rfl⟩, h16⟩ .nil)))
  regs row hrow := by
    have hid : row.1 = 1 ∨ row.1 = 2 := by
      revert row
      decide
    rcases hid with h | h <;> rw [h] <;> exact ⟨rfl, rfl⟩

/-- The last number of each register is stored. -/
theorem assignsEach_iff_four : AssignsEach integral wide wideRegs wideVals .u64 fourRows
    (lit "sreg" :: lit "u64" :: pairWords fourArgs) wideClient := by
  have hsmall : ∀ row ∈ fourRows, row.2.natAbs < 2 ^ 53 ∧ TypeDesc.u64.InRange row.2 := by decide
  have hstorable : ∀ row ∈ fourRows, Storable integral .u64 row.2 := by
    intro row hrow
    exact ⟨row.2, congrArg some (truncated_of_exact (exact_of_le (hsmall row hrow).1)),
      (hsmall row hrow).2⟩
  refine (assignsEach_iff wide_stores wide_hasSyms wideClient_sound (fun _ _ h => by
      simp [wideClient, Debugger.new] at h) fourArgs_rows integral_lawful integral_keepsLarge
    ?_).mpr ⟨hstorable, ?_⟩
  · intro msg
    have hrun : ((cmdSreg integral (VMSide.impl wide)
        (lit "sreg" :: lit "u64" :: pairWords fourArgs)).on wideClient).1 = .ok [] := by
      decide +kernel
    rw [hrun]
    simp
  · intro id n h
    exact exact_of_le (hsmall _ (lastOf_mem h)).1

/-- `2 ^ 53 + 1` is not stored: the command succeeds, and the register has another number. -/
theorem sreg_rounds :
    wide.Stores wideRegs wideVals ∧ Sound wideRegs wideClient ∧
    SregArgs integral wideRegs noSyms .u64 (lit "u64") [(lit "%1", lit "9007199254740993")]
      [(1, 9007199254740993)] ∧
    ((cmdSreg integral (VMSide.impl wide) (lit "sreg" :: lit "u64" ::
      pairWords [(lit "%1", lit "9007199254740993")])).on wideClient).1 = .ok [] ∧
    ¬ AssignsEach integral wide wideRegs wideVals .u64 [(1, 9007199254740993)]
      (lit "sreg" :: lit "u64" :: pairWords [(lit "%1", lit "9007199254740993")]) wideClient := by
  have hargs : SregArgs integral wideRegs noSyms .u64 (lit "u64")
      [(lit "%1", lit "9007199254740993")] [(1, 9007199254740993)] :=
    { parse := rfl
      int := rfl
      count := by decide
      pairs := .cons ⟨⟨.regId 1, rfl, rfl⟩, _, rValue_small literal_large (by decide),
        rfl⟩ .nil
      regs := List.forall_mem_singleton.mpr ⟨rfl, rfl⟩ }
  refine ⟨wide_stores, wideClient_sound, hargs, by decide +kernel, fun h => ?_⟩
  have hexact := h.exact wide_stores wide_hasSyms wideClient_sound (fun _ _ h => by
    simp [wideClient, Debugger.new] at h) hargs integral_lawful integral_keepsLarge
    (List.cons_ne_nil _ _)
  exact not_exact (hexact.2 1 _ rfl)

end SimpleCLIClient

end Odb
