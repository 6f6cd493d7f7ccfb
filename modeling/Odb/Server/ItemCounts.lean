import Odb.Server.SafeCalls
import Odb.Server.TypedMemory

/-!
# How many items `pmem` reads (`mess/simple-cli-client.cc`)

`pmem` allocates a buffer for as many bytes as the product of the number of items and their size,
which is one of `std::size_t`, and prints as many items as it was asked for.

* `pmemRead_cases`: up to the loop that prints, the command returns or throws a `VMApi::Error`, and the
  buffer has the size that it was allocated with.
* `readsItems_iff`: for which numbers of items it reads and prints them all.
-/

namespace Odb

namespace SimpleCLIClient

open Prog DBClient

variable (F : Floats) {σ : Type} (impl : DBClientImpl σ)

/-- What `pmem` does between the allocation of its buffer and the loop that prints: the buffer. -/
def pmemRead (addrArg : Bytes) (buffSize : VmSize) (buff : Bytes) : ClientM σ Bytes := do
  let val ← Prog.lift (rValue F addrArg)
  let vals ← resolveVals impl [val]
  let addr ← Prog.lift (address F (lit "pmem") addrArg vals.head?)
  let bufs ← readMem impl [addr] [buffSize] [buff]
  return bufs.headD []

/-- A round of the loop that prints. -/
def printItem (ty : TypeDesc) (buff : Bytes) (i : Nat) : Except Fault Bytes := do
  return (← printVal F (buff.drop (i * ty.size)) ty) ++ lit " "

/-- The loop that prints `n` items of the buffer. -/
def printItems (ty : TypeDesc) (n : Nat) (buff : Bytes) : Except Fault Bytes :=
  concat <$> (List.range n).mapM (printItem F ty buff)

/-- `pmem` throws a `VMApi::Error`, or it reads `n` items into a buffer of the size of `n` items and
prints each from its place there. -/
def ReadsItems (name tyName addrArg cntArg : Bytes) (ty : TypeDesc) (n : Nat) (w : World σ) : Prop :=
  Outcome
    (fun out _ => ∃ buff w', (pmemRead F impl addrArg (n * ty.size).toUInt64
      (List.replicate (n * ty.size) 0)).on w = (.ok buff, w') ∧ buff.length = n * ty.size ∧
      printItems F ty n buff = .ok out)
    (fun e _ => Caught e) ((cmdPmem F impl [name, tyName, addrArg, cntArg]).on w)

/-- The address is none, or the VM throws when it is asked for `size` bytes there. -/
def Refuses (addrArg : Bytes) (size : Nat) (w : World σ) : Prop :=
  ∃ e w', (pmemRead F impl addrArg size.toUInt64 (List.replicate size 0)).on w = (.error e, w')

variable {F impl} {ty : TypeDesc} {n : Nat} {buff : Bytes}

/-! ## The loop that prints -/

theorem printItem_cases (F : Floats) (ty : TypeDesc) (buff : Bytes) (i : Nat) :
    ((i + 1) * ty.size ≤ buff.length ∧ ∃ out, printItem F ty buff i = .ok out) ∨
      (buff.length < (i + 1) * ty.size ∧ printItem F ty buff i = .error .undefined) := by
  have hpos := ty.size_pos
  have hlen : ty.size ≤ (buff.drop (i * ty.size)).length ↔ (i + 1) * ty.size ≤ buff.length := by
    rw [List.length_drop, Nat.succ_mul]
    omega
  unfold printItem printVal
  by_cases h : ty.size ≤ (buff.drop (i * ty.size)).length
  · refine .inl ⟨hlen.mp h, ?_⟩
    rw [if_pos h]
    cases ty <;> exact ⟨_, rfl⟩
  · refine .inr ⟨Nat.lt_of_not_le fun hle => h (hlen.mpr hle), ?_⟩
    rw [if_neg h]
    rfl

/-- The loop stays in the buffer, or it is undefined. -/
theorem printItems_cases (F : Floats) (ty : TypeDesc) (n : Nat) (buff : Bytes) :
    (n * ty.size ≤ buff.length ∧ ∃ out, printItems F ty n buff = .ok out) ∨
      (buff.length < n * ty.size ∧ printItems F ty n buff = .error .undefined) := by
  unfold printItems
  rcases hrun : (List.range n).mapM (printItem F ty buff) with e | outs
  · obtain ⟨i, hi, he⟩ := mapM_eq_error hrun
    rcases printItem_cases F ty buff i with ⟨-, out, hout⟩ | ⟨hlt, hund⟩
    · exact absurd (hout.symm.trans he) nofun
    · obtain rfl := Except.error.inj (hund.symm.trans he)
      refine .inr ⟨hlt.trans_le (Nat.mul_le_mul_right _ (List.mem_range.mp hi)), rfl⟩
  · refine .inl ⟨?_, _, rfl⟩
    obtain _ | n := n
    · rw [Nat.zero_mul]
      exact Nat.zero_le _
    · obtain ⟨out, hout⟩ := mapM_isOk.mp ⟨outs, hrun⟩ n (by simp)
      rcases printItem_cases F ty buff n with ⟨hle, -⟩ | ⟨-, hund⟩
      · exact hle
      · exact absurd (hund.symm.trans hout) nofun

/-! ## The arguments -/

/-- The calls leave the client usable, or throw a `VMApi::Error`. -/
def Calls {α : Type} (c : ClientM σ α) (R : α → Prop) : Prop :=
  Spec (fun w => w.client.state = .vmStopped) c (fun a w => w.client.state = .vmStopped ∧ R a)
    fun e _ => Caught e

theorem Calls.bind {α β : Type} {c : ClientM σ α} {f : α → ClientM σ β} {R : α → Prop}
    {S : β → Prop} (hc : Calls c R) (hf : ∀ a, R a → Calls (f a) S) : Calls (c >>= f) S :=
  Spec.bind hc fun a w hw => hf a hw.2 w hw.1

theorem Calls.lift {α : Type} {r : Except Fault α} {R : α → Prop} (hok : ∀ a, r = .ok a → R a)
    (herr : ∀ e, r = .error e → Caught e) : Calls (Prog.lift r : ClientM σ α) R := by
  intro w hw
  rcases r with e | a
  · exact herr e rfl
  · exact ⟨hw, hok a rfl⟩

theorem parseDouble_error {s : Bytes} {e : Fault} (h : parseDouble F s = .error e) : Caught e := by
  unfold parseDouble at h
  split at h
  · split at h <;> cases h
    trivial
  · cases h
    trivial

theorem rValue_error {s : Bytes} {e : Fault} (h : rValue F s = .error e) : Caught e := by
  unfold rValue at h
  split at h
  · split at h
    · rcases hid : parseInt s.tail false with e' | n <;> rw [hid] at h <;> cases h
      obtain ⟨msg, rfl⟩ := parseInt_error hid
      trivial
    · cases h
  · rcases hint : parseInt s true with e' | n <;> rw [hint] at h
    · rcases hd : parseDouble F s with e'' | d <;> rw [hd] at h <;> cases h
      exact parseDouble_error hd
    · cases h

theorem address_error {name s : Bytes} {v : Option (ValueVariant F.Double)} {e : Fault}
    (h : address F name s v = .error e) : Caught e := by
  unfold address at h
  split at h
  · split at h <;> cases h
    trivial
  · cases h
    trivial

/-- Every symbol that is asked for has its address filled in. -/
theorem fillAddrs_isOk {K : Type} (pick : ValueVariant F.Double → Option K)
    {vv : List (ValueVariant F.Double)} {syms : List SymbolInfos}
    (h : syms.length = (vv.filterMap pick).length) :
    ∃ vv', fillAddrs pick vv syms = .ok vv' := by
  induction vv generalizing syms with
  | nil => exact ⟨[], rfl⟩
  | cons v vv ih =>
    unfold fillAddrs
    rcases hv : pick v with _ | k
    · rw [List.filterMap_cons_none hv] at h
      obtain ⟨vv', hvv⟩ := ih h
      exact ⟨v :: vv', by simp only [hvv]; rfl⟩
    · rw [List.filterMap_cons_some hv] at h
      obtain _ | ⟨sym, syms⟩ := syms
      · cases h
      · obtain ⟨vv', hvv⟩ := ih (Nat.succ.inj h)
        exact ⟨.ival sym.addr.toInt64.toInt :: vv', by simp only [hvv]; rfl⟩

/-- A half of `resolve_vals` asks for symbols, and gets as many as it asked for. -/
theorem resolveSyms_calls {K : Type} {pick : ValueVariant F.Double → Option K}
    {getSymbols : List K → List SymbolInfos → ClientM σ (List SymbolInfos)}
    (hget : ∀ keys outs, outs.length = keys.length →
      Calls (getSymbols keys outs) fun syms => syms.length = keys.length)
    (vv : List (ValueVariant F.Double)) :
    Calls (resolveSyms pick getSymbols vv) fun _ => True := by
  unfold resolveSyms
  dsimp only
  split
  · exact .lift (r := .ok vv) (fun _ _ => trivial) nofun
  · refine (hget _ _ (List.length_replicate ..)).bind fun syms hlen => ?_
    obtain ⟨vv', hvv⟩ := fillAddrs_isOk pick hlen
    exact .lift (fun _ _ => trivial) fun e he => absurd (hvv.symm.trans he) nofun

/-! ## In the process of the debugger -/

variable {V : Type} {api : VMApi V} {w : World (Debugger V)}

theorem forward_calls {α : Type} {k : ImplCall α} {R : α → Prop}
    (hsafe : ∀ db, Safe Caught (VMSide.impl api k) db)
    (hR : ∀ db a db', (VMSide.impl api k).on db = (.ok a, db') → R a) :
    Calls (forward (VMSide.impl api) k) R := by
  intro w hw
  have hdb := hsafe w.impl
  rcases hrun : (VMSide.impl api k).on w.impl with ⟨e | a, db⟩ <;> rw [forward_on hw hrun]
  · exact (Safe.iff_of_error hrun).mp hdb
  · exact ⟨hw, hR _ a db hrun⟩

theorem getSymbolsByIds_calls (ids : List VmSym) (outs : List SymbolInfos)
    (h : outs.length = ids.length) :
    Calls (getSymbolsByIds (VMSide.impl api) ids outs) fun syms => syms.length = ids.length := by
  refine forward_calls (Debugger.getSymbolsByIds_safe h) fun db syms db' hrun => ?_
  have hrun : (VMSide.getSymbolsByIds api ids outs).on db = (.ok syms, db') := hrun
  unfold VMSide.getSymbolsByIds at hrun
  rw [VMSide.fill_eq h] at hrun
  exact VMSide.mapM_length (congrArg Prod.fst hrun)

theorem getSymbolsByNames_calls (names : List CStr) (outs : List SymbolInfos)
    (h : outs.length = names.length) :
    Calls (getSymbolsByNames (VMSide.impl api) names outs) fun syms =>
      syms.length = names.length := by
  refine forward_calls (fun db => (Debugger.fill_safe_iff h).mpr (.of_forall (fun name _ db =>
    .bind (Debugger.findSymId_safe name.1 db) fun id db' _ =>
      Debugger.getSymbolInfos_safe id db') db)) fun db syms db' hrun => ?_
  have hrun : (VMSide.getSymbolsByNames api names outs).on db = (.ok syms, db') := hrun
  unfold VMSide.getSymbolsByNames at hrun
  rw [VMSide.fill_eq h] at hrun
  exact VMSide.mapM_length (congrArg Prod.fst hrun)

/-- A block is read into a buffer that keeps its length. -/
theorem readMem_calls (addr : VmPtr) {size : VmSize} {buff : Bytes} (h : size.toNat ≤ buff.length) :
    Calls (readMem (VMSide.impl api) [addr] [size] [buff]) fun bufs =>
      (bufs.headD []).length = buff.length := by
  refine forward_calls (Debugger.readMem_safe ⟨Nat.le_refl _, rfl, by simpa using h⟩)
    fun db bufs db' hrun => ?_
  have hlens := @Debugger.readMem_lengths _ api db [addr] [size] [buff] bufs db' rfl hrun
  obtain ⟨block, rfl⟩ : ∃ block, bufs = [block] := by
    rw [← List.length_eq_one_iff, ← List.length_map (f := List.length), hlens]
    rfl
  exact (List.cons.inj hlens).1

/-- Up to the loop that prints, `pmem` returns or throws a `VMApi::Error`, and its buffer keeps its
length. -/
theorem pmemRead_calls (F : Floats) (addrArg : Bytes) {size : VmSize} {buff : Bytes}
    (h : size.toNat ≤ buff.length) :
    Calls (pmemRead F (VMSide.impl api) addrArg size buff) fun buff' =>
      buff'.length = buff.length := by
  refine .bind (.lift (fun _ _ => trivial) fun e => rValue_error) fun val _ => ?_
  refine .bind (R := fun _ => True) ?_ fun vals _ => ?_
  · exact .bind (resolveSyms_calls getSymbolsByIds_calls _) fun vv _ =>
      resolveSyms_calls getSymbolsByNames_calls vv
  · refine .bind (.lift (fun _ _ => trivial) fun e => address_error) fun addr _ => ?_
    exact (readMem_calls addr h).bind fun bufs hlen => .lift (r := .ok _)
      (fun _ hb => Except.ok.inj hb ▸ hlen) nofun

/-! ## Which numbers of items -/

/-- `pmem` with a type and a number of items that it accepts. -/
theorem cmdPmem_eq {name tyName addrArg cntArg : Bytes} {k : Int}
    (hname : TypeDesc.parse tyName = .ok ty) (hcnt : parseInt cntArg false = .ok k) :
    cmdPmem F impl [name, tyName, addrArg, cntArg] = (do
      let buff ← Prog.lift (resize maxBytes [] (UInt64.ofInt k * ty.size.toUInt64).toNat 0)
      let buff ← pmemRead F impl addrArg (UInt64.ofInt k * ty.size.toUInt64) buff
      Prog.lift (printItems F ty (UInt64.ofInt k).toNat buff)) := by
  unfold cmdPmem
  rw [if_neg (by simp)]
  show (Prog.lift (TypeDesc.parse tyName) >>= _ : ClientM _ Bytes) = _
  rw [hname, lift_ok, pure_bind]
  show (Prog.lift (parseInt cntArg false) >>= _ : ClientM _ Bytes) = _
  rw [hcnt, lift_ok, pure_bind]
  unfold pmemRead
  simp only [bind_assoc, pure_bind]
  rfl

theorem resize_nil (m : Nat) :
    resize maxBytes ([] : Bytes) m 0 =
      if m ≤ maxBytes then .ok (List.replicate m 0) else .error .stdException := by
  rw [resize, List.take_nil, List.nil_append, List.length_nil, Nat.sub_zero]

/-- The size of the buffer is the product without what does not fit in 64 bits. -/
theorem product_eq (k : Int) (ty : TypeDesc) :
    UInt64.ofInt k * ty.size.toUInt64 = ((UInt64.ofInt k).toNat * ty.size).toUInt64 := by
  have hs : ty.size < 2 ^ 64 := lt_of_le_of_lt ty.size_le (by decide)
  rw [← UInt64.toNat_inj, UInt64.toNat_mul, toNat_toUInt64 hs]
  exact (UInt64.toNat_ofNat' ..).symm

section Items

variable {name tyName addrArg cntArg : Bytes} {k : Int} {n : Nat}

/-- `pmem` with a buffer that can be allocated. -/
theorem cmdPmem_read (hname : TypeDesc.parse tyName = .ok ty) (hcnt : parseInt cntArg false = .ok k)
    (hn : (UInt64.ofInt k).toNat = n) {m : Nat} (hm : n * ty.size % 2 ^ 64 = m)
    (hle : m ≤ maxBytes) :
    cmdPmem F impl [name, tyName, addrArg, cntArg] = (do
      let buff ← pmemRead F impl addrArg m.toUInt64 (List.replicate m 0)
      Prog.lift (printItems F ty n buff)) := by
  have hnat : (n * ty.size).toUInt64.toNat = m :=
    (UInt64.toNat_ofNat' ..).trans hm
  have hsize : (n * ty.size).toUInt64 = m.toUInt64 := by
    rw [← UInt64.toNat_inj, hnat, toNat_toUInt64 (lt_of_le_of_lt hle (by decide))]
  rw [cmdPmem_eq hname hcnt, product_eq, hn, hnat, hsize, resize_nil, if_pos hle, lift_ok, pure_bind]

/-- The read fails with a `VMApi::Error` or leaves a buffer of the size that it was given. -/
theorem pmemRead_cases (F : Floats) (addrArg : Bytes) (hstopped : w.client.state = .vmStopped)
    {m : Nat} (hm : m ≤ maxBytes) :
    (∃ e w', (pmemRead F (VMSide.impl api) addrArg m.toUInt64 (List.replicate m 0)).on w =
      (.error e, w') ∧ Caught e) ∨
    ∃ buff w', (pmemRead F (VMSide.impl api) addrArg m.toUInt64 (List.replicate m 0)).on w =
      (.ok buff, w') ∧ buff.length = m := by
  have hfit : m.toUInt64.toNat ≤ (List.replicate m (0 : UInt8)).length := by
    rw [toNat_toUInt64 (lt_of_le_of_lt hm (by decide)), List.length_replicate]
  have hread := @pmemRead_calls V api F addrArg _ _ hfit w hstopped
  rcases hrun : (pmemRead F (VMSide.impl api) addrArg m.toUInt64 (List.replicate m 0)).on w
    with ⟨e | buff, w'⟩ <;> rw [hrun] at hread
  · exact .inl ⟨e, w', rfl, hread⟩
  · exact .inr ⟨buff, w', rfl, hread.2.trans (List.length_replicate ..)⟩

/-- Where the product of the number of items and their size does not wrap around and can be allocated,
all is well. -/
theorem readsItems_of_le (hstopped : w.client.state = .vmStopped)
    (hname : TypeDesc.parse tyName = .ok ty) (hcnt : parseInt cntArg false = .ok k)
    (hn : (UInt64.ofInt k).toNat = n) (hle : n * ty.size ≤ maxBytes) :
    ReadsItems F (VMSide.impl api) name tyName addrArg cntArg ty n w := by
  have hmax : maxBytes < 2 ^ 64 := by decide
  set m := n * ty.size with hm
  unfold ReadsItems
  rw [cmdPmem_read hname hcnt hn (Nat.mod_eq_of_lt (by omega)) hle, ← hm]
  obtain ⟨e, w', hrun, hcaught⟩ | ⟨buff, w', hrun, hlen⟩ :=
    @pmemRead_cases V api w F addrArg hstopped m hle
  · rw [on_bind_error hrun]
    exact hcaught
  · rw [on_bind_ok hrun, on_lift]
    rcases printItems_cases F ty n buff with ⟨-, out, hout⟩ | ⟨hlt, -⟩
    · rw [hout]
      exact ⟨buff, w', hrun, hlen, hout⟩
    · omega

/-- Where the product wraps around, `pmem` is saved only by what it does before it prints. -/
theorem readsItems_wrapped (hstopped : w.client.state = .vmStopped)
    (hname : TypeDesc.parse tyName = .ok ty) (hcnt : parseInt cntArg false = .ok k)
    (hn : (UInt64.ofInt k).toNat = n) (hlt : maxBytes < n * ty.size) :
    ReadsItems F (VMSide.impl api) name tyName addrArg cntArg ty n w ↔
      n * ty.size % 2 ^ 64 ≤ maxBytes ∧
        Refuses F (VMSide.impl api) addrArg (n * ty.size % 2 ^ 64) w := by
  set m := n * ty.size % 2 ^ 64 with hm
  by_cases hle : m ≤ maxBytes
  · refine Iff.trans ?_ (and_iff_right hle).symm
    have hless : m < n * ty.size := lt_of_le_of_lt hle hlt
    unfold ReadsItems Refuses
    rw [cmdPmem_read hname hcnt hn hm.symm hle]
    obtain ⟨e, w', hrun, hcaught⟩ | ⟨buff, w', hrun, hlen⟩ :=
      @pmemRead_cases V api w F addrArg hstopped m hle
    · rw [on_bind_error hrun]
      exact iff_of_true hcaught ⟨e, w', hrun⟩
    · rw [on_bind_ok hrun, on_lift]
      refine iff_of_false ?_ fun ⟨e, w'', he⟩ => by cases hrun.symm.trans he
      rcases printItems_cases F ty n buff with ⟨hge, -⟩ | ⟨-, hund⟩
      · omega
      · rw [hund]
        exact id
  · refine iff_of_false ?_ (fun h => hle h.1)
    have hnat : (n * ty.size).toUInt64.toNat = m := UInt64.toNat_ofNat' ..
    unfold ReadsItems
    rw [cmdPmem_eq hname hcnt, product_eq, hn, hnat, resize_nil, if_neg hle]
    exact id

/-- Where the VM does not refuse the bytes that are left of the product, `pmem` prints beyond them. -/
theorem not_readsItems (hstopped : w.client.state = .vmStopped)
    (hname : TypeDesc.parse tyName = .ok ty) (hcnt : parseInt cntArg false = .ok k)
    (hn : (UInt64.ofInt k).toNat = n) (hlt : maxBytes < n * ty.size) {m : Nat}
    (hm : n * ty.size % 2 ^ 64 = m)
    (hread : ∃ buff w', (pmemRead F (VMSide.impl api) addrArg m.toUInt64
      (List.replicate m 0)).on w = (.ok buff, w')) :
    ¬ ReadsItems F (VMSide.impl api) name tyName addrArg cntArg ty n w := by
  intro h
  rw [readsItems_wrapped hstopped hname hcnt hn hlt, hm] at h
  obtain ⟨buff, w', hok⟩ := hread
  obtain ⟨-, e, w'', he⟩ := h
  cases hok.symm.trans he

/-- `pmem` reads and prints as many items as it was asked for, or throws a `VMApi::Error`, if and only if
so many items can be allocated, or their size wraps around to one that can, but the address is none or
the VM refuses to read so many bytes there. -/
theorem readsItems_iff (hstopped : w.client.state = .vmStopped)
    (hname : TypeDesc.parse tyName = .ok ty) (hcnt : parseInt cntArg false = .ok k)
    (hn : (UInt64.ofInt k).toNat = n) :
    ReadsItems F (VMSide.impl api) name tyName addrArg cntArg ty n w ↔
      n * ty.size ≤ maxBytes ∨ (n * ty.size % 2 ^ 64 ≤ maxBytes ∧
        Refuses F (VMSide.impl api) addrArg (n * ty.size % 2 ^ 64) w) := by
  by_cases hle : n * ty.size ≤ maxBytes
  · exact iff_of_true (readsItems_of_le hstopped hname hcnt hn hle) (.inl hle)
  · rw [readsItems_wrapped hstopped hname hcnt hn (Nat.lt_of_not_le hle)]
    exact (or_iff_right hle).symm

end Items

/-- Three bytes. -/
theorem readsItems_iff_three :
    ReadsItems integral (VMSide.impl memory) (lit "pmem") (lit "u8") (lit "16") (lit "3") .u8 3
      memoryClient ↔
    3 * TypeDesc.u8.size ≤ maxBytes ∨ (3 * TypeDesc.u8.size % 2 ^ 64 ≤ maxBytes ∧
      Refuses integral (VMSide.impl memory) (lit "16") (3 * TypeDesc.u8.size % 2 ^ 64)
        memoryClient) :=
  @readsItems_iff integral .u8 _ memory memoryClient (lit "pmem") (lit "u8") (lit "16") (lit "3") 3 3
    rfl rfl (parseInt_literal (.plain (by decide))
      (.dec ⟨nofun, by decide +kernel⟩ (by decide)) (by decide)) rfl

theorem parseInt_large : parseInt (lit "0x2000000000000000") false = .ok (2 ^ 61) := by
  have hval : Stoll.value 16 (lit "2000000000000000") = 2 ^ 61 := rfl
  have hlit : Literal (lit "0x2000000000000000") (Stoll.value 16 (lit "2000000000000000")) :=
    .hex ⟨nofun, by decide +kernel⟩
  rw [hval] at hlit
  exact parseInt_literal (.plain (by decide)) hlit (by decide)

theorem ofInt_large : (UInt64.ofInt (2 ^ 61)).toNat = 2 ^ 61 :=
  (congrArg UInt64.toNat (ofInt_natCast (2 ^ 61))).trans (toNat_toUInt64 (by decide))

/-- No byte is read from a valid address. -/
theorem pmemRead_none : ∃ buff w', (pmemRead integral (VMSide.impl memory) (lit "16") (0).toUInt64
    (List.replicate 0 0)).on memoryClient = (.ok buff, w') := by
  obtain ⟨w₁, hok⟩ := @readMem_on _ memory memoryClient 100 id memory_storage rfl 16 0 [] rfl
    (by decide)
  refine ⟨[], w₁, ?_⟩
  unfold pmemRead
  rw [rValue_small literal_sixteen (by decide), lift_ok, pure_bind,
    on_bind_ok (resolveVals_plain (by simp)), List.head?_cons, address_natCast, lift_ok, pure_bind]
  exact on_bind_ok hok _

/-- `2 ^ 61` values of 8 bytes: the buffer has none. -/
theorem pmem_wraps :
    TypeDesc.parse (lit "u64") = .ok .u64 ∧
    parseInt (lit "0x2000000000000000") false = .ok (2 ^ 61) ∧
    (UInt64.ofInt (2 ^ 61)).toNat = 2 ^ 61 ∧
    ¬ ReadsItems integral (VMSide.impl memory) (lit "pmem") (lit "u64") (lit "16")
      (lit "0x2000000000000000") .u64 (2 ^ 61) memoryClient :=
  ⟨rfl, parseInt_large, ofInt_large, not_readsItems rfl rfl parseInt_large ofInt_large
    (by simp [TypeDesc.size, maxBytes]) (by simp [TypeDesc.size]) pmemRead_none⟩

end SimpleCLIClient

end Odb
