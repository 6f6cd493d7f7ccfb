import Mathlib.Data.Fintype.Card
import Odb.Client.Refinement
import Odb.Server.Serve
import Odb.Server.SymbolLoad

/-!
# The calls of the debugger that are safe

A call is safe on a debugger if it returns or throws a `VMApi::Error`. Most calls are, whatever the
VM does.

* `LoadFits`, `ValueFits`, `NameFits`, `WindowFits`: where those that depend on the VM and on their
  arguments are.
* `getReg_safe_iff`, `findRegId_safe_iff`, `getSymbolsByAddr_safe_iff`: exactly there.
* `readFixed_safe_iff`, `writeFixed_safe_iff`: of blocks of one size, only two have a size.
-/

namespace Odb

open Prog Serial

namespace Debugger

variable {V : Type} (api : VMApi V)

/-! ## What the debugger can be asked for -/

/-- The register is loaded, or the VM describes none that is larger than any string. -/
def LoadFits (id : VmReg) (db : Debugger V) : Prop :=
  id ∈ db.mapRegs ∨ ∀ infos vm', api.getReg id ⟨0, [], 0, .general, []⟩ false db.vm =
    (.ok infos, vm') → infos.size.toNat ≤ maxBytes

/-- The value that the VM gives for the register is as long as it says, and fits in `room` bytes. -/
def ValueFits (id : VmReg) (room : Nat) (db : Debugger V) : Prop :=
  LoadFits api id db ∧ ∀ infos db', (getRegInfos api id).on db = (.ok infos, db') →
    ∀ infos' vm', api.getReg id infos true db'.vm = (.ok infos', vm') →
      infos'.size.toNat ≤ infos'.val.length ∧ infos'.size.toNat ≤ room

/-- The register that the VM gives for the name can be loaded. -/
def NameFits (name : Bytes) (db : Debugger V) : Prop :=
  name ∈ db.smapRegs ∨ ∀ id vm', api.findRegId name db.vm = (.ok id, vm') →
    LoadFits api id { db with vm := vm' }

/-- The symbols at `addr` are recorded as loaded. -/
def IsLoaded (db : Debugger V) (addr : VmPtr) : Prop :=
  ∃ m, db.symsRanges = some m ∧ m.get addr = .ok 1

/-- The query begins in memory, and its window does not wrap around; where it does, nothing of it
is left to load, or the VM refuses the request. -/
def WindowFits (addr : VmPtr) (size : VmSize) (db : Debugger V) : Prop :=
  addr ≤ db.infos.memorySize - 1 ∧
    (addr.toNat + max size.toNat 256 ≤ UInt64.size ∨ db.IsLoaded addr ∨
      db.IsLoaded (windowLast db.infos.memorySize addr size) ∨
      ∃ msg vm', api.getSymbols addr (windowLast db.infos.memorySize addr size - addr + 1) db.vm =
        (.error msg, vm'))

variable {api} {α : Type} {db : Debugger V}

/-! ## Registers -/

theorem callVM_safe (f : V → Except Bytes α × V) (db : Debugger V) : Safe Caught (callVM f) db := by
  unfold Safe callVM
  rw [on_of]
  rcases f db.vm with ⟨_ | a, vm'⟩ <;> trivial

theorem resize_safe {maxSize n : Nat} (xs : List α) (x : α) :
    Safe Caught (Prog.lift (resize maxSize xs n x) : DbM V (List α)) db ↔ n ≤ maxSize := by
  unfold resize
  by_cases h : n ≤ maxSize
  · rw [if_pos h]
    exact iff_of_true trivial h
  · rw [if_neg h]
    exact iff_of_false (fun h => h) h

theorem loadReg_safe_iff (id : VmReg) : Safe Caught (loadReg api id) db ↔ LoadFits api id db := by
  unfold loadReg LoadFits
  rw [Safe.then_ok (on_get db)]
  by_cases hid : id ∈ db.mapRegs
  · rw [if_pos hid]
    exact iff_of_true trivial (.inl hid)
  · rw [if_neg hid, Safe.bind_iff, or_iff_right hid]
    refine (and_iff_right (callVM_safe _ db)).trans ?_
    refine ⟨fun h infos vm' hcall => ?_, fun h infos db' hcall => ?_⟩
    · have := h infos _ (callVM_eq_ok.mpr ⟨vm', hcall, rfl⟩)
      exact (resize_safe _ _).mp ((Safe.then_iff fun _ _ => .modify _).mp this)
    · obtain ⟨vm', hcall, -⟩ := callVM_eq_ok.mp hcall
      exact (Safe.then_iff fun _ _ => .modify _).mpr ((resize_safe _ _).mpr (h infos vm' hcall))

/-- What `_load_reg` loaded is found. -/
theorem loadReg_found {id : VmReg} {u : Unit} {db' : Debugger V}
    (h : (loadReg api id).on db = (.ok u, db')) : ∃ infos, db'.mapRegs[id]? = some infos := by
  unfold loadReg at h
  rw [on_bind_ok (on_get db)] at h
  by_cases hid : id ∈ db.mapRegs
  · rw [if_pos hid] at h
    cases h
    exact Option.isSome_iff_exists.mp (Std.TreeMap.mem_iff_isSome_getElem?.mp hid)
  · rw [if_neg hid] at h
    obtain ⟨infos, db₁, -, h⟩ := bind_eq_ok.mp h
    obtain ⟨val, db₂, -, h⟩ := bind_eq_ok.mp h
    cases h
    refine Option.isSome_iff_exists.mp (Std.TreeMap.mem_iff_isSome_getElem?.mp ?_)
    simp

theorem getRegInfos_safe_iff (id : VmReg) :
    Safe Caught (getRegInfos api id) db ↔ LoadFits api id db := by
  unfold getRegInfos
  rw [Safe.bind_iff, loadReg_safe_iff]
  refine and_iff_left fun u db' h => ?_
  obtain ⟨infos, hfound⟩ := loadReg_found h
  unfold findReg
  rw [Safe.then_ok (on_get db'), hfound]
  trivial

theorem findRegId_safe_iff (name : Bytes) :
    Safe Caught (findRegId api name) db ↔ NameFits api name db := by
  unfold findRegId NameFits
  rw [Safe.then_ok (on_get db)]
  cases hname : db.smapRegs[name]? with
  | some id =>
    refine iff_of_true trivial (.inl ?_)
    rw [Std.TreeMap.mem_iff_isSome_getElem?, hname]
    rfl
  | none =>
    have hnot : name ∉ db.smapRegs := by
      rw [Std.TreeMap.mem_iff_isSome_getElem?, hname]
      simp
    rw [or_iff_right hnot]
    refine Safe.bind_iff.trans ((and_iff_right (callVM_safe _ db)).trans ?_)
    refine ⟨fun h id vm' hcall => ?_, fun h id db' hcall => ?_⟩
    · have := h id _ (callVM_eq_ok.mpr ⟨vm', hcall, rfl⟩)
      exact (loadReg_safe_iff id).mp ((Safe.then_iff fun _ _ => .ret _).mp this)
    · obtain ⟨vm', hvm, rfl⟩ := callVM_eq_ok.mp hcall
      exact (Safe.then_iff fun _ _ => .ret _).mpr ((loadReg_safe_iff id).mpr (h id vm' hvm))

/-- What `get_reg` does with the infos of the register. -/
theorem getReg_eq (id : VmReg) : getReg api id = getRegInfos api id >>= fun infos =>
    callVM (api.getReg id infos true) >>= fun infos =>
      (modify fun db => { db with mapRegs := db.mapRegs.insert id infos }) >>= fun _ =>
        if infos.size.toNat ≤ infos.val.length then pure (infos.val.take infos.size.toNat)
        else throw .undefined := by
  unfold getReg getRegInfos
  rw [bind_assoc]

/-- A register is read into a buffer exactly if its value fits. -/
theorem getReg_safe_iff (id : VmReg) (buf : Bytes) :
    Safe Caught (getReg api id >>= fun val => Prog.lift (VMSide.overwrite buf val)) db ↔
      ValueFits api id buf.length db := by
  unfold ValueFits
  rw [getReg_eq, bind_assoc, Safe.bind_iff, getRegInfos_safe_iff]
  refine and_congr_right fun _ => forall_congr' fun infos => forall_congr' fun db' =>
    forall_congr' fun _ => ?_
  rw [bind_assoc, Safe.bind_iff, and_iff_right (callVM_safe _ db')]
  -- the value that the VM gives is put into the cache, then copied
  have hcopy (infos : RegInfos) (db : Debugger V) :
      Safe Caught ((modify (fun db : Debugger V =>
          { db with mapRegs := db.mapRegs.insert id infos }) >>= fun _ =>
        if infos.size.toNat ≤ infos.val.length then pure (infos.val.take infos.size.toNat)
        else throw .undefined : DbM V Bytes) >>= fun val => Prog.lift (VMSide.overwrite buf val))
        db ↔ infos.size.toNat ≤ infos.val.length ∧ infos.size.toNat ≤ buf.length := by
    rw [bind_assoc, Safe.then_ok (on_modify _ _)]
    by_cases hval : infos.size.toNat ≤ infos.val.length
    · rw [if_pos hval, pure_bind, and_iff_right hval]
      unfold VMSide.overwrite
      rw [List.length_take_of_le hval]
      by_cases hbuf : infos.size.toNat ≤ buf.length
      · rw [if_pos hbuf]
        exact iff_of_true trivial hbuf
      · rw [if_neg hbuf]
        exact iff_of_false (fun h => h) hbuf
    · rw [if_neg hval]
      exact iff_of_false (fun h => h) fun h => hval h.1
  refine ⟨fun h infos' vm' hcall => ?_, fun h infos' db'' hcall => ?_⟩
  · exact (hcopy infos' _).mp (h infos' _ (callVM_eq_ok.mpr ⟨vm', hcall, rfl⟩))
  · obtain ⟨vm', hvm, rfl⟩ := callVM_eq_ok.mp hcall
    exact (hcopy infos' _).mpr (h infos' vm' hvm)

/-! ## Symbols -/

theorem loadSymbol_safe (id : VmSym) (db : Debugger V) : Safe Caught (loadSymbol api id) db := by
  unfold loadSymbol
  rw [Safe.then_ok (on_get db)]
  split
  · exact .ret _
  · exact .bind (callVM_safe _ db) fun _ _ _ => .modify _

/-- What `_load_symbol` loaded is found. -/
theorem getSymbolInfos_safe (id : VmSym) (db : Debugger V) :
    Safe Caught (getSymbolInfos api id) db := by
  refine .bind (loadSymbol_safe id db) fun u db' h => ?_
  have hmem : id ∈ db'.mapSyms := by
    unfold loadSymbol at h
    rw [on_bind_ok (on_get db)] at h
    by_cases hid : id ∈ db.mapSyms
    · rw [if_pos hid] at h
      cases h
      exact hid
    · rw [if_neg hid] at h
      obtain ⟨infos, db₁, -, h⟩ := bind_eq_ok.mp h
      cases h
      simp
  rw [Safe.then_ok (on_get db')]
  rw [Std.TreeMap.mem_iff_isSome_getElem?] at hmem
  obtain ⟨infos, hfound⟩ := Option.isSome_iff_exists.mp hmem
  rw [hfound]
  trivial

theorem findSymId_safe (name : Bytes) (db : Debugger V) : Safe Caught (findSymId api name) db :=
  .bind (callVM_safe _ db) fun id db' _ => .bind (loadSymbol_safe id db') fun _ _ _ => .ret _

/-- The members of the symbol cache that a query relies on: `_syms_ranges` is a map of the memory,
and every place in `_syms_pos` is that of a loaded symbol. -/
def SymsSized (p : VMInfos × SymCache) : Prop :=
  p.2.Ranged p.1.memorySize ∧ p.2.symsPos.size ≤ p.2.mapSyms.size

theorem keepsSized_loadSymbol (id : VmSym) :
    KeepsSyms SymsSized (fun _ => True) (loadSymbol api id) := by
  rintro db ⟨⟨hr, hsize⟩, -⟩
  unfold loadSymbol
  rw [on_bind_ok (on_get db)]
  by_cases hid : id ∈ db.mapSyms
  · rw [if_pos hid]
    exact ⟨hr, hsize⟩
  · rw [if_neg hid, on_bind]
    rcases hc : (callVM (api.getSymbInfos id)).on db with ⟨e | infos, db'⟩
    · have hk := keeps_callVM (ignoresRegs_cachePart (V := V)).vm (api.getSymbInfos id) db
      rw [hc] at hk
      intro _
      rw [hk]
      exact ⟨hr, hsize⟩
    · obtain ⟨vm', -, rfl⟩ := callVM_eq_ok.mp hc
      refine ⟨hr, ?_⟩
      show (db.symsPos.insertIfNew infos.addr id).size ≤ (db.mapSyms.insertIfNew id infos).size
      have := Std.TreeMap.size_insertIfNew_le (t := db.symsPos) (k := infos.addr) (v := id)
      rw [Std.TreeMap.size_insertIfNew (t := db.mapSyms), if_neg hid]
      have hsize : db.symsPos.size ≤ db.mapSyms.size := hsize
      omega

/-- There are no more symbols than ids. -/
theorem size_mapSyms_le (db : Debugger V) : db.mapSyms.size ≤ 2 ^ 32 := by
  have hdist : db.mapSyms.keys.Nodup :=
    db.mapSyms.distinct_keys.imp fun h e => h (Std.compare_eq_iff_eq.mpr e)
  have hcard := (hdist.map (f := UInt32.toFin) fun _ _ h => UInt32.toFin_inj.mp h).length_le_card
  rwa [List.length_map, Std.TreeMap.length_keys, Fintype.card_fin] at hcard

/-- The part of a window that wraps around: none if one of its ends is loaded, else all of it. -/
theorem trimLoaded_wrap {m : RangeMap Int} (hm : m.WF) (hmin : m.minKey = 0) {addr last : VmPtr}
    (h1 : addr ≤ m.maxKey) (hlt : last < addr) :
    (m.get addr = .ok 1 ∨ m.get last = .ok 1) ∧ trimLoaded m addr last = .ok none ∨
      ¬ (m.get addr = .ok 1 ∨ m.get last = .ok 1) ∧
        trimLoaded m addr last = .ok (some (addr, last)) := by
  have h0 : ∀ k, m.minKey ≤ k := fun k => by rw [hmin]; exact UInt64.zero_le
  have h2 : last ≤ m.maxKey := le_trans (le_of_lt hlt) h1
  obtain ⟨r, hr, hlow, hhigh, hval⟩ := rangeOf_run hm (h0 addr) h1
  obtain ⟨r', hr', hlow', hhigh', hval'⟩ := rangeOf_run hm (h0 last) h2
  have hone : m.get addr = .ok 1 ↔ r.val = 1 := by
    rw [hval addr hlow hhigh, Except.ok.injEq]
  have hone' : m.get last = .ok 1 ↔ r'.val = 1 := by
    rw [hval' last hlow' hhigh', Except.ok.injEq]
  rw [hone, hone']
  unfold trimLoaded
  rw [hr, ok_bind, hr']
  have := Word.succ_cases r.high
  have := Word.pred_cases r'.low
  by_cases hv : r.val = 1
  · refine .inl ⟨.inl hv, ?_⟩
    have : r.high + 1 = 0 ∨ last < r.high + 1 := by grind
    simp only [hv, ok_bind, if_true, true_and, this]
    rfl
  · by_cases hv' : r'.val = 1
    · refine .inl ⟨.inr hv', ?_⟩
      have : r'.low = 0 ∨ r'.low - 1 < addr := by grind
      simp only [hv, hv', ok_bind, if_false, if_true, false_and, true_and, this]
      rfl
    · refine .inr ⟨fun h => h.elim hv hv', ?_⟩
      simp only [hv, hv', ok_bind, if_false, false_and]
      rfl

theorem keepsSized_preload (addr : VmPtr) (size : VmSize) :
    KeepsSyms SymsSized (fun _ => True) (preloadSymbols api addr size) := by
  rintro db ⟨⟨⟨m, hr, hwf, hmin, hmax⟩, hsize⟩, -⟩
  have hsame (vm : V) : SymsSized (cachePart { db with vm := vm }) :=
    ⟨⟨m, hr, hwf, hmin, hmax⟩, hsize⟩
  rw [preload_on hr]
  rcases trimLoaded m addr (windowLast db.infos.memorySize addr size) with e | (_ | ⟨a, l⟩)
  · exact fun _ => hsame db.vm
  · exact hsame db.vm
  · show Outcome _ _ ((loadWindow api m a l).on db)
    unfold loadWindow
    rcases hcall : api.getSymbols a (l - a + 1) db.vm with ⟨msg | ids, vm'⟩
    · simp only [on_bind, callVM, on_of, hcall, Except.mapError]
      exact fun _ => hsame vm'
    · rw [on_bind_ok (callVM_eq_ok.mpr ⟨vm', hcall, rfl⟩)]
      cases hset : m.set a l 1 with
      | error e =>
        rw [on_bind_error (on_lift _ _)]
        exact fun _ => hsame vm'
      | ok m' =>
        obtain ⟨hwf', hmin', hmax'⟩ := RangeMap.set_ok hwf hset
        rw [on_bind_ok (on_lift _ _), on_bind_ok (on_modify _ _)]
        refine Spec.forM (I := fun db => SymsSized (cachePart db)) ids (fun id _ => ?_) _
          ⟨⟨m', rfl, hwf', hmin'.trans hmin, hmax'.trans hmax⟩, hsize⟩
        exact (keepsSized_loadSymbol id).conseq (fun _ hi => ⟨hi, trivial⟩) (fun _ _ hi => hi)
          fun _ _ hi => hi

/-- A window is loaded, or the VM refuses to, exactly if it fits. -/
theorem preload_safe_iff (hi : SymsSized (cachePart db)) (addr : VmPtr) (size : VmSize) :
    Safe Caught (preloadSymbols api addr size) db ↔ WindowFits api addr size db := by
  obtain ⟨⟨m, hr, hwf, hmin, hmax⟩, -⟩ := hi
  have hr : db.symsRanges = some m := hr
  have hmax : m.maxKey = db.infos.memorySize - 1 := hmax
  have h0 : ∀ k, m.minKey ≤ k := fun k => by rw [hmin]; exact UInt64.zero_le
  have hlast : windowLast db.infos.memorySize addr size ≤ m.maxKey := hmax ▸ min_le_right _ _
  have hloaded (k : VmPtr) : db.IsLoaded k ↔ m.get k = .ok 1 := by
    refine ⟨fun h => ?_, fun h => ⟨m, hr, h⟩⟩
    obtain ⟨m', hr', h⟩ := h
    exact Option.some.inj (hr.symm.trans hr') ▸ h
  unfold WindowFits
  rw [Safe, preload_on hr, hloaded, hloaded, ← hmax]
  by_cases ha : addr ≤ m.maxKey
  · rw [and_iff_right ha]
    by_cases hend : addr.toNat + max size.toNat 256 ≤ UInt64.size
    · refine iff_of_true ?_ (.inl hend)
      have hw := le_windowLast_of_le hend (hmax ▸ ha) (by omega)
      obtain ⟨w, htrim, hspec⟩ := trimLoaded_spec hwf hmin ha hlast
      rw [htrim]
      rcases w with _ | ⟨a, l⟩
      · trivial
      · obtain ⟨-, hal, hll, -⟩ := hspec.2 hw
        obtain ⟨m', hset, -⟩ := RangeMap.get_set hwf 1 (h0 a) hal (le_trans hll hlast)
        refine Safe.bind (callVM_safe _ db) fun ids db' _ => ?_
        rw [hset]
        refine (Safe.then_ok (on_lift _ _)).mpr ((Safe.then_ok (on_modify _ _)).mpr ?_)
        exact Safe.forM (fun id _ => loadSymbol_safe id) _
    · rw [or_iff_right hend]
      have hlt := windowLast_lt db.infos.memorySize (not_le.mp hend)
      rcases trimLoaded_wrap hwf hmin ha hlt with ⟨hor, htrim⟩ | ⟨hnot, htrim⟩ <;> rw [htrim]
      · exact iff_of_true trivial (or_assoc.mp (.inl hor))
      · -- the VM is asked for the window, which is empty for `set`
        rw [← or_assoc, or_iff_right hnot]
        unfold loadWindow
        simp only
        rcases hcall : api.getSymbols addr (windowLast db.infos.memorySize addr size - addr + 1)
          db.vm with ⟨msg | ids, vm'⟩
        · refine iff_of_true ?_ ⟨msg, vm', rfl⟩
          rw [on_bind_error (show (callVM _).on db = (.error (.vmError msg), _) by
            rw [callVM, on_of, hcall]; rfl)]
          trivial
        · rw [on_bind_ok (callVM_eq_ok.mpr ⟨vm', hcall, rfl⟩), RangeMap.set_empty 1 hlt]
          refine iff_of_false (fun h => h) fun h => ?_
          obtain ⟨_, _, h⟩ := h
          cases h
  · have htrim : trimLoaded m addr (windowLast db.infos.memorySize addr size) =
        .error .assertFail := by
      rw [trimLoaded, RangeMap.rangeOf_beyond (not_le.mp ha)]
      rfl
    rw [htrim]
    exact iff_of_false (fun h => h) fun h => ha h.1

theorem length_symsIn_le (pos : Std.TreeMap VmPtr VmSym) (addr last : VmPtr) :
    (symsIn pos addr last).length ≤ pos.size := by
  unfold symsIn
  rw [List.length_map, ← Std.TreeMap.length_toList]
  exact le_trans (List.takeWhile_prefix _).length_le (List.dropWhile_suffix _).length_le

theorem fill_safe_iff {α β : Type} {xs : List α} {out : List β} (h : out.length = xs.length)
    {f : α → DbM V β} :
    Safe Caught (VMSide.fill xs out f) db ↔ Along f (fun x => Safe Caught (f x)) xs db := by
  rw [VMSide.fill_eq h, Safe.mapM_iff]

theorem getSymbolsByIds_safe {ids : List VmSym} {out : List SymbolInfos}
    (h : out.length = ids.length) (db : Debugger V) :
    Safe Caught (VMSide.getSymbolsByIds api ids out) db :=
  (fill_safe_iff h).mpr (.of_forall (fun id _ => getSymbolInfos_safe id) db)

/-- The symbols of a range are sent exactly if its window fits. -/
theorem getSymbolsByAddr_safe_iff (hi : SymsSized (cachePart db)) (addr : VmPtr) (size : VmSize) :
    Safe Caught (VMSide.getSymbolsByAddr api addr size) db ↔ WindowFits api addr size db := by
  unfold VMSide.getSymbolsByAddr
  have hget : Safe Caught (getSymbols api addr size) db ↔ WindowFits api addr size db :=
    (Safe.then_iff fun _ _ => .bind (.of_ok (on_get _)) fun _ _ _ => .ret _).trans
      (preload_safe_iff hi addr size)
  rw [Safe.bind_iff, hget]
  refine and_iff_left fun ids db' hrun => ?_
  obtain ⟨u, db₁, hpre, hrun⟩ := bind_eq_ok.mp hrun
  rw [on_bind_ok (on_get db₁)] at hrun
  cases hrun
  have hi' := @keepsSized_preload _ api addr size db ⟨hi, trivial⟩
  rw [hpre] at hi'
  have hlen : (symsIn db'.symsPos addr (addr + size)).length ≤ maxBytes / sizeof SymbolInfos :=
    calc (symsIn db'.symsPos addr (addr + size)).length
      _ ≤ db'.symsPos.size := length_symsIn_le _ _ _
      _ ≤ db'.mapSyms.size := hi'.2
      _ ≤ 2 ^ 32 := size_mapSyms_le db'
      _ ≤ maxBytes / sizeof SymbolInfos := by decide
  obtain ⟨out, hok, hout⟩ := resize_ok hlen [] (Serial.blank : SymbolInfos)
  rw [hok]
  exact (Safe.then_ok (on_lift _ _)).mpr (getSymbolsByIds_safe hout db')

/-! ## Memory and breakpoints -/

/-- A block is read into a buffer that is long enough. -/
theorem readBlock_safe (addr : VmPtr) {size : VmSize} {buf : Bytes} (h : size.toNat ≤ buf.length)
    (db : Debugger V) : Safe Caught (readMem api addr size >>= fun block =>
      Prog.lift (VMSide.overwrite buf block.1)) db := by
  refine .bind (callVM_safe _ db) fun block db' _ => ?_
  unfold VMSide.overwrite
  rw [if_pos (block.2.symm ▸ h)]
  trivial

theorem writeBlock_safe (addr : VmPtr) {size : VmSize} {buf : Bytes} (h : size.toNat ≤ buf.length)
    (db : Debugger V) : Safe Caught (writeMem api addr size buf) db := by
  unfold writeMem
  rw [dif_pos h]
  exact callVM_safe _ db

theorem onControl_safe {f : DbControl → Except Fault DbControl}
    (hf : ∀ c e, f c = .error e → Caught e) (db : Debugger V) : Safe Caught (onControl f) db := by
  rcases h : f db.toDbControl with e | c
  · have hrun : (onControl f).on db = (.error e, db) := by rw [onControl_on, h]
    exact (Safe.iff_of_error hrun).mpr (hf _ e h)
  · have hrun : (onControl f).on db = (.ok (), { db with toDbControl := c }) := by
      rw [onControl_on, h]
    exact .of_ok hrun

theorem addBreakpoint_safe (addr : VmPtr) (db : Debugger V) :
    Safe Caught (addBreakpoint addr) db := by
  refine onControl_safe (fun c e h => ?_) db
  unfold DbControl.addBreakpoint throwErr at h
  split at h
  · cases h
    trivial
  · split at h <;> cases h
    trivial

theorem delBreakpoint_safe (addr : VmPtr) (db : Debugger V) :
    Safe Caught (delBreakpoint addr) db := by
  refine onControl_safe (fun c e h => ?_) db
  unfold DbControl.delBreakpoint throwErr at h
  split at h
  · cases h
    trivial
  · split at h <;> cases h
    trivial

theorem resume_safe (type : ResumeType) (db : Debugger V) : Safe Caught (resume type) db := by
  refine onControl_safe (fun c e h => ?_) db
  unfold DbControl.resume throwErr at h
  split at h
  · cases h
    trivial
  · cases type <;> cases h

theorem checkStopped_safe (udp : DBClientUpdate) (db : Debugger V) :
    Safe Caught (VMSide.checkStopped udp) db := by
  unfold VMSide.checkStopped
  rw [Safe.then_ok (on_get db)]
  cases hs : db.state <;> exact .ret _

theorem codeTexts_safe (n : Nat) (addr : VmPtr) (db : Debugger V) :
    Safe Caught (VMSide.codeTexts api n addr) db := by
  induction n generalizing addr db with
  | zero => exact .ret _
  | succ n ih =>
    exact .bind (callVM_safe _ db) fun p db' _ => .bind (ih _ db') fun _ _ _ => .ret _

/-- Lines of code are read exactly if there can be as many. -/
theorem getCodeText_safe_iff (addr : VmPtr) (nins : VmSize) :
    Safe Caught (VMSide.getCodeText api addr nins) db ↔
      nins.toNat ≤ maxBytes / sizeof Bytes := by
  unfold VMSide.getCodeText
  rw [Safe.bind_iff, resize_safe]
  refine and_iff_left_of_imp fun h texts db' hrun => ?_
  refine .bind ((resize_safe _ _).mpr (le_trans h (by decide))) fun sizes db'' _ => ?_
  exact .bind (codeTexts_safe _ _ db'') fun _ _ _ => .ret _

/-! ## Arrays of registers and of blocks -/

/-- Registers are read into buffers of the given sizes exactly if every value fits, once those
before it are read. -/
theorem getRegs_safe_iff {ids : List VmReg} {sizes : List VmSize} {bufs : List Bytes}
    (hlen : bufs.length = ids.length) (hbufs : bufs.map List.length = sizes.map UInt64.toNat) :
    Safe Caught (VMSide.getRegs api ids bufs) db ↔
      Along (fun p : VmReg × VmSize => getReg api p.1) (fun p => ValueFits api p.1 p.2.toNat)
        (ids.zip sizes) db := by
  -- both are about the registers and the lengths of their buffers
  have hbuf := along_map (fun p : VmReg × Bytes => (p.1, p.2.length)) (fun p => getReg api p.1)
    (fun p => ValueFits api p.1 p.2) (ids.zip bufs) db
  have hsize := along_map (fun p : VmReg × VmSize => (p.1, p.2.toNat)) (fun p => getReg api p.1)
    (fun p => ValueFits api p.1 p.2) (ids.zip sizes) db
  have hzip : (ids.zip bufs).map (fun p => (p.1, p.2.length)) =
      (ids.zip sizes).map fun p => (p.1, p.2.toNat) := by
    have hright := (List.zip_map_right : ids.zip (bufs.map List.length) = _)
    rw [hbufs, List.zip_map_right] at hright
    exact hright.symm
  rw [← hsize, ← hzip, hbuf]
  unfold VMSide.getRegs
  rw [← hlen, itemsAt_self, lift_ok, pure_bind, fill_safe_iff (by simp [hlen])]
  refine along_congr (fun p _ db => getReg_safe_iff p.1 p.2) (fun p _ db db' hsafe => ?_) db
  constructor
  · rintro ⟨y, hy⟩
    obtain ⟨val, db₁, hval, hrest⟩ := bind_eq_ok.mp hy
    obtain ⟨-, rfl⟩ := lift_eq_ok.mp hrest
    exact ⟨val, hval⟩
  · rintro ⟨val, hval⟩
    have := (Safe.bind_iff.mp hsafe).2 val db' hval
    cases hover : VMSide.overwrite p.2 val with
    | ok buf => exact ⟨buf, by rw [on_bind_ok hval, hover]; rfl⟩
    | error e =>
      unfold VMSide.overwrite at hover
      split at hover
      · cases hover
      · cases hover
        rw [VMSide.overwrite, if_neg (by assumption)] at this
        exact this.elim

theorem itemsAt_take {α : Type} {ptr : List α} {n : Nat} (h : n ≤ ptr.length) :
    itemsAt ptr n = .ok (ptr.take n) := if_pos h

/-- The arrays of a call for blocks: a size and a buffer of that size for every block. -/
structure Rows (addrs : List VmPtr) (sizes : List VmSize) (bufs : List Bytes) : Prop where
  enough : addrs.length ≤ sizes.length
  count : bufs.length = addrs.length
  fits : ∀ q ∈ bufs.zip sizes, q.2.toNat ≤ q.1.length

variable {addrs : List VmPtr} {sizes : List VmSize} {bufs : List Bytes}

theorem Rows.zip (h : Rows addrs sizes bufs) :
    ∀ q ∈ (addrs.zip bufs).zip sizes, q.2.toNat ≤ q.1.2.length := by
  intro q hq
  have hmap : (q.1.2, q.2) ∈ ((addrs.zip bufs).map Prod.snd).zip sizes := by
    rw [List.zip_map_left]
    exact List.mem_map_of_mem (f := Prod.map Prod.snd id) hq
  rw [List.map_snd_zip (Nat.le_of_eq h.count)] at hmap
  exact h.fits _ hmap

theorem readMem_safe (h : Rows addrs sizes bufs) (db : Debugger V) :
    Safe Caught (VMSide.readMem api addrs sizes bufs) db := by
  rw [VMSide.readMem_rows h.enough h.count]
  exact Safe.mapM (fun p hp => readBlock_safe p.1.1 (h.zip p hp)) db

theorem writeMem_safe (h : Rows addrs sizes bufs) (db : Debugger V) :
    Safe Caught (VMSide.writeMem api addrs sizes bufs) db := by
  rw [VMSide.writeMem_rows h.enough h.count]
  exact Safe.forM (fun p hp => writeBlock_safe p.1.1 (h.zip p hp)) db

/-- The size that a request with the one size `size` is handled with for block `i`: it is not looked
up for a third block. -/
def fixedSize (size : VmSize) (i : Nat) : VmSize := if i = 0 then size else 0

theorem itemAt_fixed {size : VmSize} {i : Nat} (h : i < 2) :
    VMSide.itemAt [size, 0] i = .ok (fixedSize size i) := by
  obtain rfl | rfl : i = 0 ∨ i = 1 := by omega
  · rfl
  · rfl

theorem itemAt_beyond {size : VmSize} {i : Nat} (h : ¬ i < 2) :
    VMSide.itemAt [size, 0] i = .error .undefined := by
  rw [VMSide.itemAt, List.getElem?_eq_none (Nat.le_of_not_lt h)]

theorem fixedSize_le (size : VmSize) (i : Nat) : (fixedSize size i).toNat ≤ size.toNat := by
  unfold fixedSize
  split
  · exact le_rfl
  · exact Nat.zero_le _

theorem readRow_safe_iff {size : VmSize} {i : Nat} {addr : VmPtr} {buf : Bytes}
    (hbuf : buf.length = size.toNat) :
    Safe Caught (VMSide.readRow api [size, 0] i addr buf) db ↔ i < 2 := by
  unfold VMSide.readRow
  by_cases hi : i < 2
  · rw [itemAt_fixed hi, lift_ok, pure_bind]
    exact iff_of_true (readBlock_safe addr (hbuf ▸ fixedSize_le size i) db) hi
  · rw [itemAt_beyond hi]
    exact iff_of_false (fun h => h) hi

theorem writeRow_safe_iff {size : VmSize} {i : Nat} {addr : VmPtr} {buf : Bytes}
    (hbuf : buf.length = size.toNat) :
    Safe Caught (VMSide.writeRow api [size, 0] i addr buf) db ↔ i < 2 := by
  unfold VMSide.writeRow
  by_cases hi : i < 2
  · rw [itemAt_fixed hi, lift_ok, pure_bind]
    exact iff_of_true (writeBlock_safe addr (hbuf ▸ fixedSize_le size i) db) hi
  · rw [itemAt_beyond hi]
    exact iff_of_false (fun h => h) hi

/-- The bytes of a block. -/
def readBytes (api : VMApi V) (addr : VmPtr) (size : VmSize) : DbM V Bytes := do
  let block ← readMem api addr size
  return block.1

/-- With one size for all, blocks are read exactly if no third one is. -/
theorem readFixed_safe_iff {size : VmSize} (hlen : bufs.length = addrs.length)
    (hbufs : ∀ buf ∈ bufs, buf.length = size.toNat) :
    Safe Caught (VMSide.readMem api addrs [size, 0] bufs) db ↔
      Along (fun p : VmPtr × Nat => readBytes api p.1 (fixedSize size p.2)) (fun p _ => p.2 < 2)
        addrs.zipIdx db := by
  have hmem {p : (VmPtr × Bytes) × Nat} (hp : p ∈ (addrs.zip bufs).zipIdx) :
      p.1.2.length = size.toNat :=
    hbufs _ (List.of_mem_zip (List.fst_mem_of_mem_zipIdx hp)).2
  have hrow (p : (VmPtr × Bytes) × Nat) (hp : p ∈ (addrs.zip bufs).zipIdx) (db db' : Debugger V)
      (hsafe : Safe Caught (VMSide.readRow api [size, 0] p.2 p.1.1 p.1.2) db) :
      (∃ y, (VMSide.readRow api [size, 0] p.2 p.1.1 p.1.2).on db = (.ok y, db')) ↔
        ∃ y, (readBytes api p.1.1 (fixedSize size p.2)).on db = (.ok y, db') := by
    have hi := (readRow_safe_iff (hmem hp)).mp hsafe
    unfold VMSide.readRow readBytes
    rw [itemAt_fixed hi, lift_ok, pure_bind]
    constructor
    · rintro ⟨y, hy⟩
      obtain ⟨block, db₁, hblock, hrest⟩ := bind_eq_ok.mp hy
      obtain ⟨-, rfl⟩ := lift_eq_ok.mp hrest
      exact ⟨block.1, by rw [on_bind_ok hblock]; rfl⟩
    · rintro ⟨y, hy⟩
      obtain ⟨block, db₁, hblock, hret⟩ := bind_eq_ok.mp hy
      cases hret
      have hle : block.1.length ≤ p.1.2.length := by
        rw [block.2, hmem hp]
        exact fixedSize_le size p.2
      exact ⟨_, by rw [on_bind_ok hblock, VMSide.overwrite, if_pos hle]; rfl⟩
  rw [← List.map_fst_zip (Nat.le_of_eq hlen.symm), List.zipIdx_map,
    along_map (Prod.map Prod.fst id)]
  unfold VMSide.readMem
  rw [List.map_fst_zip (Nat.le_of_eq hlen.symm), ← hlen, itemsAt_self, lift_ok, pure_bind,
    fill_safe_iff (by simp [hlen])]
  exact along_congr (fun p hp db => readRow_safe_iff (hmem hp)) hrow db

theorem writeFixed_safe_iff {size : VmSize} (hlen : bufs.length = addrs.length)
    (hbufs : ∀ buf ∈ bufs, buf.length = size.toNat) :
    Safe Caught (VMSide.writeMem api addrs [size, 0] bufs) db ↔
      Along (fun p : (VmPtr × Bytes) × Nat => writeMem api p.1.1 (fixedSize size p.2) p.1.2)
        (fun p _ => p.2 < 2) (addrs.zip bufs).zipIdx db := by
  have hmem {p : (VmPtr × Bytes) × Nat} (hp : p ∈ (addrs.zip bufs).zipIdx) :
      p.1.2.length = size.toNat :=
    hbufs _ (List.of_mem_zip (List.fst_mem_of_mem_zipIdx hp)).2
  unfold VMSide.writeMem
  rw [← hlen, itemsAt_self, lift_ok, pure_bind, Safe.forM_iff]
  refine along_congr (fun p hp db => writeRow_safe_iff (hmem hp)) (fun p hp db db' hsafe => ?_) db
  show (∃ y, (VMSide.writeRow api [size, 0] p.2 p.1.1 p.1.2).on db = (.ok y, db')) ↔ _
  unfold VMSide.writeRow
  rw [itemAt_fixed ((writeRow_safe_iff (hmem hp)).mp hsafe), lift_ok, pure_bind]

/-- Buffers of the given sizes. -/
theorem rows_var (hlen : sizes.length = addrs.length)
    (hrows : bufs.map List.length = sizes.map UInt64.toNat) : Rows addrs sizes bufs where
  enough := Nat.le_of_eq hlen.symm
  count := by simpa [hlen] using congrArg List.length hrows
  fits q hq := by
    have hall : List.Forall₂ Eq (bufs.map List.length) (sizes.map UInt64.toNat) := by
      rw [hrows, List.forall₂_eq_eq_eq]
    have := List.forall₂_map_right_iff.mp (List.forall₂_map_left_iff.mp hall)
    exact Nat.le_of_eq ((List.forall₂_iff_zip.mp this).2 hq).symm

/-! ## What a call that returns leaves in the buffers -/

theorem length_overwrite {buf bytes out : Bytes} (h : VMSide.overwrite buf bytes = .ok out) :
    out.length = buf.length := by
  unfold VMSide.overwrite at h
  split at h
  · cases h
    simp
    omega
  · cases h

/-- Buffers that are overwritten keep their lengths. -/
theorem fill_lengths {α : Type} {xs : List α} {out ys : List Bytes} (buf : α → Bytes)
    (hlen : out.length = xs.length) {f : α → DbM V Bytes}
    (hf : ∀ x db y db', (f x).on db = (.ok y, db') → y.length = (buf x).length) {db' : Debugger V}
    (h : (VMSide.fill xs out f).on db = (.ok ys, db')) :
    ys.map List.length = (xs.map buf).map List.length := by
  rw [VMSide.fill_eq hlen] at h
  rw [List.map_map]
  exact VMSide.lengths_eq (mapM_ok h hf)

theorem getRegs_lengths {ids : List VmReg} {vals : List Bytes} {db' : Debugger V}
    (hlen : bufs.length = ids.length) (h : (VMSide.getRegs api ids bufs).on db = (.ok vals, db')) :
    vals.map List.length = bufs.map List.length := by
  unfold VMSide.getRegs at h
  rw [← hlen, itemsAt_self, lift_ok, pure_bind] at h
  have := fill_lengths Prod.snd (by simp [hlen]) (fun p db y db' hrun => ?_) h
  · rwa [List.map_snd_zip (Nat.le_of_eq hlen)] at this
  · obtain ⟨val, db₁, -, hover⟩ := bind_eq_ok.mp hrun
    exact length_overwrite (lift_eq_ok.mp hover).1

theorem readMem_lengths {blocks : List Bytes} {db' : Debugger V} (hlen : bufs.length = addrs.length)
    (h : (VMSide.readMem api addrs sizes bufs).on db = (.ok blocks, db')) :
    blocks.map List.length = bufs.map List.length := by
  unfold VMSide.readMem at h
  rw [← hlen, itemsAt_self, lift_ok, pure_bind] at h
  have := fill_lengths (fun p : (VmPtr × Bytes) × Nat => p.1.2) (by simp [hlen])
    (fun p db y db' hrun => ?_) h
  · rw [this, show (fun p : (VmPtr × Bytes) × Nat => p.1.2) = Prod.snd ∘ Prod.fst from rfl,
      ← List.map_map, List.zipIdx_map_fst, List.map_snd_zip (Nat.le_of_eq hlen)]
  · obtain ⟨len, db₁, -, hrun⟩ := bind_eq_ok.mp hrun
    obtain ⟨block, db₂, -, hover⟩ := bind_eq_ok.mp hrun
    exact length_overwrite (lift_eq_ok.mp hover).1

end Debugger

end Odb
