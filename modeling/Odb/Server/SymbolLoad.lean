import Odb.Server.Symbols

/-!
# Symbols that share an address, and loads that fail

`_syms_pos` has one symbol for an address, and `_preload_symbols` records its window as loaded
before it loads the symbols in it.

* `Answers`: the callbacks of the VM fail at any time, and else they answer by a fixed table.
* `InfosFail`: when a load of symbols fails.
* `SymCache.Holds`, `SymCache.Loaded`: what is always right, and what a failing load breaks.
* `RunWhere.symbols_kept`: nothing is lost in a run in which no load fails half-way.
* `getSymbols_iff_distinct`: a range is listed completely, after any history, if and only if no two
  of its symbols share an address.
-/

namespace Odb

/-- A table of symbols with distinct ids; several may share an address. -/
structure SymList where
  syms : List SymbolInfos
  ids : (syms.map SymbolInfos.idx).Nodup

namespace SymList

variable {t : SymList}

theorem eq_of_idx {y z : SymbolInfos} (hy : y ∈ t.syms) (hz : z ∈ t.syms) (h : y.idx = z.idx) :
    y = z := List.inj_on_of_nodup_map t.ids hy hz h

/-- `id` is a symbol defined in `[addr, addr + size)`. -/
def Defines (t : SymList) (addr : VmPtr) (size : VmSize) (id : VmSym) : Prop :=
  ∃ y ∈ t.syms, y.idx = id ∧ addr ≤ y.addr ∧ y.addr.toNat < addr.toNat + size.toNat

/-- No two symbols in `[addr, addr + size)` share an address. -/
def Distinct (t : SymList) (addr : VmPtr) (size : VmSize) : Prop :=
  ∀ y ∈ t.syms, ∀ z ∈ t.syms, addr ≤ y.addr → y.addr.toNat < addr.toNat + size.toNat →
    y.addr = z.addr → y = z

end SymList

/-- The symbol callbacks of a VM with the table `t`: each fails, or it answers by the table. -/
structure Answers {V : Type} (api : VMApi V) (memorySize : VmSize) (t : SymList) : Prop where
  symbols : ∀ vm (addr : VmPtr) (size : VmSize) ids vm', 0 < size →
    addr.toNat + size.toNat ≤ memorySize.toNat → api.getSymbols addr size vm = (.ok ids, vm') →
    ∀ id, id ∈ ids ↔ t.Defines addr size id
  infos : ∀ vm id y vm', api.getSymbInfos id vm = (.ok y, vm') → y ∈ t.syms ∧ y.idx = id

namespace SymCache

/-- The cache holds symbols of the table `t`, and one of those at an address in `_syms_pos`. -/
structure Holds (t : SymList) (c : SymCache) : Prop where
  map : ∀ id y, c.mapSyms[id]? = some y → y ∈ t.syms ∧ y.idx = id
  pos : ∀ addr id, c.symsPos[addr]? = some id →
    ∃ y ∈ t.syms, c.Known y ∧ y.addr = addr ∧ y.idx = id
  placed : ∀ y, c.Known y → ∃ id, c.symsPos[y.addr]? = some id

/-- `_syms_ranges` is a map of the memory. -/
def Ranged (memorySize : VmSize) (c : SymCache) : Prop :=
  ∃ m, c.symsRanges = some m ∧ m.WF ∧ m.minKey = 0 ∧ m.maxKey = memorySize - 1

/-- Every symbol at an address that is recorded as loaded is known. -/
def Loaded (t : SymList) (c : SymCache) : Prop :=
  ∀ m, c.symsRanges = some m → ∀ y ∈ t.syms, m.get y.addr = .ok 1 → c.Known y

/-- What `c` knows, `c'` knows. -/
def Grows (c c' : SymCache) : Prop := ∀ y, c.Known y → c'.Known y

variable {t : SymList} {c : SymCache}

theorem Holds.add (h : c.Holds t) {y : SymbolInfos} (hy : y ∈ t.syms)
    (hn : c.mapSyms[y.idx]? = none) : (c.add y).Holds t where
  map id z hz := by
    rcases (getElem?_emplace _ _ _ _ _).mp hz with ⟨rfl, -, rfl⟩ | hz
    · exact ⟨hy, rfl⟩
    · exact h.map id z hz
  pos addr id hpos := by
    rcases (getElem?_emplace _ _ _ _ _).mp hpos with ⟨rfl, -, rfl⟩ | hpos
    · exact ⟨y, hy, known_add hn, rfl, rfl⟩
    · obtain ⟨z, hz, hk, e⟩ := h.pos addr id hpos
      exact ⟨z, hz, hk.add, e⟩
  placed z hz := by
    show ∃ id, (c.symsPos.insertIfNew y.addr y.idx)[z.addr]? = some id
    rcases (getElem?_emplace _ _ _ _ _).mp hz with ⟨-, -, rfl⟩ | hz
    · -- another symbol of the address may have its place
      cases hp : c.symsPos[y.addr]? with
      | none => exact ⟨_, (getElem?_emplace _ _ _ _ _).mpr (.inl ⟨rfl, hp, rfl⟩)⟩
      | some id => exact ⟨id, (getElem?_emplace _ _ _ _ _).mpr (.inr hp)⟩
    · obtain ⟨id, hp⟩ := h.placed z hz
      exact ⟨id, (getElem?_emplace _ _ _ _ _).mpr (.inr hp)⟩

/-- A known symbol that shares its address with no other has its place there. -/
theorem Holds.pos_of_known (h : c.Holds t)
    (hdist : (t.syms.map SymbolInfos.addr).Nodup) {y : SymbolInfos} (hy : y ∈ t.syms)
    (hk : c.Known y) : c.symsPos[y.addr]? = some y.idx := by
  obtain ⟨id, hp⟩ := h.placed y hk
  obtain ⟨z, hz, -, he, rfl⟩ := h.pos _ id hp
  rwa [List.inj_on_of_nodup_map hdist hz hy he] at hp

end SymCache

namespace Debugger

open Prog

variable {V : Type} {api : VMApi V} {memorySize : VmSize} {t : SymList}

/-- One of the calls of `get_symb_infos` fails in a load of the symbols `ids` that begins in the VM
state `vm` with the symbols `known` in the cache. -/
def InfosFail (api : VMApi V) (known : Std.TreeMap VmSym SymbolInfos) : List VmSym → V → Prop
  | [], _ => False
  | id :: ids, vm =>
    if id ∈ known then InfosFail api known ids vm
    else match api.getSymbInfos id vm with
      | (.ok y, vm') => InfosFail api (known.insertIfNew id y) ids vm'
      | (.error _, _) => True

/-! ## Loading symbols -/

/-- `_load_symbol` of an id: it is known after, or the call throws and loads nothing. -/
theorem loadSymbol_on (hv : Answers api memorySize t) {db : Debugger V}
    (h : db.toSymCache.Holds t) (id : VmSym) :
    (∃ y ∈ t.syms, y.idx = id ∧ ∃ db', (loadSymbol api id).on db = (.ok (), db') ∧
      db'.toSymCache.Holds t ∧ db'.toSymCache.Known y ∧ db.Grows db'.toSymCache ∧
      db'.symsRanges = db.symsRanges ∧ db'.toDbControl = db.toDbControl ∧
      ∀ ids, InfosFail api db.mapSyms (id :: ids) db.vm ↔ InfosFail api db'.mapSyms ids db'.vm) ∨
    ∃ msg vm', (loadSymbol api id).on db = (.error (.vmError msg), { db with vm := vm' }) ∧
      ∀ ids, InfosFail api db.mapSyms (id :: ids) db.vm := by
  unfold loadSymbol
  rw [on_bind_ok (on_get db)]
  by_cases hid : id ∈ db.mapSyms
  · rw [if_pos hid]
    obtain ⟨y, hy⟩ := Option.isSome_iff_exists.mp (Std.TreeMap.mem_iff_isSome_getElem?.mp hid)
    obtain ⟨hmem, rfl⟩ := h.map id y hy
    refine .inl ⟨y, hmem, rfl, db, rfl, h, hy, fun _ hz => hz, rfl, rfl, fun ids => ?_⟩
    rw [InfosFail, if_pos hid]
  · have hnone := Std.TreeMap.getElem?_eq_none hid
    rw [if_neg hid, on_bind]
    rcases hc : api.getSymbInfos id db.vm with ⟨msg | y, vm'⟩
    · refine .inr ⟨msg, vm', ?_, fun ids => ?_⟩
      · simp only [callVM, on_of, hc, Except.mapError]
      · rw [InfosFail, if_neg hid, hc]
        trivial
    · obtain ⟨hmem, rfl⟩ := hv.infos _ _ _ _ hc
      refine .inl ⟨y, hmem, rfl, { db with vm := vm', toSymCache := db.toSymCache.add y }, ?_,
        h.add hmem hnone, SymCache.known_add hnone, fun z hz => hz.add, rfl, rfl, fun ids => ?_⟩
      · simp only [callVM, on_of, hc, Except.mapError, on_modify]
        rfl
      · rw [InfosFail, if_neg hid, hc]
        rfl

/-- Loading symbols one after the other: all are known after, or one of the calls of the VM
failed. -/
theorem loadSymbols_on (hv : Answers api memorySize t) (ids : List VmSym) {db : Debugger V}
    (h : db.toSymCache.Holds t) :
    ∃ r db', (ids.forM (loadSymbol api)).on db = (r, db') ∧ db'.toSymCache.Holds t ∧
      db.Grows db'.toSymCache ∧ db'.symsRanges = db.symsRanges ∧
      db'.toDbControl = db.toDbControl ∧
      ((r = .ok () ∧ ¬ InfosFail api db.mapSyms ids db.vm ∧
          ∀ y ∈ t.syms, y.idx ∈ ids → db'.toSymCache.Known y) ∨
        ((∃ msg, r = .error (.vmError msg)) ∧ InfosFail api db.mapSyms ids db.vm)) := by
  induction ids generalizing db with
  | nil => exact ⟨_, db, rfl, h, fun _ hz => hz, rfl, rfl, .inl ⟨rfl, id, by simp⟩⟩
  | cons id ids ih =>
    show ∃ r db', (loadSymbol api id >>= fun _ => ids.forM (loadSymbol api)).on db = (r, db') ∧ _
    rcases loadSymbol_on hv h id with
      ⟨y, hy, hyid, db₁, hrun, h₁, hk, hmono, hr, hc, hfail⟩ | ⟨msg, vm', hrun, hfail⟩
    · obtain ⟨r, db', hrun', h', hmono', hr', hc', hout⟩ := ih h₁
      refine ⟨r, db', by rw [on_bind_ok hrun, hrun'], h', fun z hz => hmono' z (hmono z hz),
        hr'.trans hr, hc'.trans hc, ?_⟩
      rw [hfail]
      refine hout.imp (fun ⟨hok, hno, hknown⟩ => ⟨hok, hno, fun z hz hzid => ?_⟩) fun h => h
      rcases List.mem_cons.mp hzid with hzid | hzid
      · rw [SymList.eq_of_idx hz hy (hzid.trans hyid.symm)]
        exact hmono' y hk
      · exact hknown z hz hzid
    · exact ⟨_, _, on_bind_error hrun _, h, fun _ hz => hz, rfl, rfl, .inr ⟨⟨msg, rfl⟩, hfail ids⟩⟩

/-! ## Preloading a window -/

/-- The VM infos are those of the VM, and the cache is a cache of the table. -/
structure CacheOf (memorySize : VmSize) (t : SymList) (db : Debugger V) : Prop where
  size : db.infos.memorySize = memorySize
  holds : db.toSymCache.Holds t
  ranged : db.toSymCache.Ranged memorySize

/-- `_preload_symbols(addr, size)` records a window as loaded and then fails to load a symbol. -/
def LosesSymbol (api : VMApi V) (db : Debugger V) (addr : VmPtr) (size : VmSize) : Prop :=
  ∃ m a l ids vm', db.symsRanges = some m ∧
    trimLoaded m addr (windowLast db.infos.memorySize addr size) = .ok (some (a, l)) ∧ a ≤ l ∧
    api.getSymbols a (l - a + 1) db.vm = (.ok ids, vm') ∧ InfosFail api db.mapSyms ids vm'

/-- The call of the VM for the addresses `[a, l]`, and what follows it. -/
theorem loadWindow_on (hv : Answers api memorySize t) (hmem : 0 < memorySize) {db : Debugger V}
    (h : CacheOf memorySize t db) {m : RangeMap Int} (hr : db.symsRanges = some m) {a l : VmPtr}
    (hal : a ≤ l) (hl : l < memorySize) :
    ∃ r db', (loadWindow api m a l).on db = (r, db') ∧ CacheOf memorySize t db' ∧
      ((∃ msg vm', api.getSymbols a (l - a + 1) db.vm = (.error msg, vm') ∧
          r = .error (.vmError msg) ∧ db'.toSymCache = db.toSymCache) ∨
        ∃ ids vm' m', api.getSymbols a (l - a + 1) db.vm = (.ok ids, vm') ∧
          db'.symsRanges = some m' ∧ db.Grows db'.toSymCache ∧
          (∀ k < memorySize, m'.get k = if a ≤ k ∧ k ≤ l then .ok 1 else m.get k) ∧
          ((r = .ok () ∧ ¬ InfosFail api db.mapSyms ids vm' ∧
              ∀ y ∈ t.syms, a ≤ y.addr → y.addr ≤ l → db'.toSymCache.Known y) ∨
            ((∃ msg, r = .error (.vmError msg)) ∧ InfosFail api db.mapSyms ids vm'))) := by
  obtain ⟨m₀, hr₀, hwf, hmin, hmax⟩ := h.ranged
  obtain rfl : m₀ = m := Option.some.inj (hr₀.symm.trans hr)
  have h0 : ∀ k, m₀.minKey ≤ k := fun k => by rw [hmin]; exact UInt64.zero_le
  obtain ⟨hpos, hend, hin⟩ := request_in_memory hal hl
  unfold loadWindow
  rcases hcall : api.getSymbols a (l - a + 1) db.vm with ⟨msg | ids, vm'⟩
  · refine ⟨.error (.vmError msg), { db with vm := vm' }, ?_,
      ⟨h.size, h.holds, h.ranged⟩, .inl ⟨msg, vm', rfl, rfl, rfl⟩⟩
    simp only [on_bind, callVM, on_of, hcall, Except.mapError]
  have hids := hv.symbols _ _ _ _ _ hpos hin hcall
  obtain ⟨m', hset, hwf', hmin', hmax', hget⟩ := RangeMap.get_set hwf 1 (h0 a) hal
    ((le_memorySize hmem hmax l).mpr hl)
  obtain ⟨r, db', hrun, hh, hmono, hr', hc, hout⟩ := loadSymbols_on hv ids
    (show ({ db with vm := vm', symsRanges := some m' } : Debugger V).toSymCache.Holds t from
      ⟨h.holds.map, h.holds.pos, h.holds.placed⟩)
  refine ⟨r, db', ?_, ⟨(congrArg (·.infos.memorySize) hc).trans h.size, hh, m', hr', hwf',
    hmin'.trans hmin, hmax'.trans hmax⟩, .inr ⟨ids, vm', m', rfl, hr', hmono,
    fun k hk => hget k (h0 k) ((le_memorySize hmem hmax k).mpr hk), ?_⟩⟩
  · rw [on_bind_ok (callVM_eq_ok.mpr ⟨vm', hcall, rfl⟩), hset]
    exact hrun
  · rcases hout with ⟨hok, hno, hknown⟩ | hfail
    · refine .inl ⟨hok, hno, fun y hy h1 h2 => hknown y hy ((hids _).mpr ⟨y, hy, rfl, h1, ?_⟩)⟩
      have := UInt64.le_iff_toNat_le.mp h2
      omega
    · exact .inr hfail

/-- `_preload_symbols` by what is left to load of its window. -/
theorem preload_on {db : Debugger V} {m : RangeMap Int} (hr : db.symsRanges = some m)
    (addr : VmPtr) (size : VmSize) :
    (preloadSymbols api addr size).on db =
      match trimLoaded m addr (windowLast db.infos.memorySize addr size) with
      | .ok none => (.ok (), db)
      | .ok (some (a, l)) => (loadWindow api m a l).on db
      | .error e => (.error e, db) := by
  have href : (symsRangesRef : DbM V _).on db = (.ok m, db) := by
    unfold symsRangesRef
    rw [on_bind_ok (on_get db), hr]
    rfl
  unfold preloadSymbols
  rw [on_bind_ok (on_get db), on_bind_ok href]
  show ((Prog.lift (trimLoaded m addr (windowLast db.infos.memorySize addr size)) >>= _ :
    DbM V Unit).on db) = _
  rcases trimLoaded m addr (windowLast db.infos.memorySize addr size) with e | (_ | ⟨a, l⟩) <;> rfl

/-- A key of a map of the memory is in memory. -/
theorem lt_of_get {m : RangeMap Int} (hmem : 0 < memorySize) (hmax : m.maxKey = memorySize - 1)
    {k : VmPtr} {v : Int} (h : m.get k = .ok v) : k < memorySize := by
  unfold RangeMap.get at h
  by_contra hk
  have : ¬ k ≤ m.maxKey := fun hle => hk ((le_memorySize hmem hmax k).mp hle)
  by_cases h1 : m.minKey ≤ k
  · rw [assertThat_pos h1, ok_bind, assertThat, if_neg this] at h
    cases h
  · rw [assertThat, if_neg h1] at h
    cases h

/-- A call of the VM for the symbols of some addresses in memory fails. -/
def SymbolsFail (api : VMApi V) (memorySize : VmSize) (vm : V) : Prop :=
  ∃ a l msg vm', a ≤ l ∧ l < memorySize ∧ api.getSymbols a (l - a + 1) vm = (.error msg, vm')

/-- `_preload_symbols` of a window in memory that does not wrap around. What was complete stays so
unless a load fails half-way, and a call that returns has loaded the window. -/
theorem preload_window (hv : Answers api memorySize t) (hmem : 0 < memorySize) {db : Debugger V}
    (h : CacheOf memorySize t db) {addr : VmPtr} {size : VmSize} (ha : addr < memorySize)
    (hw : addr ≤ windowLast memorySize addr size) :
    ∃ r db', (preloadSymbols api addr size).on db = (r, db') ∧ Survived r ∧
      (r = .ok () ∨ LosesSymbol api db addr size ∨ SymbolsFail api memorySize db.vm) ∧
      CacheOf memorySize t db' ∧
      (r = .ok () ∨ ¬ LosesSymbol api db addr size →
        db.toSymCache.Loaded t → db'.toSymCache.Loaded t) ∧
      (r = .ok () → db'.toSymCache.Covers addr (windowLast memorySize addr size)) := by
  obtain ⟨m, hr, hwf, hmin, hmax⟩ := h.ranged
  have hlast : windowLast memorySize addr size < memorySize :=
    (Word.le_sub_one_iff hmem _).mp (min_le_right _ _)
  obtain ⟨w, htrim, hspec⟩ := trimLoaded_spec hwf hmin ((le_memorySize hmem hmax _).mpr ha)
    ((le_memorySize hmem hmax _).mpr hlast)
  rw [preload_on hr, h.size, htrim]
  match w, hspec with
  | none, hall => exact ⟨_, db, rfl, trivial, .inl rfl, h, fun _ hl => hl, fun _ => ⟨m, hr, hall⟩⟩
  | some (a, l), hspec =>
    obtain ⟨haa, hal, hll, hrest⟩ := hspec.2 hw
    obtain ⟨r, db', hrun, hof, hcase⟩ :=
      loadWindow_on hv hmem h hr hal (lt_of_le_of_lt hll hlast)
    refine ⟨r, db', hrun, ?_⟩
    have hlm := lt_of_le_of_lt hll hlast
    rcases hcase with ⟨msg, vm', hcall, rfl, hsame⟩ | ⟨ids, vm', m', hcall, hr', hmono, hget, hout⟩
    · refine ⟨trivial, .inr (.inr ⟨a, l, msg, vm', hal, hlm, hcall⟩), hof, fun _ hl => ?_,
        fun hok => by cases hok⟩
      rw [hsame]
      exact hl
    · have hloses (hfail : InfosFail api db.mapSyms ids vm') : LosesSymbol api db addr size :=
        ⟨m, a, l, ids, vm', hr, by rw [h.size, htrim], hal, hcall, hfail⟩
      refine ⟨?_, ?_, hof, fun hno hload => ?_, fun hok => ⟨m', hr', fun k hk hk' => ?_⟩⟩
      · rcases hout with ⟨rfl, -⟩ | ⟨⟨msg, rfl⟩, -⟩ <;> trivial
      · exact hout.imp (·.1) fun ⟨_, hfail⟩ => .inl (hloses hfail)
      · rcases hout with ⟨-, -, hknown⟩ | ⟨⟨msg, rfl⟩, hfail⟩
        · intro m'' hr'' y hy hone
          obtain rfl := Option.some.inj (hr'.symm.trans hr'')
          obtain ⟨m₁, hr₁, -, -, hmax₁⟩ := hof.ranged
          obtain rfl := Option.some.inj (hr'.symm.trans hr₁)
          rw [hget _ (lt_of_get hmem hmax₁ hone)] at hone
          split at hone
          · next hin => exact hknown y hy hin.1 hin.2
          · exact hmono y (hload m hr y hy hone)
        · exact absurd (hloses hfail) (hno.resolve_left (by simp))
      · rw [hget k (lt_of_le_of_lt hk' hlast)]
        split
        · rfl
        · next hout =>
          refine hrest k hk hk' ?_
          by_contra hin
          rw [not_or, not_lt, not_lt] at hin
          exact hout hin

/-- `_preload_symbols` of any window: if the call is survived, nothing is wrong in the cache, and
what was complete stays so unless a load fails half-way. -/
theorem preload_survived (hv : Answers api memorySize t) (hmem : 0 < memorySize) {db : Debugger V}
    (h : CacheOf memorySize t db) (addr : VmPtr) (size : VmSize) {r : Except Fault Unit}
    {db' : Debugger V} (hrun : (preloadSymbols api addr size).on db = (r, db')) (hs : Survived r) :
    CacheOf memorySize t db' ∧
      (¬ LosesSymbol api db addr size → db.toSymCache.Loaded t → db'.toSymCache.Loaded t) := by
  by_cases hin : addr < memorySize ∧ addr ≤ windowLast memorySize addr size
  · obtain ⟨r', db₁, hrun', -, -, hof, hload, -⟩ := preload_window hv hmem h hin.1 hin.2
    rw [hrun'] at hrun
    cases hrun
    exact ⟨hof, fun hno => hload (.inr hno)⟩
  obtain ⟨m, hr, hwf, hmin, hmax⟩ := h.ranged
  rw [preload_on hr, h.size] at hrun
  by_cases ha : addr < memorySize
  · -- the window wraps around, and so does the request, which `set` does not accept
    have hlast : windowLast memorySize addr size < memorySize :=
      (Word.le_sub_one_iff hmem _).mp (min_le_right _ _)
    obtain ⟨w, htrim, hspec⟩ := trimLoaded_spec hwf hmin ((le_memorySize hmem hmax _).mpr ha)
      ((le_memorySize hmem hmax _).mpr hlast)
    have hwrap : windowLast memorySize addr size < addr := not_le.mp fun hle => hin ⟨ha, hle⟩
    rw [htrim] at hrun
    match w, hspec with
    | none, _ =>
      obtain rfl := (Prod.mk.inj hrun).2
      exact ⟨h, fun _ hl => hl⟩
    | some (a, l), hspec =>
      have hset := RangeMap.set_empty (m := m) 1 (hspec.1 hwrap)
      simp only [loadWindow, on_bind, callVM, on_of, hset, on_lift] at hrun
      rcases hc : api.getSymbols a (l - a + 1) db.vm with ⟨_ | ids, vm'⟩ <;>
        simp only [hc, Except.mapError] at hrun
      · obtain rfl := (Prod.mk.inj hrun).2
        exact ⟨⟨h.size, h.holds, h.ranged⟩, fun _ hl => hl⟩
      · rw [← (Prod.mk.inj hrun).1] at hs
        exact hs.elim
  · have htrim : trimLoaded m addr (windowLast memorySize addr size) = .error .assertFail := by
      rw [trimLoaded, RangeMap.rangeOf_beyond (not_le.mp fun hle =>
        ha ((le_memorySize hmem hmax addr).mp hle))]
      rfl
    rw [htrim] at hrun
    rw [← (Prod.mk.inj hrun).1] at hs
    exact hs.elim

/-! ## Runs -/

/-- The cache is right and complete. -/
structure Cached (memorySize : VmSize) (t : SymList) (db : Debugger V) : Prop extends
    CacheOf memorySize t db where
  loaded : db.toSymCache.Loaded t

/-- A load of symbols fails half-way in the event `e`. -/
def Loses (api : VMApi V) (db : Debugger V) : Event → Prop
  | .call (.getSymbols addr size) => LosesSymbol api db addr size
  | .call (.getSymbolAt addr) =>
    LosesSymbol api db (if addr < symLoadSize / 2 then 0 else addr - symLoadSize / 2) symLoadSize
  | _ => False

/-- `c` keeps the cache right and complete from every state in `P`, if it returns or throws a
`VMApi::Error`. -/
def KeepsCached (memorySize : VmSize) (t : SymList) {α : Type} (P : Debugger V → Prop)
    (c : DbM V α) : Prop :=
  Spec (fun db => Cached memorySize t db ∧ P db) c (fun _ => Cached memorySize t)
    (fun e db => Survived (.error e) → Cached memorySize t db)

section Calls

variable {α : Type} {P : Debugger V → Prop}

theorem cached_iff {db : Debugger V} : Cached memorySize t db ↔
    (cachePart db).1.memorySize = memorySize ∧ (cachePart db).2.Holds t ∧
      (cachePart db).2.Ranged memorySize ∧ (cachePart db).2.Loaded t :=
  ⟨fun h => ⟨h.size, h.holds, h.ranged, h.loaded⟩, fun h => ⟨⟨h.1, h.2.1, h.2.2.1⟩, h.2.2.2⟩⟩

theorem keepsCached_iff {c : DbM V α} : KeepsCached memorySize t P c ↔
    KeepsSyms (fun p => p.1.memorySize = memorySize ∧ p.2.Holds t ∧ p.2.Ranged memorySize ∧
      p.2.Loaded t) P c := by
  have : (Cached memorySize t : Debugger V → Prop) = fun db => _ :=
    funext fun _ => propext cached_iff
  unfold KeepsCached KeepsSyms
  rw [this]

theorem keepsCached_preload (hv : Answers api memorySize t) (hmem : 0 < memorySize) (addr : VmPtr)
    (size : VmSize) : KeepsCached memorySize t (fun db => ¬ LosesSymbol api db addr size)
      (preloadSymbols api addr size) := by
  rintro db ⟨hi, hno⟩
  rcases h : (preloadSymbols api addr size).on db with ⟨e | u, db'⟩
  · intro hs
    obtain ⟨hof, hload⟩ := preload_survived hv hmem hi.toCacheOf addr size h hs
    exact ⟨hof, hload hno hi.loaded⟩
  · obtain ⟨hof, hload⟩ := preload_survived hv hmem hi.toCacheOf addr size h trivial
    exact ⟨hof, hload hno hi.loaded⟩

theorem keepsCached_loadSymbol (hv : Answers api memorySize t) (id : VmSym) :
    KeepsCached memorySize t P (loadSymbol api id) := by
  rintro db ⟨hi, -⟩
  rcases loadSymbol_on hv hi.holds id with
    ⟨y, -, -, db', hrun, hh, -, hmono, hr, hc, -⟩ | ⟨msg, vm', hrun, -⟩
  · rw [hrun]
    refine ⟨⟨(congrArg (·.infos.memorySize) hc).trans hi.size, hh, ?_⟩, fun m hm y hy hone =>
      hmono y (hi.loaded m (hr ▸ hm) y hy hone)⟩
    obtain ⟨m, hm, hrest⟩ := hi.ranged
    exact ⟨m, hr.trans hm, hrest⟩
  · rw [hrun]
    exact fun _ => ⟨⟨hi.size, hi.holds, hi.ranged⟩, hi.loaded⟩

end Calls

/-- A new map of the memory has the value 0 everywhere. -/
theorem get_new (hmem : 0 < memorySize) {k : VmPtr} (hk : k < memorySize) :
    (RangeMap.new 0 (memorySize - 1) (0 : Int)).get k = .ok 0 :=
  RangeMap.get_eq (RangeMap.wf_new UInt64.zero_le 0) UInt64.zero_le
    ((Word.le_sub_one_iff hmem _).mpr hk) (RangeMap.new_value (0 : Int) UInt64.zero_le)

/-- Where `on_init` leaves the cache: nothing is loaded. -/
theorem Started.cached {db : Debugger V} (hs : Started api db) (hmem : 0 < memorySize)
    (hm : db.infos.memorySize = memorySize) :
    Cached memorySize t db ∧ db.symsRanges = some (RangeMap.new 0 (memorySize - 1) 0) := by
  obtain ⟨-, -, -, hcache⟩ := hs.members
  rw [hm] at hcache
  have hr : db.symsRanges = some (RangeMap.new 0 (memorySize - 1) 0) :=
    congrArg SymCache.symsRanges hcache
  refine ⟨⟨⟨hm, ?_, _, hr, RangeMap.wf_new UInt64.zero_le 0, rfl, rfl⟩, ?_⟩, hr⟩
  · rw [hcache]
    exact ⟨by simp, by simp, by simp [SymCache.Known]⟩
  · intro m hm' y _ hone
    obtain rfl := Option.some.inj (hr.symm.trans hm')
    rw [get_new hmem (lt_of_get hmem rfl hone)] at hone
    cases hone

/-- The cache is right and complete in every run in which no load fails half-way. -/
theorem RunWhere.cached (hv : Answers api memorySize t) (hmem : 0 < memorySize)
    {db₀ db : Debugger V} {es : List Event} (hs : Started api db₀)
    (hm : db₀.infos.memorySize = memorySize)
    (h : RunWhere api (fun db e => ¬ Loses api db e) db₀ es db) : Cached memorySize t db := by
  have hi := h.keepsSyms (W := fun addr size db => ¬ LosesSymbol api db addr size)
    (fun addr size => keepsCached_iff.mp (keepsCached_preload hv hmem addr size))
    (fun id => keepsCached_iff.mp (keepsCached_loadSymbol hv id))
    (fun _ k hk => by cases k <;> first | exact hk | trivial)
    (cached_iff.mp (hs.cached hmem hm).1)
  exact cached_iff.mpr hi

/-! ## What the queries return -/

theorem toNat_window (size : VmSize) : (max size symLoadSize).toNat = max size.toNat 256 := by
  rw [max_def]
  split
  · next h => exact (max_eq_right (UInt64.le_iff_toNat_le.mp h)).symm
  · next h => exact (max_eq_left (le_of_lt (UInt64.lt_iff_toNat_lt.mp (not_le.mp h)))).symm

/-- The window of a query whose end does not wrap around holds what is asked for. -/
theorem le_windowLast_of_le {addr k : VmPtr} {size : VmSize}
    (hend : addr.toNat + max size.toNat 256 ≤ UInt64.size) (hk : k ≤ memorySize - 1)
    (hin : k.toNat < addr.toNat + max size.toNat 256) : k ≤ windowLast memorySize addr size := by
  refine le_min ?_ hk
  rw [UInt64.le_iff_toNat_le, UInt64.toNat_sub, UInt64.toNat_add, toNat_window, UInt64.toNat_one]
  simp only [UInt64.size] at hend
  omega

theorem le_windowLast {addr k : VmPtr} {size : VmSize}
    (hend : addr.toNat + max size.toNat 256 ≤ UInt64.size) (hk : k < memorySize)
    (hin : k.toNat < addr.toNat + max size.toNat 256) : k ≤ windowLast memorySize addr size :=
  le_windowLast_of_le hend
    ((Word.le_sub_one_iff (lt_of_le_of_lt UInt64.zero_le hk) k).mpr hk) hin

/-- The end of a window that wraps around lies before it. -/
theorem windowLast_lt (memorySize : VmSize) {addr : VmPtr} {size : VmSize}
    (hend : UInt64.size < addr.toNat + max size.toNat 256) :
    windowLast memorySize addr size < addr := by
  refine lt_of_le_of_lt (min_le_left _ _) ?_
  have hlt := size.toNat_lt
  rw [UInt64.lt_iff_toNat_lt, UInt64.toNat_sub, UInt64.toNat_add, toNat_window, UInt64.toNat_one]
  simp only [UInt64.size] at hend
  omega

/-- What the loop of `get_symbols` lists. -/
theorem mem_symsIn {pos : Std.TreeMap VmPtr VmSym} {addr last : VmPtr} {id : VmSym} :
    id ∈ symsIn pos addr last ↔ ∃ a, addr ≤ a ∧ a < last ∧ pos[a]? = some id := by
  rw [symsIn_eq]
  simp only [List.mem_map, List.mem_filter, Std.TreeMap.mem_toList_iff_getElem?_eq_some,
    decide_eq_true_eq, Prod.exists]
  constructor
  · rintro ⟨a, i, ⟨hp, h1, h2⟩, rfl⟩
    exact ⟨a, h1, h2, hp⟩
  · rintro ⟨a, h1, h2, hp⟩
    exact ⟨a, id, ⟨hp, h1, h2⟩, rfl⟩

/-- A cache that knows the symbols in `[addr, addr + size)` lists all of them if and only if no two
share an address. -/
theorem symsIn_iff_distinct {c : SymCache} (h : c.Holds t) {addr : VmPtr} {size : VmSize}
    (hend : addr.toNat + size.toNat < UInt64.size)
    (hknown : ∀ y ∈ t.syms, addr ≤ y.addr → y.addr.toNat < addr.toNat + size.toNat → c.Known y) :
    (∀ id, id ∈ symsIn c.symsPos addr (addr + size) ↔ t.Defines addr size id) ↔
      t.Distinct addr size := by
  have hlt (a : VmPtr) : a < addr + size ↔ a.toNat < addr.toNat + size.toNat := by
    rw [UInt64.lt_iff_toNat_lt, UInt64.toNat_add, Nat.mod_eq_of_lt hend]
  simp only [mem_symsIn, hlt]
  refine ⟨fun hall y hy z hz h1 h2 he => ?_, fun hd id => ⟨?_, ?_⟩⟩
  · -- both have their place at the same address
    have hplace {w : SymbolInfos} (hw : w ∈ t.syms) (h1 : addr ≤ w.addr)
        (h2 : w.addr.toNat < addr.toNat + size.toNat) : c.symsPos[w.addr]? = some w.idx := by
      obtain ⟨a, -, -, hp⟩ := (hall w.idx).mpr ⟨w, hw, rfl, h1, h2⟩
      obtain ⟨w', hw', -, rfl, hid⟩ := h.pos a _ hp
      rwa [SymList.eq_of_idx hw' hw hid] at hp
    have hpy := hplace hy h1 h2
    rw [he] at h1 h2 hpy
    exact SymList.eq_of_idx hy hz (Option.some.inj (hpy.symm.trans (hplace hz h1 h2)))
  · rintro ⟨a, h1, h2, hp⟩
    obtain ⟨y, hy, -, rfl, hid⟩ := h.pos a id hp
    exact ⟨y, hy, hid, h1, h2⟩
  · rintro ⟨y, hy, rfl, h1, h2⟩
    obtain ⟨id, hp⟩ := h.placed y (hknown y hy h1 h2)
    obtain ⟨z, hz, -, he, rfl⟩ := h.pos _ id hp
    rw [hd y hy z hz h1 h2 he.symm]
    exact ⟨z.addr, he ▸ h1, he ▸ h2, he.symm ▸ hp⟩

/-- A call of `get_symbols` in memory, from a right and complete cache, whose window does not wrap
around: when it does not fail in the VM it lists the symbols in its window that are known, and it
knows them all. -/
theorem getSymbols_cached (hv : Answers api memorySize t) {db : Debugger V}
    (h : Cached memorySize t db) {addr : VmPtr} {size : VmSize} (ha : addr < memorySize)
    (hend : addr.toNat + max size.toNat 256 ≤ UInt64.size) :
    (∃ db', (getSymbols api addr size).on db = (.ok (symsIn db'.symsPos addr (addr + size)), db') ∧
      db'.toSymCache.Holds t ∧ ∀ y ∈ t.syms, y.addr < memorySize → addr ≤ y.addr →
        y.addr.toNat < addr.toNat + max size.toNat 256 → db'.toSymCache.Known y) ∨
    (∃ e db', (getSymbols api addr size).on db = (.error e, db')) ∧
      (LosesSymbol api db addr size ∨ SymbolsFail api memorySize db.vm) := by
  have hmem : 0 < memorySize := lt_of_le_of_lt UInt64.zero_le ha
  obtain ⟨r, db₁, hpre, -, hcause, hof, hload, hcov⟩ := preload_window hv hmem h.toCacheOf ha
    (le_windowLast hend ha (by omega))
  unfold getSymbols
  cases r with
  | error e =>
    exact .inr ⟨⟨e, db₁, on_bind_error hpre _⟩, hcause.resolve_left (by simp)⟩
  | ok =>
    refine .inl ⟨db₁, by rw [on_bind_ok hpre]; rfl, hof.holds, fun y hy hin h1 h2 => ?_⟩
    obtain ⟨m, hm, hone⟩ := hcov rfl
    exact hload (.inl rfl) h.loaded m hm y hy (hone _ h1 (le_windowLast hend hin h2))

/-- A call of `get_symbol_at` in memory that returns, likewise. -/
theorem getSymbolAt_ok (hv : Answers api memorySize t) {db : Debugger V}
    (h : Cached memorySize t db) {addr : VmPtr} (ha : addr < memorySize)
    (hend : addr.toNat + 128 ≤ UInt64.size) {id : VmSym} {db' : Debugger V}
    (hrun : (getSymbolAt api addr).on db = (.ok id, db')) :
    id = db'.symsPos[addr]?.getD vmSymNull ∧ db'.toSymCache.Holds t ∧
      ∀ y ∈ t.syms, y.addr = addr → db'.toSymCache.Known y := by
  have hmem : 0 < memorySize := lt_of_le_of_lt UInt64.zero_le ha
  obtain ⟨hle, hlt⟩ := around_spec addr
  unfold getSymbolAt preloadSymbolsAround at hrun
  have hstart : (if addr < symLoadSize / 2 then 0 else addr - symLoadSize / 2).toNat + 256 ≤
      UInt64.size := by
    have h128 : (symLoadSize / 2).toNat = 128 := rfl
    split
    · decide
    · next hge =>
      have hge' := UInt64.le_iff_toNat_le.mp (not_lt.mp hge)
      rw [UInt64.toNat_sub_of_le _ _ (not_lt.mp hge), h128]
      omega
  generalize (if addr < symLoadSize / 2 then 0 else addr - symLoadSize / 2) = start at *
  have hwin : start.toNat + max symLoadSize.toNat 256 ≤ UInt64.size := hstart
  obtain ⟨r, db₁, hpre, -, -, hof, hload, hcov⟩ := preload_window hv hmem h.toCacheOf
    (lt_of_le_of_lt hle ha) (le_windowLast hwin (lt_of_le_of_lt hle ha) (by omega))
  obtain ⟨u, db₂, hpre', hrest⟩ := bind_eq_ok.mp hrun
  rw [hpre] at hpre'
  cases hpre'
  rw [on_bind_ok (on_get _)] at hrest
  cases hrest
  refine ⟨rfl, hof.holds, fun y hy hya => ?_⟩
  obtain ⟨m, hm, hone⟩ := hcov rfl
  refine hload (.inl rfl) h.loaded m hm y hy (hya ▸ hone _ hle (le_windowLast hwin ha ?_))
  exact lt_of_lt_of_le hlt (Nat.add_le_add_left (le_max_right _ _) _)

/-! ## Loads that fail -/

/-- In every run of a VM whose symbols have distinct addresses, and whose callbacks fail as they
like but never half-way in a load, every address that is recorded as loaded has its symbol, and a
query in memory that returns has every symbol of its range. -/
theorem RunWhere.symbols_kept (hv : Answers api memorySize t)
    (hdist : (t.syms.map SymbolInfos.addr).Nodup) {db₀ db : Debugger V} {es : List Event}
    (hs : Started api db₀) (hm : db₀.infos.memorySize = memorySize)
    (h : RunWhere api (fun db e => ¬ Loses api db e) db₀ es db) :
    (∀ m, db.symsRanges = some m → ∀ y ∈ t.syms, y.addr < memorySize → m.get y.addr = .ok 1 →
      db.symsPos[y.addr]? = some y.idx) ∧
    (∀ addr size ids db', addr.toNat + size.toNat ≤ memorySize.toNat →
      addr.toNat + max size.toNat 256 ≤ UInt64.size →
      (getSymbols api addr size).on db = (.ok ids, db') →
      ∀ id, t.Defines addr size id → id ∈ ids) ∧
    ∀ addr id db', addr < memorySize → addr.toNat + 128 ≤ UInt64.size →
      (getSymbolAt api addr).on db = (.ok id, db') → ∀ y ∈ t.syms, y.addr = addr → id = y.idx := by
  refine ⟨fun m hr y hy hin hone => ?_, fun addr size ids db' hin hend hrun id => ?_,
    fun addr id db' ha hend hrun y hy hya => ?_⟩
  · have hi := h.cached hv (lt_of_le_of_lt UInt64.zero_le hin) hs hm
    exact hi.holds.pos_of_known hdist hy (hi.loaded m hr y hy hone)
  · rintro ⟨y, hy, rfl, h1, h2⟩
    have hlt : y.addr < memorySize := UInt64.lt_iff_toNat_lt.mpr (by omega)
    have ha := lt_of_le_of_lt h1 hlt
    have hi := h.cached hv (lt_of_le_of_lt UInt64.zero_le ha) hs hm
    rcases getSymbols_cached hv hi ha hend with
      ⟨db₁, hrun', hh, hknown⟩ | ⟨⟨e, db₁, hrun'⟩, -⟩ <;> rw [hrun'] at hrun <;> cases hrun
    have hp := hh.pos_of_known hdist hy (hknown y hy hlt h1 (lt_of_lt_of_le h2 (by omega)))
    have hmax := memorySize.toNat_lt
    refine mem_symsIn.mpr ⟨y.addr, h1, ?_, hp⟩
    rwa [UInt64.lt_iff_toNat_lt, UInt64.toNat_add, Nat.mod_eq_of_lt (by omega)]
  · have hi := h.cached hv (lt_of_le_of_lt UInt64.zero_le ha) hs hm
    obtain ⟨rfl, hh, hknown⟩ := getSymbolAt_ok hv hi ha hend hrun
    rw [← hya, hh.pos_of_known hdist hy (hknown y hy hya)]
    rfl

/-- `tableVM` answers by its table, whatever the table. -/
theorem tableVM_answers (t : SymList) (memorySize : VmSize) :
    Answers (tableVM t.syms) memorySize t where
  symbols vm addr size ids vm' _ _ h id := by
    cases h
    simp only [List.mem_map, List.mem_filter, decide_eq_true_eq]
    exact ⟨fun ⟨y, hy, he⟩ => ⟨y, hy.1, he, hy.2⟩, fun ⟨y, hy, he, hin⟩ => ⟨y, ⟨hy, hin⟩, he⟩⟩
  infos vm id y vm' h := by
    simp only [tableVM] at h
    split at h
    · next z hf =>
      cases h
      exact ⟨List.mem_of_find?_eq_some hf, by simpa using List.find?_some hf⟩
    · cases h

/-- The symbols of `twoSyms`. -/
def loopMain : SymList := ⟨twoSyms.syms, twoSyms.ids⟩

/-- A VM with these symbols whose first call of `get_symb_infos` fails. -/
def flaky : VMApi UpdateInfos :=
  { tableVM loopMain.syms with
    getSymbInfos := fun id vm =>
      if vm.actAddr = 4 then (.error [], { vm with actAddr := 0 })
      else (tableVM loopMain.syms).getSymbInfos id vm }

theorem flaky_answers : Answers flaky 100 loopMain where
  symbols := (tableVM_answers loopMain 100).symbols
  infos vm id y vm' h := by
    simp only [flaky] at h
    split at h
    · cases h
    · exact (tableVM_answers loopMain 100).infos vm id y vm' h

theorem flaky_started : Started flaky scriptedDb := ⟨⟨.ok, 4⟩, 0, rfl⟩

/-- A failed query of one symbol loses nothing. -/
theorem RunWhere.symbols_kept_one :
    (∀ m, (((Call.getSymbolInfos 7).exec flaky).on scriptedDb).2.symsRanges = some m →
      ∀ y ∈ loopMain.syms, y.addr < 100 → m.get y.addr = .ok 1 →
        (((Call.getSymbolInfos 7).exec flaky).on scriptedDb).2.symsPos[y.addr]? = some y.idx) ∧
    (∀ (addr : VmPtr) (size : VmSize) ids db', addr.toNat + size.toNat ≤ 100 →
      addr.toNat + max size.toNat 256 ≤ UInt64.size →
      (getSymbols flaky addr size).on (((Call.getSymbolInfos 7).exec flaky).on scriptedDb).2 =
        (.ok ids, db') →
      ∀ id, loopMain.Defines addr size id → id ∈ ids) ∧
    ∀ (addr : VmPtr) id db', addr < 100 → addr.toNat + 128 ≤ UInt64.size →
      (getSymbolAt flaky addr).on (((Call.getSymbolInfos 7).exec flaky).on scriptedDb).2 =
        (.ok id, db') →
      ∀ y ∈ loopMain.syms, y.addr = addr → id = y.idx :=
  RunWhere.symbols_kept flaky_answers twoSyms.addrs flaky_started rfl
    (.step (e := .call (.getSymbolInfos 7)) .start (fun h => h)
      (.call (r := .error (.vmError [])) rfl trivial))

/-- A load that fails half-way: the window is recorded as loaded, and the symbol in it is missing
from then on. -/
theorem symbols_lost_flaky :
    Answers flaky 100 loopMain ∧ (loopMain.syms.map SymbolInfos.addr).Nodup ∧
      Started flaky scriptedDb ∧ loopMain.Defines 0 100 7 ∧
      ∃ db₁ db₂, (getSymbols flaky 0 100).on scriptedDb = (.error (.vmError []), db₁) ∧
        (getSymbols flaky 0 100).on db₁ = (.ok [], db₂) ∧
        (∃ m, db₁.symsRanges = some m ∧ m.get 40 = .ok 1) ∧ db₁.symsPos[(40 : VmPtr)]? = none :=
  ⟨flaky_answers, twoSyms.addrs, flaky_started, ⟨⟨7, lit "loop", 40⟩, by decide, rfl, by decide⟩,
    _, _, rfl, rfl, ⟨_, rfl, rfl⟩, rfl⟩

/-! ## Symbols that share an address -/

/-- The symbol callbacks of a VM with the table `t` that fail for no address in memory and for no
id of the table. -/
structure AnswersAll (api : VMApi V) (memorySize : VmSize) (t : SymList) : Prop extends
    Answers api memorySize t where
  symbolsOk : ∀ vm (addr : VmPtr) (size : VmSize), 0 < size →
    addr.toNat + size.toNat ≤ memorySize.toNat →
    ∃ ids vm', api.getSymbols addr size vm = (.ok ids, vm')
  infosOk : ∀ vm, ∀ y ∈ t.syms, ∃ z vm', api.getSymbInfos y.idx vm = (.ok z, vm')

theorem not_infosFail (hv : AnswersAll api memorySize t) {ids : List VmSym}
    (h : ∀ id ∈ ids, ∃ y ∈ t.syms, y.idx = id) (known : Std.TreeMap VmSym SymbolInfos) (vm : V) :
    ¬ InfosFail api known ids vm := by
  induction ids generalizing known vm with
  | nil => exact fun hf => hf
  | cons id ids ih =>
    have htl := ih fun id hid => h id (List.mem_cons_of_mem _ hid)
    unfold InfosFail
    split
    · exact htl known vm
    · obtain ⟨y, hy, rfl⟩ := h id List.mem_cons_self
      obtain ⟨z, vm', hcall⟩ := hv.infosOk vm y hy
      rw [hcall]
      exact htl _ vm'

theorem not_symbolsFail (hv : AnswersAll api memorySize t) (vm : V) :
    ¬ SymbolsFail api memorySize vm := by
  rintro ⟨a, l, msg, vm', hal, hl, hcall⟩
  obtain ⟨hpos, -, hin⟩ := request_in_memory hal hl
  obtain ⟨ids, vm'', hok⟩ := hv.symbolsOk vm a _ hpos hin
  rw [hcall] at hok
  cases hok

theorem not_losesSymbol (hv : AnswersAll api memorySize t) (hmem : 0 < memorySize)
    {db : Debugger V} (h : CacheOf memorySize t db) (addr : VmPtr) (size : VmSize) :
    ¬ LosesSymbol api db addr size := by
  rintro ⟨m, a, l, ids, vm', hr, htrim, hal, hcall, hfail⟩
  obtain ⟨m₀, hr₀, hwf, hmin, hmax⟩ := h.ranged
  obtain rfl : m₀ = m := Option.some.inj (hr₀.symm.trans hr)
  rw [h.size] at htrim
  have hlast : windowLast memorySize addr size < memorySize :=
    (Word.le_sub_one_iff hmem _).mp (min_le_right _ _)
  by_cases ha : addr < memorySize
  · obtain ⟨w, htrim', hspec⟩ := trimLoaded_spec hwf hmin ((le_memorySize hmem hmax _).mpr ha)
      ((le_memorySize hmem hmax _).mpr hlast)
    rw [htrim] at htrim'
    cases htrim'
    by_cases hw : addr ≤ windowLast memorySize addr size
    · obtain ⟨-, -, hll, -⟩ := hspec.2 hw
      obtain ⟨hpos, -, hin⟩ := request_in_memory hal (lt_of_le_of_lt hll hlast)
      refine not_infosFail hv (fun id hid => ?_) _ _ hfail
      obtain ⟨y, hy, hyid, -⟩ := (hv.symbols _ _ _ _ _ hpos hin hcall id).mp hid
      exact ⟨y, hy, hyid⟩
    · exact absurd hal (not_le.mpr (hspec.1 (not_le.mp hw)))
  · rw [trimLoaded, RangeMap.rangeOf_beyond (not_le.mp fun hle =>
      ha ((le_memorySize hmem hmax addr).mp hle))] at htrim
    cases htrim

/-- With such a VM the cache is right and complete in every run. -/
theorem RunWhere.cached_of_all (hv : AnswersAll api memorySize t) (hmem : 0 < memorySize)
    {C : Debugger V → Event → Prop} {db₀ db : Debugger V} {es : List Event} (hs : Started api db₀)
    (hm : db₀.infos.memorySize = memorySize) (h : RunWhere api C db₀ es db) :
    Cached memorySize t db := by
  suffices RunWhere api (fun db e => ¬ Loses api db e) db₀ es db from
    this.cached hv.toAnswers hmem hs hm
  induction h with
  | start => exact .start
  | @step es e db db' _ _ hst ih =>
    have hi := (ih.cached hv.toAnswers hmem hs hm).toCacheOf
    refine .step ih (fun hl => ?_) hst
    cases e with
    | update => exact hl
    | call k =>
      cases k with
      | getSymbols addr size => exact not_losesSymbol hv hmem hi addr size hl
      | getSymbolAt addr => exact not_losesSymbol hv hmem hi _ _ hl
      | _ => exact hl

/-- Of a new map nothing is left out. -/
theorem trimLoaded_new (hmem : 0 < memorySize) {addr last : VmPtr} (ha : addr < memorySize)
    (hl : last < memorySize) :
    trimLoaded (RangeMap.new 0 (memorySize - 1) 0) addr last = .ok (some (addr, last)) := by
  have hwf : (RangeMap.new 0 (memorySize - 1) (0 : Int)).WF := RangeMap.wf_new UInt64.zero_le 0
  obtain ⟨r, hr, h1, h2, hval⟩ :=
    rangeOf_run hwf UInt64.zero_le ((Word.le_sub_one_iff hmem _).mpr ha)
  obtain ⟨r', hr', h1', h2', hval'⟩ :=
    rangeOf_run hwf UInt64.zero_le ((Word.le_sub_one_iff hmem _).mpr hl)
  have hzero {k : VmPtr} (hk : k < memorySize) {v : Int}
      (h : (RangeMap.new 0 (memorySize - 1) (0 : Int)).get k = .ok v) : v ≠ 1 := by
    rw [get_new hmem hk] at h
    cases h
    decide
  unfold trimLoaded
  rw [hr, ok_bind, hr']
  simp only [ok_bind, hzero ha (hval addr h1 h2), hzero hl (hval' last h1' h2'), false_and, if_false]
  rfl

/-- The first query whose window wraps around does not return. -/
theorem getSymbols_wraps {db : Debugger V} (hs : Started api db)
    (hm : db.infos.memorySize = memorySize) {addr : VmPtr} {size : VmSize} (ha : addr < memorySize)
    (hend : UInt64.size < addr.toNat + max size.toNat 256) (ids : List VmSym) (db' : Debugger V) :
    (getSymbols api addr size).on db ≠ (.ok ids, db') := by
  have hmem : 0 < memorySize := lt_of_le_of_lt UInt64.zero_le ha
  have hr := (@Started.cached _ _ _ ⟨[], List.nodup_nil⟩ _ hs hmem hm).2
  have hlt : windowLast memorySize addr size < addr := windowLast_lt memorySize hend
  intro hrun
  obtain ⟨u, db₁, hpre, -⟩ := bind_eq_ok.mp hrun
  rw [preload_on hr, hm, trimLoaded_new hmem ha (lt_trans hlt ha)] at hpre
  obtain ⟨syms, db₂, -, hset⟩ := bind_eq_ok.mp hpre
  rw [RangeMap.set_empty 1 hlt] at hset
  cases hset

/-- The calls that ask for symbols. -/
def Call.IsSymbolQuery : Call → Prop
  | getSymbols .. | getSymbolAt _ | getSymbolInfos _ | findSymId _ => True
  | _ => False

/-- A symbol query that returns. -/
def QueryReturns (api : VMApi V) (db : Debugger V) : Event → Prop
  | .call k => k.IsSymbolQuery ∧ ∃ db', (k.exec api).on db = (.ok (), db')
  | .update _ => False

/-- A range in memory is listed completely after every history of symbol queries if and only if no
two of its symbols share an address, and the window that is loaded for it does not wrap around. -/
theorem getSymbols_iff_distinct (hv : AnswersAll api memorySize t) {db₀ : Debugger V}
    (hs : Started api db₀) (hm : db₀.infos.memorySize = memorySize) {addr : VmPtr} {size : VmSize}
    (ha : addr < memorySize) (hin : addr.toNat + size.toNat ≤ memorySize.toNat) :
    (∀ es db, RunWhere api (QueryReturns api) db₀ es db → ∃ ids db',
        (getSymbols api addr size).on db = (.ok ids, db') ∧
          ∀ id, id ∈ ids ↔ t.Defines addr size id) ↔
      t.Distinct addr size ∧ addr.toNat + max size.toNat 256 ≤ UInt64.size := by
  have hmem : 0 < memorySize := lt_of_le_of_lt UInt64.zero_le ha
  have hlt := memorySize.toNat_lt
  -- what a query returns when its window does not wrap around
  have hquery (hend : addr.toNat + max size.toNat 256 ≤ UInt64.size) {db : Debugger V}
      (hi : Cached memorySize t db) : ∃ db', (getSymbols api addr size).on db =
        (.ok (symsIn db'.symsPos addr (addr + size)), db') ∧
        ((∀ id, id ∈ symsIn db'.symsPos addr (addr + size) ↔ t.Defines addr size id) ↔
          t.Distinct addr size) := by
    rcases getSymbols_cached hv.toAnswers hi ha hend with ⟨db', hrun, hh, hknown⟩ | ⟨-, hf | hf⟩
    · refine ⟨db', hrun, symsIn_iff_distinct hh (by simp only [UInt64.size]; omega)
        fun y hy h1 h2 => hknown y hy ?_ h1 (by omega)⟩
      rw [UInt64.lt_iff_toNat_lt]
      omega
    · exact absurd hf (not_losesSymbol hv hmem hi.toCacheOf _ _)
    · exact absurd hf (not_symbolsFail hv _)
  constructor
  · intro hall
    obtain ⟨ids, db', hrun, hids⟩ := hall [] db₀ .start
    by_cases hend : addr.toNat + max size.toNat 256 ≤ UInt64.size
    · obtain ⟨db₁, hrun₁, hiff⟩ := hquery hend (hs.cached hmem hm).1
      rw [hrun] at hrun₁
      cases hrun₁
      exact ⟨hiff.mp hids, hend⟩
    · exact absurd hrun (getSymbols_wraps hs hm ha (not_le.mp hend) ids db')
  · rintro ⟨hd, hend⟩ es db hrun
    obtain ⟨db', hrun', hiff⟩ := hquery hend (hrun.cached_of_all hv hmem hs hm)
    exact ⟨_, db', hrun', hiff.mpr hd⟩

/-- `tableVM` fails for nothing in its table. -/
theorem tableVM_answersAll (t : SymList) (memorySize : VmSize) :
    AnswersAll (tableVM t.syms) memorySize t where
  toAnswers := tableVM_answers t memorySize
  symbolsOk _ _ _ _ _ := ⟨_, _, rfl⟩
  infosOk vm y hy := by
    simp only [tableVM]
    split
    · exact ⟨_, _, rfl⟩
    · next hf => exact absurd (List.find?_eq_none.mp hf y hy) (by simp)

/-- Two symbols in one place. -/
def aliases : SymList where
  syms := [⟨7, lit "loop", 40⟩, ⟨2, lit "main", 40⟩]
  ids := by decide

/-- Two symbols in one place, and two more after it. -/
def labels : SymList where
  syms := [⟨7, lit "loop", 40⟩, ⟨2, lit "main", 40⟩, ⟨5, lit "done", 44⟩, ⟨3, lit "exit", 52⟩]
  ids := by decide

/-- The range after that place is listed completely, its two symbols, after every history. -/
theorem getSymbols_iff_distinct_after :
    labels.Defines 41 20 5 ∧ labels.Defines 41 20 3 ∧
      ∀ es db, RunWhere (tableVM labels.syms) (QueryReturns (tableVM labels.syms)) scriptedDb es db →
        ∃ ids db', (getSymbols (tableVM labels.syms) 41 20).on db = (.ok ids, db') ∧
          ∀ id, id ∈ ids ↔ labels.Defines 41 20 id := by
  refine ⟨⟨⟨5, lit "done", 44⟩, by decide, rfl, by decide⟩,
    ⟨⟨3, lit "exit", 52⟩, by decide, rfl, by decide⟩, ?_⟩
  refine (@getSymbols_iff_distinct _ _ 100 _ (tableVM_answersAll labels 100) _ ⟨⟨.ok, 4⟩, 0, rfl⟩ rfl
    41 20 (by decide) (by decide)).mpr ⟨?_, by decide⟩
  unfold SymList.Distinct
  decide

/-- Two histories with different answers, both incomplete. -/
theorem getSymbols_aliases :
    AnswersAll (tableVM aliases.syms) 100 aliases ∧ Started (tableVM aliases.syms) scriptedDb ∧
      aliases.Defines 0 100 7 ∧ aliases.Defines 0 100 2 ∧
      (∃ db', (getSymbols (tableVM aliases.syms) 0 100).on scriptedDb = (.ok [7], db')) ∧
      ∃ db, RunWhere (tableVM aliases.syms) (QueryReturns (tableVM aliases.syms)) scriptedDb
          [.call (.getSymbolInfos 2)] db ∧
        ∃ db', (getSymbols (tableVM aliases.syms) 0 100).on db = (.ok [2], db') := by
  refine ⟨tableVM_answersAll aliases 100, ⟨⟨.ok, 4⟩, 0, rfl⟩,
    ⟨⟨7, lit "loop", 40⟩, by decide, rfl, by decide⟩,
    ⟨⟨2, lit "main", 40⟩, by decide, rfl, by decide⟩, ⟨_, rfl⟩,
    (((Call.getSymbolInfos 2).exec (tableVM aliases.syms)).on scriptedDb).2, ?_, _, rfl⟩
  exact @RunWhere.step _ _ _ _ [] _ _ _ .start ⟨trivial, _, rfl⟩ (.call (r := .ok ()) rfl trivial)

end Debugger

end Odb
