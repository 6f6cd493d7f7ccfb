import Mathlib.Data.List.Nodup
import Odb.Server.CallStack
import Odb.Utils.RangeMapRun

/-!
# The lazy symbol cache is transparent

A VM serves a fixed table of symbols (`Serves`). The debugger asks for the symbols of a part of
memory when a query needs them, and remembers which parts it asked for.

* `SymCache.Inv`: what is in the cache is in the table, and everything at a loaded address is known.
* `trimLoaded_spec`: what `_preload_symbols` leaves out is loaded.
* `preloadSymbols_ok`: after it, the window it was asked for is loaded.
* `Run.cacheInv`: the invariant holds in every run.
* `Run.symbols_transparent`: queries answer as the table does.
-/

namespace Odb

/-- A table of symbols with distinct ids and addresses, all in memory. -/
structure SymTable (memorySize : VmSize) where
  syms : List SymbolInfos
  ids : (syms.map SymbolInfos.idx).Nodup
  addrs : (syms.map SymbolInfos.addr).Nodup
  inMemory : ∀ y ∈ syms, y.addr < memorySize

namespace SymTable

variable {memorySize : VmSize} (t : SymTable memorySize)

/-- The ids of the symbols in `[addr, addr + size)`, by increasing address. -/
def query (addr : VmPtr) (size : VmSize) : List VmSym :=
  ((t.syms.filter fun y => addr ≤ y.addr ∧ y.addr < addr + size).mergeSort
    fun y z => y.addr ≤ z.addr).map SymbolInfos.idx

/-- The id of the symbol at `addr`, `VM_SYM_NULL` if there is none. -/
def queryAt (addr : VmPtr) : VmSym :=
  ((t.syms.find? fun y => y.addr = addr).map SymbolInfos.idx).getD vmSymNull

variable {t}

theorem eq_of_idx {y z : SymbolInfos} (hy : y ∈ t.syms) (hz : z ∈ t.syms) (h : y.idx = z.idx) :
    y = z := List.inj_on_of_nodup_map t.ids hy hz h

theorem eq_of_addr {y z : SymbolInfos} (hy : y ∈ t.syms) (hz : z ∈ t.syms) (h : y.addr = z.addr) :
    y = z := List.inj_on_of_nodup_map t.addrs hy hz h

/-- Symbols of the table, sorted: their addresses increase. -/
theorem increasing_mergeSort (l : List SymbolInfos) (hl : l.Sublist t.syms) :
    (l.mergeSort fun y z => y.addr ≤ z.addr).Pairwise (·.addr < ·.addr) := by
  have hle : (l.mergeSort fun y z => y.addr ≤ z.addr).Pairwise
      (fun y z => decide (y.addr ≤ z.addr) = true) := List.pairwise_mergeSort
    (fun _ _ _ h1 h2 => by simpa using le_trans (by simpa using h1) (by simpa using h2))
    (fun y z => by simpa using le_total y.addr z.addr) l
  have hne : (l.mergeSort fun y z => y.addr ≤ z.addr).Pairwise (·.addr ≠ ·.addr) := by
    refine List.pairwise_map.mp ((((List.mergeSort_perm l _).map _).nodup_iff).mpr ?_)
    exact t.addrs.sublist (hl.map _)
  refine (hle.and hne).imp fun h => ?_
  exact lt_of_le_of_ne (by simpa using h.1) h.2

end SymTable

/-- The symbol callbacks of the VM serve the table `t`: they know its ids and no other, and list
the symbols of a part of memory in any order. -/
structure Serves {V : Type} (api : VMApi V) {memorySize : VmSize} (t : SymTable memorySize) :
    Prop where
  symbols : ∀ vm (addr : VmPtr) (size : VmSize), 0 < size →
    addr.toNat + size.toNat ≤ memorySize.toNat →
    ∃ ids vm', api.getSymbols addr size vm = (.ok ids, vm') ∧
      ∀ id, id ∈ ids ↔ ∃ y ∈ t.syms, y.idx = id ∧ addr ≤ y.addr ∧
        y.addr.toNat < addr.toNat + size.toNat
  known : ∀ vm, ∀ y ∈ t.syms, ∃ vm', api.getSymbInfos y.idx vm = (.ok y, vm')
  unknown : ∀ vm id, (∀ y ∈ t.syms, y.idx ≠ id) → ∃ msg vm', api.getSymbInfos id vm = (.error msg, vm')

namespace SymCache

variable {memorySize : VmSize}

/-- The symbol `y` was loaded. -/
def Known (c : SymCache) (y : SymbolInfos) : Prop := c.mapSyms[y.idx]? = some y

/-- The cache holds symbols of the table `t`, each with its place in `_syms_pos`. -/
structure Sound (t : SymTable memorySize) (c : SymCache) : Prop where
  map : ∀ id y, c.mapSyms[id]? = some y → y ∈ t.syms ∧ y.idx = id
  pos : ∀ addr id, c.symsPos[addr]? = some id ↔
    ∃ y ∈ t.syms, c.Known y ∧ y.addr = addr ∧ y.idx = id

/-- The invariant: every symbol at a loaded address (value 1 in `_syms_ranges`) is known. -/
structure Inv (t : SymTable memorySize) (c : SymCache) : Prop extends Sound t c where
  ranges : ∃ m, c.symsRanges = some m ∧ m.WF ∧ m.minKey = 0 ∧ m.maxKey = memorySize - 1 ∧
    ∀ y ∈ t.syms, m.get y.addr = .ok 1 → c.Known y

/-- The addresses `[addr, last]` are loaded. -/
def Covers (c : SymCache) (addr last : VmPtr) : Prop :=
  ∃ m, c.symsRanges = some m ∧ ∀ k, addr ≤ k → k ≤ last → m.get k = .ok 1

/-- What `_load_symbol` adds to the members. -/
def add (c : SymCache) (y : SymbolInfos) : SymCache :=
  { c with
    mapSyms := c.mapSyms.insertIfNew y.idx y
    smapSyms := c.smapSyms.insertIfNew y.name y.idx
    symsPos := c.symsPos.insertIfNew y.addr y.idx }

/-- `emplace` adds an entry if there is none with the key. -/
theorem getElem?_emplace {K T : Type} [Ord K] [Std.TransOrd K] [Std.LawfulEqOrd K]
    (m : Std.TreeMap K T) (k a : K) (v w : T) :
    (m.insertIfNew k v)[a]? = some w ↔
      (k = a ∧ m[a]? = none ∧ v = w) ∨ m[a]? = some w := by
  simp only [Std.TreeMap.getElem?_insertIfNew, Std.LawfulEqCmp.compare_eq_iff_eq]
  by_cases hk : k = a
  · subst hk
    by_cases hm : k ∈ m
    · obtain ⟨v', hv'⟩ := Option.isSome_iff_exists.mp (Std.TreeMap.mem_iff_isSome_getElem?.mp hm)
      simp [hm]
    · simp [hm]
  · simp [hk]

theorem known_add {c : SymCache} {y : SymbolInfos} (hy : c.mapSyms[y.idx]? = none) :
    (c.add y).Known y := (getElem?_emplace _ _ _ _ _).mpr (.inl ⟨rfl, hy, rfl⟩)

theorem Known.add {c : SymCache} {y z : SymbolInfos} (hz : c.Known z) : (c.add y).Known z :=
  (getElem?_emplace _ _ _ _ _).mpr (.inr hz)

theorem Sound.add {t : SymTable memorySize} {c : SymCache} (h : Sound t c) {y : SymbolInfos}
    (hy : y ∈ t.syms) (hn : c.mapSyms[y.idx]? = none) : Sound t (c.add y) where
  map id z hz := by
    rcases (getElem?_emplace _ _ _ _ _).mp hz with ⟨rfl, -, rfl⟩ | hz
    · exact ⟨hy, rfl⟩
    · exact h.map id z hz
  pos addr id := by
    refine (getElem?_emplace _ _ _ _ _).trans ⟨?_, ?_⟩
    · rintro (⟨rfl, -, rfl⟩ | hpos)
      · exact ⟨y, hy, known_add hn, rfl, rfl⟩
      · obtain ⟨z, hz, hk, e⟩ := (h.pos addr id).mp hpos
        exact ⟨z, hz, hk.add, e⟩
    · rintro ⟨z, hz, hk, rfl, rfl⟩
      rcases (getElem?_emplace _ _ _ _ _).mp hk with ⟨-, -, rfl⟩ | hk
      · -- a symbol already at this address would be `y` itself, which is not known
        refine .inl ⟨rfl, ?_, rfl⟩
        cases hpos : c.symsPos[y.addr]? with
        | none => rfl
        | some id =>
          obtain ⟨w, hw, hkw, he, -⟩ := (h.pos _ _).mp hpos
          rw [SymTable.eq_of_addr hw hy he, Known, hn] at hkw
          cases hkw
      · exact .inr ((h.pos _ _).mpr ⟨z, hz, hk, rfl, rfl⟩)

end SymCache

namespace Debugger

open Prog

variable {V : Type} {api : VMApi V} {memorySize : VmSize} {t : SymTable memorySize}

/-! ## What is left to load -/

/-- The range that `range_of` finds: all its keys have its value. -/
theorem rangeOf_run {m : RangeMap Int} (hm : m.WF) {key : VmPtr} (h1 : m.minKey ≤ key)
    (h2 : key ≤ m.maxKey) :
    ∃ r, m.rangeOf key = .ok r ∧ r.low ≤ key ∧ key ≤ r.high ∧
      ∀ k, r.low ≤ k → k ≤ r.high → m.get k = .ok r.val := by
  obtain ⟨pre, n, post, he, hr, hlow, hhigh⟩ := RangeMap.rangeOf_spec hm h1 h2
  exact ⟨_, hr, hlow, hhigh, (RangeMap.isRun_mid hm he).get_eq⟩

/-- What `_preload_symbols` leaves out of `[addr, last]` is loaded, and it never asks for more. If
`last` wrapped around below `addr`, so does what is left. -/
theorem trimLoaded_spec {m : RangeMap Int} (hm : m.WF) (hmin : m.minKey = 0) {addr last : VmPtr}
    (h1 : addr ≤ m.maxKey) (h2 : last ≤ m.maxKey) :
    ∃ w, trimLoaded m addr last = .ok w ∧
      match w with
      | none => ∀ k, addr ≤ k → k ≤ last → m.get k = .ok 1
      | some (a, l) => (last < addr → l < a) ∧ (addr ≤ last → addr ≤ a ∧ a ≤ l ∧ l ≤ last ∧
          ∀ k, addr ≤ k → k ≤ last → k < a ∨ l < k → m.get k = .ok 1) := by
  have h0 : ∀ k, m.minKey ≤ k := fun k => by rw [hmin]; exact UInt64.zero_le
  obtain ⟨r, hr, hlow, hhigh, hval⟩ := rangeOf_run hm (h0 addr) h1
  obtain ⟨r', hr', hlow', hhigh', hval'⟩ := rangeOf_run hm (h0 last) h2
  unfold trimLoaded
  rw [hr, ok_bind, hr']
  simp only [ok_bind]
  -- the part below `a` is loaded, and no more is left if `a` is beyond `last`
  obtain ⟨a, ha, hlo, hnone⟩ : ∃ a, (if r.val = 1 then r.high + 1 else addr) = a ∧
      (¬ (r.val = 1 ∧ (a = 0 ∨ last < a)) → addr ≤ a ∧ (addr ≤ last → a ≤ last) ∧
        ∀ k, addr ≤ k → k < a → m.get k = .ok 1) ∧
      (r.val = 1 ∧ (a = 0 ∨ last < a) → ∀ k, addr ≤ k → k ≤ last → m.get k = .ok 1) := by
    refine ⟨_, rfl, ?_⟩
    have := Word.succ_cases r.high
    by_cases hv : r.val = 1 <;> grind
  obtain ⟨l, hl, hhi, hnone'⟩ : ∃ l, (if r'.val = 1 then r'.low - 1 else last) = l ∧
      (¬ (r'.val = 1 ∧ (r'.low = 0 ∨ l < a)) → l ≤ last ∧ (a ≤ last → a ≤ l) ∧
        ∀ k, l < k → k ≤ last → m.get k = .ok 1) ∧
      (r'.val = 1 ∧ (r'.low = 0 ∨ l < a) → ∀ k, a ≤ k → k ≤ last → m.get k = .ok 1) := by
    refine ⟨_, rfl, ?_⟩
    have := Word.pred_cases r'.low
    by_cases hv : r'.val = 1 <;> grind
  simp only [ha, hl]
  split
  · next h => exact ⟨none, rfl, hnone h⟩
  · next h =>
    obtain ⟨hle, hle', hload⟩ := hlo h
    split
    · next h' =>
      refine ⟨none, rfl, fun k hk hk' => ?_⟩
      by_cases hka : k < a
      · exact hload k hk hka
      · exact hnone' h' k (UInt64.not_lt.mp hka) hk'
    · next h' =>
      obtain ⟨hll, hll', hload'⟩ := hhi h'
      refine ⟨some (a, l), rfl, fun hlt => ?_, fun hal => ⟨hle, hll' (hle' hal), hll, ?_⟩⟩
      · exact lt_of_le_of_lt hll (lt_of_lt_of_le hlt hle)
      · rintro k hk hk' (hka | hkl)
        · exact hload k hk hka
        · exact hload' k hkl hk'

/-! ## Loading a symbol -/

/-- `_load_symbol` of an id: it is known after, or the call throws and loads nothing. -/
theorem loadSymbol_spec (hv : Serves api t) {db : Debugger V} (h : db.toSymCache.Sound t)
    (id : VmSym) :
    (∃ y ∈ t.syms, y.idx = id ∧ ∃ db', (loadSymbol api id).on db = (.ok (), db') ∧
      db'.toSymCache.Sound t ∧ db'.toSymCache.Known y ∧
      (∀ z, db.toSymCache.Known z → db'.toSymCache.Known z) ∧
      db'.symsRanges = db.symsRanges ∧ db'.toDbControl = db.toDbControl) ∨
    ((∀ y ∈ t.syms, y.idx ≠ id) ∧ ∃ msg vm', (loadSymbol api id).on db =
      (.error (.vmError msg), { db with vm := vm' })) := by
  unfold loadSymbol
  rw [on_bind_ok (on_get db)]
  by_cases hid : id ∈ db.mapSyms
  · rw [if_pos hid]
    obtain ⟨y, hy⟩ := Option.isSome_iff_exists.mp (Std.TreeMap.mem_iff_isSome_getElem?.mp hid)
    obtain ⟨hmem, rfl⟩ := h.map id y hy
    exact .inl ⟨y, hmem, rfl, db, rfl, h, hy, fun _ hz => hz, rfl, rfl⟩
  · have hnone := Std.TreeMap.getElem?_eq_none hid
    rw [if_neg hid, on_bind]
    by_cases hy : ∃ y ∈ t.syms, y.idx = id
    · obtain ⟨y, hmem, rfl⟩ := hy
      obtain ⟨vm', hc⟩ := hv.known db.vm y hmem
      refine .inl ⟨y, hmem, rfl, { db with vm := vm', toSymCache := db.toSymCache.add y }, ?_,
        h.add hmem hnone, SymCache.known_add hnone, fun z hz => hz.add, rfl, rfl⟩
      simp only [callVM, on_of, hc, Except.mapError, on_modify]
      rfl
    · have hno : ∀ y ∈ t.syms, y.idx ≠ id := fun y hy' he => hy ⟨y, hy', he⟩
      obtain ⟨msg, vm', hc⟩ := hv.unknown db.vm id hno
      refine .inr ⟨hno, msg, vm', ?_⟩
      simp only [callVM, on_of, hc, Except.mapError]

/-- Loading symbols of the table one after the other: all are known after. -/
theorem loadSymbols_spec (hv : Serves api t) (ids : List VmSym)
    (hids : ∀ id ∈ ids, ∃ y ∈ t.syms, y.idx = id) {db : Debugger V}
    (h : db.toSymCache.Sound t) :
    ∃ db', (ids.forM (loadSymbol api)).on db = (.ok (), db') ∧ db'.toSymCache.Sound t ∧
      (∀ y ∈ t.syms, y.idx ∈ ids → db'.toSymCache.Known y) ∧
      (∀ z, db.toSymCache.Known z → db'.toSymCache.Known z) ∧
      db'.symsRanges = db.symsRanges ∧ db'.toDbControl = db.toDbControl := by
  induction ids generalizing db with
  | nil => exact ⟨db, rfl, h, by simp, fun _ hz => hz, rfl, rfl⟩
  | cons id ids ih =>
    obtain ⟨w, hw, hwid⟩ := hids id (by simp)
    rcases loadSymbol_spec hv h id with ⟨y, hy, hyid, db₁, hrun, h₁, hk, hmono, hr, hc⟩ | ⟨hno, -⟩
    · obtain ⟨db', hrun', h', hk', hmono', hr', hc'⟩ := ih (fun i hi => hids i (by simp [hi])) h₁
      refine ⟨db', ?_, h', fun z hz hzid => ?_, fun z hz => hmono' z (hmono z hz),
        hr'.trans hr, hc'.trans hc⟩
      · rw [List.forM_eq_forM, List.forM_cons, on_bind_ok hrun]
        exact hrun'
      · rcases List.mem_cons.mp hzid with hzid | hzid
        · rw [SymTable.eq_of_idx hz hy (hzid.trans hyid.symm)]
          exact hmono' y hk
        · exact hk' z hz hzid
    · exact absurd hwid (hno w hw)

/-! ## Preloading a window -/

/-- The last address of the window of a query, clipped to memory. -/
def windowLast (memorySize : VmSize) (addr : VmPtr) (size : VmSize) : VmPtr :=
  min (addr + max size symLoadSize - 1) (memorySize - 1)

/-- The debugger has the VM infos of the table, and its cache is right. -/
structure CacheInv (t : SymTable memorySize) (db : Debugger V) : Prop where
  memorySize : db.infos.memorySize = memorySize
  inv : db.toSymCache.Inv t

theorem le_memorySize {m : RangeMap Int} (hmem : 0 < memorySize) (hmax : m.maxKey = memorySize - 1)
    (k : VmPtr) : k ≤ m.maxKey ↔ k < memorySize := by
  rw [hmax]
  exact Word.le_sub_one_iff hmem k

/-- A request for the addresses `[a, l]` in memory. -/
theorem request_in_memory {a l : VmPtr} (h : a ≤ l) (hl : l < memorySize) :
    0 < l - a + 1 ∧ a.toNat + (l - a + 1).toNat = l.toNat + 1 ∧
      a.toNat + (l - a + 1).toNat ≤ memorySize.toNat := by
  have hsub : (l - a).toNat = l.toNat - a.toNat := UInt64.toNat_sub_of_le _ _ h
  rw [UInt64.le_iff_toNat_le] at h
  rw [UInt64.lt_iff_toNat_lt] at hl
  have hlt := memorySize.toNat_lt
  have hadd : (l - a + 1).toNat = l.toNat - a.toNat + 1 := by
    rw [UInt64.toNat_add, hsub, UInt64.toNat_one]
    omega
  refine ⟨?_, by omega, by omega⟩
  rw [UInt64.lt_iff_toNat_lt, hadd, UInt64.toNat_zero]
  omega

/-- The call of the VM for the addresses `[a, l]`, and what follows it: all of them are loaded. -/
theorem loadWindow_spec (hv : Serves api t) (hmem : 0 < memorySize) {db : Debugger V}
    (h : db.toSymCache.Inv t) {m : RangeMap Int} (hr : db.symsRanges = some m) {a l : VmPtr}
    (hal : a ≤ l) (hl : l < memorySize) :
    ∃ db' m', (loadWindow api m a l).on db = (.ok (), db') ∧
      db'.toSymCache.Inv t ∧ db'.symsRanges = some m' ∧
      ∀ k < memorySize, m'.get k = if a ≤ k ∧ k ≤ l then .ok 1 else m.get k := by
  obtain ⟨m₀, hr₀, hwf, hmin, hmax, hload⟩ := h.ranges
  obtain rfl : m₀ = m := Option.some.inj (hr₀.symm.trans hr)
  have h0 : ∀ k, m₀.minKey ≤ k := fun k => by rw [hmin]; exact UInt64.zero_le
  obtain ⟨hpos, hend, hin⟩ := request_in_memory hal hl
  obtain ⟨ids, vm', hcall, hids⟩ := hv.symbols db.vm a (l - a + 1) hpos hin
  obtain ⟨m', hset, hwf', hmin', hmax', hget⟩ := RangeMap.get_set hwf 1 (h0 a) hal
    ((le_memorySize hmem hmax l).mpr hl)
  have hget' : ∀ k < memorySize, m'.get k = if a ≤ k ∧ k ≤ l then .ok 1 else m₀.get k :=
    fun k hk => hget k (h0 k) ((le_memorySize hmem hmax k).mpr hk)
  have hsound : ({ db with vm := vm', symsRanges := some m' } : Debugger V).toSymCache.Sound t :=
    ⟨h.map, h.pos⟩
  obtain ⟨db', hrun, hsound, hknown, hmono, hr', -⟩ := loadSymbols_spec hv ids
    (fun id hid => by
      obtain ⟨y, hy, hyid, -⟩ := (hids id).mp hid
      exact ⟨y, hy, hyid⟩) hsound
  refine ⟨db', m', ?_, ⟨hsound, m', hr', hwf', hmin'.trans hmin, hmax'.trans hmax, ?_⟩, hr', hget'⟩
  · rw [loadWindow, on_bind_ok (callVM_eq_ok.mpr ⟨vm', hcall, rfl⟩), hset]
    exact hrun
  · intro y hy hone
    rw [hget' _ (t.inMemory y hy)] at hone
    split at hone
    · next hin =>
      refine hknown y hy ((hids _).mpr ⟨y, hy, rfl, hin.1, ?_⟩)
      have := UInt64.le_iff_toNat_le.mp hin.2
      omega
    · exact hmono y (hload y hy hone)

/-- `_preload_symbols` by what is left to load of its window. -/
theorem preloadSymbols_on {db : Debugger V} (h : CacheInv t db) {m : RangeMap Int}
    (hr : db.symsRanges = some m) (addr : VmPtr) (size : VmSize) :
    (preloadSymbols api addr size).on db =
      match trimLoaded m addr (windowLast memorySize addr size) with
      | .ok none => (.ok (), db)
      | .ok (some (a, l)) => (loadWindow api m a l).on db
      | .error e => (.error e, db) := by
  have href : (symsRangesRef : DbM V _).on db = (.ok m, db) := by
    unfold symsRangesRef
    rw [on_bind_ok (on_get db), hr]
    rfl
  unfold preloadSymbols
  rw [on_bind_ok (on_get db), on_bind_ok href, h.memorySize]
  show ((Prog.lift (trimLoaded m addr (windowLast memorySize addr size)) >>= _ :
    DbM V Unit).on db) = _
  rcases trimLoaded m addr (windowLast memorySize addr size) with e | (_ | ⟨a, l⟩) <;> rfl

/-- `_preload_symbols` of a window in memory returns, and everything in it is loaded after. -/
theorem preloadSymbols_ok (hv : Serves api t) (hmem : 0 < memorySize) {db : Debugger V}
    (h : CacheInv t db) {addr : VmPtr} {size : VmSize} (ha : addr < memorySize)
    (hw : addr ≤ windowLast memorySize addr size) :
    ∃ db', (preloadSymbols api addr size).on db = (.ok (), db') ∧ db'.toSymCache.Inv t ∧
      db'.toSymCache.Covers addr (windowLast memorySize addr size) := by
  obtain ⟨m, hr, hwf, hmin, hmax, hload⟩ := h.inv.ranges
  have hlast : windowLast memorySize addr size < memorySize :=
    (Word.le_sub_one_iff hmem _).mp (min_le_right _ _)
  obtain ⟨w, htrim, hspec⟩ := trimLoaded_spec hwf hmin ((le_memorySize hmem hmax _).mpr ha)
    ((le_memorySize hmem hmax _).mpr hlast)
  rw [preloadSymbols_on h hr, htrim]
  match w, hspec with
  | none, hall => exact ⟨db, rfl, h.inv, m, hr, hall⟩
  | some (a, l), hspec =>
    obtain ⟨haa, hal, hll, hrest⟩ := hspec.2 hw
    obtain ⟨db', m', hrun, hinv, hr', hget⟩ := loadWindow_spec hv hmem h.inv hr hal
      (lt_of_le_of_lt hll hlast)
    refine ⟨db', hrun, hinv, m', hr', fun k hk hk' => ?_⟩
    rw [hget k (lt_of_le_of_lt hk' hlast)]
    split
    · rfl
    · next hout =>
      refine hrest k hk hk' ?_
      by_contra hin
      rw [not_or, not_lt, not_lt] at hin
      exact hout hin

/-- `_preload_symbols` of any window: if the call is survived, the cache is right. -/
theorem preloadSymbols_inv (hv : Serves api t) (hmem : 0 < memorySize) {db : Debugger V}
    (h : CacheInv t db) (addr : VmPtr) (size : VmSize) {r : Except Fault Unit} {db' : Debugger V}
    (hrun : (preloadSymbols api addr size).on db = (r, db')) (hs : Survived r) :
    db'.toSymCache.Inv t := by
  by_cases hin : addr < memorySize ∧ addr ≤ windowLast memorySize addr size
  · obtain ⟨db₁, hok, hinv, -⟩ := preloadSymbols_ok hv hmem h hin.1 hin.2
    rw [hok] at hrun
    obtain rfl := (Prod.mk.inj hrun).2
    exact hinv
  obtain ⟨m, hr, hwf, hmin, hmax, -⟩ := h.inv.ranges
  rw [preloadSymbols_on h hr] at hrun
  by_cases ha : addr < memorySize
  · -- the window wraps around, and so does the request, which `set` does not accept
    have hlast : windowLast memorySize addr size < memorySize :=
      (Word.le_sub_one_iff hmem _).mp (min_le_right _ _)
    obtain ⟨w, htrim, hspec⟩ := trimLoaded_spec hwf hmin ((le_memorySize hmem hmax _).mpr ha)
      ((le_memorySize hmem hmax _).mpr hlast)
    have hwrap : windowLast memorySize addr size < addr := not_le.mp fun hle => hin ⟨ha, hle⟩
    rw [htrim] at hrun
    match w, hspec with
    | none, _ =>
      obtain rfl := (Prod.mk.inj hrun).2
      exact h.inv
    | some (a, l), hspec =>
      have hset := RangeMap.set_empty (m := m) 1 (hspec.1 hwrap)
      simp only [loadWindow, on_bind, callVM, on_of, hset, on_lift] at hrun
      rcases hc : api.getSymbols a (l - a + 1) db.vm with ⟨_ | ids, vm'⟩ <;>
        simp only [hc, Except.mapError] at hrun
      · obtain rfl := (Prod.mk.inj hrun).2
        exact h.inv
      · rw [← (Prod.mk.inj hrun).1] at hs
        exact hs.elim
  · have htrim : trimLoaded m addr (windowLast memorySize addr size) = .error .assertFail := by
      rw [trimLoaded, RangeMap.rangeOf_beyond (not_le.mp fun hle =>
        ha ((le_memorySize hmem hmax addr).mp hle))]
      rfl
    rw [htrim] at hrun
    rw [← (Prod.mk.inj hrun).1] at hs
    exact hs.elim

/-! ## The invariant over a run -/

/-- What is kept when a call returns or throws a `VMApi::Error`. -/
def KeepsCache (t : SymTable memorySize) {α : Type} (c : DbM V α) : Prop :=
  Spec (CacheInv t) c (fun _ => CacheInv t) (fun e db => Survived (.error e) → CacheInv t db)

theorem keepsCache_iff {t : SymTable memorySize} {α : Type} {c : DbM V α} :
    KeepsCache t c ↔
      KeepsSyms (fun p => p.1.memorySize = memorySize ∧ p.2.Inv t) (fun _ => True) c :=
  ⟨fun h => Spec.conseq h (fun _ hi => ⟨hi.1.1, hi.1.2⟩) (fun _ _ hi => ⟨hi.memorySize, hi.inv⟩)
      fun _ _ hi hs => ⟨(hi hs).memorySize, (hi hs).inv⟩,
    fun h => Spec.conseq h (fun _ hi => ⟨⟨hi.memorySize, hi.inv⟩, trivial⟩)
      (fun _ _ hi => ⟨hi.1, hi.2⟩) fun _ _ hi hs => ⟨(hi hs).1, (hi hs).2⟩⟩

theorem keepsCache_preloadSymbols (hv : Serves api t) (hmem : 0 < memorySize) (addr : VmPtr)
    (size : VmSize) : KeepsCache t (preloadSymbols api addr size) := by
  intro db hi
  have hc := keeps_preloadSymbols api ignoresSyms_control addr size db
  rcases h : (preloadSymbols api addr size).on db with ⟨e | u, db'⟩ <;> rw [h] at hc
  · exact fun hs => ⟨hc ▸ hi.memorySize, preloadSymbols_inv hv hmem hi addr size h hs⟩
  · exact ⟨hc ▸ hi.memorySize, preloadSymbols_inv hv hmem hi addr size h trivial⟩

theorem keepsCache_loadSymbol (hv : Serves api t) (id : VmSym) :
    KeepsCache t (loadSymbol api id) := by
  intro db hi
  obtain ⟨m, hr, hwf, hmin, hmax, hload⟩ := hi.inv.ranges
  rcases loadSymbol_spec hv hi.inv.toSound id with
    ⟨y, -, -, db', hrun, hsound, -, hmono, hr', hc⟩ | ⟨-, msg, vm', hrun⟩
  · rw [hrun]
    exact ⟨hc ▸ hi.memorySize, hsound, m, hr'.trans hr, hwf, hmin, hmax,
      fun z hz hone => hmono z (hload z hz hone)⟩
  · rw [hrun]
    exact fun _ => ⟨hi.memorySize, hi.inv⟩

/-- Where `on_init` leaves the cache: nothing is loaded. -/
theorem Started.cacheInv {db : Debugger V} (hs : Started api db) (hmem : 0 < memorySize)
    (hm : db.infos.memorySize = memorySize) : CacheInv t db := by
  obtain ⟨-, -, -, hcache⟩ := hs.members
  rw [hm] at hcache
  refine ⟨hm, ?_⟩
  rw [hcache]
  refine ⟨⟨by simp, by simp [SymCache.Known]⟩, _, rfl, RangeMap.wf_new UInt64.zero_le 0, rfl, rfl, ?_⟩
  intro y hy hone
  have hle : y.addr ≤ memorySize - 1 := (Word.le_sub_one_iff hmem _).mpr (t.inMemory y hy)
  have := RangeMap.get_eq (RangeMap.wf_new UInt64.zero_le 0) (UInt64.zero_le (a := y.addr)) hle
    (RangeMap.new_value (0 : Int) UInt64.zero_le)
  simp [this] at hone

/-- The cache is right in every run, whatever is called in it. -/
theorem Run.cacheInv (hv : Serves api t) (hmem : 0 < memorySize) {db₀ db : Debugger V}
    {es : List Event} (hs : Started api db₀) (hm : db₀.infos.memorySize = memorySize)
    (h : Run api db₀ es db) : CacheInv t db := by
  have h₀ := hs.cacheInv (t := t) hmem hm
  have hi := h.runWhere.keepsSyms (W := fun _ _ _ => True)
    (fun addr size => keepsCache_iff.mp (keepsCache_preloadSymbols hv hmem addr size))
    (fun id => keepsCache_iff.mp (keepsCache_loadSymbol hv id))
    (fun _ k _ => by cases k <;> trivial) ⟨h₀.memorySize, h₀.inv⟩
  exact ⟨hi.1, hi.2⟩

/-! ## What the queries return -/

/-- Two lists of pairs with increasing keys and the same members are equal. -/
theorem eq_of_increasing {l₁ l₂ : List (VmPtr × VmSym)} (h₁ : l₁.Pairwise (·.1 < ·.1))
    (h₂ : l₂.Pairwise (·.1 < ·.1)) (h : ∀ p, p ∈ l₁ ↔ p ∈ l₂) : l₁ = l₂ := by
  have hnd : ∀ {l : List (VmPtr × VmSym)}, l.Pairwise (·.1 < ·.1) → l.Nodup := fun hl =>
    hl.imp fun hlt he => absurd (he ▸ hlt) (lt_irrefl _)
  refine ((List.perm_ext_iff_of_nodup (hnd h₁) (hnd h₂)).mpr h).eq_of_pairwise ?_ h₁ h₂
  intro p q _ _ hpq hqp
  exact absurd hpq (lt_asymm hqp)

theorem takeWhile_eq_filter {last : VmPtr} {l : List (VmPtr × VmSym)}
    (h : l.Pairwise (·.1 < ·.1)) :
    l.takeWhile (fun p => p.1 < last) = l.filter fun p => p.1 < last := by
  induction l with
  | nil => rfl
  | cons p l ih =>
    obtain ⟨hp, hl⟩ := List.pairwise_cons.mp h
    by_cases hlt : p.1 < last
    · simp [hlt, ih hl]
    · have : l.filter (fun p => p.1 < last) = [] :=
        List.filter_eq_nil_iff.mpr fun q hq hlt' =>
          hlt (lt_trans (hp q hq) (by simpa using hlt'))
      simp [hlt, this]

theorem dropWhile_eq_filter {addr : VmPtr} {l : List (VmPtr × VmSym)}
    (h : l.Pairwise (·.1 < ·.1)) :
    l.dropWhile (fun p => p.1 < addr) = l.filter fun p => addr ≤ p.1 := by
  induction l with
  | nil => rfl
  | cons p l ih =>
    obtain ⟨hp, hl⟩ := List.pairwise_cons.mp h
    by_cases hlt : p.1 < addr
    · simp [hlt, ih hl, not_le.mpr hlt]
    · have : l.filter (fun p => addr ≤ p.1) = l :=
        List.filter_eq_self.mpr fun q hq => by
          simpa using le_trans (not_lt.mp hlt) (le_of_lt (hp q hq))
      simp [hlt, this, not_lt.mp hlt]

/-- The loop of `get_symbols` over the entries with keys in `[addr, last)`. -/
theorem symsIn_eq (pos : Std.TreeMap VmPtr VmSym) (addr last : VmPtr) :
    symsIn pos addr last =
      (pos.toList.filter fun p => addr ≤ p.1 ∧ p.1 < last).map Prod.snd := by
  have hs : pos.toList.Pairwise (·.1 < ·.1) :=
    pos.ordered_keys_toList.imp fun h => Std.compare_eq_lt.mp h
  rw [symsIn, dropWhile_eq_filter hs, takeWhile_eq_filter (hs.sublist List.filter_sublist),
    List.filter_filter]
  simp only [Bool.decide_and, Bool.and_comm]

/-- A cache that knows the symbols of the table in `[addr, addr + size)` answers as the table. -/
theorem symsIn_eq_query {c : SymCache} (h : c.Sound t) {addr : VmPtr} {size : VmSize}
    (hknown : ∀ y ∈ t.syms, addr ≤ y.addr → y.addr < addr + size → c.Known y) :
    symsIn c.symsPos addr (addr + size) = t.query addr size := by
  rw [symsIn_eq, SymTable.query]
  have hsnd : ∀ l : List SymbolInfos,
      l.map SymbolInfos.idx = (l.map fun y => (y.addr, y.idx)).map Prod.snd := by simp
  rw [hsnd]
  refine congrArg _ (eq_of_increasing ?_ ?_ fun p => ?_)
  · exact (c.symsPos.ordered_keys_toList.imp fun h => Std.compare_eq_lt.mp h).sublist
      List.filter_sublist
  · exact List.pairwise_map.mpr (SymTable.increasing_mergeSort _ List.filter_sublist)
  · obtain ⟨a, i⟩ := p
    rw [List.mem_filter, Std.TreeMap.mem_toList_iff_getElem?_eq_some, h.pos]
    simp only [List.mem_map, List.mem_mergeSort, List.mem_filter, decide_eq_true_eq, Prod.mk.injEq]
    constructor
    · rintro ⟨⟨y, hy, -, rfl, rfl⟩, hin⟩
      exact ⟨y, ⟨hy, hin⟩, rfl, rfl⟩
    · rintro ⟨y, ⟨hy, hin⟩, rfl, rfl⟩
      exact ⟨⟨y, hy, hknown y hy hin.1 hin.2, rfl, rfl⟩, hin⟩

/-- The window of a query in memory does not wrap around and holds what is asked for. -/
theorem windowLast_spec {addr k : VmPtr} {size : VmSize} (ha : addr < memorySize)
    (hmax : memorySize.toNat ≤ UInt64.size - 256) (hsize : addr.toNat + size.toNat < UInt64.size)
    (hk : k < memorySize) (hle : k = addr ∨ k.toNat < addr.toNat + size.toNat ∨
      k.toNat < addr.toNat + 256) : k ≤ windowLast memorySize addr size := by
  have ha' := UInt64.lt_iff_toNat_lt.mp ha
  have hbig : (max size symLoadSize).toNat = max size.toNat 256 := by
    rw [max_def]
    split
    · next h => exact (max_eq_right (UInt64.le_iff_toNat_le.mp h)).symm
    · next h => exact (max_eq_left (le_of_lt (UInt64.lt_iff_toNat_lt.mp (not_le.mp h)))).symm
  have hadd : (addr + max size symLoadSize).toNat = addr.toNat + max size.toNat 256 := by
    rw [UInt64.toNat_add, hbig]
    simp only [UInt64.size] at hmax hsize
    omega
  refine le_min ?_ ((Word.le_sub_one_iff (lt_of_le_of_lt UInt64.zero_le hk) k).mpr hk)
  refine (Word.le_sub_one_iff (a := addr) ?_ k).mpr ?_
  · rw [UInt64.lt_iff_toNat_lt, hadd]
    omega
  · rw [UInt64.lt_iff_toNat_lt, hadd]
    rcases hle with rfl | hle | hle <;> omega

/-- A cache that knows the symbol at `addr`, if there is one, answers as the table. -/
theorem symsPos_eq_queryAt {c : SymCache} (h : c.Sound t) {addr : VmPtr}
    (hknown : ∀ y ∈ t.syms, y.addr = addr → c.Known y) :
    c.symsPos[addr]?.getD vmSymNull = t.queryAt addr := by
  rw [SymTable.queryAt]
  cases hf : t.syms.find? (fun y => y.addr = addr) with
  | some y =>
    have hy := List.mem_of_find?_eq_some hf
    have ha : y.addr = addr := by simpa using List.find?_some hf
    rw [(h.pos addr y.idx).mpr ⟨y, hy, hknown y hy ha, ha, rfl⟩]
    rfl
  | none =>
    cases hp : c.symsPos[addr]? with
    | none => rfl
    | some id =>
      obtain ⟨y, hy, -, ha, -⟩ := (h.pos addr id).mp hp
      exact absurd ha (by simpa using List.find?_eq_none.mp hf y hy)

/-- The window of `get_symbol_at` begins at most 128 bytes before the address. -/
theorem around_spec (addr : VmPtr) :
    (if addr < symLoadSize / 2 then 0 else addr - symLoadSize / 2) ≤ addr ∧
      addr.toNat < (if addr < symLoadSize / 2 then 0 else addr - symLoadSize / 2).toNat + 256 := by
  have h128 : (symLoadSize / 2).toNat = 128 := rfl
  split
  · next h =>
    rw [UInt64.lt_iff_toNat_lt, h128] at h
    refine ⟨UInt64.zero_le, ?_⟩
    rw [UInt64.toNat_zero]
    omega
  · next h =>
    have hle := UInt64.le_iff_toNat_le.mp (not_lt.mp h)
    rw [UInt64.le_iff_toNat_le, UInt64.toNat_sub_of_le _ _ (not_lt.mp h), h128] at *
    omega

/-- After any run, with any other calls in it, the symbol queries in memory answer exactly as the
whole table does. -/
theorem Run.symbols_transparent (hv : Serves api t) (hmem : 0 < memorySize)
    (hmax : memorySize.toNat ≤ UInt64.size - 256) {db₀ db : Debugger V} {es : List Event}
    (hs : Started api db₀) (hm : db₀.infos.memorySize = memorySize) (h : Run api db₀ es db) :
    (∀ addr size, addr < memorySize → addr.toNat + size.toNat < UInt64.size →
      ∃ db', (getSymbols api addr size).on db = (.ok (t.query addr size), db')) ∧
    ∀ addr, addr < memorySize →
      ∃ db', (getSymbolAt api addr).on db = (.ok (t.queryAt addr), db') := by
  have hinv := h.cacheInv hv hmem hs hm
  constructor
  · intro addr size ha hsize
    obtain ⟨db', hrun, hi, m, hr, hcov⟩ := preloadSymbols_ok hv hmem hinv ha
      (windowLast_spec ha hmax hsize ha (.inl rfl))
    refine ⟨db', ?_⟩
    rw [getSymbols, on_bind_ok hrun]
    show (Except.ok (symsIn db'.symsPos addr (addr + size)), db') = _
    rw [symsIn_eq_query hi.toSound fun y hy h1 h2 => ?_]
    obtain ⟨m', hr', -, -, -, hload⟩ := hi.ranges
    obtain rfl := Option.some.inj (hr.symm.trans hr')
    refine hload y hy (hcov _ h1 (windowLast_spec ha hmax hsize (t.inMemory y hy) (.inr (.inl ?_))))
    have := UInt64.lt_iff_toNat_lt.mp h2
    rwa [UInt64.toNat_add, Nat.mod_eq_of_lt hsize] at this
  · intro addr ha
    obtain ⟨hle, hlt⟩ := around_spec addr
    have hb := lt_of_le_of_lt hle ha
    have hsize : (if addr < symLoadSize / 2 then 0 else addr - symLoadSize / 2).toNat +
        symLoadSize.toNat < UInt64.size := by
      have := UInt64.lt_iff_toNat_lt.mp hb
      have h256 : symLoadSize.toNat = 256 := rfl
      simp only [UInt64.size] at hmax ⊢
      omega
    obtain ⟨db', hrun, hi, m, hr, hcov⟩ := preloadSymbols_ok hv hmem hinv hb
      (windowLast_spec hb hmax hsize hb (.inl rfl))
    refine ⟨db', ?_⟩
    rw [getSymbolAt, preloadSymbolsAround, on_bind_ok hrun]
    show (Except.ok (db'.symsPos[addr]?.getD vmSymNull), db') = _
    rw [symsPos_eq_queryAt hi.toSound fun y hy hya => ?_]
    obtain ⟨m', hr', -, -, -, hload⟩ := hi.ranges
    obtain rfl := Option.some.inj (hr.symm.trans hr')
    exact hload y hy (hya ▸ hcov _ hle (windowLast_spec hb hmax hsize ha (.inr (.inr hlt))))

/-- The scripted VM with the symbols `syms`. -/
def tableVM (syms : List SymbolInfos) : VMApi UpdateInfos :=
  { scripted with
    getSymbols := fun addr size vm =>
      (.ok ((syms.filter fun y => addr ≤ y.addr ∧ y.addr.toNat < addr.toNat + size.toNat).map
        SymbolInfos.idx), vm)
    getSymbInfos := fun id vm =>
      match syms.find? fun y => y.idx = id with
      | some y => (.ok y, vm)
      | none => (.error [], vm) }

/-- Every table has a VM that serves it. -/
theorem tableVM_serves (t : SymTable memorySize) : Serves (tableVM t.syms) t where
  symbols vm addr size _ _ := by
    refine ⟨_, _, rfl, fun id => ?_⟩
    simp only [List.mem_map, List.mem_filter, decide_eq_true_eq]
    exact ⟨fun ⟨y, hy, he⟩ => ⟨y, hy.1, he, hy.2⟩, fun ⟨y, hy, he, hin⟩ => ⟨y, ⟨hy, hin⟩, he⟩⟩
  known vm y hy := by
    refine ⟨vm, ?_⟩
    show (match t.syms.find? (fun z => z.idx = y.idx) with | some y => _ | none => _) = _
    cases hf : t.syms.find? (fun z => z.idx = y.idx) with
    | some z =>
      rw [SymTable.eq_of_idx (List.mem_of_find?_eq_some hf) hy (by simpa using List.find?_some hf)]
    | none =>
      have := List.find?_eq_none.mp hf y hy
      simp at this
  unknown vm id hno := by
    refine ⟨[], vm, ?_⟩
    show (match t.syms.find? (fun z => z.idx = id) with | some y => _ | none => _) = _
    rw [List.find?_eq_none.mpr fun y hy => by simpa using hno y hy]

/-- Two symbols, by decreasing address. -/
def twoSyms : SymTable 100 where
  syms := [⟨7, lit "loop", 40⟩, ⟨2, lit "main", 4⟩]
  ids := by decide
  addrs := by decide
  inMemory := by decide

/-- A query after a query of an unknown id. -/
theorem Run.symbols_transparent_two :
    (∀ addr size, addr < 100 → addr.toNat + size.toNat < UInt64.size →
      ∃ db', (getSymbols (tableVM twoSyms.syms) addr size).on
        (((Call.getSymbolInfos 5).exec (tableVM twoSyms.syms)).on scriptedDb).2 =
          (.ok (twoSyms.query addr size), db')) ∧
    ∀ addr, addr < 100 → ∃ db', (getSymbolAt (tableVM twoSyms.syms) addr).on
        (((Call.getSymbolInfos 5).exec (tableVM twoSyms.syms)).on scriptedDb).2 =
          (.ok (twoSyms.queryAt addr), db') := by
  have hrun : Run (tableVM twoSyms.syms) scriptedDb ([] ++ [.call (.getSymbolInfos 5)])
      (((Call.getSymbolInfos 5).exec (tableVM twoSyms.syms)).on scriptedDb).2 :=
    .step .start (.call (r := .error (.vmError [])) rfl trivial)
  exact Run.symbols_transparent (tableVM_serves twoSyms) (by decide) (by decide)
    ⟨⟨.ok, 4⟩, 0, rfl⟩ rfl hrun

end Debugger

end Odb
